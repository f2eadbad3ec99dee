import OpenAir.Phy.PdcchMapping
import Mathlib.Data.List.ProdSigma
import Mathlib.Data.List.Flatten
import Mathlib.Data.Fin.VecNotation

/-! What the UE gets of the PDCCH: the walks of `PdcchMapping` meet on the same resource
elements, and the quadruplets come back in order. -/
namespace OpenAir.Phy.Pdcch

variable {p : Region} {cell : Nat × Nat}

def Region.carriers (p : Region) (cell : Nat × Nat) : List Nat :=
  if cell.2 = 0 then p.free.map (cell.1 + ·) else (List.range 4).map (cell.1 + ·)

/-- The first subcarrier of the group with a number. -/
def groupStart (reg lprime : Nat) : Nat × Nat := (if lprime = 0 then 6 * reg else 4 * reg, lprime)

/-- The PCFICH, or one of the `Ngroup_PHICH * mi` groups that `get_nquad` counts. -/
def Region.reserved (p : Region) (kprime lprime : Nat) : Bool :=
  p.onPcfich kprime lprime || p.onPhich (p.ngroupPhich * p.mi) kprime lprime

/-- What the two ends promise each other in a subframe. -/
structure PdcchUndone (p : Region) : Prop where
  deinterleaved : ∀ {Quad : Type} (mquad nidCell : Nat) (wtemp wbar z wtemp' z' : Nat → Quad),
    1 ≤ mquad → mquad ≤ msymb / 4 →
    ∃ sent received, pdcchInterleaving mquad nidCell wtemp wbar z = some sent ∧
      pdcchDeinterleaving mquad nidCell wtemp' z' sent = some received ∧ ∀ quad < mquad,
        received quad = z quad
  interleaves : ∀ {Quad : Type} (wtemp wbar z : Nat → Quad),
    (pdcchInterleaving (getNquad p) p.nidCell wtemp wbar z).isSome
  deinterleaves : ∀ {Quad : Type} (wtemp wbar z : Nat → Quad),
    (pdcchDeinterleaving (getNquad p) p.nidCell wtemp z wbar).isSome
  meet : ∀ m < 4 * getNquad p, ∃ index, (generateDciTop p)[m]? = some (p.source index) ∧
    (pdcchDemapping p)[m]? = some index
  once : (generateDciTop p).Nodup
  free : ∀ lprime < p.numPdcchSymbols, ∀ subcarrier < 12 * p.nRbDl,
    p.reserved subcarrier lprime = true →
    p.element lprime subcarrier ∉ generateDciTop p
  /-- `wbar` of the eNB -/
  sent : (generateDciTop p).length ≤ msymb
  /-- `txdataF`: the control region of the subframe -/
  txdataF : ∀ index ∈ generateDciTop p, p.symbolOffset 0 ≤ index ∧
    index < p.symbolOffset p.numPdcchSymbols
  /-- `wbar` of the UE -/
  received : (pdcchDemapping p).length ≤ 2 * 4 * 100 * 12
  llr : ∀ index ∈ pdcchDemapping p, index < 2 * 4 * 100 * 12

section Elements

theorem Region.sentTo_carriers (member : cell ∈ p.regs) :
    p.sentTo cell = (p.carriers cell).map (p.element cell.2) := by
  obtain ⟨inside, _, left⟩ := p.mem_regs member
  obtain ⟨kprime, lprime⟩ := cell
  by_cases first : lprime = 0
  · subst first
    have begins := p.left_first left
    rw [p.sentTo_first begins, Region.carriers, if_pos rfl, List.map_map]
    refine List.map_congr_left fun i member => ?_
    have small := p.free_small member
    simp only [Function.comp_apply, Region.element, Region.carrier, Nat.add_assoc]
    congr 1
    split <;> split <;> omega
  · rw [p.sentTo_later first (p.left_later first left) inside, Region.carriers,
      if_neg first, List.map_map]
    rfl

theorem Region.carriers_group {subcarrier : Nat} (cellIn : cell ∈ p.regs)
    (member : subcarrier ∈ p.carriers cell) :
    subcarrier < 12 * p.nRbDl ∧ regNumber subcarrier cell.2 = regNumber cell.1 cell.2 ∧
      cell = groupStart (regNumber cell.1 cell.2) cell.2 := by
  obtain ⟨inside, _, left⟩ := p.mem_regs cellIn
  obtain ⟨kprime, lprime⟩ := cell
  have within : kprime < 12 * p.nRbDl := inside
  by_cases first : lprime = 0
  · subst first
    have begins := p.left_first left
    rw [Region.carriers, if_pos rfl] at member
    obtain ⟨i, place, rfl⟩ := List.mem_map.mp member
    have small := p.free_small place
    simp only [regNumber, groupStart, if_true, Prod.mk.injEq, and_true]
    omega
  · have begins := p.left_later first left
    rw [Region.carriers, if_neg first] at member
    obtain ⟨i, place, rfl⟩ := List.mem_map.mp member
    have small := List.mem_range.mp place
    simp only [regNumber, groupStart, if_neg first, Prod.mk.injEq, and_true]
    omega

theorem Region.carriers_nodup (p : Region) (cell : Nat × Nat) : (p.carriers cell).Nodup := by
  rw [Region.carriers]
  split
  · exact (List.nodup_range.filter _).map fun _ _ same => Nat.add_left_cancel same
  · exact List.nodup_range.map fun _ _ same => Nat.add_left_cancel same

theorem Region.carriers_some (cellIn : cell ∈ p.regs) :
    ∃ subcarrier, subcarrier ∈ p.carriers cell := by
  have length : (p.carriers cell).length = 4 := by
    have sent := Region.sentTo_length (p.mem_regs cellIn).2.2
    rwa [p.sentTo_carriers cellIn, List.length_map] at sent
  exact List.exists_mem_of_length_pos (by omega)

theorem Region.element_injective {lprime lprime' subcarrier subcarrier' : Nat}
    (inside : subcarrier < 12 * p.nRbDl)
    (inside' : subcarrier' < 12 * p.nRbDl)
    (same : p.element lprime subcarrier = p.element lprime' subcarrier') :
    lprime = lprime' ∧ subcarrier = subcarrier' := by
  have wide := p.wide
  have place : ∀ {k}, k < 12 * p.nRbDl →
      (if k < 6 * p.nRbDl then p.firstCarrierOffset + k else k - 6 * p.nRbDl + 1) <
          p.ofdmSymbolSize := by
    intro k small
    unfold Region.firstCarrierOffset
    split <;> omega
  have size : 0 < p.ofdmSymbolSize := by omega
  unfold Region.element Region.symbolOffset at same
  have quotient := congrArg (· / p.ofdmSymbolSize) same
  have rest := congrArg (· % p.ofdmSymbolSize) same
  simp only [Nat.mul_add_div size, Nat.mul_add_mod, Nat.div_eq_of_lt (place inside),
    Nat.div_eq_of_lt (place inside'), Nat.mod_eq_of_lt (place inside),
      Nat.mod_eq_of_lt (place inside')] at quotient rest
  refine ⟨by omega, ?_⟩
  unfold Region.firstCarrierOffset at rest
  split at rest <;> split at rest <;> omega

theorem Region.element_within {lprime subcarrier : Nat} (inside : subcarrier < 12 * p.nRbDl)
    (early : lprime < p.numPdcchSymbols) :
    p.symbolOffset 0 ≤ p.element lprime subcarrier ∧ p.element lprime subcarrier <
    p.symbolOffset p.numPdcchSymbols := by
  have wide := p.wide
  have rows : p.ofdmSymbolSize * (lprime + 1) ≤ p.ofdmSymbolSize * p.numPdcchSymbols :=
    Nat.mul_le_mul_left _ early
  have place :
    (if subcarrier < 6 * p.nRbDl then p.firstCarrierOffset + subcarrier
    else subcarrier - 6 * p.nRbDl + 1) <
      p.ofdmSymbolSize := by
    unfold Region.firstCarrierOffset
    split <;> omega
  unfold Region.element Region.symbolOffset
  simp only [Nat.mul_add, Nat.zero_add, Nat.mul_one] at rows ⊢
  omega

end Elements

section Written

theorem mem_generateDciTop {index : Nat} : index ∈ generateDciTop p ↔
    ∃ cell ∈ p.regs.take p.cap, ∃ subcarrier ∈ p.carriers cell,
      p.element cell.2 subcarrier = index := by
  rw [generateDciTop_eq, List.mem_flatMap]
  constructor
  · rintro ⟨cell, member, found⟩
    rw [p.sentTo_carriers (List.mem_of_mem_take member), List.mem_map] at found
    exact ⟨cell, member, found⟩
  · rintro ⟨cell, member, found⟩
    refine ⟨cell, member, ?_⟩
    rw [p.sentTo_carriers (List.mem_of_mem_take member), List.mem_map]
    exact found

theorem Region.regs_nodup (p : Region) : p.regs.Nodup := by
  have cells : ((List.range (12 * p.nRbDl)).flatMap p.row).Nodup :=
    List.Nodup.product (List.nodup_range (n := 12 * p.nRbDl))
      (List.nodup_range (n := p.numPdcchSymbols))
  exact cells.filter _

theorem Region.sent_nodup (p : Region) : (p.regs.flatMap p.sentTo).Nodup := by
  rw [List.nodup_flatMap]
  constructor
  · intro cell member
    rw [p.sentTo_carriers member]
    refine List.Nodup.map_on (fun i first j second same => ?_) (p.carriers_nodup cell)
    exact (p.element_injective (p.carriers_group member first).1
      (p.carriers_group member second).1 same).2
  · refine p.regs_nodup.pairwise_of_forall_ne fun cell member other found apart => ?_
    intro index sent sent'
    rw [p.sentTo_carriers member, List.mem_map] at sent
    rw [p.sentTo_carriers found, List.mem_map] at sent'
    obtain ⟨i, first, place⟩ := sent
    obtain ⟨j, second, place'⟩ := sent'
    obtain ⟨inside, group, starts⟩ := p.carriers_group member first
    obtain ⟨inside', group', starts'⟩ := p.carriers_group found second
    obtain ⟨symbol, same⟩ := p.element_injective inside inside' (place.trans place'.symm)
    apply apart
    rw [starts, starts', ← group, ← group', symbol, same]

theorem generateDciTop_nodup (p : Region) : (generateDciTop p).Nodup := by
  have front : (generateDciTop p).Sublist (p.regs.flatMap p.sentTo) := by
    rw [generateDciTop_eq]
    exact (List.take_sublist ..).flatMap p.sentTo
  exact p.sent_nodup.sublist front

theorem generateDciTop_length (p : Region) :
    (generateDciTop p).length = 4 * min p.cap p.regs.length := by
  rw [generateDciTop_eq, flatMap_length fun cell member =>
    Region.sentTo_length (p.mem_regs (List.mem_of_mem_take member)).2.2, List.length_take]

end Written

section Read

theorem Region.symbols_few (p : Region) : p.numPdcchSymbols ≤ 3 := by
  have listed := p.symbols
  simp only [List.mem_cons, List.not_mem_nil, or_false] at listed
  omega

theorem Region.blocks_few (p : Region) : p.nRbDl ≤ 100 := by
  have listed := p.bandwidth
  simp only [List.mem_cons, List.not_mem_nil, or_false] at listed
  omega

theorem Region.readFrom_small {index : Nat} (cellIn : cell ∈ p.regs)
    (member : index ∈ p.readFrom cell) : index < 3600 := by
  obtain ⟨inside, early, left⟩ := p.mem_regs cellIn
  obtain ⟨kprime, lprime⟩ := cell
  have within : kprime < 12 * p.nRbDl := inside
  have symbol : lprime < p.numPdcchSymbols := early
  have few := p.symbols_few
  have blocks := p.blocks_few
  obtain ⟨i, place, rfl⟩ := List.mem_map.mp member
  have small := List.mem_range.mp place
  have rows : p.nRbDl * 12 * (lprime + 1) ≤ 1200 * 3 := Nat.mul_le_mul (by omega) (by omega)
  rw [Nat.mul_add] at rows
  by_cases first : lprime = 0
  · subst first
    simp only [if_true]
    omega
  · have begins := p.left_later first left
    simp only [if_neg first]
    omega

theorem Region.regs_few (p : Region) : 4 * p.regs.length ≤ 3600 := by
  have distinct : (p.regs.flatMap p.readFrom).Nodup := by
    apply List.Nodup.of_map p.source
    rw [List.map_flatMap, List.flatMap_congr fun cell member => p.readFrom_source member]
    exact p.sent_nodup
  have inside : p.regs.flatMap p.readFrom ⊆ List.range 3600 := by
    intro index member
    obtain ⟨cell, found, read⟩ := List.mem_flatMap.mp member
    exact List.mem_range.mpr (p.readFrom_small found read)
  have few := (List.subperm_of_subset distinct inside).length_le
  rwa [flatMap_length fun cell _ => p.readFrom_length cell, List.length_range] at few

theorem pdcchDemapping_length (p : Region) : (pdcchDemapping p).length ≤ 3600 := by
  obtain ⟨held, _⟩ := ueRows_at p (12 * p.nRbDl)
  exact held.count.trans p.regs_few

theorem pdcchDemapping_small {index : Nat} (member : index ∈ pdcchDemapping p) : index < 3600 := by
  obtain ⟨held, _⟩ := ueRows_at p (12 * p.nRbDl)
  obtain ⟨cell, found, read⟩ := held.reads index member
  exact p.readFrom_small found read

/-- Every symbol that is sent is read at the same place in the sequence. -/
theorem pdcch_meet {m : Nat} (sent : m < (generateDciTop p).length) :
    ∃ index, (generateDciTop p)[m]? = some (p.source index) ∧
      (pdcchDemapping p)[m]? = some index := by
  have read := pdcchDemapping_prefix p
  have groups : ((p.regs.take p.cap).flatMap p.readFrom).map p.source = generateDciTop p := by
    rw [generateDciTop_eq, List.map_flatMap]
    exact List.flatMap_congr fun cell member => p.readFrom_source (List.mem_of_mem_take member)
  rw [← groups, List.length_map] at sent
  refine ⟨((p.regs.take p.cap).flatMap p.readFrom)[m], ?_, ?_⟩
  · rw [← groups, List.getElem?_map, List.getElem?_eq_getElem sent]
    rfl
  · obtain ⟨rest, out⟩ := read
    rw [← out, List.getElem?_append_left sent, List.getElem?_eq_getElem sent]

end Read

section Reserved

theorem Region.onPhich_iff {groups kprime lprime : Nat} : p.onPhich groups kprime lprime = true ↔
    (lprime = 0 ∨ p.extended = true) ∧ ∃ g < groups, ∃ j, regNumber kprime lprime =
    p.phichReg g j := by
  simp only [Region.onPhich, Bool.and_eq_true, Bool.or_eq_true, decide_eq_true_eq, List.any_eq_true,
    List.mem_range, List.mem_finRange, true_and]

/-- Only the number of its group decides whether a subcarrier is reserved. -/
theorem Region.reserved_congr {kprime subcarrier lprime : Nat}
    (same : regNumber subcarrier lprime = regNumber kprime lprime) :
    p.reserved subcarrier lprime = p.reserved kprime lprime := by
  rw [Region.reserved, Region.reserved, Region.onPcfich, Region.onPcfich, Region.onPhich,
    Region.onPhich, same]

/-- A group that `check_phich_reg` leaves is reserved only through a PHICH group from
`Ngroup_PHICH` on. -/
theorem Region.reserved_left (left : p.left cell = true)
    (reserved : p.reserved cell.1 cell.2 = true) :
    (cell.2 = 0 ∨ p.extended = true) ∧
      ∃ g, p.ngroupPhich ≤ g ∧ g < p.ngroupPhich * p.mi ∧ ∃ j, regNumber cell.1 cell.2 =
        p.phichReg g j := by
  have unchecked : checkPhichReg p cell.1 cell.2 = false := by
    simpa using (Bool.and_eq_true_iff.mp left).2
  rw [checkPhichReg] at unchecked
  split at unchecked
  · -- no PCFICH and no PHICH in the later symbols
    rename_i later
    obtain onPcfich | onPhich := Bool.or_eq_true_iff.mp reserved
    · have first := of_decide_eq_true (Bool.and_eq_true_iff.mp onPcfich).1
      exact absurd first (Nat.ne_of_gt later.1)
    · obtain ⟨first | extended, _⟩ := p.onPhich_iff.mp onPhich
      · exact absurd first (Nat.ne_of_gt later.1)
      · exact absurd extended later.2
  · obtain ⟨noPcfich, noPhich⟩ := Bool.or_eq_false_iff.mp unchecked
    obtain onPcfich | onPhich := Bool.or_eq_true_iff.mp reserved
    · exact absurd (noPcfich.symm.trans onPcfich) Bool.false_ne_true
    · obtain ⟨symbol, g, few, j, number⟩ := p.onPhich_iff.mp onPhich
      refine ⟨symbol, g, ?_, few, j, number⟩
      by_contra below
      have some_ : 0 < p.mi := by
        cases none_ : p.mi with
        | zero =>
          rw [none_, Nat.mul_zero] at few
          cases few
        | succ mi => exact Nat.succ_pos mi
      have found : p.onPhich p.ngroupPhich cell.1 cell.2 = true :=
        p.onPhich_iff.mpr ⟨symbol, g, Nat.lt_of_not_le below, j, number⟩
      rw [found, decide_eq_true some_] at noPhich
      cases noPhich

/-- No group of a PHICH beyond `Ngroup_PHICH` is among those the PDCCH is sent on. -/
def Region.SparesPhich (p : Region) : Prop :=
  ∀ g j lprime, p.ngroupPhich ≤ g → g < p.ngroupPhich * p.mi → (lprime = 0 ∨ p.extended = true) →
    groupStart (p.phichReg g j) lprime ∉ p.regs.take p.cap

theorem generateDciTop_free_iff :
    (∀ lprime < p.numPdcchSymbols, ∀ subcarrier <
        12 * p.nRbDl, p.reserved subcarrier lprime = true →
      p.element lprime subcarrier ∉ generateDciTop p) ↔ p.SparesPhich := by
  constructor
  · intro free g j lprime beyond counted symbol member
    have found := List.mem_of_mem_take member
    obtain ⟨subcarrier, carries⟩ := p.carriers_some found
    obtain ⟨inside, number, _⟩ := p.carriers_group found carries
    have start : regNumber (groupStart (p.phichReg g j) lprime).1 lprime = p.phichReg g j := by
      unfold regNumber groupStart
      split <;> omega
    have onPhich : p.onPhich (p.ngroupPhich * p.mi) subcarrier lprime = true :=
      p.onPhich_iff.mpr ⟨symbol, g, counted, j, number.trans start⟩
    have reserved : p.reserved subcarrier lprime = true := Bool.or_eq_true_iff.mpr (.inr onPhich)
    refine free lprime (p.mem_regs found).2.1 subcarrier inside reserved ?_
    exact mem_generateDciTop.mpr ⟨_, member, subcarrier, carries, rfl⟩
  · intro spares lprime _ subcarrier inside reserved sent
    obtain ⟨cell, member, carrier, carries, same⟩ := mem_generateDciTop.mp sent
    have found := List.mem_of_mem_take member
    obtain ⟨within, number, starts⟩ := p.carriers_group found carries
    obtain ⟨rfl, rfl⟩ := p.element_injective within inside same
    rw [p.reserved_congr number] at reserved
    obtain ⟨symbol, g, beyond, counted, j, group⟩ := p.reserved_left (p.mem_regs found).2.2 reserved
    refine spares g j cell.2 beyond counted symbol ?_
    rw [← group, ← starts]
    exact member

end Reserved

section Undone

theorem wrapped_le {nreg groups limit : Nat} (several : 4 ≤ nreg) (few : nreg ≤ 65536)
    (small : groups < 256)
    (fits : (nreg + 65536 - 4 - 3 * groups) % 65536 ≤ limit) (low : limit < 60000) :
    (nreg + 65536 - 4 - 3 * groups) % 65536 ≤ nreg - 4 := by
  by_cases wraps : nreg + 65536 - 4 - 3 * groups < 65536
  · rw [Nat.mod_eq_of_lt wraps] at fits
    omega
  · omega

theorem getNquad_cap (fits : getNquad p ≤ msymb / 4) : getNquad p ≤ p.cap := by
  have few := p.symbols_few
  have listed := p.bandwidth
  simp only [List.mem_cons, List.not_mem_nil, or_false] at listed
  have groups : p.ngroupPhich * p.mi % 256 < 256 := Nat.mod_lt _ (by decide)
  have limit : msymb / 4 = 792 := by decide
  rw [limit] at fits
  unfold getNquad at fits ⊢
  unfold Region.cap Region.msymb2 msymb dciBitsMax
  obtain same | same | same | same := listed
  all_goals
    simp only [same] at fits ⊢
    have most := wrapped_le (by omega) (by omega) groups fits (by decide)
    omega

theorem pdcchDeinterleaving_isSome {Quad : Type} {mquad nidCell : Nat} {wtemp z wbar : Nat → Quad}
    (fits : mquad ≤ msymb / 4) : (pdcchDeinterleaving mquad nidCell wtemp z wbar).isSome := by
  cases mquad with
  | zero => rfl
  | succ mquad =>
    obtain ⟨after, done, _⟩ :
      ∃ after, pdcchDeinterleaving (mquad + 1) nidCell wtemp z wbar = some after ∧
        ∀ i < mquad + 1,
            after ((quadOrder (mquad + 1)).getD ((i + nidCell) % (mquad + 1)) 0) = wbar i :=
      pdcchDeinterleaving_get (Nat.succ_pos mquad) fits
    rw [done]
    rfl

/-- The number of quadruplets must fit the arrays, there must be as many groups, and none of
them in a PHICH that `check_phich_reg` does not know. -/
theorem pdcchUndone_iff (p : Region) :
    PdcchUndone p ↔ getNquad p ≤ msymb / 4 ∧ getNquad p ≤ p.regs.length ∧ p.SparesPhich := by
  have written := generateDciTop_length p
  constructor
  · intro undone
    refine ⟨pdcchInterleaving_isSome.mp (undone.interleaves id id id), ?_,
      generateDciTop_free_iff.mp undone.free⟩
    by_contra more
    obtain ⟨index, sent, _⟩ := undone.meet (4 * getNquad p - 1) (by omega)
    have inside := (List.getElem?_eq_some_iff.mp sent).1
    omega
  · rintro ⟨fits, enough, spares⟩
    have cap := getNquad_cap fits
    constructor
    case deinterleaved => exact fun _ _ _ _ _ _ _ some_ few => pdcch_deinterleaved some_ few
    case interleaves => exact fun _ _ _ => pdcchInterleaving_isSome.mpr fits
    case deinterleaves => exact fun _ _ _ => pdcchDeinterleaving_isSome fits
    case meet =>
      intro m inside
      apply pdcch_meet
      omega
    case once => exact generateDciTop_nodup p
    case free => exact generateDciTop_free_iff.mpr spares
    case sent =>
      have listed := p.bandwidth
      simp only [List.mem_cons, List.not_mem_nil, or_false] at listed
      have symbols : p.cap ≤ msymb / 4 := by
        unfold Region.cap Region.msymb2
        obtain same | same | same | same := listed <;> rw [same] <;> decide
      have whole : 4 * (msymb / 4) = msymb := by decide
      omega
    case txdataF =>
      intro index member
      obtain ⟨cell, found, subcarrier, carries, rfl⟩ := mem_generateDciTop.mp member
      have left := List.mem_of_mem_take found
      exact p.element_within (p.carriers_group left carries).1 (p.mem_regs left).2.1
    case received => exact (pdcchDemapping_length p).trans (by decide)
    case llr => exact fun index member => (pdcchDemapping_small member).trans (by decide)

/-- Twenty megahertz with three symbols in a subframe without PHICH, as subframe 0 of TDD
configuration 1. -/
def wideRegion : Region where
  nRbDl := 100
  bandwidth := by decide
  numPdcchSymbols := 3
  symbols := by decide
  extended := false
  phichResource := 6
  resource := by decide
  mi := 0
  pcfichReg := ![0, 50, 100, 150]
  phichReg := fun g j => 1 + g + 66 * j
  nushift := 0
  ofdmSymbolSize := 2048
  wide := by decide
  subframe := 0
  nidCell := 0

/-- 796 quadruplets, in arrays of 792. -/
theorem wideRegion_overflow : ¬ PdcchUndone wideRegion := by
  intro undone
  have fits : getNquad wideRegion ≤ msymb / 4 :=
    pdcchInterleaving_isSome.mp (undone.interleaves id id id)
  exact absurd fits (by decide)

end Undone

end OpenAir.Phy.Pdcch
