import OpenAir.Phy.PdcchInterleave
import OpenAir.Lib.Blocks
import Mathlib.Tactic.IntervalCases

/-! The PDCCH on the resource elements of a subframe. The eNB walks over the subcarriers, the
UE over the elements it has extracted; both leave out the resource-element groups that
`check_phich_reg` knows. One or two antenna ports. -/
namespace OpenAir.Phy.Pdcch

/-- The control region of a subframe, out of `LTE_DL_FRAME_PARMS`. -/
structure Region where
  nRbDl : Nat
  bandwidth : nRbDl ∈ [6, 25, 50, 100]
  numPdcchSymbols : Nat
  symbols : numPdcchSymbols ∈ [1, 2, 3]
  /-- `Ncp == 1` -/
  extended : Bool
  /-- Six times the number of the standard. -/
  phichResource : Nat
  resource : phichResource ∈ [1, 3, 6, 12]
  mi : Nat
  pcfichReg : Fin 4 → Nat
  phichReg : Nat → Fin 3 → Nat
  nushift : Nat
  ofdmSymbolSize : Nat
  wide : 12 * nRbDl < ofdmSymbolSize
  subframe : Nat
  nidCell : Nat

variable (p : Region)

/-- `Ngroup_PHICH`, before it is multiplied by `mi`. -/
def Region.ngroupPhich : Nat :=
  let ngroup := p.phichResource * p.nRbDl / 48 + if 0 < p.phichResource * p.nRbDl % 48 then 1 else 0
  if p.extended then 2 * ngroup else ngroup

/-- The number of a resource-element group in its symbol. -/
def regNumber (kprime lprime : Nat) : Nat := if lprime = 0 then kprime / 6 else kprime / 4

def Region.onPcfich (kprime lprime : Nat) : Bool :=
  decide (lprime = 0) && (List.finRange 4).any fun i => regNumber kprime lprime = p.pcfichReg i

/-- With a normal cyclic prefix the PHICH is in the first symbol only. -/
def Region.onPhich (groups kprime lprime : Nat) : Bool :=
  (decide (lprime = 0) || p.extended) && (List.range groups).any fun g =>
    (List.finRange 3).any fun j => regNumber kprime lprime = p.phichReg g j

/-- The groups are not multiplied by `mi` here. -/
def checkPhichReg (kprime lprime : Nat) : Bool :=
  if 0 < lprime ∧ ¬ p.extended then false
  else p.onPcfich kprime lprime || (decide (0 < p.mi) && p.onPhich p.ngroupPhich kprime lprime)

/-- The groups of the PHICH are `uint8_t`, the result is `uint16_t`. -/
def getNquad : Nat :=
  let nreg :=
    match p.nRbDl with
    | 6 => 12 + (p.numPdcchSymbols - 1) * 18
    | 25 => 50 + (p.numPdcchSymbols - 1) * 75
    | 50 => 100 + (p.numPdcchSymbols - 1) * 150
    | 100 => 200 + (p.numPdcchSymbols - 1) * 300
    | _ => 0
  (nreg + 65536 - 4 - 3 * (p.ngroupPhich * p.mi % 256)) % 65536

def Region.msymb2 : Nat :=
  match p.nRbDl with
  | 100 => msymb
  | 75 => 3 * msymb / 4
  | 50 => msymb / 2
  | 25 => msymb / 4
  | 15 => msymb * 15 / 100
  | 6 => msymb * 6 / 100
  | _ => msymb / 4

def Region.symbolOffset (lprime : Nat) : Nat :=
  p.ofdmSymbolSize * (lprime + p.subframe * if p.extended then 12 else 14)

def Region.firstCarrierOffset : Nat := p.ofdmSymbolSize - 6 * p.nRbDl

/-- The indices in `txdataF` that a group is written to; none when the subcarrier does not
begin a group. -/
def enbReg (reOffset kprime lprime : Nat) : List Nat :=
  let ttiOffset := p.symbolOffset lprime + reOffset
  if lprime = 0 then
    if kprime % 12 = 0 ∨ kprime % 12 = 6 then
      ((List.range 6).filter fun i => i ≠ p.nushift % 3 ∧ i ≠ p.nushift % 3 + 3).map (ttiOffset + ·)
    else []
  else if kprime % 12 = 0 ∨ kprime % 12 = 4 ∨ kprime % 12 = 8 then
    -- a group around the carrier in the middle
    if reOffset = p.ofdmSymbolSize - 2 then
      [ttiOffset, ttiOffset + 1, ttiOffset + 3 - p.ofdmSymbolSize, ttiOffset + 4 - p.ofdmSymbolSize]
    else (List.range 4).map (ttiOffset + ·)
  else []

structure EnbWalk where
  /-- Where the symbols of `wbar` went, one after the other; there are `mprime` of them. -/
  out : List Nat
  reOffset : Nat
  returned : Bool

def enbCell (kprime : Nat) (s : EnbWalk) (lprime : Nat) : EnbWalk :=
  if s.returned then s
  else if checkPhichReg p kprime lprime then s
  else
    let out := s.out ++ enbReg p s.reOffset kprime lprime
    { s with out := out, returned := decide (p.msymb2 ≤ out.length) }

def enbRow (s : EnbWalk) (kprime : Nat) : EnbWalk :=
  let s := (List.range p.numPdcchSymbols).foldl (enbCell p kprime) s
  if s.returned then s
  else { s with reOffset := if s.reOffset + 1 = p.ofdmSymbolSize then 1 else s.reOffset + 1 }

/-- The last part of `generate_dci_top`. -/
def generateDciTop : List Nat :=
  ((List.range (12 * p.nRbDl)).foldl (enbRow p) ⟨[], p.firstCarrierOffset, false⟩).out

structure UeWalk where
  /-- The indices in `llr` that the entries of `wbar` were read from. -/
  out : List Nat
  reOffset : Nat
  reOffset0 : Nat

def ueCell (kprime lprime : Nat) (s : UeWalk) : UeWalk :=
  let symbolOffset := p.nRbDl * 12 * lprime
  if checkPhichReg p kprime lprime then
    if lprime = 0 ∧ kprime % 6 = 0 then { s with reOffset0 := s.reOffset0 + 4 } else s
  else if lprime = 0 then
    if kprime % 12 = 0 ∨ kprime % 12 = 6 then
      { s with
        out := s.out ++ (List.range 4).map (symbolOffset + s.reOffset0 + ·)
        reOffset0 := s.reOffset0 + 4 }
    else s
  else if kprime % 12 = 0 ∨ kprime % 12 = 4 ∨ kprime % 12 = 8 then
    { s with out := s.out ++ (List.range 4).map (symbolOffset + s.reOffset + ·) }
  else s

/-- The stop ends only the loop over the symbols. -/
def ueSymbols (kprime : Nat) : List Nat → UeWalk → UeWalk
  | [], s => s
  | lprime :: rest, s =>
    let s := ueCell p kprime lprime s
    if p.msymb2 ≤ s.out.length then s else ueSymbols kprime rest s

def ueRow (s : UeWalk) (kprime : Nat) : UeWalk :=
  let s := ueSymbols p kprime (List.range p.numPdcchSymbols) s
  { s with reOffset := s.reOffset + 1 }

def pdcchDemapping : List Nat := ((List.range (12 * p.nRbDl)).foldl (ueRow p) ⟨[], 0, 0⟩).out

/-- The index in `txdataF` of a subcarrier, the one in the middle left out. -/
def Region.element (lprime subcarrier : Nat) : Nat :=
  p.symbolOffset lprime +
    if subcarrier < 6 * p.nRbDl then p.firstCarrierOffset + subcarrier
      else subcarrier - 6 * p.nRbDl + 1

/-- The extraction of the UE: all elements of a symbol without pilots, in frequency order. -/
def Region.extracted (lprime : Nat) : List Nat :=
  ((List.range (12 * p.nRbDl)).filter
    fun subcarrier => lprime ≠ 0 ∨ subcarrier % 3 ≠ p.nushift % 3).map (p.element lprime)

/-- What an entry of `llr` was extracted from. -/
def Region.source (index : Nat) : Nat :=
  (p.extracted (index / (p.nRbDl * 12))).getD (index % (p.nRbDl * 12)) 0

/-- The subcarrier begins a resource-element group, and nothing else is in it. -/
def Region.left (cell : Nat × Nat) : Bool :=
  (if cell.2 = 0 then decide (cell.1 % 6 = 0) else decide (cell.1 % 4 = 0)) &&
    !checkPhichReg p cell.1 cell.2

def Region.row (kprime : Nat) : List (Nat × Nat) :=
  (List.range p.numPdcchSymbols).map fun lprime => (kprime, lprime)

/-- The groups that are left for the PDCCH, in the order of both walks. -/
def Region.regs : List (Nat × Nat) := ((List.range (12 * p.nRbDl)).flatMap p.row).filter p.left

/-- The groups until `Msymb2` symbols are reached. -/
def Region.cap : Nat := (p.msymb2 + 3) / 4

/-- The running offset of the eNB. -/
def Region.carrier (kprime : Nat) : Nat :=
  if kprime < 6 * p.nRbDl then p.firstCarrierOffset + kprime else kprime - 6 * p.nRbDl + 1

def Region.sentTo (cell : Nat × Nat) : List Nat := enbReg p (p.carrier cell.1) cell.1 cell.2

def Region.readFrom (cell : Nat × Nat) : List Nat :=
  (List.range 4).map ((p.nRbDl * 12 * cell.2 + if cell.2 = 0 then 4 * (cell.1 / 6) else cell.1) + ·)

section Walks
variable {p} {kprime lprime : Nat} {done : List (Nat × Nat)}

theorem Region.msymb2_pos (p : Region) : 0 < p.msymb2 := by
  have listed := p.bandwidth
  simp only [List.mem_cons, List.not_mem_nil, or_false] at listed
  obtain same | same | same | same := listed <;> rw [Region.msymb2, same] <;> decide

theorem pilots_length (nushift : Nat) :
    ((List.range 6).filter fun i => i ≠ nushift % 3 ∧ i ≠ nushift % 3 + 3).length = 4 := by
  have small : nushift % 3 < 3 := Nat.mod_lt _ (by decide)
  interval_cases nushift % 3 <;> rfl

theorem enbReg_length (reOffset : Nat) : (enbReg p reOffset kprime lprime).length =
    if (if lprime = 0 then decide (kprime % 6 = 0) else decide (kprime % 4 = 0)) =
    true then 4 else 0 := by
  unfold enbReg
  by_cases first : lprime = 0
  · simp only [if_pos first, decide_eq_true_eq]
    by_cases begins : kprime % 6 = 0
    · rw [if_pos (by omega), if_pos begins, List.length_map]
      exact pilots_length p.nushift
    · rw [if_neg (by omega), if_neg begins]
      rfl
  · simp only [if_neg first, decide_eq_true_eq]
    by_cases begins : kprime % 4 = 0
    · rw [if_pos (by omega), if_pos begins]
      split <;> rfl
    · rw [if_neg (by omega), if_neg begins]
      rfl

theorem flatMap_length {f : Nat × Nat → List Nat} {cells : List (Nat × Nat)}
    (four : ∀ cell ∈ cells, (f cell).length = 4) :
    (cells.flatMap f).length = 4 * cells.length := by
  induction cells with
  | nil => rfl
  | cons cell rest ih =>
    rw [List.flatMap_cons, List.length_append, four cell List.mem_cons_self,
      ih fun other member => four other (List.mem_cons_of_mem _ member), List.length_cons]
    omega

theorem Region.sentTo_length {cell : Nat × Nat} (left : p.left cell = true) :
    (p.sentTo cell).length = 4 := by
  have begins := (Bool.and_eq_true_iff.mp left).1
  rw [Region.sentTo, enbReg_length, if_pos begins]

theorem Region.readFrom_length (cell : Nat × Nat) : (p.readFrom cell).length = 4 := rfl

theorem lefts_length (cells : List (Nat × Nat)) :
    ((cells.filter p.left).flatMap p.sentTo).length = 4 * (cells.filter p.left).length :=
  flatMap_length fun _ member => Region.sentTo_length (List.mem_filter.mp member).2

/-- The eNB after some cells: it has written all groups that are left in them, or as many as
`Msymb2` allows. -/
structure EnbAt (p : Region) (done : List (Nat × Nat)) (s : EnbWalk) : Prop where
  running : s.returned = false → s.out = (done.filter p.left).flatMap p.sentTo ∧
    s.out.length < p.msymb2
  ended : s.returned = true → ∃ part, part <+: done.filter p.left ∧ part.length = p.cap ∧
    s.out = part.flatMap p.sentTo

theorem filter_kept {cell : Nat × Nat} (left : p.left cell = true) :
    (done ++ [cell]).filter p.left = done.filter p.left ++ [cell] := by
  rw [List.filter_append, List.filter_cons_of_pos left, List.filter_nil]

theorem filter_gone {cell : Nat × Nat} (gone : ¬ p.left cell = true) :
    (done ++ [cell]).filter p.left = done.filter p.left := by
  rw [List.filter_append, List.filter_cons_of_neg gone, List.filter_nil, List.append_nil]

theorem filter_snoc (cell : Nat × Nat) : done.filter p.left <+: (done ++ [cell]).filter p.left := by
  rw [List.filter_append]
  exact List.prefix_append ..

theorem enbCell_at {s : EnbWalk} (held : EnbAt p done s)
    (offset : s.returned = false → s.reOffset = p.carrier kprime) :
    EnbAt p (done ++ [(kprime, lprime)]) (enbCell p kprime s lprime) ∧
      (enbCell p kprime s lprime).reOffset = s.reOffset := by
  unfold enbCell
  cases returned : s.returned with
  | true =>
    rw [if_pos rfl]
    refine ⟨⟨fun running => absurd (running.symm.trans returned) Bool.false_ne_true, fun _ => ?_⟩,
      rfl⟩
    obtain ⟨part, front, full, out⟩ := held.ended returned
    exact ⟨part, front.trans (filter_snoc _), full, out⟩
  | false =>
    obtain ⟨out, few⟩ := held.running returned
    rw [if_neg Bool.false_ne_true]
    by_cases checked : checkPhichReg p kprime lprime = true
    · -- the group belongs to another channel
      rw [if_pos checked]
      have gone : ¬ p.left (kprime, lprime) = true := by
        simp only [Region.left, checked, Bool.not_true, Bool.and_false, Bool.false_eq_true,
          not_false_eq_true]
      refine ⟨⟨fun
        _ => ⟨?_, few⟩, fun ended => absurd (returned.symm.trans ended) Bool.false_ne_true⟩, rfl⟩
      rw [filter_gone gone, out]
    · rw [if_neg checked, offset returned]
      have added : s.out ++ enbReg p (p.carrier kprime) kprime lprime =
          ((done ++ [(kprime, lprime)]).filter p.left).flatMap p.sentTo := by
        by_cases left : p.left (kprime, lprime) = true
        · rw [filter_kept left, List.flatMap_append, ← out, List.flatMap_singleton]
          rfl
        · have begins :
              ¬ (if lprime = 0 then decide (kprime % 6 = 0) else decide (kprime % 4 = 0)) =
              true := by
            intro begins
            exact left (by simp only [Region.left, begins, checked, Bool.not_false, Bool.and_true])
          have none_ : enbReg p (p.carrier kprime) kprime lprime = [] := by
            rw [← List.length_eq_zero_iff, enbReg_length, if_neg begins]
          rw [filter_gone left, ← out, none_, List.append_nil]
      rw [added]
      have four := lefts_length (p := p) (done ++ [(kprime, lprime)])
      have before := lefts_length (p := p) done
      refine ⟨⟨fun running => ⟨rfl, Nat.lt_of_not_le (of_decide_eq_false running)⟩,
        fun ended => ?_⟩, rfl⟩
      have reached := of_decide_eq_true ended
      refine ⟨_, List.prefix_refl _, ?_, rfl⟩
      have one : ((done ++ [(kprime, lprime)]).filter p.left).length ≤
          (done.filter p.left).length + 1 := by
        rw [List.filter_append, List.length_append]
        exact Nat.add_le_add_left (List.length_filter_le ..) _
      rw [out] at few
      rw [Region.cap]
      omega

theorem enbCell_running {s : EnbWalk} (still : (enbCell p kprime s lprime).returned = false) :
    s.returned = false := by
  cases returned : s.returned with
  | false => rfl
  | true =>
    rw [enbCell, returned, if_pos rfl, returned] at still
    exact still

theorem enbCells_running {s : EnbWalk} {lprimes : List Nat}
    (still : (lprimes.foldl (enbCell p kprime) s).returned = false) : s.returned = false := by
  induction lprimes generalizing s with
  | nil => exact still
  | cons lprime rest ih => exact enbCell_running (ih still)

theorem enbCells_at {s : EnbWalk} {lprimes : List Nat} (held : EnbAt p done s)
    (offset : s.returned = false → s.reOffset = p.carrier kprime) :
    EnbAt p (done ++ lprimes.map fun lprime => (kprime, lprime))
      (lprimes.foldl (enbCell p kprime) s) ∧
      (lprimes.foldl (enbCell p kprime) s).reOffset = s.reOffset := by
  induction lprimes generalizing s done with
  | nil =>
    rw [List.map_nil, List.append_nil]
    exact ⟨held, rfl⟩
  | cons lprime rest ih =>
    obtain ⟨next, same⟩ : EnbAt p (done ++ [(kprime, lprime)]) (enbCell p kprime s lprime) ∧
        (enbCell p kprime s lprime).reOffset = s.reOffset := enbCell_at held offset
    obtain ⟨last, kept⟩ := ih next fun still => same.trans (offset (enbCell_running still))
    rw [List.map_cons, ← List.singleton_append, ← List.append_assoc, List.foldl_cons]
    exact ⟨last, kept.trans same⟩

theorem Region.carrier_succ {kprime : Nat} (inside : kprime < 12 * p.nRbDl) :
    (if p.carrier kprime + 1 = p.ofdmSymbolSize then 1 else p.carrier kprime + 1) =
    p.carrier (kprime + 1) := by
  have wide := p.wide
  unfold Region.carrier Region.firstCarrierOffset
  split <;> split <;> split <;> omega

theorem enbRows_at {count : Nat} (inside : count ≤ 12 * p.nRbDl) :
    EnbAt p ((List.range count).flatMap p.row)
      ((List.range count).foldl (enbRow p) ⟨[], p.firstCarrierOffset, false⟩) ∧
      (((List.range count).foldl (enbRow p) ⟨[], p.firstCarrierOffset, false⟩).returned = false →
        ((List.range count).foldl (enbRow p) ⟨[], p.firstCarrierOffset, false⟩).reOffset =
        p.carrier count) := by
  induction count with
  | zero =>
    refine ⟨⟨fun _ => ⟨rfl, p.msymb2_pos⟩, fun ended => absurd ended Bool.false_ne_true⟩,
      fun _ => ?_⟩
    have blocks : 0 < 6 * p.nRbDl := by
      have listed := p.bandwidth
      simp only [List.mem_cons, List.not_mem_nil, or_false] at listed
      omega
    exact (if_pos blocks).symm
  | succ count ih =>
    obtain ⟨held, offset⟩ := ih (Nat.le_of_succ_le inside)
    rw [List.range_succ, List.foldl_append, List.flatMap_append, List.flatMap_singleton,
      List.foldl_cons, List.foldl_nil]
    generalize (List.range count).foldl (enbRow p) ⟨[], p.firstCarrierOffset, false⟩ =
      s at held offset
    obtain ⟨next, same⟩ : EnbAt p ((List.range count).flatMap p.row ++ p.row count)
        ((List.range p.numPdcchSymbols).foldl (enbCell p count) s) ∧
        ((List.range p.numPdcchSymbols).foldl (enbCell p count) s).reOffset = s.reOffset :=
          enbCells_at held offset
    have running : ((List.range p.numPdcchSymbols).foldl (enbCell p count) s).returned = false →
        s.returned = false :=
      enbCells_running
    rw [enbRow]
    generalize (List.range p.numPdcchSymbols).foldl (enbCell p count) s = t at next same running
    cases returned : t.returned with
    | true =>
      rw [if_pos rfl]
      exact ⟨next, fun still => absurd (still.symm.trans returned) Bool.false_ne_true⟩
    | false =>
      rw [if_neg Bool.false_ne_true]
      refine ⟨⟨fun _ => next.running returned, fun ended => absurd ended Bool.false_ne_true⟩,
        fun _ => ?_⟩
      rw [same, offset (running returned)]
      exact p.carrier_succ inside

/-- All the groups that are left, up to `Msymb2` symbols. -/
theorem generateDciTop_eq (p : Region) :
    generateDciTop p = (p.regs.take p.cap).flatMap p.sentTo := by
  obtain ⟨held, _⟩ := enbRows_at (p := p) (Nat.le_refl (12 * p.nRbDl))
  unfold generateDciTop
  generalize (List.range (12 * p.nRbDl)).foldl (enbRow p)
    ⟨[], p.firstCarrierOffset, false⟩ = s at held
  cases returned : s.returned with
  | true =>
    obtain ⟨part, front, full, out⟩ := held.ended returned
    have taken : part = p.regs.take part.length := List.prefix_iff_eq_take.mp front
    rw [out, ← full, ← taken]
  | false =>
    obtain ⟨out, few⟩ := held.running returned
    have short : p.regs.length ≤ p.cap := by
      rw [out, lefts_length] at few
      rw [Region.regs, Region.cap]
      omega
    rw [List.take_of_length_le short]
    exact out

/-- The UE after some cells. Beyond `Msymb2` it reads on, but the first entries stay. -/
structure UeAt (p : Region) (done : List (Nat × Nat)) (s : UeWalk) : Prop where
  below : s.out.length < p.msymb2 → s.out = (done.filter p.left).flatMap p.readFrom
  above : p.msymb2 ≤ s.out.length → ∃ part, part <+: done.filter p.left ∧ part.length = p.cap ∧
    part.flatMap p.readFrom <+: s.out
  count : s.out.length ≤ 4 * (done.filter p.left).length
  reads : ∀ index ∈ s.out, ∃ cell ∈ done.filter p.left, index ∈ p.readFrom cell

theorem UeAt.skip {s : UeWalk} {more : List (Nat × Nat)} (held : UeAt p done s)
    (enough : p.msymb2 ≤ s.out.length) :
    UeAt p (done ++ more) s := by
  have longer : done.filter p.left <+: (done ++ more).filter p.left := by
    rw [List.filter_append]
    exact List.prefix_append ..
  constructor
  case below => exact fun few => absurd enough (Nat.not_le_of_lt few)
  case above =>
    intro _
    obtain ⟨part, front, full, out⟩ := held.above enough
    exact ⟨part, front.trans longer, full, out⟩
  case count => exact held.count.trans (Nat.mul_le_mul_left 4 longer.length_le)
  case reads =>
    intro index member
    obtain ⟨cell, left, read⟩ := held.reads index member
    exact ⟨cell, longer.subset left, read⟩

/-- A cell whose group is not left adds nothing, another one four entries. -/
theorem UeAt.step {s s' : UeWalk} {cell : Nat × Nat} (held : UeAt p done s)
    (gone : ¬ p.left cell = true → s'.out = s.out)
    (kept : p.left cell = true → s'.out = s.out ++ p.readFrom cell) :
    UeAt p (done ++ [cell]) s' := by
  by_cases left : p.left cell = true
  · have out := kept left
    have read : (p.readFrom cell).length = 4 := rfl
    have more : (done ++ [cell]).filter p.left = done.filter p.left ++ [cell] := filter_kept left
    constructor
    case below =>
      intro few
      rw [out, List.length_append] at few
      rw [out, held.below (Nat.lt_of_le_of_lt (Nat.le_add_right ..) few), more, List.flatMap_append,
        List.flatMap_singleton]
    case above =>
      intro reached
      rw [out, List.length_append, read] at reached
      rw [out, more]
      by_cases enough : p.msymb2 ≤ s.out.length
      · obtain ⟨part, front, full, before⟩ := held.above enough
        exact ⟨part, front.trans (List.prefix_append ..), full,
          before.trans (List.prefix_append ..)⟩
      · have before := held.below (Nat.lt_of_not_le enough)
        have four : s.out.length = 4 * (done.filter p.left).length := by
          rw [before]
          exact flatMap_length fun _ _ => rfl
        refine ⟨_, List.prefix_refl _, ?_, ?_⟩
        · rw [List.length_append, List.length_singleton, Region.cap]
          omega
        · have all : ((done.filter p.left ++ [cell]).flatMap p.readFrom) =
              s.out ++ p.readFrom cell := by
            rw [List.flatMap_append, List.flatMap_singleton, ← before]
          exact all ▸ List.prefix_refl _
    case count =>
      have before := held.count
      rw [out, more, List.length_append, List.length_append, read, List.length_singleton]
      omega
    case reads =>
      intro index member
      rw [out] at member
      rw [more]
      obtain before | now := List.mem_append.mp member
      · obtain ⟨other, found, reads⟩ := held.reads index before
        exact ⟨other, List.mem_append_left _ found, reads⟩
      · exact ⟨cell, List.mem_append_right _ List.mem_cons_self, now⟩
  · have same := gone left
    constructor
    case below =>
      rw [same, filter_gone left]
      exact held.below
    case above =>
      rw [same, filter_gone left]
      exact held.above
    case count =>
      rw [same, filter_gone left]
      exact held.count
    case reads =>
      rw [same, filter_gone left]
      exact held.reads

/-- The offset in the first symbol counts the groups so far, skipped or not. -/
theorem ueCell_first {s : UeWalk} (held : UeAt p done s)
    (offset0 : s.reOffset0 = 4 * ((kprime + 5) / 6)) :
    UeAt p (done ++ [(kprime, 0)]) (ueCell p kprime 0 s) ∧
    (ueCell p kprime 0 s).reOffset = s.reOffset ∧
      (ueCell p kprime 0 s).reOffset0 = 4 * ((kprime + 6) / 6) := by
  unfold ueCell
  by_cases checked : checkPhichReg p kprime 0 = true
  · have gone : ¬ p.left (kprime, 0) = true := by
      simp only [Region.left, checked, Bool.not_true, Bool.and_false, Bool.false_eq_true,
        not_false_eq_true]
    rw [if_pos checked]
    by_cases begins : kprime % 6 = 0
    · rw [if_pos ⟨rfl, begins⟩]
      refine ⟨held.step (fun _ => rfl) (fun left => absurd left gone), rfl, ?_⟩
      show s.reOffset0 + 4 = _
      rw [offset0]
      omega
    · rw [if_neg (fun both => begins both.2)]
      refine ⟨held.step (fun _ => rfl) (fun left => absurd left gone), rfl, ?_⟩
      rw [offset0]
      omega
  · rw [if_neg checked, if_pos rfl]
    by_cases begins : kprime % 6 = 0
    · have left : p.left (kprime, 0) = true := by
        simp only [Region.left, begins, checked, if_true, decide_true,
          Bool.not_false, Bool.and_true]
      rw [if_pos (by omega)]
      refine ⟨held.step (fun gone => absurd left gone) (fun _ => ?_), rfl, ?_⟩
      · have place : s.reOffset0 = 4 * (kprime / 6) := by omega
        rw [place]
        rfl
      · show s.reOffset0 + 4 = _
        rw [offset0]
        omega
    · have gone : ¬ p.left (kprime, 0) = true := by
        simp only [Region.left, begins, if_true, decide_false, Bool.false_and, Bool.false_eq_true,
          not_false_eq_true]
      rw [if_neg (by omega)]
      refine ⟨held.step (fun _ => rfl) (fun left => absurd left gone), rfl, ?_⟩
      rw [offset0]
      omega

theorem ueCell_later {s : UeWalk} (held : UeAt p done s) (later : lprime ≠ 0)
    (offset : s.reOffset = kprime) :
    UeAt p (done ++ [(kprime, lprime)]) (ueCell p kprime lprime s) ∧
      (ueCell p kprime lprime s).reOffset = s.reOffset ∧ (ueCell p kprime lprime s).reOffset0 =
      s.reOffset0 := by
  unfold ueCell
  by_cases checked : checkPhichReg p kprime lprime = true
  · have gone : ¬ p.left (kprime, lprime) = true := by
      simp only [Region.left, checked, Bool.not_true, Bool.and_false, Bool.false_eq_true,
        not_false_eq_true]
    rw [if_pos checked, if_neg (fun both => later both.1)]
    exact ⟨held.step (fun _ => rfl) (fun left => absurd left gone), rfl, rfl⟩
  · rw [if_neg checked, if_neg later]
    by_cases begins : kprime % 4 = 0
    · have left : p.left (kprime, lprime) = true := by
        simp only [Region.left, begins, checked, later, if_false, decide_true,
          Bool.not_false, Bool.and_true]
      rw [if_pos (by omega)]
      refine ⟨held.step (fun gone => absurd left gone) (fun _ => ?_), rfl, rfl⟩
      simp only [offset, Region.readFrom, if_neg later]
    · have gone : ¬ p.left (kprime, lprime) = true := by
        simp only [Region.left, begins, later, if_false, decide_false, Bool.false_and,
          Bool.false_eq_true, not_false_eq_true]
      rw [if_neg (by omega)]
      exact ⟨held.step (fun _ => rfl) (fun left => absurd left gone), rfl, rfl⟩

theorem ueSymbols_at {s : UeWalk} {lprimes : List Nat} (held : UeAt p done s) (later : 0 ∉ lprimes)
    (offset : s.reOffset = kprime) :
    UeAt p (done ++ lprimes.map fun lprime => (kprime, lprime)) (ueSymbols p kprime lprimes s) ∧
      (ueSymbols p kprime lprimes s).reOffset = s.reOffset ∧
      (ueSymbols p kprime lprimes s).reOffset0 = s.reOffset0 := by
  induction lprimes generalizing s done with
  | nil =>
    rw [List.map_nil, List.append_nil]
    exact ⟨held, rfl, rfl⟩
  | cons lprime rest ih =>
    obtain ⟨next, same, same0⟩ := ueCell_later held (List.ne_of_not_mem_cons later).symm offset
    rw [List.map_cons, ← List.singleton_append, ← List.append_assoc, ueSymbols]
    split
    · exact ⟨next.skip ‹_›, same, same0⟩
    · obtain ⟨last, kept, kept0⟩ := ih next (List.not_mem_of_not_mem_cons later) (same.trans offset)
      exact ⟨last, kept.trans same, kept0.trans same0⟩

theorem Region.range_symbols (p : Region) :
    ∃ later, List.range p.numPdcchSymbols = 0 :: later ∧ 0 ∉ later := by
  have listed := p.symbols
  simp only [List.mem_cons, List.not_mem_nil, or_false] at listed
  obtain same | same | same := listed
  · exact ⟨[], by rw [same]; rfl, by decide⟩
  · exact ⟨[1], by rw [same]; rfl, by decide⟩
  · exact ⟨[1, 2], by rw [same]; rfl, by decide⟩

theorem ueRow_at {s : UeWalk} (held : UeAt p done s) (offset : s.reOffset = kprime)
    (offset0 : s.reOffset0 = 4 * ((kprime + 5) / 6)) :
    UeAt p (done ++ p.row kprime) (ueRow p s kprime) ∧ (ueRow p s kprime).reOffset = kprime + 1 ∧
      (ueRow p s kprime).reOffset0 = 4 * ((kprime + 6) / 6) := by
  obtain ⟨later, range, none_⟩ := p.range_symbols
  obtain ⟨first, same, next0⟩ := ueCell_first held offset0
  obtain ⟨walked, kept, kept0⟩ :
    UeAt p (done ++ p.row kprime) (ueSymbols p kprime (List.range p.numPdcchSymbols) s) ∧
      (ueSymbols p kprime (List.range p.numPdcchSymbols) s).reOffset = kprime ∧
      (ueSymbols p kprime (List.range p.numPdcchSymbols) s).reOffset0 = 4 * ((kprime + 6) / 6) := by
    rw [Region.row, range, List.map_cons, ← List.singleton_append, ← List.append_assoc, ueSymbols]
    split
    · exact ⟨first.skip ‹_›, same.trans offset, next0⟩
    · obtain ⟨last, kept, kept0⟩ := ueSymbols_at first none_ (same.trans offset)
      exact ⟨last, kept.trans (same.trans offset), kept0.trans next0⟩
  exact ⟨⟨walked.below, walked.above, walked.count, walked.reads⟩, congrArg (· + 1) kept, kept0⟩

theorem ueRows_at (p : Region) (count : Nat) :
    UeAt p ((List.range count).flatMap p.row) ((List.range count).foldl (ueRow p) ⟨[], 0, 0⟩) ∧
      ((List.range count).foldl (ueRow p) ⟨[], 0, 0⟩).reOffset = count ∧
      ((List.range count).foldl (ueRow p) ⟨[], 0, 0⟩).reOffset0 = 4 * ((count + 5) / 6) := by
  induction count with
  | zero =>
    exact ⟨⟨fun _ =>
      rfl, fun enough => absurd p.msymb2_pos (Nat.not_lt_of_le enough), Nat.zero_le _,
      fun _ member => absurd member List.not_mem_nil⟩, rfl, rfl⟩
  | succ count ih =>
    obtain ⟨held, offset, offset0⟩ := ih
    rw [List.range_succ, List.foldl_append, List.flatMap_append, List.flatMap_singleton]
    exact ueRow_at held offset offset0

/-- The UE reads the same groups first. -/
theorem pdcchDemapping_prefix (p : Region) :
    (p.regs.take p.cap).flatMap p.readFrom <+: pdcchDemapping p := by
  obtain ⟨held, _⟩ := ueRows_at p (12 * p.nRbDl)
  unfold pdcchDemapping
  generalize (List.range (12 * p.nRbDl)).foldl (ueRow p) ⟨[], 0, 0⟩ = s at held
  by_cases enough : p.msymb2 ≤ s.out.length
  · obtain ⟨part, front, full, read⟩ := held.above enough
    have taken : part = p.regs.take part.length := List.prefix_iff_eq_take.mp front
    rw [← full, ← taken]
    exact read
  · have few := Nat.lt_of_not_le enough
    have out := held.below few
    have short : p.regs.length ≤ p.cap := by
      have four : s.out.length = 4 * p.regs.length := by
        rw [out]
        exact flatMap_length fun _ _ => rfl
      rw [Region.cap]
      omega
    rw [List.take_of_length_le short, out]
    exact List.prefix_refl _

end Walks

section Groups
variable {p} {kprime lprime : Nat}

/-- The subcarriers of a group of the first symbol that carry no pilot. -/
def Region.free (p : Region) : List Nat :=
  (List.range 6).filter fun i => i ≠ p.nushift % 3 ∧ i ≠ p.nushift % 3 + 3

theorem Region.free_length (p : Region) : p.free.length = 4 := pilots_length p.nushift

theorem free_chunk (p : Region) (r : Nat) :
    ((List.range 6).map (6 * r + ·)).filter
      (fun subcarrier => decide (subcarrier % 3 ≠ p.nushift % 3)) = p.free.map (6 * r + ·) := by
  rw [List.filter_map, Region.free]
  congr 1
  refine List.filter_congr fun i member => ?_
  have small := List.mem_range.mp member
  have pilot : p.nushift % 3 < 3 := Nat.mod_lt _ (by decide)
  simp only [Function.comp_apply, decide_eq_decide]
  omega

theorem free_chunks (p : Region) (count : Nat) :
    (List.range (6 * count)).filter (fun subcarrier => decide (subcarrier % 3 ≠ p.nushift % 3)) =
      (List.range count).flatMap fun r => p.free.map (6 * r + ·) := by
  induction count with
  | zero => rfl
  | succ count ih =>
    rw [Nat.mul_succ, List.range_add, List.filter_append, ih, free_chunk, List.range_succ,
      List.flatMap_append, List.flatMap_singleton]

theorem Region.blocks_pos (p : Region) : 6 ≤ p.nRbDl := by
  have listed := p.bandwidth
  simp only [List.mem_cons, List.not_mem_nil, or_false] at listed
  omega

theorem Region.source_first {r i : Nat} (inside : r < 2 * p.nRbDl) (small : i < 4) :
    p.source (4 * r + i) = p.element 0 (6 * r + p.free.getD i 0) := by
  have blocks := p.blocks_pos
  have low : 4 * r + i < p.nRbDl * 12 := by omega
  have carriers : 12 * p.nRbDl = 6 * (2 * p.nRbDl) := by omega
  have chosen :
    (List.range (12 * p.nRbDl)).filter
    (fun subcarrier => decide (0 ≠ 0 ∨ subcarrier % 3 ≠ p.nushift % 3)) =
      (List.range (2 * p.nRbDl)).flatMap fun r => p.free.map (6 * r + ·) := by
    rw [← free_chunks, carriers]
    refine List.filter_congr fun subcarrier _ => ?_
    simp only [ne_eq, not_true_eq_false, false_or]
  have four : ∀ r, (p.free.map (6 * r + ·)).length = 4 := fun r => by
    rw [List.length_map, p.free_length]
  have here : i < p.free.length := by
    rw [p.free_length]
    exact small
  have chunk : ((List.range (2 * p.nRbDl)).flatMap fun r => p.free.map (6 * r + ·))[4 * r + i]? =
      some (6 * r + p.free[i]) := by
    rw [Blocks.flatMap_range_getElem? four inside small, List.getElem?_map,
      List.getElem?_eq_getElem here]
    rfl
  rw [Region.source, Nat.div_eq_of_lt low, Nat.mod_eq_of_lt low, Region.extracted, chosen,
    List.getD_eq_getElem?_getD, List.getElem?_map, chunk, List.getD_eq_getElem _ _ here]
  rfl

theorem Region.source_later {subcarrier : Nat} (later : lprime ≠ 0)
    (inside : subcarrier < 12 * p.nRbDl) :
    p.source (p.nRbDl * 12 * lprime + subcarrier) = p.element lprime subcarrier := by
  have blocks := p.blocks_pos
  have low : subcarrier < p.nRbDl * 12 := by omega
  have all : (List.range (12 * p.nRbDl)).filter
    (fun subcarrier => decide (lprime ≠ 0 ∨ subcarrier % 3 ≠ p.nushift % 3)) =
      List.range (12 * p.nRbDl) := by
    refine List.filter_eq_self.mpr fun subcarrier _ => ?_
    exact decide_eq_true (.inl later)
  rw [Region.source, Nat.mul_add_div (by omega), Nat.div_eq_of_lt low, Nat.add_zero,
    Nat.mul_add_mod, Nat.mod_eq_of_lt low, Region.extracted, all,
      List.getD_eq_getElem _ _ (by rw [List.length_map, List.length_range]; exact inside),
    List.getElem_map, List.getElem_range]

theorem Region.mem_regs {cell : Nat × Nat} (member : cell ∈ p.regs) :
    cell.1 < 12 * p.nRbDl ∧ cell.2 < p.numPdcchSymbols ∧ p.left cell = true := by
  obtain ⟨found, left⟩ := List.mem_filter.mp member
  obtain ⟨k, carrier, found⟩ := List.mem_flatMap.mp found
  obtain ⟨l, symbol, rfl⟩ := List.mem_map.mp found
  exact ⟨List.mem_range.mp carrier, List.mem_range.mp symbol, left⟩

theorem Region.left_first (left : p.left (kprime, 0) = true) : kprime % 6 = 0 := by
  have begins := (Bool.and_eq_true_iff.mp left).1
  simpa using begins

theorem Region.left_later (later : lprime ≠ 0) (left : p.left (kprime, lprime) = true) :
    kprime % 4 = 0 := by
  have begins := (Bool.and_eq_true_iff.mp left).1
  simpa [later] using begins

theorem Region.free_small {i : Nat} (member : i ∈ p.free) : i < 6 :=
  List.mem_range.mp (List.mem_filter.mp member).1

theorem Region.free_range (p : Region) : p.free = (List.range 4).map (p.free.getD · 0) := by
  apply List.ext_getElem
  · rw [p.free_length]
    rfl
  · intro i within _
    rw [List.getElem_map, List.getElem_range, List.getD_eq_getElem _ _ within]

theorem Region.sentTo_first (begins : kprime % 6 = 0) :
    p.sentTo (kprime, 0) = p.free.map fun i => p.symbolOffset 0 + p.carrier kprime + i := by
  rw [Region.sentTo, enbReg, if_pos rfl, if_pos (by simp only; omega)]
  rfl

/-- In the later symbols a group has four subcarriers in a row, the one in the middle left out. -/
theorem Region.sentTo_later (later : lprime ≠ 0) (begins : kprime % 4 = 0)
    (inside : kprime < 12 * p.nRbDl) :
    p.sentTo (kprime, lprime) = (List.range 4).map fun i => p.element lprime (kprime + i) := by
  have wide := p.wide
  have blocks := p.blocks_pos
  rw [Region.sentTo, enbReg, if_neg later, if_pos (by simp only; omega)]
  have list : (List.range 4).map (fun i => p.element lprime (kprime + i)) =
    [p.element lprime kprime,
      p.element lprime (kprime + 1), p.element lprime (kprime + 2),
        p.element lprime (kprime + 3)] := rfl
  have plain : (List.range 4).map (fun i => p.symbolOffset lprime + p.carrier kprime + i) =
      [p.symbolOffset lprime + p.carrier kprime, p.symbolOffset lprime + p.carrier kprime + 1,
        p.symbolOffset lprime + p.carrier kprime + 2,
          p.symbolOffset lprime + p.carrier kprime + 3] := rfl
  rw [list]
  by_cases middle : p.carrier kprime = p.ofdmSymbolSize - 2
  · rw [if_pos middle]
    have low : kprime + 2 = 6 * p.nRbDl := by
      unfold Region.carrier Region.firstCarrierOffset at middle
      split at middle <;> omega
    simp only [Region.element, Region.carrier, Region.firstCarrierOffset, List.cons.injEq, and_true]
    refine ⟨trivial, ?_, ?_, ?_⟩ <;> split <;> (try split) <;> omega
  · rw [if_neg middle]
    refine plain.trans ?_
    have together : kprime + 3 < 6 * p.nRbDl ∨ 6 * p.nRbDl ≤ kprime := by
      unfold Region.carrier Region.firstCarrierOffset at middle
      split at middle <;> omega
    simp only [Region.element, Region.carrier, Region.firstCarrierOffset, List.cons.injEq, and_true]
    refine ⟨trivial, ?_, ?_, ?_⟩ <;> split <;> (try split) <;> omega

/-- A group is sent where it is read from. -/
theorem Region.readFrom_source {cell : Nat × Nat} (member : cell ∈ p.regs) :
    (p.readFrom cell).map p.source = p.sentTo cell := by
  obtain ⟨inside, _, left⟩ := p.mem_regs member
  obtain ⟨kprime, lprime⟩ := cell
  by_cases first : lprime = 0
  · subst first
    have begins := p.left_first left
    have group : kprime / 6 < 2 * p.nRbDl := by
      simp only at inside
      omega
    rw [p.sentTo_first begins, p.free_range, List.map_map, Region.readFrom, List.map_map]
    refine List.map_congr_left fun i member => ?_
    have small := List.mem_range.mp member
    have here : p.free.getD i 0 < 6 := by
      rw [List.getD_eq_getElem _ _ (by rw [p.free_length]; exact small)]
      exact p.free_small (List.getElem_mem _)
    have place := p.source_first group small
    simp only [Function.comp_apply, if_true, Nat.mul_zero, Nat.zero_add, place, Region.element,
      Region.carrier, Nat.add_assoc]
    congr 1
    split <;> split <;> omega
  · have begins := p.left_later first left
    have carrier : kprime < 12 * p.nRbDl := inside
    rw [p.sentTo_later first begins carrier, Region.readFrom, List.map_map]
    refine List.map_congr_left fun i member => ?_
    have small := List.mem_range.mp member
    simp only [Function.comp_apply, if_neg first, Nat.add_assoc]
    exact p.source_later first (by omega)

end Groups

end OpenAir.Phy.Pdcch
