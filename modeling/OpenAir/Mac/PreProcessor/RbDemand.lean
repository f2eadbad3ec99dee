import Mathlib.Data.List.Pairwise
import Mathlib.Data.Rat.Floor
import OpenAir.Mac.PreProcessor.DlRbg
import OpenAir.Mac.UlGrant

/-! The resource blocks a UE requires on each of its carriers: `assign_rbs_required`. -/
namespace OpenAir.Mac.PreProcessor
open Cce (Bandwidth)

def cqiToMcs : List Nat := [0, 0, 1, 2, 4, 6, 8, 11, 13, 16, 18, 20, 23, 25, 27, 28]

def getITbs (mcs : Nat) : Nat :=
  if mcs < 10 then mcs else if mcs = 10 then 9 else if mcs < 17 then mcs - 1 else if mcs = 17 then
    15 else mcs - 2

def getTbsDl (table : TbsTable) (mcs nbRb : Nat) : Nat :=
  if 0 < nbRb ∧ mcs < 29 then table.bits (getITbs mcs) (nbRb - 1) >>> 3 else 0

/-- `pct` of a slice, as an exact rational. -/
structure Share where
  pct : ℚ
  nonneg : 0 ≤ pct
  le_one : pct ≤ 1

def nbRbsAllowedSlice (share : Share) (totalRbs : Nat) : Nat := ⌊share.pct * totalRbs⌋.toNat % 65536

/-- What the demand of a UE depends on. -/
structure UeDemand where
  dlBufferTotal : Nat
  /-- The active carriers, in `ordered_CCids`. -/
  orderedCcIds : List Nat
  dlCqi : Nat → Fin 16

structure DemandCell where
  bandwidth : Nat → Bandwidth
  share : Share
  maxmcs : Nat
  tbs : TbsTable

def DemandCell.mcs (cell : DemandCell) (ue : UeDemand) (cc : Nat) : Nat :=
  min (cqiToMcs.getD (ue.dlCqi cc) 0) cell.maxmcs

/-! ### The order of the carriers -/

section
variable (mcs : Nat → Nat)

/-- The inner loop: the carrier in front is exchanged with each one of better quality than `key`,
the quality of the first that was there. Gives the carrier in front at the end, and the others. -/
def exchangePass (key front : Nat) : List Nat → Nat × List Nat
  | [] => (front, [])
  | cc :: rest =>
    if key < mcs cc then ((exchangePass key cc rest).1, front :: (exchangePass key cc rest).2)
    else ((exchangePass key front rest).1, cc :: (exchangePass key front rest).2)

/-- The outer loop, over as many places as there are carriers. -/
def exchangeSort : Nat → List Nat → List Nat
  | 0, list => list
  | _ + 1, [] => []
  | places + 1, cc :: rest => (exchangePass mcs (mcs cc) cc rest).1 :: exchangeSort places
      (exchangePass mcs (mcs cc) cc rest).2

end

/-! ### The number of blocks -/

/-- The `while` loop, which gets no value if it takes more turns than `fuel`. -/
def demandLoop (tbs : Nat → Nat) (dlBufferTotal minRbUnit maxRbsAllowedSlice : Nat) :
    (fuel nbRbsRequired : Nat) → Option Nat
  | 0, _ => none
  | fuel + 1, nbRbsRequired =>
    if tbs nbRbsRequired < dlBufferTotal then
      if (nbRbsRequired + minRbUnit) % 65536 > maxRbsAllowedSlice then some maxRbsAllowedSlice
      else demandLoop tbs dlBufferTotal minRbUnit maxRbsAllowedSlice fuel
        ((nbRbsRequired + minRbUnit) % 65536)
    else some nbRbsRequired

def firstDemand (cell : DemandCell) (ue : UeDemand) (cc : Nat) : Nat :=
  if cell.mcs ue cc = 0 then 4 else getMinRbUnit (cell.bandwidth cc)

def DemandCell.cap (cell : DemandCell) (cc : Nat) : Nat :=
  nbRbsAllowedSlice cell.share (cell.bandwidth cc).toPrb

/-- `TBS`, 16 bits. -/
def DemandCell.blockBytes (cell : DemandCell) (ue : UeDemand) (cc nbRb : Nat) : Nat :=
  getTbsDl cell.tbs (cell.mcs ue cc) nbRb % 65536

def demand (cell : DemandCell) (ue : UeDemand) (fuel cc : Nat) : Option Nat :=
  demandLoop (cell.blockBytes ue cc) ue.dlBufferTotal (getMinRbUnit (cell.bandwidth cc))
    (cell.cap cc) fuel
    (firstDemand cell ue cc)

structure Demands where
  orderedCcIds : List Nat
  nbRbsRequired : Nat → Nat

/-- `assign_rbs_required` for one UE, whose numbers are 0 after the reset; no value if a loop takes
more turns than `fuel`. -/
def assignRbsRequired (cell : DemandCell) (ue : UeDemand) (fuel : Nat) : Option Demands :=
  let ordered := exchangeSort (cell.mcs ue) ue.orderedCcIds.length ue.orderedCcIds
  if 0 < ue.dlBufferTotal then
    (ordered.foldlM (fun required cc => (demand cell ue fuel cc).map (Function.update required cc))
      fun _ => 0).map
      fun required => ⟨ordered, required⟩
  else some ⟨ordered, fun _ => 0⟩

/-! ### What the exchanges do to the order -/

section
variable {mcs : Nat → Nat} {key front cc : Nat} {list rest : List Nat}

theorem exchangePass_front (mcs : Nat → Nat) (key front : Nat) (list : List Nat) :
    (exchangePass mcs key front list).1 =
    ((list.filter fun cc => key < mcs cc).getLast?).getD front := by
  induction list generalizing front with
  | nil => rfl
  | cons cc rest ih =>
    rw [exchangePass, List.filter_cons]
    by_cases better : key < mcs cc
    · rw [if_pos better, if_pos (decide_eq_true better), ih, List.getLast?_cons]
      rfl
    · rw [if_neg better, if_neg (mt of_decide_eq_true better), ih]

theorem exchangePass_perm (mcs : Nat → Nat) (key front : Nat) (list : List Nat) :
    ((exchangePass mcs key front list).1 :: (exchangePass mcs key front list).2).Perm
      (front :: list) := by
  induction list generalizing front with
  | nil => exact .refl _
  | cons cc rest ih =>
    rw [exchangePass]
    split
    · exact (List.Perm.swap _ _ _).trans ((ih cc).cons front)
    · exact (List.Perm.swap _ _ _).trans (((ih front).cons cc).trans (List.Perm.swap _ _ _))

theorem exchangeSort_perm (mcs : Nat → Nat) (places : Nat) (list : List Nat) :
    (exchangeSort mcs places list).Perm list := by
  induction places generalizing list with
  | zero => exact .refl _
  | succ places ih =>
    cases list with
    | nil => exact .refl _
    | cons cc rest => exact ((ih _).cons _).trans (exchangePass_perm mcs (mcs cc) cc rest)

theorem le_exchangePass (bound : key ≤ mcs front) :
    key ≤ mcs (exchangePass mcs key front list).1 := by
  induction list generalizing front with
  | nil => exact bound
  | cons cc rest ih =>
    rw [exchangePass]
    split
    · next better => exact ih better.le
    · exact ih bound

/-- At every turn of the outer loop the last carrier of better quality than the first has the best
one. -/
def LastIsBest (mcs : Nat → Nat) : Nat → List Nat → Prop
  | 0, _ => True
  | _ + 1, [] => True
  | places + 1, cc :: rest =>
    (∀ other ∈ rest, mcs other ≤
      mcs (((rest.filter fun other => mcs cc < mcs other).getLast?).getD cc)) ∧
      LastIsBest mcs places (exchangePass mcs (mcs cc) cc rest).2

theorem exchangeSort_sorted_iff (mcs : Nat → Nat) {places : Nat} (enough : list.length ≤ places) :
    (exchangeSort mcs places list).Pairwise (fun a b => mcs b ≤ mcs a) ↔
    LastIsBest mcs places list := by
  induction places generalizing list with
  | zero =>
    cases List.length_eq_zero_iff.mp (Nat.le_zero.mp enough)
    exact iff_of_true List.Pairwise.nil trivial
  | succ places ih =>
    cases list with
    | nil => exact iff_of_true List.Pairwise.nil trivial
    | cons cc rest =>
      have perm := exchangePass_perm mcs (mcs cc) cc rest
      have lengths := perm.length_eq
      have shorter : (exchangePass mcs (mcs cc) cc rest).2.length ≤ places := by
        simp only [List.length_cons] at lengths enough
        omega
      rw [exchangeSort, List.pairwise_cons, ih shorter, LastIsBest,
        ← exchangePass_front mcs (mcs cc) cc rest]
      refine and_congr_left' ?_
      constructor
      · intro sorted other member
        have there := perm.mem_iff.mpr (List.mem_cons_of_mem cc member)
        rcases List.mem_cons.mp there with rfl | behind
        · exact le_rfl
        · exact sorted other ((exchangeSort_perm _ _ _).mem_iff.mpr behind)
      · intro best other member
        have behind := (exchangeSort_perm _ _ _).mem_iff.mp member
        rcases List.mem_cons.mp (perm.mem_iff.mp (List.mem_cons_of_mem _ behind)) with rfl | later
        · exact le_exchangePass le_rfl
        · exact best other later

end

/-! ### What the loop finds -/

/-- The least number the loop generates whose block holds the buffer, or the cap if none within it
does. -/
structure IsDemand (tbs : Nat → Nat) (dlBufferTotal minRbUnit first cap required : Nat) : Prop where
  within : required ≤ cap
  least : (∃ k, required = first + k * minRbUnit ∧ dlBufferTotal ≤ tbs required ∧
      ∀ j < k, tbs (first + j * minRbUnit) < dlBufferTotal) ∨
    required = cap ∧ ∀ k, first + k * minRbUnit ≤ cap → tbs (first + k * minRbUnit) < dlBufferTotal

section
variable {tbs : Nat → Nat} {dlBufferTotal minRbUnit first cap required : Nat}

theorem IsDemand.next (less : tbs first < dlBufferTotal)
    (found : IsDemand tbs dlBufferTotal minRbUnit (first + minRbUnit) cap required) :
    IsDemand tbs dlBufferTotal minRbUnit first cap required := by
  have places : ∀ k, first + minRbUnit + k * minRbUnit = first + (k + 1) * minRbUnit := by
    intro k
    rw [Nat.succ_mul]
    omega
  refine ⟨found.within, ?_⟩
  rcases found.least with ⟨k, here, holds, before⟩ | ⟨capped, none⟩
  · refine .inl ⟨k + 1, here.trans (places k), holds, fun j below => ?_⟩
    cases j with
    | zero => rwa [Nat.zero_mul]
    | succ j =>
      rw [← places j]
      exact before j (Nat.lt_of_succ_lt_succ below)
  · refine .inr ⟨capped, fun k inside => ?_⟩
    cases k with
    | zero => rwa [Nat.zero_mul]
    | succ k =>
      rw [← places k] at inside ⊢
      exact none k inside

theorem demandLoop_stop {fuel : Nat} (holds : dlBufferTotal ≤ tbs first) :
    demandLoop tbs dlBufferTotal minRbUnit cap (fuel + 1) first = some first :=
  if_neg (Nat.not_lt.mpr holds)

theorem demandLoop_capped {fuel : Nat} (less : tbs first < dlBufferTotal)
    (above : cap < (first + minRbUnit) % 65536) :
    demandLoop tbs dlBufferTotal minRbUnit cap (fuel + 1) first = some cap := by
  rw [demandLoop, if_pos less, if_pos above]

theorem demandLoop_spec (tbs : Nat → Nat) (dlBufferTotal : Nat) (positive : 0 < minRbUnit)
    (small : cap + minRbUnit < 65536) (low : first ≤ cap) :
    ∃ required, IsDemand tbs dlBufferTotal minRbUnit first cap required ∧
      ∀ fuel, cap < fuel + first → demandLoop tbs dlBufferTotal minRbUnit cap fuel first =
        some required := by
  induction gap : cap - first using Nat.strong_induction_on generalizing first with
  | _ gap ih =>
    have wide : (first + minRbUnit) % 65536 = first + minRbUnit := Nat.mod_eq_of_lt (by omega)
    by_cases less : tbs first < dlBufferTotal
    · by_cases above : cap < first + minRbUnit
      · refine ⟨cap, ⟨le_rfl, .inr ⟨rfl, fun k inside => ?_⟩⟩, fun fuel enough => ?_⟩
        · cases k with
          | zero => rwa [Nat.zero_mul]
          | succ k =>
            rw [Nat.succ_mul] at inside
            omega
        · obtain ⟨fuel, rfl⟩ := Nat.exists_eq_succ_of_ne_zero (show fuel ≠ 0 by omega)
          exact demandLoop_capped less (by rwa [wide])
      · obtain ⟨required, found, ran⟩ :=
          ih (cap - (first + minRbUnit)) (by omega) (Nat.le_of_not_lt above) rfl
        refine ⟨required, found.next less, fun fuel enough => ?_⟩
        obtain ⟨fuel, rfl⟩ := Nat.exists_eq_succ_of_ne_zero (show fuel ≠ 0 by omega)
        rw [demandLoop, wide, if_pos less, if_neg above]
        exact ran fuel (by omega)
    · have holds := Nat.le_of_not_lt less
      refine ⟨first,
        ⟨low, .inl ⟨0, by
        rw [Nat.zero_mul]; rfl, holds, fun j below => absurd below (Nat.not_lt_zero j)⟩⟩,
        fun fuel enough => ?_⟩
      obtain ⟨fuel, rfl⟩ := Nat.exists_eq_succ_of_ne_zero (show fuel ≠ 0 by omega)
      exact demandLoop_stop holds

end

section
variable (cell : DemandCell) (ue : UeDemand) (cc : Nat)

theorem Share.allowed_le (share : Share) (totalRbs : Nat) :
    nbRbsAllowedSlice share totalRbs ≤ totalRbs := by
  refine (Nat.mod_le _ _).trans (Int.toNat_le.mpr (Int.floor_le_iff.mpr ?_))
  have total : (0 : ℚ) ≤ totalRbs := Nat.cast_nonneg _
  calc share.pct * totalRbs ≤ 1 * totalRbs := mul_le_mul_of_nonneg_right share.le_one total
    _ = ((totalRbs : Int) : ℚ) := by rw [one_mul, Int.cast_natCast]
    _ < ((totalRbs : Int) : ℚ) + 1 := lt_add_one _

theorem cap_le : cell.cap cc ≤ 100 := by
  refine (cell.share.allowed_le _).trans ?_
  cases cell.bandwidth cc <;> decide

theorem getMinRbUnit_bounds (bandwidth : Bandwidth) : 0 < getMinRbUnit bandwidth ∧
    getMinRbUnit bandwidth ≤ 4 := by
  cases bandwidth <;> decide

/-- The blocks the loop begins with do not already hold the buffer beyond the cap. -/
def BeginsInside : Prop := firstDemand cell ue cc ≤ cell.cap cc ∨
    cell.blockBytes ue cc (firstDemand cell ue cc) < ue.dlBufferTotal

theorem demand_spec : ∃ required, (∀ fuel, 101 < fuel → demand cell ue fuel cc = some required) ∧
    (IsDemand (cell.blockBytes ue cc) ue.dlBufferTotal (getMinRbUnit (cell.bandwidth cc))
      (firstDemand cell ue cc)
      (cell.cap cc) required ↔ BeginsInside cell ue cc) := by
  obtain ⟨positive, unit⟩ := getMinRbUnit_bounds (cell.bandwidth cc)
  have cap := cap_le cell cc
  have begins : firstDemand cell ue cc ≤ 4 := by
    rw [firstDemand]
    split
    · exact le_rfl
    · exact unit
  by_cases low : firstDemand cell ue cc ≤ cell.cap cc
  · obtain ⟨required, found, ran⟩ :=
      demandLoop_spec (cell.blockBytes ue cc) ue.dlBufferTotal positive (by omega) low
    exact ⟨required, fun fuel enough => ran fuel (by omega), iff_of_true found (.inl low)⟩
  · by_cases holds : ue.dlBufferTotal ≤ cell.blockBytes ue cc (firstDemand cell ue cc)
    · refine ⟨firstDemand cell ue cc, fun fuel enough => ?_, ?_⟩
      · obtain ⟨fuel, rfl⟩ := Nat.exists_eq_succ_of_ne_zero (show fuel ≠ 0 by omega)
        exact demandLoop_stop holds
      · exact iff_of_false (fun found => low found.within) (not_or.mpr ⟨low, Nat.not_lt.mpr holds⟩)
    · have less := Nat.lt_of_not_le holds
      refine ⟨cell.cap cc,
        fun fuel enough => ?_, iff_of_true ⟨le_rfl, .inr ⟨rfl, fun k inside => ?_⟩⟩ (.inr less)⟩
      · obtain ⟨fuel, rfl⟩ := Nat.exists_eq_succ_of_ne_zero (show fuel ≠ 0 by omega)
        refine demandLoop_capped less ?_
        rw [Nat.mod_eq_of_lt (by omega)]
        omega
      · exact absurd ((Nat.le_add_right _ _).trans inside) low

end

/-- The order and the numbers are what they should be. -/
structure DemandsMet (cell : DemandCell) (ue : UeDemand) (demands : Demands) : Prop where
  ordered : demands.orderedCcIds.Pairwise fun a b => cell.mcs ue b ≤ cell.mcs ue a
  carriers : demands.orderedCcIds.Perm ue.orderedCcIds
  numbers : ∀ cc ∈ ue.orderedCcIds, if 0 < ue.dlBufferTotal
    then IsDemand (cell.blockBytes ue cc) ue.dlBufferTotal (getMinRbUnit (cell.bandwidth cc))
      (firstDemand cell ue cc)
      (cell.cap cc) (demands.nbRbsRequired cc)
    else demands.nbRbsRequired cc = 0

theorem foldlM_update {f : Nat → Option Nat} {value : Nat → Nat}
    (known : ∀ cc, f cc = some (value cc)) (list : List Nat)
    (start : Nat → Nat) :
    list.foldlM (fun required cc => (f cc).map (Function.update required cc)) start =
      some (list.foldl (fun required cc => Function.update required cc (value cc)) start) := by
  induction list generalizing start with
  | nil => rfl
  | cons first rest ih =>
    rw [List.foldlM_cons, known, Option.map_some, Option.bind_eq_bind, Option.bind_some, ih,
      List.foldl_cons]

theorem foldl_update (value : Nat → Nat) (list : List Nat) (start : Nat → Nat) {cc : Nat}
    (known : cc ∈ list ∨ start cc = value cc) :
    list.foldl (fun required cc => Function.update required cc (value cc)) start cc = value cc := by
  induction list generalizing start with
  | nil => exact known.resolve_left List.not_mem_nil
  | cons first rest ih =>
    apply ih
    by_cases here : cc = first
    · subst here
      exact .inr (Function.update_self ..)
    · dsimp only
      rw [Function.update_of_ne here]
      rcases known with member | kept
      · exact .inl ((List.mem_cons.mp member).resolve_left here)
      · exact .inr kept

/-- The demands come out in order of quality and as they should be exactly when each pass of the
exchanges finds the best carrier last, and no carrier begins beyond the cap with a block that holds
the buffer. -/
theorem demands_met_iff (cell : DemandCell) (ue : UeDemand) :
    (∃ demands, (∀ fuel, 101 < fuel → assignRbsRequired cell ue fuel = some demands) ∧
        DemandsMet cell ue demands) ↔
      LastIsBest (cell.mcs ue) ue.orderedCcIds.length ue.orderedCcIds ∧
        ∀ cc ∈ ue.orderedCcIds, 0 < ue.dlBufferTotal → BeginsInside cell ue cc := by
  have perm := exchangeSort_perm (cell.mcs ue) ue.orderedCcIds.length ue.orderedCcIds
  rw [← exchangeSort_sorted_iff (cell.mcs ue) le_rfl]
  choose value found exact_ using demand_spec cell ue
  have ends : ∃ demands, (∀ fuel, 101 < fuel → assignRbsRequired cell ue fuel = some demands) ∧
      demands.orderedCcIds = exchangeSort (cell.mcs ue) ue.orderedCcIds.length ue.orderedCcIds ∧
      ∀ cc ∈ ue.orderedCcIds, demands.nbRbsRequired cc = if 0 < ue.dlBufferTotal then
          value cc else 0 := by
    by_cases data : 0 < ue.dlBufferTotal
    · let order := exchangeSort (cell.mcs ue) ue.orderedCcIds.length ue.orderedCcIds
      refine ⟨⟨order,
        order.foldl (fun required cc => Function.update required cc (value cc)) fun _ => 0⟩,
        fun fuel enough => ?_, rfl, fun cc member => ?_⟩
      · rw [assignRbsRequired, if_pos data, foldlM_update (fun cc => found cc fuel enough)]
        rfl
      · rw [if_pos data]
        exact foldl_update value _ _ (.inl (perm.mem_iff.mpr member))
    · refine ⟨⟨_, fun _ => 0⟩, fun fuel enough => ?_, rfl, fun cc member => ?_⟩
      · rw [assignRbsRequired, if_neg data]
      · rw [if_neg data]
  obtain ⟨demands, ran, order, numbers⟩ := ends
  constructor
  · rintro ⟨other, ranOther, met⟩
    cases (ran 102 (by decide)).symm.trans (ranOther 102 (by decide))
    refine ⟨order ▸ met.ordered, fun cc member data => ?_⟩
    have number := met.numbers cc member
    rw [if_pos data, numbers cc member, if_pos data] at number
    exact (exact_ cc).mp number
  · rintro ⟨sorted, begins⟩
    refine ⟨demands, ran, order ▸ sorted, order ▸ perm, fun cc member => ?_⟩
    by_cases data : 0 < ue.dlBufferTotal
    · rw [if_pos data, numbers cc member, if_pos data]
      exact (exact_ cc).mpr (begins cc member data)
    · rw [if_neg data, numbers cc member, if_neg data]

/-- A slice with a tenth of 25 blocks, and one byte for a UE with the worst channel: four blocks are
required where the cap is two. -/
theorem demand_beyond_cap : ¬ ∀ (cell : DemandCell) (ue : UeDemand),
    ∃ demands, (∀ fuel, 101 < fuel → assignRbsRequired cell ue fuel = some demands) ∧
      DemandsMet cell ue demands := by
  intro always
  let cell : DemandCell :=
    { bandwidth := fun _ => .n25, share := ⟨1 / 10, by norm_num, by norm_num⟩, maxmcs := 28,
      tbs := ⟨fun _ n => min 88 (22 * (n + 1)), fun _ n => (min_le_left _ _).trans (by decide)⟩ }
  let ue : UeDemand := { dlBufferTotal := 1, orderedCcIds := [0], dlCqi := fun _ => 0 }
  obtain ⟨demands, ran, met⟩ := always cell ue
  have cap : cell.cap 0 = 2 := by
    show ⌊(1 / 10 : ℚ) * (25 : ℕ)⌋.toNat % 65536 = 2
    norm_num
    rfl
  have four : (assignRbsRequired cell ue 102).map (fun demands => demands.nbRbsRequired 0) =
    some 4 := by decide +kernel
  rw [ran 102 (by decide)] at four
  have number := met.numbers 0 (by decide)
  rw [if_pos (by decide)] at number
  have within := number.within
  have required : demands.nbRbsRequired 0 = 4 := Option.some.inj four
  rw [cap, required] at within
  exact absurd within (by decide)

end OpenAir.Mac.PreProcessor
