import Mathlib.Algebra.BigOperators.Intervals
import Mathlib.Algebra.Order.BigOperators.Group.Finset
import OpenAir.Mac.PreProcessor.DlRbg

/-! The counts of resource blocks against the bitmaps of groups, over the pre-processing of all
slices. -/
namespace OpenAir.Mac.PreProcessor
open Finset Run
open Cce (Bandwidth)

/-- What owners with nothing in common hold never weighs more than all there is. -/
theorem sum_shares_le {owners : Finset α} {share : α → Finset Nat} {all : Finset Nat}
    (inside : ∀ o ∈ owners, share o ⊆ all)
    (apart : (owners : Set α).PairwiseDisjoint share) (weight : Nat → Nat) :
    ∑ o ∈ owners, ∑ i ∈ share o, weight i ≤ ∑ i ∈ all, weight i := by
  rw [← sum_biUnion apart]
  exact sum_le_sum_of_subset (biUnion_subset.mpr inside)

theorem sum_rbSize (bandwidth : Bandwidth) : ∑ i ∈ range (toRbg bandwidth), rbSize bandwidth i =
    bandwidth.toPrb := by
  cases bandwidth <;> rfl

theorem sum_allocatedSize (bandwidth : Bandwidth) : ∑ i ∈ range (toRbg bandwidth),
    allocatedSize bandwidth i ≤ 100 := by
  cases bandwidth <;> decide

/-- An allocation takes a group for its true size, but for the last of 15 blocks and all of 75. -/
theorem allocatedSize_eq {bandwidth : Bandwidth} (narrow : bandwidth ≠ .n75) {i : Nat}
    (last : bandwidth = .n15 → i ≠ toRbg bandwidth - 1) :
    allocatedSize bandwidth i = rbSize bandwidth i := by
  unfold allocatedSize rbSize
  by_cases here : i = toRbg bandwidth - 1
  · subst here
    cases bandwidth with
    | n15 => exact absurd rfl (last rfl)
    | n75 => exact absurd rfl narrow
    | n6 | n25 | n50 | n100 => rfl
  · rw [if_neg fun both => here both.1, if_neg here]
    cases bandwidth with
    | n75 => exact absurd rfl narrow
    | n6 | n15 | n25 | n50 | n100 => rfl

theorem rbSize_le (bandwidth : Bandwidth) (narrow : bandwidth ≠ .n75) (i : Nat) :
    rbSize bandwidth i ≤ allocatedSize bandwidth i := by
  by_cases last : bandwidth = .n15 ∧ i = toRbg bandwidth - 1
  · obtain ⟨rfl, rfl⟩ := last
    decide
  · exact (allocatedSize_eq narrow fun fifteen here => last ⟨fifteen, here⟩).ge

variable {n : Nat}

/-- The UE belongs to a slice before `idx`. -/
def Processed (cell : Cell n) (idx : Nat) (ue : Fin n) : Prop :=
  cell.rnti ue ≠ 0 ∧ cell.active ue = true ∧ cell.assocDlSliceIdx ue < idx

instance (cell : Cell n) (idx : Nat) : DecidablePred (Processed cell idx) :=
  fun _ => inferInstanceAs (Decidable (_ ∧ _ ∧ _))

def held (cell : Cell n) (s : State n) (ue : Fin n) : Finset Nat :=
  {i ∈ range cell.nRbg | (s.ue ue).rballocSubUe i = true}

theorem mem_held {cell : Cell n} {s : State n} {ue : Fin n} {i : Nat} :
    i ∈ held cell s ue ↔ i < cell.nRbg ∧ (s.ue ue).rballocSubUe i = true := by
  rw [held, mem_filter, mem_range]

/-- What the stages keep of the UEs whose slices have been begun. -/
structure Kept (cell : Cell n) (idx : Nat) (s : State n) : Prop where
  owned : ∀ ue, Processed cell idx ue → ∀ i ∈ held cell s ue, s.rballocSub i = true
  apart : {ue | Processed cell idx ue}.PairwiseDisjoint (held cell s)
  counted : ∀ ue, Processed cell idx ue →
    (s.ue ue).preNbAvailableRbs = ∑ i ∈ held cell s ue, allocatedSize cell.dlBandwidth i
  power : ∀ ue, Processed cell idx ue → (s.ue ue).dlPowOff ≠ 0

/-- The property of the counts once the slices before `idx` are done. -/
structure Agrees (cell : Cell n) (idx : Nat) (s : State n) : Prop where
  count : ∀ ue, Processed cell idx ue → (s.ue ue).preNbAvailableRbs = ∑ i ∈ held cell s ue,
    rbSize cell.dlBandwidth i
  total : ∑ ue with Processed cell idx ue, (s.ue ue).preNbAvailableRbs ≤ cell.dlBandwidth.toPrb

/-- No UE got the last group. -/
def NoneLast (cell : Cell n) (idx : Nat) (s : State n) : Prop :=
  ∀ ue, Processed cell idx ue → cell.nRbg - 1 ∉ held cell s ue

theorem agrees_iff {cell : Cell n} {idx : Nat} {s : State n} (kept : Kept cell idx s)
    (narrow : cell.dlBandwidth ≠ .n75) :
    Agrees cell idx s ↔ (cell.dlBandwidth = .n15 → NoneLast cell idx s) := by
  constructor
  · intro agrees fifteen ue processed last
    -- the last group alone makes the two sums differ
    have short : rbSize cell.dlBandwidth (cell.nRbg - 1) < allocatedSize cell.dlBandwidth
        (cell.nRbg - 1) := by
      rw [Cell.nRbg, fifteen]
      decide
    have less : ∑ i ∈ held cell s ue, rbSize cell.dlBandwidth i < ∑ i ∈ held cell s ue,
        allocatedSize cell.dlBandwidth i :=
      sum_lt_sum (fun i _ => rbSize_le _ narrow i) ⟨_, last, short⟩
    rw [← agrees.count ue processed, ← kept.counted ue processed] at less
    exact lt_irrefl _ less
  · intro free
    have count : ∀ ue, Processed cell idx ue →
        (s.ue ue).preNbAvailableRbs = ∑ i ∈ held cell s ue, rbSize cell.dlBandwidth i := by
      intro ue processed
      rw [kept.counted ue processed]
      refine sum_congr rfl fun i member => allocatedSize_eq narrow fun fifteen last => ?_
      exact free fifteen ue processed (last ▸ member)
    refine ⟨count, ?_⟩
    calc ∑ ue with Processed cell idx ue, (s.ue ue).preNbAvailableRbs
        = ∑ ue with Processed cell idx ue, ∑ i ∈ held cell s ue, rbSize cell.dlBandwidth i :=
          sum_congr rfl fun ue member => count ue (mem_filter.mp member).2
      _ ≤ ∑ i ∈ range cell.nRbg, rbSize cell.dlBandwidth i := by
          refine sum_shares_le (fun ue _ => filter_subset _ _) ?_ _
          exact kept.apart.subset fun ue member => (mem_filter.mp member).2
      _ = cell.dlBandwidth.toPrb := sum_rbSize _

/-! ### One group -/

/-- Nobody has the group, and the slice may use it. -/
def wanted (slice : Slice n) (ue : Fin n) (s : State n) (i : Nat) : Bool :=
  !s.rballocSub i && !(s.ue ue).rballocSubUe i && slice.sliceAllocationMask i

/-- The turn at a group gives it to the UE. -/
def Takes (cell : Cell n) (slice : Slice n) (ue : Fin n) (s : State n) (i : Nat) : Prop :=
  wanted slice ue s i = true ∧ 0 < (s.ue ue).nbRbsRemaining ∧
    (s.ue ue).preNbAvailableRbs < (slice.nbRbsRequired ue).toNat ∧ (s.ue ue).dlPowOff ≠ 0 ∧
    allocatedSize cell.dlBandwidth i ≤ (s.ue ue).nbRbsRemaining

instance (cell : Cell n) (slice : Slice n) (ue : Fin n) (s : State n) :
    DecidablePred (Takes cell slice ue s) :=
  fun _ => inferInstanceAs (Decidable (_ ∧ _ ∧ _ ∧ _ ∧ _))

section
variable {cell : Cell n} {slice : Slice n} {ue : Fin n} {s : State n} {i idx : Nat}

theorem held_give (inside : i < cell.nRbg) : held cell (s.give cell ue i) ue =
    insert i (held cell s ue) := by
  ext j
  rw [mem_insert, mem_held, mem_held, State.give_rballocSubUe, Function.update_apply]
  by_cases here : j = i
  · simp only [here, inside, if_true, true_and, true_or]
  · rw [if_neg here, or_iff_right here]

theorem held_give_other {other : Fin n} (apart : other ≠ ue) : held cell (s.give cell ue i) other =
    held cell s other := by
  rw [held, State.give_other apart, held]

/-- A turn of the loop gives the group away or does nothing. -/
theorem allocateRbg_eq : PreProcessor.allocateRbg cell slice ue s i =
    if Takes cell slice ue s i then s.give cell ue i else s := by
  unfold PreProcessor.allocateRbg Takes wanted
  rcases Bool.eq_false_or_eq_true (s.rballocSub i) with taken | taken
  · simp only [taken, if_true, Bool.not_true, Bool.false_and, Bool.false_eq_true,
      false_and, if_false]
  rcases Bool.eq_false_or_eq_true ((s.ue ue).rballocSubUe i) with own | own
  · simp only [own, if_true, Bool.not_true, Bool.and_false, Bool.false_and, Bool.false_eq_true,
      false_and, if_false, ite_self]
  rcases Bool.eq_false_or_eq_true (slice.sliceAllocationMask i) with allowed | masked
  · simp only [taken, own, allowed, if_false, Bool.not_false, Bool.and_self, true_and,
      Bool.false_eq_true, Bool.true_eq_false]
    grind
  · simp only [masked, if_true, Bool.and_false, Bool.false_eq_true, false_and, if_false, ite_self]

theorem wanted_free (here : wanted slice ue s i = true) : s.rballocSub i = false := by
  rw [wanted, Bool.and_eq_true, Bool.and_eq_true, Bool.not_eq_true'] at here
  exact here.1.1

theorem Kept.give (kept : Kept cell idx s) (processed : Processed cell idx ue)
    (inside : i < cell.nRbg)
    (free : s.rballocSub i = false) : Kept cell idx (s.give cell ue i) := by
  -- a free group is in no bitmap
  have absent : ∀ other, Processed cell idx other → i ∉ held cell s other :=
    fun other processed member =>
      Bool.noConfusion (free.symm.trans (kept.owned other processed i member))
  refine ⟨?_, ?_, ?_, ?_⟩
  · intro other processed j member
    by_cases here : j = i
    · rw [here, State.give_rballocSub]
    · rw [State.give_rballocSub_other here]
      by_cases same : other = ue
      · subst same
        rw [held_give inside, mem_insert, or_iff_right here] at member
        exact kept.owned other processed j member
      · rw [held_give_other same] at member
        exact kept.owned other processed j member
  · intro a processedA b processedB differ
    show Disjoint (held cell (s.give cell ue i) a) (held cell (s.give cell ue i) b)
    by_cases first : a = ue
    · subst first
      rw [held_give inside, held_give_other differ.symm, disjoint_insert_left]
      exact ⟨absent b processedB, kept.apart processedA processedB differ⟩
    · by_cases second : b = ue
      · subst second
        rw [held_give inside, held_give_other differ, disjoint_insert_right]
        exact ⟨absent a processedA, kept.apart processedA processedB differ⟩
      · rw [held_give_other first, held_give_other second]
        exact kept.apart processedA processedB differ
  · intro other processedOther
    by_cases same : other = ue
    · subst same
      have small : ∑ j ∈ insert i (held cell s other), allocatedSize cell.dlBandwidth j ≤ 100 := by
        refine (sum_le_sum_of_subset ?_).trans (sum_allocatedSize _)
        exact insert_subset (mem_range.mpr inside) (filter_subset _ _)
      have added := sum_insert (f := allocatedSize cell.dlBandwidth) (absent other processedOther)
      rw [held_give inside, added]
      rw [added, ← kept.counted other processedOther] at small
      rw [State.give_preNbAvailableRbs, ← kept.counted other processedOther,
        Nat.mod_eq_of_lt (by omega), Nat.add_comm]
    · rw [held_give_other same, State.give_other same]
      exact kept.counted other processedOther
  · intro other processedOther
    by_cases same : other = ue
    · subst same
      rw [State.give_dlPowOff]
      split
      · exact Nat.one_ne_zero
      · exact kept.power other processedOther
    · rw [State.give_other same]
      exact kept.power other processedOther

theorem Kept.allocateRbg (kept : Kept cell idx s) (processed : Processed cell idx ue)
    (inside : i < cell.nRbg) :
    Kept cell idx (allocateRbg cell slice ue s i) := by
  rw [allocateRbg_eq]
  split
  · next takes => exact kept.give processed inside (wanted_free takes.1)
  · exact kept

theorem Kept.foldl (processed : Processed cell idx ue) {list : List Nat}
    (inside : ∀ i ∈ list, i < cell.nRbg)
    (kept : Kept cell idx s) :
    Kept cell idx (list.foldl (PreProcessor.allocateRbg cell slice ue) s) := by
  induction list generalizing s with
  | nil => exact kept
  | cons i rest ih =>
    exact ih (fun j member => inside j (List.mem_cons_of_mem _ member))
      (kept.allocateRbg processed (inside i List.mem_cons_self))

theorem Kept.allocate (kept : Kept cell idx s) (processed : Processed cell idx ue) :
    Kept cell idx (allocate cell slice ue s) :=
  Kept.foldl processed (fun _ member => List.mem_range.mp member) kept

theorem held_setRemaining (other : Fin n) (remaining : Nat) :
    held cell (s.setRemaining ue remaining) other = held cell s other := by
  rw [held, State.setRemaining_rballocSubUe, held]

theorem Kept.setRemaining (kept : Kept cell idx s) (remaining : Nat) :
    Kept cell idx (s.setRemaining ue remaining) := by
  refine ⟨?_, ?_, ?_, ?_⟩
  · intro other processed j member
    rw [held_setRemaining] at member
    exact kept.owned other processed j member
  · intro a processedA b processedB differ
    have apart := kept.apart processedA processedB differ
    rwa [Function.onFun, ← held_setRemaining a remaining, ← held_setRemaining b remaining] at apart
  · intro other processed
    rw [State.setRemaining_preNbAvailableRbs, held_setRemaining]
    exact kept.counted other processed
  · intro other processed
    rw [State.setRemaining_dlPowOff]
    exact kept.power other processed

/-! ### A slice begins -/

theorem processed_succ : Processed cell (idx + 1) ue ↔
    Processed cell idx ue ∨ cell.rnti ue ≠ 0 ∧ ueDlSliceMembership cell idx ue = true := by
  rw [Processed, Processed, ueDlSliceMembership, Nat.lt_succ_iff_lt_or_eq, Bool.and_eq_true,
    decide_eq_true_eq]
  grind

/-- A reset clears the members of the slice, leaves the UEs of earlier slices and frees no group. -/
theorem reset_spec {s' : State n} (done : reset cell idx s = some s') :
    (∀ i, s.rballocSub i = true → s'.rballocSub i = true) ∧
      (∀ ue, Processed cell idx ue → s'.ue ue = s.ue ue) ∧
      ∀ ue, cell.rnti ue ≠ 0 → ueDlSliceMembership cell idx ue = true →
        held cell s' ue = ∅ ∧ (s'.ue ue).preNbAvailableRbs = 0 ∧ (s'.ue ue).dlPowOff = 2 := by
  obtain ⟨limits, -, rfl⟩ := Option.map_eq_some_iff.mp done
  refine ⟨fun i taken => ?_, fun ue processed => ?_, fun ue rnti member => ?_⟩
  · simp only [taken, Bool.true_or]
  · refine if_neg fun both => ?_
    have here : cell.assocDlSliceIdx ue = idx :=
      of_decide_eq_true (Bool.and_eq_true_iff.mp both.2).2
    exact absurd here processed.2.2.ne
  · simp only [held, rnti, member, ne_eq, not_false_eq_true, and_self, and_true, if_true]
    refine filter_eq_empty_iff.mpr fun i inside => ?_
    simp only [mem_range.mp inside, decide_true, Bool.not_true, Bool.false_and, Bool.false_eq_true,
      not_false_eq_true]

theorem Kept.reset {s' : State n} (kept : Kept cell idx s) (done : reset cell idx s = some s') :
    Kept cell (idx + 1) s' := by
  obtain ⟨grows, same, fresh⟩ := reset_spec done
  have heldSame : ∀ ue, Processed cell idx ue → held cell s' ue = held cell s ue := by
    intro ue processed
    rw [held, same ue processed, held]
  refine ⟨?_, ?_, ?_, ?_⟩
  · intro ue processed i member
    rcases processed_succ.mp processed with old | ⟨rnti, new⟩
    · rw [heldSame ue old] at member
      exact grows i (kept.owned ue old i member)
    · rw [(fresh ue rnti new).1] at member
      exact absurd member (notMem_empty i)
  · intro a processedA b processedB differ
    show Disjoint (held cell s' a) (held cell s' b)
    rcases processed_succ.mp processedA with oldA | ⟨rnti, new⟩
    · rcases processed_succ.mp processedB with oldB | ⟨rnti, new⟩
      · rw [heldSame a oldA, heldSame b oldB]
        exact kept.apart oldA oldB differ
      · rw [(fresh b rnti new).1]
        exact disjoint_empty_right _
    · rw [(fresh a rnti new).1]
      exact disjoint_empty_left _
  · intro ue processed
    rcases processed_succ.mp processed with old | ⟨rnti, new⟩
    · rw [same ue old, heldSame ue old]
      exact kept.counted ue old
    · obtain ⟨none, zero, -⟩ := fresh ue rnti new
      rw [none, zero, sum_empty]
  · intro ue processed
    rcases processed_succ.mp processed with old | ⟨rnti, new⟩
    · rw [same ue old]
      exact kept.power ue old
    · rw [(fresh ue rnti new).2.2]
      exact two_ne_zero

theorem noneLast_reset {s' : State n} (done : PreProcessor.reset cell idx s = some s') :
    NoneLast cell (idx + 1) s' ↔ NoneLast cell idx s := by
  obtain ⟨-, same, fresh⟩ := reset_spec done
  constructor
  · intro free ue processed
    have absent := free ue (processed_succ.mpr (.inl processed))
    rwa [held, same ue processed, ← held] at absent
  · intro free ue processed
    rcases processed_succ.mp processed with old | ⟨rnti, new⟩
    · rw [held, same ue old, ← held]
      exact free ue old
    · rw [(fresh ue rnti new).1]
      exact notMem_empty _

end

end OpenAir.Mac.PreProcessor
