import OpenAir.Mac.PreProcessor.RbgCount

/-! When the counts agree with the bitmaps: always but on 75 blocks, where the pre-processor stops,
and on 15 blocks, where an allocation may reach the last group and count its one block twice. -/
namespace OpenAir.Mac.PreProcessor
open Finset Run
open Cce (Bandwidth)

variable {n : Nat}

/-- The groups below `k` that the UE may get. -/
def freeBelow (slice : Slice n) (ue : Fin n) (s : State n) (k : Nat) : Nat :=
  ((List.range k).filter (wanted slice ue s)).length

/-- The allocation gets as far as the last group with a unit left to allocate. -/
def TakesLast (cell : Cell n) (slice : Slice n) (ue : Fin n) (s : State n) : Prop :=
  wanted slice ue s (cell.nRbg - 1) = true ∧
    (freeBelow slice ue s (cell.nRbg - 1) + 1) * getMinRbUnit cell.dlBandwidth ≤
      (s.ue ue).nbRbsRemaining ∧
    (s.ue ue).preNbAvailableRbs + freeBelow slice ue s (cell.nRbg - 1) *
      getMinRbUnit cell.dlBandwidth <
      (slice.nbRbsRequired ue).toNat

/-- The same for a call, on the state before it. -/
def CallTakesLast (cell : Cell n) (s : State n) : Call n → Prop
  | .reset _ => False
  | .position slice ue => TakesLast cell slice ue (position slice ue s)
  | .share slice ue => TakesLast cell slice ue (share slice ue s)

section
variable {cell : Cell n} {slice : Slice n} {ue : Fin n} {s after : State n} {idx k t : Nat}

theorem getMinRbUnit_pos (bandwidth : Bandwidth) : 0 < getMinRbUnit bandwidth := by
  cases bandwidth <;> decide

theorem getMinRbUnit_le (bandwidth : Bandwidth) : getMinRbUnit bandwidth ≤ 4 := by
  cases bandwidth <;> decide

theorem allocatedSize_below (below : k < cell.nRbg - 1) :
    allocatedSize cell.dlBandwidth k = getMinRbUnit cell.dlBandwidth :=
  if_neg fun both => below.ne both.1

theorem Kept.count_le (kept : Kept cell idx s) (processed : Processed cell idx ue) :
    (s.ue ue).preNbAvailableRbs ≤ 100 := by
  rw [kept.counted ue processed]
  exact (sum_le_sum_of_subset (filter_subset _ _)).trans (sum_allocatedSize _)

/-- The loop after the groups below `k`, of which `t` were given. -/
structure Walked (cell : Cell n) (slice : Slice n) (ue : Fin n) (s after : State n)
    (k t : Nat) : Prop where
  most : t ≤ freeBelow slice ue s k
  remaining : (after.ue ue).nbRbsRemaining + t * getMinRbUnit cell.dlBandwidth =
    (s.ue ue).nbRbsRemaining
  count : (after.ue ue).preNbAvailableRbs = (s.ue ue).preNbAvailableRbs +
    t * getMinRbUnit cell.dlBandwidth
  stopped : t = freeBelow slice ue s k ∨ (after.ue ue).nbRbsRemaining <
    getMinRbUnit cell.dlBandwidth ∨
    (slice.nbRbsRequired ue).toNat ≤ (after.ue ue).preNbAvailableRbs
  ahead : ∀ i, k ≤ i → wanted slice ue after i = wanted slice ue s i
  unheld : ∀ i, k ≤ i → (after.ue ue).rballocSubUe i = (s.ue ue).rballocSubUe i

theorem freeBelow_succ (slice : Slice n) (ue : Fin n) (s : State n) (k : Nat) :
    freeBelow slice ue s (k + 1) = freeBelow slice ue s k + if wanted slice ue s k =
    true then 1 else 0 := by
  rw [freeBelow, List.range_succ, List.filter_append, List.length_append, ← freeBelow,
    List.filter_singleton]
  cases wanted slice ue s k <;> rfl

theorem wanted_give {i : Nat} (apart : i ≠ k) : wanted slice ue (s.give cell ue k) i =
    wanted slice ue s i := by
  rw [wanted, State.give_rballocSub_other apart, State.give_rballocSubUe,
    Function.update_of_ne apart, wanted]

theorem Walked.succ (walked : Walked cell slice ue s after k t) (kept : Kept cell idx after)
    (processed : Processed cell idx ue) (below : k < cell.nRbg - 1) :
    ∃ t', Walked cell slice ue s (allocateRbg cell slice ue after k) (k + 1) t' := by
  have positive := getMinRbUnit_pos cell.dlBandwidth
  have size := allocatedSize_below below
  have here := freeBelow_succ slice ue s k
  rw [← walked.ahead k le_rfl] at here
  rw [allocateRbg_eq]
  by_cases takes : Takes cell slice ue after k
  · have fits := takes.2.2.2.2
    have small := kept.count_le processed
    have unit := getMinRbUnit_le cell.dlBandwidth
    have counted : (after.ue ue).preNbAvailableRbs + getMinRbUnit cell.dlBandwidth <
      65536 := by omega
    rw [if_pos takes]
    rw [if_pos takes.1] at here
    rw [size] at fits
    refine ⟨t + 1, ?_, ?_, ?_, ?_, fun i beyond => ?_, fun i beyond => ?_⟩
    · rw [here]
      exact Nat.succ_le_succ walked.most
    · rw [State.give_nbRbsRemaining, size, ← walked.remaining, Nat.succ_mul]
      omega
    · rw [State.give_preNbAvailableRbs, size, Nat.mod_eq_of_lt counted, walked.count,
        Nat.succ_mul, Nat.add_assoc]
    · rw [here]
      rcases walked.stopped with all | short | enough
      · exact .inl (congrArg Nat.succ all)
      · exact absurd fits (Nat.not_le.mpr short)
      · exact absurd takes.2.2.1 (Nat.not_lt.mpr enough)
    · have apart : i ≠ k := Nat.ne_of_gt beyond
      rw [wanted_give apart]
      exact walked.ahead i (Nat.le_of_succ_le beyond)
    · have apart : i ≠ k := Nat.ne_of_gt beyond
      rw [State.give_rballocSubUe, Function.update_of_ne apart]
      exact walked.unheld i (Nat.le_of_succ_le beyond)
  · rw [if_neg takes]
    refine ⟨t, ?_, walked.remaining, walked.count, ?_,
      fun i beyond => walked.ahead i (Nat.le_of_succ_le beyond),
      fun i beyond => walked.unheld i (Nat.le_of_succ_le beyond)⟩
    · rw [here]
      exact walked.most.trans (Nat.le_add_right _ _)
    · -- a group that was wanted was refused for one of the two bounds
      by_cases wants : wanted slice ue after k = true
      · right
        by_contra neither
        obtain ⟨room, less⟩ := not_or.mp neither
        refine takes ⟨wants, positive.trans_le (Nat.le_of_not_lt room), Nat.lt_of_not_le less,
          kept.power ue processed, ?_⟩
        rw [size]
        exact Nat.le_of_not_lt room
      · rw [here, if_neg wants]
        exact walked.stopped

theorem walk (kept : Kept cell idx s) (processed : Processed cell idx ue)
    (below : k ≤ cell.nRbg - 1) :
    ∃ t, Walked cell slice ue s ((List.range k).foldl (allocateRbg cell slice ue) s) k t := by
  induction k with
  | zero => exact ⟨0, Nat.zero_le _, by rw [Nat.zero_mul]; rfl, by
      rw [Nat.zero_mul]; rfl, .inl rfl, fun _ _ => rfl, fun _ _ => rfl⟩
  | succ k ih =>
    obtain ⟨t, walked⟩ := ih (Nat.le_of_succ_le below)
    rw [List.range_succ, List.foldl_append, List.foldl_cons, List.foldl_nil]
    refine walked.succ (Kept.foldl processed (fun i member => ?_) kept) processed below
    have := List.mem_range.mp member
    omega

theorem nRbg_pos (cell : Cell n) : 0 < cell.nRbg := by
  rw [Cell.nRbg]
  cases cell.dlBandwidth <;> decide

/-- On 15 blocks the last group goes to the UE exactly when the condition says so. -/
theorem last_given_iff (kept : Kept cell idx s) (processed : Processed cell idx ue)
    (fifteen : cell.dlBandwidth = .n15) :
    ((allocate cell slice ue s).ue ue).rballocSubUe (cell.nRbg - 1) = true ↔
      (s.ue ue).rballocSubUe (cell.nRbg - 1) = true ∨ TakesLast cell slice ue s := by
  obtain ⟨t, walked⟩ := (@walk _ _ slice _ _ _ _) kept processed le_rfl
  have keptBefore :
      Kept cell idx ((List.range (cell.nRbg - 1)).foldl (allocateRbg cell slice ue) s) := by
    refine Kept.foldl processed (fun i member => ?_) kept
    exact (List.mem_range.mp member).trans_le (Nat.sub_le _ _)
  have whole : allocate cell slice ue s = allocateRbg cell slice ue
      ((List.range (cell.nRbg - 1)).foldl (allocateRbg cell slice ue) s) (cell.nRbg - 1) := by
    rw [allocate]
    conv_lhs => rw [← Nat.sub_add_cancel (nRbg_pos cell), List.range_succ]
    rw [List.foldl_append, List.foldl_cons, List.foldl_nil]
  generalize (List.range (cell.nRbg - 1)).foldl (allocateRbg cell slice ue) s = before
    at walked keptBefore whole
  have size : allocatedSize cell.dlBandwidth (cell.nRbg - 1) = getMinRbUnit cell.dlBandwidth := by
    rw [Cell.nRbg, fifteen]
    rfl
  have unit : getMinRbUnit cell.dlBandwidth = 2 := by rw [fifteen]; rfl
  have takes_iff : Takes cell slice ue before (cell.nRbg - 1) ↔ TakesLast cell slice ue s := by
    have most := walked.most
    have remaining := walked.remaining
    have count := walked.count
    have stopped := walked.stopped
    rw [unit] at remaining count stopped
    rw [Takes, TakesLast, size, unit, walked.ahead _ le_rfl]
    constructor
    · rintro ⟨wants, -, less, -, fits⟩
      have all : t = freeBelow slice ue s (cell.nRbg - 1) := by omega
      exact ⟨wants, by omega, by omega⟩
    · rintro ⟨wants, fits, less⟩
      have all : t = freeBelow slice ue s (cell.nRbg - 1) := by omega
      exact ⟨wants, by omega, by omega, keptBefore.power ue processed, by omega⟩
  rw [whole, allocateRbg_eq, ← takes_iff, ← walked.unheld _ le_rfl]
  by_cases takes : Takes cell slice ue before (cell.nRbg - 1)
  · rw [if_pos takes, State.give_rballocSubUe, Function.update_self]
    exact iff_of_true rfl (.inr takes)
  · rw [if_neg takes, or_iff_left takes]

theorem allocate_other {other : Fin n} (apart : other ≠ ue) : (allocate cell slice ue s).ue other =
    s.ue other := by
  rw [allocate]
  generalize List.range cell.nRbg = list
  induction list generalizing s with
  | nil => rfl
  | cons i rest ih =>
    rw [List.foldl_cons, ih, allocateRbg_eq]
    split
    · exact State.give_other apart
    · rfl

theorem mem_held_last : cell.nRbg - 1 ∈ held cell s ue ↔
    (s.ue ue).rballocSubUe (cell.nRbg - 1) = true := by
  rw [mem_held, and_iff_right (Nat.sub_lt (nRbg_pos cell) one_pos)]

theorem noneLast_allocate (kept : Kept cell idx s) (processed : Processed cell idx ue)
    (fifteen : cell.dlBandwidth = .n15) :
    NoneLast cell idx (allocate cell slice ue s) ↔ NoneLast cell idx s ∧
    ¬ TakesLast cell slice ue s := by
  have own := (@last_given_iff _ _ slice _ _ _) kept processed fifteen
  constructor
  · intro free
    have absent := mt (mem_held_last.mpr ∘ own.mpr) (free ue processed)
    refine ⟨fun other processedOther => ?_, fun takes => absent (.inr takes)⟩
    by_cases same : other = ue
    · subst same
      exact fun member => absent (.inl (mem_held_last.mp member))
    · have there := free other processedOther
      rwa [held, allocate_other same, ← held] at there
  · rintro ⟨free, spared⟩ other processedOther member
    by_cases same : other = ue
    · subst same
      rcases own.mp (mem_held_last.mp member) with before | takes
      · exact free other processed (mem_held_last.mpr before)
      · exact spared takes
    · rw [held, allocate_other same, ← held] at member
      exact free other processedOther member

end

/-- A call that allocates to a UE of a slice begun before. -/
def Serves (cell : Cell n) (idx : Nat) : Call n → Prop
  | .reset _ => False
  | .position _ ue | .share _ ue => Processed cell idx ue

/-- The bound on the runs of the 15-block carrier; no condition on the other bandwidths. -/
def Spared (cell : Cell n) (s : State n) (call : Call n) : Prop := cell.dlBandwidth = .n15 →
    ¬ CallTakesLast cell s call

section
variable {cell : Cell n} {idx : Nat} {s : State n}

theorem noneLast_setRemaining (ue : Fin n) (remaining : Nat) :
    NoneLast cell idx (s.setRemaining ue remaining) ↔ NoneLast cell idx s := by
  simp only [NoneLast, held_setRemaining]

theorem serve (kept : Kept cell idx s) (call : Call n) (serves : Serves cell idx call) :
    ∃ s', step cell s call = some s' ∧ Kept cell idx s' ∧
      ((cell.dlBandwidth = .n15 → NoneLast cell idx s') ↔
        (cell.dlBandwidth = .n15 → NoneLast cell idx s) ∧ Spared cell s call) := by
  cases call with
  | reset => exact serves.elim
  | position slice ue =>
    have prepared := (@Kept.setRemaining _ _ ue _ _ kept) (slice.nbRbsAccounted ue).toNat
    refine ⟨_, rfl, prepared.allocate serves, ?_⟩
    rw [Spared, ← forall_and]
    refine forall_congr' fun fifteen => ?_
    exact (noneLast_allocate prepared serves fifteen).trans
      (and_congr_left' (noneLast_setRemaining ue _))
  | share slice ue =>
    have prepared := (@Kept.setRemaining _ _ ue _ _ kept) (((slice.nbRbsRequired ue).toNat + 65536 -
      (slice.nbRbsAccounted ue).toNat + (s.ue ue).nbRbsRemaining) % 65536)
    refine ⟨_, rfl, prepared.allocate serves, ?_⟩
    rw [Spared, ← forall_and]
    refine forall_congr' fun fifteen => ?_
    exact (noneLast_allocate prepared serves fifteen).trans
      (and_congr_left' (noneLast_setRemaining ue _))

theorem reached_processed {slice : Slice n} {ue : Fin n} (member : ue ∈ reached cell idx slice) :
    Processed cell (idx + 1) ue := by
  have conditions := (List.mem_filter.mp member).2
  simp only [Bool.and_eq_true, decide_eq_true_eq] at conditions
  exact processed_succ.mpr (.inr ⟨conditions.1.1.1, conditions.1.2⟩)

theorem preProcessor_run (shares : Bool) (slice : Slice n) (kept : Kept cell idx s)
    (narrow : cell.dlBandwidth ≠ .n75) :
    ∃ s', run (step cell) s (preProcessor cell shares idx slice) = some s' ∧
      Kept cell (idx + 1) s' ∧
      ((cell.dlBandwidth = .n15 → NoneLast cell (idx + 1) s') ↔
        (cell.dlBandwidth = .n15 → NoneLast cell idx s) ∧
          Meets (step cell) (Spared cell) s (preProcessor cell shares idx slice)) := by
  have supported : ∃ limits, sf0Limits cell.dlBandwidth = some limits := by
    cases bandwidth : cell.dlBandwidth with
    | n75 => exact absurd bandwidth narrow
    | n6 | n15 | n25 | n50 | n100 => exact ⟨_, rfl⟩
  obtain ⟨limits, found⟩ := supported
  obtain ⟨begun, done⟩ : ∃ begun, step cell s (.reset idx) = some begun := by
    rw [step, reset, found]
    exact ⟨_, rfl⟩
  have serves : ∀ call ∈ (reached cell idx slice).map (.position slice) ++
      (if shares then (reached cell idx slice).map (.share slice) else []),
          Serves cell (idx + 1) call := by
    intro call member
    rcases List.mem_append.mp member with first | second
    · obtain ⟨ue, there, rfl⟩ := List.mem_map.mp first
      exact reached_processed there
    · cases shares with
      | false => exact absurd second List.not_mem_nil
      | true =>
        obtain ⟨ue, there, rfl⟩ := List.mem_map.mp second
        exact reached_processed there
  obtain ⟨s', ran, keptAfter, exactly⟩ :=
    run_exactly (fun s call (kept : Kept cell (idx + 1) s) => serve kept call) serves
    (kept.reset done)
  refine ⟨s', ?_, keptAfter, ?_⟩
  · rw [preProcessor, List.cons_append, run, done, Option.bind_some, ran]
  · rw [exactly, forall_congr' fun _ => noneLast_reset done, preProcessor, List.cons_append]
    refine and_congr_right
      fun _ => ⟨fun meets => ⟨fun _ => not_false, fun next same => ?_⟩,
      fun meets => meets.2 begun done⟩
    cases done.symm.trans same
    exact meets

theorem slices_run (shares : Bool) (slices : List (Slice n)) (kept : Kept cell idx s)
    (narrow : cell.dlBandwidth ≠ .n75) :
    ∃ s', run (step cell) s (sliceCalls cell shares idx slices) = some s' ∧
      Kept cell (idx + slices.length) s' ∧
      ((cell.dlBandwidth = .n15 → NoneLast cell (idx + slices.length) s') ↔
        (cell.dlBandwidth = .n15 → NoneLast cell idx s) ∧
          Meets (step cell) (Spared cell) s (sliceCalls cell shares idx slices)) := by
  induction slices generalizing idx s with
  | nil => exact ⟨s, rfl, kept, (and_iff_left trivial).symm⟩
  | cons slice rest ih =>
    obtain ⟨mid, first, keptMid, exactly⟩ := preProcessor_run shares slice kept narrow
    obtain ⟨s', second, keptAfter, exactlyRest⟩ := ih keptMid
    have places : idx + 1 + rest.length = idx + (slice :: rest).length := by
      rw [List.length_cons, Nat.add_assoc, Nat.add_comm 1]
    rw [places] at keptAfter exactlyRest
    refine ⟨s', ?_, keptAfter, ?_⟩
    · rw [sliceCalls, run_append first, second]
    · rw [exactlyRest, exactly, and_assoc, sliceCalls, meets_append_iff first]

end

/-- The pre-processing of all slices ends with counts that are the true sizes of the bitmaps, at
most the blocks of the carrier in all, exactly when the carrier is not of 75 blocks and, on 15, no
allocation reaches the last group. -/
theorem rbg_counts_agree (cell : Cell n) (intrasliceShareActive : Bool) (slices : List (Slice n))
    (s : State n) :
    (∃ s', scheduleDlsch cell intrasliceShareActive slices s = some s' ∧
        Agrees cell slices.length s') ↔
      (slices ≠ [] → cell.dlBandwidth ≠ .n75) ∧
        Meets (step cell)
          (fun s call => cell.dlBandwidth = .n15 → ¬ CallTakesLast cell s call) s.clear
          (sliceCalls cell intrasliceShareActive 0 slices) := by
  have nobody : ∀ ue, ¬ Processed cell 0 ue := fun ue processed => Nat.not_lt_zero _ processed.2.2
  have start : Kept cell 0 s.clear := by
    refine ⟨fun ue processed =>
      ?_, fun ue processed => ?_, fun ue processed => ?_, fun ue processed => ?_⟩
    all_goals exact absurd processed (nobody ue)
  by_cases narrow : cell.dlBandwidth = .n75
  · cases slices with
    | nil =>
      refine iff_of_true ⟨s.clear, rfl, fun ue processed => absurd processed (nobody ue), ?_⟩
        ⟨fun more => absurd rfl more, trivial⟩
      rw [List.length_nil, filter_false_of_mem fun ue _ => nobody ue, sum_empty]
      exact Nat.zero_le _
    | cons slice rest =>
      refine iff_of_false ?_ fun both => both.1 (List.cons_ne_nil _ _) narrow
      rintro ⟨s', ran, -⟩
      have stops : step cell s.clear (.reset 0) = none := by
        rw [step, reset, narrow]
        rfl
      rw [scheduleDlsch, sliceCalls, preProcessor, List.cons_append, List.cons_append, run, stops]
        at ran
      cases ran
  · obtain ⟨s', ran, kept, exactly⟩ := slices_run intrasliceShareActive slices start narrow
    rw [Nat.zero_add] at kept exactly
    rw [and_iff_right fun _ => narrow]
    have free : cell.dlBandwidth = .n15 → NoneLast cell 0 s.clear :=
      fun _ ue processed => absurd processed (nobody ue)
    constructor
    · rintro ⟨last, ranLast, agrees⟩
      cases ran.symm.trans ranLast
      exact (exactly.mp ((agrees_iff kept narrow).mp agrees)).2
    · intro meets
      exact ⟨s', ran, (agrees_iff kept narrow).mpr (exactly.mpr ⟨free, meets⟩)⟩

/-- Subframe 0 of a carrier of 15 blocks: one UE that needs 8 of them gets the groups 0, 1, 6 and 7,
seven blocks that are counted as eight. -/
theorem last_group_counted_twice : ¬ ∀ (cell : Cell 16) (shares : Bool) (slices : List (Slice 16))
    (s : State 16),
    ∃ s', scheduleDlsch cell shares slices s = some s' ∧ Agrees cell slices.length s' := by
  let cell : Cell 16 :=
    { dlBandwidth := .n15, subframe := 0, vrbMap := fun _ => false,
      rnti := fun ue => if ue = 0 then 0x1234 else 0,
      active := fun ue => ue = 0, ulOutOfSync := fun _ => false, assocDlSliceIdx := fun _ => 0,
      activeCc := fun ue => ue = 0, tmode := fun _ => 1 }
  let slice : Slice 16 :=
    { sliceAllocationMask := fun _ => true, list := [0], nbRbsRequired := fun _ => 8,
      nbRbsAccounted := fun _ => 8 }
  let s : State 16 := { rballocSub := fun _ => false, ue := fun _ => ⟨0, fun _ => false, 0, 0⟩ }
  intro always
  obtain ⟨s', ran, agrees⟩ := always cell false [slice] s
  have processed : Processed cell 1 0 := by decide
  have sizes : (scheduleDlsch cell false [slice] s).map (fun s => ((s.ue 0).preNbAvailableRbs,
      ∑ i ∈ held cell s 0, rbSize cell.dlBandwidth i)) = some (8, 7) := by
    decide +kernel
  rw [ran] at sizes
  have eight := congrArg Prod.fst (Option.some.inj sizes)
  have seven := congrArg Prod.snd (Option.some.inj sizes)
  have counted := agrees.count 0 processed
  dsimp only at eight seven
  rw [eight, seven] at counted
  exact absurd counted (by decide)

end OpenAir.Mac.PreProcessor
