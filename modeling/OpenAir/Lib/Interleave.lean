import Mathlib.Data.List.Basic
import OpenAir.Lib.Run

/-! Threads that take turns. Operations that touch separate places of a shared state give the same
result in every order that keeps the operations of each place in sequence. -/
namespace OpenAir.Interleave

variable {σ ι κ τ : Type}

/-- An order of all operations that keeps the order of each thread; the numbers say whose turn it
is. -/
def Interleaves (program : Nat → List ι) (order : List ι) : Prop :=
  ∃ turns : List (Nat × ι), order = turns.map Prod.snd ∧
    ∀ thread, (turns.filter fun turn => turn.1 = thread).map Prod.snd = program thread

section Places

variable {program : Nat → List ι} {order : List ι}

theorem Interleaves.mem (interleaves : Interleaves program order) {op : ι} (member : op ∈ order) :
    ∃ thread, op ∈ program thread := by
  obtain ⟨turns, rfl, programs⟩ := interleaves
  obtain ⟨turn, taken, rfl⟩ := List.mem_map.mp member
  refine ⟨turn.1, ?_⟩
  rw [← programs turn.1]
  exact List.mem_map_of_mem (List.mem_filter.mpr ⟨taken, decide_eq_true rfl⟩)

/-- Where one thread owns a class of operations, the order has them as that thread has them. -/
theorem Interleaves.filter_eq (interleaves : Interleaves program order)
    {own : ι → Bool} {owner : Nat}
    (alone : ∀ thread, thread ≠ owner → ∀ op ∈ program thread, own op = false) :
    order.filter own = (program owner).filter own := by
  obtain ⟨turns, rfl, programs⟩ := interleaves
  have only : turns.filter (own ∘ Prod.snd) = (turns.filter fun turn => turn.1 = owner).filter
      (own ∘ Prod.snd) := by
    rw [List.filter_filter]
    refine List.filter_congr fun turn taken => ?_
    by_cases same : turn.1 = owner
    · rw [decide_eq_true same, Bool.and_true]
    · have member : turn.2 ∈ program turn.1 := by
        rw [← programs turn.1]
        exact List.mem_map_of_mem (List.mem_filter.mpr ⟨taken, decide_eq_true rfl⟩)
      rw [decide_eq_false same, Bool.and_false]
      exact alone turn.1 same turn.2 member
  rw [← programs owner, List.filter_map, List.filter_map, only]

theorem filter_tagged (list : List ι) (owner thread : Nat) :
    ((list.map (Prod.mk owner)).filter fun turn => turn.1 = thread).map Prod.snd = if owner =
    thread then list else [] := by
  by_cases same : owner = thread
  · rw [if_pos same, List.filter_eq_self.mpr fun turn member => ?_, List.map_map]
    · exact List.map_id list
    · obtain ⟨op, _, rfl⟩ := List.mem_map.mp member
      exact decide_eq_true same
  · rw [if_neg same, List.filter_eq_nil_iff.mpr fun turn member => ?_]
    · rfl
    · obtain ⟨op, _, rfl⟩ := List.mem_map.mp member
      exact fun equal => same (of_decide_eq_true equal)

theorem exists_interleaves {program : Nat → List ι} {threads : Nat}
    (none : ∀ thread, threads ≤ thread → program thread = []) :
    ∃ order, Interleaves program order := by
  refine ⟨_, (List.range threads).flatMap
    fun thread => (program thread).map (Prod.mk thread), rfl, fun thread => ?_⟩
  have upTo (n : Nat) :
    (((List.range n).flatMap fun other => (program other).map (Prod.mk other)).filter
      fun turn => turn.1 = thread).map Prod.snd = if thread < n then program thread else [] := by
    induction n with
    | zero => rfl
    | succ n ih =>
      rw [List.range_succ, List.flatMap_append, List.filter_append, List.map_append, ih,
        List.flatMap_singleton, filter_tagged]
      rcases Nat.lt_trichotomy thread n with before | rfl | after
      · rw [if_pos before, if_neg (by omega), if_pos (by omega), List.append_nil]
      · rw [if_neg (Nat.lt_irrefl _), if_pos rfl, if_pos (Nat.lt_succ_self _), List.nil_append]
      · rw [if_neg (by omega), if_neg (by omega), if_neg (by omega), List.append_nil]
  rw [upTo]
  rcases Nat.lt_or_ge thread threads with inside | outside
  · exact if_pos inside
  · rw [if_neg (Nat.not_lt.mpr outside), none thread outside]

end Places

/-- The good operations act on one place of the state each, through what can be seen of it. -/
structure Separate (step : σ → ι → Option σ) (good : ι → Prop) (place : ι → κ) (view : κ → σ → τ)
    (act : τ → ι → Option τ) :
    Prop where
  own : ∀ s op, good op → (step s op).map (view (place op)) = act (view (place op) s) op
  other : ∀ s op next k, good op → step s op = some next → k ≠ place op → view k next = view k s

section Separate

variable [DecidableEq κ] {step : σ → ι → Option σ} {good : ι → Prop} {place : ι → κ}
    {view : κ → σ → τ} {act : τ → ι → Option τ}

/-- The operations at one place, in their order. -/
def opsAt (place : ι → κ) (k : κ) (ops : List ι) : List ι := ops.filter fun op => place op = k

theorem opsAt_own {op : ι} {k : κ} (here : place op = k) (rest : List ι) :
    opsAt place k (op :: rest) = op :: opsAt place k rest := by
  rw [opsAt, List.filter_cons, if_pos (decide_eq_true here)]
  rfl

theorem opsAt_other {op : ι} {k : κ} (apart : place op ≠ k) (rest : List ι) :
    opsAt place k (op :: rest) = opsAt place k rest := by
  rw [opsAt, List.filter_cons, if_neg (fun same => apart (of_decide_eq_true same))]
  rfl

theorem opsAt_append (k : κ) (first second : List ι) :
    opsAt place k (first ++ second) = opsAt place k first ++ opsAt place k second :=
  List.filter_append ..

/-- What is seen of a place after a run is what its own operations make of it. -/
theorem Separate.run_view (separate : Separate step good place view act) {ops : List ι}
    (allGood : ∀ op ∈ ops, good op) {s last : σ}
    (ran : Run.run step s ops = some last) (k : κ) : Run.run act (view k s) (opsAt place k ops) =
    some (view k last) := by
  induction ops generalizing s with
  | nil =>
    cases ran
    rfl
  | cons op rest ih =>
    obtain ⟨next, stepped, ran⟩ := Option.bind_eq_some_iff.mp ran
    have later := ih (fun other member => allGood other (List.mem_cons_of_mem _ member)) ran
    have good := allGood op List.mem_cons_self
    by_cases here : place op = k
    · have own := separate.own s op good
      rw [stepped, here, Option.map_some] at own
      rw [opsAt_own here, Run.run, ← own, Option.bind_some, later]
    · rw [opsAt_other here, ← separate.other s op next k good stepped
        (fun same => here same.symm), later]

theorem Separate.run_some (separate : Separate step good place view act) {ops : List ι}
    (allGood : ∀ op ∈ ops, good op) {s : σ}
    (through : ∀ k, (Run.run act (view k s) (opsAt place k ops)).isSome) :
    ∃ last, Run.run step s ops = some last := by
  induction ops generalizing s with
  | nil => exact ⟨s, rfl⟩
  | cons op rest ih =>
    have good := allGood op List.mem_cons_self
    have own := separate.own s op good
    have first := through (place op)
    rw [opsAt_own rfl, Run.run, ← own] at first
    cases stepped : step s op with
    | none =>
      rw [stepped] at first
      cases first
    | some next =>
      rw [stepped, Option.map_some, Option.bind_some] at first
      have rest (k : κ) : (Run.run act (view k next) (opsAt place k rest)).isSome := by
        by_cases here : k = place op
        · rw [here]
          exact first
        · have elsewhere := through k
          rwa [opsAt_other (fun same => here same.symm),
            ← separate.other s op next k good stepped here] at elsewhere
      obtain ⟨last, ran⟩ :=
        ih (fun other member => allGood other (List.mem_cons_of_mem _ member)) rest
      exact ⟨last, by rw [Run.run, stepped, Option.bind_some, ran]⟩

/-- Two orders with the same operations at every place end with the same views. -/
theorem Separate.run_agree (separate : Separate step good place view act) {ops others : List ι}
    (allGood : ∀ op ∈ ops, good op)
    (othersGood : ∀ op ∈ others, good op)
    (same : ∀ k, opsAt place k others = opsAt place k ops) {s last : σ}
    (ran : Run.run step s ops = some last) :
    ∃ otherLast, Run.run step s others = some otherLast ∧ ∀ k, view k otherLast = view k last := by
  have views := separate.run_view allGood ran
  have through (k : κ) : (Run.run act (view k s) (opsAt place k others)).isSome := by
    rw [same k, views k]
    rfl
  obtain ⟨otherLast, otherRan⟩ := separate.run_some othersGood through
  refine ⟨otherLast, otherRan, fun k => ?_⟩
  have otherViews := separate.run_view othersGood otherRan k
  rw [same k, views k] at otherViews
  exact (Option.some.inj otherViews).symm

end Separate

end OpenAir.Interleave
