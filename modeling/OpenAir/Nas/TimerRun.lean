import OpenAir.Nas.TimerSteps

/-! Runs of the calls of the timer queue. -/
namespace OpenAir.NasTimer
open DoublyLinked Run

variable {κ ρ τ : Type} {s s' : State κ ρ τ}

/-- What holds in every run: the queue is in order, and the timers that are started are in it. -/
structure Queued (s : State κ ρ τ) : Prop where
  stored : ∃ l, Stored s.db l
  started : ∀ i a, s.started i = some a → ∃ te, s.db.entry i = some te ∧ te.tv.time = a.due ∧
    te.itv = ⟨a.sec, 0⟩

theorem Queued.queue (queued : Queued s) : ∃ l, Linked s.db.next s.db.prev l ∧ s.db.head = l.head? ∧
    (∀ i, i ∈ l ↔ s.db.id i = some i) ∧
      l.Pairwise fun i j => ∀ a ∈ s.started i, ∀ b ∈ s.started j, a.due ≤ b.due := by
  obtain ⟨l, stored⟩ := queued.stored
  refine ⟨l, stored.listed.linked, stored.listed.head_eq, fun i => (stored.held i).member, ?_⟩
  refine stored.listed.sorted.imp fun {i j} sorted a hereA b hereB => ?_
  obtain ⟨teA, entryA, dueA, _⟩ := queued.started i a hereA
  obtain ⟨teB, entryB, dueB, _⟩ := queued.started j b hereB
  rw [← dueA, ← dueB]
  exact sorted teA entryA teB entryB

theorem Queued.own (queued : Queued s) (i : Id) : s.db.id i = none ∨ s.db.id i = some i := by
  obtain ⟨_, stored⟩ := queued.stored
  exact (stored.held i).own

theorem Queued.entry_iff (queued : Queued s) (i : Id) : (s.db.entry i).isSome ↔
    s.db.id i = some i := by
  obtain ⟨_, stored⟩ := queued.stored
  exact (stored.held i).entry

/-- A timer that is not in the queue is not started. -/
theorem Queued.idle (queued : Queued s) {i : Id} (idle : s.db.id i = none) :
    s.started i = none := by
  cases here : s.started i with
  | none => rfl
  | some a =>
    obtain ⟨te, entry, _⟩ := queued.started i a here
    have active := (queued.entry_iff i).mp (Option.isSome_iff_exists.mpr ⟨te, entry⟩)
    rw [idle] at active
    exact nomatch active

variable [DecidableEq τ]

theorem start_step {sec : Int} {cb : κ} {args : ρ} {now : Clock} {malloced : τ} {setup : Option τ}
    (queued : Queued s)
    (valid : (Call.start sec cb args now malloced setup).Valid s) :
    ∃ s', step s (.start sec cb args now malloced setup) = some s' ∧ Queued s' ∧
      (Faithful s → (Faithful s' ↔ (Call.start sec cb args now malloced setup).InOrder s)) := by
  by_cases idle : sec = 0 ∨ ∀ i, s.db.id i ≠ none
  · refine ⟨{ s with ran := none }, by
      simp [step, nasTimerStart_idle idle], ⟨queued.stored, queued.started⟩, fun faithful => ?_⟩
    exact iff_of_true ⟨faithful.queue, faithful.active, faithful.armed, faithful.distinct, nofun⟩
      (idle.imp_right Or.inl)
  · obtain ⟨nonzero, free⟩ := not_or.mp idle
    obtain ⟨l, stored⟩ := queued.stored
    obtain ⟨i, db', l', te, empty, started, kept, ids, entries, time, itv, own⟩ :=
      nasTimerStart_spec s.armed cb args now malloced setup stored nonzero free
    have notStarted : s.started i = none := queued.idle empty
    have noEntry : s.db.entry i = none := by
      refine Option.not_isSome_iff_eq_none.mp fun some => ?_
      have active := (queued.entry_iff i).mp some
      rw [empty] at active
      exact nomatch active
    have sameEntry : ∀ j, j ≠ i → db'.entry j = s.db.entry j := fun j other => by
      rw [entries, Function.update_of_ne other]
    have stays : ∀ j a, s.started j = some a → ∃ te, db'.entry j = some te ∧ te.tv.time = a.due ∧
        te.itv = ⟨a.sec, 0⟩ := by
      intro j a here
      have other : j ≠ i := by
        rintro rfl
        rw [notStarted] at here
        exact nomatch here
      rw [sameEntry j other]
      exact queued.started j a here
    cases setup with
    | none =>
      refine ⟨⟨db', s.armed, s.started, none⟩, by
        simp [step, started], ⟨⟨l', kept⟩, stays⟩, fun faithful => iff_of_false ?_ ?_⟩
      · intro faithful
        have active := (faithful.active i).mp (by rw [ids, Function.update_self])
        rw [notStarted] at active
        exact nomatch active
      · rintro (null | full | up)
        · exact nonzero null
        · exact free full
        · exact up rfl
    | some timerId =>
      have fresh : timerId ∉ s.armed := valid timerId rfl
      have here : db'.entry i = some te := by rw [entries, Function.update_self]
      have queued' :
          Queued ⟨db', insert timerId s.armed,
          Function.update s.started i (some (.after sec now)), none⟩ := by
        refine ⟨⟨l', kept⟩, fun j a found => ?_⟩
        by_cases same : j = i
        · subst same
          simp only [Function.update_self] at found
          cases found
          exact ⟨te, here, time, itv⟩
        · simp only [Function.update_of_ne same] at found
          exact stays j a found
      refine ⟨_, by
        simp [step, started], queued', fun faithful => iff_of_true ?_ (Or.inr (Or.inr nofun))⟩
      refine ⟨queued'.queue,
        fun j => ?_, fun j other found => ?_, fun j k a b foundA foundB equal => ?_, nofun⟩
      · by_cases same : j = i
        · subst same
          simp [ids]
        · simp only [ids, Function.update_of_ne same]
          exact faithful.active j
      · by_cases same : j = i
        · subst same
          cases here.symm.trans found
          rw [own timerId rfl]
          exact Finset.mem_insert_self timerId s.armed
        · exact Finset.mem_insert_of_mem
            (faithful.armed j other ((sameEntry j same).symm.trans found))
      · have others : ∀ k other, k ≠ i → db'.entry k = some other → other.timerId ≠ te.timerId := by
          intro k other apart found equal
          have armed := faithful.armed k other ((sameEntry k apart).symm.trans found)
          rw [equal, own timerId rfl] at armed
          exact fresh armed
        by_cases sameJ : j = i
        · by_cases sameK : k = i
          · exact sameJ.trans sameK.symm
          · subst sameJ
            cases here.symm.trans foundA
            exact absurd equal.symm (others k b sameK foundB)
        · by_cases sameK : k = i
          · subst sameK
            cases here.symm.trans foundB
            exact absurd equal (others j a sameJ foundA)
          · exact faithful.distinct j k a b ((sameEntry j sameJ).symm.trans foundA)
              ((sameEntry k sameK).symm.trans foundB) equal

/-- A removal leaves every timer but its own armed, unless it is that of the first of several. -/
theorem stop_step {id : Option Id} (queued : Queued s) :
    ∃ s', step s (.stop id) = some s' ∧ Queued s' ∧
    (Faithful s → (Faithful s' ↔ (Call.stop id : Call κ ρ τ).InOrder s)) := by
  by_cases idle : ∀ i ∈ id, s.db.id i = none
  · obtain ⟨returned, stopped⟩ := nasTimerStop_idle s.armed idle
    cases id with
    | none =>
      refine ⟨{ s with ran := none }, by
        simp [step, stopped], ⟨queued.stored, queued.started⟩, fun faithful => ?_⟩
      exact iff_of_true
        ⟨faithful.queue, faithful.active, faithful.armed, faithful.distinct, nofun⟩ trivial
    | some i =>
      have same : Function.update s.started i none = s.started := by
        rw [← queued.idle (idle i rfl), Function.update_eq_self]
      refine ⟨{ s with ran := none }, by
        simp [step, stopped, same], ⟨queued.stored, queued.started⟩, fun faithful => ?_⟩
      refine iff_of_true ⟨faithful.queue, faithful.active, faithful.armed, faithful.distinct, nofun⟩
        fun active => ?_
      exact absurd (idle i rfl) active
  · obtain ⟨i, rfl, active⟩ : ∃ i, id = some i ∧ s.db.id i = some i := by
      cases id with
      | none => exact absurd (fun i none => nomatch none) idle
      | some i =>
        refine ⟨i, rfl, (queued.own i).resolve_left fun none => idle fun j here => ?_⟩
        cases here
        exact none
    obtain ⟨l, stored⟩ := queued.stored
    obtain ⟨db', l', between, te, stopped, kept, ids, entries, entry, alone, several⟩ :=
      nasTimerStop_spec s.armed stored active
    have sameEntry : ∀ j, j ≠ i → db'.entry j = s.db.entry j := fun j other => by
      rw [entries, Function.update_of_ne other]
    have others : ∀ j other, db'.entry j = some other → j ≠ i ∧ s.db.entry j = some other := by
      intro j other found
      have apart : j ≠ i := by
        rintro rfl
        rw [entries, Function.update_self] at found
        exact nomatch found
      exact ⟨apart, (sameEntry j apart).symm.trans found⟩
    have queued' :
        Queued ⟨db', between.erase te.timerId, Function.update s.started i none, none⟩ := by
      refine ⟨⟨l', kept⟩, fun j a found => ?_⟩
      by_cases same : j = i
      · subst same
        simp only [Function.update_self] at found
        exact nomatch found
      · simp only [Function.update_of_ne same] at found
        rw [sameEntry j same]
        exact queued.started j a found
    refine ⟨_, by
      simp [step, stopped], queued',
        fun faithful => ⟨fun faithful' here head => ?_, fun inOrder => ?_⟩⟩
    · by_contra next
      obtain ⟨j, other, apart, found, rfl⟩ := several ⟨head, next⟩
      have armed := faithful'.armed j other ((sameEntry j apart).trans found)
      exact Finset.notMem_erase _ _ (Finset.mem_of_mem_erase armed)
    · obtain rfl : between = s.armed :=
        alone fun first => first.2 (inOrder (by rw [active]; nofun) first.1)
      refine ⟨queued'.queue,
        fun j => ?_, fun j other found => ?_, fun j k a b foundA foundB => ?_, nofun⟩
      · by_cases same : j = i
        · subst same
          simp [ids]
        · simp only [ids, Function.update_of_ne same]
          exact faithful.active j
      · obtain ⟨apart, before⟩ := others j other found
        refine Finset.mem_erase.mpr ⟨fun equal => apart ?_, faithful.armed j other before⟩
        exact faithful.distinct j i other te before entry equal
      · exact faithful.distinct j k a b (others j a foundA).2 (others k b foundB).2

theorem restart_step {id : Option Id} {now : Clock} (queued : Queued s) :
    ∃ s', step s (.restart id now) = some s' ∧ Queued s' ∧
    (Faithful s → (Faithful s' ↔ (Call.restart id now : Call κ ρ τ).InOrder s)) := by
  by_cases idle : ∀ i ∈ id, s.db.id i = none
  · have restarted := nasTimerRestart_idle s.armed now idle
    cases id with
    | none =>
      refine ⟨{ s with ran := none }, by
        simp [step, restarted], ⟨queued.stored, queued.started⟩, fun faithful => ?_⟩
      exact iff_of_true
        ⟨faithful.queue, faithful.active, faithful.armed, faithful.distinct, nofun⟩ trivial
    | some i =>
      have same : Function.update s.started i
          ((s.started i).map fun timer => .after timer.sec now) = s.started := by
        rw [queued.idle (idle i rfl), Option.map_none, ← queued.idle (idle i rfl),
          Function.update_eq_self]
      refine ⟨{ s with ran := none }, by
        simp [step, restarted, same], ⟨queued.stored, queued.started⟩, fun faithful => ?_⟩
      refine iff_of_true ⟨faithful.queue, faithful.active, faithful.armed, faithful.distinct, nofun⟩
        fun active => ?_
      exact absurd (idle i rfl) active
  · obtain ⟨i, rfl, active⟩ : ∃ i, id = some i ∧ s.db.id i = some i := by
      cases id with
      | none => exact absurd (fun i none => nomatch none) idle
      | some i =>
        refine ⟨i, rfl, (queued.own i).resolve_left fun none => idle fun j here => ?_⟩
        cases here
        exact none
    obtain ⟨l, stored⟩ := queued.stored
    obtain ⟨db', l', armed', te, te', restarted, kept, ids, entries, entry, time, itv, own,
        alone, several⟩ :=
      nasTimerRestart_spec s.armed now stored active
    have here : db'.entry i = some te' := by rw [entries, Function.update_self]
    have sameEntry : ∀ j, j ≠ i → db'.entry j = s.db.entry j := fun j other => by
      rw [entries, Function.update_of_ne other]
    have others : ∀ j other, db'.entry j = some other → ∃ before, s.db.entry j = some before ∧
        before.timerId = other.timerId := by
      intro j other found
      by_cases same : j = i
      · subst same
        cases here.symm.trans found
        exact ⟨te, entry, own.symm⟩
      · exact ⟨other, (sameEntry j same).symm.trans found, rfl⟩
    have queued' :
        Queued ⟨db', armed',
        Function.update s.started i ((s.started i).map fun timer => .after timer.sec now),
        none⟩ := by
      refine ⟨⟨l', kept⟩, fun j a found => ?_⟩
      by_cases same : j = i
      · subst same
        simp only [Function.update_self] at found
        obtain ⟨before, started, rfl⟩ := Option.map_eq_some_iff.mp found
        obtain ⟨_, sameEntry, _, interval⟩ := queued.started j before started
        cases entry.symm.trans sameEntry
        rw [interval] at time
        exact ⟨te', here, time, itv.trans interval⟩
      · simp only [Function.update_of_ne same] at found
        rw [sameEntry j same]
        exact queued.started j a found
    refine ⟨_, by
      simp [step, restarted], queued',
        fun faithful => ⟨fun faithful' here head => ?_, fun inOrder => ?_⟩⟩
    · by_contra next
      obtain ⟨j, other, apart, found, rfl⟩ := several ⟨head, next⟩
      exact Finset.notMem_erase _ _ (faithful'.armed j other ((sameEntry j apart).trans found))
    · obtain rfl : armed' = s.armed :=
        alone fun first => first.2 (inOrder (by rw [active]; nofun) first.1)
      refine ⟨queued'.queue,
        fun j => ?_, fun j other found => ?_, fun j k a b foundA foundB equal => ?_, nofun⟩
      · rw [ids, faithful.active j]
        by_cases same : j = i
        · subst same
          simp
        · simp [same]
      · obtain ⟨before, found, same⟩ := others j other found
        exact same ▸ faithful.armed j before found
      · obtain ⟨a', foundA, sameA⟩ := others j a foundA
        obtain ⟨b', foundB, sameB⟩ := others k b foundB
        exact faithful.distinct j k a' b' foundA foundB (sameA.trans (equal.trans sameB.symm))

theorem expiry_step {timerId : τ} (queued : Queued s)
    (valid : (Call.expiry timerId : Call κ ρ τ).Valid s) :
    ∃ s', step s (.expiry timerId) = some s' ∧ Queued s' ∧
      (Faithful s → (Faithful s' ↔ (Call.expiry timerId : Call κ ρ τ).InOrder s)) := by
  obtain ⟨_, i, te, entry, _⟩ := valid
  obtain ⟨l, stored⟩ := queued.stored
  have member : i ∈ l := by
    rw [(stored.held i).member, ← queued.entry_iff i, entry]
    rfl
  obtain ⟨first, head⟩ : ∃ first, s.db.head = some first := by
    rw [stored.listed.head_eq]
    cases l with
    | nil => exact nomatch member
    | cons first l => exact ⟨first, rfl⟩
  have inside : first ∈ l := List.mem_of_head? (stored.listed.head_eq.symm.trans head)
  obtain ⟨run, found, _⟩ := stored.listed.entries first inside
  refine ⟨{ s with ran := some (timerId, run) }, by
    simp [step, nasTimerHandleSignalExpiry, head, found],
    ⟨queued.stored, queued.started⟩,
      fun faithful => ⟨fun faithful' other here => ?_, fun inOrder => ?_⟩⟩
  · rw [head] at here
    cases found.symm.trans here
    exact (faithful'.ran timerId run rfl).1
  · refine ⟨faithful.queue, faithful.active, faithful.armed, faithful.distinct,
      fun timer other same => ?_⟩
    cases same
    exact ⟨inOrder run (by rw [head]; exact found), first, found⟩

theorem step_faithful {call : Call κ ρ τ} (queued : Queued s) (valid : call.Valid s) :
    ∃ s', step s call = some s' ∧ Queued s' ∧ (Faithful s → (Faithful s' ↔ call.InOrder s)) := by
  cases call with
  | start sec cb args now malloced setup => exact start_step queued valid
  | stop id => exact stop_step queued
  | restart id now => exact restart_step queued
  | expiry timerId => exact expiry_step queued valid

/-- The state after `nas_timer_init`; timers of others may be armed. -/
def State.initial (armed : Finset τ) : State κ ρ τ := ⟨dbInit, armed, fun _ => none, none⟩

omit [DecidableEq τ] in
theorem initial_queued (armed : Finset τ) : Queued (State.initial armed : State κ ρ τ) where
  stored := by
    refine ⟨[], ⟨linked_nil, rfl, fun i member => (nomatch member), List.Pairwise.nil⟩, fun i => ?_⟩
    exact ⟨iff_of_false List.not_mem_nil nofun, Or.inl rfl, iff_of_false nofun nofun, nofun⟩
  started := nofun

/-- The queue is faithful in every state of a run exactly when every timer that is started is set
up, the first of several is neither stopped nor started again, and only the first one expires. -/
theorem faithful_iff_inOrder (armed : Finset τ) (calls : List (Call κ ρ τ))
    (valid : Meets step (fun s call => call.Valid s) (State.initial armed) calls) :
    (∀ before after, calls = before ++ after → ∃ s, run step (State.initial armed) before =
        some s ∧ Faithful s) ↔
      Meets step (fun s call => call.InOrder s) (State.initial armed) calls := by
  have queued := initial_queued armed (κ := κ) (ρ := ρ)
  have start : Faithful (State.initial armed : State κ ρ τ) :=
    ⟨queued.queue, fun i => iff_of_false nofun nofun, nofun, nofun, nofun⟩
  refine runs_iff_meets (fun s call queued valid => ?_)
    (fun s call s' queued faithful valid stepped => ?_) queued start valid
  · obtain ⟨s', stepped, queued', _⟩ := step_faithful queued valid
    exact ⟨s', stepped, queued'⟩
  · obtain ⟨other, same, _, exactly⟩ := step_faithful queued valid
    cases stepped.symm.trans same
    exact exactly faithful

def secondStopped : List (Call Unit Unit Nat) :=
  [.start 5 () () ⟨0, 0⟩ 0 (some 1), .start 9 () () ⟨0, 0⟩ 0 (some 2),
    .stop (some ⟨1, by decide⟩), .expiry 1]

theorem secondStopped_faithful :
    Meets step (fun s call => call.Valid s) (State.initial ∅) secondStopped ∧
      ∀ before after, secondStopped = before ++ after →
        ∃ s : State Unit Unit Nat, run step (State.initial ∅) before = some s ∧ Faithful s := by
  have valid : Meets step (fun s call => call.Valid s) (State.initial ∅) secondStopped := by
    refine ⟨fun timerId _ => Finset.notMem_empty timerId,
      fun first started => ⟨?_, fun second both =>
        ⟨trivial, fun third stopped => ⟨?_, fun _ _ => trivial⟩⟩⟩⟩
    · cases started
      rintro _ ⟨⟩
      decide
    · cases started
      cases both
      cases stopped
      exact ⟨by decide, ⟨0, by decide⟩, _, rfl, rfl⟩
  refine ⟨valid, (faithful_iff_inOrder ∅ secondStopped valid).mpr ?_⟩
  refine ⟨.inr (.inr (Option.some_ne_none _)),
    fun first started => ⟨.inr (.inr (Option.some_ne_none _)), fun second both =>
      ⟨?_, fun third stopped => ⟨?_, fun _ _ => trivial⟩⟩⟩⟩
  · cases started
    cases both
    intro _ head
    cases head
  · cases started
    cases both
    cases stopped
    intro te entry
    cases entry
    rfl

/-- Stopping the first of two timers disarms the other one. -/
theorem not_always_faithful : ¬ ∀ (calls : List (Call Unit Unit Nat)) (s : State Unit Unit Nat),
    Meets step (fun s call => call.Valid s) (State.initial ∅) calls →
    run step (State.initial ∅) calls = some s → Faithful s := by
  intro all
  have fresh : ∀ next, step (State.initial ∅ : State Unit Unit Nat)
    (.start 5 () () ⟨0, 0⟩ 0 (some 1)) = some next →
      (Call.start 9 () () ⟨0, 0⟩ 0 (some 2)).Valid next := by
    rintro _ ⟨⟩ _ ⟨⟩
    decide
  have faithful :=
    all [.start 5 () () ⟨0, 0⟩ 0 (some 1), .start 9 () () ⟨0, 0⟩ 0 (some 2),
    .stop (some ⟨0, by decide⟩)] _
    ⟨fun timerId _ => Finset.notMem_empty timerId,
      fun next stepped => ⟨fresh next stepped, fun _ _ => ⟨trivial, fun _ _ => trivial⟩⟩⟩ rfl
  exact absurd (faithful.armed ⟨1, by decide⟩ _ rfl) (by decide)

end OpenAir.NasTimer
