import OpenAir.Nas.TimerQueue

/-! What the calls do to the queue and to the timers that are armed. -/
namespace OpenAir.NasTimer
open DoublyLinked

variable {κ ρ τ : Type} {db db' : Database κ ρ τ} {l l' : List Id} {i j : Id} {te : Entry κ ρ τ}
    {armed : Finset τ}

/-- A list looks at the links, and at the expiry times of its own entries. -/
theorem Listed.congr (listed : Listed db l) (next : db'.next = db.next) (prev : db'.prev = db.prev)
    (head : db'.head = db.head)
    (entries : ∀ i ∈ l, ∀ te ∈ db.entry i, ∃ te', db'.entry i = some te' ∧ te'.tv = te.tv) :
    Listed db' l where
  linked := by
    rw [next, prev]
    exact listed.linked
  head_eq := head.trans listed.head_eq
  entries i member := by
    obtain ⟨te, entry, normal⟩ := listed.entries i member
    obtain ⟨te', entry', same⟩ := entries i member te entry
    exact ⟨te', entry', same ▸ normal⟩
  sorted := by
    refine List.Pairwise.imp_of_mem
      (fun {i j} first second sorted a hereA b hereB => ?_) listed.sorted
    obtain ⟨teA, entryA, _⟩ := listed.entries i first
    obtain ⟨teB, entryB, _⟩ := listed.entries j second
    obtain ⟨a', entryA', sameA⟩ := entries i first teA entryA
    obtain ⟨b', entryB', sameB⟩ := entries j second teB entryB
    cases entryA'.symm.trans hereA
    cases entryB'.symm.trans hereB
    rw [sameA, sameB]
    exact sorted teA entryA teB entryB

/-- A slot is in the list when it is active, and holds an entry then. -/
structure Held (db : Database κ ρ τ) (l : List Id) (i : Id) : Prop where
  member : i ∈ l ↔ db.id i = some i
  own : db.id i = none ∨ db.id i = some i
  entry : (db.entry i).isSome ↔ db.id i = some i
  interval : ∀ te ∈ db.entry i, te.itv.usec = 0

theorem Held.congr (held : Held db l i) (member : i ∈ l' ↔ i ∈ l) (id : db'.id i = db.id i)
    (entry : db'.entry i = db.entry i) :
    Held db' l' i where
  member := by rw [member, id, held.member]
  own := by
    rw [id]
    exact held.own
  entry := by rw [entry, id, held.entry]
  interval := by
    rw [entry]
    exact held.interval

structure Stored (db : Database κ ρ τ) (l : List Id) : Prop where
  listed : Listed db l
  held : ∀ i, Held db l i

theorem dbGetId_eq_none_iff : dbGetId db = none ↔ ∀ i, db.id i ≠ none := by
  simp only [dbGetId, Option.map_eq_none_iff, Option.or_eq_none_iff, List.find?_eq_none,
    List.mem_finRange, forall_const]
  constructor
  · rintro ⟨first, second⟩ i free
    rcases Nat.lt_or_ge i.val db.timerId with below | above
    · exact second i (by simp [below, free])
    · exact first i (by simp [above, free])
  · intro full
    constructor
    · intro i
      simp [full i]
    · intro i
      simp [full i]

theorem dbGetId_free (found : dbGetId db = some (i, db')) : db.id i = none ∧
    db' = { db with timerId := i.val + 1 } := by
  obtain ⟨j, searched, same⟩ := Option.map_eq_some_iff.mp found
  cases same
  refine ⟨?_, rfl⟩
  have free : (db.id i).isNone = true := by
    rcases Option.or_eq_some_iff.mp searched with first | ⟨_, second⟩
    · have passed := List.find?_some first
      exact (Bool.and_eq_true_iff.mp passed).2
    · have passed := List.find?_some second
      exact (Bool.and_eq_true_iff.mp passed).2
  exact Option.isNone_iff_eq_none.mp free

/-- An entry whose time is still the interval joins the list. -/
theorem dbInsertEntry_stored (te : Entry κ ρ τ) (now : Clock) {sec : Int} (listed : Listed db l)
    (fresh : i ∉ l)
    (held : ∀ j, j ≠ i → Held db l j) (itv : te.itv = ⟨sec, 0⟩) (tv : te.tv = ⟨sec, 0⟩) :
    ∃ db' l' te', dbInsertEntry db i te now = some db' ∧ Stored db' l' ∧
      db'.id = Function.update db.id i (some i) ∧
      db'.entry = Function.update db.entry i (some te') ∧
      te'.tv.time = (Started.after sec now).due ∧ te'.itv = ⟨sec, 0⟩ ∧
      te'.timerId = te.timerId := by
  obtain ⟨normal, time⟩ := timerAdd_now sec now
  have ready : Listed { db with
      id := Function.update db.id i (some i)
      entry := Function.update db.entry i
          (some { te with tv := timerAdd te.tv now.timeval }) } l := by
    refine listed.congr rfl rfl rfl fun j member other here => ⟨other, ?_, rfl⟩
    have apart : j ≠ i := by
      rintro rfl
      exact fresh member
    simp only [Function.update_of_ne apart]
    exact here
  rw [← tv] at normal time
  obtain ⟨db', a, b, inserted, rfl, joined, ids, entries⟩ :=
    dbInsert_listed ready fresh (Function.update_self ..) normal
  have ids : db'.id = Function.update db.id i (some i) := ids
  have entries :
    db'.entry = Function.update db.entry i (some { te with tv := timerAdd te.tv now.timeval }) :=
    entries
  refine ⟨db', _, _, inserted, ⟨joined, fun j => ?_⟩, ids, entries, time, itv, rfl⟩
  by_cases same : j = i
  · subst same
    constructor
    · refine iff_of_true (List.mem_append_right a List.mem_cons_self) ?_
      rw [ids, Function.update_self]
    · rw [ids, Function.update_self]
      exact Or.inr rfl
    · rw [ids, entries, Function.update_self, Function.update_self]
      exact iff_of_true rfl rfl
    · rw [entries, Function.update_self]
      intro other here
      cases here
      rw [itv]
  · refine (held j same).congr ?_ ?_ ?_
    · simp [same]
    · rw [ids, Function.update_of_ne same]
    · rw [entries, Function.update_of_ne same]

variable [DecidableEq τ]

/-- The timer of another entry goes when the first of several is removed. -/
theorem dbRemoveEntry_spec (armed : Finset τ) (stored : Stored db l) (active : db.id i = some i) :
    ∃ db' armed' te l', dbRemoveEntry db armed i = some (db', armed', te) ∧ Listed db' l' ∧ i ∉ l' ∧
      (∀ j, j ≠ i → Held db' l' j) ∧ db'.id = db.id ∧ db'.entry = db.entry ∧ db.entry i = some te ∧
      (¬ (db.head = some i ∧ db.next i ≠ none) → armed' = armed) ∧
      (db.head = some i ∧ db.next i ≠ none → ∃ j other, j ≠ i ∧ db.entry j = some other ∧
        armed' = armed.erase other.timerId) := by
  have member : i ∈ l := (stored.held i).member.mpr active
  obtain ⟨te, entry⟩ := Option.isSome_iff_exists.mp ((stored.held i).entry.mpr active)
  obtain ⟨a, b, rfl⟩ := List.append_of_mem member
  have fresh : i ∉ a ++ b :=
    (List.nodup_cons.mp (List.nodup_middle.mp stored.listed.linked.distinct)).1
  obtain ⟨listed, ids, entries, restart⟩ := dbRemove_listed stored.listed
  have held : ∀ j, j ≠ i → Held (dbRemove db i).1 (a ++ b) j := fun j other =>
    (stored.held j).congr (by simp [other]) (congrFun ids j) (congrFun entries j)
  have still : (dbRemove db i).1.entry i = some te := (congrFun entries i).trans entry
  by_cases first : db.head = some i ∧ db.next i ≠ none
  · obtain ⟨j, head⟩ : ∃ j, (dbRemove db i).1.head = some j := by
      have after : db.next i = b.head? := stored.listed.linked.links.1
      cases b with
      | nil => exact absurd after first.2
      | cons j b =>
        rw [listed.head_eq]
        cases a <;> exact ⟨_, rfl⟩
    have inside : j ∈ a ++ b := List.mem_of_head? (listed.head_eq.symm.trans head)
    have apart : j ≠ i := by
      rintro rfl
      exact fresh inside
    obtain ⟨other, found, _⟩ := listed.entries j inside
    refine ⟨_, armed.erase other.timerId, te, a ++ b, ?_, listed, fresh, held, ids, entries, entry,
      fun none => absurd first none,
      fun _ => ⟨j, other, apart, (congrFun entries j).symm.trans found, rfl⟩⟩
    simp [dbRemoveEntry, active, restart.mpr first, head, found, still]
  · have none : (dbRemove db i).2 = false :=
      Bool.eq_false_iff.mpr fun same => first (restart.mp same)
    refine ⟨_, armed, te, a ++ b, ?_, listed, fresh, held, ids, entries, entry,
      fun _ => rfl, fun several => absurd several first⟩
    simp [dbRemoveEntry, active, none, still]

theorem nasTimerStart_idle {sec : Int} {cb : κ} {args : ρ} {now : Clock} {malloced : τ}
    {setup : Option τ}
    (idle : sec = 0 ∨ ∀ i, db.id i ≠ none) : nasTimerStart db armed sec cb args now malloced setup =
    some (db, armed, none) := by
  rcases idle with null | full
  · rw [nasTimerStart, if_pos null]
  · rw [nasTimerStart, dbGetId_eq_none_iff.mpr full]
    exact ite_self _

/-- The entry stays in the queue whether its timer was set up or not. -/
theorem nasTimerStart_spec (armed : Finset τ) {sec : Int} (cb : κ) (args : ρ) (now : Clock)
    (malloced : τ) (setup : Option τ) (stored : Stored db l)
    (nonzero : sec ≠ 0) (free : ¬ ∀ i, db.id i ≠ none) :
    ∃ i db' l' te, db.id i = none ∧ nasTimerStart db armed sec cb args now malloced setup =
        some (db', (setup.elim armed fun timerId => insert timerId armed), setup.map fun _ => i) ∧
      Stored db' l' ∧ db'.id = Function.update db.id i (some i) ∧
      db'.entry = Function.update db.entry i (some te) ∧
      te.tv.time = (Started.after sec now).due ∧ te.itv = ⟨sec, 0⟩ ∧
      ∀ timerId, setup = some timerId → te.timerId = timerId := by
  obtain ⟨⟨i, taken⟩, found⟩ :=
    Option.ne_none_iff_exists'.mp fun none => free (dbGetId_eq_none_iff.mp none)
  obtain ⟨idle, same⟩ := dbGetId_free found
  have fresh : i ∉ l := by
    rw [(stored.held i).member, idle]
    exact nofun
  have listed : Listed taken l := by
    rw [same]
    exact stored.listed.congr rfl rfl rfl fun j member te here => ⟨te, here, rfl⟩
  have held : ∀ j, j ≠ i → Held taken l j := fun j _ => by
    rw [same]
    exact (stored.held j).congr Iff.rfl rfl rfl
  obtain ⟨db', l', te, inserted, kept, ids, entries, time, itv, own⟩ :=
    dbInsertEntry_stored (dbCreateEntry sec cb args malloced) now listed fresh held rfl rfl
  have sameId : taken.id = db.id := by rw [same]
  have sameEntry : taken.entry = db.entry := by rw [same]
  rw [sameId] at ids
  rw [sameEntry] at entries
  cases setup with
  | none =>
    refine ⟨i, db', l', te, idle, ?_, kept, ids, entries, time, itv, nofun⟩
    simp [nasTimerStart, nonzero, found, inserted]
  | some timerId =>
    have here : db'.entry i = some te := by rw [entries, Function.update_self]
    refine ⟨i, { db' with entry := Function.update db'.entry i (some { te with timerId }) }, l',
      { te with timerId }, idle, ?_,
      ⟨kept.listed.congr rfl rfl rfl fun j member other there => ?_, fun j => ?_⟩, ids,
        ?_, time, itv, ?_⟩
    · simp [nasTimerStart, nonzero, found, inserted, here]
    · by_cases own : j = i
      · subst own
        cases here.symm.trans there
        exact ⟨_, Function.update_self .., rfl⟩
      · exact ⟨other, (Function.update_of_ne own ..).trans there, rfl⟩
    · by_cases own : j = i
      · subst own
        have before := kept.held j
        refine ⟨before.member, before.own, ?_, fun other found => ?_⟩
        · have active : db'.id j = some j := by rw [ids, Function.update_self]
          exact iff_of_true (by simp) active
        · simp only [Function.update_self] at found
          cases found
          exact before.interval te here
      · exact (kept.held j).congr Iff.rfl rfl (Function.update_of_ne own ..)
    · simp [entries]
    · intro other same
      exact Option.some.inj same

theorem nasTimerStop_idle (armed : Finset τ) {id : Option Id} (idle : ∀ i ∈ id, db.id i = none) :
    ∃ returned, nasTimerStop db armed id = some (db, armed, returned) := by
  cases id with
  | none => exact ⟨none, rfl⟩
  | some i => exact ⟨some i, by simp [nasTimerStop, dbIsActive, idle i rfl]⟩

theorem nasTimerStop_spec (armed : Finset τ) (stored : Stored db l) (active : db.id i = some i) :
    ∃ db' l' between te, nasTimerStop db armed (some i) =
      some (db', between.erase te.timerId, none) ∧ Stored db' l' ∧
      db'.id = Function.update db.id i none ∧ db'.entry = Function.update db.entry i none ∧
      db.entry i = some te ∧
      (¬ (db.head = some i ∧ db.next i ≠ none) → between = armed) ∧
      (db.head = some i ∧ db.next i ≠ none → ∃ j other, j ≠ i ∧ db.entry j = some other ∧
        between = armed.erase other.timerId) := by
  obtain ⟨db', between, te, l', removed, listed, fresh, held, ids, entries, entry,
      alone, several⟩ :=
    dbRemoveEntry_spec armed stored active
  refine ⟨{ db' with
      id := Function.update db'.id i none
      entry := Function.update db'.entry i none }, l', between, te, ?_,
    ⟨listed.congr rfl rfl rfl fun j member other here => ⟨other, ?_, rfl⟩, fun j => ?_⟩, ?_, ?_,
      entry, alone, several⟩
  · simp [nasTimerStop, dbIsActive, active, removed, dbDeleteEntry, ids]
  · have apart : j ≠ i := by
      rintro rfl
      exact fresh member
    exact (Function.update_of_ne apart ..).trans here
  · by_cases same : j = i
    · subst same
      constructor
      · simp [fresh]
      · simp
      · simp
      · simp
    · exact (held j same).congr Iff.rfl (Function.update_of_ne same ..)
        (Function.update_of_ne same ..)
  · simp [ids]
  · simp [entries]

theorem nasTimerRestart_idle (armed : Finset τ) {id : Option Id} (now : Clock)
    (idle : ∀ i ∈ id, db.id i = none) :
    nasTimerRestart db armed id now = some (db, armed, none) := by
  cases id with
  | none => rfl
  | some i => simp [nasTimerRestart, dbIsActive, idle i rfl]

theorem nasTimerRestart_spec (armed : Finset τ) (now : Clock) (stored : Stored db l)
    (active : db.id i = some i) :
    ∃ db' l' armed' te te', nasTimerRestart db armed (some i) now = some (db', armed', some i) ∧
      Stored db' l' ∧
      db'.id = db.id ∧ db'.entry = Function.update db.entry i (some te') ∧ db.entry i = some te ∧
      te'.tv.time = (Started.after te.itv.sec now).due ∧ te'.itv = te.itv ∧
      te'.timerId = te.timerId ∧
      (¬ (db.head = some i ∧ db.next i ≠ none) → armed' = armed) ∧
      (db.head = some i ∧ db.next i ≠ none → ∃ j other, j ≠ i ∧ db.entry j = some other ∧
        armed' = armed.erase other.timerId) := by
  obtain ⟨between, armed', te, l', removed, listed, fresh, held, ids, entries, entry,
      alone, several⟩ :=
    dbRemoveEntry_spec armed stored active
  have itv : te.itv = ⟨te.itv.sec, 0⟩ := by rw [← (stored.held i).interval te entry]
  obtain ⟨db', l'', te', inserted, kept, ids', entries', time, itv', own⟩ :=
    dbInsertEntry_stored { te with tv := te.itv } now listed fresh held itv itv
  refine ⟨db', l'', armed', te, te', ?_, kept, ?_, ?_, entry, time, itv'.trans itv.symm, own,
    alone, several⟩
  · simp [nasTimerRestart, dbIsActive, active, removed, inserted]
  · rw [ids', ids, ← active, Function.update_eq_self]
  · rw [entries', entries]

end OpenAir.NasTimer
