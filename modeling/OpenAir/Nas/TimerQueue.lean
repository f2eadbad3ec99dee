import OpenAir.Nas.Timer

/-! The queue is a doubly linked list in the order of the expiry times. -/
namespace OpenAir.NasTimer
open DoublyLinked

variable {κ ρ τ : Type} {db db' : Database κ ρ τ} {l : List Id} {i : Id} {te : Entry κ ρ τ}

/-- In microseconds. -/
def Timeval.time (tv : Timeval) : Int := tv.sec * 1000000 + tv.usec

def Timeval.Normal (tv : Timeval) : Prop := 0 ≤ tv.usec ∧ tv.usec < 1000000

theorem timerCmp_pos_iff {a b : Timeval} (normal : a.Normal) (other : b.Normal) : 0 < timerCmp a b ↔
    b.time < a.time := by
  obtain ⟨_, _⟩ := normal
  obtain ⟨_, _⟩ := other
  unfold timerCmp Timeval.time
  split_ifs <;> omega

theorem timerAdd_now (sec : Int) (now : Clock) :
    (timerAdd ⟨sec, 0⟩ now.timeval).Normal ∧ (timerAdd ⟨sec, 0⟩ now.timeval).time =
    (Started.after sec now).due := by
  have below := now.usec.isLt
  have small : ¬ (0 + (now.usec : Int) > 1000000) := by omega
  unfold timerAdd Clock.timeval Timeval.Normal Timeval.time Started.after
  rw [if_neg small]
  dsimp only
  constructor
  · omega
  · rw [Int.zero_add, Int.add_comm sec]

structure Listed (db : Database κ ρ τ) (l : List Id) : Prop where
  linked : Linked db.next db.prev l
  head_eq : db.head = l.head?
  entries : ∀ i ∈ l, ∃ te, db.entry i = some te ∧ te.tv.Normal
  sorted : l.Pairwise fun i j => ∀ a ∈ db.entry i, ∀ b ∈ db.entry j, a.tv.time ≤ b.tv.time

/-- The links after an element was put between two others, or taken out. -/
structure Relinked (db db' : Database κ ρ τ) (i : Id) (before behind : Option Id)
    (forwards backwards : Option Id) : Prop where
  id_eq : db'.id = db.id
  entry_eq : db'.entry = db.entry
  last : ∀ p, before = some p → db'.next p = forwards
  first : ∀ n, behind = some n → db'.prev n = backwards
  sameNext : ∀ x, x ≠ i → before ≠ some x → db'.next x = db.next x
  samePrev : ∀ x, x ≠ i → behind ≠ some x → db'.prev x = db.prev x
  head_eq : db'.head = if before = none then forwards else db.head

theorem dbInsert_relinks {before behind : Option Id} (entry : db.entry i = some te)
    (found : dbSearch db te.tv (timerDatabaseSize + 1) none db.head = some (before, behind))
    (notBefore : before ≠ some i)
    (notBehind : behind ≠ some i) : ∃ db', (dbInsert db i).map Prod.fst = some db' ∧
      Relinked db db' i before behind (some i) (some i) ∧ db'.next i = behind ∧
      db'.prev i = before := by
  cases before with
  | none =>
    cases behind with
    | none =>
      refine ⟨_, by simp [dbInsert, entry, found]; rfl, ?_⟩
      refine ⟨⟨rfl, rfl, ?_, ?_, fun x other _ => ?_, fun x other _ => ?_, rfl⟩, ?_, ?_⟩
      · exact fun p none => nomatch none
      · exact fun n none => nomatch none
      · simp [other]
      · simp [other]
      · simp
      · simp
    | some n =>
      have other : n ≠ i := fun same => notBehind (congrArg some same)
      refine ⟨_, by simp [dbInsert, entry, found, other.symm]; rfl, ?_⟩
      refine ⟨⟨rfl, rfl, ?_, fun m here => ?_, fun x other _ => ?_, fun x other differs => ?_, rfl⟩,
        ?_, ?_⟩
      · exact fun p none => nomatch none
      · cases here
        simp
      · simp [other]
      · have differs : x ≠ n := fun same => differs (congrArg some same.symm)
        simp [other, differs]
      · simp
      · simp [other.symm]
  | some p =>
    have apart : p ≠ i := fun same => notBefore (congrArg some same)
    cases behind with
    | none =>
      refine ⟨_, by simp [dbInsert, entry, found]; rfl, ?_⟩
      refine ⟨⟨rfl, rfl, fun q here => ?_, ?_, fun x other differs => ?_, fun x other _ => ?_, rfl⟩,
        ?_, ?_⟩
      · cases here
        simp
      · exact fun n none => nomatch none
      · have differs : x ≠ p := fun same => differs (congrArg some same.symm)
        simp [other, differs]
      · simp [other]
      · simp [apart.symm]
      · simp
    | some n =>
      have other : n ≠ i := fun same => notBehind (congrArg some same)
      refine ⟨_, by simp [dbInsert, entry, found, other.symm]; rfl, ?_⟩
      refine ⟨⟨rfl, rfl,
        fun q here =>
        ?_, fun m here => ?_, fun x other differs => ?_, fun x other differs => ?_, rfl⟩, ?_, ?_⟩
      · cases here
        simp
      · cases here
        simp
      · have differs : x ≠ p := fun same => differs (congrArg some same.symm)
        simp [other, differs]
      · have differs : x ≠ n := fun same => differs (congrArg some same.symm)
        simp [other, differs]
      · simp [apart.symm]
      · simp [other.symm]

theorem dbRemove_relinks (notBehind : db.next i ≠ some i) :
    Relinked db (dbRemove db i).1 i (db.prev i) (db.next i) (db.next i) (db.prev i) ∧
      ((dbRemove db i).2 = true ↔ db.prev i = none ∧ db.next i ≠ none) := by
  cases before : db.prev i with
  | none =>
    cases behind : db.next i with
    | none =>
      refine ⟨⟨?_, ?_, ?_, ?_, fun x _ _ => ?_, fun x _ _ => ?_, ?_⟩, ?_⟩
      · simp [dbRemove, before, behind]
      · simp [dbRemove, before, behind]
      · exact fun p none => nomatch none
      · exact fun n none => nomatch none
      · simp [dbRemove, before, behind]
      · simp [dbRemove, before, behind]
      · simp [dbRemove, before, behind]
      · simp [dbRemove, before, behind]
    | some n =>
      have other : i ≠ n := fun same => notBehind (behind.trans (congrArg some same.symm))
      refine ⟨⟨?_, ?_, ?_, fun m here => ?_, fun x _ _ => ?_, fun x _ differs => ?_, ?_⟩, ?_⟩
      · simp [dbRemove, before, behind, other]
      · simp [dbRemove, before, behind, other]
      · exact fun p none => nomatch none
      · cases here
        simp [dbRemove, before, behind, other]
      · simp [dbRemove, before, behind, other]
      · have differs : x ≠ n := fun same => differs (congrArg some same.symm)
        simp [dbRemove, before, behind, other, differs]
      · simp [dbRemove, before, behind, other]
      · simp [dbRemove, before, behind, other]
  | some p =>
    cases behind : db.next i with
    | none =>
      refine ⟨⟨?_, ?_, fun q here => ?_, ?_, fun x _ differs => ?_, fun x _ _ => ?_, ?_⟩, ?_⟩
      · simp [dbRemove, before, behind]
      · simp [dbRemove, before, behind]
      · cases here
        simp [dbRemove, before, behind]
      · exact fun n none => nomatch none
      · have differs : x ≠ p := fun same => differs (congrArg some same.symm)
        simp [dbRemove, before, behind, differs]
      · simp [dbRemove, before, behind]
      · simp [dbRemove, before, behind]
      · simp [dbRemove, before, behind]
    | some n =>
      have other : i ≠ n := fun same => notBehind (behind.trans (congrArg some same.symm))
      refine ⟨⟨?_, ?_,
        fun q here => ?_, fun m here => ?_, fun x _ differs => ?_, fun x _ differs => ?_, ?_⟩, ?_⟩
      · simp [dbRemove, before, behind, other]
      · simp [dbRemove, before, behind, other]
      · cases here
        simp [dbRemove, before, behind, other]
      · cases here
        simp [dbRemove, before, behind, other]
      · have differs : x ≠ p := fun same => differs (congrArg some same.symm)
        simp [dbRemove, before, behind, other, differs]
      · have differs : x ≠ n := fun same => differs (congrArg some same.symm)
        simp [dbRemove, before, behind, other, differs]
      · simp [dbRemove, before, behind, other]
      · simp [dbRemove, before, behind, other]

/-- The loop stops behind the last entry that is not later; it has gone over `front`. -/
theorem dbSearch_splits {tv : Timeval} (front : List Id) {behind : List Id} {fuel : Nat}
    (linked : Linked db.next db.prev (front ++ behind))
    (entries : ∀ i ∈ behind, ∃ te, db.entry i = some te ∧ te.tv.Normal) (normal : tv.Normal)
    (enough : behind.length < fuel) :
    ∃ a b, behind = a ++ b ∧ dbSearch db tv fuel front.getLast? behind.head? =
      some ((front ++ a).getLast?, b.head?) ∧
      (∀ i ∈ a, ∀ te ∈ db.entry i, te.tv.time ≤ tv.time) ∧ ∀ i ∈ b.head?, ∀ te ∈ db.entry i,
        tv.time < te.tv.time := by
  induction fuel generalizing front behind with
  | zero => exact absurd enough (Nat.not_lt_zero _)
  | succ fuel ih =>
    cases behind with
    | nil =>
      refine ⟨[], [], rfl, ?_, fun i member => (nomatch member), fun i none => nomatch none⟩
      rw [List.append_nil]
      rfl
    | cons first behind =>
      obtain ⟨te, entry, teNormal⟩ := entries first List.mem_cons_self
      by_cases later : timerCmp te.tv tv > 0
      · refine ⟨[], first :: behind, rfl, ?_,
          fun i member => (nomatch member), fun i here other found => ?_⟩
        · rw [List.append_nil, List.head?_cons]
          simp [dbSearch, entry, later]
        · cases here
          cases entry.symm.trans found
          exact (timerCmp_pos_iff teNormal normal).mp later
      · have whole : front ++ first :: behind = (front ++ [first]) ++ behind := by
          rw [List.append_assoc, List.singleton_append]
        have after : db.next first = behind.head? := linked.links.1
        obtain ⟨a, b, split, found, earlier, rest⟩ := ih (front ++ [first]) (whole ▸ linked)
          (fun i member => entries i (List.mem_cons_of_mem first member))
            (Nat.lt_of_succ_lt_succ enough)
        refine ⟨first :: a, b, congrArg (first :: ·) split, ?_, fun i member other here => ?_, rest⟩
        · rw [List.getLast?_concat, ← after, List.append_assoc, List.singleton_append] at found
          rw [List.head?_cons]
          simp [dbSearch, entry, later, found]
        · rcases List.mem_cons.mp member with rfl | member
          · cases entry.symm.trans here
            exact not_lt.mp fun less => later ((timerCmp_pos_iff teNormal normal).mpr less)
          · exact earlier i member other here

theorem dbInsert_listed (listed : Listed db l) (fresh : i ∉ l) (entry : db.entry i = some te)
    (normal : te.tv.Normal) :
    ∃ db' a b, (dbInsert db i).map Prod.fst = some db' ∧ l = a ++ b ∧ Listed db' (a ++ i :: b) ∧
      db'.id = db.id ∧
      db'.entry = db.entry := by
  have short : l.length < timerDatabaseSize + 1 := by
    have bound := listed.linked.distinct.length_le_card
    rw [Fintype.card_fin] at bound
    exact Nat.lt_succ_of_le bound
  obtain ⟨a, b, rfl, found, earlier, later⟩ :=
    dbSearch_splits [] listed.linked listed.entries normal short
  rw [List.nil_append, ← listed.head_eq] at found
  have notA : i ∉ a := fun member => fresh (List.mem_append_left b member)
  have notB : i ∉ b := fun member => fresh (List.mem_append_right a member)
  obtain ⟨db', inserted, links, here⟩ :=
    dbInsert_relinks entry found (fun last => notA (List.mem_of_getLast? last))
    fun first => notB (List.mem_of_head? first)
  have inside : ∀ x ∈ a ++ b, x ≠ i := by
    rintro x member rfl
    exact fresh member
  refine ⟨db', a, b, inserted, rfl, ⟨?_, ?_, fun x member => ?_, ?_⟩, links.id_eq, links.entry_eq⟩
  · exact listed.linked.insert fresh here links.last links.first
      (fun x member => links.sameNext x (inside x member))
      fun x member => links.samePrev x (inside x member)
  · rw [links.head_eq]
    cases a with
    | nil => rfl
    | cons first a =>
      rw [if_neg (by simp), listed.head_eq]
      rfl
  · rw [links.entry_eq]
    rcases List.mem_append.mp member with left | right
    · exact listed.entries x (List.mem_append_left b left)
    · rcases List.mem_cons.mp right with rfl | right
      · exact ⟨te, entry, normal⟩
      · exact listed.entries x (List.mem_append_right a right)
  · rw [links.entry_eq]
    obtain ⟨first, second, across⟩ := List.pairwise_append.mp listed.sorted
    have behindI : ∀ y ∈ b, ∀ other ∈ db.entry y, te.tv.time ≤ other.tv.time := by
      cases b with
      | nil => exact fun y member => nomatch member
      | cons head rest =>
        obtain ⟨headTe, headEntry, _⟩ :=
          listed.entries head (List.mem_append_right a List.mem_cons_self)
        have less : te.tv.time < headTe.tv.time := later head rfl headTe headEntry
        intro y member other there
        rcases List.mem_cons.mp member with rfl | member
        · cases headEntry.symm.trans there
          exact less.le
        · exact less.le.trans
            ((List.pairwise_cons.mp second).1 y member headTe headEntry other there)
    refine List.pairwise_append.mpr
      ⟨first, List.pairwise_cons.mpr ⟨fun y member own found => ?_, second⟩,
      fun x left y right => ?_⟩
    · cases entry.symm.trans found
      exact behindI y member
    · rcases List.mem_cons.mp right with rfl | right
      · intro other found own here
        cases entry.symm.trans here
        exact earlier x left other found
      · exact across x left y right

theorem dbRemove_listed {a b : List Id} (listed : Listed db (a ++ i :: b)) :
    Listed (dbRemove db i).1 (a ++ b) ∧ (dbRemove db i).1.id = db.id ∧
    (dbRemove db i).1.entry = db.entry ∧
      ((dbRemove db i).2 = true ↔ db.head = some i ∧ db.next i ≠ none) := by
  obtain ⟨next, prev⟩ := listed.linked.links
  have fresh : i ∉ a ++ b := (List.nodup_cons.mp (List.nodup_middle.mp listed.linked.distinct)).1
  have notBehind : db.next i ≠ some i := by
    rw [next]
    exact fun first => fresh (List.mem_append_right a (List.mem_of_head? first))
  have inside : ∀ x ∈ a ++ b, x ≠ i := by
    rintro x member rfl
    exact fresh member
  have sub : (a ++ b).Sublist (a ++ i :: b) := (List.sublist_cons_self i b).append_left a
  obtain ⟨links, restart⟩ := dbRemove_relinks notBehind
  have front : db.prev i = none ↔ db.head = some i := by
    rw [prev, listed.head_eq]
    cases a with
    | nil => exact iff_of_true rfl rfl
    | cons first a =>
      refine iff_of_false (by simp) fun same => fresh ?_
      exact List.mem_append_left b (Option.some.inj same ▸ List.mem_cons_self)
  rw [front] at restart
  refine ⟨⟨?_, ?_, fun x member => ?_, ?_⟩, links.id_eq, links.entry_eq, restart⟩
  · refine listed.linked.remove (fun x last => ?_) (fun x first => ?_) (fun x member notLast => ?_)
      fun x member notFirst => ?_
    · exact (links.last x (prev.trans last)).trans next
    · exact (links.first x (next.trans first)).trans prev
    · exact links.sameNext x (inside x member) fun last => notLast (prev.symm.trans last)
    · exact links.samePrev x (inside x member) fun first => notFirst (next.symm.trans first)
  · rw [links.head_eq, prev, next, listed.head_eq]
    cases a <;> simp
  · rw [links.entry_eq]
    exact listed.entries x (sub.subset member)
  · rw [links.entry_eq]
    exact listed.sorted.sublist sub

end OpenAir.NasTimer
