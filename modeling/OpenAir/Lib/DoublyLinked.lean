import Mathlib.Data.List.Nodup

/-! Doubly linked lists: sequences that are read along the links of their elements in both
directions. The links of the elements of a list may be changed one at a time; what counts is where
they lead in the end, so an operation is described by its links and not by the order of its
assignments. -/
namespace OpenAir.DoublyLinked

variable {α : Type}

/-- Every element leads to the one behind it, the last one to `after`. -/
def Path (link : α → Option α) : List α → Option α → Prop
  | [], _ => True
  | a :: rest, after => link a = rest.head?.or after ∧ Path link rest after

/-- A sequence that is read along both links. -/
structure Linked (next prev : α → Option α) (l : List α) : Prop where
  distinct : l.Nodup
  forwards : Path next l none
  backwards : Path prev l.reverse none

/-- A list that is read from its head and from its tail. -/
structure Reads (next prev : α → Option α) (head tail : Option α) (l : List α) :
    Prop extends Linked next prev l where
  head_eq : head = l.head?
  tail_eq : tail = l.getLast?

section Paths
variable {link link' : α → Option α} {l r : List α} {after after' : Option α}

theorem path_append : Path link (l ++ r) after ↔ Path link l (r.head?.or after) ∧
    Path link r after := by
  induction l with
  | nil => exact (and_iff_right trivial).symm
  | cons a l ih =>
    rw [List.cons_append, Path, Path, ih, List.head?_append, Option.or_assoc, and_assoc]

theorem Path.congr (path : Path link l after) (same : ∀ a ∈ l, link' a = link a) :
    Path link' l after := by
  induction l with
  | nil => trivial
  | cons a l ih =>
    refine ⟨?_, ih path.2 fun b member => same b (List.mem_cons_of_mem _ member)⟩
    rw [same a List.mem_cons_self]
    exact path.1

theorem Path.retarget (path : Path link l after) (distinct : l.Nodup)
    (last : ∀ a, l.getLast? = some a → link' a = after')
    (same : ∀ a ∈ l, l.getLast? ≠ some a → link' a = link a) : Path link' l after' := by
  induction l with
  | nil => trivial
  | cons a l ih =>
    obtain ⟨fresh, distinct⟩ := List.nodup_cons.mp distinct
    cases l with
    | nil => exact ⟨last a rfl, trivial⟩
    | cons b l =>
      have inner : (a :: b :: l).getLast? = (b :: l).getLast? := List.getLast?_cons_cons
      refine ⟨?_, ih path.2 distinct (fun c here => last c (inner.trans here))
        fun c member other => ?_⟩
      · have notLast : (a :: b :: l).getLast? ≠ some a := fun here =>
          fresh (List.mem_of_getLast? (inner.symm.trans here))
        rw [same a List.mem_cons_self notLast]
        exact path.1
      · exact same c (List.mem_cons_of_mem _ member) fun here => other (inner.symm.trans here)

end Paths

section Lists
variable {next next' prev prev' : α → Option α} {l r : List α} {x : α}

theorem linked_nil : Linked next prev [] := ⟨List.nodup_nil, trivial, trivial⟩

theorem Linked.congr (linked : Linked next prev l) (sameNext : ∀ a ∈ l, next' a = next a)
    (samePrev : ∀ a ∈ l, prev' a = prev a) : Linked next' prev' l where
  distinct := linked.distinct
  forwards := linked.forwards.congr sameNext
  backwards := linked.backwards.congr fun a member => samePrev a (List.mem_reverse.mp member)

/-- What an element leads to, from where it stands. -/
theorem Linked.links (linked : Linked next prev (l ++ x :: r)) : next x = r.head? ∧
    prev x = l.getLast? := by
  constructor
  · have behind := (path_append.mp linked.forwards).2.1
    rwa [Option.or_none] at behind
  · have backwards := linked.backwards
    rw [List.reverse_append, List.reverse_cons, List.append_assoc, List.singleton_append]
      at backwards
    have before := (path_append.mp backwards).2.1
    rwa [Option.or_none, List.head?_reverse] at before

/-- Two parts become one list, wherever their ends led before. -/
theorem linked_join {after before : Option α} (distinct : (l ++ r).Nodup)
    (first : Path next l after) (second : Path next r none)
    (third : Path prev r.reverse before) (fourth : Path prev l.reverse none)
    (last : ∀ a, l.getLast? = some a → next' a = r.head?)
    (behind : ∀ b, r.head? = some b → prev' b = l.getLast?)
    (sameNext : ∀ a ∈ l ++ r, l.getLast? ≠ some a → next' a = next a)
    (samePrev : ∀ a ∈ l ++ r, r.head? ≠ some a → prev' a = prev a) :
    Linked next' prev' (l ++ r) where
  distinct := distinct
  forwards := by
    have apart := List.nodup_append.mp distinct
    refine path_append.mpr ⟨?_, ?_⟩
    · rw [Option.or_none]
      exact first.retarget apart.1 last
        fun a member other => sameNext a (List.mem_append_left _ member) other
    · refine second.congr fun a member => sameNext a (List.mem_append_right _ member) fun last => ?_
      exact apart.2.2 a (List.mem_of_getLast? last) a member rfl
  backwards := by
    have apart := List.nodup_append.mp distinct
    rw [List.reverse_append]
    refine path_append.mpr ⟨?_, ?_⟩
    · rw [Option.or_none, List.head?_reverse]
      refine third.retarget (List.nodup_reverse.mpr apart.2.1) (fun a last => ?_)
        fun a member other => ?_
      · rw [List.getLast?_reverse] at last
        exact behind a last
      · rw [List.getLast?_reverse] at other
        exact samePrev a (List.mem_append_right _ (List.mem_reverse.mp member)) other
    · refine fourth.congr fun a member => ?_
      refine samePrev a (List.mem_append_left _ (List.mem_reverse.mp member)) fun first => ?_
      exact apart.2.2 a (List.mem_reverse.mp member) a (List.mem_of_head? first) rfl

theorem Linked.append (linked : Linked next prev l) (more : Linked next prev r)
    (apart : ∀ a ∈ l, a ∉ r)
    (last : ∀ a, l.getLast? = some a → next' a = r.head?)
    (behind : ∀ b, r.head? = some b → prev' b = l.getLast?)
    (sameNext : ∀ a ∈ l ++ r, l.getLast? ≠ some a → next' a = next a)
    (samePrev : ∀ a ∈ l ++ r, r.head? ≠ some a → prev' a = prev a) :
    Linked next' prev' (l ++ r) := by
  have distinct := List.nodup_append.mpr
    ⟨linked.distinct, more.distinct, fun a first b second same => apart a first (same ▸ second)⟩
  exact linked_join distinct linked.forwards more.forwards more.backwards linked.backwards last
    behind sameNext samePrev

/-- An element is taken out of a list; where it leads then does not matter. -/
theorem Linked.remove (linked : Linked next prev (l ++ x :: r))
    (last : ∀ a, l.getLast? = some a → next' a = r.head?)
    (behind : ∀ b, r.head? = some b → prev' b = l.getLast?)
    (sameNext : ∀ a ∈ l ++ r, l.getLast? ≠ some a → next' a = next a)
    (samePrev : ∀ a ∈ l ++ r, r.head? ≠ some a → prev' a = prev a) :
    Linked next' prev' (l ++ r) := by
  have distinct := (List.nodup_cons.mp (List.nodup_middle.mp linked.distinct)).2
  obtain ⟨first, _, second⟩ := path_append.mp linked.forwards
  have backwards := linked.backwards
  rw [List.reverse_append, List.reverse_cons, List.append_assoc, List.singleton_append] at backwards
  obtain ⟨third, _, fourth⟩ := path_append.mp backwards
  exact linked_join distinct first second third fourth last behind sameNext samePrev

theorem Linked.insert (linked : Linked next prev (l ++ r)) (fresh : x ∉ l ++ r)
    (here : next' x = r.head? ∧ prev' x = l.getLast?)
    (last : ∀ a, l.getLast? = some a → next' a = some x)
    (behind : ∀ b, r.head? = some b → prev' b = some x)
    (sameNext : ∀ a ∈ l ++ r, l.getLast? ≠ some a → next' a = next a)
    (samePrev : ∀ a ∈ l ++ r, r.head? ≠ some a → prev' a = prev a) :
    Linked next' prev' (l ++ x :: r) where
  distinct := List.nodup_middle.mpr (List.nodup_cons.mpr ⟨fresh, linked.distinct⟩)
  forwards := by
    have apart := List.nodup_append.mp linked.distinct
    obtain ⟨first, second⟩ := path_append.mp linked.forwards
    refine path_append.mpr ⟨?_, ?_, ?_⟩
    · exact first.retarget apart.1 last
        fun a member other => sameNext a (List.mem_append_left _ member) other
    · rw [here.1, Option.or_none]
    · refine second.congr fun a member => sameNext a (List.mem_append_right _ member) fun last => ?_
      exact apart.2.2 a (List.mem_of_getLast? last) a member rfl
  backwards := by
    have apart := List.nodup_append.mp linked.distinct
    have backwards := linked.backwards
    rw [List.reverse_append] at backwards
    obtain ⟨first, second⟩ := path_append.mp backwards
    rw [List.reverse_append, List.reverse_cons, List.append_assoc, List.singleton_append]
    refine path_append.mpr ⟨?_, ?_, ?_⟩
    · refine first.retarget (List.nodup_reverse.mpr apart.2.1) (fun a last => ?_)
        fun a member other => ?_
      · rw [List.getLast?_reverse] at last
        exact behind a last
      · rw [List.getLast?_reverse] at other
        exact samePrev a (List.mem_append_right _ (List.mem_reverse.mp member)) other
    · rw [here.2, Option.or_none, List.head?_reverse]
    · refine second.congr fun a member => ?_
      refine samePrev a (List.mem_append_left _ (List.mem_reverse.mp member)) fun first => ?_
      exact apart.2.2 a (List.mem_reverse.mp member) a (List.mem_of_head? first) rfl

end Lists

end OpenAir.DoublyLinked
