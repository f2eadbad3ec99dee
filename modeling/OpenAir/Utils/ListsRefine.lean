import OpenAir.Utils.Lists

/-! The operations on the lists keep the sequences the lists stand for. -/
namespace OpenAir.Lists
open DoublyLinked

variable {ε ι : Type} {m m' : Memory ε ι} {s : ι → List ε} {l : ι} {e : ε}

namespace Memory
variable {value : Option ε} {header : List2 ε} {n : Int}

section Links
variable [DecidableEq ε]

@[simp] theorem next_setNext : (m.setNext e value).next = Function.update m.next e value := rfl
@[simp] theorem previous_setNext : (m.setNext e value).previous = m.previous := rfl
@[simp] theorem list_setNext : (m.setNext e value).list = m.list := rfl
@[simp] theorem next_setPrevious : (m.setPrevious e value).next = m.next := rfl
@[simp] theorem previous_setPrevious : (m.setPrevious e value).previous =
    Function.update m.previous e value := rfl
@[simp] theorem list_setPrevious : (m.setPrevious e value).list = m.list := rfl
end Links

section Headers
variable [DecidableEq ι]

@[simp] theorem next_setList : (m.setList l header).next = m.next := rfl
@[simp] theorem previous_setList : (m.setList l header).previous = m.previous := rfl
@[simp] theorem list_setList : (m.setList l header).list = Function.update m.list l header := rfl
@[simp] theorem next_count : (m.count l n).next = m.next := rfl
@[simp] theorem previous_count : (m.count l n).previous = m.previous := rfl
@[simp] theorem list_count :
    (m.count l n).list =
    Function.update m.list l { m.list l with nbElements := (m.list l).nbElements + n } := rfl

end Headers

end Memory

theorem Refines.own (refines : Refines m s) {a : ε} (member : a ∈ s l) {k : ι}
    (other : k ≠ l) : a ∉ s k :=
  fun also => other (refines.apart k l a also member)

section Changes
variable [DecidableEq ι]

/-- One list changes: its elements were in it before, or in none, and nothing else is touched. -/
theorem Refines.change {xs : List ε} (refines : Refines m s)
    (linked : Linked m'.next m'.previous xs)
    (head : (m'.list l).head = xs.head?) (tail : (m'.list l).tail = xs.getLast?)
    (others : ∀ k, k ≠ l → (m'.list k).head = (m.list k).head ∧ (m'.list k).tail = (m.list k).tail)
    (untouched : ∀ k, k ≠ l → ∀ a ∈ s k, m'.next a = m.next a ∧ m'.previous a = m.previous a)
    (own : ∀ a ∈ xs, ∀ k, k ≠ l → a ∉ s k) : Refines m' (Function.update s l xs) where
  reads k := by
    by_cases same : k = l
    · subst same
      rw [Function.update_self]
      exact ⟨linked, head, tail⟩
    · have before := refines.reads k
      rw [Function.update_of_ne same]
      exact ⟨before.toLinked.congr (fun a member => (untouched k same a member).1)
        fun a member => (untouched k same a member).2,
        (others k same).1.trans before.head_eq, (others k same).2.trans before.tail_eq⟩
  apart k j a first second := by
    by_cases sameK : k = l
    · by_cases sameJ : j = l
      · exact sameK.trans sameJ.symm
      · subst sameK
        rw [Function.update_self] at first
        rw [Function.update_of_ne sameJ] at second
        exact absurd second (own a first j sameJ)
    · rw [Function.update_of_ne sameK] at first
      by_cases sameJ : j = l
      · subst sameJ
        rw [Function.update_self] at second
        exact absurd first (own a second k sameK)
      · rw [Function.update_of_ne sameJ] at second
        exact refines.apart k j a first second

theorem list2Init_refines (refines : Refines m s) :
    Refines (list2Init l m) (Function.update s l []) := by
  refine refines.change linked_nil ?_ ?_ (fun k other => ?_) (fun k other a member => ⟨rfl, rfl⟩)
    fun a member => nomatch member
  · simp [list2Init]
  · simp [list2Init]
  · simp [list2Init, other]

theorem Refines.put (refines : Refines m s) (before : List ε) {behind : List ε}
    (content : s l = before ++ behind) (fresh : ∀ k, e ∉ s k)
    (here : m'.next e = behind.head? ∧ m'.previous e = before.getLast?)
    (last : ∀ a, before.getLast? = some a → m'.next a = some e)
    (first : ∀ b, behind.head? = some b → m'.previous b = some e)
    (sameNext : ∀ a, a ≠ e → before.getLast? ≠ some a → m'.next a = m.next a)
    (samePrevious : ∀ a, a ≠ e → behind.head? ≠ some a → m'.previous a = m.previous a)
    (head : (m'.list l).head = (before ++ e :: behind).head?)
    (tail : (m'.list l).tail = (before ++ e :: behind).getLast?)
    (others : ∀ k, k ≠ l → (m'.list k).head = (m.list k).head ∧
      (m'.list k).tail = (m.list k).tail) :
    Refines m' (Function.update s l (before ++ e :: behind)) := by
  have ne : ∀ k, ∀ a ∈ s k, a ≠ e := by
    rintro k a member rfl
    exact fresh k member
  have inside : ∀ a ∈ before ++ behind, a ≠ e := fun a member => ne l a (content ▸ member)
  have linked : Linked m.next m.previous (before ++ behind) := content ▸ (refines.reads l).toLinked
  refine refines.change ?_ head tail others (fun k other a member => ⟨?_, ?_⟩)
    fun a member k other => ?_
  · refine linked.insert (fun member => inside e member rfl) here last first (fun a member => ?_)
      fun a member => ?_
    · exact sameNext a (inside a member)
    · exact samePrevious a (inside a member)
  · refine sameNext a (ne k a member) fun atEnd => refines.own (l := l) ?_ other member
    exact content ▸ List.mem_append_left behind (List.mem_of_getLast? atEnd)
  · refine samePrevious a (ne k a member) fun atFront => refines.own (l := l) ?_ other member
    exact content ▸ List.mem_append_right before (List.mem_of_head? atFront)
  · by_cases same : a = e
    · rw [same]
      exact fresh k
    · refine refines.own (l := l) ?_ other
      rw [content]
      rcases List.mem_append.mp member with left | right
      · exact List.mem_append_left behind left
      · exact List.mem_append_right before (List.mem_of_ne_of_mem same right)

/-- An element is taken out of a list; its own links do not matter then. -/
theorem Refines.taken (refines : Refines m s) (before : List ε) {behind : List ε}
    (content : s l = before ++ e :: behind)
    (last : ∀ a, before.getLast? = some a → m'.next a = behind.head?)
    (first : ∀ b, behind.head? = some b → m'.previous b = before.getLast?)
    (sameNext : ∀ a, a ≠ e → before.getLast? ≠ some a → m'.next a = m.next a)
    (samePrevious : ∀ a, a ≠ e → behind.head? ≠ some a → m'.previous a = m.previous a)
    (head : (m'.list l).head = (before ++ behind).head?)
    (tail : (m'.list l).tail = (before ++ behind).getLast?)
    (others : ∀ k, k ≠ l → (m'.list k).head = (m.list k).head ∧
      (m'.list k).tail = (m.list k).tail) :
    Refines m' (Function.update s l (before ++ behind)) := by
  have linked : Linked m.next m.previous (before ++ e :: behind) :=
    content ▸ (refines.reads l).toLinked
  have fresh : e ∉ before ++ behind := (List.nodup_cons.mp (List.nodup_middle.mp linked.distinct)).1
  have inside : ∀ a ∈ before ++ behind, a ≠ e := by
    rintro a member rfl
    exact fresh member
  have within : ∀ a ∈ before ++ behind, a ∈ s l := by
    intro a member
    rw [content]
    rcases List.mem_append.mp member with left | right
    · exact List.mem_append_left _ left
    · exact List.mem_append_right _ (List.mem_cons_of_mem e right)
  have here : e ∈ s l := content ▸ List.mem_append_right before List.mem_cons_self
  have ne : ∀ k, k ≠ l → ∀ a ∈ s k, a ≠ e := by
    rintro k other a member rfl
    exact refines.own here other member
  refine refines.change ?_ head tail others (fun k other a member => ⟨?_, ?_⟩)
    fun a member k other => ?_
  · refine linked.remove last first (fun a member => ?_) fun a member => ?_
    · exact sameNext a (inside a member)
    · exact samePrevious a (inside a member)
  · refine sameNext a (ne k other a member) fun atEnd => refines.own ?_ other member
    exact within a (List.mem_append_left behind (List.mem_of_getLast? atEnd))
  · refine samePrevious a (ne k other a member) fun atFront => refines.own ?_ other member
    exact within a (List.mem_append_right before (List.mem_of_head? atFront))
  · exact refines.own (within a member) other

end Changes

section Operations
variable [DecidableEq ε] [DecidableEq ι]

theorem list2AddHead_refines (refines : Refines m s) (fresh : ∀ k, e ∉ s k) :
    Refines (list2AddHead (some e) l m) (Function.update s l (e :: s l)) := by
  have reads := refines.reads l
  have head : (m.list l).head = (s l).head? := reads.head_eq
  have tail : (m.list l).tail = (s l).getLast? := reads.tail_eq
  cases content : s l with
  | nil =>
    rw [content] at head
    refine refines.put [] content fresh ⟨?_, ?_⟩ (fun a none => nomatch none)
      (fun b none => nomatch none)
      (fun a other _ => ?_) (fun a other _ => ?_) ?_ ?_ fun k other => ?_
    · simp [list2AddHead, head]
    · simp [list2AddHead, head]
    · simp [list2AddHead, head, other]
    · simp [list2AddHead, head, other]
    · simp [list2AddHead, head]
    · simp [list2AddHead, head]
    · simp [list2AddHead, head, other]
  | cons first rest =>
    rw [content] at head tail
    have inside : first ≠ e := by
      rintro rfl
      exact fresh l (content ▸ List.mem_cons_self)
    refine refines.put [] content fresh ⟨?_, ?_⟩ (fun a none => nomatch none) (fun b here => ?_)
      (fun a other _ => ?_) (fun a other differs => ?_) ?_ ?_ fun k other => ?_
    · simp [list2AddHead, head]
    · simp [list2AddHead, head]
    · cases here
      simp [list2AddHead, head, inside]
    · simp [list2AddHead, head, other]
    · have differs : a ≠ first := fun same => differs (congrArg some same.symm)
      simp [list2AddHead, head, other, differs]
    · simp [list2AddHead, head]
    · simp [list2AddHead, head, tail]
    · simp [list2AddHead, head, other]

theorem list2AddTail_refines (refines : Refines m s) (fresh : ∀ k, e ∉ s k) :
    Refines (list2AddTail (some e) l m) (Function.update s l (s l ++ [e])) := by
  have reads := refines.reads l
  have head : (m.list l).head = (s l).head? := reads.head_eq
  have tail : (m.list l).tail = (s l).getLast? := reads.tail_eq
  rcases List.eq_nil_or_concat' (s l) with content | ⟨before, last, content⟩
  · rw [content] at head tail
    rw [content]
    refine refines.put [] content fresh ⟨?_, ?_⟩ (fun a none => nomatch none)
      (fun b none => nomatch none)
      (fun a other _ => ?_) (fun a other _ => ?_) ?_ ?_ fun k other => ?_
    · simp [list2AddTail, tail]
    · simp [list2AddTail, tail]
    · simp [list2AddTail, tail, other]
    · simp [list2AddTail, tail, other]
    · simp [list2AddTail, tail]
    · simp [list2AddTail, tail]
    · simp [list2AddTail, tail, other]
  · have inside : last ≠ e := by
      rintro rfl
      exact fresh l (content ▸ List.mem_append_right before List.mem_cons_self)
    have atEnd : (m.list l).tail = some last := by rw [tail, content, List.getLast?_concat]
    refine refines.put _ (List.append_nil (s l)).symm fresh ⟨?_, ?_⟩ (fun a here => ?_)
      (fun b none => nomatch none)
      (fun a other differs => ?_) (fun a other _ => ?_) ?_ ?_ fun k other => ?_
    · simp [list2AddTail, atEnd, inside.symm]
    · simp [list2AddTail, atEnd, ← tail]
    · cases (tail.symm.trans atEnd).symm.trans here |> Option.some.inj
      simp [list2AddTail, atEnd]
    · have differs : a ≠ last := fun same => differs (same ▸ tail.symm.trans atEnd)
      simp [list2AddTail, atEnd, other, differs]
    · simp [list2AddTail, atEnd, other]
    · have front : (s l ++ [e]).head? = (s l).head? := by
        rw [content, List.append_assoc, List.head?_append, List.head?_append]; simp
      simp [list2AddTail, atEnd, head, front]
    · simp [list2AddTail, atEnd]
    · simp [list2AddTail, atEnd, other]

theorem list2RemoveHead_refines (refines : Refines m s) :
    Refines (list2RemoveHead l m).1 (Function.update s l (s l).tail) ∧
    (list2RemoveHead l m).2 = (s l).head? := by
  have reads := refines.reads l
  have head : (m.list l).head = (s l).head? := reads.head_eq
  have tail : (m.list l).tail = (s l).getLast? := reads.tail_eq
  cases content : s l with
  | nil =>
    rw [content] at head
    have same : Function.update s l [] = s := by rw [← content, Function.update_eq_self]
    simp only [list2RemoveHead, head, List.head?_nil, List.tail_nil, same]
    exact ⟨refines, trivial⟩
  | cons first rest =>
    rw [content] at reads head tail
    have behind : m.next first = rest.head? := (reads.toLinked.links (l := [])).1
    rw [List.head?_cons] at head
    have returned : (list2RemoveHead l m).2 = some first := by
      cases after : m.next first <;> simp [list2RemoveHead, head, after]
    refine ⟨refines.taken [] content (fun a none => nomatch none) (fun b here => ?_)
      (fun a other _ => ?_)
      (fun a _ differs => ?_) ?_ ?_ fun k other => ?_, returned⟩
    · rw [← behind] at here
      simp [list2RemoveHead, head, here]
    · cases after : m.next first <;> simp [list2RemoveHead, head, after, other]
    · rw [← behind] at differs
      cases after : m.next first with
      | none => simp [list2RemoveHead, head, after]
      | some second =>
        have other : a ≠ second := fun same => differs (same ▸ after)
        simp [list2RemoveHead, head, after, other]
    · rw [List.nil_append, ← behind]
      cases after : m.next first <;> simp [list2RemoveHead, head, after]
    · cases rest with
      | nil => simp [list2RemoveHead, head, behind]
      | cons second rest => simp [list2RemoveHead, head, behind, tail]
    · cases after : m.next first <;> simp [list2RemoveHead, head, after, other]

theorem list2RemoveTail_refines (refines : Refines m s) :
    ∃ m', list2RemoveTail l m = some (m', (s l).getLast?) ∧
      Refines m' (Function.update s l (s l).dropLast) := by
  have reads := refines.reads l
  have head : (m.list l).head = (s l).head? := reads.head_eq
  have tail : (m.list l).tail = (s l).getLast? := reads.tail_eq
  rcases List.eq_nil_or_concat' (s l) with content | ⟨before, last, content⟩
  · rw [content] at tail
    have same : Function.update s l (s l).dropLast = s := by
      rw [content, List.dropLast_nil, ← content, Function.update_eq_self]
    refine ⟨m, ?_, same.symm ▸ refines⟩
    simp [list2RemoveTail, tail, content]
  · have links := (content ▸ reads.toLinked : Linked m.next m.previous (before ++ last :: [])).links
    rw [content, List.getLast?_concat] at tail
    rw [content, List.getLast?_concat, List.dropLast_concat]
    rcases List.eq_nil_or_concat' before with rfl | ⟨front, second, rfl⟩
    · have front : (m.list l).head = some last := by rw [head, content]; rfl
      refine ⟨_, by simp [list2RemoveTail, tail, front]; rfl, ?_⟩
      refine refines.taken [] content (fun a none => nomatch none) (fun b none => nomatch none)
        (fun a other _ => ?_)
        (fun a other _ => ?_) ?_ ?_ fun k other => ?_
      · simp
      · simp [other]
      · simp
      · simp
      · simp [other]
    · have previous : m.previous last = some second := links.2.trans List.getLast?_concat
      have notHead : (m.list l).head ≠ some last := by
        have distinct := content ▸ reads.distinct
        rw [head, content, List.head?_append]
        intro same
        have member : last ∈ front ++ [second] := List.mem_of_head? (by simpa using same)
        exact (List.nodup_append.mp distinct).2.2 last member last List.mem_cons_self rfl
      refine ⟨_, by simp [list2RemoveTail, tail, notHead, previous]; rfl, ?_⟩
      have whole : front ++ [second] = front ++ [second] ++ [] := (List.append_nil _).symm
      rw [whole]
      refine refines.taken _ content (fun a here => ?_) (fun b none => nomatch none)
        (fun a _ differs => ?_)
        (fun a other _ => ?_) ?_ ?_ fun k other => ?_
      · rw [List.getLast?_concat] at here
        cases here
        simp
      · have other : a ≠ second := fun same => differs (same ▸ List.getLast?_concat)
        simp [other]
      · simp [other]
      · simp [head, content]
      · simp
      · simp [other]

theorem list2RemoveElement_refines (refines : Refines m s) (member : e ∈ s l) :
    ∃ m', list2RemoveElement (some e) l m = some (m', some e) ∧
      Refines m' (Function.update s l ((s l).erase e)) := by
  obtain ⟨before, behind, content⟩ := List.append_of_mem member
  have reads := refines.reads l
  have head : (m.list l).head = (s l).head? := reads.head_eq
  have tail : (m.list l).tail = (s l).getLast? := reads.tail_eq
  have distinct : (before ++ e :: behind).Nodup := content ▸ reads.distinct
  have fresh : e ∉ before ++ behind := (List.nodup_cons.mp (List.nodup_middle.mp distinct)).1
  have links := (content ▸ reads.toLinked : Linked m.next m.previous (before ++ e :: behind)).links
  have erased : (s l).erase e = before ++ behind := by
    rw [content,
      List.erase_append_right _ fun here => fresh (List.mem_append_left _ here),
      List.erase_cons_head]
  rw [erased]
  cases before with
  | nil =>
    have front : (m.list l).head = some e := by rw [head, content]; rfl
    cases behind with
    | nil =>
      have last : m.next e = none := links.1
      refine ⟨_, by simp [list2RemoveElement, front, last]; rfl, ?_⟩
      refine refines.taken [] content (fun a none => nomatch none) (fun b none => nomatch none)
        (fun a _ _ => ?_)
        (fun a _ _ => ?_) ?_ ?_ fun k other => ?_
      · simp
      · simp
      · simp
      · simp
      · simp [other]
    | cons second rest =>
      have after : m.next e = some second := links.1
      refine ⟨_, by simp [list2RemoveElement, front, after]; rfl, ?_⟩
      refine refines.taken [] content (fun a none => nomatch none) (fun b here => ?_)
        (fun a other _ => ?_)
        (fun a _ differs => ?_) ?_ ?_ fun k other => ?_
      · cases here
        simp
      · simp [other]
      · have other : a ≠ second := fun same => differs (congrArg some same.symm)
        simp [other]
      · simp
      · simp [tail, content]
      · simp [other]
  | cons first before =>
    have notHead : (m.list l).head ≠ some e := by
      rw [head, content]
      intro same
      exact fresh (List.mem_append_left _ (Option.some.inj same ▸ List.mem_cons_self))
    obtain ⟨front, second, ends⟩ : ∃ front second, first :: before = front ++ [second] :=
      (List.eq_nil_or_concat' (first :: before)).resolve_left (List.cons_ne_nil _ _)
    have previous : m.previous e = some second := links.2.trans (ends ▸ List.getLast?_concat)
    rw [ends] at content fresh ⊢
    have notSecond : second ≠ e := by
      rintro rfl
      exact fresh (List.mem_append_left _ (List.mem_append_right _ List.mem_cons_self))
    cases behind with
    | nil =>
      have last : (m.list l).tail = some e := by rw [tail, content, List.getLast?_concat]
      refine ⟨_, by simp [list2RemoveElement, notHead, last, previous]; rfl, ?_⟩
      refine refines.taken _ content (fun a here => ?_) (fun b none => nomatch none)
        (fun a _ differs => ?_)
        (fun a other _ => ?_) ?_ ?_ fun k other => ?_
      · rw [List.getLast?_concat] at here
        cases here
        simp
      · have other : a ≠ second := fun same => differs (same ▸ List.getLast?_concat)
        simp [other]
      · simp [other]
      · simp [head, content]
      · simp
      · simp [other]
    | cons third rest =>
      have after : m.next e = some third := links.1
      have notThird : third ≠ e := by
        rintro rfl
        exact fresh (List.mem_append_right _ List.mem_cons_self)
      have notLast : (m.list l).tail ≠ some e := by
        rw [tail, content, List.getLast?_append_of_ne_nil _ (List.cons_ne_nil e _),
          List.getLast?_cons_cons]
        exact fun same => fresh (List.mem_append_right _ (List.mem_of_getLast? same))
      refine ⟨_, by
        simp [list2RemoveElement, notHead, notLast, previous, after, notSecond.symm]; rfl, ?_⟩
      refine refines.taken _ content (fun a here => ?_) (fun b here => ?_)
        (fun a other differs => ?_)
        (fun a other differs => ?_) ?_ ?_ fun k other => ?_
      · rw [List.getLast?_concat] at here
        cases here
        simp [notSecond]
      · cases here
        simp [notThird]
      · have differs : a ≠ second := fun same => differs (same ▸ List.getLast?_concat)
        simp [other, differs]
      · have differs : a ≠ third := fun same => differs (congrArg some same.symm)
        simp [other, differs]
      · simp [head, content]
      · simp [tail, content]
      · simp [other]

theorem list2AddList_refines {sub : ι} (refines : Refines m s) (apart : sub ≠ l) :
    Refines (list2AddList (some sub) l m)
      (Function.update (Function.update s l (s l ++ s sub)) sub []) := by
  have subHead : (m.list sub).head = (s sub).head? := (refines.reads sub).head_eq
  have subTail : (m.list sub).tail = (s sub).getLast? := (refines.reads sub).tail_eq
  have head : (m.list l).head = (s l).head? := (refines.reads l).head_eq
  have tail : (m.list l).tail = (s l).getLast? := (refines.reads l).tail_eq
  have emptied : Refines (m.setList sub { m.list sub with head := none, tail := none })
      (Function.update s sub []) := by
    refine refines.change linked_nil ?_ ?_ (fun k other => ?_) (fun k other a member => ⟨rfl, rfl⟩)
      fun a member => nomatch member
    · simp
    · simp
    · simp [other]
  have own : ∀ a ∈ s l ++ s sub, ∀ k, k ≠ l → a ∉ Function.update s sub [] k := by
    intro a member k other here
    by_cases same : k = sub
    · rw [same, Function.update_self] at here
      exact nomatch here
    · rw [Function.update_of_ne same] at here
      rcases List.mem_append.mp member with first | second
      · exact refines.own first other here
      · exact refines.own second same here
  have apart' : ∀ a ∈ s l, a ∉ s sub := fun a member => refines.own member apart
  rw [Function.update_comm apart.symm]
  cases content : s sub with
  | nil =>
    rw [content] at subHead subTail own
    have linked : Linked m.next m.previous (s l ++ []) :=
      (List.append_nil (s l)).symm ▸ (refines.reads l).toLinked
    refine emptied.change ?_ ?_ ?_ (fun k other => ?_) (fun k other a member => ?_) own
    · simpa [list2AddList, subHead] using linked
    · simp [list2AddList, subHead, head]
    · simp [list2AddList, subHead, tail]
    · by_cases same : k = sub
      · subst same
        simp [list2AddList, subHead, subTail, other]
      · simp [list2AddList, subHead, other, same]
    · simp [list2AddList, subHead]
  | cons first rest =>
    have moved : Linked m.next m.previous (first :: rest) := content ▸ (refines.reads sub).toLinked
    rw [content] at own apart' subHead subTail
    rw [List.head?_cons] at subHead
    refine emptied.change ?_ ?_ ?_ (fun k other => ?_) (fun k other a member => ?_) own
    · refine (refines.reads l).toLinked.append moved apart' (fun a last => ?_) (fun b here => ?_)
        (fun a _ differs => ?_)
        fun a _ differs => ?_
      · simp [list2AddList, subHead, tail, last]
      · cases here
        cases last : (s l).getLast? with
        | none =>
          have alone : m.previous first = none := (moved.links (l := [])).2
          simp [list2AddList, subHead, tail, last, alone]
        | some a => simp [list2AddList, subHead, tail, last]
      · cases last : (s l).getLast? with
        | none => simp [list2AddList, subHead, tail, last]
        | some b =>
          have differs : a ≠ b := fun same => differs (same ▸ last)
          simp [list2AddList, subHead, tail, last, differs]
      · have differs : a ≠ first := fun same => differs (congrArg some same.symm)
        cases last : (s l).getLast? <;> simp [list2AddList, subHead, tail, last, differs]
    · rcases List.eq_nil_or_concat' (s l) with whole | ⟨front, b, whole⟩
      · simp [list2AddList, subHead, tail, whole, apart.symm]
      · simp [list2AddList, subHead, tail, whole, apart.symm, head]
    · rw [List.getLast?_append_of_ne_nil _ (List.cons_ne_nil first rest), ← subTail]
      cases last : (s l).getLast? <;> simp [list2AddList, subHead, tail, last, apart.symm, apart]
    · by_cases same : k = sub
      · subst same
        cases last : (s l).getLast? <;> simp [list2AddList, subHead, tail, last, other]
      · cases last : (s l).getLast? <;> simp [list2AddList, subHead, tail, last, other, same]
    · have notSub : k ≠ sub := by
        rintro rfl
        rw [Function.update_self] at member
        exact nomatch member
      rw [Function.update_of_ne notSub] at member
      have notFirst : a ≠ first := by
        rintro rfl
        exact refines.own (content ▸ List.mem_cons_self) notSub member
      cases last : (s l).getLast? with
      | none => simp [list2AddList, subHead, tail, last]
      | some b =>
        have notLast : a ≠ b := by
          rintro rfl
          exact refines.own (List.mem_of_getLast? last) other member
        simp [list2AddList, subHead, tail, last, notFirst, notLast]

theorem list2AddList_self_refines (refines : Refines m s) :
    Refines (list2AddList (some l) l m) (Function.update s l []) := by
  have head : (m.list l).head = (s l).head? := (refines.reads l).head_eq
  have tail : (m.list l).tail = (s l).getLast? := (refines.reads l).tail_eq
  have none : ∀ a ∈ ([] : List ε), ∀ k, k ≠ l → a ∉ s k := fun a member => nomatch member
  rcases List.eq_nil_or_concat' (s l) with content | ⟨before, last, content⟩
  · rw [content] at head tail
    refine refines.change linked_nil ?_ ?_ (fun k other => ?_) (fun k other a member => ?_) none
    · simp [list2AddList, head]
    · simp [list2AddList, head, tail]
    · simp [list2AddList, head, other]
    · simp [list2AddList, head]
  · obtain ⟨first, front⟩ : ∃ first, (s l).head? = some first := by
      rw [content]
      cases before <;> exact ⟨_, rfl⟩
    have atEnd : (s l).getLast? = some last := by rw [content, List.getLast?_concat]
    rw [front] at head
    rw [atEnd] at tail
    refine refines.change linked_nil ?_ ?_ (fun k other => ?_) (fun k other a member => ?_) none
    · simp [list2AddList, head, tail]
    · simp [list2AddList, head, tail]
    · simp [list2AddList, head, tail, other]
    · have notFirst : a ≠ first := by
        rintro rfl
        exact refines.own (List.mem_of_head? front) other member
      have notLast : a ≠ last := by
        rintro rfl
        exact refines.own (List.mem_of_getLast? atEnd) other member
      simp [list2AddList, head, tail, notFirst, notLast]

/-- Every operation does what it is for, and follows no `NULL` pointer. -/
theorem call_refines {op : Op ε ι} (refines : Refines m s) (valid : op.Valid s) :
    ∃ m', op.call m = some (m', (op.apply s).2) ∧ Refines m' (op.apply s).1 := by
  cases op with
  | init l => exact ⟨_, rfl, list2Init_refines refines⟩
  | addHead elementP l =>
    cases elementP with
    | none => exact ⟨m, rfl, refines⟩
    | some e => exact ⟨_, rfl, list2AddHead_refines refines valid⟩
  | addTail elementP l =>
    cases elementP with
    | none => exact ⟨m, rfl, refines⟩
    | some e => exact ⟨_, rfl, list2AddTail_refines refines valid⟩
  | addList sublistP l =>
    cases sublistP with
    | none => exact ⟨m, rfl, refines⟩
    | some sub =>
      by_cases same : sub = l
      · subst same
        have lost := list2AddList_self_refines (l := sub) refines
        exact ⟨_, rfl, by rwa [Op.apply, Function.update_idem]⟩
      · exact ⟨_, rfl, list2AddList_refines refines same⟩
  | removeHead l =>
    obtain ⟨refined, returned⟩ := list2RemoveHead_refines (l := l) refines
    exact ⟨_, congrArg some (Prod.ext rfl returned), refined⟩
  | removeTail l => exact list2RemoveTail_refines refines
  | removeElement elementP l =>
    cases elementP with
    | none => exact ⟨m, rfl, refines⟩
    | some e => exact list2RemoveElement_refines refines valid

end Operations

end OpenAir.Lists
