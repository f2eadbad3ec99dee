import OpenAir.Utils.ListsRefine

/-! The numbers of elements of the lists, along runs of the operations. -/
namespace OpenAir.Lists
open DoublyLinked Run

variable {ε ι : Type} {m m' : Memory ε ι} {s : ι → List ε} {l k : ι} {e : ε}

section Counts
variable [DecidableEq ι]

theorem Counted.change {xs : List ε} (counted : Counted m s)
    (own : (m'.list l).nbElements = xs.length)
    (others : ∀ k, k ≠ l → (m'.list k).nbElements = (m.list k).nbElements) :
    Counted m' (Function.update s l xs) := by
  intro k
  by_cases same : k = l
  · rw [same, Function.update_self]
    exact own
  · rw [Function.update_of_ne same, others k same]
    exact counted k

variable [DecidableEq ε]

theorem list2AddHead_count :
    ((list2AddHead (some e) l m).list k).nbElements = (m.list k).nbElements + if k =
    l then 1 else 0 := by
  by_cases same : k = l
  · subst same
    cases head : (m.list k).head <;> simp [list2AddHead, head]
  · cases head : (m.list l).head <;> simp [list2AddHead, head, same]

theorem list2AddTail_count :
    ((list2AddTail (some e) l m).list k).nbElements = (m.list k).nbElements + if k =
    l then 1 else 0 := by
  by_cases same : k = l
  · subst same
    cases tail : (m.list k).tail <;> simp [list2AddTail, tail]
  · cases tail : (m.list l).tail <;> simp [list2AddTail, tail, same]

/-- The sublist keeps its number. -/
theorem list2AddList_count {sub : ι} : ((list2AddList (some sub) l m).list k).nbElements =
    (m.list k).nbElements + if k = l then (m.list sub).nbElements else 0 := by
  by_cases same : k = l
  · subst same
    by_cases own : sub = k
    · subst own
      cases head : (m.list sub).head <;> cases tail : (m.list sub).tail
        <;> simp [list2AddList, head, tail]
    · have other : k ≠ sub := fun same => own same.symm
      cases head : (m.list sub).head <;> cases tail : (m.list k).tail
        <;> simp [list2AddList, head, tail, own, other]
  · by_cases emptied : k = sub
    · subst emptied
      cases head : (m.list k).head <;> cases tail : (m.list l).tail
        <;> simp [list2AddList, head, tail, same]
    · cases head : (m.list sub).head <;> cases tail : (m.list l).tail
        <;> simp [list2AddList, head, tail, same, emptied]

theorem list2RemoveHead_count : ((list2RemoveHead l m).1.list k).nbElements =
    (m.list k).nbElements - if k = l ∧ (m.list l).head ≠ none then 1 else 0 := by
  cases head : (m.list l).head with
  | none => simp [list2RemoveHead, head]
  | some first =>
    by_cases same : k = l
    · subst same
      cases after : m.next first <;> simp [list2RemoveHead, head, after, Int.sub_eq_add_neg]
    · cases after : m.next first <;> simp [list2RemoveHead, head, after, same]

theorem list2RemoveTail_count {returned : Option ε}
    (removed : list2RemoveTail l m = some (m', returned)) :
    (m'.list k).nbElements = (m.list k).nbElements - if k = l ∧
    (m.list l).tail ≠ none then 1 else 0 := by
  cases tail : (m.list l).tail with
  | none =>
    simp only [list2RemoveTail, tail] at removed
    cases removed
    simp
  | some last =>
    by_cases alone : (m.list l).head = some last
    · simp [list2RemoveTail, tail, alone] at removed
      by_cases same : k = l <;> simp [← removed.1, same, Int.sub_eq_add_neg]
    · cases before : m.previous last with
      | none => simp [list2RemoveTail, tail, alone, before] at removed
      | some second =>
        simp [list2RemoveTail, tail, alone, before] at removed
        by_cases same : k = l <;> simp [← removed.1, same, Int.sub_eq_add_neg]

theorem list2RemoveElement_count {returned : Option ε}
    (removed : list2RemoveElement (some e) l m = some (m', returned)) :
    (m'.list k).nbElements = (m.list k).nbElements - if k = l then 1 else 0 := by
  by_cases front : (m.list l).head = some e
  · cases after : m.next e with
    | none =>
      simp [list2RemoveElement, front, after] at removed
      by_cases same : k = l <;> simp [← removed.1, same, Int.sub_eq_add_neg]
    | some second =>
      simp [list2RemoveElement, front, after] at removed
      by_cases same : k = l <;> simp [← removed.1, same, Int.sub_eq_add_neg]
  · cases before : m.previous e with
    | none => simp [list2RemoveElement, front, before] at removed
    | some second =>
      by_cases last : (m.list l).tail = some e
      · simp [list2RemoveElement, front, last, before] at removed
        by_cases same : k = l <;> simp [← removed.1, same, Int.sub_eq_add_neg]
      · simp only [list2RemoveElement, front, last, before] at removed
        cases behind : Function.update m.next second (m.next e) e with
        | none => simp [behind] at removed
        | some third =>
          simp [behind] at removed
          by_cases same : k = l <;> simp [← removed.1, same, Int.sub_eq_add_neg]

/-- After an operation the numbers are the lengths, exactly when it moved nothing. -/
theorem call_counted {op : Op ε ι} {returned : Option ε} (refines : Refines m s)
    (counted : Counted m s) (valid : op.Valid s)
    (called : op.call m = some (m', returned)) : Counted m' (op.apply s).1 ↔ op.MovesNothing s := by
  have heads : ∀ l, (m.list l).head = (s l).head? := fun l => (refines.reads l).head_eq
  have tails : ∀ l, (m.list l).tail = (s l).getLast? := fun l => (refines.reads l).tail_eq
  cases op with
  | init l =>
    cases called
    refine iff_of_true (counted.change ?_ fun k other => ?_) trivial
    · simp [list2Init]
    · simp [list2Init, other]
  | addHead elementP l =>
    cases called
    cases elementP with
    | none => exact iff_of_true counted trivial
    | some e =>
      refine iff_of_true (counted.change ?_ fun k other => ?_) trivial
      · simp [list2AddHead_count, counted l]
      · simp [list2AddHead_count, other]
  | addTail elementP l =>
    cases called
    cases elementP with
    | none => exact iff_of_true counted trivial
    | some e =>
      refine iff_of_true (counted.change ?_ fun k other => ?_) trivial
      · simp [list2AddTail_count, counted l]
      · simp [list2AddTail_count, other]
  | addList sublistP l =>
    cases called
    cases sublistP with
    | none => exact iff_of_true counted trivial
    | some sub =>
      constructor
      · intro after
        have kept := after sub
        simp only [list2AddList_count, counted sub, Op.apply, Function.update_self, List.length_nil]
          at kept
        have short : (s sub).length = 0 := by
          split at kept <;> omega
        exact List.length_eq_zero_iff.mp short
      · intro (empty : s sub = [])
        have added :
            Counted (list2AddList (some sub) l m) (Function.update s l (s l ++ s sub)) := by
          refine counted.change ?_ fun k other => ?_
          · simp [list2AddList_count, counted l, counted sub]
          · simp [list2AddList_count, other]
        refine added.change ?_ fun k other => rfl
        simp [list2AddList_count, counted sub, empty]
  | removeHead l =>
    obtain rfl : (list2RemoveHead l m).1 = m' := congrArg Prod.fst (Option.some.inj called)
    refine iff_of_true (counted.change ?_ fun k other => ?_) trivial
    · cases content : s l <;> simp [list2RemoveHead_count, heads, counted l, content]
    · simp [list2RemoveHead_count, other]
  | removeTail l =>
    refine iff_of_true (counted.change ?_ fun k other => ?_) trivial
    · rw [list2RemoveTail_count called, tails, counted l]
      cases content : s l <;> simp
    · simp [list2RemoveTail_count called, other]
  | removeElement elementP l =>
    cases elementP with
    | none =>
      cases called
      exact iff_of_true counted trivial
    | some e =>
      have member : e ∈ s l := valid
      refine iff_of_true (counted.change ?_ fun k other => ?_) trivial
      · have some : 0 < (s l).length := List.length_pos_of_mem member
        rw [list2RemoveElement_count called, counted l, List.length_erase_of_mem member, if_pos rfl]
        exact (Int.ofNat_sub some).symm
      · simp [list2RemoveElement_count called, other]

/-- What a step does to the lists is what it should do to the sequences, whether it moves content or
not. -/
theorem step_refines {state : Memory ε ι × (ι → List ε)} {op : Op ε ι}
    (refines : Refines state.1 state.2)
    (valid : op.Valid state.2) : ∃ state', step state op = some state' ∧
    Refines state'.1 state'.2 := by
  obtain ⟨after, called, refined⟩ := call_refines refines valid
  exact ⟨_, by rw [step, called]; rfl, refined⟩

/-- Lists that were initialised read forwards and backwards as the sequences they stand for, and
their numbers of elements are the lengths, in every state of a run, exactly when it moves no
content. -/
theorem faithful_iff_movesNothing (start : Memory ε ι)
    (initialised : ∀ l, start.list l = ⟨none, none, 0⟩) (ops : List (Op ε ι))
    (valid : Meets step (fun state op => op.Valid state.2) (start, fun _ => []) ops) :
    (∀ before after, ops = before ++ after →
        ∃ state, run step (start, fun _ => []) before = some state ∧
        Refines state.1 state.2 ∧ Counted state.1 state.2) ↔
      Meets step (fun state op => op.MovesNothing state.2) (start, fun _ => []) ops := by
  have empty : Refines start fun _ => [] := by
    refine ⟨fun l => ?_, fun k l e member => nomatch member⟩
    rw [initialised]
    exact ⟨linked_nil, rfl, rfl⟩
  have counted : Counted start (fun _ => [] : ι → List ε) := fun l => by rw [initialised]; rfl
  refine (@runs_iff_meets _ _ _ (fun state => Refines state.1 state.2) _ _ _)
    (fun state op refines valid => step_refines refines valid)
    (fun state op state' refines faithful valid stepped => ?_) empty ⟨empty, counted⟩ valid
  obtain ⟨⟨after, returned⟩, called, rfl⟩ := Option.map_eq_some_iff.mp stepped
  rw [and_iff_right, call_counted refines faithful.2 valid called]
  obtain ⟨_, same, refined⟩ := call_refines refines valid
  cases called.symm.trans same
  exact refined

/-- Elements that come and go at both ends of two lists; the third list, which is put behind, is
empty. -/
def twoLists : List (Op Nat Nat) :=
  [.addTail (some 7) 0, .addHead (some 8) 0, .addTail (some 9) 1, .addList (some 2) 1,
    .removeElement (some 7) 0, .removeTail 1]

def noLists : Memory Nat Nat × (Nat → List Nat) :=
  (⟨fun _ => none, fun _ => none, fun _ => ⟨none, none, 0⟩⟩, fun _ => [])

theorem twoLists_counted :
    Meets step (fun state op => op.Valid state.2) noLists twoLists ∧
      ∀ before after, twoLists = before ++ after → ∃ state, run step noLists before = some state ∧
        Refines state.1 state.2 ∧ Counted state.1 state.2 := by
  have valid : Meets step (fun state op => op.Valid state.2) noLists twoLists := by
    refine ⟨fun l => List.not_mem_nil,
      fun a first => ⟨?_, fun b second => ⟨?_, fun c third => ⟨trivial, fun d fourth =>
        ⟨?_, fun _ _ => ⟨trivial, fun _ _ => trivial⟩⟩⟩⟩⟩⟩
    · cases first
      intro l member
      by_cases mine : l = 0
      · subst mine
        exact absurd member (by decide)
      · exact absurd member (by simp [Op.apply, noLists, mine])
    · cases first
      cases second
      intro l member
      by_cases mine : l = 0
      · subst mine
        exact absurd member (by decide)
      · exact absurd member (by simp [Op.apply, noLists, mine])
    · cases first
      cases second
      cases third
      cases fourth
      exact show 7 ∈ [8, 7] by decide
  refine ⟨valid, (faithful_iff_movesNothing noLists.1 (fun _ => rfl) twoLists valid).mpr ?_⟩
  refine ⟨trivial,
      fun a first =>
      ⟨trivial, fun b second => ⟨trivial, fun c third => ⟨?_, fun _ _ => ⟨trivial, fun _ _ =>
    ⟨trivial, fun _ _ => trivial⟩⟩⟩⟩⟩⟩
  cases first
  cases second
  cases third
  rfl

/-- An emptied list still counts the element that was moved away. -/
theorem not_always_counted : ¬ ∀ (start : Memory Nat Nat) (ops : List (Op Nat Nat))
    (state : Memory Nat Nat × (Nat → List Nat)),
    (∀ l, start.list l = ⟨none, none, 0⟩) →
      Meets step (fun state op => op.Valid state.2) (start, fun _ => []) ops →
    run step (start, fun _ => []) ops = some state → Refines state.1 state.2 ∧
    Counted state.1 state.2 := by
  intro all
  obtain ⟨_, counted⟩ := all ⟨fun _ => none, fun _ => none, fun _ => ⟨none, none, 0⟩⟩
    [.addTail (some 7) 0, .addList (some 0) 1] _
    (fun _ => rfl) ⟨fun _ => List.not_mem_nil, fun _ _ => ⟨trivial, fun _ _ => trivial⟩⟩ rfl
  exact absurd (counted 0) (by decide)

end Counts

end OpenAir.Lists
