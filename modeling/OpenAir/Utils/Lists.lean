import OpenAir.Lib.DoublyLinked
import OpenAir.Lib.Run
import Mathlib.Logic.Function.Basic

/-! The doubly linked lists of memory blocks, `list2_t`. -/
namespace OpenAir.Lists
open DoublyLinked

/-- `list2_t`; a pointer has a value unless it is `NULL`. -/
structure List2 (ε : Type) where
  head : Option ε
  tail : Option ε
  nbElements : Int

/-- The links of the blocks, and the lists. -/
structure Memory (ε ι : Type) where
  next : ε → Option ε
  previous : ε → Option ε
  list : ι → List2 ε

variable {ε ι : Type} [DecidableEq ε] [DecidableEq ι]

namespace Memory

def setNext (m : Memory ε ι) (e : ε) (value : Option ε) : Memory ε ι :=
  { m with next := Function.update m.next e value }

def setPrevious (m : Memory ε ι) (e : ε) (value : Option ε) : Memory ε ι :=
  { m with previous := Function.update m.previous e value }

def setList (m : Memory ε ι) (l : ι) (value : List2 ε) : Memory ε ι :=
  { m with list := Function.update m.list l value }

/-- `listP->nb_elements = listP->nb_elements + n` -/
def count (m : Memory ε ι) (l : ι) (n : Int) : Memory ε ι :=
  m.setList l { m.list l with nbElements := (m.list l).nbElements + n }

end Memory

def list2Init (l : ι) (m : Memory ε ι) : Memory ε ι := m.setList l ⟨none, none, 0⟩

/-- `none` where a `NULL` pointer is followed. -/
def list2RemoveElement (elementP : Option ε) (l : ι) (m : Memory ε ι) :
    Option (Memory ε ι × Option ε) :=
  match elementP with
  | none => some (m, none)
  | some e => do
    let listP := m.list l
    let m ←
      if listP.head = some e then
        match m.next e with
        | none => some (m.setList l { listP with head := none, tail := none })
        | some behind =>
          some (((m.setList l { listP with head := some behind }).setPrevious behind none).setNext e
            none)
      else if listP.tail = some e then do
        let before ← m.previous e
        some (((m.setList l { listP with tail := some before }).setNext before none).setPrevious e
          none)
      else do
        let before ← m.previous e
        let m := m.setNext before (m.next e)
        let behind ← m.next e
        let m := m.setPrevious behind (m.previous e)
        some ((m.setNext e none).setPrevious e none)
    some (m.count l (-1), some e)

def list2RemoveHead (l : ι) (m : Memory ε ι) : Memory ε ι × Option ε :=
  match (m.list l).head with
  | none => (m, none)
  | some head =>
    let m := m.setList l { m.list l with head := m.next head }
    let m := m.count l (-1)
    match (m.list l).head with
    | none => (m.setList l { m.list l with tail := none }, some head)
    | some first => ((m.setPrevious first none).setNext head none, some head)

def list2RemoveTail (l : ι) (m : Memory ε ι) : Option (Memory ε ι × Option ε) :=
  match (m.list l).tail with
  | none => some (m, none)
  | some tail => do
    let m := m.count l (-1)
    let m ←
      if (m.list l).head = some tail then
        some (m.setList l { m.list l with head := none, tail := none })
      else do
        let m := m.setList l { m.list l with tail := m.previous tail }
        let before ← m.previous tail
        some (m.setNext before none)
    some (m.setPrevious tail none, some tail)

def list2AddHead (elementP : Option ε) (l : ι) (m : Memory ε ι) : Memory ε ι :=
  match elementP with
  | none => m
  | some e =>
    let head := (m.list l).head
    let m := m.count l 1
    match head with
    | none => ((m.setPrevious e none).setNext e none).setList l
        { m.list l with head := some e, tail := some e }
    | some first =>
      (((m.setNext e head).setPrevious first (some e)).setPrevious e none).setList l
        { m.list l with head := some e }

def list2AddTail (elementP : Option ε) (l : ι) (m : Memory ε ι) : Memory ε ι :=
  match elementP with
  | none => m
  | some e =>
    let m := m.count l 1
    let m := m.setNext e none
    let m :=
      match (m.list l).tail with
      | none => (m.setPrevious e none).setList l { m.list l with head := some e }
      | some tail => (m.setNext tail (some e)).setPrevious e (some tail)
    m.setList l { m.list l with tail := some e }

/-- The sublist loses its head and its tail, but not its number of elements. -/
def list2AddList (sublistP : Option ι) (l : ι) (m : Memory ε ι) : Memory ε ι :=
  match sublistP with
  | none => m
  | some s =>
    let m :=
      match (m.list s).head with
      | none => m
      | some first =>
        let m :=
          match (m.list l).tail with
          | none => m.setList l { m.list l with head := some first }
          | some tail => (m.setNext tail (some first)).setPrevious first (some tail)
        let m := m.setList l { m.list l with tail := (m.list s).tail }
        m.setList s { m.list s with head := none, tail := none }
    m.count l (m.list s).nbElements

inductive Op (ε ι : Type) where
  | init (l : ι)
  | addHead (elementP : Option ε) (l : ι)
  | addTail (elementP : Option ε) (l : ι)
  | addList (sublistP : Option ι) (l : ι)
  | removeHead (l : ι)
  | removeTail (l : ι)
  | removeElement (elementP : Option ε) (l : ι)

def Op.call (m : Memory ε ι) : Op ε ι → Option (Memory ε ι × Option ε)
  | init l => some (list2Init l m, none)
  | addHead elementP l => some (list2AddHead elementP l m, none)
  | addTail elementP l => some (list2AddTail elementP l m, none)
  | addList sublistP l => some (list2AddList sublistP l m, none)
  | removeHead l => some (list2RemoveHead l m)
  | removeTail l => list2RemoveTail l m
  | removeElement elementP l => list2RemoveElement elementP l m

/-! ### What the lists are for -/

/-- The sequences that the lists stand for, after an operation, and what it returns; a list that is
added to itself is lost. -/
def Op.apply (s : ι → List ε) : Op ε ι → (ι → List ε) × Option ε
  | init l => (Function.update s l [], none)
  | addHead none _ | addTail none _ | addList none _ | removeElement none _ => (s, none)
  | addHead (some e) l => (Function.update s l (e :: s l), none)
  | addTail (some e) l => (Function.update s l (s l ++ [e]), none)
  | addList (some sub) l => (Function.update (Function.update s l (s l ++ s sub)) sub [], none)
  | removeHead l => (Function.update s l (s l).tail, (s l).head?)
  | removeTail l => (Function.update s l (s l).dropLast, (s l).getLast?)
  | removeElement (some e) l => (Function.update s l ((s l).erase e), some e)

/-- An element is added when it is in no list, and removed from the list it is in. -/
def Op.Valid (s : ι → List ε) : Op ε ι → Prop
  | addHead (some e) _ | addTail (some e) _ => ∀ l, e ∉ s l
  | removeElement (some e) l => e ∈ s l
  | _ => True

/-- The lists read as the sequences in both directions, and no element is in two of them. -/
structure Refines (m : Memory ε ι) (s : ι → List ε) : Prop where
  reads : ∀ l, Reads m.next m.previous (m.list l).head (m.list l).tail (s l)
  apart : ∀ k l e, e ∈ s k → e ∈ s l → k = l

def Counted (m : Memory ε ι) (s : ι → List ε) : Prop := ∀ l, (m.list l).nbElements = (s l).length

/-- The sequences are kept beside the memory; a step fails where a `NULL` pointer is followed. -/
def step (state : Memory ε ι × (ι → List ε)) (op : Op ε ι) : Option (Memory ε ι × (ι → List ε)) :=
  (op.call state.1).map fun after => (after.1, (op.apply state.2).1)

def Op.MovesNothing (s : ι → List ε) : Op ε ι → Prop
  | addList (some sub) _ => s sub = []
  | _ => True

end OpenAir.Lists
