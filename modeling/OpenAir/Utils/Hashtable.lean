import Mathlib.Data.List.Basic
import Mathlib.Logic.Function.Basic

/-! The hash table of the layers, with its buckets as lists of nodes. -/
namespace OpenAir.Hashtable

abbrev Key := BitVec 64

variable {δ : Type}

/-- `none` is the null pointer. -/
structure Node (δ : Type) where
  key : Key
  data : Option δ
deriving DecidableEq

inductive ReturnCode where
  | ok
  | insertOverwrittenData
  | keyNotExists
deriving DecidableEq

structure Table (δ : Type) where
  size : Nat
  numElements : BitVec 64
  nodes : Nat → List (Node δ)
  hashfunc : Key → BitVec 64

def defHashfunc (keyP : Key) : BitVec 64 := keyP

/-- The buckets come cleared from `calloc`, the rest of the table has what `malloc` found. -/
def hashtableCreate (sizeP : Nat) (hashfuncP : Option (Key → BitVec 64))
    (found : BitVec 64) : Table δ :=
  ⟨sizeP, found, fun _ => [], hashfuncP.getD defHashfunc⟩

/-- A table of size 0 divides by zero. -/
def Table.hash (t : Table δ) (keyP : Key) : Option Nat :=
  if t.size = 0 then none else some ((t.hashfunc keyP).toNat % t.size)

/-- The walk along a bucket. -/
def search (keyP : Key) : List (Node δ) → Option (Option δ)
  | [] => none
  | node :: rest => if node.key = keyP then some node.data else search keyP rest

/-- The walk of the insertion: the bucket with the new data, and the data it had. -/
def overwrite (keyP : Key) (dataP : Option δ) : List (Node δ) → Option (List (Node δ) × Option δ)
  | [] => none
  | node :: rest =>
    if node.key = keyP then some ({ node with data := dataP } :: rest, node.data)
    else (overwrite keyP dataP rest).map fun (rest, old) => (node :: rest, old)

/-- The walk of the removal: the bucket without the node, and the data it had. -/
def unlink (keyP : Key) : List (Node δ) → Option (List (Node δ) × Option δ)
  | [] => none
  | node :: rest =>
    if node.key = keyP then some (rest, node.data)
    else (unlink keyP rest).map fun (rest, old) => (node :: rest, old)

def Table.setBucket (t : Table δ) (hash : Nat) (bucket : List (Node δ)) : Table δ :=
  { t with nodes := Function.update t.nodes hash bucket }

def hashtableIsKeyExists (t : Table δ) (keyP : Key) : Option ReturnCode := do
  let hash ← t.hash keyP
  match search keyP (t.nodes hash) with
  | some _ => return .ok
  | none => return .keyNotExists

def hashtableGet (t : Table δ) (keyP : Key) : Option (ReturnCode × Option δ) := do
  let hash ← t.hash keyP
  match search keyP (t.nodes hash) with
  | some data => return (.ok, data)
  | none => return (.keyNotExists, none)

/-- The table, the code, and what `freefunc` is given. -/
def hashtableInsert (t : Table δ) (keyP : Key) (dataP : Option δ) :
    Option (Table δ × ReturnCode × Option δ) := do
  let hash ← t.hash keyP
  match overwrite keyP dataP (t.nodes hash) with
  | some (bucket, old) => return (t.setBucket hash bucket, .insertOverwrittenData, old)
  | none =>
    return ({ t.setBucket hash (⟨keyP, dataP⟩ :: t.nodes hash) with
      numElements := t.numElements + 1 }, .ok, none)

def hashtableRemove (t : Table δ) (keyP : Key) : Option (Table δ × ReturnCode × Option δ) := do
  let hash ← t.hash keyP
  match unlink keyP (t.nodes hash) with
  | some (bucket, old) =>
    return ({ t.setBucket hash bucket with numElements := t.numElements - 1 }, .ok, old)
  | none => return (t, .keyNotExists, none)

/-- The loop of `hashtable_apply_funct_on_elements`, as far as the rounds go: the nodes that were
given to the function. Both counters are `unsigned int`. -/
def applyLoop (t : Table δ) : Nat → BitVec 32 → BitVec 32 → List (Node δ) → Option (List (Node δ))
  | 0, _, _, _ => none
  | rounds + 1, i, numElements, visited =>
    if numElements.toNat < t.numElements.toNat ∧ i.toNat < t.size then
      applyLoop t rounds (i + 1) (numElements + BitVec.ofNat 32 (t.nodes i.toNat).length)
        (visited ++ t.nodes i.toNat)
    else some visited

def hashtableApplyFunctOnElements (t : Table δ) (rounds : Nat) : Option (List (Node δ)) :=
  applyLoop t rounds 0 0 []

/-- The inner loop of the resizing. The next node is read before its predecessor is removed. -/
def moveNodes : List (Node δ) → Table δ → Table δ → List δ → Option (Table δ × Table δ × List δ)
  | [], old, new, released => some (old, new, released)
  | node :: rest, old, new, released => do
    let (new, _, overwritten) ← hashtableInsert new node.key node.data
    let (old, _, removed) ← hashtableRemove old node.key
    moveNodes rest old new (released ++ overwritten.toList ++ removed.toList)

def moveBuckets : Nat → Nat → Table δ → Table δ → List δ → Option (Table δ × Table δ × List δ)
  | _, 0, old, new, released => some (old, new, released)
  | n, count + 1, old, new, released => do
    let (old, new, released) ← moveNodes (old.nodes n) old new released
    moveBuckets (n + 1) count old new released

/-- `newtbl` is on the stack, its counter has what is found there. -/
def hashtableResize (t : Table δ) (sizeP : Nat) (found : BitVec 64) :
    Option (Table δ × List δ) := do
  let (old, newtbl, released) ← moveBuckets 0 t.size t ⟨sizeP, found, fun _ => [], t.hashfunc⟩ []
  return ({ old with size := newtbl.size, nodes := newtbl.nodes }, released)

section Buckets
variable {keyP : Key} {dataP : Option δ}

theorem search_cons (k : Key) (node : Node δ) (rest : List (Node δ)) :
    search k (node :: rest) = if node.key = k then some node.data else search k rest := rfl

theorem search_eq_none {bucket : List (Node δ)} : search keyP bucket = none ↔
    ∀ node ∈ bucket, node.key ≠ keyP := by
  induction bucket with
  | nil => simp [search]
  | cons node rest ih =>
    rw [search_cons, List.forall_mem_cons]
    by_cases same : node.key = keyP
    · simp [same]
    · rw [if_neg same, ih]
      exact (and_iff_right same).symm

theorem search_eq_some {bucket : List (Node δ)} (distinct : (bucket.map Node.key).Nodup) :
    search keyP bucket = some dataP ↔ ⟨keyP, dataP⟩ ∈ bucket := by
  induction bucket with
  | nil => simp [search]
  | cons node rest ih =>
    obtain ⟨fresh, distinct⟩ := List.nodup_cons.mp distinct
    rw [search_cons, List.mem_cons]
    by_cases same : node.key = keyP
    · have absent : (⟨keyP, dataP⟩ : Node δ) ∉ rest := by
        intro member
        exact fresh (same ▸ List.mem_map_of_mem member)
      rw [if_pos same, or_iff_left absent, Option.some.injEq]
      constructor
      · rintro rfl
        subst same
        rfl
      · rintro rfl
        rfl
    · rw [if_neg same, ih distinct]
      constructor
      · exact Or.inr
      · rintro (rfl | later)
        · exact absurd rfl same
        · exact later

theorem overwrite_none {bucket : List (Node δ)} (absent : search keyP bucket = none) :
    overwrite keyP dataP bucket = none := by
  induction bucket with
  | nil => rfl
  | cons node rest ih =>
    rw [search_eq_none, List.forall_mem_cons] at absent
    rw [overwrite, if_neg absent.1, ih (search_eq_none.mpr absent.2)]
    rfl

theorem overwrite_some (dataP : Option δ) {bucket : List (Node δ)} {old : Option δ}
    (present : search keyP bucket = some old) :
    ∃ after, overwrite keyP dataP bucket = some (after, old) ∧
      after.map Node.key = bucket.map Node.key ∧
      ∀ k, search k after = if k = keyP then some dataP else search k bucket := by
  induction bucket with
  | nil => exact nomatch present
  | cons node rest ih =>
    rw [search_cons] at present
    by_cases same : node.key = keyP
    · rw [if_pos same, Option.some.injEq] at present
      refine ⟨{ node with data := dataP } :: rest, by
        rw [overwrite, if_pos same, present], rfl, fun k => ?_⟩
      simp only [search_cons, same]
      by_cases mine : k = keyP
      · rw [if_pos mine.symm, if_pos mine]
      · rw [if_neg (Ne.symm mine), if_neg mine, if_neg (Ne.symm mine)]
    · rw [if_neg same] at present
      obtain ⟨after, replaced, keys, found⟩ := ih present
      refine ⟨node :: after, by rw [overwrite, if_neg same, replaced]; rfl, ?_, fun k => ?_⟩
      · rw [List.map_cons, keys, List.map_cons]
      · rw [search_cons, search_cons, found]
        by_cases here : node.key = k
        · have other : k ≠ keyP := here ▸ same
          rw [if_pos here, if_neg other, if_pos here]
        · rw [if_neg here, if_neg here]

theorem unlink_none {bucket : List (Node δ)} (absent : search keyP bucket = none) :
    unlink keyP bucket = none := by
  induction bucket with
  | nil => rfl
  | cons node rest ih =>
    rw [search_eq_none, List.forall_mem_cons] at absent
    rw [unlink, if_neg absent.1, ih (search_eq_none.mpr absent.2)]
    rfl

theorem unlink_some {bucket : List (Node δ)} {old : Option δ}
    (distinct : (bucket.map Node.key).Nodup)
    (present : search keyP bucket = some old) :
    ∃ after, unlink keyP bucket = some (after, old) ∧ after.Sublist bucket ∧
      ∀ k, search k after = if k = keyP then none else search k bucket := by
  induction bucket with
  | nil => exact nomatch present
  | cons node rest ih =>
    obtain ⟨fresh, distinct⟩ := List.nodup_cons.mp distinct
    rw [search_cons] at present
    by_cases same : node.key = keyP
    · rw [if_pos same, Option.some.injEq] at present
      refine ⟨rest, by
        rw [unlink, if_pos same, present], List.sublist_cons_self node rest, fun k => ?_⟩
      rw [search_cons]
      by_cases mine : k = keyP
      · rw [if_pos mine, search_eq_none]
        intro other member equal
        exact fresh (same.trans (mine.symm.trans equal.symm) ▸ List.mem_map_of_mem member)
      · rw [if_neg mine, if_neg (fun equal => mine (equal.symm.trans same))]
    · rw [if_neg same] at present
      obtain ⟨after, removed, sub, found⟩ := ih distinct present
      refine ⟨node :: after, by
        rw [unlink, if_neg same, removed]; rfl, sub.cons_cons node, fun k => ?_⟩
      rw [search_cons, search_cons, found]
      by_cases here : node.key = k
      · have other : k ≠ keyP := here ▸ same
        rw [if_pos here, if_neg other, if_pos here]
      · rw [if_neg here, if_neg here]

end Buckets

end OpenAir.Hashtable
