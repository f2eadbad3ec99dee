import Mathlib.Data.List.Nodup
import Mathlib.Logic.Function.Basic

/-! Singly linked lists threaded through an array of successors. -/
namespace OpenAir.Linked

/-- The elements met from `head` on; the list ends at `-1`. -/
def Chain (next : Nat → Int) : Int → List Nat → Prop
  | head, [] => head = -1
  | head, x :: rest => head = x ∧ Chain next (next x) rest

variable {next other : Nat → Int} {head : Int} {x p : Nat} {xs before after : List Nat}

theorem Chain.congr (chain : Chain next head xs) (same : ∀ x ∈ xs, other x = next x) :
    Chain other head xs := by
  induction xs generalizing head with
  | nil => exact chain
  | cons x rest ih =>
    refine ⟨chain.1, ?_⟩
    rw [same x List.mem_cons_self]
    exact ih chain.2 fun y member => same y (List.mem_cons_of_mem _ member)

theorem Chain.update (chain : Chain next head xs) (outside : x ∉ xs) (value : Int) :
    Chain (Function.update next x value) head xs := by
  apply chain.congr
  intro y member
  have other : y ≠ x := fun same => outside (same ▸ member)
  exact Function.update_of_ne other value next

theorem Chain.head_iff (chain : Chain next head xs) : head = x ↔ ∃ rest, xs = x :: rest := by
  cases xs with
  | nil =>
    rw [show head = -1 from chain]
    exact iff_of_false (by omega) (by simp)
  | cons y rest =>
    rw [chain.1, Int.natCast_inj]
    simp

theorem Chain.unique (left : Chain next head xs) (right : Chain next head before) :
    xs = before := by
  induction xs generalizing head before with
  | nil =>
    cases before with
    | nil => rfl
    | cons y rest =>
      obtain ⟨others, same⟩ := left.head_iff.mp right.1
      exact nomatch same
  | cons x rest ih =>
    obtain ⟨others, rfl⟩ := right.head_iff.mp left.1
    rw [ih left.2 right.2]

/-- An element is taken out by linking the one in front of it to the one behind it. -/
theorem Chain.unlink (chain : Chain next head (before ++ p :: x :: after))
    (distinct : (before ++ p :: x :: after).Nodup) :
    Chain (Function.update next p (next x)) head (before ++ p :: after) := by
  induction before generalizing head with
  | nil =>
    refine ⟨chain.1, ?_⟩
    rw [Function.update_self]
    have outside : p ∉ after :=
      fun member => (List.nodup_cons.mp distinct).1 (List.mem_cons_of_mem _ member)
    exact chain.2.2.update outside _
  | cons y rest ih =>
    have apart := List.nodup_cons.mp distinct
    have other : y ≠ p := by
      rintro rfl
      exact apart.1 (List.mem_append_right _ List.mem_cons_self)
    refine ⟨chain.1, ?_⟩
    rw [Function.update_of_ne other]
    exact ih chain.2 apart.2

/-- The search for the element in front of `node`, from `j` on; `none` when the rounds are
used up, and `-1` when the list ends first. -/
def findPrev (next : Nat → Int) (node : Nat) : Nat → Int → Option Int
  | 0, j => if j < 0 then some (-1) else none
  | rounds + 1, j =>
    if j < 0 then some (-1)
    else if next j.toNat = node then some j
    else findPrev next node rounds (next j.toNat)

theorem findPrev_nil (node rounds : Nat) : findPrev next node rounds (-1) = some (-1) := by
  cases rounds <;> rfl

/-- What stands behind another element is not the first. -/
theorem behind_ne_head (distinct : (before ++ p :: x :: after).Nodup) :
    ¬ ∃ rest, before ++ p :: x :: after = x :: rest := by
  rintro ⟨rest, same⟩
  cases before with
  | nil =>
    obtain ⟨rfl, -⟩ := List.cons_eq_cons.mp same
    exact (List.nodup_cons.mp distinct).1 List.mem_cons_self
  | cons y others =>
    obtain ⟨rfl, -⟩ := List.cons_eq_cons.mp same
    exact (List.nodup_cons.mp distinct).1
      (List.mem_append_right _ (List.mem_cons_of_mem _ List.mem_cons_self))

theorem findPrev_found {rounds : Nat} (chain : Chain next head (before ++ p :: x :: after))
    (distinct : (before ++ p :: x :: after).Nodup) (enough : before.length < rounds) :
    findPrev next x rounds head = some (p : Int) := by
  induction before generalizing head rounds with
  | nil =>
    obtain ⟨rounds, rfl⟩ := Nat.exists_eq_succ_of_ne_zero (Nat.ne_of_gt enough)
    obtain ⟨rfl, link, -⟩ := chain
    rw [findPrev, if_neg (by omega), Int.toNat_natCast, if_pos link]
  | cons y rest ih =>
    obtain ⟨rounds, rfl⟩ := Nat.exists_eq_succ_of_ne_zero (Nat.ne_of_gt (Nat.zero_lt_of_lt enough))
    obtain ⟨rfl, tail⟩ := chain
    have apart := List.nodup_cons.mp distinct
    have later : next y ≠ x := fun link => behind_ne_head apart.2 (tail.head_iff.mp link)
    rw [findPrev, if_neg (by omega), Int.toNat_natCast, if_neg later]
    exact ih tail apart.2 (Nat.lt_of_succ_lt_succ enough)

/-- An element behind which nothing links to `node` is passed over. -/
theorem findPrev_absent {rounds node : Nat} (chain : Chain next head xs)
    (absent : ∀ y ∈ xs, next y ≠ node)
    (enough : xs.length ≤ rounds) : findPrev next node rounds head = some (-1) := by
  induction xs generalizing head rounds with
  | nil =>
    rw [show head = -1 from chain]
    exact findPrev_nil node rounds
  | cons y rest ih =>
    obtain ⟨rounds, rfl⟩ :=
      Nat.exists_eq_succ_of_ne_zero (Nat.ne_of_gt (Nat.lt_of_lt_of_le (Nat.succ_pos _) enough))
    obtain ⟨rfl, tail⟩ := chain
    rw [findPrev, if_neg (by omega), Int.toNat_natCast, if_neg (absent y List.mem_cons_self)]
    exact ih tail (fun z member => absent z (List.mem_cons_of_mem _ member))
      (Nat.le_of_succ_le_succ enough)

/-- No link leads to a number that is not in the list. -/
theorem Chain.next_ne {node : Nat} (chain : Chain next head xs) (outside : node ∉ xs) :
    ∀ y ∈ xs, next y ≠ node := by
  induction xs generalizing head with
  | nil => exact nofun
  | cons y rest ih =>
    intro z member
    obtain rfl | later := List.mem_cons.mp member
    · intro link
      obtain ⟨others, rfl⟩ := chain.2.head_iff.mp link
      exact outside (List.mem_cons_of_mem _ List.mem_cons_self)
    · exact ih chain.2 (fun member => outside (List.mem_cons_of_mem _ member)) z later

/-- Every element is linked to the next one in a list, and the last to `-1`. -/
def relink (next : Nat → Int) : List Nat → Nat → Int
  | [] => next
  | [last] => Function.update next last (-1)
  | x :: y :: rest => relink (Function.update next x y) (y :: rest)

def first : List Nat → Int
  | [] => -1
  | x :: _ => x

theorem relink_of_not_mem (outside : x ∉ xs) : relink next xs x = next x := by
  fun_induction relink next xs with
  | case1 => rfl
  | case2 next last =>
    exact Function.update_of_ne (fun same : x = last => outside (same ▸ List.mem_cons_self)) _ _
  | case3 next y z rest ih =>
    rw [ih fun member => outside (List.mem_cons_of_mem _ member)]
    exact Function.update_of_ne (fun same : x = y => outside (same ▸ List.mem_cons_self)) _ _

theorem relink_chain (distinct : xs.Nodup) : Chain (relink next xs) (first xs) xs := by
  fun_induction relink next xs with
  | case1 => rfl
  | case2 last => exact ⟨rfl, Function.update_self ..⟩
  | case3 next y z rest ih =>
    have apart := List.nodup_cons.mp distinct
    refine ⟨rfl, ?_⟩
    rw [relink_of_not_mem apart.1, Function.update_self]
    exact ih apart.2

end OpenAir.Linked
