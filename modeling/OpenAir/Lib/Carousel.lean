import OpenAir.Lib.Circular

/-! A pointer that goes round a ring of places and moves past the dead ones before each item. -/
namespace OpenAir.Carousel
open Circular

variable {σ : Type}

/-- The place behind another. -/
def after (size ind : Nat) : Nat := if ind + 1 = size then 0 else ind + 1

/-- The first live place from `ind` on; no value when the fuel runs out. -/
def seek (live : Nat → Bool) (size : Nat) : (fuel ind : Nat) → Option Nat
  | 0, _ => none
  | fuel + 1, ind => if live ind then some ind else seek live size fuel (after size ind)

/-- The items that are left, from number `k` on, each at the next live place. -/
def walk (live : Nat → Bool) (act : σ → Nat → Nat → σ) (size : Nat) :
    (left k ind : Nat) → σ → Option σ
  | 0, _, _, s => some s
  | left + 1, k, ind, s =>
    match seek live size size ind with
    | none => none
    | some place => walk live act size left (k + 1) (after size place) (act s k place)

def stops (live : Nat → Bool) (size : Nat) : (left ind : Nat) → List Nat
  | 0, _ => []
  | left + 1, ind =>
    let place := (seek live size size ind).getD 0
    place :: stops live size left (after size place)

section Spec

variable {live other : Nat → Bool} {act : σ → Nat → Nat → σ} {size ind j : Nat}

theorem after_lt (inside : ind < size) : after size ind < size := by
  unfold after
  split_ifs <;> omega

/-- The pointer comes to a live place, ahead of it or in the next turn. -/
theorem seek_within {fuel : Nat} (inside : ind < size) (below : j < size) (alive : live j = true)
    (near : ind ≤ j ∧ j < ind + fuel ∨ j < ind ∧ size + j < ind + fuel) :
    ∃ place, seek live size fuel ind = some place ∧ place < size ∧ live place = true := by
  induction fuel generalizing ind with
  | zero => omega
  | succ fuel ih =>
    rw [seek]
    cases found : live ind with
    | true => exact ⟨ind, if_pos rfl, inside, found⟩
    | false =>
      rw [if_neg Bool.false_ne_true]
      have elsewhere : ind ≠ j := by
        rintro rfl
        exact Bool.false_ne_true (found.symm.trans alive)
      apply ih (after_lt inside)
      unfold after
      split_ifs <;> omega

theorem seek_ok (inside : ind < size) (below : j < size) (alive : live j = true) :
    ∃ place, seek live size size ind = some place ∧ place < size ∧ live place = true :=
  seek_within inside below alive (by omega)

theorem seek_congr {fuel : Nat} (inside : ind < size) (same : ∀ i < size, live i = other i) :
    seek live size fuel ind = seek other size fuel ind := by
  induction fuel generalizing ind with
  | zero => rfl
  | succ fuel ih => rw [seek, seek, same ind inside, ih (after_lt inside)]

/-- With a live place the walk ends, and handles every item at its place. -/
theorem walk_eq (inside : ind < size) (below : j < size) (alive : live j = true)
    (left k : Nat) (s : σ) :
    walk live act size left k ind s = some (deliver act s k (stops live size left ind)) := by
  induction left generalizing k ind s with
  | zero => rfl
  | succ left ih =>
    obtain ⟨place, found, bound, -⟩ := seek_ok inside below alive
    rw [walk, stops, found]
    exact ih (after_lt bound) (k + 1) (act s k place)

theorem length_stops (left : Nat) : (stops live size left ind).length = left := by
  induction left generalizing ind with
  | zero => rfl
  | succ left ih => rw [stops, List.length_cons, ih]

theorem mem_stops {left place : Nat} (inside : ind < size) (below : j < size)
    (alive : live j = true)
    (member : place ∈ stops live size left ind) : place < size ∧ live place = true := by
  induction left generalizing ind with
  | zero => exact nomatch member
  | succ left ih =>
    obtain ⟨first, found, bound, lives⟩ := seek_ok inside below alive
    rw [stops, found] at member
    obtain rfl | later := List.mem_cons.mp member
    · exact ⟨bound, lives⟩
    · exact ih (after_lt bound) later

/-- The places depend on what is alive in the ring only. -/
theorem stops_congr {left : Nat} (inside : ind < size) (below : j < size) (alive : live j = true)
    (same : ∀ i < size, live i = other i) :
    stops live size left ind = stops other size left ind := by
  induction left generalizing ind with
  | zero => rfl
  | succ left ih =>
    obtain ⟨first, found, bound, -⟩ := seek_ok inside below alive
    rw [stops, stops, ← seek_congr inside same, found]
    exact congrArg (first :: ·) (ih (after_lt bound))

theorem stop_live {left k : Nat} (inside : ind < size) (below : j < size) (alive : live j = true)
    (item : k < left) :
    (stops live size left ind).getD k 0 < size ∧
    live ((stops live size left ind).getD k 0) = true := by
  have bound : k < (stops live size left ind).length := by rwa [length_stops]
  rw [List.getD_eq_getElem _ _ bound]
  exact mem_stops inside below alive (List.getElem_mem bound)

end Spec

end OpenAir.Carousel
