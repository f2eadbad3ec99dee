import Mathlib.Algebra.BigOperators.Group.Finset.Basic
import Mathlib.Data.List.Nodup
import Mathlib.Data.Nat.ModEq

/-! A queue in a circular buffer whose read index may stand some empty places before it. -/
namespace OpenAir.RingQueue

variable {α : Type} {size first lag : Nat} {slot after : Nat → Option α} {queue : List α}

/-- From the index on: `lag` empty places, the items of the queue, and empty places. -/
structure Holds (size : Nat) (slot : Nat → Option α) (first lag : Nat) (queue : List α) : Prop where
  index : first < size
  short : lag + queue.length < size
  view : ∀ o < size, slot ((first + o) % size) = if o < lag then none else queue[o - lag]?

section Places

theorem place_inj {o other : Nat} (inside : o < size) (otherInside : other < size)
    (same : (first + o) % size = (first + other) % size) : o = other := by
  have equal : Nat.ModEq size o other := Nat.ModEq.add_left_cancel' first same
  rwa [Nat.ModEq, Nat.mod_eq_of_lt inside, Nat.mod_eq_of_lt otherInside] at equal

theorem place_exists {i : Nat} (index : first < size) (inside : i < size) :
    ∃ o < size, (first + o) % size = i := by
  by_cases before : first ≤ i
  · exact ⟨i - first, by omega, by rw [Nat.add_sub_cancel' before, Nat.mod_eq_of_lt inside]⟩
  · refine ⟨i + size - first, by omega, ?_⟩
    rw [Nat.add_sub_cancel' (by omega), Nat.add_mod_right, Nat.mod_eq_of_lt inside]

theorem place_succ (o : Nat) : ((first + 1) % size + o) % size = (first + (o + 1)) % size := by
  rw [Nat.mod_add_mod, Nat.add_assoc, Nat.add_comm 1 o]

end Places

section Steps

variable {a b : α}

theorem Holds.head (holds : Holds size slot first 0 (a :: queue)) : slot first = some a := by
  have seen := holds.view 0 (by have := holds.short; omega)
  rwa [Nat.add_zero, Nat.mod_eq_of_lt holds.index] at seen

/-- Before the queue the index finds an empty place. -/
theorem Holds.behind (holds : Holds size slot first (lag + 1) queue) : slot first = none := by
  have seen := holds.view 0 (by have := holds.short; omega)
  rwa [Nat.add_zero, Nat.mod_eq_of_lt holds.index] at seen

theorem Holds.empty (holds : Holds size slot first lag []) {i : Nat} (inside : i < size) :
    slot i = none := by
  obtain ⟨o, offset, rfl⟩ := place_exists holds.index inside
  rw [holds.view o offset, List.getElem?_nil, ite_self]

theorem Holds.next (holds : Holds size slot first lag queue) :
    slot ((first + (lag + queue.length)) % size) = none := by
  rw [holds.view _ holds.short, if_neg (by omega), Nat.add_sub_cancel_left,
    List.getElem?_eq_none (Nat.le_refl _)]

/-- Only the items and the empty places matter. -/
theorem Holds.congr (holds : Holds size slot first lag queue)
    (same : ∀ i < size, after i = slot i) :
    Holds size after first lag queue where
  index := holds.index
  short := holds.short
  view o inside := by rw [same _ (Nat.mod_lt _ (Nat.zero_lt_of_lt inside)), holds.view o inside]

theorem Holds.push (holds : Holds size slot first lag queue) (room : lag + queue.length + 1 < size)
    (here : after ((first + (lag + queue.length)) % size) = some a)
    (others : ∀ i < size, i ≠ (first + (lag + queue.length)) % size → after i = slot i) :
    Holds size after first lag (queue ++ [a]) where
  index := holds.index
  short := by rw [List.length_append, List.length_singleton]; omega
  view o inside := by
    by_cases last : o = lag + queue.length
    · rw [last, here, if_neg (by omega), Nat.add_sub_cancel_left, List.getElem?_concat_length]
    · have other : (first + o) % size ≠ (first + (lag + queue.length)) % size := fun same =>
        last (place_inj inside holds.short same)
      rw [others _ (Nat.mod_lt _ (Nat.zero_lt_of_lt inside)) other, holds.view o inside]
      by_cases before : o < lag
      · rw [if_pos before, if_pos before]
      · rw [if_neg before, if_neg before]
        by_cases stored : o - lag < queue.length
        · rw [List.getElem?_append_left stored]
        · rw [List.getElem?_eq_none (Nat.le_of_not_lt stored), List.getElem?_eq_none]
          rw [List.length_append, List.length_singleton]
          omega

theorem Holds.change (holds : Holds size slot first 0 (a :: queue)) (here : after first = some b)
    (others : ∀ i < size, i ≠ first → after i = slot i) :
    Holds size after first 0 (b :: queue) where
  index := holds.index
  short := holds.short
  view o inside := by
    cases o with
    | zero => rw [Nat.add_zero, Nat.mod_eq_of_lt holds.index, here]; rfl
    | succ o =>
      have other : (first + (o + 1)) % size ≠ first := by
        intro same
        have := place_inj inside (Nat.zero_lt_of_lt inside)
          (same.trans (Nat.mod_eq_of_lt (holds.index : first + 0 < size)).symm)
        contradiction
      rw [others _ (Nat.mod_lt _ (Nat.zero_lt_of_lt inside)) other, holds.view _ inside]
      rfl

theorem Holds.pop (holds : Holds size slot first 0 (a :: queue)) (here : after first = none)
    (others : ∀ i < size, i ≠ first → after i = slot i) :
    Holds size after ((first + 1) % size) 0 queue where
  index := Nat.mod_lt _ (Nat.zero_lt_of_lt holds.index)
  short := by
    have short := holds.short
    rw [List.length_cons] at short
    omega
  view o inside := by
    have short := holds.short
    rw [List.length_cons] at short
    rw [place_succ, if_neg (Nat.not_lt_zero o), Nat.sub_zero]
    by_cases last : o + 1 = size
    · rw [last, Nat.add_mod_right, Nat.mod_eq_of_lt holds.index, here,
        List.getElem?_eq_none (by omega)]
    · have next : o + 1 < size := by omega
      have other : (first + (o + 1)) % size ≠ first := by
        intro same
        have := place_inj next (Nat.zero_lt_of_lt inside)
          (same.trans (Nat.mod_eq_of_lt (holds.index : first + 0 < size)).symm)
        contradiction
      rw [others _ (Nat.mod_lt _ (Nat.zero_lt_of_lt inside)) other, holds.view _ next]
      rfl

theorem Holds.advance (holds : Holds size slot first (lag + 1) queue) :
    Holds size slot ((first + 1) % size) lag queue where
  index := Nat.mod_lt _ (Nat.zero_lt_of_lt holds.index)
  short := by have := holds.short; omega
  view o inside := by
    have short := holds.short
    rw [place_succ]
    by_cases last : o + 1 = size
    · rw [last, Nat.add_mod_right, Nat.mod_eq_of_lt holds.index, holds.behind, if_neg (by omega),
        List.getElem?_eq_none (by omega)]
    · rw [holds.view (o + 1) (by omega)]
      by_cases before : o < lag
      · rw [if_pos before, if_pos (by omega)]
      · rw [if_neg before, if_neg (by omega), Nat.add_sub_add_right]

/-- The index passes an empty queue and has to come round to it. -/
theorem Holds.overtake (holds : Holds size slot first 0 []) :
    Holds size slot ((first + 1) % size) (size - 1) [] where
  index := Nat.mod_lt _ (Nat.zero_lt_of_lt holds.index)
  short := by have := holds.index; rw [List.length_nil]; omega
  view o inside := by
    rw [holds.empty (Nat.mod_lt _ (Nat.zero_lt_of_lt inside)), List.getElem?_nil, ite_self]

end Steps

section Items

/-- The places of the items, in their order. -/
def places (size first lag count : Nat) : List Nat :=
  (List.range count).map fun j => (first + (lag + j)) % size

theorem Holds.nodup (holds : Holds size slot first lag queue) :
    (places size first lag queue.length).Nodup := by
  refine List.Nodup.map_on ?_ List.nodup_range
  intro i left j right same
  have short := holds.short
  have equal :=
    place_inj (by have := List.mem_range.mp left; omega)
    (by have := List.mem_range.mp right; omega) same
  omega

theorem Holds.mem_places (holds : Holds size slot first lag queue) (i : Nat) :
    i ∈ places size first lag queue.length ↔ i < size ∧ (slot i).isSome := by
  have short := holds.short
  constructor
  · intro member
    obtain ⟨j, inside, rfl⟩ := List.mem_map.mp member
    have inside := List.mem_range.mp inside
    refine ⟨Nat.mod_lt _ (Nat.zero_lt_of_lt short), ?_⟩
    rw [holds.view _ (by omega), if_neg (by omega), Nat.add_sub_cancel_left,
      List.getElem?_eq_getElem inside]
    rfl
  · rintro ⟨inside, stored⟩
    obtain ⟨o, offset, rfl⟩ := place_exists holds.index inside
    rw [holds.view o offset] at stored
    by_cases before : o < lag
    · rw [if_pos before] at stored
      contradiction
    · rw [if_neg before, Option.isSome_iff_ne_none, ne_eq, List.getElem?_eq_none_iff, Nat.not_le]
        at stored
      exact List.mem_map.mpr ⟨o - lag, List.mem_range.mpr stored, by
        rw [Nat.add_sub_cancel' (Nat.le_of_not_lt before)]⟩

theorem Holds.map_places (holds : Holds size slot first lag queue) :
    (places size first lag queue.length).map slot = queue.map some := by
  have short := holds.short
  apply List.ext_getElem
  · rw [List.length_map, List.length_map, places, List.length_map, List.length_range]
  · intro j left right
    rw [List.length_map] at right
    simp only [places, List.getElem_map, List.getElem_range]
    rw [holds.view _ (by omega), if_neg (by omega), Nat.add_sub_cancel_left,
      List.getElem?_eq_getElem right]

end Items

end OpenAir.RingQueue
