import Mathlib.Algebra.BigOperators.Group.Finset.Basic
import Mathlib.Algebra.BigOperators.Intervals
import Mathlib.Data.List.GetD

/-! A pointer that runs round a circular buffer, skips dead places and handles one item at each live
place until all items are handled. -/
namespace OpenAir.Circular

variable {σ : Type}

section Loop

variable (live : Nat → Bool) (act : σ → Nat → Nat → σ) (count size : Nat)

/-- One pass over the places that are left. -/
def pass : (left ind k : Nat) → σ → Nat × σ
  | 0, _, k, s => (k, s)
  | left + 1, ind, k, s =>
    if k < count then
      if live ind then pass left (ind + 1) (k + 1) (act s k ind) else pass left (ind + 1) k s
    else (k, s)

/-- Passes over the whole buffer; no value when the fuel runs out before the items do. -/
def passes : (fuel k : Nat) → σ → Option σ
  | 0, _, _ => none
  | fuel + 1, k, s =>
    if k < count then
      let (k, s) := pass live act count size 0 k s
      passes fuel k s
    else some s

/-- A pass from `start` to the end, then passes over the whole buffer. -/
def scan (start : Nat) (s : σ) : Option σ :=
  let (k, s) := pass live act count (size - start) start 0 s
  passes live act count size (count + 1) k s

end Loop

/-- The items from number `k` on, each at its place of the list. -/
def deliver (act : σ → Nat → Nat → σ) : σ → Nat → List Nat → σ
  | s, _, [] => s
  | s, k, place :: rest => deliver act (act s k place) (k + 1) rest

theorem deliver_append {act : σ → Nat → Nat → σ} (s : σ) (k : Nat) (first second : List Nat) :
    deliver act s k (first ++ second) =
    deliver act (deliver act s k first) (k + first.length) second := by
  induction first generalizing s k with
  | nil => rfl
  | cons place rest ih =>
    rw [List.cons_append, deliver, ih, deliver, List.length_cons, Nat.add_right_comm, Nat.add_assoc]

section Places

variable (live : Nat → Bool) (size start count : Nat)

/-- The places in the order in which the items get them. -/
def places : List Nat :=
  ((List.range' start (size - start)).filter live ++
    (List.replicate count ((List.range' 0 size).filter live)).flatten).take count

def place (k : Nat) : Nat := (places live size start count).getD k 0

end Places

section Spec

variable {live : Nat → Bool} {act : σ → Nat → Nat → σ} {count size start : Nat}

theorem pass_eq (left ind k : Nat) (s : σ) :
    pass live act count left ind k s =
      (k + (((List.range' ind left).filter live).take (count - k)).length,
        deliver act s k (((List.range' ind left).filter live).take (count - k))) := by
  induction left generalizing ind k s with
  | zero => rw [pass, List.range'_zero, List.filter_nil, List.take_nil, deliver,
      List.length_nil, Nat.add_zero]
  | succ left ih =>
    rw [pass, List.range'_succ]
    by_cases more : k < count
    · rw [if_pos more]
      cases alive : live ind with
      | true =>
        have one : count - k = count - (k + 1) + 1 := by omega
        rw [if_pos rfl, ih, List.filter_cons_of_pos alive, one, List.take_succ_cons, deliver,
          List.length_cons, Nat.add_right_comm, Nat.add_assoc]
      | false => rw [if_neg Bool.false_ne_true, ih,
          List.filter_cons_of_neg (by rw [alive]; exact Bool.false_ne_true)]
    · rw [if_neg more, Nat.sub_eq_zero_of_le (Nat.le_of_not_lt more)]
      rfl

/-- A whole turn handles at least one item, so the fuel is enough. -/
theorem passes_eq (some_live : ((List.range' 0 size).filter live) ≠ []) (fuel k turns : Nat) (s : σ)
    (enough : count - k < fuel)
    (long : count - k ≤ turns) :
    passes live act count size fuel k s = some
      (deliver act s k
        ((List.replicate turns ((List.range' 0 size).filter live)).flatten.take (count - k))) := by
  induction fuel generalizing k turns s with
  | zero => omega
  | succ fuel ih =>
    rw [passes]
    by_cases more : k < count
    · have nonempty := List.length_pos_iff.mpr some_live
      obtain ⟨turns, rfl⟩ : ∃ fewer, turns = fewer + 1 := ⟨turns - 1, by omega⟩
      rw [if_pos more, pass_eq, List.replicate_succ, List.flatten_cons, List.take_append,
        deliver_append]
      simp only [List.length_take]
      rw [ih _ turns _ (by omega) (by omega)]
      congr 3
      omega
    · rw [if_neg more, Nat.sub_eq_zero_of_le (Nat.le_of_not_lt more), List.take_zero]
      rfl

theorem exists_live {ind : Nat} (inside : ind < size) (alive : live ind = true) :
    (List.range' 0 size).filter live ≠ [] := by
  intro empty
  have member : ind ∈ (List.range' 0 size).filter live :=
    List.mem_filter.mpr ⟨List.mem_range'_1.mpr ⟨Nat.zero_le _, by omega⟩, alive⟩
  rw [empty] at member
  cases member

/-- The loops end, and handle every item at its place. -/
theorem scan_eq {ind : Nat} (inside : ind < size) (alive : live ind = true) (s : σ) :
    scan live act count size start s = some (deliver act s 0 (places live size start count)) := by
  rw [scan, pass_eq, Nat.sub_zero]
  simp only
  rw [passes_eq (exists_live inside alive) _ _ count _ (by omega) (by omega), places,
    List.take_append, deliver_append]
  congr 3
  simp only [List.length_take]
  omega

/-- Without a live place the loops do not end, unless there is no item. -/
theorem scan_dead (dead : ∀ ind < size, live ind = false) (s : σ) :
    scan live act count size start s = if count = 0 then some s else none := by
  have nothing (left ind : Nat) (inside : left = 0 ∨ ind + left ≤ size) :
      (List.range' ind left).filter live = [] := by
    refine List.filter_eq_nil_iff.mpr fun other member => ?_
    have bound := List.mem_range'_1.mp member
    rw [dead other (by omega)]
    exact Bool.false_ne_true
  have stuck (fuel : Nat) (s : σ) (some_ : 0 < count) :
      passes live act count size fuel 0 s = none := by
    induction fuel with
    | zero => rfl
    | succ fuel ih =>
      rw [passes, if_pos some_, pass_eq, nothing _ _ (by omega), List.take_nil]
      exact ih
  rw [scan, pass_eq, nothing _ _ (by omega), List.take_nil]
  by_cases none : count = 0
  · rw [if_pos none, none]
    rfl
  · rw [if_neg none]
    exact stuck (count + 1) s (Nat.pos_of_ne_zero none)

theorem length_places {ind : Nat} (inside : ind < size) (alive : live ind = true) :
    (places live size start count).length = count := by
  have nonempty := List.length_pos_iff.mpr (exists_live inside alive)
  have turns : count ≤ count * ((List.range' 0 size).filter live).length :=
    Nat.le_mul_of_pos_right _ nonempty
  rw [places, List.length_take, List.length_append, List.length_flatten, List.map_replicate,
    List.sum_replicate_nat]
  omega

theorem mem_places {ind : Nat} (member : ind ∈ places live size start count) : ind < size ∧
    live ind = true := by
  rcases List.mem_append.mp (List.mem_of_mem_take member) with first | later
  · obtain ⟨inside, alive⟩ := List.mem_filter.mp first
    have bound := List.mem_range'_1.mp inside
    exact ⟨by omega, alive⟩
  · obtain ⟨turn, chosen, member⟩ := List.mem_flatten.mp later
    rw [List.eq_of_mem_replicate chosen] at member
    obtain ⟨inside, alive⟩ := List.mem_filter.mp member
    have bound := List.mem_range'_1.mp inside
    exact ⟨by omega, alive⟩

/-- The places depend on what is alive inside the buffer only. -/
theorem places_congr {other : Nat → Bool} (same : ∀ ind < size, live ind = other ind) :
    places live size start count = places other size start count := by
  have first : (List.range' start (size - start)).filter live =
      (List.range' start (size - start)).filter other :=
    List.filter_congr fun ind member => same ind (by have := List.mem_range'_1.mp member; omega)
  have whole : (List.range' 0 size).filter live = (List.range' 0 size).filter other :=
    List.filter_congr fun ind member => same ind (by have := List.mem_range'_1.mp member; omega)
  rw [places, first, whole, places]

theorem place_live {ind k : Nat} (inside : ind < size) (alive : live ind = true)
    (below : k < count) :
    place live size start count k < size ∧ live (place live size start count k) = true := by
  have bound : k < (places live size start count).length := by rwa [length_places inside alive]
  rw [place, List.getD_eq_getElem _ _ bound]
  exact mem_places (List.getElem_mem bound)

end Spec

section Effects

/-- Reading the buffer: item `k` is what is stored at its place. -/
theorem deliver_read {α : Type} (w e : Nat → α) (k : Nat) (list : List Nat) (j : Nat) :
    deliver (fun e k ind => Function.update e k (w ind)) e k list j =
      if k ≤ j ∧ j < k + list.length then w (list.getD (j - k) 0) else e j := by
  induction list generalizing e k with
  | nil => rw [deliver, if_neg (by rw [List.length_nil]; omega)]
  | cons first rest ih =>
    rw [deliver, ih, List.length_cons]
    rcases Nat.lt_trichotomy j k with before | rfl | after
    · rw [if_neg (by omega), if_neg (by omega), Function.update_of_ne (by omega)]
    · rw [if_neg (by omega), if_pos (by omega), Function.update_self, Nat.sub_self,
        List.getD_cons_zero]
    · obtain ⟨n, rfl⟩ : ∃ n, j = k + 1 + n := ⟨j - (k + 1), by omega⟩
      rw [show k + 1 + n - k = n + 1 by omega, List.getD_cons_succ, Nat.add_sub_cancel_left]
      by_cases inside : n < rest.length
      · rw [if_pos (by omega), if_pos (by omega)]
      · rw [if_neg (by omega), if_neg (by omega), Function.update_of_ne (by omega)]

/-- Adding to the buffer: a place holds the sum of the items that got it. -/
theorem deliver_add {M : Type} [AddCommMonoid M] (soft : Nat → M) (w : Nat → M) (k : Nat)
    (list : List Nat) (i : Nat) :
    deliver (fun w k ind => Function.update w ind (w ind + soft k)) w k list i =
      w i + ∑ n ∈ Finset.range list.length, if list.getD n 0 = i then soft (k + n) else 0 := by
  induction list generalizing w k with
  | nil => rw [deliver, List.length_nil, Finset.range_zero, Finset.sum_empty, add_zero]
  | cons first rest ih =>
    rw [deliver, ih, List.length_cons, Finset.sum_range_succ']
    simp only [List.getD_cons_succ, List.getD_cons_zero, Nat.add_zero, Nat.add_assoc,
      Nat.add_comm 1]
    by_cases same : first = i
    · rw [same, Function.update_self, if_pos rfl, add_assoc, add_comm (soft k)]
    · rw [Function.update_of_ne (fun eq => same eq.symm), if_neg same, add_zero]

variable {live : Nat → Bool} {count size start ind : Nat}

theorem read_places {α : Type} (inside : ind < size) (alive : live ind = true)
    (w e : Nat → α) (j : Nat) :
    deliver (fun e k ind => Function.update e k (w ind)) e 0 (places live size start count) j =
      if j < count then w (place live size start count j) else e j := by
  rw [deliver_read, length_places inside alive, Nat.zero_add, Nat.sub_zero]
  simp only [Nat.zero_le, true_and]
  rfl

theorem add_places {M : Type} [AddCommMonoid M] (inside : ind < size) (alive : live ind = true)
    (soft w : Nat → M)
    (i : Nat) :
    deliver (fun w k ind => Function.update w ind (w ind + soft k)) w 0
      (places live size start count) i =
      w i + ∑ k ∈ Finset.range count, if place live size start count k = i then soft k else 0 := by
  rw [deliver_add, length_places inside alive]
  simp only [Nat.zero_add]
  rfl

end Effects

end OpenAir.Circular
