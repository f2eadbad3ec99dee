import Mathlib.Data.List.Basic

/-! Serial numbers: numbers below a modulus, ordered by how far they lie ahead of
a base that moves. -/
namespace OpenAir.Serial

/-- How far `x` lies ahead of `base`. -/
def dist (m base x : Nat) : Nat := (x + m - base) % m

variable {m base x y k : Nat}

theorem dist_eq (below : base < m) (valid : x < m) :
    dist m base x = if base ≤ x then x - base else x + m - base := by
  unfold dist
  split
  · rw [show x + m - base = x - base + m by omega, Nat.add_mod_right, Nat.mod_eq_of_lt (by omega)]
  · exact Nat.mod_eq_of_lt (by omega)

theorem dist_lt (below : base < m) : dist m base x < m := Nat.mod_lt _ (by omega)

@[simp] theorem dist_self (m base : Nat) : dist m base base = 0 := by
  simp [dist]

theorem succ_mod (valid : x < m) : (x + 1) % m = if x + 1 = m then 0 else x + 1 := by
  split
  · rename_i last
    rw [last, Nat.mod_self]
  · exact Nat.mod_eq_of_lt (by omega)

theorem dist_inj (below : base < m) (left : x < m) (right : y < m)
    (same : dist m base x = dist m base y) : x = y := by
  rw [dist_eq below left, dist_eq below right] at same
  split at same <;> split at same <;> omega

theorem add_mod_turn (below : base < m) (turn : k ≤ m) :
    (base + k) % m = if base + k < m then base + k else base + k - m := by
  split
  · exact Nat.mod_eq_of_lt ‹_›
  · rw [Nat.mod_eq_sub_mod (by omega), Nat.mod_eq_of_lt (by omega)]

theorem dist_add (below : base < m) (small : k < m) : dist m base ((base + k) % m) = k := by
  rw [dist_eq below (Nat.mod_lt _ (by omega)), add_mod_turn below (Nat.le_of_lt small)]
  split <;> split <;> omega

theorem add_dist (below : base < m) (valid : x < m) : (base + dist m base x) % m = x :=
  dist_inj below (Nat.mod_lt _ (by omega)) valid (dist_add below (dist_lt below))

/-- Numbers that are counted on without end, less than one turn apart. -/
theorem dist_mod (ahead : x ≤ y) (turn : y < x + m) : dist m (x % m) (y % m) = y - x := by
  have place : (x % m + (y - x)) % m = y % m := by
    rw [Nat.mod_add_mod, Nat.add_sub_cancel' ahead]
  rw [← place]
  exact dist_add (Nat.mod_lt _ (by omega)) (by omega)

theorem dist_succ (below : base < m) (valid : x < m) (turn : dist m base x + 1 < m) :
    dist m base ((x + 1) % m) = dist m base x + 1 := by
  rw [dist_eq below valid] at turn ⊢
  rw [dist_eq below (Nat.mod_lt _ (by omega)), succ_mod valid]
  by_cases ahead : base ≤ x
  · simp only [ahead, if_true] at turn ⊢
    split <;> split <;> omega
  · simp only [ahead, if_false] at turn ⊢
    split <;> split <;> omega

/-- Distances from a base that has moved ahead. -/
theorem dist_rebase {next : Nat} (below : base < m) (nextBelow : next < m) (valid : x < m)
    (ahead : dist m base next ≤ dist m base x) :
    dist m next x = dist m base x - dist m base next := by
  rw [dist_eq below nextBelow, dist_eq below valid] at ahead
  rw [dist_eq nextBelow valid, dist_eq below nextBelow, dist_eq below valid]
  split at ahead <;> split at ahead <;> split <;> omega

/-- `count` successive serial numbers from `base` on. -/
def span (m base count : Nat) : List Nat := (List.range count).map fun k => (base + k) % m

theorem mem_span {count : Nat} (below : base < m) (turn : count ≤ m) (valid : x < m) :
    x ∈ span m base count ↔ dist m base x < count := by
  constructor
  · intro member
    obtain ⟨k, inside, rfl⟩ := List.mem_map.mp member
    rw [dist_add below (by have := List.mem_range.mp inside; omega)]
    exact List.mem_range.mp inside
  · intro inside
    exact List.mem_map.mpr ⟨dist m base x, List.mem_range.mpr inside, add_dist below valid⟩

theorem span_lt {count : Nat} (below : base < m) (member : x ∈ span m base count) : x < m := by
  obtain ⟨k, -, rfl⟩ := List.mem_map.mp member
  exact Nat.mod_lt _ (by omega)

theorem span_succ {count : Nat} :
    span m base (count + 1) = base % m :: span m ((base + 1) % m) count := by
  simp only [span, List.range_succ_eq_map, List.map_cons, List.map_map, Nat.add_zero,
    List.cons.injEq, true_and]
  apply List.map_congr_left
  intro k _
  simp only [Function.comp_apply, Nat.mod_add_mod]
  congr 1
  omega

end OpenAir.Serial
