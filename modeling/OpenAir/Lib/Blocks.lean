import Mathlib.Data.List.Basic

/-! Lists of blocks that all have one width. -/
namespace OpenAir.Blocks

variable {α : Type} {f : Nat → List α} {width count : Nat}

theorem flatMap_range_length (wide : ∀ r, (f r).length = width) (count : Nat) :
    ((List.range count).flatMap f).length = width * count := by
  induction count with
  | zero => rfl
  | succ count ih =>
    rw [List.range_succ, List.flatMap_append, List.length_append, ih, List.flatMap_singleton,
      wide, Nat.mul_succ]

theorem flatMap_range_getElem? (wide : ∀ r, (f r).length = width) {r i : Nat} (inside : r < count)
    (small : i < width) :
    ((List.range count).flatMap f)[width * r + i]? = (f r)[i]? := by
  have lengths := flatMap_range_length wide
  induction count with
  | zero => cases inside
  | succ count ih =>
    rw [List.range_succ, List.flatMap_append, List.flatMap_singleton]
    by_cases last : r = count
    · subst last
      rw [List.getElem?_append_right (by rw [lengths]; exact Nat.le_add_right ..), lengths,
        Nat.add_sub_cancel_left]
    · have earlier : r < count := Nat.lt_of_le_of_ne (Nat.le_of_lt_succ inside) last
      have short : width * r + i < width * count :=
        calc width * r + i < width * r + width := Nat.add_lt_add_left small _
          _ = width * (r + 1) := (Nat.mul_succ ..).symm
          _ ≤ width * count := Nat.mul_le_mul_left _ earlier
      rw [List.getElem?_append_left (by rw [lengths]; exact short)]
      exact ih earlier

theorem flatMap_range_consecutive (g : Nat → α) (width count : Nat) :
    ((List.range count).flatMap fun r => (List.range width).map fun i => g (width * r + i)) =
    (List.range (width * count)).map g := by
  induction count with
  | zero => rfl
  | succ count ih =>
    rw [List.range_succ, List.flatMap_append, ih, List.flatMap_singleton, Nat.mul_succ,
      List.range_add, List.map_append, List.map_map]
    rfl

end OpenAir.Blocks
