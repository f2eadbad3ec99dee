import Mathlib.Data.List.Basic

/-! Sequences of bits in which each is the sum of some before it, and words that hold a stretch of
such a sequence. -/
namespace OpenAir.Recurrence

/-- The sequence that starts with `init`; bit `n + order` is the sum of the bits `n + t` for the
taps. -/
def sequence (order : Nat) (taps : List (Fin order)) (init : Nat → Bool) (n : Nat) : Bool :=
  if n < order then init n
  else (taps.map fun tap : Fin order => sequence order taps init (n - order + tap.val)).foldr xor
    false
termination_by n
decreasing_by
  have inside := tap.isLt
  omega

variable {order : Nat} {taps : List (Fin order)} {init : Nat → Bool}

theorem sequence_start {n : Nat} (early : n < order) : sequence order taps init n = init n := by
  rw [sequence, if_pos early]

theorem sequence_next (n : Nat) :
    sequence order taps init (n + order) =
    (taps.map fun tap : Fin order => sequence order taps init (n + tap.val)).foldr xor false := by
  rw [sequence, if_neg (Nat.not_lt.mpr (Nat.le_add_left order n)), Nat.add_sub_cancel]

/-- The word holds the bits of the sequence from `n` on, the first one lowest. -/
def Holds {w : Nat} (word : BitVec w) (s : Nat → Bool) (n : Nat) : Prop :=
  ∀ i < w, word.getLsbD i = s (n + i)

theorem Holds.xor {w n : Nat} {a b : BitVec w} {s t : Nat → Bool} (first : Holds a s n)
    (second : Holds b t n) :
    Holds (a ^^^ b) (fun i => s i ^^ t i) n := by
  intro i inside
  rw [BitVec.getLsbD_xor, first i inside, second i inside]

end OpenAir.Recurrence
