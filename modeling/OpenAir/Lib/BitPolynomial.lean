import Mathlib.Algebra.CharP.Two
import Mathlib.Algebra.Field.ZMod
import Mathlib.Algebra.Polynomial.Div
import Mathlib.RingTheory.AdjoinRoot

/-! Words and strings of bits as polynomials over the field of two elements. -/
namespace OpenAir.BitPolynomial
open Polynomial

def coefficient (bit : Bool) : ZMod 2 := if bit then 1 else 0

theorem coefficient_xor (a b : Bool) : coefficient (a ^^ b) = coefficient a + coefficient b := by
  cases a <;> cases b <;> rfl

theorem coefficient_injective : Function.Injective coefficient := by
  intro a b same
  cases a <;> cases b <;> first | rfl | exact absurd same (by decide)

/-- The polynomial of a word: bit `i` belongs to `X ^ i`. -/
noncomputable def ofWord {w : Nat} (word : BitVec w) : (ZMod 2)[X] :=
  ∑ i ∈ Finset.range w, C (coefficient (word.getLsbD i)) * X ^ i

/-- The polynomial of the first bits of a string: the first bit has the highest power. -/
noncomputable def ofString (bits : Nat → Bool) : Nat → (ZMod 2)[X]
  | 0 => 0
  | n + 1 => ofString bits n * X + C (coefficient (bits n))

section Words
variable {w : Nat}

theorem coeff_ofWord (word : BitVec w)
    (i : Nat) : (ofWord word).coeff i = coefficient (word.getLsbD i) := by
  simp only [ofWord, finsetSum_coeff, coeff_C_mul, coeff_X_pow, mul_ite, mul_one, mul_zero]
  rw [Finset.sum_ite_eq]
  split
  · rfl
  · next outside =>
    rw [BitVec.getLsbD_of_ge word i
      (Nat.le_of_not_lt fun inside => outside (Finset.mem_range.mpr inside))]
    rfl

theorem ofWord_injective : Function.Injective (@ofWord w) := by
  intro a b same
  apply BitVec.eq_of_getLsbD_eq
  intro i _
  apply coefficient_injective
  rw [← coeff_ofWord, ← coeff_ofWord, same]

theorem ofWord_zero : ofWord 0#w = 0 := by
  ext i
  rw [coeff_ofWord, coeff_zero, BitVec.getLsbD_zero]
  rfl

theorem ofWord_xor (a b : BitVec w) : ofWord (a ^^^ b) = ofWord a + ofWord b := by
  ext i
  rw [coeff_add, coeff_ofWord, coeff_ofWord, coeff_ofWord, BitVec.getLsbD_xor, coefficient_xor]

theorem degree_ofWord_lt (word : BitVec w) : (ofWord word).degree < w := by
  rw [degree_lt_iff_coeff_zero]
  intro i outside
  rw [coeff_ofWord, BitVec.getLsbD_of_ge word i outside]
  rfl

/-- What a shift to the left drops is what the opposite shift keeps. -/
theorem ofWord_shiftLeft (word : BitVec w) {r : Nat} (short : r ≤ w) :
    ofWord word * X ^ r = ofWord (word <<< r) + ofWord (word >>> (w - r)) * X ^ w := by
  ext i
  rw [coeff_add, coeff_mul_X_pow', coeff_mul_X_pow', coeff_ofWord, coeff_ofWord, coeff_ofWord,
    BitVec.getLsbD_shiftLeft, BitVec.getLsbD_ushiftRight]
  rcases Nat.lt_or_ge i w with inside | outside
  · rw [if_neg (Nat.not_le.mpr inside), add_zero]
    rcases Nat.lt_or_ge i r with low | high
    · rw [if_neg (Nat.not_le.mpr low), decide_eq_true low]
      simp only [Bool.not_true, Bool.and_false, Bool.false_and]
      rfl
    · rw [if_pos high, decide_eq_true inside, decide_eq_false (Nat.not_lt.mpr high)]
      simp only [Bool.not_false, Bool.and_self, Bool.true_and]
  · rw [if_pos (short.trans outside), if_pos outside, decide_eq_false (Nat.not_lt.mpr outside),
      show w - r + (i - w) = i - r by omega]
    simp only [Bool.false_and]
    exact (zero_add _).symm

theorem ofWord_highest (word : BitVec (w + 1)) :
    ofWord (word >>> w) = C (coefficient word.msb) := by
  ext i
  rw [coeff_ofWord, BitVec.getLsbD_ushiftRight, coeff_C]
  cases i with
  | zero => rfl
  | succ i =>
    rw [BitVec.getLsbD_of_ge word _ (by omega), if_neg (Nat.succ_ne_zero i)]
    rfl

theorem ofWord_setWidth {v : Nat} (word : BitVec w) (clear : ∀ i, v ≤ i → word.getLsbD i = false) :
    ofWord (word.setWidth v) = ofWord word := by
  ext i
  rw [coeff_ofWord, coeff_ofWord, BitVec.getLsbD_setWidth]
  rcases Nat.lt_or_ge i v with inside | outside
  · rw [decide_eq_true inside, Bool.true_and]
  · rw [clear i outside, Bool.and_false]

end Words

section Strings
variable {bits : Nat → Bool}

theorem ofString_congr {other : Nat → Bool} {n : Nat} (same : ∀ i < n, bits i = other i) :
    ofString bits n = ofString other n := by
  induction n with
  | zero => rfl
  | succ n ih =>
    rw [ofString, ofString,
      ih fun i before => same i (Nat.lt_succ_of_lt before), same n (Nat.lt_succ_self n)]

theorem ofString_add
    (m n : Nat) :
    ofString bits (m + n) = ofString bits m * X ^ n + ofString (fun i => bits (m + i)) n := by
  induction n with
  | zero => rw [Nat.add_zero, pow_zero, mul_one, ofString, add_zero]
  | succ n ih =>
    rw [← Nat.add_assoc, ofString, ih, ofString]
    ring

theorem ofString_getMsbD {w : Nat} (word : BitVec w) {n : Nat} (short : n ≤ w) :
    ofString word.getMsbD n = ofWord (word >>> (w - n)) := by
  induction n with
  | zero =>
    ext i
    rw [ofString, coeff_zero, coeff_ofWord, BitVec.getLsbD_ushiftRight,
      BitVec.getLsbD_of_ge word _ (by omega)]
    rfl
  | succ n ih =>
    rw [ofString, ih (Nat.le_of_succ_le short)]
    ext i
    rw [coeff_add, coeff_ofWord, BitVec.getLsbD_ushiftRight]
    cases i with
    | zero =>
      rw [mul_coeff_zero, coeff_X_zero, mul_zero, zero_add, coeff_C_zero, BitVec.getMsbD,
        decide_eq_true (by omega : n < w), Bool.true_and]
      exact congrArg (fun k => coefficient (word.getLsbD k)) (by omega)
    | succ i =>
      rw [coeff_mul_X, coeff_C_succ, add_zero, coeff_ofWord, BitVec.getLsbD_ushiftRight]
      exact congrArg (fun k => coefficient (word.getLsbD k)) (by omega)

end Strings

end OpenAir.BitPolynomial
