import Mathlib.Data.Nat.Bitwise
import Mathlib.Tactic.Ring

/-! Memory seen as one string of bits, most significant bit of every byte first.
A field of `n` bits is read as a number at any bit position, so the alignment of
a packed field never appears in a statement. -/
namespace OpenAir.BitField

/-- The bytes found from an address on. Nothing says how many of them were received. -/
abbrev Memory := Nat → UInt8

def bitAt (mem : Memory) (i : Nat) : Bool := (mem (i / 8)).toNat.testBit (7 - i % 8)

theorem bitAt_byte {mem : Memory} {a k : Nat} (inside : k < 8) :
    bitAt mem (8 * a + k) = (mem a).toNat.testBit (7 - k) := by
  have quotient : (8 * a + k) / 8 = a := by omega
  have remainder : (8 * a + k) % 8 = k := by omega
  rw [bitAt, quotient, remainder]

/-- The unsigned number written on the `n` bits from `pos` on. -/
def valueAt (mem : Memory) (pos : Nat) : Nat → Nat
  | 0 => 0
  | n + 1 => 2 * valueAt mem pos n + (bitAt mem (pos + n)).toNat

@[simp] theorem valueAt_zero (mem : Memory) (pos : Nat) : valueAt mem pos 0 = 0 := rfl

theorem valueAt_lt (mem : Memory) (pos n : Nat) : valueAt mem pos n < 2 ^ n := by
  induction n with
  | zero => simp
  | succ n ih =>
    have bit : (bitAt mem (pos + n)).toNat ≤ 1 := Bool.toNat_le _
    simp only [valueAt, Nat.pow_succ]
    omega

theorem testBit_valueAt (mem : Memory) (pos n j : Nat) :
    (valueAt mem pos n).testBit j = (decide (j < n) && bitAt mem (pos + n - 1 - j)) := by
  induction n generalizing j with
  | zero => simp
  | succ n ih =>
    cases j with
    | zero =>
      cases bit : bitAt mem (pos + n) <;> simp [valueAt, bit, Nat.add_mod]
    | succ j =>
      have half : valueAt mem pos (n + 1) / 2 = valueAt mem pos n := by
        have := Bool.toNat_le (bitAt mem (pos + n))
        simp only [valueAt]
        omega
      rw [Nat.testBit_succ, half, ih]
      congr 2
      · simp
      · omega

theorem valueAt_congr {mem mem' : Memory} {pos n : Nat}
    (same : ∀ i, pos ≤ i → i < pos + n → bitAt mem i = bitAt mem' i) :
    valueAt mem pos n = valueAt mem' pos n := by
  induction n with
  | zero => rfl
  | succ n ih =>
    rw [valueAt, valueAt, ih (fun i lower upper => same i lower (by omega)),
      same (pos + n) (by omega) (by omega)]

/-- A number is determined by its bits, so a field reads back as the value whose
bits memory holds. -/
theorem valueAt_eq {mem : Memory} {pos n value : Nat} (fits : value < 2 ^ n)
    (bits : ∀ j < n, bitAt mem (pos + n - 1 - j) = value.testBit j) :
    valueAt mem pos n = value := by
  apply Nat.eq_of_testBit_eq
  intro j
  rw [testBit_valueAt]
  by_cases inside : j < n
  · simp [inside, bits j inside]
  · have : value.testBit j = false :=
      Nat.testBit_lt_two_pow (fits.trans_le (Nat.pow_le_pow_right (by decide) (by omega)))
    simp [inside, this]

theorem valueAt_add (mem : Memory) (pos m n : Nat) :
    valueAt mem pos (m + n) = valueAt mem pos m * 2 ^ n + valueAt mem (pos + m) n := by
  induction n with
  | zero => simp
  | succ n ih =>
    rw [← Nat.add_assoc, valueAt, ih, valueAt, Nat.pow_succ, Nat.add_assoc pos]
    ring

theorem shift_and_mask (mem : Memory) (a shift n : Nat) (inside : shift + n ≤ 8) :
    ((mem a).toNat >>> shift) &&& (2 ^ n - 1) = valueAt mem (8 * a + (8 - shift - n)) n := by
  symm
  rw [Nat.and_two_pow_sub_one_eq_mod]
  apply valueAt_eq (Nat.mod_lt _ (Nat.two_pow_pos n))
  intro j within
  have place : 8 * a + (8 - shift - n) + n - 1 - j = 8 * a + (7 - shift - j) := by omega
  have index : 7 - (7 - shift - j) = shift + j := by omega
  rw [place, bitAt_byte (by omega), index, Nat.testBit_mod_two_pow, Nat.testBit_shiftRight]
  simp [within]

theorem valueAt_byte (mem : Memory) (a : Nat) : valueAt mem (8 * a) 8 = (mem a).toNat := by
  have whole := shift_and_mask mem a 0 8 (Nat.le_refl _)
  rw [Nat.and_two_pow_sub_one_eq_mod, Nat.shiftRight_zero, Nat.mod_eq_of_lt (UInt8.toNat_lt _)]
    at whole
  exact whole.symm

theorem flag_at (mem : Memory) (a shift : Nat) (inside : shift < 8) :
    (((mem a).toNat >>> shift) &&& 0x01 != 0) = bitAt mem (8 * a + (7 - shift)) := by
  have field := shift_and_mask mem a shift 1 inside
  have place : 8 - shift - 1 = 7 - shift := by omega
  rw [place] at field
  rw [show (0x01 : Nat) = 2 ^ 1 - 1 by rfl, field]
  simp only [valueAt, Nat.mul_zero, Nat.zero_add, Nat.add_zero]
  cases bitAt mem (8 * a + (7 - shift)) <;> rfl

/-- Consecutive fields, each with its width, found from `pos` on. -/
def Holds (mem : Memory) : Nat → List (Nat × Nat) → Prop
  | _, [] => True
  | pos, (width, value) :: rest => valueAt mem pos width = value ∧ Holds mem (pos + width) rest

def widths (fields : List (Nat × Nat)) : Nat := (fields.map Prod.fst).sum

theorem widths_append (first second : List (Nat × Nat)) :
    widths (first ++ second) = widths first + widths second := by
  simp [widths]

theorem holds_append {mem : Memory} {pos : Nat} {first second : List (Nat × Nat)} :
    Holds mem pos (first ++ second) ↔ Holds mem pos first ∧
    Holds mem (pos + widths first) second := by
  induction first generalizing pos with
  | nil => simp [Holds, widths]
  | cons field rest ih =>
    simp only [List.cons_append, Holds, ih, widths, List.map_cons, List.sum_cons, Nat.add_assoc,
      and_assoc]

theorem holds_congr {mem mem' : Memory} {pos : Nat} {fields : List (Nat × Nat)}
    (same : ∀ i, pos ≤ i → i < pos + widths fields → bitAt mem i = bitAt mem' i)
    (holds : Holds mem pos fields) : Holds mem' pos fields := by
  induction fields generalizing pos with
  | nil => trivial
  | cons field rest ih =>
    obtain ⟨width, value⟩ := field
    simp only [widths, List.map_cons, List.sum_cons] at same
    refine ⟨?_, ih (fun i lower upper => same i (by omega) ?_) holds.2⟩
    · rw [← holds.1]
      exact valueAt_congr fun i lower upper => (same i lower (by omega)).symm
    · simp only [widths] at upper
      omega

/-- Every bit from `pos` on, up to `stop`, is clear. -/
def Clear (mem : Memory) (pos stop : Nat) : Prop := ∀ i, pos ≤ i → i < stop → bitAt mem i = false

theorem clear_of_bytes {mem : Memory} {size : Nat} (zero : ∀ a < size, mem a = 0) (pos : Nat) :
    Clear mem pos (8 * size) := by
  intro i _ upper
  simp [bitAt, zero (i / 8) (by omega)]

end OpenAir.BitField
