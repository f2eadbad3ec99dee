import OpenAir.Phy.Crc

/-! The five checks are remainders of polynomial division. -/
namespace OpenAir.Phy.Crc
open Polynomial BitPolynomial

/-- The generator of degree `n` with its other coefficients left-aligned in `poly`. -/
noncomputable def generator (n : Nat) (poly : BitVec 32) : (ZMod 2)[X] :=
  X ^ n + ofWord (poly >>> (32 - n))

/-- The polynomial of the first bits of a message, the first one in the highest bit of its byte. -/
noncomputable def message (inptr : Nat → Byte) (bitlen : Nat) : (ZMod 2)[X] :=
  ofString (fun i => (inptr (i / 8)).getMsbD (i % 8)) bitlen

/-- The generator with all its coefficients in 32 bits. -/
noncomputable def wideGenerator (poly : BitVec 32) : (ZMod 2)[X] := X ^ 32 + ofWord poly

/-- Polynomials up to multiples of it. -/
noncomputable abbrev residue (poly : BitVec 32) : (ZMod 2)[X] →+* AdjoinRoot (wideGenerator poly) :=
  AdjoinRoot.mk (wideGenerator poly)

/-- A register is the remainder of a polynomial shifted by 32, as far as the division goes. -/
def Remains (poly crc : BitVec 32) (m : (ZMod 2)[X]) : Prop :=
  residue poly (ofWord crc) = residue poly (m * X ^ 32)

section Register
variable {poly : BitVec 32}

theorem mk_wideGenerator : residue poly (ofWord poly) = residue poly (X ^ 32) := by
  rw [AdjoinRoot.mk_eq_mk, CharTwo.sub_eq_add, add_comm]
  exact dvd_refl _

theorem monic_wideGenerator : (wideGenerator poly).Monic := monic_X_pow_add (degree_ofWord_lt poly)

theorem degree_wideGenerator : (wideGenerator poly).degree = 32 := by
  rw [wideGenerator, degree_add_eq_left_of_degree_lt, degree_X_pow]
  · rfl
  · rw [degree_X_pow]
    exact degree_ofWord_lt poly

/-- Polynomials of a lower degree that agree up to multiples of the generator are the same. -/
theorem remainder_unique {a b : (ZMod 2)[X]} (first : a.degree < 32) (second : b.degree < 32)
    (same : residue poly a = residue poly b) : a = b := by
  rw [AdjoinRoot.mk_eq_mk] at same
  by_contra differ
  refine monic_wideGenerator.not_dvd_of_degree_lt (sub_ne_zero.mpr differ) ?_ same
  rw [degree_wideGenerator]
  exact lt_of_le_of_lt (degree_sub_le _ _) (max_lt first second)

theorem Remains.unique {a b : BitVec 32} {m : (ZMod 2)[X]} (first : Remains poly a m)
    (second : Remains poly b m) : a = b :=
  ofWord_injective
    (remainder_unique (degree_ofWord_lt a) (degree_ofWord_lt b) (first.trans second.symm))

theorem remains_zero : Remains poly 0 0 := by
  change residue poly (ofWord 0#32) = _
  rw [ofWord_zero, zero_mul]

theorem shiftOut_remains (d : BitVec 32) :
    residue poly (ofWord (shiftOut poly d)) = residue poly (ofWord d * X) := by
  have shift := ofWord_shiftLeft d (r := 1) (by decide)
  rw [pow_one, ofWord_highest] at shift
  rw [shift, map_add, map_mul, shiftOut]
  cases d.msb with
  | true =>
    rw [if_pos rfl, ofWord_xor, map_add, mk_wideGenerator]
    change _ = _ + residue poly (C 1) * _
    rw [C_1, map_one, one_mul]
  | false =>
    change residue poly (ofWord (d <<< 1)) = _ + residue poly (C 0) * _
    rw [C_0, map_zero, zero_mul, add_zero]

theorem shiftOuts_remains (k : Nat) (d : BitVec 32) :
    residue poly (ofWord ((shiftOut poly)^[k] d)) = residue poly (ofWord d * X ^ k) := by
  induction k with
  | zero => rw [Function.iterate_zero_apply, pow_zero, mul_one]
  | succ k ih =>
    rw [Function.iterate_succ_apply', shiftOut_remains, map_mul, ih, ← map_mul,
      mul_assoc, ← pow_succ]

theorem ofWord_top (v : Byte) : ofWord (v.setWidth 32 <<< 24) = ofWord v * X ^ 24 := by
  have clear : (v.setWidth 32 : BitVec 32) >>> (32 - 24) = 0#32 := by
    apply BitVec.eq_of_getLsbD_eq
    intro i _
    rw [BitVec.getLsbD_ushiftRight, BitVec.getLsbD_setWidth, BitVec.getLsbD_of_ge v _ (by omega),
      Bool.and_false, BitVec.getLsbD_zero]
  have same : ofWord (v.setWidth 32 : BitVec 32) = ofWord v :=
    ofWord_setWidth v fun i outside => BitVec.getLsbD_of_ge v i (by omega)
  have shift := ofWord_shiftLeft (v.setWidth 32 : BitVec 32) (r := 24) (by decide)
  rw [clear, ofWord_zero, zero_mul, add_zero, same] at shift
  exact shift.symm

theorem Shifted.remains {entry : Byte → BitVec 32} (shifted : Shifted poly entry)
    (v : Byte) : Remains poly (entry v) (ofWord v) := by
  rw [Remains, shifted v, shiftOuts_remains, ofWord_top, mul_assoc, ← pow_add]

theorem lastBits_remains {entry : Byte → BitVec 32} (shifted : Shifted poly entry) {crc : BitVec 32}
    {m : (ZMod 2)[X]}
    (remains : Remains poly crc m) (byte : Byte) {r : Nat} (short : r ≤ 8) :
    Remains poly (lastBits entry crc byte r) (m * X ^ r + ofString byte.getMsbD r) := by
  have high : ofWord ((crc >>> (32 - r)).setWidth 8 : Byte) = ofWord (crc >>> (32 - r)) :=
    ofWord_setWidth _ fun i outside => by
      rw [BitVec.getLsbD_ushiftRight, BitVec.getLsbD_of_ge crc _ (by omega)]
  have shift := ofWord_shiftLeft crc (r := r) (by omega)
  have entered := shifted.remains ((byte >>> (8 - r)) ^^^ (crc >>> (32 - r)).setWidth 8)
  rw [Remains, ofWord_xor, high, ← ofString_getMsbD byte short] at entered
  have held : residue poly (ofWord crc * X ^ r) = residue poly (m * X ^ 32 * X ^ r) := by
    rw [map_mul, map_mul _ (m * X ^ 32), remains]
  rw [shift] at held
  -- what the shift drops comes back through the table
  have split : residue poly (ofWord (crc <<< r)) =
      residue poly (m * X ^ 32 * X ^ r) - residue poly (ofWord (crc >>> (32 - r)) * X ^ 32) := by
    rw [← held, map_add, add_sub_cancel_right]
  rw [Remains, lastBits, ofWord_xor, map_add, entered, split, ← map_sub, ← map_add]
  refine congrArg (residue poly) ?_
  ring

theorem tableStep_eq (entry : Byte → BitVec 32) (crc : BitVec 32) (byte : Byte) :
    tableStep entry crc byte = lastBits entry crc byte 8 := by
  rw [tableStep, lastBits, Nat.sub_self, BitVec.ushiftRight_zero]

end Register

section Message
variable {inptr : Nat → Byte}

theorem message_add (k : Nat) {r : Nat} (short : r ≤ 8) :
    message inptr (8 * k + r) = message inptr (8 * k) * X ^ r + ofString (inptr k).getMsbD r := by
  rw [message, ofString_add]
  refine congrArg (_ + ·) (ofString_congr fun i within => ?_)
  rw [show (8 * k + i) / 8 = k by omega, show (8 * k + i) % 8 = i by omega]

theorem message_congr {other : Nat → Byte} {n : Nat} (same : ∀ i < n, inptr i = other i) :
    message inptr (8 * n) = message other (8 * n) :=
  ofString_congr fun i within => by rw [same (i / 8) (by omega)]

variable {poly : BitVec 32} {entry : Byte → BitVec 32}

theorem octets_remains (shifted : Shifted poly entry) (n : Nat) :
    Remains poly (octets (tableStep entry) inptr n) (message inptr (8 * n)) := by
  induction n with
  | zero => exact remains_zero
  | succ n ih =>
    rw [octets, tableStep_eq, Nat.mul_succ, message_add n (Nat.le_refl 8)]
    exact lastBits_remains shifted ih (inptr n) (Nat.le_refl 8)

theorem crcBytes_remains (shifted : Shifted poly entry) (bitlen : Nat) :
    Remains poly (crcBytes (tableStep entry) entry inptr bitlen) (message inptr bitlen) := by
  have whole := (@octets_remains inptr _ _) shifted (bitlen / 8)
  have cut : bitlen = 8 * (bitlen / 8) + bitlen % 8 := (Nat.div_add_mod bitlen 8).symm
  rw [crcBytes]
  split
  · rw [cut, message_add (bitlen / 8) (by omega), ← cut]
    exact lastBits_remains shifted whole (inptr (bitlen / 8)) (by omega)
  · next none =>
    rwa [show 8 * (bitlen / 8) = bitlen by omega] at whole

theorem crcbit_remains (n : Nat) : Remains poly (crcbit inptr poly n) (message inptr (8 * n)) := by
  induction n with
  | zero => exact remains_zero
  | succ n ih =>
    have gone : ((inptr n).setWidth 32 <<< 24 : BitVec 32) <<< 8 = 0#32 := by
      rw [← BitVec.shiftLeft_add]
      exact BitVec.shiftLeft_eq_zero (Nat.le_refl 32)
    have byte : ofString (inptr n).getMsbD 8 = ofWord (inptr n) := by
      rw [ofString_getMsbD _ (Nat.le_refl 8), Nat.sub_self, BitVec.ushiftRight_zero]
    rw [Remains] at ih
    rw [Remains, crcbit, crcbitBits_eq, gone, BitVec.xor_zero, shiftOuts_remains, ofWord_xor,
      ofWord_top, add_mul, map_add, map_mul _ (ofWord (crcbit inptr poly n)), ih, ← map_mul,
        ← map_add, Nat.mul_succ, message_add n (Nat.le_refl 8), byte]
    refine congrArg (residue poly) ?_
    ring

end Message

section Generator
variable {n : Nat} {poly : BitVec 32}

/-- The bits of the generator stand in the highest `n` bits. -/
def Aligned (n : Nat) (poly : BitVec 32) : Prop := n ≤ 32 ∧ poly >>> (32 - n) <<< (32 - n) = poly

instance (n : Nat) (poly : BitVec 32) : Decidable (Aligned n poly) :=
  inferInstanceAs (Decidable (_ ∧ _))

theorem degree_generator (aligned : Aligned n poly) : (ofWord (poly >>> (32 - n))).degree < n := by
  rw [degree_lt_iff_coeff_zero]
  intro i outside
  have small := aligned.1
  rw [coeff_ofWord, BitVec.getLsbD_ushiftRight, BitVec.getLsbD_of_ge poly _ (by omega)]
  rfl

theorem wideGenerator_eq (aligned : Aligned n poly) :
    wideGenerator poly = generator n poly * X ^ (32 - n) := by
  have small := aligned.1
  have shift := ofWord_shiftLeft (poly >>> (32 - n)) (Nat.sub_le 32 n)
  rw [aligned.2, ← BitVec.shiftRight_add, show 32 - n + (32 - (32 - n)) = 32 by
    omega, BitVec.ushiftRight_eq_zero (Nat.le_refl 32), ofWord_zero, zero_mul, add_zero] at shift
  rw [generator, add_mul, shift, ← pow_add, Nat.add_sub_cancel' small, wideGenerator]

theorem Remains.eq_remainder {crc : BitVec 32} {m : (ZMod 2)[X]} (remains : Remains poly crc m)
    (aligned : Aligned n poly) :
    ofWord crc = ((m * X ^ n) %ₘ generator n poly) * X ^ (32 - n) := by
  have small := aligned.1
  have monic : (generator n poly).Monic := monic_X_pow_add (degree_generator aligned)
  have degree : (generator n poly).degree = n := by
    rw [generator, degree_add_eq_left_of_degree_lt, degree_X_pow]
    rw [degree_X_pow]
    exact degree_generator aligned
  have below : ((m * X ^ n) %ₘ generator n poly).degree < n := degree ▸ degree_modByMonic_lt _ monic
  refine remainder_unique (degree_ofWord_lt crc) ?_ (Eq.trans remains ?_)
  · change _ < ((32 : Nat) : WithBot Nat)
    rw [degree_lt_iff_coeff_zero] at below ⊢
    intro i outside
    rw [coeff_mul_X_pow', if_pos (by omega)]
    exact below _ (by omega)
  · rw [AdjoinRoot.mk_eq_mk, wideGenerator_eq aligned]
    refine ⟨(m * X ^ n) /ₘ generator n poly, ?_⟩
    have division := modByMonic_add_div (m * X ^ n) (generator n poly)
    have wide : m * X ^ 32 = m * X ^ n * X ^ (32 - n) := by
      rw [mul_assoc, ← pow_add, Nat.add_sub_cancel' small]
    rw [wide]
    nth_rewrite 1 [← division]
    ring

theorem Remains.shiftLeft {crc : BitVec 32} {m : (ZMod 2)[X]} (remains : Remains poly crc m)
    (aligned : Aligned n poly) :
    crc <<< n = 0#32 := by
  have low : ∀ i < 32 - n, crc.getLsbD i = false := by
    intro i below
    apply coefficient_injective
    rw [← coeff_ofWord, remains.eq_remainder aligned, coeff_mul_X_pow',
      if_neg (Nat.not_le.mpr below)]
    rfl
  apply BitVec.eq_of_getLsbD_eq
  intro i inside
  rw [BitVec.getLsbD_shiftLeft, BitVec.getLsbD_zero]
  by_cases high : i < n
  · rw [decide_eq_true high, Bool.not_true, Bool.and_false, Bool.false_and]
  · rw [low (i - n) (by omega), Bool.and_false]

end Generator

/-- A check returns the remainder of the message times `D ^ n`, left-aligned, and for whole bytes
what `crcbit` does. -/
structure IsCrc (n : Nat) (poly : BitVec 32) (crc : (Nat → Byte) → Nat → BitVec 32) : Prop where
  remainder : ∀ inptr bitlen,
    ofWord (crc inptr bitlen) = ((message inptr bitlen * X ^ n) %ₘ generator n poly) * X ^ (32 - n)
  whole : ∀ inptr octetlen, crc inptr (8 * octetlen) = crcbit inptr poly octetlen

/-- A message of `k` bytes with the bytes of its check behind it. -/
def followedBy (inptr : Nat → Byte) (k : Nat) (crc : BitVec 32) (i : Nat) : Byte :=
  if i < k then inptr i else crc.extractLsb' (24 - 8 * (i - k)) 8

def ChecksItself (n : Nat) (crc : (Nat → Byte) → Nat → BitVec 32) : Prop :=
  ∀ inptr k, crc (followedBy inptr k (crc inptr (8 * k))) (8 * k + n) = 0

section Checks
variable {n : Nat} {poly : BitVec 32} {entry : Byte → BitVec 32}
    {crc : (Nat → Byte) → Nat → BitVec 32}

theorem isCrc_of_remains (aligned : Aligned n poly)
    (remains : ∀ inptr bitlen, Remains poly (crc inptr bitlen) (message inptr bitlen)) :
    IsCrc n poly crc where
  remainder inptr bitlen := (remains inptr bitlen).eq_remainder aligned
  whole inptr octetlen := (remains inptr (8 * octetlen)).unique (crcbit_remains octetlen)

theorem message_followedBy (inptr : Nat → Byte) (k : Nat) (value : BitVec 32) {m : Nat}
    (short : m ≤ 32) :
    message (followedBy inptr k value) (8 * k + m) = message inptr (8 * k) * X ^ m +
    ofWord (value >>> (32 - m)) := by
  have before : message (followedBy inptr k value) (8 * k) = message inptr (8 * k) :=
    message_congr fun i within => if_pos within
  have behind :
    ofString (fun i => (followedBy inptr k value ((8 * k + i) / 8)).getMsbD ((8 * k + i) % 8)) m =
      ofString value.getMsbD m := by
    refine ofString_congr fun i within => ?_
    rw [followedBy, if_neg (by omega), BitVec.getMsbD, BitVec.getLsbD_extractLsb', BitVec.getMsbD,
      decide_eq_true (by omega), decide_eq_true (by omega), decide_eq_true (by omega),
        Bool.true_and, Bool.true_and, Bool.true_and]
    exact congrArg value.getLsbD (by omega)
  rw [message, ofString_add, behind, ofString_getMsbD value short]
  rw [message] at before
  rw [before]

theorem checksItself_of_remains (aligned : Aligned n poly)
    (remains : ∀ inptr bitlen, Remains poly (crc inptr bitlen) (message inptr bitlen)) :
    ChecksItself n crc := by
  intro inptr k
  have first := remains inptr (8 * k)
  have second := remains (followedBy inptr k (crc inptr (8 * k))) (8 * k + n)
  rw [message_followedBy inptr k _ aligned.1] at second
  refine second.unique ?_
  have shift := ofWord_shiftLeft (crc inptr (8 * k)) aligned.1
  rw [first.shiftLeft aligned, ofWord_zero, zero_add] at shift
  rw [Remains] at first
  change residue poly (ofWord 0#32) = _
  rw [ofWord_zero, map_zero, add_mul, ← shift, map_add, mul_right_comm, map_mul, ← first, ← map_mul,
    ← map_add, CharTwo.add_self_eq_zero, map_zero]

/-- The loop of `crc8` leaves out a shift that would give zero. -/
theorem octets_unshifted (shifted : Shifted poly entry) (aligned : Aligned 8 poly)
    (inptr : Nat → Byte) (k : Nat) :
    octets (fun crc byte => entry (byte ^^^ (crc >>> 24).setWidth 8)) inptr k =
    octets (tableStep entry) inptr k := by
  induction k with
  | zero => rfl
  | succ k ih =>
    have empty := ((@octets_remains inptr _ _) shifted k).shiftLeft aligned
    rw [octets, octets, ih, tableStep, empty, BitVec.zero_xor]

theorem crc8_eq (inptr : Nat → Byte) (bitlen : Nat) :
    crc8 inptr bitlen = crcBytes (tableStep entry8) entry8 inptr bitlen := by
  have aligned : Aligned 8 poly8 := by decide
  rw [crc8, crcBytes, crcBytes, octets_unshifted entry8_shifted aligned]

end Checks

/-- The five checks are the remainders of their generators, and three of them find themselves. -/
theorem crcs_divide :
    (IsCrc 24 poly24a crc24a ∧ IsCrc 24 poly24b crc24b ∧ IsCrc 16 poly16 crc16 ∧
      IsCrc 12 poly12 crc12 ∧ IsCrc 8 poly8 crc8) ∧
      ChecksItself 24 crc24a ∧ ChecksItself 24 crc24b ∧ ChecksItself 16 crc16 := by
  have a24 : ∀ inptr bitlen, Remains poly24a (crc24a inptr bitlen) (message inptr bitlen) :=
    fun _ => crcBytes_remains entry24a_shifted
  have b24 : ∀ inptr bitlen, Remains poly24b (crc24b inptr bitlen) (message inptr bitlen) :=
    fun _ => crcBytes_remains entry24b_shifted
  have c16 : ∀ inptr bitlen, Remains poly16 (crc16 inptr bitlen) (message inptr bitlen) :=
    fun _ => crcBytes_remains entry16_shifted
  have c12 : ∀ inptr bitlen, Remains poly12 (crc12 inptr bitlen) (message inptr bitlen) :=
    fun _ => crcBytes_remains entry12_shifted
  have c8 : ∀ inptr bitlen, Remains poly8 (crc8 inptr bitlen) (message inptr bitlen) := by
    intro inptr bitlen
    rw [crc8_eq]
    exact crcBytes_remains entry8_shifted bitlen
  exact ⟨⟨isCrc_of_remains (by decide) a24, isCrc_of_remains (by decide) b24,
    isCrc_of_remains (by decide) c16,
    isCrc_of_remains (by decide) c12, isCrc_of_remains (by decide) c8⟩,
    checksItself_of_remains (by decide) a24, checksItself_of_remains (by decide) b24,
      checksItself_of_remains (by decide) c16⟩

end OpenAir.Phy.Crc
