import OpenAir.Rlc.Am.StatusPdu

/-! The bit cursors of the STATUS PDU read and write the bit string of `BitField`,
at every alignment. -/
namespace OpenAir.Rlc.Am
open BitField

theorem testBit_mask (k j : Nat) : (0xFF >>> k).testBit j = decide (j + k < 8) := by
  have : (0xFF : Nat) = 2 ^ 8 - 1 := by decide
  rw [Nat.testBit_shiftRight, this, Nat.testBit_two_pow_sub_one, Nat.add_comm]

/-- The reader accumulates the bits from the cursor on, below those already read. -/
theorem readBitFieldLoop_spec (mem : Memory) (rounds : Nat) (c : Cursor) (bits value read : Nat)
    (enough : bits ≤ rounds) (some : 0 < bits) (aligned : c.bit < 8) (room : read + bits ≤ 16)
    (fits : value < 2 ^ read) :
    (∀ j, (readBitFieldLoop mem rounds c bits value).1.testBit j =
      if j < bits then bitAt mem (c.pos + bits - 1 - j) else value.testBit (j - bits)) ∧
    (readBitFieldLoop mem rounds c bits value).2.pos = c.pos + bits ∧
    (readBitFieldLoop mem rounds c bits value).2.bit < 8 := by
  induction rounds generalizing c bits value read with
  | zero => omega
  | succ rounds ih =>
    have high : ∀ j, read ≤ j → value.testBit j = false := fun j hj =>
      Nat.testBit_lt_two_pow (fits.trans_le (Nat.pow_le_pow_right (by decide) hj))
    simp only [readBitFieldLoop]
    split
    · rename_i more
      refine ⟨fun j => ?_, ?_, ?_⟩
      · rw [Nat.testBit_mod_two_pow, Nat.testBit_or, Nat.testBit_shiftLeft, Nat.testBit_shiftRight,
          Nat.testBit_and, testBit_mask]
        by_cases inside : j < bits
        · have place : c.pos + bits - 1 - j = 8 * c.byte + (c.bit + bits - 1 - j) := by
            simp only [Cursor.pos]; omega
          have index : 8 - c.bit - bits + j = 7 - (c.bit + bits - 1 - j) := by omega
          rw [if_pos inside, place, bitAt_byte (by omega), index]
          have : 7 - (c.bit + bits - 1 - j) + c.bit < 8 := by omega
          simp [show ¬ bits ≤ j by omega, this, show j < 16 by omega]
        · rw [if_neg inside]
          have : ¬ 8 - c.bit - bits + j + c.bit < 8 := by omega
          by_cases top : j < 16
          · simp [this, top, show bits ≤ j by omega]
          · simp [this, top, high (j - bits) (by omega)]
      · simp only [Cursor.pos]; omega
      · simp only; omega
    · rename_i notMore
      split
      · rename_i exact
        refine ⟨fun j => ?_, ?_, ?_⟩
        · rw [Nat.testBit_mod_two_pow, Nat.testBit_or, Nat.testBit_shiftLeft, Nat.testBit_and,
            testBit_mask]
          by_cases inside : j < bits
          · have place : c.pos + bits - 1 - j = 8 * c.byte + (c.bit + bits - 1 - j) := by
              simp only [Cursor.pos]; omega
            have index : j = 7 - (c.bit + bits - 1 - j) := by omega
            rw [if_pos inside, place, bitAt_byte (by omega), ← index]
            have : j + c.bit < 8 := by omega
            simp [show ¬ bits ≤ j by omega, this, show j < 16 by omega]
          · rw [if_neg inside]
            have : ¬ j + c.bit < 8 := by omega
            by_cases top : j < 16
            · simp [this, top, show bits ≤ j by omega]
            · simp [this, top, high (j - bits) (by omega)]
        · simp only [Cursor.pos]; omega
        · simp
      · rename_i less
        -- The rest of the byte goes below the value read so far, and a fresh byte follows.
        have nextFits :
          ((value <<< (8 - c.bit)) ||| ((mem c.byte).toNat &&& (0xFF >>> c.bit))) % 2 ^ 16
            < 2 ^ (read + (8 - c.bit)) := by
          apply Nat.lt_of_le_of_lt (Nat.mod_le _ _)
          apply Nat.lt_pow_two_of_testBit
          intro j hj
          rw [Nat.testBit_or, Nat.testBit_shiftLeft, Nat.testBit_and, testBit_mask]
          have : ¬ j + c.bit < 8 := by omega
          simp [this, high (j - (8 - c.bit)) (by omega)]
        obtain ⟨testBits, position, bound⟩ := ih ⟨c.byte + 1, 0⟩ (bits - (8 - c.bit)) _
          (read + (8 - c.bit)) (by omega) (by omega) (Nat.zero_lt_succ _) (by omega) nextFits
        refine ⟨fun j => ?_, ?_, bound⟩
        · rw [testBits]
          by_cases low : j < bits - (8 - c.bit)
          · rw [if_pos low, if_pos (by omega)]
            congr 1
            simp only [Cursor.pos]; omega
          · rw [if_neg low, Nat.testBit_mod_two_pow, Nat.testBit_or, Nat.testBit_shiftLeft,
              Nat.testBit_and, testBit_mask]
            by_cases inside : j < bits
            · have place : c.pos + bits - 1 - j = 8 * c.byte + (c.bit + bits - 1 - j) := by
                simp only [Cursor.pos]; omega
              have index : j - (bits - (8 - c.bit)) = 7 - (c.bit + bits - 1 - j) := by omega
              rw [if_pos inside, place, bitAt_byte (by omega), index]
              have : 7 - (c.bit + bits - 1 - j) + c.bit < 8 := by omega
              simp [this, show ¬ 8 - c.bit ≤ 7 - (c.bit + bits - 1 - j) by omega,
                show 7 - (c.bit + bits - 1 - j) < 16 by omega]
            · rw [if_neg inside]
              have : ¬ j - (bits - (8 - c.bit)) + c.bit < 8 := by omega
              have shift : j - (bits - (8 - c.bit)) - (8 - c.bit) = j - bits := by omega
              by_cases top : j - (bits - (8 - c.bit)) < 16
              · simp [this, top, shift, show 8 - c.bit ≤ j - (bits - (8 - c.bit)) by omega]
              · simp [this, top, high (j - bits) (by omega)]
        · rw [position]
          simp only [Cursor.pos]; omega

/-- Reading a field of one to sixteen bits gives the number written there and
moves the cursor behind it. -/
theorem readBitField_spec (mem : Memory) {c : Cursor} (bits : Nat) (some : 0 < bits)
    (small : bits ≤ 16) (aligned : c.bit < 8) :
    (readBitField mem c bits).1 = valueAt mem c.pos bits ∧
    (readBitField mem c bits).2.pos = c.pos + bits ∧ (readBitField mem c bits).2.bit < 8 := by
  obtain ⟨testBits, position, bound⟩ :=
    readBitFieldLoop_spec mem bits c bits 0 0 (Nat.le_refl _) some
    aligned (by omega) (by decide)
  refine ⟨Nat.eq_of_testBit_eq fun j => ?_, position, bound⟩
  rw [readBitField, testBits, testBit_valueAt]
  by_cases inside : j < bits <;> simp [inside]

theorem bitAt_orByte (mem : Memory) (a x i : Nat) :
    bitAt (orByte mem a x) i = (bitAt mem i || (decide (i / 8 = a) && x.testBit (7 - i % 8))) := by
  by_cases here : i / 8 = a
  · have inside : 7 - i % 8 < 8 := by omega
    have byte : orByte mem a x a = UInt8.ofNat ((mem a).toNat ||| x) := by simp [orByte]
    simp only [bitAt, here, byte, UInt8.toNat_ofNat', Nat.testBit_mod_two_pow,
      Nat.testBit_or, inside, decide_true, Bool.true_and]
  · have byte : orByte mem a x (i / 8) = mem (i / 8) := by simp [orByte, here]
    simp [bitAt, byte, here]

/-- What writing `bits` bits of `value` at the bit position `pos` leaves in memory:
the bits of the field are or-ed in, every other bit is as before. -/
def Wrote (mem mem' : Memory) (pos bits value : Nat) : Prop :=
  ∀ i, bitAt mem' i =
    (bitAt mem i || (decide (pos ≤ i ∧ i < pos + bits) && value.testBit (pos + bits - 1 - i)))

theorem write8BitFieldLoop_spec (rounds : Nat) (mem : Memory) (c : Cursor) (bits value : Nat)
    (enough : bits ≤ rounds) (some : 0 < bits) (aligned : c.bit < 8)
    (fits : value < 2 ^ bits ∨ c.bit = 0) (small : bits ≤ 8) :
    Wrote mem (write8BitFieldLoop rounds mem c bits value).1 c.pos bits value ∧
    (write8BitFieldLoop rounds mem c bits value).2.pos = c.pos + bits ∧
    (write8BitFieldLoop rounds mem c bits value).2.bit < 8 := by
  induction rounds generalizing mem c bits with
  | zero => omega
  | succ rounds ih =>
    have high : c.bit ≠ 0 → ∀ j, bits ≤ j → value.testBit j = false := fun inner j hj =>
      Nat.testBit_lt_two_pow
        ((fits.resolve_right inner).trans_le (Nat.pow_le_pow_right (by decide) hj))
    simp only [write8BitFieldLoop]
    split
    · rename_i more
      refine ⟨fun i => ?_, ?_, ?_⟩
      · rw [bitAt_orByte, Nat.testBit_shiftLeft, Nat.testBit_and, testBit_mask]
        congr 1
        by_cases here : i / 8 = c.byte
        · have place : c.pos = 8 * c.byte + c.bit := rfl
          by_cases inside : c.pos ≤ i ∧ i < c.pos + bits
          · have index : 7 - i % 8 - (8 - c.bit - bits) = c.pos + bits - 1 - i := by omega
            have masked : 7 - i % 8 - (8 - c.bit - bits) + (8 - c.bit - bits) < 8 := by omega
            have above : 7 - i % 8 ≥ 8 - c.bit - bits := by omega
            simp only [here, decide_true, Bool.true_and, inside, and_self, above,
              masked, Bool.and_true]
            rw [index]
          · by_cases below : 7 - i % 8 ≥ 8 - c.bit - bits
            · have left : i < c.pos := by omega
              have inner : c.bit ≠ 0 := by omega
              simp [inside, high inner (7 - i % 8 - (8 - c.bit - bits)) (by omega)]
            · simp [inside, below]
        · have : ¬ (c.pos ≤ i ∧ i < c.pos + bits) := by simp only [Cursor.pos]; omega
          simp [here, this]
      · simp only [Cursor.pos]; omega
      · simp only; omega
    · split
      · rename_i exact
        refine ⟨fun i => ?_, ?_, ?_⟩
        · rw [bitAt_orByte, Nat.testBit_and, testBit_mask]
          congr 1
          by_cases here : i / 8 = c.byte
          · have place : c.pos = 8 * c.byte + c.bit := rfl
            by_cases inside : c.pos ≤ i ∧ i < c.pos + bits
            · have index : 7 - i % 8 = c.pos + bits - 1 - i := by omega
              have masked : 7 - i % 8 + (8 - bits) < 8 := by omega
              simp only [here, decide_true, Bool.true_and, inside, and_self, masked, Bool.and_true]
              rw [index]
            · have : ¬ 7 - i % 8 + (8 - bits) < 8 := by omega
              simp [inside, this]
          · have : ¬ (c.pos ≤ i ∧ i < c.pos + bits) := by simp only [Cursor.pos]; omega
            simp [here, this]
        · simp only [Cursor.pos]; omega
        · simp
      · -- The leading bits fill this byte; the field ends in the next one.
        rename_i notMore less
        obtain ⟨wrote, position, bound⟩ := ih (orByte mem c.byte (value >>> (bits - (8 - c.bit))))
          ⟨c.byte + 1, 0⟩ (bits - (8 - c.bit)) (by omega) (by omega) (Nat.zero_lt_succ _)
            (Or.inr rfl) (by omega)
        refine ⟨fun i => ?_, ?_, bound⟩
        · rw [wrote, bitAt_orByte, Nat.testBit_shiftRight, Bool.or_assoc]
          congr 1
          have place : c.pos = 8 * c.byte + c.bit := rfl
          have next : Cursor.pos ⟨c.byte + 1, 0⟩ = 8 * c.byte + 8 := by
            simp only [Cursor.pos]; omega
          have inner : c.bit ≠ 0 := by omega
          rw [next]
          by_cases here : i / 8 = c.byte
          · have before : ¬ (8 * c.byte + 8 ≤ i ∧ i < 8 * c.byte + 8 + (bits - (8 - c.bit))) := by
              omega
            by_cases inside : c.pos ≤ i ∧ i < c.pos + bits
            · have index : bits - (8 - c.bit) + (7 - i % 8) = c.pos + bits - 1 - i := by omega
              simp only [here, before, inside, decide_true, and_self, decide_false, Bool.false_and,
                Bool.or_false, Bool.true_and]
              rw [index]
            · simp [before, inside, high inner (bits - (8 - c.bit) + (7 - i % 8)) (by omega)]
          · by_cases after : 8 * c.byte + 8 ≤ i ∧ i < 8 * c.byte + 8 + (bits - (8 - c.bit))
            · have inside : c.pos ≤ i ∧ i < c.pos + bits := by omega
              have index : 8 * c.byte + 8 + (bits - (8 - c.bit)) - 1 - i =
                c.pos + bits - 1 - i := by omega
              simp only [here, after, inside, decide_true, and_self, decide_false, Bool.false_and,
                Bool.false_or, Bool.true_and, index]
            · have outside : ¬ (c.pos ≤ i ∧ i < c.pos + bits) := by omega
              simp [here, after, outside]
        · rw [position]
          simp only [Cursor.pos]; omega

theorem write8BitField_spec {out : Memory × Cursor} (bits : Nat) {value : Nat} (some : 0 < bits)
    (small : bits ≤ 8) (aligned : out.2.bit < 8) (fits : value < 2 ^ bits) :
    Wrote out.1 (write8BitField out bits value).1 out.2.pos bits value ∧
    (write8BitField out bits value).2.pos = out.2.pos + bits ∧
    (write8BitField out bits value).2.bit < 8 :=
  write8BitFieldLoop_spec bits out.1 out.2 bits value (Nat.le_refl _) some aligned
    (Or.inl fits) small

theorem write16BitField_spec {out : Memory × Cursor} (bits : Nat) {value : Nat} (some : 0 < bits)
    (small : bits ≤ 16) (aligned : out.2.bit < 8) (fits : value < 2 ^ bits) :
    Wrote out.1 (write16BitField out bits value).1 out.2.pos bits value ∧
    (write16BitField out bits value).2.pos = out.2.pos + bits ∧
    (write16BitField out bits value).2.bit < 8 := by
  have low : value &&& 0x00FF = value % 2 ^ 8 := Nat.and_two_pow_sub_one_eq_mod value 8
  unfold write16BitField
  split
  · rename_i large
    have highFits : (value >>> 8) % 2 ^ 8 < 2 ^ (bits - 8) := by
      have : value >>> 8 < 2 ^ (bits - 8) := by
        rw [Nat.shiftRight_eq_div_pow]
        apply Nat.div_lt_of_lt_mul
        rwa [← Nat.pow_add, Nat.add_sub_cancel' (by omega)]
      exact Nat.lt_of_le_of_lt (Nat.mod_le _ _) this
    obtain ⟨wrote₁, position₁, bound₁⟩ := write8BitField_spec (bits - 8)
      (by omega) (by omega) aligned highFits
    obtain ⟨wrote₂, position₂, bound₂⟩ := write8BitField_spec 8
      (by decide) (by decide) bound₁ (show value &&& 0x00FF < 2 ^ 8 by
        rw [low]; exact Nat.mod_lt _ (by decide))
    refine ⟨fun i => ?_, by omega, bound₂⟩
    rw [wrote₂, wrote₁, position₁, low, Bool.or_assoc]
    congr 1
    simp only [Nat.testBit_mod_two_pow, Nat.testBit_shiftRight]
    by_cases first : out.2.pos ≤ i ∧ i < out.2.pos + (bits - 8)
    · have notLast : ¬ (out.2.pos + (bits - 8) ≤ i ∧ i < out.2.pos + (bits - 8) + 8) := by omega
      have whole : out.2.pos ≤ i ∧ i < out.2.pos + bits := by omega
      have index : 8 + (out.2.pos + (bits - 8) - 1 - i) = out.2.pos + bits - 1 - i := by omega
      have inByte : out.2.pos + (bits - 8) - 1 - i < 8 := by omega
      simp only [first, notLast, whole, and_self, decide_true, decide_false, Bool.true_and,
        Bool.false_and, Bool.or_false, inByte, index]
    · by_cases last : out.2.pos + (bits - 8) ≤ i ∧ i < out.2.pos + (bits - 8) + 8
      · have whole : out.2.pos ≤ i ∧ i < out.2.pos + bits := by omega
        have index : out.2.pos + (bits - 8) + 8 - 1 - i = out.2.pos + bits - 1 - i := by omega
        have inByte : out.2.pos + bits - 1 - i < 8 := by omega
        rw [decide_eq_false first]
        simp only [last, whole, and_self, decide_true, Bool.true_and, Bool.false_and, Bool.false_or,
          index, inByte]
      · have outside : ¬ (out.2.pos ≤ i ∧ i < out.2.pos + bits) := by omega
        simp [first, last, outside]
  · rename_i short
    have same : value &&& 0x00FF = value := by
      rw [low]
      exact Nat.mod_eq_of_lt (fits.trans_le (Nat.pow_le_pow_right (by decide) (by omega)))
    rw [same]
    exact write8BitField_spec bits some (by omega) aligned fits

/-- The fields written so far, from the bit `start` of a buffer on: the cursor
stands behind them, they read back, and no other bit of the buffer has changed. -/
structure Written (mem : Memory) (start : Nat) (fields : List (Nat × Nat))
    (out : Memory × Cursor) : Prop where
  position : out.2.pos = start + widths fields
  aligned : out.2.bit < 8
  frame : ∀ i, i < start ∨ start + widths fields ≤ i → bitAt out.1 i = bitAt mem i
  holds : Holds out.1 start fields

theorem Written.snoc {mem : Memory} {start bits value stop : Nat} {fields : List (Nat × Nat)}
    {out next : Memory × Cursor} (written : Written mem start fields out)
    (fits : value < 2 ^ bits) (clear : Clear mem start stop)
    (room : start + widths (fields ++ [(bits, value)]) ≤ stop)
    (wrote : Wrote out.1 next.1 out.2.pos bits value)
    (moved : next.2.pos = out.2.pos + bits ∧ next.2.bit < 8) :
    Written mem start (fields ++ [(bits, value)]) next := by
  have total : widths (fields ++ [(bits, value)]) = widths fields + bits := by
    simp [widths]
  have position := written.position
  refine ⟨by omega, moved.2, fun i outside => ?_, holds_append.mpr ⟨?_, ?_, trivial⟩⟩
  · have : ¬ (out.2.pos ≤ i ∧ i < out.2.pos + bits) := by omega
    rw [wrote, written.frame i (by omega)]
    simp [this]
  · refine holds_congr (fun i _ upper => ?_) written.holds
    have : ¬ (out.2.pos ≤ i ∧ i < out.2.pos + bits) := by omega
    rw [wrote]
    simp [this]
  · apply valueAt_eq fits
    intro j inside
    have place : start + widths fields + bits - 1 - j = out.2.pos + bits - 1 - j := by omega
    have here : out.2.pos ≤ out.2.pos + bits - 1 - j ∧ out.2.pos + bits - 1 - j <
        out.2.pos + bits := by
      omega
    have index : out.2.pos + bits - 1 - (out.2.pos + bits - 1 - j) = j := by omega
    rw [place, wrote, written.frame _ (by omega), clear _ (by omega) (by omega)]
    simp only [here, and_self, decide_true, Bool.true_and, Bool.false_or, index]

theorem Written.write8 {mem : Memory} {start value stop : Nat} {fields : List (Nat × Nat)}
    {out : Memory × Cursor} (written : Written mem start fields out) (bits : Nat)
    (clear : Clear mem start stop)
    (some : 0 < bits) (small : bits ≤ 8) (fits : value < 2 ^ bits)
    (room : start + widths (fields ++ [(bits, value)]) ≤ stop) :
    Written mem start (fields ++ [(bits, value)]) (write8BitField out bits value) := by
  obtain ⟨wrote, moved⟩ := write8BitField_spec bits some small written.aligned fits
  exact written.snoc fits clear room wrote moved

theorem Written.write16 {mem : Memory} {start value stop : Nat} {fields : List (Nat × Nat)}
    {out : Memory × Cursor} (written : Written mem start fields out) (bits : Nat)
    (clear : Clear mem start stop)
    (some : 0 < bits) (small : bits ≤ 16) (fits : value < 2 ^ bits)
    (room : start + widths (fields ++ [(bits, value)]) ≤ stop) :
    Written mem start (fields ++ [(bits, value)]) (write16BitField out bits value) := by
  obtain ⟨wrote, moved⟩ := write16BitField_spec bits some small written.aligned fits
  exact written.snoc fits clear room wrote moved

end OpenAir.Rlc.Am
