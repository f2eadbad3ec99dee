import OpenAir.Rlc.Am.DataPdu
import OpenAir.Rlc.Am.StatusCodec
import Mathlib.Tactic.Push

/-! The header of an AMD PDU seen as bit fields: the E bits and length indicators
form a chain of twelve-bit entries, and the decoder's loop walks that chain. -/
namespace OpenAir.Rlc.Am
open BitField

/-- The `k`-th extension bit of the chain of entries that starts at byte `start`. -/
def liE (mem : Memory) (start k : Nat) : Bool := bitAt mem (8 * start + 12 * k)

/-- The `k`-th length indicator of that chain. -/
def liAt (mem : Memory) (start k : Nat) : Nat := valueAt mem (8 * start + 12 * k + 1) 11

def lisAt (mem : Memory) (start first count : Nat) : List Nat :=
  (List.range' first count).map (liAt mem start)

theorem lisAt_succ (mem : Memory) (start first count : Nat) :
    lisAt mem start first (count + 1) =
    liAt mem start first :: lisAt mem start (first + 1) count := by
  simp [lisAt, List.range'_succ]

theorem and_bit_ne_zero (x i : Nat) : (x &&& 2 ^ i ≠ 0) ↔ x.testBit i = true := by
  rw [Nat.and_two_pow]
  cases x.testBit i <;> simp

theorem shifted_mask_testBit (width shift j : Nat) :
    ((2 ^ width - 1) <<< shift).testBit j = (decide (shift ≤ j) && decide (j - shift < width)) := by
  rw [Nat.testBit_shiftLeft, Nat.testBit_two_pow_sub_one]

theorem evenLi_spec (mem : Memory) (a : Nat) :
    (((mem a).toNat <<< 4) &&& 0x07F0) ||| (((mem (a + 1)).toNat >>> 4) &&& 0x000F) =
      valueAt mem (8 * a + 1) 11 := by
  symm
  have wide : 0x07F0 = (2 ^ 7 - 1) <<< 4 := by decide
  have low : 0x000F = (2 ^ 4 - 1) <<< 0 := by decide
  have testBits (j : Nat) : ((((mem a).toNat <<< 4) &&& 0x07F0) |||
      (((mem (a + 1)).toNat >>> 4) &&& 0x000F)).testBit j =
      ((decide (4 ≤ j) && (mem a).toNat.testBit (j - 4) &&
        (decide (4 ≤ j) && decide (j - 4 < 7))) ||
        ((mem (a + 1)).toNat.testBit (4 + j) && decide (j < 4))) := by
    rw [Nat.testBit_or, Nat.testBit_and, Nat.testBit_and, Nat.testBit_shiftLeft,
      Nat.testBit_shiftRight, wide, low, shifted_mask_testBit, shifted_mask_testBit]
    simp
  apply valueAt_eq
  · apply Nat.lt_pow_two_of_testBit
    intro j high
    rw [testBits]
    simp [show ¬ j - 4 < 7 by omega, show ¬ j < 4 by omega]
  · intro j inside
    rw [testBits]
    by_cases second : j < 4
    · rw [show 8 * a + 1 + 11 - 1 - j = 8 * (a + 1) + (3 - j) by omega, bitAt_byte (by omega),
        show 7 - (3 - j) = 4 + j by omega]
      simp [second, show ¬ 4 ≤ j by omega]
    · rw [show 8 * a + 1 + 11 - 1 - j = 8 * a + (11 - j) by omega, bitAt_byte (by omega),
        show 7 - (11 - j) = j - 4 by omega]
      simp [second, show 4 ≤ j by omega, show j - 4 < 7 by omega]

theorem oddLi_spec (mem : Memory) (a : Nat) :
    (((mem (a + 1)).toNat <<< 8) &&& 0x0700) ||| (mem (a + 2)).toNat =
    valueAt mem (8 * a + 13) 11 := by
  symm
  have wide : 0x0700 = (2 ^ 3 - 1) <<< 8 := by decide
  have small (j : Nat) (high : 8 ≤ j) : (mem (a + 2)).toNat.testBit j = false :=
    Nat.testBit_lt_two_pow ((UInt8.toNat_lt _).trans_le (Nat.pow_le_pow_right (by decide) high))
  have testBits (j : Nat) :
    ((((mem (a + 1)).toNat <<< 8) &&& 0x0700) ||| (mem (a + 2)).toNat).testBit j =
      ((decide (8 ≤ j) && (mem (a + 1)).toNat.testBit (j - 8) &&
        (decide (8 ≤ j) && decide (j - 8 < 3))) ||
        (mem (a + 2)).toNat.testBit j) := by
    rw [Nat.testBit_or, Nat.testBit_and, Nat.testBit_shiftLeft, wide, shifted_mask_testBit]
  apply valueAt_eq
  · apply Nat.lt_pow_two_of_testBit
    intro j high
    rw [testBits, small j (by omega)]
    simp [show ¬ j - 8 < 3 by omega]
  · intro j inside
    rw [testBits]
    by_cases last : j < 8
    · rw [show 8 * a + 13 + 11 - 1 - j = 8 * (a + 2) + (7 - j) by omega, bitAt_byte (by omega),
        show 7 - (7 - j) = j by omega]
      simp [show ¬ 8 ≤ j by omega]
    · rw [small j (by omega), show 8 * a + 13 + 11 - 1 - j = 8 * (a + 1) + (15 - j) by omega,
        bitAt_byte (by omega), show 7 - (15 - j) = j - 8 by omega]
      simp [show 8 ≤ j by omega, show j - 8 < 3 by omega]

/-- One round of the loop, `k` indicators having been read: it appends the `k`-th
indicator, and only its E bit and the capacity decide what follows. -/
theorem readLis_succ (mem : Memory) (room start k : Nat) (sumLi : Int) (info : PduInfo) :
    readLis mem (room + 1) (start + 3 * (k / 2)) (1 + k % 2) sumLi info =
      let next := { info with
        liList := info.liList ++ [liAt mem start k]
        headerSize := info.headerSize + (2 - k % 2) }
      if next.numLi > maxSduInPdu then
        ⟨true, int16 (sumLi + liAt mem start k), next⟩
      else if liE mem start k then
        readLis mem room (start + 3 * ((k + 1) / 2)) (1 + (k + 1) % 2)
          (int16 (sumLi + liAt mem start k)) next
      else
        ⟨false, int16 (sumLi + liAt mem start k),
          { next with payload := start + headerLiLength (k + 1) }⟩ := by
  obtain even | odd := Nat.mod_two_eq_zero_or_one k
  · have place : 8 * start + 12 * k = 8 * (start + 3 * (k / 2)) := by omega
    have e : liE mem start k = (mem (start + 3 * (k / 2))).toNat.testBit 7 := by
      rw [liE, place, ← Nat.add_zero (8 * _), bitAt_byte (by decide)]
    have flag (x : Nat) : (x &&& 0x80 ≠ 0) ↔ x.testBit 7 = true := and_bit_ne_zero x 7
    have li := evenLi_spec mem (start + 3 * (k / 2))
    rw [← place, ← liAt.eq_def] at li
    have toggle : (1 + 0) ^^^ 3 = 2 := by decide
    have half : (k + 1) / 2 = k / 2 := by omega
    have parity : (k + 1) % 2 = 1 := by omega
    have length : start + headerLiLength (k + 1) = start + 3 * (k / 2) + 2 := by
      simp only [headerLiLength]; omega
    rw [readLis, even, half, parity, length]
    simp only [toggle, if_true, li, flag, e, Nat.sub_zero]
  · have place : 8 * start + 12 * k = 8 * (start + 3 * (k / 2) + 1) + 4 := by omega
    have e : liE mem start k = (mem (start + 3 * (k / 2) + 1)).toNat.testBit 3 := by
      rw [liE, place, bitAt_byte (by decide)]
    have flag (x : Nat) : (x &&& 0x08 ≠ 0) ↔ x.testBit 3 = true := and_bit_ne_zero x 3
    have li := oddLi_spec mem (start + 3 * (k / 2))
    rw [show 8 * (start + 3 * (k / 2)) + 13 = 8 * start + 12 * k + 1 by omega, ← liAt.eq_def] at li
    have toggle : (1 + 1) ^^^ 3 = 1 := by decide
    have next : start + 3 * ((k + 1) / 2) = start + 3 * (k / 2) + 3 := by omega
    have parity : (k + 1) % 2 = 0 := by omega
    have length : start + headerLiLength (k + 1) = start + 3 * (k / 2) + 3 := by
      simp only [headerLiLength]; omega
    rw [readLis, odd, next, parity, length]
    simp only [toggle, li, flag, e, show ¬ (1 : Nat) = 2 by decide, if_false, Nat.add_one_sub_one]

/-- Exactly `count` more entries follow: every E bit but the last announces another. -/
def ChainOf (mem : Memory) (start first count : Nat) : Prop :=
  0 < count ∧ ∀ j < count, liE mem start (first + j) = decide (j + 1 < count)

theorem headerLiLength_succ
    (k : Nat) : headerLiLength (k + 1) = headerLiLength k + (2 - k % 2) := by
  simp only [headerLiLength]
  omega

theorem readLis_chain {mem : Memory} {start count room k : Nat} {sumLi : Int} {info : PduInfo}
    (chain : ChainOf mem start k count) (enough : count ≤ room) (stored : info.numLi = k)
    (fits : k + count ≤ maxSduInPdu) :
    readLis mem room (start + 3 * (k / 2)) (1 + k % 2) sumLi info =
      ⟨false, int16 (sumLi + (lisAt mem start k count).sum),
        { info with
          liList := info.liList ++ lisAt mem start k count
          headerSize := info.headerSize + (headerLiLength (k + count) - headerLiLength k)
          payload := start + headerLiLength (k + count) }⟩ := by
  induction count generalizing k room sumLi info with
  | zero => exact absurd chain.1 (Nat.lt_irrefl 0)
  | succ count ih =>
    cases room with
    | zero => omega
    | succ room =>
      have e := chain.2 0 (Nat.succ_pos _)
      have notFull : ¬ (info.liList ++ [liAt mem start k]).length > maxSduInPdu := by
        simp only [List.length_append, List.length_singleton]
        rw [PduInfo.numLi] at stored
        omega
      rw [readLis_succ, lisAt_succ]
      simp only [PduInfo.numLi, notFull, if_false]
      cases count with
      | zero =>
        have last : liE mem start k = false := by simpa using e
        simp [last, lisAt, headerLiLength_succ]
      | succ count =>
        have more : liE mem start k = true := by simpa using e
        have rest : ChainOf mem start (k + 1) (count + 1) := by
          refine ⟨Nat.succ_pos _, fun j inside => ?_⟩
          have := chain.2 (j + 1) (by omega)
          rw [← Nat.add_assoc, Nat.add_right_comm] at this
          rw [this, decide_eq_decide]
          omega
        rw [if_pos more, ih rest (by omega) (by simpa [PduInfo.numLi] using stored) (by omega)]
        have sum : int16
          (int16 (sumLi + liAt mem start k) + (lisAt mem start (k + 1) (count + 1)).sum) =
            int16 (sumLi +
                ((liAt mem start k : Nat) + (lisAt mem start (k + 1) (count + 1)).sum : Nat)) := by
          rw [int16, int16, Int.bmod_add_bmod, int16]
          congr 1
          push_cast
          omega
        have grows : headerLiLength (k + 1) ≤ headerLiLength (k + 1 + (count + 1)) := by
          simp only [headerLiLength]
          omega
        have length := headerLiLength_succ k
        simp only [sum, List.append_assoc, List.cons_append, List.nil_append, List.sum_cons,
          LiRead.mk.injEq, PduInfo.mk.injEq, true_and,
          show k + (count + 1 + 1) = k + 1 + (count + 1) by omega]
        omega

/-- A chain with no end within the capacity: the store behind the last place of
the array happens before the check that ends the loop. -/
theorem readLis_endless {mem : Memory} {start room k : Nat} {sumLi : Int} {info : PduInfo}
    (enough : k + room = maxSduInPdu + 1) (stored : info.numLi = k) (below : k ≤ maxSduInPdu)
    (endless : ∀ j, k ≤ j → j < maxSduInPdu → liE mem start j = true) :
    (readLis mem room (start + 3 * (k / 2)) (1 + k % 2) sumLi info).tooMany = true ∧
    (readLis mem room (start + 3 * (k / 2)) (1 + k % 2) sumLi info).info.numLi =
    maxSduInPdu + 1 := by
  induction room generalizing k sumLi info with
  | zero => omega
  | succ room ih =>
    rw [readLis_succ]
    rw [PduInfo.numLi] at stored
    by_cases full : k = maxSduInPdu
    · simp [PduInfo.numLi, stored, full]
    · have notFull : ¬ (info.liList ++ [liAt mem start k]).length > maxSduInPdu := by
        simp only [List.length_append, List.length_singleton]
        omega
      simp only [PduInfo.numLi, notFull, if_false, endless k (Nat.le_refl _) (by omega), if_true]
      exact ih (by omega) (by simp [PduInfo.numLi, stored]) (by omega)
        fun j lower upper => endless j (by omega) upper

/-- The byte behind the fixed header, where a chain of length indicators starts. -/
def liStart (mem : Memory) : Nat := if bitAt mem 1 then 4 else 2

theorem readFixedHeader_eq (mem : Memory) :
    readFixedHeader mem =
      { dC := true
        rf := bitAt mem 1
        p := bitAt mem 2
        fi := valueAt mem 3 2
        e := bitAt mem 5
        sn := valueAt mem 6 10
        lsf := bitAt mem 1 && bitAt mem 16
        so := if bitAt mem 1 then valueAt mem 17 15 else 0
        payload := liStart mem
        headerSize := liStart mem } := by
  have rf : (((mem 0).toNat >>> 6) &&& 0x01 != 0) = bitAt mem 1 := flag_at mem 0 6 (by decide)
  have p : (((mem 0).toNat >>> 5) &&& 0x01 != 0) = bitAt mem 2 := flag_at mem 0 5 (by decide)
  have fi : ((mem 0).toNat >>> 3) &&& 0x03 = valueAt mem 3 2 := shift_and_mask mem 0 3 2 (by decide)
  have e : (((mem 0).toNat >>> 2) &&& 0x01 != 0) = bitAt mem 5 := flag_at mem 0 2 (by decide)
  have lsf : (((mem 2).toNat >>> 7) &&& 0x01 != 0) = bitAt mem 16 := flag_at mem 2 7 (by decide)
  have snHigh : (mem 0).toNat &&& 0x03 = valueAt mem 6 2 := shift_and_mask mem 0 0 2 (by decide)
  have soHigh : (mem 2).toNat &&& 0x7F = valueAt mem 17 7 := shift_and_mask mem 2 0 7 (by decide)
  have sn : (mem 1).toNat + ((mem 0).toNat &&& 0x03) <<< 8 = valueAt mem 6 10 := by
    rw [snHigh, valueAt_add mem 6 2 8, ← valueAt_byte mem 1, Nat.shiftLeft_eq, Nat.add_comm]
  have so : (mem 3).toNat + ((mem 2).toNat &&& 0x7F) <<< 8 = valueAt mem 17 15 := by
    rw [soHigh, valueAt_add mem 17 7 8, ← valueAt_byte mem 3, Nat.shiftLeft_eq, Nat.add_comm]
  simp only [readFixedHeader, rf, p, fi, e, lsf, sn, so, liStart]
  cases bitAt mem 1 <;> simp

/-- The header announces exactly `count` length indicators, none when E is clear. -/
def LiCount (mem : Memory) (count : Nat) : Prop :=
  if bitAt mem 5 then ChainOf mem (liStart mem) 0 count else count = 0

/-- The decoded header of a data PDU with `count` length indicators. -/
def dataPduInfo (mem : Memory) (count : Nat) (totalSize : Int16) : PduInfo :=
  let lis := lisAt mem (liStart mem) 0 count
  let headerSize := liStart mem + headerLiLength count
  let payloadSize := int16 (totalSize.toInt - headerSize)
  { readFixedHeader mem with
    liList := lis
    headerSize := headerSize
    payload := headerSize
    payloadSize := payloadSize
    hiddenSize := if payloadSize > int16 lis.sum then int16 (payloadSize - int16 lis.sum) else 0 }

theorem getDataPduInfos_control {mem : Memory} (totalSize : Int16) (control : bitAt mem 0 = false) :
    getDataPduInfos mem totalSize = ⟨-2, {}⟩ := by
  rw [← dataBit_eq, bne_eq_false_iff_eq] at control
  simp [getDataPduInfos, control]

/-- A data PDU whose indicators fit the array is accepted, whatever was received. -/
theorem getDataPduInfos_chain {mem : Memory} {count : Nat} (totalSize : Int16)
    (data : bitAt mem 0 = true) (lis : LiCount mem count) (fits : count ≤ maxSduInPdu) :
    getDataPduInfos mem totalSize = ⟨0, dataPduInfo mem count totalSize⟩ := by
  rw [← dataBit_eq, bne_iff_ne] at data
  rw [getDataPduInfos, if_neg data, dataPduInfo, readFixedHeader_eq]
  unfold LiCount at lis
  split at lis
  · rename_i e
    have read := @readLis_chain mem (liStart mem) count (maxSduInPdu + 1) 0 0
      { dC := true, rf := bitAt mem 1, p := bitAt mem 2, fi := valueAt mem 3 2, e := true
        sn := valueAt mem 6 10, lsf := bitAt mem 1 && bitAt mem 16
        so := if bitAt mem 1 then valueAt mem 17 15 else 0, payload := liStart mem
        headerSize := liStart mem } lis (by omega) rfl (by omega)
    simp only [Nat.zero_div, Nat.mul_zero, Nat.add_zero, Nat.zero_mod, Int.zero_add, Nat.zero_add]
      at read
    simp only [e, if_true, read, Bool.false_eq_true, if_false]
    have none : headerLiLength 0 = 0 := rfl
    simp only [none, Nat.sub_zero, List.nil_append]
    split <;> rfl
  · rename_i e
    subst lis
    have e : bitAt mem 5 = false := by simpa using e
    have none : headerLiLength 0 = 0 := rfl
    have sum : int16 ((0 : Nat) : Int) = 0 := rfl
    simp only [e, Bool.false_eq_true, if_false, none, Nat.add_zero, lisAt,
      List.range'_zero, List.map_nil, List.sum_nil, sum]
    split <;> rfl

theorem getDataPduInfos_endless {mem : Memory} (totalSize : Int16) (data : bitAt mem 0 = true)
    (e : bitAt mem 5 = true) (endless : ∀ j < maxSduInPdu, liE mem (liStart mem) j = true) :
    (getDataPduInfos mem totalSize).ret = -2 ∧
    (getDataPduInfos mem totalSize).info.numLi = maxSduInPdu + 1 := by
  rw [← dataBit_eq, bne_iff_ne] at data
  have read := @readLis_endless mem (liStart mem) (maxSduInPdu + 1) 0 0 (readFixedHeader mem)
    (Nat.zero_add _) (by rw [readFixedHeader_eq]; rfl) (Nat.zero_le _)
      fun j _ upper => endless j upper
  simp only [Nat.zero_div, Nat.mul_zero, Nat.add_zero, Nat.zero_mod] at read
  have announced : (readFixedHeader mem).e = true := by rw [readFixedHeader_eq]; exact e
  have place : (readFixedHeader mem).payload = liStart mem := by rw [readFixedHeader_eq]
  rw [getDataPduInfos, if_neg data]
  simp only [announced, if_true, place, read.1]
  exact ⟨trivial, read.2⟩

/-- A header either announces a number of indicators that fits the array or
chains more of them than the array takes. -/
theorem liCount_or_endless (mem : Memory) :
    (∃ count ≤ maxSduInPdu, LiCount mem count) ∨
    (bitAt mem 5 = true ∧ ∀ j < maxSduInPdu, liE mem (liStart mem) j = true) := by
  unfold LiCount
  cases e : bitAt mem 5 with
  | false => exact Or.inl ⟨0, Nat.zero_le _, by simp⟩
  | true =>
    by_cases endless : ∀ j < maxSduInPdu, liE mem (liStart mem) j = true
    · exact Or.inr ⟨rfl, endless⟩
    · push Not at endless
      have last := Nat.find_spec endless
      refine Or.inl ⟨Nat.find endless + 1, last.1, ?_⟩
      simp only [if_true, ChainOf, Nat.zero_add]
      refine ⟨Nat.succ_pos _, fun j inside => ?_⟩
      obtain before | here := Nat.lt_succ_iff_lt_or_eq.mp inside
      · have more := Nat.find_min endless before
        push Not at more
        rw [more (by omega), eq_comm, decide_eq_true_eq]
        exact Nat.succ_lt_succ before
      · rw [here]
        simpa using last.2

end OpenAir.Rlc.Am
