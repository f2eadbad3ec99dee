import OpenAir.Rlc.Um.Dar
import OpenAir.Rlc.Am.LiEntry

/-! `rlc_um_read_length_indicators` on an arbitrary byte string: it reads the same chain of
twelve-bit entries as the acknowledged mode, two entries a round. -/
namespace OpenAir.Rlc.Um
open BitField
open Am (liE liAt lisAt headerLiLength liBytes ChainOf)

section Bytes

variable (mem : Memory) (start h : Nat)

theorem firstLi_eq :
    (((mem (start + 3 * h)).toNat &&& 0x7F) <<< 4) +
    (((mem (start + 3 * h + 1)).toNat &&& 0xF0) >>> 4) =
    liAt mem start (2 * h) := by
  have byte := UInt8.toNat_lt (mem (start + 3 * h + 1))
  have high : (mem (start + 3 * h)).toNat &&& 0x7F = (mem (start + 3 * h)).toNat % 2 ^ 7 :=
    Nat.and_two_pow_sub_one_eq_mod _ 7
  have low : ((mem (start + 3 * h + 1)).toNat &&& 0xF0) >>> 4 =
      (mem (start + 3 * h + 1)).toNat / 2 ^ 4 % 2 ^ 4 := by
    rw [Nat.shiftRight_and_distrib, Nat.shiftRight_eq_div_pow]
    exact Nat.and_two_pow_sub_one_eq_mod _ 4
  rw [Am.liAt_even, high, low, Nat.shiftLeft_eq]
  omega

theorem secondLi_eq :
    (((mem (start + 3 * h + 1)).toNat &&& 0x07) <<< 8) +
    ((mem (start + 3 * h + 2)).toNat &&& 0xFF) =
    liAt mem start (2 * h + 1) := by
  have byte := UInt8.toNat_lt (mem (start + 3 * h + 2))
  have high : (mem (start + 3 * h + 1)).toNat &&& 0x07 = (mem (start + 3 * h + 1)).toNat % 2 ^ 3 :=
    Nat.and_two_pow_sub_one_eq_mod _ 3
  have low : (mem (start + 3 * h + 2)).toNat &&& 0xFF = (mem (start + 3 * h + 2)).toNat % 2 ^ 8 :=
    Nat.and_two_pow_sub_one_eq_mod _ 8
  rw [Am.liAt_odd, high, low, Nat.shiftLeft_eq]
  omega

theorem firstE_iff : ((mem (start + 3 * h)).toNat &&& 0x80) >>> 7 ≠ 0 ↔
    liE mem start (2 * h) = true := by
  have bit : ((mem (start + 3 * h)).toNat &&& 0x80) >>> 7 =
      (mem (start + 3 * h)).toNat / 2 ^ 7 % 2 ^ 1 := by
    rw [Nat.shiftRight_and_distrib, Nat.shiftRight_eq_div_pow]
    exact Nat.and_two_pow_sub_one_eq_mod _ 1
  rw [Am.liE_even, bit, decide_eq_true_eq]
  omega

theorem secondE_iff : ((mem (start + 3 * h + 1)).toNat &&& 0x08) >>> 3 ≠ 0 ↔
    liE mem start (2 * h + 1) = true := by
  have bit : ((mem (start + 3 * h + 1)).toNat &&& 0x08) >>> 3 =
      (mem (start + 3 * h + 1)).toNat / 2 ^ 3 % 2 ^ 1 := by
    rw [Nat.shiftRight_and_distrib, Nat.shiftRight_eq_div_pow]
    exact Nat.and_two_pow_sub_one_eq_mod _ 1
  rw [Am.liE_odd, bit, decide_eq_true_eq]
  omega

end Bytes

/-- `data_size` behind `count` indicators. -/
def sizeBehind (mem : Memory) (start : Nat) (size : Int) (count : Nat) : Int :=
  size - headerLiLength count - (lisAt mem start 0 count).sum

/-- What is left when `count` indicators have been stored. -/
def readBehind (mem : Memory) (start : Nat) (size : Int) (accepted : Bool) (count : Nat) : LiRead :=
  ⟨accepted, lisAt mem start 0 count, sizeBehind mem start size count⟩

section Loop

variable (mem : Memory) (start : Nat) (size : Int)

theorem lisAt_concat (count : Nat) : lisAt mem start 0 (count + 1) = lisAt mem start 0 count ++
    [liAt mem start count] := by
  simp [lisAt, List.range'_concat]

theorem lisAt_length (count : Nat) : (lisAt mem start 0 count).length = count := by
  simp [lisAt]

theorem sizeBehind_succ (count : Nat) :
    sizeBehind mem start size (count + 1) =
    sizeBehind mem start size count - liAt mem start count - liBytes count := by
  simp only [sizeBehind, lisAt_concat, List.sum_append, List.sum_singleton,
    Am.headerLiLength_liBytes]
  push_cast
  ring

theorem liLoop_round (rounds h : Nat) :
    liLoop mem (rounds + 1) (start + 3 * h) (lisAt mem start 0 (2 * h))
      (sizeBehind mem start size (2 * h)) =
      if liE mem start (2 * h) then
        if 2 * h + 2 > maxLiPerPdu then
          some (readBehind mem start size false (2 * h + 2))
        else if liE mem start (2 * h + 1) then
          liLoop mem rounds (start + 3 * (h + 1)) (lisAt mem start 0 (2 * (h + 1)))
            (sizeBehind mem start size (2 * (h + 1)))
        else
          some (readBehind mem start size
            (decide (sizeBehind mem start size (2 * h + 2) > 0)) (2 * h + 2))
      else if 2 * h + 1 > maxLiPerPdu then
        some (readBehind mem start size false (2 * h + 1))
      else
        some (readBehind mem start size (decide (sizeBehind mem start size (2 * h + 1) > 0))
          (2 * h + 1)) := by
  have one : sizeBehind mem start size (2 * h) - liAt mem start (2 * h) - 2 =
      sizeBehind mem start size (2 * h + 1) := by
    rw [sizeBehind_succ, show liBytes (2 * h) = 2 by simp [liBytes]]
    rfl
  have two : sizeBehind mem start size (2 * h + 1) - liAt mem start (2 * h + 1) - 1 =
      sizeBehind mem start size (2 * h + 2) := by
    rw [sizeBehind_succ mem start size (2 * h + 1), show liBytes (2 * h + 1) = 1 by
      simp [liBytes, Nat.add_mod]]
    rfl
  rw [liLoop]
  simp only [firstLi_eq, secondLi_eq, firstE_iff, secondE_iff, one, two, ← lisAt_concat]
  cases e : liE mem start (2 * h) with
  | true =>
    simp only [if_true, true_and, lisAt_length]
    rfl
  | false =>
    simp only [Bool.false_eq_true, if_false, false_and, lisAt_length]
    rfl

/-- A chain that ends within the capacity is read to its end, `h` rounds having been made. -/
theorem liLoop_chain {rounds h count : Nat} (chain : ChainOf mem start (2 * h) count)
    (enough : count ≤ 2 * rounds)
    (fits : 2 * h + count ≤ maxLiPerPdu) :
    liLoop mem rounds (start + 3 * h) (lisAt mem start 0 (2 * h))
      (sizeBehind mem start size (2 * h)) =
      some (readBehind mem start size (decide (sizeBehind mem start size (2 * h + count) > 0))
        (2 * h + count)) := by
  induction rounds generalizing h count with
  | zero => exact absurd (Nat.lt_of_lt_of_le chain.1 enough) (Nat.lt_irrefl 0)
  | succ rounds ih =>
    obtain ⟨positive, bits⟩ := chain
    have first : liE mem start (2 * h) = decide (1 < count) := bits 0 positive
    rw [liLoop_round, first]
    by_cases single : count = 1
    · subst single
      rw [if_neg (by decide), if_neg (by omega)]
    · have second : liE mem start (2 * h + 1) = decide (2 < count) := bits 1 (by omega)
      rw [if_pos (decide_eq_true (by omega)), if_neg (by omega), second]
      by_cases pair : count = 2
      · subst pair
        rw [if_neg (by decide)]
      · have rest : ChainOf mem start (2 * (h + 1)) (count - 2) := by
          refine ⟨by omega, fun j inside => ?_⟩
          rw [show 2 * (h + 1) + j = 2 * h + (j + 2) by
            omega, bits (j + 2) (by omega), decide_eq_decide]
          omega
        rw [if_pos (decide_eq_true (by omega)), ih rest (by omega) (by omega),
          show 2 * (h + 1) + (count - 2) = 2 * h + count by omega]

/-- A chain that does not end within the capacity is refused, but only behind the stores of
its round. -/
theorem liLoop_endless (endless : ∀ j < maxLiPerPdu, liE mem start j = true) {rounds h : Nat}
    (short : 2 * h ≤ maxLiPerPdu) (enough : maxLiPerPdu < 2 * (h + rounds)) :
    ∃ count, maxLiPerPdu < count ∧
      liLoop mem rounds (start + 3 * h) (lisAt mem start 0 (2 * h))
        (sizeBehind mem start size (2 * h)) =
        some (readBehind mem start size false count) := by
  induction rounds generalizing h with
  | zero => exact absurd enough (by omega)
  | succ rounds ih =>
    rw [liLoop_round]
    by_cases full : 2 * h = maxLiPerPdu
    · split
      · exact ⟨2 * h + 2, by omega, if_pos (by omega)⟩
      · exact ⟨2 * h + 1, by omega, if_pos (by omega)⟩
    · have even : 2 * h + 2 ≤ maxLiPerPdu := by
        simp only [maxLiPerPdu] at short full ⊢
        omega
      rw [if_pos (endless _ (by omega)), if_neg (by omega), if_pos (endless _ (by omega))]
      exact ih (by omega) (by omega)

end Loop

/-- `rlc_um_read_length_indicators` on the bytes from `start` on: the loop ends, it stores no
more indicators than the array can take, and it accepts only when the header bytes it has
read, the indicators and a last piece that is not empty make up the size. -/
def ReadSafe (mem : Memory) (start : Nat) (size : Int) : Prop :=
  ∃ read, liLoop mem liRounds start [] size = some read ∧
    readLengthIndicators mem start size = read ∧
    read.liArray.length ≤ maxLiPerPdu ∧
    (read.accepted = true →
      0 < read.dataSize ∧ headerLiLength read.liArray.length + read.liArray.sum +
        read.dataSize = size)

section Read

variable {mem : Memory} {start : Nat}

/-- Some indicator that fits in the array announces no other. -/
def Ends (mem : Memory) (start : Nat) : Prop := ∃ k < maxLiPerPdu, liE mem start k = false

theorem Ends.chain (ends : Ends mem start) : ∃ count ≤ maxLiPerPdu, ChainOf mem start 0 count := by
  classical
  obtain ⟨inside, last⟩ := Nat.find_spec ends
  refine ⟨Nat.find ends + 1, inside, Nat.succ_pos _, fun j below => ?_⟩
  rw [Nat.zero_add]
  obtain before | here := Nat.lt_succ_iff_lt_or_eq.mp below
  · have more : liE mem start j ≠ false := fun clear =>
      Nat.find_min ends before ⟨Nat.lt_trans before inside, clear⟩
    rw [Bool.ne_false_iff.mp more, eq_comm, decide_eq_true_eq]
    exact Nat.succ_lt_succ before
  · rw [here, last, eq_comm, decide_eq_false_iff_not]
    exact Nat.lt_irrefl _

theorem readLengthIndicators_of_some {size : Int} {read : LiRead}
    (ends : liLoop mem liRounds start [] size = some read) :
    readLengthIndicators mem start size = read := by
  rw [readLengthIndicators, ends]
  rfl

theorem liLoop_start (rounds : Nat) (size : Int) :
    liLoop mem rounds (start + 3 * 0) (lisAt mem start 0 (2 * 0))
      (sizeBehind mem start size (2 * 0)) =
      liLoop mem rounds start [] size := by
  simp [sizeBehind, lisAt, headerLiLength]

theorem liLoop_read {count : Nat} (chain : ChainOf mem start 0 count)
    (fits : count ≤ maxLiPerPdu) (size : Int) :
    liLoop mem liRounds start [] size =
      some (readBehind mem start size (decide (sizeBehind mem start size count > 0)) count) := by
  have enough : count ≤ 2 * liRounds := by
    simp only [liRounds, maxLiPerPdu] at fits ⊢
    omega
  rw [← liLoop_start]
  have loop :=
    liLoop_chain mem start size (h := 0) chain enough
    (by rw [Nat.mul_zero, Nat.zero_add]; exact fits)
  rwa [Nat.mul_zero, Nat.zero_add] at loop

theorem readSafe_iff (size : Int) : ReadSafe mem start size ↔ Ends mem start := by
  constructor
  · rintro ⟨read, loop, -, short, -⟩
    by_contra endless
    have more : ∀ j < maxLiPerPdu, liE mem start j = true := by
      intro j inside
      exact Bool.ne_false_iff.mp fun clear => endless ⟨j, inside, clear⟩
    obtain ⟨count, long, refused⟩ :=
      liLoop_endless mem start size more (Nat.zero_le _) (show _ < 2 * (0 + liRounds) by decide)
    rw [liLoop_start, loop, Option.some.injEq] at refused
    rw [refused] at short
    exact absurd ((lisAt_length mem start count).symm.trans_le short) (Nat.not_le.mpr long)
  · intro ends
    obtain ⟨count, fits, chain⟩ := ends.chain
    have loop := liLoop_read chain fits size
    refine ⟨_, loop, readLengthIndicators_of_some loop, ?_, fun accepted => ⟨?_, ?_⟩⟩
    · exact (lisAt_length mem start count).trans_le fits
    · exact of_decide_eq_true accepted
    · simp only [readBehind, lisAt_length, sizeBehind]
      omega

end Read

end OpenAir.Rlc.Um
