import OpenAir.Lib.Recurrence
import Mathlib.Logic.Function.Iterate
import Mathlib.Tactic.IntervalCases

/-! The Gold sequence, a word at a time. -/
namespace OpenAir.Phy.Gold
open Recurrence (Holds)

/-- The sequence of the first register: `x1(n+31) = x1(n+3) + x1(n)`. -/
def x1Bit : Nat → Bool := Recurrence.sequence 31 [3, 0] fun n => n = 0

/-- The sequence of the second register: `x2(n+31) = x2(n+3) + x2(n+2) + x2(n+1) + x2(n)`. -/
def x2Bit (cInit : BitVec 31) : Nat → Bool := Recurrence.sequence 31 [3, 2, 1, 0] cInit.getLsbD

/-- `c(n)`, behind the 1600 bits that are skipped. -/
def cBit (cInit : BitVec 31) (n : Nat) : Bool := x1Bit (n + 1600) ^^ x2Bit cInit (n + 1600)

/-- The shift registers `x1` and `x2`. -/
structure Registers where
  x1 : BitVec 32
  x2 : BitVec 32
deriving DecidableEq

def stepX1 (x1 : BitVec 32) : BitVec 32 :=
  let x1 := (x1 >>> 1) ^^^ (x1 >>> 4)
  x1 ^^^ (x1 <<< 31) ^^^ (x1 <<< 28)

def stepX2 (x2 : BitVec 32) : BitVec 32 :=
  let x2 := (x2 >>> 1) ^^^ (x2 >>> 2) ^^^ (x2 >>> 3) ^^^ (x2 >>> 4)
  x2 ^^^ (x2 <<< 31) ^^^ (x2 <<< 30) ^^^ (x2 <<< 29) ^^^ (x2 <<< 28)

def Registers.step (r : Registers) : Registers := ⟨stepX1 r.x1, stepX2 r.x2⟩

/-- What `reset` does first: `x2` is the seed with its 32nd bit. -/
def Registers.reset (r : Registers) : Registers :=
  ⟨1 + (1 <<< 31), r.x2 ^^^ ((r.x2 ^^^ (r.x2 >>> 1) ^^^ (r.x2 >>> 2) ^^^ (r.x2 >>> 3)) <<< 31)⟩

/-- The body of both functions: the word that is returned, and the registers after it. -/
def goldWord (r : Registers) (reset : Bool) : BitVec 32 × Registers :=
  let r := if reset then Registers.step^[49] r.reset else r
  let r := r.step
  (r.x1 ^^^ r.x2, r)

def lteGoldGeneric (r : Registers) (reset : Bool) : BitVec 32 × Registers := goldWord r reset

def lteGoldUnscram (r : Registers) (reset : Bool) : BitVec 32 × Registers := goldWord r reset

/-- The call number `k` after the one that resets, from any `x1` and the seed in `x2`. -/
def nthCall (gold : Registers → Bool → BitVec 32 × Registers) (r : Registers) : Nat →
    BitVec 32 × Registers
  | 0 => gold r true
  | k + 1 => gold (nthCall gold r k).2 false

theorem x1Bit_next (n : Nat) : x1Bit (n + 31) = (x1Bit (n + 3) ^^ x1Bit n) := by
  rw [x1Bit, Recurrence.sequence_next]
  simp only [List.map_cons, List.map_nil, List.foldr_cons, List.foldr_nil, Bool.xor_false]
  rfl

theorem x2Bit_next (cInit : BitVec 31) (n : Nat) :
    x2Bit cInit (n + 31) =
    (x2Bit cInit (n + 3) ^^ x2Bit cInit (n + 2) ^^ x2Bit cInit (n + 1) ^^ x2Bit cInit n) := by
  rw [x2Bit, Recurrence.sequence_next]
  simp only [List.map_cons, List.map_nil, List.foldr_cons, List.foldr_nil, Bool.xor_false,
    Bool.xor_assoc]
  rfl

/-! ### A word of each register -/

/-- The first 28 bits of the next word are sums of bits of this one. -/
theorem x1_early {word : BitVec 32} {i : Nat} (early : i < 28) :
    (stepX1 word).getLsbD i = (word.getLsbD (1 + i) ^^ word.getLsbD (4 + i)) := by
  have inside : i < 31 := Nat.lt_trans early (by decide)
  simp only [stepX1, BitVec.getLsbD_xor, BitVec.getLsbD_shiftLeft, BitVec.getLsbD_ushiftRight,
    early, inside, decide_true, Bool.not_true, Bool.and_false, Bool.false_and, Bool.xor_false]

theorem x2_early {word : BitVec 32} {i : Nat} (early : i < 28) :
    (stepX2 word).getLsbD i =
      (word.getLsbD (1 + i) ^^ word.getLsbD (2 + i) ^^ word.getLsbD
        (3 + i) ^^ word.getLsbD (4 + i)) := by
  have last : i < 31 := Nat.lt_trans early (by decide)
  have third : i < 30 := Nat.lt_trans early (by decide)
  have second : i < 29 := Nat.lt_trans early (by decide)
  simp only [stepX2, BitVec.getLsbD_xor, BitVec.getLsbD_shiftLeft, BitVec.getLsbD_ushiftRight,
    early, second, third, last, decide_true, Bool.not_true, Bool.and_false, Bool.false_and,
      Bool.xor_false, Bool.xor_assoc]

/-- The last four bits need bits of the same step: these are among its first ones, which are
done. -/
theorem x1_late (word : BitVec 32) {j : Nat} (late : j < 4) :
    (stepX1 word).getLsbD (28 + j) =
      ((if j < 3 then word.getLsbD (29 + j) else (stepX1 word).getLsbD (j - 3)) ^^
        (stepX1 word).getLsbD j) := by
  interval_cases j <;>
  simp only [stepX1, BitVec.getLsbD_xor, BitVec.getLsbD_shiftLeft, BitVec.getLsbD_ushiftRight] <;>
  simp

theorem x2_late (word : BitVec 32) {j : Nat} (late : j < 4) :
    (stepX2 word).getLsbD (28 + j) =
      ((if j < 3 then word.getLsbD (29 + j) else (stepX2 word).getLsbD (j - 3)) ^^
        (if j < 2 then word.getLsbD (30 + j) else (stepX2 word).getLsbD (j - 2)) ^^
        (if j < 1 then word.getLsbD (31 + j) else (stepX2 word).getLsbD (j - 1)) ^^
          (stepX2 word).getLsbD j) := by
  interval_cases j <;>
  simp only [stepX2, BitVec.getLsbD_xor, BitVec.getLsbD_shiftLeft, BitVec.getLsbD_ushiftRight] <;>
  simp

/-- A bit that is read from the word while it lies in it, and from the next word from there on. -/
theorem holds_across {s : Nat → Bool} {word next : BitVec 32} {n : Nat} (holds : Holds word s n)
    (early : ∀ i < 28, next.getLsbD i = s (n + 32 + i)) {j k : Nat} (short : k < 4) (late : j < 4) :
    (if j < k then word.getLsbD (32 - k + j) else next.getLsbD (j - k)) = s (n + 32 + j - k) := by
  split
  · next inside =>
    rw [holds _ (by omega)]
    exact congrArg s (by omega)
  · rw [early _ (by omega)]
    exact congrArg s (by omega)

theorem stepX1_holds {s : Nat → Bool} (next : ∀ n, s (n + 31) = (s (n + 3) ^^ s n))
    (word : BitVec 32) (n : Nat)
    (holds : Holds word s n) : Holds (stepX1 word) s (n + 32) := by
  have early : ∀ i < 28, (stepX1 word).getLsbD i = s (n + 32 + i) := by
    intro i inside
    rw [x1_early inside, holds _ (by omega), holds _ (by omega), show n + 32 + i =
      n + (1 + i) + 31 by omega, next, Bool.xor_comm]
    exact congrArg (· ^^ s (n + (1 + i))) (congrArg s (by omega))
  intro i inside
  rcases Nat.lt_or_ge i 28 with first | last
  · exact early i first
  · obtain ⟨j, rfl⟩ := Nat.exists_eq_add_of_le last
    have late : j < 4 := by omega
    rw [x1_late word late, holds_across holds early (k := 3) (by decide) late, early j (by omega),
      show n + 32 + (28 + j) = n + 29 + j + 31 by omega, next, Bool.xor_comm]
    exact congrArg₂ (· ^^ ·) (congrArg s (by omega)) (congrArg s (by omega))

theorem stepX2_holds {s : Nat → Bool}
    (next : ∀ n, s (n + 31) = (s (n + 3) ^^ s (n + 2) ^^ s (n + 1) ^^ s n))
    (word : BitVec 32) (n : Nat) (holds : Holds word s n) : Holds (stepX2 word) s (n + 32) := by
  have early : ∀ i < 28, (stepX2 word).getLsbD i = s (n + 32 + i) := by
    intro i inside
    rw [x2_early inside, holds _ (by omega), holds _ (by omega), holds _ (by omega),
      holds _ (by omega), show n + 32 + i = n + (1 + i) + 31 by omega, next]
    rw [show n + (1 + i) + 1 = n + (2 + i) by omega, show n + (1 + i) + 2 = n + (3 + i) by omega,
      show n + (1 + i) + 3 = n + (4 + i) by omega]
    simp only [Bool.xor_assoc, Bool.xor_comm]
  intro i inside
  rcases Nat.lt_or_ge i 28 with first | last
  · exact early i first
  · obtain ⟨j, rfl⟩ := Nat.exists_eq_add_of_le last
    have late : j < 4 := by omega
    rw [x2_late word late, holds_across holds early (k := 3) (by decide) late,
      holds_across holds early (k := 2) (by decide) late,
        holds_across holds early (k := 1) (by decide) late,
      early j (by omega), show n + 32 + (28 + j) = n + 29 + j + 31 by omega, next]
    rw [show n + 29 + j + 3 = n + 32 + j by omega, show n + 29 + j + 2 = n + 32 + j - 1 by omega,
      show n + 29 + j + 1 = n + 32 + j - 2 by omega, show n + 29 + j = n + 32 + j - 3 by omega]
    simp only [Bool.xor_assoc, Bool.xor_comm]

/-! ### The calls -/

/-- Both registers hold their sequences from bit `n` on. -/
structure At (cInit : BitVec 31) (n : Nat) (r : Registers) : Prop where
  x1 : Holds r.x1 x1Bit n
  x2 : Holds r.x2 (x2Bit cInit) n

theorem At.step {cInit : BitVec 31} {n : Nat} {r : Registers} (at_ : At cInit n r) :
    At cInit (n + 32) r.step :=
  ⟨stepX1_holds x1Bit_next _ n at_.x1, stepX2_holds (x2Bit_next cInit) _ n at_.x2⟩

theorem At.steps {cInit : BitVec 31} {n : Nat} {r : Registers} (at_ : At cInit n r) (count : Nat) :
    At cInit (n + 32 * count) (Registers.step^[count] r) := by
  induction count with
  | zero => exact at_
  | succ count ih =>
    rw [Function.iterate_succ_apply', Nat.mul_succ, ← Nat.add_assoc]
    exact ih.step

theorem At.word {cInit : BitVec 31} {n : Nat} {r : Registers} (at_ : At cInit n r) {i : Nat}
    (inside : i < 32) :
    (r.x1 ^^^ r.x2).getLsbD i = (x1Bit (n + i) ^^ x2Bit cInit (n + i)) := at_.x1.xor at_.x2 i inside

/-- The first 32 bits of both sequences, the last one by the recursion. -/
theorem reset_at (cInit : BitVec 31) (x1 : BitVec 32) :
    At cInit 0 (Registers.reset ⟨x1, cInit.setWidth 32⟩) where
  x1 := by
    have start : ∀ n, n < 31 → x1Bit n = decide (n = 0) :=
      fun n early => Recurrence.sequence_start early
    intro i inside
    rw [Nat.zero_add]
    rcases Nat.lt_or_eq_of_le (Nat.le_of_lt_succ inside) with early | rfl
    · rw [start i early]
      change (2147483649#32).getLsbD i = decide (i = 0)
      interval_cases i <;> rfl
    · rw [x1Bit_next 0, start 3 (by decide), start 0 (by decide)]
      change (2147483649#32).getLsbD 31 = _
      decide
  x2 := by
    have start : ∀ n, n < 31 → x2Bit cInit n = cInit.getLsbD n :=
      fun n early => Recurrence.sequence_start early
    intro i inside
    rw [Nat.zero_add]
    simp only [Registers.reset, BitVec.getLsbD_xor, BitVec.getLsbD_shiftLeft,
      BitVec.getLsbD_ushiftRight, BitVec.getLsbD_setWidth]
    rcases Nat.lt_or_eq_of_le (Nat.le_of_lt_succ inside) with early | rfl
    · rw [start i early]
      simp [early, inside]
    · rw [x2Bit_next cInit 0, start 3 (by decide), start 2 (by decide), start 1 (by decide),
        start 0 (by decide)]
      have outside : cInit.getLsbD 31 = false := BitVec.getLsbD_of_ge cInit 31 (Nat.le_refl 31)
      rw [outside]
      cases cInit.getLsbD 0 <;> cases cInit.getLsbD 1 <;> cases cInit.getLsbD 2
        <;> cases cInit.getLsbD 3 <;> rfl

/-- The word of every call: its registers stand where the bits of the word are. -/
theorem nthCall_at (cInit : BitVec 31) (x1 : BitVec 32) (k : Nat) :
    ∃ r, At cInit (32 * k + 1600) r ∧ nthCall goldWord ⟨x1, cInit.setWidth 32⟩ k =
      (r.x1 ^^^ r.x2, r) := by
  induction k with
  | zero => exact ⟨_, ((reset_at cInit x1).steps 49).step, rfl⟩
  | succ k ih =>
    obtain ⟨r, at_, same⟩ := ih
    refine ⟨r.step, ?_, ?_⟩
    · have next := at_.step
      rwa [show 32 * k + 1600 + 32 = 32 * (k + 1) + 1600 by omega] at next
    · rw [nthCall, same]
      rfl

theorem goldWord_cBit (cInit : BitVec 31) (x1 : BitVec 32) (k : Nat) {i : Nat} (inside : i < 32) :
    (nthCall goldWord ⟨x1, cInit.setWidth 32⟩ k).1.getLsbD i = cBit cInit (32 * k + i) := by
  obtain ⟨r, at_, same⟩ := nthCall_at cInit x1 k
  rw [same, at_.word inside, cBit, Nat.add_right_comm]

/-- Bit `i` of the word of call `k` is `c(32k + i)`, in both functions, for every seed. -/
theorem gold_words (cInit : BitVec 31) (x1 : BitVec 32) (k : Nat) :
    (∀ i : Fin 32, (nthCall lteGoldGeneric ⟨x1, cInit.setWidth 32⟩ k).1.getLsbD i =
        cBit cInit (32 * k + i)) ∧
      (nthCall lteGoldUnscram ⟨x1, cInit.setWidth 32⟩ k).1 =
      (nthCall lteGoldGeneric ⟨x1, cInit.setWidth 32⟩ k).1 :=
  ⟨fun i => goldWord_cBit cInit x1 k i.isLt, rfl⟩

end OpenAir.Phy.Gold
