import Mathlib.Tactic.IntervalCases
import Mathlib.Tactic.Linarith
import OpenAir.Lib.BitField
import OpenAir.Phy.TurboTable

/-! Segmentation of a transport block into code blocks, and the reassembly by the receivers. -/
namespace OpenAir.Phy
open BitField (Memory)

/-- A difference of `unsigned int`. -/
def sub32 (a b : Nat) : Nat := (a + 2 ^ 32 - b) % 2 ^ 32

theorem sub32_eq {a b : Nat} (ordered : b ≤ a) (small : a < 2 ^ 32) : sub32 a b = a - b := by
  rw [sub32]
  omega

/-- `C`, with `MAX_NUM_DLSCH_SEGMENTS` still to be checked. -/
def numBlocks (b : Nat) : Nat :=
  if b ≤ 6144 then 1
  else if (6144 - 24) * (b / (6144 - 24)) < b then b / (6144 - 24) + 1 else b / (6144 - 24)

/-- `L`, the size of the CRC of a code block. -/
def crcSize (b : Nat) : Nat := if b ≤ 6144 then 0 else 24

def bPrime (b : Nat) : Nat := if b ≤ 6144 then b else (b + numBlocks b * crcSize b) % 2 ^ 32

def roundUp (shift size : Nat) : Nat :=
  if (size >>> shift) <<< shift < size then (size >>> shift) <<< shift + 2 ^ shift
    else (size >>> shift) <<< shift

/-- `Kplus` and `Kminus` for the average block size, which is rounded down. -/
def blockSizesOf (average : Nat) : Option (Nat × Nat) :=
  if average ≤ 40 then some (40, 0)
  else if average ≤ 512 then some ((average >>> 3) <<< 3, sub32 average 8)
  else if average ≤ 1024 then some (roundUp 4 average, sub32 (roundUp 4 average) 16)
  else if average ≤ 2048 then some (roundUp 5 average, sub32 (roundUp 5 average) 32)
  else if average ≤ 6144 then some (roundUp 6 average, sub32 (roundUp 6 average) 64)
  else none

structure Segments where
  c : Nat
  cPlus : Nat
  cMinus : Nat
  kPlus : Nat
  kMinus : Nat
  f : Nat
deriving DecidableEq

/-- The sizes that `lte_segmentation` computes; no value where it returns -1 or stops at its
assertion. -/
def lteSegmentation (b : Nat) : Option Segments :=
  let c := numBlocks b
  if c > 16 then none
  else
    match blockSizesOf (bPrime b / c) with
    | none => none
    | some (kPlus, kMinus) =>
      let cMinus := if c = 1 then 0 else sub32 (c * kPlus % 2 ^ 32) (bPrime b) / sub32 kPlus kMinus
      let cPlus := if c = 1 then c else sub32 c cMinus
      let kMinus := if c = 1 then 0 else kMinus
      let total := (cPlus * kPlus + cMinus * kMinus) % 2 ^ 32
      if bPrime b ≤ total then
        some ⟨c, cPlus, cMinus, kPlus, kMinus, sub32 total (bPrime b)⟩ else none

/-- `Kr` -/
def Segments.size (seg : Segments) (r : Nat) : Nat :=
  if r < seg.cMinus then seg.kMinus else seg.kPlus

/-- What the sizes must be: sums and differences are of integers, so nothing has wrapped. -/
structure Segments.Sizes (b : Nat) (seg : Segments) : Prop where
  total : bPrime b = b + seg.c * crcSize b
  counts : seg.c = seg.cPlus + seg.cMinus
  enough : bPrime b ≤ seg.c * seg.kPlus
  ordered : seg.kMinus ≤ seg.kPlus
  filler : seg.f + bPrime b = seg.cPlus * seg.kPlus + seg.cMinus * seg.kMinus
  inTable : seg.kPlus ∈ blockSizes
  least : ∀ k ∈ blockSizes, bPrime b ≤ seg.c * k → seg.kPlus ≤ k
  minusInTable : 0 < seg.cMinus → seg.kMinus ∈ blockSizes
  minusNext : 0 < seg.cMinus → seg.kMinus < seg.kPlus ∧ ∀ k ∈ blockSizes,
    k < seg.kPlus → k ≤ seg.kMinus
  fillerBytes : seg.f % 8 = 0
  fillerFits : seg.f < seg.size 0

/-- The average loses no part of a bit where it is itself a size. -/
def ExactAverage (b : Nat) : Prop := bPrime b % numBlocks b = 0 ∨ bPrime b / numBlocks b % 64 ≠ 0

section Sizes

variable {b : Nat}

theorem numBlocks_single (small : b ≤ 6144) : numBlocks b = 1 := if_pos small

theorem numBlocks_bounds (large : 6144 < b) : 6120 * (numBlocks b - 1) < b ∧
    b ≤ 6120 * numBlocks b ∧ 2 ≤ numBlocks b := by
  rw [numBlocks, if_neg (Nat.not_le.mpr large)]
  split <;> omega

theorem roundUp_eq (shift size : Nat) :
    roundUp shift size = if size / 2 ^ shift * 2 ^ shift < size then
    size / 2 ^ shift * 2 ^ shift + 2 ^ shift
      else size / 2 ^ shift * 2 ^ shift := by
  rw [roundUp, Nat.shiftRight_eq_div_pow, Nat.shiftLeft_eq]

/-- The size chosen for a single block is the least that holds it. -/
theorem blockSizesOf_single (small : b ≤ 6144) (least : 40 ≤ b) (bytes : b % 8 = 0) :
    ∃ kPlus kMinus, blockSizesOf b = some (kPlus, kMinus) ∧ IsBlockSize kPlus ∧ b ≤ kPlus ∧
      ∀ k, IsBlockSize k → b ≤ k → kPlus ≤ k := by
  simp only [blockSizesOf, roundUp_eq, IsBlockSize, Nat.shiftRight_eq_div_pow,
    Nat.shiftLeft_eq, Nat.reducePow]
  split
  · exact ⟨_, _, rfl, by omega, by omega, fun k _ _ => by omega⟩
  · split
    · exact ⟨_, _, rfl, by omega, by omega, fun k _ _ => by omega⟩
    · split
      · refine ⟨_, _, rfl, ?_⟩
        split
        · exact ⟨by omega, by omega, fun k _ _ => by omega⟩
        · exact ⟨by omega, by omega, fun k _ _ => by omega⟩
      · split
        · refine ⟨_, _, rfl, ?_⟩
          split
          · exact ⟨by omega, by omega, fun k _ _ => by omega⟩
          · exact ⟨by omega, by omega, fun k _ _ => by omega⟩
        · refine ⟨_, _, rfl, ?_⟩
          split
          · exact ⟨by omega, by omega, fun k _ _ => by omega⟩
          · exact ⟨by omega, by omega, fun k _ _ => by omega⟩

theorem segmentation_single (small : b ≤ 6144) (least : 40 ≤ b) (bytes : b % 8 = 0) :
    ∃ seg, lteSegmentation b = some seg ∧ seg.Sizes b ∧ seg.f + crcSize b ≤ seg.size 0 := by
  obtain ⟨kPlus, kMinus, chosen, size, holds, smallest⟩ := blockSizesOf_single small least bytes
  have one : numBlocks b = 1 := numBlocks_single small
  have whole : bPrime b = b := if_pos small
  have most : kPlus ≤ 6144 := by
    rw [IsBlockSize] at size
    omega
  have total : (1 * kPlus + 0 * 0) % 2 ^ 32 = kPlus := by omega
  have filler : sub32 kPlus b = kPlus - b := sub32_eq holds (by omega)
  refine ⟨⟨1, 1, 0, kPlus, 0, kPlus - b⟩, ?_, ?_, ?_⟩
  · simp only [lteSegmentation, one, whole, Nat.div_one, chosen, if_true, total,
      filler, if_pos holds]
    rfl
  · have multiple : kPlus % 8 = 0 := by
      rw [IsBlockSize] at size
      omega
    exact {
      total := by rw [whole, crcSize, if_pos small, Nat.mul_zero, Nat.add_zero]
      counts := rfl
      enough := by simpa only [whole, Nat.one_mul] using holds
      ordered := Nat.zero_le _
      filler := by simp only [whole]; omega
      inTable := mem_blockSizes.mpr size
      least := fun k member enough => smallest k (mem_blockSizes.mp member) (by
        simpa only [whole, Nat.one_mul] using enough)
      minusInTable := fun none => absurd none (Nat.lt_irrefl 0)
      minusNext := fun none => absurd none (Nat.lt_irrefl 0)
      fillerBytes := by simp only; omega
      fillerFits := by simp only [Segments.size, Nat.lt_irrefl, if_false]; omega }
  · simp only [Segments.size, crcSize, if_pos small, Nat.lt_irrefl, if_false]
    omega

theorem average_bounds (large : 6144 < b) (few : numBlocks b ≤ 16) :
    bPrime b = b + 24 * numBlocks b ∧ 2048 < bPrime b / numBlocks b ∧
    bPrime b / numBlocks b ≤ 6144 := by
  obtain ⟨low, high, several⟩ := numBlocks_bounds large
  have whole : bPrime b = b + 24 * numBlocks b := by
    rw [bPrime, if_neg (Nat.not_le.mpr large), crcSize, if_neg (Nat.not_le.mpr large)]
    omega
  rw [whole]
  generalize numBlocks b = c at *
  interval_cases c <;> omega

theorem blockSizesOf_several {average : Nat} (low : 2048 < average) (high : average ≤ 6144) :
    blockSizesOf average = some (roundUp 6 average, roundUp 6 average - 64) := by
  have bounds : 64 ≤ roundUp 6 average ∧ roundUp 6 average < 2 ^ 32 := by
    rw [roundUp_eq]
    split <;> omega
  rw [blockSizesOf, if_neg (by omega), if_neg (by omega), if_neg (by omega),
    if_neg (by omega), if_pos high, sub32_eq bounds.1 bounds.2]

/-- `Kplus` is chosen from the average, whatever comes of the rest. -/
theorem segmentation_kPlus {seg : Segments} (done : lteSegmentation b = some seg) :
    seg.c = numBlocks b ∧ numBlocks b ≤ 16 ∧ ∃ kMinus, blockSizesOf (bPrime b / numBlocks b) =
    some (seg.kPlus, kMinus) := by
  simp only [lteSegmentation] at done
  split at done
  · exact nomatch done
  · rename_i few
    split at done
    · exact nomatch done
    · rename_i kPlus kMinus chosen
      obtain ⟨-, same⟩ := Option.ite_none_right_eq_some.mp done
      cases same
      exact ⟨rfl, Nat.not_lt.mp few, kMinus, chosen⟩

theorem roundUp_average {average : Nat} (low : 2048 < average) (high : average ≤ 6144) :
    IsBlockSize (roundUp 6 average) ∧ average ≤ roundUp 6 average ∧
    roundUp 6 average < average + 64 ∧ roundUp 6 average % 64 = 0 ∧
      ∀ k, IsBlockSize k → average ≤ k → roundUp 6 average ≤ k := by
  simp only [roundUp_eq, IsBlockSize, Nat.reducePow]
  split <;> exact ⟨by omega, by omega, by omega, by omega, fun k size enough => by omega⟩

/-- The larger size holds the blocks, with less than 64 bits to spare in each. -/
theorem kPlus_several {c total : Nat} (several : 2 ≤ c) (low : 2048 < total / c)
    (high : total / c ≤ 6144)
    (exact_ : total % c = 0 ∨ total / c % 64 ≠ 0) :
    IsBlockSize (roundUp 6 (total / c)) ∧ 2048 < roundUp 6 (total / c) ∧
    total ≤ c * roundUp 6 (total / c) ∧
      c * roundUp 6 (total / c) < total + 64 * c ∧ (c * roundUp 6 (total / c)) % 8 = 0 ∧
      ∀ k, IsBlockSize k → total ≤ c * k → roundUp 6 (total / c) ≤ k := by
  have positive : 0 < c := by omega
  obtain ⟨size, above, near, multiple, least⟩ := roundUp_average low high
  have whole := Nat.div_add_mod total c
  have rest := Nat.mod_lt total positive
  have enough : total ≤ c * roundUp 6 (total / c) := by
    obtain exact_ | inexact := exact_
    · have kept := Nat.mul_le_mul_left c above
      omega
    · have next : total / c + 1 ≤ roundUp 6 (total / c) := by omega
      have kept := Nat.mul_le_mul_left c next
      rw [Nat.mul_add] at kept
      omega
  refine ⟨size, Nat.lt_of_lt_of_le low above, enough, ?_, ?_, fun k fits holds => least k fits ?_⟩
  · have kept := Nat.mul_lt_mul_of_pos_left near positive
    rw [Nat.mul_add] at kept
    omega
  · rw [Nat.mul_mod, show roundUp 6 (total / c) % 8 = 0 by omega]
    rfl
  · exact Nat.div_le_of_le_mul holds

/-- The bits to spare become smaller blocks, and filler where they are too few. -/
theorem filler_several {c kPlus total : Nat} (enough : total ≤ c * kPlus)
    (spare : c * kPlus < total + 64 * c)
    (large : 64 ≤ kPlus) :
    (c * kPlus - total) / 64 < c ∧
      (c * kPlus - total) % 64 + total =
        (c - (c * kPlus - total) / 64) * kPlus + (c * kPlus - total) / 64 * (kPlus - 64) := by
  obtain ⟨m, rfl⟩ := Nat.exists_eq_add_of_le large
  obtain ⟨e, spares⟩ := Nat.exists_eq_add_of_le enough
  rw [spares, Nat.add_sub_cancel_left, Nat.add_sub_cancel_left]
  have fewer : e / 64 < c := by omega
  obtain ⟨y, rfl⟩ := Nat.exists_eq_add_of_lt fewer
  have split_ : e = 64 * (e / 64) + e % 64 := (Nat.div_add_mod e 64).symm
  refine ⟨fewer, ?_⟩
  rw [show e / 64 + y + 1 - e / 64 = y + 1 by omega]
  generalize e / 64 = x at *
  generalize e % 64 = f at *
  subst split_
  linarith

theorem segmentation_several (large : 6144 < b) (few : numBlocks b ≤ 16) (bytes : b % 8 = 0)
    (exact_ : ExactAverage b) :
    ∃ seg, lteSegmentation b = some seg ∧ seg.Sizes b ∧ seg.f + crcSize b ≤ seg.size 0 := by
  obtain ⟨-, most, several⟩ := numBlocks_bounds large
  obtain ⟨whole, low, high⟩ := average_bounds large few
  have total8 : bPrime b % 8 = 0 := by omega
  obtain ⟨size, above, enough, spare, product8, smallest⟩ := kPlus_several several low high exact_
  have chosen := blockSizesOf_several low high
  rw [ExactAverage] at exact_
  generalize blocks : numBlocks b = c at *
  generalize roundUp 6 (bPrime b / c) = kPlus at *
  obtain ⟨fewer, balance⟩ := filler_several enough spare (by omega)
  have notOne : c ≠ 1 := by omega
  have bound : kPlus ≤ 6144 := by
    rw [IsBlockSize] at size
    omega
  have product : c * kPlus ≤ 16 * 6144 := Nat.mul_le_mul few bound
  have difference : sub32 (c * kPlus % 2 ^ 32) (bPrime b) = c * kPlus - bPrime b := by
    rw [Nat.mod_eq_of_lt (by omega), sub32_eq enough (by omega)]
  have step : sub32 kPlus (kPlus - 64) = 64 := by
    rw [sub32_eq (Nat.sub_le _ _) (by omega)]
    omega
  have rest : sub32 c ((c * kPlus - bPrime b) / 64) = c - (c * kPlus - bPrime b) / 64 :=
    sub32_eq (Nat.le_of_lt fewer) (by omega)
  have total :
    ((c - (c * kPlus - bPrime b) / 64) * kPlus + (c * kPlus - bPrime b) / 64 * (kPlus - 64))
        % 2 ^ 32 =
      (c * kPlus - bPrime b) % 64 + bPrime b := by
    rw [← balance]
    exact Nat.mod_eq_of_lt (by omega)
  have filler : sub32 ((c * kPlus - bPrime b) % 64 + bPrime b) (bPrime b) =
      (c * kPlus - bPrime b) % 64 := by
    rw [sub32_eq (Nat.le_add_left ..) (by omega)]
    exact Nat.add_sub_cancel ..
  refine ⟨⟨c, c - (c * kPlus - bPrime b) / 64, (c * kPlus - bPrime b) / 64, kPlus, kPlus - 64,
    (c * kPlus - bPrime b) % 64⟩, ?_, ?_, ?_⟩
  · simp only [lteSegmentation, blocks, gt_iff_lt, if_neg (Nat.not_lt.mpr few), chosen,
      if_neg notOne, difference, step, rest, total, filler, if_pos (Nat.le_add_left (bPrime b) _)]
  · have minus : IsBlockSize (kPlus - 64) ∧ ∀ k, IsBlockSize k → k < kPlus → k ≤ kPlus - 64 := by
      simp only [IsBlockSize] at size ⊢
      exact ⟨by omega, fun k _ _ => by omega⟩
    have first : (c * kPlus - bPrime b) % 64 < 64 := Nat.mod_lt _ (by decide)
    exact {
      total := by simp only [whole, crcSize, if_neg (Nat.not_le.mpr large)]; omega
      counts := by simp only; omega
      enough := enough
      ordered := Nat.sub_le ..
      filler := balance
      inTable := mem_blockSizes.mpr size
      least := fun k member enough => smallest k (mem_blockSizes.mp member) enough
      minusInTable := fun _ => mem_blockSizes.mpr minus.1
      minusNext :=
        fun _ => ⟨by simp only; omega, fun k member => minus.2 k (mem_blockSizes.mp member)⟩
      fillerBytes := by simp only; omega
      fillerFits := by simp only [Segments.size]; split <;> omega }
  · have first : (c * kPlus - bPrime b) % 64 < 64 := Nat.mod_lt _ (by decide)
    simp only [Segments.size, crcSize, if_neg (Nat.not_le.mpr large)]
    split <;> omega

theorem segmentation_exact {seg : Segments} (least : 40 ≤ b) (bytes : b % 8 = 0)
    (done : lteSegmentation b = some seg)
    (exact_ : ExactAverage b) : seg.Sizes b ∧ seg.f + crcSize b ≤ seg.size 0 := by
  obtain small | large := le_or_gt b 6144
  · obtain ⟨other, same, sizes⟩ := segmentation_single small least bytes
    cases done.symm.trans same
    exact sizes
  · obtain ⟨other, same, sizes⟩ :=
      segmentation_several large (segmentation_kPlus done).2.1 bytes exact_
    cases done.symm.trans same
    exact sizes

/-- A size below the average of the bits does not hold them. -/
theorem exactAverage_of_enough {seg : Segments} (done : lteSegmentation b = some seg)
    (enough : bPrime b ≤ seg.c * seg.kPlus) :
    ExactAverage b := by
  obtain ⟨count, few, kMinus, chosen⟩ := segmentation_kPlus done
  rw [ExactAverage]
  obtain small | large := le_or_gt b 6144
  · exact .inl (by rw [numBlocks_single small, Nat.mod_one])
  · obtain ⟨-, low, high⟩ := average_bounds large few
    obtain ⟨-, -, several⟩ := numBlocks_bounds large
    rw [blockSizesOf_several low high] at chosen
    obtain ⟨chosen, -⟩ := Prod.mk.inj (Option.some.inj chosen)
    rw [count, ← chosen, roundUp_eq] at enough
    by_contra inexact
    obtain ⟨remainder, multiple⟩ := not_or.mp inexact
    have multiple := not_not.mp multiple
    have split_ := Nat.div_add_mod (bPrime b) (numBlocks b)
    rw [if_neg (by omega), show bPrime b / numBlocks b / 2 ^ 6 * 2 ^ 6 = bPrime b / numBlocks b by
      omega] at enough
    omega

end Sizes

end OpenAir.Phy
