import Mathlib.Data.BitVec
import OpenAir.Lib.Carousel
import OpenAir.Phy.SubBlock

/-! Rate matching of a convolutional-coded block, as the DCIs use it, and its inverse in the
receiver. -/
namespace OpenAir.Phy

def bitrevCc : List Nat :=
  [1, 17, 9, 25, 5, 21, 13, 29, 3, 19, 11, 27, 7, 23, 15, 31, 0, 16, 8, 24, 4, 20, 12, 28, 2, 18,
   10, 26, 6, 22, 14, 30]

/-- The three streams stand one behind the other in `w`. -/
def subBlockInterleavingCc (size : Nat) (d : Int → Nat) (w : Nat → Nat) : (Nat → Nat) × Nat :=
  let rcc := rtcOf size
  let kpi := 32 * rcc
  let nd := kpi - size
  let store (w : Nat → Nat) (k index : Nat) : Nat → Nat :=
    let w := Function.update w k (d (3 * index - 3 * nd))
    let w := Function.update w (kpi + k) (d (3 * index - 3 * nd + 1))
    Function.update w (2 * kpi + k) (d (3 * index - 3 * nd + 2))
  (columns store rcc bitrevCc 0 w, rcc)

def subBlockDeinterleavingCc (size : Nat) (d : Int → Int) (w : Nat → Int) : Int → Int :=
  let rcc := rtcOf size
  let kpi := 32 * rcc
  let nd := kpi - size
  let store (d : Int → Int) (k index : Nat) : Int → Int :=
    let d := Function.update d (3 * index - 3 * nd) (w k)
    let d := Function.update d (3 * index - 3 * nd + 1) (w (kpi + k))
    Function.update d (3 * index - 3 * nd + 2) (w (2 * kpi + k))
  columns store rcc bitrevCc 0 d

/-- Only the heads of the columns can be null. -/
def dummyColumnsCc (rcc kpi nd : Nat) : (heads : List Nat) → (k : Nat) → (Nat → Nat) → Nat → Nat
  | [], _, w => w
  | index :: rest, k, w =>
    let w := markNull (index < nd) (2 * kpi + k)
      (markNull (index < nd) (kpi + k) (markNull (index < nd) k w))
    dummyColumnsCc rcc kpi nd rest (k + rcc) w

def generateDummyWCc (size : Nat) (w : Nat → Nat) : (Nat → Nat) × Nat :=
  let rcc := rtcOf size
  let kpi := 32 * rcc
  let nd := kpi - size
  (dummyColumnsCc rcc kpi nd bitrevCc 0 w, rcc)

/-- `Kw`, a `uint16_t`. -/
def kwOf (rcc : Nat) : Nat := 3 * (32 * rcc) % 65536

def lteRateMatchingCc (rcc : Nat) (e : UInt16) (w out : Nat → Nat) : Option (Nat → Nat) :=
  Carousel.walk (fun ind => w ind ≠ lteNull) (fun out k ind => Function.update out k (w ind))
    (kwOf rcc) e.toNat 0 0 out

/-- The rescaling to four bits. -/
def clip (soft : Int) : Int := if soft > 7 then 7 else if soft < -8 then -8 else soft

/-- The sums are kept in 16 bits. -/
def lteRateMatchingCcRx (rcc : Nat) (e : UInt16) (w : Nat → Int) (dummyW : Nat → Nat)
    (softInput : Nat → Int) :
    Option (Nat → Int) := do
  let w16 ← Carousel.walk (fun ind => dummyW ind ≠ lteNull)
    (fun (w16 : Nat → BitVec 16) k ind =>
      Function.update w16 ind (w16 ind + BitVec.ofInt 16 (softInput k)))
    (kwOf rcc) e.toNat 0 0 fun _ => 0
  return fun ind => if ind < kwOf rcc then clip (w16 ind).toInt else w ind

/-! ### Decoding a DCI -/

def maxDciSizeBits : Nat := 45

def dummyWRxSize : Nat := 3 * (maxDciSizeBits + 16 + 64)

def wRxSize : Nat := 3 * (maxDciSizeBits + 16 + 32)

def dRxSize : Nat := 96 + 3 * (maxDciSizeBits + 16)

/-- The arrays of `dci_decoding`; indices of `d_rx` are those from `&d_rx[96]`. -/
structure DciArrays where
  dummyWRx : Nat → Nat
  wRx : Nat → Int
  dRx : Int → Int

/-- Up to the call of the Viterbi decoder. -/
def dciDecoding (dciLength aggregationLevel : Nat) (e : Nat → Int) (arrays : DciArrays) :
    Option DciArrays := do
  let cleared := fun i => if i < 3 * (dciLength + 16 + 64) then 0 else arrays.dummyWRx i
  let (dummyWRx, rcc) := generateDummyWCc (dciLength + 16) cleared
  let wRx ← lteRateMatchingCcRx rcc (UInt16.ofNat (72 * 2 ^ aggregationLevel)) arrays.wRx dummyWRx e
  return ⟨dummyWRx, wRx, subBlockDeinterleavingCc (dciLength + 16) arrays.dRx wRx⟩

/-! ### What goes where -/

/-- The output of the encoder for `size` bits with the nulls before it. -/
structure CodedCc (size : Nat) (d : Int → Nat) : Prop where
  before : ∀ j : Int, -96 ≤ j → j < 0 → d j = lteNull
  bits : ∀ j : Int, 0 ≤ j → j < 3 * size → d j < lteNull

/-- The index of `d` that a place of `w` belongs to. -/
def sourceOfCc (size i : Nat) : Int :=
  let kpi := 32 * rtcOf size
  3 * permutedIndex bitrevCc (rtcOf size) (i % kpi) - 3 * (kpi - size : Nat) + (i / kpi : Nat)

theorem bitrevCc_permutation : IsPermutation bitrevCc := by
  unfold IsPermutation
  decide

section Streams

variable {size : Nat}

/-- A place of `w` is one of three streams. -/
theorem stream_split {kpi i : Nat} (inside : i < 3 * kpi) : i % kpi < kpi ∧
    (i = i % kpi ∧ i / kpi = 0 ∨ i = kpi + i % kpi ∧ i / kpi = 1 ∨ i = 2 * kpi + i % kpi ∧
      i / kpi = 2) := by
  have positive : 0 < kpi := by omega
  have stream : i / kpi < 3 := Nat.div_lt_of_lt_mul (by rwa [Nat.mul_comm])
  have whole := Nat.div_add_mod i kpi
  refine ⟨Nat.mod_lt _ positive, ?_⟩
  have three (n : Nat) (few : n < 3) : n = 0 ∨ n = 1 ∨ n = 2 := by omega
  obtain none | one | two := three _ stream
  · rw [none, Nat.mul_zero, Nat.zero_add] at whole
    exact .inl ⟨whole.symm, none⟩
  · rw [one, Nat.mul_one] at whole
    exact .inr (.inl ⟨whole.symm, one⟩)
  · rw [two, Nat.mul_comm] at whole
    exact .inr (.inr ⟨whole.symm, two⟩)

theorem sourceOfCc_bounds {i : Nat} (inside : i < 3 * (32 * rtcOf size)) :
    -96 < sourceOfCc size i ∧ sourceOfCc size i < 3 * size ∧
      (sourceOfCc size i < 0 ↔ permutedIndex bitrevCc (rtcOf size) (i % (32 * rtcOf size)) <
        32 * rtcOf size - size) := by
  obtain ⟨position, stream⟩ := stream_split inside
  have index := bitrevCc_permutation.index_lt position
  have bounds := rtcOf_bounds size
  unfold sourceOfCc
  simp only
  omega

theorem interleave_columns_cc {d : Int → Nat} {w : Nat → Nat} {rcc nd : Nat} :
    ∀ k < 32 * rcc,
      let out := columns
        (fun (w : Nat → Nat) k index => Function.update (Function.update (Function.update w k
        (d (3 * index - 3 * nd))) (32 * rcc + k) (d (3 * index - 3 * nd + 1))) (2 * (32 * rcc) + k)
          (d (3 * index - 3 * nd + 2))) rcc bitrevCc 0 w
      out k = d (3 * permutedIndex bitrevCc rcc k - 3 * nd) ∧
        out (32 * rcc + k) = d (3 * permutedIndex bitrevCc rcc k - 3 * nd + 1) ∧
        out (2 * (32 * rcc) + k) = d (3 * permutedIndex bitrevCc rcc k - 3 * nd + 2) := by
  refine @IsPermutation.rule _ _ rcc bitrevCc bitrevCc_permutation
    (fun n (out : Nat → Nat) => ∀ k < n,
    out k = d (3 * permutedIndex bitrevCc rcc k - 3 * nd) ∧
      out (32 * rcc + k) = d (3 * permutedIndex bitrevCc rcc k - 3 * nd + 1) ∧
      out (2 * (32 * rcc) + k) = d (3 * permutedIndex bitrevCc rcc k - 3 * nd + 2)) w
    (fun n inside out earlier k below => ?_) (fun k none => nomatch none)
  rcases Nat.lt_succ_iff_lt_or_eq.mp below with before | rfl
  · obtain ⟨first, second, third⟩ := earlier k before
    simp (disch := omega) only [Function.update_of_ne]
    exact ⟨first, second, third⟩
  · simp (disch := omega) only [Function.update_of_ne, Function.update_self]
    exact ⟨trivial, trivial, trivial⟩

theorem interleavedCc_eq {d : Int → Nat} {w : Nat → Nat} {i : Nat}
    (inside : i < 3 * (32 * rtcOf size)) :
    (subBlockInterleavingCc size d w).1 i = d (sourceOfCc size i) := by
  obtain ⟨position, stream⟩ := stream_split inside
  obtain ⟨first, second, third⟩ :=
    @interleave_columns_cc d w (rtcOf size) (32 * rtcOf size - size)
      (i % (32 * rtcOf size)) position
  rw [subBlockInterleavingCc, sourceOfCc]
  rcases stream with ⟨place, stream⟩ | ⟨place, stream⟩ | ⟨place, stream⟩
  · rw [stream, Nat.cast_zero, add_zero, ← first, ← place]
  · rw [stream, Nat.cast_one, ← second, ← place]
  · rw [stream, Nat.cast_two, ← third, ← place]

theorem deinterleave_columns_cc {d : Int → Int} {w : Nat → Int} {rcc nd : Nat} :
    ∀ k < 32 * rcc,
      let out := columns
        (fun (d : Int → Int) k index => Function.update (Function.update (Function.update d
        (3 * index - 3 * nd) (w k)) (3 * index - 3 * nd + 1) (w (32 * rcc + k)))
          (3 * index - 3 * nd + 2) (w (2 * (32 * rcc) + k))) rcc bitrevCc 0 d
      out (3 * permutedIndex bitrevCc rcc k - 3 * nd) = w k ∧
        out (3 * permutedIndex bitrevCc rcc k - 3 * nd + 1) = w (32 * rcc + k) ∧
        out (3 * permutedIndex bitrevCc rcc k - 3 * nd + 2) = w (2 * (32 * rcc) + k) := by
  refine @IsPermutation.rule _ _ rcc bitrevCc bitrevCc_permutation
    (fun n (out : Int → Int) => ∀ k < n,
    out (3 * permutedIndex bitrevCc rcc k - 3 * nd) = w k ∧
      out (3 * permutedIndex bitrevCc rcc k - 3 * nd + 1) = w (32 * rcc + k) ∧
      out (3 * permutedIndex bitrevCc rcc k - 3 * nd + 2) = w (2 * (32 * rcc) + k)) d
    (fun n inside out earlier k below => ?_) (fun k none => nomatch none)
  rcases Nat.lt_succ_iff_lt_or_eq.mp below with before | rfl
  · obtain ⟨first, second, third⟩ := earlier k before
    have apart : permutedIndex bitrevCc rcc k ≠ permutedIndex bitrevCc rcc n := fun same =>
      Nat.ne_of_lt before
        (bitrevCc_permutation.index_injective (Nat.lt_trans before inside) inside same)
    simp (disch := omega) only [Function.update_of_ne]
    exact ⟨first, second, third⟩
  · simp (disch := omega) only [Function.update_of_ne, Function.update_self]
    exact ⟨trivial, trivial, trivial⟩

theorem deinterleavedCc_eq {d : Int → Int} {w : Nat → Int} {i : Nat}
    (inside : i < 3 * (32 * rtcOf size)) :
    subBlockDeinterleavingCc size d w (sourceOfCc size i) = w i := by
  obtain ⟨position, stream⟩ := stream_split inside
  obtain ⟨first, second, third⟩ :=
    @deinterleave_columns_cc d w (rtcOf size) (32 * rtcOf size - size)
      (i % (32 * rtcOf size)) position
  rw [subBlockDeinterleavingCc, sourceOfCc]
  rcases stream with ⟨place, stream⟩ | ⟨place, stream⟩ | ⟨place, stream⟩
  · rw [stream, Nat.cast_zero, add_zero, first, ← place]
  · rw [stream, Nat.cast_one, second, ← place]
  · rw [stream, Nat.cast_two, third, ← place]

theorem deinterleavedCc_outside {d : Int → Int} {w : Nat → Int} {j : Int}
    (outside : j < -96 ∨ 3 * size ≤ j) :
    subBlockDeinterleavingCc size d w j = d j := by
  have bounds := rtcOf_bounds size
  rw [subBlockDeinterleavingCc]
  refine @IsPermutation.rule _ _ (rtcOf size) bitrevCc bitrevCc_permutation
    (fun _ (out : Int → Int) => out j = d j) d
    (fun k inside out earlier => ?_) rfl
  have index := bitrevCc_permutation.index_lt inside
  simp (disch := omega) only [Function.update_of_ne]
  exact earlier

theorem exists_sourceOfCc {j : Int} (low : 0 ≤ j) (high : j < 3 * size) :
    ∃ i < 3 * (32 * rtcOf size), sourceOfCc size i = j := by
  have bounds := rtcOf_bounds size
  obtain ⟨k, inside, index⟩ :=
    @IsPermutation.index_surjective (rtcOf size) bitrevCc bitrevCc_permutation
    (32 * rtcOf size - size + (j / 3).toNat) (by omega)
  have stream : (j % 3).toNat < 3 := by omega
  have most : (j % 3).toNat * (32 * rtcOf size) ≤ 2 * (32 * rtcOf size) :=
    Nat.mul_le_mul_right _ (Nat.le_of_lt_succ stream)
  refine ⟨(j % 3).toNat * (32 * rtcOf size) + k, by omega, ?_⟩
  unfold sourceOfCc
  simp only
  rw [Nat.mul_add_mod_of_lt inside, Nat.add_comm, Nat.add_mul_div_right _ _ (by omega),
    Nat.div_eq_of_lt inside, index]
  omega

end Streams

section Nulls

variable {size : Nat}

theorem dummyColumnsCc_null {rcc kpi nd : Nat} (heads : List Nat) (k : Nat)
    (w : Nat → Nat) (ind : Nat) :
    dummyColumnsCc rcc kpi nd heads k w ind = lteNull ↔ w ind = lteNull ∨
    ∃ col index, heads[col]? = some index ∧
      index < nd ∧
      (ind = k + col * rcc ∨ ind = kpi + (k + col * rcc) ∨ ind = 2 * kpi + (k + col * rcc)) := by
  induction heads generalizing k w with
  | nil =>
    rw [dummyColumnsCc]
    refine ⟨.inl, ?_⟩
    rintro (null | ⟨col, index, none, -⟩)
    · exact null
    · exact nomatch none
  | cons head rest ih =>
    rw [dummyColumnsCc, ih]
    simp only [markNull_null]
    constructor
    · rintro ((⟨null, place⟩ | ⟨null, place⟩ | ⟨null, place⟩ | null) | ⟨col, index,
        found, null, place⟩)
      · exact .inr ⟨0, head, rfl, null, .inr (.inr (by rwa [Nat.zero_mul, Nat.add_zero]))⟩
      · exact .inr ⟨0, head, rfl, null, .inr (.inl (by rwa [Nat.zero_mul, Nat.add_zero]))⟩
      · exact .inr ⟨0, head, rfl, null, .inl (by rwa [Nat.zero_mul, Nat.add_zero])⟩
      · exact .inl null
      · refine .inr ⟨col + 1, index, found, null, ?_⟩
        rwa [Nat.succ_mul, Nat.add_comm (col * rcc), ← Nat.add_assoc]
    · rintro (null | ⟨col, index, found, null, place⟩)
      · exact .inl (.inr (.inr (.inr null)))
      · cases col with
        | zero =>
          cases found
          rw [Nat.zero_mul, Nat.add_zero] at place
          rcases place with place | place | place
          · exact .inl (.inr (.inr (.inl ⟨null, place⟩)))
          · exact .inl (.inr (.inl ⟨null, place⟩))
          · exact .inl (.inl ⟨null, place⟩)
        | succ col =>
          refine .inr ⟨col, index, found, null, ?_⟩
          rwa [Nat.succ_mul, Nat.add_comm (col * rcc), ← Nat.add_assoc] at place

/-- The pattern marks the places of the indices before the bits, and no other ones. -/
theorem generateDummyWCc_null (w : Nat → Nat) (i : Nat) :
    (generateDummyWCc size w).1 i = lteNull ↔
      w i = lteNull ∨ i < 3 * (32 * rtcOf size) ∧ sourceOfCc size i < 0 := by
  have bounds := rtcOf_bounds size
  have row (col : Nat) : col * rtcOf size = col * rtcOf size + 0 := rfl
  rw [generateDummyWCc, dummyColumnsCc_null]
  simp only [Nat.zero_add]
  refine or_congr_right ⟨?_, ?_⟩
  · rintro ⟨col, index, found, null, place⟩
    have first : 0 < rtcOf size := by omega
    have below : col < 32 := bitrevCc_permutation.length ▸ (List.getElem?_eq_some_iff.mp found).1
    have bound : (col + 1) * rtcOf size ≤ 32 * rtcOf size := Nat.mul_le_mul_right _ below
    rw [Nat.succ_mul] at bound
    have inside : i < 3 * (32 * rtcOf size) := by omega
    have position : i % (32 * rtcOf size) = col * rtcOf size := by
      obtain ⟨small, stream⟩ := stream_split inside
      omega
    refine ⟨inside, (sourceOfCc_bounds inside).2.2.mpr ?_⟩
    rw [position, row, permutedIndex_row found first]
    exact null
  · rintro ⟨inside, before⟩
    have null := (sourceOfCc_bounds inside).2.2.mp before
    obtain ⟨small, stream⟩ := stream_split inside
    have positive : 0 < rtcOf size := by omega
    have head : i % (32 * rtcOf size) / rtcOf size < bitrevCc.length := by
      rw [bitrevCc_permutation.length]
      exact div_lt_columns small
    have whole := Nat.div_add_mod (i % (32 * rtcOf size)) (rtcOf size)
    have top : i % (32 * rtcOf size) % rtcOf size = 0 := by
      rw [permutedIndex] at null
      omega
    rw [top, Nat.add_zero, Nat.mul_comm] at whole
    refine ⟨_, _, List.getElem?_eq_getElem head, ?_, ?_⟩
    · rw [permutedIndex, top, List.getD_eq_getElem _ _ head] at null
      exact null
    · rw [whole]
      rcases stream with ⟨place, -⟩ | ⟨place, -⟩ | ⟨place, -⟩
      · exact .inl place
      · exact .inr (.inl place)
      · exact .inr (.inr place)

theorem dummyColumnsCc_outside {rcc nd : Nat} (heads : List Nat) (k : Nat) (w : Nat → Nat) {i : Nat}
    (room : k + heads.length * rcc ≤ 32 * rcc) (positive : 0 < rcc) (outside : 3 * (32 * rcc) ≤ i) :
    dummyColumnsCc rcc (32 * rcc) nd heads k w i = w i := by
  induction heads generalizing k w with
  | nil => rfl
  | cons head rest ih =>
    rw [List.length_cons, Nat.succ_mul] at room
    rw [dummyColumnsCc, ih (k + rcc) _ (by omega)]
    unfold markNull
    split_ifs with null
    · simp (disch := omega) only [Function.update_of_ne]
    · rfl

theorem generateDummyWCc_outside (w : Nat → Nat) {i : Nat} (positive : 0 < rtcOf size)
    (outside : 3 * (32 * rtcOf size) ≤ i) :
    (generateDummyWCc size w).1 i = w i := by
  refine dummyColumnsCc_outside bitrevCc 0 w ?_ positive outside
  rw [bitrevCc_permutation.length, Nat.zero_add]

theorem CodedCc.null_iff {d : Int → Nat} (coded : CodedCc size d) {i : Nat}
    (inside : i < 3 * (32 * rtcOf size)) :
    d (sourceOfCc size i) = lteNull ↔ sourceOfCc size i < 0 := by
  obtain ⟨low, high, -⟩ := sourceOfCc_bounds inside
  constructor
  · intro null
    by_contra bit
    have value := coded.bits _ (not_lt.mp bit) high
    omega
  · intro before
    exact coded.before _ low.le before

/-- The place of the last column's bits is never null. -/
theorem sourceOfCc_live (positive : 0 < rtcOf size) :
    15 * rtcOf size < 3 * (32 * rtcOf size) ∧ ¬ sourceOfCc size (15 * rtcOf size) < 0 := by
  have bounds := rtcOf_bounds size
  have inside : 15 * rtcOf size < 3 * (32 * rtcOf size) := by omega
  refine ⟨inside, fun before => ?_⟩
  have null := (sourceOfCc_bounds inside).2.2.mp before
  have last : permutedIndex bitrevCc (rtcOf size) (15 * rtcOf size + 0) = 31 + 32 * 0 :=
    permutedIndex_row rfl positive
  rw [Nat.mod_eq_of_lt (by omega), ← Nat.add_zero (15 * rtcOf size), last] at null
  omega

end Nulls

section Walk

variable {size : Nat} {e : UInt16}

/-- The circular buffer is not cut to 16 bits. -/
theorem kwOf_eq (fits : 96 * rtcOf size < 65536) : kwOf (rtcOf size) = 3 * (32 * rtcOf size) :=
  Nat.mod_eq_of_lt (by omega)

/-- The place of the `k`-th bit. -/
def bitPlaceCc (size : Nat) (e : UInt16) (k : Nat) : Nat :=
  (Carousel.stops (fun ind => (generateDummyWCc size fun _ => 0).1 ind ≠ lteNull)
    (kwOf (rtcOf size)) e.toNat 0).getD k 0

def receivedCc (size : Nat) (e : UInt16) (softInput : Nat → Int) (i : Nat) : Int :=
  clip (∑ k ∈ Finset.range e.toNat, if bitPlaceCc size e k = i then
    BitVec.ofInt 16 (softInput k) else 0).toInt

theorem stops_eq (positive : 0 < rtcOf size) (fits : 96 * rtcOf size < 65536) {w : Nat → Nat}
    (nulls : ∀ i < 3 * (32 * rtcOf size), w i = lteNull ↔ sourceOfCc size i < 0) :
    0 < kwOf (rtcOf size) ∧ 15 * rtcOf size < kwOf (rtcOf size) ∧
    decide (w (15 * rtcOf size) ≠ lteNull) = true ∧
      Carousel.stops (fun ind => w ind ≠ lteNull) (kwOf (rtcOf size)) e.toNat 0 =
        Carousel.stops (fun ind => (generateDummyWCc size fun _ => 0).1 ind ≠ lteNull)
          (kwOf (rtcOf size)) e.toNat 0 := by
  obtain ⟨inside, live⟩ := @sourceOfCc_live size positive
  rw [kwOf_eq fits]
  have alive : decide (w (15 * rtcOf size) ≠ lteNull) = true :=
    decide_eq_true fun null => live ((nulls _ inside).mp null)
  refine ⟨by omega, inside, alive, Carousel.stops_congr (by omega) inside alive fun i below => ?_⟩
  refine decide_eq_decide.mpr (not_congr ((nulls i below).trans ?_))
  rw [generateDummyWCc_null]
  constructor
  · intro before
    exact .inr ⟨below, before⟩
  · rintro (zero | ⟨-, before⟩)
    · exact absurd zero (by decide)
    · exact before

theorem bitPlaceCc_lt (positive : 0 < rtcOf size) (fits : 96 * rtcOf size < 65536) {k : Nat}
    (below : k < e.toNat) :
    bitPlaceCc size e k < 3 * (32 * rtcOf size) := by
  have nulls (i : Nat) (inside : i < 3 * (32 * rtcOf size)) :
      (generateDummyWCc size fun _ => 0).1 i = lteNull ↔ sourceOfCc size i < 0 := by
    rw [generateDummyWCc_null, or_iff_right (by decide), and_iff_right inside]
  obtain ⟨some_, inside, alive, -⟩ := @stops_eq size e positive fits _ nulls
  rw [← kwOf_eq fits]
  exact (Carousel.stop_live some_ inside alive below).1

theorem lteRateMatchingCc_eq (positive : 0 < rtcOf size) (fits : 96 * rtcOf size < 65536)
    {w : Nat → Nat}
    (nulls : ∀ i < 3 * (32 * rtcOf size), w i = lteNull ↔ sourceOfCc size i < 0) (out : Nat → Nat) :
    lteRateMatchingCc (rtcOf size) e w out = some
    fun k => if k < e.toNat then w (bitPlaceCc size e k) else out k := by
  obtain ⟨some_, inside, alive, same⟩ := @stops_eq size e positive fits w nulls
  rw [lteRateMatchingCc, Carousel.walk_eq some_ inside alive, same]
  refine congrArg some (funext fun k => ?_)
  rw [Circular.deliver_read, Carousel.length_stops, Nat.zero_add, Nat.sub_zero]
  simp only [Nat.zero_le, true_and]
  rfl

theorem lteRateMatchingCcRx_eq (positive : 0 < rtcOf size) (fits : 96 * rtcOf size < 65536)
    {dummyW : Nat → Nat}
    (nulls : ∀ i < 3 * (32 * rtcOf size), dummyW i = lteNull ↔ sourceOfCc size i < 0)
    (w softInput : Nat → Int) :
    lteRateMatchingCcRx (rtcOf size) e w dummyW softInput =
      some fun i => if i < 3 * (32 * rtcOf size) then receivedCc size e softInput i else w i := by
  obtain ⟨some_, inside, alive, same⟩ := @stops_eq size e positive fits dummyW nulls
  rw [lteRateMatchingCcRx, Carousel.walk_eq some_ inside alive, same]
  refine congrArg some (funext fun i => ?_)
  rw [kwOf_eq fits, Circular.deliver_add (fun k => BitVec.ofInt 16 (softInput k)),
    Carousel.length_stops, zero_add]
  simp only [Nat.zero_add]
  unfold receivedCc bitPlaceCc
  rw [kwOf_eq fits]

theorem receivedCc_eq (softInput : Nat → Int) {i : Nat}
    (low : -32768 ≤ ∑ k ∈ Finset.range e.toNat, if bitPlaceCc size e k = i then softInput k else 0)
    (high : ∑ k ∈ Finset.range e.toNat,
      (if bitPlaceCc size e k = i then softInput k else 0) ≤ 32767) :
    receivedCc size e softInput i =
    clip (∑ k ∈ Finset.range e.toNat, if bitPlaceCc size e k = i then softInput k else 0) := by
  rw [receivedCc, ofInt_sum, BitVec.toInt_ofInt, Int.bmod_eq_of_le]
  · exact low
  · exact Int.lt_of_le_sub_one high

end Walk

/-- Sender and receiver of `size` bits agree, for every output of the encoder and whatever their
buffers held. -/
structure UndoneCc (size : Nat) (e : UInt16) : Prop where
  nulls : ∀ d, CodedCc size d → ∀ w i, (generateDummyWCc size fun _ => 0).1 i = lteNull ↔
    i < 3 * (32 * rtcOf size) ∧ (subBlockInterleavingCc size d w).1 i = lteNull
  bits : ∃ (place : Nat → Nat) (source : Nat → Int),
    (∀ k < e.toNat, place k < 3 * (32 * rtcOf size)) ∧
    (∀ d, CodedCc size d → ∀ w out, ∃ sent,
      lteRateMatchingCc (subBlockInterleavingCc size d w).2 e (subBlockInterleavingCc size d w).1
        out = some sent ∧
      (∀ k < e.toNat, sent k = (subBlockInterleavingCc size d w).1 (place k)) ∧
      ∀ i < 3 * (32 * rtcOf size), (subBlockInterleavingCc size d w).1 i = d (source i)) ∧
    ∀ softInput stale, ∃ received,
      lteRateMatchingCcRx (generateDummyWCc size fun _ => 0).2 e stale
        (generateDummyWCc size fun _ => 0).1 softInput =
        some received ∧
      (∀ i < 3 * (32 * rtcOf size),
        let sum := ∑ k ∈ Finset.range e.toNat, if place k = i then softInput k else 0
        sum ≤ 32767 → -32768 ≤ sum → received i = clip sum) ∧
      ∀ d, ∀ i < 3 * (32 * rtcOf size), subBlockDeinterleavingCc size d received
        (source i) = received i

/-- The arrays are written inside only, and what the Viterbi decoder reads depends on the soft
values alone. -/
def DciArraysEnough (dciLength aggregationLevel : Nat) : Prop :=
  96 + 3 * (dciLength + 16) ≤ dRxSize ∧ ∀ e, ∃ soft : Int → Int, ∀ arrays, ∃ result,
    dciDecoding dciLength aggregationLevel e arrays = some result ∧
    (∀ i, dummyWRxSize ≤ i → result.dummyWRx i = arrays.dummyWRx i) ∧
    (∀ i, wRxSize ≤ i → result.wRx i = arrays.wRx i) ∧
    (∀ j : Int, j < -96 ∨ dRxSize ≤ 96 + j → result.dRx j = arrays.dRx j) ∧
    ∀ j : Int, 0 ≤ j → j < 3 * (dciLength + 16 : Nat) → result.dRx j = soft j

theorem undoneCc {size : Nat} (positive : 0 < rtcOf size) (fits : 96 * rtcOf size < 65536)
    (e : UInt16) : UndoneCc size e := by
  have pattern (i : Nat) : (generateDummyWCc size fun _ => 0).1 i = lteNull ↔
      i < 3 * (32 * rtcOf size) ∧ sourceOfCc size i < 0 := by
    rw [generateDummyWCc_null, or_iff_right (by decide)]
  have interleaved (d : Int → Nat) (coded : CodedCc size d) (w : Nat → Nat) (i : Nat)
    (inside : i < 3 * (32 * rtcOf size)) :
      (subBlockInterleavingCc size d w).1 i = lteNull ↔ sourceOfCc size i < 0 := by
    rw [interleavedCc_eq inside]
    exact coded.null_iff inside
  refine ⟨fun d coded w i => ?_, bitPlaceCc size e, sourceOfCc size,
    fun k below => bitPlaceCc_lt positive fits below,
    fun d coded w out => ?_, fun softInput stale => ?_⟩
  · rw [pattern]
    exact and_congr_right fun inside => (interleaved d coded w i inside).symm
  · refine ⟨_, lteRateMatchingCc_eq positive fits (interleaved d coded w) out,
      fun k below => if_pos below, fun i inside => ?_⟩
    exact interleavedCc_eq inside
  · refine ⟨_,
      lteRateMatchingCcRx_eq positive fits
      (fun i inside => (pattern i).trans (and_iff_right inside)) stale softInput,
      fun i inside => ?_, fun d i inside => deinterleavedCc_eq inside⟩
    intro sum high low
    rw [if_pos inside]
    exact receivedCc_eq softInput low high

/-- The cleared part of `dummy_w_rx` holds the whole pattern, and every array the whole of its
buffer. -/
theorem dciArraysEnough {dciLength : Nat} (length : dciLength ≤ maxDciSizeBits)
    (aggregationLevel : Nat) :
    DciArraysEnough dciLength aggregationLevel := by
  have small : dciLength ≤ 45 := length
  have bounds := rtcOf_bounds (dciLength + 16)
  have positive : 0 < rtcOf (dciLength + 16) := by omega
  have fits : 96 * rtcOf (dciLength + 16) < 65536 := by omega
  have nulls (arrays : DciArrays) (i : Nat) (inside : i < 3 * (32 * rtcOf (dciLength + 16))) :
      (generateDummyWCc (dciLength + 16)
        fun i => if i < 3 * (dciLength + 16 + 64) then 0 else arrays.dummyWRx i).1 i = lteNull ↔
        sourceOfCc (dciLength + 16) i < 0 := by
    rw [generateDummyWCc_null, if_pos (by omega), or_iff_right (by decide), and_iff_right inside]
  have decoded (e : Nat → Int) (arrays : DciArrays) :=
    @lteRateMatchingCcRx_eq (dciLength + 16) (UInt16.ofNat (72 * 2 ^ aggregationLevel)) positive
      fits _ (nulls arrays) arrays.wRx e
  refine ⟨by unfold dRxSize maxDciSizeBits; omega, fun e => ?_⟩
  have read (arrays : DciArrays) {i : Nat} (inside : i < 3 * (32 * rtcOf (dciLength + 16))) :=
    @deinterleavedCc_eq (dciLength + 16) arrays.dRx
        (fun i => if i < 3 * (32 * rtcOf (dciLength + 16)) then
      receivedCc (dciLength + 16) (UInt16.ofNat (72 * 2 ^ aggregationLevel)) e i
        else arrays.wRx i) i inside
  refine ⟨subBlockDeinterleavingCc (dciLength + 16) (fun _ => 0)
      (fun i => if i < 3 * (32 * rtcOf (dciLength + 16)) then
    receivedCc (dciLength + 16) (UInt16.ofNat (72 * 2 ^ aggregationLevel)) e i else 0),
      fun arrays => ?_⟩
  have run := congrArg
      (fun outcome =>
      Option.bind outcome fun wRx => some (DciArrays.mk (generateDummyWCc (dciLength + 16) fun i =>
    if i < 3 * (dciLength + 16 + 64) then
      0 else arrays.dummyWRx i).1 wRx (subBlockDeinterleavingCc (dciLength + 16) arrays.dRx wRx)))
    (decoded e arrays)
  refine ⟨_, run,
    fun i outside => ?_, fun i outside => ?_, fun j outside => ?_, fun j low high => ?_⟩
  · have far : 375 ≤ i := outside
    exact (generateDummyWCc_outside _ positive (by omega)).trans (if_neg (by omega))
  · have far : 279 ≤ i := outside
    exact if_neg (by omega)
  · have far : j < -96 ∨ 279 ≤ 96 + j := outside
    exact deinterleavedCc_outside (by omega)
  · obtain ⟨i, inside, rfl⟩ := exists_sourceOfCc low high
    refine (read arrays inside).trans ?_
    exact ((read ⟨fun _ => 0, fun _ => 0, fun _ => 0⟩ inside).trans
      (by rw [if_pos inside, if_pos inside])).symm

/-- Convolutional rate matching is undone for every size the circular buffer has room for, and
`dci_decoding` has room for every DCI. -/
theorem convolutional_undone :
    (∀ size : Nat, 1 ≤ size → 96 * ((size + 31) / 32) < 65536 → ∀ e : UInt16, UndoneCc size e) ∧
      ∀ dciLength ≤ maxDciSizeBits, ∀ aggregationLevel < 4,
        DciArraysEnough dciLength aggregationLevel := by
  constructor
  · intro size some_ fits e
    rw [← rtcOf_eq] at fits
    have bounds := rtcOf_bounds size
    exact undoneCc (by omega) fits e
  · intro dciLength length aggregationLevel _
    exact dciArraysEnough length aggregationLevel

/-- A DCI of 27 bits and its CRC, sent in two CCEs. -/
theorem convolutional_undone_small : UndoneCc 43 144 ∧ DciArraysEnough 27 1 :=
  ⟨convolutional_undone.1 43 (by decide) (by decide) 144,
    convolutional_undone.2 27 (by decide) 1 (by decide)⟩

end OpenAir.Phy
