import OpenAir.Phy.Segmentation

/-! The bytes of the code blocks: filler, data and checksum, and the way back. -/
namespace OpenAir.Phy
open BitField (Memory)

def poly24b : UInt32 := 0x80006300

/-- The rounds of the inner loop of `crcbit`. -/
def crcBits (poly : UInt32) : Nat → UInt32 → UInt32 → UInt32
  | 0, _, crc => crc
  | n + 1, c, crc =>
    crcBits poly n (c <<< 1)
      (if 0x80000000 &&& (c ^^^ crc) ≠ 0 then (crc <<< 1) ^^^ poly else crc <<< 1)

/-- `crc24bTable`, as it was generated. -/
def crc24bTable (c : UInt8) : UInt32 := crcBits poly24b 8 (c.toUInt32 <<< 24) 0

def crcOctets (block : Memory) : Nat → Nat → UInt32 → UInt32
  | 0, _, crc => crc
  | n + 1, i, crc =>
    crcOctets block n (i + 1) ((crc <<< 8) ^^^ crc24bTable (block i ^^^ (crc >>> 24).toUInt8))

/-- `crc24b` of a whole number of bytes. -/
def crc24b (block : Memory) (bitlen : Nat) : UInt32 := crcOctets block (bitlen / 8) 0 0

def fillBlock (input : Memory) : Nat → Nat → Nat → Memory → Memory
  | 0, _, _, block => block
  | n + 1, k, s, block => fillBlock input n (k + 1) (s + 1) (Function.update block k (input s))

/-- The three bytes of the checksum, the high one first. -/
def withCrc (block : Memory) (size : Nat) : Memory :=
  let crc := crc24b block (size - 24) >>> 8
  let at_ := (size - 24) >>> 3
  let block := Function.update block at_ (crc >>> 16).toUInt8
  let block := Function.update block (1 + at_) (crc >>> 8).toUInt8
  Function.update block (2 + at_) crc.toUInt8

def Segments.start (seg : Segments) (r : Nat) : Nat := if r = 0 then seg.f >>> 3 else 0

def Segments.count (seg : Segments) (l r : Nat) : Nat := sub32 (seg.size r) l >>> 3 - seg.start r

/-- One round of the loop over code blocks; the second component is `s`. -/
def fillRound (seg : Segments) (l : Nat) (input : Memory) (state : (Nat → Memory) × Nat)
    (r : Nat) : (Nat → Memory) × Nat :=
  let block := fillBlock input (seg.count l r) (seg.start r) state.2 (state.1 r)
  let block := if seg.c > 1 then withCrc block (seg.size r) else block
  (Function.update state.1 r block, state.2 + seg.count l r)

/-- The code blocks that `lte_segmentation` leaves in `output_buffers`. -/
def codeBlocks (seg : Segments) (l : Nat) (input : Memory) (output : Nat → Memory) : Nat → Memory :=
  let filler : Memory := fun k => if k < seg.f >>> 3 then 0 else output 0 k
  ((List.range seg.c).foldl (fillRound seg l input) (Function.update output 0 filler, 0)).1

/-- `memcpy(dest + offset, source + start, count)` -/
def memcpy (dest : Memory) (offset : Nat) (source : Memory) (start count : Nat) : Memory :=
  fun a => if offset ≤ a ∧ a < offset + count then source (start + (a - offset)) else dest a

/-- One round of the reassembly, which `dlsch_decoding` and `ulsch_decoding_data` have in
common; the second component is `offset`. -/
def joinRound (seg : Segments) (blocks : Nat → Memory) (state : Memory × Nat)
    (r : Nat) : Memory × Nat :=
  let crc := if seg.c > 1 then 3 else 0
  if r = 0 then
    let count := sub32 (sub32 (seg.size r >>> 3) (seg.f >>> 3)) crc
    (memcpy state.1 0 (blocks 0) (seg.f >>> 3) count, count)
  else
    let count := sub32 (seg.size r >>> 3) crc
    (memcpy state.1 state.2 (blocks r) 0 count, state.2 + count)

def joinBlocks (seg : Segments) (blocks : Nat → Memory) (b : Memory) : Memory × Nat :=
  (List.range seg.c).foldl (joinRound seg blocks) (b, 0)

section Bytes

variable {input block source : Memory}

theorem fillBlock_apply (n k s a : Nat) :
    fillBlock input n k s block a = if k ≤ a ∧ a < k + n then input (s + (a - k)) else block a := by
  induction n generalizing k s block with
  | zero => rw [fillBlock, if_neg (by omega)]
  | succ n ih =>
    rw [fillBlock, ih]
    by_cases first : a = k
    · subst first
      rw [if_neg (by omega), Function.update_self, if_pos (by omega), Nat.sub_self, Nat.add_zero]
    · by_cases later : k + 1 ≤ a ∧ a < k + 1 + n
      · rw [if_pos later, if_pos (by omega)]
        exact congrArg input (by omega)
      · rw [if_neg later, Function.update_of_ne first, if_neg (by omega)]

theorem withCrc_below {size a : Nat} (below : a < (size - 24) >>> 3) :
    withCrc block size a = block a := by
  simp only [withCrc]
  rw [Function.update_of_ne (by omega), Function.update_of_ne (by omega),
    Function.update_of_ne (by omega)]

theorem crcOctets_congr {other : Memory} {n i : Nat} {crc : UInt32}
    (same : ∀ a < i + n, other a = block a) :
    crcOctets other n i crc = crcOctets block n i crc := by
  induction n generalizing i crc with
  | zero => rfl
  | succ n ih =>
    rw [crcOctets, crcOctets, same i (by omega)]
    exact ih fun a below => same a (by omega)

/-- A code block ends with the checksum of the bytes in front. -/
structure EndsWithCrc (block : Memory) (size : Nat) : Prop where
  high : block ((size - 24) / 8) = (crc24b block (size - 24) >>> 8 >>> 16).toUInt8
  middle : block ((size - 24) / 8 + 1) = (crc24b block (size - 24) >>> 8 >>> 8).toUInt8
  low : block ((size - 24) / 8 + 2) = (crc24b block (size - 24) >>> 8).toUInt8

theorem withCrc_ends (block : Memory) (size : Nat) : EndsWithCrc (withCrc block size) size := by
  have place : (size - 24) >>> 3 = (size - 24) / 8 := Nat.shiftRight_eq_div_pow ..
  have same : crc24b (withCrc block size) (size - 24) = crc24b block (size - 24) := by
    apply crcOctets_congr
    intro a below
    exact withCrc_below (by rw [place]; omega)
  constructor
  · rw [same]
    simp only [withCrc, place]
    rw [Function.update_of_ne (by omega), Function.update_of_ne (by omega), Function.update_self]
  · rw [same, Nat.add_comm]
    simp only [withCrc, place]
    rw [Function.update_of_ne (by omega), Function.update_self]
  · rw [same, Nat.add_comm]
    simp only [withCrc, place]
    rw [Function.update_self]

end Bytes

/-- Filler, data and checksum of every code block are whole bytes that fit into it. -/
structure Segments.Fits (seg : Segments) (l : Nat) : Prop where
  crc : l = if seg.c > 1 then 24 else 0
  bytes : ∀ r < seg.c, seg.size r % 8 = 0
  small : ∀ r < seg.c, seg.size r ≤ 6144
  room : ∀ r < seg.c, l ≤ seg.size r
  filler : seg.f % 8 = 0
  first : seg.f + l ≤ seg.size 0

section Rounds

variable {seg : Segments} {l : Nat} {input : Memory} {output blocks : Nat → Memory}

theorem Segments.Fits.content (fits : seg.Fits l) {r : Nat} (inside : r < seg.c) :
    8 * (seg.count l r + seg.start r) + l = seg.size r ∧ seg.start r = if r = 0 then
    seg.f / 8 else 0 := by
  have bytes := fits.bytes r inside
  have room := fits.room r inside
  have small := fits.small r inside
  have crc := fits.crc
  have filler := fits.filler
  have start : seg.start r = if r = 0 then seg.f / 8 else 0 := by
    rw [Segments.start, Nat.shiftRight_eq_div_pow]
  have before : 8 * seg.start r + l ≤ seg.size r := by
    rw [start]
    split
    · rename_i zero
      have first := fits.first
      rw [zero]
      omega
    · omega
  refine ⟨?_, start⟩
  rw [Segments.count, sub32_eq room (by omega), Nat.shiftRight_eq_div_pow]
  split at crc <;> omega

theorem fillRound_block (state : (Nat → Memory) × Nat) {r a : Nat} (fits : seg.Fits l)
    (inside : r < seg.c)
    (low : seg.start r ≤ a) (high : a < seg.start r + seg.count l r) :
    (fillRound seg l input state r).1 r a = input (state.2 + (a - seg.start r)) := by
  obtain ⟨content, -⟩ := fits.content inside
  have filled : fillBlock input (seg.count l r) (seg.start r) state.2 (state.1 r) a =
      input (state.2 + (a - seg.start r)) := by
    rw [fillBlock_apply, if_pos ⟨low, high⟩]
  simp only [fillRound, Function.update_self]
  split
  · rename_i several
    have crc := fits.crc
    rw [if_pos several] at crc
    rw [withCrc_below, filled]
    rw [Nat.shiftRight_eq_div_pow]
    omega
  · exact filled

theorem fillRound_crc (state : (Nat → Memory) × Nat) {r : Nat} (several : 1 < seg.c) :
    EndsWithCrc ((fillRound seg l input state r).1 r) (seg.size r) := by
  simp only [fillRound, Function.update_self, if_pos several]
  exact withCrc_ends _ _

def Segments.before (seg : Segments) (l n : Nat) : Nat := ((List.range n).map (seg.count l)).sum

theorem Segments.before_succ (seg : Segments)
    (l n : Nat) : seg.before l (n + 1) = seg.before l n + seg.count l n := by
  simp [Segments.before, List.range_succ]

/-- What the first rounds leave: the data is spread over the blocks in order. -/
structure Filled (seg : Segments) (l : Nat) (input : Memory) (n : Nat)
    (state : (Nat → Memory) × Nat) : Prop where
  read : state.2 = seg.before l n
  data : ∀ r < n, ∀ a, seg.start r ≤ a → a < seg.start r + seg.count l r →
    state.1 r a = input (seg.before l r + (a - seg.start r))
  crc : 1 < seg.c → ∀ r < n, EndsWithCrc (state.1 r) (seg.size r)

theorem fillRounds (fits : seg.Fits l) {n : Nat} (few : n ≤ seg.c) (output : Nat → Memory) :
    Filled seg l input n ((List.range n).foldl (fillRound seg l input) (output, 0)) := by
  induction n with
  | zero => exact ⟨rfl,
      fun r none => absurd none (Nat.not_lt_zero r),
      fun _ r none => absurd none (Nat.not_lt_zero r)⟩
  | succ n ih =>
    have filled := ih (Nat.le_of_succ_le few)
    rw [List.range_succ, List.foldl_append, List.foldl_cons, List.foldl_nil]
    generalize (List.range n).foldl (fillRound seg l input) (output, 0) = state at *
    have others (r : Nat) (earlier : r ≠ n) : (fillRound seg l input state n).1 r = state.1 r :=
      Function.update_of_ne earlier _ _
    refine ⟨?_, fun r below a low high => ?_, fun several r below => ?_⟩
    · rw [Segments.before_succ, ← filled.read]
      rfl
    · obtain earlier | rfl := Nat.lt_succ_iff_lt_or_eq.mp below
      · rw [others r (Nat.ne_of_lt earlier)]
        exact filled.data r earlier a low high
      · rw [fillRound_block state fits few low high, filled.read]
    · obtain earlier | rfl := Nat.lt_succ_iff_lt_or_eq.mp below
      · rw [others r (Nat.ne_of_lt earlier)]
        exact filled.crc several r earlier
      · exact fillRound_crc state several

theorem joinRound_eq (fits : seg.Fits l) {r : Nat} (inside : r < seg.c) (state : Memory × Nat)
    (start : r = 0 → state.2 = 0) :
    joinRound seg blocks state r =
      (memcpy state.1 state.2 (blocks r) (seg.start r) (seg.count l r),
        state.2 + seg.count l r) := by
  obtain ⟨content, first⟩ := fits.content inside
  have small := fits.small r inside
  have crc := fits.crc
  have filler := fits.filler
  have shift : seg.size r >>> 3 = seg.size r / 8 := Nat.shiftRight_eq_div_pow ..
  have fillers : seg.f >>> 3 = seg.f / 8 := Nat.shiftRight_eq_div_pow ..
  have checksum : 8 * (if seg.c > 1 then 3 else 0) = l := by
    rw [crc]
    split <;> rfl
  rw [joinRound]
  generalize (if seg.c > 1 then 3 else 0) = three at *
  by_cases zero : r = 0
  · rw [if_pos zero] at first ⊢
    have count : sub32 (sub32 (seg.size r >>> 3) (seg.f >>> 3)) three = seg.count l r := by
      have inner : sub32 (seg.size r / 8) (seg.f / 8) = seg.size r / 8 - seg.f / 8 :=
        sub32_eq (by omega) (by omega)
      rw [shift, fillers, inner, sub32_eq (by omega) (by omega)]
      omega
    rw [count, start zero, first, fillers, zero, Nat.zero_add]
  · rw [if_neg zero] at first ⊢
    have count : sub32 (seg.size r >>> 3) three = seg.count l r := by
      rw [shift, sub32_eq (by omega) (by omega)]
      omega
    rw [count, first]

theorem joinRounds (fits : seg.Fits l) {n : Nat} (few : n ≤ seg.c) (b : Memory)
    (data : ∀ r < seg.c, ∀ a, seg.start r ≤ a → a < seg.start r + seg.count l r →
      blocks r a = input (seg.before l r + (a - seg.start r))) :
    ((List.range n).foldl (joinRound seg blocks) (b, 0)).2 = seg.before l n ∧
      ∀ i < seg.before l n, ((List.range n).foldl (joinRound seg blocks) (b, 0)).1 i = input i := by
  induction n with
  | zero => exact ⟨rfl, fun i none => absurd none (Nat.not_lt_zero i)⟩
  | succ n ih =>
    obtain ⟨offset, joined⟩ := ih (Nat.le_of_succ_le few)
    rw [List.range_succ, List.foldl_append, List.foldl_cons, List.foldl_nil]
    generalize (List.range n).foldl (joinRound seg blocks) (b, 0) = state at *
    have start : n = 0 → state.2 = 0 := by
      rintro rfl
      exact offset
    rw [joinRound_eq fits few state start, Segments.before_succ, offset]
    refine ⟨rfl, fun i below => ?_⟩
    simp only [memcpy]
    by_cases later : seg.before l n ≤ i
    · rw [if_pos ⟨later, below⟩, data n few _ (Nat.le_add_right ..) (by omega)]
      exact congrArg input (by omega)
    · rw [if_neg (by omega)]
      exact joined i (by omega)

theorem sizes_sum (seg : Segments) (n : Nat) :
    ((List.range n).map seg.size).sum = min n seg.cMinus * seg.kMinus + (n - seg.cMinus) *
      seg.kPlus := by
  induction n with
  | zero => simp
  | succ n ih =>
    rw [List.range_succ, List.map_append, List.sum_append, ih, List.map_singleton,
      List.sum_singleton, Segments.size]
    split
    · rename_i smaller
      rw [Nat.min_eq_left (by omega), Nat.min_eq_left (by omega), show n - seg.cMinus = 0 by omega,
        show n + 1 - seg.cMinus = 0 by omega, Nat.succ_mul]
      omega
    · rename_i larger
      rw [Nat.min_eq_right (by omega), Nat.min_eq_right (by omega), show n + 1 - seg.cMinus =
        n - seg.cMinus + 1 by omega, Nat.succ_mul]
      omega

theorem Segments.Fits.before_eq (fits : seg.Fits l) {n : Nat} (some : 0 < n) (few : n ≤ seg.c) :
    8 * seg.before l n + seg.f + n * l = ((List.range n).map seg.size).sum := by
  induction n with
  | zero => exact absurd some (Nat.lt_irrefl 0)
  | succ n ih =>
    obtain ⟨content, first⟩ := fits.content few
    have filler := fits.filler
    have product : (n + 1) * l = n * l + l := Nat.succ_mul n l
    rw [Segments.before_succ, List.range_succ, List.map_append, List.sum_append, List.map_singleton,
      List.sum_singleton]
    by_cases zero : n = 0
    · subst zero
      simp only [if_true] at first
      simp only [Segments.before, List.range_zero, List.map_nil, List.sum_nil]
      omega
    · rw [if_neg zero] at first
      have earlier := ih (Nat.pos_of_ne_zero zero) (Nat.le_of_succ_le few)
      omega

end Rounds

/-- The code blocks of a transport block: their checksums, and the bytes the receivers get. -/
structure Segments.Undone (b : Nat) (seg : Segments) (input : Memory)
    (blocks : Nat → Memory) : Prop where
  crc : 1 < seg.c → ∀ r < seg.c, EndsWithCrc (blocks r) (seg.size r)
  length : ∀ buffer, (joinBlocks seg blocks buffer).2 = b / 8
  bytes : ∀ buffer, ∀ i < b / 8, (joinBlocks seg blocks buffer).1 i = input i

section Sound

variable {b : Nat} {seg : Segments}

theorem fits_of_sizes (sizes : seg.Sizes b) (several : seg.c > 1 ↔ 6144 < b)
    (first : seg.f + crcSize b ≤ seg.size 0) :
    seg.Fits (crcSize b) := by
  have crc : crcSize b = if seg.c > 1 then 24 else 0 := by
    rw [crcSize]
    by_cases small : b ≤ 6144
    · rw [if_pos small, if_neg (mt several.mp (Nat.not_lt.mpr small))]
    · rw [if_neg small, if_pos (several.mpr (Nat.not_le.mp small))]
  have size (r : Nat) : IsBlockSize (seg.size r) := by
    rw [Segments.size]
    split
    · rename_i smaller
      exact mem_blockSizes.mp (sizes.minusInTable (by omega))
    · exact mem_blockSizes.mp sizes.inTable
  have bounds (r : Nat) : seg.size r % 8 = 0 ∧ seg.size r ≤ 6144 ∧ 24 ≤ seg.size r := by
    have size := size r
    rw [IsBlockSize] at size
    omega
  have short : crcSize b ≤ 24 := by
    rw [crcSize]
    split <;> decide
  exact ⟨crc, fun r _ => (bounds r).1,
    fun r _ => (bounds r).2.1, fun r _ => Nat.le_trans short (bounds r).2.2,
    sizes.fillerBytes, first⟩

theorem undone_of_sizes (sizes : seg.Sizes b) (several : seg.c > 1 ↔ 6144 < b)
    (first : seg.f + crcSize b ≤ seg.size 0)
    (some : 0 < seg.c) (input : Memory) (output : Nat → Memory) :
    seg.Undone b input (codeBlocks seg (crcSize b) input output) := by
  have fits := fits_of_sizes sizes several first
  have filled := @fillRounds seg (crcSize b) input fits seg.c (Nat.le_refl _)
    (Function.update output 0 fun k => if k < seg.f >>> 3 then 0 else output 0 k)
  have total : seg.before (crcSize b) seg.c = b / 8 := by
    have sum := fits.before_eq some (Nat.le_refl _)
    rw [sizes_sum, Nat.min_eq_right (by have := sizes.counts; omega)] at sum
    have plus : seg.c - seg.cMinus = seg.cPlus := by
      have := sizes.counts
      omega
    rw [plus] at sum
    have filler := sizes.filler
    have whole := sizes.total
    omega
  have joined (buffer : Memory) :=
    @joinRounds seg (crcSize b) input (codeBlocks seg (crcSize b) input output) fits seg.c
    (Nat.le_refl _) buffer filled.data
  rw [total] at joined
  exact ⟨filled.crc, fun buffer => (joined buffer).1, fun buffer => (joined buffer).2⟩

/-- For every transport block of whole bytes that is segmented at all, sizes and blocks are
right exactly when the average that is rounded down loses nothing that matters. -/
theorem segmentation_iff (least : 40 ≤ b) (bytes : b % 8 = 0)
    (done : lteSegmentation b = some seg) :
    (seg.Sizes b ∧ ∀ input output, seg.Undone b input (codeBlocks seg (crcSize b) input output)) ↔
    ExactAverage b := by
  constructor
  · rintro ⟨sizes, -⟩
    exact exactAverage_of_enough done sizes.enough
  · intro exact_
    obtain ⟨sizes, first⟩ := segmentation_exact least bytes done exact_
    obtain ⟨count, -, -⟩ := segmentation_kPlus done
    have several : seg.c > 1 ↔ 6144 < b := by
      rw [count]
      constructor
      · intro more
        by_contra small
        rw [numBlocks_single (Nat.not_lt.mp small)] at more
        exact Nat.lt_irrefl 1 more
      · exact fun large => (numBlocks_bounds large).2.2
    have some : 0 < seg.c := by
      rw [count]
      obtain small | large := le_or_gt b 6144
      · rw [numBlocks_single small]
        exact Nat.one_pos
      · exact Nat.lt_of_lt_of_le Nat.two_pos (numBlocks_bounds large).2.2
    exact ⟨sizes, undone_of_sizes sizes several first some⟩

end Sound

theorem segmentation_iff_two :
    lteSegmentation 6200 = some ⟨2, 2, 0, 3136, 3072, 24⟩ ∧
    ((Segments.Sizes 6200 ⟨2, 2, 0, 3136, 3072, 24⟩ ∧
      ∀ input output, Segments.Undone 6200 ⟨2, 2, 0, 3136, 3072, 24⟩ input
      (codeBlocks ⟨2, 2, 0, 3136, 3072, 24⟩ (crcSize 6200) input output)) ↔ ExactAverage 6200) :=
  ⟨by decide, segmentation_iff (by decide) (by decide) (by decide)⟩

/-- Nine blocks of 5504 bits do not hold 49544 bits; the difference wraps. -/
theorem segmentation_wraps :
    lteSegmentation 49328 = some ⟨9, 4227858442, 67108863, 5504, 5440, 56⟩ ∧
      ¬ Segments.Sizes 49328 ⟨9, 4227858442, 67108863, 5504, 5440, 56⟩ := by
  refine ⟨by decide, fun sizes => ?_⟩
  exact absurd sizes.enough (by decide)

end OpenAir.Phy
