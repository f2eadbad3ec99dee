import OpenAir.Phy.TurboEncoderSse

/-! `decoding_setmode` puts one turbo encoder in the place of the other. -/
namespace OpenAir.Phy.Turbo

open Simd

/-- `MODE_DECODE_NONE`, `MODE_DECODE_SSE`, `MODE_DECODE_C`, `MODE_DECODE_AVX2` -/
inductive DecodeMode where
  | none_
  | sse
  | c
  | avx2
deriving DecidableEq

structure Block where
  inputLengthBytes : Nat
  legal : 8 * inputLengthBytes ∈ blockSizes
  filler : Nat
  few : filler ≤ 63
  memory : Memory
  /-- An earlier call has filled the tables of the bitwise encoder. -/
  turboEncoderInit : Bool
  /-- `__AVX2__` is defined. -/
  avx2 : Bool

/-- The encoder that `decoding_setmode` chooses. -/
def encoder (mode : DecodeMode) (b : Block) : Option Encoded :=
  match mode with
  | .none_ | .c => threegpplteTurboEncoder b.turboEncoderInit b.memory b.inputLengthBytes b.filler
  | .sse | .avx2 => threegpplteTurboEncoderSse b.avx2 b.memory b.inputLengthBytes b.filler

/-- All encoders give one output, of `3K+12` values. -/
def SameOutput (b : Block) : Prop :=
  ∃ output : List Byte, output.length = 3 * (8 * b.inputLengthBytes) + 12 ∧
    ∀ mode, ∃ e, encoder mode b = some e ∧ e.output = output

/-- The first values are `LTE_NULL` for filler bits. -/
def HasNulls (mode : DecodeMode) (b : Block) : Prop :=
  ∃ e, encoder mode b = some e ∧ ∀ k < b.filler, k < 8 * b.inputLengthBytes →
    e.output[3 * k]? = some lteNull ∧ e.output[3 * k + 1]? = some lteNull

/-- Only the row of the block's length is read. -/
def ReadsInside (mode : DecodeMode) (b : Block) : Prop :=
  ∃ e row, encoder mode b = some e ∧ findRow (8 * b.inputLengthBytes) = some row ∧
    ∀ index ∈ e.reads, begIndex row ≤ index ∧ index < begIndex row + 8 * b.inputLengthBytes

structure Interchangeable (b : Block) : Prop where
  same : SameOutput b
  nulls : ∀ mode, HasNulls mode b
  inside : ∀ mode, ReadsInside mode b

section Entries
variable {m : Memory} {row filler : Nat}

theorem Memory.coded_out_succ (m : Memory) (row filler count : Nat) :
    (m.coded row filler (count + 1)).out = (m.coded row filler count).out ++
      [if count < filler then lteNull else m.bitAt count,
        if count < filler then
        lteNull else (threegpplteRsc (m.bitAt count) (m.coded row filler count).state0).1,
        (threegpplteRsc (m.pairAt row count).2 (m.coded row filler count).state1).1] := by
  have left : (0 < filler - count) = (count < filler) := propext (by omega)
  rw [m.coded_succ, Coded.push, (m.coded_low count).2.2]
  simp only [left]
  split <;> rw [List.append_assoc] <;> rfl

theorem Memory.coded_length (m : Memory) (row filler count : Nat) :
    (m.coded row filler count).out.length = 3 * count := by
  induction count with
  | zero => rfl
  | succ count ih =>
    rw [m.coded_out_succ, List.length_append, ih]
    rfl

theorem Memory.coded_entry {count k : Nat} (inside : k < count) :
    (m.coded row filler count).out[3 * k]? = some (if k < filler then lteNull else m.bitAt k) ∧
      (k < filler → (m.coded row filler count).out[3 * k + 1]? = some lteNull) := by
  induction count with
  | zero => cases inside
  | succ count ih =>
    have length := m.coded_length row filler count
    rw [m.coded_out_succ]
    by_cases last : k = count
    · subst last
      rw [List.getElem?_append_right (by omega), List.getElem?_append_right (by omega),
        length, Nat.sub_self, Nat.add_sub_cancel_left]
      refine ⟨rfl, fun filled => ?_⟩
      rw [if_pos filled, if_pos filled]
      rfl
    · obtain ⟨first, second⟩ := ih (by omega)
      rw [List.getElem?_append_left (by omega), List.getElem?_append_left (by omega)]
      exact ⟨first, second⟩

end Entries

section Calls
variable (b : Block)

theorem Block.some_bytes : 0 < b.inputLengthBytes := by
  have size := mem_blockSizes.mp b.legal
  unfold IsBlockSize at size
  omega

/-- The output of both encoders, by the number of filler bits that are punctured. -/
def Block.outputOf (row filler : Nat) : List Byte :=
  let c := b.memory.coded row filler (8 * b.inputLengthBytes)
  c.out ++ termination c.state0 ++ termination c.state1

theorem Block.outputOf_length (row filler : Nat) : (b.outputOf row filler).length =
    3 * (8 * b.inputLengthBytes) + 12 := by
  rw [Block.outputOf, List.length_append, List.length_append, Memory.coded_length]
  rfl

theorem Block.outputOf_entry (row filler : Nat) {k : Nat} (inside : k < 8 * b.inputLengthBytes) :
    (b.outputOf row filler)[3 * k]? = some (if k < filler then lteNull else b.memory.bitAt k) ∧
      (k < filler → (b.outputOf row filler)[3 * k + 1]? = some lteNull) := by
  have length := b.memory.coded_length row filler (8 * b.inputLengthBytes)
  rw [Block.outputOf, List.append_assoc, List.getElem?_append_left (by omega),
    List.getElem?_append_left (by omega)]
  exact Memory.coded_entry inside

theorem Block.encoders : ∃ row, findRow (8 * b.inputLengthBytes) = some row ∧
    (b.turboEncoderInit = true → encoder .c b = some ⟨b.outputOf row b.filler,
      (List.range (8 * b.inputLengthBytes)).map fun k => begIndex row + (k + 1)⟩) ∧
    (b.turboEncoderInit = false → encoder .c b = none) ∧
    encoder .sse b = some ⟨b.outputOf row 0, (List.range (8 * (laneGroups b.avx2 *
      (1 + (b.inputLengthBytes - 1) / laneGroups b.avx2)))).map (begIndex row + ·)⟩ := by
  obtain ⟨row, found⟩ := findRow_isSome b.legal
  refine ⟨row, found, fun called => ?_, fun first => ?_, ?_⟩
  · rw [encoder, called]
    exact turboEncoder_eq found b.some_bytes
  · rw [encoder, first]
    exact turboEncoder_first found b.some_bytes
  · exact turboEncoderSse_eq found b.filler

variable {b}

theorem sameOutput_iff : SameOutput b ↔ b.turboEncoderInit = true ∧ b.filler = 0 := by
  obtain ⟨row, _, called, first, sse⟩ := b.encoders
  have inside : 0 < 8 * b.inputLengthBytes := Nat.mul_pos (by decide) b.some_bytes
  constructor
  · rintro ⟨output, _, same⟩
    obtain ⟨e, done, out⟩ := same .c
    obtain ⟨e', done', out'⟩ := same .sse
    cases init : b.turboEncoderInit with
    | false =>
      rw [first init] at done
      cases done
    | true =>
      refine ⟨rfl, ?_⟩
      by_contra filled
      rw [called init, Option.some_inj] at done
      rw [sse, Option.some_inj] at done'
      subst done done'
      -- the first value is punctured by one encoder only
      have punctured := (b.outputOf_entry row b.filler inside).1
      have plain := (b.outputOf_entry row 0 inside).1
      rw [if_pos (Nat.pos_of_ne_zero filled)] at punctured
      rw [if_neg (Nat.lt_irrefl 0)] at plain
      have equal : b.outputOf row b.filler = b.outputOf row 0 := out.trans out'.symm
      rw [equal, plain, Option.some_inj] at punctured
      have bit : (b.memory.bitAt 0).toNat < 2 := bitOf_lt _ (by decide)
      rw [punctured] at bit
      exact absurd bit (by decide)
  · rintro ⟨init, unfilled⟩
    refine ⟨b.outputOf row 0, b.outputOf_length row 0, fun mode => ?_⟩
    have bitwise := called init
    rw [unfilled] at bitwise
    cases mode with
    | none_ => exact ⟨_, bitwise, rfl⟩
    | c => exact ⟨_, bitwise, rfl⟩
    | sse => exact ⟨_, sse, rfl⟩
    | avx2 => exact ⟨_, sse, rfl⟩

theorem hasNulls_c_iff : HasNulls .c b ↔ b.turboEncoderInit = true := by
  obtain ⟨row, _, called, first, _⟩ := b.encoders
  constructor
  · rintro ⟨e, done, _⟩
    cases init : b.turboEncoderInit with
    | false =>
      rw [first init] at done
      cases done
    | true => rfl
  · intro init
    refine ⟨_, called init, fun k filled inside => ?_⟩
    obtain ⟨systematic, parity⟩ := b.outputOf_entry row b.filler inside
    rw [if_pos filled] at systematic
    exact ⟨systematic, parity filled⟩

theorem hasNulls_sse_iff : HasNulls .sse b ↔ b.filler = 0 := by
  obtain ⟨row, _, _, _, sse⟩ := b.encoders
  have inside : 0 < 8 * b.inputLengthBytes := Nat.mul_pos (by decide) b.some_bytes
  constructor
  · rintro ⟨e, done, nulls⟩
    by_contra filled
    rw [sse, Option.some_inj] at done
    subst done
    have plain := (b.outputOf_entry row 0 inside).1
    rw [if_neg (Nat.lt_irrefl 0)] at plain
    have null := (nulls 0 (Nat.pos_of_ne_zero filled) inside).1
    rw [plain, Option.some_inj] at null
    have bit : (b.memory.bitAt 0).toNat < 2 := bitOf_lt _ (by decide)
    rw [null] at bit
    exact absurd bit (by decide)
  · intro unfilled
    refine ⟨_, sse, fun k filled _ => ?_⟩
    rw [unfilled] at filled
    cases filled

/-- The bitwise encoder reads one entry after the last bit. -/
theorem not_readsInside_c : ¬ ReadsInside .c b := by
  obtain ⟨row, found, called, first, _⟩ := b.encoders
  have some_ := b.some_bytes
  rintro ⟨e, row', done, found', inside⟩
  cases init : b.turboEncoderInit with
  | false =>
    rw [first init] at done
    cases done
  | true =>
    rw [called init, Option.some_inj] at done
    rw [found, Option.some_inj] at found'
    subst done found'
    have last : begIndex row + 8 * b.inputLengthBytes ∈
        (List.range (8 * b.inputLengthBytes)).map fun k => begIndex row + (k + 1) :=
      List.mem_map.mpr ⟨8 * b.inputLengthBytes - 1, List.mem_range.mpr (by omega), by omega⟩
    exact Nat.lt_irrefl _ (inside _ last).2

theorem readsInside_sse_iff : ReadsInside .sse b ↔ b.inputLengthBytes % laneGroups b.avx2 = 0 := by
  obtain ⟨row, found, _, _, sse⟩ := b.encoders
  have some_ := b.some_bytes
  have words : 8 * (laneGroups b.avx2 * (1 + (b.inputLengthBytes - 1) / laneGroups b.avx2)) ≤
    8 * b.inputLengthBytes ↔
      b.inputLengthBytes % laneGroups b.avx2 = 0 := by
    have width : laneGroups b.avx2 = 2 ∨ laneGroups b.avx2 = 4 := by cases b.avx2 <;> decide
    obtain two | four := width
    · rw [two]
      omega
    · rw [four]
      omega
  rw [← words]
  constructor
  · rintro ⟨e, row', done, found', inside⟩
    rw [sse, Option.some_inj] at done
    rw [found, Option.some_inj] at found'
    subst done found'
    by_contra more
    have beyond := inside (begIndex row + 8 * b.inputLengthBytes)
      (List.mem_map.mpr ⟨8 * b.inputLengthBytes, List.mem_range.mpr (Nat.lt_of_not_le more), rfl⟩)
    exact Nat.lt_irrefl _ beyond.2
  · intro fits
    refine ⟨_, row, sse, found, fun index member => ?_⟩
    obtain ⟨k, low, rfl⟩ := List.mem_map.mp member
    have small := List.mem_range.mp low
    exact ⟨Nat.le_add_right .., Nat.add_lt_add_left (Nat.lt_of_lt_of_le small fits) _⟩

/-- The encoders are not interchangeable on any block. They give the same output without filler
bits and after the first call of the bitwise one. -/
theorem not_interchangeable (b : Block) : ¬ Interchangeable b ∧
    (SameOutput b ↔ b.turboEncoderInit = true ∧ b.filler = 0) ∧
    (HasNulls .c b ↔ b.turboEncoderInit = true) ∧ (HasNulls .sse b ↔ b.filler = 0) ∧
    ¬ ReadsInside .c b ∧ (ReadsInside .sse b ↔ b.inputLengthBytes % laneGroups b.avx2 = 0) := by
  refine ⟨fun all => ?_, sameOutput_iff, hasNulls_c_iff, hasNulls_sse_iff, not_readsInside_c,
    readsInside_sse_iff⟩
  exact not_readsInside_c (all.inside .c)

/-- Forty bits with eight filler bits, on a machine without AVX2. -/
def shortBlock : Block where
  inputLengthBytes := 5
  legal := by decide
  filler := 8
  few := by decide
  memory := ⟨fun _ => 0, fun _ => 0, fun _ => 0, fun _ => 0⟩
  turboEncoderInit := true
  avx2 := false

theorem shortBlock_differs : ¬ Interchangeable shortBlock := by
  intro all
  have unfilled : shortBlock.filler = 0 := (sameOutput_iff.mp all.same).2
  cases unfilled

end Calls

end OpenAir.Phy.Turbo
