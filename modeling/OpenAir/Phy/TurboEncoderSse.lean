import OpenAir.Phy.TurboEncoder
import OpenAir.Lib.Blocks
import Mathlib.Data.List.GetD

/-! The turbo encoder that goes byte by byte, on x86 with 128 or with 256 bits. -/
namespace OpenAir.Phy.Turbo

open Simd

structure Treillis where
  systematicAndp1 : List Byte
  parity2 : List Byte
  exitState : Byte

def treillisBit (j : Byte) (t : Treillis) (b : Nat) : Treillis :=
  let x := bitOf j b
  let v := threegpplteRsc x t.exitState
  ⟨(t.systematicAndp1.set (3 * b) x).set (3 * b + 1) v.1, t.parity2.set (3 * b + 2) v.1, v.2⟩

/-- `treillis_table_init`, for one state and one byte. -/
def treillisTableInit (i j : Byte) : Treillis :=
  (List.range 8).foldl (treillisBit j) ⟨List.replicate 24 0, List.replicate 24 0, i⟩

/-- There are eight states. -/
def allTreillis (i j : Byte) : Option Treillis :=
  if i.toNat < 8 then some (treillisTableInit i j) else none

/-- The last argument of `_mm_set_epi8` is the first lane. -/
def bitMask : List Byte :=
  [0x80, 0x40, 0x20, 0x10, 0x08, 0x04, 0x02, 0x01, 0x80, 0x40, 0x20, 0x10, 0x08, 0x04, 0x02, 0x01]

/-- Each byte of a register of 16 becomes eight bytes. -/
def expand128 (tmp1 : List Byte) : List Byte :=
  let spread :=
    fun tmp3 => testMask bitMask (unpackLow 4 tmp3 tmp3) ++
    testMask bitMask (unpackHigh 4 tmp3 tmp3)
  let tmp2 := unpackLow 1 tmp1 tmp1
  let first := spread (unpackLow 2 tmp2 tmp2) ++ spread (unpackHigh 2 tmp2 tmp2)
  let tmp2 := unpackHigh 1 tmp1 tmp1
  first ++ (spread (unpackLow 2 tmp2 tmp2) ++ spread (unpackHigh 2 tmp2 tmp2))

/-- `tmp6` and `tmp7` out of `tmp3` -/
def regroup (tmp3 : List Byte) : List Byte × List Byte :=
  let tmp4 := halves (unpackLow 4) tmp3 tmp3
  let tmp5 := halves (unpackHigh 4) tmp3 tmp3
  (insertHalf tmp4 (extractHalf tmp5 false) true, insertHalf tmp5 (extractHalf tmp4 true) false)

/-- The same with 32 bytes; `o_256[0..3]` and `o_256[4..7]` are written in turn. -/
def expand256 (tmp1 : List Byte) : List Byte :=
  let test := testMask (bitMask ++ bitMask)
  let tmp2 := halves (unpackLow 1) tmp1 tmp1
  let o0 := regroup (halves (unpackLow 2) tmp2 tmp2)
  let o1 := regroup (halves (unpackHigh 2) tmp2 tmp2)
  let tmp2 := halves (unpackHigh 1) tmp1 tmp1
  let o2 := regroup (halves (unpackLow 2) tmp2 tmp2)
  let o3 := regroup (halves (unpackHigh 2) tmp2 tmp2)
  test o0.1 ++ test o1.1 ++ test o2.1 ++ test o3.1 ++
    (test o0.2 ++ test o1.2 ++ test o2.2 ++ test o3.2)

/-- The bytes of a register, by eights. -/
def laneGroups (avx2 : Bool) : Nat := if avx2 then 4 else 2

def Memory.load (m : Memory) (width i : Nat) : List Byte :=
  (List.range width).map fun k => m.input (width * i + k)

/-- What the first loop of `interleave_compact_byte` writes. -/
def Memory.expanded (m : Memory) (avx2 : Bool) (n : Nat) : List Byte :=
  let width := 8 * laneGroups avx2
  (List.range (n / width + if 0 < n % width then 1 else 0)).flatMap fun i =>
    if avx2 then expand256 (m.load width i) else expand128 (m.load width i)

structure Packing where
  tmp : List Byte
  ptrIntl : Nat
  out : List Byte
  reads : List Nat

def insertNext (m : Memory) (expanded : List Byte) (s : Packing) (lane : Nat) : Packing :=
  let index := m.ilTbAt s.ptrIntl
  { s with
    tmp := insertByte s.tmp (expanded.getD index (m.expandInput index)) lane
    ptrIntl := s.ptrIntl + 1
    reads := s.reads ++ [s.ptrIntl] }

/-- 7 down to 0, 8+7 down to 8+0 and so on. -/
def laneOrder (groups : Nat) : List Nat :=
  (List.range groups).flatMap fun g => (List.range 8).map fun k => 8 * g + (7 - k)

def packWord (m : Memory) (expanded : List Byte) (groups : Nat) (s : Packing) : Packing :=
  let s := (laneOrder groups).foldl (insertNext m expanded) s
  { s with out := s.out ++ littleEndian (movemask s.tmp) groups }

def interleaveCompactByte (m : Memory) (avx2 : Bool) (baseInterleaver n : Nat) : Packing :=
  let groups := laneGroups avx2
  (List.range (1 + (n - 1) / groups)).foldl (fun s _ => packWord m (m.expanded avx2 n) groups s)
    ⟨(List.range (8 * groups)).map m.tmp, baseInterleaver, [], []⟩

structure SseState where
  out : List Byte
  state0 : Byte
  state1 : Byte

/-- The three additions of eight bytes. -/
def sseByte (m : Memory) (systematic2 : List Byte) (s : SseState) (i : Nat) : Option SseState := do
  let curS1 := m.input i
  let curS2 ← systematic2[i]?
  let t0 ← allTreillis s.state0 curS1
  let t1 ← allTreillis s.state1 curS2
  return ⟨s.out ++ List.zipWith (· + ·) t0.systematicAndp1 t1.parity2, t0.exitState, t1.exitState⟩

/-- The filler count is not used. -/
def threegpplteTurboEncoderSse (avx2 : Bool) (m : Memory) (inputLengthBytes _filler : Nat) :
    Option Encoded := do
  let row ← findRow (8 * inputLengthBytes)
  let systematic2 := interleaveCompactByte m avx2 (begIndex row) inputLengthBytes
  let s ← (List.range inputLengthBytes).foldlM (sseByte m systematic2.out) ⟨[], 0, 0⟩
  return ⟨s.out ++ termination s.state0 ++ termination s.state1, systematic2.reads⟩

section Trellis

theorem treillis_pushes {c : Coded} (unfilled : c.fillers = 0) (v v' : Byte) :
    ((List.range 8).map fun b => (bitOf v b, bitOf v' b)).foldl Coded.push c =
      ⟨c.out ++ List.zipWith (· + ·) (treillisTableInit c.state0 v).systematicAndp1
        (treillisTableInit c.state1 v').parity2,
        (treillisTableInit c.state0 v).exitState,
        (treillisTableInit c.state1 v').exitState, 0⟩ := by
  obtain ⟨out, state0, state1, fillers⟩ := c
  have none_ : fillers = 0 := unfilled
  subst none_
  have bits : List.range 8 = [0, 1, 2, 3, 4, 5, 6, 7] := rfl
  simp only [treillisTableInit, bits, List.map_cons, List.map_nil, List.foldl_cons, List.foldl_nil,
    Coded.push, treillisBit, Nat.lt_irrefl, if_false, List.append_assoc, List.cons_append,
      List.nil_append, Nat.zero_sub]
  simp only [List.replicate, List.set, Nat.reduceMul, Nat.reduceAdd, List.zipWith,
    BitVec.ofNat_eq_ofNat, BitVec.add_zero, BitVec.zero_add]

end Trellis

section Expansion

/-- The eight bits of a byte, as bytes of ones or zeros. -/
def spreadByte (v : Byte) : List Byte :=
  (bitMask.take 8).map fun mask => if v &&& mask = mask then 0xFF else 0

theorem expand128_eq (input : Nat → Byte) :
    expand128 ((List.range 16).map input) = ((List.range 16).map input).flatMap spreadByte := by
  have lanes : List.range 16 = [0, 1, 2, 3, 4, 5, 6, 7, 8, 9, 10, 11, 12, 13, 14, 15] := rfl
  simp only [lanes, List.map_cons, List.map_nil, expand128, unpackLow, unpackHigh, Nat.reduceDiv,
    alternate, List.take_succ_cons, List.take_zero, List.drop_succ_cons, List.drop_zero,
      List.cons_append, List.nil_append, testMask, bitMask, List.zipWith_cons_cons,
    List.zipWith_nil_left, spreadByte, List.flatMap_cons, List.flatMap_nil, List.append_nil]

theorem expand256_eq (input : Nat → Byte) :
    expand256 ((List.range 32).map input) = ((List.range 32).map input).flatMap spreadByte := by
  have lanes :
    List.range 32 =
    [0, 1, 2, 3, 4, 5, 6, 7, 8, 9, 10, 11, 12, 13, 14, 15, 16, 17, 18, 19, 20, 21, 22,
    23, 24, 25, 26, 27, 28, 29, 30, 31] := rfl
  simp only [lanes, List.map_cons, List.map_nil, expand256, regroup, halves, extractHalf,
    insertHalf, Bool.false_eq_true, if_true, if_false, unpackLow, unpackHigh, Nat.reduceDiv,
      alternate, List.take_succ_cons, List.take_zero, List.drop_succ_cons,
    List.drop_zero, List.cons_append, List.nil_append, testMask, bitMask, List.zipWith_cons_cons,
      List.zipWith_nil_left,
    spreadByte, List.flatMap_cons, List.flatMap_nil, List.append_nil]

theorem spreadByte_msb (v : Byte) {b : Nat} (small : b < 8) :
    ∃ value, (spreadByte v)[b]? = some value ∧ value.msb = v.toNat.testBit (7 - b) := by
  have all : ∀ v : Byte, ∀ b : Fin 8, ((spreadByte v)[b.val]?.map BitVec.msb) =
      some (v.toNat.testBit (7 - b)) := by
    decide +kernel
  exact Option.map_eq_some_iff.mp (all v ⟨b, small⟩)

/-- All bytes of the block are spread, and some behind it. -/
theorem Memory.expanded_eq (m : Memory) (avx2 : Bool) (n : Nat) : ∃ count, n ≤ count ∧
    m.expanded avx2 n = (List.range count).flatMap fun i => spreadByte (m.input i) := by
  have group :
    ∀ i, (if avx2 then expand256 (m.load (8 * laneGroups avx2) i)
    else expand128 (m.load (8 * laneGroups avx2) i)) =
      ((List.range (8 * laneGroups avx2)).map
          fun k => m.input (8 * laneGroups avx2 * i + k)).flatMap spreadByte := by
    intro i
    cases avx2 with
    | false => exact expand128_eq _
    | true => exact expand256_eq _
  have width : 0 < 8 * laneGroups avx2 := by cases avx2 <;> decide
  refine ⟨8 * laneGroups avx2 * (n / (8 * laneGroups avx2) + if 0 < n % (8 * laneGroups avx2) then
    1 else 0), ?_, ?_⟩
  · have whole := Nat.div_add_mod n (8 * laneGroups avx2)
    have rest := Nat.mod_lt n width
    rw [Nat.mul_add]
    split <;> omega
  · rw [Memory.expanded]
    simp only [group]
    rw [← List.flatMap_assoc, Blocks.flatMap_range_consecutive, List.flatMap_map]

/-- A bit of the block is the highest bit of its byte in `expandInput`. -/
theorem Memory.expanded_msb {m : Memory} {avx2 : Bool} {n q : Nat} (inside : q < 8 * n)
    (fallback : Byte) :
    ((m.expanded avx2 n).getD q fallback).msb = (m.input (q / 8)).toNat.testBit (7 - q % 8) := by
  obtain ⟨count, enough, all⟩ := m.expanded_eq avx2 n
  obtain ⟨value, found, bit⟩ := spreadByte_msb (m.input (q / 8)) (Nat.mod_lt q (by decide))
  have eight : ∀ i, (spreadByte (m.input i)).length = 8 := fun _ => rfl
  have place : (m.expanded avx2 n)[8 * (q / 8) + q % 8]? = some value := by
    rw [all, Blocks.flatMap_range_getElem? eight (by omega) (Nat.mod_lt q (by decide)), found]
  rw [Nat.div_add_mod] at place
  rw [List.getD_eq_getElem?_getD, place]
  exact bit

end Expansion

section Packing
variable {m : Memory} {expanded : List Byte}

/-- The byte that is inserted for an entry of the table. -/
def Memory.picked (m : Memory) (expanded : List Byte) (ptrIntl : Nat) : Byte :=
  expanded.getD (m.ilTbAt ptrIntl) (m.expandInput (m.ilTbAt ptrIntl))

/-- Eight lanes of the register after a turn. -/
def Memory.laneGroup (m : Memory) (expanded : List Byte) (ptrIntl : Nat) : List Byte :=
  (List.range 8).map fun lane => m.picked expanded (ptrIntl + (7 - lane))

theorem range_of_length {tmp : List Byte} {width : Nat} (length : tmp.length = width) :
    tmp = (List.range width).map fun lane => tmp.getD lane 0 := by
  apply List.ext_getElem
  · rw [List.length_map, List.length_range, length]
  · intro lane within _
    rw [List.getElem_map, List.getElem_range, List.getD_eq_getElem _ _ within]

/-- A turn overwrites all lanes. -/
theorem insertLanes_eq {s : Packing} {avx2 : Bool} (length : s.tmp.length = 8 * laneGroups avx2) :
    (laneOrder (laneGroups avx2)).foldl (insertNext m expanded) s =
      ⟨((List.range (laneGroups avx2)).map
        fun g => m.laneGroup expanded (s.ptrIntl + 8 * g)).flatten, s.ptrIntl + 8 * laneGroups avx2,
        s.out, s.reads ++ (List.range (8 * laneGroups avx2)).map (s.ptrIntl + ·)⟩ := by
  obtain ⟨tmp, ptrIntl, out, reads⟩ := s
  have lanes : tmp = (List.range (8 * laneGroups avx2)).map
    fun lane => tmp.getD lane 0 := range_of_length length
  rw [lanes]
  have eight : List.range 8 = [0, 1, 2, 3, 4, 5, 6, 7] := rfl
  cases avx2 with
  | false =>
    have two : List.range 2 = [0, 1] := rfl
    have all : List.range 16 = [0, 1, 2, 3, 4, 5, 6, 7, 8, 9, 10, 11, 12, 13, 14, 15] := rfl
    simp only [laneGroups, laneOrder, Bool.false_eq_true, if_false, two, eight, Nat.reduceMul, all,
      List.flatMap_cons, List.flatMap_nil, List.map_cons, List.map_nil, List.cons_append,
        List.nil_append, Nat.reduceAdd, Nat.reduceSub,
      List.foldl_cons, List.foldl_nil, insertNext, insertByte, List.set_cons_zero,
        List.set_cons_succ, List.append_assoc,
      Nat.add_assoc, Memory.laneGroup, Memory.picked, List.flatten_cons,
        List.flatten_nil, Nat.add_zero]
  | true =>
    have four : List.range 4 = [0, 1, 2, 3] := rfl
    have all : List.range 32 =
      [0, 1, 2, 3, 4, 5, 6, 7, 8, 9, 10, 11, 12, 13, 14, 15, 16, 17, 18, 19, 20, 21, 22,
      23, 24, 25, 26, 27, 28, 29, 30, 31] := rfl
    simp only [laneGroups, laneOrder, if_true, four, eight, Nat.reduceMul, all, List.flatMap_cons,
      List.flatMap_nil, List.map_cons, List.map_nil, List.cons_append, List.nil_append,
        Nat.reduceAdd, Nat.reduceSub, List.foldl_cons, List.foldl_nil, insertNext,
      insertByte, List.set_cons_zero, List.set_cons_succ, List.append_assoc, Nat.add_assoc,
        Memory.laneGroup, Memory.picked,
      List.flatten_cons, List.flatten_nil, Nat.add_zero]

theorem packWord_eq (m : Memory) (expanded : List Byte) {s : Packing} {avx2 : Bool}
    (length : s.tmp.length = 8 * laneGroups avx2) :
    ∃ tmp, tmp.length = 8 * laneGroups avx2 ∧ packWord m expanded (laneGroups avx2) s =
      ⟨tmp, s.ptrIntl + 8 * laneGroups avx2,
        s.out ++ (List.range (laneGroups avx2)).map
        fun g => BitVec.ofNat 8 (movemask (m.laneGroup expanded (s.ptrIntl + 8 * g))),
        s.reads ++ (List.range (8 * laneGroups avx2)).map (s.ptrIntl + ·)⟩ := by
  have eight : ∀ group ∈ (List.range (laneGroups avx2)).map
      fun g => m.laneGroup expanded (s.ptrIntl + 8 * g), group.length = 8 := by
    intro group member
    obtain ⟨g, _, rfl⟩ := List.mem_map.mp member
    rfl
  have stored := littleEndian_movemask eight
  rw [List.length_map, List.length_range, List.map_map] at stored
  refine ⟨((List.range (laneGroups avx2)).map
    fun g => m.laneGroup expanded (s.ptrIntl + 8 * g)).flatten, ?_, ?_⟩
  · rw [← List.flatMap_def]
    have each : ∀ g, (m.laneGroup expanded (s.ptrIntl + 8 * g)).length = 8 := fun _ => rfl
    exact Blocks.flatMap_range_length each _
  · rw [packWord, insertLanes_eq length]
    simp only [stored]
    rfl

/-- The byte at a place of `systematic2`. -/
def Memory.systematic2 (m : Memory) (expanded : List Byte) (baseInterleaver i : Nat) : Byte :=
  BitVec.ofNat 8 (movemask (m.laneGroup expanded (baseInterleaver + 8 * i)))

theorem packWords_eq (m : Memory) (expanded : List Byte) {s : Packing} {avx2 : Bool}
    (length : s.tmp.length = 8 * laneGroups avx2) (words : Nat) :
    ∃ tmp, tmp.length = 8 * laneGroups avx2 ∧
      (List.range words).foldl (fun s _ => packWord m expanded (laneGroups avx2) s) s =
        ⟨tmp, s.ptrIntl + 8 * (laneGroups avx2 * words),
          s.out ++ (List.range (laneGroups avx2 * words)).map (m.systematic2 expanded s.ptrIntl),
          s.reads ++ (List.range (8 * (laneGroups avx2 * words))).map (s.ptrIntl + ·)⟩ := by
  induction words with
  | zero =>
    refine ⟨s.tmp, length, ?_⟩
    simp only [Nat.mul_zero, List.range_zero, List.map_nil, List.append_nil, Nat.add_zero,
      List.foldl_nil]
  | succ words ih =>
    obtain ⟨tmp, kept, before⟩ := ih
    obtain ⟨tmp', kept', next⟩ :=
      packWord_eq m expanded (s := ⟨tmp, s.ptrIntl + 8 * (laneGroups avx2 * words),
      s.out ++ (List.range (laneGroups avx2 * words)).map (m.systematic2 expanded s.ptrIntl),
      s.reads ++ (List.range (8 * (laneGroups avx2 * words))).map (s.ptrIntl + ·)⟩) kept
    refine ⟨tmp', kept', ?_⟩
    rw [List.range_succ, List.foldl_append, before, List.foldl_cons, List.foldl_nil, next]
    simp only [Nat.mul_succ, Nat.mul_add, List.range_add, List.map_append, List.map_map,
      Function.comp_def, Memory.systematic2, Nat.add_assoc, List.append_assoc]

end Packing

section Runs
variable {m : Memory} {avx2 : Bool} {row n : Nat}

theorem Memory.systematic2_bit (found : findRow (8 * n) = some row) {i b : Nat} (inside : i < n)
    (small : b < 8) :
    bitOf (m.systematic2 (m.expanded avx2 n) (begIndex row) i) b =
    m.bitAt (m.ilTbAt (begIndex row + (8 * i + b))) := by
  have index : m.ilTbAt (begIndex row + (8 * i + b)) < 8 * n := ilTbAt_lt found (by omega)
  have length : (m.laneGroup (m.expanded avx2 n) (begIndex row + 8 * i)).length = 8 := rfl
  have mask := movemask_lt (m.laneGroup (m.expanded avx2 n) (begIndex row + 8 * i))
  have within : 7 - b < (m.laneGroup (m.expanded avx2 n) (begIndex row + 8 * i)).length := by
    rw [length]
    omega
  have lane : (m.laneGroup (m.expanded avx2 n) (begIndex row + 8 * i))[7 - b] =
      m.picked (m.expanded avx2 n) (begIndex row + (8 * i + b)) := by
    have back : 7 - (7 - b) = b := by omega
    simp only [Memory.laneGroup, List.getElem_map, List.getElem_range, back, Nat.add_assoc]
  rw [bitOf_eq _ small, Memory.systematic2, BitVec.toNat_ofNat,
    Nat.mod_eq_of_lt (by rw [length] at mask; exact mask), movemask_testBit within, lane,
      Memory.picked, Memory.expanded_msb index, Memory.bitAt,
    bitOf_eq _ (Nat.mod_lt _ (by decide))]

theorem interleaveCompactByte_eq (m : Memory) (avx2 : Bool) (base n : Nat) :
    (interleaveCompactByte m avx2 base n).out =
        (List.range (laneGroups avx2 * (1 + (n - 1) / laneGroups avx2))).map
          (m.systematic2 (m.expanded avx2 n) base) ∧
      (interleaveCompactByte m avx2 base n).reads =
        (List.range (8 * (laneGroups avx2 * (1 + (n - 1) / laneGroups avx2)))).map (base + ·) := by
  have length : ((List.range (8 * laneGroups avx2)).map m.tmp).length = 8 * laneGroups avx2 := by
    rw [List.length_map, List.length_range]
  obtain ⟨tmp, _, packed⟩ := packWords_eq m (m.expanded avx2 n)
    (s := ⟨(List.range (8 * laneGroups avx2)).map m.tmp, base, [], []⟩) length
      (1 + (n - 1) / laneGroups avx2)
  have whole : interleaveCompactByte m avx2 base n = _ := packed
  rw [whole]
  exact ⟨List.nil_append _, List.nil_append _⟩

theorem words_enough {i : Nat} (inside : i < n) :
    i < laneGroups avx2 * (1 + (n - 1) / laneGroups avx2) := by
  cases avx2 with
  | false =>
    have two : laneGroups false = 2 := rfl
    rw [two]
    omega
  | true =>
    have four : laneGroups true = 4 := rfl
    rw [four]
    omega

theorem sseByte_eq (found : findRow (8 * n) = some row) {i : Nat} (inside : i < n) :
    sseByte m (interleaveCompactByte m avx2 (begIndex row) n).out
        ⟨(m.coded row 0 (8 * i)).out, (m.coded row 0 (8 * i)).state0,
          (m.coded row 0 (8 * i)).state1⟩ i =
      some ⟨(m.coded row 0 (8 * (i + 1))).out, (m.coded row 0 (8 * (i + 1))).state0,
        (m.coded row 0 (8 * (i + 1))).state1⟩ := by
  obtain ⟨low0, low1, unfilled⟩ : (m.coded row 0 (8 * i)).state0.toNat < 8 ∧
    (m.coded row 0 (8 * i)).state1.toNat < 8 ∧
    (m.coded row 0 (8 * i)).fillers = 0 - 8 * i := m.coded_low (8 * i)
  have pairs : m.coded row 0 (8 * (i + 1)) =
      ((List.range 8).map
        fun b => (bitOf (m.input i) b,
        bitOf (m.systematic2 (m.expanded avx2 n) (begIndex row) i) b)).foldl
        Coded.push (m.coded row 0 (8 * i)) := by
    rw [Nat.mul_succ, Memory.coded, List.range_add, List.map_append, List.foldl_append,
      ← Memory.coded, List.map_map]
    congr 1
    refine List.map_congr_left fun b member => ?_
    have small := List.mem_range.mp member
    have quotient : (8 * i + b) / 8 = i := by omega
    have rest : (8 * i + b) % 8 = b := by omega
    rw [Function.comp_apply, Memory.pairAt, Memory.systematic2_bit found inside small, Memory.bitAt,
      quotient, rest]
  have byte : (interleaveCompactByte m avx2 (begIndex row) n).out[i]? =
      some (m.systematic2 (m.expanded avx2 n) (begIndex row) i) := by
    rw [(interleaveCompactByte_eq m avx2 (begIndex row) n).1, List.getElem?_map,
      List.getElem?_range (words_enough inside)]
    rfl
  rw [pairs, treillis_pushes (unfilled.trans (Nat.zero_sub _)), sseByte]
  simp only [byte, allTreillis, if_pos low0, if_pos low1, Option.bind_eq_bind, Option.bind_some,
    Option.pure_def]

theorem sseBytes_eq (found : findRow (8 * n) = some row) {count : Nat} (inside : count ≤ n) :
    (List.range count).foldlM
      (sseByte m (interleaveCompactByte m avx2 (begIndex row) n).out) ⟨[], 0, 0⟩ =
      some ⟨(m.coded row 0 (8 * count)).out, (m.coded row 0 (8 * count)).state0,
        (m.coded row 0 (8 * count)).state1⟩ := by
  induction count with
  | zero => rfl
  | succ count ih =>
    rw [List.range_succ, List.foldlM_append, ih (Nat.le_of_succ_le inside)]
    simp only [Option.bind_eq_bind, Option.bind_some, List.foldlM_cons, List.foldlM_nil,
      sseByte_eq found inside, Option.pure_def]

theorem turboEncoderSse_eq (found : findRow (8 * n) = some row) (filler : Nat) :
    threegpplteTurboEncoderSse avx2 m n filler =
      some ⟨(m.coded row 0 (8 * n)).out ++ termination (m.coded row 0 (8 * n)).state0 ++
        termination (m.coded row 0 (8 * n)).state1,
        (List.range (8 * (laneGroups avx2 * (1 + (n - 1) / laneGroups avx2)))).map
          (begIndex row + ·)⟩ := by
  rw [threegpplteTurboEncoderSse, found]
  simp only [Option.bind_eq_bind, Option.bind_some, sseBytes_eq found (Nat.le_refl n),
    Option.pure_def, (interleaveCompactByte_eq m avx2 (begIndex row) n).2]

end Runs

end OpenAir.Phy.Turbo
