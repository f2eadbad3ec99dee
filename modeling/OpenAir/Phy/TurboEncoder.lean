import OpenAir.Phy.TurboTable
import OpenAir.Lib.Simd
import Mathlib.Data.List.Range
import Mathlib.Data.Nat.Bitwise

/-! The turbo encoder that goes bit by bit, with the tables of its first call. -/
namespace OpenAir.Phy.Turbo

open Simd (Byte)

def lteNull : Byte := 2

/-- `(v&(1<<(7-b)))>>(7-b)` -/
def bitOf (v : Byte) (b : Nat) : Byte := (v &&& (1 <<< (7 - b))) >>> (7 - b)

/-- The parity bit and the next state. -/
def threegpplteRsc (input state : Byte) : Byte × Byte :=
  ((input ^^^ (state >>> 2) ^^^ (state >>> 1)) &&& 1,
    ((input <<< 2) ^^^ (state >>> 1) ^^^ ((state >>> 1) <<< 2) ^^^ (state <<< 2)) &&& 7)

def outputLut : List Byte :=
  (List.range 8).flatMap
    fun state => [(threegpplteRsc 0 (.ofNat 8 state)).1, (threegpplteRsc 1 (.ofNat 8 state)).1]

def stateLut : List Byte :=
  (List.range 8).flatMap
    fun state => [(threegpplteRsc 0 (.ofNat 8 state)).2, (threegpplteRsc 1 (.ofNat 8 state)).2]

def bitByteLut : List Byte :=
  (List.range 2048).map fun dummy => bitOf (.ofNat 8 (dummy / 8)) (dummy % 8)

/-- `none` when the tables are left. -/
def threegpplteRscLut (input state : Byte) : Option (Byte × Byte) := do
  let off := (state <<< 1) ||| input
  let next ← stateLut[off.toNat]?
  let output ← outputLut[off.toNat]?
  return (output, next)

/-- `x`, `z` and the next state. -/
def threegpplteRscTermination (state : Byte) : Byte × Byte × Byte :=
  ((state ^^^ (state >>> 1)) &&& 1, ((state >>> 2) ^^^ state) &&& 1, state >>> 1)

/-- Three times in a row. -/
def termination (state : Byte) : List Byte :=
  let (x, z, state) := threegpplteRscTermination state
  let (x', z', state) := threegpplteRscTermination state
  let (x'', z'', _) := threegpplteRscTermination state
  [x, z, x', z', x'', z'']

/-- `f1f2mat[i].beg_index` -/
def begIndex (i : Nat) : Nat := ((f1f2.take i).map InterleaverRow.nbBits).sum

def rowIndices (row : InterleaverRow) : List Nat :=
  (List.range row.nbBits).map fun j => (j * row.f1 + j * j * row.f2) % row.nbBits

/-- `il_tb`: one row after the other. -/
def ilTb : List Nat := f1f2.flatMap rowIndices

/-- The loop that looks for the row; `none` for `Illegal frame length!` -/
def findRow (inputLengthBits : Nat) : Option Nat :=
  f1f2.findIdx? fun row => row.nbBits = inputLengthBits

/-- What is in memory around the block. -/
structure Memory where
  /-- From the pointer `input` on, also after the block. -/
  input : Nat → Byte
  /-- After the end of `il_tb`. -/
  behind : Nat → Nat
  /-- `expandInput` before it is written. -/
  expandInput : Nat → Byte
  /-- `tmp` before it is written. -/
  tmp : Nat → Byte

def Memory.ilTbAt (m : Memory) (index : Nat) : Nat := ilTb.getD index (m.behind index)

structure Encoded where
  output : List Byte
  /-- The indices of `il_tb` that were read. -/
  reads : List Nat
deriving DecidableEq

structure CState where
  out : List Byte
  state0 : Byte
  state1 : Byte
  pi : Nat
  baseInterleaver : Nat
  k : Nat
  reads : List Nat

/-- One turn of the inner loop. -/
def cBit (m : Memory) (filler i : Nat) (s : CState) (b : Nat) : Option CState := do
  let x ← bitByteLut[8 * (m.input i).toNat + b]?
  let (z, state0) ← threegpplteRscLut x s.state0
  let xprime ← bitByteLut[8 * (m.input (s.pi / 8)).toNat + s.pi % 8]?
  let (zprime, state1) ← threegpplteRscLut xprime s.state1
  -- filler bits get punctured
  let x := if s.k < filler then lteNull else x
  let z := if s.k < filler then lteNull else z
  let baseInterleaver := s.baseInterleaver + 1
  return ⟨s.out ++ [x, z, zprime], state0, state1, m.ilTbAt baseInterleaver,
    baseInterleaver, s.k + 1,
    s.reads ++ [baseInterleaver]⟩

/-- One turn of the loop over the bytes. -/
def cByte (m : Memory) (filler : Nat) (s : CState) (i : Nat) : Option CState :=
  (List.range 8).foldlM (cBit m filler i) s

/-- The states before the first bit. The first call fills the tables with the same variables
and does not clear them again. -/
def cStart (turboEncoderInit : Bool) : Byte × Byte :=
  if turboEncoderInit then (0, 0) else (8, (threegpplteRsc 1 7).2)

def threegpplteTurboEncoder (turboEncoderInit : Bool) (m : Memory) (inputLengthBytes filler : Nat) :
    Option Encoded := do
  let (state0, state1) := cStart turboEncoderInit
  let row ← findRow (8 * inputLengthBytes)
  let s ← (List.range inputLengthBytes).foldlM (cByte m filler)
    ⟨[], state0, state1, 0, begIndex row, 0, []⟩
  return ⟨s.out ++ termination s.state0 ++ termination s.state1, s.reads⟩

section Tables

theorem bitByteLut_get (v : Byte) {b : Nat} (small : b < 8) : bitByteLut[8 * v.toNat + b]? =
    some (bitOf v b) := by
  have byte := v.isLt
  have inside : 8 * v.toNat + b < 2048 := by omega
  have quotient : (8 * v.toNat + b) / 8 = v.toNat := by omega
  have rest : (8 * v.toNat + b) % 8 = b := by omega
  rw [bitByteLut, List.getElem?_map, List.getElem?_range inside, Option.map_some, quotient, rest,
    BitVec.ofNat_toNat, BitVec.setWidth_eq]

theorem bitOf_eq (v : Byte) {b : Nat} (small : b < 8) :
    bitOf v b = if v.toNat.testBit (7 - b) then 1 else 0 := by
  have mask : ((1 <<< (7 - b) : Nat) : Byte).toNat = 2 ^ (7 - b) := by
    have inside : 2 ^ (7 - b) < 2 ^ 8 := Nat.pow_lt_pow_right (by decide) (by omega)
    rw [Nat.shiftLeft_eq, Nat.one_mul]
    exact Nat.mod_eq_of_lt inside
  apply BitVec.eq_of_toNat_eq
  rw [bitOf, BitVec.toNat_ushiftRight, BitVec.toNat_and, mask, Nat.and_two_pow,
    Nat.shiftRight_eq_div_pow, Nat.mul_div_cancel _ (Nat.two_pow_pos _)]
  cases v.toNat.testBit (7 - b) <;> rfl

theorem bitOf_lt (v : Byte) {b : Nat} (small : b < 8) : (bitOf v b).toNat < 2 := by
  rw [bitOf_eq v small]
  split <;> decide

theorem rscLut_rows : ∀ input : Fin 2, threegpplteRscLut (.ofNat 8 input) 8 = none ∧
    ∀ state : Fin 8, threegpplteRscLut (.ofNat 8 input) (.ofNat 8 state) =
      some (threegpplteRsc (.ofNat 8 input) (.ofNat 8 state)) := by decide +kernel

theorem rscLut_eq {input state : Byte} (bit : input.toNat < 2) (low : state.toNat < 8) :
    threegpplteRscLut input state = some (threegpplteRsc input state) := by
  have found := (rscLut_rows ⟨input.toNat, bit⟩).2 ⟨state.toNat, low⟩
  simpa only [BitVec.ofNat_toNat, BitVec.setWidth_eq] using found

theorem rsc_low (input state : Byte) : (threegpplteRsc input state).2.toNat < 8 := by
  have masked : (threegpplteRsc input state).2.toNat ≤ (7 : Byte).toNat := by
    rw [threegpplteRsc, BitVec.toNat_and]
    exact Nat.and_le_right
  exact Nat.lt_succ_of_le masked

/-- The state that the first call starts in is not in the tables. -/
theorem rscLut_eight {input : Byte} (bit : input.toNat < 2) : threegpplteRscLut input 8 = none := by
  have found := (rscLut_rows ⟨input.toNat, bit⟩).1
  simpa only [BitVec.ofNat_toNat, BitVec.setWidth_eq] using found

end Tables

section Rows
variable {m : Memory} {row bits j : Nat}

theorem flatMap_at {rows : List InterleaverRow} {i : Nat} (found : i < rows.length)
    (inside : j < rows[i].nbBits) :
    (rows.flatMap rowIndices)[((rows.take i).map InterleaverRow.nbBits).sum + j]? =
    (rowIndices rows[i])[j]? := by
  induction rows generalizing i with
  | nil => cases found
  | cons first rest ih =>
    have length : (rowIndices first).length = first.nbBits := by
      rw [rowIndices, List.length_map, List.length_range]
    rw [List.flatMap_cons]
    cases i with
    | zero =>
      rw [List.take_zero, List.map_nil, List.sum_nil, Nat.zero_add]
      exact List.getElem?_append_left (length.symm ▸ inside)
    | succ i =>
      rw [List.take_succ_cons, List.map_cons, List.sum_cons, Nat.add_assoc, ← length,
        List.getElem?_append_right (Nat.le_add_right ..), Nat.add_sub_cancel_left]
      exact ih (Nat.lt_of_succ_lt_succ found) inside

theorem findRow_some (found : findRow bits = some row) : ∃ inside : row < f1f2.length,
    f1f2[row].nbBits = bits := by
  obtain ⟨inside, same, _⟩ := List.findIdx?_eq_some_iff_getElem.mp found
  exact ⟨inside, of_decide_eq_true same⟩

theorem findRow_isSome (legal : bits ∈ blockSizes) : ∃ row, findRow bits = some row := by
  obtain ⟨entry, member, same⟩ := List.mem_map.mp legal
  have found : (findRow bits).isSome := by
    rw [findRow, List.findIdx?_isSome, List.any_eq_true]
    exact ⟨entry, member, decide_eq_true same⟩
  exact Option.isSome_iff_exists.mp found

theorem ilTbAt_lt (found : findRow bits = some row) (inside : j < bits) :
    m.ilTbAt (begIndex row + j) < bits := by
  obtain ⟨listed, rfl⟩ := findRow_some found
  have entry := flatMap_at listed inside
  have place : (rowIndices f1f2[row])[j]? =
      some ((j * f1f2[row].f1 + j * j * f1f2[row].f2) % f1f2[row].nbBits) := by
    rw [rowIndices, List.getElem?_map, List.getElem?_range inside]
    rfl
  rw [Memory.ilTbAt, ilTb, List.getD_eq_getElem?_getD, begIndex, entry, place]
  exact Nat.mod_lt _ (Nat.zero_lt_of_lt inside)

/-- The first entry of a row is where the encoder begins without a look at the table. -/
theorem ilTbAt_first (found : findRow bits = some row) (some_ : 0 < bits) :
    m.ilTbAt (begIndex row) = 0 := by
  obtain ⟨listed, rfl⟩ := findRow_some found
  have entry := flatMap_at listed some_
  have place : (rowIndices f1f2[row])[0]? = some 0 := by
    rw [rowIndices, List.getElem?_map, List.getElem?_range some_, Option.map_some]
    simp only [Nat.zero_mul, Nat.zero_add, Nat.zero_mod]
  rw [Nat.add_zero] at entry
  rw [Memory.ilTbAt, ilTb, List.getD_eq_getElem?_getD, begIndex, entry, place]
  rfl

end Rows

section Runs
variable {m : Memory} {filler row bits : Nat}

/-- Two recursive encoders side by side, and how many filler bits are still to come. -/
structure Coded where
  out : List Byte
  state0 : Byte
  state1 : Byte
  fillers : Nat

def Coded.push (c : Coded) (pair : Byte × Byte) : Coded :=
  let (z, state0) := threegpplteRsc pair.1 c.state0
  let (zprime, state1) := threegpplteRsc pair.2 c.state1
  let first := if 0 < c.fillers then [lteNull, lteNull] else [pair.1, z]
  ⟨c.out ++ first ++ [zprime], state0, state1, c.fillers - 1⟩

def Memory.bitAt (m : Memory) (k : Nat) : Byte := bitOf (m.input (k / 8)) (k % 8)

/-- A bit of the block and its bit of the interleaved block. -/
def Memory.pairAt (m : Memory) (row k : Nat) : Byte × Byte :=
  (m.bitAt k, m.bitAt (m.ilTbAt (begIndex row + k)))

/-- Both encoders after some bits. -/
def Memory.coded (m : Memory) (row filler count : Nat) : Coded :=
  ((List.range count).map (m.pairAt row)).foldl Coded.push ⟨[], 0, 0, filler⟩

theorem Memory.coded_succ (count : Nat) :
    m.coded row filler (count + 1) = (m.coded row filler count).push (m.pairAt row count) := by
  rw [Memory.coded, List.range_succ, List.map_append, List.foldl_append]
  rfl

theorem Memory.coded_low (count : Nat) :
    (m.coded row filler count).state0.toNat < 8 ∧ (m.coded row filler count).state1.toNat < 8 ∧
      (m.coded row filler count).fillers = filler - count := by
  induction count with
  | zero => exact ⟨Nat.zero_lt_succ 7, Nat.zero_lt_succ 7, rfl⟩
  | succ count ih =>
    rw [m.coded_succ]
    refine ⟨rsc_low .., rsc_low .., ?_⟩
    rw [Coded.push, ih.2.2]
    exact Nat.sub_sub ..

/-- The state of the loops after some bits. -/
def Memory.cState (m : Memory) (row filler count : Nat) : CState :=
  let c := m.coded row filler count
  ⟨c.out, c.state0, c.state1, m.ilTbAt (begIndex row + count), begIndex row + count, count,
    (List.range count).map fun k => begIndex row + (k + 1)⟩

theorem cBit_eq (q : Nat) : cBit m filler (q / 8) (m.cState row filler q) (q % 8) =
    some (m.cState row filler (q + 1)) := by
  obtain ⟨low0, low1, fillers⟩ : (m.coded row filler q).state0.toNat < 8 ∧
    (m.coded row filler q).state1.toNat < 8 ∧
    (m.coded row filler q).fillers = filler - q := m.coded_low q
  have small : q % 8 < 8 := Nat.mod_lt _ (by decide)
  have inner : m.ilTbAt (begIndex row + q) % 8 < 8 := Nat.mod_lt _ (by decide)
  have punctured : (q < filler) = (0 < filler - q) := propext (by omega)
  rw [cBit, Memory.cState, Memory.cState, m.coded_succ, Coded.push, fillers, Memory.pairAt,
    Memory.bitAt, Memory.bitAt]
  simp only [bitByteLut_get _ small, bitByteLut_get _ inner, rscLut_eq (bitOf_lt _ small) low0,
    rscLut_eq (bitOf_lt _ inner) low1, Option.bind_eq_bind, Option.bind_some,
      Option.pure_def, punctured,
    List.range_succ, List.map_append, List.map_singleton, Nat.add_assoc]
  by_cases filled : 0 < filler - q
  · simp only [if_pos filled, List.append_assoc, List.cons_append, List.nil_append]
  · simp only [if_neg filled, List.append_assoc, List.cons_append, List.nil_append]

theorem cByte_eq {i count : Nat} (small : count ≤ 8) :
    (List.range count).foldlM (cBit m filler i) (m.cState row filler (8 * i)) =
    some (m.cState row filler (8 * i + count)) := by
  induction count with
  | zero => rfl
  | succ count ih =>
    have quotient : (8 * i + count) / 8 = i := by omega
    have rest : (8 * i + count) % 8 = count := by omega
    have next : cBit m filler ((8 * i + count) / 8) (m.cState row filler (8 * i + count))
      ((8 * i + count) % 8) =
      some (m.cState row filler (8 * i + count + 1)) := cBit_eq (8 * i + count)
    rw [quotient, rest] at next
    rw [List.range_succ, List.foldlM_append, ih (Nat.le_of_succ_le small)]
    simp only [Option.bind_eq_bind, Option.bind_some, List.foldlM_cons, List.foldlM_nil, next,
      Option.pure_def]
    rfl

theorem cBytes_eq (count : Nat) :
    (List.range count).foldlM (cByte m filler) (m.cState row filler 0) =
      some (m.cState row filler (8 * count)) := by
  induction count with
  | zero => rfl
  | succ count ih =>
    have next : cByte m filler (m.cState row filler (8 * count)) count =
        some (m.cState row filler (8 * count + 8)) :=
      cByte_eq (Nat.le_refl 8)
    rw [List.range_succ, List.foldlM_append, ih, Nat.mul_succ]
    simp only [Option.bind_eq_bind, Option.bind_some, List.foldlM_cons, List.foldlM_nil, next,
      Option.pure_def]

/-- After the first call. -/
theorem turboEncoder_eq {n : Nat} (found : findRow (8 * n) = some row) (some_ : 0 < n) :
    threegpplteTurboEncoder true m n filler =
      some ⟨(m.coded row filler (8 * n)).out ++ termination (m.coded row filler (8 * n)).state0 ++
          termination (m.coded row filler (8 * n)).state1,
        (List.range (8 * n)).map fun k => begIndex row + (k + 1)⟩ := by
  have start : (⟨[], 0, 0, 0, begIndex row, 0, []⟩ : CState) = m.cState row filler 0 := by
    rw [Memory.cState, Nat.add_zero, ilTbAt_first found (by omega)]
    rfl
  rw [threegpplteTurboEncoder, cStart, if_pos rfl, found]
  simp only [Option.bind_eq_bind, Option.bind_some, start, cBytes_eq]
  rfl

theorem turboEncoder_first {n : Nat} (found : findRow (8 * n) = some row) (some_ : 0 < n) :
    threegpplteTurboEncoder false m n filler = none := by
  obtain ⟨n, rfl⟩ := Nat.exists_eq_succ_of_ne_zero (Nat.ne_of_gt some_)
  have bit : ∀ s : CState, s.state0 = 8 → cBit m filler 0 s 0 = none := by
    intro s eight
    rw [cBit, bitByteLut_get _ (by decide)]
    have outside : threegpplteRscLut (bitOf (m.input 0) 0) 8 = none :=
      rscLut_eight (bitOf_lt _ (by decide))
    simp only [Option.bind_eq_bind, Option.bind_some, eight, outside, Option.bind_none]
  have byte : ∀ s : CState, s.state0 = 8 → cByte m filler s 0 = none := by
    intro s eight
    have bits : List.range 8 = 0 :: [1, 2, 3, 4, 5, 6, 7] := rfl
    rw [cByte, bits, List.foldlM_cons, bit s eight]
    rfl
  rw [threegpplteTurboEncoder, cStart, found]
  simp only [Bool.false_eq_true, if_false, Option.bind_eq_bind, Option.bind_some]
  rw [List.range_succ_eq_map, List.foldlM_cons, byte _ rfl]
  rfl

end Runs

end OpenAir.Phy.Turbo
