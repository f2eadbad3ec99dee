import Mathlib.Algebra.Group.Nat.Defs
import Mathlib.Data.List.Basic

/-! Vector registers as lists of bytes, the lane with number 0 first. -/
namespace OpenAir.Simd

abbrev Byte := BitVec 8

/-- Units of some width, one from each operand in turn. -/
def alternate (width : Nat) : Nat → List Byte → List Byte → List Byte
  | 0, _, _ => []
  | count + 1, a, b => a.take width ++ b.take width ++ alternate width count
      (a.drop width) (b.drop width)

/-- `_mm_unpacklo_epi8`, `_epi16` and `_epi32` by the width in bytes. -/
def unpackLow (width : Nat) (a b : List Byte) : List Byte := alternate width (8 / width) a b

/-- `_mm_unpackhi_epi8`, `_epi16` and `_epi32` -/
def unpackHigh (width : Nat) (a b : List Byte) : List Byte :=
  alternate width (8 / width) (a.drop 8) (b.drop 8)

/-- The instructions on 256 bits treat the two halves alike. -/
def halves (op : List Byte → List Byte → List Byte) (a b : List Byte) : List Byte :=
  op (a.take 16) (b.take 16) ++ op (a.drop 16) (b.drop 16)

/-- `_mm256_extracti128_si256` -/
def extractHalf (a : List Byte) (high : Bool) : List Byte := if high then a.drop 16 else a.take 16

/-- `_mm256_insertf128_si256` -/
def insertHalf (a half : List Byte) (high : Bool) : List Byte :=
  if high then a.take 16 ++ half else half ++ a.drop 16

/-- `_mm_cmpeq_epi8(_mm_and_si128(a,mask),mask)` -/
def testMask (mask a : List Byte) : List Byte :=
  List.zipWith (fun m v => if v &&& m = m then 0xFF else 0) mask a

/-- `_mm_insert_epi8` -/
def insertByte (a : List Byte) (value : Byte) (lane : Nat) : List Byte := a.set lane value

/-- `_mm_movemask_epi8`: the highest bits of all lanes. -/
def movemask : List Byte → Nat
  | [] => 0
  | lane :: rest => lane.msb.toNat + 2 * movemask rest

/-- A number in memory. -/
def littleEndian (value : Nat) : Nat → List Byte
  | 0 => []
  | count + 1 => BitVec.ofNat 8 value :: littleEndian (value / 256) count

theorem movemask_lt (lanes : List Byte) : movemask lanes < 2 ^ lanes.length := by
  induction lanes with
  | nil => exact Nat.one_pos
  | cons lane rest ih =>
    have bit := Bool.toNat_le lane.msb
    rw [movemask, List.length_cons, Nat.pow_succ]
    omega

theorem movemask_append (a b : List Byte) :
    movemask (a ++ b) = movemask a + 2 ^ a.length * movemask b := by
  induction a with
  | nil => simp [movemask]
  | cons lane rest ih =>
    rw [List.cons_append, movemask, movemask, ih, List.length_cons, Nat.pow_succ, Nat.mul_add,
      Nat.mul_comm (2 ^ _) 2, Nat.mul_assoc, Nat.add_assoc]

/-- Eight lanes go to one byte in memory. -/
theorem littleEndian_movemask {groups : List (List Byte)}
    (eight : ∀ group ∈ groups, group.length = 8) :
    littleEndian (movemask groups.flatten) groups.length = groups.map
    fun group => BitVec.ofNat 8 (movemask group) := by
  induction groups with
  | nil => rfl
  | cons group rest ih =>
    have length := eight group List.mem_cons_self
    have small := movemask_lt group
    rw [length] at small
    have low : BitVec.ofNat 8 (movemask group + 2 ^ 8 * movemask rest.flatten) =
        BitVec.ofNat 8 (movemask group) := by
      apply BitVec.eq_of_toNat_eq
      rw [BitVec.toNat_ofNat, BitVec.toNat_ofNat, Nat.add_mul_mod_self_left]
    have high : (movemask group + 2 ^ 8 * movemask rest.flatten) / 256 =
      movemask rest.flatten := by omega
    rw [List.flatten_cons, movemask_append, length, List.length_cons, littleEndian, low, high,
      ih fun other member => eight other (List.mem_cons_of_mem _ member)]
    rfl

theorem movemask_testBit {lanes : List Byte} {lane : Nat} (inside : lane < lanes.length) :
    (movemask lanes).testBit lane = lanes[lane].msb := by
  induction lanes generalizing lane with
  | nil => cases inside
  | cons first rest ih =>
    rw [movemask]
    cases lane with
    | zero =>
      rw [Nat.testBit_zero, List.getElem_cons_zero]
      cases first.msb <;> simp
    | succ lane =>
      have half : (first.msb.toNat + 2 * movemask rest) / 2 = movemask rest := by
        have bit := Bool.toNat_le first.msb
        omega
      rw [Nat.testBit_succ, half, List.getElem_cons_succ]
      exact ih (Nat.lt_of_succ_lt_succ inside)

end OpenAir.Simd
