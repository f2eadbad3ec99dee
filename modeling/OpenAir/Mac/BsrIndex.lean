import Mathlib.Algebra.Group.Int.Defs
import Mathlib.Algebra.Group.Nat.Defs
import Mathlib.Order.Bounds.Basic

/-! The index of a buffer size in a table of buffer status reports:
`locate_BsrIndexByBufferSize`. -/
namespace OpenAir.Mac.BsrIndex

/-- An `int` compared with a `uint32_t`. -/
def unsigned (value : Int) : Nat := (value % 2 ^ 32).toNat

/-- The bisection and the choice between its bounds; `none` outside of the table, or when it has not
ended with the fuel. -/
def bisect (table : List Nat) (ascend : Bool) (value : Nat) : Nat → Nat → Nat → Option Nat
  | 0, _, _ => none
  | fuel + 1, jl, ju =>
    if 1 < ju - jl then do
      let jm := (ju + jl) >>> 1
      let entry ← table[jm]?
      if decide (entry ≤ value) = ascend then bisect table ascend value fuel jm ju
      else bisect table ascend value fuel jl jm
    else do
      let low ← table[jl]?
      some (if value = low then jl else (jl + 1) % 256)

def locateBsrIndexByBufferSize (table : List Nat) (value : Int) (fuel : Nat) : Option Nat :=
  if ¬ (0 < table.length ∧ table.length ≤ 256) then none
  else if value = 0 then some 0
  else do
    let jl := 0
    let ju := table.length - 1
    let first ← table[jl]?
    let last ← table[ju]?
    bisect table (decide (first ≤ last)) (unsigned value) fuel jl ju

/-- `BSR_TABLE`, of the UE and of the eNB. -/
def bsrTable : List Nat :=
  [0, 10, 12, 14, 17, 19, 22, 26, 31, 36, 42, 49, 57, 67, 78, 91,
   105, 125, 146, 171, 200, 234, 274, 321, 376, 440, 515, 603, 706, 826,
   967, 1132,
   1326, 1552, 1817, 2127, 2490, 2915, 3413, 3995, 4677, 5467, 6411, 7505,
   8787, 10287, 12043, 14099,
   16507, 19325, 22624, 26487, 31009, 36304, 42502, 49759, 58255, 68201,
   79846, 93479, 109439, 128125, 150000, 300000]

/-- A strictly ascending table of at most 256 sizes from 0 on, in 32 bits. -/
structure IsTable (table : List Nat) : Prop where
  ascending : table.Pairwise (· < ·)
  first : table[0]? = some 0
  short : table.length ≤ 256
  bounded : ∀ size ∈ table, size < 2 ^ 32

/-- The least index whose size holds the buffer, or the last one when there is none; what is read
back at the index is not below the buffer, except in the last class. -/
structure Located (table : List Nat) (value : Int) (index : Nat) : Prop where
  least : IsLeast {i | ∃ size : Nat, table[i]? = some size ∧ value ≤ size} index ∨
    (∀ size ∈ table, (size : Int) < value) ∧ index + 1 = table.length
  readBack : ∀ size : Nat, table[index]? = some size → value ≤ size ∨ index + 1 = table.length

namespace IsTable
variable {table : List Nat}

theorem length_pos (valid : IsTable table) : 0 < table.length :=
  (List.getElem?_eq_some_iff.mp valid.first).1

theorem lt (valid : IsTable table) {i j low high : Nat} (less : i < j) (here : table[i]? = some low)
    (there : table[j]? = some high) : low < high := by
  obtain ⟨_, rfl⟩ := List.getElem?_eq_some_iff.mp here
  obtain ⟨_, rfl⟩ := List.getElem?_eq_some_iff.mp there
  exact List.pairwise_iff_getElem.mp valid.ascending i j _ _ less

theorem le (valid : IsTable table) {i j low high : Nat} (less : i ≤ j) (here : table[i]? = some low)
    (there : table[j]? = some high) : low ≤ high := by
  rcases Nat.lt_or_eq_of_le less with less | rfl
  · exact Nat.le_of_lt (valid.lt less here there)
  · exact Nat.le_of_eq (Option.some.inj (here.symm.trans there))

end IsTable

/-- What the bounds of the bisection keep: the lower one is not above the value, the upper one above
it or at the end. -/
structure Bounds (table : List Nat) (value jl ju : Nat) : Prop where
  less : jl < ju
  inside : ju < table.length
  low : ∀ size, table[jl]? = some size → size ≤ value
  high : ∀ size, table[ju]? = some size → value < size ∨ ju + 1 = table.length

/-- What a value found in the table, or between two of its sizes, means for the index. -/
structure Found (table : List Nat) (value index : Nat) : Prop where
  inside : index < table.length
  below : ∀ i < index, ∀ size, table[i]? = some size → size < value
  holds : ∀ size, table[index]? = some size → value ≤ size ∨ index + 1 = table.length

section Search
variable {table : List Nat} {value : Nat}

theorem Bounds.found (valid : IsTable table) {jl low : Nat}
    (bounds : Bounds table value jl (jl + 1))
    (here : table[jl]? = some low) : Found table value (if value = low then jl else jl + 1) := by
  have inside : jl < table.length := Nat.lt_of_succ_lt bounds.inside
  split
  · next same =>
    refine ⟨inside, fun i before size there => ?_, fun size there => .inl ?_⟩
    · rw [same]
      exact valid.lt before there here
    · rw [same]
      exact Nat.le_of_eq (Option.some.inj (here.symm.trans there))
  · next other =>
    have above : low < value := Nat.lt_of_le_of_ne (bounds.low low here) (Ne.symm other)
    refine ⟨bounds.inside, fun i before size there => ?_, fun size there => ?_⟩
    · exact Nat.lt_of_le_of_lt (valid.le (Nat.le_of_lt_succ before) there here) above
    · exact (bounds.high size there).imp_left Nat.le_of_lt

/-- A turn of the bisection moves one of the bounds to the middle. -/
theorem Bounds.middle {jl ju : Nat} (bounds : Bounds table value jl ju) (wide : 1 < ju - jl) :
    ∃ entry, table[(ju + jl) >>> 1]? = some entry ∧ jl < (ju + jl) >>> 1 ∧ (ju + jl) >>> 1 < ju ∧
      (entry ≤ value → Bounds table value ((ju + jl) >>> 1) ju) ∧
      (value < entry → Bounds table value jl ((ju + jl) >>> 1)) := by
  rw [Nat.shiftRight_eq_div_pow, Nat.pow_one]
  have above : jl < (ju + jl) / 2 := by omega
  have below : (ju + jl) / 2 < ju := by omega
  have inside : (ju + jl) / 2 < table.length := Nat.lt_trans below bounds.inside
  refine ⟨_, List.getElem?_eq_getElem inside, above, below, fun notAbove => ?_, fun notBelow => ?_⟩
  · refine ⟨below, bounds.inside, fun size there => ?_, bounds.high⟩
    rw [← Option.some.inj ((List.getElem?_eq_getElem inside).symm.trans there)]
    exact notAbove
  · refine ⟨above, inside, bounds.low, fun size there => .inl ?_⟩
    rw [← Option.some.inj ((List.getElem?_eq_getElem inside).symm.trans there)]
    exact notBelow

theorem bisect_found (valid : IsTable table) {fuel jl ju : Nat} (bounds : Bounds table value jl ju)
    (enough : ju - jl ≤ fuel) :
    ∃ index, (∀ more, fuel ≤ more → bisect table true value more jl ju = some index) ∧
      Found table value index := by
  induction fuel generalizing jl ju with
  | zero =>
    have reached : ju ≤ jl := Nat.le_of_sub_eq_zero (Nat.le_zero.mp enough)
    exact absurd bounds.less (Nat.not_lt.mpr reached)
  | succ fuel ih =>
    by_cases wide : 1 < ju - jl
    · obtain ⟨entry, here, above, below, right, left⟩ := bounds.middle wide
      by_cases notAbove : entry ≤ value
      · obtain ⟨index, ran, found⟩ := ih (right notAbove) (by omega)
        refine ⟨index, fun more within => ?_, found⟩
        obtain ⟨more, rfl⟩ : ∃ n, more = n + 1 := ⟨more - 1, by omega⟩
        rw [bisect, if_pos wide]
        simp only [here, Option.bind_eq_bind, Option.bind_some, notAbove, decide_true, if_true]
        exact ran more (Nat.le_of_succ_le_succ within)
      · obtain ⟨index, ran, found⟩ := ih (left (Nat.lt_of_not_le notAbove)) (by omega)
        refine ⟨index, fun more within => ?_, found⟩
        obtain ⟨more, rfl⟩ : ∃ n, more = n + 1 := ⟨more - 1, by omega⟩
        rw [bisect, if_pos wide]
        simp only [here, Option.bind_eq_bind, Option.bind_some, notAbove, decide_false,
          Bool.false_eq_true, if_false]
        exact ran more (Nat.le_of_succ_le_succ within)
    · have next : ju = jl + 1 := by
        have less := bounds.less
        omega
      subst next
      have inside : jl < table.length := Nat.lt_of_succ_lt bounds.inside
      have here : table[jl]? = some table[jl] := List.getElem?_eq_getElem inside
      refine ⟨_, fun more within => ?_, bounds.found valid here⟩
      obtain ⟨more, rfl⟩ : ∃ n, more = n + 1 := ⟨more - 1, by omega⟩
      have small : (jl + 1) % 256 = jl + 1 :=
        Nat.mod_eq_of_lt (Nat.lt_of_lt_of_le bounds.inside valid.short)
      rw [bisect, if_neg wide]
      simp only [here, Option.bind_eq_bind, Option.bind_some, small]

end Search

section Located
variable {table : List Nat}

theorem Found.located {value index : Nat} (found : Found table value index) :
    Located table value index where
  least := by
    have inside := found.inside
    have here : table[index]? = some table[index] := List.getElem?_eq_getElem inside
    rcases Nat.lt_or_ge table[index] value with above | within
    · have last : index + 1 = table.length :=
        (found.holds _ here).resolve_left (Nat.not_le.mpr above)
      refine .inr ⟨fun size member => ?_, last⟩
      obtain ⟨i, inside, rfl⟩ := List.mem_iff_getElem.mp member
      rcases Nat.lt_or_eq_of_le (Nat.le_of_lt_succ (last ▸ inside)) with before | rfl
      · exact Int.ofNat_lt.mpr (found.below i before _ (List.getElem?_eq_getElem inside))
      · exact Int.ofNat_lt.mpr above
    · refine .inl ⟨⟨_, here, Int.ofNat_le.mpr within⟩, ?_⟩
      rintro i ⟨size, there, notBelow⟩
      refine Nat.le_of_not_lt fun before => ?_
      exact absurd (found.below i before size there) (Nat.not_lt.mpr (Int.ofNat_le.mp notBelow))
  readBack size there := (found.holds size there).imp_left Int.ofNat_le.mpr

theorem Located.inside {value : Int} {index : Nat} (located : Located table value index) :
    index < table.length := by
  rcases located.least with ⟨⟨size, here, _⟩, _⟩ | ⟨_, last⟩
  · exact (List.getElem?_eq_some_iff.mp here).1
  · exact last ▸ Nat.lt_succ_self index

/-- A size that is not positive is in the first class. -/
theorem Located.first {value : Int} {index : Nat} (located : Located table value index)
    (valid : IsTable table)
    (small : value ≤ 0) : index = 0 := by
  rcases located.least with least | ⟨below, _⟩
  · exact Nat.le_zero.mp (least.2 ⟨0, valid.first, small⟩)
  · have wrong := below 0 (List.mem_of_getElem? valid.first)
    exact absurd small (Int.not_le.mpr wrong)

theorem located_zero (valid : IsTable table) : Located table 0 0 where
  least := .inl ⟨⟨0, valid.first, Int.le_refl 0⟩, fun i _ => Nat.zero_le i⟩
  readBack size _ := .inl (Int.natCast_nonneg size)

/-- What the function computes where it comes to the bisection. -/
theorem locate_bisect (valid : IsTable table) {value : Int} (other : value ≠ 0) (fuel : Nat) :
    locateBsrIndexByBufferSize table value fuel =
    bisect table true (unsigned value) fuel 0 (table.length - 1) := by
  have last : table.length - 1 < table.length := Nat.sub_lt valid.length_pos Nat.one_pos
  have there : table[table.length - 1]? = some table[table.length - 1] :=
    List.getElem?_eq_getElem last
  rw [locateBsrIndexByBufferSize,
    if_neg (not_not_intro ⟨valid.length_pos, valid.short⟩), if_neg other]
  simp only [valid.first, there, Option.bind_eq_bind, Option.bind_some, Nat.zero_le, decide_true]

theorem unsigned_pos {value : Int} (other : value ≠ 0) (above : -2 ^ 31 ≤ value)
    (below : value < 2 ^ 31) :
    0 < unsigned value := by
  rw [unsigned]
  omega

theorem unsigned_eq {value : Int} (positive : 0 ≤ value) (below : value < 2 ^ 31) :
    (unsigned value : Int) = value := by
  rw [unsigned]
  omega

theorem locate_found (valid : IsTable table) {value : Int} (other : value ≠ 0)
    (two : 2 ≤ table.length) :
    ∃ index, (∀ fuel, table.length ≤ fuel →
        locateBsrIndexByBufferSize table value fuel = some index) ∧
      Found table (unsigned value) index := by
  have start : Bounds table (unsigned value) 0 (table.length - 1) := by
    refine ⟨by omega, by omega, fun size here => ?_, fun size _ => .inr (by omega)⟩
    rw [← Option.some.inj (valid.first.symm.trans here)]
    exact Nat.zero_le _
  obtain ⟨index, ran, found⟩ := @bisect_found _ _ valid table.length _ _ start (by omega)
  exact ⟨index, fun fuel enough => (locate_bisect valid other fuel).trans (ran fuel enough), found⟩

/-- A table of one size has nothing between its bounds. -/
theorem locate_single (valid : IsTable table) {value : Int} (other : value ≠ 0)
    (above : -2 ^ 31 ≤ value)
    (below : value < 2 ^ 31) (one : table.length = 1) (fuel : Nat) :
    locateBsrIndexByBufferSize table value (fuel + 1) = some 1 := by
  have differs : unsigned value ≠ 0 := Nat.ne_of_gt (unsigned_pos other above below)
  rw [locate_bisect valid other, one, bisect, if_neg (by decide)]
  simp only [valid.first, Option.bind_eq_bind, Option.bind_some, differs, if_false]

end Located

/-- The search is right for an empty buffer, and for every other one where the table has two
sizes. -/
theorem locate_located_iff {table : List Nat} (valid : IsTable table) {value : Int}
    (above : -2 ^ 31 ≤ value)
    (below : value < 2 ^ 31) :
    (∃ index, (∀ fuel, table.length ≤ fuel →
        locateBsrIndexByBufferSize table value fuel = some index) ∧
      Located table value index) ↔ value = 0 ∨ 0 < value ∧ 2 ≤ table.length := by
  constructor
  · rintro ⟨index, ran, located⟩
    by_cases zero : value = 0
    · exact .inl zero
    have two : 2 ≤ table.length := by
      by_contra few
      have one : table.length = 1 :=
        Nat.le_antisymm (Nat.le_of_lt_succ (Nat.lt_of_not_le few)) valid.length_pos
      have outside : index = 1 :=
        Option.some.inj
          ((ran 1 (Nat.le_of_eq one)).symm.trans (locate_single valid zero above below one 0))
      exact absurd located.inside (by omega)
    refine .inr ⟨?_, two⟩
    by_contra negative
    obtain ⟨same, ran', found⟩ := locate_found valid zero two
    have first : index = 0 := located.first valid (Int.not_lt.mp negative)
    have equal : same = 0 :=
      first ▸ Option.some.inj ((ran' _ (Nat.le_refl _)).symm.trans (ran _ (Nat.le_refl _)))
    subst equal
    rcases found.holds 0 valid.first with wrong | single
    · exact absurd (unsigned_pos zero above below) (Nat.not_lt.mpr wrong)
    · omega
  · rintro (rfl | ⟨positive, two⟩)
    · refine ⟨0, fun fuel _ => ?_, located_zero valid⟩
      rw [locateBsrIndexByBufferSize,
        if_neg (not_not_intro ⟨valid.length_pos, valid.short⟩), if_pos rfl]
    · obtain ⟨index, ran, found⟩ := locate_found valid (Int.ne_of_gt positive) two
      refine ⟨index, ran, ?_⟩
      rw [← unsigned_eq (Int.le_of_lt positive) below]
      exact found.located

theorem bsrTable_valid : IsTable bsrTable where
  ascending := by decide
  first := rfl
  short := by decide
  bounded := by decide

/-- A buffer of 1000 bytes in the table of the UE. -/
theorem bsrTable_located : ∃ index,
    (∀ fuel, bsrTable.length ≤ fuel → locateBsrIndexByBufferSize bsrTable 1000 fuel = some index) ∧
      Located bsrTable 1000 index :=
  (locate_located_iff bsrTable_valid (by decide) (by decide)).mpr (.inr ⟨by decide, by decide⟩)

/-- In the table of the one size 0 a byte is given the index 1. -/
theorem single_not_located : ¬ ∀ table : List Nat, IsTable table → ∀ value : Int, 0 ≤ value →
    value < 2 ^ 31 →
    ∃ index, (∀ fuel, table.length ≤ fuel →
        locateBsrIndexByBufferSize table value fuel = some index) ∧
      Located table value index := by
  intro always
  have valid : IsTable [0] := ⟨by decide, rfl, by decide, by decide⟩
  obtain ⟨index, ran, located⟩ := always [0] valid 1 (by decide) (by decide)
  have one : index = 1 := Option.some.inj ((ran 1 (by decide)).symm.trans (by decide))
  exact absurd located.inside (by rw [one]; decide)

end OpenAir.Mac.BsrIndex
