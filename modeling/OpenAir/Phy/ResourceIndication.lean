import Mathlib.Data.Set.Function
import Mathlib.Tactic.Ring
import OpenAir.Lib.Table

/-! Resource indication values: a run of resource blocks as one number, and the tables that turn the
number back. The tables of distributed allocations are written at the same places and left out. -/
namespace OpenAir.Phy.ResourceIndication

/-- The `int` before it is stored in 16 bits. -/
def rivValue (nRb rbStart lcrbs : Nat) : Int :=
  if lcrbs ≤ 1 + nRb >>> 1 then nRb * ((lcrbs : Int) - 1) + rbStart
  else nRb * ((nRb : Int) + 1 - lcrbs) + ((nRb : Int) - 1 - rbStart)

def computeRiv (nRb rbStart lcrbs : Nat) : Nat := (rivValue nRb rbStart lcrbs % 65536).toNat

def macComputeRiv (nRbDl rbStart lcrbs : Nat) : Nat := computeRiv nRbDl rbStart lcrbs

def getRiv (nRbDl rbStart lcrbs : Nat) : Nat := computeRiv nRbDl rbStart lcrbs

/-- The pairs of a first block and a length that fit the band. -/
def allocations (nRb : Nat) : Set (Nat × Nat) := {p | 1 ≤ p.2 ∧ p.1 + p.2 ≤ nRb}

/-! ### The triangle of allocations, folded to rows of `nRb` places -/

section
variable {nRb rbStart lcrbs : Nat}

def row (nRb lcrbs : Nat) : Nat := if lcrbs ≤ 1 + nRb / 2 then lcrbs - 1 else nRb + 1 - lcrbs

def column (nRb rbStart lcrbs : Nat) : Nat :=
  if lcrbs ≤ 1 + nRb / 2 then rbStart else nRb - 1 - rbStart

theorem column_lt (valid : (rbStart, lcrbs) ∈ allocations nRb) :
    column nRb rbStart lcrbs < nRb := by
  obtain ⟨some_, fits⟩ := valid
  rw [column]
  split <;> omega

theorem rivValue_eq (valid : (rbStart, lcrbs) ∈ allocations nRb) :
    rivValue nRb rbStart lcrbs = (nRb * row nRb lcrbs + column nRb rbStart lcrbs : Nat) := by
  obtain ⟨some_, fits⟩ := valid
  rw [rivValue, row, column, Nat.shiftRight_eq_div_pow, pow_one]
  dsimp only at some_ fits
  split
  · push_cast [some_]
    rfl
  · have below : lcrbs ≤ nRb + 1 := by omega
    have before : rbStart ≤ nRb - 1 := by omega
    have positive : 1 ≤ nRb := by omega
    push_cast [below, before, positive]
    rfl

theorem triangle (nRb : Nat) :
    nRb * (nRb + 1) / 2 = nRb * (nRb / 2) + if nRb % 2 = 0 then nRb / 2 else nRb := by
  obtain ⟨half, even | odd⟩ := Nat.even_or_odd' nRb
  · have product : nRb * (nRb + 1) = 2 * (nRb * half + half) := by
      rw [even]
      ring
    rw [product, Nat.mul_div_cancel_left _ two_pos, if_pos (by omega), even,
      Nat.mul_div_cancel_left _ two_pos]
  · have product : nRb * (nRb + 1) = 2 * (nRb * half + nRb) := by
      rw [odd]
      ring
    have floor : nRb / 2 = half := by omega
    rw [product, Nat.mul_div_cancel_left _ two_pos, if_neg (by omega), floor]

theorem place_lt (valid : (rbStart, lcrbs) ∈ allocations nRb) :
    nRb * row nRb lcrbs + column nRb rbStart lcrbs < nRb * (nRb + 1) / 2 := by
  have inside := column_lt valid
  obtain ⟨some_, fits⟩ := valid
  dsimp only at some_ fits
  rw [triangle]
  by_cases full : row nRb lcrbs < nRb / 2
  · have rows := Nat.mul_le_mul_left nRb (Nat.succ_le_of_lt full)
    rw [Nat.mul_succ] at rows
    omega
  · -- the last row, of half the width when the band is even
    have last : row nRb lcrbs = nRb / 2 := by
      rw [row] at full ⊢
      split at full <;> split <;> omega
    rw [last]
    apply Nat.add_lt_add_left
    split
    · rw [row] at last
      rw [column] at inside ⊢
      split at last <;> split <;> omega
    · exact inside

theorem place_inj {otherStart otherLcrbs : Nat} (valid : (rbStart, lcrbs) ∈ allocations nRb)
    (otherValid : (otherStart, otherLcrbs) ∈ allocations nRb)
    (rows : row nRb lcrbs = row nRb otherLcrbs)
    (columns : column nRb rbStart lcrbs = column nRb otherStart otherLcrbs) :
    (rbStart, lcrbs) = (otherStart, otherLcrbs) := by
  obtain ⟨some_, fits⟩ := valid
  obtain ⟨otherSome, otherFits⟩ := otherValid
  dsimp only at some_ fits otherSome otherFits
  rw [row, row] at rows
  rw [column, column] at columns
  rw [Prod.mk.injEq]
  by_cases short : lcrbs ≤ 1 + nRb / 2
  · by_cases otherShort : otherLcrbs ≤ 1 + nRb / 2
    · rw [if_pos short, if_pos otherShort] at rows columns
      exact ⟨columns, by omega⟩
    · -- the two halves of a row have no place in common
      rw [if_pos short, if_neg otherShort] at rows columns
      omega
  · by_cases otherShort : otherLcrbs ≤ 1 + nRb / 2
    · rw [if_neg short, if_pos otherShort] at rows columns
      omega
    · rw [if_neg short, if_neg otherShort] at rows columns
      omega

theorem place_surj {v : Nat} (inside : v < nRb * (nRb + 1) / 2) :
    ∃ rbStart lcrbs, (rbStart, lcrbs) ∈ allocations nRb ∧
      nRb * row nRb lcrbs + column nRb rbStart lcrbs = v := by
  have positive : 0 < nRb := by
    rcases Nat.eq_zero_or_pos nRb with rfl | positive
    · exact absurd inside (Nat.not_lt_zero v)
    · exact positive
  have places := Nat.div_add_mod v nRb
  have narrow := Nat.mod_lt v positive
  generalize v / nRb = r at places
  generalize v % nRb = c at places narrow
  have few : r ≤ nRb / 2 ∧ (r = nRb / 2 → nRb % 2 = 0 → c < nRb / 2) := by
    rw [triangle, ← places] at inside
    constructor
    · by_contra many
      have rows := Nat.mul_le_mul_left nRb (Nat.succ_le_of_lt (Nat.lt_of_not_le many))
      rw [Nat.mul_succ] at rows
      split at inside <;> omega
    · intro last even
      rw [last, if_pos even] at inside
      exact Nat.lt_of_add_lt_add_left inside
  by_cases low : c + r < nRb
  · refine ⟨c, r + 1, ⟨Nat.le_add_left 1 r, by dsimp only; omega⟩, ?_⟩
    have short : r + 1 ≤ 1 + nRb / 2 := by omega
    rw [row, column, if_pos short, if_pos short, Nat.add_sub_cancel, places]
  · refine ⟨nRb - 1 - c, nRb + 1 - r, ⟨by dsimp only; omega, by dsimp only; omega⟩, ?_⟩
    have long : ¬ nRb + 1 - r ≤ 1 + nRb / 2 := by omega
    have rowBack : nRb + 1 - (nRb + 1 - r) = r := by omega
    have columnBack : nRb - 1 - (nRb - 1 - c) = c := by omega
    rw [row, column, if_neg long, if_neg long, rowBack, columnBack, places]

/-- No bit is cut off where the triangle fits 16 bits. -/
theorem computeRiv_eq (fits : nRb * (nRb + 1) / 2 ≤ 65536)
    (valid : (rbStart, lcrbs) ∈ allocations nRb) :
    computeRiv nRb rbStart lcrbs = nRb * row nRb lcrbs + column nRb rbStart lcrbs := by
  have small := place_lt valid
  rw [computeRiv, rivValue_eq valid, ← Nat.cast_ofNat, ← Int.natCast_mod, Int.toNat_natCast]
  exact Nat.mod_eq_of_lt (by omega)

theorem computeRiv_bijOn (fits : nRb * (nRb + 1) / 2 ≤ 65536) :
    Set.BijOn (fun p => computeRiv nRb p.1 p.2) (allocations nRb)
      (Set.Iio (nRb * (nRb + 1) / 2)) := by
  refine ⟨?_, ?_, ?_⟩
  · rintro ⟨rbStart, lcrbs⟩ valid
    show computeRiv nRb rbStart lcrbs < _
    rw [computeRiv_eq fits valid]
    exact place_lt valid
  · rintro ⟨rbStart, lcrbs⟩ valid ⟨otherStart, otherLcrbs⟩ otherValid same
    dsimp only at same
    rw [computeRiv_eq fits valid, computeRiv_eq fits otherValid] at same
    have inside := column_lt valid
    have otherInside := column_lt otherValid
    have positive : 0 < nRb := Nat.zero_lt_of_lt inside
    have rows := congrArg (· / nRb) same
    have columns := congrArg (· % nRb) same
    simp only [Nat.mul_add_div positive, Nat.div_eq_of_lt inside, Nat.div_eq_of_lt otherInside,
      Nat.add_zero] at rows
    simp only [Nat.mul_add_mod, Nat.mod_eq_of_lt inside, Nat.mod_eq_of_lt otherInside] at columns
    exact place_inj valid otherValid rows columns
  · intro v inside
    obtain ⟨rbStart, lcrbs, valid, here⟩ := place_surj inside
    exact ⟨(rbStart, lcrbs), valid, (computeRiv_eq fits valid).trans here⟩

end

/-! ### The tables -/

/-- A bandwidth with tables: its blocks, the words of a bitmap and the declared length. -/
structure Shape where
  nRb : Nat
  words : Nat
  size : Nat
deriving DecidableEq

/-- The bandwidths of `generate_RIV_tables`. -/
def shapes : List Shape := [⟨6, 1, 32⟩, ⟨25, 1, 512⟩, ⟨50, 2, 1600⟩, ⟨100, 4, 6000⟩]

/-- What the tables hold at one place: `localRIV2alloc`, `RIV2nb_rb` and `RIV2first_rb`. -/
structure Entry where
  localAlloc : List (BitVec 32)
  nbRb : Nat
  firstRb : Nat

/-- Sets the bit of a block in its word; the last word takes what the others do not. -/
def mark (alloc : List (BitVec 32)) (nVrb : Nat) : List (BitVec 32) :=
  alloc.modify (min (nVrb / 32) (alloc.length - 1)) fun word =>
    word ||| 1#32 <<< (nVrb - 32 * min (nVrb / 32) (alloc.length - 1))

/-- The inner loop from a length on: the bitmap grows by one block a turn. -/
def rowStores (nRb rbStart : Nat) (alloc : List (BitVec 32)) (lcrbs : Nat) : Nat →
    List (Nat × Entry)
  | 0 => []
  | left + 1 =>
    (computeRiv nRb rbStart lcrbs, ⟨mark alloc (lcrbs - 1 + rbStart), lcrbs, rbStart⟩) ::
      rowStores nRb rbStart (mark alloc (lcrbs - 1 + rbStart)) (lcrbs + 1) left

def Shape.stores (shape : Shape) : List (Nat × Entry) :=
  (List.range shape.nRb).flatMap fun rbStart =>
    rowStores shape.nRb rbStart (List.replicate shape.words 0) 1 (shape.nRb - rbStart)

/-- A block of `generate_RIV_tables`: zeroed tables, filled; no value if a store leaves them. -/
def Shape.generate (shape : Shape) : Option (List Entry) :=
  Table.storeAll (List.replicate shape.size ⟨List.replicate shape.words 0, 0, 0⟩) shape.stores

def Entry.holds (entry : Entry) (rb : Nat) : Bool :=
  (entry.localAlloc.getD (rb / 32) 0).getLsbD (rb % 32)

section
variable {alloc : List (BitVec 32)} {shape : Shape} {rbStart lcrbs : Nat}

theorem length_mark (nVrb : Nat) : (mark alloc nVrb).length = alloc.length := List.length_modify ..

theorem mark_holds {nVrb : Nat} (inside : nVrb < 32 * alloc.length) (rb : Nat) :
    ((mark alloc nVrb).getD (rb / 32) 0).getLsbD (rb % 32) =
      ((alloc.getD (rb / 32) 0).getLsbD (rb % 32) || decide (rb = nVrb)) := by
  have word : min (nVrb / 32) (alloc.length - 1) = nVrb / 32 := by omega
  have bit : nVrb - 32 * (nVrb / 32) = nVrb % 32 := by omega
  have here : nVrb / 32 < alloc.length := by omega
  rw [mark, word, bit, List.getD_eq_getElem?_getD, List.getD_eq_getElem?_getD, List.getElem?_modify]
  by_cases same : nVrb / 32 = rb / 32
  · rw [← same, List.getElem?_eq_getElem here]
    simp only [if_true, Option.map_eq_map, Option.map_some, Option.getD_some, BitVec.getLsbD_or,
      BitVec.getLsbD_shiftLeft]
    congr 1
    by_cases equal : rb = nVrb
    · subst equal
      simp [Nat.mod_lt]
    · have apart : rb % 32 ≠ nVrb % 32 := by omega
      have low : rb % 32 < 32 := Nat.mod_lt _ (by decide)
      by_cases before : rb % 32 < nVrb % 32
      · simp [before, equal]
      · have shifted : rb % 32 - nVrb % 32 ≠ 0 := by omega
        simp [low, before, equal, BitVec.getLsbD_one, shifted]
  · have differ : rb ≠ nVrb := fun equal => same (by rw [equal])
    simp only [same, if_false, Option.map_eq_map, Option.map_id', differ,
      decide_false, Bool.or_false]

/-- The bitmap after the blocks `start .. start + count - 1`. -/
def bitmap (words start count : Nat) : List (BitVec 32) :=
  (List.range' start count).foldl mark (List.replicate words 0)

theorem bitmap_succ (words start count : Nat) :
    bitmap words start (count + 1) = mark (bitmap words start count) (start + count) := by
  rw [bitmap, List.range'_1_concat, List.foldl_append, List.foldl_cons, List.foldl_nil, bitmap]

theorem length_bitmap (words start count : Nat) : (bitmap words start count).length = words := by
  induction count with
  | zero => exact List.length_replicate
  | succ count ih => rw [bitmap_succ, length_mark, ih]

theorem bitmap_holds {words start count : Nat} (inside : start + count ≤ 32 * words) (rb : Nat) :
    ((bitmap words start count).getD (rb / 32) 0).getLsbD (rb % 32) =
    decide (start ≤ rb ∧ rb < start + count) := by
  induction count with
  | zero =>
    have none : ¬ (start ≤ rb ∧ rb < start + 0) := by omega
    rw [decide_eq_false none]
    show ((List.replicate words (0 : BitVec 32)).getD (rb / 32) 0).getLsbD (rb % 32) = false
    rw [List.getD_eq_getElem?_getD, List.getElem?_replicate]
    split
    · exact BitVec.getLsbD_zero
    · exact BitVec.getLsbD_zero
  | succ count ih =>
    rw [bitmap_succ, mark_holds (by rw [length_bitmap]; omega), ih (by omega), ← Bool.decide_or]
    exact decide_eq_decide.mpr (by omega)

theorem rowStores_eq (nRb rbStart words lcrbs left : Nat) :
    rowStores nRb rbStart (bitmap words rbStart lcrbs) (lcrbs + 1) left =
      (List.range' (lcrbs + 1) left).map
      fun l => (computeRiv nRb rbStart l, ⟨bitmap words rbStart l, l, rbStart⟩) := by
  induction left generalizing lcrbs with
  | zero => rfl
  | succ left ih =>
    rw [rowStores, Nat.add_sub_cancel, Nat.add_comm lcrbs rbStart, ← bitmap_succ, ih,
      List.range'_succ, List.map_cons]

/-- The pairs in the order of the loops. -/
def pairs (nRb : Nat) : List (Nat × Nat) :=
  (List.range nRb).flatMap fun rbStart => (List.range' 1 (nRb - rbStart)).map (Prod.mk rbStart)

theorem mem_pairs {nRb : Nat} (p : Nat × Nat) : p ∈ pairs nRb ↔ p ∈ allocations nRb := by
  obtain ⟨start, count⟩ := p
  show (start, count) ∈ pairs nRb ↔ 1 ≤ count ∧ start + count ≤ nRb
  simp only [pairs, List.mem_flatMap, List.mem_range, List.mem_map,
    List.mem_range'_1, Prod.mk.injEq]
  constructor
  · rintro ⟨_, below, _, bounds, rfl, rfl⟩
    omega
  · rintro ⟨some_, fits⟩
    exact ⟨start, by omega, count, by omega, rfl, rfl⟩

theorem nodup_pairs (nRb : Nat) : (pairs nRb).Nodup := by
  rw [pairs, List.nodup_flatMap]
  refine ⟨fun start _ => List.Nodup.map (fun _ _ same => (Prod.mk.inj same).2)
    (List.nodup_range' ..), ?_⟩
  refine List.nodup_range.pairwise_of_forall_ne fun first _ second _ differ => ?_
  intro p inFirst inSecond
  obtain ⟨_, -, rfl⟩ := List.mem_map.mp inFirst
  obtain ⟨_, -, same⟩ := List.mem_map.mp inSecond
  exact differ (Prod.mk.inj same).1.symm

theorem stores_eq (shape : Shape) : shape.stores = (pairs shape.nRb).map fun p =>
    (computeRiv shape.nRb p.1 p.2, ⟨bitmap shape.words p.1 p.2, p.2, p.1⟩) := by
  rw [Shape.stores, pairs, List.map_flatMap]
  refine List.flatMap_congr fun start _ => ?_
  rw [List.map_map]
  exact rowStores_eq shape.nRb start shape.words 0 (shape.nRb - start)

theorem places_eq (shape : Shape) :
    shape.stores.map Prod.fst = (pairs shape.nRb).map fun p => computeRiv shape.nRb p.1 p.2 := by
  rw [stores_eq, List.map_map]
  rfl

/-- A band whose triangle fits the tables and 16 bits gets each place stored once, inside. -/
theorem places_spec (fits : shape.nRb * (shape.nRb + 1) / 2 ≤ 65536) :
    (shape.stores.map Prod.fst).Nodup ∧
      ∀ i, i ∈ shape.stores.map Prod.fst ↔ i < shape.nRb * (shape.nRb + 1) / 2 := by
  obtain ⟨maps, injective, onto⟩ := computeRiv_bijOn fits
  rw [places_eq]
  constructor
  · refine (nodup_pairs _).map_on fun p inP q inQ same => ?_
    exact injective ((mem_pairs p).mp inP) ((mem_pairs q).mp inQ) same
  · intro i
    rw [List.mem_map]
    constructor
    · rintro ⟨p, member, rfl⟩
      exact maps ((mem_pairs p).mp member)
    · intro inside
      obtain ⟨p, valid, here⟩ := onto inside
      exact ⟨p, (mem_pairs p).mpr valid, here⟩

theorem generate_spec (fits : shape.nRb * (shape.nRb + 1) / 2 ≤ 65536)
    (long : shape.nRb * (shape.nRb + 1) / 2 ≤ shape.size) (wide : shape.nRb ≤ 32 * shape.words) :
    ∃ table, shape.generate = some table ∧ ∀ start count, (start, count) ∈ allocations shape.nRb →
      ∃ entry, table[computeRiv shape.nRb start count]? = some entry ∧ entry.firstRb = start ∧
        entry.nbRb = count ∧
        ∀ rb, entry.holds rb = true ↔ start ≤ rb ∧ rb < start + count := by
  obtain ⟨distinct, places⟩ := places_spec fits
  have inside : ∀ p ∈ shape.stores,
      p.1 < (List.replicate shape.size (⟨List.replicate shape.words 0, 0, 0⟩ : Entry)).length := by
    intro p member
    rw [List.length_replicate]
    exact ((places p.1).mp (List.mem_map_of_mem member)).trans_le long
  obtain ⟨table, done, -, kept, -⟩ := Table.storeAll_distinct inside distinct
  refine ⟨table, done, fun start count valid => ?_⟩
  have member : (computeRiv shape.nRb start count, ⟨bitmap shape.words start count, count, start⟩) ∈
      shape.stores := by
    rw [stores_eq]
    exact List.mem_map.mpr ⟨(start, count), (mem_pairs _).mpr valid, rfl⟩
  refine ⟨_, kept _ member, rfl, rfl, fun rb => ?_⟩
  have room : start + count ≤ 32 * shape.words := valid.2.trans wide
  rw [Entry.holds, bitmap_holds room, decide_eq_true_eq]

theorem shapes_fit (member : shape ∈ shapes) : shape.nRb * (shape.nRb + 1) / 2 ≤ shape.size ∧
    shape.nRb ≤ 32 * shape.words := by
  revert shape
  decide

end

/-- Resource indication is a numbering of the allocations of a band, and the tables of the bands
that have them invert it. -/
theorem riv_inverted (nRb : Nat) (fits : nRb * (nRb + 1) / 2 ≤ 65536) :
    (∀ compute ∈ [macComputeRiv, getRiv, computeRiv],
      (∀ start count, (start, count) ∈ allocations nRb →
          rivValue nRb start count = compute nRb start count) ∧
        Set.BijOn (fun p => compute nRb p.1 p.2) (allocations nRb)
          (Set.Iio (nRb * (nRb + 1) / 2))) ∧
      ∀ shape ∈ shapes, shape.nRb = nRb →
        (shape.stores.map Prod.fst).Nodup ∧
          (∀ i, i ∈ shape.stores.map Prod.fst ↔ i < nRb * (nRb + 1) / 2) ∧
            nRb * (nRb + 1) / 2 ≤ shape.size ∧
          ∃ table, shape.generate = some table ∧ ∀ start count, (start, count) ∈ allocations nRb →
            ∃ entry, table[macComputeRiv nRb start count]? = some entry ∧ entry.firstRb = start ∧
              entry.nbRb = count ∧ ∀ rb, entry.holds rb = true ↔
              start ≤ rb ∧ rb < start + count := by
  constructor
  · have numbering : (∀ start count, (start, count) ∈ allocations nRb →
        rivValue nRb start count = computeRiv nRb start count) ∧
        Set.BijOn (fun p => computeRiv nRb p.1 p.2) (allocations nRb)
            (Set.Iio (nRb * (nRb + 1) / 2)) := by
      refine ⟨fun start count valid => ?_, computeRiv_bijOn fits⟩
      rw [rivValue_eq valid, computeRiv_eq fits valid]
    intro compute member
    rcases List.mem_cons.mp member with rfl | member
    · exact numbering
    rcases List.mem_cons.mp member with rfl | member
    · exact numbering
    cases List.mem_singleton.mp member
    exact numbering
  · rintro shape member rfl
    obtain ⟨long, wide⟩ := shapes_fit member
    obtain ⟨distinct, places⟩ := places_spec fits
    exact ⟨distinct, places, long, generate_spec fits long wide⟩

theorem riv_inverted_twenty_five : ∃ table, Shape.generate ⟨25, 1, 512⟩ = some table ∧
    ∃ entry, table[macComputeRiv 25 10 3]? = some entry ∧ entry.firstRb = 10 ∧ entry.nbRb = 3 := by
  obtain ⟨-, -, -, table, done, looks⟩ :=
    (riv_inverted 25 (by decide)).2 ⟨25, 1, 512⟩ (by decide) rfl
  obtain ⟨entry, found, first, count, -⟩ := looks 10 3 ⟨by decide, by decide⟩
  exact ⟨table, done, entry, found, first, count⟩

end OpenAir.Phy.ResourceIndication
