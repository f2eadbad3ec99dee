import OpenAir.Mac.FairRR
import Mathlib.Algebra.Order.Round
import Mathlib.Order.Bounds.Basic

/-! The share of one UE: the average, the MCS, and the resource blocks. -/
namespace OpenAir.Mac.FairRR

/-! ### The table -/

theorem rbOf_lt {i j : Nat} (less : i < j) (inside : j < 34) : rbOf i < rbOf j := by
  have all : ∀ i j : Fin 34, i < j → rbOf i < rbOf j := by decide
  exact all ⟨i, less.trans inside⟩ ⟨j, inside⟩ less

theorem rbOf_le {i j : Nat} (le : i ≤ j) (inside : j < 34) : rbOf i ≤ rbOf j := by
  rcases Nat.eq_or_lt_of_le le with rfl | less
  · exact Nat.le_refl _
  · exact (rbOf_lt less inside).le

theorem rbTable_get {i : Nat} (inside : i < 34) : rbTable[i]? = some (rbOf i) := by
  have within : i < rbTable.length := inside
  rw [rbOf, List.getD_eq_getElem?_getD, List.getElem?_eq_getElem within, Option.getD_some]

/-- The last number of the table that is not above a number. -/
theorem findRbTableIndex_spec {n : Nat} (atLeast : 3 ≤ n) (below : n < 100) :
    ∃ i, findRbTableIndex n = i ∧ 2 ≤ i ∧ i < 33 ∧
    rbOf i ≤ n ∧ n < rbOf (i + 1) := by
  cases found : rbTable.findIdx? (n < ·) with
  | none =>
    have last := List.findIdx?_eq_none_iff.mp found 100 (by decide)
    exact absurd below (of_decide_eq_false last)
  | some above =>
    obtain ⟨inside, greater, before⟩ := List.findIdx?_eq_some_iff_getElem.mp found
    have inside : above < 34 := inside
    have value : ∀ j (within : j < rbTable.length), rbTable[j] = rbOf j := fun j within =>
      Option.some.inj ((List.getElem?_eq_getElem within).symm.trans (rbTable_get within))
    have greater : n < rbOf above := value above inside ▸ of_decide_eq_true greater
    have third : 2 < above := by
      by_contra few
      have le := rbOf_le (Nat.not_lt.mp few) (by decide : 2 < 34)
      have three : rbOf 2 = 3 := rfl
      omega
    obtain ⟨i, rfl⟩ : ∃ i, above = i + 1 := Nat.exists_eq_succ_of_ne_zero (by omega)
    have least := before i (Nat.lt_succ_self i)
    rw [decide_eq_true_iff, Nat.not_lt, value i (by omega)] at least
    refine ⟨i, ?_, by omega, by omega, least, greater⟩
    rw [findRbTableIndex, found]
    have small : i < 256 := by omega
    show (i + 1 + 255) % 256 = i
    omega

theorem passSmaller_eq (totalRbs : Nat) (list : List Nat) (index : Nat) :
    passSmaller totalRbs list index = (list.findIdx? (totalRbs < ·)).map (· + index) := by
  induction list generalizing index with
  | nil => rfl
  | cons nbRb rest ih =>
    rw [passSmaller, List.findIdx?_cons]
    by_cases le : nbRb ≤ totalRbs
    · rw [if_pos le, if_neg (by simpa using le), ih, Option.map_map]
      congr 1
      funext i
      exact (Nat.add_assoc i 1 index).trans (congrArg (i + ·) (Nat.add_comm 1 index)) |>.symm
    · rw [if_neg le, if_pos (by simpa using le)]
      simp

theorem retransmittedRbs_spec (nbRb : Nat) {totalRbs averageRbs : Nat}
    (average : averageRbs ≤ totalRbs) (atLeast : 3 ≤ totalRbs)
    (below : totalRbs < 100) : ∃ n, retransmittedRbs totalRbs averageRbs nbRb = some n ∧
    n ≤ totalRbs := by
  by_cases small : nbRb ≤ averageRbs
  · exact ⟨nbRb, by rw [retransmittedRbs, if_pos small], small.trans average⟩
  by_cases fits : nbRb ≤ totalRbs
  · exact ⟨nbRb, by rw [retransmittedRbs, if_neg small, if_pos fits], fits⟩
  cases found : (rbTable.drop 2).findIdx? (totalRbs < ·) with
  | none =>
    have last := List.findIdx?_eq_none_iff.mp found 100 (by decide)
    exact absurd below (of_decide_eq_false last)
  | some above =>
    obtain ⟨inside, greater, before⟩ := List.findIdx?_eq_some_iff_getElem.mp found
    have inside : above < 32 := inside
    have value : ∀ j (within : j < (rbTable.drop 2).length), (rbTable.drop 2)[j] = rbOf (2 + j) :=
        fun j within => by
      have place : 2 + j < 34 := Nat.add_lt_add_left (show j < 32 from within) 2
      rw [List.getElem_drop]
      exact Option.some.inj ((List.getElem?_eq_getElem _).symm.trans (rbTable_get place))
    have positive : above ≠ 0 := by
      rintro rfl
      rw [value 0 (by decide), decide_eq_true_iff] at greater
      exact absurd greater (Nat.not_lt.mpr atLeast)
    obtain ⟨i, rfl⟩ := Nat.exists_eq_succ_of_ne_zero positive
    have least := before i (Nat.lt_succ_self i)
    rw [decide_eq_true_iff, Nat.not_lt, value i (by omega)] at least
    refine ⟨rbOf (2 + i), ?_, least⟩
    have place : i + 1 + 2 - 1 = 2 + i := by omega
    rw [retransmittedRbs, if_neg small, if_neg fits, passSmaller_eq, found]
    exact (congrArg (rbTable[·]?) place).trans (rbTable_get (by omega))

/-! ### The average -/

theorem roundedQuotient_eq (total : Nat) {count : Nat} (positive : 0 < count) :
    roundedQuotient total count = some (round ((total : ℚ) / count)).toNat := by
  have nonzero : (count : ℚ) ≠ 0 := Nat.cast_ne_zero.mpr positive.ne'
  have same : (total : ℚ) / count + 1 / 2 =
      ((2 * total + count : Nat) : ℚ) / ((2 * count : Nat) : ℚ) := by
    push_cast
    field_simp
  rw [roundedQuotient, if_neg positive.ne', round_eq, same, Rat.floor_natCast_div_natCast]
  rfl

theorem roundedQuotient_le {total count r : Nat} (found : roundedQuotient total count = some r) :
    r ≤ total := by
  rw [roundedQuotient] at found
  split at found
  · exact nomatch found
  · cases found
    have positive : 0 < count := Nat.pos_of_ne_zero ‹_›
    have le : total ≤ count * total := Nat.le_mul_of_pos_left total positive
    refine Nat.le_of_lt_succ (Nat.div_lt_of_lt_mul ?_)
    rw [Nat.mul_assoc, Nat.mul_succ]
    omega

/-! ### The MCS and the resource blocks -/

/-- A block with an MCS in three resource blocks is within the power, and is filled. -/
def Carrier.FitsThree (c : Carrier) (ue : UlschUeInfo) (mcs : Nat) : Prop :=
  0 ≤ c.headroom ue mcs 3 ∧ getTbsUl c.table mcs 3 ≤ ue.bytesToSchedule

/-- The largest MCS that fits, if it is above 3. -/
def Carrier.Chosen (c : Carrier) (ue : UlschUeInfo) (mcs : Nat) : Prop :=
  IsGreatest {k | k ≤ ue.firstMcs ∧ (k ≤ 3 ∨ c.FitsThree ue k)} mcs

theorem lowerMcs_greatest (c : Carrier) (ue : UlschUeInfo) (first : Nat) :
    IsGreatest {k | k ≤ first ∧ (k ≤ 3 ∨ c.FitsThree ue k)} (c.lowerMcs ue first) := by
  induction first with
  | zero => exact ⟨⟨Nat.le_refl 0, Or.inl (Nat.zero_le 3)⟩, fun k member => member.1⟩
  | succ mcs ih =>
    rw [Carrier.lowerMcs]
    by_cases lower :
      (c.headroom ue (mcs + 1) (rbOf 2) < 0 ∨ ue.bytesToSchedule <
      getTbsUl c.table (mcs + 1) (rbOf 2)) ∧ 3 < mcs + 1
    · rw [if_pos lower]
      refine ⟨⟨ih.1.1.trans (Nat.le_succ mcs), ih.1.2⟩, fun k member => ih.2 ⟨?_, member.2⟩⟩
      refine Nat.le_of_lt_succ (Nat.lt_of_le_of_ne member.1 ?_)
      rintro rfl
      rcases member.2 with low | fits
      · exact absurd lower.2 (Nat.not_lt.mpr low)
      · rcases lower.1 with power | size
        · exact absurd fits.1 (not_le.mpr power)
        · exact absurd fits.2 (Nat.not_le.mpr size)
    · rw [if_neg lower]
      refine ⟨⟨Nat.le_refl _, ?_⟩, fun k member => member.1⟩
      by_cases low : mcs + 1 ≤ 3
      · exact Or.inl low
      · have stays := fun some => lower ⟨some, Nat.not_le.mp low⟩
        exact Or.inr
          ⟨not_lt.mp fun power => stays (Or.inl power), Nat.not_lt.mp
          fun size => stays (Or.inr size)⟩

/-- What the loop compares with the bytes: the bytes of three resource blocks, and the bits of
more. -/
def Carrier.measure (c : Carrier) (mcs index : Nat) : Nat :=
  if index = 2 then getTbsUl c.table mcs 3 else getTbsUl c.table mcs (rbOf index) * 8

/-- The loop goes on from an entry of the table. -/
def Carrier.Onwards (c : Carrier) (ue : UlschUeInfo) (mcs remaining index : Nat) : Prop :=
  c.measure mcs index < ue.bytesToSchedule ∧ rbOf index < remaining ∧
    0 < c.headroom ue mcs (rbOf index)

theorem widen_spec (c : Carrier) (ue : UlschUeInfo) (mcs remaining : Nat) {fuel index : Nat}
    (place : fuel + index = 33) (atLeast : 2 ≤ index)
    (positive : 0 < fuel) :
    ∃ m, c.widen ue mcs remaining fuel index (c.measure mcs index)
        (c.estimateUeTxPower (getTbsUl c.table mcs (rbOf index) * 8) (rbOf index)) = some m ∧
        index ≤ m ∧ m ≤ 32 ∧
      (∀ j, index ≤ j → j < m → c.Onwards ue mcs remaining j) ∧
        (c.Onwards ue mcs remaining m → m = 32) := by
  induction fuel generalizing index with
  | zero => exact absurd positive (Nat.lt_irrefl 0)
  | succ fuel ih =>
    have inside : index < 34 := by omega
    rw [Carrier.widen, rbTable_get inside, Option.bind_eq_bind, Option.bind_some]
    by_cases onwards : c.Onwards ue mcs remaining index ∧ index < 32
    · obtain ⟨small, left, power⟩ := onwards.1
      rw [if_pos ⟨small, left, power, onwards.2⟩, rbTable_get (by omega), Option.bind_some]
      obtain ⟨m, widened, le, last, between, stop⟩ :=
        (@ih (index + 1)) (by omega) (by omega) (by omega)
      have measure : c.measure mcs (index + 1) = getTbsUl c.table mcs (rbOf (index + 1)) <<< 3 := by
        rw [Carrier.measure, if_neg (by omega), Nat.shiftLeft_eq]
      rw [← measure]
      rw [Nat.shiftLeft_eq] at measure
      rw [← measure] at widened
      refine ⟨m, widened, by omega, last, fun j low high => ?_, stop⟩
      rcases Nat.eq_or_lt_of_le low with rfl | low
      · exact onwards.1
      · exact between j low high
    · have stays : ¬ (c.measure mcs index < ue.bytesToSchedule ∧ rbOf index < remaining ∧
          0 < ue.phrInfo - c.estimateUeTxPower (getTbsUl c.table mcs (rbOf index) * 8)
              (rbOf index) ∧ index < 32) :=
        fun ⟨small, left, power, below⟩ => onwards ⟨⟨small, left, power⟩, below⟩
      rw [if_neg stays]
      refine ⟨index, rfl, Nat.le_refl _, by
        omega, fun j low high => absurd high (Nat.not_lt.mpr low), fun goes => ?_⟩
      exact le_antisymm (by omega) (Nat.not_lt.mp fun below => onwards ⟨goes, below⟩)

/-! ### The share -/

/-- The least number of resource blocks of the table, from 3 on, whose block with the MCS holds the
bytes; or the last one that the average, the resource blocks left and the power allow. -/
structure Carrier.Least (c : Carrier) (ue : UlschUeInfo) (averageRbs remaining count : Nat)
    (p : PreAllocated) : Prop where
  entry : 2 ≤ p.rbTableIndex ∧ p.rbTableIndex < 34 ∧ count = rbOf p.rbTableIndex
  minimal : ∀ j, 2 ≤ j → j < p.rbTableIndex → getTbsUl c.table p.mcs (rbOf j) < ue.bytesToSchedule
  enough : ue.bytesToSchedule ≤ getTbsUl c.table p.mcs count ∨
    averageRbs < rbOf (p.rbTableIndex + 1) ∨ remaining ≤ count ∨
    c.headroom ue p.mcs count ≤ 0

/-- No number of resource blocks that holds too few bytes holds as many bits, where the next number
is in reach. -/
def Carrier.FillsBuffered (c : Carrier) (ue : UlschUeInfo) (averageRbs : Nat) : Prop :=
  ∀ mcs index, c.Chosen ue mcs → 3 ≤ index → index ≤ 32 → rbOf (index + 1) ≤ averageRbs →
    0 < c.headroom ue mcs (rbOf index) →
    getTbsUl c.table mcs (rbOf index) < ue.bytesToSchedule → getTbsUl c.table mcs (rbOf index) * 8 <
      ue.bytesToSchedule

/-- Three resource blocks are enough. -/
def Carrier.FillsThree (c : Carrier) (ue : UlschUeInfo) (averageRbs remaining : Nat) : Prop :=
  ue.bytesToSchedule ≤ getTbsUl c.table 10 3 ∨ averageRbs < 4 ∨ remaining ≤ 3 ∨
    c.headroom ue 10 3 ≤ 0

/-- The bits of the table and the power of a block grow with its resource blocks. -/
structure Carrier.Monotone (c : Carrier) : Prop where
  tbs : ∀ mcs n k, n ≤ k → getTbsUl c.table mcs n ≤ getTbsUl c.table mcs k
  power : ∀ mcs n k, n ≤ k →
    c.estimateUeTxPower (getTbsUl c.table mcs n * 8) n ≤
      c.estimateUeTxPower (getTbsUl c.table mcs k * 8) k

variable {c : Carrier} {ue : UlschUeInfo} {firstRb averageRbs : Nat}

theorem measure_ge (mcs index : Nat) : getTbsUl c.table mcs (rbOf index) ≤ c.measure mcs index := by
  rw [Carrier.measure]
  split
  next same =>
    subst same
    exact Nat.le_refl _
  next => exact Nat.le_mul_of_pos_right _ (by decide)

/-- A number above the average is cut to the table's last one below it. -/
theorem Least.cut {mcs m i remaining : Nat}
    (between : ∀ j, 2 ≤ j → j < m → c.Onwards ue mcs remaining j) (above : averageRbs < rbOf m)
    (atLeast : 2 ≤ i) (inside : i < 33) (below : rbOf i ≤ averageRbs)
    (next : averageRbs < rbOf (i + 1)) :
    c.Least ue averageRbs remaining (rbOf i) ⟨i, mcs⟩ := by
  have less : i < m := by
    by_contra some
    have le := rbOf_le (Nat.not_lt.mp some) (by omega : i < 34)
    exact absurd (le.trans below) (Nat.not_le.mpr above)
  refine ⟨⟨atLeast, by dsimp only; omega, rfl⟩, fun j low high => ?_, Or.inr (Or.inl next)⟩
  exact (measure_ge mcs j).trans_lt (between j low (Nat.lt_trans high less)).1

/-- A number within the average holds the bytes or is the last, unless the loop took its bits for
bytes. -/
theorem least_iff_fills {mcs m remaining : Nat} (mono : c.Monotone) (chosen : c.Chosen ue mcs)
    (atLeast : 2 ≤ m) (stop : m ≤ 32)
    (between : ∀ j, 2 ≤ j → j < m → c.Onwards ue mcs remaining j)
    (ends : c.Onwards ue mcs remaining m → m = 32)
    (within : rbOf m ≤ averageRbs) (average : averageRbs ≤ remaining) (below : averageRbs < 100) :
    c.Least ue averageRbs remaining (rbOf m) ⟨m, mcs⟩ ↔ c.FillsBuffered ue averageRbs := by
  have only : ∀ other, c.Chosen ue other → other = mcs :=
    fun other greatest => greatest.unique chosen
  constructor
  · rintro ⟨_, _, enough⟩ other index greatest three last reach power few
    obtain rfl := only other greatest
    by_contra many
    have measure : c.measure other index = getTbsUl c.table other (rbOf index) * 8 := by
      rw [Carrier.measure, if_neg (by omega)]
    have notBefore : ¬ index < m :=
      fun before => many (measure ▸ (between index (by omega) before).1)
    have le : m ≤ index := Nat.not_lt.mp notBefore
    have rbLe : rbOf m ≤ rbOf index := rbOf_le le (by omega)
    have next : rbOf (m + 1) ≤ averageRbs := (rbOf_le (by omega) (by omega)).trans reach
    rcases enough with enough | cut | left | weak
    · exact absurd (enough.trans (mono.tbs other _ _ rbLe)) (Nat.not_le.mpr few)
    · exact absurd next (Nat.not_le.mpr cut)
    · have grows : rbOf m < rbOf (m + 1) := rbOf_lt (Nat.lt_succ_self m) (by omega)
      exact absurd (left.trans_lt grows) (Nat.not_lt.mpr (next.trans average))
    · have grows := mono.power other _ _ rbLe
      unfold Carrier.headroom at power weak
      dsimp only at weak
      omega
  · intro fills
    refine ⟨⟨atLeast, by dsimp only; omega, rfl⟩,
      fun j low high => (measure_ge mcs j).trans_lt (between j low high).1, ?_⟩
    by_contra stuck
    simp only [not_or, not_le, not_lt] at stuck
    obtain ⟨few, next, left, power⟩ := stuck
    have three : m ≠ 2 := by
      rintro rfl
      have goes : c.Onwards ue mcs remaining 2 := ⟨few, left, power⟩
      exact absurd (ends goes) (by decide)
    have bits : getTbsUl c.table mcs (rbOf m) * 8 < ue.bytesToSchedule :=
      fills mcs m chosen (by omega) stop next power few
    have measure : c.measure mcs m = getTbsUl c.table mcs (rbOf m) * 8 := by
      rw [Carrier.measure, if_neg three]
    obtain rfl := ends ⟨measure ▸ bits, left, power⟩
    exact absurd (next.trans_lt below) (Nat.lt_irrefl 100)

theorem bufferedRbs_spec (ue : UlschUeInfo) (mono : c.Monotone) (three : 3 ≤ averageRbs)
    (average : averageRbs ≤ c.lastRb - firstRb)
    (below : averageRbs < 100) : ∃ p, c.bufferedRbs ue firstRb averageRbs =
    some (some ⟨⟨firstRb, rbOf p.rbTableIndex⟩, some p⟩) ∧
      rbOf p.rbTableIndex ≤ averageRbs ∧
      (c.Least ue averageRbs (c.lastRb - firstRb) (rbOf p.rbTableIndex) p ↔
        c.FillsBuffered ue averageRbs) := by
  have chosen : c.Chosen ue (c.lowerMcs ue ue.firstMcs) := lowerMcs_greatest c ue ue.firstMcs
  obtain ⟨m, widened, atLeast, stop, between, ends⟩ :=
    widen_spec c ue (c.lowerMcs ue ue.firstMcs) (c.lastRb - firstRb) (show 31 + 2 = 33 from rfl)
      (Nat.le_refl 2) (by decide)
  have start : c.measure (c.lowerMcs ue ue.firstMcs) 2 =
    getTbsUl c.table (c.lowerMcs ue ue.firstMcs) (rbOf 2) := rfl
  rw [start] at widened
  have large : ¬ rbOf m < 3 := Nat.not_lt.mpr (rbOf_le atLeast (by omega))
  have value : rbTable[m]? = some (rbOf m) := rbTable_get (by omega)
  by_cases within : rbOf m ≤ averageRbs
  · refine ⟨⟨m, c.lowerMcs ue ue.firstMcs⟩, ?_, within,
      least_iff_fills mono chosen atLeast stop between ends within average below⟩
    simp [Carrier.bufferedRbs, widened, value, large, within]
  · have above := Nat.not_le.mp within
    obtain ⟨i, found, least, inside, le, next⟩ := findRbTableIndex_spec three below
    have cut : c.Least ue averageRbs (c.lastRb - firstRb) (rbOf i) ⟨i, c.lowerMcs ue ue.firstMcs⟩ :=
      Least.cut between above least inside le next
    have last : ¬ 34 ≤ i := by omega
    refine ⟨⟨i, c.lowerMcs ue ue.firstMcs⟩, ?_, le, iff_of_true cut ?_⟩
    · simp [Carrier.bufferedRbs, widened, value, large, within, found, last,
        rbTable_get (show i < 34 by omega)]
    · -- the loop went over every number within the average
      intro other index greatest threeLe _ reach _ _
      obtain rfl := greatest.unique chosen
      have grows : rbOf index < rbOf (index + 1) := rbOf_lt (Nat.lt_succ_self index) (by omega)
      have before : index < m := by
        by_contra some
        have rbLe := rbOf_le (Nat.not_lt.mp some) (by omega : index < 34)
        omega
      have measure := (between index (by omega) before).1
      rwa [Carrier.measure, if_neg (by omega)] at measure

theorem threeRbs_least_iff {remaining : Nat} :
    c.Least ue averageRbs remaining 3 ⟨2, 10⟩ ↔ c.FillsThree ue averageRbs remaining := by
  refine ⟨fun least => least.enough,
    fun fills => ⟨⟨Nat.le_refl 2, by decide, rfl⟩, fun j low high => ?_, fills⟩⟩
  exact absurd high (Nat.not_lt.mpr low)

end OpenAir.Mac.FairRR
