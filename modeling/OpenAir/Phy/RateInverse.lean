import Mathlib.Algebra.BigOperators.Ring.Finset
import Mathlib.Algebra.Order.BigOperators.Group.Finset
import Mathlib.Algebra.Order.Group.Abs
import Mathlib.Algebra.Order.Group.Int
import OpenAir.Phy.SubBlock
import OpenAir.Phy.TurboTable

/-! Rate matching undone by the receiver. -/
namespace OpenAir.Phy

/-- The output of the turbo encoder for `k` bits of which the first `f` are filler. -/
structure Coded (k f : Nat) (d : Int → Nat) : Prop where
  before : ∀ j : Int, -96 ≤ j → j < 0 → d j = lteNull
  filler : ∀ i : Nat, i < f → d (3 * i) = lteNull ∧ d (3 * i + 1) = lteNull
  bits : ∀ i : Nat, f ≤ i → i < k + 4 → d (3 * i) < lteNull ∧ d (3 * i + 1) < lteNull
  parity : ∀ i : Nat, i < k + 4 → d (3 * i + 2) < lteNull

section Nulls

variable {k f : Nat} {d : Int → Nat}

theorem Coded.first_null (coded : Coded k f d) {index nd : Nat} (low : nd ≤ 32)
    (inside : index < nd + (k + 4)) :
    (d (3 * index - 3 * nd) = lteNull ↔ index < nd + f) ∧
    (d (3 * index - 3 * nd + 1) = lteNull ↔ index < nd + f) := by
  rcases Nat.lt_or_ge index nd with early | late
  · have null := coded.before (3 * index - 3 * nd) (by omega) (by omega)
    have next := coded.before (3 * index - 3 * nd + 1) (by omega) (by omega)
    exact ⟨⟨fun _ => by omega, fun _ => null⟩, ⟨fun _ => by omega, fun _ => next⟩⟩
  · have same : (3 * index - 3 * nd : Int) = 3 * (index - nd : Nat) := by omega
    rw [same]
    rcases Nat.lt_or_ge (index - nd) f with fill | bit
    · obtain ⟨null, next⟩ := coded.filler (index - nd) fill
      exact ⟨⟨fun _ => by omega, fun _ => null⟩, ⟨fun _ => by omega, fun _ => next⟩⟩
    · obtain ⟨value, next⟩ := coded.bits (index - nd) bit (by omega)
      exact ⟨⟨fun null => by omega, fun _ => by omega⟩, ⟨fun null => by omega, fun _ => by omega⟩⟩

theorem Coded.third_null (coded : Coded k f d) {index nd : Nat} (low : nd ≤ 32)
    (inside : index + 1 < nd + (k + 4)) :
    d (3 * index - 3 * nd + 5) = lteNull ↔ index + 1 < nd := by
  rcases Nat.lt_or_ge (index + 1) nd with early | late
  · exact ⟨fun _ => early, fun _ => coded.before _ (by omega) (by omega)⟩
  · have same : (3 * index - 3 * nd + 5 : Int) = 3 * (index + 1 - nd : Nat) + 2 := by omega
    have value := coded.parity (index + 1 - nd) (by omega)
    rw [same]
    exact ⟨fun null => by omega, fun _ => by omega⟩

/-- The receiver's pattern has its nulls where the sender's buffer has them. -/
theorem nulls_agree (coded : Coded k f d) (few : f < 64) (fits : f ≤ k + 4)
    (partial_ : k + 4 < 32 * rtcOf (k + 4))
    (w : Nat → Nat) {i : Nat} (inside : i < 3 * (32 * rtcOf (k + 4))) :
    (generateDummyW (k + 4) (fun _ => 0) f).1 i = lteNull ↔
    (subBlockInterleavingTurbo (k + 4) d w).2.1 i = lteNull := by
  have bounds := rtcOf_bounds (k + 4)
  rw [generateDummyW_null, marks_iff (by omega) (by omega) (by omega)]
  rcases Nat.lt_or_ge i (3 * (32 * rtcOf (k + 4)) - 1) with before | last
  · rw [interleaved_eq partial_ before]
    rcases stream_cases inside with first | ⟨j, low, rfl⟩ | ⟨j, low, rfl⟩
    · rw [sourceOf_first first,
        (coded.first_null (by omega) (by have := indexOf_lt first; omega)).1]
      constructor
      · rintro (⟨_, same⟩ | ⟨n, small, null, rfl | same⟩ | ⟨n, small, null, same⟩)
        · omega
        · exact null
        · omega
        · omega
      · exact fun null => .inr (.inl ⟨i, first, null, .inl rfl⟩)
    · rw [sourceOf_second, (coded.first_null (by omega) (by have := indexOf_lt low; omega)).2]
      constructor
      · rintro (⟨_, same⟩ | ⟨n, small, null, same | same⟩ | ⟨n, small, null, same⟩)
        · omega
        · omega
        · rwa [show j = n by omega]
        · omega
      · exact fun null => .inr (.inl ⟨j, low, null, .inr rfl⟩)
    · have next := indexOf_last low (by omega)
      rw [sourceOf_third, coded.third_null (by omega) (by omega)]
      constructor
      · rintro (⟨_, same⟩ | ⟨n, small, null, same | same⟩ | ⟨n, small, null, same⟩)
        · omega
        · omega
        · omega
        · rwa [show j = n by omega]
      · exact fun null => .inr (.inr ⟨j, low, null, rfl⟩)
  · have place : i = 3 * (32 * rtcOf (k + 4)) - 1 := by omega
    rw [place, interleaved_last partial_]
    exact ⟨fun _ => rfl, fun _ => .inl ⟨by omega, rfl⟩⟩

end Nulls

section Sizes

theorem sum_long (n m : Nat) (few : m ≤ n) : ∑ r ∈ Finset.range n,
    (if r < m then 0 else 1) = n - m := by
  induction n with
  | zero => rw [Finset.range_zero, Finset.sum_empty, Nat.zero_sub]
  | succ n ih =>
    rw [Finset.sum_range_succ]
    rcases Nat.eq_or_lt_of_le few with rfl | below
    · have none : ∑ r ∈ Finset.range n, (if r < n + 1 then 0 else 1) = 0 :=
        Finset.sum_eq_zero fun r inside => if_pos (Nat.lt_succ_of_lt (Finset.mem_range.mp inside))
      rw [none, if_pos (Nat.lt_succ_self n), Nat.sub_self]
    · rw [ih (Nat.le_of_lt_succ below), if_neg (Nat.not_lt.mpr (Nat.le_of_lt_succ below))]
      omega

theorem e_eq (p : RateParams) {r : Nat} (inside : r < p.c) :
    { p with r := r }.e =
    p.nl * p.qm *
      (p.g / p.nl / p.qm / p.c + if r < p.c - p.g / p.nl / p.qm % p.c then 0 else 1) := by
  rw [RateParams.e]
  simp only
  split
  · rfl
  · rename_i late
    rw [if_neg (by omega), Nat.add_comm 1]

theorem e_sum (p : RateParams) (some : 0 < p.c) :
    ∑ r ∈ Finset.range p.c, { p with r := r }.e = p.nl * p.qm * (p.g / p.nl / p.qm) := by
  have rest : p.g / p.nl / p.qm % p.c < p.c := Nat.mod_lt _ some
  rw [Finset.sum_congr rfl fun r inside => e_eq p (Finset.mem_range.mp inside), ← Finset.mul_sum,
    Finset.sum_add_distrib, Finset.sum_const, Finset.card_range, sum_long _ _ (Nat.sub_le _ _),
      Nat.nsmul_eq_mul, Nat.sub_sub_self (Nat.le_of_lt rest),
    Nat.div_add_mod]

end Sizes

section Inverse

variable (k f : Nat) (p : RateParams) (softInput : Nat → BitVec 16)

/-- The place of the buffer that the `n`-th bit is read from. -/
def readPlace : Nat → Nat := bitPlace (rtcOf (k + 4)) p (generateDummyW (k + 4) (fun _ => 0) f).1

/-- What the soft values of the bits read from place `i` add up to. -/
def placeSum (i : Nat) : Int := ∑ n ∈ Finset.range p.e, if readPlace k f p n = i then
    (softInput n).toInt else 0

/-- Sender and receiver agree, for every output of the encoder and whatever their buffers held
before. -/
structure Undone : Prop where
  nulls : ∀ d, Coded k f d → ∀ w, ∀ i < 3 * (32 * rtcOf (k + 4)),
    (generateDummyW (k + 4) (fun _ => 0) f).1 i = lteNull ↔
      (subBlockInterleavingTurbo (k + 4) d w).2.1 i = lteNull
  total : ∑ r ∈ Finset.range p.c, { p with r := r }.e = p.nl * p.qm * (p.g / p.nl / p.qm)
  read : ∀ n < p.e, readPlace k f p n < 3 * (32 * rtcOf (k + 4)) - 1
  sent : ∀ d, Coded k f d → ∀ w e, ∃ sent,
    lteRateMatchingTurbo (subBlockInterleavingTurbo (k + 4) d w).2.2 p
      (subBlockInterleavingTurbo (k + 4) d w).2.1 e = .ok (sent, p.e) ∧
    (∀ n < p.e, sent n = (subBlockInterleavingTurbo (k + 4) d w).2.1 (readPlace k f p n)) ∧
    ∀ i < 3 * (32 * rtcOf (k + 4)) - 1,
      (subBlockInterleavingTurbo (k + 4) d w).2.1 i = d (sourceOf (k + 4) i)
  received : ∀ stale, ∃ received,
    lteRateMatchingTurboRx (generateDummyW (k + 4) (fun _ => 0) f).2 p stale
      (generateDummyW (k + 4) (fun _ => 0) f).1 softInput true = .ok (received, p.e) ∧
    (∀ i < 3 * (32 * rtcOf (k + 4)), (received i).toInt = placeSum k f p softInput i) ∧
    ∀ d, ∀ i < 3 * (32 * rtcOf (k + 4)),
      subBlockDeinterleavingTurbo (k + 4) d received (sourceOf (k + 4) i) = received i

/-- The circular buffer is not cut to the receiver's share of soft bits. -/
def WholeBuffer : Prop :=
  p.mdlharq = 0 ∨ 3 * (32 * rtcOf (k + 4)) ≤ p.nsoft / p.kmimo / min 8 p.mdlharq / p.c

/-- The soft values of one place add up to 16 bits. -/
def SumsFit : Prop :=
  ∀ i < 3 * (32 * rtcOf (k + 4)), -2 ^ 15 ≤ placeSum k f p softInput i ∧
    placeSum k f p softInput i < 2 ^ 15

variable {k f p softInput}

theorem wholeBuffer_iff : WholeBuffer k p ↔ p.ncb (rtcOf (k + 4)) = 3 * (32 * rtcOf (k + 4)) := by
  rw [WholeBuffer, RateParams.ncb]
  by_cases uplink : p.mdlharq = 0
  · rw [if_neg (by omega)]
    exact ⟨fun _ => rfl, fun _ => .inl uplink⟩
  · rw [if_pos (Nat.pos_of_ne_zero uplink), min_eq_right_iff]
    exact ⟨fun either => either.resolve_left uplink, .inr⟩

/-- A code block of the table never fills the last row. -/
theorem table_partial (table : k ∈ blockSizes) : k + 4 < 32 * rtcOf (k + 4) := by
  have size := mem_blockSizes.mp table
  have bounds := rtcOf_bounds (k + 4)
  rw [IsBlockSize] at size
  omega

theorem received_eq (valid : p.Valid)
    (live : ∃ ind < p.ncb (rtcOf (k + 4)), (generateDummyW (k + 4) (fun _ => 0) f).1 ind ≠ lteNull)
    (stale : Nat → BitVec 16) :
    lteRateMatchingTurboRx (generateDummyW (k + 4) (fun _ => 0) f).2 p stale
        (generateDummyW (k + 4) (fun _ => 0) f).1 softInput true =
      .ok (fun i => (if i < p.ncb (rtcOf (k + 4)) then 0 else stale i) +
        BitVec.ofInt 16 (placeSum k f p softInput i), p.e) := by
  obtain ⟨ind, inside, alive⟩ := live
  refine (lteRateMatchingTurboRx_eq valid inside alive stale softInput true).trans ?_
  simp only [true_and]
  rfl

theorem received_of_undone (valid : p.Valid)
    (live : ∃ ind < p.ncb (rtcOf (k + 4)), (generateDummyW (k + 4) (fun _ => 0) f).1 ind ≠ lteNull)
    (undone : Undone k f p softInput) (stale : Nat → BitVec 16) {i : Nat}
    (inside : i < 3 * (32 * rtcOf (k + 4))) :
    ((if i < p.ncb (rtcOf (k + 4)) then 0 else stale i) + BitVec.ofInt 16
      (placeSum k f p softInput i)).toInt =
      placeSum k f p softInput i := by
  obtain ⟨w, matched, sums, _⟩ := undone.received stale
  have same :=
    congrArg (fun result => result.map Prod.fst) (matched.symm.trans (received_eq valid live stale))
  exact (congrArg BitVec.toInt (congrFun (Except.ok.inj same) i)).symm.trans (sums i inside)

theorem whole_of_undone (valid : p.Valid)
    (live : ∃ ind < p.ncb (rtcOf (k + 4)), (generateDummyW (k + 4) (fun _ => 0) f).1 ind ≠ lteNull)
    (undone : Undone k f p softInput) : WholeBuffer k p := by
  refine wholeBuffer_iff.mpr (Nat.le_antisymm (ncb_le p _) (Nat.le_of_not_lt fun cut => ?_))
  -- The first place behind the buffer keeps what it held: two contents give two results.
  have zero := received_of_undone valid live undone (fun _ => 0) cut
  have one := received_of_undone valid live undone (fun _ => 1) cut
  rw [if_neg (Nat.lt_irrefl _)] at zero one
  have same := BitVec.eq_of_toInt_eq (zero.trans one.symm)
  exact absurd (add_right_cancel same) (by decide)

theorem fit_of_undone (valid : p.Valid)
    (live : ∃ ind < p.ncb (rtcOf (k + 4)), (generateDummyW (k + 4) (fun _ => 0) f).1 ind ≠ lteNull)
    (undone : Undone k f p softInput) : SumsFit k f p softInput := by
  intro i inside
  have sum := received_of_undone valid live undone (fun _ => 0) inside
  rw [← sum]
  exact ⟨BitVec.le_toInt _, BitVec.toInt_lt⟩

theorem undone_of_whole (table : k ∈ blockSizes) (few : f < 64) (fits : f ≤ k + 4) (valid : p.Valid)
    (live : ∃ ind < p.ncb (rtcOf (k + 4)), (generateDummyW (k + 4) (fun _ => 0) f).1 ind ≠ lteNull)
    (whole : WholeBuffer k p) (sums : SumsFit k f p softInput) : Undone k f p softInput := by
  have partial_ := table_partial table
  have size := wholeBuffer_iff.mp whole
  have agree (d : Int → Nat) (coded : Coded k f d) (w : Nat → Nat) (i : Nat)
      (below : i < 3 * (32 * rtcOf (k + 4))) := nulls_agree coded few fits partial_ w below
  have buffer := @received_eq k f p softInput valid live
  obtain ⟨ind, inside, alive⟩ := live
  refine ⟨agree, e_sum p valid.2.1, fun n below => ?_, fun d coded w e => ?_, fun stale => ?_⟩
  · obtain ⟨bound, notNull⟩ := bitPlace_live inside alive below
    rw [size] at bound
    refine Nat.lt_of_le_of_ne (Nat.le_sub_one_of_lt bound) (fun last => notNull ?_)
    rw [readPlace] at last
    rw [last]
    exact generateDummyW_null _ |>.mpr (.inl ⟨by omega, rfl⟩)
  · have aliveToo : (subBlockInterleavingTurbo (k + 4) d w).2.1 ind ≠ lteNull :=
      fun null => alive ((agree d coded w ind (size ▸ inside)).mpr null)
    refine ⟨_, lteRateMatchingTurbo_eq valid inside aliveToo e,
      fun n below => ?_, fun i below => ?_⟩
    · rw [if_pos below, readPlace,
        bitPlace_congr fun ind inside => (agree d coded w ind (size ▸ inside)).symm]
    · exact interleaved_eq partial_ below
  · refine ⟨_, buffer stale, fun i below => ?_, fun d i below => ?_⟩
    · rw [if_pos (size ▸ below), zero_add]
      exact BitVec.toInt_ofInt_eq_self (by decide) (sums i below).1 (sums i below).2
    · exact deinterleaved_eq below

/-- De-rate-matching undoes rate matching exactly where the circular buffer is whole and no sum
leaves 16 bits. -/
theorem rateMatching_undone_iff (table : k ∈ blockSizes) (few : f < 64) (fits : f ≤ k + 4)
    (valid : p.Valid)
    (live : ∃ ind < p.ncb (rtcOf (k + 4)),
      (generateDummyW (k + 4) (fun _ => 0) f).1 ind ≠ lteNull) :
    Undone k f p softInput ↔ WholeBuffer k p ∧ SumsFit k f p softInput :=
  ⟨fun undone => ⟨whole_of_undone valid live undone, fit_of_undone valid live undone⟩,
    fun both => undone_of_whole table few fits valid live both.1 both.2⟩

/-- Few small soft values do not leave 16 bits, however they fall together. -/
theorem sumsFit_of_small {bound : Int} (small : ∀ n < p.e, |(softInput n).toInt| ≤ bound)
    (few : p.e * bound < 2 ^ 15) : SumsFit k f p softInput := by
  intro i _
  have size : |placeSum k f p softInput i| ≤ p.e * bound := by
    refine (Finset.abs_sum_le_sum_abs _ _).trans
      ((Finset.sum_le_card_nsmul _ _ bound fun n inside => ?_).trans (Eq.le ?_))
    · have value := small n (Finset.mem_range.mp inside)
      split_ifs
      · exact value
      · rw [abs_zero]
        exact (abs_nonneg _).trans value
    · rw [Finset.card_range, nsmul_eq_mul]
  obtain ⟨low, high⟩ := abs_le.mp size
  constructor
  · omega
  · omega

/-- An uplink code block of 40 bits without filler, whose 132 bits are sent almost twice. -/
theorem rateMatching_undone_uplink : Undone 40 0 ⟨240, 1, 1827072, 0, 1, 2, 4, 1, 0⟩ fun _ => 100 :=
  (rateMatching_undone_iff (by decide) (by decide) (by decide) (by decide)
    ⟨_, by decide, generateDummyW_live (by decide)⟩).mpr
    ⟨.inl rfl, sumsFit_of_small
      (fun _ _ => (by decide : |((100 : BitVec 16)).toInt| ≤ 100)) (by decide)⟩

/-- Thirteen code blocks of 6144 bits share 8 HARQ processes' worth of soft bits. -/
theorem rateMatching_cut :
    ¬ ∀ (k f : Nat) (p : RateParams) (softInput : Nat → BitVec 16), k ∈ blockSizes → f < 64 →
    f ≤ k + 4 → p.Valid →
      p.rvidx ≤ 3 → p.r < p.c →
      (∃ ind < p.ncb (rtcOf (k + 4)), (generateDummyW (k + 4) (fun _ => 0) f).1 ind ≠ lteNull) →
      Undone k f p softInput := by
  intro claim
  let p : RateParams := ⟨86400, 13, 1827072, 8, 1, 0, 6, 1, 0⟩
  have live : ∃ ind < p.ncb (rtcOf (6144 + 4)),
      (generateDummyW (6144 + 4) (fun _ => 0) 0).1 ind ≠ lteNull :=
    ⟨5983, by decide, by decide +kernel⟩
  have undone := claim 6144 0 p (fun _ => 0) (by decide) (by decide) (by decide) (by decide)
    (by decide) (by decide) live
  rcases whole_of_undone (by decide) live undone with uplink | enough
  · cases uplink
  · exact absurd enough (by decide)

end Inverse

end OpenAir.Phy
