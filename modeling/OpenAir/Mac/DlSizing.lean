import Mathlib.Algebra.BigOperators.Ring.Finset
import OpenAir.Mac.PreProcessor.RbDemand
import OpenAir.Mac.PreProcessor.RbgCount

/-! A new transmission in `schedule_ue_spec`: the SDUs that RLC has for the largest block the UE can
get, and the resource blocks and the MCS that are to carry them. -/
namespace OpenAir.Mac.DlSizing
open Finset (range)
open Cce (Bandwidth)
open PreProcessor
  (toRbg rbSize allocatedSize getMinRbUnit getTbsDl getITbs demandLoop demandLoop_spec IsDemand
  allocatedSize_eq sum_rbSize
  getMinRbUnit_bounds)

/-- What RLC says for a channel that is asked for `requested` bytes: what it has, and what it
gives. -/
structure Answer (requested : Nat) where
  bytesInBuffer : Int
  length : Nat
  le : length ≤ requested

/-- The answers of a subframe, by channel and bytes requested. -/
abbrev Rlc := (lcid requested : Nat) → Answer requested

/-- A UE without a retransmission, as the pre-processor leaves it: the groups it has been given hold
the blocks it is counted for, and its power offset has been set. -/
structure Turn where
  dlBandwidth : Bandwidth
  supported : dlBandwidth ≠ .n15 ∧ dlBandwidth ≠ .n75
  dlschMcs1 : Nat
  mcs_lt : dlschMcs1 < 29
  rballocSubUe : Nat → Bool
  preNbAvailableRbs : Nat
  available : 0 < preNbAvailableRbs
  counted : ∑ j ∈ range (toRbg dlBandwidth) with rballocSubUe j = true, rbSize dlBandwidth j =
    preNbAvailableRbs
  dlPowOff : Nat
  power : 0 < dlPowOff
  taTimer : Nat
  taUpdate : Nat

def Turn.taLen (turn : Turn) : Nat :=
  let taUpdate := if turn.taTimer = 0 then turn.taUpdate else 31
  if taUpdate ≠ 31 then 2 else 0

/-! ### The SDUs -/

def dcch : Nat := 1
def dcch1 : Nat := 2
def dtch : Nat := 3
def nbRbMax : Nat := 14

structure Multiplex where
  sduLengths : List Nat := []
  sduLcids : List Nat := []
  sduLengthTotal : Nat := 0
  headerLengthTotal : Nat := 0
  headerLengthLast : Nat := 0

/-- One more SDU, with its length field in the header. -/
def Multiplex.append (m : Multiplex) (lcid length : Nat) : Multiplex :=
  let last := 1 + 1 + if 128 ≤ length then 1 else 0
  { sduLengths := m.sduLengths ++ [length]
    sduLcids := m.sduLcids ++ [lcid]
    sduLengthTotal := m.sduLengthTotal + length
    headerLengthTotal := m.headerLengthTotal + last
    headerLengthLast := last }

section
variable (rlc : Rlc) (tbs taLen : Nat)

/-- The bytes that RLC can be asked for. -/
def Multiplex.left (m : Multiplex) : Int := tbs - taLen - m.headerLengthTotal - m.sduLengthTotal - 3

def ask (m : Multiplex) (lcid : Nat) : Multiplex :=
  let answer := rlc lcid (m.left tbs taLen).toNat
  if answer.bytesInBuffer > 0 then m.append lcid answer.length else m

/-- `RLC data on DCCH` and on `DCCH1`. -/
def askSrb (m : Multiplex) (lcid : Nat) : Multiplex := if m.left tbs taLen > 0 then
    ask rlc tbs taLen m lcid else m

/-- The loop over the traffic channels, which ends when no room is left. -/
def askDtch : List Nat → Multiplex → Multiplex
  | [], m => m
  | lcid :: rest, m => if m.left tbs taLen > 0 then askDtch rest (ask rlc tbs taLen m lcid) else m

def multiplex : Multiplex :=
  askDtch rlc tbs taLen (List.range' dtch (nbRbMax - dtch)).reverse
    (askSrb rlc tbs taLen (askSrb rlc tbs taLen {} dcch) dcch1)

end

/-- `last header does not have length field` -/
def Multiplex.headerLength (m : Multiplex) : Nat :=
  if m.headerLengthTotal ≠ 0 then m.headerLengthTotal - m.headerLengthLast + 1 else 0

/-! ### The blocks and the MCS -/

/-- The loop over the number of blocks, which gets no value if it takes more turns than `fuel`. -/
def searchRb (tbs : Nat → Nat) (needed minRbUnit nbAvailableRb : Nat) :
    (fuel nbRb : Nat) → Option Nat
  | 0, _ => none
  | fuel + 1, nbRb =>
    if tbs nbRb < needed then
      if nbRb + minRbUnit > nbAvailableRb then some nbAvailableRb
      else searchRb tbs needed minRbUnit nbAvailableRb fuel (nbRb + minRbUnit)
    else some nbRb

/-- The loop that puts groups into the bitmap until the blocks are there. -/
def fillBitmap (turn : Turn) : (nbRbTemp : Int) → List Nat → (Nat → Bool) → Nat → Bool
  | _, [], bitmap => bitmap
  | nbRbTemp, j :: rest, bitmap =>
    if nbRbTemp > 0 then
      if turn.rballocSubUe j = true then
        fillBitmap turn (nbRbTemp - allocatedSize turn.dlBandwidth j) rest
          (Function.update bitmap j true)
      else fillBitmap turn nbRbTemp rest bitmap
    else bitmap

/-- `rballoc_subband`, which has been cleared. -/
def bitmap (turn : Turn) (nbRb : Nat) : Nat → Bool :=
  let groups := List.range (toRbg turn.dlBandwidth)
  if nbRb = turn.preNbAvailableRbs then fun j => decide (j ∈ groups) && turn.rballocSubUe j
  else fillBitmap turn nbRb groups fun _ => false

/-- `decrease mcs until TBS falls below required length` -/
def lowerMcs (tbs : Nat → Nat) (needed : Nat) : Nat → Nat
  | 0 => 0
  | mcs + 1 => if tbs (mcs + 1) > needed then lowerMcs tbs needed mcs else mcs + 1

/-- The loop for `if we have decreased too much or we don't have enough RBs`. -/
def raiseMcs (tbs : Nat → Nat) (needed dlPowOff : Nat) : (fuel mcs : Nat) → Option Nat
  | 0, _ => none
  | fuel + 1, mcs =>
    if tbs mcs < needed ∧ (dlPowOff > 0 ∧ mcs < 28 ∨ dlPowOff = 0 ∧ mcs ≤ 15) then
      raiseMcs tbs needed dlPowOff fuel (mcs + 1)
    else some mcs

/-- What is scheduled. -/
structure Allocation where
  nbRb : Nat
  mcs : Nat
  tbs : Nat
  rballocSubband : Nat → Bool
  sdus : Multiplex
  taLen : Nat
  padding : Int
  postPadding : Nat

/-- The blocks that are tried first. -/
def Turn.firstRb (turn : Turn) : Nat :=
  if turn.dlschMcs1 = 0 then 4 else getMinRbUnit turn.dlBandwidth

/-- The SDUs that are asked for with the largest block in view. -/
def Turn.sdus (turn : Turn) (table : TbsTable) (rlc : Rlc) : Multiplex :=
  multiplex rlc (getTbsDl table turn.dlschMcs1 turn.preNbAvailableRbs) turn.taLen

/-- The SDUs with their headers, and the timing advance command. -/
def Turn.needed (turn : Turn) (table : TbsTable) (rlc : Rlc) : Nat :=
  (turn.sdus table rlc).sduLengthTotal + (turn.sdus table rlc).headerLength + turn.taLen

/-- The part of `schedule_ue_spec` for `a potentially new SDU opportunity`; no value if a loop takes
more turns than `fuel`. -/
def scheduleNew (turn : Turn) (table : TbsTable) (rlc : Rlc) (fuel : Nat) :
    Option (Option Allocation) :=
  let sdus := turn.sdus table rlc
  let needed := turn.needed table rlc
  if needed > 0 then do
    let nbRb ← searchRb (getTbsDl table turn.dlschMcs1) needed (getMinRbUnit turn.dlBandwidth)
      turn.preNbAvailableRbs
      fuel turn.firstRb
    let tbs := fun mcs => getTbsDl table mcs nbRb
    let mcs ← raiseMcs tbs needed turn.dlPowOff fuel (lowerMcs tbs needed turn.dlschMcs1)
    let rest : Int := tbs mcs - sdus.headerLength - sdus.sduLengthTotal - turn.taLen
    some (some {
      nbRb, mcs, sdus
      tbs := tbs mcs
      rballocSubband := bitmap turn nbRb
      taLen := turn.taLen
      padding := if rest ≤ 2 then rest else 0
      postPadding := if rest ≤ 2 then 0 else 1 })
  else some none

/-! ### What fits -/

/-- `TBStable` grows with the number of blocks, and its least entry is two bytes. -/
structure Grows (table : TbsTable) : Prop where
  least : ∀ i n, 16 ≤ table.bits i n
  grows : ∀ i m n, m ≤ n → table.bits i m ≤ table.bits i n

theorem Grows.two_le {table : TbsTable} (grows : Grows table) {mcs nbRb : Nat} (valid : mcs < 29)
    (some : 0 < nbRb) :
    2 ≤ getTbsDl table mcs nbRb := by
  rw [getTbsDl, if_pos ⟨some, valid⟩, Nat.shiftRight_eq_div_pow]
  exact Nat.div_le_div_right (c := 8) (grows.least _ _)

theorem Grows.mono {table : TbsTable} (grows : Grows table) (mcs : Nat) {few many : Nat}
    (less : few ≤ many) :
    getTbsDl table mcs few ≤ getTbsDl table mcs many := by
  unfold getTbsDl
  by_cases valid : 0 < few ∧ mcs < 29
  · rw [if_pos valid, if_pos ⟨Nat.lt_of_lt_of_le valid.1 less, valid.2⟩, Nat.shiftRight_eq_div_pow,
      Nat.shiftRight_eq_div_pow]
    exact Nat.div_le_div_right (grows.grows _ _ _ (Nat.sub_le_sub_right less 1))
  · rw [if_neg valid]
    exact Nat.zero_le _

/-- The SDUs so far, with whole headers, go into a block of `tbs` bytes. -/
structure Multiplex.Fits (tbs taLen : Nat) (m : Multiplex) : Prop where
  whole : m.headerLengthTotal + m.sduLengthTotal + taLen ≤ tbs
  last : m.headerLengthTotal ≠ 0 → 1 ≤ m.headerLengthLast

section
variable {rlc : Rlc} {tbs taLen : Nat} {m : Multiplex}

theorem Multiplex.Fits.ask (fits : m.Fits tbs taLen) (left : m.left tbs taLen > 0) (lcid : Nat) :
    (ask rlc tbs taLen m lcid).Fits tbs taLen := by
  unfold DlSizing.ask
  dsimp only
  split
  · have given := (rlc lcid (m.left tbs taLen).toNat).le
    have whole := fits.whole
    have header : (if 128 ≤ (rlc lcid (m.left tbs taLen).toNat).length then 1 else 0) ≤ 1 := by
      split <;> decide
    unfold Multiplex.left at left given
    constructor
    · dsimp only [Multiplex.append]
      unfold Multiplex.left at header ⊢
      omega
    · intro _
      dsimp only [Multiplex.append]
      omega
  · exact fits

theorem Multiplex.Fits.askSrb (fits : m.Fits tbs taLen) (lcid : Nat) :
    (askSrb rlc tbs taLen m lcid).Fits tbs taLen := by
  unfold DlSizing.askSrb
  split
  case isTrue left => exact fits.ask left lcid
  case isFalse => exact fits

theorem Multiplex.Fits.askDtch (fits : m.Fits tbs taLen) (lcids : List Nat) :
    (askDtch rlc tbs taLen lcids m).Fits tbs taLen := by
  induction lcids generalizing m with
  | nil => exact fits
  | cons lcid rest ih =>
    rw [DlSizing.askDtch]
    split
    case isTrue left => exact ih (fits.ask left lcid)
    case isFalse => exact fits

theorem multiplex_fits (room : taLen ≤ tbs) : (multiplex rlc tbs taLen).Fits tbs taLen := by
  have start : Multiplex.Fits tbs taLen {} := ⟨by dsimp only; omega, fun some => absurd rfl some⟩
  exact ((start.askSrb dcch).askSrb dcch1).askDtch _

/-- Without the last length field the header is no longer. -/
theorem Multiplex.Fits.needed (fits : m.Fits tbs taLen) :
    m.sduLengthTotal + m.headerLength + taLen ≤ tbs := by
  have whole := fits.whole
  unfold Multiplex.headerLength
  split
  case isTrue some =>
    have last := fits.last some
    omega
  case isFalse => omega

end

theorem Turn.taLen_le (turn : Turn) : turn.taLen ≤ 2 := by
  unfold Turn.taLen
  dsimp only
  split <;> split <;> decide

theorem Turn.needed_le (turn : Turn) {table : TbsTable} (grows : Grows table) (rlc : Rlc) :
    turn.needed table rlc ≤ getTbsDl table turn.dlschMcs1 turn.preNbAvailableRbs :=
  (multiplex_fits (Nat.le_trans turn.taLen_le (grows.two_le turn.mcs_lt turn.available))).needed

/-! ### The loops -/

section
variable {tbs : Nat → Nat} {needed : Nat}

/-- The loop is the one that finds the demand of a UE, where its sixteen bits are enough. -/
theorem searchRb_eq {minRbUnit nbAvailableRb nbRb fuel : Nat}
    (small : nbAvailableRb + minRbUnit < 65536)
    (low : nbRb ≤ nbAvailableRb) :
    searchRb tbs needed minRbUnit nbAvailableRb fuel nbRb =
    demandLoop tbs needed minRbUnit nbAvailableRb fuel nbRb := by
  induction fuel generalizing nbRb with
  | zero => rfl
  | succ fuel ih =>
    have wide : (nbRb + minRbUnit) % 65536 = nbRb + minRbUnit := Nat.mod_eq_of_lt (by omega)
    rw [searchRb, demandLoop, wide]
    split
    · split
      · rfl
      case isFalse inside => exact ih (Nat.le_of_not_lt inside)
    · rfl

theorem searchRb_first {minRbUnit nbAvailableRb nbRb fuel : Nat} (holds : needed ≤ tbs nbRb) :
    searchRb tbs needed minRbUnit nbAvailableRb (fuel + 1) nbRb = some nbRb :=
  if_neg (Nat.not_lt.mpr holds)

/-- The MCS is lowered until the block is too small for the first time, if it ever is. -/
theorem lowerMcs_spec {mcs : Nat} (holds : needed ≤ tbs mcs) :
    needed ≤ tbs (lowerMcs tbs needed mcs) ∨
      lowerMcs tbs needed mcs < mcs ∧ needed ≤ tbs (lowerMcs tbs needed mcs + 1) := by
  induction mcs with
  | zero => exact .inl holds
  | succ mcs ih =>
    rw [lowerMcs]
    split
    case isFalse => exact .inl holds
    case isTrue above =>
      by_cases here : needed ≤ tbs mcs
      · rcases ih here with enough | ⟨below, next⟩
        · exact .inl enough
        · exact .inr ⟨Nat.lt_succ_of_lt below, next⟩
      · have stops : lowerMcs tbs needed mcs = mcs := by
          cases mcs with
          | zero => rfl
          | succ mcs => exact if_neg fun more => here (Nat.le_of_lt more)
        rw [stops]
        exact .inr ⟨Nat.lt_succ_self mcs, Nat.le_of_lt above⟩

theorem raiseMcs_spec {dlPowOff mcs : Nat} (power : 0 < dlPowOff) (valid : mcs < 29)
    (holds : needed ≤ tbs mcs) :
    ∃ chosen, (∀ fuel, 1 < fuel →
        raiseMcs tbs needed dlPowOff fuel (lowerMcs tbs needed mcs) = some chosen) ∧
      needed ≤ tbs chosen := by
  by_cases enough : needed ≤ tbs (lowerMcs tbs needed mcs)
  · refine ⟨_, fun fuel some => ?_, enough⟩
    obtain ⟨fuel, rfl⟩ := Nat.exists_eq_succ_of_ne_zero (Nat.ne_of_gt (Nat.zero_lt_of_lt some))
    exact if_neg fun both => Nat.not_lt.mpr enough both.1
  · obtain ⟨below, next⟩ := (lowerMcs_spec holds).resolve_left enough
    refine ⟨_, fun fuel some => ?_, next⟩
    obtain ⟨fuel, rfl⟩ := Nat.exists_eq_add_of_le' some
    rw [raiseMcs, if_pos ⟨Nat.lt_of_not_le enough, .inl ⟨power, by omega⟩⟩, raiseMcs,
      if_neg fun both => Nat.not_lt.mpr next both.1]

end

/-! ### The bitmap -/

section
variable (turn : Turn)

/-- The groups that the loop puts into the bitmap. -/
def picks : Int → List Nat → List Nat
  | _, [] => []
  | nbRbTemp, j :: rest =>
    if nbRbTemp > 0 then
      if turn.rballocSubUe j = true then
        j :: picks (nbRbTemp - allocatedSize turn.dlBandwidth j) rest
      else picks nbRbTemp rest
    else []

theorem picks_sublist (nbRbTemp : Int) (l : List Nat) : (picks turn nbRbTemp l).Sublist l := by
  induction l generalizing nbRbTemp with
  | nil => exact .refl _
  | cons j rest ih =>
    rw [picks]
    split
    · split
      · exact (ih _).cons_cons j
      · exact (ih _).cons j
    · exact List.nil_sublist _

theorem fillBitmap_eq (nbRbTemp : Int) (l : List Nat) (before : Nat → Bool) (i : Nat) :
    fillBitmap turn nbRbTemp l before i = (before i || decide (i ∈ picks turn nbRbTemp l)) := by
  induction l generalizing nbRbTemp before with
  | nil => simp [fillBitmap, picks]
  | cons j rest ih =>
    rw [fillBitmap, picks]
    split
    · split
      · rw [ih]
        by_cases here : i = j
        · simp [here]
        · simp [here, Function.update_of_ne]
      · exact ih _ _
    · simp

end

/-- All groups but the last have as many blocks as the unit, and the last has no more. -/
theorem Turn.sizes (turn : Turn) :
    (∀ j < toRbg turn.dlBandwidth - 1, rbSize turn.dlBandwidth j = getMinRbUnit turn.dlBandwidth) ∧
      rbSize turn.dlBandwidth (toRbg turn.dlBandwidth - 1) ≤ getMinRbUnit turn.dlBandwidth := by
  obtain ⟨fifteen, narrow⟩ := turn.supported
  constructor
  · intro j before
    rw [rbSize, if_neg (Nat.ne_of_lt before)]
    cases same : turn.dlBandwidth with
    | n15 => exact absurd same fifteen
    | n75 => exact absurd same narrow
    | n6 | n25 | n50 | n100 => rfl
  · rw [rbSize, if_pos rfl]
    cases same : turn.dlBandwidth with
    | n15 => exact absurd same fifteen
    | n75 => exact absurd same narrow
    | n6 | n25 | n50 | n100 => decide

theorem Turn.allocated (turn : Turn) (j : Nat) : allocatedSize turn.dlBandwidth j =
    rbSize turn.dlBandwidth j :=
  allocatedSize_eq turn.supported.2 fun fifteen => absurd fifteen turn.supported.1

/-- Whole units are found exactly, as long as the groups have as many blocks. -/
theorem picks_sum (turn : Turn) {k m : Nat} (whole : k + m = toRbg turn.dlBandwidth) {blocks : Nat}
    (units : getMinRbUnit turn.dlBandwidth ∣ blocks)
    (inside : blocks ≤
      (((List.range' k m).filter fun j => turn.rballocSubUe j).map (rbSize turn.dlBandwidth)).sum) :
    ((picks turn blocks (List.range' k m)).map (rbSize turn.dlBandwidth)).sum = blocks := by
  induction m generalizing k blocks with
  | zero =>
    exact (Nat.le_zero.mp inside).symm
  | succ m ih =>
    rw [List.range'_succ] at inside ⊢
    rw [picks]
    by_cases some : (blocks : Int) > 0
    · rw [if_pos some]
      by_cases given : turn.rballocSubUe k = true
      · rw [if_pos given, List.map_cons, List.sum_cons, turn.allocated]
        rw [List.filter_cons_of_pos (by exact given), List.map_cons, List.sum_cons] at inside
        obtain ⟨full, last⟩ := turn.sizes
        have least : getMinRbUnit turn.dlBandwidth ≤ blocks := Nat.le_of_dvd (by omega) units
        cases m with
        | zero =>
          have here : k = toRbg turn.dlBandwidth - 1 := by omega
          rw [← here] at last
          simp only [List.range'_zero, List.filter_nil, List.map_nil, List.sum_nil, picks]
            at inside ⊢
          omega
        | succ m =>
          have size := full k (by omega)
          rw [size] at inside ⊢
          have cast : (blocks : Int) - getMinRbUnit turn.dlBandwidth =
              ((blocks - getMinRbUnit turn.dlBandwidth : Nat) : Int) := by
            omega
          rw [cast, ih (by omega) (Nat.dvd_sub units (dvd_refl _)) (by omega)]
          omega
      · rw [if_neg given]
        rw [List.filter_cons_of_neg (by exact given)] at inside
        exact ih (by omega) units inside
    · rw [if_neg some]
      simp only [List.map_nil, List.sum_nil]
      omega

/-- The sum over the groups of a bitmap, as the sum over a list of them. -/
theorem sum_groups {n : Nat} (size : Nat → Nat) {l : List Nat} (distinct : l.Nodup)
    {map : Nat → Bool}
    (groups : ∀ j < n, map j = true ↔ j ∈ l) (inside : ∀ j ∈ l, j < n) :
    ∑ j ∈ range n with map j = true, size j = (l.map size).sum := by
  have same : (range n).filter (fun j => map j = true) = l.toFinset := by
    ext j
    rw [Finset.mem_filter, Finset.mem_range, List.mem_toFinset]
    exact ⟨fun both => (groups j both.1).mp both.2,
      fun member => ⟨inside j member, (groups j (inside j member)).mpr member⟩⟩
  rw [same, List.sum_toFinset _ distinct]

/-- The blocks of the groups in the bitmap that is made for so many blocks. -/
def Turn.mapped (turn : Turn) (nbRb : Nat) : Nat :=
  ∑ j ∈ range (toRbg turn.dlBandwidth) with bitmap turn nbRb j = true, rbSize turn.dlBandwidth j

theorem Turn.mapped_all (turn : Turn) : turn.mapped turn.preNbAvailableRbs =
    turn.preNbAvailableRbs := by
  refine Eq.trans (Finset.sum_congr ?_ fun _ _ => rfl) turn.counted
  refine Finset.filter_congr fun j member => ?_
  rw [bitmap, if_pos rfl, Bool.and_eq_true, decide_eq_true_eq, List.mem_range]
  exact and_iff_right (Finset.mem_range.mp member)

theorem Turn.mapped_units (turn : Turn) {nbRb : Nat} (units : getMinRbUnit turn.dlBandwidth ∣ nbRb)
    (inside : nbRb ≤ turn.preNbAvailableRbs) : turn.mapped nbRb = nbRb := by
  by_cases all : nbRb = turn.preNbAvailableRbs
  · rw [all]
    exact turn.mapped_all
  · have counted := turn.counted
    rw [sum_groups (l := (List.range (toRbg turn.dlBandwidth)).filter fun j => turn.rballocSubUe j)
      (rbSize turn.dlBandwidth)
      (List.nodup_range.filter _)
        (fun j below => by rw [List.mem_filter, List.mem_range, and_iff_right below])
      (fun j member => List.mem_range.mp (List.mem_filter.mp member).1)] at counted
    rw [← counted, List.range_eq_range'] at inside
    have sum := picks_sum turn (Nat.zero_add _) units inside
    rw [← List.range_eq_range'] at sum
    have picked := picks_sublist turn nbRb (List.range (toRbg turn.dlBandwidth))
    refine Eq.trans
      (sum_groups _ (picked.nodup List.nodup_range) (fun j _ => ?_) fun j member => ?_) sum
    · rw [bitmap, if_neg all, fillBitmap_eq, Bool.false_or, decide_eq_true_eq]
    · exact List.mem_range.mp (picked.subset member)

/-- With 50 blocks no set of groups has one block more than whole groups of three. -/
theorem sum_fifty (map : Nat → Bool) :
    (∑ j ∈ range (toRbg .n50) with map j = true, rbSize .n50 j) % 3 ≠ 1 := by
  have others : 3 ∣ ∑ j ∈ ((range (toRbg .n50)).filter fun j => map j = true).erase 16,
      rbSize .n50 j := by
    refine Finset.dvd_sum fun j member => ?_
    have size : rbSize .n50 j = 3 := if_neg (Finset.ne_of_mem_erase member)
    rw [size]
  by_cases last : 16 ∈ (range (toRbg .n50)).filter fun j => map j = true
  · rw [← Finset.add_sum_erase _ _ last]
    have size : rbSize .n50 16 = 2 := rfl
    omega
  · rw [Finset.erase_eq_of_notMem last] at others
    omega

/-! ### What is scheduled -/

/-- The blocks are available and are those of the groups, and the block holds what is to be sent. -/
structure Allocation.Sized (turn : Turn) (a : Allocation) : Prop where
  within : a.nbRb ≤ turn.preNbAvailableRbs
  groups : ∑ j ∈ range (toRbg turn.dlBandwidth) with a.rballocSubband j = true,
    rbSize turn.dlBandwidth j = a.nbRb
  holds : a.sdus.headerLength + a.taLen + a.sdus.sduLengthTotal ≤ a.tbs
  padding : 0 ≤ a.padding

def Turn.lastRb (turn : Turn) : Nat :=
  turn.firstRb + (turn.preNbAvailableRbs - turn.firstRb) / getMinRbUnit turn.dlBandwidth *
    getMinRbUnit turn.dlBandwidth

/-- The loop begins with blocks that are there, and they are whole groups, unless the loop comes to
an end without having found enough. -/
def Turn.BeginsWell (turn : Turn) (table : TbsTable) (needed : Nat) : Prop :=
  turn.firstRb ≤ turn.preNbAvailableRbs ∧
    (getMinRbUnit turn.dlBandwidth ∣ turn.firstRb ∨
      getTbsDl table turn.dlschMcs1 turn.lastRb < needed)

theorem Turn.available_le (turn : Turn) : turn.preNbAvailableRbs ≤ 100 := by
  rw [← turn.counted]
  refine Nat.le_trans (Finset.sum_le_sum_of_subset (Finset.filter_subset _ _)) ?_
  rw [sum_rbSize]
  cases turn.dlBandwidth <;> decide

structure Turn.Chosen (turn : Turn) (table : TbsTable) (needed nbRb : Nat) : Prop where
  ends : ∀ fuel, 101 < fuel →
    searchRb (getTbsDl table turn.dlschMcs1) needed (getMinRbUnit turn.dlBandwidth)
    turn.preNbAvailableRbs fuel turn.firstRb = some nbRb
  holds : needed ≤ getTbsDl table turn.dlschMcs1 nbRb
  good : nbRb ≤ turn.preNbAvailableRbs ∧ turn.mapped nbRb = nbRb ↔ turn.BeginsWell table needed

/-- Blocks that are no whole groups are begun with for MCS 0 and 50 blocks only. -/
theorem Turn.odd (turn : Turn) (odd : ¬ getMinRbUnit turn.dlBandwidth ∣ turn.firstRb) :
    turn.dlBandwidth = .n50 ∧ turn.firstRb = 4 := by
  unfold Turn.firstRb at odd ⊢
  split at odd
  case isFalse => exact absurd (dvd_refl _) odd
  case isTrue zero =>
    refine ⟨?_, if_pos zero⟩
    cases same : turn.dlBandwidth with
    | n50 => rfl
    | n6 | n15 | n25 | n75 | n100 =>
      rw [same] at odd
      exact absurd (by decide) odd

theorem Turn.lastRb_le (turn : Turn) : turn.lastRb ≤ max turn.firstRb turn.preNbAvailableRbs := by
  have whole :=
    Nat.div_mul_le_self (turn.preNbAvailableRbs - turn.firstRb) (getMinRbUnit turn.dlBandwidth)
  unfold Turn.lastRb
  omega

theorem Turn.chosen (turn : Turn) {table : TbsTable} (grows : Grows table) {needed : Nat}
    (room : needed ≤ getTbsDl table turn.dlschMcs1 turn.preNbAvailableRbs) :
    ∃ nbRb, turn.Chosen table needed nbRb := by
  obtain ⟨positive, small⟩ := getMinRbUnit_bounds turn.dlBandwidth
  have available := turn.available_le
  by_cases low : turn.firstRb ≤ turn.preNbAvailableRbs
  case neg =>
    have holds : needed ≤ getTbsDl table turn.dlschMcs1 turn.firstRb :=
      Nat.le_trans room (grows.mono _ (Nat.le_of_not_le low))
    refine ⟨turn.firstRb,
      fun fuel enough => ?_, holds, fun good => absurd good.1 low, fun well => absurd well.1 low⟩
    obtain ⟨fuel, rfl⟩ := Nat.exists_eq_succ_of_ne_zero (Nat.ne_of_gt (Nat.zero_lt_of_lt enough))
    exact searchRb_first holds
  case pos =>
    obtain ⟨nbRb, found, ran⟩ := demandLoop_spec (getTbsDl table turn.dlschMcs1) needed positive
      (show turn.preNbAvailableRbs + getMinRbUnit turn.dlBandwidth < 65536 by omega) low
    have ends : ∀ fuel, 101 < fuel →
      searchRb (getTbsDl table turn.dlschMcs1) needed (getMinRbUnit turn.dlBandwidth)
        turn.preNbAvailableRbs fuel turn.firstRb = some nbRb := fun fuel enough => by
      rw [searchRb_eq (by omega) low]
      exact ran fuel (by omega)
    refine ⟨nbRb, ends, ?_, ?_⟩
    · rcases found.least with ⟨_, _, holds, _⟩ | ⟨rfl, _⟩
      · exact holds
      · exact room
    · constructor
      · rintro ⟨-, mapped⟩
        refine ⟨low, or_iff_not_imp_left.mpr fun odd => ?_⟩
        obtain ⟨fifty, four⟩ := turn.odd odd
        rcases found.least with ⟨k, here, -, -⟩ | ⟨-, none⟩
        · have rest := sum_fifty (bitmap turn nbRb)
          rw [← fifty] at rest
          change turn.mapped nbRb % 3 ≠ 1 at rest
          have unit : getMinRbUnit turn.dlBandwidth = 3 := by rw [fifty]; rfl
          rw [mapped, here, four, unit] at rest
          omega
        · refine none _ (Nat.le_trans turn.lastRb_le (Nat.le_of_eq (Nat.max_eq_right low)))
      · rintro ⟨-, begins⟩
        refine ⟨found.within, ?_⟩
        rcases found.least with ⟨k, here, holds, -⟩ | ⟨all, -⟩
        · rcases begins with whole | short
          · exact turn.mapped_units (here ▸ Nat.dvd_add whole (Nat.dvd_mul_left _ k)) found.within
          · refine absurd (Nat.le_trans holds (grows.mono _ ?_)) (Nat.not_le.mpr short)
            have within := found.within
            rw [here]
            refine Nat.add_le_add_left
              (Nat.mul_le_mul_right _ ((Nat.le_div_iff_mul_le positive).mpr ?_)) _
            omega
        · rw [all]
          exact turn.mapped_all

/-- For every UE with a new transmission and whatever RLC answers, the loops end; the blocks are
available, are those of the bitmap and carry what is to be sent exactly when the loop over the
blocks begins well. -/
theorem new_block_sized_iff (turn : Turn) {table : TbsTable} (grows : Grows table) (rlc : Rlc) :
    (∃ result, (∀ fuel, 101 < fuel → scheduleNew turn table rlc fuel = some result) ∧
        ∀ a, result = some a → a.Sized turn) ↔
      (0 < turn.needed table rlc → turn.BeginsWell table (turn.needed table rlc)) := by
  by_cases data : 0 < turn.needed table rlc
  case neg =>
    refine ⟨fun _ some => absurd some data,
      fun _ => ⟨none, fun fuel _ => if_neg data, fun a given => (nomatch given)⟩⟩
  case pos =>
    obtain ⟨nbRb, chosen⟩ := turn.chosen grows (turn.needed_le grows rlc)
    obtain ⟨mcs, raised, holds⟩ :=
      (@raiseMcs_spec (fun mcs => getTbsDl table mcs nbRb) _ _ _) turn.power
      turn.mcs_lt chosen.holds
    let rest : Int :=
      getTbsDl table mcs
      nbRb - (turn.sdus table rlc).headerLength - (turn.sdus table rlc).sduLengthTotal -
      turn.taLen
    let allocation : Allocation :=
      { nbRb, mcs
        sdus := turn.sdus table rlc
        tbs := getTbsDl table mcs nbRb
        rballocSubband := bitmap turn nbRb
        taLen := turn.taLen
        padding := if rest ≤ 2 then rest else 0
        postPadding := if rest ≤ 2 then 0 else 1 }
    have ran : ∀ fuel, 101 < fuel → scheduleNew turn table rlc fuel = some (some allocation) := by
      intro fuel enough
      rw [scheduleNew, if_pos data, chosen.ends fuel enough]
      simp only [Option.bind_eq_bind, Option.bind_some]
      rw [raised fuel (Nat.lt_trans (by decide) enough)]
      rfl
    have sized : allocation.Sized turn ↔ turn.BeginsWell table (turn.needed table rlc) := by
      rw [← chosen.good]
      have all : (turn.sdus table rlc).sduLengthTotal +
        (turn.sdus table rlc).headerLength + turn.taLen ≤
          getTbsDl table mcs nbRb := holds
      refine ⟨fun sized => ⟨sized.within, sized.groups⟩, fun good => ⟨good.1, good.2, ?_, ?_⟩⟩
      · dsimp only [allocation]
        omega
      · dsimp only [allocation, rest]
        split <;> omega
    constructor
    · rintro ⟨result, ranOther, good⟩ _
      cases (ran 102 (by decide)).symm.trans (ranOther 102 (by decide))
      exact sized.mp (good allocation rfl)
    · intro begins
      refine ⟨some allocation, ran, fun a given => ?_⟩
      cases given
      exact sized.mpr (begins data)

/-- The first row of `TBStable`, as far as four blocks. -/
def firstRow : TbsTable where
  bits _ n := [16, 32, 56].getD n 88
  bounded _ n := by
    match n with
    | 0 | 1 | 2 | n + 3 => exact Nat.le_of_ble_eq_true rfl

theorem firstRow_grows : Grows firstRow where
  least _ n := by
    match n with
    | 0 | 1 | 2 | n + 3 => exact Nat.le_of_ble_eq_true rfl
  grows _ m n less := by
    match m, n, less with
    | 0, 0, _ | 0, 1, _ | 0, 2, _ | 0, n + 3, _ => exact Nat.le_of_ble_eq_true rfl
    | 1, 1, _ | 1, 2, _ | 1, n + 3, _ | 2, 2, _ | 2, n + 3, _ | m + 3, n + 3, _ =>
      exact Nat.le_of_ble_eq_true rfl
    | 1, 0, less | 2, 0, less | 2, 1, less => exact absurd less (by decide)
    | m + 3, 0, less | m + 3, 1, less | m + 3, 2, less => omega

/-- A UE at the worst MCS with the first groups of 25 blocks, and a timing advance command to
send. -/
def worstUe (groups : Nat) (given : 0 < 2 * groups)
    (counted : ∑ j ∈ range 13 with decide (j < groups) = true, rbSize .n25 j = 2 * groups) :
    Turn where
  dlBandwidth := .n25
  supported := by decide
  dlschMcs1 := 0
  mcs_lt := by decide
  rballocSubUe j := decide (j < groups)
  preNbAvailableRbs := 2 * groups
  available := given
  counted := counted
  dlPowOff := 2
  power := by decide
  taTimer := 0
  taUpdate := 32

def threeBytes : Rlc := fun lcid requested =>
  if lcid = dcch then ⟨3, min 3 requested, Nat.min_le_right _ _⟩ else ⟨0, 0, Nat.zero_le _⟩

theorem new_block_sized_two_groups : ∃ result,
    (∀ fuel, 101 < fuel →
        scheduleNew (worstUe 2 (by decide) rfl) firstRow threeBytes fuel = some result) ∧
      ∀ a, result = some a → a.Sized (worstUe 2 (by decide) rfl) :=
  (new_block_sized_iff (worstUe 2 (by decide) rfl) firstRow_grows threeBytes).mpr
    fun _ => ⟨by decide, .inl (by decide)⟩

/-- With MCS 0 four blocks are taken where the UE has been given two. -/
theorem four_blocks_of_two : ¬ ∀ (turn : Turn) (table : TbsTable), Grows table → ∀ rlc : Rlc,
    ∃ result, (∀ fuel, 101 < fuel → scheduleNew turn table rlc fuel = some result) ∧
      ∀ a, result = some a → a.Sized turn := by
  intro always
  obtain ⟨result, ran, good⟩ :=
    always (worstUe 1 (by decide) rfl) firstRow firstRow_grows threeBytes
  have four : ((scheduleNew (worstUe 1 (by decide) rfl) firstRow threeBytes 102).getD none).map
      Allocation.nbRb = some 4 := by
    decide +kernel
  rw [ran 102 (by decide)] at four
  obtain ⟨a, given, blocks⟩ := Option.map_eq_some_iff.mp four
  have within := (good a given).within
  rw [blocks] at within
  exact absurd within (by decide)

end OpenAir.Mac.DlSizing
