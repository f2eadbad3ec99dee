import OpenAir.Lib.Comparison
import OpenAir.Mac.UeList

/-! The order the sorters give the UEs: the tables the comparisons read, the policy word, and the
lists for any library sort. -/
namespace OpenAir.Mac
open Linked Comparison

/-- What the comparisons read; `UE_template` is by carrier and UE, `UE_sched_ctrl` by UE and
carrier. -/
structure UeTables where
  pccId : Nat → Nat
  nbMacCc : Nat
  /-- The HARQ process of the subframe on a carrier. -/
  dlHarqPid : Nat → Nat
  round : Nat → Nat → Nat → UInt8
  /-- The active carriers, in `ordered_CCids`. -/
  activeCcs : Nat → List Nat
  dlCqi : Nat → Nat → UInt8
  dlBufferInfo : Nat → Nat → Nat → UInt32
  dlBufferHeadSduCreationTimeMax : Nat → Nat → UInt32
  dlBufferTotal : Nat → Nat → UInt32
  lcgidpriority : Nat → Nat → Nat → Int
  ulBufferInfo : Nat → Nat → Nat → UInt32
  estimatedUlBuffer : Nat → Nat → Int
  scheduledUlBytes : Nat → Nat → Int
  preAssignedMcsUl : Nat → Nat → UInt8
  ulOutOfSync : Nat → Bool
  nDl : Nat
  assocDlSliceIdx : Nat → Nat

/-- The UE is looked up by its RNTI; -1 in a `uint8_t` is 255. -/
def maxround (mobiles : Nat) (list : UeList) (tables : UeTables) (rnti : Nat) : Nat :=
  let ue := (findUeId mobiles list rnti).getD 255
  (List.range tables.nbMacCc).foldl
    (fun roundMax cc => max roundMax (tables.round ue cc (tables.dlHarqPid cc)).toNat) 0

def maxcqi (tables : UeTables) (ue : Nat) : Nat :=
  (tables.activeCcs ue).foldl (fun cqi cc => max cqi (tables.dlCqi ue cc).toNat) 0

def minLcgidpriority (tables : UeTables) (ue : Nat) : Int :=
  (List.range' 1 10).foldl (fun ret i => min ret (tables.lcgidpriority (tables.pccId ue) ue i))
    (tables.lcgidpriority (tables.pccId ue) ue 0)

def ueKeys (mobiles : Nat) (list : UeList) (tables : UeTables) (ue : Nat) : UeKeys where
  round := maxround mobiles list tables (list.rnti ue)
  srb12 := (tables.dlBufferInfo (tables.pccId ue) ue 1 + tables.dlBufferInfo
    (tables.pccId ue) ue 2).toNat
  headSduCreationTime := (tables.dlBufferHeadSduCreationTimeMax (tables.pccId ue) ue).toNat
  dlBufferTotal := (tables.dlBufferTotal (tables.pccId ue) ue).toNat
  cqi := maxcqi tables ue
  lcgidPriority := minLcgidpriority tables ue
  ulBufferLcg0 := (tables.ulBufferInfo (tables.pccId ue) ue 0).toNat
  bytesToSchedule :=
    (tables.estimatedUlBuffer (tables.pccId ue) ue - tables.scheduledUlBytes
    (tables.pccId ue) ue).toNat
  preAssignedMcsUl := (tables.preAssignedMcsUl (tables.pccId ue) ue).toNat
  ulOutOfSync := tables.ulOutOfSync ue
  dlSlice := tables.assocDlSliceIdx ue

/-! ### The policy word -/

def crNum : Nat := 6

/-- The digit of a policy at a place from the right. -/
def policyDigit (policy : UInt32) (place : Nat) : Nat := policy.toNat >>> (4 * place) &&& 0xF

/-- The loop of `decode_sorting_policy` over the places left: an invalid digit leaves the criteria
that were stored before, and the default policy for the next time. -/
def decodeFrom (policy : UInt32) : Nat → List Nat → List Nat × UInt32
  | 0, _ => ([], policy)
  | left + 1, stored =>
    if crNum ≤ policyDigit policy left then (stored, 0x12345)
    else (policyDigit policy left :: (decodeFrom policy left stored.tail).1,
      (decodeFrom policy left stored.tail).2)

def decodeSortingPolicy (policy : UInt32) (sortingCriteria : List Nat) : List Nat × UInt32 :=
  decodeFrom policy crNum sortingCriteria

/-- The cases of the comparison; any other number is skipped. -/
def criterionOf : Nat → Option Criterion
  | 0 => some .round
  | 1 => some .srb12
  | 2 => some .hol
  | 3 => some .lc
  | 4 => some .cqi
  | 5 => some .lcp
  | _ => none

def criteriaOf (sortingCriteria : List Nat) : List Criterion :=
  sortingCriteria.filterMap criterionOf

/-! ### The sorters, for any `qsort_r` -/

section
variable (qsort : (Nat → Nat → Int) → List Nat → List Nat) (mobiles : Nat) (list : UeList)
    (tables : UeTables)

/-- No UE is a member of a slice that is not there. -/
def ueDlSliceMembership (ue slice : Nat) : Bool :=
  decide (slice < tables.nDl) && (list.active ue && tables.assocDlSliceIdx ue == slice)

def eligibleDl (slice ue : Nat) : Bool :=
  list.active ue && list.rnti ue != 0 && !tables.ulOutOfSync ue &&
    ueDlSliceMembership list tables ue slice

def eligibleUl (ue : Nat) : Bool := list.active ue && list.rnti ue != 0 && !tables.ulOutOfSync ue

def compareDl (criteria : List Criterion) (a b : Nat) : Int :=
  ueDlCompare criteria (ueKeys mobiles list tables a) (ueKeys mobiles list tables b)

def compareUl (a b : Nat) : Int :=
  ueUlCompare (ueKeys mobiles list tables a) (ueKeys mobiles list tables b)

/-- The policy is decoded, then the UEs of the slice are sorted and linked. -/
def sortSlice (policy : UInt32) (sortingCriteria : List Nat) (slice : Nat) : UeList :=
  let criteria := criteriaOf (decodeSortingPolicy policy sortingCriteria).1
  let sorted :=
    qsort (compareDl mobiles list tables criteria)
    ((List.range mobiles).filter (eligibleDl list tables slice))
  { list with next := relink list.next sorted, head := first sorted }

def sortUplink : UeList :=
  let sorted :=
    qsort (compareUl mobiles list tables) ((List.range mobiles).filter (eligibleUl list tables))
  { list with nextUl := relink list.nextUl sorted, headUl := first sorted }

end

/-- The sorters of the list's own runs are these with the stable sort. -/
theorem sortSlice_stable (mobiles : Nat) (list : UeList) (tables : UeTables) (policy : UInt32)
    (stored : List Nat)
    {slice : Nat} (there : slice < tables.nDl) :
    sortSlice qsort mobiles list tables policy stored slice =
      sortUes mobiles list (criteriaOf (decodeSortingPolicy policy stored).1)
        (ueKeys mobiles list tables) slice := by
  have same : eligibleDl list tables slice = fun ue =>
      list.active ue && list.rnti ue != 0 && !tables.ulOutOfSync ue &&
          tables.assocDlSliceIdx ue == slice := by
    funext ue
    unfold eligibleDl ueDlSliceMembership
    rw [decide_eq_true there, Bool.true_and]
    cases list.active ue with
    | false => rfl
    | true => rw [Bool.true_and (tables.assocDlSliceIdx ue == slice)]
  unfold sortSlice
  rw [same]
  rfl

theorem sortUplink_stable (mobiles : Nat) (list : UeList) (tables : UeTables) :
    sortUplink qsort mobiles list tables = sortUeUl mobiles list (ueKeys mobiles list tables) := rfl

/-! ### The comparisons are orders -/

def byCriterion (keys : Nat → UeKeys) (criterion : Criterion) (a b : Nat) : Int :=
  criterion.compare (keys a) (keys b)

def byUplink (keys : Nat → UeKeys) : List (Nat → Nat → Int) :=
  [Comparison.descending
    fun ue => (keys ue).round, Comparison.descending
      fun ue => (keys ue).ulBufferLcg0, Comparison.descending
      fun ue => (keys ue).bytesToSchedule, Comparison.descending
      fun ue => (keys ue).preAssignedMcsUl]

theorem descending_eq {keys : Nat → UeKeys} (key : UeKeys → Nat) (a b : Nat) :
    Mac.descending (key (keys a)) (key (keys b)) =
    Comparison.descending (fun ue => (key (keys ue) : Int)) a b := by
  unfold Mac.descending Comparison.descending
  simp only [gt_iff_lt, Int.ofNat_lt]

theorem byCriterion_order (keys : Nat → UeKeys) (criterion : Criterion) :
    TotalPreorder (byCriterion keys criterion) := by
  have lifted : ∀ key : UeKeys →
      Nat, TotalPreorder fun a b => Mac.descending (key (keys a)) (key (keys b)) := by
    intro key
    have order := descending_order fun ue => (key (keys ue) : Int)
    refine ⟨fun a b => ?_, fun a b c => ?_⟩
    · simp only [descending_eq]
      exact order.swap a b
    · simp only [descending_eq]
      exact order.trans a b c
  cases criterion with
  | round => exact lifted UeKeys.round
  | srb12 => exact lifted UeKeys.srb12
  | hol => exact lifted UeKeys.headSduCreationTime
  | lc => exact lifted UeKeys.dlBufferTotal
  | cqi => exact lifted UeKeys.cqi
  | lcp =>
    refine ⟨fun a b => ?_, fun a b c => ?_⟩
    · simp only [byCriterion, Criterion.compare]
      split_ifs <;> omega
    · simp only [byCriterion, Criterion.compare]
      split_ifs <;> omega

theorem ueDlCompare_eq (keys : Nat → UeKeys) (criteria : List Criterion) (a b : Nat) :
    ueDlCompare criteria (keys a) (keys b) =
    lexicographic (criteria.map (byCriterion keys)) a b := by
  induction criteria with
  | nil => rfl
  | cons criterion rest ih => rw [ueDlCompare, List.map_cons, lexicographic, ih, byCriterion]

theorem ueUlCompare_eq (keys : Nat → UeKeys) (a b : Nat) :
    ueUlCompare (keys a) (keys b) = lexicographic (byUplink keys) a b := by
  simp only [ueUlCompare, byUplink, lexicographic, (@descending_eq keys) UeKeys.round,
    (@descending_eq keys) UeKeys.ulBufferLcg0, (@descending_eq keys) UeKeys.bytesToSchedule,
    (@descending_eq keys) UeKeys.preAssignedMcsUl]
  split_ifs with h1 h2 h3 h4
  all_goals first | rfl | exact not_not.mp h4

theorem byUplink_order (keys : Nat → UeKeys) : ∀ cmp ∈ byUplink keys, TotalPreorder cmp := by
  intro cmp member
  simp only [byUplink, List.mem_cons, List.not_mem_nil, or_false] at member
  rcases member with rfl | rfl | rfl | rfl
  all_goals exact descending_order _

theorem decodeFrom_valid (policy : UInt32) (left : Nat) (stored : List Nat)
    (valid : ∀ place < left, policyDigit policy place < crNum) :
    decodeFrom policy left stored =
    ((List.range left).reverse.map (policyDigit policy), policy) := by
  induction left generalizing stored with
  | zero => rfl
  | succ left ih =>
    have digit := valid left (Nat.lt_succ_self left)
    have rest := ih stored.tail fun place below => valid place (Nat.lt_succ_of_lt below)
    rw [decodeFrom, if_neg (Nat.not_le.mpr digit), rest, List.range_succ, List.reverse_append]
    rfl

/-- The list from `head` on holds every eligible UE exactly once, ends with -1 and is ordered by the
comparisons. -/
def Ordered (next : Nat → Int) (head : Int) (eligible : Nat → Prop)
    (cmps : List (Nat → Nat → Int)) : Prop :=
  ∃ order, Chain next head order ∧ order.Nodup ∧ (∀ ue, ue ∈ order ↔ eligible ue) ∧
    order.Pairwise (Before cmps)

theorem relink_ordered {qsort : (Nat → Nat → Int) → List Nat → List Nat} (sorts : Sorts qsort)
    {mobiles : Nat}
    {cmps : List (Nat → Nat → Int)} (orders : ∀ cmp ∈ cmps, TotalPreorder cmp) (next : Nat → Int)
    (eligible : Nat → Bool) :
    let sorted := qsort (lexicographic cmps) ((List.range mobiles).filter eligible)
    Ordered (relink next sorted) (first sorted)
        (fun ue => ue < mobiles ∧ eligible ue = true) cmps := by
  intro sorted
  obtain ⟨perm, ascending⟩ :=
    sorts (lexicographic cmps) (lexicographic_order orders) ((List.range mobiles).filter eligible)
  have distinct : sorted.Nodup := perm.nodup_iff.mpr (List.nodup_range.filter _)
  refine ⟨sorted, relink_chain distinct, distinct, fun ue => ?_, ?_⟩
  · rw [perm.mem_iff, List.mem_filter, List.mem_range]
  · exact ascending.imp fun inOrder => lexicographic_le_iff.mp inOrder

/-- For any library sort that sorts by total preorders: the comparisons are such orders, and the
lists hold the eligible UEs in the order of the criteria; a valid policy word gives its digits. -/
theorem sorters_order (qsort : (Nat → Nat → Int) → List Nat → List Nat) (sorts : Sorts qsort)
    (mobiles : Nat)
    (list : UeList) (tables : UeTables) :
    (∀ policy stored slice,
      let criteria := criteriaOf (decodeSortingPolicy policy stored).1
      let after := sortSlice qsort mobiles list tables policy stored slice
      TotalPreorder (compareDl mobiles list tables criteria) ∧
      Ordered after.next after.head
        (fun ue => ue < mobiles ∧ eligibleDl list tables slice ue = true)
        (criteria.map (byCriterion (ueKeys mobiles list tables)))) ∧
    (∀ policy stored, (∀ place < crNum, policyDigit policy place < crNum) →
      decodeSortingPolicy policy stored =
        ((List.range crNum).reverse.map (policyDigit policy), policy)) ∧
    TotalPreorder (compareUl mobiles list tables) ∧
    let after := sortUplink qsort mobiles list tables
    Ordered after.nextUl after.headUl (fun ue => ue < mobiles ∧ eligibleUl list tables ue = true)
      (byUplink (ueKeys mobiles list tables)) := by
  have downlink (criteria : List Criterion) : compareDl mobiles list tables criteria =
      lexicographic (criteria.map (byCriterion (ueKeys mobiles list tables))) := by
    funext a b
    exact ueDlCompare_eq (ueKeys mobiles list tables) criteria a b
  have uplink : compareUl mobiles list tables =
      lexicographic (byUplink (ueKeys mobiles list tables)) := by
    funext a b
    exact ueUlCompare_eq (ueKeys mobiles list tables) a b
  have criterionOrders (criteria : List Criterion) :
      ∀ cmp ∈ criteria.map (byCriterion (ueKeys mobiles list tables)), TotalPreorder cmp := by
    intro cmp member
    obtain ⟨criterion, -, rfl⟩ := List.mem_map.mp member
    exact byCriterion_order (ueKeys mobiles list tables) criterion
  refine ⟨fun policy stored slice => ⟨?_, ?_⟩, ?_, ?_, ?_⟩
  · rw [downlink]
    exact lexicographic_order (criterionOrders _)
  · simp only [sortSlice, downlink]
    exact relink_ordered sorts (criterionOrders _) list.next (eligibleDl list tables slice)
  · intro policy stored valid
    exact decodeFrom_valid policy crNum stored valid
  · rw [uplink]
    exact lexicographic_order (byUplink_order _)
  · unfold sortUplink
    rw [uplink]
    exact relink_ordered sorts (byUplink_order _) list.nextUl (eligibleUl list tables)

theorem qsort_sorts : Sorts qsort := by
  intro cmp order list
  have : Std.Total fun a b : Nat => cmp a b ≤ 0 := ⟨order.total⟩
  have : IsTrans Nat fun a b => cmp a b ≤ 0 := ⟨order.trans⟩
  exact ⟨List.perm_insertionSort _ list, List.pairwise_insertionSort _ list⟩

/-- Two UEs; the second one has more to send. -/
def pair : UeList := addNewUe 16 (addNewUe 16 (initUeList 16) 0x1234) 0x1235

def pairTables : UeTables where
  pccId _ := 0
  nbMacCc := 1
  dlHarqPid _ := 0
  round _ _ _ := 8
  activeCcs _ := [0]
  dlCqi _ _ := 9
  dlBufferInfo _ _ _ := 0
  dlBufferHeadSduCreationTimeMax _ _ := 0
  dlBufferTotal _ ue := if ue = 1 then 500 else 100
  lcgidpriority _ _ _ := 0
  ulBufferInfo _ _ _ := 0
  estimatedUlBuffer _ _ := 0
  scheduledUlBytes _ _ := 0
  preAssignedMcsUl _ _ := 10
  ulOutOfSync _ := false
  nDl := 1
  assocDlSliceIdx _ := 0

theorem sorters_order_stable :
    decodeSortingPolicy 0x12345 [] = ([0, 1, 2, 3, 4, 5], 0x12345) ∧
    (let after := sortSlice qsort 16 pair pairTables 0x12345 [] 0
     Ordered after.next after.head (fun ue => ue < 16 ∧ eligibleDl pair pairTables 0 ue = true)
       ([Criterion.round, .srb12, .hol, .lc, .cqi, .lcp].map
         (byCriterion (ueKeys 16 pair pairTables)))) ∧
    ((List.range 16).filter (eligibleDl pair pairTables 0) = [0, 1] ∧
      (sortSlice qsort 16 pair pairTables 0x12345 [] 0).head = 1) := by
  have sorted := sorters_order qsort qsort_sorts 16 pair pairTables
  exact ⟨sorted.2.1 0x12345 [] (by decide), (sorted.1 0x12345 [] 0).2, by decide, by decide⟩

end OpenAir.Mac
