import OpenAir.Lib.Linked
import OpenAir.Lib.Run
import Mathlib.Data.List.Perm.Subperm
import Mathlib.Data.List.Sort

/-! The list of UEs of an eNB: two linked lists, for downlink and uplink, over the same
numbers. The sorters link them anew; a UE is taken out of both when it is removed. -/
namespace OpenAir.Mac
open Linked

structure UeList where
  active : Nat → Bool
  /-- The RNTI in the template on the UE's primary carrier; 0 when there is none. -/
  rnti : Nat → Nat
  numUes : Int
  head : Int
  next : Nat → Int
  headUl : Int
  nextUl : Nat → Int

def successors (mobiles : Nat) (ue : Nat) : Int := if ue + 1 < mobiles then ue + 1 else -1

def initUeList (mobiles : Nat) : UeList where
  active _ := false
  rnti _ := 0
  numUes := 0
  head := -1
  next := successors mobiles
  headUl := -1
  nextUl := successors mobiles

/-- The first UE found; `mobiles` is `MAX_MOBILES_PER_ENB`. -/
def findUeId (mobiles : Nat) (list : UeList) (rnti : Nat) : Option Nat :=
  (List.range mobiles).find? fun ue => list.active ue && list.rnti ue == rnti

/-- The UE takes the first free place; it is in no list before the next sorting. -/
def addNewUe (mobiles : Nat) (list : UeList) (rnti : Nat) : UeList :=
  match (List.range mobiles).find? fun ue => !list.active ue with
  | none => list
  | some ue =>
    { list with
      active := Function.update list.active ue true
      rnti := Function.update list.rnti ue rnti
      numUes := list.numUes + 1 }

/-- `none` when the search does not end. -/
def prev (mobiles : Nat) (list : UeList) (node : Nat) (ulFlag : Bool) : Option Int :=
  if ulFlag then
    if list.headUl = node then some node else findPrev list.nextUl node mobiles list.headUl
  else
    if list.head = node then some node else findPrev list.next node mobiles list.head

/-- A store at an index of the source; `none` when it is negative. -/
def store (array : Nat → Int) (index value : Int) : Option (Nat → Int) :=
  if index < 0 then none else some (Function.update array index.toNat value)

def unlinkDl (mobiles : Nat) (list : UeList) (ue : Nat) : Option UeList :=
  if list.head = ue then
    some { list with head := list.next ue }
  else do
    let front ← prev mobiles list ue false
    let next ← store list.next front (list.next ue)
    return { list with next := next }

/-- The predecessor is searched in the downlink list here, too. -/
def unlinkUl (mobiles : Nat) (list : UeList) (ue : Nat) : Option UeList :=
  if list.headUl = ue then
    some { list with headUl := list.nextUl ue }
  else do
    let front ← prev mobiles list ue false
    let nextUl ← store list.nextUl front (list.nextUl ue)
    return { list with nextUl := nextUl }

/-- `none` when a search does not end or an array is indexed with a negative number. -/
def rrcMacRemoveUe (mobiles : Nat) (list : UeList) (rnti : Nat) : Option UeList :=
  match findUeId mobiles list rnti with
  | none => some list
  | some ue => do
    let list ← unlinkDl mobiles
      { list with active := Function.update list.active ue false, numUes := list.numUes - 1 } ue
    let list ← unlinkUl mobiles list ue
    return { list with rnti := Function.update list.rnti ue 0 }

inductive Criterion where
  | round | srb12 | hol | lc | cqi | lcp

/-- What the sorters compare of a UE. -/
structure UeKeys where
  round : Nat
  srb12 : Nat
  headSduCreationTime : Nat
  dlBufferTotal : Nat
  cqi : Nat
  lcgidPriority : Int
  ulBufferLcg0 : Nat
  bytesToSchedule : Nat
  preAssignedMcsUl : Nat
  ulOutOfSync : Bool
  dlSlice : Nat

/-- The larger key comes first. -/
def descending (a b : Nat) : Int := if a > b then -1 else if a < b then 1 else 0

def Criterion.compare (a b : UeKeys) : Criterion → Int
  | .round => descending a.round b.round
  | .srb12 => descending a.srb12 b.srb12
  | .hol => descending a.headSduCreationTime b.headSduCreationTime
  | .lc => descending a.dlBufferTotal b.dlBufferTotal
  | .cqi => descending a.cqi b.cqi
  | .lcp => if a.lcgidPriority < b.lcgidPriority then
      -1 else if a.lcgidPriority > b.lcgidPriority then 1 else 0

/-- The first criterion that tells the two apart. -/
def ueDlCompare (criteria : List Criterion) (a b : UeKeys) : Int :=
  match criteria with
  | [] => 0
  | criterion :: rest => if criterion.compare a b ≠ 0 then criterion.compare a b
      else ueDlCompare rest a b

def ueUlCompare (a b : UeKeys) : Int :=
  if descending a.round b.round ≠ 0 then descending a.round b.round
  else if descending a.ulBufferLcg0 b.ulBufferLcg0 ≠ 0 then descending a.ulBufferLcg0 b.ulBufferLcg0
  else if descending a.bytesToSchedule b.bytesToSchedule ≠ 0 then
    descending a.bytesToSchedule b.bytesToSchedule
  else descending a.preAssignedMcsUl b.preAssignedMcsUl

/-- `qsort_r` of the C library, a stable sort. -/
def qsort (compare : Nat → Nat → Int) (list : List Nat) : List Nat :=
  list.insertionSort fun a b => compare a b ≤ 0

def sortUes (mobiles : Nat) (list : UeList) (criteria : List Criterion) (keys : Nat → UeKeys)
    (slice : Nat) : UeList :=
  let selected := (List.range mobiles).filter fun ue =>
    list.active ue && list.rnti ue != 0 && !(keys ue).ulOutOfSync && (keys ue).dlSlice == slice
  let sorted := qsort (fun a b => ueDlCompare criteria (keys a) (keys b)) selected
  { list with next := relink list.next sorted, head := first sorted }

def sortUeUl (mobiles : Nat) (list : UeList) (keys : Nat → UeKeys) : UeList :=
  let selected := (List.range mobiles).filter fun ue =>
    list.active ue && list.rnti ue != 0 && !(keys ue).ulOutOfSync
  let sorted := qsort (fun a b => ueUlCompare (keys a) (keys b)) selected
  { list with nextUl := relink list.nextUl sorted, headUl := first sorted }

inductive UeOp where
  | add (rnti : Nat)
  | sort (criteria : List Criterion) (keys : Nat → UeKeys) (slice : Nat)
  | sortUl (keys : Nat → UeKeys)
  | remove (rnti : Nat)

def ueStep (mobiles : Nat) (list : UeList) : UeOp → Option UeList
  | .add rnti => some (addNewUe mobiles list rnti)
  | .sort criteria keys slice => some (sortUes mobiles list criteria keys slice)
  | .sortUl keys => some (sortUeUl mobiles list keys)
  | .remove rnti => rrcMacRemoveUe mobiles list rnti

/-- The elements met from `head` on, in so many rounds. -/
def elements (next : Nat → Int) : Nat → Int → List Nat
  | 0, _ => []
  | rounds + 1, head => if head < 0 then [] else head.toNat :: elements next rounds
      (next head.toNat)

/-- A finite list of active UEs without duplicates, ended by -1. -/
structure ListOk (mobiles : Nat) (active : Nat → Bool) (next : Nat → Int) (head : Int)
    (ues : List Nat) : Prop where
  chain : Chain next head ues
  distinct : ues.Nodup
  bound : ∀ ue ∈ ues, ue < mobiles
  active : ∀ ue ∈ ues, active ue = true

def numActive (mobiles : Nat) (active : Nat → Bool) : Nat := (List.range mobiles).countP active

structure Intact (mobiles : Nat) (list : UeList) (dl ul : List Nat) : Prop where
  dl : ListOk mobiles list.active list.next list.head dl
  ul : ListOk mobiles list.active list.nextUl list.headUl ul
  numUes : list.numUes = numActive mobiles list.active

theorem initUeList_intact (mobiles : Nat) : Intact mobiles (initUeList mobiles) [] [] where
  dl := ⟨rfl, List.nodup_nil, nofun, nofun⟩
  ul := ⟨rfl, List.nodup_nil, nofun, nofun⟩
  numUes := by simp [initUeList, numActive]

section Elements

variable {next : Nat → Int} {head : Int} {ues : List Nat} {rounds : Nat}

theorem elements_eq (chain : Chain next head ues) (enough : ues.length ≤ rounds) :
    elements next rounds head = ues := by
  induction ues generalizing head rounds with
  | nil =>
    rw [show head = -1 from chain]
    cases rounds <;> rfl
  | cons ue rest ih =>
    obtain ⟨rounds, rfl⟩ :=
      Nat.exists_eq_succ_of_ne_zero (Nat.ne_of_gt (Nat.lt_of_lt_of_le (Nat.succ_pos _) enough))
    obtain ⟨rfl, tail⟩ := chain
    rw [elements, if_neg (by omega), Int.toNat_natCast, ih tail (Nat.le_of_succ_le_succ enough)]

theorem ListOk.length_le {mobiles : Nat} {active : Nat → Bool}
    (ok : ListOk mobiles active next head ues) :
    ues.length ≤ mobiles := by
  have inside : ues ⊆ List.range mobiles := fun ue member => List.mem_range.mpr (ok.bound ue member)
  simpa using (ok.distinct.subperm inside).length_le

end Elements

section Count

variable {mobiles ue : Nat} {active : Nat → Bool}

theorem numActive_update (inside : ue < mobiles) (was : active ue = false) :
    numActive mobiles (Function.update active ue true) = numActive mobiles active + 1 := by
  unfold numActive
  induction mobiles with
  | zero => exact absurd inside (Nat.not_lt_zero _)
  | succ n ih =>
    rw [List.range_succ, List.countP_append, List.countP_append, List.countP_singleton,
      List.countP_singleton]
    by_cases last : ue = n
    · subst last
      have same : (List.range ue).countP (Function.update active ue true) =
          (List.range ue).countP active := by
        apply List.countP_congr
        intro x member
        rw [Function.update_of_ne (Nat.ne_of_lt (List.mem_range.mp member))]
      rw [same, Function.update_self, was]
      rfl
    · rw [Function.update_of_ne (Ne.symm last), ih (by omega)]
      omega

theorem numActive_clear (inside : ue < mobiles) (was : active ue = true) :
    numActive mobiles active = numActive mobiles (Function.update active ue false) + 1 := by
  have back : Function.update (Function.update active ue false) ue true = active := by
    rw [Function.update_idem, ← was, Function.update_eq_self]
  rw [← numActive_update inside (Function.update_self ..), back]

end Count

section Steps

variable {mobiles : Nat} {list : UeList} {dl ul : List Nat}

theorem ListOk.add {active : Nat → Bool} {next : Nat → Int} {head : Int} {ues : List Nat}
    (ok : ListOk mobiles active next head ues) (ue : Nat) :
    ListOk mobiles (Function.update active ue true) next head ues where
  chain := ok.chain
  distinct := ok.distinct
  bound := ok.bound
  active x member := by
    by_cases same : x = ue
    · rw [same, Function.update_self]
    · rw [Function.update_of_ne same, ok.active x member]

theorem addNewUe_intact (intact : Intact mobiles list dl ul) (rnti : Nat) :
    Intact mobiles (addNewUe mobiles list rnti) dl ul := by
  unfold addNewUe
  split
  · exact intact
  · rename_i ue found
    have inside : ue < mobiles := List.mem_range.mp (List.mem_of_find?_eq_some found)
    have free : list.active ue = false := by simpa using List.find?_some found
    refine ⟨intact.dl.add ue, intact.ul.add ue, ?_⟩
    rw [numActive_update inside free, intact.numUes]
    rfl

theorem qsort_ok (compare : Nat → Nat → Int) {select : Nat → Bool} {active : Nat → Bool}
    (next : Nat → Int)
    (choice : ∀ ue, select ue = true → active ue = true) :
    let sorted := qsort compare ((List.range mobiles).filter select)
    ListOk mobiles active (relink next sorted) (first sorted) sorted := by
  intro sorted
  have perm : sorted.Perm ((List.range mobiles).filter select) := List.perm_insertionSort _ _
  have distinct : sorted.Nodup := perm.nodup_iff.mpr (List.nodup_range.filter _)
  have member (ue : Nat) (inside : ue ∈ sorted) : ue < mobiles ∧ select ue = true := by
    have := List.mem_filter.mp (perm.mem_iff.mp inside)
    exact ⟨List.mem_range.mp this.1, this.2⟩
  exact ⟨relink_chain distinct, distinct, fun ue inside => (member ue inside).1,
    fun ue inside => choice ue (member ue inside).2⟩

theorem sortUes_intact (intact : Intact mobiles list dl ul) (criteria : List Criterion)
    (keys : Nat → UeKeys)
    (slice : Nat) :
    ∃ sorted, Intact mobiles (sortUes mobiles list criteria keys slice) sorted ul := by
  refine ⟨_, qsort_ok _ list.next ?_, intact.ul, intact.numUes⟩
  intro ue selected
  simp only [Bool.and_eq_true] at selected
  exact selected.1.1.1

theorem sortUeUl_intact (intact : Intact mobiles list dl ul) (keys : Nat → UeKeys) :
    ∃ sorted, Intact mobiles (sortUeUl mobiles list keys) dl sorted := by
  refine ⟨_, intact.dl, qsort_ok _ list.nextUl ?_, intact.numUes⟩
  intro ue selected
  simp only [Bool.and_eq_true] at selected
  exact selected.1.1

end Steps

section Removal

variable {mobiles ue : Nat} {list : UeList} {dl ul : List Nat}

/-- An element of a list without duplicates is its head or stands behind another. -/
theorem head_or_behind {ues : List Nat} (member : ue ∈ ues) (distinct : ues.Nodup) :
    (∃ after, ues = ue :: after ∧ ues.erase ue = after) ∨
    ∃ before front after, ues = before ++ front :: ue :: after ∧
      ues.erase ue = before ++ front :: after := by
  obtain ⟨start, after, rfl⟩ := List.append_of_mem member
  have outside : ue ∉ start := fun inside => by
    have apart := (List.nodup_append.mp distinct).2.2
    exact apart ue inside ue List.mem_cons_self rfl
  have erased : (start ++ ue :: after).erase ue = start ++ after := by
    rw [List.erase_append_right _ outside, List.erase_cons_head]
  obtain rfl | ⟨before, front, rfl⟩ := List.eq_nil_or_concat start
  · exact .inl ⟨after, rfl, erased⟩
  · exact .inr ⟨before, front, after, by simp, by rw [erased]; simp⟩

theorem ListOk.erase {active : Nat → Bool} {next next' : Nat → Int} {head head' : Int}
    {ues : List Nat}
    (ok : ListOk mobiles active next head ues) (chain : Chain next' head' (ues.erase ue)) :
    ListOk mobiles (Function.update active ue false) next' head' (ues.erase ue) where
  chain := chain
  distinct := ok.distinct.erase ue
  bound x member := ok.bound x (List.mem_of_mem_erase member)
  active x member := by
    have other : x ≠ ue := ((List.Nodup.mem_erase_iff ok.distinct).mp member).1
    rw [Function.update_of_ne other, ok.active x (List.mem_of_mem_erase member)]

/-- The downlink list without the UE; the rest of the record is kept. -/
structure UnlinkedDl (list after : UeList) (dl : List Nat) : Prop where
  chain : Chain after.next after.head dl
  rest : after = { list with next := after.next, head := after.head }

theorem unlinkDl_found (chain : Chain list.next list.head dl) (distinct : dl.Nodup)
    (short : dl.length ≤ mobiles)
    (member : ue ∈ dl) : ∃ after, unlinkDl mobiles list ue = some after ∧
    UnlinkedDl list after (dl.erase ue) := by
  obtain ⟨after, rfl, erased⟩ | ⟨before, front, after, rfl, erased⟩ :=
    head_or_behind member distinct
  · obtain ⟨head, tail⟩ := chain
    refine ⟨{ list with head := list.next ue }, by rw [unlinkDl, if_pos head], ?_, rfl⟩
    rw [erased]
    exact tail
  · have later : list.head ≠ ue := fun same => behind_ne_head distinct (chain.head_iff.mp same)
    have found : findPrev list.next ue mobiles list.head = some (front : Int) := by
      refine findPrev_found chain distinct ?_
      rw [List.length_append, List.length_cons] at short
      omega
    refine ⟨{ list with next := Function.update list.next front (list.next ue) }, ?_, ?_, rfl⟩
    · rw [unlinkDl, if_neg later, prev, if_neg Bool.false_ne_true, if_neg later, found]
      rfl
    · rw [erased]
      exact chain.unlink distinct

theorem unlinkDl_absent (chain : Chain list.next list.head dl) (short : dl.length ≤ mobiles)
    (absent : ue ∉ dl) :
    prev mobiles list ue false = some (-1) ∧ list.head ≠ ue := by
  have later : list.head ≠ ue := by
    intro same
    obtain ⟨others, rfl⟩ := chain.head_iff.mp same
    exact absent List.mem_cons_self
  refine ⟨?_, later⟩
  rw [prev, if_neg Bool.false_ne_true, if_neg later]
  exact findPrev_absent chain (chain.next_ne absent) short

/-- A UE is removed as it should be exactly when it is in the downlink list and is the head of
the uplink list: behind another one its predecessor is sought where it no longer is. -/
theorem rrcMacRemoveUe_iff {rnti : Nat} (intact : Intact mobiles list dl ul)
    (found : findUeId mobiles list rnti = some ue) :
    (∃ after, rrcMacRemoveUe mobiles list rnti = some after ∧
      Intact mobiles after (dl.erase ue) (ul.erase ue)) ↔ ue ∈ dl ∧ list.headUl = ue := by
  have inside : ue < mobiles := List.mem_range.mp (List.mem_of_find?_eq_some found)
  have was : list.active ue = true := by
    have holds := List.find?_some found
    simp only [Bool.and_eq_true] at holds
    exact holds.1
  have short := intact.dl.length_le
  have unfolded : rrcMacRemoveUe mobiles list rnti =
      (unlinkDl mobiles
        { list with active := Function.update list.active ue false, numUes := list.numUes - 1 }
        ue).bind
        fun list => (unlinkUl mobiles list ue).bind fun list =>
          some { list with rnti := Function.update list.rnti ue 0 } := by
    rw [rrcMacRemoveUe, found]
    rfl
  rw [unfolded]
  generalize cleared :
    ({ list with active := Function.update list.active ue false, numUes := list.numUes - 1 } :
    UeList) =
    start
  have chain : Chain start.next start.head dl := cleared ▸ intact.dl.chain
  by_cases member : ue ∈ dl
  · obtain ⟨unlinked, ran, chainDl, rest⟩ := unlinkDl_found chain intact.dl.distinct short member
    rw [ran, Option.bind_some]
    have headUl : unlinked.headUl = list.headUl := by
      rw [rest, ← cleared]
    have nextUl : unlinked.nextUl = list.nextUl := by
      rw [rest, ← cleared]
    by_cases head : list.headUl = ue
    · refine iff_of_true ⟨_, by rw [unlinkUl, if_pos (headUl.trans head)]; rfl, ?_⟩ ⟨member, head⟩
      obtain ⟨after, rfl⟩ := intact.ul.chain.head_iff.mp head
      refine ⟨?_, ?_, ?_⟩
      · rw [rest, ← cleared]
        exact intact.dl.erase chainDl
      · rw [rest, ← cleared]
        refine intact.ul.erase ?_
        rw [List.erase_cons_head]
        exact intact.ul.chain.2
      · rw [rest, ← cleared]
        have count := numActive_clear inside was
        have total := intact.numUes
        simp only
        omega
    · refine iff_of_false ?_ fun right => head right.2
      rintro ⟨after, ended, -⟩
      have gone : ue ∉ dl.erase ue :=
        fun still => ((List.Nodup.mem_erase_iff intact.dl.distinct).mp still).1 rfl
      have absent := unlinkDl_absent chainDl (Nat.le_trans List.erase_sublist.length_le short) gone
      rw [unlinkUl, if_neg (headUl ▸ head), absent.1] at ended
      exact nomatch ended
  · refine iff_of_false ?_ fun right => member right.1
    rintro ⟨after, ended, -⟩
    have absent := unlinkDl_absent chain short member
    rw [unlinkDl, if_neg absent.2, absent.1] at ended
    exact nomatch ended

end Removal

def Removable (mobiles : Nat) (list : UeList) : UeOp → Prop
  | .remove rnti => ∀ ue ∈ findUeId mobiles list rnti,
    ue ∈ elements list.next mobiles list.head ∧ list.headUl = ue
  | _ => True

/-- What a step does to the two lists: a removal takes the UE out of both, and a step that is
no sorting moves nothing else. -/
def Keeps (mobiles : Nat) (list : UeList) (dl ul dl' ul' : List Nat) : UeOp → Prop
  | .add _ => dl' = dl ∧ ul' = ul
  | .sort .. => ul' = ul
  | .sortUl _ => dl' = dl
  | .remove rnti =>
    match findUeId mobiles list rnti with
    | none => dl' = dl ∧ ul' = ul
    | some ue => dl' = dl.erase ue ∧ ul' = ul.erase ue

theorem ueStep_intact {mobiles : Nat} {list : UeList} {dl ul : List Nat}
    (intact : Intact mobiles list dl ul) (op : UeOp)
    (removable : Removable mobiles list op) :
    ∃ after dl' ul', ueStep mobiles list op = some after ∧ Intact mobiles after dl' ul' ∧
      Keeps mobiles list dl ul dl' ul' op := by
  cases op with
  | add rnti => exact ⟨_, dl, ul, rfl, addNewUe_intact intact rnti, rfl, rfl⟩
  | sort criteria keys slice =>
    obtain ⟨sorted, intact⟩ := sortUes_intact intact criteria keys slice
    exact ⟨_, sorted, ul, rfl, intact, rfl⟩
  | sortUl keys =>
    obtain ⟨sorted, intact⟩ := sortUeUl_intact intact keys
    exact ⟨_, dl, sorted, rfl, intact, rfl⟩
  | remove rnti =>
    simp only [Keeps, ueStep]
    cases found : findUeId mobiles list rnti with
    | none => exact ⟨list, dl, ul, by rw [rrcMacRemoveUe, found], intact, rfl, rfl⟩
    | some ue =>
      obtain ⟨member, head⟩ := removable ue found
      rw [elements_eq intact.dl.chain intact.dl.length_le] at member
      obtain ⟨after, ran, intact⟩ := (rrcMacRemoveUe_iff intact found).mpr ⟨member, head⟩
      exact ⟨after, _, _, ran, intact, rfl, rfl⟩

/-- In every run whose removals the lists can take, both lists are intact before and after
every step, and a removal takes exactly the removed UE out of both. -/
theorem ueRun_intact (mobiles : Nat) {ops : List UeOp} {op : UeOp}
    (meets : Run.Meets (ueStep mobiles) (Removable mobiles) (initUeList mobiles) (ops ++ [op])) :
    ∃ list after dl ul dl' ul', Run.run (ueStep mobiles) (initUeList mobiles) ops = some list ∧
      ueStep mobiles list op = some after ∧ Intact mobiles list dl ul ∧
      Intact mobiles after dl' ul' ∧
      Keeps mobiles list dl ul dl' ul' op := by
  obtain ⟨first, last⟩ := meets.append
  have keep (list : UeList) (op : UeOp) (inv : ∃ dl ul, Intact mobiles list dl ul)
      (removable : Removable mobiles list op) :
      ∃ after, ueStep mobiles list op = some after ∧ ∃ dl ul, Intact mobiles after dl ul := by
    obtain ⟨dl, ul, intact⟩ := inv
    obtain ⟨after, dl', ul', ran, intact, -⟩ := ueStep_intact intact op removable
    exact ⟨after, ran, dl', ul', intact⟩
  obtain ⟨list, ran, dl, ul, intact⟩ :=
    Run.run_invariant_meets keep ⟨[], [], initUeList_intact mobiles⟩ first
  obtain ⟨after, dl', ul', stepped, next, kept⟩ := ueStep_intact intact op (last list ran).1
  exact ⟨list, after, dl, ul, dl', ul', ran, stepped, intact, next, kept⟩

/-- UEs that nothing tells apart. -/
def sameKeys : UeKeys where
  round := 8
  srb12 := 0
  headSduCreationTime := 0
  dlBufferTotal := 0
  cqi := 0
  lcgidPriority := 0
  ulBufferLcg0 := 0
  bytesToSchedule := 0
  preAssignedMcsUl := 0
  ulOutOfSync := false
  dlSlice := 0

def twoUes : List UeOp :=
  [.add 0x1234, .add 0x5678, .sort [.round] (fun _ => sameKeys) 0, .sortUl fun _ => sameKeys]

theorem ueRun_intact_twoUes :
    Run.Meets (ueStep 16) (Removable 16) (initUeList 16) (twoUes ++ [.remove 0x1234]) ∧
    ∃ list after dl ul dl' ul', Run.run (ueStep 16) (initUeList 16) twoUes = some list ∧
      ueStep 16 list (.remove 0x1234) = some after ∧ Intact 16 list dl ul ∧
      Intact 16 after dl' ul' ∧
      Keeps 16 list dl ul dl' ul' (.remove 0x1234) := by
  have meets : Run.Meets (ueStep 16) (Removable 16) (initUeList 16)
      (twoUes ++ [.remove 0x1234]) := by
    refine ⟨trivial, ?_⟩
    rintro _ ⟨⟩
    refine ⟨trivial, ?_⟩
    rintro _ ⟨⟩
    refine ⟨trivial, ?_⟩
    rintro _ ⟨⟩
    refine ⟨trivial, ?_⟩
    rintro _ ⟨⟩
    refine ⟨?_, fun _ _ => trivial⟩
    intro ue found
    obtain rfl : ue = 0 := Option.some.inj (found.symm.trans (by decide +kernel))
    exact ⟨by decide +kernel, by decide +kernel⟩
  exact ⟨meets, ueRun_intact 16 meets⟩

/-- A UE that is in no list yet is removed, or one that stands behind another in the uplink
list: an array is indexed with -1. -/
theorem ueRun_negative_index :
    (Run.run (ueStep 16) (initUeList 16) [.add 0x1234, .remove 0x1234]).isNone ∧
    (Run.run (ueStep 16) (initUeList 16) (twoUes ++ [.remove 0x5678])).isNone := by
  decide +kernel

end OpenAir.Mac
