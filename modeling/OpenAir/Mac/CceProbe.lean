import OpenAir.Lib.Writes
import OpenAir.Mac.Cce

/-! The feasibility probe of the eNB: a DCI is appended to the list of its kind, the CCEs are
allocated, and the DCI is taken off again. -/
namespace OpenAir.Mac.Cce

abbrev maxNumDlPdu : Nat := 100

abbrev maxNumHiDci0Pdu : Nat := 100

/-- A PDU of one of the two lists. -/
inductive Slot where
  | dl (i : Nat)
  | ul (i : Nat)
deriving DecidableEq

structure PduLists where
  dl : List DlPdu
  ul : List HiDci0Pdu
  /-- `cce_idx` or `cce_index` of a PDU. -/
  cce : Slot → UInt8
  numberPdcchOfdmSymbols : Nat

def PduLists.holds (lists : PduLists) : Slot → Prop
  | .dl i => i < lists.dl.length
  | .ul i => i < lists.ul.length

structure PduLists.Fits (lists : PduLists) : Prop where
  dl : lists.dl.length ≤ maxNumDlPdu
  ul : lists.ul.length ≤ maxNumHiDci0Pdu

abbrev Collected : Type := { lists : PduLists // lists.Fits }

/-- The DCIs in the order of the three loops. -/
def slots (dl : List DlPdu) (ul : List HiDci0Pdu) : List (Slot × Request) :=
  dl.zipIdx.filterMap (fun
    | (.dci 2 dci, i) => some (.dl i, ⟨true, dci⟩)
    | _ => none) ++
  (ul.zipIdx.filterMap (fun
    | (.dci dci, i) => some (.ul i, ⟨false, dci⟩)
    | _ => none) ++
  dl.zipIdx.filterMap (fun
    | (.dci 1 dci, i) => some (.dl i, ⟨false, dci⟩)
    | _ => none))

/-- One try: the first CCE of each DCI is stored as soon as it is found, unless this is a test
only. -/
def placeAll (testOnly : Bool) (nCce subframe : Nat) : List (Slot × Request) → Nat → CceTable →
    (Slot → UInt8) →
    Except CceFault ((Slot → UInt8) × Bool)
  | [], _, _, cce => .ok (cce, true)
  | (slot, request) :: rest, used, table, cce =>
    let length := request.dci.level.cces
    if nCce < used + length then .ok (cce, false)
    else
      match getNcceOffset table length nCce request.common request.dci.rnti.toNat subframe with
      | .error fault => .error fault
      | .ok none => .ok (cce, false)
      | .ok (some start) =>
        placeAll testOnly nCce subframe rest (used + length) (table.mark start length)
          (if testOnly then cce else Function.update cce slot (UInt8.ofNat start))

def placeAgain (testOnly : Bool) (cell : Cell) (subframe : Nat) (list : List (Slot × Request)) :
    Nat → Nat → (Slot → UInt8) →
    Except CceFault ((Slot → UInt8) × Nat × Bool)
  | 0, _, _ => .error .running
  | rounds + 1, symbols, cce =>
    match placeAll testOnly (getnCceMax cell symbols subframe) subframe list 0
        (fun _ => false) cce with
    | .error fault => .error fault
    | .ok (cce, true) => .ok (cce, symbols, true)
    | .ok (cce, false) =>
      if symbols = maxSymbol cell subframe then .ok (cce, symbols, false)
      else placeAgain testOnly cell subframe list rounds (symbols + 1) cce

/-- `allocate_CCEs` with the lists it stores to, and what it returns. -/
def allocateLists (testOnly : Bool) (cell : Cell) (subframe : Nat) (lists : PduLists) :
    Except CceFault (PduLists × Int) :=
  match placeAgain testOnly cell subframe (slots lists.dl lists.ul) 3 1 lists.cce with
  | .error fault => .error fault
  | .ok (cce, symbols, done) =>
    .ok ({ lists with cce := cce, numberPdcchOfdmSymbols := symbols }, if done then 0 else -1)

def PduLists.append (lists : PduLists) (formatFlag : Nat) (candidate : Dci) : PduLists :=
  if formatFlag ≠ 2 then
    { lists with dl := lists.dl ++ [.dci (if formatFlag = 0 then 2 else 1) candidate] }
  else { lists with ul := lists.ul ++ [.dci candidate] }

/-- The count of the candidate's list is decremented. -/
def PduLists.takeOff (lists : PduLists) (formatFlag : Nat) : PduLists :=
  if formatFlag ≠ 2 then { lists with dl := lists.dl.dropLast }
    else { lists with ul := lists.ul.dropLast }

def PduLists.full (lists : PduLists) (formatFlag : Nat) : Prop :=
  if formatFlag ≠ 2 then lists.dl.length = maxNumDlPdu else lists.ul.length = maxNumHiDci0Pdu

instance (lists : PduLists) (formatFlag : Nat) : Decidable (lists.full formatFlag) :=
  inferInstanceAs (Decidable (if formatFlag ≠ 2 then _ else _))

/-- With a full list the result is that of a feasible DCI. The allocation is not for test only. -/
def cceAllocationInfeasible (cell : Cell) (subframe formatFlag : Nat) (candidate : Dci)
    (lists : PduLists) :
    Except CceFault (Bool × PduLists) :=
  if lists.full formatFlag then .ok (false, lists)
  else
    match allocateLists false cell subframe (lists.append formatFlag candidate) with
    | .error fault => .error fault
    | .ok (lists, ret) => .ok (ret == -1, lists.takeOff formatFlag)

/-- The appended list fits, and the allocation succeeds. -/
def Allocable (cell : Cell) (subframe formatFlag : Nat) (candidate : Dci)
    (lists : PduLists) : Prop :=
  (lists.append formatFlag candidate).Fits ∧
    ∃ placed, allocateCces cell subframe (lists.append formatFlag candidate).dl
    (lists.append formatFlag candidate).ul 3 = .ok (some placed)

/-- A feasible DCI can be allocated, and the PDUs of the lists are as before. -/
def Honest (cell : Cell) (subframe formatFlag : Nat) (candidate : Dci) (lists : PduLists) : Prop :=
  ∃ infeasible after, cceAllocationInfeasible cell subframe formatFlag candidate lists =
    .ok (infeasible, after) ∧
    (infeasible = false → Allocable cell subframe formatFlag candidate lists) ∧
    after.dl = lists.dl ∧ after.ul = lists.ul ∧ ∀ slot, lists.holds slot →
      after.cce slot = lists.cce slot

/-! ### Where the tries put the DCIs -/

/-- The CCEs that a try finds before it ends. -/
def found (nCce subframe : Nat) : List (Slot × Request) → Nat → CceTable → List (Slot × UInt8)
  | [], _, _ => []
  | (slot, request) :: rest, used, table =>
    let length := request.dci.level.cces
    if nCce < used + length then []
    else
      match getNcceOffset table length nCce request.common request.dci.rnti.toNat subframe with
      | .ok (some start) => (slot, UInt8.ofNat start) :: found nCce subframe rest (used + length)
          (table.mark start length)
      | _ => []

/-- The CCEs found by the tries, from a number of symbols on. -/
def foundFrom (cell : Cell) (subframe : Nat) (list : List (Slot × Request)) : Nat → Nat →
    List (Slot × UInt8)
  | 0, _ => []
  | rounds + 1, symbols =>
    found (getnCceMax cell symbols subframe) subframe list 0 (fun _ => false) ++
      match allocateAll (getnCceMax cell symbols subframe) subframe (list.map Prod.snd) 0
          fun _ => false with
      | .ok none => if symbols = maxSymbol cell subframe then
          [] else foundFrom cell subframe list rounds (symbols + 1)
      | _ => []

/-- The list has room, the search for the appended list stays in its table, and the last try that
comes to a DCI of the lists finds the CCE that is stored in it already. -/
def Undisturbed (cell : Cell) (subframe formatFlag : Nat) (candidate : Dci)
    (lists : PduLists) : Prop :=
  let appended := lists.append formatFlag candidate
  ¬ lists.full formatFlag ∧
    (∃ result, allocateCces cell subframe appended.dl appended.ul 3 = .ok result) ∧
    ∀ slot, lists.holds slot → ∀ cce,
      Writes.last (foundFrom cell subframe (slots appended.dl appended.ul) 3 1) slot = some cce →
        cce = lists.cce slot

theorem filterMap_zipIdx {α β : Type} {f : α × Nat → Option (Slot × β)} {g : α → Option β}
    (list : List α)
    (same : ∀ entry, (f entry).map Prod.snd = g entry.1) : (list.zipIdx.filterMap f).map Prod.snd =
    list.filterMap g := by
  rw [List.map_filterMap]
  have pointwise : (fun entry => Option.map Prod.snd (f entry)) = g ∘ Prod.fst := funext same
  rw [pointwise, ← List.filterMap_map, List.zipIdx_map_fst]

theorem filterMap_zipIdx_concat {α β : Type} (f : α × Nat → Option β) (list : List α) (last : α) :
    (list ++ [last]).zipIdx.filterMap f = list.zipIdx.filterMap f ++
    (f (last, list.length)).toList := by
  rw [List.zipIdx_append, List.filterMap_append, Nat.zero_add]
  cases found : f (last, list.length) <;> simp [found]

theorem slots_requests (dl : List DlPdu) (ul : List HiDci0Pdu) : (slots dl ul).map Prod.snd =
    requests dl ul := by
  unfold slots requests
  rw [List.map_append, List.map_append]
  congr 1
  · apply filterMap_zipIdx
    rintro ⟨pdu, i⟩
    split <;> simp_all
  · congr 1
    · apply filterMap_zipIdx
      rintro ⟨pdu, i⟩
      cases pdu <;> rfl
    · apply filterMap_zipIdx
      rintro ⟨pdu, i⟩
      split <;> simp_all

section Tries

variable {cell : Cell} {subframe nCce : Nat} {cce : Slot → UInt8}

/-- What the tries leave in the PDUs: for test only nothing is stored. -/
def kept (testOnly : Bool) (cce : Slot → UInt8) (writes : List (Slot × UInt8)) : Slot → UInt8 :=
  if testOnly then cce else Writes.run cce writes

/-- A try that stores is the try of the requests, and its stores. -/
theorem placeAll_eq (testOnly : Bool) (list : List (Slot × Request)) (used : Nat)
    (table : CceTable) :
    placeAll testOnly nCce subframe list used table cce =
      (allocateAll nCce subframe (list.map Prod.snd) used table).map fun result =>
        (kept testOnly cce (found nCce subframe list used table), result.isSome) := by
  induction list generalizing used table cce with
  | nil => cases testOnly <;> rfl
  | cons entry rest ih =>
    obtain ⟨slot, request⟩ := entry
    rw [placeAll, found, List.map_cons, allocateAll]
    by_cases short : nCce < used + request.dci.level.cces
    · rw [if_pos short, if_pos short, if_pos short]
      cases testOnly <;> rfl
    · rw [if_neg short, if_neg short, if_neg short]
      cases getNcceOffset table request.dci.level.cces nCce request.common
          request.dci.rnti.toNat subframe with
      | error fault => rfl
      | ok offset =>
        cases offset with
        | none => cases testOnly <;> rfl
        | some start =>
          simp only [ih]
          cases allocateAll nCce subframe (rest.map Prod.snd) (used + request.dci.level.cces)
            (table.mark start request.dci.level.cces) with
          | error fault => rfl
          | ok result =>
            cases testOnly with
            | false => cases result <;> rfl
            | true => cases result <;> rfl

/-- All the tries: the stores of each, and the success of the last. -/
theorem placeAgain_eq (testOnly : Bool) (list : List (Slot × Request)) (rounds symbols : Nat) :
    (placeAgain testOnly cell subframe list rounds symbols cce).map
      (fun result => (result.1, result.2.2)) =
      (tryAgain cell subframe (list.map Prod.snd) rounds symbols).map fun result =>
        (kept testOnly cce (foundFrom cell subframe list rounds symbols), result.isSome) := by
  induction rounds generalizing symbols cce with
  | zero => rfl
  | succ rounds ih =>
    have joined (first later : List (Slot × UInt8)) : kept testOnly cce (first ++ later) =
        kept testOnly (kept testOnly cce first) later := by
      cases testOnly with
      | false => exact Writes.run_append
      | true => rfl
    rw [placeAgain, placeAll_eq, tryAgain, foundFrom, joined]
    cases allocateAll (getnCceMax cell symbols subframe) subframe (list.map Prod.snd) 0
        fun _ => false with
    | error fault => rfl
    | ok result =>
      cases result with
      | some starts => cases testOnly <;> rfl
      | none =>
        simp only [Except.map, Option.isSome_none]
        by_cases last : symbols = maxSymbol cell subframe
        · simp only [if_pos last]
          cases testOnly <;> rfl
        · simp only [if_neg last]
          exact ih (symbols + 1)

/-- The allocation of the lists is that of their requests; for test only it leaves the PDUs as they
are. -/
theorem allocateLists_eq (testOnly : Bool) (lists : PduLists) :
    (allocateLists testOnly cell subframe lists).map
      (fun result => (result.1.dl, result.1.ul, result.1.cce, result.2)) =
      (allocateCces cell subframe lists.dl lists.ul 3).map fun result =>
        (lists.dl, lists.ul, kept testOnly lists.cce
          (foundFrom cell subframe (slots lists.dl lists.ul) 3 1),
          if result.isSome then 0 else -1) := by
  have all := @placeAgain_eq cell subframe lists.cce testOnly (slots lists.dl lists.ul) 3 1
  rw [slots_requests] at all
  unfold allocateLists allocateCces
  cases tried : tryAgain cell subframe (requests lists.dl lists.ul) 3 1 with
  | error fault =>
    rw [tried] at all
    cases placed : placeAgain testOnly cell subframe (slots lists.dl lists.ul) 3 1 lists.cce with
    | error other =>
      rw [placed] at all
      cases all
      rfl
    | ok result =>
      rw [placed] at all
      exact nomatch all
  | ok starts =>
    rw [tried] at all
    cases placed : placeAgain testOnly cell subframe (slots lists.dl lists.ul) 3 1 lists.cce with
    | error other =>
      rw [placed] at all
      exact nomatch all
    | ok result =>
      rw [placed] at all
      obtain ⟨cce, symbols, done⟩ := result
      cases all
      rfl

/-- Only the PDUs of the list are stored to. -/
theorem found_slots {list : List (Slot × Request)} {used : Nat} {table : CceTable}
    {write : Slot × UInt8}
    (stored : write ∈ found nCce subframe list used table) : write.1 ∈ list.map Prod.fst := by
  induction list generalizing used table with
  | nil => exact nomatch stored
  | cons entry rest ih =>
    simp only [found] at stored
    split at stored
    · exact nomatch stored
    · split at stored
      · obtain rfl | later := List.mem_cons.mp stored
        · exact List.mem_cons_self
        · exact List.mem_cons_of_mem _ (ih later)
      · exact nomatch stored

theorem foundFrom_slots {list : List (Slot × Request)} {rounds symbols : Nat} {write : Slot × UInt8}
    (stored : write ∈ foundFrom cell subframe list rounds symbols) :
    write.1 ∈ list.map Prod.fst := by
  induction rounds generalizing symbols with
  | zero => exact nomatch stored
  | succ rounds ih =>
    rw [foundFrom, List.mem_append] at stored
    obtain first | later := stored
    · exact found_slots first
    · split at later
      · split at later
        · exact nomatch later
        · exact ih later
      · exact nomatch later

end Tries

section Probe

variable {cell : Cell} {subframe formatFlag : Nat} {candidate : Dci}

theorem append_fits (lists : Collected) :
    (lists.1.append formatFlag candidate).Fits ↔ ¬ lists.1.full formatFlag := by
  obtain ⟨lists, fits⟩ := lists
  unfold PduLists.append PduLists.full
  by_cases uplink : formatFlag = 2
  · rw [if_neg (not_not.mpr uplink), if_neg (not_not.mpr uplink)]
    constructor
    · intro more full
      have room := more.ul
      rw [List.length_append, full] at room
      exact Nat.not_succ_le_self _ room
    · intro room
      refine ⟨fits.dl, ?_⟩
      rw [List.length_append]
      exact Nat.lt_of_le_of_ne fits.ul room
  · rw [if_pos uplink, if_pos uplink]
    constructor
    · intro more full
      have room := more.dl
      rw [List.length_append, full] at room
      exact Nat.not_succ_le_self _ room
    · intro room
      refine ⟨?_, fits.ul⟩
      rw [List.length_append]
      exact Nat.lt_of_le_of_ne fits.dl room

theorem append_cce (lists : PduLists) : (lists.append formatFlag candidate).cce = lists.cce := by
  unfold PduLists.append
  split <;> rfl

/-- Taking off undoes the appending, whatever has been stored. -/
theorem takeOff_append (lists after : PduLists)
    (dl : after.dl = (lists.append formatFlag candidate).dl)
    (ul : after.ul = (lists.append formatFlag candidate).ul) :
    (after.takeOff formatFlag).dl = lists.dl ∧ (after.takeOff formatFlag).ul = lists.ul ∧
      (after.takeOff formatFlag).cce = after.cce := by
  unfold PduLists.append at dl ul
  unfold PduLists.takeOff
  by_cases uplink : formatFlag = 2
  · rw [if_neg (not_not.mpr uplink)] at dl ul ⊢
    exact ⟨dl, (congrArg List.dropLast ul).trans List.dropLast_concat, rfl⟩
  · rw [if_pos uplink] at dl ul ⊢
    exact ⟨(congrArg List.dropLast dl).trans List.dropLast_concat, ul, rfl⟩

/-- With room in the list the probe is the allocation of the appended list. -/
theorem cceAllocationInfeasible_room {lists : PduLists} (room : ¬ lists.full formatFlag)
    {result : Option (Nat × List Nat)}
    (allocated : allocateCces cell subframe (lists.append formatFlag candidate).dl
      (lists.append formatFlag candidate).ul 3 = .ok result) :
    ∃ after, cceAllocationInfeasible cell subframe formatFlag candidate lists =
      .ok (result.isNone, after) ∧
      after.dl = lists.dl ∧ after.ul = lists.ul ∧
      after.cce = Writes.run lists.cce (foundFrom cell subframe
        (slots (lists.append formatFlag candidate).dl (lists.append formatFlag candidate).ul) 3
          1) := by
  have all := @allocateLists_eq cell subframe false (lists.append formatFlag candidate)
  rw [allocated, append_cce] at all
  unfold cceAllocationInfeasible
  rw [if_neg room]
  cases stored : allocateLists false cell subframe (lists.append formatFlag candidate) with
  | error fault =>
    rw [stored] at all
    exact nomatch all
  | ok outcome =>
    rw [stored] at all
    obtain ⟨appended, ret⟩ := outcome
    simp only [Except.map, Except.ok.injEq, Prod.mk.injEq] at all
    obtain ⟨dl, ul, cce, returned⟩ := all
    obtain ⟨dl, ul, kept⟩ := takeOff_append lists appended dl ul
    refine ⟨appended.takeOff formatFlag, ?_, dl, ul, kept.trans cce⟩
    cases result with
    | none =>
      subst returned
      rfl
    | some placed =>
      subst returned
      rfl

theorem cceAllocationInfeasible_fault {lists : PduLists} (room : ¬ lists.full formatFlag)
    {fault : CceFault}
    (allocated : allocateCces cell subframe (lists.append formatFlag candidate).dl
      (lists.append formatFlag candidate).ul 3 = .error fault) :
    ∃ other, cceAllocationInfeasible cell subframe formatFlag candidate lists = .error other := by
  have all := @allocateLists_eq cell subframe false (lists.append formatFlag candidate)
  rw [allocated] at all
  unfold cceAllocationInfeasible
  rw [if_neg room]
  cases stored : allocateLists false cell subframe (lists.append formatFlag candidate) with
  | error other => exact ⟨other, rfl⟩
  | ok outcome =>
    rw [stored] at all
    exact nomatch all

/-- Appending a candidate adds its own DCI only. -/
theorem slots_append (lists : PduLists) {entry : Slot × Request}
    (member : entry ∈ slots (lists.append formatFlag candidate).dl
      (lists.append formatFlag candidate).ul)
    (inside : lists.holds entry.1) : entry ∈ slots lists.dl lists.ul := by
  unfold PduLists.append at member
  unfold slots at member ⊢
  split at member
  · simp only [filterMap_zipIdx_concat, List.mem_append] at member ⊢
    obtain (common | own) | uplink | dedicated | own := member
    · exact .inl common
    · split at own
      · rename_i same
        obtain ⟨-, rfl⟩ := Prod.mk.inj same
        obtain rfl := List.mem_singleton.mp own
        exact absurd inside (Nat.lt_irrefl _)
      · exact nomatch own
    · exact .inr (.inl uplink)
    · exact .inr (.inr dedicated)
    · split at own
      · rename_i same
        obtain ⟨-, rfl⟩ := Prod.mk.inj same
        obtain rfl := List.mem_singleton.mp own
        exact absurd inside (Nat.lt_irrefl _)
      · exact nomatch own
  · simp only [filterMap_zipIdx_concat, List.mem_append] at member ⊢
    obtain common | (uplink | own) | dedicated := member
    · exact .inl common
    · exact .inr (.inl uplink)
    · obtain rfl := List.mem_singleton.mp own
      exact absurd inside (Nat.lt_irrefl _)
    · exact .inr (.inr dedicated)

/-- Where the lists hold no DCI yet, a candidate for which there is room disturbs nothing. -/
theorem undisturbed_noDci (ok : CellOk cell subframe) {lists : PduLists}
    (room : ¬ lists.full formatFlag)
    (noDci : slots lists.dl lists.ul = []) :
    Undisturbed cell subframe formatFlag candidate lists := by
  have one : 1 ≤ maxSymbol cell subframe := by
    rw [maxSymbol]
    split <;> decide
  obtain ⟨result, tried, -⟩ :=
    tryAgain_ok ok
    (requests (lists.append formatFlag candidate).dl (lists.append formatFlag candidate).ul)
    Nat.one_pos one (Nat.lt_of_le_of_lt (maxSymbol_le ..) (by decide : 3 < 1 + 3))
  refine ⟨room, ⟨result, tried⟩, fun slot inside cce stored => ?_⟩
  obtain ⟨entry, member, rfl⟩ := List.mem_map.mp (foundFrom_slots (Writes.last_mem stored))
  have held := slots_append lists member inside
  rw [noDci] at held
  exact absurd held List.not_mem_nil

end Probe

/-- The probe keeps its promise exactly where it disturbs nothing. -/
theorem probe_honest_iff (cell : Cell) (subframe formatFlag : Nat) (candidate : Dci)
    (lists : Collected) :
    Honest cell subframe formatFlag candidate lists.1 ↔
    Undisturbed cell subframe formatFlag candidate lists.1 := by
  obtain ⟨lists, bounded⟩ := lists
  have fits := @append_fits formatFlag candidate ⟨lists, bounded⟩
  by_cases full : lists.full formatFlag
  · constructor
    · rintro ⟨infeasible, after, probed, feasible, -⟩
      unfold cceAllocationInfeasible at probed
      rw [if_pos full] at probed
      cases probed
      exact absurd full (fits.mp (feasible rfl).1)
    · intro undisturbed
      exact absurd full undisturbed.1
  · cases allocated : allocateCces cell subframe (lists.append formatFlag candidate).dl
      (lists.append formatFlag candidate).ul 3 with
    | error fault =>
      obtain ⟨other, probed⟩ := cceAllocationInfeasible_fault full allocated
      constructor
      · rintro ⟨infeasible, after, returned, -⟩
        exact nomatch probed.symm.trans returned
      · rintro ⟨-, ⟨result, returned⟩, -⟩
        exact nomatch allocated.symm.trans returned
    | ok result =>
      obtain ⟨stored, probed, dl, ul, cce⟩ := cceAllocationInfeasible_room full allocated
      constructor
      · rintro ⟨infeasible, after, returned, -, -, -, same⟩
        cases probed.symm.trans returned
        refine ⟨full, ⟨result, allocated⟩, fun slot inside => ?_⟩
        have kept := same slot inside
        rw [cce] at kept
        exact Writes.run_unchanged_iff.mp kept
      · rintro ⟨-, -, same⟩
        refine ⟨result.isNone, stored, probed,
          fun feasible => ⟨fits.mpr full, ?_⟩, dl, ul, fun slot inside => ?_⟩
        · cases result with
          | none => exact nomatch feasible
          | some placed => exact ⟨placed, allocated⟩
        · rw [cce]
          exact Writes.run_unchanged_iff.mpr (same slot inside)

/-- A common DCI that no CCE is stored in yet. -/
def sib1 : PduLists where
  dl := [.dci 2 ⟨.l4, 0xFFFF⟩]
  ul := []
  cce _ := 0
  numberPdcchOfdmSymbols := 1

def crammed : PduLists where
  dl := List.replicate 100 (.dci 2 ⟨.l8, 0xFFFF⟩)
  ul := []
  cce _ := 0
  numberPdcchOfdmSymbols := 1

theorem probe_stores : sib1.Fits ∧ crammed.Fits ∧
    ¬ Honest ⟨.n25, .one, false, none⟩ 0 1 ⟨.l1, 0x1234⟩ sib1 ∧
    ¬ Honest ⟨.n25, .one, false, none⟩ 0 1 ⟨.l1, 0x1234⟩ crammed := by
  refine ⟨⟨by decide, by decide⟩, ⟨by decide, by decide⟩, ?_, ?_⟩
  · rintro ⟨infeasible, after, returned, -, -, -, same⟩
    have stored : (cceAllocationInfeasible ⟨.n25, .one, false, none⟩ 0 1 ⟨.l1, 0x1234⟩ sib1).map
        (fun result => result.2.cce (.dl 0)) = .ok 8 := by decide +kernel
    rw [returned] at stored
    have zero : after.cce (.dl 0) = 0 := same (.dl 0) Nat.one_pos
    have eight : after.cce (.dl 0) = 8 := Except.ok.inj stored
    exact absurd (zero.symm.trans eight) (by decide)
  · rintro ⟨infeasible, after, returned, feasible, -⟩
    have full : crammed.full 1 := by decide
    unfold cceAllocationInfeasible at returned
    rw [if_pos full] at returned
    cases returned
    exact absurd (feasible rfl).1.dl (by decide)

end OpenAir.Mac.Cce
