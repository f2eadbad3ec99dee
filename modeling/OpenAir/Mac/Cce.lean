import Mathlib.Algebra.Group.Nat.Defs
import Mathlib.Data.List.Basic

/-! Control channel elements: the eNB places the DCIs of a subframe, the UE looks for them.
`getnquad`, `getnCCE` and `getmi` of the MAC are `get_nquad`, `get_nCCE` and `get_mi` of the
physical layer. -/
namespace OpenAir.Mac.Cce

inductive Bandwidth where
  | n6 | n15 | n25 | n50 | n75 | n100
deriving DecidableEq

def Bandwidth.toPrb : Bandwidth → Nat
  | n6 => 6
  | n15 => 15
  | n25 => 25
  | n50 => 50
  | n75 => 75
  | n100 => 100

inductive PhichResource where
  | oneSixth | half | one | two
deriving DecidableEq

def PhichResource.times6 : PhichResource → Nat
  | oneSixth => 1
  | half => 3
  | one => 6
  | two => 12

structure Cell where
  dlBandwidth : Bandwidth
  phichResource : PhichResource
  /-- `Ncp == 1` -/
  extendedCp : Bool
  /-- The subframe assignment; without a value under FDD. -/
  tdd : Option (Fin 7)
deriving DecidableEq

/-- `Ngroup_PHICH`, a `uint8_t`. -/
def Cell.groups (cell : Cell) (mi : Nat) : Nat :=
  let n := cell.phichResource.times6 * cell.dlBandwidth.toPrb
  let groups := if n % 48 > 0 then n / 48 + 1 else n / 48
  let groups := if cell.extendedCp then groups <<< 1 else groups
  groups * mi % 256

/-- `Nreg`; a bandwidth without a case has no value. -/
def nReg (prb symbols : Nat) : Option Nat :=
  if 0 < symbols ∧ symbols < 4 then
    if prb = 6 then some (12 + (symbols - 1) * 18)
    else if prb = 25 then some (50 + (symbols - 1) * 75)
    else if prb = 50 then some (100 + (symbols - 1) * 150)
    else if prb = 100 then some (200 + (symbols - 1) * 300)
    else none
  else some 0

/-- The difference is cut to 16 bits. -/
def getnquad (cell : Cell) (symbols mi : Nat) : Nat :=
  match nReg cell.dlBandwidth.toPrb symbols with
  | none => 0
  | some nReg => (((nReg : Int) - 4 - 3 * cell.groups mi) % 65536).toNat

def getnCce (cell : Cell) (symbols mi : Nat) : Nat := getnquad cell symbols mi / 9

def getmi (cell : Cell) (subframe : Nat) : Nat :=
  match cell.tdd with
  | none => 1
  | some 0 => if subframe = 0 ∨ subframe = 5 then 2 else 1
  | some 1 => if subframe = 0 ∨ subframe = 5 then 0 else 1
  | some 2 => if subframe = 3 ∨ subframe = 8 then 1 else 0
  | some 3 => if subframe = 0 ∨ subframe = 8 ∨ subframe = 9 then 1 else 0
  | some 4 => if subframe = 8 ∨ subframe = 9 then 1 else 0
  | some 5 => if subframe = 8 then 1 else 0
  | some 6 => 1

def getnCceMax (cell : Cell) (symbols subframe : Nat) : Nat :=
  getnCce cell symbols (getmi cell subframe)

def isSSf (cell : Cell) (subframe : Nat) : Bool :=
  match cell.tdd with
  | none => false
  | some assignment =>
    subframe = 1 ||
      (subframe = 6 && (assignment = 0 || assignment = 1 || assignment = 2 || assignment = 6))

def maxSymbol (cell : Cell) (subframe : Nat) : Nat := if isSSf cell subframe then 2 else 3

inductive Level where
  | l1 | l2 | l4 | l8
deriving DecidableEq

def Level.cces : Level → Nat
  | l1 => 1
  | l2 => 2
  | l4 => 4
  | l8 => 8

inductive CceFault where
  | divisionByZero
  /-- An index into `CCE_table` that is not below its size. -/
  | outsideTable
  | devParam
  /-- The rounds are used up. -/
  | running
deriving DecidableEq

abbrev cceTableSize : Nat := 800

/-- Which elements of `CCE_table` are 1. -/
abbrev CceTable := Nat → Bool

/-- `search_space_free`: the elements from `cce` on are read until one is taken. Only the search
of the UE-specific space compares with `nCCE`. -/
def spaceFree (table : CceTable) (limit : Option Nat) (cce : Nat) : Nat → Except CceFault Bool
  | 0 => .ok true
  | left + 1 =>
    if limit.any (· ≤ cce) then .ok false
    else if cce < cceTableSize then
      if table cce then .ok false else spaceFree table limit (cce + 1) left
    else .error .outsideTable

def firstFree (table : CceTable) (limit : Option Nat) (length : Nat) : List Nat →
    Except CceFault (Option Nat)
  | [] => .ok none
  | start :: rest =>
    match spaceFree table limit start length with
    | .error fault => .error fault
    | .ok true => .ok (some start)
    | .ok false => firstFree table limit length rest

def CceTable.mark (table : CceTable) (start length : Nat) : CceTable :=
  fun cce => table cce || (start ≤ cce && cce < start + length)

/-- `Yk` before it is reduced. -/
def ykOf (rnti : Nat) : Nat → Nat
  | 0 => rnti * 39827 % 65537
  | subframe + 1 => ykOf rnti subframe * 39827 % 65537

/-- Candidates of the common space, in the order in which the eNB tries them. -/
def commonCandidates (length nCce : Nat) : List Nat :=
  ((List.range (min (if length = 4 then 4 else 2) (nCce / length))).map (· * length)).reverse

/-- `nb_candidates` of the UE-specific space. -/
def specificCount (length : Nat) : Option Nat :=
  if length = 1 ∨ length = 2 then some 6 else if length = 4 ∨ length = 8 then some 2 else none

def specificCandidates (count length nCce yk : Nat) : List Nat :=
  (List.range count).map fun m => (yk + m) % (nCce / length) * length

def getNcceOffset (table : CceTable) (length nCce : Nat) (common : Bool) (rnti subframe : Nat) :
    Except CceFault (Option Nat) :=
  if common then
    if length = 0 then .error .divisionByZero
    else firstFree table none length (commonCandidates length nCce)
  else if length = 0 ∨ nCce / length = 0 then .error .divisionByZero
  else
    match specificCount length with
    | none => .error .devParam
    | some count =>
      firstFree table (some nCce) length
        (specificCandidates count length nCce (ykOf rnti subframe % (nCce / length)))

structure Dci where
  level : Level
  rnti : UInt16
deriving DecidableEq

inductive DlPdu where
  | dci (rntiType : Nat) (dci : Dci)
  | other

inductive HiDci0Pdu where
  | dci (dci : Dci)
  | hi

structure Request where
  common : Bool
  dci : Dci
deriving DecidableEq

/-- The DCIs in the order of the three loops: common, uplink, UE-specific. -/
def requests (dl : List DlPdu) (ul : List HiDci0Pdu) : List Request :=
  dl.filterMap (fun
    | .dci 2 dci => some ⟨true, dci⟩
    | _ => none) ++
  (ul.filterMap (fun
    | .dci dci => some ⟨false, dci⟩
    | .hi => none) ++
  dl.filterMap (fun
    | .dci 1 dci => some ⟨false, dci⟩
    | _ => none))

/-- One try with a number of symbols: the first CCEs of the DCIs, if all of them fit. -/
def allocateAll (nCce subframe : Nat) : List Request → Nat → CceTable →
    Except CceFault (Option (List Nat))
  | [], _, _ => .ok (some [])
  | request :: rest, used, table =>
    let length := request.dci.level.cces
    if nCce < used + length then .ok none
    else
      match getNcceOffset table length nCce request.common request.dci.rnti.toNat subframe with
      | .error fault => .error fault
      | .ok none => .ok none
      | .ok (some start) =>
        match allocateAll nCce subframe rest (used + length) (table.mark start length) with
        | .error fault => .error fault
        | .ok none => .ok none
        | .ok (some starts) => .ok (some (start :: starts))

/-- From `try_again` on: the number of symbols and the first CCEs, or no value where the function
returns -1. -/
def tryAgain (cell : Cell) (subframe : Nat) (list : List Request) : Nat → Nat →
    Except CceFault (Option (Nat × List Nat))
  | 0, _ => .error .running
  | rounds + 1, symbols =>
    match allocateAll (getnCceMax cell symbols subframe) subframe list 0 fun _ => false with
    | .error fault => .error fault
    | .ok (some starts) => .ok (some (symbols, starts))
    | .ok none => if symbols = maxSymbol cell subframe then
        .ok none else tryAgain cell subframe list rounds (symbols + 1)

def allocateCces (cell : Cell) (subframe : Nat) (dl : List DlPdu) (ul : List HiDci0Pdu)
    (rounds : Nat) :
    Except CceFault (Option (Nat × List Nat)) :=
  tryAgain cell subframe (requests dl ul) rounds 1

/-- The CCEs at which `dci_decoding_procedure0` starts to decode; a candidate is left out when
one of its CCEs is marked in the maps as part of a DCI found before. The maps cover 96 elements,
more than any cell has. -/
def ueCandidates (cell : Cell) (symbols subframe : Nat) (common : Bool) (crnti length : Nat)
    (cceMap : Nat → Bool) :
    List Nat :=
  let nCce := getnCce cell symbols (getmi cell subframe)
  if nCce > getnCce cell 3 1 then []
  else if nCce < length then []
  else
    let yk := if common then 0 else ykOf crnti subframe % (nCce / length)
    let count := if common then (if length = 4 then 4 else 2) else (specificCount length).getD 0
    let count := if count * length > nCce then nCce / length else count
    ((List.range count).map fun m => (yk + m) % (nCce / length) * length).filter fun start =>
      (List.range length).all fun l => !cceMap (start + l)

structure Placed (cell : Cell) (subframe : Nat) (list : List Request) (symbols : Nat)
    (starts : List Nat) : Prop where
  complete : starts.length = list.length
  /-- The elements of a DCI are below the number there is. -/
  inside : ∀ placed ∈ list.zip starts, placed.2 + placed.1.dci.level.cces ≤
    getnCceMax cell symbols subframe
  disjoint : (list.zip starts).Pairwise fun a b =>
    a.2 + a.1.dci.level.cces ≤ b.2 ∨ b.2 + b.1.dci.level.cces ≤ a.2
  /-- The UE comes to the DCI, whatever it has found in other elements before. -/
  examined : ∀ placed ∈ list.zip starts, ∀ cceMap : Nat → Bool,
    (∀ cce, placed.2 ≤ cce → cce < placed.2 + placed.1.dci.level.cces → cceMap cce = false) →
      placed.2 ∈ ueCandidates cell symbols subframe placed.1.common placed.1.dci.rnti.toNat
        placed.1.dci.level.cces cceMap

/-- The allocation ends without a fault, and a success is a sound one. -/
def Allocates (cell : Cell) (subframe : Nat) (dl : List DlPdu) (ul : List HiDci0Pdu) : Prop :=
  ∃ result, allocateCces cell subframe dl ul 3 = .ok result ∧
    ∀ symbols starts, result = some (symbols, starts) →
      Placed cell subframe (requests dl ul) symbols starts

/-- The first symbol has the resource element groups of PCFICH and PHICH, and three symbols have
no more CCEs than the UE expects of any subframe. -/
def CellOk (cell : Cell) (subframe : Nat) : Prop :=
  (nReg cell.dlBandwidth.toPrb 1).all
    (fun regs => 4 + 3 * cell.groups (getmi cell subframe) ≤ regs) = true ∧
    (maxSymbol cell subframe = 3 → getnCceMax cell 3 subframe ≤ getnCce cell 3 1)

section Search

variable {table : CceTable} {limit : Option Nat} {start length nCce : Nat}

theorem spaceFree_ok (inside : start + length ≤ cceTableSize) :
    ∃ free, spaceFree table limit start length = .ok free ∧
      (free = true → ∀ cce, start ≤ cce → cce < start + length → table cce = false) := by
  induction length generalizing start with
  | zero => exact ⟨true, rfl, fun _ cce above below => absurd above (Nat.not_le.mpr below)⟩
  | succ left ih =>
    rw [spaceFree]
    split
    · exact ⟨false, rfl, fun impossible => nomatch impossible⟩
    · rw [if_pos (show start < cceTableSize by omega)]
      cases taken : table start with
      | true => exact ⟨false, rfl, fun impossible => nomatch impossible⟩
      | false =>
        have behind : start + 1 + left ≤ cceTableSize := by omega
        obtain ⟨free, read, rest⟩ := ih behind
        refine ⟨free, read, fun yes cce above below => ?_⟩
        obtain rfl | later := Nat.eq_or_lt_of_le above
        · exact taken
        · exact rest yes cce later (by omega)

theorem firstFree_ok {candidates : List Nat}
    (inside : ∀ start ∈ candidates, start + length ≤ cceTableSize) :
    ∃ result, firstFree table limit length candidates = .ok result ∧ ∀ start, result = some start →
      start ∈ candidates ∧ ∀ cce, start ≤ cce → cce < start + length → table cce = false := by
  induction candidates with
  | nil => exact ⟨none, rfl, fun start impossible => nomatch impossible⟩
  | cons first rest ih =>
    obtain ⟨free, read, unused⟩ :=
      @spaceFree_ok table limit first length (inside first List.mem_cons_self)
    rw [firstFree, read]
    cases free with
    | true =>
      refine ⟨some first, rfl, fun start same => ?_⟩
      cases same
      exact ⟨List.mem_cons_self, unused rfl⟩
    | false =>
      obtain ⟨result, found, sound⟩ :=
        ih fun start member => inside start (List.mem_cons_of_mem _ member)
      refine ⟨result, found, fun start same => ?_⟩
      obtain ⟨member, unused⟩ := sound start same
      exact ⟨List.mem_cons_of_mem _ member, unused⟩

theorem multiple_inside {k : Nat} (below : k < nCce / length) : k * length + length ≤ nCce :=
  calc k * length + length
    _ = (k + 1) * length := (Nat.succ_mul k length).symm
    _ ≤ nCce / length * length := Nat.mul_le_mul_right _ below
    _ ≤ nCce := Nat.div_mul_le_self _ _

def Request.candidates (request : Request) (nCce subframe : Nat) : List Nat :=
  let length := request.dci.level.cces
  if request.common then commonCandidates length nCce
  else specificCandidates ((specificCount length).getD 0) length nCce
    (ykOf request.dci.rnti.toNat subframe % (nCce / length))

theorem Level.cces_pos (level : Level) : 0 < level.cces := by
  cases level <;> decide

theorem Level.counted (level : Level) : ∃ count, specificCount level.cces = some count := by
  cases level <;> exact ⟨_, rfl⟩

theorem Request.candidates_multiple {request : Request} {subframe : Nat}
    (room : request.dci.level.cces ≤ nCce)
    (member : start ∈ request.candidates nCce subframe) :
    ∃ k < nCce / request.dci.level.cces, start = k * request.dci.level.cces := by
  have positive : 0 < nCce / request.dci.level.cces := Nat.div_pos room request.dci.level.cces_pos
  rw [Request.candidates] at member
  split at member
  · obtain ⟨k, below, rfl⟩ := List.mem_map.mp (List.mem_reverse.mp member)
    exact ⟨k, Nat.lt_of_lt_of_le (List.mem_range.mp below) (Nat.min_le_right ..), rfl⟩
  · obtain ⟨m, -, rfl⟩ := List.mem_map.mp member
    exact ⟨_, Nat.mod_lt _ positive, rfl⟩

theorem getNcceOffset_ok {request : Request} {subframe : Nat} (room : request.dci.level.cces ≤ nCce)
    (size : nCce ≤ cceTableSize) :
    ∃ result, getNcceOffset table request.dci.level.cces nCce request.common request.dci.rnti.toNat
        subframe = .ok result ∧
      ∀ start, result = some start → start ∈ request.candidates nCce subframe ∧
        start + request.dci.level.cces ≤ nCce ∧
        ∀ cce, start ≤ cce → cce < start + request.dci.level.cces → table cce = false := by
  have positive := request.dci.level.cces_pos
  have quotient : nCce / request.dci.level.cces ≠ 0 := Nat.ne_of_gt (Nat.div_pos room positive)
  have inside : ∀ start ∈ request.candidates nCce subframe,
      start + request.dci.level.cces ≤ nCce := by
    intro start member
    obtain ⟨k, below, rfl⟩ := Request.candidates_multiple room member
    exact multiple_inside below
  have searched : ∃ limit, getNcceOffset table request.dci.level.cces nCce request.common
    request.dci.rnti.toNat subframe =
      firstFree table limit request.dci.level.cces (request.candidates nCce subframe) := by
    obtain ⟨count, counted⟩ := request.dci.level.counted
    rw [getNcceOffset, Request.candidates]
    cases request.common with
    | true => exact ⟨none, by rw [if_pos rfl, if_pos rfl, if_neg (Nat.ne_of_gt positive)]⟩
    | false =>
      have divides : ¬ (request.dci.level.cces = 0 ∨ nCce / request.dci.level.cces = 0) :=
        not_or.mpr ⟨Nat.ne_of_gt positive, quotient⟩
      exact ⟨some nCce, by
        simp only [Bool.false_eq_true, if_false, if_neg divides, counted, Option.getD_some]⟩
  obtain ⟨limit, searched⟩ := searched
  obtain ⟨result, found, sound⟩ :=
    @firstFree_ok table limit _ _ fun start member => Nat.le_trans (inside start member) size
  refine ⟨result, searched.trans found, fun start same => ?_⟩
  obtain ⟨member, unused⟩ := sound start same
  exact ⟨member, inside start member, unused⟩

/-- The UE tries fewer candidates where there are not so many; the others come round again. -/
theorem wrap_candidate {count yk m : Nat} (positive : 0 < nCce / length) (below : m < count) :
    ∃ m' < (if count * length > nCce then nCce / length else count),
      (yk + m') % (nCce / length) * length = (yk + m) % (nCce / length) * length := by
  split
  · exact ⟨m % (nCce / length), Nat.mod_lt _ positive, by rw [Nat.add_mod_mod]⟩
  · exact ⟨m, below, rfl⟩

/-- What the UE starts from: nothing in the common space, and its hash in its own. -/
def Request.offset (request : Request) (nCce subframe : Nat) : Nat :=
  if request.common then
    0 else ykOf request.dci.rnti.toNat subframe % (nCce / request.dci.level.cces)

def Request.count (request : Request) : Nat :=
  if request.common then (if request.dci.level.cces = 4 then 4 else 2)
    else (specificCount request.dci.level.cces).getD 0

theorem Request.candidates_numbered {request : Request} {subframe : Nat}
    (member : start ∈ request.candidates nCce subframe) :
    ∃ m < request.count, (request.offset nCce subframe + m) % (nCce / request.dci.level.cces) *
        request.dci.level.cces =
      start := by
  rw [Request.candidates] at member
  rw [Request.count, Request.offset]
  split at member
  · rename_i common
    obtain ⟨m, below, rfl⟩ := List.mem_map.mp (List.mem_reverse.mp member)
    have below := Nat.lt_min.mp (List.mem_range.mp below)
    simp only [common, if_true]
    exact ⟨m, below.1, by rw [Nat.zero_add, Nat.mod_eq_of_lt below.2]⟩
  · rename_i specific
    obtain ⟨m, below, rfl⟩ := List.mem_map.mp member
    simp only [specific, Bool.false_eq_true, if_false]
    exact ⟨m, List.mem_range.mp below, rfl⟩

theorem mem_ueCandidates {cell : Cell} {symbols subframe : Nat} {request : Request}
    {cceMap : Nat → Bool}
    (known : getnCceMax cell symbols subframe ≤ getnCce cell 3 1)
    (room : request.dci.level.cces ≤ getnCceMax cell symbols subframe)
    (member : start ∈ request.candidates (getnCceMax cell symbols subframe) subframe)
    (unmarked : ∀ cce, start ≤ cce → cce < start + request.dci.level.cces → cceMap cce = false) :
    start ∈ ueCandidates cell symbols subframe request.common request.dci.rnti.toNat
      request.dci.level.cces cceMap := by
  have positive := Nat.div_pos room request.dci.level.cces_pos
  obtain ⟨m, below, numbered⟩ := Request.candidates_numbered member
  obtain ⟨m', tried, again⟩ :=
    @wrap_candidate _ _ _ (request.offset (getnCceMax cell symbols subframe) subframe)
      _ positive below
  have decodes : ¬ getnCce cell symbols (getmi cell subframe) > getnCce cell 3 1 :=
    Nat.not_lt.mpr known
  have holds : ¬ getnCce cell symbols (getmi cell subframe) < request.dci.level.cces :=
    Nat.not_lt.mpr room
  rw [ueCandidates, if_neg decodes, if_neg holds]
  refine List.mem_filter.mpr
    ⟨List.mem_map.mpr ⟨m', List.mem_range.mpr tried, again.trans numbered⟩, ?_⟩
  refine List.all_eq_true.mpr fun l inside => ?_
  rw [unmarked (start + l) (Nat.le_add_right ..) (Nat.add_lt_add_left (List.mem_range.mp inside) _),
    Bool.not_false]

end Search

section Allocation

variable {nCce subframe : Nat}

/-- One try: no fault, and the DCIs that are placed lie in free elements of their own. -/
theorem allocateAll_ok (size : nCce ≤ cceTableSize) (list : List Request) (used : Nat)
    (table : CceTable) :
    ∃ result, allocateAll nCce subframe list used table = .ok result ∧
      ∀ starts, result = some starts →
      starts.length = list.length ∧
      (∀ placed ∈ list.zip starts, placed.2 ∈ placed.1.candidates nCce subframe ∧
        placed.2 + placed.1.dci.level.cces ≤ nCce ∧
        ∀ cce, placed.2 ≤ cce → cce < placed.2 + placed.1.dci.level.cces → table cce = false) ∧
      (list.zip starts).Pairwise
      fun a b => a.2 + a.1.dci.level.cces ≤ b.2 ∨ b.2 + b.1.dci.level.cces ≤ a.2 := by
  induction list generalizing used table with
  | nil =>
    refine ⟨some [], rfl, fun starts same => ?_⟩
    cases same
    refine ⟨rfl, fun placed member => ?_, List.Pairwise.nil⟩
    exact nomatch List.zip_nil_left ▸ member
  | cons request rest ih =>
    rw [allocateAll]
    split
    · exact ⟨none, rfl, fun starts impossible => nomatch impossible⟩
    · rename_i fits
      have room : request.dci.level.cces ≤ nCce := by omega
      obtain ⟨offset, searched, sound⟩ := @getNcceOffset_ok table nCce request subframe room size
      rw [searched]
      cases offset with
      | none => exact ⟨none, rfl, fun starts impossible => nomatch impossible⟩
      | some start =>
        obtain ⟨candidate, inside, unused⟩ := sound start rfl
        obtain ⟨result, later, correct⟩ :=
          ih (used + request.dci.level.cces) (table.mark start request.dci.level.cces)
        simp only [later]
        cases result with
        | none => exact ⟨none, rfl, fun starts impossible => nomatch impossible⟩
        | some starts =>
          refine ⟨some (start :: starts), rfl, fun all same => ?_⟩
          cases same
          obtain ⟨complete, placed, disjoint⟩ := correct starts rfl
          have apart : ∀ other ∈ rest.zip starts, ∀ cce, other.2 ≤ cce →
            cce < other.2 + other.1.dci.level.cces →
              table cce = false ∧ ¬ (start ≤ cce ∧ cce < start + request.dci.level.cces) := by
            intro other member cce above below
            have free := (placed other member).2.2 cce above below
            simpa [CceTable.mark] using free
          refine ⟨congrArg Nat.succ complete, ?_, List.pairwise_cons.mpr ⟨?_, disjoint⟩⟩
          · intro one member
            obtain rfl | member := List.mem_cons.mp member
            · exact ⟨candidate, inside, unused⟩
            · obtain ⟨other, within, -⟩ := placed one member
              exact ⟨other, within, fun cce above below => (apart one member cce above below).1⟩
          · intro other member
            have positive := other.1.dci.level.cces_pos
            have mine := request.dci.level.cces_pos
            -- an overlap would hold the first element of one of the two
            have first := (apart other member other.2 (Nat.le_refl _) (by omega)).2
            by_cases order : start ≤ other.2
            · exact .inl (by simp only; omega)
            · have second := fun below => (apart other member start (by omega) below).2
              exact .inr (by simp only; omega)

theorem getmi_lt (cell : Cell) (subframe : Nat) : getmi cell subframe < 3 := by
  rw [getmi]
  split <;> (try split) <;> decide

theorem maxSymbol_le (cell : Cell) (subframe : Nat) : maxSymbol cell subframe ≤ 3 := by
  rw [maxSymbol]
  split <;> decide

/-- The counts of all cells; the duplex mode plays no part. -/
theorem getnCce_counts (bandwidth : Bandwidth) (resource : PhichResource)
    (extended : Bool) (mi : Fin 3) :
    let cell : Cell := ⟨bandwidth, resource, extended, none⟩
    let regs := (nReg bandwidth.toPrb 1).all fun regs => 4 + 3 * cell.groups mi ≤ regs
    (regs = true → ∀ symbols : Fin 4, (symbols = 3 → getnCce cell 3 mi ≤ getnCce cell 3 1) →
      0 < symbols →
      getnCce cell symbols mi ≤ getnCce cell 3 1 ∧ getnCce cell 3 1 ≤ 88) ∧
    (¬ regs = true → getnCce cell 3 1 < getnCce cell 1 mi ∧ 2 ≤ getnCce cell 1 mi) ∧
    (getnCce cell 3 1 < getnCce cell 3 mi → mi = 0) := by
  revert mi
  cases bandwidth <;> cases resource <;> cases extended <;> decide +kernel

/-- The CCEs of all cells: no more than the UE expects, and far fewer than the table has. -/
theorem getnCce_le (cell : Cell) (mi : Fin 3) (symbols : Fin 4)
    (regs : (nReg cell.dlBandwidth.toPrb 1).all (fun regs => 4 + 3 * cell.groups mi ≤ regs) = true)
    (last : symbols = 3 → getnCce cell 3 mi ≤ getnCce cell 3 1) (positive : 0 < symbols) :
    getnCce cell symbols mi ≤ getnCce cell 3 1 ∧ getnCce cell 3 1 ≤ 88 := by
  obtain ⟨bandwidth, resource, extended, tdd⟩ := cell
  exact (getnCce_counts bandwidth resource extended mi).1 regs symbols last positive

theorem CellOk.known {cell : Cell} (ok : CellOk cell subframe) {symbols : Nat}
    (positive : 0 < symbols)
    (most : symbols ≤ maxSymbol cell subframe) :
    getnCceMax cell symbols subframe ≤ getnCce cell 3 1 ∧ getnCce cell 3 1 ≤ 88 := by
  have three := maxSymbol_le cell subframe
  have below : symbols < 4 := by omega
  refine getnCce_le cell ⟨getmi cell subframe, getmi_lt cell subframe⟩ ⟨symbols, below⟩ ok.1
    (fun last => ok.2 ?_) positive
  have last : symbols = 3 := congrArg Fin.val last
  omega

/-- The retry loop ends, for the number of symbols goes up to the largest. -/
theorem tryAgain_ok {cell : Cell} (ok : CellOk cell subframe) (list : List Request)
    {rounds symbols : Nat}
    (positive : 0 < symbols) (most : symbols ≤ maxSymbol cell subframe)
    (enough : maxSymbol cell subframe < symbols + rounds) :
    ∃ result, tryAgain cell subframe list rounds symbols = .ok result ∧
      ∀ last starts, result = some (last, starts) → Placed cell subframe list last starts := by
  induction rounds generalizing symbols with
  | zero => omega
  | succ rounds ih =>
    obtain ⟨known, few⟩ := ok.known positive most
    have size : getnCceMax cell symbols subframe ≤ cceTableSize :=
      Nat.le_trans known (Nat.le_trans few (by decide))
    obtain ⟨result, tried, sound⟩ := @allocateAll_ok _ subframe size list 0 fun _ => false
    rw [tryAgain, tried]
    cases result with
    | some starts =>
      refine ⟨_, rfl, fun last all same => ?_⟩
      cases same
      obtain ⟨complete, placed, disjoint⟩ := sound starts rfl
      refine ⟨complete,
        fun one member => (placed one member).2.1, disjoint, fun one member cceMap unmarked => ?_⟩
      obtain ⟨candidate, inside, -⟩ := placed one member
      exact mem_ueCandidates known (Nat.le_trans (Nat.le_add_left ..) inside) candidate unmarked
    | none =>
      simp only
      split
      · exact ⟨none, rfl, fun last starts impossible => nomatch impossible⟩
      · exact ih (Nat.succ_pos _) (by omega) (by omega)

end Allocation

section Failing

/-- A cell whose count of resource element groups comes out below zero has thousands of CCEs. -/
theorem getnCce_wrapped {cell : Cell} {mi : Fin 3}
    (regs : ¬ (nReg cell.dlBandwidth.toPrb 1).all
      (fun regs => 4 + 3 * cell.groups mi ≤ regs) = true) :
    getnCce cell 3 1 < getnCce cell 1 mi ∧ 2 ≤ getnCce cell 1 mi := by
  obtain ⟨bandwidth, resource, extended, tdd⟩ := cell
  exact (getnCce_counts bandwidth resource extended mi).2.1 regs

/-- Only without PHICH are there more CCEs than the UE expects. -/
theorem getmi_zero {cell : Cell} {mi : Fin 3}
    (more : getnCce cell 3 1 < getnCce cell 3 mi) : mi = 0 := by
  obtain ⟨bandwidth, resource, extended, tdd⟩ := cell
  exact (getnCce_counts bandwidth resource extended mi).2.2 more

/-- The CCEs of a bandwidth without PHICH. -/
theorem getnCce_zero (cell : Cell) (symbols : Nat) :
    getnCce cell symbols 0 = getnCce ⟨cell.dlBandwidth, .one, false, none⟩ symbols 0 := by
  simp only [getnCce, getnquad, Cell.groups, Nat.mul_zero]

/-- An RNTI with a given hash in a subframe; 61772 is the inverse of 39827. -/
def rntiFor (yk subframe : Nat) : UInt16 := UInt16.ofNat (yk * 61772 ^ (subframe + 1) % 65537)

def twoOf (rntiType : Nat) (rnti : UInt16) : List DlPdu :=
  List.replicate 2 (.dci rntiType ⟨.l8, rnti⟩)

/-- DCIs that need three symbols. -/
def crowd : Bandwidth → Nat → List DlPdu
  | .n6, _ => [.dci 2 ⟨.l4, 0⟩]
  | .n25, _ => twoOf 2 0
  | .n50, subframe => twoOf 2 0 ++ twoOf 1 (rntiFor 2 subframe)
  | .n100, subframe =>
    twoOf 2 0 ++ twoOf 1 (rntiFor 2 subframe) ++ twoOf 1 (rntiFor 4 subframe) ++
      twoOf 1 (rntiFor 6 subframe)
  | _, _ => []

def crowdStarts : Bandwidth → List Nat
  | .n6 => [0]
  | .n25 => [8, 0]
  | .n50 => [8, 0, 16, 24]
  | .n100 => [8, 0, 16, 24, 32, 40, 48, 56]
  | _ => []

theorem crowd_allocated {bandwidth : Bandwidth} (coded : bandwidth ≠ .n15 ∧ bandwidth ≠ .n75)
    (subframe : Fin 10) :
    let nCce := fun symbols => getnCce ⟨bandwidth, .one, false, none⟩ symbols 0
    let list := requests (crowd bandwidth subframe) []
    allocateAll (nCce 1) subframe list 0 (fun _ => false) = .ok none ∧
    allocateAll (nCce 2) subframe list 0 (fun _ => false) = .ok none ∧
    allocateAll (nCce 3) subframe list 0 (fun _ => false) = .ok (some (crowdStarts bandwidth)) := by
  revert subframe
  cases bandwidth with
  | n15 => exact absurd rfl coded.1
  | n75 => exact absurd rfl coded.2
  | n6 => decide +kernel
  | n25 => decide +kernel
  | n50 => decide +kernel
  | n100 => decide +kernel

/-- The UE looks for nothing where there are more CCEs than it expects. -/
theorem Placed.known {cell : Cell} {subframe symbols : Nat} {list : List Request}
    {starts : List Nat}
    (placed : Placed cell subframe list symbols starts) (some : list ≠ []) :
    getnCceMax cell symbols subframe ≤ getnCce cell 3 1 := by
  by_contra more
  obtain ⟨request, rest, rfl⟩ := List.exists_cons_of_ne_nil some
  cases starts with
  | nil => exact nomatch placed.complete
  | cons start starts =>
    have examined := placed.examined (request, start) List.mem_cons_self (fun _ => false)
      fun _ _ _ => rfl
    have skipped : getnCce cell symbols (getmi cell subframe) > getnCce cell 3 1 :=
      Nat.not_le.mp more
    rw [ueCandidates, if_pos skipped] at examined
    exact nomatch examined

/-- A single common DCI of a cell whose count wraps is placed with one symbol. -/
theorem wrapped_fails {cell : Cell} {subframe : Nat}
    (regs : ¬ (nReg cell.dlBandwidth.toPrb 1).all
      (fun regs => 4 + 3 * cell.groups (getmi cell subframe) ≤ regs) = true) :
    ¬ Allocates cell subframe [.dci 2 ⟨.l1, 0⟩] [] := by
  obtain ⟨more, two⟩ := @getnCce_wrapped cell ⟨getmi cell subframe, getmi_lt cell subframe⟩ regs
  have two : 2 ≤ getnCceMax cell 1 subframe := two
  have candidates : commonCandidates 1 (getnCceMax cell 1 subframe) = [1, 0] := by
    rw [commonCandidates, Nat.div_one, if_neg (by decide), Nat.min_eq_left two]
    rfl
  have offset : getNcceOffset (fun _ => false) 1 (getnCceMax cell 1 subframe) true 0 subframe =
      .ok (some 1) := by
    rw [getNcceOffset, if_pos rfl, if_neg (by decide), candidates]
    rfl
  have tried : allocateAll (getnCceMax cell 1 subframe) subframe [⟨true, ⟨.l1, 0⟩⟩] 0
      (fun _ => false) = .ok (some [1]) := by
    have room : ¬ getnCceMax cell 1 subframe < 0 + Level.l1.cces :=
      Nat.not_lt.mpr (Nat.le_of_succ_le two)
    have offset : getNcceOffset (fun _ => false) Level.l1.cces (getnCceMax cell 1 subframe) true
      (UInt16.toNat 0) subframe =
      .ok (some 1) := offset
    rw [allocateAll, if_neg room, offset]
    rfl
  have placed : allocateCces cell subframe [.dci 2 ⟨.l1, 0⟩] [] 3 = .ok (some (1, [1])) := by
    simp only [allocateCces, tryAgain, requests, List.filterMap_cons, List.filterMap_nil,
      List.append_nil, tried]
  rintro ⟨result, allocated, sound⟩
  cases placed.symm.trans allocated
  exact absurd ((sound 1 [1] rfl).known (List.cons_ne_nil _ _)) (Nat.not_le.mpr more)

/-- Without PHICH the DCIs of a crowd take three symbols. -/
theorem crowd_fails {cell : Cell} {subframe : Fin 10} (three : maxSymbol cell subframe = 3)
    (more : getnCce cell 3 1 < getnCceMax cell 3 subframe) :
    ¬ Allocates cell subframe (crowd cell.dlBandwidth subframe) [] := by
  have zero : getmi cell subframe = 0 :=
    congrArg Fin.val (@getmi_zero cell ⟨getmi cell subframe, getmi_lt cell subframe⟩ more)
  have coded : cell.dlBandwidth ≠ .n15 ∧ cell.dlBandwidth ≠ .n75 := by
    constructor
    · intro same
      simp [getnCceMax, getnCce, getnquad, same, Bandwidth.toPrb, nReg] at more
    · intro same
      simp [getnCceMax, getnCce, getnquad, same, Bandwidth.toPrb, nReg] at more
  have count (symbols : Nat) : getnCceMax cell symbols subframe =
      getnCce ⟨cell.dlBandwidth, .one, false, none⟩ symbols 0 := by
    rw [getnCceMax, zero, getnCce_zero]
  obtain ⟨first, second, third⟩ := crowd_allocated coded subframe
  have placed : allocateCces cell subframe (crowd cell.dlBandwidth subframe) [] 3 =
      .ok (some (3, crowdStarts cell.dlBandwidth)) := by
    simp only [allocateCces, tryAgain, count, first, second, third, three, Nat.reduceAdd,
      Nat.reduceEqDiff, if_false]
  rintro ⟨result, allocated, sound⟩
  cases placed.symm.trans allocated
  have some : requests (crowd cell.dlBandwidth subframe) [] ≠ [] := by
    cases bandwidth : cell.dlBandwidth with
    | n15 => exact absurd bandwidth coded.1
    | n75 => exact absurd bandwidth coded.2
    | n6 => exact List.cons_ne_nil _ _
    | n25 => exact List.cons_ne_nil _ _
    | n50 => exact List.cons_ne_nil _ _
    | n100 => exact List.cons_ne_nil _ _
  exact absurd ((sound 3 _ rfl).known some) (Nat.not_le.mpr more)

end Failing

theorem crowd_length (bandwidth : Bandwidth) (subframe : Nat) :
    (crowd bandwidth subframe).length ≤ 100 := by
  cases bandwidth <;> exact of_decide_eq_true rfl

/-- In a subframe of a cell every list of DCIs is placed soundly, exactly when the groups of the
first symbol suffice and the UE accepts the CCEs of three symbols. -/
theorem allocates_iff (cell : Cell) (subframe : Fin 10) :
    (∀ (dl : List DlPdu) (ul : List HiDci0Pdu), dl.length ≤ 100 → ul.length ≤ 100 →
        Allocates cell subframe dl ul) ↔
      CellOk cell subframe := by
  constructor
  · intro all
    constructor
    · by_contra regs
      exact wrapped_fails regs (all _ _ (by decide) (Nat.zero_le _))
    · intro three
      by_contra more
      exact crowd_fails three (Nat.not_le.mp more) (all _ _ (crowd_length ..) (Nat.zero_le _))
  · intro ok dl ul _ _
    have one : 1 ≤ maxSymbol cell subframe := by
      rw [maxSymbol]
      split <;> decide
    exact tryAgain_ok ok (requests dl ul) Nat.one_pos one
      (Nat.lt_of_le_of_lt (maxSymbol_le ..) (by decide))

/-- Six resource blocks with an extended prefix and the most PHICH groups: a DCI of a UE is
looked for far behind the end of the table. -/
theorem allocates_fails :
    ¬ Allocates ⟨.n6, .two, true, none⟩ 0 [.dci 1 ⟨.l1, 1⟩] [] := by
  have outside : allocateCces ⟨.n6, .two, true, none⟩ 0 [.dci 1 ⟨.l1, 1⟩] [] 3 =
    .error .outsideTable := by decide +kernel
  rintro ⟨result, allocated, -⟩
  exact nomatch outside.symm.trans allocated

end OpenAir.Mac.Cce
