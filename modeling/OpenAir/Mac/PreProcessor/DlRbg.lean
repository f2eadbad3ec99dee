import Mathlib.Data.Finset.Filter
import Mathlib.Data.Fintype.Basic
import OpenAir.Lib.Run
import OpenAir.Mac.Cce

/-! The downlink pre-processor of one subframe: the resource block groups of a carrier are given to
the UEs of each slice, first as accounted, then what is left of the slice. -/
namespace OpenAir.Mac.PreProcessor
open Run (run Meets)
open Cce (Bandwidth)

def toRbg : Bandwidth → Nat
  | .n6 => 6
  | .n15 => 8
  | .n25 => 13
  | .n50 => 17
  | .n75 => 19
  | .n100 => 25

/-- On the number of resource blocks; those without a case get 2. -/
def getMinRbUnit (bandwidth : Bandwidth) : Nat :=
  match bandwidth.toPrb with
  | 6 => 1
  | 25 => 2
  | 50 => 3
  | 100 => 4
  | _ => 2

/-- `sf0_lower` and `sf0_upper`; a number of groups without a case stops the program. -/
def sf0Limits (bandwidth : Bandwidth) : Option (Nat × Nat) :=
  match toRbg bandwidth with
  | 6 => some (0, 5)
  | 8 => some (2, 5)
  | 13 => some (4, 7)
  | 17 => some (7, 9)
  | 25 => some (11, 13)
  | _ => none

/-- `RBGsize` and `RBGsize_last` -/
def rbgSizes : Bandwidth → Nat × Nat
  | .n6 => (1, 1)
  | .n15 => (2, 1)
  | .n25 => (2, 1)
  | .n50 => (3, 2)
  | .n75 => (4, 3)
  | .n100 => (4, 4)

/-- `rb_size`, the blocks of a group. -/
def rbSize (bandwidth : Bandwidth) (i : Nat) : Nat :=
  if i = toRbg bandwidth - 1 then (rbgSizes bandwidth).2 else (rbgSizes bandwidth).1

/-- The blocks that an allocation of a group takes it for. -/
def allocatedSize (bandwidth : Bandwidth) (i : Nat) : Nat :=
  if i = toRbg bandwidth - 1 ∧ (bandwidth.toPrb = 25 ∨ bandwidth.toPrb = 50) then
    getMinRbUnit bandwidth - 1
  else getMinRbUnit bandwidth

/-- A carrier that is not given to MBSFN in the subframe, and its `n` places for UEs. -/
structure Cell (n : Nat) where
  dlBandwidth : Bandwidth
  subframe : Nat
  /-- `vrb_map[i] != 0` -/
  vrbMap : Nat → Bool
  /-- 0 in a place without a UE. -/
  rnti : Fin n → UInt16
  active : Fin n → Bool
  ulOutOfSync : Fin n → Bool
  assocDlSliceIdx : Fin n → Nat
  /-- The carrier is among `ordered_CCids`. -/
  activeCc : Fin n → Bool
  tmode : Fin n → Nat

/-- What a slice brings: its masks, its sorted UEs and the numbers of the accounting. -/
structure Slice (n : Nat) where
  sliceAllocationMask : Nat → Bool
  list : List (Fin n)
  nbRbsRequired : Fin n → UInt16
  nbRbsAccounted : Fin n → UInt16

structure UeSchedCtrl where
  preNbAvailableRbs : Nat
  rballocSubUe : Nat → Bool
  dlPowOff : Nat
  nbRbsRemaining : Nat

structure State (n : Nat) where
  rballocSub : Nat → Bool
  ue : Fin n → UeSchedCtrl

variable {n : Nat}

def Cell.nRbg (cell : Cell n) : Nat := toRbg cell.dlBandwidth

def ueDlSliceMembership (cell : Cell n) (idx : Nat) (ue : Fin n) : Bool :=
  cell.active ue && cell.assocDlSliceIdx ue = idx

/-- `dlsch_scheduler_pre_processor_reset`; no value where it stops the program. -/
def reset (cell : Cell n) (idx : Nat) (s : State n) : Option (State n) :=
  (sf0Limits cell.dlBandwidth).map fun limits =>
    { rballocSub i := s.rballocSub i || i < cell.nRbg &&
        (cell.subframe = 0 && limits.1 ≤ i && i ≤ limits.2 ||
          (List.range (rbSize cell.dlBandwidth i)).any
            fun j => cell.vrbMap (j + i * (rbgSizes cell.dlBandwidth).1))
      ue ue := if cell.rnti ue ≠ 0 ∧ ueDlSliceMembership cell idx ue then
          { s.ue ue with
            preNbAvailableRbs := 0
            dlPowOff := 2
            rballocSubUe i := !(i < cell.nRbg) && (s.ue ue).rballocSubUe i }
        else s.ue ue }

def State.give (s : State n) (cell : Cell n) (ue : Fin n) (i : Nat) : State n where
  rballocSub := Function.update s.rballocSub i true
  ue := Function.update s.ue ue
    { preNbAvailableRbs := ((s.ue ue).preNbAvailableRbs + allocatedSize cell.dlBandwidth i) % 65536
      rballocSubUe := Function.update (s.ue ue).rballocSubUe i true
      dlPowOff := if cell.tmode ue = 5 then 1 else (s.ue ue).dlPowOff
      nbRbsRemaining := (s.ue ue).nbRbsRemaining - allocatedSize cell.dlBandwidth i }

section
variable {s : State n} {cell : Cell n} {ue other : Fin n} {i j : Nat}

@[simp] theorem State.give_rballocSub : (s.give cell ue i).rballocSub i = true :=
  Function.update_self ..

theorem State.give_rballocSub_other (apart : j ≠ i) : (s.give cell ue i).rballocSub j =
    s.rballocSub j :=
  Function.update_of_ne apart ..

@[simp] theorem State.give_preNbAvailableRbs : ((s.give cell ue i).ue ue).preNbAvailableRbs =
    ((s.ue ue).preNbAvailableRbs + allocatedSize cell.dlBandwidth i) % 65536 := by
  simp only [State.give, Function.update_self]

@[simp] theorem State.give_rballocSubUe : ((s.give cell ue i).ue ue).rballocSubUe =
    Function.update (s.ue ue).rballocSubUe i true := by
  simp only [State.give, Function.update_self]

@[simp] theorem State.give_dlPowOff : ((s.give cell ue i).ue ue).dlPowOff =
    if cell.tmode ue = 5 then 1 else (s.ue ue).dlPowOff := by
  simp only [State.give, Function.update_self]

@[simp] theorem State.give_nbRbsRemaining : ((s.give cell ue i).ue ue).nbRbsRemaining =
    (s.ue ue).nbRbsRemaining - allocatedSize cell.dlBandwidth i := by
  simp only [State.give, Function.update_self]

theorem State.give_other (apart : other ≠ ue) : (s.give cell ue i).ue other = s.ue other :=
  Function.update_of_ne apart ..

end

/-- One turn of the loop of `dlsch_scheduler_pre_processor_allocate`. -/
def allocateRbg (cell : Cell n) (slice : Slice n) (ue : Fin n) (s : State n) (i : Nat) : State n :=
  if s.rballocSub i then s
  else if (s.ue ue).rballocSubUe i then s
  else if (s.ue ue).nbRbsRemaining ≤ 0 then s
  else if (slice.nbRbsRequired ue).toNat ≤ (s.ue ue).preNbAvailableRbs then s
  else if (s.ue ue).dlPowOff = 0 then s
  else if slice.sliceAllocationMask i = false then s
  else if allocatedSize cell.dlBandwidth i ≤ (s.ue ue).nbRbsRemaining then s.give cell ue i
  else s

def allocate (cell : Cell n) (slice : Slice n) (ue : Fin n) (s : State n) : State n :=
  (List.range cell.nRbg).foldl (allocateRbg cell slice ue) s

def State.setRemaining (s : State n) (ue : Fin n) (remaining : Nat) : State n :=
  { s with ue := Function.update s.ue ue { s.ue ue with nbRbsRemaining := remaining } }

section
variable {s : State n} {ue : Fin n} {remaining : Nat}

@[simp] theorem State.setRemaining_nbRbsRemaining :
    ((s.setRemaining ue remaining).ue ue).nbRbsRemaining = remaining := by
  simp only [State.setRemaining, Function.update_self]

@[simp] theorem State.setRemaining_preNbAvailableRbs (other : Fin n) :
    ((s.setRemaining ue remaining).ue other).preNbAvailableRbs =
    (s.ue other).preNbAvailableRbs := by
  by_cases same : other = ue
  · simp only [State.setRemaining, same, Function.update_self]
  · simp only [State.setRemaining, Function.update_of_ne same]

@[simp] theorem State.setRemaining_rballocSubUe (other : Fin n) :
    ((s.setRemaining ue remaining).ue other).rballocSubUe = (s.ue other).rballocSubUe := by
  by_cases same : other = ue
  · simp only [State.setRemaining, same, Function.update_self]
  · simp only [State.setRemaining, Function.update_of_ne same]

@[simp] theorem State.setRemaining_dlPowOff (other : Fin n) :
    ((s.setRemaining ue remaining).ue other).dlPowOff = (s.ue other).dlPowOff := by
  by_cases same : other = ue
  · simp only [State.setRemaining, same, Function.update_self]
  · simp only [State.setRemaining, Function.update_of_ne same]

end

/-- What the loops over the UEs do for one of them: `position` of
`dlsch_scheduler_pre_processor_positioning`, `share` of
`dlsch_scheduler_pre_processor_intraslice_sharing`. -/
inductive Call (n : Nat) where
  | reset (idx : Nat)
  | position (slice : Slice n) (ue : Fin n)
  | share (slice : Slice n) (ue : Fin n)

/-- The blocks a UE may still get are set before its groups are looked for; the sharing cuts the sum
to 16 bits. -/
def position (slice : Slice n) (ue : Fin n) (s : State n) : State n :=
  s.setRemaining ue (slice.nbRbsAccounted ue).toNat

def share (slice : Slice n) (ue : Fin n) (s : State n) : State n :=
  s.setRemaining ue
    (((slice.nbRbsRequired ue).toNat + 65536 - (slice.nbRbsAccounted ue).toNat +
      (s.ue ue).nbRbsRemaining) % 65536)

def step (cell : Cell n) (s : State n) : Call n → Option (State n)
  | .reset idx => reset cell idx s
  | .position slice ue => some (allocate cell slice ue (position slice ue s))
  | .share slice ue => some (allocate cell slice ue (share slice ue s))

/-- The UEs of the list that reach an allocation on the carrier. -/
def reached (cell : Cell n) (idx : Nat) (slice : Slice n) : List (Fin n) :=
  slice.list.filter
    fun ue => cell.rnti ue ≠ 0 && !cell.ulOutOfSync ue && ueDlSliceMembership cell idx ue &&
    cell.activeCc ue

/-- `dlsch_scheduler_pre_processor` for one slice, with `intraslice_share_active` or without. -/
def preProcessor (cell : Cell n) (intrasliceShareActive : Bool) (idx : Nat) (slice : Slice n) :
    List (Call n) :=
  .reset idx :: (reached cell idx slice).map (.position slice) ++
    if intrasliceShareActive then (reached cell idx slice).map (.share slice) else []

/-- The slices from an index on, one by one. -/
def sliceCalls (cell : Cell n) (intrasliceShareActive : Bool) : Nat → List (Slice n) → List (Call n)
  | _, [] => []
  | idx, slice :: rest => preProcessor cell intrasliceShareActive idx slice ++
      sliceCalls cell intrasliceShareActive (idx + 1) rest

/-- `schedule_dlsch` begins with a clear `rballoc_sub`. -/
def State.clear (s : State n) : State n := { s with rballocSub _ := false }

def scheduleDlsch (cell : Cell n) (intrasliceShareActive : Bool) (slices : List (Slice n))
    (s : State n) :
    Option (State n) :=
  run (step cell) s.clear (sliceCalls cell intrasliceShareActive 0 slices)

end OpenAir.Mac.PreProcessor
