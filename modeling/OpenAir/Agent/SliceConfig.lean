import OpenAir.Lib.Keyed

/-! The agent's slice configuration: a message with slices that are new, changed or incomplete is
filled up, verified, and written over the configuration. -/
namespace OpenAir.Agent
open Keyed

def maxNumSlices : Nat := 10

def nRbgMax : Nat := 25

inductive FlexSliceLabel
  | xMBB | urllc | mMTC | xMTC | other
deriving Repr, DecidableEq

inductive FlexDlSorting
  | crRound | crSrb12 | crHol | crLc | crCqi | crLcp
deriving Repr, DecidableEq

inductive FlexAccountingPolicy
  | fair | greedy | num
deriving Repr, DecidableEq

/-- `Protocol__FlexDlSlice` as `sc_update` holds it. -/
structure DlSlice where
  id : UInt32
  label : FlexSliceLabel := .xMBB
  percentage : UInt32 := 0
  isolation : Bool := false
  priority : UInt32 := 0
  positionLow : UInt32 := 0
  positionHigh : UInt32 := 0
  maxmcs : UInt32 := 0
  sorting : List FlexDlSorting := []
  accounting : FlexAccountingPolicy := .fair
  schedulerName : String := ""
deriving Repr, DecidableEq

/-- `Protocol__FlexUlSlice` as `sc_update` holds it; its sorting is not used. -/
structure UlSlice where
  id : UInt32
  label : FlexSliceLabel := .xMBB
  percentage : UInt32 := 0
  isolation : Bool := false
  priority : UInt32 := 0
  firstRb : UInt32 := 0
  maxmcs : UInt32 := 0
  accounting : FlexAccountingPolicy := .fair
  schedulerName : String := ""
deriving Repr, DecidableEq

/-- A DL slice as a message has it: every field may be missing. -/
structure DlSliceEntry where
  id : Option UInt32 := none
  label : Option FlexSliceLabel := none
  percentage : Option UInt32 := none
  isolation : Option Bool := none
  priority : Option UInt32 := none
  positionLow : Option UInt32 := none
  positionHigh : Option UInt32 := none
  maxmcs : Option UInt32 := none
  sorting : List FlexDlSorting := []
  accounting : Option FlexAccountingPolicy := none
  schedulerName : Option String := none
deriving Repr, DecidableEq

structure UlSliceEntry where
  id : Option UInt32 := none
  label : Option FlexSliceLabel := none
  percentage : Option UInt32 := none
  isolation : Option Bool := none
  priority : Option UInt32 := none
  firstRb : Option UInt32 := none
  maxmcs : Option UInt32 := none
  accounting : Option FlexAccountingPolicy := none
  schedulerName : Option String := none
deriving Repr, DecidableEq

/-- `sc_update`: the slices in use. -/
structure SliceConfig where
  intrasliceShareActive : Bool := false
  intersliceShareActive : Bool := false
  dl : List DlSlice
  ul : List UlSlice
deriving Repr, DecidableEq

structure SliceMessage where
  intrasliceShareActive : Option Bool := none
  intersliceShareActive : Option Bool := none
  dl : List DlSliceEntry := []
  ul : List UlSliceEntry := []
deriving Repr, DecidableEq

/-- What stops the base station, or is undefined. -/
inductive SliceFault
  | assertFatal
  | regionIndex
  | divisionByZero
deriving Repr, DecidableEq

/-- A `uint32_t` that is given to a function as `int`. -/
def toInt (x : UInt32) : Int := x.toInt32.toInt

section Fill

/-- `fill_dl_slice`: missing fields are those of the slice with the id, or of slice 0. -/
def fillDlSlice (slices : List DlSlice) (s : DlSliceEntry) (id : UInt32)
    (from_ : Option DlSlice) : DlSlice :=
  let source := from_.getD (slices.headD { id := 0 })
  { id
    label := s.label.getD source.label
    percentage := s.percentage.getD source.percentage
    isolation := s.isolation.getD source.isolation
    priority := s.priority.getD source.priority
    positionLow := s.positionLow.getD source.positionLow
    positionHigh := s.positionHigh.getD source.positionHigh
    maxmcs := s.maxmcs.getD source.maxmcs
    sorting := if s.sorting = [] then source.sorting else s.sorting
    accounting := s.accounting.getD source.accounting
    schedulerName := s.schedulerName.getD source.schedulerName }

def fillUlSlice (slices : List UlSlice) (s : UlSliceEntry) (id : UInt32)
    (from_ : Option UlSlice) : UlSlice :=
  let source := from_.getD (slices.headD { id := 0 })
  { id
    label := s.label.getD source.label
    percentage := s.percentage.getD source.percentage
    isolation := s.isolation.getD source.isolation
    priority := s.priority.getD source.priority
    firstRb := s.firstRb.getD source.firstRb
    maxmcs := s.maxmcs.getD source.maxmcs
    accounting := s.accounting.getD source.accounting
    schedulerName := s.schedulerName.getD source.schedulerName }

end Fill

section Verify

def verifyPct (pct : Int) : Bool := 0 ≤ pct ∧ pct ≤ 100

def verifyPriority (prio : Int) : Bool := 0 ≤ prio

def dlSliceVerifyPosition (posLow posHigh : Int) : Bool := posLow < posHigh ∧ 0 ≤ posLow ∧
    posHigh ≤ nRbgMax

def dlSliceVerifyMaxmcs (maxmcs : Int) : Bool := 0 ≤ maxmcs ∧ maxmcs ≤ 28

def ulSliceVerifyFirstRb (firstRb : Int) : Bool := 0 ≤ firstRb ∧ firstRb < 100

def ulSliceVerifyMaxmcs (maxmcs : Int) : Bool := 0 ≤ maxmcs ∧ maxmcs ≤ 20

def flexranVerifyDlSlice (dls : DlSlice) : Bool :=
  verifyPct (toInt dls.percentage) && verifyPriority (toInt dls.priority) &&
    dlSliceVerifyPosition (toInt dls.positionLow) (toInt dls.positionHigh) &&
      dlSliceVerifyMaxmcs (toInt dls.maxmcs) &&
    dls.sorting != [] && dls.schedulerName == "schedule_ue_spec"

def flexranVerifyUlSlice (uls : UlSlice) : Bool :=
  verifyPct (toInt uls.percentage) && verifyPriority (toInt uls.priority) &&
    ulSliceVerifyFirstRb (toInt uls.firstRb) &&
    ulSliceVerifyMaxmcs (toInt uls.maxmcs) && uls.schedulerName == "schedule_ulsch_rnti"

end Verify

end OpenAir.Agent
