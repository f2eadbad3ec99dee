import OpenAir.Lib.Run
import OpenAir.Lib.Serial
import OpenAir.Rlc.Am.SegmentMemory

/-! The receiving side of the unacknowledged-mode RLC entity: its variables, the tests
against the reordering window, and t-Reordering. -/
namespace OpenAir.Rlc.Um
open BitField

/-- `rx_sn_length`: sequence numbers of 5 or of 10 bits. -/
inductive SnLength where
  | five
  | ten
deriving Repr, DecidableEq

def SnLength.modulo : SnLength → Nat
  | .five => 32
  | .ten => 1024

/-- `rx_um_window_size` of a unicast bearer. -/
def SnLength.windowSize : SnLength → Nat
  | .five => 16
  | .ten => 512

def SnLength.headerMin : SnLength → Nat
  | .five => 1
  | .ten => 2

def maxLiPerPdu : Nat := 128

/-- `rlc_um_timer_t`. -/
structure Timer where
  running : Bool := false
  timedOut : Bool := false
  msStart : Nat := 0
  msTimeOut : Nat := 0
  msDuration : Nat := 0
deriving Repr, DecidableEq

/-- `rlc_um_stop_and_reset_timer_reordering`. -/
def Timer.stop (timer : Timer) : Timer :=
  { timer with running := false, msTimeOut := 0, msStart := 0, timedOut := false }

/-- `rlc_um_start_timer_reordering` at the time `now`; a timer of 0 ms is not started. -/
def Timer.start (timer : Timer) (now : Nat) : Timer :=
  if timer.msDuration > 0 then
    { timer with
      timedOut := false
      running := true
      msTimeOut := (now + timer.msDuration) % 2 ^ 32
      msStart := now }
  else
    { timer with timedOut := false }

/-- The timer runs and its time is over at `now`, also across a wrap of the clock. -/
def Timer.expired (timer : Timer) (now : Nat) : Bool :=
  timer.running &&
    (decide (timer.msStart < timer.msTimeOut ∧ (now ≥ timer.msTimeOut ∨ now < timer.msStart)) ||
      decide (timer.msStart > timer.msTimeOut ∧ now < timer.msStart ∧ now ≥ timer.msTimeOut))

/-- A received PDU: `data_ptr` and `size` of its `mac_tb_ind`. -/
structure Pdu where
  mem : Memory
  size : Nat

/-- What `rlc_um_configure` is told. -/
structure Config where
  snLength : SnLength
  isDataPlane : Bool
  timerReordering : Nat
deriving Repr, DecidableEq

def Config.modulo (config : Config) : Nat := config.snLength.modulo

def Config.windowSize (config : Config) : Nat := config.snLength.windowSize

/-- `RLC_SDU_MAX_SIZE_DATA_PLANE` or `RLC_SDU_MAX_SIZE_CONTROL_PLANE`. -/
def Config.sduMaxSize (config : Config) : Nat := if config.isDataPlane then 9000 else 2000

/-- The part of `rlc_um_entity_t` that builds SDUs: the bytes written to the one in
construction, and the SDUs given to the upper layer, the oldest first. -/
structure Assembly where
  outputSdu : List UInt8 := []
  lastReassembliedSn : Nat := 0
  missingSnDetected : Bool := false
  delivered : List (List UInt8) := []
deriving Repr, DecidableEq

/-- The part that reassembly works on. `looked` is no variable of the source: it records the
SNs that `rlc_um_try_reassembly` went over, each with the PDU found there. -/
structure Dar extends Assembly where
  darBuffer : Nat → Option Pdu := fun _ => none
  looked : List (Nat × Option Pdu) := []

/-- The receiving side of `rlc_um_entity_t`. -/
structure Rx extends Dar where
  vrUr : Nat := 0
  vrUx : Nat := 0
  vrUh : Nat := 0
  tReordering : Timer := {}

/-- `rlc_um_configure` on an initialized entity. -/
def rxInit (config : Config) : Rx where
  lastReassembliedSn := config.modulo - 1
  tReordering := { msDuration := config.timerReordering }

section Window

variable (config : Config) (rx : Rx)

/-- `modulus`: the lower edge of the reordering window, which can be negative. -/
def Rx.modulus : Int := rx.vrUh - config.windowSize

/-- A number relative to the lower edge, with the remainder of C: it has the sign of the
difference. -/
def Rx.relative (sn : Int) : Int := (sn - rx.modulus config).tmod config.modulo

def Rx.inWindow (lowerBound sn higherBound : Int) : Int :=
  let lowerBound := rx.relative config lowerBound
  let higherBound := rx.relative config higherBound
  let sn := rx.relative config sn
  if lowerBound > sn then
    -2
  else if higherBound < sn then
    -1
  else if lowerBound = sn then
    if higherBound = sn then 3 else 1
  else if higherBound = sn then
    2
  else
    0

def Rx.inReorderingWindow (sn : Int) : Int :=
  let snMod := rx.relative config sn
  if 0 ≤ snMod ∧ snMod < config.windowSize then 0 else -1

end Window

end OpenAir.Rlc.Um
