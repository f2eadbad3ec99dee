import OpenAir.Rlc.Am.Reestablish
import OpenAir.Rlc.Am.RetxCoverRun
import OpenAir.Rlc.Am.StatusOccupancy

/-! What the MAC layer asks of an acknowledged-mode entity: the occupancy of its buffers, its
timers once a subframe, and a PDU for the bytes granted. -/
namespace OpenAir.Rlc.Am
open BitField

def statusTriggeredTReordering : Nat := 0x02

def statusTriggeredDelayed : Nat := 0x10

def statusProhibit : Nat := 0x20

def statusNoTxMask : Nat := statusProhibit ||| statusTriggeredDelayed

/-- `RLC_AM_CLEAR_STATUS`, on a `uint8_t`. -/
def clearStatus (x event : Nat) : Nat := x &&& (0xFF ^^^ event)

/-- A STATUS PDU is requested, and nothing holds it back. -/
def Entity.StatusDue (e : Entity) : Prop := e.statusRequested ≠ 0 ∧
    e.statusRequested &&& statusNoTxMask = 0

instance (e : Entity) : Decidable e.StatusDue := inferInstanceAs (Decidable (_ ∧ _))

/-- `status_buffer_occupancy`, which is set anew whenever the occupancy is asked for. -/
def Entity.statusBufferOccupancy (e : Entity) : Nat :=
  if e.StatusDue then getStatusPduBufferOccupancy e.vrR e.vrMs e.receiverBuffer else 0

/-- The bytes in the buffers, as a number of no width. -/
def Entity.held (e : Entity) : Int :=
  e.statusBufferOccupancy + e.tx.retransNumBytesToRetransmit + e.tx.sduBufferOccupancy

/-- `rlc_am_get_buffer_occupancy_in_bytes`, a `uint32_t`. -/
def getBufferOccupancyInBytes (e : Entity) : Nat := (e.held % 2 ^ 32).toNat

/-- `Now find a SN for which either no PDU is received or partially received`. -/
def skipReceived (vrH : Nat) : List RxPdu → Nat → Nat
  | [], vrMs => vrMs
  | pdu :: rest, vrMs =>
    if vrMs ≠ vrH ∧ pdu.info.sn = vrMs ∧ pdu.allSegmentsReceived = true then
      skipReceived vrH rest
        (if pdu.info.rf = false ∨ pdu.info.lsf = true then nextSn vrMs else vrMs)
    else
      vrMs

/-- `rlc_am_check_timer_reordering`. A timer started again is not marked as running. -/
def checkTimerReordering (e : Entity) (now : Nat) : Entity :=
  if e.tReordering.expired now ∧ e.vrX ≠ snUndefined then
    let e := { e with tReordering := { e.tReordering with running := false, timedOut := true } }
    if e.receiverBuffer.isEmpty then
      e
    else
      let cursor :=
        e.receiverBuffer.dropWhile fun pdu => diffSn pdu.info.sn e.vrR < diffSn e.vrX e.vrR
      let e := { e with vrMs := skipReceived e.vrH cursor e.vrX }
      let e := if e.vrMs ≠ e.vrH then
        { e with
          vrX := e.vrH
          tReordering := { e.tReordering with msTimeOut := now + e.tReordering.msDuration } } else e
      { e with
        statusRequested :=
          clearStatus (e.statusRequested ||| statusTriggeredTReordering) statusTriggeredDelayed
        snStatusTriggeredDelayed := snUndefined }
  else
    e

def checkTimerStatusProhibit (e : Entity) (now : Nat) : Entity :=
  if e.tStatusProhibit.msDuration > 0 ∧ e.tStatusProhibit.expired now then
    { e with
      tStatusProhibit := e.tStatusProhibit.stop
      statusRequested := clearStatus e.statusRequested statusProhibit }
  else
    e

def startTimerStatusProhibit (e : Entity) (now : Nat) : Entity :=
  let timer := { e.tStatusProhibit with timedOut := false }
  if timer.running = false ∧ timer.msDuration > 0 then
    { e with
      tStatusProhibit :=
        { timer with running := true, msTimeOut := timer.msDuration + now, msStart := now }
      statusRequested := e.statusRequested ||| statusProhibit }
  else
    { e with tStatusProhibit := timer }

/-- `rlc_am_set_nb_bytes_requested_by_mac`. -/
def Entity.grant (e : Entity) (tbSize : Nat) : Entity :=
  { e with tx := { e.tx with nbBytesRequestedByMac := tbSize } }

/-- What `rlc_am_mac_status_indication` does to the entity: its timers are looked at once a
subframe. -/
def macStatusIndication (e : Entity) (tbSize now : Nat) : Entity :=
  let e := if e.lastAbsoluteSubframeStatusIndication ≠ now then
    let e := { e with tx := checkTimerPollRetransmit e.tx now }
    checkTimerStatusProhibit (checkTimerReordering e now) now else e
  let e := { e with lastAbsoluteSubframeStatusIndication := now }
  if tbSize > 0 then e.grant tbSize else e

/-- What the allocator gives during one call: also whether the block of a STATUS PDU is found. -/
structure Blocks extends Allocation where
  status : Bool

/-- A PDU in `pdus_to_mac_layer`: a STATUS PDU, a retransmission, or a new PDU. -/
inductive MacPdu where
  | control (pdu : StatusPdu)
  | again (out : Emitted)
  | fresh (mem : Memory) (tbSize : Int)

def MacPdu.size : MacPdu → Nat
  | .control pdu => pdu.size
  | .again out => out.tbSize.toNat
  | .fresh _ tbSize => tbSize.toNat

/-- The bytes that a PDU carries: all of a STATUS PDU, the payload of a retransmission, and of a new
PDU the payload that the receiver's decoder finds in it. -/
def MacPdu.carried : MacPdu → Int
  | .control pdu => pdu.size
  | .again out => out.payloadSize
  | .fresh mem tbSize => (getDataPduInfos mem (Int16.ofInt tbSize)).info.payloadSize

/-- `TRY TO SEND CONTROL PDU FIRST`. -/
def Entity.statusPdu (e : Entity) (blocks : Blocks) : Option StatusPdu :=
  if 2 ≤ e.tx.nbBytesRequestedByMac ∧ e.StatusDue ∧ blocks.status = true then
    sendStatusPdu e.vrR e.vrMs e.tx.nbBytesRequestedByMac.toNat e.receiverBuffer
  else
    none

/-- `THEN TRY TO SEND RETRANS PDU`. -/
def retransPdu (tx : Tx) (alloc : Allocation) (now : Nat) : Tx × Option Emitted :=
  if tx.retransNumBytesToRetransmit ≠ 0 ∧ tx.nbBytesRequestedByMac > 2 then
    getPduToRetransmit tx alloc.allocated now
  else
    (tx, none)

/-- `THEN TRY TO SEND NEW DATA PDU`. -/
def newDataPdu (tx : Tx) (alloc : Allocation) (now : Nat) : Tx × Option (Memory × Int) :=
  if tx.nbBytesRequestedByMac > 2 ∧ tx.sduBufferOccupancy ≠ 0 ∧ tx.vtS ≠ tx.vtMs then
    segment10 tx alloc.block alloc.copied now
  else
    (tx, none)

/-- `rlc_am_get_pdus` in `RLC_DATA_TRANSFER_READY_STATE`. -/
def Entity.getPdus (e : Entity) (blocks : Blocks) (now : Nat) : Entity × Option MacPdu :=
  match e.statusPdu blocks with
  | some pdu => (startTimerStatusProhibit { e with statusRequested := 0 } now, some (.control pdu))
  | none =>
    match retransPdu e.tx blocks.toAllocation now with
    | (tx, some out) => ({ e with tx }, some (.again out))
    | (tx, none) =>
      let (tx, pdu) := newDataPdu tx blocks.toAllocation now
      ({ e with tx }, pdu.map fun (mem, tbSize) => .fresh mem tbSize)

/-- Without a STATUS PDU a request is the data part of `rlc_am_get_pdus`. -/
theorem getPdus_data {e : Entity} {blocks : Blocks} {now : Nat}
    (quiet : e.statusPdu blocks = none) :
    (e.getPdus blocks now).1 = { e with tx := (Am.getPdus e.tx blocks.toAllocation now).1 } := by
  rw [Entity.getPdus, quiet, Am.getPdus, retransPdu]
  generalize (if e.tx.retransNumBytesToRetransmit ≠ 0 ∧ e.tx.nbBytesRequestedByMac > 2 then
    getPduToRetransmit e.tx blocks.allocated now else (e.tx, none)) = searched
  obtain ⟨tx, emitted⟩ := searched
  cases emitted with
  | some out => rfl
  | none => rfl

end OpenAir.Rlc.Am
