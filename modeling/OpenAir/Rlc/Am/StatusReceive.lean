import OpenAir.Rlc.Am.Tx
import OpenAir.Rlc.Am.StatusPdu

/-! Reception of a STATUS PDU by the transmitting side: the walk over the window
that acknowledges and negatively acknowledges, and the move of VT(A). -/
namespace OpenAir.Rlc.Am
open BitField

/-- A walk over the window. `acked` lists, in order, the SNs given to
`rlc_am_ack_pdu`; `pending` is the NACK list from `nack_index` on. -/
structure Walk where
  tx : Tx
  snCursor : Nat
  acked : List Nat := []
  pending : List NackSn := []
  prevNackSn : Nat := 0x3FFF
  status : Bool := true

/-- `rlc_am_ack_pdu` at the cursor. -/
def Walk.ack (w : Walk) (freePdu : Bool) : Walk :=
  { w with tx := ackPdu w.tx w.snCursor freePdu, acked := w.acked ++ [w.snCursor] }

def Walk.next (w : Walk) : Walk := { w with snCursor := nextSn w.snCursor }

/-- `while (sn_cursor != stop)` of the in-sequence part; `none` when the loop has
not ended after `rounds` rounds. -/
def ackUntil (stop : Nat) : Nat → Walk → Option Walk
  | 0, w => if w.snCursor = stop then some w else none
  | rounds + 1, w => if w.snCursor = stop then some w else ackUntil stop rounds (w.ack true).next

/-- The local `nack_sn`: behind the last NACK it holds ACK_SN. -/
def Walk.nackSn (w : Walk) (ackSn : Nat) : Nat :=
  match w.pending with
  | [] => ackSn
  | nack :: _ => nack.nackSn

/-- The body of the loop over the rest of the window; the flag says that it was
left by `break`. -/
def walkStep (ackSn : Nat) (w : Walk) : Bool × Walk :=
  match w.pending with
  | [] =>
    let w := if w.snCursor ≠ ackSn then w.ack false else w
    (false, if w.prevNackSn ≠ ackSn then w.next else w)
  | nack :: rest =>
    if w.snCursor ≠ nack.nackSn then
      let w := w.ack false
      (false, if w.prevNackSn ≠ nack.nackSn then w.next else w)
    else
      let (status, tx) := nackPdu w.tx nack.nackSn w.prevNackSn nack.soStart nack.soEnd
      let w := { w with tx, status, prevNackSn := nack.nackSn, pending := rest }
      if rest = [] ∧ nack.nackSn = ackSn then
        (true, w)
      else
        (false, if w.prevNackSn ≠ w.nackSn ackSn then w.next else w)

/-- `while ((sn_cursor != ack_sn) && (status))`. -/
def walkUntil (ackSn : Nat) : Nat → Walk → Option Walk
  | 0, w => if w.snCursor = ackSn ∨ w.status = false then some w else none
  | rounds + 1, w =>
    if w.snCursor = ackSn ∨ w.status = false then some w
    else
      match walkStep ackSn w with
      | (true, w) => some w
      | (false, w) => walkUntil ackSn rounds w

/-- What the walk leaves for the end of the function. -/
structure WalkResult where
  tx : Tx
  acked : List Nat
  status : Bool
  vtANew : Nat
  snDataCnf : Nat
  dataCnfSoStop : Int

/-- `catch DataCfn`: the last SN whose SDUs can be confirmed, and the offset up to
which it can. -/
def dataCnf (pdu : TxPdu) (nackSn : Nat) : Nat × Int :=
  if pdu.retxPayloadSize = pdu.payloadSize then (prevSn nackSn, 0x7FFF)
  else if pdu.nackSoStart ≠ 0 then (nackSn, pdu.nackSoStart - 1)
  else (prevSn nackSn, 0x7FFF)

/-- The branch taken when ACK_SN lies within the window. -/
def walkWindow (tx : Tx) (info : ControlPduInfo) : Option WalkResult :=
  match info.nackList with
  | [] =>
    (ackUntil info.ackSn snModulo ⟨tx, tx.vtA, [], [], 0x3FFF, true⟩).map fun w =>
      ⟨w.tx, w.acked, true, info.ackSn, prevSn info.ackSn, 0x7FFF⟩
  | nack :: _ =>
    (ackUntil nack.nackSn snModulo ⟨tx, tx.vtA, [], info.nackList, 0x3FFF, true⟩).bind fun first =>
      let cnf := dataCnf (first.tx.pdu nack.nackSn) nack.nackSn
      (walkUntil info.ackSn (snModulo + info.nackList.length) first).map fun w =>
        ⟨w.tx, w.acked, w.status, nack.nackSn, cnf.1, cnf.2⟩

/-- `while (sn_cursor != sn_data_cnf)`, confirming the SDUs of every PDU on the way. -/
def confirmUntil (stop : Nat) : Nat → Nat → Tx × List Nat → Option (Tx × List Nat)
  | 0, cursor, out => if cursor = stop then some out else none
  | rounds + 1, cursor, out =>
    if cursor = stop then some out else confirmUntil stop rounds (nextSn cursor)
      (pduSduDataCnf out cursor)

/-- `Check for Stopping TpollReTx`. -/
def stopPolling (tx : Tx) (ackSn : Nat) : Tx :=
  if tx.pollSn ≠ snUndefined ∧ diffSn ackSn tx.vtA > diffSn tx.pollSn tx.vtA then
    { tx with tPollRetransmit := tx.tPollRetransmit.stop, pollSn := snUndefined }
  else
    tx

/-- The confirmations given to the upper layer, when the last PDU to confirm has
been transmitted. -/
def confirmPdus (tx : Tx) (snDataCnf : Nat) (dataCnfSoStop : Int) : Option (Tx × List Nat) :=
  if (tx.pdu snDataCnf).transmitted ∧ (tx.pdu snDataCnf).sn = snDataCnf then
    (confirmUntil snDataCnf snModulo tx.vtA (tx, [])).map fun out =>
      if dataCnfSoStop = 0x7FFF then pduSduDataCnf out snDataCnf else out
  else
    some (tx, [])

/-- The end of the function: the poll timer, the confirmations, then VT(A) and VT(MS). -/
def finishControlPdu (info : ControlPduInfo) (r : WalkResult) : Option (Tx × List Nat) :=
  (confirmPdus (stopPolling r.tx info.ackSn) r.snDataCnf r.dataCnfSoStop).map fun out =>
    ({ out.1 with vtA := r.vtANew, vtMs := (r.vtANew + windowSize) % snModulo }, out.2)

/-- What the processing of a STATUS PDU leaves behind. -/
structure ControlResult where
  tx : Tx
  acked : List Nat := []
  confirmed : List Nat := []
  status : Bool := false
  tbSize : Int

/-- `rlc_am_receive_process_control_pdu`; `none` would be a loop that does not end. -/
def receiveProcessControlPdu (tx : Tx) (mem : Memory) (tbSize : Int) : Option ControlResult :=
  let read := getControlPduInfos mem tbSize
  let info := read.info
  if read.ret ≥ 0 then
    if info.ackSn ≥ snModulo ∨ info.nackList.length ≥ maxNackInStatusPdu then
      some { tx, tbSize := read.totalSize }
    else if diffSn tx.vtS tx.vtA ≥ diffSn info.ackSn tx.vtA then
      (walkWindow tx info).bind fun r =>
        if r.status then
          (finishControlPdu info r).map fun out =>
            { tx := out.1, acked := r.acked, confirmed := out.2, status := true
              tbSize := read.totalSize }
        else
          some { tx := r.tx, acked := r.acked, tbSize := read.totalSize }
    else
      some { tx, tbSize := 0 }
  else
    some { tx, tbSize := 0 }

end OpenAir.Rlc.Am
