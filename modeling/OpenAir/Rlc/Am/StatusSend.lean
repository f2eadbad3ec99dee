import OpenAir.Rlc.Am.RxBuffer
import OpenAir.Rlc.Am.StatusPdu

/-! Building a STATUS PDU from the receive list. -/
namespace OpenAir.Rlc.Am
open BitField

/-- The locals of `rlc_am_send_status_pdu` that its loops change; the header takes
15 bits. -/
structure StatusBuild where
  info : ControlPduInfo := {}
  nbBitsTransmitted : Nat := 15
  snNack : Nat
  completed : Bool := false
  allSegmentsReceived : Bool := false
deriving Repr, DecidableEq

/-- NACK_SN, E1 and E2. -/
def nackBits : Nat := 12

/-- NACK_SN, E1, E2, SOstart and SOend. -/
def nackSoBits : Nat := 42

namespace StatusBuild

def addNack (b : StatusBuild) (nack : NackSn) (bits : Nat) : StatusBuild :=
  { b with
    info := { b.info with nackList := b.info.nackList ++ [nack] }
    nbBitsTransmitted := b.nbBitsTransmitted + bits }

/-- No room left: ACK_SN is set and the report ends. -/
def stopAt (b : StatusBuild) (ackSn : Nat) : StatusBuild :=
  { b with info := { b.info with ackSn := ackSn }, completed := true }

end StatusBuild

/-- E1 is set for an entry that may follow; the last one is cleared at the end. -/
def nackWhole (sn : Nat) : NackSn := ⟨sn, true, false, 0, statusPduSoEndAllBytes⟩

/-- The offsets are stored in fields of 15 bits. -/
def nackRange (sn : Nat) (soStart soEnd : Int) : NackSn :=
  ⟨sn, true, true, (soStart % 2 ^ 15).toNat, (soEnd % 2 ^ 15).toNat⟩

/-- The loop that fills `NACK_SN` with the missing PDUs up to `snCursor`. One round
moves `snNack` on by one, so `snModulo` rounds are enough. -/
def nackMissing (vrR vrMs snCursor nbBitsToTransmit : Nat) : Nat → StatusBuild → StatusBuild
  | 0, b => b
  | rounds + 1, b =>
    if b.snNack ≠ snCursor ∧ diffSn b.snNack vrR < diffSn vrMs vrR then
      if b.nbBitsTransmitted + nackBits ≤ nbBitsToTransmit then
        nackMissing vrR vrMs snCursor nbBitsToTransmit rounds
          { b.addNack (nackWhole b.snNack) nackBits with snNack := nextSn b.snNack }
      else
        b.stopAt b.snNack
    else
      b

/-- A range of bytes is reported when it fits; otherwise the report ends at this SN. -/
def nackBytes (snCursor nbBitsToTransmit : Nat) (soStart soEnd : Int)
    (b : StatusBuild) : StatusBuild :=
  if b.nbBitsTransmitted + nackSoBits ≤ nbBitsToTransmit then
    b.addNack (nackRange snCursor soStart soEnd) nackSoBits
  else
    b.stopAt snCursor

/-- The loop over the segments behind the first one. A gap leaves `waitedSo` where
it was; only a contiguous segment moves it. Returns the cursor as well. -/
def nackSegments (snCursor nbBitsToTransmit : Nat) : List RxPdu → Int → StatusBuild →
    StatusBuild × List RxPdu
  | [], waitedSo, b => (nackBytes snCursor nbBitsToTransmit waitedSo statusPduSoEndAllBytes b, [])
  | e :: rest, waitedSo, b =>
    if e.info.sn = snCursor then
      if waitedSo < e.info.so then
        let b := nackBytes snCursor nbBitsToTransmit waitedSo (e.info.so - 1) b
        if b.completed then (b, e :: rest)
        else if e.info.lsf then (b, rest)
        else nackSegments snCursor nbBitsToTransmit rest waitedSo b
      else if e.info.lsf then (b, rest)
      else nackSegments snCursor nbBitsToTransmit rest (waitedSo + e.info.payloadSize) b
    else
      (nackBytes snCursor nbBitsToTransmit waitedSo statusPduSoEndAllBytes b, e :: rest)

/-- The segments of a PDU that is not fully received, `e` the first one stored.
That one range fits has been checked by the caller. -/
def nackSegmented (nbBitsToTransmit : Nat) (e : RxPdu) (rest : List RxPdu) (b : StatusBuild) :
    StatusBuild × List RxPdu :=
  let b := if e.info.so ≠ 0 then b.addNack (nackRange e.info.sn 0 (e.info.so - 1)) nackSoBits else b
  let waitedSo : Int := e.info.so + e.info.payloadSize
  if e.info.lsf then (b, rest) else nackSegments e.info.sn nbBitsToTransmit rest waitedSo b

/-- What one round of the main loop does at the element `e` once `snNack` has been
brought up to it: the report and the cursor. -/
def nackElement (vrMs nbBitsToTransmit : Nat) (e : RxPdu) (rest : List RxPdu) (b : StatusBuild) :
    StatusBuild × List RxPdu :=
  if b.completed = false ∧ e.allSegmentsReceived = false ∧ e.info.sn ≠ vrMs then
    if b.snNack ≠ e.info.sn then
      (b, e :: rest)
    else if b.nbBitsTransmitted + nackSoBits ≤ nbBitsToTransmit then
      nackSegmented nbBitsToTransmit e rest b
    else
      (b.stopAt b.snNack, e :: rest)
  else
    (b, rest.dropWhile fun other => other.info.sn = e.info.sn)

/-- The main loop. Every round takes at least one element off the list, so as many
rounds as there are elements are enough. -/
def statusLoop (vrR vrMs nbBitsToTransmit : Nat) : Nat → List RxPdu → StatusBuild → StatusBuild
  | 0, _, b => b
  | _, [], b => b
  | rounds + 1, e :: rest, b =>
    if b.completed = false ∧ diffSn b.snNack vrR < diffSn vrMs vrR ∧
        b.nbBitsTransmitted ≤ nbBitsToTransmit then
      let b := nackMissing vrR vrMs e.info.sn nbBitsToTransmit snModulo
        { b with allSegmentsReceived := e.allSegmentsReceived }
      if b.snNack = vrMs then
        b
      else
        let (b, cursor) := nackElement vrMs nbBitsToTransmit e rest b
        statusLoop vrR vrMs nbBitsToTransmit rounds cursor
          { b with
            snNack := if diffSn e.info.sn vrR < diffSn vrMs vrR then nextSn e.info.sn else vrMs }
    else
      b

def clearLastE1 : List NackSn → List NackSn
  | [] => []
  | [nack] => [{ nack with e1 := false }]
  | nack :: rest => nack :: clearLastE1 rest

/-- The control PDU to be written and the bits it takes; `none` when there is
nothing to report although VR(R) and VR(MS) differ. -/
def buildStatus (vrR vrMs nbBytesRequested : Nat) (l : List RxPdu) :
    Option (ControlPduInfo × Nat) :=
  let nbBitsToTransmit := 8 * nbBytesRequested
  if vrR = vrMs then
    some ({ ackSn := vrMs }, 15)
  else if l ≠ [] ∧ 15 + nackBits ≤ nbBitsToTransmit then
    let b := statusLoop vrR vrMs nbBitsToTransmit l.length l
      { info := { e1 := true }, snNack := vrR }
    if b.info.nackList = [] ∧ b.allSegmentsReceived = true then
      none
    else
      some ({ b.info with
        ackSn := if b.completed then b.info.ackSn else b.snNack
        nackList := clearLastE1 b.info.nackList }, b.nbBitsTransmitted)
  else
    some ({ ackSn := vrR }, 15)

structure StatusPdu where
  info : ControlPduInfo
  mem : Memory
  size : Nat

/-- `rlc_am_send_status_pdu`, with a block to write to. -/
def sendStatusPdu (vrR vrMs nbBytesRequested : Nat) (l : List RxPdu) : Option StatusPdu :=
  (buildStatus vrR vrMs nbBytesRequested l).bind fun (info, nbBitsTransmitted) =>
    let forecast := (nbBitsTransmitted + 7) / 8
    if forecast > nbBytesRequested then
      none
    else
      let (mem, size) := writeStatusPdu (fun _ => 0) info
      if size ≠ forecast then none else some ⟨info, mem, size⟩

end OpenAir.Rlc.Am
