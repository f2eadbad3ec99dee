import OpenAir.Lib.BitField
import OpenAir.Rlc.Am.Constants

/-! The transmitting side of an acknowledged-mode entity: its state, and what an
acknowledgement, a negative acknowledgement and the confirmation of an SDU do to it. -/
namespace OpenAir.Rlc.Am
open BitField

/-- `rlc_am_tx_data_pdu_management_t`. The block is seen from the first byte of the
PDU, `payload` is an address in it, and the SDU stored `k`-th has index `k` in
`sdus_index`. -/
structure TxPdu where
  memBlock : Option Memory := none
  payload : Nat := 0
  sdusIndex : List Nat := []
  holeSoStart : Nat → Int := fun _ => 0
  holeSoStop : Nat → Int := fun _ => 0
  numHoles : Nat := 0
  retxHoleIndex : Nat := 0
  headerAndPayloadSize : Int := 0
  payloadSize : Int := 0
  retxPayloadSize : Int := 0
  sn : Nat := 0
  nackSoStart : Int := 0
  nackSoStop : Int := 0
  retxCount : Int := 0
  retxCountNext : Int := 0
  transmitted : Bool := false
  ack : Bool := false
  nack : Bool := false
  retransmit : Bool := false
  maxRetransmit : Bool := false

/-- `nb_sdus`, an `int8_t` incremented at every store. -/
def TxPdu.nbSdus (pdu : TxPdu) : Int := Int.bmod pdu.sdusIndex.length 256

/-- `rlc_am_tx_sdu_management_t`. The block is seen from `first_byte` on. -/
structure TxSdu where
  memBlock : Option Memory := none
  mui : Nat := 0
  sduRemainingSize : Nat := 0
  sduSegmentedSize : Nat := 0
  sduSize : Nat := 0
  pdusIndex : List Nat := []
  nbPdusAck : Nat := 0
  transmittedSuccessfully : Bool := false

/-- `nb_pdus`, a `uint8_t` incremented at every store. -/
def TxSdu.nbPdus (sdu : TxSdu) : Nat := sdu.pdusIndex.length % 256

/-- `rlc_am_timer_t`. -/
structure Timer where
  running : Bool := false
  timedOut : Bool := false
  msStart : Nat := 0
  msTimeOut : Nat := 0
  msDuration : Nat := 0

/-- The transmitting side of `rlc_am_entity_t`. -/
structure Tx where
  vtA : Nat := 0
  vtS : Nat := 0
  vtMs : Nat := windowSize
  pollSn : Nat := 0
  cPduWithoutPoll : Nat := 0
  cByteWithoutPoll : Nat := 0
  pollPdu : Nat := 0
  pollByte : Nat := 0
  maxRetxThreshold : Nat := 0
  forcePoll : Bool := false
  tPollRetransmit : Timer := {}
  inputSdus : Nat → TxSdu := fun _ => {}
  nbSdu : Int := 0
  nbSduNoSegmented : Int := 0
  nextSduIndex : Nat := 0
  currentSduIndex : Nat := 0
  sduBufferOccupancy : Int := 0
  txDataPduBuffer : Nat → TxPdu := fun _ => {}
  retransNumPdus : Int := 0
  retransNumBytesToRetransmit : Int := 0
  nbBytesRequestedByMac : Int := 0

def Tx.pdu (tx : Tx) (sn : Nat) : TxPdu := tx.txDataPduBuffer (sn % windowSize)

def Tx.setPdu (tx : Tx) (sn : Nat) (pdu : TxPdu) : Tx :=
  { tx with txDataPduBuffer := Function.update tx.txDataPduBuffer (sn % windowSize) pdu }

def Tx.setSdu (tx : Tx) (index : Nat) (sdu : TxSdu) : Tx :=
  { tx with inputSdus := Function.update tx.inputSdus index sdu }

/-- `rlc_am_ack_pdu`. An SN acknowledged twice with bytes still pending leaves
before the flags are set. -/
def ackPdu (tx : Tx) (sn : Nat) (freePdu : Bool) : Tx :=
  let pdu := { tx.pdu sn with retransmit := false }
  let acked (pdu : TxPdu) : TxPdu :=
    { pdu with ack := true, transmitted := false, retransmit := false }
  if pdu.memBlock.isSome then
    let pdu := if freePdu then { pdu with memBlock := none } else pdu
    if pdu.retxPayloadSize ≠ 0 then
      if pdu.ack then
        tx.setPdu sn pdu
      else
        { tx with
          retransNumBytesToRetransmit := tx.retransNumBytesToRetransmit - pdu.retxPayloadSize
          retransNumPdus := tx.retransNumPdus - 1 }.setPdu sn
            (acked { pdu with retxPayloadSize := 0, numHoles := 0 })
    else
      tx.setPdu sn (acked pdu)
  else
    tx.setPdu sn (acked pdu)

/-- What a negative acknowledgement asks of one PDU: the slot with its holes, whether
the retransmission counts anew, and the bytes to send again. -/
structure NackRequest where
  pdu : TxPdu
  retxCountIncrement : Bool := false
  pduDataToRetx : Int := 0

/-- The case analysis of `rlc_am_nack_pdu`; the flag is its `status`. -/
def nackRequest (pdu : TxPdu) (sn prevNackSn : Nat) (soStart soEnd : Int) : Bool × NackRequest :=
  if soStart > soEnd then
    (false, { pdu })
  else if soStart = 0 ∧ soEnd = 0x7FFF then
    if prevNackSn ≠ sn ∧ pdu.ack = false ∧ pdu.maxRetransmit = false then
      (decide (0 < pdu.payloadSize),
        { pdu := { pdu with
            nackSoStart := 0
            numHoles := 0
            retxHoleIndex := 0
            nackSoStop := pdu.payloadSize - 1 }
          retxCountIncrement := !pdu.retransmit || pdu.nackSoStart != 0
          pduDataToRetx := pdu.payloadSize })
    else
      (false, { pdu })
  else if pdu.maxRetransmit = false then
    let soEnd := if soEnd = 0x7FFF then pdu.payloadSize - 1 else soEnd
    if soStart ≤ soEnd ∧ soEnd < pdu.payloadSize then
      if prevNackSn ≠ sn then
        (true,
          { pdu := { pdu with
              numHoles := 1
              retxHoleIndex := 0
              holeSoStart := Function.update pdu.holeSoStart 0 soStart
              holeSoStop := Function.update pdu.holeSoStop 0 soEnd
              nackSoStart := soStart
              nackSoStop := soEnd }
            retxCountIncrement := !pdu.retransmit || decide (soStart < pdu.nackSoStart)
            pduDataToRetx := soEnd - soStart + 1 })
      else if pdu.numHoles ≠ 0 ∧ pdu.numHoles < maxHolesReportPerPdu then
        if soStart > pdu.holeSoStop (pdu.numHoles - 1) then
          (true,
            { pdu := { pdu with
                holeSoStart := Function.update pdu.holeSoStart pdu.numHoles soStart
                holeSoStop := Function.update pdu.holeSoStop pdu.numHoles soEnd
                nackSoStop := soEnd
                numHoles := pdu.numHoles + 1 }
              pduDataToRetx := soEnd - soStart + 1 })
        else
          (false, { pdu })
      else
        (false, { pdu })
    else
      (false, { pdu })
  else
    (false, { pdu })

/-- `rlc_am_nack_pdu`: the returned `status` and the state. -/
def nackPdu (tx : Tx) (sn prevNackSn : Nat) (soStart soEnd : Int) : Bool × Tx :=
  if (tx.pdu sn).memBlock.isSome then
    let (status, request) := nackRequest (tx.pdu sn) sn prevNackSn soStart soEnd
    if status then
      let pdu := { request.pdu with nack := true }
      let pdu := if request.retxCountIncrement ∧ pdu.retxCount = pdu.retxCountNext then
        { pdu with retxCountNext := pdu.retxCountNext + 1 } else pdu
      if pdu.retransmit then
        if prevNackSn ≠ sn then
          (true, { tx with
            retransNumBytesToRetransmit :=
              tx.retransNumBytesToRetransmit +
                (request.pduDataToRetx - pdu.retxPayloadSize) }.setPdu sn
            { pdu with retxPayloadSize := request.pduDataToRetx })
        else if pdu.numHoles > 1 then
          (true, { tx with
            retransNumBytesToRetransmit :=
              tx.retransNumBytesToRetransmit + request.pduDataToRetx }.setPdu sn
            { pdu with retxPayloadSize := pdu.retxPayloadSize + request.pduDataToRetx })
        else
          (true, tx.setPdu sn pdu)
      else
        (true, { tx with
          retransNumBytesToRetransmit := tx.retransNumBytesToRetransmit + request.pduDataToRetx
          retransNumPdus := tx.retransNumPdus + 1 }.setPdu sn
          { pdu with retransmit := true, retxPayloadSize := request.pduDataToRetx })
    else
      (false, tx.setPdu sn request.pdu)
  else
    (false, tx)

/-- The loop of `rlc_am_free_in_sdu` that moves `current_sdu_index` over the SDUs
already confirmed; the ring bounds its rounds. -/
def skipConfirmed : Nat → Tx → Tx
  | 0, tx => tx
  | rounds + 1, tx =>
    if tx.currentSduIndex ≠ tx.nextSduIndex ∧
        (tx.inputSdus tx.currentSduIndex).transmittedSuccessfully then
      skipConfirmed rounds
        { tx with currentSduIndex := (tx.currentSduIndex + 1) % sduControlBufferSize }
    else
      tx

def freeInSdu (tx : Tx) (index : Nat) : Tx :=
  if (tx.inputSdus index).memBlock.isSome then
    tx
  else
    let tx := { tx with nbSdu := tx.nbSdu - 1 }.setSdu index { transmittedSuccessfully := true }
    let tx := if tx.currentSduIndex = index then
      { tx with currentSduIndex := (tx.currentSduIndex + 1) % sduControlBufferSize } else tx
    skipConfirmed sduControlBufferSize tx

def freeInSduData (tx : Tx) (index : Nat) : Tx :=
  if (tx.inputSdus index).memBlock.isSome then
    { tx with nbSduNoSegmented := tx.nbSduNoSegmented - 1 }.setSdu index
      { tx.inputSdus index with memBlock := none, sduRemainingSize := 0 }
  else
    tx

/-- One SDU of `rlc_am_pdu_sdu_data_cnf`, with the confirmations given to the
upper layer. -/
def confirmSdu (out : Tx × List Nat) (index : Nat) : Tx × List Nat :=
  if index ≥ sduControlBufferSize then
    out
  else
    let sdu := out.1.inputSdus index
    let sdu := { sdu with nbPdusAck := (sdu.nbPdusAck + 1) % 256 }
    let tx := out.1.setSdu index sdu
    if sdu.nbPdusAck = sdu.nbPdus ∧ sdu.sduRemainingSize = 0 then
      (freeInSdu tx index, out.2 ++ [sdu.mui])
    else
      (tx, out.2)

/-- `rlc_am_pdu_sdu_data_cnf`: the first `nb_sdus` entries of the slot. -/
def pduSduDataCnf (out : Tx × List Nat) (sn : Nat) : Tx × List Nat :=
  let pdu := out.1.pdu sn
  (pdu.sdusIndex.take pdu.nbSdus.toNat).foldl confirmSdu out

/-- `rlc_am_stop_and_reset_timer_poll_retransmit`. -/
def Timer.stop (timer : Timer) : Timer := { msDuration := timer.msDuration }

/-- `rlc_am_start_timer_poll_retransmit` at the time `now`. -/
def Timer.start (timer : Timer) (now : Nat) : Timer :=
  if timer.msDuration > 0 then
    { timer.stop with running := true, msTimeOut := now + timer.msDuration, msStart := now }
  else
    timer.stop

end OpenAir.Rlc.Am
