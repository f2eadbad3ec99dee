import OpenAir.Rlc.Am.Tx

/-! Segmentation and concatenation of the queued SDUs into a new AMD PDU: a first
pass that reserves the header, a second that writes it and copies the data. -/
namespace OpenAir.Rlc.Am
open BitField

/-- `memcpy`. -/
def copyBytes (mem : Memory) (dest : Nat) (source : Memory) (start size : Nat) : Memory :=
  fun a => if dest ≤ a ∧ a < dest + size then source (start + (a - dest)) else mem a

def setByte (mem : Memory) (a : Nat) (x : Nat) : Memory := Function.update mem a (UInt8.ofNat x)

/-- `rlc_am_data_req`: a new SDU of `size` bytes, dropped when the ring is full. -/
def dataReq (tx : Tx) (bytes : Memory) (size mui : Nat) : Tx :=
  let next := (tx.nextSduIndex + 1) % sduControlBufferSize
  if (tx.inputSdus tx.nextSduIndex).memBlock.isNone ∧ next ≠ tx.currentSduIndex then
    { tx with
      sduBufferOccupancy := tx.sduBufferOccupancy + size
      nbSdu := tx.nbSdu + 1
      nbSduNoSegmented := tx.nbSduNoSegmented + 1
      nextSduIndex := next }.setSdu tx.nextSduIndex
      { memBlock := some bytes, mui, sduSize := size, sduRemainingSize := size }
  else
    tx

/-- The variables of the first pass; `pdu` is the slot being filled. -/
structure FirstPass where
  tx : Tx
  pdu : TxPdu
  sduBufferIndex : Nat
  pduRemainingSize : Nat
  testPduRemainingSize : Nat
  testLiLengthInBytes : Nat := 1
  testNumLi : Nat := 0
  testRemainingSizeToSubstract : Nat := 0
  testRemainingNumLiToSubstract : Nat := 0
  continueFill : Bool := true

/-- No more SDU goes into the PDU, and `reduce` bytes of it stay unused. -/
def FirstPass.stop (s : FirstPass) (reduce : Nat) : FirstPass :=
  { s with
    continueFill := false
    testPduRemainingSize := 0
    testRemainingSizeToSubstract := 0
    testRemainingNumLiToSubstract := 0
    pduRemainingSize := s.pduRemainingSize - reduce }

/-- The case analysis of the first pass on one SDU. -/
def FirstPass.fit (s : FirstPass) (remaining : Nat) : FirstPass :=
  let li := s.testLiLengthInBytes ^^^ 3
  if remaining > s.testPduRemainingSize then
    s.stop 0
  else if remaining = s.testPduRemainingSize then
    s.stop 0
  else if remaining + li = s.testPduRemainingSize then
    s.stop li
  else if remaining + li < s.testPduRemainingSize then
    if s.pdu.nbSdus ≥ maxSduInPdu - 1 then
      s.stop 1
    else
      { s with
        testNumLi := s.testNumLi + 1
        testPduRemainingSize := s.testPduRemainingSize - (remaining + li)
        testRemainingSizeToSubstract := li
        testRemainingNumLiToSubstract := 1
        testLiLengthInBytes := li }
  else
    s.stop 1

/-- The SDU and the PDU remember each other. -/
def FirstPass.link (s : FirstPass) : FirstPass :=
  let sdu := s.tx.inputSdus s.sduBufferIndex
  { s with
    pdu := { s.pdu with sdusIndex := s.pdu.sdusIndex ++ [s.sduBufferIndex] }
    tx := s.tx.setSdu s.sduBufferIndex
      { sdu with pdusIndex := sdu.pdusIndex ++ [s.tx.vtS % pduRetransmissionBufferSize] } }

/-- `compute how many SDUS can fill the PDU`. Every round stores an index in
`sdus_index`, and the check on `nb_sdus` ends the loop at the last one. -/
def firstPass : Nat → FirstPass → FirstPass
  | 0, s => s
  | rounds + 1, s =>
    let sdu := s.tx.inputSdus s.sduBufferIndex
    if sdu.memBlock.isSome ∧ s.continueFill then
      let s := (s.fit sdu.sduRemainingSize).link
      if (s.tx.inputSdus s.sduBufferIndex).nbPdus ≥ maxSduFragments then
        s
      else
        firstPass rounds { s with sduBufferIndex := (s.sduBufferIndex + 1) % sduControlBufferSize }
    else
      s

/-- `there is a LI that is not necessary`: the number of indicators and the size
left to the second pass. -/
def FirstPass.result (s : FirstPass) : Nat × Nat :=
  if s.testRemainingNumLiToSubstract > 0 then
    (s.testNumLi - 1, s.pduRemainingSize - s.testRemainingSizeToSubstract)
  else
    (s.testNumLi, s.pduRemainingSize)

/-- The variables of the second pass; `data` and `eLi` are addresses in the PDU. -/
structure SecondPass where
  tx : Tx
  mem : Memory
  data : Nat
  pduRemainingSize : Nat
  eLi : Nat := 2
  payloadSize : Nat := 0
  liLengthInBytes : Nat := 1
  fillNumLi : Nat := 0
  fiLast : Bool := false
  continueFill : Bool := true

/-- Copy `size` bytes of the current SDU behind the data already there. -/
def SecondPass.copy (s : SecondPass) (bytes : Memory) (size : Nat) : SecondPass :=
  let sdu := s.tx.inputSdus s.tx.currentSduIndex
  { s with
    mem := copyBytes s.mem s.data bytes sdu.sduSegmentedSize size
    payloadSize := s.payloadSize + size
    tx := { s.tx with sduBufferOccupancy := s.tx.sduBufferOccupancy - size } }

def SecondPass.finishSdu (s : SecondPass) : SecondPass :=
  let index := s.tx.currentSduIndex
  { s with tx := { freeInSduData s.tx index with currentSduIndex := (index +
    1) % sduControlBufferSize } }

/-- Write the length indicator of an SDU of `size` bytes. -/
def SecondPass.writeLi (s : SecondPass) (testNumLi size : Nat) : SecondPass :=
  let li := s.liLengthInBytes ^^^ 3
  let fill := s.fillNumLi + 1
  let s := { s with liLengthInBytes := li, fillNumLi := fill }
  if li = 2 then
    let b1 := if fill = testNumLi then 0 else 0x80
    { s with mem := setByte (setByte s.mem s.eLi (b1 ||| (size >>> 4))) (s.eLi + 1) (size <<< 4) }
  else
    let b2 := (s.mem (s.eLi + 1)).toNat
    let b2 := if fill ≠ testNumLi then b2 ||| 0x08 else b2
    { s with
      mem := setByte (setByte s.mem (s.eLi + 1) (b2 ||| (size >>> 8))) (s.eLi + 2) (size &&& 0xFF)
      eLi := s.eLi + 3 }

/-- `Do the real filling of the pdu_p`, on one SDU. -/
def SecondPass.fill (s : SecondPass) (testNumLi : Nat) (bytes : Memory) : SecondPass :=
  let index := s.tx.currentSduIndex
  let sdu := s.tx.inputSdus index
  let remaining := sdu.sduRemainingSize
  if remaining > s.pduRemainingSize then
    let size := s.pduRemainingSize
    let s := s.copy bytes size
    { s with
      tx := s.tx.setSdu index { sdu with
        sduRemainingSize := remaining - size
        sduSegmentedSize := sdu.sduSegmentedSize + size }
      fiLast := false
      continueFill := false
      pduRemainingSize := 0 }
  else if remaining = s.pduRemainingSize then
    { (s.copy bytes
      remaining).finishSdu with fiLast := true, continueFill := false, pduRemainingSize := 0 }
  else if remaining + (s.liLengthInBytes ^^^ 3) < s.pduRemainingSize then
    if s.fillNumLi = maxSduInPdu - 1 then
      { (s.copy bytes
        remaining).finishSdu with fiLast := true, continueFill := false, pduRemainingSize := 0 }
    else
      let s := (s.copy bytes remaining).writeLi testNumLi remaining
      { s.finishSdu with
        data := s.data + remaining
        pduRemainingSize := s.pduRemainingSize - (remaining + s.liLengthInBytes) }
  else
    { (s.copy bytes remaining).finishSdu with
      fiLast := true
      continueFill := false
      pduRemainingSize := s.pduRemainingSize - remaining }

/-- Every round but the last writes a length indicator, and the check on
`fill_num_li` ends the loop. -/
def secondPass (testNumLi : Nat) : Nat → SecondPass → SecondPass
  | 0, s => s
  | rounds + 1, s =>
    match (s.tx.inputSdus s.tx.currentSduIndex).memBlock with
    | some bytes => if s.continueFill then
        secondPass testNumLi rounds (s.fill testNumLi bytes) else s
    | none => s

/-- `rlc_am_pdu_polling`: the state and the first byte with its poll bit. -/
def pduPolling (tx : Tx) (b1 : Nat) (payloadSize : Int) (isNewPdu : Bool) (now : Nat) : Tx × Nat :=
  let tx := if isNewPdu ∧ tx.pollPdu ≠ 0xFFFF then
    { tx with cPduWithoutPoll := tx.cPduWithoutPoll + 1 } else tx
  let tx := if isNewPdu ∧ tx.pollByte ≠ 0xFFFFFFFF then
    { tx with cByteWithoutPoll := ((tx.cByteWithoutPoll + int16 payloadSize) % 2 ^ 32).toNat }
      else tx
  if (isNewPdu ∧ (tx.cPduWithoutPoll ≥ tx.pollPdu ∨ tx.cByteWithoutPoll ≥ tx.pollByte)) ∨
      (tx.sduBufferOccupancy = 0 ∧ tx.retransNumBytesToRetransmit = 0) ∨ tx.vtS = tx.vtMs ∨
          tx.forcePoll then
    ({ tx with
      forcePoll := false
      cPduWithoutPoll := 0
      cByteWithoutPoll := 0
      pollSn := prevSn tx.vtS
      tPollRetransmit := tx.tPollRetransmit.start now }, b1 ||| (1 <<< 5))
  else
    (tx, b1 &&& (0xFF ^^^ (1 <<< 5)))

/-- The size of the new PDU: what the grant allows, but no more than the queue needs. -/
def dataPduSize (tx : Tx) : Int :=
  let maxLiOverhead := if tx.nbSduNoSegmented ≤ 1 then
    0 else headerLiLength (tx.nbSduNoSegmented - 1).toNat
  let all := tx.sduBufferOccupancy + headerMinSize + maxLiOverhead
  if tx.nbBytesRequestedByMac ≥ all then all else tx.nbBytesRequestedByMac

/-- The first byte before polling: framing info, E, D/C and the high bits of the SN. -/
def firstByte (fiFirst fiLast : Bool) (fillNumLi vtS : Nat) : Nat :=
  let fi := (if fiFirst then 0 else 2) + if fiLast then 0 else 1
  let b1 := fi <<< 3
  let b1 := if fillNumLi > 0 then b1 ||| (1 <<< 2) else b1
  (b1 ||| (1 <<< 7)) ||| (vtS >>> 8)

/-- The two passes over the queue for a PDU of `size` bytes in the block `mem`. -/
def fillPdu (tx : Tx) (mem : Memory) (size : Nat) : FirstPass × SecondPass × Nat :=
  let remaining := size - headerMinSize
  let first := firstPass maxSduInPdu
    { tx, pdu := {}, sduBufferIndex := tx.currentSduIndex, pduRemainingSize := remaining
      testPduRemainingSize := remaining }
  let (testNumLi, pduRemainingSize) := first.result
  let second := secondPass testNumLi maxSduInPdu
    { tx := first.tx, mem := copyBytes mem 0 (fun
      _ => 0) 0 4, data := 2 + ((testNumLi * 3 + 1) >>> 1)
      pduRemainingSize }
  (first, second, testNumLi)

/-- `rlc_am_segment_10`. `block` is what `get_free_mem_block` gives for the PDU, and
`copied` tells whether the block for the copy was found. Returns the state and the
copy handed to the MAC layer with its `tb_size`. -/
def segment10 (tx : Tx) (block : Option Memory) (copied : Bool)
    (now : Nat) : Tx × Option (Memory × Int) :=
  if tx.sduBufferOccupancy ≤ 0 then
    (tx, none)
  else
    match (tx.inputSdus tx.currentSduIndex).memBlock, block with
    | some _, some mem =>
      if tx.nbBytesRequestedByMac > 0 then
        let sdu := tx.inputSdus tx.currentSduIndex
        let fiFirst := sdu.sduRemainingSize = sdu.sduSize
        let size := dataPduSize tx
        let (first, second, testNumLi) := fillPdu tx mem size.toNat
        let vtS := tx.vtS
        let b1 := firstByte fiFirst second.fiLast second.fillNumLi vtS
        let tbSize := size - second.pduRemainingSize
        let tx := { second.tx with vtS := (vtS + 1) % snModulo }
        let (tx, b1) := pduPolling tx b1 second.payloadSize true now
        let mem := setByte (setByte second.mem 1 (vtS &&& 0xFF)) 0 b1
        let tx := tx.setPdu vtS { first.pdu with
          memBlock := some mem
          payload := 2 + ((testNumLi * 3 + 1) >>> 1)
          payloadSize := second.payloadSize
          headerAndPayloadSize := tbSize
          transmitted := true
          sn := prevSn tx.vtS }
        (tx, if copied then some (mem, tbSize) else none)
      else
        (tx, none)
    | _, _ => (tx, none)

end OpenAir.Rlc.Am
