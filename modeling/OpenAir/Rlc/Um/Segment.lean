import OpenAir.Rlc.Um.Dar

/-! Segmentation and concatenation of the queued SDUs into a UMD PDU: a first pass that counts
the length indicators, a second that writes them and copies the data. -/
namespace OpenAir.Rlc.Um
open BitField
open Am (copyBytes setByte headerLiLength)

/-- `rlc_um_tx_sdu_management` with the bytes of the SDU behind it. -/
structure TxSdu where
  mem : Memory
  sduSize : Nat
  sduRemainingSize : Nat
  sduSegmentedSize : Nat := 0

/-- The sending side of `rlc_um_entity_t`; `vtUs` has sixteen bits. -/
structure Tx where
  inputSdus : List TxSdu := []
  bufferOccupancy : Int := 0
  vtUs : Nat := 0

def dataReq (tx : Tx) (mem : Memory) (size : Nat) : Tx :=
  { tx with
    bufferOccupancy := tx.bufferOccupancy + size
    inputSdus := tx.inputSdus ++ [{ mem, sduSize := size, sduRemainingSize := size }] }

structure FirstPass where
  dataPduSize : Nat
  pduRemainingSize : Nat
  testPduRemainingSize : Nat
  testLiLengthInBytes : Nat := 1
  testNumLi : Nat := 0
  testRemainingSizeToSubstract : Nat := 0
  testRemainingNumLiToSubstract : Nat := 0
deriving Repr, DecidableEq

/-- No more SDU goes into the PDU. The second pass is left `reduce` bytes less, and the PDU
gets `shrink` bytes shorter. -/
def FirstPass.stop (s : FirstPass) (reduce shrink : Nat) : FirstPass :=
  { s with
    testPduRemainingSize := 0
    testRemainingSizeToSubstract := 0
    testRemainingNumLiToSubstract := 0
    pduRemainingSize := s.pduRemainingSize - reduce
    dataPduSize := s.dataPduSize - shrink }

/-- `compute how many SDUS can fill the PDU`. The two builders differ where bytes stay behind
the last SDU: `rlc_um_segment_5` takes them off the room and off the size of the PDU,
`rlc_um_segment_10` takes one byte off the room only. -/
def firstPass (length : SnLength) : List TxSdu → FirstPass → FirstPass
  | [], s => s
  | sdu :: rest, s =>
    let li := s.testLiLengthInBytes ^^^ 3
    if sdu.sduRemainingSize > s.testPduRemainingSize then
      s.stop 0 0
    else if sdu.sduRemainingSize = s.testPduRemainingSize then
      s.stop 0 0
    else if sdu.sduRemainingSize + li = s.testPduRemainingSize then
      match length with
      | .ten => s.stop 0 0
      | .five => s.stop li li
    else if sdu.sduRemainingSize + li < s.testPduRemainingSize then
      firstPass length rest { s with
        testNumLi := s.testNumLi + 1
        testPduRemainingSize := s.testPduRemainingSize - (sdu.sduRemainingSize + li)
        testRemainingSizeToSubstract := li
        testRemainingNumLiToSubstract := 1
        testLiLengthInBytes := li }
    else
      match length with
      | .ten => s.stop 1 0
      | .five => s.stop 1 1

/-- `there is a LI that is not necessary`: the number of indicators and the size left to the
second pass. -/
def FirstPass.result (s : FirstPass) : Nat × Nat :=
  if s.testRemainingNumLiToSubstract > 0 then
    (s.testNumLi - 1, s.pduRemainingSize - s.testRemainingSizeToSubstract)
  else
    (s.testNumLi, s.pduRemainingSize)

/-- The variables of the second pass; `data` and `eLi` are addresses in the PDU. -/
structure SecondPass where
  mem : Memory
  data : Nat
  eLi : Nat
  pduRemainingSize : Nat
  bufferOccupancy : Int
  liLengthInBytes : Nat := 1
  fillNumLi : Nat := 0
  fiLast : Bool := false

/-- Copy `size` bytes of an SDU behind the data already there. -/
def SecondPass.copy (s : SecondPass) (sdu : TxSdu) (size : Nat) : SecondPass :=
  { s with
    mem := copyBytes s.mem s.data sdu.mem sdu.sduSegmentedSize size
    bufferOccupancy := s.bufferOccupancy - size }

/-- Write the length indicator of an SDU of `size` bytes. -/
def SecondPass.writeLi (s : SecondPass) (testNumLi size : Nat) : SecondPass :=
  let li := s.liLengthInBytes ^^^ 3
  let fill := s.fillNumLi + 1
  let s := { s with liLengthInBytes := li, fillNumLi := fill }
  if li = 2 then
    let b1 := if fill = testNumLi then 0 else 0x80
    { s with mem := setByte (setByte s.mem s.eLi (b1 ||| (size >>> 4))) (s.eLi + 1) (size <<< 4) }
  else
    let b2 := (s.mem (s.eLi + 1)).toNat
    let b2 := if fill ≠ testNumLi then b2 ||| 0x08 else b2
    { s with
      mem := setByte (setByte s.mem (s.eLi + 1) (b2 ||| (size >>> 8))) (s.eLi + 2) (size &&& 0xFF)
      eLi := s.eLi + 3 }

/-- `Do the real filling of the pdu_p`, with the SDUs left in the queue. -/
def secondPass (testNumLi : Nat) : List TxSdu → SecondPass → SecondPass × List TxSdu
  | [], s => (s, [])
  | sdu :: rest, s =>
    let remaining := sdu.sduRemainingSize
    if remaining > s.pduRemainingSize then
      let size := s.pduRemainingSize
      ({ s.copy sdu size with fiLast := false, pduRemainingSize := 0 },
        { sdu with
          sduRemainingSize := remaining - size
          sduSegmentedSize := sdu.sduSegmentedSize + size } :: rest)
    else if remaining = s.pduRemainingSize then
      ({ s.copy sdu remaining with fiLast := true, pduRemainingSize := 0 }, rest)
    else if remaining + (s.liLengthInBytes ^^^ 3) < s.pduRemainingSize then
      let s := (s.copy sdu remaining).writeLi testNumLi remaining
      secondPass testNumLi rest { s with
        data := s.data + remaining
        pduRemainingSize := s.pduRemainingSize - (remaining + s.liLengthInBytes) }
    else
      ({ s.copy sdu remaining with
        fiLast := true
        pduRemainingSize := s.pduRemainingSize - remaining }, rest)

/-- `data_pdu_size`: what the grant allows, but no more than the queue needs. -/
def dataPduSize (length : SnLength) (tx : Tx) (nbBytesToTransmit : Int) : Int :=
  let elements := tx.inputSdus.length
  let maxLiOverhead := if elements ≤ 1 then 0 else (elements - 1) * 3 / 2 + (elements - 1) % 2
  let all := tx.bufferOccupancy + length.headerMin + maxLiOverhead
  if nbBytesToTransmit ≥ all then all else nbBytesToTransmit

def writeFixedHeader (length : SnLength) (mem : Memory) (fi fillNumLi vtUs : Nat) : Memory :=
  match length with
  | .ten =>
    let b1 := fi <<< 3
    let b1 := if fillNumLi > 0 then b1 ||| 0x04 else b1
    setByte (setByte mem 0 (b1 ||| ((vtUs >>> 8) &&& 0x03))) 1 (vtUs &&& 0xFF)
  | .five =>
    let b1 := fi <<< 6
    let b1 := if fillNumLi > 0 then b1 ||| 0x20 else b1
    setByte mem 0 (b1 ||| (vtUs &&& 0x1F))

/-- The body that both builders share: the state and the PDU put to `pdus_to_mac_layer`, its
size being `tb_size`. `block` is what `get_free_mem_block` gives. -/
def segment (length : SnLength) (least : Int) (tx : Tx) (nbBytesToTransmit : Int)
    (block : Option Memory) : Tx × Option Pdu :=
  if nbBytesToTransmit < least then
    (tx, none)
  else
    match tx.inputSdus, block with
    | sdu :: rest, some mem =>
      let size := (dataPduSize length tx nbBytesToTransmit).toNat
      let remaining := size - length.headerMin
      let first := firstPass length (sdu :: rest)
        { dataPduSize := size, pduRemainingSize := remaining, testPduRemainingSize := remaining }
      let testNumLi := first.result.1
      let (second, queue) := secondPass testNumLi (sdu :: rest)
        { mem := copyBytes mem 0 (fun
          _ => 0) 0 4, data := length.headerMin + ((testNumLi * 3 + 1) >>> 1)
          eLi := length.headerMin, pduRemainingSize := first.result.2, bufferOccupancy :=
            tx.bufferOccupancy }
      let fi := (if sdu.sduRemainingSize = sdu.sduSize then 0 else 2) +
        if second.fiLast then 0 else 1
      ({ inputSdus := queue, bufferOccupancy := second.bufferOccupancy, vtUs := (tx.vtUs +
        1) % 2 ^ 16 },
        some ⟨writeFixedHeader length second.mem fi second.fillNumLi tx.vtUs,
          first.dataPduSize - second.pduRemainingSize⟩)
    | _, _ => (tx, none)

def segment10 : Tx → Int → Option Memory → Tx × Option Pdu := segment .ten 3

def segment5 : Tx → Int → Option Memory → Tx × Option Pdu := segment .five 2

end OpenAir.Rlc.Um
