import OpenAir.Rlc.Am.HoleSegment
import OpenAir.Rlc.Am.RxBuffer

/-! A segment cut out of a stored PDU or segment, when some of its bytes are there already:
its framing, its length indicators and its bytes. -/
namespace OpenAir.Rlc.Am
open BitField

/-- `catch the first LI containing so_offset`: the sum of the indicators in front of it, and
the indicators from it on. -/
def catchLi (soOffset : Nat) : Nat → List Nat → Nat × List Nat
  | liSum, [] => (liSum, [])
  | liSum, li :: rest => if liSum + li ≤ soOffset then catchLi soOffset (liSum + li) rest
      else (liSum, li :: rest)

/-- `Fill LI until the end`: the indicators that the remaining bytes have room for, and what
remains behind them. -/
def fillLi : Nat → List Nat → List Nat × Nat
  | remainingSize, [] => ([], remainingSize)
  | remainingSize, li :: rest =>
    if remainingSize ≥ li then
      let (lis, left) := fillLi (remainingSize - li) rest
      (li :: lis, left)
    else
      ([], remainingSize)

/-- The framing and the indicators of the new segment. -/
structure NewFraming where
  fiStart : Bool
  fiEnd : Bool
  lsf : Bool
  liList : List Nat
deriving Repr, DecidableEq

/-- The first half of `create_new_segment_from_pdu`: what the header of the new segment says. -/
def newFraming (info : PduInfo) (soOffset dataLengthToCopy : Nat) : NewFraming :=
  let fiStart := (info.fi &&& 0x2) >>> 1 == 0
  let fiEnd := info.fi &&& 0x1 == 0
  let lsf := info.lsf || !info.rf
  let toTheEnd := decide ((soOffset + dataLengthToCopy : Nat) = info.payloadSize)
  if info.liList = [] then
    { fiStart := if soOffset ≠ 0 then false else fiStart
      fiEnd := if toTheEnd then fiEnd else false
      lsf := if toTheEnd then lsf else false
      liList := [] }
  else
    let lsf := if toTheEnd then lsf else false
    let (liSum, lis) := catchLi soOffset 0 info.liList
    -- The flag is set behind a boundary, but not cleared inside a piece.
    let fiStart := if lis.length < info.liList.length ∧ soOffset = liSum then true else fiStart
    match lis with
    | [] => ⟨fiStart, fiEnd, lsf, []⟩
    | li :: rest =>
      let first := liSum + li - soOffset
      if dataLengthToCopy ≤ first then
        ⟨fiStart, fiEnd, lsf, []⟩
      else
        let (more, remainingSize) := fillLi (dataLengthToCopy - first) rest
        ⟨fiStart, if remainingSize = 0 then true else fiEnd, lsf, first :: more⟩

/-- `Fill PDU Segment Infos and Header`: the new segment as it is filled in at first.
`all_segments_received` is not set. -/
def fillNewSegment (pdu : RxPdu) (soOffset dataLengthToCopy : Nat) : RxPdu :=
  let framing := newFraming pdu.info soOffset dataLengthToCopy
  let headerSize := pduSegmentHeaderSize framing.liList.length
  let so := pdu.info.so + soOffset
  let mem := copyBytes (fun _ => 0) headerSize pdu.mem (pdu.info.payload + soOffset)
    dataLengthToCopy
  let b1 := (1 <<< 7) ||| (1 <<< 6)
  let b1 := if pdu.info.p then b1 ||| (1 <<< 5) else b1
  let b1 := if framing.fiStart then b1 else b1 ||| (1 <<< 4)
  let b1 := if framing.fiEnd then b1 else b1 ||| (1 <<< 3)
  let b1 := if framing.liList = [] then b1 else b1 ||| (1 <<< 2)
  let b1 := b1 ||| ((pdu.info.sn >>> 8) &&& 0x3)
  let b3 := (if framing.lsf then 1 <<< 7 else 0) ||| ((so >>> 8) &&& 0x7F)
  let mem := setByte (setByte mem 0 b1) 1 (pdu.info.sn &&& 0xFF)
  let mem := setByte (setByte mem 2 b3) 3 (so &&& 0xFF)
  { mem := fillLis mem { header := pduSegmentHeaderMinSize } 0 framing.liList
    info :=
      { dC := pdu.info.dC
        rf := true
        p := pdu.info.p
        fi := ((if framing.fiStart then 0 else 1) <<< 1) ||| (if framing.fiEnd then 0 else 1)
        e := decide (framing.liList ≠ [])
        sn := pdu.info.sn
        lsf := framing.lsf
        so
        liList := framing.liList
        hiddenSize := (dataLengthToCopy : Int) - framing.liList.sum
        payload := headerSize
        payloadSize := dataLengthToCopy
        headerSize }
    segmentReassembled := .no }

/-- The block of a new segment: the address of its first octet behind
`mac_rlc_max_rx_header_size_t`, one of a process on a 64-bit machine, and what stands in the 16-bit
words of `li_list`, and behind it, that are not filled in. -/
structure Block where
  dataPtr : Fin (2 ^ 47)
  words : Nat → Nat

/-- `Fill mem_block contexts`: `mac_tb_ind` lies over `pdu_info`. In little-endian order `data_ptr`
takes the place of the bit-fields, of `num_li` and of the first indicator, `size` that of the second
one, and `first_bit`, which is 0, that of the upper octet of the third one. -/
def fillMacTbInd (info : PduInfo) (block : Block) (size : Nat) : PduInfo :=
  let dataPtr := block.dataPtr.val
  let word (k : Nat) := info.liList.getD k (block.words k)
  { info with
    dC := dataPtr.testBit 0
    rf := dataPtr.testBit 1
    p := dataPtr.testBit 2
    fi := dataPtr / 2 ^ 3 % 2 ^ 2
    e := dataPtr.testBit 5
    sn := dataPtr / 2 ^ 6 % 2 ^ 10
    lsf := dataPtr.testBit 16
    so := dataPtr / 2 ^ 17 % 2 ^ 15
    liList := (List.range (dataPtr / 2 ^ 32 % 2 ^ 16)).map fun k =>
      if k = 0 then dataPtr / 2 ^ 48
      else if k = 1 then size % 2 ^ 16
      else if k = 2 then word 2 % 2 ^ 8
      else word k }

/-- `create_new_segment_from_pdu`, with the block that is found for the segment. -/
def createNewSegmentFromPdu (pdu : RxPdu) (soOffset dataLengthToCopy : Nat) (block : Option Block) :
    Option RxPdu :=
  block.map fun block =>
    let segment := fillNewSegment pdu soOffset dataLengthToCopy
    { segment with info := fillMacTbInd segment.info block (dataLengthToCopy +
      segment.info.headerSize) }

end OpenAir.Rlc.Am
