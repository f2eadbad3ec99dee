import OpenAir.Rlc.Am.Segment

/-! Retransmission: a whole PDU again, or a segment of it cut to the grant with a
header recomputed from the original one, and the poll timer that asks for it. -/
namespace OpenAir.Rlc.Am
open BitField

/-- The pointer that walks the length indicators: `li_bit_offset` toggles between 4
and 0, `li_jump_offset` between 1 and 2. -/
structure LiCursor where
  header : Nat
  liBitOffset : Nat := 4
  liJumpOffset : Nat := 1

def LiCursor.next (c : LiCursor) : LiCursor :=
  ⟨c.header + c.liJumpOffset, c.liBitOffset ^^^ 0x4, c.liJumpOffset ^^^ 0x3⟩

def twoBytes (mem : Memory) (a : Nat) : Nat := ((mem a).toNat <<< 8) ||| (mem (a + 1)).toNat

/-- `RLC_AM_PDU_GET_LI` at the cursor. -/
def LiCursor.read (c : LiCursor) (mem : Memory) : Nat :=
  (twoBytes mem c.header >>> c.liBitOffset) &&& 0x7FF

/-- The walk over the SDU pieces of the original PDU. -/
structure PieceWalk where
  cursor : LiCursor
  sduSize : Int
  dataSize : Int
  sduIndex : Nat

/-- The next piece; the last one has no indicator and ends with the payload. -/
def PieceWalk.step (mem : Memory) (pdu : TxPdu) (w : PieceWalk) : PieceWalk :=
  if (w.sduIndex : Int) < pdu.nbSdus - 1 then
    let li := w.cursor.read mem
    ⟨w.cursor.next, li, w.dataSize + li, w.sduIndex + 1⟩
  else
    { w with dataSize := pdu.payloadSize, sduIndex := w.sduIndex + 1 }

/-- `Loop on all original LIs`: up to the piece that holds `retx_so_start`. -/
def findStart (mem : Memory) (pdu : TxPdu) (retxSoStart : Int) : Nat → PieceWalk → PieceWalk
  | 0, w => w
  | rounds + 1, w =>
    if w.dataSize < retxSoStart + 1 ∧ (w.sduIndex : Int) < pdu.nbSdus then
      findStart mem pdu retxSoStart rounds (w.step mem pdu)
    else
      w

/-- `Now look for the end`: the sizes of the pieces up to the one that holds
`retx_so_stop`. -/
def findStop (mem : Memory) (pdu : TxPdu) (retxSoStop : Int) : Nat → PieceWalk → List Int →
    PieceWalk × List Int
  | 0, w, sizes => (w, sizes)
  | rounds + 1, w, sizes =>
    if (w.sduIndex : Int) < pdu.nbSdus ∧ w.dataSize < retxSoStop + 1 then
      let size := if (w.sduIndex : Int) < pdu.nbSdus - 1 then (w.cursor.read mem : Int)
        else pdu.payloadSize - w.dataSize
      findStop mem pdu retxSoStop rounds { w.step mem pdu with sduSize := size }
        (sizes ++ [int16 size])
    else
      (w, sizes)

/-- What the bound to the grant computes: the sizes, the payload and header sizes and
`sdu_segment_index`. -/
structure Bounded where
  sizes : List Int
  payloadSize : Int := 0
  headerSegmentLength : Int := pduSegmentHeaderMinSize
  sduSegmentIndex : Nat := 0

/-- `Bound to available TBS taking into account min PDU segment header`. -/
def boundToTbs (nbBytes : Int) : Nat → Bounded → Bounded
  | 0, b => b
  | rounds + 1, b =>
    if b.sduSegmentIndex < b.sizes.length ∧
        nbBytes > b.payloadSize + pduSegmentHeaderSize b.sduSegmentIndex then
      let size := b.sizes.getD b.sduSegmentIndex 0
      if size ≤ 0 then
        boundToTbs nbBytes rounds { b with sduSegmentIndex := b.sduSegmentIndex + 1 }
      else
        let header : Int := pduSegmentHeaderSize b.sduSegmentIndex
        let taken := if header + b.payloadSize + size ≤ nbBytes then
          size else nbBytes - header - b.payloadSize
        boundToTbs nbBytes rounds
          ⟨b.sizes.set b.sduSegmentIndex taken, b.payloadSize + taken, header,
            b.sduSegmentIndex + 1⟩
    else
      b

/-- The byte range of a segment, its framing and its pieces: every piece but the last
has a length indicator. -/
structure SegmentPlan where
  retxSoStart : Int
  retxSoStop : Int
  fiStart : Bool
  fiEnd : Bool
  pieces : List Int
  headerSegmentLength : Int
deriving Repr, DecidableEq

def SegmentPlan.payloadSize (plan : SegmentPlan) : Int := plan.retxSoStop - plan.retxSoStart + 1

/-- `Handle no LI case first`. -/
def planSingle (pdu : TxPdu) (nbBytes : Int) (fiStart fiEnd : Bool)
    (start stop : Int) : SegmentPlan :=
  let stop := if stop - start + 1 + pduSegmentHeaderMinSize > nbBytes then
    start + nbBytes - pduSegmentHeaderMinSize - 1 else stop
  { retxSoStart := start
    retxSoStop := stop
    fiStart := if start ≠ 0 then false else fiStart
    fiEnd := if stop < pdu.payloadSize - 1 then false else fiEnd
    pieces := [stop - start + 1]
    headerSegmentLength := pduSegmentHeaderMinSize }

/-- The pieces of the segment when the original PDU has length indicators, before the
checks on the result; `none` where an inconsistency makes the function return. -/
def planPieces (mem : Memory) (pdu : TxPdu) (nbBytes start stop : Int) (w : PieceWalk) :
    Option Bounded :=
  let first := int16 (w.dataSize - start)
  let inFirst := first ≥ stop - start + 1
  let first := if inFirst then int16 (stop - start + 1) else first
  let cut := first + pduSegmentHeaderMinSize ≥ nbBytes
  let first := if cut then int16 (nbBytes - pduSegmentHeaderMinSize) else first
  if (inFirst ∨ cut) ∧ first ≠ 0 then
    some { sizes := [first], payloadSize := first, sduSegmentIndex := 1 }
  else
    let (last, sizes) := findStop mem pdu stop maxSduInPdu w [first]
    let sizes := if last.dataSize > stop + 1 then
      sizes.set (sizes.length - 1) (int16 (stop - (last.dataSize - last.sduSize) + 1)) else sizes
    if (sizes.length : Int) - 1 > pdu.nbSdus - 1 then
      none
    else
      some (boundToTbs nbBytes maxSduInPdu { sizes })

/-- The plan of a segment when the original PDU has length indicators. -/
def planMany (mem : Memory) (pdu : TxPdu) (nbBytes : Int) (fiStart fiEnd : Bool)
    (start stop : Int) :
    Option SegmentPlan :=
  let c : LiCursor := { header := 2 }
  let w := findStart mem pdu start maxSduInPdu ⟨c.next, c.read mem, c.read mem, 1⟩
  let atBoundary := start = w.dataSize
  if atBoundary ∧ (w.sduIndex : Int) ≥ pdu.nbSdus then
    none
  else
    let fiStart := if atBoundary then true else if start ≠ 0 then false else fiStart
    let w := if atBoundary then w.step mem pdu else w
    (planPieces mem pdu nbBytes start stop w).bind fun b =>
      let stop := start + b.payloadSize - 1
      if stop > pdu.payloadSize - 1 ∨ stop - start + 1 ≥ pdu.payloadSize then
        none
      else
        let fiEnd := if stop ≠ pdu.payloadSize - 1 then false else fiEnd
        let pieces := b.sizes.take b.sduSegmentIndex
        -- An absolute offset against sums that start at the segment.
        let fiEnd := fiEnd || (List.range (pieces.length - 1)).any fun i =>
          decide (stop = (pieces.take (i + 1)).sum - 1)
        if pieces.sum ≠ b.payloadSize ∨
            b.headerSegmentLength + b.payloadSize > pdu.headerAndPayloadSize + 2 then
          none
        else
          some ⟨start, stop, fiStart, fiEnd, pieces, b.headerSegmentLength⟩

/-- `Fill LI part`, from the `index`-th indicator on. -/
def fillLis (mem : Memory) (c : LiCursor) (temp : Nat) : List Nat → Memory
  | [] => mem
  | li :: rest =>
    let temp := if rest = [] then temp else temp ||| (1 <<< (c.liBitOffset + 11))
    let temp := temp ||| ((li &&& 0x7FF) <<< c.liBitOffset)
    let mem := setByte (setByte mem c.header (temp >>> 8)) (c.header + 1) (temp &&& 0xFF)
    fillLis mem c.next (twoBytes mem c.next.header) rest

/-- The segment written for a plan: a cleared block, the data, then the header. -/
def writeSegment (original : Memory) (pdu : TxPdu) (plan : SegmentPlan) : Memory :=
  let mem := copyBytes (fun _ => 0) plan.headerSegmentLength.toNat original
    (pdu.payload + plan.retxSoStart.toNat) plan.payloadSize.toNat
  let lis := plan.pieces.dropLast.map Int.toNat
  let b1 := (1 <<< 7) ||| (1 <<< 6)
  let b1 := if plan.fiStart then b1 else b1 ||| (1 <<< 4)
  let b1 := if plan.fiEnd then b1 else b1 ||| (1 <<< 3)
  let b1 := b1 ||| ((pdu.sn >>> 8) &&& 0x3)
  let b1 := if lis = [] then b1 else b1 ||| (1 <<< 2)
  let soPart := plan.retxSoStart.toNat % 2 ^ 16
  let soPart := if plan.retxSoStop = pdu.payloadSize - 1 then soPart ||| (1 <<< 15) else soPart
  let mem := setByte (setByte mem 0 b1) 1 (pdu.sn &&& 0xFF)
  let mem := setByte (setByte mem 2 ((soPart >>> 8) &&& 0xFF)) 3 (soPart &&& 0xFF)
  fillLis mem { header := pduSegmentHeaderMinSize } 0 lis

/-- `Update PDU Segment contexts`: the hole is closed, or starts later. -/
def updateHoles (pdu : TxPdu) (payloadSize : Int) : TxPdu :=
  let i := pdu.retxHoleIndex
  if payloadSize = pdu.holeSoStop i - pdu.holeSoStart i + 1 then
    let pdu := { pdu with retxHoleIndex := i + 1 }
    if pdu.retxHoleIndex < pdu.numHoles then
      { pdu with nackSoStart := pdu.holeSoStart pdu.retxHoleIndex }
    else
      { pdu with numHoles := 0, retxHoleIndex := 0, nackSoStart := 0 }
  else
    { pdu with
      holeSoStart := Function.update pdu.holeSoStart i (pdu.holeSoStart i + payloadSize)
      nackSoStart := pdu.holeSoStart i + payloadSize }

structure Emitted where
  mem : Memory
  tbSize : Int
  payloadSize : Int

/-- The plan of the next segment, and the slot with its hole list initialised. -/
def planSegment (pdu : TxPdu) (mem : Memory) (nbBytes : Int) : TxPdu × Option SegmentPlan :=
  if pdu.numHoles = 0 ∧ pdu.retxPayloadSize ≠ pdu.payloadSize then
    (pdu, none)
  else
    let pdu := if pdu.numHoles = 0 then
      { pdu with
        retxHoleIndex := 0
        holeSoStart := Function.update pdu.holeSoStart 0 0
        holeSoStop := Function.update pdu.holeSoStop 0 (pdu.payloadSize - 1)
        numHoles := 1 } else pdu
    let start := pdu.holeSoStart pdu.retxHoleIndex
    let stop := pdu.holeSoStop pdu.retxHoleIndex
    if start > stop ∨ stop - start + 1 > pdu.payloadSize then
      (pdu, none)
    else
      let fiStart := ((mem 0).toNat &&& (1 <<< 4)) >>> 4 == 0
      let fiEnd := ((mem 0).toNat &&& (1 <<< 3)) >>> 3 == 0
      if pdu.nbSdus - 1 = 0 then
        (pdu, some (planSingle pdu nbBytes fiStart fiEnd start stop))
      else
        (pdu, planMany mem pdu nbBytes fiStart fiEnd start stop)

/-- `rlc_am_retransmit_get_am_segment`; `allocated` tells whether `get_free_mem_block`
found the block of the segment. -/
def retransmitGetAmSegment (pdu : TxPdu) (nbBytes : Int) (allocated : Bool) :
    TxPdu × Option Emitted :=
  match pdu.memBlock with
  | none => (pdu, none)
  | some mem =>
    if (pdu.payload : Int) ≠ pdu.headerAndPayloadSize - pdu.payloadSize then
      (pdu, none)
    else
      match planSegment pdu mem nbBytes with
      | (pdu, some plan) =>
        if allocated then
          (updateHoles pdu plan.payloadSize,
            some ⟨writeSegment mem pdu plan, plan.headerSegmentLength + plan.payloadSize,
              plan.payloadSize⟩)
        else
          (pdu, none)
      | (pdu, none) => (pdu, none)

/-- `rlc_am_retransmit_get_copy`: the whole PDU with its `tb_size`. -/
def retransmitGetCopy (pdu : TxPdu) (allocated : Bool) : Option Emitted :=
  match pdu.memBlock with
  | some mem => if allocated then some ⟨mem, pdu.headerAndPayloadSize, pdu.payloadSize⟩ else none
  | none => none

/-- The PDU is marked once it has been retransmitted too often. -/
def hitMaxRetx (tx : Tx) (sn : Nat) : Tx := tx.setPdu sn { tx.pdu sn with maxRetransmit := true }

def retransmitWhole (tx : Tx) (sn : Nat) (allocated : Bool) : Tx × Option Emitted :=
  let pdu := tx.pdu sn
  if pdu.retxCountNext ≤ tx.maxRetxThreshold then
    match retransmitGetCopy pdu allocated with
    | some out =>
      ({ tx with
        retransNumBytesToRetransmit := tx.retransNumBytesToRetransmit - pdu.retxPayloadSize
        retransNumPdus := tx.retransNumPdus - 1 }.setPdu sn
          { pdu with retxPayloadSize := 0, retransmit := false }, some out)
    | none => (tx, none)
  else
    (hitMaxRetx tx sn, none)

def retransmitSegment (tx : Tx) (sn : Nat) (allocated : Bool) : Tx × Option Emitted :=
  if (tx.pdu sn).retxCountNext ≤ tx.maxRetxThreshold then
    match retransmitGetAmSegment (tx.pdu sn) tx.nbBytesRequestedByMac allocated with
    | (pdu, some out) =>
      if pdu.retxPayloadSize < out.payloadSize ∨ tx.retransNumBytesToRetransmit <
          out.payloadSize then
        (tx.setPdu sn pdu, some out)
      else
        let pdu : TxPdu := { pdu with retxPayloadSize := pdu.retxPayloadSize - out.payloadSize }
        let tx : Tx := { tx with
          retransNumBytesToRetransmit := tx.retransNumBytesToRetransmit - out.payloadSize }
        if pdu.retxPayloadSize = 0 then
          ({ tx with retransNumPdus := tx.retransNumPdus - 1 }.setPdu sn
            { pdu with retxPayloadSize := 0, retransmit := false }, some out)
        else
          (tx.setPdu sn pdu, some out)
    | (pdu, none) => (tx.setPdu sn pdu, none)
  else
    (hitMaxRetx tx sn, none)

/-- The body of the search for a PDU to retransmit, at one SN. -/
def retransmitAt (tx : Tx) (sn : Nat) (allocated : Bool) : Tx × Option Emitted :=
  let pdu := tx.pdu sn
  if pdu.retransmit ∧ pdu.maxRetransmit = false ∧ pdu.sn = sn ∧ pdu.transmitted ∧
      0 < pdu.retxPayloadSize then
    if pdu.retxPayloadSize = pdu.payloadSize ∧ tx.nbBytesRequestedByMac ≥
        pdu.headerAndPayloadSize then
      retransmitWhole tx sn allocated
    else if tx.nbBytesRequestedByMac ≥ 5 then
      retransmitSegment tx sn allocated
    else
      (tx, none)
  else
    (tx, none)

/-- `rlc_am_get_pdu_to_retransmit`, from `sn` on: the loop runs at least once and at
most once round the SN space. -/
def searchRetransmit (snEnd : Nat) (allocated : Bool) (now : Nat) : Nat → Nat → Tx →
    Tx × Option Emitted
  | 0, _, tx => (tx, none)
  | rounds + 1, sn, tx =>
    match retransmitAt tx sn allocated with
    | (tx, some out) =>
      let (tx, b1) := pduPolling tx (out.mem 0).toNat (tx.pdu sn).payloadSize false now
      (tx.setPdu sn { tx.pdu sn with retxCount := (tx.pdu sn).retxCountNext },
        some { out with mem := setByte out.mem 0 b1 })
    | (tx, none) =>
      if nextSn sn ≠ snEnd ∧ tx.retransNumPdus > 0 then
        searchRetransmit snEnd allocated now rounds (nextSn sn) tx
      else
        (tx, none)

def getPduToRetransmit (tx : Tx) (allocated : Bool) (now : Nat) : Tx × Option Emitted :=
  if tx.retransNumPdus ≤ 0 ∨ tx.vtA = tx.vtS then
    (tx, none)
  else
    searchRetransmit tx.vtS allocated now snModulo tx.vtA tx

/-- What the allocator gives during one call: the block of a new PDU, and whether the
blocks of the copy and of a retransmission are found. -/
structure Allocation where
  block : Option Memory
  copied : Bool
  allocated : Bool

/-- The data part of `rlc_am_get_pdus`: a retransmission first, else a new PDU while the
window allows one. -/
def getPdus (tx : Tx) (alloc : Allocation) (now : Nat) : Tx × Option (Memory × Int) :=
  let (tx, retx) := if tx.retransNumBytesToRetransmit ≠ 0 ∧ tx.nbBytesRequestedByMac > 2 then
    getPduToRetransmit tx alloc.allocated now else (tx, none)
  match retx with
  | some out => (tx, some (out.mem, out.tbSize))
  | none =>
    if tx.nbBytesRequestedByMac > 2 ∧ tx.sduBufferOccupancy ≠ 0 ∧ tx.vtS ≠ tx.vtMs then
      segment10 tx alloc.block alloc.copied now
    else
      (tx, none)

/-- Whether the poll timer has run out at the time `now`, also across a wrap of the
clock. -/
def Timer.expired (timer : Timer) (now : Nat) : Bool :=
  timer.running &&
    (decide (timer.msStart < timer.msTimeOut ∧ (now ≥ timer.msTimeOut ∨ now < timer.msStart)) ||
      decide (timer.msStart > timer.msTimeOut ∧ now < timer.msStart ∧ now ≥ timer.msTimeOut))

/-- `Look for the first retransmittable PDU starting from vtS - 1`. -/
def forceRetransmit (snEnd : Nat) : Nat → Nat → Tx → Tx
  | 0, _, tx => tx
  | rounds + 1, sn, tx =>
    if sn = snEnd then
      tx
    else
      let pdu := tx.pdu sn
      if pdu.memBlock.isSome ∧ pdu.ack = false ∧ pdu.maxRetransmit = false then
        { tx with
          retransNumPdus := tx.retransNumPdus + 1
          retransNumBytesToRetransmit :=
            tx.retransNumBytesToRetransmit + pdu.payloadSize }.setPdu sn
          { pdu with
            retransmit := true
            retxPayloadSize := pdu.payloadSize
            retxCountNext := if pdu.retxCount = pdu.retxCountNext then pdu.retxCountNext + 1
              else pdu.retxCountNext }
      else
        forceRetransmit snEnd rounds (prevSn sn) tx

def checkTimerPollRetransmit (tx : Tx) (now : Nat) : Tx :=
  if tx.tPollRetransmit.expired now then
    let tx := { tx with
      tPollRetransmit := { tx.tPollRetransmit with running := false, timedOut := true } }
    let tx := if (tx.sduBufferOccupancy = 0 ∧ tx.retransNumBytesToRetransmit = 0) ∨
        tx.vtS = tx.vtMs then
      forceRetransmit (prevSn tx.vtA) snModulo (prevSn tx.vtS) tx else tx
    { tx with forcePoll := true }
  else
    tx

end OpenAir.Rlc.Am
