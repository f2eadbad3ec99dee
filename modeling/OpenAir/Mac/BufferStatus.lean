import OpenAir.Rlc.Am.MacRequest
import OpenAir.Rlc.Um.SegmentDecode

/-! The UE's buffer status: `update_bsr` reads the RLC entities at every tick, and `ue_get_sdu`
asserts the stored values and moves them on when it fills an uplink grant. -/
namespace OpenAir.Mac.Bsr
open BitField
open Function (update)
open Rlc.Um (SnLength)

def maxNumLcgid : Nat := 4
def maxNumLcid : Nat := 11
def dcch : Nat := 1
def dcch1 : Nat := 2
def minMacHdrRlcSize : Nat := 3

/-- The entries of `sdu_lengths` and `sdu_lcids`. -/
def maxNumSdus : Nat := 8

/-- What `update_bsr` passes for the size of a transport block: `TBS is not used in RLC at this
step, set a special value for debug`. -/
def debugTbSize : Nat := 0xFFFF

/-- The channels of the loops from `DCCH` on. -/
def lcids : List Nat := List.range' dcch (maxNumLcid - dcch)

/-- A value stored in an `int32_t`. -/
def int32 (n : Int) : Int := n.bmod (2 ^ 32)

/-- The sizes of the queued SDUs and of a PDU are in bits. -/
structure TmEntity where
  inputSdus : List Nat
  sizeInputSdusBuffer : Nat
  bufferOccupancy : Int
  rlcPduSize : Nat

/-- `rlc_union_t`. An entity that is not `ready` is in `RLC_NULL_STATE`; `inputSdus` says whether
the SDU table of an AM entity is allocated. -/
inductive RlcEntity where
  | am (ready inputSdus : Bool) (e : Rlc.Am.Entity)
  | um (ready : Bool) (txSnLength : SnLength) (tx : Rlc.Um.Tx)
  | tm (e : TmEntity)

/-- The bytes an entity holds, as a number of no width. A UM entity never reports less than none. -/
def RlcEntity.held : RlcEntity → Int
  | .am _ _ e => e.held
  | .um _ _ tx => max tx.bufferOccupancy 0
  | .tm e => e.bufferOccupancy

def rlcUmGetBufferOccupancy (tx : Rlc.Um.Tx) : Nat := if tx.bufferOccupancy > 0 then
    tx.bufferOccupancy.toNat else 0

/-- `mac_rlc_status_ind` at the UE: the entity after its timers, and `bytes_in_buffer`. -/
def macRlcStatusInd (tbSize time : Nat) : Option RlcEntity → Option RlcEntity × Int
  | none => (none, 0)
  | some (.am ready inputSdus e) =>
    if inputSdus then
      let e := Rlc.Am.macStatusIndication e tbSize time
      (some (.am ready inputSdus e), int32 (Rlc.Am.getBufferOccupancyInBytes e))
    else
      (some (.am ready inputSdus e), 0)
  | some (.um ready length tx) => (some (.um ready length tx), int32 (rlcUmGetBufferOccupancy tx))
  | some (.tm e) => (some (.tm { e with rlcPduSize := tbSize }), int32 e.bufferOccupancy)

/-- `mac_rlc_get_buffer_occupancy_ind`, which knows no transparent mode. -/
def macRlcGetBufferOccupancyInd : Option RlcEntity → Int
  | some (.am _ _ e) => int32 (Rlc.Am.getBufferOccupancyInBytes e)
  | some (.um _ _ tx) => int32 (rlcUmGetBufferOccupancy tx)
  | _ => 0

/-- What `mac_rlc_serialize_tb` puts into the MAC's buffer: one PDU, and of a TM entity a PDU for
every SDU waiting. -/
inductive RlcPdus where
  | am (pdu : Rlc.Am.MacPdu)
  | um (txSnLength : SnLength) (pdu : Rlc.Um.Pdu)
  | tm (sdus : List Nat) (rlcPduSize : Nat)

def RlcPdus.size : RlcPdus → Nat
  | .am pdu => pdu.size
  | .um _ pdu => pdu.size
  | .tm sdus rlcPduSize => sdus.length * (rlcPduSize / 8)

/-- The bytes sent in the PDUs: a STATUS PDU, or the payload that the receiver's decoder finds. -/
def RlcPdus.carried : RlcPdus → Int
  | .am pdu => pdu.carried
  | .um length pdu => (((Rlc.Um.decodePieces length pdu).map fun read => read.1.sum).getD 0 : Nat)
  | .tm sdus _ => ((sdus.map (· / 8)).sum : Nat)

/-- `mac_rlc_data_req` at the UE: the entity left and the PDUs it gives. -/
def macRlcDataReq (tbSize : Nat) (blocks : Rlc.Am.Blocks) (time : Nat) : Option RlcEntity →
    Option RlcEntity × Option RlcPdus
  | none => (none, none)
  | some (.am ready inputSdus e) =>
    let e := e.grant tbSize
    if ready then
      let (e, pdu) := e.getPdus blocks time
      (some (.am ready inputSdus e), pdu.map .am)
    else
      (some (.am ready inputSdus e), none)
  | some (.um ready length tx) =>
    if ready then
      let (tx, pdu) := match length with
        | .ten => Rlc.Um.segment10 tx tbSize blocks.block
        | .five => Rlc.Um.segment5 tx tbSize blocks.block
      (some (.um ready length tx), pdu.map (.um length))
    else
      (some (.um ready length tx), none)
  | some (.tm e) =>
    if blocks.block.isSome then
      (some (.tm { e with inputSdus := [], bufferOccupancy := e.bufferOccupancy - ((e.inputSdus.map
        (· / 8)).sum : Nat) }),
        some (.tm e.inputSdus e.rlcPduSize))
    else
      (some (.tm e), none)

/-- The `rlc_*_data_req` of the modes: an SDU from above. An AM entity without its table is not
asked. -/
def RlcEntity.dataReq (mem : Memory) (size mui : Nat) : RlcEntity → Option RlcEntity
  | .am ready inputSdus e =>
    if inputSdus then
      some (.am ready inputSdus { e with tx := Rlc.Am.dataReq e.tx mem size mui }) else none
  | .um ready length tx => some (.um ready length (Rlc.Um.dataReq tx mem size))
  | .tm e =>
    if e.inputSdus.length < e.sizeInputSdusBuffer then
      some (.tm { e with
        inputSdus := e.inputSdus ++ [size]
        bufferOccupancy := e.bufferOccupancy + size / 8 })
    else
      some (.tm e)

/-- The part of `UE_MAC_INST` that keeps the buffer status, with the RLC entities of its channels.
`logicalChannelConfig` holds the priorities, and `lcidStatus` says `LCID_NOT_EMPTY`. -/
structure Ue where
  logicalChannelConfig : Nat → Option Nat
  lcgid : Nat → Nat
  bsrBytes : Nat → Int
  lcidBufferRemain : Nat → Int
  lcidStatus : Nat → Bool
  rlc : Nat → Option RlcEntity

/-- The variables of the first loop of `update_bsr`; `lcidReordered` is as long as
`num_lcid_with_data`. -/
structure Tick where
  rlc : Nat → Option RlcEntity
  bsrBytes : Nat → Int
  lcidStatus : Nat → Bool
  lcidBytesInBuffer : Nat → Int := fun _ => 0
  lcgidBufferRemain : Nat → Nat := fun _ => 0
  lcidReordered : List Nat := []

/-- The place of a channel in `lcid_reordered_array`. The priority is compared with a constant, so
every channel goes to the front. -/
def reorder (priority lcid : Nat) (l : List Nat) : List Nat :=
  if priority ≤ 16 then lcid :: l else l ++ [maxNumLcid]

/-- One round of the loop that reads the occupancies. -/
def tickChannel (time : Nat) (ue : Ue) (w : Tick) (lcid : Nat) : Tick :=
  match ue.logicalChannelConfig lcid with
  | none => w
  | some priority =>
    let group := ue.lcgid lcid
    let (entity, bytes) := macRlcStatusInd debugTbSize time (w.rlc lcid)
    let w := { w with
      rlc := update w.rlc lcid entity
      lcidBytesInBuffer := update w.lcidBytesInBuffer lcid bytes
      lcgidBufferRemain :=
        if group < maxNumLcgid then
          update w.lcgidBufferRemain group
            ((w.lcgidBufferRemain group + ue.lcidBufferRemain lcid) % 2 ^ 16).toNat
        else
          w.lcgidBufferRemain }
    if bytes > 0 then
      let w := { w with lcidStatus := update w.lcidStatus lcid true }
      if group < maxNumLcgid then
        { w with
          bsrBytes := update w.bsrBytes group (int32 (w.bsrBytes group + bytes))
          lcidReordered := reorder priority lcid w.lcidReordered }
      else
        w
    else
      w

def Ue.reset (ue : Ue) : Tick where
  rlc := ue.rlc
  bsrBytes group := if group < maxNumLcgid then 0 else ue.bsrBytes group
  lcidStatus lcid := if lcid ∈ lcids then false else ue.lcidStatus lcid

/-- `update_bsr`, with whether a regular BSR is triggered. -/
def updateBsr (time retxBsrSf : Nat) (ue : Ue) : Ue × Bool :=
  let w := lcids.foldl (tickChannel time ue) ue.reset
  let available := w.lcidReordered.any fun lcid =>
    decide (ue.lcidBufferRemain lcid = 0) || decide (w.lcgidBufferRemain (ue.lcgid lcid) = 0)
  ({ ue with
      rlc := w.rlc
      bsrBytes := w.bsrBytes
      lcidStatus := w.lcidStatus
      lcidBufferRemain :=
        fun lcid => if lcid ∈ lcids then w.lcidBytesInBuffer lcid else ue.lcidBufferRemain lcid },
    !w.lcidReordered.isEmpty && (available || retxBsrSf == 0))

/-- What an uplink grant comes with: its size and its frame's time, whether a BSR and a PHR are to
be reported, and what the allocator gives for the PDUs of each channel. -/
structure Grant where
  buflen : Nat
  time : Nat
  bsrReportingActive : Bool := false
  phrReportingActive : Bool := false
  usimTest : Bool := false
  blocks : Nat → Nat → Rlc.Am.Blocks

/-- The variables of `ue_get_sdu` that all channels share. -/
structure Multiplex where
  bsrHeaderLen : Nat
  bsrCeLen : Nat
  phrLen : Nat
  numLcgIdWithData : Int
  numSdus : Nat := 0
  sduLengthTotal : Nat := 0
  totalRlcPduHeaderLen : Nat := 0
  rlcPduHeaderLenLast : Nat := 0
  isAllLcidProcessed : Bool := false

/-- `bsr_len + phr_len + total_rlc_pdu_header_len + sdu_length_total`. -/
def Multiplex.used (m : Multiplex) : Nat :=
  m.bsrCeLen + m.bsrHeaderLen + m.phrLen + m.totalRlcPduHeaderLen + m.sduLengthTotal

/-- The lengths of the control elements, before any channel is looked at. -/
def Multiplex.start (grant : Grant) (ue : Ue) : Multiplex :=
  let groups := (List.range maxNumLcgid).countP fun group => decide (ue.bsrBytes group ≠ 0)
  let reported := grant.bsrReportingActive && decide (grant.buflen ≥ 4)
  let bsrHeaderLen := if reported then 1 else 0
  let bsrCeLen := if reported then if groups ≤ 1 then 1 else 3 else 0
  { bsrHeaderLen, bsrCeLen
    phrLen := if grant.phrReportingActive ∧ 1 + 1 + (bsrCeLen + bsrHeaderLen) ≤
      grant.buflen then 2 else 0
    numLcgIdWithData := groups }

/-- The lengths after an RLC PDU. Where nothing fits behind it, its header is one byte. -/
def Multiplex.append (m : Multiplex) (buflen length : Nat) : Multiplex :=
  let m := { m with sduLengthTotal := m.sduLengthTotal + length, numSdus := m.numSdus + 1 }
  let last := if length > 128 then 3 else 2
  let full := decide (buflen = m.used + 1) || decide (buflen ≤ m.used + last)
  let last := if full then 1 else last
  { m with
    rlcPduHeaderLenLast := last
    totalRlcPduHeaderLen := m.totalRlcPduHeaderLen + last
    isAllLcidProcessed := full }

/-- The `AssertFatal`s of the multiplexing. A channel without a group has no entry in `BSR_bytes`,
and a ninth SDU none in `sdu_lengths`. -/
inductive Fault where
  | occupancyDiffers
  | outsideBsr
  | exceedsBsr
  | outsideSduLengths
  | segmentedTooMuch
  | occupancyGrew
deriving DecidableEq

/-- One `mac_rlc_data_req`: what it is asked for, and in which state. -/
structure Request where
  lcid : Nat
  entity : Option RlcEntity
  tbSize : Nat
  numSdus : Nat
  blocks : Rlc.Am.Blocks
  time : Nat

def Request.result (r : Request) : Option RlcEntity × Option RlcPdus :=
  macRlcDataReq r.tbSize r.blocks r.time r.entity

def Request.carried (r : Request) : Int := (r.result.2.map RlcPdus.carried).getD 0

/-- What the loop over the PDUs of one channel leaves; the requests made are kept. -/
structure Served where
  entity : Option RlcEntity
  occupancyNew : Int
  m : Multiplex
  requests : List Request := []
  fault : Option Fault := none

/-- The store in `sdu_lengths`, and the check behind it. -/
def Request.fault (r : Request) (length : Nat) : Option Fault :=
  if maxNumSdus ≤ r.numSdus then some .outsideSduLengths
  else if r.tbSize < length then some .segmentedTooMuch
  else none

/-- The loop over the RLC PDUs of a channel. A round that goes on has put a byte into the buffer at
least, so `buflen` rounds are enough. -/
def multiplexPdus (grant : Grant) (lcid : Nat) : Nat → Nat → Option RlcEntity → Int →
    Multiplex → Served
  | 0, _, entity, occupancyNew, m => { entity, occupancyNew, m }
  | rounds + 1, pduCount, entity, occupancyNew, m =>
    if occupancyNew ≠ 0 ∧ m.used + minMacHdrRlcSize ≤ grant.buflen then
      if grant.usimTest = false ∧ lcid = dcch1 ∧ pduCount = 0 ∧ m.numSdus ≠ 0 then
        { entity, occupancyNew, m }
      else
        let request : Request :=
          { lcid, entity, tbSize := grant.buflen - (m.used + 1), numSdus := m.numSdus
            blocks := grant.blocks lcid pduCount, time := grant.time }
        let (next, pdus) := request.result
        let length := (pdus.map RlcPdus.size).getD 0 % 2 ^ 16
        match request.fault length with
        | some fault =>
          { entity := next, occupancyNew, m, requests := [request], fault := some fault }
        | none =>
          let occupancyNew := macRlcGetBufferOccupancyInd next
          if length = 0 then
            { entity := next, occupancyNew, m, requests := [request] }
          else
            let m := m.append grant.buflen length
            if m.isAllLcidProcessed = true ∨ occupancyNew ≤ 0 then
              { entity := next, occupancyNew, m, requests := [request] }
            else
              let served := multiplexPdus grant lcid rounds (pduCount + 1) next occupancyNew m
              { served with requests := request :: served.requests }
    else
      { entity, occupancyNew, m }

/-- A BSR of one group is enough once a group has been emptied and one is left. -/
def Multiplex.emptied (m : Multiplex) (bsrBytes : Int) : Multiplex :=
  if m.numLcgIdWithData > 1 ∧ bsrBytes = 0 then
    let m := { m with numLcgIdWithData := m.numLcgIdWithData - 1 }
    if m.bsrCeLen + m.bsrHeaderLen ≠ 0 ∧ m.numLcgIdWithData = 1 then { m with bsrCeLen := 1 } else m
  else
    m

structure Filled where
  ue : Ue
  m : Multiplex
  requests : List Request := []
  fault : Option Fault := none

/-- `Update Buffer remain and BSR bytes after transmission`. -/
def Ue.afterTransmission (ue : Ue) (lcid : Nat) (entity : Option RlcEntity)
    (occupancyNew bytes : Int) : Ue :=
  { ue with
    rlc := update ue.rlc lcid entity
    lcidBufferRemain := update ue.lcidBufferRemain lcid occupancyNew
    bsrBytes := update ue.bsrBytes (ue.lcgid lcid) bytes
    lcidStatus := update ue.lcidStatus lcid false }

/-- One round of the loop over the channels; an assertion that fails ends the UE. -/
def serveChannel (grant : Grant) (s : Filled) (lcid : Nat) : Filled :=
  let ue := s.ue
  if s.fault = none ∧ s.m.isAllLcidProcessed = false ∧ ue.lcidStatus lcid = true then
    let occupancyOld := macRlcGetBufferOccupancyInd (ue.rlc lcid)
    let group := ue.lcgid lcid
    if occupancyOld ≠ ue.lcidBufferRemain lcid then
      { s with fault := some .occupancyDiffers }
    else if maxNumLcgid ≤ group then
      { s with fault := some .outsideBsr }
    else if ue.bsrBytes group < occupancyOld then
      { s with fault := some .exceedsBsr }
    else
      let served := multiplexPdus grant lcid grant.buflen 0 (ue.rlc lcid) occupancyOld s.m
      let s := { s with requests := s.requests ++ served.requests }
      if served.fault.isSome then
        { s with fault := served.fault }
      else if occupancyOld < served.occupancyNew then
        { s with fault := some .occupancyGrew }
      else
        let bytes := int32 (ue.bsrBytes group + int32 (served.occupancyNew - occupancyOld))
        { s with
          ue := ue.afterTransmission lcid served.entity served.occupancyNew bytes
          m := served.m.emptied bytes }
  else
    s

/-- The multiplexing of `ue_get_sdu`. -/
def ueGetSdu (grant : Grant) (ue : Ue) : Filled :=
  lcids.foldl (serveChannel grant) { ue, m := .start grant ue }

end OpenAir.Mac.Bsr
