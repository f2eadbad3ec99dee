import OpenAir.Mac.UeList
import OpenAir.Mac.Pdu.DlHeader

/-! The random-access processes of one carrier, and the messages the eNB sends for them. The
UEs are not BL/CE ones, so `rach_resource_type` is 0 throughout. -/
namespace OpenAir.Mac.Ra
open BitField (Memory)
open Pdu (copyTo bytesAt generateDlschHeader)

inductive State where
  | idle | msg2 | waitMsg3 | msg4 | waitMsg4Ack | msgCrnti | msgCrntiAck
deriving DecidableEq, Repr

structure Time where
  frame : Nat
  subframe : Nat
deriving DecidableEq, Repr

def Time.addSubframe (time : Time) (offset : Nat) : Time where
  frame := (time.frame + (time.subframe + offset) / 10) % 1024
  subframe := (time.subframe + offset) % 10

/-- `RA_t` -/
structure Process where
  state : State
  preambleSubframe : Nat
  /-- `Msg2_frame` and `Msg2_subframe`, and so on. -/
  msg2 : Time
  msg3 : Time
  msg4 : Time
  harqPid : Nat
  rnti : Nat
  raRnti : Nat
  preambleIndex : Nat
  contResId : List UInt8
  sixBytes : contResId.length = 6
  timingOffset : Int
  rrcTimer : Int
  msg3FirstRb : Nat
  msg3NbRb : Nat
  msg3Mcs : Nat
  msg3Tpc : Nat
  msg3UlDelay : Nat
  msg3CqiReq : Nat
  msg3Round : Nat
  msg4TbSize : Int
  msg4Mcs : Nat

/-- What does not change while the carrier runs. -/
structure Cell where
  /-- `tdd_Config->subframeAssignment`; `none` for FDD. -/
  tdd : Option Nat
  nRbDl : Nat
  bandwidth : nRbDl ∈ [6, 15, 25, 50, 75, 100]
  nfapiMode : Bool
  /-- `MAX_MOBILES_PER_ENB` -/
  mobiles : Nat
  maxHarqMsg3Tx : Nat

abbrev raProcMax : Nat := 4

/-- `nfapi_dl_config_dci_dl_pdu` -/
structure Dci where
  rnti : Nat
  rntiType : Nat
  aggregationLevel : Nat
  harqProcess : Nat
  mcs : Nat
  redundancyVersion : Nat
  resourceBlockCoding : Nat

/-- `nfapi_dl_config_dlsch_pdu` -/
structure Dlsch where
  rnti : Nat
  pduIndex : Int
  length : Int
  redundancyVersion : Nat
  resourceBlockCoding : Nat

inductive DlPdu where
  | dci (pdu : Dci)
  | dlsch (pdu : Dlsch)

def DlPdu.dci? : DlPdu → Option Dci
  | .dci pdu => some pdu
  | .dlsch _ => none

def DlPdu.dlsch? : DlPdu → Option Dlsch
  | .dci _ => none
  | .dlsch pdu => some pdu

/-- Where the data of a TX request stand. -/
inductive Buffer where
  /-- `RAR_pdu.payload` of the carrier. -/
  | rar
  /-- `DLSCH_pdu[CC_id][0][UE_id].payload[0]` -/
  | dlsch (ue : Nat)

/-- `nfapi_tx_request_pdu_t`. The process whose message is sent is no part of the request. -/
structure TxPdu where
  pduLength : Nat
  pduIndex : Int
  segmentData : Buffer
  process : Fin raProcMax

/-- `nfapi_ul_config_ulsch_pdu` -/
structure UlPdu where
  rnti : Nat
  resourceBlockStart : Nat
  numberOfResourceBlocks : Nat
  redundancyVersion : Nat

/-- What the functions for random access read and write. -/
structure Enb where
  ra : Fin raProcMax → Process
  vrbMap : Nat → Bool
  vrbMapUl : Nat → Bool
  dlReq : List DlPdu
  txReq : List TxPdu
  /-- `UL_req_tmp`, by subframe. -/
  ulReqTmp : Nat → List UlPdu
  /-- The first resource blocks of the `HI` PDUs in `HI_DCI0_req`, by subframe. -/
  hiReq : Nat → List Nat
  pduIndex : Int
  rarPdu : Memory
  ccchPdu : List UInt8
  dlschPdu : Nat → Memory
  /-- `UE_sched_ctrl[UE_id].round[CC_id][harq_pid]` -/
  round : Nat → Nat → Nat
  configured : Nat → Bool
  ueList : UeList

def Enb.payload (s : Enb) : Buffer → Memory
  | .rar => s.rarPdu
  | .dlsch ue => s.dlschPdu ue

def Enb.setRa (s : Enb) (i : Fin raProcMax) (ra : Process) : Enb :=
  { s with ra := Function.update s.ra i ra }

theorem Enb.setRa_self (s : Enb) (i : Fin raProcMax) (ra : Process) : (s.setRa i ra).ra i = ra :=
  Function.update_self ..

theorem Enb.setRa_other (s : Enb) {i j : Fin raProcMax} (ra : Process) (other : j ≠ i) :
    (s.setRa i ra).ra j = s.ra j :=
  Function.update_of_ne other ..

/-- `getRIV` and `mac_computeRIV`. -/
def getRiv (nRb rbStart lCrbs : Nat) : Nat :=
  if lCrbs ≤ 1 + nRb / 2 then nRb * (lCrbs - 1) + rbStart else nRb * (nRb + 1 - lCrbs) +
    (nRb - 1 - rbStart)

/-- A resource block that a coded allocation has. -/
def Codes (nRb riv block : Nat) : Prop :=
  ∃ start length, start + length ≤ nRb ∧ getRiv nRb start length = riv ∧ start ≤ block ∧
    block < start + length

/-- `none` when the TDD configuration is not supported. -/
def isUlSf (cell : Cell) (subframe : Nat) : Option Bool :=
  match cell.tdd with
  | none => some false
  | some 1 => some (subframe ∈ [2, 3, 7, 8])
  | some 3 => some (1 < subframe ∧ subframe < 5)
  | some 4 => some (1 < subframe ∧ subframe < 4)
  | some 5 => some (1 < subframe ∧ subframe < 3)
  | some _ => none

/-- Where the RAR puts Msg3; where there is no case for the subframe, the time stays as it was. -/
def getMsg3alloc (cell : Cell) (now old : Time) : Time :=
  let later (frames subframe : Nat) : Time := ⟨(now.frame + frames) % 1024, subframe⟩
  match cell.tdd with
  | none => if 9 < now.subframe + 6 then later 1 (now.subframe + 6 - 10)
      else ⟨now.frame, now.subframe + 6⟩
  | some 1 =>
    match now.subframe with
    | 0 => ⟨now.frame, 7⟩
    | 4 | 5 => later 1 2
    | 9 => later 1 7
    | _ => old
  | some 3 =>
    match now.subframe with
    | 0 | 5 | 6 => later 1 2
    | 7 => later 1 3
    | 8 => later 1 4
    | 9 => later 2 2
    | _ => old
  | some 4 =>
    match now.subframe with
    | 0 | 4 | 5 | 6 => later 1 2
    | 7 => later 1 3
    | 8 | 9 => later 2 2
    | _ => old
  | some 5 =>
    match now.subframe with
    | 0 | 4 | 5 | 6 => later 1 2
    | 7 | 8 | 9 => later 2 2
    | _ => old
  | some _ => old

def getMsg3allocret (cell : Cell) (now : Time) : Time :=
  match cell.tdd with
  | none =>
    if 9 < now.subframe + 8 then ⟨(now.frame + 1) % 1024, now.subframe + 8 - 10⟩
      else ⟨now.frame, now.subframe + 8⟩
  | some 1 | some 3 | some 4 | some 5 => ⟨(now.frame + 1) % 1024, now.subframe⟩
  | some _ => now

def ulSubframe2KPhich (cell : Cell) (ulSubframe : Nat) : Nat :=
  match cell.tdd with
  | some 1 => if ulSubframe = 2 ∨ ulSubframe = 7 then 4 else if ulSubframe = 3 ∨
      ulSubframe = 8 then 6 else 255
  | _ => 4

/-- Adds Msg3 to the uplink requests, and a NACK on the PHICH when it is a retransmission;
`none` when an assertion fails. -/
def addMsg3 (cell : Cell) (subframe : Nat) (ra : Process) (s : Enb) : Option Enb :=
  if ra.state = .idle ∨ ra.msg3NbRb = 0 then none
  else
    let grant : UlPdu :=
      { rnti := ra.rnti, resourceBlockStart := ra.msg3FirstRb,
        numberOfResourceBlocks := ra.msg3NbRb,
        redundancyVersion := [0, 2, 3, 1].getD ra.msg3Round 0 }
    let hiSubframe := (subframe + ulSubframe2KPhich cell subframe) % 10
    some { s with
      ulReqTmp := Function.update s.ulReqTmp ra.msg3.subframe
        (s.ulReqTmp ra.msg3.subframe ++ [grant])
      vrbMapUl := fun block =>
        (ra.msg3FirstRb ≤ block && block < ra.msg3FirstRb + ra.msg3NbRb) || s.vrbMapUl block
      hiReq :=
        if ra.msg3Round = 0 then s.hiReq
        else Function.update s.hiReq hiSubframe (s.hiReq hiSubframe ++ [ra.msg3FirstRb]) }

/-- The number of uplink resource blocks it is given is the one of the downlink. -/
def msg3FirstRb (cell : Cell) : Nat :=
  if cell.nRbDl = 25 then 1 else if cell.tdd.isSome ∧ cell.nRbDl = 100 then 3 else 2

/-- The process after `fill_rar`, and the seven bytes it writes. -/
def fillRar (cell : Cell) (ra : Process) : Process × List UInt8 :=
  let offset := ra.timingOffset.tdiv 16
  let filled : Process :=
    { ra with
      timingOffset := offset, msg3FirstRb := msg3FirstRb cell, msg3NbRb := 1, msg3Mcs :=
        10, msg3Tpc := 3,
      msg3UlDelay := 0, msg3CqiReq := 0, msg3Round := 0 }
  let rballoc := getRiv cell.nRbDl filled.msg3FirstRb filled.msg3NbRb
  let byte (value : Nat) : UInt8 := UInt8.ofNat value
  (filled,
    [byte (64 + ra.preambleIndex % 64),
      byte (offset / 64 % 256).toNat,
      byte ((offset * 4 % 256).toNat &&& 0xf0) ||| byte (rballoc / 128 % 8),
      byte (rballoc % 256 * 2 % 256) ||| byte (filled.msg3Mcs / 8 % 2),
      byte (filled.msg3Mcs % 8 * 32 + filled.msg3Tpc % 8 * 4 + filled.msg3UlDelay % 2 * 2 +
        filled.msg3CqiReq % 2),
      byte (ra.rnti / 256 % 256),
      byte (ra.rnti % 256)])

/-- The subframe that is scheduled; `frame_cnt` counts the turns of the frame number. -/
structure Now extends Time where
  frameCnt : Nat

def dlSubframeCount (subframe : Nat) : Nat :=
  match subframe with
  | 0 => 1
  | 4 => 2
  | 5 => 3
  | 9 => 4
  | _ => 255

def dlHarqPid (cell : Cell) (now : Now) : Nat :=
  match cell.tdd with
  | none => (now.frame * 10 + now.subframe) % 8
  | some 1 => ((now.frameCnt * 1024 + now.frame) * 4 + dlSubframeCount now.subframe - 1) % 7
  | some _ => 255

/-- `none` where the source aborts. -/
def getRetransmissionTiming (cell : Cell) (time : Time) : Option Time :=
  match cell.tdd with
  | none => some ⟨if 1 < time.subframe then (time.frame + 1) % 1024 else time.frame,
      (time.subframe + 8) % 10⟩
  | some 1 =>
    if time.subframe = 0 ∨ time.subframe = 5 then
      some ⟨(time.frame + (time.subframe + 19) / 10) % 1024, (time.subframe + 19) % 10⟩
    else if time.subframe = 4 ∨ time.subframe = 9 then
      some ⟨(time.frame + (time.subframe + 16) / 10) % 1024, (time.subframe + 16) % 10⟩
    else none
  | some _ => none

/-- What a turn is told by others: whether the allocator has room for its DCI, and the SDU that
`mac_rrc_data_req` returns. -/
structure Answer where
  feasible : Bool
  sdu : List UInt8

/-- The four resource blocks of every message. -/
def riv (cell : Cell) : Nat := getRiv cell.nRbDl 0 4

/-- Marks the first four resource blocks. Nothing looks whether they are free. -/
def Enb.takeBlocks (s : Enb) : Enb :=
  { s with vrbMap := fun block => decide (block < 4) || s.vrbMap block }

/-- A DCI and the DLSCH PDU it announces. -/
def Enb.announce (s : Enb) (dci : Dci) (dlsch : Dlsch) : Enb :=
  { s with dlReq := s.dlReq ++ [.dci dci, .dlsch dlsch] }

/-- The request that goes with the last DLSCH PDU. -/
def Enb.request (s : Enb) (length : Nat) (segmentData : Buffer) (process : Fin raProcMax) : Enb :=
  { s with
    txReq := s.txReq ++
      [{ pduLength := length, pduIndex := s.pduIndex, segmentData := segmentData
         process := process }]
    pduIndex := s.pduIndex + 1 }

def Time.absSF (time : Time) : Nat := 10 * time.frame + time.subframe

section Messages
variable (cell : Cell) (now : Now) (answer : Answer) (i : Fin raProcMax)

/-- Msg2, after the allocator has found room for its DCI. -/
def sendMsg2 (s : Enb) : Option Enb := do
  let ra := s.ra i
  let s := s.announce
    { rnti := ra.raRnti, rntiType := 2, aggregationLevel := 4, harqProcess := 0, mcs := 0,
      redundancyVersion := 0, resourceBlockCoding := riv cell }
    { rnti := ra.raRnti, pduIndex := s.pduIndex, length := 0, redundancyVersion := 0,
      resourceBlockCoding := riv cell }
  let rar := fillRar cell { ra with msg3 := getMsg3alloc cell now.toTime ra.msg3 }
  let s ← addMsg3 cell now.subframe rar.1 { s with rarPdu := copyTo s.rarPdu 0 rar.2 }
  return (s.setRa i { rar.1 with state := .waitMsg3 }).request 7 .rar i

def generateMsg2 (s : Enb) : Option Enb :=
  if now.absSF < (s.ra i).msg2.absSF then some s
  else if (s.ra i).msg2 = now.toTime then
    if answer.feasible then sendMsg2 cell now i s.takeBlocks else some s.takeBlocks
  else some s

/-- MCS and transport block size for an SDU with its header; they stay as they were when it is too
long. -/
def msg4Format (length : Nat) (ra : Process) : Nat × Int :=
  if length ≤ 22 then (4, 22)
  else if length ≤ 28 then (5, 28)
  else if length ≤ 32 then (6, 32)
  else if length ≤ 41 then (7, 41)
  else if length ≤ 49 then (8, 49)
  else if length ≤ 57 then (9, 57)
  else (ra.msg4Mcs, ra.msg4TbSize)

def msg4Header : Nat := 1 + 6 + 1

/-- The UE's buffer with Msg4 in it, and the length of Msg4. -/
def msg4Payload (buffer : Memory) (ra : Process) (sdu : List UInt8) : Option (Memory × Nat) := do
  let rest := ra.msg4TbSize - sdu.length - msg4Header
  let padding := if rest ≤ 2 then ((rest % 65536).toNat % 256, 0)
    else (0, ((rest - 1) % 65536).toNat)
  let (header, offset) ← generateDlschHeader buffer [(0, sdu.length)]
    { drxCmd := 255, timingAdvanceCmd := 31, ueContResId := some ra.contResId
      sixBytes := fun id same => by
        cases same
        exact ra.sixBytes }
    padding.1 padding.2
  return (copyTo header (offset % 256) sdu, offset % 256 + sdu.length)

/-- Msg4, after the allocator has found room for its DCI. The request counts the bytes of the
SDU only. -/
def sendMsg4 (ue : Nat) (ra : Process) (s : Enb) : Option Enb := do
  let retransmission ← getRetransmissionTiming cell ra.msg4
  let (buffer, _) ← msg4Payload (s.dlschPdu ue) ra answer.sdu
  let s := s.announce
    { rnti := ra.rnti, rntiType := 1, aggregationLevel := 4, harqProcess := ra.harqPid,
      mcs := ra.msg4Mcs, redundancyVersion := 0, resourceBlockCoding := riv cell }
    { rnti := ra.rnti, pduIndex := s.pduIndex, length := ra.msg4TbSize, redundancyVersion := 0,
      resourceBlockCoding := riv cell }
  let s := { s with
    round := Function.update s.round ue (Function.update (s.round ue) ra.harqPid 0)
    dlschPdu := Function.update s.dlschPdu ue buffer }
  return (s.setRa i { ra with state := .waitMsg4Ack, msg4 := retransmission }).request
    answer.sdu.length (.dlsch ue) i

/-- `none` when the UE is not known or there is no SDU for it. -/
def generateMsg4 (s : Enb) : Option Enb := do
  let ue ← findUeId cell.mobiles s.ueList (s.ra i).rnti
  let ra : Process := { s.ra i with harqPid := dlHarqPid cell now }
  if ra.msg4 = now.toTime then
    if answer.sdu = [] then none
    else
      let format := msg4Format (answer.sdu.length + msg4Header) ra
      let ra : Process := { ra with msg4Mcs := format.1, msg4TbSize := format.2 }
      let s := { s.setRa i ra with ccchPdu := answer.sdu }.takeBlocks
      if answer.feasible then sendMsg4 cell answer i ue ra s else some s
  else some (s.setRa i ra)

def cancelRaProc (s : Enb) (rnti : Nat) : Enb :=
  { s with
    ra := fun j =>
      if (s.ra j).rnti = rnti then
        { s.ra j with state := .idle, timingOffset := 0, rrcTimer := 20, rnti := 0, msg3Round := 0 }
      else s.ra j }

/-- Msg4 once more; the time moves on also when there is no room for the DCI. -/
def resendMsg4 (round : Nat) (s : Enb) : Option Enb := do
  let ra := s.ra i
  let s := s.takeBlocks
  let s :=
    if answer.feasible then
      s.announce
        { rnti := ra.rnti, rntiType := 1, aggregationLevel := 4, harqProcess := ra.harqPid,
          mcs := ra.msg4Mcs, redundancyVersion := round % 4, resourceBlockCoding := riv cell }
        { rnti := ra.rnti, pduIndex := -1, length := ra.msg4TbSize, redundancyVersion := round % 4,
          resourceBlockCoding := riv cell }
    else s
  let retransmission ← getRetransmissionTiming cell ra.msg4
  return s.setRa i { ra with msg4 := retransmission }

/-- Round 8 tells that Msg4 was acknowledged. -/
def checkMsg4Retransmission (s : Enb) : Option Enb := do
  let ra := s.ra i
  let ue ← findUeId cell.mobiles s.ueList ra.rnti
  let round := s.round ue ra.harqPid
  if round = 8 then
    let s := { s.setRa i { ra with state := .idle } with
      configured := Function.update s.configured ue true }
    return cancelRaProc s ra.rnti
  else if ra.msg4 = now.toTime then resendMsg4 cell answer i round s
  else return s

/-- One turn of the loop over the processes. -/
def raTurn (s : Enb) : Option Enb :=
  match (s.ra i).state with
  | .msg2 => generateMsg2 cell now answer i s
  | .msg4 => if (s.ra i).msg4 = now.toTime then generateMsg4 cell now answer i s else some s
  | .waitMsg4Ack => checkMsg4Retransmission cell now answer i s
  | _ => some s

end Messages

/-- The loop over the processes of `schedule_RA`, for one carrier. -/
def raTurns (cell : Cell) (now : Now) (answers : Fin raProcMax → Answer) (s : Enb)
    (turns : List (Fin raProcMax)) :
    Option Enb :=
  Run.run (fun s i => raTurn cell now (answers i) i s) s turns

/-- Uplink subframes are left out. -/
def scheduleRa (cell : Cell) (now : Now) (answers : Fin raProcMax → Answer)
    (s : Enb) : Option Enb := do
  if ← isUlSf cell now.subframe then return s
  else raTurns cell now answers s (List.finRange raProcMax)

end OpenAir.Mac.Ra
