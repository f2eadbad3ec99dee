import OpenAir.Rlc.Am.RxBuffer
import OpenAir.Rlc.Am.TxWindow

/-! Re-establishment of an acknowledged-mode entity: what is reset, and what is left over. -/
namespace OpenAir.Rlc.Am
open BitField

/-- `rlc_am_entity_t`: the transmitting side, the receiving side, and the lists towards the MAC
layer. -/
structure Entity where
  tx : Tx
  vrR : Nat
  vrMr : Nat
  vrX : Nat
  vrMs : Nat
  vrH : Nat
  tReordering : Timer
  tStatusProhibit : Timer
  receiverBuffer : List RxPdu
  /-- The bytes written so far to `output_sdu_in_construction`. -/
  outputSdu : Option (List UInt8)
  pdusToMacLayer : List Memory
  controlPduList : List Memory
  segmentationPduList : List Memory
  statusRequested : Nat
  snStatusTriggeredDelayed : Nat
  lastAbsoluteSubframeStatusIndication : Nat

structure AmConfig extends TxConfig where
  reordering : Nat
  statusProhibit : Nat

def Entity.config (e : Entity) : AmConfig where
  maxRetxThreshold := e.tx.maxRetxThreshold
  pollPdu := e.tx.pollPdu
  pollByte := e.tx.pollByte
  tPollRetransmit := e.tx.tPollRetransmit.msDuration
  reordering := e.tReordering.msDuration
  statusProhibit := e.tStatusProhibit.msDuration

/-- `rlc_am_init` and `rlc_am_configure`. -/
def Entity.fresh (config : AmConfig) : Entity where
  tx := txInit config.toTxConfig
  vrR := 0
  vrMr := windowSize
  vrX := snUndefined
  vrMs := 0
  vrH := 0
  tReordering := { msDuration := config.reordering }
  tStatusProhibit := { msDuration := config.statusProhibit }
  receiverBuffer := []
  outputSdu := none
  pdusToMacLayer := []
  controlPduList := []
  segmentationPduList := []
  statusRequested := 0
  snStatusTriggeredDelayed := snUndefined
  lastAbsoluteSubframeStatusIndication := 0xFFFFFFFF

def reestablish (e : Entity) : Entity :=
  { e with
    receiverBuffer := []
    pdusToMacLayer := []
    controlPduList := []
    segmentationPduList := []
    tx := { e.tx with
      vtA := 0
      vtMs := 0 + windowSize
      vtS := 0
      pollSn := 0
      cPduWithoutPoll := 0
      cByteWithoutPoll := 0 }
    vrR := 0
    vrMr := 0 + windowSize
    vrX := snUndefined
    vrMs := 0
    vrH := 0
    snStatusTriggeredDelayed := snUndefined
    statusRequested := 0
    lastAbsoluteSubframeStatusIndication := 0xFFFFFFFF }

structure SameVariables (a b : Entity) : Prop where
  vtA : a.tx.vtA = b.tx.vtA
  vtMs : a.tx.vtMs = b.tx.vtMs
  vtS : a.tx.vtS = b.tx.vtS
  pollSn : a.tx.pollSn = b.tx.pollSn
  cPduWithoutPoll : a.tx.cPduWithoutPoll = b.tx.cPduWithoutPoll
  cByteWithoutPoll : a.tx.cByteWithoutPoll = b.tx.cByteWithoutPoll
  vrR : a.vrR = b.vrR
  vrMr : a.vrMr = b.vrMr
  vrX : a.vrX = b.vrX
  vrMs : a.vrMs = b.vrMs
  vrH : a.vrH = b.vrH
  statusRequested : a.statusRequested = b.statusRequested
  snStatusTriggeredDelayed : a.snStatusTriggeredDelayed = b.snStatusTriggeredDelayed
  lastAbsoluteSubframeStatusIndication :
    a.lastAbsoluteSubframeStatusIndication = b.lastAbsoluteSubframeStatusIndication

structure SameLists (a b : Entity) : Prop where
  receiverBuffer : a.receiverBuffer = b.receiverBuffer
  pdusToMacLayer : a.pdusToMacLayer = b.pdusToMacLayer
  controlPduList : a.controlPduList = b.controlPduList
  segmentationPduList : a.segmentationPduList = b.segmentationPduList

/-- Two entities agree on the timers, on what waits to be sent or retransmitted, and on the SDU
under construction. -/
structure SameBuffers (a b : Entity) : Prop where
  tPollRetransmit : a.tx.tPollRetransmit = b.tx.tPollRetransmit
  tReordering : a.tReordering = b.tReordering
  tStatusProhibit : a.tStatusProhibit = b.tStatusProhibit
  forcePoll : a.tx.forcePoll = b.tx.forcePoll
  inputSdus : ∀ i < sduControlBufferSize, a.tx.inputSdus i = b.tx.inputSdus i
  nbSdu : a.tx.nbSdu = b.tx.nbSdu
  nbSduNoSegmented : a.tx.nbSduNoSegmented = b.tx.nbSduNoSegmented
  nextSduIndex : a.tx.nextSduIndex = b.tx.nextSduIndex
  currentSduIndex : a.tx.currentSduIndex = b.tx.currentSduIndex
  sduBufferOccupancy : a.tx.sduBufferOccupancy = b.tx.sduBufferOccupancy
  txDataPduBuffer : ∀ i < windowSize, a.tx.txDataPduBuffer i = b.tx.txDataPduBuffer i
  retransNumPdus : a.tx.retransNumPdus = b.tx.retransNumPdus
  retransNumBytesToRetransmit : a.tx.retransNumBytesToRetransmit = b.tx.retransNumBytesToRetransmit
  outputSdu : a.outputSdu = b.outputSdu

structure SameState (a b : Entity) : Prop where
  stateVariables : SameVariables a b
  lists : SameLists a b
  buffers : SameBuffers a b

def Timer.Stopped (timer : Timer) : Prop :=
  timer.running = false ∧ timer.timedOut = false ∧ timer.msStart = 0 ∧ timer.msTimeOut = 0

/-- Nothing is left to be discarded or stopped but what stands in the lists. -/
structure Idle (e : Entity) : Prop where
  tPollRetransmit : e.tx.tPollRetransmit.Stopped
  tReordering : e.tReordering.Stopped
  tStatusProhibit : e.tStatusProhibit.Stopped
  forcePoll : e.tx.forcePoll = false
  inputSdus : ∀ i < sduControlBufferSize, e.tx.inputSdus i = {}
  counts : e.tx.nbSdu = 0 ∧ e.tx.nbSduNoSegmented = 0 ∧ e.tx.sduBufferOccupancy = 0
  /-- The ring stands where it started. -/
  indices : e.tx.nextSduIndex = 0 ∧ e.tx.currentSduIndex = 0
  txDataPduBuffer : ∀ i < windowSize, e.tx.txDataPduBuffer i = {}
  retransmissions : e.tx.retransNumPdus = 0 ∧ e.tx.retransNumBytesToRetransmit = 0
  outputSdu : e.outputSdu = none

theorem Timer.stopped_iff (timer : Timer) : timer = { msDuration := timer.msDuration } ↔
    timer.Stopped := by
  constructor
  · intro same
    rw [same]
    exact ⟨rfl, rfl, rfl, rfl⟩
  · rintro ⟨running, timedOut, start, timeOut⟩
    obtain ⟨r, t, s, o, d⟩ := timer
    cases running
    cases timedOut
    cases start
    cases timeOut
    rfl

section Reestablish

variable (e : Entity)

theorem reestablish_variables : SameVariables (reestablish e) (.fresh e.config) where
  vtA := rfl
  vtMs := rfl
  vtS := rfl
  pollSn := rfl
  cPduWithoutPoll := rfl
  cByteWithoutPoll := rfl
  vrR := rfl
  vrMr := rfl
  vrX := rfl
  vrMs := rfl
  vrH := rfl
  statusRequested := rfl
  snStatusTriggeredDelayed := rfl
  lastAbsoluteSubframeStatusIndication := rfl

theorem reestablish_lists : SameLists (reestablish e) (.fresh e.config) := ⟨rfl, rfl, rfl, rfl⟩

theorem reestablish_buffers : SameBuffers (reestablish e) (.fresh e.config) ↔ Idle e := by
  constructor
  · intro same
    exact {
      tPollRetransmit := (Timer.stopped_iff _).mp same.tPollRetransmit
      tReordering := (Timer.stopped_iff _).mp same.tReordering
      tStatusProhibit := (Timer.stopped_iff _).mp same.tStatusProhibit
      forcePoll := same.forcePoll
      inputSdus := same.inputSdus
      counts := ⟨same.nbSdu, same.nbSduNoSegmented, same.sduBufferOccupancy⟩
      indices := ⟨same.nextSduIndex, same.currentSduIndex⟩
      txDataPduBuffer := same.txDataPduBuffer
      retransmissions := ⟨same.retransNumPdus, same.retransNumBytesToRetransmit⟩
      outputSdu := same.outputSdu }
  · intro idle
    exact {
      tPollRetransmit := (Timer.stopped_iff _).mpr idle.tPollRetransmit
      tReordering := (Timer.stopped_iff _).mpr idle.tReordering
      tStatusProhibit := (Timer.stopped_iff _).mpr idle.tStatusProhibit
      forcePoll := idle.forcePoll
      inputSdus := idle.inputSdus
      nbSdu := idle.counts.1
      nbSduNoSegmented := idle.counts.2.1
      nextSduIndex := idle.indices.1
      currentSduIndex := idle.indices.2
      sduBufferOccupancy := idle.counts.2.2
      txDataPduBuffer := idle.txDataPduBuffer
      retransNumPdus := idle.retransmissions.1
      retransNumBytesToRetransmit := idle.retransmissions.2
      outputSdu := idle.outputSdu }

/-- The state is that of a fresh entity exactly when nothing waited to be sent, acknowledged or
reassembled before and no timer ran. -/
theorem reestablish_fresh_iff : SameState (reestablish e) (.fresh e.config) ↔ Idle e := by
  constructor
  · intro same
    exact (reestablish_buffers e).mp same.buffers
  · intro idle
    exact ⟨reestablish_variables e, reestablish_lists e, (reestablish_buffers e).mpr idle⟩

end Reestablish

/-- An SDU that waits for its first grant is still there afterwards. -/
theorem reestablish_keeps_sdu :
    ∃ tx, Run.run txStep (Entity.fresh ⟨⟨4, 0xFFFF, 0xFFFFFFFF, 0⟩, 35, 0⟩).tx
        [.dataReq (fun _ => 0) 5 0] = some tx ∧
      ¬ SameState (reestablish { Entity.fresh ⟨⟨4, 0xFFFF, 0xFFFFFFFF, 0⟩, 35, 0⟩ with tx })
        (.fresh ⟨⟨4, 0xFFFF, 0xFFFFFFFF, 0⟩, 35, 0⟩) := by
  refine ⟨_, rfl, fun same => ?_⟩
  have waiting := same.buffers.nbSdu
  exact absurd waiting (by decide)

end OpenAir.Rlc.Am
