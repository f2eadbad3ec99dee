import OpenAir.Rlc.Am.PollFrame
import OpenAir.Rlc.Am.SegmentQueue
import OpenAir.Rlc.Am.TxWindow

/-! When a new PDU asks for a STATUS PDU: the thresholds on their way from RRC to the entity, and
the polls of whole runs. -/
namespace OpenAir.Rlc.Am
open BitField Run

/-- `LTE_RLC_Config__am`: each value is an index in an enumeration. -/
structure RlcConfigAm where
  maxRetxThreshold : Nat
  pollPdu : Nat
  pollByte : Nat
  tPollRetransmit : Nat
  tReordering : Nat
  tStatusProhibit : Nat

def pollPduTab : List Nat := [4, 8, 16, 32, 64, 128, 256, 0xFFFF]

def maxRetxThresholdTab : List Nat := [1, 2, 3, 4, 6, 8, 16, 32]

def pollByteTab : List Nat :=
  [25000, 50000, 75000, 100000, 125000, 250000, 375000, 500000, 750000, 1000000, 1250000,
   1500000, 2000000, 3000000, 0xFFFFFFFF]

def pollRetransmitTab : List Nat :=
  (List.range 50).map (fun k => 5 * (k + 1)) ++ [300, 350, 400, 450, 500, 800, 1000, 2000, 4000]

/-- `rlc_am_configure`: three of its parameters are `uint16_t`. -/
def configure (maxRetxThreshold pollPdu pollByte tPollRetransmit : Nat) : TxConfig where
  maxRetxThreshold := maxRetxThreshold % 2 ^ 16
  pollPdu := pollPdu % 2 ^ 16
  pollByte := pollByte % 2 ^ 16
  tPollRetransmit := tPollRetransmit % 2 ^ 32

/-- `config_req_rlc_am_asn1`: the parameters of the entity, when the configuration is accepted. -/
def configReqRlcAmAsn1 (config : RlcConfigAm) : Option TxConfig :=
  if config.maxRetxThreshold ≤ 7 ∧ config.pollPdu ≤ 7 ∧ config.pollByte < 15 ∧
    config.tPollRetransmit < 59 ∧
      config.tReordering < 32 ∧ config.tStatusProhibit < 62 then
    some (configure (maxRetxThresholdTab.getD config.maxRetxThreshold 0)
      (pollPduTab.getD config.pollPdu 0)
      (pollByteTab.getD config.pollByte 0) (pollRetransmitTab.getD config.tPollRetransmit 0))
  else
    none

def RlcConfigAm.pollPduLimit (config : RlcConfigAm) : Option Nat :=
  if config.pollPdu = 7 then none else some (pollPduTab.getD config.pollPdu 0)

def RlcConfigAm.pollByteLimit (config : RlcConfigAm) : Option Nat :=
  if config.pollByte = 14 then none else some (pollByteTab.getD config.pollByte 0)

def pollBit (mem : Memory) : Bool := (mem 0).toNat.testBit 5

def TxPdu.polls (pdu : TxPdu) : Bool := pdu.memBlock.any pollBit

/-- The entity, with the new PDUs and their data bytes since the last poll, and whether the poll
timer has run out since. -/
structure PollState where
  tx : Tx
  pdus : Nat := 0
  bytes : Int := 0
  forced : Bool := false

/-- A PDU was sent; a poll starts all counts anew. -/
def PollState.sent (s : PollState) (tx : Tx) (poll : Bool) (pdus : Nat) (bytes : Int) : PollState :=
  if poll then { tx } else { s with tx, pdus := s.pdus + pdus, bytes := s.bytes + bytes }

/-- What a call gave; a new PDU is known by VT(S). -/
def PollState.given (s : PollState) (result : Tx × Option (Memory × Int)) : PollState :=
  let pdu := result.1.pdu s.tx.vtS
  if result.1.vtS ≠ s.tx.vtS then s.sent result.1 pdu.polls 1 pdu.payloadSize
  else s.sent result.1 (result.2.any fun block => pollBit block.1) 0 0

/-- The operations of the transmitting side. -/
def pollStep (s : PollState) : TxOp → Option PollState
  | .getPdus grant alloc now =>
    some (s.given (getPdus { s.tx with nbBytesRequestedByMac := grant } alloc now))
  | .checkTimerPollRetransmit now =>
    some { s with
      tx := checkTimerPollRetransmit s.tx now
      forced := s.forced || s.tx.tPollRetransmit.expired now }
  | .dataReq bytes size mui => some { s with tx := dataReq s.tx bytes size mui }
  | .receiveControlPdu mem tbSize => (receiveProcessControlPdu s.tx mem tbSize).map
      fun r => { s with tx := r.tx }

/-- A new PDU polls if and only if, with it, a limit is reached, or nothing is left to send, or the
window is full, or the timer asks for it. -/
def PollLaw (config : RlcConfigAm) (s : PollState) : TxOp → Prop
  | .getPdus grant alloc now =>
    let tx := (getPdus { s.tx with nbBytesRequestedByMac := grant } alloc now).1
    let pdu := tx.pdu s.tx.vtS
    tx.vtS ≠ s.tx.vtS →
      (pdu.polls = true ↔
        (∃ limit ∈ config.pollPduLimit, limit ≤ s.pdus + 1) ∨
        (∃ limit ∈ config.pollByteLimit, limit ≤ s.bytes + pdu.payloadSize) ∨
        (tx.sduBufferOccupancy = 0 ∧ tx.retransNumBytesToRetransmit = 0) ∨ tx.vtS = tx.vtMs ∨
          s.forced = true)
  | _ => True

section Bits

theorem pollBit_set (mem : Memory)
    (b1 : Nat) : pollBit (setByte mem 0 (b1 ||| (1 <<< 5))) = true := by
  have bit : ((b1 ||| (1 <<< 5)) % 2 ^ 8).testBit 5 = true := by
    rw [Nat.testBit_mod_two_pow, Nat.testBit_or]
    have one : (1 <<< 5).testBit 5 = true := by decide
    rw [one, Bool.or_true]
    rfl
  rw [pollBit, setByte, Function.update_self, UInt8.toNat_ofNat']
  exact bit

theorem pollBit_clear (mem : Memory)
    (b1 : Nat) : pollBit (setByte mem 0 (b1 &&& (0xFF ^^^ (1 <<< 5)))) = false := by
  have bit : ((b1 &&& (0xFF ^^^ (1 <<< 5))) % 2 ^ 8).testBit 5 = false := by
    rw [Nat.testBit_mod_two_pow, Nat.testBit_and]
    have zero : (0xFF ^^^ (1 <<< 5)).testBit 5 = false := by decide
    rw [zero, Bool.and_false, Bool.and_false]
  rw [pollBit, setByte, Function.update_self, UInt8.toNat_ofNat']
  exact bit

end Bits

section OnePdu

/-- The counters with a PDU of `payloadSize` bytes; without a limit they stand still. -/
def Tx.pdusWith (tx : Tx) : Nat := if tx.pollPdu ≠ 0xFFFF then tx.cPduWithoutPoll + 1
    else tx.cPduWithoutPoll

def Tx.bytesWith (tx : Tx) (payloadSize : Int) : Nat :=
  if tx.pollByte ≠ 0xFFFFFFFF then ((tx.cByteWithoutPoll + int16 payloadSize) % 2 ^ 32).toNat
    else tx.cByteWithoutPoll

/-- A poll whatever the PDU. -/
def Tx.mustPoll (tx : Tx) : Prop :=
  (tx.sduBufferOccupancy = 0 ∧ tx.retransNumBytesToRetransmit = 0) ∨ tx.vtS = tx.vtMs ∨
    tx.forcePoll = true

structure PollReset (before after : Tx) : Prop where
  pollPdu : after.pollPdu = before.pollPdu
  pollByte : after.pollByte = before.pollByte
  pdus : after.cPduWithoutPoll = 0
  bytes : after.cByteWithoutPoll = 0
  force : after.forcePoll = false
  threshold : after.maxRetxThreshold = before.maxRetxThreshold

theorem PollReset.after {a b c : Tx} (reset : PollReset b c) (same : SamePoll a b) :
    PollReset a c :=
  ⟨reset.pollPdu.trans same.pollPdu, reset.pollByte.trans same.pollByte, reset.pdus,
    reset.bytes, reset.force,
    reset.threshold.trans same.threshold⟩

theorem pduPolling_new (tx : Tx) (b1 : Nat) (payloadSize : Int) (now : Nat) :
    ((tx.pollPdu ≤ tx.pdusWith ∨ tx.pollByte ≤ tx.bytesWith payloadSize) ∨ tx.mustPoll) ∧
      PollReset tx (pduPolling tx b1 payloadSize true now).1 ∧
      (pduPolling tx b1 payloadSize true now).2 = b1 ||| (1 <<< 5) ∨
    ¬ ((tx.pollPdu ≤ tx.pdusWith ∨ tx.pollByte ≤ tx.bytesWith payloadSize) ∨ tx.mustPoll) ∧
      SamePoll
        { tx with cPduWithoutPoll := tx.pdusWith, cByteWithoutPoll := tx.bytesWith payloadSize }
        (pduPolling tx b1 payloadSize true now).1 ∧
      (pduPolling tx b1 payloadSize true now).2 = b1 &&& (0xFF ^^^ (1 <<< 5)) := by
  have pdus : (if tx.pollPdu ≠ 0xFFFF then
    { tx with cPduWithoutPoll := tx.cPduWithoutPoll + 1 } else tx) =
      { tx with cPduWithoutPoll := tx.pdusWith } := by
    unfold Tx.pdusWith
    split
    all_goals rfl
  have bytes : (if tx.pollByte ≠ 0xFFFFFFFF then
        { { tx with cPduWithoutPoll := tx.pdusWith } with
          cByteWithoutPoll := ((tx.cByteWithoutPoll + int16 payloadSize) % 2 ^ 32).toNat }
      else { tx with cPduWithoutPoll := tx.pdusWith }) =
      { tx with cPduWithoutPoll := tx.pdusWith, cByteWithoutPoll := tx.bytesWith payloadSize } := by
    unfold Tx.bytesWith
    split
    all_goals rfl
  unfold pduPolling
  simp only [true_and]
  rw [pdus]
  simp only
  rw [bytes]
  unfold Tx.mustPoll
  split
  · exact Or.inl ⟨‹_›, ⟨rfl, rfl, rfl, rfl, rfl, rfl⟩, rfl⟩
  · exact Or.inr ⟨‹_›, ⟨rfl, rfl, rfl, rfl, rfl, rfl, rfl⟩, rfl⟩

theorem pduPolling_again (tx : Tx) (b1 : Nat) (payloadSize : Int) (now : Nat) :
    PollReset tx (pduPolling tx b1 payloadSize false now).1 ∧
      (pduPolling tx b1 payloadSize false now).2 = b1 ||| (1 <<< 5) ∨
    SamePoll tx (pduPolling tx b1 payloadSize false now).1 ∧
      (pduPolling tx b1 payloadSize false now).2 = b1 &&& (0xFF ^^^ (1 <<< 5)) := by
  unfold pduPolling
  simp only [Bool.false_eq_true, false_and, if_false, false_or]
  split
  · exact Or.inl ⟨⟨rfl, rfl, rfl, rfl, rfl, rfl⟩, rfl⟩
  · exact Or.inr ⟨SamePoll.refl tx, rfl⟩

end OnePdu

section Payload

theorem writeLi_sizes (s : SecondPass) (testNumLi size : Nat) :
    (s.writeLi testNumLi size).payloadSize = s.payloadSize ∧
    (s.writeLi testNumLi size).pduRemainingSize = s.pduRemainingSize := by
  unfold SecondPass.writeLi
  simp only
  split
  all_goals exact ⟨rfl, rfl⟩

theorem fill_room (s : SecondPass) (testNumLi : Nat) (bytes : Memory) :
    (s.fill testNumLi bytes).payloadSize + (s.fill testNumLi bytes).pduRemainingSize ≤
      s.payloadSize + s.pduRemainingSize := by
  obtain ⟨payload, room⟩ := writeLi_sizes
    (s.copy bytes (s.tx.inputSdus s.tx.currentSduIndex).sduRemainingSize) testNumLi
    (s.tx.inputSdus s.tx.currentSduIndex).sduRemainingSize
  unfold SecondPass.fill
  simp only
  split
  · exact Nat.le_refl _
  · rename_i fits
    split
    · rename_i whole
      simp only [SecondPass.finishSdu, SecondPass.copy, whole]
      exact Nat.le_refl _
    · split
      · split
        · simp only [SecondPass.finishSdu, SecondPass.copy]
          omega
        · simp only [SecondPass.finishSdu, payload, room]
          simp only [SecondPass.copy]
          omega
      · simp only [SecondPass.finishSdu, SecondPass.copy]
        omega

theorem secondPass_room (testNumLi rounds : Nat) (s : SecondPass) :
    (secondPass testNumLi rounds s).payloadSize ≤ s.payloadSize + s.pduRemainingSize := by
  induction rounds generalizing s with
  | zero => exact Nat.le_add_right _ _
  | succ rounds ih =>
    rw [secondPass]
    split
    · split
      · exact (ih _).trans (fill_room s testNumLi _)
      · exact Nat.le_add_right _ _
    · exact Nat.le_add_right _ _

theorem fillReserved_room (tx : Tx) (block : Memory) : (fillReserved tx block).payloadSize ≤
    pduRoom tx := by
  have filled := secondPass_room (reserve tx).result.1 maxSduInPdu (fillStart tx block)
  have start : (fillStart tx block).payloadSize + (fillStart tx block).pduRemainingSize =
      (reserve tx).result.2 :=
    Nat.zero_add _
  rw [start] at filled
  exact filled.trans (reserve_within tx)

theorem pduRoom_le (tx : Tx) : (pduRoom tx : Int) ≤ max 0 tx.nbBytesRequestedByMac := by
  have most : dataPduSize tx ≤ max 0 tx.nbBytesRequestedByMac := by
    unfold dataPduSize
    simp only
    generalize tx.sduBufferOccupancy + (headerMinSize : Int) + _ = all
    split
    · exact le_max_of_le_right ‹_›
    · exact le_max_right _ _
  unfold pduRoom
  omega

/-- The room depends on the grant and on the queue alone. -/
theorem SameQueue.pduRoom {before after : Tx} (same : SameQueue before after)
    (grant : after.nbBytesRequestedByMac = before.nbBytesRequestedByMac) :
    pduRoom after = pduRoom before := by
  unfold Am.pduRoom dataPduSize
  rw [same.occupancy, same.count, grant]

end Payload

section Sends

theorem SameQueue.refl (tx : Tx) : SameQueue tx tx := ⟨rfl, rfl, rfl, rfl⟩

theorem SameQueue.trans {a b c : Tx} (left : SameQueue a b) (right : SameQueue b c) :
    SameQueue a c :=
  ⟨right.sdus.trans left.sdus, right.current.trans left.current, right.count.trans left.count,
    right.occupancy.trans left.occupancy⟩

theorem retransmitAt_sameQueue (tx : Tx) (sn : Nat) (allocated : Bool) :
    SameQueue tx (retransmitAt tx sn allocated).1 := by
  unfold retransmitAt retransmitWhole retransmitSegment hitMaxRetx
  simp only
  repeat' split
  all_goals exact ⟨rfl, rfl, rfl, rfl⟩

theorem searchRetransmit_sameQueue (snEnd : Nat) (allocated : Bool)
    (now rounds sn : Nat) (tx : Tx) :
    SameQueue tx (searchRetransmit snEnd allocated now rounds sn tx).1 := by
  induction rounds generalizing sn tx with
  | zero => exact SameQueue.refl tx
  | succ rounds ih =>
    have here := retransmitAt_sameQueue tx sn allocated
    simp only [searchRetransmit]
    generalize retransmitAt tx sn allocated = tried at here ⊢
    obtain ⟨next, emitted⟩ := tried
    cases emitted with
    | none =>
      simp only
      split
      · exact here.trans (ih (nextSn sn) next)
      · exact here
    | some out =>
      obtain ⟨polled, -, -⟩ :=
        pduPolling_sameQueue next (out.mem 0).toNat (next.pdu sn).payloadSize false now
      exact (here.trans polled).trans ⟨rfl, rfl, rfl, rfl⟩

theorem getPduToRetransmit_sameQueue (tx : Tx) (allocated : Bool) (now : Nat) :
    SameQueue tx (getPduToRetransmit tx allocated now).1 := by
  unfold getPduToRetransmit
  split
  · exact SameQueue.refl tx
  · exact searchRetransmit_sameQueue tx.vtS allocated now snModulo tx.vtA tx

/-- A call of the segmentation makes no PDU, or one that passed `rlc_am_pdu_polling`. -/
theorem segment10_polls (tx : Tx) (block : Option Memory) (copied : Bool) (now : Nat) :
    segment10 tx block copied now = (tx, none) ∨
    ∃ (filled : Tx) (mem : Memory) (payload b1 : Nat) (pdu : TxPdu), SamePoll tx filled ∧
      filled.vtS = nextSn tx.vtS ∧
      payload ≤ pduRoom tx ∧
      pdu.memBlock = some (setByte mem 0 (pduPolling filled b1 payload true now).2) ∧
      pdu.payloadSize = payload ∧
      (segment10 tx block copied now).1 =
      (pduPolling filled b1 payload true now).1.setPdu tx.vtS pdu := by
  unfold segment10
  split
  · exact Or.inl rfl
  · split
    · rename_i mem _
      split
      · right
        have same := fillPdu_samePoll tx mem (dataPduSize tx).toNat
        have room := fillReserved_room tx mem
        have passes := fillPdu_eq tx mem
        generalize fillReserved tx mem = second at passes room
        rw [passes] at same
        simp only [passes]
        refine ⟨{ second.tx with vtS := (tx.vtS + 1) % snModulo }, _, second.payloadSize, _, _, ?_,
          rfl, room, rfl, rfl,
          rfl⟩
        exact same.trans ⟨rfl, rfl, rfl, rfl, rfl, rfl, rfl⟩
      · exact Or.inl rfl
    · exact Or.inl rfl

/-- The search for a retransmission finds none, or one that passed `rlc_am_pdu_polling`. -/
theorem searchRetransmit_polls (snEnd : Nat) (allocated : Bool) (now rounds sn : Nat) (tx : Tx) :
    let found := searchRetransmit snEnd allocated now rounds sn tx
    found.2 = none ∧ SamePoll tx found.1 ∨
    ∃ out, found.2 = some out ∧
      (pollBit out.mem = true ∧ PollReset tx found.1 ∨ pollBit out.mem = false ∧
          SamePoll tx found.1) := by
  induction rounds generalizing sn tx with
  | zero => exact Or.inl ⟨rfl, SamePoll.refl tx⟩
  | succ rounds ih =>
    have here := retransmitAt_samePoll tx sn allocated
    simp only [searchRetransmit]
    generalize retransmitAt tx sn allocated = tried at here ⊢
    obtain ⟨next, emitted⟩ := tried
    cases emitted with
    | none =>
      simp only
      split
      · rcases ih (nextSn sn) next with ⟨none_, same⟩ | ⟨out, some_, polled⟩
        · exact Or.inl ⟨none_, here.trans same⟩
        · refine Or.inr
            ⟨out, some_, polled.imp (fun reset => ⟨reset.1, ?_⟩)
            fun same => ⟨same.1, here.trans same.2⟩⟩
          obtain ⟨-, reset⟩ := reset
          exact reset.after here
      · exact Or.inl ⟨rfl, here⟩
    | some out =>
      refine Or.inr ⟨_, rfl, ?_⟩
      simp only
      rcases pduPolling_again next (out.mem 0).toNat (next.pdu sn).payloadSize now
        with ⟨reset, bit⟩ | ⟨same, bit⟩
      · refine Or.inl ⟨?_, ?_⟩
        · rw [bit]
          exact pollBit_set _ _
        · exact PollReset.after
            ⟨reset.pollPdu, reset.pollByte, reset.pdus, reset.bytes, reset.force,
            reset.threshold⟩ here
      · refine Or.inr ⟨?_, ?_⟩
        · rw [bit]
          exact pollBit_clear _ _
        · exact (here.trans same).trans ⟨rfl, rfl, rfl, rfl, rfl, rfl, rfl⟩

end Sends

section Counts

/-- The entity counts what was sent since the last poll, as far as there is a limit. -/
structure PollCounts (config : RlcConfigAm) (tx : Tx) (pdus : Nat) (bytes : Int)
    (forced : Bool) : Prop where
  pollPdu : tx.pollPdu = config.pollPduLimit.getD 0xFFFF
  finite : ∀ limit ∈ config.pollPduLimit, limit ≠ 0xFFFF
  pdus : tx.cPduWithoutPoll = if config.pollPduLimit.isSome then pdus else 0
  pollByte : config.pollByteLimit = some tx.pollByte
  small : tx.pollByte < 2 ^ 16
  bytes : (tx.cByteWithoutPoll : Int) = bytes
  below : tx.cByteWithoutPoll < tx.pollByte
  forced : tx.forcePoll = forced

variable {config : RlcConfigAm} {tx after : Tx} {pdus payload : Nat} {bytes : Int} {forced : Bool}

theorem PollCounts.of_same (counts : PollCounts config tx pdus bytes forced)
    (same : SamePoll tx after) :
    PollCounts config after pdus bytes forced where
  pollPdu := same.pollPdu.trans counts.pollPdu
  finite := counts.finite
  pdus := same.pdus.trans counts.pdus
  pollByte := by rw [same.pollByte, counts.pollByte]
  small := by rw [same.pollByte]; exact counts.small
  bytes := by rw [same.bytes]; exact counts.bytes
  below := by rw [same.bytes, same.pollByte]; exact counts.below
  forced := same.force.trans counts.forced

theorem PollCounts.reset (counts : PollCounts config tx pdus bytes forced)
    (reset : PollReset tx after) :
    PollCounts config after 0 0 false where
  pollPdu := reset.pollPdu.trans counts.pollPdu
  finite := counts.finite
  pdus := by rw [reset.pdus, ite_self]
  pollByte := by rw [reset.pollByte, counts.pollByte]
  small := by rw [reset.pollByte]; exact counts.small
  bytes := by rw [reset.bytes]; rfl
  below := by rw [reset.bytes, reset.pollByte]; exact Nat.zero_lt_of_lt counts.below
  forced := reset.force

theorem PollCounts.pdus_iff (counts : PollCounts config tx pdus bytes forced) :
    tx.pollPdu ≤ tx.pdusWith ↔ ∃ limit ∈ config.pollPduLimit, limit ≤ pdus + 1 := by
  have pollPdu := counts.pollPdu
  have counted := counts.pdus
  have finite := counts.finite
  unfold Tx.pdusWith
  cases limited : config.pollPduLimit with
  | none =>
    rw [limited] at pollPdu counted
    have infinite : tx.pollPdu = 0xFFFF := pollPdu
    have counted : tx.cPduWithoutPoll = 0 := counted
    rw [if_neg (not_not.mpr infinite), infinite, counted]
    refine ⟨fun less => absurd less (by decide), ?_⟩
    rintro ⟨limit, member, -⟩
    cases member
  | some limit =>
    rw [limited] at pollPdu counted finite
    have limited : tx.pollPdu = limit := pollPdu
    have counted : tx.cPduWithoutPoll = pdus := counted
    rw [limited, if_pos (finite limit rfl), counted]
    refine ⟨fun reached => ⟨limit, rfl, reached⟩, ?_⟩
    rintro ⟨other, member, reached⟩
    cases member
    exact reached

/-- The bytes do not overflow: fewer than the limit were there, and the limit has sixteen bits. -/
theorem PollCounts.bytesWith (counts : PollCounts config tx pdus bytes forced)
    (short : payload < 2 ^ 15) :
    (tx.bytesWith payload : Int) = bytes + payload := by
  have small := counts.small
  have below := counts.below
  have size : int16 payload = payload := int16_eq (by omega) (by omega)
  unfold Tx.bytesWith
  rw [if_pos (by omega), size, ← counts.bytes]
  omega

theorem PollCounts.bytes_iff (counts : PollCounts config tx pdus bytes forced)
    (short : payload < 2 ^ 15) :
    tx.pollByte ≤ tx.bytesWith payload ↔ ∃ limit ∈ config.pollByteLimit, (limit : Int) ≤
    bytes + payload := by
  rw [← counts.bytesWith short, counts.pollByte]
  constructor
  · intro reached
    exact ⟨tx.pollByte, rfl, Int.ofNat_le.mpr reached⟩
  · rintro ⟨limit, member, reached⟩
    cases member
    exact Int.ofNat_le.mp reached

theorem PollCounts.count (counts : PollCounts config tx pdus bytes forced)
    (short : payload < 2 ^ 15)
    (few : ¬ tx.pollByte ≤ tx.bytesWith payload) :
    PollCounts config
      { tx with cPduWithoutPoll := tx.pdusWith, cByteWithoutPoll := tx.bytesWith payload }
      (pdus + 1)
      (bytes + payload) forced where
  pollPdu := counts.pollPdu
  finite := counts.finite
  pdus := by
    have pollPdu := counts.pollPdu
    have counted := counts.pdus
    have finite := counts.finite
    simp only [Tx.pdusWith]
    cases limited : config.pollPduLimit with
    | none =>
      rw [limited] at pollPdu counted
      have infinite : tx.pollPdu = 0xFFFF := pollPdu
      rw [if_neg (not_not.mpr infinite), counted]
      rfl
    | some limit =>
      rw [limited] at pollPdu counted finite
      have limited : tx.pollPdu = limit := pollPdu
      rw [limited, if_pos (finite limit rfl), counted]
      rfl
  pollByte := counts.pollByte
  small := counts.small
  bytes := counts.bytesWith short
  below := Nat.lt_of_not_le few
  forced := counts.forced

theorem pduPolling_left (tx : Tx) (b1 : Nat) (payloadSize : Int) (isNewPdu : Bool) (now : Nat) :
    let after := (pduPolling tx b1 payloadSize isNewPdu now).1
    after.sduBufferOccupancy = tx.sduBufferOccupancy ∧
    after.retransNumBytesToRetransmit = tx.retransNumBytesToRetransmit ∧ after.vtS = tx.vtS ∧
        after.vtMs = tx.vtMs := by
  unfold pduPolling
  simp only
  repeat' split
  all_goals exact ⟨rfl, rfl, rfl, rfl⟩

/-- A new PDU of an entity that counts rightly polls as it should, and the entity goes on
counting. -/
theorem PollCounts.newPdu (counts : PollCounts config tx pdus bytes forced)
    (short : payload < 2 ^ 15) (b1 now : Nat)
    (mem : Memory) :
    let polled := pduPolling tx b1 payload true now
    let bit := pollBit (setByte mem 0 polled.2)
    (bit = true ↔ (∃ limit ∈ config.pollPduLimit, limit ≤ pdus + 1) ∨
      (∃ limit ∈ config.pollByteLimit, (limit : Int) ≤ bytes + payload) ∨
      (polled.1.sduBufferOccupancy = 0 ∧ polled.1.retransNumBytesToRetransmit = 0) ∨
        polled.1.vtS = polled.1.vtMs ∨
      forced = true) ∧
    (bit = true ∧ PollCounts config polled.1 0 0 false ∨
      bit = false ∧ PollCounts config polled.1 (pdus + 1) (bytes + payload) forced) := by
  obtain ⟨occupancy, retx, vtS, vtMs⟩ := pduPolling_left tx b1 payload true now
  have must : tx.mustPoll ↔ ((pduPolling tx b1 payload true now).1.sduBufferOccupancy = 0 ∧
      (pduPolling tx b1 payload true now).1.retransNumBytesToRetransmit = 0) ∨
      (pduPolling tx b1 payload true now).1.vtS = (pduPolling tx b1 payload true now).1.vtMs ∨
          forced = true := by
    rw [occupancy, retx, vtS, vtMs, ← counts.forced]
    exact Iff.rfl
  have due := pduPolling_new tx b1 payload now
  rw [counts.pdus_iff, counts.bytes_iff short, must, or_assoc] at due
  simp only
  rcases due with ⟨due, reset, bit⟩ | ⟨idle, same, bit⟩
  · have set := pollBit_set mem b1
    rw [← bit] at set
    exact ⟨⟨fun _ => due, fun _ => set⟩, Or.inl ⟨set, counts.reset reset⟩⟩
  · have clear := pollBit_clear mem b1
    rw [← bit] at clear
    have few : ¬ tx.pollByte ≤ tx.bytesWith payload := by
      rw [counts.bytes_iff short]
      exact fun reached => idle (Or.inr (Or.inl reached))
    refine ⟨⟨fun set => ?_, fun due => absurd due idle⟩,
      Or.inr ⟨clear, (counts.count short few).of_same same⟩⟩
    rw [clear] at set
    contradiction

end Counts

section Runs

/-- A state of a run: the window is in order, and the entity counts as it should. -/
structure PollOk (config : RlcConfigAm) (s : PollState) : Prop where
  window : TxWindow s.tx
  counts : PollCounts config s.tx s.pdus s.bytes s.forced

/-- A new PDU has room for no more data than the `int16_t` of `rlc_am_pdu_polling` can count. -/
def ShortPdus (s : PollState) : TxOp → Prop
  | .getPdus grant _ _ => pduRoom { s.tx with nbBytesRequestedByMac := grant } < 2 ^ 15
  | _ => True

theorem sent_tx (s : PollState) (tx : Tx) (poll : Bool) (pdus : Nat) (bytes : Int) :
    (s.sent tx poll pdus bytes).tx = tx := by
  unfold PollState.sent
  split
  all_goals rfl

theorem given_tx (s : PollState) (result : Tx × Option (Memory × Int)) :
    (s.given result).tx = result.1 := by
  unfold PollState.given
  simp only
  split
  all_goals exact sent_tx s _ _ _ _

theorem getPdus_cases (tx : Tx) (alloc : Allocation) (now : Nat) :
    (∃ out tbSize, (getPdus tx alloc now).2 = some (out, tbSize) ∧
        (getPdus tx alloc now).1.vtS = tx.vtS ∧
      (pollBit out = true ∧ PollReset tx (getPdus tx alloc now).1 ∨
        pollBit out = false ∧ SamePoll tx (getPdus tx alloc now).1)) ∨
    ((getPdus tx alloc now).2 = none ∧ (getPdus tx alloc now).1.vtS = tx.vtS ∧
      SamePoll tx (getPdus tx alloc now).1) ∨
    ∃ (filled : Tx) (mem : Memory) (payload b1 : Nat) (pdu : TxPdu), SamePoll tx filled ∧
      filled.vtS = nextSn tx.vtS ∧
      payload ≤ pduRoom tx ∧
      pdu.memBlock = some (setByte mem 0 (pduPolling filled b1 payload true now).2) ∧
      pdu.payloadSize = payload ∧
      (getPdus tx alloc now).1 = (pduPolling filled b1 payload true now).1.setPdu tx.vtS pdu := by
  unfold getPdus
  generalize tried : (if tx.retransNumBytesToRetransmit ≠ 0 ∧ tx.nbBytesRequestedByMac > 2 then
    getPduToRetransmit tx alloc.allocated now else (tx, none)) = search
  have vtS : search.1.vtS = tx.vtS := by
    rw [← tried]
    split
    · exact (getPduToRetransmit_acks tx alloc.allocated now).vtS
    · rfl
  have found : search.2 = none ∧ SamePoll tx search.1 ∨ ∃ out, search.2 = some out ∧
      (pollBit out.mem = true ∧ PollReset tx search.1 ∨ pollBit out.mem = false ∧
          SamePoll tx search.1) := by
    rw [← tried]
    split
    · unfold getPduToRetransmit
      split
      · exact Or.inl ⟨rfl, SamePoll.refl tx⟩
      · exact searchRetransmit_polls tx.vtS alloc.allocated now snModulo tx.vtA tx
    · exact Or.inl ⟨rfl, SamePoll.refl tx⟩
  have queue : SameQueue tx search.1 := by
    rw [← tried]
    split
    · exact getPduToRetransmit_sameQueue tx alloc.allocated now
    · exact SameQueue.refl tx
  obtain ⟨next, emitted⟩ := search
  rcases found with ⟨none_, same⟩ | ⟨out, some_, polled⟩
  · cases none_
    right
    simp only
    split
    · rcases segment10_polls next alloc.block alloc.copied now with idle |
        ⟨filled, mem, payload, b1, pdu, kept, moved, room, block, size, result⟩
      · rw [idle]
        exact Or.inl ⟨rfl, vtS, same⟩
      · refine Or.inr ⟨filled, mem, payload, b1, pdu, same.trans kept, ?_, ?_, block, size, ?_⟩
        · rw [moved, vtS]
        · rw [← queue.pduRoom same.grant]
          exact room
        · rw [result, vtS]
    · exact Or.inl ⟨rfl, vtS, same⟩
  · cases some_
    exact Or.inl ⟨out.mem, out.tbSize, rfl, vtS, polled⟩

theorem getPdus_polls {config : RlcConfigAm} {s : PollState} (ok : PollOk config s) {grant : Int}
    (short : pduRoom { s.tx with nbBytesRequestedByMac := grant } < 2 ^ 15)
    (alloc : Allocation) (now : Nat) :
    let s' := s.given (getPdus { s.tx with nbBytesRequestedByMac := grant } alloc now)
    PollLaw config s (.getPdus grant alloc now) ∧
        PollCounts config s'.tx s'.pdus s'.bytes s'.forced := by
  have counts := ok.counts
  have granted :
      PollCounts config { s.tx with nbBytesRequestedByMac := grant } s.pdus s.bytes s.forced :=
    ⟨counts.pollPdu, counts.finite, counts.pdus, counts.pollByte, counts.small, counts.bytes,
      counts.below, counts.forced⟩
  have outcome := getPdus_cases { s.tx with nbBytesRequestedByMac := grant } alloc now
  simp only [PollLaw]
  generalize getPdus { s.tx with nbBytesRequestedByMac := grant } alloc now = result at outcome ⊢
  simp only [PollState.given, PollState.sent]
  rcases outcome with ⟨out, tbSize, again, vtS, polled⟩ | ⟨none_, vtS, same⟩ |
    ⟨filled, mem, payload, b1, pdu, same, moved, room, block, size, after⟩
  · have still : ¬ result.1.vtS ≠ s.tx.vtS := not_not.mpr vtS
    refine ⟨fun new => absurd new still, ?_⟩
    rw [if_neg still, again, Option.any_some]
    rcases polled with ⟨bit, reset⟩ | ⟨bit, same⟩
    · rw [if_pos bit]
      exact granted.reset reset
    · rw [bit, if_neg Bool.false_ne_true, Int.add_zero]
      exact granted.of_same same
  · have still : ¬ result.1.vtS ≠ s.tx.vtS := not_not.mpr vtS
    refine ⟨fun new => absurd new still, ?_⟩
    rw [if_neg still, none_, Option.any_none, if_neg Bool.false_ne_true, Int.add_zero]
    exact granted.of_same same
  · have vtS : result.1.vtS ≠ s.tx.vtS := by
      have kept : result.1.vtS = filled.vtS := by
        rw [after]
        exact (pduPolling_left filled b1 payload true now).2.2.1
      have valid : s.tx.vtS < snModulo := ok.window.vtS
      rw [kept, moved, nextSn]
      simp only [snModulo] at valid ⊢
      omega
    have slot : result.1.pdu s.tx.vtS = pdu := by
      rw [after]
      exact Function.update_self _ _ _
    have below : payload < 2 ^ 15 := Nat.lt_of_le_of_lt room short
    obtain ⟨law, next⟩ := (granted.of_same same).newPdu below b1 now mem
    rw [if_pos vtS, slot, size, TxPdu.polls, block, Option.any_some]
    have left : result.1.sduBufferOccupancy =
      (pduPolling filled b1 payload true now).1.sduBufferOccupancy ∧
        result.1.retransNumBytesToRetransmit =
          (pduPolling filled b1 payload true now).1.retransNumBytesToRetransmit ∧
        result.1.vtS = (pduPolling filled b1 payload true now).1.vtS ∧
        result.1.vtMs = (pduPolling filled b1 payload true now).1.vtMs := by
      rw [after]
      generalize pduPolling filled b1 payload true now = polled
      exact ⟨rfl, rfl, rfl, rfl⟩
    have stored : SamePoll (pduPolling filled b1 payload true now).1 result.1 := by
      rw [after]
      generalize pduPolling filled b1 payload true now = polled
      exact ⟨rfl, rfl, rfl, rfl, rfl, rfl, rfl⟩
    rw [left.1, left.2.1, left.2.2.1, left.2.2.2]
    refine ⟨fun _ => law, ?_⟩
    rcases next with ⟨bit, reset⟩ | ⟨bit, counted⟩
    · rw [if_pos bit]
      exact reset.of_same stored
    · rw [bit, if_neg Bool.false_ne_true]
      exact counted.of_same stored

theorem checkTimer_counts {config : RlcConfigAm} {tx : Tx} {pdus : Nat} {bytes : Int}
    {forced : Bool}
    (counts : PollCounts config tx pdus bytes forced) (now : Nat) :
    PollCounts config (checkTimerPollRetransmit tx now) pdus bytes
      (forced || tx.tPollRetransmit.expired now) := by
  unfold checkTimerPollRetransmit
  split
  · rename_i expired
    rw [expired, Bool.or_true]
    generalize stopped : { tx with
      tPollRetransmit := { tx.tPollRetransmit with running := false, timedOut := true } } = tx'
    have same : SamePoll tx tx' := by
      rw [← stopped]
      exact ⟨rfl, rfl, rfl, rfl, rfl, rfl, rfl⟩
    simp only
    have marked :
      PollCounts config (if (tx'.sduBufferOccupancy = 0 ∧ tx'.retransNumBytesToRetransmit = 0) ∨
        tx'.vtS = tx'.vtMs then forceRetransmit (prevSn tx'.vtA) snModulo (prevSn tx'.vtS) tx'
            else tx') pdus bytes forced := by
      split
      · exact (counts.of_same same).of_same (forceRetransmit_samePoll _ _ _ _)
      · exact counts.of_same same
    generalize (if (tx'.sduBufferOccupancy = 0 ∧ tx'.retransNumBytesToRetransmit = 0) ∨
        tx'.vtS = tx'.vtMs then forceRetransmit (prevSn tx'.vtA) snModulo (prevSn tx'.vtS) tx'
          else tx') = last at marked ⊢
    exact ⟨marked.pollPdu, marked.finite, marked.pdus, marked.pollByte, marked.small, marked.bytes,
      marked.below, rfl⟩
  · rename_i idle
    rw [Bool.eq_false_iff.mpr idle, Bool.or_false]
    exact counts

theorem pollStep_ok {config : RlcConfigAm} (s : PollState) (op : TxOp) (ok : PollOk config s)
    (short : ShortPdus s op) :
    (∃ s', pollStep s op = some s' ∧ PollOk config s') ∧ PollLaw config s op := by
  obtain ⟨tx', stepped, window, -⟩ := txStep_window ok.window op
  cases op with
  | dataReq bytes size mui =>
    cases stepped
    exact ⟨⟨_, rfl, window, ok.counts.of_same (dataReq_samePoll s.tx bytes size mui)⟩, trivial⟩
  | getPdus grant alloc now =>
    obtain ⟨law, counts⟩ := getPdus_polls ok short alloc now
    refine ⟨⟨_, rfl, ?_, counts⟩, law⟩
    obtain rfl := Option.some.inj stepped
    rw [given_tx]
    exact window
  | receiveControlPdu mem tbSize =>
    obtain ⟨r, received, rfl⟩ := Option.map_eq_some_iff.mp stepped
    refine ⟨⟨{ s with tx := r.tx }, ?_, window,
      ok.counts.of_same (receiveProcessControlPdu_samePoll received)⟩, trivial⟩
    rw [pollStep, received]
    rfl
  | checkTimerPollRetransmit now =>
    cases stepped
    refine ⟨⟨_, rfl, window, ?_⟩, trivial⟩
    exact checkTimer_counts ok.counts now

/-- The configuration reaches the entity whole when the limit of bytes has sixteen bits. -/
theorem pollStart_ok {config : RlcConfigAm} {entity : TxConfig}
    (accepted : configReqRlcAmAsn1 config = some entity)
    (fits : config.pollByte ≤ 1) : PollOk config { tx := txInit entity } := by
  unfold configReqRlcAmAsn1 at accepted
  split at accepted
  · rename_i ranges
    cases accepted
    obtain ⟨-, pdus, -, -⟩ := ranges
    have limits : ∀ i ≤ 7, (pollPduTab.getD i 0) % 2 ^ 16 =
        (if i = 7 then none else some (pollPduTab.getD i 0)).getD 0xFFFF ∧
        ∀ limit ∈ (if i = 7 then none else some (pollPduTab.getD i 0) : Option Nat),
          limit ≠ 0xFFFF := by decide
    have sizes : ∀ i ≤ 1, (if i = 14 then none else some (pollByteTab.getD i 0)) =
      some (pollByteTab.getD i 0 % 2 ^ 16) ∧
        pollByteTab.getD i 0 % 2 ^ 16 < 2 ^ 16 ∧ 0 < pollByteTab.getD i 0 % 2 ^ 16 := by decide
    obtain ⟨pollPdu, finite⟩ := limits config.pollPdu pdus
    obtain ⟨pollByte, small, below⟩ := sizes config.pollByte fits
    exact ⟨txInit_window _, ⟨pollPdu, finite, (ite_self 0).symm, pollByte, small, rfl, below, rfl⟩⟩
  · contradiction

/-- A grant of the size of one SDU and its header, with all blocks found. -/
def grantOne (size : Int) : TxOp := .getPdus size ⟨some fun _ => 0, true, true⟩ 0

theorem shortPdus_grantOne (s : PollState) {size : Int} (small : size < 2 ^ 15) :
    ShortPdus s (grantOne size) := by
  have room := pduRoom_le { s.tx with nbBytesRequestedByMac := size }
  simp only [ShortPdus, grantOne] at room ⊢
  omega

/-- Nine SDUs of 9000 bytes, seven of them sent. -/
def flood : List TxOp :=
  List.replicate 9 (.dataReq (fun _ => 0) 9000 0) ++ List.replicate 7 (grantOne 9002)

end Runs

end OpenAir.Rlc.Am
