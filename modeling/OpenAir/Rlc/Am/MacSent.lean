import OpenAir.Rlc.Am.MacRequest
import OpenAir.Rlc.Am.OccupancyAgrees
import OpenAir.Rlc.Am.Polling
import OpenAir.Rlc.Am.SegmentDecode

/-! What the PDU of one request carries is what leaves the buffers, as long as the STATUS PDU is
not cut short and the new PDU has no byte behind its last piece. -/
namespace OpenAir.Rlc.Am
open BitField Spans

/-- A slot that a search for a retransmission can send from. -/
structure TxPdu.Wanted (pdu : TxPdu) (threshold : Nat) : Prop where
  retransmit : pdu.retransmit = true
  kept : pdu.maxRetransmit = false
  transmitted : pdu.transmitted = true
  some : 0 < pdu.retxPayloadSize
  below : pdu.retxCountNext ≤ threshold

/-- Every slot that can be sent from holds its PDU and asks for bytes that can be planned. -/
def Resendable (tx : Tx) : Prop :=
  ∀ sn, (tx.pdu sn).Wanted tx.maxRetxThreshold →
    ∃ mem pieces holes, AsksFor (tx.pdu sn) mem pieces holes ∧ Countable pieces holes

section Retransmission

variable {tx : Tx}

/-- A turn leaves the slots of the other sequence numbers alone. -/
theorem retransmitTurn_apart {turn : RetxTurn} {sn : Nat}
    (apart : turn.sn % windowSize ≠ sn % windowSize) :
    OtherSlot sn tx (retransmitTurn tx turn).1 := by
  have granted := OtherSlot.granted tx sn turn.bytes
  have first :=
    retransmitAt_other apart { tx with nbBytesRequestedByMac := turn.bytes } turn.allocated
  rw [retransmitTurn]
  generalize retransmitAt { tx with nbBytesRequestedByMac := turn.bytes } turn.sn turn.allocated =
    tried at first ⊢
  obtain ⟨next, emitted⟩ := tried
  cases emitted with
  | none => exact granted.trans first
  | some out =>
    have polled :=
      (pduPolling_sameRetx next (out.mem 0).toNat (next.pdu turn.sn).payloadSize false turn.now).1
    have threshold :=
      pduPolling_threshold next (out.mem 0).toNat (next.pdu turn.sn).payloadSize turn.now
    exact (granted.trans first).trans
      (OtherSlot.trans ⟨congrFun polled.slots _, threshold⟩ (OtherSlot.setPdu _ apart _))

/-- What a search looks for in the slot of the SN it is at. -/
def TxPdu.ActiveAt (pdu : TxPdu) (sn : Nat) : Prop :=
  pdu.retransmit ∧ pdu.maxRetransmit = false ∧ pdu.sn = sn ∧ pdu.transmitted ∧
    0 < pdu.retxPayloadSize

theorem retransmitAt_idle {sn : Nat} (idle : ¬ (tx.pdu sn).ActiveAt sn) (allocated : Bool) :
    retransmitAt tx sn allocated = (tx, none) := by
  unfold retransmitAt
  exact if_neg idle

theorem retransmitAt_active {sn : Nat} (active : (tx.pdu sn).ActiveAt sn) (allocated : Bool) :
    retransmitAt tx sn allocated =
      if (tx.pdu sn).retxPayloadSize = (tx.pdu sn).payloadSize ∧
          tx.nbBytesRequestedByMac ≥ (tx.pdu sn).headerAndPayloadSize then
        retransmitWhole tx sn allocated
      else if tx.nbBytesRequestedByMac ≥ 5 then
        retransmitSegment tx sn allocated
      else
        (tx, none) := by
  unfold retransmitAt
  exact if_pos active

/-- A slot with nothing to send, or given up by now: at most the mark of the slot is set. -/
theorem retransmitAt_silent {sn : Nat} {allocated : Bool}
    (silent : ¬ ((tx.pdu sn).ActiveAt sn ∧ (tx.pdu sn).retxCountNext ≤ tx.maxRetxThreshold)) :
    retransmitAt tx sn allocated = (tx, none) ∨ retransmitAt tx sn allocated =
    (hitMaxRetx tx sn, none) := by
  by_cases active : (tx.pdu sn).ActiveAt sn
  · have above : ¬ (tx.pdu sn).retxCountNext ≤ tx.maxRetxThreshold :=
      fun below => silent ⟨active, below⟩
    rw [retransmitAt_active active]
    split
    · exact .inr (if_neg above)
    · split
      · exact .inr (if_neg above)
      · exact .inl rfl
  · exact .inl (retransmitAt_idle active allocated)

theorem retransmitTurn_silent {turn : RetxTurn}
    (silent : ¬ ((tx.pdu turn.sn).ActiveAt turn.sn ∧ (tx.pdu turn.sn).retxCountNext ≤
      tx.maxRetxThreshold)) :
    (retransmitTurn tx turn).2 = none ∧
      (retransmitTurn tx turn).1.retransNumBytesToRetransmit = tx.retransNumBytesToRetransmit ∧
      (((retransmitTurn tx turn).1.pdu turn.sn).maxRetransmit = false →
        (retransmitTurn tx turn).1.pdu turn.sn = tx.pdu turn.sn) := by
  rw [retransmitTurn]
  rcases @retransmitAt_silent { tx with nbBytesRequestedByMac := turn.bytes } turn.sn
      turn.allocated silent with
    same | given
  · rw [same]
    exact ⟨rfl, rfl, fun _ => rfl⟩
  · rw [given]
    refine ⟨rfl, rfl, fun kept => ?_⟩
    dsimp only [hitMaxRetx] at kept
    rw [pdu_setPdu] at kept
    cases kept

/-- The bytes sent in the copy of a whole PDU leave the counter. -/
theorem retransmitWhole_bytes {sn : Nat} {allocated : Bool}
    (whole : (tx.pdu sn).retxPayloadSize = (tx.pdu sn).payloadSize) :
    (retransmitWhole tx sn allocated).1.retransNumBytesToRetransmit =
      tx.retransNumBytesToRetransmit - (retransmitWhole tx sn allocated).2.elim 0
        Emitted.payloadSize := by
  unfold retransmitWhole retransmitGetCopy
  by_cases below : (tx.pdu sn).retxCountNext ≤ tx.maxRetxThreshold
  · simp only [if_pos below]
    cases (tx.pdu sn).memBlock with
    | none => exact (Int.sub_zero _).symm
    | some mem =>
      cases allocated with
      | false => exact (Int.sub_zero _).symm
      | true => exact congrArg (tx.retransNumBytesToRetransmit - ·) whole
  · simp only [if_neg below]
    exact (Int.sub_zero _).symm

/-- So do those sent in a segment that is not longer than what is pending. -/
theorem retransmitSegment_bytes (ok : RetxOk tx) {sn : Nat} {allocated : Bool}
    (flag : (tx.pdu sn).retransmit = true)
    (fits : ∀ out, (retransmitSegment tx sn allocated).2 = some out →
      out.payloadSize ≤ (tx.pdu sn).retxPayloadSize) :
    (retransmitSegment tx sn allocated).1.retransNumBytesToRetransmit =
      tx.retransNumBytesToRetransmit - (retransmitSegment tx sn allocated).2.elim 0
        Emitted.payloadSize := by
  have counted := ok.pending_le flag
  have same := retransmitGetAmSegment_account (tx.pdu sn) tx.nbBytesRequestedByMac allocated
  unfold retransmitSegment at fits ⊢
  by_cases below : (tx.pdu sn).retxCountNext ≤ tx.maxRetxThreshold
  · rw [if_pos below] at fits ⊢
    generalize retransmitGetAmSegment (tx.pdu sn) tx.nbBytesRequestedByMac allocated =
      segment at same fits ⊢
    obtain ⟨pdu, emitted⟩ := segment
    cases emitted with
    | none => exact (Int.sub_zero _).symm
    | some out =>
      have retx : pdu.retxPayloadSize = (tx.pdu sn).retxPayloadSize := same.retxPayloadSize
      by_cases few : pdu.retxPayloadSize < out.payloadSize ∨ tx.retransNumBytesToRetransmit <
        out.payloadSize
      · simp only [if_pos few, Option.some.injEq, forall_eq'] at fits
        omega
      · by_cases done : pdu.retxPayloadSize - out.payloadSize = 0
        · simp only [if_neg few, if_pos done]
          rfl
        · simp only [if_neg few, if_neg done]
          rfl
  · rw [if_neg below]
    exact (Int.sub_zero _).symm

theorem retransmitAt_bytes (ok : RetxOk tx) {sn : Nat} {allocated : Bool}
    (fits : ∀ out, (retransmitAt tx sn allocated).2 = some out →
      out.payloadSize ≤ (tx.pdu sn).retxPayloadSize) :
    (retransmitAt tx sn allocated).1.retransNumBytesToRetransmit =
      tx.retransNumBytesToRetransmit - (retransmitAt tx sn allocated).2.elim 0
        Emitted.payloadSize := by
  by_cases active : (tx.pdu sn).ActiveAt sn
  · rw [retransmitAt_active active] at fits ⊢
    by_cases whole : (tx.pdu sn).retxPayloadSize = (tx.pdu sn).payloadSize ∧
        tx.nbBytesRequestedByMac ≥ (tx.pdu sn).headerAndPayloadSize
    · rw [if_pos whole]
      exact retransmitWhole_bytes whole.1
    · by_cases enough : tx.nbBytesRequestedByMac ≥ 5
      · rw [if_neg whole, if_pos enough] at fits ⊢
        exact retransmitSegment_bytes ok active.1 fits
      · rw [if_neg whole, if_neg enough]
        exact (Int.sub_zero _).symm
  · rw [retransmitAt_idle active]
    exact (Int.sub_zero _).symm

theorem retransmitTurn_bytes (ok : RetxOk tx) {turn : RetxTurn}
    (fits : ∀ out, (retransmitTurn tx turn).2 = some out →
      out.payloadSize ≤ (tx.pdu turn.sn).retxPayloadSize) :
    (retransmitTurn tx turn).1.retransNumBytesToRetransmit =
      tx.retransNumBytesToRetransmit - (retransmitTurn tx turn).2.elim 0 Emitted.payloadSize := by
  have granted : RetxOk { tx with nbBytesRequestedByMac := turn.bytes } :=
    ok.of_same ⟨rfl, rfl, rfl⟩ ok.sdus
  have here := @retransmitAt_bytes _ granted turn.sn turn.allocated
  rw [retransmitTurn] at fits ⊢
  generalize retransmitAt { tx with nbBytesRequestedByMac := turn.bytes } turn.sn turn.allocated =
    tried at here fits ⊢
  obtain ⟨next, emitted⟩ := tried
  cases emitted with
  | none => exact here fun out absent => absurd absent.symm (Option.some_ne_none out)
  | some out =>
    have polled :=
      (pduPolling_sameRetx next (out.mem 0).toNat (next.pdu turn.sn).payloadSize false turn.now).1
    refine polled.bytes.trans (here fun other same => ?_)
    cases same
    exact fits { out with mem := setByte out.mem 0 _ } rfl

/-- What a turn sends leaves the counter, and the slots stay such that they can be sent from. -/
structure TurnSends (tx next : Tx) (emitted : Option Emitted) : Prop where
  resendable : Resendable next
  least : ∀ out ∈ emitted, 0 ≤ out.payloadSize
  bytes : next.retransNumBytesToRetransmit =
    tx.retransNumBytesToRetransmit - emitted.elim 0 Emitted.payloadSize

theorem retransmitTurn_sends (ok : RetxOk tx) (resendable : Resendable tx) (turn : RetxTurn) :
    TurnSends tx (retransmitTurn tx turn).1 (retransmitTurn tx turn).2 := by
  -- the other slots are as they were
  have others : ∀ sn, turn.sn % windowSize ≠ sn % windowSize →
      ((retransmitTurn tx turn).1.pdu sn).Wanted (retransmitTurn tx turn).1.maxRetxThreshold →
        ∃ mem pieces holes, AsksFor ((retransmitTurn tx turn).1.pdu sn) mem pieces holes ∧
            Countable pieces holes := by
    intro sn apart wanted
    have other : OtherSlot sn tx (retransmitTurn tx turn).1 := retransmitTurn_apart apart
    rw [other.slot, other.threshold] at wanted
    rw [other.slot]
    exact resendable sn wanted
  have slots (here : ((retransmitTurn tx turn).1.pdu turn.sn).Wanted
    (retransmitTurn tx turn).1.maxRetxThreshold →
      ∃ mem pieces holes, AsksFor ((retransmitTurn tx turn).1.pdu turn.sn) mem pieces holes ∧
        Countable pieces holes) :
      Resendable (retransmitTurn tx turn).1 := by
    intro sn wanted
    by_cases apart : turn.sn % windowSize ≠ sn % windowSize
    · exact others sn apart wanted
    · have same : (retransmitTurn tx turn).1.pdu sn = (retransmitTurn tx turn).1.pdu turn.sn := by
        rw [Tx.pdu, Tx.pdu, not_not.mp apart]
      rw [same] at wanted ⊢
      exact here wanted
  by_cases active : (tx.pdu turn.sn).ActiveAt turn.sn ∧ (tx.pdu turn.sn).retxCountNext ≤
    tx.maxRetxThreshold
  case neg =>
    obtain ⟨none, bytes, unchanged⟩ := retransmitTurn_silent active
    have threshold : (retransmitTurn tx turn).1.maxRetxThreshold = tx.maxRetxThreshold :=
      (@retransmitTurn_apart _ _ (turn.sn + 1) (by rw [windowSize]; omega)).threshold
    rw [none]
    refine ⟨slots fun wanted => ?_, fun out member => absurd member (Option.not_mem_none out),
      bytes.trans (Int.sub_zero _).symm⟩
    have same := unchanged wanted.kept
    rw [same, threshold] at wanted
    rw [same]
    exact resendable turn.sn wanted
  case pos =>
    obtain ⟨⟨flag, kept, place, sent, some⟩, below⟩ := active
    obtain ⟨mem, pieces, holes, asks, countable⟩ :=
      resendable turn.sn ⟨flag, kept, sent, some, below⟩
    have pending : Pending tx turn.sn mem pieces holes :=
      ⟨asks, place, fun _ => ⟨flag, sent, kept, below⟩⟩
    have bytes := @retransmitTurn_bytes _ ok turn
    cases holes with
    | nil =>
      have none : (tx.pdu turn.sn).retxPayloadSize = 0 := asks.retx
      omega
    | cons hole rest =>
      have wide := asks.ordered.some hole List.mem_cons_self
      rcases retransmitTurn_pending ok pending
          rfl fun room _ _ => countable.plannable wide room with
        ⟨out, left, emitted, advanced, after⟩ | ⟨none, after, -⟩
      · obtain ⟨start, count, sends, -, parted⟩ := advanced.sends
        have length := congrArg List.length parted
        rw [List.length_append, List.length_range'] at length
        have retx := asks.retx
        have size := sends.size
        rw [emitted] at bytes ⊢
        refine ⟨slots
          fun _ => ⟨mem, pieces, left, after.asks, advanced.countable countable⟩,
          fun other member => ?_,
          bytes fun other same => ?_⟩
        · cases member
          omega
        · cases same
          omega
      · rw [none] at bytes ⊢
        exact ⟨slots fun _ => ⟨mem, pieces, hole :: rest, after.asks, countable⟩, fun out member =>
          absurd member (Option.not_mem_none out), bytes fun out absent =>
            absurd absent.symm (Option.some_ne_none out)⟩

theorem turns_sends (ok : RetxOk tx) (resendable : Resendable tx) (turns : List RetxTurn) :
    (∀ sent ∈ sentTurns tx turns, 0 ≤ sent.2.payloadSize) ∧
      (afterTurns tx turns).retransNumBytesToRetransmit =
        tx.retransNumBytesToRetransmit - ((sentTurns tx turns).map
          fun sent => sent.2.payloadSize).sum ∧
      RetxOk (afterTurns tx turns) := by
  induction turns generalizing tx with
  | nil => exact ⟨fun sent none => absurd none List.not_mem_nil, (Int.sub_zero _).symm, ok⟩
  | cons turn turns ih =>
    have first := retransmitTurn_sends ok resendable turn
    obtain ⟨least, bytes, okLast⟩ := ih (retransmitTurn_ok ok turn) first.resendable
    have one := first.bytes
    have leastFirst := first.least
    rw [afterTurns, sentTurns]
    cases emitted : (retransmitTurn tx turn).2 with
    | none =>
      rw [emitted] at one
      refine ⟨least, ?_, okLast⟩
      rw [bytes, one]
      exact congrArg (· - _) (Int.sub_zero _)
    | some out =>
      rw [emitted] at one leastFirst
      refine ⟨fun sent member => ?_, ?_, okLast⟩
      · rcases List.mem_cons.mp member with rfl | later
        · exact leastFirst out rfl
        · exact least sent later
      · rw [bytes, one]
        simp only [Option.map_some, Option.toList_some, List.singleton_append,
          List.map_cons, List.sum_cons, Option.elim_some]
        omega

/-- A call for a PDU to retransmit takes off the counter what the PDU carries. -/
theorem getPduToRetransmit_sends (ok : RetxOk tx) (resendable : Resendable tx)
    (allocated : Bool) (now : Nat) :
    (∀ out ∈ (getPduToRetransmit tx allocated now).2, 0 ≤ out.payloadSize) ∧
      (getPduToRetransmit tx allocated now).1.retransNumBytesToRetransmit =
        tx.retransNumBytesToRetransmit - ((getPduToRetransmit tx allocated now).2.elim 0
          Emitted.payloadSize) ∧
      RetxOk (getPduToRetransmit tx allocated now).1 := by
  obtain ⟨turns, -, state, blocks⟩ := getPduToRetransmit_turns tx allocated now
  obtain ⟨least, bytes, okLast⟩ := turns_sends ok resendable turns
  have sum := congrArg (fun l => (l.map Emitted.payloadSize).sum) blocks
  rw [List.map_map] at sum
  rw [state] at bytes okLast
  refine ⟨fun out member => ?_, ?_, okLast⟩
  · have listed : out ∈ (sentTurns tx turns).map Prod.snd := by
      rw [blocks, Option.mem_toList]
      exact member
    obtain ⟨sent, inside, rfl⟩ := List.mem_map.mp listed
    exact least sent inside
  · rw [bytes]
    congr 1
    refine Eq.trans sum ?_
    cases (getPduToRetransmit tx allocated now).2 with
    | none => rfl
    | some out => exact Int.add_zero _

end Retransmission

section NewPdu

variable {tx : Tx}

theorem Emission.sends {after : Tx} {block mem : Memory} {tbSize : Int} {b1 : Nat} (ok : QueueOk tx)
    (emission : Emission tx after block mem tbSize b1) :
    after.sduBufferOccupancy = tx.sduBufferOccupancy - (taking tx).sum ∧
    0 ≤ after.sduBufferOccupancy := by
  obtain ⟨_, _, -, -, taken, -⟩ := after_sdus ok emission.some emission.same
  refine ⟨taken.occupancy.trans (congrArg (· - _) (reserve_linked tx).occupancy), ?_⟩
  rw [(queueStep ok emission.some emission.same emission.vtS).queue.occupancy]
  exact Int.natCast_nonneg _

def freshBytes : Option (Memory × Int) → Int
  | none => 0
  | some (mem, tbSize) => (getDataPduInfos mem (Int16.ofInt tbSize)).info.payloadSize

/-- A new PDU, or none, takes its bytes out of the SDUs. -/
structure NewSends (tx : Tx) (result : Tx × Option (Memory × Int)) : Prop where
  carried : 0 ≤ freshBytes result.2
  left : result.1.sduBufferOccupancy = tx.sduBufferOccupancy - freshBytes result.2
  least : 0 ≤ result.1.sduBufferOccupancy
  retx : result.1.retransNumBytesToRetransmit = tx.retransNumBytesToRetransmit

theorem NewSends.none (ok : QueueOk tx) : NewSends tx (tx, Option.none) where
  carried := Int.le_refl 0
  left := (Int.sub_zero _).symm
  least := by
    rw [ok.occupancy]
    exact Int.natCast_nonneg _
  retx := rfl

theorem segment10_sends (ok : QueueOk tx) (sdus : SdusOk tx) (grant : 2 < tx.nbBytesRequestedByMac)
    (occupied : tx.sduBufferOccupancy ≠ 0) {block : Memory} (clean : CleanGrant tx) (now : Nat) :
    NewSends tx (segment10 tx (some block) true now) := by
  have some : tx.queue ≠ [] := by
    rintro empty
    rw [ok.occupancy, empty] at occupied
    exact occupied rfl
  have account := segment10_account sdus grant (Option.some block) true now
  have holding := ok.holding
  obtain ⟨sdu, rest, list⟩ := List.exists_cons_of_ne_nil some
  rw [list] at holding
  have waiting := holding.waiting sdu List.mem_cons_self
  obtain ⟨after, b1, -, moved, -, result⟩ := @segment10_emits tx block true now (ok.occupied some)
    (by rw [holding.head]; exact waiting.block) (by omega)
  rw [if_pos rfl] at result
  obtain ⟨b1, emission⟩ := emission_of_segment10 ok grant result
  rw [result] at account ⊢
  have small : (taking tx).sum ≤ 32767 := by
    rw [(reserve_clean ok clean.1).2.1]
    exact clean.2
  have undone := emission.undone ok grant clean.1 small
  have size :=
    undone.payloadSize.trans
    (congrArg _ (given_sum (queueStep ok emission.some emission.same emission.vtS)))
  obtain ⟨left, least⟩ := emission.sends ok
  refine ⟨?_, left.trans (congrArg _ size.symm), least, ?_⟩
  · exact Int.le_trans (Int.natCast_nonneg _) (Int.le_of_eq size.symm)
  · rcases account with same | ⟨filled, pdu, same, -, -, -, -, stored⟩
    · exact congrArg Tx.retransNumBytesToRetransmit same
    · exact (congrArg Tx.retransNumBytesToRetransmit stored).trans same.bytes

theorem segment10_blockless (tx : Tx) (copied : Bool) (now : Nat) : segment10 tx none copied now =
    (tx, none) := by
  unfold segment10
  split
  · rfl
  · split
    · contradiction
    · rfl

theorem newDataPdu_sends (ok : QueueOk tx) (sdus : SdusOk tx) {alloc : Allocation} {now : Nat}
    (clean : 2 < tx.nbBytesRequestedByMac → tx.sduBufferOccupancy ≠ 0 → tx.vtS ≠ tx.vtMs →
      alloc.block.isSome →
      CleanGrant tx ∧ alloc.copied = true) : NewSends tx (newDataPdu tx alloc now) := by
  rw [newDataPdu]
  split
  case isFalse => exact NewSends.none ok
  case isTrue due =>
    cases block : alloc.block with
    | none =>
      rw [segment10_blockless]
      exact NewSends.none ok
    | some mem =>
      obtain ⟨clean, copied⟩ := clean due.1 due.2.1 due.2.2 (by rw [block]; rfl)
      rw [copied]
      exact segment10_sends ok sdus due.1 due.2.1 clean now

end NewPdu

section Request

variable {e : Entity} {blocks : Blocks} {now : Nat}

/-- A STATUS PDU that is due gets the size announced: the receive list is in order, the grant has
room for all of the report, and what is counted is reported. -/
structure Entity.Reportable (e : Entity) : Prop where
  vrR : e.vrR < snModulo
  vrMs : e.vrMs < snModulo
  ordered : RxOrdered e.vrR e.receiverBuffer
  marked : WholeMarked e.receiverBuffer
  room : getStatusPduBufferOccupancy e.vrR e.vrMs e.receiverBuffer ≤
    e.tx.nbBytesRequestedByMac.toNat
  accounted : OccupancyAccounted e.vrR e.vrMs e.tx.nbBytesRequestedByMac.toNat e.receiverBuffer

/-- There is no STATUS PDU to send and nothing to send again, and a new PDU can be built. -/
structure Entity.NewPduDue (e : Entity) (blocks : Blocks) (now : Nat) : Prop where
  quiet : e.statusPdu blocks = none
  again : (retransPdu e.tx blocks.toAllocation now).2 = none
  grant : 2 < e.tx.nbBytesRequestedByMac
  occupied : e.tx.sduBufferOccupancy ≠ 0
  window : e.tx.vtS ≠ e.tx.vtMs
  block : blocks.block.isSome

/-- What an entity must be like for a request to count right. -/
structure Entity.Sendable (e : Entity) (blocks : Blocks) (now : Nat) : Prop where
  retx : RetxOk e.tx
  resendable : Resendable e.tx
  queue : QueueOk e.tx
  status : 2 ≤ e.tx.nbBytesRequestedByMac → e.StatusDue → blocks.status = true → e.Reportable
  fresh : e.NewPduDue blocks now → CleanGrant e.tx ∧ blocks.copied = true

/-- What a request does: the bytes that the PDU carries leave the buffers. -/
structure Sent (before after : Entity) (pdu : Option MacPdu) : Prop where
  carried : 0 ≤ pdu.elim 0 MacPdu.carried
  least : 0 ≤ after.held
  held : after.held = before.held - pdu.elim 0 MacPdu.carried

theorem statusPdu_size (sendable : e.Sendable blocks now) {pdu : StatusPdu}
    (sent : e.statusPdu blocks = some pdu) :
    pdu.size = e.statusBufferOccupancy := by
  rw [Entity.statusPdu] at sent
  split at sent
  case isFalse => cases sent
  case isTrue due =>
    obtain ⟨vrR, vrMs, ordered, marked, room, accounted⟩ := sendable.status due.1 due.2.1 due.2.2
    obtain ⟨other, met, -, size⟩ := (occupancyMet_iff vrR vrMs ordered marked room).mpr accounted
    rw [sent] at met
    cases met
    rw [size, Entity.statusBufferOccupancy, if_pos due.2.1]

theorem statusSent_held (e : Entity) (now : Nat) :
    (startTimerStatusProhibit { e with statusRequested := 0 } now).held =
      e.tx.retransNumBytesToRetransmit + e.tx.sduBufferOccupancy := by
  unfold startTimerStatusProhibit
  have quiet (requested : Nat) (cleared : requested = 0 ∨ requested = 0 ||| statusProhibit) :
      ¬ (requested ≠ 0 ∧ requested &&& statusNoTxMask = 0) := by
    rcases cleared with rfl | rfl <;> decide
  have none {next : Entity}
    (cleared : next.statusRequested = 0 ∨ next.statusRequested = 0 ||| statusProhibit) :
      next.statusBufferOccupancy = 0 := if_neg (quiet _ cleared)
  dsimp only
  split
  · rw [Entity.held, none (.inr rfl)]
    exact congrArg (· + _) (Int.zero_add _)
  · rw [Entity.held, none (.inl rfl)]
    exact congrArg (· + _) (Int.zero_add _)

theorem retransPdu_sends (retx : RetxOk e.tx) (resendable : Resendable e.tx)
    (alloc : Allocation) (now : Nat) :
    (∀ out ∈ (retransPdu e.tx alloc now).2, 0 ≤ out.payloadSize) ∧
      (retransPdu e.tx alloc now).1.retransNumBytesToRetransmit =
        e.tx.retransNumBytesToRetransmit - (retransPdu e.tx alloc now).2.elim 0
          Emitted.payloadSize ∧
      RetxOk (retransPdu e.tx alloc now).1 ∧ SameQueue e.tx (retransPdu e.tx alloc now).1 ∧
      Acks [] e.tx (retransPdu e.tx alloc now).1 := by
  rw [retransPdu]
  split
  · obtain ⟨least, bytes, ok⟩ := getPduToRetransmit_sends retx resendable alloc.allocated now
    exact ⟨least, bytes, ok, getPduToRetransmit_sameQueue e.tx alloc.allocated now,
      getPduToRetransmit_acks e.tx alloc.allocated now⟩
  · exact ⟨fun out absent => absurd absent (Option.not_mem_none out), (Int.sub_zero _).symm, retx,
      SameQueue.refl _,
      Acks.refl _⟩

/-- A search that finds nothing keeps the grant. -/
theorem retransPdu_none {alloc : Allocation} {tx : Tx} (none : (retransPdu tx alloc now).2 = none) :
    (retransPdu tx alloc now).1.nbBytesRequestedByMac = tx.nbBytesRequestedByMac := by
  rw [retransPdu] at none ⊢
  split at none
  case isFalse idle => rw [if_neg idle]
  case isTrue due =>
    rw [if_pos due]
    unfold getPduToRetransmit at none ⊢
    split
    case isTrue => rfl
    case isFalse some =>
      rw [if_neg some] at none
      rcases searchRetransmit_polls tx.vtS alloc.allocated now snModulo tx.vtA tx
        with ⟨-, same⟩ | ⟨out, found, -⟩
      · exact same.grant
      · rw [found] at none
        cases none

theorem SameQueue.queue {before after : Tx} (same : SameQueue before after) :
    after.queue = before.queue := by
  unfold Tx.queue Tx.place
  rw [same.count, same.sdus, same.current]

theorem QueueOk.of_same {before after : Tx} (ok : QueueOk before) (same : SameQueue before after)
    (vtS : after.vtS = before.vtS) : QueueOk after where
  vtS := by
    rw [vtS]
    exact ok.vtS
  current := by
    rw [same.current]
    exact ok.current
  count := by
    rw [same.count, same.queue]
    exact ok.count
  short := by
    rw [same.queue]
    exact ok.short
  waiting := by
    rw [same.queue]
    exact ok.waiting
  occupancy := by
    rw [same.occupancy, same.queue]
    exact ok.occupancy

theorem CleanGrant.of_same {before after : Tx} (clean : CleanGrant before)
    (same : SameQueue before after)
    (grant : after.nbBytesRequestedByMac = before.nbBytesRequestedByMac) : CleanGrant after := by
  rw [CleanGrant, same.pduRoom grant, same.queue]
  exact clean

/-- A request of the MAC layer: what its PDU carries leaves the buffers. -/
theorem getPdus_sent (sendable : e.Sendable blocks now) :
    Sent e (e.getPdus blocks now).1 (e.getPdus blocks now).2 := by
  obtain ⟨retx, resendable, queue, -, fresh⟩ := id sendable
  have pending := retx.nonneg.2
  have waiting : 0 ≤ e.tx.sduBufferOccupancy := (NewSends.none queue).least
  rw [Entity.getPdus]
  cases quiet : e.statusPdu blocks with
  | some pdu =>
    have left := statusSent_held e now
    have size : (pdu.size : Int) = e.statusBufferOccupancy :=
      congrArg Nat.cast (statusPdu_size sendable quiet)
    refine ⟨Int.natCast_nonneg _, ?_, ?_⟩
    · rw [left]
      exact Int.add_nonneg pending waiting
    · rw [left, Option.elim_some, MacPdu.carried, size, Entity.held]
      omega
  | none =>
    obtain ⟨least, bytes, ok, same, acks⟩ :=
      retransPdu_sends retx resendable blocks.toAllocation now
    have kept := @retransPdu_none now blocks.toAllocation e.tx
    have new : e.NewPduDue blocks now ↔ (retransPdu e.tx blocks.toAllocation now).2 = none ∧
        2 < e.tx.nbBytesRequestedByMac ∧ e.tx.sduBufferOccupancy ≠ 0 ∧ e.tx.vtS ≠ e.tx.vtMs ∧
            blocks.block.isSome := by
      constructor
      · rintro ⟨-, again, grant, occupied, window, block⟩
        exact ⟨again, grant, occupied, window, block⟩
      · rintro ⟨again, grant, occupied, window, block⟩
        exact ⟨quiet, again, grant, occupied, window, block⟩
    rw [new] at fresh
    dsimp only
    generalize retransPdu e.tx blocks.toAllocation now = searched at *
    obtain ⟨tx, emitted⟩ := searched
    dsimp only at *
    have left := ok.nonneg.2
    cases emitted with
    | some out =>
      refine ⟨least out rfl, ?_, ?_⟩
      · exact Int.add_nonneg (Int.add_nonneg (Int.natCast_nonneg _) left) (same.occupancy ▸ waiting)
      · change e.statusBufferOccupancy + tx.retransNumBytesToRetransmit + tx.sduBufferOccupancy = _
        rw [bytes, same.occupancy, Option.elim_some, Option.elim_some, MacPdu.carried, Entity.held]
        omega
    | none =>
      have grant := kept rfl
      have sends : NewSends tx (newDataPdu tx blocks.toAllocation now) :=
        newDataPdu_sends (queue.of_same same acks.vtS) ok.sdus fun due occupied window block => by
          rw [grant] at due
          rw [same.occupancy] at occupied
          rw [acks.vtS, acks.vtMs] at window
          obtain ⟨clean, copied⟩ := fresh ⟨rfl, due, occupied, window, block⟩
          exact ⟨clean.of_same same grant, copied⟩
      dsimp only
      generalize newDataPdu tx blocks.toAllocation now = made at sends ⊢
      obtain ⟨next, pdu⟩ := made
      obtain ⟨carried, after, leastNext, still⟩ := sends
      have found : (pdu.map fun made : Memory × Int => MacPdu.fresh made.1 made.2).elim 0
          MacPdu.carried = freshBytes pdu := by
        cases pdu <;> rfl
      refine ⟨found ▸ carried, ?_, ?_⟩
      · refine Int.add_nonneg (Int.add_nonneg (Int.natCast_nonneg _) ?_) leastNext
        exact still ▸ left
      · refine Eq.trans ?_ (congrArg (e.held - ·) found.symm)
        change e.statusBufferOccupancy + next.retransNumBytesToRetransmit +
          next.sduBufferOccupancy = _
        dsimp only at after still
        rw [after, still, bytes, same.occupancy, Option.elim_none, Entity.held]
        omega

end Request

end OpenAir.Rlc.Am
