import Mathlib.Algebra.BigOperators.Group.Finset.Piecewise
import Mathlib.Algebra.Order.BigOperators.Group.Finset
import OpenAir.Rlc.Am.SegmentQueue
import OpenAir.Rlc.Am.TxWindow

/-! What is pending for retransmission, counted over the slots of the window and kept in
two counters of the entity by acknowledgements, retransmissions and the poll timer. -/
namespace OpenAir.Rlc.Am
open BitField

/-- What a slot adds to `retrans_num_pdus`. -/
def TxPdu.pendingPdus (pdu : TxPdu) : Int := if pdu.retransmit then 1 else 0

/-- What a slot adds to `retrans_num_bytes_to_retransmit`. -/
def TxPdu.pendingBytes (pdu : TxPdu) : Int := if pdu.retransmit then pdu.retxPayloadSize else 0

def Tx.overSlots (tx : Tx) (f : TxPdu → Int) : Int := ∑ i ∈ Finset.range windowSize,
    f (tx.txDataPduBuffer i)

theorem overSlots_setPdu (tx : Tx) (sn : Nat) (pdu : TxPdu) (f : TxPdu → Int) :
    (tx.setPdu sn pdu).overSlots f = tx.overSlots f + (f pdu - f (tx.pdu sn)) := by
  have inside : sn % windowSize ∈ Finset.range windowSize :=
    Finset.mem_range.mpr (Nat.mod_lt _ (by decide))
  have changed : (fun i => f ((tx.setPdu sn pdu).txDataPduBuffer i)) =
      Function.update (fun i => f (tx.txDataPduBuffer i)) (sn % windowSize) (f pdu) := by
    funext i
    by_cases here : i = sn % windowSize
    · subst here
      simp [Tx.setPdu]
    · simp [Tx.setPdu, here]
  have old := Finset.add_sum_erase _ (fun i => f (tx.txDataPduBuffer i)) inside
  rw [Tx.overSlots, changed, Finset.sum_update_of_mem inside, Finset.sdiff_singleton_eq_erase,
    Tx.overSlots, ← old, Tx.pdu]
  omega

structure RetxCounted (tx : Tx) : Prop where
  pdus : tx.retransNumPdus = tx.overSlots TxPdu.pendingPdus
  bytes : tx.retransNumBytesToRetransmit = tx.overSlots TxPdu.pendingBytes

/-- A slot whose flags agree with what it has pending. -/
structure SlotOk (pdu : TxPdu) : Prop where
  flagged : pdu.retransmit = true → pdu.memBlock.isSome ∧ pdu.ack = false ∧ 0 < pdu.retxPayloadSize
  clear : pdu.retransmit = false → pdu.retxPayloadSize = 0
  payload : pdu.memBlock.isSome → 0 < pdu.payloadSize

/-- SDUs that still have their data have bytes to send. -/
def SdusOk (tx : Tx) : Prop := ∀ i, (tx.inputSdus i).memBlock.isSome →
    0 < (tx.inputSdus i).sduRemainingSize

/-- The invariant: the counters, the slots and the SDUs that new PDUs are made from. -/
structure RetxOk (tx : Tx) : Prop where
  counted : RetxCounted tx
  slots : ∀ i, SlotOk (tx.txDataPduBuffer i)
  sdus : SdusOk tx

theorem RetxOk.pdu {tx : Tx} (ok : RetxOk tx) (sn : Nat) : SlotOk (tx.pdu sn) := ok.slots _

/-- A slot is stored and the counters are moved by what changes in it. -/
theorem RetxOk.store {tx tx' : Tx} (ok : RetxOk tx) {sn : Nat} {pdu : TxPdu}
    (slots : tx'.txDataPduBuffer = tx.txDataPduBuffer) (sdus : tx'.inputSdus = tx.inputSdus)
    (slot : SlotOk pdu)
    (pdus : tx'.retransNumPdus = tx.retransNumPdus + (pdu.pendingPdus - (tx.pdu sn).pendingPdus))
    (bytes : tx'.retransNumBytesToRetransmit =
      tx.retransNumBytesToRetransmit + (pdu.pendingBytes - (tx.pdu sn).pendingBytes)) :
    RetxOk (tx'.setPdu sn pdu) := by
  have same (f : TxPdu → Int) : tx'.overSlots f = tx.overSlots f := by
    rw [Tx.overSlots, slots, Tx.overSlots]
  have here : tx'.pdu sn = tx.pdu sn := by rw [Tx.pdu, slots, Tx.pdu]
  refine ⟨⟨?_, ?_⟩, ?_, ?_⟩
  · rw [overSlots_setPdu, same, here, ← ok.counted.pdus]
    exact pdus
  · rw [overSlots_setPdu, same, here, ← ok.counted.bytes]
    exact bytes
  · intro i
    by_cases stored : i = sn % windowSize
    · subst stored
      simpa [Tx.setPdu] using slot
    · simpa [Tx.setPdu, stored, slots] using ok.slots i
  · intro i
    show (tx'.inputSdus i).memBlock.isSome → 0 < (tx'.inputSdus i).sduRemainingSize
    rw [sdus]
    exact ok.sdus i

structure SameRetx (before after : Tx) : Prop where
  pdus : after.retransNumPdus = before.retransNumPdus
  bytes : after.retransNumBytesToRetransmit = before.retransNumBytesToRetransmit
  slots : after.txDataPduBuffer = before.txDataPduBuffer

theorem RetxOk.of_same {tx tx' : Tx} (ok : RetxOk tx) (same : SameRetx tx tx') (sdus : SdusOk tx') :
    RetxOk tx' := by
  refine ⟨⟨?_, ?_⟩, ?_, sdus⟩
  · rw [same.pdus, ok.counted.pdus, Tx.overSlots, Tx.overSlots, same.slots]
  · rw [same.bytes, ok.counted.bytes, Tx.overSlots, Tx.overSlots, same.slots]
  · rw [same.slots]
    exact ok.slots

/-- A slot that keeps what the account reads of it. -/
structure SameAccount (before after : TxPdu) : Prop where
  memBlock : after.memBlock = before.memBlock
  ack : after.ack = before.ack
  retransmit : after.retransmit = before.retransmit
  retxPayloadSize : after.retxPayloadSize = before.retxPayloadSize
  payloadSize : after.payloadSize = before.payloadSize

theorem SameAccount.slot {before after : TxPdu} (same : SameAccount before after)
    (ok : SlotOk before) : SlotOk after := by
  refine ⟨fun flagged => ?_, fun clear => ?_, fun block => ?_⟩
  · rw [same.memBlock, same.ack, same.retxPayloadSize]
    exact ok.flagged (same.retransmit ▸ flagged)
  · rw [same.retxPayloadSize]
    exact ok.clear (same.retransmit ▸ clear)
  · rw [same.payloadSize]
    exact ok.payload (same.memBlock ▸ block)

theorem RetxOk.keep {tx : Tx} (ok : RetxOk tx) {sn : Nat} {pdu : TxPdu}
    (same : SameAccount (tx.pdu sn) pdu) :
    RetxOk (tx.setPdu sn pdu) := by
  refine ok.store rfl rfl (same.slot (ok.pdu sn)) ?_ ?_
  · rw [TxPdu.pendingPdus, TxPdu.pendingPdus, same.retransmit, Int.sub_self, Int.add_zero]
  · rw [TxPdu.pendingBytes, TxPdu.pendingBytes, same.retransmit, same.retxPayloadSize,
      Int.sub_self, Int.add_zero]

section Acknowledge

variable {tx : Tx}

theorem slotOk_idle {pdu : TxPdu} (clear : pdu.retransmit = false) (none : pdu.retxPayloadSize = 0)
    (payload : pdu.memBlock.isSome → 0 < pdu.payloadSize) : SlotOk pdu :=
  ⟨fun flagged => absurd flagged (by rw [clear]; decide), fun _ => none, payload⟩

theorem RetxOk.store_idle (ok : RetxOk tx) {sn : Nat} {pdu : TxPdu}
    (before : (tx.pdu sn).retransmit = false)
    (clear : pdu.retransmit = false) (none : pdu.retxPayloadSize = 0)
    (payload : pdu.memBlock.isSome → 0 < pdu.payloadSize) : RetxOk (tx.setPdu sn pdu) := by
  refine ok.store rfl rfl (slotOk_idle clear none payload) ?_ ?_
  · simp [TxPdu.pendingPdus, before, clear]
  · simp [TxPdu.pendingBytes, before, clear]

theorem RetxOk.store_done (ok : RetxOk tx) {sn : Nat} {pdu : TxPdu}
    (before : (tx.pdu sn).retransmit = true)
    (clear : pdu.retransmit = false) (none : pdu.retxPayloadSize = 0)
    (payload : pdu.memBlock.isSome → 0 < pdu.payloadSize) :
    RetxOk ({ tx with
      retransNumBytesToRetransmit := tx.retransNumBytesToRetransmit - (tx.pdu sn).retxPayloadSize
      retransNumPdus := tx.retransNumPdus - 1 }.setPdu sn pdu) := by
  refine ok.store rfl rfl (slotOk_idle clear none payload) ?_ ?_
  · simp only [TxPdu.pendingPdus, before, clear, Bool.false_eq_true, if_false, if_true]
    omega
  · simp only [TxPdu.pendingBytes, before, clear, Bool.false_eq_true, if_false, if_true]
    omega

theorem ackPdu_ok (ok : RetxOk tx) (sn : Nat) (freePdu : Bool) : RetxOk (ackPdu tx sn freePdu) := by
  have slot := ok.pdu sn
  have block (given : Option Memory) (kept : given.isSome → (tx.pdu sn).memBlock.isSome) :
      given.isSome → 0 < (tx.pdu sn).payloadSize := fun some => slot.payload (kept some)
  unfold ackPdu
  simp only
  by_cases present : (tx.pdu sn).memBlock.isSome = true
  · rw [if_pos present]
    by_cases pending : (tx.pdu sn).retransmit = true
    · -- what is pending has not been acknowledged, so it is taken off
      obtain ⟨-, unmarked, some⟩ := slot.flagged pending
      have left : (tx.pdu sn).retxPayloadSize ≠ 0 := by omega
      cases freePdu with
      | true =>
        simp only [if_true, if_pos left, unmarked, Bool.false_eq_true, if_false]
        exact ok.store_done pending rfl rfl nofun
      | false =>
        simp only [Bool.false_eq_true, if_false, if_pos left, unmarked]
        exact ok.store_done pending rfl rfl slot.payload
    · have clear : (tx.pdu sn).retransmit = false := by simpa using pending
      have none := slot.clear clear
      cases freePdu with
      | true =>
        simp only [if_true, none, ne_eq, not_true_eq_false, if_false]
        exact ok.store_idle clear rfl rfl nofun
      | false =>
        simp only [Bool.false_eq_true, if_false, none, ne_eq, not_true_eq_false]
        exact ok.store_idle clear rfl rfl slot.payload
  · have clear : (tx.pdu sn).retransmit = false := by
      by_contra pending
      exact present (slot.flagged (by simpa using pending)).1
    rw [if_neg present]
    exact ok.store_idle clear rfl (slot.clear clear) slot.payload

/-- A byte range, not a whole PDU, is missing. -/
def byteRange (soStart soEnd : Int) : Prop := ¬ (soStart = 0 ∧ soEnd = 0x7FFF)

/-- A NACK keeps the account of the slot, and what it accepts has bytes; a whole PDU is
asked for again only when it is not acknowledged. -/
theorem nackRequest_account (pdu : TxPdu) (sn prevNackSn : Nat) (soStart soEnd : Int) :
    SameAccount pdu (nackRequest pdu sn prevNackSn soStart soEnd).2.pdu ∧
    ((nackRequest pdu sn prevNackSn soStart soEnd).1 = true →
      0 < (nackRequest pdu sn prevNackSn soStart soEnd).2.pduDataToRetx ∧
      (byteRange soStart soEnd ∨ pdu.ack = false)) := by
  unfold nackRequest
  by_cases crossed : soStart > soEnd
  · rw [if_pos crossed]
    exact ⟨⟨rfl, rfl, rfl, rfl, rfl⟩, nofun⟩
  · rw [if_neg crossed]
    by_cases whole : soStart = 0 ∧ soEnd = 0x7FFF
    · rw [if_pos whole]
      split
      · rename_i asked
        refine ⟨⟨rfl, rfl, rfl, rfl, rfl⟩, fun accepted => ⟨?_, Or.inr asked.2.1⟩⟩
        simpa using accepted
      · exact ⟨⟨rfl, rfl, rfl, rfl, rfl⟩, nofun⟩
    · rw [if_neg whole]
      generalize (if soEnd = 0x7FFF then pdu.payloadSize - 1 else soEnd) = stop
      simp only
      split
      · split
        · rename_i inside
          split
          · exact ⟨⟨rfl, rfl, rfl, rfl, rfl⟩, fun _ => ⟨by simp only; omega, Or.inl whole⟩⟩
          · split
            · split
              · exact ⟨⟨rfl, rfl, rfl, rfl, rfl⟩, fun _ => ⟨by simp only; omega, Or.inl whole⟩⟩
              · exact ⟨⟨rfl, rfl, rfl, rfl, rfl⟩, nofun⟩
            · exact ⟨⟨rfl, rfl, rfl, rfl, rfl⟩, nofun⟩
        · exact ⟨⟨rfl, rfl, rfl, rfl, rfl⟩, nofun⟩
      · exact ⟨⟨rfl, rfl, rfl, rfl, rfl⟩, nofun⟩

theorem RetxOk.store_asked (ok : RetxOk tx) {sn prevNackSn : Nat} {pdu : TxPdu} {data : Int}
    (same : SameAccount (tx.pdu sn) pdu) (present : (tx.pdu sn).memBlock.isSome = true)
    (unmarked : (tx.pdu sn).ack = false) (some : 0 < data) :
    RetxOk (if pdu.retransmit then
        if prevNackSn ≠ sn then
          (true, { tx with
            retransNumBytesToRetransmit :=
  tx.retransNumBytesToRetransmit + (data - pdu.retxPayloadSize) }.setPdu sn
            { pdu with retxPayloadSize := data })
        else if pdu.numHoles > 1 then
          (true, { tx with
            retransNumBytesToRetransmit := tx.retransNumBytesToRetransmit + data }.setPdu sn
            { pdu with retxPayloadSize := pdu.retxPayloadSize + data })
        else
          (true, tx.setPdu sn pdu)
      else
        (true, { tx with
          retransNumBytesToRetransmit := tx.retransNumBytesToRetransmit + data
          retransNumPdus := tx.retransNumPdus + 1 }.setPdu sn
          { pdu with retransmit := true, retxPayloadSize := data }) : Bool × Tx).2 := by
  have slot := ok.pdu sn
  have block : pdu.memBlock.isSome := same.memBlock ▸ present
  have mark : pdu.ack = false := same.ack.trans unmarked
  have payload : pdu.memBlock.isSome → 0 < pdu.payloadSize := (same.slot slot).payload
  -- a slot flagged with some bytes
  have asked {after : TxPdu} (bytes : 0 < after.retxPayloadSize) (flag : after.retransmit = true)
      (blockSame : after.memBlock = pdu.memBlock) (markSame : after.ack = pdu.ack)
      (size : after.payloadSize = pdu.payloadSize) : SlotOk after := by
    refine ⟨fun _ => ⟨blockSame ▸ block, markSame.trans mark, bytes⟩,
      fun clear => ?_, fun there => ?_⟩
    · rw [flag] at clear
      cases clear
    · rw [size]
      exact payload (blockSame ▸ there)
  by_cases pending : pdu.retransmit = true
  · have before : (tx.pdu sn).retransmit = true := same.retransmit ▸ pending
    have had := (slot.flagged before).2.2
    rw [if_pos pending]
    split
    · refine ok.store rfl rfl (asked some pending rfl rfl rfl) ?_ ?_
      · simp [TxPdu.pendingPdus, before, pending]
      · simp [TxPdu.pendingBytes, before, pending, same.retxPayloadSize]
    · split
      · refine ok.store rfl rfl (asked ?_ pending rfl rfl rfl) ?_ ?_
        · simp only [same.retxPayloadSize]
          omega
        · simp [TxPdu.pendingPdus, before, pending]
        · simp only [TxPdu.pendingBytes, before, pending, same.retxPayloadSize, if_true]
          omega
      · exact ok.keep same
  · have clear : (tx.pdu sn).retransmit = false := by
      rw [← same.retransmit]
      simpa using pending
    rw [if_neg pending]
    refine ok.store rfl rfl (asked some rfl rfl rfl rfl) ?_ ?_
    · simp [TxPdu.pendingPdus, clear]
    · simp [TxPdu.pendingBytes, clear]

/-- A NACK for a PDU that is not acknowledged keeps the account. -/
theorem nackPdu_ok (ok : RetxOk tx) (sn prevNackSn : Nat) (soStart soEnd : Int)
    (fresh : byteRange soStart soEnd → (tx.pdu sn).ack = false) :
    RetxOk (nackPdu tx sn prevNackSn soStart soEnd).2 := by
  obtain ⟨same, accepted⟩ := nackRequest_account (tx.pdu sn) sn prevNackSn soStart soEnd
  have slot := ok.pdu sn
  unfold nackPdu
  by_cases present : (tx.pdu sn).memBlock.isSome = true
  · rw [if_pos present]
    generalize nackRequest (tx.pdu sn) sn prevNackSn soStart soEnd = asked at same accepted
    obtain ⟨status, request⟩ := asked
    cases status with
    | false => exact ok.keep same
    | true =>
      obtain ⟨bytes, kind⟩ := accepted rfl
      have unmarked : (tx.pdu sn).ack = false := kind.elim fresh id
      simp only [if_true]
      generalize counted :
        (if request.retxCountIncrement = true ∧ { request.pdu with nack := true }.retxCount =
        { request.pdu with nack := true }.retxCountNext then
            { { request.pdu with nack := true } with
          retxCountNext := { request.pdu with nack := true }.retxCountNext + 1 }
        else { request.pdu with nack := true }) = pdu
      have kept : SameAccount (tx.pdu sn) pdu := by
        rw [← counted]
        split <;> exact ⟨same.memBlock, same.ack, same.retransmit, same.retxPayloadSize,
          same.payloadSize⟩
      exact ok.store_asked kept present unmarked bytes
  · rw [if_neg present]
    exact ok

end Acknowledge

section Retransmit

variable {tx : Tx}

theorem SameAccount.refl (pdu : TxPdu) : SameAccount pdu pdu := ⟨rfl, rfl, rfl, rfl, rfl⟩

theorem updateHoles_account (pdu : TxPdu) (payloadSize : Int) :
    SameAccount pdu (updateHoles pdu payloadSize) := by
  unfold updateHoles
  simp only
  repeat' split
  all_goals exact ⟨rfl, rfl, rfl, rfl, rfl⟩

theorem planSegment_account (pdu : TxPdu) (mem : Memory) (nbBytes : Int) :
    SameAccount pdu (planSegment pdu mem nbBytes).1 := by
  unfold planSegment
  simp only
  repeat' split
  all_goals exact ⟨rfl, rfl, rfl, rfl, rfl⟩

theorem retransmitGetAmSegment_account (pdu : TxPdu) (nbBytes : Int) (allocated : Bool) :
    SameAccount pdu (retransmitGetAmSegment pdu nbBytes allocated).1 := by
  unfold retransmitGetAmSegment
  cases block : pdu.memBlock with
  | none => exact SameAccount.refl pdu
  | some mem =>
    have planned := planSegment_account pdu mem nbBytes
    simp only
    split
    · exact SameAccount.refl pdu
    · generalize planSegment pdu mem nbBytes = plan at planned
      obtain ⟨slot, segment⟩ := plan
      cases segment with
      | none => exact planned
      | some segment =>
        cases allocated with
        | false => exact planned
        | true =>
          have updated := updateHoles_account slot segment.payloadSize
          exact ⟨updated.memBlock.trans planned.memBlock, updated.ack.trans planned.ack,
            updated.retransmit.trans planned.retransmit,
              updated.retxPayloadSize.trans planned.retxPayloadSize,
            updated.payloadSize.trans planned.payloadSize⟩

theorem hitMaxRetx_ok (ok : RetxOk tx) (sn : Nat) : RetxOk (hitMaxRetx tx sn) :=
  ok.keep ⟨rfl, rfl, rfl, rfl, rfl⟩

theorem retransmitWhole_ok (ok : RetxOk tx) (sn : Nat) (allocated : Bool)
    (pending : (tx.pdu sn).retransmit = true) :
    RetxOk (retransmitWhole tx sn allocated).1 := by
  unfold retransmitWhole
  simp only
  split
  · split
    · exact ok.store_done pending rfl rfl (ok.pdu sn).payload
    · exact ok
  · exact hitMaxRetx_ok ok sn

theorem retransmitSegment_ok (ok : RetxOk tx) (sn : Nat) (allocated : Bool)
    (pending : (tx.pdu sn).retransmit = true) :
    RetxOk (retransmitSegment tx sn allocated).1 := by
  have same := retransmitGetAmSegment_account (tx.pdu sn) tx.nbBytesRequestedByMac allocated
  unfold retransmitSegment
  split
  · generalize retransmitGetAmSegment (tx.pdu sn) tx.nbBytesRequestedByMac allocated =
      segment at same
    obtain ⟨pdu, emitted⟩ := segment
    cases emitted with
    | none => exact ok.keep same
    | some out =>
      have same : SameAccount (tx.pdu sn) pdu := same
      have slot := same.slot (ok.pdu sn)
      have flag : pdu.retransmit = true := same.retransmit.trans pending
      simp only
      split
      · exact ok.keep same
      · rename_i enough
        split
        · rename_i finished
          refine ok.store rfl rfl (slotOk_idle rfl rfl slot.payload) ?_ ?_
          · simp only [TxPdu.pendingPdus, pending, Bool.false_eq_true, if_false, if_true]
            omega
          · simp only [TxPdu.pendingBytes, pending, Bool.false_eq_true, if_false, if_true]
            rw [same.retxPayloadSize] at finished
            omega
        · rename_i more
          obtain ⟨block, mark, -⟩ := slot.flagged flag
          refine ok.store rfl rfl ⟨fun _ => ⟨block, mark, ?_⟩, fun clear => ?_, slot.payload⟩ ?_ ?_
          · simp only
            omega
          · rw [flag] at clear
            cases clear
          · simp only [TxPdu.pendingPdus, pending, flag, if_true]
            omega
          · simp only [TxPdu.pendingBytes, pending, flag, if_true, same.retxPayloadSize]
            omega
  · exact hitMaxRetx_ok ok sn

theorem retransmitAt_ok (ok : RetxOk tx) (sn : Nat) (allocated : Bool) :
    RetxOk (retransmitAt tx sn allocated).1 := by
  unfold retransmitAt
  simp only
  split
  · rename_i asked
    split
    · exact retransmitWhole_ok ok sn allocated asked.1
    · split
      · exact retransmitSegment_ok ok sn allocated asked.1
      · exact ok
  · exact ok

theorem pduPolling_sameRetx (tx : Tx) (b1 : Nat) (payloadSize : Int) (isNewPdu : Bool) (now : Nat) :
    SameRetx tx (pduPolling tx b1 payloadSize isNewPdu now).1 ∧
    (pduPolling tx b1 payloadSize isNewPdu now).1.inputSdus = tx.inputSdus := by
  unfold pduPolling
  simp only
  repeat' split
  all_goals exact ⟨⟨rfl, rfl, rfl⟩, rfl⟩

theorem searchRetransmit_ok (ok : RetxOk tx) (snEnd : Nat) (allocated : Bool)
    (now rounds sn : Nat) :
    RetxOk (searchRetransmit snEnd allocated now rounds sn tx).1 := by
  induction rounds generalizing sn tx with
  | zero => exact ok
  | succ rounds ih =>
    have here := retransmitAt_ok ok sn allocated
    rw [searchRetransmit]
    generalize retransmitAt tx sn allocated = tried at here
    obtain ⟨next, emitted⟩ := tried
    cases emitted with
    | none =>
      simp only
      split
      · exact ih here (nextSn sn)
      · exact here
    | some out =>
      obtain ⟨same, sdus⟩ :=
        pduPolling_sameRetx next (out.mem 0).toNat (next.pdu sn).payloadSize false now
      have polled := here.of_same same (by rw [SdusOk, sdus]; exact here.sdus)
      exact polled.keep ⟨rfl, rfl, rfl, rfl, rfl⟩

theorem getPduToRetransmit_ok (ok : RetxOk tx) (allocated : Bool) (now : Nat) :
    RetxOk (getPduToRetransmit tx allocated now).1 := by
  unfold getPduToRetransmit
  split
  · exact ok
  · exact searchRetransmit_ok ok tx.vtS allocated now snModulo tx.vtA

end Retransmit

section PollTimer

/-- The PDU that the poll timer asks for again, looked for among the slots `pdu`: the
youngest one that is neither acknowledged nor given up. -/
def forceTarget (pdu : Nat → TxPdu) (snEnd : Nat) : Nat → Nat → Option Nat
  | 0, _ => none
  | rounds + 1, sn =>
    if sn = snEnd then
      none
    else if (pdu sn).memBlock.isSome ∧ (pdu sn).ack = false ∧ (pdu sn).maxRetransmit = false then
      some sn
    else
      forceTarget pdu snEnd rounds (prevSn sn)

theorem forceRetransmit_ok {tx : Tx} (ok : RetxOk tx) (snEnd rounds sn : Nat)
    (fresh : ∀ target, forceTarget tx.pdu snEnd rounds sn = some target →
      (tx.pdu target).retransmit = false) :
    RetxOk (forceRetransmit snEnd rounds sn tx) := by
  induction rounds generalizing sn with
  | zero => exact ok
  | succ rounds ih =>
    rw [forceRetransmit]
    rw [forceTarget] at fresh
    split
    · exact ok
    · rename_i away
      rw [if_neg away] at fresh
      simp only
      split
      · rename_i chosen
        rw [if_pos chosen] at fresh
        have clear := fresh sn rfl
        have some := (ok.pdu sn).payload chosen.1
        refine ok.store
          rfl rfl ⟨fun _ => ⟨chosen.1, chosen.2.1, some⟩, Bool.noConfusion, fun _ => some⟩ ?_ ?_
        · simp [TxPdu.pendingPdus, clear]
        · simp [TxPdu.pendingBytes, clear]
      · rename_i passed
        rw [if_neg passed] at fresh
        exact ih _ fresh

theorem RetxOk.pendingBytes_least {tx : Tx} (ok : RetxOk tx)
    (i : Nat) : 0 ≤ (tx.txDataPduBuffer i).pendingBytes := by
  rw [TxPdu.pendingBytes]
  split
  · exact Int.le_of_lt ((ok.slots i).flagged ‹_›).2.2
  · exact Int.le_refl 0

theorem RetxOk.nonneg {tx : Tx} (ok : RetxOk tx) : 0 ≤ tx.retransNumPdus ∧
    0 ≤ tx.retransNumBytesToRetransmit := by
  rw [ok.counted.pdus, ok.counted.bytes]
  constructor
  · refine Finset.sum_nonneg fun i _ => ?_
    rw [TxPdu.pendingPdus]
    split <;> decide
  · exact Finset.sum_nonneg fun i _ => ok.pendingBytes_least i

/-- Without bytes to send again, no slot is flagged. -/
theorem RetxOk.idle {tx : Tx} (ok : RetxOk tx)
    (none : tx.retransNumBytesToRetransmit = 0) (sn : Nat) :
    (tx.pdu sn).retransmit = false := by
  by_contra pending
  have flag : (tx.pdu sn).retransmit = true := by simpa using pending
  rw [ok.counted.bytes, Tx.overSlots, Finset.sum_eq_zero_iff_of_nonneg
    fun i _ => ok.pendingBytes_least i] at none
  have here := none (sn % windowSize) (Finset.mem_range.mpr (Nat.mod_lt _ (by decide)))
  have some := ((ok.pdu sn).flagged flag).2.2
  have taken : (tx.pdu sn).pendingBytes = 0 := here
  rw [TxPdu.pendingBytes, if_pos flag] at taken
  omega

/-- The poll timer finds a PDU that is not pending: always when nothing is to be sent
again, and otherwise when the window is stalled on such a PDU. -/
def PollFresh (tx : Tx) (now : Nat) : Prop :=
  tx.tPollRetransmit.expired now = true → tx.vtS = tx.vtMs →
    ∀ target, forceTarget tx.pdu (prevSn tx.vtA) snModulo (prevSn tx.vtS) = some target →
      (tx.pdu target).retransmit = false

theorem checkTimerPollRetransmit_ok {tx : Tx} (ok : RetxOk tx) {now : Nat}
    (fresh : PollFresh tx now) :
    RetxOk (checkTimerPollRetransmit tx now) := by
  unfold checkTimerPollRetransmit
  split
  · rename_i expired
    have started : RetxOk { tx with tPollRetransmit :=
        { tx.tPollRetransmit with running := false, timedOut := true } } :=
          ok.of_same ⟨rfl, rfl, rfl⟩ ok.sdus
    have polling {after : Tx} (okAfter : RetxOk after) : RetxOk { after with forcePoll := true } :=
      okAfter.of_same ⟨rfl, rfl, rfl⟩ okAfter.sdus
    simp only
    split
    · rename_i reason
      have forced (after : Tx) (okAfter : RetxOk after) (same : after.pdu = tx.pdu) :
          RetxOk (forceRetransmit (prevSn tx.vtA) snModulo (prevSn tx.vtS) after) := by
        refine forceRetransmit_ok okAfter _ _ _ fun target found => ?_
        rw [same] at found ⊢
        rcases reason with empty | stalled
        · exact ok.idle empty.2 target
        · exact fresh expired stalled target found
      exact polling (forced _ started rfl)
    · exact polling started
  · exact ok

end PollTimer

end OpenAir.Rlc.Am
