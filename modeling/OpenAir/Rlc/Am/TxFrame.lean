import OpenAir.Rlc.Am.StatusSafety
import OpenAir.Rlc.Am.Retransmit

/-! What the transmitting operations leave alone: a retransmission keeps the SN, the mark
and the block of every slot, and a new PDU is written to the slot of VT(S) only. -/
namespace OpenAir.Rlc.Am
open BitField

theorem SameWindow.acks {before after : Tx} (same : SameWindow before after) :
    Acks [] before after where
  vtA := same.vtA
  vtS := same.vtS
  vtMs := same.vtMs
  sn i := by rw [same.slots]
  marked := by simp
  kept i _ := by simp [same.slots]
  gone i none := by rw [same.slots]; exact none

theorem dataReq_sameWindow (tx : Tx) (bytes : Memory) (size mui : Nat) :
    SameWindow tx (dataReq tx bytes size mui) := by
  unfold dataReq
  simp only
  split
  · exact ⟨rfl, rfl, rfl, rfl⟩
  · exact SameWindow.refl tx

theorem pduPolling_sameWindow (tx : Tx) (b1 : Nat) (payloadSize : Int)
    (isNewPdu : Bool) (now : Nat) :
    SameWindow tx (pduPolling tx b1 payloadSize isNewPdu now).1 := by
  unfold pduPolling
  simp only
  repeat' split
  all_goals exact ⟨rfl, rfl, rfl, rfl⟩

section Slot

structure SameSlot (before after : TxPdu) : Prop where
  sn : after.sn = before.sn
  ack : after.ack = before.ack
  memBlock : after.memBlock = before.memBlock

theorem updateHoles_sameSlot (pdu : TxPdu) (payloadSize : Int) :
    SameSlot pdu (updateHoles pdu payloadSize) := by
  unfold updateHoles
  simp only
  repeat' split
  all_goals exact ⟨rfl, rfl, rfl⟩

theorem planSegment_sameSlot (pdu : TxPdu) (mem : Memory) (nbBytes : Int) :
    SameSlot pdu (planSegment pdu mem nbBytes).1 := by
  unfold planSegment
  simp only
  repeat' split
  all_goals exact ⟨rfl, rfl, rfl⟩

theorem retransmitGetAmSegment_sameSlot (pdu : TxPdu) (nbBytes : Int) (allocated : Bool) :
    SameSlot pdu (retransmitGetAmSegment pdu nbBytes allocated).1 := by
  unfold retransmitGetAmSegment
  cases block : pdu.memBlock with
  | none => exact ⟨rfl, rfl, rfl⟩
  | some mem =>
    have planned := planSegment_sameSlot pdu mem nbBytes
    simp only
    split
    · exact ⟨rfl, rfl, rfl⟩
    · cases plan : planSegment pdu mem nbBytes with
      | mk slot segment =>
        rw [plan] at planned
        cases segment with
        | none => exact planned
        | some segment =>
          have updated := updateHoles_sameSlot slot segment.payloadSize
          cases allocated with
          | false => exact planned
          | true => exact ⟨updated.sn.trans planned.sn, updated.ack.trans planned.ack,
              updated.memBlock.trans planned.memBlock⟩

end Slot

theorem Acks.of_sameSlot {tx tx' : Tx} {sn : Nat} {pdu : TxPdu} (vtA : tx'.vtA = tx.vtA)
    (vtS : tx'.vtS = tx.vtS) (vtMs : tx'.vtMs = tx.vtMs)
    (slots : tx'.txDataPduBuffer = tx.txDataPduBuffer)
    (same : SameSlot (tx.pdu sn) pdu) : Acks [] tx (tx'.setPdu sn pdu) :=
  Acks.of_keep vtA vtS vtMs slots same.sn same.ack same.memBlock

theorem hitMaxRetx_acks (tx : Tx) (sn : Nat) : Acks [] tx (hitMaxRetx tx sn) :=
  Acks.of_sameSlot rfl rfl rfl rfl ⟨rfl, rfl, rfl⟩

theorem retransmitWhole_acks (tx : Tx) (sn : Nat) (allocated : Bool) :
    Acks [] tx (retransmitWhole tx sn allocated).1 := by
  unfold retransmitWhole
  simp only
  split
  · split
    · exact Acks.of_sameSlot rfl rfl rfl rfl ⟨rfl, rfl, rfl⟩
    · exact Acks.refl tx
  · exact hitMaxRetx_acks tx sn

theorem retransmitSegment_acks (tx : Tx) (sn : Nat) (allocated : Bool) :
    Acks [] tx (retransmitSegment tx sn allocated).1 := by
  have same := retransmitGetAmSegment_sameSlot (tx.pdu sn) tx.nbBytesRequestedByMac allocated
  unfold retransmitSegment
  split
  · cases segment : retransmitGetAmSegment (tx.pdu sn) tx.nbBytesRequestedByMac allocated with
    | mk pdu emitted =>
      rw [segment] at same
      cases emitted with
      | none => exact Acks.of_sameSlot rfl rfl rfl rfl same
      | some out =>
        simp only
        repeat' split
        all_goals exact Acks.of_sameSlot rfl rfl rfl rfl ⟨same.sn, same.ack, same.memBlock⟩
  · exact hitMaxRetx_acks tx sn

theorem retransmitAt_acks (tx : Tx) (sn : Nat) (allocated : Bool) :
    Acks [] tx (retransmitAt tx sn allocated).1 := by
  unfold retransmitAt
  simp only
  split
  · split
    · exact retransmitWhole_acks tx sn allocated
    · split
      · exact retransmitSegment_acks tx sn allocated
      · exact Acks.refl tx
  · exact Acks.refl tx

theorem searchRetransmit_acks (snEnd : Nat) (allocated : Bool) (now rounds sn : Nat) (tx : Tx) :
    Acks [] tx (searchRetransmit snEnd allocated now rounds sn tx).1 := by
  induction rounds generalizing sn tx with
  | zero => exact Acks.refl tx
  | succ rounds ih =>
    have here := retransmitAt_acks tx sn allocated
    rw [searchRetransmit]
    cases tried : retransmitAt tx sn allocated with
    | mk next emitted =>
      rw [tried] at here
      cases emitted with
      | none =>
        simp only
        split
        · exact here.trans (ih (nextSn sn) next)
        · exact here
      | some out =>
        have polled :=
          (pduPolling_sameWindow next (out.mem 0).toNat (next.pdu sn).payloadSize false now).acks
        exact (here.trans polled).trans (Acks.of_sameSlot rfl rfl rfl rfl ⟨rfl, rfl, rfl⟩)

theorem getPduToRetransmit_acks (tx : Tx) (allocated : Bool) (now : Nat) :
    Acks [] tx (getPduToRetransmit tx allocated now).1 := by
  unfold getPduToRetransmit
  split
  · exact Acks.refl tx
  · exact searchRetransmit_acks tx.vtS allocated now snModulo tx.vtA tx

theorem forceRetransmit_acks (snEnd rounds sn : Nat) (tx : Tx) :
    Acks [] tx (forceRetransmit snEnd rounds sn tx) := by
  induction rounds generalizing sn tx with
  | zero => exact Acks.refl tx
  | succ rounds ih =>
    rw [forceRetransmit]
    split
    · exact Acks.refl tx
    · simp only
      split
      · exact Acks.of_sameSlot rfl rfl rfl rfl ⟨rfl, rfl, rfl⟩
      · exact ih (prevSn sn) tx

theorem checkTimerPollRetransmit_acks (tx : Tx) (now : Nat) :
    Acks [] tx (checkTimerPollRetransmit tx now) := by
  unfold checkTimerPollRetransmit
  split
  · have expired : Acks [] tx { tx with tPollRetransmit :=
        { tx.tPollRetransmit with running := false, timedOut := true } } :=
          SameWindow.acks ⟨rfl, rfl, rfl, rfl⟩
    have polling {after : Tx} (acks : Acks [] tx after) :
        Acks [] tx { after with forcePoll := true } :=
      acks.trans (SameWindow.acks ⟨rfl, rfl, rfl, rfl⟩)
    apply polling
    split
    · exact expired.trans (forceRetransmit_acks _ _ _ _)
    · exact expired
  · exact Acks.refl tx

section Segmentation

theorem link_sameWindow (s : FirstPass) : SameWindow s.tx s.link.tx := ⟨rfl, rfl, rfl, rfl⟩

theorem fit_tx (s : FirstPass) (remaining : Nat) : (s.fit remaining).tx = s.tx := by
  unfold FirstPass.fit
  simp only
  repeat' split
  all_goals rfl

theorem firstPass_sameWindow {tx : Tx} (rounds : Nat) (s : FirstPass) (start : SameWindow tx s.tx) :
    SameWindow tx (firstPass rounds s).tx := by
  induction rounds generalizing s with
  | zero => exact start
  | succ rounds ih =>
    have linked := link_sameWindow (s.fit (s.tx.inputSdus s.sduBufferIndex).sduRemainingSize)
    rw [fit_tx] at linked
    rw [firstPass]
    simp only
    split
    · split
      · exact start.trans linked
      · exact ih _ (start.trans linked)
    · exact start

theorem fit_pdu (s : FirstPass) (remaining : Nat) : (s.fit remaining).pdu = s.pdu := by
  unfold FirstPass.fit
  simp only
  repeat' split
  all_goals rfl

theorem firstPass_ack (rounds : Nat) (s : FirstPass) : (firstPass rounds s).pdu.ack =
    s.pdu.ack := by
  induction rounds generalizing s with
  | zero => rfl
  | succ rounds ih =>
    rw [firstPass]
    simp only
    split
    · split
      · simp only [FirstPass.link, fit_pdu]
      · rw [ih]
        simp only [FirstPass.link, fit_pdu]
    · rfl

theorem freeInSduData_sameWindow (tx : Tx) (index : Nat) :
    SameWindow tx (freeInSduData tx index) := by
  unfold freeInSduData
  split <;> exact ⟨rfl, rfl, rfl, rfl⟩

theorem copy_sameWindow (s : SecondPass) (bytes : Memory) (size : Nat) :
    SameWindow s.tx (s.copy bytes size).tx := ⟨rfl, rfl, rfl, rfl⟩

theorem finishSdu_sameWindow (s : SecondPass) : SameWindow s.tx s.finishSdu.tx := by
  obtain ⟨vtA, vtS, vtMs, slots⟩ := freeInSduData_sameWindow s.tx s.tx.currentSduIndex
  exact ⟨vtA, vtS, vtMs, slots⟩

theorem writeLi_tx (s : SecondPass) (testNumLi size : Nat) :
    (s.writeLi testNumLi size).tx = s.tx := by
  unfold SecondPass.writeLi
  simp only
  split <;> rfl

theorem fill_sameWindow (s : SecondPass) (testNumLi : Nat) (bytes : Memory) :
    SameWindow s.tx (s.fill testNumLi bytes).tx := by
  have finished (size : Nat) :=
    (copy_sameWindow s bytes size).trans (finishSdu_sameWindow (s.copy bytes size))
  unfold SecondPass.fill
  simp only
  split
  · exact ⟨rfl, rfl, rfl, rfl⟩
  · split
    · exact finished _
    · split
      · split
        · exact finished _
        · have written := finishSdu_sameWindow
            ((s.copy bytes (s.tx.inputSdus s.tx.currentSduIndex).sduRemainingSize).writeLi testNumLi
              (s.tx.inputSdus s.tx.currentSduIndex).sduRemainingSize)
          rw [writeLi_tx] at written
          exact (copy_sameWindow s bytes _).trans written
      · exact finished _

theorem secondPass_sameWindow {tx : Tx} (testNumLi rounds : Nat) (s : SecondPass)
    (start : SameWindow tx s.tx) :
    SameWindow tx (secondPass testNumLi rounds s).tx := by
  induction rounds generalizing s with
  | zero => exact start
  | succ rounds ih =>
    rw [secondPass]
    split
    · rename_i bytes _
      split
      · exact ih _ (start.trans (fill_sameWindow s testNumLi bytes))
      · exact start
    · exact start

theorem fillPdu_sameWindow (tx : Tx) (mem : Memory) (size : Nat) :
    SameWindow tx (fillPdu tx mem size).2.1.tx :=
  secondPass_sameWindow _ maxSduInPdu _ (firstPass_sameWindow maxSduInPdu _ (SameWindow.refl tx))

theorem fillPdu_ack (tx : Tx) (mem : Memory) (size : Nat) :
    (fillPdu tx mem size).1.pdu.ack = false :=
  firstPass_ack maxSduInPdu _

/-- A call of the segmentation that builds no PDU changes nothing; one that does writes
the slot of VT(S) anew and moves VT(S) on. -/
theorem segment10_window (tx : Tx) (block : Option Memory) (copied : Bool) (now : Nat) :
    (segment10 tx block copied now).1 = tx ∨
    ∃ filled pdu, SameWindow { tx with vtS := nextSn tx.vtS } filled ∧ pdu.ack = false ∧
      pdu.memBlock.isSome ∧ pdu.sn = prevSn filled.vtS ∧
      (segment10 tx block copied now).1 = filled.setPdu tx.vtS pdu := by
  unfold segment10
  split
  · exact Or.inl rfl
  · split
    · rename_i mem _
      split
      · right
        have filled := fillPdu_sameWindow tx mem (dataPduSize tx).toNat
        have fresh := fillPdu_ack tx mem (dataPduSize tx).toNat
        rcases passes : fillPdu tx mem (dataPduSize tx).toNat with ⟨first, second, testNumLi⟩
        rw [passes] at filled fresh
        have moved : SameWindow { tx with vtS := nextSn tx.vtS }
            { second.tx with vtS := (tx.vtS + 1) % snModulo } :=
              ⟨filled.vtA, rfl, filled.vtMs, filled.slots⟩
        simp only [passes]
        generalize firstByte _ _ _ _ = b1
        have polled := moved.trans (pduPolling_sameWindow _ b1 second.payloadSize true now)
        generalize pduPolling _ b1 _ true now = out at polled
        refine ⟨out.1, _, polled, ?_, ?_, ?_, rfl⟩
        · exact fresh
        · rfl
        · rfl
      · exact Or.inl rfl
    · exact Or.inl rfl

end Segmentation

end OpenAir.Rlc.Am
