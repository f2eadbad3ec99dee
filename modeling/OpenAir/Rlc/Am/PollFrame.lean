import OpenAir.Rlc.Am.Retransmit
import OpenAir.Rlc.Am.StatusReceive
import OpenAir.Rlc.Am.TxFrame

/-! What polling rests on, and that only `rlc_am_pdu_polling` and the poll timer change it. -/
namespace OpenAir.Rlc.Am
open BitField

/-- The thresholds, the counters since the last poll, the poll asked for by the timer, the grant
and the limit of retransmissions stay. -/
structure SamePoll (before after : Tx) : Prop where
  pollPdu : after.pollPdu = before.pollPdu
  pollByte : after.pollByte = before.pollByte
  pdus : after.cPduWithoutPoll = before.cPduWithoutPoll
  bytes : after.cByteWithoutPoll = before.cByteWithoutPoll
  force : after.forcePoll = before.forcePoll
  grant : after.nbBytesRequestedByMac = before.nbBytesRequestedByMac
  threshold : after.maxRetxThreshold = before.maxRetxThreshold

theorem SamePoll.refl (tx : Tx) : SamePoll tx tx := ⟨rfl, rfl, rfl, rfl, rfl, rfl, rfl⟩

theorem SamePoll.trans {a b c : Tx} (left : SamePoll a b) (right : SamePoll b c) :
    SamePoll a c where
  pollPdu := right.pollPdu.trans left.pollPdu
  pollByte := right.pollByte.trans left.pollByte
  pdus := right.pdus.trans left.pdus
  bytes := right.bytes.trans left.bytes
  force := right.force.trans left.force
  grant := right.grant.trans left.grant
  threshold := right.threshold.trans left.threshold

section Requests

theorem dataReq_samePoll (tx : Tx) (bytes : Memory) (size mui : Nat) :
    SamePoll tx (dataReq tx bytes size mui) := by
  unfold dataReq
  simp only
  split
  · exact ⟨rfl, rfl, rfl, rfl, rfl, rfl, rfl⟩
  · exact SamePoll.refl tx

theorem skipConfirmed_samePoll (rounds : Nat)
    (tx : Tx) : SamePoll tx (skipConfirmed rounds tx) := by
  induction rounds generalizing tx with
  | zero => exact SamePoll.refl tx
  | succ rounds ih =>
    rw [skipConfirmed]
    split
    · have moved :
          SamePoll tx { tx with currentSduIndex := (tx.currentSduIndex +
          1) % sduControlBufferSize } :=
        ⟨rfl, rfl, rfl, rfl, rfl, rfl, rfl⟩
      exact moved.trans (ih _)
    · exact SamePoll.refl tx

theorem freeInSdu_samePoll (tx : Tx) (index : Nat) : SamePoll tx (freeInSdu tx index) := by
  unfold freeInSdu
  split
  · exact SamePoll.refl tx
  · simp only
    refine SamePoll.trans ?_ (skipConfirmed_samePoll _ _)
    split
    all_goals exact ⟨rfl, rfl, rfl, rfl, rfl, rfl, rfl⟩

theorem confirmSdu_samePoll {tx : Tx} {out : Tx × List Nat} (same : SamePoll tx out.1)
    (index : Nat) :
    SamePoll tx (confirmSdu out index).1 := by
  unfold confirmSdu
  split
  · exact same
  · have counted (sdu : TxSdu) : SamePoll tx (out.1.setSdu index sdu) :=
      same.trans ⟨rfl, rfl, rfl, rfl, rfl, rfl, rfl⟩
    simp only
    split
    · exact (counted _).trans (freeInSdu_samePoll _ index)
    · exact counted _

theorem pduSduDataCnf_samePoll {tx : Tx} {out : Tx × List Nat}
    (same : SamePoll tx out.1) (sn : Nat) :
    SamePoll tx (pduSduDataCnf out sn).1 := by
  unfold pduSduDataCnf
  simp only
  generalize ((out.1.pdu sn).sdusIndex.take (out.1.pdu sn).nbSdus.toNat) = indices
  induction indices generalizing out with
  | nil => exact same
  | cons index rest ih => exact ih (confirmSdu_samePoll same index)

theorem confirmUntil_samePoll {tx : Tx} {stop rounds cursor : Nat} {out last : Tx × List Nat}
    (same : SamePoll tx out.1)
    (ends : confirmUntil stop rounds cursor out = some last) : SamePoll tx last.1 := by
  induction rounds generalizing cursor out with
  | zero =>
    rw [confirmUntil] at ends
    split at ends
    · cases ends
      exact same
    · contradiction
  | succ rounds ih =>
    rw [confirmUntil] at ends
    split at ends
    · cases ends
      exact same
    · exact ih (pduSduDataCnf_samePoll same cursor) ends

end Requests

section Status

theorem ackPdu_samePoll (tx : Tx) (sn : Nat) (freePdu : Bool) :
    SamePoll tx (ackPdu tx sn freePdu) := by
  unfold ackPdu
  simp only
  repeat' split
  all_goals exact ⟨rfl, rfl, rfl, rfl, rfl, rfl, rfl⟩

theorem nackPdu_samePoll (tx : Tx) (sn prevNackSn : Nat) (soStart soEnd : Int) :
    SamePoll tx (nackPdu tx sn prevNackSn soStart soEnd).2 := by
  unfold nackPdu
  simp only
  repeat' split
  all_goals exact ⟨rfl, rfl, rfl, rfl, rfl, rfl, rfl⟩

theorem ackUntil_samePoll {tx : Tx} {stop rounds : Nat} {w last : Walk} (same : SamePoll tx w.tx)
    (ends : ackUntil stop rounds w = some last) : SamePoll tx last.tx := by
  induction rounds generalizing w with
  | zero =>
    rw [ackUntil] at ends
    split at ends
    · cases ends
      exact same
    · contradiction
  | succ rounds ih =>
    rw [ackUntil] at ends
    split at ends
    · cases ends
      exact same
    · refine ih ?_ ends
      exact same.trans (ackPdu_samePoll w.tx w.snCursor true)

theorem walkStep_samePoll (ackSn : Nat) (w : Walk) : SamePoll w.tx (walkStep ackSn w).2.tx := by
  have acked := ackPdu_samePoll w.tx w.snCursor false
  unfold walkStep
  split
  · simp only
    repeat' split
    all_goals first
      | exact acked
      | exact SamePoll.refl w.tx
  · rename_i nack rest _
    have nacked := nackPdu_samePoll w.tx nack.nackSn w.prevNackSn nack.soStart nack.soEnd
    split
    · simp only
      split
      all_goals exact acked
    · simp only
      repeat' split
      all_goals exact nacked

theorem walkUntil_samePoll {tx : Tx} {ackSn rounds : Nat} {w last : Walk} (same : SamePoll tx w.tx)
    (ends : walkUntil ackSn rounds w = some last) : SamePoll tx last.tx := by
  induction rounds generalizing w with
  | zero =>
    rw [walkUntil] at ends
    split at ends
    · cases ends
      exact same
    · contradiction
  | succ rounds ih =>
    have stepped := same.trans (walkStep_samePoll ackSn w)
    rw [walkUntil] at ends
    split at ends
    · cases ends
      exact same
    · generalize walkStep ackSn w = next at ends stepped
      obtain ⟨left, next⟩ := next
      cases left with
      | true =>
        cases ends
        exact stepped
      | false => exact ih stepped ends

theorem walkWindow_samePoll {tx : Tx} {info : ControlPduInfo} {r : WalkResult}
    (ends : walkWindow tx info = some r) :
    SamePoll tx r.tx := by
  unfold walkWindow at ends
  split at ends
  · obtain ⟨w, walked, rfl⟩ := Option.map_eq_some_iff.mp ends
    exact ackUntil_samePoll (SamePoll.refl tx) walked
  · obtain ⟨first, acked, ends⟩ := Option.bind_eq_some_iff.mp ends
    obtain ⟨w, walked, rfl⟩ := Option.map_eq_some_iff.mp ends
    exact walkUntil_samePoll (ackUntil_samePoll (SamePoll.refl tx) acked) walked

theorem finishControlPdu_samePoll {info : ControlPduInfo} {r : WalkResult} {out : Tx × List Nat}
    (ends : finishControlPdu info r = some out) : SamePoll r.tx out.1 := by
  have stopped : SamePoll r.tx (stopPolling r.tx info.ackSn) := by
    unfold stopPolling
    split
    · exact ⟨rfl, rfl, rfl, rfl, rfl, rfl, rfl⟩
    · exact SamePoll.refl r.tx
  obtain ⟨confirmed, cnf, rfl⟩ := Option.map_eq_some_iff.mp ends
  have same : SamePoll r.tx confirmed.1 := by
    unfold confirmPdus at cnf
    split at cnf
    · obtain ⟨last, until_, rfl⟩ := Option.map_eq_some_iff.mp cnf
      have walked := confirmUntil_samePoll stopped until_
      split
      · exact pduSduDataCnf_samePoll walked _
      · exact walked
    · cases cnf
      exact stopped
  exact same.trans ⟨rfl, rfl, rfl, rfl, rfl, rfl, rfl⟩

theorem receiveProcessControlPdu_samePoll {tx : Tx} {mem : Memory} {tbSize : Int}
    {r : ControlResult}
    (ends : receiveProcessControlPdu tx mem tbSize = some r) : SamePoll tx r.tx := by
  unfold receiveProcessControlPdu at ends
  simp only at ends
  split at ends
  · split at ends
    · cases ends
      exact SamePoll.refl tx
    · split at ends
      · obtain ⟨walk, walked, ends⟩ := Option.bind_eq_some_iff.mp ends
        have same := walkWindow_samePoll walked
        split at ends
        · obtain ⟨out, finished, rfl⟩ := Option.map_eq_some_iff.mp ends
          exact same.trans (finishControlPdu_samePoll finished)
        · cases ends
          exact same
      · cases ends
        exact SamePoll.refl tx
  · cases ends
    exact SamePoll.refl tx

end Status

section Sending

theorem firstPass_samePoll {tx : Tx} (rounds : Nat) (s : FirstPass) (start : SamePoll tx s.tx) :
    SamePoll tx (firstPass rounds s).tx := by
  induction rounds generalizing s with
  | zero => exact start
  | succ rounds ih =>
    have linked :
        SamePoll s.tx (s.fit (s.tx.inputSdus s.sduBufferIndex).sduRemainingSize).link.tx := by
      simp only [FirstPass.link, fit_tx]
      exact ⟨rfl, rfl, rfl, rfl, rfl, rfl, rfl⟩
    rw [firstPass]
    simp only
    split
    · split
      · exact start.trans linked
      · exact ih _ (start.trans linked)
    · exact start

theorem finishSdu_samePoll {tx : Tx} {s : SecondPass} (same : SamePoll tx s.tx) :
    SamePoll tx s.finishSdu.tx := by
  refine same.trans ?_
  unfold SecondPass.finishSdu freeInSduData
  simp only
  split
  all_goals exact ⟨rfl, rfl, rfl, rfl, rfl, rfl, rfl⟩

theorem fill_samePoll (s : SecondPass) (testNumLi : Nat) (bytes : Memory) :
    SamePoll s.tx (s.fill testNumLi bytes).tx := by
  have copied (size : Nat) : SamePoll s.tx (s.copy bytes size).tx :=
    ⟨rfl, rfl, rfl, rfl, rfl, rfl, rfl⟩
  unfold SecondPass.fill
  simp only
  split
  · exact ⟨rfl, rfl, rfl, rfl, rfl, rfl, rfl⟩
  · split
    · exact finishSdu_samePoll (copied _)
    · split
      · split
        · exact finishSdu_samePoll (copied _)
        · refine finishSdu_samePoll ?_
          rw [writeLi_tx]
          exact copied _
      · exact finishSdu_samePoll (copied _)

theorem secondPass_samePoll {tx : Tx} (testNumLi rounds : Nat) (s : SecondPass)
    (start : SamePoll tx s.tx) :
    SamePoll tx (secondPass testNumLi rounds s).tx := by
  induction rounds generalizing s with
  | zero => exact start
  | succ rounds ih =>
    rw [secondPass]
    split
    · split
      · exact ih _ (start.trans (fill_samePoll s testNumLi _))
      · exact start
    · exact start

theorem fillPdu_samePoll (tx : Tx) (mem : Memory) (size : Nat) :
    SamePoll tx (fillPdu tx mem size).2.1.tx :=
  secondPass_samePoll _ maxSduInPdu _ (firstPass_samePoll maxSduInPdu _ (SamePoll.refl tx))

theorem retransmitAt_samePoll (tx : Tx) (sn : Nat) (allocated : Bool) :
    SamePoll tx (retransmitAt tx sn allocated).1 := by
  unfold retransmitAt retransmitWhole retransmitSegment hitMaxRetx
  simp only
  repeat' split
  all_goals exact ⟨rfl, rfl, rfl, rfl, rfl, rfl, rfl⟩

theorem forceRetransmit_samePoll (snEnd rounds sn : Nat) (tx : Tx) :
    SamePoll tx (forceRetransmit snEnd rounds sn tx) := by
  induction rounds generalizing sn with
  | zero => exact SamePoll.refl tx
  | succ rounds ih =>
    rw [forceRetransmit]
    split
    · exact SamePoll.refl tx
    · simp only
      split
      · exact ⟨rfl, rfl, rfl, rfl, rfl, rfl, rfl⟩
      · exact ih (prevSn sn)

end Sending

end OpenAir.Rlc.Am
