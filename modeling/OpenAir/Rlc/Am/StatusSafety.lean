import OpenAir.Rlc.Am.StatusWalk
import OpenAir.Rlc.Am.StatusCodec

/-! One processing of a STATUS PDU: it ends, and what it leaves of the window and of every slot. -/
namespace OpenAir.Rlc.Am
open BitField Serial

/-- The parts of the state the confirmation of SDUs does not touch. -/
structure SameWindow (before after : Tx) : Prop where
  vtA : after.vtA = before.vtA
  vtS : after.vtS = before.vtS
  vtMs : after.vtMs = before.vtMs
  slots : after.txDataPduBuffer = before.txDataPduBuffer

theorem SameWindow.refl (tx : Tx) : SameWindow tx tx := ⟨rfl, rfl, rfl, rfl⟩

theorem SameWindow.trans {a b c : Tx} (left : SameWindow a b) (right : SameWindow b c) :
    SameWindow a c :=
  ⟨right.vtA.trans left.vtA, right.vtS.trans left.vtS, right.vtMs.trans left.vtMs,
    right.slots.trans left.slots⟩

theorem skipConfirmed_sameWindow (rounds : Nat)
    (tx : Tx) : SameWindow tx (skipConfirmed rounds tx) := by
  induction rounds generalizing tx with
  | zero => exact SameWindow.refl tx
  | succ rounds ih =>
    rw [skipConfirmed]
    split
    · obtain ⟨vtA, vtS, vtMs, slots⟩ := ih _
      exact ⟨vtA, vtS, vtMs, slots⟩
    · exact SameWindow.refl tx

theorem freeInSdu_sameWindow (tx : Tx) (index : Nat) : SameWindow tx (freeInSdu tx index) := by
  unfold freeInSdu
  split
  · exact SameWindow.refl tx
  · obtain ⟨vtA, vtS, vtMs, slots⟩ := skipConfirmed_sameWindow sduControlBufferSize _
    refine ⟨vtA.trans ?_, vtS.trans ?_, vtMs.trans ?_, slots.trans ?_⟩ <;> split <;> rfl

theorem confirmSdu_sameWindow (out : Tx × List Nat) (index : Nat) :
    SameWindow out.1 (confirmSdu out index).1 := by
  unfold confirmSdu
  split
  · exact SameWindow.refl _
  · dsimp only
    split
    · obtain ⟨vtA, vtS, vtMs, slots⟩ := freeInSdu_sameWindow _ index
      exact ⟨vtA, vtS, vtMs, slots⟩
    · exact ⟨rfl, rfl, rfl, rfl⟩

theorem pduSduDataCnf_sameWindow (out : Tx × List Nat) (sn : Nat) :
    SameWindow out.1 (pduSduDataCnf out sn).1 := by
  rw [pduSduDataCnf]
  generalize (out.1.pdu sn).sdusIndex.take (out.1.pdu sn).nbSdus.toNat = indices
  induction indices generalizing out with
  | nil => exact SameWindow.refl _
  | cons index rest ih => exact (confirmSdu_sameWindow out index).trans (ih _)

theorem confirmUntil_spec {stop rounds cursor : Nat} {out : Tx × List Nat}
    (valid : cursor < snModulo)
    (stopValid : stop < snModulo) (enough : diffSn stop cursor ≤ rounds) :
    ∃ after, confirmUntil stop rounds cursor out = some after ∧ SameWindow out.1 after.1 := by
  induction rounds generalizing cursor out with
  | zero =>
    have arrived : cursor = stop := by
      apply dist_inj valid valid stopValid
      rw [dist_self, ← diffSn_eq]
      omega
    exact ⟨out, by rw [confirmUntil, if_pos arrived], SameWindow.refl _⟩
  | succ rounds ih =>
    rw [confirmUntil]
    split
    · exact ⟨out, rfl, SameWindow.refl _⟩
    · rename_i away
      have ahead : diffSn stop cursor = diffSn stop (nextSn cursor) + 1 := by
        simp only [diffSn, nextSn, snModulo] at valid stopValid ⊢
        omega
      obtain ⟨after, ends, same⟩ := @ih _ (pduSduDataCnf out cursor) (nextSn_lt cursor) (by omega)
      exact ⟨after, ends, (pduSduDataCnf_sameWindow out cursor).trans same⟩

theorem stopPolling_sameWindow (tx : Tx) (ackSn : Nat) : SameWindow tx (stopPolling tx ackSn) := by
  unfold stopPolling
  split <;> exact ⟨rfl, rfl, rfl, rfl⟩

theorem confirmPdus_spec (tx : Tx) {snDataCnf : Nat} (dataCnfSoStop : Int)
    (valid : tx.vtA < snModulo)
    (cnfValid : snDataCnf < snModulo) :
    ∃ out, confirmPdus tx snDataCnf dataCnfSoStop = some out ∧ SameWindow tx out.1 := by
  have bound : diffSn snDataCnf tx.vtA ≤ snModulo := Nat.le_of_lt (Nat.mod_lt _ (by decide))
  unfold confirmPdus
  split
  · obtain ⟨after, ends, same⟩ := @confirmUntil_spec _ _ _ (tx, []) valid cnfValid bound
    rw [ends, Option.map_some]
    split
    · exact ⟨_, rfl, same.trans (pduSduDataCnf_sameWindow after snDataCnf)⟩
    · exact ⟨_, rfl, same⟩
  · exact ⟨_, rfl, SameWindow.refl tx⟩

/-- The end of the function touches VT(A) and VT(MS) only, as far as the window goes. -/
theorem finishControlPdu_spec (info : ControlPduInfo) (r : WalkResult) (valid : r.tx.vtA < snModulo)
    (cnfValid : r.snDataCnf < snModulo) :
    ∃ out, finishControlPdu info r = some out ∧ out.1.vtA = r.vtANew ∧
      out.1.vtMs = (r.vtANew + windowSize) % snModulo ∧ out.1.vtS = r.tx.vtS ∧
      out.1.txDataPduBuffer = r.tx.txDataPduBuffer := by
  have start := stopPolling_sameWindow r.tx info.ackSn
  obtain ⟨out, ends, same⟩ := confirmPdus_spec (stopPolling r.tx info.ackSn) r.dataCnfSoStop
    (by rw [start.vtA]; exact valid) cnfValid
  have same := start.trans same
  rw [finishControlPdu, ends]
  exact ⟨_, rfl, rfl, rfl, same.vtS, same.slots⟩

theorem readNacks_valid {mem : Memory} {room : Nat} {c : Cursor} {totalSize : Int}
    {info : ControlPduInfo}
    (aligned : c.bit < 8) (ackSn : info.ackSn < snModulo)
    (stored : ∀ nack ∈ info.nackList, nack.nackSn < snModulo) :
    (readNacks mem room c totalSize info).info.ackSn < snModulo ∧
    ∀ nack ∈ (readNacks mem room c totalSize info).info.nackList, nack.nackSn < snModulo := by
  induction room generalizing c info with
  | zero => exact ⟨ackSn, stored⟩
  | succ room ih =>
    obtain ⟨sn, -, -, bit⟩ := readNack_fields mem aligned
    have valid : (readNack mem c).1.nackSn < snModulo := by
      rw [sn]
      exact valueAt_lt mem c.pos 10
    have next : ∀ nack ∈ info.nackList ++ [(readNack mem c).1], nack.nackSn < snModulo := by
      intro nack member
      obtain old | new := List.mem_append.mp member
      · exact stored nack old
      · rw [List.mem_singleton.mp new]
        exact valid
    rw [readNacks]
    simp only
    split
    · exact ⟨ackSn, next⟩
    · split
      · exact ⟨ackSn, next⟩
      · exact @ih _ { info with nackList := info.nackList ++ [(readNack mem c).1] } bit ackSn next

theorem getControlPduInfos_valid (mem : Memory) (totalSize : Int) :
    (getControlPduInfos mem totalSize).info.ackSn < snModulo ∧
    ∀ nack ∈ (getControlPduInfos mem totalSize).info.nackList, nack.nackSn < snModulo := by
  rw [getControlPduInfos_eq]
  split
  · exact ⟨Nat.succ_pos _, by simp⟩
  · split
    · exact ⟨Nat.succ_pos _, by simp⟩
    · split
      · exact readNacks_valid (by decide) (valueAt_lt mem 4 10) (by simp)
      · exact ⟨valueAt_lt mem 4 10, by simp⟩

/-- The walk over the window ends; up to the first NACK it acknowledges in sequence. -/
theorem walkWindow_spec (tx : Tx) (info : ControlPduInfo) (base : tx.vtA < snModulo)
    (ackValid : info.ackSn < snModulo)
    (nackValid : ∀ nack ∈ info.nackList, nack.nackSn < snModulo) :
    ∃ r, walkWindow tx info = some r ∧ Acks r.acked tx r.tx ∧ r.snDataCnf < snModulo ∧
      (∀ sn ∈ span snModulo tx.vtA (diffSn r.vtANew tx.vtA), (r.tx.pdu sn).memBlock = none) ∧
      (∃ extra, r.acked = span snModulo tx.vtA (diffSn r.vtANew tx.vtA) ++ extra) ∧
      (info.nackList = [] → r.vtANew = info.ackSn) ∧
      ∀ nack rest, info.nackList = nack :: rest → r.vtANew = nack.nackSn := by
  have turn (a b : Nat) : diffSn a b ≤ snModulo := Nat.le_of_lt (Nat.mod_lt _ (by decide))
  cases list : info.nackList with
  | nil =>
    rw [walkWindow, list]
    obtain ⟨after, ends, acks, freed⟩ :=
      @ackUntil_spec info.ackSn snModulo ⟨tx, tx.vtA, [], [], 0x3FFF, true⟩
      base ackValid (turn _ _)
    rw [ends]
    exact ⟨_, rfl, acks, prevSn_lt _, freed, ⟨[], (List.append_nil _).symm⟩, fun _ => rfl, nofun⟩
  | cons nack rest =>
    rw [list] at nackValid
    have firstValid : nack.nackSn < snModulo := nackValid nack List.mem_cons_self
    obtain ⟨after, ends, acks, freed⟩ := @ackUntil_spec nack.nackSn snModulo
      ⟨tx, tx.vtA, [], nack :: rest, 0x3FFF, true⟩ base firstValid (turn _ _)
    rw [walkWindow, list]
    simp only [ends, Option.bind_some]
    -- Seen from the first NACK the cursor has not moved yet, so the loop ends in any case.
    have here : diffSn nack.nackSn nack.nackSn ≤ diffSn info.ackSn nack.nackSn := by
      rw [diffSn_eq, dist_self]
      exact Nat.zero_le _
    have enough : diffSn info.ackSn nack.nackSn - diffSn nack.nackSn nack.nackSn +
      (nack :: rest).length ≤
        snModulo + (nack :: rest).length := by
      have := turn info.ackSn nack.nackSn
      omega
    obtain ⟨extra, last, lastEnds, tail⟩ := @walkUntil_spec _ _ ⟨after, nack.nackSn,
      [] ++ span snModulo tx.vtA (diffSn nack.nackSn tx.vtA), nack :: rest, 0x3FFF,
        true⟩ _ firstValid ackValid
      ⟨firstValid, here, fun _ => rfl, nackValid⟩ enough
    simp only [lastEnds, Option.map_some]
    refine ⟨_, rfl, ?_, ?_, ?_, ⟨extra, tail.acked⟩, nofun, ?_⟩
    · simp only [tail.acked]
      exact acks.trans tail.acks
    · simp only [dataCnf]
      split
      · exact prevSn_lt _
      · split
        · exact firstValid
        · exact prevSn_lt _
    · exact fun sn member => tail.acks.gone _ (freed sn member)
    · rintro first others ⟨⟩
      rfl

theorem receiveProcessControlPdu_spec (tx : Tx) (mem : Memory) (tbSize : Int)
    (base : tx.vtA < snModulo)
    (accepted : (getControlPduInfos mem tbSize).ret ≥ 0)
    (fewer : (getControlPduInfos mem tbSize).info.nackList.length < maxNackInStatusPdu)
    (within : diffSn (getControlPduInfos mem tbSize).info.ackSn tx.vtA ≤ diffSn tx.vtS tx.vtA) :
    ∃ walk out, walkWindow tx (getControlPduInfos mem tbSize).info = some walk ∧
      receiveProcessControlPdu tx mem tbSize = some out ∧ out.acked = walk.acked ∧
      out.status = walk.status ∧ out.tx.txDataPduBuffer = walk.tx.txDataPduBuffer ∧
      out.tx.vtS = walk.tx.vtS ∧
      out.tx.vtA = (if walk.status then walk.vtANew else walk.tx.vtA) ∧
      out.tx.vtMs =
      (if walk.status then (walk.vtANew + windowSize) % snModulo else walk.tx.vtMs) := by
  obtain ⟨ackValid, nackValid⟩ := getControlPduInfos_valid mem tbSize
  obtain ⟨walk, ends, acks, cnfValid, -⟩ := walkWindow_spec tx _ base ackValid nackValid
  have legal : ¬ ((getControlPduInfos mem tbSize).info.ackSn ≥ snModulo ∨
      (getControlPduInfos mem tbSize).info.nackList.length ≥ maxNackInStatusPdu) := by omega
  obtain ⟨out, finish, vtA, vtMs, vtS, slots⟩ :=
    finishControlPdu_spec (getControlPduInfos mem tbSize).info walk
    (by rw [acks.vtA]; exact base) cnfValid
  rw [receiveProcessControlPdu]
  simp only [accepted, if_true, legal, if_false, within, ge_iff_le, ends, Option.bind_some]
  cases status : walk.status with
  | true =>
    simp only [if_true, finish, Option.map_some]
    exact ⟨walk, _, rfl, rfl, rfl, status.symm, slots, vtS, by simp [status, vtA], by
      simp [status, vtMs]⟩
  | false =>
    exact ⟨walk, _, rfl, rfl, rfl, status.symm, rfl, rfl, by simp [status], by simp [status]⟩

end OpenAir.Rlc.Am
