import OpenAir.Rlc.Am.Polling
import OpenAir.Rlc.Am.RetxRun

/-! How often a PDU is sent again: its two counters under STATUS PDUs, retransmissions and the poll
timer, over whole runs. -/
namespace OpenAir.Rlc.Am
open BitField Run

section Slots

/-- The counters and the mark of a PDU that was retransmitted too often stay. -/
structure Unmoved (before after : TxPdu) : Prop where
  count : after.retxCount = before.retxCount
  next : after.retxCountNext = before.retxCountNext
  mark : after.maxRetransmit = before.maxRetransmit

/-- The PDU may be considered for retransmission, which counts unless one is pending. -/
structure Bumped (before after : TxPdu) : Prop where
  count : after.retxCount = before.retxCount
  next : after.retxCountNext = before.retxCountNext ∨
    before.retxCountNext = before.retxCount ∧ after.retxCountNext = before.retxCount + 1
  mark : after.maxRetransmit = before.maxRetransmit

theorem Unmoved.refl (pdu : TxPdu) : Unmoved pdu pdu := ⟨rfl, rfl, rfl⟩

theorem Unmoved.bumped {before after : TxPdu} (same : Unmoved before after) : Bumped before after :=
  ⟨same.count, Or.inl same.next, same.mark⟩

theorem Unmoved.trans {a b c : TxPdu} (left : Unmoved a b) (right : Unmoved b c) : Unmoved a c :=
  ⟨right.count.trans left.count, right.next.trans left.next, right.mark.trans left.mark⟩

/-- A second time does not count: the first is pending. -/
theorem Bumped.trans {a b c : TxPdu} (left : Bumped a b) (right : Bumped b c) : Bumped a c := by
  refine ⟨right.count.trans left.count, ?_, right.mark.trans left.mark⟩
  rcases left.next with same | ⟨idle, more⟩
  · rcases right.next with same' | ⟨idle, more⟩
    · exact Or.inl (same'.trans same)
    · rw [left.count] at idle more
      exact Or.inr ⟨same.symm.trans idle, more⟩
  · rcases right.next with same' | ⟨idle', -⟩
    · exact Or.inr ⟨idle, same'.trans more⟩
    · rw [left.count, more] at idle'
      omega

/-- The PDUs in the slots of `considered` may be considered for retransmission, others are not. -/
structure Bumps (considered : Nat → Prop) (before after : Tx) : Prop where
  each : ∀ i, Bumped (before.txDataPduBuffer i) (after.txDataPduBuffer i)
  others : ∀ i, ¬ considered i → Unmoved (before.txDataPduBuffer i) (after.txDataPduBuffer i)

variable {considered : Nat → Prop} {tx tx' : Tx} {sn : Nat} {pdu : TxPdu}

theorem Bumps.of_slots (same : tx'.txDataPduBuffer = tx.txDataPduBuffer) :
    Bumps considered tx tx' where
  each i := by rw [same]; exact (Unmoved.refl _).bumped
  others i _ := by rw [same]; exact Unmoved.refl _

theorem Bumps.trans {a b c : Tx} (left : Bumps considered a b) (right : Bumps considered b c) :
    Bumps considered a c where
  each i := (left.each i).trans (right.each i)
  others i apart := (left.others i apart).trans (right.others i apart)

theorem Bumps.store (same : tx'.txDataPduBuffer = tx.txDataPduBuffer)
    (bumped : Bumped (tx.pdu sn) pdu)
    (chosen : considered (sn % windowSize) ∨ Unmoved (tx.pdu sn) pdu) :
    Bumps considered tx (tx'.setPdu sn pdu) where
  each i := by
    by_cases here : i = sn % windowSize
    · rw [here]
      simp only [Tx.setPdu, Function.update_self]
      exact bumped
    · simp only [Tx.setPdu, ne_eq, here, not_false_eq_true, Function.update_of_ne, same]
      exact (Unmoved.refl _).bumped
  others i apart := by
    by_cases here : i = sn % windowSize
    · rw [here] at apart
      rw [here]
      simp only [Tx.setPdu, Function.update_self]
      exact chosen.resolve_left apart
    · simp only [Tx.setPdu, ne_eq, here, not_false_eq_true, Function.update_of_ne, same]
      exact Unmoved.refl _

theorem Bumps.store_unmoved (same : tx'.txDataPduBuffer = tx.txDataPduBuffer)
    (unmoved : Unmoved (tx.pdu sn) pdu) :
    Bumps considered tx (tx'.setPdu sn pdu) := Bumps.store same unmoved.bumped (Or.inr unmoved)

end Slots

section Status

variable {considered : Nat → Prop}

theorem ackPdu_bumps (tx : Tx) (sn : Nat) (freePdu : Bool) :
    Bumps considered tx (ackPdu tx sn freePdu) := by
  unfold ackPdu
  simp only
  repeat' split
  all_goals exact Bumps.store_unmoved rfl ⟨rfl, rfl, rfl⟩

theorem nackRequest_unmoved (pdu : TxPdu) (sn prevNackSn : Nat) (soStart soEnd : Int) :
    Unmoved pdu (nackRequest pdu sn prevNackSn soStart soEnd).2.pdu := by
  unfold nackRequest
  simp only
  repeat' split
  all_goals exact ⟨rfl, rfl, rfl⟩

theorem nackPdu_bumps (tx : Tx) {sn : Nat} (prevNackSn : Nat) (soStart soEnd : Int)
    (chosen : considered (sn % windowSize)) :
    Bumps considered tx (nackPdu tx sn prevNackSn soStart soEnd).2 := by
  have asked := nackRequest_unmoved (tx.pdu sn) sn prevNackSn soStart soEnd
  unfold nackPdu
  generalize nackRequest (tx.pdu sn) sn prevNackSn soStart soEnd = result at asked ⊢
  obtain ⟨status, request⟩ := result
  simp only at asked ⊢
  split
  · split
    · -- The counter for the next retransmission moves only when it agrees with the other.
      have counted :
          Bumped (tx.pdu sn)
          (if request.retxCountIncrement ∧ request.pdu.retxCount = request.pdu.retxCountNext then
          { request.pdu with nack := true, retxCountNext := request.pdu.retxCountNext + 1 }
          else { request.pdu with nack := true }) := by
        split
        · rename_i due
          refine ⟨asked.count, Or.inr ?_, asked.mark⟩
          have agree : (tx.pdu sn).retxCountNext = (tx.pdu sn).retxCount := by
            rw [← asked.count, ← asked.next, due.2]
          refine ⟨agree, ?_⟩
          show request.pdu.retxCountNext + 1 = _
          rw [asked.next, agree]
        · exact ⟨asked.count, Or.inl asked.next, asked.mark⟩
      generalize (if request.retxCountIncrement ∧ request.pdu.retxCount =
          request.pdu.retxCountNext then
          { request.pdu with nack := true, retxCountNext := request.pdu.retxCountNext + 1 }
          else { request.pdu with nack := true }) = pdu at counted ⊢
      have stored {tx' : Tx} (same : tx'.txDataPduBuffer = tx.txDataPduBuffer) {after : TxPdu}
        (unmoved : Unmoved pdu after) :
          Bumps considered tx (tx'.setPdu sn after) :=
        Bumps.store same (counted.trans unmoved.bumped) (Or.inl chosen)
      repeat' split
      all_goals apply stored
      all_goals first
        | rfl
        | exact ⟨rfl, rfl, rfl⟩
    · exact Bumps.store_unmoved rfl asked
  · exact Bumps.of_slots rfl

theorem ackUntil_bumps {tx : Tx} {stop rounds : Nat} {w last : Walk}
    (start : Bumps considered tx w.tx)
    (ends : ackUntil stop rounds w = some last) : Bumps considered tx last.tx ∧
    last.pending = w.pending := by
  induction rounds generalizing w with
  | zero =>
    rw [ackUntil] at ends
    split at ends
    · cases ends
      exact ⟨start, rfl⟩
    · cases ends
  | succ rounds ih =>
    rw [ackUntil] at ends
    split at ends
    · cases ends
      exact ⟨start, rfl⟩
    · have acked : Bumps considered tx (w.ack true).next.tx :=
        start.trans (ackPdu_bumps w.tx w.snCursor true)
      obtain ⟨bumps, same⟩ := ih acked ends
      exact ⟨bumps, same⟩

/-- A round considers the PDU of the NACK that it takes up, if any. -/
theorem walkStep_bumps (ackSn : Nat) {w : Walk}
    (chosen : ∀ nack ∈ w.pending, considered (nack.nackSn % windowSize)) :
    Bumps considered w.tx (walkStep ackSn w).2.tx ∧
      ∀ nack ∈ (walkStep ackSn w).2.pending, considered (nack.nackSn % windowSize) := by
  have moves {v : Walk} (bumps : Bumps considered w.tx v.tx)
      (left : ∀ nack ∈ v.pending, considered (nack.nackSn % windowSize)) (goes : Prop)
        [Decidable goes] :
      Bumps considered w.tx (if goes then v.next else v).tx ∧
        ∀ nack ∈ (if goes then v.next else v).pending, considered (nack.nackSn % windowSize) := by
    split
    all_goals exact ⟨bumps, left⟩
  have acked : Bumps considered w.tx (w.ack false).tx := ackPdu_bumps w.tx w.snCursor false
  unfold walkStep
  cases list : w.pending with
  | nil =>
    refine moves ?_ ?_ _
    · split
      · exact acked
      · exact Bumps.of_slots rfl
    · intro nack member
      refine chosen nack ?_
      split at member
      all_goals exact member
  | cons nack rest =>
    rw [list] at chosen
    simp only
    split
    · exact moves acked (by show ∀ nack ∈ w.pending, _; rw [list]; exact chosen) _
    · have nacked :=
        nackPdu_bumps w.tx w.prevNackSn nack.soStart nack.soEnd (chosen nack List.mem_cons_self)
      have left : ∀ other ∈ rest, considered (other.nackSn % windowSize) :=
        fun other member => chosen other (List.mem_cons_of_mem _ member)
      split
      · exact ⟨nacked, left⟩
      · exact moves (v := { w with
          tx := (nackPdu w.tx nack.nackSn w.prevNackSn nack.soStart nack.soEnd).2
          status := (nackPdu w.tx nack.nackSn w.prevNackSn nack.soStart nack.soEnd).1
          prevNackSn := nack.nackSn
          pending := rest }) nacked left _

theorem walkUntil_bumps {tx : Tx} {ackSn rounds : Nat} {w last : Walk}
    (start : Bumps considered tx w.tx)
    (chosen : ∀ nack ∈ w.pending, considered (nack.nackSn % windowSize))
    (ends : walkUntil ackSn rounds w = some last) : Bumps considered tx last.tx := by
  induction rounds generalizing w with
  | zero =>
    rw [walkUntil] at ends
    split at ends
    · cases ends
      exact start
    · cases ends
  | succ rounds ih =>
    rw [walkUntil] at ends
    split at ends
    · cases ends
      exact start
    · obtain ⟨bumps, left⟩ := walkStep_bumps ackSn chosen
      generalize walkStep ackSn w = result at ends bumps left
      obtain ⟨broke, next⟩ := result
      cases broke with
      | true =>
        cases ends
        exact start.trans bumps
      | false => exact ih (start.trans bumps) left ends

theorem walkWindow_bumps {tx : Tx} {info : ControlPduInfo}
    (chosen : ∀ nack ∈ info.nackList, considered (nack.nackSn % windowSize)) {r : WalkResult}
    (ends : walkWindow tx info = some r) : Bumps considered tx r.tx := by
  unfold walkWindow at ends
  cases list : info.nackList with
  | nil =>
    simp only [list, Option.map_eq_some_iff] at ends
    obtain ⟨last, walked, rfl⟩ := ends
    exact (ackUntil_bumps (Bumps.of_slots rfl) walked).1
  | cons nack rest =>
    simp only [list, Option.bind_eq_some_iff, Option.map_eq_some_iff] at ends
    obtain ⟨first, arrived, last, walked, rfl⟩ := ends
    rw [list] at chosen
    obtain ⟨bumps, same⟩ := ackUntil_bumps (Bumps.of_slots rfl : Bumps considered tx tx) arrived
    refine walkUntil_bumps bumps ?_ walked
    rw [same]
    exact chosen

/-- A STATUS PDU considers the PDUs whose slots its NACKs select. -/
theorem receiveProcessControlPdu_bumps {tx : Tx} (base : tx.vtA < snModulo) {mem : Memory}
    {tbSize : Int} {r : ControlResult}
    (chosen : ∀ nack ∈ (getControlPduInfos mem tbSize).info.nackList,
      considered (nack.nackSn % windowSize))
    (ends : receiveProcessControlPdu tx mem tbSize = some r) : Bumps considered tx r.tx := by
  have known := ends
  rw [receiveProcessControlPdu] at ends
  split at ends
  · rename_i decoded
    split at ends
    · cases ends
      exact Bumps.of_slots rfl
    · rename_i legal
      split at ends
      · rename_i within
        obtain ⟨-, fewer⟩ := not_or.mp legal
        obtain ⟨walk, out, walked, process, -, -, slots, -⟩ :=
          receiveProcessControlPdu_spec tx mem tbSize base decoded (Nat.lt_of_not_ge fewer) within
        obtain rfl : r = out := Option.some.inj (known.symm.trans process)
        exact (walkWindow_bumps chosen walked).trans (Bumps.of_slots slots)
      · cases ends
        exact Bumps.of_slots rfl
  · cases ends
    exact Bumps.of_slots rfl

end Status

section Timer

/-- The PDU that the poll timer asks for again. -/
def forced (tx : Tx) (snEnd : Nat) : Nat → Nat → Option Nat
  | 0, _ => none
  | rounds + 1, sn =>
    if sn = snEnd then none
    else if (tx.pdu sn).memBlock.isSome ∧ (tx.pdu sn).ack = false ∧ (tx.pdu sn).maxRetransmit =
      false then some sn
    else forced tx snEnd rounds (prevSn sn)

variable {considered : Nat → Prop}

theorem forceRetransmit_bumps {tx : Tx} {snEnd rounds sn : Nat}
    (chosen : ∀ picked ∈ forced tx snEnd rounds sn, considered (picked % windowSize)) :
    Bumps considered tx (forceRetransmit snEnd rounds sn tx) := by
  induction rounds generalizing sn with
  | zero => exact Bumps.of_slots rfl
  | succ rounds ih =>
    rw [forced] at chosen
    rw [forceRetransmit]
    split
    · exact Bumps.of_slots rfl
    · rename_i going
      rw [if_neg going] at chosen
      simp only
      split
      · rename_i due
        rw [if_pos due] at chosen
        refine Bumps.store rfl ⟨rfl, ?_, rfl⟩ (Or.inl (chosen sn rfl))
        split
        · rename_i agree
          refine Or.inr ⟨agree.symm, ?_⟩
          rw [agree]
        · exact Or.inl rfl
      · rename_i skip
        rw [if_neg skip] at chosen
        exact ih chosen

/-- The PDU that the poll timer asks for again when it runs out at the time `now`. -/
def timerPick (tx : Tx) (now : Nat) : Option Nat :=
  if tx.tPollRetransmit.expired now ∧
      ((tx.sduBufferOccupancy = 0 ∧ tx.retransNumBytesToRetransmit = 0) ∨ tx.vtS = tx.vtMs) then
    forced tx (prevSn tx.vtA) snModulo (prevSn tx.vtS)
  else
    none

theorem checkTimerPollRetransmit_bumps {tx : Tx} {now : Nat}
    (chosen : ∀ picked ∈ timerPick tx now, considered (picked % windowSize)) :
    Bumps considered tx (checkTimerPollRetransmit tx now) := by
  unfold checkTimerPollRetransmit
  unfold timerPick at chosen
  split
  · rename_i out
    simp only
    split
    · rename_i again
      rw [if_pos ⟨out, again⟩] at chosen
      -- only the timer differs, which the search does not read
      have stopped (timer : Timer) (rounds sn : Nat) :
          forced { tx with tPollRetransmit := timer } (prevSn tx.vtA) rounds sn =
              forced tx (prevSn tx.vtA) rounds sn := by
        induction rounds generalizing sn with
        | zero => rfl
        | succ rounds ih =>
          rw [forced, forced, ih]
          rfl
      generalize snModulo = rounds at chosen ⊢
      rw [← stopped { tx.tPollRetransmit with running := false, timedOut := true }] at chosen
      have bumps := forceRetransmit_bumps chosen
      have stoppedTimer : Bumps considered tx { tx with
          tPollRetransmit := { tx.tPollRetransmit with running := false, timedOut := true } } :=
            Bumps.of_slots rfl
      exact (stoppedTimer.trans bumps).trans (Bumps.of_slots rfl)
    · exact Bumps.of_slots rfl
  · exact Bumps.of_slots rfl

end Timer

section Again

/-- The PDU that the search from `sn` on sends again. -/
def resent (snEnd : Nat) (allocated : Bool) : Nat → Nat → Tx → Option Nat
  | 0, _, _ => none
  | rounds + 1, sn, tx =>
    match retransmitAt tx sn allocated with
    | (_, some _) => some sn
    | (tx, none) =>
      if nextSn sn ≠ snEnd ∧ tx.retransNumPdus > 0 then
        resent snEnd allocated rounds (nextSn sn) tx else none

theorem searchRetransmit_resent (snEnd : Nat) (allocated : Bool) (now rounds sn : Nat) (tx : Tx) :
    (searchRetransmit snEnd allocated now rounds sn tx).2.isSome =
    (resent snEnd allocated rounds sn tx).isSome := by
  induction rounds generalizing sn tx with
  | zero => rfl
  | succ rounds ih =>
    rw [searchRetransmit, resent]
    generalize retransmitAt tx sn allocated = tried
    obtain ⟨next, emitted⟩ := tried
    cases emitted with
    | some out => rfl
    | none =>
      simp only
      split
      · exact ih (nextSn sn) next
      · rfl

/-- A try leaves the counters; it marks a PDU that was sent too often, and gives one only when it
was not. -/
structure Tried (threshold : Nat) (given : Bool) (before after : TxPdu) : Prop where
  count : after.retxCount = before.retxCount
  next : after.retxCountNext = before.retxCountNext
  mark : after.maxRetransmit = before.maxRetransmit ∨ after.maxRetransmit = true ∧
    threshold < before.retxCountNext
  given : given = true → before.maxRetransmit = false ∧ after.maxRetransmit = false ∧
    before.retxCountNext ≤ threshold

theorem updateHoles_unmoved (pdu : TxPdu) (payloadSize : Int) :
    Unmoved pdu (updateHoles pdu payloadSize) := by
  unfold updateHoles
  simp only
  repeat' split
  all_goals exact ⟨rfl, rfl, rfl⟩

theorem planSegment_unmoved (pdu : TxPdu) (mem : Memory) (nbBytes : Int) :
    Unmoved pdu (planSegment pdu mem nbBytes).1 := by
  unfold planSegment
  simp only
  repeat' split
  all_goals exact ⟨rfl, rfl, rfl⟩

theorem retransmitGetAmSegment_unmoved (pdu : TxPdu) (nbBytes : Int) (allocated : Bool) :
    Unmoved pdu (retransmitGetAmSegment pdu nbBytes allocated).1 := by
  unfold retransmitGetAmSegment
  cases block : pdu.memBlock with
  | none => exact Unmoved.refl pdu
  | some mem =>
    have planned := planSegment_unmoved pdu mem nbBytes
    simp only
    split
    · exact Unmoved.refl pdu
    · generalize planSegment pdu mem nbBytes = plan at planned
      obtain ⟨slot, segment⟩ := plan
      cases segment with
      | none => exact planned
      | some segment =>
        cases allocated with
        | false => exact planned
        | true => exact planned.trans (updateHoles_unmoved slot segment.payloadSize)

theorem retransmitAt_tried (tx : Tx) (sn : Nat) (allocated : Bool) :
    (∃ (tx' : Tx) (pdu : TxPdu), tx'.txDataPduBuffer = tx.txDataPduBuffer ∧
        (retransmitAt tx sn allocated).1 = tx'.setPdu sn pdu ∧
      Tried tx.maxRetxThreshold (retransmitAt tx sn allocated).2.isSome (tx.pdu sn) pdu) ∨
    retransmitAt tx sn allocated = (tx, none) := by
  have marked (above : ¬ (tx.pdu sn).retxCountNext ≤ tx.maxRetxThreshold) :
      Tried tx.maxRetxThreshold false (tx.pdu sn) { tx.pdu sn with maxRetransmit := true } :=
    ⟨rfl, rfl, Or.inr ⟨rfl, Int.lt_of_not_ge above⟩, nofun⟩
  unfold retransmitAt
  simp only
  split
  · rename_i due
    -- what an emission needs was checked on the way
    have sent {pdu : TxPdu} (below : (tx.pdu sn).retxCountNext ≤ tx.maxRetxThreshold)
      (same : Unmoved (tx.pdu sn) pdu)
        (given : Bool) : Tried tx.maxRetxThreshold given (tx.pdu sn) pdu :=
      ⟨same.count, same.next, Or.inl same.mark, fun _ => ⟨due.2.1, same.mark.trans due.2.1, below⟩⟩
    split
    · unfold retransmitWhole
      simp only
      split
      · rename_i below
        split
        · refine Or.inl ⟨_, _, ?_, rfl, ?_⟩
          · rfl
          · apply sent below
            exact ⟨rfl, rfl, rfl⟩
        · exact Or.inr rfl
      · rename_i above
        exact Or.inl ⟨tx, _, rfl, rfl, marked above⟩
    · split
      · unfold retransmitSegment
        split
        · rename_i below
          have same := retransmitGetAmSegment_unmoved (tx.pdu sn) tx.nbBytesRequestedByMac allocated
          generalize retransmitGetAmSegment (tx.pdu sn) tx.nbBytesRequestedByMac
            allocated = result at same
          obtain ⟨pdu, emitted⟩ := result
          cases emitted with
          | none => exact Or.inl ⟨tx, pdu, rfl, rfl, sent below same _⟩
          | some out =>
            simp only
            split
            · exact Or.inl ⟨tx, pdu, rfl, rfl, sent below same _⟩
            · split
              all_goals
                refine Or.inl ⟨_, _, ?_, rfl, ?_⟩
                · rfl
                · apply sent below
                  exact ⟨same.count, same.next, same.mark⟩
        · rename_i above
          exact Or.inl ⟨tx, _, rfl, rfl, marked above⟩
      · exact Or.inr rfl
  · exact Or.inr rfl

/-- What a search does to a slot; when its PDU is sent again, the pending count becomes the
count. -/
structure Searched (threshold : Nat) (again : Prop) (before after : TxPdu) : Prop where
  count : after.retxCount = before.retxCount ∨ again ∧ after.retxCount = before.retxCountNext
  next : after.retxCountNext = before.retxCountNext
  mark : after.maxRetransmit = before.maxRetransmit ∨ after.maxRetransmit = true ∧
    threshold < before.retxCountNext
  spared : again → before.maxRetransmit = false ∧ before.retxCountNext ≤ threshold

theorem Searched.refl (threshold : Nat) (pdu : TxPdu) {again : Prop} (other : ¬ again) :
    Searched threshold again pdu pdu :=
  ⟨Or.inl rfl, rfl, Or.inl rfl, fun given => absurd given other⟩

theorem Searched.after_try {threshold : Nat} {again : Prop} {a b c : TxPdu}
    (tried : Tried threshold false a b)
    (right : Searched threshold again b c) : Searched threshold again a c where
  count := by
    rw [← tried.count, ← tried.next]
    exact right.count
  next := right.next.trans tried.next
  mark := by
    rcases right.mark with same | marked
    · rw [same]
      exact tried.mark
    · rw [tried.next] at marked
      exact Or.inr marked
  spared given := by
    obtain ⟨unmarked, below⟩ := right.spared given
    rw [tried.next] at below
    refine ⟨?_, below⟩
    rcases tried.mark with same | ⟨marked, -⟩
    · exact same.symm.trans unmarked
    · rw [marked] at unmarked
      cases unmarked

theorem Tx.setPdu_slot (tx : Tx) (sn : Nat) (pdu : TxPdu) :
    (tx.setPdu sn pdu).txDataPduBuffer (sn % windowSize) = pdu := by
  simp only [Tx.setPdu, Function.update_self]

theorem Tx.setPdu_other (tx : Tx) {sn i : Nat} (pdu : TxPdu) (other : i ≠ sn % windowSize) :
    (tx.setPdu sn pdu).txDataPduBuffer i = tx.txDataPduBuffer i := by
  simp only [Tx.setPdu, ne_eq, other, not_false_eq_true, Function.update_of_ne]

theorem searchRetransmit_searched (snEnd : Nat) (allocated : Bool) (now rounds sn : Nat)
    (tx : Tx) (i : Nat) :
    Searched tx.maxRetxThreshold
      (∃ picked ∈ resent snEnd allocated rounds sn tx, picked % windowSize = i)
      (tx.txDataPduBuffer i)
        ((searchRetransmit snEnd allocated now rounds sn tx).1.txDataPduBuffer i) := by
  induction rounds generalizing sn tx with
  | zero =>
    refine Searched.refl _ _ fun again => ?_
    obtain ⟨_, member, -⟩ := again
    cases member
  | succ rounds ih =>
    have tried := retransmitAt_tried tx sn allocated
    have threshold := (retransmitAt_samePoll tx sn allocated).threshold
    rw [searchRetransmit, resent]
    generalize retransmitAt tx sn allocated = result at tried threshold
    obtain ⟨next, emitted⟩ := result
    -- a slot behind the try, which gave nothing
    have passed (none : emitted = none) : Tried tx.maxRetxThreshold false (tx.txDataPduBuffer i)
        (next.txDataPduBuffer i) := by
      subst none
      have kept (same : next.txDataPduBuffer i = tx.txDataPduBuffer i) :
          Tried tx.maxRetxThreshold false (tx.txDataPduBuffer i) (next.txDataPduBuffer i) := by
        rw [same]
        exact ⟨rfl, rfl, Or.inl rfl, Bool.noConfusion⟩
      rcases tried with ⟨tx', pdu, same, stored, tried⟩ | idle
      · obtain rfl : next = tx'.setPdu sn pdu := stored
        by_cases here : i = sn % windowSize
        · subst here
          rw [Tx.setPdu_slot]
          exact tried
        · refine kept ?_
          rw [Tx.setPdu_other tx' pdu here, same]
      · cases idle
        exact kept rfl
    cases emitted with
    | none =>
      simp only
      split
      · have later := ih (nextSn sn) next
        rw [threshold] at later
        exact later.after_try (passed rfl)
      · refine Searched.after_try (passed rfl) (Searched.refl _ _ fun again => ?_)
        obtain ⟨_, member, -⟩ := again
        cases member
    | some out =>
      rcases tried with ⟨tx', pdu, same, stored, tried⟩ | idle
      · obtain rfl : next = tx'.setPdu sn pdu := stored
        have polled :=
          (pduPolling_sameWindow (tx'.setPdu sn pdu) (out.mem 0).toNat
          ((tx'.setPdu sn pdu).pdu sn).payloadSize
          false now).slots
        simp only
        generalize pduPolling (tx'.setPdu sn pdu) (out.mem 0).toNat
          ((tx'.setPdu sn pdu).pdu sn).payloadSize false now = sent
          at polled ⊢
        by_cases here : i = sn % windowSize
        · subst here
          rw [Tx.setPdu_slot, Tx.pdu, polled, Tx.setPdu_slot]
          obtain ⟨unmarked, still, below⟩ := tried.given rfl
          exact ⟨Or.inr ⟨⟨sn, rfl, rfl⟩, tried.next⟩, tried.next,
            Or.inl (still.trans unmarked.symm),
            fun _ => ⟨unmarked, below⟩⟩
        · rw [Tx.setPdu_other _ _ here, polled, Tx.setPdu_other _ _ here, same]
          refine Searched.refl _ _ ?_
          rintro ⟨picked, given, clash⟩
          cases given
          exact here clash.symm
      · cases idle

/-- The PDU that a call of `rlc_am_get_pdus` sends again. -/
def resentBy (tx : Tx) (allocated : Bool) : Option Nat :=
  if (tx.retransNumBytesToRetransmit ≠ 0 ∧ tx.nbBytesRequestedByMac > 2) ∧
      ¬ (tx.retransNumPdus ≤ 0 ∨ tx.vtA = tx.vtS) then
    resent tx.vtS allocated snModulo tx.vtA tx
  else
    none

structure Fresh (pdu : TxPdu) : Prop where
  count : pdu.retxCount = 0
  next : pdu.retxCountNext = 0
  mark : pdu.maxRetransmit = false

theorem firstPass_unmoved {pdu : TxPdu} (rounds : Nat) (s : FirstPass) (start : Unmoved pdu s.pdu) :
    Unmoved pdu (firstPass rounds s).pdu := by
  induction rounds generalizing s with
  | zero => exact start
  | succ rounds ih =>
    have linked :
        Unmoved pdu (s.fit (s.tx.inputSdus s.sduBufferIndex).sduRemainingSize).link.pdu := by
      simp only [FirstPass.link, fit_pdu]
      exact start.trans ⟨rfl, rfl, rfl⟩
    rw [firstPass]
    simp only
    split
    · split
      · exact linked
      · exact ih _ linked
    · exact start

theorem segment10_fresh (tx : Tx) (block : Option Memory) (copied : Bool) (now : Nat) :
    (segment10 tx block copied now).1 = tx ∨
    ∃ (filled : Tx) (pdu : TxPdu), filled.txDataPduBuffer = tx.txDataPduBuffer ∧ Fresh pdu ∧
      (segment10 tx block copied now).1 = filled.setPdu tx.vtS pdu := by
  unfold segment10
  split
  · exact Or.inl rfl
  · split
    · rename_i mem _
      split
      · right
        have filled := (fillPdu_sameWindow tx mem (dataPduSize tx).toNat).slots
        have made : Unmoved {} (fillPdu tx mem (dataPduSize tx).toNat).1.pdu :=
          firstPass_unmoved maxSduInPdu _ (Unmoved.refl _)
        rcases passes : fillPdu tx mem (dataPduSize tx).toNat with ⟨first, second, testNumLi⟩
        rw [passes] at filled made
        simp only [passes]
        generalize firstByte _ _ _ _ = b1
        have polled :=
          (pduPolling_sameWindow { second.tx with vtS := (tx.vtS + 1) % snModulo } b1
          second.payloadSize
          true now).slots
        generalize pduPolling _ b1 _ true now = out at polled
        refine ⟨out.1, _, polled.trans filled, ?_, rfl⟩
        exact ⟨made.count, made.next, made.mark⟩
      · exact Or.inl rfl
    · exact Or.inl rfl

/-- A slot behind a call: searched, or that of a new PDU. -/
theorem getPdus_searched (tx : Tx) (alloc : Allocation) (now i : Nat) :
    Searched tx.maxRetxThreshold (∃ picked ∈ resentBy tx alloc.allocated, picked % windowSize = i)
      (tx.txDataPduBuffer i) ((getPdus tx alloc now).1.txDataPduBuffer i) ∨
    tx.vtS ≠ tx.vtMs ∧ i = tx.vtS % windowSize ∧
    Fresh ((getPdus tx alloc now).1.txDataPduBuffer i) := by
  unfold getPdus
  generalize tried : (if tx.retransNumBytesToRetransmit ≠ 0 ∧ tx.nbBytesRequestedByMac > 2 then
    getPduToRetransmit tx alloc.allocated now else (tx, none)) = search
  have acks : Acks [] tx search.1 := by
    rw [← tried]
    split
    · exact getPduToRetransmit_acks tx alloc.allocated now
    · exact Acks.refl tx
  have searched :
    Searched tx.maxRetxThreshold (∃ picked ∈ resentBy tx alloc.allocated, picked % windowSize = i)
      (tx.txDataPduBuffer i) (search.1.txDataPduBuffer i) := by
    rw [← tried, resentBy]
    by_cases wanted : tx.retransNumBytesToRetransmit ≠ 0 ∧ tx.nbBytesRequestedByMac > 2
    · rw [if_pos wanted, getPduToRetransmit]
      by_cases idle : tx.retransNumPdus ≤ 0 ∨ tx.vtA = tx.vtS
      · rw [if_pos idle, if_neg fun both => both.2 idle]
        exact Searched.refl _ _ nofun
      · rw [if_neg idle, if_pos ⟨wanted, idle⟩]
        exact searchRetransmit_searched tx.vtS alloc.allocated now snModulo tx.vtA tx i
    · rw [if_neg wanted, if_neg fun both => wanted both.1]
      exact Searched.refl _ _ nofun
  obtain ⟨next, emitted⟩ := search
  cases emitted with
  | some out => exact Or.inl searched
  | none =>
    simp only
    split
    · rename_i room
      rcases segment10_fresh next alloc.block alloc.copied now
        with same | ⟨filled, pdu, slots, fresh, stored⟩
      · rw [same]
        exact Or.inl searched
      · rw [stored]
        by_cases here : i = next.vtS % windowSize
        · subst here
          rw [Tx.setPdu_slot]
          refine Or.inr ⟨?_, ?_, fresh⟩
          · rw [← acks.vtS, ← acks.vtMs]
            exact room.2.2
          · rw [acks.vtS]
        · rw [Tx.setPdu_other _ _ here, slots]
          exact Or.inl searched
    · exact Or.inl searched

theorem getPdus_threshold (tx : Tx) (alloc : Allocation) (now : Nat) :
    (getPdus tx alloc now).1.maxRetxThreshold = tx.maxRetxThreshold := by
  rcases getPdus_cases tx alloc now with ⟨-, -, -, -, ⟨-, reset⟩ | ⟨-, same⟩⟩ | ⟨-, -, same⟩ |
    ⟨filled, mem, payload, b1, pdu, same, -, -, -, -, result⟩
  · exact reset.threshold
  · exact same.threshold
  · exact same.threshold
  · rw [result]
    rcases pduPolling_new filled b1 payload now with ⟨-, reset, -⟩ | ⟨-, still, -⟩
    · exact reset.threshold.trans same.threshold
    · exact still.threshold.trans same.threshold

end Again

section Runs

/-- Whether an operation considers the PDU in a slot for retransmission: a NACK of a STATUS PDU
selects the slot, or the poll timer has run out and picks it. -/
def considers (tx : Tx) (slot : Nat) : TxOp → Bool
  | .receiveControlPdu mem tbSize =>
    (getControlPduInfos mem tbSize).info.nackList.any fun nack => nack.nackSn % windowSize == slot
  | .checkTimerPollRetransmit now => (timerPick tx now).any
      fun picked => picked % windowSize == slot
  | .dataReq _ _ _ => false
  | .getPdus _ _ _ => false

/-- Whether an operation sends the PDU in a slot again. -/
def resends (tx : Tx) (slot : Nat) : TxOp → Bool
  | .getPdus grant alloc _ =>
    (resentBy { tx with nbBytesRequestedByMac := grant } alloc.allocated).any
      fun picked => picked % windowSize == slot
  | _ => false

/-- How many operations of a run consider the PDU in a slot. -/
def considerations (slot : Nat) : Tx → List TxOp → Nat
  | _, [] => 0
  | tx, op :: rest =>
    (if considers tx slot op then 1 else 0) + (txStep tx op).elim 0
      fun tx => considerations slot tx rest

/-- What one operation does to the counters of a PDU. -/
structure Turn (threshold : Nat) (considered resent : Bool) (before after : TxPdu) : Prop where
  count : after.retxCount = before.retxCount ∨ resent = true ∧
    after.retxCount = before.retxCountNext
  next : after.retxCountNext = before.retxCountNext ∨
    considered = true ∧ before.retxCountNext = before.retxCount ∧ after.retxCountNext =
      before.retxCount + 1
  mark : after.maxRetransmit = before.maxRetransmit ∨ after.maxRetransmit = true ∧
    threshold < before.retxCountNext
  spared : resent = true → before.maxRetransmit = false ∧ before.retxCountNext ≤ threshold

theorem Turn.of_bumps {considered : Nat → Prop} {tx tx' : Tx} (bumps : Bumps considered tx tx')
    {slot : Nat} {chosen : Bool}
    (only : considered slot → chosen = true) :
    Turn tx.maxRetxThreshold chosen false (tx.txDataPduBuffer slot) (tx'.txDataPduBuffer slot) where
  count := Or.inl (bumps.each slot).count
  next := by
    by_cases here : considered slot
    · rcases (bumps.each slot).next with same | more
      · exact Or.inl same
      · exact Or.inr ⟨only here, more⟩
    · exact Or.inl (bumps.others slot here).next
  mark := Or.inl (bumps.each slot).mark
  spared := nofun

/-- One operation, in every slot: a turn, or a new PDU under VT(S). -/
theorem txStep_turn {tx tx' : Tx} (base : tx.vtA < snModulo) {op : TxOp}
    (stepped : txStep tx op = some tx') (slot : Nat) :
    Turn tx.maxRetxThreshold (considers tx slot op) (resends tx slot op) (tx.txDataPduBuffer slot)
      (tx'.txDataPduBuffer slot) ∨
    tx.vtS ≠ tx.vtMs ∧ slot = tx.vtS % windowSize ∧ Fresh (tx'.txDataPduBuffer slot) := by
  cases op with
  | dataReq bytes size mui =>
    obtain rfl := Option.some.inj stepped
    have slots := (dataReq_sameWindow tx bytes size mui).slots
    exact Or.inl (Turn.of_bumps (Bumps.of_slots slots : Bumps (fun _ => False) _ _) False.elim)
  | getPdus grant alloc now =>
    obtain rfl := Option.some.inj stepped
    rcases getPdus_searched { tx with nbBytesRequestedByMac := grant } alloc now slot
      with searched | fresh
    · left
      have same : (∃ picked ∈ resentBy { tx with nbBytesRequestedByMac := grant } alloc.allocated,
          picked % windowSize = slot) ↔ resends tx slot (.getPdus grant alloc now) = true := by
        simp only [resends, Option.any_eq_true, beq_iff_eq, Option.mem_def]
      rw [same] at searched
      exact ⟨searched.count, Or.inl searched.next, searched.mark, searched.spared⟩
    · exact Or.inr fresh
  | receiveControlPdu mem tbSize =>
    obtain ⟨result, ends, rfl⟩ := Option.map_eq_some_iff.mp stepped
    have bumps : Bumps (fun i => considers tx i (.receiveControlPdu mem tbSize) = true) tx
        result.tx := by
      refine receiveProcessControlPdu_bumps base ?_ ends
      intro nack member
      exact List.any_eq_true.mpr ⟨nack, member, beq_self_eq_true _⟩
    exact Or.inl (Turn.of_bumps bumps id)
  | checkTimerPollRetransmit now =>
    obtain rfl := Option.some.inj stepped
    have bumps : Bumps (fun i => considers tx i (.checkTimerPollRetransmit now) = true) tx
        (checkTimerPollRetransmit tx now) := by
      refine checkTimerPollRetransmit_bumps ?_
      intro picked given
      rw [considers, given]
      exact beq_self_eq_true _
    exact Or.inl (Turn.of_bumps bumps id)

/-- The counters of a PDU, which is marked only when it was sent again as often as allowed. -/
structure CountOk (threshold : Nat) (pdu : TxPdu) : Prop where
  le : pdu.retxCount ≤ pdu.retxCountNext
  near : pdu.retxCountNext ≤ pdu.retxCount + 1
  most : pdu.retxCount ≤ threshold
  marked : pdu.maxRetransmit = true → threshold < pdu.retxCountNext

theorem CountOk.turn {threshold : Nat} {considered resent : Bool} {before after : TxPdu}
    (ok : CountOk threshold before)
    (turn : Turn threshold considered resent before after) : CountOk threshold after := by
  obtain ⟨le, near, most, marked⟩ := ok
  have most' : after.retxCount ≤ threshold := by
    rcases turn.count with same | ⟨given, count⟩
    · rw [same]
      exact most
    · rw [count]
      exact (turn.spared given).2
  have bounds : after.retxCount ≤ after.retxCountNext ∧ after.retxCountNext ≤ after.retxCount + 1 ∧
      before.retxCountNext ≤ after.retxCountNext := by
    rcases turn.count with count | ⟨-, count⟩ <;> rcases turn.next
      with next | ⟨-, idle, next⟩ <;> omega
  refine ⟨bounds.1, bounds.2.1, most', fun given => ?_⟩
  have above : (threshold : Int) < before.retxCountNext := by
    rcases turn.mark with same | ⟨-, above⟩
    · exact marked (same.symm.trans given)
    · exact above
  exact above.trans_le bounds.2.2

theorem Fresh.countOk {pdu : TxPdu} (fresh : Fresh pdu) (threshold : Nat) :
    CountOk threshold pdu := by
  obtain ⟨count, next, mark⟩ := fresh
  refine ⟨?_, ?_, ?_, fun marked => ?_⟩
  · rw [count, next]
  · rw [count, next]
    decide
  · rw [count]
    exact Int.natCast_nonneg threshold
  · rw [mark] at marked
    cases marked

theorem txStep_threshold {tx tx' : Tx} {op : TxOp} (stepped : txStep tx op = some tx') :
    tx'.maxRetxThreshold = tx.maxRetxThreshold := by
  cases op with
  | dataReq bytes size mui =>
    obtain rfl := Option.some.inj stepped
    exact (dataReq_samePoll tx bytes size mui).threshold
  | getPdus grant alloc now =>
    obtain rfl := Option.some.inj stepped
    exact getPdus_threshold { tx with nbBytesRequestedByMac := grant } alloc now
  | receiveControlPdu mem tbSize =>
    obtain ⟨result, ends, rfl⟩ := Option.map_eq_some_iff.mp stepped
    exact (receiveProcessControlPdu_samePoll ends).threshold
  | checkTimerPollRetransmit now =>
    obtain rfl := Option.some.inj stepped
    unfold checkTimerPollRetransmit
    split
    · simp only
      split
      · generalize snModulo = rounds
        exact (forceRetransmit_samePoll (prevSn tx.vtA) rounds (prevSn tx.vtS) _).threshold
      · rfl
    · rfl

/-- The window, the limit and the counters in every slot. -/
structure RetxInv (threshold : Nat) (tx : Tx) : Prop where
  window : TxWindow tx
  limit : tx.maxRetxThreshold = threshold
  counts : ∀ slot, CountOk threshold (tx.txDataPduBuffer slot)

theorem txInit_retxInv (config : TxConfig) : RetxInv config.maxRetxThreshold (txInit config) where
  window := txInit_window config
  limit := rfl
  counts _ := Fresh.countOk ⟨rfl, rfl, rfl⟩ _

theorem txStep_retxInv {threshold : Nat} (tx : Tx) (op : TxOp) (inv : RetxInv threshold tx) :
    ∃ tx', txStep tx op = some tx' ∧ RetxInv threshold tx' := by
  obtain ⟨tx', stepped, window, -⟩ := txStep_window inv.window op
  refine ⟨tx', stepped, window, (txStep_threshold stepped).trans inv.limit, fun slot => ?_⟩
  rcases txStep_turn inv.window.vtA stepped slot with turn | ⟨-, -, fresh⟩
  · rw [inv.limit] at turn
    exact (inv.counts slot).turn turn
  · exact fresh.countOk threshold

theorem RetxInv.turn {threshold : Nat} {tx tx' : Tx} (inv : RetxInv threshold tx)
    {op : TxOp} {sn : Nat}
    (outstanding : tx.inFlight sn) (stepped : txStep tx op = some tx') :
    Turn threshold (considers tx (sn % windowSize) op) (resends tx (sn % windowSize) op) (tx.pdu sn)
      (tx'.pdu sn) := by
  rcases txStep_turn inv.window.vtA stepped (sn % windowSize) with turn | ⟨room, clash, -⟩
  · rw [inv.limit] at turn
    exact turn
  · exact absurd clash (inv.window.slot_apart room outstanding)

/-- What a run does to a PDU that stays in flight. -/
structure Outcome (tx tx' : Tx) (sn : Nat) (ops : List TxOp) : Prop where
  grows : (tx.pdu sn).retxCount ≤ (tx'.pdu sn).retxCount
  counted : (tx'.pdu sn).retxCountNext ≤ (tx.pdu sn).retxCountNext + considerations
    (sn % windowSize) tx ops
  spared : (tx.pdu sn).maxRetransmit = true →
    Meets txStep (fun tx op => resends tx (sn % windowSize) op = false) tx ops

theorem RetxInv.outcome {threshold : Nat} {tx : Tx} (inv : RetxInv threshold tx) {sn : Nat}
    {ops : List TxOp}
    (outstanding : Meets txStep (fun tx _ => tx.inFlight sn) tx ops) :
    ∃ tx', run txStep tx ops = some tx' ∧ RetxInv threshold tx' ∧ Outcome tx tx' sn ops := by
  induction ops generalizing tx with
  | nil => exact ⟨tx, rfl, inv, Int.le_refl _, Int.le_add_of_nonneg_right (Int.natCast_nonneg _),
      fun _ => trivial⟩
  | cons op rest ih =>
    obtain ⟨next, stepped, inv'⟩ := txStep_retxInv tx op inv
    obtain ⟨here, later⟩ := outstanding
    have turn := inv.turn here stepped
    obtain ⟨tx', ran, last, outcome⟩ := ih inv' (later next stepped)
    refine ⟨tx', by rw [run, stepped, Option.bind_some, ran], last, ?_, ?_, fun marked => ?_⟩
    · have le := (inv.counts (sn % windowSize)).le
      refine Int.le_trans ?_ outcome.grows
      rcases turn.count with same | ⟨-, count⟩
      · exact Int.le_of_eq same.symm
      · rw [count]
        exact le
    · have counted := outcome.counted
      rw [considerations, stepped]
      simp only [Option.elim_some]
      rcases turn.next with same | ⟨chosen, idle, next'⟩
      · rw [same] at counted
        split
        all_goals omega
      · rw [if_pos chosen]
        omega
    · -- the mark stays, and a marked PDU is not sent
      have kept : (next.pdu sn).maxRetransmit = true := by
        rcases turn.mark with same | ⟨still, -⟩
        · exact same.trans marked
        · exact still
      refine ⟨Bool.eq_false_iff.mpr fun given => ?_, fun after same => ?_⟩
      · have unmarked := (turn.spared given).1
        rw [marked] at unmarked
        cases unmarked
      · cases stepped.symm.trans same
        exact outcome.spared kept

theorem configReq_threshold {config : RlcConfigAm} {entity : TxConfig}
    (accepted : configReqRlcAmAsn1 config = some entity) :
    entity.maxRetxThreshold ≤ 32 := by
  have small : ∀ value ∈ maxRetxThresholdTab, value ≤ 32 := by decide
  have most : maxRetxThresholdTab.getD config.maxRetxThreshold 0 ≤ 32 := by
    rw [List.getD_eq_getElem?_getD]
    cases found : maxRetxThresholdTab[config.maxRetxThreshold]? with
    | none => exact Nat.zero_le 32
    | some value => exact small value (List.mem_of_getElem? found)
  unfold configReqRlcAmAsn1 at accepted
  split at accepted
  · cases accepted
    exact (Nat.mod_le _ _).trans most
  · cases accepted

/-- PDU 0 is reported missing, while up to 1 is acknowledged. -/
def zeroMissing : TxOp :=
  .receiveControlPdu
    (writeStatusPdu (fun _ => 0) { ackSn := 1, nackList := [⟨0, false, false, 0, 0x7FFF⟩] }).1 4

/-- A PDU of which one retransmission is allowed is reported missing twice. -/
def missingTwice : List TxOp :=
  [fiveByteSdu 0, sevenByteGrant, zeroMissing, sevenByteGrant, zeroMissing, sevenByteGrant]

end Runs

end OpenAir.Rlc.Am
