import OpenAir.Rlc.Am.RetxAccount

/-! The account of retransmissions over whole runs of the transmitting side. -/
namespace OpenAir.Rlc.Am
open BitField Serial

section NewPdu

/-- The first pass leaves room for a byte of data, also when it gives back an indicator. -/
structure RoomLeft (s : FirstPass) : Prop where
  left : s.testRemainingSizeToSubstract < s.pduRemainingSize
  going : s.continueFill = true →
    0 < s.testPduRemainingSize ∧ s.testPduRemainingSize + s.testRemainingSizeToSubstract ≤
      s.pduRemainingSize

theorem fit_roomLeft {s : FirstPass} (room : RoomLeft s) (going : s.continueFill = true)
    {remaining : Nat}
    (some : 0 < remaining) : RoomLeft (s.fit remaining) := by
  obtain ⟨test, within⟩ := room.going going
  have stops {reduce : Nat} (less : reduce < s.pduRemainingSize) : RoomLeft (s.stop reduce) :=
    ⟨Nat.sub_pos_of_lt less, nofun⟩
  unfold FirstPass.fit
  simp only
  split
  · exact stops (by omega)
  · split
    · exact stops (by omega)
    · split
      · exact stops (by omega)
      · split
        · split
          · exact stops (by omega)
          · refine ⟨?_, fun _ => ⟨?_, ?_⟩⟩ <;> simp only <;> omega
        · exact stops (by omega)

theorem link_sdusOk {s : FirstPass} (sdus : SdusOk s.tx) : SdusOk s.link.tx := by
  intro i
  by_cases here : i = s.sduBufferIndex
  · subst here
    simpa [FirstPass.link, Tx.setSdu] using sdus s.sduBufferIndex
  · simpa [FirstPass.link, Tx.setSdu, here] using sdus i

theorem firstPass_roomLeft (rounds : Nat) {s : FirstPass} (room : RoomLeft s) (sdus : SdusOk s.tx) :
    RoomLeft (firstPass rounds s) ∧ SdusOk (firstPass rounds s).tx := by
  induction rounds generalizing s with
  | zero => exact ⟨room, sdus⟩
  | succ rounds ih =>
    rw [firstPass]
    simp only
    split
    · rename_i more
      have fitted := fit_roomLeft room more.2 (sdus _ more.1)
      have linkedRoom : RoomLeft (s.fit (s.tx.inputSdus s.sduBufferIndex).sduRemainingSize).link :=
        ⟨fitted.left, fitted.going⟩
      have linked : SdusOk (s.fit (s.tx.inputSdus s.sduBufferIndex).sduRemainingSize).link.tx :=
        link_sdusOk (by rw [fit_tx]; exact sdus)
      split
      · exact ⟨linkedRoom, linked⟩
      · exact ih ⟨linkedRoom.left, linkedRoom.going⟩ linked
    · exact ⟨room, sdus⟩

theorem freeInSduData_sdusOk {tx : Tx} (sdus : SdusOk tx) (index : Nat) :
    SdusOk (freeInSduData tx index) := by
  unfold freeInSduData
  split
  · intro i
    by_cases here : i = index
    · subst here
      simp [Tx.setSdu]
    · simpa [Tx.setSdu, here] using sdus i
  · exact sdus

/-- One SDU of the second pass: data is added, and what stays of the SDU has bytes. -/
theorem fill_sdusOk {s : SecondPass} (sdus : SdusOk s.tx) (testNumLi : Nat) (bytes : Memory) :
    SdusOk (s.fill testNumLi bytes).tx := by
  have finished (size : Nat) : SdusOk (s.copy bytes size).finishSdu.tx :=
    freeInSduData_sdusOk (show SdusOk (s.copy bytes size).tx from sdus) s.tx.currentSduIndex
  unfold SecondPass.fill
  simp only
  split
  · rename_i more
    intro i
    by_cases here : i = s.tx.currentSduIndex
    · subst here
      intro _
      simpa [Tx.setSdu] using more
    · simpa [Tx.setSdu, SecondPass.copy, here] using sdus i
  · split
    · exact finished _
    · split
      · split
        · exact finished _
        · refine freeInSduData_sdusOk ?_ _
          rw [writeLi_tx]
          exact sdus
      · exact finished _

theorem fill_payload (s : SecondPass) (testNumLi : Nat) (bytes : Memory) :
    s.payloadSize + min (s.tx.inputSdus s.tx.currentSduIndex).sduRemainingSize s.pduRemainingSize ≤
      (s.fill testNumLi bytes).payloadSize := by
  have written (size : Nat) : ((s.copy bytes size).writeLi testNumLi size).payloadSize =
      s.payloadSize + size := by
    unfold SecondPass.writeLi
    simp only
    split <;> rfl
  unfold SecondPass.fill
  simp only
  split
  · exact Nat.add_le_add_left (Nat.min_le_right _ _) _
  · split
    · exact Nat.add_le_add_left (Nat.min_le_left _ _) _
    · split
      · split
        · exact Nat.add_le_add_left (Nat.min_le_left _ _) _
        · show _ ≤ ((s.copy bytes _).writeLi testNumLi _).payloadSize
          rw [written]
          exact Nat.add_le_add_left (Nat.min_le_left _ _) _
      · exact Nat.add_le_add_left (Nat.min_le_left _ _) _

theorem secondPass_data (testNumLi rounds : Nat) {s : SecondPass} (sdus : SdusOk s.tx) :
    SdusOk (secondPass testNumLi rounds s).tx ∧
    s.payloadSize ≤ (secondPass testNumLi rounds s).payloadSize := by
  induction rounds generalizing s with
  | zero => exact ⟨sdus, Nat.le_refl _⟩
  | succ rounds ih =>
    rw [secondPass]
    split
    · rename_i bytes _
      split
      · obtain ⟨after, more⟩ := ih (fill_sdusOk sdus testNumLi bytes)
        have added := fill_payload s testNumLi bytes
        exact ⟨after, by omega⟩
      · exact ⟨sdus, Nat.le_refl _⟩
    · exact ⟨sdus, Nat.le_refl _⟩

theorem SameRetx.trans {a b c : Tx} (left : SameRetx a b) (right : SameRetx b c) : SameRetx a c :=
  ⟨right.pdus.trans left.pdus, right.bytes.trans left.bytes, right.slots.trans left.slots⟩

theorem firstPass_sameRetx {tx : Tx} (rounds : Nat) (s : FirstPass) (start : SameRetx tx s.tx) :
    SameRetx tx (firstPass rounds s).tx := by
  induction rounds generalizing s with
  | zero => exact start
  | succ rounds ih =>
    have linked :
        SameRetx tx (s.fit (s.tx.inputSdus s.sduBufferIndex).sduRemainingSize).link.tx := by
      have fitted := start
      rw [← fit_tx s (s.tx.inputSdus s.sduBufferIndex).sduRemainingSize] at fitted
      exact ⟨fitted.pdus, fitted.bytes, fitted.slots⟩
    rw [firstPass]
    simp only
    split
    · split
      · exact linked
      · exact ih _ linked
    · exact start

theorem firstPass_idle (rounds : Nat) (s : FirstPass) : (firstPass rounds s).pdu.retransmit =
    s.pdu.retransmit ∧
    (firstPass rounds s).pdu.retxPayloadSize = s.pdu.retxPayloadSize := by
  induction rounds generalizing s with
  | zero => exact ⟨rfl, rfl⟩
  | succ rounds ih =>
    rw [firstPass]
    simp only
    split
    · split
      · simp only [FirstPass.link, fit_pdu, and_self]
      · rw [(ih _).1, (ih _).2]
        simp only [FirstPass.link, fit_pdu, and_self]
    · exact ⟨rfl, rfl⟩

theorem freeInSduData_sameRetx (tx : Tx) (index : Nat) : SameRetx tx (freeInSduData tx index) := by
  unfold freeInSduData
  split <;> exact ⟨rfl, rfl, rfl⟩

theorem finishSdu_sameRetx (s : SecondPass) : SameRetx s.tx s.finishSdu.tx := by
  obtain ⟨pdus, bytes, slots⟩ := freeInSduData_sameRetx s.tx s.tx.currentSduIndex
  exact ⟨pdus, bytes, slots⟩

theorem fill_sameRetx (s : SecondPass) (testNumLi : Nat) (bytes : Memory) :
    SameRetx s.tx (s.fill testNumLi bytes).tx := by
  have copied (size : Nat) : SameRetx s.tx (s.copy bytes size).tx := ⟨rfl, rfl, rfl⟩
  have finished (size : Nat) := (copied size).trans (finishSdu_sameRetx (s.copy bytes size))
  unfold SecondPass.fill
  simp only
  split
  · exact ⟨rfl, rfl, rfl⟩
  · split
    · exact finished _
    · split
      · split
        · exact finished _
        · have written := finishSdu_sameRetx
            ((s.copy bytes (s.tx.inputSdus s.tx.currentSduIndex).sduRemainingSize).writeLi testNumLi
              (s.tx.inputSdus s.tx.currentSduIndex).sduRemainingSize)
          rw [writeLi_tx] at written
          exact (copied _).trans written
      · exact finished _

theorem secondPass_sameRetx {tx : Tx} (testNumLi rounds : Nat) (s : SecondPass)
    (start : SameRetx tx s.tx) :
    SameRetx tx (secondPass testNumLi rounds s).tx := by
  induction rounds generalizing s with
  | zero => exact start
  | succ rounds ih =>
    rw [secondPass]
    split
    · rename_i bytes _
      split
      · exact ih _ (start.trans (fill_sameRetx s testNumLi bytes))
      · exact start
    · exact start

/-- A new PDU has data: there is room behind the header, and the current SDU has bytes. -/
theorem fillReserved_data {tx : Tx} (sdus : SdusOk tx)
    (head : (tx.inputSdus tx.currentSduIndex).memBlock.isSome)
    (room : 0 < pduRoom tx) (block : Memory) :
    SdusOk (fillReserved tx block).tx ∧ 0 < (fillReserved tx block).payloadSize := by
  have start : RoomLeft (reserveStart tx) := ⟨room, fun _ => ⟨room, Nat.le_refl _⟩⟩
  obtain ⟨reserved, sdus⟩ := firstPass_roomLeft maxSduInPdu start sdus
  have left : 0 < (reserve tx).result.2 := by
    have := reserved.left
    unfold FirstPass.result
    split
    · exact Nat.sub_pos_of_lt this
    · exact Nat.lt_of_le_of_lt (Nat.zero_le _) this
  refine ⟨(secondPass_data _ maxSduInPdu sdus).1, ?_⟩
  have linked := reserve_linked tx
  have same : ((fillStart tx block).tx.inputSdus (fillStart tx block).tx.currentSduIndex).memBlock =
      (tx.inputSdus tx.currentSduIndex).memBlock := by
    obtain ⟨more, after⟩ := linked.sdus (reserve tx).tx.currentSduIndex
    show ((reserve tx).tx.inputSdus (reserve tx).tx.currentSduIndex).memBlock = _
    rw [after, linked.current]
  obtain ⟨bytes, first⟩ := Option.isSome_iff_exists.mp (same ▸ head)
  have remaining :=
    sdus _ (show ((reserve tx).tx.inputSdus (reserve tx).tx.currentSduIndex).memBlock.isSome from
    same ▸ head)
  -- the first round adds data, and no later round takes any away
  have round : fillReserved tx block = secondPass (reserve tx).result.1 (maxSduInPdu - 1)
      ((fillStart tx block).fill (reserve tx).result.1 bytes) := by
    rw [fillReserved, show maxSduInPdu = maxSduInPdu - 1 + 1 from rfl, secondPass, first]
    rfl
  have added := fill_payload (fillStart tx block) (reserve tx).result.1 bytes
  have later := (secondPass_data (reserve tx).result.1 (maxSduInPdu - 1)
    (fill_sdusOk (s := fillStart tx block) sdus (reserve tx).result.1 bytes)).2
  rw [← round] at later
  have pieces : 0 < min ((reserve tx).tx.inputSdus (reserve tx).tx.currentSduIndex).sduRemainingSize
      (reserve tx).result.2 := Nat.lt_min.mpr ⟨remaining, left⟩
  have added : 0 + min ((reserve tx).tx.inputSdus (reserve tx).tx.currentSduIndex).sduRemainingSize
      (reserve tx).result.2 ≤ ((fillStart tx block).fill (reserve tx).result.1 bytes).payloadSize :=
        added
  omega

/-- A call of the segmentation changes nothing, or stores a slot with data and nothing
pending under VT(S). -/
theorem segment10_account {tx : Tx} (sdus : SdusOk tx) (grant : 2 < tx.nbBytesRequestedByMac)
    (block : Option Memory) (copied : Bool) (now : Nat) :
    (segment10 tx block copied now).1 = tx ∨
    ∃ filled pdu, SameRetx tx filled ∧ SdusOk filled ∧ pdu.retransmit = false ∧
      pdu.retxPayloadSize = 0 ∧
      0 < pdu.payloadSize ∧ (segment10 tx block copied now).1 = filled.setPdu tx.vtS pdu := by
  unfold segment10
  split
  · exact Or.inl rfl
  · rename_i occupied
    split
    · rename_i bytes mem head
      split
      · right
        obtain ⟨room, -, -⟩ := pduRoom_eq grant (Int.lt_of_not_ge occupied)
        obtain ⟨after, data⟩ := fillReserved_data sdus (by rw [head]; rfl) room mem
        have idle := firstPass_idle maxSduInPdu (reserveStart tx)
        have same : SameRetx tx (fillReserved tx mem).tx :=
          secondPass_sameRetx _ maxSduInPdu _ (firstPass_sameRetx maxSduInPdu _ ⟨rfl, rfl, rfl⟩)
        simp only [fillPdu_eq]
        generalize firstByte _ _ _ _ = b1
        obtain ⟨polled, polledSdus⟩ := pduPolling_sameRetx
          { (fillReserved tx mem).tx with vtS := (tx.vtS + 1) % snModulo } b1
            (fillReserved tx mem).payloadSize true now
        generalize pduPolling _ b1 _ true now = out at polled polledSdus
        refine ⟨out.1, _, ?_, ?_, ?_, ?_, ?_, rfl⟩
        · exact ⟨polled.pdus.trans same.pdus, polled.bytes.trans same.bytes,
            polled.slots.trans same.slots⟩
        · rw [SdusOk, polledSdus]
          exact after
        · exact idle.1
        · exact idle.2
        · exact Int.ofNat_lt.mpr data
      · exact Or.inl rfl
    · exact Or.inl rfl

end NewPdu

theorem dataReq_ok {tx : Tx} (ok : RetxOk tx) (bytes : Memory) {size : Nat}
    (some : 0 < size) (mui : Nat) :
    RetxOk (dataReq tx bytes size mui) := by
  unfold dataReq
  simp only
  split
  · refine ok.of_same ⟨rfl, rfl, rfl⟩ fun i => ?_
    by_cases here : i = tx.nextSduIndex
    · subst here
      intro _
      simpa [Tx.setSdu] using some
    · simpa [Tx.setSdu, here] using ok.sdus i
  · exact ok

/-- While the window is not full, no SN in flight uses the slot of VT(S). -/
theorem TxWindow.slot_apart {tx : Tx} (window : TxWindow tx) (room : tx.vtS ≠ tx.vtMs) {sn : Nat}
    (inside : tx.inFlight sn) :
    sn % windowSize ≠ tx.vtS % windowSize := by
  intro clash
  have base := window.vtA
  have ordered := window.ordered
  have limit : (tx.vtA + windowSize) % snModulo < snModulo := Nat.mod_lt _ (by decide)
  have short : diffSn tx.vtS tx.vtA < windowSize := by
    rw [window.vtMs, diffSn_vtMs base] at ordered
    rcases Nat.lt_or_eq_of_le ordered with short | full
    · exact short
    · have arrived := dist_inj base window.vtS limit (full.trans (diffSn_vtMs base).symm)
      exact absurd (arrived.trans window.vtMs.symm) room
  obtain ⟨valid, before⟩ := inside
  have equal := slot_inj base valid window.vtS (before.trans short) short clash
  rw [equal] at before
  exact Nat.lt_irrefl _ before

theorem TxWindow.slot_free {tx : Tx} (window : TxWindow tx) (room : tx.vtS ≠ tx.vtMs) :
    (tx.pdu tx.vtS).memBlock = none := window.free _ fun _ inside => window.slot_apart room inside

/-- A new PDU goes to a slot without a block, so with nothing pending. -/
theorem getPdus_ok {tx : Tx} (ok : RetxOk tx) (window : TxWindow tx) (grant : Int)
    (alloc : Allocation) (now : Nat) :
    RetxOk (getPdus { tx with nbBytesRequestedByMac := grant } alloc now).1 := by
  have granted : Acks [] tx { tx with nbBytesRequestedByMac := grant } :=
    SameWindow.acks ⟨rfl, rfl, rfl, rfl⟩
  have start : RetxOk { tx with nbBytesRequestedByMac := grant } :=
    ok.of_same ⟨rfl, rfl, rfl⟩ ok.sdus
  generalize { tx with nbBytesRequestedByMac := grant } = start' at granted start
  unfold getPdus
  generalize tried :
      (if start'.retransNumBytesToRetransmit ≠ 0 ∧ start'.nbBytesRequestedByMac > 2 then
    getPduToRetransmit start' alloc.allocated now else (start', none)) = search
  have searched : RetxOk search.1 ∧ Acks [] tx search.1 := by
    rw [← tried]
    split
    · exact ⟨getPduToRetransmit_ok start alloc.allocated now,
        granted.trans (getPduToRetransmit_acks start' alloc.allocated now)⟩
    · exact ⟨start, granted⟩
  obtain ⟨next, emitted⟩ := search
  obtain ⟨okNext, acks⟩ := searched
  cases emitted with
  | some out => exact okNext
  | none =>
    simp only
    split
    · rename_i room
      rcases segment10_account okNext.sdus room.1 alloc.block alloc.copied now with
        none | ⟨filled, pdu, same, sdus, clear, idle, payload, result⟩
      · rw [none]
        exact okNext
      · rw [result]
        have after := okNext.of_same same sdus
        refine after.store_idle ?_ clear idle fun _ => payload
        -- the slot of VT(S) belongs to no SN in flight
        have empty := (window.of_acks acks).slot_free room.2.2
        have unused : (filled.pdu next.vtS).memBlock = none := by
          rw [Tx.pdu, same.slots]
          exact empty
        by_contra pending
        have flagged := ((after.pdu next.vtS).flagged (by simpa using pending)).1
        rw [unused] at flagged
        cases flagged
    · exact okNext

section Status

/-- A NACK that the walk takes up next for a byte range is for a PDU that is not
acknowledged. -/
def Walk.NackFresh (w : Walk) : Prop :=
  ∀ nack ∈ w.pending.head?, w.snCursor = nack.nackSn → byteRange nack.soStart nack.soEnd →
    (w.tx.pdu nack.nackSn).ack = false

/-- The states of the walk before each of its rounds. -/
def visited (ackSn : Nat) : Nat → Walk → List Walk
  | 0, _ => []
  | rounds + 1, w =>
    if w.snCursor = ackSn ∨ w.status = false then []
    else
      match walkStep ackSn w with
      | (true, _) => [w]
      | (false, next) => w :: visited ackSn rounds next

/-- The rounds of the walk that a STATUS PDU makes behind its first NACK. -/
def statusRounds (tx : Tx) (info : ControlPduInfo) : List Walk :=
  match info.nackList with
  | [] => []
  | nack :: _ =>
    match ackUntil nack.nackSn snModulo ⟨tx, tx.vtA, [], info.nackList, 0x3FFF, true⟩ with
    | some first => visited info.ackSn (snModulo + info.nackList.length) first
    | none => []

theorem ackUntil_ok {stop rounds : Nat} {w last : Walk} (ok : RetxOk w.tx)
    (ends : ackUntil stop rounds w = some last) : RetxOk last.tx := by
  induction rounds generalizing w with
  | zero =>
    rw [ackUntil] at ends
    split at ends
    · cases ends
      exact ok
    · cases ends
  | succ rounds ih =>
    rw [ackUntil] at ends
    split at ends
    · cases ends
      exact ok
    · exact ih (ackPdu_ok ok w.snCursor true) ends

theorem walkStep_ok (ackSn : Nat) {w : Walk} (ok : RetxOk w.tx) (fresh : w.NackFresh) :
    RetxOk (walkStep ackSn w).2.tx := by
  have acked : RetxOk (w.ack false).tx := ackPdu_ok ok w.snCursor false
  have moves {v : Walk} (okV : RetxOk v.tx) (goes : Prop) [Decidable goes] :
      RetxOk (if goes then v.next else v).tx := by
    split <;> exact okV
  unfold walkStep
  cases list : w.pending with
  | nil =>
    refine moves ?_ _
    split
    · exact acked
    · exact ok
  | cons nack rest =>
    simp only
    split
    · exact moves acked _
    · rename_i here
      have here : w.snCursor = nack.nackSn := by simpa using here
      have nacked := nackPdu_ok ok nack.nackSn w.prevNackSn nack.soStart nack.soEnd
        (fresh nack (by rw [list]; rfl) here)
      split
      · exact nacked
      · exact moves (v := { w with
          tx := (nackPdu w.tx nack.nackSn w.prevNackSn nack.soStart nack.soEnd).2
          status := (nackPdu w.tx nack.nackSn w.prevNackSn nack.soStart nack.soEnd).1
          prevNackSn := nack.nackSn
          pending := rest }) nacked _

theorem walkUntil_ok {ackSn rounds : Nat} {w last : Walk} (ok : RetxOk w.tx)
    (fresh : ∀ v ∈ visited ackSn rounds w, v.NackFresh)
    (ends : walkUntil ackSn rounds w = some last) :
    RetxOk last.tx := by
  induction rounds generalizing w with
  | zero =>
    rw [walkUntil] at ends
    split at ends
    · cases ends
      exact ok
    · cases ends
  | succ rounds ih =>
    rw [walkUntil] at ends
    rw [visited] at fresh
    split at ends
    · cases ends
      exact ok
    · rename_i going
      rw [if_neg going] at fresh
      have here : w.NackFresh := fresh w (by split <;> exact List.mem_cons_self)
      have stepped := walkStep_ok ackSn ok here
      generalize walkStep ackSn w = result at ends fresh stepped
      obtain ⟨broke, next⟩ := result
      cases broke with
      | true =>
        cases ends
        exact stepped
      | false => exact ih stepped (fun v member => fresh v (List.mem_cons_of_mem _ member)) ends

theorem walkWindow_ok {tx : Tx} (ok : RetxOk tx) {info : ControlPduInfo}
    (fresh : ∀ v ∈ statusRounds tx info, v.NackFresh) {r : WalkResult}
    (ends : walkWindow tx info = some r) :
    RetxOk r.tx := by
  unfold walkWindow at ends
  unfold statusRounds at fresh
  cases list : info.nackList with
  | nil =>
    simp only [list, Option.map_eq_some_iff] at ends
    obtain ⟨last, walked, rfl⟩ := ends
    exact ackUntil_ok ok walked
  | cons nack rest =>
    simp only [list, Option.bind_eq_some_iff, Option.map_eq_some_iff] at ends
    obtain ⟨first, arrived, last, walked, rfl⟩ := ends
    simp only [list, arrived] at fresh
    exact walkUntil_ok (ackUntil_ok ok arrived) fresh walked

theorem skipConfirmed_same (rounds : Nat) (tx : Tx) :
    SameRetx tx (skipConfirmed rounds tx) ∧ (skipConfirmed rounds tx).inputSdus = tx.inputSdus := by
  induction rounds generalizing tx with
  | zero => exact ⟨⟨rfl, rfl, rfl⟩, rfl⟩
  | succ rounds ih =>
    rw [skipConfirmed]
    split
    · obtain ⟨⟨pdus, bytes, slots⟩, sdus⟩ := ih _
      exact ⟨⟨pdus, bytes, slots⟩, sdus⟩
    · exact ⟨⟨rfl, rfl, rfl⟩, rfl⟩

theorem freeInSdu_ok {tx : Tx} (ok : RetxOk tx) (index : Nat) : RetxOk (freeInSdu tx index) := by
  have cleared :
      RetxOk ({ tx with nbSdu := tx.nbSdu - 1 }.setSdu index
      { transmittedSuccessfully := true }) := by
    refine ok.of_same ⟨rfl, rfl, rfl⟩ fun i => ?_
    by_cases here : i = index
    · subst here
      simp [Tx.setSdu]
    · simpa [Tx.setSdu, here] using ok.sdus i
  -- the current index moves on
  have skipped {after : Tx} (okAfter : RetxOk after) :
      RetxOk (skipConfirmed sduControlBufferSize after) := by
    obtain ⟨same, sdus⟩ := skipConfirmed_same sduControlBufferSize after
    exact okAfter.of_same same (by rw [SdusOk, sdus]; exact okAfter.sdus)
  unfold freeInSdu
  split
  · exact ok
  · refine skipped ?_
    split
    · exact cleared.of_same ⟨rfl, rfl, rfl⟩ cleared.sdus
    · exact cleared

theorem confirmSdu_ok {out : Tx × List Nat} (ok : RetxOk out.1) (index : Nat) :
    RetxOk (confirmSdu out index).1 := by
  have counted : RetxOk (out.1.setSdu index
      { out.1.inputSdus index with nbPdusAck := ((out.1.inputSdus index).nbPdusAck +
          1) % 256 }) := by
    refine ok.of_same ⟨rfl, rfl, rfl⟩ fun i => ?_
    by_cases here : i = index
    · subst here
      simpa [Tx.setSdu] using ok.sdus i
    · simpa [Tx.setSdu, here] using ok.sdus i
  unfold confirmSdu
  split
  · exact ok
  · dsimp only
    split
    · exact freeInSdu_ok counted index
    · exact counted

theorem pduSduDataCnf_ok {out : Tx × List Nat} (ok : RetxOk out.1)
    (sn : Nat) : RetxOk (pduSduDataCnf out sn).1 := by
  rw [pduSduDataCnf]
  generalize (out.1.pdu sn).sdusIndex.take (out.1.pdu sn).nbSdus.toNat = indices
  induction indices generalizing out with
  | nil => exact ok
  | cons index rest ih => exact ih (confirmSdu_ok ok index)

theorem confirmUntil_ok {stop rounds cursor : Nat} {out after : Tx × List Nat} (ok : RetxOk out.1)
    (ends : confirmUntil stop rounds cursor out = some after) : RetxOk after.1 := by
  induction rounds generalizing cursor out with
  | zero =>
    rw [confirmUntil] at ends
    split at ends
    · cases ends
      exact ok
    · cases ends
  | succ rounds ih =>
    rw [confirmUntil] at ends
    split at ends
    · cases ends
      exact ok
    · exact ih (pduSduDataCnf_ok ok cursor) ends

theorem finishControlPdu_ok {info : ControlPduInfo} {r : WalkResult} (ok : RetxOk r.tx)
    {out : Tx × List Nat}
    (ends : finishControlPdu info r = some out) : RetxOk out.1 := by
  have stopped : RetxOk (stopPolling r.tx info.ackSn) := by
    unfold stopPolling
    split
    · exact ok.of_same ⟨rfl, rfl, rfl⟩ ok.sdus
    · exact ok
  rw [finishControlPdu, Option.map_eq_some_iff] at ends
  obtain ⟨confirmed, ended, rfl⟩ := ends
  have okConfirmed : RetxOk confirmed.1 := by
    unfold confirmPdus at ended
    split at ended
    · rw [Option.map_eq_some_iff] at ended
      obtain ⟨before, until_, rfl⟩ := ended
      have okBefore := confirmUntil_ok stopped until_
      split
      · exact pduSduDataCnf_ok okBefore _
      · exact okBefore
    · cases ended
      exact stopped
  exact okConfirmed.of_same ⟨rfl, rfl, rfl⟩ okConfirmed.sdus

theorem receiveProcessControlPdu_ok {tx : Tx} (ok : RetxOk tx) {mem : Memory} {tbSize : Int}
    (fresh : ∀ v ∈ statusRounds tx (getControlPduInfos mem tbSize).info, v.NackFresh)
    {result : ControlResult}
    (ends : receiveProcessControlPdu tx mem tbSize = some result) : RetxOk result.tx := by
  rw [receiveProcessControlPdu] at ends
  split at ends
  · split at ends
    · cases ends
      exact ok
    · split at ends
      · rw [Option.bind_eq_some_iff] at ends
        obtain ⟨r, walked, ends⟩ := ends
        have okWalk := walkWindow_ok ok fresh walked
        split at ends
        · rw [Option.map_eq_some_iff] at ends
          obtain ⟨out, finished, rfl⟩ := ends
          exact finishControlPdu_ok okWalk finished
        · cases ends
          exact okWalk
      · cases ends
        exact ok
  · cases ends
    exact ok

end Status

/-- The inputs that keep the account: SDUs are not empty, a NACK for a byte range is for a
PDU that is not acknowledged, and the poll timer does not ask again for what is pending. -/
def RetxFresh (tx : Tx) : TxOp → Prop
  | .dataReq _ size _ => 0 < size
  | .getPdus _ _ _ => True
  | .receiveControlPdu mem tbSize =>
    ∀ w ∈ statusRounds tx (getControlPduInfos mem tbSize).info, w.NackFresh
  | .checkTimerPollRetransmit now => PollFresh tx now

theorem txStep_ok {tx : Tx} (window : TxWindow tx) (ok : RetxOk tx) {op : TxOp}
    (fresh : RetxFresh tx op) :
    ∃ tx', txStep tx op = some tx' ∧ TxWindow tx' ∧ RetxOk tx' := by
  obtain ⟨tx', stepped, window', -⟩ := txStep_window window op
  refine ⟨tx', stepped, window', ?_⟩
  cases op with
  | dataReq bytes size mui =>
    cases stepped
    exact dataReq_ok ok bytes fresh mui
  | getPdus grant alloc now =>
    cases stepped
    exact getPdus_ok ok window grant alloc now
  | receiveControlPdu mem tbSize =>
    obtain ⟨result, ends, rfl⟩ := Option.map_eq_some_iff.mp stepped
    exact receiveProcessControlPdu_ok ok fresh ends
  | checkTimerPollRetransmit now =>
    cases stepped
    exact checkTimerPollRetransmit_ok ok fresh

theorem txInit_ok (config : TxConfig) : RetxOk (txInit config) where
  counted := ⟨(Finset.sum_eq_zero fun _ _ => rfl).symm, (Finset.sum_eq_zero fun _ _ => rfl).symm⟩
  slots _ := slotOk_idle rfl rfl nofun
  sdus _ := nofun

/-- A STATUS PDU acknowledging up to 3 with the given NACKs. -/
def statusUpToThree (nacks : List NackSn) : Memory :=
  (writeStatusPdu (fun _ => 0) { ackSn := 3, nackList := nacks }).1

def fiveByteSdu (mui : Nat) : TxOp := .dataReq (fun _ => 0) 5 mui

def sevenByteGrant : TxOp := .getPdus 7 ⟨some fun _ => 0, true, true⟩ 0

/-- PDUs 0, 1 and 2 are sent; PDU 1 is acknowledged while PDU 0 is missing, then a byte range
of it is reported missing, then it is acknowledged again. -/
def ackedThenNacked : List TxOp :=
  [fiveByteSdu 0, fiveByteSdu 1, fiveByteSdu 2, sevenByteGrant, sevenByteGrant, sevenByteGrant,
    .receiveControlPdu (statusUpToThree [⟨0, false, false, 0, 0x7FFF⟩]) 4,
    .receiveControlPdu (statusUpToThree [⟨0, true, false, 0, 0x7FFF⟩, ⟨1, false, true, 0, 0⟩]) 9,
    .receiveControlPdu (statusUpToThree [⟨0, false, false, 0, 0x7FFF⟩]) 4]

instance (w : Walk) : Decidable w.NackFresh := by
  unfold Walk.NackFresh byteRange
  infer_instance

instance (tx : Tx) (now : Nat) : Decidable (PollFresh tx now) :=
  inferInstanceAs
    (Decidable (_ → _ → ∀ target ∈ forceTarget tx.pdu (prevSn tx.vtA) snModulo (prevSn tx.vtS), _))

instance (tx : Tx) : (op : TxOp) → Decidable (RetxFresh tx op)
  | .dataReq _ size _ => inferInstanceAs (Decidable (0 < size))
  | .getPdus _ _ _ => isTrue trivial
  | .receiveControlPdu mem tbSize =>
    inferInstanceAs
      (Decidable (∀ w ∈ statusRounds tx (getControlPduInfos mem tbSize).info, w.NackFresh))
  | .checkTimerPollRetransmit now => inferInstanceAs (Decidable (PollFresh tx now))

/-- Of three PDUs the second is reported missing and sent again, the poll timer runs out, and a
second STATUS PDU acknowledges all. -/
def nackedThenAcked : List TxOp :=
  [fiveByteSdu 0, fiveByteSdu 1, fiveByteSdu 2, sevenByteGrant, sevenByteGrant, sevenByteGrant,
    .receiveControlPdu (statusUpToThree [⟨1, false, false, 0, 0x7FFF⟩]) 4, sevenByteGrant,
    .checkTimerPollRetransmit 20, sevenByteGrant, .receiveControlPdu (statusUpToThree []) 2]

end OpenAir.Rlc.Am
