import OpenAir.Rlc.Am.NackRecord
import OpenAir.Rlc.Am.RetxRun

/-! A STATUS PDU that is refused, and what of it was applied before. -/
namespace OpenAir.Rlc.Am
open BitField Run Serial

section Ack

theorem ackPdu_unchanged {tx : Tx} {sn : Nat} {freePdu : Bool} (acked : (tx.pdu sn).Acked freePdu) :
    ackPdu tx sn freePdu = tx := by
  obtain ⟨ack, idle, freed, sent⟩ := acked
  have same : { tx.pdu sn with retransmit := false } = tx.pdu sn := by
    rw [← idle]
  have silent (quiet : (tx.pdu sn).transmitted = false) :
      { tx.pdu sn with ack := true, transmitted := false, retransmit := false } = tx.pdu sn := by
    generalize tx.pdu sn = p at ack idle quiet
    cases p
    dsimp only at ack idle quiet
    subst ack idle quiet
    rfl
  unfold ackPdu
  simp only [same]
  by_cases present : (tx.pdu sn).memBlock.isSome = true
  · have kept : freePdu = false := by
      cases freePdu with
      | false => rfl
      | true =>
        rw [freed rfl] at present
        cases present
    rw [if_pos present, kept]
    simp only [Bool.false_eq_true, if_false, if_pos ack]
    split
    · exact setPdu_pdu tx sn
    · rename_i empty
      rw [silent (sent.resolve_right fun both => empty both.2), setPdu_pdu]
  · rw [if_neg present, silent (sent.resolve_right fun both => present both.1), setPdu_pdu]

/-- What the walk does to a slot for good: an acknowledged PDU stays so, and a block or a PDU on its
way does not come back. While no PDU becomes acknowledged, none stops to be counted as pending,
either. -/
structure Drift (before after : Tx) : Prop where
  ack : ∀ i, (before.txDataPduBuffer i).ack = true → (after.txDataPduBuffer i).ack = true
  sent : ∀ i, (after.txDataPduBuffer i).transmitted = true →
    (before.txDataPduBuffer i).transmitted = true
  block : ∀ i, (after.txDataPduBuffer i).memBlock.isSome = true →
    (before.txDataPduBuffer i).memBlock.isSome = true
  pdus : (∀ i, (after.txDataPduBuffer i).ack = (before.txDataPduBuffer i).ack) →
    before.retransNumPdus ≤ after.retransNumPdus ∧ (after.retransNumPdus = before.retransNumPdus →
      ∀ i, (after.txDataPduBuffer i).retransmit = true →
        (before.txDataPduBuffer i).retransmit = true)

theorem Drift.refl (tx : Tx) : Drift tx tx :=
  ⟨fun _ => id, fun _ => id, fun _ => id, fun _ => ⟨Int.le_refl _, fun _ _ => id⟩⟩

theorem Drift.trans {a b c : Tx} (left : Drift a b) (right : Drift b c) : Drift a c where
  ack i given := right.ack i (left.ack i given)
  sent i given := left.sent i (right.sent i given)
  block i given := left.block i (right.block i given)
  pdus same := by
    -- what is the same at both ends is the same between
    have mid (i : Nat) : (b.txDataPduBuffer i).ack = (a.txDataPduBuffer i).ack := by
      cases before : (a.txDataPduBuffer i).ack with
      | true => exact left.ack i before
      | false =>
        cases between : (b.txDataPduBuffer i).ack with
        | false => rfl
        | true =>
          have after := (right.ack i between).symm.trans (same i)
          rw [before] at after
          cases after
    have last (i : Nat) : (c.txDataPduBuffer i).ack = (b.txDataPduBuffer i).ack :=
      (same i).trans (mid i).symm
    obtain ⟨le, still⟩ := left.pdus mid
    obtain ⟨le', still'⟩ := right.pdus last
    refine ⟨Int.le_trans le le', fun equal i given => ?_⟩
    have first : b.retransNumPdus = a.retransNumPdus := by omega
    have second : c.retransNumPdus = b.retransNumPdus := by omega
    exact still first i (still' second i given)

theorem Drift.store {tx tx' : Tx} {sn : Nat} {pdu : TxPdu}
    (same : tx'.txDataPduBuffer = tx.txDataPduBuffer)
    (ack : (tx.pdu sn).ack = true → pdu.ack = true)
    (sent : pdu.transmitted = true → (tx.pdu sn).transmitted = true)
    (block : pdu.memBlock.isSome = true → (tx.pdu sn).memBlock.isSome = true)
    (pdus : pdu.ack = (tx.pdu sn).ack → tx.retransNumPdus ≤ tx'.retransNumPdus ∧
      (tx'.retransNumPdus = tx.retransNumPdus → pdu.retransmit = true →
        (tx.pdu sn).retransmit = true)) :
    Drift tx (tx'.setPdu sn pdu) := by
  have slot (i : Nat) : i = sn % windowSize ∧ (tx'.setPdu sn pdu).txDataPduBuffer i = pdu ∧
        tx.txDataPduBuffer i = tx.pdu sn ∨
      (tx'.setPdu sn pdu).txDataPduBuffer i = tx.txDataPduBuffer i := by
    by_cases here : i = sn % windowSize
    · subst here
      exact Or.inl ⟨rfl, Function.update_self _ _ _, rfl⟩
    · rw [← same]
      exact Or.inr (Function.update_of_ne here _ _)
  refine ⟨fun i given => ?_, fun i given => ?_, fun i given => ?_, fun kept => ?_⟩
  · rcases slot i with ⟨-, stored, before⟩ | other
    · rw [stored]
      rw [before] at given
      exact ack given
    · rw [other]
      exact given
  · rcases slot i with ⟨-, stored, before⟩ | other
    · rw [stored] at given
      rw [before]
      exact sent given
    · rw [other] at given
      exact given
  · rcases slot i with ⟨-, stored, before⟩ | other
    · rw [stored] at given
      rw [before]
      exact block given
    · rw [other] at given
      exact given
  · have here : pdu.ack = (tx.pdu sn).ack := by
      have kept := kept (sn % windowSize)
      rw [show (tx'.setPdu sn pdu).txDataPduBuffer (sn % windowSize) = pdu
        from Function.update_self _ _ _] at kept
      exact kept
    obtain ⟨le, still⟩ := pdus here
    refine ⟨le, fun equal i given => ?_⟩
    rcases slot i with ⟨-, stored, before⟩ | other
    · rw [stored] at given
      rw [before]
      exact still equal given
    · rw [other] at given
      exact given

/-- The cases of an acknowledgement: the PDU is flagged, unless it was acknowledged before with
bytes pending. -/
theorem ackPdu_cases (tx : Tx) (sn : Nat) (freePdu : Bool) : ∃ (tx' : Tx)
    (mem : Option Memory) (pdu : TxPdu),
    tx'.txDataPduBuffer = tx.txDataPduBuffer ∧ ackPdu tx sn freePdu = tx'.setPdu sn pdu ∧
    pdu.memBlock = mem ∧
    (mem.isSome = true → (tx.pdu sn).memBlock.isSome = true) ∧ pdu.ack = true ∧
    pdu.retransmit = false ∧
    (pdu.transmitted = false ∨ pdu.transmitted = (tx.pdu sn).transmitted ∧
      (tx.pdu sn).memBlock.isSome = true ∧
      (tx.pdu sn).retxPayloadSize ≠ 0) ∧
    ((tx.pdu sn).ack = true → tx'.retransNumPdus = tx.retransNumPdus ∧
      ∃ sent, pdu = { tx.pdu sn with
        ack := true, memBlock := mem, retransmit := false, transmitted := sent }) := by
  unfold ackPdu
  simp only
  by_cases present : (tx.pdu sn).memBlock.isSome = true
  · simp only [if_pos present]
    -- the block may be given back, which changes nothing else
    have freed :
      ∃ mem, (if freePdu = true then { tx.pdu sn with retransmit := false, memBlock := none }
        else { tx.pdu sn with retransmit := false }) =
            { tx.pdu sn with retransmit := false, memBlock := mem } := by
      split
      · exact ⟨none, rfl⟩
      · exact ⟨(tx.pdu sn).memBlock, rfl⟩
    obtain ⟨mem, freed⟩ := freed
    rw [freed]
    simp only
    by_cases pending : (tx.pdu sn).retxPayloadSize ≠ 0
    · rw [if_pos pending]
      by_cases acked : (tx.pdu sn).ack = true
      · rw [if_pos acked]
        exact ⟨tx, mem, _, rfl, rfl, rfl,
          fun _ => present, acked, rfl, Or.inr ⟨rfl, present, pending⟩,
          fun _ => ⟨rfl, _, by rw [← acked]⟩⟩
      · rw [if_neg acked]
        refine ⟨_, mem, _, ?_, rfl, ?_,
          fun _ => present, ?_, ?_, Or.inl ?_, fun given => absurd given acked⟩
        all_goals rfl
    · rw [if_neg pending]
      exact ⟨tx, mem, _, rfl, rfl, rfl,
        fun _ => present, rfl, rfl, Or.inl rfl, fun _ => ⟨rfl, false, rfl⟩⟩
  · simp only [if_neg present]
    exact ⟨tx, (tx.pdu sn).memBlock, _, rfl, rfl, rfl, id, rfl, rfl, Or.inl rfl,
      fun _ => ⟨rfl, false, rfl⟩⟩

theorem ackPdu_drift (tx : Tx) (sn : Nat) (freePdu : Bool) : Drift tx (ackPdu tx sn freePdu) := by
  obtain ⟨tx', mem, pdu, slots, stored, block, kept, ack, idle, sent, again⟩ :=
    ackPdu_cases tx sn freePdu
  rw [stored]
  refine Drift.store slots (fun _ => ack) (fun given => ?_) (fun given => ?_) fun equal => ?_
  · rcases sent with quiet | ⟨same, -⟩
    · rw [quiet] at given
      cases given
    · rw [← same]
      exact given
  · rw [block] at given
    exact kept given
  · have acked := equal.symm.trans ack
    refine ⟨Int.le_of_eq (again acked).1.symm, fun _ given => ?_⟩
    rw [idle] at given
    cases given

/-- The fields that no NACK changes before the PDU is counted. -/
structure SameFlags (before after : TxPdu) : Prop where
  ack : after.ack = before.ack
  sent : after.transmitted = before.transmitted
  block : after.memBlock = before.memBlock
  retransmit : after.retransmit = before.retransmit

theorem nackRequest_sameFlags (pdu : TxPdu) (sn prevNackSn : Nat) (soStart soEnd : Int) :
    SameFlags pdu (nackRequest pdu sn prevNackSn soStart soEnd).2.pdu := by
  unfold nackRequest
  simp only
  repeat' split
  all_goals exact ⟨rfl, rfl, rfl, rfl⟩

theorem nackPdu_drift (tx : Tx) (sn prevNackSn : Nat) (soStart soEnd : Int) :
    Drift tx (nackPdu tx sn prevNackSn soStart soEnd).2 := by
  have asked := nackRequest_sameFlags (tx.pdu sn) sn prevNackSn soStart soEnd
  unfold nackPdu
  generalize nackRequest (tx.pdu sn) sn prevNackSn soStart soEnd = result at asked ⊢
  obtain ⟨status, request⟩ := result
  simp only at asked ⊢
  split
  · split
    · have counted :
          SameFlags (tx.pdu sn)
          (if request.retxCountIncrement ∧ request.pdu.retxCount = request.pdu.retxCountNext then
          { request.pdu with nack := true, retxCountNext := request.pdu.retxCountNext + 1 }
          else { request.pdu with nack := true }) := by
        split
        all_goals exact ⟨asked.ack, asked.sent, asked.block, asked.retransmit⟩
      generalize (if request.retxCountIncrement ∧ request.pdu.retxCount =
          request.pdu.retxCountNext then
          { request.pdu with nack := true, retxCountNext := request.pdu.retxCountNext + 1 }
          else { request.pdu with nack := true }) = pdu at counted ⊢
      have kept {tx' : Tx} {after : TxPdu} (same : tx'.txDataPduBuffer = tx.txDataPduBuffer)
          (flags : SameFlags (tx.pdu sn) after) (pdus : tx'.retransNumPdus = tx.retransNumPdus) :
          Drift tx (tx'.setPdu sn after) := by
        refine Drift.store same ?_ ?_ ?_ fun _ => ⟨?_, fun _ => ?_⟩
        · rw [flags.ack]
          exact id
        · rw [flags.sent]
          exact id
        · rw [flags.block]
          exact id
        · rw [pdus]
        · rw [flags.retransmit]
          exact id
      split
      · split
        · exact kept rfl ⟨counted.ack, counted.sent, counted.block, counted.retransmit⟩ rfl
        · split
          · exact kept rfl ⟨counted.ack, counted.sent, counted.block, counted.retransmit⟩ rfl
          · exact kept rfl counted rfl
      · refine Drift.store rfl ?_ ?_ ?_ fun _ => ⟨?_, fun equal => ?_⟩
        · simp only [counted.ack]
          exact id
        · simp only [counted.sent]
          exact id
        · simp only [counted.block]
          exact id
        · exact Int.le_add_of_nonneg_right (by decide)
        · have more : tx.retransNumPdus + 1 = tx.retransNumPdus := equal
          omega
    · refine Drift.store rfl ?_ ?_ ?_ fun _ => ⟨Int.le_refl _, fun _ => ?_⟩
      · simp only [asked.ack]
        exact id
      · simp only [asked.sent]
        exact id
      · simp only [asked.block]
        exact id
      · simp only [asked.retransmit]
        exact id
  · exact Drift.refl tx

/-- An acknowledgement in a walk that leaves all as it was found its PDU acknowledged. -/
theorem Drift.acked {tx last : Tx} {sn : Nat} {freePdu : Bool}
    (later : Drift (ackPdu tx sn freePdu) last)
    (slots : last.txDataPduBuffer = tx.txDataPduBuffer)
    (pdus : last.retransNumPdus = tx.retransNumPdus) :
    (tx.pdu sn).Acked freePdu := by
  obtain ⟨tx', mem, pdu, -, stored, -, -, ack, idle, sent, -⟩ := ackPdu_cases tx sn freePdu
  have slot : (ackPdu tx sn freePdu).pdu sn = pdu := by rw [stored, pdu_stored]
  have earlier := ackPdu_drift tx sn freePdu
  have same : last.pdu sn = tx.pdu sn := by rw [Tx.pdu, Tx.pdu, slots]
  have acks (i : Nat) : ((ackPdu tx sn freePdu).txDataPduBuffer i).ack =
      (tx.txDataPduBuffer i).ack := by
    cases before : (tx.txDataPduBuffer i).ack with
    | true => exact earlier.ack i before
    | false =>
      cases between : ((ackPdu tx sn freePdu).txDataPduBuffer i).ack with
      | false => rfl
      | true =>
        have after := later.ack i between
        rw [slots, before] at after
        cases after
  obtain ⟨le, -⟩ := earlier.pdus acks
  obtain ⟨le', still⟩ := later.pdus fun i => by rw [slots, acks i]
  have equal : last.retransNumPdus = (ackPdu tx sn freePdu).retransNumPdus := by omega
  refine ⟨?_, ?_, fun free => ?_, ?_⟩
  · rw [← same]
    refine later.ack _ ?_
    show ((ackPdu tx sn freePdu).pdu sn).ack = true
    rw [slot]
    exact ack
  · rw [← same]
    refine Bool.eq_false_iff.mpr fun given => ?_
    have pending : ((ackPdu tx sn freePdu).pdu sn).retransmit = true := still equal _ given
    rw [slot, idle] at pending
    cases pending
  · rw [← same]
    refine Option.not_isSome_iff_eq_none.mp fun given => ?_
    have some_ : ((ackPdu tx sn freePdu).pdu sn).memBlock.isSome = true := later.block _ given
    rw [free, ackPdu_frees] at some_
    cases some_
  · rcases sent with quiet | ⟨-, asked⟩
    · left
      rw [← same]
      refine Bool.eq_false_iff.mpr fun given => ?_
      have going : ((ackPdu tx sn freePdu).pdu sn).transmitted = true := later.sent _ given
      rw [slot, quiet] at going
      cases going
    · exact Or.inr asked

/-- What acknowledgements do to a slot: once they flag no more, only its block, its way and its mark
for retransmission go. -/
structure Rested (before after : TxPdu) : Prop where
  ack : before.ack = true → after.ack = true
  rest : after.ack = before.ack → ∃ mem pending sent,
    after = { before with memBlock := mem, retransmit := pending, transmitted := sent }

theorem Rested.refl (pdu : TxPdu) : Rested pdu pdu := ⟨id, fun _ => ⟨_, _, _, rfl⟩⟩

theorem Rested.trans {a b c : TxPdu} (left : Rested a b) (right : Rested b c) : Rested a c where
  ack given := right.ack (left.ack given)
  rest same := by
    have mid : b.ack = a.ack := by
      cases before : a.ack with
      | true => exact left.ack before
      | false =>
        cases between : b.ack with
        | false => rfl
        | true =>
          have after := (right.ack between).symm.trans same
          rw [before] at after
          cases after
    obtain ⟨_, _, _, first⟩ := left.rest mid
    obtain ⟨mem, pending, sent, second⟩ := right.rest (same.trans mid.symm)
    refine ⟨mem, pending, sent, ?_⟩
    rw [second, first]

theorem ackPdu_rested (tx : Tx) (sn : Nat) (freePdu : Bool) (i : Nat) :
    Rested (tx.txDataPduBuffer i) ((ackPdu tx sn freePdu).txDataPduBuffer i) := by
  obtain ⟨tx', mem, pdu, slots, stored, -, -, ack, -, -, again⟩ := ackPdu_cases tx sn freePdu
  rw [stored]
  by_cases here : i = sn % windowSize
  · subst here
    rw [show (tx'.setPdu sn pdu).txDataPduBuffer (sn % windowSize) = pdu
      from Function.update_self _ _ _]
    refine ⟨fun _ => ack, fun same => ?_⟩
    have acked : (tx.pdu sn).ack = true := same.symm.trans ack
    obtain ⟨-, sent, rfl⟩ := again acked
    refine ⟨mem, false, sent, ?_⟩
    show _ = { tx.pdu sn with memBlock := mem, retransmit := false, transmitted := sent }
    rw [← acked]
  · rw [show (tx'.setPdu sn pdu).txDataPduBuffer i = tx'.txDataPduBuffer i
      from Function.update_of_ne here _ _, slots]
    exact Rested.refl _

theorem nackPdu_apart (tx : Tx) {sn i : Nat} (prevNackSn : Nat) (soStart soEnd : Int)
    (other : sn % windowSize ≠ i) :
    (nackPdu tx sn prevNackSn soStart soEnd).2.txDataPduBuffer i = tx.txDataPduBuffer i := by
  have elsewhere : i ≠ sn % windowSize := fun same => other same.symm
  unfold nackPdu
  simp only
  repeat' split
  all_goals first
    | exact Function.update_of_ne elsewhere _ _
    | rfl

end Ack

section Rounds

theorem walkStep_drift (ackSn : Nat) (w : Walk) : Drift w.tx (walkStep ackSn w).2.tx := by
  have moves {v : Walk} (drift : Drift w.tx v.tx) (goes : Prop) [Decidable goes] :
      Drift w.tx (if goes then v.next else v).tx := by
    split
    all_goals exact drift
  have acked : Drift w.tx (w.ack false).tx := ackPdu_drift w.tx w.snCursor false
  unfold walkStep
  cases w.pending with
  | nil =>
    refine moves ?_ _
    split
    · exact acked
    · exact Drift.refl _
  | cons nack rest =>
    simp only
    split
    · exact moves acked _
    · have nacked := nackPdu_drift w.tx nack.nackSn w.prevNackSn nack.soStart nack.soEnd
      split
      · exact nacked
      · split
        all_goals exact nacked

/-- A round leaves the slots that no pending NACK selects to acknowledgements. -/
theorem walkStep_rested (ackSn : Nat) {w : Walk} {i : Nat}
    (apart : ∀ nack ∈ w.pending, nack.nackSn % windowSize ≠ i) :
    Rested (w.tx.txDataPduBuffer i) ((walkStep ackSn w).2.tx.txDataPduBuffer i) ∧
      ∀ nack ∈ (walkStep ackSn w).2.pending, nack.nackSn % windowSize ≠ i := by
  have moves {v : Walk} (rested : Rested (w.tx.txDataPduBuffer i) (v.tx.txDataPduBuffer i))
      (left : ∀ nack ∈ v.pending, nack.nackSn % windowSize ≠ i) (goes : Prop) [Decidable goes] :
      Rested (w.tx.txDataPduBuffer i) ((if goes then v.next else v).tx.txDataPduBuffer i) ∧
        ∀ nack ∈ (if goes then v.next else v).pending, nack.nackSn % windowSize ≠ i := by
    split
    all_goals exact ⟨rested, left⟩
  have acked : Rested (w.tx.txDataPduBuffer i) ((w.ack false).tx.txDataPduBuffer i) :=
    ackPdu_rested w.tx w.snCursor false i
  unfold walkStep
  cases list : w.pending with
  | nil =>
    refine moves ?_ ?_ _
    · split
      · exact acked
      · exact Rested.refl _
    · intro nack member
      refine apart nack ?_
      split at member
      all_goals exact member
  | cons nack rest =>
    rw [list] at apart
    simp only
    split
    · refine moves acked ?_ _
      rw [← list] at apart
      exact apart
    · have nacked : Rested (w.tx.txDataPduBuffer i)
          ((nackPdu w.tx nack.nackSn w.prevNackSn nack.soStart nack.soEnd).2.txDataPduBuffer
              i) := by
        rw [nackPdu_apart w.tx _ _ _ (apart nack List.mem_cons_self)]
        exact Rested.refl _
      have left : ∀ other ∈ rest, other.nackSn % windowSize ≠ i :=
        fun other member => apart other (List.mem_cons_of_mem _ member)
      split
      · exact ⟨nacked, left⟩
      · split
        all_goals exact ⟨nacked, left⟩

theorem walkUntil_left {ackSn rounds : Nat} {w last : Walk}
    (ends : walkUntil ackSn rounds w = some last) :
    Drift w.tx last.tx ∧ ∀ i, (∀ nack ∈ w.pending, nack.nackSn % windowSize ≠ i) →
      Rested (w.tx.txDataPduBuffer i) (last.tx.txDataPduBuffer i) := by
  induction rounds generalizing w with
  | zero =>
    rw [walkUntil] at ends
    split at ends
    · cases ends
      exact ⟨Drift.refl _, fun _ _ => Rested.refl _⟩
    · cases ends
  | succ rounds ih =>
    rw [walkUntil] at ends
    split at ends
    · cases ends
      exact ⟨Drift.refl _, fun _ _ => Rested.refl _⟩
    · have drift := walkStep_drift ackSn w
      have rested := fun i => walkStep_rested ackSn (w := w) (i := i)
      generalize walkStep ackSn w = result at ends drift rested
      obtain ⟨broke, next⟩ := result
      cases broke with
      | true =>
        cases ends
        exact ⟨drift, fun i apart => (rested i apart).1⟩
      | false =>
        obtain ⟨later, still⟩ := ih ends
        refine ⟨drift.trans later, fun i apart => ?_⟩
        obtain ⟨here, left⟩ := rested i apart
        exact here.trans (still i left)

/-- Whether the next NACK is for the SN too. -/
def another (sn : Nat) (rest : List NackSn) : Prop := rest.head?.map NackSn.nackSn = some sn

instance (sn : Nat) (rest : List NackSn) : Decidable (another sn rest) := by
  unfold another
  infer_instance

/-- From the cursor on, up to the first NACK that is not taken, the slots hold what the report says
of them; `taken` are the NACKs for the SN at the cursor so far. -/
def Quiet (tx : Tx) : Nat → Nat → List NackSn → List NackSn → Prop
  | 0, _, _, _ => False
  | _ + 1, _, _, [] => False
  | rounds + 1, cursor, taken, nack :: rest =>
    if cursor = nack.nackSn then
      if (tx.pdu cursor).Takes taken nack then
        if another cursor rest then Quiet tx rounds cursor (taken ++ [nack]) rest
        else (tx.pdu cursor).Records (taken ++ [nack]) ∧ Quiet tx rounds (nextSn cursor) [] rest
      else (tx.pdu cursor).Records taken ∧
        (taken = [] → (tx.pdu cursor).Clears nack → (tx.pdu cursor).Blank)
    else (tx.pdu cursor).Acked false ∧ Quiet tx rounds (nextSn cursor) [] (nack :: rest)

/-- NACKs that select one slot stand together and are for one SN. -/
def Apart : List NackSn → Prop
  | [] => True
  | nack :: rest =>
    (another nack.nackSn rest ∨ ∀ later ∈ rest, later.nackSn % windowSize ≠
      nack.nackSn % windowSize) ∧ Apart rest

/-- The walk from `tx`, behind NACKs for the SN at the cursor, and with nothing else done. -/
structure Walk.At (w : Walk) (tx : Tx) (taken : List NackSn) : Prop where
  drift : Drift tx w.tx
  going : w.status = true
  fresh : taken = [] → w.tx = tx ∧ ∀ nack ∈ w.pending.head?, w.prevNackSn ≠ nack.nackSn
  midway : ∀ first more, taken = first :: more → Midway tx w.snCursor first more w.tx ∧
    w.prevNackSn = w.snCursor ∧
    another w.snCursor w.pending

variable {tx : Tx} {w : Walk} {taken : List NackSn} {nack : NackSn}
    {rest : List NackSn} {ackSn : Nat}

theorem Walk.At.takes (at_ : w.At tx taken) (pending : w.pending = nack :: rest)
    (here : w.snCursor = nack.nackSn)
    (takes : (tx.pdu w.snCursor).Takes taken nack) :
    ∃ first more, taken ++ [nack] = first :: more ∧
      (nackPdu w.tx nack.nackSn w.prevNackSn nack.soStart nack.soEnd).1 = true ∧
      Midway tx w.snCursor first more
        (nackPdu w.tx nack.nackSn w.prevNackSn nack.soStart nack.soEnd).2 := by
  cases taken with
  | nil =>
    obtain ⟨same, other⟩ := at_.fresh rfl
    have other : w.prevNackSn ≠ nack.nackSn := other nack (by rw [pending]; rfl)
    rw [here] at takes ⊢
    rw [same]
    exact ⟨nack, [], rfl, nackPdu_takes_first other takes⟩
  | cons first more =>
    obtain ⟨midway, prev, -⟩ := at_.midway first more rfl
    rw [prev, ← here]
    exact ⟨first, more ++ [nack], rfl, nackPdu_takes_next midway takes⟩

/-- A NACK that is not taken. -/
theorem Walk.At.refuses (at_ : w.At tx taken) (pending : w.pending = nack :: rest)
    (here : w.snCursor = nack.nackSn)
    (refuses : ¬ (tx.pdu w.snCursor).Takes taken nack) :
    nackPdu w.tx nack.nackSn w.prevNackSn nack.soStart nack.soEnd = (false,
      if taken = [] ∧ (tx.pdu w.snCursor).Clears nack then
      tx.setPdu w.snCursor (tx.pdu w.snCursor).cleared else w.tx) := by
  cases taken with
  | nil =>
    obtain ⟨same, other⟩ := at_.fresh rfl
    have other : w.prevNackSn ≠ nack.nackSn := other nack (by rw [pending]; rfl)
    rw [here] at refuses ⊢
    rw [same, nackPdu_refuses_first other refuses]
    simp only [true_and]
  | cons first more =>
    obtain ⟨midway, prev, -⟩ := at_.midway first more rfl
    rw [prev, ← here, nackPdu_refuses_next midway refuses,
      if_neg fun both => List.cons_ne_nil _ _ both.1]

/-- A report that ends behind the NACKs for an SN, with every slot as before, found them
recorded. -/
theorem Midway.records {first : NackSn} {more : List NackSn} {sn : Nat} {now last : Tx}
    (midway : Midway tx sn first more now)
    (before : Drift tx now) (after : Drift now last) (rested : Rested (now.pdu sn) (last.pdu sn))
    (slots : last.txDataPduBuffer = tx.txDataPduBuffer)
    (pdus : last.retransNumPdus = tx.retransNumPdus) :
    (tx.pdu sn).Records (first :: more) := by
  refine midway.slot.same_iff.mp ?_
  have frame := midway.slot.frame
  have same : last.pdu sn = tx.pdu sn := by rw [Tx.pdu, Tx.pdu, slots]
  have ack : (now.pdu sn).ack = (tx.pdu sn).ack := congrArg (fun pdu => pdu.ack) frame
  obtain ⟨mem, pending, sent, stored⟩ := rested.rest (by rw [same, ack])
  rw [same] at stored
  -- the mark for retransmission was there before
  have acks (i : Nat) : (now.txDataPduBuffer i).ack = (tx.txDataPduBuffer i).ack := by
    cases early : (tx.txDataPduBuffer i).ack with
    | true => exact before.ack i early
    | false =>
      cases between : (now.txDataPduBuffer i).ack with
      | false => rfl
      | true =>
        have late := after.ack i between
        rw [slots, early] at late
        cases late
  obtain ⟨le, still⟩ := before.pdus acks
  obtain ⟨le', -⟩ := after.pdus fun i => by rw [slots, acks i]
  have marked : (now.pdu sn).retransmit = true := congrArg (fun pdu => pdu.retransmit) frame
  have flagged : (tx.pdu sn).retransmit = true := still (by omega) _ marked
  have block : (now.pdu sn).memBlock = (tx.pdu sn).memBlock :=
    congrArg (fun pdu => pdu.memBlock) frame
  have way : (now.pdu sn).transmitted = (tx.pdu sn).transmitted :=
    congrArg (fun pdu => pdu.transmitted) frame
  have mem' : (tx.pdu sn).memBlock = mem := congrArg (fun pdu => pdu.memBlock) stored
  have pending' : (tx.pdu sn).retransmit = pending := congrArg (fun pdu => pdu.retransmit) stored
  have sent' : (tx.pdu sn).transmitted = sent := congrArg (fun pdu => pdu.transmitted) stored
  rw [stored, ← mem', ← pending', ← sent', flagged, ← marked, ← block, ← way]

/-- Without pending NACKs nothing is refused. -/
theorem walkUntil_done {rounds : Nat} {w last : Walk} (done : w.pending = [])
    (ends : walkUntil ackSn rounds w = some last) :
    last.status = w.status := by
  induction rounds generalizing w with
  | zero =>
    rw [walkUntil] at ends
    split at ends
    · cases ends
      rfl
    · cases ends
  | succ rounds ih =>
    rw [walkUntil] at ends
    split at ends
    · cases ends
      rfl
    · have step : (walkStep ackSn w).1 = false ∧ (walkStep ackSn w).2.pending = [] ∧
          (walkStep ackSn w).2.status = w.status := by
        unfold walkStep
        rw [done]
        simp only
        refine ⟨trivial, ?_, ?_⟩
        · split
          all_goals
            first
              | exact done
              | (split <;> exact done)
        · split
          all_goals
            first
              | rfl
              | (split <;> rfl)
      generalize walkStep ackSn w = result at ends step
      obtain ⟨broke, next⟩ := result
      obtain ⟨rfl, still, status⟩ := step
      exact (ih still ends).trans status

/-- The walk behind a NACK: at the SN while another NACK is for it, else at the next one. -/
theorem taken_eq (away : nack.nackSn ≠ ackSn) : w.taken ackSn nack rest =
    { w with
      tx := (nackPdu w.tx nack.nackSn w.prevNackSn nack.soStart nack.soEnd).2
      status := (nackPdu w.tx nack.nackSn w.prevNackSn nack.soStart nack.soEnd).1
      prevNackSn := nack.nackSn
      pending := rest
      snCursor := if another nack.nackSn rest then w.snCursor else nextSn w.snCursor } := by
  unfold Walk.taken Walk.nackSn another
  cases rest with
  | nil =>
    simp only [ne_eq, away, not_false_eq_true, if_true, List.head?_nil, Option.map_none]
    rfl
  | cons later rest =>
    simp only [List.head?_cons, Option.map_some, Option.some.injEq, ne_eq]
    by_cases same : later.nackSn = nack.nackSn
    · rw [if_neg fun other => other same.symm, if_pos same]
    · rw [if_pos fun other => same other.symm, if_neg same]
      rfl

/-- Behind a NACK that was taken, with another one for its SN. -/
theorem Walk.At.again {next : Tx} {first : NackSn} {more : List NackSn} (drift : Drift tx next)
    (list : taken ++ [nack] = first :: more) (midway : Midway tx w.snCursor first more next)
    (again : another w.snCursor rest) :
    Walk.At { w with tx := next, status := true, prevNackSn := w.snCursor, pending := rest } tx
      (taken ++ [nack]) := by
  refine ⟨drift, rfl, fun none => ?_, fun head tail same => ?_⟩
  · rw [list] at none
    cases none
  · cases list.symm.trans same
    exact ⟨midway, rfl, again⟩

/-- Behind the last NACK for an SN, counted from the state it has left. -/
theorem Walk.At.onward {next : Tx} (same : next = tx) (alone : ¬ another w.snCursor rest) :
    Walk.At { w with
      tx := next, status := true, prevNackSn := w.snCursor, pending := rest
      snCursor := nextSn w.snCursor } tx [] := by
  subst same
  refine ⟨Drift.refl _, rfl, fun _ => ⟨rfl, fun other member clash => ?_⟩,
    fun _ _ none => absurd none.symm (List.cons_ne_nil _ _)⟩
  have clash : w.snCursor = other.nackSn := clash
  rw [another, Option.mem_def.mp member, Option.map_some, clash] at alone
  exact alone rfl

/-- Where the next NACK is for another SN, none for this one was taken. -/
theorem Walk.At.began (at_ : w.At tx taken) (alone : ¬ another w.snCursor w.pending) :
    taken = [] := by
  cases taken with
  | nil => rfl
  | cons first more =>
    obtain ⟨-, -, again⟩ := at_.midway first more rfl
    exact absurd again alone

theorem ended_refused {rounds : Nat} {w last : Walk} (stopped : w.status = false)
    (ends : walkUntil ackSn rounds w = some last) : last = w := by
  cases rounds with
  | zero =>
    rw [walkUntil, if_pos (Or.inr stopped)] at ends
    exact (Option.some.inj ends).symm
  | succ rounds =>
    rw [walkUntil, if_pos (Or.inr stopped)] at ends
    exact (Option.some.inj ends).symm

/-- A NACK that is not taken, and the slots before and behind it. -/
theorem Walk.At.refused_iff (at_ : w.At tx taken) {last : Tx} (stored : last =
      if taken = [] ∧ (tx.pdu w.snCursor).Clears nack then
      tx.setPdu w.snCursor (tx.pdu w.snCursor).cleared else w.tx) :
    ((tx.pdu w.snCursor).Records taken ∧
      (taken = [] → (tx.pdu w.snCursor).Clears nack → (tx.pdu w.snCursor).Blank) →
      last = tx) ∧
    (last.txDataPduBuffer = tx.txDataPduBuffer → last.retransNumPdus = tx.retransNumPdus →
      (tx.pdu w.snCursor).Records taken ∧
        (taken = [] → (tx.pdu w.snCursor).Clears nack → (tx.pdu w.snCursor).Blank)) := by
  subst stored
  cases taken with
  | nil =>
    obtain ⟨same, -⟩ := at_.fresh rfl
    by_cases clears : (tx.pdu w.snCursor).Clears nack
    · rw [if_pos ⟨rfl, clears⟩]
      constructor
      · rintro ⟨-, blank⟩
        rw [(cleared_iff _).mpr (blank rfl clears)]
        exact setPdu_pdu tx _
      · intro slots _
        refine ⟨trivial, fun _ _ => (cleared_iff _).mp ?_⟩
        have stored := pdu_stored tx w.snCursor (tx.pdu w.snCursor).cleared
        rw [Tx.pdu, slots] at stored
        exact stored.symm
    · rw [if_neg fun both => clears both.2]
      exact ⟨fun _ => same, fun _ _ => ⟨trivial, fun _ given => absurd given clears⟩⟩
  | cons first more =>
    obtain ⟨midway, -⟩ := at_.midway first more rfl
    rw [if_neg fun both => List.cons_ne_nil _ _ both.1]
    constructor
    · rintro ⟨records, -⟩
      exact midway.unchanged records
    · intro slots _
      refine ⟨midway.slot.same_iff.mp ?_, fun none => absurd none (List.cons_ne_nil _ _)⟩
      rw [Tx.pdu, Tx.pdu, slots]

theorem walkUntil_quiet {rounds : Nat} {w last : Walk} {taken : List NackSn} (at_ : w.At tx taken)
    (ends : walkUntil ackSn rounds w = some last) (refused : last.status = false) :
    (Quiet tx rounds w.snCursor taken w.pending → last.tx = tx) ∧
    (Apart w.pending → last.tx.txDataPduBuffer = tx.txDataPduBuffer →
      last.tx.retransNumPdus = tx.retransNumPdus →
      Quiet tx rounds w.snCursor taken w.pending) := by
  have ended {w : Walk} (going : w.status = true) (same : some w = some last) : False := by
    cases same
    rw [going] at refused
    cases refused
  induction rounds generalizing w taken with
  | zero =>
    rw [walkUntil] at ends
    split at ends
    · exact absurd ends (ended at_.going)
    · cases ends
  | succ rounds ih =>
    have known := ends
    rw [walkUntil] at ends
    split at ends
    · exact absurd ends (ended at_.going)
    · rename_i goes
      obtain ⟨away, -⟩ := not_or.mp goes
      cases pending : w.pending with
      | nil =>
        have status := walkUntil_done pending known
        rw [refused, at_.going] at status
        cases status
      | cons nack rest =>
        rw [Quiet]
        by_cases here : w.snCursor = nack.nackSn
        · rw [if_pos here]
          rw [walkStep_nack pending here away, taken_eq (here ▸ away)] at ends
          simp only at ends
          by_cases takes : (tx.pdu w.snCursor).Takes taken nack
          · rw [if_pos takes]
            obtain ⟨first, more, list, status, midway⟩ := at_.takes pending here takes
            have drift :=
              at_.drift.trans (nackPdu_drift w.tx nack.nackSn w.prevNackSn nack.soStart nack.soEnd)
            generalize nackPdu w.tx nack.nackSn w.prevNackSn nack.soStart nack.soEnd = result
              at ends status midway drift
            obtain ⟨_, next⟩ := result
            subst status
            by_cases again : another w.snCursor rest
            · rw [if_pos again]
              rw [← here, if_pos again] at ends
              obtain ⟨enough, needed⟩ := ih (.again drift list midway again) ends
              exact ⟨enough, fun apart => needed apart.2⟩
            · rw [if_neg again]
              rw [← here, if_neg again] at ends
              obtain ⟨driftLeft, restedLeft⟩ := walkUntil_left ends
              rw [list]
              constructor
              · rintro ⟨records, quiet⟩
                exact (ih (.onward (midway.unchanged records) again) ends).1 quiet
              · rintro ⟨apart, still⟩ slots pdus
                have others := apart.resolve_left (here ▸ again)
                have rested := restedLeft (w.snCursor % windowSize) (here ▸ others)
                have records := midway.records drift driftLeft rested slots pdus
                have later := ih (.onward (midway.unchanged records) again) ends
                exact ⟨records, later.2 still slots pdus⟩
          · rw [if_neg takes]
            rw [at_.refuses pending here takes] at ends
            have last_ := ended_refused rfl ends
            have stored : last.tx = if taken = [] ∧ (tx.pdu w.snCursor).Clears nack then
                tx.setPdu w.snCursor (tx.pdu w.snCursor).cleared else w.tx := congrArg Walk.tx last_
            obtain ⟨enough, needed⟩ := at_.refused_iff stored
            exact ⟨enough, fun _ => needed⟩
        · rw [if_neg here]
          have began : taken = [] := by
            refine at_.began fun again => ?_
            rw [another, pending] at again
            exact here (Option.some.inj again).symm
          obtain ⟨same, other⟩ := at_.fresh began
          have moves : w.prevNackSn ≠ nack.nackSn := other nack (by rw [pending]; rfl)
          have step : walkStep ackSn w = (false, (w.ack false).next) := by
            simp only [walkStep, pending, ne_eq, here, not_false_eq_true, if_true, Walk.ack, moves]
          rw [step] at ends
          simp only at ends
          obtain ⟨driftLeft, -⟩ := walkUntil_left ends
          have later (acked : (tx.pdu w.snCursor).Acked false) :
              Walk.At (w.ack false).next tx [] := by
            have unchanged : (w.ack false).next.tx = tx := by
              show ackPdu w.tx w.snCursor false = tx
              rw [same]
              exact ackPdu_unchanged acked
            refine ⟨?_, at_.going,
              fun _ => ⟨unchanged, other⟩, fun _ _ none => absurd none.symm (List.cons_ne_nil _ _)⟩
            rw [unchanged]
            exact Drift.refl tx
          have pending' : (w.ack false).next.pending = nack :: rest := pending
          rw [← pending']
          constructor
          · rintro ⟨acked, quiet⟩
            exact (ih (later acked) ends).1 quiet
          · intro apart slots pdus
            have acked : (tx.pdu w.snCursor).Acked false := by
              have drift : Drift (ackPdu w.tx w.snCursor false) last.tx := driftLeft
              rw [same] at drift
              exact drift.acked slots pdus
            exact ⟨acked, (ih (later acked) ends).2 apart slots pdus⟩

end Rounds

section Report

theorem ackUntil_drift {stop rounds : Nat} {w last : Walk}
    (ends : ackUntil stop rounds w = some last) : Drift w.tx last.tx := by
  induction rounds generalizing w with
  | zero =>
    rw [ackUntil] at ends
    split at ends
    · cases ends
      exact Drift.refl _
    · cases ends
  | succ rounds ih =>
    rw [ackUntil] at ends
    split at ends
    · cases ends
      exact Drift.refl _
    · exact (ackPdu_drift w.tx w.snCursor true).trans (ih ends)

theorem ackUntil_quiet {tx final : Tx} {stop rounds : Nat} {w last : Walk} (start : w.tx = tx)
    (valid : w.snCursor < snModulo)
    (stopValid : stop < snModulo) (ends : ackUntil stop rounds w = some last)
    (later : Drift last.tx final) :
    ((∀ sn ∈ span snModulo w.snCursor (diffSn stop w.snCursor), (tx.pdu sn).Acked true) →
      last.tx = tx) ∧
    (final.txDataPduBuffer = tx.txDataPduBuffer → final.retransNumPdus = tx.retransNumPdus →
      ∀ sn ∈ span snModulo w.snCursor (diffSn stop w.snCursor), (tx.pdu sn).Acked true) := by
  have arrived (w : Walk) (here : w.snCursor = stop) : diffSn stop w.snCursor = 0 := by
    rw [here]
    exact dist_self snModulo stop
  induction rounds generalizing w with
  | zero =>
    rw [ackUntil] at ends
    split at ends
    · rename_i here
      cases ends
      rw [arrived _ here]
      exact ⟨fun _ => start, fun _ _ _ member => absurd member List.not_mem_nil⟩
    · cases ends
  | succ rounds ih =>
    rw [ackUntil] at ends
    split at ends
    · rename_i here
      cases ends
      rw [arrived _ here]
      exact ⟨fun _ => start, fun _ _ _ member => absurd member List.not_mem_nil⟩
    · rename_i away
      obtain ⟨-, ahead⟩ := span_ahead valid stopValid away
      rw [ahead]
      have next (acked : (tx.pdu w.snCursor).Acked true) : (w.ack true).next.tx = tx := by
        show ackPdu w.tx w.snCursor true = tx
        rw [start]
        exact ackPdu_unchanged acked
      have driftLeft := (ackUntil_drift ends).trans later
      constructor
      · intro acked
        have here := acked w.snCursor List.mem_cons_self
        exact (ih (next here) (nextSn_lt _) ends).1
          fun sn member => acked sn (List.mem_cons_of_mem _ member)
      · intro slots pdus
        have here : (tx.pdu w.snCursor).Acked true := by
          have drift : Drift (ackPdu w.tx w.snCursor true) final := driftLeft
          rw [start] at drift
          exact drift.acked slots pdus
        intro sn member
        rcases List.mem_cons.mp member with rfl | further
        · exact here
        · exact (ih (next here) (nextSn_lt _) ends).2 slots pdus sn further

/-- The window, its entries and the counts of retransmissions are as before. -/
structure Unchanged (before after : Tx) : Prop where
  vtA : after.vtA = before.vtA
  vtMs : after.vtMs = before.vtMs
  slots : after.txDataPduBuffer = before.txDataPduBuffer
  pdus : after.retransNumPdus = before.retransNumPdus
  bytes : after.retransNumBytesToRetransmit = before.retransNumBytesToRetransmit

theorem Unchanged.refl (tx : Tx) : Unchanged tx tx := ⟨rfl, rfl, rfl, rfl, rfl⟩

/-- The report gets as far as the walk over the window. -/
def WalksReport (tx : Tx) (report : ControlPduRead) : Prop :=
  report.ret ≥ 0 ∧ report.info.nackList.length < maxNackInStatusPdu ∧
    diffSn report.info.ackSn tx.vtA ≤ diffSn tx.vtS tx.vtA

/-- The slots hold what the report says of them, up to its first NACK that is not taken. -/
def AlreadyRecorded (tx : Tx) (info : ControlPduInfo) : Prop :=
  ∀ nack ∈ info.nackList.head?,
    (∀ sn ∈ span snModulo tx.vtA (diffSn nack.nackSn tx.vtA), (tx.pdu sn).Acked true) ∧
      Quiet tx (snModulo + info.nackList.length) nack.nackSn [] info.nackList

theorem walkWindow_quiet {tx : Tx} {info : ControlPduInfo} (base : tx.vtA < snModulo)
    (nackValid : ∀ nack ∈ info.nackList, nack.nackSn < snModulo) {r : WalkResult}
    (ends : walkWindow tx info = some r)
    (refused : r.status = false) :
    (AlreadyRecorded tx info → r.tx = tx) ∧
    (Apart info.nackList → r.tx.txDataPduBuffer = tx.txDataPduBuffer →
      r.tx.retransNumPdus = tx.retransNumPdus →
      AlreadyRecorded tx info) := by
  unfold walkWindow at ends
  unfold AlreadyRecorded
  cases list : info.nackList with
  | nil =>
    simp only [list, Option.map_eq_some_iff] at ends
    obtain ⟨last, -, rfl⟩ := ends
    cases refused
  | cons nack rest =>
    simp only [list, Option.bind_eq_some_iff, Option.map_eq_some_iff] at ends
    obtain ⟨first, arrived, last, walked, rfl⟩ := ends
    have valid : nack.nackSn < snModulo := nackValid nack (by rw [list]; exact List.mem_cons_self)
    obtain ⟨after, spec, -, -⟩ :=
      @ackUntil_spec nack.nackSn snModulo ⟨tx, tx.vtA, [], nack :: rest, 0x3FFF, true⟩ base valid
      (Nat.le_of_lt (dist_lt base))
    obtain rfl := Option.some.inj (spec.symm.trans arrived)
    obtain ⟨enoughAcks, neededAcks⟩ :=
      ackUntil_quiet rfl base valid arrived (walkUntil_left walked).1
    have at_ (same : after = tx) :
      Walk.At ⟨after, nack.nackSn, [] ++ span snModulo tx.vtA (diffSn nack.nackSn tx.vtA),
        nack :: rest, 0x3FFF, true⟩ tx [] := by
      subst same
      refine ⟨Drift.refl _, rfl, fun _ => ⟨rfl, fun other member clash => ?_⟩, nofun⟩
      cases member
      have clash : 0x3FFF = nack.nackSn := clash
      rw [← clash] at valid
      exact absurd valid (by decide)
    simp only [List.head?_cons, Option.mem_def, Option.some.injEq, forall_eq']
    constructor
    · rintro ⟨acks, quiet⟩
      exact (walkUntil_quiet (at_ (enoughAcks acks)) walked refused).1 quiet
    · intro apart slots pdus
      have acks := neededAcks slots pdus
      exact ⟨acks, (walkUntil_quiet (at_ (enoughAcks acks)) walked refused).2 apart slots pdus⟩

/-- A report that is refused leaves the transmitter as it was when the walk does not begin, or when
all up to the refused NACK was recorded before; and only then, unless NACKs for two SNs select one
slot. -/
theorem refused_status_unchanged (tx : Tx) (mem : Memory) (tbSize : Int) (base : tx.vtA < snModulo)
    {result : ControlResult}
    (ends : receiveProcessControlPdu tx mem tbSize = some result) (failed : result.status = false) :
    ((WalksReport tx (getControlPduInfos mem tbSize) →
      AlreadyRecorded tx (getControlPduInfos mem tbSize).info) →
      Unchanged tx result.tx) ∧
    (Apart (getControlPduInfos mem tbSize).info.nackList → Unchanged tx result.tx →
      WalksReport tx (getControlPduInfos mem tbSize) →
      AlreadyRecorded tx (getControlPduInfos mem tbSize).info) := by
  obtain ⟨ackValid, nackValid⟩ := getControlPduInfos_valid mem tbSize
  -- a walk that does not begin changes nothing
  have early (same : result.tx = tx) (stopped : ¬ WalksReport tx (getControlPduInfos mem tbSize)) :
      ((WalksReport tx (getControlPduInfos mem tbSize) →
        AlreadyRecorded tx (getControlPduInfos mem tbSize).info) →
        Unchanged tx result.tx) ∧
      (Apart (getControlPduInfos mem tbSize).info.nackList → Unchanged tx result.tx →
        WalksReport tx (getControlPduInfos mem tbSize) →
          AlreadyRecorded tx (getControlPduInfos mem tbSize).info) := by
    rw [same]
    exact ⟨fun _ => Unchanged.refl tx, fun _ _ walks => absurd walks stopped⟩
  rw [receiveProcessControlPdu] at ends
  split at ends
  · rename_i decoded
    split at ends
    · rename_i illegal
      cases ends
      refine early rfl fun walks => ?_
      exact illegal.elim (fun high => absurd high (Nat.not_le_of_lt ackValid))
        fun many => absurd many (Nat.not_le_of_lt walks.2.1)
    · rename_i legal
      split at ends
      · rename_i within
        have walks : WalksReport tx (getControlPduInfos mem tbSize) :=
          ⟨decoded, Nat.lt_of_not_ge (not_or.mp legal).2, within⟩
        obtain ⟨r, walked, ends⟩ := Option.bind_eq_some_iff.mp ends
        split at ends
        · obtain ⟨out, -, rfl⟩ := Option.map_eq_some_iff.mp ends
          cases failed
        · rename_i refused
          cases ends
          obtain ⟨enough, needed⟩ :=
            walkWindow_quiet base nackValid walked (Bool.eq_false_iff.mpr refused)
          refine ⟨fun recorded => ?_, fun apart same _ => needed apart same.slots same.pdus⟩
          rw [show r.tx = tx from enough (recorded walks)]
          exact Unchanged.refl tx
      · rename_i outside
        cases ends
        exact early rfl fun walks => outside walks.2.2
  · rename_i undecoded
    cases ends
    exact early rfl fun walks => undecoded walks.1

def threeSent : List TxOp :=
  [fiveByteSdu 0, fiveByteSdu 1, fiveByteSdu 2, sevenByteGrant, sevenByteGrant, sevenByteGrant]

/-- A byte range that the PDU does not have. -/
def beyondPdu (sn : Nat) : Memory := statusUpToThree [⟨sn, false, true, 0, 100⟩]

/-- PDU 0 is acknowledged, then the NACK for PDU 1 is refused. -/
theorem refused_status_applied :
    ∃ tx result, run txStep (txInit ⟨4, 0xFFFF, 0xFFFFFFFF, 0⟩) threeSent = some tx ∧
    receiveProcessControlPdu tx (beyondPdu 1) 8 = some result ∧ result.status = false ∧
    ¬ Unchanged tx result.tx := by
  have reached : ((run txStep (txInit ⟨4, 0xFFFF, 0xFFFFFFFF, 0⟩) threeSent).bind fun tx =>
      (receiveProcessControlPdu tx (beyondPdu 1) 8).map fun result =>
        (result.status, (tx.pdu 0).ack, (result.tx.pdu 0).ack)) = some (false, false, true) := by
          decide +kernel
  obtain ⟨tx, ran, processed⟩ := Option.bind_eq_some_iff.mp reached
  obtain ⟨result, ends, fields⟩ := Option.map_eq_some_iff.mp processed
  simp only [Prod.mk.injEq] at fields
  refine ⟨tx, result, ran, ends, fields.1, fun same => ?_⟩
  have acked := fields.2.2
  rw [Tx.pdu, same.slots] at acked
  have before := fields.2.1
  rw [Tx.pdu, acked] at before
  cases before

/-- The same NACK for PDU 0 is refused before anything is done. -/
theorem refused_status_unchanged_first : ∃ tx result,
    run txStep (txInit ⟨4, 0xFFFF, 0xFFFFFFFF, 0⟩) threeSent = some tx ∧
    receiveProcessControlPdu tx (beyondPdu 0) 8 = some result ∧ result.status = false ∧
    Unchanged tx result.tx := by
  have reached : ((run txStep (txInit ⟨4, 0xFFFF, 0xFFFFFFFF, 0⟩) threeSent).bind fun tx =>
      (receiveProcessControlPdu tx (beyondPdu 0) 8).map fun result =>
        (result.status, tx.vtA, (tx.pdu 0).payloadSize)) = some (false, 0, 5) := by decide +kernel
  obtain ⟨tx, ran, processed⟩ := Option.bind_eq_some_iff.mp reached
  obtain ⟨result, ends, fields⟩ := Option.map_eq_some_iff.mp processed
  simp only [Prod.mk.injEq] at fields
  obtain ⟨failed, vtA, payload⟩ := fields
  have base : tx.vtA < snModulo := by rw [vtA]; decide
  have report : (getControlPduInfos (beyondPdu 0) 8).info.nackList =
    [⟨0, false, true, 0, 100⟩] := by decide +kernel
  refine ⟨tx, result, ran, ends, failed,
    (refused_status_unchanged tx (beyondPdu 0) 8 base ends failed).1 fun _ => ?_⟩
  unfold AlreadyRecorded
  rw [report, vtA]
  rintro nack member
  cases member
  refine ⟨nofun, ?_⟩
  have refused : ¬ (tx.pdu 0).Takes [] ⟨0, false, true, 0, 100⟩ := by
    rintro ⟨-, -, -, range⟩
    have fits : (100 : Int) < (tx.pdu 0).payloadSize := range.2.1
    rw [payload] at fits
    exact absurd fits (by decide)
  rw [show snModulo + [(⟨0, false, true, 0, 100⟩ : NackSn)].length = 1024 + 1 from rfl, Quiet,
    if_pos rfl, if_neg refused]
  exact ⟨trivial, fun _ clears => absurd clears.2.1 (by decide)⟩

end Report

end OpenAir.Rlc.Am
