import OpenAir.Lib.Serial
import OpenAir.Rlc.Am.StatusReceive

/-! The walk over the window made by a STATUS PDU: which SNs it acknowledges, that
it ends, and what it leaves of every slot. -/
namespace OpenAir.Rlc.Am
open Serial

theorem diffSn_eq (sn snref : Nat) : diffSn sn snref = dist snModulo snref sn := rfl

theorem nextSn_lt (sn : Nat) : nextSn sn < snModulo := Nat.mod_lt _ (by decide)

theorem prevSn_lt (sn : Nat) : prevSn sn < snModulo := Nat.mod_lt _ (by decide)

/-- The effect of acknowledging `acked` on the slots: each of them ends up marked,
every other keeps its mark and its block, no slot changes its SN or gets a block. -/
structure Acks (acked : List Nat) (before after : Tx) : Prop where
  vtA : after.vtA = before.vtA
  vtS : after.vtS = before.vtS
  vtMs : after.vtMs = before.vtMs
  sn : ∀ i, (after.txDataPduBuffer i).sn = (before.txDataPduBuffer i).sn
  marked : ∀ i, (∃ sn ∈ acked, sn % windowSize = i) → (after.txDataPduBuffer i).ack = true
  kept : ∀ i, (¬ ∃ sn ∈ acked, sn % windowSize = i) →
    (after.txDataPduBuffer i).ack = (before.txDataPduBuffer i).ack ∧
    (after.txDataPduBuffer i).memBlock = (before.txDataPduBuffer i).memBlock
  gone : ∀ i, (before.txDataPduBuffer i).memBlock = none → (after.txDataPduBuffer i).memBlock = none

theorem Acks.refl (tx : Tx) : Acks [] tx tx where
  vtA := rfl
  vtS := rfl
  vtMs := rfl
  sn _ := rfl
  marked := by simp
  kept _ _ := ⟨rfl, rfl⟩
  gone _ none := none

theorem Acks.trans {first second : List Nat} {a b c : Tx} (left : Acks first a b)
    (right : Acks second b c) :
    Acks (first ++ second) a c where
  vtA := right.vtA.trans left.vtA
  vtS := right.vtS.trans left.vtS
  vtMs := right.vtMs.trans left.vtMs
  sn i := (right.sn i).trans (left.sn i)
  marked := by
    rintro i ⟨sn, member, here⟩
    by_cases later : ∃ sn ∈ second, sn % windowSize = i
    · exact right.marked i later
    · obtain early | late := List.mem_append.mp member
      · rw [(right.kept i later).1]
        exact left.marked i ⟨sn, early, here⟩
      · exact absurd ⟨sn, late, here⟩ later
  kept := by
    intro i untouched
    have early : ¬ ∃ sn ∈ first, sn % windowSize = i := fun ⟨sn, member, here⟩ =>
      untouched ⟨sn, List.mem_append_left _ member, here⟩
    have late : ¬ ∃ sn ∈ second, sn % windowSize = i := fun ⟨sn, member, here⟩ =>
      untouched ⟨sn, List.mem_append_right _ member, here⟩
    exact ⟨(right.kept i late).1.trans (left.kept i early).1,
      (right.kept i late).2.trans (left.kept i early).2⟩
  gone i none := right.gone i (left.gone i none)

theorem Acks.of_setPdu {tx tx' : Tx} {sn : Nat} {pdu : TxPdu} (vtA : tx'.vtA = tx.vtA)
    (vtS : tx'.vtS = tx.vtS) (vtMs : tx'.vtMs = tx.vtMs)
    (slots : tx'.txDataPduBuffer = tx.txDataPduBuffer)
    (same : pdu.sn = (tx.pdu sn).sn) (marked : pdu.ack = true)
    (gone : (tx.pdu sn).memBlock = none → pdu.memBlock = none) :
    Acks [sn] tx (tx'.setPdu sn pdu) where
  vtA := vtA
  vtS := vtS
  vtMs := vtMs
  sn i := by
    by_cases here : i = sn % windowSize
    · subst here
      simpa [Tx.setPdu, Tx.pdu] using same
    · simp [Tx.setPdu, here, slots]
  marked := by
    rintro i ⟨x, member, rfl⟩
    rw [List.mem_singleton] at member
    subst member
    simpa [Tx.setPdu] using marked
  kept i untouched := by
    have here : i ≠ sn % windowSize :=
      fun same => untouched ⟨sn, List.mem_singleton_self _, same.symm⟩
    simp [Tx.setPdu, here, slots]
  gone i none := by
    by_cases here : i = sn % windowSize
    · subst here
      simpa [Tx.setPdu] using gone none
    · simpa [Tx.setPdu, here, slots] using none

theorem ackPdu_acks (tx : Tx) (sn : Nat) (freePdu : Bool) :
    Acks [sn] tx (ackPdu tx sn freePdu) := by
  unfold ackPdu
  cases block : (tx.pdu sn).memBlock with
  | none =>
    simp only [block, Option.isSome_none, Bool.false_eq_true, if_false]
    exact Acks.of_setPdu rfl rfl rfl rfl rfl rfl fun _ => rfl
  | some mem =>
    have present : ¬ (tx.pdu sn).memBlock = none := by simp [block]
    simp only [block, Option.isSome_some, if_true]
    cases freePdu with
    | false =>
      simp only [Bool.false_eq_true, if_false]
      split
      · split
        · rename_i already
          exact Acks.of_setPdu rfl rfl rfl rfl rfl already fun none => absurd none present
        · exact Acks.of_setPdu rfl rfl rfl rfl rfl rfl fun none => absurd none present
      · exact Acks.of_setPdu rfl rfl rfl rfl rfl rfl fun none => absurd none present
    | true =>
      simp only [if_true]
      split
      · split
        · rename_i already
          exact Acks.of_setPdu rfl rfl rfl rfl rfl already fun none => absurd none present
        · exact Acks.of_setPdu rfl rfl rfl rfl rfl rfl fun none => absurd none present
      · exact Acks.of_setPdu rfl rfl rfl rfl rfl rfl fun none => absurd none present

theorem ackPdu_frees (tx : Tx) (sn : Nat) : ((ackPdu tx sn true).pdu sn).memBlock = none := by
  unfold ackPdu
  cases block : (tx.pdu sn).memBlock with
  | none =>
    simp only [block, Option.isSome_none, Bool.false_eq_true, if_false]
    simp [Tx.setPdu, Tx.pdu]
  | some mem =>
    simp only [block, Option.isSome_some, if_true]
    split
    · split <;> simp [Tx.setPdu, Tx.pdu]
    · simp [Tx.setPdu, Tx.pdu]

theorem Acks.of_keep {tx tx' : Tx} {sn : Nat} {pdu : TxPdu} (vtA : tx'.vtA = tx.vtA)
    (vtS : tx'.vtS = tx.vtS) (vtMs : tx'.vtMs = tx.vtMs)
    (slots : tx'.txDataPduBuffer = tx.txDataPduBuffer)
    (same : pdu.sn = (tx.pdu sn).sn) (mark : pdu.ack = (tx.pdu sn).ack)
    (block : pdu.memBlock = (tx.pdu sn).memBlock) : Acks [] tx (tx'.setPdu sn pdu) where
  vtA := vtA
  vtS := vtS
  vtMs := vtMs
  sn i := by
    by_cases here : i = sn % windowSize
    · subst here
      simpa [Tx.setPdu, Tx.pdu] using same
    · simp [Tx.setPdu, here, slots]
  marked := by simp
  kept i _ := by
    by_cases here : i = sn % windowSize
    · subst here
      exact ⟨by simpa [Tx.setPdu, Tx.pdu] using mark, by simpa [Tx.setPdu, Tx.pdu] using block⟩
    · simp [Tx.setPdu, here, slots]
  gone i none := by
    by_cases here : i = sn % windowSize
    · subst here
      have absent : (tx.pdu sn).memBlock = Option.none := none
      simpa [Tx.setPdu, block] using absent
    · simpa [Tx.setPdu, here, slots] using none

/-- The holes of a slot change; its mark, block and SN do not. -/
theorem nackRequest_kept (pdu : TxPdu) (sn prevNackSn : Nat) (soStart soEnd : Int) :
    (nackRequest pdu sn prevNackSn soStart soEnd).2.pdu.sn = pdu.sn ∧
    (nackRequest pdu sn prevNackSn soStart soEnd).2.pdu.ack = pdu.ack ∧
    (nackRequest pdu sn prevNackSn soStart soEnd).2.pdu.memBlock = pdu.memBlock := by
  unfold nackRequest
  simp only
  repeat' split
  all_goals exact ⟨rfl, rfl, rfl⟩

theorem nackPdu_acks (tx : Tx) (sn prevNackSn : Nat) (soStart soEnd : Int) :
    Acks [] tx (nackPdu tx sn prevNackSn soStart soEnd).2 := by
  obtain ⟨same, mark, block⟩ := nackRequest_kept (tx.pdu sn) sn prevNackSn soStart soEnd
  unfold nackPdu
  simp only
  repeat' split
  all_goals first
    | exact Acks.refl tx
    | exact Acks.of_keep rfl rfl rfl rfl same mark block

theorem span_ahead {sn stop : Nat} (valid : sn < snModulo) (stopValid : stop < snModulo)
    (away : sn ≠ stop) :
    diffSn stop sn = diffSn stop (nextSn sn) + 1 ∧
      span snModulo sn (diffSn stop sn) =
      sn :: span snModulo (nextSn sn) (diffSn stop (nextSn sn)) := by
  have ahead : diffSn stop sn = diffSn stop (nextSn sn) + 1 := by
    simp only [diffSn, nextSn, snModulo] at valid stopValid ⊢
    omega
  refine ⟨ahead, ?_⟩
  rw [ahead, span_succ, Nat.mod_eq_of_lt valid]
  rfl

/-- The in-sequence loop ends at `stop`, having acknowledged every SN on the way. -/
theorem ackUntil_spec {stop rounds : Nat} {w : Walk} (valid : w.snCursor < snModulo)
    (stopValid : stop < snModulo) (enough : diffSn stop w.snCursor ≤ rounds) :
    ∃ tx, ackUntil stop rounds w =
        some { w with
          tx
          snCursor := stop
          acked := w.acked ++ span snModulo w.snCursor (diffSn stop w.snCursor) } ∧
      Acks (span snModulo w.snCursor (diffSn stop w.snCursor)) w.tx tx ∧
      ∀ sn ∈ span snModulo w.snCursor (diffSn stop w.snCursor), (tx.pdu sn).memBlock = none := by
  induction rounds generalizing w with
  | zero =>
    have arrived : w.snCursor = stop := by
      apply dist_inj valid valid stopValid
      rw [dist_self, ← diffSn_eq]
      omega
    subst arrived
    exact ⟨w.tx, by simp [ackUntil, diffSn_eq, span], by
      simpa [diffSn_eq, span] using Acks.refl w.tx,
      by simp [diffSn_eq, span]⟩
  | succ rounds ih =>
    rw [ackUntil]
    split
    · rename_i arrived
      subst arrived
      exact ⟨w.tx, by simp [diffSn_eq, span], by simpa [diffSn_eq, span] using Acks.refl w.tx,
        by simp [diffSn_eq, span]⟩
    · rename_i away
      obtain ⟨ahead, first⟩ := span_ahead valid stopValid away
      obtain ⟨tx, ends, acks, freed⟩ := @ih (w.ack true).next (nextSn_lt _)
        (show diffSn stop (nextSn w.snCursor) ≤ rounds by omega)
      refine ⟨tx, ?_, ?_, ?_⟩
      · rw [ends, first]
        simp [Walk.ack, Walk.next, List.append_assoc]
      · rw [first]
        exact (ackPdu_acks w.tx w.snCursor true).trans acks
      · intro sn member
        rw [first] at member
        obtain rfl | later := List.mem_cons.mp member
        · exact acks.gone _ (ackPdu_frees w.tx w.snCursor)
        · exact freed sn later

/-- Where the cursor stands, and that an SN is not taken up twice. -/
structure Walk.OnTheWay (w : Walk) (vtA ackSn : Nat) : Prop where
  valid : w.snCursor < snModulo
  before : diffSn w.snCursor vtA ≤ diffSn ackSn vtA
  fresh : w.prevNackSn = w.nackSn ackSn → w.snCursor = w.nackSn ackSn
  nacks : ∀ nack ∈ w.pending, nack.nackSn < snModulo

/-- What the rest of a walk acknowledges. -/
structure Rest (w : Walk) (extra : List Nat) (last : Walk) : Prop where
  acked : last.acked = w.acked ++ extra
  acks : Acks extra w.tx last.tx

/-- One distance further, short of ACK_SN. -/
theorem diffSn_next {vtA ackSn sn : Nat} (base : vtA < snModulo) (valid : sn < snModulo)
    (ackValid : ackSn < snModulo) (before : diffSn sn vtA ≤ diffSn ackSn vtA) (away : sn ≠ ackSn) :
    diffSn (nextSn sn) vtA = diffSn sn vtA + 1 ∧ diffSn sn vtA < diffSn ackSn vtA := by
  have ahead : diffSn sn vtA ≠ diffSn ackSn vtA :=
    fun same => away (dist_inj base valid ackValid same)
  have short : diffSn sn vtA < diffSn ackSn vtA := by omega
  have turn : diffSn ackSn vtA < snModulo := dist_lt base
  exact ⟨dist_succ base valid (by rw [← diffSn_eq]; omega), short⟩

theorem Rest.stopped (w : Walk) : Rest w [] w where
  acked := by simp
  acks := Acks.refl w.tx

variable {vtA ackSn : Nat} {w : Walk}

/-- A round at an SN that is not the next NACK acknowledges it and moves on. -/
theorem walkStep_ack (onTheWay : w.OnTheWay vtA ackSn) (away : w.snCursor ≠ ackSn)
    (other : w.snCursor ≠ w.nackSn ackSn) : walkStep ackSn w = (false, (w.ack false).next) := by
  have moves : w.prevNackSn ≠ w.nackSn ackSn := fun same => other (onTheWay.fresh same)
  cases pending : w.pending with
  | nil =>
    simp only [Walk.nackSn, pending] at moves
    simp [walkStep, pending, away, Walk.ack, moves]
  | cons nack rest =>
    simp only [Walk.nackSn, pending] at moves other
    simp [walkStep, pending, other, Walk.ack, moves]

theorem OnTheWay.ack (base : vtA < snModulo) (ackValid : ackSn < snModulo)
    (onTheWay : w.OnTheWay vtA ackSn) (away : w.snCursor ≠ ackSn)
    (other : w.snCursor ≠ w.nackSn ackSn) :
    ((w.ack false).next).OnTheWay vtA ackSn := by
  obtain ⟨ahead, short⟩ := diffSn_next base onTheWay.valid ackValid onTheWay.before away
  refine ⟨nextSn_lt _, ?_, fun same => absurd (onTheWay.fresh same) other, onTheWay.nacks⟩
  show diffSn (nextSn w.snCursor) vtA ≤ _
  omega

theorem Rest.ack {extra : List Nat} {last : Walk} (rest : Rest (w.ack false).next extra last) :
    Rest w (w.snCursor :: extra) last where
  acked := by
    rw [rest.acked]
    simp [Walk.ack, Walk.next]
  acks := (ackPdu_acks w.tx w.snCursor false).trans rest.acks

/-- The walk behind a NACK that was taken up at the cursor. -/
def Walk.taken (w : Walk) (ackSn : Nat) (nack : NackSn) (rest : List NackSn) : Walk :=
  let (status, tx) := nackPdu w.tx nack.nackSn w.prevNackSn nack.soStart nack.soEnd
  let w := { w with tx, status, prevNackSn := nack.nackSn, pending := rest }
  if w.prevNackSn ≠ w.nackSn ackSn then w.next else w

theorem walkStep_nack {nack : NackSn} {rest : List NackSn} (pending : w.pending = nack :: rest)
    (here : w.snCursor = nack.nackSn) (away : w.snCursor ≠ ackSn) :
    walkStep ackSn w = (false, w.taken ackSn nack rest) := by
  have goesOn : ¬ (rest = [] ∧ nack.nackSn = ackSn) := fun both => away (here.trans both.2)
  simp only [walkStep, pending, here, ne_eq, not_true_eq_false, if_false, goesOn, Walk.taken]

theorem OnTheWay.taken (base : vtA < snModulo) (ackValid : ackSn < snModulo)
    (onTheWay : w.OnTheWay vtA ackSn) (away : w.snCursor ≠ ackSn) {nack : NackSn}
    {rest : List NackSn}
    (pending : w.pending = nack :: rest) (here : w.snCursor = nack.nackSn) :
    (w.taken ackSn nack rest).OnTheWay vtA ackSn := by
  obtain ⟨ahead, short⟩ := diffSn_next base onTheWay.valid ackValid onTheWay.before away
  have nacks : ∀ other ∈ rest, other.nackSn < snModulo := fun other member =>
    onTheWay.nacks other (by rw [pending]; exact List.mem_cons_of_mem _ member)
  simp only [Walk.taken]
  split
  · rename_i moves
    refine ⟨nextSn_lt _, ?_, fun same => absurd same moves, nacks⟩
    show diffSn (nextSn w.snCursor) vtA ≤ _
    omega
  · rename_i stays
    refine ⟨onTheWay.valid, onTheWay.before, fun same => ?_, nacks⟩
    exact here.trans same

theorem Rest.taken {nack : NackSn} {pending : List NackSn} {extra : List Nat} {last : Walk}
    (rest : Rest (w.taken ackSn nack pending) extra last) : Rest w extra last := by
  have acks := nackPdu_acks w.tx nack.nackSn w.prevNackSn nack.soStart nack.soEnd
  simp only [Walk.taken] at rest
  split at rest
  · exact ⟨rest.acked, acks.trans rest.acks⟩
  · exact ⟨rest.acked, acks.trans rest.acks⟩

theorem taken_measure (base : vtA < snModulo) (ackValid : ackSn < snModulo)
    (onTheWay : w.OnTheWay vtA ackSn) (away : w.snCursor ≠ ackSn) (nack : NackSn)
    (rest : List NackSn) :
    (w.taken ackSn nack rest).pending = rest ∧
    diffSn w.snCursor vtA ≤ diffSn (w.taken ackSn nack rest).snCursor vtA := by
  obtain ⟨ahead, -⟩ := diffSn_next base onTheWay.valid ackValid onTheWay.before away
  simp only [Walk.taken]
  split
  · refine ⟨rfl, ?_⟩
    show _ ≤ diffSn (nextSn w.snCursor) vtA
    omega
  · exact ⟨rfl, Nat.le_refl _⟩

/-- The loop over the rest of the window ends, whatever the NACKs are: every round
moves the cursor or uses up a NACK. -/
theorem walkUntil_spec {rounds : Nat} (base : vtA < snModulo) (ackValid : ackSn < snModulo)
    (onTheWay : w.OnTheWay vtA ackSn)
    (enough : diffSn ackSn vtA - diffSn w.snCursor vtA + w.pending.length ≤ rounds) :
    ∃ extra last, walkUntil ackSn rounds w = some last ∧ Rest w extra last := by
  induction rounds generalizing w with
  | zero =>
    have arrived : w.snCursor = ackSn := by
      have := onTheWay.before
      exact dist_inj base onTheWay.valid ackValid (by rw [← diffSn_eq, ← diffSn_eq]; omega)
    exact ⟨[], w, by rw [walkUntil, if_pos (Or.inl arrived)], Rest.stopped w⟩
  | succ rounds ih =>
    rw [walkUntil]
    by_cases ended : w.snCursor = ackSn ∨ w.status = false
    · exact ⟨[], w, by rw [if_pos ended], Rest.stopped w⟩
    · rw [if_neg ended]
      have away : w.snCursor ≠ ackSn := fun arrived => ended (Or.inl arrived)
      obtain ⟨ahead, short⟩ := diffSn_next base onTheWay.valid ackValid onTheWay.before away
      by_cases other : w.snCursor = w.nackSn ackSn
      · cases front : w.pending with
        | nil => exact absurd (by simpa only [Walk.nackSn, front] using other) away
        | cons nack rest =>
          have here : w.snCursor = nack.nackSn := by simpa only [Walk.nackSn, front] using other
          obtain ⟨pending, moved⟩ := taken_measure base ackValid onTheWay away nack rest
          rw [front, List.length_cons] at enough
          obtain ⟨extra, last, ends, tail⟩ :=
            ih (OnTheWay.taken base ackValid onTheWay away front here)
            (by rw [pending]; omega)
          refine ⟨extra, last, ?_, Rest.taken tail⟩
          rw [walkStep_nack front here away]
          exact ends
      · obtain ⟨extra, last, ends, tail⟩ := ih (OnTheWay.ack base ackValid onTheWay away other)
          (show diffSn ackSn vtA - diffSn (nextSn w.snCursor) vtA + w.pending.length ≤
            rounds by omega)
        refine ⟨w.snCursor :: extra, last, ?_, Rest.ack tail⟩
        rw [walkStep_ack onTheWay away other]
        exact ends

end OpenAir.Rlc.Am
