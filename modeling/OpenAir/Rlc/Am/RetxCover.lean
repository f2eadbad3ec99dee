import OpenAir.Rlc.Am.HoleSegment
import OpenAir.Rlc.Am.RetxAccount

/-! The bytes that a PDU with holes sends again, over any sequence of grants: the search
takes turns at the sequence numbers, and every turn at this PDU sends the next bytes. -/
namespace OpenAir.Rlc.Am
open BitField Spans

/-- One round of the search: the SN it is at, the grant, what the allocator gives, the time. -/
structure RetxTurn where
  sn : Nat
  bytes : Int
  allocated : Bool
  now : Nat

/-- The body of the loop of `rlc_am_get_pdu_to_retransmit`, with the polling behind it. -/
def retransmitTurn (tx : Tx) (turn : RetxTurn) : Tx × Option Emitted :=
  match retransmitAt { tx with nbBytesRequestedByMac := turn.bytes } turn.sn turn.allocated with
  | (tx, some out) =>
    let (tx, b1) := pduPolling tx (out.mem 0).toNat (tx.pdu turn.sn).payloadSize false turn.now
    (tx.setPdu turn.sn { tx.pdu turn.sn with retxCount := (tx.pdu turn.sn).retxCountNext },
      some { out with mem := setByte out.mem 0 b1 })
  | (tx, none) => (tx, none)

def afterTurns : Tx → List RetxTurn → Tx
  | tx, [] => tx
  | tx, turn :: turns => afterTurns (retransmitTurn tx turn).1 turns

/-- The blocks sent in a sequence of turns, each with its turn. -/
def sentTurns : Tx → List RetxTurn → List (RetxTurn × Emitted)
  | _, [] => []
  | tx, turn :: turns =>
    ((retransmitTurn tx turn).2.map fun out => (turn, out)).toList ++
      sentTurns (retransmitTurn tx turn).1 turns

section Search

variable {tx : Tx}

theorem retransmitAt_grant (tx : Tx) (sn : Nat) (allocated : Bool) :
    (retransmitAt tx sn allocated).1.nbBytesRequestedByMac = tx.nbBytesRequestedByMac := by
  unfold retransmitAt retransmitWhole retransmitSegment
  simp only
  repeat' split
  all_goals rfl

/-- A call of the search is a sequence of turns with the same grant, of which the last sends. -/
theorem searchRetransmit_turns (snEnd : Nat) (allocated : Bool) (now rounds sn : Nat) (tx : Tx) :
    ∃ turns : List RetxTurn, (∀ turn ∈ turns, turn.bytes = tx.nbBytesRequestedByMac) ∧
      afterTurns tx turns = (searchRetransmit snEnd allocated now rounds sn tx).1 ∧
      (sentTurns tx turns).map Prod.snd =
      (searchRetransmit snEnd allocated now rounds sn tx).2.toList := by
  induction rounds generalizing sn tx with
  | zero => exact ⟨[], fun turn none => absurd none List.not_mem_nil, rfl, rfl⟩
  | succ rounds ih =>
    have grant := retransmitAt_grant tx sn allocated
    generalize here : (⟨sn, tx.nbBytesRequestedByMac, allocated, now⟩ : RetxTurn) = turn
    have bytes : turn.bytes = tx.nbBytesRequestedByMac := by rw [← here]
    have first : retransmitTurn tx turn = _ := rfl
    rw [searchRetransmit]
    conv at first =>
      rhs
      rw [retransmitTurn, ← here]
    simp only at first
    generalize retransmitAt tx sn allocated = tried at grant first ⊢
    obtain ⟨next, emitted⟩ := tried
    cases emitted with
    | some out =>
      simp only at first ⊢
      refine ⟨[turn], fun other one => ?_, ?_, ?_⟩
      · rw [List.mem_singleton.mp one, bytes]
      · rw [afterTurns, afterTurns, first]
      · rw [sentTurns, sentTurns, first]
        rfl
    | none =>
      simp only at first grant ⊢
      split
      · obtain ⟨turns, same, state, blocks⟩ := ih (nextSn sn) next
        refine ⟨turn :: turns, fun other member => ?_, ?_, ?_⟩
        · rcases List.mem_cons.mp member with rfl | later
          · exact bytes
          · exact (same other later).trans grant
        · rw [afterTurns, first]
          exact state
        · rw [sentTurns, first]
          exact blocks
      · refine ⟨[turn], fun other one => ?_, ?_, ?_⟩
        · rw [List.mem_singleton.mp one, bytes]
        · rw [afterTurns, afterTurns, first]
        · rw [sentTurns, sentTurns, first]
          rfl

/-- A call for a PDU to retransmit is a sequence of turns with its grant. -/
theorem getPduToRetransmit_turns (tx : Tx) (allocated : Bool) (now : Nat) :
    ∃ turns : List RetxTurn, (∀ turn ∈ turns, turn.bytes = tx.nbBytesRequestedByMac) ∧
      afterTurns tx turns = (getPduToRetransmit tx allocated now).1 ∧
      (sentTurns tx turns).map Prod.snd = (getPduToRetransmit tx allocated now).2.toList := by
  unfold getPduToRetransmit
  split
  · exact ⟨[], fun turn none => absurd none List.not_mem_nil, rfl, rfl⟩
  · exact searchRetransmit_turns tx.vtS allocated now snModulo tx.vtA tx

end Search

/-- The PDU is in its slot, and the bytes of the holes are pending: flagged, and not given up
because of too many retransmissions. -/
structure Pending (tx : Tx) (sn : Nat) (mem : Memory) (pieces : List Nat)
    (holes : List Span) : Prop where
  asks : AsksFor (tx.pdu sn) mem pieces holes
  place : (tx.pdu sn).sn = sn
  flags : holes ≠ [] → (tx.pdu sn).retransmit = true ∧ (tx.pdu sn).transmitted = true ∧
    (tx.pdu sn).maxRetransmit = false ∧ (tx.pdu sn).retxCountNext ≤ tx.maxRetxThreshold

section Frame

variable {tx tx' : Tx} {sn : Nat} {mem : Memory} {pieces : List Nat} {holes : List Span}

/-- What a turn at another PDU leaves alone. -/
structure OtherSlot (sn : Nat) (before after : Tx) : Prop where
  slot : after.pdu sn = before.pdu sn
  threshold : after.maxRetxThreshold = before.maxRetxThreshold

theorem OtherSlot.trans {a b c : Tx} (left : OtherSlot sn a b) (right : OtherSlot sn b c) :
    OtherSlot sn a c :=
  ⟨right.slot.trans left.slot, right.threshold.trans left.threshold⟩

theorem OtherSlot.pending (other : OtherSlot sn tx tx') (pending : Pending tx sn mem pieces holes) :
    Pending tx' sn mem pieces holes := by
  constructor
  · rw [other.slot]
    exact pending.asks
  · rw [other.slot]
    exact pending.place
  · rw [other.slot, other.threshold]
    exact pending.flags

theorem OtherSlot.granted (tx : Tx) (sn : Nat) (bytes : Int) :
    OtherSlot sn tx { tx with nbBytesRequestedByMac := bytes } :=
  ⟨rfl, rfl⟩

theorem OtherSlot.setPdu (tx : Tx) {other : Nat} (apart : other % windowSize ≠ sn % windowSize)
    (pdu : TxPdu) :
    OtherSlot sn tx (tx.setPdu other pdu) := by
  refine ⟨?_, rfl⟩
  exact Function.update_of_ne (Ne.symm apart) _ _

theorem pduPolling_threshold (tx : Tx) (b1 : Nat) (payloadSize : Int) (now : Nat) :
    (pduPolling tx b1 payloadSize false now).1.maxRetxThreshold = tx.maxRetxThreshold := by
  unfold pduPolling
  simp only
  repeat' split
  all_goals rfl

theorem retransmitAt_other {other : Nat} (apart : other % windowSize ≠ sn % windowSize) (tx : Tx)
    (allocated : Bool) :
    OtherSlot sn tx (retransmitAt tx other allocated).1 := by
  have stored (tx' : Tx) (same : tx'.txDataPduBuffer = tx.txDataPduBuffer)
      (threshold : tx'.maxRetxThreshold = tx.maxRetxThreshold) (pdu : TxPdu) :
          OtherSlot sn tx (tx'.setPdu other pdu) := by
    have unchanged : OtherSlot sn tx tx' := ⟨congrFun same _, threshold⟩
    exact unchanged.trans (OtherSlot.setPdu tx' apart pdu)
  unfold retransmitAt retransmitWhole retransmitSegment hitMaxRetx
  simp only
  repeat' split
  all_goals first
    | exact ⟨rfl, rfl⟩
    | refine stored _ ?_ ?_ _ <;> rfl

theorem retransmitTurn_other (pending : Pending tx sn mem pieces holes) {turn : RetxTurn}
    (other : turn.sn ≠ sn) :
    OtherSlot sn tx (retransmitTurn tx turn).1 := by
  have granted := OtherSlot.granted tx sn turn.bytes
  by_cases apart : turn.sn % windowSize ≠ sn % windowSize
  · have first :=
      retransmitAt_other apart { tx with nbBytesRequestedByMac := turn.bytes } turn.allocated
    rw [retransmitTurn]
    generalize retransmitAt { tx with nbBytesRequestedByMac := turn.bytes } turn.sn turn.allocated =
      tried at first ⊢
    obtain ⟨next, emitted⟩ := tried
    cases emitted with
    | none => exact granted.trans first
    | some out =>
      have polled :=
        (pduPolling_sameRetx next (out.mem 0).toNat (next.pdu turn.sn).payloadSize false turn.now).1
      have threshold :=
        pduPolling_threshold next (out.mem 0).toNat (next.pdu turn.sn).payloadSize turn.now
      exact (granted.trans first).trans
        (OtherSlot.trans ⟨congrFun polled.slots _, threshold⟩ (OtherSlot.setPdu _ apart _))
  · -- Another SN in this slot is none of the PDU's.
    have same : tx.pdu turn.sn = tx.pdu sn := by rw [Tx.pdu, Tx.pdu, not_not.mp apart]
    have place := pending.place
    have idle : retransmitAt { tx with nbBytesRequestedByMac := turn.bytes } turn.sn
      turn.allocated =
        ({ tx with nbBytesRequestedByMac := turn.bytes }, none) := by
      unfold retransmitAt
      have slot : ({ tx with nbBytesRequestedByMac := turn.bytes } : Tx).pdu turn.sn =
        tx.pdu sn := same
      simp only [slot, place]
      rw [if_neg]
      rintro ⟨-, -, here, -⟩
      exact other here.symm
    rw [retransmitTurn, idle]
    exact granted

end Frame

/-- The next bytes of the holes were sent in a block of at most `bytes` bytes, and those of
`left` stay pending. -/
structure Advanced (mem : Memory) (pieces : List Nat) (holes : List Span) (bytes : Int)
    (out : Emitted)
    (left : List Span) : Prop where
  sends : ∃ start count, Sends mem pieces out start count ∧ 0 < count ∧
    numbers holes = List.range' start count ++ numbers left
  room : out.tbSize ≤ bytes
  stops : ∀ hole ∈ left, ∃ before ∈ holes, hole.stop = before.stop

section Step

variable {tx : Tx} {sn : Nat} {mem : Memory} {pieces : List Nat}
    {holes rest : List Span} {hole : Span}

theorem RetxOk.pending_le (ok : RetxOk tx) (flag : (tx.pdu sn).retransmit = true) :
    (tx.pdu sn).retxPayloadSize ≤ tx.retransNumBytesToRetransmit := by
  have inside : sn % windowSize ∈ Finset.range windowSize :=
    Finset.mem_range.mpr (Nat.mod_lt _ (by decide))
  have one := Finset.single_le_sum (fun i _ => ok.pendingBytes_least i) inside
  have here : (tx.pdu sn).pendingBytes = (tx.pdu sn).retxPayloadSize := if_pos flag
  rw [ok.counted.bytes, ← here]
  exact one

theorem pdu_setPdu (tx : Tx) (sn : Nat) (pdu : TxPdu) : (tx.setPdu sn pdu).pdu sn = pdu :=
  Function.update_self _ _ _

theorem consume_stops {count : Nat} {holes : List Span} :
    ∀ span ∈ consume count holes, ∃ before ∈ holes, span.stop = before.stop := by
  cases holes with
  | nil => exact fun span none => absurd none List.not_mem_nil
  | cons first rest =>
    rw [consume]
    intro span member
    split at member
    · rcases List.mem_cons.mp member with rfl | later
      · exact ⟨first, List.mem_cons_self, rfl⟩
      · exact ⟨span, List.mem_cons_of_mem _ later, rfl⟩
    · exact ⟨span, List.mem_cons_of_mem _ member, rfl⟩

theorem AsksFor.whole {pdu : TxPdu} {holes : List Span} (asks : AsksFor pdu mem pieces holes)
    (all : pdu.retxPayloadSize = pdu.payloadSize) : numbers holes = List.range' 0 pieces.sum := by
  obtain ⟨-, full⟩ := numbers_full asks.ordered fun span _ => Nat.zero_le span.start
  have count := asks.retx
  rw [all, asks.amd.payloadSize] at count
  exact full (by omega)

theorem retransmitWhole_pending (pending : Pending tx sn mem pieces (hole :: rest))
    (all : (tx.pdu sn).retxPayloadSize = (tx.pdu sn).payloadSize)
    (grant : tx.nbBytesRequestedByMac ≥ (tx.pdu sn).headerAndPayloadSize) (allocated : Bool) :
    if allocated = true then
      ∃ out, (retransmitWhole tx sn allocated).2 = some out ∧
        Advanced mem pieces (hole :: rest) tx.nbBytesRequestedByMac out [] ∧
        Pending (retransmitWhole tx sn allocated).1 sn mem pieces []
    else
      (retransmitWhole tx sn allocated).2 = none ∧
        Pending (retransmitWhole tx sn allocated).1 sn mem pieces (hole :: rest) := by
  have asks := pending.asks
  have some := asks.ordered.some hole List.mem_cons_self
  have inside := asks.ordered.inside hole List.mem_cons_self
  obtain ⟨-, -, -, below⟩ := pending.flags (List.cons_ne_nil _ _)
  unfold retransmitWhole retransmitGetCopy
  simp only [below, if_true, asks.amd.block]
  cases allocated with
  | false =>
    simp only [Bool.false_eq_true, if_false]
    exact ⟨trivial, pending⟩
  | true =>
    simp only [if_true]
    refine ⟨_, rfl, ⟨⟨0, pieces.sum, sends_whole asks.amd, by omega, ?_⟩, grant, ?_⟩, ?_⟩
    · rw [asks.whole all]
      exact (List.append_nil _).symm
    · exact fun hole none => absurd none List.not_mem_nil
    · constructor
      · rw [pdu_setPdu]
        refine ⟨asks.amd.congr asks.amd.block.symm rfl rfl rfl rfl rfl, ⟨?_, ?_, .nil⟩, rfl,
          fun some => absurd rfl some⟩
        · exact fun hole none => absurd none List.not_mem_nil
        · exact fun hole none => absurd none List.not_mem_nil
      · rw [pdu_setPdu]
        exact pending.place
      · exact fun some => absurd rfl some

theorem retransmitSegment_pending (ok : RetxOk tx)
    (pending : Pending tx sn mem pieces (hole :: rest)) {room : Nat}
    (grant : tx.nbBytesRequestedByMac = ((room + 4 : Nat) : Int)) (roomPos : 0 < room)
    (plannable : Plannable pieces room hole)
    (part : ¬ ((tx.pdu sn).retxPayloadSize = (tx.pdu sn).payloadSize ∧
      tx.nbBytesRequestedByMac ≥ (tx.pdu sn).headerAndPayloadSize)) (allocated : Bool) :
    if allocated = true then
      ∃ out left, (retransmitSegment tx sn allocated).2 = some out ∧
        Advanced mem pieces (hole :: rest) tx.nbBytesRequestedByMac out left ∧
        Pending (retransmitSegment tx sn allocated).1 sn mem pieces left
    else
      (retransmitSegment tx sn allocated).2 = none ∧
        Pending (retransmitSegment tx sn allocated).1 sn mem pieces (hole :: rest) := by
  have asks := pending.asks
  obtain ⟨flag, sent, kept, below⟩ := pending.flags (List.cons_ne_nil _ _)
  have step := getAmSegment_plannable asks grant roomPos plannable part allocated
  have counted := ok.pending_le flag
  unfold retransmitSegment
  rw [if_pos below]
  cases allocated with
  | false =>
    simp only [Bool.false_eq_true, if_false] at step ⊢
    obtain ⟨pdu', result, only, listed⟩ := step
    simp only [result]
    refine ⟨trivial, ?_⟩
    constructor
    · rw [pdu_setPdu]
      refine ⟨only.amd asks.amd, asks.ordered, ?_, fun _ => Or.inr listed⟩
      rw [only.eq]
      exact asks.retx
    · rw [pdu_setPdu, only.eq]
      exact pending.place
    · intro _
      rw [pdu_setPdu, only.eq]
      exact ⟨flag, sent, kept, below⟩
  | true =>
    simp only [if_true] at step ⊢
    obtain ⟨pdu', out, count, result, only, sends, some, within, fits, listed⟩ := step
    have amd := only.amd asks.amd
    have parted := numbers_consume within rest
    have length := congrArg List.length parted
    rw [List.length_append, List.length_range'] at length
    have retx : pdu'.retxPayloadSize = (tx.pdu sn).retxPayloadSize := by rw [only.eq]
    have before := asks.retx
    have size := sends.size
    have enough :
        ¬ (pdu'.retxPayloadSize < out.payloadSize ∨ tx.retransNumBytesToRetransmit <
        out.payloadSize) := by
      omega
    simp only [result, enough, if_false]
    have advanced : Advanced mem pieces (hole :: rest) tx.nbBytesRequestedByMac out
        (consume count (hole :: rest)) :=
      ⟨⟨hole.start, count, sends, some, parted⟩, fits, consume_stops⟩
    have ordered := asks.ordered.consume count
    by_cases done : pdu'.retxPayloadSize - out.payloadSize = 0
    · rw [if_pos done]
      have none : consume count (hole :: rest) = [] := by
        by_contra more
        have := numbers_pos ordered more
        omega
      rw [none] at advanced ordered
      refine ⟨out, [], rfl, advanced, ?_⟩
      constructor
      · rw [pdu_setPdu]
        exact ⟨amd.congr rfl rfl rfl rfl rfl rfl, ordered, rfl, fun some => absurd rfl some⟩
      · rw [pdu_setPdu, only.eq]
        exact pending.place
      · exact fun some => absurd rfl some
    · rw [if_neg done]
      refine ⟨out, consume count (hole :: rest), rfl, advanced, ?_⟩
      constructor
      · rw [pdu_setPdu]
        refine ⟨amd.congr rfl rfl rfl rfl rfl rfl, ordered, ?_, fun some => Or.inr ?_⟩
        · simp only
          omega
        · exact ⟨(listed some).count, (listed some).start, (listed some).stop⟩
      · rw [pdu_setPdu, only.eq]
        exact pending.place
      · intro _
        rw [pdu_setPdu, only.eq]
        exact ⟨flag, sent, kept, below⟩

/-- A turn at the PDU sends the next bytes, or leaves everything pending: for want of a grant of
five bytes or of a free block. -/
theorem retransmitAt_pending (ok : RetxOk tx) (pending : Pending tx sn mem pieces (hole :: rest))
    (plannable : ∀ room : Nat, 0 < room → tx.nbBytesRequestedByMac = ((room + 4 : Nat) : Int) →
      Plannable pieces room hole)
    (allocated : Bool) :
    (∃ out left, (retransmitAt tx sn allocated).2 = some out ∧
      Advanced mem pieces (hole :: rest) tx.nbBytesRequestedByMac out left ∧
      Pending (retransmitAt tx sn allocated).1 sn mem pieces left) ∨
    ((retransmitAt tx sn allocated).2 = none ∧
      Pending (retransmitAt tx sn allocated).1 sn mem pieces (hole :: rest) ∧
      ¬ (5 ≤ tx.nbBytesRequestedByMac ∧ allocated = true)) := by
  have asks := pending.asks
  obtain ⟨flag, sent, kept, below⟩ := pending.flags (List.cons_ne_nil _ _)
  have retx := asks.retx
  have some := numbers_pos asks.ordered (List.cons_ne_nil _ _)
  have active : (tx.pdu sn).retransmit ∧ (tx.pdu sn).maxRetransmit = false ∧ (tx.pdu sn).sn = sn ∧
      (tx.pdu sn).transmitted ∧ 0 < (tx.pdu sn).retxPayloadSize :=
        ⟨flag, kept, pending.place, sent, by omega⟩
  unfold retransmitAt
  simp only
  rw [if_pos active]
  by_cases whole : (tx.pdu sn).retxPayloadSize = (tx.pdu sn).payloadSize ∧
      tx.nbBytesRequestedByMac ≥ (tx.pdu sn).headerAndPayloadSize
  · rw [if_pos whole]
    have step := retransmitWhole_pending pending whole.1 whole.2 allocated
    cases allocated with
    | true =>
      obtain ⟨out, emitted, advanced, after⟩ := step
      exact Or.inl ⟨out, [], emitted, advanced, after⟩
    | false => exact Or.inr ⟨step.1, step.2, fun both => absurd both.2 Bool.false_ne_true⟩
  · rw [if_neg whole]
    by_cases enough : tx.nbBytesRequestedByMac ≥ 5
    · rw [if_pos enough]
      obtain ⟨room, grant⟩ : ∃ room : Nat, tx.nbBytesRequestedByMac = ((room + 4 : Nat) : Int) :=
        ⟨(tx.nbBytesRequestedByMac - 4).toNat, by omega⟩
      have roomPos : 0 < room := by omega
      have step := retransmitSegment_pending ok pending grant roomPos (plannable room roomPos grant)
        whole allocated
      cases allocated with
      | true =>
        obtain ⟨out, left, emitted, advanced, after⟩ := step
        exact Or.inl ⟨out, left, emitted, advanced, after⟩
      | false => exact Or.inr ⟨step.1, step.2, fun both => absurd both.2 Bool.false_ne_true⟩
    · rw [if_neg enough]
      exact Or.inr ⟨rfl, pending, fun both => enough both.1⟩

/-- Polling and the retransmission count leave the account and the hole list alone. -/
theorem Pending.polled (pending : Pending tx sn mem pieces holes) (b1 : Nat)
    (payloadSize : Int) (now : Nat) :
    let polled := (pduPolling tx b1 payloadSize false now).1
    Pending (polled.setPdu sn { polled.pdu sn with retxCount := (polled.pdu sn).retxCountNext }) sn
        mem pieces holes := by
  have slot : (pduPolling tx b1 payloadSize false now).1.pdu sn = tx.pdu sn :=
    congrFun (pduPolling_sameRetx tx b1 payloadSize false now).1.slots _
  have threshold := pduPolling_threshold tx b1 payloadSize now
  have asks := pending.asks
  simp only [slot]
  constructor
  · rw [pdu_setPdu]
    refine ⟨asks.amd.congr rfl rfl rfl rfl rfl rfl, asks.ordered, asks.retx, fun some => ?_⟩
    exact (asks.listed some).imp id fun listed => ⟨listed.count, listed.start, listed.stop⟩
  · rw [pdu_setPdu]
    exact pending.place
  · intro some
    rw [pdu_setPdu]
    exact ⟨(pending.flags some).1, (pending.flags some).2.1, (pending.flags some).2.2.1,
      threshold ▸ (pending.flags some).2.2.2⟩

theorem retransmitTurn_ok (ok : RetxOk tx) (turn : RetxTurn) :
    RetxOk (retransmitTurn tx turn).1 := by
  have granted : RetxOk { tx with nbBytesRequestedByMac := turn.bytes } :=
    ok.of_same ⟨rfl, rfl, rfl⟩ ok.sdus
  have here := retransmitAt_ok granted turn.sn turn.allocated
  rw [retransmitTurn]
  generalize retransmitAt { tx with nbBytesRequestedByMac := turn.bytes } turn.sn turn.allocated =
    tried at here ⊢
  obtain ⟨next, emitted⟩ := tried
  cases emitted with
  | none => exact here
  | some out =>
    obtain ⟨same, sdus⟩ :=
      pduPolling_sameRetx next (out.mem 0).toNat (next.pdu turn.sn).payloadSize false turn.now
    have polled := here.of_same same (by rw [SdusOk, sdus]; exact here.sdus)
    exact polled.keep ⟨rfl, rfl, rfl, rfl, rfl⟩

theorem pduPolling_bit (tx : Tx) (b1 : Nat) (payloadSize : Int) (now : Nat) :
    (pduPolling tx b1 payloadSize false now).2 = b1 ||| (1 <<< 5) ∨
    (pduPolling tx b1 payloadSize false now).2 = b1 &&& (0xFF ^^^ (1 <<< 5)) := by
  unfold pduPolling
  simp only
  repeat' split
  all_goals first
    | exact Or.inl rfl
    | exact Or.inr rfl

theorem retransmitTurn_pending (ok : RetxOk tx) (pending : Pending tx sn mem pieces (hole :: rest))
    {turn : RetxTurn}
    (here : turn.sn = sn)
    (plannable : ∀ room : Nat, 0 < room → turn.bytes = ((room + 4 : Nat) : Int) →
      Plannable pieces room hole) :
    (∃ out left, (retransmitTurn tx turn).2 = some out ∧
        Advanced mem pieces (hole :: rest) turn.bytes out left ∧
      Pending (retransmitTurn tx turn).1 sn mem pieces left) ∨
    ((retransmitTurn tx turn).2 = none ∧
      Pending (retransmitTurn tx turn).1 sn mem pieces (hole :: rest) ∧
      ¬ (5 ≤ turn.bytes ∧ turn.allocated = true)) := by
  have granted : RetxOk { tx with nbBytesRequestedByMac := turn.bytes } :=
    ok.of_same ⟨rfl, rfl, rfl⟩ ok.sdus
  have same : Pending { tx with nbBytesRequestedByMac := turn.bytes } sn mem pieces
      (hole :: rest) :=
    (OtherSlot.granted tx sn turn.bytes).pending pending
  have step := retransmitAt_pending granted same plannable turn.allocated
  rw [retransmitTurn, here]
  generalize retransmitAt { tx with nbBytesRequestedByMac := turn.bytes } sn turn.allocated =
    tried at step ⊢
  obtain ⟨next, emitted⟩ := tried
  cases emitted with
  | none =>
    refine Or.inr (step.resolve_left ?_)
    rintro ⟨out, left, emitted, -⟩
    cases emitted
  | some out =>
    refine Or.inl ?_
    rcases step with ⟨out', left, emitted, advanced, after⟩ | ⟨emitted, -⟩
    · cases emitted
      obtain ⟨start, count, sends, some, parted⟩ := advanced.sends
      have polled :=
        sends.polled (pduPolling_bit next (out.mem 0).toNat (next.pdu sn).payloadSize turn.now)
      exact ⟨_, left, rfl, ⟨⟨start, count, polled, some, parted⟩, advanced.room, advanced.stops⟩,
        after.polled _ _ _⟩
    · cases emitted

theorem retransmitTurn_done (pending : Pending tx sn mem pieces []) {turn : RetxTurn}
    (here : turn.sn = sn) :
    (retransmitTurn tx turn).2 = none ∧ Pending (retransmitTurn tx turn).1 sn mem pieces [] := by
  have retx : (tx.pdu sn).retxPayloadSize = 0 := pending.asks.retx
  have idle : retransmitAt { tx with nbBytesRequestedByMac := turn.bytes } turn.sn turn.allocated =
      ({ tx with nbBytesRequestedByMac := turn.bytes }, none) := by
    unfold retransmitAt
    have slot : ({ tx with nbBytesRequestedByMac := turn.bytes } : Tx).pdu turn.sn = tx.pdu sn := by
      rw [here]
      rfl
    simp only [slot, retx]
    rw [if_neg]
    rintro ⟨-, -, -, -, some⟩
    exact absurd some (Int.lt_irrefl 0)
  rw [retransmitTurn, idle]
  exact ⟨rfl, (OtherSlot.granted tx sn turn.bytes).pending pending⟩

end Step

end OpenAir.Rlc.Am
