import OpenAir.Rlc.Am.NackHoles
import OpenAir.Rlc.Am.ResegmentRun
import OpenAir.Rlc.Am.RetxRun

/-! Retransmission over any sequence of turns sends the bytes of the holes once and in order,
exactly when the counter of SDUs can count the pieces of the PDU or the holes end in its first. -/
namespace OpenAir.Rlc.Am
open BitField Spans

/-- The offsets in the original payload that the block says it carries. -/
def Emitted.offsets (out : Emitted) : List Nat :=
  List.range' (readFixedHeader out.mem).so out.payloadSize.toNat

/-- The blocks that the turns at one PDU sent. -/
def sentFor (sn : Nat) (tx : Tx) (turns : List RetxTurn) : List (RetxTurn × Emitted) :=
  (sentTurns tx turns).filter fun sent => sent.1.sn = sn

/-- The bytes of the PDU that were sent, in the order of the blocks. -/
def sentOffsets (sn : Nat) (tx : Tx) (turns : List RetxTurn) : List Nat :=
  (sentFor sn tx turns).flatMap fun sent => sent.2.offsets

/-- A block sent for the PDU in the slot: not empty, no larger than its grant, with the bytes of the
payload from its offset on, and in a segment with the last segment flag exactly at the end. -/
structure SentRight (pdu : TxPdu) (mem : Memory) (turn : RetxTurn) (out : Emitted) : Prop where
  some : 0 < out.payloadSize
  fits : out.tbSize ≤ turn.bytes
  lsf : (readFixedHeader out.mem).rf = true →
    ((readFixedHeader out.mem).lsf = true ↔ (readFixedHeader out.mem).so + out.payloadSize =
      pdu.payloadSize)
  data : ∀ i < out.payloadSize.toNat,
    out.mem (out.tbSize.toNat - out.payloadSize.toNat + i) =
      mem (pdu.payload + (readFixedHeader out.mem).so + i)

/-- After the turns: the bytes of the holes were sent once and in increasing order as far as they
were sent, `retx_payload_size` counts the others, and nothing but a grant below five bytes or a
missing block keeps a further turn from sending more of them. -/
structure Covers (tx : Tx) (sn : Nat) (mem : Memory) (holes : List Span)
    (turns : List RetxTurn) : Prop where
  inOrder : sentOffsets sn tx turns <+: numbers holes
  left : ((afterTurns tx turns).pdu sn).retxPayloadSize =
    (numbers holes).length - (sentOffsets sn tx turns).length
  exhausted : ((afterTurns tx turns).pdu sn).retxPayloadSize = 0 ↔
    sentOffsets sn tx turns = numbers holes
  right : ∀ sent ∈ sentFor sn tx turns, SentRight (tx.pdu sn) mem sent.1 sent.2
  goesOn : sentOffsets sn tx turns ≠ numbers holes → ∀ turn : RetxTurn, turn.sn = sn →
    5 ≤ turn.bytes →
    turn.allocated = true → (retransmitTurn (afterTurns tx turns) turn).2.isSome

section Run

variable {tx : Tx} {sn : Nat} {mem : Memory} {pieces : List Nat}
    {holes rest : List Span} {hole : Span}

/-- The counter of SDUs counts the pieces, or all holes end in the first of them. -/
def Countable (pieces : List Nat) (holes : List Span) : Prop :=
  pieces.length < 128 ∨ ∀ hole ∈ holes, hole.stop ≤ pieces.headD 0

theorem Countable.plannable (countable : Countable pieces (hole :: rest))
    (some : hole.start < hole.stop) (room : Nat) :
    Plannable pieces room hole := by
  rcases countable with few | first
  · exact Or.inl few
  · have here := first hole List.mem_cons_self
    exact Or.inr ⟨Nat.lt_of_lt_of_le some here, Or.inl here⟩

theorem Advanced.countable {bytes : Int} {out : Emitted} {left : List Span}
    (countable : Countable pieces holes)
    (advanced : Advanced mem pieces holes bytes out left) : Countable pieces left := by
  refine countable.imp id fun first hole member => ?_
  obtain ⟨before, inside, stop⟩ := advanced.stops hole member
  rw [stop]
  exact first before inside

theorem sentFor_cons (turn : RetxTurn) (turns : List RetxTurn) :
    sentFor sn tx (turn :: turns) =
      (if turn.sn = sn then
        ((retransmitTurn tx turn).2.map fun out => (turn, out)).toList else []) ++
        sentFor sn (retransmitTurn tx turn).1 turns := by
  rw [sentFor, sentTurns, List.filter_append, ← sentFor]
  congr 1
  cases (retransmitTurn tx turn).2 with
  | none => split <;> rfl
  | some out =>
    by_cases here : turn.sn = sn
    · simp [here]
    · simp [here]

theorem sentFor_silent {turn : RetxTurn} (silent : turn.sn = sn → (retransmitTurn tx turn).2 = none)
    (turns : List RetxTurn) :
    sentFor sn tx (turn :: turns) = sentFor sn (retransmitTurn tx turn).1 turns := by
  rw [sentFor_cons]
  split
  · rw [silent ‹_›]
    rfl
  · rfl

theorem sentFor_sent {turn : RetxTurn} {out : Emitted} (here : turn.sn = sn)
    (emitted : (retransmitTurn tx turn).2 = some out)
    (turns : List RetxTurn) :
    sentFor sn tx (turn :: turns) = (turn, out) :: sentFor sn (retransmitTurn tx turn).1 turns := by
  rw [sentFor_cons, if_pos here, emitted]
  rfl

theorem Sends.offsets {original : Memory} {out : Emitted} {so count : Nat}
    (sends : Sends original pieces out so count) :
    out.offsets = List.range' so count := by
  rw [Emitted.offsets, sends.offset, sends.size, Int.toNat_natCast]

theorem Sends.right {pdu : TxPdu} {out : Emitted} {so count : Nat} {turn : RetxTurn}
    (sends : Sends mem pieces out so count)
    (some : 0 < count) (amd : AmdPdu pdu mem pieces) (fits : out.tbSize ≤ turn.bytes) :
    SentRight pdu mem turn out := by
  have size := sends.size
  refine ⟨by omega, fits, fun segment => ?_, fun i inside => ?_⟩
  · rw [(sends.segment segment).2, sends.offset, size, amd.payloadSize]
    omega
  · rw [size, Int.toNat_natCast] at inside ⊢
    rw [sends.offset, amd.payload]
    exact sends.data i inside

/-- Every run of turns keeps the account and goes through the bytes of the holes from the front. -/
theorem turns_covered (ok : RetxOk tx) (pending : Pending tx sn mem pieces holes)
    (countable : Countable pieces holes)
    (turns : List RetxTurn) :
    RetxOk (afterTurns tx turns) ∧ ∃ left, Pending (afterTurns tx turns) sn mem pieces left ∧
    Countable pieces left ∧
      sentOffsets sn tx turns ++ numbers left = numbers holes ∧
      ∀ sent ∈ sentFor sn tx turns, ∃ so count, Sends mem pieces sent.2 so count ∧ 0 < count ∧
        sent.2.tbSize ≤ sent.1.bytes := by
  induction turns generalizing tx holes with
  | nil => exact ⟨ok, holes, pending, countable, rfl, fun sent none => absurd none List.not_mem_nil⟩
  | cons turn turns ih =>
    have okNext := retransmitTurn_ok ok turn
    rw [afterTurns, sentOffsets]
    -- A turn that sends nothing for the PDU leaves its holes as they are.
    have silent (still : turn.sn = sn → (retransmitTurn tx turn).2 = none)
        (after : Pending (retransmitTurn tx turn).1 sn mem pieces holes) : RetxOk _ ∧ ∃ left, _ :=
      ih okNext after countable
    by_cases here : turn.sn = sn
    · cases holes with
      | nil =>
        obtain ⟨none, after⟩ := retransmitTurn_done pending here
        rw [sentFor_silent fun _ => none]
        exact silent (fun _ => none) after
      | cons hole rest =>
        have some := pending.asks.ordered.some hole List.mem_cons_self
        rcases retransmitTurn_pending ok pending here
            fun room _ _ => countable.plannable some room with
          ⟨out, left, emitted, advanced, after⟩ | ⟨none, after, -⟩
        · obtain ⟨okLast, left', last, count', joined, right⟩ :=
            ih okNext after (advanced.countable countable)
          obtain ⟨start, count, sends, countPos, parted⟩ := advanced.sends
          rw [sentFor_sent here emitted]
          refine ⟨okLast, left', last, count', ?_, ?_⟩
          · rw [List.flatMap_cons, sends.offsets, List.append_assoc, parted, ← joined, sentOffsets]
          · intro sent member
            rcases List.mem_cons.mp member with rfl | later
            · exact ⟨start, count, sends, countPos, advanced.room⟩
            · exact right sent later
        · rw [sentFor_silent fun _ => none]
          exact silent (fun _ => none) after
    · rw [sentFor_silent fun same => absurd same here]
      exact silent (fun same => absurd same here)
        ((retransmitTurn_other pending here).pending pending)

theorem covers_of_countable (ok : RetxOk tx) (pending : Pending tx sn mem pieces holes)
    (countable : Countable pieces holes)
    (turns : List RetxTurn) : Covers tx sn mem holes turns := by
  obtain ⟨okLast, left, last, countable', joined, right⟩ := turns_covered ok pending countable turns
  have retx := last.asks.retx
  have length := congrArg List.length joined
  rw [List.length_append] at length
  have all : sentOffsets sn tx turns = numbers holes ↔ numbers left = [] := by
    rw [← joined]
    exact ⟨fun same => List.self_eq_append_right.mp same, fun none => by rw [none, List.append_nil]⟩
  refine ⟨⟨numbers left, joined⟩, by
    omega, ?_, fun sent member => ?_, fun more turn here bytes block => ?_⟩
  · rw [all, ← List.length_eq_zero_iff]
    omega
  · obtain ⟨so, count, sends, some, fits⟩ := right sent member
    exact sends.right some pending.asks.amd fits
  · cases left with
    | nil => exact absurd (all.mpr rfl) more
    | cons hole rest =>
      have some := last.asks.ordered.some hole List.mem_cons_self
      rcases retransmitTurn_pending okLast last here
          fun room _ _ => countable'.plannable some room with
        ⟨out, -, emitted, -⟩ | ⟨-, -, short⟩
      · rw [emitted]
        rfl
      · exact absurd ⟨bytes, block⟩ short

def fiveByteTurn (sn : Nat) : RetxTurn := ⟨sn, 5, true, 0⟩

/-- A grant of five bytes is not one for a PDU of 128 pieces. -/
theorem AmdPdu.wide_size {pdu : TxPdu} (amd : AmdPdu pdu mem pieces) (wide : pieces.length = 128) :
    ¬ (5 : Int) ≥ pdu.headerAndPayloadSize := by
  have header : headerLiLength (pieces.length - 1) = 191 := by rw [wide]; rfl
  rw [amd.size, announcedHeader, amd.whole, header]
  omega

/-- With 128 pieces nothing is sent once the first hole starts behind the first piece. -/
theorem wide_stuck (pending : Pending tx sn mem pieces (hole :: rest)) (wide : pieces.length = 128)
    (behind : pieces.headD 0 ≤ hole.start) : (retransmitTurn tx (fiveByteTurn sn)).2 = none := by
  have asks := pending.asks
  obtain ⟨flag, sent, kept, below⟩ := pending.flags (List.cons_ne_nil _ _)
  have retx := asks.retx
  have some := numbers_pos asks.ordered (List.cons_ne_nil _ _)
  have active : (tx.pdu sn).retransmit ∧ (tx.pdu sn).maxRetransmit = false ∧ (tx.pdu sn).sn = sn ∧
      (tx.pdu sn).transmitted ∧ 0 < (tx.pdu sn).retxPayloadSize :=
        ⟨flag, kept, pending.place, sent, by omega⟩
  have none := getAmSegment_behind asks wide (Int.le_refl 5) behind true
  have idle : (retransmitAt { tx with nbBytesRequestedByMac := 5 } sn true).2 = Option.none := by
    have slot : ({ tx with nbBytesRequestedByMac := 5 } : Tx).pdu sn = tx.pdu sn := rfl
    unfold retransmitAt
    simp only [slot]
    rw [if_pos active,
      if_neg fun whole => asks.amd.wide_size wide whole.2, if_pos (Int.le_refl 5),
      retransmitSegment]
    simp only [slot]
    rw [if_pos below]
    generalize retransmitGetAmSegment (tx.pdu sn) 5 true = segment at none ⊢
    obtain ⟨pdu, emitted⟩ := segment
    cases emitted with
    | none => rfl
    | some out => cases none
  rw [retransmitTurn, fiveByteTurn]
  generalize retransmitAt { tx with nbBytesRequestedByMac := 5 } sn true = tried at idle ⊢
  obtain ⟨next, emitted⟩ := tried
  cases emitted with
  | none => rfl
  | some out => cases idle

/-- A PDU of 128 pieces comes to a stand behind its first piece. -/
theorem wide_blocked (ok : RetxOk tx) (pending : Pending tx sn mem pieces holes)
    (wide : pieces.length = 128)
    (beyond : ∃ offset ∈ numbers holes, pieces.headD 0 ≤ offset) :
    ∃ turns, sentOffsets sn tx turns ≠ numbers holes ∧
      (retransmitTurn (afterTurns tx turns) (fiveByteTurn sn)).2 = none := by
  induction count : (numbers holes).length using Nat.strongRecOn generalizing tx holes with
  | _ total ih =>
    obtain ⟨offset, member, far⟩ := beyond
    cases holes with
    | nil => exact absurd member List.not_mem_nil
    | cons hole rest =>
      have some := pending.asks.ordered.some hole List.mem_cons_self
      by_cases behind : pieces.headD 0 ≤ hole.start
      · refine ⟨[], fun same => ?_, wide_stuck pending wide behind⟩
        have nothing : numbers (hole :: rest) = [] := same.symm
        rw [nothing] at member
        exact absurd member List.not_mem_nil
      · have plannable : ∀ room : Nat, 0 < room → (5 : Int) = ((room + 4 : Nat) : Int) →
            Plannable pieces room hole :=
          fun room _ one => Or.inr ⟨by omega, Or.inr (by omega)⟩
        rcases @retransmitTurn_pending tx sn mem pieces rest hole ok pending
            (fiveByteTurn sn) rfl plannable with
          ⟨out, left, emitted, advanced, after⟩ | ⟨-, -, short⟩
        · obtain ⟨start, taken, sends, takenPos, parted⟩ := advanced.sends
          have one : taken = 1 ∧ start = hole.start := by
            refine ⟨?_, ?_⟩
            · have room : out.tbSize ≤ 5 := advanced.room
              have header := sends.header
              cases rf : (readFixedHeader out.mem).rf with
              | true =>
                rw [(sends.segment rf).1] at header
                omega
              | false =>
                have long := List.length_le_sum_of_one_le pieces pending.asks.amd.pos
                have whole := (sends.whole rf).2.2
                omega
            · have first := congrArg List.head? parted
              obtain ⟨size, hole_⟩ : ∃ size, hole.stop - hole.start = size + 1 :=
                ⟨hole.stop - hole.start - 1, by omega⟩
              obtain ⟨less, taken_⟩ : ∃ less, taken = less + 1 := ⟨taken - 1, by omega⟩
              rw [numbers_cons, Span.numbers, hole_, taken_, List.range'_succ, List.range'_succ]
                at first
              exact (Option.some.inj first).symm
          have later : offset ∈ numbers left := by
            rw [parted, one.1, one.2] at member
            rcases List.mem_append.mp member with here | later
            · rw [List.mem_range'_1] at here
              omega
            · exact later
          have length := congrArg List.length parted
          rw [List.length_append, List.length_range'] at length
          obtain ⟨turns, more, blocked⟩ :=
            ih (numbers left).length (by omega) (retransmitTurn_ok ok (fiveByteTurn sn)) after
            ⟨offset, later, far⟩ rfl
          refine ⟨fiveByteTurn sn :: turns, fun same => more ?_, blocked⟩
          rw [sentOffsets, sentFor_sent (show (fiveByteTurn sn).sn = sn from rfl) emitted,
            List.flatMap_cons, sends.offsets, parted] at same
          exact List.append_cancel_left same
        · exact absurd ⟨Int.le_refl 5, rfl⟩ short

/-- A PDU with bytes pending in a list of disjoint holes, in a state whose retransmission counters
agree with its slots, under any sequence of grants, with turns at other PDUs in between: the bytes
of the holes go out right exactly when there are at most 127 SDU pieces or all holes end in the
first. -/
theorem holes_covered_iff (tx : Tx) (ok : RetxOk tx) (sn : Nat) (mem : Memory) (pieces : List Nat)
    (holes : List Span)
    (pending : Pending tx sn mem pieces holes) :
    (∀ turns, Covers tx sn mem holes turns) ↔
      pieces.length < 128 ∨ ∀ hole ∈ holes, hole.stop ≤ pieces.headD 0 := by
  refine ⟨fun covers => ?_, fun countable => covers_of_countable ok pending countable⟩
  by_contra uncountable
  rw [not_or, not_lt] at uncountable
  obtain ⟨many, outside⟩ := uncountable
  have most : pieces.length ≤ 128 := pending.asks.amd.announces.few
  obtain ⟨hole, member, beyond⟩ : ∃ hole ∈ holes, pieces.headD 0 < hole.stop := by
    by_contra none
    exact outside fun hole member => not_lt.mp fun less => none ⟨hole, member, less⟩
  have some := pending.asks.ordered.some hole member
  have last : hole.stop - 1 ∈ numbers holes := by
    refine List.mem_flatMap.mpr ⟨hole, member, ?_⟩
    rw [Span.numbers, List.mem_range'_1]
    omega
  obtain ⟨turns, more, blocked⟩ :=
    wide_blocked ok pending (by omega) ⟨hole.stop - 1, last, by omega⟩
  have going := (covers turns).goesOn more (fiveByteTurn sn) rfl (Int.le_refl 5) rfl
  rw [blocked] at going
  cases going

end Run

section Sample

/-- A transmitter with one slot in use, all of whose pending bytes are counted. -/
def onePduTx (pdu : TxPdu) : Tx :=
  { txInit ⟨4, 0xFFFF, 0xFFFFFFFF, 0⟩ with
    retransNumPdus := 1
    retransNumBytesToRetransmit := pdu.retxPayloadSize }.setPdu 0 pdu

theorem onePduTx_ok {pdu : TxPdu} (flag : pdu.retransmit = true) (slot : SlotOk pdu) :
    RetxOk (onePduTx pdu) := by
  refine (txInit_ok ⟨4, 0xFFFF, 0xFFFFFFFF, 0⟩).store rfl rfl slot ?_ ?_
  · rw [TxPdu.pendingPdus, if_pos flag]
    rfl
  · rw [TxPdu.pendingBytes, if_pos flag]
    exact (Int.zero_add _).symm.trans (congrArg (0 + ·) (Int.sub_zero _).symm)

/-- The PDU of two SDUs with the bytes 1 to 2 and 6 to 11 reported missing. -/
def twoHolesPdu : TxPdu :=
  { twoPiecesPdu with
    holeSoStart := fun i => if i = 0 then 1 else 6
    holeSoStop := fun i => if i = 0 then 2 else 11
    numHoles := 2
    retxPayloadSize := 8 }

def twoHoles : List Span := [⟨1, 3⟩, ⟨6, 12⟩]

theorem twoHoles_pending : Pending (onePduTx twoHolesPdu) 0 twoPieces [5, 7] twoHoles where
  asks :=
    { amd := twoPiecesPdu_amd.congr rfl rfl rfl rfl rfl rfl
      ordered := ⟨by decide, by decide, by decide⟩
      retx := rfl
      listed := fun _ => Or.inr ⟨rfl, by decide, by decide⟩ }
  place := rfl
  flags _ := ⟨rfl, rfl, rfl, by decide⟩

theorem holes_covered_twoHoles :
    Covers (onePduTx twoHolesPdu) 0 twoPieces twoHoles
      [⟨0, 12, true, 0⟩, ⟨3, 40, true, 0⟩, ⟨0, 7, true, 0⟩, ⟨0, 16, true, 0⟩] :=
  (holes_covered_iff (onePduTx twoHolesPdu)
    (onePduTx_ok rfl ⟨fun _ => ⟨rfl, rfl, by decide⟩, nofun, fun _ => by decide⟩) 0
    twoPieces [5, 7] twoHoles twoHoles_pending).mpr (Or.inl (by decide)) _

example : sentOffsets 0 (onePduTx twoHolesPdu)
      [⟨0, 12, true, 0⟩, ⟨3, 40, true, 0⟩, ⟨0, 7, true, 0⟩, ⟨0, 16, true, 0⟩] =
    [1, 2, 6, 7, 8, 9, 10, 11] := by
  decide +kernel

/-- A PDU of 128 SDUs of one byte: 127 length indicators of one in front of the payload. -/
def manyPieces : Memory := fun a =>
  if a = 0 then 0x84 else if a = 1 then 0 else if a < 191 then
    [0x80, 0x18, 0x01].getD ((a - 2) % 3) 0
  else if a = 191 then 0 else if a = 192 then 0x10 else UInt8.ofNat a

def manyPiecesPdu : TxPdu where
  memBlock := some manyPieces
  payload := 193
  sdusIndex := List.range 128
  headerAndPayloadSize := 321
  payloadSize := 128
  retxPayloadSize := 128
  transmitted := true
  retransmit := true

theorem entries_replicate {mem : Memory} {start total li : Nat} (count k : Nat)
    (each : ∀ j < k + count, liAt mem start j = li ∧ liE mem start j = decide (j + 1 < total)) :
    Entries mem start total k (List.replicate count li) := by
  induction count generalizing k with
  | zero => trivial
  | succ count ih =>
    have here := each k (by omega)
    exact ⟨here.1, here.2, ih (k + 1) fun j below => each j (by omega)⟩

theorem manyPieces_amd : AmdPdu manyPiecesPdu manyPieces (List.replicate 128 1) where
  block := rfl
  announces :=
    { data := by decide
      e := by decide +kernel
      few := by decide +kernel
      entries := entries_replicate 127 0 (by decide +kernel) }
  whole := by decide
  some := List.cons_ne_nil _ _
  pos piece member := by
    rw [List.eq_of_mem_replicate member]
    decide
  small := by decide +kernel
  count := by decide +kernel
  payloadSize := by decide +kernel
  payload := by decide +kernel
  size := by decide +kernel
  sn := by decide

theorem manyPieces_pending :
    Pending (onePduTx manyPiecesPdu) 0 manyPieces (List.replicate 128 1) [⟨0, 128⟩] where
  asks :=
    { amd := manyPieces_amd
      ordered := ⟨by decide +kernel, by decide +kernel, by decide⟩
      retx := by decide +kernel
      listed := fun _ => Or.inl ⟨rfl, by decide +kernel⟩ }
  place := rfl
  flags _ := ⟨rfl, rfl, rfl, by decide⟩

/-- The first byte goes out, and nothing ever after it. -/
theorem manyPieces_not_covered :
    Pending (onePduTx manyPiecesPdu) 0 manyPieces (List.replicate 128 1) [⟨0, 128⟩] ∧
    sentOffsets 0 (onePduTx manyPiecesPdu) [fiveByteTurn 0, fiveByteTurn 0] = [0] ∧
    ¬ Covers (onePduTx manyPiecesPdu) 0 manyPieces [⟨0, 128⟩] [fiveByteTurn 0] := by
  have sent : sentOffsets 0 (onePduTx manyPiecesPdu) [fiveByteTurn 0] = [0] := by decide +kernel
  have stuck :
      (retransmitTurn (afterTurns (onePduTx manyPiecesPdu) [fiveByteTurn 0])
      (fiveByteTurn 0)).2.isSome = false := by
    decide +kernel
  refine ⟨manyPieces_pending, by decide +kernel, fun covers => ?_⟩
  have more : sentOffsets 0 (onePduTx manyPiecesPdu) [fiveByteTurn 0] ≠ numbers [⟨0, 128⟩] := by
    rw [sent]
    decide
  have going := covers.goesOn more (fiveByteTurn 0) rfl (Int.le_refl 5) rfl
  rw [stuck] at going
  cases going

end Sample

end OpenAir.Rlc.Am
