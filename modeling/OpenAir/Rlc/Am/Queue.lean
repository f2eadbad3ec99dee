import OpenAir.Rlc.Am.Segment
import OpenAir.Rlc.Am.Cut

/-! The ring of input SDUs seen as a queue, and what the second pass of the
segmentation takes from it. -/
namespace OpenAir.Rlc.Am
open BitField

/-- The place in the ring of the SDU `j` places behind the current one. -/
def Tx.place (tx : Tx) (j : Nat) : Nat := (tx.currentSduIndex + j) % sduControlBufferSize

theorem place_inj {tx : Tx} {i j : Nat} (left : i < sduControlBufferSize)
    (right : j < sduControlBufferSize)
    (same : tx.place i = tx.place j) : i = j := by
  simp only [Tx.place, sduControlBufferSize] at left right same
  omega

def Tx.queue (tx : Tx) : List TxSdu :=
  (List.range tx.nbSduNoSegmented.toNat).map fun j => tx.inputSdus (tx.place j)

/-- An SDU with bytes left to send, of a size that a length indicator can hold. -/
structure TxSdu.Waiting (sdu : TxSdu) : Prop where
  block : sdu.memBlock.isSome
  remaining : 0 < sdu.sduRemainingSize
  total : sdu.sduSegmentedSize + sdu.sduRemainingSize = sdu.sduSize
  short : sdu.sduSize ≤ 2047

/-- The SDUs of `queue` stand in the ring from the current one on. -/
structure Holding (tx : Tx) (queue : List TxSdu) : Prop where
  current : tx.currentSduIndex < sduControlBufferSize
  short : queue.length < sduControlBufferSize
  sdus : ∀ j (inside : j < queue.length), tx.inputSdus (tx.place j) = queue[j]
  waiting : ∀ sdu ∈ queue, sdu.Waiting

/-- What is left of an SDU after a piece of it was sent. -/
def TxSdu.advance (sdu : TxSdu) (size : Nat) : TxSdu :=
  if size = sdu.sduRemainingSize then
    { sdu with memBlock := none, sduRemainingSize := 0 }
  else
    { sdu with
      sduRemainingSize := sdu.sduRemainingSize - size
      sduSegmentedSize := sdu.sduSegmentedSize + size }

theorem advance_remaining (sdu : TxSdu) (size : Nat) :
    (sdu.advance size).sduRemainingSize = sdu.sduRemainingSize - size := by
  unfold TxSdu.advance
  split
  · rename_i whole
    simp [whole]
  · rfl

/-- Pieces taken from the head of a queue, `finished` of them up to the end of their SDU. -/
structure Taken (queue : List TxSdu) (pieces : List Nat) (finished : Nat)
    (before after : Tx) : Prop where
  current : after.currentSduIndex = before.place finished
  count : after.nbSduNoSegmented = before.nbSduNoSegmented - finished
  occupancy : after.sduBufferOccupancy = before.sduBufferOccupancy - pieces.sum
  sdus : ∀ j < pieces.length, after.inputSdus (before.place j) =
    (queue.getD j {}).advance (pieces.getD j 0)
  others : ∀ i, (∀ j < pieces.length, i ≠ before.place j) → after.inputSdus i = before.inputSdus i

theorem Holding.place_zero {tx : Tx} {queue : List TxSdu} (holding : Holding tx queue) :
    tx.place 0 = tx.currentSduIndex := by
  rw [Tx.place, Nat.add_zero, Nat.mod_eq_of_lt holding.current]

theorem Holding.head {tx : Tx} {sdu : TxSdu} {rest : List TxSdu}
    (holding : Holding tx (sdu :: rest)) :
    tx.inputSdus tx.currentSduIndex = sdu := by
  have first := holding.sdus 0 (Nat.succ_pos _)
  rwa [holding.place_zero] at first

section OneSdu

variable {s : SecondPass} {sdu : TxSdu} {rest : List TxSdu} {bytes : Memory} {testNumLi k : Nat}

theorem finishSdu_taken (holding : Holding s.tx (sdu :: rest)) {filled : SecondPass}
    (tx : filled.tx =
      { s.tx with sduBufferOccupancy := s.tx.sduBufferOccupancy - sdu.sduRemainingSize }) :
    Taken (sdu :: rest) [sdu.sduRemainingSize] 1 s.tx filled.finishSdu.tx := by
  have block : sdu.memBlock.isSome := (holding.waiting sdu List.mem_cons_self).block
  have freed : filled.finishSdu.tx =
      { s.tx.setSdu s.tx.currentSduIndex { sdu with memBlock := none, sduRemainingSize := 0 } with
        nbSduNoSegmented := s.tx.nbSduNoSegmented - 1
        sduBufferOccupancy := s.tx.sduBufferOccupancy - sdu.sduRemainingSize
        currentSduIndex := (s.tx.currentSduIndex + 1) % sduControlBufferSize } := by
    simp only [SecondPass.finishSdu, freeInSduData, tx, holding.head, block, if_true, Tx.setSdu]
  rw [freed]
  refine ⟨rfl, rfl, ?_, ?_, ?_⟩
  · simp
  · intro j inside
    obtain rfl : j = 0 := by simpa using inside
    simp only [holding.place_zero, Tx.setSdu, Function.update_self, List.getD_cons_zero,
      TxSdu.advance, if_true]
  · intro i away
    have other : i ≠ s.tx.currentSduIndex := holding.place_zero ▸ away 0 (Nat.succ_pos _)
    simp only [Tx.setSdu, Function.update_of_ne other]

theorem partial_taken (holding : Holding s.tx (sdu :: rest)) {size : Nat}
    (less : size < sdu.sduRemainingSize) :
    Taken (sdu :: rest) [size] 0 s.tx
      ({ s.tx with sduBufferOccupancy := s.tx.sduBufferOccupancy - size }.setSdu
        s.tx.currentSduIndex
        { sdu with
          sduRemainingSize := sdu.sduRemainingSize - size
          sduSegmentedSize := sdu.sduSegmentedSize + size }) := by
  refine ⟨holding.place_zero.symm, ?_, ?_, ?_, ?_⟩
  · simp [Tx.setSdu]
  · simp [Tx.setSdu]
  · intro j inside
    obtain rfl : j = 0 := by simpa using inside
    simp only [holding.place_zero, Tx.setSdu, Function.update_self,
      List.getD_cons_zero, TxSdu.advance, Nat.ne_of_lt less, if_false]
  · intro i away
    have other : i ≠ s.tx.currentSduIndex := holding.place_zero ▸ away 0 (Nat.succ_pos _)
    simp only [Tx.setSdu, Function.update_of_ne other]

/-- The last round: the state it leaves has nothing more to fill. -/
structure LastRound (queue : List TxSdu) (s last : SecondPass) (size finished : Nat) : Prop where
  taken : Taken queue [size] finished s.tx last.tx
  stopped : last.continueFill = false
  fillNumLi : last.fillNumLi = s.fillNumLi
  payloadSize : last.payloadSize = s.payloadSize + size
  fiLast : last.fiLast = decide (finished = 1)

/-- An SDU that reaches the end of the PDU. -/
theorem fill_fits (holding : Holding s.tx (sdu :: rest))
    (fits : s.pduRemainingSize ≤ sdu.sduRemainingSize) :
    LastRound (sdu :: rest) s (s.fill testNumLi bytes) s.pduRemainingSize
      (if s.pduRemainingSize = sdu.sduRemainingSize then 1 else 0) ∧
    (s.fill testNumLi bytes).pduRemainingSize = 0 ∧
    (s.fill testNumLi bytes).mem =
      copyBytes s.mem s.data bytes sdu.sduSegmentedSize s.pduRemainingSize := by
  by_cases whole : s.pduRemainingSize = sdu.sduRemainingSize
  · have filled : s.fill testNumLi bytes = { (s.copy bytes sdu.sduRemainingSize).finishSdu with
        fiLast := true, continueFill := false, pduRemainingSize := 0 } := by
      simp [SecondPass.fill, holding.head, whole]
    rw [filled, if_pos whole, whole]
    refine ⟨⟨finishSdu_taken holding rfl, rfl, rfl, rfl, rfl⟩, rfl, ?_⟩
    simp [SecondPass.finishSdu, SecondPass.copy, holding.head]
  · have less : s.pduRemainingSize < sdu.sduRemainingSize := Nat.lt_of_le_of_ne fits whole
    rw [if_neg whole]
    unfold SecondPass.fill
    simp only [holding.head, less, if_true]
    refine ⟨⟨partial_taken holding less, rfl, rfl, rfl, rfl⟩, trivial, ?_⟩
    simp [SecondPass.copy, holding.head]

/-- An SDU that ends before the PDU but leaves no place for another one. -/
theorem fill_short (holding : Holding s.tx (sdu :: rest)) (fill : s.fillNumLi = k)
    (li : s.liLengthInBytes = 1 + k % 2)
    (ends : sdu.sduRemainingSize < s.pduRemainingSize)
    (short : ¬ (sdu.sduRemainingSize + liBytes k < s.pduRemainingSize ∧ k < maxSduInPdu - 1))
    (below : k < maxSduInPdu) :
    LastRound (sdu :: rest) s (s.fill testNumLi bytes) sdu.sduRemainingSize 1 ∧
    (s.fill testNumLi bytes).pduRemainingSize ≤ s.pduRemainingSize - sdu.sduRemainingSize := by
  have beyond : ¬ sdu.sduRemainingSize > s.pduRemainingSize := by omega
  have other : sdu.sduRemainingSize ≠ s.pduRemainingSize := by omega
  unfold SecondPass.fill
  simp only [holding.head, beyond, other, if_false, li, toggle_li, fill]
  split
  · have full : k = maxSduInPdu - 1 := by omega
    rw [if_pos full]
    exact ⟨⟨finishSdu_taken holding rfl, rfl, rfl, rfl, rfl⟩, Nat.zero_le _⟩
  · exact ⟨⟨finishSdu_taken holding rfl, rfl, rfl, rfl, rfl⟩, Nat.le_refl _⟩

structure LiRound (queue : List TxSdu) (s next : SecondPass) (size k : Nat) : Prop where
  taken : Taken queue [size] 1 s.tx next.tx
  running : next.continueFill = s.continueFill
  fillNumLi : next.fillNumLi = k + 1
  liLengthInBytes : next.liLengthInBytes = 1 + (k + 1) % 2
  payloadSize : next.payloadSize = s.payloadSize + size
  pduRemainingSize : next.pduRemainingSize = s.pduRemainingSize - (size + liBytes k)
  data : next.data = s.data + size

theorem writeLi_frame (s : SecondPass) (testNumLi size : Nat) (li : s.liLengthInBytes = 1 + k % 2) :
    (s.writeLi testNumLi size).tx = s.tx ∧ (s.writeLi testNumLi size).continueFill =
    s.continueFill ∧
    (s.writeLi testNumLi size).fillNumLi = s.fillNumLi + 1 ∧
    (s.writeLi testNumLi size).liLengthInBytes = liBytes k ∧
    (s.writeLi testNumLi size).payloadSize = s.payloadSize ∧
    (s.writeLi testNumLi size).pduRemainingSize = s.pduRemainingSize ∧
    (s.writeLi testNumLi size).data = s.data := by
  unfold SecondPass.writeLi
  simp only [li, toggle_li]
  split <;> exact ⟨rfl, rfl, rfl, rfl, rfl, rfl, rfl⟩

theorem fill_more (holding : Holding s.tx (sdu :: rest)) (fill : s.fillNumLi = k)
    (li : s.liLengthInBytes = 1 + k % 2)
    (more : sdu.sduRemainingSize + liBytes k < s.pduRemainingSize) (few : k < maxSduInPdu - 1) :
    LiRound (sdu :: rest) s (s.fill testNumLi bytes) sdu.sduRemainingSize k ∧
    (s.fill testNumLi bytes).mem =
      ((s.copy bytes sdu.sduRemainingSize).writeLi testNumLi sdu.sduRemainingSize).mem ∧
    (s.fill testNumLi bytes).eLi =
      ((s.copy bytes sdu.sduRemainingSize).writeLi testNumLi sdu.sduRemainingSize).eLi := by
  have beyond : ¬ sdu.sduRemainingSize > s.pduRemainingSize := by omega
  have other : sdu.sduRemainingSize ≠ s.pduRemainingSize := by omega
  have notFull : k ≠ maxSduInPdu - 1 := Nat.ne_of_lt few
  obtain ⟨tx, running, count, length, payload, remaining, data⟩ :=
    writeLi_frame (s.copy bytes sdu.sduRemainingSize) testNumLi sdu.sduRemainingSize li
  unfold SecondPass.fill
  simp only [holding.head, beyond, other, if_false, li, toggle_li, fill, more, if_true, notFull]
  refine ⟨⟨finishSdu_taken holding (tx.trans rfl), running, ?_, ?_, payload, ?_, ?_⟩, rfl, rfl⟩
  · exact count.trans (congrArg (· + 1) fill)
  · exact length.trans (liBytes_next k)
  · rw [length, remaining]
    rfl
  · rw [data]
    rfl

end OneSdu

/-- A finished SDU and then the pieces of the rest of the queue. -/
theorem Taken.cons {sdu : TxSdu} {rest : List TxSdu} {size finished : Nat}
    {pieces : List Nat} {a b c : Tx}
    (first : Taken (sdu :: rest) [size] 1 a b) (later : Taken rest pieces finished b c)
    (short : pieces.length + 1 < sduControlBufferSize) :
    Taken (sdu :: rest) (size :: pieces) (finished + 1) a c := by
  have place (j : Nat) : b.place j = a.place (j + 1) := by
    rw [Tx.place, first.current, Tx.place, Nat.mod_add_mod, Tx.place, Nat.add_assoc, Nat.add_comm 1]
  refine ⟨?_, ?_, ?_, ?_, ?_⟩
  · rw [later.current, place]
  · rw [later.count, first.count]
    omega
  · rw [later.occupancy, first.occupancy]
    simp only [List.sum_cons, List.sum_nil]
    omega
  · intro j inside
    cases j with
    | zero =>
      have away : ∀ i < pieces.length, a.place 0 ≠ b.place i := by
        intro i small same
        rw [place] at same
        have := place_inj (by decide) (by omega) same
        omega
      rw [later.others _ away, first.sdus 0 (Nat.succ_pos _)]
      rfl
    | succ j =>
      rw [← place, later.sdus j (by simpa using inside)]
      rfl
  · intro i away
    rw [later.others i fun j inside => place j ▸ away (j + 1) (by simpa using inside)]
    refine first.others i fun j inside => ?_
    obtain rfl : j = 0 := by simpa using inside
    exact away 0 (Nat.succ_pos _)

theorem Holding.tail {sdu : TxSdu} {rest : List TxSdu} {size : Nat} {a b : Tx}
    (holding : Holding a (sdu :: rest))
    (first : Taken (sdu :: rest) [size] 1 a b) : Holding b rest := by
  have place (j : Nat) : b.place j = a.place (j + 1) := by
    rw [Tx.place, first.current, Tx.place, Nat.mod_add_mod, Tx.place, Nat.add_assoc, Nat.add_comm 1]
  have short : rest.length + 1 < sduControlBufferSize := holding.short
  refine ⟨?_, by omega, ?_, fun sdu member => holding.waiting sdu (List.mem_cons_of_mem _ member)⟩
  · rw [first.current]
    exact Nat.mod_lt _ (by decide)
  · intro j inside
    rw [place, first.others]
    · exact holding.sdus (j + 1) (Nat.succ_lt_succ inside)
    · intro i small same
      obtain rfl : i = 0 := by simpa using small
      have := place_inj (by omega) (by decide) same
      omega

theorem secondPass_stopped {testNumLi rounds : Nat} {s : SecondPass}
    (stopped : s.continueFill = false) :
    secondPass testNumLi rounds s = s := by
  cases rounds with
  | zero => rfl
  | succ rounds =>
    rw [secondPass]
    split
    · simp [stopped]
    · rfl

/-- The second pass takes the pieces that the room allows. -/
structure Filled (queue : List TxSdu) (k : Nat) (s last : SecondPass) : Prop where
  taken : Taken queue (cut s.pduRemainingSize k (queue.map TxSdu.sduRemainingSize))
    ((cut s.pduRemainingSize k (queue.map TxSdu.sduRemainingSize)).length -
      if cutEnds s.pduRemainingSize k (queue.map TxSdu.sduRemainingSize) then 0 else 1) s.tx last.tx
  fillNumLi : last.fillNumLi + 1 =
    k + (cut s.pduRemainingSize k (queue.map TxSdu.sduRemainingSize)).length
  payloadSize : last.payloadSize =
    s.payloadSize + (cut s.pduRemainingSize k (queue.map TxSdu.sduRemainingSize)).sum
  unused : last.pduRemainingSize ≤ waste s.pduRemainingSize k (queue.map TxSdu.sduRemainingSize)
  fiLast : last.fiLast = cutEnds s.pduRemainingSize k (queue.map TxSdu.sduRemainingSize)

theorem secondPass_filled {testNumLi rounds k : Nat} {queue : List TxSdu} {s : SecondPass}
    (holding : Holding s.tx queue) (running : s.continueFill = true) (fill : s.fillNumLi = k)
    (li : s.liLengthInBytes = 1 + k % 2) (below : k < maxSduInPdu)
    (enough : rounds + k = maxSduInPdu)
    (needed : Needed s.pduRemainingSize k (queue.map TxSdu.sduRemainingSize)) :
    Filled queue k s (secondPass testNumLi rounds s) := by
  induction queue generalizing s k rounds with
  | nil => exact absurd rfl needed.1
  | cons sdu rest ih =>
    obtain ⟨bytes, block⟩ :=
      Option.isSome_iff_exists.mp (holding.waiting sdu List.mem_cons_self).block
    cases rounds with
    | zero => omega
    | succ rounds =>
      have round : secondPass testNumLi (rounds + 1) s =
          secondPass testNumLi rounds (s.fill testNumLi bytes) := by
        rw [secondPass, holding.head, block]
        simp only [running, if_true]
      rw [round]
      by_cases fits : s.pduRemainingSize ≤ sdu.sduRemainingSize
      · obtain ⟨last, unused, -⟩ := @fill_fits s sdu rest bytes testNumLi holding fits
        rw [secondPass_stopped last.stopped]
        by_cases whole : s.pduRemainingSize = sdu.sduRemainingSize
        · have taken := last.taken
          have fiLast := last.fiLast
          rw [if_pos whole] at taken fiLast
          constructor
          all_goals simp only [List.map_cons, cut, cutEnds, waste, whole, decide_true, if_true,
            List.length_singleton, Nat.sub_zero, List.sum_singleton, Nat.le_refl]
          · exact whole ▸ taken
          · rw [last.fillNumLi, fill]
          · rw [last.payloadSize, whole]
          · exact Nat.le_of_eq unused
          · exact fiLast
        · have taken := last.taken
          have fiLast := last.fiLast
          rw [if_neg whole] at taken fiLast
          constructor
          all_goals simp only [List.map_cons, cut, cutEnds, waste, if_pos fits, whole, decide_false,
            Bool.false_eq_true, if_false, List.length_singleton, Nat.sub_self, List.sum_singleton]
          · exact taken
          · rw [last.fillNumLi, fill]
          · exact last.payloadSize
          · exact Nat.le_of_eq unused
          · exact fiLast
      · by_cases more : sdu.sduRemainingSize + liBytes k < s.pduRemainingSize ∧ k < maxSduInPdu - 1
        · obtain ⟨next, -, -⟩ :=
            @fill_more s sdu rest bytes testNumLi k holding fill li more.1 more.2
          have tail :=
            @ih rounds (k + 1) _ (holding.tail next.taken) (next.running.trans running)
            next.fillNumLi next.liLengthInBytes
            (by simp only [maxSduInPdu] at more ⊢; omega) (by omega)
            (by rw [next.pduRemainingSize]; exact needed.tail more.1)
          obtain ⟨taken, fillNumLi, payloadSize, unused, fiLast⟩ := tail
          rw [next.pduRemainingSize] at taken fillNumLi payloadSize unused fiLast
          have pieces :=
            cut_length_le (s.pduRemainingSize - (sdu.sduRemainingSize + liBytes k)) (k + 1)
            (rest.map TxSdu.sduRemainingSize)
          have some : 0 < (cut (s.pduRemainingSize - (sdu.sduRemainingSize + liBytes k)) (k + 1)
              (rest.map TxSdu.sduRemainingSize)).length :=
            List.length_pos_iff.mpr (cut_ne_nil (needed.tail more.1).1)
          have short : rest.length + 1 < sduControlBufferSize := holding.short
          rw [List.length_map] at pieces
          have whole := next.taken.cons taken (by omega)
          constructor
          all_goals simp only [List.map_cons, cut, cutEnds, waste, if_neg fits, if_pos more,
            List.length_cons, List.sum_cons]
          · convert whole using 1
            split <;> omega
          · omega
          · rw [payloadSize, next.payloadSize, Nat.add_assoc]
          · exact unused
          · exact fiLast
        · obtain ⟨last, unused⟩ :=
            @fill_short s sdu rest bytes testNumLi k holding fill li (by omega) more below
          rw [secondPass_stopped last.stopped]
          constructor
          all_goals simp only [List.map_cons, cut, cutEnds, waste, if_neg fits, if_neg more,
            List.length_singleton, if_true, Nat.sub_zero, List.sum_singleton]
          · exact last.taken
          · rw [last.fillNumLi, fill]
          · exact last.payloadSize
          · exact unused
          · exact last.fiLast

end OpenAir.Rlc.Am
