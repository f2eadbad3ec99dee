import OpenAir.Rlc.Am.SegmentMemory
import Mathlib.Algebra.BigOperators.Group.List.Basic

/-! One call of the segmentation on a consistent queue: which pieces it takes, how large
the PDU gets, and that the queue stays consistent. -/
namespace OpenAir.Rlc.Am
open BitField

/-- A consistent queue: the SDUs that are counted stand in the ring, and their bytes are
those of the buffer occupancy. -/
structure QueueOk (tx : Tx) : Prop where
  vtS : tx.vtS < snModulo
  current : tx.currentSduIndex < sduControlBufferSize
  count : tx.nbSduNoSegmented = tx.queue.length
  short : tx.queue.length < sduControlBufferSize
  waiting : ∀ sdu ∈ tx.queue, sdu.Waiting
  occupancy : tx.sduBufferOccupancy = (tx.queue.map TxSdu.sduRemainingSize).sum

theorem queue_getElem {tx : Tx} {j : Nat} (inside : j < tx.queue.length) :
    tx.queue[j] = tx.inputSdus (tx.place j) := by
  simp [Tx.queue]

theorem QueueOk.holding {tx : Tx} (ok : QueueOk tx) : Holding tx tx.queue :=
  ⟨ok.current, ok.short, fun _ inside => (queue_getElem inside).symm, ok.waiting⟩

def pduRoom (tx : Tx) : Nat := (dataPduSize tx).toNat - headerMinSize

/-- The queue as the second pass finds it: the lists of PDUs have grown. -/
theorem Linked.holding {a b : Tx} {queue : List TxSdu} (linked : Linked a b)
    (holding : Holding a queue) :
    ∃ queue', Holding b queue' ∧ queue'.map TxSdu.sduRemainingSize =
      queue.map TxSdu.sduRemainingSize ∧
      ∀ pieces, List.zipWith TxSdu.bytes queue' pieces = List.zipWith TxSdu.bytes queue pieces := by
  have same (i : Nat) : (b.inputSdus i).memBlock = (a.inputSdus i).memBlock ∧
      (b.inputSdus i).sduRemainingSize = (a.inputSdus i).sduRemainingSize ∧
      (b.inputSdus i).sduSegmentedSize = (a.inputSdus i).sduSegmentedSize ∧
      (b.inputSdus i).sduSize = (a.inputSdus i).sduSize := by
    obtain ⟨more, after⟩ := linked.sdus i
    rw [after]
    exact ⟨rfl, rfl, rfl, rfl⟩
  have place := linked.place
  refine ⟨(List.range queue.length).map fun j => b.inputSdus (a.place j), ⟨?_, ?_, ?_, ?_⟩, ?_, ?_⟩
  · exact linked.current ▸ holding.current
  · simpa using holding.short
  · intro j inside
    simp [place]
  · intro sdu member
    obtain ⟨j, inside, rfl⟩ := List.mem_map.mp member
    have inside := List.mem_range.mp inside
    obtain ⟨block, remaining, segmented, size⟩ := same (a.place j)
    obtain ⟨hasBlock, left, total, small⟩ := holding.waiting queue[j] (List.getElem_mem inside)
    rw [← holding.sdus j inside] at hasBlock left total small
    exact ⟨block ▸ hasBlock, remaining ▸ left, by
      rw [remaining, segmented, size]; exact total, size ▸ small⟩
  · apply List.ext_getElem
    · simp
    · intro j left right
      have inside : j < queue.length := by simpa using right
      simp [(same _).2.1, holding.sdus j inside]
  · intro pieces
    apply List.ext_getElem
    · simp
    · intro j left right
      have inside : j < queue.length := by
        simp only [List.length_zipWith] at right
        omega
      simp [TxSdu.bytes, (same _).1, (same _).2.2.1, holding.sdus j inside]

section Room

variable {tx : Tx}

theorem QueueOk.needed (ok : QueueOk tx) (some : tx.queue ≠ []) :
    Needed (pduRoom tx) 0 (tx.queue.map TxSdu.sduRemainingSize) := by
  refine ⟨by simpa using some, ?_⟩
  have length := List.length_pos_iff.mpr some
  have overhead :
    (if tx.nbSduNoSegmented ≤ 1 then 0 else headerLiLength (tx.nbSduNoSegmented - 1).toNat) =
      headerLiLength (tx.queue.length - 1) := by
    rw [ok.count]
    split
    · rw [show tx.queue.length - 1 = 0 by omega]
      rfl
    · congr 1
      omega
  have bound : dataPduSize tx ≤
      (tx.queue.map TxSdu.sduRemainingSize).sum + headerMinSize + headerLiLength
          (tx.queue.length - 1) := by
    unfold dataPduSize
    simp only [overhead, ok.occupancy]
    split <;> omega
  have none : headerLiLength 0 = 0 := rfl
  rw [none, List.length_map, Nat.zero_add]
  simp only [pduRoom, headerMinSize] at bound ⊢
  omega

theorem pduRoom_eq (grant : 2 < tx.nbBytesRequestedByMac) (occupied : 0 < tx.sduBufferOccupancy) :
    0 < pduRoom tx ∧ dataPduSize tx = pduRoom tx + headerMinSize ∧
    dataPduSize tx ≤ tx.nbBytesRequestedByMac := by
  have large : 2 < dataPduSize tx ∧ dataPduSize tx ≤ tx.nbBytesRequestedByMac := by
    unfold dataPduSize
    simp only [headerMinSize]
    split
    · split <;> omega
    · omega
  simp only [pduRoom, headerMinSize]
  omega

theorem QueueOk.occupied (ok : QueueOk tx) (some : tx.queue ≠ []) : 0 < tx.sduBufferOccupancy := by
  rw [ok.occupancy]
  cases list : tx.queue with
  | nil => exact absurd list some
  | cons sdu rest =>
    have remaining := (ok.waiting sdu (by rw [list]; exact List.mem_cons_self)).remaining
    simp only [List.map_cons, List.sum_cons]
    omega

end Room

structure SameQueue (before after : Tx) : Prop where
  sdus : after.inputSdus = before.inputSdus
  current : after.currentSduIndex = before.currentSduIndex
  count : after.nbSduNoSegmented = before.nbSduNoSegmented
  occupancy : after.sduBufferOccupancy = before.sduBufferOccupancy

theorem pduPolling_sameQueue (tx : Tx) (b1 : Nat) (payloadSize : Int)
    (isNewPdu : Bool) (now : Nat) :
    SameQueue tx (pduPolling tx b1 payloadSize isNewPdu now).1 ∧
    (pduPolling tx b1 payloadSize isNewPdu now).1.vtS = tx.vtS ∧
    ((pduPolling tx b1 payloadSize isNewPdu now).2 = b1 ||| (1 <<< 5) ∨
      (pduPolling tx b1 payloadSize isNewPdu now).2 = b1 &&& (0xFF ^^^ (1 <<< 5))) := by
  unfold pduPolling
  simp only
  repeat' split
  all_goals first
    | exact ⟨⟨rfl, rfl, rfl, rfl⟩, rfl, Or.inl rfl⟩
    | exact ⟨⟨rfl, rfl, rfl, rfl⟩, rfl, Or.inr rfl⟩

theorem segment10_emits {tx : Tx} (block : Memory) (copied : Bool) (now : Nat)
    (occupied : 0 < tx.sduBufferOccupancy)
    (head : (tx.inputSdus tx.currentSduIndex).memBlock.isSome)
    (grant : 0 < tx.nbBytesRequestedByMac) :
    ∃ after b1, SameQueue (fillPdu tx block (dataPduSize tx).toNat).2.1.tx after ∧
      after.vtS = nextSn tx.vtS ∧
      (b1 = firstByte
        ((tx.inputSdus tx.currentSduIndex).sduRemainingSize =
        (tx.inputSdus tx.currentSduIndex).sduSize)
          (fillPdu tx block (dataPduSize tx).toNat).2.1.fiLast
          (fillPdu tx block (dataPduSize tx).toNat).2.1.fillNumLi tx.vtS ||| (1 <<< 5) ∨
        b1 = firstByte
          ((tx.inputSdus tx.currentSduIndex).sduRemainingSize =
          (tx.inputSdus tx.currentSduIndex).sduSize)
          (fillPdu tx block (dataPduSize tx).toNat).2.1.fiLast
          (fillPdu tx block (dataPduSize tx).toNat).2.1.fillNumLi tx.vtS &&& (0xFF ^^^ (1 <<< 5))) ∧
      segment10 tx (some block) copied now = (after,
        if copied then
          some (setByte
            (setByte (fillPdu tx block (dataPduSize tx).toNat).2.1.mem 1 (tx.vtS &&& 0xFF)) 0 b1,
            dataPduSize tx - (fillPdu tx block (dataPduSize tx).toNat).2.1.pduRemainingSize)
        else none) := by
  obtain ⟨bytes, head⟩ := Option.isSome_iff_exists.mp head
  unfold segment10
  rw [if_neg (by omega), head]
  simp only [grant, if_true]
  generalize fillPdu tx block (dataPduSize tx).toNat = passes
  generalize firstByte _ _ _ _ = first
  obtain ⟨queue, vtS, polled⟩ :=
    pduPolling_sameQueue { passes.2.1.tx with vtS := (tx.vtS + 1) % snModulo } first
    passes.2.1.payloadSize true now
  generalize pduPolling _ first _ true now = out at queue vtS polled
  refine ⟨out.1.setPdu tx.vtS _, out.2, ?_, ?_, polled, rfl⟩
  · exact ⟨queue.sdus, queue.current, queue.count, queue.occupancy⟩
  · exact vtS

theorem firstPass_within (rounds : Nat) (s : FirstPass) : (firstPass rounds s).pduRemainingSize ≤
    s.pduRemainingSize := by
  have fitted (s : FirstPass) (size : Nat) : (s.fit size).pduRemainingSize ≤
      s.pduRemainingSize := by
    unfold FirstPass.fit
    simp only
    repeat' split
    all_goals simp [FirstPass.stop]
  induction rounds generalizing s with
  | zero => exact Nat.le_refl _
  | succ rounds ih =>
    rw [firstPass]
    simp only
    split
    · split
      · exact fitted s _
      · exact (ih _).trans (fitted s _)
    · exact Nat.le_refl _

/-- The variables with which a call starts its first pass. -/
def reserveStart (tx : Tx) : FirstPass where
  tx
  pdu := {}
  sduBufferIndex := tx.currentSduIndex
  pduRemainingSize := pduRoom tx
  testPduRemainingSize := pduRoom tx

def reserve (tx : Tx) : FirstPass := firstPass maxSduInPdu (reserveStart tx)

def fillStart (tx : Tx) (block : Memory) : SecondPass where
  tx := (reserve tx).tx
  mem := copyBytes block 0 (fun _ => 0) 0 4
  data := 2 + (((reserve tx).result.1 * 3 + 1) >>> 1)
  pduRemainingSize := (reserve tx).result.2

def fillReserved (tx : Tx) (block : Memory) : SecondPass :=
  secondPass (reserve tx).result.1 maxSduInPdu (fillStart tx block)

theorem fillPdu_eq (tx : Tx) (block : Memory) :
    fillPdu tx block (dataPduSize tx).toNat =
    (reserve tx, fillReserved tx block, (reserve tx).result.1) := rfl

def taking (tx : Tx) : List Nat := cut (reserve tx).result.2 0 (tx.queue.map TxSdu.sduRemainingSize)

section Passes

variable {tx : Tx} (ok : QueueOk tx) (some : tx.queue ≠ [])

theorem reserve_linked (tx : Tx) : Linked tx (reserve tx).tx :=
  firstPass_linked maxSduInPdu _ (Linked.refl tx)

theorem reserve_within (tx : Tx) : (reserve tx).result.2 ≤ pduRoom tx := by
  have within : (reserve tx).pduRemainingSize ≤ pduRoom tx :=
    firstPass_within maxSduInPdu (reserveStart tx)
  unfold FirstPass.result
  split
  · exact (Nat.sub_le _ _).trans within
  · exact within

include ok in
theorem reserve_start : OnPass (reserveStart tx) (pduRoom tx) 0 ∧
    Ahead (reserveStart tx) 0 tx.queue := by
  refine ⟨⟨ok.holding.place_zero.symm, rfl, Nat.le_refl _, rfl, rfl, rfl, rfl⟩, ⟨?_, ?_, ?_⟩⟩
  · rw [Nat.zero_add]
    exact ok.short
  · intro j inside
    rw [Nat.zero_add]
    exact ok.holding.sdus j inside
  · exact fun sdu member => (ok.waiting sdu member).block

include ok some in
/-- The second pass takes its pieces from the queue that the first has linked. -/
theorem fillReserved_filled (block : Memory) :
    ∃ queue', Holding (reserve tx).tx queue' ∧
      queue'.map TxSdu.sduRemainingSize = tx.queue.map TxSdu.sduRemainingSize ∧
      (∀ pieces, List.zipWith TxSdu.bytes queue' pieces =
          List.zipWith TxSdu.bytes tx.queue pieces) ∧
      Filled queue' 0 (fillStart tx block) (fillReserved tx block) := by
  obtain ⟨queue', holding, sizes, bytes⟩ := (reserve_linked tx).holding ok.holding
  refine ⟨queue', holding, sizes, bytes, secondPass_filled holding rfl rfl rfl (by decide) rfl ?_⟩
  rw [sizes]
  exact (ok.needed some).mono (reserve_within tx)

end Passes

/-- The bytes that the SDUs of the queue gave to a PDU, in order. -/
def given (before after : Tx) : List Nat :=
  ((List.range before.queue.length).map fun j =>
    (before.inputSdus (before.place j)).sduRemainingSize -
      (after.inputSdus (before.place j)).sduRemainingSize).filter (0 < ·)

/-- The effect of a call on the queue. -/
structure QueueStep (tx after : Tx) : Prop where
  gave : ((List.range tx.queue.length).map fun j =>
    (tx.inputSdus (tx.place j)).sduRemainingSize - (after.inputSdus
      (tx.place j)).sduRemainingSize) =
      taking tx ++ List.replicate (tx.queue.length - (taking tx).length) 0
  lists : ∀ i, (after.inputSdus i).pdusIndex = ((reserve tx).tx.inputSdus i).pdusIndex
  queue : QueueOk after

section Step

variable {tx after : Tx} {block : Memory} (ok : QueueOk tx) (some : tx.queue ≠ [])
  (same : SameQueue (fillReserved tx block).tx after)

include ok some same in
/-- The SDUs behind a call: those of the pieces have advanced, the others are as the first
pass left them. -/
theorem after_sdus : ∃ queue' finished, Holding (reserve tx).tx queue' ∧
    queue'.length = tx.queue.length ∧
    Taken queue' (taking tx) finished (reserve tx).tx after ∧
    (finished = (taking tx).length ∨ finished + 1 = (taking tx).length ∧
      ∀ inside : finished < queue'.length, (taking tx).getD finished 0 <
        queue'[finished].sduRemainingSize) ∧
    (∀ j < finished, (taking tx).getD j 0 = (tx.queue.map TxSdu.sduRemainingSize).getD j 0) ∧
    ∀ j (inside : j < queue'.length), queue'[j].sduRemainingSize =
      (tx.inputSdus (tx.place j)).sduRemainingSize := by
  obtain ⟨queue', holding, sizes, -, filled⟩ := fillReserved_filled ok some block
  have length : queue'.length = tx.queue.length := by simpa using congrArg List.length sizes
  have needed := (ok.needed some).mono (reserve_within tx)
  have pieces : cut (fillStart tx block).pduRemainingSize 0 (queue'.map TxSdu.sduRemainingSize) =
      taking tx := by
    rw [sizes]
    rfl
  have ends := cutEnds_eq needed
  obtain ⟨current, count, occupancy, sdus, others⟩ := filled.taken
  rw [pieces] at current count occupancy sdus others
  refine ⟨queue', _, holding, length, ⟨same.current.trans current, same.count.trans count,
    same.occupancy.trans occupancy, ?_, ?_⟩, ?_, ?_, ?_⟩
  · intro j inside
    rw [same.sdus]
    exact sdus j inside
  · intro i away
    rw [same.sdus]
    exact others i away
  · have positive := List.length_pos_iff.mpr (@cut_ne_nil (reserve tx).result.2 0 _ needed.1)
    rw [sizes]
    show _ = (taking tx).length ∨ _
    change 0 < (taking tx).length at positive
    have ends : cutEnds (fillStart tx block).pduRemainingSize 0
      (tx.queue.map TxSdu.sduRemainingSize) =
        decide ((taking tx).getD ((taking tx).length - 1) 0 =
          (tx.queue.map TxSdu.sduRemainingSize).getD ((taking tx).length - 1) 0) := ends
    rw [ends]
    by_cases whole : (taking tx).getD ((taking tx).length - 1) 0 =
        (tx.queue.map TxSdu.sduRemainingSize).getD ((taking tx).length - 1) 0
    · left
      simp only [whole, decide_true, if_true, Nat.sub_zero]
    · right
      simp only [whole, decide_false, Bool.false_eq_true, if_false]
      refine ⟨by omega, fun inside => ?_⟩
      have bound := cut_getD_le (reserve tx).result.2 0 (tx.queue.map TxSdu.sduRemainingSize)
        ((taking tx).length - 1)
      have size : (tx.queue.map TxSdu.sduRemainingSize).getD ((taking tx).length - 1) 0 =
          queue'[(taking tx).length - 1].sduRemainingSize := by
        rw [← sizes, List.getD_eq_getElem _ _ (by simpa using inside), List.getElem_map]
      rw [size] at bound whole
      exact Nat.lt_of_le_of_ne bound whole
  · intro j inside
    by_cases inner : j + 1 < (taking tx).length
    · exact cut_whole inner
    · -- The last piece counts as finished only when it ends its SDU.
      rw [sizes] at inside
      have ends : cutEnds (fillStart tx block).pduRemainingSize 0
        (tx.queue.map TxSdu.sduRemainingSize) =
          decide ((taking tx).getD ((taking tx).length - 1) 0 =
            (tx.queue.map TxSdu.sduRemainingSize).getD ((taking tx).length - 1) 0) := ends
      rw [ends] at inside
      split at inside
      · rename_i whole
        obtain rfl : j = (taking tx).length - 1 := by omega
        simpa only [decide_eq_true_eq] using whole
      · omega
  · intro j inside
    have place := (reserve_linked tx).place j
    obtain ⟨more, after⟩ := (reserve_linked tx).sdus (tx.place j)
    rw [← holding.sdus j inside, place, after]

include ok some same in
theorem queueStep (vtS : after.vtS = nextSn tx.vtS) : QueueStep tx after := by
  obtain ⟨queue', finished, holding, length, taken, ending, whole, remaining⟩ :=
    after_sdus ok some same
  have place := (reserve_linked tx).place
  have fewer : (taking tx).length ≤ tx.queue.length := by
    have bound := cut_length_le (reserve tx).result.2 0 (tx.queue.map TxSdu.sduRemainingSize)
    rwa [List.length_map] at bound
  have finishedLe : finished ≤ (taking tx).length := by
    rcases ending with all | ⟨last, -⟩ <;> omega
  have advanced (j : Nat) (inside : j < (taking tx).length) :
      after.inputSdus (tx.place j) = (queue'.getD j {}).advance ((taking tx).getD j 0) := by
    rw [← place]
    exact taken.sdus j inside
  have untouched (j : Nat) (beyond : (taking tx).length ≤ j) (inside : j < tx.queue.length) :
      after.inputSdus (tx.place j) = queue'.getD j {} := by
    rw [← place, taken.others, List.getD_eq_getElem _ _ (length ▸ inside),
      holding.sdus j (length ▸ inside)]
    intro i small clash
    have := ok.short
    have := place_inj (by omega) (by omega) clash
    omega
  have left (j : Nat) (inside : j < tx.queue.length) :
      (queue'.getD j {}).sduRemainingSize = (tx.inputSdus (tx.place j)).sduRemainingSize := by
    rw [List.getD_eq_getElem _ _ (length ▸ inside)]
    exact remaining j (length ▸ inside)
  have part (j : Nat) (inside : j < tx.queue.length) :
      (taking tx).getD j 0 ≤ (tx.inputSdus (tx.place j)).sduRemainingSize := by
    have bound := cut_getD_le (reserve tx).result.2 0 (tx.queue.map TxSdu.sduRemainingSize) j
    rwa [List.getD_eq_getElem (tx.queue.map TxSdu.sduRemainingSize) 0 (by simpa using inside),
      List.getElem_map, queue_getElem] at bound
  -- What is left of each SDU, and what each gave.
  have rest (j : Nat) (inside : j < tx.queue.length) :
    (after.inputSdus (tx.place j)).sduRemainingSize =
      (tx.inputSdus (tx.place j)).sduRemainingSize - (taking tx).getD j 0 := by
    by_cases small : j < (taking tx).length
    · rw [advanced j small, advance_remaining, left j inside]
    · rw [untouched j (Nat.le_of_not_lt small) inside, left j inside,
        List.getD_eq_default _ _ (Nat.le_of_not_lt small)]
      rfl
  have gave : ((List.range tx.queue.length).map fun j =>
      (tx.inputSdus (tx.place j)).sduRemainingSize - (after.inputSdus
        (tx.place j)).sduRemainingSize) =
        taking tx ++ List.replicate (tx.queue.length - (taking tx).length) 0 := by
    apply List.ext_getElem
    · simp only [List.length_map, List.length_range, List.length_append, List.length_replicate]
      omega
    · intro j first second
      have inside : j < tx.queue.length := by simpa using first
      have bound := part j inside
      simp only [List.getElem_map, List.getElem_range, rest j inside]
      by_cases small : j < (taking tx).length
      · rw [List.getElem_append_left small, ← List.getD_eq_getElem _ 0 small]
        omega
      · rw [List.getElem_append_right (Nat.le_of_not_lt small), List.getElem_replicate]
        rw [List.getD_eq_default _ _ (Nat.le_of_not_lt small)]
        omega
  have kept (j : Nat) (behind : finished ≤ j) (inside : j < tx.queue.length) :
      (after.inputSdus (tx.place j)).Waiting := by
    have small : j < queue'.length := length ▸ inside
    have waiting := holding.waiting queue'[j] (List.getElem_mem small)
    by_cases piece : j < (taking tx).length
    · rcases ending with all | ⟨last, short⟩
      · omega
      · obtain rfl : j = finished := by omega
        have less := short small
        rw [advanced _ piece, List.getD_eq_getElem _ _ small, TxSdu.advance,
          if_neg (Nat.ne_of_lt less)]
        obtain ⟨hasBlock, -, total, bound⟩ := waiting
        refine ⟨hasBlock, Nat.sub_pos_of_lt less, ?_, bound⟩
        simp only
        omega
    · rw [untouched _ (Nat.le_of_not_lt piece) inside, List.getD_eq_getElem _ _ small]
      exact waiting
  have nowPlace (j : Nat) : after.place j = tx.place (finished + j) := by
    rw [Tx.place, taken.current, place, Tx.place, Tx.place, Nat.mod_add_mod, Nat.add_assoc]
  have count : after.nbSduNoSegmented = ((tx.queue.length - finished : Nat) : Int) := by
    rw [taken.count, (reserve_linked tx).count, ok.count]
    omega
  have nowLength : after.queue.length = tx.queue.length - finished := by
    simp [Tx.queue, count]
  refine ⟨gave, ?_, ⟨vtS ▸ Nat.mod_lt _ (by decide), ?_, ?_, ?_, ?_, ?_⟩⟩
  · intro i
    by_cases used : ∃ j < (taking tx).length, i = (reserve tx).tx.place j
    · obtain ⟨j, small, rfl⟩ := used
      have inside : j < queue'.length := by omega
      rw [taken.sdus j small, List.getD_eq_getElem _ _ inside, ← holding.sdus j inside]
      unfold TxSdu.advance
      split <;> rfl
    · rw [taken.others i fun j small clash => used ⟨j, small, clash⟩]
  · rw [taken.current]
    exact Nat.mod_lt _ (by decide)
  · rw [count, nowLength]
  · have := ok.short
    omega
  · intro sdu member
    obtain ⟨j, inside, rfl⟩ := List.getElem_of_mem member
    rw [queue_getElem inside, nowPlace]
    exact kept _ (Nat.le_add_right _ _) (by omega)
  · have sum : (tx.queue.map TxSdu.sduRemainingSize).sum =
        ((List.range tx.queue.length).map
          fun j => (after.inputSdus (tx.place j)).sduRemainingSize).sum +
          (taking tx).sum := by
      have total : (taking tx).sum = ((List.range tx.queue.length).map fun j =>
          (tx.inputSdus (tx.place j)).sduRemainingSize - (after.inputSdus
              (tx.place j)).sduRemainingSize).sum := by
        rw [gave]
        simp
      rw [total, ← List.sum_map_add]
      congr 1
      apply List.ext_getElem
      · simp
      · intro j first second
        have inside : j < tx.queue.length := by simpa using first
        have := rest j inside
        have := part j inside
        simp only [List.getElem_map, queue_getElem inside, List.getElem_range]
        omega
    have done : ((List.range finished).map
        fun j => (after.inputSdus (tx.place j)).sduRemainingSize).sum = 0 := by
      apply List.sum_eq_zero
      intro x member
      obtain ⟨j, small, rfl⟩ := List.mem_map.mp member
      have small := List.mem_range.mp small
      have inside : j < tx.queue.length := by omega
      have exact := whole j small
      rw [List.getD_eq_getElem (tx.queue.map TxSdu.sduRemainingSize) 0 (by simpa using inside),
        List.getElem_map, queue_getElem] at exact
      rw [rest j inside]
      omega
    have behind : (after.queue.map TxSdu.sduRemainingSize) =
      (List.range (tx.queue.length - finished)).map
        fun j => (after.inputSdus (tx.place (finished + j))).sduRemainingSize := by
      apply List.ext_getElem
      · simp [nowLength]
      · intro j first second
        have inside : j < after.queue.length := by simpa using first
        simp [queue_getElem inside, nowPlace]
    have split : tx.queue.length = finished + (tx.queue.length - finished) := by omega
    rw [split, List.range_add, List.map_append, List.sum_append, done, Nat.zero_add, List.map_map]
      at sum
    rw [taken.occupancy, (reserve_linked tx).occupancy, ok.occupancy, behind, sum]
    simp only [Function.comp_def]
    omega

end Step

end OpenAir.Rlc.Am
