import Mathlib.Algebra.BigOperators.Group.Finset.Basic
import OpenAir.Lib.RingQueue
import OpenAir.Rlc.Am.TxFrame

/-! The SDUs not yet completely segmented wait in the ring in the order of their arrival,
and the counters of the entity agree with them. -/
namespace OpenAir.Rlc.Am
open BitField RingQueue

/-- What the upper layer asks to send. -/
structure SduRequest where
  bytes : Memory
  mui : Nat
  size : Nat

/-- An SDU not yet completely segmented. -/
structure QueuedSdu where
  request : SduRequest
  remaining : Nat
  segmented : Nat

/-- An SDU keeps its block until its last byte is in a PDU. -/
def TxSdu.queued (sdu : TxSdu) : Option QueuedSdu :=
  sdu.memBlock.map
    fun bytes => ⟨⟨bytes, sdu.mui, sdu.sduSize⟩, sdu.sduRemainingSize, sdu.sduSegmentedSize⟩

theorem queued_none {sdu : TxSdu} : sdu.queued = none ↔ sdu.memBlock = none :=
  Option.map_eq_none_iff

/-- The queue in the ring; the index of the current SDU may have run past an empty queue, and
then stands `lag` places before the next SDU. -/
structure InputRing (tx : Tx) (lag : Nat) (queue : List QueuedSdu) : Prop where
  holds : Holds sduControlBufferSize (fun i => (tx.inputSdus i).queued) tx.currentSduIndex lag queue
  next : tx.nextSduIndex = (tx.currentSduIndex + (lag + queue.length)) % sduControlBufferSize
  unconfirmed : ∀ i, (tx.inputSdus i).memBlock.isSome →
    (tx.inputSdus i).transmittedSuccessfully = false
  count : tx.nbSduNoSegmented = queue.length
  occupancy : tx.sduBufferOccupancy = (queue.map QueuedSdu.remaining).sum
  whole : ∀ sdu ∈ queue, sdu.remaining + sdu.segmented = sdu.request.size
  untouched : ∀ sdu ∈ queue.tail, sdu.segmented = 0

section Same

/-- Neither the count of the SDUs nor their sizes change. -/
structure SameSizes (before after : Tx) : Prop where
  nbSdu : after.nbSdu = before.nbSdu
  sduSize : ∀ i, (after.inputSdus i).sduSize = (before.inputSdus i).sduSize

theorem SameSizes.refl (tx : Tx) : SameSizes tx tx := ⟨rfl, fun _ => rfl⟩

theorem SameSizes.trans {a b c : Tx} (left : SameSizes a b) (right : SameSizes b c) :
    SameSizes a c :=
  ⟨right.nbSdu.trans left.nbSdu, fun i => (right.sduSize i).trans (left.sduSize i)⟩

structure SameInput (before after : Tx) : Prop where
  sizes : SameSizes before after
  current : after.currentSduIndex = before.currentSduIndex
  next : after.nextSduIndex = before.nextSduIndex
  count : after.nbSduNoSegmented = before.nbSduNoSegmented
  occupancy : after.sduBufferOccupancy = before.sduBufferOccupancy
  queued : ∀ i, (after.inputSdus i).queued = (before.inputSdus i).queued
  confirmed : ∀ i, (after.inputSdus i).transmittedSuccessfully =
    (before.inputSdus i).transmittedSuccessfully

theorem SameInput.refl (tx : Tx) : SameInput tx tx :=
  ⟨SameSizes.refl tx, rfl, rfl, rfl, rfl, fun _ => rfl, fun _ => rfl⟩

theorem SameInput.trans {a b c : Tx} (left : SameInput a b) (right : SameInput b c) :
    SameInput a c where
  sizes := left.sizes.trans right.sizes
  current := right.current.trans left.current
  next := right.next.trans left.next
  count := right.count.trans left.count
  occupancy := right.occupancy.trans left.occupancy
  queued i := (right.queued i).trans (left.queued i)
  confirmed i := (right.confirmed i).trans (left.confirmed i)

theorem isSome_of_queued {a b : TxSdu} (same : b.queued = a.queued) (stored : b.memBlock.isSome) :
    a.memBlock.isSome := by
  have some_ : b.queued.isSome := by rwa [TxSdu.queued, Option.isSome_map]
  rwa [same, TxSdu.queued, Option.isSome_map] at some_

theorem InputRing.of_same {before after : Tx} {lag : Nat} {queue : List QueuedSdu}
    (ring : InputRing before lag queue)
    (same : SameInput before after) : InputRing after lag queue where
  holds := by
    rw [same.current]
    exact ring.holds.congr fun i _ => same.queued i
  next := by rw [same.next, same.current, ring.next]
  unconfirmed i stored := by
    rw [same.confirmed]
    exact ring.unconfirmed i (isSome_of_queued (same.queued i) stored)
  count := same.count.trans ring.count
  occupancy := same.occupancy.trans ring.occupancy
  whole := ring.whole
  untouched := ring.untouched

theorem setPdu_sameInput (tx : Tx) (sn : Nat) (pdu : TxPdu) : SameInput tx (tx.setPdu sn pdu) :=
  ⟨⟨rfl, fun _ => rfl⟩, rfl, rfl, rfl, rfl, fun _ => rfl, fun _ => rfl⟩

theorem pduPolling_sameInput (tx : Tx) (b1 : Nat) (payloadSize : Int)
    (isNewPdu : Bool) (now : Nat) :
    SameInput tx (pduPolling tx b1 payloadSize isNewPdu now).1 := by
  unfold pduPolling
  simp only
  repeat' split
  all_goals exact ⟨⟨rfl, fun _ => rfl⟩, rfl, rfl, rfl, rfl, fun _ => rfl, fun _ => rfl⟩

theorem pduPolling_sdus (tx : Tx) (b1 : Nat) (payloadSize : Int) (isNewPdu : Bool) (now : Nat) :
    (pduPolling tx b1 payloadSize isNewPdu now).1.inputSdus = tx.inputSdus := by
  unfold pduPolling
  simp only
  repeat' split
  all_goals rfl

theorem link_sameInput (s : FirstPass) : SameInput s.tx s.link.tx := by
  refine ⟨⟨rfl, fun i => ?_⟩, rfl, rfl, rfl, rfl, fun i => ?_, fun i => ?_⟩
  all_goals
    by_cases here : i = s.sduBufferIndex
    · subst here
      simp only [FirstPass.link, Tx.setSdu, Function.update_self, TxSdu.queued]
    · simp only [FirstPass.link, Tx.setSdu, Function.update_of_ne here]

/-- The first pass only lists PDUs in the SDUs. -/
theorem firstPass_sameInput {tx : Tx} (rounds : Nat) (s : FirstPass) (start : SameInput tx s.tx) :
    SameInput tx (firstPass rounds s).tx := by
  induction rounds generalizing s with
  | zero => exact start
  | succ rounds ih =>
    have linked := link_sameInput (s.fit (s.tx.inputSdus s.sduBufferIndex).sduRemainingSize)
    rw [fit_tx] at linked
    rw [firstPass]
    simp only
    split
    · split
      · exact start.trans linked
      · exact ih _ (start.trans linked)
    · exact start

end Same

section Accept

variable {tx : Tx} {lag : Nat} {queue : List QueuedSdu}

/-- `rlc_am_data_req` stores the SDU. -/
def Tx.Accepts (tx : Tx) : Prop :=
  (tx.inputSdus tx.nextSduIndex).memBlock.isNone ∧ (tx.nextSduIndex + 1) % sduControlBufferSize ≠
    tx.currentSduIndex

instance (tx : Tx) : Decidable tx.Accepts := inferInstanceAs (Decidable (_ ∧ _))

theorem dataReq_refused (refused : ¬ tx.Accepts) (bytes : Memory) (size mui : Nat) :
    dataReq tx bytes size mui = tx :=
  if_neg refused

/-- The test on the two indices leaves one place of the ring empty. -/
theorem InputRing.accepts_iff (ring : InputRing tx lag queue) :
    tx.Accepts ↔ lag + queue.length + 1 < sduControlBufferSize := by
  have short := ring.holds.short
  have index := ring.holds.index
  have block : (tx.inputSdus tx.nextSduIndex).memBlock.isNone := by
    rw [ring.next, queued_none.mp ring.holds.next]
    rfl
  have following : (tx.nextSduIndex + 1) % sduControlBufferSize =
      (tx.currentSduIndex + (lag + queue.length + 1)) % sduControlBufferSize := by
    rw [ring.next, Nat.mod_add_mod, Nat.add_assoc]
  rw [Tx.Accepts, following]
  constructor
  · rintro ⟨-, apart⟩
    by_contra full
    have last : lag + queue.length + 1 = sduControlBufferSize := by omega
    rw [last, Nat.add_mod_right, Nat.mod_eq_of_lt index] at apart
    contradiction
  · intro room
    refine ⟨block, fun same => ?_⟩
    have := place_inj room (Nat.zero_lt_of_lt room) (same.trans (Nat.mod_eq_of_lt index).symm)
    contradiction

theorem dataReq_ring (ring : InputRing tx lag queue) (accepts : tx.Accepts) (bytes : Memory)
    (size mui : Nat) :
    InputRing (dataReq tx bytes size mui) lag (queue ++ [⟨⟨bytes, mui, size⟩, size, 0⟩]) := by
  have stored : dataReq tx bytes size mui = _ := if_pos accepts
  have here : tx.nextSduIndex =
    (tx.currentSduIndex + (lag + queue.length)) % sduControlBufferSize := ring.next
  rw [stored]
  constructor
  · refine ring.holds.push (ring.accepts_iff.mp accepts) ?_ fun i _ other => ?_
    · rw [← here]
      simp only [Tx.setSdu, Function.update_self]
      rfl
    · rw [← here] at other
      simp only [Tx.setSdu, Function.update_of_ne other]
  · simp only [Tx.setSdu]
    rw [here, Nat.mod_add_mod, List.length_append, List.length_singleton,
      Nat.add_assoc, Nat.add_assoc]
  · intro i held
    by_cases same : i = tx.nextSduIndex
    · simp only [Tx.setSdu, same, Function.update_self]
    · simp only [Tx.setSdu, Function.update_of_ne same] at held ⊢
      exact ring.unconfirmed i held
  · simp only [Tx.setSdu, ring.count, List.length_append, List.length_singleton,
      Nat.cast_add, Nat.cast_one]
  · simp only [Tx.setSdu, ring.occupancy, List.map_append, List.sum_append, List.map_singleton,
      List.sum_singleton, Nat.cast_add]
  · intro sdu member
    rcases List.mem_append.mp member with old | new
    · exact ring.whole sdu old
    · rw [List.mem_singleton.mp new]
      exact Nat.add_zero size
  · intro sdu member
    cases queue with
    | nil => cases member
    | cons first rest =>
      rcases List.mem_append.mp member with old | new
      · exact ring.untouched sdu old
      · rw [List.mem_singleton.mp new]

end Accept

section Release

variable {tx : Tx} {lag : Nat} {queue : List QueuedSdu}

/-- The index moves over a place without a block. -/
theorem InputRing.step (ring : InputRing tx lag queue)
    (absent : (tx.inputSdus tx.currentSduIndex).memBlock = none) :
    ∃ lag', InputRing { tx with currentSduIndex := (tx.currentSduIndex + 1) % sduControlBufferSize }
        lag' queue := by
  have absent := queued_none.mpr absent
  cases lag with
  | zero =>
    cases queue with
    | nil =>
      refine ⟨sduControlBufferSize - 1, ring.holds.overtake, ?_, ring.unconfirmed, ring.count,
        ring.occupancy, ring.whole,
        ring.untouched⟩
      rw [ring.next, Nat.mod_add_mod]
      exact (Nat.add_mod_right _ _).symm
    | cons sdu rest =>
      rw [ring.holds.head] at absent
      contradiction
  | succ lag =>
    refine ⟨lag, ring.holds.advance, ?_, ring.unconfirmed, ring.count, ring.occupancy, ring.whole,
      ring.untouched⟩
    rw [ring.next, place_succ, Nat.add_right_comm]

theorem skipConfirmed_ring (rounds : Nat) (ring : InputRing tx lag queue) :
    ∃ lag', InputRing (skipConfirmed rounds tx) lag' queue := by
  induction rounds generalizing tx lag with
  | zero => exact ⟨lag, ring⟩
  | succ rounds ih =>
    rw [skipConfirmed]
    split
    · rename_i skips
      have absent : (tx.inputSdus tx.currentSduIndex).memBlock = none := by
        rw [← Option.not_isSome_iff_eq_none]
        intro held
        rw [ring.unconfirmed _ held] at skips
        exact Bool.false_ne_true skips.2
      obtain ⟨lag', moved⟩ := ring.step absent
      exact ih moved
    · exact ⟨lag, ring⟩

theorem InputRing.release (ring : InputRing tx lag queue) {index : Nat}
    (absent : (tx.inputSdus index).memBlock = none) :
    InputRing ({ tx with nbSdu := tx.nbSdu - 1 }.setSdu index { transmittedSuccessfully := true })
      lag queue where
  holds := ring.holds.congr fun i _ => by
    by_cases same : i = index
    · simp only [Tx.setSdu, same, Function.update_self]
      exact (queued_none.mpr absent).symm
    · simp only [Tx.setSdu, Function.update_of_ne same]
  next := ring.next
  unconfirmed i held := by
    by_cases same : i = index
    · simp only [Tx.setSdu, same, Function.update_self] at held
      contradiction
    · simp only [Tx.setSdu, Function.update_of_ne same] at held ⊢
      exact ring.unconfirmed i held
  count := ring.count
  occupancy := ring.occupancy
  whole := ring.whole
  untouched := ring.untouched

theorem freeInSdu_ring (ring : InputRing tx lag queue) (index : Nat) :
    ∃ lag', InputRing (freeInSdu tx index) lag' queue := by
  unfold freeInSdu
  split
  · exact ⟨lag, ring⟩
  · rename_i absent
    have released := ring.release (Option.not_isSome_iff_eq_none.mp absent)
    simp only
    split
    · rename_i here
      obtain ⟨lag', moved⟩ :=
        released.step (by rw [here]; simp only [Tx.setSdu, Function.update_self])
      exact skipConfirmed_ring _ moved
    · exact skipConfirmed_ring _ released

end Release

section Fill

variable {tx : Tx} {sdu : QueuedSdu} {rest : List QueuedSdu}

theorem InputRing.finish (ring : InputRing tx 0 (sdu :: rest)) :
    InputRing
      { freeInSduData { tx with sduBufferOccupancy := tx.sduBufferOccupancy - sdu.remaining }
          tx.currentSduIndex with
        currentSduIndex := (tx.currentSduIndex + 1) % sduControlBufferSize } 0 rest := by
  have held : (tx.inputSdus tx.currentSduIndex).memBlock.isSome := by
    rw [← Option.isSome_map, ← TxSdu.queued, ring.holds.head]
    rfl
  simp only [freeInSduData, held, if_true]
  constructor
  · refine ring.holds.pop ?_ fun i _ other => ?_
    · simp only [Tx.setSdu, Function.update_self]
      rfl
    · simp only [Tx.setSdu, Function.update_of_ne other]
  · simp only [Tx.setSdu, ring.next, place_succ, List.length_cons, Nat.add_assoc]
  · intro i stored
    by_cases same : i = tx.currentSduIndex
    · simp only [Tx.setSdu, same, Function.update_self] at stored
      contradiction
    · simp only [Tx.setSdu, Function.update_of_ne same] at stored ⊢
      exact ring.unconfirmed i stored
  · simp only [Tx.setSdu, ring.count, List.length_cons, Nat.cast_add, Nat.cast_one,
      add_sub_cancel_right]
  · simp only [Tx.setSdu, ring.occupancy, List.map_cons, List.sum_cons, Nat.cast_add,
      add_sub_cancel_left]
  · exact fun other member => ring.whole other (List.mem_cons_of_mem _ member)
  · exact fun other member => ring.untouched other (List.mem_of_mem_tail member)

theorem InputRing.shorten (ring : InputRing tx 0 (sdu :: rest)) {size : Nat}
    (less : size < sdu.remaining) :
    InputRing
      ({ tx with sduBufferOccupancy := tx.sduBufferOccupancy - size }.setSdu tx.currentSduIndex
        { tx.inputSdus tx.currentSduIndex with
          sduRemainingSize := sdu.remaining - size
          sduSegmentedSize := sdu.segmented + size }) 0
      ({ sdu with
        remaining := sdu.remaining - size
        segmented := sdu.segmented + size } :: rest) := by
  have head := ring.holds.head
  constructor
  · refine ring.holds.change ?_ fun i _ other => ?_
    · obtain ⟨bytes, block, same⟩ := Option.map_eq_some_iff.mp head
      simp only [Tx.setSdu, Function.update_self, TxSdu.queued, block, ← same, Option.map_some]
    · simp only [Tx.setSdu, Function.update_of_ne other]
  · exact ring.next
  · intro i stored
    by_cases same : i = tx.currentSduIndex
    · rw [same] at stored ⊢
      simp only [Tx.setSdu, Function.update_self] at stored ⊢
      exact ring.unconfirmed _ stored
    · simp only [Tx.setSdu, Function.update_of_ne same] at stored ⊢
      exact ring.unconfirmed i stored
  · exact ring.count
  · have total := ring.occupancy
    simp only [List.map_cons, List.sum_cons, Nat.cast_add] at total
    simp only [Tx.setSdu, total, List.map_cons, List.sum_cons, Nat.cast_add]
    omega
  · intro other member
    cases member with
    | head =>
      have whole := ring.whole sdu List.mem_cons_self
      change sdu.remaining - size + (sdu.segmented + size) = sdu.request.size
      omega
    | tail _ later => exact ring.whole other (List.mem_cons_of_mem _ later)
  · exact ring.untouched

/-- One round of the second pass: the queue loses its first SDU or a part of it. -/
theorem fill_ring {s : SecondPass} (ring : InputRing s.tx 0 (sdu :: rest)) (testNumLi : Nat)
    (bytes : Memory) :
    ∃ queue, InputRing (s.fill testNumLi bytes).tx 0 queue ∧
      queue.map QueuedSdu.request <:+ (sdu :: rest).map QueuedSdu.request := by
  obtain ⟨_, -, same⟩ := Option.map_eq_some_iff.mp ring.holds.head
  have remaining : (s.tx.inputSdus s.tx.currentSduIndex).sduRemainingSize =
    sdu.remaining := by rw [← same]
  have segmented : (s.tx.inputSdus s.tx.currentSduIndex).sduSegmentedSize =
    sdu.segmented := by rw [← same]
  have finished := ring.finish
  have tail : rest.map QueuedSdu.request <:+ (sdu :: rest).map QueuedSdu.request :=
    List.suffix_cons _ _
  unfold SecondPass.fill
  simp only [remaining]
  split
  · rename_i beyond
    have part := ring.shorten beyond
    rw [← segmented] at part
    exact ⟨_, part, List.suffix_refl _⟩
  · split
    · exact ⟨rest, finished, tail⟩
    · split
      · split
        · exact ⟨rest, finished, tail⟩
        · refine ⟨rest, ?_, tail⟩
          simp only [SecondPass.finishSdu, writeLi_tx]
          exact finished
      · exact ⟨rest, finished, tail⟩

theorem secondPass_ring {queue : List QueuedSdu} (testNumLi rounds : Nat) {s : SecondPass}
    (ring : InputRing s.tx 0 queue) :
    ∃ left, InputRing (secondPass testNumLi rounds s).tx 0 left ∧
      left.map QueuedSdu.request <:+ queue.map QueuedSdu.request := by
  induction rounds generalizing s queue with
  | zero => exact ⟨queue, ring, List.suffix_refl _⟩
  | succ rounds ih =>
    rw [secondPass]
    split
    · rename_i bytes block
      split
      · cases queue with
        | nil =>
          have absent := queued_none.mp (ring.holds.empty ring.holds.index)
          rw [absent] at block
          contradiction
        | cons sdu rest =>
          obtain ⟨left, filled, fewer⟩ := fill_ring ring testNumLi bytes
          obtain ⟨last, done, fewest⟩ := ih filled
          exact ⟨last, done, fewest.trans fewer⟩
      · exact ⟨queue, ring, List.suffix_refl _⟩
    · exact ⟨queue, ring, List.suffix_refl _⟩

theorem fillPdu_ring {queue : List QueuedSdu} (ring : InputRing tx 0 queue)
    (mem : Memory) (size : Nat) :
    ∃ left, InputRing (fillPdu tx mem size).2.1.tx 0 left ∧
      left.map QueuedSdu.request <:+ queue.map QueuedSdu.request := by
  refine secondPass_ring _ maxSduInPdu ?_
  exact ring.of_same (firstPass_sameInput _ _ (SameInput.refl tx))

end Fill

/-- A call that makes a PDU does so by the two passes, and stores it in the slot of VT(S). -/
theorem segment10_cases (tx : Tx) (block : Option Memory) (copied : Bool) (now : Nat) :
    (segment10 tx block copied now).1 = tx ∧
      (tx.sduBufferOccupancy ≤ 0 ∨ block = none ∨
        (tx.inputSdus tx.currentSduIndex).memBlock = none ∨
        tx.nbBytesRequestedByMac ≤ 0) ∨
    ∃ mem pdu, block = some mem ∧ 0 < tx.sduBufferOccupancy ∧
      (tx.inputSdus tx.currentSduIndex).memBlock.isSome ∧
      SameInput (fillPdu tx mem (dataPduSize tx).toNat).2.1.tx (segment10 tx block copied now).1 ∧
      (∀ i, ((segment10 tx block copied now).1.inputSdus i).pdusIndex =
        ((fillPdu tx mem (dataPduSize tx).toNat).2.1.tx.inputSdus i).pdusIndex) ∧
      pdu.sdusIndex = (fillPdu tx mem (dataPduSize tx).toNat).1.pdu.sdusIndex ∧
      (segment10 tx block copied now).1.txDataPduBuffer =
        Function.update tx.txDataPduBuffer (tx.vtS % windowSize) pdu := by
  unfold segment10
  split
  · rename_i idle
    exact Or.inl ⟨rfl, Or.inl idle⟩
  · rename_i occupied
    split
    · rename_i mem stored
      split
      · have slots := (fillPdu_sameWindow tx mem (dataPduSize tx).toNat).slots
        refine Or.inr ⟨mem, ?_⟩
        simp only
        generalize fillPdu tx mem (dataPduSize tx).toNat = passes at slots ⊢
        generalize firstByte _ _ _ _ = b1
        have polled := pduPolling_sameInput { passes.2.1.tx with vtS := (tx.vtS + 1) % snModulo } b1
          passes.2.1.payloadSize true now
        have window :=
          pduPolling_sameWindow { passes.2.1.tx with vtS := (tx.vtS + 1) % snModulo } b1
          passes.2.1.payloadSize true now
        have lists := pduPolling_sdus { passes.2.1.tx with vtS := (tx.vtS + 1) % snModulo } b1
          passes.2.1.payloadSize true now
        generalize pduPolling _ b1 _ true now = out at polled window lists ⊢
        refine ⟨_, trivial, Int.not_le.mp occupied, by rw [stored]; rfl, ?_, fun i => ?_, ?_,
          congrArg (fun slots => Function.update slots (tx.vtS % windowSize) _)
            (window.slots.trans slots)⟩
        · refine SameInput.trans ?_ (setPdu_sameInput _ _ _)
          refine SameInput.trans ?_ polled
          exact ⟨⟨rfl, fun _ => rfl⟩, rfl, rfl, rfl, rfl, fun _ => rfl, fun _ => rfl⟩
        · simp only [Tx.setPdu, lists]
        · rfl
      · rename_i small
        exact Or.inl ⟨rfl, Or.inr (Or.inr (Or.inr (Int.not_lt.mp small)))⟩
    · rename_i given _ _ missing
      refine Or.inl ⟨rfl, Or.inr ?_⟩
      cases given with
      | none => exact Or.inl rfl
      | some mem =>
        cases stored : (tx.inputSdus tx.currentSduIndex).memBlock with
        | none => exact Or.inr (Or.inl rfl)
        | some bytes => exact (missing bytes mem stored rfl).elim

theorem segment10_ring {tx : Tx} {lag : Nat} {queue : List QueuedSdu}
    (ring : InputRing tx lag queue)
    (block : Option Memory) (copied : Bool) (now : Nat) :
    ∃ lag' left, InputRing (segment10 tx block copied now).1 lag' left ∧
      left.map QueuedSdu.request <:+ queue.map QueuedSdu.request := by
  rcases segment10_cases tx block copied now with ⟨same, -⟩ | ⟨mem, -, -, -, stored, same, -⟩
  · rw [same]
    exact ⟨lag, queue, ring, List.suffix_refl _⟩
  · -- The index stands at the queue, since it finds a block.
    cases lag with
    | zero =>
      obtain ⟨left, filled, fewer⟩ := fillPdu_ring ring mem (dataPduSize tx).toNat
      exact ⟨0, left, filled.of_same same, fewer⟩
    | succ lag =>
      rw [queued_none.mp ring.holds.behind] at stored
      contradiction

section Sends

/-- Sending from an SDU changes neither its size nor the list of its PDUs. -/
structure SendsFrom (before after : Tx) : Prop where
  nbSdu : after.nbSdu = before.nbSdu
  sduSize : ∀ i, (after.inputSdus i).sduSize = (before.inputSdus i).sduSize
  pdusIndex : ∀ i, (after.inputSdus i).pdusIndex = (before.inputSdus i).pdusIndex

theorem SendsFrom.refl (tx : Tx) : SendsFrom tx tx := ⟨rfl, fun _ => rfl, fun _ => rfl⟩

theorem SendsFrom.trans {a b c : Tx} (left : SendsFrom a b) (right : SendsFrom b c) :
    SendsFrom a c where
  nbSdu := right.nbSdu.trans left.nbSdu
  sduSize i := (right.sduSize i).trans (left.sduSize i)
  pdusIndex i := (right.pdusIndex i).trans (left.pdusIndex i)

theorem setSdu_sends {before tx : Tx} {index : Nat} {sdu : TxSdu} (sends : SendsFrom before tx)
    (size : sdu.sduSize = (tx.inputSdus index).sduSize)
    (listed : sdu.pdusIndex = (tx.inputSdus index).pdusIndex) :
    SendsFrom before (tx.setSdu index sdu) := by
  refine sends.trans ⟨rfl, fun i => ?_, fun i => ?_⟩
  all_goals
    by_cases here : i = index
    · simp only [Tx.setSdu, here, Function.update_self, size, listed]
    · simp only [Tx.setSdu, Function.update_of_ne here]

theorem freeInSduData_sends (tx : Tx) (index : Nat) : SendsFrom tx (freeInSduData tx index) := by
  unfold freeInSduData
  split
  · exact setSdu_sends ⟨rfl, fun _ => rfl, fun _ => rfl⟩ rfl rfl
  · exact SendsFrom.refl tx

theorem finishSdu_sends {tx : Tx} {s : SecondPass} (sends : SendsFrom tx s.tx) :
    SendsFrom tx s.finishSdu.tx := by
  have freed := freeInSduData_sends s.tx s.tx.currentSduIndex
  exact sends.trans ⟨freed.nbSdu, freed.sduSize, freed.pdusIndex⟩

theorem fill_sends (s : SecondPass) (testNumLi : Nat) (bytes : Memory) :
    SendsFrom s.tx (s.fill testNumLi bytes).tx := by
  have copied (size : Nat) : SendsFrom s.tx (s.copy bytes size).tx :=
    ⟨rfl, fun _ => rfl, fun _ => rfl⟩
  unfold SecondPass.fill
  simp only
  split
  · exact setSdu_sends (copied _) rfl rfl
  · split
    · exact finishSdu_sends (copied _)
    · split
      · split
        · exact finishSdu_sends (copied _)
        · refine finishSdu_sends ?_
          rw [writeLi_tx]
          exact copied _
      · exact finishSdu_sends (copied _)

theorem secondPass_sends {tx : Tx} (testNumLi rounds : Nat) (s : SecondPass)
    (start : SendsFrom tx s.tx) :
    SendsFrom tx (secondPass testNumLi rounds s).tx := by
  induction rounds generalizing s with
  | zero => exact start
  | succ rounds ih =>
    rw [secondPass]
    split
    · split
      · exact ih _ (start.trans (fill_sends s testNumLi _))
      · exact start
    · exact start

theorem fillPdu_sends (tx : Tx) (mem : Memory) (size : Nat) :
    SendsFrom (fillPdu tx mem size).1.tx (fillPdu tx mem size).2.1.tx :=
  secondPass_sends _ maxSduInPdu _ (SendsFrom.refl _)

theorem segment10_sizes (tx : Tx) (block : Option Memory) (copied : Bool) (now : Nat) :
    SameSizes tx (segment10 tx block copied now).1 := by
  rcases segment10_cases tx block copied now with ⟨same, -⟩ | ⟨mem, -, -, -, -, same, -⟩
  · rw [same]
    exact SameSizes.refl tx
  · refine SameSizes.trans ?_ same.sizes
    have sends := fillPdu_sends tx mem (dataPduSize tx).toNat
    refine SameSizes.trans ?_ ⟨sends.nbSdu, sends.sduSize⟩
    exact (firstPass_sameInput _ _ (SameInput.refl tx)).sizes

end Sends

end OpenAir.Rlc.Am
