import OpenAir.Rlc.Am.InputQueueRun
import OpenAir.Rlc.Am.SegmentQueue

/-! The lists that tie SDUs and PDUs together: each SDU lists its PDUs in an array of 32 places,
each PDU its SDUs in one of 128 with a count of eight bits. -/
namespace OpenAir.Rlc.Am
open BitField Run

/-- No list is longer than its array, and the signed count of a PDU is the length of its list. -/
structure ListsOk (tx : Tx) : Prop where
  pdus : ∀ i, (tx.inputSdus i).pdusIndex.length ≤ maxSduFragments
  sdus : ∀ i, (tx.txDataPduBuffer i).sdusIndex.length ≤ maxSduInPdu
  count : ∀ i, (tx.txDataPduBuffer i).nbSdus = (tx.txDataPduBuffer i).sdusIndex.length

/-- The SDUs from the `j`-th on, as long as there is a block. -/
def Tx.reachedFrom (tx : Tx) : Nat → Nat → List TxSdu
  | 0, _ => []
  | rounds + 1, j =>
    let sdu := tx.inputSdus (tx.place j)
    if sdu.memBlock.isSome then sdu :: tx.reachedFrom rounds (j + 1) else []

def Tx.reached (tx : Tx) : List TxSdu := tx.reachedFrom maxSduInPdu 0

/-- Each SDU that a PDU with `room` bytes reaches, `k` others being listed, has a place for it in
its array, and the PDU has a place left after it. -/
def Listable : Nat → Nat → List TxSdu → Prop
  | _, _, [] => True
  | room, k, sdu :: rest =>
    k < maxSduInPdu - 1 ∧ sdu.pdusIndex.length < maxSduFragments ∧
      (sdu.sduRemainingSize + liBytes k < room → sdu.pdusIndex.length + 1 < maxSduFragments →
        Listable (room - (sdu.sduRemainingSize + liBytes k)) (k + 1) rest)

instance Listable.decidable : (room k : Nat) → (queue : List TxSdu) →
    Decidable (Listable room k queue)
  | _, _, [] => inferInstanceAs (Decidable True)
  | room, k, sdu :: rest =>
    have := Listable.decidable (room - (sdu.sduRemainingSize + liBytes k)) (k + 1) rest
    inferInstanceAs (Decidable (_ ∧ _ ∧ (_ → _ → _)))

section Pass

/-- The same for the variables of the first pass. -/
structure PassOk (s : FirstPass) : Prop where
  pdus : ∀ i, (s.tx.inputSdus i).pdusIndex.length ≤ maxSduFragments
  sdus : s.pdu.sdusIndex.length < maxSduInPdu

/-- Behind the SDUs of `queue` the pass finds no block, or the array is full. -/
def Stops (s : FirstPass) (k : Nat) (queue : List TxSdu) : Prop :=
  k + queue.length < maxSduInPdu → (s.tx.inputSdus (s.tx.place (k + queue.length))).memBlock = none

variable {s : FirstPass} {room k rounds : Nat} {sdu : TxSdu} {queue rest : List TxSdu}

/-- One SDU more in the list of the PDU, one PDU more in the list of the SDU. -/
theorem link_ok_iff (onPass : OnPass s room k) (ahead : Ahead s k (sdu :: rest))
    (pdus : ∀ i, (s.tx.inputSdus i).pdusIndex.length ≤ maxSduFragments) {last : FirstPass}
    (tx : last.tx = (s.fit sdu.sduRemainingSize).link.tx)
    (pdu : last.pdu = (s.fit sdu.sduRemainingSize).link.pdu) :
    PassOk last ↔ k < maxSduInPdu - 1 ∧ sdu.pdusIndex.length < maxSduFragments := by
  have head : s.tx.inputSdus s.sduBufferIndex = sdu := by
    rw [onPass.index]
    exact ahead.sdus 0 (Nat.succ_pos _)
  obtain ⟨sameTx, samePdu, index⟩ := fit_frame s sdu.sduRemainingSize
  have fragments (i : Nat) := @link_fragments s (s.fit sdu.sduRemainingSize) i sameTx index
  have stored : last.pdu.sdusIndex.length = k + 1 := by
    rw [pdu]
    simp only [FirstPass.link, samePdu, List.length_append, onPass.stored, List.length_singleton]
  constructor
  · intro ok
    have one := ok.pdus s.sduBufferIndex
    have few := ok.sdus
    rw [tx, fragments, if_pos rfl, head] at one
    rw [stored] at few
    exact ⟨Nat.lt_sub_of_add_lt few, one⟩
  · rintro ⟨few, one⟩
    refine ⟨fun i => ?_, by rw [stored]; exact Nat.add_lt_of_lt_sub few⟩
    rw [tx, fragments]
    by_cases here : i = s.sduBufferIndex
    · rw [if_pos here, here, head]
      exact one
    · rw [if_neg here]
      exact pdus i

theorem Stops.next (stops : Stops s k (sdu :: rest)) {next : FirstPass}
    (linked : Linked s.tx next.tx) :
    Stops next (k + 1) rest := by
  intro more
  obtain ⟨_, same⟩ := linked.sdus (s.tx.place (k + 1 + rest.length))
  have absent := stops (by rw [List.length_cons]; omega)
  rw [List.length_cons, show k + (rest.length + 1) = k + 1 + rest.length by omega] at absent
  rw [linked.place, same, absent]

theorem fit_stops {size : Nat} (onPass : OnPass s room k) (below : k < maxSduInPdu)
    (ends : ¬ (size + liBytes k < room ∧ k < maxSduInPdu - 1)) :
    (s.fit size).continueFill = false := by
  by_cases last : room ≤ size
  · rw [fit_last onPass last]
    rfl
  · obtain ⟨reduce, -, short⟩ := fit_short onPass (Nat.lt_of_not_le last) below ends
    rw [short]
    rfl

/-- The pass keeps to the arrays exactly when all it reaches is listable. -/
theorem firstPass_ok_iff (onPass : OnPass s room k) (ahead : Ahead s k queue)
    (stops : Stops s k queue)
    (enough : rounds + k = maxSduInPdu) (below : k < maxSduInPdu)
    (pdus : ∀ i, (s.tx.inputSdus i).pdusIndex.length ≤ maxSduFragments) :
    PassOk (firstPass rounds s) ↔ Listable room k queue := by
  induction queue generalizing s room k rounds with
  | nil =>
    have ended : firstPass rounds s = s := by
      cases rounds with
      | zero => rfl
      | succ rounds =>
        have absent := stops below
        rw [List.length_nil, Nat.add_zero, ← onPass.index] at absent
        simp only [firstPass, absent, Option.isSome_none, Bool.false_eq_true, false_and, if_false]
    rw [ended]
    exact ⟨fun _ => trivial, fun _ => ⟨pdus, by rw [onPass.stored]; exact below⟩⟩
  | cons sdu rest ih =>
    cases rounds with
    | zero =>
      rw [Nat.zero_add] at enough
      exact absurd enough (Nat.ne_of_lt below)
    | succ rounds =>
      have round := @firstPass_round s _ rounds room k sdu rest onPass ahead rfl
      have length : sdu.pdusIndex.length ≤ maxSduFragments := by
        have bound := pdus (s.tx.place (k + 0))
        rwa [ahead.sdus 0 (Nat.succ_pos _)] at bound
      have small : (sdu.pdusIndex.length + 1) % 256 = sdu.pdusIndex.length + 1 :=
        Nat.mod_eq_of_lt (by simp only [maxSduFragments] at length; omega)
      rw [small] at round
      rw [round, Listable]
      by_cases full : sdu.pdusIndex.length + 1 ≥ maxSduFragments
      · rw [if_pos full, link_ok_iff onPass ahead pdus rfl rfl]
        exact ⟨fun ok => ⟨ok.1, ok.2, fun _ less => absurd less (Nat.not_lt.mpr full)⟩,
          fun ok => ⟨ok.1, ok.2.1⟩⟩
      · rw [if_neg full]
        obtain ⟨next, step⟩ : ∃ next : FirstPass, next =
            { (s.fit sdu.sduRemainingSize).link with sduBufferIndex := s.tx.place (k + 1) } :=
              ⟨_, rfl⟩
        have sameTx : next.tx = (s.fit sdu.sduRemainingSize).link.tx := by rw [step]
        have samePdu : next.pdu = (s.fit sdu.sduRemainingSize).link.pdu := by rw [step]
        rw [← step]
        have less : sdu.pdusIndex.length + 1 < maxSduFragments := Nat.lt_of_not_ge full
        by_cases more : sdu.sduRemainingSize + liBytes k < room ∧ k < maxSduInPdu - 1
        · obtain ⟨onNext, aheadNext⟩ := onPass.next ahead more.1 more.2 step
          have ok := (link_ok_iff onPass ahead pdus sameTx samePdu).mpr
            ⟨more.2, Nat.lt_of_succ_lt less⟩
          have linked := link_linked (s.fit sdu.sduRemainingSize)
          rw [(fit_frame s sdu.sduRemainingSize).1, ← sameTx] at linked
          rw [ih onNext aheadNext (stops.next linked) (by omega) (by omega) ok.pdus]
          exact ⟨fun tail => ⟨more.2, Nat.lt_of_succ_lt less, fun _ _ => tail⟩,
            fun ok => ok.2.2 more.1 less⟩
        · have stopped : next.continueFill = false := by
            rw [step]
            exact fit_stops onPass below more
          rw [firstPass_stopped stopped, link_ok_iff onPass ahead pdus sameTx samePdu]
          exact ⟨fun ok => ⟨ok.1, ok.2, fun fits _ => absurd ⟨fits, ok.1⟩ more⟩,
            fun ok => ⟨ok.1, ok.2.1⟩⟩

end Pass

section Reached

theorem reachedFrom_length (tx : Tx) (rounds j : Nat) :
    (tx.reachedFrom rounds j).length ≤ rounds := by
  induction rounds generalizing j with
  | zero => exact Nat.le_refl 0
  | succ rounds ih =>
    simp only [Tx.reachedFrom]
    split
    · exact Nat.succ_le_succ (ih (j + 1))
    · exact Nat.zero_le _

theorem reachedFrom_sdus (tx : Tx) (rounds k j : Nat)
    (inside : j < (tx.reachedFrom rounds k).length) :
    (tx.reachedFrom rounds k)[j]? = some (tx.inputSdus (tx.place (k + j))) := by
  induction rounds generalizing k j with
  | zero => exact absurd inside (Nat.not_lt_zero j)
  | succ rounds ih =>
    simp only [Tx.reachedFrom] at inside ⊢
    split
    · rename_i block
      simp only [block, if_true] at inside
      cases j with
      | zero => rfl
      | succ j =>
        rw [List.getElem?_cons_succ, ih (k + 1) j (Nat.lt_of_succ_lt_succ inside),
          Nat.add_right_comm]
        rfl
    · rename_i absent
      rw [if_neg absent] at inside
      exact absurd inside (Nat.not_lt_zero j)

theorem reachedFrom_blocks (tx : Tx) (rounds k : Nat) : ∀ sdu ∈ tx.reachedFrom rounds k,
    sdu.memBlock.isSome := by
  induction rounds generalizing k with
  | zero => exact nofun
  | succ rounds ih =>
    simp only [Tx.reachedFrom]
    split
    · rename_i block
      intro sdu member
      rcases List.mem_cons.mp member with rfl | later
      · exact block
      · exact ih (k + 1) sdu later
    · exact nofun

theorem reachedFrom_stops (tx : Tx) (rounds k : Nat)
    (short : (tx.reachedFrom rounds k).length < rounds) :
    (tx.inputSdus (tx.place (k + (tx.reachedFrom rounds k).length))).memBlock = none := by
  induction rounds generalizing k with
  | zero => exact absurd short (Nat.not_lt_zero _)
  | succ rounds ih =>
    simp only [Tx.reachedFrom] at short ⊢
    split at short
    · rename_i block
      simp only [block, if_true, List.length_cons]
      rw [Nat.add_comm _ 1, ← Nat.add_assoc]
      exact ih (k + 1) (Nat.lt_of_succ_lt_succ short)
    · rename_i absent
      simp only [absent]
      exact Option.not_isSome_iff_eq_none.mp absent

theorem reached_grant (tx : Tx) (grant : Int) : { tx with nbBytesRequestedByMac := grant }.reached =
    tx.reached := by
  have same (rounds j : Nat) :
      { tx with nbBytesRequestedByMac := grant }.reachedFrom rounds j =
          tx.reachedFrom rounds j := by
    induction rounds generalizing j with
    | zero => rfl
    | succ rounds ih =>
      rw [Tx.reachedFrom, Tx.reachedFrom, ih]
      rfl
  exact same maxSduInPdu 0

/-- A call keeps to the arrays exactly when the SDUs it reaches are listable. -/
theorem reserve_ok_iff {tx : Tx} (index : tx.currentSduIndex < sduControlBufferSize)
    (pdus : ∀ i, (tx.inputSdus i).pdusIndex.length ≤ maxSduFragments) :
    PassOk (reserve tx) ↔ Listable (pduRoom tx) 0 tx.reached := by
  have place : tx.place 0 = tx.currentSduIndex := Nat.mod_eq_of_lt index
  have length := reachedFrom_length tx maxSduInPdu 0
  have ahead : Ahead (reserveStart tx) 0 tx.reached := by
    refine ⟨?_, fun j inside => ?_, reachedFrom_blocks tx maxSduInPdu 0⟩
    · rw [Nat.zero_add]
      exact Nat.lt_of_le_of_lt length (by decide)
    · have stored : tx.reached[j]? = _ := reachedFrom_sdus tx maxSduInPdu 0 j inside
      rw [List.getElem?_eq_getElem inside] at stored
      exact (Option.some.inj stored).symm
  have stops : Stops (reserveStart tx) 0 tx.reached := fun short =>
    reachedFrom_stops tx maxSduInPdu 0 (by rwa [Nat.zero_add] at short)
  exact firstPass_ok_iff ⟨place.symm, rfl, Nat.le_refl _, rfl, rfl, rfl, rfl⟩ ahead stops
    rfl (by decide) pdus

end Reached

section Runs

/-- What a grant makes of the queue is listable. -/
def Lists (s : InputState) : InputOp → Prop
  | .segment grant block _ _ => 2 < grant → block.isSome → 0 < s.tx.sduBufferOccupancy →
      Listable (pduRoom { s.tx with nbBytesRequestedByMac := grant }) 0 s.tx.reached
  | _ => True

theorem count_iff (pdu : TxPdu) :
    pdu.sdusIndex.length < maxSduInPdu ↔
      pdu.sdusIndex.length ≤ maxSduInPdu ∧ pdu.nbSdus = pdu.sdusIndex.length := by
  unfold TxPdu.nbSdus
  constructor
  · intro few
    have few : pdu.sdusIndex.length < 128 := few
    exact ⟨Nat.le_of_lt few, Int.bmod_eq_of_le (by omega) (by omega)⟩
  · rintro ⟨most, same⟩
    refine Nat.lt_of_le_of_ne most fun full => ?_
    rw [full] at same
    exact absurd same (by decide)

theorem listsOk_iff {tx after : Tx} {pdu : TxPdu} {slot : Nat} (ok : ListsOk tx)
    (pdus : ∀ i, (after.inputSdus i).pdusIndex = ((reserve tx).tx.inputSdus i).pdusIndex)
    (sdus : pdu.sdusIndex = (reserve tx).pdu.sdusIndex)
    (slots : after.txDataPduBuffer = Function.update tx.txDataPduBuffer slot pdu) :
    ListsOk after ↔ PassOk (reserve tx) := by
  have here : after.txDataPduBuffer slot = pdu := by rw [slots, Function.update_self]
  constructor
  · intro after
    refine ⟨fun i => by rw [← pdus]; exact after.pdus i, ?_⟩
    rw [← sdus, count_iff, ← here]
    exact ⟨after.sdus slot, after.count slot⟩
  · intro pass
    have stored := (count_iff pdu).mp (by rw [sdus]; exact pass.sdus)
    have each (i : Nat) : (after.txDataPduBuffer i).sdusIndex.length ≤ maxSduInPdu ∧
        (after.txDataPduBuffer i).nbSdus = (after.txDataPduBuffer i).sdusIndex.length := by
      by_cases same : i = slot
      · rw [same, here]
        exact stored
      · rw [slots, Function.update_of_ne same]
        exact ⟨ok.sdus i, ok.count i⟩
    exact ⟨fun i => by rw [pdus]; exact pass.pdus i, fun i => (each i).1, fun i => (each i).2⟩

theorem segment10_lists_iff {tx : Tx} (index : tx.currentSduIndex < sduControlBufferSize)
    (ok : ListsOk tx)
    (grant : 2 < tx.nbBytesRequestedByMac) (block : Option Memory) (copied : Bool) (now : Nat) :
    ListsOk (segment10 tx block copied now).1 ↔
      (block.isSome → 0 < tx.sduBufferOccupancy → Listable (pduRoom tx) 0 tx.reached) := by
  rcases segment10_cases tx block copied now
    with ⟨same, idle⟩ | ⟨mem, pdu, rfl, occupied, -, -, pdus, sdus, slots⟩
  · rw [same]
    refine ⟨fun _ given occupied => ?_, fun _ => ok⟩
    rcases idle with empty | missing | absent | small
    · exact absurd occupied (Int.not_lt.mpr empty)
    · rw [missing] at given
      contradiction
    · have place : tx.place 0 = tx.currentSduIndex := Nat.mod_eq_of_lt index
      have none_ : tx.reached = [] := by
        rw [Tx.reached, show maxSduInPdu = 127 + 1 from rfl, Tx.reachedFrom]
        simp only [place, absent, Option.isSome_none, Bool.false_eq_true, if_false]
      rw [none_]
      trivial
    · omega
  · have passes := fillPdu_eq tx mem
    rw [passes] at pdus sdus
    have kept (i : Nat) : ((segment10 tx (some mem) copied now).1.inputSdus i).pdusIndex =
        ((reserve tx).tx.inputSdus i).pdusIndex := by
      rw [pdus]
      exact (secondPass_sends _ _ _ (SendsFrom.refl _)).pdusIndex i
    rw [listsOk_iff ok kept sdus slots, reserve_ok_iff index ok.pdus]
    exact ⟨fun listable _ _ => listable, fun listable => listable rfl occupied⟩

theorem dataReq_listsOk {tx : Tx} (ok : ListsOk tx) (bytes : Memory) (size mui : Nat) :
    ListsOk (dataReq tx bytes size mui) := by
  unfold dataReq
  simp only
  split
  · refine ⟨fun i => ?_, ok.sdus, ok.count⟩
    by_cases here : i = tx.nextSduIndex
    · simp only [Tx.setSdu, here, Function.update_self]
      exact Nat.zero_le _
    · simp only [Tx.setSdu, Function.update_of_ne here]
      exact ok.pdus i
  · exact ok

theorem skipConfirmed_listsOk (rounds : Nat) {tx : Tx} (ok : ListsOk tx) :
    ListsOk (skipConfirmed rounds tx) := by
  induction rounds generalizing tx with
  | zero => exact ok
  | succ rounds ih =>
    rw [skipConfirmed]
    split
    · exact ih ⟨ok.pdus, ok.sdus, ok.count⟩
    · exact ok

theorem freeInSdu_listsOk {tx : Tx} (ok : ListsOk tx) (index : Nat) :
    ListsOk (freeInSdu tx index) := by
  have released :
      ListsOk ({ tx with nbSdu := tx.nbSdu - 1 }.setSdu index
      { transmittedSuccessfully := true }) := by
    refine ⟨fun i => ?_, ok.sdus, ok.count⟩
    by_cases here : i = index
    · simp only [Tx.setSdu, here, Function.update_self]
      exact Nat.zero_le _
    · simp only [Tx.setSdu, Function.update_of_ne here]
      exact ok.pdus i
  unfold freeInSdu
  split
  · exact ok
  · simp only
    split
    · exact skipConfirmed_listsOk _ ⟨released.pdus, released.sdus, released.count⟩
    · exact skipConfirmed_listsOk _ released

theorem inputStep_lists_iff (s : InputState) (op : InputOp) (s' : InputState) (kept : InputKept s)
    (ok : ListsOk s.tx)
    (stepped : inputStep s op = some s') : ListsOk s'.tx ↔ Lists s op := by
  cases op with
  | dataReq bytes size mui =>
    cases stepped
    exact ⟨fun _ => trivial, fun _ => dataReq_listsOk ok bytes size mui⟩
  | segment grant block copied now =>
    cases stepped
    by_cases enough : 2 < grant
    · obtain ⟨lag, queue, ring, -⟩ := kept
      have granted : ListsOk { s.tx with nbBytesRequestedByMac := grant } :=
        ⟨ok.pdus, ok.sdus, ok.count⟩
      have exactly :=
        @segment10_lists_iff { s.tx with nbBytesRequestedByMac := grant } ring.holds.index granted
        enough block copied now
      rw [reached_grant] at exactly
      simp only [Lists, enough, true_implies, if_true]
      exact exactly
    · simp only [Lists, enough, false_implies, if_false]
      exact ⟨fun _ => trivial, fun _ => ok⟩
  | freeInSdu index =>
    cases stepped
    exact ⟨fun _ => trivial, fun _ => freeInSdu_listsOk ok index⟩

theorem txInit_listsOk (config : TxConfig) : ListsOk (txInit config) where
  pdus _ := Nat.zero_le maxSduFragments
  sdus _ := Nat.zero_le maxSduInPdu
  count _ := ((count_iff {}).mp (Nat.zero_lt_of_lt (by decide : 127 < maxSduInPdu))).2

/-- The lists keep to their arrays in every state of a run exactly when every grant finds the SDUs
it reaches listable. -/
theorem segment_lists_iff (config : TxConfig) (ops : List InputOp) :
    (∀ before after s, ops = before ++ after → run inputStep { tx := txInit config } before =
        some s → ListsOk s.tx) ↔
      Meets inputStep Lists { tx := txInit config } ops :=
  @always_iff_meets InputState InputOp inputStep InputKept (fun s => ListsOk s.tx)
    Lists inputStep_kept
    inputStep_lists_iff _ (inputStart_kept config) (txInit_listsOk config) ops

/-- An SDU of forty bytes given out in pieces of one byte. -/
def crumbs : List InputOp :=
  .dataReq (fun _ => 0) 40 0 :: List.replicate 33 (.segment 3 (some fun _ => 0) true 0)

theorem crumbs_overflow : ∃ s, run inputStep { tx := txInit ⟨8, 4, 100, 80⟩ } crumbs = some s ∧
    ¬ ListsOk s.tx := by
  have seen : (run inputStep { tx := txInit ⟨8, 4, 100, 80⟩ } crumbs).map
      (fun s => (s.tx.inputSdus 0).pdusIndex.length) = some 33 := by decide +kernel
  obtain ⟨s, ran, length⟩ := Option.map_eq_some_iff.mp seen
  refine ⟨s, ran, fun ok => ?_⟩
  have bound := ok.pdus 0
  rw [length] at bound
  exact absurd bound (by decide)

end Runs

end OpenAir.Rlc.Am
