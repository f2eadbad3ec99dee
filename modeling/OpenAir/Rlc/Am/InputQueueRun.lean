import Mathlib.Algebra.BigOperators.Ring.Finset
import OpenAir.Rlc.Am.InputQueue
import OpenAir.Rlc.Am.TxWindow

/-! The input queue over any interleaving of requests, grants and releases. -/
namespace OpenAir.Rlc.Am
open BitField RingQueue Run

/-- A request of the upper layer, a grant for new PDUs, the release of the SDU in one place. -/
inductive InputOp where
  | dataReq (bytes : Memory) (size mui : Nat)
  | segment (grant : Int) (block : Option Memory) (copied : Bool) (now : Nat)
  | freeInSdu (index : Nat)

/-- The entity, and the requests it has accepted. -/
structure InputState where
  tx : Tx
  accepted : List SduRequest := []

/-- One operation; `rlc_am_get_pdus` segments for grants of more than two bytes. -/
def inputStep (s : InputState) : InputOp → Option InputState
  | .dataReq bytes size mui => some
      { tx := dataReq s.tx bytes size mui
        accepted := if s.tx.Accepts then s.accepted ++ [⟨bytes, mui, size⟩] else s.accepted }
  | .segment grant block copied now => some
      { s with tx := if 2 < grant then
          (segment10 { s.tx with nbBytesRequestedByMac := grant } block copied now).1 else s.tx }
  | .freeInSdu index => some { s with tx := freeInSdu s.tx index }

/-- The places of the SDUs not yet completely segmented. -/
def Tx.unsegmented (tx : Tx) : Finset Nat :=
  (Finset.range sduControlBufferSize).filter fun i => (tx.inputSdus i).memBlock.isSome

def TxSdu.request (sdu : TxSdu) : Option SduRequest := sdu.queued.map QueuedSdu.request

/-- The counters agree with the ring, whose SDUs are the last that were accepted, in order, and
only the first of them is begun. -/
structure InputAccounts (s : InputState) : Prop where
  occupancy : s.tx.sduBufferOccupancy = ∑ i ∈ s.tx.unsegmented,
    ((s.tx.inputSdus i).sduRemainingSize : Int)
  count : s.tx.nbSduNoSegmented = s.tx.unsegmented.card
  whole : ∀ i ∈ s.tx.unsegmented,
    (s.tx.inputSdus i).sduRemainingSize + (s.tx.inputSdus i).sduSegmentedSize =
      (s.tx.inputSdus i).sduSize
  order : ∃ order : List Nat, order.Nodup ∧ order.toFinset = s.tx.unsegmented ∧
    order.map (fun i => (s.tx.inputSdus i).request) <:+ s.accepted.map some ∧
    ∀ i ∈ order.tail, (s.tx.inputSdus i).sduSegmentedSize = 0

section Accounts

variable {tx : Tx} {lag : Nat} {queue : List QueuedSdu}

theorem InputRing.mem_unsegmented (ring : InputRing tx lag queue) (i : Nat) :
    i ∈ places sduControlBufferSize tx.currentSduIndex lag queue.length ↔ i ∈ tx.unsegmented := by
  rw [ring.holds.mem_places, Tx.unsegmented, Finset.mem_filter, Finset.mem_range, TxSdu.queued,
    Option.isSome_map]

theorem InputRing.toFinset (ring : InputRing tx lag queue) :
    (places sduControlBufferSize tx.currentSduIndex lag queue.length).toFinset =
    tx.unsegmented := by
  ext i
  rw [List.mem_toFinset, ring.mem_unsegmented]

theorem InputRing.at_place (ring : InputRing tx lag queue) {i : Nat}
    (waiting : i ∈ tx.unsegmented) :
    ∃ sdu ∈ queue, (tx.inputSdus i).queued = some sdu := by
  have member :=
    List.mem_map_of_mem (f := fun i => (tx.inputSdus i).queued)
    ((ring.mem_unsegmented i).mpr waiting)
  rw [ring.holds.map_places] at member
  obtain ⟨sdu, inside, same⟩ := List.mem_map.mp member
  exact ⟨sdu, inside, same.symm⟩

theorem queued_fields {sdu : TxSdu} {q : QueuedSdu} (same : sdu.queued = some q) :
    sdu.sduRemainingSize = q.remaining ∧ sdu.sduSegmentedSize = q.segmented ∧
    sdu.sduSize = q.request.size := by
  obtain ⟨_, -, rfl⟩ := Option.map_eq_some_iff.mp same
  exact ⟨rfl, rfl, rfl⟩

theorem InputRing.accounts {accepted : List SduRequest} (ring : InputRing tx lag queue)
    (last : queue.map QueuedSdu.request <:+ accepted) : InputAccounts ⟨tx, accepted⟩ := by
  have listed := ring.holds.map_places
  constructor
  · rw [ring.occupancy, ← ring.toFinset, List.sum_toFinset _ ring.holds.nodup]
    have read (i : Nat)
      (member : i ∈ places sduControlBufferSize tx.currentSduIndex lag queue.length) :
        ((tx.inputSdus i).sduRemainingSize : Int) =
            ((tx.inputSdus i).queued.elim 0 QueuedSdu.remaining : Nat) := by
      obtain ⟨sdu, -, same⟩ := ring.at_place ((ring.mem_unsegmented i).mp member)
      rw [same, (queued_fields same).1]
      rfl
    rw [List.map_congr_left read]
    have mapped :=
      congrArg (fun list => (list.map fun o => ((o.elim 0 QueuedSdu.remaining : Nat) : Int)).sum)
      listed
    simp only [List.map_map] at mapped
    rw [Nat.cast_list_sum, List.map_map]
    exact mapped.symm
  · rw [ring.count, ← ring.toFinset, List.toFinset_card_of_nodup ring.holds.nodup, places,
      List.length_map, List.length_range]
  · intro i waiting
    obtain ⟨sdu, inside, same⟩ := ring.at_place waiting
    obtain ⟨remaining, segmented, size⟩ := queued_fields same
    rw [remaining, segmented, size]
    exact ring.whole sdu inside
  · refine ⟨_, ring.holds.nodup, ring.toFinset, ?_, fun i later => ?_⟩
    · have requests := congrArg (List.map (Option.map QueuedSdu.request)) listed
      simp only [List.map_map] at requests
      have suffix : (queue.map QueuedSdu.request).map some <:+ accepted.map some := last.map some
      rw [List.map_map] at suffix
      have requests : List.map (fun i => (tx.inputSdus i).request) _ =
        List.map (some ∘ QueuedSdu.request) queue := requests
      rw [requests]
      exact suffix
    · have member := List.mem_map_of_mem (f := fun i => (tx.inputSdus i).queued) later
      rw [List.map_tail, listed, ← List.map_tail] at member
      obtain ⟨sdu, inside, same⟩ := List.mem_map.mp member
      rw [(queued_fields same.symm).2.1]
      exact ring.untouched sdu inside

end Accounts

section Steps

/-- The queue is what is left of the accepted requests. -/
def InputKept (s : InputState) : Prop :=
  ∃ lag queue, InputRing s.tx lag queue ∧ queue.map QueuedSdu.request <:+ s.accepted

theorem inputStart_kept (config : TxConfig) : InputKept { tx := txInit config } := by
  refine ⟨0, [], ?_, List.suffix_refl _⟩
  have some_ : 0 < sduControlBufferSize := by decide
  refine ⟨⟨some_, some_, fun o _ => ?_⟩, rfl, fun _ _ => rfl, rfl, rfl, nofun, nofun⟩
  rw [if_neg (Nat.not_lt_zero o)]
  rfl

theorem suffix_append {α : Type} {a b : List α} (suffix : a <:+ b)
    (x : α) : a ++ [x] <:+ b ++ [x] := by
  obtain ⟨before, rfl⟩ := suffix
  exact ⟨before, (List.append_assoc _ _ _).symm⟩

theorem inputStep_kept (s : InputState) (op : InputOp) (kept : InputKept s) :
    ∃ s', inputStep s op = some s' ∧ InputKept s' := by
  obtain ⟨lag, queue, ring, last⟩ := kept
  cases op with
  | dataReq bytes size mui =>
    refine ⟨_, rfl, ?_⟩
    by_cases accepts : s.tx.Accepts
    · refine ⟨lag, _, dataReq_ring ring accepts bytes size mui, ?_⟩
      simp only [if_pos accepts, List.map_append]
      exact suffix_append last _
    · refine ⟨lag, queue, ?_, ?_⟩
      · simp only [dataReq_refused accepts]
        exact ring
      · simp only [if_neg accepts]
        exact last
  | segment grant block copied now =>
    refine ⟨_, rfl, ?_⟩
    by_cases enough : 2 < grant
    · have granted : InputRing { s.tx with nbBytesRequestedByMac := grant } lag queue :=
        ring.of_same ⟨⟨rfl, fun _ => rfl⟩, rfl, rfl, rfl, rfl, fun _ => rfl, fun _ => rfl⟩
      obtain ⟨lag', left, after, fewer⟩ := segment10_ring granted block copied now
      refine ⟨lag', left, ?_, fewer.trans last⟩
      simp only [if_pos enough]
      exact after
    · refine ⟨lag, queue, ?_, last⟩
      simp only [if_neg enough]
      exact ring
  | freeInSdu index =>
    obtain ⟨lag', after⟩ := freeInSdu_ring ring index
    exact ⟨_, rfl, lag', queue, after, last⟩

/-- The places of the SDUs accepted and not yet released. -/
def Tx.unreleased (tx : Tx) : Finset Nat :=
  (Finset.range sduControlBufferSize).filter fun i => (tx.inputSdus i).sduSize ≠ 0

theorem mem_unreleased {tx : Tx} {i : Nat} :
    i ∈ tx.unreleased ↔ i < sduControlBufferSize ∧ (tx.inputSdus i).sduSize ≠ 0 := by
  rw [Tx.unreleased, Finset.mem_filter, Finset.mem_range]

/-- The upper layer sends no empty SDU, and the SDU stored before in the place has been released. -/
def Spares (s : InputState) : InputOp → Prop
  | .dataReq _ size _ => 0 < size ∧ (s.tx.Accepts → (s.tx.inputSdus s.tx.nextSduIndex).sduSize = 0)
  | _ => True

/-- Each SDU counted has a place of its own. -/
def Placed (tx : Tx) : Prop := tx.nbSdu ≤ tx.unreleased.card

theorem Placed.of_sizes {before after : Tx} (placed : Placed before)
    (same : SameSizes before after) : Placed after := by
  have equal : after.unreleased = before.unreleased := by
    ext i
    rw [mem_unreleased, mem_unreleased, same.sduSize]
  rw [Placed, same.nbSdu, equal]
  exact placed

theorem Placed.request {tx : Tx} {bytes : Memory} {size mui : Nat} (placed : Placed tx)
    (accepts : tx.Accepts)
    (inside : tx.nextSduIndex < sduControlBufferSize) (some_ : 0 < size)
    (released : (tx.inputSdus tx.nextSduIndex).sduSize = 0) :
    Placed (dataReq tx bytes size mui) := by
  have stored : dataReq tx bytes size mui = _ := if_pos accepts
  have fresh : tx.nextSduIndex ∉ tx.unreleased :=
    fun member => (mem_unreleased.mp member).2 released
  have more : (dataReq tx bytes size mui).unreleased = insert tx.nextSduIndex tx.unreleased := by
    ext i
    rw [Finset.mem_insert, mem_unreleased, mem_unreleased, stored]
    by_cases here : i = tx.nextSduIndex
    · simp only [Tx.setSdu, here, Function.update_self, inside, true_and, true_or, iff_true]
      exact Nat.ne_of_gt some_
    · simp only [Tx.setSdu, Function.update_of_ne here, here, false_or]
  have counted : (dataReq tx bytes size mui).nbSdu = tx.nbSdu + 1 := by rw [stored]; rfl
  rw [Placed, more, Finset.card_insert_of_notMem fresh, counted, Nat.cast_add, Nat.cast_one]
  exact Int.add_le_add_right placed 1

theorem skipConfirmed_sizes (rounds : Nat) (tx : Tx) : SameSizes tx (skipConfirmed rounds tx) := by
  induction rounds generalizing tx with
  | zero => exact SameSizes.refl tx
  | succ rounds ih =>
    rw [skipConfirmed]
    split
    · have moved :
          SameSizes tx
          { tx with currentSduIndex := (tx.currentSduIndex + 1) % sduControlBufferSize } :=
        ⟨rfl, fun _ => rfl⟩
      exact moved.trans (ih _)
    · exact SameSizes.refl tx

theorem Placed.release {tx : Tx} (placed : Placed tx) (index : Nat) :
    Placed (freeInSdu tx index) := by
  have erased :
      Placed ({ tx with nbSdu := tx.nbSdu - 1 }.setSdu index
      { transmittedSuccessfully := true }) := by
    have fewer : tx.unreleased.erase index ⊆
        ({ tx with nbSdu := tx.nbSdu - 1 }.setSdu index
            { transmittedSuccessfully := true }).unreleased := by
      intro i member
      obtain ⟨other, member⟩ := Finset.mem_erase.mp member
      have held := mem_unreleased.mp member
      refine mem_unreleased.mpr ⟨held.1, ?_⟩
      simp only [Tx.setSdu, Function.update_of_ne other]
      exact held.2
    have one := (Finset.pred_card_le_card_erase (s := tx.unreleased) (a := index)).trans
      (Finset.card_le_card fewer)
    unfold Placed at placed ⊢
    simp only [Tx.setSdu] at one ⊢
    omega
  unfold freeInSdu
  split
  · exact placed
  · simp only
    refine Placed.of_sizes ?_ (skipConfirmed_sizes _ _)
    split
    · exact erased.of_sizes ⟨rfl, fun _ => rfl⟩
    · exact erased

theorem inputStep_placed (s : InputState) (op : InputOp) (kept : InputKept s) (placed : Placed s.tx)
    (spares : Spares s op)
    {s' : InputState} (stepped : inputStep s op = some s') : Placed s'.tx := by
  cases op with
  | dataReq bytes size mui =>
    cases stepped
    by_cases accepts : s.tx.Accepts
    · obtain ⟨lag, queue, ring, -⟩ := kept
      have inside : s.tx.nextSduIndex < sduControlBufferSize := by
        rw [ring.next]
        exact Nat.mod_lt _ (by decide)
      exact placed.request accepts inside spares.1 (spares.2 accepts)
    · simp only [dataReq_refused accepts]
      exact placed
  | segment grant block copied now =>
    cases stepped
    simp only
    split
    · have granted : Placed { s.tx with nbBytesRequestedByMac := grant } := placed
      exact granted.of_sizes (segment10_sizes _ block copied now)
    · exact placed
  | freeInSdu index =>
    cases stepped
    exact placed.release index

end Steps

section Overfull

/-- An SDU of one byte, and a grant that takes it whole. -/
def byteRequest : InputOp := .dataReq (fun _ => 0) 1 0

def byteGrant : InputOp := .segment 10 (some fun _ => 0) true 0

theorem requests_accepted {s : InputState} {queue : List QueuedSdu}
    (ring : InputRing s.tx 0 queue) (k : Nat)
    (room : queue.length + k < sduControlBufferSize) :
    ∃ s', run inputStep s (List.replicate k byteRequest) = some s' ∧
      s'.tx.nbSdu = s.tx.nbSdu + k := by
  induction k generalizing s queue with
  | zero => exact ⟨s, rfl, (add_zero _).symm⟩
  | succ k ih =>
    have accepts : s.tx.Accepts := ring.accepts_iff.mpr (by omega)
    have next := dataReq_ring ring accepts (fun _ => 0) 1 0
    have counted : (dataReq s.tx (fun _ => 0) 1 0).nbSdu = s.tx.nbSdu + 1 := by
      rw [show dataReq s.tx (fun _ => 0) 1 0 = _ from if_pos accepts]
      rfl
    obtain ⟨last, ran, total⟩ := ih (s := ⟨dataReq s.tx (fun _ => 0) 1 0, _⟩) next
      (by rw [List.length_append, List.length_singleton]; omega)
    refine ⟨last, ?_, ?_⟩
    · rw [List.replicate_succ, run]
      exact ran
    · rw [total, counted, Nat.cast_add, Nat.cast_one]
      omega

/-- Two SDUs are sent and never confirmed; then the ring takes 1023 more. -/
def overfill : List InputOp :=
  [byteRequest, byteGrant, byteRequest, byteGrant] ++ List.replicate 1023 byteRequest

end Overfull

end OpenAir.Rlc.Am
