import OpenAir.Rlc.Am.Queue

/-! The first pass of the segmentation: it links the SDUs with the new PDU and reserves
the header, and the two passes agree exactly when it takes nothing off the room. -/
namespace OpenAir.Rlc.Am
open BitField

/-- The first pass changes nothing but the lists of PDUs of the SDUs, which grow. -/
structure Linked (before after : Tx) : Prop where
  current : after.currentSduIndex = before.currentSduIndex
  count : after.nbSduNoSegmented = before.nbSduNoSegmented
  occupancy : after.sduBufferOccupancy = before.sduBufferOccupancy
  sdus : ∀ i, ∃ more, after.inputSdus i =
    { before.inputSdus i with pdusIndex := (before.inputSdus i).pdusIndex ++ more }

theorem Linked.refl (tx : Tx) : Linked tx tx := ⟨rfl, rfl, rfl, fun i => ⟨[], by simp⟩⟩

theorem Linked.trans {a b c : Tx} (left : Linked a b) (right : Linked b c) : Linked a c := by
  refine ⟨right.current.trans left.current, right.count.trans left.count,
    right.occupancy.trans left.occupancy, ?_⟩
  intro i
  obtain ⟨first, second⟩ := left.sdus i
  obtain ⟨third, fourth⟩ := right.sdus i
  exact ⟨first ++ third, by rw [fourth, second]; simp⟩

theorem Linked.place {a b : Tx} (linked : Linked a b) (j : Nat) : b.place j = a.place j := by
  rw [Tx.place, Tx.place, linked.current]

theorem fit_frame (s : FirstPass) (remaining : Nat) :
    (s.fit remaining).tx = s.tx ∧ (s.fit remaining).pdu = s.pdu ∧
    (s.fit remaining).sduBufferIndex = s.sduBufferIndex := by
  unfold FirstPass.fit
  simp only
  repeat' split
  all_goals exact ⟨rfl, rfl, rfl⟩

theorem link_linked (s : FirstPass) : Linked s.tx s.link.tx := by
  refine ⟨rfl, rfl, rfl, fun i => ?_⟩
  by_cases here : i = s.sduBufferIndex
  · subst here
    exact ⟨[s.tx.vtS % pduRetransmissionBufferSize], by simp [FirstPass.link, Tx.setSdu]⟩
  · exact ⟨[], by simp [FirstPass.link, Tx.setSdu, here]⟩

theorem firstPass_linked {tx : Tx} (rounds : Nat) (s : FirstPass) (start : Linked tx s.tx) :
    Linked tx (firstPass rounds s).tx := by
  induction rounds generalizing s with
  | zero => exact start
  | succ rounds ih =>
    have linked := link_linked (s.fit (s.tx.inputSdus s.sduBufferIndex).sduRemainingSize)
    rw [(fit_frame _ _).1] at linked
    rw [firstPass]
    simp only
    split
    · split
      · exact start.trans linked
      · exact ih _ (start.trans linked)
    · exact start

theorem firstPass_stopped {rounds : Nat} {s : FirstPass} (stopped : s.continueFill = false) :
    firstPass rounds s = s := by
  cases rounds with
  | zero => rfl
  | succ rounds =>
    rw [firstPass]
    simp [stopped]

/-- The PDU can be cut from the queue so that nothing of the room is left over and
every SDU has a place for one more PDU in its list. -/
def Clean : Nat → Nat → List TxSdu → Prop
  | _, _, [] => False
  | room, k, sdu :: rest =>
    room ≤ sdu.sduRemainingSize ∧ sdu.pdusIndex.length < maxSduFragments ∨
    sdu.sduRemainingSize + liBytes k < room ∧ k < maxSduInPdu - 1 ∧
      sdu.pdusIndex.length + 1 < maxSduFragments ∧
      Clean (room - (sdu.sduRemainingSize + liBytes k)) (k + 1) rest

instance Clean.decidable : (room k : Nat) → (queue : List TxSdu) → Decidable (Clean room k queue)
  | _, _, [] => inferInstanceAs (Decidable False)
  | room, k, sdu :: rest =>
    have := Clean.decidable (room - (sdu.sduRemainingSize + liBytes k)) (k + 1) rest
    inferInstanceAs (Decidable (_ ∨ _))

theorem Clean.exact {room k : Nat} {queue : List TxSdu} (clean : Clean room k queue) :
    Exact room k (queue.map TxSdu.sduRemainingSize) := by
  induction queue generalizing room k with
  | nil => exact clean.elim
  | cons sdu rest ih =>
    rcases clean with ⟨last, -⟩ | ⟨more, few, -, tail⟩
    · exact Or.inl last
    · exact Or.inr ⟨more, few, ih tail⟩

/-- The variables of the first pass at the `k`-th SDU, with `room` bytes left. -/
structure OnPass (s : FirstPass) (room k : Nat) : Prop where
  index : s.sduBufferIndex = s.tx.place k
  left : s.testPduRemainingSize = room
  within : room ≤ s.pduRemainingSize
  numLi : s.testNumLi = k
  length : s.testLiLengthInBytes = 1 + k % 2
  stored : s.pdu.sdusIndex.length = k
  running : s.continueFill = true

section OneSdu

variable {s : FirstPass} {room k size : Nat}

theorem OnPass.nbSdus (onPass : OnPass s room k) (below : k < maxSduInPdu) :
    s.pdu.nbSdus = (k : Int) := by
  have below : k < 128 := below
  have small : Int.bmod (k : Int) 256 = k := Int.bmod_eq_of_le (by omega) (by omega)
  unfold TxPdu.nbSdus
  rw [onPass.stored, small]

theorem fit_last (onPass : OnPass s room k) (fits : room ≤ size) : s.fit size = s.stop 0 := by
  unfold FirstPass.fit
  simp only [onPass.left]
  by_cases whole : size = room
  · simp [whole]
  · simp [show size > room by omega]

theorem fit_more (onPass : OnPass s room k) (more : size + liBytes k < room)
    (few : k < maxSduInPdu - 1) :
    s.fit size = { s with
      testNumLi := k + 1
      testPduRemainingSize := room - (size + liBytes k)
      testRemainingSizeToSubstract := liBytes k
      testRemainingNumLiToSubstract := 1
      testLiLengthInBytes := liBytes k } := by
  have beyond : ¬ size > room := by omega
  have whole : ¬ size = room := by omega
  have tight : ¬ size + liBytes k = room := by omega
  have count := onPass.nbSdus (Nat.lt_of_lt_of_le few (Nat.sub_le _ _))
  have notFull : ¬ s.pdu.nbSdus ≥ (maxSduInPdu : Int) - 1 := by
    rw [count]
    simp only [maxSduInPdu] at few ⊢
    omega
  unfold FirstPass.fit
  simp only [onPass.left, onPass.length, toggle_li, onPass.numLi, beyond, whole, tight, more,
    notFull, if_false, if_true]

theorem fit_short (onPass : OnPass s room k) (ends : size < room) (below : k < maxSduInPdu)
    (short : ¬ (size + liBytes k < room ∧ k < maxSduInPdu - 1)) :
    ∃ reduce, 0 < reduce ∧ s.fit size = s.stop reduce := by
  have beyond : ¬ size > room := by omega
  have whole : ¬ size = room := by omega
  unfold FirstPass.fit
  simp only [onPass.left, onPass.length, toggle_li, beyond, whole, if_false]
  split
  · exact ⟨liBytes k, liBytes_pos k, rfl⟩
  · split
    · rename_i more
      have last : k = maxSduInPdu - 1 := by omega
      have count := onPass.nbSdus below
      rw [if_pos (by rw [count, last]; simp [maxSduInPdu])]
      exact ⟨1, Nat.one_pos, rfl⟩
    · exact ⟨1, Nat.one_pos, rfl⟩

end OneSdu

/-- The SDUs of `queue` are linked next. -/
structure Ahead (s : FirstPass) (k : Nat) (queue : List TxSdu) : Prop where
  short : k + queue.length < sduControlBufferSize
  sdus : ∀ j (inside : j < queue.length), s.tx.inputSdus (s.tx.place (k + j)) = queue[j]
  blocks : ∀ sdu ∈ queue, sdu.memBlock.isSome

theorem firstPass_round {s fitted : FirstPass} {rounds room k : Nat} {sdu : TxSdu}
    {rest : List TxSdu}
    (onPass : OnPass s room k) (ahead : Ahead s k (sdu :: rest))
    (fit : s.fit sdu.sduRemainingSize = fitted) :
    firstPass (rounds + 1) s =
      if (sdu.pdusIndex.length + 1) % 256 ≥ maxSduFragments then fitted.link
      else firstPass rounds { fitted.link with sduBufferIndex := s.tx.place (k + 1) } := by
  have head : s.tx.inputSdus s.sduBufferIndex = sdu := by
    rw [onPass.index]
    exact ahead.sdus 0 (Nat.succ_pos _)
  have block := ahead.blocks sdu List.mem_cons_self
  obtain ⟨tx, -, index⟩ := fit_frame s sdu.sduRemainingSize
  rw [fit] at tx index
  have place : (s.sduBufferIndex + 1) % sduControlBufferSize = s.tx.place (k + 1) := by
    rw [onPass.index, Tx.place, Tx.place, Nat.mod_add_mod, Nat.add_assoc]
  rw [firstPass]
  simp only [head, block, onPass.running, and_self, if_true, fit]
  simp [FirstPass.link, tx, index, head, TxSdu.nbPdus, Tx.setSdu, place]

theorem link_fragments {s fitted : FirstPass} {i : Nat} (tx : fitted.tx = s.tx)
    (index : fitted.sduBufferIndex = s.sduBufferIndex) :
    (fitted.link.tx.inputSdus i).pdusIndex.length =
      (s.tx.inputSdus i).pdusIndex.length + if i = s.sduBufferIndex then 1 else 0 := by
  by_cases here : i = s.sduBufferIndex
  · simp [FirstPass.link, Tx.setSdu, tx, index, here]
  · simp [FirstPass.link, Tx.setSdu, tx, index, here]

theorem OnPass.next {s : FirstPass} {room k size : Nat} {sdu : TxSdu} {rest : List TxSdu}
    (onPass : OnPass s room k)
    (ahead : Ahead s k (sdu :: rest)) (more : size + liBytes k < room) (few : k < maxSduInPdu - 1)
    {next : FirstPass}
    (step : next = { (s.fit size).link with sduBufferIndex := s.tx.place (k + 1) }) :
    OnPass next (room - (size + liBytes k)) (k + 1) ∧ Ahead next (k + 1) rest := by
  have fitted := fit_more onPass more few
  have linked : Linked s.tx next.tx := by
    have link := link_linked (s.fit size)
    rw [(fit_frame s size).1] at link
    rw [step]
    exact link
  have index : (s.fit size).sduBufferIndex = s.tx.place k := by
    rw [(fit_frame s size).2.2, onPass.index]
  refine ⟨⟨?_, ?_, ?_, ?_, ?_, ?_, ?_⟩, ⟨?_, ?_, ?_⟩⟩
  · rw [linked.place, step]
  · rw [step, fitted]
    rfl
  · rw [step, fitted]
    have := onPass.within
    show room - (size + liBytes k) ≤ s.pduRemainingSize
    omega
  · rw [step, fitted]
    rfl
  · rw [step, fitted]
    exact liBytes_next k
  · rw [step]
    show ((s.fit size).pdu.sdusIndex ++ [_]).length = k + 1
    rw [List.length_append, (fit_frame s size).2.1, onPass.stored, List.length_singleton]
  · rw [step, fitted]
    exact onPass.running
  · have := ahead.short
    simp only [List.length_cons] at this
    omega
  · intro j inside
    have short := ahead.short
    simp only [List.length_cons] at short
    have apart : s.tx.place (k + 1 + j) ≠ s.tx.place k := by
      intro same
      have := place_inj (by omega) (by omega) same
      omega
    have kept : next.tx.inputSdus (s.tx.place (k + 1 + j)) =
        s.tx.inputSdus (s.tx.place (k + 1 + j)) := by
      rw [step]
      simp only [FirstPass.link, Tx.setSdu, index, Function.update_of_ne apart,
        (fit_frame s size).1]
    rw [linked.place, kept, Nat.add_right_comm]
    exact ahead.sdus (j + 1) (Nat.succ_lt_succ inside)
  · exact fun sdu member => ahead.blocks sdu (List.mem_cons_of_mem _ member)

/-- When the PDU can be cut cleanly the first pass reserves just the indicators that
the second will write, leaves it the whole room, and stores inside the arrays. -/
theorem firstPass_clean {rounds room k : Nat} {queue : List TxSdu} {s : FirstPass}
    (onPass : OnPass s room k)
    (ahead : Ahead s k queue) (enough : rounds + k = maxSduInPdu) (below : k < maxSduInPdu)
    (clean : Clean room k queue) :
    (firstPass rounds s).result =
      (k + ((cut room k (queue.map TxSdu.sduRemainingSize)).length - 1), s.pduRemainingSize) ∧
    ∀ i, ((firstPass rounds s).tx.inputSdus i).pdusIndex.length ≤
      max maxSduFragments (s.tx.inputSdus i).pdusIndex.length := by
  induction queue generalizing s room k rounds with
  | nil => exact clean.elim
  | cons sdu rest ih =>
    cases rounds with
    | zero => omega
    | succ rounds =>
      have head : s.tx.inputSdus s.sduBufferIndex = sdu := by
        rw [onPass.index]
        exact ahead.sdus 0 (Nat.succ_pos _)
      obtain ⟨tx, -, index⟩ := fit_frame s sdu.sduRemainingSize
      have fragments (i : Nat) := @link_fragments s (s.fit sdu.sduRemainingSize) i tx index
      rcases clean with ⟨last, place⟩ | ⟨more, few, place, tail⟩
      · have fitted := fit_last onPass last
        have ended : firstPass (rounds + 1) s = (s.stop 0).link ∨
            firstPass (rounds + 1) s =
                { (s.stop 0).link with sduBufferIndex := s.tx.place (k + 1) } := by
          rw [firstPass_round onPass ahead fitted]
          split
          · exact Or.inl rfl
          · exact Or.inr (firstPass_stopped rfl)
        rw [fitted] at fragments
        have stored (i : Nat) : ((s.stop 0).link.tx.inputSdus i).pdusIndex.length ≤
            max maxSduFragments (s.tx.inputSdus i).pdusIndex.length := by
          rw [fragments i]
          split
          · rename_i here
            rw [here, head]
            omega
          · omega
        have pieces : cut room k ((sdu :: rest).map TxSdu.sduRemainingSize) = [room] := by
          rw [List.map_cons, cut, if_pos last]
        rw [pieces]
        rcases ended with ended | ended
        all_goals
          rw [ended]
          exact ⟨by simp [FirstPass.result, FirstPass.link, FirstPass.stop, onPass.numLi], stored⟩
      · have notFull : ¬ (sdu.pdusIndex.length + 1) % 256 ≥ maxSduFragments := by
          simp only [maxSduFragments] at place ⊢
          omega
        have round := @firstPass_round s _ rounds room k sdu rest onPass ahead rfl
        rw [if_neg notFull] at round
        rw [round]
        obtain ⟨next, aheadNext⟩ := onPass.next ahead more few rfl
        obtain ⟨result, stored⟩ := @ih rounds _ (k + 1) _ next aheadNext (by omega) (by omega) tail
        have pieces : cut room k ((sdu :: rest).map TxSdu.sduRemainingSize) =
          sdu.sduRemainingSize ::
            cut (room - (sdu.sduRemainingSize + liBytes k)) (k + 1)
                (rest.map TxSdu.sduRemainingSize) := by
          rw [List.map_cons, cut, if_neg (by omega), if_pos ⟨more, few⟩]
        have some : 0 < (cut (room - (sdu.sduRemainingSize + liBytes k)) (k + 1)
            (rest.map TxSdu.sduRemainingSize)).length := by
          refine List.length_pos_iff.mpr (cut_ne_nil ?_)
          cases rest with
          | nil => exact tail.elim
          | cons next rest => exact List.cons_ne_nil _ _
        refine ⟨?_, fun i => (stored i).trans ?_⟩
        · rw [result, pieces]
          simp only [FirstPass.link, fit_more onPass more few, List.length_cons,
            Prod.mk.injEq, and_true]
          omega
        · show max maxSduFragments
            ((s.fit sdu.sduRemainingSize).link.tx.inputSdus i).pdusIndex.length ≤ _
          rw [fragments i]
          split
          · rename_i here
            rw [here, head]
            omega
          · omega

/-- Otherwise it takes bytes off the room, or stores a PDU where an SDU has no place for it. -/
theorem firstPass_unclean {rounds room k : Nat} {queue : List TxSdu} {s : FirstPass}
    (onPass : OnPass s room k)
    (ahead : Ahead s k queue) (enough : rounds + k = maxSduInPdu) (below : k < maxSduInPdu)
    (roomPos : 0 < room)
    (needed : Needed room k (queue.map TxSdu.sduRemainingSize)) (unclean : ¬ Clean room k queue) :
    (firstPass rounds s).result.2 < s.pduRemainingSize ∨
    ∃ i, max maxSduFragments (s.tx.inputSdus i).pdusIndex.length <
      ((firstPass rounds s).tx.inputSdus i).pdusIndex.length := by
  have within := onPass.within
  induction queue generalizing s room k rounds with
  | nil => exact absurd rfl needed.1
  | cons sdu rest ih =>
    cases rounds with
    | zero => omega
    | succ rounds =>
      have head : s.tx.inputSdus s.sduBufferIndex = sdu := by
        rw [onPass.index]
        exact ahead.sdus 0 (Nat.succ_pos _)
      obtain ⟨tx, -, index⟩ := fit_frame s sdu.sduRemainingSize
      have fragments := @link_fragments s (s.fit sdu.sduRemainingSize) s.sduBufferIndex tx index
      rw [if_pos rfl, head] at fragments
      -- Whatever follows, the list of the SDU linked here only grows.
      have overflow (full : maxSduFragments ≤ sdu.pdusIndex.length) :
          ∃ i, max maxSduFragments (s.tx.inputSdus i).pdusIndex.length <
            ((firstPass (rounds + 1) s).tx.inputSdus i).pdusIndex.length := by
        refine ⟨s.sduBufferIndex, ?_⟩
        have grown : Linked (s.fit sdu.sduRemainingSize).link.tx (firstPass (rounds + 1) s).tx := by
          rw [firstPass_round onPass ahead rfl]
          split
          · exact Linked.refl _
          · exact firstPass_linked rounds _ (Linked.refl _)
        obtain ⟨more, after⟩ := grown.sdus s.sduBufferIndex
        rw [after, head]
        simp only [List.length_append, fragments]
        omega
      by_cases last : room ≤ sdu.sduRemainingSize
      · exact Or.inr (overflow (Nat.le_of_not_lt fun place => unclean (Or.inl ⟨last, place⟩)))
      · by_cases more : sdu.sduRemainingSize + liBytes k < room ∧ k < maxSduInPdu - 1
        · by_cases full : maxSduFragments ≤ sdu.pdusIndex.length
          · exact Or.inr (overflow full)
          · have round := @firstPass_round s _ rounds room k sdu rest onPass ahead rfl
            by_cases ended : (sdu.pdusIndex.length + 1) % 256 ≥ maxSduFragments
            · rw [if_pos ended] at round
              rw [round]
              left
              have := liBytes_pos k
              simp only [FirstPass.result, FirstPass.link, fit_more onPass more.1 more.2,
                gt_iff_lt, Nat.one_pos, if_true]
              omega
            · rw [if_neg ended] at round
              rw [round]
              obtain ⟨next, aheadNext⟩ := onPass.next ahead more.1 more.2 rfl
              have place : sdu.pdusIndex.length + 1 < maxSduFragments := by
                simp only [maxSduFragments] at full ended ⊢
                omega
              have later :=
                @ih rounds _ (k + 1) _ next aheadNext (by omega)
                (by simp only [maxSduInPdu] at more ⊢; omega)
                (by omega) (needed.tail more.1)
                (fun clean => unclean (Or.inr ⟨more.1, more.2, place, clean⟩)) next.within
              rcases later with reduced | ⟨i, stored⟩
              · left
                simpa only [FirstPass.link, fit_more onPass more.1 more.2] using reduced
              · right
                have grown := @link_fragments s (s.fit sdu.sduRemainingSize) i tx index
                refine ⟨i, Nat.lt_of_le_of_lt ?_ stored⟩
                show _ ≤ max maxSduFragments
                  ((s.fit sdu.sduRemainingSize).link.tx.inputSdus i).pdusIndex.length
                rw [grown]
                omega
        · obtain ⟨reduce, positive, fitted⟩ := fit_short onPass (by omega) below more
          left
          have ended : firstPass (rounds + 1) s = (s.stop reduce).link ∨
              firstPass (rounds + 1) s =
                  { (s.stop reduce).link with sduBufferIndex := s.tx.place (k + 1) } := by
            rw [firstPass_round onPass ahead fitted]
            split
            · exact Or.inl rfl
            · exact Or.inr (firstPass_stopped rfl)
          rcases ended with ended | ended
          all_goals
            rw [ended]
            simp only [FirstPass.result, FirstPass.link, FirstPass.stop, gt_iff_lt,
              Nat.lt_irrefl, if_false]
            omega

end OpenAir.Rlc.Am
