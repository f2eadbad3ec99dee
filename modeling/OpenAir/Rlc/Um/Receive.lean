import OpenAir.Rlc.Um.Window

/-! What a reception and an expiry of t-Reordering do to the state: VR(UH) may rise to the
received SN, and VR(UR) moves ahead over SNs that are reassembled in order. -/
namespace OpenAir.Rlc.Um
open BitField Serial

/-- VR(UR) moves ahead by `count`, and what it passes is reassembled. -/
def Rx.moved (rx : Rx) (config : Config) (count : Nat) : Rx :=
  { rx with
    toDar := rx.reassembleSpan config rx.vrUr count
    vrUr := (rx.vrUr + count) % config.modulo }

/-- The buffer has PDUs only from VR(UR) on and below VR(UH), with their fixed headers. -/
structure Queue (config : Config) (rx : Rx) : Prop extends Edges config rx where
  held : ∀ sn pdu, rx.darBuffer sn = some pdu →
    sn < config.modulo ∧ dist config.modulo rx.vrUr sn < dist config.modulo rx.vrUr rx.vrUh
  headed : rx.Headed config

section Moved

variable {config : Config} {rx : Rx} {count : Nat}

theorem moved_zero (ur : rx.vrUr < config.modulo) : rx.moved config 0 = rx := by
  unfold Rx.moved
  rw [Nat.add_zero, Nat.mod_eq_of_lt ur]
  rfl

theorem reassembleSpan_headed {dar : Dar} {sn : Nat} (headed : dar.Headed config) :
    (dar.reassembleSpan config sn count).Headed config := by
  induction count generalizing dar sn with
  | zero => exact headed
  | succ count ih => exact ih (headed.reassembleSn sn)

/-- Moving VR(UR) up to a window below VR(UH), which lies `reach` ahead. -/
theorem moved_queue {reach : Nat} (ur : rx.vrUr < config.modulo)
    (uh : rx.vrUh = (rx.vrUr + reach) % config.modulo)
    (turn : reach ≤ config.modulo) (short : count ≤ reach)
    (narrow : reach - count ≤ config.windowSize)
    (held : ∀ sn pdu, rx.darBuffer sn = some pdu → sn < config.modulo ∧
      dist config.modulo rx.vrUr sn < reach)
    (headed : rx.Headed config) :
    Queue config (rx.moved config count) ∧
      dist config.modulo (rx.moved config count).vrUr (rx.moved config count).vrUh =
      reach - count := by
  have double := config.modulo_eq
  have positive := config.windowSize_lt
  have ur' : (rx.vrUr + count) % config.modulo < config.modulo := Nat.mod_lt _ (by omega)
  have width : dist config.modulo ((rx.vrUr + count) % config.modulo) rx.vrUh = reach - count := by
    have place :
        rx.vrUh = ((rx.vrUr + count) % config.modulo + (reach - count)) % config.modulo := by
      rw [uh, Nat.mod_add_mod]
      congr 1
      omega
    rw [place]
    exact dist_add ur' (by omega)
  refine ⟨{ ur := ur', uh := ?_, width := ?_, held := ?_, headed := reassembleSpan_headed headed },
    width⟩
  · rw [show (rx.moved config count).vrUh = rx.vrUh by rfl, uh]
    exact Nat.mod_lt _ (by omega)
  · exact Nat.le_trans (Nat.le_of_eq width) narrow
  · intro sn pdu there
    have before : ¬ config.modulo ≤ sn := by
      intro beyond
      have same : (rx.reassembleSpan config rx.vrUr count).darBuffer sn = rx.darBuffer sn :=
        reassembleSpan_outside headed beyond ur
      have kept : (rx.reassembleSpan config rx.vrUr count).darBuffer sn = some pdu := there
      exact Nat.not_lt.mpr beyond (held sn pdu (same.symm.trans kept)).1
    have valid : sn < config.modulo := Nat.not_le.mp before
    have kept : (rx.reassembleSpan config rx.vrUr count).darBuffer sn = some pdu := there
    rw [reassembleSpan_buffer headed ur (by omega) valid] at kept
    by_cases passed : dist config.modulo rx.vrUr sn < count
    · rw [if_pos passed] at kept
      cases kept
    · rw [if_neg passed] at kept
      have below := (held sn pdu kept).2
      have base : dist config.modulo rx.vrUr ((rx.vrUr + count) % config.modulo) = count :=
        dist_add ur (by omega)
      have far := dist_rebase ur ur' valid (by omega)
      have less : dist config.modulo ((rx.vrUr + count) % config.modulo) sn <
          dist config.modulo ((rx.vrUr + count) % config.modulo) rx.vrUh := by
        rw [width, far, base]
        omega
      exact ⟨valid, less⟩

/-- What VR(UR) passes is gone, the rest of the buffer is as before. -/
theorem moved_buffer (ur : rx.vrUr < config.modulo) (headed : rx.Headed config)
    (turn : count ≤ config.modulo) {sn : Nat}
    (valid : sn < config.modulo) : (rx.moved config count).darBuffer sn =
      if dist config.modulo rx.vrUr sn < count then none else rx.darBuffer sn :=
  reassembleSpan_buffer headed ur turn valid

end Moved

section Search

variable {config : Config} {rx : Rx}

/-- The search for a missing SN ends at a free one ahead, having passed only PDUs. -/
theorem firstMissing_spec {sn far rounds : Nat} (valid : sn < config.modulo) (enough : far < rounds)
    (free : rx.darBuffer ((sn + far) % config.modulo) = none) :
    ∃ k ≤ far, rx.firstMissing config rounds sn = some ((sn + k) % config.modulo) ∧
      rx.darBuffer ((sn + k) % config.modulo) = none ∧
      ∀ j < k, (rx.darBuffer ((sn + j) % config.modulo)).isSome := by
  induction far generalizing sn rounds with
  | zero =>
    have home : (sn + 0) % config.modulo = sn := Nat.mod_eq_of_lt valid
    cases rounds with
    | zero => exact absurd enough (Nat.not_lt_zero 0)
    | succ rounds =>
      refine ⟨0, Nat.le_refl 0, ?_, free, fun j none => absurd none (Nat.not_lt_zero j)⟩
      rw [home] at free
      rw [Rx.firstMissing, free, home]
      rfl
  | succ far ih =>
    have home : (sn + 0) % config.modulo = sn := Nat.mod_eq_of_lt valid
    cases rounds with
    | zero => exact absurd enough (Nat.not_lt_zero _)
    | succ rounds =>
      by_cases here : (rx.darBuffer sn).isSome
      · have next := Nat.mod_lt (sn + 1) (Nat.lt_of_le_of_lt (Nat.zero_le sn) valid)
        have shift (k : Nat) : ((sn + 1) % config.modulo + k) % config.modulo =
            (sn + (k + 1)) % config.modulo := by
          rw [Nat.mod_add_mod]
          congr 1
          omega
        obtain ⟨k, le, found, empty, passed⟩ :=
          ih next (Nat.lt_of_succ_lt_succ enough) (by rw [shift]; exact free)
        refine ⟨k + 1, Nat.succ_le_succ le, ?_, ?_, ?_⟩
        · rw [Rx.firstMissing, if_pos here, found, shift]
        · rw [← shift]
          exact empty
        · intro j below
          cases j with
          | zero =>
            rw [home]
            exact here
          | succ j =>
            rw [← shift]
            exact passed j (Nat.lt_of_succ_lt_succ below)
      · have empty : rx.darBuffer sn = none := Option.not_isSome_iff_eq_none.mp here
        refine ⟨0, Nat.zero_le _, ?_, ?_, fun j none => absurd none (Nat.not_lt_zero j)⟩
        · rw [Rx.firstMissing, if_neg here, home]
        · rw [home]
          exact empty

/-- The slot of VR(UH) is free, so that the search of a reception need not look at VR(UH). -/
theorem nextMissing_eq (free : rx.darBuffer rx.vrUh = none) (rounds sn : Nat) :
    rx.nextMissing config rounds sn = rx.firstMissing config rounds ((sn + 1) % config.modulo) := by
  induction rounds generalizing sn with
  | zero => rfl
  | succ rounds ih =>
    rw [Rx.nextMissing, Rx.firstMissing]
    by_cases here : (rx.darBuffer ((sn + 1) % config.modulo)).isSome
    · have below : (sn + 1) % config.modulo ≠ rx.vrUh := by
        intro highest
        rw [highest, free] at here
        cases here
      rw [if_pos here, if_pos ⟨here, below⟩]
      exact ih _
    · rw [if_neg here, if_neg (fun both => here both.1)]

end Search

section Advance

variable {config : Config} {rx : Rx}

theorem Queue.free_vrUh (queue : Queue config rx) : rx.darBuffer rx.vrUh = none := by
  cases there : rx.darBuffer rx.vrUh with
  | none => rfl
  | some pdu => exact absurd (queue.held _ pdu there).2 (Nat.lt_irrefl _)

/-- VR(UR) moves ahead to SN `count` further, and what it passes is reassembled. -/
theorem tryReassembly_moved (edges : Edges config rx) {count : Nat}
    (short : count ≤ dist config.modulo rx.vrUr rx.vrUh) :
    Rx.tryReassembly { rx with vrUr := (rx.vrUr + count) % config.modulo } config rx.vrUr
      ((rx.vrUr + count) % config.modulo) = some (rx.moved config count) := by
  have double := config.modulo_eq
  have positive := config.windowSize_lt
  have width := edges.width
  have far : dist config.modulo rx.vrUr ((rx.vrUr + count) % config.modulo) = count :=
    dist_add edges.ur (by omega)
  refine (tryReassembly_span edges.ur (Nat.mod_lt _ (by omega))
    (by right; exact far.trans_le short)).trans ?_
  rw [far]
  rfl

/-- The PDU that VR(UR) waits for has come: VR(UR) moves to the next SN that is missing. -/
theorem advance_waited (queue : Queue config rx) (waited : (rx.darBuffer rx.vrUr).isSome) :
    ∃ count, 0 < count ∧ count ≤ dist config.modulo rx.vrUr rx.vrUh ∧
      rx.advance config rx.vrUr = some (rx.moved config count) ∧
      rx.darBuffer ((rx.vrUr + count) % config.modulo) = none ∧
      ∀ j < count, (rx.darBuffer ((rx.vrUr + j) % config.modulo)).isSome := by
  have double := config.modulo_eq
  have positive := config.windowSize_lt
  have width := queue.width
  obtain ⟨pdu, there⟩ := Option.isSome_iff_exists.mp waited
  have wide := (queue.held _ pdu there).2
  rw [dist_self] at wide
  have next : (rx.vrUr + 1) % config.modulo < config.modulo := Nat.mod_lt _ (by omega)
  have shift (k : Nat) : ((rx.vrUr + 1) % config.modulo + k) % config.modulo =
      (rx.vrUr + (k + 1)) % config.modulo := by
    rw [Nat.mod_add_mod]
    congr 1
    omega
  have free : rx.darBuffer
    (((rx.vrUr + 1) % config.modulo + (dist config.modulo rx.vrUr rx.vrUh - 1)) % config.modulo) =
      none := by
    rw [shift, Nat.sub_add_cancel wide, add_dist queue.ur queue.uh]
    exact queue.free_vrUh
  obtain ⟨k, le, found, empty, passed⟩ :=
    firstMissing_spec next (show _ < config.modulo by omega) free
  rw [shift] at found empty
  refine ⟨k + 1, Nat.succ_pos k, by omega, ?_, empty, ?_⟩
  · unfold Rx.advance
    rw [if_pos ⟨rfl, waited⟩, nextMissing_eq queue.free_vrUh, found, Option.bind_some]
    exact tryReassembly_moved queue.toEdges (by omega)
  · intro j below
    cases j with
    | zero =>
      rw [Nat.add_zero, Nat.mod_eq_of_lt queue.ur]
      exact waited
    | succ j =>
      rw [← shift]
      exact passed j (Nat.lt_of_succ_lt_succ below)

/-- A PDU that VR(UR) does not wait for leaves it where it is. -/
theorem advance_other {sn : Nat} (other : sn ≠ rx.vrUr) : rx.advance config sn = some rx :=
  if_neg fun both => other both.1

end Advance

section Slide

variable {config : Config} {rx : Rx} {sn : Nat}

/-- An SN that is not ahead of the window leaves it where it is. -/
theorem slide_inside (edges : Edges config rx) (valid : sn < config.modulo)
    (inside : dist config.modulo rx.vrUr sn < dist config.modulo rx.vrUr rx.vrUh) :
    rx.slide config sn = some rx := by
  unfold Rx.slide
  rw [if_neg]
  rw [outside_iff edges valid]
  omega

/-- An SN ahead of the window raises VR(UH) behind it, and VR(UR) moves up to a window below. -/
theorem slide_ahead (edges : Edges config rx) (valid : sn < config.modulo)
    (ahead : dist config.modulo rx.vrUr rx.vrUh ≤ dist config.modulo rx.vrUr sn)
    (near : dist config.modulo rx.vrUr sn < dist config.modulo rx.vrUr rx.vrUh +
      config.windowSize) :
    rx.slide config sn = some (Rx.moved { rx with vrUh := (sn + 1) % config.modulo } config
      (dist config.modulo rx.vrUr sn + 1 - config.windowSize)) := by
  have double := config.modulo_eq
  have positive := config.windowSize_lt
  have width := edges.width
  have ur := edges.ur
  have uh' : (sn + 1) % config.modulo < config.modulo := Nat.mod_lt _ (by omega)
  have raised : ∀ r : Rx, r.vrUh = (sn + 1) % config.modulo →
    (r.inReorderingWindow config rx.vrUr ≠ 0 ↔
      config.windowSize < dist config.modulo rx.vrUr sn + 1) := by
    intro r highest
    have back : dist config.modulo ((sn + 1) % config.modulo) rx.vrUr =
        config.modulo - (dist config.modulo rx.vrUr sn + 1) := by
      rw [dist_eq uh' ur, dist_eq ur valid, succ_mod valid]
      split <;> split <;> split <;> omega
    rw [inReorderingWindow_ne, inReorderingWindow_iff (highest ▸ uh') ur, highest, back]
    omega
  unfold Rx.slide
  rw [if_pos ((outside_iff edges valid).mpr ⟨ahead, near⟩)]
  by_cases out : config.windowSize < dist config.modulo rx.vrUr sn + 1
  · have edge : Rx.lowerEdge { rx with vrUh := (sn + 1) % config.modulo } config =
        (rx.vrUr + (dist config.modulo rx.vrUr sn + 1 - config.windowSize)) % config.modulo := by
      rw [add_mod_turn ur (by omega)]
      simp only [Rx.lowerEdge, Rx.modulus, succ_mod valid]
      rw [dist_eq ur valid] at out ahead near ⊢
      split at out <;> split <;> split <;> split <;> omega
    have far := dist_add ur
      (show dist config.modulo rx.vrUr sn + 1 - config.windowSize < config.modulo by omega)
    have apart : dist config.modulo rx.vrUr ((sn + 1) % config.modulo) = 0 ∨
        dist config.modulo rx.vrUr sn + 1 - config.windowSize ≤
            dist config.modulo rx.vrUr ((sn + 1) % config.modulo) := by
      by_cases whole : dist config.modulo rx.vrUr sn + 1 < config.modulo
      · rw [dist_succ ur valid whole]
        omega
      · left
        rw [dist_eq ur uh', succ_mod valid]
        rw [dist_eq ur valid] at whole
        split at whole <;> split <;> split <;> omega
    rw [if_pos ((raised _ rfl).mpr out), edge,
      tryReassembly_span ur (Nat.mod_lt _ (by omega)) (by rw [far]; exact apart), far]
    rfl
  · have stays : dist config.modulo rx.vrUr sn + 1 - config.windowSize = 0 := by omega
    rw [if_neg (fun leaves => out ((raised _ rfl).mp leaves)), stays, moved_zero (by exact ur)]

end Slide

/-- Only t-Reordering and VR(UX) differ, and VR(UX) is in place when the timer runs: ahead of
VR(UR), or with the three variables equal when the timer can be stuck. -/
structure Settled (config : Config) (stuck : Prop) (rx rx' : Rx) : Prop where
  dar : rx'.toDar = rx.toDar
  vrUr : rx'.vrUr = rx.vrUr
  vrUh : rx'.vrUh = rx.vrUh
  duration : rx'.tReordering.msDuration = rx.tReordering.msDuration
  ux : rx'.vrUx < config.modulo
  runs : rx'.tReordering.running = true →
    dist config.modulo rx.vrUr rx'.vrUx ≤ dist config.modulo rx.vrUr rx.vrUh ∧
      (0 < dist config.modulo rx.vrUr rx'.vrUx ∨ rx.vrUr = rx.vrUh ∧ stuck)
  started : rx.vrUr ≠ rx.vrUh → rx.tReordering.msDuration ≠ 0 → rx'.tReordering.running = true

/-- A timer that a reception does not stop although VR(UR) has reached VR(UX). -/
def Rx.Stuck (rx : Rx) : Prop := rx.tReordering.running = true ∧ rx.vrUx = rx.vrUh

section Timer

variable {config : Config} {rx : Rx}

theorem start_duration (timer : Timer) (now : Nat) : (timer.start now).msDuration =
    timer.msDuration := by
  unfold Timer.start
  split <;> rfl

theorem start_running {timer : Timer} (now : Nat) (lasts : timer.msDuration ≠ 0) :
    (timer.start now).running = true := by
  unfold Timer.start
  rw [if_pos (Nat.pos_of_ne_zero lasts)]

theorem stopTimer_cases (edges : Edges config rx) (ux : rx.vrUx < config.modulo) :
    rx.stopTimer config = { rx with tReordering := rx.tReordering.stop } ∨
    rx.stopTimer config = rx ∧ (rx.tReordering.running = true →
      dist config.modulo rx.vrUr rx.vrUx ≤ dist config.modulo rx.vrUr rx.vrUh ∧
        (0 < dist config.modulo rx.vrUr rx.vrUx ∨ rx.vrUx = rx.vrUh)) := by
  unfold Rx.stopTimer
  by_cases out : rx.tReordering.running = true ∧ rx.vrUh ≠ rx.vrUx ∧
    rx.inReorderingWindow config rx.vrUx < 0
  · rw [if_pos out]
    left
    exact if_neg fun both => Bool.false_ne_true both.1
  · rw [if_neg out]
    by_cases reached : rx.tReordering.running = true ∧
        (rx.inWindow config rx.vrUr rx.vrUx rx.vrUh = -2 ∨
          rx.inWindow config rx.vrUr rx.vrUx rx.vrUh = 1)
    · left
      exact if_pos reached
    · right
      refine ⟨if_neg reached, fun running => ?_⟩
      have inside : ¬ rx.inReorderingWindow config rx.vrUx < 0 ∨ rx.vrUx = rx.vrUh := by
        by_cases highest : rx.vrUx = rx.vrUh
        · exact .inr highest
        · exact .inl fun leaves => out ⟨running, Ne.symm highest, leaves⟩
      have kept := fun test => reached ⟨running, test⟩
      rw [reached_iff edges ux inside] at kept
      exact not_not.mp kept

theorem startTimer_settled (edges : Edges config rx) (ux : rx.vrUx < config.modulo) (now : Nat) :
    Settled config rx.Stuck rx ((rx.stopTimer config).startTimer config now) := by
  have far : 0 < dist config.modulo rx.vrUr rx.vrUh ↔ rx.vrUr ≠ rx.vrUh := by
    rw [vrUr_ne_iff edges]
    exact Nat.pos_iff_ne_zero
  -- a timer that does not run is started exactly when the window is open
  have starts (timer : Timer) (stopped : timer.running = false)
      (duration : timer.msDuration = rx.tReordering.msDuration) :
      Settled config rx.Stuck rx (Rx.startTimer { rx with tReordering := timer } config now) := by
    have edges' : Edges config { rx with tReordering := timer } := ⟨edges.ur, edges.uh, edges.width⟩
    unfold Rx.startTimer
    by_cases opened : rx.vrUr ≠ rx.vrUh
    · rw [if_pos ⟨stopped, (inWindow_open edges').mpr opened⟩]
      refine ⟨rfl, rfl, rfl, (start_duration timer now).trans duration, edges.uh,
        fun _ => ?_, fun _ lasts => ?_⟩
      · exact ⟨Nat.le_refl _, .inl (far.mpr opened)⟩
      · exact start_running now (duration ▸ lasts)
    · rw [if_neg fun both => opened ((inWindow_open edges').mp both.2)]
      refine ⟨rfl, rfl, rfl, duration, ux, fun running => ?_, fun differ => absurd differ opened⟩
      exact absurd (stopped.symm.trans running) Bool.false_ne_true
  obtain stopped | ⟨kept, place⟩ := stopTimer_cases edges ux
  · rw [stopped]
    exact starts _ rfl rfl
  · rw [kept]
    cases running : rx.tReordering.running with
    | false => exact starts rx.tReordering running rfl
    | true =>
      unfold Rx.startTimer
      rw [if_neg fun both => by rw [running] at both; cases both.1]
      refine ⟨rfl, rfl, rfl, rfl, ux, fun _ => ⟨(place running).1, ?_⟩, fun _ _ => running⟩
      by_cases ahead : 0 < dist config.modulo rx.vrUr rx.vrUx
      · exact .inl ahead
      · have highest := (place running).2.resolve_left ahead
        rw [highest, far, not_not] at ahead
        exact .inr ⟨ahead, running, highest⟩

end Timer

theorem fixedSn_lt (length : SnLength) (mem : Memory) : fixedSn length mem < length.modulo := by
  cases length with
  | five =>
    have low : (mem 0).toNat &&& 0x1F = (mem 0).toNat % 2 ^ 5 := Nat.and_two_pow_sub_one_eq_mod _ 5
    simp only [fixedSn, SnLength.modulo, low]
    omega
  | ten =>
    have low : (mem 0).toNat &&& 0x03 = (mem 0).toNat % 2 ^ 2 := Nat.and_two_pow_sub_one_eq_mod _ 2
    have byte := UInt8.toNat_lt (mem 1)
    simp only [fixedSn, SnLength.modulo, low, Nat.shiftLeft_eq]
    omega

/-- The state with a PDU stored and VR(UH) where it belongs. -/
def Rx.stored (rx : Rx) (sn : Nat) (pdu : Pdu) (vrUh : Nat) : Rx :=
  { rx with darBuffer := Function.update rx.darBuffer sn (some pdu), vrUh }

section Reception

variable {config : Config} {rx : Rx}

theorem stored_self (sn : Nat) (pdu : Pdu) (vrUh : Nat) :
    (rx.stored sn pdu vrUh).darBuffer sn = some pdu :=
  Function.update_self _ _ _

theorem stored_other {sn other : Nat} (away : other ≠ sn) (pdu : Pdu) (vrUh : Nat) :
    (rx.stored sn pdu vrUh).darBuffer other = rx.darBuffer other :=
  Function.update_of_ne away _ _

theorem stored_headed {sn : Nat} {pdu : Pdu} (headed : rx.Headed config)
    (long : config.snLength.headerMin ≤ pdu.size)
    (vrUh : Nat) : (rx.stored sn pdu vrUh).Headed config := by
  intro other found there
  by_cases here : other = sn
  · rw [here, stored_self] at there
    cases there
    exact long
  · rw [stored_other here] at there
    exact headed other found there

theorem discards_iff (queue : Queue config rx) {sn : Nat} (valid : sn < config.modulo) :
    rx.discards config sn = true ↔
      dist config.modulo rx.vrUr rx.vrUh + config.windowSize ≤ dist config.modulo rx.vrUr sn ∨
        (rx.darBuffer sn).isSome ∧ 0 < dist config.modulo rx.vrUr sn := by
  unfold Rx.discards
  rw [decide_eq_true_eq, ← or_assoc, below_iff queue.toEdges valid]
  apply or_congr_right
  apply and_congr_right
  intro there
  obtain ⟨pdu, there⟩ := Option.isSome_iff_exists.mp there
  exact between_iff queue.toEdges valid (queue.held sn pdu there).2

/-- How far VR(UR) moves in a reception: behind an SN it does not wait for, only as far as
the window makes it; behind the one it waits for, to the next SN that is missing. -/
def Passes (config : Config) (rx : Rx) (far reach count : Nat) : Prop :=
  far ≠ 0 ∧ count = reach - config.windowSize ∨
  far = 0 ∧ 0 < count ∧ rx.darBuffer ((rx.vrUr + count) % config.modulo) = none ∧
    ∀ j < count, (rx.darBuffer ((rx.vrUr + j) % config.modulo)).isSome

/-- The window behind a PDU that is not discarded. -/
theorem slide_stored (queue : Queue config rx) (pdu : Pdu) {sn reach : Nat}
    (valid : sn < config.modulo)
    (near : dist config.modulo rx.vrUr sn < dist config.modulo rx.vrUr rx.vrUh + config.windowSize)
    (top : reach = max (dist config.modulo rx.vrUr rx.vrUh) (dist config.modulo rx.vrUr sn + 1)) :
    Rx.slide { rx with darBuffer := Function.update rx.darBuffer sn (some pdu) } config sn =
      some ((rx.stored sn pdu ((rx.vrUr + reach) % config.modulo)).moved config
          (reach - config.windowSize)) := by
  have width := queue.width
  have edges : Edges config { rx with darBuffer := Function.update rx.darBuffer sn (some pdu) } :=
    ⟨queue.ur, queue.uh, queue.width⟩
  by_cases inside : dist config.modulo rx.vrUr sn < dist config.modulo rx.vrUr rx.vrUh
  · have same : reach = dist config.modulo rx.vrUr rx.vrUh := by omega
    have stays : reach - config.windowSize = 0 := by omega
    rw [slide_inside edges valid inside, stays, moved_zero (by exact queue.ur), same,
      add_dist queue.ur queue.uh]
    rfl
  · have next : (sn + 1) % config.modulo = (rx.vrUr + reach) % config.modulo := by
      have raised : reach = dist config.modulo rx.vrUr sn + 1 := by omega
      rw [raised, ← Nat.add_assoc, ← Nat.mod_add_mod (rx.vrUr + _), add_dist queue.ur valid]
    have raised : dist config.modulo rx.vrUr sn + 1 = reach := by omega
    rw [slide_ahead edges valid (Nat.not_lt.mp inside) near, next, raised]
    rfl

/-- A PDU that is not discarded: it is stored, VR(UH) rises behind it, and VR(UR) moves. -/
theorem receive_stored (queue : Queue config rx) (ux : rx.vrUx < config.modulo)
    {pdu : Pdu} {sn : Nat}
    (number : fixedSn config.snLength pdu.mem = sn) (headed : config.snLength.headerMin ≤ pdu.size)
    (taken : rx.discards config sn = false) (now : Nat) :
    ∃ reach count stored after,
      reach = max (dist config.modulo rx.vrUr rx.vrUh) (dist config.modulo rx.vrUr sn + 1) ∧
      count ≤ reach ∧ stored = rx.stored sn pdu ((rx.vrUr + reach) % config.modulo) ∧
      rx.receiveProcessDar config pdu now = some after ∧
      Queue config (stored.moved config count) ∧
      dist config.modulo (stored.moved config count).vrUr stored.vrUh = reach - count ∧
      Settled config (stored.moved config count).Stuck (stored.moved config count) after ∧
      Passes config stored (dist config.modulo rx.vrUr sn) reach count := by
  have double := config.modulo_eq
  have positive := config.windowSize_lt
  have width := queue.width
  have valid : sn < config.modulo := number ▸ fixedSn_lt config.snLength pdu.mem
  have short := dist_lt queue.ur (x := sn)
  have fresh : ¬ rx.discards config sn = true := by rw [taken]; exact Bool.false_ne_true
  rw [discards_iff queue valid, not_or] at fresh
  obtain ⟨reach, top⟩ : ∃ reach, reach =
      max (dist config.modulo rx.vrUr rx.vrUh) (dist config.modulo rx.vrUr sn + 1) := ⟨_, rfl⟩
  have turn : reach ≤ config.modulo := by omega
  have slid := slide_stored queue pdu valid (Nat.not_le.mp fresh.1) top
  have held : ∀ other stored, (rx.stored sn pdu ((rx.vrUr + reach) % config.modulo)).darBuffer
    other = some stored →
      other < config.modulo ∧ dist config.modulo rx.vrUr other < reach := by
    intro other stored there
    by_cases here : other = sn
    · subst here
      exact ⟨valid, by omega⟩
    · rw [stored_other here] at there
      have before := queue.held other stored there
      exact ⟨before.1, by omega⟩
  -- whatever VR(UR) passes, the window stays in order and the timer is settled behind it
  have ordered {count : Nat} (le : count ≤ reach) (narrow : reach - count ≤ config.windowSize) :=
    moved_queue (by exact queue.ur) (by rfl) turn le narrow held
      (stored_headed queue.headed headed _)
  have settles {count : Nat} (le : count ≤ reach) (narrow : reach - count ≤ config.windowSize) :=
    startTimer_settled (ordered le narrow).1.toEdges ux now
  unfold Rx.receiveProcessDar
  simp only [number, taken, Bool.false_eq_true, if_false, slid, Option.bind_some]
  by_cases waited : dist config.modulo rx.vrUr sn = 0
  · have home : sn = rx.vrUr := dist_inj queue.ur valid queue.ur (waited.trans (dist_self _ _).symm)
    have stays : reach - config.windowSize = 0 := by omega
    have queue' := (ordered (Nat.zero_le reach) (by omega)).1
    rw [moved_zero (by exact queue.ur)] at queue'
    obtain ⟨count, some, le, advanced, free, passed⟩ := advance_waited queue' (by
      show ((rx.stored sn pdu _).darBuffer rx.vrUr).isSome = true
      rw [← home, stored_self]
      rfl)
    have far : dist config.modulo rx.vrUr ((rx.vrUr + reach) % config.modulo) = reach :=
      dist_add queue.ur (by omega)
    have short : count ≤ reach := le.trans_eq far
    have waits :=
      (congrArg ((rx.stored sn pdu ((rx.vrUr + reach) % config.modulo)).advance config) home).trans
      advanced
    rw [stays, moved_zero (by exact queue.ur), waits]
    have stop := ordered short (by omega)
    exact ⟨reach, count, _, _, top, short, rfl, rfl, stop.1, stop.2, settles short (by omega),
      .inr ⟨waited, some, free, passed⟩⟩
  · have other : sn ≠ (rx.vrUr + (reach - config.windowSize)) % config.modulo := by
      intro same
      have far := dist_add queue.ur (show reach - config.windowSize < config.modulo by omega)
      rw [← same] at far
      omega
    rw [advance_other (by exact other)]
    have stop := ordered (Nat.sub_le reach config.windowSize) (by omega)
    exact ⟨reach, reach - config.windowSize, _, _, top, Nat.sub_le _ _, rfl, rfl, stop.1, stop.2,
      settles (Nat.sub_le _ _) (by omega), .inl ⟨waited, rfl⟩⟩

end Reception

section Expiry

variable {config : Config} {rx : Rx}

theorem restart_settled (edges : Edges config rx) (ux : rx.vrUx < config.modulo) (now : Nat) :
    Settled config False rx (if rx.inWindow config rx.vrUr rx.vrUh rx.vrUh = 2 then
      { rx with tReordering := rx.tReordering.start now, vrUx := rx.vrUh }
      else { rx with tReordering := rx.tReordering.stop }) := by
  rw [if_congr (inWindow_open edges) rfl rfl]
  split
  · rename_i opened
    have far : 0 < dist config.modulo rx.vrUr rx.vrUh :=
      Nat.pos_of_ne_zero ((vrUr_ne_iff edges).mp opened)
    exact ⟨rfl, rfl, rfl, start_duration _ now, edges.uh, fun _ => ⟨Nat.le_refl _, .inl far⟩,
      fun _ lasts => start_running now lasts⟩
  · rename_i closed
    exact ⟨rfl, rfl, rfl, rfl, ux, fun running => absurd running Bool.false_ne_true,
      fun opened => absurd opened closed⟩

/-- An expiry moves VR(UR) to the first SN from VR(UX) on that is missing. -/
theorem checkTimer_expired (queue : Queue config rx) (ux : rx.vrUx < config.modulo)
    (place : dist config.modulo rx.vrUr rx.vrUx ≤ dist config.modulo rx.vrUr rx.vrUh) {now : Nat}
    (expired : rx.tReordering.expired now = true) :
    ∃ count after, count ≤ dist config.modulo rx.vrUr rx.vrUh ∧
      rx.checkTimerDarTimeOut config now = some after ∧
      Queue config (rx.moved config count) ∧ Settled config False (rx.moved config count) after ∧
      rx.darBuffer ((rx.vrUr + count) % config.modulo) = none := by
  have double := config.modulo_eq
  have positive := config.windowSize_lt
  have width := queue.width
  have far : dist config.modulo rx.vrUx rx.vrUh =
      dist config.modulo rx.vrUr rx.vrUh - dist config.modulo rx.vrUr rx.vrUx :=
        dist_rebase queue.ur ux queue.uh place
  obtain ⟨k, le, found, free, -⟩ :=
    firstMissing_spec ux (show dist config.modulo rx.vrUx rx.vrUh < config.modulo by omega)
    (by rw [add_dist ux queue.uh]; exact queue.free_vrUh)
  have shift : (rx.vrUx + k) % config.modulo =
      (rx.vrUr + (dist config.modulo rx.vrUr rx.vrUx + k)) % config.modulo := by
    conv_lhs => rw [← add_dist queue.ur ux]
    rw [Nat.mod_add_mod, Nat.add_assoc]
  rw [shift] at found free
  have short : dist config.modulo rx.vrUr rx.vrUx + k ≤ dist config.modulo rx.vrUr rx.vrUh := by
    omega
  have moved := moved_queue queue.ur (add_dist queue.ur queue.uh).symm (by omega) short
    (by omega) queue.held queue.headed
  refine ⟨_, _, short, ?_, moved.1, restart_settled moved.1.toEdges ux now, free⟩
  unfold Rx.checkTimerDarTimeOut
  rw [if_pos expired, found, Option.bind_some, tryReassembly_moved queue.toEdges short]
  rfl

end Expiry

/-- A window that is in use and a timer that can expire in it. -/
structure Windowed (config : Config) (rx : Rx) : Prop extends Queue config rx where
  ux : rx.vrUx < config.modulo
  place : rx.tReordering.running = true →
    dist config.modulo rx.vrUr rx.vrUx ≤ dist config.modulo rx.vrUr rx.vrUh

section Step

variable {config : Config} {rx : Rx}

theorem Settled.queue {stuck : Prop} {after : Rx} (settled : Settled config stuck rx after)
    (queue : Queue config rx) :
    Queue config after where
  ur := settled.vrUr ▸ queue.ur
  uh := settled.vrUh ▸ queue.uh
  width := by rw [settled.vrUr, settled.vrUh]; exact queue.width
  held := by rw [settled.dar, settled.vrUr, settled.vrUh]; exact queue.held
  headed := by rw [settled.dar]; exact queue.headed

theorem Settled.windowed {stuck : Prop} {after : Rx} (settled : Settled config stuck rx after)
    (queue : Queue config rx) : Windowed config after :=
  { settled.queue queue with
    ux := settled.ux
    place := by rw [settled.vrUr, settled.vrUh]; exact fun running => (settled.runs running).1 }

theorem Timer.running_of_expired {timer : Timer} {now : Nat} (expired : timer.expired now = true) :
    timer.running = true :=
  (Bool.and_eq_true_iff.mp expired).1

theorem checkTimer_waiting {now : Nat} (waiting : rx.tReordering.expired now = false) :
    rx.checkTimerDarTimeOut config now = some rx := by
  unfold Rx.checkTimerDarTimeOut
  rw [waiting]
  rfl

theorem receive_discarded {pdu : Pdu} (now : Nat)
    (discarded : rx.discards config (fixedSn config.snLength pdu.mem) = true) :
    rx.receiveProcessDar config pdu now = some rx := by
  unfold Rx.receiveProcessDar
  simp only [discarded, if_true]

/-- The PDUs of a step have their fixed headers. -/
def RxOp.Headed (config : Config) : RxOp → Prop
  | .receive pdu _ => 0 < pdu.size → config.snLength.headerMin ≤ pdu.size
  | .checkTimer _ => True

/-- What holds of the buffer and the SDUs over a span when it does at each SN. -/
theorem reassembleSpan_keeps {I : Dar → Prop}
    (look : ∀ dar sn, I dar → I (dar.reassembleSn config sn)) {dar : Dar}
    (inv : I dar) (sn count : Nat) : I (dar.reassembleSpan config sn count) := by
  induction count generalizing dar sn with
  | zero => exact inv
  | succ count ih => exact ih (look dar sn inv) _

/-- No step fails, and it keeps what each look at an SN and each PDU stored keep. -/
theorem rxStep_keeps {I : Dar → Prop} {op : RxOp}
    (look : ∀ dar sn, I dar → I (dar.reassembleSn config sn))
    (store : ∀ pdu now, op = .receive pdu now → 0 < pdu.size →
      ∀ dar sn, I dar → I { dar with darBuffer := Function.update dar.darBuffer sn (some pdu) })
    (windowed : Windowed config rx) (headed : op.Headed config) (inv : I rx.toDar) :
    ∃ after, rxStep config rx op = some after ∧ Windowed config after ∧ I after.toDar := by
  cases op with
  | receive pdu now =>
    rw [rxStep]
    split
    · rename_i some
      cases taken : rx.discards config (fixedSn config.snLength pdu.mem) with
      | true => exact ⟨rx, receive_discarded now taken, windowed, inv⟩
      | false =>
        obtain ⟨reach, count, stored, after, -, -, rfl, received, queue, -, settled, -⟩ :=
          receive_stored windowed.toQueue windowed.ux rfl (headed some) taken now
        refine ⟨after, received, settled.windowed queue, ?_⟩
        rw [settled.dar]
        exact reassembleSpan_keeps look (store pdu now rfl some _ _ inv) _ count
    · exact ⟨rx, rfl, windowed, inv⟩
  | checkTimer now =>
    cases expired : rx.tReordering.expired now with
    | false => exact ⟨rx, checkTimer_waiting expired, windowed, inv⟩
    | true =>
      obtain ⟨count, after, -, checked, queue, settled, -⟩ :=
        checkTimer_expired windowed.toQueue windowed.ux
        (windowed.place (Timer.running_of_expired expired)) expired
      refine ⟨after, checked, settled.windowed queue, ?_⟩
      rw [settled.dar]
      exact reassembleSpan_keeps look inv _ count

theorem rxInit_windowed (config : Config) : Windowed config (rxInit config) := by
  have double := config.modulo_eq
  have positive := config.windowSize_lt
  have zero : (0 : Nat) < config.modulo := by omega
  exact { ur := zero, uh := zero, ux := zero, width := (dist_self _ _).trans_le (Nat.zero_le _)
          held := fun _ _ there => by cases there
          headed := fun _ _ there => by cases there
          place := fun running => Bool.noConfusion running }

end Step

end OpenAir.Rlc.Um
