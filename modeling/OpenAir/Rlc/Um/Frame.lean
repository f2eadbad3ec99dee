import OpenAir.Rlc.Um.Dar

/-! What the reassembly of UMD PDUs does to the buffer, and the loop of `rlc_um_try_reassembly`
as one pass over successive sequence numbers. -/
namespace OpenAir.Rlc.Um
open BitField Serial

theorem reassembleSn_buffer {dar : Dar} {config : Config} {sn : Nat}
    (long : ∀ pdu, dar.darBuffer sn = some pdu → config.snLength.headerMin ≤ pdu.size) :
    (dar.reassembleSn config sn).darBuffer = Function.update dar.darBuffer sn none := by
  unfold Dar.reassembleSn
  cases held : dar.darBuffer sn with
  | none => exact (Function.update_eq_self_iff.mpr held.symm).symm
  | some pdu => exact if_neg (Nat.not_lt.mpr (long pdu held))

theorem SnLength.modulo_eq (length : SnLength) : length.modulo = 2 * length.windowSize := by
  cases length <;> rfl

theorem Config.modulo_eq (config : Config) : config.modulo = 2 * config.windowSize :=
  config.snLength.modulo_eq

theorem Config.windowSize_lt (config : Config) : 1 < config.windowSize := by
  unfold Config.windowSize
  cases config.snLength <;> decide

/-- `count` successive SNs reassembled from `sn` on. -/
def Dar.reassembleSpan (dar : Dar) (config : Config) : Nat → Nat → Dar
  | _, 0 => dar
  | sn, count + 1 => (dar.reassembleSn config sn).reassembleSpan config
      ((sn + 1) % config.modulo) count

section Span

variable {dar : Dar} {config : Config} {sn count : Nat}

/-- The loop goes over the SNs up to the first that ends it. -/
theorem reassembleUntil_span {rounds vrUh endSn : Nat} (enough : count < rounds)
    (ends : (sn + count + 1) % config.modulo = endSn)
    (inside : ∀ k < count, (sn + k + 1) % config.modulo ≠ vrUh ∧
      (sn + k + 1) % config.modulo ≠ endSn) :
    dar.reassembleUntil config vrUh endSn rounds sn =
    some (dar.reassembleSpan config sn (count + 1)) := by
  induction count generalizing dar sn rounds with
  | zero =>
    cases rounds with
    | zero => exact absurd enough (Nat.not_lt_zero 0)
    | succ rounds =>
      rw [Dar.reassembleUntil]
      exact if_pos (.inr ends)
  | succ count ih =>
    cases rounds with
    | zero => exact absurd enough (Nat.not_lt_zero _)
    | succ rounds =>
      have next := inside 0 (Nat.succ_pos count)
      have shift (k : Nat) : ((sn + 1) % config.modulo + k + 1) % config.modulo =
          (sn + (k + 1) + 1) % config.modulo := by
        rw [Nat.add_assoc, Nat.mod_add_mod]
        congr 1
        omega
      have onwards := @ih (dar.reassembleSn config sn) ((sn + 1) % config.modulo) rounds
        (Nat.lt_of_succ_lt_succ enough)
        ((shift count).trans ends)
        (fun k below => by rw [shift k]; exact inside (k + 1) (Nat.succ_lt_succ below))
      rw [Dar.reassembleUntil, if_neg (not_or.mpr next), onwards]
      rfl

/-- `rlc_um_try_reassembly` goes over all SNs from its start to its end, when VR(UH) does not
lie between them. -/
theorem tryReassembly_span {rx : Rx} {endSn : Nat} (valid : sn < config.modulo)
    (validEnd : endSn < config.modulo)
    (clear : dist config.modulo sn rx.vrUh = 0 ∨ dist config.modulo sn endSn ≤
      dist config.modulo sn rx.vrUh) :
    rx.tryReassembly config sn endSn =
      some { rx with toDar := rx.reassembleSpan config sn (dist config.modulo sn endSn) } := by
  have ends := add_dist valid validEnd
  have short := dist_lt valid (x := endSn)
  unfold Rx.tryReassembly
  cases far : dist config.modulo sn endSn with
  | zero =>
    rw [far, Nat.add_zero, Nat.mod_eq_of_lt valid] at ends
    exact if_pos ends
  | succ count =>
    rw [far] at ends short clear
    have apart : sn ≠ endSn := by
      intro same
      rw [same, dist_self] at far
      cases far
    have inside : ∀ k < count, (sn + k + 1) % config.modulo ≠ rx.vrUh ∧
        (sn + k + 1) % config.modulo ≠ endSn := by
      intro k below
      have here := dist_add valid (show k + 1 < config.modulo by omega)
      rw [← Nat.add_assoc] at here
      constructor
      · intro highest
        rw [highest] at here
        omega
      · intro early
        rw [early] at here
        omega
    rw [if_neg apart, reassembleUntil_span (Nat.lt_of_succ_lt short) ends inside]
    rfl

/-- Every PDU of the buffer has its fixed header. -/
def Dar.Headed (dar : Dar) (config : Config) : Prop :=
  ∀ sn pdu, dar.darBuffer sn = some pdu → config.snLength.headerMin ≤ pdu.size

theorem Dar.Headed.reassembleSn (headed : dar.Headed config)
    (sn : Nat) : (dar.reassembleSn config sn).Headed config := by
  intro other pdu held
  rw [reassembleSn_buffer (headed sn)] at held
  by_cases here : other = sn
  · rw [here, Function.update_self] at held
    cases held
  · rw [Function.update_of_ne here] at held
    exact headed other pdu held

theorem reassembleSpan_buffer (headed : dar.Headed config) (valid : sn < config.modulo)
    (turn : count ≤ config.modulo)
    {other : Nat} (validOther : other < config.modulo) :
    (dar.reassembleSpan config sn count).darBuffer other =
      if dist config.modulo sn other < count then none else dar.darBuffer other := by
  induction count generalizing dar sn with
  | zero => rfl
  | succ count ih =>
    have next := Nat.mod_lt (sn + 1) (Nat.lt_of_le_of_lt (Nat.zero_le sn) valid)
    rw [Dar.reassembleSpan, ih (headed.reassembleSn sn) next (by omega),
      reassembleSn_buffer (headed sn)]
    by_cases here : other = sn
    · subst here
      rw [Function.update_self, dist_self, if_pos (Nat.succ_pos count)]
      split <;> rfl
    · have away : dist config.modulo sn other ≠ 0 := by
        intro zero
        exact here (dist_inj valid validOther valid (zero.trans (dist_self _ _).symm))
      have one : dist config.modulo sn ((sn + 1) % config.modulo) = 1 :=
        dist_add valid (by have := config.modulo_eq; have := config.windowSize_lt; omega)
      have far := dist_rebase valid next validOther (by omega)
      rw [Function.update_of_ne here, far, one]
      by_cases within : dist config.modulo sn other < count + 1
      · rw [if_pos within, if_pos (by omega)]
      · rw [if_neg within, if_neg (by omega)]

theorem reassembleSpan_outside (headed : dar.Headed config) {other : Nat}
    (beyond : config.modulo ≤ other)
    (valid : sn < config.modulo) : (dar.reassembleSpan config sn count).darBuffer other =
    dar.darBuffer other := by
  induction count generalizing dar sn with
  | zero => rfl
  | succ count ih =>
    have next := Nat.mod_lt (sn + 1) (Nat.lt_of_le_of_lt (Nat.zero_le sn) valid)
    rw [Dar.reassembleSpan, ih (headed.reassembleSn sn) next, reassembleSn_buffer (headed sn),
      Function.update_of_ne (by omega)]

end Span

end OpenAir.Rlc.Um
