import Mathlib.Logic.Basic

/-! The ACK/NACK values of a HARQ indication: what `nack_or_dtx_reported` reads, and what it
says. -/
namespace OpenAir.Mac.HarqIndication

/-- `nfapi_harq_indication_fdd_rel13_t` -/
structure FddRel13 where
  numberOfAckNack : Nat
  harqTbN : Nat → Nat

/-- `nfapi_harq_indication_tdd_rel13_t`, of which only bundling is used. -/
structure TddRel13 where
  numberOfAckNack : Nat
  /-- `harq_data[0].bundling.value_0` -/
  bundlingValue0 : Nat

/-- What the loops read at the place `hi` steps behind the indication. -/
inductive Read where
  | numberOfAckNack (hi : Nat)
  | value (hi i : Nat)
deriving DecidableEq

section Loop
variable {τ : Type} (count : τ → Nat) (value : τ → Nat → Nat) (memory : Nat → τ)

/-- Both loops step the pointer `hi` and leave `i` as it is; the result comes with what was read.
`none` when the loop has not ended with the fuel. -/
def loop (i : Nat) : Nat → Nat → Option (Bool × List Read)
  | 0, _ => none
  | fuel + 1, hi =>
    if i < count (memory hi) then
      if value (memory hi) i ≠ 1 then some (true, [.numberOfAckNack hi, .value hi i])
      else (loop i fuel (hi + 1)).map
        fun (reported, reads) => (reported, .numberOfAckNack hi :: .value hi i :: reads)
    else some (false, [.numberOfAckNack hi])

end Loop

/-- An indication and the memory behind it, read as more of its kind. -/
inductive Indication where
  | fdd (memory : Nat → FddRel13)
  | tdd (memory : Nat → TddRel13)

def nackOrDtxReported (fuel : Nat) : Indication → Option (Bool × List Read)
  | .tdd memory => loop TddRel13.numberOfAckNack (fun hi _ => hi.bundlingValue0) memory 0 fuel 0
  | .fdd memory => loop FddRel13.numberOfAckNack FddRel13.harqTbN memory 0 fuel 0

namespace Indication

def count : Indication → Nat
  | fdd memory => (memory 0).numberOfAckNack
  | tdd memory => (memory 0).numberOfAckNack

/-- Its values; with bundling there is one for all. -/
def value : Indication → Nat → Nat
  | fdd memory, i => (memory 0).harqTbN i
  | tdd memory, _ => (memory 0).bundlingValue0

end Indication

/-- A read of the indication itself, and not of a value behind the reported ones. -/
def Read.Inside (n : Nat) : Read → Prop
  | numberOfAckNack hi => hi = 0
  | value hi i => hi = 0 ∧ i < n

/-- The test ends, has read the indication only, and says whether a value is no ACK. -/
def Indication.Tested (indication : Indication) : Prop :=
  ∃ reported reads,
    (∃ enough, ∀ fuel, enough ≤ fuel → nackOrDtxReported fuel indication = some (reported, reads)) ∧
    (∀ read ∈ reads, read.Inside indication.count) ∧
    (reported = true ↔ ∃ i < indication.count, indication.value i ≠ 1)

section Loop
variable {τ : Type} {count : τ → Nat} {value : τ → Nat → Nat} {memory : Nat → τ} {fuel hi i : Nat}

theorem loop_empty (none : count (memory hi) ≤ i) :
    loop count value memory i (fuel + 1) hi = some (false, [.numberOfAckNack hi]) := by
  rw [loop, if_neg (Nat.not_lt.mpr none)]

theorem loop_nack (given : i < count (memory hi)) (nack : value (memory hi) i ≠ 1) :
    loop count value memory i (fuel + 1) hi = some (true, [.numberOfAckNack hi, .value hi i]) := by
  rw [loop, if_pos given, if_pos nack]

/-- Every end of the loop has read the place the loop is at. -/
theorem loop_reads {reported : Bool} {reads : List Read}
    (ended : loop count value memory i fuel hi = some (reported, reads)) :
    .numberOfAckNack hi ∈ reads := by
  cases fuel with
  | zero => exact nomatch ended
  | succ fuel =>
    rw [loop] at ended
    split at ended
    · split at ended
      · cases ended
        exact List.mem_cons_self
      · obtain ⟨⟨_, later⟩, _, same⟩ := Option.map_eq_some_iff.mp ended
        cases same
        exact List.mem_cons_self
    · cases ended
      exact List.mem_cons_self

/-- Past an ACK the loop reads the place behind. -/
theorem loop_ack {reported : Bool} {reads : List Read} (given : i < count (memory hi))
    (ack : value (memory hi) i = 1)
    (ended : loop count value memory i fuel hi = some (reported, reads)) :
    .numberOfAckNack (hi + 1) ∈ reads := by
  cases fuel with
  | zero => exact nomatch ended
  | succ fuel =>
    rw [loop, if_pos given, if_neg (not_not_intro ack)] at ended
    obtain ⟨⟨_, later⟩, tail, same⟩ := Option.map_eq_some_iff.mp ended
    cases same
    exact List.mem_cons_of_mem _ (List.mem_cons_of_mem _ (loop_reads tail))

end Loop

namespace Indication
variable {indication : Indication}

theorem reported_empty (none : indication.count = 0) (fuel : Nat) :
    nackOrDtxReported (fuel + 1) indication = some (false, [.numberOfAckNack 0]) := by
  cases indication with
  | fdd memory => exact loop_empty (Nat.le_of_eq none)
  | tdd memory =>
    rw [nackOrDtxReported]
    apply loop_empty
    exact Nat.le_of_eq none

theorem reported_nack (given : 0 < indication.count) (nack : indication.value 0 ≠ 1) (fuel : Nat) :
    nackOrDtxReported (fuel + 1) indication = some (true, [.numberOfAckNack 0, .value 0 0]) := by
  cases indication with
  | fdd memory => exact loop_nack given nack
  | tdd memory =>
    rw [nackOrDtxReported]
    apply loop_nack
    · exact given
    · exact nack

theorem reads_behind (given : 0 < indication.count) (ack : indication.value 0 = 1) {fuel : Nat}
    {reported : Bool}
    {reads : List Read} (ended : nackOrDtxReported fuel indication = some (reported, reads)) :
    .numberOfAckNack 1 ∈ reads := by
  cases indication with
  | fdd memory => exact loop_ack given ack ended
  | tdd memory =>
    rw [nackOrDtxReported] at ended
    refine loop_ack ?_ ?_ ended
    · exact given
    · exact ack

end Indication

/-- The test is right for an indication without values, and for one whose first value is no ACK. -/
theorem nackOrDtxReported_tested_iff (indication : Indication) :
    indication.Tested ↔ indication.count = 0 ∨ indication.value 0 ≠ 1 := by
  constructor
  · rintro ⟨reported, reads, ⟨enough, ends⟩, inside, _⟩
    rcases Nat.eq_zero_or_pos indication.count with none | given
    · exact .inl none
    · refine .inr fun ack => ?_
      have behind : .numberOfAckNack 1 ∈ reads :=
        Indication.reads_behind given ack (ends enough (Nat.le_refl _))
      exact absurd (inside _ behind) (Nat.succ_ne_zero 0)
  · intro condition
    by_cases none : indication.count = 0
    · refine ⟨false, [.numberOfAckNack 0], ⟨1, fun fuel enough => ?_⟩, ?_, ?_⟩
      · obtain ⟨fuel, rfl⟩ := Nat.exists_eq_add_of_le' enough
        exact Indication.reported_empty none fuel
      · intro read member
        cases List.mem_singleton.mp member
        exact rfl
      · refine ⟨fun wrong => absurd wrong Bool.false_ne_true, ?_⟩
        rintro ⟨i, within, _⟩
        exact absurd (none ▸ within) (Nat.not_lt_zero i)
    · have given : 0 < indication.count := Nat.pos_of_ne_zero none
      have nack : indication.value 0 ≠ 1 := condition.resolve_left none
      refine ⟨true, [.numberOfAckNack 0, .value 0 0], ⟨1, fun fuel enough => ?_⟩, ?_, ?_⟩
      · obtain ⟨fuel, rfl⟩ := Nat.exists_eq_add_of_le' enough
        exact Indication.reported_nack given nack fuel
      · intro read member
        rcases List.mem_cons.mp member with rfl | member
        · exact rfl
        · cases List.mem_singleton.mp member
          exact ⟨rfl, given⟩
      · exact ⟨fun _ => ⟨0, given, nack⟩, fun _ => rfl⟩

def oneAck : Indication := .fdd fun hi => if hi = 0 then ⟨1, fun _ => 1⟩ else ⟨0, fun _ => 0⟩

theorem oneAck_not_tested : ¬ ∀ indication : Indication, indication.Tested := by
  intro always
  obtain ⟨reported, reads, ⟨enough, ends⟩, inside, _⟩ := always oneAck
  have given : 0 < oneAck.count := Nat.one_pos
  have behind : .numberOfAckNack 1 ∈ reads :=
    Indication.reads_behind given rfl (ends enough (Nat.le_refl _))
  exact absurd (inside _ behind) (Nat.succ_ne_zero 0)

/-- Where the memory behind goes on with such indications, the loop does not end. -/
theorem loop_endless {τ : Type} {count : τ → Nat} {value : τ → Nat → Nat}
    {memory : Nat → τ} {i : Nat}
    (acks : ∀ hi, i < count (memory hi) ∧ value (memory hi) i = 1) (fuel hi : Nat) :
    loop count value memory i fuel hi = none := by
  induction fuel generalizing hi with
  | zero => rfl
  | succ fuel ih =>
    obtain ⟨given, ack⟩ := acks hi
    rw [loop, if_pos given, if_neg (not_not_intro ack), ih]
    rfl

end OpenAir.Mac.HarqIndication
