import OpenAir.Lib.Run
import Mathlib.Logic.Function.Basic

/-! The downlink HARQ processes of a UE: a process has a round from 0 to 3 while a block is in
flight, and round 8 when it is free. -/
namespace OpenAir.Mac

structure Proc where
  round : Nat
  tbcnt : Nat

abbrev Procs := Nat → Nat → Proc

def Procs.set (procs : Procs) (cc pid : Nat) (proc : Proc) : Procs :=
  Function.update procs cc (Function.update (procs cc) pid proc)

/-- What `add_new_ue` leaves. -/
def Procs.fresh : Procs := fun _ _ => ⟨8, 0⟩

inductive HarqMode where
  | format1ab | channelSelection | format3 | format4 | format5
  deriving DecidableEq

structure HarqIndication where
  mode : HarqMode
  numAckNak : Nat
  harqTb : Nat → Nat

structure HarqConfig where
  numCc : Nat
  pCc : Nat
  tmode : Nat → Nat
  spatialBundling : Bool
  nfapiMode : Nat
  maxNumCcs : Nat

/-- One codeword and so one bit; every other transmission mode has two. -/
def singleLayer (tmode : Nat) : Bool :=
  tmode == 1 || tmode == 2 || tmode == 5 || tmode == 6 || tmode == 7

def harqPid (frame subframe : Nat) : Nat := (10 * frame + subframe + 10236) % 8

def frameSubframe2DlHarqPid (frame subframe : Nat) : Nat := (frame * 10 + subframe) % 8

def Proc.release : Proc := ⟨8, 0⟩

/-- The round goes up; the process is released behind the last one. -/
def Proc.nack (proc : Proc) : Proc :=
  if proc.round + 1 = 4 then .release else { proc with round := proc.round + 1 }

/-- One of two blocks was received. -/
def Proc.oneAck (proc : Proc) : Proc :=
  if proc.round + 1 = 4 then .release else ⟨proc.round + 1, 1⟩

/-- As the two above, in the branches that leave `tbcnt` alone. -/
def Proc.ackOnly (proc : Proc) : Proc := { proc with round := 8 }

def Proc.nackOnly (proc : Proc) : Proc :=
  { proc with round := if proc.round + 1 = 4 then 8 else proc.round + 1 }

/-- The single bit of format 1a; `none` at a fatal assertion. -/
def extractOneBit (cfg : HarqConfig) (procs : Procs) (cc pid : Nat) (ind : HarqIndication) :
    Option Procs :=
  let proc := procs cc pid
  if ind.numAckNak ≠ 1 then none
  else if cfg.nfapiMode ≠ 2 ∧ ¬ proc.round < 8 then none
  else if cfg.nfapiMode = 2 ∧ proc.round = 8 then some procs
  else if ind.harqTb 0 = 1 then some (procs.set cc pid .release)
  else if ind.harqTb 0 = 2 ∨ ind.harqTb 0 = 4 then some (procs.set cc pid proc.nack)
  else none

/-- The two bits of format 1b. The first test stands on its own: a process that it releases
goes on to the tests of the others. The block count is read on carrier 0 once. -/
def extractTwoBits (procs : Procs) (cc pid : Nat) (ind : HarqIndication) : Option Procs :=
  let bits (first second : Nat) := ind.harqTb 0 = first ∧ ind.harqTb 1 = second
  if ind.numAckNak > 2 then none
  else
    let procs :=
      if ind.numAckNak = 2 ∧ (procs cc pid).round < 8 ∧ (procs cc pid).tbcnt = 1 ∧ bits 1 1 then
        procs.set cc pid .release
      else procs
    let proc := procs cc pid
    if ind.numAckNak = 2 ∧ proc.round < 8 ∧ proc.tbcnt = 1 ∧ bits 2 2 then
      some (procs.set cc pid proc.nack)
    else if ind.numAckNak = 2 ∧ proc.round < 8 ∧ (procs 0 pid).tbcnt = 2 ∧ bits 1 2 ∨
        ind.numAckNak = 2 ∧ proc.round < 8 ∧ proc.tbcnt = 2 ∧ bits 2 1 then
          some (procs.set cc pid proc.oneAck)
    else if ind.numAckNak = 2 ∧ proc.round < 8 ∧ proc.tbcnt = 2 ∧ bits 2 2 then
      some (procs.set cc pid proc.nack)
    else none

/-- Two blocks of one carrier under channel selection; `partly` tells one acknowledgement. -/
def twoBlocks (proc : Proc) (first second : Nat) (partly : Prop) [Decidable partly] : Proc :=
  if first = 1 ∧ second = 1 then .release
  else if partly then proc.oneAck
  else proc.nack

def oneBlock (proc : Proc) (bit : Nat) : Proc := if bit = 1 then proc.ackOnly else proc.nackOnly

def extractChannelSelection (cfg : HarqConfig) (procs : Procs) (pid : Nat) (ind : HarqIndication) :
    Option Procs :=
  let p := cfg.pCc
  let s := 1 - cfg.pCc
  let tb := ind.harqTb
  if ind.numAckNak = 2 ∧ (procs p pid).round < 8 ∧ (procs s pid).round < 8 ∧
      (procs p pid).tbcnt = 1 ∧ (procs s pid).tbcnt = 1 then
    if tb 0 ≤ 3 ∧ tb 1 ≤ 3 then
      let procs := procs.set p pid (oneBlock (procs p pid) (tb 0))
      some (procs.set s pid (oneBlock (procs s pid) (tb 1)))
    else none
  else if ind.numAckNak = 3 ∧ (procs p pid).round < 8 ∧ (procs p pid).tbcnt = 2 ∧
      (procs s pid).round < 8 ∧ (procs s pid).tbcnt = 1 then
    if tb 0 ≤ 3 ∧ tb 1 ≤ 3 ∧ tb 2 ≤ 3 then
      let procs := procs.set p pid
        (twoBlocks (procs p pid) (tb 0) (tb 1) (tb 0 = 2 ∧ tb 1 = 1 ∨ tb 0 = 1 ∧ tb 1 = 2))
      some (procs.set s pid (oneBlock (procs s pid) (tb 2)))
    else none
  else if ind.numAckNak = 3 ∧ (procs s pid).round < 8 ∧ (procs p pid).round < 8 ∧
      (procs s pid).tbcnt = 2 ∧ (procs p pid).tbcnt = 1 then
    if tb 0 ≤ 3 ∧ tb 1 ≤ 3 ∧ tb 2 ≤ 3 then
      let procs := procs.set s pid
        (twoBlocks (procs s pid) (tb 0) (tb 1) (tb 0 ≥ 2 ∧ tb 1 = 1 ∨ tb 0 = 1 ∧ tb 1 ≥ 2))
      some (procs.set p pid (oneBlock (procs p pid) (tb 2)))
    else none
  else if cfg.maxNumCcs > 1 ∧ ind.numAckNak = 4 ∧ (procs 0 pid).round < 8 ∧
    (procs 1 pid).round < 8 ∧
      (procs s pid).tbcnt = 2 ∧ (procs p pid).tbcnt = 2 then
    if tb 0 ≤ 3 ∧ tb 1 ≤ 3 ∧ tb 2 ≤ 3 ∧ tb 3 ≤ 3 ∧ (procs 0 pid).tbcnt = 2 ∧
        (procs 1 pid).tbcnt = 2 then
      let procs := procs.set 0 pid
        (twoBlocks (procs 0 pid) (tb 0) (tb 1) (tb 0 ≥ 2 ∧ tb 1 = 1 ∨ tb 0 = 1 ∧ tb 1 ≥ 2))
      some (procs.set 1 pid
        (twoBlocks (procs 1 pid) (tb 2) (tb 3) (tb 2 ≥ 2 ∧ tb 3 = 1 ∨ tb 2 = 1 ∧ tb 3 ≥ 2)))
    else none
  else
    some procs

/-- The carriers from `i` on; `j` counts the bits that were read. -/
def extractFormat3 (cfg : HarqConfig) (pid : Nat) (ind : HarqIndication) : List Nat → Nat →
    Procs → Option Procs
  | [], _, procs => some procs
  | i :: rest, j, procs =>
    let proc := procs i pid
    let tb := ind.harqTb
    if ¬ proc.round < 8 then extractFormat3 cfg pid ind rest j procs
    else if cfg.tmode i = 1 ∨ cfg.tmode i = 2 ∨ cfg.tmode 0 = 5 ∨ cfg.tmode 0 = 6 ∨
      cfg.tmode 0 = 7 ∨
        cfg.spatialBundling = true then
      if tb j = 1 then extractFormat3 cfg pid ind rest (j + 1) (procs.set i pid .release)
      else if tb j = 2 then extractFormat3 cfg pid ind rest (j + 1) (procs.set i pid proc.nack)
      else none
    else if proc.tbcnt = 2 ∧ tb j = 1 ∧ tb (j + 1) = 1 then
      extractFormat3 cfg pid ind rest (j + 2) (procs.set i pid .release)
    else if proc.tbcnt = 2 ∧ (tb j = 1 ∧ tb (j + 1) = 2 ∨ tb j = 2 ∧ tb (j + 1) = 1) then
      extractFormat3 cfg pid ind rest (j + 2) (procs.set i pid proc.oneAck)
    else if proc.tbcnt = 2 ∧ tb j = 2 ∧ tb (j + 1) = 2 then
      extractFormat3 cfg pid ind rest (j + 2) (procs.set i pid proc.nack)
    else none

/-- `extract_harq` for FDD; `none` at a fatal assertion. -/
def extractHarq (cfg : HarqConfig) (procs : Procs) (cc frame subframe : Nat)
    (ind : HarqIndication) : Option Procs :=
  let pid := harqPid frame subframe
  match ind.mode with
  | .format1ab =>
    if cfg.numCc ≠ 1 then none
    else if singleLayer (cfg.tmode 0) then extractOneBit cfg procs cc pid ind
    else extractTwoBits procs cc pid ind
  | .channelSelection => if cfg.numCc ≠ 2 then none else extractChannelSelection cfg procs pid ind
  | .format3 => if cfg.numCc ≤ 2 then
      none else extractFormat3 cfg pid ind (List.range cfg.numCc) 0 procs
  | .format4 => none
  | .format5 => none

/-- A transmission in a subframe: a free process is taken for new data, any other is sent
again. The number of blocks is not noted anywhere. -/
def transmit (procs : Procs) (cc frame subframe : Nat) : Procs :=
  let pid := frameSubframe2DlHarqPid frame subframe
  if (procs cc pid).round = 8 then procs.set cc pid { procs cc pid with round := 0 } else procs

inductive HarqOp where
  | transmit (cc frame subframe : Nat)
  | indication (cc frame subframe : Nat) (ind : HarqIndication)

def harqStep (cfg : HarqConfig) (procs : Procs) : HarqOp → Option Procs
  | .transmit cc frame subframe => some (transmit procs cc frame subframe)
  | .indication cc frame subframe ind => extractHarq cfg procs cc frame subframe ind

/-- The process that was sent in the subframe that is acknowledged, four subframes before. -/
def acknowledgedPid (frame subframe : Nat) : Nat :=
  let sent := (10 * frame + subframe + 10236) % 10240
  frameSubframe2DlHarqPid (sent / 10) (sent % 10)

def blocks (tmode : Nat) : Nat := if singleLayer tmode then 1 else 2

def Reports (cfg : HarqConfig) (cc : Nat) (ind : HarqIndication) (c : Nat) : Prop :=
  match ind.mode with
  | .format1ab => c = cc
  | _ => c = cfg.pCc ∨ c = 1 - cfg.pCc

/-- The bits of a carrier: under channel selection those of the carrier with more blocks come
first, and of two equal ones those of the primary carrier. -/
def bitsOf (cfg : HarqConfig) (ind : HarqIndication) (c : Nat) : List Nat :=
  match ind.mode with
  | .format1ab => List.range ind.numAckNak
  | _ =>
    let first := if blocks (cfg.tmode cfg.pCc) < blocks (cfg.tmode (1 - cfg.pCc)) then
      1 - cfg.pCc else cfg.pCc
    if c = first then List.range (blocks (cfg.tmode c))
    else (List.range (blocks (cfg.tmode c))).map (· + blocks (cfg.tmode first))

def Acked (cfg : HarqConfig) (ind : HarqIndication) (c : Nat) : Prop :=
  ∀ i ∈ bitsOf cfg ind c, ind.harqTb i = 1

/-- The round behind an indication. -/
def Decided (round : Nat) (acked : Prop) (round' : Nat) : Prop :=
  (acked ∨ round = 3 → round' = 8) ∧ (¬ acked → round ≠ 3 → round' = round + 1)

/-- The processes of the acknowledged subframe that the indication reports on are decided, and
no other is touched. -/
def Decides (cfg : HarqConfig) (procs : Procs) (cc frame subframe : Nat) (ind : HarqIndication)
    (after : Procs) : Prop :=
  ∀ c p, (p = acknowledgedPid frame subframe ∧ Reports cfg cc ind c ∧ (procs c p).round < 8 →
      Decided (procs c p).round (Acked cfg ind c) (after c p).round) ∧
    (¬ (p = acknowledgedPid frame subframe ∧ Reports cfg cc ind c ∧ (procs c p).round < 8) →
      (after c p).round = (procs c p).round)

/-- An indication that the HARQ modes admit: it is about a block in flight, and has one value for
each block that the transmission modes allow. -/
def Admitted (cfg : HarqConfig) (procs : Procs) (cc frame subframe : Nat)
    (ind : HarqIndication) : Prop :=
  (∃ c, Reports cfg cc ind c ∧ (procs c (acknowledgedPid frame subframe)).round < 8) ∧
  match ind.mode with
  | .format1ab => cfg.numCc = 1 ∧ ind.numAckNak = blocks (cfg.tmode cc) ∧
      ∀ i < ind.numAckNak, ind.harqTb i = 1 ∨ ind.harqTb i = 2 ∨ ind.harqTb i = 4
  | .channelSelection => cfg.numCc = 2 ∧
      ind.numAckNak = blocks (cfg.tmode cfg.pCc) + blocks (cfg.tmode (1 - cfg.pCc)) ∧
      ∀ i < ind.numAckNak, ind.harqTb i = 1 ∨ ind.harqTb i = 2 ∨ ind.harqTb i = 3
  | _ => False

/-- One carrier, and one codeword both on it and on carrier 0. -/
def OneCodeword (cfg : HarqConfig) (cc : Nat) (ind : HarqIndication) : Prop :=
  ind.mode = .format1ab ∧ singleLayer (cfg.tmode 0) = true ∧ singleLayer (cfg.tmode cc) = true

/-- What holds of the processes in every run. -/
structure HarqOk (procs : Procs) : Prop where
  round : ∀ c p, (procs c p).round ∈ [0, 1, 2, 3, 8]
  tbcnt : ∀ c p, (procs c p).tbcnt = 0

theorem fresh_ok : HarqOk Procs.fresh where
  round _ _ := by simp [Procs.fresh]
  tbcnt _ _ := rfl

section Set

variable {procs : Procs} {cc pid c p : Nat} {proc : Proc}

@[simp] theorem set_self : procs.set cc pid proc cc pid = proc := by
  rw [Procs.set, Function.update_self, Function.update_self]

theorem set_other (other : ¬ (c = cc ∧ p = pid)) : procs.set cc pid proc c p = procs c p := by
  unfold Procs.set
  by_cases carrier : c = cc
  · subst carrier
    rw [Function.update_self, Function.update_of_ne fun same => other ⟨rfl, same⟩]
  · rw [Function.update_of_ne carrier]

theorem HarqOk.set (ok : HarqOk procs) (round : proc.round ∈ [0, 1, 2, 3, 8])
    (tbcnt : proc.tbcnt = 0) :
    HarqOk (procs.set cc pid proc) where
  round c p := by
    by_cases here : c = cc ∧ p = pid
    · rw [here.1, here.2, set_self]
      exact round
    · rw [set_other here]
      exact ok.round c p
  tbcnt c p := by
    by_cases here : c = cc ∧ p = pid
    · rw [here.1, here.2, set_self]
      exact tbcnt
    · rw [set_other here]
      exact ok.tbcnt c p

end Set

theorem acknowledgedPid_eq (frame subframe : Nat) : acknowledgedPid frame subframe =
    harqPid frame subframe := by
  simp only [acknowledgedPid, frameSubframe2DlHarqPid, harqPid]
  omega

section Round

variable {proc : Proc}

theorem nack_decided {acked : Prop} (failed : ¬ acked) :
    Decided proc.round acked proc.nack.round := by
  unfold Proc.nack
  refine ⟨fun last => ?_, fun _ early => ?_⟩
  · rw [if_pos (by rw [last.resolve_left failed])]
    rfl
  · rw [if_neg (by omega)]

theorem nack_round (low : proc.round < 8) (valid : proc.round ∈ [0, 1, 2, 3, 8]) :
    proc.nack.round ∈ [0, 1, 2, 3, 8] := by
  have cases : proc.round = 0 ∨ proc.round = 1 ∨ proc.round = 2 ∨ proc.round = 3 ∨
    proc.round = 8 := by simpa using valid
  unfold Proc.nack
  split
  · decide
  · simp only [List.mem_cons, List.not_mem_nil]
    omega

theorem nack_tbcnt (none : proc.tbcnt = 0) : proc.nack.tbcnt = 0 := by
  unfold Proc.nack
  split
  · rfl
  · exact none

theorem decided_ne {round round' : Nat} {acked : Prop} (low : round < 8)
    (decided : Decided round acked round') :
    round' ≠ round := by
  by_cases ends : acked ∨ round = 3
  · rw [decided.1 ends]
    omega
  · rw [decided.2 (fun yes => ends (.inl yes)) fun last => ends (.inr last)]
    omega

end Round

section Step

variable {cfg : HarqConfig} {procs : Procs} {cc frame subframe : Nat} {ind : HarqIndication}

/-- A process that is set as decided is the only one touched. -/
theorem decides_set {proc : Proc} (mode : ind.mode = .format1ab)
    (active : (procs cc (acknowledgedPid frame subframe)).round < 8)
    (decided : Decided (procs cc (acknowledgedPid frame subframe)).round
      (Acked cfg ind cc) proc.round) :
    Decides cfg procs cc frame subframe ind
      (procs.set cc (acknowledgedPid frame subframe) proc) := by
  intro c p
  have reports : Reports cfg cc ind c ↔ c = cc := by rw [Reports, mode]
  rw [reports]
  by_cases here : c = cc ∧ p = acknowledgedPid frame subframe
  · rw [here.1, here.2, set_self]
    exact ⟨fun _ => decided, fun none => absurd ⟨rfl, rfl, active⟩ none⟩
  · rw [set_other here]
    exact ⟨fun reported => absurd ⟨reported.2.1, reported.1⟩ here, fun _ => rfl⟩

theorem extractOneBit_decides (ok : HarqOk procs)
    (admitted : Admitted cfg procs cc frame subframe ind)
    (one : OneCodeword cfg cc ind) :
    ∃ after, extractHarq cfg procs cc frame subframe ind = some after ∧
      Decides cfg procs cc frame subframe ind after ∧ HarqOk after := by
  obtain ⟨mode, carrier0, carrier⟩ := one
  obtain ⟨⟨c, reports, active⟩, admitted⟩ := admitted
  rw [Reports, mode] at reports
  obtain rfl : c = cc := reports
  rw [mode] at admitted
  obtain ⟨single, number, values⟩ := admitted
  rw [blocks, carrier, if_pos rfl] at number
  have acked : Acked cfg ind c ↔ ind.harqTb 0 = 1 := by
    rw [Acked, bitsOf, mode, number]
    simp
  have used : ¬ (cfg.nfapiMode ≠ 2 ∧ ¬ (procs c (acknowledgedPid frame subframe)).round < 8) :=
    fun idle => idle.2 active
  have inFlight : ¬ (cfg.nfapiMode = 2 ∧ (procs c (acknowledgedPid frame subframe)).round = 8) := by
    omega
  simp only [extractHarq, mode, single, carrier0, extractOneBit, number, ← acknowledgedPid_eq,
    ne_eq, not_true_eq_false, if_false, if_true, used, inFlight]
  have valid := ok.round c (acknowledgedPid frame subframe)
  have free := ok.tbcnt c (acknowledgedPid frame subframe)
  by_cases ack : ind.harqTb 0 = 1
  · rw [if_pos ack]
    refine ⟨_, rfl, decides_set mode active ⟨fun _ => rfl, fun no => absurd (acked.mpr ack) no⟩,
      ok.set (by decide) rfl⟩
  · rw [if_neg ack, if_pos ((values 0 (by omega)).resolve_left ack)]
    refine ⟨_, rfl, decides_set mode active (nack_decided fun yes => ack (acked.mp yes)), ?_⟩
    exact ok.set (nack_round active valid) (nack_tbcnt free)

/-- Without block counts the two bits of format 1b always end at an assertion. -/
theorem extractTwoBits_fatal (ok : HarqOk procs)
    (pid : Nat) : extractTwoBits procs cc pid ind = none := by
  simp [extractTwoBits, ok.tbcnt]

/-- Without block counts channel selection decides nothing. -/
theorem extractChannelSelection_idle (ok : HarqOk procs) (pid : Nat) :
    extractChannelSelection cfg procs pid ind = some procs := by
  simp [extractChannelSelection, ok.tbcnt]

/-- In a state of a run an indication is handled as it should be exactly when it is the single
bit of one codeword. -/
theorem extractHarq_iff (ok : HarqOk procs) (admitted : Admitted cfg procs cc frame subframe ind) :
    (∃ after, extractHarq cfg procs cc frame subframe ind = some after ∧
        Decides cfg procs cc frame subframe ind after) ↔
      OneCodeword cfg cc ind := by
  constructor
  · rintro ⟨after, ran, decides⟩
    obtain ⟨⟨c, reports, active⟩, admitted⟩ := admitted
    cases mode : ind.mode with
    | format1ab =>
      rw [mode] at admitted
      obtain ⟨single, number, -⟩ := admitted
      cases carrier0 : singleLayer (cfg.tmode 0) with
      | false =>
        simp only [extractHarq, mode, single, carrier0, ne_eq, not_true_eq_false, if_false,
          Bool.false_eq_true, extractTwoBits_fatal ok] at ran
        exact nomatch ran
      | true =>
        refine ⟨mode, carrier0, ?_⟩
        cases carrier : singleLayer (cfg.tmode cc) with
        | true => rfl
        | false =>
          rw [blocks, carrier, if_neg Bool.false_ne_true] at number
          have two : ind.numAckNak ≠ 1 := by omega
          simp only [extractHarq, mode, single, carrier0, extractOneBit, ne_eq,
            not_true_eq_false, if_false, if_true, if_pos two] at ran
          exact nomatch ran
    | channelSelection =>
      rw [mode] at admitted
      simp only [extractHarq, mode, admitted.1, ne_eq, not_true_eq_false, if_false,
        extractChannelSelection_idle ok, Option.some.injEq] at ran
      subst ran
      exact absurd rfl (decided_ne active ((decides c _).1 ⟨rfl, reports, active⟩))
    | format3 => exact (mode ▸ admitted).elim
    | format4 => exact (mode ▸ admitted).elim
    | format5 => exact (mode ▸ admitted).elim
  · intro one
    obtain ⟨after, ran, decides, -⟩ := extractOneBit_decides ok admitted one
    exact ⟨after, ran, decides⟩

theorem transmit_ok (ok : HarqOk procs) (cc frame subframe : Nat) :
    HarqOk (transmit procs cc frame subframe) := by
  simp only [transmit]
  split
  · exact ok.set List.mem_cons_self (ok.tbcnt _ _)
  · exact ok

end Step

/-- Every indication is admitted and has the single bit of one codeword. -/
def OneBit (cfg : HarqConfig) (procs : Procs) : HarqOp → Prop
  | .transmit .. => True
  | .indication cc frame subframe ind => Admitted cfg procs cc frame subframe ind ∧
      OneCodeword cfg cc ind

/-- What a step may do to the rounds. -/
def HarqStepOk (cfg : HarqConfig) (procs after : Procs) : HarqOp → Prop
  | .transmit cc frame subframe => ∀ c p, (after c p).round = (procs c p).round ∨
      c = cc ∧ p = frameSubframe2DlHarqPid frame subframe ∧ (procs c p).round = 8 ∧
      (after c p).round = 0
  | .indication cc frame subframe ind => Decides cfg procs cc frame subframe ind after

theorem harqStep_ok {cfg : HarqConfig} {procs : Procs} (ok : HarqOk procs) (op : HarqOp)
    (one : OneBit cfg procs op) :
    ∃ after, harqStep cfg procs op = some after ∧ HarqOk after ∧ HarqStepOk cfg procs after op := by
  cases op with
  | transmit cc frame subframe =>
    refine ⟨_, rfl, transmit_ok ok cc frame subframe, fun c p => ?_⟩
    simp only [transmit]
    split
    · rename_i idle
      by_cases here : c = cc ∧ p = frameSubframe2DlHarqPid frame subframe
      · refine .inr ⟨here.1, here.2, ?_, ?_⟩
        · rw [here.1, here.2, idle]
        · rw [here.1, here.2, set_self]
      · rw [set_other here]
        exact .inl rfl
    · exact .inl rfl
  | indication cc frame subframe ind =>
    obtain ⟨after, ran, decides, ok⟩ := extractOneBit_decides ok one.1 one.2
    exact ⟨after, ran, ok, decides⟩

/-- In every run whose indications have the single bit of one codeword no assertion fails, every
round is 0 to 3 or 8, and every indication decides the processes it reports on. -/
theorem harqRun_ok (cfg : HarqConfig) {ops : List HarqOp} {op : HarqOp}
    (meets : Run.Meets (harqStep cfg) (OneBit cfg) Procs.fresh (ops ++ [op])) :
    ∃ procs after, Run.run (harqStep cfg) Procs.fresh ops = some procs ∧
      harqStep cfg procs op = some after ∧
      HarqOk procs ∧ HarqOk after ∧ HarqStepOk cfg procs after op := by
  obtain ⟨first, last⟩ := meets.append
  have keep (procs : Procs) (op : HarqOp) (ok : HarqOk procs) (one : OneBit cfg procs op) :
      ∃ after, harqStep cfg procs op = some after ∧ HarqOk after := by
    obtain ⟨after, ran, ok, -⟩ := harqStep_ok ok op one
    exact ⟨after, ran, ok⟩
  obtain ⟨procs, ran, ok⟩ := Run.run_invariant_meets keep fresh_ok first
  obtain ⟨after, stepped, next, kept⟩ := harqStep_ok ok op (last procs ran).1
  exact ⟨procs, after, ran, stepped, ok, next, kept⟩

def oneCarrier (tmode : Nat) : HarqConfig where
  numCc := 1
  pCc := 0
  tmode _ := tmode
  spatialBundling := false
  nfapiMode := 0
  maxNumCcs := 1

def bits (mode : HarqMode) (values : List Nat) : HarqIndication where
  mode := mode
  numAckNak := values.length
  harqTb i := values.getD i 0

theorem harqRun_ok_nack :
    Run.Meets (harqStep (oneCarrier 2)) (OneBit (oneCarrier 2)) Procs.fresh
      ([.transmit 0 0 1] ++ [.indication 0 0 5 (bits .format1ab [2])]) ∧
    ∃ procs after, Run.run (harqStep (oneCarrier 2)) Procs.fresh [.transmit 0 0 1] = some procs ∧
      harqStep (oneCarrier 2) procs (.indication 0 0 5 (bits .format1ab [2])) = some after ∧
      HarqOk procs ∧ HarqOk after ∧
      HarqStepOk (oneCarrier 2) procs after (.indication 0 0 5 (bits .format1ab [2])) := by
  have meets : Run.Meets (harqStep (oneCarrier 2)) (OneBit (oneCarrier 2)) Procs.fresh
      ([.transmit 0 0 1] ++ [.indication 0 0 5 (bits .format1ab [2])]) := by
    refine ⟨trivial, ?_⟩
    rintro _ ⟨⟩
    refine ⟨⟨⟨⟨0, rfl, by decide⟩, rfl, rfl, ?_⟩, rfl, rfl, rfl⟩, fun _ _ => trivial⟩
    intro i inside
    obtain rfl : i = 0 := by
      have short : (bits .format1ab [2]).numAckNak = 1 := rfl
      omega
    exact .inr (.inl rfl)
  exact ⟨meets, harqRun_ok (oneCarrier 2) meets⟩

/-- A block of a two-codeword mode is received: its two acknowledgements end at an assertion.
With channel selection on two carriers the process stays in its round. -/
theorem harqRun_two_codewords :
    (Run.run (harqStep (oneCarrier 3)) Procs.fresh
      [.transmit 0 0 1, .indication 0 0 5 (bits .format1ab [1, 1])]).isNone ∧
    (Run.run (harqStep { oneCarrier 1 with numCc := 2 }) Procs.fresh
      [.transmit 0 0 1, .indication 0 0 5 (bits .channelSelection [1, 1])]).map
        (fun procs => (procs 0 1).round) = some 0 := by
  decide

end OpenAir.Mac
