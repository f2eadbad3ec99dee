import Mathlib.Logic.Function.Basic

/-! Uplink grants: what `schedule_ulsch_rnti` does for one UE of its list. A UE has one uplink
carrier. -/
namespace OpenAir.Mac

/-- `rb_table`, the allowable numbers of resource blocks. -/
def rbTable : List Nat :=
  [1, 2, 3, 4, 5, 6, 8, 9, 10, 12, 15, 16, 18, 20, 24, 25, 27, 30, 32,
   36, 40, 45, 48, 50, 54, 60, 64, 72, 75, 80, 81, 90, 96, 100]

/-- `rb_table[i]` -/
def rbOf (i : Nat) : Nat := rbTable.getD i 0

/-- `TBStable`: sizes in bits, with its largest entry. -/
structure TbsTable where
  bits : Nat → Nat → Nat
  bounded : ∀ i n, bits i n ≤ 75376

def getITbsUl (mcs : Nat) : Nat :=
  if mcs ≤ 10 then mcs else if mcs = 10 then 10 else if mcs < 21 then mcs - 1 else mcs - 2

def getTbsUl (table : TbsTable) (mcs nbRb : Nat) : Nat :=
  if 0 < nbRb ∧ mcs < 29 then table.bits (getITbsUl mcs) (nbRb - 1) >>> 3 else 0

theorem getTbsUl_le (table : TbsTable) (mcs nbRb : Nat) : getTbsUl table mcs nbRb ≤ 9422 := by
  rw [getTbsUl]
  split
  · rw [Nat.shiftRight_eq_div_pow]
    exact Nat.div_le_div_right (table.bounded _ _)
  · exact Nat.zero_le _

/-- The fields of a UE that uplink grants and receptions share. -/
structure UeUl where
  roundUl : Fin 8 → UInt8
  /-- A bit for each process. -/
  ulScheduled : BitVec 32
  tbsUl : Fin 8 → Nat
  mcsUl : Fin 8 → Nat
  nbRbUl : Fin 8 → Nat
  firstRbUl : Fin 8 → Nat
  scheduledUlBytes : Int
  /-- By logical channel group. -/
  ulBufferInfo : Nat → UInt32
  estimatedUlBuffer : Int
  /-- The group of a logical channel, stored for the first eleven. -/
  lcgidmap : Nat → Fin 4
  ulSr : Nat

theorem lcgids_pos : 0 < 4 := by decide

/-- What `add_new_ue` leaves. -/
def UeUl.fresh : UeUl where
  roundUl _ := 0
  ulScheduled := 0
  tbsUl _ := 0
  mcsUl _ := 0
  nbRbUl _ := 0
  firstRbUl _ := 0
  scheduledUlBytes := 0
  ulBufferInfo _ := 0
  estimatedUlBuffer := 0
  lcgidmap _ := ⟨0, lcgids_pos⟩
  ulSr := 0

/-- The bit of a process in `ul_scheduled`. -/
def UeUl.scheduled (ue : UeUl) (pid : Fin 8) : Bool := ue.ulScheduled.getLsbD pid

/-- What else the scheduler finds when it comes to a UE. -/
structure Turn where
  harqPid : Fin 8
  /-- The UE is of the slice and configured, and has an RNTI. -/
  eligible : Bool
  cceInfeasible : Bool
  ulFailureTimer : Nat
  ulOutOfSync : Nat
  ulInactivityTimer : Nat
  rrcConnected : Bool
  preAssignedMcs : Nat
  maxMcs : Nat
  /-- `pre_allocated_rb_table_index_ul`, without a value when it is negative. -/
  preAllocated : Option (Fin 34)

def ueIsToBeScheduled (turn : Turn) (ue : UeUl) : Bool :=
  if 0 < turn.ulFailureTimer then false
  else if 0 < turn.ulOutOfSync then false
  else
    ue.scheduledUlBytes < ue.estimatedUlBuffer || 0 < ue.ulSr ||
      (20 < turn.ulInactivityTimer && ue.ulScheduled == 0) ||
      (10 < turn.ulInactivityTimer && ue.ulScheduled == 0 && !turn.rrcConnected)

/-- The loop that goes down in the table until the blocks behind `firstRb` fit. -/
def fitRb (nRbUl firstRb : Nat) : Nat → Nat
  | 0 => 0
  | i + 1 => if nRbUl < firstRb + rbOf (i + 1) ∨ 45 < rbOf (i + 1) then
      fitRb nRbUl firstRb i else i + 1

/-- Resource blocks `first` to `first + count - 1`. -/
structure RbRange where
  first : Nat
  count : Nat
deriving DecidableEq

def Turn.mcs (turn : Turn) : Nat :=
  match turn.preAllocated with
  | some _ => min turn.preAssignedMcs turn.maxMcs
  | none => 10

/-- The number of resource blocks of a new grant; a power headroom report is asked for where
nothing was allocated before. -/
def Turn.nbRb (nRbUl firstRb : Nat) (turn : Turn) : Nat :=
  match turn.preAllocated with
  | some i => rbOf (fitRb nRbUl firstRb i)
  | none => rbOf (fitRb nRbUl firstRb 5)

/-- A new transmission: the resource blocks are stored for retransmissions. -/
def UeUl.grant (table : TbsTable) (turn : Turn) (range : RbRange) (ue : UeUl) : UeUl :=
  let pid := turn.harqPid
  let tbs := getTbsUl table turn.mcs range.count
  { ue with
    ulSr := 0
    mcsUl := Function.update ue.mcsUl pid turn.mcs
    tbsUl := Function.update ue.tbsUl pid tbs
    nbRbUl := Function.update ue.nbRbUl pid range.count
    firstRbUl := Function.update ue.firstRbUl pid range.first
    ulScheduled := ue.ulScheduled ||| 1#32 <<< pid.val
    scheduledUlBytes := ue.scheduledUlBytes + tbs }

/-- What becomes of a UE, of the first free resource block of the slice, and which resource
blocks are configured. -/
structure Scheduled where
  ue : UeUl
  firstRb : Nat
  range : Option RbRange

/-- The body of the loops of `schedule_ulsch_rnti`; `none` at the assertion. -/
def scheduleUe (table : TbsTable) (nRbUl : Nat) (turn : Turn) (firstRb : Nat)
    (ue : UeUl) : Option Scheduled :=
  if !turn.eligible || turn.cceInfeasible || nRbUl - 1 ≤ firstRb then some ⟨ue, firstRb, none⟩
  else if ¬ ue.roundUl turn.harqPid < 8 then none
  else if ueIsToBeScheduled turn ue || 0 < ue.roundUl turn.harqPid then
    if ue.roundUl turn.harqPid = 0 then
      let range := ⟨firstRb, turn.nbRb nRbUl firstRb⟩
      some ⟨ue.grant table turn range, firstRb + range.count, some range⟩
    else
      -- the stored resource blocks are taken again, wherever the slice has got to
      some ⟨{ ue with ulSr := 0 }, firstRb,
        some ⟨ue.firstRbUl turn.harqPid, ue.nbRbUl turn.harqPid⟩⟩
  else some ⟨ue, firstRb, none⟩

def NewGrant (nRbUl : Nat) (turn : Turn) (firstRb : Nat) (ue : UeUl) : Prop :=
  turn.eligible = true ∧ turn.cceInfeasible = false ∧ firstRb + 1 < nRbUl ∧
    ueIsToBeScheduled turn ue = true ∧
    ue.roundUl turn.harqPid = 0

instance (nRbUl : Nat) (turn : Turn) (firstRb : Nat)
    (ue : UeUl) : Decidable (NewGrant nRbUl turn firstRb ue) :=
  inferInstanceAs (Decidable (_ ∧ _ ∧ _ ∧ _ ∧ _))

/-- A visit leaves the UE alone, repeats the grant of a block that was not received, or makes a
new one. -/
theorem scheduleUe_cases {table : TbsTable} {nRbUl firstRb : Nat} {turn : Turn} {ue : UeUl}
    {result : Scheduled}
    (done : scheduleUe table nRbUl turn firstRb ue = some result) :
    (result = ⟨ue, firstRb, none⟩) ∨
    (firstRb + 1 < nRbUl ∧ ue.roundUl turn.harqPid ≠ 0 ∧
      result = ⟨{ ue with ulSr := 0 }, firstRb,
        some ⟨ue.firstRbUl turn.harqPid, ue.nbRbUl turn.harqPid⟩⟩) ∨
    (NewGrant nRbUl turn firstRb ue ∧
      result = ⟨ue.grant table turn ⟨firstRb, turn.nbRb nRbUl firstRb⟩,
        firstRb + turn.nbRb nRbUl firstRb,
        some ⟨firstRb, turn.nbRb nRbUl firstRb⟩⟩) := by
  rw [scheduleUe] at done
  split at done
  · exact .inl (Option.some.inj done).symm
  · rename_i visited
    simp only [Bool.or_eq_true, Bool.not_eq_true', decide_eq_true_eq, not_or, Nat.not_le,
      Bool.not_eq_false, Bool.not_eq_true] at visited
    obtain ⟨⟨eligible, feasible⟩, free⟩ := visited
    have room : firstRb + 1 < nRbUl := Nat.add_lt_of_lt_sub free
    split at done
    · exact nomatch done
    · split at done
      · rename_i wanted
        split at done
        · rename_i zero
          rw [zero, Bool.or_eq_true] at wanted
          have wanted := wanted.resolve_right (by decide)
          exact .inr (.inr ⟨⟨eligible, feasible, room, wanted, zero⟩, (Option.some.inj done).symm⟩)
        · rename_i later
          exact .inr (.inl ⟨room, later, (Option.some.inj done).symm⟩)
      · exact .inl (Option.some.inj done).symm

theorem scheduleUe_total (table : TbsTable) (nRbUl : Nat) {turn : Turn} (firstRb : Nat) {ue : UeUl}
    (below : ue.roundUl turn.harqPid < 8) : ∃ result, scheduleUe table nRbUl turn firstRb ue =
    some result := by
  rw [scheduleUe]
  split
  · exact ⟨_, rfl⟩
  · split
    · split
      · exact ⟨_, rfl⟩
      · exact ⟨_, rfl⟩
    · exact ⟨_, rfl⟩

end OpenAir.Mac
