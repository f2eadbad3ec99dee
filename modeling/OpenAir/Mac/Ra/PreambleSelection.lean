import Mathlib.Order.Nat

/-! The UE chooses a random-access preamble: `get_prach_resources`, for the first attempt of a
procedure and for its retransmissions. -/
namespace OpenAir.Mac.Ra.PreambleSelection

/-- `preamblesGroupAConfig`, enumerated values: `n4` to `n60` for the size. -/
structure GroupAConfig where
  sizeOfRaPreamblesGroupA : Fin 15
  messageSizeGroupA : Fin 4
  messagePowerOffsetGroupB : Fin 8

/-- An entry of `tdd_preamble_map`. -/
structure TddPreambleMap where
  numPrach : UInt8
  fRa : UInt8 → UInt8

structure Config where
  /-- `n4` to `n64` -/
  numberOfRaPreambles : Fin 16
  preamblesGroupAConfig : Option GroupAConfig
  preambleInitialReceivedTargetPower : Fin 16
  prachConfigIndex : Fin 64
  /-- Without a value under FDD. -/
  tdd : Option TddPreambleMap

/-- The fields of a UE that the choice reads and writes. -/
structure Ue where
  raMsg3Size : UInt8
  raPreambleIndex : UInt8
  raRachMaskIndex : UInt8
  raPreambleReceivedTargetPower : Int
  raTddMapIndex : UInt8
  raRnti : UInt16
  raUsedGroupA : UInt8

/-- What a call gets from outside: two values of `taus` and the path loss. -/
structure Call where
  preambleDraw : UInt32
  prachDraw : UInt32
  pl : Int
  tId : UInt8

structure Dedicated where
  raPreambleIndex : UInt8
  raPrachMaskIndex : UInt8

def Config.preambles (config : Config) : Nat := (1 + config.numberOfRaPreambles.val) <<< 2

def GroupAConfig.size (group : GroupAConfig) : Nat := (group.sizeOfRaPreamblesGroupA.val + 1) <<< 2

def messageSizes : List Int := [56, 144, 208, 256]

def messagePowerOffsets : List Int := [-9999, 0, 5, 8, 10, 12, 15, 18]

def preambleformat (tdd : Bool) (prachConfigIndex : Nat) : Nat :=
  if tdd then
    if prachConfigIndex < 20 then 0
    else if prachConfigIndex < 30 then 1
    else if prachConfigIndex < 40 then 2
    else if prachConfigIndex < 48 then 3
    else 4
  else prachConfigIndex >>> 2

/-- `get_DELTA_PREAMBLE`; an illegal preamble format stops the program. -/
def getDeltaPreamble (config : Config) : Option Int :=
  match preambleformat config.tdd.isSome config.prachConfigIndex.val with
  | 0 | 1 => some 0
  | 2 | 3 => some (-3)
  | 4 => some 8
  | _ => none

def getPoNominalPusch (config : Config) : Option Int :=
  (getDeltaPreamble config).map
    fun delta => -120 + (config.preambleInitialReceivedTargetPower.val <<< 1 : Nat) + delta

/-- `x % y` on `unsigned int`; no value for a zero `y`. -/
def remainder (x : UInt32) (y : Nat) : Option Nat := if y = 0 then none else some (x.toNat % y)

def Config.noGroupB (config : Config) : Bool :=
  match config.preamblesGroupAConfig with
  | none => true
  | some group => group.size = config.preambles

/-- The test of the group B branch, with `PLThreshold`. -/
def belowGroupB (group : GroupAConfig) (delta po : Int) (ue : Ue) (call : Call) : Bool :=
  (ue.raMsg3Size.toNat : Int) < messageSizes.getD group.messageSizeGroupA.val (-1) ||
    call.pl > 0 - delta - po - messagePowerOffsets.getD group.messagePowerOffsetGroupB.val (-9999)

def Ue.choose (ue : Ue) (index : Nat) : Ue :=
  { ue with raPreambleIndex := UInt8.ofNat index, raRachMaskIndex := 0 }

/-- The first attempt; the sizes are `int`, the remainder unsigned. -/
def firstAttempt (config : Config) (ue : Ue) (call : Call) : Option Ue := do
  let delta ← getDeltaPreamble config
  let po ← getPoNominalPusch config
  let chosen ← match config.preamblesGroupAConfig with
    | none => (remainder call.preambleDraw config.preambles).map fun index =>
        { ue.choose index with raUsedGroupA := 1 }
    | some group =>
      if config.noGroupB then
        (remainder call.preambleDraw config.preambles).map
          fun index => { ue.choose index with raUsedGroupA := 1 }
      else if belowGroupB group delta po ue call then
        (remainder call.preambleDraw group.size).map
          fun index => { ue.choose index with raUsedGroupA := 1 }
      else
        (remainder call.preambleDraw ((config.preambles - group.size : Int) % 4294967296).toNat).map
          fun index =>
            { ue.choose (group.size + index) with raUsedGroupA := 0 }
  some { chosen with raPreambleReceivedTargetPower := po }

/-- The retransmission takes the enumerated values as they are, in 64 bits. -/
def retransmission (config : Config) (ue : Ue) (call : Call) : Option Ue :=
  match config.preamblesGroupAConfig with
  | none => if ue.raUsedGroupA = 1 then
      some (ue.choose (call.preambleDraw.toNat &&& 0x3f)) else none
  | some group => do
    let _ ← getPoNominalPusch config
    if ue.raUsedGroupA = 1 then
      (remainder call.preambleDraw group.sizeOfRaPreamblesGroupA.val).map ue.choose
    else
      (remainder call.preambleDraw
        ((config.numberOfRaPreambles.val : Int) - group.sizeOfRaPreamblesGroupA.val).natAbs).map
          fun index =>
            ue.choose (group.sizeOfRaPreamblesGroupA.val + index)

/-- The PRACH resource and the RA-RNTI. -/
def prachResource (config : Config) (ue : Ue) (call : Call) : Ue :=
  match config.tdd with
  | none => { ue with raRnti := 1 + call.tId.toUInt16 }
  | some map =>
    let raTddMapIndex := if 0 < map.numPrach ∧ map.numPrach < 6
      then (call.prachDraw % map.numPrach.toUInt32).toUInt8 else ue.raTddMapIndex
    { ue with raTddMapIndex, raRnti := 1 + call.tId.toUInt16 + 10 * (map.fRa
      raTddMapIndex).toUInt16 }

/-- `get_prach_resources`; no value where the program stops: a remainder by zero, a null group or an
illegal format. -/
def getPrachResources (config : Config) (firstMsg3 : Bool) (dedicated : Option Dedicated) (ue : Ue)
    (call : Call) :
    Option Ue :=
  match dedicated.filter fun d => d.raPrachMaskIndex ≠ 0 with
  | some d => some
      { ue with raPreambleIndex := d.raPreambleIndex, raRachMaskIndex := d.raPrachMaskIndex }
  | none => ((if firstMsg3 then firstAttempt else retransmission) config ue call).map
      fun ue => prachResource config ue call

def retransmissions (config : Config) (ue : Ue) : List Call → Option (List Ue)
  | [] => some []
  | call :: rest => do
    let ue ← getPrachResources config false none ue call
    let later ← retransmissions config ue rest
    some (ue :: later)

/-- The UE after each attempt of a procedure, which `ue_get_rach` makes without a dedicated
preamble. -/
def procedure (config : Config) (ue : Ue) (first : Call) (rest : List Call) : Option (List Ue) := do
  let ue ← getPrachResources config true none ue first
  let later ← retransmissions config ue rest
  some (ue :: later)

/-! ### The groups -/

/-- The preambles of group A; all of them where no group is configured. -/
def Config.sizeA (config : Config) : Nat :=
  match config.preamblesGroupAConfig with
  | none => config.preambles
  | some group => group.size

def InGroup (config : Config) (usedGroupA : UInt8) (index : Nat) : Prop :=
  if usedGroupA = 1 then index < config.sizeA else config.sizeA ≤ index ∧ index < config.preambles

def Config.KnownFormat (config : Config) : Prop := config.tdd.isSome = true ∨
    config.prachConfigIndex.val < 20

/-- The first attempt takes group A. -/
def selectsA (config : Config) (ue : Ue) (first : Call) : Bool :=
  config.noGroupB || match config.preamblesGroupAConfig, getDeltaPreamble config,
      getPoNominalPusch config with
    | some group, some delta, some po => belowGroupB group delta po ue first
    | _, _, _ => false

/-- The draws that keep a retransmission in its group. -/
def KeepsGroup (config : Config) (usedGroupA : UInt8) (call : Call) : Prop :=
  match config.preamblesGroupAConfig with
  | none => usedGroupA = 1 ∧ call.preambleDraw.toNat % 64 < config.preambles
  | some group =>
    if usedGroupA = 1 then group.sizeOfRaPreamblesGroupA.val ≠ 0
    else group.size ≤ group.sizeOfRaPreamblesGroupA.val +
      call.preambleDraw.toNat % (config.numberOfRaPreambles.val - group.sizeOfRaPreamblesGroupA.val)

section
variable {config : Config} {ue : Ue} {call : Call}

theorem preambles_eq (config : Config) :
    config.preambles = 4 * (config.numberOfRaPreambles.val + 1) := by
  rw [Config.preambles, Nat.shiftLeft_eq, Nat.mul_comm, Nat.add_comm 1]

theorem size_eq (group : GroupAConfig) :
    group.size = 4 * (group.sizeOfRaPreamblesGroupA.val + 1) := by
  rw [GroupAConfig.size, Nat.shiftLeft_eq, Nat.mul_comm]

theorem preambles_le (config : Config) : 4 ≤ config.preambles ∧ config.preambles ≤ 64 := by
  have bound := config.numberOfRaPreambles.isLt
  rw [preambles_eq]
  omega

theorem size_le (group : GroupAConfig) : 4 ≤ group.size ∧ group.size ≤ 60 := by
  have bound := group.sizeOfRaPreamblesGroupA.isLt
  rw [size_eq]
  omega

theorem preambleformat_le (tdd : Bool) (index : Nat) : preambleformat tdd index ≤ 4 ↔
    tdd = true ∨ index < 20 := by
  cases tdd with
  | true =>
    refine iff_of_true ?_ (.inl rfl)
    rw [preambleformat, if_pos rfl]
    split_ifs <;> decide
  | false =>
    rw [preambleformat, if_neg Bool.false_ne_true, Nat.shiftRight_eq_div_pow,
      or_iff_right Bool.false_ne_true]
    omega

theorem delta_some_iff (config : Config) : (∃ delta, getDeltaPreamble config = some delta) ↔
    config.KnownFormat := by
  rw [Config.KnownFormat, ← preambleformat_le, getDeltaPreamble]
  split
  · next zero => exact iff_of_true ⟨_, rfl⟩ ((Nat.le_of_eq zero).trans (by decide))
  · next one => exact iff_of_true ⟨_, rfl⟩ ((Nat.le_of_eq one).trans (by decide))
  · next two => exact iff_of_true ⟨_, rfl⟩ ((Nat.le_of_eq two).trans (by decide))
  · next three => exact iff_of_true ⟨_, rfl⟩ ((Nat.le_of_eq three).trans (by decide))
  · next four => exact iff_of_true ⟨_, rfl⟩ (Nat.le_of_eq four)
  · next not0 not1 not2 not3 not4 =>
    refine iff_of_false (fun ⟨_, found⟩ => by cases found) fun small => ?_
    have none : ∀ format ≤ 4, format = 0 ∨ format = 1 ∨ format = 2 ∨ format = 3 ∨
      format = 4 := by decide
    rcases none _ small with here | here | here | here | here
    · exact not0 here
    · exact not1 here
    · exact not2 here
    · exact not3 here
    · exact not4 here

theorem po_some {delta : Int} (known : getDeltaPreamble config = some delta) :
    ∃ po, getPoNominalPusch config = some po := by
  rw [getPoNominalPusch, known]
  exact ⟨_, rfl⟩

theorem prachResource_used : (prachResource config ue call).raUsedGroupA = ue.raUsedGroupA := by
  rw [prachResource]
  split <;> rfl

theorem prachResource_index : (prachResource config ue call).raPreambleIndex =
    ue.raPreambleIndex := by
  rw [prachResource]
  split <;> rfl

theorem choose_index {index : Nat} (small : index < 256) :
    (ue.choose index).raPreambleIndex.toNat = index := by
  rw [Ue.choose, UInt8.toNat_ofNat', Nat.mod_eq_of_lt small]

theorem remainder_some {x : UInt32} {y : Nat} (positive : 0 < y) :
    remainder x y = some (x.toNat % y) := if_neg (Nat.ne_of_gt positive)

/-- The first attempt ends in the group it selects, if that group has a preamble. -/
theorem first_spec (known : config.KnownFormat) :
    ∃ after, getPrachResources config true none ue call = some after ∧
      after.raUsedGroupA = (if selectsA config ue call then 1 else 0) ∧
      (InGroup config after.raUsedGroupA after.raPreambleIndex.toNat ↔
        (selectsA config ue call = false → config.sizeA < config.preambles)) := by
  obtain ⟨delta, deltaKnown⟩ := (delta_some_iff config).mpr known
  obtain ⟨po, poKnown⟩ := po_some deltaKnown
  have all := preambles_le config
  have inA : ∀ size : Nat, 0 < size → size ≤ 64 → size ≤ config.sizeA →
      InGroup config 1 (ue.choose (call.preambleDraw.toNat % size)).raPreambleIndex.toNat := by
    intro size positive small inside
    have below := Nat.mod_lt call.preambleDraw.toNat positive
    rw [choose_index (below.trans_le (small.trans (by decide))), InGroup, if_pos rfl]
    exact below.trans_le inside
  rw [getPrachResources]
  simp only [Option.filter_none, if_true, firstAttempt, deltaKnown, poKnown, Option.bind_eq_bind,
    Option.bind_some]
  cases groups : config.preamblesGroupAConfig with
  | none =>
    have selected : selectsA config ue call = true := by
      rw [selectsA, Config.noGroupB, groups, Bool.true_or]
    have size : config.sizeA = config.preambles := by rw [Config.sizeA, groups]
    simp only [remainder_some (show 0 < config.preambles by omega), Option.map_some,
      Option.bind_some, selected, if_true]
    refine ⟨_, rfl, prachResource_used, ?_⟩
    rw [prachResource_used, prachResource_index]
    exact iff_of_true (inA _ (by omega) (by omega) size.ge) fun no => Bool.noConfusion no
  | some group =>
    have bounds := size_le group
    have size : config.sizeA = group.size := by rw [Config.sizeA, groups]
    have selects : selectsA config ue call =
        (config.noGroupB || belowGroupB group delta po ue call) := by
      rw [selectsA, groups, deltaKnown, poKnown]
    dsimp only
    by_cases alone : config.noGroupB = true
    · have equal : group.size = config.preambles := by
        rw [Config.noGroupB, groups] at alone
        exact of_decide_eq_true alone
      have selected : selectsA config ue call = true := by rw [selects, alone, Bool.true_or]
      simp only [alone, if_true, remainder_some (show 0 < config.preambles by omega),
        Option.map_some, Option.bind_some, selected]
      refine ⟨_, rfl, prachResource_used, ?_⟩
      rw [prachResource_used, prachResource_index]
      exact iff_of_true (inA _ (by omega) (by omega) (by omega)) fun no => Bool.noConfusion no
    · have differ : group.size ≠ config.preambles := by
        rw [Config.noGroupB, groups] at alone
        exact fun equal => alone (decide_eq_true equal)
      rw [Bool.not_eq_true] at alone
      by_cases below : belowGroupB group delta po ue call = true
      · have selected : selectsA config ue call = true := by rw [selects, below, Bool.or_true]
        simp only [alone, Bool.false_eq_true, if_false, below, if_true,
          remainder_some (show 0 < group.size by omega), Option.map_some,
            Option.bind_some, selected]
        refine ⟨_, rfl, prachResource_used, ?_⟩
        rw [prachResource_used, prachResource_index]
        exact iff_of_true (inA _ (by omega) (by omega) size.ge) fun no => Bool.noConfusion no
      · rw [Bool.not_eq_true] at below
        have selected : selectsA config ue call = false := by
          rw [selects, alone, below, Bool.or_false]
        have modulus : 0 < (((config.preambles : Int) - group.size) % 4294967296).toNat := by omega
        simp only [alone, Bool.false_eq_true, if_false, below, remainder_some modulus,
          Option.map_some, Option.bind_some, selected]
        refine ⟨_, rfl, prachResource_used, ?_⟩
        rw [prachResource_used, prachResource_index]
        refine (iff_of_eq (if_neg (show ¬ (0 : UInt8) = 1 by decide))).trans ?_
        rw [size]
        refine ⟨fun inB _ => by omega, fun room => ?_⟩
        have fits := room trivial
        have exact_ : (((config.preambles : Int) - group.size) % 4294967296).toNat =
          config.preambles - group.size := by omega
        rw [exact_]
        have inside := Nat.mod_lt call.preambleDraw.toNat (Nat.sub_pos_of_lt fits)
        show group.size ≤ (ue.choose (group.size + _)).raPreambleIndex.toNat ∧
          (ue.choose (group.size + _)).raPreambleIndex.toNat < _
        rw [choose_index (by omega)]
        omega

theorem retransmission_used {after : Ue}
    (sent : getPrachResources config false none ue call = some after) :
    after.raUsedGroupA = ue.raUsedGroupA := by
  rw [getPrachResources] at sent
  simp only [Option.filter_none, Bool.false_eq_true, if_false] at sent
  obtain ⟨chosen, done, rfl⟩ := Option.map_eq_some_iff.mp sent
  rw [prachResource_used]
  unfold retransmission at done
  cases groups : config.preamblesGroupAConfig with
  | none =>
    rw [groups] at done
    dsimp only at done
    split at done
    · cases done
      rfl
    · cases done
  | some group =>
    rw [groups] at done
    obtain ⟨po, -, done⟩ := Option.bind_eq_some_iff.mp done
    split at done
    · obtain ⟨index, -, rfl⟩ := Option.map_eq_some_iff.mp done
      rfl
    · obtain ⟨index, -, rfl⟩ := Option.map_eq_some_iff.mp done
      rfl

/-- A retransmission stays in its group exactly when its draw allows. -/
theorem retransmission_spec (known : config.KnownFormat)
    (room : ue.raUsedGroupA ≠ 1 → config.sizeA < config.preambles) :
    (∃ after, getPrachResources config false none ue call = some after ∧
      InGroup config ue.raUsedGroupA after.raPreambleIndex.toNat) ↔
      KeepsGroup config ue.raUsedGroupA call := by
  obtain ⟨delta, deltaKnown⟩ := (delta_some_iff config).mpr known
  obtain ⟨po, poKnown⟩ := po_some deltaKnown
  have numberBound := config.numberOfRaPreambles.isLt
  have all := preambles_eq config
  have found : ∀ (index : Nat), index < 256 →
    (retransmission config ue call = some (ue.choose index)) →
      ((∃ after, getPrachResources config false none ue call = some after ∧
        InGroup config ue.raUsedGroupA after.raPreambleIndex.toNat) ↔
            InGroup config ue.raUsedGroupA index) := by
    intro index small sent
    rw [getPrachResources]
    simp only [Option.filter_none, Bool.false_eq_true, if_false, sent, Option.map_some,
      Option.some.injEq, exists_eq_left', prachResource_index, choose_index small]
  have lost : retransmission config ue call = none →
      ¬ ∃ after, getPrachResources config false none ue call = some after ∧
        InGroup config ue.raUsedGroupA after.raPreambleIndex.toNat := by
    rintro stops ⟨after, sent, -⟩
    rw [getPrachResources] at sent
    simp only [Option.filter_none, Bool.false_eq_true, if_false, stops, Option.map_none,
      reduceCtorEq] at sent
  cases groups : config.preamblesGroupAConfig with
  | none =>
    have size : config.sizeA = config.preambles := by rw [Config.sizeA, groups]
    rw [KeepsGroup, groups]
    by_cases used : ue.raUsedGroupA = 1
    · have sent : retransmission config ue call =
          some (ue.choose (call.preambleDraw.toNat &&& 0x3f)) := by
        rw [retransmission, groups]
        exact if_pos used
      have masked : call.preambleDraw.toNat &&& 0x3f = call.preambleDraw.toNat % 64 :=
        Nat.and_two_pow_sub_one_eq_mod _ 6
      rw [masked] at sent
      have small : call.preambleDraw.toNat % 64 < 256 := by omega
      rw [found _ small sent, InGroup, if_pos used, size]
      exact (and_iff_right used).symm
    · exact absurd (room used) (by omega)
  | some group =>
    have sizeBound := group.sizeOfRaPreamblesGroupA.isLt
    have scaled := size_eq group
    have size : config.sizeA = group.size := by rw [Config.sizeA, groups]
    rw [KeepsGroup, groups]
    dsimp only
    by_cases used : ue.raUsedGroupA = 1
    · rw [if_pos used]
      by_cases zero : group.sizeOfRaPreamblesGroupA.val = 0
      · refine iff_of_false (lost ?_) (fun differ => differ zero)
        rw [retransmission, groups]
        simp only [poKnown, Option.bind_eq_bind, Option.bind_some, used, if_true, zero, remainder,
          Option.map_none]
      · have positive := Nat.pos_of_ne_zero zero
        have below := Nat.mod_lt call.preambleDraw.toNat positive
        have sent : retransmission config ue call =
            some (ue.choose (call.preambleDraw.toNat % group.sizeOfRaPreamblesGroupA.val)) := by
          rw [retransmission, groups]
          simp only [poKnown, Option.bind_eq_bind, Option.bind_some, used, if_true,
            remainder_some positive, Option.map_some]
        have small : call.preambleDraw.toNat % group.sizeOfRaPreamblesGroupA.val < 256 := by omega
        rw [found _ small sent, InGroup, if_pos used, size]
        exact iff_of_true (by omega) zero
    · have fits := room used
      have modulus :
        ((config.numberOfRaPreambles.val : Int) - group.sizeOfRaPreamblesGroupA.val).natAbs =
          config.numberOfRaPreambles.val - group.sizeOfRaPreamblesGroupA.val := by omega
      have positive : 0 < config.numberOfRaPreambles.val - group.sizeOfRaPreamblesGroupA.val := by
        omega
      have below := Nat.mod_lt call.preambleDraw.toNat positive
      have sent : retransmission config ue call =
        some (ue.choose (group.sizeOfRaPreamblesGroupA.val +
          call.preambleDraw.toNat %
              (config.numberOfRaPreambles.val - group.sizeOfRaPreamblesGroupA.val))) := by
        rw [retransmission, groups]
        simp only [poKnown, Option.bind_eq_bind, Option.bind_some, used, if_false, modulus,
          remainder_some positive, Option.map_some]
      rw [if_neg used]
      generalize call.preambleDraw.toNat %
        (config.numberOfRaPreambles.val - group.sizeOfRaPreamblesGroupA.val) = r at *
      rw [found _ (by omega) sent, InGroup, if_neg used, size]
      exact ⟨fun inB => inB.1, fun inB => ⟨inB, by omega⟩⟩

theorem retransmissions_spec (known : config.KnownFormat) (rest : List Call)
    (room : ue.raUsedGroupA ≠ 1 → config.sizeA < config.preambles) :
    (∃ states, retransmissions config ue rest = some states ∧
      ∀ s ∈ states, s.raUsedGroupA = ue.raUsedGroupA ∧
        InGroup config ue.raUsedGroupA s.raPreambleIndex.toNat) ↔
      ∀ call ∈ rest, KeepsGroup config ue.raUsedGroupA call := by
  induction rest generalizing ue with
  | nil =>
    exact iff_of_true ⟨[], rfl, fun s member => absurd member List.not_mem_nil⟩
      fun call member => absurd member List.not_mem_nil
  | cons call rest ih =>
    rw [List.forall_mem_cons, ← retransmission_spec known room]
    constructor
    · rintro ⟨states, sent, stays⟩
      obtain ⟨after, first, sent⟩ := Option.bind_eq_some_iff.mp sent
      obtain ⟨later, second, sent⟩ := Option.bind_eq_some_iff.mp sent
      cases sent
      have same := retransmission_used first
      have here := stays after List.mem_cons_self
      refine ⟨⟨after, first, here.2⟩, ?_⟩
      rw [← same]
      refine (ih (same ▸ room)).mp ⟨later, second, fun s member => ?_⟩
      rw [same]
      exact stays s (List.mem_cons_of_mem _ member)
    · rintro ⟨⟨after, first, inside⟩, keeps⟩
      have same := retransmission_used first
      rw [← same] at keeps
      obtain ⟨later, second, stays⟩ := (ih (same ▸ room)).mpr keeps
      rw [same] at stays
      refine ⟨after :: later, ?_, ?_⟩
      · rw [retransmissions, first, Option.bind_eq_bind, Option.bind_some, second]
        rfl
      · exact List.forall_mem_cons.mpr ⟨⟨same, inside⟩, stays⟩

end

/-- Every attempt of a procedure takes a preamble of the group the first attempt selected exactly
when the format is known, group B has preambles if it is selected, and every retransmission's draw
keeps it in the group. -/
theorem attempts_in_group (config : Config) (ue : Ue) (first : Call) (rest : List Call) :
    (∃ states, procedure config ue first rest = some states ∧ ∃ usedGroupA, ∀ s ∈ states,
      s.raUsedGroupA = usedGroupA ∧ InGroup config usedGroupA s.raPreambleIndex.toNat) ↔
      config.KnownFormat ∧ (selectsA config ue first = false → config.sizeA < config.preambles) ∧
        ∀ call ∈ rest, KeepsGroup config (if selectsA config ue first then 1 else 0) call := by
  by_cases known : config.KnownFormat
  · obtain ⟨after, sent, used, inGroup⟩ := (@first_spec _ ue first) known
    rw [and_iff_right known, ← inGroup, ← used]
    have begins : procedure config ue first rest = (retransmissions config after rest).map
        (after :: ·) := by
      rw [procedure, sent, Option.bind_eq_bind, Option.bind_some]
      cases retransmissions config after rest <;> rfl
    have roomy : InGroup config after.raUsedGroupA after.raPreambleIndex.toNat →
        after.raUsedGroupA ≠ 1 → config.sizeA < config.preambles := by
      intro inside notA
      rw [InGroup, if_neg notA] at inside
      exact inside.1.trans_lt inside.2
    constructor
    · rintro ⟨states, ran, group, stays⟩
      rw [begins] at ran
      obtain ⟨later, followed, rfl⟩ := Option.map_eq_some_iff.mp ran
      obtain ⟨⟨same, inside⟩, others⟩ := List.forall_mem_cons.mp stays
      subst same
      exact ⟨inside, (retransmissions_spec known rest (roomy inside)).mp ⟨later, followed, others⟩⟩
    · rintro ⟨inside, keeps⟩
      obtain ⟨later, followed, others⟩ := (retransmissions_spec known rest (roomy inside)).mpr keeps
      refine ⟨after :: later, ?_, after.raUsedGroupA,
        List.forall_mem_cons.mpr ⟨⟨rfl, inside⟩, others⟩⟩
      rw [begins, followed, Option.map_some]
  · refine iff_of_false ?_ fun both => known both.1
    rintro ⟨states, ran, -⟩
    have stops : getDeltaPreamble config = none := by
      rw [Option.eq_none_iff_forall_ne_some]
      exact fun delta found => known ((delta_some_iff config).mp ⟨delta, found⟩)
    rw [procedure, getPrachResources] at ran
    simp only [Option.filter_none, if_true, firstAttempt, stops, Option.bind_eq_bind,
      Option.bind_none, Option.map_none, reduceCtorEq] at ran

/-- A group A of four preambles, the smallest the type allows: the second attempt divides by
zero. -/
theorem retransmission_divides_by_zero : ¬ ∀ (config : Config) (ue : Ue) (first : Call)
    (rest : List Call),
    ∃ states, procedure config ue first rest = some states ∧ ∃ usedGroupA, ∀ s ∈ states,
      s.raUsedGroupA = usedGroupA ∧ InGroup config usedGroupA s.raPreambleIndex.toNat := by
  intro always
  let config : Config := ⟨15, some ⟨0, 0, 0⟩, 0, 0, none⟩
  let call : Call := ⟨7, 0, 100, 1⟩
  obtain ⟨states, ran, -⟩ := always config ⟨6, 0, 0, 0, 0, 0, 0⟩ call [call]
  have stops : (procedure config ⟨6, 0, 0, 0, 0, 0, 0⟩ call [call]).isNone =
    true := by decide +kernel
  rw [ran] at stops
  cases stops

end OpenAir.Mac.Ra.PreambleSelection
