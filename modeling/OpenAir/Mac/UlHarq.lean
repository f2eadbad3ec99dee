import Mathlib.Algebra.BigOperators.Fin
import Mathlib.Algebra.Order.BigOperators.Group.Finset
import OpenAir.Lib.Run
import OpenAir.Mac.Pdu.UlHeader
import OpenAir.Mac.UlGrant

/-! Uplink receptions: what `rx_sdu` does to the HARQ processes and buffer estimates of the UEs,
between grants. A C-RNTI element hands the rest of a block over to another UE. -/
namespace OpenAir.Mac
open BitField (Memory)
open Pdu (UlCe parseUlschHeader rxCes)

def bsrTable : List UInt32 :=
  [0, 10, 12, 14, 17, 19, 22, 26, 31, 36, 42, 49, 57, 67, 78, 91, 105, 125, 146, 171, 200, 234, 274,
   321, 376, 440, 515, 603, 706, 826, 967, 1132, 1326, 1552, 1817, 2127, 2490, 2915, 3413, 3995,
   4677, 5467, 6411, 7505, 8787, 10287, 12043, 14099, 16507, 19325, 22624, 26487, 31009, 36304,
   42502, 49759, 58255, 68201, 79846, 93479, 109439, 128125, 150000, 300000]

/-- `BSR_TABLE[bsr]` -/
def bsrOf (bsr : Nat) : UInt32 := bsrTable.getD bsr 0

/-- The sum is one of `uint32_t`, stored in an `int`. -/
def UeUl.estimate (ue : UeUl) : UeUl :=
  let info := ue.ulBufferInfo
  { ue with estimatedUlBuffer := (info 0 + info 1 + info 2 + info 3).toInt32.toInt }

def UeUl.shortBsr (ue : UeUl) (lcgid bsr : Nat) : UeUl :=
  { ue with ulBufferInfo := Function.update ue.ulBufferInfo lcgid (bsrOf bsr) }.estimate

def UeUl.longBsr (ue : UeUl) (bsr0 bsr1 bsr2 bsr3 : Nat) : UeUl :=
  let info := Function.update ue.ulBufferInfo 0 (bsrOf bsr0)
  let info := Function.update info 1 (bsrOf bsr1)
  let info := Function.update info 2 (bsrOf bsr2)
  { ue with ulBufferInfo := Function.update info 3 (bsrOf bsr3) }.estimate

/-- The bytes of an SDU leave the group of its channel. -/
def UeUl.taken (ue : UeUl) (lcgid length : Nat) : UeUl :=
  let info := ue.ulBufferInfo lcgid
  let left := if UInt32.ofNat length ≤ info then info - UInt32.ofNat length else 0
  { ue with ulBufferInfo := Function.update ue.ulBufferInfo lcgid left }.estimate

/-- `ul_scheduled &= ~(1 << harq_pid)`, and the bytes are no longer scheduled. -/
def UeUl.unschedule (ue : UeUl) (pid : Fin 8) : UeUl :=
  let left := ue.scheduledUlBytes - ue.tbsUl pid
  { ue with
    ulScheduled := ue.ulScheduled &&& ~~~(1#32 <<< pid.val)
    scheduledUlBytes := if left < 0 then 0 else left }

def UeUl.setRound (ue : UeUl) (pid : Fin 8) (round : UInt8) : UeUl :=
  { ue with roundUl := Function.update ue.roundUl pid round }

def UeUl.failed (ue : UeUl) (pid : Fin 8) : UeUl :=
  if ue.roundUl pid = 3 then (ue.unschedule pid).setRound pid 0
  else ue.setRound pid (ue.roundUl pid + 1)

structure RaProc where
  rnti : Nat
  idle : Bool

def RaProc.active (rnti : Nat) (ra : RaProc) : Bool := ra.rnti == rnti && !ra.idle

def cancelRaProc (rnti : Nat) (ras : List RaProc) : List RaProc :=
  ras.map fun ra => if ra.rnti = rnti then ⟨0, true⟩ else ra

/-- The first active process of an RNTI goes over to another RNTI. -/
def handOver (rnti other : Nat) : List RaProc → List RaProc
  | [] => []
  | ra :: rest => if ra.active rnti then { ra with rnti := other } :: rest
      else ra :: handOver rnti other rest

/-- The variables of `rx_sdu` while it goes through a block. -/
structure Rx where
  ues : Nat → UeUl
  ueId : Option Nat
  currentRnti : Nat
  ras : List RaProc
  lcgidUpdated : Nat → Bool

/-- Changes the UE at hand, if it is known. -/
def Rx.modify (s : Rx) (change : UeUl → UeUl) : Rx :=
  match s.ueId with
  | none => s
  | some id => { s with ues := Function.update s.ues id (change (s.ues id)) }

/-- The groups that a report has told about. -/
def Rx.mark (s : Rx) (groups : List Nat) : Rx :=
  if s.ueId.isSome then
    { s with lcgidUpdated := fun g => s.lcgidUpdated g || groups.contains g } else s

/-- One round of the loop over the control elements. -/
def Rx.element (findUeId : Nat → Option Nat) (s : Rx) : UlCe → Rx
  | .powerHeadroom _ => s
  | .crnti rnti =>
    match findUeId rnti with
    | some old =>
      if s.ras.any (RaProc.active s.currentRnti) then
        { s with ueId := some old, currentRnti := rnti, ras := handOver s.currentRnti rnti s.ras }
      else s
    | none => { s with ras := cancelRaProc s.currentRnti s.ras }
  | .truncatedBsr lcgid bsr => (s.mark [lcgid]).modify fun ue => ue.shortBsr lcgid bsr
  | .shortBsr lcgid bsr => (s.mark [lcgid]).modify fun ue => ue.shortBsr lcgid bsr
  | .longBsr bsr0 bsr1 bsr2 bsr3 => (s.mark [0, 1, 2, 3]).modify
      fun ue => ue.longBsr bsr0 bsr1 bsr2 bsr3

/-- Msg3 of a UE that is not known yet. -/
def Rx.ccch (addNewUe : Option Nat) (s : Rx) : Rx :=
  if s.ueId.isNone && s.ras.any (RaProc.active s.currentRnti) then
    match addNewUe with
    | none => { s with ras := cancelRaProc s.currentRnti s.ras }
    | some id => { s with ues := Function.update s.ues id .fresh, ueId := some id }
  else s

/-- One round of the loop over the SDUs; `none` where `lcgidmap` is read behind its end. -/
def Rx.sdu (addNewUe : Option Nat) (s : Rx) (sdu : Nat × Nat) : Option Rx :=
  if sdu.1 = 0 then some (if 128 < sdu.2 then s else s.ccch addNewUe)
  else if sdu.1 < Pdu.nbRbMax then
    match s.ueId with
    | none => some s
    | some id =>
      if sdu.1 < 11 then
        let lcgid := (s.ues id).lcgidmap sdu.1
        some (if s.lcgidUpdated lcgid then s else s.modify fun ue => ue.taken lcgid sdu.2)
      else none
  else some s

/-- A call of `rx_sdu`, with what it finds in the list of UEs and the random access processes. -/
structure Reception where
  rnti : Nat
  harqPid : Fin 8
  /-- `sduP` and `sdu_lenP`, without a value when the block was not decoded. -/
  block : Option (Memory × Nat)
  /-- Rounds granted to the parser. -/
  rounds : Nat
  findUeId : Nat → Option Nat
  ras : List RaProc
  /-- The result of `add_new_ue`. -/
  addNewUe : Option Nat

def Reception.parsed (r : Reception) (block : Memory × Nat) : Pdu.ParseEnd :=
  parseUlschHeader block.1 block.2 r.rounds

/-- From the call of the parser on. A refused header leaves the round as it is; without a UE the
round that is set is one of no UE. -/
def rxBlock (ues : Nat → UeUl) (ueId : Option Nat) (r : Reception) (block : Memory × Nat) :
    Option (Nat → UeUl) :=
  match r.parsed block with
  | .running => none
  | .overflow => none
  | .refused _ => some ues
  | .accepted read =>
    let start : Rx := ⟨ues, ueId, r.rnti, r.ras, fun _ => false⟩
    let s := start.modify fun ue => ue.setRound r.harqPid 0
    let s := (rxCes block.1 read.ptr read.ces).1.foldl (Rx.element r.findUeId) s
    (read.sdus.foldlM (Rx.sdu r.addNewUe) s).map Rx.ues

/-- `none` at the assertion, or where memory behind an array is used. -/
def rxSdu (ues : Nat → UeUl) (r : Reception) : Option (Nat → UeUl) :=
  match r.findUeId r.rnti with
  | some id =>
    if (ues id).roundUl r.harqPid < 8 then
      match r.block with
      | some block => rxBlock (Function.update ues id ((ues id).unschedule r.harqPid))
          (some id) r block
      | none => some (Function.update ues id ((ues id).failed r.harqPid))
    else none
  | none =>
    match r.block with
    | some block => if r.ras.any (RaProc.active r.rnti) then rxBlock ues none r block else some ues
    | none => some ues

inductive UlEvent where
  | schedule (id : Nat) (nRbUl : Nat) (turn : Turn) (firstRb : Nat)
  | reception (r : Reception)

def ulStep (table : TbsTable) (ues : Nat → UeUl) : UlEvent → Option (Nat → UeUl)
  | .schedule id nRbUl turn firstRb =>
    (scheduleUe table nRbUl turn firstRb (ues id)).map
      fun result => Function.update ues id result.ue
  | .reception r => rxSdu ues r

/-- The bytes that are scheduled for a process. -/
def UeUl.due (ue : UeUl) (pid : Fin 8) : Int := if ue.scheduled pid then ue.tbsUl pid else 0

/-- The books of a UE balance; the sums are of integers. -/
structure UeUl.Booked (ue : UeUl) : Prop where
  waits : ∀ pid, 0 < ue.roundUl pid → ue.scheduled pid = true
  bytes : ue.scheduledUlBytes = ∑ pid, ue.due pid
  buffers : ue.estimatedUlBuffer = ∑ g ∈ Finset.range 4, ((ue.ulBufferInfo g).toNat : Int)
  rounds : ∀ pid, ue.roundUl pid ≤ 3
  sizes : ∀ pid, ue.tbsUl pid ≤ 9422
  reported : ∀ g, (ue.ulBufferInfo g).toNat ≤ 300000

/-- The totals keep far from the ends of an `int`. -/
structure UeUl.InRange (ue : UeUl) : Prop where
  bytes : 0 ≤ ue.scheduledUlBytes ∧ ue.scheduledUlBytes ≤ 75376
  buffers : 0 ≤ ue.estimatedUlBuffer ∧ ue.estimatedUlBuffer ≤ 1200000

section Books

variable {ue : UeUl} {pid : Fin 8}

theorem UeUl.Booked.due_bounds (booked : ue.Booked) (pid : Fin 8) : 0 ≤ ue.due pid ∧
    ue.due pid ≤ 9422 := by
  have size := booked.sizes pid
  rw [UeUl.due]
  split <;> omega

theorem UeUl.Booked.inRange (booked : ue.Booked) : ue.InRange where
  bytes := by
    rw [booked.bytes]
    refine ⟨Finset.sum_nonneg fun pid _ => (booked.due_bounds pid).1, ?_⟩
    calc ∑ pid, ue.due pid
      _ ≤ ∑ _pid : Fin 8, (9422 : Int) := Finset.sum_le_sum fun pid _ => (booked.due_bounds pid).2
      _ = 75376 := by rfl
  buffers := by
    have zero := booked.reported 0
    have one := booked.reported 1
    have two := booked.reported 2
    have three := booked.reported 3
    rw [booked.buffers]
    simp only [Finset.sum_range_succ, Finset.range_zero, Finset.sum_empty]
    omega

theorem fresh_booked : UeUl.fresh.Booked where
  waits _ positive := absurd positive (UInt8.lt_irrefl 0)
  bytes := by
    have none_due (pid : Fin 8) : UeUl.fresh.due pid = 0 := by
      simp [UeUl.due, UeUl.scheduled, UeUl.fresh]
    exact (Finset.sum_eq_zero fun pid _ => none_due pid).symm
  buffers := rfl
  rounds _ := UInt8.zero_le
  sizes _ := Nat.zero_le _
  reported _ := Nat.zero_le _

theorem sum_update (due : Fin 8 → Int) (pid : Fin 8) (value : Int) :
    ∑ other, Function.update due pid value other = ∑ other, due other - due pid + value := by
  rw [Finset.sum_update_of_mem (Finset.mem_univ pid),
    ← Finset.sum_erase_eq_sub (Finset.mem_univ pid), Finset.sdiff_singleton_eq_erase, Int.add_comm]

theorem mask_bit (pid other : Fin 8) : (1#32 <<< pid.val).getLsbD other.val =
    decide (other = pid) := by
  have := other.isLt
  rw [BitVec.getLsbD_shiftLeft, BitVec.getLsbD_one]
  grind

theorem scheduled_grant {table : TbsTable} {turn : Turn} {range : RbRange} (other : Fin 8) :
    (ue.grant table turn range).scheduled other =
    (ue.scheduled other || decide (other = turn.harqPid)) := by
  rw [← mask_bit]
  exact BitVec.getLsbD_or

theorem scheduled_unschedule (other : Fin 8) :
    (ue.unschedule pid).scheduled other = (ue.scheduled other && !decide (other = pid)) := by
  have inside : other.val < 32 := Nat.lt_trans other.isLt (by decide)
  have flip : (~~~(1#32 <<< pid.val)).getLsbD other.val = !decide (other = pid) := by
    rw [BitVec.getLsbD_not, mask_bit, decide_eq_true inside, Bool.true_and]
  rw [← flip]
  exact BitVec.getLsbD_and

theorem due_grant {table : TbsTable} {turn : Turn} {range : RbRange} :
    (ue.grant table turn range).due =
      Function.update ue.due turn.harqPid (getTbsUl table turn.mcs range.count : Int) := by
  funext other
  rw [UeUl.due, scheduled_grant]
  by_cases same : other = turn.harqPid
  · subst same
    simp [UeUl.grant]
  · simp [UeUl.grant, UeUl.due, same]

theorem due_unschedule : (ue.unschedule pid).due = Function.update ue.due pid 0 := by
  funext other
  rw [UeUl.due, scheduled_unschedule]
  by_cases same : other = pid
  · subst same
    simp
  · simp [UeUl.unschedule, UeUl.due, same]

theorem UeUl.Booked.grant (booked : ue.Booked) {table : TbsTable} {turn : Turn} {range : RbRange}
    (clear : ue.scheduled turn.harqPid = false) : (ue.grant table turn range).Booked where
  waits other positive := by rw [scheduled_grant, booked.waits other positive, Bool.true_or]
  bytes := by
    have nothing : ue.due turn.harqPid = 0 := by rw [UeUl.due, clear]; rfl
    rw [due_grant, sum_update, nothing, Int.sub_zero, ← booked.bytes]
    rfl
  buffers := booked.buffers
  rounds := booked.rounds
  sizes other := by
    by_cases same : other = turn.harqPid
    · subst same
      simpa [UeUl.grant] using getTbsUl_le table turn.mcs range.count
    · simpa [UeUl.grant, same] using booked.sizes other
  reported := booked.reported

theorem UeUl.Booked.release (booked : ue.Booked) (set : ue.scheduled pid = true) :
    ((ue.unschedule pid).setRound pid 0).Booked where
  waits other positive := by
    by_cases same : other = pid
    · subst same
      simp [UeUl.setRound] at positive
    · have waiting :=
        booked.waits other (by simpa [UeUl.setRound, UeUl.unschedule, same] using positive)
      have kept := @scheduled_unschedule ue pid other
      rw [waiting, decide_eq_false same] at kept
      exact kept
  bytes := by
    have own : ue.due pid = ue.tbsUl pid := by rw [UeUl.due, set]; rfl
    have others : ∑ other, (ue.unschedule pid).due other = ue.scheduledUlBytes - ue.tbsUl pid := by
      rw [due_unschedule, sum_update, own, Int.add_zero, ← booked.bytes]
    have rest : 0 ≤ ∑ other, (ue.unschedule pid).due other := by
      refine Finset.sum_nonneg fun other _ => ?_
      rw [UeUl.due]
      split
      · exact Int.natCast_nonneg _
      · exact Int.le_refl _
    rw [others] at rest
    exact (if_neg (Int.not_lt.mpr rest)).trans others.symm
  buffers := booked.buffers
  rounds other := by
    by_cases same : other = pid
    · subst same
      simp [UeUl.setRound]
    · simpa [UeUl.setRound, UeUl.unschedule, same] using booked.rounds other
  sizes := booked.sizes
  reported := booked.reported

theorem UeUl.Booked.failed (booked : ue.Booked) (set : ue.scheduled pid = true) :
    (ue.failed pid).Booked := by
  rw [UeUl.failed]
  split
  · exact booked.release set
  · rename_i early
    have below : ue.roundUl pid + 1 ≤ 3 := by
      have last := booked.rounds pid
      grind
    refine { booked with waits := fun other positive => ?_, rounds := fun other => ?_ }
    · by_cases same : other = pid
      · exact same ▸ set
      · exact booked.waits other (by simpa [UeUl.setRound, same] using positive)
    · by_cases same : other = pid
      · subst same
        simpa [UeUl.setRound] using below
      · simpa [UeUl.setRound, same] using booked.rounds other

theorem UeUl.Booked.estimate (booked : ue.Booked) {info : Nat → UInt32}
    (small : ∀ g, (info g).toNat ≤ 300000) :
    ({ ue with ulBufferInfo := info } : UeUl).estimate.Booked where
  waits := booked.waits
  bytes := booked.bytes
  buffers := by
    have zero := small 0
    have one := small 1
    have two := small 2
    have three := small 3
    have total : (info 0 + info 1 + info 2 + info 3).toNat =
        (info 0).toNat + (info 1).toNat + (info 2).toNat + (info 3).toNat := by
      simp only [UInt32.toNat_add]
      omega
    have whole : (info 0 + info 1 + info 2 + info 3).toInt32.toInt =
        (info 0 + info 1 + info 2 + info 3).toNat :=
      BitVec.toInt_eq_toNat_of_lt
        (show 2 * (info 0 + info 1 + info 2 + info 3).toNat < 2 ^ 32 by omega)
    change (info 0 + info 1 + info 2 + info 3).toInt32.toInt = ∑ g ∈ Finset.range 4,
      ((info g).toNat : Int)
    rw [whole, total]
    simp [Finset.sum_range_succ]
  rounds := booked.rounds
  sizes := booked.sizes
  reported := small

theorem bsrOf_le (bsr : Nat) : (bsrOf bsr).toNat ≤ 300000 := by
  have checked : bsrTable.all (·.toNat ≤ 300000) := by decide
  have all : ∀ value ∈ bsrTable, value.toNat ≤ 300000 :=
    fun value member => of_decide_eq_true (List.all_eq_true.mp checked value member)
  rw [bsrOf, List.getD_eq_getElem?_getD]
  cases found : bsrTable[bsr]? with
  | none => exact Nat.zero_le _
  | some value => exact all value (List.mem_of_getElem? found)

theorem small_update {info : Nat → UInt32} (small : ∀ g, (info g).toNat ≤ 300000) {value : UInt32}
    (bounded : value.toNat ≤ 300000) (lcgid g : Nat) :
    (Function.update info lcgid value g).toNat ≤ 300000 := by
  by_cases same : g = lcgid
  · subst same
    rwa [Function.update_self]
  · rw [Function.update_of_ne same]
    exact small g

theorem UeUl.Booked.shortBsr (booked : ue.Booked) (lcgid bsr : Nat) :
    (ue.shortBsr lcgid bsr).Booked :=
  booked.estimate (small_update booked.reported (bsrOf_le bsr) lcgid)

theorem UeUl.Booked.longBsr (booked : ue.Booked) (bsr0 bsr1 bsr2 bsr3 : Nat) :
    (ue.longBsr bsr0 bsr1 bsr2 bsr3).Booked := by
  apply booked.estimate
  have zero := small_update booked.reported (bsrOf_le bsr0) 0
  have one := small_update zero (bsrOf_le bsr1) 1
  have two := small_update one (bsrOf_le bsr2) 2
  exact small_update two (bsrOf_le bsr3) 3

theorem UeUl.Booked.taken (booked : ue.Booked) (lcgid length : Nat) :
    (ue.taken lcgid length).Booked := by
  apply booked.estimate
  apply small_update booked.reported
  have old := booked.reported lcgid
  split
  · rename_i enough
    rw [UInt32.toNat_sub_of_le _ _ enough]
    omega
  · exact Nat.zero_le _

end Books

section Receptions

def Balanced (ues : Nat → UeUl) : Prop := ∀ id, (ues id).Booked

variable {s : Rx} {ues : Nat → UeUl} {r : Reception}

theorem Balanced.update (balanced : Balanced ues) (id : Nat) {ue : UeUl} (booked : ue.Booked) :
    Balanced (Function.update ues id ue) := by
  intro other
  by_cases same : other = id
  · subst same
    rwa [Function.update_self]
  · rw [Function.update_of_ne same]
    exact balanced other

theorem modify_balanced (balanced : Balanced s.ues) {change : UeUl → UeUl}
    (keeps : ∀ ue : UeUl, ue.Booked → (change ue).Booked) :
    Balanced (s.modify change).ues := by
  rw [Rx.modify]
  split
  · exact balanced
  · rename_i id _
    exact balanced.update id (keeps _ (balanced id))

theorem mark_balanced (balanced : Balanced s.ues) (groups : List Nat) :
    Balanced (s.mark groups).ues := by
  rw [Rx.mark]
  split
  · exact balanced
  · exact balanced

theorem element_balanced (balanced : Balanced s.ues) (findUeId : Nat → Option Nat) (ce : UlCe) :
    Balanced (s.element findUeId ce).ues := by
  cases ce with
  | powerHeadroom ph => exact balanced
  | crnti rnti =>
    rw [Rx.element]
    split
    · split
      · exact balanced
      · exact balanced
    · exact balanced
  | truncatedBsr lcgid bsr =>
    refine modify_balanced (mark_balanced balanced _) fun ue booked => ?_
    exact booked.shortBsr lcgid bsr
  | shortBsr lcgid bsr =>
    refine modify_balanced (mark_balanced balanced _) fun ue booked => ?_
    exact booked.shortBsr lcgid bsr
  | longBsr bsr0 bsr1 bsr2 bsr3 =>
    refine modify_balanced (mark_balanced balanced _) fun ue booked => ?_
    exact booked.longBsr bsr0 bsr1 bsr2 bsr3

theorem elements_balanced (findUeId : Nat → Option Nat) (ces : List UlCe)
    (balanced : Balanced s.ues) :
    Balanced (ces.foldl (Rx.element findUeId) s).ues := by
  induction ces generalizing s with
  | nil => exact balanced
  | cons ce rest ih => exact ih (element_balanced balanced findUeId ce)

theorem ccch_balanced (balanced : Balanced s.ues) (addNewUe : Option Nat) :
    Balanced (s.ccch addNewUe).ues := by
  unfold Rx.ccch
  split
  · cases addNewUe with
    | none => exact balanced
    | some id => exact balanced.update id fresh_booked
  · exact balanced

/-- The group of the channel is in the table, or the SDU is dropped. -/
def KnownChannel (sdu : Nat × Nat) : Prop := sdu.1 < 11 ∨ Pdu.nbRbMax ≤ sdu.1

theorem sdu_balanced (balanced : Balanced s.ues) (addNewUe : Option Nat) {sdu : Nat × Nat}
    (known : KnownChannel sdu) :
    ∃ after, s.sdu addNewUe sdu = some after ∧ Balanced after.ues := by
  rw [Rx.sdu]
  split
  · refine ⟨_, rfl, ?_⟩
    split
    · exact balanced
    · exact ccch_balanced balanced addNewUe
  · split
    · rename_i channel
      have inside : sdu.1 < 11 := known.resolve_right (Nat.not_le.mpr channel)
      split
      · exact ⟨s, rfl, balanced⟩
      · rw [if_pos inside]
        refine ⟨_, rfl, ?_⟩
        split
        · exact balanced
        · exact modify_balanced balanced fun ue booked => booked.taken _ _
    · exact ⟨s, rfl, balanced⟩

theorem sdus_balanced (addNewUe : Option Nat) {sdus : List (Nat × Nat)}
    (known : ∀ sdu ∈ sdus, KnownChannel sdu)
    (balanced : Balanced s.ues) : ∃ after, sdus.foldlM (Rx.sdu addNewUe) s = some after ∧
    Balanced after.ues := by
  induction sdus generalizing s with
  | nil => exact ⟨s, rfl, balanced⟩
  | cons sdu rest ih =>
    obtain ⟨next, stepped, balanced⟩ :=
      sdu_balanced balanced addNewUe (known sdu List.mem_cons_self)
    obtain ⟨after, ran, balanced⟩ :=
      ih (fun other member => known other (List.mem_cons_of_mem _ member)) balanced
    exact ⟨after, by rw [List.foldlM_cons, stepped]; exact ran, balanced⟩

/-- `rx_sdu` comes to the parser. -/
def Reception.reads (r : Reception) : Prop := (r.findUeId r.rnti).isSome = true ∨
    r.ras.any (RaProc.active r.rnti) = true

/-- What the header of a block must be like. One that is refused does no harm to a process in
its first round only. -/
def Reception.Readable (ues : Nat → UeUl) (r : Reception) (block : Memory × Nat) : Prop :=
  match r.parsed block with
  | .running => False
  | .overflow => False
  | .refused _ => ∀ id, r.findUeId r.rnti = some id → (ues id).roundUl r.harqPid = 0
  | .accepted read => ∀ sdu ∈ read.sdus, KnownChannel sdu

theorem rxBlock_accepted {start : Nat → UeUl} {ueId : Option Nat} {block : Memory × Nat}
    {read : Pdu.HeaderRead}
    (parsed : r.parsed block = .accepted read) (known : ∀ sdu ∈ read.sdus, KnownChannel sdu)
    (balanced : Balanced
      ((Rx.modify ⟨start, ueId, r.rnti, r.ras, fun _ => false⟩
      fun ue => ue.setRound r.harqPid 0).ues)) :
    ∃ after, rxBlock start ueId r block = some after ∧ Balanced after := by
  have elements := elements_balanced r.findUeId (rxCes block.1 read.ptr read.ces).1 balanced
  obtain ⟨after, ran, balanced⟩ := sdus_balanced r.addNewUe known elements
  refine ⟨after.ues, ?_, balanced⟩
  simp only [rxBlock, parsed, ran, Option.map_some]

theorem rxBlock_known (balanced : Balanced ues) {id : Nat} {block : Memory × Nat}
    (found : r.findUeId r.rnti = some id)
    (set : (ues id).scheduled r.harqPid = true) (readable : r.Readable ues block) :
    ∃ after, rxBlock (Function.update ues id ((ues id).unschedule r.harqPid))
        (some id) r block = some after ∧
      Balanced after := by
  have released := (balanced id).release set
  rw [Reception.Readable] at readable
  split at readable
  · exact readable.elim
  · exact readable.elim
  · rename_i read parsed
    have kept : rxBlock (Function.update ues id ((ues id).unschedule r.harqPid)) (some id) r block =
        some (Function.update ues id ((ues id).unschedule r.harqPid)) := by
          simp only [rxBlock, parsed]
    refine ⟨_, kept, ?_⟩
    have first : ((ues id).unschedule r.harqPid).setRound r.harqPid 0 =
        (ues id).unschedule r.harqPid := by
      have same : Function.update (ues id).roundUl r.harqPid 0 = (ues id).roundUl := by
        rw [← readable id found, Function.update_eq_self]
      rw [UeUl.setRound]
      exact congrArg (fun rounds => { (ues id).unschedule r.harqPid with roundUl := rounds }) same
    exact balanced.update id (first ▸ released)
  · rename_i read parsed
    apply rxBlock_accepted parsed readable
    simp only [Rx.modify, Function.update_self, Function.update_idem]
    exact balanced.update id released

theorem rxBlock_unknown (balanced : Balanced ues) {block : Memory × Nat}
    (readable : r.Readable ues block) :
    ∃ after, rxBlock ues none r block = some after ∧ Balanced after := by
  rw [Reception.Readable] at readable
  split at readable
  · exact readable.elim
  · exact readable.elim
  · rename_i read parsed
    exact ⟨ues, by simp only [rxBlock, parsed], balanced⟩
  · rename_i read parsed
    exact rxBlock_accepted parsed readable balanced

/-- A call of `rx_sdu` in its turn: a block is received for a process that waits for one, and
its header can be read. -/
def Reception.InTurn (ues : Nat → UeUl) (r : Reception) : Prop :=
  (∀ id, r.findUeId r.rnti = some id → (ues id).scheduled r.harqPid = true) ∧
    (r.reads → ∀ block, r.block = some block → r.Readable ues block)

theorem rxSdu_balanced (balanced : Balanced ues) (turn : r.InTurn ues) :
    ∃ after, rxSdu ues r = some after ∧ Balanced after := by
  obtain ⟨waits, readable⟩ := turn
  rw [rxSdu]
  cases found : r.findUeId r.rnti with
  | some id =>
    have set := waits id found
    have below : (ues id).roundUl r.harqPid < 8 :=
      UInt8.lt_of_le_of_lt ((balanced id).rounds _) (by decide)
    simp only [if_pos below]
    cases received : r.block with
    | some block =>
      exact rxBlock_known balanced found set (readable (.inl (by rw [found]; rfl)) block received)
    | none => exact ⟨_, rfl, balanced.update id ((balanced id).failed set)⟩
  | none =>
    cases received : r.block with
    | none => exact ⟨ues, rfl, balanced⟩
    | some block =>
      by_cases access : r.ras.any (RaProc.active r.rnti) = true
      · simp only [if_pos access]
        exact rxBlock_unknown balanced (readable (.inr access) block received)
      · simp only [if_neg access]
        exact ⟨ues, rfl, balanced⟩

end Receptions

/-- Grants and receptions of a process take turns, and every header can be read. -/
def UlInTurn (ues : Nat → UeUl) : UlEvent → Prop
  | .schedule id nRbUl turn firstRb => NewGrant nRbUl turn firstRb (ues id) →
      (ues id).scheduled turn.harqPid = false
  | .reception r => r.InTurn ues

theorem ulStep_balanced (table : TbsTable) {ues : Nat → UeUl} (balanced : Balanced ues)
    {event : UlEvent}
    (turn : UlInTurn ues event) : ∃ after, ulStep table ues event = some after ∧
    Balanced after := by
  cases event with
  | schedule id nRbUl visit firstRb =>
    have booked := balanced id
    have below : (ues id).roundUl visit.harqPid < 8 :=
      UInt8.lt_of_le_of_lt (booked.rounds _) (by decide)
    obtain ⟨result, done⟩ := scheduleUe_total table nRbUl firstRb below
    refine ⟨Function.update ues id result.ue, by rw [ulStep, done]; rfl, balanced.update id ?_⟩
    obtain rfl | ⟨-, -, rfl⟩ | ⟨granted, rfl⟩ := scheduleUe_cases done
    · exact booked
    · exact { booked with }
    · exact booked.grant (turn granted)
  | reception r => exact rxSdu_balanced balanced turn

section Example

/-- `TBStable` at the entry for six resource blocks at MCS 10. -/
def sixBlocks : TbsTable where
  bits i n := if i = 10 ∧ n = 5 then 1032 else 0
  bounded i n := by split <;> decide

/-- A UE that has been silent gets a grant for a power headroom report. -/
def silentTurn : Turn where
  harqPid := 3
  eligible := true
  cceInfeasible := false
  ulFailureTimer := 0
  ulOutOfSync := 0
  ulInactivityTimer := 21
  rrcConnected := true
  preAssignedMcs := 0
  maxMcs := 20
  preAllocated := none

def memoryOf (bytes : List UInt8) : Memory := fun a => bytes.getD a 0

/-- A call for the UE with RNTI 70, which is the first in the list. -/
def receptionOf (bytes : Option (List UInt8)) : Reception where
  rnti := 70
  harqPid := 3
  block := bytes.map fun bytes => (memoryOf bytes, 129)
  rounds := 8
  findUeId rnti := if rnti = 70 then some 0 else none
  ras := []
  addNewUe := none

/-- A grant and a failed reception. -/
def toSecondRound : List UlEvent := [.schedule 0 25 silentTurn 1, .reception (receptionOf none)]

/-- A UE whose data channel 3 is in the second group. -/
def withDataChannel : UeUl :=
  { UeUl.fresh with lcgidmap := fun lcid => ⟨if lcid = 3 then 1 else 0, by split <;> decide⟩ }

theorem withDataChannel_booked : withDataChannel.Booked := { fresh_booked with }

/-- The second round brings a short report of 42 bytes for the second group, and 126 bytes of its
data channel. -/
def reportInSecondRound : List UlEvent :=
  toSecondRound ++ [.reception (receptionOf (some [0x3d, 3, 0x4a]))]

/-- The second round brings a header with an LCID that the parser does not know. -/
def refusedInSecondRound : List UlEvent := toSecondRound ++ [.reception (receptionOf (some [25]))]

end Example

end OpenAir.Mac
