import OpenAir.Rlc.Am.ResegmentWrite

/-! A PDU that is sent again as segments, grant after grant: the slot of the transmitter
keeps the offset up to which the bytes have been sent, and every segment carries the
parts behind it. -/
namespace OpenAir.Rlc.Am
open BitField

/-- A grant of the MAC layer for one segment, and whether the allocator finds a block. -/
structure SegmentGrant where
  bytes : Int
  allocated : Bool

/-- A call of the segment builder, and what its caller takes off `retx_payload_size`. -/
def resegmentGrant (pdu : TxPdu) (grant : SegmentGrant) : TxPdu × Option Emitted :=
  match retransmitGetAmSegment pdu grant.bytes grant.allocated with
  | (pdu, some out) =>
    ({ pdu with retxPayloadSize := pdu.retxPayloadSize - out.payloadSize }, some out)
  | (pdu, none) => (pdu, none)

/-- The segments emitted for a sequence of grants, until all bytes have been sent again. -/
def resegment : TxPdu → List SegmentGrant → List Emitted
  | _, [] => []
  | pdu, grant :: grants =>
    if pdu.retxPayloadSize ≤ 0 then
      []
    else
      match resegmentGrant pdu grant with
      | (pdu, some out) => out :: resegment pdu grants
      | (pdu, none) => resegment pdu grants

/-- The slot holds the PDU, and its bytes from `so` on are still to be sent again. -/
structure SlotAt (pdu : TxPdu) (mem : Memory) (pieces : List Nat) (so : Nat) : Prop where
  amd : AmdPdu pdu mem pieces
  inside : so ≤ pieces.sum
  retx : pdu.retxPayloadSize = pieces.sum - so
  hole : so < pieces.sum → pdu.numHoles = 0 ∧ so = 0 ∨
    pdu.numHoles = 1 ∧ pdu.retxHoleIndex = 0 ∧ pdu.holeSoStart 0 = so ∧
      pdu.holeSoStop 0 = pieces.sum - 1

section Step

variable {pdu : TxPdu} {mem : Memory} {pieces : List Nat} {so : Nat} {nbBytes : Int}

/-- The slot with its hole list initialised. -/
structure OnHole (pdu : TxPdu) (mem : Memory) (pieces : List Nat) (so : Nat) : Prop where
  amd : AmdPdu pdu mem pieces
  retx : pdu.retxPayloadSize = pieces.sum - so
  numHoles : pdu.numHoles = 1
  index : pdu.retxHoleIndex = 0
  start : pdu.holeSoStart 0 = so
  stop : pdu.holeSoStop 0 = pieces.sum - 1

theorem OnHole.slot (hole : OnHole pdu mem pieces so) (inside : so < pieces.sum) :
    SlotAt pdu mem pieces so :=
  ⟨hole.amd, Nat.le_of_lt inside, hole.retx,
    fun _ => Or.inr ⟨hole.numHoles, hole.index, hole.start, hole.stop⟩⟩

/-- Fields that the retransmission changes do not belong to the PDU. -/
theorem AmdPdu.congr {pdu' : TxPdu} (amd : AmdPdu pdu mem pieces)
    (block : pdu'.memBlock = pdu.memBlock)
    (payload : pdu'.payload = pdu.payload) (sdus : pdu'.sdusIndex = pdu.sdusIndex)
    (size : pdu'.headerAndPayloadSize = pdu.headerAndPayloadSize)
    (payloadSize : pdu'.payloadSize = pdu.payloadSize)
    (sn : pdu'.sn = pdu.sn) : AmdPdu pdu' mem pieces where
  block := block.trans amd.block
  announces := amd.announces
  whole := amd.whole
  some := amd.some
  pos := amd.pos
  small := amd.small
  count := (congrArg List.length sdus).trans amd.count
  payloadSize := payloadSize.trans amd.payloadSize
  payload := payload.trans amd.payload
  size := size.trans amd.size
  sn := sn ▸ amd.sn

/-- The framing bits of the original PDU as the segment builder reads them. -/
theorem framing_bits (mem : Memory) :
    ((((mem 0).toNat &&& (1 <<< 4)) >>> 4 == 0) = !bitAt mem 3) ∧
    ((((mem 0).toNat &&& (1 <<< 3)) >>> 3 == 0) = !bitAt mem 4) := by
  have bit (k : Nat) (inside : k < 8) : bitAt mem k = (mem 0).toNat.testBit (7 - k) := by
    have at' := @bitAt_byte mem 0 k inside
    rwa [Nat.mul_zero, Nat.zero_add] at at'
  rw [bit 3 (by decide), bit 4 (by decide)]
  have byte := UInt8.toNat_lt (mem 0)
  generalize (mem 0).toNat = b at byte
  have all : ∀ b < 256, (((b &&& (1 <<< 4)) >>> 4 == 0) = !b.testBit 4) ∧
      (((b &&& (1 <<< 3)) >>> 3 == 0) = !b.testBit 3) := by
    decide +kernel
  exact all b byte

def TxPdu.openHole (pdu : TxPdu) : TxPdu :=
  { pdu with
    retxHoleIndex := 0
    holeSoStart := Function.update pdu.holeSoStart 0 0
    holeSoStop := Function.update pdu.holeSoStop 0 (pdu.payloadSize - 1)
    numHoles := 1 }

theorem planSegment_hole (slot : SlotAt pdu mem pieces so) (inside : so < pieces.sum)
    (nbBytes : Int) :
    ∃ pdu', OnHole pdu' mem pieces so ∧ pdu'.nbSdus = pdu.nbSdus ∧
      planSegment pdu mem nbBytes = (pdu', if pdu'.nbSdus - 1 = 0 then
        some (planSingle pdu' nbBytes (!bitAt mem 3) (!bitAt mem 4) so (pieces.sum - 1))
        else planMany mem pdu' nbBytes (!bitAt mem 3) (!bitAt mem 4) so (pieces.sum - 1)) := by
  have retx := slot.retx
  have payloadSize := slot.amd.payloadSize
  obtain ⟨fiStart, fiEnd⟩ := framing_bits mem
  unfold planSegment
  simp only [fiStart, fiEnd]
  rcases slot.hole inside with ⟨none, rfl⟩ | ⟨one, index, start, stop⟩
  · rw [if_neg (by omega)]
    simp only [none, if_true]
    have start : pdu.openHole.holeSoStart 0 = 0 := by simp [TxPdu.openHole]
    have stop : pdu.openHole.holeSoStop 0 = pieces.sum - 1 := by simp [TxPdu.openHole, payloadSize]
    refine ⟨pdu.openHole, ⟨slot.amd.congr rfl rfl rfl rfl rfl rfl, retx, rfl, rfl, start, stop⟩,
      rfl, ?_⟩
    simp only [Function.update_self, payloadSize]
    rw [if_neg (by omega)]
    simp only [TxPdu.openHole, payloadSize, Int.natCast_zero]
    split <;> rfl
  · rw [if_neg (by omega)]
    simp only [one, Nat.one_ne_zero, if_false, index, start, stop, payloadSize]
    refine ⟨pdu, ⟨slot.amd, retx, one, index, start, stop⟩, rfl, ?_⟩
    rw [if_neg (by omega)]
    split <;> rfl

/-- The plan for every PDU that the counter of SDUs can count. -/
theorem planSegment_eq (slot : SlotAt pdu mem pieces so) (few : pieces.length < 128)
    (inside : so < pieces.sum)
    (grant : 5 ≤ nbBytes) :
    ∃ pdu', OnHole pdu' mem pieces so ∧ planSegment pdu mem nbBytes = (pdu',
      if 1 < pieces.length ∧ (partsAt pieces so nbBytes).sum = pieces.sum then none
      else some (segmentPlan pieces so nbBytes (!bitAt mem 3) (!bitAt mem 4))) := by
  obtain ⟨pdu', hole, -, plan⟩ := planSegment_hole slot inside nbBytes
  refine ⟨pdu', hole, ?_⟩
  have some := List.length_pos_iff.mpr hole.amd.some
  rw [plan, hole.amd.nbSdus few]
  by_cases single : pieces.length = 1
  · rw [if_pos (by omega), if_neg (by omega), planSingle_eq hole.amd single inside grant]
  · have many : 1 < pieces.length := by omega
    rw [if_neg (by omega), planMany_eq hole.amd few many inside grant]
    simp only [many, true_and]

theorem updateHoles_slot (hole : OnHole pdu mem pieces so) {taken : Nat}
    (within : so + taken ≤ pieces.sum) {left : Int} (retx : left = pieces.sum - so - taken) :
    SlotAt { updateHoles pdu taken with retxPayloadSize := left } mem pieces (so + taken) := by
  unfold updateHoles
  simp only [hole.index, hole.start, hole.stop, hole.numHoles]
  by_cases last : so + taken = pieces.sum
  · rw [if_pos (by omega)]
    refine ⟨hole.amd.congr rfl rfl rfl rfl rfl rfl, within, ?_, fun more => ?_⟩
    · simp only
      omega
    · omega
  · rw [if_neg (by omega)]
    refine ⟨hole.amd.congr rfl rfl rfl rfl rfl rfl, within, ?_, fun _ => ?_⟩
    · simp only
      omega
    · refine Or.inr ⟨rfl, rfl, ?_, hole.stop⟩
      simp only [Function.update_self]
      omega

/-- What an emitted segment is: it carries the parts at `so`, framed as the original
where it reaches an end of it. -/
structure Carried (mem : Memory) (pieces : List Nat) (out : Emitted) (so : Nat)
    (parts : List Nat) : Prop where
  carries : Carries out.mem mem (announcedHeader mem pieces) so parts
    (!bitAt mem 3 && decide (so = 0))
    (!bitAt mem 4 && decide (so + parts.sum = pieces.sum))
  some : parts ≠ []
  pos : ∀ part ∈ parts, 0 < part
  within : so + parts.sum ≤ pieces.sum
  size : out.tbSize = announcedHeader out.mem parts + parts.sum

/-- One grant: a segment with the parts behind the offset, which moves on, or nothing. -/
theorem resegmentGrant_step {grant : SegmentGrant} (slot : SlotAt pdu mem pieces so)
    (inside : so < pieces.sum)
    (enough : 5 ≤ grant.bytes) {emits : Prop} [Decidable emits]
    (planned : ∃ pdu', OnHole pdu' mem pieces so ∧ planSegment pdu mem grant.bytes = (pdu',
      if emits then
      some (segmentPlan pieces so grant.bytes (!bitAt mem 3) (!bitAt mem 4)) else none)) :
    if emits ∧ grant.allocated = true then
      ∃ out, (resegmentGrant pdu grant).2 = some out ∧
        Carried mem pieces out so (partsAt pieces so grant.bytes) ∧
        SlotAt (resegmentGrant pdu grant).1 mem pieces (so + (partsAt pieces so grant.bytes).sum)
    else
      (resegmentGrant pdu grant).2 = none ∧ SlotAt (resegmentGrant pdu grant).1 mem pieces so := by
  obtain ⟨pdu', hole, plan⟩ := planned
  obtain ⟨nonempty, partsPos, length, within, -⟩ := partsAt_spec slot.amd.pos inside enough
  have pointers : ¬ (pdu.payload : Int) ≠ pdu.headerAndPayloadSize - pdu.payloadSize := by
    rw [slot.amd.payload, slot.amd.size, slot.amd.payloadSize]
    omega
  unfold resegmentGrant retransmitGetAmSegment
  rw [slot.amd.block]
  simp only [pointers, if_false, plan]
  by_cases emit : emits
  · simp only [emit, if_true, true_and]
    by_cases block : grant.allocated = true
    · simp only [block, if_true]
      have payloadSize :
        (segmentPlan pieces so grant.bytes (!bitAt mem 3) (!bitAt mem 4)).payloadSize =
          (partsAt pieces so grant.bytes).sum := by
        simp only [SegmentPlan.payloadSize, segmentPlan]
        omega
      have carries :=
        @writeSegment_carries mem pdu'
        (segmentPlan pieces so grant.bytes (!bitAt mem 3) (!bitAt mem 4)) so
        (partsAt pieces so grant.bytes) rfl rfl rfl payloadSize
          (length.trans slot.amd.announces.few)
        ((slot.amd.announces.short.piecesFrom so).cut _ _) (by have := slot.amd.small; omega)
      rw [hole.amd.payload] at carries
      refine ⟨_, rfl, ⟨carries, nonempty, partsPos, within, ?_⟩, ?_⟩
      · simp only [announcedHeader, carries.start, payloadSize]
        rfl
      · rw [payloadSize]
        apply updateHoles_slot hole within
        have same : (updateHoles pdu' ((partsAt pieces so grant.bytes).sum : Nat)).retxPayloadSize =
            pdu'.retxPayloadSize := by
          unfold updateHoles
          simp only
          split
          · split <;> rfl
          · rfl
        rw [same, hole.retx]
    · simp only [block, Bool.false_eq_true, if_false]
      exact ⟨trivial, hole.slot inside⟩
  · simp only [emit, if_false, false_and]
    exact ⟨trivial, hole.slot inside⟩

end Step

/-- The segments of a run, each with its offset and parts, when `plans` tells which grants
a plan is found for. -/
def segmentsBy (plans : Nat → Int → Bool) (pieces : List Nat) : Nat → List SegmentGrant →
    List (Nat × List Nat)
  | _, [] => []
  | so, grant :: grants =>
    let parts := partsAt pieces so grant.bytes
    if so < pieces.sum ∧ plans so grant.bytes = true ∧ grant.allocated = true then
      (so, parts) :: segmentsBy plans pieces (so + parts.sum) grants
    else
      segmentsBy plans pieces so grants

theorem segmentsBy_done (plans : Nat → Int → Bool) (pieces : List Nat)
    (grants : List SegmentGrant) :
    segmentsBy plans pieces pieces.sum grants = [] := by
  induction grants with
  | nil => rfl
  | cons grant grants ih =>
    rw [segmentsBy, if_neg (fun all => Nat.lt_irrefl _ all.1), ih]

/-- The emitted segments of a run carry the parts one behind the other. -/
theorem resegment_carried {mem : Memory} {pieces : List Nat} {plans : Nat → Int → Bool}
    (planned : ∀ pdu so nbBytes, SlotAt pdu mem pieces so → so < pieces.sum → 5 ≤ nbBytes →
      ∃ pdu', OnHole pdu' mem pieces so ∧ planSegment pdu mem nbBytes = (pdu',
        if plans so nbBytes = true then
        some (segmentPlan pieces so nbBytes (!bitAt mem 3) (!bitAt mem 4)) else none))
    {pdu : TxPdu} {so : Nat} {grants : List SegmentGrant} (slot : SlotAt pdu mem pieces so)
    (enough : ∀ grant ∈ grants, 5 ≤ grant.bytes) :
    List.Forall₂ (fun out segment => Carried mem pieces out segment.1 segment.2)
      (resegment pdu grants)
      (segmentsBy plans pieces so grants) := by
  induction grants generalizing pdu so with
  | nil => exact .nil
  | cons grant grants ih =>
    have retx := slot.retx
    have here := enough grant List.mem_cons_self
    have later := fun grant member => enough grant (List.mem_cons_of_mem _ member)
    by_cases inside : so < pieces.sum
    · have step :=
        resegmentGrant_step slot inside here (planned pdu so grant.bytes slot inside here)
      rw [resegment, segmentsBy, if_neg (by omega)]
      simp only [inside, true_and]
      split at step
      · rename_i emit
        obtain ⟨out, some, carried, next⟩ := step
        rw [if_pos emit]
        split
        · rename_i pdu' out' result
          rw [result] at some next
          cases some
          exact .cons carried (ih next later)
        · rename_i pdu' result
          rw [result] at some
          cases some
      · rename_i silent
        obtain ⟨none, next⟩ := step
        rw [if_neg silent]
        split
        · rename_i pdu' out' result
          rw [result] at none
          cases none
        · rename_i pdu' result
          rw [result] at next
          exact ih next later
    · have all : so = pieces.sum := Nat.le_antisymm slot.inside (Nat.le_of_not_lt inside)
      subst all
      rw [segmentsBy_done, resegment, if_pos (by omega)]
      exact .nil

end OpenAir.Rlc.Am
