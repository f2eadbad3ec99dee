import OpenAir.Mac.BufferStatus
import OpenAir.Rlc.Am.MacSent
import OpenAir.Lib.Run
import Mathlib.Algebra.Order.BigOperators.Group.Finset
import Mathlib.Algebra.BigOperators.Ring.Finset

/-! Runs of arrivals, ticks and grants: the assertions of `ue_get_sdu` hold and `BSR_bytes` counts
what the RLC entities hold, as long as no occupancy moves between a tick and the grant. -/
namespace OpenAir.Mac.Bsr
open BitField
open Function (update)
open Rlc.Um (SnLength Tx TxSdu)

/-- The mode is one that `mac_rlc_get_buffer_occupancy_ind` knows. -/
def Known : Option RlcEntity → Prop
  | some (.tm _) => False
  | _ => True

theorem int32_eq {n : Int} (least : -2 ^ 31 ≤ n) (fits : n < 2 ^ 31) : int32 n = n := by
  unfold int32
  rw [Int.bmod_eq_of_le] <;> omega

theorem int32_uint32 {n : Int} (least : 0 ≤ n) (fits : n < 2 ^ 31) :
    int32 (n % 2 ^ 32).toNat = n := by
  have whole : n % 2 ^ 32 = n := Int.emod_eq_of_lt least (by omega)
  rw [whole, Int.toNat_of_nonneg least, int32_eq (Int.le_trans (by decide) least) fits]

theorem am_told {e : Rlc.Am.Entity} (least : 0 ≤ e.held) (fits : e.held < 2 ^ 31) :
    int32 (Rlc.Am.getBufferOccupancyInBytes e) = e.held := int32_uint32 least fits

theorem um_told {tx : Tx} (fits : max tx.bufferOccupancy 0 < 2 ^ 31) :
    int32 (rlcUmGetBufferOccupancy tx) = max tx.bufferOccupancy 0 := by
  have same : (rlcUmGetBufferOccupancy tx : Int) = max tx.bufferOccupancy 0 := by
    unfold rlcUmGetBufferOccupancy
    split <;> omega
  rw [same, int32_eq (Int.le_trans (by decide) (Int.le_max_right ..)) fits]

def heldBy (entity : Option RlcEntity) : Int := (entity.map RlcEntity.held).getD 0

theorem occupancy_eq {entity : Option RlcEntity} (known : Known entity) (least : 0 ≤ heldBy entity)
    (fits : heldBy entity < 2 ^ 31) : macRlcGetBufferOccupancyInd entity = heldBy entity := by
  cases entity with
  | none => rfl
  | some entity =>
    cases entity with
    | am ready inputSdus e => exact am_told least fits
    | um ready length tx => exact um_told fits
    | tm e => exact known.elim

/-- The segmentation of a UM entity sends what leaves its queue: the queue is consistent, and a
grant that gives a PDU is filled to its last byte. -/
structure UmSound (length : SnLength) (tx : Tx) (tbSize : Nat) (block : Option Memory) : Prop where
  ok : Rlc.Um.TxOk tx
  clean : tx.inputSdus ≠ [] → length.headerMin + 1 ≤ tbSize → block.isSome →
    Rlc.Um.Clean length (Rlc.Um.pduRoom length tx tbSize) 0
      (tx.inputSdus.map TxSdu.sduRemainingSize)

/-- The condition on a request: the PDU has an entry left for it, and the entity is one whose PDU
carries what leaves the buffers. -/
structure Request.Sound (r : Request) : Prop where
  few : r.numSdus < maxNumSdus
  am : ∀ inputSdus e, r.entity = some (.am true inputSdus e) →
    (e.grant r.tbSize).Sendable r.blocks r.time
  um : ∀ length tx, r.entity = some (.um true length tx) → UmSound length tx r.tbSize r.blocks.block

/-- What a request does: the bytes sent leave the entity, and the mode stays. -/
structure Request.Sends (r : Request) : Prop where
  known : Known r.result.1
  carried : 0 ≤ r.carried
  least : 0 ≤ heldBy r.result.1
  held : heldBy r.result.1 = heldBy r.entity - r.carried

section UmRequest

variable {length : SnLength} {tx : Tx} {tbSize : Nat} {block : Option Memory}

/-- The bytes of a UM PDU that the receiver finds. -/
def umBytes (length : SnLength) (pdu : Option Rlc.Um.Pdu) : Int :=
  ((pdu.map (RlcPdus.um length)).map RlcPdus.carried).getD 0

theorem segment_sends (sound : UmSound length tx tbSize block) :
    let result := Rlc.Um.segment length (length.headerMin + 1) tx tbSize block
    0 ≤ umBytes length result.2 ∧
      max result.1.bufferOccupancy 0 = max tx.bufferOccupancy 0 - umBytes length result.2 := by
  obtain ⟨ok, clean⟩ := sound
  have nothing : Rlc.Um.segment length (length.headerMin + 1) tx tbSize block = (tx, none) →
      let result := Rlc.Um.segment length (length.headerMin + 1) tx tbSize block
      0 ≤ umBytes length result.2 ∧
        max result.1.bufferOccupancy 0 = max tx.bufferOccupancy 0 - umBytes length result.2 := by
    intro idle
    rw [idle]
    exact ⟨Int.le_refl 0, (Int.sub_zero _).symm⟩
  by_cases enough : length.headerMin + 1 ≤ tbSize
  case neg =>
    refine nothing ?_
    unfold Rlc.Um.segment
    exact if_pos (by omega)
  case pos =>
    by_cases some : tx.inputSdus = []
    case pos =>
      refine nothing ?_
      unfold Rlc.Um.segment
      rw [some, ite_self]
    case neg =>
      cases block with
      | none =>
        refine nothing ?_
        unfold Rlc.Um.segment
        split
        · rfl
        · split
          · contradiction
          · rfl
      | some mem =>
        have clean := clean some enough rfl
        have enough : (length.headerMin : Int) + 1 ≤ tbSize := by omega
        obtain ⟨-, needed, -, -⟩ := Rlc.Um.pduRoom_spec ok some enough
        obtain ⟨after, pdu, pieces, emits, okAfter, sizes, emitted, -⟩ :=
          Rlc.Um.segment_emits ok some enough mem
        rw [Rlc.Um.clean_iff needed (Nat.zero_le _), Nat.zero_add, ← sizes, List.length_map]
          at clean
        rw [clean.1] at emitted
        have found : umBytes length (Option.some pdu) = (pieces.flatten.length : Nat) := by
          have decoded := emitted.decode clean.2
          rw [Nat.add_zero, ← Rlc.Um.sizes_split] at decoded
          change ((((Rlc.Um.decodePieces length pdu).map fun read => read.1.sum).getD 0 : Nat) :
            Int) = _
          rw [decoded, List.length_flatten]
          rfl
        have before := ok.occupancy
        have left := okAfter.occupancy
        have given := emitted.occupancy
        rw [emits]
        dsimp only
        rw [found]
        omega

end UmRequest

theorem Request.Sound.sends {r : Request} (sound : r.Sound) (known : Known r.entity)
    (least : 0 ≤ heldBy r.entity) :
    r.Sends := by
  obtain ⟨lcid, entity, tbSize, numSdus, blocks, time⟩ := r
  obtain ⟨-, am, um⟩ := sound
  have idle (next : Option RlcEntity) (same : heldBy next = heldBy entity) (knownNext : Known next)
      (result : macRlcDataReq tbSize blocks time entity = (next, none)) :
      Request.Sends ⟨lcid, entity, tbSize, numSdus, blocks, time⟩ := by
    constructor
    · rw [Request.result, result]
      exact knownNext
    · rw [Request.carried, Request.result, result]
      exact Int.le_refl 0
    · rw [Request.result, result, same]
      exact least
    · rw [Request.carried, Request.result, result, same]
      exact (Int.sub_zero _).symm
  cases entity with
  | none => exact idle _ rfl trivial rfl
  | some kind =>
    cases kind with
    | am ready inputSdus e =>
      cases ready with
      | false => exact idle (some (.am false inputSdus (e.grant tbSize))) rfl trivial rfl
      | true =>
        have sent := Rlc.Am.getPdus_sent (am inputSdus e rfl)
        have bytes :
          ((((e.grant tbSize).getPdus blocks time).2.map RlcPdus.am).map RlcPdus.carried).getD 0 =
            ((e.grant tbSize).getPdus blocks time).2.elim 0 Rlc.Am.MacPdu.carried := by
          cases ((e.grant tbSize).getPdus blocks time).2 <;> rfl
        exact ⟨trivial, sent.carried.trans_eq bytes.symm, sent.least,
          sent.held.trans (congrArg _ bytes.symm)⟩
    | um ready length tx =>
      cases ready with
      | false => exact idle _ rfl trivial rfl
      | true =>
        obtain ⟨carried, held⟩ := segment_sends (um length tx rfl)
        cases length with
        | ten => exact ⟨trivial, carried, Int.le_max_right _ _, held⟩
        | five => exact ⟨trivial, carried, Int.le_max_right _ _, held⟩
    | tm e => exact known.elim

/-- What serving a channel does: the MAC knows what the entity still holds, and the requests account
for the bytes that left it. -/
structure Served.Takes (lcid : Nat) (entity : Option RlcEntity) (served : Served) : Prop where
  known : Known served.entity
  least : 0 ≤ heldBy served.entity
  less : heldBy served.entity ≤ heldBy entity
  occupancy : served.occupancyNew = heldBy served.entity
  mine : ∀ r ∈ served.requests, r.lcid = lcid
  carried : (served.requests.map Request.carried).sum = heldBy entity - heldBy served.entity

theorem takes_nothing {lcid : Nat} {entity : Option RlcEntity} {occupancy : Int} {m : Multiplex}
    (known : Known entity) (least : 0 ≤ heldBy entity) (told : occupancy = heldBy entity) :
    Served.Takes lcid entity { entity, occupancyNew := occupancy, m } where
  known := known
  least := least
  less := Int.le_refl _
  occupancy := told
  mine _ member := absurd member List.not_mem_nil
  carried := (Int.sub_self _).symm

theorem takes_more {r : Request} {served : Served} (sends : r.Sends)
    (takes : served.Takes r.lcid r.result.1) :
    Served.Takes r.lcid r.entity { served with requests := r :: served.requests } where
  known := takes.known
  least := takes.least
  less := by
    have less := takes.less
    have held := sends.held
    have carried := sends.carried
    dsimp only
    omega
  occupancy := takes.occupancy
  mine other member := by
    rcases List.mem_cons.mp member with rfl | later
    · rfl
    · exact takes.mine other later
  carried := by
    have held := sends.held
    simp only [List.map_cons, List.sum_cons, takes.carried]
    omega

/-- The asserted quantities are right, and no entry is written outside its array: at most a PDU that
is longer than what was asked for ends the multiplexing. -/
def Asserted (fault : Option Fault) : Prop := ∀ f ∈ fault, f = .segmentedTooMuch

theorem asserted_none : Asserted none := fun _ failed => absurd failed (Option.not_mem_none _)

theorem Request.Sound.asserted {r : Request} (sound : r.Sound) (length : Nat) :
    Asserted (r.fault length) := by
  intro f failed
  rw [Request.fault, if_neg (Nat.not_le.mpr sound.few)] at failed
  split at failed
  · exact (Option.mem_some_iff.mp failed).symm
  · exact absurd failed (Option.not_mem_none f)

/-- What the loop over the PDUs of a channel does when its requests are sound. -/
theorem multiplexPdus_takes (grant : Grant) (lcid : Nat) {rounds pduCount : Nat}
    {entity : Option RlcEntity}
    {occupancy : Int} {m : Multiplex} (known : Known entity) (least : 0 ≤ heldBy entity)
    (fits : heldBy entity < 2 ^ 31)
    (told : occupancy = heldBy entity)
    (sound : ∀ r ∈
      (multiplexPdus grant lcid rounds pduCount entity occupancy m).requests, r.Sound) :
    Asserted (multiplexPdus grant lcid rounds pduCount entity occupancy m).fault ∧
      ((multiplexPdus grant lcid rounds pduCount entity occupancy m).fault = none →
        (multiplexPdus grant lcid rounds pduCount entity occupancy m).Takes lcid entity) := by
  induction rounds generalizing pduCount entity occupancy m with
  | zero => exact ⟨asserted_none, fun _ => takes_nothing known least told⟩
  | succ rounds ih =>
    rw [multiplexPdus] at sound ⊢
    split
    case isFalse =>
      exact ⟨asserted_none, fun _ => takes_nothing known least told⟩
    case isTrue going =>
      rw [if_pos going] at sound
      split
      case isTrue =>
        exact ⟨asserted_none, fun _ => takes_nothing known least told⟩
      case isFalse turn =>
        rw [if_neg turn] at sound
        generalize made :
          (⟨lcid, entity, grant.buflen - (m.used + 1), m.numSdus,
          grant.blocks lcid pduCount, grant.time⟩ :
          Request) = request at sound ⊢
        obtain rfl : request.lcid = lcid := by rw [← made]
        obtain rfl : request.entity = entity := by rw [← made]
        clear made
        dsimp only at sound ⊢
        generalize (request.result.2.map RlcPdus.size).getD 0 % 2 ^ 16 = length at sound ⊢
        have now (sends : request.Sends) : macRlcGetBufferOccupancyInd request.result.1 =
            heldBy request.result.1 := by
          have held := sends.held
          have carried := sends.carried
          exact occupancy_eq sends.known sends.least (by omega)
        have one (sends : request.Sends) (m : Multiplex) : Served.Takes request.lcid request.entity
            { entity := request.result.1
              occupancyNew := macRlcGetBufferOccupancyInd request.result.1, m
              requests := [request] } :=
          takes_more sends (takes_nothing sends.known sends.least (now sends))
        cases failed : request.fault length with
        | some fault =>
          rw [failed] at sound
          have soundRequest := sound request List.mem_cons_self
          dsimp only
          exact ⟨failed ▸ soundRequest.asserted length,
            fun done => absurd done (Option.some_ne_none fault)⟩
        | none =>
          rw [failed] at sound
          dsimp only at sound ⊢
          split
          case isTrue empty =>
            rw [if_pos empty] at sound
            have sends := (sound request List.mem_cons_self).sends known least
            exact ⟨asserted_none, fun _ => one sends _⟩
          case isFalse filled =>
            rw [if_neg filled] at sound
            split
            case isTrue done =>
              rw [if_pos done] at sound
              have sends := (sound request List.mem_cons_self).sends known least
              exact ⟨asserted_none, fun _ => one sends _⟩
            case isFalse more =>
              rw [if_neg more] at sound
              have sends := (sound request List.mem_cons_self).sends known least
              have held := sends.held
              have carried := sends.carried
              obtain ⟨asserted, takes⟩ :=
                ih sends.known sends.least (by omega) (now sends) fun r later =>
                  sound r (List.mem_cons_of_mem _ later)
              exact ⟨asserted, fun done => takes_more sends (takes done)⟩

/-- The bytes of a channel that wait in a group since the last tick. -/
def Ue.waiting (ue : Ue) (group lcid : Nat) : Int :=
  if ue.lcidStatus lcid = true ∧ ue.lcgid lcid = group then ue.lcidBufferRemain lcid else 0

/-- The stored values, for channels whose occupancy moved since the tick (`moved`) and for
others. -/
structure Booked (ue : Ue) (moved : Nat → Bool) : Prop where
  group : ∀ lcid ∈ lcids, ue.lcidStatus lcid = true → ue.lcgid lcid < maxNumLcgid
  known : ∀ lcid ∈ lcids, ue.lcidStatus lcid = true → Known (ue.rlc lcid)
  least : ∀ lcid ∈ lcids, ue.lcidStatus lcid = true → 0 ≤ ue.lcidBufferRemain lcid
  held : ∀ lcid ∈ lcids, ue.lcidStatus lcid = true → moved lcid = false → heldBy (ue.rlc lcid) =
    ue.lcidBufferRemain lcid
  share : ∀ group < maxNumLcgid, ∑ lcid ∈ lcids.toFinset, ue.waiting group lcid ≤ ue.bsrBytes group
  fits : ∀ group < maxNumLcgid, ue.bsrBytes group < 2 ^ 31

/-- No channel with data moved since the tick. -/
def Still (ue : Ue) (moved : Nat → Bool) : Prop := ∀ lcid ∈ lcids, ue.lcidStatus lcid = true →
    moved lcid = false

variable {ue : Ue} {moved : Nat → Bool}

theorem Booked.waiting_least (booked : Booked ue moved) (group lcid : Nat)
    (channel : lcid ∈ lcids) :
    0 ≤ ue.waiting group lcid := by
  unfold Ue.waiting
  split
  case isTrue counted => exact booked.least lcid channel counted.1
  case isFalse => exact Int.le_refl 0

/-- A channel with data waits for no more than its group. -/
theorem Booked.remain_le (booked : Booked ue moved) {lcid : Nat} (channel : lcid ∈ lcids)
    (data : ue.lcidStatus lcid = true) :
    ue.lcidBufferRemain lcid ≤ ue.bsrBytes (ue.lcgid lcid) := by
  have mine : ue.waiting (ue.lcgid lcid) lcid = ue.lcidBufferRemain lcid := if_pos ⟨data, rfl⟩
  rw [← mine]
  refine Int.le_trans ?_ (booked.share _ (booked.group lcid channel data))
  exact Finset.single_le_sum (f := ue.waiting (ue.lcgid lcid))
    (fun other member => booked.waiting_least _ other (List.mem_toFinset.mp member))
      (List.mem_toFinset.mpr channel)

def sentFor (lcgid : Nat → Nat) (group : Nat) (requests : List Request) : Int :=
  ((requests.filter fun r => decide (lcgid r.lcid = group)).map Request.carried).sum

theorem sentFor_append (lcgid : Nat → Nat) (group : Nat) (l more : List Request) :
    sentFor lcgid group (l ++ more) = sentFor lcgid group l + sentFor lcgid group more := by
  unfold sentFor
  rw [List.filter_append, List.map_append, List.sum_append]

theorem Served.Takes.sentFor {lcid : Nat} {entity : Option RlcEntity} {served : Served}
    (takes : served.Takes lcid entity) (lcgid : Nat → Nat) (group : Nat) :
    sentFor lcgid group served.requests =
      if lcgid lcid = group then heldBy entity - heldBy served.entity else 0 := by
  unfold Bsr.sentFor
  split
  case isTrue mine =>
    rw [List.filter_eq_self.mpr
      fun r member => decide_eq_true ((takes.mine r member).symm ▸ mine), takes.carried]
  case isFalse other =>
    rw [List.filter_eq_nil_iff.mpr fun r member => ?_]
    · rfl
    · rw [takes.mine r member, decide_eq_true_eq]
      exact other

/-- What serving channels keeps, and what it takes off `BSR_bytes`. -/
structure Filled.Serves (moved : Nat → Bool) (s t : Filled) : Prop where
  booked : Booked t.ue moved
  still : Still t.ue moved
  lcgid : t.ue.lcgid = s.ue.lcgid
  bsrBytes : ∃ more, t.requests = s.requests ++ more ∧
    ∀ group < maxNumLcgid, t.ue.bsrBytes group = s.ue.bsrBytes group - sentFor s.ue.lcgid group more

theorem serves_nothing {s : Filled} (booked : Booked s.ue moved) (still : Still s.ue moved) :
    s.Serves moved s where
  booked := booked
  still := still
  lcgid := rfl
  bsrBytes := ⟨[], (List.append_nil _).symm, fun _ _ => (Int.sub_zero _).symm⟩

theorem Filled.Serves.trans {s t u : Filled} (first : s.Serves moved t)
    (second : t.Serves moved u) :
    s.Serves moved u where
  booked := second.booked
  still := second.still
  lcgid := second.lcgid.trans first.lcgid
  bsrBytes := by
    obtain ⟨more, appended, less⟩ := first.bsrBytes
    obtain ⟨rest, appendedRest, lessRest⟩ := second.bsrBytes
    refine ⟨more ++ rest, by rw [appendedRest, appended, List.append_assoc], fun group inside => ?_⟩
    rw [lessRest group inside, less group inside, sentFor_append, first.lcgid]
    omega

theorem afterTransmission_waiting (ue : Ue) (lcid : Nat) (entity : Option RlcEntity)
    (new bytes : Int) (group : Nat) :
    (ue.afterTransmission lcid entity new bytes).waiting group =
    update (ue.waiting group) lcid 0 := by
  funext other
  unfold Ue.waiting Ue.afterTransmission
  by_cases same : other = lcid
  · subst same
    simp only [Function.update_self, Bool.false_eq_true, false_and, ↓reduceIte]
  · simp only [Function.update_of_ne same]

/-- The channel served waits no more; the others of the group wait as before. -/
theorem waiting_sum (ue : Ue) {lcid : Nat} (channel : lcid ∈ lcids) (entity : Option RlcEntity)
    (new bytes : Int)
    (group : Nat) :
    ∑ other ∈ lcids.toFinset, (ue.afterTransmission lcid entity new bytes).waiting group other =
      ∑ other ∈ lcids.toFinset, ue.waiting group other - ue.waiting group lcid := by
  have member := List.mem_toFinset.mpr channel
  rw [afterTransmission_waiting, Finset.sum_update_of_mem member, ← Finset.add_sum_erase _ _ member,
    Finset.sdiff_singleton_eq_erase]
  omega

theorem Booked.afterTransmission (booked : Booked ue moved) {lcid : Nat} (channel : lcid ∈ lcids)
    (data : ue.lcidStatus lcid = true) {entity : Option RlcEntity} {new : Int} (least : 0 ≤ new)
    (less : new ≤ ue.lcidBufferRemain lcid) :
    Booked (ue.afterTransmission lcid entity new
      (ue.bsrBytes (ue.lcgid lcid) - (ue.lcidBufferRemain lcid - new))) moved := by
  have others : ∀ {other}, update ue.lcidStatus lcid false other = true → other ≠ lcid ∧
      ue.lcidStatus other = true := by
    intro other waits
    by_cases same : other = lcid
    · rw [same, Function.update_self] at waits
      cases waits
    · rw [Function.update_of_ne same] at waits
      exact ⟨same, waits⟩
  constructor
  case group => exact fun other member waits => booked.group other member (others waits).2
  case known =>
    intro other member waits
    obtain ⟨apart, waits⟩ := others waits
    simp only [Ue.afterTransmission, Function.update_of_ne apart]
    exact booked.known other member waits
  case least =>
    intro other member waits
    obtain ⟨apart, waits⟩ := others waits
    simp only [Ue.afterTransmission, Function.update_of_ne apart]
    exact booked.least other member waits
  case held =>
    intro other member waits rests
    obtain ⟨apart, waits⟩ := others waits
    simp only [Ue.afterTransmission, Function.update_of_ne apart]
    exact booked.held other member waits rests
  case share =>
    intro group inside
    rw [waiting_sum ue channel]
    have before := booked.share group inside
    by_cases mine : group = ue.lcgid lcid
    · subst mine
      have counted : ue.waiting (ue.lcgid lcid) lcid = ue.lcidBufferRemain lcid :=
        if_pos ⟨data, rfl⟩
      simp only [Ue.afterTransmission, Function.update_self, counted]
      omega
    · have apart : ue.waiting group lcid = 0 := if_neg fun both => mine both.2.symm
      simp only [Ue.afterTransmission, Function.update_of_ne mine, apart, Int.sub_zero]
      exact before
  case fits =>
    intro group inside
    by_cases mine : group = ue.lcgid lcid
    · subst mine
      have before := booked.fits _ inside
      simp only [Ue.afterTransmission, Function.update_self]
      omega
    · simp only [Ue.afterTransmission, Function.update_of_ne mine]
      exact booked.fits group inside

theorem Still.afterTransmission (still : Still ue moved) {lcid : Nat} {entity : Option RlcEntity}
    {new bytes : Int} :
    Still (ue.afterTransmission lcid entity new bytes) moved := by
  intro other member waits
  by_cases same : other = lcid
  · simp only [Ue.afterTransmission, same, Function.update_self, Bool.false_eq_true] at waits
  · simp only [Ue.afterTransmission, Function.update_of_ne same] at waits
    exact still other member waits

/-- What `ue_get_sdu` reads of a channel that waits: the entity tells what the tick stored for it,
and the group has room for that. -/
theorem Booked.now (booked : Booked ue moved) (still : Still ue moved) {lcid : Nat}
    (channel : lcid ∈ lcids) (data : ue.lcidStatus lcid = true) :
    Known (ue.rlc lcid) ∧ 0 ≤ heldBy (ue.rlc lcid) ∧
      heldBy (ue.rlc lcid) ≤ ue.bsrBytes (ue.lcgid lcid) ∧
      macRlcGetBufferOccupancyInd (ue.rlc lcid) = heldBy (ue.rlc lcid) ∧
      heldBy (ue.rlc lcid) = ue.lcidBufferRemain lcid := by
  have known := booked.known lcid channel data
  have least := booked.least lcid channel data
  have room := booked.remain_le channel data
  have fits := booked.fits _ (booked.group lcid channel data)
  have held := booked.held lcid channel data (still lcid channel data)
  rw [← held] at least room
  exact ⟨known, least, room, occupancy_eq known least (Int.lt_of_le_of_lt room fits), held⟩

theorem serveChannel_serves (grant : Grant) {s : Filled} {lcid : Nat} (channel : lcid ∈ lcids)
    (running : s.fault = none)
    (booked : Booked s.ue moved) (still : Still s.ue moved)
    (sound : ∀ r ∈ (serveChannel grant s lcid).requests, r.Sound) :
    Asserted (serveChannel grant s lcid).fault ∧
      ((serveChannel grant s lcid).fault = none → s.Serves moved (serveChannel grant s lcid)) := by
  unfold serveChannel at sound ⊢
  dsimp only at sound ⊢
  split
  case isFalse =>
    rw [running]
    exact ⟨asserted_none, fun _ => serves_nothing booked still⟩
  case isTrue turn =>
    rw [if_pos turn] at sound
    obtain ⟨-, -, data⟩ := turn
    have inside := booked.group lcid channel data
    have fits := booked.fits _ inside
    obtain ⟨known, least, room, told, held⟩ := booked.now still channel data
    have equal : ¬ macRlcGetBufferOccupancyInd (s.ue.rlc lcid) ≠ s.ue.lcidBufferRemain lcid :=
      not_not.mpr (told.trans held)
    have within : ¬ s.ue.bsrBytes (s.ue.lcgid lcid) <
        macRlcGetBufferOccupancyInd (s.ue.rlc lcid) := by
      rw [told]
      omega
    rw [if_neg equal, if_neg (Nat.not_le.mpr inside), if_neg within] at sound ⊢
    have done := @multiplexPdus_takes grant lcid grant.buflen 0 _ _ s.m known least
      (Int.lt_of_le_of_lt room fits) told
    generalize multiplexPdus grant lcid grant.buflen 0 (s.ue.rlc lcid)
      (macRlcGetBufferOccupancyInd (s.ue.rlc lcid)) s.m =
      served at done sound ⊢
    cases failed : served.fault with
    | some fault =>
      rw [failed, Option.isSome_some, if_pos rfl] at sound
      obtain ⟨asserted, -⟩ := done fun r member => sound r (List.mem_append_right _ member)
      rw [failed] at asserted
      rw [Option.isSome_some, if_pos rfl]
      exact ⟨asserted, fun done => absurd done (Option.some_ne_none fault)⟩
    | none =>
      rw [failed, Option.isSome_none, if_neg Bool.false_ne_true] at sound
      rw [Option.isSome_none, if_neg Bool.false_ne_true]
      have takes : served.Takes lcid (s.ue.rlc lcid) := by
        refine (done fun r member => sound r ?_).2 failed
        split
        · exact List.mem_append_right _ member
        · exact List.mem_append_right _ member
      have small := takes.less
      have leastNew := takes.least
      have change : int32 (s.ue.bsrBytes (s.ue.lcgid lcid) +
          int32 (served.occupancyNew - macRlcGetBufferOccupancyInd (s.ue.rlc lcid))) =
          s.ue.bsrBytes (s.ue.lcgid lcid) - (s.ue.lcidBufferRemain lcid - served.occupancyNew) := by
        rw [takes.occupancy, told, ← held]
        rw [int32_eq (n := heldBy served.entity - heldBy (s.ue.rlc lcid)), int32_eq] <;> omega
      rw [if_neg (by rw [takes.occupancy, told]; omega), change]
      refine ⟨running ▸ asserted_none, fun _ => ?_⟩
      exact {
        booked := booked.afterTransmission channel data (takes.occupancy ▸ leastNew)
          (by rw [takes.occupancy, ← held]; exact small)
        still := still.afterTransmission
        lcgid := rfl
        bsrBytes := by
          refine ⟨served.requests, rfl, fun group _ => ?_⟩
          rw [takes.sentFor]
          split
          case isTrue mine =>
            subst mine
            simp only [Ue.afterTransmission, Function.update_self, takes.occupancy, held]
          case isFalse other =>
            simp only [Ue.afterTransmission, Function.update_of_ne (Ne.symm other), Int.sub_zero] }

theorem serveChannel_requests (grant : Grant) (s : Filled) (lcid : Nat) :
    ∀ r ∈ s.requests, r ∈ (serveChannel grant s lcid).requests := by
  intro r member
  unfold serveChannel
  dsimp only
  split
  case isFalse => exact member
  case isTrue =>
    split
    · exact member
    split
    · exact member
    split
    · exact member
    split
    · exact List.mem_append_left _ member
    split
    · exact List.mem_append_left _ member
    · exact List.mem_append_left _ member

theorem foldl_requests (grant : Grant) (l : List Nat) (s : Filled) :
    ∀ r ∈ s.requests, r ∈ (l.foldl (serveChannel grant) s).requests := by
  induction l generalizing s with
  | nil => exact fun r member => member
  | cons lcid rest ih => exact fun r member => ih _ r (serveChannel_requests grant s lcid r member)

theorem foldl_fault (grant : Grant) (l : List Nat) {s : Filled} {fault : Fault}
    (failed : s.fault = some fault) :
    l.foldl (serveChannel grant) s = s := by
  induction l with
  | nil => rfl
  | cons lcid rest ih =>
    have done : serveChannel grant s lcid = s :=
      if_neg fun turn => absurd (failed.symm.trans turn.1) (Option.some_ne_none fault)
    rw [List.foldl_cons, done, ih]

theorem foldl_serves (grant : Grant) {l : List Nat} (inside : ∀ lcid ∈ l, lcid ∈ lcids) {s : Filled}
    (running : s.fault = none) (booked : Booked s.ue moved) (still : Still s.ue moved)
    (sound : ∀ r ∈ (l.foldl (serveChannel grant) s).requests, r.Sound) :
    Asserted (l.foldl (serveChannel grant) s).fault ∧
      ((l.foldl (serveChannel grant) s).fault = none →
        s.Serves moved (l.foldl (serveChannel grant) s)) := by
  induction l generalizing s with
  | nil =>
    rw [List.foldl_nil, running]
    exact ⟨asserted_none, fun _ => serves_nothing booked still⟩
  | cons lcid rest ih =>
    rw [List.foldl_cons] at sound ⊢
    obtain ⟨asserted, serves⟩ :=
      serveChannel_serves grant (inside lcid List.mem_cons_self) running booked still
      fun r member => sound r (foldl_requests grant rest _ r member)
    cases first : (serveChannel grant s lcid).fault with
    | some fault =>
      rw [foldl_fault grant rest first]
      exact ⟨asserted, serves⟩
    | none =>
      have one := serves first
      obtain ⟨assertedRest, servesRest⟩ :=
        ih (fun other member => inside other (List.mem_cons_of_mem _ member)) first
        one.booked one.still sound
      exact ⟨assertedRest, fun done => one.trans (servesRest done)⟩

/-- A tick's reading of one channel: the entity after its timers, and the bytes reported. -/
def Ue.read (time : Nat) (ue : Ue) (lcid : Nat) : Option RlcEntity × Int :=
  macRlcStatusInd debugTbSize time (ue.rlc lcid)

/-- What one round of the loop stores for a channel that is configured. -/
structure Tick.Reads (time : Nat) (ue : Ue) (lcid : Nat) (w next : Tick) : Prop where
  rlc : next.rlc = update w.rlc lcid (ue.read time lcid).1
  bytes : next.lcidBytesInBuffer = update w.lcidBytesInBuffer lcid (ue.read time lcid).2
  status : next.lcidStatus = if (ue.read time lcid).2 > 0 then update w.lcidStatus lcid true
    else w.lcidStatus
  bsrBytes : next.bsrBytes =
    if (ue.read time lcid).2 > 0 ∧ ue.lcgid lcid < maxNumLcgid then
      update w.bsrBytes (ue.lcgid lcid) (int32 (w.bsrBytes (ue.lcgid lcid) + (ue.read time lcid).2))
    else
      w.bsrBytes

theorem tickChannel_reads {time : Nat} {w : Tick} {lcid priority : Nat}
    (configured : ue.logicalChannelConfig lcid = some priority) (same : w.rlc lcid = ue.rlc lcid) :
    Tick.Reads time ue lcid w (tickChannel time ue w lcid) := by
  rw [tickChannel, configured, same]
  dsimp only
  split
  case isTrue some =>
    split
    case isTrue inside => exact ⟨rfl, rfl, (if_pos some).symm, (if_pos ⟨some, inside⟩).symm⟩
    case isFalse outside =>
      exact ⟨rfl, rfl, (if_pos some).symm, (if_neg fun both => outside both.2).symm⟩
  case isFalse nothing =>
    exact ⟨rfl, rfl, (if_neg nothing).symm, (if_neg fun both => nothing both.1).symm⟩

theorem tickChannel_unconfigured {time : Nat} {w : Tick} {lcid : Nat}
    (unconfigured : ue.logicalChannelConfig lcid = none) : tickChannel time ue w lcid = w := by
  rw [tickChannel, unconfigured]

theorem tickChannel_other {time : Nat} {w : Tick} {lcid other : Nat} (apart : other ≠ lcid)
    (same : w.rlc lcid = ue.rlc lcid) :
    (tickChannel time ue w lcid).rlc other = w.rlc other ∧
      (tickChannel time ue w lcid).lcidBytesInBuffer other = w.lcidBytesInBuffer other ∧
      (tickChannel time ue w lcid).lcidStatus other = w.lcidStatus other := by
  cases config : ue.logicalChannelConfig lcid with
  | none =>
    rw [tickChannel_unconfigured config]
    exact ⟨rfl, rfl, rfl⟩
  | some priority =>
    have reads := (@tickChannel_reads _ time _ _ _) config same
    rw [reads.rlc, reads.bytes, reads.status]
    refine ⟨Function.update_of_ne apart .., Function.update_of_ne apart .., ?_⟩
    split
    · exact Function.update_of_ne apart ..
    · rfl

/-- What the loop has stored for the channel `lcid`. -/
structure Tick.Channel (time : Nat) (ue : Ue) (w : Tick) (lcid : Nat) : Prop where
  rlc : w.rlc lcid = (ue.read time lcid).1
  bytes : w.lcidBytesInBuffer lcid = (ue.read time lcid).2
  status : w.lcidStatus lcid = decide ((ue.read time lcid).2 > 0)

/-- The loop leaves a channel alone that it does not come to, or that is not configured. -/
theorem foldl_other {time : Nat} {l : List Nat} {w : Tick}
    (same : ∀ lcid ∈ l, w.rlc lcid = ue.rlc lcid)
    (distinct : l.Nodup) {other : Nat}
    (untouched : other ∈ l → ue.logicalChannelConfig other = none) :
    (l.foldl (tickChannel time ue) w).rlc other = w.rlc other ∧
      (l.foldl (tickChannel time ue) w).lcidBytesInBuffer other = w.lcidBytesInBuffer other ∧
      (l.foldl (tickChannel time ue) w).lcidStatus other = w.lcidStatus other := by
  induction l generalizing w with
  | nil => exact ⟨rfl, rfl, rfl⟩
  | cons lcid rest ih =>
    obtain ⟨fresh, distinct⟩ := List.nodup_cons.mp distinct
    have one : (tickChannel time ue w lcid).rlc other = w.rlc other ∧
        (tickChannel time ue w lcid).lcidBytesInBuffer other = w.lcidBytesInBuffer other ∧
        (tickChannel time ue w lcid).lcidStatus other = w.lcidStatus other := by
      by_cases apart : other = lcid
      · subst apart
        rw [tickChannel_unconfigured (untouched List.mem_cons_self)]
        exact ⟨rfl, rfl, rfl⟩
      · exact tickChannel_other apart (same lcid List.mem_cons_self)
    obtain ⟨rlc, bytes, status⟩ := one
    rw [List.foldl_cons, ← rlc, ← bytes, ← status]
    refine ih (fun next member => ?_) distinct
      (fun later => untouched (List.mem_cons_of_mem _ later))
    have unlike : next ≠ lcid := fun equal => fresh (equal ▸ member)
    rw [(tickChannel_other unlike (same lcid List.mem_cons_self)).1]
    exact same next (List.mem_cons_of_mem _ member)

theorem foldl_channel {time : Nat} {l : List Nat} {w : Tick}
    (same : ∀ lcid ∈ l, w.rlc lcid = ue.rlc lcid)
    (distinct : l.Nodup) (empty : ∀ lcid ∈ l, w.lcidStatus lcid = false) {lcid priority : Nat}
    (member : lcid ∈ l)
    (configured : ue.logicalChannelConfig lcid = some priority) :
    (l.foldl (tickChannel time ue) w).Channel time ue lcid := by
  induction l generalizing w with
  | nil => exact absurd member List.not_mem_nil
  | cons first rest ih =>
    obtain ⟨fresh, apart⟩ := List.nodup_cons.mp distinct
    have here := same first List.mem_cons_self
    have others : ∀ next ∈ rest, _ := fun next later =>
      (@tickChannel_other _ time _ _ _) (fun equal => fresh (equal ▸ later) : next ≠ first) here
    have sameRest : ∀ next ∈ rest, (tickChannel time ue w first).rlc next = ue.rlc next :=
      fun next later =>
        (others next later).1.trans (same next (List.mem_cons_of_mem _ later))
    rcases List.mem_cons.mp member with rfl | later
    · have reads := (@tickChannel_reads _ time _ _ _) configured here
      obtain ⟨rlc, bytes, status⟩ := (@foldl_other _ time _ _) sameRest apart (absurd · fresh)
      constructor
      · rw [List.foldl_cons, rlc, reads.rlc, Function.update_self]
      · rw [List.foldl_cons, bytes, reads.bytes, Function.update_self]
      · rw [List.foldl_cons, status, reads.status]
        split
        case isTrue some => rw [Function.update_self, decide_eq_true some]
        case isFalse nothing => rw [empty _ List.mem_cons_self, decide_eq_false nothing]
    · exact ih sameRest apart
        (fun next after =>
        (others next after).2.2.trans (empty next (List.mem_cons_of_mem _ after)))
        later

/-- What a channel adds to `BSR_bytes` of a group. -/
def Ue.counted (time : Nat) (ue : Ue) (group lcid : Nat) : Int :=
  if (ue.logicalChannelConfig lcid).isSome ∧ ue.lcgid lcid = group then (ue.read time lcid).2 else 0

theorem tickChannel_bsrBytes {time : Nat} {w : Tick} {lcid group : Nat}
    (same : w.rlc lcid = ue.rlc lcid)
    (inside : group < maxNumLcgid) (start : 0 ≤ w.bsrBytes group)
    (least : 0 ≤ ue.counted time group lcid)
    (fits : w.bsrBytes group + ue.counted time group lcid < 2 ^ 31) :
    (tickChannel time ue w lcid).bsrBytes group =
    w.bsrBytes group + ue.counted time group lcid := by
  unfold Ue.counted at least fits ⊢
  cases config : ue.logicalChannelConfig lcid with
  | none =>
    rw [tickChannel_unconfigured config, if_neg fun both => absurd both.1 (by decide), Int.add_zero]
  | some priority =>
    rw [(tickChannel_reads config same).bsrBytes]
    simp only [config, Option.isSome_some, true_and] at least fits ⊢
    by_cases mine : ue.lcgid lcid = group
    · subst mine
      simp only [↓reduceIte, inside, and_true] at least fits ⊢
      split
      case isTrue some => rw [Function.update_self, int32_eq (by omega) fits]
      case isFalse nothing => omega
    · rw [if_neg mine, Int.add_zero]
      split
      · exact Function.update_of_ne (Ne.symm mine) ..
      · rfl

/-- `BSR_bytes` of a group is the sum over its channels, as long as the sum fits. -/
theorem foldl_bsrBytes {time group : Nat} (inside : group < maxNumLcgid) {l : List Nat} {w : Tick}
    (same : ∀ lcid ∈ l, w.rlc lcid = ue.rlc lcid) (distinct : l.Nodup)
    (start : 0 ≤ w.bsrBytes group)
    (least : ∀ lcid ∈ l, 0 ≤ ue.counted time group lcid)
    (fits : w.bsrBytes group + ∑ lcid ∈ l.toFinset, ue.counted time group lcid < 2 ^ 31) :
    (l.foldl (tickChannel time ue) w).bsrBytes group =
      w.bsrBytes group + ∑ lcid ∈ l.toFinset, ue.counted time group lcid := by
  induction l generalizing w with
  | nil => exact (Int.add_zero _).symm
  | cons lcid rest ih =>
    obtain ⟨fresh, distinct⟩ := List.nodup_cons.mp distinct
    rw [List.toFinset_cons, Finset.sum_insert (mt List.mem_toFinset.mp fresh)] at fits ⊢
    have here := same lcid List.mem_cons_self
    have mine := least lcid List.mem_cons_self
    have others : 0 ≤ ∑ other ∈ rest.toFinset, ue.counted time group other :=
      Finset.sum_nonneg
        fun other member => least other (List.mem_cons_of_mem _ (List.mem_toFinset.mp member))
    have one := (@tickChannel_bsrBytes _ time _ _ _) here inside start mine (by omega)
    rw [List.foldl_cons, ih (fun other member => ?_) distinct (by omega)
      (fun other member => least other (List.mem_cons_of_mem _ member)) (by omega),
        one, Int.add_assoc]
    have unlike : other ≠ lcid := fun equal => fresh (equal ▸ member)
    exact (tickChannel_other unlike here).1.trans (same other (List.mem_cons_of_mem _ member))

def Ue.channels (ue : Ue) (group : Nat) : Finset Nat :=
  lcids.toFinset.filter fun lcid => (ue.logicalChannelConfig lcid).isSome ∧ ue.lcgid lcid = group

/-- What a tick has to find: the SDU table of an AM entity that holds bytes is there, no occupancy
is negative, a channel with data has a group and is not in transparent mode, and the sums fit. -/
structure Readable (time : Nat) (ue : Ue) : Prop where
  ready : ∀ lcid ∈ lcids, (ue.logicalChannelConfig lcid).isSome → ∀ allowed inputSdus e,
    ue.rlc lcid = some (.am allowed inputSdus e) → inputSdus = false → e.held = 0
  least : ∀ lcid ∈ lcids, (ue.logicalChannelConfig lcid).isSome → 0 ≤ heldBy (ue.read time lcid).1
  grouped : ∀ lcid ∈ lcids, (ue.logicalChannelConfig lcid).isSome →
    0 < heldBy (ue.read time lcid).1 →
    ue.lcgid lcid < maxNumLcgid ∧ Known (ue.read time lcid).1
  fits : ∀ group < maxNumLcgid, ∑ lcid ∈ ue.channels group, heldBy (ue.read time lcid).1 < 2 ^ 31

variable {time : Nat}

theorem Readable.small (readable : Readable time ue) {lcid : Nat} (channel : lcid ∈ lcids)
    (configured : (ue.logicalChannelConfig lcid).isSome) :
    heldBy (ue.read time lcid).1 < 2 ^ 31 := by
  by_cases some : 0 < heldBy (ue.read time lcid).1
  · refine Int.lt_of_le_of_lt ?_ (readable.fits _ (readable.grouped lcid channel configured some).1)
    refine Finset.single_le_sum (f := fun lcid => heldBy (ue.read time lcid).1)
      (fun other member => ?_)
      (Finset.mem_filter.mpr ⟨List.mem_toFinset.mpr channel, configured, rfl⟩)
    obtain ⟨inside, configured, -⟩ := Finset.mem_filter.mp member
    exact readable.least other (List.mem_toFinset.mp inside) configured
  · omega

theorem Readable.told (readable : Readable time ue) {lcid : Nat} (channel : lcid ∈ lcids)
    (configured : (ue.logicalChannelConfig lcid).isSome) :
    (ue.read time lcid).2 = heldBy (ue.read time lcid).1 := by
  have least := readable.least lcid channel configured
  have small := readable.small channel configured
  have grouped := readable.grouped lcid channel configured
  have ready := readable.ready lcid channel configured
  unfold Ue.read at least small grouped ⊢
  cases entity : ue.rlc lcid with
  | none => rfl
  | some kind =>
    rw [entity] at least small grouped ready
    cases kind with
    | am allowed inputSdus e =>
      unfold macRlcStatusInd at least small ⊢
      dsimp only at least small ⊢
      split
      case isTrue allocated =>
        rw [if_pos allocated] at least small
        dsimp only at least small ⊢
        exact am_told least small
      case isFalse missing =>
        have nothing := ready allowed inputSdus e rfl (Bool.eq_false_of_not_eq_true missing)
        exact nothing.symm
    | um allowed length tx =>
      dsimp only [macRlcStatusInd] at small ⊢
      exact um_told small
    | tm e =>
      have nothing : e.bufferOccupancy = 0 := by
        by_contra some
        exact (grouped (lt_of_le_of_ne least (Ne.symm some))).2
      change int32 e.bufferOccupancy = e.bufferOccupancy
      rw [nothing]
      rfl

theorem Readable.counted (readable : Readable time ue) {group lcid : Nat} (channel : lcid ∈ lcids) :
    ue.counted time group lcid =
      if (ue.logicalChannelConfig lcid).isSome ∧ ue.lcgid lcid = group then
      heldBy (ue.read time lcid).1 else 0 := by
  unfold Ue.counted
  split
  case isTrue mine => exact readable.told channel mine.1
  case isFalse => rfl

theorem Readable.sum (readable : Readable time ue) (group : Nat) :
    ∑ lcid ∈ lcids.toFinset, ue.counted time group lcid =
      ∑ lcid ∈ ue.channels group, heldBy (ue.read time lcid).1 := by
  rw [Ue.channels, Finset.sum_filter]
  exact Finset.sum_congr rfl fun lcid member => readable.counted (List.mem_toFinset.mp member)

theorem lcids_nodup : lcids.Nodup := List.nodup_range' ..

theorem reset_empty (ue : Ue) : ∀ lcid ∈ lcids, ue.reset.lcidStatus lcid = false :=
  fun _ member => if_pos member

theorem updateBsr_channel (retxBsrSf : Nat) {lcid priority : Nat} (channel : lcid ∈ lcids)
    (configured : ue.logicalChannelConfig lcid = some priority) :
    (updateBsr time retxBsrSf ue).1.rlc lcid = (ue.read time lcid).1 ∧
      (updateBsr time retxBsrSf ue).1.lcidBufferRemain lcid = (ue.read time lcid).2 ∧
      (updateBsr time retxBsrSf ue).1.lcidStatus lcid = decide ((ue.read time lcid).2 > 0) := by
  have stored := (@foldl_channel _ time _ ue.reset) (fun _ _ => rfl) lcids_nodup (reset_empty ue)
    channel configured
  exact ⟨stored.rlc, (if_pos channel).trans stored.bytes, stored.status⟩

theorem updateBsr_unconfigured (retxBsrSf : Nat) {lcid : Nat} (channel : lcid ∈ lcids)
    (unconfigured : ue.logicalChannelConfig lcid = none) :
    (updateBsr time retxBsrSf ue).1.lcidStatus lcid = false := by
  have kept := (@foldl_other _ time _ ue.reset) (fun _ _ => rfl) lcids_nodup
    (fun _ => unconfigured)
  exact kept.2.2.trans (reset_empty ue lcid channel)

theorem Readable.counted_least (readable : Readable time ue) (group : Nat) {lcid : Nat}
    (channel : lcid ∈ lcids) :
    0 ≤ ue.counted time group lcid := by
  rw [readable.counted channel]
  split
  case isTrue mine => exact readable.least lcid channel mine.1
  case isFalse => exact Int.le_refl 0

theorem updateBsr_bsrBytes (readable : Readable time ue) (retxBsrSf : Nat) {group : Nat}
    (inside : group < maxNumLcgid) :
    (updateBsr time retxBsrSf ue).1.bsrBytes group =
      ∑ lcid ∈ ue.channels group, heldBy (ue.read time lcid).1 := by
  have start : ue.reset.bsrBytes group = 0 := if_pos inside
  have summed := @foldl_bsrBytes _ time _ inside _ ue.reset (fun _ _ => rfl) lcids_nodup
    (Int.le_of_eq start.symm) (fun lcid member => readable.counted_least group member)
  rw [start, Int.zero_add, readable.sum] at summed
  exact summed (readable.fits group inside)

theorem updateBsr_booked (readable : Readable time ue) (retxBsrSf : Nat) :
    Booked (updateBsr time retxBsrSf ue).1 fun _ => false := by
  have data : ∀ lcid ∈ lcids, (updateBsr time retxBsrSf ue).1.lcidStatus lcid = true →
      (ue.logicalChannelConfig lcid).isSome ∧ (updateBsr time retxBsrSf ue).1.rlc lcid =
        (ue.read time lcid).1 ∧
        (updateBsr time retxBsrSf ue).1.lcidBufferRemain lcid = heldBy (ue.read time lcid).1 ∧
        0 < heldBy (ue.read time lcid).1 := by
    intro lcid channel waits
    cases config : ue.logicalChannelConfig lcid with
    | none =>
      rw [updateBsr_unconfigured retxBsrSf channel config] at waits
      cases waits
    | some priority =>
      obtain ⟨rlc, bytes, status⟩ := (@updateBsr_channel _ time) retxBsrSf channel config
      have told := readable.told channel (by rw [config]; rfl)
      rw [status, told, decide_eq_true_eq] at waits
      exact ⟨rfl, rlc, bytes.trans told, waits⟩
  constructor
  case group =>
    intro lcid channel waits
    obtain ⟨configured, -, -, some⟩ := data lcid channel waits
    exact (readable.grouped lcid channel configured some).1
  case known =>
    intro lcid channel waits
    obtain ⟨configured, rlc, -, some⟩ := data lcid channel waits
    rw [rlc]
    exact (readable.grouped lcid channel configured some).2
  case least =>
    intro lcid channel waits
    obtain ⟨-, -, bytes, some⟩ := data lcid channel waits
    rw [bytes]
    exact Int.le_of_lt some
  case held =>
    intro lcid channel waits _
    obtain ⟨-, rlc, bytes, -⟩ := data lcid channel waits
    rw [rlc, bytes]
  case share =>
    intro group inside
    rw [updateBsr_bsrBytes readable retxBsrSf inside, ← readable.sum group]
    refine Finset.sum_le_sum fun lcid member => ?_
    have channel := List.mem_toFinset.mp member
    unfold Ue.waiting
    split
    case isTrue mine =>
      obtain ⟨configured, -, bytes, -⟩ := data lcid channel mine.1
      rw [bytes, readable.counted channel]
      exact Int.le_of_eq (if_pos ⟨configured, mine.2⟩).symm
    case isFalse => exact readable.counted_least group channel
  case fits =>
    intro group inside
    rw [updateBsr_bsrBytes readable retxBsrSf inside]
    exact readable.fits group inside

/-- An SDU from above, a PDU that the receiving side of an AM entity takes in (its entity is `e`
then), a tick of `ue_scheduler`, and an uplink grant. -/
inductive Event where
  | arrive (lcid : Nat) (mem : Memory) (size mui : Nat)
  | receive (lcid : Nat) (e : Rlc.Am.Entity)
  | tick (time retxBsrSf : Nat)
  | grant (g : Grant)

/-- A UE, and which channels have changed their occupancy since the last tick otherwise than by a
grant. -/
structure Watch where
  ue : Ue
  moved : Nat → Bool := fun _ => false

/-- The entity of a channel is another one. -/
def Watch.exchange (w : Watch) (lcid : Nat) (entity : Option RlcEntity) : Watch where
  ue := { w.ue with rlc := update w.ue.rlc lcid entity }
  moved := update w.moved lcid (w.moved lcid || decide (heldBy entity ≠ heldBy (w.ue.rlc lcid)))

/-- A failed assertion ends the run. -/
def Watch.step (w : Watch) : Event → Option Watch
  | .arrive lcid mem size mui =>
    match w.ue.rlc lcid with
    | some entity => (entity.dataReq mem size mui).map fun entity => w.exchange lcid (some entity)
    | none => some w
  | .receive lcid e =>
    match w.ue.rlc lcid with
    | some (.am ready inputSdus _) => some (w.exchange lcid (some (.am ready inputSdus e)))
    | _ => some w
  | .tick time retxBsrSf => some { ue := (updateBsr time retxBsrSf w.ue).1 }
  | .grant g => if (ueGetSdu g w.ue).fault = none then
      some { w with ue := (ueGetSdu g w.ue).ue } else none

/-- When a step is harmless: a tick finds what it can count, and a grant finds the channels with
data as the tick left them and asks the RLC for sound PDUs only. -/
def Condition (w : Watch) : Event → Prop
  | .tick time _ => Readable time w.ue
  | .grant g => Still w.ue w.moved ∧ ∀ r ∈ (ueGetSdu g w.ue).requests, r.Sound
  | _ => True

/-- After a tick `BSR_bytes` of a group is what its channels hold; in a grant the asserted
quantities are right, and `BSR_bytes` loses what is sent for the group. -/
def Agrees (ue : Ue) : Event → Prop
  | .tick time retxBsrSf => ∀ group < maxNumLcgid, (updateBsr time retxBsrSf ue).1.bsrBytes group =
      ∑ lcid ∈ ue.channels group, heldBy ((updateBsr time retxBsrSf ue).1.rlc lcid)
  | .grant g => Asserted (ueGetSdu g ue).fault ∧
      ((ueGetSdu g ue).fault = none → ∀ group < maxNumLcgid,
      (ueGetSdu g ue).ue.bsrBytes group = ue.bsrBytes group - sentFor ue.lcgid group
        (ueGetSdu g ue).requests)
  | _ => True

theorem Booked.exchange {w : Watch} (booked : Booked w.ue w.moved) {lcid : Nat}
    {entity : Option RlcEntity}
    (known : Known (w.ue.rlc lcid) → Known entity) :
    Booked (w.exchange lcid entity).ue (w.exchange lcid entity).moved where
  group := booked.group
  known other member waits := by
    by_cases same : other = lcid
    · subst same
      simp only [Watch.exchange, Function.update_self]
      exact known (booked.known other member waits)
    · simp only [Watch.exchange, Function.update_of_ne same]
      exact booked.known other member waits
  least := booked.least
  held other member waits rests := by
    by_cases same : other = lcid
    · subst same
      simp only [Watch.exchange, Function.update_self, Bool.or_eq_false_iff,
        decide_eq_false_iff_not, not_not] at rests ⊢
      exact rests.2.trans (booked.held other member waits rests.1)
    · simp only [Watch.exchange, Function.update_of_ne same] at rests ⊢
      exact booked.held other member waits rests
  share := booked.share
  fits := booked.fits

theorem dataReq_known {mem : Memory} {size mui : Nat} {entity next : RlcEntity}
    (queued : entity.dataReq mem size mui = some next) (known : Known (some entity)) :
    Known (some next) := by
  cases entity with
  | am ready inputSdus e =>
    rw [RlcEntity.dataReq] at queued
    split at queued
    · cases queued
      trivial
    · cases queued
  | um ready length tx =>
    cases queued
    trivial
  | tm e => exact known.elim

theorem step_booked {w next : Watch} {event : Event} (booked : Booked w.ue w.moved)
    (condition : Condition w event) (stepped : w.step event = some next) :
    Booked next.ue next.moved := by
  cases event with
  | arrive lcid mem size mui =>
    unfold Watch.step at stepped
    dsimp only at stepped
    split at stepped
    case h_1 entity there =>
      obtain ⟨queued, dataReq, rfl⟩ := Option.map_eq_some_iff.mp stepped
      exact booked.exchange fun known => dataReq_known dataReq (there ▸ known)
    case h_2 =>
      cases stepped
      exact booked
  | receive lcid e =>
    unfold Watch.step at stepped
    dsimp only at stepped
    split at stepped
    · cases stepped
      exact booked.exchange fun _ => trivial
    · cases stepped
      exact booked
  | tick time retxBsrSf =>
    cases stepped
    exact updateBsr_booked condition retxBsrSf
  | grant g =>
    unfold Watch.step at stepped
    dsimp only at stepped
    split at stepped
    case isTrue done =>
      cases stepped
      exact ((foldl_serves g (fun _ member => member) rfl booked condition.1 condition.2).2
        done).booked
    case isFalse => cases stepped

theorem booked_agrees {w : Watch} {event : Event} (booked : Booked w.ue w.moved)
    (condition : Condition w event) :
    Agrees w.ue event := by
  cases event with
  | arrive lcid mem size mui => trivial
  | receive lcid e => trivial
  | tick time retxBsrSf =>
    intro group inside
    rw [updateBsr_bsrBytes condition retxBsrSf inside]
    refine Finset.sum_congr rfl fun lcid member => ?_
    obtain ⟨channel, configured, -⟩ := Finset.mem_filter.mp member
    obtain ⟨priority, configured⟩ := Option.isSome_iff_exists.mp configured
    rw [(updateBsr_channel retxBsrSf (List.mem_toFinset.mp channel) configured).1]
  | grant g =>
    obtain ⟨asserted, serves⟩ :=
      foldl_serves (s := { ue := w.ue, m := .start g w.ue }) g (fun _ member => member) rfl booked
      condition.1 condition.2
    refine ⟨asserted, fun done group inside => ?_⟩
    obtain ⟨more, appended, sent⟩ := (serves done).bsrBytes
    rw [ueGetSdu, sent group inside, appended, List.nil_append]

/-- A UE that has not been ticked yet. -/
theorem booked_initial (empty : ∀ lcid ∈ lcids, ue.lcidStatus lcid = false)
    (zero : ∀ group < maxNumLcgid, ue.bsrBytes group = 0)
    (moved : Nat → Bool) : Booked ue moved := by
  have never : ∀ lcid ∈ lcids, ue.lcidStatus lcid = true → False := fun lcid member waits =>
    absurd waits (Bool.eq_false_iff.mp (empty lcid member))
  constructor
  case group => exact fun lcid member waits => (never lcid member waits).elim
  case known => exact fun lcid member waits => (never lcid member waits).elim
  case least => exact fun lcid member waits => (never lcid member waits).elim
  case held => exact fun lcid member waits => (never lcid member waits).elim
  case share =>
    intro group inside
    rw [zero group inside]
    refine Int.le_of_eq (Finset.sum_eq_zero fun lcid member => ?_)
    exact if_neg fun both => never lcid (List.mem_toFinset.mp member) both.1
  case fits =>
    intro group inside
    rw [zero group inside]
    decide

/-- In every run of arrivals, received PDUs, ticks and grants whose steps are harmless, the MAC's
books agree with the RLC. -/
theorem books_agree {ue : Ue} (empty : ∀ lcid ∈ lcids, ue.lcidStatus lcid = false)
    (zero : ∀ group < maxNumLcgid, ue.bsrBytes group = 0) {events : List Event}
    (harmless : Run.Meets Watch.step Condition { ue } events) :
    Run.Meets Watch.step (fun w event => Agrees w.ue event) { ue } events :=
  (@Run.meets_of_invariant _ _ _ (fun w => Booked w.ue w.moved) _ _)
    (fun _ _ _ booked condition stepped => step_booked booked condition stepped)
    (fun _ _ booked condition => booked_agrees booked condition)
      (booked_initial empty zero _) harmless

section Example

def amConfig : Rlc.Am.AmConfig where
  maxRetxThreshold := 4
  pollPdu := 8
  pollByte := 25000
  tPollRetransmit := 45
  reordering := 35
  statusProhibit := 0

/-- An AM bearer on channel 3, in group 1, and a UM bearer on channel 4, in group 2. -/
def twoBearers : Ue where
  logicalChannelConfig := update (update (fun _ => none) 3 (some 8)) 4 (some 9)
  lcgid := update (update (fun _ => 0) 3 1) 4 2
  bsrBytes _ := 0
  lcidBufferRemain _ := 0
  lcidStatus _ := false
  rlc := update (update (fun _ => none) 3 (some (.am true true (.fresh amConfig)))) 4
    (some (.um true .ten {}))

/-- Every block is found. -/
def allBlocks : Rlc.Am.Blocks :=
  { block := some fun _ => 0, copied := true, allocated := true, status := true }

def fiftyBytes : Grant := { buflen := 50, time := 20, blocks := fun _ _ => allBlocks }

/-- Bytes that arrive between the tick and the grant end the UE. -/
theorem late_arrival :
    ¬ Run.Meets Watch.step (fun w event => Agrees w.ue event) { ue := twoBearers }
    [.arrive 3 (fun _ => 0) 10 1, .tick 10 1, .arrive 3 (fun _ => 0) 5 2, .grant fiftyBytes] := by
  intro meets
  obtain ⟨asserted, -⟩ := (((meets.2 _ rfl).2 _ rfl).2 _ rfl).1
  have wrong := asserted .occupancyDiffers (by decide +kernel)
  cases wrong

/-- Ten bytes wait, one PDU has been received, and a STATUS PDU is requested. -/
def reporting : Rlc.Am.Entity :=
  { Rlc.Am.Entity.fresh amConfig with
    tx := Rlc.Am.dataReq (Rlc.Am.txInit amConfig.toTxConfig) (fun _ => 0) 10 1
    vrR := 1
    vrMs := 1
    statusRequested := 1 }

theorem reporting_queue : Rlc.Am.QueueOk reporting.tx := by
  refine ⟨by decide, by decide, by decide, by decide, fun sdu member => ?_, by decide⟩
  rw [List.mem_singleton.mp (show sdu ∈ [_] from member)]
  exact ⟨rfl, by decide, by decide, by decide⟩

/-- The bytes of `reporting` can be sent, with and without the STATUS PDU. -/
theorem reporting_sendable {e : Rlc.Am.Entity} {tbSize : Nat} (enough : 12 ≤ tbSize)
    (tx : e.tx = { reporting.tx with nbBytesRequestedByMac := tbSize }) (vrR : e.vrR = 1)
    (vrMs : e.vrMs = 1)
    (received : e.receiverBuffer = []) (time : Nat) : e.Sendable allBlocks time := by
  have queued : Rlc.Am.RetxOk reporting.tx :=
    Rlc.Am.dataReq_ok (Rlc.Am.txInit_ok amConfig.toTxConfig) _ (by decide) 1
  have retx : Rlc.Am.RetxOk e.tx := by
    rw [tx]
    exact queued.of_same ⟨rfl, rfl, rfl⟩ queued.sdus
  constructor
  case retx => exact retx
  case resendable =>
    intro sn wanted
    have idle := retx.idle (by rw [tx]; rfl) sn
    rw [wanted.retransmit] at idle
    cases idle
  case queue =>
    rw [tx]
    exact reporting_queue.granted ⟨tbSize, fun _ => 0, 0⟩
  case status =>
    intro _ _ _
    have two : Rlc.Am.getStatusPduBufferOccupancy 1 1 [] = 2 := by decide +kernel
    have fits : ∀ pdu ∈ ([] : List Rlc.Am.RxPdu), pdu.Fits :=
      fun pdu member => absurd member List.not_mem_nil
    constructor
    case vrR =>
      rw [vrR]
      decide
    case vrMs =>
      rw [vrMs]
      decide
    case ordered =>
      rw [received]
      exact ⟨fits, List.Pairwise.nil⟩
    case marked =>
      rw [received]
      exact fun pdu member => absurd member List.not_mem_nil
    case room =>
      rw [vrR, vrMs, received, two, tx]
      change 2 ≤ (tbSize : Int).toNat
      omega
    case accounted =>
      rw [received]
      exact Rlc.Am.occupancyAccounted_idle (.inr rfl)
  case fresh =>
    intro _
    have size : Rlc.Am.dataPduSize e.tx = 12 := by
      rw [tx]
      exact if_pos (show (12 : Int) ≤ tbSize by omega)
    have queue : e.tx.queue = reporting.tx.queue := by
      rw [tx]
      rfl
    rw [Rlc.Am.CleanGrant, Rlc.Am.pduRoom, size, queue]
    exact ⟨⟨by decide, by decide⟩, rfl⟩

theorem twoBearers_channel {lcid : Nat}
    (configured : (twoBearers.logicalChannelConfig lcid).isSome) : lcid = 3 ∨ lcid = 4 := by
  by_contra others
  obtain ⟨three, four⟩ := not_or.mp others
  dsimp only [twoBearers] at configured
  rw [Function.update_of_ne four, Function.update_of_ne three] at configured
  cases configured

def twoReporting : Ue := { twoBearers with
  rlc := update (update twoBearers.rlc 3 (some (.am true true reporting))) 4
    (some (.um true .ten (Rlc.Um.dataReq {} (fun _ => 0) 5))) }

def firstAsked : Rlc.Am.Entity := Rlc.Am.macStatusIndication reporting debugTbSize 10

/-- The books of two bearers: a STATUS PDU, a new PDU of ten bytes, and a UM PDU of five bytes. -/
theorem books_agree_once :
    Run.Meets Watch.step (fun w event => Agrees w.ue event) { ue := twoBearers }
    [.receive 3 reporting, .arrive 4 (fun _ => 0) 5 2, .tick 10 1, .grant fiftyBytes] := by
  refine books_agree (fun _ _ => rfl) (fun _ _ => rfl)
    ⟨trivial, fun w received =>
      ⟨trivial, fun w' arrived => ⟨?_, fun w'' ticked => ⟨⟨?_, ?_⟩, fun _ _ => trivial⟩⟩⟩⟩
  · cases received
    cases arrived
    constructor
    · intro lcid channel configured allowed inputSdus e entity missing
      rcases twoBearers_channel configured with rfl | rfl
      · cases entity
        cases missing
      · cases entity
    · intro lcid channel configured
      rcases twoBearers_channel configured with rfl | rfl <;> decide +kernel
    · intro lcid channel configured _
      rcases twoBearers_channel configured with rfl | rfl
      · exact ⟨by decide +kernel, trivial⟩
      · exact ⟨by decide +kernel, trivial⟩
    · decide +kernel
  · cases received
    cases arrived
    cases ticked
    exact fun _ _ _ => rfl
  · cases received
    cases arrived
    cases ticked
    have requests : (ueGetSdu fiftyBytes (updateBsr 10 1 twoReporting).1).requests =
        [⟨3, some (.am true true firstAsked), 49, 0, allBlocks, 20⟩,
          ⟨3, some (.am true true ((firstAsked.grant 49).getPdus allBlocks 20).1), 45, 1,
            allBlocks, 20⟩,
          ⟨4, some (.um true .ten (Rlc.Um.dataReq {} (fun _ => 0) 5)), 31, 2, allBlocks, 20⟩] := rfl
    change ∀ r ∈ (ueGetSdu fiftyBytes (updateBsr 10 1 twoReporting).1).requests, r.Sound
    rw [requests]
    intro r member
    rcases List.mem_cons.mp member with rfl | later
    · refine ⟨by decide, fun inputSdus e entity => ?_, fun length tx entity => ?_⟩
      · cases entity
        exact @reporting_sendable _ 49 (by decide) rfl rfl rfl rfl 20
      · cases entity
    rcases List.mem_cons.mp later with rfl | last
    · refine ⟨by decide, fun inputSdus e entity => ?_, fun length tx entity => ?_⟩
      · cases entity
        exact @reporting_sendable _ 45 (by decide) rfl rfl rfl rfl 20
      · cases entity
    · rw [List.mem_singleton.mp last]
      refine ⟨by decide, fun inputSdus e entity => ?_, fun length tx entity => ?_⟩
      · cases entity
      · cases entity
        have empty : Rlc.Um.TxOk {} :=
          ⟨⟨fun sdu member => absurd member List.not_mem_nil,
            fun sdu member => absurd member List.not_mem_nil⟩, rfl⟩
        exact ⟨Rlc.Um.dataReq_ok empty _ (by decide) (by decide), fun _ _ _ => by decide⟩

end Example

end OpenAir.Mac.Bsr
