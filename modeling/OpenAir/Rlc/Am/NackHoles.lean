import OpenAir.Rlc.Am.RetxCover

/-! The hole list that the NACKs of a STATUS PDU leave in the slot of a PDU. -/
namespace OpenAir.Rlc.Am
open BitField Spans

/-- The NACKs of a STATUS PDU for byte ranges of one PDU, one after the other; `prevNackSn` is the
SN of the NACK before the first. -/
def nackRanges (sn : Nat) : Nat → Tx → List Span → Tx
  | _, tx, [] => tx
  | prevNackSn, tx, range :: rest =>
    nackRanges sn sn (nackPdu tx sn prevNackSn range.start ((range.stop : Int) - 1)).2 rest

/-- A PDU of the window that can be asked for again. -/
structure Retransmittable (tx : Tx) (sn : Nat) (mem : Memory) (pieces : List Nat) : Prop where
  amd : AmdPdu (tx.pdu sn) mem pieces
  place : (tx.pdu sn).sn = sn
  sent : (tx.pdu sn).transmitted = true
  open_ : (tx.pdu sn).ack = false
  kept : (tx.pdu sn).maxRetransmit = false
  below : (tx.pdu sn).retxCount < tx.maxRetxThreshold ∧ (tx.pdu sn).retxCountNext ≤
    tx.maxRetxThreshold

/-- The ranges reported so far are the hole list of the slot. -/
structure Reported (tx : Tx) (sn : Nat) (mem : Memory) (pieces : List Nat)
    (ranges : List Span) : Prop where
  slot : Retransmittable tx sn mem pieces
  flag : (tx.pdu sn).retransmit = true
  index : (tx.pdu sn).retxHoleIndex = 0
  listed : Listed (tx.pdu sn) ranges
  ordered : Ordered pieces.sum ranges
  retx : (tx.pdu sn).retxPayloadSize = (numbers ranges).length

section Nack

variable {tx : Tx} {sn prevNackSn : Nat} {mem : Memory} {pieces : List Nat}
    {ranges rest : List Span} {range : Span}

theorem Reported.pending (reported : Reported tx sn mem pieces ranges) :
    Pending tx sn mem pieces ranges where
  asks := ⟨reported.slot.amd, reported.ordered, reported.retx, fun _ => Or.inr reported.listed⟩
  place := reported.slot.place
  flags _ := ⟨reported.flag, reported.slot.sent, reported.slot.kept, reported.slot.below.2⟩

/-- The first range of an SN starts the hole list anew. -/
theorem nackRequest_first {pdu : TxPdu} (amd : AmdPdu pdu mem pieces)
    (kept : pdu.maxRetransmit = false)
    (some : range.start < range.stop) (inside : range.stop ≤ pieces.sum) (other : prevNackSn ≠ sn) :
    nackRequest pdu sn prevNackSn range.start ((range.stop : Int) - 1) = (true,
      { pdu := { pdu with
          numHoles := 1
          retxHoleIndex := 0
          holeSoStart := Function.update pdu.holeSoStart 0 range.start
          holeSoStop := Function.update pdu.holeSoStop 0 ((range.stop : Int) - 1)
          nackSoStart := range.start
          nackSoStop := (range.stop : Int) - 1 }
        retxCountIncrement := !pdu.retransmit || decide ((range.start : Int) < pdu.nackSoStart)
        pduDataToRetx := (range.stop : Int) - 1 - range.start + 1 }) := by
  have small := amd.small
  have last : ¬ (range.stop : Int) - 1 = 0x7FFF := by omega
  unfold nackRequest
  rw [if_neg (by omega), if_neg fun both => last both.2, if_pos kept]
  simp only [last, if_false]
  rw [if_pos ⟨by omega, by rw [amd.payloadSize]; omega⟩, if_pos other]

theorem nackRequest_next {pdu : TxPdu} (amd : AmdPdu pdu mem pieces)
    (kept : pdu.maxRetransmit = false)
    (some : range.start < range.stop) (inside : range.stop ≤ pieces.sum) (holes : pdu.numHoles ≠ 0)
    (room : pdu.numHoles < maxHolesReportPerPdu)
    (behind : (range.start : Int) > pdu.holeSoStop (pdu.numHoles - 1)) :
    nackRequest pdu sn sn range.start ((range.stop : Int) - 1) = (true,
      { pdu := { pdu with
          holeSoStart := Function.update pdu.holeSoStart pdu.numHoles range.start
          holeSoStop := Function.update pdu.holeSoStop pdu.numHoles ((range.stop : Int) - 1)
          nackSoStop := (range.stop : Int) - 1
          numHoles := pdu.numHoles + 1 }
        pduDataToRetx := (range.stop : Int) - 1 - range.start + 1 }) := by
  have small := amd.small
  have last : ¬ (range.stop : Int) - 1 = 0x7FFF := by omega
  unfold nackRequest
  rw [if_neg (by omega), if_neg fun both => last both.2, if_pos kept]
  simp only [last, if_false]
  rw [if_pos ⟨by omega, by rw [amd.payloadSize]; omega⟩,
    if_neg fun other => other rfl, if_pos ⟨holes, room⟩, if_pos behind]

/-- What an accepted NACK stores: the requested hole list, flagged, with the bytes counted anew for
the first NACK of an SN and added for another one. -/
theorem nackPdu_stored {soStart soEnd : Int} {request : NackRequest}
    (present : (tx.pdu sn).memBlock.isSome = true)
    (accepted : nackRequest (tx.pdu sn) sn prevNackSn soStart soEnd = (true, request))
    (another : prevNackSn = sn → request.pdu.retransmit = true ∧ 1 < request.pdu.numHoles) :
    ∃ count, (count = request.pdu.retxCountNext ∨ count = request.pdu.retxCount + 1) ∧
      (nackPdu tx sn prevNackSn soStart soEnd).2.maxRetxThreshold = tx.maxRetxThreshold ∧
      (nackPdu tx sn prevNackSn soStart soEnd).2.pdu sn = { request.pdu with
        nack := true
        retxCountNext := count
        retransmit := true
        retxPayloadSize := if prevNackSn ≠ sn then request.pduDataToRetx
          else request.pdu.retxPayloadSize + request.pduDataToRetx } := by
  unfold nackPdu
  rw [if_pos present, accepted]
  simp only [if_true]
  generalize counting :
    (if request.retxCountIncrement = true ∧ { request.pdu with nack := true }.retxCount =
    { request.pdu with nack := true }.retxCountNext then { { request.pdu with nack := true } with
      retxCountNext := { request.pdu with nack := true }.retxCountNext + 1 }
    else { request.pdu with nack := true }) = pdu
  obtain ⟨count, counts, rfl⟩ :
    ∃ count, (count = request.pdu.retxCountNext ∨ count = request.pdu.retxCount + 1) ∧
      { request.pdu with nack := true, retxCountNext := count } = pdu := by
    rw [← counting]
    split
    · rename_i equal
      exact ⟨_, Or.inr (congrArg (· + 1) equal.2.symm), rfl⟩
    · exact ⟨_, Or.inl rfl, rfl⟩
  refine ⟨count, counts, ?_⟩
  by_cases other : prevNackSn ≠ sn
  · simp only [if_pos other]
    split
    · rename_i flag
      refine ⟨rfl, (pdu_setPdu _ _ _).trans ?_⟩
      rw [← show request.pdu.retransmit = true from flag]
    · exact ⟨rfl, pdu_setPdu _ _ _⟩
  · obtain ⟨flag, many⟩ := another (not_not.mp other)
    simp only [other, flag, many, if_true, if_false]
    refine ⟨rfl, (pdu_setPdu _ _ _).trans ?_⟩
    rw [← flag]

theorem Retransmittable.of_slot {tx' : Tx} (slot : Retransmittable tx sn mem pieces)
    (threshold : tx'.maxRetxThreshold = tx.maxRetxThreshold) (amd : AmdPdu (tx'.pdu sn) mem pieces)
    (place : (tx'.pdu sn).sn = (tx.pdu sn).sn)
    (sent : (tx'.pdu sn).transmitted = (tx.pdu sn).transmitted)
    (open_ : (tx'.pdu sn).ack = (tx.pdu sn).ack)
    (kept : (tx'.pdu sn).maxRetransmit = (tx.pdu sn).maxRetransmit)
    (retxCount : (tx'.pdu sn).retxCount = (tx.pdu sn).retxCount)
    (next : (tx'.pdu sn).retxCountNext = (tx.pdu sn).retxCountNext ∨
      (tx'.pdu sn).retxCountNext = (tx.pdu sn).retxCount + 1) :
      Retransmittable tx' sn mem pieces := by
  have below := slot.below
  refine ⟨amd, place.trans slot.place, sent.trans slot.sent, open_.trans slot.open_,
    kept.trans slot.kept, ?_, ?_⟩
  · rw [retxCount, threshold]
    exact below.1
  · rw [threshold]
    omega

theorem Listed.stored {pdu pdu' : TxPdu}
    (starts : ∀ i (inside : i < ranges.length), pdu.holeSoStart i = ranges[i].start)
    (stops : ∀ i (inside : i < ranges.length), pdu.holeSoStop i = (ranges[i].stop : Int) - 1)
    (start : pdu'.holeSoStart = Function.update pdu.holeSoStart ranges.length (range.start : Int))
    (stop : pdu'.holeSoStop = Function.update pdu.holeSoStop ranges.length ((range.stop : Int) - 1))
    (holes : pdu'.numHoles = ranges.length + 1) (index : pdu'.retxHoleIndex = 0) :
    Listed pdu' (ranges ++ [range]) := by
  refine ⟨?_, fun i inside => ?_, fun i inside => ?_⟩
  · rw [holes, index, List.length_append, List.length_singleton, Nat.zero_add]
  · rw [List.length_append, List.length_singleton] at inside
    rw [index, Nat.zero_add, start]
    by_cases last : i = ranges.length
    · subst last
      rw [Function.update_self, List.getElem_concat_length rfl]
    · rw [Function.update_of_ne last, List.getElem_append_left (by omega)]
      exact starts i (by omega)
  · rw [List.length_append, List.length_singleton] at inside
    rw [index, Nat.zero_add, stop]
    by_cases last : i = ranges.length
    · subst last
      rw [Function.update_self, List.getElem_concat_length rfl]
    · rw [Function.update_of_ne last, List.getElem_append_left (by omega)]
      exact stops i (by omega)

theorem nackPdu_first (slot : Retransmittable tx sn mem pieces)
    (ordered : Ordered pieces.sum [range])
    (other : prevNackSn ≠ sn) :
    Reported (nackPdu tx sn prevNackSn range.start ((range.stop : Int) - 1)).2 sn mem
      pieces [range] := by
  have some := ordered.some range List.mem_cons_self
  have inside := ordered.inside range List.mem_cons_self
  have request :=
    @nackRequest_first sn prevNackSn mem pieces range _ slot.amd slot.kept some inside other
  have present : (tx.pdu sn).memBlock.isSome = true := by rw [slot.amd.block]; rfl
  obtain ⟨count, counts, threshold, stored⟩ := nackPdu_stored present request
    fun same => absurd same other
  simp only [if_pos other] at stored
  have whole : (numbers [range]).length = range.stop - range.start := by
    rw [numbers, List.flatMap_singleton, range.numbers_length]
  constructor
  · refine slot.of_slot threshold ?_ ?_ ?_ ?_ ?_ ?_ ?_
    · rw [stored]
      exact slot.amd.congr rfl rfl rfl rfl rfl rfl
    · rw [stored]
    · rw [stored]
    · rw [stored]
    · rw [stored]
    · rw [stored]
    · rw [stored]
      exact counts
  · rw [stored]
  · rw [stored]
  · rw [stored]
    exact @Listed.stored [] range (tx.pdu sn) _ (fun i none => absurd none (Nat.not_lt_zero i))
      (fun i none => absurd none (Nat.not_lt_zero i)) rfl rfl rfl rfl
  · exact ordered
  · rw [stored, whole]
    simp only
    omega

theorem nackPdu_next (reported : Reported tx sn mem pieces ranges) (some : ranges ≠ [])
    (ordered : Ordered pieces.sum (ranges ++ [range]))
    (room : ranges.length < maxHolesReportPerPdu) :
    Reported (nackPdu tx sn sn range.start ((range.stop : Int) - 1)).2 sn mem pieces
      (ranges ++ [range]) := by
  have slot := reported.slot
  have last : range ∈ ranges ++ [range] := List.mem_append_right _ List.mem_cons_self
  have nonempty := ordered.some range last
  have inside := ordered.inside range last
  have holes : (tx.pdu sn).numHoles = ranges.length := by
    rw [reported.listed.count, reported.index, Nat.zero_add]
  have length := List.length_pos_iff.mpr some
  have before : ranges.length - 1 < ranges.length := Nat.sub_lt length Nat.one_pos
  have behind : (range.start : Int) > (tx.pdu sn).holeSoStop ((tx.pdu sn).numHoles - 1) := by
    have stop := reported.listed.stop (ranges.length - 1) before
    rw [reported.index, Nat.zero_add] at stop
    have apart :=
      (List.pairwise_append.mp ordered.apart).2.2 _ (List.getElem_mem before) range
      List.mem_cons_self
    rw [holes, stop]
    omega
  have request := @nackRequest_next sn mem pieces range _ slot.amd slot.kept nonempty inside
    (by omega) (by omega) behind
  have present : (tx.pdu sn).memBlock.isSome = true := by rw [slot.amd.block]; rfl
  obtain ⟨count, counts, threshold, stored⟩ := nackPdu_stored present request fun _ =>
    ⟨reported.flag, by simp only; omega⟩
  rw [if_neg fun other => other rfl] at stored
  have whole : (numbers (ranges ++ [range])).length = (numbers ranges).length +
      (range.stop - range.start) := by
    rw [numbers, List.flatMap_append, List.length_append, List.flatMap_singleton,
      range.numbers_length, numbers]
  constructor
  · refine slot.of_slot threshold ?_ ?_ ?_ ?_ ?_ ?_ ?_
    · rw [stored]
      exact slot.amd.congr rfl rfl rfl rfl rfl rfl
    · rw [stored]
    · rw [stored]
    · rw [stored]
    · rw [stored]
    · rw [stored]
    · rw [stored]
      exact counts
  · rw [stored]
  · rw [stored]
    exact reported.index
  · rw [stored]
    have starts := reported.listed.start
    have stops := reported.listed.stop
    simp only [reported.index, Nat.zero_add] at starts stops
    rw [holes]
    exact Listed.stored starts stops rfl rfl rfl reported.index
  · exact ordered
  · rw [stored, whole]
    simp only [reported.retx]
    omega

/-- The ranges of one SN in a STATUS PDU, at most as many as the hole list has room for, end up
pending. -/
theorem nackRanges_reported (reported : Reported tx sn mem pieces ranges) (some : ranges ≠ [])
    (ordered : Ordered pieces.sum (ranges ++ rest))
    (room : (ranges ++ rest).length ≤ maxHolesReportPerPdu) :
    Reported (nackRanges sn sn tx rest) sn mem pieces (ranges ++ rest) := by
  induction rest generalizing tx ranges with
  | nil =>
    rw [List.append_nil]
    exact reported
  | cons range rest ih =>
    have split_ : ranges ++ range :: rest = (ranges ++ [range]) ++ rest :=
      List.append_cons ranges range rest
    rw [List.length_append, List.length_cons] at room
    have front : Ordered pieces.sum (ranges ++ [range]) := by
      rw [split_] at ordered
      exact ⟨fun span member => ordered.some span (List.mem_append_left _ member),
        fun span member => ordered.inside span (List.mem_append_left _ member),
          (List.pairwise_append.mp ordered.apart).1⟩
    have next := nackPdu_next reported some front (by omega)
    rw [split_] at ordered ⊢
    exact ih next (List.append_ne_nil_of_right_ne_nil _ (List.cons_ne_nil _ _)) ordered
      (by simp only [List.length_append, List.length_singleton]; omega)

/-- NACKs of byte ranges leave a PDU with exactly these bytes pending. -/
theorem nackRanges_pending (slot : Retransmittable tx sn mem pieces)
    (ordered : Ordered pieces.sum ranges)
    (some : ranges ≠ []) (room : ranges.length ≤ maxHolesReportPerPdu) (other : prevNackSn ≠ sn) :
    Pending (nackRanges sn prevNackSn tx ranges) sn mem pieces ranges := by
  cases ranges with
  | nil => exact absurd rfl some
  | cons range rest =>
    have first : Ordered pieces.sum [range] := by
      refine ⟨fun span one => ordered.some span ?_,
        fun span one => ordered.inside span ?_, List.pairwise_singleton _ _⟩
      · rw [List.mem_singleton.mp one]
        exact List.mem_cons_self
      · rw [List.mem_singleton.mp one]
        exact List.mem_cons_self
    have reported := nackPdu_first slot first other
    exact (nackRanges_reported reported (List.cons_ne_nil _ _) ordered room).pending

/-- A NACK without a range leaves the whole PDU pending. -/
theorem nackPdu_whole_pending (slot : Retransmittable tx sn mem pieces) (other : prevNackSn ≠ sn) :
    Pending (nackPdu tx sn prevNackSn 0 0x7FFF).2 sn mem pieces [⟨0, pieces.sum⟩] := by
  have amd := slot.amd
  have present : (tx.pdu sn).memBlock.isSome = true := by rw [amd.block]; rfl
  have sumPos : 0 < pieces.sum := by
    obtain ⟨piece, rest, rfl⟩ := List.exists_cons_of_ne_nil amd.some
    have here := amd.pos piece List.mem_cons_self
    rw [List.sum_cons]
    omega
  have payload : decide (0 < (tx.pdu sn).payloadSize) = true :=
    decide_eq_true (by rw [amd.payloadSize]; omega)
  have request : nackRequest (tx.pdu sn) sn prevNackSn 0 0x7FFF = (true,
      { pdu := { tx.pdu sn with
          nackSoStart := 0
          numHoles := 0
          retxHoleIndex := 0
          nackSoStop := (tx.pdu sn).payloadSize - 1 }
        retxCountIncrement := !(tx.pdu sn).retransmit || (tx.pdu sn).nackSoStart != 0
        pduDataToRetx := (tx.pdu sn).payloadSize }) := by
    unfold nackRequest
    rw [if_neg (by decide), if_pos ⟨rfl, rfl⟩, if_pos ⟨other, slot.open_, slot.kept⟩, payload]
  obtain ⟨count, counts, threshold, stored⟩ := nackPdu_stored present request
    fun same => absurd same other
  simp only [if_pos other] at stored
  have next : Retransmittable (nackPdu tx sn prevNackSn 0 0x7FFF).2 sn mem pieces := by
    refine slot.of_slot threshold ?_ ?_ ?_ ?_ ?_ ?_ ?_
    · rw [stored]
      exact amd.congr rfl rfl rfl rfl rfl rfl
    · rw [stored]
    · rw [stored]
    · rw [stored]
    · rw [stored]
    · rw [stored]
    · rw [stored]
      exact counts
  refine ⟨⟨next.amd, ⟨?_, ?_, List.pairwise_singleton _ _⟩, ?_, fun _ => Or.inl ⟨?_, rfl⟩⟩,
    next.place, fun _ =>
      ⟨?_, next.sent, next.kept, next.below.2⟩⟩
  · intro span one
    rw [List.mem_singleton.mp one]
    exact sumPos
  · intro span one
    rw [List.mem_singleton.mp one]
  · rw [stored, numbers, List.flatMap_singleton, Span.numbers, List.length_range']
    exact amd.payloadSize
  · rw [stored]
  · rw [stored]

end Nack

end OpenAir.Rlc.Am
