import OpenAir.Rlc.Am.Resegment

/-! Re-segmentation is transparent to the reassembly exactly when no segment ends at a
boundary between two SDUs of the original PDU. -/
namespace OpenAir.Rlc.Am
open BitField

def Emitted.info (out : Emitted) : PduInfo :=
  (getDataPduInfos out.mem (Int16.ofInt out.tbSize)).info

def reassembleAll (a : Assembly) (segments : List Emitted) : Assembly :=
  segments.foldl (fun a out => reassemblePdu a out.mem out.info) a

def inSoOrder (segments : List Emitted) : List Emitted :=
  segments.mergeSort fun first second => decide (first.info.so ≤ second.info.so)

/-- The segments sent for the grants are accepted by the decoder, and leave the
reassembly, when they are fed in the order of their offsets, as the original PDU does. -/
structure Transparent (pdu : TxPdu) (mem : Memory) (grants : List SegmentGrant)
    (a : Assembly) : Prop where
  accepted : ∀ out ∈ resegment pdu grants,
    (getDataPduInfos out.mem (Int16.ofInt out.tbSize)).ret = 0
  same : reassembleAll a (inSoOrder (resegment pdu grants)) =
    reassemblePdu a mem (getDataPduInfos mem (Int16.ofInt pdu.headerAndPayloadSize)).info

/-- Segments carry less than a whole PDU with length indicators. -/
def belowWhole (pieces : List Nat) (so : Nat) (nbBytes : Int) : Bool :=
  !(decide (1 < pieces.length) && decide ((partsAt pieces so nbBytes).sum = pieces.sum))

/-- The segments for a sequence of grants, computed from the sizes of the pieces alone. -/
def plannedSegments (pieces : List Nat) (grants : List SegmentGrant) : List (Nat × List Nat) :=
  segmentsBy (belowWhole pieces) pieces 0 grants

def sentBytes (segments : List (Nat × List Nat)) : Nat :=
  (segments.map fun segment => segment.2.sum).sum

section Emissions

variable {mem : Memory} {pieces : List Nat} {out : Emitted} {so : Nat} {parts : List Nat}

theorem Carried.decoded (carried : Carried mem pieces out so parts) (small : pieces.sum ≤ 32767) :
    (getDataPduInfos out.mem (Int16.ofInt out.tbSize)).ret = 0 ∧ out.info.so = so := by
  have last := carried.pos _ (List.getLast_mem carried.some)
  have within := carried.within
  have rf : bitAt out.mem 1 = true := by
    by_contra clear
    have start := carried.carries.start
    rw [liStart, if_neg clear] at start
    cases start
  rw [Emitted.info, carried.carries.announces.decoded carried.some last (by omega) carried.size,
    readFixedHeader_eq]
  exact ⟨rfl, (if_pos rf).trans carried.carries.offset⟩

theorem Carried.feed (carried : Carried mem pieces out so parts) (small : pieces.sum ≤ 32767)
    (a : Assembly) :
    reassemblePdu a out.mem out.info =
      feed a (!bitAt mem 3 && decide (so = 0)) (chunks mem (announcedHeader mem pieces + so) parts)
        (!bitAt mem 4 && decide (so + parts.sum = pieces.sum)) := by
  have within := carried.within
  rw [Emitted.info, reassemblePdu_feed carried.carries.announces carried.some carried.pos
    (by omega) carried.size, carried.carries.data, carried.carries.fiStart, carried.carries.fiEnd,
      Bool.not_not, Bool.not_not]

/-- Segments with their offsets and parts, fed one after the other. -/
def feedSegments (mem : Memory) (pieces : List Nat) (a : Assembly)
    (segments : List (Nat × List Nat)) : Assembly :=
  segments.foldl (fun a segment => feed a (!bitAt mem 3 && decide (segment.1 = 0))
    (chunks mem (announcedHeader mem pieces + segment.1) segment.2)
    (!bitAt mem 4 && decide (segment.1 + segment.2.sum = pieces.sum))) a

theorem carried_of_mem {outs : List Emitted} {segments : List (Nat × List Nat)}
    (carried : List.Forall₂
      (fun out segment => Carried mem pieces out segment.1 segment.2) outs segments)
    (member : out ∈ outs) : ∃ segment ∈ segments, Carried mem pieces out segment.1 segment.2 := by
  induction carried with
  | nil => exact absurd member List.not_mem_nil
  | cons here rest ih =>
    rcases List.mem_cons.mp member with rfl | later
    · exact ⟨_, List.mem_cons_self, here⟩
    · obtain ⟨segment, inside, carried⟩ := ih later
      exact ⟨segment, List.mem_cons_of_mem _ inside, carried⟩

theorem reassembleAll_feed {outs : List Emitted} {segments : List (Nat × List Nat)}
    (small : pieces.sum ≤ 32767)
    (carried : List.Forall₂
      (fun out segment => Carried mem pieces out segment.1 segment.2) outs segments)
    (a : Assembly) : reassembleAll a outs = feedSegments mem pieces a segments := by
  induction carried generalizing a with
  | nil => rfl
  | cons here rest ih =>
    rw [reassembleAll, List.foldl_cons, here.feed small]
    exact ih _

variable {plans : Nat → Int → Bool}

theorem segmentsBy_sorted (pos : ∀ piece ∈ pieces, 0 < piece) {grants : List SegmentGrant}
    (enough : ∀ grant ∈ grants, 5 ≤ grant.bytes) :
    (segmentsBy plans pieces so grants).Pairwise (fun first second => first.1 < second.1) ∧
    ∀ segment ∈ segmentsBy plans pieces so grants, so ≤ segment.1 := by
  induction grants generalizing so with
  | nil => exact ⟨.nil, fun segment none => absurd none List.not_mem_nil⟩
  | cons grant grants ih =>
    have later := fun grant member => enough grant (List.mem_cons_of_mem _ member)
    rw [segmentsBy]
    split
    · rename_i emit
      obtain ⟨-, -, -, -, sumPos⟩ := partsAt_spec pos emit.1 (enough grant List.mem_cons_self)
      obtain ⟨sorted, behind⟩ := @ih (so + (partsAt pieces so grant.bytes).sum) later
      refine ⟨.cons (fun segment member => ?_) sorted, fun segment member => ?_⟩
      · have := behind segment member
        simp only
        omega
      · rcases List.mem_cons.mp member with rfl | inside
        · exact Nat.le_refl _
        · have := behind segment inside
          omega
    · exact ih later

theorem inSoOrder_eq {outs : List Emitted} {segments : List (Nat × List Nat)}
    (small : pieces.sum ≤ 32767)
    (carried : List.Forall₂
      (fun out segment => Carried mem pieces out segment.1 segment.2) outs segments)
    (sorted : segments.Pairwise fun first second => first.1 < second.1) :
    inSoOrder outs = outs := by
  apply List.mergeSort_of_pairwise
  induction carried with
  | nil => exact .nil
  | cons here rest ih =>
    rename_i out segment outs segments
    rw [List.pairwise_cons] at sorted
    refine .cons (fun other member => ?_) (ih sorted.2)
    obtain ⟨segment', inside, later⟩ := carried_of_mem rest member
    rw [(here.decoded small).2, (later.decoded small).2, decide_eq_true_eq]
    exact Nat.le_of_lt (sorted.1 segment' inside)

end Emissions

section Boundary

variable {pieces parts front rest : List Nat} {so part more : Nat}

theorem partsAt_parted (pos : ∀ piece ∈ pieces, 0 < piece) (so : Nat) (nbBytes : Int) :
    Parted (partsAt pieces so nbBytes) (piecesFrom so pieces)
      (piecesFrom (so + (partsAt pieces so nbBytes).sum) pieces) := by
  rw [piecesFrom_add]
  exact cut_parted (piecesFrom_pos pos so)

/-- A segment of whole pieces with another piece behind it ends at a boundary. -/
theorem boundary_of_behind (left : piecesFrom so pieces = parts ++ rest) (some : parts ≠ [])
    (later : rest ≠ []) :
    so + parts.sum ∈ innerBoundaries pieces := by
  obtain ⟨part, parts, rfl⟩ := List.exists_cons_of_ne_nil some
  obtain ⟨front, piece, whole, le, -, offset⟩ := piecesFrom_cons left
  rw [mem_innerBoundaries]
  refine ⟨front ++ piece :: parts, rest, by simp, later, by simp [whole], ?_⟩
  simp only [List.sum_append, List.sum_cons]
  omega

theorem not_boundary_of_inside (pos : ∀ piece ∈ pieces, 0 < piece) (partPos : 0 < part)
    (left : piecesFrom so pieces = front ++ (part + more) :: rest)
    (next : piecesFrom (so + (front ++ [part]).sum) pieces = more :: rest) :
    so + (front ++ [part]).sum ∉ innerBoundaries pieces := by
  rw [mem_innerBoundaries]
  rintro ⟨before, behind, -, -, whole, offset⟩
  obtain ⟨start, piece, whole', le⟩ : ∃ start piece, pieces = start ++ piece :: rest ∧
      part + more ≤ piece := by
    cases front with
    | nil =>
      obtain ⟨start, piece, whole', le, -, -⟩ := piecesFrom_cons left
      exact ⟨start, piece, whole', le⟩
    | cons first front =>
      obtain ⟨start, piece, whole', -, -, -⟩ := piecesFrom_cons left
      exact ⟨start ++ piece :: front, part + more, by simp [whole'], Nat.le_refl _⟩
  have same : behind = more :: rest := by
    have zero := piecesFrom_append before behind 0
    rw [Nat.add_zero, ← whole, ← offset, next, piecesFrom_zero fun piece member =>
      pos piece (whole ▸ List.mem_append_right _ member)] at zero
    exact zero.symm
  have tails := (List.append_inj' (whole.symm.trans whole') (by rw [same]; rfl)).2
  rw [same, List.cons.injEq] at tails
  omega

theorem end_not_boundary (pos : ∀ piece ∈ pieces, 0 < piece) :
    pieces.sum ∉ innerBoundaries pieces := by
  rw [mem_innerBoundaries]
  rintro ⟨before, behind, -, later, whole, offset⟩
  obtain ⟨piece, rest, rfl⟩ := List.exists_cons_of_ne_nil later
  have := pos piece (by rw [whole]; simp)
  rw [whole, List.sum_append, List.sum_cons] at offset
  omega

end Boundary

section Feeding

variable {mem : Memory} {pieces : List Nat} {plans : Nat → Int → Bool} {so : Nat}

/-- The parts of the segments, fed without regard to the framing of the PDU. -/
def feedParts (mem : Memory) (pieces : List Nat) (a : Assembly)
    (segments : List (Nat × List Nat)) : Assembly :=
  segments.foldl
    (fun a segment => feedPieces a (chunks mem (announcedHeader mem pieces + segment.1) segment.2))
    a

/-- A run over the rest of the PDU: only the first segment can start an SDU that the
original starts, and only the last can end one. -/
theorem feedSegments_parts (pos : ∀ piece ∈ pieces, 0 < piece) {grants : List SegmentGrant}
    (enough : ∀ grant ∈ grants, 5 ≤ grant.bytes) (inside : so < pieces.sum)
    (complete : so + sentBytes (segmentsBy plans pieces so grants) = pieces.sum) (a : Assembly) :
    feedSegments mem pieces a (segmentsBy plans pieces so grants) =
      let b := feedParts mem pieces
        (if (!bitAt mem 3 && decide (so = 0)) = true then sendSdu a else a)
        (segmentsBy plans pieces so grants)
      if (!bitAt mem 4) = true then sendSdu b else b := by
  induction grants generalizing so a with
  | nil => exact absurd complete (Nat.ne_of_lt inside)
  | cons grant grants ih =>
    have later := fun grant member => enough grant (List.mem_cons_of_mem _ member)
    rw [segmentsBy] at complete ⊢
    split at complete
    · rename_i emit
      obtain ⟨-, -, -, within, sumPos⟩ := partsAt_spec pos inside (enough grant List.mem_cons_self)
      rw [if_pos emit]
      simp only [sentBytes, List.map_cons, List.sum_cons] at complete
      simp only [feedSegments, feedParts, List.foldl_cons, feed]
      by_cases last : so + (partsAt pieces so grant.bytes).sum = pieces.sum
      · rw [last, segmentsBy_done]
        simp only [List.foldl_nil, decide_true, Bool.and_true]
      · have next := @ih (so + (partsAt pieces so grant.bytes).sum) later (by omega)
          (by simp only [sentBytes]; omega)
        have notFirst : ¬ so + (partsAt pieces so grant.bytes).sum = 0 := by omega
        simp only [notFirst, decide_false, Bool.and_false, Bool.false_eq_true, if_false] at next
        simp only [last, decide_false, Bool.and_false, Bool.false_eq_true, if_false]
        exact next _
    · rename_i silent
      rw [if_neg silent]
      exact ih later inside complete a

/-- Segments that never end at a boundary feed the same as the pieces do. -/
theorem feedParts_inside (pos : ∀ piece ∈ pieces, 0 < piece) {grants : List SegmentGrant}
    (enough : ∀ grant ∈ grants, 5 ≤ grant.bytes) (inside : so < pieces.sum)
    (complete : so + sentBytes (segmentsBy plans pieces so grants) = pieces.sum)
    (cuts : ∀ segment ∈ segmentsBy plans pieces so grants,
      segment.1 + segment.2.sum ∉ innerBoundaries pieces)
    {a : Assembly} (roomy : Roomy a (piecesFrom so pieces)) :
    feedParts mem pieces a (segmentsBy plans pieces so grants) =
      feedPieces a (chunks mem (announcedHeader mem pieces + so) (piecesFrom so pieces)) := by
  induction grants generalizing so a with
  | nil => exact absurd complete (Nat.ne_of_lt inside)
  | cons grant grants ih =>
    have later := fun grant member => enough grant (List.mem_cons_of_mem _ member)
    rw [segmentsBy] at complete cuts ⊢
    split at complete
    · rename_i emit
      obtain ⟨nonempty, -, -, within, sumPos⟩ :=
        partsAt_spec pos inside (enough grant List.mem_cons_self)
      have parted := partsAt_parted pos so grant.bytes
      have left := piecesFrom_sum (so + (partsAt pieces so grant.bytes).sum) pieces
      rw [if_pos emit] at cuts ⊢
      simp only [sentBytes, List.map_cons, List.sum_cons] at complete
      have here := cuts _ List.mem_cons_self
      have cuts := fun segment member => cuts segment (List.mem_cons_of_mem _ member)
      have next := @ih (so + (partsAt pieces so grant.bytes).sum) later
      simp only at here
      rw [feedParts, List.foldl_cons]
      generalize whole : piecesFrom so pieces = sizes at parted roomy
      generalize after : piecesFrom (so + (partsAt pieces so grant.bytes).sum) pieces = rest
        at parted left next
      generalize taken : partsAt pieces so grant.bytes = parts at *
      cases parted with
      | behind =>
        by_cases last : rest = []
        · subst last
          rw [List.sum_nil] at left
          have done : so + parts.sum = pieces.sum := by omega
          rw [done, segmentsBy_done, List.append_nil]
          rfl
        · exact absurd (boundary_of_behind whole nonempty last) here
      | inside front part more rest some same =>
        rw [List.sum_cons] at left
        subst same
        obtain ⟨room, same⟩ :=
          @feedPieces_inside mem a (announcedHeader mem pieces + so) part more front rest roomy
        rw [← same, Nat.add_assoc]
        exact next (by omega) (by simp only [sentBytes]; omega) cuts room
    · rename_i silent
      rw [if_neg silent] at cuts ⊢
      exact ih later inside complete cuts roomy

/-- Segments complete no more SDUs than the pieces do, and fewer when one of them ends at
a boundary: the SDUs on both sides of it are taken for one. -/
theorem feedParts_count (pos : ∀ piece ∈ pieces, 0 < piece) {grants : List SegmentGrant}
    (enough : ∀ grant ∈ grants, 5 ≤ grant.bytes) (inside : so < pieces.sum)
    (complete : so + sentBytes (segmentsBy plans pieces so grants) = pieces.sum) (a : Assembly) :
    (feedParts mem pieces a (segmentsBy plans pieces so grants)).delivered.length ≤
      a.delivered.length + ((piecesFrom so pieces).length - 1) ∧
    ((∃ segment ∈ segmentsBy plans pieces so grants, segment.1 + segment.2.sum ∈
      innerBoundaries pieces) →
      (feedParts mem pieces a (segmentsBy plans pieces so grants)).delivered.length <
        a.delivered.length + ((piecesFrom so pieces).length - 1)) := by
  induction grants generalizing so a with
  | nil => exact absurd complete (Nat.ne_of_lt inside)
  | cons grant grants ih =>
    have later := fun grant member => enough grant (List.mem_cons_of_mem _ member)
    rw [segmentsBy] at complete ⊢
    split at complete
    · rename_i emit
      obtain ⟨nonempty, partsPos, -, within, sumPos⟩ :=
        partsAt_spec pos inside (enough grant List.mem_cons_self)
      have parted := partsAt_parted pos so grant.bytes
      have left := piecesFrom_sum (so + (partsAt pieces so grant.bytes).sum) pieces
      rw [if_pos emit]
      simp only [sentBytes, List.map_cons, List.sum_cons] at complete
      rw [feedParts, List.foldl_cons, ← feedParts.eq_def]
      have here := feedPieces_length_le a
        (chunks mem (announcedHeader mem pieces + so) (partsAt pieces so grant.bytes))
      rw [chunks_length] at here
      generalize feedPieces a (chunks mem _ _) = b at here
      have next := @ih (so + (partsAt pieces so grant.bytes).sum) later
      have first := List.length_pos_iff.mpr nonempty
      generalize whole : piecesFrom so pieces = sizes at parted
      generalize after : piecesFrom (so + (partsAt pieces so grant.bytes).sum) pieces = rest
        at parted left next
      generalize taken : partsAt pieces so grant.bytes = parts at *
      cases parted with
      | behind =>
        rw [List.length_append]
        by_cases last : rest = []
        · subst last
          rw [List.sum_nil] at left
          have done : so + parts.sum = pieces.sum := by omega
          rw [done, segmentsBy_done]
          refine ⟨here, ?_⟩
          rintro ⟨segment, member, boundary⟩
          rw [List.mem_singleton] at member
          subst member
          exact absurd (done ▸ boundary) (end_not_boundary pos)
        · obtain ⟨piece, others, rfl⟩ := List.exists_cons_of_ne_nil last
          have positive : 0 < piece := piecesFrom_pos pos _ piece (after ▸ List.mem_cons_self)
          rw [List.sum_cons] at left
          obtain ⟨atMost, -⟩ := next (by omega) (by simp only [sentBytes]; omega) b
          rw [List.length_cons] at atMost ⊢
          exact ⟨by omega, fun _ => by omega⟩
      | inside front part more rest some same =>
        subst same
        rw [List.sum_cons] at left
        have partPos := partsPos part (List.mem_append_right _ List.mem_cons_self)
        obtain ⟨atMost, less⟩ := next (by omega) (by simp only [sentBytes]; omega) b
        simp only [List.length_append, List.length_cons, List.length_nil]
          at here first atMost less ⊢
        refine ⟨by omega, ?_⟩
        rintro ⟨segment, member, boundary⟩
        rcases List.mem_cons.mp member with rfl | behind
        · exact absurd boundary (not_boundary_of_inside pos partPos whole after)
        · have := less ⟨segment, behind, boundary⟩
          omega
    · rename_i silent
      rw [if_neg silent]
      exact ih later inside complete a

/-- Segments of one part that stay inside the PDU complete no SDU, whatever they start. -/
theorem feedSegments_single {segments : List (Nat × List Nat)}
    (single : ∀ segment ∈ segments, segment.2.length = 1 ∧ segment.1 + segment.2.sum < pieces.sum)
    (sorted : segments.Pairwise fun first second => first.1 < second.1) (a : Assembly) :
    (feedSegments mem pieces a segments).delivered.length ≤
      a.delivered.length + (if ∃ segment ∈ segments, segment.1 = 0 then 1 else 0) := by
  induction segments generalizing a with
  | nil => exact Nat.le_add_right _ _
  | cons segment segments ih =>
    rw [List.pairwise_cons] at sorted
    obtain ⟨one, inner⟩ := single segment List.mem_cons_self
    have rest := ih (fun segment member => single segment (List.mem_cons_of_mem _ member)) sorted.2
    have none : ¬ ∃ segment ∈ segments, segment.1 = 0 := by
      rintro ⟨other, member, zero⟩
      have := sorted.1 other member
      omega
    simp only [none, if_false, Nat.add_zero] at rest
    rw [feedSegments, List.foldl_cons, ← feedSegments.eq_def]
    refine (rest _).trans ?_
    have notLast : decide (segment.1 + segment.2.sum = pieces.sum) = false :=
      decide_eq_false (by omega)
    rw [notLast, Bool.and_false, feed, if_neg Bool.false_ne_true]
    refine (feedPieces_length_le _ _).trans ?_
    rw [chunks_length, one]
    by_cases first : segment.1 = 0
    · have starts : ∃ other ∈ segment :: segments, other.1 = 0 :=
        ⟨segment, List.mem_cons_self, first⟩
      simp only [starts, if_true, Nat.sub_self, Nat.add_zero]
      split
      · exact sendSdu_length_le
      · exact Nat.le_succ _
    · rw [decide_eq_false first, Bool.and_false, if_neg Bool.false_ne_true]
      exact Nat.le_add_right _ _

end Feeding

/-- Only segments that end in the first piece. -/
def inFirstPiece (pieces : List Nat) (so : Nat) (nbBytes : Int) : Bool :=
  decide (so + (nbBytes - pduSegmentHeaderMinSize).toNat ≤ pieces.headD 0)

theorem inFirstPiece_single {pdu : TxPdu} {mem : Memory} {pieces : List Nat}
    {grants : List SegmentGrant} {so : Nat}
    (amd : AmdPdu pdu mem pieces) (wide : pieces.length = 128)
    (enough : ∀ grant ∈ grants, 5 ≤ grant.bytes) :
    ∀ segment ∈ segmentsBy (inFirstPiece pieces) pieces so grants,
      segment.2.length = 1 ∧ segment.1 + segment.2.sum < pieces.sum := by
  induction grants generalizing so with
  | nil => exact fun segment none => absurd none List.not_mem_nil
  | cons grant grants ih =>
    have later := fun grant member => enough grant (List.mem_cons_of_mem _ member)
    have here := enough grant List.mem_cons_self
    rw [segmentsBy]
    split
    · rename_i emit
      intro segment member
      rcases List.mem_cons.mp member with rfl | behind
      · obtain ⟨piece, rest, rfl⟩ := List.exists_cons_of_ne_nil amd.some
        have first : so + (grant.bytes - pduSegmentHeaderMinSize).toNat ≤ piece :=
          of_decide_eq_true emit.2.1
        have roomPos : 0 < (grant.bytes - pduSegmentHeaderMinSize).toNat := by
          rw [pduSegmentHeaderMinSize]
          omega
        have parts : partsAt (piece :: rest) so grant.bytes =
            [(grant.bytes - pduSegmentHeaderMinSize).toNat] := by
          rw [partsAt, piecesFrom, if_pos (by omega), cut, if_pos (by omega)]
        have less := take_sum_lt amd.pos (show 1 < (piece :: rest).length by omega)
        simp only [List.take_succ_cons, List.take_zero, List.sum_singleton] at less
        rw [parts]
        refine ⟨rfl, ?_⟩
        rw [List.sum_singleton]
        omega
      · exact ih later segment behind
    · exact ih later

section Transparency

variable {pdu : TxPdu} {mem : Memory} {pieces : List Nat}
    {grants : List SegmentGrant} {a : Assembly}

theorem AmdPdu.slot (amd : AmdPdu pdu mem pieces) (noHoles : pdu.numHoles = 0)
    (all : pdu.retxPayloadSize = pdu.payloadSize) : SlotAt pdu mem pieces 0 :=
  ⟨amd, Nat.zero_le _, by rw [all, amd.payloadSize]; simp, fun _ => Or.inl ⟨noHoles, rfl⟩⟩

theorem AmdPdu.sum_pos (amd : AmdPdu pdu mem pieces) : 0 < pieces.sum := by
  have first := take_sum_lt amd.pos (List.length_pos_iff.mpr amd.some)
  exact Nat.zero_lt_of_lt first

theorem AmdPdu.feed (amd : AmdPdu pdu mem pieces) (a : Assembly) :
    reassemblePdu a mem (getDataPduInfos mem (Int16.ofInt pdu.headerAndPayloadSize)).info =
      feed a (!bitAt mem 3) (chunks mem (announcedHeader mem pieces) pieces) (!bitAt mem 4) :=
  reassemblePdu_feed amd.announces amd.some amd.pos amd.small amd.size a

theorem resegment_feed {plans : Nat → Int → Bool} (amd : AmdPdu pdu mem pieces)
    (noHoles : pdu.numHoles = 0)
    (all : pdu.retxPayloadSize = pdu.payloadSize) (enough : ∀ grant ∈ grants, 5 ≤ grant.bytes)
    (planned : ∀ pdu so nbBytes, SlotAt pdu mem pieces so → so < pieces.sum → 5 ≤ nbBytes →
      ∃ pdu', OnHole pdu' mem pieces so ∧ planSegment pdu mem nbBytes = (pdu',
        if plans so nbBytes = true then
        some (segmentPlan pieces so nbBytes (!bitAt mem 3) (!bitAt mem 4)) else none)) :
    (∀ out ∈ resegment pdu grants, (getDataPduInfos out.mem (Int16.ofInt out.tbSize)).ret = 0) ∧
    reassembleAll a (inSoOrder (resegment pdu grants)) =
      feedSegments mem pieces a (segmentsBy plans pieces 0 grants) := by
  have carried := resegment_carried planned (amd.slot noHoles all) enough
  constructor
  · intro out member
    obtain ⟨segment, -, here⟩ := carried_of_mem carried member
    exact (here.decoded amd.small).1
  · rw [inSoOrder_eq amd.small carried (segmentsBy_sorted amd.pos enough).1]
    exact reassembleAll_feed amd.small carried a

/-- A PDU of at most 127 pieces: the planned segments decide. -/
theorem transparent_iff (amd : AmdPdu pdu mem pieces) (few : pieces.length < 128)
    (noHoles : pdu.numHoles = 0)
    (all : pdu.retxPayloadSize = pdu.payloadSize) (enough : ∀ grant ∈ grants, 5 ≤ grant.bytes)
    (complete : sentBytes (plannedSegments pieces grants) = pieces.sum)
    (roomy : Roomy (if bitAt mem 3 then a else sendSdu a) pieces) :
    Transparent pdu mem grants a ↔
      ∀ segment ∈ plannedSegments pieces grants,
        segment.1 + segment.2.sum ∉ innerBoundaries pieces := by
  obtain ⟨accepted, segments⟩ :=
    @resegment_feed pdu mem pieces grants a (belowWhole pieces) amd noHoles all enough
    fun pdu so nbBytes slot inside grant => by
      obtain ⟨pdu', hole, plan⟩ := planSegment_eq slot few inside grant
      refine ⟨pdu', hole, plan.trans ?_⟩
      by_cases whole : 1 < pieces.length ∧ (partsAt pieces so nbBytes).sum = pieces.sum
      · rw [if_pos whole, if_neg (by simp [belowWhole, whole])]
      · have below : belowWhole pieces so nbBytes = true := by
          rw [belowWhole, ← Bool.decide_and, Bool.not_eq_true', decide_eq_false_iff_not]
          exact whole
        rw [if_neg whole, if_pos below]
  have begins : (if (!bitAt mem 3 && decide ((0 : Nat) = 0)) = true then sendSdu a else a) =
      if bitAt mem 3 then a else sendSdu a := by
    cases bitAt mem 3 <;> rfl
  have begins' : (if (!bitAt mem 3) = true then sendSdu a else a) = if bitAt mem 3 then
      a else sendSdu a := by
    cases bitAt mem 3 <;> rfl
  have sumPos := amd.sum_pos
  have whole := piecesFrom_zero amd.pos
  have complete' : 0 + sentBytes (segmentsBy (belowWhole pieces) pieces 0 grants) = pieces.sum :=
    (Nat.zero_add _).trans complete
  rw [feedSegments_parts amd.pos enough sumPos complete' a, begins] at segments
  have original := amd.feed a
  rw [feed, begins'] at original
  generalize (if bitAt mem 3 then a else sendSdu a) = b at roomy segments original
  constructor
  · intro transparent segment member boundary
    obtain ⟨-, less⟩ :=
      @feedParts_count mem pieces (belowWhole pieces) 0 amd.pos grants enough sumPos complete' b
    have fewer := less ⟨segment, member, boundary⟩
    obtain ⟨count, nonempty⟩ :=
      @feedPieces_length mem b (announcedHeader mem pieces) pieces roomy amd.pos amd.some
    have same :=
      congrArg (fun a : Assembly => a.delivered.length)
      (segments.symm.trans (transparent.same.trans original))
    rw [whole] at fewer
    simp only at same
    split at same
    · have atMost :=
        @sendSdu_length_le (feedParts mem pieces b (segmentsBy (belowWhole pieces) pieces 0 grants))
      rw [sendSdu_length nonempty] at same
      omega
    · omega
  · intro cuts
    refine ⟨accepted, segments.trans (Eq.trans ?_ original.symm)⟩
    rw [feedParts_inside amd.pos enough sumPos complete' cuts (by rw [whole]; exact roomy),
      whole, Nat.add_zero]

/-- A PDU of 128 pieces is never sent again beyond its first piece. -/
theorem not_transparent_wide (amd : AmdPdu pdu mem pieces) (wide : pieces.length = 128)
    (noHoles : pdu.numHoles = 0)
    (all : pdu.retxPayloadSize = pdu.payloadSize) (enough : ∀ grant ∈ grants, 5 ≤ grant.bytes)
    (roomy : Roomy (if bitAt mem 3 then a else sendSdu a) pieces) :
    ¬ Transparent pdu mem grants a := by
  intro transparent
  obtain ⟨-, segments⟩ :=
    @resegment_feed pdu mem pieces grants a (inFirstPiece pieces) amd noHoles all enough
    fun pdu so nbBytes slot inside grant => by
      obtain ⟨pdu', hole, -, plan⟩ := planSegment_hole slot inside nbBytes
      have negative : pdu'.nbSdus = -128 := by
        unfold TxPdu.nbSdus
        rw [hole.amd.count, wide]
        rfl
      refine ⟨pdu', hole, plan.trans ?_⟩
      rw [if_neg (by rw [negative]; decide), planMany_wide hole.amd wide inside grant]
      simp only [inFirstPiece, decide_eq_true_eq]
  have single : ∀ segment ∈ segmentsBy (inFirstPiece pieces) pieces 0 grants,
      segment.2.length = 1 ∧ segment.1 + segment.2.sum < pieces.sum :=
        inFirstPiece_single amd wide enough
  have atMost := @feedSegments_single mem pieces _ single (segmentsBy_sorted amd.pos enough).1 a
  have original := amd.feed a
  rw [Am.feed] at original
  have begins : a.delivered.length ≤
      (if (!bitAt mem 3) = true then sendSdu a else a).delivered.length := by
    split
    · rw [sendSdu_delivered, List.length_append]
      exact Nat.le_add_right _ _
    · exact Nat.le_refl _
  have begins' : (if (!bitAt mem 3) = true then sendSdu a else a) = if bitAt mem 3 then
      a else sendSdu a := by
    cases bitAt mem 3 <;> rfl
  rw [begins'] at original begins
  generalize (if bitAt mem 3 then a else sendSdu a) = b at roomy original begins
  obtain ⟨count, nonempty⟩ :=
    @feedPieces_length mem b (announcedHeader mem pieces) pieces roomy amd.pos amd.some
  have same :=
    congrArg (fun a : Assembly => a.delivered.length)
    (segments.symm.trans (transparent.same.trans original))
  have bound :
      (if ∃ segment ∈ segmentsBy (inFirstPiece pieces) pieces 0 grants, segment.1 = 0 then
      1 else 0) ≤ 1 := by
    split <;> decide
  split at same
  · rw [sendSdu_length nonempty] at same
    omega
  · omega

/-- A PDU that is sent again as segments, with grants that suffice for all of its bytes and
an SDU in construction that it does not outgrow: the segments are as good as the PDU
exactly when there are at most 127 pieces and no segment ends where one SDU of the PDU
ends and the next starts. -/
theorem resegmentation_transparent (pdu : TxPdu) (mem : Memory) (pieces : List Nat)
    (amd : AmdPdu pdu mem pieces)
    (noHoles : pdu.numHoles = 0) (all : pdu.retxPayloadSize = pdu.payloadSize)
    (grants : List SegmentGrant)
    (enough : ∀ grant ∈ grants, 5 ≤ grant.bytes)
    (complete : sentBytes (plannedSegments pieces grants) = pieces.sum)
    (a : Assembly) (roomy : Roomy (if bitAt mem 3 then a else sendSdu a) pieces) :
    Transparent pdu mem grants a ↔ pieces.length < 128 ∧
      ∀ segment ∈ plannedSegments pieces grants,
        segment.1 + segment.2.sum ∉ innerBoundaries pieces := by
  by_cases few : pieces.length < 128
  · rw [transparent_iff amd few noHoles all enough complete roomy]
    exact ⟨fun cuts => ⟨few, cuts⟩, fun both => both.2⟩
  · have most : pieces.length ≤ 128 := amd.announces.few
    constructor
    · intro transparent
      exact absurd transparent (not_transparent_wide amd (by omega) noHoles all enough roomy)
    · rintro ⟨few', -⟩
      exact absurd few' few

end Transparency

/-- The bytes of a PDU with two SDUs of five and seven bytes. -/
def twoPieces : Memory := fun a =>
  if a = 0 then 0x84 else if a = 1 then 0 else if a = 2 then 0 else if a = 3 then
    0x50 else UInt8.ofNat a

def twoPiecesPdu : TxPdu where
  memBlock := some twoPieces
  payload := 4
  sdusIndex := [0, 1]
  headerAndPayloadSize := 16
  payloadSize := 12
  retxPayloadSize := 12
  transmitted := true
  retransmit := true

theorem twoPiecesPdu_amd : AmdPdu twoPiecesPdu twoPieces [5, 7] where
  block := rfl
  announces := ⟨by decide, by decide, by decide, by decide, by decide, trivial⟩
  whole := by decide
  some := by decide
  pos := by decide
  small := by decide
  count := rfl
  payloadSize := rfl
  payload := by decide
  size := by decide
  sn := by decide

/-- A first segment of exactly the first SDU: the receiver delivers both SDUs as one. -/
theorem twoPieces_not_transparent :
    (reassemblePdu {} twoPieces (getDataPduInfos twoPieces (Int16.ofInt 16)).info).delivered.map
      List.length = [5, 7] ∧
    (reassembleAll {} (resegment twoPiecesPdu [⟨9, true⟩, ⟨11, true⟩])).delivered.map
      List.length = [12] ∧
    ¬ Transparent twoPiecesPdu twoPieces [⟨9, true⟩, ⟨11, true⟩] {} := by
  have original :
    (reassemblePdu {} twoPieces (getDataPduInfos twoPieces (Int16.ofInt 16)).info).delivered.map
      List.length = [5, 7] := by decide +kernel
  have merged : (reassembleAll {} (resegment twoPiecesPdu [⟨9, true⟩, ⟨11, true⟩])).delivered.map
      List.length = [12] := by
    decide +kernel
  have order : (resegment twoPiecesPdu [⟨9, true⟩, ⟨11, true⟩]).map (fun out => out.info.so) =
    [0, 5] := by decide +kernel
  refine ⟨original, merged, fun transparent => ?_⟩
  have sorted : inSoOrder (resegment twoPiecesPdu [⟨9, true⟩, ⟨11, true⟩]) =
      resegment twoPiecesPdu [⟨9, true⟩, ⟨11, true⟩] := by
    apply List.mergeSort_of_pairwise
    have pairs :
        ((resegment twoPiecesPdu [⟨9, true⟩, ⟨11, true⟩]).map fun out => out.info.so).Pairwise
        (· ≤ ·) := by
      rw [order]
      decide
    rw [List.pairwise_map] at pairs
    exact pairs.imp fun le => decide_eq_true le
  have same := congrArg (fun a : Assembly => a.delivered.map List.length) transparent.same
  rw [sorted] at same
  exact absurd (merged.symm.trans (same.trans original)) (by decide)

/-- Segments that end inside the first SDU and at the end of the PDU. -/
theorem resegmentation_transparent_sample :
    Transparent twoPiecesPdu twoPieces [⟨8, true⟩, ⟨15, true⟩] {} :=
  (resegmentation_transparent twoPiecesPdu twoPieces [5, 7] twoPiecesPdu_amd
    rfl rfl [⟨8, true⟩, ⟨15, true⟩] (by decide)
    (by decide) {} ⟨by decide, by decide⟩).mpr ⟨by decide, by decide⟩

end OpenAir.Rlc.Am
