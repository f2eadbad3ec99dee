import OpenAir.Rlc.Am.SplitReassembly
import OpenAir.Rlc.Am.HolePlan
import Mathlib.Data.List.Induction

/-! The segment made for the bytes of a stored PDU behind a split: what its header describes, and
what the reassembly makes of the two parts. -/
namespace OpenAir.Rlc.Am
open BitField

section Locate

variable {pieces front tail : List Nat} {piece so more : Nat}

/-- The piece that a split falls into, and where in it. -/
theorem split_located (inside : so < pieces.sum) :
    ∃ front piece tail more, pieces = front ++ piece :: tail ∧ so = front.sum + more ∧
      more < piece := by
  induction pieces generalizing so with
  | nil => exact absurd inside (Nat.not_lt_zero so)
  | cons piece rest ih =>
    rw [List.sum_cons] at inside
    by_cases here : so < piece
    · exact ⟨[], piece, rest, so, rfl, (Nat.zero_add so).symm, here⟩
    · obtain ⟨front, inner, tail, more, rfl, offset, below⟩ := @ih (so - piece) (by omega)
      refine ⟨piece :: front, inner, tail, more, rfl, ?_, below⟩
      rw [List.sum_cons]
      omega

theorem piecesFrom_located (below : more < piece) :
    piecesFrom (front.sum + more) (front ++ piece :: tail) = (piece - more) :: tail := by
  rw [piecesFrom_append, piecesFrom, if_pos below]

theorem piecesTo_append (front rest : List Nat) (some : 0 < more) :
    piecesTo (front.sum + more) (front ++ rest) = front ++ piecesTo more rest := by
  induction front with
  | nil => rw [List.sum_nil, Nat.zero_add, List.nil_append, List.nil_append]
  | cons piece front ih =>
    rw [List.cons_append, piecesTo, List.sum_cons, if_neg (by omega), Nat.add_assoc,
      Nat.add_sub_cancel_left, ih, List.cons_append]

theorem piecesTo_located (below : more < piece) (some : 0 < more) :
    piecesTo (front.sum + more) (front ++ piece :: tail) = front ++ [more] := by
  rw [piecesTo_append front _ some, piecesTo, if_pos (Nat.le_of_lt below)]

/-- The split is a boundary between two pieces when it falls in front of its piece. -/
theorem boundary_located (below : more < piece) (some : 0 < front.sum + more) :
    front.sum + more ∈ innerBoundaries (front ++ piece :: tail) ↔ more = 0 := by
  rw [mem_innerBoundaries]
  constructor
  · rintro ⟨first, rest, -, -, same, offset⟩
    rcases List.append_eq_append_iff.mp same with ⟨between, rfl, split_⟩ | ⟨between, rfl, split_⟩
    · cases between with
      | nil => rw [List.append_nil] at offset; omega
      | cons inner between =>
        obtain ⟨rfl, -⟩ := List.cons.inj split_
        simp only [List.sum_append, List.sum_cons] at offset
        omega
    · simp only [List.sum_append] at offset
      omega
  · rintro rfl
    refine ⟨front, piece :: tail, ?_, List.cons_ne_nil _ _, rfl, rfl⟩
    rintro rfl
    exact absurd some (Nat.lt_irrefl 0)

/-- At a boundary, the bytes in front end with the last piece there that is not empty. -/
theorem front_pieces (rest : List Nat) (some : 0 < front.sum) : ∃ zeros, front =
    piecesTo front.sum (front ++ rest) ++ List.replicate zeros 0 ∧
    piecesTo front.sum (front ++ rest) ≠ [] := by
  induction front using List.reverseRecOn generalizing rest with
  | nil => exact absurd some (Nat.lt_irrefl 0)
  | append_singleton front last ih =>
    rw [List.sum_append, List.sum_singleton] at some ⊢
    rw [List.append_assoc, List.singleton_append]
    cases last with
    | zero =>
      obtain ⟨zeros, same, nonempty⟩ := ih (0 :: rest) some
      refine ⟨zeros + 1, ?_, nonempty⟩
      rw [List.replicate_succ', ← List.append_assoc]
      exact congrArg (· ++ [0]) same
    | succ last =>
      have ending := piecesTo_append front ((last + 1) :: rest) (Nat.succ_pos last)
      rw [piecesTo, if_pos (Nat.le_refl _)] at ending
      rw [ending]
      exact ⟨0, (List.append_nil _).symm,
        List.append_ne_nil_of_right_ne_nil _ (List.cons_ne_nil _ _)⟩

end Locate

section Framing

variable {info : PduInfo} {front tail lis : List Nat} {piece more so liSum : Nat}
    {starts ends : Bool}

theorem catchLi_front (below : liSum + front.sum ≤ so) :
    catchLi so liSum (front ++ lis) = catchLi so (liSum + front.sum) lis := by
  induction front generalizing liSum with
  | nil => rfl
  | cons li front ih =>
    rw [List.sum_cons] at below
    rw [List.cons_append, catchLi, if_pos (by omega), ih (by omega), List.sum_cons, Nat.add_assoc]

theorem catchLi_located (below : more < piece) (here : lis = [] ∨ ∃ rest, lis = piece :: rest) :
    catchLi (front.sum + more) 0 (front ++ lis) = (front.sum, lis) := by
  rw [catchLi_front (by omega), Nat.zero_add]
  rcases here with rfl | ⟨rest, rfl⟩
  · rfl
  · rw [catchLi, if_neg (by omega)]

/-- All indicators fit when the bytes go to the end; the hidden size remains. -/
theorem fillLi_all (hidden : Nat) (lis : List Nat) : fillLi (lis.sum + hidden) lis =
    (lis, hidden) := by
  induction lis with
  | nil => rw [List.sum_nil, Nat.zero_add, fillLi]
  | cons li rest ih =>
    rw [fillLi, if_pos (by rw [List.sum_cons]; omega), List.sum_cons, Nat.add_assoc,
      Nat.add_sub_cancel_left, ih]

/-- What the new header says of the pieces behind the split. -/
structure Frames (framing : NewFraming) (pieces : List Nat) (starts ends : Bool) : Prop where
  fiStart : framing.fiStart = starts
  fiEnd : framing.fiEnd = ends
  listed : framing.liList = pieces.dropLast ∨ framing.liList = pieces ∧ ends = true ∧
    pieces.length ≠ 1

theorem fi_flags (starts ends : Bool) (fi : Nat) (eq : fi = framingInfo starts ends) :
    ((fi &&& 0x2) >>> 1 == 0) = starts ∧ (fi &&& 0x1 == 0) = ends := by
  subst eq
  cases starts <;> cases ends <;> decide

theorem Describes.from_split (stored : Describes info (front ++ piece :: tail) starts ends) :
    ∃ lis hidden, info.liList = front ++ lis ∧
      (tail = [] ∧ lis = [] ∨ lis = piece :: tail.dropLast ∧
        tail.sum = tail.dropLast.sum + hidden ∧ 0 < hidden ∨
        lis = piece :: tail ∧ hidden = 0 ∧ ends = true) := by
  rcases stored.listed with ⟨listed, -⟩ | ⟨listed, -, ending⟩
  · rw [List.dropLast_append_of_ne_nil (List.cons_ne_nil _ _)] at listed
    refine ⟨_, (piece :: tail).getLast (List.cons_ne_nil _ _), listed, ?_⟩
    by_cases single : tail = []
    · exact .inl ⟨single, by rw [single]; rfl⟩
    · have positive := stored.last
      have sum := congrArg List.sum (List.dropLast_concat_getLast single)
      rw [List.getLast_append_of_ne_nil _ (List.cons_ne_nil _ _)] at positive
      rw [List.sum_append, List.sum_singleton] at sum
      exact .inr (.inl ⟨List.dropLast_cons_of_ne_nil single, by
        rw [List.getLast_cons single]; exact sum.symm, positive⟩)
  · exact ⟨piece :: tail, 0, listed, .inr (.inr ⟨rfl, rfl, ending⟩)⟩

/-- The framing of the rest: it starts an SDU at a boundary, and also when the PDU does and has an
indicator. -/
theorem newFraming_located (stored : Describes info (front ++ piece :: tail) starts ends)
    (below : more < piece)
    (some : 0 < front.sum + more) :
    Frames (newFraming info (front.sum + more) (piece - more + tail.sum)) ((piece - more) :: tail)
      (decide (more = 0) || (starts && decide (info.liList ≠ []))) ends := by
  obtain ⟨first, last⟩ := fi_flags starts ends info.fi stored.fi
  have toTheEnd :
      decide ((front.sum + more + (piece - more + tail.sum) : Nat) = info.payloadSize) = true := by
    rw [decide_eq_true_eq, stored.payloadSize, List.sum_append, List.sum_cons]
    omega
  obtain ⟨lis, hidden, listed, shape⟩ := stored.from_split
  have front_some (boundary : more = 0) : front ≠ [] := by
    rintro rfl
    exact absurd some (by rw [boundary]; exact Nat.lt_irrefl 0)
  rw [newFraming]
  simp only [first, last, toTheEnd, if_true]
  by_cases none : info.liList = []
  · obtain ⟨rfl, rfl⟩ := List.append_eq_nil_iff.mp (listed.symm.trans none)
    have single : tail = [] := by
      rcases shape with ⟨single, -⟩ | ⟨same, -⟩ | ⟨same, -⟩
      · exact single
      · exact absurd same.symm (List.cons_ne_nil _ _)
      · exact absurd same.symm (List.cons_ne_nil _ _)
    have inner : more ≠ 0 := fun boundary => front_some boundary rfl
    subst single
    rw [if_pos none, List.sum_nil, Nat.zero_add]
    exact ⟨by simp [none, inner], rfl, .inl rfl⟩
  · have fiStart :
      (if lis.length < info.liList.length ∧ front.sum + more = front.sum then true else starts) =
        (decide (more = 0) || (starts && decide (info.liList ≠ []))) := by
      by_cases boundary : more = 0
      · have later : lis.length < info.liList.length := by
          rw [listed, List.length_append, Nat.lt_add_left_iff_pos, List.length_pos_iff]
          exact front_some boundary
        rw [if_pos ⟨later, by rw [boundary, Nat.add_zero]⟩]
        simp [boundary]
      · rw [if_neg (by omega)]
        simp [boundary, none]
    have search : catchLi (front.sum + more) 0 info.liList = (front.sum, lis) := by
      rw [listed]
      refine catchLi_located below ?_
      rcases shape with ⟨-, ended⟩ | ⟨here, -⟩ | ⟨here, -⟩
      · exact .inl ended
      · exact .inr ⟨_, here⟩
      · exact .inr ⟨_, here⟩
    simp only [none, if_false, search, fiStart]
    have first : front.sum + piece - (front.sum + more) = piece - more := Nat.add_sub_add_left _ _ _
    rcases shape with ⟨rfl, rfl⟩ | ⟨rfl, sum, positive⟩ | ⟨rfl, -, rfl⟩
    · exact ⟨rfl, rfl, .inl rfl⟩
    · have more_ : tail ≠ [] := by
        rintro rfl
        exact absurd sum (by simp; omega)
      simp only [first, Nat.add_sub_cancel_left, sum, fillLi_all, if_neg (Nat.ne_of_gt positive)]
      rw [if_neg (by omega)]
      exact ⟨rfl, rfl, .inl (List.dropLast_cons_of_ne_nil more_).symm⟩
    · simp only [first, Nat.add_sub_cancel_left]
      split
      · rename_i short
        have empty : tail = [] := by
          by_contra some_
          have positive := stored.last
          rw [List.getLast_append_of_ne_nil _ (List.cons_ne_nil _ _), List.getLast_cons some_]
            at positive
          have sum := congrArg List.sum (List.dropLast_concat_getLast some_)
          rw [List.sum_append, List.sum_singleton] at sum
          omega
        subst empty
        exact ⟨rfl, rfl, .inl rfl⟩
      · have all := fillLi_all 0 tail
        rw [Nat.add_zero] at all
        rw [all]
        refine ⟨rfl, rfl, .inr ⟨rfl, rfl, fun single => ?_⟩⟩
        rename_i long
        rw [List.length_cons, Nat.add_eq_right, List.length_eq_zero_iff] at single
        exact long (by rw [single]; exact Nat.le_refl _)

end Framing

section Created

variable {pdu front : RxPdu} {rest pieces : List Nat} {starts ends : Bool} {so : Nat}

theorem fillLis_above {mem : Memory} {lis : List Nat} {start k temp i : Nat}
    (behind : start + headerLiLength (k + lis.length) ≤ i) :
    fillLis mem (LiCursor.place start k) temp lis i = mem i := by
  induction lis generalizing mem k temp with
  | nil => rfl
  | cons li lis ih =>
    rw [List.length_cons] at behind
    have here : start + k + k / 2 + 1 < i := by
      rw [headerLiLength] at behind
      omega
    have header : (LiCursor.place start k).header = start + k + k / 2 := rfl
    rw [fillLis, LiCursor.place_next, ih (by rw [Nat.succ_add_eq_add_succ]; exact behind),
      setByte_other _ (by omega), setByte_other _ (by omega)]

/-- The first octet of a header keeps the framing bits, whatever the other bits are. -/
theorem firstOctet_framing (sn : Fin 4) (p starts ends noLi : Bool) :
    let b1 := if p then 192 ||| (1 <<< 5) else 192
    let b1 := if starts then b1 else b1 ||| (1 <<< 4)
    let b1 := if ends then b1 else b1 ||| (1 <<< 3)
    let b1 := if noLi then b1 else b1 ||| (1 <<< 2)
    (UInt8.ofNat (b1 ||| sn.val)).toNat / 2 ^ 3 % 2 ^ 2 = framingInfo starts ends := by
  revert sn p starts ends noLi
  decide

theorem fillNewSegment_header (pdu : RxPdu) (so size : Nat) :
    ((fillNewSegment pdu so size).mem 0).toNat / 2 ^ 3 % 2 ^ 2 =
      framingInfo (newFraming pdu.info so size).fiStart (newFraming pdu.info so size).fiEnd := by
  have small : (pdu.info.sn >>> 8) &&& 0x3 < 4 := Nat.and_lt_two_pow (n := 2) _ (by decide)
  have framing := firstOctet_framing ⟨_, small⟩ pdu.info.p (newFraming pdu.info so size).fiStart
    (newFraming pdu.info so size).fiEnd (decide ((newFraming pdu.info so size).liList = []))
  simp only [decide_eq_true_eq] at framing
  unfold fillNewSegment
  dsimp only
  rw [fillLis_below (by decide), setByte_other _ (by decide), setByte_other _ (by decide),
    setByte_other _ (by decide), setByte_same]
  exact framing

/-- The new segment as filled in holds the bytes behind the split, and says of them what its framing
says. -/
theorem fillNewSegment_describes
    (frames : Frames (newFraming pdu.info so rest.sum) rest starts ends)
    (some : rest ≠ []) (last : 0 < rest.getLast some) :
    Describes (fillNewSegment pdu so rest.sum).info rest starts ends ∧
    (rest.length = 1 → (fillNewSegment pdu so rest.sum).info.liList = []) ∧
    chunks (fillNewSegment pdu so rest.sum).mem (fillNewSegment pdu so rest.sum).info.payload rest =
      chunks pdu.mem (pdu.info.payload + so) rest := by
  refine ⟨⟨some, last, ?_, rfl, ?_, rfl⟩, fun single => ?_, chunks_congr fun i inside => ?_⟩
  · rw [← frames.fiStart, ← frames.fiEnd]
    unfold fillNewSegment
    dsimp only
    cases (newFraming pdu.info so rest.sum).fiStart
      <;> cases (newFraming pdu.info so rest.sum).fiEnd <;> rfl
  · rcases frames.listed with listed | ⟨listed, ending, -⟩
    · have sum := congrArg List.sum (List.dropLast_concat_getLast some)
      rw [List.sum_append, List.sum_singleton] at sum
      refine .inl ⟨listed, ?_⟩
      show (rest.sum : Int) - _ = _
      rw [listed]
      omega
    · refine .inr ⟨listed, ?_, ending⟩
      show (rest.sum : Int) - _ = _
      rw [listed, Int.sub_self]
  · rcases frames.listed with listed | ⟨-, -, several⟩
    · refine listed.trans (List.eq_nil_of_length_eq_zero ?_)
      rw [List.length_dropLast, single]
    · exact absurd single several
  · unfold fillNewSegment
    dsimp only
    have header (lis : List Nat) : pduSegmentHeaderSize lis.length =
        4 + headerLiLength (0 + lis.length) :=
      congrArg (fun k => 4 + headerLiLength k) (Nat.zero_add _).symm
    generalize (newFraming pdu.info so rest.sum).liList = lis
    rw [header lis]
    refine (@fillLis_above _ _ 4 0 0 _ (Nat.le_add_right _ i)).trans ?_
    rw [setByte_other _ (by omega), setByte_other _ (by omega), setByte_other _ (by omega),
      setByte_other _ (by omega), copyBytes, if_pos (by omega), Nat.add_sub_cancel_left]

end Created

section Delivery

variable {pdu front : RxPdu} {pieces : List Nat} {starts ends : Bool} {so : Nat}

/-- A stored PDU or segment, a split inside its data field, and a segment with the bytes in front of
it. -/
structure Split (pdu front : RxPdu) (pieces : List Nat) (starts ends : Bool) (so : Nat) : Prop where
  stored : Describes pdu.info pieces starts ends
  some : 0 < so
  inside : so < pieces.sum
  before : Describes front.info (piecesTo so pieces) starts (decide (so ∈ innerBoundaries pieces))
  bytes : ∀ i < so, front.mem (front.info.payload + i) = pdu.mem (pdu.info.payload + i)

/-- The splits whose rest is framed as it is: those between two SDUs, and those of a PDU that goes
on with an SDU or has no length indicator. -/
def Resumable (info : PduInfo) (pieces : List Nat) (starts : Bool) (so : Nat) : Prop :=
  so ∈ innerBoundaries pieces ∨ starts = false ∨ info.liList = []

instance (info : PduInfo) (pieces : List Nat) (starts : Bool)
    (so : Nat) : Decidable (Resumable info pieces starts so) :=
  inferInstanceAs (Decidable (_ ∨ _ ∨ _))

/-- The rest of the pieces starts with one that is not empty. -/
theorem piecesFrom_positive (inside : so < pieces.sum) : ∃ piece tail, piecesFrom so pieces =
    piece :: tail ∧ 0 < piece := by
  obtain ⟨first, piece, tail, more, rfl, rfl, below⟩ := split_located inside
  exact ⟨_, tail, piecesFrom_located below, Nat.sub_pos_of_lt below⟩

/-- The segment filled in for the rest: it starts an SDU when the split is a boundary or the split
cannot be resumed. -/
theorem Split.filled (split_ : Split pdu front pieces starts ends so) :
    let filled := fillNewSegment pdu so (pieces.sum - so)
    let starts' := decide (so ∈ innerBoundaries pieces) ||
      !decide (Resumable pdu.info pieces starts so)
    Describes filled.info (piecesFrom so pieces) starts' ends ∧
    (filled.mem 0).toNat / 2 ^ 3 % 2 ^ 2 = framingInfo starts' ends ∧
    ((piecesFrom so pieces).length = 1 → filled.info.liList = []) ∧
    chunks filled.mem filled.info.payload (piecesFrom so pieces) =
      chunks pdu.mem (pdu.info.payload + so) (piecesFrom so pieces) := by
  have last := split_.stored.last
  obtain ⟨first, piece, tail, more, rfl, rfl, below⟩ := split_located split_.inside
  have boundary := @boundary_located first tail piece more below split_.some
  have frames := newFraming_located split_.stored below split_.some
  have sum : (first ++ piece :: tail).sum - (first.sum + more) = ((piece - more) :: tail).sum := by
    rw [List.sum_append, List.sum_cons, List.sum_cons]
    omega
  have flag : (decide (more = 0) || (starts && decide (pdu.info.liList ≠ []))) =
      (decide (first.sum + more ∈ innerBoundaries (first ++ piece :: tail)) ||
        !decide (Resumable pdu.info (first ++ piece :: tail) starts (first.sum + more))) := by
    by_cases here : more = 0
    · rw [decide_eq_true here, decide_eq_true (boundary.mpr here), Bool.true_or, Bool.true_or]
    · simp [Resumable, boundary, here]
  have positive : 0 < ((piece - more) :: tail).getLast (List.cons_ne_nil _ _) := by
    rw [List.getLast_append_of_ne_nil _ (List.cons_ne_nil _ _)] at last
    by_cases single : tail = []
    · subst single
      exact Nat.sub_pos_of_lt below
    · rw [List.getLast_cons single] at last ⊢
      exact last
  rw [flag] at frames
  obtain ⟨describes, single, data⟩ :=
    fillNewSegment_describes frames (List.cons_ne_nil _ _) positive
  have header := fillNewSegment_header pdu (first.sum + more) ((piece - more) :: tail).sum
  have sum' : ((piece - more) :: tail).sum = piece - more + tail.sum := List.sum_cons
  rw [sum', frames.fiStart, frames.fiEnd, ← sum'] at header
  rw [sum, piecesFrom_located below]
  exact ⟨describes, header, single, data⟩

/-- The part in front of a boundary and the rest deliver what the PDU does. -/
theorem feed_boundary (mem : Memory) (j : Nat) {zeros : Nat} {front rest : List Nat} (a : Assembly)
    (some : front ≠ [])
    (more : rest ≠ []) (starts ends : Bool) :
    Alike (feed (feed a starts (chunks mem j front) true) true
      (chunks mem (j + front.sum) rest) ends)
      (feed a starts (chunks mem j (front ++ List.replicate zeros 0 ++ rest)) ends) := by
  have sum : (front ++ List.replicate zeros 0).sum = front.sum := by simp
  have some' : front ++ List.replicate zeros 0 ≠ [] := List.append_ne_nil_of_left_ne_nil some _
  rw [chunks_append _ _ (front ++ _), sum]
  simp only [feed, if_true]
  rw [feedPieces_append (chunks_ne_nil some') (chunks_ne_nil more)]
  have here :=
    (sendSdu_twice _).symm.trans
    (@feedPieces_empty (if starts then sendSdu a else a) _ mem j zeros some)
  exact (here.feedPieces _).ending ends

/-- Both parts deliver what the PDU does when the rest is framed as it is. -/
theorem Split.delivers (split_ : Split pdu front pieces starts ends so) {a : Assembly}
    (roomy : Roomy (if starts then sendSdu a else a) pieces) :
    Alike (feed (reassemblePdu a front.mem front.info) (decide (so ∈ innerBoundaries pieces))
      (chunks pdu.mem (pdu.info.payload + so) (piecesFrom so pieces)) ends)
        (reassemblePdu a pdu.mem pdu.info) := by
  have before := piecesTo_sum (Nat.le_of_lt split_.inside)
  have same : chunks front.mem front.info.payload (piecesTo so pieces) =
      chunks pdu.mem pdu.info.payload (piecesTo so pieces) :=
    chunks_congr fun i inside => split_.bytes i (by rwa [before] at inside)
  rw [split_.before.feed, split_.stored.feed, same]
  obtain ⟨first, piece, tail, more, rfl, rfl, below⟩ := split_located split_.inside
  have boundary := @boundary_located first tail piece more below split_.some
  rw [piecesFrom_located below]
  by_cases between : more = 0
  · subst between
    obtain ⟨zeros, whole, nonempty⟩ := front_pieces (piece :: tail) split_.some
    rw [decide_eq_true (boundary.mpr rfl), Nat.add_zero, Nat.sub_zero]
    have fed := @feed_boundary pdu.mem pdu.info.payload zeros _ _ a nonempty
      (List.cons_ne_nil piece tail) starts ends
    rw [← whole, piecesTo_sum (by rw [List.sum_append]; exact Nat.le_add_right _ _)] at fed
    exact fed
  · have positive : 0 < more := Nat.pos_of_ne_zero between
    obtain ⟨room, joined⟩ :=
      @feedPieces_inside pdu.mem (if starts then sendSdu a else a) pdu.info.payload more
      (piece - more) first tail (by rwa [Nat.add_sub_cancel' (Nat.le_of_lt below)])
    rw [Nat.add_sub_cancel' (Nat.le_of_lt below), List.sum_append, List.sum_singleton] at joined
    rw [decide_eq_false (mt boundary.mp between), piecesTo_located below positive]
    simp only [feed, Bool.false_eq_true, if_false, joined]
    exact .refl _

end Delivery

section Overwritten

variable {pdu front created : RxPdu} {pieces : List Nat} {starts ends : Bool} {so : Nat}
    {block : Block} {info : PduInfo} {size : Nat}

/-- A segment says of its bytes what it should: in the framing bits of its header, and in its
decoded framing, indicators and hidden size. -/
structure Tells (segment : RxPdu) (pieces : List Nat) (starts ends : Bool) : Prop where
  header : (segment.mem 0).toNat / 2 ^ 3 % 2 ^ 2 = framingInfo starts ends
  info : Describes { segment.info with e := decide (segment.info.liList ≠ []) } pieces starts ends

/-- The address of the block is one that stands for the decoded header of `pieces`: those of a
single piece, in the lowest four gigabytes, with the framing in the bits 3 and 4. -/
structure Spells (block : Block) (pieces : List Nat) (starts ends : Bool) : Prop where
  single : pieces.length = 1
  low : block.dataPtr.val < 2 ^ 32
  fi : block.dataPtr.val / 2 ^ 3 % 2 ^ 2 = framingInfo starts ends

/-- The number of indicators is read off the address, and the first one is empty. -/
theorem fillMacTbInd_liList : (fillMacTbInd info block size).liList = [] ∧
    block.dataPtr.val < 2 ^ 32 ∨
    ∃ rest, (fillMacTbInd info block size).liList = 0 :: rest := by
  have user := block.dataPtr.isLt
  unfold fillMacTbInd
  dsimp only
  cases count : block.dataPtr.val / 2 ^ 32 % 2 ^ 16 with
  | zero => exact .inl ⟨rfl, by omega⟩
  | succ count =>
    rw [List.range_succ_eq_map, List.map_cons, if_pos rfl,
      Nat.div_eq_of_lt (Nat.lt_trans user (by decide))]
    exact .inr ⟨_, rfl⟩

theorem fillMacTbInd_low (low : block.dataPtr.val < 2 ^ 32) :
    (fillMacTbInd info block size).liList = [] := by
  unfold fillMacTbInd
  dsimp only
  rw [Nat.div_eq_of_lt low]
  rfl

theorem framingInfo_starts {starts starts' ends : Bool}
    (same : framingInfo starts ends = framingInfo starts' ends) :
    starts = starts' := by
  revert same
  cases starts <;> cases starts' <;> cases ends <;> decide

theorem Split.tells_iff (split_ : Split pdu front pieces starts ends so)
    (made : createNewSegmentFromPdu pdu so (pieces.sum - so) (Option.some block) =
      Option.some created) :
    Tells created (piecesFrom so pieces) (decide (so ∈ innerBoundaries pieces)) ends ↔
      Spells block (piecesFrom so pieces) (decide (so ∈ innerBoundaries pieces)) ends ∧
        Resumable pdu.info pieces starts so := by
  obtain ⟨describes, header, single, -⟩ := split_.filled
  obtain ⟨piece, tail, rest, positive⟩ := piecesFrom_positive split_.inside
  have resumed :
    (decide (so ∈ innerBoundaries pieces) || !decide (Resumable pdu.info pieces starts so)) =
      decide (so ∈ innerBoundaries pieces) ↔ Resumable pdu.info pieces starts so := by
    by_cases resumable : Resumable pdu.info pieces starts so
    · simp [resumable]
    · have inner : so ∉ innerBoundaries pieces := fun between => resumable (.inl between)
      simp [resumable, inner]
  cases made
  constructor
  · rintro ⟨framed, info⟩
    refine ⟨?_, resumed.mp (framingInfo_starts (header.symm.trans framed))⟩
    rcases @fillMacTbInd_liList block (fillNewSegment pdu so (pieces.sum - so)).info
      (pieces.sum - so + (fillNewSegment pdu so (pieces.sum - so)).info.headerSize)
        with ⟨none, low⟩ | ⟨others, listed⟩
    · refine ⟨?_, low, info.fi⟩
      rcases info.listed with ⟨front, -⟩ | ⟨all, -⟩
      · have length := congrArg List.length (none.symm.trans front)
        rw [List.length_nil, List.length_dropLast, rest, List.length_cons] at length
        rw [rest, List.length_cons]
        omega
      · exact absurd (all.symm.trans none) info.some
    · -- the first piece is not empty, but the first indicator is
      rcases info.listed with ⟨front, -⟩ | ⟨all, -⟩
      · have begins := listed.symm.trans front
        rw [rest] at begins
        cases tail with
        | nil => cases begins
        | cons next tail =>
          rw [← (List.cons.inj begins).1] at positive
          exact absurd positive (Nat.lt_irrefl 0)
      · have begins := listed.symm.trans all
        rw [rest] at begins
        rw [← (List.cons.inj begins).1] at positive
        exact absurd positive (Nat.lt_irrefl 0)
  · rintro ⟨⟨one, low, fi⟩, resumable⟩
    rw [resumed.mpr resumable] at header describes
    have none := @fillMacTbInd_low block (fillNewSegment pdu so (pieces.sum - so)).info
      (pieces.sum - so + (fillNewSegment pdu so (pieces.sum - so)).info.headerSize) low
    refine ⟨header, ⟨describes.some, describes.last, fi, rfl, ?_, describes.payloadSize⟩⟩
    rcases describes.listed with ⟨listed, hidden⟩ | ⟨listed, -⟩
    · exact .inl ⟨none.trans ((single one).symm.trans listed), hidden⟩
    · exact absurd (listed.symm.trans (single one)) describes.some

/-- A segment that says of its bytes what it should, a single piece, is one that the reassembly goes
on with. -/
theorem Split.alike (split_ : Split pdu front pieces starts ends so)
    (made : createNewSegmentFromPdu pdu so (pieces.sum - so) (Option.some block) =
      Option.some created)
    (spells : Spells block (piecesFrom so pieces) (decide (so ∈ innerBoundaries pieces)) ends)
    (tells : Tells created (piecesFrom so pieces) (decide (so ∈ innerBoundaries pieces)) ends)
    {a : Assembly}
    (roomy : Roomy (if starts then sendSdu a else a) pieces) :
    Alike (reassemblePdu (reassemblePdu a front.mem front.info) created.mem created.info)
      (reassemblePdu a pdu.mem pdu.info) := by
  obtain ⟨-, -, -, data⟩ := split_.filled
  obtain ⟨piece, tail, rest, positive⟩ := piecesFrom_positive split_.inside
  have alone : piecesFrom so pieces = [piece] := by
    have one := spells.single
    rw [rest, List.length_cons, Nat.add_eq_right, List.length_eq_zero_iff] at one
    rw [rest, one]
  have none : created.info.liList = [] := by
    cases made
    exact fillMacTbInd_low spells.low
  have hidden : created.info.hiddenSize = created.info.payloadSize ∧
      0 < created.info.hiddenSize := by
    obtain ⟨-, info⟩ := tells
    rw [alone] at info
    have size : created.info.payloadSize = ([piece] : List Nat).sum := info.payloadSize
    rcases info.listed with ⟨-, hidden⟩ | ⟨listed, -⟩
    · have hidden : created.info.hiddenSize = (piece : Nat) := hidden
      rw [hidden, size, List.sum_singleton]
      exact ⟨rfl, by omega⟩
    · exact absurd (listed.symm.trans none) (List.cons_ne_nil _ _)
  have described := tells.info.feed created.mem (reassemblePdu a front.mem front.info)
  have absent : decide (created.info.liList ≠ []) = false := by simp [none]
  rw [absent] at described
  rw [reassemblePdu_e _ _ none hidden.1 hidden.2, described]
  have bytes : chunks created.mem created.info.payload (piecesFrom so pieces) =
      chunks pdu.mem (pdu.info.payload + so) (piecesFrom so pieces) := by
    cases made
    exact data
  exact bytes ▸ split_.delivers roomy

end Overwritten

/-- For every stored PDU or segment, every split inside it and every block, the segment made for the
rest says of its bytes what it should, and the reassembly goes on with it, exactly when the split
can be resumed and the address of the block, which overwrites the decoded header, happens to stand
for it. -/
theorem newSegment_resumes_iff (pdu front : RxPdu) (pieces : List Nat)
    (starts ends : Bool) (so : Nat)
    (split_ : Split pdu front pieces starts ends so) (a : Assembly)
    (roomy : Roomy (if starts then sendSdu a else a) pieces) (block : Block) :
    ∃ created, createNewSegmentFromPdu pdu so (pieces.sum - so) (some block) = some created ∧
      (Tells created (piecesFrom so pieces) (decide (so ∈ innerBoundaries pieces)) ends ∧
        Alike (reassemblePdu (reassemblePdu a front.mem front.info) created.mem created.info)
          (reassemblePdu a pdu.mem pdu.info) ↔
        Spells block (piecesFrom so pieces) (decide (so ∈ innerBoundaries pieces)) ends ∧
          Resumable pdu.info pieces starts so) := by
  refine ⟨_, rfl, fun ⟨tells, _⟩ => (split_.tells_iff rfl).mp tells, fun given => ?_⟩
  have tells := (split_.tells_iff rfl).mpr given
  exact ⟨tells, split_.alike rfl given.1 tells roomy⟩

def fiveAndSeven : RxPdu where
  mem i := UInt8.ofNat i
  info :=
    { dC := true, e := true, liList := [5], hiddenSize := 7, payload := 4, payloadSize := 12,
      headerSize := 4 }

/-- Its first bytes, as a segment that ends an SDU or not. -/
def fiveAndSevenFront (size : Nat) (ends : Bool) : RxPdu where
  mem i := UInt8.ofNat i
  info :=
    { dC := true, rf := true, fi := if ends then 0 else 1, hiddenSize := size, payload := 4,
      payloadSize := size, headerSize := 4 }

theorem fiveAndSeven_split (so : Nat) (some : 0 < so) (inFirst : so ≤ 5) :
    Split fiveAndSeven (fiveAndSevenFront so (decide (so ∈ innerBoundaries [5, 7])))
      [5, 7] true true so where
  stored := ⟨List.cons_ne_nil _ _, by decide, rfl, rfl, .inl ⟨rfl, rfl⟩, rfl⟩
  some
  inside := by
    simp only [List.sum_cons, List.sum_nil]
    omega
  before := by
    rw [piecesTo, if_pos inFirst]
    refine ⟨List.cons_ne_nil _ _, some, ?_, rfl, .inl ⟨rfl, rfl⟩, ?_⟩
    · exact (Nat.zero_add _).symm
    · rw [List.sum_singleton]
      rfl
  bytes i _ := rfl

def blockAt (dataPtr : Fin (2 ^ 47)) : Block := ⟨dataPtr, fun _ => 0⟩

/-- Split between the SDUs, in a block whose address has the framing bits clear. -/
theorem newSegment_resumes_fiveAndSeven :
    ∃ created, createNewSegmentFromPdu fiveAndSeven 5 7 (some (blockAt 0x12345620)) = some created ∧
    Tells created [7] true true ∧
    Alike (reassemblePdu
      (reassemblePdu {} (fiveAndSevenFront 5 true).mem (fiveAndSevenFront 5 true).info)
      created.mem created.info)
      (reassemblePdu {} fiveAndSeven.mem fiveAndSeven.info) := by
  obtain ⟨created, made, right⟩ := newSegment_resumes_iff fiveAndSeven _ [5, 7] true true 5
    (fiveAndSeven_split 5 (by decide) (by decide)) {} ⟨by decide, by decide⟩ (blockAt 0x12345620)
  exact ⟨created, made, right.mpr ⟨⟨rfl, by decide, by decide⟩, by decide⟩⟩

/-- Split between the SDUs, in a block whose address has both framing bits set: the second SDU is
not delivered. -/
theorem newSegment_not_resumed : ¬ ∀ (pdu front : RxPdu) (pieces : List Nat)
    (starts ends : Bool) (so : Nat),
    Split pdu front pieces starts ends so → ∀ a :
    Assembly, Roomy (if starts then sendSdu a else a) pieces → ∀ block : Block,
    ∃ created, createNewSegmentFromPdu pdu so (pieces.sum - so) (some block) = some created ∧
      Alike (reassemblePdu (reassemblePdu a front.mem front.info) created.mem created.info)
        (reassemblePdu a pdu.mem pdu.info) := by
  intro claim
  obtain ⟨created, made, alike⟩ :=
    claim fiveAndSeven _ [5, 7] true true 5 (fiveAndSeven_split 5 (by decide) (by decide)) {}
    ⟨by decide, by decide⟩ (blockAt 0x7F0000001018)
  cases made
  have same := congrArg List.length alike.delivered
  exact absurd same (by decide)

end OpenAir.Rlc.Am
