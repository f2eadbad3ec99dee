import OpenAir.Rlc.Am.Resegment

/-! The plan of a segment for a hole anywhere in the PDU: the walk over the length
indicators stops at the piece that holds the end of the hole, which is cut there. -/
namespace OpenAir.Rlc.Am
open BitField

/-- The pieces up to the byte `stop`, which is not one of theirs. -/
@[grind =]
def piecesTo : Nat → List Nat → List Nat
  | _, [] => []
  | stop, piece :: rest => if stop ≤ piece then [stop] else piece :: piecesTo (stop - piece) rest

section PiecesTo

variable {pieces : List Nat} {stop : Nat}

theorem piecesTo_sum (inside : stop ≤ pieces.sum) : (piecesTo stop pieces).sum = stop := by
  induction pieces generalizing stop with
  | nil => exact (Nat.le_zero.mp inside).symm
  | cons piece rest ih =>
    rw [List.sum_cons] at inside
    rw [piecesTo]
    split
    · exact List.sum_singleton
    · rw [List.sum_cons, ih (by omega)]
      omega

theorem piecesTo_pos (pos : ∀ piece ∈ pieces, 0 < piece) (some : 0 < stop) :
    ∀ piece ∈ piecesTo stop pieces, 0 < piece := by
  induction pieces generalizing stop with
  | nil => exact fun piece none => absurd none List.not_mem_nil
  | cons piece rest ih =>
    rw [piecesTo]
    intro part member
    split at member
    · rw [List.mem_singleton.mp member]
      exact some
    · rcases List.mem_cons.mp member with rfl | later
      · exact pos part List.mem_cons_self
      · exact ih (fun piece member => pos piece (List.mem_cons_of_mem _ member))
          (by omega) part later

theorem piecesTo_length (stop : Nat) (pieces : List Nat) : (piecesTo stop pieces).length ≤
    pieces.length := by
  induction pieces generalizing stop with
  | nil => exact Nat.le_refl _
  | cons piece rest ih =>
    rw [piecesTo]
    split
    · exact Nat.succ_le_succ (Nat.zero_le _)
    · exact Nat.succ_le_succ (ih _)

theorem Short.piecesTo (short : Short pieces) (stop : Nat) : Short (piecesTo stop pieces) := by
  induction pieces generalizing stop with
  | nil => exact short
  | cons piece rest ih =>
    rw [Am.piecesTo]
    split
    · simp [Short]
    · refine .cons (fun more => short.head fun none => ?_) (ih short.tail _)
      rw [none] at more
      exact more rfl

theorem piecesTo_inside {k : Nat} (inside : k < pieces.length) (lower : (pieces.take k).sum < stop)
    (upper : stop ≤ (pieces.take (k + 1)).sum) :
    piecesTo stop pieces = pieces.take k ++ [stop - (pieces.take k).sum] := by
  induction pieces generalizing stop k with
  | nil => exact absurd inside (Nat.not_lt_zero _)
  | cons piece rest ih =>
    rw [piecesTo]
    cases k with
    | zero =>
      simp only [List.take_succ_cons, List.take_zero, List.sum_cons, List.sum_nil, Nat.add_zero]
        at upper
      rw [if_pos upper, List.take_zero, List.sum_nil, Nat.sub_zero, List.nil_append]
    | succ k =>
      simp only [List.take_succ_cons, List.sum_cons] at lower upper
      rw [if_neg (by omega), ih (Nat.lt_of_succ_lt_succ inside) (by omega) (by omega)]
      simp only [List.take_succ_cons, List.sum_cons, List.cons_append, Nat.sub_sub]

theorem piecesTo_all (some : pieces ≠ []) (pos : ∀ piece ∈ pieces, 0 < piece) :
    piecesTo pieces.sum pieces = pieces := by
  have last : pieces.length - 1 < pieces.length :=
    Nat.sub_lt (List.length_pos_iff.mpr some) Nat.one_pos
  have whole : pieces.take (pieces.length - 1 + 1) = pieces := List.take_of_length_le (by omega)
  have next := take_succ_sum last
  rw [whole, List.getD_eq_getElem _ _ last] at next
  have here := pos _ (List.getElem_mem last)
  rw [piecesTo_inside last (by omega) (by rw [whole]), next, Nat.add_sub_cancel_left]
  conv_rhs => rw [← whole, List.take_succ_eq_append_getElem last]

theorem piecesFrom_piecesTo {so : Nat} (before : so < stop) :
    piecesFrom so (piecesTo stop pieces) = piecesTo (stop - so) (piecesFrom so pieces) := by
  induction pieces generalizing so stop with
  | nil => rfl
  | cons piece rest ih =>
    rw [piecesTo, piecesFrom]
    by_cases ends : stop ≤ piece
    · rw [if_pos ends, if_pos (by omega), piecesFrom, if_pos before, piecesTo, if_pos (by omega)]
    · rw [if_neg ends, piecesFrom]
      by_cases here : so < piece
      · rw [if_pos here, if_pos here, piecesTo, if_neg (by omega)]
        congr 2
        omega
      · rw [if_neg here, if_neg here, ih (by omega)]
        congr 1
        omega

end PiecesTo

section FindStop

variable {pdu : TxPdu} {mem : Memory} {pieces : List Nat}

/-- The size of the piece that the search for the end reads next. -/
theorem AmdPdu.nextSize (amd : AmdPdu pdu mem pieces) {k : Nat} {w : PieceWalk}
    (walk : WalkAt pieces w k)
    (more : k < pieces.length) :
    (if (k : Int) < (pieces.length : Int) - 1 then (w.cursor.read mem : Int)
      else pdu.payloadSize - (pieces.take k).sum) = pieces.getD k 0 := by
  by_cases inner : k < pieces.length - 1
  · rw [if_pos (by omega), walk.cursor more, LiCursor.place_read, amd.liAt inner]
  · have last := take_succ_sum more
    rw [List.take_of_length_le (show pieces.length ≤ k + 1 by omega)] at last
    rw [if_neg (by omega), amd.payloadSize]
    omega

theorem take_sum_le (k : Nat) (pieces : List Nat) : (pieces.take k).sum ≤ pieces.sum := by
  have whole := congrArg List.sum (List.take_append_drop k pieces)
  rw [List.sum_append] at whole
  omega

/-- The search for the end takes the pieces up to the one that holds it. -/
theorem findStop_inside (amd : AmdPdu pdu mem pieces) (few : pieces.length < 128) {stop : Nat}
    (inside : stop ≤ pieces.sum)
    {rounds k : Nat} {w : PieceWalk} {sizes : List Int} (walk : WalkAt pieces w k)
    (lower : (pieces.take k).sum < stop) (enough : pieces.length ≤ rounds + k) :
    ∃ last, k ≤ last ∧ last < pieces.length ∧ (pieces.take last).sum < stop ∧
      stop ≤ (pieces.take (last + 1)).sum ∧
      (findStop mem pdu (stop - 1) rounds w sizes).1.dataSize = (pieces.take (last + 1)).sum ∧
      (findStop mem pdu (stop - 1) rounds w sizes).1.sduSize = pieces.getD last 0 ∧
      (findStop mem pdu (stop - 1) rounds w sizes).2 =
      sizes ++ ints ((pieces.take (last + 1)).drop k) := by
  have small := amd.small
  have more : k < pieces.length := by
    by_contra beyond
    rw [List.take_of_length_le (Nat.le_of_not_lt beyond)] at lower
    exact absurd inside (Nat.not_le.mpr lower)
  induction rounds generalizing k w sizes with
  | zero => omega
  | succ rounds ih =>
    have next := walk.step amd few more
    have upto := take_succ_sum more
    have bound := take_sum_le (k + 1) pieces
    have fits : int16 (pieces.getD k 0 : Nat) = (pieces.getD k 0 : Nat) :=
      int16_eq (by omega) (by omega)
    rw [findStop, walk.size, walk.index, amd.nbSdus few, if_pos (by omega)]
    simp only [amd.nextSize walk more, fits]
    have one : (pieces.take (k + 1)).drop k = [pieces.getD k 0] := by
      rw [List.take_succ_eq_append_getElem more,
        List.drop_left' (List.length_take_of_le (Nat.le_of_lt more)), List.getD_eq_getElem _ _ more]
    by_cases here : stop ≤ (pieces.take (k + 1)).sum
    · refine ⟨k, Nat.le_refl k, more, lower, here, ?_⟩
      have ended (left : Nat) : findStop mem pdu (stop - 1) left
          { w.step mem pdu with sduSize := ((pieces.getD k 0 : Nat) : Int) }
            (sizes ++ [((pieces.getD k 0 : Nat) : Int)]) =
          ({ w.step mem pdu with sduSize := ((pieces.getD k 0 : Nat) : Int) },
            sizes ++ [((pieces.getD k 0 : Nat) : Int)]) := by
        cases left with
        | zero => rfl
        | succ left =>
          rw [findStop, if_neg]
          rintro ⟨-, under⟩
          have data := next.size
          simp only at under
          omega
      rw [ended, one]
      simp only
      refine ⟨next.size, trivial, ?_⟩
      rw [ints, List.map_singleton, Int.ofNat_eq_natCast]
    · have behind : k + 1 < pieces.length := by
        by_contra end'
        rw [List.take_of_length_le (Nat.le_of_not_lt end')] at here
        exact here inside
      obtain ⟨last, past, below, under, upper, data, size, taken⟩ :=
        @ih _ _ (sizes ++ [((pieces.getD k 0 : Nat) : Int)]) (next.resized _)
          (Nat.lt_of_not_le here) (by omega) behind
      refine ⟨last, Nat.le_of_succ_le past, below, under, upper, data, size, taken.trans ?_⟩
      have parted : (pieces.take (last + 1)).drop k =
          pieces.getD k 0 :: (pieces.take (last + 1)).drop (k + 1) := by
        have length : k < (pieces.take (last + 1)).length := by
          rw [List.length_take]
          omega
        rw [List.drop_eq_getElem_cons length, List.getElem_take, List.getD_eq_getElem _ _ more]
      rw [parted, List.append_assoc]
      rfl

/-- The last piece taken is cut where the hole ends. -/
theorem trimLast {front : List Int} {last upto stop : Nat} (lower : upto < stop)
    (upper : stop ≤ upto + last)
    (small : stop ≤ 32767) :
    (if ((upto + last : Nat) : Int) > (stop : Int) - 1 + 1 then
      (front ++ [(last : Int)]).set ((front ++ [(last : Int)]).length - 1)
        (int16 ((stop : Int) - 1 - (((upto + last : Nat) : Int) - (last : Int)) + 1))
      else front ++ [(last : Int)]) = front ++ [((stop - upto : Nat) : Int)] := by
  split
  · have place : (front ++ [(last : Int)]).length - 1 = front.length := by
      rw [List.length_append, List.length_singleton, Nat.add_sub_cancel]
    rw [place, List.set_append_right _ _ (Nat.le_refl _), Nat.sub_self, List.set_cons_zero,
      int16_small (show _ = ((stop - upto : Nat) : Int) by omega) (by omega)]
  · have same : last = stop - upto := by omega
    rw [← same]

end FindStop

section Hole

variable {pdu : TxPdu} {mem : Memory} {pieces : List Nat} {nbBytes : Int} {so stop room : Nat}

theorem planPieces_first {w : PieceWalk} {start : Int} {size hole : Nat}
    (first : w.dataSize - start = size)
    (holeSize : (stop : Int) - 1 - start + 1 = hole) (grant : nbBytes = ((room + 4 : Nat) : Int))
    (small : size ≤ 32767)
    (holePos : 0 < hole) (roomPos : 0 < room) (within : hole ≤ size) :
    planPieces mem pdu nbBytes start ((stop : Int) - 1) w = some (boundAt [min room hole] []) := by
  have inFirst : ((size : Nat) : Int) ≥ (hole : Nat) := Int.ofNat_le.mpr within
  have bounded : ((hole : Int) + (pduSegmentHeaderMinSize : Nat) ≥ nbBytes) ↔ room ≤ hole := by
    rw [grant, pduSegmentHeaderMinSize]
    omega
  have taken : (if (hole : Int) + (pduSegmentHeaderMinSize : Nat) ≥ nbBytes then
      int16 (nbBytes - (pduSegmentHeaderMinSize : Nat)) else (hole : Int)) =
          (min room hole : Nat) := by
    split
    · rename_i beyond
      rw [bounded] at beyond
      rw [Nat.min_eq_left beyond]
      exact int16_small (by rw [grant, pduSegmentHeaderMinSize]; omega) (by omega)
    · rename_i under
      rw [bounded] at under
      rw [Nat.min_eq_right (by omega)]
  have some : ((min room hole : Nat) : Int) ≠ 0 := by omega
  unfold planPieces
  simp only [int16_small first small, holeSize, inFirst, if_true,
    int16_small (rfl : (hole : Int) = hole) (by omega), taken]
  rw [if_pos ⟨Or.inl trivial, some⟩, boundAt_single]

theorem partsAt_grant (grant : nbBytes = ((room + 4 : Nat) : Int)) :
    partsAt pieces so nbBytes = cut room 0 (piecesFrom so pieces) := by
  have minus : (nbBytes - pduSegmentHeaderMinSize).toNat = room := by
    rw [grant, pduSegmentHeaderMinSize]
    omega
  rw [partsAt, minus]

theorem cut_single (room k size : Nat) : cut room k [size] = [min room size] := by
  rw [cut]
  split
  · rw [Nat.min_eq_left (by assumption)]
  · rw [Nat.min_eq_right (by omega)]
    split <;> rfl

/-- The pieces taken and the indicators between them fit the room. -/
theorem cut_fits {k : Nat} {sizes : List Nat} (roomPos : 0 < room) :
    (cut room k sizes).sum + headerLiLength (k + ((cut room k sizes).length - 1)) ≤
    room + headerLiLength k := by
  induction sizes generalizing room k with
  | nil => simp [cut]
  | cons size rest ih =>
    rw [cut]
    split
    · exact Nat.le_refl _
    · split
      · rename_i more
        have tail := @ih (room - (size + liBytes k)) (k + 1) (by omega)
        have header := headerLiLength_liBytes k
        rw [List.sum_cons, List.length_cons, Nat.add_sub_cancel]
        generalize cut (room - (size + liBytes k)) (k + 1) rest = parts at tail
        cases parts with
        | nil =>
          simp only [List.sum_nil, List.length_nil, Nat.add_zero]
          omega
        | cons part parts =>
          simp only [List.length_cons, Nat.add_sub_cancel] at tail ⊢
          rw [show k + (parts.length + 1) = k + 1 + parts.length by omega]
          omega
      · simp only [List.sum_cons, List.sum_nil, List.length_cons, List.length_nil, Nat.zero_add,
          Nat.sub_self, Nat.add_zero]
        omega

theorem cut_sum_le {k : Nat} {sizes : List Nat} (roomPos : 0 < room) :
    (cut room k sizes).sum ≤ room := by
  have fits := @cut_fits room k sizes roomPos
  have header := headerLiLength_mono (Nat.le_add_right k ((cut room k sizes).length - 1))
  omega

/-- The pieces that the search for the end leaves, the last one trimmed. -/
theorem sizes_trimmed {k last first : Nat} (past : k ≤ last) (below : last < pieces.length)
    (lower : (pieces.take last).sum < stop) (upper : stop ≤ (pieces.take (last + 1)).sum)
    (small : stop ≤ 32767) :
    (if (((pieces.take (last + 1)).sum : Nat) : Int) > (stop : Int) - 1 + 1 then
      ([(first : Int)] ++ ints ((pieces.take (last + 1)).drop k)).set
        (([(first : Int)] ++ ints ((pieces.take (last + 1)).drop k)).length - 1)
        (int16 ((stop :
          Int) - 1 - ((((pieces.take (last + 1)).sum : Nat) :
          Int) - ((pieces.getD last 0 : Nat) : Int)) + 1))
      else [(first : Int)] ++ ints ((pieces.take (last + 1)).drop k)) =
      ints (first :: piecesTo (stop - (pieces.take k).sum) (pieces.drop k)) := by
  have upto := take_succ_sum below
  have length : (pieces.take last).length = last := List.length_take_of_le (Nat.le_of_lt below)
  have taken : (pieces.take (last + 1)).drop k = (pieces.take last).drop k ++
      [pieces.getD last 0] := by
    rw [List.take_succ_eq_append_getElem below,
      List.drop_append_of_le_length (by rw [length]; exact past), List.getD_eq_getElem _ _ below]
  have front : ([(first : Int)] ++ ints ((pieces.take (last + 1)).drop k)) =
      ints (first :: (pieces.take last).drop k) ++ [((pieces.getD last 0 : Nat) : Int)] := by
    rw [taken, ints_append]
    rfl
  have sums : (pieces.take k).sum + ((pieces.drop k).take (last - k)).sum =
      (pieces.take last).sum := by
    have joined : pieces.take last = pieces.take k ++ (pieces.drop k).take (last - k) := by
      rw [← List.take_add, Nat.add_sub_cancel' past]
    rw [joined, List.sum_append]
  have rest : piecesTo (stop - (pieces.take k).sum) (pieces.drop k) =
      (pieces.take last).drop k ++ [stop - (pieces.take last).sum] := by
    have next : (pieces.take k).sum + ((pieces.drop k).take (last - k + 1)).sum =
        (pieces.take (last + 1)).sum := by
      have joined : pieces.take (last + 1) = pieces.take k ++ (pieces.drop k).take
          (last - k + 1) := by
        rw [← List.take_add, show k + (last - k + 1) = last + 1 by omega]
      rw [joined, List.sum_append]
    have inside : last - k < (pieces.drop k).length := by
      rw [List.length_drop]
      omega
    rw [piecesTo_inside inside (by omega) (by omega), List.drop_take]
    congr 2
    omega
  rw [front, upto, trimLast lower (by omega) small, rest, ints, ints, List.map_cons, List.map_cons,
    List.map_append]
  rfl

/-- The pieces planned for a hole behind `so` that ends in front of `stop`. -/
theorem planPieces_hole (amd : AmdPdu pdu mem pieces) (few : pieces.length < 128)
    (grant : nbBytes = ((room + 4 : Nat) : Int)) (roomPos : 0 < room) (before : so < stop)
    (inside : stop ≤ pieces.sum)
    {k : Nat} {w : PieceWalk} (walk : WalkAt pieces w k) (below : k ≤ pieces.length)
    (upper : so < (pieces.take k).sum)
    (left : piecesFrom so pieces = ((pieces.take k).sum - so) :: pieces.drop k) :
    ∃ rest, planPieces mem pdu nbBytes so ((stop : Int) - 1) w =
      some (boundAt (partsAt (piecesTo stop pieces) so nbBytes) rest) := by
  have small := amd.small
  have bound := take_sum_le k pieces
  have first : w.dataSize - so = (((pieces.take k).sum - so : Nat) : Int) := by
    rw [walk.size]
    omega
  have sizePos : 0 < (pieces.take k).sum - so := Nat.sub_pos_of_lt upper
  rw [partsAt_grant grant, piecesFrom_piecesTo before, left, piecesTo]
  generalize front : (pieces.take k).sum - so = size at first left sizePos
  by_cases ends : stop - so ≤ size
  · rw [if_pos ends, cut_single]
    exact ⟨[], planPieces_first first (by omega) grant (by omega) (by omega) roomPos ends⟩
  · rw [if_neg ends, cut]
    by_cases filled : room ≤ size
    · rw [if_pos filled]
      refine ⟨[], (@planPieces_single pdu mem nbBytes w so _ size (stop - so - size) room
        first (by omega) grant (by omega)
        sizePos roomPos (Or.inl filled)).trans ?_⟩
      rw [Nat.min_eq_left filled]
    · have lower : (pieces.take k).sum < stop := by omega
      obtain ⟨last, past, inner, under, over_, data, lastSize, taken⟩ :=
        @findStop_inside pdu mem pieces amd few stop inside
        maxSduInPdu k w [(size : Int)] walk lower (by simp only [maxSduInPdu]; omega)
      have trimmed := @sizes_trimmed pieces stop k last size past inner under over_ (by omega)
      have rest : stop - so - size = stop - (pieces.take k).sum := by omega
      have length := piecesTo_length (stop - (pieces.take k).sum) (pieces.drop k)
      rw [List.length_drop] at length
      have kPos : 0 < k := by
        rcases Nat.eq_zero_or_pos k with rfl | positive
        · exact absurd upper (Nat.not_lt_zero _)
        · exact positive
      rw [planPieces_search first (by omega) (by omega) (by omega)
        (by rw [grant, pduSegmentHeaderMinSize]; omega)]
      simp only [data, lastSize, taken, trimmed]
      have count :
        ¬ ((ints (size :: piecesTo (stop - (pieces.take k).sum) (pieces.drop k))).length :
        Int) - 1 >
          pdu.nbSdus - 1 := by
        rw [amd.nbSdus few, ints_length, List.length_cons]
        omega
      rw [if_neg count]
      have pos : ∀ piece ∈ size :: piecesTo (stop - (pieces.take k).sum) (pieces.drop k),
          0 < piece := by
        intro piece member
        rcases List.mem_cons.mp member with rfl | later
        · exact sizePos
        · exact piecesTo_pos (fun piece member => amd.pos piece (List.mem_of_mem_drop member))
            (by omega) piece later
      obtain ⟨rest', done⟩ := @boundToTbs_cut nbBytes maxSduInPdu room []
        (size :: piecesTo (stop - (pieces.take k).sum) (pieces.drop k))
        (by rw [grant]; simp [pduSegmentHeaderSize, headerLiLength, pduSegmentHeaderMinSize]; omega)
          roomPos
        (List.cons_ne_nil _ _) pos
          (by simp only [List.length_nil, List.length_cons, maxSduInPdu]; omega)
        (by simp only [List.length_cons, maxSduInPdu]; omega)
      rw [rest]
      refine ⟨rest', congrArg some (done.trans ?_)⟩
      rw [List.nil_append, List.length_nil, cut, if_neg filled]

theorem holeParts_spec (pos : ∀ piece ∈ pieces, 0 < piece) (roomPos : 0 < room) (before : so < stop)
    (inside : stop ≤ pieces.sum) :
    cut room 0 (piecesFrom so (piecesTo stop pieces)) ≠ [] ∧
    (∀ part ∈ cut room 0 (piecesFrom so (piecesTo stop pieces)), 0 < part) ∧
    (cut room 0 (piecesFrom so (piecesTo stop pieces))).length ≤ pieces.length ∧
    so + (cut room 0 (piecesFrom so (piecesTo stop pieces))).sum ≤ stop ∧
    0 < (cut room 0 (piecesFrom so (piecesTo stop pieces))).sum := by
  have upto := piecesTo_pos pos (Nat.zero_lt_of_lt before)
  have grant : 5 ≤ ((room + 4 : Nat) : Int) := by omega
  have sum := piecesTo_sum inside
  obtain ⟨some, partsPos, length, within, sumPos⟩ :=
    partsAt_spec upto (by rw [sum]; exact before) grant
  rw [partsAt_grant rfl] at some partsPos length within sumPos
  exact ⟨some, partsPos, length.trans (piecesTo_length stop pieces),
    within.trans (Nat.le_of_eq sum), sumPos⟩

/-- The plan for a hole of a PDU with length indicators. -/
theorem planMany_hole (amd : AmdPdu pdu mem pieces) (few : pieces.length < 128)
    (many : 1 < pieces.length)
    (grant : nbBytes = ((room + 4 : Nat) : Int)) (roomPos : 0 < room) (before : so < stop)
    (inside : stop ≤ pieces.sum)
    (fiStart fiEnd : Bool) :
    planMany mem pdu nbBytes fiStart fiEnd so ((stop : Int) - 1) =
      if (cut room 0 (piecesFrom so (piecesTo stop pieces))).sum = pieces.sum then none
      else some (partsPlan pieces.sum so (cut room 0 (piecesFrom so (piecesTo stop pieces)))
        fiStart fiEnd) := by
  obtain ⟨k, below, walk, upper, left⟩ :=
    @findStart_spec _ _ _ amd few so (Nat.lt_of_lt_of_le before inside)
    maxSduInPdu 0 _ (firstWalk_at amd many) (Nat.zero_le _) (by omega)
      (by simp only [maxSduInPdu]; omega)
  obtain ⟨rest, bound⟩ := planPieces_hole amd few grant roomPos before inside walk below upper left
  rw [partsAt_grant grant] at bound
  obtain ⟨-, partsPos, length, within, -⟩ := holeParts_spec amd.pos roomPos before inside
  refine planMany_parts amd partsPos length (within.trans inside) rfl ?_ bound
  rw [walk.size]
  omega

/-- With 128 pieces nothing but the first piece is found. -/
theorem firstWalk_wide (amd : AmdPdu pdu mem pieces) (wide : pieces.length = 128) (so : Int) :
    pdu.nbSdus = -128 ∧ findStart mem pdu so maxSduInPdu (firstWalk mem) = firstWalk mem ∧
    (firstWalk mem).sduIndex = 1 ∧ (firstWalk mem).dataSize = pieces.headD 0 := by
  have walk := firstWalk_at amd (by omega)
  have negative : pdu.nbSdus = -128 := by
    unfold TxPdu.nbSdus
    rw [amd.count, wide]
    rfl
  refine ⟨negative, ?_, walk.index, ?_⟩
  · rw [maxSduInPdu, findStart, walk.index, negative, if_neg (by omega)]
  · obtain ⟨piece, rest, rfl⟩ := List.exists_cons_of_ne_nil amd.some
    rw [walk.size, List.take_succ_cons, List.take_zero, List.sum_singleton, List.headD_cons]

theorem head_lt_sum (amd : AmdPdu pdu mem pieces) (many : 1 < pieces.length) :
    pieces.headD 0 < pieces.sum := by
  obtain ⟨piece, rest, rfl⟩ := List.exists_cons_of_ne_nil amd.some
  have less := take_sum_lt amd.pos many
  rwa [List.take_succ_cons, List.take_zero, List.sum_singleton] at less

/-- A segment inside the first piece is planned however many pieces there are. -/
theorem planMany_wide_hole (amd : AmdPdu pdu mem pieces) (wide : pieces.length = 128)
    (grant : nbBytes = ((room + 4 : Nat) : Int)) (roomPos : 0 < room) (before : so < stop)
    (inside : stop ≤ pieces.sum)
    (first : so < pieces.headD 0) (ends : stop ≤ pieces.headD 0 ∨ so + room ≤ pieces.headD 0)
    (fiStart fiEnd : Bool) :
    planMany mem pdu nbBytes fiStart fiEnd so ((stop : Int) - 1) =
      some (partsPlan pieces.sum so (cut room 0 (piecesFrom so (piecesTo stop pieces)))
        fiStart fiEnd) := by
  have small := amd.small
  have less := head_lt_sum amd (by omega)
  obtain ⟨-, found, -, size⟩ := firstWalk_wide amd wide so
  obtain ⟨-, partsPos, length, within, -⟩ := holeParts_spec amd.pos roomPos before inside
  obtain ⟨rest, bound⟩ : ∃ rest, planPieces mem pdu nbBytes so ((stop : Int) - 1) (firstWalk mem) =
      some (boundAt (cut room 0 (piecesFrom so (piecesTo stop pieces))) rest) := by
    refine ⟨[], ?_⟩
    have left : piecesFrom so pieces = (pieces.headD 0 - so) :: pieces.tail := by
      obtain ⟨piece, rest, rfl⟩ := List.exists_cons_of_ne_nil amd.some
      exact if_pos first
    have firstSize : (firstWalk mem).dataSize - so = ((pieces.headD 0 - so : Nat) : Int) := by
      rw [size]
      omega
    rw [piecesFrom_piecesTo before, left, piecesTo]
    by_cases last : stop - so ≤ pieces.headD 0 - so
    · rw [if_pos last, cut_single]
      exact planPieces_first firstSize (by omega) grant (by omega) (by omega) roomPos last
    · have filled : room ≤ pieces.headD 0 - so := by omega
      rw [if_neg last, cut, if_pos filled]
      refine (@planPieces_single pdu mem nbBytes (firstWalk mem) so _ (pieces.headD 0 - so)
        (stop - so - (pieces.headD 0 - so)) room firstSize (by omega) grant (by omega)
          (by omega) roomPos
        (Or.inl filled)).trans ?_
      rw [Nat.min_eq_left filled]
  have most := @cut_sum_le room 0 (piecesFrom so (piecesTo stop pieces)) roomPos
  rw [planMany_parts amd partsPos length (within.trans inside) found (by rw [size]; omega) bound,
    if_neg (by omega)]

theorem planMany_wide_behind (amd : AmdPdu pdu mem pieces) (wide : pieces.length = 128)
    (grant : 5 ≤ nbBytes)
    (before : so < stop) (inside : stop ≤ pieces.sum) (behind : pieces.headD 0 ≤ so)
    (fiStart fiEnd : Bool) :
    planMany mem pdu nbBytes fiStart fiEnd so ((stop : Int) - 1) = none := by
  have small := amd.small
  obtain ⟨negative, found, index, size⟩ := firstWalk_wide amd wide so
  simp only [planMany, ← firstWalk.eq_def, found, size, index, negative]
  by_cases boundary : so = pieces.headD 0
  · rw [if_pos ⟨by omega, by decide⟩]
  · have off : ¬ (so : Int) = pieces.headD 0 := by omega
    have search := @planPieces_search pdu mem nbBytes (firstWalk mem) so ((stop : Int) - 1)
      (pieces.headD 0 - so)
      (by rw [size]) (by omega) (by omega) (by omega) (by rw [pduSegmentHeaderMinSize]; omega)
    have ended : findStop mem pdu ((stop : Int) - 1) maxSduInPdu (firstWalk mem)
      [(pieces.headD 0 : Int) - so] =
        (firstWalk mem, [(pieces.headD 0 : Int) - so]) := by
      rw [maxSduInPdu, findStop, index, negative, if_neg (by omega)]
    have notPast : ¬ (pieces.headD 0 : Int) > (stop : Int) - 1 + 1 := by omega
    simp only [ended, size, notPast, if_false, negative] at search
    rw [if_pos (by rw [List.length_singleton]; decide)] at search
    simp only [off, false_and, if_false, search, Option.bind_none]

end Hole

end OpenAir.Rlc.Am
