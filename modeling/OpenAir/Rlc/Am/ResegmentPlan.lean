import OpenAir.Rlc.Am.Pieces
import OpenAir.Rlc.Am.PieceDecode
import OpenAir.Rlc.Am.Retransmit

/-! The plan of a retransmitted segment: the walk over the length indicators of the
original PDU finds the pieces behind the offset, and the bound to the grant cuts them. -/
namespace OpenAir.Rlc.Am
open BitField

/-- A slot that holds a transmitted AMD PDU with the given SDU pieces. -/
structure AmdPdu (pdu : TxPdu) (mem : Memory) (pieces : List Nat) : Prop where
  block : pdu.memBlock = some mem
  announces : Announces mem pieces
  whole : liStart mem = 2
  some : pieces ≠ []
  pos : ∀ piece ∈ pieces, 0 < piece
  small : pieces.sum ≤ 32767
  count : pdu.sdusIndex.length = pieces.length
  payloadSize : pdu.payloadSize = pieces.sum
  payload : pdu.payload = announcedHeader mem pieces
  size : pdu.headerAndPayloadSize = announcedHeader mem pieces + pieces.sum
  sn : pdu.sn < snModulo

section Cursor

/-- The cursor in front of the `k`-th indicator. -/
def LiCursor.place (start k : Nat) : LiCursor :=
  ⟨start + k + k / 2, if k % 2 = 0 then 4 else 0, 1 + k % 2⟩

theorem LiCursor.place_next (start k : Nat) : (LiCursor.place start k).next =
    LiCursor.place start (k + 1) := by
  rcases Nat.mod_two_eq_zero_or_one k with even | odd
  · have odd : (k + 1) % 2 = 1 := by omega
    simp only [LiCursor.next, LiCursor.place, even, odd, LiCursor.mk.injEq]
    exact ⟨by omega, by decide, by decide⟩
  · have even : (k + 1) % 2 = 0 := by omega
    simp only [LiCursor.next, LiCursor.place, even, odd, LiCursor.mk.injEq]
    exact ⟨by omega, by decide, by decide⟩

theorem twoBytes_eq (mem : Memory)
    (a : Nat) : twoBytes mem a = (mem a).toNat * 256 + (mem (a + 1)).toNat := by
  rw [twoBytes, ← Nat.shiftLeft_add_eq_or_of_lt (UInt8.toNat_lt _), Nat.shiftLeft_eq]

theorem LiCursor.place_read (mem : Memory) (start k : Nat) : (LiCursor.place start k).read mem =
    liAt mem start k := by
  have mask : (0x7FF : Nat) = 2 ^ 11 - 1 := rfl
  rw [LiCursor.read, LiCursor.place, twoBytes_eq, mask, Nat.and_two_pow_sub_one_eq_mod,
    Nat.shiftRight_eq_div_pow]
  rcases Nat.even_or_odd' k with ⟨h, rfl | rfl⟩
  · have place : start + 2 * h + 2 * h / 2 = start + 3 * h := by omega
    have even : 2 * h % 2 = 0 := by omega
    simp only [place, even, if_true]
    rw [liAt_even]
    have := UInt8.toNat_lt (mem (start + 3 * h + 1))
    omega
  · have place : start + (2 * h + 1) + (2 * h + 1) / 2 = start + 3 * h + 1 := by omega
    have odd : ¬ (2 * h + 1) % 2 = 0 := by omega
    simp only [place, odd, if_false]
    rw [liAt_odd]
    have low := UInt8.toNat_lt (mem (start + 3 * h + 2))
    rw [Nat.pow_zero, Nat.div_one, show start + 3 * h + 1 + 1 = start + 3 * h + 2 by rfl]
    omega

end Cursor

section Walk

variable {pdu : TxPdu} {mem : Memory} {pieces : List Nat}

theorem AmdPdu.nbSdus (amd : AmdPdu pdu mem pieces) (few : pieces.length < 128) :
    pdu.nbSdus = pieces.length := by
  rw [← amd.count] at few ⊢
  apply Int.bmod_eq_of_le
  · omega
  · omega

theorem AmdPdu.liAt (amd : AmdPdu pdu mem pieces) {k : Nat} (inner : k < pieces.length - 1) :
    liAt mem 2 k = pieces.getD k 0 := by
  have entries := amd.announces.entries
  rw [amd.whole] at entries
  have inside : k < pieces.dropLast.length := by rwa [List.length_dropLast]
  have lis := entries.lisAt
  have here : (lisAt mem 2 0 pieces.dropLast.length).getD k 0 = pieces.dropLast.getD k 0 := by
    rw [lis]
  rw [Am.lisAt, List.getD_eq_getElem _ _ (by simpa using inside), List.getD_eq_getElem _ _ inside]
    at here
  rw [List.getD_eq_getElem _ _ (by omega)]
  simpa [List.getElem_dropLast] using here

theorem take_succ_sum {k : Nat} (inside : k < pieces.length) :
    (pieces.take (k + 1)).sum = (pieces.take k).sum + pieces.getD k 0 := by
  rw [List.take_succ_eq_append_getElem inside, List.sum_append, List.sum_singleton,
    List.getD_eq_getElem _ _ inside]

/-- The walk has taken `k` pieces. -/
structure WalkAt (pieces : List Nat) (w : PieceWalk) (k : Nat) : Prop where
  index : w.sduIndex = k
  size : w.dataSize = (pieces.take k).sum
  cursor : k < pieces.length → w.cursor = LiCursor.place 2 k

theorem WalkAt.resized {w : PieceWalk} {k : Nat} (walk : WalkAt pieces w k) (size : Int) :
    WalkAt pieces { w with sduSize := size } k := ⟨walk.index, walk.size, walk.cursor⟩

theorem WalkAt.step (amd : AmdPdu pdu mem pieces) (few : pieces.length < 128)
    {w : PieceWalk} {k : Nat}
    (walk : WalkAt pieces w k) (inside : k < pieces.length) :
    WalkAt pieces (w.step mem pdu) (k + 1) := by
  have count := amd.nbSdus few
  unfold PieceWalk.step
  rw [walk.index, count]
  by_cases inner : k < pieces.length - 1
  · rw [if_pos (by omega)]
    have read : w.cursor.read mem = pieces.getD k 0 := by
      rw [walk.cursor inside, LiCursor.place_read, amd.liAt inner]
    refine ⟨rfl, ?_, fun _ => ?_⟩
    · simp only [read, walk.size, take_succ_sum inside]
      omega
    · simp only [walk.cursor inside, LiCursor.place_next]
  · rw [if_neg (by omega)]
    refine ⟨rfl, ?_, fun more => ?_⟩
    · simp only [amd.payloadSize]
      rw [List.take_of_length_le (by omega)]
    · omega

theorem piecesFrom_inside {k so : Nat} (inside : k < pieces.length)
    (lower : (pieces.take k).sum ≤ so)
    (upper : so < (pieces.take (k + 1)).sum) :
    piecesFrom so pieces = ((pieces.take (k + 1)).sum - so) :: pieces.drop (k + 1) := by
  have parted : pieces = pieces.take k ++ pieces.drop k := (List.take_append_drop _ _).symm
  have offset : so = (pieces.take k).sum + (so - (pieces.take k).sum) := by omega
  have next := take_succ_sum inside
  conv_lhs => rw [parted, offset]
  rw [piecesFrom_append, List.drop_eq_getElem_cons inside, piecesFrom]
  rw [List.getD_eq_getElem _ _ inside] at next
  rw [if_pos (by omega), next]
  congr 1
  omega

/-- The search for the first piece stops at the one that holds the offset. -/
theorem findStart_spec (amd : AmdPdu pdu mem pieces) (few : pieces.length < 128) {so : Nat}
    (inside : so < pieces.sum) {rounds k : Nat} {w : PieceWalk} (walk : WalkAt pieces w (k + 1))
    (lower : (pieces.take k).sum ≤ so) (below : k < pieces.length)
    (enough : pieces.length ≤ rounds + (k + 1)) :
    ∃ k', k' ≤ pieces.length ∧ WalkAt pieces (findStart mem pdu so rounds w) k' ∧
      so < (pieces.take k').sum ∧
      piecesFrom so pieces = ((pieces.take k').sum - so) :: pieces.drop k' := by
  have all (k : Nat) (end' : pieces.length ≤ k) : (pieces.take k).sum = pieces.sum := by
    rw [List.take_of_length_le end']
  induction rounds generalizing k w with
  | zero =>
    have upper : so < (pieces.take (k + 1)).sum := by rw [all (k + 1) (by omega)]; exact inside
    exact ⟨k + 1, below, walk, upper, piecesFrom_inside below lower upper⟩
  | succ rounds ih =>
    rw [findStart, walk.size, walk.index, amd.nbSdus few]
    by_cases here : so < (pieces.take (k + 1)).sum
    · rw [if_neg (by omega)]
      exact ⟨k + 1, below, walk, here, piecesFrom_inside below lower here⟩
    · have more : k + 1 < pieces.length := by
        by_contra end'
        rw [all (k + 1) (by omega)] at here
        exact here inside
      rw [if_pos (by omega)]
      exact ih (walk.step amd few more) (by omega) more (by omega)

def ints (sizes : List Nat) : List Int := sizes.map Int.ofNat

theorem take_sum_lt (pos : ∀ piece ∈ pieces, 0 < piece) {k : Nat} (inside : k < pieces.length) :
    (pieces.take k).sum < pieces.sum := by
  have whole := congrArg List.sum (List.take_append_drop k pieces)
  rw [List.sum_append, List.drop_eq_getElem_cons inside, List.sum_cons] at whole
  have := pos _ (List.getElem_mem inside)
  omega

/-- The search for the end takes all pieces when the hole reaches to the end. -/
theorem findStop_spec (amd : AmdPdu pdu mem pieces) (few : pieces.length < 128) {rounds k : Nat}
    {w : PieceWalk}
    {sizes : List Int} (walk : WalkAt pieces w k) (enough : pieces.length ≤ rounds + k)
    (below : k ≤ pieces.length) :
    (findStop mem pdu (pieces.sum - 1) rounds w sizes).1.dataSize = pieces.sum ∧
    (findStop mem pdu (pieces.sum - 1) rounds w sizes).2 = sizes ++ ints (pieces.drop k) := by
  have done (k : Nat) (end' : pieces.length ≤ k) : (pieces.take k).sum = pieces.sum ∧
      pieces.drop k = [] :=
    ⟨by rw [List.take_of_length_le end'], List.drop_eq_nil_of_le end'⟩
  have small := amd.small
  induction rounds generalizing k w sizes with
  | zero =>
    obtain ⟨all, nothing⟩ := done k (by omega)
    rw [findStop, walk.size, all, nothing, ints, List.map_nil, List.append_nil]
    exact ⟨rfl, rfl⟩
  | succ rounds ih =>
    rw [findStop, walk.size, walk.index, amd.nbSdus few]
    by_cases more : k < pieces.length
    · have before := take_sum_lt amd.pos more
      rw [if_pos (by omega)]
      have next := walk.step amd few more
      have size : (if (k : Int) < (pieces.length : Int) - 1 then (w.cursor.read mem : Int)
          else pdu.payloadSize - (pieces.take k).sum) = pieces.getD k 0 := by
        by_cases inner : k < pieces.length - 1
        · rw [if_pos (by omega), walk.cursor more, LiCursor.place_read, amd.liAt inner]
        · have last := take_succ_sum more
          rw [(done (k + 1) (by omega)).1] at last
          rw [if_neg (by omega), amd.payloadSize]
          omega
      have fits : int16 (pieces.getD k 0 : Nat) = (pieces.getD k 0 : Nat) := by
        have upto := take_succ_sum more
        have bound : (pieces.take (k + 1)).sum ≤ pieces.sum := by
          have whole := congrArg List.sum (List.take_append_drop (k + 1) pieces)
          rw [List.sum_append] at whole
          omega
        exact int16_eq (by omega) (by omega)
      have rest : ints (pieces.drop k) = ((pieces.getD k 0 : Nat) : Int) :: ints
          (pieces.drop (k + 1)) := by
        rw [List.drop_eq_getElem_cons more, List.getD_eq_getElem _ _ more]
        rfl
      simp only [size, fits]
      obtain ⟨all, taken⟩ := @ih _ _ (sizes ++ [((pieces.getD k 0 : Nat) : Int)]) (next.resized _)
        (by omega) more
      refine ⟨all, ?_⟩
      have joined : sizes ++ [((pieces.getD k 0 : Nat) : Int)] ++ ints (pieces.drop (k + 1)) =
          sizes ++ ints (pieces.drop k) := by rw [rest, List.append_assoc, List.singleton_append]
      exact taken.trans joined
    · obtain ⟨all, nothing⟩ := done k (by omega)
      rw [if_neg (by omega), walk.size, all, nothing, ints, List.map_nil, List.append_nil]
      exact ⟨rfl, rfl⟩

end Walk

section Bound

variable {nbBytes : Int}

theorem ints_append (sizes more : List Nat) : ints (sizes ++ more) = ints sizes ++ ints more :=
  List.map_append

theorem ints_length (sizes : List Nat) : (ints sizes).length = sizes.length := List.length_map _

theorem ints_sum (sizes : List Nat) : (ints sizes).sum = sizes.sum := by
  induction sizes with
  | nil => rfl
  | cons size rest ih =>
    rw [ints, List.map_cons, List.sum_cons, List.sum_cons, ← ints.eq_def, ih, Int.natCast_add]
    rfl

/-- The bound has taken the pieces in `taken` and has the ones in `rest` in front of it. -/
def boundAt (taken rest : List Nat) : Bounded where
  sizes := ints (taken ++ rest)
  payloadSize := taken.sum
  headerSegmentLength := pduSegmentHeaderSize (taken.length - 1)
  sduSegmentIndex := taken.length

theorem boundAt_take (taken rest : List Nat) :
    (boundAt taken rest).sizes.take (boundAt taken rest).sduSegmentIndex = ints taken := by
  have place : (boundAt taken rest).sduSegmentIndex = (ints taken).length :=
    (ints_length taken).symm
  rw [place, show (boundAt taken rest).sizes = ints taken ++ ints rest from ints_append _ _,
    List.take_left]

theorem boundAt_single (size : Nat) :
    boundAt [size] [] = { sizes := [(size : Int)], payloadSize := size, sduSegmentIndex := 1 } := by
  simp [boundAt, ints, pduSegmentHeaderSize, headerLiLength]

/-- The bound ends behind the last piece, or when nothing fits behind its indicator. -/
theorem boundToTbs_end (rounds : Nat) {taken rest : List Nat}
    (full : rest = [] ∨ nbBytes ≤ taken.sum + pduSegmentHeaderSize taken.length) :
    boundToTbs nbBytes rounds (boundAt taken rest) = boundAt taken rest := by
  cases rounds with
  | zero => rfl
  | succ rounds =>
    rw [boundToTbs, if_neg]
    rintro ⟨inside, room⟩
    simp only [boundAt, ints_length, List.length_append] at inside room
    rcases full with none | full
    · rw [none, List.length_nil] at inside
      omega
    · omega

theorem boundToTbs_round {rounds room size : Nat} {taken rest : List Nat}
    (grant : nbBytes = taken.sum + pduSegmentHeaderSize taken.length + room) (roomPos : 0 < room)
    (pos : 0 < size) :
    boundToTbs nbBytes (rounds + 1) (boundAt taken (size :: rest)) =
      boundToTbs nbBytes rounds (boundAt (taken ++ [min size room]) rest) := by
  have next : (boundAt taken (size :: rest)).sizes.getD taken.length 0 = size := by
    have length := ints_length taken
    simp only [boundAt, ints_append]
    rw [List.getD_eq_getElem?_getD, List.getElem?_append_right (by omega), length, Nat.sub_self]
    rfl
  have replaced : (boundAt taken (size :: rest)).sizes.set taken.length
    ((min size room : Nat) : Int) =
      ints (taken ++ [min size room] ++ rest) := by
    have length := ints_length taken
    simp only [boundAt, ints_append, List.append_assoc]
    rw [List.set_append_right _ _ (by omega), length, Nat.sub_self]
    rfl
  have fits : (if ((pduSegmentHeaderSize taken.length : Nat) : Int) + (taken.sum : Nat) +
      (size : Nat) ≤ nbBytes then
      ((size : Nat) : Int)
        else nbBytes - (pduSegmentHeaderSize taken.length : Nat) - (taken.sum : Nat)) =
      (min size room : Nat) := by
    split <;> omega
  rw [boundToTbs, if_pos ⟨by simp [boundAt, ints_length], by simp only [boundAt]; omega⟩]
  have index : (boundAt taken (size :: rest)).sduSegmentIndex = taken.length := rfl
  have payload : (boundAt taken (size :: rest)).payloadSize = taken.sum := rfl
  simp only [index, payload, next]
  rw [if_neg (by omega), fits, replaced]
  congr 1
  simp only [boundAt, List.sum_append, List.sum_singleton, List.length_append,
    List.length_singleton, Nat.add_sub_cancel, Int.natCast_add]

/-- The bound to the grant cuts the pieces as the segmentation cuts the queue. -/
theorem boundToTbs_cut {rounds room : Nat} {taken rest : List Nat}
    (grant : nbBytes = taken.sum + pduSegmentHeaderSize taken.length + room) (roomPos : 0 < room)
    (some : rest ≠ [])
    (pos : ∀ size ∈ rest, 0 < size) (few : taken.length + rest.length ≤ maxSduInPdu)
    (enough : rest.length ≤ rounds) :
    ∃ left, boundToTbs nbBytes rounds (boundAt taken rest) =
      boundAt (taken ++ cut room taken.length rest) left := by
  induction rounds generalizing taken rest room with
  | zero =>
    rw [Nat.le_zero, List.length_eq_zero_iff] at enough
    exact absurd enough some
  | succ rounds ih =>
    cases rest with
    | nil => exact absurd rfl some
    | cons size rest =>
      have here := pos size List.mem_cons_self
      have header := headerLiLength_liBytes taken.length
      simp only [List.length_cons] at few enough
      rw [boundToTbs_round grant roomPos here, cut]
      have length : (taken ++ [min size room]).length = taken.length + 1 := by simp
      have sum : (taken ++ [min size room]).sum = taken.sum + min size room := by simp
      simp only [pduSegmentHeaderSize] at grant
      by_cases beyond : room ≤ size
      · rw [if_pos beyond, Nat.min_eq_right beyond] at *
        refine ⟨rest, boundToTbs_end rounds (Or.inr ?_)⟩
        rw [length, sum, pduSegmentHeaderSize, header]
        omega
      · rw [if_neg beyond]
        rw [Nat.min_eq_left (by omega)] at *
        by_cases last : rest = []
        · subst last
          refine ⟨[], ?_⟩
          rw [boundToTbs_end rounds (Or.inl rfl)]
          split <;> rfl
        · have more := List.length_pos_iff.mpr last
          by_cases fits : size + liBytes taken.length < room
          · rw [if_pos ⟨fits, by simp only [maxSduInPdu] at few ⊢; omega⟩]
            obtain ⟨left, done⟩ := @ih (room - (size + liBytes taken.length)) (taken ++ [size]) rest
              (by rw [length, sum, pduSegmentHeaderSize, header]; omega) (by omega) last
              (fun size member => pos size (List.mem_cons_of_mem _ member)) (by omega) (by omega)
            rw [length, List.append_assoc] at done
            exact ⟨left, done⟩
          · rw [if_neg (by omega)]
            refine ⟨rest, boundToTbs_end rounds (Or.inr ?_)⟩
            rw [length, sum, pduSegmentHeaderSize, header]
            omega

end Bound

section Plan

variable {pdu : TxPdu} {mem : Memory} {pieces : List Nat} {nbBytes : Int} {so : Nat}

/-- The parts of the pieces behind an offset that a grant takes. -/
def partsAt (pieces : List Nat) (so : Nat) (nbBytes : Int) : List Nat :=
  cut (nbBytes - pduSegmentHeaderMinSize).toNat 0 (piecesFrom so pieces)

section First

variable {w : PieceWalk} {start stop : Int} {size more room : Nat}

theorem int16_small {x : Int} {n : Nat} (eq : x = n) (small : n ≤ 32767) : int16 x = n := by
  rw [eq]
  exact int16_eq (by omega) (by omega)

/-- The first piece reaches the end of the hole or of the grant. -/
theorem planPieces_single (first : w.dataSize - start = size)
    (hole : stop - start + 1 = ((size + more : Nat) : Int))
    (grant : nbBytes = ((room + 4 : Nat) : Int)) (small : size ≤ 32767) (sizePos : 0 < size)
    (roomPos : 0 < room)
    (reach : room ≤ size ∨ more = 0) :
    planPieces mem pdu nbBytes start stop w = some (boundAt [min room size] []) := by
  have inFirst : int16 (w.dataSize - start) ≥ stop - start + 1 ↔ more = 0 := by
    rw [int16_small first small, hole]
    omega
  have firstSize : (if int16 (w.dataSize - start) ≥ stop - start + 1 then int16 (stop - start + 1)
      else int16 (w.dataSize - start)) = size := by
    split
    · rename_i last
      rw [inFirst] at last
      exact int16_small (by rw [hole, last, Nat.add_zero]) small
    · exact int16_small first small
  have bounded : ((size : Int) + (pduSegmentHeaderMinSize : Nat) ≥ nbBytes) ↔ room ≤ size := by
    rw [grant, pduSegmentHeaderMinSize]
    omega
  have taken : (if (size : Int) + (pduSegmentHeaderMinSize : Nat) ≥ nbBytes then
      int16 (nbBytes - (pduSegmentHeaderMinSize : Nat)) else (size : Int)) =
          (min room size : Nat) := by
    split
    · rename_i beyond
      rw [bounded] at beyond
      rw [Nat.min_eq_left beyond]
      exact int16_small (by rw [grant, pduSegmentHeaderMinSize]; omega) (beyond.trans small)
    · rename_i under
      rw [bounded] at under
      rw [Nat.min_eq_right (by omega)]
  have some : ((min room size : Nat) : Int) ≠ 0 := by omega
  unfold planPieces
  simp only [firstSize, taken]
  rw [if_pos ⟨reach.symm.imp inFirst.mpr bounded.mpr, some⟩, boundAt_single]

theorem planPieces_search {size : Int} (first : w.dataSize - start = size) (lower : -32768 ≤ size)
    (small : size ≤ 32767) (inner : size < stop - start + 1)
    (under : size + pduSegmentHeaderMinSize < nbBytes) :
    planPieces mem pdu nbBytes start stop w =
      let found := findStop mem pdu stop maxSduInPdu w [size]
      let sizes := if found.1.dataSize > stop + 1 then
        found.2.set (found.2.length - 1) (int16 (stop - (found.1.dataSize - found.1.sduSize) + 1))
          else found.2
      if (sizes.length : Int) - 1 > pdu.nbSdus - 1 then
          none else some (boundToTbs nbBytes maxSduInPdu { sizes }) := by
  have fits : int16 (w.dataSize - start) = size := by
    rw [first]
    exact int16_eq lower (Int.lt_add_one_of_le small)
  have inner : ¬ size ≥ stop - start + 1 := Int.not_le.mpr inner
  have under : ¬ size + pduSegmentHeaderMinSize ≥ nbBytes := Int.not_le.mpr under
  unfold planPieces
  simp only [fits, inner, under, if_false, or_self, false_and]

end First

theorem planPieces_eq (amd : AmdPdu pdu mem pieces) (few : pieces.length < 128)
    (grant : 5 ≤ nbBytes) {k : Nat}
    {w : PieceWalk} (walk : WalkAt pieces w k) (below : k ≤ pieces.length)
    (upper : so < (pieces.take k).sum)
    (left : piecesFrom so pieces = ((pieces.take k).sum - so) :: pieces.drop k) :
    ∃ rest, planPieces mem pdu nbBytes so (pieces.sum - 1) w =
      some (boundAt (partsAt pieces so nbBytes) rest) := by
  have small := amd.small
  have sum : (pieces.take k).sum + (pieces.drop k).sum = pieces.sum := by
    rw [← List.sum_append, List.take_append_drop]
  obtain ⟨room, grant⟩ : ∃ room : Nat, nbBytes = ((room + 1 + 4 : Nat) : Int) :=
    ⟨(nbBytes - 5).toNat, by omega⟩
  have parts : partsAt pieces so nbBytes =
      cut (room + 1) 0 (((pieces.take k).sum - so) :: pieces.drop k) := by
    have minus : (nbBytes - pduSegmentHeaderMinSize).toNat = room + 1 := by
      rw [grant, pduSegmentHeaderMinSize]
      omega
    rw [partsAt, left, minus]
  obtain ⟨size, head⟩ : ∃ size, (pieces.take k).sum - so = size + 1 :=
    ⟨(pieces.take k).sum - so - 1, by omega⟩
  rw [head] at parts left
  rw [parts]
  have first : w.dataSize - so = (size + 1 : Nat) := by
    rw [walk.size]
    omega
  have hole : (pieces.sum : Int) - 1 - so + 1 = ((size + 1 + (pieces.drop k).sum : Nat) : Int) := by
    omega
  by_cases ends : room + 1 ≤ size + 1 ∨ (pieces.drop k).sum = 0
  · refine ⟨[], (planPieces_single first hole grant (by omega) (by omega) (by omega) ends).trans ?_⟩
    rw [cut]
    congr 2
    by_cases beyond : room + 1 ≤ size + 1
    · rw [if_pos beyond, Nat.min_eq_left beyond]
    · have none : pieces.drop k = [] := by
        rw [List.drop_eq_nil_iff]
        by_contra more
        have := take_sum_lt amd.pos (Nat.lt_of_not_le more)
        omega
      rw [if_neg beyond, Nat.min_eq_right (by omega), none]
      split <;> rfl
  · rw [not_or] at ends
    obtain ⟨all, taken⟩ :=
      @findStop_spec _ _ _ amd few maxSduInPdu k w [((size + 1 : Nat) : Int)] walk
      (by simp only [maxSduInPdu]; omega) below
    have kPos : 0 < k := by
      rcases Nat.eq_zero_or_pos k with rfl | positive
      · simp at upper
      · exact positive
    have sizes : [((size + 1 : Nat) : Int)] ++ ints (pieces.drop k) =
      ints ([] ++ (size + 1) :: pieces.drop k) := rfl
    have notPast : ¬ (pieces.sum : Int) > pieces.sum - 1 + 1 := by omega
    have count :
        ¬ ((ints ([] ++ (size + 1) :: pieces.drop k)).length : Int) - 1 > pdu.nbSdus - 1 := by
      rw [amd.nbSdus few, ints_length, List.nil_append, List.length_cons, List.length_drop]
      omega
    have under : ((size + 1 : Nat) : Int) + pduSegmentHeaderMinSize < nbBytes := by
      rw [grant, pduSegmentHeaderMinSize]
      omega
    rw [planPieces_search first (by omega) (by omega) (by omega) under]
    simp only [all, taken, sizes, notPast, if_false, count]
    obtain ⟨rest, done⟩ :=
      @boundToTbs_cut nbBytes maxSduInPdu (room + 1) [] ((size + 1) :: pieces.drop k)
      (by rw [grant]; simp [pduSegmentHeaderSize, headerLiLength, pduSegmentHeaderMinSize]; omega)
        (by omega)
      (List.cons_ne_nil _ _) (left ▸ piecesFrom_pos amd.pos so)
      (by simp only [List.length_nil, List.length_cons, List.length_drop, maxSduInPdu]; omega)
      (by simp only [List.length_cons, List.length_drop, maxSduInPdu]; omega)
    exact ⟨rest, congrArg Option.some done⟩

/-- The parts that a grant takes from inside the PDU: they are not empty, and there are
no more of them than pieces. -/
theorem partsAt_spec (pos : ∀ piece ∈ pieces, 0 < piece) (inside : so < pieces.sum)
    (grant : 5 ≤ nbBytes) :
    partsAt pieces so nbBytes ≠ [] ∧ (∀ part ∈ partsAt pieces so nbBytes, 0 < part) ∧
    (partsAt pieces so nbBytes).length ≤ pieces.length ∧
    so + (partsAt pieces so nbBytes).sum ≤ pieces.sum ∧
    0 < (partsAt pieces so nbBytes).sum := by
  have left := piecesFrom_sum so pieces
  have leftPos := piecesFrom_pos pos so
  have some : piecesFrom so pieces ≠ [] := by
    intro none
    rw [none, List.sum_nil] at left
    omega
  have roomPos : 0 < (nbBytes - pduSegmentHeaderMinSize).toNat := by
    rw [pduSegmentHeaderMinSize]
    omega
  have nonempty : partsAt pieces so nbBytes ≠ [] := cut_ne_nil some
  have partsPos : ∀ part ∈ partsAt pieces so nbBytes, 0 < part := cut_pos roomPos leftPos
  have sum : (piecesFrom so pieces).sum = (partsAt pieces so nbBytes).sum + _ :=
    (cut_parted leftPos).sum
  refine ⟨nonempty, partsPos, (cut_length_le _ _ _).trans (piecesFrom_length so pieces), by
    omega, ?_⟩
  obtain ⟨part, rest, parts⟩ := List.exists_cons_of_ne_nil nonempty
  rw [parts] at partsPos ⊢
  rw [List.sum_cons]
  exact Nat.add_pos_left (partsPos part List.mem_cons_self) _

/-- The plan of a segment with the given parts in a PDU of `total` bytes. -/
def partsPlan (total so : Nat) (parts : List Nat) (fiStart fiEnd : Bool) : SegmentPlan where
  retxSoStart := so
  retxSoStop := so + parts.sum - 1
  fiStart := fiStart && decide (so = 0)
  fiEnd := fiEnd && decide (so + parts.sum = total)
  pieces := ints parts
  headerSegmentLength := pduSegmentHeaderSize (parts.length - 1)

/-- The plan that cuts the pieces behind `so` for a grant. -/
def segmentPlan (pieces : List Nat) (so : Nat) (nbBytes : Int) (fiStart fiEnd : Bool) :
    SegmentPlan where
  retxSoStart := so
  retxSoStop := so + (partsAt pieces so nbBytes).sum - 1
  fiStart := fiStart && decide (so = 0)
  fiEnd := fiEnd && decide (so + (partsAt pieces so nbBytes).sum = pieces.sum)
  pieces := ints (partsAt pieces so nbBytes)
  headerSegmentLength := pduSegmentHeaderSize ((partsAt pieces so nbBytes).length - 1)

theorem innerEnd_false {parts : List Nat} (pos : ∀ part ∈ parts, 0 < part) :
    ((List.range ((ints parts).length - 1)).any fun i =>
      decide ((so : Int) + parts.sum - 1 = ((ints parts).take (i + 1)).sum - 1)) = false := by
  rw [List.any_eq_false]
  intro i inside
  rw [List.mem_range, ints_length] at inside
  have less := take_sum_lt pos (show i + 1 < parts.length by omega)
  have same : ((ints parts).take (i + 1)).sum = (parts.take (i + 1)).sum := by
    rw [ints, ← List.map_take, ← ints.eq_def, ints_sum]
  rw [same, decide_eq_true_eq]
  omega

/-- The walk in front of the second piece. -/
def firstWalk (mem : Memory) : PieceWalk :=
  ⟨LiCursor.next { header := 2 }, (LiCursor.read { header := 2 } mem : Nat),
    (LiCursor.read { header := 2 } mem : Nat), 1⟩

theorem firstWalk_at (amd : AmdPdu pdu mem pieces) (many : 1 < pieces.length) :
    WalkAt pieces (firstWalk mem) 1 := by
  have read : LiCursor.read { header := 2 } mem = pieces.getD 0 0 := by
    rw [← amd.liAt (by omega)]
    exact LiCursor.place_read mem 2 0
  refine ⟨rfl, ?_, fun _ => LiCursor.place_next 2 0⟩
  rw [firstWalk, read, take_succ_sum (by omega), List.take_zero, List.sum_nil, Nat.zero_add]

/-- The checks on the result refuse nothing but a segment of the whole PDU. -/
theorem planMany_parts (amd : AmdPdu pdu mem pieces) {parts : List Nat}
    (partsPos : ∀ part ∈ parts, 0 < part)
    (length : parts.length ≤ pieces.length) (within : so + parts.sum ≤ pieces.sum) {stop : Int}
    {fiStart fiEnd : Bool}
    {w : PieceWalk} (found : findStart mem pdu so maxSduInPdu (firstWalk mem) = w)
    (past : (so : Int) ≠ w.dataSize)
    {rest : List Nat} (bound : planPieces mem pdu nbBytes so stop w = some (boundAt parts rest)) :
    planMany mem pdu nbBytes fiStart fiEnd so stop =
      if parts.sum = pieces.sum then
      none else some (partsPlan pieces.sum so parts fiStart fiEnd) := by
  simp only [planMany, ← firstWalk.eq_def, found, past, false_and, if_false, bound,
    Option.bind_some, boundAt_take]
  have payload : (boundAt parts rest).payloadSize = parts.sum := rfl
  have header : (boundAt parts rest).headerSegmentLength =
    pduSegmentHeaderSize (parts.length - 1) := rfl
  have bytes := headerLiLength_mono (show parts.length - 1 ≤ pieces.length - 1 by omega)
  have fits : ¬ (((pduSegmentHeaderSize (parts.length - 1) : Nat) : Int) +
      parts.sum > pdu.headerAndPayloadSize + 2) := by
    rw [amd.size, announcedHeader, amd.whole, pduSegmentHeaderSize, pduSegmentHeaderMinSize]
    omega
  simp only [payload, header, amd.payloadSize, innerEnd_false partsPos, ints_sum, fits, ne_eq,
    not_true_eq_false, or_false, if_false, Bool.or_false]
  by_cases whole : parts.sum = pieces.sum
  · rw [if_pos (by omega), if_pos whole]
  · rw [if_neg (by omega), if_neg whole, partsPlan]
    congr 2
    · by_cases first : so = 0
      · simp [first]
      · simp [first]
    · by_cases last : so + parts.sum = pieces.sum
      · rw [if_neg (by omega), last]
        simp
      · rw [if_pos (by omega)]
        simp [last]

theorem planMany_bound (amd : AmdPdu pdu mem pieces) (inside : so < pieces.sum)
    (grant : 5 ≤ nbBytes)
    {fiStart fiEnd : Bool} {w : PieceWalk}
    (found : findStart mem pdu so maxSduInPdu (firstWalk mem) = w)
    (past : (so : Int) ≠ w.dataSize) {rest : List Nat}
    (bound : planPieces mem pdu nbBytes so (pieces.sum - 1) w =
      some (boundAt (partsAt pieces so nbBytes) rest)) :
    planMany mem pdu nbBytes fiStart fiEnd so (pieces.sum - 1) =
      if (partsAt pieces so nbBytes).sum = pieces.sum then none
      else some (segmentPlan pieces so nbBytes fiStart fiEnd) := by
  obtain ⟨-, partsPos, length, within, -⟩ := partsAt_spec amd.pos inside grant
  exact planMany_parts amd partsPos length within found past bound

/-- The plan for a PDU with length indicators; a segment of the whole PDU is refused. -/
theorem planMany_eq (amd : AmdPdu pdu mem pieces) (few : pieces.length < 128)
    (many : 1 < pieces.length)
    (inside : so < pieces.sum) (grant : 5 ≤ nbBytes) (fiStart fiEnd : Bool) :
    planMany mem pdu nbBytes fiStart fiEnd so (pieces.sum - 1) =
      if (partsAt pieces so nbBytes).sum = pieces.sum then none
      else some (segmentPlan pieces so nbBytes fiStart fiEnd) := by
  obtain ⟨k, below, walk, upper, left⟩ := @findStart_spec _ _ _ amd few so inside maxSduInPdu 0 _
    (firstWalk_at amd many) (Nat.zero_le _) (by omega) (by simp only [maxSduInPdu]; omega)
  obtain ⟨rest, bound⟩ := planPieces_eq amd few grant walk below upper left
  -- The search goes past a boundary, so the offset is never found at one.
  refine planMany_bound amd inside grant rfl ?_ bound
  rw [walk.size]
  omega

/-- With 128 pieces the counter of SDUs is negative: no walk goes beyond the first piece,
and only segments that end in it are planned. -/
theorem planMany_wide (amd : AmdPdu pdu mem pieces) (wide : pieces.length = 128)
    (inside : so < pieces.sum)
    (grant : 5 ≤ nbBytes) (fiStart fiEnd : Bool) :
    planMany mem pdu nbBytes fiStart fiEnd so (pieces.sum - 1) =
      if so + (nbBytes - pduSegmentHeaderMinSize).toNat ≤ pieces.headD 0 then
        some (segmentPlan pieces so nbBytes fiStart fiEnd)
      else none := by
  have negative : pdu.nbSdus = -128 := by
    unfold TxPdu.nbSdus
    rw [amd.count, wide]
    rfl
  have walk := firstWalk_at amd (by omega)
  have found : findStart mem pdu so maxSduInPdu (firstWalk mem) = firstWalk mem := by
    rw [maxSduInPdu, findStart, walk.index, negative, if_neg (by omega)]
  obtain ⟨piece, rest, rfl⟩ := List.exists_cons_of_ne_nil amd.some
  have size : (firstWalk mem).dataSize = piece := by
    rw [walk.size, List.take_succ_cons, List.take_zero, List.sum_singleton]
  have small := amd.small
  have later : 0 < rest.sum := by
    have := take_sum_lt amd.pos (show 1 < (piece :: rest).length by omega)
    simp only [List.take_succ_cons, List.take_zero, List.sum_cons] at this
    omega
  rw [List.sum_cons] at inside small
  rw [List.headD_cons]
  obtain ⟨room, bytes⟩ : ∃ room : Nat, nbBytes = ((room + 1 + 4 : Nat) : Int) :=
    ⟨(nbBytes - 5).toNat, by omega⟩
  have minus : (nbBytes - pduSegmentHeaderMinSize).toNat = room + 1 := by
    rw [bytes, pduSegmentHeaderMinSize]
    omega
  rw [minus]
  by_cases fits : so + (room + 1) ≤ piece
  · rw [if_pos fits]
    have parts : partsAt (piece :: rest) so nbBytes = [room + 1] := by
      rw [partsAt, minus, piecesFrom, if_pos (by omega), cut, if_pos (by omega)]
    have bound := @planPieces_single pdu mem nbBytes (firstWalk mem) so ((piece :: rest).sum - 1)
      (piece - so) rest.sum
      (room + 1) (by rw [size]; omega) (by rw [List.sum_cons]; omega) bytes (by omega)
        (by omega) (by omega)
      (Or.inl (by omega))
    rw [Nat.min_eq_left (by omega), ← parts] at bound
    rw [planMany_bound amd (by rw [List.sum_cons]; exact inside) grant found
      (by rw [size]; omega) bound, if_neg]
    rw [parts, List.sum_singleton, List.sum_cons]
    omega
  · rw [if_neg fits]
    simp only [planMany, ← firstWalk.eq_def, found, size, walk.index, negative]
    by_cases boundary : so = piece
    · rw [if_pos ⟨by omega, by decide⟩]
    · have off : ¬ (so : Int) = piece := by omega
      have search :=
        @planPieces_search pdu mem nbBytes (firstWalk mem) so ((piece :: rest).sum - 1) (piece - so)
        (by rw [size]) (by omega) (by omega) (by rw [List.sum_cons]; omega)
          (by rw [bytes, pduSegmentHeaderMinSize]; omega)
      have stop : findStop mem pdu ((piece :: rest).sum - 1) maxSduInPdu (firstWalk mem)
        [(piece : Int) - so] =
          (firstWalk mem, [(piece : Int) - so]) := by
        rw [maxSduInPdu, findStop, walk.index, negative, if_neg (by omega)]
      have notPast : ¬ (piece : Int) > ((piece :: rest).sum : Nat) - 1 + 1 := by
        rw [List.sum_cons]
        omega
      simp only [stop, size, notPast, if_false, negative] at search
      rw [if_pos (by rw [List.length_singleton]; decide)] at search
      simp only [off, false_and, if_false, search, Option.bind_none]

/-- A hole of a PDU without length indicators is cut to the grant. -/
theorem planSingle_hole (amd : AmdPdu pdu mem pieces) {room stop : Nat}
    (grant : nbBytes = ((room + 4 : Nat) : Int))
    (before : so < stop) (inside : stop ≤ pieces.sum) (fiStart fiEnd : Bool) :
    planSingle pdu nbBytes fiStart fiEnd so ((stop : Int) - 1) =
      partsPlan pieces.sum so [min room (stop - so)] fiStart fiEnd := by
  have cut : (if (stop : Int) - 1 - so + 1 + pduSegmentHeaderMinSize > nbBytes then
      (so : Int) + nbBytes - pduSegmentHeaderMinSize - 1 else (stop : Int) - 1) =
      so + (min room (stop - so) : Nat) - 1 := by
    rw [grant, pduSegmentHeaderMinSize]
    split <;> omega
  unfold planSingle partsPlan
  simp only [cut, amd.payloadSize, List.length_singleton, Nat.sub_self, List.sum_singleton]
  congr 1
  · by_cases first : so = 0
    · simp [first]
    · simp [first]
  · by_cases last : so + min room (stop - so) = pieces.sum
    · rw [if_neg (by omega)]
      simp [last]
    · rw [if_pos (by omega)]
      simp [last]
  · simp only [ints, List.map_cons, List.map_nil, List.cons.injEq, and_true]
    show _ = ((min room (stop - so) : Nat) : Int)
    omega

theorem planSingle_eq (amd : AmdPdu pdu mem pieces) (single : pieces.length = 1)
    (inside : so < pieces.sum)
    (grant : 5 ≤ nbBytes) (fiStart fiEnd : Bool) :
    planSingle pdu nbBytes fiStart fiEnd so (pieces.sum - 1) =
    segmentPlan pieces so nbBytes fiStart fiEnd := by
  obtain ⟨piece, rfl⟩ := List.length_eq_one_iff.mp single
  obtain ⟨room, rfl⟩ : ∃ room : Nat, nbBytes = ((room + 4 : Nat) : Int) :=
    ⟨(nbBytes - 4).toNat, by omega⟩
  rw [planSingle_hole amd rfl inside (Nat.le_refl _)]
  rw [List.sum_singleton] at inside ⊢
  have parts : partsAt [piece] so ((room + 4 : Nat) : Int) = [min room (piece - so)] := by
    have minus : (((room + 4 : Nat) : Int) - pduSegmentHeaderMinSize).toNat = room := by
      rw [pduSegmentHeaderMinSize]
      omega
    rw [partsAt, piecesFrom, if_pos inside, minus, cut]
    split
    · rw [Nat.min_eq_left (by assumption)]
    · rw [Nat.min_eq_right (by omega)]
      split <;> rfl
  rw [segmentPlan, parts, partsPlan, List.sum_singleton, List.sum_singleton]

end Plan

end OpenAir.Rlc.Am
