import OpenAir.Rlc.Am.ResegmentPlan

/-! The bytes of a retransmitted segment: its header announces the parts it takes, and
the decoder finds the offset and the bytes of the original PDU. -/
namespace OpenAir.Rlc.Am
open BitField

section FillLis

variable {mem : Memory} {start k : Nat}

/-- The bytes of the header from the `k`-th entry up to the `total`-th are clear. -/
def ClearFrom (mem : Memory) (start k total : Nat) : Prop :=
  ∀ a, start + headerLiLength k ≤ a → a < start + headerLiLength total → mem a = 0

theorem fillLi_written {li temp : Nat} (more : Bool) (small : li < 2048)
    (halfOpen : HalfOpen mem start k)
    (clear : ClearFrom mem start k (k + 1))
    (read : temp = twoBytes mem (LiCursor.place start k).header) :
    let c := LiCursor.place start k
    let temp := (if more then temp ||| (1 <<< (c.liBitOffset + 11)) else temp) |||
      ((li &&& 0x7FF) <<< c.liBitOffset)
    LiWritten mem (setByte (setByte mem c.header (temp >>> 8)) (c.header + 1) (temp &&& 0xFF)) start
        k li more := by
  have mask : li &&& 0x7FF = li := by
    rw [show (0x7FF : Nat) = 2 ^ 11 - 1 by rfl, Nat.and_two_pow_sub_one_eq_mod]
    omega
  have low (x : Nat) : x &&& 0xFF = x % 256 := Nat.and_two_pow_sub_one_eq_mod x 8
  have high (x : Nat) : x >>> 8 = x / 256 := Nat.shiftRight_eq_div_pow x 8
  simp only [mask, low, high]
  rcases Nat.even_or_odd' k with ⟨h, rfl | rfl⟩
  · have place : start + 2 * h + 2 * h / 2 = start + 3 * h := by omega
    have even : 2 * h % 2 = 0 := by omega
    have length : headerLiLength (2 * h) = 3 * h ∧ headerLiLength (2 * h + 1) = 3 * h + 2 := by
      simp only [headerLiLength]
      omega
    simp only [LiCursor.place, place, even, if_true] at read ⊢
    have zero : temp = 0 := by
      rw [read, twoBytes_eq, clear (start + 3 * h) (by omega) (by omega),
        clear (start + 3 * h + 1) (by omega) (by omega)]
      rfl
    have value : (if more then temp ||| 1 <<< (4 + 11) else temp) ||| li <<< 4 =
        (if more then 32768 else 0) + li * 16 := by
      have shifted : li <<< 4 = li * 16 := Nat.shiftLeft_eq li 4
      rw [zero, shifted]
      cases more with
      | false => rw [if_neg Bool.false_ne_true, if_neg Bool.false_ne_true,
          Nat.zero_or, Nat.zero_add]
      | true =>
        rw [if_pos rfl, if_pos rfl, Nat.zero_or,
          or_eq_add (show li * 16 < 2 ^ 15 by omega) (by decide)]
        rfl
    rw [value]
    refine liWritten_even small ?_ ?_ ?_
    · rw [setByte_other _ (by omega), setByte_same, UInt8.toNat_ofNat']
      split <;> omega
    · rw [setByte_same, UInt8.toNat_ofNat']
      split <;> omega
    · intro a first second
      rw [setByte_other _ second, setByte_other _ first]
  · have place : start + (2 * h + 1) + (2 * h + 1) / 2 = start + 3 * h + 1 := by omega
    have odd : ¬ (2 * h + 1) % 2 = 0 := by omega
    have length : headerLiLength (2 * h + 1) = 3 * h + 2 ∧ headerLiLength (2 * h + 1 + 1) =
        3 * h + 3 := by
      simp only [headerLiLength]
      omega
    simp only [LiCursor.place, place, odd, if_false] at read ⊢
    have half : (mem (start + 3 * h + 1)).toNat % 16 = 0 := by
      have := halfOpen (by omega)
      rwa [show (2 * h + 1) / 2 = h by omega] at this
    have byte := UInt8.toNat_lt (mem (start + 3 * h + 1))
    have second : temp = (mem (start + 3 * h + 1)).toNat * 256 := by
      rw [read, twoBytes_eq, clear (start + 3 * h + 1 + 1) (by omega) (by omega)]
      exact Nat.add_zero _
    have value : (if more then temp ||| 1 <<< (0 + 11) else temp) ||| li <<< 0 =
        (mem (start + 3 * h + 1)).toNat * 256 + (if more then 2048 else 0) + li := by
      rw [second]
      cases more with
      | false =>
        simp only [Bool.false_eq_true, if_false, Nat.add_zero]
        exact or_eq_add (show li < 2 ^ 11 by omega) (by omega)
      | true =>
        simp only [if_true]
        rw [or_eq_add (show 1 <<< (0 + 11) < 2 ^ 12 by decide) (by omega)]
        exact or_eq_add (show li < 2 ^ 11 by omega) (by omega)
    rw [value]
    refine liWritten_odd small halfOpen ?_ ?_ ?_
    · rw [setByte_other _ (by omega), setByte_same, UInt8.toNat_ofNat']
      split <;> omega
    · rw [setByte_same, UInt8.toNat_ofNat']
      split <;> omega
    · intro a first second
      rw [setByte_other _ second, setByte_other _ first]

theorem fillLis_written {temp total : Nat} {lis : List Nat} (small : ∀ li ∈ lis, li < 2048)
    (halfOpen : HalfOpen mem start k) (count : total = k + lis.length)
    (clear : ClearFrom mem start k total)
    (read : lis ≠ [] → temp = twoBytes mem (LiCursor.place start k).header) :
    Entries (fillLis mem (LiCursor.place start k) temp lis) start total k lis ∧
    (∀ j < k, liAt (fillLis mem (LiCursor.place start k) temp lis) start j = liAt mem start j ∧
      liE (fillLis mem (LiCursor.place start k) temp lis) start j = liE mem start j) ∧
    ∀ a, a < start ∨ start + headerLiLength total ≤ a →
      fillLis mem (LiCursor.place start k) temp lis a = mem a := by
  induction lis generalizing mem k temp with
  | nil => exact ⟨trivial, fun j _ => ⟨rfl, rfl⟩, fun a _ => rfl⟩
  | cons li rest ih =>
    rw [List.length_cons] at count
    have bytes := headerLiLength_mono (show k + 1 ≤ total by omega)
    have grows := headerLiLength_mono (show k ≤ k + 1 by omega)
    have written := fillLi_written (decide (rest ≠ [])) (small li List.mem_cons_self) halfOpen
      (fun a lower upper => clear a lower (by omega)) (read (List.cons_ne_nil _ _))
    rw [fillLis, LiCursor.place_next]
    simp only [ne_eq, decide_eq_true_eq, ite_not] at written ⊢
    generalize setByte _ _ _ = mem' at written ⊢
    have clear' : ClearFrom mem' start (k + 1) total := by
      intro a lower upper
      rw [written.outside a (Or.inr lower)]
      exact clear a (by omega) upper
    obtain ⟨entries, earlier, outside⟩ :=
      @ih mem' (k + 1) (twoBytes mem' (LiCursor.place start (k + 1)).header)
      (fun li member => small li (List.mem_cons_of_mem _ member)) written.halfOpen
        (by omega) clear' fun _ => rfl
    refine ⟨⟨?_, ?_, entries⟩, fun j below => ?_, fun a away => ?_⟩
    · rw [(earlier k (Nat.lt_succ_self k)).1, written.value]
    · rw [(earlier k (Nat.lt_succ_self k)).2, written.e, count, decide_eq_decide,
        ← List.length_eq_zero_iff]
      omega
    · obtain ⟨value, e⟩ := earlier j (by omega)
      obtain ⟨value', e'⟩ := written.earlier j below
      exact ⟨value.trans value', e.trans e'⟩
    · rw [outside a away, written.outside a (by omega)]

end FillLis

section Short

/-- Every size but the last fits a length indicator. -/
def Short (sizes : List Nat) : Prop := ∀ size ∈ sizes.dropLast, size < 2048

theorem Short.tail {size : Nat} {rest : List Nat} (short : Short (size :: rest)) : Short rest := by
  cases rest with
  | nil => simp [Short]
  | cons next rest => exact fun other member => short other (List.mem_cons_of_mem _ member)

theorem Short.cons {size : Nat} {rest : List Nat} (here : rest ≠ [] → size < 2048)
    (short : Short rest) :
    Short (size :: rest) := by
  cases rest with
  | nil => simp [Short]
  | cons next rest =>
    intro other member
    rcases List.mem_cons.mp member with rfl | later
    · exact here (List.cons_ne_nil _ _)
    · exact short other later

theorem Short.head {size : Nat} {rest : List Nat} (short : Short (size :: rest))
    (more : rest ≠ []) : size < 2048 := by
  cases rest with
  | nil => exact absurd rfl more
  | cons next rest => exact short size List.mem_cons_self

theorem Short.piecesFrom {pieces : List Nat} (short : Short pieces)
    (so : Nat) : Short (piecesFrom so pieces) := by
  induction pieces generalizing so with
  | nil => exact short
  | cons piece rest ih =>
    rw [Am.piecesFrom]
    split
    · exact .cons (fun more => (Nat.sub_le _ _).trans_lt (short.head more)) short.tail
    · exact ih short.tail _

theorem Short.cut {sizes : List Nat} (short : Short sizes) (room k : Nat) :
    Short (cut room k sizes) := by
  induction sizes generalizing room k with
  | nil => exact short
  | cons size rest ih =>
    rw [Am.cut]
    split
    · simp [Short]
    · split
      · refine .cons (fun more => short.head fun none => ?_) (ih short.tail _ _)
        rw [none] at more
        exact more rfl
      · simp [Short]

theorem Announces.short {mem : Memory} {pieces : List Nat} (announces : Announces mem pieces) :
    Short pieces := by
  intro size member
  have lis := announces.entries.lisAt
  rw [← lis, lisAt, List.mem_map] at member
  obtain ⟨k, -, rfl⟩ := member
  exact valueAt_lt mem _ 11

end Short

section Header

theorem segmentByte_bits : ∀ sn < 4, ∀ fiStart fiEnd more : Bool,
    let b1 := (1 <<< 7) ||| (1 <<< 6)
    let b1 := if fiStart then b1 else b1 ||| (1 <<< 4)
    let b1 := if fiEnd then b1 else b1 ||| (1 <<< 3)
    let b1 := b1 ||| sn
    let b1 := if more then b1 ||| (1 <<< 2) else b1
    b1 < 256 ∧ b1.testBit 7 = true ∧ b1.testBit 6 = true ∧ b1.testBit 4 = !fiStart ∧
      b1.testBit 3 = !fiEnd ∧
      b1.testBit 2 = more := by
  decide

theorem so_bytes (mem : Memory) :
    valueAt mem 17 15 = (mem 2).toNat % 128 * 256 + (mem 3).toNat := by
  have high := shift_and_mask mem 2 0 7 (by decide)
  rw [Nat.and_two_pow_sub_one_eq_mod, Nat.shiftRight_zero] at high
  rw [valueAt_add mem 17 7 8, show 17 + 7 = 8 * 3 by rfl, valueAt_byte mem 3]
  exact congrArg (· * 256 + (mem 3).toNat) high.symm

end Header

theorem chunks_congr {mem mem' : Memory} {a a' : Nat} {sizes : List Nat}
    (same : ∀ i < sizes.sum, mem (a + i) = mem' (a' + i)) :
    chunks mem a sizes = chunks mem' a' sizes := by
  induction sizes generalizing a a' with
  | nil => rfl
  | cons size rest ih =>
    rw [List.sum_cons] at same
    rw [chunks, chunks, bytesAt_congr fun i inside => same i (by omega), ih fun i inside => ?_]
    have := same (size + i) (by omega)
    rwa [← Nat.add_assoc, ← Nat.add_assoc] at this

/-- What a segment carries: the parts of the original PDU from `so` on. -/
structure Carries (segment original : Memory) (payload so : Nat) (parts : List Nat)
    (fiStart fiEnd : Bool) : Prop where
  announces : Announces segment parts
  start : liStart segment = 4
  offset : valueAt segment 17 15 = so
  fiStart : bitAt segment 3 = !fiStart
  fiEnd : bitAt segment 4 = !fiEnd
  data : chunks segment (announcedHeader segment parts) parts = chunks original (payload + so) parts

theorem writeSegment_carries {original : Memory} {pdu : TxPdu} {plan : SegmentPlan} {so : Nat}
    {parts : List Nat}
    (begins : plan.retxSoStart = so) (pieces : plan.pieces = ints parts)
    (header : plan.headerSegmentLength = pduSegmentHeaderSize (parts.length - 1))
    (size : plan.payloadSize = parts.sum) (few : parts.length ≤ maxSduInPdu) (short : Short parts)
    (small : so ≤ 32767) :
    Carries (writeSegment original pdu plan) original pdu.payload so parts plan.fiStart
      plan.fiEnd := by
  have lis : plan.pieces.dropLast.map Int.toNat = parts.dropLast := by
    rw [pieces, ints, ← List.map_dropLast, List.map_map]
    exact List.map_id' _
  have length : parts.dropLast.length = parts.length - 1 := List.length_dropLast
  unfold writeSegment
  simp only [lis, begins, header, size, Int.toNat_natCast]
  have sn : (pdu.sn >>> 8) &&& 0x3 < 4 := Nat.and_lt_two_pow _ (show 0x3 < 2 ^ 2 by decide)
  obtain ⟨byte, data, rf, fiStart, fiEnd, e⟩ :=
    segmentByte_bits _ sn plan.fiStart plan.fiEnd (decide (parts.dropLast ≠ []))
  simp only [ne_eq, decide_eq_true_eq, ite_not] at byte data rf fiStart fiEnd e
  generalize (if parts.dropLast = [] then _ else _ : Nat) = b1 at byte data rf fiStart fiEnd e ⊢
  generalize offset :
    (if plan.retxSoStop = pdu.payloadSize - 1 then so % 2 ^ 16 ||| 1 <<< 15 else so % 2 ^ 16) =
    soPart
  have soPartEq : soPart = so ∨ soPart = so + 32768 := by
    rw [← offset, Nat.mod_eq_of_lt (by omega)]
    split
    · right
      rw [Nat.or_comm, or_eq_add (show so < 2 ^ 15 by omega) (by decide), Nat.add_comm]
      rfl
    · left
      rfl
  generalize copied : copyBytes (fun _ => 0) (pduSegmentHeaderSize (parts.length - 1)) original
    (pdu.payload + so)
    parts.sum = data'
  generalize fixed :
    setByte (setByte (setByte (setByte data' 0 b1) 1 (pdu.sn &&& 0xFF)) 2 ((soPart >>> 8) &&& 0xFF))
    3
    (soPart &&& 0xFF) = mem
  have behind (a : Nat) (le : 4 ≤ a) : mem a = data' a := by
    rw [← fixed, setByte_other _ (by omega), setByte_other _ (by omega), setByte_other _ (by omega),
      setByte_other _ (by omega)]
  have clear : ClearFrom mem 4 0 parts.dropLast.length := by
    intro a lower upper
    rw [length] at upper
    rw [behind a (by omega), ← copied, copyBytes_outside (by
      rw [pduSegmentHeaderSize, pduSegmentHeaderMinSize]
      omega)]
  obtain ⟨entries, -, outside⟩ :=
    @fillLis_written mem 4 0 0 parts.dropLast.length parts.dropLast short
    (fun odd => absurd odd (by decide)) (Nat.zero_add _).symm clear (fun some => by
      have first := List.length_pos_iff.mpr some
      have bytes := headerLiLength_mono (show 1 ≤ parts.dropLast.length by omega)
      have two : headerLiLength 1 = 2 := rfl
      have none : headerLiLength 0 = 0 := rfl
      rw [twoBytes_eq, show (LiCursor.place 4 0).header = 4 by rfl, clear 4 (by omega) (by omega),
        clear (4 + 1) (by omega) (by omega)]
      rfl)
  generalize written : fillLis mem (LiCursor.place 4 0) 0 parts.dropLast = segment
    at entries outside
  have goal : fillLis mem { header := pduSegmentHeaderMinSize } 0 parts.dropLast =
    segment := written
  rw [goal]
  have first : (segment 0).toNat = b1 := by
    rw [outside 0 (by omega), ← fixed, setByte_other _ (by omega), setByte_other _ (by omega),
      setByte_other _ (by omega), setByte_same, UInt8.toNat_ofNat', Nat.mod_eq_of_lt byte]
  have bit (k : Nat) (inside : k < 8) : bitAt segment k = b1.testBit (7 - k) := by
    have at' := @bitAt_byte segment 0 k inside
    rwa [Nat.mul_zero, Nat.zero_add, first] at at'
  have start : liStart segment = 4 := by
    rw [liStart, bit 1 (by decide), rf]
    rfl
  have low (x : Nat) : x &&& 0xFF = x % 256 := Nat.and_two_pow_sub_one_eq_mod x 8
  have second : (segment 2).toNat = soPart / 256 % 256 := by
    rw [outside 2 (by omega), ← fixed, setByte_other _ (by omega), setByte_same,
      UInt8.toNat_ofNat', low, Nat.shiftRight_eq_div_pow]
    omega
  have third : (segment 3).toNat = soPart % 256 := by
    rw [outside 3 (by omega), ← fixed, setByte_same, UInt8.toNat_ofNat', low]
    omega
  have headerSize : announcedHeader segment parts = pduSegmentHeaderSize (parts.length - 1) := by
    rw [announcedHeader, start]
    rfl
  refine ⟨⟨(bit 0 (by decide)).trans data, ?_, few, ?_⟩, start, ?_,
    (bit 3 (by decide)).trans fiStart,
    (bit 4 (by decide)).trans fiEnd, ?_⟩
  · rw [bit 5 (by decide), e, decide_eq_decide, ← List.length_eq_zero_iff, length]
    omega
  · rw [start, ← length]
    exact entries
  · rw [so_bytes, second, third]
    rcases soPartEq with rfl | rfl <;> omega
  · rw [headerSize]
    apply chunks_congr
    intro i inside
    have place : 4 + headerLiLength parts.dropLast.length ≤
        pduSegmentHeaderSize (parts.length - 1) + i := by
      rw [length, pduSegmentHeaderSize, pduSegmentHeaderMinSize]
      omega
    rw [outside _ (Or.inr place), behind _ (by omega), ← copied, copyBytes, if_pos (by omega),
      Nat.add_sub_cancel_left]

end OpenAir.Rlc.Am
