import OpenAir.Lib.Spans
import OpenAir.Rlc.Am.HolePlan

/-! One segment out of the hole list of a slot: what is planned, what the block holds and
which bytes stay to be asked for. -/
namespace OpenAir.Rlc.Am
open BitField Spans

/-- Only the hole list and the progress in it differ. -/
structure OnlyHoles (before after : TxPdu) : Prop where
  eq : after = { before with
    holeSoStart := after.holeSoStart
    holeSoStop := after.holeSoStop
    numHoles := after.numHoles
    retxHoleIndex := after.retxHoleIndex
    nackSoStart := after.nackSoStart }

/-- The holes from `retx_hole_index` on. -/
structure Listed (pdu : TxPdu) (holes : List Span) : Prop where
  count : pdu.numHoles = pdu.retxHoleIndex + holes.length
  start : ∀ i (inside : i < holes.length), pdu.holeSoStart (pdu.retxHoleIndex + i) = holes[i].start
  stop : ∀ i (inside : i < holes.length), pdu.holeSoStop (pdu.retxHoleIndex + i) =
    (holes[i].stop : Int) - 1

/-- The slot holds the PDU and asks for the bytes of the holes; without a hole list it
asks for the whole payload. -/
structure AsksFor (pdu : TxPdu) (mem : Memory) (pieces : List Nat) (holes : List Span) : Prop where
  amd : AmdPdu pdu mem pieces
  ordered : Ordered pieces.sum holes
  retx : pdu.retxPayloadSize = (numbers holes).length
  listed : holes ≠ [] → pdu.numHoles = 0 ∧ holes = [⟨0, pieces.sum⟩] ∨ Listed pdu holes

section Holes

variable {pdu pdu' : TxPdu} {mem : Memory} {pieces : List Nat}
    {holes rest : List Span} {hole : Span}

theorem OnlyHoles.refl (pdu : TxPdu) : OnlyHoles pdu pdu := ⟨rfl⟩

theorem OnlyHoles.trans {a b c : TxPdu} (left : OnlyHoles a b) (right : OnlyHoles b c) :
    OnlyHoles a c := by
  refine ⟨right.eq.trans ?_⟩
  rw [left.eq]

theorem OnlyHoles.amd (only : OnlyHoles pdu pdu') (amd : AmdPdu pdu mem pieces) :
    AmdPdu pdu' mem pieces := by
  rw [only.eq]
  exact amd.congr rfl rfl rfl rfl rfl rfl

/-- The plan is made for the first hole. -/
theorem planSegment_holes (asks : AsksFor pdu mem pieces (hole :: rest)) (nbBytes : Int) :
    ∃ pdu', OnlyHoles pdu pdu' ∧ Listed pdu' (hole :: rest) ∧
      planSegment pdu mem nbBytes = (pdu', if pdu'.nbSdus - 1 = 0 then
        some (planSingle pdu' nbBytes (!bitAt mem 3) (!bitAt mem 4) hole.start
          ((hole.stop : Int) - 1))
        else planMany mem pdu' nbBytes (!bitAt mem 3) (!bitAt mem 4) hole.start
          ((hole.stop : Int) - 1)) := by
  have payloadSize := asks.amd.payloadSize
  have some := asks.ordered.some hole List.mem_cons_self
  have inside := asks.ordered.inside hole List.mem_cons_self
  obtain ⟨fiStart, fiEnd⟩ := framing_bits mem
  unfold planSegment
  simp only [fiStart, fiEnd]
  rcases asks.listed (List.cons_ne_nil _ _) with ⟨none, whole⟩ | listed
  · obtain ⟨rfl, rfl⟩ := List.cons.inj whole
    have retx : pdu.retxPayloadSize = pieces.sum := by
      rw [asks.retx]
      simp [numbers, Span.numbers]
    rw [if_neg (by omega)]
    simp only [none, if_true]
    refine ⟨pdu.openHole, ⟨rfl⟩, ⟨rfl, fun i one => ?_, fun i one => ?_⟩, ?_⟩
    · rw [List.length_singleton, Nat.lt_one_iff] at one
      subst one
      simp [TxPdu.openHole]
    · rw [List.length_singleton, Nat.lt_one_iff] at one
      subst one
      simp [TxPdu.openHole, payloadSize]
    · simp only [Function.update_self, payloadSize]
      rw [if_neg (by omega)]
      simp only [TxPdu.openHole, payloadSize, Int.natCast_zero]
      split <;> rfl
  · have count := listed.count
    have start : pdu.holeSoStart pdu.retxHoleIndex = hole.start :=
      listed.start 0 (Nat.zero_lt_succ _)
    have stop : pdu.holeSoStop pdu.retxHoleIndex = (hole.stop : Int) - 1 :=
      listed.stop 0 (Nat.zero_lt_succ _)
    have open_ : ¬ pdu.numHoles = 0 := by
      rw [count, List.length_cons]
      omega
    rw [if_neg (by omega)]
    simp only [open_, if_false, start, stop, payloadSize]
    refine ⟨pdu, OnlyHoles.refl pdu, listed, ?_⟩
    rw [if_neg (by omega)]
    split <;> rfl

/-- A segment of the first hole shortens or closes it. -/
theorem updateHoles_listed (listed : Listed pdu (hole :: rest)) {taken : Nat}
    (within : hole.start + taken ≤ hole.stop) :
    OnlyHoles pdu (updateHoles pdu taken) ∧
    (consume taken (hole :: rest) ≠ [] →
      Listed (updateHoles pdu taken) (consume taken (hole :: rest))) := by
  have count := listed.count
  have start : pdu.holeSoStart pdu.retxHoleIndex = hole.start := listed.start 0 (Nat.zero_lt_succ _)
  have stop : pdu.holeSoStop pdu.retxHoleIndex = (hole.stop : Int) - 1 :=
    listed.stop 0 (Nat.zero_lt_succ _)
  unfold updateHoles
  simp only [start, stop, consume]
  by_cases more : hole.start + taken < hole.stop
  · rw [if_pos more, if_neg (by omega)]
    refine ⟨⟨rfl⟩, fun _ => ⟨count, fun i inside => ?_, fun i inside => ?_⟩⟩
    · cases i with
      | zero => simp
      | succ i =>
        have other : pdu.retxHoleIndex + (i + 1) ≠ pdu.retxHoleIndex := by omega
        exact (Function.update_of_ne other _ _).trans (listed.start (i + 1) inside)
    · cases i with
      | zero => exact stop
      | succ i => exact listed.stop (i + 1) inside
  · rw [if_neg more, if_pos (by omega)]
    rw [List.length_cons] at count
    by_cases last : pdu.retxHoleIndex + 1 < pdu.numHoles
    · rw [if_pos last]
      refine ⟨⟨rfl⟩, fun _ => ⟨?_, fun i inside => ?_, fun i inside => ?_⟩⟩
      · simp only [count]
        omega
      · have place : pdu.retxHoleIndex + 1 + i = pdu.retxHoleIndex + (i + 1) := by omega
        exact (congrArg pdu.holeSoStart place).trans
          (listed.start (i + 1) (Nat.succ_lt_succ inside))
      · have place : pdu.retxHoleIndex + 1 + i = pdu.retxHoleIndex + (i + 1) := by omega
        exact (congrArg pdu.holeSoStop place).trans (listed.stop (i + 1) (Nat.succ_lt_succ inside))
    · rw [if_neg last]
      refine ⟨⟨rfl⟩, fun some => absurd (List.length_eq_zero_iff.mp ?_) some⟩
      omega

end Holes

section Header

variable {mem original : Memory} {pdu : TxPdu} {plan : SegmentPlan} {so : Nat}

theorem fillLis_below {c : LiCursor} {temp a : Nat} {lis : List Nat} (below : a < c.header) :
    fillLis mem c temp lis a = mem a := by
  induction lis generalizing mem c temp with
  | nil => rfl
  | cons li rest ih =>
    rw [fillLis, ih (Nat.lt_of_lt_of_le below (Nat.le_add_right _ _)), setByte_other _ (by omega),
      setByte_other _ (by omega)]

/-- The last segment flag is set when the segment ends with the PDU. -/
theorem writeSegment_lsf (begins : plan.retxSoStart = so) (small : so ≤ 32767) :
    bitAt (writeSegment original pdu plan) 16 = decide (plan.retxSoStop = pdu.payloadSize - 1) := by
  have low (x : Nat) : x &&& 0xFF = x % 256 := Nat.and_two_pow_sub_one_eq_mod x 8
  have byte : ((writeSegment original pdu plan) 2).toNat =
      (if plan.retxSoStop = pdu.payloadSize - 1 then so + 32768 else so) / 256 := by
    unfold writeSegment
    rw [fillLis_below (by simp only [pduSegmentHeaderMinSize]; omega),
      setByte_other _ (by omega), setByte_same, UInt8.toNat_ofNat', low, Nat.shiftRight_eq_div_pow,
        begins, Int.toNat_natCast]
    split
    · rw [Nat.mod_eq_of_lt (show so < 2 ^ 16 by omega), Nat.or_comm,
        or_eq_add (show so < 2 ^ 15 by omega) (by decide)]
      omega
    · omega
  rw [show (16 : Nat) = 8 * 2 + 0 by rfl, @bitAt_byte _ 2 0 (by decide), byte]
  split
  · rename_i last
    rw [decide_eq_true last]
    have high : (so + 32768) / 256 = 2 ^ 7 + so / 256 := by omega
    rw [high, Nat.testBit_two_pow_add_eq, Nat.testBit_lt_two_pow (by omega), Bool.not_false]
  · rename_i inner
    rw [decide_eq_false inner]
    exact Nat.testBit_lt_two_pow (by omega)

theorem bytes_of_chunks {mem mem' : Memory} {a a' : Nat} {sizes : List Nat}
    (same : chunks mem a sizes = chunks mem' a' sizes) :
    ∀ i < sizes.sum, mem (a + i) = mem' (a' + i) := by
  induction sizes generalizing a a' with
  | nil => exact fun i none => absurd none (Nat.not_lt_zero i)
  | cons size rest ih =>
    rw [chunks, chunks, List.cons.injEq] at same
    intro i inside
    rw [List.sum_cons] at inside
    by_cases here : i < size
    · have byte := congrArg (fun bytes => bytes.getD i 0) same.1
      simpa [bytesAt, here] using byte
    · have byte := ih same.2 (i - size) (by omega)
      rwa [show a + size + (i - size) = a + i by
        omega, show a' + size + (i - size) = a' + i by omega] at byte

end Header

/-- The block carries the `count` bytes of the payload from `so` on: its header has the offset,
and in a segment the last segment flag tells whether they reach the end of the PDU; a block that
is no segment is the whole PDU. -/
structure Sends (original : Memory) (pieces : List Nat) (out : Emitted)
    (so count : Nat) : Prop where
  size : out.payloadSize = count
  header : count + (readFixedHeader out.mem).headerSize ≤ out.tbSize
  offset : (readFixedHeader out.mem).so = so
  segment : (readFixedHeader out.mem).rf = true → (readFixedHeader out.mem).headerSize = 4 ∧
    ((readFixedHeader out.mem).lsf = true ↔ so + count = pieces.sum)
  whole : (readFixedHeader out.mem).rf = false → (readFixedHeader out.mem).headerSize = 2 ∧ so = 0 ∧
    count = pieces.sum
  data : ∀ i < count, out.mem (out.tbSize.toNat - count + i) =
    original (announcedHeader original pieces + so + i)

section Emission

variable {pdu : TxPdu} {mem : Memory} {pieces parts : List Nat} {so : Nat}

theorem sends_segment (amd : AmdPdu pdu mem pieces) {plan : SegmentPlan} {fiStart fiEnd : Bool}
    (planned : plan = partsPlan pieces.sum so parts fiStart fiEnd) (short : Short parts)
    (length : parts.length ≤ pieces.length) (within : so + parts.sum ≤ pieces.sum) :
    Sends mem pieces
      ⟨writeSegment mem pdu plan, plan.headerSegmentLength + plan.payloadSize, plan.payloadSize⟩ so
      parts.sum := by
  have small := amd.small
  have stop : plan.retxSoStop = so + parts.sum - 1 := by rw [planned, partsPlan]
  have payloadSize : plan.payloadSize = parts.sum := by
    have start : plan.retxSoStart = so := by rw [planned, partsPlan]
    rw [SegmentPlan.payloadSize, start, stop]
    omega
  have begins : plan.retxSoStart = so := by rw [planned, partsPlan]
  have header : plan.headerSegmentLength = pduSegmentHeaderSize (parts.length - 1) := by
    rw [planned, partsPlan]
  have carries :=
    @writeSegment_carries mem pdu plan so parts begins (by rw [planned, partsPlan])
    header payloadSize
    (length.trans amd.announces.few) short (by omega)
  have lsf := @writeSegment_lsf mem pdu plan so begins (by omega)
  have rf : bitAt (writeSegment mem pdu plan) 1 = true := by
    by_contra clear
    have start := carries.start
    rw [liStart, if_neg clear] at start
    cases start
  refine ⟨payloadSize, ?_, ?_, fun _ => ⟨?_, ?_⟩, fun whole => ?_, fun i inside => ?_⟩
  · rw [readFixedHeader_eq]
    simp only [header, payloadSize, carries.start, pduSegmentHeaderSize, pduSegmentHeaderMinSize]
    omega
  · rw [readFixedHeader_eq]
    simp only [rf, if_true]
    exact carries.offset
  · rw [readFixedHeader_eq]
    exact carries.start
  · rw [readFixedHeader_eq]
    simp only [rf, Bool.true_and, lsf, decide_eq_true_eq, amd.payloadSize, stop]
    omega
  · rw [readFixedHeader_eq] at whole
    exact absurd (whole.symm.trans rf) Bool.false_ne_true
  · have place : (plan.headerSegmentLength + plan.payloadSize).toNat - parts.sum =
        announcedHeader (writeSegment mem pdu plan) parts := by
      rw [header, payloadSize, announcedHeader, carries.start, pduSegmentHeaderSize,
        pduSegmentHeaderMinSize]
      omega
    simp only [place]
    rw [bytes_of_chunks carries.data i inside, amd.payload]

theorem sends_whole (amd : AmdPdu pdu mem pieces) :
    Sends mem pieces ⟨mem, pdu.headerAndPayloadSize, pdu.payloadSize⟩ 0 pieces.sum := by
  have rf : bitAt mem 1 = false := by
    by_contra set
    have start := amd.whole
    rw [liStart, if_pos (Bool.not_eq_false _ ▸ set)] at start
    cases start
  refine ⟨amd.payloadSize, ?_, ?_, fun segment => ?_, fun _ => ⟨?_, rfl, rfl⟩, fun i _ => ?_⟩
  · rw [readFixedHeader_eq]
    simp only [amd.size, announcedHeader, amd.whole]
    omega
  · rw [readFixedHeader_eq]
    simp only [rf, Bool.false_eq_true, if_false]
  · rw [readFixedHeader_eq] at segment
    exact absurd (rf.symm.trans segment) Bool.false_ne_true
  · rw [readFixedHeader_eq]
    exact amd.whole
  · simp only [amd.size]
    congr 1
    omega

theorem Sends.headerSize_pos {out : Emitted} {count : Nat} (sends : Sends mem pieces out so count) :
    0 < (readFixedHeader out.mem).headerSize := by
  cases rf : (readFixedHeader out.mem).rf with
  | true =>
    rw [(sends.segment rf).1]
    decide
  | false =>
    rw [(sends.whole rf).1]
    decide

/-- A block keeps what it carries when its poll bit changes. -/
theorem Sends.polled {out : Emitted} {count b1 : Nat} (sends : Sends mem pieces out so count)
    (poll : b1 = (out.mem 0).toNat ||| (1 <<< 5) ∨
      b1 = (out.mem 0).toNat &&& (0xFF ^^^ (1 <<< 5))) :
    Sends mem pieces { out with mem := setByte out.mem 0 b1 } so count := by
  have byte := UInt8.toNat_lt (out.mem 0)
  have bits : ∀ b < 256, (((b ||| (1 <<< 5)) % 2 ^ 8) >>> 6) &&& 1 = (b >>> 6) &&& 1 ∧
      (((b &&& (0xFF ^^^ (1 <<< 5))) % 2 ^ 8) >>> 6) &&& 1 = (b >>> 6) &&& 1 := by
    decide +kernel
  obtain ⟨set, clear⟩ := bits _ byte
  have first : ((setByte out.mem 0 b1 0).toNat >>> 6) &&& 1 = ((out.mem 0).toNat >>> 6) &&& 1 := by
    rw [setByte_same, UInt8.toNat_ofNat']
    rcases poll with rfl | rfl
    · exact set
    · exact clear
  have rf : (readFixedHeader (setByte out.mem 0 b1)).rf = (readFixedHeader out.mem).rf := by
    unfold readFixedHeader
    simp only [first]
    split <;> rfl
  have same : (readFixedHeader (setByte out.mem 0 b1)).so = (readFixedHeader out.mem).so ∧
      (readFixedHeader (setByte out.mem 0 b1)).lsf = (readFixedHeader out.mem).lsf ∧
      (readFixedHeader (setByte out.mem 0 b1)).headerSize =
          (readFixedHeader out.mem).headerSize := by
    unfold readFixedHeader
    simp only [first, setByte_other b1 (show (2 : Nat) ≠ 0 by decide),
      setByte_other b1 (show (3 : Nat) ≠ 0 by decide)]
    split <;> exact ⟨rfl, rfl, rfl⟩
  obtain ⟨offset, lsf, headerSize⟩ := same
  refine ⟨sends.size, ?_, offset.trans sends.offset, ?_, ?_, fun i inside => ?_⟩
  · rw [headerSize]
    exact sends.header
  · rw [headerSize, lsf, rf]
    exact sends.segment
  · rw [headerSize, rf]
    exact sends.whole
  · have header := sends.header
    have some := sends.headerSize_pos
    simp only
    rw [setByte_other _ (by omega)]
    exact sends.data i inside

end Emission

section Whole

variable {parts whole left : List Nat}

theorem Parted.all (parted : Parted parts whole left) (pos : ∀ piece ∈ left, 0 < piece)
    (all : parts.sum = whole.sum) :
    parts = whole := by
  have sum := parted.sum
  cases parted with
  | behind =>
    cases left with
    | nil => exact (List.append_nil parts).symm
    | cons piece left =>
      have some := pos piece List.mem_cons_self
      rw [List.sum_cons] at sum
      omega
  | inside front part more rest some same =>
    rw [List.sum_cons] at sum
    omega

theorem cut_all {room k : Nat} (pos : ∀ piece ∈ whole, 0 < piece)
    (all : (cut room k whole).sum = whole.sum) :
    cut room k whole = whole :=
  (cut_parted pos).all (piecesFrom_pos pos _) all

end Whole

/-- The hole can be planned for a grant: the counter of SDUs counts the pieces, or the segment
ends in the first of them. -/
def Plannable (pieces : List Nat) (room : Nat) (hole : Span) : Prop :=
  pieces.length < 128 ∨
    hole.start < pieces.headD 0 ∧ (hole.stop ≤ pieces.headD 0 ∨ hole.start + room ≤ pieces.headD 0)

section Segment

variable {pdu : TxPdu} {mem : Memory} {pieces : List Nat} {rest : List Span} {hole : Span}
    {nbBytes : Int} {room : Nat}

/-- The bytes of the first hole that a segment takes. -/
def holeParts (pieces : List Nat) (room : Nat) (hole : Span) : List Nat :=
  cut room 0 (piecesFrom hole.start (piecesTo hole.stop pieces))

/-- A hole that is not the whole PDU gets its plan; a grant for the whole PDU is one for a copy. -/
theorem planSegment_plannable (asks : AsksFor pdu mem pieces (hole :: rest))
    (grant : nbBytes = ((room + 4 : Nat) : Int))
    (roomPos : 0 < room) (plannable : Plannable pieces room hole)
    (part : ¬ (pdu.retxPayloadSize = pdu.payloadSize ∧ nbBytes ≥ pdu.headerAndPayloadSize)) :
    ∃ pdu', OnlyHoles pdu pdu' ∧ Listed pdu' (hole :: rest) ∧ planSegment pdu mem nbBytes = (pdu',
      some (partsPlan pieces.sum hole.start (holeParts pieces room hole) (!bitAt mem 3)
        (!bitAt mem 4))) := by
  have before := asks.ordered.some hole List.mem_cons_self
  have inside := asks.ordered.inside hole List.mem_cons_self
  obtain ⟨pdu', only, listed, planned⟩ := planSegment_holes asks nbBytes
  refine ⟨pdu', only, listed, planned.trans (congrArg (Prod.mk pdu') ?_)⟩
  have amd := only.amd asks.amd
  have some := List.length_pos_iff.mpr amd.some
  by_cases few : pieces.length < 128
  · rw [amd.nbSdus few]
    by_cases single : pieces.length = 1
    · rw [if_pos (by omega), planSingle_hole amd grant before inside]
      obtain ⟨piece, rfl⟩ := List.length_eq_one_iff.mp single
      rw [List.sum_singleton] at inside
      rw [holeParts, piecesTo, if_pos inside, piecesFrom, if_pos before, cut_single]
    · have many : 1 < pieces.length := by omega
      rw [if_neg (by omega), planMany_hole amd few many grant roomPos before inside, if_neg]
      · rfl
      · intro whole
        -- All bytes in one segment need a grant that the copy of the PDU fits in.
        obtain ⟨-, -, -, within, -⟩ := holeParts_spec amd.pos roomPos before inside
        have fits := @cut_fits room 0 (piecesFrom hole.start (piecesTo hole.stop pieces)) roomPos
        have start : hole.start = 0 := by omega
        have stop : hole.stop = pieces.sum := by omega
        rw [stop, start, piecesTo_all amd.some amd.pos, piecesFrom_zero amd.pos] at fits whole
        rw [cut_all amd.pos whole, Nat.zero_add] at fits
        have retx : pdu.retxPayloadSize = pieces.sum := by
          have most := (numbers_full asks.ordered fun span _ => Nat.zero_le span.start).1
          have count := asks.retx
          rw [numbers_cons, List.length_append, hole.numbers_length, start, stop] at most count
          omega
        refine part ⟨retx.trans asks.amd.payloadSize.symm, ?_⟩
        rw [asks.amd.size, announcedHeader, asks.amd.whole, grant]
        have none : headerLiLength 0 = 0 := rfl
        omega
  · have most : pieces.length ≤ 128 := amd.announces.few
    have wide : pieces.length = 128 := by omega
    obtain ⟨first, ends⟩ := plannable.resolve_left few
    obtain ⟨negative, -⟩ := firstWalk_wide amd wide 0
    rw [if_neg (by rw [negative]; decide),
      planMany_wide_hole amd wide grant roomPos before inside first ends]
    rfl

/-- The outcome of the segment builder at a hole that can be planned: with a free block the first
bytes of the hole go out, and the hole list moves on behind them. -/
theorem getAmSegment_plannable (asks : AsksFor pdu mem pieces (hole :: rest))
    (grant : nbBytes = ((room + 4 : Nat) : Int))
    (roomPos : 0 < room) (plannable : Plannable pieces room hole)
    (part : ¬ (pdu.retxPayloadSize = pdu.payloadSize ∧ nbBytes ≥ pdu.headerAndPayloadSize))
    (allocated : Bool) :
    if allocated = true then
      ∃ pdu' out count, retransmitGetAmSegment pdu nbBytes allocated = (pdu', some out) ∧
        OnlyHoles pdu pdu' ∧
        Sends mem pieces out hole.start count ∧ 0 < count ∧ hole.start + count ≤ hole.stop ∧
        out.tbSize ≤ nbBytes ∧
        (consume count (hole :: rest) ≠ [] → Listed pdu' (consume count (hole :: rest)))
    else
      ∃ pdu', retransmitGetAmSegment pdu nbBytes allocated = (pdu', none) ∧ OnlyHoles pdu pdu' ∧
        Listed pdu' (hole :: rest) := by
  have before := asks.ordered.some hole List.mem_cons_self
  have inside := asks.ordered.inside hole List.mem_cons_self
  have amd := asks.amd
  obtain ⟨pdu', only, listed, planned⟩ := planSegment_plannable asks grant roomPos plannable part
  obtain ⟨-, -, length, within, sumPos⟩ := holeParts_spec amd.pos roomPos before inside
  have fits := @cut_fits room 0 (piecesFrom hole.start (piecesTo hole.stop pieces)) roomPos
  have short := ((amd.announces.short.piecesTo hole.stop).piecesFrom hole.start).cut room 0
  rw [← holeParts.eq_def] at length within sumPos fits short
  have pointers : ¬ (pdu.payload : Int) ≠ pdu.headerAndPayloadSize - pdu.payloadSize := by
    rw [amd.payload, amd.size, amd.payloadSize]
    omega
  unfold retransmitGetAmSegment
  rw [amd.block]
  simp only [pointers, if_false, planned]
  generalize chosen : partsPlan pieces.sum hole.start (holeParts pieces room hole) (!bitAt mem 3)
    (!bitAt mem 4) = plan
  have payloadSize : plan.payloadSize = ((holeParts pieces room hole).sum : Nat) := by
    rw [← chosen, SegmentPlan.payloadSize, partsPlan]
    simp only
    omega
  split
  · obtain ⟨moved, next⟩ := updateHoles_listed listed within
    have sends := sends_segment (only.amd amd) chosen.symm short length (within.trans inside)
    refine ⟨_, _, (holeParts pieces room hole).sum, rfl, ?_, sends, sumPos, within, ?_, ?_⟩
    · rw [payloadSize]
      exact only.trans moved
    · have header : plan.headerSegmentLength =
          pduSegmentHeaderSize ((holeParts pieces room hole).length - 1) := by
        rw [← chosen, partsPlan]
      have none : headerLiLength 0 = 0 := rfl
      rw [Nat.zero_add] at fits
      simp only [header, payloadSize, grant, pduSegmentHeaderSize, pduSegmentHeaderMinSize]
      omega
    · rw [payloadSize]
      exact next
  · exact ⟨pdu', rfl, only, listed⟩

/-- Behind the first of 128 pieces the segment builder gives up. -/
theorem getAmSegment_behind (asks : AsksFor pdu mem pieces (hole :: rest))
    (wide : pieces.length = 128)
    (grant : 5 ≤ nbBytes) (behind : pieces.headD 0 ≤ hole.start) (allocated : Bool) :
    (retransmitGetAmSegment pdu nbBytes allocated).2 = none := by
  have before := asks.ordered.some hole List.mem_cons_self
  have inside := asks.ordered.inside hole List.mem_cons_self
  obtain ⟨pdu', only, -, planned⟩ := planSegment_holes asks nbBytes
  have amd := only.amd asks.amd
  obtain ⟨negative, -⟩ := firstWalk_wide amd wide 0
  rw [if_neg (by rw [negative]; decide), planMany_wide_behind amd wide grant before inside behind]
    at planned
  unfold retransmitGetAmSegment
  rw [asks.amd.block]
  simp only [planned]
  split <;> rfl

end Segment

end OpenAir.Rlc.Am
