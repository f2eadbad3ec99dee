import OpenAir.Rlc.Um.SegmentCut
import OpenAir.Rlc.Um.Segmentation

/-! The second pass of the segmentation: the pieces it takes off the queue, and the bytes that it
writes for them. -/
namespace OpenAir.Rlc.Um
open BitField
open Am (bytesAt bytesAt_add bytesAt_congr copyBytes_inside copyBytes_outside liAt liE
  headerLiLength headerLiLength_mono
  liBytes toggle_li liBytes_next Needed Entries HalfOpen LiWritten entry_congr)

/-- The bytes of an SDU, and those of them that have gone out. -/
def TxSdu.whole (sdu : TxSdu) : List UInt8 := bytesAt sdu.mem 0 sdu.sduSize

def TxSdu.sent (sdu : TxSdu) : List UInt8 := bytesAt sdu.mem 0 sdu.sduSegmentedSize

def backlog (queue : List TxSdu) : Backlog :=
  ⟨(queue.head?.map TxSdu.sent).getD [], queue.map TxSdu.whole⟩

/-- An SDU of 1 to 2047 bytes of which some are still to be sent. -/
structure TxSdu.Waiting (sdu : TxSdu) : Prop where
  total : sdu.sduSegmentedSize + sdu.sduRemainingSize = sdu.sduSize
  remaining : 0 < sdu.sduRemainingSize
  short : sdu.sduSize ≤ 2047

/-- A queue of such SDUs; only the first can be partly sent. -/
structure QueueOk (queue : List TxSdu) : Prop where
  waiting : ∀ sdu ∈ queue, sdu.Waiting
  fresh : ∀ sdu ∈ queue.tail, sdu.sduSegmentedSize = 0

section Queue

variable {sdu : TxSdu} {rest : List TxSdu}

theorem QueueOk.tail (ok : QueueOk (sdu :: rest)) : QueueOk rest where
  waiting := fun other member => ok.waiting other (List.mem_cons_of_mem _ member)
  fresh := fun other member => ok.fresh other (List.mem_of_mem_tail member)

/-- The SDUs behind the first have not been touched. -/
theorem QueueOk.backlog_tail (ok : QueueOk (sdu :: rest)) :
    backlog rest = ⟨[], rest.map TxSdu.whole⟩ := by
  cases rest with
  | nil => rfl
  | cons next rest =>
    have none : next.sent = [] := by
      rw [TxSdu.sent, ok.fresh next List.mem_cons_self]
      rfl
    have head : backlog (next :: rest) = ⟨next.sent, (next :: rest).map TxSdu.whole⟩ := rfl
    rw [head, none]

/-- An SDU is what was sent of it, a piece, and what is left. -/
theorem TxSdu.whole_split (sdu : TxSdu) {size left : Nat}
    (total : sdu.sduSegmentedSize + size + left = sdu.sduSize) :
    sdu.whole = sdu.sent ++ bytesAt sdu.mem sdu.sduSegmentedSize size ++
    bytesAt sdu.mem (sdu.sduSegmentedSize + size) left := by
  rw [TxSdu.whole, ← total, bytesAt_add, bytesAt_add, Nat.zero_add, Nat.zero_add]
  rfl

theorem bytesAt_ne_nil {mem : Memory} {a size : Nat} (some : 0 < size) :
    bytesAt mem a size ≠ [] := by
  intro none
  have length := congrArg List.length none
  rw [Am.bytesAt_length] at length
  exact Nat.ne_of_gt some length

end Queue

/-- The pieces that a second pass takes off the queue, and what it leaves in the PDU from the
`k`-th piece on. -/
structure Filled (s last : SecondPass) (start testNumLi k : Nat) (queue behind : List TxSdu)
    (pieces : List (List UInt8)) :
    Prop where
  cuts : Cuts (backlog queue) pieces (backlog behind)
  sizes : pieces.map List.length = cut s.pduRemainingSize k (queue.map TxSdu.sduRemainingSize)
  ok : QueueOk behind
  remaining : (behind.map TxSdu.sduRemainingSize).sum + pieces.flatten.length =
    (queue.map TxSdu.sduRemainingSize).sum
  occupancy : last.bufferOccupancy = s.bufferOccupancy - pieces.flatten.length
  unused : last.pduRemainingSize = leftOver s.pduRemainingSize k (queue.map TxSdu.sduRemainingSize)
  fiLast : last.fiLast = decide ((backlog behind).sent = [])
  fillNumLi : last.fillNumLi = k + (pieces.length - 1)
  entries : Entries last.mem start testNumLi k (pieces.dropLast.map List.length)
  earlier : ∀ j < k, liAt last.mem start j = liAt s.mem start j ∧ liE last.mem start j =
    liE s.mem start j
  before : ∀ a, start + headerLiLength testNumLi ≤ a → a < s.data → last.mem a = s.mem a
  payload : bytesAt last.mem s.data pieces.flatten.length = pieces.flatten

section Round

variable {testNumLi k : Nat} {sdu : TxSdu} {rest : List TxSdu} {s : SecondPass}

theorem secondPass_opens (opens : s.pduRemainingSize < sdu.sduRemainingSize) :
    secondPass testNumLi (sdu :: rest) s =
      ({ s.copy sdu s.pduRemainingSize with fiLast := false, pduRemainingSize := 0 },
        { sdu with
          sduRemainingSize := sdu.sduRemainingSize - s.pduRemainingSize
          sduSegmentedSize := sdu.sduSegmentedSize + s.pduRemainingSize } :: rest) := by
  rw [secondPass]
  exact if_pos opens

/-- The SDU ends the PDU, and the bytes behind it are not used. -/
theorem secondPass_ends (li : s.liLengthInBytes = 1 + k % 2)
    (ends : sdu.sduRemainingSize ≤ s.pduRemainingSize)
    (short : s.pduRemainingSize ≤ sdu.sduRemainingSize + liBytes k) :
    secondPass testNumLi (sdu :: rest) s =
      ({ s.copy sdu sdu.sduRemainingSize with
          fiLast := true, pduRemainingSize :=
  s.pduRemainingSize - sdu.sduRemainingSize }, rest) := by
  simp only [secondPass, li, toggle_li]
  rw [if_neg (Nat.not_lt.mpr ends)]
  by_cases whole : sdu.sduRemainingSize = s.pduRemainingSize
  · rw [if_pos whole, whole, Nat.sub_self]
  · rw [if_neg whole, if_neg (by omega)]

/-- The state behind an SDU that another piece follows. -/
def SecondPass.next (s : SecondPass) (testNumLi : Nat) (sdu : TxSdu) : SecondPass :=
  let after := (s.copy sdu sdu.sduRemainingSize).writeLi testNumLi sdu.sduRemainingSize
  { after with
    data := after.data + sdu.sduRemainingSize
    pduRemainingSize := after.pduRemainingSize - (sdu.sduRemainingSize + after.liLengthInBytes) }

theorem secondPass_more (li : s.liLengthInBytes = 1 + k % 2)
    (more : sdu.sduRemainingSize + liBytes k < s.pduRemainingSize) :
    secondPass testNumLi (sdu :: rest) s = secondPass testNumLi rest (s.next testNumLi sdu) := by
  simp only [secondPass, li, toggle_li]
  rw [if_neg (by omega), if_neg (by omega), if_pos more]
  rfl

theorem next_fields (li : s.liLengthInBytes = 1 + k % 2) (fill : s.fillNumLi = k) :
    (s.next testNumLi sdu).data = s.data + sdu.sduRemainingSize ∧
    (s.next testNumLi sdu).pduRemainingSize =
    s.pduRemainingSize - (sdu.sduRemainingSize + liBytes k) ∧
    (s.next testNumLi sdu).liLengthInBytes = 1 + (k + 1) % 2 ∧
    (s.next testNumLi sdu).fillNumLi = k + 1 ∧
    (s.next testNumLi sdu).bufferOccupancy = s.bufferOccupancy - sdu.sduRemainingSize := by
  have toggled : s.liLengthInBytes ^^^ 3 = liBytes k := by rw [li, toggle_li]
  simp only [SecondPass.next, SecondPass.writeLi, SecondPass.copy, toggled, fill]
  rw [← liBytes_next]
  split <;> exact ⟨rfl, rfl, rfl, rfl, rfl⟩

theorem next_written {start : Nat} (li : s.liLengthInBytes = 1 + k % 2) (fill : s.fillNumLi = k)
    (place : s.eLi = start + 3 * (k / 2))
    (halfOpen : HalfOpen (s.copy sdu sdu.sduRemainingSize).mem start k)
    (small : sdu.sduRemainingSize < 2048) :
    LiWritten (s.copy sdu sdu.sduRemainingSize).mem (s.next testNumLi sdu).mem start k
      sdu.sduRemainingSize
      (decide (k + 1 ≠ testNumLi)) ∧
    (s.next testNumLi sdu).eLi = start + 3 * ((k + 1) / 2) := by
  have toggled : s.liLengthInBytes ^^^ 3 = liBytes k := by rw [li, toggle_li]
  simp only [SecondPass.next, SecondPass.writeLi, SecondPass.copy, toggled, fill, place]
  obtain ⟨h, rfl | rfl⟩ := Nat.even_or_odd' k
  · have two : liBytes (2 * h) = 2 := by simp only [liBytes]; omega
    rw [show 2 * h / 2 = h by omega]
    simp only [two, if_true]
    exact ⟨Am.setLi_even small, by omega⟩
  · have one : liBytes (2 * h + 1) = 1 := by simp only [liBytes]; omega
    rw [show (2 * h + 1) / 2 = h by omega]
    simp only [one, show ¬ (1 : Nat) = 2 by decide, if_false]
    exact ⟨Am.setLi_odd small halfOpen, by omega⟩

end Round

section Fill

variable {start testNumLi k : Nat} {sdu : TxSdu} {rest behind : List TxSdu} {s last : SecondPass}

theorem filled_last {size : Nat} (apart : start + headerLiLength k ≤ s.data)
    (mem : last.mem = Am.copyBytes s.mem s.data sdu.mem sdu.sduSegmentedSize size)
    (cuts : Cuts (backlog (sdu :: rest)) [bytesAt sdu.mem sdu.sduSegmentedSize size]
      (backlog behind))
    (sizes : cut s.pduRemainingSize k ((sdu :: rest).map TxSdu.sduRemainingSize) = [size])
    (ok : QueueOk behind)
    (remaining : (behind.map TxSdu.sduRemainingSize).sum + size =
      ((sdu :: rest).map TxSdu.sduRemainingSize).sum)
    (occupancy : last.bufferOccupancy = s.bufferOccupancy - size)
    (unused : last.pduRemainingSize =
      leftOver s.pduRemainingSize k ((sdu :: rest).map TxSdu.sduRemainingSize))
    (fiLast : last.fiLast = decide ((backlog behind).sent = [])) (fill : last.fillNumLi = k) :
    Filled s last start testNumLi k (sdu :: rest) behind
      [bytesAt sdu.mem sdu.sduSegmentedSize size] := by
  have kept (a : Nat) (low : a < s.data) : last.mem a = s.mem a := by
    rw [mem]
    exact copyBytes_outside (.inl low)
  have length : [bytesAt sdu.mem sdu.sduSegmentedSize size].flatten.length = size := by
    rw [List.flatten_singleton, Am.bytesAt_length]
  refine ⟨cuts, ?_, ok, ?_, ?_, unused, fiLast, fill, trivial, ?_, fun a _ low => kept a low, ?_⟩
  · rw [sizes, List.map_singleton, Am.bytesAt_length]
  · rw [length]
    exact remaining
  · rw [length]
    exact occupancy
  · intro j inside
    apply entry_congr
    intro a _ upper
    have room := headerLiLength_mono (show j + 1 ≤ k from inside)
    exact kept a (by omega)
  · rw [length, mem, List.flatten_singleton]
    exact copyBytes_inside _ _ _ _ _

theorem filled_opens (ok : QueueOk (sdu :: rest)) (some : 0 < s.pduRemainingSize)
    (opens : s.pduRemainingSize < sdu.sduRemainingSize) (fill : s.fillNumLi = k)
    (apart : start + headerLiLength k ≤ s.data) :
    ∃ pieces, Filled s (secondPass testNumLi (sdu :: rest) s).1 start testNumLi k (sdu :: rest)
      (secondPass testNumLi (sdu :: rest) s).2 pieces := by
  have waiting := ok.waiting sdu List.mem_cons_self
  have total := waiting.total
  obtain ⟨sizes, none⟩ :=
    @cut_last s.pduRemainingSize k sdu.sduRemainingSize (rest.map TxSdu.sduRemainingSize)
      (Nat.le_of_lt opens)
  have split := sdu.whole_split (show sdu.sduSegmentedSize + s.pduRemainingSize +
    (sdu.sduRemainingSize - s.pduRemainingSize) = sdu.sduSize by omega)
  have sent : bytesAt sdu.mem 0 (sdu.sduSegmentedSize + s.pduRemainingSize) =
      sdu.sent ++ bytesAt sdu.mem sdu.sduSegmentedSize s.pduRemainingSize := by
    rw [bytesAt_add, Nat.zero_add]
    rfl
  rw [secondPass_opens opens]
  refine ⟨_, filled_last apart rfl ?_ sizes ⟨?_, ok.fresh⟩ ?_ rfl none.symm ?_ fill⟩
  · have before : backlog (sdu :: rest) = ⟨sdu.sent, sdu.whole :: rest.map TxSdu.whole⟩ := rfl
    have after : backlog ({ sdu with
        sduRemainingSize := sdu.sduRemainingSize - s.pduRemainingSize
        sduSegmentedSize := sdu.sduSegmentedSize + s.pduRemainingSize } :: rest) =
        ⟨bytesAt sdu.mem 0 (sdu.sduSegmentedSize + s.pduRemainingSize),
          sdu.whole :: rest.map TxSdu.whole⟩ := rfl
    rw [before, after, sent, split]
    exact .opens (bytesAt_ne_nil some) (bytesAt_ne_nil (by omega))
  · intro other member
    obtain rfl | later := List.mem_cons.mp member
    · exact ⟨by simp only; omega, by simp only; omega, waiting.short⟩
    · exact ok.waiting other (List.mem_cons_of_mem _ later)
  · simp only [List.map_cons, List.sum_cons]
    omega
  · have open' : bytesAt sdu.mem 0 (sdu.sduSegmentedSize + s.pduRemainingSize) ≠ [] :=
      bytesAt_ne_nil (by omega)
    exact (decide_eq_false open').symm

theorem filled_ends (ok : QueueOk (sdu :: rest)) (li : s.liLengthInBytes = 1 + k % 2)
    (ends : sdu.sduRemainingSize ≤ s.pduRemainingSize)
    (short : s.pduRemainingSize ≤ sdu.sduRemainingSize + liBytes k)
    (fill : s.fillNumLi = k) (apart : start + headerLiLength k ≤ s.data) :
    ∃ pieces, Filled s (secondPass testNumLi (sdu :: rest) s).1 start testNumLi k (sdu :: rest)
      (secondPass testNumLi (sdu :: rest) s).2 pieces := by
  have waiting := ok.waiting sdu List.mem_cons_self
  have total := waiting.total
  have split :=
    sdu.whole_split (show sdu.sduSegmentedSize + sdu.sduRemainingSize + 0 = sdu.sduSize from total)
  have none : bytesAt sdu.mem (sdu.sduSegmentedSize + sdu.sduRemainingSize) 0 = [] := rfl
  have sizes : cut s.pduRemainingSize k ((sdu :: rest).map TxSdu.sduRemainingSize) =
    [sdu.sduRemainingSize] ∧
      leftOver s.pduRemainingSize k ((sdu :: rest).map TxSdu.sduRemainingSize) =
          s.pduRemainingSize - sdu.sduRemainingSize := by
    by_cases whole : s.pduRemainingSize ≤ sdu.sduRemainingSize
    · have same := Nat.le_antisymm whole ends
      have last :=
        @cut_last s.pduRemainingSize k sdu.sduRemainingSize (rest.map TxSdu.sduRemainingSize) whole
      exact ⟨last.1.trans (congrArg (fun size => [size]) same), last.2.trans (by omega)⟩
    · exact cut_short (Nat.not_le.mp whole) short
  rw [secondPass_ends li ends short]
  refine ⟨_, filled_last apart rfl ?_ sizes.1 ok.tail ?_ rfl sizes.2.symm ?_ fill⟩
  · have before : backlog (sdu :: rest) = ⟨sdu.sent, sdu.whole :: rest.map TxSdu.whole⟩ := rfl
    rw [before, ok.backlog_tail, split, none, List.append_nil]
    exact .ends (bytesAt_ne_nil waiting.remaining)
  · rw [List.map_cons, List.sum_cons]
    exact Nat.add_comm _ _
  · rw [ok.backlog_tail]
    rfl

theorem copy_halfOpen {size : Nat} (halfOpen : HalfOpen s.mem start k)
    (apart : start + headerLiLength (k + 1) ≤ s.data) :
    HalfOpen (s.copy sdu size).mem start k := by
  intro odd
  have inside : 3 * (k / 2) + 1 < headerLiLength (k + 1) := by simp only [headerLiLength]; omega
  have kept : (s.copy sdu size).mem (start + 3 * (k / 2) + 1) = s.mem (start + 3 * (k / 2) + 1) :=
    copyBytes_outside (.inl (by omega))
  rw [kept]
  exact halfOpen odd

theorem filled_more {left : List TxSdu} {pieces : List (List UInt8)} (ok : QueueOk (sdu :: rest))
    (li : s.liLengthInBytes = 1 + k % 2) (fill : s.fillNumLi = k)
    (place : s.eLi = start + 3 * (k / 2))
    (halfOpen : HalfOpen s.mem start k)
    (more : sdu.sduRemainingSize + liBytes k < s.pduRemainingSize)
    (count : k + 1 + pieces.length = testNumLi + 1)
    (apart : start + headerLiLength testNumLi ≤ s.data)
    (tail : Filled (s.next testNumLi sdu) last start testNumLi (k + 1) rest left pieces) :
    Filled s last start testNumLi k (sdu :: rest) left
      (bytesAt sdu.mem sdu.sduSegmentedSize sdu.sduRemainingSize :: pieces) := by
  have waiting := ok.waiting sdu List.mem_cons_self
  have total := waiting.total
  have short := waiting.short
  have positive := List.length_pos_iff.mpr tail.cuts.ne_nil
  have room := headerLiLength_mono (show k + 1 ≤ testNumLi by omega)
  obtain ⟨data, left', -, -, occupancy⟩ := @next_fields testNumLi k sdu s li fill
  have copied (a : Nat) (low : a < s.data) : (s.copy sdu sdu.sduRemainingSize).mem a = s.mem a :=
    copyBytes_outside (.inl low)
  obtain ⟨written, -⟩ :=
    @next_written testNumLi k sdu s start li fill place
    (copy_halfOpen halfOpen (by omega)) (by omega)
  have outside (a : Nat) (high : start + headerLiLength testNumLi ≤ a) :
      (s.next testNumLi sdu).mem a = (s.copy sdu sdu.sduRemainingSize).mem a :=
    written.outside a (.inr (by omega))
  have sizes := tail.sizes
  have before := tail.before
  have payload := tail.payload
  rw [left'] at sizes
  rw [data] at before payload
  have length :
    (bytesAt sdu.mem sdu.sduSegmentedSize sdu.sduRemainingSize :: pieces).flatten.length =
      sdu.sduRemainingSize + pieces.flatten.length := by
    rw [List.flatten_cons, List.length_append, Am.bytesAt_length]
  refine ⟨?_, ?_, tail.ok, ?_, ?_, ?_, tail.fiLast, ?_, ?_, ?_, ?_, ?_⟩
  · have split :=
      sdu.whole_split
      (show sdu.sduSegmentedSize + sdu.sduRemainingSize + 0 = sdu.sduSize from total)
    have none : bytesAt sdu.mem (sdu.sduSegmentedSize + sdu.sduRemainingSize) 0 = [] := rfl
    have whole : backlog (sdu :: rest) = ⟨sdu.sent, sdu.whole :: rest.map TxSdu.whole⟩ := rfl
    rw [whole, split, none, List.append_nil]
    exact .next (bytesAt_ne_nil waiting.remaining) (ok.backlog_tail ▸ tail.cuts)
  · rw [List.map_cons, sizes, List.map_cons, (cut_more more).1, Am.bytesAt_length]
  · rw [length, List.map_cons, List.sum_cons, ← tail.remaining]
    omega
  · rw [tail.occupancy, occupancy, length]
    omega
  · rw [tail.unused, left', List.map_cons, (cut_more more).2]
  · rw [tail.fillNumLi, List.length_cons]
    omega
  · rw [List.dropLast_cons_of_ne_nil tail.cuts.ne_nil, List.map_cons, Am.bytesAt_length]
    obtain ⟨value, e⟩ := tail.earlier k (Nat.lt_succ_self k)
    refine ⟨value.trans written.value, e.trans (written.e.trans ?_), tail.entries⟩
    rw [decide_eq_decide]
    omega
  · intro j inside
    obtain ⟨value, e⟩ := tail.earlier j (Nat.lt_succ_of_lt inside)
    obtain ⟨value', e'⟩ := written.earlier j inside
    have same : liAt (s.copy sdu sdu.sduRemainingSize).mem start j = liAt s.mem start j ∧
        liE (s.copy sdu sdu.sduRemainingSize).mem start j = liE s.mem start j := by
      apply entry_congr
      intro a _ upper
      have length := headerLiLength_mono (show j + 1 ≤ testNumLi by omega)
      exact copied a (by omega)
    exact ⟨value.trans (value'.trans same.1), e.trans (e'.trans same.2)⟩
  · intro a high low
    rw [before a high (by omega), outside a high, copied a low]
  · rw [length, bytesAt_add, List.flatten_cons, payload]
    congr 1
    have inside : bytesAt (s.copy sdu sdu.sduRemainingSize).mem s.data sdu.sduRemainingSize =
        bytesAt sdu.mem sdu.sduSegmentedSize sdu.sduRemainingSize := copyBytes_inside _ _ _ _ _
    rw [← inside]
    apply bytesAt_congr
    intro i below
    rw [before _ (by omega) (by omega), outside _ (by omega)]

/-- The second pass on a queue that needs the room it is given. -/
theorem secondPass_filled {queue : List TxSdu} (ok : QueueOk queue) (some : 0 < s.pduRemainingSize)
    (needed : Needed s.pduRemainingSize k (queue.map TxSdu.sduRemainingSize))
    (li : s.liLengthInBytes = 1 + k % 2) (fill : s.fillNumLi = k)
    (place : s.eLi = start + 3 * (k / 2))
    (halfOpen : HalfOpen s.mem start k)
    (count : k +
      (cut s.pduRemainingSize k (queue.map TxSdu.sduRemainingSize)).length = testNumLi + 1)
    (apart : start + headerLiLength testNumLi ≤ s.data) :
    ∃ pieces, Filled s (secondPass testNumLi queue s).1 start testNumLi k queue
        (secondPass testNumLi queue s).2 pieces := by
  induction queue generalizing s k with
  | nil => exact absurd rfl needed.1
  | cons sdu rest ih =>
    have early : start + headerLiLength k ≤ s.data := by
      have positive := List.length_pos_iff.mpr (@cut_ne_nil s.pduRemainingSize k _ needed.1)
      have room := headerLiLength_mono (show k ≤ testNumLi by omega)
      omega
    obtain last | more | ⟨ends, short⟩ := room_cases s.pduRemainingSize k sdu.sduRemainingSize
    · by_cases opens : s.pduRemainingSize < sdu.sduRemainingSize
      · exact filled_opens ok some opens fill early
      · exact filled_ends ok li (Nat.not_lt.mp opens) (by omega) fill early
    · have waiting := ok.waiting sdu List.mem_cons_self
      have total := waiting.total
      have small := waiting.short
      have tail := needed.tail more
      have positive := List.length_pos_iff.mpr
        (@cut_ne_nil (s.pduRemainingSize - (sdu.sduRemainingSize + liBytes k)) (k + 1) _ tail.1)
      rw [List.map_cons, (cut_more more).1, List.length_cons] at count
      have room := headerLiLength_mono (show k + 1 ≤ testNumLi by omega)
      obtain ⟨data, left, li', fill', -⟩ := @next_fields testNumLi k sdu s li fill
      obtain ⟨written, place'⟩ :=
        @next_written testNumLi k sdu s start li fill place
        (copy_halfOpen halfOpen (by omega)) (by omega)
      rw [secondPass_more li more]
      obtain ⟨pieces, filled⟩ := ih (s := s.next testNumLi sdu) (k := k + 1) ok.tail (by omega)
        (by rw [left]; exact tail)
        li' fill' place' written.halfOpen (by rw [left]; omega) (by omega)
      have length := congrArg List.length filled.sizes
      rw [List.length_map, left] at length
      exact ⟨_, filled_more ok li fill place halfOpen more (by omega) apart filled⟩
    · exact filled_ends ok li (Nat.le_of_lt ends) short fill early

end Fill

end OpenAir.Rlc.Um
