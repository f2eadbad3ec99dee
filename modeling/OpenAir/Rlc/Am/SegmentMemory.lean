import OpenAir.Rlc.Am.Reserve
import OpenAir.Rlc.Am.LiEntry

/-! The bytes that the second pass of the segmentation writes: the chain of length
indicators and, behind it, the pieces one after the other. -/
namespace OpenAir.Rlc.Am
open BitField

/-- `size` bytes from an address on. -/
def bytesAt (mem : Memory) (a size : Nat) : List UInt8 := (List.range size).map fun i => mem (a + i)

theorem bytesAt_length (mem : Memory) (a size : Nat) : (bytesAt mem a size).length = size := by
  simp [bytesAt]

theorem bytesAt_add (mem : Memory) (a m n : Nat) :
    bytesAt mem a (m + n) = bytesAt mem a m ++ bytesAt mem (a + m) n := by
  simp only [bytesAt, List.range_add, List.map_append, List.map_map, List.append_cancel_left_eq]
  apply List.map_congr_left
  intro i _
  simp [Nat.add_assoc]

theorem bytesAt_congr {mem mem' : Memory} {a a' size : Nat}
    (same : ∀ i < size, mem (a + i) = mem' (a' + i)) :
    bytesAt mem a size = bytesAt mem' a' size :=
  List.map_congr_left fun i inside => same i (List.mem_range.mp inside)

theorem copyBytes_inside (mem source : Memory) (dest start size : Nat) :
    bytesAt (copyBytes mem dest source start size) dest size = bytesAt source start size := by
  apply bytesAt_congr
  intro i inside
  rw [copyBytes, if_pos (by omega), Nat.add_sub_cancel_left]

theorem copyBytes_outside {mem source : Memory} {dest start size a : Nat}
    (away : a < dest ∨ dest + size ≤ a) :
    copyBytes mem dest source start size a = mem a := by
  rw [copyBytes, if_neg (by omega)]

theorem setByte_same (mem : Memory) (a x : Nat) : setByte mem a x a = UInt8.ofNat x := by
  simp [setByte]

theorem setByte_other {mem : Memory} {a b : Nat} (x : Nat) (other : b ≠ a) :
    setByte mem a x b = mem b := by
  simp [setByte, other]

def TxSdu.bytes (sdu : TxSdu) (size : Nat) : List UInt8 :=
  bytesAt (sdu.memBlock.getD fun _ => 0) sdu.sduSegmentedSize size

theorem or_eq_add {x y i : Nat} (small : y < 2 ^ i) (clear : x % 2 ^ i = 0) : x ||| y = x + y := by
  have shifted : x = (x / 2 ^ i) <<< i := by
    rw [Nat.shiftLeft_eq, Nat.div_mul_cancel (Nat.dvd_of_mod_eq_zero clear)]
  rw [shifted, Nat.shiftLeft_add_eq_or_of_lt small]

section WriteLi

variable {mem : Memory} {start h size fill total : Nat}

/-- The bytes of an even entry, `fill` entries of `total` being written with it. -/
theorem setLi_even (small : size < 2048) :
    LiWritten mem
      (setByte (setByte mem (start + 3 * h) ((if fill = total then 0 else 0x80) ||| (size >>> 4)))
      (start + 3 * h + 1) (size <<< 4)) start (2 * h) size (decide (fill ≠ total)) := by
  refine liWritten_even small ?_ ?_ ?_
  · rw [setByte_other _ (by omega), setByte_same, UInt8.toNat_ofNat', Nat.shiftRight_eq_div_pow]
    by_cases last : fill = total
    · simp only [last, if_true, Nat.zero_or, ne_eq, not_true_eq_false, decide_false,
        Bool.false_eq_true, if_false]
      omega
    · simp only [last, if_false, ne_eq, not_false_eq_true, decide_true, if_true]
      rw [or_eq_add (show size / 2 ^ 4 < 2 ^ 7 by omega) (by decide)]
      omega
  · rw [setByte_same, UInt8.toNat_ofNat', Nat.shiftLeft_eq]
    omega
  · intro a first second
    rw [setByte_other _ second, setByte_other _ first]

theorem setLi_odd (small : size < 2048) (halfOpen : HalfOpen mem start (2 * h + 1)) :
    LiWritten mem (setByte (setByte mem (start + 3 * h + 1)
      ((if fill ≠ total then (mem (start + 3 * h + 1)).toNat ||| 0x08
        else (mem (start + 3 * h + 1)).toNat) |||
        (size >>> 8))) (start + 3 * h + 2) (size &&& 0xFF)) start (2 * h + 1) size
          (decide (fill ≠ total)) := by
  have clear : (mem (start + 3 * h + 1)).toNat % 16 = 0 := by
    have open' := halfOpen (by omega)
    rwa [show (2 * h + 1) / 2 = h by omega] at open'
  have byte := UInt8.toNat_lt (mem (start + 3 * h + 1))
  refine liWritten_odd small halfOpen ?_ ?_ ?_
  · rw [setByte_other _ (by omega), setByte_same, UInt8.toNat_ofNat', Nat.shiftRight_eq_div_pow]
    by_cases last : fill = total
    · simp only [last, ne_eq, not_true_eq_false, if_false, decide_false, Bool.false_eq_true]
      rw [or_eq_add (show size / 2 ^ 8 < 2 ^ 3 by omega) (by omega)]
      omega
    · simp only [last, ne_eq, not_false_eq_true, if_true, decide_true]
      rw [or_eq_add (show 0x08 < 2 ^ 4 by decide) clear,
        or_eq_add (show size / 2 ^ 8 < 2 ^ 3 by omega) (by omega)]
      omega
  · rw [setByte_same, UInt8.toNat_ofNat', show (0xFF : Nat) = 2 ^ 8 - 1 by
      rfl, Nat.and_two_pow_sub_one_eq_mod]
    omega
  · intro a first second
    rw [setByte_other _ second, setByte_other _ first]

variable {s : SecondPass} {testNumLi k : Nat}

/-- The indicator that a round writes is the next entry of the chain. -/
theorem writeLi_written (li : s.liLengthInBytes = 1 + k % 2) (fill : s.fillNumLi = k)
    (place : s.eLi = 2 + 3 * (k / 2))
    (halfOpen : HalfOpen s.mem 2 k) (small : size < 2048) :
    LiWritten s.mem (s.writeLi testNumLi size).mem 2 k size (decide (k + 1 ≠ testNumLi)) ∧
    (s.writeLi testNumLi size).eLi = 2 + 3 * ((k + 1) / 2) := by
  unfold SecondPass.writeLi
  simp only [li, toggle_li, fill]
  rcases Nat.even_or_odd' k with ⟨h, rfl | rfl⟩
  · have two : liBytes (2 * h) = 2 := by simp only [liBytes]; omega
    rw [show 2 * h / 2 = h by omega] at place
    simp only [two, if_true, place]
    exact ⟨setLi_even small, by omega⟩
  · have one : liBytes (2 * h + 1) = 1 := by simp only [liBytes]; omega
    rw [show (2 * h + 1) / 2 = h by omega] at place
    simp only [one, show ¬ (1 : Nat) = 2 by decide, if_false, place]
    exact ⟨setLi_odd small halfOpen, by omega⟩

end WriteLi

/-- What the rest of the second pass leaves in the PDU, from the `k`-th piece on. -/
structure PduWritten (s last : SecondPass) (queue : List TxSdu) (pieces : List Nat)
    (testNumLi k : Nat) : Prop where
  entries : Entries last.mem 2 testNumLi k pieces.dropLast
  earlier : ∀ j < k, liAt last.mem 2 j = liAt s.mem 2 j ∧ liE last.mem 2 j = liE s.mem 2 j
  fixed : ∀ a < 2, last.mem a = s.mem a
  before : ∀ a, 2 + headerLiLength testNumLi ≤ a → a < s.data → last.mem a = s.mem a
  payload : bytesAt last.mem s.data pieces.sum = (List.zipWith TxSdu.bytes queue pieces).flatten

theorem secondPass_written {testNumLi rounds k : Nat} {queue : List TxSdu} {s : SecondPass}
    (holding : Holding s.tx queue) (running : s.continueFill = true) (fill : s.fillNumLi = k)
    (li : s.liLengthInBytes = 1 + k % 2) (below : k < maxSduInPdu)
    (enough : rounds + k = maxSduInPdu)
    (place : s.eLi = 2 + 3 * (k / 2)) (halfOpen : HalfOpen s.mem 2 k)
    (fits : Exact s.pduRemainingSize k (queue.map TxSdu.sduRemainingSize))
    (count : k +
      (cut s.pduRemainingSize k (queue.map TxSdu.sduRemainingSize)).length = testNumLi + 1)
    (apart : 2 + headerLiLength testNumLi ≤ s.data) :
    PduWritten s (secondPass testNumLi rounds s) queue
      (cut s.pduRemainingSize k (queue.map TxSdu.sduRemainingSize)) testNumLi k := by
  induction queue generalizing s k rounds with
  | nil => exact fits.elim
  | cons sdu rest ih =>
    have waiting := holding.waiting sdu List.mem_cons_self
    obtain ⟨bytes, block⟩ := Option.isSome_iff_exists.mp waiting.block
    cases rounds with
    | zero => omega
    | succ rounds =>
      have round : secondPass testNumLi (rounds + 1) s =
          secondPass testNumLi rounds (s.fill testNumLi bytes) := by
        rw [secondPass, holding.head, block]
        simp only [running, if_true]
      rw [round]
      rcases fits with last | ⟨more, few, tail⟩
      · obtain ⟨final, -, mem⟩ := @fill_fits s sdu rest bytes testNumLi holding last
        have pieces : cut s.pduRemainingSize k ((sdu :: rest).map TxSdu.sduRemainingSize) =
            [s.pduRemainingSize] := by
          rw [List.map_cons, cut, if_pos last]
        rw [pieces] at count ⊢
        rw [secondPass_stopped final.stopped]
        have kept (a : Nat) (low : a < s.data) : (s.fill testNumLi bytes).mem a = s.mem a := by
          rw [mem, copyBytes_outside (Or.inl low)]
        refine ⟨trivial, fun j inside => entry_congr fun a _ upper => ?_, ?_, ?_, ?_⟩
        · have length :=
            headerLiLength_mono
            (show j + 1 ≤ testNumLi by simp only [List.length_singleton] at count; omega)
          exact kept a (by omega)
        · exact fun a low => kept a (by omega)
        · exact fun a _ low => kept a low
        · simp only [List.sum_singleton, List.zipWith_cons_cons, List.zipWith_nil_right,
            List.flatten_cons, List.flatten_nil, List.append_nil, TxSdu.bytes, block,
              Option.getD_some]
          rw [mem, copyBytes_inside]
      · obtain ⟨next, mem, eLi⟩ := @fill_more s sdu rest bytes testNumLi k holding fill li more few
        have pieces : cut s.pduRemainingSize k ((sdu :: rest).map TxSdu.sduRemainingSize) =
          sdu.sduRemainingSize ::
            cut (s.pduRemainingSize - (sdu.sduRemainingSize + liBytes k)) (k + 1)
              (rest.map TxSdu.sduRemainingSize) := by
          rw [List.map_cons, cut, if_neg (by omega), if_pos ⟨more, few⟩]
        have some : cut (s.pduRemainingSize - (sdu.sduRemainingSize + liBytes k)) (k + 1)
            (rest.map TxSdu.sduRemainingSize) ≠ [] := by
          refine cut_ne_nil ?_
          cases rest with
          | nil => exact tail.elim
          | cons next rest => exact List.cons_ne_nil _ _
        have length := List.length_pos_iff.mpr some
        rw [pieces, List.length_cons] at count
        have room := headerLiLength_mono (show k + 1 ≤ testNumLi by omega)
        have copied (a : Nat) (low : a < s.data) :
            (s.copy bytes sdu.sduRemainingSize).mem a = s.mem a :=
          copyBytes_outside (Or.inl low)
        have open' : HalfOpen (s.copy bytes sdu.sduRemainingSize).mem 2 k := by
          intro odd
          have inside : 3 * (k / 2) + 1 < headerLiLength (k + 1) := by
            simp only [headerLiLength]; omega
          rw [copied _ (by omega)]
          exact halfOpen odd
        obtain ⟨written, moved⟩ :=
          @writeLi_written sdu.sduRemainingSize (s.copy bytes sdu.sduRemainingSize) testNumLi
          k li fill place open' (by have := waiting.total; have := waiting.short; omega)
        rw [← mem] at written
        have tailWritten :=
          @ih rounds (k + 1) _ (holding.tail next.taken) (next.running.trans running) next.fillNumLi
          next.liLengthInBytes (by simp only [maxSduInPdu] at few ⊢; omega) (by omega)
            (eLi.trans moved) written.halfOpen
          (by rw [next.pduRemainingSize]; exact tail) (by rw [next.pduRemainingSize]; omega)
          (by rw [next.data]; omega)
        rw [next.pduRemainingSize] at tailWritten
        obtain ⟨entries, earlier, fixed, before, payload⟩ := tailWritten
        rw [next.data] at before payload
        rw [pieces]
        have outside (a : Nat) (high : 2 + headerLiLength testNumLi ≤ a) :
            (s.fill testNumLi bytes).mem a = (s.copy bytes sdu.sduRemainingSize).mem a :=
          written.outside a (Or.inr (by omega))
        refine ⟨?_, ?_, ?_, ?_, ?_⟩
        · rw [List.dropLast_cons_of_ne_nil some]
          obtain ⟨value, e⟩ := earlier k (Nat.lt_succ_self k)
          refine ⟨value.trans written.value, e.trans (written.e.trans ?_), entries⟩
          rw [decide_eq_decide]
          omega
        · intro j inside
          obtain ⟨value, e⟩ := earlier j (by omega)
          obtain ⟨value', e'⟩ := written.earlier j inside
          obtain ⟨value'', e''⟩ := @entry_congr s.mem (s.copy bytes sdu.sduRemainingSize).mem 2 j
              fun a _ upper => by
            have length := headerLiLength_mono (show j + 1 ≤ testNumLi by omega)
            exact copied a (by omega)
          exact ⟨value.trans (value'.trans value''), e.trans (e'.trans e'')⟩
        · intro a low
          rw [fixed a low, written.outside a (Or.inl low), copied a (by omega)]
        · intro a high low
          rw [before a high (by omega), outside a high, copied a low]
        · rw [List.sum_cons, bytesAt_add, List.zipWith_cons_cons, List.flatten_cons, payload]
          congr 1
          rw [TxSdu.bytes, block, Option.getD_some,
            ← copyBytes_inside s.mem bytes s.data sdu.sduSegmentedSize]
          apply bytesAt_congr
          intro i inside
          rw [before _ (by omega) (by omega), outside _ (by omega)]
          simp [SecondPass.copy, holding.head]

end OpenAir.Rlc.Am
