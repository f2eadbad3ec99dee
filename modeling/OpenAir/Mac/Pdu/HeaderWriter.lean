import OpenAir.Mac.Pdu.Subheader
import Mathlib.Logic.Function.Basic

/-! How both generators write a header: the subheader at `mac_header_ptr` is the last one
until another follows; then its extension bit is set and the pointer moves on. -/
namespace OpenAir.Mac.Pdu
open BitField (Memory)

/-- `R = 0; E = 0; LCID = lcid` -/
def fixedByte (lcid : Nat) : UInt8 := UInt8.ofNat (lcid % 32)

/-- `E = 1` -/
def setE (byte : UInt8) : UInt8 := UInt8.ofNat (byte.toNat % 32 + 32 + byte.toNat / 64 * 64)

def putFixed (mem : Memory) (a lcid : Nat) : Memory := Function.update mem a (fixedByte lcid)

def putShort (mem : Memory) (a lcid length : Nat) : Memory :=
  Function.update (putFixed mem a lcid) (a + 1) (UInt8.ofNat (length % 128))

/-- `SCH_SUBHEADER_LONG` has a fourth byte, which is cleared. -/
def putLong (mem : Memory) (a lcid length : Nat) : Memory :=
  Function.update
    (Function.update
      (Function.update (putFixed mem a lcid) (a + 1) (UInt8.ofNat (length / 256 % 128 + 128)))
      (a + 2) (UInt8.ofNat (length % 256)))
    (a + 3) 0

/-- `memcpy` -/
def copyTo (mem : Memory) (a : Nat) (bytes : List UInt8) : Memory :=
  fun i => if a ≤ i ∧ i < a + bytes.length then bytes.getD (i - a) 0 else mem i

structure Writer where
  mem : Memory
  /-- `mac_header_ptr - mac_header` -/
  ptr : Nat
  /-- `first_element > 0` -/
  first : Bool
  lastSize : Nat
  /-- `mac_header_control_elements`, up to `ce_ptr`. -/
  ces : List UInt8

def Writer.start (buffer : Memory) : Writer where
  mem := buffer
  ptr := 0
  first := false
  lastSize := 0
  ces := []

/-- Another subheader follows the one at the pointer, when there is one. -/
def Writer.advance (w : Writer) (size : Nat) : Writer :=
  if w.first then
    { w with mem := Function.update w.mem w.ptr (setE (w.mem w.ptr)), ptr := w.ptr + size }
  else { w with first := true }

/-- A subheader of one byte, and the bytes of its control element. -/
def Writer.element (w : Writer) (lcid : Nat) (bytes : List UInt8) : Writer :=
  let w := w.advance 1
  { w with mem := putFixed w.mem w.ptr lcid, lastSize := 1, ces := w.ces ++ bytes }

def Writer.sdu (w : Writer) (lcid length : Nat) : Writer :=
  let w := w.advance w.lastSize
  if length < 128 then { w with mem := putShort w.mem w.ptr lcid length, lastSize := 2 }
  else { w with mem := putLong w.mem w.ptr lcid length, lastSize := 3 }

def Writer.elements (w : Writer) (list : List (Nat × List UInt8)) : Writer :=
  list.foldl (fun w ce => w.element ce.1 ce.2) w

def Writer.sdus (w : Writer) (list : List (Nat × Nat)) : Writer :=
  list.foldl (fun w sdu => w.sdu sdu.1 sdu.2) w

/-- The last subheader without a length; `last_size` stays as it is. -/
def Writer.lastSdu (w : Writer) (lcid : Nat) : Writer :=
  let w := w.advance w.lastSize
  { w with mem := putFixed w.mem w.ptr lcid }

/-- One or two subheaders for as many bytes of padding. -/
def Writer.shortPadding (w : Writer) (shortPadding : Nat) : Writer :=
  let w := if shortPadding = 1 ∨ shortPadding = 2 then w.element 31 [] else w
  if shortPadding = 2 then w.element 31 [] else w

/-- The end of the subheaders, and the control elements behind them; with the length so far. -/
def Writer.finish (w : Writer) (postPadding : Nat) : Memory × Nat :=
  if 0 < postPadding then
    let mem := putFixed (Function.update w.mem w.ptr (setE (w.mem w.ptr))) (w.ptr + w.lastSize) 31
    (copyTo mem (w.ptr + w.lastSize + 1) w.ces, w.ptr + w.lastSize + 1 + w.ces.length)
  else
    (copyTo w.mem (w.ptr + 1) w.ces, w.ptr + 1 + w.ces.length)

section Bytes

theorem toNat_ofNat_lt {n : Nat} (small : n < 256) : (UInt8.ofNat n).toNat = n := by
  rw [UInt8.toNat_ofNat']
  exact Nat.mod_eq_of_lt small

theorem fixedByte_toNat (lcid : Nat) : (fixedByte lcid).toNat = lcid % 32 :=
  toNat_ofNat_lt (Nat.lt_trans (Nat.mod_lt _ (by decide)) (by decide))

theorem lcidOf_fixedByte {lcid : Nat} (small : lcid < 32) : lcidOf (fixedByte lcid) = lcid := by
  rw [lcidOf, fixedByte_toNat, Nat.mod_mod, Nat.mod_eq_of_lt small]

theorem extended_fixedByte (lcid : Nat) : extended (fixedByte lcid) = false := by
  rw [extended, fixedByte_toNat, Nat.div_eq_of_lt (Nat.mod_lt _ (by decide))]
  rfl

theorem setE_toNat (byte : UInt8) (clear : extended byte = false) :
    (setE byte).toNat = byte.toNat + 32 := by
  have small := byte.toNat_lt
  have bit : byte.toNat / 32 % 2 ≠ 1 := by simpa [extended] using clear
  rw [setE, toNat_ofNat_lt (by omega)]
  omega

theorem extended_setE {byte : UInt8} (clear : extended byte = false) :
    extended (setE byte) = true := by
  have bit : byte.toNat / 32 % 2 ≠ 1 := by simpa [extended] using clear
  rw [extended, setE_toNat byte clear, beq_iff_eq]
  omega

theorem lcidOf_setE {byte : UInt8} (clear : extended byte = false) :
    lcidOf (setE byte) = lcidOf byte := by
  rw [lcidOf, lcidOf, setE_toNat byte clear]
  omega

end Bytes

section Invariant

variable {sduBelow : Nat} {w : Writer} {items front : List Item} {last : Item} {mem : Memory}
    {a lcid length : Nat}

/-- The subheader of an SDU: the length of a long one is cut to 15 bits. -/
def sduItem (lcid length : Nat) : Item :=
  if length < 128 then .sdu lcid length false else .sdu lcid (length % 32768) true

def elementItem (lcid : Nat) : Item := if lcid = Pdu.shortPadding then .padding else .ce lcid

theorem elementItem_size (lcid : Nat) : (elementItem lcid).size = 1 := by
  unfold elementItem
  split <;> rfl

/-- The subheader at the pointer is the last of those written. -/
structure Writer.At (sduBelow : Nat) (w : Writer) (front : List Item) (last : Item) : Prop where
  first : w.first = true
  chain : Subheaders sduBelow w.mem 0 front w.ptr
  ends : extended (w.mem w.ptr) = false
  item : itemAt sduBelow w.mem w.ptr = last
  size : w.lastSize = last.size

def Writer.Wrote (sduBelow : Nat) (w : Writer) (items : List Item) : Prop :=
  (items = [] ∧ w.first = false ∧ w.ptr = 0 ∧ w.lastSize = 0) ∨
    ∃ front last, items = front ++ [last] ∧ w.At sduBelow front last

theorem itemAt_setE (clear : extended (mem a) = false) :
    itemAt sduBelow (Function.update mem a (setE (mem a))) a = itemAt sduBelow mem a := by
  have second : Function.update mem a (setE (mem a)) (a + 1) = mem (a + 1) :=
    Function.update_of_ne (Nat.ne_of_gt (Nat.lt_succ_self a)) _ _
  have third : Function.update mem a (setE (mem a)) (a + 2) = mem (a + 2) :=
    Function.update_of_ne (Nat.ne_of_gt (Nat.lt_add_of_pos_right (by decide))) _ _
  simp only [itemAt, Function.update_self, lcidOf_setE clear, second, third]

/-- The chain once the extension bit of the last subheader is set. -/
theorem Writer.At.extend (held : w.At sduBelow front last) :
    Subheaders sduBelow (Function.update w.mem w.ptr (setE (w.mem w.ptr))) 0 (front ++ [last])
      (w.ptr + w.lastSize) := by
  have before : Subheaders sduBelow (Function.update w.mem w.ptr (setE (w.mem w.ptr)))
      0 front w.ptr :=
    held.chain.congr fun i _ upper => Function.update_of_ne (Nat.ne_of_lt upper) _ _
  refine before.append ⟨?_, ?_, ?_⟩
  · rw [Function.update_self]
    exact extended_setE held.ends
  · rw [itemAt_setE held.ends]
    exact held.item
  · rw [held.size]
    rfl

theorem Writer.Wrote.advance {size : Nat} (wrote : w.Wrote sduBelow items)
    (step : items ≠ [] → size = w.lastSize) :
    Subheaders sduBelow (w.advance size).mem 0 items (w.advance size).ptr ∧
    (w.advance size).first = true := by
  obtain ⟨rfl, first, ptr, -⟩ | ⟨front, last, rfl, held⟩ := wrote
  · rw [Writer.advance, first]
    exact ⟨ptr.symm, rfl⟩
  · rw [step (List.append_ne_nil_of_right_ne_nil _ (List.cons_ne_nil _ _)), Writer.advance,
      if_pos held.first]
    exact ⟨held.extend, held.first⟩

theorem Writer.Wrote.put {w' : Writer} (chain : Subheaders sduBelow w.mem 0 items w.ptr)
    (first : w'.first = true)
    (place : w'.ptr = w.ptr) (below : ∀ i < w.ptr, w'.mem i = w.mem i)
    (ends : extended (w'.mem w.ptr) = false)
    (item : itemAt sduBelow w'.mem w.ptr = last) (size : w'.lastSize = last.size) :
    w'.Wrote sduBelow (items ++ [last]) := by
  refine .inr ⟨items, last, rfl, first, ?_, place ▸ ends, place ▸ item, size⟩
  rw [place]
  exact chain.congr fun i _ upper => below i upper

theorem itemAt_element (byte : mem a = fixedByte lcid) (small : lcid < 32)
    (element : sduBelow ≤ lcid) :
    itemAt sduBelow mem a = elementItem lcid := by
  rw [itemAt, byte, lcidOf_fixedByte small, if_neg (Nat.not_lt.mpr element)]
  rfl

theorem Writer.Wrote.element (wrote : w.Wrote sduBelow items) (single : items ≠ [] → w.lastSize = 1)
    (small : lcid < 32)
    (element : sduBelow ≤ lcid) (bytes : List UInt8) :
    (w.element lcid bytes).Wrote sduBelow (items ++ [elementItem lcid]) := by
  obtain ⟨chain, first⟩ := wrote.advance fun some => (single some).symm
  have byte : (w.element lcid bytes).mem (w.advance 1).ptr = fixedByte lcid :=
    Function.update_self ..
  refine Writer.Wrote.put (w := w.advance 1) chain first rfl ?_ ?_
    (itemAt_element byte small element)
    (elementItem_size lcid).symm
  · intro i below
    exact Function.update_of_ne (Nat.ne_of_lt below) _ _
  · rw [byte]
    exact extended_fixedByte lcid

theorem itemAt_short (byte : mem a = fixedByte lcid) (small : lcid < 32) (sdu : lcid < sduBelow)
    (short : length < 128)
    (second : mem (a + 1) = UInt8.ofNat (length % 128)) :
    itemAt sduBelow mem a = sduItem lcid length := by
  have value : (mem (a + 1)).toNat = length := by
    rw [second, Nat.mod_eq_of_lt short, toNat_ofNat_lt (Nat.lt_trans short (by decide))]
  have form : longFormat (mem (a + 1)) = false := by
    rw [longFormat, value, Nat.div_eq_of_lt short]
    rfl
  rw [itemAt, byte, lcidOf_fixedByte small, if_pos sdu, form, if_neg Bool.false_ne_true,
    lengthBits, value, Nat.mod_eq_of_lt short, sduItem, if_pos short]

theorem itemAt_long (byte : mem a = fixedByte lcid) (small : lcid < 32) (sdu : lcid < sduBelow)
    (long : ¬ length < 128)
    (second : mem (a + 1) = UInt8.ofNat (length / 256 % 128 + 128))
    (third : mem (a + 2) = UInt8.ofNat (length % 256)) :
    itemAt sduBelow mem a = sduItem lcid length := by
  have high : (mem (a + 1)).toNat = length / 256 % 128 + 128 := by
    rw [second, toNat_ofNat_lt (by omega)]
  have low : (mem (a + 2)).toNat = length % 256 := by
    rw [third, toNat_ofNat_lt (Nat.mod_lt _ (by decide))]
  have form : longFormat (mem (a + 1)) = true := by
    rw [longFormat, high, beq_iff_eq]
    omega
  have value : lengthBits (mem (a + 1)) * 256 + (mem (a + 2)).toNat = length % 32768 := by
    rw [lengthBits, high, low]
    omega
  rw [itemAt, byte, lcidOf_fixedByte small, if_pos sdu, if_pos form, value, sduItem, if_neg long]

theorem Writer.Wrote.sdu (wrote : w.Wrote sduBelow items) (small : sduBelow ≤ 32)
    (sdu : lcid < sduBelow) (length : Nat) :
    (w.sdu lcid length).Wrote sduBelow (items ++ [sduItem lcid length]) := by
  obtain ⟨chain, first⟩ := wrote.advance fun _ => rfl
  have lcidSmall : lcid < 32 := Nat.lt_of_lt_of_le sdu small
  generalize base : w.advance w.lastSize = v at chain first
  rw [Writer.sdu, base]
  by_cases short : length < 128
  · have byte : putShort v.mem v.ptr lcid length v.ptr = fixedByte lcid := by
      simp [putShort, putFixed]
    rw [if_pos short]
    refine Writer.Wrote.put (w := v) chain first rfl ?_ ?_
      (itemAt_short byte lcidSmall sdu short ?_) ?_
    · intro i below
      have apart : i ≠ v.ptr + 1 := Nat.ne_of_lt (Nat.lt_succ_of_lt below)
      simp only [putShort, putFixed, Function.update_of_ne apart,
        Function.update_of_ne (Nat.ne_of_lt below)]
    · exact (congrArg extended byte).trans (extended_fixedByte lcid)
    · exact Function.update_self ..
    · rw [sduItem, if_pos short]
      rfl
  · have byte : putLong v.mem v.ptr lcid length v.ptr = fixedByte lcid := by
      simp [putLong, putFixed]
    rw [if_neg short]
    refine Writer.Wrote.put (w := v) chain first rfl ?_ ?_
      (itemAt_long byte lcidSmall sdu short ?_ ?_) ?_
    · intro i below
      have apart (k : Nat) : i ≠ v.ptr + k :=
        Nat.ne_of_lt (Nat.lt_of_lt_of_le below (Nat.le_add_right ..))
      simp only [putLong, putFixed, Function.update_of_ne (apart _),
        Function.update_of_ne (Nat.ne_of_lt below)]
    · exact (congrArg extended byte).trans (extended_fixedByte lcid)
    · simp [putLong]
    · simp [putLong]
    · rw [sduItem, if_neg short]
      rfl

theorem Writer.start_wrote (buffer : Memory) : (Writer.start buffer).Wrote sduBelow [] :=
  .inl ⟨rfl, rfl, rfl, rfl⟩

theorem copyTo_below {bytes : List UInt8} {i : Nat} (below : i < a) :
    copyTo mem a bytes i = mem i :=
  if_neg fun inside => Nat.not_lt.mpr inside.1 below

theorem copyTo_inside {bytes : List UInt8} {k : Nat} (inside : k < bytes.length) :
    copyTo mem a bytes (a + k) = bytes.getD k 0 := by
  rw [copyTo, if_pos ⟨Nat.le_add_right .., Nat.add_lt_add_left inside a⟩, Nat.add_sub_cancel_left]

theorem Writer.Wrote.finish_padded (wrote : w.Wrote sduBelow items) (padding : sduBelow ≤ 31)
    {postPadding : Nat}
    (padded : 0 < postPadding) :
    HeaderAt sduBelow (w.finish postPadding).1 items .padding (w.ptr + w.lastSize) ∧
      (w.finish postPadding).2 = w.ptr + w.lastSize + 1 + w.ces.length ∧
      ∀ k < w.ces.length, (w.finish postPadding).1 (w.ptr + w.lastSize + 1 + k) =
        w.ces.getD k 0 := by
  rw [Writer.finish, if_pos padded]
  refine ⟨?_, rfl, fun k inside => copyTo_inside inside⟩
  have chain : Subheaders sduBelow (Function.update w.mem w.ptr (setE (w.mem w.ptr))) 0 items
      (w.ptr + w.lastSize) := by
    obtain ⟨rfl, -, ptr, size⟩ | ⟨front, last, rfl, held⟩ := wrote
    · rw [ptr, size]
      rfl
    · exact held.extend
  have byte : copyTo
    (putFixed (Function.update w.mem w.ptr (setE (w.mem w.ptr))) (w.ptr + w.lastSize) 31)
      (w.ptr + w.lastSize + 1) w.ces (w.ptr + w.lastSize) = fixedByte 31 := by
    rw [copyTo_below (Nat.lt_succ_self _)]
    exact Function.update_self ..
  refine ⟨chain.congr fun i _ upper => ?_, (congrArg extended byte).trans (extended_fixedByte 31),
    congrArg Item.fixed (itemAt_element byte (by decide) padding)⟩
  exact (copyTo_below (Nat.lt_succ_of_lt upper)).trans
    (Function.update_of_ne (Nat.ne_of_lt upper) _ _)

/-- Without padding at the end, the last subheader shrinks to one byte. -/
theorem Writer.finish_header (header : HeaderAt sduBelow w.mem front last w.ptr) :
    HeaderAt sduBelow (w.finish 0).1 front last w.ptr ∧ (w.finish 0).2 = w.ptr + 1 + w.ces.length ∧
      ∀ k < w.ces.length, (w.finish 0).1 (w.ptr + 1 + k) = w.ces.getD k 0 := by
  refine ⟨header.congr fun i upper => ?_, rfl, fun k inside => copyTo_inside inside⟩
  exact copyTo_below (Nat.lt_succ_of_le upper)

theorem Writer.At.header (held : w.At sduBelow front last) :
    HeaderAt sduBelow w.mem front last w.ptr :=
  ⟨held.chain, held.ends, congrArg Item.fixed held.item⟩

@[simp] theorem Writer.advance_ces (size : Nat) : (w.advance size).ces = w.ces := by
  unfold Writer.advance
  split <;> rfl

@[simp] theorem Writer.element_ces (bytes : List UInt8) : (w.element lcid bytes).ces =
    w.ces ++ bytes := by
  simp [Writer.element]

@[simp] theorem Writer.element_lastSize (bytes : List UInt8) :
    (w.element lcid bytes).lastSize = 1 := rfl

@[simp] theorem Writer.lastSdu_ces : (w.lastSdu lcid).ces = w.ces := by simp [Writer.lastSdu]

@[simp] theorem Writer.sdu_ces (length : Nat) : (w.sdu lcid length).ces = w.ces := by
  unfold Writer.sdu
  split <;> simp

theorem Writer.Wrote.elements {list : List (Nat × List UInt8)} (wrote : w.Wrote sduBelow items)
    (single : items ≠ [] → w.lastSize = 1) (valid : ∀ ce ∈ list, sduBelow ≤ ce.1 ∧ ce.1 < 31) :
    (w.elements list).Wrote sduBelow (items ++ list.map fun ce => .ce ce.1) ∧
      (w.elements list).ces = w.ces ++ (list.map Prod.snd).flatten := by
  induction list generalizing w items with
  | nil =>
    simp only [List.map_nil, List.append_nil, List.flatten_nil]
    exact ⟨wrote, rfl⟩
  | cons ce rest ih =>
    obtain ⟨lower, upper⟩ := valid ce List.mem_cons_self
    have step := wrote.element single (Nat.lt_succ_of_lt upper) lower ce.2
    rw [elementItem, if_neg (Nat.ne_of_lt upper)] at step
    obtain ⟨done, bytes⟩ :=
      ih step (fun _ => rfl) fun other member => valid other (List.mem_cons_of_mem _ member)
    refine ⟨?_, ?_⟩
    · rw [List.map_cons, List.append_cons]
      exact done
    · rw [List.map_cons, List.flatten_cons, ← List.append_assoc, ← Writer.element_ces]
      exact bytes

theorem Writer.Wrote.sdus {list : List (Nat × Nat)} (wrote : w.Wrote sduBelow items)
    (small : sduBelow ≤ 32)
    (valid : ∀ sdu ∈ list, sdu.1 < sduBelow) :
    (w.sdus list).Wrote sduBelow (items ++ list.map fun sdu => sduItem sdu.1 sdu.2) ∧
    (w.sdus list).ces = w.ces := by
  induction list generalizing w items with
  | nil =>
    simp only [List.map_nil, List.append_nil]
    exact ⟨wrote, rfl⟩
  | cons sdu rest ih =>
    have step := wrote.sdu small (valid sdu List.mem_cons_self) sdu.2
    obtain ⟨done, bytes⟩ := ih step fun other member => valid other (List.mem_cons_of_mem _ member)
    rw [Writer.sdu_ces] at bytes
    refine ⟨?_, bytes⟩
    rw [List.map_cons, List.append_cons]
    exact done

def paddingItems (shortPadding : Nat) : List Item :=
  if shortPadding = 1 then [.padding] else if shortPadding = 2 then [.padding, .padding] else []

theorem paddingItems_none (shortPadding : Nat) :
    cesOf (paddingItems shortPadding) = [] ∧ sdusOf (paddingItems shortPadding) = [] ∧
      (paddingItems shortPadding).length ≤ 2 := by
  unfold paddingItems
  split
  · exact ⟨rfl, rfl, by decide⟩
  · split
    · exact ⟨rfl, rfl, by decide⟩
    · exact ⟨rfl, rfl, by decide⟩

theorem Writer.shortPadding_none {shortPadding : Nat} (none : paddingItems shortPadding = []) :
    w.shortPadding shortPadding = w := by
  unfold paddingItems at none
  unfold Writer.shortPadding
  split at none
  · exact nomatch none
  · split at none
    · exact nomatch none
    · rename_i one two
      simp only [one, two, or_self, if_false]

theorem Writer.shortPadding_wrote (padding : sduBelow ≤ 31) (buffer : Memory) (shortPadding : Nat) :
    ((Writer.start buffer).shortPadding shortPadding).Wrote sduBelow (paddingItems shortPadding) ∧
      ((Writer.start buffer).shortPadding shortPadding).ces = [] ∧
      (paddingItems shortPadding ≠ [] →
        ((Writer.start buffer).shortPadding shortPadding).lastSize = 1) := by
  have one : ((Writer.start buffer).element 31 []).Wrote sduBelow ([] ++ [elementItem 31]) :=
    (Writer.start_wrote buffer).element (absurd rfl ·) (by decide) padding []
  have two := one.element (fun _ => rfl) (by decide : 31 < 32) padding []
  rw [paddingItems, Writer.shortPadding]
  by_cases isOne : shortPadding = 1
  · subst isOne
    exact ⟨one, by simp [Writer.start], fun _ => rfl⟩
  · by_cases isTwo : shortPadding = 2
    · subst isTwo
      exact ⟨two, by simp [Writer.start], fun _ => rfl⟩
    · simp only [isOne, isTwo, or_self, if_false]
      exact ⟨Writer.start_wrote buffer, rfl, absurd rfl⟩

theorem Writer.Wrote.lastSdu (wrote : w.Wrote sduBelow items) (small : sduBelow ≤ 32)
    (sdu : lcid < sduBelow) :
    HeaderAt sduBelow (w.lastSdu lcid).mem items (.sdu lcid 0 false) (w.lastSdu lcid).ptr := by
  obtain ⟨chain, -⟩ := wrote.advance fun _ => rfl
  have byte : (w.lastSdu lcid).mem (w.lastSdu lcid).ptr = fixedByte lcid := Function.update_self ..
  refine ⟨chain.congr
    fun i _ upper => ?_, (congrArg extended byte).trans (extended_fixedByte lcid), ?_⟩
  · exact Function.update_of_ne (Nat.ne_of_lt upper) _ _
  · unfold itemAt
    rw [byte, lcidOf_fixedByte (Nat.lt_of_lt_of_le sdu small), if_pos sdu]
    split <;> rfl

end Invariant

end OpenAir.Mac.Pdu
