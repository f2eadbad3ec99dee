import OpenAir.Lib.BitField

/-! Subheaders of a MAC PDU in memory. Every byte is read by shifting and masking, so the
reserved bits can have any value. -/
namespace OpenAir.Mac.Pdu
open BitField (Memory)

abbrev maxNumCe : Nat := 5

abbrev nbRbMax : Nat := 14

abbrev shortPadding : Nat := 31

/-- `LCID` of the first byte of a subheader. -/
def lcidOf (byte : UInt8) : Nat := byte.toNat % 32

/-- `E` of the first byte: another subheader follows. -/
def extended (byte : UInt8) : Bool := byte.toNat / 32 % 2 == 1

/-- `F` of the second byte: the length has 15 bits. -/
def longFormat (byte : UInt8) : Bool := byte.toNat / 128 == 1

/-- `L`, or `L_MSB`, of the second byte. -/
def lengthBits (byte : UInt8) : Nat := byte.toNat % 128

/-- A subheader in front of the last one. -/
inductive Item where
  | sdu (lcid length : Nat) (long : Bool)
  | ce (lcid : Nat)
  | padding
deriving DecidableEq

def Item.size : Item → Nat
  | .sdu _ _ true => 3
  | .sdu _ _ false => 2
  | .ce _ => 1
  | .padding => 1

theorem Item.size_pos (item : Item) : 0 < item.size := by
  fun_cases Item.size item <;> decide

/-- The LCIDs and lengths that subheaders give. -/
def sdusOf (items : List Item) : List (Nat × Nat) :=
  items.filterMap fun
    | .sdu lcid length _ => some (lcid, length)
    | _ => none

def cesOf (items : List Item) : List Nat :=
  items.filterMap fun
    | .ce lcid => some lcid
    | _ => none

def Item.fixed : Item → Item
  | .sdu lcid _ _ => .sdu lcid 0 false
  | item => item

section Lists

variable (lcid length : Nat) (long : Bool) (rest : List Item)

@[simp] theorem sdusOf_sdu : sdusOf (.sdu lcid length long :: rest) =
    (lcid, length) :: sdusOf rest := rfl

@[simp] theorem sdusOf_ce : sdusOf (.ce lcid :: rest) = sdusOf rest := rfl

@[simp] theorem sdusOf_padding : sdusOf (.padding :: rest) = sdusOf rest := rfl

@[simp] theorem cesOf_sdu : cesOf (.sdu lcid length long :: rest) = cesOf rest := rfl

@[simp] theorem cesOf_ce : cesOf (.ce lcid :: rest) = lcid :: cesOf rest := rfl

@[simp] theorem cesOf_padding : cesOf (.padding :: rest) = cesOf rest := rfl

@[simp] theorem sdusOf_nil : sdusOf [] = [] := rfl

@[simp] theorem cesOf_nil : cesOf [] = [] := rfl

theorem sdusOf_append (items : List Item) : sdusOf (items ++ rest) = sdusOf items ++ sdusOf rest :=
  List.filterMap_append ..

theorem cesOf_append (items : List Item) : cesOf (items ++ rest) = cesOf items ++ cesOf rest :=
  List.filterMap_append ..

end Lists

/-- The subheader found at an address; LCIDs below `sduBelow` name logical channels. -/
def itemAt (sduBelow : Nat) (mem : Memory) (a : Nat) : Item :=
  if lcidOf (mem a) < sduBelow then
    if longFormat (mem (a + 1)) then
      .sdu (lcidOf (mem a)) (lengthBits (mem (a + 1)) * 256 + (mem (a + 2)).toNat) true
    else
      .sdu (lcidOf (mem a)) (lengthBits (mem (a + 1))) false
  else if lcidOf (mem a) = shortPadding then .padding
  else .ce (lcidOf (mem a))

/-- Subheaders that each say that another one follows, from `a` up to `b`. -/
def Subheaders (sduBelow : Nat) (mem : Memory) : Nat → List Item → Nat → Prop
  | a, [], b => a = b
  | a, item :: rest, b =>
    extended (mem a) = true ∧ itemAt sduBelow mem a = item ∧
      Subheaders sduBelow mem (a + item.size) rest b

variable {sduBelow a b c : Nat} {mem other : Memory} {items rest : List Item} {item : Item}

theorem Subheaders.le (chain : Subheaders sduBelow mem a items b) : a + items.length ≤ b := by
  induction items generalizing a with
  | nil => exact Nat.le_of_eq chain
  | cons item rest ih =>
    have later := ih chain.2.2
    have positive := item.size_pos
    rw [List.length_cons]
    omega

theorem Item.size_le (item : Item) : item.size ≤ 3 := by
  fun_cases Item.size item <;> decide

theorem Subheaders.le_three (chain : Subheaders sduBelow mem a items b) :
    b ≤ a + 3 * items.length := by
  induction items generalizing a with
  | nil => exact Nat.le_of_eq chain.symm
  | cons item rest ih =>
    have later := ih chain.2.2
    have small := item.size_le
    rw [List.length_cons]
    omega

theorem Subheaders.append (chain : Subheaders sduBelow mem a items b)
    (tail : Subheaders sduBelow mem b rest c) :
    Subheaders sduBelow mem a (items ++ rest) c := by
  induction items generalizing a with
  | nil =>
    obtain rfl : a = b := chain
    exact tail
  | cons item others ih => exact ⟨chain.1, chain.2.1, ih chain.2.2⟩

/-- A subheader is read from its own bytes only. -/
theorem itemAt_congr (same : ∀ i, a ≤ i → i < a + (itemAt sduBelow mem a).size → other i = mem i) :
    itemAt sduBelow other a = itemAt sduBelow mem a := by
  have first : other a = mem a := same a (Nat.le_refl a) (Nat.lt_add_of_pos_right (Item.size_pos _))
  unfold itemAt at same ⊢
  rw [first]
  by_cases sdu : lcidOf (mem a) < sduBelow
  · simp only [if_pos sdu] at same ⊢
    by_cases long : longFormat (mem (a + 1)) = true
    · simp only [if_pos long, Item.size] at same ⊢
      rw [same (a + 1) (by omega) (by omega), same (a + 2) (by omega) (by omega), if_pos long]
    · simp only [if_neg long, Item.size] at same ⊢
      rw [same (a + 1) (by omega) (by omega), if_neg long]
  · rw [if_neg sdu, if_neg sdu]

theorem Subheaders.congr (chain : Subheaders sduBelow mem a items b)
    (same : ∀ i, a ≤ i → i < b → other i = mem i) : Subheaders sduBelow other a items b := by
  induction items generalizing a with
  | nil => exact chain
  | cons item rest ih =>
    obtain ⟨more, rfl, tail⟩ := chain
    have inside := tail.le
    have positive := (itemAt sduBelow mem a).size_pos
    refine ⟨?_, ?_, ih tail fun i lower upper => same i (by omega) upper⟩
    · rw [same a (Nat.le_refl a) (by omega)]
      exact more
    · exact itemAt_congr fun i lower upper => same i lower (by omega)

theorem itemAt_fixed (same : other a = mem a) : (itemAt sduBelow other a).fixed =
    (itemAt sduBelow mem a).fixed := by
  unfold itemAt
  rw [same]
  split
  · split <;> split <;> simp only [Item.fixed]
  · rfl

/-- A whole header: the last subheader is at `b`. -/
structure HeaderAt (sduBelow : Nat) (mem : Memory) (front : List Item) (last : Item)
    (b : Nat) : Prop where
  chain : Subheaders sduBelow mem 0 front b
  ends : extended (mem b) = false
  last : (itemAt sduBelow mem b).fixed = last.fixed

/-- A header is read from its own bytes only. -/
theorem HeaderAt.congr {last : Item} (header : HeaderAt sduBelow mem items last b)
    (same : ∀ i ≤ b, other i = mem i) :
    HeaderAt sduBelow other items last b where
  chain := header.chain.congr fun i _ upper => same i (Nat.le_of_lt upper)
  ends := (congrArg extended (same b (Nat.le_refl b))).trans header.ends
  last := (itemAt_fixed (same b (Nat.le_refl b))).trans header.last

end OpenAir.Mac.Pdu
