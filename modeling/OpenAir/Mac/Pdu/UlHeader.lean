import Mathlib.Data.List.Basic
import OpenAir.Mac.Pdu.Framing

/-! The uplink MAC header: written by the UE, read by the eNB. -/
namespace OpenAir.Mac.Pdu
open BitField (Memory)

/-- `POWER_HEADROOM_CMD` -/
structure PowerHeadroom where
  ph : Fin 64
  r : Fin 4

/-- `BSR_SHORT`, and `BSR_TRUNCATED`. -/
structure BsrShort where
  bufferSize : Fin 64
  lcgid : Fin 4

structure BsrLong where
  bufferSize0 : Fin 64
  bufferSize1 : Fin 64
  bufferSize2 : Fin 64
  bufferSize3 : Fin 64

/-- The pointers that the generator is given, with what they point at. -/
structure UlElements where
  powerHeadroom : Option PowerHeadroom
  crnti : Option UInt16
  truncatedBsr : Option BsrShort
  shortBsr : Option BsrShort
  longBsr : Option BsrLong

def PowerHeadroom.bytes (phr : PowerHeadroom) : List UInt8 :=
  [UInt8.ofNat (phr.ph.val + 64 * phr.r.val)]

def BsrShort.bytes (bsr : BsrShort) : List UInt8 :=
  [UInt8.ofNat (bsr.bufferSize.val + 64 * bsr.lcgid.val)]

/-- Stored as a `uint16_t` of the UE's processor, low byte first. -/
def rntiBytes (rnti : UInt16) : List UInt8 :=
  [UInt8.ofNat (rnti.toNat % 256), UInt8.ofNat (rnti.toNat / 256)]

/-- The third byte shifts the low bits of the third size by two. -/
def BsrLong.bytes (bsr : BsrLong) : List UInt8 :=
  [UInt8.ofNat (bsr.bufferSize0.val <<< 2 ||| (bsr.bufferSize1.val &&& 0x30) >>> 4),
   UInt8.ofNat ((bsr.bufferSize1.val &&& 0x0f) <<< 4 ||| (bsr.bufferSize2.val &&& 0x3c) >>> 2),
   UInt8.ofNat ((bsr.bufferSize2.val &&& 0x03) <<< 2 ||| bsr.bufferSize3.val &&& 0x3f)]

/-- LCIDs and bytes of the control elements, in the order in which they are written; at most
one buffer status report is. -/
def UlElements.list (elements : UlElements) : List (Nat × List UInt8) :=
  (elements.powerHeadroom.map fun phr => (26, phr.bytes)).toList ++
    ((elements.crnti.map fun rnti => (27, rntiBytes rnti)).toList ++
      match elements.truncatedBsr, elements.shortBsr, elements.longBsr with
      | some bsr, _, _ => [(28, bsr.bytes)]
      | none, some bsr, _ => [(29, bsr.bytes)]
      | none, none, some bsr => [(30, bsr.bytes)]
      | none, none, none => [])

/-- The subheaders of the SDUs; the last one may be left without a length. -/
def Writer.ulSdus (implicitLast : Bool) (w : Writer) : List (Nat × Nat) → Writer
  | [] => w
  | [(lcid, length)] => if implicitLast then w.lastSdu lcid else w.sdu lcid length
  | (lcid, length) :: sdu :: rest => ulSdus implicitLast (w.sdu lcid length) (sdu :: rest)

/-- The buffer after the call and the returned length, an `unsigned char`. -/
def generateUlschHeader (buffer : Memory) (shortPadding : Nat) (sdus : List (Nat × Nat))
    (elements : UlElements)
    (postPadding : Nat) : Memory × Nat :=
  let w := ((Writer.start buffer).shortPadding shortPadding).elements elements.list
  let w := w.ulSdus (shortPadding != 0 || postPadding == 0) sdus
  ((w.finish postPadding).1, (w.finish postPadding).2 % 256)

/-- What the eNB takes from a control element. -/
inductive UlCe where
  | powerHeadroom (ph : Nat)
  | crnti (rnti : Nat)
  | truncatedBsr (lcgid bufferSize : Nat)
  | shortBsr (lcgid bufferSize : Nat)
  | longBsr (bufferSize0 bufferSize1 bufferSize2 bufferSize3 : Nat)
deriving DecidableEq

/-- One round of the loop over `rx_ces` in `rx_sdu`: the values read at `payload_ptr` and by
how much it moves. -/
def rxCe (mem : Memory) (a : Nat) (lcid : Nat) : Option UlCe × Nat :=
  if lcid = 26 then (some (.powerHeadroom ((mem a).toNat &&& 0x3f)), 1)
  else if lcid = 27 then (some (.crnti ((mem a).toNat <<< 8 + (mem (a + 1)).toNat)), 2)
  else if lcid = 28 then (some (.truncatedBsr ((mem a).toNat >>> 6) ((mem a).toNat &&& 0x3f)), 1)
  else if lcid = 29 then (some (.shortBsr ((mem a).toNat >>> 6) ((mem a).toNat &&& 0x3f)), 1)
  else if lcid = 30 then
    (some (.longBsr
      (((mem a).toNat &&& 0xfc) >>> 2)
      (((mem a).toNat &&& 0x03) <<< 4 ||| ((mem (a + 1)).toNat &&& 0xf0) >>> 4)
      (((mem (a + 1)).toNat &&& 0x0f) <<< 2 ||| ((mem (a + 2)).toNat &&& 0xc0) >>> 6)
      ((mem (a + 2)).toNat &&& 0x3f)), 3)
  else (none, 0)

/-- The values of all control elements, and `payload_ptr` behind them. -/
def rxCes (mem : Memory) : Nat → List Nat → List UlCe × Nat
  | a, [] => ([], a)
  | a, lcid :: rest =>
    let later := rxCes mem (a + (rxCe mem a lcid).2) rest
    ((rxCe mem a lcid).1.toList ++ later.1, later.2)

def UlElements.values (elements : UlElements) : List UlCe :=
  (elements.powerHeadroom.map fun phr => .powerHeadroom phr.ph).toList ++
    ((elements.crnti.map fun rnti => .crnti rnti.toNat).toList ++
      match elements.truncatedBsr, elements.shortBsr, elements.longBsr with
      | some bsr, _, _ => [.truncatedBsr bsr.lcgid bsr.bufferSize]
      | none, some bsr, _ => [.shortBsr bsr.lcgid bsr.bufferSize]
      | none, none, some bsr =>
        [.longBsr bsr.bufferSize0 bsr.bufferSize1 bsr.bufferSize2 bsr.bufferSize3]
      | none, none, none => [])

section Values

theorem rxCe_size {mem : Memory} {a lcid : Nat} (known : UlKnown lcid) :
    (rxCe mem a lcid).2 = ulRules.ceSize lcid := by
  simp only [UlKnown, List.mem_cons, List.not_mem_nil, or_false] at known
  obtain rfl | rfl | rfl | rfl | rfl := known <;> rfl

/-- A control element is read from its own bytes only. -/
theorem rxCe_congr {mem other : Memory} {a c lcid : Nat} (known : UlKnown lcid)
    (same : ∀ k < ulRules.ceSize lcid, other (c + k) = mem (a + k)) :
    rxCe other c lcid = rxCe mem a lcid := by
  simp only [UlKnown, List.mem_cons, List.not_mem_nil, or_false] at known
  obtain rfl | rfl | rfl | rfl | rfl := known
  · simp [rxCe, show other c = mem a from same 0 (by decide)]
  · simp [rxCe, show other c = mem a from same 0 (by decide), same 1 (by decide)]
  · simp [rxCe, show other c = mem a from same 0 (by decide)]
  · simp [rxCe, show other c = mem a from same 0 (by decide)]
  · simp [rxCe, show other c = mem a from same 0 (by decide), same 1 (by decide),
      same 2 (by decide)]

/-- What is taken from the bytes of one control element. -/
def valueOf (ce : Nat × List UInt8) : Option UlCe := (rxCe (fun i => ce.2.getD i 0) 0 ce.1).1

theorem rxCes_eq {mem : Memory} {a : Nat} {ces : List (Nat × List UInt8)}
    (valid : ∀ ce ∈ ces, UlKnown ce.1 ∧ ulRules.ceSize ce.1 = ce.2.length)
    (held : ∀ k < (elementBytes ces).length, mem (a + k) = (elementBytes ces).getD k 0) :
    rxCes mem a (ces.map Prod.fst) = (ces.filterMap valueOf, a + (elementBytes ces).length) := by
  induction ces generalizing a with
  | nil => rfl
  | cons ce rest ih =>
    obtain ⟨known, size⟩ := valid ce List.mem_cons_self
    have bytes : elementBytes (ce :: rest) = ce.2 ++ elementBytes rest := rfl
    rw [bytes, List.length_append] at held
    have read : rxCe mem a ce.1 = rxCe (fun i => ce.2.getD i 0) 0 ce.1 := by
      apply rxCe_congr known
      intro k inside
      rw [size] at inside
      rw [held k (by omega), List.getD_append _ _ _ _ inside, Nat.zero_add]
    have later :=
        ih (a := a + ce.2.length)
        (fun other member => valid other (List.mem_cons_of_mem _ member)) (by
      intro k inside
      rw [Nat.add_assoc, held _ (by omega), List.getD_append_right _ _ _ _ (Nat.le_add_right ..),
        Nat.add_sub_cancel_left])
    rw [List.map_cons, rxCes, rxCe_size known, size, later, read, bytes, List.length_append,
      ← Nat.add_assoc, List.filterMap_cons, valueOf]
    cases (rxCe (fun i => ce.2.getD i 0) 0 ce.1).1 <;> rfl

theorem UlElements.list_valid (elements : UlElements) :
    ∀ ce ∈ elements.list, UlKnown ce.1 ∧ ulRules.ceSize ce.1 = ce.2.length := by
  intro ce member
  rw [UlElements.list, List.mem_append, List.mem_append] at member
  obtain member | member | member := member
  · obtain ⟨phr, -, rfl⟩ := Option.map_eq_some_iff.mp (Option.mem_toList.mp member)
    exact ⟨by simp [UlKnown], rfl⟩
  · obtain ⟨rnti, -, rfl⟩ := Option.map_eq_some_iff.mp (Option.mem_toList.mp member)
    exact ⟨by simp [UlKnown], rfl⟩
  · split at member
    · obtain rfl := List.mem_singleton.mp member
      exact ⟨by simp [UlKnown], rfl⟩
    · obtain rfl := List.mem_singleton.mp member
      exact ⟨by simp [UlKnown], rfl⟩
    · obtain rfl := List.mem_singleton.mp member
      exact ⟨by simp [UlKnown], rfl⟩
    · cases member

theorem UlElements.list_length (elements : UlElements) : elements.list.length ≤ 3 := by
  have phr : (elements.powerHeadroom.map fun phr => (26, phr.bytes)).toList.length ≤ 1 :=
    Option.length_toList_le
  have crnti : (elements.crnti.map fun rnti => (27, rntiBytes rnti)).toList.length ≤ 1 :=
    Option.length_toList_le
  rw [UlElements.list, List.length_append, List.length_append]
  split <;> simp only [List.length_singleton, List.length_nil] <;> omega

theorem mask_shift (x n k : Nat) : (x &&& (2 ^ n - 1) <<< k) >>> k = x / 2 ^ k % 2 ^ n := by
  rw [Nat.shiftRight_and_distrib, Nat.shiftLeft_shiftRight, Nat.and_two_pow_sub_one_eq_mod,
    Nat.shiftRight_eq_div_pow]

theorem shift_or {low k : Nat} (small : low < 2 ^ k) (high : Nat) :
    high <<< k ||| low = high * 2 ^ k + low := by
  rw [← Nat.shiftLeft_add_eq_or_of_lt small, Nat.shiftLeft_eq]

theorem valueOf_powerHeadroom (phr : PowerHeadroom) :
    valueOf (26, phr.bytes) = some (.powerHeadroom phr.ph) := by
  have byte : (UInt8.ofNat (phr.ph.val + 64 * phr.r.val)).toNat = phr.ph.val + 64 * phr.r.val :=
    toNat_ofNat_lt (by omega)
  have value : (phr.ph.val + 64 * phr.r.val) &&& 0x3f = phr.ph.val := by
    rw [show 0x3f = 2 ^ 6 - 1 from rfl, Nat.and_two_pow_sub_one_eq_mod]
    omega
  exact congrArg (fun ph => some (UlCe.powerHeadroom ph)) ((congrArg (· &&& 0x3f) byte).trans value)

/-- The eNB takes the first byte for the high one. -/
theorem valueOf_crnti (rnti : UInt16) :
    valueOf (27, rntiBytes rnti) = some (.crnti (rnti.toNat % 256 * 256 + rnti.toNat / 256)) := by
  have small := rnti.toNat_lt
  have low : (UInt8.ofNat (rnti.toNat % 256)).toNat = rnti.toNat % 256 := toNat_ofNat_lt (by omega)
  have high : (UInt8.ofNat (rnti.toNat / 256)).toNat = rnti.toNat / 256 := toNat_ofNat_lt (by omega)
  have value : (UInt8.ofNat (rnti.toNat % 256)).toNat <<< 8 +
    (UInt8.ofNat (rnti.toNat / 256)).toNat =
      rnti.toNat % 256 * 256 + rnti.toNat / 256 := by rw [low, high, Nat.shiftLeft_eq]
  exact congrArg (fun rnti => some (UlCe.crnti rnti)) value

section Short

variable (bsr : BsrShort)

theorem BsrShort.read : (UInt8.ofNat (bsr.bufferSize.val + 64 * bsr.lcgid.val)).toNat >>> 6 =
    bsr.lcgid.val ∧
    (UInt8.ofNat (bsr.bufferSize.val + 64 * bsr.lcgid.val)).toNat &&& 0x3f =
    bsr.bufferSize.val := by
  rw [toNat_ofNat_lt (by omega), Nat.shiftRight_eq_div_pow, show 0x3f = 2 ^ 6 - 1 from rfl,
    Nat.and_two_pow_sub_one_eq_mod]
  omega

theorem valueOf_truncatedBsr :
    valueOf (28, bsr.bytes) = some (.truncatedBsr bsr.lcgid bsr.bufferSize) := by
  obtain ⟨lcgid, size⟩ := bsr.read
  exact congrArg some (congrArg₂ UlCe.truncatedBsr lcgid size)

theorem valueOf_shortBsr : valueOf (29, bsr.bytes) = some (.shortBsr bsr.lcgid bsr.bufferSize) := by
  obtain ⟨lcgid, size⟩ := bsr.read
  exact congrArg some (congrArg₂ UlCe.shortBsr lcgid size)

end Short

/-- The low bits of the third size are taken for zero, and stand in the fourth. -/
theorem valueOf_longBsr (bsr : BsrLong) :
    valueOf (30, bsr.bytes) =
    some (.longBsr bsr.bufferSize0 bsr.bufferSize1 (bsr.bufferSize2.val / 4 * 4)
      ((bsr.bufferSize2.val % 4) <<< 2 ||| bsr.bufferSize3.val)) := by
  obtain ⟨⟨s0, h0⟩, ⟨s1, h1⟩, ⟨s2, h2⟩, ⟨s3, h3⟩⟩ := bsr
  have third : (s2 % 4) <<< 2 ||| s3 < 2 ^ 6 := by
    refine Nat.or_lt_two_pow ?_ h3
    rw [Nat.shiftLeft_eq]
    omega
  have byte0 : (UInt8.ofNat (s0 <<< 2 ||| (s1 &&& 0x30) >>> 4)).toNat = s0 * 4 + s1 / 16 := by
    have low : (s1 &&& 0x30) >>> 4 = s1 / 16 % 4 := mask_shift s1 2 4
    rw [low, shift_or (by omega), toNat_ofNat_lt (by omega)]
    omega
  have byte1 : (UInt8.ofNat ((s1 &&& 0x0f) <<< 4 ||| (s2 &&& 0x3c) >>> 2)).toNat =
      s1 % 16 * 16 + s2 / 4 := by
    have low : (s2 &&& 0x3c) >>> 2 = s2 / 4 % 16 := mask_shift s2 4 2
    have high : s1 &&& 0x0f = s1 % 16 := Nat.and_two_pow_sub_one_eq_mod s1 4
    rw [low, high, shift_or (by omega), toNat_ofNat_lt (by omega)]
    omega
  have byte2 : (UInt8.ofNat ((s2 &&& 0x03) <<< 2 ||| s3 &&& 0x3f)).toNat =
      (s2 % 4) <<< 2 ||| s3 := by
    have high : s2 &&& 0x03 = s2 % 4 := Nat.and_two_pow_sub_one_eq_mod s2 2
    have low : s3 &&& 0x3f = s3 := by
      rw [show 0x3f = 2 ^ 6 - 1 from rfl, Nat.and_two_pow_sub_one_eq_mod, Nat.mod_eq_of_lt h3]
    rw [high, low, toNat_ofNat_lt (by omega)]
  have size0 : ((s0 * 4 + s1 / 16) &&& 0xfc) >>> 2 = s0 := by
    rw [show 0xfc = (2 ^ 6 - 1) <<< 2 from rfl, mask_shift]
    omega
  have size1 : ((s0 * 4 + s1 / 16) &&& 0x03) <<< 4 |||
      ((s1 % 16 * 16 + s2 / 4) &&& 0xf0) >>> 4 = s1 := by
    rw [show 0xf0 = (2 ^ 4 - 1) <<< 4 from rfl, mask_shift, show 0x03 = 2 ^ 2 - 1 from rfl,
      Nat.and_two_pow_sub_one_eq_mod, shift_or (by omega)]
    omega
  generalize (s2 % 4) <<< 2 ||| s3 = packed at third byte2
  have size2 : ((s1 % 16 * 16 + s2 / 4) &&& 0x0f) <<< 2 ||| (packed &&& 0xc0) >>> 6 =
      s2 / 4 * 4 := by
    rw [show 0xc0 = (2 ^ 2 - 1) <<< 6 from rfl, mask_shift, show 0x0f = 2 ^ 4 - 1 from rfl,
      Nat.and_two_pow_sub_one_eq_mod, shift_or (by omega)]
    omega
  have size3 : packed &&& 0x3f = packed := by
    rw [show 0x3f = 2 ^ 6 - 1 from rfl, Nat.and_two_pow_sub_one_eq_mod, Nat.mod_eq_of_lt third]
  rw [← byte0] at size0
  rw [← byte0, ← byte1] at size1
  rw [← byte1, ← byte2] at size2
  have size3 := (congrArg (· &&& 0x3f) byte2).trans size3
  exact congrArg some (UlCe.longBsr.injEq .. ▸ ⟨size0, size1, size2, size3⟩)

end Values

section Header

variable {w : Writer}

theorem Writer.ulSdus_explicit (sdus : List (Nat × Nat)) : w.ulSdus false sdus = w.sdus sdus := by
  fun_induction Writer.ulSdus false w sdus with
  | case1 w => rfl
  | case2 w lcid length implicit => exact absurd implicit Bool.false_ne_true
  | case3 w lcid length => rfl
  | case4 w lcid length sdu rest ih => exact ih

theorem Writer.ulSdus_implicit (sdus : List (Nat × Nat)) (lcid length : Nat) :
    w.ulSdus true (sdus ++ [(lcid, length)]) = (w.sdus sdus).lastSdu lcid := by
  induction sdus generalizing w with
  | nil => rfl
  | cons sdu rest ih =>
    rw [List.cons_append]
    cases rest with
    | nil => exact ih
    | cons next rest => exact ih

variable {shortPadding postPadding : Nat} {sdus : List (Nat × Nat)} {elements : UlElements}

theorem UlElements.lcids (elements : UlElements) : ∀ ce ∈ elements.list, 25 ≤ ce.1 ∧ ce.1 < 31 := by
  intro ce member
  have known := (elements.list_valid ce member).1
  simp only [UlKnown, List.mem_cons, List.not_mem_nil, or_false] at known
  omega

theorem generateUlschHeader_framed (buffer : Memory) (alone : shortPadding = 0 ∨ postPadding = 0)
    (lcids : ∀ sdu ∈ sdus, sdu.1 < 25)
    (some : SomeSubheader shortPadding elements.list sdus postPadding) :
    ∃ size front last b,
      (generateUlschHeader buffer shortPadding sdus elements postPadding).2 = size % 256 ∧
      Framed 25 (generateUlschHeader buffer shortPadding sdus elements postPadding).1
        size elements.list
        (!sdus.isEmpty && postPadding == 0) sdus front last b := by
  obtain ⟨wrote, bytes⟩ := front_wrote (by decide) buffer shortPadding elements.lcids
  simp only [generateUlschHeader]
  generalize ((Writer.start buffer).shortPadding shortPadding).elements elements.list =
    w at wrote bytes
  cases postPadding with
  | succ bytesLeft =>
    obtain rfl : shortPadding = 0 := alone.resolve_right (Nat.succ_ne_zero _)
    obtain ⟨done, kept⟩ := wrote.sdus (by decide) lcids
    obtain ⟨front, b, framed⟩ :=
      framed_padded done (kept.trans bytes) (by decide) (Nat.succ_pos bytesLeft)
    have told : w.ulSdus (0 != 0 || bytesLeft + 1 == 0) sdus = w.sdus sdus :=
      Writer.ulSdus_explicit sdus
    have flag : (!sdus.isEmpty && bytesLeft + 1 == 0) = false := Bool.and_false _
    rw [told, flag]
    exact ⟨_, front, .padding, b, rfl, framed⟩
  | zero =>
    have flag : (shortPadding != 0 || 0 == 0) = true := Bool.or_true _
    rw [flag]
    obtain rfl | ⟨before, ⟨lcid, length⟩, rfl⟩ := List.eq_nil_or_concat' sdus
    · have front : frontItems shortPadding elements.list ≠ [] := by
        obtain front | none | none := some
        · exact front
        · exact absurd rfl none
        · exact absurd none (Nat.lt_irrefl 0)
      obtain ⟨front, last, b, -, framed⟩ := framed_bare wrote bytes front
      exact ⟨_, front, last, b, rfl, framed⟩
    · obtain ⟨done, kept⟩ :=
        wrote.sdus (by decide) fun sdu member => lcids sdu (List.mem_append_left _ member)
      have header :=
        done.lastSdu (by decide) (lcids (lcid, length) (List.mem_append_right _ List.mem_cons_self))
      obtain ⟨front, b, framed⟩ :=
        framed_implicit header rfl ((Writer.lastSdu_ces.trans kept).trans bytes)
      have flag : (!(before ++ [(lcid, length)]).isEmpty && 0 == 0) = true := by simp
      rw [Writer.ulSdus_implicit, flag]
      exact ⟨_, front, .sdu lcid 0 false, b, rfl, framed⟩

theorem elementBytes_le (elements : UlElements) : (elementBytes elements.list).length ≤ 9 := by
  have sizes := elements.list_valid
  have few := elements.list_length
  have bound (ces : List (Nat × List UInt8))
    (valid : ∀ ce ∈ ces, UlKnown ce.1 ∧ ulRules.ceSize ce.1 = ce.2.length) :
      (elementBytes ces).length ≤ 3 * ces.length := by
    induction ces with
    | nil => exact Nat.le_refl 0
    | cons ce rest ih =>
      have later := ih fun other member => valid other (List.mem_cons_of_mem _ member)
      have size := (valid ce List.mem_cons_self).2
      have small : ulRules.ceSize ce.1 ≤ 3 := by
        simp only [ulRules]
        split
        · exact Nat.le_refl 3
        · split <;> decide
      have split : (elementBytes (ce :: rest)).length = ce.2.length + (elementBytes rest).length :=
        List.length_append
      rw [split, List.length_cons]
      omega
  have := bound elements.list sizes
  omega

/-- What the eNB reads of a block that starts with a generated header, whatever length the
block is said to have. -/
theorem ulHeader_read {buffer block : Memory} (tbLength : Nat)
    (alone : shortPadding = 0 ∨ postPadding = 0)
    (room : sdus.length ≤ nbRbMax) (lcids : ∀ sdu ∈ sdus, sdu.1 < 25)
    (some : SomeSubheader shortPadding elements.list sdus postPadding) {header : Memory × Nat}
    (generated : generateUlschHeader buffer shortPadding sdus elements postPadding = header)
    (starts : ∀ i < header.2, block i = header.1 i) :
    ∃ rounds read, parseUlschHeader block tbLength rounds = .accepted read ∧
      rxCes block read.ptr read.ces = (elements.list.filterMap valueOf, header.2) ∧
      Decodes tbLength header.2 (!sdus.isEmpty && postPadding == 0) sdus read.sdus := by
  obtain ⟨size, front, last, b, returned, framed⟩ :=
    generateUlschHeader_framed buffer alone lcids some
  have few := elements.list_length
  have small : size < 256 := by
    have bound := framed.size_le
    have bytes := elementBytes_le elements
    have fourteen : sdus.length ≤ 14 := room
    omega
  rw [Nat.mod_eq_of_lt small] at returned
  subst returned
  rw [generated] at framed
  have framed := framed.congr starts
  have known (lcid : Nat) (member : lcid ∈ cesOf (front ++ [last])) : UlKnown lcid := by
    rw [framed.ces] at member
    obtain ⟨ce, inside, rfl⟩ := List.mem_map.mp member
    exact (elements.list_valid ce inside).1
  have passed : NoneRefused ulRules .start front :=
    (ulRules_noneRefused .start front).mpr
      fun lcid member => known lcid (by rw [cesOf_append]; exact List.mem_append_left _ member)
  have kept (lcid : Nat) (is : last = .ce lcid) :
      ulRules.refuses (storeCe (HeaderRead.start.addAll ulRules front) lcid) lcid true = false := by
    subst is
    rw [← Bool.not_eq_true, ulRules_refuses, not_not]
    exact known lcid (by rw [cesOf_append]; exact List.mem_append_right _ List.mem_cons_self)
  obtain ⟨read, accepted, place, ces, decodes⟩ :=
    Framed.parse framed room (Nat.le_trans few (by decide))
      (fun ce member => (elements.list_valid ce member).2) passed kept
  refine ⟨front.length + 1, read, accepted, ?_, decodes⟩
  rw [place, ces, framed.size]
  exact rxCes_eq elements.list_valid framed.bytes

end Header

/-- At most one buffer status report. -/
inductive Bsr where
  | truncated (bsr : BsrShort)
  | short (bsr : BsrShort)
  | long (bsr : BsrLong)

def ulElements (powerHeadroom : Option PowerHeadroom) (crnti : Option UInt16) (bsr : Option Bsr) :
    UlElements where
  powerHeadroom := powerHeadroom
  crnti := crnti
  truncatedBsr := bsr.bind fun
    | .truncated bsr => some bsr
    | _ => none
  shortBsr := bsr.bind fun
    | .short bsr => some bsr
    | _ => none
  longBsr := bsr.bind fun
    | .long bsr => some bsr
    | _ => none

/-- A padding of one or two bytes in front, or of some bytes at the end. -/
structure UlPadding where
  short : Nat
  post : Nat
  admitted : short ≤ 2 ∧ (short = 0 ∨ post = 0)

/-- An SDU of 1 to 32767 bytes. -/
structure UlSdu where
  lcid : Nat
  payload : List UInt8
  length : 0 < payload.length ∧ payload.length < 32768

def UlSdu.sent (sdu : UlSdu) : Nat × List UInt8 := (sdu.lcid, sdu.payload)

/-- Whatever the buffer held before, the block is read as what was put in. -/
def UlRoundTrip (elements : UlElements) (sdus : List UlSdu) (padding : UlPadding) : Prop :=
  ∀ buffer header, generateUlschHeader buffer padding.short
    (sdus.map fun sdu => withLength sdu.sent) elements padding.post = header →
    ∃ rounds read,
      parseUlschHeader (transportBlock header (sdus.map UlSdu.sent))
        ((header.2 + lengths (sdus.map fun sdu => withLength sdu.sent) + padding.post) % 65536)
          rounds = .accepted read ∧
      (rxCes (transportBlock header (sdus.map UlSdu.sent)) read.ptr read.ces).1 = elements.values ∧
      read.sdus = (sdus.map fun sdu => withLength sdu.sent) ∧
      payloadsAt (transportBlock header (sdus.map UlSdu.sent))
        (rxCes (transportBlock header (sdus.map UlSdu.sent)) read.ptr read.ces).2 read.sdus =
          sdus.map UlSdu.payload

theorem crnti_iff (rnti : UInt16) :
    rnti.toNat % 256 * 256 + rnti.toNat / 256 = rnti.toNat ↔
    rnti.toNat % 256 = rnti.toNat / 256 := by
  have small := rnti.toNat_lt
  omega

theorem longBsr_iff (bsr : BsrLong) :
    (bsr.bufferSize2.val / 4 * 4 = bsr.bufferSize2.val ∧
      (bsr.bufferSize2.val % 4) <<< 2 ||| bsr.bufferSize3.val = bsr.bufferSize3.val) ↔
      bsr.bufferSize2.val % 4 = 0 := by
  constructor
  · rintro ⟨high, -⟩
    omega
  · intro zero
    refine ⟨by omega, ?_⟩
    rw [zero, Nat.zero_shiftLeft, Nat.zero_or]

/-- The values come back as they were sent when the two bytes of the C-RNTI are the same, and
the third buffer size of a long report has no low bits. -/
theorem ulElements_values (powerHeadroom : Option PowerHeadroom) (crnti : Option UInt16)
    (bsr : Option Bsr) :
    (ulElements powerHeadroom crnti bsr).list.filterMap valueOf =
    (ulElements powerHeadroom crnti bsr).values ↔
      (∀ rnti ∈ crnti, rnti.toNat % 256 = rnti.toNat / 256) ∧
        ∀ long, bsr = some (.long long) → long.bufferSize2.val % 4 = 0 := by
  have first : ((powerHeadroom.map fun phr => (26, phr.bytes)).toList).filterMap valueOf =
      (powerHeadroom.map fun phr => UlCe.powerHeadroom phr.ph).toList := by
    cases powerHeadroom with
    | none => rfl
    | some phr => simp [valueOf_powerHeadroom]
  have second : ((crnti.map fun rnti => (27, rntiBytes rnti)).toList).filterMap valueOf =
      (crnti.map fun rnti => UlCe.crnti (rnti.toNat % 256 * 256 + rnti.toNat / 256)).toList := by
    cases crnti with
    | none => rfl
    | some rnti => simp [valueOf_crnti]
  rw [UlElements.list, UlElements.values, List.filterMap_append, List.filterMap_append]
  simp only [ulElements, first, second, List.append_cancel_left_eq]
  cases crnti with
  | none =>
    cases bsr with
    | none => simp
    | some bsr =>
      cases bsr with
      | truncated bsr => simp [valueOf_truncatedBsr]
      | short bsr => simp [valueOf_shortBsr]
      | long bsr => simp [valueOf_longBsr, longBsr_iff]
  | some rnti =>
    cases bsr with
    | none => simp [crnti_iff]
    | some bsr =>
      cases bsr with
      | truncated bsr => simp [valueOf_truncatedBsr, crnti_iff]
      | short bsr => simp [valueOf_shortBsr, crnti_iff]
      | long bsr => simp [valueOf_longBsr, crnti_iff, longBsr_iff]

section Block

variable {elements : UlElements} {sdus : List UlSdu} {padding : UlPadding} {buffer : Memory}
    {header : Memory × Nat}

theorem ulBlock_read (room : sdus.length ≤ nbRbMax) (lcids : ∀ sdu ∈ sdus, sdu.lcid < 25)
    (some : SomeSubheader padding.short elements.list
      (sdus.map fun sdu => withLength sdu.sent) padding.post)
    (generated : generateUlschHeader buffer padding.short (sdus.map fun sdu => withLength sdu.sent)
      elements padding.post = header) :
    ∃ rounds read, parseUlschHeader (transportBlock header (sdus.map UlSdu.sent))
        ((header.2 + lengths (sdus.map fun sdu => withLength sdu.sent) + padding.post) % 65536)
          rounds = .accepted read ∧
      rxCes (transportBlock header (sdus.map UlSdu.sent)) read.ptr read.ces =
      (elements.list.filterMap valueOf, header.2) ∧
      read.sdus = (sdus.map fun sdu => withLength sdu.sent) := by
  have lcidsSent :
    ∀ sdu ∈ sdus.map fun sdu => withLength sdu.sent, sdu.1 < 25 := List.forall_mem_map.mpr lcids
  have lengthsSent : ∀ sdu ∈ sdus.map fun sdu => withLength sdu.sent, sdu.2 < 32768 :=
    List.forall_mem_map.mpr fun sdu _ => sdu.length.2
  obtain ⟨rounds, read, accepted, ces, decodes⟩ :=
    ulHeader_read
      ((header.2 + lengths (sdus.map fun sdu => withLength sdu.sent) + padding.post) % 65536)
      padding.admitted.2 (by rw [List.length_map]; exact room) lcidsSent some generated
        fun i below => copyTo_below below
  have explicitSent :
    ∀ sdu ∈ explicitOnes (!(sdus.map fun sdu => withLength sdu.sent).isEmpty && padding.post == 0)
      (sdus.map fun sdu => withLength sdu.sent), sdu.2 < 32768 := by
    intro sdu member
    refine lengthsSent sdu ?_
    unfold explicitOnes at member
    split at member
    · exact (List.dropLast_sublist _).mem member
    · exact member
  refine ⟨rounds, read, accepted, ces,
    (decodes.eq_iff (fun sdu member => ?_) fun implicit => ?_).mpr explicitSent⟩
  · exact Nat.lt_trans (lengthsSent sdu member) (by decide)
  have none : padding.post = 0 := by
    rw [Bool.and_eq_true, beq_iff_eq] at implicit
    exact implicit.2
  rw [none, Nat.mod_mod]
  rfl

theorem ulBlock_payloads :
    payloadsAt (transportBlock header (sdus.map UlSdu.sent)) header.2
      (sdus.map fun sdu => withLength sdu.sent) =
      sdus.map UlSdu.payload := by
  have found : payloadsAt (transportBlock header (sdus.map UlSdu.sent)) header.2
    ((sdus.map UlSdu.sent).map withLength) =
      (sdus.map UlSdu.sent).map Prod.snd := payloadsAt_eq fun k inside => copyTo_inside inside
  rw [List.map_map, List.map_map] at found
  exact found

/-- A header without a subheader is one byte that was never written. -/
theorem ulHeader_unwritten
    (none : ¬ SomeSubheader padding.short elements.list (sdus.map fun sdu => withLength sdu.sent)
      padding.post) :
    ¬ UlRoundTrip elements sdus padding := by
  intro roundTrip
  simp only [SomeSubheader, not_or, not_not, Nat.not_lt, Nat.le_zero] at none
  obtain ⟨front, noSdu, noPost⟩ := none
  obtain ⟨noPadding, noCe⟩ := List.append_eq_nil_iff.mp front
  obtain rfl := List.map_eq_nil_iff.mp noSdu
  rw [List.map_eq_nil_iff] at noCe
  obtain ⟨header, generated⟩ : ∃ header,
    generateUlschHeader (fun _ => 0) padding.short [] elements padding.post = header := ⟨_, rfl⟩
  obtain ⟨rounds, read, accepted, -, same, -⟩ := roundTrip _ header generated
  have byte : transportBlock header ([].map UlSdu.sent) 0 = 0 := by
    rw [← generated, generateUlschHeader, Writer.shortPadding_none noPadding, noCe, noPost]
    rfl
  obtain rfl := accepted_unique accepted (parse_zero (by decide) byte)
  exact nomatch same

end Block

/-- A block is read as it was put together when its SDUs fit, something is written and the
values survive. -/
theorem ulRoundTrip_values (elements : UlElements) (sdus : List UlSdu) (padding : UlPadding) :
    UlRoundTrip elements sdus padding ↔
      sdus.length ≤ nbRbMax ∧ (∀ sdu ∈ sdus, sdu.lcid < 25) ∧
      SomeSubheader padding.short elements.list
        (sdus.map fun sdu => withLength sdu.sent) padding.post ∧
      elements.list.filterMap valueOf = elements.values := by
  constructor
  · intro roundTrip
    have some : SomeSubheader padding.short elements.list (sdus.map fun sdu => withLength sdu.sent)
        padding.post :=
      Classical.byContradiction fun none => ulHeader_unwritten none roundTrip
    obtain ⟨header, generated⟩ : ∃ header, generateUlschHeader (fun _ => 0) padding.short
      (sdus.map fun sdu => withLength sdu.sent) elements padding.post = header := ⟨_, rfl⟩
    obtain ⟨rounds, read, accepted, values, same, -⟩ := roundTrip _ header generated
    obtain ⟨-, room, lcids⟩ := accepted_bounds accepted
    rw [same] at room lcids
    rw [List.length_map] at room
    have lcids : ∀ sdu ∈ sdus, sdu.lcid < 25 := List.forall_mem_map.mp lcids
    refine ⟨room, lcids, some, ?_⟩
    obtain ⟨more, other, ended, ces, -⟩ := ulBlock_read room lcids some generated
    obtain rfl := accepted_unique accepted ended
    rw [ces] at values
    exact values
  · rintro ⟨room, lcids, some, values⟩ buffer header generated
    obtain ⟨rounds, read, accepted, ces, same⟩ := ulBlock_read room lcids some generated
    refine ⟨rounds, read, accepted, ?_, same, ?_⟩
    · rw [ces, values]
    · rw [ces, same]
      exact ulBlock_payloads


/-- A block is read as it was put together exactly when its SDUs fit the arrays of the eNB and
are on LCIDs below 25, something is written at all, the two bytes of the C-RNTI are the same and
the third buffer size of a long report is a multiple of four. -/
theorem ulRoundTrip_iff (powerHeadroom : Option PowerHeadroom) (crnti : Option UInt16)
    (bsr : Option Bsr) (sdus : List UlSdu)
    (padding : UlPadding) :
    UlRoundTrip (ulElements powerHeadroom crnti bsr) sdus padding ↔
      sdus.length ≤ nbRbMax ∧ (∀ sdu ∈ sdus, sdu.lcid < 25) ∧
      SomeSubheader padding.short (ulElements powerHeadroom crnti bsr).list
        (sdus.map fun sdu => withLength sdu.sent) padding.post ∧
      (∀ rnti ∈ crnti, rnti.toNat % 256 = rnti.toNat / 256) ∧
      ∀ long, bsr = some (.long long) → long.bufferSize2.val % 4 = 0 := by
  rw [← ulElements_values]
  exact ulRoundTrip_values _ sdus padding

def oneSdu : UlSdu := ⟨3, [1, 2, 3], by decide⟩

/-- The C-RNTI 0x1234 is read as 0x3412, and buffer sizes 0, 0, 1, 0 as 0, 0, 0, 4. -/
theorem ulRoundTrip_fails :
    ¬ UlRoundTrip (ulElements none (some 0x1234) none) [oneSdu] ⟨0, 0, by decide⟩ ∧
    ¬ UlRoundTrip (ulElements none none (some (.long ⟨0, 0, 1, 0⟩))) [oneSdu]
      ⟨0, 0, by decide⟩ := by
  constructor
  · intro roundTrip
    have values := ((ulRoundTrip_values ..).mp roundTrip).2.2.2
    exact absurd values (by decide)
  · intro roundTrip
    have values := ((ulRoundTrip_values ..).mp roundTrip).2.2.2
    exact absurd values (by decide)

end OpenAir.Mac.Pdu
