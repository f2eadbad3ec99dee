import OpenAir.Nas.Message
import Mathlib.Data.List.FinRange
import Mathlib.Data.List.Flatten

/-! The traffic flow template: its encoder, its decoder, and what comes back. -/
namespace OpenAir.Nas

/-- The components of a packet filter, in the order of their flags. -/
inductive Component where
  | ipv4RemoteAddr
  | ipv6RemoteAddr
  | protocolNextHeader
  | singleLocalPort
  | localPortRange
  | singleRemotePort
  | remotePortRange
  | securityParameterIndex
  | typeOfServiceTrafficClass
  | flowLabel
deriving DecidableEq

def Component.all : List Component :=
  [.ipv4RemoteAddr, .ipv6RemoteAddr, .protocolNextHeader, .singleLocalPort, .localPortRange,
    .singleRemotePort, .remotePortRange, .securityParameterIndex,
      .typeOfServiceTrafficClass, .flowLabel]

/-- `TRAFFIC_FLOW_TEMPLATE_IPV4_REMOTE_ADDR` and so on. -/
def Component.code : Component → Byte
  | .ipv4RemoteAddr => 0b00010000
  | .ipv6RemoteAddr => 0b00100000
  | .protocolNextHeader => 0b00110000
  | .singleLocalPort => 0b01000000
  | .localPortRange => 0b01000001
  | .singleRemotePort => 0b01010000
  | .remotePortRange => 0b01010001
  | .securityParameterIndex => 0b01100000
  | .typeOfServiceTrafficClass => 0b01110000
  | .flowLabel => 0b10000000

/-- `TRAFFIC_FLOW_TEMPLATE_IPV4_REMOTE_ADDR_FLAG` is `1<<0` and so on. -/
def Component.flag : Component → Nat
  | .ipv4RemoteAddr => 0
  | .ipv6RemoteAddr => 1
  | .protocolNextHeader => 2
  | .singleLocalPort => 3
  | .localPortRange => 4
  | .singleRemotePort => 5
  | .remotePortRange => 6
  | .securityParameterIndex => 7
  | .typeOfServiceTrafficClass => 8
  | .flowLabel => 9

/-- The bytes of a component behind its type. -/
def Component.size : Component → Nat
  | .ipv4RemoteAddr => 8
  | .ipv6RemoteAddr => 32
  | .protocolNextHeader => 1
  | .singleLocalPort => 2
  | .localPortRange => 4
  | .singleRemotePort => 2
  | .remotePortRange => 4
  | .securityParameterIndex => 4
  | .typeOfServiceTrafficClass => 2
  | .flowLabel => 3

/-- Pairs are an address and its mask, a low and a high limit, a value and its mask. -/
structure PacketFilter where
  flags : BitVec 16
  ipv4remoteaddr : Fin 4 → Byte × Byte
  ipv6remoteaddr : Fin 16 → Byte × Byte
  protocolidentifierNextheader : Byte
  singlelocalport : BitVec 16
  localportrange : BitVec 16 × BitVec 16
  singleremoteport : BitVec 16
  remoteportrange : BitVec 16 × BitVec 16
  securityparameterindex : BitVec 32
  typdeofserviceTrafficclass : Byte × Byte
  flowlabel : BitVec 32

structure PacketFilters where
  identifier : BitVec 4
  direction : BitVec 2
  evalPrecedence : Byte
  packetfilter : PacketFilter

structure TrafficFlowTemplate where
  tftoperationcode : BitVec 3
  ebit : BitVec 1
  numberofpacketfilters : BitVec 4
  /-- The array of four filters. -/
  filters : Nat → PacketFilters
  /-- The array of sixteen identifiers. -/
  identifiers : Nat → Byte

/-- What the operation code has in its list. -/
inductive ListKind where
  | filters
  | identifiers
  | nothing
deriving DecidableEq

def listKind (tftoperationcode : BitVec 3) : ListKind :=
  if tftoperationcode = 0b101 then .identifiers
  else if tftoperationcode = 0b001 ∨ tftoperationcode = 0b011 ∨
    tftoperationcode = 0b100 then .filters
  else .nothing

def encodeU16 (value : BitVec 16) : List Byte := [value.extractLsb' 8 8, value.extractLsb' 0 8]

/-- `ENCODE_U24` writes four bytes and goes on by three. -/
def encodeU24 (value : BitVec 32) : List Byte := (encodeU32 value).take 3

def PacketFilter.body (f : PacketFilter) : Component → List Byte
  | .ipv4RemoteAddr => (List.finRange 4).map (fun j => (f.ipv4remoteaddr j).1) ++
      (List.finRange 4).map fun j => (f.ipv4remoteaddr j).2
  | .ipv6RemoteAddr => (List.finRange 16).map (fun j => (f.ipv6remoteaddr j).1) ++
      (List.finRange 16).map fun j => (f.ipv6remoteaddr j).2
  | .protocolNextHeader => [f.protocolidentifierNextheader]
  | .singleLocalPort => encodeU16 f.singlelocalport
  | .localPortRange => encodeU16 f.localportrange.1 ++ encodeU16 f.localportrange.2
  | .singleRemotePort => encodeU16 f.singleremoteport
  | .remotePortRange => encodeU16 f.remoteportrange.1 ++ encodeU16 f.remoteportrange.2
  | .securityParameterIndex => encodeU32 f.securityparameterindex
  | .typeOfServiceTrafficClass => [f.typdeofserviceTrafficclass.1, f.typdeofserviceTrafficclass.2]
  | .flowLabel => encodeU24 (f.flowlabel &&& 0x000fffff)

/-- The components whose flag is set. -/
def PacketFilter.chosen (f : PacketFilter) : List Component :=
  Component.all.filter fun c => f.flags.getLsbD c.flag

def PacketFilter.contents (f : PacketFilter) : List Byte :=
  f.chosen.flatMap fun c => c.code :: f.body c

def PacketFilters.encode (f : PacketFilters) : List Byte :=
  ((0 : BitVec 2) ++ f.direction ++ f.identifier) :: f.evalPrecedence :: BitVec.ofNat 8
    f.packetfilter.contents.length ::
    f.packetfilter.contents

def remaining (len used : Nat) : Nat := (2 ^ 32 + len - used) % 2 ^ 32

/-- The loops over the list end when the buffer is exactly full. -/
def encodeList (encode : Nat → List Byte) (len : Nat) : Nat → Nat → List Byte → List Byte
  | _, 0, out => out
  | i, count + 1, out => if len = out.length then out else encodeList encode len (i + 1) count
      (out ++ encode i)

/-- `encode_traffic_flow_template`; `none` when the buffer has less than two bytes. -/
def encodeTrafficFlowTemplate (t : TrafficFlowTemplate) (iei : Byte)
    (len : Nat) : Option (List Byte) :=
  if len < 2 then none
  else
    let head := if 0 < iei then [iei] else []
    let first : Byte := t.tftoperationcode ++ t.ebit ++ t.numberofpacketfilters
    let rest := remaining len (head.length + 2)
    let list :=
      match listKind t.tftoperationcode with
      | .identifiers =>
        encodeList (fun i => [t.identifiers i]) rest 0 t.numberofpacketfilters.toNat []
      | .filters =>
        encodeList (fun i => (t.filters i).encode) rest 0 t.numberofpacketfilters.toNat []
      | .nothing => []
    some (head ++ BitVec.ofNat 8 (1 + list.length) :: first :: list)

inductive DecodeError where
  | unexpectedIei
  | bufferTooShort
  | valueDoesntMatch
deriving DecidableEq

section Decoder
variable (m : Nat → Byte)

def decodeU16 (at_ : Nat) : BitVec 16 := m at_ ++ m (at_ + 1)

def decodeU24 (at_ : Nat) : BitVec 32 :=
  decodeU32 (m at_) (m (at_ + 1)) (m (at_ + 2)) (m (at_ + 3)) >>> 8

/-- One case of the switch: the flag, and the value at a place of the buffer. -/
def readComponent (at_ : Nat) (f : PacketFilter) (c : Component) : PacketFilter :=
  let f := { f with flags := f.flags ||| (1#16 <<< c.flag) }
  match c with
  | .ipv4RemoteAddr => { f with ipv4remoteaddr := fun j => (m (at_ + j), m (at_ + j + 4)) }
  | .ipv6RemoteAddr => { f with ipv6remoteaddr := fun j => (m (at_ + j), m (at_ + j + 16)) }
  | .protocolNextHeader => { f with protocolidentifierNextheader := m at_ }
  | .singleLocalPort => { f with singlelocalport := decodeU16 m at_ }
  | .localPortRange => { f with localportrange := (decodeU16 m at_, decodeU16 m (at_ + 2)) }
  | .singleRemotePort => { f with singleremoteport := decodeU16 m at_ }
  | .remotePortRange => { f with remoteportrange := (decodeU16 m at_, decodeU16 m (at_ + 2)) }
  | .securityParameterIndex =>
    { f with securityparameterindex := decodeU32 (m at_) (m (at_ + 1)) (m (at_ + 2)) (m (at_ + 3)) }
  | .typeOfServiceTrafficClass => { f with typdeofserviceTrafficclass := (m at_, m (at_ + 1)) }
  | .flowLabel => { f with flowlabel := decodeU24 m at_ }

/-- The loop over the components; each turn uses a byte at least. -/
def decodeContents (end_ : Nat) : Nat → Nat → PacketFilter → Except DecodeError (PacketFilter × Nat)
  | 0, at_, f => .ok (f, at_)
  | fuel + 1, at_, f =>
    if at_ < end_ then
      match Component.all.find? fun c => c.code = m at_ with
      | none => .error .unexpectedIei
      | some c => decodeContents end_ fuel (at_ + 1 + c.size) (readComponent m (at_ + 1) f c)
    else .ok (f, at_)

def decodePacketFilter (at_ : Nat) (old : PacketFilters) :
    Except DecodeError (PacketFilters × Nat) := do
  let pkflen := (m (at_ + 2)).toNat
  let (f, next) ← decodeContents m (at_ + 3 + pkflen) pkflen (at_ + 3)
    { old.packetfilter with flags := 0 }
  return (⟨(m at_).extractLsb' 0 4, (m at_).extractLsb' 4 2, m (at_ + 1), f⟩, next)

/-- The loop over the filters, to the end of the message. -/
def decodePacketFilters (end_ : Nat) : Nat → Nat → Nat → (Nat → PacketFilters) →
    Except DecodeError ((Nat → PacketFilters) × Nat)
  | _, 0, at_, filters => if at_ ≠ end_ then .error .valueDoesntMatch else .ok (filters, at_)
  | i, count + 1, at_, filters =>
    if at_ = end_ then .error .valueDoesntMatch
    else
      match decodePacketFilter m at_ (filters i) with
      | .error e => .error e
      | .ok (f, next) =>
        decodePacketFilters end_ (i + 1) count next fun k => if k = i then f else filters k

def decodeIdentifiers (end_ : Nat) : Nat → Nat → Nat → (Nat → Byte) → (Nat → Byte) × Nat
  | _, 0, at_, identifiers => (identifiers, at_)
  | i, count + 1, at_, identifiers =>
    if at_ = end_ then (identifiers, at_)
    else decodeIdentifiers end_ (i + 1) count (at_ + 1)
      fun k => if k = i then m at_ else identifiers k

/-- `decode_traffic_flow_template` into a template that held `old`: the template and the number
of bytes. -/
def decodeTrafficFlowTemplate (iei : Byte) (len : Nat) (old : TrafficFlowTemplate) :
    Except DecodeError (TrafficFlowTemplate × Nat) :=
  if 0 < iei ∧ m 0 ≠ iei then .error .unexpectedIei
  else
    let decoded := if 0 < iei then 1 else 0
    let ielen := (m decoded).toNat
    if remaining len (decoded + 1) < ielen then .error .bufferTooShort
    else
      let first := m (decoded + 1)
      let t := { old with
        tftoperationcode := first.extractLsb' 5 3
        ebit := first.extractLsb' 4 1
        numberofpacketfilters := first.extractLsb' 0 4 }
      let decoded := decoded + 2
      match listKind t.tftoperationcode with
      | .identifiers =>
        let (identifiers, decoded) :=
          decodeIdentifiers m len 0 t.numberofpacketfilters.toNat decoded t.identifiers
        .ok ({ t with identifiers := identifiers }, decoded)
      | .filters => do
        let (filters, decoded) ← decodePacketFilters m len 0 t.numberofpacketfilters.toNat
          decoded t.filters
        return ({ t with filters := filters }, decoded)
      | .nothing => .ok (t, decoded)

end Decoder

section Memory
variable {m : Nat → Byte} {at_ : Nat}

def Holds (m : Nat → Byte) (at_ : Nat) (bytes : List Byte) : Prop := ∀ i
    (inside : i < bytes.length), m (at_ + i) = bytes[i]

theorem Holds.append {a b : List Byte} (held : Holds m at_ (a ++ b)) : Holds m at_ a ∧
    Holds m (at_ + a.length) b := by
  constructor
  · intro i inside
    have found := held i (by rw [List.length_append]; omega)
    rwa [List.getElem_append_left inside] at found
  · intro i inside
    have found := held (a.length + i) (by rw [List.length_append]; omega)
    rw [List.getElem_append_right (Nat.le_add_right ..)] at found
    simp only [Nat.add_sub_cancel_left] at found
    rw [Nat.add_assoc]
    exact found

theorem Holds.cons {b : Byte} {rest : List Byte} (held : Holds m at_ (b :: rest)) : m at_ = b ∧
    Holds m (at_ + 1) rest := by
  refine ⟨held 0 (Nat.succ_pos _), fun i inside => ?_⟩
  have found := held (i + 1) (Nat.succ_lt_succ inside)
  rw [List.getElem_cons_succ] at found
  rw [Nat.add_assoc, Nat.add_comm 1 i]
  exact found

theorem Holds.u16 {value : BitVec 16} (held : Holds m at_ (encodeU16 value)) :
    decodeU16 m at_ = value := by
  obtain ⟨high, held⟩ := held.cons
  obtain ⟨low, _⟩ := held.cons
  rw [decodeU16, high, low]
  apply BitVec.eq_of_getLsbD_eq
  intro i inside
  simp only [BitVec.getLsbD_append, BitVec.getLsbD_extractLsb']
  by_cases first : i < 8
  · simp [first]
  · simp [first, show i - 8 < 8 by omega, show 8 + (i - 8) = i by omega]

theorem Holds.u32 {value : BitVec 32} (held : Holds m at_ (encodeU32 value)) :
    decodeU32 (m at_) (m (at_ + 1)) (m (at_ + 2)) (m (at_ + 3)) = value := by
  obtain ⟨b0, held⟩ := held.cons
  obtain ⟨b1, held⟩ := held.cons
  obtain ⟨b2, held⟩ := held.cons
  obtain ⟨b3, _⟩ := held.cons
  rw [b0, b1, b2, b3]
  exact decodeU32_encodeU32 value

/-- The lowest byte is lost. -/
theorem Holds.u24 {value : BitVec 32} (held : Holds m at_ (encodeU24 value)) :
    decodeU24 m at_ = value >>> 8 := by
  obtain ⟨b0, held⟩ := held.cons
  obtain ⟨b1, held⟩ := held.cons
  obtain ⟨b2, _⟩ := held.cons
  have third : m (at_ + 2) = value.extractLsb' 8 8 := b2
  rw [decodeU24, b0, b1, third, decodeU32]
  apply BitVec.eq_of_getLsbD_eq
  intro i inside
  simp only [BitVec.getLsbD_ushiftRight, BitVec.getLsbD_append, BitVec.getLsbD_extractLsb']
  have last : ¬ 8 + i < 8 := by omega
  by_cases first : i < 8
  · simp [last, first]
  by_cases second : i < 16
  · simp [last, first, show i - 8 < 8 by omega, show 16 + (i - 8) = 8 + i by omega]
  by_cases third : i < 24
  · simp [last, first, show ¬ i - 8 < 8 by omega, show i - 8 - 8 < 8 by
      omega, show 24 + (i - 8 - 8) = 8 + i by omega]
  · simp [last, first, show ¬ i - 8 < 8 by omega, show ¬ i - 8 - 8 < 8 by
      omega, show 32 ≤ 8 + i by omega]

theorem Holds.pairs {n : Nat} {pairs : Fin n → Byte × Byte}
    (held : Holds m at_
      ((List.finRange n).map (fun j => (pairs j).1) ++ (List.finRange n).map
      fun j => (pairs j).2)) :
    (fun j : Fin n => (m (at_ + j), m (at_ + j + n))) = pairs := by
  obtain ⟨firsts, seconds⟩ := held.append
  rw [List.length_map, List.length_finRange] at seconds
  funext j
  have first := firsts j (by rw [List.length_map, List.length_finRange]; exact j.isLt)
  have second := seconds j (by rw [List.length_map, List.length_finRange]; exact j.isLt)
  rw [List.getElem_map, List.getElem_finRange] at first second
  have place : at_ + j + n = at_ + n + j := by omega
  rw [place, first, second]
  rfl

end Memory

section Contents
variable {m : Nat → Byte}

def Same (f g : PacketFilter) : Component → Prop
  | .ipv4RemoteAddr => f.ipv4remoteaddr = g.ipv4remoteaddr
  | .ipv6RemoteAddr => f.ipv6remoteaddr = g.ipv6remoteaddr
  | .protocolNextHeader => f.protocolidentifierNextheader = g.protocolidentifierNextheader
  | .singleLocalPort => f.singlelocalport = g.singlelocalport
  | .localPortRange => f.localportrange = g.localportrange
  | .singleRemotePort => f.singleremoteport = g.singleremoteport
  | .remotePortRange => f.remoteportrange = g.remoteportrange
  | .securityParameterIndex => f.securityparameterindex = g.securityparameterindex
  | .typeOfServiceTrafficClass => f.typdeofserviceTrafficclass = g.typdeofserviceTrafficclass
  | .flowLabel => f.flowlabel = g.flowlabel

theorem Same.trans {f g h : PacketFilter} {c : Component} (first : Same f g c)
    (second : Same g h c) : Same f h c := by
  cases c <;> exact Eq.trans first second

def PacketFilter.recovered (f : PacketFilter) : PacketFilter :=
  { f with flowlabel := (f.flowlabel &&& 0x000fffff) >>> 8 }

theorem readComponent_own {at_ : Nat} {f : PacketFilter} {c : Component} (g : PacketFilter)
    (held : Holds m at_ (f.body c)) :
    Same (readComponent m at_ g c) f.recovered c := by
  cases c with
  | ipv4RemoteAddr => exact held.pairs
  | ipv6RemoteAddr => exact held.pairs
  | protocolNextHeader => exact held.cons.1
  | singleLocalPort => exact held.u16
  | localPortRange => exact Prod.ext held.append.1.u16 held.append.2.u16
  | singleRemotePort => exact held.u16
  | remotePortRange => exact Prod.ext held.append.1.u16 held.append.2.u16
  | securityParameterIndex => exact held.u32
  | typeOfServiceTrafficClass => exact Prod.ext held.cons.1 held.cons.2.cons.1
  | flowLabel => exact held.u24

theorem readComponent_other {at_ : Nat} {c d : Component} (g : PacketFilter) (other : d ≠ c) :
    Same (readComponent m at_ g c) g d := by
  cases c <;> cases d <;> first | exact absurd rfl other | rfl

theorem readComponent_flags (at_ : Nat) (g : PacketFilter) (c : Component) :
    (readComponent m at_ g c).flags = g.flags ||| (1#16 <<< c.flag) := by
  cases c <;> rfl

theorem Component.flag_lt (c : Component) : c.flag < 10 := by
  cases c <;> decide

theorem flag_bit (c : Component) (i : Nat) : (1#16 <<< c.flag).getLsbD i = decide (i = c.flag) := by
  have bound := c.flag_lt
  rw [BitVec.getLsbD_shiftLeft, BitVec.getLsbD_one]
  by_cases same : i = c.flag
  · subst same
    simp
    omega
  · simp [same]
    omega

theorem PacketFilter.body_length (f : PacketFilter) (c : Component) :
    (f.body c).length = c.size := by
  cases c <;> simp [PacketFilter.body, Component.size, encodeU16, encodeU24, encodeU32]

theorem find_code (c : Component) : (Component.all.find? fun d => d.code = c.code) = some c := by
  cases c <;> decide

def PacketFilter.piece (f : PacketFilter) (c : Component) : List Byte := c.code :: f.body c

theorem PacketFilter.piece_length (f : PacketFilter) (c : Component) :
    (f.piece c).length = 1 + c.size := by
  rw [PacketFilter.piece, List.length_cons, f.body_length, Nat.add_comm]

/-- What the loop over the components has made of a filter. -/
structure Filled (f old new : PacketFilter) (cs : List Component) : Prop where
  read : ∀ c ∈ cs, Same new f.recovered c
  kept : ∀ c, c ∉ cs → Same new old c
  flags : ∀ i, new.flags.getLsbD i = (old.flags.getLsbD i || cs.any fun c => i = c.flag)

theorem Filled.cons {f old new : PacketFilter} {at_ : Nat} {c : Component} {cs : List Component}
    (held : Holds m at_ (f.body c))
    (filled : Filled f (readComponent m at_ old c) new cs) : Filled f old new (c :: cs) := by
  refine ⟨fun d member => ?_, fun d absent => ?_, fun i => ?_⟩
  · by_cases later : d ∈ cs
    · exact filled.read d later
    · obtain rfl : d = c := (List.mem_cons.mp member).resolve_right later
      exact (filled.kept d later).trans (readComponent_own old held)
  · rw [List.mem_cons, not_or] at absent
    exact (filled.kept d absent.2).trans (readComponent_other old absent.1)
  · rw [filled.flags, readComponent_flags, BitVec.getLsbD_or, flag_bit,
      List.any_cons, Bool.or_assoc]

theorem decodeContents_pieces {f : PacketFilter} (cs : List Component) (fuel at_ : Nat)
    (old : PacketFilter)
    (held : Holds m at_ (cs.flatMap f.piece)) (enough : (cs.flatMap f.piece).length ≤ fuel) :
    ∃ new, decodeContents m (at_ + (cs.flatMap f.piece).length) fuel at_ old =
      .ok (new, at_ + (cs.flatMap f.piece).length) ∧
      Filled f old new cs := by
  induction cs generalizing fuel at_ old with
  | nil =>
    refine ⟨old, ?_, nofun, fun c _ => ?_, fun i => by simp⟩
    · cases fuel with
      | zero => rfl
      | succ fuel => exact if_neg (Nat.lt_irrefl _)
    · cases c <;> rfl
  | cons c cs ih =>
    rw [List.flatMap_cons] at held enough ⊢
    rw [List.length_append, f.piece_length] at enough ⊢
    obtain ⟨piece, rest⟩ := held.append
    obtain ⟨code, body⟩ := piece.cons
    rw [f.piece_length] at rest
    obtain ⟨fuel, rfl⟩ : ∃ k, fuel = k + 1 := ⟨fuel - 1, by omega⟩
    obtain ⟨new, decoded, filled⟩ :=
      ih fuel (at_ + (1 + c.size)) (readComponent m (at_ + 1) old c) rest (by omega)
    refine ⟨new, ?_, filled.cons body⟩
    rw [decodeContents, if_pos (by omega), code, find_code]
    rw [Nat.add_assoc at_ (1 + c.size)] at decoded
    have next : at_ + 1 + c.size = at_ + (1 + c.size) := Nat.add_assoc ..
    simp only [next]
    exact decoded

theorem PacketFilter.contents_length_le (f : PacketFilter) : f.contents.length ≤ 72 := by
  have sub : (f.chosen.flatMap f.piece).Sublist (Component.all.flatMap f.piece) :=
    List.filter_sublist.flatMap f.piece
  have whole : (Component.all.flatMap f.piece).length = 72 := by
    simp [Component.all, f.piece_length, Component.size]
  exact whole ▸ sub.length_le

end Contents

section Lists
variable {m : Nat → Byte}

/-- Two filters with the same head, the same flags, and the same values where a flag is set. -/
structure PacketFilters.Equal (q p : PacketFilters) : Prop where
  identifier : q.identifier = p.identifier
  direction : q.direction = p.direction
  evalPrecedence : q.evalPrecedence = p.evalPrecedence
  flags : q.packetfilter.flags = p.packetfilter.flags
  values : ∀ c, p.packetfilter.flags.getLsbD c.flag → Same q.packetfilter p.packetfilter c

def PacketFilters.recovered (p : PacketFilters) : PacketFilters :=
  { p with packetfilter := p.packetfilter.recovered }

theorem PacketFilter.mem_chosen {f : PacketFilter} {c : Component} : c ∈ f.chosen ↔
    f.flags.getLsbD c.flag := by
  rw [PacketFilter.chosen, List.mem_filter]
  exact and_iff_right (by cases c <;> decide)

theorem Filled.flags_eq {f old new : PacketFilter} (filled : Filled f old new f.chosen)
    (cleared : old.flags = 0)
    (ten : f.flags.toNat < 2 ^ 10) : new.flags = f.flags := by
  apply BitVec.eq_of_getLsbD_eq
  intro i _
  rw [filled.flags, cleared, Bool.eq_iff_iff]
  simp only [BitVec.ofNat_eq_ofNat, BitVec.getLsbD_zero, Bool.false_or, List.any_eq_true,
    decide_eq_true_eq]
  constructor
  · rintro ⟨c, member, rfl⟩
    exact PacketFilter.mem_chosen.mp member
  · intro set
    have low : i < 10 := by
      by_contra high
      have zero : f.flags.toNat.testBit i = false :=
        Nat.testBit_lt_two_pow
          (Nat.lt_of_lt_of_le ten (Nat.pow_le_pow_right (by decide) (Nat.not_lt.mp high)))
      rw [BitVec.testBit_toNat, set] at zero
      exact Bool.noConfusion zero
    obtain ⟨c, rfl⟩ : ∃ c : Component, i = c.flag := by
      have every : ∀ i < 10, ∃ c ∈ Component.all, i = c.flag := by decide
      obtain ⟨c, _, found⟩ := every i low
      exact ⟨c, found⟩
    exact ⟨c, PacketFilter.mem_chosen.mpr set, rfl⟩

theorem head_halves (direction : BitVec 2) (identifier : BitVec 4) :
    ((0 : BitVec 2) ++ direction ++ identifier).extractLsb' 0 4 = identifier ∧
      ((0 : BitVec 2) ++ direction ++ identifier).extractLsb' 4 2 = direction := by
  revert direction identifier
  decide

theorem decodePacketFilter_encode {p : PacketFilters} (at_ : Nat) (old : PacketFilters)
    (held : Holds m at_ p.encode)
    (ten : p.packetfilter.flags.toNat < 2 ^ 10) :
    ∃ q, decodePacketFilter m at_ old = .ok (q, at_ + p.encode.length) ∧ q.Equal p.recovered := by
  obtain ⟨head, held⟩ := held.cons
  obtain ⟨precedence, held⟩ := held.cons
  obtain ⟨size, held⟩ := held.cons
  have small : (m (at_ + 2)).toNat = p.packetfilter.contents.length := by
    have bound := p.packetfilter.contents_length_le
    have size : m (at_ + 2) = BitVec.ofNat 8 p.packetfilter.contents.length := size
    rw [size, BitVec.toNat_ofNat, Nat.mod_eq_of_lt (by omega)]
  obtain ⟨new, decoded, filled⟩ :=
    decodeContents_pieces p.packetfilter.chosen p.packetfilter.contents.length (at_ + 3)
      { old.packetfilter with flags := 0 } held
      (Nat.le_refl _)
  refine ⟨⟨(m at_).extractLsb' 0 4, (m at_).extractLsb' 4 2, m (at_ + 1), new⟩, ?_, ?_⟩
  · have total : at_ + p.encode.length = at_ + 3 + p.packetfilter.contents.length := by
      simp only [PacketFilters.encode, List.length_cons]
      omega
    rw [decodePacketFilter, small, total]
    exact congrArg (fun r => r >>= _) decoded
  · obtain ⟨low, high⟩ := head_halves p.direction p.identifier
    rw [head, low, high]
    exact
      { identifier := rfl
        direction := rfl
        evalPrecedence := precedence
        flags := filled.flags_eq rfl ten
        values := fun c set => filled.read c (PacketFilter.mem_chosen.mpr set) }

theorem encode_pos (p : PacketFilters) : 0 < p.encode.length := Nat.succ_pos _

/-- The loop over the filters is content only when nothing follows. -/
theorem decodePacketFilters_encode {sent : Nat → PacketFilters} (end_ count i at_ : Nat)
    (old : Nat → PacketFilters)
    (held : Holds m at_ ((List.range' i count).flatMap fun k => (sent k).encode))
    (ten : ∀ k ∈ List.range' i count, (sent k).packetfilter.flags.toNat < 2 ^ 10)
    (inside : at_ + ((List.range' i count).flatMap fun k => (sent k).encode).length ≤ end_) :
    ∃ new : Nat → PacketFilters, (∀ k ∈ List.range' i count, (new k).Equal (sent k).recovered) ∧
      (∀ k < i, new k = old k) ∧
      decodePacketFilters m end_ i count at_ old =
        if at_ + ((List.range' i count).flatMap fun k => (sent k).encode).length = end_ then
        .ok (new, end_)
        else .error .valueDoesntMatch := by
  induction count generalizing i at_ old with
  | zero =>
    refine ⟨old, nofun, fun _ _ => rfl, ?_⟩
    by_cases full : at_ = end_
    · subst full
      simp [decodePacketFilters]
    · simp [decodePacketFilters, full]
  | succ count ih =>
    rw [List.range'_succ] at held ten inside ⊢
    rw [List.flatMap_cons] at held inside ⊢
    rw [List.length_append] at inside ⊢
    obtain ⟨first, rest⟩ := held.append
    have positive := encode_pos (sent i)
    obtain ⟨q, decoded, equal⟩ :=
      decodePacketFilter_encode at_ (old i) first (ten i List.mem_cons_self)
    obtain ⟨new, same, before, result⟩ :=
      ih (i + 1) (at_ + (sent i).encode.length) (fun k => if k = i then q else old k) rest
        (fun k member => ten k (List.mem_cons_of_mem i member)) (by omega)
    refine ⟨new, fun k member => ?_, fun k less => ?_, ?_⟩
    · rcases List.mem_cons.mp member with rfl | later
      · rw [before k (Nat.lt_succ_self k), if_pos rfl]
        exact equal
      · exact same k later
    · rw [before k (Nat.lt_succ_of_lt less), if_neg (Nat.ne_of_lt less)]
    · rw [decodePacketFilters, if_neg (by omega), decoded]
      simp only [result, Nat.add_assoc]

theorem decodeIdentifiers_encode {sent : Nat → Byte} (end_ count i at_ : Nat) (old : Nat → Byte)
    (held : Holds m at_ ((List.range' i count).flatMap fun k => [sent k]))
    (inside : at_ + count ≤ end_) :
    ∃ new : Nat → Byte, (∀ k ∈ List.range' i count, new k = sent k) ∧ (∀ k < i, new k = old k) ∧
      decodeIdentifiers m end_ i count at_ old = (new, at_ + count) := by
  induction count generalizing i at_ old with
  | zero => exact ⟨old, nofun, fun _ _ => rfl, rfl⟩
  | succ count ih =>
    rw [List.range'_succ] at held ⊢
    obtain ⟨first, rest⟩ := held.cons
    obtain ⟨new, same, before, result⟩ :=
      ih (i + 1) (at_ + 1) (fun k => if k = i then m at_ else old k) rest (by omega)
    refine ⟨new, fun k member => ?_, fun k less => ?_, ?_⟩
    · rcases List.mem_cons.mp member with rfl | later
      · rw [before k (Nat.lt_succ_self k), if_pos rfl]
        exact first
      · exact same k later
    · rw [before k (Nat.lt_succ_of_lt less), if_neg (Nat.ne_of_lt less)]
    · rw [decodeIdentifiers, if_neg (by omega), result, Nat.add_assoc, Nat.add_comm 1 count]

theorem encodeList_eq (encode : Nat → List Byte) (len count i : Nat) (out : List Byte)
    (positive : ∀ k, 0 < (encode k).length)
    (room : out.length + ((List.range' i count).flatMap encode).length ≤ len) :
    encodeList encode len i count out = out ++ (List.range' i count).flatMap encode := by
  induction count generalizing i out with
  | zero => exact (List.append_nil out).symm
  | succ count ih =>
    have some_ := positive i
    rw [List.range'_succ, List.flatMap_cons, List.length_append] at room
    rw [encodeList, if_neg (by omega), ih, List.range'_succ, List.flatMap_cons, List.append_assoc]
    rw [List.length_append]
    omega

end Lists

section Message

/-- The bytes of the list in a buffer with room for them. -/
def TrafficFlowTemplate.list (t : TrafficFlowTemplate) : List Byte :=
  match listKind t.tftoperationcode with
  | .identifiers => (List.range' 0 t.numberofpacketfilters.toNat).flatMap fun k => [t.identifiers k]
  | .filters => (List.range' 0 t.numberofpacketfilters.toNat).flatMap fun k => (t.filters k).encode
  | .nothing => []

/-- A template on its way: the buffer it is written to, and what follows it in the message. -/
structure Carried where
  template : TrafficFlowTemplate
  iei : Byte
  capacity : Nat
  following : List Byte
  /-- The memory behind the message. -/
  beyond : Nat → Byte
  four : listKind template.tftoperationcode = .filters → template.numberofpacketfilters.toNat ≤ 4
  ten : listKind template.tftoperationcode = .filters →
    ∀ k < template.numberofpacketfilters.toNat,
      (template.filters k).packetfilter.flags.toNat < 2 ^ 10
  labels : listKind template.tftoperationcode = .filters →
    ∀ k < template.numberofpacketfilters.toNat,
      (template.filters k).packetfilter.flags.getLsbD Component.flowLabel.flag →
      (template.filters k).packetfilter.flowlabel.toNat < 2 ^ 20
  short : 1 + template.list.length ≤ 255
  room : (if 0 < iei then 1 else 0) + 2 + template.list.length ≤ capacity
  machine : capacity < 2 ^ 32
  length : (if 0 < iei then 1 else 0) + 2 + template.list.length + following.length < 2 ^ 32

def memory (bytes : List Byte) (beyond : Nat → Byte) (i : Nat) : Byte := bytes.getD i (beyond i)

theorem memory_holds (bytes following : List Byte) (beyond : Nat → Byte) :
    Holds (memory (bytes ++ following) beyond) 0 bytes := by
  intro i inside
  rw [memory, Nat.zero_add, List.getD_eq_getElem?_getD, List.getElem?_append_left inside,
    List.getElem?_eq_getElem inside]
  rfl

/-- The same operation code, E bit, count, and list. -/
structure TrafficFlowTemplate.Equal (t u : TrafficFlowTemplate) : Prop where
  tftoperationcode : t.tftoperationcode = u.tftoperationcode
  ebit : t.ebit = u.ebit
  numberofpacketfilters : t.numberofpacketfilters = u.numberofpacketfilters
  filters : listKind u.tftoperationcode = .filters → ∀ k < u.numberofpacketfilters.toNat,
    (t.filters k).Equal (u.filters k)
  identifiers : listKind u.tftoperationcode = .identifiers →
    ∀ k < u.numberofpacketfilters.toNat, t.identifiers k = u.identifiers k

def Carried.Returned (s : Carried) (old : TrafficFlowTemplate) : Prop :=
  ∃ bytes t, encodeTrafficFlowTemplate s.template s.iei s.capacity = some bytes ∧
    decodeTrafficFlowTemplate (memory (bytes ++ s.following) s.beyond) s.iei
      (bytes ++ s.following).length old =
      .ok (t, bytes.length) ∧
    t.Equal s.template

def Carried.head (s : Carried) : List Byte := if 0 < s.iei then [s.iei] else []

def TrafficFlowTemplate.first (t : TrafficFlowTemplate) : Byte :=
  t.tftoperationcode ++ t.ebit ++ t.numberofpacketfilters

def Carried.bytes (s : Carried) : List Byte :=
  s.head ++ BitVec.ofNat 8 (1 + s.template.list.length) :: s.template.first :: s.template.list

variable (s : Carried)

theorem Carried.head_length : s.head.length = if 0 < s.iei then 1 else 0 := by
  rw [Carried.head]
  split <;> rfl

theorem Carried.bytes_length : s.bytes.length = s.head.length + 2 + s.template.list.length := by
  simp only [Carried.bytes, List.length_append, List.length_cons]
  omega

theorem Carried.encode_eq : encodeTrafficFlowTemplate s.template s.iei s.capacity =
    some s.bytes := by
  have room := s.room
  have machine := s.machine
  rw [← s.head_length] at room
  have left : remaining s.capacity (s.head.length + 2) = s.capacity - (s.head.length + 2) := by
    rw [remaining]
    omega
  have list : (match listKind s.template.tftoperationcode with
      | .identifiers =>
        encodeList (fun i => [s.template.identifiers i]) (s.capacity - (s.head.length + 2)) 0
          s.template.numberofpacketfilters.toNat []
      | .filters =>
        encodeList (fun i => (s.template.filters i).encode) (s.capacity - (s.head.length + 2)) 0
          s.template.numberofpacketfilters.toNat []
      | .nothing => []) = s.template.list := by
    rw [TrafficFlowTemplate.list] at room ⊢
    split
    · rename_i kind
      simp only [kind] at room
      exact encodeList_eq _ _ _ _ [] (fun _ => Nat.one_pos) (by simp only [List.length_nil]; omega)
    · rename_i kind
      simp only [kind] at room
      exact encodeList_eq _ _ _ _ [] (fun k => encode_pos _) (by simp only [List.length_nil]; omega)
    · rfl
  rw [← left] at list
  rw [encodeTrafficFlowTemplate, if_neg (by omega)]
  exact congrArg
    (fun list => some (s.head ++ BitVec.ofNat 8 (1 + list.length) :: s.template.first :: list)) list

theorem first_fields (t : TrafficFlowTemplate) :
    t.first.extractLsb' 5 3 = t.tftoperationcode ∧ t.first.extractLsb' 4 1 = t.ebit ∧
      t.first.extractLsb' 0 4 = t.numberofpacketfilters := by
  have all : ∀ (code : BitVec 3) (e : BitVec 1) (count : BitVec 4),
      (code ++ e ++ count).extractLsb' 5 3 = code ∧ (code ++ e ++ count).extractLsb' 4 1 = e ∧
        (code ++ e ++ count).extractLsb' 0 4 = count := by
    decide
  exact all t.tftoperationcode t.ebit t.numberofpacketfilters

def Carried.arrived : Nat → Byte := memory (s.bytes ++ s.following) s.beyond

/-- The template with the fields of its first octet. -/
def Carried.opened (old : TrafficFlowTemplate) : TrafficFlowTemplate :=
  { old with
    tftoperationcode := s.template.tftoperationcode
    ebit := s.template.ebit
    numberofpacketfilters := s.template.numberofpacketfilters }

theorem Carried.arrived_list : Holds s.arrived (s.head.length + 2) s.template.list ∧
    s.arrived s.head.length = BitVec.ofNat 8 (1 + s.template.list.length) ∧
    s.arrived (s.head.length + 1) = s.template.first := by
  have held : Holds s.arrived 0 s.bytes := memory_holds s.bytes s.following s.beyond
  obtain ⟨_, rest⟩ := held.append
  obtain ⟨size, rest⟩ := rest.cons
  obtain ⟨first, rest⟩ := rest.cons
  rw [Nat.zero_add] at size first rest
  exact ⟨rest, size, first⟩

theorem Carried.arrived_iei : ¬ (0 < s.iei ∧ s.arrived 0 ≠ s.iei) := by
  rintro ⟨present, differs⟩
  have held : Holds s.arrived 0 s.bytes := memory_holds s.bytes s.following s.beyond
  rw [Carried.bytes, Carried.head, if_pos present] at held
  exact differs held.cons.1

theorem Carried.decode_eq (old : TrafficFlowTemplate) :
    decodeTrafficFlowTemplate s.arrived s.iei (s.bytes ++ s.following).length old =
      match listKind s.template.tftoperationcode with
      | .identifiers =>
        let (identifiers, decoded) := decodeIdentifiers s.arrived (s.bytes ++ s.following).length 0
          s.template.numberofpacketfilters.toNat (s.head.length + 2) old.identifiers
        .ok ({ s.opened old with identifiers := identifiers }, decoded)
      | .filters => do
        let (filters, decoded) ← decodePacketFilters s.arrived (s.bytes ++ s.following).length 0
          s.template.numberofpacketfilters.toNat (s.head.length + 2) old.filters
        return ({ s.opened old with filters := filters }, decoded)
      | .nothing => .ok (s.opened old, s.head.length + 2) := by
  obtain ⟨_, size, first⟩ := s.arrived_list
  obtain ⟨code, e, count⟩ := first_fields s.template
  have short := s.short
  have length := s.length
  have total : (s.bytes ++ s.following).length = s.head.length + 2 + s.template.list.length +
      s.following.length := by
    rw [List.length_append, s.bytes_length]
  rw [← s.head_length] at length
  have enough : ¬ remaining (s.bytes ++ s.following).length (s.head.length + 1) <
      (s.arrived s.head.length).toNat := by
    rw [size, BitVec.toNat_ofNat, Nat.mod_eq_of_lt (by omega), remaining, total]
    omega
  rw [decodeTrafficFlowTemplate, if_neg s.arrived_iei]
  simp only [← s.head_length]
  rw [if_neg enough, first, code, e, count]
  rfl

theorem ends_iff {bytes following : List Byte} : bytes.length = (bytes ++ following).length ↔
    following = [] := by
  rw [List.length_append, Nat.left_eq_add, List.length_eq_zero_iff]

theorem label_kept {label : BitVec 32} (twenty : label.toNat < 2 ^ 20) :
    (label &&& 0x000fffff) >>> 8 = label ↔ label = 0 := by
  have masked : label &&& 0x000fffff = label := by
    apply BitVec.eq_of_toNat_eq
    rw [BitVec.toNat_and]
    exact (Nat.and_two_pow_sub_one_eq_mod label.toNat 20).trans (Nat.mod_eq_of_lt twenty)
  rw [masked]
  constructor
  · intro same
    have equal : label.toNat >>> 8 = label.toNat := by
      rw [← BitVec.toNat_ushiftRight, same]
    rw [Nat.shiftRight_eq_div_pow] at equal
    apply BitVec.eq_of_toNat_eq
    have nothing : label.toNat = 0 := by omega
    exact nothing
  · intro zero
    subst zero
    rfl

/-- A filter that came back is the one sent unless its label was lost. -/
theorem PacketFilters.equal_iff {q p : PacketFilters} (back : q.Equal p.recovered)
    (twenty : p.packetfilter.flags.getLsbD Component.flowLabel.flag →
      p.packetfilter.flowlabel.toNat < 2 ^ 20) :
    q.Equal p ↔ (p.packetfilter.flags.getLsbD Component.flowLabel.flag →
      p.packetfilter.flowlabel = 0) := by
  constructor
  · intro equal set
    have mine : q.packetfilter.flowlabel = p.packetfilter.flowlabel := equal.values .flowLabel set
    have theirs : q.packetfilter.flowlabel = (p.packetfilter.flowlabel &&& 0x000fffff) >>> 8 :=
      back.values .flowLabel set
    exact (label_kept (twenty set)).mp (theirs.symm.trans mine)
  · intro zero
    refine ⟨back.identifier, back.direction, back.evalPrecedence, back.flags, fun c set => ?_⟩
    have value := back.values c set
    cases c with
    | flowLabel => exact value.trans ((label_kept (twenty set)).mpr (zero set))
    | _ => exact value

theorem Carried.returned_iff_decoded (old : TrafficFlowTemplate) : s.Returned old ↔
    ∃ t, decodeTrafficFlowTemplate s.arrived s.iei (s.bytes ++ s.following).length old =
      .ok (t, s.bytes.length) ∧
      t.Equal s.template := by
  constructor
  · rintro ⟨bytes, t, encoded, decoded, equal⟩
    obtain rfl : s.bytes = bytes := Option.some.inj (s.encode_eq.symm.trans encoded)
    exact ⟨t, decoded, equal⟩
  · rintro ⟨t, decoded, equal⟩
    exact ⟨s.bytes, t, s.encode_eq, decoded, equal⟩

theorem Carried.opened_equal (old : TrafficFlowTemplate) {filters : Nat → PacketFilters}
    {identifiers : Nat → Byte}
    (first : listKind s.template.tftoperationcode = .filters →
      ∀ k < s.template.numberofpacketfilters.toNat, (filters k).Equal (s.template.filters k))
    (second : listKind s.template.tftoperationcode = .identifiers →
      ∀ k < s.template.numberofpacketfilters.toNat, identifiers k = s.template.identifiers k) :
    ({ s.opened old with filters := filters, identifiers := identifiers } :
      TrafficFlowTemplate).Equal s.template :=
  ⟨rfl, rfl, rfl, first, second⟩

theorem Carried.returned_identifiers (old : TrafficFlowTemplate)
    (kind : listKind s.template.tftoperationcode = .identifiers) :
    s.Returned old := by
  have list : s.template.list = (List.range' 0 s.template.numberofpacketfilters.toNat).flatMap
      fun k => [s.template.identifiers k] := by
    simp only [TrafficFlowTemplate.list, kind]
  have count : s.template.list.length = s.template.numberofpacketfilters.toNat := by
    rw [list, List.length_flatMap]
    simp
  obtain ⟨new, same, _, result⟩ :=
    decodeIdentifiers_encode (m := s.arrived) (s.bytes ++ s.following).length
    s.template.numberofpacketfilters.toNat 0 (s.head.length + 2) old.identifiers
      (list ▸ s.arrived_list.1)
    (by rw [List.length_append, s.bytes_length]; omega)
  rw [s.returned_iff_decoded, s.decode_eq]
  simp only [kind, result]
  refine ⟨_, by rw [s.bytes_length, count], s.opened_equal old ?_ ?_⟩
  · intro other
    exact absurd (kind.symm.trans other) (by decide)
  · intro _ k less
    exact same k (List.mem_range'_1.mpr ⟨Nat.zero_le k, by omega⟩)

theorem Carried.returned_nothing (old : TrafficFlowTemplate)
    (kind : listKind s.template.tftoperationcode = .nothing) :
    s.Returned old := by
  have list : s.template.list = [] := by
    simp only [TrafficFlowTemplate.list, kind]
  rw [s.returned_iff_decoded, s.decode_eq]
  simp only [kind]
  refine ⟨_, by rw [s.bytes_length, list]; rfl, s.opened_equal old ?_ ?_⟩ <;>
  · intro other
    exact absurd (kind.symm.trans other) (by decide)

theorem Carried.returned_filters (old : TrafficFlowTemplate)
    (kind : listKind s.template.tftoperationcode = .filters) :
    s.Returned old ↔ s.following = [] ∧
      ∀ k < s.template.numberofpacketfilters.toNat,
        (s.template.filters k).packetfilter.flags.getLsbD Component.flowLabel.flag →
        (s.template.filters k).packetfilter.flowlabel = 0 := by
  have list : s.template.list =
      (List.range' 0 s.template.numberofpacketfilters.toNat).flatMap
          fun k => (s.template.filters k).encode := by
    simp only [TrafficFlowTemplate.list, kind]
  have small : ∀ {k}, k ∈ List.range' 0 s.template.numberofpacketfilters.toNat ↔
      k < s.template.numberofpacketfilters.toNat := by
    intro k
    rw [List.mem_range'_1, Nat.zero_add]
    exact and_iff_right (Nat.zero_le k)
  obtain ⟨new, same, _, result⟩ :=
    decodePacketFilters_encode (m := s.arrived) (s.bytes ++ s.following).length
    s.template.numberofpacketfilters.toNat 0 (s.head.length + 2) old.filters
      (list ▸ s.arrived_list.1)
    (fun k member => s.ten kind k (small.mp member))
      (by rw [← list, List.length_append, s.bytes_length]; omega)
  rw [← list, ← s.bytes_length] at result
  have equal_iff (k : Nat) (less : k < s.template.numberofpacketfilters.toNat) :=
    PacketFilters.equal_iff (same k (small.mpr less)) (s.labels kind k less)
  rw [s.returned_iff_decoded, s.decode_eq]
  simp only [kind]
  constructor
  · rintro ⟨t, decoded, equal⟩
    by_cases last : s.following = []
    · rw [result, if_pos (ends_iff.mpr last)] at decoded
      obtain ⟨rfl, _⟩ := Prod.mk.inj (Except.ok.inj decoded)
      exact ⟨last, fun k less => (equal_iff k less).mp (equal.filters kind k less)⟩
    · rw [result, if_neg (mt ends_iff.mp last)] at decoded
      exact nomatch decoded
  · rintro ⟨last, zero⟩
    rw [if_pos (ends_iff.mpr last)] at result
    rw [result]
    refine ⟨_, by rw [last, List.append_nil]; rfl, s.opened_equal old ?_ ?_⟩
    · intro _ k less
      exact (equal_iff k less).mpr (zero k less)
    · intro other
      exact absurd (kind.symm.trans other) (by decide)

/-- The decoder gives a template back, whatever the message holds behind it, unless it has filters:
then the message has to end with it, and its flow labels have to be zero. -/
theorem carried_returned_iff (old : TrafficFlowTemplate) :
    s.Returned old ↔
      (listKind s.template.tftoperationcode = .filters → s.following = [] ∧
        ∀ k < s.template.numberofpacketfilters.toNat,
          (s.template.filters k).packetfilter.flags.getLsbD Component.flowLabel.flag →
          (s.template.filters k).packetfilter.flowlabel = 0) := by
  cases kind : listKind s.template.tftoperationcode with
  | filters => simpa using s.returned_filters old kind
  | identifiers => simpa using s.returned_identifiers old kind
  | nothing => simpa using s.returned_nothing old kind

def protocolFilter : PacketFilters where
  identifier := 1
  direction := 3
  evalPrecedence := 0
  packetfilter :=
    { flags := 0b100
      ipv4remoteaddr := fun _ => (0, 0)
      ipv6remoteaddr := fun _ => (0, 0)
      protocolidentifierNextheader := 6
      singlelocalport := 0
      localportrange := (0, 0)
      singleremoteport := 0
      remoteportrange := (0, 0)
      securityparameterindex := 0
      typdeofserviceTrafficclass := (0, 0)
      flowlabel := 0 }

def oneFilter : TrafficFlowTemplate := ⟨0b001, 0, 1, fun _ => protocolFilter, fun _ => 0⟩

/-- A new template of one filter, and the next element of the message behind it. -/
def notLast : Carried where
  template := oneFilter
  iei := 0
  capacity := 64
  following := [0x27]
  beyond := fun _ => 0
  four := by decide
  ten := fun _ _ _ => by change (0b100 : BitVec 16).toNat < 2 ^ 10; decide
  labels := fun _ _ _ _ => by change (0 : BitVec 32).toNat < 2 ^ 20; decide
  short := by decide
  room := by decide
  machine := by decide
  length := by decide

/-- The next element makes the decoder refuse the template. -/
theorem notLast_refused :
    decodeTrafficFlowTemplate (memory (notLast.bytes ++ [0x27]) fun _ => 0) 0 8 oneFilter =
    .error .valueDoesntMatch ∧
      ¬ notLast.Returned oneFilter := by
  refine ⟨by rfl, fun returned => ?_⟩
  obtain ⟨empty, _⟩ := (notLast.returned_filters oneFilter (by decide)).mp returned
  exact nomatch empty

end Message

end OpenAir.Nas
