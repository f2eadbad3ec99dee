import OpenAir.Lib.BitField
import OpenAir.Rlc.Am.Constants

/-! The STATUS PDU: its decoded form, the bit cursors that read and write packed
fields, the decoder and the encoder. -/
namespace OpenAir.Rlc.Am
open BitField

/-- `nack_sn_t`. -/
structure NackSn where
  nackSn : Nat
  e1 : Bool
  e2 : Bool
  soStart : Nat
  soEnd : Nat
deriving Repr, DecidableEq

/-- `rlc_am_control_pdu_info_t`. The entry stored `k`-th has index `k` in the
array of the source, so `nackList.length` is `num_nack` and tells which indices
were written. -/
structure ControlPduInfo where
  dC : Bool := false
  cpt : Nat := 0
  ackSn : Nat := 0
  e1 : Bool := false
  nackList : List NackSn := []
deriving Repr, DecidableEq

/-- A byte pointer together with the bit reached in that byte (0 is the leftmost). -/
structure Cursor where
  byte : Nat
  bit : Nat
deriving Repr, DecidableEq

def Cursor.pos (c : Cursor) : Nat := 8 * c.byte + c.bit

/-- Every round consumes at least one bit, so `bitsToRead` rounds are enough. -/
def readBitFieldLoop (mem : Memory) : Nat → Cursor → Nat → Nat → Nat × Cursor
  | 0, c, _, value => (value, c)
  | rounds + 1, c, bitsToRead, value =>
    let data := (mem c.byte).toNat
    if 8 - c.bit > bitsToRead then
      (((value <<< bitsToRead) ||| ((data &&& (0xFF >>> c.bit)) >>> (8 - c.bit - bitsToRead)))
        % 2 ^ 16,
        { c with bit := c.bit + bitsToRead })
    else if 8 - c.bit = bitsToRead then
      (((value <<< bitsToRead) ||| (data &&& (0xFF >>> c.bit))) % 2 ^ 16, ⟨c.byte + 1, 0⟩)
    else
      readBitFieldLoop mem rounds ⟨c.byte + 1, 0⟩ (bitsToRead - (8 - c.bit))
        (((value <<< (8 - c.bit)) ||| (data &&& (0xFF >>> c.bit))) % 2 ^ 16)

def readBitField (mem : Memory) (c : Cursor) (bitsToRead : Nat) : Nat × Cursor :=
  readBitFieldLoop mem bitsToRead c bitsToRead 0

/-- `**data_ppP = **data_ppP | x`. -/
def orByte (mem : Memory) (a x : Nat) : Memory :=
  Function.update mem a (UInt8.ofNat ((mem a).toNat ||| x))

def write8BitFieldLoop : Nat → Memory → Cursor → Nat → Nat → Memory × Cursor
  | 0, mem, c, _, _ => (mem, c)
  | rounds + 1, mem, c, bitsToWrite, value =>
    let available := 8 - c.bit
    if available > bitsToWrite then
      (orByte mem c.byte
        ((value &&& (0xFF >>> (available - bitsToWrite))) <<< (available - bitsToWrite)),
        { c with bit := c.bit + bitsToWrite })
    else if available = bitsToWrite then
      (orByte mem c.byte (value &&& (0xFF >>> (8 - bitsToWrite))), ⟨c.byte + 1, 0⟩)
    else
      write8BitFieldLoop rounds (orByte mem c.byte (value >>> (bitsToWrite - available)))
        ⟨c.byte + 1, 0⟩ (bitsToWrite - available) value

def write8BitField (out : Memory × Cursor) (bitsToWrite value : Nat) : Memory × Cursor :=
  write8BitFieldLoop bitsToWrite out.1 out.2 bitsToWrite value

def write16BitField (out : Memory × Cursor) (bitsToWrite value : Nat) : Memory × Cursor :=
  if bitsToWrite > 8 then
    write8BitField (write8BitField out (bitsToWrite - 8) ((value >>> 8) % 2 ^ 8)) 8
      (value &&& 0x00FF)
  else
    write8BitField out bitsToWrite (value &&& 0x00FF)

/-- One round of the `nack_to_read` loop: the entry stored and the cursor behind it. -/
def readNack (mem : Memory) (c : Cursor) : NackSn × Cursor :=
  let (nackSn, c) := readBitField mem c 10
  let (e1, c) := readBitField mem c 1
  let (e2, c) := readBitField mem c 1
  if e2 = 0 then
    (⟨nackSn, e1 != 0, false, 0, statusPduSoEndAllBytes⟩, c)
  else
    let (soStart, c) := readBitField mem c 15
    let (soEnd, c) := readBitField mem c 15
    (⟨nackSn, e1 != 0, true, soStart, soEnd⟩, c)

/-- `byte_pos_p + (bit_pos + 7)/8 - header_pP`. -/
def Cursor.bytes (c : Cursor) : Nat := c.byte + (c.bit + 7) / 8

/-- What a decoder leaves behind: the returned code, the caller's size after the
subtraction of what was consumed, and the structure filled so far. -/
structure ControlPduRead where
  ret : Int
  totalSize : Int
  info : ControlPduInfo
deriving Repr, DecidableEq

/-- The loop over NACKs. `room` counts the entries the array can still take; the
round that fills the last one returns whatever its `e1` says. -/
def readNacks (mem : Memory) : Nat → Cursor → Int → ControlPduInfo → ControlPduRead
  | 0, _, totalSize, info => ⟨-2, totalSize, info⟩
  | room + 1, c, totalSize, info =>
    let (nack, c) := readNack mem c
    let info := { info with nackList := info.nackList ++ [nack] }
    if nack.e1 = false then
      ⟨0, totalSize - c.bytes, info⟩
    else if info.nackList.length = maxNackInStatusPdu then
      ⟨-2, totalSize - c.bytes, info⟩
    else
      readNacks mem room c totalSize info

/-- `rlc_am_get_control_pdu_infos` on the bytes found at the header pointer. -/
def getControlPduInfos (mem : Memory) (totalSize : Int) : ControlPduRead :=
  let b1 := (mem 0).toNat
  let b2 := (mem 1).toNat
  let info : ControlPduInfo := { dC := b1 >>> 7 != 0 }
  if info.dC = false then
    let info := { info with cpt := (b1 >>> 4) &&& 0x07 }
    if info.cpt ≠ 0 then
      ⟨-3, totalSize, info⟩
    else
      let info := { info with
        ackSn := ((b2 >>> 2) &&& 0x3F) ||| ((b1 &&& 0x0F) <<< 6)
        e1 := (b2 >>> 1) &&& 0x01 != 0 }
      if info.e1 then
        readNacks mem maxNackInStatusPdu ⟨1, 7⟩ totalSize info
      else
        ⟨0, totalSize - 2, info⟩
  else
    ⟨-1, totalSize, info⟩

/-- One round of the encoder's loop. -/
def writeNack (out : Memory × Cursor) (nack : NackSn) : Memory × Cursor :=
  let out := write16BitField out 10 nack.nackSn
  let out := write8BitField out 1 nack.e1.toNat
  let out := write8BitField out 1 nack.e2.toNat
  if nack.e2 then
    write16BitField (write16BitField out 15 nack.soStart) 15 nack.soEnd
  else
    out

/-- `rlc_am_write_status_pdu`: bits are or-ed into the buffer it is given. Returns
the buffer and `num_bytes`. -/
def writeStatusPdu (mem : Memory) (info : ControlPduInfo) : Memory × Nat :=
  let out := write16BitField (mem, ⟨0, 4⟩) 10 info.ackSn
  let out := write8BitField out 1 (if 0 < info.nackList.length then 1 else 0)
  let (mem, c) := info.nackList.foldl writeNack out
  (mem, if c.bit > 0 then c.byte + 1 else c.byte)

end OpenAir.Rlc.Am
