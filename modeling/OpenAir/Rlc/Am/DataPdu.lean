import OpenAir.Lib.BitField
import OpenAir.Rlc.Am.Constants

/-! AMD PDUs and AMD PDU segments: the decoded header and its decoder. -/
namespace OpenAir.Rlc.Am
open BitField

/-- `rlc_am_pdu_info_t`. The indicator stored `k`-th has index `k` in the array of
the source, so `liList.length` is `num_li` and tells which indices were written.
`payload` is an address counted from the header. -/
structure PduInfo where
  dC : Bool := false
  rf : Bool := false
  p : Bool := false
  fi : Nat := 0
  e : Bool := false
  sn : Nat := 0
  lsf : Bool := false
  so : Nat := 0
  liList : List Nat := []
  hiddenSize : Int := 0
  payload : Nat := 0
  payloadSize : Int := 0
  headerSize : Nat := 0
deriving Repr, DecidableEq

def PduInfo.numLi (info : PduInfo) : Nat := info.liList.length

structure DataPduRead where
  ret : Int
  info : PduInfo
deriving Repr, DecidableEq

/-- What the loop over length indicators leaves: the structure filled so far, the
running `sum_li`, and whether the loop was left by the capacity check. -/
structure LiRead where
  tooMany : Bool
  sumLi : Int
  info : PduInfo
deriving Repr, DecidableEq

/-- The loop over length indicators, `liLengthInBytes` alternating between 2 and
1 and `eLi` moving on by three bytes after every pair. The capacity is checked
after the store, so `room` is one more than the number of indicators the array
can still take. -/
def readLis (mem : Memory) : Nat → Nat → Nat → Int → PduInfo → LiRead
  | 0, _, _, sumLi, info => ⟨true, sumLi, info⟩
  | room + 1, eLi, liLengthInBytes, sumLi, info =>
    let b1 := (mem eLi).toNat
    let b2 := (mem (eLi + 1)).toNat
    let b3 := (mem (eLi + 2)).toNat
    let liLengthInBytes := liLengthInBytes ^^^ 3
    let li := if liLengthInBytes = 2 then ((b1 <<< 4) &&& 0x07F0) ||| ((b2 >>> 4) &&& 0x000F)
      else ((b2 <<< 8) &&& 0x0700) ||| b3
    let liToRead := if liLengthInBytes = 2 then b1 &&& 0x80 else b2 &&& 0x08
    let eLi := if liLengthInBytes = 2 then eLi else eLi + 3
    let info := { info with
      liList := info.liList ++ [li]
      headerSize := info.headerSize + if liLengthInBytes = 2 then 2 else 1 }
    let sumLi := int16 (sumLi + li)
    if info.numLi > maxSduInPdu then
      ⟨true, sumLi, info⟩
    else if liToRead ≠ 0 then
      readLis mem room eLi liLengthInBytes sumLi info
    else
      ⟨false, sumLi, { info with payload := if liLengthInBytes = 2 then eLi + 2 else eLi }⟩

/-- The fixed part of the header: what is read before the E bit is looked at. -/
def readFixedHeader (mem : Memory) : PduInfo :=
  let b1 := (mem 0).toNat
  let info : PduInfo :=
    { dC := true
      rf := (b1 >>> 6) &&& 0x01 != 0
      p := (b1 >>> 5) &&& 0x01 != 0
      fi := (b1 >>> 3) &&& 0x03
      e := (b1 >>> 2) &&& 0x01 != 0
      sn := (mem 1).toNat + ((b1 &&& 0x03) <<< 8)
      headerSize := 2 }
  if info.rf then
    { info with
      lsf := ((mem 2).toNat >>> 7) &&& 0x01 != 0
      so := (mem 3).toNat + (((mem 2).toNat &&& 0x7F) <<< 8)
      payload := 4
      headerSize := 4 }
  else
    { info with payload := 2 }

/-- `rlc_am_get_data_pdu_infos` on the bytes found at the header pointer. -/
def getDataPduInfos (mem : Memory) (totalSize : Int16) : DataPduRead :=
  if (mem 0).toNat >>> 7 = 0 then
    ⟨-2, {}⟩
  else
    let info := readFixedHeader mem
    let lis : LiRead := if info.e then readLis mem (maxSduInPdu + 1) info.payload 1 0 info
      else ⟨false, 0, info⟩
    if lis.tooMany then
      ⟨-2, lis.info⟩
    else
      let payloadSize := int16 (totalSize.toInt - lis.info.headerSize)
      let info := { lis.info with payloadSize := payloadSize }
      if payloadSize > lis.sumLi then
        ⟨0, { info with hiddenSize := int16 (payloadSize - lis.sumLi) }⟩
      else
        ⟨0, info⟩

end OpenAir.Rlc.Am
