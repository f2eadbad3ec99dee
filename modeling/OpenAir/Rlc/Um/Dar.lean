import OpenAir.Rlc.Um.Entity

/-! Reordering, duplicate detection and reassembly of UMD PDUs. -/
namespace OpenAir.Rlc.Um
open BitField
open Am (bytesAt)

/-- What `rlc_um_read_length_indicators` leaves: whether it accepts, the indicators stored in
`li_array` from index 0 on, and `data_size`. -/
structure LiRead where
  accepted : Bool
  liArray : List Nat
  dataSize : Int
deriving Repr, DecidableEq

/-- The loop over pairs of indicators at `eLi`; `none` when the rounds are used up. The
capacity of `li_array` is tested behind the stores of a round. -/
def liLoop (mem : Memory) : Nat → Nat → List Nat → Int → Option LiRead
  | 0, _, _, _ => none
  | rounds + 1, eLi, liArray, dataSize =>
    let b1 := (mem eLi).toNat
    let b2 := (mem (eLi + 1)).toNat
    let b3 := (mem (eLi + 2)).toNat
    let e1 := (b1 &&& 0x80) >>> 7
    let li1 := ((b1 &&& 0x7F) <<< 4) + ((b2 &&& 0xF0) >>> 4)
    let liArray := liArray ++ [li1]
    let dataSize := dataSize - li1 - 2
    let e2 := (b2 &&& 0x08) >>> 3
    let li2 := ((b2 &&& 0x07) <<< 8) + (b3 &&& 0xFF)
    let liArray := if e1 ≠ 0 then liArray ++ [li2] else liArray
    let dataSize := if e1 ≠ 0 then dataSize - li2 - 1 else dataSize
    if liArray.length > maxLiPerPdu then
      some ⟨false, liArray, dataSize⟩
    else if e1 ≠ 0 ∧ e2 ≠ 0 then
      liLoop mem rounds (eLi + 3) liArray dataSize
    else
      some ⟨decide (dataSize > 0), liArray, dataSize⟩

/-- The rounds the loop is given; every round but the last stores two indicators. -/
def liRounds : Nat := maxLiPerPdu / 2 + 1

/-- `rlc_um_read_length_indicators` on the bytes at `eLi`, `dataSize` being what the PDU has
from there on. -/
def readLengthIndicators (mem : Memory) (eLi : Nat) (dataSize : Int) : LiRead :=
  (liLoop mem liRounds eLi [] dataSize).getD ⟨false, [], dataSize⟩

def fixedE (length : SnLength) (mem : Memory) : Nat :=
  let b1 := (mem 0).toNat
  match length with
  | .ten => (b1 &&& 0x04) >>> 2
  | .five => (b1 &&& 0x20) >>> 5

def fixedFi (length : SnLength) (mem : Memory) : Nat :=
  let b1 := (mem 0).toNat
  match length with
  | .ten => (b1 &&& 0x18) >>> 3
  | .five => (b1 &&& 0xC0) >>> 6

def fixedSn (length : SnLength) (mem : Memory) : Nat :=
  let b1 := (mem 0).toNat
  match length with
  | .ten => ((b1 &&& 0x03) <<< 8) + (mem 1).toNat
  | .five => b1 &&& 0x1F

def Assembly.clearRxSdu (a : Assembly) : Assembly := { a with outputSdu := [] }

/-- `rlc_um_reassembly`, the block of a new SDU having been found; an SDU that outgrows it is
erased. -/
def Assembly.reassembly (a : Assembly) (config : Config) (bytes : List UInt8) : Assembly :=
  if bytes.length = 0 then
    a
  else if a.outputSdu.length + bytes.length ≤ config.sduMaxSize then
    { a with outputSdu := a.outputSdu ++ bytes }
  else
    { a with outputSdu := [] }

def Assembly.sendSdu (a : Assembly) : Assembly :=
  if a.outputSdu.length > 0 then
    { a with delivered := a.delivered ++ [a.outputSdu], outputSdu := [] }
  else
    { a with outputSdu := [] }

/-- The loop over `li_array`: every indicator ends an SDU. The result has the address of the
bytes behind them. -/
def Assembly.reassembleLis (a : Assembly) (config : Config) (mem : Memory) : Nat →
    List Nat → Nat × Assembly
  | data, [] => (data, a)
  | data, li :: rest =>
    ((a.reassembly config (bytesAt mem data li)).sendSdu).reassembleLis config mem (data + li) rest

/-- A PDU without length indicators. -/
def Assembly.reassembleWhole (a : Assembly) (config : Config) (fi : Nat)
    (bytes : List UInt8) : Assembly :=
  match fi with
  | 0 => { (a.clearRxSdu.reassembly config bytes).sendSdu with missingSnDetected := false }
  | 1 => { a.clearRxSdu.reassembly config bytes with missingSnDetected := false }
  | 2 =>
    let a := if a.missingSnDetected = false then (a.reassembly config bytes).sendSdu else a
    { a with missingSnDetected := false }
  | _ => if a.missingSnDetected = false then a.reassembly config bytes else a

/-- Behind a missing SN the first piece of a PDU that continues an SDU is left out: the
address and the indicators of the others. -/
def Assembly.skipFirst (a : Assembly) (fi data : Nat) (liArray : List Nat) : Nat × List Nat :=
  if (fi = 2 ∨ fi = 3) ∧ a.missingSnDetected then (data + liArray.headD 0, liArray.tail)
    else (data, liArray)

/-- A PDU with length indicators, the last piece having `size` bytes. -/
def Assembly.reassembleConcatenated (a : Assembly) (config : Config) (fi : Nat)
    (mem : Memory) (data : Nat)
    (liArray : List Nat) (size : Int) : Assembly :=
  let taken := a.skipFirst fi data liArray
  let a := if fi = 2 ∨ fi = 3 then a else a.clearRxSdu
  let behind := a.reassembleLis config mem taken.1 taken.2
  let a := if size > 0 then
    behind.2.reassembly config (bytesAt mem behind.1 size.toNat) else behind.2
  let a := if (fi = 0 ∨ fi = 2) ∧ size > 0 then a.sendSdu else a
  { a with missingSnDetected := false }

/-- The state in which the PDU at `sn` is looked at: an SDU that it does not continue is
cleared. -/
def Assembly.follow (a : Assembly) (config : Config) (sn : Nat) : Assembly :=
  { (if (a.lastReassembliedSn + 1) % config.modulo ≠ sn then a.clearRxSdu
    else a) with lastReassembliedSn := sn }

/-- What a PDU that has its fixed header does to the SDU; one with a bad header is discarded. -/
def Assembly.joinPdu (a : Assembly) (config : Config) (pdu : Pdu) : Assembly :=
  let header := config.snLength.headerMin
  let size := pdu.size - header
  let fi := fixedFi config.snLength pdu.mem
  if fixedE config.snLength pdu.mem = 0 then
    a.reassembleWhole config fi (bytesAt pdu.mem header size)
  else
    let read := readLengthIndicators pdu.mem header size
    if read.accepted then
      a.reassembleConcatenated config fi pdu.mem (header + ((read.liArray.length * 3 + 1) >>> 1))
        read.liArray read.dataSize
    else
      { a with missingSnDetected := true }

/-- What is done to the SDU at one SN; a PDU shorter than its fixed header is skipped. -/
def Assembly.look (a : Assembly) (config : Config) (sn : Nat) : Option Pdu → Assembly
  | some pdu =>
    if pdu.size < config.snLength.headerMin then a.follow config sn
      else (a.follow config sn).joinPdu config pdu
  | none => { a with missingSnDetected := true, outputSdu := [] }

/-- One round of the loop of `rlc_um_try_reassembly`. The PDU leaves the buffer, but for one
that is skipped. -/
def Dar.reassembleSn (dar : Dar) (config : Config) (sn : Nat) : Dar where
  toAssembly := dar.look config sn (dar.darBuffer sn)
  looked := dar.looked ++ [(sn, dar.darBuffer sn)]
  darBuffer :=
    match dar.darBuffer sn with
    | some pdu => if pdu.size < config.snLength.headerMin then dar.darBuffer
        else Function.update dar.darBuffer sn none
    | none => dar.darBuffer

/-- The loop of `rlc_um_try_reassembly`; `none` when the rounds are used up. -/
def Dar.reassembleUntil (dar : Dar) (config : Config) (vrUh endSn : Nat) : Nat → Nat → Option Dar
  | 0, _ => none
  | rounds + 1, sn =>
    let dar := dar.reassembleSn config sn
    let sn := (sn + 1) % config.modulo
    if sn = vrUh ∨ sn = endSn then some dar else dar.reassembleUntil config vrUh endSn rounds sn

/-- `rlc_um_try_reassembly`; no caller gives a negative bound. -/
def Rx.tryReassembly (rx : Rx) (config : Config) (startSn endSn : Nat) : Option Rx :=
  if startSn = endSn then
    some rx
  else
    (rx.reassembleUntil config rx.vrUh endSn config.modulo startSn).map
      fun dar => { rx with toDar := dar }

/-- The search of `rlc_um_receive_process_dar` for the next SN that is missing, which ends at
VR(UH) too. -/
def Rx.nextMissing (rx : Rx) (config : Config) : Nat → Nat → Option Nat
  | 0, _ => none
  | rounds + 1, sn =>
    let sn := (sn + 1) % config.modulo
    if (rx.darBuffer sn).isSome ∧ sn ≠ rx.vrUh then rx.nextMissing config rounds sn else some sn

/-- The search of `rlc_um_check_timer_dar_time_out` for the first SN that is missing. -/
def Rx.firstMissing (rx : Rx) (config : Config) : Nat → Nat → Option Nat
  | 0, _ => none
  | rounds + 1, sn =>
    if (rx.darBuffer sn).isSome then
      rx.firstMissing config rounds ((sn + 1) % config.modulo) else some sn

/-- VR(UH) less the window size, as a sequence number. -/
def Rx.lowerEdge (rx : Rx) (config : Config) : Nat :=
  (if rx.modulus config < 0 then rx.modulus config + config.modulo else rx.modulus config).toNat

/-- The window slides up to the received `sn` outside of it, and what falls out of it is
reassembled. -/
def Rx.slide (rx : Rx) (config : Config) (sn : Nat) : Option Rx :=
  if rx.inReorderingWindow config sn < 0 then
    let rx := { rx with vrUh := (sn + 1) % config.modulo }
    if rx.inReorderingWindow config rx.vrUr ≠ 0 then
      (rx.tryReassembly config rx.vrUr (rx.lowerEdge config)).map fun after =>
        { after with vrUr := rx.lowerEdge config }
    else
      some rx
  else
    some rx

/-- The received `sn` is the one VR(UR) waits for: VR(UR) moves on and the PDUs up to it are
reassembled. -/
def Rx.advance (rx : Rx) (config : Config) (sn : Nat) : Option Rx :=
  if sn = rx.vrUr ∧ (rx.darBuffer rx.vrUr).isSome then
    (rx.nextMissing config config.modulo rx.vrUr).bind fun vrUr =>
      Rx.tryReassembly { rx with vrUr := vrUr } config sn vrUr
  else
    some rx

/-- t-Reordering is stopped when VR(UX) is out of the window or VR(UR) has passed it. -/
def Rx.stopTimer (rx : Rx) (config : Config) : Rx :=
  let rx := if rx.tReordering.running ∧ rx.vrUh ≠ rx.vrUx ∧
      rx.inReorderingWindow config rx.vrUx < 0 then
    { rx with tReordering := rx.tReordering.stop } else rx
  let inWindow := rx.inWindow config rx.vrUr rx.vrUx rx.vrUh
  if rx.tReordering.running ∧ (inWindow = -2 ∨ inWindow = 1) then
    { rx with tReordering := rx.tReordering.stop }
  else
    rx

/-- t-Reordering is started for the PDUs missing below VR(UH). -/
def Rx.startTimer (rx : Rx) (config : Config) (now : Nat) : Rx :=
  if rx.tReordering.running = false ∧ rx.inWindow config rx.vrUr rx.vrUh rx.vrUh = 2 then
    { rx with tReordering := rx.tReordering.start now, vrUx := rx.vrUh }
  else
    rx

/-- The received PDU is discarded: its SN is below VR(UR), or above it and received before. -/
def Rx.discards (rx : Rx) (config : Config) (sn : Nat) : Bool :=
  let inWindow := rx.inWindow config (rx.modulus config) sn rx.vrUr
  inWindow = 1 ∨ inWindow = 0 ∨
    ((rx.darBuffer sn).isSome ∧ rx.inWindow config rx.vrUr sn rx.vrUh = 0)

/-- `rlc_um_receive_process_dar`; a PDU stored before at `sn` is replaced. -/
def Rx.receiveProcessDar (rx : Rx) (config : Config) (pdu : Pdu) (now : Nat) : Option Rx :=
  let sn := fixedSn config.snLength pdu.mem
  if rx.discards config sn then
    some rx
  else
    let rx := { rx with darBuffer := Function.update rx.darBuffer sn (some pdu) }
    (rx.slide config sn).bind fun rx =>
      (rx.advance config sn).map fun rx => (rx.stopTimer config).startTimer config now

def Rx.checkTimerDarTimeOut (rx : Rx) (config : Config) (now : Nat) : Option Rx :=
  if rx.tReordering.expired now then
    (rx.firstMissing config config.modulo rx.vrUx).bind fun vrUr =>
      (Rx.tryReassembly { rx with vrUr := vrUr } config rx.vrUr vrUr).map fun rx =>
        if rx.inWindow config rx.vrUr rx.vrUh rx.vrUh = 2 then
          { rx with tReordering := rx.tReordering.start now, vrUx := rx.vrUh }
        else
          { rx with tReordering := rx.tReordering.stop }
  else
    some rx

/-- What happens to the receiver: `rlc_um_receive` passes on a PDU of at least one byte. -/
inductive RxOp where
  | receive (pdu : Pdu) (now : Nat)
  | checkTimer (now : Nat)

def rxStep (config : Config) (rx : Rx) : RxOp → Option Rx
  | .receive pdu now => if pdu.size > 0 then rx.receiveProcessDar config pdu now else some rx
  | .checkTimer now => rx.checkTimerDarTimeOut config now

end OpenAir.Rlc.Um
