import OpenAir.Pdcp.Entity

/-! PDCP data transfer: building a PDU for RLC and taking one from RLC. -/
namespace OpenAir.Pdcp

def maxDrb : Nat := 11
def controlPlaneDataPduSnSize : Nat := 1
def controlPlaneDataPduMacISize : Nat := 4
def userPlaneDataPduLongSnHeaderSize : Nat := 2
def userPlaneDataPduShortSnHeaderSize : Nat := 1

inductive Direction where
  | uplink
  | downlink
deriving Repr, DecidableEq

/-- `stream_cipher_t`, less the message. -/
structure CipherParams where
  direction : Direction
  bearer : Nat
  count : Nat
  key : List UInt8
deriving Repr, DecidableEq

/-- The algorithms behind `stream_encrypt`, which `stream_decrypt` is a macro for, and
`stream_compute_integrity`, which fails for algorithms it does not know. -/
structure Ciphering where
  crypt : Nat → CipherParams → List UInt8 → List UInt8
  computeIntegrity : Nat → CipherParams → List UInt8 → Option (List UInt8)

def nullCiphering : Ciphering := ⟨fun _ _ message => message, fun _ _ _ => none⟩

/-- `stream_check_integrity`, 0 or -1. -/
def Ciphering.checkIntegrity (c : Ciphering) (algorithm : Nat) (params : CipherParams)
    (message expected : List UInt8) : Int :=
  if algorithm ≠ 0 then
    match c.computeIntegrity algorithm params message with
    | none => -1
    | some result => if result.take 4 ≠ expected.take 4 then -1 else 0
  else
    0

/-- `pdcp_apply_security`: the MAC-I of an SRB covers header and plain SDU; only the
SDU is ciphered. -/
def applySecurity (c : Ciphering) (e : PdcpEntity) (srbFlag : Bool) (rbId headerLen currentSn : Nat)
    (pdu : List UInt8) (sduSize : Nat) : List UInt8 :=
  let params : CipherParams :=
    { direction := if e.isUe then .uplink else .downlink
      bearer := rbId - 1
      count := getNextCountTx e srbFlag currentSn
      key := if srbFlag then e.kRRCenc else e.kUPenc }
  let covered := pdu.take (headerLen + sduSize)
  let tailer := pdu.drop (headerLen + sduSize)
  let tailer := if srbFlag then
      match c.computeIntegrity e.integrityProtAlgorithm
          { params with key := e.kRRCint.drop 16 } covered with
      | some mac => mac.take 4 ++ tailer.drop 4
      | none => tailer
    else tailer
  covered.take headerLen ++ c.crypt e.cipheringAlgorithm params (covered.drop headerLen) ++ tailer

/-- `pdcp_validate_security`: the return code, the PDU deciphered in place, and the
entity with its HFN offset reset. `size` does not count the MAC-I. The integrity
check is left out when records are played back. -/
def validateSecurity (c : Ciphering) (usrpRecPlay : Bool) (e : PdcpEntity) (srbFlag : Bool)
    (rbId headerLen currentSn : Nat) (pdu : List UInt8) (size : Nat) :
    Int × List UInt8 × PdcpEntity :=
  let (count, e) := getNextCountRx e srbFlag currentSn
  let params : CipherParams :=
    { direction := if e.isUe then .downlink else .uplink
      bearer := rbId - 1
      count := count
      key := if srbFlag then e.kRRCenc else e.kUPenc }
  let body := c.crypt e.cipheringAlgorithm params ((pdu.take size).drop headerLen)
  let pdu := pdu.take headerLen ++ body ++ pdu.drop size
  if srbFlag ∧ usrpRecPlay = false then
    (c.checkIntegrity e.integrityProtAlgorithm { params with key := e.kRRCint.drop 16 }
      (pdu.take size)
      (pdu.drop size), pdu, e)
  else
    (0, pdu, e)

/-- `pdcp_serialize_control_plane_data_pdu_with_SRB_sn_buffer`. -/
def serializeSrbSn (sn : Nat) : List UInt8 := [UInt8.ofNat (sn &&& 0x1F)]

/-- `pdcp_serialize_user_plane_data_pdu_with_long_sn_buffer`. -/
def serializeLongSn (dc : Bool) (sn : Nat) : List UInt8 :=
  [UInt8.ofNat (((sn >>> 8) &&& 0xFF) ||| if dc then 0x80 else 0), UInt8.ofNat (sn &&& 0xFF)]

def sequenceNumberOfSrbSn (pdu : List UInt8) : Nat := (pdu.getD 0 0).toNat &&& 0x1F

def sequenceNumberOfShortSn (pdu : List UInt8) : Nat := (pdu.getD 0 0).toNat &&& 0x7F

def sequenceNumberOfLongSn (pdu : List UInt8) : Nat :=
  (((pdu.getD 0 0).toNat &&& 0x0F) <<< 8) ||| ((pdu.getD 1 0).toNat &&& 0xFF)

/-- `pdcp_data_req` in control or data mode, with a block for the PDU: what is handed
to RLC, if anything, and the entity. `data` is `PDCP_TRANSMISSION_MODE_DATA`. -/
def dataReq (c : Ciphering) (maxIpPacketSize : Nat) (e : PdcpEntity) (srbFlag : Bool)
    (rbId : Nat) (data : Bool)
    (sdu : List UInt8) : Option (List UInt8) × PdcpEntity :=
  if sdu.length = 0 ∨ sdu.length > maxIpPacketSize ∨ ¬ rbId < (if srbFlag then 3 else maxDrb) then
    (none, e)
  else
    let headerLen := if srbFlag then controlPlaneDataPduSnSize else userPlaneDataPduLongSnHeaderSize
    let tailerLen := if srbFlag then controlPlaneDataPduMacISize else 0
    let (sn, e) := getNextTxSeqNumber e
    -- the SN field of the control plane header has 8 bits
    let currentSn := if srbFlag then sn % 2 ^ 8 else sn
    let header := if srbFlag then serializeSrbSn currentSn else serializeLongSn data currentSn
    if currentSn > maxSeqNumForGivenSize e.seqNumSize then
      (none, e)
    else
      let pdu := header ++ sdu ++ List.replicate tailerLen 0
      if e.securityActivated ≠ 0 ∧ (e.cipheringAlgorithm ≠ 0 ∨ e.integrityProtAlgorithm ≠ 0) then
        (some (applySecurity c e srbFlag (rbId % maxDrb) headerLen currentSn pdu sdu.length), e)
      else
        (some pdu, e)

/-- What does not change while data is received: the build (security, forwarding to
GTP-U, playing back records), the side, and the traffic generator's switch. -/
structure IndContext where
  enbFlag : Bool
  enableSecurity : Bool := true
  linkEnbPdcpToGtpv1u : Bool := true
  usrpRecPlay : Bool := false
  otgEnabled : Bool := false

inductive UpperLayer where
  | rrc
  | gtpv1u
  | sduList
deriving Repr, DecidableEq

/-- What a call of `pdcp_data_ind` did: its return value, the SN read, the result of
`pdcp_validate_security` when it was called, and what went to which upper layer. -/
structure Indication where
  ret : Bool
  sequenceNumber : Nat := 0
  integrity : Option Int := none
  delivered : Option (UpperLayer × List UInt8) := none
  entity : PdcpEntity

/-- Header size and SN of a PDU. A data bearer with another SN size than 7 or 12 has
neither. -/
def headerOf (e : PdcpEntity) (srbFlag : Bool) (pdu : List UInt8) : Nat × Nat :=
  if srbFlag then (controlPlaneDataPduSnSize, sequenceNumberOfSrbSn pdu)
  else if e.seqNumSize = 7 then (userPlaneDataPduShortSnHeaderSize, sequenceNumberOfShortSn pdu)
  else if e.seqNumSize = 12 then (userPlaneDataPduLongSnHeaderSize, sequenceNumberOfLongSn pdu)
  else (0, 0)

/-- Delivery of a data bearer's SDU. The list towards the network interface records
the SN of an AM bearer, when a block can be had; the tunnel does not. -/
def deliverDrb (ctx : IndContext) (blockFree : Bool) (ind : Indication)
    (sdu : List UInt8) : Indication :=
  if ctx.otgEnabled then
    ind
  else if ctx.linkEnbPdcpToGtpv1u ∧ ctx.enbFlag then
    { ind with delivered := some (.gtpv1u, sdu) }
  else if blockFree then
    { ind with
      delivered := some (.sduList, sdu)
      entity := if ind.entity.rlcMode = .am then
          { ind.entity with lastSubmittedPdcpRxSn := ind.sequenceNumber } else ind.entity }
  else
    ind

/-- `pdcp_data_ind` for a bearer that is not MBMS. -/
def dataInd (c : Ciphering) (ctx : IndContext) (e : PdcpEntity) (srbFlag : Bool) (rbId : Nat)
    (pdu : List UInt8) (blockFree : Bool) : Indication :=
  if ¬ rbId % maxDrb > 0 ∨ pdu.length = 0 then
    { ret := false, entity := e }
  else
    let (headerLen, sequenceNumber) := headerOf e srbFlag pdu
    let tailerLen := if srbFlag then controlPlaneDataPduMacISize else 0
    if pdu.length < headerLen + tailerLen then
      { ret := false, sequenceNumber := sequenceNumber, entity := e }
    else
      match isRxSeqNumberValid sequenceNumber e srbFlag with
      | (false, e) => { ret := false, sequenceNumber := sequenceNumber, entity := e }
      | (true, e) =>
        let (integrity, pdu, e) :=
          if ctx.enableSecurity ∧ e.securityActivated = 1 then
            let (code, pdu, e) :=
              validateSecurity c ctx.usrpRecPlay e srbFlag rbId headerLen sequenceNumber pdu
              (pdu.length - tailerLen)
            (some code, pdu, e)
          else
            (none, pdu, e)
        let ind : Indication :=
          { ret := true, sequenceNumber := sequenceNumber, integrity := integrity, entity := e }
        let sdu := (pdu.take (pdu.length - tailerLen)).drop headerLen
        if srbFlag then { ind with delivered := some (.rrc, sdu) }
          else deliverDrb ctx blockFree ind sdu

end OpenAir.Pdcp
