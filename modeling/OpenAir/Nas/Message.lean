import Mathlib.Data.List.Basic
import Mathlib.Data.BitVec

/-! The layer 3 messages of the NAS: header, ciphering, integrity protection and the counts,
for the UE and for the MME of the same file. The stream ciphers, the integrity functions and
the coders of plain messages are parameters. -/
namespace OpenAir.Nas

abbrev Byte := BitVec 8

/-- `struct count_s` without its spare bits. -/
structure Count where
  overflow : BitVec 16
  seqNum : BitVec 8
deriving DecidableEq

/-- The count that ciphering and integrity protection take. -/
def Count.value (c : Count) : BitVec 32 :=
  ((c.overflow.setWidth 32 &&& 0xFFFF) <<< 8) ||| (c.seqNum.setWidth 32 &&& 0xFF)

/-- After a message was sent. -/
def Count.increment (c : Count) : Count :=
  let seqNum := c.seqNum + 1
  ⟨if seqNum = 0 then c.overflow + 1 else c.overflow, seqNum⟩

/-- Before a received message is checked. -/
def Count.update (c : Count) (sequenceNumber : BitVec 8) : Count :=
  ⟨if sequenceNumber < c.seqNum then c.overflow + 1 else c.overflow, sequenceNumber⟩

inductive Encryption where
  | eea0
  | eea1
  | eea2
  | unknown
deriving DecidableEq

inductive Integrity where
  | eia0
  | eia1
  | eia2
  | unknown
deriving DecidableEq

inductive Direction where
  | uplink
  | downlink
deriving DecidableEq

/-- `emm_security_context_t`, what is read of it here. -/
structure SecurityContext where
  knasEnc : List Byte
  knasInt : List Byte
  dlCount : Count
  ulCount : Count
  encryption : Encryption
  integrity : Integrity
deriving DecidableEq

def SecurityContext.count (ctx : SecurityContext) : Direction → Count
  | .uplink => ctx.ulCount
  | .downlink => ctx.dlCount

def SecurityContext.setCount (ctx : SecurityContext) (count : Count) : Direction → SecurityContext
  | .uplink => { ctx with ulCount := count }
  | .downlink => { ctx with dlCount := count }

/-- `NAS_MME` is defined for the one and not for the other. -/
inductive Side where
  | ue
  | mme
deriving DecidableEq

def Side.opposite : Side → Side
  | .ue => .mme
  | .mme => .ue

def Side.sends : Side → Direction
  | .ue => .uplink
  | .mme => .downlink

def Side.receives (side : Side) : Direction := side.opposite.sends

/-- A stream cipher undoes itself. -/
structure StreamCipher where
  apply : (key : List Byte) → (count : BitVec 32) → Direction → List Byte → List Byte
  length_apply : ∀ key count direction message,
    (apply key count direction message).length = message.length
  undo : ∀ key count direction message,
    apply key count direction (apply key count direction message) = message

/-- The cipher that leaves a message as it is. -/
def StreamCipher.identity : StreamCipher :=
  ⟨fun _ _ _ message => message, fun _ _ _ _ => rfl, fun _ _ _ _ => rfl⟩

/-- Error codes, and the use of a null pointer. -/
inductive NasError where
  | bufferTooShort
  | macMismatch
  | protocolNotSupported
  | plain (code : Int)
  | nullPointer
deriving DecidableEq

/-- What the functions of this file call, and what they read without having written it. -/
structure Env (Msg : Type) where
  eea1 : StreamCipher
  eea2 : StreamCipher
  eia1 : (key : List Byte) → (count : BitVec 32) → Direction → List Byte → BitVec 32
  eia2 : (key : List Byte) → (count : BitVec 32) → Direction → List Byte → BitVec 32
  /-- `emm_msg_encode` with the capacity of the buffer. -/
  emmMsgEncode : Msg → Nat → Except NasError (List Byte)
  esmMsgEncode : Msg → Nat → Except NasError (List Byte)
  emmMsgDecode : List Byte → Except NasError (Nat × Msg)
  esmMsgDecode : List Byte → Except NasError (Nat × Msg)
  /-- `NAS_BUILT_IN_EPC` or `NAS_BUILT_IN_UE` is defined. -/
  builtIn : Bool
  /-- The byte behind the end of a buffer, and an output buffer before it is written. -/
  beyond : Byte
  stale : Nat → Byte

variable {Msg : Type} (env : Env Msg)

/-- `EPS_MOBILITY_MANAGEMENT_MESSAGE` -/
def epsMobilityManagement : BitVec 4 := 0x7

/-- `EPS_SESSION_MANAGEMENT_MESSAGE` -/
def epsSessionManagement : BitVec 4 := 0x2

def notProtected : BitVec 4 := 0x0

inductive Handling where
  | copied
  | ciphered
  | unknown
deriving DecidableEq

/-- The cases of both switches over the security header type. -/
def handling (securityHeaderType : BitVec 4) : Handling :=
  if securityHeaderType ∈ [0b0000, 0b1100, 0b0001, 0b0011] then .copied
  else if securityHeaderType ∈ [0b0010, 0b0100] then .ciphered
  else .unknown

structure SecurityHeader where
  protocolDiscriminator : BitVec 4
  securityHeaderType : BitVec 4
  messageAuthenticationCode : BitVec 32
  sequenceNumber : BitVec 8
deriving DecidableEq

/-- The first octet: the discriminator is in the low half. -/
def SecurityHeader.firstOctet (header : SecurityHeader) : Byte :=
  header.securityHeaderType ++ header.protocolDiscriminator

def encodeU32 (value : BitVec 32) : List Byte :=
  [value.extractLsb' 24 8, value.extractLsb' 16 8, value.extractLsb' 8 8, value.extractLsb' 0 8]

def decodeU32 (b0 b1 b2 b3 : Byte) : BitVec 32 := b0 ++ b1 ++ b2 ++ b3

/-- What `_nas_message_header_decode` finds. -/
inductive Head where
  | tooShort
  | plain (protocolDiscriminator securityHeaderType : BitVec 4)
  | protected_ (header : SecurityHeader) (rest : List Byte)

/-- A protected message goes on behind its header of six bytes. -/
def nasMessageHeaderDecode (buffer : List Byte) : Head :=
  let first := buffer.headD env.beyond
  let protocolDiscriminator := first.extractLsb' 0 4
  let securityHeaderType := first.extractLsb' 4 4
  if protocolDiscriminator = epsMobilityManagement ∧ securityHeaderType ≠ notProtected then
    match buffer with
    | _ :: b0 :: b1 :: b2 :: b3 :: seq :: rest =>
      .protected_ ⟨protocolDiscriminator, securityHeaderType, decodeU32 b0 b1 b2 b3, seq⟩ rest
    | _ => .tooShort
  else .plain protocolDiscriminator securityHeaderType

def protectedHeader (header : SecurityHeader) (mac : BitVec 32) : List Byte :=
  header.firstOctet :: encodeU32 mac ++ [header.sequenceNumber]

/-- The code of a message without an integrity algorithm. -/
def Env.noMac (env : Env Msg) : BitVec 32 := if env.builtIn then 0 else 0xabababab

def nasMessageGetMac (buffer : List Byte) (direction : Direction) :
    Option SecurityContext → BitVec 32
  | none => env.noMac
  | some ctx =>
    match ctx.integrity with
    | .eia1 => env.eia1 ctx.knasInt (ctx.count direction).value direction buffer
    | .eia2 => env.eia2 ctx.knasInt (ctx.count direction).value direction buffer
    | .eia0 => env.noMac
    | .unknown => 0

/-- `_nas_message_encrypt`; an empty result stands for the return value 0. -/
def nasMessageEncryptInner (src : List Byte) (securityHeaderType : BitVec 4)
    (direction : Direction) :
    Option SecurityContext → List Byte
  | none => []
  | some ctx =>
    match handling securityHeaderType with
    | .copied => src
    | .ciphered =>
      match ctx.encryption with
      | .eea1 => env.eea1.apply ctx.knasEnc (ctx.count direction).value direction src
      | .eea2 => env.eea2.apply ctx.knasEnc (ctx.count direction).value direction src
      | .eea0 => src
      -- the length is returned, nothing is written
      | .unknown => (List.range src.length).map env.stale
    | .unknown => []

/-- `_nas_message_decrypt`: the protocol discriminator and the plain bytes, in a buffer that
held `before`. -/
def nasMessageDecryptInner (side : Side) (src before : List Byte) (securityHeaderType : BitVec 4)
    (security : Option SecurityContext) : Except NasError (BitVec 4 × List Byte) :=
  let decoded :=
    fun dest : List Byte => (((dest.headD env.beyond).extractLsb' 0 4 : BitVec 4), dest)
  match handling securityHeaderType with
  | .copied => .ok (decoded src)
  | .ciphered =>
    match security with
    | none => .error .nullPointer
    | some ctx =>
      let direction := side.receives
      match ctx.encryption with
      | .eea1 => .ok
          (decoded (env.eea1.apply ctx.knasEnc (ctx.count direction).value direction src))
      | .eea2 => .ok
          (decoded (env.eea1.apply ctx.knasEnc (ctx.count direction).value direction src))
      | .eea0 => .ok (decoded src)
      | .unknown => .ok (decoded src)
  | .unknown => .ok (0, before)

/-- The count of the own direction goes on. -/
def SecurityContext.sent (ctx : SecurityContext) (side : Side) : SecurityContext :=
  ctx.setCount (ctx.count side.sends).increment side.sends

/-- The count of the other direction follows the sequence number. -/
def SecurityContext.received (ctx : SecurityContext) (side : Side) (sequenceNumber : BitVec 8) :
    SecurityContext :=
  ctx.setCount ((ctx.count side.receives).update sequenceNumber) side.receives

/-- `length` counts the header too when the message is protected. -/
def nasMessageEncrypt (side : Side) (inbuf : List Byte) (header : SecurityHeader) (length : Nat)
    (security : Option SecurityContext) : Except NasError (List Byte) × Option SecurityContext :=
  -- the count goes on in every case
  let finish := fun output : List Byte =>
    match security with
    | none => (.error .nullPointer, none)
    | some ctx => (.ok output, some (ctx.sent side))
  if header.protocolDiscriminator = epsMobilityManagement ∧ header.securityHeaderType ≠
      notProtected then
    if length < 6 then (.error .bufferTooShort, security)
    else
      let bytes :=
        nasMessageEncryptInner env (inbuf.take (length - 6)) header.securityHeaderType
        side.sends security
      let mac := if bytes.length = 0 then header.messageAuthenticationCode
        else nasMessageGetMac env (header.sequenceNumber :: bytes) side.sends security
      finish (protectedHeader header mac ++ bytes)
  else finish (inbuf.take length)

structure Decrypted where
  header : SecurityHeader
  plain : List Byte
deriving DecidableEq

def nasMessageDecrypt (side : Side) (inbuf : List Byte) (security : Option SecurityContext) :
    Except NasError Decrypted × Option SecurityContext :=
  match nasMessageHeaderDecode env inbuf with
  | .tooShort => (.error .bufferTooShort, security)
  | .plain protocolDiscriminator securityHeaderType =>
    (.ok ⟨⟨protocolDiscriminator, securityHeaderType, 0, 0⟩, inbuf⟩, security)
  | .protected_ header rest =>
    let security := security.map fun ctx => ctx.received side header.sequenceNumber
    let mac := nasMessageGetMac env (header.sequenceNumber :: rest) side.receives security
    let decrypt := fun _ : Unit =>
      match nasMessageDecryptInner env side rest ((List.range rest.length).map env.stale)
          header.securityHeaderType security with
      | .error e => (.error e, security)
      | .ok (protocolDiscriminator, plain) =>
        (.ok ⟨{ header with protocolDiscriminator := protocolDiscriminator }, plain⟩, security)
    if mac ≠ header.messageAuthenticationCode then
      match side, security with
      | .mme, _ => (.error .macMismatch, security)
      | .ue, none => (.error .nullPointer, security)
      -- a failure is passed over without an integrity algorithm
      | .ue, some ctx => if ctx.integrity ≠ .eia0 then (.error .macMismatch, security)
          else decrypt ()
    else decrypt ()

def nasMessagePlainEncode (protocolDiscriminator : BitVec 4) (msg : Msg) (length : Nat) :
    Except NasError (List Byte) :=
  if protocolDiscriminator = epsMobilityManagement then env.emmMsgEncode msg length
  else if protocolDiscriminator = epsSessionManagement then env.esmMsgEncode msg length
  else .error .protocolNotSupported

def nasMessagePlainDecode (protocolDiscriminator : BitVec 4) (buffer : List Byte) :
    Except NasError (Nat × Msg) :=
  if protocolDiscriminator = epsMobilityManagement then env.emmMsgDecode buffer
  else if protocolDiscriminator = epsSessionManagement then env.esmMsgDecode buffer
  else .error .protocolNotSupported

/-- `_nas_message_protected_encode`; every failure of the plain encoder is a short buffer. -/
def nasMessageProtectedEncode (side : Side) (header : SecurityHeader) (msg : Msg) (length : Nat)
    (security : Option SecurityContext) : Except NasError (List Byte) :=
  match nasMessagePlainEncode env header.protocolDiscriminator msg length with
  | .error _ => .error .bufferTooShort
  | .ok [] => .error .bufferTooShort
  | .ok plain =>
    .ok (nasMessageEncryptInner env plain header.securityHeaderType side.sends security)

def nasMessageEncode (side : Side) (header : SecurityHeader) (msg : Msg) (length : Nat)
    (security : Option SecurityContext) :
    Except NasError (List Byte) × Option SecurityContext :=
  if header.protocolDiscriminator = epsMobilityManagement ∧ header.securityHeaderType ≠
      notProtected then
    if length < 6 then (.error .bufferTooShort, security)
    else
      match nasMessageProtectedEncode env side header msg (length - 6) security with
      | .error e => (.error e, security)
      | .ok bytes =>
        if bytes.length = 0 then
          (.ok (protectedHeader header header.messageAuthenticationCode), security)
        else
          let mac := nasMessageGetMac env (header.sequenceNumber :: bytes) side.sends security
          (.ok (protectedHeader header mac ++ bytes), security.map fun ctx => ctx.sent side)
  else (nasMessagePlainEncode env header.protocolDiscriminator msg length, security)

structure Decoded (Msg : Type) where
  protocolDiscriminator : BitVec 4
  plain : Msg
  /-- The return value. -/
  bytes : Nat
deriving DecidableEq

def nasMessageDecode (side : Side) (buffer : List Byte) (security : Option SecurityContext) :
    Except NasError (Decoded Msg) × Option SecurityContext :=
  match nasMessageHeaderDecode env buffer with
  | .tooShort => (.error .bufferTooShort, security)
  | .plain protocolDiscriminator _ =>
    match nasMessagePlainDecode env protocolDiscriminator buffer with
    | .error e => (.error e, security)
    | .ok (bytes, msg) => (.ok ⟨protocolDiscriminator, msg, bytes⟩, security)
  | .protected_ header rest =>
    let security := security.map fun ctx => ctx.received side header.sequenceNumber
    let mac := nasMessageGetMac env (header.sequenceNumber :: rest) side.receives security
    -- without a context any code is taken
    let mac := if security = none ∧ mac = 0 ∧ header.messageAuthenticationCode ≠ 0 then
      header.messageAuthenticationCode else mac
    if mac ≠ header.messageAuthenticationCode then (.error .macMismatch, security)
    else
      match nasMessageDecryptInner env side rest (List.replicate rest.length 0)
          header.securityHeaderType security with
      | .error e => (.error e, security)
      | .ok (protocolDiscriminator, plain) =>
        match nasMessagePlainDecode env protocolDiscriminator plain with
        | .error e => (.error e, security)
        | .ok (bytes, msg) => (.ok ⟨protocolDiscriminator, msg, 6 + bytes⟩, security)

section Headers
variable {env}

theorem decodeU32_encodeU32 (value : BitVec 32) :
    decodeU32 (value.extractLsb' 24 8) (value.extractLsb' 16 8) (value.extractLsb' 8 8)
      (value.extractLsb' 0 8) = value := by
  apply BitVec.eq_of_getLsbD_eq
  intro i inside
  simp only [decodeU32, BitVec.getLsbD_append, BitVec.getLsbD_extractLsb']
  by_cases first : i < 8
  · simp [first]
  by_cases second : i < 16
  · simp [first, show i - 8 < 8 by omega, show 8 + (i - 8) = i by omega]
  by_cases third : i < 24
  · simp [first, show ¬ i - 8 < 8 by omega, show i - 8 - 8 < 8 by
      omega, show 16 + (i - 8 - 8) = i by omega]
  · simp [first, show ¬ i - 8 < 8 by omega, show ¬ i - 8 - 8 < 8 by
      omega, show i - 8 - 8 - 8 < 8 by omega, show 24 + (i - 8 - 8 - 8) = i by omega]

theorem firstOctet_halves (header : SecurityHeader) : header.firstOctet.extractLsb' 0 4 =
    header.protocolDiscriminator ∧
    header.firstOctet.extractLsb' 4 4 = header.securityHeaderType := by
  have all : ∀ high low : BitVec 4, (high ++ low).extractLsb' 0 4 = low ∧
      (high ++ low).extractLsb' 4 4 = high := by
    decide
  exact all header.securityHeaderType header.protocolDiscriminator

theorem headerDecode_protected {header : SecurityHeader}
    (mobility : header.protocolDiscriminator = epsMobilityManagement)
    (typed : header.securityHeaderType ≠ notProtected) (mac : BitVec 32) (rest : List Byte) :
    nasMessageHeaderDecode env (protectedHeader header mac ++ rest) =
      .protected_ { header with messageAuthenticationCode := mac } rest := by
  obtain ⟨low, high⟩ := firstOctet_halves header
  simp only [nasMessageHeaderDecode, protectedHeader, encodeU32, List.cons_append, List.nil_append,
    List.headD_cons, low, high]
  rw [if_pos ⟨mobility, typed⟩, decodeU32_encodeU32]

end Headers

section Counts

def Count.toNat (c : Count) : Nat := 256 * c.overflow.toNat + c.seqNum.toNat

theorem Count.toNat_lt (c : Count) : c.toNat < 2 ^ 24 := by
  have overflow := c.overflow.isLt
  have seqNum := c.seqNum.isLt
  rw [Count.toNat]
  omega

theorem Count.toNat_inj {c d : Count} (same : c.toNat = d.toNat) : c = d := by
  have seqNum := c.seqNum.isLt
  have seqNum' := d.seqNum.isLt
  unfold Count.toNat at same
  obtain ⟨o, s⟩ := c
  obtain ⟨o', s'⟩ := d
  simp only at same seqNum seqNum'
  rw [Count.mk.injEq]
  exact ⟨BitVec.eq_of_toNat_eq (by omega), BitVec.eq_of_toNat_eq (by omega)⟩

theorem Count.value_toNat (c : Count) : c.value.toNat = c.toNat := by
  have overflow := c.overflow.isLt
  have seqNum := c.seqNum.isLt
  have high : (c.overflow.setWidth 32 &&& 0xFFFF).toNat = c.overflow.toNat := by
    rw [BitVec.toNat_and, BitVec.toNat_setWidth, Nat.mod_eq_of_lt (by omega)]
    exact Nat.and_two_pow_sub_one_of_lt_two_pow overflow
  have low : (c.seqNum.setWidth 32 &&& 0xFF).toNat = c.seqNum.toNat := by
    rw [BitVec.toNat_and, BitVec.toNat_setWidth, Nat.mod_eq_of_lt (by omega)]
    exact Nat.and_two_pow_sub_one_of_lt_two_pow seqNum
  have shifted : ((c.overflow.setWidth 32 &&& 0xFFFF) <<< 8).toNat = c.overflow.toNat <<< 8 := by
    rw [BitVec.toNat_shiftLeft, high, Nat.shiftLeft_eq, Nat.mod_eq_of_lt (by omega)]
  rw [Count.value, BitVec.toNat_or, shifted, low, ← Nat.shiftLeft_add_eq_or_of_lt (by omega),
    Nat.shiftLeft_eq, Count.toNat]
  omega

theorem Count.seqNum_toNat (c : Count) : c.seqNum.toNat = c.toNat % 256 := by
  have seqNum := c.seqNum.isLt
  rw [Count.toNat]
  omega

theorem Count.increment_toNat (c : Count) : c.increment.toNat = (c.toNat + 1) % 2 ^ 24 := by
  have overflow := c.overflow.isLt
  have seqNum := c.seqNum.isLt
  have next : (c.seqNum + 1).toNat = (c.seqNum.toNat + 1) % 256 := by
    rw [BitVec.toNat_add]
    rfl
  have wraps : (c.seqNum + 1 = 0) ↔ (c.seqNum.toNat + 1) % 256 = 0 := by
    rw [← next]
    exact ⟨fun zero => by rw [zero]; rfl, fun zero => BitVec.eq_of_toNat_eq zero⟩
  have counted : (c.overflow + 1).toNat = (c.overflow.toNat + 1) % 65536 := by
    rw [BitVec.toNat_add]
    rfl
  unfold Count.increment Count.toNat
  simp only [wraps]
  split <;> simp only [next, counted] <;> omega

/-- The receiver finds the count of a message that is at most 255 behind its own. -/
theorem Count.update_eq {r c : Count} {gap : Nat} (near : gap ≤ 255)
    (ahead : c.toNat = (r.toNat + gap) % 2 ^ 24) :
    r.update c.seqNum = c := by
  have overflow := r.overflow.isLt
  have seqNum := r.seqNum.isLt
  have overflow' := c.overflow.isLt
  have seqNum' := c.seqNum.isLt
  have counted : (r.overflow + 1).toNat = (r.overflow.toNat + 1) % 65536 := by
    rw [BitVec.toNat_add]
    rfl
  apply Count.toNat_inj
  unfold Count.toNat at ahead
  unfold Count.update Count.toNat
  simp only [BitVec.lt_def]
  split
  · rw [counted]
    omega
  · omega

end Counts

end OpenAir.Nas
