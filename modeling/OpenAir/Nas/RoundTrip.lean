import OpenAir.Nas.Message

/-! A protected message from one side to the other. -/
namespace OpenAir.Nas

variable {Msg : Type} {env : Env Msg}

/-- A message to be sent, with the contexts of both sides. -/
structure Exchange where
  side : Side
  header : SecurityHeader
  mobility : header.protocolDiscriminator = epsMobilityManagement
  protects : header.securityHeaderType ∈ [0b0001, 0b0010, 0b0011, 0b0100, 0b1100]
  plain : List Byte
  some_ : plain ≠ []
  sender : SecurityContext
  receiver : SecurityContext
  keys : receiver.knasEnc = sender.knasEnc ∧ receiver.knasInt = sender.knasInt
  algorithms : receiver.encryption = sender.encryption ∧ receiver.integrity = sender.integrity
  known : sender.encryption ≠ .unknown ∧ sender.integrity ≠ .unknown
  counts : (receiver.count side.sends).update header.sequenceNumber = sender.count side.sends

def discriminatorOf (env : Env Msg) (plain : List Byte) : BitVec 4 :=
  (plain.headD env.beyond).extractLsb' 0 4

/-- The decoders of plain messages undo their encoders, and choose by the first byte. -/
def Env.DecodersUndo (env : Env Msg) : Prop :=
  ∀ protocolDiscriminator msg length plain,
    nasMessagePlainEncode env protocolDiscriminator msg length = .ok plain → plain ≠ [] →
    nasMessagePlainDecode env (discriminatorOf env plain) plain = .ok (plain.length, msg)

structure RoundTrip (env : Env Msg) (x : Exchange) : Prop where
  decrypts : ∃ wire security result security',
    nasMessageEncrypt env x.side x.plain x.header (x.plain.length + 6) (some x.sender) =
      (.ok wire, security) ∧
      nasMessageDecrypt env x.side.opposite wire (some x.receiver) = (.ok result, security') ∧
      result.plain = x.plain ∧ result.header.protocolDiscriminator = discriminatorOf env x.plain
  decodes : env.DecodersUndo → ∀ msg length,
    nasMessagePlainEncode env epsMobilityManagement msg length = .ok x.plain →
      ∃ wire security security',
      nasMessageEncode env x.side x.header msg (length + 6) (some x.sender) = (.ok wire, security) ∧
        nasMessageDecode env x.side.opposite wire (some x.receiver) =
          (.ok ⟨discriminatorOf env x.plain, msg, 6 + x.plain.length⟩, security')

section Exchange
variable {x : Exchange}

theorem Side.receives_opposite (side : Side) : side.opposite.receives = side.sends := by
  cases side <;> rfl

theorem Exchange.typed (x : Exchange) :
    x.header.securityHeaderType ≠ notProtected ∧
    handling x.header.securityHeaderType ≠ .unknown := by
  have listed := x.protects
  generalize x.header.securityHeaderType = type at listed
  revert type
  decide

def Exchange.updated (x : Exchange) : SecurityContext :=
  x.receiver.received x.side.opposite x.header.sequenceNumber

theorem Exchange.updated_eq (x : Exchange) : x.updated.knasEnc = x.sender.knasEnc ∧
    x.updated.knasInt = x.sender.knasInt ∧
    x.updated.encryption = x.sender.encryption ∧ x.updated.integrity = x.sender.integrity ∧
    x.updated.count x.side.sends = x.sender.count x.side.sends := by
  have counts := x.counts
  unfold Exchange.updated SecurityContext.received
  rw [Side.receives_opposite]
  cases side : x.side with
  | ue =>
    rw [side] at counts
    exact ⟨x.keys.1, x.keys.2, x.algorithms.1, x.algorithms.2, counts⟩
  | mme =>
    rw [side] at counts
    exact ⟨x.keys.1, x.keys.2, x.algorithms.1, x.algorithms.2, counts⟩

theorem Exchange.mac_eq (env : Env Msg) (x : Exchange) (buffer : List Byte) :
    nasMessageGetMac env buffer x.side.sends (some x.updated) =
    nasMessageGetMac env buffer x.side.sends (some x.sender) := by
  obtain ⟨_, key, _, algorithm, count⟩ := x.updated_eq
  simp only [nasMessageGetMac, key, algorithm, count]

def Exchange.body (env : Env Msg) (x : Exchange) : List Byte :=
  nasMessageEncryptInner env x.plain x.header.securityHeaderType x.side.sends (some x.sender)

theorem Exchange.body_length (env : Env Msg) (x : Exchange) :
    (x.body env).length = x.plain.length := by
  unfold Exchange.body nasMessageEncryptInner
  cases kind : handling x.header.securityHeaderType with
  | copied => rfl
  | ciphered =>
    cases encryption : x.sender.encryption with
    | eea0 => simp only [encryption]
    | eea1 => simp only [encryption, env.eea1.length_apply]
    | eea2 => simp only [encryption, env.eea2.length_apply]
    | unknown => exact absurd encryption x.known.1
  | unknown => exact absurd kind x.typed.2

theorem Exchange.body_some (env : Env Msg) (x : Exchange) : (x.body env).length ≠ 0 := by
  rw [x.body_length]
  exact fun none_ => x.some_ (List.length_eq_zero_iff.mp none_)

def Exchange.deciphered (env : Env Msg) (x : Exchange) : List Byte :=
  if handling x.header.securityHeaderType = .ciphered ∧ x.sender.encryption = .eea2 then
    env.eea1.apply x.sender.knasEnc (x.sender.count x.side.sends).value x.side.sends
      (env.eea2.apply x.sender.knasEnc (x.sender.count x.side.sends).value x.side.sends x.plain)
  else x.plain

theorem Exchange.decryptInner_eq (env : Env Msg) (x : Exchange) (before : List Byte) :
    nasMessageDecryptInner env x.side.opposite (x.body env) before x.header.securityHeaderType
      (some x.updated) =
      .ok (discriminatorOf env (x.deciphered env), x.deciphered env) := by
  obtain ⟨key, _, algorithm, _, count⟩ := x.updated_eq
  unfold nasMessageDecryptInner Exchange.body nasMessageEncryptInner Exchange.deciphered
    discriminatorOf
  rw [Side.receives_opposite]
  cases kind : handling x.header.securityHeaderType with
  | copied => simp only [reduceCtorEq, false_and, if_false]
  | ciphered =>
    cases encryption : x.sender.encryption with
    | eea0 => simp only [algorithm, encryption, reduceCtorEq, and_false, if_false]
    | eea1 => simp only [algorithm, encryption, key, count, env.eea1.undo, reduceCtorEq,
        and_false, if_false]
    | eea2 => simp only [algorithm, encryption, key, count, and_self, if_true]
    | unknown => exact absurd encryption x.known.1
  | unknown => exact absurd kind x.typed.2

def Exchange.wire (env : Env Msg) (x : Exchange) : List Byte :=
  protectedHeader x.header
    (nasMessageGetMac env (x.header.sequenceNumber :: x.body env) x.side.sends (some x.sender)) ++
    x.body env

theorem Exchange.encrypt_eq (env : Env Msg) (x : Exchange) :
    nasMessageEncrypt env x.side x.plain x.header (x.plain.length + 6) (some x.sender) =
      (.ok (x.wire env), some (x.sender.sent x.side)) := by
  have long : ¬ x.plain.length + 6 < 6 := by omega
  have some_ := x.body_some env
  unfold Exchange.wire
  rw [nasMessageEncrypt]
  simp only [if_pos (And.intro x.mobility x.typed.1), if_neg long, Nat.add_sub_cancel,
    List.take_length]
  rw [← Exchange.body, if_neg some_]

theorem Exchange.decrypt_eq (env : Env Msg) (x : Exchange) :
    nasMessageDecrypt env x.side.opposite (x.wire env) (some x.receiver) =
      (.ok ⟨{ x.header with
        protocolDiscriminator := discriminatorOf env (x.deciphered env)
        messageAuthenticationCode :=
          nasMessageGetMac env (x.header.sequenceNumber :: x.body env) x.side.sends
            (some x.sender) }, x.deciphered env⟩,
        some x.updated) := by
  have same := x.mac_eq env (x.header.sequenceNumber :: x.body env)
  rw [nasMessageDecrypt, Exchange.wire, headerDecode_protected x.mobility x.typed.1]
  simp only [Option.map_some, Side.receives_opposite]
  rw [← Exchange.updated, same]
  simp only [ne_eq, not_true_eq_false, if_false, x.decryptInner_eq]

theorem Exchange.encode_eq (x : Exchange) {msg : Msg} {length : Nat}
    (encoded : nasMessagePlainEncode env epsMobilityManagement msg length = .ok x.plain) :
    nasMessageEncode env x.side x.header msg (length + 6) (some x.sender) =
    (.ok (x.wire env), some (x.sender.sent x.side)) := by
  have long : ¬ length + 6 < 6 := by omega
  have some_ := x.body_some env
  have inner : nasMessageProtectedEncode env x.side x.header msg length (some x.sender) =
      .ok (x.body env) := by
    rw [nasMessageProtectedEncode, x.mobility, encoded]
    cases plain : x.plain with
    | nil => exact absurd plain x.some_
    | cons first rest =>
      rw [Exchange.body, plain]
  rw [nasMessageEncode, if_pos ⟨x.mobility, x.typed.1⟩, if_neg long, Nat.add_sub_cancel, inner]
  simp only [if_neg some_, Option.map_some]
  rfl

theorem Exchange.decode_eq (x : Exchange) {msg : Msg} (plain : x.deciphered env = x.plain)
    (decoded : nasMessagePlainDecode env (discriminatorOf env x.plain) x.plain =
      .ok (x.plain.length, msg)) :
    nasMessageDecode env x.side.opposite (x.wire env) (some x.receiver) =
      (.ok ⟨discriminatorOf env x.plain, msg, 6 + x.plain.length⟩, some x.updated) := by
  have same := x.mac_eq env (x.header.sequenceNumber :: x.body env)
  rw [nasMessageDecode, Exchange.wire, headerDecode_protected x.mobility x.typed.1]
  simp only [Option.map_some, Side.receives_opposite, reduceCtorEq, false_and, if_false]
  rw [← Exchange.updated, same]
  simp only [ne_eq, not_true_eq_false, if_false, x.decryptInner_eq, plain, decoded]

/-- With the second cipher the receiver uses the first one. -/
theorem exchange_roundTrip_iff (env : Env Msg) (x : Exchange) : RoundTrip env x ↔
    (handling x.header.securityHeaderType = .ciphered → x.sender.encryption = .eea2 →
      env.eea1.apply x.sender.knasEnc (x.sender.count x.side.sends).value x.side.sends
        (env.eea2.apply x.sender.knasEnc (x.sender.count x.side.sends).value x.side.sends x.plain) =
        x.plain) := by
  constructor
  · intro trip ciphered second
    obtain ⟨wire, _, result, _, encrypted, decrypted, plain, _⟩ := trip.decrypts
    rw [x.encrypt_eq, Prod.mk.injEq, Except.ok.injEq] at encrypted
    rw [← encrypted.1, x.decrypt_eq, Prod.mk.injEq, Except.ok.injEq] at decrypted
    rw [← decrypted.1] at plain
    have found : x.deciphered env = x.plain := plain
    rwa [Exchange.deciphered, if_pos ⟨ciphered, second⟩] at found
  · intro lucky
    have plain : x.deciphered env = x.plain := by
      unfold Exchange.deciphered
      split
      · rename_i both
        exact lucky both.1 both.2
      · rfl
    constructor
    case decrypts =>
      refine ⟨_, _, _, _, x.encrypt_eq env, x.decrypt_eq env, plain, ?_⟩
      rw [plain]
    case decodes =>
      intro undo msg length encoded
      exact ⟨_, _, _, x.encode_eq encoded, x.decode_eq plain (undo _ _ _ _ encoded x.some_)⟩

/-- Two ciphers that differ. -/
def twoCiphers : Env Unit where
  eea1 := .identity
  eea2 := ⟨fun
      _ _ _ message => message.map (~~~ ·),
      fun _ _ _ _ => List.length_map _, fun _ _ _ message => by
    rw [List.map_map]
    exact List.map_id'' (fun _ => BitVec.not_not) message⟩
  eia1 := fun _ count _ _ => count
  eia2 := fun _ count _ _ => count
  emmMsgEncode := fun _ _ => .ok [0x07]
  esmMsgEncode := fun _ _ => .ok [0x02]
  emmMsgDecode := fun buffer => .ok (buffer.length, ())
  esmMsgDecode := fun buffer => .ok (buffer.length, ())
  builtIn := true
  beyond := 0
  stale := fun _ => 0

def cipheredByEea2 : Exchange where
  side := .ue
  header := ⟨0x7, 0x2, 0, 0⟩
  mobility := rfl
  protects := by decide
  plain := [0x07]
  some_ := by decide
  sender := ⟨[], [], ⟨0, 0⟩, ⟨0, 0⟩, .eea2, .eia2⟩
  receiver := ⟨[], [], ⟨0, 0⟩, ⟨0, 0⟩, .eea2, .eia2⟩
  keys := ⟨rfl, rfl⟩
  algorithms := ⟨rfl, rfl⟩
  known := by decide
  counts := rfl

theorem cipheredByEea2_garbled : ¬ RoundTrip twoCiphers cipheredByEea2 := by
  intro trip
  obtain ⟨wire, _, result, _, encrypted, decrypted, plain, _⟩ := trip.decrypts
  rw [cipheredByEea2.encrypt_eq, Prod.mk.injEq, Except.ok.injEq] at encrypted
  rw [← encrypted.1, cipheredByEea2.decrypt_eq, Prod.mk.injEq, Except.ok.injEq] at decrypted
  rw [← decrypted.1] at plain
  exact absurd plain (by decide)

end Exchange

end OpenAir.Nas
