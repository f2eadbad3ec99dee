import OpenAir.Nas.Forged

/-! The requests of the EMM of the UE to send a message, and the count that each message uses. -/
namespace OpenAir.Nas

variable {Msg : Type} (env : Env Msg)

/-- `emm_as_security_data_t` -/
structure SecurityData where
  /-- `ksi != EMM_AS_NO_KEY_AVAILABLE` -/
  keyAvailable : Bool
  isNew : Bool
  kInt : Bool
  kEnc : Bool

/-- The security header type; `none` when a new context has no integrity key. -/
def emmAsSetHeader (security : SecurityData) : Option (BitVec 4) :=
  if security.keyAvailable then
    if security.isNew then
      if security.kInt then some (if security.kEnc then 0b0100 else 0b0011) else none
    else if security.kInt then some (if security.kEnc then 0b0010 else 0b0001)
    else some notProtected
  else some notProtected

/-- The message that a request builds, with the size that `emm_send_*` returns for it. -/
inductive Request (Msg : Type) where
  | dataReq (size : Int) (msg : Msg)
  /-- `_emm_as_data_req` with a message that is encoded already. -/
  | encodedDataReq (nasMsg : List Byte)
  | statusInd (size : Int) (msg : Msg)
  | securityRes (size : Int) (msg : Msg)

structure Submission (Msg : Type) where
  sctx : SecurityData
  request : Request Msg
  /-- `malloc` gives memory. -/
  allocated : Bool

/-- Only a positive number of bytes is sent. -/
def sentBytes (result : Except NasError (List Byte) × Option SecurityContext) :
    Option (List Byte) × Option SecurityContext :=
  match result with
  | (.ok (first :: rest), security) => (some (first :: rest), security)
  | (_, security) => (none, security)

def emmAsEncode (header : SecurityHeader) (msg : Msg) (length : Nat) (allocated : Bool)
    (security : Option SecurityContext) :
    Option (List Byte) × Option SecurityContext :=
  let length := if header.securityHeaderType ≠ notProtected then length + 6 else length
  if allocated then sentBytes (nasMessageEncode env .ue header msg length security)
    else (none, security)

def emmAsEncrypt (header : SecurityHeader) (msg : List Byte) (length : Nat) (allocated : Bool)
    (security : Option SecurityContext) :
    Option (List Byte) × Option SecurityContext :=
  let length := if header.securityHeaderType ≠ notProtected then length + 6 else length
  if allocated then sentBytes (nasMessageEncrypt env .ue msg header length security)
    else (none, security)

/-- The sequence number that a caller puts into the header. -/
def nextSequenceNumber : Option SecurityContext → BitVec 8
  | none => 0
  | some ctx => ctx.ulCount.seqNum

/-- `_emm_as_data_req`, `_emm_as_status_ind` and `_emm_as_security_res`: the message that is
sent, and the context after. -/
def emmAsSend (security : Option SecurityContext) (s : Submission Msg) :
    Option (List Byte) × Option SecurityContext :=
  match emmAsSetHeader s.sctx with
  | none => (none, security)
  | some securityHeaderType =>
    let header :=
      fun sequenceNumber =>
      (⟨epsMobilityManagement, securityHeaderType, 0, sequenceNumber⟩ : SecurityHeader)
    match s.request with
    | .dataReq size msg | .statusInd size msg =>
      if 0 < size then emmAsEncode env (header (nextSequenceNumber security)) msg size.toNat
        s.allocated security
      else (none, security)
    | .encodedDataReq nasMsg =>
      if 0 < nasMsg.length then
        emmAsEncrypt env (header (nextSequenceNumber security)) nasMsg nasMsg.length
          s.allocated security
      else (none, security)
    -- the sequence number is left as `memset` has set it
    | .securityRes size msg =>
      if 0 < size then emmAsEncode env (header 0) msg size.toNat s.allocated security
        else (none, security)

/-- A message that was ciphered and integrity protected with the uplink count of a context, and
that carries its low bits. -/
def ProtectedBy (ctx : SecurityContext) (bytes : List Byte) : Prop :=
  ∃ header plain, header.protocolDiscriminator = epsMobilityManagement ∧
    header.securityHeaderType ≠ notProtected ∧
    header.sequenceNumber = ctx.ulCount.value.setWidth 8 ∧
    bytes = protectedHeader header (nasMessageGetMac env (header.sequenceNumber ::
        nasMessageEncryptInner env plain header.securityHeaderType .uplink
          (some ctx)) .uplink (some ctx)) ++
      nasMessageEncryptInner env plain header.securityHeaderType .uplink (some ctx)

/-- What a request does with the count: a protected message uses one, and no other does. -/
structure CountKept (ctx : SecurityContext) (s : Submission Msg) : Prop where
  protected_ : ∀ bytes, (emmAsSend env (some ctx) s).1 = some bytes → emmAsSetHeader s.sctx ≠
    some notProtected →
    ProtectedBy env ctx bytes ∧ (emmAsSend env (some ctx) s).2 =
      some { ctx with ulCount := ctx.ulCount.increment }
  others : (emmAsSend env (some ctx) s).1 = none ∨ emmAsSetHeader s.sctx = some notProtected →
    (emmAsSend env (some ctx) s).2 = some ctx

/-- No security response is sent protected unless the sequence number is 0, and no message that
is encoded already goes out plain. -/
def Careful (ctx : SecurityContext) (s : Submission Msg) : Prop :=
  match s.request with
  | .securityRes size msg => 0 < size → s.allocated = true → ∀ securityHeaderType,
    emmAsSetHeader s.sctx = some securityHeaderType → securityHeaderType ≠ notProtected →
    (∃ plain, env.emmMsgEncode msg size.toNat = .ok plain ∧ plain ≠ []) → ctx.ulCount.seqNum = 0
  | .encodedDataReq nasMsg => nasMsg ≠ [] → s.allocated = true → emmAsSetHeader s.sctx ≠
      some notProtected
  | _ => True

section Steps
variable {env} {ctx : SecurityContext} {s : Submission Msg}

theorem emmAsSetHeader_known {security : SecurityData} {type : BitVec 4}
    (set : emmAsSetHeader security = some type) :
    handling type ≠ .unknown := by
  unfold emmAsSetHeader at set
  split at set
  · split at set
    · split at set
      · cases set
        split <;> decide
      · cases set
    · split at set
      · cases set
        split <;> decide
      · cases set
        decide
  · cases set
    decide

theorem encryptInner_length (ctx : SecurityContext) {type : BitVec 4}
    (known : handling type ≠ .unknown) (plain : List Byte)
    (direction : Direction) : (nasMessageEncryptInner env plain type direction (some ctx)).length =
    plain.length := by
  unfold nasMessageEncryptInner
  cases kind : handling type with
  | copied => rfl
  | ciphered =>
    cases encryption : ctx.encryption with
    | eea0 => simp only [encryption]
    | eea1 => simp only [encryption, env.eea1.length_apply]
    | eea2 => simp only [encryption, env.eea2.length_apply]
    | unknown => simp only [encryption, List.length_map, List.length_range]
  | unknown => exact absurd kind known

theorem Count.value_setWidth (c : Count) : c.value.setWidth 8 = c.seqNum := by
  apply BitVec.eq_of_toNat_eq
  rw [BitVec.toNat_setWidth, c.value_toNat, c.seqNum_toNat]

def wireOf (env : Env Msg) (ctx : SecurityContext) (header : SecurityHeader)
    (plain : List Byte) : List Byte :=
  protectedHeader header (nasMessageGetMac env (header.sequenceNumber ::
      nasMessageEncryptInner env plain header.securityHeaderType .uplink
        (some ctx)) .uplink (some ctx)) ++
    nasMessageEncryptInner env plain header.securityHeaderType .uplink (some ctx)

theorem emmAsEncode_protected {header : SecurityHeader} {msg : Msg} {length : Nat}
    (mobility : header.protocolDiscriminator = epsMobilityManagement)
    (typed : header.securityHeaderType ≠ notProtected)
    (known : handling header.securityHeaderType ≠ .unknown) :
    emmAsEncode env header msg length true (some ctx) =
      match env.emmMsgEncode msg length with
      | .ok (first :: rest) =>
        (some (wireOf env ctx header (first :: rest)),
          some { ctx with ulCount := ctx.ulCount.increment })
      | _ => (none, some ctx) := by
  have long : ¬ length + 6 < 6 := by omega
  have encoder : nasMessagePlainEncode env header.protocolDiscriminator msg length =
      env.emmMsgEncode msg length := by
    rw [nasMessagePlainEncode, if_pos mobility]
  rw [emmAsEncode, if_pos rfl, if_pos typed, nasMessageEncode, if_pos ⟨mobility, typed⟩,
    if_neg long, Nat.add_sub_cancel, nasMessageProtectedEncode, encoder]
  cases env.emmMsgEncode msg length with
  | error e => rfl
  | ok plain =>
    cases plain with
    | nil => rfl
    | cons first rest =>
      have some_ :
          (nasMessageEncryptInner env (first :: rest) header.securityHeaderType Side.ue.sends
          (some ctx)).length ≠ 0 := by
        rw [encryptInner_length ctx known]
        exact Nat.succ_ne_zero _
      simp only [if_neg some_]
      rfl

theorem emmAsEncode_plain {header : SecurityHeader} {msg : Msg} {length : Nat} {allocated : Bool}
    (plain : header.securityHeaderType = notProtected) :
    (emmAsEncode env header msg length allocated (some ctx)).2 = some ctx := by
  cases allocated with
  | false => rfl
  | true =>
    rw [emmAsEncode, if_pos rfl, nasMessageEncode, if_neg fun both => both.2 plain]
    cases nasMessagePlainEncode env header.protocolDiscriminator msg _ with
    | error e => rfl
    | ok bytes => cases bytes <;> rfl

theorem emmAsEncrypt_protected {header : SecurityHeader} {msg : List Byte}
    (mobility : header.protocolDiscriminator = epsMobilityManagement)
    (typed : header.securityHeaderType ≠ notProtected)
    (known : handling header.securityHeaderType ≠ .unknown) (some_ : msg ≠ []) :
    emmAsEncrypt env header msg msg.length true (some ctx) =
      (some (wireOf env ctx header msg), some { ctx with ulCount := ctx.ulCount.increment }) := by
  have long : ¬ msg.length + 6 < 6 := by omega
  have body : (nasMessageEncryptInner env msg header.securityHeaderType Side.ue.sends
      (some ctx)).length ≠ 0 := by
    rw [encryptInner_length ctx known]
    exact fun none_ => some_ (List.length_eq_zero_iff.mp none_)
  rw [emmAsEncrypt, if_pos rfl, if_pos typed, nasMessageEncrypt]
  simp only [if_pos (And.intro mobility typed), if_neg long, Nat.add_sub_cancel,
    List.take_length, if_neg body]
  rfl

/-- A plain message uses up a count on this way. -/
theorem emmAsEncrypt_plain {header : SecurityHeader} {msg : List Byte}
    (plain : header.securityHeaderType = notProtected) (some_ : msg ≠ []) :
    emmAsEncrypt env header msg msg.length true (some ctx) =
      (some msg, some { ctx with ulCount := ctx.ulCount.increment }) := by
  rw [emmAsEncrypt, if_pos rfl, if_neg (not_not.mpr plain), nasMessageEncrypt]
  simp only [if_neg
      fun both : header.protocolDiscriminator = epsMobilityManagement ∧ header.securityHeaderType ≠
      notProtected =>
    both.2 plain, List.take_length]
  cases msg with
  | nil => exact absurd rfl some_
  | cons first rest => rfl

theorem Count.increment_ne (c : Count) : c.increment ≠ c := by
  intro same
  have next := c.increment_toNat
  have small := c.toNat_lt
  rw [same] at next
  omega

/-- `CountKept` for a header type and the result of a request. -/
def Kept (env : Env Msg) (ctx : SecurityContext) (type : BitVec 4)
    (result : Option (List Byte) × Option SecurityContext) : Prop :=
  (∀ bytes, result.1 = some bytes → type ≠ notProtected →
    ProtectedBy env ctx bytes ∧ result.2 = some { ctx with ulCount := ctx.ulCount.increment }) ∧
  (result.1 = none ∨ type = notProtected → result.2 = some ctx)

theorem kept_nothing (type : BitVec 4) : Kept env ctx type (none, some ctx) :=
  ⟨fun _ none_ => (by cases none_), fun _ => rfl⟩

theorem ProtectedBy.sequenceNumber {header : SecurityHeader} {plain : List Byte}
    (mobility : header.protocolDiscriminator = epsMobilityManagement)
    (typed : header.securityHeaderType ≠ notProtected)
    (held : ProtectedBy env ctx (wireOf env ctx header plain)) :
    header.sequenceNumber = ctx.ulCount.seqNum := by
  obtain ⟨header', plain', mobility', typed', number, same⟩ := held
  have read := congrArg (nasMessageHeaderDecode env) same
  rw [wireOf, headerDecode_protected mobility typed, headerDecode_protected mobility' typed',
    Head.protected_.injEq] at read
  have numbers := congrArg SecurityHeader.sequenceNumber read.1
  rw [← ctx.ulCount.value_setWidth, ← number]
  exact numbers

theorem kept_encode_iff {type : BitVec 4} (known : handling type ≠ .unknown) (number : BitVec 8)
    (msg : Msg) (length : Nat)
    (allocated : Bool) :
    Kept env ctx type
      (emmAsEncode env ⟨epsMobilityManagement, type, 0, number⟩ msg length allocated (some ctx)) ↔
      (allocated = true → type ≠ notProtected →
        (∃ plain, env.emmMsgEncode msg length = .ok plain ∧ plain ≠ []) →
        number = ctx.ulCount.seqNum) := by
  cases allocated with
  | false => exact ⟨fun _ allocated => (by cases allocated), fun _ => kept_nothing type⟩
  | true =>
    by_cases plain : type = notProtected
    · refine ⟨fun
        _ _ typed => absurd plain typed,
        fun _ => ⟨fun _ _ typed => absurd plain typed, fun _ => ?_⟩⟩
      exact emmAsEncode_plain plain
    · rw [emmAsEncode_protected rfl plain known]
      cases encoded : env.emmMsgEncode msg length with
      | error e =>
        exact ⟨fun _ _ _ found => (by obtain ⟨_, found, _⟩ := found; cases found),
          fun _ => kept_nothing type⟩
      | ok bytes =>
        cases bytes with
        | nil =>
          refine ⟨fun _ _ _ found => ?_, fun _ => kept_nothing type⟩
          obtain ⟨_, found, some_⟩ := found
          cases found
          exact absurd rfl some_
        | cons first rest =>
          constructor
          · intro kept _ _ _
            exact (kept.1 _ rfl plain).1.sequenceNumber rfl plain
          · intro right
            have same := right rfl plain ⟨_, rfl, List.cons_ne_nil _ _⟩
            refine ⟨fun sent sends _ => ?_, fun none_ => ?_⟩
            · cases sends
              refine ⟨⟨⟨epsMobilityManagement, type, 0, number⟩, first :: rest, rfl,
                plain, ?_, rfl⟩, rfl⟩
              rw [ctx.ulCount.value_setWidth]
              exact same
            · obtain none_ | typed := none_
              · cases none_
              · exact absurd typed plain

theorem kept_encrypt_iff {type : BitVec 4} (known : handling type ≠ .unknown) {msg : List Byte}
    (some_ : msg ≠ []) (allocated : Bool) :
    Kept env ctx type
      (emmAsEncrypt env ⟨epsMobilityManagement, type, 0, ctx.ulCount.seqNum⟩ msg msg.length
      allocated (some ctx)) ↔
      (allocated = true → type ≠ notProtected) := by
  cases allocated with
  | false => exact ⟨fun _ allocated => (by cases allocated), fun _ => kept_nothing type⟩
  | true =>
    by_cases plain : type = notProtected
    · rw [emmAsEncrypt_plain plain some_]
      refine ⟨fun kept _ => ?_, fun typed => absurd plain (typed rfl)⟩
      have same := kept.2 (.inr plain)
      rw [Option.some_inj] at same
      exact absurd (congrArg SecurityContext.ulCount same) ctx.ulCount.increment_ne
    · rw [emmAsEncrypt_protected rfl plain known some_]
      refine ⟨fun _ _ => plain, fun _ => ⟨fun bytes sends _ => ?_, fun none_ => ?_⟩⟩
      · cases sends
        exact ⟨⟨⟨epsMobilityManagement, type, 0, ctx.ulCount.seqNum⟩, msg, rfl, plain,
          ctx.ulCount.value_setWidth.symm, rfl⟩, rfl⟩
      · obtain none_ | typed := none_
        · cases none_
        · exact absurd typed plain

theorem countKept_none (unset : emmAsSetHeader s.sctx = none) : CountKept env ctx s := by
  have sends : emmAsSend env (some ctx) s = (none, some ctx) := by rw [emmAsSend, unset]
  constructor
  case protected_ =>
    intro bytes sent
    rw [sends] at sent
    cases sent
  case others =>
    intro _
    rw [sends]

theorem countKept_some {type : BitVec 4} (set : emmAsSetHeader s.sctx = some type) :
    CountKept env ctx s ↔ Kept env ctx type (emmAsSend env (some ctx) s) := by
  constructor
  · intro kept
    refine ⟨fun bytes sent typed => kept.protected_ bytes sent ?_, fun case_ => kept.others ?_⟩
    · rw [set, ne_eq, Option.some_inj]
      exact typed
    · rw [set, Option.some_inj]
      exact case_
  · intro kept
    constructor
    case protected_ =>
      intro bytes sent typed
      rw [set, ne_eq, Option.some_inj] at typed
      exact kept.1 bytes sent typed
    case others =>
      intro case_
      rw [set, Option.some_inj] at case_
      exact kept.2 case_

/-- A request keeps the count if and only if it is a careful one. -/
theorem countKept_iff : CountKept env ctx s ↔ Careful env ctx s := by
  obtain ⟨sctx, request, allocated⟩ := s
  cases set : emmAsSetHeader sctx with
  | none =>
    refine ⟨fun _ => ?_, fun _ => countKept_none set⟩
    cases request with
    | dataReq size msg => trivial
    | statusInd size msg => trivial
    | encodedDataReq nasMsg => exact fun _ _ typed => (by cases set.symm.trans typed)
    | securityRes size msg => exact fun _ _ _ found => (by cases set.symm.trans found)
  | some type =>
    have known := emmAsSetHeader_known set
    rw [countKept_some set, emmAsSend, set]
    cases request with
    | dataReq size msg =>
      refine ⟨fun _ => trivial, fun _ => ?_⟩
      by_cases positive : 0 < size
      · simp only [if_pos positive]
        exact (kept_encode_iff known _ msg _ allocated).mpr fun _ _ _ => rfl
      · simp only [if_neg positive]
        exact kept_nothing type
    | statusInd size msg =>
      refine ⟨fun _ => trivial, fun _ => ?_⟩
      by_cases positive : 0 < size
      · simp only [if_pos positive]
        exact (kept_encode_iff known _ msg _ allocated).mpr fun _ _ _ => rfl
      · simp only [if_neg positive]
        exact kept_nothing type
    | encodedDataReq nasMsg =>
      by_cases empty : nasMsg = []
      · subst empty
        exact ⟨fun _ some_ => absurd rfl some_, fun _ => kept_nothing type⟩
      · have positive : 0 < nasMsg.length := List.length_pos_iff.mpr empty
        simp only [if_pos positive]
        refine (kept_encrypt_iff known empty allocated).trans
          ⟨fun typed _ given => ?_, fun typed given plain => ?_⟩
        · rw [set, ne_eq, Option.some_inj]
          exact typed given
        · exact typed empty given (set.trans (congrArg some plain))
    | securityRes size msg =>
      by_cases positive : 0 < size
      · simp only [if_pos positive]
        refine (kept_encode_iff known 0 msg _ allocated).trans
          ⟨fun right _ given found found' typed plain => ?_, fun right given typed plain => ?_⟩
        · cases set.symm.trans found'
          exact (right given typed plain).symm
        · exact (right positive given type set typed plain).symm
      · simp only [if_neg positive]
        exact ⟨fun _ size => absurd size positive, fun _ => kept_nothing type⟩

end Steps

end OpenAir.Nas
