import OpenAir.Nas.Message

/-! Messages that fail their check, among others. The receive count is set before the code is
compared. -/
namespace OpenAir.Nas

variable {Msg : Type} (env : Env Msg)

/-- The function that a message is given to. -/
inductive Reception where
  | decode
  | decrypt
deriving DecidableEq

inductive Outcome (Msg : Type) where
  | decoded (result : Except NasError (Decoded Msg))
  | decrypted (result : Except NasError Decrypted)

def receive (side : Side) (security : Option SecurityContext) (reception : Reception)
    (buffer : List Byte) :
    Outcome Msg × Option SecurityContext :=
  match reception with
  | .decode =>
    (.decoded (nasMessageDecode env side buffer security).1,
      (nasMessageDecode env side buffer security).2)
  | .decrypt =>
    (.decrypted (nasMessageDecrypt env side buffer security).1,
      (nasMessageDecrypt env side buffer security).2)

/-- `TLV_DECODE_BUFFER_TOO_SHORT` or `TLV_DECODE_MAC_MISMATCH` -/
def Outcome.fails : Outcome Msg → Bool
  | .decoded (.error .bufferTooShort) | .decoded (.error .macMismatch) => true
  | .decrypted (.error .bufferTooShort) | .decrypted (.error .macMismatch) => true
  | _ => false

/-- A received message, and whether somebody else has put it in. -/
structure Arrival where
  forged : Bool
  reception : Reception
  buffer : List Byte

/-- What holds of every message of a run, in the context it meets. -/
def EachArrival (side : Side) (P : Option SecurityContext → Arrival → Prop) :
    Option SecurityContext → List Arrival → Prop
  | _, [] => True
  | security, arrival :: rest =>
    P security arrival ∧
      EachArrival side P (receive env side security arrival.reception arrival.buffer).2 rest

/-- The results of the genuine messages and the context at the end. -/
def genuine (side : Side) : Option SecurityContext → List Arrival →
    List (Outcome Msg) × Option SecurityContext
  | security, [] => ([], security)
  | security, arrival :: rest =>
    let result := receive env side security arrival.reception arrival.buffer
    let others := genuine side result.2 rest
    (if arrival.forged then others.1 else result.1 :: others.1, others.2)

def Fails (side : Side) (security : Option SecurityContext) (arrival : Arrival) : Prop :=
  (receive env side security arrival.reception arrival.buffer).1.fails = true

def Unchanged (side : Side) (security : Option SecurityContext) (arrival : Arrival) : Prop :=
  (receive env side security arrival.reception arrival.buffer).2 = security

/-- The sequence number of a full security header is the one of the last message received. -/
def RepeatsSequenceNumber (side : Side) (security : Option SecurityContext)
    (arrival : Arrival) : Prop :=
  ∀ header rest ctx, nasMessageHeaderDecode env arrival.buffer = .protected_ header rest →
    security = some ctx →
    header.sequenceNumber = (ctx.count side.receives).seqNum

variable {env} {side : Side} {security : Option SecurityContext}

theorem SecurityContext.count_setCount (ctx : SecurityContext) (count : Count)
    (direction : Direction) :
    (ctx.setCount count direction).count direction = count := by
  cases direction <;> rfl

/-- Only the number that is there already keeps the count. -/
theorem SecurityContext.received_eq_self {ctx : SecurityContext} {sequenceNumber : BitVec 8} :
    ctx.received side sequenceNumber = ctx ↔ sequenceNumber = (ctx.count side.receives).seqNum := by
  constructor
  · intro same
    have counts := congrArg (fun c : SecurityContext => (c.count side.receives).seqNum) same
    rw [SecurityContext.received] at counts
    simp only [SecurityContext.count_setCount] at counts
    exact counts
  · intro same
    have kept : (ctx.count side.receives).update sequenceNumber = ctx.count side.receives := by
      rw [Count.update, same, if_neg (BitVec.lt_irrefl _)]
    rw [SecurityContext.received, kept]
    cases side <;> rfl

/-- The context after a message depends on its header only. -/
theorem receive_security (reception : Reception) (buffer : List Byte) :
    (receive env side security reception buffer).2 =
      match nasMessageHeaderDecode env buffer with
      | .protected_ header _ => security.map fun ctx => ctx.received side header.sequenceNumber
      | _ => security := by
  cases reception with
  | decode =>
    simp only [receive, nasMessageDecode]
    cases nasMessageHeaderDecode env buffer with
    | tooShort => rfl
    | plain protocolDiscriminator securityHeaderType =>
      simp only
      split <;> rfl
    | protected_ header rest =>
      simp only
      repeat' split
      all_goals rfl
  | decrypt =>
    simp only [receive, nasMessageDecrypt]
    cases nasMessageHeaderDecode env buffer with
    | tooShort => rfl
    | plain protocolDiscriminator securityHeaderType => rfl
    | protected_ header rest =>
      simp only
      repeat' split
      all_goals rfl

theorem unchanged_iff {arrival : Arrival} :
    Unchanged env side security arrival ↔ RepeatsSequenceNumber env side security arrival := by
  rw [Unchanged, receive_security, RepeatsSequenceNumber]
  cases decoded : nasMessageHeaderDecode env arrival.buffer with
  | tooShort => exact ⟨fun _ _ _ _ found => (by cases found), fun _ => rfl⟩
  | plain protocolDiscriminator securityHeaderType =>
    exact ⟨fun _ _ _ _ found => (by cases found), fun _ => rfl⟩
  | protected_ header rest =>
    cases security with
    | none => exact ⟨fun _ _ _ _ _ found => (by cases found), fun _ => rfl⟩
    | some ctx =>
      simp only [Option.map_some, Option.some_inj]
      constructor
      · rintro same _ _ _ found rfl
        cases found
        exact SecurityContext.received_eq_self.mp same
      · intro all
        exact SecurityContext.received_eq_self.mpr (all header rest ctx rfl rfl)

theorem EachArrival.imp {P Q : Option SecurityContext → Arrival → Prop}
    (weaker : ∀ security arrival, P security arrival → Q security arrival)
    {arrivals : List Arrival} (each : EachArrival env side P security arrivals) :
    EachArrival env side Q security arrivals := by
  induction arrivals generalizing security with
  | nil => trivial
  | cons arrival rest ih => exact ⟨weaker security arrival each.1, ih each.2⟩

theorem EachArrival.and {P Q : Option SecurityContext → Arrival → Prop} {arrivals : List Arrival}
    (each : EachArrival env side P security arrivals)
    (each' : EachArrival env side Q security arrivals) :
    EachArrival env side (fun security arrival => P security arrival ∧ Q security arrival)
      security arrivals := by
  induction arrivals generalizing security with
  | nil => trivial
  | cons arrival rest ih => exact ⟨⟨each.1, each'.1⟩, ih each.2 each'.2⟩

/-- Forged messages that leave the context can be taken out of a run. -/
theorem genuine_filter {arrivals : List Arrival}
    (unchanged : EachArrival env side
      (fun security arrival => arrival.forged = true → Unchanged env side security arrival)
      security arrivals) :
    genuine env side security arrivals =
    genuine env side security (arrivals.filter fun arrival => !arrival.forged) := by
  induction arrivals generalizing security with
  | nil => rfl
  | cons arrival rest ih =>
    obtain ⟨here, behind⟩ := unchanged
    cases forged : arrival.forged with
    | true =>
      have gone : (receive env side security arrival.reception arrival.buffer).2 =
        security := here forged
      rw [List.filter_cons_of_neg (by rw [forged]; exact Bool.false_ne_true)]
      rw [gone] at behind
      rw [genuine, forged, gone, if_pos rfl]
      exact ih behind
    | false =>
      rw [List.filter_cons_of_pos (by rw [forged]; rfl), genuine, genuine, forged, ih behind]

/-- In a run the messages that fail leave the context if and only if they carry its sequence
number; forged messages that do so change nothing for the genuine ones. -/
theorem forged_no_effect_iff (env : Env Msg) (side : Side) (security : Option SecurityContext)
    (arrivals : List Arrival) :
    (EachArrival env side
      (fun security arrival => Fails env side security arrival →
      Unchanged env side security arrival)
        security arrivals ↔
      EachArrival env side (fun security arrival => Fails env side security arrival →
        RepeatsSequenceNumber env side security arrival) security arrivals) ∧
    (EachArrival env side (fun security arrival => Fails env side security arrival →
        RepeatsSequenceNumber env side security arrival) security arrivals →
      EachArrival env side
        (fun security arrival => arrival.forged = true → Fails env side security arrival)
        security arrivals →
      genuine env side security arrivals =
      genuine env side security (arrivals.filter fun arrival => !arrival.forged)) := by
  refine ⟨⟨fun each => ?_, fun each => ?_⟩, fun repeated fail => ?_⟩
  · exact each.imp fun _ _ keeps fails => unchanged_iff.mp (keeps fails)
  · exact each.imp fun _ _ keeps fails => unchanged_iff.mpr (keeps fails)
  · apply genuine_filter
    exact (repeated.and fail).imp fun _ _ both forged => unchanged_iff.mpr (both.1 (both.2 forged))

/-- A code that is the count, and messages of any content. -/
def plainEnv : Env Unit where
  eea1 := .identity
  eea2 := .identity
  eia1 := fun _ count _ _ => count
  eia2 := fun _ count _ _ => count
  emmMsgEncode := fun _ _ => .ok [0x07]
  esmMsgEncode := fun _ _ => .ok [0x02]
  emmMsgDecode := fun buffer => .ok (buffer.length, ())
  esmMsgDecode := fun buffer => .ok (buffer.length, ())
  builtIn := true
  beyond := 0
  stale := fun _ => 0

def freshContext : SecurityContext := ⟨[], [], ⟨0, 5⟩, ⟨0, 0⟩, .eea0, .eia2⟩

/-- A genuine message with number 6, and the same behind a forged one with number 9. -/
def genuineSix : Arrival := ⟨false, .decode, [0x17, 0, 0, 0, 6, 6, 0x07]⟩

def forgedNine : Arrival := ⟨true, .decode, [0x17, 0, 0, 0, 0, 9]⟩

/-- The forged message sets the count to 9, and the genuine one is then taken for number 262. -/
theorem forgedNine_locks_out :
    (Fails plainEnv .ue (some freshContext) forgedNine ∧
      ¬ Unchanged plainEnv .ue (some freshContext) forgedNine) ∧
      genuine plainEnv .ue (some freshContext) [genuineSix] =
        ([.decoded (.ok ⟨0x7, (), 7⟩)], some { freshContext with dlCount := ⟨0, 6⟩ }) ∧
      genuine plainEnv .ue (some freshContext) [forgedNine, genuineSix] =
        ([.decoded (.error .macMismatch)], some { freshContext with dlCount := ⟨1, 6⟩ }) := by
  refine ⟨⟨rfl, ?_⟩, rfl, rfl⟩
  unfold Unchanged
  decide

end OpenAir.Nas
