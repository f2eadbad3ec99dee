import OpenAir.Nas.EmmAs

/-! Runs of requests at the UE, and an MME that receives some of the messages. -/
namespace OpenAir.Nas

variable {Msg : Type} (env : Env Msg)

/-- What holds of every request of a run, in the context it meets. -/
def EachRequest (P : SecurityContext → Submission Msg → Prop) : SecurityContext →
    List (Submission Msg) → Prop
  | _, [] => True
  | ctx, s :: rest => P ctx s ∧ ∀ ctx', (emmAsSend env (some ctx) s).2 = some ctx' →
      EachRequest P ctx' rest

/-- The protected messages of a run, each with the count that was used for it. -/
def sentProtected : Option SecurityContext → List (Submission Msg) → List (Count × List Byte)
  | some ctx, s :: rest =>
    let result := emmAsSend env (some ctx) s
    let others := sentProtected result.2 rest
    match result.1 with
    | some bytes => if emmAsSetHeader s.sctx ≠ some notProtected then
        (ctx.ulCount, bytes) :: others else others
    | none => others
  | _, _ => []

/-- Messages that use one count after the other. -/
def Consecutive : Count → List (Count × List Byte) → Prop
  | _, [] => True
  | count, (used, bytes) :: rest =>
    used = count ∧ (∃ ctx : SecurityContext, ctx.ulCount = count ∧ ProtectedBy env ctx bytes) ∧
      Consecutive count.increment rest

/-- What arrives in order, with fewer than 255 lost before each. -/
inductive Delivered {α : Type} : List α → List α → Prop where
  | done (sent : List α) : Delivered sent []
  | next {lost rest received : List α} (few : lost.length < 255) (message : α)
      (others : Delivered rest received) :
    Delivered (lost ++ message :: rest) (message :: received)

/-- With each message the count of the receiver becomes the count of the sender. -/
def Follows : SecurityContext → List (Count × List Byte) → Prop
  | _, [] => True
  | peer, (count, bytes) :: rest => ∀ reception, ∃ peer',
    (receive env .mme (some peer) reception bytes).2 = some peer' ∧ peer'.ulCount = count ∧
    Follows peer' rest

variable {env} {ctx : SecurityContext} {requests : List (Submission Msg)}

theorem EachRequest.imp {P Q : SecurityContext → Submission Msg → Prop}
    (weaker : ∀ ctx s, P ctx s → Q ctx s)
    (each : EachRequest env P ctx requests) : EachRequest env Q ctx requests := by
  induction requests generalizing ctx with
  | nil => trivial
  | cons s rest ih => exact ⟨weaker ctx s each.1, fun ctx' sent => ih (each.2 ctx' sent)⟩

theorem sentProtected_consecutive (kept : EachRequest env (CountKept env) ctx requests) :
    Consecutive env ctx.ulCount (sentProtected env (some ctx) requests) := by
  induction requests generalizing ctx with
  | nil => trivial
  | cons s rest ih =>
    obtain ⟨here, behind⟩ := kept
    rw [sentProtected]
    cases sent : (emmAsSend env (some ctx) s).1 with
    | none =>
      have same := here.others (.inl sent)
      simp only [same]
      exact ih (behind ctx same)
    | some bytes =>
      by_cases plain : emmAsSetHeader s.sctx = some notProtected
      · have same := here.others (.inr plain)
        simp only [same, ne_eq, plain, not_true_eq_false, if_false]
        exact ih (behind ctx same)
      · obtain ⟨held, next⟩ := here.protected_ bytes sent plain
        simp only [next, ne_eq, plain, not_false_eq_true, if_true]
        exact ⟨rfl, ⟨ctx, rfl, held⟩, ih (behind _ next)⟩

theorem Consecutive.append {count : Count} {lost rest : List (Count × List Byte)}
    (all : Consecutive env count (lost ++ rest)) :
    ∃ later : Count, later.toNat = (count.toNat + lost.length) % 2 ^ 24 ∧
      Consecutive env later rest := by
  induction lost generalizing count with
  | nil => exact ⟨count, (Nat.mod_eq_of_lt count.toNat_lt).symm, all⟩
  | cons message lost ih =>
    obtain ⟨later, place, others⟩ := ih all.2.2
    refine ⟨later, ?_, others⟩
    rw [place, count.increment_toNat, Nat.mod_add_mod, List.length_cons]
    congr 1
    omega

theorem receive_protected {bytes : List Byte} {peer : SecurityContext}
    (held : ProtectedBy env ctx bytes) (reception : Reception) :
    (receive env .mme (some peer) reception bytes).2 =
    some { peer with ulCount := peer.ulCount.update ctx.ulCount.seqNum } := by
  obtain ⟨header, plain, mobility, typed, number, rfl⟩ := held
  rw [receive_security, headerDecode_protected mobility typed]
  simp only [Option.map_some, number, ctx.ulCount.value_setWidth]
  rfl

theorem follows_delivered {sent received : List (Count × List Byte)} {count : Count}
    {peer : SecurityContext} {gap : Nat}
    (delivered : Delivered sent received) (near : gap ≤ 1)
    (behind : count.toNat = (peer.ulCount.toNat + gap) % 2 ^ 24)
    (all : Consecutive env count sent) : Follows env peer received := by
  induction delivered generalizing count peer gap with
  | done sent => trivial
  | @next lost rest received few message others ih =>
    obtain ⟨used, bytes⟩ := message
    obtain ⟨later, place, same, ⟨ctx, held, protects⟩, more⟩ := all.append
    subst same
    have ahead : used.toNat = (peer.ulCount.toNat + (gap + lost.length)) % 2 ^ 24 := by
      rw [place, behind, Nat.mod_add_mod, Nat.add_assoc]
    intro reception
    have found : peer.ulCount.update ctx.ulCount.seqNum = used := by
      rw [held]
      exact Count.update_eq (by omega) ahead
    refine ⟨_, receive_protected protects reception, found, ?_⟩
    have next : used.increment.toNat = (used.toNat + 1) % 2 ^ 24 := used.increment_toNat
    rw [found]
    exact ih (Nat.le_refl 1) next more

/-- The requests of a run keep the count if and only if all are careful ones. Then the messages
use consecutive counts, and an MME with the same count at the start follows. -/
theorem count_agreement (env : Env Msg) (ctx : SecurityContext) (requests : List (Submission Msg)) :
    (EachRequest env (CountKept env) ctx requests ↔ EachRequest env (Careful env) ctx requests) ∧
    (EachRequest env (Careful env) ctx requests →
      Consecutive env ctx.ulCount (sentProtected env (some ctx) requests) ∧
      ∀ peer received, peer.ulCount = ctx.ulCount →
        Delivered (sentProtected env (some ctx) requests) received →
        Follows env peer received) := by
  refine ⟨⟨fun
    each => each.imp
    fun _ _ => countKept_iff.mp,
    fun each => each.imp fun _ _ => countKept_iff.mpr⟩, fun careful => ?_⟩
  have all := sentProtected_consecutive (careful.imp fun _ _ => countKept_iff.mpr)
  refine ⟨all,
    fun peer received same delivered => follows_delivered delivered (Nat.zero_le 1) ?_ all⟩
  rw [same]
  exact (Nat.mod_eq_of_lt ctx.ulCount.toNat_lt).symm

/-- After one protected message. -/
def usedContext : SecurityContext := ⟨[], [], ⟨0, 0⟩, ⟨0, 1⟩, .eea0, .eia2⟩

def securityModeComplete : Submission Unit := ⟨⟨true, false, true, false⟩, .securityRes 1 (), true⟩

/-- The security response has 0 in its header and 1 in its code, and an MME that has count 1
takes it for number 256. -/
theorem securityModeComplete_number :
    ¬ EachRequest plainEnv (CountKept plainEnv) usedContext [securityModeComplete] ∧
      (emmAsSend plainEnv (some usedContext) securityModeComplete).1 =
      some [0x17, 0, 0, 0, 1, 0, 0x07] ∧
      receive plainEnv .mme (some usedContext) .decode [0x17, 0, 0, 0, 1, 0, 0x07] =
        (.decoded (.error .macMismatch), some { usedContext with ulCount := ⟨1, 0⟩ }) := by
  refine ⟨fun kept => ?_, rfl, rfl⟩
  have careful := countKept_iff.mp kept.1
  have zero : usedContext.ulCount.seqNum = 0 :=
    careful (by decide) rfl 0b0001 rfl (by decide) ⟨[0x07], rfl, List.cons_ne_nil _ _⟩
  exact absurd zero (by decide)

def dataRequests : List (Submission Unit) :=
  List.replicate 3 ⟨⟨true, false, true, false⟩, .dataReq 1 (), true⟩

/-- The second of three messages is lost, and the MME follows the count of the third. -/
theorem dataRequests_followed : EachRequest plainEnv (CountKept plainEnv) usedContext dataRequests ∧
    ∃ first lost third, sentProtected plainEnv (some usedContext) dataRequests =
      [first, lost, third] ∧
      Follows plainEnv usedContext [first, third] := by
  have careful : EachRequest plainEnv (Careful plainEnv) usedContext dataRequests :=
    ⟨trivial, fun _ _ => ⟨trivial, fun _ _ => ⟨trivial, fun _ _ => trivial⟩⟩⟩
  obtain ⟨kept, follows⟩ := count_agreement plainEnv usedContext dataRequests
  refine ⟨kept.mpr careful, _, _, _, rfl, (follows careful).2 usedContext _ rfl ?_⟩
  exact @Delivered.next _ [] _ _ (by decide) _ (@Delivered.next _ [_] _ _ (by decide) _ (.done []))

end OpenAir.Nas
