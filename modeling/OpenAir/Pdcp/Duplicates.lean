import OpenAir.Lib.Serial
import OpenAir.Pdcp.Count
import OpenAir.Pdcp.DataTransfer

/-! Which PDUs an AM data bearer discards over a run of receptions. -/
namespace OpenAir.Pdcp

/-- The SN lies in the half window at or before the one submitted last. -/
def AtOrBefore (last seqNum : Nat) : Prop := Serial.dist 4096 seqNum last < 2048

instance (last seqNum : Nat) : Decidable (AtOrBefore last seqNum) :=
  inferInstanceAs (Decidable (_ < _))

/-- A run of `pdcp_data_ind` over PDUs, each with whether a block is free for its SDU.
Every indication is recorded with the SN submitted last to the upper layer before it. -/
def indRun (c : Ciphering) (ctx : IndContext) (rbId : Nat) (e : PdcpEntity) (last : Nat) :
    List (List UInt8 × Bool) → List (Nat × Indication)
  | [] => []
  | (pdu, blockFree) :: rest =>
    let ind := dataInd c ctx e false rbId pdu blockFree
    (last, ind) :: indRun c ctx rbId ind.entity
      (if ind.delivered.isSome then ind.sequenceNumber else last) rest

/-- A run of a bearer as configured, where the SN before the first counts as submitted. -/
def amRun (c : Ciphering) (ctx : IndContext) (security : SecurityConfig) (rbId : Nat)
    (arrivals : List (List UInt8 × Bool)) : List (Nat × Indication) :=
  indRun c ctx rbId (Bearer.drbAm.add ctx.enbFlag security) 4095 arrivals

def Discarded (ind : Indication) : Prop := ind.ret = false

instance (ind : Indication) : Decidable (Discarded ind) := inferInstanceAs (Decidable (_ = _))

/-- Exactly the PDUs at or before the last one submitted are discarded. -/
def DiscardsStale (run : List (Nat × Indication)) : Prop :=
  ∀ r ∈ run, (Discarded r.2 ↔ AtOrBefore r.1 r.2.sequenceNumber)

instance (run : List (Nat × Indication)) : Decidable (DiscardsStale run) :=
  inferInstanceAs (Decidable (∀ r ∈ run, _))

/-- A stream without loss, in order, from SN 0 on, and memory for every SDU. -/
def LossFree (arrivals : List (List UInt8 × Bool)) : Prop :=
  ∀ k a, arrivals[k]? = some a → sequenceNumberOfLongSn a.1 = k % 4096 ∧ a.2 = true

/-- SDUs leave through the tunnel of the eNB. -/
def IndContext.Tunnelled (ctx : IndContext) : Prop := ctx.linkEnbPdcpToGtpv1u = true ∧
    ctx.enbFlag = true

instance (ctx : IndContext) : Decidable ctx.Tunnelled := inferInstanceAs (Decidable (_ ∧ _))

structure AmState (e : PdcpEntity) : Prop where
  size : e.seqNumSize = 12
  mode : e.rlcMode = .am
  last : e.lastSubmittedPdcpRxSn < 4096

section
variable {c : Ciphering} {ctx : IndContext} {e : PdcpEntity} {rbId : Nat} {pdu : List UInt8}

theorem sequenceNumberOfLongSn_lt (pdu : List UInt8) : sequenceNumberOfLongSn pdu < 4096 := by
  have high : ((pdu.getD 0 0).toNat &&& 0x0F) <<< 8 < 2 ^ 12 := by
    have : (pdu.getD 0 0).toNat &&& 0x0F ≤ 0x0F := Nat.and_le_right
    rw [Nat.shiftLeft_eq]
    omega
  have low : (pdu.getD 1 0).toNat &&& 0xFF < 2 ^ 12 :=
    Nat.lt_of_le_of_lt Nat.and_le_right (by decide)
  exact Nat.or_lt_two_pow high low

theorem AmState.configured (enbFlag : Bool) (security : SecurityConfig) :
    AmState (Bearer.drbAm.add enbFlag security) := by
  obtain ⟨size, mode, -, -, -, -, -, last⟩ := Bearer.drbAm.add_fields enbFlag security
  exact ⟨size, mode, by rw [last]; decide⟩

/-- The comparisons of the code are the half window. -/
theorem AmState.refused_iff (state : AmState e) {seqNum : Nat} (inside : seqNum < 4096) :
    (isRxSeqNumberValid seqNum e false).1 = false ↔ AtOrBefore e.lastSubmittedPdcpRxSn seqNum := by
  have last := state.last
  have valid : ¬ (isSeqNumSizeValid e = false ∨ seqNum > maxSeqNumForGivenSize e.seqNumSize) := by
    rw [isSeqNumSizeValid, state.size]
    exact fun refused => refused.elim Bool.noConfusion (Nat.not_lt.mpr (Nat.le_of_lt_succ inside))
  have chosen : isRxSeqNumberValid seqNum e false = rxSeqNumberAm seqNum e := by
    simp only [isRxSeqNumberValid, valid, if_false, Bool.false_eq_true, state.mode]
  have window :
      (if e.seqNumSize = 7 then (reorderingWindowSn7bit : Int) else reorderingWindowSn12bit) =
      2048 := by
    rw [state.size]
    rfl
  have compared : ((seqNum : Int) - e.lastSubmittedPdcpRxSn > 2048 ∨
      (0 ≤ (e.lastSubmittedPdcpRxSn : Int) - seqNum ∧
        (e.lastSubmittedPdcpRxSn : Int) - seqNum < 2048)) ↔
      AtOrBefore e.lastSubmittedPdcpRxSn seqNum := by
    rw [AtOrBefore, Serial.dist_eq inside last]
    split <;> omega
  rw [chosen, ← compared]
  simp only [rxSeqNumberAm, window]
  constructor
  · intro refused
    by_contra accepted
    rw [if_neg accepted] at refused
    revert refused
    split
    · intro refused
      cases refused
    · split
      · intro refused
        cases refused
      · split <;> (intro refused; cases refused)
  · intro stale
    rw [if_pos stale]

theorem AmState.of_frame (state : AmState e) {e' : PdcpEntity}
    (frame : ∃ next hfn offset before, e' = { e with
      nextPdcpRxSn := next, rxHfn := hfn, rxHfnOffset :=
  offset, nextPdcpRxSnBeforeIntegrity := before }) :
    AmState e' ∧ e'.lastSubmittedPdcpRxSn = e.lastSubmittedPdcpRxSn := by
  obtain ⟨next, hfn, offset, before, rfl⟩ := frame
  exact ⟨⟨state.size, state.mode, state.last⟩, rfl⟩

theorem validateSecurity_entity (usrpRecPlay srbFlag : Bool) (headerLen sn size : Nat) :
    (validateSecurity c usrpRecPlay e srbFlag rbId headerLen sn pdu size).2.2 =
    { e with rxHfnOffset := 0 } := by
  simp only [validateSecurity, getNextCountRx]
  split <;> rfl

/-- Delivery. The network interface's list records the SN, the tunnel does not. -/
theorem deliverDrb_am (ind : Indication) (blockFree : Bool) (state : AmState ind.entity)
    (inside : ind.sequenceNumber < 4096)
    (fresh : ind.delivered = none) (otg : ctx.otgEnabled = false) (sdu : List UInt8) :
    let out := deliverDrb ctx blockFree ind sdu
    out.ret = ind.ret ∧ out.sequenceNumber = ind.sequenceNumber ∧ AmState out.entity ∧
    (blockFree = true → out.delivered.isSome = true) ∧
    out.entity.lastSubmittedPdcpRxSn = if out.delivered.isSome = true ∧ ¬ ctx.Tunnelled
      then ind.sequenceNumber else ind.entity.lastSubmittedPdcpRxSn := by
  simp only [deliverDrb, otg, Bool.false_eq_true, if_false]
  by_cases tunnel : ctx.linkEnbPdcpToGtpv1u = true ∧ ctx.enbFlag = true
  · have tunnelled : ctx.Tunnelled := tunnel
    rw [if_pos tunnel, if_neg (fun submitted => submitted.2 tunnelled)]
    exact ⟨rfl, rfl, state, fun _ => rfl, rfl⟩
  · have direct : ¬ ctx.Tunnelled := tunnel
    rw [if_neg tunnel]
    cases blockFree with
    | true =>
      simp only [if_true, if_pos state.mode]
      exact ⟨trivial, trivial, ⟨state.size, state.mode, inside⟩, fun _ => rfl, by
        rw [if_pos ⟨rfl, direct⟩]⟩
    | false =>
      simp only [Bool.false_eq_true, if_false, fresh]
      exact ⟨trivial, trivial, state, nofun, rfl⟩

theorem dataInd_accepted {sn : Nat} {e' : PdcpEntity}
    (entered : ¬ (¬ rbId % maxDrb > 0 ∨ pdu.length = 0))
    (header : headerOf e false pdu = (2, sn)) (long : 2 ≤ pdu.length)
    (accepted : isRxSeqNumberValid sn e false = (true, e')) (ctx : IndContext) (blockFree : Bool) :
    ∃ ind sdu, dataInd c ctx e false rbId pdu blockFree = deliverDrb ctx blockFree ind sdu ∧
      ind.ret = true ∧
      ind.sequenceNumber = sn ∧ ind.delivered = none ∧
      ∃ offset, ind.entity = { e' with rxHfnOffset := offset } := by
  rw [dataInd, if_neg entered]
  simp only [header, Bool.false_eq_true, if_false, Nat.add_zero, Nat.not_lt.mpr long, accepted]
  refine ⟨_, _, rfl, rfl, rfl, rfl, ?_⟩
  split
  · refine ⟨0, ?_⟩
    simp only [validateSecurity_entity]
  · exact ⟨e'.rxHfnOffset, rfl⟩

theorem AmState.dataInd_step (state : AmState e) (c : Ciphering) (blockFree : Bool)
    (bearer : 0 < rbId % maxDrb) (long : 2 ≤ pdu.length)
    (otg : ctx.otgEnabled = false) :
    let ind := dataInd c ctx e false rbId pdu blockFree
    ind.sequenceNumber = sequenceNumberOfLongSn pdu ∧
    (Discarded ind ↔ AtOrBefore e.lastSubmittedPdcpRxSn (sequenceNumberOfLongSn pdu)) ∧
    (blockFree = true → ¬ Discarded ind → ind.delivered.isSome = true) ∧
    AmState ind.entity ∧
    ind.entity.lastSubmittedPdcpRxSn =
      if ind.delivered.isSome = true ∧ ¬ ctx.Tunnelled then sequenceNumberOfLongSn pdu
          else e.lastSubmittedPdcpRxSn := by
  have inside := sequenceNumberOfLongSn_lt pdu
  have refused := state.refused_iff inside
  have entered : ¬ (¬ rbId % maxDrb > 0 ∨ pdu.length = 0) := by omega
  have header : headerOf e false pdu = (2, sequenceNumberOfLongSn pdu) := by
    simp only [headerOf, Bool.false_eq_true, if_false, state.size]
    rfl
  obtain ⟨checked, sameLast⟩ :=
    state.of_frame (isRxSeqNumberValid_frame (sequenceNumberOfLongSn pdu) e false)
  rw [← refused]
  cases accepted : (isRxSeqNumberValid (sequenceNumberOfLongSn pdu) e false).1 with
  | false =>
    have out : dataInd c ctx e false rbId pdu blockFree =
        { ret := false, sequenceNumber := sequenceNumberOfLongSn pdu,
          entity := (isRxSeqNumberValid (sequenceNumberOfLongSn pdu) e false).2 } := by
      have checkedAs : isRxSeqNumberValid (sequenceNumberOfLongSn pdu) e false =
          (false, (isRxSeqNumberValid (sequenceNumberOfLongSn pdu) e false).2) :=
            Prod.ext accepted rfl
      rw [dataInd, if_neg entered]
      simp only [header, Bool.false_eq_true, if_false, Nat.add_zero, Nat.not_lt.mpr long]
      rw [checkedAs]
    rw [out]
    exact ⟨rfl, ⟨fun _ => rfl, fun _ => rfl⟩,
      fun _ notDiscarded => absurd rfl notDiscarded, checked, sameLast⟩
  | true =>
    obtain ⟨ind, sdu, out, ret, number, fresh, offset, entity⟩ :=
      dataInd_accepted (c := c) entered header long (Prod.ext accepted rfl) ctx blockFree
    have entityState : AmState ind.entity ∧ ind.entity.lastSubmittedPdcpRxSn =
        e.lastSubmittedPdcpRxSn := by
      rw [entity]
      exact ⟨⟨checked.size, checked.mode, checked.last⟩, sameLast⟩
    obtain ⟨outRet, outNumber, outState, submitted, outLast⟩ :=
      deliverDrb_am ind blockFree entityState.1 (number ▸ inside) fresh otg sdu
    rw [out]
    rw [number, entityState.2] at outLast
    refine ⟨outNumber.trans number, ⟨fun discarded => ?_, nofun⟩,
      fun free _ => submitted free, outState, outLast⟩
    rw [Discarded, outRet, ret] at discarded
    cases discarded

/-- Over a run that ends at the network interface, the SN recorded is the one
submitted last. -/
theorem indRun_stale (bearer : 0 < rbId % maxDrb) (otg : ctx.otgEnabled = false)
    (direct : ¬ ctx.Tunnelled)
    {arrivals : List (List UInt8 × Bool)} (long : ∀ a ∈ arrivals, 2 ≤ a.1.length)
    (state : AmState e) :
    DiscardsStale (indRun c ctx rbId e e.lastSubmittedPdcpRxSn arrivals) := by
  induction arrivals generalizing e with
  | nil => exact fun r member => by cases member
  | cons a rest ih =>
    obtain ⟨pdu, blockFree⟩ := a
    have enough : 2 ≤ pdu.length := long _ List.mem_cons_self
    obtain ⟨number, stale, -, after, last⟩ := state.dataInd_step c blockFree bearer enough otg
    intro r member
    rcases List.mem_cons.mp member with rfl | later
    · rw [number]
      exact stale
    · refine ih (fun a inRest => long a (List.mem_cons_of_mem _ inRest)) after r ?_
      rw [last, ← number]
      simpa only [direct, not_false_eq_true, and_true] using later

theorem indRun_lossFree (bearer : 0 < rbId % maxDrb) (otg : ctx.otgEnabled = false)
    (direct : ¬ ctx.Tunnelled)
    {arrivals : List (List UInt8 × Bool)} (long : ∀ a ∈ arrivals, 2 ≤ a.1.length) {n last : Nat}
    (stream : ∀ k a, arrivals[k]? = some a → sequenceNumberOfLongSn a.1 =
      (n + k) % 4096 ∧ a.2 = true)
    (state : AmState e) (recorded : e.lastSubmittedPdcpRxSn = (n + 4095) % 4096) :
    ∀ r ∈ indRun c ctx rbId e last arrivals, ¬ Discarded r.2 := by
  induction arrivals generalizing e n last with
  | nil => exact fun r member => by cases member
  | cons a rest ih =>
    obtain ⟨pdu, blockFree⟩ := a
    have enough : 2 ≤ pdu.length := long _ List.mem_cons_self
    obtain ⟨here, free⟩ := stream 0 (pdu, blockFree) rfl
    obtain ⟨number, stale, submitted, after, lastAfter⟩ :=
      state.dataInd_step c blockFree bearer enough otg
    have kept : ¬ Discarded (dataInd c ctx e false rbId pdu blockFree) := by
      rw [stale, here, recorded, AtOrBefore]
      have far := Serial.dist_add (m := 4096) (k := 4095)
        (Nat.mod_lt (n + 0) (by decide)) (by decide)
      rw [Nat.mod_add_mod] at far
      rw [far]
      decide
    intro r member
    rcases List.mem_cons.mp member with rfl | later
    · exact kept
    · refine ih (fun a inRest => long a (List.mem_cons_of_mem _ inRest)) (n := n + 1)
        (fun k a found => ?_) after ?_ r later
      · rw [Nat.add_right_comm]
        exact stream (k + 1) a found
      · rw [lastAfter, if_pos ⟨submitted free kept, direct⟩, here]
        omega

/-- Through the tunnel nothing is recorded: half of the SNs is discarded for good, the
other half is never checked. -/
theorem indRun_tunnelled (bearer : 0 < rbId % maxDrb) (otg : ctx.otgEnabled = false)
    (tunnel : ctx.Tunnelled)
    {arrivals : List (List UInt8 × Bool)} (long : ∀ a ∈ arrivals, 2 ≤ a.1.length) {last : Nat}
    (state : AmState e) (recorded : e.lastSubmittedPdcpRxSn = 4095) :
    ∀ r ∈ indRun c ctx rbId e last arrivals, (Discarded r.2 ↔ 2048 ≤ r.2.sequenceNumber) := by
  induction arrivals generalizing e last with
  | nil => exact fun r member => by cases member
  | cons a rest ih =>
    obtain ⟨pdu, blockFree⟩ := a
    have enough : 2 ≤ pdu.length := long _ List.mem_cons_self
    obtain ⟨number, stale, -, after, lastAfter⟩ := state.dataInd_step c blockFree bearer enough otg
    intro r member
    rcases List.mem_cons.mp member with rfl | later
    · have inside := sequenceNumberOfLongSn_lt pdu
      rw [number, stale, recorded, AtOrBefore, Serial.dist_eq inside (by decide), if_pos (by omega)]
      omega
    · refine ih (fun a inRest => long a (List.mem_cons_of_mem _ inRest)) after ?_ r later
      rw [lastAfter, if_neg (fun submitted => submitted.2 tunnel), recorded]

end

/-- An AM bearer whose SDUs leave through the network interface's list discards exactly
the PDUs at or before the last one submitted, and nothing of a loss-free stream. -/
theorem amRun_discards_stale (c : Ciphering) (ctx : IndContext) (otg : ctx.otgEnabled = false)
    (direct : ¬ ctx.Tunnelled) (security : SecurityConfig) (rbId : Nat) (bearer : 0 < rbId % maxDrb)
    (arrivals : List (List UInt8 × Bool)) (long : ∀ a ∈ arrivals, 2 ≤ a.1.length) :
    DiscardsStale (amRun c ctx security rbId arrivals) ∧
    (LossFree arrivals → ∀ r ∈ amRun c ctx security rbId arrivals, ¬ Discarded r.2) := by
  have state := AmState.configured ctx.enbFlag security
  obtain ⟨-, -, -, -, -, -, -, last⟩ := Bearer.drbAm.add_fields ctx.enbFlag security
  constructor
  · have stale := indRun_stale (c := c) bearer otg direct long state
    rw [last] at stale
    exact stale
  · intro stream
    refine indRun_lossFree bearer otg direct long (n := 0) (fun k a found => ?_) state last
    rw [Nat.zero_add]
    exact stream k a found

/-- At the eNB with its tunnel, the first PDU received twice is delivered twice. -/
theorem tunnelledTwice_not_discarded :
    ¬ DiscardsStale (amRun nullCiphering ⟨true, true, true, false, false⟩ noSecurity 1
      [([0x80, 0, 7], true), ([0x80, 0, 7], true)]) := by
  decide

/-- The first PDU twice, then number 2 and behind it number 1. -/
def staleArrivals : List (List UInt8 × Bool) :=
  [([0x80, 0, 7], true), ([0x80, 0, 7], true), ([0x80, 2, 8], true), ([0x80, 1, 9], true)]

def freshArrivals : List (List UInt8 × Bool) :=
  [([0x80, 0, 7], true), ([0x80, 1, 8], true), ([0x80, 2, 9], true)]

theorem amRun_discards_stale_later :
    DiscardsStale
      (amRun nullCiphering ⟨false, true, true, false, false⟩ noSecurity 1 staleArrivals) ∧
    (amRun nullCiphering ⟨false, true, true, false, false⟩ noSecurity 1 staleArrivals).map
      (fun r => decide (Discarded r.2)) =
      [false, true, false, true] ∧
    ∀ r ∈ amRun nullCiphering ⟨false, true, true, false, false⟩ noSecurity 1 freshArrivals,
      ¬ Discarded r.2 := by
  refine ⟨(amRun_discards_stale _ _ rfl (by decide) noSecurity 1 (by decide) staleArrivals
    (by decide)).1, by decide,
    (amRun_discards_stale _ _ rfl (by decide) noSecurity 1 (by decide) freshArrivals (by decide)).2
      fun k a found => ?_⟩
  match k, found with
  | 0, rfl => exact ⟨by decide, rfl⟩
  | 1, rfl => exact ⟨by decide, rfl⟩
  | 2, rfl => exact ⟨by decide, rfl⟩

end OpenAir.Pdcp
