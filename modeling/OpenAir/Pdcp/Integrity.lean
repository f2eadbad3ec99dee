import OpenAir.Pdcp.Count
import OpenAir.Pdcp.DataTransfer

/-! What is left of a control plane PDU whose integrity check fails: the sequence
numbering has been moved on before the check, and its result is not read. -/
namespace OpenAir.Pdcp

/-- A failed PDU goes nowhere. -/
def NotPassed (ind : Indication) : Prop := ind.delivered = none

/-- The sequence numbering is as before the PDU. -/
def NumberingRestored (before after : PdcpEntity) : Prop :=
  after.nextPdcpRxSn = before.nextPdcpRxSn ∧ after.rxHfn = before.rxHfn

/-- The COUNT an SRB would use for a PDU with this SN. -/
def rxCountOf (e : PdcpEntity) (seqNum : Nat) : Nat :=
  (getNextCountRx (isRxSeqNumberValid seqNum e true).2 true seqNum).1

/-- Later PDUs are received under the COUNT they had before. -/
def CountsKept (before after : PdcpEntity) : Prop :=
  ∀ seqNum < 32, rxCountOf after seqNum = rxCountOf before seqNum

structure SrbState (e : PdcpEntity) : Prop where
  size : e.seqNumSize = 5
  next : e.nextPdcpRxSn < 32

section
variable {c : Ciphering} {ctx : IndContext} {e : PdcpEntity} {rbId : Nat} {pdu : List UInt8}
    {blockFree : Bool}

theorem SrbState.configured (enbFlag : Bool) (security : SecurityConfig) :
    SrbState (Bearer.srb.add enbFlag security) := by
  obtain ⟨size, -, -, -, next, -⟩ := Bearer.srb.add_fields enbFlag security
  exact ⟨size, by rw [next]; decide⟩

/-- A PDU for which the security check was made has moved the numbering and reaches
RRC, whatever the check found. -/
theorem dataInd_srb_checked {code : Int}
    (checked : (dataInd c ctx e true rbId pdu blockFree).integrity = some code) :
    ∃ sdu, isRxSeqNumberValid (sequenceNumberOfSrbSn pdu) e true =
      (true, rxSeqNumberSrb (sequenceNumberOfSrbSn pdu) e) ∧
      (dataInd c ctx e true rbId pdu blockFree).delivered = some (.rrc, sdu) ∧
      (dataInd c ctx e true rbId pdu blockFree).entity =
        { rxSeqNumberSrb (sequenceNumberOfSrbSn pdu) e with rxHfnOffset := 0 } := by
  revert checked
  rw [dataInd]
  split
  · intro checked
    cases checked
  · simp only [headerOf, if_true]
    split
    · intro checked
      cases checked
    · split
      · intro checked
        cases checked
      · rename_i e' accepted
        have moved : e' = rxSeqNumberSrb (sequenceNumberOfSrbSn pdu) e := by
          simp only [isRxSeqNumberValid, if_true] at accepted
          split at accepted
          · cases accepted
          · exact (Prod.mk.inj accepted).2.symm
        subst moved
        simp only [validateSecurity, getNextCountRx]
        split
        · intro checked
          refine ⟨_, accepted, rfl, ?_⟩
          split <;> rfl
        · intro checked
          cases checked

theorem advanceRxWindow_cases {max : Nat} (valid : isSeqNumSizeValid e = true)
    (size : maxSeqNumForGivenSize e.seqNumSize = max) (small : max < 2 ^ 16 - 1)
    (inside : e.nextPdcpRxSn ≤ max) :
    (e.nextPdcpRxSn = max ∧ (advanceRxWindow e).nextPdcpRxSn = 0 ∧
      (advanceRxWindow e).rxHfn = (e.rxHfn + 1) % 2 ^ 32) ∨
    (e.nextPdcpRxSn < max ∧ (advanceRxWindow e).nextPdcpRxSn = e.nextPdcpRxSn + 1 ∧
      (advanceRxWindow e).rxHfn = e.rxHfn) := by
  rw [advanceRxWindow, valid, size]
  simp only [Bool.true_eq_false, if_false]
  by_cases atMax : e.nextPdcpRxSn = max
  · rw [if_pos atMax]
    exact Or.inl ⟨atMax, rfl, rfl⟩
  · rw [if_neg atMax]
    exact Or.inr ⟨by omega, Nat.mod_eq_of_lt (by omega), rfl⟩

/-- The numbering behind an SRB PDU: HFN moves for an SN behind the expected one and
for the last SN of a round. -/
theorem rxSeqNumberSrb_numbering {max seqNum : Nat} (valid : isSeqNumSizeValid e = true)
    (size : maxSeqNumForGivenSize e.seqNumSize = max) (small : max < 2 ^ 16 - 1)
    (inside : seqNum ≤ max) :
    (rxSeqNumberSrb seqNum e).nextPdcpRxSn = (if seqNum = max then 0 else seqNum + 1) ∧
    (rxSeqNumberSrb seqNum e).rxHfn = (if seqNum = max then
      ((if seqNum < e.nextPdcpRxSn then (e.rxHfn + 1) % 2 ^ 32 else e.rxHfn) + 1) % 2 ^ 32
      else if seqNum < e.nextPdcpRxSn then (e.rxHfn + 1) % 2 ^ 32 else e.rxHfn) := by
  rcases advanceRxWindow_cases (e := { e with
      rxHfn := if seqNum < e.nextPdcpRxSn then (e.rxHfn + 1) % 2 ^ 32 else e.rxHfn
      rxHfnOffset := 0
      nextPdcpRxSnBeforeIntegrity := e.nextPdcpRxSn
      nextPdcpRxSn := seqNum }) valid size small inside with ⟨atMax, next, hfn⟩ | ⟨below, next, hfn⟩
  · rw [if_pos atMax, if_pos atMax]
    exact ⟨next, hfn⟩
  · rw [if_neg (Nat.ne_of_lt below), if_neg (Nat.ne_of_lt below)]
    exact ⟨next, hfn⟩

theorem maxSeqNumForGivenSize_small (valid : isSeqNumSizeValid e = true) :
    maxSeqNumForGivenSize e.seqNumSize < 2 ^ 16 - 1 := by
  simp only [isSeqNumSizeValid, Bool.or_eq_true, decide_eq_true_eq] at valid
  rcases valid with (size | size) | size <;> rw [size] <;> decide

theorem rxSeqNumberSrb_moves {seqNum : Nat} (valid : isSeqNumSizeValid e = true)
    (inside : seqNum ≤ maxSeqNumForGivenSize e.seqNumSize) :
    ¬ NumberingRestored e (rxSeqNumberSrb seqNum e) := by
  rintro ⟨sameNext, sameHfn⟩
  obtain ⟨next, hfn⟩ :=
    rxSeqNumberSrb_numbering valid rfl (maxSeqNumForGivenSize_small valid) inside
  rw [next] at sameNext
  rw [hfn] at sameHfn
  split at sameNext
  · rename_i atMax
    rw [if_pos atMax, if_neg (by omega)] at sameHfn
    omega
  · rename_i below
    rw [if_neg below, if_pos (by omega)] at sameHfn
    omega

/-- HFN one further is another COUNT, though only 27 bits of HFN are in it. -/
theorem countOf_srb_succ (seqNumSize hfn seqNum : Nat) :
    countOf true seqNumSize ((hfn + 1) % 2 ^ 32) seqNum ≠
    countOf true seqNumSize (hfn % 2 ^ 32) seqNum := by
  have lowest (x : Nat) : (countOf true seqNumSize (x % 2 ^ 32) seqNum).testBit 5 =
      decide (x % 2 = 1) := by
    simp only [countOf, if_true, Nat.testBit_or, Nat.testBit_mod_two_pow, Nat.testBit_shiftLeft,
      Nat.testBit_and]
    have high : Nat.testBit 0x001F 5 = false := by decide
    rw [high, Nat.sub_self, Nat.testBit_zero]
    simp only [Nat.reduceLT, decide_true, Bool.true_and, ge_iff_le, Nat.le_refl,
      Bool.and_false, Bool.or_false]
  intro same
  have parity := congrArg (Nat.testBit · 5) same
  simp only [lowest, decide_eq_decide] at parity
  omega

theorem SrbState.valid (state : SrbState e) : isSeqNumSizeValid e = true := by
  rw [isSeqNumSizeValid, state.size]
  rfl

theorem SrbState.max (state : SrbState e) : maxSeqNumForGivenSize e.seqNumSize = 31 := by
  rw [state.size]
  rfl

theorem SrbState.rxCountOf_eq (state : SrbState e) {seqNum : Nat} (inside : seqNum < 32) :
    rxCountOf e seqNum = countOf true 5
      ((e.rxHfn + (if seqNum < e.nextPdcpRxSn then 1 else 0) + (if seqNum = 31 then 1 else 0))
        % 2 ^ 32) seqNum := by
  have accepted : isRxSeqNumberValid seqNum e true = (true, rxSeqNumberSrb seqNum e) := by
    have : ¬ (isSeqNumSizeValid e = false ∨ seqNum > maxSeqNumForGivenSize e.seqNumSize) := by
      rw [state.valid, state.max]
      simp only [Bool.true_eq_false, false_or]
      omega
    simp only [isRxSeqNumberValid, this, if_false, if_true]
  obtain ⟨-, hfn⟩ :=
    rxSeqNumberSrb_numbering state.valid state.max (by decide) (Nat.le_of_lt_succ inside)
  have offset : (rxSeqNumberSrb seqNum e).rxHfnOffset = 0 ∧
      (rxSeqNumberSrb seqNum e).seqNumSize = 5 := by
    obtain ⟨next, hfn, moved⟩ := rxSeqNumberSrb_frame seqNum e
    rw [moved]
    exact ⟨rfl, state.size⟩
  have used : (((rxSeqNumberSrb seqNum e).rxHfn : Int) + 0) % 2 ^ 32 =
      ((e.rxHfn + (if seqNum < e.nextPdcpRxSn then 1 else 0) + (if seqNum = 31 then 1 else 0))
          % 2 ^ 32 : Nat) := by
    rw [hfn]
    split <;> split <;> omega
  simp only [rxCountOf, accepted, getNextCountRx, offset.1, offset.2, used, Int.toNat_natCast]

theorem SrbState.received (state : SrbState e) {seqNum : Nat} (inside : seqNum < 32) :
    SrbState { rxSeqNumberSrb seqNum e with rxHfnOffset := 0 } := by
  obtain ⟨next, -⟩ :=
    rxSeqNumberSrb_numbering state.valid state.max (by decide) (Nat.le_of_lt_succ inside)
  refine ⟨?_, ?_⟩
  · obtain ⟨next, hfn, moved⟩ := rxSeqNumberSrb_frame seqNum e
    rw [moved]
    exact state.size
  · simp only [next]
    split <;> omega

/-- Whatever SN is received, some later PDU has another COUNT: the same SN again, or
the last SN of the round. -/
theorem SrbState.counts_moved (state : SrbState e) {e' : PdcpEntity}
    (state' : SrbState e') {seqNum : Nat}
    (inside : seqNum < 32) (nextAfter : e'.nextPdcpRxSn = (rxSeqNumberSrb seqNum e).nextPdcpRxSn)
    (hfnAfter : e'.rxHfn = (rxSeqNumberSrb seqNum e).rxHfn) : ¬ CountsKept e e' := by
  intro kept
  obtain ⟨next, hfn⟩ :=
    rxSeqNumberSrb_numbering state.valid state.max (by decide) (Nat.le_of_lt_succ inside)
  rw [next] at nextAfter
  rw [hfn] at hfnAfter
  have expected := state.next
  have expected' := state'.next
  -- at the last SN, HFN itself is compared
  have lastMoved (moved : e'.rxHfn % 2 ^ 32 = (e.rxHfn + 1) % 2 ^ 32) : False := by
    have same := kept 31 (by decide)
    rw [state'.rxCountOf_eq (by decide), state.rxCountOf_eq (by decide),
      if_neg (Nat.not_lt.mpr (Nat.le_of_lt_succ expected)),
        if_neg (Nat.not_lt.mpr (Nat.le_of_lt_succ expected')), if_pos rfl] at same
    refine countOf_srb_succ 5 (e.rxHfn + 0 + 1) 31 ?_
    rw [← same]
    congr 1
    omega
  by_cases atMax : seqNum = 31
  · rw [if_pos atMax, if_neg (by omega)] at hfnAfter
    exact lastMoved (by rw [hfnAfter]; omega)
  · rw [if_neg atMax] at hfnAfter nextAfter
    by_cases behind : seqNum < e.nextPdcpRxSn
    · rw [if_pos behind] at hfnAfter
      exact lastMoved (by rw [hfnAfter]; omega)
    · rw [if_neg behind] at hfnAfter
      have same := kept seqNum inside
      rw [state'.rxCountOf_eq inside, state.rxCountOf_eq inside, if_neg behind, if_neg atMax,
        nextAfter, hfnAfter, if_pos (Nat.lt_succ_self seqNum)] at same
      exact countOf_srb_succ 5 e.rxHfn seqNum same

end

/-- A PDU that fails the integrity check is passed to RRC all the same, the numbering
is not restored, and some later PDU is received under another COUNT for it. -/
theorem integrityFailure_leaves_trace (c : Ciphering) (ctx : IndContext)
    (e : PdcpEntity) (rbId : Nat)
    (pdu : List UInt8) (blockFree : Bool)
    (fails : (dataInd c ctx e true rbId pdu blockFree).integrity = some (-1)) :
    ¬ NotPassed (dataInd c ctx e true rbId pdu blockFree) ∧
    ¬ NumberingRestored e (dataInd c ctx e true rbId pdu blockFree).entity ∧
    (SrbState e → ¬ CountsKept e (dataInd c ctx e true rbId pdu blockFree).entity) := by
  obtain ⟨sdu, accepted, delivered, entity⟩ := dataInd_srb_checked fails
  have valid : isSeqNumSizeValid e = true ∧ sequenceNumberOfSrbSn pdu ≤
      maxSeqNumForGivenSize e.seqNumSize := by
    simp only [isRxSeqNumberValid] at accepted
    split at accepted
    · cases accepted
    · rename_i good
      simpa only [not_or, Bool.not_eq_false, Nat.not_lt, gt_iff_lt] using good
  refine ⟨?_, ?_, ?_⟩
  · rw [NotPassed, delivered]
    intro passed
    cases passed
  · rw [entity]
    exact rxSeqNumberSrb_moves valid.1 valid.2
  · intro state
    rw [entity]
    have inside : sequenceNumberOfSrbSn pdu < 32 := Nat.lt_of_le_of_lt Nat.and_le_right (by decide)
    exact state.counts_moved (state.received inside) inside rfl rfl

/-- An SRB of the UE with EIA3, which `stream_compute_integrity` does not know, so
that no MAC-I passes. -/
def protectedSrb : PdcpEntity := Bearer.srb.add false ⟨0x30, [], [], []⟩

/-- What becomes of a PDU with SN 0, two bytes of SDU and a MAC-I. -/
def unprovenInd : Indication :=
  dataInd nullCiphering ⟨false, true, false, false, false⟩ protectedSrb true 1
    [0, 7, 7, 1, 2, 3, 4] true

theorem unprovenInd_passed :
    unprovenInd.integrity = some (-1) ∧
    ¬ (NotPassed unprovenInd ∧ NumberingRestored protectedSrb unprovenInd.entity) := by
  refine ⟨by decide, ?_⟩
  rintro ⟨notPassed, -⟩
  exact absurd notPassed (by rw [NotPassed]; decide)

theorem unprovenInd_leaves_trace :
    unprovenInd.integrity = some (-1) ∧ ¬ NotPassed unprovenInd ∧
    ¬ NumberingRestored protectedSrb unprovenInd.entity ∧
      ¬ CountsKept protectedSrb unprovenInd.entity := by
  have fails : unprovenInd.integrity = some (-1) := by decide
  have trace :=
    integrityFailure_leaves_trace nullCiphering ⟨false, true, false, false, false⟩ protectedSrb 1
    [0, 7, 7, 1, 2, 3, 4] true fails
  exact ⟨fails, trace.1, trace.2.1, trace.2.2 (SrbState.configured _ _)⟩

end OpenAir.Pdcp
