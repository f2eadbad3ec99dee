import OpenAir.Pdcp.Entity

/-! COUNT on both ends of a bearer: the sender numbers PDUs one after the other, the
receiver derives COUNT from the SNs it accepts. -/
namespace OpenAir.Pdcp

inductive Bearer where
  | srb
  | drbUm7
  | drbUm12
  | drbAm
deriving Repr, DecidableEq

namespace Bearer

def isSrb : Bearer → Bool
  | srb => true
  | _ => false

def rlcMode : Bearer → RlcMode
  | srb => .am
  | drbUm7 => .um
  | drbUm12 => .um
  | drbAm => .am

/-- The SN size handed to `pdcp_config_req_asn1`: 5 for SRBs, otherwise the
enumeration value. -/
def rbSn : Bearer → Nat
  | srb => 5
  | drbUm7 => pdcpSnSizeLen7bits
  | drbUm12 => pdcpSnSizeLen12bits
  | drbAm => pdcpSnSizeLen12bits

def snBits (b : Bearer) : Nat := seqNumSizeOf b.rbSn

def add (b : Bearer) (enbFlag : Bool) (security : SecurityConfig) : PdcpEntity :=
  configReqAsn1Add enbFlag b.isSrb b.rlcMode b.rbSn security {}

def countShift (b : Bearer) : Nat := if b.isSrb then 5 else 12

end Bearer

def sentPdus (e : PdcpEntity) : Nat → PdcpEntity
  | 0 => e
  | n + 1 => (getNextTxSeqNumber (sentPdus e n)).2

/-- The SN of the `k`-th PDU, counted from 0. -/
def txSn (e : PdcpEntity) (k : Nat) : Nat := (getNextTxSeqNumber (sentPdus e k)).1

/-- The COUNT of the `k`-th PDU: `pdcp_apply_security` derives it after the SN has
been taken. -/
def txCount (e : PdcpEntity) (srbFlag : Bool) (k : Nat) : Nat :=
  getNextCountTx (sentPdus e (k + 1)) srbFlag (txSn e k)

/-- One PDU at the receiver: its COUNT when it is accepted. `submitted` tells whether
the delivery path records the SN as the last one submitted. -/
def receiveCount (e : PdcpEntity) (srbFlag : Bool) (seqNum : Nat) (submitted : Bool) :
    Option Nat × PdcpEntity :=
  match isRxSeqNumberValid seqNum e srbFlag with
  | (true, e) =>
    let (count, e) := getNextCountRx e srbFlag seqNum
    (some count, if submitted ∧ srbFlag = false ∧ e.rlcMode = .am then
      { e with lastSubmittedPdcpRxSn := seqNum } else e)
  | (false, e) => (none, e)

/-- The COUNT values of a run, each with the number of the PDU it was derived for. -/
def receiveCounts (sender : PdcpEntity) (srbFlag : Bool) (e : PdcpEntity) :
    List (Nat × Bool) → List (Nat × Option Nat)
  | [] => []
  | (k, submitted) :: rest =>
    let (count, e) := receiveCount e srbFlag (txSn sender k) submitted
    (k, count) :: receiveCounts sender srbFlag e rest

/-- PDUs out of the first `n` arrive in order, and between two of them fewer than
half of the SN space is lost. -/
structure InOrder (snBits n : Nat) (arrivals : List (Nat × Bool)) : Prop where
  increasing : arrivals.Pairwise fun a b => a.1 < b.1
  sent : ∀ a ∈ arrivals, a.1 < n
  near : ∀ i, ∀ a ∈ arrivals[i]?, ∀ b ∈ arrivals[i + 1]?, b.1 - a.1 - 1 < 2 ^ snBits / 2

/-- Both ends use the number of a PDU as its COUNT. -/
def CountsAgree (sender receiver : PdcpEntity) (srbFlag : Bool) (n : Nat)
    (arrivals : List (Nat × Bool)) : Prop :=
  (∀ k < n, txCount sender srbFlag k = k) ∧
  ∀ k count, (k, some count) ∈ receiveCounts sender srbFlag receiver arrivals →
    count = txCount sender srbFlag k

section
variable {b : Bearer} {enbFlag : Bool} {security : SecurityConfig}

/-- What the configuration sets, whatever the security configuration. -/
theorem Bearer.add_fields (b : Bearer) (enbFlag : Bool) (security : SecurityConfig) :
    (b.add enbFlag security).seqNumSize = b.snBits ∧ (b.add enbFlag security).rlcMode = b.rlcMode ∧
    (b.add enbFlag security).nextPdcpTxSn = 0 ∧ (b.add enbFlag security).txHfn = 0 ∧
    (b.add enbFlag security).nextPdcpRxSn = 0 ∧ (b.add enbFlag security).rxHfn = 0 ∧
    (b.add enbFlag security).rxHfnOffset = 0 ∧
    (b.add enbFlag security).lastSubmittedPdcpRxSn = 4095 := by
  simp only [Bearer.add, configReqAsn1Add, configSetSecurity]
  split
  · split <;> exact ⟨rfl, rfl, rfl, rfl, rfl, rfl, rfl, rfl⟩
  · exact ⟨rfl, rfl, rfl, rfl, rfl, rfl, rfl, rfl⟩

theorem Bearer.size_valid {e : PdcpEntity} (size : e.seqNumSize = b.snBits) :
    isSeqNumSizeValid e = true := by
  rw [isSeqNumSizeValid, size]
  cases b <;> rfl

theorem Bearer.max_eq (b : Bearer) : maxSeqNumForGivenSize b.snBits = 2 ^ b.snBits - 1 := by
  cases b <;> rfl

/-- Within one round of the SN the sender counts up and HFN stays 0. -/
theorem sentPdus_first {e : PdcpEntity} (size : e.seqNumSize = b.snBits)
    (start : e.nextPdcpTxSn = 0)
    (hfn : e.txHfn = 0) {k : Nat} (inside : k < 2 ^ b.snBits) :
    (sentPdus e k).seqNumSize = b.snBits ∧ (sentPdus e k).nextPdcpTxSn = k ∧
    (sentPdus e k).txHfn = 0 := by
  induction k with
  | zero => exact ⟨size, start, hfn⟩
  | succ k ih =>
    obtain ⟨sizeK, snK, hfnK⟩ := ih (by omega)
    have small : k + 1 < 2 ^ 16 := by
      have : 2 ^ b.snBits ≤ 2 ^ 12 := by cases b <;> decide
      omega
    have notMax : (sentPdus e k).nextPdcpTxSn ≠
        maxSeqNumForGivenSize (sentPdus e k).seqNumSize := by
      rw [sizeK, snK, b.max_eq]
      omega
    rw [sentPdus, getNextTxSeqNumber, Bearer.size_valid sizeK]
    simp only [Bool.true_eq_false, if_false, notMax]
    refine ⟨sizeK, ?_, hfnK⟩
    rw [snK, Nat.mod_eq_of_lt small]

theorem txSn_first {e : PdcpEntity} (size : e.seqNumSize = b.snBits) (start : e.nextPdcpTxSn = 0)
    (hfn : e.txHfn = 0) {k : Nat} (inside : k < 2 ^ b.snBits) : txSn e k = k := by
  obtain ⟨sizeK, snK, -⟩ := sentPdus_first size start hfn inside
  rw [txSn, getNextTxSeqNumber, Bearer.size_valid sizeK]
  split
  · contradiction
  · split <;> exact snK

theorem countOf_first (b : Bearer) {k : Nat} (inside : k < 2 ^ b.snBits) :
    countOf b.isSrb b.snBits 0 k = k := by
  have mask (n : Nat) (below : k < 2 ^ n) : k &&& (2 ^ n - 1) = k := by
    rw [Nat.and_two_pow_sub_one_eq_mod, Nat.mod_eq_of_lt below]
  have wide : k < 2 ^ 12 := by
    have : 2 ^ b.snBits ≤ 2 ^ 12 := by cases b <;> decide
    omega
  cases b with
  | srb => simpa [countOf, Bearer.isSrb] using mask 5 inside
  | drbUm7 => simpa [countOf, Bearer.isSrb, Bearer.snBits, Bearer.rbSn, seqNumSizeOf,
      pdcpSnSizeLen7bits, pdcpSnSizeLen12bits]
      using mask 12 wide
  | drbUm12 =>
    simpa [countOf, Bearer.isSrb, Bearer.snBits, Bearer.rbSn, seqNumSizeOf, pdcpSnSizeLen7bits,
      pdcpSnSizeLen12bits]
      using mask 12 wide
  | drbAm => simpa [countOf, Bearer.isSrb, Bearer.snBits, Bearer.rbSn, seqNumSizeOf,
      pdcpSnSizeLen7bits, pdcpSnSizeLen12bits]
      using mask 12 wide

/-- The last SN of a round is sent with the HFN of the next one. -/
theorem txCount_wrap {e : PdcpEntity} (size : e.seqNumSize = b.snBits) (start : e.nextPdcpTxSn = 0)
    (hfn : e.txHfn = 0) :
    txCount e b.isSrb (2 ^ b.snBits - 1) = 2 ^ b.countShift + (2 ^ b.snBits - 1) := by
  have positive : 0 < 2 ^ b.snBits := Nat.two_pow_pos _
  obtain ⟨sizeK, snK, hfnK⟩ :=
    sentPdus_first size start hfn (show 2 ^ b.snBits - 1 < 2 ^ b.snBits by omega)
  have atMax : (sentPdus e (2 ^ b.snBits - 1)).nextPdcpTxSn =
      maxSeqNumForGivenSize (sentPdus e (2 ^ b.snBits - 1)).seqNumSize := by
    rw [sizeK, snK, b.max_eq]
  rw [txCount, txSn_first size start hfn (by omega), getNextCountTx, sentPdus, getNextTxSeqNumber,
    Bearer.size_valid sizeK]
  simp only [Bool.true_eq_false, if_false, atMax, if_true, sizeK, hfnK]
  cases b <;> rfl

theorem txCount_first {e : PdcpEntity} (size : e.seqNumSize = b.snBits) (start : e.nextPdcpTxSn = 0)
    (hfn : e.txHfn = 0) {k : Nat} (inside : k + 1 < 2 ^ b.snBits) : txCount e b.isSrb k = k := by
  obtain ⟨sizeK, -, hfnK⟩ := sentPdus_first size start hfn inside
  rw [txCount, txSn_first size start hfn (by omega), getNextCountTx, sizeK, hfnK]
  exact countOf_first b (by omega)

/-- The receiver in the first round of the SN, before a PDU numbered `lo` or later. -/
structure RxFirst (b : Bearer) (lo : Nat) (e : PdcpEntity) : Prop where
  size : e.seqNumSize = b.snBits
  mode : e.rlcMode = b.rlcMode
  hfn : e.rxHfn = 0
  next : e.nextPdcpRxSn ≤ lo
  offset : b.rlcMode = .um → e.rxHfnOffset = 0
  last : b = .drbAm → e.lastSubmittedPdcpRxSn = 4095 ∨ e.lastSubmittedPdcpRxSn < e.nextPdcpRxSn

theorem RxFirst.weaken {lo hi : Nat} {e : PdcpEntity} (first : RxFirst b lo e) (later : lo ≤ hi) :
    RxFirst b hi e :=
  { first with next := Nat.le_trans first.next later }

theorem advanceRxWindow_first {e : PdcpEntity} (size : e.seqNumSize = b.snBits) {k : Nat}
    (here : e.nextPdcpRxSn = k) (inside : k + 1 < 2 ^ b.snBits) :
    advanceRxWindow e = { e with nextPdcpRxSn := k + 1 } := by
  have small : k + 1 < 2 ^ 16 := by
    have : 2 ^ b.snBits ≤ 2 ^ 12 := by cases b <;> decide
    omega
  have notMax : e.nextPdcpRxSn ≠ maxSeqNumForGivenSize e.seqNumSize := by
    rw [size, here, b.max_eq]
    omega
  rw [advanceRxWindow, Bearer.size_valid size]
  simp only [Bool.true_eq_false, if_false, notMax]
  rw [here, Nat.mod_eq_of_lt small]

theorem getNextCountRx_first {e : PdcpEntity} (size : e.seqNumSize = b.snBits) (hfn : e.rxHfn = 0)
    (offset : e.rxHfnOffset = 0) {k : Nat} (inside : k < 2 ^ b.snBits) :
    getNextCountRx e b.isSrb k = (k, e) := by
  have count :
      countOf b.isSrb e.seqNumSize (((e.rxHfn : Int) + e.rxHfnOffset) % 2 ^ 32).toNat k = k := by
    rw [size, hfn, offset]
    exact countOf_first b inside
  rw [getNextCountRx, count, ← offset]

/-- In the first round a PDU is refused, or the window moves to it with HFN unchanged. -/
theorem isRxSeqNumberValid_first {lo k : Nat} {e : PdcpEntity} (first : RxFirst b lo e)
    (order : lo ≤ k)
    (inside : k + 1 < 2 ^ b.snBits) :
    (∃ e', isRxSeqNumberValid k e b.isSrb = (false, e') ∧ RxFirst b lo e') ∨
    ∃ e', isRxSeqNumberValid k e b.isSrb = (true, e') ∧ RxFirst b (k + 1) e' ∧ e'.rxHfnOffset = 0 ∧
      e'.nextPdcpRxSn = k + 1 := by
  have next := first.next
  have ahead : ¬ k < e.nextPdcpRxSn := by omega
  have valid : ¬ (isSeqNumSizeValid e = false ∨ k > maxSeqNumForGivenSize e.seqNumSize) := by
    rw [Bearer.size_valid first.size, first.size, b.max_eq]
    simp only [Bool.true_eq_false, false_or]
    omega
  -- over UM, whatever the SN size
  have um (mode : b.rlcMode = .um) (drb : b.isSrb = false) :
    ∃ e', isRxSeqNumberValid k e b.isSrb = (true, e') ∧
      RxFirst b (k + 1) e' ∧ e'.rxHfnOffset = 0 ∧ e'.nextPdcpRxSn = k + 1 := by
    have modeHere : e.rlcMode = .um := first.mode.trans mode
    have moved : rxSeqNumberUm k e = { e with nextPdcpRxSn := k + 1 } := by
      simp only [rxSeqNumberUm, ahead, if_false]
      exact advanceRxWindow_first (b := b) (e := { e with nextPdcpRxSn := k }) first.size rfl inside
    refine ⟨{ e with nextPdcpRxSn := k + 1 }, ?_,
      ⟨first.size, first.mode, first.hfn, Nat.le_refl _, first.offset, ?_⟩, first.offset mode, rfl⟩
    · simp only [isRxSeqNumberValid, valid, if_false, drb, Bool.false_eq_true, modeHere, moved]
    · rintro rfl
      cases mode
  cases b with
  | srb =>
    right
    have moved : rxSeqNumberSrb k e = { e with
        rxHfnOffset := 0, nextPdcpRxSnBeforeIntegrity :=
            e.nextPdcpRxSn, nextPdcpRxSn := k + 1 } := by
      simp only [rxSeqNumberSrb, ahead, if_false]
      exact advanceRxWindow_first (b := .srb) (e := { e with
        rxHfnOffset := 0, nextPdcpRxSnBeforeIntegrity := e.nextPdcpRxSn, nextPdcpRxSn :=
          k }) first.size rfl inside
    have accepted : isRxSeqNumberValid k e Bearer.srb.isSrb = (true, rxSeqNumberSrb k e) := by
      simp only [isRxSeqNumberValid, valid, if_false, Bearer.isSrb, if_true]
    rw [accepted, moved]
    exact ⟨_, rfl,
      ⟨first.size, first.mode, first.hfn, Nat.le_refl _,
      fun um => absurd um (by decide), fun am => absurd am (by decide)⟩, rfl, rfl⟩
  | drbUm7 => exact Or.inr (um rfl rfl)
  | drbUm12 => exact Or.inr (um rfl rfl)
  | drbAm =>
    have mode : e.rlcMode = .am := first.mode
    have window :
        (if e.seqNumSize = 7 then (reorderingWindowSn7bit : Int) else reorderingWindowSn12bit) =
        2048 := by
      rw [show e.seqNumSize = 12 from first.size]
      rfl
    have last := first.last rfl
    have small : k + 1 < 4096 := inside
    have choose : isRxSeqNumberValid k e Bearer.drbAm.isSrb = rxSeqNumberAm k e := by
      simp only [isRxSeqNumberValid, valid, if_false, Bearer.isSrb, Bool.false_eq_true, mode]
    rw [choose, rxSeqNumberAm]
    simp only [window]
    by_cases discard : (k : Int) - e.lastSubmittedPdcpRxSn > 2048 ∨
        0 ≤ (e.lastSubmittedPdcpRxSn : Int) - k ∧ (e.lastSubmittedPdcpRxSn : Int) - k < 2048
    · left
      rw [if_pos discard]
      exact ⟨_, rfl,
        ⟨first.size, first.mode, first.hfn, first.next,
        fun um => absurd um (by decide), first.last⟩⟩
    · right
      -- the last submitted PDU bounds how far ahead an accepted SN can be
      have behind : ¬ (e.nextPdcpRxSn : Int) - k > 2048 := by omega
      have near : ¬ (k : Int) - e.nextPdcpRxSn ≥ 2048 := by omega
      have reached : (k : Int) ≥ e.nextPdcpRxSn := by omega
      have moved :=
        advanceRxWindow_first (b := .drbAm) (e := { e with rxHfnOffset := 0, nextPdcpRxSn := k })
        first.size rfl inside
      rw [if_neg discard, if_neg behind, if_neg near, if_pos reached, moved]
      refine ⟨_, rfl,
        ⟨first.size, first.mode, first.hfn, Nat.le_refl _,
        fun um => absurd um (by decide), fun _ => ?_⟩, rfl, rfl⟩
      simp only
      omega

theorem receiveCount_first {lo k : Nat} {e : PdcpEntity} (first : RxFirst b lo e) (order : lo ≤ k)
    (inside : k + 1 < 2 ^ b.snBits) (submitted : Bool) :
    (∀ count, (receiveCount e b.isSrb k submitted).1 = some count → count = k) ∧
    RxFirst b (k + 1) (receiveCount e b.isSrb k submitted).2 := by
  rcases isRxSeqNumberValid_first first order inside
    with ⟨e', refused, kept⟩ | ⟨e', accepted, moved, offset, next⟩
  · rw [receiveCount, refused]
    exact ⟨nofun, kept.weaken (by omega)⟩
  · rw [receiveCount, accepted]
    simp only [getNextCountRx_first moved.size moved.hfn offset (Nat.lt_of_succ_lt inside)]
    refine ⟨fun count found => (Option.some.inj found).symm, ?_⟩
    split
    · refine ⟨moved.size, moved.mode, moved.hfn, moved.next, moved.offset, fun _ => Or.inr ?_⟩
      rw [next]
      exact Nat.lt_succ_self k
    · exact moved

theorem receiveCounts_first {sender e : PdcpEntity} (size : sender.seqNumSize = b.snBits)
    (start : sender.nextPdcpTxSn = 0) (hfn : sender.txHfn = 0)
    {arrivals : List (Nat × Bool)} {lo : Nat}
    (first : RxFirst b lo e) (order : arrivals.Pairwise fun a b => a.1 < b.1)
    (inside : ∀ a ∈ arrivals, lo ≤ a.1 ∧ a.1 + 1 < 2 ^ b.snBits) {k count : Nat}
    (found : (k, some count) ∈ receiveCounts sender b.isSrb e arrivals) :
    count = k ∧ k + 1 < 2 ^ b.snBits := by
  induction arrivals generalizing e lo with
  | nil => cases found
  | cons a rest ih =>
    obtain ⟨lower, upper⟩ := inside a List.mem_cons_self
    obtain ⟨before, order⟩ := List.pairwise_cons.mp order
    have step := receiveCount_first first lower upper a.2
    rw [receiveCounts, txSn_first size start hfn (Nat.lt_of_succ_lt upper)] at found
    simp only at found
    rcases List.mem_cons.mp found with here | later
    · obtain ⟨same, counted⟩ := Prod.mk.inj here
      rw [same]
      exact ⟨step.1 count counted.symm, upper⟩
    · refine ih step.2 order (fun other member => ⟨before other member, ?_⟩) later
      exact (inside other (List.mem_cons_of_mem _ member)).2

end

/-- COUNT is the number of the PDU on both ends of a bearer just as long as the SN
has not wrapped at the sender. -/
theorem countsAgree_iff (b : Bearer) (senderSecurity receiverSecurity : SecurityConfig)
    (enbFlag : Bool)
    (n : Nat) (arrivals : List (Nat × Bool)) (run : InOrder b.snBits n arrivals) :
    CountsAgree (b.add enbFlag senderSecurity) (b.add (!enbFlag) receiverSecurity)
      b.isSrb n arrivals ↔
      n < 2 ^ b.snBits := by
  obtain ⟨size, -, start, hfn, -⟩ := b.add_fields enbFlag senderSecurity
  obtain ⟨rxSize, rxMode, -, -, rxNext, rxHfn, rxOffset, rxLast⟩ :=
    b.add_fields (!enbFlag) receiverSecurity
  constructor
  · rintro ⟨sent, -⟩
    by_contra wrapped
    have positive : 0 < 2 ^ b.snBits := Nat.two_pow_pos _
    have atWrap := sent (2 ^ b.snBits - 1) (by omega)
    rw [txCount_wrap size start hfn] at atWrap
    have : 0 < 2 ^ b.countShift := Nat.two_pow_pos _
    omega
  · intro short
    refine ⟨fun k below => txCount_first size start hfn (by omega), fun k count found => ?_⟩
    have first : RxFirst b 0 (b.add (!enbFlag) receiverSecurity) :=
      ⟨rxSize, rxMode, rxHfn, Nat.le_of_eq rxNext, fun _ => rxOffset, fun _ => Or.inl rxLast⟩
    obtain ⟨same, inside⟩ := receiveCounts_first size start hfn first run.increasing
      (fun a member => ⟨Nat.zero_le _, by have := run.sent a member; omega⟩) found
    rw [same, txCount_first size start hfn inside]

def noSecurity : SecurityConfig := ⟨0xff, [], [], []⟩

/-- The 32nd PDU of an SRB is sent with COUNT 63. -/
theorem srb_counts_disagree :
    InOrder Bearer.srb.snBits 32 [(31, false)] ∧
    ¬ CountsAgree (Bearer.srb.add true noSecurity) (Bearer.srb.add false noSecurity) true 32
      [(31, false)] := by
  refine ⟨⟨List.pairwise_singleton _ _, by simp, ?_⟩, fun agree => ?_⟩
  · intro i a _ b there
    simp at there
  · exact absurd (agree.1 31 (by decide)) (by decide +kernel)

theorem countsAgree_iff_srb :
    InOrder Bearer.srb.snBits 31 [(0, false), (3, false)] ∧
    CountsAgree (Bearer.srb.add true noSecurity) (Bearer.srb.add false noSecurity) true 31
      [(0, false), (3, false)] := by
  have run : InOrder Bearer.srb.snBits 31 [(0, false), (3, false)] := by
    refine ⟨by simp, by simp, ?_⟩
    intro i a here b there
    cases i with
    | zero =>
      simp only [List.getElem?_cons_zero, Option.mem_def, Option.some.injEq] at here
      simp only [List.getElem?_cons_succ, List.getElem?_cons_zero, Option.mem_def,
        Option.some.injEq] at there
      subst here there
      decide
    | succ i => simp at there
  exact ⟨run, (countsAgree_iff .srb noSecurity noSecurity true 31 [(0, false), (3, false)] run).mpr
    (by decide)⟩

end OpenAir.Pdcp
