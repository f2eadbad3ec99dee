import Mathlib.Data.Nat.Bitwise

/-! A PDCP entity: its configuration, its sequence numbering and the COUNT values it
derives from it. -/
namespace OpenAir.Pdcp

/-- `rlc_mode_t`. -/
inductive RlcMode where
  | none
  | am
  | um
  | tm
deriving Repr, DecidableEq

/-- `LTE_PDCP_Config__rlc_UM__pdcp_SN_Size`, `ENUMERATED {len7bits, len12bits}`. -/
def pdcpSnSizeLen7bits : Nat := 0
def pdcpSnSizeLen12bits : Nat := 1

def reorderingWindowSn7bit : Nat := 64
def reorderingWindowSn12bit : Nat := 2048

/-- `pdcp_t`, as far as data transfer reads it. `pdcp_sn_t` has 16 bits, `pdcp_hfn_t`
32. A new entity is cleared memory. -/
structure PdcpEntity where
  isUe : Bool := false
  isSrb : Bool := false
  cipheringAlgorithm : Nat := 0
  integrityProtAlgorithm : Nat := 0
  kUPenc : List UInt8 := []
  kRRCint : List UInt8 := []
  kRRCenc : List UInt8 := []
  securityActivated : Nat := 0
  rlcMode : RlcMode := .none
  seqNumSize : Nat := 0
  nextPdcpTxSn : Nat := 0
  nextPdcpRxSn : Nat := 0
  nextPdcpRxSnBeforeIntegrity : Nat := 0
  txHfn : Nat := 0
  rxHfn : Nat := 0
  rxHfnOffset : Int := 0
  lastSubmittedPdcpRxSn : Nat := 0
deriving Repr, DecidableEq

structure SecurityConfig where
  securityMode : Nat
  kRRCenc : List UInt8
  kRRCint : List UInt8
  kUPenc : List UInt8

def configSetSecurity (e : PdcpEntity) (security : SecurityConfig) : PdcpEntity :=
  if security.securityMode ≤ 0x77 then
    { e with
      cipheringAlgorithm := security.securityMode &&& 0x0f
      integrityProtAlgorithm := (security.securityMode >>> 4) &&& 0xf
      kRRCenc := security.kRRCenc
      kRRCint := security.kRRCint
      kUPenc := security.kUPenc
      securityActivated := 1 }
  else
    e

def seqNumSizeOf (rbSn : Nat) : Nat :=
  if rbSn = pdcpSnSizeLen12bits then 12 else if rbSn = pdcpSnSizeLen7bits then 7 else 5

/-- `pdcp_config_req_asn1` with `CONFIG_ACTION_ADD`. -/
def configReqAsn1Add (enbFlag srbFlag : Bool) (rlcMode : RlcMode) (rbSn : Nat)
    (security : SecurityConfig)
    (e : PdcpEntity) : PdcpEntity :=
  let e := { e with
    isUe := !enbFlag
    isSrb := srbFlag
    seqNumSize := seqNumSizeOf rbSn
    rlcMode := rlcMode
    nextPdcpTxSn := 0
    nextPdcpRxSn := 0
    nextPdcpRxSnBeforeIntegrity := 0
    txHfn := 0
    rxHfn := 0
    lastSubmittedPdcpRxSn := 4095
    rxHfnOffset := 0 }
  if security.securityMode ≠ 0xff then configSetSecurity e security else e

def isSeqNumSizeValid (e : PdcpEntity) : Bool :=
  e.seqNumSize = 5 || e.seqNumSize = 7 || e.seqNumSize = 12

/-- `pdcp_calculate_max_seq_num_for_given_size`, in 16 bits. -/
def maxSeqNumForGivenSize (seqNumSize : Nat) : Nat := (1 <<< seqNumSize) % 2 ^ 16 - 1

/-- `pdcp_get_next_tx_seq_number`: the SN of a new PDU. -/
def getNextTxSeqNumber (e : PdcpEntity) : Nat × PdcpEntity :=
  if isSeqNumSizeValid e = false then
    (0xFFFF, e)
  else if e.nextPdcpTxSn = maxSeqNumForGivenSize e.seqNumSize then
    (e.nextPdcpTxSn, { e with nextPdcpTxSn := 0, txHfn := (e.txHfn + 1) % 2 ^ 32 })
  else
    (e.nextPdcpTxSn, { e with nextPdcpTxSn := (e.nextPdcpTxSn + 1) % 2 ^ 16 })

def advanceRxWindow (e : PdcpEntity) : PdcpEntity :=
  if isSeqNumSizeValid e = false then
    e
  else if e.nextPdcpRxSn = maxSeqNumForGivenSize e.seqNumSize then
    { e with nextPdcpRxSn := 0, rxHfn := (e.rxHfn + 1) % 2 ^ 32 }
  else
    { e with nextPdcpRxSn := (e.nextPdcpRxSn + 1) % 2 ^ 16 }

/-- The SRB branch of `pdcp_is_rx_seq_number_valid`. -/
def rxSeqNumberSrb (seqNum : Nat) (e : PdcpEntity) : PdcpEntity :=
  let e := { e with
    rxHfn := if seqNum < e.nextPdcpRxSn then (e.rxHfn + 1) % 2 ^ 32 else e.rxHfn
    rxHfnOffset := 0 }
  advanceRxWindow { e with nextPdcpRxSnBeforeIntegrity := e.nextPdcpRxSn, nextPdcpRxSn := seqNum }

/-- The branch for data bearers over AM; differences are taken in `int`. -/
def rxSeqNumberAm (seqNum : Nat) (e : PdcpEntity) : Bool × PdcpEntity :=
  let reorderingWindow : Int := if e.seqNumSize = 7 then reorderingWindowSn7bit
    else reorderingWindowSn12bit
  let last : Int := e.lastSubmittedPdcpRxSn
  let next : Int := e.nextPdcpRxSn
  let sn : Int := seqNum
  if sn - last > reorderingWindow ∨ (0 ≤ last - sn ∧ last - sn < reorderingWindow) then
    (false, { e with rxHfnOffset := if sn > next then -1 else 0 })
  else if next - sn > reorderingWindow then
    (true, { e with
      rxHfn := (e.rxHfn + 1) % 2 ^ 32
      rxHfnOffset := 0
      nextPdcpRxSn := (e.nextPdcpRxSn + 1) % 2 ^ 16 })
  else if sn - next ≥ reorderingWindow then
    (true, { e with rxHfnOffset := -1 })
  else if sn ≥ next then
    (true, advanceRxWindow { e with rxHfnOffset := 0, nextPdcpRxSn := seqNum })
  else
    (true, { e with rxHfnOffset := 0 })

/-- The branch for data bearers over UM. -/
def rxSeqNumberUm (seqNum : Nat) (e : PdcpEntity) : PdcpEntity :=
  let e := { e with rxHfn := if seqNum < e.nextPdcpRxSn then (e.rxHfn + 1) % 2 ^ 32 else e.rxHfn }
  advanceRxWindow { e with nextPdcpRxSn := seqNum }

def isRxSeqNumberValid (seqNum : Nat) (e : PdcpEntity) (srbFlag : Bool) : Bool × PdcpEntity :=
  if isSeqNumSizeValid e = false ∨ seqNum > maxSeqNumForGivenSize e.seqNumSize then
    (false, e)
  else if srbFlag then
    (true, rxSeqNumberSrb seqNum e)
  else
    match e.rlcMode with
    | .am => rxSeqNumberAm seqNum e
    | .um => (true, rxSeqNumberUm seqNum e)
    | _ => (false, e)

/-- COUNT from the HFN and the SN, in 32 bits. The SN size of a data bearer is
compared with the enumeration value of the configuration. -/
def countOf (srbFlag : Bool) (seqNumSize hfn pdcpSn : Nat) : Nat :=
  if srbFlag then (hfn <<< 5) % 2 ^ 32 ||| (pdcpSn &&& 0x001F)
  else if seqNumSize = pdcpSnSizeLen7bits then (hfn <<< 7) % 2 ^ 32 ||| (pdcpSn &&& 0x007F)
  else (hfn <<< 12) % 2 ^ 32 ||| (pdcpSn &&& 0x0FFF)

def getNextCountTx (e : PdcpEntity) (srbFlag : Bool) (pdcpSn : Nat) : Nat :=
  countOf srbFlag e.seqNumSize e.txHfn pdcpSn

/-- `pdcp_get_next_count_rx`, which resets the HFN offset. -/
def getNextCountRx (e : PdcpEntity) (srbFlag : Bool) (pdcpSn : Nat) : Nat × PdcpEntity :=
  (countOf srbFlag e.seqNumSize (((e.rxHfn : Int) + e.rxHfnOffset) % 2 ^ 32).toNat pdcpSn,
    { e with rxHfnOffset := 0 })

/-- Taking an SN changes the numbering only. -/
theorem getNextTxSeqNumber_frame (e : PdcpEntity) :
    ∃ next hfn, (getNextTxSeqNumber e).2 = { e with nextPdcpTxSn := next, txHfn := hfn } := by
  rw [getNextTxSeqNumber]
  split
  · exact ⟨_, _, rfl⟩
  · split <;> exact ⟨_, _, rfl⟩

theorem advanceRxWindow_frame (e : PdcpEntity) :
    ∃ next hfn, advanceRxWindow e = { e with nextPdcpRxSn := next, rxHfn := hfn } := by
  rw [advanceRxWindow]
  split
  · exact ⟨_, _, rfl⟩
  · split <;> exact ⟨_, _, rfl⟩

theorem rxSeqNumberSrb_frame (seqNum : Nat) (e : PdcpEntity) :
    ∃ next hfn, rxSeqNumberSrb seqNum e =
      { e with
        nextPdcpRxSn := next, rxHfn := hfn, rxHfnOffset := 0
        nextPdcpRxSnBeforeIntegrity := e.nextPdcpRxSn } := by
  obtain ⟨next, hfn, moved⟩ := advanceRxWindow_frame { e with
    rxHfn := if seqNum < e.nextPdcpRxSn then (e.rxHfn + 1) % 2 ^ 32 else e.rxHfn
    rxHfnOffset := 0, nextPdcpRxSnBeforeIntegrity := e.nextPdcpRxSn, nextPdcpRxSn := seqNum }
  exact ⟨next, hfn, moved⟩

theorem rxSeqNumberAm_frame (seqNum : Nat) (e : PdcpEntity) :
    ∃ next hfn offset, (rxSeqNumberAm seqNum e).2 =
      { e with nextPdcpRxSn := next, rxHfn := hfn, rxHfnOffset := offset } := by
  obtain ⟨next, hfn, moved⟩ :=
    advanceRxWindow_frame { e with rxHfnOffset := 0, nextPdcpRxSn := seqNum }
  simp only [rxSeqNumberAm, moved]
  generalize (if e.seqNumSize = 7 then (reorderingWindowSn7bit : Int)
    else reorderingWindowSn12bit) = window
  generalize (if (seqNum : Int) > e.nextPdcpRxSn then (-1 : Int) else 0) = offset
  split
  · exact ⟨_, _, _, rfl⟩
  · split
    · exact ⟨_, _, _, rfl⟩
    · split
      · exact ⟨_, _, _, rfl⟩
      · split <;> exact ⟨_, _, _, rfl⟩

theorem rxSeqNumberUm_frame (seqNum : Nat) (e : PdcpEntity) :
    ∃ next hfn, rxSeqNumberUm seqNum e = { e with nextPdcpRxSn := next, rxHfn := hfn } := by
  obtain ⟨next, hfn, moved⟩ := advanceRxWindow_frame { e with
    rxHfn := if seqNum < e.nextPdcpRxSn then (e.rxHfn + 1) % 2 ^ 32 else e.rxHfn,
      nextPdcpRxSn := seqNum }
  exact ⟨next, hfn, moved⟩

/-- So does checking one. -/
theorem isRxSeqNumberValid_frame (seqNum : Nat) (e : PdcpEntity) (srbFlag : Bool) :
    ∃ next hfn offset before, (isRxSeqNumberValid seqNum e srbFlag).2 =
      { e with
        nextPdcpRxSn := next, rxHfn := hfn, rxHfnOffset := offset
        nextPdcpRxSnBeforeIntegrity := before } := by
  rw [isRxSeqNumberValid]
  split
  · exact ⟨_, _, _, _, rfl⟩
  · split
    · obtain ⟨next, hfn, moved⟩ := rxSeqNumberSrb_frame seqNum e
      exact ⟨next, hfn, _, _, moved⟩
    · split
      · obtain ⟨next, hfn, offset, moved⟩ := rxSeqNumberAm_frame seqNum e
        exact ⟨next, hfn, offset, _, moved⟩
      · obtain ⟨next, hfn, moved⟩ := rxSeqNumberUm_frame seqNum e
        exact ⟨next, hfn, _, _, moved⟩
      · exact ⟨_, _, _, _, rfl⟩

end OpenAir.Pdcp
