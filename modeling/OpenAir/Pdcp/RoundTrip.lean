import OpenAir.Pdcp.Count
import OpenAir.Pdcp.DataTransfer

/-! An SDU on its way from `pdcp_data_req` to `pdcp_data_ind` of the peer. Sender and
receiver choose the size of the header each on their own. -/
namespace OpenAir.Pdcp

/-- What is relied on of the algorithms: a stream cipher undoes itself and keeps the
length, the null cipher changes nothing, and a MAC-I has four bytes. -/
structure Ciphering.Sound (c : Ciphering) : Prop where
  undo : ∀ algorithm params message,
    c.crypt algorithm params (c.crypt algorithm params message) = message
  length : ∀ algorithm params message, (c.crypt algorithm params message).length = message.length
  null : ∀ params message, c.crypt 0 params message = message
  mac : ∀ algorithm params message result,
    c.computeIntegrity algorithm params message = some result →
    result.length = 4

/-- One end of a bearer in use: security is off or on. -/
structure InUse (b : Bearer) (e : PdcpEntity) : Prop where
  size : e.seqNumSize = b.snBits
  mode : e.rlcMode = b.rlcMode
  security : e.securityActivated = 0 ∨ e.securityActivated = 1

/-- The two ends have the same algorithms and keys. -/
structure Peers (b : Bearer) (sender receiver : PdcpEntity) : Prop where
  tx : InUse b sender
  rx : InUse b receiver
  side : receiver.isUe = !sender.isUe
  security : receiver.securityActivated = sender.securityActivated
  ciphering : receiver.cipheringAlgorithm = sender.cipheringAlgorithm
  integrity : receiver.integrityProtAlgorithm = sender.integrityProtAlgorithm
  kUPenc : receiver.kUPenc = sender.kUPenc
  kRRCenc : receiver.kRRCenc = sender.kRRCenc
  kRRCint : receiver.kRRCint = sender.kRRCint

/-- The SDU reaches an upper layer as it was, and its SN is read back. -/
def RoundTrip (ind : Indication) (sn : Nat) (sdu : List UInt8) : Prop :=
  (∃ layer, ind.delivered = some (layer, sdu)) ∧ ind.sequenceNumber = sn

def txCipherParams (e : PdcpEntity) (srbFlag : Bool) (rbId sn : Nat) : CipherParams :=
  { direction := if e.isUe then .uplink else .downlink
    bearer := rbId - 1
    count := getNextCountTx e srbFlag sn
    key := if srbFlag then e.kRRCenc else e.kUPenc }

def rxCipherParams (e : PdcpEntity) (srbFlag : Bool) (rbId sn : Nat) : CipherParams :=
  { direction := if e.isUe then .downlink else .uplink
    bearer := rbId - 1
    count := (getNextCountRx e srbFlag sn).1
    key := if srbFlag then e.kRRCenc else e.kUPenc }

def tailerLen (srbFlag : Bool) : Nat := if srbFlag then controlPlaneDataPduMacISize else 0

theorem tailerLen_eq (srbFlag : Bool) :
    (if srbFlag = true then controlPlaneDataPduMacISize else 0) = tailerLen srbFlag := rfl

section
variable {c : Ciphering} {b : Bearer} {e : PdcpEntity}

theorem sequenceNumberOfSrbSn_serialize {sn : Nat} (inside : sn < 32) (rest : List UInt8) :
    sequenceNumberOfSrbSn (serializeSrbSn sn ++ rest) = sn := by
  have byte (n : Nat) : (n &&& 0x1F) % 2 ^ 8 &&& 0x1F = n % 32 := by
    have mask (m : Nat) : m &&& 0x1F = m % 32 := Nat.and_two_pow_sub_one_eq_mod m 5
    rw [mask, mask]
    omega
  simp only [sequenceNumberOfSrbSn, serializeSrbSn, List.cons_append, List.getD_cons_zero,
    UInt8.toNat_ofNat', byte]
  exact Nat.mod_eq_of_lt inside

/-- The 12-bit SN is read back whatever the D/C bit. -/
theorem sequenceNumberOfLongSn_serialize {sn : Nat} (inside : sn < 4096) (dc : Bool)
    (rest : List UInt8) :
    sequenceNumberOfLongSn (serializeLongSn dc sn ++ rest) = sn := by
  have high (h : Nat) (small : h < 16) : ((h ||| if dc then 0x80 else 0) % 2 ^ 8) &&& 0x0F = h := by
    revert h
    cases dc <;> decide
  have mask (m : Nat) : m &&& 0xFF = m % 256 := Nat.and_two_pow_sub_one_eq_mod m 8
  have top : (sn >>> 8) &&& 0xFF = sn / 256 := by
    rw [mask, Nat.shiftRight_eq_div_pow]
    omega
  simp only [sequenceNumberOfLongSn, serializeLongSn, List.cons_append, List.getD_cons_zero,
    List.getD_cons_succ, UInt8.toNat_ofNat', top, high (sn / 256) (by omega), mask]
  rw [← Nat.shiftLeft_add_eq_or_of_lt (by omega), Nat.shiftLeft_eq]
  omega

theorem framed_parts (header body tailer : List UInt8) {h t : Nat} (head : header.length = h)
    (tail : tailer.length = t) :
    (header ++ body ++ tailer).take h = header ∧
    ((header ++ body ++ tailer).take ((header ++ body ++ tailer).length - t)).drop h = body ∧
    (header ++ body ++ tailer).drop ((header ++ body ++ tailer).length - t) = tailer := by
  have length : (header ++ body ++ tailer).length - t = (header ++ body).length := by
    simp only [List.length_append]
    omega
  rw [length, List.take_left, List.drop_left, List.append_assoc, ← head, List.take_left,
    List.drop_left]
  exact ⟨rfl, rfl, rfl⟩

def TxSecured (e : PdcpEntity) : Prop :=
  e.securityActivated ≠ 0 ∧ (e.cipheringAlgorithm ≠ 0 ∨ e.integrityProtAlgorithm ≠ 0)

instance (e : PdcpEntity) : Decidable (TxSecured e) := inferInstanceAs (Decidable (_ ∧ _))

/-- What `pdcp_data_req` hands to RLC: the header, the SDU ciphered when security is
applied, and the room of the MAC-I. -/
theorem dataReq_pdu (sound : c.Sound) (use : InUse b e) (inside : e.nextPdcpTxSn < 2 ^ b.snBits)
    {maxIpPacketSize rbId : Nat} {data : Bool} {sdu pdu : List UInt8} (bearer : rbId < maxDrb)
    (sent : (dataReq c maxIpPacketSize e b.isSrb rbId data sdu).1 = some pdu) :
    ∃ tailer : List UInt8, tailer.length = tailerLen b.isSrb ∧
      pdu = (if b.isSrb then serializeSrbSn e.nextPdcpTxSn
        else serializeLongSn data e.nextPdcpTxSn) ++
        (if TxSecured e then c.crypt e.cipheringAlgorithm
          (txCipherParams (getNextTxSeqNumber e).2 b.isSrb rbId e.nextPdcpTxSn) sdu
          else sdu) ++ tailer := by
  have taken : (getNextTxSeqNumber e).1 = e.nextPdcpTxSn := by
    rw [getNextTxSeqNumber, Bearer.size_valid use.size]
    simp only [Bool.true_eq_false, if_false]
    split <;> rfl
  obtain ⟨next, hfn, moved⟩ := getNextTxSeqNumber_frame e
  have srbSn (srb : b.isSrb = true) : e.nextPdcpTxSn % 2 ^ 8 = e.nextPdcpTxSn := by
    cases b with
    | srb => exact Nat.mod_eq_of_lt (Nat.lt_trans inside (by decide))
    | drbUm7 => cases srb
    | drbUm12 => cases srb
    | drbAm => cases srb
  have current : (if b.isSrb = true then e.nextPdcpTxSn % 2 ^ 8 else e.nextPdcpTxSn) =
      e.nextPdcpTxSn := by
    split
    · exact srbSn ‹_›
    · rfl
  have headerLength : (if b.isSrb = true then serializeSrbSn e.nextPdcpTxSn
      else serializeLongSn data e.nextPdcpTxSn).length =
      if b.isSrb = true then controlPlaneDataPduSnSize else userPlaneDataPduLongSnHeaderSize := by
    split <;> rfl
  rw [dataReq] at sent
  by_cases refused : sdu.length = 0 ∨ sdu.length > maxIpPacketSize ∨
    ¬ rbId < (if b.isSrb = true then 3 else maxDrb)
  · rw [if_pos refused] at sent
    cases sent
  · rw [if_neg refused] at sent
    simp only [taken, current] at sent
    by_cases tooLarge : e.nextPdcpTxSn > maxSeqNumForGivenSize (getNextTxSeqNumber e).2.seqNumSize
    · rw [if_pos tooLarge] at sent
      cases sent
    · rw [if_neg tooLarge] at sent
      have same : ((getNextTxSeqNumber e).2.securityActivated ≠ 0 ∧
          ((getNextTxSeqNumber e).2.cipheringAlgorithm ≠ 0 ∨
            (getNextTxSeqNumber e).2.integrityProtAlgorithm ≠ 0)) ↔ TxSecured e := by
        rw [moved, TxSecured]
      by_cases secured : TxSecured e
      · rw [if_pos (same.mpr secured)] at sent
        rw [if_pos secured]
        have covered : ((if b.isSrb = true then serializeSrbSn e.nextPdcpTxSn
            else serializeLongSn data e.nextPdcpTxSn) ++ sdu).length =
            (if b.isSrb = true then controlPlaneDataPduSnSize
                else userPlaneDataPduLongSnHeaderSize) + sdu.length := by
          rw [List.length_append, headerLength]
        have algorithm : (getNextTxSeqNumber e).2.cipheringAlgorithm =
          e.cipheringAlgorithm := by rw [moved]
        rw [applySecurity, Nat.mod_eq_of_lt bearer, algorithm, ← covered, ← headerLength] at sent
        simp only [List.take_left, List.drop_left] at sent
        refine ⟨_, ?_, (Option.some.inj sent).symm⟩
        cases srb : b.isSrb with
        | true =>
          simp only [if_true]
          split
          · rename_i mac computed
            rw [List.length_append, List.length_take, List.length_drop, sound.mac _ _ _ _ computed,
              List.length_replicate]
            rfl
          · rfl
        | false => rfl
      · rw [if_neg (fun applied => secured (same.mp applied))] at sent
        rw [if_neg secured]
        exact ⟨_, List.length_replicate, (Option.some.inj sent).symm⟩

theorem validateSecurity_pdu (usrpRecPlay srbFlag : Bool) (rbId sn : Nat)
    (header body tailer : List UInt8) {h : Nat}
    (head : header.length = h) (tail : tailer.length = tailerLen srbFlag) :
    (validateSecurity c usrpRecPlay e srbFlag rbId h sn (header ++ body ++ tailer)
      ((header ++ body ++ tailer).length - tailerLen srbFlag)).2.1 =
      header ++ c.crypt e.cipheringAlgorithm (rxCipherParams e srbFlag rbId sn) body ++ tailer := by
  obtain ⟨headPart, bodyPart, tailPart⟩ := framed_parts header body tailer head tail
  simp only [validateSecurity, headPart, bodyPart, tailPart]
  split <;> rfl

theorem dataInd_delivers {ctx : IndContext} {srbFlag : Bool} {rbId : Nat}
    {header body tailer : List UInt8}
    (security : ctx.enableSecurity = true) (otg : ctx.otgEnabled = false)
    (bearer : 0 < rbId % maxDrb) (some : 0 < header.length)
    (head : header.length = (headerOf e srbFlag (header ++ body ++ tailer)).1)
    (tail : tailer.length = tailerLen srbFlag) {e' : PdcpEntity}
    (accepted : isRxSeqNumberValid (headerOf e srbFlag (header ++ body ++ tailer)).2 e
      srbFlag = (true, e')) :
    let ind := dataInd c ctx e srbFlag rbId (header ++ body ++ tailer) true
    ind.sequenceNumber = (headerOf e srbFlag (header ++ body ++ tailer)).2 ∧
    ∃ layer, ind.delivered =
      Option.some (layer, if e'.securityActivated = 1 then c.crypt e'.cipheringAlgorithm
      (rxCipherParams e' srbFlag rbId (headerOf e srbFlag (header ++ body ++ tailer)).2) body
          else body) := by
  have entered : ¬ (¬ rbId % maxDrb > 0 ∨ (header ++ body ++ tailer).length = 0) := by
    simp only [List.length_append]
    omega
  have long : ¬ (header ++ body ++ tailer).length <
      (headerOf e srbFlag (header ++ body ++ tailer)).1 + tailerLen srbFlag := by
    simp only [List.length_append]
    omega
  have delivers (ind : Indication) (sdu : List UInt8) :
      (if srbFlag then { ind with delivered := Option.some (.rrc, sdu) }
        else deliverDrb ctx true ind sdu).sequenceNumber = ind.sequenceNumber ∧
      ∃ layer, (if srbFlag then { ind with delivered := Option.some (.rrc, sdu) }
        else deliverDrb ctx true ind sdu).delivered = Option.some (layer, sdu) := by
    cases srbFlag with
    | true => exact ⟨rfl, .rrc, rfl⟩
    | false =>
      simp only [Bool.false_eq_true, if_false, deliverDrb, otg, if_true]
      split
      · exact ⟨rfl, .gtpv1u, rfl⟩
      · exact ⟨rfl, .sduList, rfl⟩
  rw [dataInd, if_neg entered]
  simp only [tailerLen_eq, if_neg long, accepted, security, true_and]
  by_cases active : e'.securityActivated = 1
  · have deciphered := validateSecurity_pdu (c := c) (e := e') ctx.usrpRecPlay srbFlag rbId
      (headerOf e srbFlag (header ++ body ++ tailer)).2 header body tailer head tail
    rw [if_pos active, if_pos active]
    simp only [deciphered, (framed_parts header _ tailer head tail).2.1]
    exact delivers _ _
  · rw [if_neg active, if_neg active]
    simp only [(framed_parts header _ tailer head tail).2.1]
    exact delivers _ _

theorem Peers.params {sender receiver tx rx : PdcpEntity} (peers : Peers b sender receiver)
    (rbId sn : Nat)
    (txFrame : ∃ next hfn, tx = { sender with nextPdcpTxSn := next, txHfn := hfn })
    (rxFrame : ∃ next hfn offset before, rx = { receiver with
      nextPdcpRxSn := next, rxHfn := hfn, rxHfnOffset :=
        offset, nextPdcpRxSnBeforeIntegrity := before })
    (sameCount : getNextCountTx tx b.isSrb sn = (getNextCountRx rx b.isSrb sn).1) :
    rxCipherParams rx b.isSrb rbId sn = txCipherParams tx b.isSrb rbId sn := by
  rw [rxCipherParams, txCipherParams, sameCount]
  obtain ⟨next, hfn, rfl⟩ := txFrame
  obtain ⟨rxNext, rxHfn, offset, before, rfl⟩ := rxFrame
  simp only [peers.side, peers.kRRCenc, peers.kUPenc, CipherParams.mk.injEq, and_true]
  cases sender.isUe <;> rfl

/-- Deciphering with the same input undoes what the sender did, also when only one
end takes security to be on: the algorithms are null then. -/
theorem Peers.undone (sound : c.Sound) {sender receiver : PdcpEntity}
    (peers : Peers b sender receiver)
    (params : CipherParams) (sdu : List UInt8) :
    (if receiver.securityActivated = 1 then c.crypt receiver.cipheringAlgorithm params
      (if TxSecured sender then c.crypt sender.cipheringAlgorithm params sdu else sdu)
    else (if TxSecured sender then c.crypt sender.cipheringAlgorithm params sdu else sdu)) =
    sdu := by
  rw [peers.security, peers.ciphering]
  rcases peers.tx.security with off | on
  · have : ¬ TxSecured sender := fun secured => secured.1 off
    rw [off, if_neg (by decide), if_neg this]
  · rw [if_pos on]
    by_cases secured : TxSecured sender
    · rw [if_pos secured, sound.undo]
    · have null : sender.cipheringAlgorithm = 0 := by
        by_contra other
        exact secured ⟨by rw [on]; decide, Or.inl other⟩
      rw [if_neg secured, null, sound.null]

/-- The header that the receiver strips is the one the sender wrote, and its SN is
read back, unless the SN has 7 bits. -/
theorem headerOf_serialize (use : InUse b e) (long : b ≠ .drbUm7) {sn : Nat}
    (inside : sn < 2 ^ b.snBits)
    (data : Bool) (rest : List UInt8) :
    headerOf e b.isSrb ((if b.isSrb then serializeSrbSn sn else serializeLongSn data sn) ++ rest) =
      ((if b.isSrb then serializeSrbSn sn else serializeLongSn data sn).length, sn) := by
  have size := use.size
  cases b with
  | srb =>
    simp only [headerOf, Bearer.isSrb, if_true, sequenceNumberOfSrbSn_serialize inside]
    rfl
  | drbUm7 => exact absurd rfl long
  | drbUm12 =>
    have twelve : e.seqNumSize = 12 := size
    simp only [headerOf, Bearer.isSrb, Bool.false_eq_true, if_false, twelve, if_true,
      sequenceNumberOfLongSn_serialize inside]
    rfl
  | drbAm =>
    have twelve : e.seqNumSize = 12 := size
    simp only [headerOf, Bearer.isSrb, Bool.false_eq_true, if_false, twelve, if_true,
      sequenceNumberOfLongSn_serialize inside]
    rfl

end

/-- The round trip of an SDU works on every bearer but a UM bearer with 7-bit SNs,
where the sender writes a header of two bytes and the receiver strips one. -/
theorem roundTrip_iff (c : Ciphering) (sound : c.Sound) (ctx : IndContext)
    (security : ctx.enableSecurity = true)
    (otg : ctx.otgEnabled = false) (b : Bearer) (sender receiver : PdcpEntity)
    (peers : Peers b sender receiver)
    (inside : sender.nextPdcpTxSn < 2 ^ b.snBits) (maxIpPacketSize rbId : Nat)
    (bearer : 0 < rbId ∧ rbId < maxDrb)
    (data : Bool) (sdu pdu : List UInt8)
    (sent : (dataReq c maxIpPacketSize sender b.isSrb rbId data sdu).1 = some pdu)
    (inSequence : (isRxSeqNumberValid sender.nextPdcpTxSn receiver b.isSrb).1 = true)
    (sameCount : getNextCountTx (getNextTxSeqNumber sender).2 b.isSrb sender.nextPdcpTxSn =
      (getNextCountRx (isRxSeqNumberValid sender.nextPdcpTxSn receiver b.isSrb).2 b.isSrb
        sender.nextPdcpTxSn).1) :
    RoundTrip (dataInd c ctx receiver b.isSrb rbId pdu true) sender.nextPdcpTxSn sdu ↔
    b ≠ .drbUm7 := by
  obtain ⟨tailer, tail, rfl⟩ := dataReq_pdu sound peers.tx inside bearer.2 sent
  have rbIdEq : 0 < rbId % maxDrb := by
    rw [Nat.mod_eq_of_lt bearer.2]
    exact bearer.1
  constructor
  · -- the second header byte is delivered in front of the SDU
    rintro ⟨⟨layer, delivered⟩, -⟩ rfl
    have size : receiver.seqNumSize = 7 := peers.rx.size
    have mode : receiver.rlcMode = .um := peers.rx.mode
    obtain ⟨first, second, wrote⟩ : ∃ first second, serializeLongSn data sender.nextPdcpTxSn =
        [first, second] :=
      ⟨_, _, rfl⟩
    generalize ciphered : (if TxSecured sender then c.crypt sender.cipheringAlgorithm
      (txCipherParams (getNextTxSeqNumber sender).2 Bearer.drbUm7.isSrb rbId sender.nextPdcpTxSn)
        sdu else sdu) = body
      at delivered
    have kept : body.length = sdu.length := by
      rw [← ciphered]
      split
      · exact sound.length _ _ _
      · rfl
    have split : (if Bearer.drbUm7.isSrb = true then serializeSrbSn sender.nextPdcpTxSn
        else serializeLongSn data sender.nextPdcpTxSn) ++ body ++ tailer = [first] ++
            (second :: body) ++ tailer := by
      rw [if_neg (by decide), wrote]
      rfl
    rw [split] at delivered
    have header : headerOf receiver Bearer.drbUm7.isSrb ([first] ++ (second :: body) ++ tailer) =
        (1, first.toNat &&& 0x7F) := by
      rw [headerOf, if_neg (by decide), if_pos size]
      rfl
    have accepted : isRxSeqNumberValid (first.toNat &&& 0x7F) receiver Bearer.drbUm7.isSrb =
        (true, rxSeqNumberUm (first.toNat &&& 0x7F) receiver) := by
      have small : first.toNat &&& 0x7F ≤ 127 := Nat.and_le_right
      have valid : ¬ (isSeqNumSizeValid receiver = false ∨
          first.toNat &&& 0x7F > maxSeqNumForGivenSize receiver.seqNumSize) := by
        rw [isSeqNumSizeValid, size]
        exact fun refused => refused.elim Bool.noConfusion (Nat.not_lt.mpr small)
      rw [isRxSeqNumberValid, if_neg valid, if_neg (by decide), mode]
    have headed : 0 < [first].length := Nat.succ_pos 0
    obtain ⟨-, layer', delivered'⟩ :=
      dataInd_delivers (e := receiver) (c := c) security otg rbIdEq headed
      (congrArg Prod.fst header).symm tail (by rw [header]; exact accepted)
    rw [delivered'] at delivered
    have same := congrArg (fun d => d.2.length) (Option.some.inj delivered)
    simp only at same
    split at same
    · rw [sound.length, List.length_cons] at same
      omega
    · rw [List.length_cons] at same
      omega
  · intro long
    have header := headerOf_serialize peers.rx long inside data
    have frame := isRxSeqNumberValid_frame sender.nextPdcpTxSn receiver b.isSrb
    have params :=
      peers.params rbId sender.nextPdcpTxSn (getNextTxSeqNumber_frame sender) frame sameCount
    have accepted : isRxSeqNumberValid sender.nextPdcpTxSn receiver b.isSrb =
        (true, (isRxSeqNumberValid sender.nextPdcpTxSn receiver b.isSrb).2) := by
      rw [← inSequence]
    generalize ciphered : (if TxSecured sender then c.crypt sender.cipheringAlgorithm
      (txCipherParams (getNextTxSeqNumber sender).2 b.isSrb rbId sender.nextPdcpTxSn) sdu
        else sdu) = body
    have here := header (body ++ tailer)
    rw [← List.append_assoc] at here
    have headed : 0 < (if b.isSrb = true then serializeSrbSn sender.nextPdcpTxSn
        else serializeLongSn data sender.nextPdcpTxSn).length := by
      split <;> exact Nat.succ_pos _
    obtain ⟨number, layer, delivered⟩ :=
      dataInd_delivers (e := receiver) (c := c) security otg rbIdEq headed
      (congrArg Prod.fst here).symm tail (by rw [here]; exact accepted)
    rw [here] at number delivered
    refine ⟨⟨layer, ?_⟩, number⟩
    rw [delivered, params]
    obtain ⟨next, hfn, offset, before, moved⟩ := frame
    rw [moved, ← ciphered]
    exact congrArg (fun body => some (layer, body)) (peers.undone sound _ sdu)

/-- What becomes of an SDU of three bytes on a UM bearer with 7-bit SNs, without
security: the first PDU of the bearer, delivered by the UE. -/
def shortSnInd : Indication :=
  dataInd nullCiphering ⟨false, true, false, false, false⟩
    (Bearer.drbUm7.add false noSecurity) false 1
    [0x80, 0, 1, 2, 3] true

theorem shortSn_not_roundTrip :
    (dataReq nullCiphering 4096 (Bearer.drbUm7.add true noSecurity) false 1 true [1, 2, 3]).1 =
      some [0x80, 0, 1, 2, 3] ∧
    ¬ RoundTrip shortSnInd 0 [1, 2, 3] := by
  refine ⟨by decide, ?_⟩
  rintro ⟨⟨layer, delivered⟩, -⟩
  have : shortSnInd.delivered = some (.sduList, [0, 1, 2, 3]) := by decide
  rw [this] at delivered
  cases delivered

/-- The first PDU of an SRB with the null algorithms. -/
theorem roundTrip_iff_srb :
    RoundTrip (dataInd nullCiphering ⟨false, true, false, false, false⟩
      (Bearer.srb.add false ⟨0, [], [], []⟩) true 1
      [0, 1, 2, 3, 0, 0, 0, 0] true) 0 [1, 2, 3] := by
  have sound : nullCiphering.Sound := ⟨fun _ _ _ => rfl, fun _ _ _ => rfl, fun _ _ => rfl, nofun⟩
  have use (enbFlag : Bool) : InUse .srb (Bearer.srb.add enbFlag ⟨0, [], [], []⟩) :=
    ⟨rfl, rfl, Or.inr rfl⟩
  have peers :
      Peers .srb (Bearer.srb.add true ⟨0, [], [], []⟩) (Bearer.srb.add false ⟨0, [], [], []⟩) :=
    ⟨use true, use false, rfl, rfl, rfl, rfl, rfl, rfl, rfl⟩
  exact (roundTrip_iff nullCiphering sound ⟨false, true, false, false, false⟩ rfl rfl .srb _ _ peers
    (by decide) 4096 1
    (by decide) true [1, 2, 3] [0, 1, 2, 3, 0, 0, 0, 0] (by decide) (by decide)
      (by decide)).mpr (by decide)

end OpenAir.Pdcp
