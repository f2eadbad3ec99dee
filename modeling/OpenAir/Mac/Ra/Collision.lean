import OpenAir.Mac.Ra.Process

/-! What several processes send in one subframe. All messages take the same four resource
blocks, all RARs stand in one buffer and grant the same resource block, so nothing collides
exactly as long as one process at most sends. -/
namespace OpenAir.Mac.Ra
open BitField (Memory)
open Pdu (copyTo bytesAt copyTo_inside generateDlschHeader_contRes)

section Blocks
variable {cell : Cell} {block : Nat}

theorem Cell.blocks (cell : Cell) : 6 ≤ cell.nRbDl := by
  have listed := cell.bandwidth
  simp only [List.mem_cons, List.not_mem_nil, or_false] at listed
  omega

theorem riv_eq (cell : Cell) : riv cell = cell.nRbDl * 3 := by
  have blocks := cell.blocks
  rw [riv, getRiv, if_pos (by omega)]
  omega

theorem codes_riv : Codes cell.nRbDl (riv cell) block ↔ block < 4 := by
  have blocks := cell.blocks
  rw [riv_eq]
  constructor
  · rintro ⟨start, length, inside, coded, first, last⟩
    rw [getRiv] at coded
    split at coded
    · -- the coding is the quotient and the remainder of a division by the number of blocks
      have quotient : (cell.nRbDl * (length - 1) + start) / cell.nRbDl =
        cell.nRbDl * 3 / cell.nRbDl := by rw [coded]
      have small : start < cell.nRbDl := by omega
      rw [Nat.mul_add_div (by omega), Nat.div_eq_of_lt small, Nat.mul_div_cancel_left _ (by omega)]
        at quotient
      have four : length - 1 = 3 := by omega
      rw [four] at coded
      omega
    · have quotient :
        (cell.nRbDl * (cell.nRbDl + 1 - length) + (cell.nRbDl - 1 - start)) / cell.nRbDl =
          cell.nRbDl * 3 / cell.nRbDl := by rw [coded]
      rw [Nat.mul_add_div (by omega), Nat.div_eq_of_lt (by omega),
        Nat.mul_div_cancel_left _ (by omega)] at quotient
      have many : cell.nRbDl + 1 - length = 3 := by omega
      rw [many] at coded
      omega
  · intro small
    exact ⟨0, 4, by omega, (riv_eq cell).symm ▸ rfl, Nat.zero_le _, by omega⟩

end Blocks

section Turn
variable {cell : Cell} {now : Now} {answer : Answer} {i : Fin raProcMax} {s s' : Enb}

/-- The process has a message for this subframe. -/
def Process.due (now : Now) (ra : Process) : Bool :=
  match ra.state with
  | .msg2 => ra.msg2 = now.toTime
  | .msg4 | .waitMsg4Ack => ra.msg4 = now.toTime
  | _ => false

def Enb.msg4Round (cell : Cell) (s : Enb) (ra : Process) : Option Nat :=
  (findUeId cell.mobiles s.ueList ra.rnti).map fun ue => s.round ue ra.harqPid

/-- The eNB waits for the acknowledgement of Msg4, and has it. -/
def Enb.acknowledged (cell : Cell) (s : Enb) (ra : Process) : Bool :=
  ra.state = .waitMsg4Ack && s.msg4Round cell ra == some 8

def Process.forMsg4 (cell : Cell) (now : Now) (sdu : List UInt8) (ra : Process) : Process :=
  let format := msg4Format (sdu.length + msg4Header) ra
  { ra with harqPid := dlHarqPid cell now, msg4Mcs := format.1, msg4TbSize := format.2 }

/-- The bytes a process has to send: the RAR, or Msg4 up to its padding. A retransmission
brings none. -/
def Enb.message (cell : Cell) (now : Now) (sdu : List UInt8) (s : Enb)
    (ra : Process) : List UInt8 :=
  match ra.state with
  | .msg2 => (fillRar cell { ra with msg3 := getMsg3alloc cell now.toTime ra.msg3 }).2
  | .msg4 =>
    match findUeId cell.mobiles s.ueList ra.rnti with
    | none => []
    | some ue =>
      match msg4Payload (s.dlschPdu ue) (ra.forMsg4 cell now sdu) sdu with
      | none => []
      | some (buffer, length) => bytesAt buffer 0 length
  | _ => []

/-- The requests and all that messages are made of. -/
structure Same (s s' : Enb) : Prop where
  dlReq : s'.dlReq = s.dlReq
  txReq : s'.txReq = s.txReq
  ulReqTmp : s'.ulReqTmp = s.ulReqTmp
  rarPdu : s'.rarPdu = s.rarPdu
  dlschPdu : s'.dlschPdu = s.dlschPdu
  round : s'.round = s.round
  ueList : s'.ueList = s.ueList

/-- The request of a process: the bytes it counts, where it points to, are the message. -/
def Enb.Carries (s : Enb) (process : Fin raProcMax) (message : List UInt8) (tx : TxPdu) : Prop :=
  tx.process = process ∧ bytesAt (s.payload tx.segmentData) 0 tx.pduLength = message

/-- The requests of a turn carry its message, but the one for Msg4 is too short. -/
structure Brings (s : Enb) (i : Fin raProcMax) (state : State) (message : List UInt8)
    (new : List TxPdu) : Prop where
  whole : state ≠ .msg4 → ∀ tx ∈ new, s.Carries i message tx
  cut : state = .msg4 → ∃ tx ∈ new, tx.process = i ∧ tx.pduLength < message.length

structure Sent (cell : Cell) (now : Now) (sdu : List UInt8) (i : Fin raProcMax)
    (s s' : Enb) : Prop where
  dlReq : ∃ dci dlsch, s'.dlReq = s.dlReq ++ [.dci dci, .dlsch dlsch] ∧
    dci.resourceBlockCoding = riv cell ∧
    dlsch.resourceBlockCoding = riv cell
  txReq : ∃ new, s'.txReq = s.txReq ++ new ∧
    Brings s' i (s.ra i).state (s.message cell now sdu (s.ra i)) new
  ulReqTmp : ∀ subframe, ∃ new, s'.ulReqTmp subframe = s.ulReqTmp subframe ++ new ∧ new.length ≤ 1
  ueList : s'.ueList = s.ueList
  round : ∀ rnti ue, findUeId cell.mobiles s.ueList rnti = some ue → ∀ pid, s'.round ue pid =
    if (s.ra i).state = .msg4 ∧ rnti = (s.ra i).rnti ∧ pid = dlHarqPid cell now then
      0 else s.round ue pid
  others : ∀ j ≠ i, s'.ra j = s.ra j

theorem findUeId_rnti {mobiles : Nat} {list : UeList} {rnti ue : Nat}
    (found : findUeId mobiles list rnti = some ue) :
    list.rnti ue = rnti := by
  have holds := List.find?_some found
  simp only [Bool.and_eq_true, beq_iff_eq] at holds
  exact holds.2

theorem bytesAt_copyTo (mem : Memory) (bytes : List UInt8) :
    bytesAt (copyTo mem 0 bytes) 0 bytes.length = bytes := by
  apply List.ext_getElem
  · simp [bytesAt]
  · intro k inside within
    simp only [bytesAt, List.getElem_map, List.getElem_range]
    rw [copyTo_inside within, List.getD_eq_getElem _ _ within]

theorem bytesAt_length (mem : Memory) (a n : Nat) : (bytesAt mem a n).length = n := by
  rw [bytesAt, List.length_map, List.length_range]

theorem addMsg3_eq {subframe : Nat} {ra : Process} (added : addMsg3 cell subframe ra s = some s') :
    (s'.ra = s.ra ∧ s'.dlReq = s.dlReq ∧ s'.txReq = s.txReq ∧ s'.rarPdu = s.rarPdu ∧
      s'.round = s.round ∧
      s'.ueList = s.ueList) ∧
    ∀ k, ∃ new, s'.ulReqTmp k = s.ulReqTmp k ++ new ∧ new.length ≤ 1 := by
  simp only [addMsg3] at added
  split at added
  · cases added
  · cases added
    refine ⟨⟨rfl, rfl, rfl, rfl, rfl, rfl⟩, fun k => ?_⟩
    by_cases same : k = ra.msg3.subframe
    · subst same
      exact ⟨[_], Function.update_self .., Nat.le_refl 1⟩
    · exact ⟨[], (Function.update_of_ne same ..).trans (List.append_nil _).symm, Nat.zero_le 1⟩

theorem sendMsg2_sent (sdu : List UInt8) (state : (s.ra i).state = .msg2)
    (sent : sendMsg2 cell now i s = some s') :
    Sent cell now sdu i s s' := by
  obtain ⟨next, added, last⟩ := Option.bind_eq_some_iff.mp sent
  cases last
  obtain ⟨⟨ras, dlReq, txReq, rarPdu, round, ueList⟩, ulReqTmp⟩ := addMsg3_eq added
  constructor
  case dlReq => exact ⟨_, _, dlReq, rfl, rfl⟩
  case txReq =>
    refine ⟨[_], congrArg (· ++ [_]) txReq, fun _ tx member => ?_, fun msg4 => by
      cases state.symm.trans msg4⟩
    cases List.mem_singleton.mp member
    refine ⟨rfl, ?_⟩
    have message : s.message cell now sdu (s.ra i) =
        (fillRar cell { s.ra i with msg3 := getMsg3alloc cell now.toTime (s.ra i).msg3 }).2 := by
      simp only [Enb.message, state]
    rw [message]
    exact (congrArg (bytesAt · 0 7) rarPdu).trans (bytesAt_copyTo _ _)
  case ulReqTmp => exact ulReqTmp
  case ueList => exact ueList
  case round =>
    intro rnti ue _ pid
    rw [if_neg (fun msg4 => by cases state.symm.trans msg4.1)]
    exact congrFun (congrFun round ue) pid
  case others =>
    intro j other
    exact (Enb.setRa_other _ _ other).trans (congrFun ras j)

theorem generateMsg2_quiet (unsent : ¬ ((s.ra i).msg2 = now.toTime ∧ answer.feasible = true))
    (generated : generateMsg2 cell now answer i s = some s') : Same s s' ∧ s'.ra = s.ra := by
  simp only [generateMsg2] at generated
  split at generated
  · cases generated
    exact ⟨⟨rfl, rfl, rfl, rfl, rfl, rfl, rfl⟩, rfl⟩
  · split at generated
    · rename_i time
      rw [if_neg (fun feasible => unsent ⟨time, feasible⟩)] at generated
      cases generated
      exact ⟨⟨rfl, rfl, rfl, rfl, rfl, rfl, rfl⟩, rfl⟩
    · cases generated
      exact ⟨⟨rfl, rfl, rfl, rfl, rfl, rfl, rfl⟩, rfl⟩

theorem generateMsg2_sent (sdu : List UInt8) (state : (s.ra i).state = .msg2)
    (time : (s.ra i).msg2 = now.toTime)
    (feasible : answer.feasible = true) (generated : generateMsg2 cell now answer i s = some s') :
    Sent cell now sdu i s s' := by
  have absSF : ¬ now.absSF < (s.ra i).msg2.absSF := by
    rw [time]
    exact Nat.lt_irrefl _
  rw [generateMsg2, if_neg absSF, if_pos time, if_pos feasible] at generated
  have sent := sendMsg2_sent (s := s.takeBlocks) sdu state generated
  exact ⟨sent.dlReq, sent.txReq, sent.ulReqTmp, sent.ueList, sent.round, sent.others⟩

theorem msg4Payload_longer {buffer out : Memory} {length : Nat} {ra : Process} {sdu : List UInt8}
    (payload : msg4Payload buffer ra sdu = some (out, length)) : sdu.length < length := by
  simp only [msg4Payload] at payload
  obtain ⟨header, generated, last⟩ := Option.bind_eq_some_iff.mp payload
  have bounds := @generateDlschHeader_contRes _ _ ra.contResId _ _ _ _ _ ⟨rfl, rfl, rfl⟩ generated
  cases last
  rw [Nat.mod_eq_of_lt bounds.2]
  omega

theorem Enb.message_msg4 {ue length : Nat} {buffer : Memory} {sdu : List UInt8} {ra : Process}
    (state : ra.state = .msg4)
    (found : findUeId cell.mobiles s.ueList ra.rnti = some ue)
    (payload : msg4Payload (s.dlschPdu ue) (ra.forMsg4 cell now sdu) sdu = some (buffer, length)) :
    sdu.length < (s.message cell now sdu ra).length := by
  have message : s.message cell now sdu ra = bytesAt buffer 0 length := by
    simp only [Enb.message, state, found, payload]
  rw [message, bytesAt_length]
  exact msg4Payload_longer payload

theorem sendMsg4_sent {ue : Nat} {ra : Process} (state : ra.state = .msg4) (at_ : s.ra i = ra)
    (found : findUeId cell.mobiles s.ueList ra.rnti = some ue) {t : Enb} (same : Same s t)
    (others : ∀ j ≠ i, t.ra j = s.ra j)
    (sent : sendMsg4 cell answer i ue (ra.forMsg4 cell now answer.sdu) t = some s') :
    Sent cell now answer.sdu i s s' := by
  obtain ⟨retransmission, _, sent⟩ := Option.bind_eq_some_iff.mp sent
  obtain ⟨⟨buffer, length⟩, payload, last⟩ := Option.bind_eq_some_iff.mp sent
  cases last
  rw [same.dlschPdu] at payload
  constructor
  case dlReq => exact ⟨_, _, congrArg (· ++ _) same.dlReq, rfl, rfl⟩
  case txReq =>
    rw [at_]
    exact ⟨[_], congrArg (· ++ [_]) same.txReq, fun other => absurd state other,
      fun _ => ⟨_, List.mem_singleton_self _, rfl, Enb.message_msg4 state found payload⟩⟩
  case ulReqTmp =>
    exact fun k => ⟨[], (congrFun same.ulReqTmp k).trans (List.append_nil _).symm, Nat.zero_le 1⟩
  case ueList => exact same.ueList
  case round =>
    intro rnti other known pid
    have rounds : ∀ user pid, t.round user pid = s.round user pid :=
      fun user pid => congrFun (congrFun same.round user) pid
    rw [at_]
    show Function.update t.round ue
      (Function.update (t.round ue) (dlHarqPid cell now) 0) other pid = _
    by_cases own : rnti = ra.rnti
    · subst own
      cases found.symm.trans known
      rw [Function.update_self]
      by_cases mine : pid = dlHarqPid cell now
      · subst mine
        rw [Function.update_self, if_pos ⟨state, rfl, rfl⟩]
      · rw [Function.update_of_ne mine, if_neg (fun all => mine all.2.2), rounds]
    · have apart : other ≠ ue := by
        rintro rfl
        exact own ((findUeId_rnti known).symm.trans (findUeId_rnti found))
      rw [Function.update_of_ne apart, if_neg (fun all => own all.2.1), rounds]
  case others =>
    intro j other
    exact (Enb.setRa_other _ _ other).trans (others j other)

/-- The state in which the room for the DCI of Msg4 is asked for. -/
def Enb.readyMsg4 (cell : Cell) (now : Now) (sdu : List UInt8) (i : Fin raProcMax)
    (s : Enb) : Enb :=
  { s.setRa i ((s.ra i).forMsg4 cell now sdu) with ccchPdu := sdu }.takeBlocks

theorem Enb.readyMsg4_same (sdu : List UInt8) : Same s (s.readyMsg4 cell now sdu i) ∧
    ∀ j ≠ i, (s.readyMsg4 cell now sdu i).ra j = s.ra j :=
  ⟨⟨rfl, rfl, rfl, rfl, rfl, rfl, rfl⟩, fun _ other => Enb.setRa_other _ _ other⟩

theorem generateMsg4_eq {ue : Nat}
    (found : findUeId cell.mobiles s.ueList (s.ra i).rnti = some ue) :
    generateMsg4 cell now answer i s =
      if (s.ra i).msg4 = now.toTime then
        if answer.sdu = [] then none
        else if answer.feasible then
          sendMsg4 cell answer i ue ((s.ra i).forMsg4 cell now answer.sdu)
            (s.readyMsg4 cell now answer.sdu i)
        else some (s.readyMsg4 cell now answer.sdu i)
      else some (s.setRa i { s.ra i with harqPid := dlHarqPid cell now }) := by
  rw [generateMsg4, found]
  rfl

theorem generateMsg4_sent (state : (s.ra i).state = .msg4) (time : (s.ra i).msg4 = now.toTime)
    (feasible : answer.feasible = true) (generated : generateMsg4 cell now answer i s = some s') :
    Sent cell now answer.sdu i s s' := by
  obtain ⟨ue, found, _⟩ := Option.bind_eq_some_iff.mp generated
  rw [generateMsg4_eq found, if_pos time, if_pos feasible] at generated
  split at generated
  · cases generated
  · obtain ⟨same, others⟩ := Enb.readyMsg4_same (s := s) (i := i) answer.sdu
    exact sendMsg4_sent state rfl found same others generated

theorem generateMsg4_quiet (unsent : ¬ ((s.ra i).msg4 = now.toTime ∧ answer.feasible = true))
    (generated : generateMsg4 cell now answer i s = some s') : Same s s' ∧
    ∀ j ≠ i, s'.ra j = s.ra j := by
  obtain ⟨ue, found, _⟩ := Option.bind_eq_some_iff.mp generated
  rw [generateMsg4_eq found] at generated
  split at generated
  · rename_i time
    rw [if_neg (fun feasible => unsent ⟨time, feasible⟩)] at generated
    split at generated
    · cases generated
    · cases generated
      exact Enb.readyMsg4_same answer.sdu
  · cases generated
    exact ⟨⟨rfl, rfl, rfl, rfl, rfl, rfl, rfl⟩, fun j other => Enb.setRa_other _ _ other⟩

theorem checkMsg4Retransmission_cases
    (checked : checkMsg4Retransmission cell now answer i s = some s') :
    ∃ ue, findUeId cell.mobiles s.ueList (s.ra i).rnti = some ue ∧
      ((s.round ue (s.ra i).harqPid = 8 ∧
          s' = cancelRaProc { s.setRa i { s.ra i with state := .idle } with
            configured := Function.update s.configured ue true } (s.ra i).rnti) ∨
        (s.round ue (s.ra i).harqPid ≠ 8 ∧ (s.ra i).msg4 = now.toTime ∧
          resendMsg4 cell answer i (s.round ue (s.ra i).harqPid) s = some s') ∨
        (s.round ue (s.ra i).harqPid ≠ 8 ∧ (s.ra i).msg4 ≠ now.toTime ∧ s' = s)) := by
  obtain ⟨ue, found, checked⟩ := Option.bind_eq_some_iff.mp checked
  refine ⟨ue, found, ?_⟩
  simp only at checked
  split at checked
  · rename_i eight
    cases checked
    exact .inl ⟨eight, rfl⟩
  · rename_i other
    split at checked
    · rename_i time
      exact .inr (.inl ⟨other, time, checked⟩)
    · rename_i late
      cases checked
      exact .inr (.inr ⟨other, late, rfl⟩)

theorem resendMsg4_sent {round : Nat} (sdu : List UInt8) (state : (s.ra i).state = .waitMsg4Ack)
    (feasible : answer.feasible = true) (resent : resendMsg4 cell answer i round s = some s') :
    Sent cell now sdu i s s' := by
  obtain ⟨retransmission, _, last⟩ := Option.bind_eq_some_iff.mp resent
  cases last
  rw [if_pos feasible]
  constructor
  case dlReq => exact ⟨_, _, rfl, rfl, rfl⟩
  case txReq =>
    exact ⟨[], (List.append_nil _).symm, fun _ tx member => (List.not_mem_nil member).elim,
      fun msg4 => by cases state.symm.trans msg4⟩
  case ulReqTmp => exact fun k => ⟨[], (List.append_nil _).symm, Nat.zero_le 1⟩
  case ueList => rfl
  case round =>
    intro rnti ue _ pid
    rw [if_neg (fun msg4 => by cases state.symm.trans msg4.1)]
    rfl
  case others => exact fun j other => Enb.setRa_other _ _ other

theorem resendMsg4_quiet {round : Nat} (infeasible : answer.feasible ≠ true)
    (resent : resendMsg4 cell answer i round s = some s') : Same s s' ∧
    ∀ j ≠ i, s'.ra j = s.ra j := by
  obtain ⟨retransmission, _, last⟩ := Option.bind_eq_some_iff.mp resent
  cases last
  rw [if_neg infeasible]
  exact ⟨⟨rfl, rfl, rfl, rfl, rfl, rfl, rfl⟩, fun j other => Enb.setRa_other _ _ other⟩

theorem Enb.acknowledged_iff : s.acknowledged cell (s.ra i) = true ↔ (s.ra i).state = .waitMsg4Ack ∧
    ∃ ue, findUeId cell.mobiles s.ueList (s.ra i).rnti = some ue ∧
      s.round ue (s.ra i).harqPid = 8 := by
  simp only [Enb.acknowledged, Enb.msg4Round, Bool.and_eq_true, decide_eq_true_eq, beq_iff_eq,
    Option.map_eq_some_iff]

/-- The acknowledged process is cancelled, with every other one of its RNTI. -/
theorem raTurn_acknowledged (acknowledged : s.acknowledged cell (s.ra i) = true)
    (turned : raTurn cell now answer i s = some s') : Same s s' ∧ ∀ j,
      ((s.ra j).rnti = (s.ra i).rnti → (s'.ra j).state = .idle) ∧
      ((s.ra j).rnti ≠ (s.ra i).rnti → s'.ra j = s.ra j) := by
  obtain ⟨state, ue, found, eight⟩ := Enb.acknowledged_iff.mp acknowledged
  simp only [raTurn, state] at turned
  obtain ⟨other, known, cases_⟩ := checkMsg4Retransmission_cases turned
  cases found.symm.trans known
  obtain ⟨_, rfl⟩ | ⟨not, _⟩ | ⟨not, _⟩ := cases_
  · refine ⟨⟨rfl, rfl, rfl, rfl, rfl, rfl, rfl⟩, fun j => ?_⟩
    have rnti : ((s.setRa i { s.ra i with state := .idle }).ra j).rnti = (s.ra j).rnti := by
      by_cases same : j = i
      · subst same
        rw [Enb.setRa_self]
      · rw [Enb.setRa_other _ _ same]
    constructor
    · intro same
      exact congrArg Process.state (if_pos (rnti.trans same))
    · intro apart
      have other : j ≠ i := fun same => apart (same ▸ rfl)
      exact (if_neg (fun same => apart (rnti.symm.trans same))).trans (Enb.setRa_other _ _ other)
  · exact absurd eight not
  · exact absurd eight not

theorem raTurn_quiet (waiting : s.acknowledged cell (s.ra i) ≠ true)
    (unsent : ¬ ((s.ra i).due now = true ∧ answer.feasible = true))
    (turned : raTurn cell now answer i s = some s') :
    Same s s' ∧ ∀ j ≠ i, s'.ra j = s.ra j := by
  have still : some s = some s' → Same s s' ∧ ∀ j ≠ i, s'.ra j = s.ra j := by
    intro same
    cases same
    exact ⟨⟨rfl, rfl, rfl, rfl, rfl, rfl, rfl⟩, fun _ _ => rfl⟩
  unfold raTurn at turned
  split at turned
  · rename_i state
    simp only [Process.due, state, decide_eq_true_eq] at unsent
    obtain ⟨same, ras⟩ := generateMsg2_quiet unsent turned
    exact ⟨same, fun j _ => congrFun ras j⟩
  · rename_i state
    simp only [Process.due, state, decide_eq_true_eq] at unsent
    split at turned
    · exact generateMsg4_quiet unsent turned
    · exact still turned
  · rename_i state
    simp only [Process.due, state, decide_eq_true_eq] at unsent
    obtain ⟨ue, found, ⟨eight, _⟩ | ⟨_, time, resent⟩ | ⟨_, _, same⟩⟩ :=
      checkMsg4Retransmission_cases turned
    · exact absurd (Enb.acknowledged_iff.mpr ⟨state, ue, found, eight⟩) waiting
    · exact resendMsg4_quiet (fun feasible => unsent ⟨time, feasible⟩) resent
    · exact still (congrArg some same.symm)
  · exact still turned

theorem raTurn_sent (waiting : s.acknowledged cell (s.ra i) ≠ true) (due : (s.ra i).due now = true)
    (feasible : answer.feasible = true) (turned : raTurn cell now answer i s = some s') :
    Sent cell now answer.sdu i s s' := by
  unfold raTurn at turned
  split at turned
  · rename_i state
    simp only [Process.due, state, decide_eq_true_eq] at due
    exact generateMsg2_sent answer.sdu state due feasible turned
  · rename_i state
    simp only [Process.due, state, decide_eq_true_eq] at due
    rw [if_pos due] at turned
    exact generateMsg4_sent state due feasible turned
  · rename_i state
    simp only [Process.due, state, decide_eq_true_eq] at due
    obtain ⟨ue, found, ⟨eight, _⟩ | ⟨_, _, resent⟩ | ⟨_, late, _⟩⟩ :=
      checkMsg4Retransmission_cases turned
    · exact absurd (Enb.acknowledged_iff.mpr ⟨state, ue, found, eight⟩) waiting
    · exact resendMsg4_sent answer.sdu state feasible resent
    · exact absurd due late
  · rename_i notMsg2 notMsg4 notWait
    unfold Process.due at due
    split at due
    · exact absurd ‹_› notMsg2
    · exact absurd ‹_› notMsg4
    · exact absurd ‹_› notWait
    · cases due

end Turn

/-- What a turn sees of the turns before it. -/
structure Seen where
  /-- The RNTIs whose processes were cancelled. -/
  cancelled : List Nat
  /-- The RNTIs that Msg4 was sent to: its HARQ process is in round 0 again. -/
  restarted : List Nat

section Senders
variable (cell : Cell) (now : Now) (answers : Fin raProcMax → Answer) (s : Enb)

def Enb.answered (seen : Seen) (ra : Process) : Bool :=
  s.acknowledged cell ra && !(ra.rnti ∈ seen.restarted && ra.harqPid == dlHarqPid cell now)

/-- The processes that send, read off the state before: those with a message for this subframe
for whose DCI there is room, unless the turn of another process has cancelled them. -/
def sendersFrom (seen : Seen) : List (Fin raProcMax) → List (Fin raProcMax)
  | [] => []
  | i :: rest =>
    let ra := s.ra i
    if ra.rnti ∈ seen.cancelled then sendersFrom seen rest
    else if s.answered cell now seen ra then
      sendersFrom { seen with cancelled := ra.rnti :: seen.cancelled } rest
    else if ra.due now && (answers i).feasible then
      i :: sendersFrom
        (if ra.state = .msg4 then { seen with restarted := ra.rnti :: seen.restarted }
        else seen) rest
    else sendersFrom seen rest

def senders : List (Fin raProcMax) :=
  if isUlSf cell now.subframe = some true then []
  else sendersFrom cell now answers s ⟨[], []⟩ (List.finRange raProcMax)

end Senders

section Turns
variable {cell : Cell} {now : Now} {answers : Fin raProcMax → Answer} {s t t' : Enb} {seen : Seen}
  {rest : List (Fin raProcMax)}

/-- The state before a turn, told from the first one. -/
structure Follows (cell : Cell) (now : Now) (s : Enb) (seen : Seen) (rest : List (Fin raProcMax))
    (t : Enb) : Prop where
  ueList : t.ueList = s.ueList
  cancelled : ∀ i ∈ rest, (s.ra i).rnti ∈ seen.cancelled → (t.ra i).state = .idle
  kept : ∀ i ∈ rest, (s.ra i).rnti ∉ seen.cancelled → t.ra i = s.ra i
  round : ∀ rnti ue, findUeId cell.mobiles s.ueList rnti = some ue → ∀ pid, t.round ue pid =
    if rnti ∈ seen.restarted ∧ pid = dlHarqPid cell now then 0 else s.round ue pid

theorem Follows.acknowledged (follows : Follows cell now s seen rest t) (ra : Process) :
    t.acknowledged cell ra = s.answered cell now seen ra := by
  have rounds : t.msg4Round cell ra = (s.msg4Round cell ra).map fun round =>
      if ra.rnti ∈ seen.restarted ∧ ra.harqPid = dlHarqPid cell now then 0 else round := by
    simp only [Enb.msg4Round, follows.ueList]
    cases found : findUeId cell.mobiles s.ueList ra.rnti with
    | none => rfl
    | some ue => exact congrArg some (follows.round _ ue found _)
  simp only [Enb.answered, Enb.acknowledged, rounds]
  by_cases restarted : ra.rnti ∈ seen.restarted ∧ ra.harqPid = dlHarqPid cell now
  · cases s.msg4Round cell ra <;> simp [restarted]
  · have still :
        (decide (ra.rnti ∈ seen.restarted) && ra.harqPid == dlHarqPid cell now) = false := by
      simpa using restarted
    cases s.msg4Round cell ra <;> simp [restarted, still]

theorem Follows.skip {i : Fin raProcMax} (follows : Follows cell now s seen (i :: rest) t)
    (same : Same t t') (others : ∀ j ∈ rest, t'.ra j = t.ra j) :
    Follows cell now s seen rest t' where
  ueList := same.ueList.trans follows.ueList
  cancelled j member gone := (congrArg Process.state (others j member)).trans
    (follows.cancelled j (List.mem_cons_of_mem _ member) gone)
  kept j member stays :=
    (others j member).trans (follows.kept j (List.mem_cons_of_mem _ member) stays)
  round rnti ue found pid :=
    (congrFun (congrFun same.round ue) pid).trans (follows.round rnti ue found pid)

theorem Follows.cancel {i : Fin raProcMax} (follows : Follows cell now s seen (i :: rest) t)
    (live : (s.ra i).rnti ∉ seen.cancelled) (same : Same t t')
    (others : ∀ j, ((t.ra j).rnti = (t.ra i).rnti → (t'.ra j).state = .idle) ∧
      ((t.ra j).rnti ≠ (t.ra i).rnti → t'.ra j = t.ra j)) :
    Follows cell now s { seen with cancelled := (s.ra i).rnti :: seen.cancelled } rest t' := by
  have own : t.ra i = s.ra i := follows.kept i List.mem_cons_self live
  rw [own] at others
  constructor
  case ueList => exact same.ueList.trans follows.ueList
  case cancelled =>
    intro j member gone
    by_cases shared : (t.ra j).rnti = (s.ra i).rnti
    · exact (others j).1 shared
    · -- a process of another RNTI was cancelled before
      rw [(others j).2 shared]
      apply follows.cancelled j (List.mem_cons_of_mem _ member)
      obtain same | before := List.mem_cons.mp gone
      · by_contra stays
        rw [follows.kept j (List.mem_cons_of_mem _ member) stays] at shared
        exact shared same
      · exact before
  case kept =>
    intro j member stays
    have apart := List.ne_of_not_mem_cons stays
    have kept := follows.kept j (List.mem_cons_of_mem _ member) (List.not_mem_of_not_mem_cons stays)
    rw [← kept] at apart
    exact ((others j).2 apart).trans kept
  case round =>
    intro rnti ue found pid
    exact (congrFun (congrFun same.round ue) pid).trans (follows.round rnti ue found pid)

theorem Follows.send {i : Fin raProcMax} {sdu : List UInt8}
    (follows : Follows cell now s seen (i :: rest) t)
    (live : (s.ra i).rnti ∉ seen.cancelled) (apart : i ∉ rest) (sent : Sent cell now sdu i t t') :
    Follows cell now s
      (if (s.ra i).state = .msg4 then
      { seen with restarted := (s.ra i).rnti :: seen.restarted } else seen)
      rest t' := by
  have own : t.ra i = s.ra i := follows.kept i List.mem_cons_self live
  have others : ∀ j ∈ rest, t'.ra j = t.ra j :=
    fun j member => sent.others j fun same => apart (same ▸ member)
  have cancelled :
    (if (s.ra i).state = .msg4 then { seen with restarted := (s.ra i).rnti :: seen.restarted }
      else seen).cancelled = seen.cancelled := by
    split <;> rfl
  constructor
  case ueList => exact sent.ueList.trans follows.ueList
  case cancelled =>
    intro j member gone
    rw [cancelled] at gone
    rw [others j member]
    exact follows.cancelled j (List.mem_cons_of_mem _ member) gone
  case kept =>
    intro j member stays
    rw [cancelled] at stays
    exact (others j member).trans (follows.kept j (List.mem_cons_of_mem _ member) stays)
  case round =>
    intro rnti ue found pid
    rw [sent.round rnti ue (by rw [follows.ueList, found]) pid,
      follows.round rnti ue found pid, own]
    by_cases msg4 : (s.ra i).state = .msg4
    · by_cases mine : rnti = (s.ra i).rnti ∧ pid = dlHarqPid cell now <;> grind
    · simp only [msg4, false_and, if_false]

/-- What the turns have added, and for whom. -/
structure Outcome (cell : Cell) (now : Now) (answers : Fin raProcMax → Answer) (s t : Enb)
    (senders : List (Fin raProcMax))
    (t' : Enb) : Prop where
  dlReq : ∃ new, t'.dlReq = t.dlReq ++ new ∧
    (new.filterMap DlPdu.dci?).map Dci.resourceBlockCoding = senders.map (fun _ => riv cell) ∧
    (new.filterMap DlPdu.dlsch?).map Dlsch.resourceBlockCoding = senders.map (fun _ => riv cell)
  ulReqTmp : ∀ subframe, ∃ new, t'.ulReqTmp subframe = t.ulReqTmp subframe ++ new ∧
    new.length ≤ senders.length
  silent : senders = [] → t'.txReq = t.txReq ∧ t'.payload = t.payload
  single : ∀ i, senders = [i] → t.dlschPdu = s.dlschPdu → ∃ new, t'.txReq = t.txReq ++ new ∧
    Brings t' i (s.ra i).state (s.message cell now (answers i).sdu (s.ra i)) new

theorem Same.payload (same : Same t t') : t'.payload = t.payload := by
  funext buffer
  cases buffer with
  | rar => exact same.rarPdu
  | dlsch ue => exact congrFun same.dlschPdu ue

theorem Outcome.skip {senders : List (Fin raProcMax)} {next : Enb} (same : Same t next)
    (outcome : Outcome cell now answers s next senders t') :
    Outcome cell now answers s t senders t' where
  dlReq := by
    rw [← same.dlReq]
    exact outcome.dlReq
  ulReqTmp := by
    rw [← same.ulReqTmp]
    exact outcome.ulReqTmp
  silent none_ := by
    rw [← same.txReq, ← same.payload]
    exact outcome.silent none_
  single i one buffers := by
    rw [← same.txReq]
    exact outcome.single i one (same.dlschPdu.trans buffers)

theorem Outcome.send {senders : List (Fin raProcMax)} {next : Enb} {i : Fin raProcMax}
    (own : t.ra i = s.ra i)
    (users : t.ueList = s.ueList) (sent : Sent cell now (answers i).sdu i t next)
    (outcome : Outcome cell now answers s next senders t') :
    Outcome cell now answers s t (i :: senders) t' where
  dlReq := by
    obtain ⟨dci, dlsch, first, dciCoding, dlschCoding⟩ := sent.dlReq
    obtain ⟨new, later, dcis, dlschs⟩ := outcome.dlReq
    refine ⟨.dci dci :: .dlsch dlsch :: new, ?_, ?_, ?_⟩
    · rw [later, first, List.append_assoc]
      rfl
    · exact List.cons_eq_cons.mpr ⟨dciCoding, dcis⟩
    · exact List.cons_eq_cons.mpr ⟨dlschCoding, dlschs⟩
  ulReqTmp subframe := by
    obtain ⟨first, added, one⟩ := sent.ulReqTmp subframe
    obtain ⟨new, later, few⟩ := outcome.ulReqTmp subframe
    refine ⟨first ++ new, by rw [later, added, List.append_assoc], ?_⟩
    rw [List.length_append, List.length_cons]
    omega
  silent none_ := by cases none_
  single j one buffers := by
    obtain ⟨same, alone⟩ := List.cons_eq_cons.mp one
    subst same
    -- nobody else sends, so nobody writes over the message
    obtain ⟨requests, payload⟩ := outcome.silent alone
    obtain ⟨new, added, whole, cut⟩ := sent.txReq
    have message : t.message cell now (answers i).sdu (t.ra i) =
        s.message cell now (answers i).sdu (s.ra i) := by
      simp only [Enb.message, own, users, buffers]
    rw [message] at whole cut
    rw [own] at whole cut
    refine ⟨new, requests.trans added, fun other tx member => ?_, cut⟩
    obtain ⟨process, bytes⟩ := whole other tx member
    exact ⟨process, payload ▸ bytes⟩

/-- The turns go as the first state foretells. -/
theorem raTurns_outcome (distinct : rest.Nodup) (follows : Follows cell now s seen rest t)
    (ran : raTurns cell now answers t rest = some t') :
    Outcome cell now answers s t (sendersFrom cell now answers s seen rest) t' := by
  induction rest generalizing t seen with
  | nil =>
    cases ran
    exact ⟨⟨[], (List.append_nil _).symm, rfl, rfl⟩,
      fun _ => ⟨[], (List.append_nil _).symm, Nat.le_refl 0⟩,
      fun _ => ⟨rfl, rfl⟩, fun _ one => by cases one⟩
  | cons i rest ih =>
    obtain ⟨next, turned, ran⟩ := Option.bind_eq_some_iff.mp ran
    obtain ⟨apart, distinct⟩ := List.nodup_cons.mp distinct
    have others : (∀ j ≠ i, next.ra j = t.ra j) → ∀ j ∈ rest, next.ra j = t.ra j :=
      fun kept j member => kept j fun same => apart (same ▸ member)
    simp only [sendersFrom]
    split
    · rename_i gone
      have idle := follows.cancelled i List.mem_cons_self gone
      simp only [raTurn, idle, Option.some.injEq] at turned
      subst turned
      exact ih distinct (follows.skip ⟨rfl, rfl, rfl, rfl, rfl, rfl, rfl⟩ fun _ _ => rfl) ran
    · rename_i live
      have own : t.ra i = s.ra i := follows.kept i List.mem_cons_self live
      have acknowledged : t.acknowledged cell (t.ra i) = s.answered cell now seen (s.ra i) := by
        rw [own]
        exact follows.acknowledged _
      split
      · rename_i answered
        obtain ⟨same, cancelled⟩ := raTurn_acknowledged (acknowledged.trans answered) turned
        exact (ih distinct (follows.cancel live same cancelled) ran).skip same
      · rename_i waiting
        rw [← acknowledged] at waiting
        split
        · rename_i sends
          rw [← own, Bool.and_eq_true] at sends
          have sent := raTurn_sent waiting sends.1 sends.2 turned
          exact (ih distinct (follows.send live apart sent) ran).send own follows.ueList sent
        · rename_i unsent
          rw [← own, Bool.and_eq_true] at unsent
          obtain ⟨same, kept⟩ := raTurn_quiet waiting unsent turned
          exact (ih distinct (follows.skip same (others kept)) ran).skip same

end Turns

/-- No resource block is in both allocations. -/
def Apart (nRb riv riv' : Nat) : Prop := ∀ block, ¬ (Codes nRb riv block ∧ Codes nRb riv' block)

def UlPdu.Apart (grant other : UlPdu) : Prop :=
  grant.resourceBlockStart + grant.numberOfResourceBlocks ≤ other.resourceBlockStart ∨
    other.resourceBlockStart + other.numberOfResourceBlocks ≤ grant.resourceBlockStart

/-- The messages of one subframe stay out of each other's way; what is new is compared with
the requests before. -/
structure CollisionFree (cell : Cell) (now : Now) (answers : Fin raProcMax → Answer)
    (s s' : Enb) : Prop where
  dci : (((s'.dlReq.drop s.dlReq.length).filterMap DlPdu.dci?).map Dci.resourceBlockCoding).Pairwise
    (Apart cell.nRbDl)
  dlsch : (((s'.dlReq.drop s.dlReq.length).filterMap DlPdu.dlsch?).map
    Dlsch.resourceBlockCoding).Pairwise (Apart cell.nRbDl)
  dciFree : ∀ pdu ∈ (s'.dlReq.drop s.dlReq.length).filterMap DlPdu.dci?, ∀ block,
    Codes cell.nRbDl pdu.resourceBlockCoding block → s.vrbMap block = false
  dlschFree : ∀ pdu ∈ (s'.dlReq.drop s.dlReq.length).filterMap DlPdu.dlsch?, ∀ block,
    Codes cell.nRbDl pdu.resourceBlockCoding block → s.vrbMap block = false
  payload : ∀ tx ∈ s'.txReq.drop s.txReq.length,
    s'.Carries tx.process (s.message cell now (answers tx.process).sdu (s.ra tx.process)) tx
  msg3 : ∀ subframe, ((s'.ulReqTmp subframe).drop (s.ulReqTmp subframe).length).Pairwise UlPdu.Apart

section Collision
variable {cell : Cell} {now : Now} {answers : Fin raProcMax → Answer} {s s' : Enb}

theorem scheduleRa_outcome (scheduled : scheduleRa cell now answers s = some s') :
    Outcome cell now answers s s (senders cell now answers s) s' := by
  obtain ⟨uplink, known, scheduled⟩ := Option.bind_eq_some_iff.mp scheduled
  rw [senders, known]
  cases uplink with
  | true =>
    cases scheduled
    exact ⟨⟨[], (List.append_nil _).symm, rfl, rfl⟩,
      fun _ => ⟨[], (List.append_nil _).symm, Nat.le_refl 0⟩,
      fun _ => ⟨rfl, rfl⟩, fun _ one => by cases one⟩
  | false =>
    have first : Follows cell now s ⟨[], []⟩ (List.finRange raProcMax) s := by
      constructor
      case ueList => rfl
      case cancelled => exact fun _ _ gone => by cases gone
      case kept => exact fun _ _ _ => rfl
      case round =>
        intro rnti ue _ pid
        rw [if_neg (fun restarted => by cases restarted.1)]
    exact raTurns_outcome (List.nodup_finRange _) first scheduled

theorem collisionFree_blocks (scheduled : scheduleRa cell now answers s = some s')
    (free : CollisionFree cell now answers s s') :
    (senders cell now answers s).length ≤ 1 ∧
    (senders cell now answers s ≠ [] → ∀ block < 4, s.vrbMap block = false) := by
  obtain ⟨new, added, _, dlschs⟩ := (scheduleRa_outcome scheduled).dlReq
  have drop : s'.dlReq.drop s.dlReq.length = new := by
    rw [added]
    exact List.drop_left
  have apart := free.dlsch
  have unused := free.dlschFree
  rw [drop] at apart unused
  rw [dlschs] at apart
  cases shape : senders cell now answers s with
  | nil => exact ⟨Nat.zero_le 1, fun some_ => absurd rfl some_⟩
  | cons i rest =>
    rw [shape] at apart dlschs
    constructor
    · cases rest with
      | nil => exact Nat.le_refl 1
      | cons j others =>
        have both := (List.pairwise_cons.mp apart).1 (riv cell) List.mem_cons_self
        exact absurd ⟨codes_riv.mpr (by decide), codes_riv.mpr (by decide)⟩ (both 0)
    · intro _ block small
      have taken : riv cell ∈ (new.filterMap DlPdu.dlsch?).map Dlsch.resourceBlockCoding := by
        rw [dlschs]
        exact List.mem_cons_self
      obtain ⟨pdu, member, coding⟩ := List.mem_map.mp taken
      exact unused pdu member block (coding ▸ codes_riv.mpr small)

/-- The request for Msg4 counts the bytes of its SDU only. -/
theorem collisionFree_msg4 (scheduled : scheduleRa cell now answers s = some s')
    (free : CollisionFree cell now answers s s') : ∀ i ∈ senders cell now answers s,
    (s.ra i).state ≠ .msg4 := by
  intro i member msg4
  have few := (collisionFree_blocks scheduled free).1
  obtain ⟨j, alone⟩ :=
    List.length_eq_one_iff.mp (Nat.le_antisymm few (List.length_pos_of_mem member))
  rw [alone, List.mem_singleton] at member
  subst member
  obtain ⟨new, added, brings⟩ := (scheduleRa_outcome scheduled).single i alone rfl
  obtain ⟨tx, member, process, short⟩ := brings.cut msg4
  have carries := free.payload tx (by rw [added, List.drop_left]; exact member)
  have length := congrArg List.length carries.2
  rw [process, bytesAt_length] at length
  omega

/-- The messages of a subframe stay out of each other's way, whole, exactly when one process at
most sends, not for the first time Msg4, and finds the first four resource blocks free. -/
theorem scheduleRa_collisionFree_iff (scheduled : scheduleRa cell now answers s = some s') :
    CollisionFree cell now answers s s' ↔ (senders cell now answers s).length ≤ 1 ∧
      (senders cell now answers s ≠ [] → ∀ block < 4, s.vrbMap block = false) ∧
      ∀ i ∈ senders cell now answers s, (s.ra i).state ≠ .msg4 := by
  refine ⟨fun free => ?_, fun ⟨few, unused, noMsg4⟩ => ?_⟩
  · obtain ⟨few, unused⟩ := collisionFree_blocks scheduled free
    exact ⟨few, unused, collisionFree_msg4 scheduled free⟩
  have outcome := scheduleRa_outcome scheduled
  obtain ⟨new, added, dcis, dlschs⟩ := outcome.dlReq
  have drop : s'.dlReq.drop s.dlReq.length = new := by
    rw [added]
    exact List.drop_left
  have pairwise : ((senders cell now answers s).map fun _ => riv cell).Pairwise
      (Apart cell.nRbDl) := by
    match senders cell now answers s, few with
    | [], _ => exact .nil
    | [_], _ => exact List.pairwise_singleton ..
  have free : ∀ coding ∈ (senders cell now answers s).map (fun _ => riv cell), ∀ block,
      Codes cell.nRbDl coding block → s.vrbMap block = false := by
    intro coding member block codes
    obtain ⟨i, sends, rfl⟩ := List.mem_map.mp member
    exact unused (List.ne_nil_of_mem sends) block (codes_riv.mp codes)
  constructor
  case dci => rw [drop, dcis]; exact pairwise
  case dlsch => rw [drop, dlschs]; exact pairwise
  case dciFree =>
    intro pdu member
    rw [drop] at member
    exact free _ (dcis ▸ List.mem_map_of_mem member)
  case dlschFree =>
    intro pdu member
    rw [drop] at member
    exact free _ (dlschs ▸ List.mem_map_of_mem member)
  case payload =>
    intro tx member
    cases shape : senders cell now answers s with
    | nil =>
      rw [(outcome.silent shape).1, List.drop_length] at member
      cases member
    | cons i rest =>
      rw [shape] at few
      cases List.length_eq_zero_iff.mp (Nat.le_zero.mp (Nat.le_of_succ_le_succ few))
      obtain ⟨requests, appended, brings⟩ := outcome.single i shape rfl
      rw [appended, List.drop_left] at member
      have own : i ∈ senders cell now answers s := shape ▸ List.mem_cons_self
      obtain ⟨process, bytes⟩ := brings.whole (noMsg4 i own) tx member
      subst process
      exact ⟨rfl, bytes⟩
  case msg3 =>
    intro subframe
    obtain ⟨grants, appended, one⟩ := outcome.ulReqTmp subframe
    rw [appended, List.drop_left]
    match grants, one.trans few with
    | [], _ => exact .nil
    | [_], _ => exact List.pairwise_singleton ..

end Collision

def idleProcess : Process where
  state := .idle
  preambleSubframe := 0
  msg2 := ⟨0, 0⟩
  msg3 := ⟨0, 0⟩
  msg4 := ⟨0, 0⟩
  harqPid := 0
  rnti := 0
  raRnti := 0
  preambleIndex := 0
  contResId := [0, 0, 0, 0, 0, 0]
  sixBytes := rfl
  timingOffset := 0
  rrcTimer := 0
  msg3FirstRb := 0
  msg3NbRb := 0
  msg3Mcs := 0
  msg3Tpc := 0
  msg3UlDelay := 0
  msg3CqiReq := 0
  msg3Round := 0
  msg4TbSize := 0
  msg4Mcs := 0

/-- FDD with 25 resource blocks. -/
def fddCell : Cell where
  tdd := none
  nRbDl := 25
  bandwidth := by decide
  nfapiMode := false
  mobiles := 16
  maxHarqMsg3Tx := 4

def freshEnb : Enb where
  ra _ := idleProcess
  vrbMap _ := false
  vrbMapUl _ := false
  dlReq := []
  txReq := []
  ulReqTmp _ := []
  hiReq _ := []
  pduIndex := 0
  rarPdu _ := 0
  ccchPdu := []
  dlschPdu _ _ := 0
  round _ _ := 8
  configured _ := false
  ueList := initUeList 16

def subframeFive : Now := ⟨⟨0, 5⟩, 0⟩

/-- A preamble has come in subframe 0, so Msg2 is due in subframe 5. -/
def afterPreamble : Enb :=
  freshEnb.setRa 0 { idleProcess with state := .msg2, msg2 := ⟨0, 5⟩, rnti := 5000, raRnti := 1 }

/-- Besides, Msg3 has come from another UE in subframe 1. -/
def afterMsg3 : Enb :=
  { afterPreamble.setRa 1
      { idleProcess with state := .msg4, msg4 := ⟨0, 5⟩, rnti := 5001, raRnti := 1 } with
    ueList := addNewUe 16 (initUeList 16) 5001 }

def allFeasible (_ : Fin raProcMax) : Answer := ⟨true, [0x60]⟩

theorem scheduleRa_one_preamble :
    ∃ s', scheduleRa fddCell subframeFive allFeasible afterPreamble = some s' ∧
    CollisionFree fddCell subframeFive allFeasible afterPreamble s' :=
  ⟨_, rfl, (scheduleRa_collisionFree_iff rfl).mpr ⟨by decide, fun _ _ _ => rfl, by decide⟩⟩

/-- Msg2 for one UE and Msg4 for the other take the same resource blocks. -/
theorem scheduleRa_msg2_and_msg4 :
    ∃ s', scheduleRa fddCell subframeFive allFeasible afterMsg3 = some s' ∧
    ¬ CollisionFree fddCell subframeFive allFeasible afterMsg3 s' := by
  refine ⟨_, rfl, fun free => ?_⟩
  exact absurd (collisionFree_blocks rfl free).1 (by decide)

end OpenAir.Mac.Ra
