import OpenAir.Mac.Ra.Carrier
import OpenAir.Mac.Ra.Collision

/-! The processes stay apart and on time, as long as no RNTI is drawn twice, every Msg2 gets
its DCI and no Msg3 hands a procedure over to another UE. -/
namespace OpenAir.Mac.Ra

/-- A process goes on with its procedure: it never starts a new one, or comes back to Msg2. -/
structure Moves (ra ra' : Process) : Prop where
  rnti : ra'.rnti = ra.rnti
  idle : ra'.state = .idle ↔ ra.state = .idle
  msg2 : ra'.state = .msg2 → ra.state = .msg2 ∧ ra'.msg2 = ra.msg2

structure Ended (ra : Process) : Prop where
  state : ra.state = .idle
  rnti : ra.rnti = 0

/-- What happens to the processes between two preambles. -/
def Evolves (s s' : Enb) : Prop := ∀ i, Moves (s.ra i) (s'.ra i) ∨ Ended (s'.ra i)

section Evolves
variable {s t u : Enb}

theorem Moves.refl (ra : Process) : Moves ra ra := ⟨rfl, Iff.rfl, fun msg2 => ⟨msg2, rfl⟩⟩

theorem Moves.trans {ra ra' ra'' : Process} (first : Moves ra ra') (second : Moves ra' ra'') :
    Moves ra ra'' := by
  refine ⟨second.rnti.trans first.rnti, second.idle.trans first.idle, fun msg2 => ?_⟩
  obtain ⟨before, time⟩ := second.msg2 msg2
  obtain ⟨start, same⟩ := first.msg2 before
  exact ⟨start, time.trans same⟩

theorem Moves.ended {ra ra' : Process} (ended : Ended ra) (moves : Moves ra ra') : Ended ra' :=
  ⟨moves.idle.mpr ended.state, moves.rnti.trans ended.rnti⟩

theorem Moves.of_state {ra ra' : Process} (rnti : ra'.rnti = ra.rnti) (active : ra.state ≠ .idle)
    (state : ra'.state ≠ .idle ∧ ra'.state ≠ .msg2) : Moves ra ra' :=
  ⟨rnti, ⟨fun idle => absurd idle state.1, fun idle => absurd idle active⟩,
    fun msg2 => absurd msg2 state.2⟩

theorem Evolves.refl (s : Enb) : Evolves s s := fun _ => .inl (.refl _)

theorem Evolves.of_eq (same : t.ra = s.ra) : Evolves s t :=
  fun i => .inl (by rw [same]; exact .refl _)

theorem Evolves.trans (first : Evolves s t) (second : Evolves t u) : Evolves s u := by
  intro i
  obtain moves | ended := second i
  · obtain before | ended := first i
    · exact .inl (before.trans moves)
    · exact .inr (moves.ended ended)
  · exact .inr ended

theorem Evolves.set {i : Fin raProcMax} {ra : Process} (moves : Moves (s.ra i) ra) :
    Evolves s (s.setRa i ra) := by
  intro j
  by_cases same : j = i
  · subst same
    rw [Enb.setRa_self]
    exact .inl moves
  · rw [Enb.setRa_other _ _ same]
    exact .inl (.refl _)

theorem Evolves.cancel (s : Enb) (rnti : Nat) : Evolves s (cancelRaProc s rnti) := by
  intro i
  by_cases same : (s.ra i).rnti = rnti
  · have gone : (cancelRaProc s rnti).ra i = (s.ra i).cancelled := if_pos same
    rw [gone]
    exact .inr ⟨rfl, rfl⟩
  · have kept : (cancelRaProc s rnti).ra i = s.ra i := if_neg same
    rw [kept]
    exact .inl (.refl _)

end Evolves

section Turn
variable {cell : Cell} {now : Now} {answer : Answer} {i : Fin raProcMax} {s s' : Enb}

theorem sendMsg2_ra (sent : sendMsg2 cell now i s = some s') :
    ∃ ra, s'.ra = (s.setRa i ra).ra ∧ ra.rnti = (s.ra i).rnti ∧ ra.state = .waitMsg3 := by
  obtain ⟨next, added, last⟩ := Option.bind_eq_some_iff.mp sent
  cases last
  refine ⟨_, congrArg (Function.update · i _) (addMsg3_eq added).1.1, rfl, rfl⟩

theorem generateMsg2_evolves (state : (s.ra i).state = .msg2)
    (generated : generateMsg2 cell now answer i s = some s') :
    Evolves s s' := by
  by_cases sends : (s.ra i).msg2 = now.toTime ∧ answer.feasible = true
  · have absSF : ¬ now.absSF < (s.ra i).msg2.absSF := by
      rw [sends.1]
      exact Nat.lt_irrefl _
    rw [generateMsg2, if_neg absSF, if_pos sends.1, if_pos sends.2] at generated
    obtain ⟨ra, ras, rnti, waits⟩ := sendMsg2_ra generated
    have active : (s.ra i).state ≠ .idle := by
      rw [state]
      exact State.noConfusion
    have moves : Moves (s.ra i) ra := by
      apply Moves.of_state rnti active
      rw [waits]
      exact ⟨State.noConfusion, State.noConfusion⟩
    exact (Evolves.set moves).trans (.of_eq ras)
  · exact .of_eq (generateMsg2_quiet sends generated).2

/-- Msg2 is sent in its subframe when there is room for its DCI. -/
theorem raTurn_msg2 (state : (s.ra i).state = .msg2) (time : (s.ra i).msg2 = now.toTime)
    (feasible : answer.feasible = true)
    (turned : raTurn cell now answer i s = some s') : (s'.ra i).state ≠ .msg2 := by
  have absSF : ¬ now.absSF < (s.ra i).msg2.absSF := by
    rw [time]
    exact Nat.lt_irrefl _
  simp only [raTurn, state, generateMsg2, if_neg absSF, if_pos time, if_pos feasible] at turned
  obtain ⟨ra, ras, _, waits⟩ := sendMsg2_ra turned
  rw [ras, Enb.setRa_self, waits]
  exact State.noConfusion

theorem generateMsg4_evolves (state : (s.ra i).state = .msg4)
    (generated : generateMsg4 cell now answer i s = some s') :
    Evolves s s' := by
  have active : (s.ra i).state ≠ .idle := by
    rw [state]
    exact State.noConfusion
  have goes : ∀ ra : Process, ra.rnti = (s.ra i).rnti → ra.state = .msg4 ∨ ra.state = .waitMsg4Ack →
      Evolves s (s.setRa i ra) := by
    intro ra rnti next
    refine .set (.of_state rnti active ?_)
    obtain next | next := next
    · rw [next]
      exact ⟨State.noConfusion, State.noConfusion⟩
    · rw [next]
      exact ⟨State.noConfusion, State.noConfusion⟩
  obtain ⟨ue, found, _⟩ := Option.bind_eq_some_iff.mp generated
  rw [generateMsg4_eq found] at generated
  split at generated
  · split at generated
    · cases generated
    · split at generated
      · obtain ⟨retransmission, _, sent⟩ := Option.bind_eq_some_iff.mp generated
        obtain ⟨_, _, last⟩ := Option.bind_eq_some_iff.mp sent
        cases last
        have last :=
          goes { (s.ra
          i).forMsg4 cell now answer.sdu with state := .waitMsg4Ack, msg4 :=
          retransmission } rfl (.inr rfl)
        refine last.trans (.of_eq (Function.update_idem ..))
      · cases generated
        exact goes ((s.ra i).forMsg4 cell now answer.sdu) rfl (.inl state)
  · cases generated
    exact goes { s.ra i with harqPid := dlHarqPid cell now } rfl (.inl state)

theorem checkMsg4Retransmission_evolves
    (checked : checkMsg4Retransmission cell now answer i s = some s') :
    Evolves s s' := by
  obtain ⟨ue, _, ⟨_, rfl⟩ | ⟨_, _, resent⟩ | ⟨_, _, rfl⟩⟩ := checkMsg4Retransmission_cases checked
  · intro j
    by_cases own : j = i
    · subst own
      have rnti : ((s.setRa j { s.ra j with state := .idle }).ra j).rnti = (s.ra j).rnti := by
        rw [Enb.setRa_self]
      have ended : Ended ((s.setRa j { s.ra j with state := .idle }).ra j).cancelled := ⟨rfl, rfl⟩
      exact .inr (cast (congrArg Ended (if_pos rnti).symm) ended)
    · refine (Evolves.cancel _ (s.ra i).rnti j).imp_left fun moves => ?_
      have other : (s.setRa i { s.ra i with state := .idle }).ra j = s.ra j :=
        Enb.setRa_other _ _ own
      exact cast (congrArg (Moves · _) other) moves
  · obtain ⟨retransmission, _, last⟩ := Option.bind_eq_some_iff.mp resent
    cases last
    have moves : Moves (s.ra i) { s.ra i with msg4 := retransmission } :=
      ⟨rfl, Iff.rfl, fun msg2 => ⟨msg2, rfl⟩⟩
    refine (Evolves.set moves).trans (.of_eq ?_)
    split <;> rfl
  · exact .refl _

theorem raTurn_evolves (turned : raTurn cell now answer i s = some s') : Evolves s s' ∧
    s'.ueList = s.ueList := by
  constructor
  · unfold raTurn at turned
    split at turned
    · exact generateMsg2_evolves ‹_› turned
    · split at turned
      · exact generateMsg4_evolves ‹_› turned
      · cases turned
        exact .refl _
    · exact checkMsg4Retransmission_evolves turned
    · cases turned
      exact .refl _
  · by_cases acknowledged : s.acknowledged cell (s.ra i) = true
    · exact (raTurn_acknowledged acknowledged turned).1.ueList
    · by_cases sends : (s.ra i).due now = true ∧ answer.feasible = true
      · exact (raTurn_sent acknowledged sends.1 sends.2 turned).ueList
      · exact (raTurn_quiet acknowledged sends turned).1.ueList

/-- After the turns no Msg2 is left over that was due in the subframe. -/
theorem raTurns_evolves {answers : Fin raProcMax → Answer} {turns : List (Fin raProcMax)}
    (served : ∀ j, (s.ra j).state = .msg2 → (s.ra j).msg2 = now.toTime →
      (answers j).feasible = true)
    (ran : raTurns cell now answers s turns = some s') :
    Evolves s s' ∧ s'.ueList = s.ueList ∧ ∀ j ∈ turns, (s'.ra j).state = .msg2 →
    (s'.ra j).msg2 ≠ now.toTime := by
  induction turns generalizing s with
  | nil =>
    cases ran
    exact ⟨.refl _, rfl, fun j member => by cases member⟩
  | cons i rest ih =>
    obtain ⟨next, turned, ran⟩ := Option.bind_eq_some_iff.mp ran
    obtain ⟨first, users⟩ := raTurn_evolves turned
    have before : ∀ j, (next.ra j).state = .msg2 → (s.ra j).state = .msg2 ∧
        (next.ra j).msg2 = (s.ra j).msg2 := by
      intro j msg2
      obtain moves | ended := first j
      · exact moves.msg2 msg2
      · cases msg2.symm.trans ended.state
    have still : ∀ j, (next.ra j).state = .msg2 → (next.ra j).msg2 = now.toTime →
        (answers j).feasible = true := by
      intro j msg2 time
      obtain ⟨start, same⟩ := before j msg2
      exact served j start (same.symm.trans time)
    obtain ⟨later, others, gone⟩ := ih still ran
    refine ⟨first.trans later, others.trans users, fun j member msg2 time => ?_⟩
    obtain own | behind := List.mem_cons.mp member
    · subst own
      obtain moves | ended := later j
      · obtain ⟨middle, same⟩ := moves.msg2 msg2
        obtain ⟨start, sameTime⟩ := before j middle
        have due : (s.ra j).msg2 = now.toTime := sameTime.symm.trans (same.symm.trans time)
        exact raTurn_msg2 start due (served j start due) turned middle
      · cases msg2.symm.trans ended.state
    · exact gone j behind msg2 time

end Turn

structure Orderly (cell : Cell) (c : Carrier) : Prop where
  distinct : ∀ i j, i ≠ j → (c.enb.ra i).state ≠ .idle → (c.enb.ra j).state ≠ .idle →
    (c.enb.ra i).rnti ≠ (c.enb.ra j).rnti
  users : ∀ i, (c.enb.ra i).state ≠ .idle → ∀ ue < cell.mobiles, c.enb.ueList.active ue = true →
    c.creator ue ≠ some i →
    c.enb.ueList.rnti ue ≠ (c.enb.ra i).rnti
  onTime : ∀ i, (c.enb.ra i).state = .msg2 → ∃ ahead ≤ 10, (c.enb.ra i).msg2 =
    c.now.addSubframe ahead
  cancel : ∀ i, (c.enb.ra i).state ≠ .idle →
    ∀ j ≠ i, (cancelRaProc c.enb (c.enb.ra i).rnti).ra j = c.enb.ra j

/-- The RNTIs, with those of idle processes. -/
structure Distinct (cell : Cell) (c : Carrier) : Prop where
  idle : ∀ i, (c.enb.ra i).state = .idle → (c.enb.ra i).rnti = 0
  active : ∀ i, (c.enb.ra i).state ≠ .idle → (c.enb.ra i).rnti ≠ 0
  distinct : ∀ i j, i ≠ j → (c.enb.ra i).state ≠ .idle → (c.enb.ra j).state ≠ .idle →
    (c.enb.ra i).rnti ≠ (c.enb.ra j).rnti
  users : ∀ i, (c.enb.ra i).state ≠ .idle → ∀ ue < cell.mobiles, c.enb.ueList.active ue = true →
    c.creator ue ≠ some i →
    c.enb.ueList.rnti ue ≠ (c.enb.ra i).rnti

/-- Msg2 lies ahead, by as much as the preamble has left. -/
def OnTime (c : Carrier) : Prop :=
  ∀ i, (c.enb.ra i).state = .msg2 → ∃ ahead ≤ 7, (c.enb.ra i).msg2 = c.now.addSubframe ahead

structure Ordered (cell : Cell) (c : Carrier) : Prop where
  frame : c.now.frame < 1024
  subframe : c.now.subframe < 10
  distinct : Distinct cell c
  onTime : OnTime c

theorem Ordered.orderly {cell : Cell} {c : Carrier} (ordered : Ordered cell c) :
    Orderly cell c where
  distinct := ordered.distinct.distinct
  users := ordered.distinct.users
  onTime i msg2 := by
    obtain ⟨ahead, few, time⟩ := ordered.onTime i msg2
    exact ⟨ahead, few.trans (by decide), time⟩
  cancel i active j other := by
    apply if_neg
    intro same
    by_cases idle : (c.enb.ra j).state = .idle
    · exact ordered.distinct.active i active (same.symm.trans (ordered.distinct.idle j idle))
    · exact ordered.distinct.distinct j i other idle active same

/-- All but the start of a procedure: processes go on or end, and a new UE is one of theirs. -/
structure Proceeds (cell : Cell) (c c' : Carrier) : Prop where
  ras : Evolves c.enb c'.enb
  users : ∀ ue < cell.mobiles, c'.enb.ueList.active ue = true →
    (c.enb.ueList.active ue = true ∧ c'.enb.ueList.rnti ue = c.enb.ueList.rnti ue ∧
      c'.creator ue = c.creator ue) ∨
    ∃ i, c'.creator ue = some i ∧ (c.enb.ra i).state ≠ .idle ∧ c'.enb.ueList.rnti ue =
      (c.enb.ra i).rnti

section Proceeds
variable {cell : Cell} {c c' c'' : Carrier}

theorem Proceeds.of_evolves (ras : Evolves c.enb c'.enb) (users : c'.enb.ueList = c.enb.ueList)
    (creators : c'.creator = c.creator) : Proceeds cell c c' where
  ras := ras
  users ue _ active := by
    rw [users] at active ⊢
    rw [creators]
    exact .inl ⟨active, rfl, rfl⟩

/-- A process that is active afterwards was active before, under the same RNTI. -/
theorem Evolves.before {s s' : Enb} {i : Fin raProcMax} (ras : Evolves s s')
    (active : (s'.ra i).state ≠ .idle) :
    (s.ra i).state ≠ .idle ∧ (s'.ra i).rnti = (s.ra i).rnti := by
  obtain moves | ended := ras i
  · exact ⟨fun idle => active (moves.idle.mpr idle), moves.rnti⟩
  · exact absurd ended.state active

theorem Proceeds.trans (first : Proceeds cell c c') (second : Proceeds cell c' c'') :
    Proceeds cell c c'' where
  ras := first.ras.trans second.ras
  users ue inside active := by
    obtain ⟨before, rnti, creator⟩ | ⟨i, creator, started, rnti⟩ := second.users ue inside active
    · rw [rnti, creator]
      exact first.users ue inside before
    · obtain ⟨earlier, same⟩ := first.ras.before started
      exact .inr ⟨i, creator, earlier, rnti.trans same⟩

theorem Distinct.proceeds (distinct : Distinct cell c) (proceeds : Proceeds cell c c') :
    Distinct cell c' where
  idle i idle := by
    obtain moves | ended := proceeds.ras i
    · exact moves.rnti.trans (distinct.idle i (moves.idle.mp idle))
    · exact ended.rnti
  active i active := by
    obtain ⟨before, rnti⟩ := proceeds.ras.before active
    rw [rnti]
    exact distinct.active i before
  distinct i j other active also := by
    obtain ⟨before, rnti⟩ := proceeds.ras.before active
    obtain ⟨alsoBefore, same⟩ := proceeds.ras.before also
    rw [rnti, same]
    exact distinct.distinct i j other before alsoBefore
  users i active ue inside known created := by
    obtain ⟨before, same⟩ := proceeds.ras.before active
    rw [same]
    obtain ⟨known, rnti, creator⟩ | ⟨j, creator, started, rnti⟩ := proceeds.users ue inside known
    · rw [rnti]
      exact distinct.users i before ue inside known (creator ▸ created)
    · -- the UE of another process has that one's RNTI
      rw [rnti]
      have other : j ≠ i := fun same => created (same ▸ creator)
      exact distinct.distinct j i other started before

theorem OnTime.proceeds (onTime : OnTime c) (ras : Evolves c.enb c'.enb) (now : c'.now = c.now) :
    OnTime c' := by
  intro i msg2
  obtain moves | ended := ras i
  · obtain ⟨before, time⟩ := moves.msg2 msg2
    rw [time, now]
    exact onTime i before
  · cases msg2.symm.trans ended.state

theorem Ordered.proceeds (ordered : Ordered cell c) (proceeds : Proceeds cell c c')
    (now : c'.now = c.now) :
    Ordered cell c' where
  frame := now ▸ ordered.frame
  subframe := now ▸ ordered.subframe
  distinct := ordered.distinct.proceeds proceeds
  onTime := ordered.onTime.proceeds proceeds.ras now

theorem Proceeds.refl (c : Carrier) : Proceeds cell c c := .of_evolves (.refl _) rfl rfl

theorem Proceeds.cancel (c : Carrier) (rnti : Nat) :
    Proceeds cell c { c with enb := cancelRaProc c.enb rnti } := .of_evolves (.cancel _ _) rfl rfl

end Proceeds

section Reception
variable {cell : Cell} {c c' : Carrier}

/-- What a part of `rx_sdu` does to the carrier. -/
def Rx.Goes (cell : Cell) (s s' : Rx) : Prop := Proceeds cell s.carrier s'.carrier ∧
    s'.carrier.now = s.carrier.now

theorem Rx.Goes.refl (s : Rx) : s.Goes cell s := ⟨.refl _, rfl⟩

theorem Rx.Goes.trans {s t u : Rx} (first : s.Goes cell t) (second : t.Goes cell u) :
    s.Goes cell u :=
  ⟨first.1.trans second.1, second.2.trans first.2⟩

theorem Rx.cancel_goes (s : Rx) : s.Goes cell s.cancel := ⟨.cancel _ _, rfl⟩

theorem Rx.setRa_goes {s : Rx} {i : Fin raProcMax} {ra : Process}
    (moves : Moves (s.carrier.enb.ra i) ra) :
    s.Goes cell (s.setRa i ra) := ⟨.of_evolves (.set moves) rfl rfl, rfl⟩

theorem Rx.toMsg4_goes {s s' : Rx} {time : Time} {i : Fin raProcMax}
    (active : (s.carrier.enb.ra i).state ≠ .idle)
    (prepared : s.toMsg4 cell time i = some s') : s.Goes cell s' := by
  obtain ⟨msg4, _, last⟩ := Option.bind_eq_some_iff.mp prepared
  cases last
  exact Rx.setRa_goes (.of_state rfl active ⟨State.noConfusion, State.noConfusion⟩)

theorem Rx.newUe_goes {s : Rx} {i : Fin raProcMax} {ue : Nat}
    (active : (s.carrier.enb.ra i).state ≠ .idle)
    (free : freePlace cell s.carrier.enb.ueList = some ue) : s.Goes cell (s.newUe cell i ue) := by
  have list : addNewUe cell.mobiles s.carrier.enb.ueList (s.carrier.enb.ra i).rnti =
      { s.carrier.enb.ueList with
        active := Function.update s.carrier.enb.ueList.active ue true
        rnti := Function.update s.carrier.enb.ueList.rnti ue (s.carrier.enb.ra i).rnti
        numUes := s.carrier.enb.ueList.numUes + 1 } := by
    rw [freePlace] at free
    rw [addNewUe, free]
  refine ⟨⟨.refl _, fun other _ known => ?_⟩, rfl⟩
  simp only [Rx.newUe, list] at known ⊢
  by_cases same : other = ue
  · subst same
    exact .inr ⟨i, Function.update_self .., active, Function.update_self ..⟩
  · rw [Function.update_of_ne same] at known
    exact .inl ⟨known, Function.update_of_ne same .., Function.update_of_ne same ..⟩

theorem Rx.register_goes {s s' : Rx} {time : Time} {i : Fin raProcMax} {ue : Nat}
    (active : (s.carrier.enb.ra i).state ≠ .idle)
    (free : freePlace cell s.carrier.enb.ueList = some ue)
    (prepared : (s.newUe cell i ue).toMsg4 cell time i = some s') : s.Goes cell s' := by
  have still : ((s.newUe cell i ue).carrier.enb.ra i).state ≠ .idle := active
  exact (Rx.newUe_goes active free).trans (Rx.toMsg4_goes still prepared)

theorem rxCcch_goes {time : Time} {id : { id : List UInt8 // id.length = 6 }}
    {turns : List (Fin raProcMax)} {s s' : Rx}
    (received : rxCcch cell time id turns s = some s') : s.Goes cell s' := by
  induction turns generalizing s with
  | nil =>
    cases received
    exact .refl _
  | cons i rest ih =>
    simp only [rxCcch] at received
    split at received
    · rename_i own
      split at received
      · obtain ⟨next, prepared, received⟩ := Option.bind_eq_some_iff.mp received
        exact (Rx.toMsg4_goes own.2 prepared).trans (ih received)
      · have moves :
            Moves (s.carrier.enb.ra i)
            { s.carrier.enb.ra i with contResId := id.1, sixBytes := id.2 } :=
          ⟨rfl, Iff.rfl, fun msg2 => ⟨msg2, rfl⟩⟩
        refine (Rx.setRa_goes moves).trans ?_
        split at received
        · cases received
          exact Rx.cancel_goes _
        · rename_i ue free
          obtain ⟨next, prepared, received⟩ := Option.bind_eq_some_iff.mp received
          have active :
              ((s.setRa i { s.carrier.enb.ra i with
                contResId := id.1, sixBytes := id.2 }).carrier.enb.ra i).state ≠ .idle := by
            rw [Rx.setRa, Enb.setRa_self]
            exact own.2
          exact (Rx.register_goes active free prepared).trans (ih received)
    · exact ih received

/-- A C-RNTI of nobody cancels the procedure; without a procedure nothing happens. -/
theorem rxCrnti_goes {s : Rx} {oldRnti : Nat}
    (unknown : (findRaId s.carrier.enb s.currentRnti).isSome →
      findUeId cell.mobiles s.carrier.enb.ueList oldRnti = none) :
    s.Goes cell (rxCrnti cell s oldRnti) ∧ (rxCrnti cell s oldRnti).currentRnti = s.currentRnti ∧
      (rxCrnti cell s oldRnti).carrier.enb.ueList = s.carrier.enb.ueList := by
  unfold rxCrnti
  split
  · exact ⟨Rx.cancel_goes _, rfl, rfl⟩
  · rename_i ue found
    split
    · exact ⟨.refl _, rfl, rfl⟩
    · rename_i i active
      rw [active] at unknown
      cases found.symm.trans (unknown rfl)

theorem findRaId_isSome {s : Enb} {rnti : Nat} :
    (findRaId s rnti).isSome ↔ ∃ i, (s.ra i).state ≠ .idle ∧ (s.ra i).rnti = rnti := by
  simp [findRaId, List.find?_isSome]

theorem rxCrntis_goes {s : Rx} {crntis : List Nat}
    (unknown : ∀ oldRnti ∈ crntis, (findRaId s.carrier.enb s.currentRnti).isSome →
      findUeId cell.mobiles s.carrier.enb.ueList oldRnti = none) :
      s.Goes cell (crntis.foldl (rxCrnti cell) s) := by
  induction crntis generalizing s with
  | nil => exact .refl _
  | cons oldRnti rest ih =>
    obtain ⟨goes, rnti, users⟩ := rxCrnti_goes (unknown oldRnti List.mem_cons_self)
    refine goes.trans (ih fun other member found => ?_)
    rw [users]
    apply unknown other (List.mem_cons_of_mem _ member)
    obtain ⟨i, active, same⟩ := findRaId_isSome.mp found
    obtain ⟨before, kept⟩ := goes.1.ras.before active
    exact findRaId_isSome.mpr ⟨i, before, kept.symm.trans (same.trans rnti)⟩

theorem rxCcchs_goes {s s' : Rx} {time : Time} {ccchs : List { id : List UInt8 // id.length = 6 }}
    (received : ccchs.foldlM (fun s id => rxCcch cell time id (List.finRange raProcMax) s) s =
      some s') :
    s.Goes cell s' := by
  induction ccchs generalizing s with
  | nil =>
    cases received
    exact .refl _
  | cons id rest ih =>
    rw [List.foldlM_cons] at received
    obtain ⟨next, first, received⟩ := Option.bind_eq_some_iff.mp received
    exact (rxCcch_goes first).trans (ih received)

theorem rxMsg3_proceeds {time : Time} {pdu : Msg3} {rnti : Nat} {ueId : Option Nat}
    (unknown : (findRaId c.enb rnti).isSome → ∀ oldRnti ∈ pdu.crntis,
      findUeId cell.mobiles c.enb.ueList oldRnti = none)
    (received : (rxMsg3 cell time pdu ⟨c, rnti, ueId⟩).map Rx.carrier = some c') :
    Proceeds cell c c' ∧ c'.now = c.now := by
  obtain ⟨last, ran, rfl⟩ := Option.map_eq_some_iff.mp received
  have crntis : Rx.Goes cell ⟨c, rnti, ueId⟩ (pdu.crntis.foldl (rxCrnti cell) ⟨c, rnti, ueId⟩) :=
    rxCrntis_goes fun oldRnti member active => unknown active oldRnti member
  exact crntis.trans (rxCcchs_goes ran)

/-- No Msg3 hands the procedure over to a UE there is. -/
def Reception.Own (cell : Cell) (c : Carrier) (r : Reception) : Prop :=
  (findRaId c.enb r.rnti).isSome → ∀ pdu ∈ r.pdu, ∀ oldRnti ∈ pdu.crntis,
    findUeId cell.mobiles c.enb.ueList oldRnti = none

theorem rxSdu_proceeds {r : Reception} (own : r.Own cell c) (received : rxSdu cell c r = some c') :
    Proceeds cell c c' ∧ c'.now = c.now := by
  unfold rxSdu at received
  simp only at received
  split at received
  · split at received
    · cases received
      exact ⟨.cancel _ _, rfl⟩
    · cases received
      exact ⟨.refl _, rfl⟩
  · cases received
    exact ⟨.refl _, rfl⟩
  · rename_i i _ _ _
    split at received
    · cases received
    · split at received
      · cases received
        exact ⟨.cancel _ _, rfl⟩
      · obtain ⟨enb, added, last⟩ := Option.bind_eq_some_iff.mp received
        cases last
        obtain ⟨⟨ras, _, _, _, _, users⟩, _⟩ := addMsg3_eq added
        have moves : Moves (c.enb.ra i) { c.enb.ra i with
            msg3Round := (c.enb.ra i).msg3Round + 1, msg3 :=
                getMsg3allocret cell (c.enb.ra i).msg3 } :=
          ⟨rfl, Iff.rfl, fun msg2 => ⟨msg2, rfl⟩⟩
        exact ⟨.of_evolves ((Evolves.set moves).trans (.of_eq ras)) users rfl, rfl⟩
  · rename_i pdu _ _ content
    split at received
    · cases received
    · exact rxMsg3_proceeds (fun active => own active pdu content) received
  · rename_i pdu _ content
    exact rxMsg3_proceeds (fun active => own active pdu content) received

end Reception

section Clock
variable {time : Time}

theorem Time.addSubframe_add (time : Time) (a b : Nat) : (time.addSubframe a).addSubframe b =
    time.addSubframe (a + b) := by
  simp only [Time.addSubframe, Time.mk.injEq]
  omega

theorem Time.addSubframe_zero (frame : time.frame < 1024) (subframe : time.subframe < 10) :
    time.addSubframe 0 = time := by
  have same : time = ⟨time.frame, time.subframe⟩ := rfl
  rw [same]
  simp only [Time.addSubframe, Time.mk.injEq]
  omega

theorem Time.back_add (frame : time.frame < 1024) (subframe : time.subframe < 10) {lag offset : Nat}
    (few : lag ≤ offset)
    (small : lag ≤ 10) : (time.back lag).addSubframe offset = time.addSubframe (offset - lag) := by
  simp only [Time.back, Time.addSubframe, Time.absSF, Time.mk.injEq]
  omega

theorem Now.tick_add (now : Now) (ahead : Nat) : now.tick.addSubframe ahead =
    now.addSubframe (ahead + 1) := by
  have next : now.tick.toTime = now.addSubframe 1 := rfl
  rw [next, Time.addSubframe_add, Nat.add_comm]

end Clock

section Steps
variable {cell : Cell} {c c' : Carrier}

theorem drawRnti_accepted {ueList : UeList} {taus : Nat → Nat} {rnti : Nat}
    (drawn : drawRnti cell ueList taus = some rnti) :
    findUeId cell.mobiles ueList rnti = none ∧ 1024 ≤ rnti := by
  have accepted := List.find?_some drawn
  simp only [acceptRnti, Bool.and_eq_true, decide_eq_true_eq] at accepted
  exact accepted.1

theorem findUeId_none {ueList : UeList} {rnti ue : Nat}
    (none_ : findUeId cell.mobiles ueList rnti = none)
    (inside : ue < cell.mobiles) (active : ueList.active ue = true) : ueList.rnti ue ≠ rnti := by
  intro same
  have refused := List.find?_eq_none.mp none_ ue (List.mem_range.mpr inside)
  rw [active, same] at refused
  simp at refused

theorem msg2Offset_ahead {offset : Nat} (known : msg2Offset cell = some offset) :
    cell.ahead ≤ offset ∧ offset ≤ 7 := by
  unfold msg2Offset at known
  unfold Cell.ahead
  split at known
  · cases known
    split <;> decide
  · cases known
  · cases known
    split <;> decide

theorem Distinct.start {i : Fin raProcMax} {ra : Process} (distinct : Distinct cell c)
    (active : ra.state ≠ .idle)
    (large : ra.rnti ≠ 0) (unused : findUeId cell.mobiles c.enb.ueList ra.rnti = none)
    (fresh : ∀ j, (c.enb.ra j).state ≠ .idle → (c.enb.ra j).rnti ≠ ra.rnti) (failureCnt : Nat) :
    Distinct cell
      { c with enb := c.enb.setRa i ra, failureCnt := failureCnt
               creator := fun ue => if c.creator ue = some i then none else c.creator ue } where
  idle j idle := by
    by_cases own : j = i
    · subst own
      rw [Enb.setRa_self] at idle
      exact absurd idle active
    · rw [Enb.setRa_other _ _ own] at idle ⊢
      exact distinct.idle j idle
  active j started := by
    by_cases own : j = i
    · subst own
      rw [Enb.setRa_self]
      exact large
    · rw [Enb.setRa_other _ _ own] at started ⊢
      exact distinct.active j started
  distinct j k other started also := by
    by_cases own : j = i
    · subst own
      rw [Enb.setRa_self]
      rw [Enb.setRa_other _ _ other.symm] at also ⊢
      exact (fresh k also).symm
    · rw [Enb.setRa_other _ _ own] at started ⊢
      by_cases mine : k = i
      · subst mine
        rw [Enb.setRa_self]
        exact fresh j started
      · rw [Enb.setRa_other _ _ mine] at also ⊢
        exact distinct.distinct j k other started also
  users j started ue inside known created := by
    by_cases own : j = i
    · subst own
      rw [Enb.setRa_self]
      exact findUeId_none unused inside known
    · rw [Enb.setRa_other _ _ own] at started ⊢
      refine distinct.users j started ue inside known fun same => ?_
      have apart : c.creator ue ≠ some i := by
        rw [same]
        exact fun equal => own (Option.some.inj equal)
      exact created ((if_neg apart).trans same)

theorem initiateRaProc_ordered {preamble : Preamble} (ordered : Ordered cell c)
    (early : preamble.lag ≤ cell.ahead)
    (fresh : ∀ i j, (c.enb.ra i).state = .idle → (c.enb.ra j).state ≠ .idle →
      drawRnti cell c.enb.ueList preamble.taus ≠ some (c.enb.ra j).rnti)
    (initiated : initiateRaProc cell c preamble = some c') : Ordered cell c' := by
  unfold initiateRaProc at initiated
  split at initiated
  · rename_i i found
    have taken := List.find?_some found
    have idle : (c.enb.ra i).state = .idle := of_decide_eq_true taken
    obtain ⟨offset, known, initiated⟩ := Option.bind_eq_some_iff.mp initiated
    obtain ⟨rnti, drawn, last⟩ := Option.bind_eq_some_iff.mp initiated
    cases last
    obtain ⟨unused, large⟩ := drawRnti_accepted drawn
    obtain ⟨ahead, few⟩ := msg2Offset_ahead known
    constructor
    case frame => exact ordered.frame
    case subframe => exact ordered.subframe
    case distinct =>
      refine ordered.distinct.start State.noConfusion
        (Nat.ne_of_gt (Nat.lt_of_lt_of_le (by decide) large)) unused ?_ 0
      intro j active same
      exact fresh i j idle active (drawn.trans (congrArg some same.symm))
    case onTime =>
      intro j msg2
      by_cases own : j = i
      · subst own
        rw [Enb.setRa_self]
        refine ⟨offset - preamble.lag, (Nat.sub_le ..).trans few, ?_⟩
        exact Time.back_add ordered.frame ordered.subframe (early.trans ahead)
          (early.trans (ahead.trans (few.trans (by decide))))
      · rw [Enb.setRa_other _ _ own] at msg2 ⊢
        exact ordered.onTime j msg2
  · cases initiated
    refine ordered.proceeds (.of_evolves ?_ ?_ rfl) rfl
    · show Evolves c.enb (if _ then _ else _)
      split
      · exact fun i => .inr ⟨rfl, rfl⟩
      · exact .refl _
    · show (if _ then clearRaProc c.enb else c.enb).ueList = _
      split <;> rfl

theorem scheduleRa_ordered {answers : Fin raProcMax → Answer} {enb : Enb} (ordered : Ordered cell c)
    (served : ∀ i, (c.enb.ra i).state = .msg2 → (c.enb.ra i).msg2 = c.now.toTime →
      (answers i).feasible = true ∧ isUlSf cell c.now.subframe = some false)
    (scheduled : scheduleRa cell c.now answers c.enb = some enb) :
    Ordered cell { c with enb := enb, now := c.now.tick } := by
  obtain ⟨ras, users, left⟩ : Evolves c.enb enb ∧ enb.ueList = c.enb.ueList ∧
      ∀ j, (enb.ra j).state = .msg2 → (enb.ra j).msg2 ≠ c.now.toTime := by
    obtain ⟨uplink, known, scheduled⟩ := Option.bind_eq_some_iff.mp scheduled
    cases uplink with
    | true =>
      cases scheduled
      refine ⟨.refl _, rfl, fun j msg2 time => ?_⟩
      cases known.symm.trans (served j msg2 time).2
    | false =>
      obtain ⟨ras, users, left⟩ :=
        raTurns_evolves (fun j msg2 time => (served j msg2 time).1) scheduled
      exact ⟨ras, users, fun j => left j (List.mem_finRange j)⟩
  constructor
  case frame => exact Nat.mod_lt _ (by decide)
  case subframe => exact Nat.mod_lt _ (by decide)
  case distinct => exact ordered.distinct.proceeds (.of_evolves ras users rfl)
  case onTime =>
    intro i msg2
    obtain moves | ended := ras i
    · obtain ⟨before, same⟩ := moves.msg2 msg2
      obtain ⟨ahead, few, time⟩ := ordered.onTime i before
      cases ahead with
      | zero =>
        rw [Time.addSubframe_zero ordered.frame ordered.subframe] at time
        exact absurd (same.trans time) (left i msg2)
      | succ ahead =>
        refine ⟨ahead, Nat.le_of_succ_le few, ?_⟩
        rw [Now.tick_add]
        exact same.trans time
    · cases msg2.symm.trans ended.state

end Steps

/-- The condition on a step: a preamble draws an RNTI that no active process has, every Msg2
that is due falls into a downlink subframe with room for its DCI, and no Msg3 hands its
procedure over to another UE. -/
def Undisturbed (cell : Cell) (c : Carrier) : Event → Prop
  | .preamble preamble => ∀ i j, (c.enb.ra i).state = .idle → (c.enb.ra j).state ≠ .idle →
      drawRnti cell c.enb.ueList preamble.taus ≠ some (c.enb.ra j).rnti
  | .schedule answers => ∀ i, (c.enb.ra i).state = .msg2 → (c.enb.ra i).msg2 = c.now.toTime →
      (answers i).feasible = true ∧ isUlSf cell c.now.subframe = some false
  | .receive reception => reception.Own cell c
  | .cancel _ => True
  | .harq _ _ _ => True

section Run
variable {cell : Cell} {c c' : Carrier}

theorem raStep_ordered {event : Event} (ordered : Ordered cell c)
    (undisturbed : Undisturbed cell c event)
    (stepped : raStep cell c event = some c') : Ordered cell c' := by
  cases event with
  | preamble preamble =>
    simp only [raStep] at stepped
    split at stepped
    · exact initiateRaProc_ordered ordered ‹_› undisturbed stepped
    · cases stepped
  | schedule answers =>
    obtain ⟨enb, scheduled, last⟩ := Option.bind_eq_some_iff.mp stepped
    cases last
    exact scheduleRa_ordered ordered undisturbed scheduled
  | receive reception =>
    obtain ⟨proceeds, now⟩ := rxSdu_proceeds undisturbed stepped
    exact ordered.proceeds proceeds now
  | cancel rnti =>
    cases stepped
    exact ordered.proceeds (.cancel _ _) rfl
  | harq ue pid round =>
    cases stepped
    exact ordered.proceeds (.of_evolves (.of_eq rfl) rfl rfl) rfl

/-- A carrier before the first preamble; there may be UEs already. -/
structure Idle (c : Carrier) : Prop where
  frame : c.now.frame < 1024
  subframe : c.now.subframe < 10
  state : ∀ i, (c.enb.ra i).state = .idle
  rnti : ∀ i, (c.enb.ra i).rnti = 0

theorem Idle.ordered (idle : Idle c) : Ordered cell c where
  frame := idle.frame
  subframe := idle.subframe
  distinct := ⟨fun i _ => idle.rnti i, fun i active => absurd (idle.state i) active,
    fun i _ _ active => absurd (idle.state i) active, fun i active => absurd (idle.state i) active⟩
  onTime i msg2 := by cases (idle.state i).symm.trans msg2

/-- In every undisturbed run the processes stay distinct and on time. -/
theorem raRun_orderly {events : List Event} (idle : Idle c)
    (undisturbed : Run.Meets (raStep cell) (Undisturbed cell) c events)
    (ran : Run.run (raStep cell) c events = some c') :
    Orderly cell c' :=
  (Run.run_keeps (fun _ _ _ ordered met stepped => raStep_ordered ordered met stepped) idle.ordered
    undisturbed ran).orderly

end Run

/-- The scheduler is at subframe 4, the receiver at subframe 0. -/
def freshCarrier : Carrier where
  enb := freshEnb
  now := ⟨⟨0, 4⟩, 0⟩
  failureCnt := 0
  creator _ := none

/-- A preamble of the subframe that is received; the generator brings 5000. -/
def preamble5000 : Event := .preamble ⟨4, 0, 0, 1, fun _ => 5000⟩

theorem raRun_orderly_msg2 : ∃ c', Run.run (raStep fddCell) freshCarrier
      [preamble5000, .schedule allFeasible, .schedule allFeasible] = some c' ∧
    (c'.enb.ra 0).state = .waitMsg3 ∧ Orderly fddCell c' := by
  have idle : Idle freshCarrier := ⟨by decide, by decide, fun _ => rfl, fun _ => rfl⟩
  have feasible : ∀ c, Undisturbed fddCell c (.schedule allFeasible) := fun _ _ _ _ => ⟨rfl, rfl⟩
  have undisturbed : Run.Meets (raStep fddCell) (Undisturbed fddCell) freshCarrier
      [preamble5000, .schedule allFeasible, .schedule allFeasible] :=
    ⟨fun _ _ _ active => absurd rfl active,
      fun _ _ => ⟨feasible _, fun _ _ => ⟨feasible _, fun _ _ => trivial⟩⟩⟩
  exact ⟨_, rfl, rfl, raRun_orderly idle undisturbed rfl⟩

/-- Two preambles one subframe apart, and the generator brings the same value twice. -/
theorem raRun_same_rnti : Idle freshCarrier ∧ ∃ c', Run.run (raStep fddCell) freshCarrier
      [preamble5000, .schedule allFeasible, preamble5000] = some c' ∧ ¬ Orderly fddCell c' := by
  refine ⟨⟨by decide, by decide, fun _ => rfl, fun _ => rfl⟩, _, rfl, fun orderly => ?_⟩
  exact orderly.distinct 0 1 (by decide) (by decide) (by decide) rfl

end OpenAir.Mac.Ra
