import OpenAir.Lib.Run
import OpenAir.Rlc.Am.TxFrame

/-! The transmitting window over whole runs: every operation of the transmitting side, in
any order, keeps VT(A), VT(S) and VT(MS) in order and never reuses a live slot. -/
namespace OpenAir.Rlc.Am
open BitField Serial

/-- The inputs of the transmitting side: an SDU of the upper layer, a grant of the MAC
layer, a STATUS PDU of the peer, a check of the poll timer. -/
inductive TxOp where
  | dataReq (bytes : Memory) (size mui : Nat)
  | getPdus (grant : Int) (alloc : Allocation) (now : Nat)
  | receiveControlPdu (mem : Memory) (tbSize : Int)
  | checkTimerPollRetransmit (now : Nat)

/-- One operation; `none` would be a loop that does not end. -/
def txStep (tx : Tx) : TxOp → Option Tx
  | .dataReq bytes size mui => some (dataReq tx bytes size mui)
  | .getPdus grant alloc now =>
    some (getPdus { tx with nbBytesRequestedByMac := grant } alloc now).1
  | .receiveControlPdu mem tbSize => (receiveProcessControlPdu tx mem tbSize).map ControlResult.tx
  | .checkTimerPollRetransmit now => some (checkTimerPollRetransmit tx now)

/-- The parameters set by `rlc_am_configure`. -/
structure TxConfig where
  maxRetxThreshold : Nat
  pollPdu : Nat
  pollByte : Nat
  tPollRetransmit : Nat

/-- `rlc_am_init` and `rlc_am_configure`, as far as the transmitting side goes. -/
def txInit (config : TxConfig) : Tx where
  vtA := 0
  vtS := 0
  vtMs := windowSize
  maxRetxThreshold := config.maxRetxThreshold
  pollPdu := config.pollPdu
  pollByte := config.pollByte
  tPollRetransmit := { msDuration := config.tPollRetransmit }

def Tx.inFlight (tx : Tx) (sn : Nat) : Prop := sn < snModulo ∧
    diffSn sn tx.vtA < diffSn tx.vtS tx.vtA

/-- The invariant of the window. A slot that belongs to no SN in flight has no block,
which is what makes the walk refuse a NACK beyond VT(S). -/
structure TxWindow (tx : Tx) : Prop where
  vtA : tx.vtA < snModulo
  vtS : tx.vtS < snModulo
  vtMs : tx.vtMs = (tx.vtA + windowSize) % snModulo
  ordered : diffSn tx.vtS tx.vtA ≤ diffSn tx.vtMs tx.vtA
  recorded : ∀ sn, tx.inFlight sn → (tx.pdu sn).sn = sn
  owned : ∀ sn, tx.inFlight sn → (tx.pdu sn).ack = false → (tx.pdu sn).memBlock.isSome
  free : ∀ i, (∀ sn, tx.inFlight sn → sn % windowSize ≠ i) → (tx.txDataPduBuffer i).memBlock = none

theorem txInit_idle (config : TxConfig) (sn : Nat) : ¬ (txInit config).inFlight sn := by
  rintro ⟨-, short⟩
  have none : diffSn (txInit config).vtS (txInit config).vtA = 0 := dist_self snModulo 0
  rw [none] at short
  exact Nat.not_lt_zero _ short

theorem txInit_window (config : TxConfig) : TxWindow (txInit config) where
  vtA := Nat.mod_lt 0 (by decide)
  vtS := Nat.mod_lt 0 (by decide)
  vtMs := (Nat.mod_eq_of_lt (by decide : windowSize < snModulo)).symm
  ordered := by
    rw [show diffSn (txInit config).vtS (txInit config).vtA = 0 from dist_self snModulo 0]
    exact Nat.zero_le _
  recorded sn flight := absurd flight (txInit_idle config sn)
  owned sn flight := absurd flight (txInit_idle config sn)
  free _ _ := rfl

theorem diffSn_vtMs {vtA : Nat} (base : vtA < snModulo) :
    diffSn ((vtA + windowSize) % snModulo) vtA = windowSize :=
  dist_add base (by decide)

/-- Within half of the SN space an SN is known by its slot. -/
theorem slot_inj {vtA sn other : Nat} (base : vtA < snModulo) (valid : sn < snModulo)
    (otherValid : other < snModulo)
    (near : diffSn sn vtA < windowSize) (otherNear : diffSn other vtA < windowSize)
    (same : sn % windowSize = other % windowSize) : sn = other := by
  rw [diffSn_eq, dist_eq base valid] at near
  rw [diffSn_eq, dist_eq base otherValid] at otherNear
  simp only [snModulo, windowSize] at base valid otherValid near otherNear same
  split at near <;> split at otherNear <;> omega

/-- What any operation does to the slots: an SN in flight that is not acknowledged keeps
its own unless a STATUS PDU acknowledges it, and a new SN is not acknowledged yet. -/
structure Keeps (tx : Tx) (op : TxOp) (tx' : Tx) : Prop where
  live : ∀ sn, tx.inFlight sn → (tx.pdu sn).ack = false →
    (tx'.pdu sn).sn = sn ∧
    ((tx'.pdu sn).ack = false ∧ (tx'.pdu sn).memBlock = (tx.pdu sn).memBlock ∨
      (∃ mem tbSize, op = .receiveControlPdu mem tbSize) ∧ (tx'.pdu sn).ack = true)
  fresh : ∀ sn, tx'.inFlight sn → ¬ tx.inFlight sn → (tx'.pdu sn).ack = false

section Acknowledge

variable {tx tx' : Tx} {acked : List Nat}

theorem Acks.inFlight_iff (acks : Acks acked tx tx') (sn : Nat) : tx'.inFlight sn ↔
    tx.inFlight sn := by
  rw [Tx.inFlight, Tx.inFlight, acks.vtA, acks.vtS]

theorem TxWindow.of_acks (window : TxWindow tx) (acks : Acks acked tx tx') : TxWindow tx' := by
  have flight := acks.inFlight_iff
  constructor
  · rw [acks.vtA]; exact window.vtA
  · rw [acks.vtS]; exact window.vtS
  · rw [acks.vtMs, acks.vtA]; exact window.vtMs
  · rw [acks.vtS, acks.vtA, acks.vtMs]; exact window.ordered
  · intro sn inside
    exact (acks.sn _).trans (window.recorded sn ((flight sn).mp inside))
  · intro sn inside unmarked
    have spared : ¬ ∃ x ∈ acked, x % windowSize = sn % windowSize := by
      intro taken
      have marked := acks.marked _ taken
      rw [Tx.pdu, marked] at unmarked
      contradiction
    obtain ⟨mark, block⟩ := acks.kept _ spared
    rw [Tx.pdu, block]
    exact window.owned sn ((flight sn).mp inside) (mark ▸ unmarked)
  · intro i unused
    exact acks.gone i (window.free i fun sn inside => unused sn ((flight sn).mpr inside))

theorem Keeps.of_acks (window : TxWindow tx) (acks : Acks [] tx tx')
    (op : TxOp) : Keeps tx op tx' where
  live sn inside unmarked := by
    obtain ⟨mark, block⟩ := acks.kept (sn % windowSize) (by simp)
    exact ⟨(acks.sn _).trans (window.recorded sn inside), Or.inl ⟨mark.trans unmarked, block⟩⟩
  fresh sn inside absent := absurd ((acks.inFlight_iff sn).mp inside) absent

theorem Keeps.of_control (window : TxWindow tx) (acks : Acks acked tx tx')
    (mem : Memory) (tbSize : Int)
    {after : Tx} (slots : after.txDataPduBuffer = tx'.txDataPduBuffer)
    (fewer : ∀ sn, after.inFlight sn → tx'.inFlight sn) :
    Keeps tx (.receiveControlPdu mem tbSize) after where
  live sn inside unmarked := by
    have same : after.pdu sn = tx'.pdu sn := by rw [Tx.pdu, Tx.pdu, slots]
    rw [same]
    refine ⟨(acks.sn _).trans (window.recorded sn inside), ?_⟩
    by_cases taken : ∃ x ∈ acked, x % windowSize = sn % windowSize
    · exact Or.inr ⟨⟨mem, tbSize, rfl⟩, acks.marked _ taken⟩
    · obtain ⟨mark, block⟩ := acks.kept _ taken
      exact Or.inl ⟨mark.trans unmarked, block⟩
  fresh sn inside absent := absurd ((acks.inFlight_iff sn).mp (fewer sn inside)) absent

end Acknowledge

section Advance

variable {tx tx' : Tx} {acked : List Nat} {vtANew : Nat}

/-- VT(A) moves ahead over SNs whose blocks were freed. -/
theorem TxWindow.advance (window : TxWindow tx) (acks : Acks acked tx tx')
    (valid : vtANew < snModulo)
    (ahead : diffSn vtANew tx.vtA ≤ diffSn tx.vtS tx.vtA)
    (freed : ∀ sn ∈ span snModulo tx.vtA (diffSn vtANew tx.vtA), (tx'.pdu sn).memBlock = none)
    {after : Tx}
    (vtA : after.vtA = vtANew) (vtMs : after.vtMs = (vtANew + windowSize) % snModulo)
    (vtS : after.vtS = tx'.vtS) (slots : after.txDataPduBuffer = tx'.txDataPduBuffer) :
    TxWindow after ∧ ∀ sn, after.inFlight sn → tx'.inFlight sn := by
  have kept := window.of_acks acks
  have moved (sn : Nat) (snValid : sn < snModulo)
    (beyond : diffSn vtANew tx.vtA ≤ diffSn sn tx.vtA) :
      diffSn sn vtANew = diffSn sn tx.vtA - diffSn vtANew tx.vtA :=
    dist_rebase window.vtA valid snValid beyond
  have last : diffSn after.vtS after.vtA = diffSn tx.vtS tx.vtA - diffSn vtANew tx.vtA := by
    rw [vtS, vtA, acks.vtS]
    exact moved tx.vtS window.vtS ahead
  have pdu (sn : Nat) : after.pdu sn = tx'.pdu sn := by rw [Tx.pdu, Tx.pdu, slots]
  have flight (sn : Nat) (inside : after.inFlight sn) : tx'.inFlight sn := by
    obtain ⟨snValid, short⟩ := inside
    refine ⟨snValid, ?_⟩
    rw [last, vtA] at short
    rw [acks.vtA, acks.vtS]
    by_cases beyond : diffSn vtANew tx.vtA ≤ diffSn sn tx.vtA
    · rw [moved sn snValid beyond] at short
      omega
    · omega
  refine ⟨?_, flight⟩
  constructor
  · rw [vtA]; exact valid
  · rw [vtS]; exact kept.vtS
  · rw [vtMs, vtA]
  · rw [last, vtMs, vtA, diffSn_vtMs valid]
    have ordered := window.ordered
    rw [window.vtMs, diffSn_vtMs window.vtA] at ordered
    omega
  · intro sn inside
    rw [pdu]
    exact kept.recorded sn (flight sn inside)
  · intro sn inside
    rw [pdu]
    exact kept.owned sn (flight sn inside)
  · intro i unused
    rw [slots]
    by_cases used : ∃ sn, tx'.inFlight sn ∧ sn % windowSize = i
    · obtain ⟨sn, inside, rfl⟩ := used
      apply freed sn
      apply (mem_span window.vtA (Nat.le_of_lt (dist_lt window.vtA)) inside.1).mpr
      -- An SN still in flight would use the slot.
      by_contra beyond
      have beyond : diffSn vtANew tx.vtA ≤ diffSn sn tx.vtA := Nat.le_of_not_lt beyond
      refine unused sn ⟨inside.1, ?_⟩ rfl
      have short := inside.2
      rw [acks.vtA, acks.vtS] at short
      rw [last, vtA, moved sn inside.1 beyond]
      omega
    · exact kept.free i fun sn inside same => used ⟨sn, inside, same⟩

end Advance

section Control

/-- A NACK that finds no block ends the loop with an error. -/
theorem walkUntil_refused {ackSn rounds : Nat} {w last : Walk} {nack : NackSn} {rest : List NackSn}
    (pending : w.pending = nack :: rest) (here : w.snCursor = nack.nackSn)
    (away : w.snCursor ≠ ackSn)
    (absent : (w.tx.pdu nack.nackSn).memBlock = none)
    (ends : walkUntil ackSn (rounds + 1) w = some last) :
    last.status = false := by
  have stopped : (w.taken ackSn nack rest).status = false := by
    unfold Walk.taken nackPdu
    simp only [absent, Option.isSome_none, Bool.false_eq_true, if_false]
    split <;> rfl
  rw [walkUntil] at ends
  split at ends
  · rename_i beyond
    obtain arrived | refused := beyond
    · exact absurd arrived away
    · cases ends
      exact refused
  · rw [walkStep_nack pending here away] at ends
    have beyond : (w.taken ackSn nack rest).snCursor = ackSn ∨
        (w.taken ackSn nack rest).status = false :=
      Or.inr stopped
    cases rounds with
    | zero =>
      simp only [walkUntil, if_pos beyond] at ends
      cases ends
      exact stopped
    | succ rounds =>
      simp only [walkUntil, if_pos beyond] at ends
      cases ends
      exact stopped

/-- A first NACK beyond VT(S) is refused: the walk to it has freed every block its slot could
hold. -/
theorem walkWindow_refused {tx : Tx} (window : TxWindow tx) {info : ControlPduInfo}
    (nackValid : ∀ nack ∈ info.nackList, nack.nackSn < snModulo) {nack : NackSn}
    {rest : List NackSn}
    (list : info.nackList = nack :: rest)
    (within : diffSn info.ackSn tx.vtA ≤ diffSn tx.vtS tx.vtA)
    (beyond : diffSn tx.vtS tx.vtA < diffSn nack.nackSn tx.vtA) {r : WalkResult}
    (ends : walkWindow tx info = some r) : r.status = false := by
  have valid : nack.nackSn < snModulo := nackValid nack (by rw [list]; exact List.mem_cons_self)
  have turn : diffSn nack.nackSn tx.vtA ≤ snModulo := Nat.le_of_lt (dist_lt window.vtA)
  obtain ⟨after, first, acks, freed⟩ := @ackUntil_spec nack.nackSn snModulo
    ⟨tx, tx.vtA, [], nack :: rest, 0x3FFF, true⟩ window.vtA valid turn
  have absent : (after.pdu nack.nackSn).memBlock = none := by
    by_cases used : ∃ sn, tx.inFlight sn ∧ sn % windowSize = nack.nackSn % windowSize
    · obtain ⟨sn, inside, same⟩ := used
      have gone := freed sn ((mem_span window.vtA turn inside.1).mpr (inside.2.trans beyond))
      rwa [Tx.pdu, same] at gone
    · exact acks.gone _ (window.free _ fun sn inside same => used ⟨sn, inside, same⟩)
  have away : nack.nackSn ≠ info.ackSn := by
    intro same
    rw [same] at beyond
    omega
  rw [walkWindow, list] at ends
  simp only [first, Option.bind_some, Option.map_eq_some_iff] at ends
  obtain ⟨last, walked, rfl⟩ := ends
  exact walkUntil_refused rfl rfl away absent walked

theorem controlPdu_window {tx : Tx} (window : TxWindow tx) (mem : Memory) (tbSize : Int) :
    ∃ tx', txStep tx (.receiveControlPdu mem tbSize) = some tx' ∧ TxWindow tx' ∧
      Keeps tx (.receiveControlPdu mem tbSize) tx' := by
  have unchanged : TxWindow tx ∧ Keeps tx (.receiveControlPdu mem tbSize) tx :=
    ⟨window, Keeps.of_acks window (Acks.refl tx) _⟩
  by_cases accepted : (getControlPduInfos mem tbSize).ret ≥ 0
  · by_cases fewer : (getControlPduInfos mem tbSize).info.nackList.length < maxNackInStatusPdu
    · by_cases within : diffSn (getControlPduInfos mem tbSize).info.ackSn tx.vtA ≤
        diffSn tx.vtS tx.vtA
      · obtain ⟨ackValid, nackValid⟩ := getControlPduInfos_valid mem tbSize
        obtain ⟨walk, ends, acks, -, freed, -, noNack, someNack⟩ :=
          walkWindow_spec tx _ window.vtA ackValid nackValid
        obtain ⟨walk', out, ends', process, -, -, slots, vtS, vtA, vtMs⟩ :=
          receiveProcessControlPdu_spec tx mem tbSize window.vtA accepted fewer within
        obtain rfl : walk = walk' := Option.some.inj (ends.symm.trans ends')
        have settled (result : TxWindow out.tx ∧ ∀ sn, out.tx.inFlight sn → walk.tx.inFlight sn) :
            TxWindow out.tx ∧ Keeps tx (.receiveControlPdu mem tbSize) out.tx :=
          ⟨result.1, Keeps.of_control window acks mem tbSize slots result.2⟩
        refine ⟨out.tx, by rw [txStep, process, Option.map_some], settled ?_⟩
        cases status : walk.status with
        | false =>
          simp only [status, Bool.false_eq_true, if_false] at vtA vtMs
          have same := SameWindow.acks ⟨vtA, vtS, vtMs, slots⟩
          exact ⟨(window.of_acks acks).of_acks same, fun sn => (same.inFlight_iff sn).mp⟩
        | true =>
          simp only [status, if_true] at vtA vtMs
          cases list : (getControlPduInfos mem tbSize).info.nackList with
          | nil =>
            have new := noNack list
            refine window.advance acks ?_ ?_ freed vtA vtMs vtS slots
            · rw [new]; exact ackValid
            · rw [new]; exact within
          | cons nack rest =>
            have new := someNack nack rest list
            refine window.advance acks ?_ ?_ freed vtA vtMs vtS slots
            · rw [new]
              exact nackValid nack (by rw [list]; exact List.mem_cons_self)
            · rw [new]
              by_contra beyond
              have refused :=
                walkWindow_refused window nackValid list within (Nat.lt_of_not_le beyond) ends
              rw [status] at refused
              contradiction
      · refine ⟨tx, ?_, unchanged⟩
        have legal : ¬ ((getControlPduInfos mem tbSize).info.ackSn ≥ snModulo ∨
            (getControlPduInfos mem tbSize).info.nackList.length ≥ maxNackInStatusPdu) := by
          have := (getControlPduInfos_valid mem tbSize).1
          omega
        simp [txStep, receiveProcessControlPdu, accepted, legal, within]
    · refine ⟨tx, ?_, unchanged⟩
      have full : (getControlPduInfos mem tbSize).info.ackSn ≥ snModulo ∨
          (getControlPduInfos mem tbSize).info.nackList.length ≥ maxNackInStatusPdu :=
            Or.inr (Nat.le_of_not_lt fewer)
      simp only [txStep, receiveProcessControlPdu, accepted, if_true, full, Option.map_some]
  · refine ⟨tx, ?_, unchanged⟩
    simp only [txStep, receiveProcessControlPdu, accepted, if_false, Option.map_some]

end Control

section NewPdu

/-- A new PDU takes the slot of VT(S), which no SN in flight uses. -/
theorem TxWindow.newPdu {tx filled : Tx} {pdu : TxPdu} (window : TxWindow tx)
    (room : tx.vtS ≠ tx.vtMs)
    (same : SameWindow { tx with vtS := nextSn tx.vtS } filled) (unmarked : pdu.ack = false)
    (block : pdu.memBlock.isSome) (sn : pdu.sn = prevSn filled.vtS) (op : TxOp) :
    TxWindow (filled.setPdu tx.vtS pdu) ∧ Keeps tx op (filled.setPdu tx.vtS pdu) := by
  have base := window.vtA
  have ordered := window.ordered
  have limit : (tx.vtA + windowSize) % snModulo < snModulo := Nat.mod_lt _ (by decide)
  have short : diffSn tx.vtS tx.vtA < windowSize := by
    rw [window.vtMs, diffSn_vtMs base] at ordered
    rcases Nat.lt_or_eq_of_le ordered with short | full
    · exact short
    · have arrived := dist_inj base window.vtS limit (full.trans (diffSn_vtMs base).symm)
      exact absurd (arrived.trans window.vtMs.symm) room
  have moved : diffSn (nextSn tx.vtS) tx.vtA = diffSn tx.vtS tx.vtA + 1 :=
    dist_succ base window.vtS (Nat.lt_of_le_of_lt (Nat.succ_le_of_lt short) (by decide))
  have vtS : filled.vtS = nextSn tx.vtS := same.vtS
  have vtA : filled.vtA = tx.vtA := same.vtA
  have vtMs : filled.vtMs = tx.vtMs := same.vtMs
  have slots : filled.txDataPduBuffer = tx.txDataPduBuffer := same.slots
  have own : pdu.sn = tx.vtS := by
    rw [sn, vtS]
    have := window.vtS
    simp only [prevSn, nextSn, snModulo] at this ⊢
    omega
  have stored : (filled.setPdu tx.vtS pdu).pdu tx.vtS = pdu := by simp [Tx.setPdu, Tx.pdu]
  have other (x : Nat) (inside : tx.inFlight x) : (filled.setPdu tx.vtS pdu).pdu x = tx.pdu x := by
    have apart : x % windowSize ≠ tx.vtS % windowSize := by
      intro clash
      obtain ⟨valid, before⟩ := inside
      have equal := slot_inj base valid window.vtS (before.trans short) short clash
      rw [equal] at before
      exact Nat.lt_irrefl _ before
    simp [Tx.setPdu, Tx.pdu, apart, slots]
  have flight (x : Nat) : (filled.setPdu tx.vtS pdu).inFlight x ↔ tx.inFlight x ∨ x = tx.vtS := by
    show x < snModulo ∧ diffSn x filled.vtA < diffSn filled.vtS filled.vtA ↔ _
    rw [vtA, vtS, moved]
    constructor
    · rintro ⟨valid, before⟩
      rcases Nat.lt_or_eq_of_le (Nat.le_of_lt_succ before) with earlier | here
      · exact Or.inl ⟨valid, earlier⟩
      · exact Or.inr (dist_inj base valid window.vtS here)
    · rintro (⟨valid, before⟩ | rfl)
      · exact ⟨valid, Nat.lt_succ_of_lt before⟩
      · exact ⟨window.vtS, Nat.lt_succ_self _⟩
  refine ⟨⟨?_, ?_, ?_, ?_, ?_, ?_, ?_⟩, ?_, ?_⟩
  · exact vtA ▸ base
  · exact vtS ▸ nextSn_lt _
  · show filled.vtMs = (filled.vtA + windowSize) % snModulo
    rw [vtMs, vtA, window.vtMs]
  · show diffSn filled.vtS filled.vtA ≤ diffSn filled.vtMs filled.vtA
    rw [vtS, vtA, vtMs, moved, window.vtMs, diffSn_vtMs base]
    exact short
  · intro x inside
    rcases (flight x).mp inside with old | rfl
    · rw [other x old]
      exact window.recorded x old
    · rw [stored]
      exact own
  · intro x inside
    rcases (flight x).mp inside with old | rfl
    · rw [other x old]
      exact window.owned x old
    · rw [stored]
      exact fun _ => block
  · intro i unused
    have apart : i ≠ tx.vtS % windowSize :=
      fun same => unused tx.vtS ((flight _).mpr (Or.inr rfl)) same.symm
    have empty := window.free i fun x inside => unused x ((flight x).mpr (Or.inl inside))
    simpa [Tx.setPdu, apart, slots] using empty
  · intro x inside live
    rw [other x inside]
    exact ⟨window.recorded x inside, Or.inl ⟨live, rfl⟩⟩
  · intro x inside absent
    rcases (flight x).mp inside with old | rfl
    · exact absurd old absent
    · rw [stored]
      exact unmarked

theorem getPdus_window {tx : Tx} (window : TxWindow tx) (grant : Int)
    (alloc : Allocation) (now : Nat) :
    ∃ tx', txStep tx (.getPdus grant alloc now) = some tx' ∧ TxWindow tx' ∧
      Keeps tx (.getPdus grant alloc now) tx' := by
  refine ⟨_, rfl, ?_⟩
  have granted : Acks [] tx { tx with nbBytesRequestedByMac := grant } :=
    SameWindow.acks ⟨rfl, rfl, rfl, rfl⟩
  generalize { tx with nbBytesRequestedByMac := grant } = start at granted
  unfold getPdus
  -- The search for a retransmission comes first, and touches marks and blocks of no slot.
  generalize tried :
      (if start.retransNumBytesToRetransmit ≠ 0 ∧ start.nbBytesRequestedByMac > 2 then
    getPduToRetransmit start alloc.allocated now else (start, none)) = search
  have searched : Acks [] tx search.1 := by
    rw [← tried]
    split
    · exact granted.trans (getPduToRetransmit_acks start alloc.allocated now)
    · exact granted
  obtain ⟨next, emitted⟩ := search
  have kept := Keeps.of_acks window searched (.getPdus grant alloc now)
  cases emitted with
  | some out => exact ⟨window.of_acks searched, kept⟩
  | none =>
    simp only
    split
    · rename_i room
      rcases segment10_window next alloc.block alloc.copied now
        with none | ⟨filled, pdu, same, mark, block, sn, result⟩
      · rw [none]
        exact ⟨window.of_acks searched, kept⟩
      · rw [result]
        obtain ⟨inv, keeps⟩ := (window.of_acks searched).newPdu room.2.2 same mark block sn
          (.getPdus grant alloc now)
        have still := searched.inFlight_iff
        refine ⟨inv, fun x inside unmarked => ?_, fun x inside absent => ?_⟩
        · obtain ⟨-, before⟩ := kept.live x inside unmarked
          rcases before with ⟨mark, same⟩ | ⟨⟨_, _, clash⟩, _⟩
          · obtain ⟨recorded, after⟩ := keeps.live x ((still x).mpr inside) mark
            rcases after with ⟨mark', same'⟩ | ⟨⟨_, _, clash⟩, _⟩
            · exact ⟨recorded, Or.inl ⟨mark', same'.trans same⟩⟩
            · cases clash
          · cases clash
        · exact keeps.fresh x inside fun old => absent ((still x).mp old)
    · exact ⟨window.of_acks searched, kept⟩

end NewPdu

/-- No operation ends without the invariant or gives away a live slot. -/
theorem txStep_window {tx : Tx} (window : TxWindow tx) (op : TxOp) :
    ∃ tx', txStep tx op = some tx' ∧ TxWindow tx' ∧ Keeps tx op tx' := by
  cases op with
  | dataReq bytes size mui =>
    have acks := (dataReq_sameWindow tx bytes size mui).acks
    exact ⟨_, rfl, window.of_acks acks, Keeps.of_acks window acks _⟩
  | getPdus grant alloc now => exact getPdus_window window grant alloc now
  | receiveControlPdu mem tbSize => exact controlPdu_window window mem tbSize
  | checkTimerPollRetransmit now =>
    have acks := checkTimerPollRetransmit_acks tx now
    exact ⟨_, rfl, window.of_acks acks, Keeps.of_acks window acks _⟩

end OpenAir.Rlc.Am
