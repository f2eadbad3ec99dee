import OpenAir.Rlc.Am.StatusRefusal

/-! What a STATUS PDU may acknowledge. The walk trusts the order of the NACKs up to the first one
that is refused: it is safe on the reports whose NACKs before that place come in the order of the
window. -/
namespace OpenAir.Rlc.Am
open BitField Serial

/-- The NACKs the walk takes up, from the distance `from` on: the leading ones that
come in order and before ACK_SN, which lies at `limit`. -/
@[grind =]
def reached (vtA limit : Nat) : Nat → List NackSn → List Nat
  | _, [] => []
  | start, nack :: rest =>
    if start ≤ diffSn nack.nackSn vtA ∧ diffSn nack.nackSn vtA < limit then
      nack.nackSn :: reached vtA limit (diffSn nack.nackSn vtA) rest
    else
      []

theorem reached_ge {vtA limit start sn : Nat} {nacks : List NackSn}
    (member : sn ∈ reached vtA limit start nacks) : start ≤ diffSn sn vtA := by
  induction nacks generalizing start with
  | nil => simp [reached] at member
  | cons nack rest ih =>
    rw [reached] at member
    split at member
    · rename_i inOrder
      obtain rfl | later := List.mem_cons.mp member
      · exact inOrder.1
      · exact inOrder.1.trans (ih later)
    · simp at member

/-- Passing a distance at which no NACK stands loses none of those ahead. -/
theorem reached_succ {vtA limit start : Nat} {nacks : List NackSn}
    (other : ∀ nack rest, nacks = nack :: rest → diffSn nack.nackSn vtA ≠ start) :
    reached vtA limit start nacks = reached vtA limit (start + 1) nacks := by
  cases nacks with
  | nil => rfl
  | cons nack rest =>
    have away := other nack rest rfl
    simp only [reached]
    congr 1
    rw [eq_iff_iff]
    omega

theorem reached_takes {vtA limit : Nat} {nack : NackSn} {rest : List NackSn}
    (short : diffSn nack.nackSn vtA < limit) :
    reached vtA limit (diffSn nack.nackSn vtA) (nack :: rest) =
      nack.nackSn :: reached vtA limit (diffSn nack.nackSn vtA) rest := by
  rw [reached, if_pos ⟨Nat.le_refl _, short⟩]

/-- With another NACK behind it, an SN is still ahead. -/
theorem reached_another {vtA limit sn : Nat} {rest : List NackSn} (short : diffSn sn vtA < limit)
    (again : another sn rest) : sn ∈ reached vtA limit (diffSn sn vtA) rest := by
  cases rest with
  | nil => cases again
  | cons other others =>
    obtain rfl : other.nackSn = sn := Option.some.inj again
    rw [reached_takes short]
    exact List.mem_cons_self

section Slots

/-- The slots agree in what decides whether a NACK is taken. -/
structure SameTaking (p q : TxPdu) : Prop where
  block : p.memBlock.isSome = q.memBlock.isSome
  rest : p.memBlock.isSome = true →
    p.ack = q.ack ∧ p.maxRetransmit = q.maxRetransmit ∧ p.payloadSize = q.payloadSize

theorem SameTaking.trans {p q r : TxPdu} (left : SameTaking p q) (right : SameTaking q r) :
    SameTaking p r where
  block := left.block.trans right.block
  rest some := by
    obtain ⟨ack, lost, size⟩ := left.rest some
    obtain ⟨ack', lost', size'⟩ := right.rest (left.block ▸ some)
    exact ⟨ack.trans ack', lost.trans lost', size.trans size'⟩

theorem SameTaking.takes_iff {p q : TxPdu} (same : SameTaking p q) (taken : List NackSn)
    (nack : NackSn) :
    p.Takes taken nack ↔ q.Takes taken nack := by
  unfold TxPdu.Takes
  cases some : p.memBlock.isSome with
  | false =>
    rw [← same.block, some]
    exact iff_of_false (fun all => Bool.false_ne_true all.1) fun all => Bool.false_ne_true all.1
  | true =>
    obtain ⟨ack, lost, size⟩ := same.rest some
    have stop : p.rangeStop = q.rangeStop := by
      funext nack
      unfold TxPdu.rangeStop
      rw [size]
    rw [← same.block, some, ack, lost, size, stop]

theorem ackPdu_slot (tx : Tx) (sn : Nat) :
    ((ackPdu tx sn false).pdu sn).ack = true ∧
    ((ackPdu tx sn false).pdu sn).memBlock = (tx.pdu sn).memBlock ∧
    ((ackPdu tx sn false).pdu sn).maxRetransmit = (tx.pdu sn).maxRetransmit ∧
    ((ackPdu tx sn false).pdu sn).payloadSize = (tx.pdu sn).payloadSize := by
  unfold ackPdu
  simp only [Bool.false_eq_true, if_false]
  split
  · split
    · split
      · rename_i already
        rw [pdu_stored]
        exact ⟨already, rfl, rfl, rfl⟩
      · rw [pdu_stored]
        exact ⟨rfl, rfl, rfl, rfl⟩
    · rw [pdu_stored]
      exact ⟨rfl, rfl, rfl, rfl⟩
  · rw [pdu_stored]
    exact ⟨rfl, rfl, rfl, rfl⟩

theorem ackPdu_other (tx : Tx) {sn i : Nat} (freePdu : Bool) (other : i ≠ sn % windowSize) :
    (ackPdu tx sn freePdu).txDataPduBuffer i = tx.txDataPduBuffer i := by
  unfold ackPdu
  simp only
  repeat' split
  all_goals exact Function.update_of_ne other _ _

theorem ackUntil_other {stop rounds i : Nat} {w last : Walk} (valid : w.snCursor < snModulo)
    (stopValid : stop < snModulo)
    (ends : ackUntil stop rounds w = some last)
    (apart : ∀ sn ∈ span snModulo w.snCursor (diffSn stop w.snCursor), i ≠ sn % windowSize) :
    last.tx.txDataPduBuffer i = w.tx.txDataPduBuffer i := by
  induction rounds generalizing w with
  | zero =>
    rw [ackUntil] at ends
    split at ends
    · cases ends
      rfl
    · cases ends
  | succ rounds ih =>
    rw [ackUntil] at ends
    split at ends
    · cases ends
      rfl
    · rename_i away
      rw [(span_ahead valid stopValid away).2] at apart
      refine (ih (nextSn_lt _) ends fun sn member => apart sn (List.mem_cons_of_mem _ member)).trans
        ?_
      exact ackPdu_other w.tx true (apart _ List.mem_cons_self)

def otherSn (sn : Nat) : Nat := (sn + windowSize) % snModulo

theorem same_slot {sn x : Nat} (valid : sn < snModulo) (also : x < snModulo)
    (slot : x % windowSize = sn % windowSize) :
    x = sn ∨ x = otherSn sn := by
  simp only [otherSn, snModulo, windowSize] at valid also slot ⊢
  omega

theorem otherSn_slot {sn : Nat} : otherSn sn % windowSize = sn % windowSize := by
  simp only [otherSn, snModulo, windowSize]
  omega

theorem otherSn_lt (sn : Nat) : otherSn sn < snModulo := Nat.mod_lt _ (by decide)

/-- The slot of `sn` when the walk has passed so many SNs: those before the first NACK have given
their blocks back, those behind it are marked unless they are in the run of NACKs. -/
def slotBehind (tx : Tx) (first : Nat) (run : List Nat) (passed sn : Nat) : TxPdu :=
  if diffSn (otherSn sn) tx.vtA < passed then
    if diffSn (otherSn sn) tx.vtA < first then { tx.pdu sn with memBlock := none }
    else if otherSn sn ∈ run then tx.pdu sn
    else { tx.pdu sn with ack := true }
  else tx.pdu sn

variable {tx : Tx} {first c : Nat} {run : List Nat}

/-- One SN further on, which was not acknowledged in sequence. -/
theorem slotBehind_next (base : tx.vtA < snModulo) (valid : c < snModulo)
    (behind : first ≤ diffSn c tx.vtA)
    (sn : Nat) :
    slotBehind tx first run (diffSn c tx.vtA + 1) sn =
      if otherSn sn = c then if c ∈ run then tx.pdu sn else { tx.pdu sn with ack := true }
      else slotBehind tx first run (diffSn c tx.vtA) sn := by
  unfold slotBehind
  by_cases same : otherSn sn = c
  · rw [if_pos same, same, if_pos (Nat.lt_succ_self _), if_neg (Nat.not_lt.mpr behind)]
  · have apart : diffSn (otherSn sn) tx.vtA ≠ diffSn c tx.vtA := fun equal =>
      same (dist_inj base (otherSn_lt sn) valid equal)
    have step : diffSn (otherSn sn) tx.vtA < diffSn c tx.vtA + 1 ↔
        diffSn (otherSn sn) tx.vtA < diffSn c tx.vtA := by
      omega
    simp only [if_neg same, step]

theorem slotBehind_own {sn : Nat} (own : otherSn sn = c) :
    slotBehind tx first run (diffSn c tx.vtA) sn = tx.pdu sn := by
  unfold slotBehind
  rw [own, if_neg (Nat.lt_irrefl _)]

end Slots

section Stop

/-- The NACKs before one at `distance`, when these were all for the SN at `start`. -/
def takenAt (start distance : Nat) (taken : List NackSn) : List NackSn :=
  if distance = start then taken else []

/-- Where the walk meets a NACK that is refused: the distance of the first one in the run that
`slot` does not take behind those `taken` for the same SN, which is at the distance `start`. -/
def refusedAt (slot : Nat → TxPdu) (vtA limit : Nat) : Nat → List NackSn → List NackSn → Option Nat
  | _, _, [] => none
  | start, taken, nack :: rest =>
    if start ≤ diffSn nack.nackSn vtA ∧ diffSn nack.nackSn vtA < limit then
      if (slot nack.nackSn).Takes (takenAt start (diffSn nack.nackSn vtA) taken) nack then
        refusedAt slot vtA limit (diffSn nack.nackSn vtA)
          (takenAt start (diffSn nack.nackSn vtA) taken ++ [nack]) rest
      else some (diffSn nack.nackSn vtA)
    else none

variable {slot : Nat → TxPdu} {vtA limit start : Nat}

theorem refusedAt_ge {taken nacks : List NackSn} {stop : Nat}
    (refused : refusedAt slot vtA limit start taken nacks = some stop) : start ≤ stop := by
  induction nacks generalizing start taken with
  | nil => cases refused
  | cons nack rest ih =>
    rw [refusedAt] at refused
    split at refused
    · rename_i inOrder
      split at refused
      · exact inOrder.1.trans (ih refused)
      · cases refused
        exact inOrder.1
    · cases refused

theorem refusedAt_lt {taken nacks : List NackSn} {stop : Nat}
    (refused : refusedAt slot vtA limit start taken nacks = some stop) : stop < limit := by
  induction nacks generalizing start taken with
  | nil => cases refused
  | cons nack rest ih =>
    rw [refusedAt] at refused
    split at refused
    · rename_i inOrder
      split at refused
      · exact ih refused
      · cases refused
        exact inOrder.2
    · cases refused

theorem refusedAt_succ {nacks : List NackSn} (taken : List NackSn)
    (other : ∀ nack rest, nacks = nack :: rest → diffSn nack.nackSn vtA ≠ start) :
    refusedAt slot vtA limit start taken nacks = refusedAt slot vtA limit (start + 1) [] nacks := by
  cases nacks with
  | nil => rfl
  | cons nack rest =>
    have away := other nack rest rfl
    have further : start ≤ diffSn nack.nackSn vtA ↔ start + 1 ≤ diffSn nack.nackSn vtA := by omega
    have none : takenAt (start + 1) (diffSn nack.nackSn vtA) [] = [] := ite_self _
    rw [refusedAt, refusedAt, none, takenAt, if_neg away]
    simp only [further]

/-- The slot of every SN when the walk comes to it. -/
def slotOf (tx : Tx) (first : Nat) (run : List Nat) (sn : Nat) : TxPdu :=
  slotBehind tx first run (diffSn sn tx.vtA) sn

/-- The distance at which the walk over the window stops: that of a refused NACK, else of ACK_SN. -/
def walkEnd (tx : Tx) (info : ControlPduInfo) : Nat :=
  let limit := diffSn info.ackSn tx.vtA
  match info.nackList with
  | [] => limit
  | nack :: _ =>
    let first := diffSn nack.nackSn tx.vtA
    let run := reached tx.vtA limit first info.nackList
    (refusedAt (slotOf tx first run) tx.vtA limit first [] info.nackList).getD limit

theorem walkEnd_le (tx : Tx) (info : ControlPduInfo) :
    walkEnd tx info ≤ diffSn info.ackSn tx.vtA := by
  unfold walkEnd
  cases info.nackList with
  | nil => exact Nat.le_refl _
  | cons nack rest =>
    simp only
    cases refused : refusedAt _ tx.vtA (diffSn info.ackSn tx.vtA) (diffSn nack.nackSn tx.vtA) []
        (nack :: rest) with
    | none => exact Nat.le_refl _
    | some stop => exact Nat.le_of_lt (refusedAt_lt refused)

end Stop

section Steps

variable {tx b after : Tx} {w : Walk} {taken : List NackSn} {ackSn first c : Nat} {run : List Nat}

theorem SameTaking.marked {p q : TxPdu} (same : SameTaking p q) :
    SameTaking { p with ack := true } { q with ack := true } where
  block := same.block
  rest some := ⟨rfl, (same.rest some).2⟩

/-- The slots behind the SN at the cursor: its own is marked unless it is NACKed. -/
theorem slots_next (base : tx.vtA < snModulo) (valid : c < snModulo)
    (behind : first ≤ diffSn c tx.vtA)
    (others : ∀ i, i ≠ c % windowSize → after.txDataPduBuffer i = b.txDataPduBuffer i)
    (own : SameTaking (after.pdu c) (if c ∈ run then b.pdu c else { b.pdu c with ack := true }))
    (slots : ∀ sn < snModulo, diffSn c tx.vtA ≤ diffSn sn tx.vtA →
      SameTaking (b.pdu sn) (slotBehind tx first run (diffSn c tx.vtA) sn)) :
    ∀ sn < snModulo, diffSn c tx.vtA + 1 ≤ diffSn sn tx.vtA →
      SameTaking (after.pdu sn) (slotBehind tx first run (diffSn c tx.vtA + 1) sn) := by
  intro sn validSn later
  have earlier := slots sn validSn (Nat.le_of_lt later)
  rw [slotBehind_next base valid behind]
  by_cases shared : otherSn sn = c
  · have slot (t : Tx) : t.pdu sn = t.pdu c := by rw [Tx.pdu, Tx.pdu, ← shared, otherSn_slot]
    rw [slotBehind_own shared, slot b] at earlier
    rw [if_pos shared, slot after]
    by_cases nacked : c ∈ run
    · rw [if_pos nacked] at own ⊢
      exact own.trans earlier
    · rw [if_neg nacked] at own ⊢
      exact own.trans earlier.marked
  · have elsewhere : sn % windowSize ≠ c % windowSize := by
      intro slot
      rcases same_slot validSn valid slot.symm with same | same
      · rw [same] at later
        omega
      · exact shared same.symm
    rw [if_neg shared, Tx.pdu, others _ elsewhere]
    exact earlier

/-- A walk that began at `tx` and has come to the cursor, where the slots are those of `b`, behind
the NACKs `taken` for its SN. -/
structure Walk.Stands (w : Walk) (tx : Tx) (first : Nat) (run : List Nat) (ackSn : Nat) (b : Tx)
    (taken : List NackSn) : Prop where
  onTheWay : w.OnTheWay tx.vtA ackSn
  at_ : w.At b taken
  slots : ∀ sn < snModulo, diffSn w.snCursor tx.vtA ≤ diffSn sn tx.vtA →
    SameTaking (b.pdu sn) (slotBehind tx first run (diffSn w.snCursor tx.vtA) sn)
  run : ∀ sn, diffSn w.snCursor tx.vtA ≤ diffSn sn tx.vtA →
    (sn ∈ run ↔ sn ∈ reached tx.vtA (diffSn ackSn tx.vtA) (diffSn w.snCursor tx.vtA) w.pending)
  behind : first ≤ diffSn w.snCursor tx.vtA

theorem Walk.OnTheWay.notHere {vtA : Nat} (onTheWay : w.OnTheWay vtA ackSn) (base : vtA < snModulo)
    (other : w.snCursor ≠ w.nackSn ackSn) (nack : NackSn) (rest : List NackSn)
    (pending : w.pending = nack :: rest) :
    diffSn nack.nackSn vtA ≠ diffSn w.snCursor vtA := by
  intro same
  have valid := onTheWay.nacks nack (by rw [pending]; exact List.mem_cons_self)
  simp only [Walk.nackSn, pending] at other
  exact other (dist_inj base valid onTheWay.valid same).symm

theorem Walk.OnTheWay.lastHere {vtA : Nat} (onTheWay : w.OnTheWay vtA ackSn) (base : vtA < snModulo)
    {nack : NackSn} {rest : List NackSn} (pending : w.pending = nack :: rest)
    (alone : ¬ another w.snCursor rest) (other : NackSn) (others : List NackSn)
    (split_ : rest = other :: others) : diffSn other.nackSn vtA ≠ diffSn w.snCursor vtA := by
  intro same
  have valid := onTheWay.nacks other
    (by rw [pending, split_]; exact List.mem_cons_of_mem _ List.mem_cons_self)
  rw [another, split_] at alone
  exact alone (congrArg some (dist_inj base valid onTheWay.valid same))

theorem Walk.Stands.ack (stands : w.Stands tx first run ackSn b taken) (base : tx.vtA < snModulo)
    (ackValid : ackSn < snModulo) (away : w.snCursor ≠ ackSn)
    (other : w.snCursor ≠ w.nackSn ackSn) :
    taken = [] ∧ ((w.ack false).next).Stands tx first run ackSn (ackPdu b w.snCursor false) [] := by
  obtain ⟨onTheWay, at_, slots, inRun, behind⟩ := stands
  obtain ⟨ahead, short⟩ := diffSn_next base onTheWay.valid ackValid onTheWay.before away
  obtain rfl : taken = [] := by
    refine at_.began fun again => ?_
    cases pending : w.pending with
    | nil =>
      rw [another, pending] at again
      cases again
    | cons nack rest =>
      rw [another, pending] at again
      simp only [Walk.nackSn, pending] at other
      exact other (Option.some.inj again).symm
  obtain ⟨same, fresh⟩ := at_.fresh rfl
  have tail := @reached_succ _ (diffSn ackSn tx.vtA) _ _ (onTheWay.notHere base other)
  have cursor : diffSn (w.ack false).next.snCursor tx.vtA = diffSn w.snCursor tx.vtA + 1 := ahead
  have unmarked : w.snCursor ∉ run := by
    rw [inRun _ (Nat.le_refl _), tail]
    intro member
    have := reached_ge member
    omega
  obtain ⟨ack, block, lost, size⟩ := ackPdu_slot b w.snCursor
  refine ⟨rfl, OnTheWay.ack base ackValid onTheWay away other,
    ⟨?_, at_.going, fun _ => ⟨?_, fresh⟩,
      fun _ _ same => absurd same.symm (List.cons_ne_nil _ _)⟩, ?_, ?_, ?_⟩
  · rw [← same]
    exact Drift.refl _
  · rw [← same]
    rfl
  · rw [cursor]
    refine slots_next base onTheWay.valid behind
      (fun i elsewhere => ackPdu_other b false elsewhere) ?_ slots
    rw [if_neg unmarked]
    exact ⟨congrArg Option.isSome block, fun _ => ⟨ack, lost, size⟩⟩
  · intro sn later
    rw [cursor] at later ⊢
    rw [inRun sn (Nat.le_of_lt later), tail]
    rfl
  · rw [cursor]
    exact Nat.le_succ_of_le behind

theorem Midway.sameTaking {head : NackSn} {more : List NackSn} {sn : Nat}
    (midway : Midway b sn head more after) :
    SameTaking (after.pdu sn) (b.pdu sn) where
  block := congrArg (fun pdu => pdu.memBlock.isSome) midway.slot.frame
  rest _ := ⟨congrArg (fun pdu => pdu.ack) midway.slot.frame,
    congrArg (fun pdu => pdu.maxRetransmit) midway.slot.frame,
    congrArg (fun pdu => pdu.payloadSize) midway.slot.frame⟩

/-- A round that takes a NACK: the SN stays at the cursor while the next one is for it too. -/
theorem Walk.Stands.takes (stands : w.Stands tx first run ackSn b taken) (base : tx.vtA < snModulo)
    (ackValid : ackSn < snModulo) (away : w.snCursor ≠ ackSn) {nack : NackSn} {rest : List NackSn}
    (pending : w.pending = nack :: rest) (here : w.snCursor = nack.nackSn)
    (takes : (b.pdu w.snCursor).Takes taken nack) :
    (another w.snCursor rest →
      (w.taken ackSn nack rest).Stands tx first run ackSn b (taken ++ [nack])) ∧
    (¬ another w.snCursor rest →
      (w.taken ackSn nack rest).Stands tx first run ackSn (w.taken ackSn nack rest).tx []) := by
  obtain ⟨onTheWay, at_, slots, inRun, behind⟩ := stands
  obtain ⟨ahead, short⟩ := diffSn_next base onTheWay.valid ackValid onTheWay.before away
  obtain ⟨head, more, list, status, midway⟩ := at_.takes pending here takes
  have moved := OnTheWay.taken base ackValid onTheWay away pending here
  have front := @reached_takes _ _ _ rest (here ▸ short)
  rw [pending] at inRun
  rw [taken_eq (here ▸ away), ← here] at moved ⊢
  rw [← here] at status midway front
  have drift := at_.drift.trans (nackPdu_drift w.tx w.snCursor w.prevNackSn nack.soStart nack.soEnd)
  generalize nackPdu w.tx w.snCursor w.prevNackSn nack.soStart nack.soEnd = result
    at status midway moved drift ⊢
  obtain ⟨_, next⟩ := result
  subst status
  constructor
  · intro again
    rw [if_pos again] at moved ⊢
    refine ⟨moved, .again drift list midway again, slots, fun sn later => ?_, behind⟩
    have still := reached_another short again
    rw [inRun sn later, front, List.mem_cons]
    exact or_iff_right_of_imp fun same => same ▸ still
  · intro apart
    rw [if_neg apart] at moved ⊢
    have nacked : w.snCursor ∈ run := by
      rw [inRun _ (Nat.le_refl _), front]
      exact List.mem_cons_self
    have notHere := onTheWay.lastHere base pending apart
    refine ⟨moved, .onward rfl apart, ?_, fun sn later => ?_, ?_⟩
    · show ∀ sn < snModulo, diffSn (nextSn w.snCursor) tx.vtA ≤ diffSn sn tx.vtA →
        SameTaking (next.pdu sn) (slotBehind tx first run (diffSn (nextSn w.snCursor) tx.vtA) sn)
      rw [ahead]
      have frame : next = _ := midway.frame
      refine slots_next base onTheWay.valid behind (fun i elsewhere => ?_) ?_ slots
      · show next.txDataPduBuffer i = _
        rw [frame]
        exact Function.update_of_ne elsewhere _ _
      · rw [if_pos nacked]
        exact midway.sameTaking
    · have later : diffSn (nextSn w.snCursor) tx.vtA ≤ diffSn sn tx.vtA := later
      show sn ∈ run ↔
        sn ∈ reached tx.vtA (diffSn ackSn tx.vtA) (diffSn (nextSn w.snCursor) tx.vtA) rest
      rw [ahead] at later ⊢
      rw [inRun sn (Nat.le_of_lt later), front, List.mem_cons, reached_succ notHere]
      refine or_iff_right fun same => ?_
      rw [same] at later
      omega
    · show first ≤ diffSn (nextSn w.snCursor) tx.vtA
      rw [ahead]
      exact Nat.le_succ_of_le behind

/-- The SNs acknowledged from the distance `start` on: those before the stop that are not in the run
of NACKs. -/
structure AckedFrom (slot : Nat → TxPdu) (vtA limit start : Nat) (taken nacks : List NackSn)
    (sn : Nat) : Prop where
  valid : sn < snModulo
  ahead : start ≤ diffSn sn vtA
  before : diffSn sn vtA < (refusedAt slot vtA limit start taken nacks).getD limit
  spared : sn ∉ reached vtA limit start nacks

section Members

variable {slot : Nat → TxPdu} {vtA limit sn : Nat} {nack : NackSn} {nacks rest : List NackSn}

theorem ackedFrom_limit : ¬ AckedFrom slot vtA limit limit taken nacks sn := by
  rintro ⟨-, ahead, before, -⟩
  have none : refusedAt slot vtA limit limit taken nacks = none := by
    cases nacks with
    | nil => rfl
    | cons nack rest => rw [refusedAt, if_neg (by omega)]
  rw [none, Option.getD_none] at before
  omega

theorem ackedFrom_ack (base : vtA < snModulo) (valid : c < snModulo) (short : diffSn c vtA < limit)
    (other : ∀ nack rest, nacks = nack :: rest → diffSn nack.nackSn vtA ≠ diffSn c vtA) :
    AckedFrom slot vtA limit (diffSn c vtA) [] nacks sn ↔
      sn = c ∨ AckedFrom slot vtA limit (diffSn c vtA + 1) [] nacks sn := by
  have same := @reached_succ _ limit _ _ other
  have stop := @refusedAt_succ slot _ limit _ _ [] other
  constructor
  · rintro ⟨validSn, ahead, before, spared⟩
    by_cases here : sn = c
    · exact Or.inl here
    · have apart : diffSn sn vtA ≠ diffSn c vtA :=
        fun equal => here (dist_inj base validSn valid equal)
      exact Or.inr ⟨validSn, by omega, stop ▸ before, same ▸ spared⟩
  · rintro (rfl | ⟨validSn, ahead, before, spared⟩)
    · refine ⟨valid, Nat.le_refl _, ?_, fun member => ?_⟩
      · rw [stop]
        cases refused : refusedAt slot vtA limit (diffSn sn vtA + 1) [] nacks with
        | none => exact short
        | some stop => exact refusedAt_ge refused
      · rw [same] at member
        have := reached_ge member
        omega
    · exact ⟨validSn, Nat.le_of_succ_le ahead, stop.symm ▸ before, same.symm ▸ spared⟩

theorem refusedAt_takes (short : diffSn nack.nackSn vtA < limit)
    (takes : (slot nack.nackSn).Takes taken nack) :
    refusedAt slot vtA limit (diffSn nack.nackSn vtA) taken (nack :: rest) =
      refusedAt slot vtA limit (diffSn nack.nackSn vtA) (taken ++ [nack]) rest := by
  rw [refusedAt, if_pos ⟨Nat.le_refl _, short⟩, takenAt, if_pos rfl, if_pos takes]

/-- A NACK that is taken, with another one for its SN behind it. -/
theorem ackedFrom_again (short : diffSn nack.nackSn vtA < limit)
    (takes : (slot nack.nackSn).Takes taken nack)
    (again : another nack.nackSn rest) :
    AckedFrom slot vtA limit (diffSn nack.nackSn vtA) taken (nack :: rest) sn ↔
      AckedFrom slot vtA limit (diffSn nack.nackSn vtA) (taken ++ [nack]) rest sn := by
  have stop := @refusedAt_takes _ _ _ _ _ rest short takes
  have run := @reached_takes _ _ _ rest short
  have still := reached_another short again
  have members : sn ∈ reached vtA limit (diffSn nack.nackSn vtA) (nack :: rest) ↔
      sn ∈ reached vtA limit (diffSn nack.nackSn vtA) rest := by
    rw [run, List.mem_cons]
    exact or_iff_right_of_imp fun same => same ▸ still
  constructor
  · rintro ⟨valid, ahead, before, spared⟩
    exact ⟨valid, ahead, stop ▸ before, fun member => spared (members.mpr member)⟩
  · rintro ⟨valid, ahead, before, spared⟩
    exact ⟨valid, ahead, stop.symm ▸ before, fun member => spared (members.mp member)⟩

theorem ackedFrom_next (base : vtA < snModulo) (valid : nack.nackSn < snModulo)
    (short : diffSn nack.nackSn vtA < limit)
    (takes : (slot nack.nackSn).Takes taken nack)
    (other : ∀ nack' rest', rest = nack' :: rest' →
      diffSn nack'.nackSn vtA ≠ diffSn nack.nackSn vtA) :
    AckedFrom slot vtA limit (diffSn nack.nackSn vtA) taken (nack :: rest) sn ↔
      AckedFrom slot vtA limit (diffSn nack.nackSn vtA + 1) [] rest sn := by
  have stop :=
    (@refusedAt_takes _ _ _ _ _ rest short takes).trans (refusedAt_succ (taken ++ [nack]) other)
  have run := @reached_takes _ _ _ rest short
  rw [reached_succ other] at run
  constructor
  · rintro ⟨validSn, ahead, before, spared⟩
    rw [run, List.mem_cons, not_or] at spared
    have apart : diffSn sn vtA ≠ diffSn nack.nackSn vtA :=
      fun equal => spared.1 (dist_inj base validSn valid equal)
    exact ⟨validSn, by omega, stop ▸ before, spared.2⟩
  · rintro ⟨validSn, ahead, before, spared⟩
    refine ⟨validSn, Nat.le_of_succ_le ahead, stop.symm ▸ before, ?_⟩
    rw [run, List.mem_cons]
    rintro (same | member)
    · rw [same] at ahead
      omega
    · exact spared member

theorem ackedFrom_refused (short : diffSn nack.nackSn vtA < limit)
    (refuses : ¬ (slot nack.nackSn).Takes taken nack) :
    ¬ AckedFrom slot vtA limit (diffSn nack.nackSn vtA) taken (nack :: rest) sn := by
  rintro ⟨-, ahead, before, -⟩
  rw [refusedAt, if_pos ⟨Nat.le_refl _, short⟩, takenAt, if_pos rfl, if_neg refuses,
    Option.getD_some] at before
  omega

end Members

theorem Walk.Stands.arrived {last : Walk} (stands : w.Stands tx first run ackSn b taken)
    (ended : w.snCursor = ackSn ∨ w.status = false) (same : some w = some last) :
    ∃ extra, last.acked = w.acked ++ extra ∧ ∀ sn, sn ∈ extra ↔
      AckedFrom (slotOf tx first run) tx.vtA (diffSn ackSn tx.vtA) (diffSn w.snCursor tx.vtA) taken
        w.pending sn := by
  cases same
  have arrived := ended.resolve_right (by simp [stands.at_.going])
  refine ⟨[], (List.append_nil _).symm, fun sn => iff_of_false List.not_mem_nil ?_⟩
  rw [arrived]
  exact ackedFrom_limit

theorem walkUntil_stops {rounds : Nat} {last : Walk} (stands : w.Stands tx first run ackSn b taken)
    (base : tx.vtA < snModulo) (ackValid : ackSn < snModulo)
    (ends : walkUntil ackSn rounds w = some last) :
    ∃ extra, last.acked = w.acked ++ extra ∧ ∀ sn, sn ∈ extra ↔
      AckedFrom (slotOf tx first run) tx.vtA (diffSn ackSn tx.vtA) (diffSn w.snCursor tx.vtA) taken
        w.pending sn := by
  induction rounds generalizing w b taken with
  | zero =>
    rw [walkUntil] at ends
    split at ends
    · rename_i ended
      exact stands.arrived ended ends
    · cases ends
  | succ rounds ih =>
    rw [walkUntil] at ends
    split at ends
    · rename_i ended
      exact stands.arrived ended ends
    · rename_i goes
      obtain ⟨away, -⟩ := not_or.mp goes
      obtain ⟨ahead, short⟩ :=
        diffSn_next base stands.onTheWay.valid ackValid stands.onTheWay.before away
      by_cases other : w.snCursor = w.nackSn ackSn
      · cases pending : w.pending with
        | nil => exact absurd (by simpa only [Walk.nackSn, pending] using other) away
        | cons nack rest =>
          have here : w.snCursor = nack.nackSn := by simpa only [Walk.nackSn, pending] using other
          have own : (b.pdu w.snCursor).Takes taken nack ↔
              (slotOf tx first run w.snCursor).Takes taken nack :=
            (stands.slots w.snCursor stands.onTheWay.valid (Nat.le_refl _)).takes_iff taken nack
          have valid := stands.onTheWay.valid
          rw [walkStep_nack pending here away] at ends
          simp only at ends
          rw [here] at short valid ahead own ⊢
          by_cases takes : (b.pdu nack.nackSn).Takes taken nack
          · obtain ⟨again, apart⟩ := stands.takes base ackValid away pending here (here ▸ takes)
            have moved := @taken_eq w _ rest _ (here ▸ away)
            by_cases more : another nack.nackSn rest
            · obtain ⟨extra, acked, members⟩ := ih (again (here ▸ more)) ends
              rw [moved] at acked members
              simp only [if_pos more, here] at members
              refine ⟨extra, acked, fun sn => (members sn).trans ?_⟩
              exact (ackedFrom_again short (own.mp takes) more).symm
            · obtain ⟨extra, acked, members⟩ := ih (apart (here ▸ more)) ends
              rw [moved] at acked members
              simp only [if_neg more, here, ahead] at members
              refine ⟨extra, acked, fun sn => (members sn).trans ?_⟩
              have last := stands.onTheWay.lastHere base pending (here ▸ more)
              exact (ackedFrom_next base valid short (own.mp takes) (here ▸ last)).symm
          · rw [taken_eq (here ▸ away), stands.at_.refuses pending here (here ▸ takes)] at ends
            rw [ended_refused rfl ends]
            refine ⟨[], (List.append_nil _).symm, fun sn => iff_of_false List.not_mem_nil ?_⟩
            exact ackedFrom_refused short (fun given => takes (own.mpr given))
      · obtain ⟨rfl, later⟩ := stands.ack base ackValid away other
        rw [walkStep_ack stands.onTheWay away other] at ends
        obtain ⟨extra, acked, members⟩ := ih later ends
        refine ⟨w.snCursor :: extra, ?_, fun sn => ?_⟩
        · rw [acked]
          exact List.append_assoc _ _ _
        · have cursor : (w.ack false).next.snCursor = nextSn w.snCursor := rfl
          rw [cursor, ahead] at members
          rw [List.mem_cons, members]
          exact (ackedFrom_ack base stands.onTheWay.valid short
            (stands.onTheWay.notHere base other)).symm

end Steps

section Report

/-- The acknowledgements in sequence leave the slots as the walk is to find them. -/
theorem ackUntil_stands {tx : Tx} {ackSn rounds : Nat} {nack : NackSn} {rest : List NackSn}
    {acked : List Nat} {last : Walk}
    (base : tx.vtA < snModulo) (valid : ∀ nack' ∈ nack :: rest, nack'.nackSn < snModulo)
    (before : diffSn nack.nackSn tx.vtA ≤ diffSn ackSn tx.vtA)
    (ends : ackUntil nack.nackSn rounds ⟨tx, tx.vtA, acked, nack :: rest, 0x3FFF, true⟩ = some last)
    (freed : ∀ sn ∈ span snModulo tx.vtA (diffSn nack.nackSn tx.vtA),
      (last.tx.pdu sn).memBlock = none)
    (arrived : last.snCursor = nack.nackSn ∧ last.pending = nack :: rest ∧
      last.prevNackSn = 0x3FFF ∧ last.status = true) :
    last.Stands tx (diffSn nack.nackSn tx.vtA)
      (reached tx.vtA (diffSn ackSn tx.vtA) (diffSn nack.nackSn tx.vtA) (nack :: rest)) ackSn
        last.tx [] := by
  obtain ⟨cursor, pending, prev, status⟩ := arrived
  have firstValid := valid nack List.mem_cons_self
  have bound : diffSn nack.nackSn tx.vtA ≤ snModulo := Nat.le_of_lt (dist_lt base)
  have passed (sn : Nat) (validSn : sn < snModulo) :
      sn ∈ span snModulo tx.vtA (diffSn nack.nackSn tx.vtA) ↔
          diffSn sn tx.vtA < diffSn nack.nackSn tx.vtA :=
    mem_span base bound validSn
  refine ⟨⟨?_, ?_, ?_, ?_⟩, ⟨Drift.refl _, status, fun _ => ⟨rfl, ?_⟩,
    fun _ _ same => absurd same.symm (List.cons_ne_nil _ _)⟩, ?_, ?_, ?_⟩
  · exact cursor ▸ firstValid
  · exact cursor ▸ before
  · intro _
    rw [Walk.nackSn, pending, cursor]
  · exact pending ▸ valid
  · intro other member clash
    rw [pending] at member
    cases member
    rw [prev] at clash
    rw [← clash] at firstValid
    exact absurd firstValid (by decide)
  · intro sn validSn ahead
    rw [cursor] at ahead ⊢
    unfold slotBehind
    by_cases shared : diffSn (otherSn sn) tx.vtA < diffSn nack.nackSn tx.vtA
    · rw [if_pos shared, if_pos shared]
      have gone := freed (otherSn sn) ((passed _ (otherSn_lt sn)).mpr shared)
      rw [Tx.pdu, otherSn_slot] at gone
      have gone : (last.tx.pdu sn).memBlock = none := gone
      exact ⟨by rw [gone], fun some => by rw [gone] at some; cases some⟩
    · rw [if_neg shared]
      have same : last.tx.pdu sn = tx.pdu sn := by
        refine ackUntil_other base firstValid ends fun x member slot => ?_
        have validX := span_lt base member
        have early := (passed x validX).mp member
        rcases same_slot validSn validX slot.symm with same | same
        · rw [same] at early
          omega
        · rw [same] at early
          exact shared early
      rw [same]
      exact ⟨rfl, fun _ => ⟨rfl, rfl, rfl⟩⟩
  · intro sn _
    rw [cursor, pending]
  · rw [cursor]

theorem reached_front (vtA limit : Nat) (nack : NackSn) (rest : List NackSn) :
    reached vtA limit 0 (nack :: rest) = reached vtA limit (diffSn nack.nackSn vtA)
      (nack :: rest) := by
  simp [reached]

/-- The SNs acknowledged on a report whose first NACK is not beyond ACK_SN: those before the stop of
the walk that are not in the run of NACKs. -/
theorem walkWindow_acked {tx : Tx} {info : ControlPduInfo} {r : WalkResult}
    (base : tx.vtA < snModulo)
    (ackValid : info.ackSn < snModulo) (nackValid : ∀ nack ∈ info.nackList, nack.nackSn < snModulo)
    (before : ∀ nack rest, info.nackList = nack :: rest →
      diffSn nack.nackSn tx.vtA ≤ diffSn info.ackSn tx.vtA)
    (ends : walkWindow tx info = some r) (sn : Nat) :
    sn ∈ r.acked ↔ sn < snModulo ∧ diffSn sn tx.vtA < walkEnd tx info ∧
      sn ∉ reached tx.vtA (diffSn info.ackSn tx.vtA) 0 info.nackList := by
  have inSequence (stop : Nat) (stopValid : stop < snModulo) (sn : Nat) :
      sn ∈ span snModulo tx.vtA (diffSn stop tx.vtA) ↔ sn < snModulo ∧
          diffSn sn tx.vtA < diffSn stop tx.vtA := by
    have turn : diffSn stop tx.vtA ≤ snModulo := Nat.le_of_lt (dist_lt base)
    constructor
    · intro member
      have valid := span_lt base member
      exact ⟨valid, (mem_span base turn valid).mp member⟩
    · rintro ⟨valid, short⟩
      exact (mem_span base turn valid).mpr short
  have bound (stop : Nat) : diffSn stop tx.vtA ≤ snModulo := Nat.le_of_lt (Nat.mod_lt _ (by decide))
  unfold walkWindow at ends
  unfold walkEnd
  cases list : info.nackList with
  | nil =>
    simp only [list] at ends
    obtain ⟨after, spec, -⟩ :=
      @ackUntil_spec info.ackSn snModulo ⟨tx, tx.vtA, [], [], 0x3FFF, true⟩ base ackValid (bound _)
    rw [spec, Option.map_some] at ends
    cases ends
    rw [List.nil_append, inSequence _ ackValid]
    simp only [reached, List.not_mem_nil, not_false_eq_true, and_true]
  | cons nack rest =>
    rw [list] at nackValid
    have firstValid := nackValid nack List.mem_cons_self
    have early := before nack rest list
    simp only [list] at ends
    obtain ⟨after, spec, -, freed⟩ :=
      @ackUntil_spec nack.nackSn snModulo ⟨tx, tx.vtA, [], nack :: rest, 0x3FFF, true⟩ base
      firstValid (bound _)
    have stands := ackUntil_stands base nackValid early spec freed ⟨rfl, rfl, rfl, rfl⟩
    rw [spec, Option.bind_some, Option.map_eq_some_iff] at ends
    obtain ⟨last, walked, rfl⟩ := ends
    obtain ⟨extra, acked, members⟩ := walkUntil_stops stands base ackValid walked
    rw [reached_front]
    simp only at members ⊢
    rw [acked, List.nil_append, List.mem_append, inSequence _ firstValid, members]
    -- the walk does not stop before the first NACK
    have late : diffSn nack.nackSn tx.vtA ≤ walkEnd tx info := by
      rw [walkEnd, list]
      simp only
      cases refused : refusedAt _ tx.vtA (diffSn info.ackSn tx.vtA) (diffSn nack.nackSn tx.vtA) []
          (nack :: rest) with
      | none => exact early
      | some stop => exact refusedAt_ge refused
    rw [walkEnd, list] at late
    simp only at late
    constructor
    · rintro (⟨valid, short⟩ | ⟨valid, -, short, spared⟩)
      · exact ⟨valid, Nat.lt_of_lt_of_le short late,
          fun member => Nat.not_le.mpr short (reached_ge member)⟩
      · exact ⟨valid, short, spared⟩
    · rintro ⟨valid, short, spared⟩
      by_cases inSequence : diffSn sn tx.vtA < diffSn nack.nackSn tx.vtA
      · exact Or.inl ⟨valid, inSequence⟩
      · exact Or.inr ⟨valid, Nat.le_of_not_lt inSequence, short, spared⟩

/-- The processing acknowledges and frees only PDUs before ACK_SN that are not NACKed, and VT(A)
stays within the window. -/
def StatusSafe (tx : Tx) (mem : Memory) (tbSize : Int) : Prop :=
  let info := (getControlPduInfos mem tbSize).info
  ∃ r, receiveProcessControlPdu tx mem tbSize = some r ∧
    (∀ sn ∈ r.acked, diffSn sn tx.vtA < diffSn info.ackSn tx.vtA ∧
      ∀ nack ∈ info.nackList, nack.nackSn ≠ sn) ∧
    (∀ i, (¬ ∃ sn ∈ r.acked, sn % windowSize = i) →
      (r.tx.txDataPduBuffer i).ack = (tx.txDataPduBuffer i).ack ∧
      (r.tx.txDataPduBuffer i).memBlock = (tx.txDataPduBuffer i).memBlock) ∧
    diffSn r.tx.vtA tx.vtA ≤ diffSn tx.vtS tx.vtA

/-- The first NACK is not beyond ACK_SN, and the NACKed SNs before the place where the walk stops
all belong to the leading NACKs that come in the order of the window. -/
def NacksInOrder (tx : Tx) (info : ControlPduInfo) : Prop :=
  (∀ nack rest, info.nackList = nack :: rest → diffSn nack.nackSn tx.vtA ≤
    diffSn info.ackSn tx.vtA) ∧
  ∀ nack ∈ info.nackList, diffSn nack.nackSn tx.vtA < walkEnd tx info →
    nack.nackSn ∈ reached tx.vtA (diffSn info.ackSn tx.vtA) 0 info.nackList

variable {tx : Tx} {mem : Memory} {tbSize : Int}

/-- A report that fills the decoder's array is dropped. -/
theorem statusSafe_of_dropped (decoded : (getControlPduInfos mem tbSize).ret = 0)
    (many : maxNackInStatusPdu ≤ (getControlPduInfos mem tbSize).info.nackList.length) :
    StatusSafe tx mem tbSize := by
  have process : receiveProcessControlPdu tx mem tbSize =
      some { tx, tbSize := (getControlPduInfos mem tbSize).totalSize } := by
    rw [receiveProcessControlPdu]
    simp only [decoded, ge_iff_le, Int.le_refl, if_true]
    rw [if_pos (Or.inr many)]
  refine ⟨_, process, by simp, fun i _ => ⟨rfl, rfl⟩, ?_⟩
  simp [diffSn_eq]

theorem statusSafe_of_inOrder (base : tx.vtA < snModulo)
    (decoded : (getControlPduInfos mem tbSize).ret = 0)
    (fewer : (getControlPduInfos mem tbSize).info.nackList.length < maxNackInStatusPdu)
    (within : diffSn (getControlPduInfos mem tbSize).info.ackSn tx.vtA ≤ diffSn tx.vtS tx.vtA)
    (inOrder : NacksInOrder tx (getControlPduInfos mem tbSize).info) :
    StatusSafe tx mem tbSize := by
  obtain ⟨ackValid, nackValid⟩ := getControlPduInfos_valid mem tbSize
  obtain ⟨walk, ends, acks, -, -, -, none, some⟩ := walkWindow_spec tx _ base ackValid nackValid
  obtain ⟨walk', out, ends', process, outAcked, -, slots, -, vtA, -⟩ :=
    receiveProcessControlPdu_spec tx mem tbSize base (by omega) fewer within
  obtain rfl : walk = walk' := Option.some.inj (ends.symm.trans ends')
  have acked := walkWindow_acked base ackValid nackValid inOrder.1 ends
  refine ⟨out, process, ?_, ?_, ?_⟩
  · intro sn member
    rw [outAcked, acked] at member
    obtain ⟨-, short, spared⟩ := member
    refine ⟨Nat.lt_of_lt_of_le short (walkEnd_le _ _), fun nack given same => spared ?_⟩
    rw [← same] at short ⊢
    exact inOrder.2 nack given short
  · intro i untouched
    rw [outAcked] at untouched
    rw [slots]
    exact acks.kept i untouched
  · rw [vtA]
    cases walk.status with
    | false =>
      simp only [Bool.false_eq_true, if_false, acks.vtA, diffSn_eq, dist_self]
      exact Nat.zero_le _
    | true =>
      simp only [if_true]
      cases list : (getControlPduInfos mem tbSize).info.nackList with
      | nil =>
        rw [none list]
        exact within
      | cons nack rest =>
        rw [some nack rest list]
        exact (inOrder.1 nack rest list).trans within

/-- A report that is walked is safe only when it is in order. -/
theorem inOrder_of_statusSafe (base : tx.vtA < snModulo)
    (decoded : (getControlPduInfos mem tbSize).ret = 0)
    (fewer : (getControlPduInfos mem tbSize).info.nackList.length < maxNackInStatusPdu)
    (within : diffSn (getControlPduInfos mem tbSize).info.ackSn tx.vtA ≤ diffSn tx.vtS tx.vtA)
    (safe : StatusSafe tx mem tbSize) : NacksInOrder tx (getControlPduInfos mem tbSize).info := by
  obtain ⟨ackValid, nackValid⟩ := getControlPduInfos_valid mem tbSize
  obtain ⟨out, process, allowed, -⟩ := safe
  obtain ⟨walk, out', ends, process', outAcked, -⟩ :=
    receiveProcessControlPdu_spec tx mem tbSize base (by omega) fewer within
  obtain rfl : out = out' := Option.some.inj (process.symm.trans process')
  rw [outAcked] at allowed
  have before : ∀ nack rest, (getControlPduInfos mem tbSize).info.nackList = nack :: rest →
      diffSn nack.nackSn tx.vtA ≤ diffSn (getControlPduInfos mem tbSize).info.ackSn tx.vtA := by
    intro nack rest list
    by_contra beyond
    -- ACK_SN itself is passed on the way to the first NACK
    have passed : (getControlPduInfos mem tbSize).info.ackSn ∈ walk.acked := by
      obtain ⟨walk', ends', -, -, -, ⟨extra, acked⟩, -, some⟩ :=
        walkWindow_spec tx _ base ackValid nackValid
      obtain rfl : walk = walk' := Option.some.inj (ends.symm.trans ends')
      rw [acked, some nack rest list]
      refine List.mem_append_left _ ((mem_span base (Nat.le_of_lt (dist_lt base)) ackValid).mpr ?_)
      exact Nat.lt_of_not_le beyond
    exact Nat.lt_irrefl _ (allowed _ passed).1
  refine ⟨before, fun nack given short => ?_⟩
  by_contra astray
  have acked := (walkWindow_acked base ackValid nackValid before ends nack.nackSn).mpr
    ⟨nackValid nack given, short, astray⟩
  exact (allowed _ acked).2 nack given rfl

/-- The processing of a STATUS PDU with ACK_SN in the window is safe exactly when the report is
dropped or in order. -/
theorem receiveProcessControlPdu_safe (tx : Tx) (mem : Memory) (tbSize : Int)
    (base : tx.vtA < snModulo)
    (decoded : (getControlPduInfos mem tbSize).ret = 0)
    (within : diffSn (getControlPduInfos mem tbSize).info.ackSn tx.vtA ≤ diffSn tx.vtS tx.vtA) :
    StatusSafe tx mem tbSize ↔
      ((getControlPduInfos mem tbSize).info.nackList.length < maxNackInStatusPdu →
        NacksInOrder tx (getControlPduInfos mem tbSize).info) := by
  by_cases fewer : (getControlPduInfos mem tbSize).info.nackList.length < maxNackInStatusPdu
  · exact ⟨fun safe _ => inOrder_of_statusSafe base decoded fewer within safe,
      fun inOrder => statusSafe_of_inOrder base decoded fewer within (inOrder fewer)⟩
  · exact ⟨fun
      _ given => absurd given fewer,
      fun _ => statusSafe_of_dropped decoded (Nat.le_of_not_lt fewer)⟩

def threeInFlight : Tx where
  vtS := 3
  txDataPduBuffer i :=
    if i < 3 then { memBlock := some fun _ => 0, payloadSize := 10, sn := i, transmitted := true }
      else {}

/-- A report up to SN 3 that NACKs SN 1, then SN 0. -/
def unorderedReport : Memory :=
  (writeStatusPdu (fun _ => 0)
    { ackSn := 3, nackList := [⟨1, true, false, 0, 0x7FFF⟩, ⟨0, false, false, 0, 0x7FFF⟩] }).1

/-- SN 0 is acknowledged and its block freed although it is NACKed. -/
theorem unorderedReport_not_safe :
    (getControlPduInfos unorderedReport 5).ret = 0 ∧
    diffSn (getControlPduInfos unorderedReport 5).info.ackSn threeInFlight.vtA ≤
      diffSn threeInFlight.vtS threeInFlight.vtA ∧
    (receiveProcessControlPdu threeInFlight unorderedReport 5).map
      (fun r => (r.acked, (r.tx.txDataPduBuffer 0).memBlock.isSome)) = some ([0, 2], false) ∧
    ¬ StatusSafe threeInFlight unorderedReport 5 := by
  have run : (receiveProcessControlPdu threeInFlight unorderedReport 5).map
      (fun r => (r.acked, (r.tx.txDataPduBuffer 0).memBlock.isSome)) =
        some ([0, 2], false) := by decide +kernel
  refine ⟨by decide, by decide, run, ?_⟩
  rintro ⟨r, process, allowed, -⟩
  rw [process, Option.map_some, Option.some.injEq, Prod.mk.injEq] at run
  exact (allowed 0 (by rw [run.1]; decide)).2 ⟨0, false, false, 0, 0x7FFF⟩ (by decide) rfl

/-- Two NACKs in the order of the window; and NACKs out of order behind one that is refused, for
octets beyond the PDU. -/
theorem receiveProcessControlPdu_safe_sample :
    let inOrder := (writeStatusPdu (fun _ => 0)
      { ackSn := 3, nackList := [⟨0, true, false, 0, 0x7FFF⟩, ⟨1, false, false, 0, 0x7FFF⟩] }).1
    let refused := (writeStatusPdu (fun _ => 0)
      { ackSn := 3, nackList := [⟨0, true, true, 0, 100⟩, ⟨2, true, false, 0, 0x7FFF⟩,
        ⟨1, false, false, 0, 0x7FFF⟩] }).1
    StatusSafe threeInFlight inOrder 5 ∧ StatusSafe threeInFlight refused 10 := by
  intro inOrder refused
  have list : (getControlPduInfos inOrder 5).info.nackList =
      [⟨0, true, false, 0, 0x7FFF⟩, ⟨1, false, false, 0, 0x7FFF⟩] := by decide
  have list' : (getControlPduInfos refused 10).info.nackList =
      [⟨0, true, true, 0, 100⟩, ⟨2, true, false, 0, 0x7FFF⟩, ⟨1, false, false, 0, 0x7FFF⟩] := by
        decide
  constructor
  · refine (receiveProcessControlPdu_safe threeInFlight inOrder 5 (by decide) (by decide)
      (by decide)).mpr fun _ => ⟨?_, by decide⟩
    rintro nack rest front
    obtain ⟨rfl, -⟩ := List.cons.inj (list.symm.trans front)
    decide
  · refine (receiveProcessControlPdu_safe threeInFlight refused 10 (by decide) (by decide)
      (by decide)).mpr fun _ => ⟨?_, by decide⟩
    rintro nack rest front
    obtain ⟨rfl, -⟩ := List.cons.inj (list'.symm.trans front)
    decide

end Report

end OpenAir.Rlc.Am
