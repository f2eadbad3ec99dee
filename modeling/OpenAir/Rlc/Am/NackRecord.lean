import OpenAir.Rlc.Am.TxWindow

/-! What NACKs for one SN leave in its slot, and when they leave it as it was. -/
namespace OpenAir.Rlc.Am
open BitField

section Slot

/-- A NACK for the whole PDU. -/
def NackSn.Whole (nack : NackSn) : Prop := nack.soStart = 0 ∧ nack.soEnd = 0x7FFF

instance (nack : NackSn) : Decidable nack.Whole := by unfold NackSn.Whole; infer_instance

/-- The last byte that a NACK asks for. -/
def TxPdu.rangeStop (p : TxPdu) (nack : NackSn) : Int :=
  if (nack.soEnd : Int) = 0x7FFF then p.payloadSize - 1 else nack.soEnd

def TxPdu.rangeSize (p : TxPdu) (nack : NackSn) : Int := p.rangeStop nack - nack.soStart + 1

/-- Whether `rlc_am_nack_pdu` takes a NACK, behind those `taken` for the same SN. -/
def TxPdu.Takes (p : TxPdu) (taken : List NackSn) (nack : NackSn) : Prop :=
  p.memBlock.isSome = true ∧ nack.soStart ≤ nack.soEnd ∧ p.maxRetransmit = false ∧
    if nack.Whole then taken = [] ∧ p.ack = false ∧ 0 < p.payloadSize
    else nack.soStart ≤ p.rangeStop nack ∧ p.rangeStop nack < p.payloadSize ∧
      (∀ first ∈ taken.head?, ¬ first.Whole) ∧ taken.length < maxHolesReportPerPdu ∧
      ∀ last ∈ taken.getLast?, p.rangeStop last < nack.soStart

instance (p : TxPdu) (taken : List NackSn) (nack : NackSn) : Decidable (p.Takes taken nack) := by
  unfold TxPdu.Takes
  infer_instance

/-- The slot records just these NACKs, and waits for the retransmission. -/
def TxPdu.Records (p : TxPdu) : List NackSn → Prop
  | [] => True
  | first :: more =>
    p.nack = true ∧ p.retransmit = true ∧ p.retxHoleIndex = 0 ∧ p.nackSoStart = first.soStart ∧
      p.nackSoStop = p.rangeStop ((first :: more).getLast (List.cons_ne_nil _ _)) ∧
      p.retxPayloadSize = ((first :: more).map p.rangeSize).sum ∧
      p.numHoles = (if first.Whole then 0 else more.length + 1) ∧
      (¬ first.Whole → ∀ i nack, (first :: more)[i]? = some nack →
        p.holeSoStart i = nack.soStart ∧ p.holeSoStop i = p.rangeStop nack)

def TxPdu.Acked (p : TxPdu) (freePdu : Bool) : Prop :=
  p.ack = true ∧ p.retransmit = false ∧ (freePdu = true → p.memBlock = none) ∧
    (p.transmitted = false ∨ p.memBlock.isSome = true ∧ p.retxPayloadSize ≠ 0)

/-- The slot behind the NACKs `taken` for its SN, which it held as `p` before. -/
structure Behind (p : TxPdu) (first : NackSn) (more : List NackSn) (q : TxPdu) : Prop where
  frame : q = { p with
    nack := true
    retransmit := true
    retxHoleIndex := 0
    nackSoStart := first.soStart
    nackSoStop := p.rangeStop ((first :: more).getLast (List.cons_ne_nil _ _))
    retxPayloadSize := ((first :: more).map p.rangeSize).sum
    numHoles := if first.Whole then 0 else more.length + 1
    holeSoStart := q.holeSoStart
    holeSoStop := q.holeSoStop
    retxCountNext := q.retxCountNext }
  holes : ∀ i nack, (first :: more)[i]? = some nack → ¬ first.Whole →
    q.holeSoStart i = nack.soStart ∧ q.holeSoStop i = p.rangeStop nack
  others : ∀ i, (first.Whole ∨ more.length < i) → q.holeSoStart i = p.holeSoStart i ∧
    q.holeSoStop i = p.holeSoStop i
  uncounted : p.retransmit = true → p.nackSoStart = first.soStart →
    q.retxCountNext = p.retxCountNext

variable {p q : TxPdu} {first : NackSn} {more : List NackSn}

theorem Behind.same_iff (behind : Behind p first more q) : q = p ↔ p.Records (first :: more) := by
  constructor
  · rintro rfl
    have frame := behind.frame
    refine ⟨congrArg TxPdu.nack frame, congrArg TxPdu.retransmit frame,
      congrArg TxPdu.retxHoleIndex frame,
      congrArg TxPdu.nackSoStart frame, congrArg TxPdu.nackSoStop frame,
        congrArg TxPdu.retxPayloadSize frame,
      congrArg TxPdu.numHoles frame, fun range i nack found => behind.holes i nack found range⟩
  · rintro ⟨nacked, pending, index, start, stop, size, count, listed⟩
    have starts : q.holeSoStart = p.holeSoStart ∧ q.holeSoStop = p.holeSoStop := by
      constructor
      all_goals
        funext i
        by_cases inside : first.Whole ∨ more.length < i
        · first
            | exact (behind.others i inside).1
            | exact (behind.others i inside).2
        · obtain ⟨range, short⟩ := not_or.mp inside
          have short : i < (first :: more).length := Nat.lt_succ_of_le (Nat.le_of_not_lt short)
          have found := List.getElem?_eq_getElem short
          first
            | exact (behind.holes i _ found range).1.trans (listed range i _ found).1.symm
            | exact (behind.holes i _ found range).2.trans (listed range i _ found).2.symm
    rw [behind.frame, starts.1, starts.2, behind.uncounted pending start, ← start, ← stop, ← size,
      ← count, ← index]
    cases p
    cases nacked
    cases pending
    rfl

end Slot

section Nack

variable {p : TxPdu} {sn prevNackSn : Nat} {nack : NackSn}

theorem whole_cast (nack : NackSn) : ((nack.soStart : Int) = 0 ∧ (nack.soEnd : Int) = 0x7FFF) ↔
    nack.Whole := by
  unfold NackSn.Whole
  omega

/-- The slot with the hole list begun anew. -/
def TxPdu.firstHole (p : TxPdu) (nack : NackSn) : TxPdu :=
  { p with
    nackSoStart := nack.soStart
    numHoles := if nack.Whole then 0 else 1
    retxHoleIndex := 0
    nackSoStop := p.rangeStop nack
    holeSoStart := if nack.Whole then p.holeSoStart
      else Function.update p.holeSoStart 0 nack.soStart
    holeSoStop := if nack.Whole then p.holeSoStop else Function.update p.holeSoStop 0
      (p.rangeStop nack) }

theorem nackRequest_takes_first (other : prevNackSn ≠ sn) (takes : p.Takes [] nack) :
    ∃ counts, (p.retransmit = true → p.nackSoStart = nack.soStart → counts = false) ∧
      nackRequest p sn prevNackSn nack.soStart nack.soEnd = (true, {
        pdu := p.firstHole nack
        retxCountIncrement := counts
        pduDataToRetx := p.rangeSize nack }) := by
  obtain ⟨-, ordered, kept, range⟩ := takes
  have ordered : ¬ (nack.soStart : Int) > nack.soEnd := by omega
  unfold nackRequest
  rw [if_neg ordered]
  by_cases whole : nack.Whole
  · rw [if_pos whole] at range
    obtain ⟨-, open_, some_⟩ := range
    obtain ⟨start, stop⟩ := (whole_cast nack).mpr whole
    have last : p.rangeStop nack = p.payloadSize - 1 := if_pos stop
    rw [if_pos ((whole_cast nack).mpr whole), if_pos ⟨other, open_, kept⟩]
    refine ⟨!p.retransmit || p.nackSoStart != 0, ?_, ?_⟩
    · intro pending same
      rw [pending, same, start]
      rfl
    · have size : p.rangeSize nack = p.payloadSize := by
        unfold TxPdu.rangeSize
        rw [last, start]
        omega
      simp only [TxPdu.firstHole, if_pos whole, size, last, start, some_, decide_true]
  · rw [if_neg whole] at range
    obtain ⟨inside, fits, -⟩ := range
    rw [if_neg fun both => whole ((whole_cast nack).mp both), if_pos kept]
    refine ⟨!p.retransmit || decide ((nack.soStart : Int) < p.nackSoStart), ?_, ?_⟩
    · intro pending same
      rw [pending, same]
      simp only [Bool.not_true, Bool.false_or, lt_self_iff_false, decide_false]
    · have stop : (if (nack.soEnd : Int) = 0x7FFF then p.payloadSize - 1 else nack.soEnd) =
        p.rangeStop nack := rfl
      simp only [TxPdu.firstHole, stop, if_pos (And.intro inside fits), if_pos other, if_neg whole]
      rfl

/-- The slot with another hole, behind `k`. -/
def TxPdu.nextHole (q : TxPdu) (k : Nat) (nack : NackSn) (stop : Int) : TxPdu :=
  { q with
    holeSoStart := Function.update q.holeSoStart k nack.soStart
    holeSoStop := Function.update q.holeSoStop k stop
    nackSoStop := stop
    numHoles := k + 1 }

theorem nackRequest_takes_next {first : NackSn} {more : List NackSn} {q : TxPdu}
    (behind : Behind p first more q)
    (takes : p.Takes (first :: more) nack) :
    nackRequest q sn sn nack.soStart nack.soEnd = (true, {
      pdu := q.nextHole (more.length + 1) nack (p.rangeStop nack)
      pduDataToRetx := p.rangeSize nack }) := by
  obtain ⟨-, ordered, kept, range⟩ := takes
  have ordered : ¬ (nack.soStart : Int) > nack.soEnd := by omega
  have last := List.getLast?_eq_some_getLast (List.cons_ne_nil first more)
  have whole : ¬ nack.Whole := by
    intro whole
    rw [if_pos whole] at range
    cases range.1
  rw [if_neg whole] at range
  obtain ⟨inside, fits, ranges, few, room⟩ := range
  have ranges : ¬ first.Whole := ranges first rfl
  have beyond := room _ last
  have holes : q.numHoles = more.length + 1 :=
    (congrArg TxPdu.numHoles behind.frame).trans (if_neg ranges)
  have payload : q.payloadSize = p.payloadSize := congrArg (fun pdu => pdu.payloadSize) behind.frame
  have unmarked : q.maxRetransmit = false := (congrArg TxPdu.maxRetransmit behind.frame).trans kept
  have stop : (if (nack.soEnd : Int) = 0x7FFF then q.payloadSize - 1 else nack.soEnd) =
      p.rangeStop nack := by
    rw [payload]
    rfl
  have before : q.holeSoStop more.length < nack.soStart := by
    have found : (first :: more)[more.length]? =
        some ((first :: more).getLast (List.cons_ne_nil _ _)) := by
      rw [← last, List.getLast?_eq_getElem?]
      rfl
    rw [(behind.holes more.length _ found ranges).2]
    exact beyond
  unfold nackRequest
  rw [if_neg ordered, if_neg fun both => whole ((whole_cast nack).mp both), if_pos unmarked, stop]
  simp only [payload, if_pos (And.intro inside fits), holes, ne_eq, not_true_eq_false, if_false]
  rw [if_pos ⟨Nat.succ_ne_zero _, few⟩, Nat.add_sub_cancel, if_pos before, TxPdu.nextHole, payload]
  rfl

/-- What a NACK that is refused for the whole PDU leaves in a slot without data. -/
def TxPdu.cleared (p : TxPdu) : TxPdu :=
  { p with nackSoStart := 0, numHoles := 0, retxHoleIndex := 0, nackSoStop := p.payloadSize - 1 }

/-- The first NACK of an SN, when it is not taken. -/
theorem nackRequest_refuses_first (other : prevNackSn ≠ sn) (present : p.memBlock.isSome = true)
    (refuses : ¬ p.Takes [] nack) :
    ∃ request, nackRequest p sn prevNackSn nack.soStart nack.soEnd = (false, request) ∧
      request.pdu = if nack.Whole ∧ p.ack = false ∧ p.maxRetransmit = false then
      p.cleared else p := by
  unfold nackRequest
  by_cases whole : nack.Whole
  · obtain ⟨start, stop⟩ := (whole_cast nack).mpr whole
    have ordered : ¬ (nack.soStart : Int) > nack.soEnd := by omega
    rw [if_neg ordered, if_pos ((whole_cast nack).mpr whole)]
    by_cases asked : p.ack = false ∧ p.maxRetransmit = false
    · rw [if_pos ⟨other, asked⟩, if_pos ⟨whole, asked⟩]
      have empty : ¬ 0 < p.payloadSize := by
        intro some_
        refine refuses ⟨present, ?_, asked.2, ?_⟩
        · omega
        · rw [if_pos whole]
          exact ⟨rfl, asked.1, some_⟩
      rw [decide_eq_false empty]
      exact ⟨_, rfl, rfl⟩
    · rw [if_neg fun all => asked all.2, if_neg fun all => asked all.2]
      exact ⟨_, rfl, rfl⟩
  · have kept :
        (if nack.Whole ∧ p.ack = false ∧ p.maxRetransmit = false then p.cleared else p) = p :=
      if_neg fun all => whole all.1
    rw [kept]
    split
    · exact ⟨_, rfl, rfl⟩
    · rename_i ordered
      rw [if_neg fun both => whole ((whole_cast nack).mp both)]
      split
      · rename_i unmarked
        have missed :
            ¬ ((nack.soStart : Int) ≤ p.rangeStop nack ∧ p.rangeStop nack < p.payloadSize) := by
          intro fits
          refine refuses ⟨present, ?_, unmarked, ?_⟩
          · omega
          · rw [if_neg whole]
            exact ⟨fits.1, fits.2, nofun, by decide, nofun⟩
        have stop : (if (nack.soEnd : Int) = 0x7FFF then p.payloadSize - 1 else nack.soEnd) =
          p.rangeStop nack := rfl
        simp only [stop, if_neg missed]
        exact ⟨_, rfl, rfl⟩
      · exact ⟨_, rfl, rfl⟩

/-- Another NACK of the same SN, when it is not taken. -/
theorem nackRequest_refuses_next {first : NackSn} {more : List NackSn} {q : TxPdu}
    (behind : Behind p first more q)
    (present : p.memBlock.isSome = true) (refuses : ¬ p.Takes (first :: more) nack) :
    ∃ request, nackRequest q sn sn nack.soStart nack.soEnd = (false, request) ∧
      request.pdu = q := by
  have last := List.getLast?_eq_some_getLast (List.cons_ne_nil first more)
  have holes : q.numHoles = if first.Whole then 0 else more.length + 1 :=
    congrArg TxPdu.numHoles behind.frame
  have payload : q.payloadSize = p.payloadSize := congrArg (fun pdu => pdu.payloadSize) behind.frame
  have marked : q.maxRetransmit = p.maxRetransmit :=
    congrArg (fun pdu => pdu.maxRetransmit) behind.frame
  unfold nackRequest
  split
  · exact ⟨_, rfl, rfl⟩
  · rename_i ordered
    by_cases whole : nack.Whole
    · rw [if_pos ((whole_cast nack).mpr whole), if_neg fun all => all.1 rfl]
      exact ⟨_, rfl, rfl⟩
    · rw [if_neg fun both => whole ((whole_cast nack).mp both)]
      split
      · rename_i kept
        have stop : (if (nack.soEnd : Int) = 0x7FFF then q.payloadSize - 1 else nack.soEnd) =
            p.rangeStop nack := by
          rw [payload]
          rfl
        simp only [stop, ne_eq, not_true_eq_false, if_false]
        split
        · rename_i fits
          split
          · rename_i some_
            split
            · rename_i beyond
              -- nothing was left to refuse
              refine absurd ?_ refuses
              refine ⟨present, by omega, marked ▸ kept, ?_⟩
              rw [if_neg whole]
              have ranges : ¬ first.Whole := by
                intro whole
                rw [if_pos whole] at holes
                exact some_.1 holes
              rw [if_neg ranges] at holes
              rw [payload] at fits
              rw [holes] at some_ beyond
              refine ⟨fits.1, fits.2, fun other found => ?_, some_.2, fun other found => ?_⟩
              · cases found
                exact ranges
              · obtain rfl : (first :: more).getLast _ = other :=
                  Option.some.inj (last.symm.trans found)
                have found : (first :: more)[more.length]? =
                    some ((first :: more).getLast (List.cons_ne_nil _ _)) := by
                  rw [← last, List.getLast?_eq_getElem?]
                  rfl
                rw [← (behind.holes more.length _ found ranges).2]
                exact beyond
            · exact ⟨_, rfl, rfl⟩
          · exact ⟨_, rfl, rfl⟩
        · exact ⟨_, rfl, rfl⟩
      · exact ⟨_, rfl, rfl⟩

end Nack

section Midway

/-- The state behind some NACKs for one SN that began at `tx`. -/
structure Midway (tx : Tx) (sn : Nat) (first : NackSn) (more : List NackSn) (now : Tx) : Prop where
  slot : Behind (tx.pdu sn) first more (now.pdu sn)
  frame : now = { tx with
    retransNumPdus := now.retransNumPdus
    retransNumBytesToRetransmit := now.retransNumBytesToRetransmit }.setPdu sn (now.pdu sn)
  counters : (tx.pdu sn).retransmit = true → now.retransNumPdus = tx.retransNumPdus ∧
    now.retransNumBytesToRetransmit =
      tx.retransNumBytesToRetransmit + ((now.pdu sn).retxPayloadSize - (tx.pdu sn).retxPayloadSize)

variable {tx now : Tx} {sn prevNackSn : Nat} {first nack : NackSn} {more : List NackSn}

theorem setPdu_pdu (tx : Tx) (sn : Nat) : tx.setPdu sn (tx.pdu sn) = tx := by
  rw [Tx.setPdu, Tx.pdu, Function.update_eq_self]

theorem pdu_stored (tx : Tx) (sn : Nat) (pdu : TxPdu) : (tx.setPdu sn pdu).pdu sn = pdu :=
  Function.update_self _ _ _

theorem setPdu_over {pdus bytes : Int} {q : TxPdu} (frame : now = { tx with
      retransNumPdus := pdus
      retransNumBytesToRetransmit := bytes }.setPdu sn q) (pdus' bytes' : Int) (q' : TxPdu) :
    { now with retransNumPdus := pdus', retransNumBytesToRetransmit := bytes' }.setPdu sn q' =
      { tx with retransNumPdus := pdus', retransNumBytesToRetransmit := bytes' }.setPdu sn q' := by
  subst frame
  simp only [Tx.setPdu, Function.update_idem]

/-- NACKs that were recorded before change nothing. -/
theorem Midway.unchanged (midway : Midway tx sn first more now)
    (records : (tx.pdu sn).Records (first :: more)) :
    now = tx := by
  have same := midway.slot.same_iff.mpr records
  have pending := records.2.1
  obtain ⟨pdus, bytes⟩ := midway.counters pending
  rw [same, Int.sub_self, Int.add_zero] at bytes
  rw [midway.frame, pdus, bytes, same]
  exact setPdu_pdu tx sn

theorem nackPdu_takes_first (other : prevNackSn ≠ sn) (takes : (tx.pdu sn).Takes [] nack) :
    (nackPdu tx sn prevNackSn nack.soStart nack.soEnd).1 = true ∧
      Midway tx sn nack [] (nackPdu tx sn prevNackSn nack.soStart nack.soEnd).2 := by
  obtain ⟨counts, uncounted, request⟩ := nackRequest_takes_first other takes
  unfold nackPdu
  rw [if_pos takes.1, request]
  simp only [if_true, if_pos other]
  have flag : ((tx.pdu sn).firstHole nack).retransmit = (tx.pdu sn).retransmit := rfl
  generalize counting : (if counts = true ∧ ((tx.pdu sn).firstHole nack).retxCount =
    ((tx.pdu sn).firstHole nack).retxCountNext then _ else _) = stored
  obtain ⟨count, counted, rfl⟩ : ∃ count, (counts = false → count = (tx.pdu sn).retxCountNext) ∧
      { (tx.pdu sn).firstHole nack with nack := true, retxCountNext := count } = stored := by
    by_cases due : counts = true ∧ ((tx.pdu sn).firstHole nack).retxCount =
      ((tx.pdu sn).firstHole nack).retxCountNext
    · rw [if_pos due] at counting
      refine ⟨_, fun unset => ?_, counting⟩
      rw [unset] at due
      cases due.1
    · rw [if_neg due] at counting
      exact ⟨_, fun _ => rfl, counting⟩
  -- the slot, whichever branch stores it
  have behind {q : TxPdu} (stored : q = { (tx.pdu sn).firstHole nack with
      nack := true
      retxCountNext := count
      retransmit := true
      retxPayloadSize := (tx.pdu sn).rangeSize nack }) : Behind (tx.pdu sn) nack [] q := by
    subst stored
    refine ⟨?_, ?_, ?_, ?_⟩
    · simp only [List.getLast_singleton, List.map_cons, List.map_nil, List.sum_cons,
        List.sum_nil, Int.add_zero]
      rfl
    · intro i other found range
      cases i with
      | zero =>
        cases found
        simp only [TxPdu.firstHole, if_neg range, Function.update_self, and_self]
      | succ i => cases found
    · intro i outside
      by_cases whole : nack.Whole
      · simp only [TxPdu.firstHole, if_pos whole, and_self]
      · have later : i ≠ 0 := Nat.pos_iff_ne_zero.mp (outside.resolve_left whole)
        simp only [TxPdu.firstHole, if_neg whole, ne_eq, later, not_false_eq_true,
          Function.update_of_ne, and_self]
    · intro pending same
      exact counted (uncounted pending same)
  by_cases pending : (tx.pdu sn).retransmit = true
  · simp only [flag, if_pos pending]
    refine ⟨trivial, ?_, ?_, ?_⟩
    · rw [pdu_stored]
      refine behind ?_
      rw [← pending]
    · rw [pdu_stored]
      rfl
    · rw [pdu_stored]
      exact fun _ => ⟨rfl, rfl⟩
  · simp only [flag, if_neg pending]
    refine ⟨trivial, ?_, ?_, fun asked => absurd asked pending⟩
    · rw [pdu_stored]
      exact behind rfl
    · rw [pdu_stored]
      rfl

theorem Behind.next {p q : TxPdu} (behind : Behind p first more q) (ranges : ¬ first.Whole)
    (nack : NackSn) :
    Behind p first (more ++ [nack]) { q.nextHole (more.length + 1) nack (p.rangeStop nack) with
      nack := true
      retxPayloadSize := q.retxPayloadSize + p.rangeSize nack } := by
  refine ⟨?_, ?_, ?_, behind.uncounted⟩
  · have last : (first :: (more ++ [nack])).getLast (List.cons_ne_nil _ _) = nack :=
      List.getLast_concat (l := first :: more)
    have total : ((first :: (more ++ [nack])).map p.rangeSize).sum =
        ((first :: more).map p.rangeSize).sum + p.rangeSize nack := by
      rw [← List.cons_append, List.map_append, List.sum_append]
      simp only [List.map_cons, List.map_nil, List.sum_cons, List.sum_nil, Int.add_zero]
    have frame := behind.frame
    have payload : q.retxPayloadSize = ((first :: more).map p.rangeSize).sum :=
      congrArg (fun pdu => pdu.retxPayloadSize) frame
    rw [last, total, if_neg ranges, List.length_append, payload]
    conv_lhs => rw [TxPdu.nextHole, frame]
    rfl
  · intro i other found range
    rcases Nat.lt_trichotomy i (more.length + 1) with before | rfl | beyond
    · have found : (first :: more)[i]? = some other := by
        rw [← List.cons_append, List.getElem?_append_left before] at found
        exact found
      simp only [TxPdu.nextHole, ne_eq, Nat.ne_of_lt before, not_false_eq_true,
        Function.update_of_ne]
      exact behind.holes i other found range
    · have same : nack = other := by
        have last : (first :: (more ++ [nack]))[more.length + 1]? = some nack :=
          List.getElem?_concat_length (l := first :: more)
        exact Option.some.inj (last.symm.trans found)
      simp only [TxPdu.nextHole, Function.update_self, same, and_self]
    · have none_ : (first :: (more ++ [nack]))[i]? = none := by
        apply List.getElem?_eq_none
        rw [List.length_cons, List.length_append]
        exact Nat.succ_le_of_lt beyond
      rw [none_] at found
      cases found
  · intro i outside
    have later := outside.resolve_left ranges
    rw [List.length_append] at later
    have other : i ≠ more.length + 1 := Nat.ne_of_gt later
    simp only [TxPdu.nextHole, ne_eq, other, not_false_eq_true, Function.update_of_ne]
    exact behind.others i (Or.inr (Nat.lt_of_succ_lt later))

theorem nackPdu_takes_next (midway : Midway tx sn first more now)
    (takes : (tx.pdu sn).Takes (first :: more) nack) :
    (nackPdu now sn sn nack.soStart nack.soEnd).1 = true ∧
      Midway tx sn first (more ++ [nack]) (nackPdu now sn sn nack.soStart nack.soEnd).2 := by
  have behind := midway.slot
  have request : nackRequest (now.pdu sn) sn sn nack.soStart nack.soEnd = _ :=
    nackRequest_takes_next behind takes
  have present : (now.pdu sn).memBlock.isSome = true :=
    (congrArg (fun pdu => pdu.memBlock.isSome) behind.frame).trans takes.1
  have pending : (now.pdu sn).retransmit = true := congrArg (fun pdu => pdu.retransmit) behind.frame
  have payload : (now.pdu sn).retxPayloadSize = ((first :: more).map (tx.pdu sn).rangeSize).sum :=
    congrArg (fun pdu => pdu.retxPayloadSize) behind.frame
  have many : more.length + 1 + 1 > 1 := Nat.lt_add_of_pos_left (Nat.succ_pos _)
  unfold nackPdu
  rw [if_pos present, request]
  simp only [if_true, Bool.false_eq_true, false_and, if_false, TxPdu.nextHole, if_pos pending,
    ne_eq, not_true_eq_false, if_pos many]
  have ranges : ¬ first.Whole := by
    obtain ⟨-, -, -, range⟩ := takes
    by_cases whole : nack.Whole
    · rw [if_pos whole] at range
      cases range.1
    · rw [if_neg whole] at range
      exact range.2.2.1 first rfl
  refine ⟨trivial, ?_, ?_, ?_⟩
  · rw [pdu_stored]
    exact behind.next ranges nack
  · rw [pdu_stored]
    exact setPdu_over midway.frame _ _ _
  · rw [pdu_stored]
    intro asked
    obtain ⟨pdus, bytes⟩ := midway.counters asked
    refine ⟨pdus, ?_⟩
    simp only [Tx.setPdu]
    rw [bytes]
    omega

/-- Nothing for such a NACK to clear. -/
def TxPdu.Blank (p : TxPdu) : Prop :=
  p.nackSoStart = 0 ∧ p.numHoles = 0 ∧ p.retxHoleIndex = 0 ∧ p.nackSoStop = p.payloadSize - 1

theorem cleared_iff (p : TxPdu) : p.cleared = p ↔ p.Blank := by
  constructor
  · intro same
    exact ⟨(congrArg TxPdu.nackSoStart same).symm, (congrArg TxPdu.numHoles same).symm,
      (congrArg TxPdu.retxHoleIndex same).symm, (congrArg TxPdu.nackSoStop same).symm⟩
  · rintro ⟨start, holes, index, stop⟩
    cases p
    dsimp only at start holes index stop
    subst start holes index stop
    rfl

/-- Whether a refused NACK is one that clears a slot. -/
def TxPdu.Clears (p : TxPdu) (nack : NackSn) : Prop :=
  p.memBlock.isSome = true ∧ nack.Whole ∧ p.ack = false ∧ p.maxRetransmit = false

instance (p : TxPdu) (nack : NackSn) : Decidable (p.Clears nack) := by
  unfold TxPdu.Clears
  infer_instance

theorem nackPdu_refuses_first (other : prevNackSn ≠ sn) (refuses : ¬ (tx.pdu sn).Takes [] nack) :
    nackPdu tx sn prevNackSn nack.soStart nack.soEnd =
      (false, if (tx.pdu sn).Clears nack then tx.setPdu sn (tx.pdu sn).cleared else tx) := by
  unfold nackPdu
  by_cases present : (tx.pdu sn).memBlock.isSome = true
  · obtain ⟨request, refused, pdu⟩ := nackRequest_refuses_first other present refuses
    rw [if_pos present, refused]
    simp only [Bool.false_eq_true, if_false, pdu]
    by_cases clears : nack.Whole ∧ (tx.pdu sn).ack = false ∧ (tx.pdu sn).maxRetransmit = false
    · rw [if_pos clears, if_pos ⟨present, clears⟩]
    · rw [if_neg clears, if_neg fun all => clears all.2, setPdu_pdu]
  · rw [if_neg present, if_neg fun all => present all.1]

theorem nackPdu_refuses_next (midway : Midway tx sn first more now)
    (refuses : ¬ (tx.pdu sn).Takes (first :: more) nack) :
    nackPdu now sn sn nack.soStart nack.soEnd = (false, now) := by
  have block : (now.pdu sn).memBlock = (tx.pdu sn).memBlock :=
    congrArg (fun pdu => pdu.memBlock) midway.slot.frame
  unfold nackPdu
  by_cases present : (tx.pdu sn).memBlock.isSome = true
  · obtain ⟨request, refused, pdu⟩ : ∃ request,
        nackRequest (now.pdu sn) sn sn nack.soStart nack.soEnd = (false, request) ∧
            request.pdu = now.pdu sn :=
      nackRequest_refuses_next midway.slot present refuses
    rw [block, if_pos present, refused]
    simp only [Bool.false_eq_true, if_false, pdu]
    rw [setPdu_pdu]
  · rw [block, if_neg present]

end Midway

end OpenAir.Rlc.Am
