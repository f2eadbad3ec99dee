import Mathlib.Data.List.TakeWhile
import OpenAir.Rlc.Am.StatusRanges

/-! The main loop of the STATUS generator, SN by SN: what it reports, counted from
VR(R), while bits are left. -/
namespace OpenAir.Rlc.Am
open Interval

/-- The SN `k` ahead of VR(R). -/
def snAt (vrR k : Nat) : Nat := (vrR + k) % snModulo

theorem snAt_lt (vrR k : Nat) : snAt vrR k < snModulo := Nat.mod_lt _ (by decide)

theorem diffSn_snAt {vrR k : Nat} (valid : vrR < snModulo) (small : k < snModulo) :
    diffSn (snAt vrR k) vrR = k := Serial.dist_add valid small

theorem snAt_diffSn {vrR sn : Nat} (valid : vrR < snModulo) (below : sn < snModulo) :
    snAt vrR (diffSn sn vrR) = sn := Serial.add_dist valid below

theorem nextSn_snAt (vrR k : Nat) : nextSn (snAt vrR k) = snAt vrR (k + 1) := by
  simp only [nextSn, snAt, Nat.mod_add_mod, Nat.add_assoc]

theorem snAt_inj {vrR j k : Nat} (valid : vrR < snModulo) (left : j < snModulo)
    (right : k < snModulo)
    (same : snAt vrR j = snAt vrR k) : j = k := by
  rw [← diffSn_snAt valid left, same, diffSn_snAt valid right]

/-- The elements of the same SN that follow `e`. -/
def sameSn (e : RxPdu) (rest : List RxPdu) : List RxPdu :=
  rest.takeWhile fun other => other.info.sn = e.info.sn

/-- The list behind the last segment of the SN, or behind all its elements. -/
def behindEnd (sn : Nat) : List RxPdu → List RxPdu
  | [] => []
  | e :: rest => if e.info.sn = sn then
      (if e.info.lsf then rest else behindEnd sn rest) else e :: rest

/-- The ranges reported of a PDU whose first stored segment is `e`. -/
def soughtRanges (e : RxPdu) (es : List RxPdu) : List (Nat × Nat) :=
  (if 0 < e.info.so then [(0, e.info.so)] else []) ++ if e.ends then [] else soughtFrom e.stop es

def wholeEntry (sn : Nat) : NackedRange := ⟨sn, 0, statusPduSoEndAllBytes⟩

/-- The entries and the number of SNs below ACK_SN, from the SN `k` ahead of VR(R)
on, with `n` SNs to go up to VR(MS) and `bits` left. -/
def reported (vrR : Nat) : Nat → Nat → Nat → List RxPdu → List NackedRange × Nat
  | 0, k, _, _ => ([], k)
  | _, k, _, [] => ([], k)
  | n + 1, k, bits, e :: rest =>
    if e.info.sn ≠ snAt vrR k then
      if bits < nackBits then ([], k)
      else
        let later := reported vrR n (k + 1) (bits - nackBits) (e :: rest)
        (wholeEntry (snAt vrR k) :: later.1, later.2)
    else if e.allSegmentsReceived then
      reported vrR n (k + 1) bits (rest.dropWhile fun other => other.info.sn = e.info.sn)
    else if bits < nackSoBits then ([], k)
    else
      let ranges := soughtRanges e (sameSn e rest)
      let entries := (ranges.take (bits / nackSoBits)).map (rangeEntry e.info.sn)
      if ranges.length ≤ bits / nackSoBits then
        let later := reported vrR n (k + 1) (bits - nackSoBits * ranges.length)
          (if e.info.lsf then rest else behindEnd e.info.sn rest)
        (entries ++ later.1, later.2)
      else (entries, k)

def StatusBuild.entries (b : StatusBuild) : List NackedRange := b.info.nackList.map NackSn.nacked

def StatusBuild.ack (b : StatusBuild) : Nat := if b.completed then b.info.ackSn else b.snNack

@[simp] theorem StatusBuild.entries_addNack (b : StatusBuild) (nack : NackSn) (bits : Nat) :
    (b.addNack nack bits).entries = b.entries ++ [nack.nacked] := by
  simp [entries, addNack]

@[simp] theorem StatusBuild.entries_stopAt (b : StatusBuild)
    (sn : Nat) : (b.stopAt sn).entries = b.entries := rfl

/-- Ranges of one SN reported in order while they fit. `rs` is what was sought and
`cursor` where the loop goes on when all of it fits. -/
structure RangesReported (sn bits : Nat) (rs : List (Nat × Nat)) (cursor : List RxPdu)
    (nbBitsToTransmit : Nat) (b : StatusBuild) (out : StatusBuild × List RxPdu) : Prop where
  entries : out.1.entries = b.entries ++ (rs.take (bits / nackSoBits)).map (rangeEntry sn)
  all : rs.length ≤ bits / nackSoBits → out.1.completed = false ∧ out.2 = cursor ∧
    out.1.nbBitsTransmitted + (bits - nackSoBits * rs.length) = nbBitsToTransmit
  cut : bits / nackSoBits < rs.length → out.1.completed = true ∧ out.1.info.ackSn = sn

section
variable {sn bits nbBitsToTransmit : Nat} {b : StatusBuild} {out : StatusBuild × List RxPdu}
  {rs : List (Nat × Nat)} {cursor : List RxPdu}

theorem RangesReported.none (fresh : b.completed = false)
    (budget : b.nbBitsTransmitted + bits = nbBitsToTransmit) :
    RangesReported sn bits [] cursor nbBitsToTransmit b (b, cursor) where
  entries := by simp
  all := fun _ => ⟨fresh, rfl, by simpa using budget⟩
  cut := nofun

theorem RangesReported.cons {p : Nat × Nat} (room : nackSoBits ≤ bits)
    (later : RangesReported sn (bits - nackSoBits) rs cursor nbBitsToTransmit
      (b.addNack (nackRange sn p.1 (p.2 - 1)) nackSoBits) out) :
    RangesReported sn bits (p :: rs) cursor nbBitsToTransmit b out := by
  have step : bits / nackSoBits = (bits - nackSoBits) / nackSoBits + 1 := by
    rw [← Nat.div_eq_sub_div (by decide) room]
  refine ⟨?_, fun fits => ?_, fun short => ?_⟩
  · rw [later.entries, step, List.take_succ_cons, List.map_cons]
    simp [rangeEntry]
  · rw [step, List.length_cons] at fits
    obtain ⟨open', same, left⟩ := later.all (by omega)
    refine ⟨open', same, ?_⟩
    rw [← left, List.length_cons, Nat.mul_add, Nat.mul_one, Nat.add_comm (nackSoBits * rs.length),
      Nat.sub_sub]
  · rw [step, List.length_cons] at short
    exact later.cut (by omega)

/-- The first range that does not fit ends the report. -/
theorem RangesReported.stop (full : bits < nackSoBits) (some : rs ≠ []) {rest : List RxPdu} :
    RangesReported sn bits rs cursor nbBitsToTransmit b (b.stopAt sn, rest) := by
  have zero : bits / nackSoBits = 0 := Nat.div_eq_of_lt full
  refine ⟨by simp [zero], fun fits => ?_, fun _ => ⟨rfl, rfl⟩⟩
  rw [zero] at fits
  exact absurd (List.length_eq_zero_iff.mp (Nat.le_zero.mp fits)) some

theorem nackBytes_fits {soStart soEnd : Int}
    (budget : b.nbBitsTransmitted + bits = nbBitsToTransmit)
    (room : nackSoBits ≤ bits) :
    nackBytes sn nbBitsToTransmit soStart soEnd b =
    b.addNack (nackRange sn soStart soEnd) nackSoBits :=
  if_pos (by omega)

theorem nackBytes_full {soStart soEnd : Int}
    (budget : b.nbBitsTransmitted + bits = nbBitsToTransmit)
    (full : bits < nackSoBits) : nackBytes sn nbBitsToTransmit soStart soEnd b = b.stopAt sn :=
  if_neg (by omega)

theorem nackBytes_budget {nack : NackSn} (budget : b.nbBitsTransmitted + bits = nbBitsToTransmit)
    (room : nackSoBits ≤ bits) :
    (b.addNack nack nackSoBits).nbBitsTransmitted + (bits - nackSoBits) = nbBitsToTransmit := by
  simp only [StatusBuild.addNack]
  omega

/-- The tail of a PDU whose end is not known. -/
theorem nackBytes_tail {w : Nat} (fresh : b.completed = false)
    (budget : b.nbBitsTransmitted + bits = nbBitsToTransmit) :
    RangesReported sn bits [(w, 2 ^ 15)] cursor nbBitsToTransmit b
      (nackBytes sn nbBitsToTransmit w statusPduSoEndAllBytes b, cursor) := by
  by_cases room : nackSoBits ≤ bits
  · rw [nackBytes_fits budget room]
    exact RangesReported.cons room (RangesReported.none fresh (nackBytes_budget budget room))
  · rw [nackBytes_full budget (Nat.not_le.mp room)]
    exact RangesReported.stop (Nat.not_le.mp room) (by simp)

/-- The loop over the segments reports what `soughtFrom` lists. -/
theorem nackSegments_reported {rest : List RxPdu} {w : Nat} (fresh : b.completed = false)
    (budget : b.nbBitsTransmitted + bits = nbBitsToTransmit)
    (segments : ∀ e ∈ rest.takeWhile (fun other => other.info.sn = sn), e.Fits ∧
      e.ends = e.info.lsf) :
    RangesReported sn bits (soughtFrom w (rest.takeWhile fun other => other.info.sn = sn))
      (behindEnd sn rest)
      nbBitsToTransmit b (nackSegments sn nbBitsToTransmit rest w b) := by
  induction rest generalizing w b bits with
  | nil => exact nackBytes_tail fresh budget
  | cons e rest ih =>
    by_cases same : e.info.sn = sn
    · have inside : (e :: rest).takeWhile (fun other => other.info.sn = sn) =
          e :: rest.takeWhile fun other => other.info.sn = sn := by
        rw [List.takeWhile_cons_of_pos (by simpa using same)]
      rw [inside] at segments ⊢
      obtain ⟨fits, ends⟩ := segments e List.mem_cons_self
      have later := fun other member => segments other (List.mem_cons_of_mem _ member)
      have moved : ((w : Int) + e.info.payloadSize) =
          ((w + e.info.payloadSize.toNat : Nat) : Int) := by
        have := fits.size
        omega
      simp only [nackSegments, behindEnd, same, if_true, soughtFrom, ends, Nat.cast_lt]
      by_cases gap : w < e.info.so
      · simp only [gap, if_true]
        by_cases room : nackSoBits ≤ bits
        · rw [nackBytes_fits budget room]
          have open' : (b.addNack (nackRange sn w (e.info.so - 1)) nackSoBits).completed = false :=
            fresh
          simp only [open', Bool.false_eq_true, if_false]
          cases e.info.lsf with
          | true =>
            exact RangesReported.cons room
              (RangesReported.none open' (nackBytes_budget budget room))
          | false =>
            exact RangesReported.cons room (ih open' (nackBytes_budget budget room) later)
        · rw [nackBytes_full budget (Nat.not_le.mp room)]
          simp only [StatusBuild.stopAt, if_true]
          exact RangesReported.stop (Nat.not_le.mp room) (by simp)
      · simp only [gap, if_false]
        cases e.info.lsf with
        | true => exact RangesReported.none fresh budget
        | false =>
          simp only [Bool.false_eq_true, if_false, moved]
          exact ih fresh budget later
    · have inside : (e :: rest).takeWhile (fun other => other.info.sn = sn) = [] := by
        rw [List.takeWhile_cons_of_neg (by simpa using same)]
      rw [inside]
      simp only [nackSegments, behindEnd, same, if_false]
      exact nackBytes_tail fresh budget

/-- A PDU that is not fully received. -/
theorem nackSegmented_reported {e : RxPdu} {rest : List RxPdu} (fresh : b.completed = false)
    (budget : b.nbBitsTransmitted + bits = nbBitsToTransmit) (room : nackSoBits ≤ bits)
    (fits : e.Fits) (ends : e.ends = e.info.lsf)
    (segments : ∀ other ∈ sameSn e rest, other.Fits ∧ other.ends = other.info.lsf) :
    RangesReported e.info.sn bits (soughtRanges e (sameSn e rest))
      (if e.info.lsf then rest else behindEnd e.info.sn rest) nbBitsToTransmit b
      (nackSegmented nbBitsToTransmit e rest b) := by
  have behind {b : StatusBuild} {bits : Nat} (fresh : b.completed = false)
      (budget : b.nbBitsTransmitted + bits = nbBitsToTransmit) :
      RangesReported e.info.sn bits (if e.info.lsf then [] else soughtFrom e.stop (sameSn e rest))
        (if e.info.lsf then rest else behindEnd e.info.sn rest) nbBitsToTransmit b
        (if e.info.lsf then
            (b, rest) else nackSegments e.info.sn nbBitsToTransmit rest e.stop b) := by
    cases e.info.lsf with
    | true => exact RangesReported.none fresh budget
    | false => exact nackSegments_reported fresh budget segments
  simp only [soughtRanges, nackSegmented, fits.stop_eq, ends]
  by_cases first : e.info.so = 0
  · simp only [first, ne_eq, not_true_eq_false, if_false, Nat.lt_irrefl, List.nil_append]
    exact behind fresh budget
  · have positive : 0 < e.info.so := Nat.pos_of_ne_zero first
    simp only [first, ne_eq, not_false_eq_true, positive, if_true]
    exact RangesReported.cons room (behind fresh (nackBytes_budget budget room))

end

theorem RxOrdered.segments {vrR : Nat} {e : RxPdu} {rest : List RxPdu}
    (ordered : RxOrdered vrR (e :: rest))
    (whole : WholeMarked (e :: rest)) (unmarked : e.allSegmentsReceived = false) :
    e.ends = e.info.lsf ∧ ∀ other ∈ sameSn e rest, other.Fits ∧ other.ends = other.info.lsf := by
  have plain (other : RxPdu) (segment : other.info.rf = true) : other.ends = other.info.lsf := by
    simp [RxPdu.ends, segment]
  constructor
  · apply plain
    by_contra notSegment
    have marked := (whole e List.mem_cons_self (by simpa using notSegment)).2
    rw [unmarked] at marked
    cases marked
  · intro other member
    have inside : other ∈ rest := (List.takeWhile_sublist _).subset member
    have sn : other.info.sn = e.info.sn := by simpa using List.mem_takeWhile_imp member
    refine ⟨ordered.fits other (List.mem_cons_of_mem _ inside), plain other ?_⟩
    by_contra notSegment
    -- a whole PDU would start at byte 0, where `e` stands
    have start := (whole other (List.mem_cons_of_mem _ inside) (by simpa using notSegment)).1
    have proper := (ordered.fits e List.mem_cons_self).proper
    rcases (List.pairwise_cons.mp ordered.sorted).1 other inside with ahead | ⟨-, apart⟩
    · rw [sn] at ahead
      exact Nat.lt_irrefl _ ahead
    · omega

theorem behindEnd_sublist (sn : Nat) (l : List RxPdu) : (behindEnd sn l).Sublist l := by
  induction l with
  | nil => exact List.Sublist.refl _
  | cons e rest ih =>
    rw [behindEnd]
    split
    · split
      · exact List.sublist_cons_self _ _
      · exact ih.trans (List.sublist_cons_self _ _)
    · exact List.Sublist.refl _

section
variable {vrR vrMs snCursor nbBitsToTransmit : Nat}

theorem nackMissing_rounds (valid : vrR < snModulo) {rounds k : Nat}
    {b : StatusBuild} (position : b.snNack = snAt vrR k) (enough : diffSn vrMs vrR ≤ k + rounds)
    (inside : k ≤ diffSn vrMs vrR) :
    nackMissing vrR vrMs snCursor nbBitsToTransmit (rounds + 1) b =
      nackMissing vrR vrMs snCursor nbBitsToTransmit rounds b := by
  have turn : diffSn vrMs vrR < snModulo := Serial.dist_lt valid
  induction rounds generalizing b k with
  | zero =>
    have at' : diffSn b.snNack vrR = diffSn vrMs vrR := by
      rw [position, diffSn_snAt valid (by omega)]
      omega
    simp [nackMissing, at']
  | succ rounds ih =>
    rw [nackMissing]
    conv_rhs => rw [nackMissing]
    split
    · rename_i guard
      rw [position, diffSn_snAt valid (by omega)] at guard
      split
      · exact ih (k := k + 1) (by simp only [position, nextSn_snAt]) (by omega) (by omega)
      · rfl
    · rfl

theorem statusLoop_completed {rounds : Nat} {cursor : List RxPdu} {b : StatusBuild}
    (completed : b.completed = true) :
    statusLoop vrR vrMs nbBitsToTransmit rounds cursor b = b := by
  cases rounds with
  | zero => rfl
  | succ rounds =>
    cases cursor with
    | nil => rfl
    | cons e rest => simp [statusLoop, completed]

/-- One more missing PDU, and the loop goes on as if it started behind it. -/
theorem statusLoop_missing (valid : vrR < snModulo) {rounds k : Nat} {e : RxPdu}
    {rest : List RxPdu} {b : StatusBuild} (position : b.snNack = snAt vrR k)
    (fresh : b.completed = false)
    (absent : e.info.sn ≠ snAt vrR k) (room : b.nbBitsTransmitted + nackBits ≤ nbBitsToTransmit)
    (inside : k + 1 < diffSn vrMs vrR) :
    statusLoop vrR vrMs nbBitsToTransmit (rounds + 1) (e :: rest) b =
      statusLoop vrR vrMs nbBitsToTransmit (rounds + 1) (e :: rest)
        { b.addNack (nackWhole b.snNack) nackBits with snNack := nextSn b.snNack } := by
  have turn : diffSn vrMs vrR < snModulo := Serial.dist_lt valid
  have here : diffSn b.snNack vrR = k := by rw [position, diffSn_snAt valid (by omega)]
  have next : diffSn (nextSn b.snNack) vrR = k + 1 := by
    rw [position, nextSn_snAt, diffSn_snAt valid (by omega)]
  have apart : b.snNack ≠ e.info.sn := by
    rw [position]
    exact Ne.symm absent
  have step : nackMissing vrR vrMs e.info.sn nbBitsToTransmit snModulo
        { b with allSegmentsReceived := e.allSegmentsReceived } =
      nackMissing vrR vrMs e.info.sn nbBitsToTransmit snModulo
        { b.addNack (nackWhole b.snNack) nackBits with
          snNack := nextSn b.snNack, allSegmentsReceived := e.allSegmentsReceived } := by
    have rounds : snModulo = 1023 + 1 := rfl
    rw [rounds, nackMissing_rounds (b := { b.addNack (nackWhole b.snNack) nackBits with
          snNack := nextSn b.snNack, allSegmentsReceived := e.allSegmentsReceived })
        (k := k + 1) valid (by simp only [position, nextSn_snAt])
        (by have : snModulo = 1024 := rfl; omega) (by omega), nackMissing]
    simp only [apart, ne_eq, not_false_eq_true, here, true_and, show k < diffSn vrMs vrR by
      omega, if_true, room]
    rfl
  have guard : b.completed = false ∧ diffSn b.snNack vrR < diffSn vrMs vrR ∧
      b.nbBitsTransmitted ≤ nbBitsToTransmit := ⟨fresh, by omega, by omega⟩
  have guardNext : b.completed = false ∧ diffSn (nextSn b.snNack) vrR < diffSn vrMs vrR ∧
      b.nbBitsTransmitted + nackBits ≤ nbBitsToTransmit := ⟨fresh, by omega, room⟩
  rw [statusLoop, if_pos guard, step]
  conv_rhs => rw [statusLoop]
  simp only [StatusBuild.addNack, guardNext, and_self, if_true]

/-- The report has been carried on by `more`, and `count` SNs lie below ACK_SN. -/
structure CarriedOn (vrR : Nat) (b out : StatusBuild) (more : List NackedRange × Nat) : Prop where
  entries : out.entries = b.entries ++ more.1
  ack : out.ack = snAt vrR more.2

theorem CarriedOn.refl {b : StatusBuild} {k : Nat} (position : b.snNack = snAt vrR k)
    (fresh : b.completed = false) : CarriedOn vrR b b ([], k) :=
  ⟨by simp, by simpa [StatusBuild.ack, fresh] using position⟩

theorem nackMissing_here {rounds : Nat} {b : StatusBuild} (here : b.snNack = snCursor) :
    nackMissing vrR vrMs snCursor nbBitsToTransmit rounds b = b := by
  cases rounds with
  | zero => rfl
  | succ rounds => simp [nackMissing, here]

theorem statusLoop_missing_full {rounds : Nat} {e : RxPdu} {rest : List RxPdu} {b : StatusBuild}
    (fresh : b.completed = false) (inside : diffSn b.snNack vrR < diffSn vrMs vrR)
    (room : b.nbBitsTransmitted ≤ nbBitsToTransmit) (ahead : b.snNack ≠ vrMs)
    (apart : b.snNack ≠ e.info.sn)
    (full : nbBitsToTransmit < b.nbBitsTransmitted + nackBits) :
    (statusLoop vrR vrMs nbBitsToTransmit (rounds + 1) (e :: rest) b).entries = b.entries ∧
      (statusLoop vrR vrMs nbBitsToTransmit (rounds + 1) (e :: rest) b).ack = b.snNack := by
  have stopped : nackMissing vrR vrMs e.info.sn nbBitsToTransmit snModulo
      { b with allSegmentsReceived := e.allSegmentsReceived } =
      StatusBuild.stopAt { b with allSegmentsReceived := e.allSegmentsReceived } b.snNack := by
    have tooLong : ¬ b.nbBitsTransmitted + nackBits ≤ nbBitsToTransmit := Nat.not_le.mpr full
    rw [show snModulo = 1023 + 1 from rfl, nackMissing]
    simp [apart, inside, tooLong]
  rw [statusLoop, if_pos ⟨fresh, inside, room⟩, stopped]
  simp only [StatusBuild.stopAt, ahead, if_false, nackElement, Bool.true_eq_false, false_and]
  rw [statusLoop_completed rfl]
  exact ⟨rfl, rfl⟩

theorem statusLoop_missing_last {rounds : Nat} {e : RxPdu} {rest : List RxPdu} {b : StatusBuild}
    (fresh : b.completed = false) (inside : diffSn b.snNack vrR < diffSn vrMs vrR)
    (apart : b.snNack ≠ e.info.sn) (room : b.nbBitsTransmitted + nackBits ≤ nbBitsToTransmit)
    (last : nextSn b.snNack = vrMs) :
    statusLoop vrR vrMs nbBitsToTransmit (rounds + 1) (e :: rest) b =
      { b.addNack (nackWhole b.snNack) nackBits with
        snNack := vrMs, allSegmentsReceived := e.allSegmentsReceived } := by
  have one : nackMissing vrR vrMs e.info.sn nbBitsToTransmit snModulo
      { b with allSegmentsReceived := e.allSegmentsReceived } =
      { b.addNack (nackWhole b.snNack) nackBits with
        snNack := vrMs, allSegmentsReceived := e.allSegmentsReceived } := by
    rw [show snModulo = 1022 + 1 + 1 from rfl, nackMissing]
    simp only [apart, ne_eq, not_false_eq_true, inside, and_self, if_true, room, last]
    simp [nackMissing, StatusBuild.addNack]
  have guard : b.completed = false ∧ diffSn b.snNack vrR < diffSn vrMs vrR ∧
      b.nbBitsTransmitted ≤ nbBitsToTransmit := ⟨fresh, inside, by omega⟩
  rw [statusLoop, if_pos guard, one]
  exact if_pos rfl

theorem statusLoop_present {rounds : Nat} {e : RxPdu} {rest : List RxPdu} {b : StatusBuild}
    (fresh : b.completed = false) (inside : diffSn e.info.sn vrR < diffSn vrMs vrR)
    (room : b.nbBitsTransmitted ≤ nbBitsToTransmit) (here : b.snNack = e.info.sn)
    (ahead : e.info.sn ≠ vrMs) :
    statusLoop vrR vrMs nbBitsToTransmit (rounds + 1) (e :: rest) b =
      let out := nackElement vrMs nbBitsToTransmit e rest
        { b with allSegmentsReceived := e.allSegmentsReceived }
      statusLoop vrR vrMs nbBitsToTransmit rounds out.2
          { out.1 with snNack := nextSn e.info.sn } := by
  have guard : b.completed = false ∧ diffSn b.snNack vrR < diffSn vrMs vrR ∧
      b.nbBitsTransmitted ≤ nbBitsToTransmit := ⟨fresh, by rw [here]; exact inside, room⟩
  have reached : nackMissing vrR vrMs e.info.sn nbBitsToTransmit snModulo
      { b with allSegmentsReceived := e.allSegmentsReceived } =
      { b with allSegmentsReceived := e.allSegmentsReceived } := nackMissing_here here
  rw [statusLoop, if_pos guard, reached]
  simp only [here, ahead, if_false, inside, if_true]

section
variable {e : RxPdu} {rest : List RxPdu} {b : StatusBuild}

theorem nackElement_marked (mark : e.allSegmentsReceived = true) :
    nackElement vrMs nbBitsToTransmit e rest b =
      (b, rest.dropWhile fun other => other.info.sn = e.info.sn) := by
  simp [nackElement, mark]

theorem nackElement_full (mark : e.allSegmentsReceived = false) (fresh : b.completed = false)
    (here : b.snNack = e.info.sn) (ahead : e.info.sn ≠ vrMs)
    (full : nbBitsToTransmit < b.nbBitsTransmitted + nackSoBits) :
    nackElement vrMs nbBitsToTransmit e rest b = (b.stopAt e.info.sn, e :: rest) := by
  have tooLong : ¬ b.nbBitsTransmitted + nackSoBits ≤ nbBitsToTransmit := Nat.not_le.mpr full
  simp [nackElement, mark, fresh, here, ahead, tooLong]

theorem nackElement_segmented (mark : e.allSegmentsReceived = false) (fresh : b.completed = false)
    (here : b.snNack = e.info.sn) (ahead : e.info.sn ≠ vrMs)
    (room : b.nbBitsTransmitted + nackSoBits ≤ nbBitsToTransmit) :
    nackElement vrMs nbBitsToTransmit e rest b = nackSegmented nbBitsToTransmit e rest b := by
  simp [nackElement, mark, fresh, here, ahead, room]

end

theorem statusLoop_reported (valid : vrR < snModulo) (validMs : vrMs < snModulo)
    {n k bits rounds : Nat}
    {cursor : List RxPdu} {b : StatusBuild} (count : k + n = diffSn vrMs vrR)
    (position : b.snNack = snAt vrR k) (fresh : b.completed = false)
    (budget : b.nbBitsTransmitted + bits = nbBitsToTransmit) (enough : cursor.length ≤ rounds)
    (ordered : RxOrdered vrR cursor) (whole : WholeMarked cursor) :
    CarriedOn vrR b (statusLoop vrR vrMs nbBitsToTransmit rounds cursor b)
      (reported vrR n k bits cursor) := by
  have turn : diffSn vrMs vrR < snModulo := Serial.dist_lt valid
  have atMs : snAt vrR (diffSn vrMs vrR) = vrMs := snAt_diffSn valid validMs
  induction n generalizing k bits rounds cursor b with
  | zero =>
    have here : diffSn b.snNack vrR = diffSn vrMs vrR := by
      rw [position, diffSn_snAt valid (by omega)]
      omega
    have beyond : statusLoop vrR vrMs nbBitsToTransmit rounds cursor b = b := by
      cases rounds with
      | zero => rfl
      | succ rounds =>
        cases cursor with
        | nil => rfl
        | cons e rest => simp [statusLoop, here]
    rw [beyond, reported]
    exact CarriedOn.refl position fresh
  | succ n ih =>
    cases cursor with
    | nil =>
      have beyond : statusLoop vrR vrMs nbBitsToTransmit rounds [] b = b := by cases rounds <;> rfl
      rw [beyond, reported]
      · exact CarriedOn.refl position fresh
      · nofun
    | cons e rest =>
      obtain ⟨rounds, rfl⟩ : ∃ r, rounds = r + 1 := ⟨rounds - 1, by simp at enough; omega⟩
      have left : rest.length ≤ rounds := by simpa using enough
      have here : diffSn b.snNack vrR = k := by rw [position, diffSn_snAt valid (by omega)]
      have ahead : b.snNack ≠ vrMs := by
        rw [position, ← atMs]
        intro same
        have := snAt_inj valid (by omega) turn same
        omega
      rw [reported]
      by_cases present : e.info.sn = snAt vrR k
      · have same : b.snNack = e.info.sn := by rw [present, position]
        have notMs : e.info.sn ≠ vrMs := by rw [← same]; exact ahead
        have next : nextSn e.info.sn = snAt vrR (k + 1) := by rw [present, nextSn_snAt]
        rw [if_neg (not_not.mpr present),
          statusLoop_present fresh (by rw [← same]; omega) (by omega) same notMs]
        simp only [next]
        cases mark : e.allSegmentsReceived with
        | true =>
          have sub := (List.dropWhile_sublist (l := rest)
            fun other => decide (other.info.sn = e.info.sn)).trans
            (List.sublist_cons_self e rest)
          rw [nackElement_marked mark, if_pos rfl]
          have later := ih (b := { b with snNack := snAt vrR (k + 1), allSegmentsReceived := true })
            (by omega) rfl fresh budget (Nat.le_trans (List.dropWhile_sublist _).length_le left)
            (ordered.of_sublist sub) fun other member => whole other (sub.subset member)
          exact ⟨later.entries, later.ack⟩
        | false =>
          simp only [Bool.false_eq_true, if_false]
          by_cases full : bits < nackSoBits
          · rw [if_pos full, nackElement_full (b := { b with allSegmentsReceived := false })
              mark fresh same
              notMs (by simp only; omega), statusLoop_completed rfl]
            exact ⟨by simp [StatusBuild.entries, StatusBuild.stopAt], present⟩
          · obtain ⟨ends, segments⟩ := ordered.segments whole mark
            have report :=
              nackSegmented_reported (b := { b with allSegmentsReceived := false }) fresh budget
              (Nat.not_lt.mp full) (ordered.fits e List.mem_cons_self) ends segments
            rw [if_neg full,
              nackElement_segmented (b := { b with allSegmentsReceived := false }) mark fresh
              same notMs (by simp only; omega)]
            generalize nackSegmented nbBitsToTransmit e rest
              { b with allSegmentsReceived := false } = out
              at report
            by_cases all : (soughtRanges e (sameSn e rest)).length ≤ bits / nackSoBits
            · obtain ⟨open', behind, spent⟩ := report.all all
              have sub : (if e.info.lsf then rest else behindEnd e.info.sn rest).Sublist rest := by
                split
                · exact List.Sublist.refl _
                · exact behindEnd_sublist _ _
              have later :=
                ih (b := { out.1 with snNack := snAt vrR (k + 1) }) (by omega) rfl open' spent
                (Nat.le_trans sub.length_le left)
                (ordered.of_sublist (sub.trans (List.sublist_cons_self e rest)))
                fun other member => whole other (List.mem_cons_of_mem _ (sub.subset member))
              rw [if_pos all, behind]
              refine ⟨?_, later.ack⟩
              rw [later.entries, ← List.append_assoc]
              exact congrArg (· ++ _) report.entries
            · obtain ⟨closed, ackSn⟩ := report.cut (Nat.not_le.mp all)
              rw [if_neg all,
                statusLoop_completed (b := { out.1 with snNack := snAt vrR (k + 1) }) closed]
              refine ⟨report.entries, ?_⟩
              simp only [StatusBuild.ack, closed, if_true]
              rw [ackSn, present]
      · have apart : b.snNack ≠ e.info.sn := by rw [position]; exact Ne.symm present
        rw [if_pos present]
        by_cases full : bits < nackBits
        · have inside : diffSn b.snNack vrR < diffSn vrMs vrR := by omega
          obtain ⟨entries, ack⟩ :=
            @statusLoop_missing_full vrR vrMs nbBitsToTransmit rounds e rest b fresh
            inside (by omega) ahead apart (by omega)
          rw [if_pos full]
          exact ⟨by rw [entries, List.append_nil], by rw [ack, position]⟩
        · have carried : CarriedOn vrR
              { b.addNack (nackWhole b.snNack) nackBits with snNack := nextSn b.snNack }
              (statusLoop vrR vrMs nbBitsToTransmit (rounds + 1) (e :: rest) b)
              (reported vrR n (k + 1) (bits - nackBits) (e :: rest)) := by
            by_cases more : k + 1 < diffSn vrMs vrR
            · rw [statusLoop_missing valid position fresh present (by omega) more]
              exact ih (by omega) (by simp only [position, nextSn_snAt]) fresh
                (by simp only [StatusBuild.addNack]; omega) enough ordered whole
            · have none : n = 0 := by omega
              have last : nextSn b.snNack = vrMs := by
                rw [position, nextSn_snAt, ← atMs, show k + 1 = diffSn vrMs vrR by omega]
              rw [statusLoop_missing_last fresh (by omega) apart (by omega) last, none, reported]
              refine ⟨by simp [StatusBuild.entries], ?_⟩
              simp only [StatusBuild.ack, StatusBuild.addNack, fresh, Bool.false_eq_true, if_false]
              rw [← last, position, nextSn_snAt]
          rw [if_neg full]
          refine ⟨?_, carried.ack⟩
          rw [carried.entries, position]
          simp [StatusBuild.entries, StatusBuild.addNack, nackWhole, NackSn.nacked, wholeEntry]

end

end OpenAir.Rlc.Am
