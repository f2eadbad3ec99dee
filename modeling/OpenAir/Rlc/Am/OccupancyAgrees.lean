import OpenAir.Rlc.Am.StatusForecast
import OpenAir.Rlc.Am.StatusOccupancy

/-! When the size announced for the next STATUS PDU is the size of the PDU that is
built, given a grant that is at least as large. -/
namespace OpenAir.Rlc.Am
open Interval BitField

/-- The segments run on from byte `w` to the end of their PDU. -/
def Gapless (w : Nat) : List RxPdu → Prop
  | [] => False
  | e :: es => e.info.so ≤ w ∧ (e.ends = true ∨ Gapless e.stop es)

/-- From the SN `k` ahead of VR(R) on, with `n` SNs to go, nothing is missing as long
as elements are left: each PDU is marked or its segments have no gap. -/
def NothingMissing (vrR : Nat) : Nat → Nat → List RxPdu → Prop
  | 0, _, _ => True
  | _, _, [] => True
  | n + 1, k, e :: rest =>
    e.info.sn = snAt vrR k ∧
      if e.allSegmentsReceived then
        NothingMissing vrR n (k + 1) (rest.dropWhile fun other => other.info.sn = e.info.sn)
      else
        Gapless 0 (e :: sameSn e rest) ∧ NothingMissing vrR n (k + 1) (behindSegments e rest)

/-- Nothing is missing, the walk is not cut short by an unmarked PDU for which 42 bits
must be left, and the last PDU it looks at is marked; `marked` is the mark of the one
before. -/
def Unreported (vrR : Nat) : Bool → Nat → Nat → Nat → List RxPdu → Prop
  | marked, 0, _, _, _ => marked = true
  | marked, _, _, _, [] => marked = true
  | _, n + 1, k, bits, e :: rest =>
    e.info.sn = snAt vrR k ∧
      if e.allSegmentsReceived then
        Unreported vrR true n (k + 1) bits (rest.dropWhile fun other => other.info.sn = e.info.sn)
      else
        nackSoBits ≤ bits ∧ Gapless 0 (e :: sameSn e rest) ∧
          Unreported vrR false n (k + 1) bits (behindSegments e rest)

/-- The generator reports what the occupancy counts, from the SN `k` ahead of VR(R)
on. An element that is left behind the last segment of its PDU is counted once more:
nothing may be missing from its SN on. An unmarked PDU without a gap ends the report
when fewer than 42 bits are left: nothing may be missing behind it. `room` is what the
array of entries can still take. -/
def Accounted (vrR : Nat) : Nat → Nat → Nat → Nat → List RxPdu → Prop
  | 0, _, _, _, _ => True
  | _, _, _, _, [] => True
  | n + 1, k, bits, room, e :: rest =>
    if diffSn e.info.sn vrR < k then
      n + 1 ≤ room ∧ NothingMissing vrR (n + 2) (k - 1) (e :: rest)
    else if e.info.sn ≠ snAt vrR k then
      0 < room ∧ Accounted vrR n (k + 1) (bits - nackBits) (room - 1) (e :: rest)
    else if e.allSegmentsReceived then
      Accounted vrR n (k + 1) bits room (rest.dropWhile fun other => other.info.sn = e.info.sn)
    else if bits < nackSoBits then
      NothingMissing vrR n (k + 1) (behindSegments e rest)
    else
      rangeCount e rest ≤ room ∧
        Accounted vrR n (k + 1) (bits - nackSoBits * rangeCount e rest) (room - rangeCount e rest)
          (behindSegments e rest)

/-- The sizes of the entries that are reported from the SN `k` ahead of VR(R) on, with
`bits` left, when that is enough for what is demanded. -/
@[grind =]
def entrySizes (vrR : Nat) : Nat → Nat → Nat → List RxPdu → List Nat
  | 0, _, _, _ => []
  | _, _, _, [] => []
  | n + 1, k, bits, e :: rest =>
    if e.info.sn ≠ snAt vrR k then
      nackBits :: entrySizes vrR n (k + 1) (bits - nackBits) (e :: rest)
    else if e.allSegmentsReceived then
      entrySizes vrR n (k + 1) bits (rest.dropWhile fun other => other.info.sn = e.info.sn)
    else if bits < nackSoBits then
      []
    else
      List.replicate (rangeCount e rest) nackSoBits ++
        entrySizes vrR n (k + 1) (bits - nackSoBits * rangeCount e rest) (behindSegments e rest)

/-- The elements are not further back than one SN behind the position of the walk. -/
def Near (vrR k : Nat) (cursor : List RxPdu) : Prop := ∀ e ∈ cursor, k ≤ diffSn e.info.sn vrR + 1

section
variable {vrR vrMs : Nat}

theorem soughtFrom_eq_nil {w : Nat} {es : List RxPdu} (laid : Laid w (es.map RxPdu.interval)) :
    soughtFrom w es = [] ↔ Gapless w es := by
  induction es generalizing w with
  | nil => simp [soughtFrom, Gapless]
  | cons e es ih =>
    have start : w ≤ e.info.so := laid.1
    rw [soughtFrom, Gapless]
    by_cases gap : w < e.info.so
    · simp [gap, Nat.not_le.mpr gap]
    · have moved : w + e.info.payloadSize.toNat = e.stop := by
        rw [RxPdu.stop]
        omega
      rw [if_neg gap, moved, and_iff_right (Nat.not_lt.mp gap)]
      cases e.ends with
      | true => simp
      | false => simpa using (ih laid.2.2 : soughtFrom e.stop es = [] ↔ Gapless e.stop es)

theorem rangeCount_eq_zero {e : RxPdu} {rest : List RxPdu} (ordered : RxOrdered vrR (e :: rest)) :
    rangeCount e rest = 0 ↔ Gapless 0 (e :: sameSn e rest) := by
  rw [rangeCount, List.length_eq_zero_iff, soughtRanges, List.append_eq_nil_iff, Gapless]
  refine and_congr ?_ ?_
  · by_cases start : 0 < e.info.so
    · simp [start, Nat.not_le.mpr start]
    · simp only [start, if_false, true_iff]
      omega
  · cases e.ends with
    | true => simp
    | false => simpa using soughtFrom_eq_nil ordered.laidFrom

theorem Near.of_sublist {k : Nat} {l r : List RxPdu} (near : Near vrR k l) (sub : r.Sublist l) :
    Near vrR k r :=
  fun e member => near e (sub.subset member)

theorem Near.next {k : Nat} {e : RxPdu} {rest r : List RxPdu} (ordered : RxOrdered vrR (e :: rest))
    (here : k ≤ diffSn e.info.sn vrR) (sub : r.Sublist (e :: rest)) : Near vrR (k + 1) r :=
  fun _ member => Nat.succ_le_succ (Nat.le_trans here (ordered.head_le (sub.subset member)))

theorem demanded_eq_zero (valid : vrR < snModulo) {n k : Nat} {cursor : List RxPdu}
    (turn : k + n < snModulo)
    (ordered : RxOrdered vrR cursor) : demanded vrR n k cursor = 0 ↔
    NothingMissing vrR n k cursor := by
  have twelve : 0 < nackBits := Nat.lt_of_sub_eq_succ rfl
  have wide : 0 < nackSoBits := Nat.lt_of_sub_eq_succ rfl
  fun_induction demanded vrR n k cursor with
  | case1 k cursor => simp [NothingMissing]
  | case2 n k => simp [NothingMissing]
  | case3 n k e rest passed =>
    refine iff_of_false ?_ ?_
    · have : 0 < nackBits * (n + 1) := Nat.mul_pos twelve (Nat.succ_pos n)
      omega
    · rintro ⟨present, -⟩
      rw [present, diffSn_snAt valid (by omega)] at passed
      exact Nat.lt_irrefl k passed
  | case4 n k e rest notPassed absent =>
    refine iff_of_false (by omega) ?_
    rintro ⟨present, -⟩
    exact absent present
  | case5 n k e rest notPassed present marked ih =>
    have sub := (List.dropWhile_sublist fun other => decide (other.info.sn = e.info.sn)).trans
      (List.sublist_cons_self e rest)
    rw [NothingMissing, if_pos marked, and_iff_right (not_not.mp present)]
    exact ih (by omega) (ordered.of_sublist sub)
  | case6 n k e rest notPassed present unmarked ih =>
    have sub := (behindSegments_sublist e rest).trans (List.sublist_cons_self e rest)
    rw [NothingMissing, if_neg unmarked, and_iff_right (not_not.mp present),
      ← rangeCount_eq_zero ordered, Nat.add_eq_zero_iff, Nat.mul_eq_zero,
        or_iff_right (Nat.ne_of_gt wide)]
    exact and_congr_right fun _ => ih (by omega) (ordered.of_sublist sub)

theorem ranged_least {bits : Nat} (count : Nat) (least : bits = 0 ∨ nackBits ≤ bits) :
    nackSoBits * count + bits = 0 ∨ nackBits ≤ nackSoBits * count + bits := by
  rcases Nat.eq_zero_or_pos count with none | some
  · rw [none, Nat.mul_zero, Nat.zero_add]
    exact least
  · right
    calc nackBits ≤ nackSoBits * 1 := Nat.le_of_ble_eq_true rfl
      _ ≤ nackSoBits * count := Nat.mul_le_mul_left _ some
      _ ≤ nackSoBits * count + bits := Nat.le_add_right _ _

/-- Something that is demanded takes at least the bits of one entry. -/
theorem demanded_least (n k : Nat) (cursor : List RxPdu) :
    demanded vrR n k cursor = 0 ∨ nackBits ≤ demanded vrR n k cursor := by
  fun_induction demanded vrR n k cursor with
  | case1 | case2 => exact Or.inl rfl
  | case3 n k e rest passed =>
    right
    exact Nat.le_trans (Nat.le_mul_of_pos_right _ (Nat.succ_pos n)) (Nat.le_add_right _ _)
  | case4 n k e rest notPassed absent => exact Or.inr (Nat.le_add_right _ _)
  | case5 n k e rest notPassed present marked ih => exact ih
  | case6 n k e rest notPassed present unmarked ih => exact ranged_least _ ih

/-- Up to VR(MS) everything is reported as missing when an element lags behind. -/
theorem entrySizes_passed {n k bits : Nat} {e : RxPdu} {rest : List RxPdu} (valid : vrR < snModulo)
    (turn : k + n < snModulo) (passed : diffSn e.info.sn vrR < k) :
    entrySizes vrR n k bits (e :: rest) = List.replicate n nackBits := by
  induction n generalizing k bits with
  | zero => rfl
  | succ n ih =>
    have absent : e.info.sn ≠ snAt vrR k := by
      intro present
      rw [present, diffSn_snAt valid (by omega)] at passed
      exact Nat.lt_irrefl k passed
    rw [entrySizes, if_pos absent, ih (by omega) (Nat.lt_succ_of_lt passed), List.replicate_succ]

/-- The report falls short by nothing or by at least one entry. -/
theorem entrySizes_short (valid : vrR < snModulo) {n k bits : Nat} {cursor : List RxPdu}
    (turn : k + n < snModulo)
    (enough : demanded vrR n k cursor ≤ bits) :
    (entrySizes vrR n k bits cursor).sum = demanded vrR n k cursor ∨
      (entrySizes vrR n k bits cursor).sum + nackBits ≤ demanded vrR n k cursor := by
  fun_induction demanded vrR n k cursor generalizing bits with
  | case1 | case2 => exact Or.inl rfl
  | case3 n k e rest passed =>
    rw [entrySizes_passed valid turn passed, List.sum_replicate_nat, Nat.mul_comm]
    have again {base more : Nat} (least : more = 0 ∨ nackBits ≤ more) :
        base = base + more ∨ base + nackBits ≤ base + more := by
      rcases least with none | some
      · exact Or.inl (by rw [none, Nat.add_zero])
      · exact Or.inr (Nat.add_le_add_left some base)
    split
    · exact again (demanded_least _ _ _)
    · exact again (ranged_least _ (demanded_least _ _ _))
  | case4 n k e rest notPassed absent ih =>
    rw [entrySizes, if_pos absent, List.sum_cons]
    rcases (@ih (bits - nackBits)) (by omega) (by omega) with all | short
    · exact Or.inl (by rw [all])
    · exact Or.inr (by omega)
  | case5 n k e rest notPassed present marked ih =>
    rw [entrySizes, if_neg present, if_pos marked]
    exact ih (by omega) enough
  | case6 n k e rest notPassed present unmarked ih =>
    rw [entrySizes, if_neg present, if_neg unmarked]
    by_cases full : bits < nackSoBits
    · rw [if_pos full, List.sum_nil, Nat.zero_add]
      rcases ranged_least (rangeCount e rest) (demanded_least n (k + 1) (behindSegments e rest))
        with none | some
      · exact Or.inl none.symm
      · exact Or.inr some
    · rw [if_neg full, List.sum_append, List.sum_replicate_nat, Nat.mul_comm]
      rcases (@ih (bits - nackSoBits * rangeCount e rest)) (by omega) (by omega) with all | short
      · exact Or.inl (by rw [all])
      · exact Or.inr (by omega)

/-- All that is demanded is reported, in as many entries as can be stored, just when
it is accounted for. -/
theorem accounted_iff (valid : vrR < snModulo) {n k bits room : Nat} {cursor : List RxPdu}
    (turn : k + n < snModulo) (enough : demanded vrR n k cursor ≤ bits)
    (ordered : RxOrdered vrR cursor)
    (near : Near vrR k cursor) :
    (entrySizes vrR n k bits cursor).sum = demanded vrR n k cursor ∧
        (entrySizes vrR n k bits cursor).length ≤ room ↔
      Accounted vrR n k bits room cursor := by
  fun_induction demanded vrR n k cursor generalizing bits room with
  | case1 k cursor => simp [entrySizes, Accounted]
  | case2 n k => simp [entrySizes, Accounted]
  | case3 n k e rest passed =>
    have dropped := (List.dropWhile_sublist fun other => decide (other.info.sn = e.info.sn)).trans
      (List.sublist_cons_self e rest)
    have walked := (behindSegments_sublist e rest).trans (List.sublist_cons_self e rest)
    have one : diffSn e.info.sn vrR = k - 1 := by
      have := near e List.mem_cons_self
      omega
    have behind : k - 1 + 1 = k := by omega
    have present : e.info.sn = snAt vrR (k - 1) := by
      rw [← one, snAt_diffSn valid (ordered.fits e List.mem_cons_self).sn]
    rw [entrySizes_passed valid turn passed, List.sum_replicate_nat,
      List.length_replicate, Nat.mul_comm, Nat.left_eq_add, Accounted, if_pos passed,
        NothingMissing, and_iff_right present, behind, and_comm]
    refine and_congr_right fun _ => ?_
    split
    · exact demanded_eq_zero valid turn (ordered.of_sublist dropped)
    · rw [Nat.add_eq_zero_iff, Nat.mul_eq_zero, or_iff_right (by decide),
        rangeCount_eq_zero ordered, demanded_eq_zero valid turn (ordered.of_sublist walked)]
  | case4 n k e rest notPassed absent ih =>
    rw [entrySizes, if_pos absent, Accounted, if_neg notPassed, if_pos absent, List.sum_cons,
      List.length_cons, ← (@ih (bits - nackBits)) (by omega) (by omega) ordered ?_]
    · omega
    · -- the element has another SN, which lies further ahead
      have apart : diffSn e.info.sn vrR ≠ k := by
        rintro rfl
        exact absent (snAt_diffSn valid (ordered.fits e List.mem_cons_self).sn).symm
      intro other member
      have := ordered.head_le member
      omega
  | case5 n k e rest notPassed present marked ih =>
    have sub := (List.dropWhile_sublist fun other => decide (other.info.sn = e.info.sn)).trans
      (List.sublist_cons_self e rest)
    rw [entrySizes, if_neg present, if_pos marked, Accounted, if_neg notPassed,
      if_neg present, if_pos marked]
    exact ih (by omega) enough (ordered.of_sublist sub)
      (Near.next ordered (Nat.le_of_not_lt notPassed) sub)
  | case6 n k e rest notPassed present unmarked ih =>
    have sub := (behindSegments_sublist e rest).trans (List.sublist_cons_self e rest)
    have later := Near.next ordered (Nat.le_of_not_lt notPassed) sub
    rw [entrySizes, if_neg present, if_neg unmarked, Accounted, if_neg notPassed, if_neg present,
      if_neg unmarked]
    by_cases full : bits < nackSoBits
    · have none : rangeCount e rest = 0 := by
        by_contra some
        have : nackSoBits * 1 ≤ nackSoBits * rangeCount e rest :=
          Nat.mul_le_mul_left _ (Nat.pos_of_ne_zero some)
        omega
      rw [if_pos full, if_pos full, none, Nat.mul_zero, Nat.zero_add,
        ← demanded_eq_zero valid (by omega) (ordered.of_sublist sub)]
      simp only [List.sum_nil, List.length_nil, Nat.zero_le, and_true]
      exact eq_comm
    · rw [if_neg full, if_neg full, List.sum_append, List.sum_replicate_nat, List.length_append,
        List.length_replicate, ← (@ih (bits - nackSoBits * rangeCount e rest)) (by omega) (by omega)
          (ordered.of_sublist sub) later,
        Nat.mul_comm]
      omega

/-- The report has been carried on by entries of these sizes, and ends with nothing
reported and a marked PDU just when it began without an entry and is `silent`. -/
structure Spends (b out : StatusBuild) (sizes : List Nat) (silent : Prop) : Prop where
  bits : out.nbBitsTransmitted = b.nbBitsTransmitted + sizes.sum
  count : out.info.nackList.length = b.info.nackList.length + sizes.length
  silent : out.info.nackList = [] ∧ out.allSegmentsReceived = true ↔ b.info.nackList = [] ∧ silent

theorem Spends.stop {b out : StatusBuild} {silent : Prop}
    (bits : out.nbBitsTransmitted = b.nbBitsTransmitted)
    (same : out.info.nackList = b.info.nackList) (mark : out.allSegmentsReceived = true ↔ silent) :
    Spends b out [] silent :=
  ⟨by simpa using bits, by rw [same]; rfl, by rw [same, mark]⟩

theorem Spends.after {b next out : StatusBuild} {first sizes : List Nat} {silent later : Prop}
    (rest : Spends next out sizes later)
    (bits : next.nbBitsTransmitted = b.nbBitsTransmitted + first.sum)
    (count : next.info.nackList.length = b.info.nackList.length + first.length)
    (quiet : silent ↔ first = [] ∧ later) : Spends b out (first ++ sizes) silent where
  bits := by rw [rest.bits, bits, List.sum_append, Nat.add_assoc]
  count := by rw [rest.count, count, List.length_append, Nat.add_assoc]
  silent := by
    have none : next.info.nackList = [] ↔ b.info.nackList = [] ∧ first = [] := by
      rw [← List.length_eq_zero_iff, count, Nat.add_eq_zero_iff, List.length_eq_zero_iff,
        List.length_eq_zero_iff]
    rw [rest.silent, none, quiet, and_assoc]

section
variable {nbBitsToTransmit : Nat}

theorem nackBytes_mark (sn : Nat) (soStart soEnd : Int) (b : StatusBuild) :
    (nackBytes sn nbBitsToTransmit soStart soEnd b).allSegmentsReceived =
    b.allSegmentsReceived := by
  rw [nackBytes]
  split <;> rfl

theorem nackSegments_mark (sn : Nat) (rest : List RxPdu) (waitedSo : Int) (b : StatusBuild) :
    (nackSegments sn nbBitsToTransmit rest waitedSo b).1.allSegmentsReceived =
    b.allSegmentsReceived := by
  induction rest generalizing waitedSo b with
  | nil => exact nackBytes_mark _ _ _ _
  | cons e rest ih =>
    have gap := (@nackBytes_mark nbBitsToTransmit) sn waitedSo (e.info.so - 1) b
    rw [nackSegments]
    split
    · split
      · simp only
        split
        · exact gap
        · split
          · exact gap
          · exact (ih _ _).trans gap
      · split
        · rfl
        · exact ih _ _
    · exact nackBytes_mark _ _ _ _

theorem nackSegmented_mark (e : RxPdu) (rest : List RxPdu) (b : StatusBuild) :
    (nackSegmented nbBitsToTransmit e rest b).1.allSegmentsReceived = b.allSegmentsReceived := by
  have first : (if e.info.so ≠ 0 then b.addNack (nackRange e.info.sn 0 (e.info.so - 1)) nackSoBits
      else b).allSegmentsReceived = b.allSegmentsReceived := by
    split <;> rfl
  rw [nackSegmented]
  generalize (if e.info.so ≠ 0 then _ else b) = reached at first ⊢
  split
  · exact first
  · exact (nackSegments_mark _ _ _ _).trans first

end

theorem statusLoop_spends (valid : vrR < snModulo) (validMs : vrMs < snModulo)
    {nbBitsToTransmit n k bits rounds : Nat}
    {cursor : List RxPdu} {b : StatusBuild} (count : k + n = diffSn vrMs vrR)
    (position : b.snNack = snAt vrR k)
    (fresh : b.completed = false) (budget : b.nbBitsTransmitted + bits = nbBitsToTransmit)
    (enough : (entrySizes vrR n k bits cursor).sum ≤ bits) (left : cursor.length ≤ rounds)
    (ordered : RxOrdered vrR cursor) (whole : WholeMarked cursor) :
    Spends b (statusLoop vrR vrMs nbBitsToTransmit rounds cursor b) (entrySizes vrR n k bits cursor)
      (Unreported vrR b.allSegmentsReceived n k bits cursor) := by
  have turn : diffSn vrMs vrR < snModulo := Serial.dist_lt valid
  have atMs : snAt vrR (diffSn vrMs vrR) = vrMs := snAt_diffSn valid validMs
  induction n generalizing k bits rounds cursor b with
  | zero =>
    have here : diffSn b.snNack vrR = diffSn vrMs vrR := by
      rw [position, diffSn_snAt valid (by omega)]
      omega
    have beyond : statusLoop vrR vrMs nbBitsToTransmit rounds cursor b = b := by
      cases rounds with
      | zero => rfl
      | succ rounds =>
        cases cursor with
        | nil => rfl
        | cons e rest => simp [statusLoop, here]
    rw [beyond, entrySizes, Unreported]
    exact Spends.stop rfl rfl Iff.rfl
  | succ n ih =>
    cases cursor with
    | nil =>
      have beyond : statusLoop vrR vrMs nbBitsToTransmit rounds [] b = b := by cases rounds <;> rfl
      rw [beyond, entrySizes, Unreported]
      · exact Spends.stop rfl rfl Iff.rfl
      · intro none
        cases none
      · intro none
        cases none
    | cons e rest =>
      obtain ⟨rounds, rfl⟩ : ∃ r, rounds = r + 1 := ⟨rounds - 1, by simp at left; omega⟩
      have left' : rest.length ≤ rounds := by simpa using left
      have here : diffSn b.snNack vrR = k := by rw [position, diffSn_snAt valid (by omega)]
      have ahead : b.snNack ≠ vrMs := by
        rw [position, ← atMs]
        exact snAt_ne valid (by omega) turn (by omega)
      rw [entrySizes] at enough ⊢
      rw [Unreported]
      by_cases present : e.info.sn = snAt vrR k
      · have same : b.snNack = e.info.sn := by rw [present, position]
        have notMs : e.info.sn ≠ vrMs := by rw [← same]; exact ahead
        have next : nextSn e.info.sn = snAt vrR (k + 1) := by rw [present, nextSn_snAt]
        rw [if_neg (not_not.mpr present)] at enough ⊢
        rw [statusLoop_present fresh (by rw [← same]; omega) (by omega) same notMs,
          and_iff_right present]
        simp only [next]
        cases mark : e.allSegmentsReceived with
        | true =>
          have sub := List.dropWhile_sublist (l := rest)
            fun other => decide (other.info.sn = e.info.sn)
          have inside := sub.trans (List.sublist_cons_self e rest)
          rw [mark, if_pos rfl] at enough
          rw [nackElement_marked mark, if_pos rfl, if_pos rfl]
          have later :=
            ih (b := { b with snNack := snAt vrR (k + 1), allSegmentsReceived := true })
            (by omega) rfl
            fresh budget enough (Nat.le_trans sub.length_le left') (ordered.of_sublist inside)
            fun other member => whole other (inside.subset member)
          exact ⟨later.bits, later.count, later.silent⟩
        | false =>
          simp only [mark, Bool.false_eq_true, if_false] at enough ⊢
          by_cases full : bits < nackSoBits
          · rw [if_pos full, nackElement_full (b := { b with allSegmentsReceived := false }) mark
              fresh same notMs
              (by simp only; omega), statusLoop_completed rfl]
            refine Spends.stop rfl rfl (iff_of_false Bool.false_ne_true ?_)
            rintro ⟨room, -⟩
            exact Nat.not_le.mpr full room
          · obtain ⟨ends, segments⟩ := ordered.segments whole mark
            have report :=
              nackSegmented_reported (b := { b with allSegmentsReceived := false }) fresh budget
              (Nat.not_lt.mp full) (ordered.fits e List.mem_cons_self) ends segments
            have unmarked := (@nackSegmented_mark nbBitsToTransmit) e rest
              { b with allSegmentsReceived := false }
            rw [if_neg full, List.sum_append, List.sum_replicate_nat] at enough
            rw [if_neg full,
              nackElement_segmented (b := { b with allSegmentsReceived := false }) mark fresh
              same notMs (by simp only; omega)]
            generalize nackSegmented nbBitsToTransmit e rest
              { b with allSegmentsReceived := false } = out
              at report unmarked
            have ranges : (soughtRanges e (sameSn e rest)).length = rangeCount e rest := rfl
            have all : (soughtRanges e (sameSn e rest)).length ≤ bits / nackSoBits :=
              (Nat.le_div_iff_mul_le (by decide)).mpr (Nat.le_trans (Nat.le_add_right _ _) enough)
            obtain ⟨open', behind, spent⟩ := report.all all
            have entries := congrArg List.length report.entries
            rw [List.take_of_length_le all] at entries
            simp only [StatusBuild.entries, List.length_append, List.length_map] at entries
            rw [ranges] at spent entries
            rw [Nat.mul_comm (rangeCount e rest)] at enough
            have spentAll : out.1.nbBitsTransmitted = b.nbBitsTransmitted + nackSoBits *
                rangeCount e rest := by
              have := Nat.le_trans (Nat.le_add_right _ _) enough
              omega
            have sub := behindSegments_sublist e rest
            have inside := sub.trans (List.sublist_cons_self e rest)
            have later :=
              ih (b := { out.1 with snNack := snAt vrR (k + 1) }) (by omega) rfl open' spent
              (Nat.le_sub_of_add_le' enough) (Nat.le_trans sub.length_le left')
              (ordered.of_sublist inside) fun other member => whole other (inside.subset member)
            rw [behind]
            refine Spends.after later ?_ ?_ ?_
            · rw [List.sum_replicate_nat, Nat.mul_comm]
              exact spentAll
            · rw [List.length_replicate]
              exact entries
            · simp only [unmarked, List.replicate_eq_nil_iff, Nat.le_of_not_lt full, true_and,
                ← rangeCount_eq_zero ordered]
              refine and_congr_right fun none => ?_
              rw [none, Nat.mul_zero, Nat.sub_zero]
      · have apart : b.snNack ≠ e.info.sn := by rw [position]; exact Ne.symm present
        rw [if_pos present, List.sum_cons] at enough
        rw [if_pos present]
        have carried :
          ∃ silent, Spends
          { b.addNack (nackWhole b.snNack) nackBits with snNack := nextSn b.snNack }
            (statusLoop vrR vrMs nbBitsToTransmit (rounds + 1) (e :: rest) b)
            (entrySizes vrR n (k + 1) (bits - nackBits) (e :: rest)) silent := by
          by_cases more : k + 1 < diffSn vrMs vrR
          · rw [statusLoop_missing valid position fresh present (by omega) more]
            exact ⟨_, ih (by omega) (by simp only [position, nextSn_snAt]) fresh
              (by simp only [StatusBuild.addNack]; omega) (by omega) left ordered whole⟩
          · have none : n = 0 := by omega
            have last : nextSn b.snNack = vrMs := by
              rw [position, nextSn_snAt, ← atMs, show k + 1 = diffSn vrMs vrR by omega]
            rw [statusLoop_missing_last fresh (by omega) apart (by omega) last, none, entrySizes]
            exact ⟨_, Spends.stop rfl rfl Iff.rfl⟩
        obtain ⟨silent, rest⟩ := carried
        refine (@Spends.after _ _ _ [nackBits] _ _ _) rest rfl ?_ (iff_of_false ?_ ?_)
        · simp [StatusBuild.addNack]
        · exact fun quiet => present quiet.1
        · exact fun quiet => List.cons_ne_nil _ _ quiet.1

end

/-- A STATUS PDU is sent, its entries fit their array, and it has the announced size. -/
def OccupancyMet (vrR vrMs nbBytesRequested : Nat) (l : List RxPdu) : Prop :=
  ∃ pdu, sendStatusPdu vrR vrMs nbBytesRequested l = some pdu ∧
    pdu.info.nackList.length ≤ maxNackInStatusPdu ∧
      pdu.size = getStatusPduBufferOccupancy vrR vrMs l

/-- There is something to report or a PDU not marked at the end, and the report says
what is counted; nothing is asked when the grant has no room for an entry. -/
def OccupancyAccounted (vrR vrMs nbBytesRequested : Nat) (l : List RxPdu) : Prop :=
  15 + nackBits ≤ 8 * nbBytesRequested →
    ¬ Unreported vrR false (diffSn vrMs vrR) 0 (8 * nbBytesRequested - 15) l ∧
      Accounted vrR (diffSn vrMs vrR) 0 (8 * nbBytesRequested - 15) maxNackInStatusPdu l

section
variable {vrR vrMs nbBytesRequested : Nat} {l : List RxPdu}

/-- Without an element, or with nothing between VR(R) and VR(MS), there is nothing to tell apart. -/
theorem occupancyAccounted_idle (idle : diffSn vrMs vrR = 0 ∨ l = []) :
    OccupancyAccounted vrR vrMs nbBytesRequested l := by
  intro _
  rcases idle with none | rfl
  · rw [none]
    simp [Unreported, Accounted]
  · cases diffSn vrMs vrR <;> simp [Unreported, Accounted]

/-- A PDU without entries has the announced size when nothing is demanded. -/
theorem occupancyMet_bare {info : ControlPduInfo} (valid : vrR < snModulo)
    (validMs : vrMs < snModulo)
    (ordered : RxOrdered vrR l) (whole : WholeMarked l)
    (built : buildStatus vrR vrMs nbBytesRequested l = some (info, 15)) (bare : info.nackList = [])
    (none : demanded vrR (diffSn vrMs vrR) 0 l = 0)
    (grant : getStatusPduBufferOccupancy vrR vrMs l ≤ nbBytesRequested) :
    OccupancyMet vrR vrMs nbBytesRequested l := by
  rw [OccupancyMet, getStatusPduBufferOccupancy_eq valid validMs ordered whole, none] at *
  obtain ⟨pdu, sent, same, size⟩ := sendStatusPdu_forecast
    (buildStatus_writable valid validMs ordered whole built) built grant
  refine ⟨pdu, sent, ?_, size⟩
  rw [same, bare]
  exact Nat.zero_le _

theorem occupancyMet_iff (valid : vrR < snModulo) (validMs : vrMs < snModulo)
    (ordered : RxOrdered vrR l)
    (whole : WholeMarked l) (grant : getStatusPduBufferOccupancy vrR vrMs l ≤ nbBytesRequested) :
    OccupancyMet vrR vrMs nbBytesRequested l ↔ OccupancyAccounted vrR vrMs nbBytesRequested l := by
  have turn : diffSn vrMs vrR < snModulo := Serial.dist_lt valid
  have announced := getStatusPduBufferOccupancy_eq valid validMs ordered whole
  have asked := grant
  rw [announced] at asked
  by_cases idle : vrR = vrMs
  · have built : buildStatus vrR vrMs nbBytesRequested l = some ({ ackSn := vrMs }, 15) := by
      rw [buildStatus, if_pos idle]
    have none : diffSn vrMs vrR = 0 := by rw [idle]; exact Serial.dist_self _ _
    exact iff_of_true
      (occupancyMet_bare valid validMs ordered whole built rfl (by rw [none, demanded]) grant)
      (occupancyAccounted_idle (Or.inl none))
  by_cases room : l ≠ [] ∧ 15 + nackBits ≤ 8 * nbBytesRequested
  · have some : diffSn vrMs vrR ≠ 0 := fun none => idle <| by
      rw [← snAt_diffSn valid validMs, none]
      exact (Nat.mod_eq_of_lt valid).symm
    have enough : demanded vrR (diffSn vrMs vrR) 0 l ≤ 8 * nbBytesRequested - 15 := by omega
    have short := entrySizes_short valid (by omega) enough
    have counted := @accounted_iff vrR valid _ 0 _ maxNackInStatusPdu l (by omega) enough ordered
      fun e member => Nat.zero_le _
    have spends := @statusLoop_spends vrR vrMs valid validMs (8 * nbBytesRequested)
      (diffSn vrMs vrR) 0
      (8 * nbBytesRequested - 15) l.length l { info := { e1 := true }, snNack := vrR }
        (Nat.zero_add _)
      (Nat.mod_eq_of_lt valid).symm rfl (by simp only; omega) (by omega)
        (Nat.le_refl _) ordered whole
    rw [OccupancyAccounted, forall_prop_of_true room.2, ← counted]
    have building : buildStatus vrR vrMs nbBytesRequested l =
        let b := statusLoop vrR vrMs (8 * nbBytesRequested) l.length l
          { info := { e1 := true }, snNack := vrR }
        if b.info.nackList = [] ∧ b.allSegmentsReceived = true then none
        else Option.some ({ b.info with
          ackSn := if b.completed then b.info.ackSn else b.snNack
          nackList := clearLastE1 b.info.nackList }, b.nbBitsTransmitted) := by
      rw [buildStatus, if_neg idle, if_pos room]
    generalize statusLoop vrR vrMs (8 * nbBytesRequested) l.length l
      { info := { e1 := true }, snNack := vrR } = b at spends building
    have silent : b.info.nackList = [] ∧ b.allSegmentsReceived = true ↔
        Unreported vrR false (diffSn vrMs vrR) 0 (8 * nbBytesRequested - 15) l := by
      rw [spends.silent]
      exact and_iff_right rfl
    by_cases quiet : b.info.nackList = [] ∧ b.allSegmentsReceived = true
    · -- the generator gives up without a PDU
      refine iff_of_false ?_ fun accounted => accounted.1 (silent.mp quiet)
      rintro ⟨pdu, sent, -⟩
      rw [sendStatusPdu, building, if_pos quiet] at sent
      cases sent
    · rw [if_neg quiet] at building
      have bits := spends.bits
      have count := spends.count
      simp only [List.length_nil, Nat.zero_add] at bits count
      obtain ⟨pdu, sent, same, size⟩ := sendStatusPdu_forecast
        (buildStatus_writable valid validMs ordered whole building) building (by rw [bits]; omega)
      have length : pdu.info.nackList.length =
          (entrySizes vrR (diffSn vrMs vrR) 0 (8 * nbBytesRequested - 15) l).length := by
        rw [same, ← count]
        exact clearLastE1_length _
      have least : nackBits = 12 := rfl
      rw [and_iff_right fun unreported => quiet (silent.mpr unreported)]
      constructor
      · rintro ⟨other, again, fewer, equal⟩
        rw [sent] at again
        cases again
        rw [size, announced, bits] at equal
        exact ⟨by omega, by rw [← length]; exact fewer⟩
      · rintro ⟨all, fewer⟩
        refine ⟨pdu, sent, by rw [length]; exact fewer, ?_⟩
        rw [size, announced, bits, all]
  · have built : buildStatus vrR vrMs nbBytesRequested l = some ({ ackSn := vrR }, 15) := by
      rw [buildStatus, if_neg idle, if_neg room]
    by_cases empty : l = []
    · refine iff_of_true (occupancyMet_bare valid validMs ordered whole built rfl ?_ grant)
        (occupancyAccounted_idle (Or.inr empty))
      rw [empty]
      cases diffSn vrMs vrR <;> rw [demanded]
    · -- three bytes are announced at most, which leaves no room for an entry
      have small : ¬ 15 + nackBits ≤ 8 * nbBytesRequested := fun enough => room ⟨empty, enough⟩
      have least : nackBits = 12 := rfl
      refine iff_of_true (occupancyMet_bare valid validMs ordered whole built rfl ?_ grant)
        fun enough => absurd enough small
      rcases (@demanded_least vrR) (diffSn vrMs vrR) 0 l with none | some
      · exact none
      · omega

end

/-- With a grant of at least the announced size, a PDU of that size is sent just when
what is counted is reported. -/
theorem statusPdu_occupancy_iff (vrR vrMs nbBytesRequested : Nat) (l : List RxPdu)
    (valid : vrR < snModulo)
    (validMs : vrMs < snModulo) (ordered : RxOrdered vrR l) (whole : WholeMarked l)
    (grant : getStatusPduBufferOccupancy vrR vrMs l ≤ nbBytesRequested) :
    OccupancyMet vrR vrMs nbBytesRequested l ↔ OccupancyAccounted vrR vrMs nbBytesRequested l :=
  occupancyMet_iff valid validMs ordered whole grant

/-- A lost PDU and one whose middle is lost: 15 + 12 + 42 bits are announced and sent. -/
theorem statusPdu_occupancy_lostMiddle : OccupancyMet 0 2 100 lostMiddle := by
  have fits : ∀ e ∈ lostMiddle, e.Fits := by
    intro e member
    simp only [lostMiddle, List.mem_cons, List.not_mem_nil, or_false] at member
    obtain rfl | rfl := member <;> exact ⟨by decide, by decide, by decide⟩
  refine (statusPdu_occupancy_iff 0 2 100 lostMiddle (by decide) (by decide) ⟨fits, by decide⟩
    (by unfold WholeMarked; decide) (by decide +kernel)).mpr fun _ => ?_
  have two : diffSn 2 0 = 2 := rfl
  rw [two]
  constructor
  · rintro ⟨present, -⟩
    exact absurd present (by decide)
  · simp [Accounted, lostMiddle, storedSegment, diffSn, snAt, snModulo, nackBits, nackSoBits,
      maxNackInStatusPdu, rangeCount, soughtRanges, soughtFrom, sameSn, RxPdu.ends, RxPdu.stop]

/-- A PDU received in one segment, which is not marked, and a whole PDU behind it. -/
def loneSegment : List RxPdu :=
  [storedSegment 0 0 10 true,
    { mem := fun _ => 0, info := { dC := true, sn := 1, payloadSize := 10 }
      allSegmentsReceived := true }]

/-- Two bytes are announced, and no STATUS PDU is sent. -/
theorem loneSegment_not_met :
    RxOrdered 0 loneSegment ∧ WholeMarked loneSegment ∧
    getStatusPduBufferOccupancy 0 2 loneSegment = 2 ∧
      ¬ OccupancyMet 0 2 10 loneSegment := by
  refine ⟨⟨?_, by decide⟩, by unfold WholeMarked; decide, by decide +kernel, ?_⟩
  · intro e member
    simp only [loneSegment, List.mem_cons, List.not_mem_nil, or_false] at member
    obtain rfl | rfl := member <;> exact ⟨by decide, by decide, by decide⟩
  · have none : (sendStatusPdu 0 2 10 loneSegment).isSome = false := by decide +kernel
    rintro ⟨pdu, sent, -⟩
    rw [sent] at none
    cases none

end OpenAir.Rlc.Am
