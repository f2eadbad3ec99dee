import OpenAir.Rlc.Am.StatusExact

/-! The size of the next STATUS PDU as it is announced in a buffer report: a second
walk over the receive list, which only counts bits. -/
namespace OpenAir.Rlc.Am

/-- `nb_bits_to_transmit` and `sn_prev`; the header takes 15 bits. -/
structure OccupancyWalk where
  nbBitsToTransmit : Nat := 15
  snPrev : Nat
deriving Repr, DecidableEq

/-- The loop that counts the missing PDUs up to `snCursor`. One round moves `snPrev`
on by one, so `snModulo` rounds are enough. -/
def occupancyMissing (snCursor snEnd : Nat) : Nat → OccupancyWalk → OccupancyWalk
  | 0, w => w
  | rounds + 1, w =>
    if w.snPrev ≠ snCursor ∧ w.snPrev ≠ snEnd then
      occupancyMissing snCursor snEnd rounds ⟨w.nbBitsToTransmit + nackBits, nextSn w.snPrev⟩
    else
      w

/-- The loop over the segments behind the first one: the bits and the cursor. -/
def occupancySegments (snCursor : Nat) : List RxPdu → Int → Nat → Nat × List RxPdu
  | [], _, bits => (bits + nackSoBits, [])
  | e :: rest, waitedSo, bits =>
    if e.info.sn = snCursor then
      let gap : Bool := decide (waitedSo < e.info.so)
      let bits := if gap then bits + nackSoBits else bits
      let waitedSo := if gap then waitedSo else waitedSo + e.info.payloadSize
      if e.info.lsf then (bits, rest) else occupancySegments snCursor rest waitedSo bits
    else
      (bits + nackSoBits, e :: rest)

/-- The segments of a PDU that is not fully received, `e` the first one stored. -/
def occupancySegmented (e : RxPdu) (rest : List RxPdu) (bits : Nat) : Nat × List RxPdu :=
  let bits := if e.info.so ≠ 0 then bits + nackSoBits else bits
  let waitedSo : Int := e.info.so + e.info.payloadSize
  if e.info.lsf then (bits, rest) else occupancySegments e.info.sn rest waitedSo bits

/-- The main loop. Every round takes at least one element off the list. -/
def occupancyLoop (vrR snEnd : Nat) : Nat → List RxPdu → OccupancyWalk → OccupancyWalk
  | 0, _, w => w
  | _, [], w => w
  | rounds + 1, e :: rest, w =>
    if diffSn w.snPrev vrR < diffSn snEnd vrR then
      let w := occupancyMissing e.info.sn snEnd snModulo w
      let (bits, cursor) :=
        if e.allSegmentsReceived = false ∧ diffSn e.info.sn vrR < diffSn snEnd vrR then
          occupancySegmented e rest w.nbBitsToTransmit
        else
          (w.nbBitsToTransmit, rest.dropWhile fun other => other.info.sn = e.info.sn)
      occupancyLoop vrR snEnd rounds cursor ⟨bits, nextSn e.info.sn⟩
    else
      w

/-- `rlc_am_get_status_pdu_buffer_occupancy`. When VR(R) and VR(MS) are equal the loop
does nothing, as in the source, which skips it. -/
def getStatusPduBufferOccupancy (vrR vrMs : Nat) (l : List RxPdu) : Nat :=
  ((occupancyLoop vrR vrMs l.length l { snPrev := vrR }).nbBitsToTransmit + 7) / 8

/-- What is left of the list when the segments of an unmarked PDU have been walked:
the walk ends at the last segment, whatever is stored behind it. -/
def behindSegments (e : RxPdu) (rest : List RxPdu) : List RxPdu :=
  if e.info.lsf then rest else behindEnd e.info.sn rest

theorem behindSegments_sublist (e : RxPdu) (rest : List RxPdu) :
    (behindSegments e rest).Sublist rest := by
  rw [behindSegments]
  split
  · exact List.Sublist.refl _
  · exact behindEnd_sublist _ _

/-- The number of ranges counted for an unmarked PDU. -/
def rangeCount (e : RxPdu) (rest : List RxPdu) : Nat := (soughtRanges e (sameSn e rest)).length

/-- The bits counted from the SN `k` ahead of VR(R) on, with `n` SNs to go up to
VR(MS). An element of an SN already passed makes the walk run up to VR(MS), count
the element once more and fall back to where it was. -/
def demanded (vrR : Nat) : Nat → Nat → List RxPdu → Nat
  | 0, _, _ => 0
  | _ + 1, _, [] => 0
  | n + 1, k, e :: rest =>
    if diffSn e.info.sn vrR < k then
      nackBits * (n + 1) +
        if e.allSegmentsReceived then
          demanded vrR (n + 1) k (rest.dropWhile fun other => other.info.sn = e.info.sn)
        else
          nackSoBits * rangeCount e rest + demanded vrR (n + 1) k (behindSegments e rest)
    else if e.info.sn ≠ snAt vrR k then
      nackBits + demanded vrR n (k + 1) (e :: rest)
    else if e.allSegmentsReceived then
      demanded vrR n (k + 1) (rest.dropWhile fun other => other.info.sn = e.info.sn)
    else
      nackSoBits * rangeCount e rest + demanded vrR n (k + 1) (behindSegments e rest)
termination_by n _ l => n + l.length
decreasing_by
  all_goals
    have skipped :=
      (List.dropWhile_sublist (l := rest) fun other => other.info.sn = e.info.sn).length_le
    have walked := (behindSegments_sublist e rest).length_le
    simp only [List.length_cons]
    omega

section
variable {vrR vrMs : Nat}

/-- The loop over missing PDUs stops at the first SN that is the cursor's or VR(MS). -/
theorem occupancyMissing_eq {snCursor k m rounds : Nat} {w : OccupancyWalk}
    (position : w.snPrev = snAt vrR k)
    (apart : ∀ i < m, snAt vrR (k + i) ≠ snCursor ∧ snAt vrR (k + i) ≠ vrMs)
    (stop : snAt vrR (k + m) = snCursor ∨ snAt vrR (k + m) = vrMs) (enough : m ≤ rounds) :
    occupancyMissing snCursor vrMs rounds w =
    ⟨w.nbBitsToTransmit + nackBits * m, snAt vrR (k + m)⟩ := by
  induction m generalizing k rounds w with
  | zero =>
    have here : ¬ (w.snPrev ≠ snCursor ∧ w.snPrev ≠ vrMs) := by
      rw [position]
      rintro ⟨notCursor, notEnd⟩
      exact stop.elim notCursor notEnd
    have same : w = ⟨w.nbBitsToTransmit, snAt vrR k⟩ := by rw [← position]
    cases rounds with
    | zero => exact same
    | succ rounds =>
      rw [occupancyMissing, if_neg here]
      exact same
  | succ m ih =>
    obtain ⟨rounds, rfl⟩ : ∃ r, rounds = r + 1 := ⟨rounds - 1, by omega⟩
    have first : w.snPrev ≠ snCursor ∧ w.snPrev ≠ vrMs := by
      rw [position]
      exact apart 0 (Nat.succ_pos m)
    have shift (i : Nat) : k + 1 + i = k + (i + 1) := by omega
    rw [occupancyMissing, if_pos first, ih (k := k + 1) (by rw [position, nextSn_snAt])
      (fun i below => by rw [shift]; exact apart (i + 1) (Nat.succ_lt_succ below))
      (by rw [shift]; exact stop) (Nat.le_of_succ_le_succ enough), shift]
    simp only [Nat.mul_add, Nat.mul_one, OccupancyWalk.mk.injEq, and_true]
    omega

theorem occupancySegments_eq {sn w bits : Nat} {rest : List RxPdu}
    (segments : ∀ e ∈ rest.takeWhile (fun other => other.info.sn = sn), e.Fits ∧
      e.ends = e.info.lsf) :
    occupancySegments sn rest w bits =
      (bits + nackSoBits * (soughtFrom w (rest.takeWhile fun other => other.info.sn = sn)).length,
        behindEnd sn rest) := by
  induction rest generalizing w bits with
  | nil => rfl
  | cons e rest ih =>
    by_cases same : e.info.sn = sn
    · have inside : (e :: rest).takeWhile (fun other => other.info.sn = sn) =
          e :: rest.takeWhile fun other => other.info.sn = sn := by
        rw [List.takeWhile_cons_of_pos (by simpa using same)]
      rw [inside] at segments ⊢
      obtain ⟨fits, ends⟩ := segments e List.mem_cons_self
      have later := fun other member => segments other (List.mem_cons_of_mem _ member)
      have moved : (w : Int) + e.info.payloadSize = (w + e.info.payloadSize.toNat : Nat) := by
        have := fits.size
        omega
      rw [occupancySegments, if_pos same, behindEnd, if_pos same, soughtFrom, ends]
      cases last : e.info.lsf with
      | true => by_cases gap : w < e.info.so <;> simp [gap]
      | false =>
        by_cases gap : w < e.info.so
        · simp only [Int.ofNat_lt, gap, decide_true, if_true, Bool.false_eq_true,
            if_false, ih later, List.length_cons, Nat.mul_add, Nat.mul_one, Prod.mk.injEq, and_true]
          omega
        · simp only [Int.ofNat_lt, gap, decide_false, Bool.false_eq_true, if_false, moved, ih later]
    · have outside : (e :: rest).takeWhile (fun other => other.info.sn = sn) = [] := by
        rw [List.takeWhile_cons_of_neg (by simpa using same)]
      rw [outside, occupancySegments, if_neg same, behindEnd, if_neg same]
      rfl

theorem occupancySegmented_eq {e : RxPdu} {rest : List RxPdu} {bits : Nat} (fits : e.Fits)
    (ends : e.ends = e.info.lsf)
    (segments : ∀ other ∈ sameSn e rest, other.Fits ∧ other.ends = other.info.lsf) :
    occupancySegmented e rest bits =
    (bits + nackSoBits * rangeCount e rest, behindSegments e rest) := by
  have behind (bits : Nat) :
    (if e.info.lsf then (bits, rest) else occupancySegments e.info.sn rest e.stop bits) =
      (bits + nackSoBits * (if e.ends then [] else soughtFrom e.stop (sameSn e rest)).length,
        behindSegments e rest) := by
    rw [behindSegments, ends]
    cases e.info.lsf with
    | true => simp
    | false =>
      rw [sameSn] at segments ⊢
      simpa using occupancySegments_eq segments
  simp only [occupancySegmented, fits.stop_eq, behind, rangeCount, soughtRanges, List.length_append]
  by_cases first : e.info.so = 0
  · simp [first]
  · simp only [first, ne_eq, not_false_eq_true, if_true, Nat.pos_of_ne_zero first,
      List.length_singleton, Nat.mul_add, Nat.mul_one, Nat.add_assoc]

/-- What one round does when the loop over the missing PDUs runs `m` times. -/
theorem occupancyLoop_round {rounds k m : Nat} {e : RxPdu} {rest : List RxPdu} {w : OccupancyWalk}
    (position : w.snPrev = snAt vrR k) (inside : diffSn w.snPrev vrR < diffSn vrMs vrR)
    (apart : ∀ i < m, snAt vrR (k + i) ≠ e.info.sn ∧ snAt vrR (k + i) ≠ vrMs)
    (stop : snAt vrR (k + m) = e.info.sn ∨ snAt vrR (k + m) = vrMs) (enough : m ≤ snModulo) :
    occupancyLoop vrR vrMs (rounds + 1) (e :: rest) w =
      let (bits, cursor) :=
        if e.allSegmentsReceived = false ∧ diffSn e.info.sn vrR < diffSn vrMs vrR then
          occupancySegmented e rest (w.nbBitsToTransmit + nackBits * m)
        else
          (w.nbBitsToTransmit + nackBits * m, rest.dropWhile fun other => other.info.sn = e.info.sn)
      occupancyLoop vrR vrMs rounds cursor ⟨bits, nextSn e.info.sn⟩ := by
  rw [occupancyLoop, if_pos inside, occupancyMissing_eq position apart stop enough]

/-- Behind an element at or beyond VR(MS) the loop ends. -/
theorem occupancyLoop_beyond (valid : vrR < snModulo) {rounds bits : Nat} {e : RxPdu}
    {rest : List RxPdu}
    (ordered : RxOrdered vrR (e :: rest)) (beyond : diffSn vrMs vrR ≤ diffSn e.info.sn vrR) :
    occupancyLoop vrR vrMs rounds (rest.dropWhile fun other => other.info.sn = e.info.sn)
      ⟨bits, nextSn e.info.sn⟩ = ⟨bits, nextSn e.info.sn⟩ := by
  generalize found : rest.dropWhile (fun other => decide (other.info.sn = e.info.sn)) = cursor
  cases rounds with
  | zero => rfl
  | succ rounds =>
    cases cursor with
    | nil => rfl
    | cons next later =>
      -- the next element has another SN, so the SN behind `e` does not wrap to VR(R)
      have member : next ∈ rest := by
        apply (List.dropWhile_sublist fun other => decide (other.info.sn = e.info.sn)).subset
        rw [found]
        exact List.mem_cons_self
      have other : next.info.sn ≠ e.info.sn := by
        have head := List.head?_dropWhile_not (fun other => decide (other.info.sn = e.info.sn)) rest
        rw [found] at head
        simpa using head
      have ahead : diffSn e.info.sn vrR < diffSn next.info.sn vrR := by
        rcases (List.pairwise_cons.mp ordered.sorted).1 next member with ahead | ⟨same, -⟩
        · exact ahead
        · exact absurd same.symm other
      have turn : diffSn next.info.sn vrR < snModulo := Serial.dist_lt valid
      have step : diffSn (nextSn e.info.sn) vrR = diffSn e.info.sn vrR + 1 := by
        rw [← snAt_diffSn valid (ordered.fits e List.mem_cons_self).sn, nextSn_snAt,
          diffSn_snAt valid (by omega), diffSn_snAt valid (by omega)]
      rw [occupancyLoop, if_neg (by simp only [step]; omega)]

/-- A round at an element below VR(MS), with `m` missing PDUs counted before. -/
theorem occupancyLoop_element (valid : vrR < snModulo) {rounds k m : Nat} {e : RxPdu}
    {rest : List RxPdu}
    {w : OccupancyWalk} (ordered : RxOrdered vrR (e :: rest)) (whole : WholeMarked (e :: rest))
    (position : w.snPrev = snAt vrR k) (inside : diffSn w.snPrev vrR < diffSn vrMs vrR)
    (apart : ∀ i < m, snAt vrR (k + i) ≠ e.info.sn ∧ snAt vrR (k + i) ≠ vrMs)
    (stop : snAt vrR (k + m) = e.info.sn ∨ snAt vrR (k + m) = vrMs) (enough : m ≤ snModulo)
    (below : diffSn e.info.sn vrR < diffSn vrMs vrR) :
    occupancyLoop vrR vrMs (rounds + 1) (e :: rest) w =
      if e.allSegmentsReceived then
        occupancyLoop vrR vrMs rounds (rest.dropWhile fun other => other.info.sn = e.info.sn)
          ⟨w.nbBitsToTransmit + nackBits * m, snAt vrR (diffSn e.info.sn vrR + 1)⟩
      else
        occupancyLoop vrR vrMs rounds (behindSegments e rest)
          ⟨w.nbBitsToTransmit + nackBits * m + nackSoBits * rangeCount e rest,
            snAt vrR (diffSn e.info.sn vrR + 1)⟩ := by
  have fits := ordered.fits e List.mem_cons_self
  have next : nextSn e.info.sn = snAt vrR (diffSn e.info.sn vrR + 1) := by
    rw [← nextSn_snAt, snAt_diffSn valid fits.sn]
  rw [occupancyLoop_round position inside apart stop enough, next]
  cases mark : e.allSegmentsReceived with
  | true => simp
  | false =>
    obtain ⟨ends, segments⟩ := ordered.segments whole mark
    simp only [below, and_self, if_true, Bool.false_eq_true, if_false,
      occupancySegmented_eq fits ends segments]

theorem RxOrdered.head_le {e other : RxPdu} {rest : List RxPdu}
    (ordered : RxOrdered vrR (e :: rest))
    (member : other ∈ e :: rest) : diffSn e.info.sn vrR ≤ diffSn other.info.sn vrR := by
  rcases List.mem_cons.mp member with rfl | later
  · exact Nat.le_refl _
  · rcases (List.pairwise_cons.mp ordered.sorted).1 other later with ahead | ⟨same, -⟩
    · exact Nat.le_of_lt ahead
    · rw [same]

theorem snAt_ne {i j : Nat} (valid : vrR < snModulo) (left : i < snModulo) (right : j < snModulo)
    (apart : i ≠ j) :
    snAt vrR i ≠ snAt vrR j := fun same => apart (snAt_inj valid left right same)

/-- Counting one missing PDU leaves the loop where it would have started behind it. -/
theorem occupancyLoop_missing (valid : vrR < snModulo) (validMs : vrMs < snModulo)
    {rounds k : Nat} {e : RxPdu}
    {rest : List RxPdu} {w : OccupancyWalk} (position : w.snPrev = snAt vrR k) (fits : e.Fits)
    (ahead : k < diffSn e.info.sn vrR) (more : k + 1 < diffSn vrMs vrR) :
    occupancyLoop vrR vrMs (rounds + 1) (e :: rest) w =
      occupancyLoop vrR vrMs (rounds + 1) (e :: rest)
        ⟨w.nbBitsToTransmit + nackBits, snAt vrR (k + 1)⟩ := by
  have turn : diffSn vrMs vrR < snModulo := Serial.dist_lt valid
  have turnE : diffSn e.info.sn vrR < snModulo := Serial.dist_lt valid
  have atE : snAt vrR (diffSn e.info.sn vrR) = e.info.sn := snAt_diffSn valid fits.sn
  have atMs : snAt vrR (diffSn vrMs vrR) = vrMs := snAt_diffSn valid validMs
  obtain ⟨m, stopAt⟩ : ∃ m, k + (m + 1) = min (diffSn e.info.sn vrR) (diffSn vrMs vrR) :=
    ⟨min (diffSn e.info.sn vrR) (diffSn vrMs vrR) - k - 1, by omega⟩
  have apart (i : Nat) (lower : k ≤ i) (upper : i < k + (m + 1)) :
      snAt vrR i ≠ e.info.sn ∧ snAt vrR i ≠ vrMs := by
    constructor
    · rw [← atE]
      exact snAt_ne valid (by omega) turnE (by omega)
    · rw [← atMs]
      exact snAt_ne valid (by omega) turn (by omega)
  have stop : snAt vrR (k + (m + 1)) = e.info.sn ∨ snAt vrR (k + (m + 1)) = vrMs := by
    rw [stopAt]
    rcases Nat.le_total (diffSn e.info.sn vrR) (diffSn vrMs vrR) with first | first
    · rw [Nat.min_eq_left first]
      exact Or.inl atE
    · rw [Nat.min_eq_right first]
      exact Or.inr atMs
  have inside : diffSn w.snPrev vrR < diffSn vrMs vrR := by
    rw [position, diffSn_snAt valid (by omega)]
    omega
  have insideNext : diffSn (snAt vrR (k + 1)) vrR < diffSn vrMs vrR := by
    rwa [diffSn_snAt valid (by omega)]
  have shift : k + 1 + m = k + (m + 1) := by omega
  rw [occupancyLoop_round position inside (fun i below => apart (k + i) (by omega) (by omega))
    stop (by omega), occupancyLoop_round (k := k + 1) (m := m) rfl insideNext
      (fun i below => apart (k + 1 + i) (by omega) (by omega))
        (by rw [shift]; exact stop) (by omega)]
  simp only [Nat.mul_add, Nat.mul_one, Nat.add_assoc, Nat.add_comm nackBits]

theorem occupancyLoop_demanded (valid : vrR < snModulo) (validMs : vrMs < snModulo)
    {n k rounds : Nat}
    {cursor : List RxPdu} {w : OccupancyWalk} (count : k + n = diffSn vrMs vrR)
    (position : w.snPrev = snAt vrR k) (enough : cursor.length ≤ rounds)
    (ordered : RxOrdered vrR cursor)
    (whole : WholeMarked cursor) (near : ∀ e ∈ cursor, k ≤ diffSn e.info.sn vrR + 1) :
    (occupancyLoop vrR vrMs rounds cursor w).nbBitsToTransmit =
      w.nbBitsToTransmit + demanded vrR n k cursor := by
  have turn : diffSn vrMs vrR < snModulo := Serial.dist_lt valid
  have atMs : snAt vrR (diffSn vrMs vrR) = vrMs := snAt_diffSn valid validMs
  fun_induction demanded vrR n k cursor generalizing rounds w with
  | case1 k cursor =>
    have here : diffSn w.snPrev vrR = diffSn vrMs vrR := by
      rw [position, diffSn_snAt valid (by omega)]
      omega
    cases rounds with
    | zero => rfl
    | succ rounds =>
      cases cursor with
      | nil => rfl
      | cons e rest => simp [occupancyLoop, here]
  | case2 n k => cases rounds <;> rfl
  | case3 n k e rest passed ihMarked ihUnmarked =>
    obtain ⟨rounds, rfl⟩ : ∃ r, rounds = r + 1 := ⟨rounds - 1, by simp at enough; omega⟩
    have left : rest.length ≤ rounds := by simpa using enough
    have fits := ordered.fits e List.mem_cons_self
    have one : diffSn e.info.sn vrR + 1 = k := by
      have := near e List.mem_cons_self
      omega
    have atE : snAt vrR (diffSn e.info.sn vrR) = e.info.sn := snAt_diffSn valid fits.sn
    have inside : diffSn w.snPrev vrR < diffSn vrMs vrR := by
      rw [position, diffSn_snAt valid (by omega)]
      omega
    have apart (i : Nat) (below : i < n + 1) : snAt vrR (k + i) ≠ e.info.sn ∧
        snAt vrR (k + i) ≠ vrMs := by
      constructor
      · rw [← atE]
        exact snAt_ne valid (by omega) (by omega) (by omega)
      · rw [← atMs]
        exact snAt_ne valid (by omega) turn (by omega)
    have dropped := List.dropWhile_sublist (l := rest)
      fun other => decide (other.info.sn = e.info.sn)
    have walked := behindSegments_sublist e rest
    have sub {l : List RxPdu} (inRest : l.Sublist rest) : l.Sublist (e :: rest) :=
      inRest.trans (List.sublist_cons_self e rest)
    rw [occupancyLoop_element valid ordered whole position inside apart
      (Or.inr (by rw [count]; exact atMs)) (by omega) (by omega), one]
    split
    · rw [ihMarked count rfl (Nat.le_trans dropped.length_le left)
        (ordered.of_sublist (sub dropped))
        (fun other member => whole other ((sub dropped).subset member))
        (fun other member => near other ((sub dropped).subset member)), Nat.add_assoc]
    · rw [ihUnmarked count rfl (Nat.le_trans walked.length_le left)
        (ordered.of_sublist (sub walked))
        (fun other member => whole other ((sub walked).subset member))
        (fun other member => near other ((sub walked).subset member))]
      simp only [Nat.add_assoc]
  | case4 n k e rest notPassed absent ih =>
    obtain ⟨rounds, rfl⟩ : ∃ r, rounds = r + 1 := ⟨rounds - 1, by simp at enough; omega⟩
    have fits := ordered.fits e List.mem_cons_self
    have ahead : k < diffSn e.info.sn vrR := by
      apply Nat.lt_of_le_of_ne (Nat.le_of_not_lt notPassed)
      rintro rfl
      exact absent (snAt_diffSn valid fits.sn).symm
    by_cases more : k + 1 < diffSn vrMs vrR
    · rw [occupancyLoop_missing valid validMs position fits ahead more,
        ih (by omega) rfl enough ordered whole fun other member => ?_, Nat.add_assoc]
      have := ordered.head_le member
      omega
    · -- the last SN below VR(MS) is missing: the element counts no more
      have none : n = 0 := by omega
      have inside : diffSn w.snPrev vrR < diffSn vrMs vrR := by
        rw [position, diffSn_snAt valid (by omega)]
        omega
      have turnE : diffSn e.info.sn vrR < snModulo := Serial.dist_lt valid
      have apart (i : Nat) (below : i < 1) : snAt vrR (k + i) ≠ e.info.sn ∧
          snAt vrR (k + i) ≠ vrMs := by
        constructor
        · rw [← snAt_diffSn valid fits.sn]
          exact snAt_ne valid (by omega) turnE (by omega)
        · rw [← atMs]
          exact snAt_ne valid (by omega) turn (by omega)
      have beyond : ¬ diffSn e.info.sn vrR < diffSn vrMs vrR := by omega
      rw [occupancyLoop_round position inside apart
        (Or.inr (by rw [show k + 1 = diffSn vrMs vrR by omega]; exact atMs)) (by decide),
          none, demanded]
      simp only [beyond, and_false, if_false, Nat.mul_one, Nat.add_zero]
      rw [occupancyLoop_beyond valid ordered (Nat.le_of_not_lt beyond)]
  | case5 n k e rest notPassed present marked ih =>
    obtain ⟨rounds, rfl⟩ : ∃ r, rounds = r + 1 := ⟨rounds - 1, by simp at enough; omega⟩
    have left : rest.length ≤ rounds := by simpa using enough
    have same : e.info.sn = snAt vrR k := not_not.mp present
    have here : diffSn e.info.sn vrR = k := by rw [same, diffSn_snAt valid (by omega)]
    have sub := List.dropWhile_sublist (l := rest) fun other => decide (other.info.sn = e.info.sn)
    have inside := sub.trans (List.sublist_cons_self e rest)
    rw [occupancyLoop_element (m := 0) valid ordered whole position
      (by rw [position, ← same]; omega)
      (fun i none => absurd none (Nat.not_lt_zero i)) (Or.inl same.symm) (Nat.zero_le _) (by omega),
        if_pos marked, here]
    refine ih (by omega) rfl (Nat.le_trans sub.length_le left) (ordered.of_sublist inside)
      (fun other member => whole other (inside.subset member)) fun other member => ?_
    have := ordered.head_le (inside.subset member)
    omega
  | case6 n k e rest notPassed present unmarked ih =>
    obtain ⟨rounds, rfl⟩ : ∃ r, rounds = r + 1 := ⟨rounds - 1, by simp at enough; omega⟩
    have left : rest.length ≤ rounds := by simpa using enough
    have same : e.info.sn = snAt vrR k := not_not.mp present
    have here : diffSn e.info.sn vrR = k := by rw [same, diffSn_snAt valid (by omega)]
    have sub := behindSegments_sublist e rest
    have inside := sub.trans (List.sublist_cons_self e rest)
    rw [occupancyLoop_element (m := 0) valid ordered whole position
      (by rw [position, ← same]; omega)
      (fun i none => absurd none (Nat.not_lt_zero i)) (Or.inl same.symm) (Nat.zero_le _) (by omega),
        if_neg unmarked,
      here, ih (by omega) rfl (Nat.le_trans sub.length_le left) (ordered.of_sublist inside)
        (fun other member => whole other (inside.subset member)) fun other member => ?_]
    · simp only [Nat.mul_zero, Nat.add_zero, Nat.add_assoc]
    · have := ordered.head_le (inside.subset member)
      omega

theorem getStatusPduBufferOccupancy_eq (valid : vrR < snModulo) (validMs : vrMs < snModulo)
    {l : List RxPdu}
    (ordered : RxOrdered vrR l) (whole : WholeMarked l) :
    getStatusPduBufferOccupancy vrR vrMs l = (15 + demanded vrR (diffSn vrMs vrR) 0 l + 7) / 8 := by
  rw [getStatusPduBufferOccupancy, occupancyLoop_demanded valid validMs (Nat.zero_add _)
    (Nat.mod_eq_of_lt valid).symm (Nat.le_refl _) ordered whole fun _ _ => Nat.zero_le _]

end

end OpenAir.Rlc.Am
