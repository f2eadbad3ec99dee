import OpenAir.Rlc.Um.Segmentation

/-! The SDUs delivered over whole runs: the receiver goes over the sender's PDUs one after the
other, whatever was lost, duplicated or reordered on the way. -/
namespace OpenAir.Rlc.Um
open BitField Serial

/-- An arrival sequence of the PDUs, `top` being one more than the highest number arrived so
far: fewer PDUs than the window are skipped, and none comes later than the window allows.
Checks of the timer come in between. -/
inductive Arrives (width : Nat) (pdus : List Pdu) : Nat → List RxOp → Prop
  | nil {top : Nat} : Arrives width pdus top []
  | pdu {top k : Nat} {pdu : Pdu} {now : Nat} {ops : List RxOp} (sent : pdus[k]? = some pdu)
      (late : top ≤ k + width)
      (early : k < top + width) (rest : Arrives width pdus (max top (k + 1)) ops) :
      Arrives width pdus top (.receive pdu now :: ops)
  | timer {top now : Nat} {ops : List RxOp} (rest : Arrives width pdus top ops) :
      Arrives width pdus top (.checkTimer now :: ops)

/-- The SDUs when the receiver has gone over the first `k` PDUs. -/
structure Follows (config : Config) (sdus : List (List UInt8)) (k : Nat) (backlog : Backlog)
    (a : Assembly) : Prop where
  next : a.missingSnDetected = false → (a.lastReassembliedSn + 1) % config.modulo =
    k % config.modulo
  output : a.outputSdu = if a.missingSnDetected then [] else backlog.sent
  delivered : ∃ done, sdus = done ++ backlog.sdus ∧ a.delivered.Sublist done

section Look

variable {config : Config} {sdus : List (List UInt8)} {k : Nat} {before after : Backlog}
    {pieces : List (List UInt8)}
  {a : Assembly}

theorem Follows.follow (follows : Follows config sdus k before a) :
    a.follow config (k % config.modulo) = { a with lastReassembliedSn := k % config.modulo } := by
  by_cases next : (a.lastReassembliedSn + 1) % config.modulo = k % config.modulo
  · exact follow_next a next
  · have missing : a.missingSnDetected = true :=
      Bool.ne_false_iff.mp fun none => next (follows.next none)
    have empty : a.outputSdu = [] := by rw [follows.output, missing]; rfl
    rw [follow_gap a next, clearRxSdu_of_nil empty]

/-- A look at an SN whose PDU did not come. -/
theorem Follows.lost (follows : Follows config sdus k before a) (cuts : Cuts before pieces after) :
    Follows config sdus (k + 1) after (a.look config (k % config.modulo) none) := by
  obtain ⟨done, whole, sub⟩ := follows.delivered
  obtain ⟨ended, split⟩ := cuts.suffix
  refine ⟨fun none => Bool.noConfusion none, rfl, done ++ ended, ?_,
    sub.trans (List.sublist_append_left _ _)⟩
  rw [whole, split, List.append_assoc]

theorem Follows.heard (follows : Follows config sdus k before a)
    (cuts : Cuts before pieces after) {pdu : Pdu}
    (encodes : Encodes config.snLength (k % config.modulo) before pieces after pdu)
    (acceptable : Acceptable config pdu)
    (fit : ∀ sdu ∈ sdus, sdu.length ≤ config.sduMaxSize) :
    Follows config sdus (k + 1) after (a.look config (k % config.modulo) (some pdu)) := by
  obtain ⟨done, whole, sub⟩ := follows.delivered
  have long : ¬ pdu.size < config.snLength.headerMin := by
    rw [encodes.size, Nat.add_assoc]
    exact Nat.not_lt.mpr (Nat.le_add_right _ _)
  have looks : a.look config (k % config.modulo) (some pdu) =
      Assembly.joinPdu { a with lastReassembliedSn := k % config.modulo } config pdu := by
    rw [Assembly.look, if_neg long, follows.follow]
  have joined : Joined { a with lastReassembliedSn := k % config.modulo } before after _ :=
    joinPdu_joined encodes cuts acceptable follows.output
      (fun sdu member => fit sdu (by rw [whole]; exact List.mem_append_right _ member))
  obtain ⟨ended, fresh, split, delivered, freshSub⟩ := joined.delivered
  rw [looks]
  refine ⟨fun _ => ?_, joined.output, done ++ ended, ?_, ?_⟩
  · rw [joined.last, Nat.mod_add_mod]
  · rw [whole, split, List.append_assoc]
  · rw [delivered]
    exact sub.append freshSub

end Look

/-- The buffer and the SDUs when the receiver has gone over the first `ur` of the PDUs and has
heard of none from `uh` on. -/
structure Reached (config : Config) (sdus : List (List UInt8)) (pdus : List Pdu)
    (backlog : Nat → Backlog)
    (ur uh : Nat) (dar : Dar) : Prop where
  sent : uh ≤ pdus.length
  held : ∀ k pdu, ur ≤ k → k < uh → dar.darBuffer (k % config.modulo) = some pdu →
    pdus[k]? = some pdu ∧ Acceptable config pdu
  headed : dar.Headed config
  follows : Follows config sdus ur (backlog ur) dar.toAssembly

section Span

variable {config : Config} {sdus : List (List UInt8)} {pdus : List Pdu} {backlog : Nat → Backlog}
    {ur uh : Nat} {dar : Dar}

theorem Reached.look (reached : Reached config sdus pdus backlog ur uh dar)
    (segmentation : Segmentation config sdus pdus backlog)
    (fit : ∀ sdu ∈ sdus, sdu.length ≤ config.sduMaxSize) (below : ur < uh) :
    Reached config sdus pdus backlog (ur + 1) uh
      (dar.reassembleSn config (ur % config.modulo)) := by
  refine ⟨reached.sent, fun k pdu above inside there => ?_, reached.headed.reassembleSn _, ?_⟩
  · rw [reassembleSn_buffer (reached.headed _)] at there
    by_cases here : k % config.modulo = ur % config.modulo
    · rw [here, Function.update_self] at there
      cases there
    · rw [Function.update_of_ne here] at there
      exact reached.held k pdu (Nat.le_of_succ_le above) inside there
  · have step : (dar.reassembleSn config (ur % config.modulo)).toAssembly =
        dar.look config (ur % config.modulo) (dar.darBuffer (ur % config.modulo)) := rfl
    rw [step]
    cases found : dar.darBuffer (ur % config.modulo) with
    | none =>
      obtain ⟨pieces, cuts, -⟩ :=
        segmentation.pdu ur _ (List.getElem?_eq_getElem (Nat.lt_of_lt_of_le below reached.sent))
      exact reached.follows.lost cuts
    | some pdu =>
      obtain ⟨sent, acceptable⟩ := reached.held ur pdu (Nat.le_refl ur) below found
      obtain ⟨pieces, cuts, encodes⟩ := segmentation.pdu ur pdu sent
      exact reached.follows.heard cuts encodes acceptable fit

/-- The receiver goes over the next PDUs, heard or not. -/
theorem Reached.span (reached : Reached config sdus pdus backlog ur uh dar)
    (segmentation : Segmentation config sdus pdus backlog)
    (fit : ∀ sdu ∈ sdus, sdu.length ≤ config.sduMaxSize) {count : Nat} (short : ur + count ≤ uh) :
    Reached config sdus pdus backlog (ur + count) uh
      (dar.reassembleSpan config (ur % config.modulo) count) := by
  induction count generalizing ur dar with
  | zero => exact reached
  | succ count ih =>
    have next := ih (reached.look segmentation fit (by omega)) (by omega)
    rw [Nat.add_right_comm, Nat.add_assoc] at next
    rw [Dar.reassembleSpan, Nat.mod_add_mod]
    exact next

end Span

/-- The receiver's window on the sender's count: VR(UR) and VR(UH) are `low` and `top`. -/
structure InStep (config : Config) (sdus : List (List UInt8)) (pdus : List Pdu)
    (backlog : Nat → Backlog)
    (low top : Nat) (rx : Rx) : Prop extends Windowed config rx where
  countUr : rx.vrUr = low % config.modulo
  countUh : rx.vrUh = top % config.modulo
  ordered : low ≤ top
  near : top ≤ low + config.windowSize
  reached : Reached config sdus pdus backlog low top rx.toDar

section Step

variable {config : Config} {sdus : List (List UInt8)} {pdus : List Pdu} {backlog : Nat → Backlog}
    {low top : Nat} {rx : Rx}

theorem Settled.inStep {stuck : Prop} {count : Nat} {after : Rx}
    (settled : Settled config stuck (rx.moved config count) after)
    (queue : Queue config (rx.moved config count)) (countUr : rx.vrUr = low % config.modulo)
    (countUh : rx.vrUh = top % config.modulo) (short : low + count ≤ top)
    (near : top ≤ low + count + config.windowSize)
    (reached : Reached config sdus pdus backlog low top rx.toDar)
    (segmentation : Segmentation config sdus pdus backlog)
    (fit : ∀ sdu ∈ sdus, sdu.length ≤ config.sduMaxSize) :
    InStep config sdus pdus backlog (low + count) top after := by
  refine { settled.windowed queue with
    countUr := ?_, countUh := ?_, ordered := short, near := near, reached := ?_ }
  · have moved : (rx.moved config count).vrUr = (rx.vrUr + count) % config.modulo := rfl
    rw [settled.vrUr, moved, countUr, Nat.mod_add_mod]
  · exact settled.vrUh.trans countUh
  · have moved : (rx.moved config count).toDar = rx.reassembleSpan config rx.vrUr count := rfl
    rw [settled.dar, moved, countUr]
    exact reached.span segmentation fit short

/-- How far ahead of VR(UR) a PDU lies that comes from inside of the windows around VR(UH). -/
theorem InStep.far (step : InStep config sdus pdus backlog low top rx) {k : Nat}
    (late : top ≤ k + config.windowSize)
    (early : k < top + config.windowSize) :
    low ≤ k ∧ dist config.modulo rx.vrUr (k % config.modulo) = k - low ∨
      k < low ∧ dist config.modulo rx.vrUr (k % config.modulo) = k + config.modulo - low := by
  have double := config.modulo_eq
  have near := step.near
  rw [step.countUr]
  by_cases ahead : low ≤ k
  · exact .inl ⟨ahead, dist_mod ahead (by omega)⟩
  · refine .inr ⟨Nat.not_le.mp ahead, ?_⟩
    have ordered := step.ordered
    rw [← Nat.add_mod_right k]
    exact dist_mod (by omega) (by omega)

theorem InStep.reach (step : InStep config sdus pdus backlog low top rx) :
    dist config.modulo rx.vrUr rx.vrUh = top - low := by
  have double := config.modulo_eq
  have positive := config.windowSize_lt
  have near := step.near
  rw [step.countUr, step.countUh]
  exact dist_mod step.ordered (by omega)

/-- The buffer with a PDU that is not discarded. -/
theorem InStep.stored (step : InStep config sdus pdus backlog low top rx) {k : Nat} {pdu : Pdu}
    (sent : pdus[k]? = some pdu)
    (acceptable : Acceptable config pdu) (long : config.snLength.headerMin ≤ pdu.size)
    (ahead : low ≤ k)
    (early : k < top + config.windowSize) (vrUh : Nat) :
    Reached config sdus pdus backlog low (max top (k + 1))
      (rx.stored (k % config.modulo) pdu vrUh).toDar := by
  have double := config.modulo_eq
  have near := step.near
  have inside : k < pdus.length := (List.getElem?_eq_some_iff.mp sent).1
  have before := step.reached.sent
  refine ⟨by omega, fun j found above below there => ?_, stored_headed step.headed long vrUh,
    step.reached.follows⟩
  by_cases here : j % config.modulo = k % config.modulo
  · have same : j - low = k - low := by
      rw [← dist_mod above (show j < low + config.modulo by omega), here, dist_mod ahead (by omega)]
    have equal : j = k := by omega
    subst equal
    rw [stored_self] at there
    cases there
    exact ⟨sent, acceptable⟩
  · rw [stored_other here] at there
    have below := (step.held _ found there).2
    rw [step.reach, step.countUr, dist_mod above (by omega)] at below
    exact step.reached.held j found above (by omega) there

theorem InStep.receive (step : InStep config sdus pdus backlog low top rx)
    (segmentation : Segmentation config sdus pdus backlog)
    (fit : ∀ sdu ∈ sdus, sdu.length ≤ config.sduMaxSize) {k : Nat} {pdu : Pdu}
    (sent : pdus[k]? = some pdu)
    (acceptable : Acceptable config pdu) (late : top ≤ k + config.windowSize)
    (early : k < top + config.windowSize) (now : Nat) :
    ∃ low' after, rx.receiveProcessDar config pdu now = some after ∧
      InStep config sdus pdus backlog low' (max top (k + 1)) after := by
  have double := config.modulo_eq
  have near := step.near
  have ordered := step.ordered
  obtain ⟨pieces, cuts, encodes⟩ := segmentation.pdu k pdu sent
  have long : config.snLength.headerMin ≤ pdu.size := by
    rw [encodes.size, Nat.add_assoc]
    exact Nat.le_add_right _ _
  have valid : k % config.modulo < config.modulo :=
    Nat.mod_lt _ (by have := config.windowSize_lt; omega)
  have discards := discards_iff step.toQueue valid
  have far := step.far late early
  rw [step.reach] at discards
  cases taken : rx.discards config (k % config.modulo) with
  | true =>
    refine ⟨low, rx, receive_discarded now (by rw [encodes.sn]; exact taken), ?_⟩
    have known : k < top := by
      obtain below | ⟨there, -⟩ := discards.mp taken
      · omega
      · obtain ⟨found, there⟩ := Option.isSome_iff_exists.mp there
        have inside := (step.held _ found there).2
        rw [step.reach] at inside
        omega
    rw [Nat.max_eq_left known]
    exact step
  | false =>
    rw [taken] at discards
    have ahead : low ≤ k := by
      by_contra below
      exact Bool.false_ne_true (discards.mpr (.inl (by omega)))
    have gap := (far.resolve_right (fun below => Nat.not_lt.mpr ahead below.1)).2
    obtain ⟨reach, count, stored, after, highest, le, rfl, received, queue, left, settled, -⟩ :=
      receive_stored step.toQueue step.ux encodes.sn long taken now
    rw [step.reach, gap] at highest
    have whole : max top (k + 1) = low + reach := by omega
    refine ⟨low + count, after, received, settled.inStep queue step.countUr ?_ (by omega) ?_
      (step.stored sent acceptable long ahead early _) segmentation fit⟩
    · rw [whole, ← Nat.mod_add_mod low, ← step.countUr]
      rfl
    · have narrow : reach - count ≤ config.windowSize := left.symm.trans_le queue.width
      omega

theorem InStep.checkTimer (step : InStep config sdus pdus backlog low top rx)
    (segmentation : Segmentation config sdus pdus backlog)
    (fit : ∀ sdu ∈ sdus, sdu.length ≤ config.sduMaxSize) (now : Nat) :
    ∃ low' after, rx.checkTimerDarTimeOut config now = some after ∧
      InStep config sdus pdus backlog low' top after := by
  have near := step.near
  have ordered := step.ordered
  cases expired : rx.tReordering.expired now with
  | false => exact ⟨low, rx, checkTimer_waiting expired, step⟩
  | true =>
    obtain ⟨count, after, le, checked, queue, settled, -⟩ := checkTimer_expired step.toQueue step.ux
      (step.place (Timer.running_of_expired expired)) expired
    rw [step.reach] at le
    exact ⟨low + count, after, checked,
      settled.inStep queue step.countUr step.countUh (by omega) (by omega) step.reached
        segmentation fit⟩

theorem rxInit_inStep (segmentation : Segmentation config sdus pdus backlog) :
    InStep config sdus pdus backlog 0 0 (rxInit config) := by
  have positive := config.windowSize_lt
  have double := config.modulo_eq
  refine { rxInit_windowed config with
    countUr := (Nat.zero_mod _).symm, countUh := (Nat.zero_mod _).symm, ordered :=
      Nat.le_refl 0, near := Nat.zero_le _
    reached := ⟨Nat.zero_le _,
      fun k _ _ below => absurd below (Nat.not_lt_zero k), (rxInit_windowed config).headed, ?_⟩ }
  rw [segmentation.start]
  refine ⟨fun _ => ?_, rfl, [], rfl, List.Sublist.refl []⟩
  show (config.modulo - 1 + 1) % config.modulo = 0 % config.modulo
  rw [Nat.sub_add_cancel (by omega), Nat.mod_self, Nat.zero_mod]

/-- A run over arrivals of the PDUs stays in step with the sender. -/
theorem rxRun_inStep (segmentation : Segmentation config sdus pdus backlog)
    (fit : ∀ sdu ∈ sdus, sdu.length ≤ config.sduMaxSize) {ops : List RxOp}
    (arrives : Arrives config.windowSize pdus top ops)
    (acceptable : ∀ pdu now, RxOp.receive pdu now ∈ ops → Acceptable config pdu)
    (step : InStep config sdus pdus backlog low top rx) :
    ∃ low' top' after, Run.run (rxStep config) rx ops = some after ∧
      InStep config sdus pdus backlog low' top' after := by
  induction arrives generalizing low rx with
  | nil => exact ⟨low, _, rx, rfl, step⟩
  | @pdu top k pdu now ops sent late early rest ih =>
    obtain ⟨pieces, cuts, encodes⟩ := segmentation.pdu k pdu sent
    have some : pdu.size > 0 := by
      have header : 0 < config.snLength.headerMin := by cases config.snLength <;> decide
      have size := encodes.size
      omega
    obtain ⟨low', after, received, step⟩ :=
      step.receive segmentation fit sent (acceptable pdu now List.mem_cons_self) late early now
    obtain ⟨low'', top'', last, ran, step⟩ :=
      ih (fun pdu now member => acceptable pdu now (List.mem_cons_of_mem _ member)) step
    refine ⟨low'', top'', last, ?_, step⟩
    rw [Run.run, rxStep, if_pos some, received]
    exact ran
  | @timer top now ops rest ih =>
    obtain ⟨low', after, checked, step⟩ := step.checkTimer segmentation fit now
    obtain ⟨low'', top'', last, ran, step⟩ :=
      ih (fun pdu now member => acceptable pdu now (List.mem_cons_of_mem _ member)) step
    refine ⟨low'', top'', last, ?_, step⟩
    rw [Run.run, rxStep, checked]
    exact ran

end Step

def fiveBitBearer : Config := ⟨.five, true, 100⟩

/-- SN 0: the first byte of an SDU. -/
def openingPdu : Pdu := ⟨fun a => if a = 0 then 0x40 else 0xAA, 2⟩

/-- SN 1: the second byte of the SDU, 128 SDUs of one byte and the first byte of another. -/
def overfullPdu : Pdu where
  mem a :=
    if a = 0 then 0xE1
    else if a < 193 then (if a % 3 = 1 then 0x80 else if a % 3 = 2 then 0x18 else 0x01)
    else if a = 194 then 0x10
    else if a = 324 then 0x11
    else 0
  size := 325

/-- SN 2: the second byte of that SDU and one more SDU. -/
def closingPdu : Pdu where
  mem a := if a = 0 then 0xA2 else if a = 2 then 0x10 else if a = 3 then 0x22 else if a =
    4 then 0xCC else 0
  size := 5

def manySdus : List (List UInt8) := [0xAA, 0] :: (List.replicate 128 [0] ++ [[0x11, 0x22], [0xCC]])

def manyBacklog : Nat → Backlog
  | 0 => ⟨[], manySdus⟩
  | 1 => ⟨[0xAA], manySdus⟩
  | 2 => ⟨[0x11], [[0x11, 0x22], [0xCC]]⟩
  | _ => ⟨[], []⟩

theorem cuts_replicate {sdus pieces : List (List UInt8)} {after : Backlog} (sdu : List UInt8)
    (some : sdu ≠ [])
    (cuts : Cuts ⟨[], sdus⟩ pieces after) (n : Nat) :
    Cuts ⟨[], List.replicate n sdu ++ sdus⟩ (List.replicate n sdu ++ pieces) after := by
  induction n with
  | zero => exact cuts
  | succ n ih => exact .next some ih

theorem manySdus_segmentation :
    Segmentation fiveBitBearer manySdus [openingPdu, overfullPdu, closingPdu] manyBacklog := by
  refine ⟨rfl, fun k pdu sent => ?_⟩
  match k with
  | 0 =>
    cases sent
    refine ⟨[[0xAA]], @Cuts.opens [] [0xAA] [0] _ (by decide) (by decide), rfl, rfl, rfl,
      trivial, rfl, rfl⟩
  | 1 =>
    cases sent
    refine ⟨List.replicate 129 [0] ++ [[0x11]], ?_, rfl, rfl, by decide +kernel, ?_, by
      decide +kernel, by decide +kernel⟩
    · exact @Cuts.next [0xAA] [0] _ _ _ (by decide)
        (cuts_replicate [0] (by decide)
          (@Cuts.opens [] [0x11] [0x22] _ (by decide) (by decide)) 128)
    · exact Am.entries_of_forall (by decide +kernel)
  | 2 =>
    cases sent
    refine ⟨[[0x22], [0xCC]], @Cuts.next [0x11] [0x22] _ _ _ (by decide)
      (@Cuts.ends [] [0xCC] _ (by decide)), rfl, rfl, rfl, ?_, rfl, rfl⟩
    exact ⟨rfl, rfl, trivial⟩
  | k + 3 => cases sent

/-- SN 1: the last byte of an SDU. -/
def lastPdu : Pdu := ⟨fun a => if a = 0 then 0x81 else 0xBB, 2⟩

end OpenAir.Rlc.Um
