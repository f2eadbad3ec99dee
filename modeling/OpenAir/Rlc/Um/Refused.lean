import OpenAir.Rlc.Um.Receive
import OpenAir.Rlc.Um.LengthIndicators

/-! Malformed PDUs: what the length indicators of an arbitrary byte string are read to, and
what is left of the SDU in construction behind a PDU that is refused. -/
namespace OpenAir.Rlc.Um
open BitField

/-- The SDUs behind a list of looks at successive SNs. -/
def Assembly.feed (a : Assembly) (config : Config) (looks : List (Nat × Option Pdu)) : Assembly :=
  looks.foldl (fun a look => a.look config look.1 look.2) a

/-- A PDU that reassembly refuses: it is shorter than its fixed header, or its length
indicators are not accepted. -/
def Refused (config : Config) (pdu : Pdu) : Prop :=
  pdu.size < config.snLength.headerMin ∨
    fixedE config.snLength pdu.mem ≠ 0 ∧
      (readLengthIndicators pdu.mem config.snLength.headerMin
        ((pdu.size - config.snLength.headerMin : Nat) : Int)).accepted = false

/-- The run is robust to the PDUs it refuses. The indicators of every PDU are read safely, a
refused PDU leaves its slot, and from then on the SDUs delivered are those that would be
delivered if the SDU in construction had been cleared with it. -/
structure Robust (config : Config) (rx : Rx) : Prop where
  history : rx.toAssembly = (rxInit config).feed config rx.looked
  read : ∀ sn pdu, (sn, some pdu) ∈ rx.looked → fixedE config.snLength pdu.mem ≠ 0 →
    ReadSafe pdu.mem config.snLength.headerMin (pdu.size - config.snLength.headerMin)
  freed : ∀ sn pdu, (sn, some pdu) ∈ rx.looked → Refused config pdu →
    ∀ dar : Dar, dar.darBuffer sn = some pdu → (dar.reassembleSn config sn).darBuffer sn = none
  dropped : ∀ before sn pdu behind, rx.looked = before ++ (sn, some pdu) :: behind →
    Refused config pdu →
    ((((rxInit config).feed config before).look config sn (some pdu)).feed config
      behind).delivered =
      ((((rxInit config).feed config before).look config sn (some pdu)).clearRxSdu.feed config
        behind).delivered

/-- A PDU that is not malformed beyond what the decoder's array can take. -/
def Readable (config : Config) (pdu : Pdu) : Prop :=
  config.snLength.headerMin ≤ pdu.size ∧
    (fixedE config.snLength pdu.mem ≠ 0 → Ends pdu.mem config.snLength.headerMin)

/-- The SDU left in construction behind a refused PDU is not taken up: the PDU looked at next
does not end an SDU that it continues. -/
def KeptApart (config : Config) (a : Assembly) (sn : Nat) : Option Pdu → Prop
  | none => True
  | some pdu =>
    a.missingSnDetected = true → a.outputSdu ≠ [] →
      (a.lastReassembliedSn + 1) % config.modulo = sn →
      ¬ Refused config pdu → 2 ≤ fixedFi config.snLength pdu.mem →
      fixedE config.snLength pdu.mem = 0 ∧ fixedFi config.snLength pdu.mem = 3

/-- The same SDUs, but for bytes in construction that a missing SN makes worthless. -/
def Stale (a b : Assembly) : Prop := b = a ∨ a.missingSnDetected = true ∧ b = a.clearRxSdu

theorem Stale.delivered {a b : Assembly} (stale : Stale a b) : b.delivered = a.delivered := by
  obtain rfl | ⟨-, rfl⟩ := stale <;> rfl

section Look

variable {config : Config} {a b : Assembly} {sn : Nat}

theorem follow_next (a : Assembly) (next : (a.lastReassembliedSn + 1) % config.modulo = sn) :
    a.follow config sn = { a with lastReassembliedSn := sn } := by
  unfold Assembly.follow
  rw [if_neg (not_not.mpr next)]

theorem follow_gap (a : Assembly) (gap : (a.lastReassembliedSn + 1) % config.modulo ≠ sn) :
    a.follow config sn = { a.clearRxSdu with lastReassembliedSn := sn } := by
  unfold Assembly.follow
  rw [if_pos gap]

theorem clearRxSdu_missing (a : Assembly) : a.clearRxSdu.missingSnDetected =
    a.missingSnDetected := rfl

/-- A PDU that starts an SDU, or is refused, or lies inside one SDU does not take up the bytes
left behind a missing SN. -/
theorem joinPdu_stale {pdu : Pdu} (long : config.snLength.headerMin ≤ pdu.size)
    (missing : a.missingSnDetected = true)
    (apart : ¬ Refused config pdu → 2 ≤ fixedFi config.snLength pdu.mem →
      fixedE config.snLength pdu.mem = 0 ∧ fixedFi config.snLength pdu.mem = 3) :
    Stale (a.joinPdu config pdu) (a.clearRxSdu.joinPdu config pdu) := by
  unfold Assembly.joinPdu
  by_cases e : fixedE config.snLength pdu.mem = 0
  · have accepted : ¬ Refused config pdu := by
      rintro (short | ⟨more, -⟩)
      · exact Nat.not_lt.mpr long short
      · exact more e
    simp only [e, if_true]
    unfold Assembly.reassembleWhole
    split
    · exact .inl rfl
    · exact .inl rfl
    · rename_i two
      exact absurd ((apart accepted (by omega)).2) (by omega)
    · simp only [clearRxSdu_missing, missing, Bool.true_eq_false, if_false]
      exact .inr ⟨missing, rfl⟩
  · simp only [e, if_false]
    cases read : (readLengthIndicators pdu.mem config.snLength.headerMin
        ((pdu.size - config.snLength.headerMin : Nat) : Int)).accepted with
    | false => exact .inr ⟨rfl, rfl⟩
    | true =>
      have accepted : ¬ Refused config pdu := by
        rintro (short | ⟨-, refused⟩)
        · exact Nat.not_lt.mpr long short
        · exact Bool.false_ne_true (refused.symm.trans read)
      have starts :
          ¬ (fixedFi config.snLength pdu.mem = 2 ∨ fixedFi config.snLength pdu.mem = 3) := by
        intro continues
        exact e (apart accepted (by omega)).1
      simp only [if_true, Assembly.reassembleConcatenated, Assembly.skipFirst, if_neg starts]
      exact .inl rfl

theorem look_stale {found : Option Pdu}
    (long : ∀ pdu, found = some pdu → config.snLength.headerMin ≤ pdu.size)
    (apart : KeptApart config a sn found) (stale : Stale a b) :
    Stale (a.look config sn found) (b.look config sn found) := by
  obtain rfl | ⟨missing, rfl⟩ := stale
  · exact .inl rfl
  · cases found with
    | none => exact .inl rfl
    | some pdu =>
      have enough : ¬ pdu.size < config.snLength.headerMin := Nat.not_lt.mpr (long pdu rfl)
      simp only [Assembly.look, if_neg enough]
      by_cases empty : a.outputSdu = []
      · have same : a.clearRxSdu = a := by
          unfold Assembly.clearRxSdu
          rw [← empty]
        rw [same]
        exact .inl rfl
      · by_cases next : (a.lastReassembliedSn + 1) % config.modulo = sn
        · rw [follow_next a next, follow_next a.clearRxSdu next]
          exact joinPdu_stale (long pdu rfl) missing (apart missing empty next)
        · rw [follow_gap a next, follow_gap a.clearRxSdu next]
          exact .inl rfl

/-- What is delivered behind a missing SN does not depend on the bytes left in construction. -/
theorem feed_stale {looks : List (Nat × Option Pdu)}
    (long : ∀ look ∈ looks, ∀ pdu, look.2 = some pdu → config.snLength.headerMin ≤ pdu.size)
    (apart : ∀ before look behind, looks = before ++ look :: behind →
      KeptApart config (a.feed config before) look.1 look.2)
    (stale : Stale a b) : Stale (a.feed config looks) (b.feed config looks) := by
  induction looks generalizing a b with
  | nil => exact stale
  | cons look rest ih =>
    have here := look_stale (long look List.mem_cons_self) (apart [] look rest rfl) stale
    refine ih (fun other member => long other (List.mem_cons_of_mem _ member)) ?_ here
    intro before other behind split
    exact apart (look :: before) other behind (by rw [split]; rfl)

theorem look_refused {pdu : Pdu} (long : config.snLength.headerMin ≤ pdu.size)
    (refused : Refused config pdu) :
    Stale (a.look config sn (some pdu)) (a.look config sn (some pdu)).clearRxSdu := by
  obtain short | ⟨e, read⟩ := refused
  · exact absurd short (Nat.not_lt.mpr long)
  · right
    refine ⟨?_, rfl⟩
    simp only [Assembly.look, if_neg (Nat.not_lt.mpr long), Assembly.joinPdu, if_neg e, read]
    rfl

end Look

def RxOp.Readable (config : Config) : RxOp → Prop
  | .receive pdu _ => 0 < pdu.size → Um.Readable config pdu
  | .checkTimer _ => True

/-- All PDUs that were stored are readable, and the SDUs are what the looks made of them. -/
structure Logged (config : Config) (dar : Dar) : Prop where
  stored : ∀ sn pdu, dar.darBuffer sn = some pdu → Readable config pdu
  looked : ∀ sn pdu, (sn, some pdu) ∈ dar.looked → Readable config pdu
  history : dar.toAssembly = (rxInit config).feed config dar.looked

section Run

variable {config : Config}

theorem feed_append (a : Assembly) (first second : List (Nat × Option Pdu)) :
    a.feed config (first ++ second) = (a.feed config first).feed config second :=
  List.foldl_append

theorem Logged.look {dar : Dar} (logged : Logged config dar)
    (sn : Nat) : Logged config (dar.reassembleSn config sn) := by
  refine ⟨fun other pdu there => ?_, fun other pdu member => ?_, ?_⟩
  · rw [reassembleSn_buffer fun pdu held => (logged.stored sn pdu held).1] at there
    by_cases here : other = sn
    · rw [here, Function.update_self] at there
      cases there
    · rw [Function.update_of_ne here] at there
      exact logged.stored other pdu there
  · obtain before | here := List.mem_append.mp member
    · exact logged.looked other pdu before
    · obtain ⟨rfl, held⟩ := Prod.mk.inj (List.mem_singleton.mp here)
      exact logged.stored other pdu held.symm
  · have step : (dar.reassembleSn config sn).toAssembly = dar.look config sn (dar.darBuffer sn) :=
      rfl
    rw [step, logged.history]
    exact (feed_append _ dar.looked [(sn, dar.darBuffer sn)]).symm

theorem Logged.store {dar : Dar} (logged : Logged config dar) {pdu : Pdu}
    (readable : Readable config pdu) (sn : Nat) :
    Logged config { dar with darBuffer := Function.update dar.darBuffer sn (some pdu) } := by
  refine ⟨fun other found there => ?_, logged.looked, logged.history⟩
  simp only at there
  by_cases here : other = sn
  · subst here
    rw [Function.update_self] at there
    cases there
    exact readable
  · rw [Function.update_of_ne here] at there
    exact logged.stored other found there

/-- A run over readable PDUs does not fail, and its SDUs come from the PDUs looked at. -/
theorem rxRun_logged {ops : List RxOp} (readable : ∀ op ∈ ops, op.Readable config) :
    ∃ rx, Run.run (rxStep config) (rxInit config) ops = some rx ∧ Logged config rx.toDar := by
  have keep (rx : Rx) (op : RxOp) (inv : Windowed config rx ∧ Logged config rx.toDar)
    (readable : op.Readable config) :
      ∃ after, rxStep config rx op = some after ∧
          (Windowed config after ∧ Logged config after.toDar) := by
    refine rxStep_keeps (fun dar sn logged => logged.look sn) ?_ inv.1 ?_ inv.2
    · intro pdu now taken some dar sn logged
      subst taken
      exact logged.store (readable some) sn
    · cases op with
      | receive pdu now => exact fun some => (readable some).1
      | checkTimer now => trivial
  have start : Logged config (rxInit config).toDar :=
    ⟨fun _ _ there => (by cases there), fun _ _ member => (by cases member), rfl⟩
  obtain ⟨rx, ran, -, logged⟩ := Run.run_invariant_meets keep ⟨rxInit_windowed config, start⟩
    (Run.meets_of_forall readable (rxInit config))
  exact ⟨rx, ran, logged⟩

/-- A logged run in which no SDU is taken up behind a refused PDU is robust. -/
theorem Logged.robust {rx : Rx} (logged : Logged config rx.toDar)
    (apart : ∀ before look behind, rx.looked = before ++ look :: behind →
      KeptApart config ((rxInit config).feed config before) look.1 look.2) : Robust config rx where
  history := logged.history
  read sn pdu member e := by
    obtain ⟨long, ends⟩ := logged.looked sn pdu member
    exact (readSafe_iff _).mpr (ends e)
  freed sn pdu member _ dar held := by
    have long : ∀ found, dar.darBuffer sn = some found → config.snLength.headerMin ≤
        found.size := by
      intro found same
      cases held.symm.trans same
      exact (logged.looked sn pdu member).1
    rw [reassembleSn_buffer long, Function.update_self]
  dropped before sn pdu behind split refused := by
    have inside {other : Nat} {found : Pdu}
      (member : (other, some found) ∈ (sn, some pdu) :: behind) :
        config.snLength.headerMin ≤ found.size :=
      (logged.looked other found (by rw [split]; exact List.mem_append_right _ member)).1
    refine (Stale.delivered
      (feed_stale ?_ ?_ (look_refused (inside List.mem_cons_self) refused))).symm
    · rintro ⟨other, found⟩ member held rfl
      exact inside (List.mem_cons_of_mem _ member)
    · intro first look rest cut
      have whole := apart (before ++ (sn, some pdu) :: first) look rest (by rw [split, cut]; simp)
      rw [feed_append] at whole
      exact whole

end Run

/-- The decoder is safe on exactly the byte strings with an indicator that ends the chain in
time, and a run over such PDUs is robust when no SDU is taken up behind a refused PDU. -/
theorem rxRun_robust (config : Config) :
    (∀ (mem : Memory) (start : Nat) (size : Int), ReadSafe mem start size ↔ Ends mem start) ∧
    ∀ ops : List RxOp, (∀ op ∈ ops, op.Readable config) →
      ∃ rx, Run.run (rxStep config) (rxInit config) ops = some rx ∧
        ((∀ before look behind, rx.looked = before ++ look :: behind →
          KeptApart config ((rxInit config).feed config before) look.1 look.2) →
          Robust config rx) := by
  refine ⟨fun mem start size => readSafe_iff size, fun ops readable => ?_⟩
  obtain ⟨rx, ran, logged⟩ := rxRun_logged readable
  exact ⟨rx, ran, logged.robust⟩

def userBearer : Config := ⟨.ten, true, 100⟩

/-- SN 0: the first byte of an SDU. -/
def startOfSdu : Pdu := ⟨fun a => if a = 0 then 0x08 else if a = 1 then 0 else 0xAA, 3⟩

/-- SN 1: a length indicator beyond the end of the PDU. -/
def tooLongLi : Pdu := ⟨fun a => if a = 0 then 0x04 else if a = 1 then 1 else 0x7F, 5⟩

/-- SN 2: the last byte of an SDU and a whole one. -/
def endAndWhole : Pdu where
  mem a := if a = 0 then 0x14 else if a = 1 then 2 else if a = 2 then 0 else if a = 3 then 0x10 else
    if a = 4 then 0xBB else 0xCC
  size := 6

/-- The byte of SN 0 is delivered in front of the SDU of SN 2. -/
theorem rxRun_robust_fails :
    ∃ rx, Run.run (rxStep userBearer) (rxInit userBearer)
      [.receive startOfSdu 0, .receive tooLongLi 1, .receive endAndWhole 2] = some rx ∧
      ¬ Robust userBearer rx := by
  have ends : (Run.run (rxStep userBearer) (rxInit userBearer)
      [.receive startOfSdu 0, .receive tooLongLi 1, .receive endAndWhole 2]).map
        (fun rx => rx.looked) =
      some [(0, some startOfSdu), (1, some tooLongLi), (2, some endAndWhole)] := rfl
  obtain ⟨rx, ran, looked⟩ := Option.map_eq_some_iff.mp ends
  refine ⟨rx, ran, fun robust => ?_⟩
  have dropped := robust.dropped [(0, some startOfSdu)] 1 tooLongLi [(2, some endAndWhole)] looked
    (.inr (by decide))
  exact absurd dropped (by decide)

/-- SN 2 with one whole SDU behind the refused PDU. -/
def wholeSdu : Pdu := ⟨fun a => if a = 0 then 0 else if a = 1 then 2 else 0xCC, 3⟩

theorem rxRun_robust_whole :
    ∃ rx, Run.run (rxStep userBearer) (rxInit userBearer)
      [.receive startOfSdu 0, .receive tooLongLi 1, .receive wholeSdu 2] = some rx ∧
      Robust userBearer rx := by
  have ends : (Run.run (rxStep userBearer) (rxInit userBearer)
      [.receive startOfSdu 0, .receive tooLongLi 1, .receive wholeSdu 2]).map
        (fun rx => rx.looked) =
      some [(0, some startOfSdu), (1, some tooLongLi), (2, some wholeSdu)] := rfl
  obtain ⟨rx, ran, robust⟩ := (rxRun_robust userBearer).2
    [.receive startOfSdu 0, .receive tooLongLi 1, .receive wholeSdu 2] (by
      intro op member
      simp only [List.mem_cons, List.not_mem_nil, or_false] at member
      obtain rfl | rfl | rfl := member
      · exact fun _ => ⟨by decide, fun e => absurd rfl e⟩
      · exact fun _ => ⟨by decide, fun _ => ⟨0, by decide, by decide⟩⟩
      · exact fun _ => ⟨by decide, fun e => absurd rfl e⟩)
  have looked : rx.looked = [(0, some startOfSdu), (1, some tooLongLi), (2, some wholeSdu)] := by
    rw [ran] at ends
    exact Option.some.inj ends
  refine ⟨rx, ran, robust fun before look behind split => ?_⟩
  rw [looked] at split
  obtain _ | ⟨first, _ | ⟨second, _ | ⟨third, rest⟩⟩⟩ := before
  · obtain ⟨rfl, -⟩ := List.cons.inj split
    exact fun missing => absurd missing (by decide)
  · obtain ⟨rfl, behindFirst⟩ := List.cons.inj split
    obtain ⟨rfl, -⟩ := List.cons.inj behindFirst
    exact fun missing => absurd missing (by decide)
  · obtain ⟨rfl, behindFirst⟩ := List.cons.inj split
    obtain ⟨rfl, behindSecond⟩ := List.cons.inj behindFirst
    obtain ⟨rfl, -⟩ := List.cons.inj behindSecond
    exact fun _ _ _ _ continues => absurd continues (by decide)
  · have long := congrArg List.length split
    simp at long

end OpenAir.Rlc.Um
