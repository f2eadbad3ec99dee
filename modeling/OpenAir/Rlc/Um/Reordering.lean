import OpenAir.Rlc.Um.Receive

/-! The reordering window over whole runs of receptions and timer checks. -/
namespace OpenAir.Rlc.Um
open BitField Serial

/-- The reordering window in order: VR(UH) at most a window ahead of VR(UR), PDUs only between
them, the earliest SN not received at VR(UR), and t-Reordering running for VR(UX) when a PDU
is missing. -/
structure ReorderingOk (config : Config) (rx : Rx) : Prop where
  width : dist config.modulo rx.vrUr rx.vrUh ≤ config.windowSize
  held : ∀ sn pdu, rx.darBuffer sn = some pdu →
    sn < config.modulo ∧ dist config.modulo rx.vrUr sn < dist config.modulo rx.vrUr rx.vrUh
  waits : rx.darBuffer rx.vrUr = none
  runs : rx.tReordering.running = true → 0 < dist config.modulo rx.vrUr rx.vrUx ∧
    dist config.modulo rx.vrUr rx.vrUx ≤ dist config.modulo rx.vrUr rx.vrUh
  started : rx.vrUr ≠ rx.vrUh → rx.tReordering.msDuration ≠ 0 → rx.tReordering.running = true

/-- A PDU that keeps the window in order: it has its fixed header, if it slides the window it
does not bring VR(UR) to a slot in use, and it does not fill the last hole below VR(UX)
while VR(UX) is VR(UH). -/
structure SteadyPdu (config : Config) (rx : Rx) (pdu : Pdu) (sn : Nat) : Prop where
  headed : config.snLength.headerMin ≤ pdu.size
  lands : rx.inReorderingWindow config sn < 0 → config.windowSize ≤ dist config.modulo rx.vrUr sn →
    rx.darBuffer ((sn + 1 + config.modulo - config.windowSize) % config.modulo) = none
  loose : ¬ (rx.Stuck ∧ sn = rx.vrUr ∧ ∀ other < config.modulo, 0 <
    dist config.modulo rx.vrUr other →
    dist config.modulo rx.vrUr other < dist config.modulo rx.vrUr rx.vrUh →
      (rx.darBuffer other).isSome)

/-- The inputs that keep the window in order. -/
def Steady (config : Config) (rx : Rx) : RxOp → Prop
  | .receive pdu _ => 0 < pdu.size → SteadyPdu config rx pdu (fixedSn config.snLength pdu.mem)
  | .checkTimer _ => True

/-- The window is in order, and every PDU of the buffer has its header. -/
structure InOrder (config : Config) (rx : Rx) : Prop extends Queue config rx,
    ReorderingOk config rx where
  ux : rx.vrUx < config.modulo

section Step

variable {config : Config} {rx : Rx}

/-- The window behind a settled timer that is not stuck. -/
theorem Settled.inOrder {stuck : Prop} {after : Rx} (settled : Settled config stuck rx after)
    (queue : Queue config rx)
    (waits : rx.darBuffer rx.vrUr = none) (loose : ¬ (rx.vrUr = rx.vrUh ∧ stuck)) :
    InOrder config after := by
  refine { settled.queue queue with ux := settled.ux, waits := ?_, runs := ?_, started := ?_ }
  · rw [settled.dar, settled.vrUr]
    exact waits
  · rw [settled.vrUr, settled.vrUh]
    intro running
    obtain ⟨below, ahead⟩ := settled.runs running
    exact ⟨ahead.resolve_right loose, below⟩
  · rw [settled.vrUr, settled.vrUh, settled.duration]
    exact settled.started

/-- A slide that brings VR(UR) to a free slot, or none at all. -/
theorem slide_lands (order : InOrder config rx) {sn reach : Nat} (valid : sn < config.modulo)
    (top : reach = max (dist config.modulo rx.vrUr rx.vrUh) (dist config.modulo rx.vrUr sn + 1))
    (near : dist config.modulo rx.vrUr sn < dist config.modulo rx.vrUr rx.vrUh + config.windowSize)
    (lands : rx.inReorderingWindow config sn < 0 →
      config.windowSize ≤ dist config.modulo rx.vrUr sn →
      rx.darBuffer ((sn + 1 + config.modulo - config.windowSize) % config.modulo) = none) :
    rx.darBuffer ((rx.vrUr + (reach - config.windowSize)) % config.modulo) = none := by
  have double := config.modulo_eq
  have width := order.toQueue.width
  by_cases stays : reach ≤ config.windowSize
  · rw [Nat.sub_eq_zero_of_le stays, Nat.add_zero, Nat.mod_eq_of_lt order.ur]
    exact order.waits
  · have slot : (sn + 1 + config.modulo - config.windowSize) % config.modulo =
        (rx.vrUr + (reach - config.windowSize)) % config.modulo := by
      conv_lhs => rw [← add_dist order.ur valid]
      rw [Nat.add_assoc, Nat.add_sub_assoc (by omega), Nat.mod_add_mod,
        show rx.vrUr + dist config.modulo rx.vrUr sn + (1 + config.modulo - config.windowSize) =
          rx.vrUr + (reach - config.windowSize) + config.modulo by omega, Nat.add_mod_right]
    rw [← slot]
    exact lands ((outside_iff order.toEdges valid).mpr ⟨by omega, near⟩) (by omega)

/-- A reception that does not leave the timer stuck. -/
theorem receive_inOrder (order : InOrder config rx) {pdu : Pdu} (now : Nat)
    (steady : SteadyPdu config rx pdu (fixedSn config.snLength pdu.mem)) :
    ∃ after, rx.receiveProcessDar config pdu now = some after ∧ InOrder config after := by
  have double := config.modulo_eq
  have positive := config.windowSize_lt
  have width := order.toQueue.width
  have ur := order.ur
  obtain ⟨headed, lands, loose⟩ := steady
  obtain ⟨sn, number⟩ : ∃ sn, fixedSn config.snLength pdu.mem = sn := ⟨_, rfl⟩
  rw [number] at lands loose
  have valid : sn < config.modulo := number ▸ fixedSn_lt config.snLength pdu.mem
  have short := dist_lt ur (x := sn)
  cases taken : rx.discards config sn with
  | true =>
    exact ⟨rx, receive_discarded now (number ▸ taken), order⟩
  | false =>
    have fresh : ¬ rx.discards config sn = true := by rw [taken]; exact Bool.false_ne_true
    rw [discards_iff order.toQueue valid, not_or] at fresh
    obtain ⟨reach, count, stored, after, top, le, rfl, received, queue, left, settled, passes⟩ :=
      receive_stored order.toQueue order.ux number headed taken now
    refine ⟨after, received, settled.inOrder queue ?_ ?_⟩
    · have stands : (rx.stored sn pdu ((rx.vrUr + reach) % config.modulo)).Headed config :=
        stored_headed order.headed headed _
      have slot : ((rx.stored sn pdu ((rx.vrUr + reach) % config.modulo)).moved config
        count).darBuffer
          ((rx.vrUr + count) % config.modulo) = _ :=
        moved_buffer (by exact ur) stands (by omega) (Nat.mod_lt _ (by omega))
      refine slot.trans ?_
      split
      · rfl
      · obtain ⟨away, rfl⟩ | ⟨-, -, free, -⟩ := passes
        · have other : (rx.vrUr + (reach - config.windowSize)) % config.modulo ≠ sn := by
            intro same
            have far := dist_add ur (show reach - config.windowSize < config.modulo by omega)
            rw [same] at far
            omega
          rw [stored_other other]
          exact slide_lands order valid top (Nat.not_le.mp fresh.1) lands
        · exact free
    · -- the timer is stuck only behind the PDU that fills the last hole
      rintro ⟨closed, running, highest⟩
      have none : reach - count = 0 :=
        left.symm.trans
          ((congrArg (fun base => dist config.modulo base _) closed).trans (dist_self _ _))
      obtain ⟨-, rfl⟩ | ⟨waited, -, -, passed⟩ := passes
      · omega
      · have ahead := order.runs running
        have same : reach = dist config.modulo rx.vrUr rx.vrUh := by omega
        have vrUh : (rx.vrUr + reach) % config.modulo = rx.vrUh := by
          rw [same]; exact add_dist ur order.uh
        have home : sn = rx.vrUr := dist_inj ur valid ur (waited.trans (dist_self _ _).symm)
        refine loose ⟨⟨running, highest.trans vrUh⟩, home, ?_⟩
        intro other validOther above below
        have there := passed (dist config.modulo rx.vrUr other) (by omega)
        have away : other ≠ sn := by
          intro here
          rw [here, waited] at above
          exact Nat.lt_irrefl 0 above
        rwa [show (rx.stored sn pdu _).vrUr = rx.vrUr from rfl, add_dist ur validOther,
          stored_other away] at there

theorem checkTimer_inOrder (order : InOrder config rx) (now : Nat) :
    ∃ after, rx.checkTimerDarTimeOut config now = some after ∧ InOrder config after := by
  have double := config.modulo_eq
  have positive := config.windowSize_lt
  have width := order.toQueue.width
  cases expired : rx.tReordering.expired now with
  | false => exact ⟨rx, checkTimer_waiting expired, order⟩
  | true =>
    have running := Timer.running_of_expired expired
    obtain ⟨count, after, le, checked, queue, settled, free⟩ :=
      checkTimer_expired order.toQueue order.ux (order.runs running).2 expired
    refine ⟨after, checked, settled.inOrder queue ?_ fun stuck => stuck.2⟩
    have slot : (rx.moved config count).darBuffer ((rx.vrUr + count) % config.modulo) = _ :=
      moved_buffer order.ur order.headed (by omega) (Nat.mod_lt _ (by omega))
    refine slot.trans ?_
    rw [free, ite_self]

end Step

theorem rxInit_inOrder (config : Config) : InOrder config (rxInit config) :=
  { rxInit_windowed config with
    waits := rfl
    runs := fun running => Bool.noConfusion running
    started := fun differ => absurd rfl differ }

def tenBitBearer : Config := ⟨.ten, true, 100⟩

/-- A PDU with a 10-bit SN below 256 that carries an SDU of one byte. -/
def oneByteSdu (sn : UInt8) : Pdu := ⟨fun a => if a = 1 then sn else 0, 3⟩

instance (rx : Rx) : Decidable rx.Stuck := inferInstanceAs (Decidable (_ ∧ _))

instance (config : Config) (rx : Rx) (pdu : Pdu)
    (sn : Nat) : Decidable (SteadyPdu config rx pdu sn) :=
  decidable_of_iff
    (config.snLength.headerMin ≤ pdu.size ∧
      (rx.inReorderingWindow config sn < 0 → config.windowSize ≤ dist config.modulo rx.vrUr sn →
        (rx.darBuffer ((sn + 1 + config.modulo - config.windowSize) % config.modulo)).isNone) ∧
      ¬ (rx.Stuck ∧ sn = rx.vrUr ∧ ∀ other < config.modulo, 0 < dist config.modulo rx.vrUr other →
        dist config.modulo rx.vrUr other < dist config.modulo rx.vrUr rx.vrUh →
          (rx.darBuffer other).isSome))
    ⟨fun ⟨headed, lands, loose⟩ =>
      ⟨headed, fun outside far => Option.isNone_iff_eq_none.mp (lands outside far), loose⟩,
      fun ⟨headed, lands, loose⟩ =>
        ⟨headed, fun outside far => Option.isNone_iff_eq_none.mpr (lands outside far), loose⟩⟩

instance (config : Config) (rx : Rx) : (op : RxOp) → Decidable (Steady config rx op)
  | .receive pdu _ =>
    inferInstanceAs
      (Decidable (0 < pdu.size → SteadyPdu config rx pdu (fixedSn config.snLength pdu.mem)))
  | .checkTimer _ => isTrue trivial

/-- PDU 1 is missing, t-Reordering runs out, and PDU 3 is in order behind it. -/
def oneLost : List RxOp :=
  [.receive (oneByteSdu 0) 0, .receive (oneByteSdu 2) 1, .checkTimer 50, .checkTimer 120,
    .receive (oneByteSdu 3) 121]

end OpenAir.Rlc.Um
