import OpenAir.Rlc.Am.StatusCodec
import OpenAir.Rlc.Am.StatusExact
import OpenAir.Rlc.Am.StatusWalk

/-! The size that the STATUS generator forecasts from its bit count is the size the
encoder writes. -/
namespace OpenAir.Rlc.Am
open BitField

/-- The bits counted are those of the header and of the entries, and every entry can
be written. -/
structure StatusBuild.Sound (b : StatusBuild) : Prop where
  fits : ∀ nack ∈ b.info.nackList, nack.Fits
  counted : b.nbBitsTransmitted = 15 + widths (b.info.nackList.flatMap nackFields)

theorem nackWhole_fits {sn : Nat} (valid : sn < snModulo) : (nackWhole sn).Fits where
  nackSn := valid
  soStart := Nat.two_pow_pos 15
  soEnd := by simp [nackWhole, statusPduSoEndAllBytes]
  whole := fun _ => ⟨rfl, rfl⟩

theorem nackRange_fits {sn : Nat} (valid : sn < snModulo) (soStart soEnd : Int) :
    (nackRange sn soStart soEnd).Fits := by
  refine ⟨valid, ?_, ?_, nofun⟩ <;> simp only [nackRange] <;> omega

section
variable {vrR vrMs snCursor nbBitsToTransmit : Nat} {b : StatusBuild}

theorem StatusBuild.Sound.addNack {nack : NackSn} {bits : Nat} (sound : b.Sound) (fits : nack.Fits)
    (size : bits = widths (nackFields nack)) : (b.addNack nack bits).Sound where
  fits := by
    intro other member
    rcases List.mem_append.mp member with before | last
    · exact sound.fits other before
    · rw [List.mem_singleton.mp last]
      exact fits
  counted := by
    simp only [StatusBuild.addNack, sound.counted, List.flatMap_append,
      List.flatMap_singleton, widths_append, size, Nat.add_assoc]

theorem StatusBuild.Sound.stopAt (sound : b.Sound) (sn : Nat) : (b.stopAt sn).Sound :=
  ⟨sound.fits, sound.counted⟩

theorem StatusBuild.Sound.moved (sound : b.Sound)
    (sn : Nat) : ({ b with snNack := sn } : StatusBuild).Sound :=
  ⟨sound.fits, sound.counted⟩

theorem StatusBuild.Sound.looked (sound : b.Sound) (mark : Bool) :
    ({ b with allSegmentsReceived := mark } : StatusBuild).Sound :=
  ⟨sound.fits, sound.counted⟩

theorem nackMissing_sound (rounds : Nat) (sound : b.Sound) (valid : b.snNack < snModulo) :
    (nackMissing vrR vrMs snCursor nbBitsToTransmit rounds b).Sound := by
  induction rounds generalizing b with
  | zero => exact sound
  | succ rounds ih =>
    rw [nackMissing]
    split
    · split
      · exact ih ((sound.addNack (nackWhole_fits valid) rfl).moved _) (nextSn_lt _)
      · exact sound.stopAt _
    · exact sound

theorem nackBytes_sound (sound : b.Sound) (valid : snCursor < snModulo) (soStart soEnd : Int) :
    (nackBytes snCursor nbBitsToTransmit soStart soEnd b).Sound := by
  rw [nackBytes]
  split
  · exact sound.addNack (nackRange_fits valid _ _) rfl
  · exact sound.stopAt _

theorem nackSegments_sound (rest : List RxPdu) (waitedSo : Int) (sound : b.Sound)
    (valid : snCursor < snModulo) :
    (nackSegments snCursor nbBitsToTransmit rest waitedSo b).1.Sound := by
  induction rest generalizing waitedSo b with
  | nil => exact nackBytes_sound sound valid _ _
  | cons e rest ih =>
    have gap := (@nackBytes_sound _ nbBitsToTransmit _) sound valid waitedSo (e.info.so - 1)
    rw [nackSegments]
    split
    · split
      · simp only
        split
        · exact gap
        · split
          · exact gap
          · exact ih _ gap
      · split
        · exact sound
        · exact ih _ sound
    · exact nackBytes_sound sound valid _ _

theorem nackSegmented_sound {e : RxPdu} (rest : List RxPdu) (sound : b.Sound)
    (valid : e.info.sn < snModulo) :
    (nackSegmented nbBitsToTransmit e rest b).1.Sound := by
  have first :
      (if e.info.so ≠ 0 then b.addNack (nackRange e.info.sn 0 (e.info.so - 1)) nackSoBits
      else b).Sound := by
    split
    · exact sound.addNack (nackRange_fits valid _ _) rfl
    · exact sound
  rw [nackSegmented]
  generalize (if e.info.so ≠ 0 then _ else b) = reached at first ⊢
  split
  · exact first
  · exact nackSegments_sound rest _ first valid

theorem nackElement_sound {e : RxPdu} (rest : List RxPdu) (sound : b.Sound)
    (valid : e.info.sn < snModulo) :
    (nackElement vrMs nbBitsToTransmit e rest b).1.Sound := by
  rw [nackElement]
  split
  · split
    · exact sound
    · split
      · exact nackSegmented_sound rest sound valid
      · exact sound.stopAt _
  · exact sound

theorem nackSegments_sublist (rest : List RxPdu) (waitedSo : Int) (b : StatusBuild) :
    (nackSegments snCursor nbBitsToTransmit rest waitedSo b).2.Sublist rest := by
  induction rest generalizing waitedSo b with
  | nil => exact List.Sublist.refl _
  | cons e rest ih =>
    have tail := List.sublist_cons_self e rest
    rw [nackSegments]
    split
    · split
      · simp only
        split
        · exact List.Sublist.refl _
        · split
          · exact tail
          · exact (ih _ _).trans tail
      · split
        · exact tail
        · exact (ih _ _).trans tail
    · exact List.Sublist.refl _

theorem nackElement_sublist (vrMs nbBitsToTransmit : Nat) (e : RxPdu) (rest : List RxPdu)
    (b : StatusBuild) :
    (nackElement vrMs nbBitsToTransmit e rest b).2.Sublist (e :: rest) := by
  have tail := List.sublist_cons_self e rest
  unfold nackElement nackSegmented
  split
  · split
    · exact List.Sublist.refl _
    · split
      · simp only
        split
        · exact tail
        · exact (nackSegments_sublist rest _ _).trans tail
      · exact List.Sublist.refl _
  · exact (List.dropWhile_sublist _).trans tail

theorem statusLoop_sound {rounds : Nat} {cursor : List RxPdu} (validMs : vrMs < snModulo)
    (sound : b.Sound)
    (valid : b.snNack < snModulo) (sns : ∀ e ∈ cursor, e.info.sn < snModulo) :
    (statusLoop vrR vrMs nbBitsToTransmit rounds cursor b).Sound := by
  induction rounds generalizing cursor b with
  | zero => exact sound
  | succ rounds ih =>
    cases cursor with
    | nil => exact sound
    | cons e rest =>
      have missing := (@nackMissing_sound vrR vrMs e.info.sn nbBitsToTransmit _) snModulo
        (sound.looked e.allSegmentsReceived) valid
      rw [statusLoop]
      split
      · simp only
        split
        · exact missing
        · refine ih ((nackElement_sound rest missing (sns e List.mem_cons_self)).moved _) ?_ ?_
          · simp only
            split
            · exact nextSn_lt _
            · exact validMs
          · intro other member
            exact sns other ((nackElement_sublist _ _ _ _ _).subset member)
      · exact sound

end

theorem clearLastE1_fits {nacks : List NackSn} (fits : ∀ nack ∈ nacks, nack.Fits) :
    ∀ nack ∈ clearLastE1 nacks, nack.Fits := by
  fun_induction clearLastE1 nacks with
  | case1 => exact fits
  | case2 nack =>
    have one := fits nack List.mem_cons_self
    intro other member
    rw [List.mem_singleton.mp member]
    exact ⟨one.nackSn, one.soStart, one.soEnd, one.whole⟩
  | case3 nack rest _ ih =>
    exact List.forall_mem_cons.mpr ⟨fits nack List.mem_cons_self,
      ih fun other member => fits other (List.mem_cons_of_mem _ member)⟩

theorem clearLastE1_widths (nacks : List NackSn) :
    widths ((clearLastE1 nacks).flatMap nackFields) = widths (nacks.flatMap nackFields) := by
  fun_induction clearLastE1 nacks with
  | case1 => rfl
  | case2 nack => cases offsets : nack.e2 <;> simp [nackFields, widths, offsets]
  | case3 nack rest _ ih => simp only [List.flatMap_cons, widths_append, ih]

@[simp] theorem clearLastE1_length (nacks : List NackSn) : (clearLastE1 nacks).length =
    nacks.length := by
  fun_induction clearLastE1 nacks with
  | case1 => rfl
  | case2 nack => rfl
  | case3 nack rest _ ih => rw [List.length_cons, List.length_cons, ih]

/-- A control PDU that can be written, with the bits it takes. -/
structure Writable (info : ControlPduInfo) (bits : Nat) : Prop where
  ackSn : info.ackSn < 2 ^ 10
  fits : ∀ nack ∈ info.nackList, nack.Fits
  counted : bits = 15 + widths (info.nackList.flatMap nackFields)

variable {vrR vrMs nbBytesRequested : Nat} {l : List RxPdu} {info : ControlPduInfo} {bits : Nat}

theorem buildStatus_writable (valid : vrR < snModulo) (validMs : vrMs < snModulo)
    (ordered : RxOrdered vrR l)
    (whole : WholeMarked l) (built : buildStatus vrR vrMs nbBytesRequested l = some (info, bits)) :
    Writable info bits := by
  rw [buildStatus] at built
  by_cases idle : vrR = vrMs
  · rw [if_pos idle] at built
    cases built
    exact ⟨validMs, fun _ member => absurd member List.not_mem_nil, rfl⟩
  · rw [if_neg idle] at built
    by_cases room : l ≠ [] ∧ 15 + nackBits ≤ 8 * nbBytesRequested
    · simp only [if_pos room] at built
      have sound :=
        (@statusLoop_sound vrR _ (8 * nbBytesRequested) { info := { e1 := true }, snNack := vrR }
        l.length _) validMs ⟨fun _ member => absurd member List.not_mem_nil, rfl⟩ valid
        fun e member => (ordered.fits e member).sn
      have carried := @statusLoop_reported vrR vrMs (8 * nbBytesRequested) valid validMs
        (diffSn vrMs vrR) 0
        (8 * nbBytesRequested - 15) l.length l { info := { e1 := true }, snNack := vrR }
          (Nat.zero_add _)
        (Nat.mod_eq_of_lt valid).symm rfl (by simp only; omega) (Nat.le_refl _) ordered whole
      generalize statusLoop vrR vrMs (8 * nbBytesRequested) l.length l
        { info := { e1 := true }, snNack := vrR } = b at built carried sound
      split at built
      · cases built
      · cases built
        refine ⟨?_, clearLastE1_fits sound.fits, ?_⟩
        · have ack := carried.ack
          rw [StatusBuild.ack] at ack
          simp only [ack]
          exact snAt_lt _ _
        · rw [clearLastE1_widths]
          exact sound.counted
    · rw [if_neg room] at built
      cases built
      exact ⟨valid, fun _ member => absurd member List.not_mem_nil, rfl⟩

/-- What was built and fits the grant is sent, in as many bytes as were forecast. -/
theorem sendStatusPdu_forecast (writable : Writable info bits)
    (built : buildStatus vrR vrMs nbBytesRequested l = some (info, bits))
    (grant : (bits + 7) / 8 ≤ nbBytesRequested) :
    ∃ pdu, sendStatusPdu vrR vrMs nbBytesRequested l = some pdu ∧ pdu.info = info ∧
      pdu.size = (bits + 7) / 8 := by
  have size := writeStatusPdu_size_of (fun _ => 0) writable.ackSn writable.fits
  have total : widths (statusFields info) = 11 + widths (info.nackList.flatMap nackFields) := by
    rw [statusFields, widths_append]
    rfl
  have forecast : (writeStatusPdu (fun _ => 0) info).2 = (bits + 7) / 8 := by
    rw [size, total, writable.counted]
    omega
  refine ⟨⟨info, (writeStatusPdu (fun _ => 0) info).1, (writeStatusPdu (fun _ => 0) info).2⟩,
    ?_, rfl, forecast⟩
  rw [sendStatusPdu, built]
  simp only [Option.bind_some, Nat.not_lt.mpr grant, if_false, forecast, ne_eq, not_true_eq_false]

end OpenAir.Rlc.Am
