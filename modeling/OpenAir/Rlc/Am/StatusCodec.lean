import OpenAir.Rlc.Am.BitCursor

/-! The STATUS PDU encoder is undone by the decoder: a list of packed fields, each
entry of one of two sizes, is written and read back field by field. -/
namespace OpenAir.Rlc.Am
open BitField

/-- The packed fields of one NACK; the offsets are there only with `e2`. -/
def nackFields (nack : NackSn) : List (Nat × Nat) :=
  [(10, nack.nackSn), (1, nack.e1.toNat), (1, nack.e2.toNat)] ++
    if nack.e2 then [(15, nack.soStart), (15, nack.soEnd)] else []

/-- Values that fit their fields. A NACK without offsets stands for the whole PDU. -/
structure NackSn.Fits (nack : NackSn) : Prop where
  nackSn : nack.nackSn < 2 ^ 10
  soStart : nack.soStart < 2 ^ 15
  soEnd : nack.soEnd < 2 ^ 15
  whole : nack.e2 = false → nack.soStart = 0 ∧ nack.soEnd = statusPduSoEndAllBytes

theorem Written.writeNack {mem : Memory} {start stop : Nat} {fields : List (Nat × Nat)}
    {out : Memory × Cursor} {nack : NackSn} (written : Written mem start fields out)
    (clear : Clear mem start stop) (fits : nack.Fits)
    (room : start + widths (fields ++ nackFields nack) ≤ stop) :
    Written mem start (fields ++ nackFields nack) (writeNack out nack) := by
  simp only [widths_append, nackFields] at room
  have flags := written.write16 10 clear (by decide) (by decide) fits.nackSn
    (by simp only [widths_append]; simp only [widths] at room ⊢; simp at room ⊢; omega)
  have flags := flags.write8 1 clear (by decide) (by decide)
    (Nat.lt_succ_of_le (Bool.toNat_le nack.e1))
    (by simp only [widths_append]; simp only [widths] at room ⊢; simp at room ⊢; omega)
  have flags := flags.write8 1 clear (by decide) (by decide)
    (Nat.lt_succ_of_le (Bool.toNat_le nack.e2))
    (by simp only [widths_append]; simp only [widths] at room ⊢; simp at room ⊢; omega)
  cases offsets : nack.e2 with
  | false =>
    simpa [Am.writeNack, nackFields, offsets] using flags
  | true =>
    rw [offsets] at room
    have whole := flags.write16 15 clear (by decide) (by decide) fits.soStart
      (by simp only [widths_append]; simp only [widths] at room ⊢; simp at room ⊢; omega)
    have whole := whole.write16 15 clear (by decide) (by decide) fits.soEnd
      (by simp only [widths_append]; simp only [widths] at room ⊢; simp at room ⊢; omega)
    simpa [Am.writeNack, nackFields, offsets] using whole

theorem Written.writeNacks {mem : Memory} {start stop : Nat} {fields : List (Nat × Nat)}
    {out : Memory × Cursor} {nacks : List NackSn} (written : Written mem start fields out)
    (clear : Clear mem start stop) (fits : ∀ nack ∈ nacks, nack.Fits)
    (room : start + widths (fields ++ nacks.flatMap nackFields) ≤ stop) :
    Written mem start (fields ++ nacks.flatMap nackFields) (nacks.foldl Am.writeNack out) := by
  induction nacks generalizing fields out with
  | nil => simpa using written
  | cons nack rest ih =>
    simp only [List.flatMap_cons, ← List.append_assoc] at room ⊢
    have first := written.writeNack clear (fits nack List.mem_cons_self)
      (by rw [widths_append] at room; omega)
    exact ih first (fun other member => fits other (List.mem_cons_of_mem _ member)) room

/-- One entry read, whatever it holds: its SN, its E1 bit and where it ends. -/
theorem readNack_fields (mem : Memory) {c : Cursor} (aligned : c.bit < 8) :
    (readNack mem c).1.nackSn = valueAt mem c.pos 10 ∧
    (readNack mem c).1.e1 = bitAt mem (c.pos + 10) ∧
    (readNack mem c).2.pos = c.pos + 12 + (if bitAt mem (c.pos + 11) then 30 else 0) ∧
    (readNack mem c).2.bit < 8 := by
  obtain ⟨snEq, snPos, snBit⟩ := readBitField_spec mem 10 (by decide) (by decide) aligned
  obtain ⟨e1Eq, e1Pos, e1Bit⟩ := readBitField_spec mem 1 (by decide) (by decide) snBit
  obtain ⟨e2Eq, e2Pos, e2Bit⟩ := readBitField_spec mem 1 (by decide) (by decide) e1Bit
  obtain ⟨-, startPos, startBit⟩ := readBitField_spec mem 15 (by decide) (by decide) e2Bit
  obtain ⟨-, endPos, endBit⟩ := readBitField_spec mem 15 (by decide) (by decide) startBit
  have one (pos : Nat) : valueAt mem pos 1 = (bitAt mem pos).toNat := by simp [valueAt]
  have flag (b : Bool) : (b.toNat != 0) = b := by cases b <;> rfl
  rw [snPos, one] at e1Eq
  rw [e1Pos, snPos, one] at e2Eq
  simp only [readNack, snEq, e1Eq, e2Eq, flag]
  cases bitAt mem (c.pos + 11) with
  | false =>
    simp only [Bool.toNat_false, if_true, Bool.false_eq_true, if_false, e2Pos, e1Pos, snPos]
    exact ⟨trivial, trivial, trivial, e2Bit⟩
  | true =>
    simp only [Bool.toNat_true, one_ne_zero, if_true, if_false, endPos, startPos,
      e2Pos, e1Pos, snPos]
    exact ⟨trivial, trivial, trivial, endBit⟩

/-- Reading one entry where its fields are held gives the entry back. -/
theorem readNack_spec {mem : Memory} {c : Cursor} {nack : NackSn} (aligned : c.bit < 8)
    (fits : nack.Fits) (holds : Holds mem c.pos (nackFields nack)) :
    (readNack mem c).1 = nack ∧ (readNack mem c).2.pos = c.pos + widths (nackFields nack) ∧
    (readNack mem c).2.bit < 8 := by
  obtain ⟨snEq, snPos, snBit⟩ := readBitField_spec mem 10 (by decide) (by decide) aligned
  obtain ⟨e1Eq, e1Pos, e1Bit⟩ := readBitField_spec mem 1 (by decide) (by decide) snBit
  obtain ⟨e2Eq, e2Pos, e2Bit⟩ := readBitField_spec mem 1 (by decide) (by decide) e1Bit
  have fieldsHeld := holds
  simp only [nackFields, List.cons_append, List.nil_append, Holds] at holds
  obtain ⟨sn, e1, e2, offsets⟩ := holds
  rw [snPos, e1] at e1Eq
  rw [e1Pos, snPos, e2] at e2Eq
  rw [sn] at snEq
  have flag (b : Bool) : (b.toNat != 0) = b := by cases b <;> rfl
  simp only [readNack]
  obtain ⟨nackSn, e1Flag, e2Flag, soStart, soEnd⟩ := nack
  cases e2Flag with
  | false =>
    obtain ⟨rfl, rfl⟩ := fits.whole rfl
    refine ⟨?_, ?_, ?_⟩
    · simp [e2Eq, e1Eq, snEq, flag]
    · simp only [e2Eq, Bool.toNat_false, if_true, e2Pos, e1Pos, snPos, nackFields, widths]
      simp
    · simp only [e2Eq, Bool.toNat_false, if_true]
      exact e2Bit
  | true =>
    obtain ⟨startEq, startPos, startBit⟩ := readBitField_spec mem 15 (by decide) (by decide) e2Bit
    obtain ⟨endEq, endPos, endBit⟩ := readBitField_spec mem 15 (by decide) (by decide) startBit
    simp only [if_true, Holds, and_true] at offsets
    rw [e2Pos, e1Pos, snPos, offsets.1] at startEq
    rw [startPos, e2Pos, e1Pos, snPos, offsets.2] at endEq
    refine ⟨?_, ?_, ?_⟩
    · simp [e2Eq, e1Eq, snEq, flag, startEq, endEq]
    · simp only [e2Eq, Bool.toNat_true, one_ne_zero, if_false, endPos, startPos,
        e2Pos, e1Pos, snPos, nackFields, widths]
      simp
    · simp only [e2Eq, Bool.toNat_true, one_ne_zero, if_false]
      exact endBit

/-- `e1` announces that another entry follows. -/
def Chained : List NackSn → Prop
  | [] => True
  | [nack] => nack.e1 = false
  | nack :: rest => nack.e1 = true ∧ Chained rest

theorem readNacks_spec (mem : Memory) {nacks : List NackSn} {room : Nat} {c : Cursor}
    (totalSize : Int)
    (info : ControlPduInfo) (aligned : c.bit < 8) (some : nacks ≠ [])
    (fits : ∀ nack ∈ nacks, nack.Fits)
    (chained : Chained nacks) (enough : nacks.length ≤ room)
    (below : info.nackList.length + nacks.length < maxNackInStatusPdu)
    (holds : Holds mem c.pos (nacks.flatMap nackFields)) :
    readNacks mem room c totalSize info =
      ⟨0, totalSize - ((c.pos + widths (nacks.flatMap nackFields) + 7) / 8 : Nat),
        { info with nackList := info.nackList ++ nacks }⟩ := by
  induction nacks generalizing room c info with
  | nil => exact absurd rfl some
  | cons nack rest ih =>
    cases room with
    | zero => simp at enough
    | succ room =>
      rw [List.flatMap_cons, holds_append] at holds
      obtain ⟨read, position, bit⟩ := readNack_spec aligned (fits nack List.mem_cons_self) holds.1
      have bytes : (readNack mem c).2.bytes = (c.pos + widths (nackFields nack) + 7) / 8 := by
        rw [← position]
        simp only [Cursor.bytes, Cursor.pos]
        omega
      rw [readNacks]
      simp only [read]
      cases rest with
      | nil =>
        have last : nack.e1 = false := chained
        simp [last, bytes]
      | cons following rest =>
        obtain ⟨more, chained⟩ := chained
        have notFull : (info.nackList ++ [nack]).length ≠ maxNackInStatusPdu := by
          simp only [List.length_append, List.length_cons, List.length_nil] at below ⊢
          omega
        rw [if_neg (by simp [more]), if_neg notFull]
        rw [ih _ bit (by simp)
          (fun other member => fits other (List.mem_cons_of_mem _ member)) chained
          (by simpa using enough) (by simp at below ⊢; omega) (by rw [position]; exact holds.2)]
        simp only [position, List.flatMap_cons, widths_append, List.append_assoc, List.cons_append,
          List.nil_append, Nat.add_assoc]

/-- What the encoder's callers hand over: every value fits its field and the
extension flags describe the list that follows. -/
structure ControlPduInfo.Consistent (info : ControlPduInfo) : Prop where
  ackSn : info.ackSn < 2 ^ 10
  fewer : info.nackList.length < maxNackInStatusPdu
  fits : ∀ nack ∈ info.nackList, nack.Fits
  chained : Chained info.nackList

def statusFields (info : ControlPduInfo) : List (Nat × Nat) :=
  [(10, info.ackSn), (1, if 0 < info.nackList.length then 1 else 0)] ++
    info.nackList.flatMap nackFields

/-- How far one entry moves the cursor does not depend on what the buffer held. -/
theorem writeNack_cursor {out : Memory × Cursor} {nack : NackSn} (aligned : out.2.bit < 8)
    (fits : nack.Fits) :
    (writeNack out nack).2.pos = out.2.pos + widths (nackFields nack) ∧
    (writeNack out nack).2.bit < 8 := by
  obtain ⟨-, snPos, snBit⟩ := write16BitField_spec 10 (by decide) (by decide) aligned fits.nackSn
  obtain ⟨-, e1Pos, e1Bit⟩ := write8BitField_spec 1 (by decide) (by decide) snBit
    (Nat.lt_succ_of_le (Bool.toNat_le nack.e1))
  obtain ⟨-, e2Pos, e2Bit⟩ := write8BitField_spec 1 (by decide) (by decide) e1Bit
    (Nat.lt_succ_of_le (Bool.toNat_le nack.e2))
  obtain ⟨-, startPos, startBit⟩ :=
    write16BitField_spec 15 (by decide) (by decide) e2Bit fits.soStart
  obtain ⟨-, endPos, endBit⟩ := write16BitField_spec 15 (by decide) (by decide) startBit fits.soEnd
  cases offsets : nack.e2 with
  | false =>
    simp only [offsets, Bool.toNat_false] at e2Pos e2Bit
    refine ⟨?_, by simpa [writeNack, offsets] using e2Bit⟩
    simp [writeNack, nackFields, widths, offsets, e2Pos, e1Pos, snPos]
  | true =>
    simp only [offsets, Bool.toNat_true] at e2Pos startPos endPos endBit
    refine ⟨?_, by simpa [writeNack, offsets] using endBit⟩
    simp [writeNack, nackFields, widths, offsets, endPos, startPos, e2Pos, e1Pos, snPos]

theorem writeNacks_cursor {nacks : List NackSn} {out : Memory × Cursor} (aligned : out.2.bit < 8)
    (fits : ∀ nack ∈ nacks, nack.Fits) :
    (nacks.foldl writeNack out).2.pos = out.2.pos + widths (nacks.flatMap nackFields) ∧
    (nacks.foldl writeNack out).2.bit < 8 := by
  induction nacks generalizing out with
  | nil => exact ⟨rfl, aligned⟩
  | cons nack rest ih =>
    obtain ⟨position, bit⟩ := writeNack_cursor aligned (fits nack List.mem_cons_self)
    obtain ⟨last, lastBit⟩ := ih bit fun other member => fits other (List.mem_cons_of_mem _ member)
    refine ⟨?_, lastBit⟩
    rw [List.foldl_cons, last, position, List.flatMap_cons, widths_append, Nat.add_assoc]

theorem ackE1_fits (info : ControlPduInfo) :
    (if 0 < info.nackList.length then 1 else 0) < 2 ^ 1 := by
  split <;> decide

/-- `num_bytes` is the number of bytes the fields take, behind the four bits of D/C and CPT. -/
theorem writeStatusPdu_size_of (mem : Memory) {info : ControlPduInfo} (ackSn : info.ackSn < 2 ^ 10)
    (fits : ∀ nack ∈ info.nackList, nack.Fits) :
    (writeStatusPdu mem info).2 = (4 + widths (statusFields info) + 7) / 8 := by
  have aligned : (mem, (⟨0, 4⟩ : Cursor)).2.bit < 8 := Nat.lt_of_sub_eq_succ rfl
  obtain ⟨-, ackPos, ackBit⟩ := write16BitField_spec 10 (by decide) (by decide) aligned ackSn
  obtain ⟨-, e1Pos, e1Bit⟩ := write8BitField_spec 1 (by decide) (by decide) ackBit (ackE1_fits info)
  obtain ⟨position, bit⟩ := writeNacks_cursor e1Bit fits
  have start : (⟨0, 4⟩ : Cursor).pos = 4 := rfl
  rw [e1Pos, ackPos, start] at position
  simp only [Cursor.pos] at position
  have total : widths (statusFields info) = 11 + widths (info.nackList.flatMap nackFields) := by
    rw [statusFields, widths_append]
    rfl
  rw [writeStatusPdu]
  generalize (info.nackList.foldl writeNack _) = out at position bit ⊢
  simp only
  split <;> omega

theorem writeStatusPdu_size (mem : Memory) {info : ControlPduInfo} (consistent : info.Consistent) :
    (writeStatusPdu mem info).2 = (4 + widths (statusFields info) + 7) / 8 :=
  writeStatusPdu_size_of mem consistent.ackSn consistent.fits

/-- The fields of the STATUS PDU stand behind the first four bits, which stay clear. -/
theorem writeStatusPdu_holds {mem : Memory} {info : ControlPduInfo} (consistent : info.Consistent)
    (cleared : ∀ a < (writeStatusPdu mem info).2, mem a = 0) :
    Holds (writeStatusPdu mem info).1 4 (statusFields info) ∧
    Clear (writeStatusPdu mem info).1 0 4 := by
  have clear := clear_of_bytes cleared
  have room : 4 + widths (statusFields info) ≤ 8 * (writeStatusPdu mem info).2 := by
    rw [writeStatusPdu_size mem consistent]
    omega
  have ahead : widths (statusFields info) = 11 + widths (info.nackList.flatMap nackFields) := by
    rw [statusFields, widths_append]
    rfl
  have start : Written mem 4 [] (mem, ⟨0, 4⟩) :=
    ⟨rfl, show 4 < 8 by decide, fun _ _ => rfl, trivial⟩
  have ack := start.write16 10 (clear 4) (by decide) (by decide) consistent.ackSn
    (by simp [widths] at room ahead ⊢; omega)
  have flag := ack.write8 1 (clear 4) (by decide) (by decide) (ackE1_fits info)
    (by simp [widths] at room ahead ⊢; omega)
  have whole := flag.writeNacks (clear 4) consistent.fits room
  refine ⟨whole.holds, fun i _ upper => ?_⟩
  rw [← clear 0 i (Nat.zero_le _) (by omega)]
  exact whole.frame i (Or.inl upper)

theorem dataBit_eq (mem : Memory) : ((mem 0).toNat >>> 7 != 0) = bitAt mem 0 := by
  have small : (mem 0).toNat >>> 7 < 2 ^ 1 := by
    have := UInt8.toNat_lt (mem 0)
    rw [Nat.shiftRight_eq_div_pow]
    omega
  have flag := flag_at mem 0 7 (by decide)
  rwa [show (0x01 : Nat) = 2 ^ 1 - 1 by rfl, Nat.and_two_pow_sub_one_eq_mod, Nat.mod_eq_of_lt small]
    at flag

theorem ackSn_eq (mem : Memory) :
    (((mem 1).toNat >>> 2) &&& 0x3F) ||| (((mem 0).toNat &&& 0x0F) <<< 6) = valueAt mem 4 10 := by
  have low := shift_and_mask mem 1 2 6 (by decide)
  have high := shift_and_mask mem 0 0 4 (by decide)
  rw [Nat.shiftRight_zero] at high
  rw [show (0x3F : Nat) = 2 ^ 6 - 1 by rfl, show (0x0F : Nat) = 2 ^ 4 - 1 by
    rfl, low, high, Nat.or_comm, ← Nat.shiftLeft_add_eq_or_of_lt (valueAt_lt _ _ _),
      Nat.shiftLeft_eq, valueAt_add mem 4 4 6]

theorem getControlPduInfos_eq (mem : Memory) (totalSize : Int) :
    getControlPduInfos mem totalSize =
      if bitAt mem 0 then ⟨-1, totalSize, { dC := true }⟩
      else if valueAt mem 1 3 ≠ 0 then ⟨-3, totalSize, { cpt := valueAt mem 1 3 }⟩
      else if bitAt mem 14 then
        readNacks mem maxNackInStatusPdu ⟨1, 7⟩ totalSize { ackSn := valueAt mem 4 10, e1 := true }
      else ⟨0, totalSize - 2, { ackSn := valueAt mem 4 10 }⟩ := by
  have cpt : ((mem 0).toNat >>> 4) &&& 0x07 = valueAt mem 1 3 :=
    shift_and_mask mem 0 4 3 (by decide)
  have e1 : (((mem 1).toNat >>> 1) &&& 0x01 != 0) = bitAt mem 14 := flag_at mem 1 1 (by decide)
  simp only [getControlPduInfos, dataBit_eq, cpt, ackSn_eq, e1]
  cases bitAt mem 0 with
  | true => simp
  | false =>
    by_cases status : valueAt mem 1 3 = 0
    · cases bitAt mem 14 <;> simp [status]
    · simp [status]

theorem clear_valueAt {mem : Memory} {pos stop start n : Nat} (clear : Clear mem pos stop)
    (lower : pos ≤ start) (upper : start + n ≤ stop) : valueAt mem start n = 0 := by
  apply valueAt_eq (Nat.two_pow_pos n)
  intro j inside
  rw [clear _ (by omega) (by omega), Nat.zero_testBit]

/-- What `rlc_am_write_status_pdu` puts in a cleared buffer, the decoder takes
out: the same ACK_SN, the same NACKs, and exactly the bytes written. -/
theorem getControlPduInfos_writeStatusPdu (mem : Memory) (info : ControlPduInfo) (totalSize : Int)
    (consistent : info.Consistent) (cleared : ∀ a < (writeStatusPdu mem info).2, mem a = 0) :
    let written := writeStatusPdu mem info
    let read := getControlPduInfos written.1 totalSize
    read.ret = 0 ∧ read.info.ackSn = info.ackSn ∧ read.info.nackList = info.nackList ∧
      read.totalSize = totalSize - written.2 := by
  obtain ⟨holds, clear⟩ := writeStatusPdu_holds consistent cleared
  have size := writeStatusPdu_size mem consistent
  have dataBit : bitAt (writeStatusPdu mem info).1 0 = false := clear 0 (Nat.le_refl _) (by decide)
  have cpt : valueAt (writeStatusPdu mem info).1 1 3 = 0 :=
    clear_valueAt clear (by decide) (by decide)
  rw [statusFields, holds_append] at holds
  obtain ⟨⟨ackHeld, e1Held, -⟩, nacksHeld⟩ := holds
  have header : widths [(10, info.ackSn), (1, if 0 < info.nackList.length then 1 else 0)] = 11 :=
    rfl
  rw [statusFields, widths_append, header] at size
  simp only [getControlPduInfos_eq, dataBit, cpt, ackHeld]
  by_cases none : info.nackList = []
  · have e1 : bitAt (writeStatusPdu mem info).1 14 = false := by
      simpa [none, valueAt] using e1Held
    have bytes : (writeStatusPdu mem info).2 = 2 := by
      rw [size, none]
      simp [widths]
    simp [none, bytes, e1]
  · have some : 0 < info.nackList.length := List.length_pos_iff.mpr none
    have e1 : bitAt (writeStatusPdu mem info).1 14 = true := by
      simpa [some, valueAt] using e1Held
    have read := readNacks_spec (writeStatusPdu mem info).1 totalSize
      { ackSn := info.ackSn, e1 := true } (show (⟨1, 7⟩ : Cursor).bit < 8 by decide) none
      consistent.fits consistent.chained (Nat.le_of_lt consistent.fewer)
        (by simpa using consistent.fewer)
      nacksHeld
    have ends : (⟨1, 7⟩ : Cursor).pos = 15 := rfl
    rw [ends] at read
    simp only [e1, if_true, read, size]
    refine ⟨by simp, by simp, by simp, ?_⟩
    simp
    omega

/-- A report of one whole PDU and one byte range, written and read back. -/
def sampleReport : ControlPduInfo where
  ackSn := 1022
  nackList := [⟨1019, true, false, 0, statusPduSoEndAllBytes⟩, ⟨1021, false, true, 3, 0x7FFF⟩]

theorem sampleReport_consistent : sampleReport.Consistent where
  ackSn := by decide
  fewer := by decide
  fits := by
    intro nack member
    simp only [sampleReport, List.mem_cons, List.not_mem_nil, or_false] at member
    obtain rfl | rfl := member
    · exact ⟨by decide, by decide, by decide, fun _ => ⟨rfl, rfl⟩⟩
    · exact ⟨by decide, by decide, by decide, nofun⟩
  chained := ⟨rfl, rfl⟩

theorem getControlPduInfos_writeStatusPdu_sample :
    (getControlPduInfos (writeStatusPdu (fun _ => 0) sampleReport).1 9).info.nackList =
      sampleReport.nackList :=
  (getControlPduInfos_writeStatusPdu (fun _ => 0) sampleReport 9 sampleReport_consistent
    fun _ _ => rfl).2.2.1

end OpenAir.Rlc.Am
