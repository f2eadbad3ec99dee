import OpenAir.Rlc.Am.DataPduFields

/-! What the two PDU decoders check of the bytes they are given. Neither compares
what it consumes with the declared length, and the data decoder stores one length
indicator before it looks at the capacity, so each is safe exactly on the headers
that describe themselves correctly. -/
namespace OpenAir.Rlc.Am
open BitField

/-- A data PDU is accepted only when its header and the SDU parts it announces
were received, and no store goes behind the array. -/
def DataReadSafe (mem : Memory) (totalSize : Int16) : Prop :=
  let read := getDataPduInfos mem totalSize
  (read.ret = 0 → (read.info.headerSize : Int) ≤ totalSize.toInt ∧
    (read.info.liList.sum : Int) ≤ read.info.payloadSize) ∧
  read.info.numLi ≤ maxSduInPdu

/-- A STATUS PDU is accepted only when the bytes consumed were received, and no
store goes behind the array. -/
def ControlReadSafe (mem : Memory) (totalSize : Int) : Prop :=
  let read := getControlPduInfos mem totalSize
  (read.ret = 0 → totalSize - read.totalSize ≤ totalSize) ∧
  read.info.nackList.length ≤ maxNackInStatusPdu

/-- A data header that announces no more indicators than the array takes, and no
more bytes than were received. -/
def DataPduFits (mem : Memory) (totalSize : Int16) : Prop :=
  bitAt mem 0 = true → ∃ count ≤ maxSduInPdu, LiCount mem count ∧
    ((liStart mem + headerLiLength count + (lisAt mem (liStart mem) 0 count).sum : Nat) : Int) ≤
      totalSize.toInt

theorem LiCount.unique {mem : Memory} {first second : Nat} (left : LiCount mem first)
    (right : LiCount mem second) : first = second := by
  unfold LiCount at left right
  split at left
  · rename_i e
    rw [if_pos e] at right
    obtain ⟨leftSome, left⟩ := left
    obtain ⟨rightSome, right⟩ := right
    -- The last entry of the shorter chain is the one whose E bit is clear.
    by_contra different
    obtain less | more := Nat.lt_or_gt_of_ne different
    · have ends := left (first - 1) (by omega)
      rw [right (first - 1) (by omega), decide_eq_decide] at ends
      omega
    · have ends := right (second - 1) (by omega)
      rw [left (second - 1) (by omega), decide_eq_decide] at ends
      omega
  · rename_i e
    rw [if_neg e] at right
    rw [left, right]

theorem int16_toInt (x : Int16) : -32768 ≤ x.toInt ∧ x.toInt < 32768 := by
  have := x.le_toInt
  have := x.toInt_lt
  omega

theorem dataReadSafe_iff (mem : Memory) (totalSize : Int16) :
    DataReadSafe mem totalSize ↔ DataPduFits mem totalSize := by
  obtain ⟨lower, upper⟩ := int16_toInt totalSize
  unfold DataReadSafe DataPduFits
  cases data : bitAt mem 0 with
  | false => simp [getDataPduInfos_control totalSize data, PduInfo.numLi]
  | true =>
    obtain ⟨count, fits, lis⟩ | ⟨e, endless⟩ := liCount_or_endless mem
    · have number : (dataPduInfo mem count totalSize).numLi = count := by
        simp [dataPduInfo, PduInfo.numLi, lisAt]
      have headerLimit : liStart mem + headerLiLength count ≤ 4 + 192 := by
        simp only [liStart, headerLiLength]
        rw [maxSduInPdu] at fits
        split <;> omega
      simp only [getDataPduInfos_chain totalSize data lis fits, number]
      have headerSize : (dataPduInfo mem count totalSize).headerSize =
        liStart mem + headerLiLength count := rfl
      have payload (header : ((liStart mem + headerLiLength count : Nat) : Int) ≤ totalSize.toInt) :
          (dataPduInfo mem count totalSize).payloadSize =
            totalSize.toInt - (liStart mem + headerLiLength count : Nat) :=
              int16_eq (by omega) (by omega)
      have stored : (dataPduInfo mem count totalSize).liList =
        lisAt mem (liStart mem) 0 count := rfl
      rw [headerSize, stored]
      constructor
      · rintro ⟨accepted, -⟩ -
        obtain ⟨header, enough⟩ := accepted trivial
        rw [payload header] at enough
        exact ⟨count, fits, lis, by omega⟩
      · intro enough
        obtain ⟨other, -, same, enough⟩ := enough trivial
        obtain rfl := lis.unique same
        refine ⟨fun _ => ⟨by omega, ?_⟩, fits⟩
        rw [payload (by omega)]
        omega
    · obtain ⟨ret, number⟩ := getDataPduInfos_endless totalSize data e endless
      constructor
      · rintro ⟨-, stored⟩
        omega
      · intro enough
        obtain ⟨count, fits, lis, -⟩ := enough rfl
        rw [LiCount, if_pos e] at lis
        obtain ⟨some, lis⟩ := lis
        have last := lis (count - 1) (by omega)
        rw [endless _ (by omega), eq_comm, decide_eq_true_eq] at last
        omega

/-- Where the `k`-th entry of a STATUS PDU starts: entries with offsets are thirty
bits longer. -/
def nackPos (mem : Memory) : Nat → Nat
  | 0 => 15
  | k + 1 => nackPos mem k + 12 + if bitAt mem (nackPos mem k + 11) then 30 else 0

/-- Exactly `count` entries follow the header: E1 of the header and of every entry
but the last announces another. -/
def NackCount (mem : Memory) (count : Nat) : Prop :=
  bitAt mem 14 = decide (0 < count) ∧
    ∀ k < count, bitAt mem (nackPos mem k + 10) = decide (k + 1 < count)

/-- A STATUS PDU whose chain of entries, where it ends within the array, ends
within what was received. -/
def ControlPduFits (mem : Memory) (totalSize : Int) : Prop :=
  bitAt mem 0 = false → valueAt mem 1 3 = 0 → ∀ count ≤ maxNackInStatusPdu, NackCount mem count →
    (((nackPos mem count + 7) / 8 : Nat) : Int) ≤ totalSize

theorem NackCount.unique {mem : Memory} {first second : Nat} (left : NackCount mem first)
    (right : NackCount mem second) : first = second := by
  by_contra different
  obtain less | more := Nat.lt_or_gt_of_ne different
  · cases first with
    | zero =>
      have header := left.1
      rw [right.1, decide_eq_decide] at header
      omega
    | succ first =>
      have ends := left.2 first (by omega)
      rw [right.2 first (by omega), decide_eq_decide] at ends
      omega
  · cases second with
    | zero =>
      have header := right.1
      rw [left.1, decide_eq_decide] at header
      omega
    | succ second =>
      have ends := right.2 second (by omega)
      rw [left.2 second (by omega), decide_eq_decide] at ends
      omega

theorem readNack_position (mem : Memory) {c : Cursor} {k : Nat} (aligned : c.bit < 8)
    (place : c.pos = nackPos mem k) :
    (readNack mem c).1.e1 = bitAt mem (nackPos mem k + 10) ∧
    (readNack mem c).2.pos = nackPos mem (k + 1) ∧ (readNack mem c).2.bit < 8 := by
  obtain ⟨-, e1, position, bit⟩ := readNack_fields mem aligned
  rw [place] at e1 position
  exact ⟨e1, position, bit⟩

/-- The loop from the `k`-th entry on: it stores the entries of the chain up to the
capacity, and accepts exactly the chains that end there. -/
theorem readNacks_bounds {mem : Memory} {room k : Nat} {c : Cursor} {totalSize : Int}
    {info : ControlPduInfo}
    (aligned : c.bit < 8) (place : c.pos = nackPos mem k) (stored : info.nackList.length = k)
    (capacity : k + room = maxNackInStatusPdu) (header : bitAt mem 14 = true)
    (announced : ∀ j < k, bitAt mem (nackPos mem j + 10) = true) :
    (readNacks mem room c totalSize info).info.nackList.length ≤ maxNackInStatusPdu ∧
    ((readNacks mem room c totalSize info).ret = 0 →
      ∃ count ≤ maxNackInStatusPdu, NackCount mem count ∧
      (readNacks mem room c totalSize info).totalSize =
      totalSize - ((nackPos mem count + 7) / 8 : Nat)) ∧
    (∀ count ≤ maxNackInStatusPdu, k < count → NackCount mem count →
      (readNacks mem room c totalSize info).ret = 0) := by
  induction room generalizing k c info with
  | zero =>
    refine ⟨?_, ?_, ?_⟩
    · rw [readNacks]
      exact Nat.le_of_eq (stored.trans capacity)
    · intro accepted
      simp [readNacks] at accepted
    · intro count fits more
      omega
  | succ room ih =>
    obtain ⟨e1, position, bit⟩ := readNack_position mem aligned place
    have length : (info.nackList ++ [(readNack mem c).1]).length = k + 1 := by
      simp [stored]
    rw [readNacks]
    simp only [e1, length]
    cases more : bitAt mem (nackPos mem k + 10) with
    | false =>
      simp only [if_true]
      refine ⟨by omega, fun _ => ⟨k + 1, by
        omega, ⟨by simp [header], fun j inside => ?_⟩, ?_⟩, fun _ _ _ _ => trivial⟩
      · obtain before | here := Nat.lt_succ_iff_lt_or_eq.mp inside
        · rw [announced j before, eq_comm, decide_eq_true_eq]
          omega
        · simp [here, more]
      · rw [← position]
        have bytes : (readNack mem c).2.bytes = ((readNack mem c).2.pos + 7) / 8 := by
          simp only [Cursor.bytes, Cursor.pos]
          omega
        exact congrArg (fun read : Nat => totalSize - (read : Int)) bytes
    | true =>
      simp only [Bool.true_eq_false, if_false]
      have further : ∀ j < k + 1, bitAt mem (nackPos mem j + 10) = true := by
        intro j inside
        obtain before | here := Nat.lt_succ_iff_lt_or_eq.mp inside
        · exact announced j before
        · rw [here, more]
      have goesOn (count : Nat) (fits : k < count) (nacks : NackCount mem count) :
          k + 1 < count := by
        have entry := nacks.2 k fits
        rw [more, eq_comm, decide_eq_true_eq] at entry
        exact entry
      split
      · rename_i full
        refine ⟨Nat.le_of_eq (length.trans full), fun accepted => by simp at accepted, ?_⟩
        intro count fits some nacks
        have := goesOn count some nacks
        omega
      · have stored : ({ info with nackList := info.nackList ++ [(readNack mem c).1] } :
            ControlPduInfo).nackList.length = k + 1 := length
        obtain ⟨bounded, accepts, rejects⟩ := ih bit position stored (by omega) further
        exact ⟨bounded, accepts,
          fun count fits some nacks => rejects count fits (goesOn count some nacks) nacks⟩

theorem controlReadSafe_iff (mem : Memory) (totalSize : Int) :
    ControlReadSafe mem totalSize ↔ ControlPduFits mem totalSize := by
  unfold ControlReadSafe ControlPduFits
  rw [getControlPduInfos_eq]
  cases bitAt mem 0 with
  | true => simp
  | false =>
    by_cases status : valueAt mem 1 3 = 0
    · cases e1 : bitAt mem 14 with
      | false =>
        have none : NackCount mem 0 := ⟨by simp [e1], nofun⟩
        simp only [status, Bool.false_eq_true, if_false, ne_eq, not_true_eq_false, List.length_nil,
          Nat.zero_le, and_true, forall_const]
        constructor
        · intro received count fits nacks
          obtain rfl := nacks.unique none
          simp only [nackPos]
          omega
        · intro received
          have := received 0 (Nat.zero_le _) none
          simp only [nackPos] at this
          omega
      | true =>
        obtain ⟨bounded, accepts, rejects⟩ :=
          @readNacks_bounds mem maxNackInStatusPdu 0 ⟨1, 7⟩ totalSize
          { ackSn := valueAt mem 4 10, e1 := true } (by decide) rfl rfl (Nat.zero_add _) e1 nofun
        simp only [status, Bool.false_eq_true, if_false, ne_eq, not_true_eq_false,
          if_true, forall_const]
        constructor
        · rintro ⟨received, -⟩ count fits nacks
          have some : 0 < count := by
            have := nacks.1
            rwa [e1, eq_comm, decide_eq_true_eq] at this
          have accepted := rejects count fits some nacks
          obtain ⟨other, -, same, consumed⟩ := accepts accepted
          obtain rfl := nacks.unique same
          have := received accepted
          omega
        · intro received
          refine ⟨fun accepted => ?_, bounded⟩
          obtain ⟨count, fits, nacks, consumed⟩ := accepts accepted
          have := received count fits nacks
          omega
    · simp [status]

/-- Both decoders stay within what was received exactly on the headers that
describe no more than that. -/
theorem decoders_safe_iff (mem : Memory) (dataSize : Int16) (controlSize : Int) :
    (DataReadSafe mem dataSize ↔ DataPduFits mem dataSize) ∧
    (ControlReadSafe mem controlSize ↔ ControlPduFits mem controlSize) :=
  ⟨dataReadSafe_iff mem dataSize, controlReadSafe_iff mem controlSize⟩

/-- A header of two bytes whose E bit announces an indicator that was not received. -/
def shortHeader : Memory := fun a => if a = 0 then 0x84 else 0

/-- A STATUS header whose E1 bit announces an entry that was not received. -/
def shortReport : Memory := fun a => if a = 1 then 0x02 else 0

theorem longChain_overflows (totalSize : Int16) : ¬ DataReadSafe (fun _ => 0xFF) totalSize := by
  have bits (i : Nat) : bitAt (fun _ => 0xFF) i = true := by
    have inside : i % 8 < 8 := Nat.mod_lt _ (by decide)
    have mask := testBit_mask 0 (7 - i % 8)
    rw [Nat.shiftRight_zero] at mask
    simp only [bitAt]
    rw [show (0xFF : UInt8).toNat = 0xFF by rfl, mask, decide_eq_true_eq]
    omega
  obtain ⟨-, number⟩ := getDataPduInfos_endless totalSize (bits 0) (bits 5) fun j _ => bits _
  rintro ⟨-, stored⟩
  omega

/-- A header that announces more than was received is accepted by either decoder,
and a chain of 129 indicators is stored behind the array. -/
theorem decoders_not_safe :
    ¬ DataReadSafe shortHeader 2 ∧ ¬ DataReadSafe (fun _ => 0xFF) 300 ∧
    ¬ ControlReadSafe shortReport 2 := by
  refine ⟨?_, longChain_overflows 300, ?_⟩
  · unfold DataReadSafe
    decide
  · unfold ControlReadSafe
    decide

end OpenAir.Rlc.Am
