import OpenAir.Rlc.Um.SegmentWrite

/-! The receiver's decoder on what the segmentation emits: it undoes the segmentation exactly
when no stray byte is sent behind the last SDU and the decoder's array can take the indicators. -/
namespace OpenAir.Rlc.Um
open BitField
open Am (bytesAt headerLiLength headerLiLength_shift liBytes Needed Entries setByte
  setByte_same setByte_other)

/-- What `rlc_um_try_reassembly` reads: the sizes of the pieces and the address of the first. -/
def decodePieces (length : SnLength) (pdu : Pdu) : Option (List Nat × Nat) :=
  let size := pdu.size - length.headerMin
  if fixedE length pdu.mem = 0 then
    some ([size], length.headerMin)
  else
    let read := readLengthIndicators pdu.mem length.headerMin size
    if read.accepted then
      some (read.liArray ++ [read.dataSize.toNat], length.headerMin +
        ((read.liArray.length * 3 + 1) >>> 1))
    else
      none

/-- What an emitted PDU should be. It fits in the grant, and the decoder finds the SN, the
pieces that the queue gave and nothing else, and whether the first starts and the last ends
an SDU. -/
structure Undone (length : SnLength) (tx after : Tx) (grant : Int) (pdu : Pdu) : Prop where
  grant : (pdu.size : Int) ≤ grant
  sn : fixedSn length pdu.mem = tx.vtUs % length.modulo
  fi : fixedFi length pdu.mem = (if (backlog tx.inputSdus).sent = [] then 0 else 2) +
    (if (backlog after.inputSdus).sent = [] then 0 else 1)
  pieces : ∃ pieces data, Cuts (backlog tx.inputSdus) pieces (backlog after.inputSdus) ∧
    decodePieces length pdu = some (pieces.map List.length, data) ∧
    bytesAt pdu.mem data pieces.flatten.length = pieces.flatten ∧
    tx.bufferOccupancy - after.bufferOccupancy = pieces.flatten.length

/-- A consistent sender: its buffer occupancy is that of the queue. -/
structure TxOk (tx : Tx) : Prop where
  queue : QueueOk tx.inputSdus
  occupancy : tx.bufferOccupancy = ((tx.inputSdus.map TxSdu.sduRemainingSize).sum : Nat)

theorem dataReq_ok {tx : Tx} (ok : TxOk tx) (mem : Memory) {size : Nat} (some : 0 < size)
    (short : size ≤ 2047) :
    TxOk (dataReq tx mem size) := by
  refine ⟨⟨fun sdu member => ?_, fun sdu member => ?_⟩, ?_⟩
  · obtain before | new := List.mem_append.mp member
    · exact ok.queue.waiting sdu before
    · rw [List.mem_singleton.mp new]
      exact ⟨Nat.zero_add size, some, short⟩
  · have fresh := ok.queue.fresh
    unfold dataReq at member
    generalize tx.inputSdus = queue at member fresh
    cases queue with
    | nil => cases member
    | cons first rest =>
      obtain before | new := List.mem_append.mp (show sdu ∈ rest ++ [_] from member)
      · exact fresh sdu before
      · rw [List.mem_singleton.mp new]
  · simp only [dataReq, List.map_append, List.sum_append, List.map_singleton,
      List.sum_singleton, ok.occupancy]
    push_cast
    rfl

/-- The grant can be cut from the queue with no stray byte and with 128 indicators at most:
every SDU reaches the end of the PDU, or leaves room for another piece behind its indicator,
or is the last piece; with a 10-bit SN the bytes behind a last piece hold its indicator. -/
def Clean (length : SnLength) : Nat → Nat → List Nat → Prop
  | _, _, [] => False
  | room, k, size :: rest =>
    room ≤ size ∨
    size < room ∧ room ≤ size + liBytes k ∧ (length = .ten → room = size + liBytes k) ∨
    size + liBytes k < room ∧ k < maxLiPerPdu ∧
      Clean length (room - (size + liBytes k)) (k + 1) rest

instance Clean.decidable (length : SnLength) : (room k : Nat) → (sizes : List Nat) →
    Decidable (Clean length room k sizes)
  | _, _, [] => inferInstanceAs (Decidable False)
  | room, k, size :: rest =>
    have := Clean.decidable length (room - (size + liBytes k)) (k + 1) rest
    inferInstanceAs (Decidable (_ ∨ _))

/-- The bytes that are sent behind the last piece. -/
def SnLength.stray (length : SnLength) (bytes li : Nat) : Nat :=
  match length with
  | .ten => if bytes < li then bytes else 0
  | .five => 0

section Clean

variable {length : SnLength} {room k : Nat} {sizes : List Nat}

theorem clean_iff (needed : Needed room k sizes) (below : k ≤ maxLiPerPdu) :
    Clean length room k sizes ↔ length.stray (leftOver room k sizes) (nextLi room k sizes) = 0 ∧
      k + ((cut room k sizes).length - 1) ≤ maxLiPerPdu := by
  induction sizes generalizing room k with
  | nil => exact absurd rfl needed.1
  | cons size rest ih =>
    obtain last | more | ⟨ends, short⟩ := room_cases room k size
    · have none : length.stray 0 (nextLi room k (size :: rest)) = 0 := by
        cases length with
        | five => rfl
        | ten => exact ite_self 0
      rw [(cut_last last).2, none, (cut_last last).1]
      exact iff_of_true (.inl last) ⟨rfl, below⟩
    · have tail := needed.tail more
      have positive :=
        List.length_pos_iff.mpr (@cut_ne_nil (room - (size + liBytes k)) (k + 1) _ tail.1)
      rw [Clean, (cut_more more).2, nextLi_more more tail.1, (cut_more more).1, List.length_cons]
      by_cases few : k < maxLiPerPdu
      · have place : k + ((cut (room - (size + liBytes k)) (k + 1) rest).length + 1 - 1) =
            k + 1 + ((cut (room - (size + liBytes k)) (k + 1) rest).length - 1) := by omega
        rw [place, ← ih tail few]
        constructor
        · rintro (last | ⟨-, short, -⟩ | ⟨-, -, clean⟩)
          · omega
          · omega
          · exact clean
        · exact fun clean => .inr (.inr ⟨more, few, clean⟩)
      · refine iff_of_false ?_ fun both => ?_
        · rintro (last | ⟨-, short, -⟩ | ⟨-, few', -⟩)
          · omega
          · omega
          · exact few few'
        · omega
    · rw [Clean, (cut_short ends short).2, nextLi, (cut_short ends short).1, List.length_singleton,
        Nat.sub_self, Nat.add_zero k]
      have stray : length.stray (room - size) (liBytes k) = 0 ↔
          (length = .ten → room = size + liBytes k) := by
        cases length with
        | five => exact iff_of_true rfl fun ten => by cases ten
        | ten =>
          simp only [SnLength.stray, true_implies]
          split <;> omega
      rw [stray]
      constructor
      · rintro (last | ⟨-, -, whole⟩ | ⟨more, -⟩)
        · omega
        · exact ⟨whole, below⟩
        · omega
      · exact fun both => .inr (.inl ⟨ends, short, both.1⟩)

end Clean

section Header

theorem tenBits : ∀ fi < 4, ∀ sn < 4, ∀ e : Bool,
    let b := (if e then fi <<< 3 ||| 0x04 else fi <<< 3) ||| sn
    b < 256 ∧ (b &&& 0x04) >>> 2 = e.toNat ∧ (b &&& 0x18) >>> 3 = fi ∧ b &&& 0x03 = sn := by
  decide

theorem fiveBits : ∀ fi < 4, ∀ sn < 32, ∀ e : Bool,
    let b := (if e then fi <<< 6 ||| 0x20 else fi <<< 6) ||| sn
    b < 256 ∧ (b &&& 0x20) >>> 5 = e.toNat ∧ (b &&& 0xC0) >>> 6 = fi ∧ b &&& 0x1F = sn := by
  decide

theorem fixedHeader_read (length : SnLength) (mem : Memory) {fi : Nat} (valid : fi < 4)
    (fill vtUs : Nat) :
    fixedSn length (writeFixedHeader length mem fi fill vtUs) = vtUs % length.modulo ∧
    fixedFi length (writeFixedHeader length mem fi fill vtUs) = fi ∧
    fixedE length (writeFixedHeader length mem fi fill vtUs) = (decide (fill > 0)).toNat ∧
    ∀ a, length.headerMin ≤ a → writeFixedHeader length mem fi fill vtUs a = mem a := by
  have mask (x n : Nat) : x &&& (2 ^ n - 1) = x % 2 ^ n := Nat.and_two_pow_sub_one_eq_mod x n
  cases length with
  | ten =>
    have high : (vtUs >>> 8) &&& 0x03 = vtUs / 256 % 4 := by
      rw [Nat.shiftRight_eq_div_pow]
      exact mask _ 2
    have low : vtUs &&& 0xFF = vtUs % 256 := mask vtUs 8
    obtain ⟨small, e, first, sn⟩ := tenBits fi valid (vtUs / 256 % 4) (Nat.mod_lt _ (by decide))
      (decide (fill > 0))
    simp only [decide_eq_true_eq] at small e first sn
    have zero : (writeFixedHeader .ten mem fi fill vtUs 0).toNat =
        (if fill > 0 then fi <<< 3 ||| 0x04 else fi <<< 3) ||| (vtUs / 256 % 4) := by
      simp only [writeFixedHeader, high]
      rw [setByte_other _ (by decide), setByte_same, UInt8.toNat_ofNat', Nat.mod_eq_of_lt small]
    have one : (writeFixedHeader .ten mem fi fill vtUs 1).toNat = vtUs % 256 := by
      simp only [writeFixedHeader, low]
      rw [setByte_same, UInt8.toNat_ofNat']
      omega
    refine ⟨?_, ?_, ?_, fun a behind => ?_⟩
    · simp only [fixedSn, zero, one, sn, SnLength.modulo]
      rw [Nat.shiftLeft_eq]
      omega
    · simp only [fixedFi, zero, first]
    · simp only [fixedE, zero, e]
    · have far : 2 ≤ a := behind
      exact (setByte_other _ (by omega)).trans (setByte_other _ (by omega))
  | five =>
    have low : vtUs &&& 0x1F = vtUs % 32 := mask vtUs 5
    obtain ⟨small, e, first, sn⟩ :=
      fiveBits fi valid (vtUs % 32) (Nat.mod_lt _ (by decide)) (decide (fill > 0))
    simp only [decide_eq_true_eq] at small e first sn
    have zero : (writeFixedHeader .five mem fi fill vtUs 0).toNat =
        (if fill > 0 then fi <<< 6 ||| 0x20 else fi <<< 6) ||| (vtUs % 32) := by
      simp only [writeFixedHeader, low]
      rw [setByte_same, UInt8.toNat_ofNat', Nat.mod_eq_of_lt small]
    refine ⟨?_, ?_, ?_, fun a behind => ?_⟩
    · simp only [fixedSn, zero, sn, SnLength.modulo]
    · simp only [fixedFi, zero, first]
    · simp only [fixedE, zero, e]
    · have far : 1 ≤ a := behind
      exact setByte_other _ (by omega)

end Header

def pduRoom (length : SnLength) (tx : Tx) (grant : Int) : Nat :=
  (dataPduSize length tx grant).toNat - length.headerMin

section Room

variable {length : SnLength} {tx : Tx} {grant : Int}

/-- The room is what the grant allows and no more than the queue needs. -/
theorem pduRoom_spec (ok : TxOk tx) (some : tx.inputSdus ≠ [])
    (enough : length.headerMin + 1 ≤ grant) :
    0 < pduRoom length tx grant ∧
    Needed (pduRoom length tx grant) 0 (tx.inputSdus.map TxSdu.sduRemainingSize) ∧
    (dataPduSize length tx grant).toNat = pduRoom length tx grant + length.headerMin ∧
    ((pduRoom length tx grant + length.headerMin : Nat) : Int) ≤ grant := by
  have positive := List.length_pos_iff.mpr some
  have bytes : 0 < (tx.inputSdus.map TxSdu.sduRemainingSize).sum := by
    obtain ⟨sdu, rest, list⟩ := List.exists_cons_of_ne_nil some
    have waiting := ok.queue.waiting sdu (by rw [list]; exact List.mem_cons_self)
    rw [list, List.map_cons, List.sum_cons]
    have := waiting.remaining
    omega
  have overhead : (if tx.inputSdus.length ≤ 1 then 0 else
      (tx.inputSdus.length - 1) * 3 / 2 + (tx.inputSdus.length - 1) % 2) =
          headerLiLength (tx.inputSdus.length - 1) := by
    rw [headerLiLength]
    split <;> omega
  have size : dataPduSize length tx grant = min grant
      ((tx.inputSdus.map TxSdu.sduRemainingSize).sum + length.headerMin + headerLiLength
          (tx.inputSdus.length - 1) : Nat) := by
    simp only [dataPduSize, overhead, ok.occupancy]
    split <;> omega
  have room : pduRoom length tx grant = (dataPduSize length tx grant).toNat - length.headerMin :=
    rfl
  refine ⟨by omega, ⟨?_, ?_⟩, by omega, by omega⟩
  · intro none
    exact some (List.map_eq_nil_iff.mp none)
  · rw [List.length_map, Nat.zero_add]
    have zero : headerLiLength 0 = 0 := rfl
    omega

end Room

def reserve (length : SnLength) (tx : Tx) (grant : Int) : FirstPass :=
  firstPass length tx.inputSdus
    { dataPduSize := (dataPduSize length tx
      grant).toNat, pduRemainingSize := pduRoom length tx grant
      testPduRemainingSize := pduRoom length tx grant }

def fillStart (length : SnLength) (tx : Tx) (grant : Int) (block : Memory) : SecondPass where
  mem := Am.copyBytes block 0 (fun _ => 0) 0 4
  data := length.headerMin + (((reserve length tx grant).result.1 * 3 + 1) >>> 1)
  eLi := length.headerMin
  pduRemainingSize := (reserve length tx grant).result.2
  bufferOccupancy := tx.bufferOccupancy

def fillReserved (length : SnLength) (tx : Tx) (grant : Int) (block : Memory) :
    SecondPass × List TxSdu :=
  secondPass (reserve length tx grant).result.1 tx.inputSdus (fillStart length tx grant block)

/-- An emitted PDU: the bytes of its pieces, with `stray` bytes behind them. -/
structure Emitted (length : SnLength) (tx after : Tx) (pdu : Pdu) (pieces : List (List UInt8))
    (stray : Nat) : Prop where
  cuts : Cuts (backlog tx.inputSdus) pieces (backlog after.inputSdus)
  occupancy : after.bufferOccupancy = tx.bufferOccupancy - pieces.flatten.length
  sn : fixedSn length pdu.mem = tx.vtUs % length.modulo
  fi : fixedFi length pdu.mem = (if (backlog tx.inputSdus).sent = [] then 0 else 2) +
    (if (backlog after.inputSdus).sent = [] then 0 else 1)
  e : fixedE length pdu.mem = if pieces.length = 1 then 0 else 1
  entries : Entries pdu.mem length.headerMin (pieces.length - 1) 0 (pieces.dropLast.map List.length)
  size : pdu.size = length.headerMin + headerLiLength (pieces.length - 1) +
    pieces.flatten.length + stray
  payload : bytesAt pdu.mem (length.headerMin + headerLiLength (pieces.length - 1))
    pieces.flatten.length = pieces.flatten

section Emission

variable {length : SnLength} {tx : Tx} {grant : Int}

theorem reserve_spec (ok : TxOk tx) (some : tx.inputSdus ≠ [])
    (enough : length.headerMin + 1 ≤ grant) :
    let room := pduRoom length tx grant
    let sizes := tx.inputSdus.map TxSdu.sduRemainingSize
    (reserve length tx grant).result =
      ((cut room 0 sizes).length - 1, room - length.reduce (leftOver room 0 sizes)
        (nextLi room 0 sizes)) ∧
    (reserve length tx grant).dataPduSize = room + length.headerMin - length.shrink
        (leftOver room 0 sizes) := by
  intro room sizes
  obtain ⟨-, needed, size, -⟩ := pduRoom_spec ok some enough
  obtain ⟨result, shrunk⟩ := @firstPass_result length tx.inputSdus
    { dataPduSize := (dataPduSize length tx
      grant).toNat, pduRemainingSize := pduRoom length tx grant
      testPduRemainingSize := pduRoom length tx grant } _ 0 _ rfl needed rfl rfl rfl
  rw [Nat.zero_add] at result
  exact ⟨result, shrunk.trans (by rw [size])⟩

theorem reduce_le (bytes li : Nat) : length.reduce bytes li ≤ bytes := by
  cases length with
  | five => exact Nat.le_refl _
  | ten =>
    unfold SnLength.reduce
    simp only
    split <;> omega

theorem stray_eq (bytes li : Nat) :
    length.stray bytes li + length.shrink bytes + (bytes - length.reduce bytes li) = bytes := by
  cases length with
  | five => simp only [SnLength.stray, SnLength.shrink, SnLength.reduce]; omega
  | ten =>
    simp only [SnLength.stray, SnLength.shrink, SnLength.reduce]
    split <;> omega

theorem fillReserved_filled (ok : TxOk tx) (some : tx.inputSdus ≠ [])
    (enough : length.headerMin + 1 ≤ grant)
    (block : Memory) :
    ∃ pieces, Filled (fillStart length tx grant block) (fillReserved length tx grant block).1
        length.headerMin
        (pieces.length - 1) 0 tx.inputSdus (fillReserved length tx grant block).2 pieces ∧
      pieces.map List.length =
      cut (pduRoom length tx grant) 0 (tx.inputSdus.map TxSdu.sduRemainingSize) ∧
      (fillStart length tx grant block).data =
      length.headerMin + headerLiLength (pieces.length - 1) ∧
      (reserve length tx grant).dataPduSize - (fillReserved length tx grant
        block).1.pduRemainingSize =
        length.headerMin + headerLiLength (pieces.length - 1) + pieces.flatten.length +
          length.stray
            (leftOver (pduRoom length tx grant) 0 (tx.inputSdus.map TxSdu.sduRemainingSize))
            (nextLi (pduRoom length tx grant) 0 (tx.inputSdus.map TxSdu.sduRemainingSize)) := by
  obtain ⟨positive, needed, -, -⟩ := pduRoom_spec ok some enough
  obtain ⟨result, shrunk⟩ := reserve_spec ok some enough
  generalize pduRoom length tx grant = room at positive needed result shrunk ⊢
  have sizesPos : ∀ size ∈ tx.inputSdus.map TxSdu.sduRemainingSize, 0 < size := by
    intro size member
    obtain ⟨sdu, inside, rfl⟩ := List.mem_map.mp member
    exact (ok.queue.waiting sdu inside).remaining
  have trimmed := @reduce_le length (leftOver room 0 (tx.inputSdus.map TxSdu.sduRemainingSize))
    (nextLi room 0 (tx.inputSdus.map TxSdu.sduRemainingSize))
  have left := leftOver_lt needed positive sizesPos
  obtain ⟨sameCut, sameOver⟩ := cut_less needed sizesPos positive trimmed
  have roomLeft : (fillStart length tx grant block).pduRemainingSize =
      room - length.reduce (leftOver room 0 (tx.inputSdus.map TxSdu.sduRemainingSize))
        (nextLi room 0 (tx.inputSdus.map TxSdu.sduRemainingSize)) := congrArg Prod.snd result
  have numLi : (reserve length tx grant).result.1 =
      (cut room 0 (tx.inputSdus.map TxSdu.sduRemainingSize)).length - 1 :=
    congrArg Prod.fst result
  have several := List.length_pos_iff.mpr (@cut_ne_nil room 0 _ needed.1)
  have data : (fillStart length tx grant block).data =
      length.headerMin + headerLiLength
          ((cut room 0 (tx.inputSdus.map TxSdu.sduRemainingSize)).length - 1) := by
    rw [← numLi, ← headerLiLength_shift]
    rfl
  obtain ⟨pieces, filled⟩ :=
    @secondPass_filled length.headerMin (reserve length tx grant).result.1 0
    (fillStart length tx grant block) tx.inputSdus ok.queue (by omega)
      (by rw [roomLeft]; exact needed.mono (Nat.sub_le _ _))
    rfl rfl rfl (fun odd => absurd odd (by decide)) (by rw [roomLeft, sameCut, numLi]; omega)
      (by rw [data, numLi])
  have sizes := filled.sizes
  rw [roomLeft, sameCut] at sizes
  have count : pieces.length = (cut room 0 (tx.inputSdus.map TxSdu.sduRemainingSize)).length := by
    rw [← sizes, List.length_map]
  have unused := filled.unused
  rw [roomLeft, sameOver] at unused
  rw [numLi, ← count] at filled
  refine ⟨pieces, ?_, sizes, by rw [data, count], ?_⟩
  · rw [fillReserved, numLi, ← count]
    exact filled
  · have account := cut_account needed
    have total : pieces.flatten.length =
        (cut room 0 (tx.inputSdus.map TxSdu.sduRemainingSize)).sum := by
      rw [List.length_flatten, sizes]
    have split := @stray_eq length (leftOver room 0 (tx.inputSdus.map TxSdu.sduRemainingSize))
      (nextLi room 0 (tx.inputSdus.map TxSdu.sduRemainingSize))
    have zero : headerLiLength 0 = 0 := rfl
    rw [Nat.zero_add, zero, Nat.add_zero, ← total, ← count] at account
    rw [shrunk, fillReserved, unused]
    omega

theorem segment_some {least : Int} {block : Memory} {sdu : TxSdu} {rest : List TxSdu}
    (list : tx.inputSdus = sdu :: rest)
    (enough : ¬ grant < least) :
    segment length least tx grant (some block) =
      ({ inputSdus := (fillReserved length tx grant block).2
         bufferOccupancy := (fillReserved length tx grant block).1.bufferOccupancy, vtUs :=
           (tx.vtUs + 1) % 2 ^ 16 },
        some ⟨writeFixedHeader length (fillReserved length tx grant block).1.mem
          ((if sdu.sduRemainingSize = sdu.sduSize then 0 else 2) +
            (if (fillReserved length tx grant block).1.fiLast then 0 else 1))
          (fillReserved length tx grant block).1.fillNumLi tx.vtUs,
          (reserve length tx grant).dataPduSize - (fillReserved length tx grant
              block).1.pduRemainingSize⟩) := by
  obtain ⟨queue, occupancy, vtUs⟩ := tx
  simp only at list
  subst list
  unfold segment
  rw [if_neg enough]
  rfl

theorem segment_emits (ok : TxOk tx) (some : tx.inputSdus ≠ [])
    (enough : length.headerMin + 1 ≤ grant) (block : Memory) :
    ∃ after pdu pieces, segment length (length.headerMin + 1) tx grant (.some block) =
      (after, .some pdu) ∧ TxOk after ∧
      pieces.map List.length =
      cut (pduRoom length tx grant) 0 (tx.inputSdus.map TxSdu.sduRemainingSize) ∧
      Emitted length tx after pdu pieces
        (length.stray
          (leftOver (pduRoom length tx grant) 0 (tx.inputSdus.map TxSdu.sduRemainingSize))
          (nextLi (pduRoom length tx grant) 0 (tx.inputSdus.map TxSdu.sduRemainingSize))) ∧
      (pdu.size : Int) ≤ grant := by
  obtain ⟨pieces, filled, sizes, data, size⟩ := fillReserved_filled ok some enough block
  obtain ⟨-, -, -, within⟩ := pduRoom_spec ok some enough
  obtain ⟨-, shrunk⟩ := reserve_spec ok some enough
  obtain ⟨sdu, rest, list⟩ := List.exists_cons_of_ne_nil some
  have waiting := ok.queue.waiting sdu (by rw [list]; exact List.mem_cons_self)
  have total := waiting.total
  -- the first piece starts an SDU when nothing of it has been sent
  have starts : sdu.sduRemainingSize = sdu.sduSize ↔ (backlog tx.inputSdus).sent = [] := by
    have head : (backlog tx.inputSdus).sent = sdu.sent := by rw [list]; rfl
    rw [head]
    constructor
    · intro whole
      have none : sdu.sduSegmentedSize = 0 := by omega
      rw [TxSdu.sent, none]
      rfl
    · intro none
      have length := congrArg List.length none
      rw [TxSdu.sent, Am.bytesAt_length, List.length_nil] at length
      omega
  obtain ⟨fi, fiEq⟩ : ∃ fi, (if sdu.sduRemainingSize = sdu.sduSize then 0 else 2) +
      (if (fillReserved length tx grant block).1.fiLast then 0 else 1) = fi := ⟨_, rfl⟩
  have valid : fi < 4 := by
    rw [← fiEq]
    split <;> split <;> decide
  obtain ⟨sn, fiRead, e, behind⟩ :=
    fixedHeader_read length (fillReserved length tx grant block).1.mem valid
    (fillReserved length tx grant block).1.fillNumLi tx.vtUs
  have emits : segment length (length.headerMin + 1) tx grant (.some block) =
      ({ inputSdus := (fillReserved length tx grant block).2
         bufferOccupancy := (fillReserved length tx grant block).1.bufferOccupancy, vtUs :=
           (tx.vtUs + 1) % 2 ^ 16 },
        .some ⟨writeFixedHeader length (fillReserved length tx grant block).1.mem fi
          (fillReserved length tx grant block).1.fillNumLi tx.vtUs,
          (reserve length tx grant).dataPduSize - (fillReserved length tx grant
              block).1.pduRemainingSize⟩) := by
    rw [← fiEq]
    exact segment_some list (Int.not_lt.mpr enough)
  have occupancy : (fillReserved length tx grant block).1.bufferOccupancy =
      (((fillReserved length tx grant block).2.map TxSdu.sduRemainingSize).sum : Nat) := by
    have account := filled.remaining
    have before : (fillStart length tx grant block).bufferOccupancy = _ := ok.occupancy
    rw [filled.occupancy, before]
    omega
  refine ⟨_, _, pieces, emits, ⟨filled.ok, occupancy⟩, sizes,
    ⟨filled.cuts, filled.occupancy, sn, ?_, ?_, ?_, size, ?_⟩, ?_⟩
  · rw [fiRead, ← fiEq, filled.fiLast, if_congr starts rfl rfl]
    simp only [decide_eq_true_eq]
  · have positive := List.length_pos_iff.mpr filled.cuts.ne_nil
    rw [e, filled.fillNumLi, Nat.zero_add]
    by_cases single : pieces.length = 1
    · rw [single]
      rfl
    · rw [if_neg single, decide_eq_true (by omega)]
      rfl
  · refine filled.entries.congr fun j _ _ => ?_
    apply Am.entry_congr
    exact fun a lower _ => behind a lower
  · have payload := filled.payload
    rw [data] at payload
    refine Eq.trans ?_ payload
    apply Am.bytesAt_congr
    exact fun i _ => behind _ (by omega)
  · have short : (reserve length tx grant).dataPduSize ≤ pduRoom length tx grant +
        length.headerMin :=
      shrunk.trans_le (Nat.sub_le _ _)
    simp only
    omega

end Emission

section Undone

variable {length : SnLength} {tx after : Tx} {grant : Int} {pdu : Pdu}
    {pieces : List (List UInt8)} {stray : Nat}

/-- What the decoder finds: the stray bytes count to the last piece. -/
theorem Emitted.decode (emitted : Emitted length tx after pdu pieces stray)
    (few : pieces.length - 1 ≤ maxLiPerPdu) :
    decodePieces length pdu =
      some (pieces.dropLast.map List.length ++
        [(pieces.getLast emitted.cuts.ne_nil).length + stray],
        length.headerMin + headerLiLength (pieces.length - 1)) := by
  have positive := List.length_pos_iff.mpr emitted.cuts.ne_nil
  have total : pieces.flatten.length =
      (pieces.dropLast.map List.length).sum + (pieces.getLast emitted.cuts.ne_nil).length := by
    rw [List.length_flatten, sizes_split emitted.cuts.ne_nil, List.sum_append, List.sum_singleton]
  have size := emitted.size
  by_cases single : pieces.length = 1
  · obtain ⟨piece, rfl⟩ := List.length_eq_one_iff.mp single
    have e : fixedE length pdu.mem = 0 := emitted.e
    have zero : headerLiLength 0 = 0 := rfl
    simp only [List.length_singleton, Nat.sub_self, zero, Nat.add_zero, List.flatten_singleton]
      at size
    simp only [decodePieces, e, if_true, List.dropLast_singleton, List.map_nil, List.nil_append,
      List.getLast_singleton, List.length_singleton, Nat.sub_self, zero, Nat.add_zero]
    rw [size]
    congr 3
    omega
  · have e : fixedE length pdu.mem = 1 := emitted.e.trans (if_neg single)
    have count : (pieces.dropLast.map List.length).length = pieces.length - 1 := by
      rw [List.length_map, List.length_dropLast]
    have last :=
      List.length_pos_iff.mpr (emitted.cuts.piece_ne_nil _ (List.getLast_mem emitted.cuts.ne_nil))
    have read : readLengthIndicators pdu.mem length.headerMin
      ((pdu.size - length.headerMin : Nat) : Int) =
        ⟨true, pieces.dropLast.map List.length,
            ((pieces.getLast emitted.cuts.ne_nil).length + stray : Nat)⟩ := by
      refine read_entries (List.ne_nil_of_length_pos (by omega)) (count ▸ emitted.entries)
        (count ▸ few) (by omega) ?_
      rw [count, size]
      omega
    simp only [decodePieces, e, Nat.one_ne_zero, if_false, read, if_true, count,
      headerLiLength_shift, Int.toNat_natCast]

/-- An emitted PDU is undone when nothing is sent behind its pieces and its indicators fit in
the decoder's array, and only then. -/
theorem Emitted.undone_iff (emitted : Emitted length tx after pdu pieces stray)
    (within : (pdu.size : Int) ≤ grant) :
    Undone length tx after grant pdu ↔ stray = 0 ∧ pieces.length - 1 ≤ maxLiPerPdu := by
  constructor
  · intro undone
    obtain ⟨found, data, -, decoded, -, given⟩ := undone.pieces
    have few : pieces.length - 1 ≤ maxLiPerPdu := by
      by_contra many
      have count : (pieces.dropLast.map List.length).length = pieces.length - 1 := by
        rw [List.length_map, List.length_dropLast]
      have e : fixedE length pdu.mem = 1 := emitted.e.trans (if_neg (by omega))
      have refused : (readLengthIndicators pdu.mem length.headerMin
          ((pdu.size - length.headerMin : Nat) : Int)).accepted = false :=
        refused_entries (count ▸ emitted.entries) (by omega) _
      simp only [decodePieces, e, Nat.one_ne_zero, if_false, refused, Bool.false_eq_true] at decoded
      cases decoded
    refine ⟨?_, few⟩
    rw [emitted.decode few, Option.some.injEq, Prod.mk.injEq] at decoded
    have total := congrArg List.sum decoded.1
    have whole : pieces.flatten.length =
        (pieces.dropLast.map List.length).sum + (pieces.getLast emitted.cuts.ne_nil).length := by
      rw [List.length_flatten, sizes_split emitted.cuts.ne_nil, List.sum_append, List.sum_singleton]
    have sum : found.flatten.length = (found.map List.length).sum := List.length_flatten
    rw [List.sum_append, List.sum_singleton] at total
    rw [emitted.occupancy] at given
    omega
  · rintro ⟨rfl, few⟩
    refine ⟨within, emitted.sn, emitted.fi, pieces, _, emitted.cuts, ?_, emitted.payload, ?_⟩
    · rw [emitted.decode few, sizes_split emitted.cuts.ne_nil, Nat.add_zero]
    · rw [emitted.occupancy]
      omega

/-- A call is undone exactly when its grant is clean. -/
theorem segment_undone (ok : TxOk tx) (some : tx.inputSdus ≠ [])
    (enough : length.headerMin + 1 ≤ grant) (block : Memory) :
    ∃ after pdu, segment length (length.headerMin + 1) tx grant (.some block) =
      (after, .some pdu) ∧ TxOk after ∧
      (Undone length tx after grant pdu ↔
        Clean length (pduRoom length tx grant) 0 (tx.inputSdus.map TxSdu.sduRemainingSize)) := by
  obtain ⟨-, needed, -, -⟩ := pduRoom_spec ok some enough
  obtain ⟨after, pdu, pieces, emits, okAfter, sizes, emitted, within⟩ :=
    segment_emits ok some enough block
  refine ⟨after, pdu, emits, okAfter, ?_⟩
  rw [emitted.undone_iff within, clean_iff needed (Nat.zero_le _), Nat.zero_add, ← sizes,
    List.length_map]

end Undone

/-- On every consistent sender and every grant that is accepted, the receiver's decoder undoes
the PDU exactly when the grant is clean. -/
theorem umSegmentation_undone (tx : Tx) (ok : TxOk tx) (some : tx.inputSdus ≠ []) (grant : Int)
    (block : Memory) :
    (3 ≤ grant → ∃ after pdu, segment10 tx grant (.some block) = (after, .some pdu) ∧ TxOk after ∧
      (Undone .ten tx after grant pdu ↔
        Clean .ten (pduRoom .ten tx grant) 0 (tx.inputSdus.map TxSdu.sduRemainingSize))) ∧
    (2 ≤ grant → ∃ after pdu, segment5 tx grant (.some block) = (after, .some pdu) ∧ TxOk after ∧
      (Undone .five tx after grant pdu ↔
        Clean .five (pduRoom .five tx grant) 0 (tx.inputSdus.map TxSdu.sduRemainingSize))) :=
  ⟨fun enough => segment_undone ok some enough block,
    fun enough => segment_undone ok some enough block⟩

def waitingSdus : Tx where
  inputSdus := [⟨fun _ => 0xAA, 5, 5, 0⟩, ⟨fun _ => 0xBB, 7, 7, 0⟩]
  bufferOccupancy := 12

theorem waitingSdus_ok : TxOk waitingSdus := by
  refine ⟨⟨fun sdu member => ?_, fun sdu member => ?_⟩, rfl⟩
  · obtain rfl | later := List.mem_cons.mp member
    · exact ⟨rfl, by decide, by decide⟩
    · rw [List.mem_singleton.mp later]
      exact ⟨rfl, by decide, by decide⟩
  · rw [List.mem_singleton.mp member]

/-- A grant that leaves one byte behind the first SDU: the byte is sent too, and the decoder
takes it for a sixth byte of the SDU. -/
theorem umSegmentation_undone_fails :
    TxOk waitingSdus ∧ ∃ after pdu, segment10 waitingSdus 8 (some fun _ => 0xEE) =
    (after, some pdu) ∧
      ¬ Undone .ten waitingSdus after 8 pdu := by
  have read : (segment10 waitingSdus 8 (some fun _ => 0xEE)).2.map (decodePieces .ten) =
      some (some ([6], 2)) := by
    decide +kernel
  have left : (segment10 waitingSdus 8 (some fun _ => 0xEE)).1.bufferOccupancy =
    7 := by decide +kernel
  obtain ⟨pdu, emitted, read⟩ := Option.map_eq_some_iff.mp read
  refine ⟨waitingSdus_ok, _, pdu, Prod.ext rfl emitted, fun undone => ?_⟩
  obtain ⟨pieces, data, -, decoded, -, given⟩ := undone.pieces
  rw [read, Option.some.injEq, Prod.mk.injEq] at decoded
  rw [left, List.length_flatten, ← decoded.1] at given
  exact absurd given (by decide)

/-- A grant for all that is waiting. -/
theorem umSegmentation_undone_all :
    (∃ after pdu, segment10 waitingSdus 100 (some fun _ => 0xEE) = (after, some pdu) ∧
        Undone .ten waitingSdus after 100 pdu) ∧
    ∃ after pdu, segment5 waitingSdus 100 (some fun _ => 0xEE) = (after, some pdu) ∧
      Undone .five waitingSdus after 100 pdu := by
  obtain ⟨ten, five⟩ :=
    umSegmentation_undone waitingSdus waitingSdus_ok (List.cons_ne_nil _ _) 100 fun _ => 0xEE
  obtain ⟨after, pdu, emits, -, undone⟩ := ten (by decide)
  obtain ⟨after', pdu', emits', -, undone'⟩ := five (by decide)
  exact ⟨⟨after, pdu, emits, undone.mpr (by decide)⟩, after', pdu', emits', undone'.mpr (by decide)⟩

end OpenAir.Rlc.Um
