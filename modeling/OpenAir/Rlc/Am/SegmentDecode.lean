import OpenAir.Rlc.Am.SegmentQueue
import OpenAir.Rlc.Am.PieceDecode

/-! The receiver's decoder on what the segmentation emits: it undoes the segmentation
exactly when the PDU could be cut cleanly from the queue. -/
namespace OpenAir.Rlc.Am
open BitField

/-- What an emitted PDU should be. The decoder finds the SN, the pieces that the SDUs gave
and nothing else, whether the first starts and the last ends an SDU, and the size is
that of the header and the pieces. No list of PDUs grows beyond its array, since a
store outside of it has no defined effect. -/
structure Undone (before after : Tx) (mem : Memory) (tbSize : Int) : Prop where
  accepted : (getDataPduInfos mem (Int16.ofInt tbSize)).ret = 0
  whole : (getDataPduInfos mem (Int16.ofInt tbSize)).info.rf = false
  sn : (getDataPduInfos mem (Int16.ofInt tbSize)).info.sn = before.vtS
  pieces : (getDataPduInfos mem (Int16.ofInt tbSize)).info.liList.map Int.ofNat ++
    [(getDataPduInfos mem (Int16.ofInt tbSize)).info.hiddenSize] =
      (given before after).map Int.ofNat
  payloadSize : (getDataPduInfos mem (Int16.ofInt tbSize)).info.payloadSize =
    (given before after).sum
  payload : bytesAt mem (getDataPduInfos mem (Int16.ofInt tbSize)).info.payload
    (given before after).sum =
    (List.zipWith TxSdu.bytes before.queue (given before after)).flatten
  fi : (getDataPduInfos mem (Int16.ofInt tbSize)).info.fi =
    (if (before.queue.headD {}).sduSegmentedSize = 0 then 0 else 2) +
    if (given before after).getLastD 0 =
      (before.queue.getD ((given before after).length - 1) {}).sduRemainingSize then 0 else 1
  size : tbSize = 2 + headerLiLength (getDataPduInfos mem (Int16.ofInt tbSize)).info.numLi +
    (given before after).sum
  grant : tbSize ≤ before.nbBytesRequestedByMac
  stores : ∀ i, (after.inputSdus i).pdusIndex.length ≤
    max maxSduFragments (before.inputSdus i).pdusIndex.length

section Given

variable {tx after : Tx}

theorem given_eq (step : QueueStep tx after) : given tx after = (taking tx).filter (0 < ·) := by
  rw [given, step.gave, List.filter_append]
  simp

theorem given_sum (step : QueueStep tx after) : (given tx after).sum = (taking tx).sum := by
  rw [given_eq step]
  induction taking tx with
  | nil => rfl
  | cons piece rest ih =>
    rw [List.filter_cons]
    split
    · rw [List.sum_cons, List.sum_cons, ih]
    · rename_i empty
      simp only [decide_eq_true_eq] at empty
      rw [List.sum_cons, ih]
      omega

theorem given_length_le (step : QueueStep tx after) :
    (given tx after).length ≤ (taking tx).length := by
  rw [given_eq step]
  exact List.length_filter_le _ _

end Given

section Header

/-- The fields of the first byte, with and without the poll bit. -/
theorem firstByte_bits : ∀ sn < 4, ∀ fi < 4, ∀ e poll : Bool,
    let b := ((fi <<< 3 ||| if e then 1 <<< 2 else 0) ||| (1 <<< 7)) ||| sn
    let b1 := if poll then b ||| (1 <<< 5) else b &&& (0xFF ^^^ (1 <<< 5))
    b1 < 256 ∧ b1.testBit 7 = true ∧ b1.testBit 6 = false ∧ b1 / 8 % 4 = fi ∧ b1.testBit 2 = e ∧
        b1 % 4 = sn := by
  decide

theorem firstByte_fields {fiFirst fiLast : Bool} {fill vtS b1 : Nat} (valid : vtS < snModulo)
    (polled : b1 = firstByte fiFirst fiLast fill vtS ||| (1 <<< 5) ∨
      b1 = firstByte fiFirst fiLast fill vtS &&& (0xFF ^^^ (1 <<< 5))) :
    b1 < 256 ∧ b1.testBit 7 = true ∧ b1.testBit 6 = false ∧
    b1 / 8 % 4 = (if fiFirst then 0 else 2) + (if fiLast then 0 else 1) ∧
    b1.testBit 2 = decide (0 < fill) ∧ b1 % 4 = vtS / 256 := by
  have small : vtS / 256 < 4 := by
    simp only [snModulo] at valid
    omega
  have framing : (if fiFirst then 0 else 2) + (if fiLast then 0 else 1) < 4 := by
    cases fiFirst <;> cases fiLast <;> decide
  have byte : firstByte fiFirst fiLast fill vtS =
      (((if fiFirst then 0 else 2) + (if fiLast then 0 else 1)) <<< 3 |||
        (if decide (0 < fill) then 1 <<< 2 else 0) ||| (1 <<< 7)) ||| vtS / 256 := by
    rw [firstByte, Nat.shiftRight_eq_div_pow]
    by_cases more : 0 < fill
    · simp [more]
    · simp [more]
  rw [byte] at polled
  rcases polled with rfl | rfl
  · exact firstByte_bits _ small _ framing (decide (0 < fill)) true
  · exact firstByte_bits _ small _ framing (decide (0 < fill)) false

theorem payloadSize_lt {mem : Memory} {totalSize : Int16}
    (accepted : (getDataPduInfos mem totalSize).ret = 0) :
    (getDataPduInfos mem totalSize).info.payloadSize < 32768 := by
  cases data : bitAt mem 0 with
  | false =>
    rw [getDataPduInfos_control totalSize data] at accepted
    contradiction
  | true =>
    rcases liCount_or_endless mem with ⟨count, few, lis⟩ | ⟨e, endless⟩
    · rw [getDataPduInfos_chain totalSize data lis few]
      exact Int.bmod_lt (by decide)
    · rw [(getDataPduInfos_endless totalSize data e endless).1] at accepted
      contradiction

end Header

/-- A call of the segmentation with both blocks allocated. -/
structure Emission (tx after : Tx) (block mem : Memory) (tbSize : Int) (b1 : Nat) : Prop where
  some : tx.queue ≠ []
  same : SameQueue (fillReserved tx block).tx after
  vtS : after.vtS = nextSn tx.vtS
  polled : b1 = firstByte ((tx.queue.headD {}).sduSegmentedSize = 0) (fillReserved tx block).fiLast
      (fillReserved tx block).fillNumLi tx.vtS ||| (1 <<< 5) ∨
    b1 = firstByte ((tx.queue.headD {}).sduSegmentedSize = 0) (fillReserved tx block).fiLast
      (fillReserved tx block).fillNumLi tx.vtS &&& (0xFF ^^^ (1 <<< 5))
  bytes : mem = setByte (setByte (fillReserved tx block).mem 1 (tx.vtS &&& 0xFF)) 0 b1
  tbSize : tbSize = dataPduSize tx - (fillReserved tx block).pduRemainingSize

theorem emission_of_segment10 {tx after : Tx} {block mem : Memory} {now : Nat} {tbSize : Int}
    (ok : QueueOk tx)
    (grant : 2 < tx.nbBytesRequestedByMac)
    (emits : segment10 tx (Option.some block) true now = (after, Option.some (mem, tbSize))) :
    ∃ b1, Emission tx after block mem tbSize b1 := by
  by_cases empty : tx.queue = []
  · have idle : tx.sduBufferOccupancy ≤ 0 := by
      rw [ok.occupancy, empty]
      exact Int.le_refl _
    unfold segment10 at emits
    rw [if_pos idle] at emits
    cases emits
  · obtain ⟨sdu, rest, list⟩ := List.exists_cons_of_ne_nil empty
    have holding := ok.holding
    rw [list] at holding
    have waiting := holding.waiting sdu List.mem_cons_self
    have head : ((tx.inputSdus tx.currentSduIndex).sduRemainingSize =
      (tx.inputSdus tx.currentSduIndex).sduSize) =
        ((tx.queue.headD {}).sduSegmentedSize = 0) := by
      rw [holding.head, list, eq_iff_iff]
      have total := waiting.total
      simp only [List.headD_cons]
      omega
    obtain ⟨out, b1, same, vtS, polled, result⟩ :=
      @segment10_emits tx block true now (ok.occupied empty)
      (by rw [holding.head]; exact waiting.block) (by omega)
    simp only [head, fillPdu_eq] at same polled result
    rw [result] at emits
    simp only [if_true, Prod.mk.injEq, Option.some.injEq] at emits
    obtain ⟨rfl, rfl, rfl⟩ := emits
    exact ⟨b1, empty, same, vtS, polled, rfl, rfl⟩

section Decode

variable {tx after : Tx} {block mem : Memory} {tbSize : Int} {b1 : Nat}

theorem Emission.header (ok : QueueOk tx) (emission : Emission tx after block mem tbSize b1) :
    bitAt mem 0 = true ∧ bitAt mem 1 = false ∧
    bitAt mem 5 = decide (0 < (fillReserved tx block).fillNumLi) ∧
    valueAt mem 3 2 = (if (tx.queue.headD {}).sduSegmentedSize = 0 then 0 else 2) +
      (if (fillReserved tx block).fiLast then 0 else 1) ∧
    valueAt mem 6 10 = tx.vtS := by
  obtain ⟨small, data, whole, fi, e, high⟩ := firstByte_fields ok.vtS emission.polled
  have first : (mem 0).toNat = b1 := by
    rw [emission.bytes, setByte_same, UInt8.toNat_ofNat', Nat.mod_eq_of_lt small]
  have second : (mem 1).toNat = tx.vtS % 256 := by
    rw [emission.bytes, setByte_other _ (by decide), setByte_same, UInt8.toNat_ofNat',
      show (0xFF : Nat) = 2 ^ 8 - 1 by rfl, Nat.and_two_pow_sub_one_eq_mod]
    omega
  have bit (k : Nat) (inside : k < 8) : bitAt mem k = b1.testBit (7 - k) := by
    have at' := @bitAt_byte mem 0 k inside
    rwa [Nat.mul_zero, Nat.zero_add, first] at at'
  refine ⟨(bit 0 (by decide)).trans data, (bit 1 (by decide)).trans whole,
    (bit 5 (by decide)).trans e, ?_, ?_⟩
  · have field := shift_and_mask mem 0 3 2 (by decide)
    rw [Nat.and_two_pow_sub_one_eq_mod, Nat.shiftRight_eq_div_pow, first] at field
    simp only [decide_eq_true_eq] at fi
    exact field.symm.trans fi
  · have field := shift_and_mask mem 0 0 2 (by decide)
    rw [Nat.and_two_pow_sub_one_eq_mod, Nat.shiftRight_zero, first] at field
    have low := valueAt_byte mem 1
    have split := valueAt_add mem 6 2 8
    rw [← field, show 6 + 2 = 8 * 1 by rfl, low, second] at split
    rw [split]
    have : b1 % 2 ^ 2 = tx.vtS / 256 := high
    omega

/-- The first pass of a clean cut: it reserves the right number of indicators and all of
the room is filled. -/
theorem reserve_clean (ok : QueueOk tx) (clean : Clean (pduRoom tx) 0 tx.queue) :
    (reserve tx).result = ((taking tx).length - 1, pduRoom tx) ∧
    taking tx = cut (pduRoom tx) 0 (tx.queue.map TxSdu.sduRemainingSize) ∧
    ∀ i, ((reserve tx).tx.inputSdus i).pdusIndex.length ≤
      max maxSduFragments (tx.inputSdus i).pdusIndex.length := by
  obtain ⟨onPass, ahead⟩ := reserve_start ok
  obtain ⟨result, stored⟩ := @firstPass_clean maxSduInPdu _ _ _ _ onPass ahead rfl (by decide) clean
  have taken : taking tx = cut (pduRoom tx) 0 (tx.queue.map TxSdu.sduRemainingSize) := by
    rw [taking, reserve, result]
    rfl
  refine ⟨?_, taken, stored⟩
  rw [reserve, result, taken, Nat.zero_add]
  rfl

/-- The bytes of a clean cut: the chain of indicators, and the pieces behind it. -/
theorem Emission.clean_bytes (ok : QueueOk tx) (emission : Emission tx after block mem tbSize b1)
    (clean : Clean (pduRoom tx) 0 tx.queue) :
    Entries mem 2 ((taking tx).length - 1) 0 (taking tx).dropLast ∧
    bytesAt mem (2 + headerLiLength ((taking tx).length - 1)) (taking tx).sum =
      (List.zipWith TxSdu.bytes tx.queue (taking tx)).flatten := by
  obtain ⟨result, taken, -⟩ := reserve_clean ok clean
  obtain ⟨queue', holding, sizes, bytes, -⟩ := fillReserved_filled ok emission.some block
  have positive : 0 < (taking tx).length := by
    rw [taken]
    exact List.length_pos_iff.mpr (cut_ne_nil (by simpa using emission.some))
  have room : (fillStart tx block).pduRemainingSize = pduRoom tx := congrArg Prod.snd result
  have data : (fillStart tx block).data = 2 + headerLiLength ((taking tx).length - 1) := by
    show 2 + (((reserve tx).result.1 * 3 + 1) >>> 1) = _
    rw [result, headerLiLength_shift]
  have pieces : cut (fillStart tx block).pduRemainingSize 0 (queue'.map TxSdu.sduRemainingSize) =
      taking tx := by
    rw [sizes, room, taken]
  have written :
    PduWritten (fillStart tx block)
    (secondPass (reserve tx).result.1 maxSduInPdu (fillStart tx block))
      queue' (cut (fillStart tx block).pduRemainingSize 0 (queue'.map TxSdu.sduRemainingSize))
          (reserve tx).result.1 0 :=
    secondPass_written holding rfl rfl rfl (by decide) rfl rfl (fun odd => absurd odd (by decide))
      (by rw [sizes, room]; exact clean.exact) (by rw [pieces, result]; simp only; omega)
        (by rw [data, result])
  rw [pieces, result] at written
  have high (a : Nat) (behind : 2 ≤ a) : mem a = (fillReserved tx block).mem a := by
    rw [emission.bytes, setByte_other _ (by omega), setByte_other _ (by omega)]
  have last : (fillReserved tx block).mem =
      (secondPass ((taking tx).length - 1) maxSduInPdu (fillStart tx block)).mem := by
    rw [fillReserved, result]
  constructor
  · refine written.entries.congr fun j _ _ => ?_
    rw [← last]
    exact entry_congr fun a lower _ => high a lower
  · rw [← bytes, ← written.payload, data, ← last]
    exact bytesAt_congr fun i _ => high _ (by omega)

theorem Emission.announces (ok : QueueOk tx) (emission : Emission tx after block mem tbSize b1)
    (clean : Clean (pduRoom tx) 0 tx.queue) : liStart mem = 2 ∧ Announces mem (taking tx) := by
  obtain ⟨entries, -⟩ := emission.clean_bytes ok clean
  obtain ⟨data, whole, e, -, -⟩ := emission.header ok
  obtain ⟨queue', -, sizes, -, filled⟩ := fillReserved_filled ok emission.some block
  have start : liStart mem = 2 := by rw [liStart, whole]; rfl
  have count : (fillReserved tx block).fillNumLi + 1 = (taking tx).length := by
    have := filled.fillNumLi
    rw [sizes, Nat.zero_add] at this
    exact this
  refine ⟨start, data, ?_, ?_, start.symm ▸ entries⟩
  · rw [e, decide_eq_decide]
    omega
  · have := @cut_length_max (reserve tx).result.2 0
      (tx.queue.map TxSdu.sduRemainingSize) (by decide)
    rwa [Nat.zero_add] at this

/-- A clean cut is undone by the decoder, as far as its payload can be counted. -/
theorem Emission.undone (ok : QueueOk tx) (grant : 2 < tx.nbBytesRequestedByMac)
    (emission : Emission tx after block mem tbSize b1) (clean : Clean (pduRoom tx) 0 tx.queue)
    (small : (taking tx).sum ≤ 32767) : Undone tx after mem tbSize := by
  obtain ⟨result, taken, stored⟩ := reserve_clean ok clean
  obtain ⟨-, payload⟩ := emission.clean_bytes ok clean
  obtain ⟨start, announces⟩ := emission.announces ok clean
  obtain ⟨-, whole, -, fi, sn⟩ := emission.header ok
  obtain ⟨queue', -, sizes, -, filled⟩ := fillReserved_filled ok emission.some block
  have step := queueStep ok emission.some emission.same emission.vtS
  have needed := ok.needed emission.some
  have roomEq : (fillStart tx block).pduRemainingSize = pduRoom tx := congrArg Prod.snd result
  obtain ⟨roomPos, sizeEq, within⟩ := pduRoom_eq grant (ok.occupied emission.some)
  have positive : ∀ piece ∈ taking tx, 0 < piece := by
    rw [taken]
    refine cut_pos roomPos fun size member => ?_
    obtain ⟨sdu, inside, rfl⟩ := List.mem_map.mp member
    exact (ok.waiting sdu inside).remaining
  have gave : given tx after = taking tx := by
    rw [given_eq step, List.filter_eq_self]
    exact fun piece member => decide_eq_true (positive piece member)
  have some : taking tx ≠ [] := by
    rw [taken]
    exact cut_ne_nil needed.1
  -- Nothing of the room is left over, so the size is that of the header and the pieces.
  have account := cut_account needed
  rw [clean.exact.waste, ← taken, Nat.zero_add, show headerLiLength 0 = 0 by rfl] at account
  have unused : (fillReserved tx block).pduRemainingSize = 0 := by
    have := filled.unused
    rw [sizes, roomEq, clean.exact.waste] at this
    exact Nat.le_zero.mp this
  have total : tbSize = 2 + headerLiLength ((taking tx).length - 1) + (taking tx).sum := by
    rw [emission.tbSize, unused, sizeEq, headerMinSize]
    omega
  have last := positive _ (List.getLast_mem some)
  have decoded := @Announces.decoded mem (taking tx) announces some last small tbSize (by
    rw [total, announcedHeader, start]
    omega)
  have ends : (fillReserved tx block).fiLast = decide ((taking tx).getLastD 0 =
      (tx.queue.getD ((taking tx).length - 1) {}).sduRemainingSize) := by
    rw [filled.fiLast, sizes, roomEq, cutEnds_eq needed, ← taken, decide_eq_decide]
    have inside : (taking tx).length - 1 < tx.queue.length := by
      have := cut_length_le (pduRoom tx) 0 (tx.queue.map TxSdu.sduRemainingSize)
      have := List.length_pos_iff.mpr some
      rw [← taken, List.length_map] at *
      omega
    rw [List.getD_eq_getElem _ _ (by have := List.length_pos_iff.mpr some; omega),
      List.getD_eq_getElem _ _ (by simpa using inside), List.getD_eq_getElem _ _ inside,
        List.getElem_map,
      List.getLastD_eq_getLast?, List.getLast?_eq_some_getLast some, Option.getD_some,
        List.getLast_eq_getElem]
  constructor
  · rw [decoded]
  · rw [decoded, readFixedHeader_eq]
    exact whole
  · rw [decoded, readFixedHeader_eq]
    exact sn
  · rw [decoded, gave]
    conv_rhs => rw [← List.dropLast_concat_getLast some]
    rw [List.map_append]
    rfl
  · rw [decoded, gave]
  · rw [decoded, gave, ← payload]
    simp only [announcedHeader, start]
  · rw [decoded, readFixedHeader_eq]
    simp only [fi, gave, ends, decide_eq_true_eq]
  · rw [decoded, gave]
    simp only [PduInfo.numLi, List.length_dropLast]
    exact total
  · rw [emission.tbSize]
    omega
  · intro i
    rw [step.lists]
    exact stored i

/-- Any other cut leaves bytes in the PDU that belong to no piece. -/
theorem Emission.clean_of_undone (ok : QueueOk tx) (grant : 2 < tx.nbBytesRequestedByMac)
    (emission : Emission tx after block mem tbSize b1) (undone : Undone tx after mem tbSize) :
    Clean (pduRoom tx) 0 tx.queue ∧ (taking tx).sum ≤ 32767 := by
  have step := queueStep ok emission.some emission.same emission.vtS
  have needed := ok.needed emission.some
  obtain ⟨roomPos, sizeEq, -⟩ := pduRoom_eq grant (ok.occupied emission.some)
  constructor
  · by_contra unclean
    obtain ⟨onPass, ahead⟩ := reserve_start ok
    rcases @firstPass_unclean maxSduInPdu _ _ _ _ onPass ahead rfl (by decide) roomPos
        needed unclean with
      reduced | ⟨i, stored⟩
    · have reduced : (reserve tx).result.2 < pduRoom tx := reduced
      obtain ⟨queue', -, sizes, -, filled⟩ := fillReserved_filled ok emission.some block
      have account := cut_account (needed.mono (Nat.le_of_lt reduced))
      have unused := filled.unused
      rw [sizes] at unused
      have unused : (fillReserved tx block).pduRemainingSize ≤
          waste (reserve tx).result.2 0 (tx.queue.map TxSdu.sduRemainingSize) := unused
      have account : (reserve tx).result.2 + headerLiLength 0 = (taking tx).sum +
          headerLiLength (0 + ((taking tx).length - 1)) +
          waste (reserve tx).result.2 0 (tx.queue.map TxSdu.sduRemainingSize) := account
      rw [Nat.zero_add, show headerLiLength 0 = 0 by rfl] at account
      have count : (getDataPduInfos mem (Int16.ofInt tbSize)).info.numLi + 1 =
          (given tx after).length := by
        have := congrArg List.length undone.pieces
        simpa [PduInfo.numLi] using this
      have header :=
        headerLiLength_mono (show (getDataPduInfos mem (Int16.ofInt tbSize)).info.numLi ≤
        (taking tx).length - 1 by have := given_length_le step; omega)
      have size := undone.size
      have tbSize := emission.tbSize
      rw [sizeEq, headerMinSize] at tbSize
      rw [given_sum step] at size
      omega
    · have bound := undone.stores i
      rw [step.lists i] at bound
      exact absurd stored (Nat.not_lt.mpr bound)
  · have size := undone.payloadSize
    rw [given_sum step] at size
    have bound := payloadSize_lt undone.accepted
    omega

end Decode

/-- A grant of the MAC layer, with the block that the allocator gives for the PDU. -/
structure Grant where
  bytes : Int
  block : Memory
  now : Nat

def Tx.granted (tx : Tx) (grant : Grant) : Tx := { tx with nbBytesRequestedByMac := grant.bytes }

def segmentGrant (tx : Tx) (grant : Grant) : Tx × Option (Memory × Int) :=
  segment10 (tx.granted grant) (some grant.block) true grant.now

def afterGrants (tx : Tx) (grants : List Grant) : Tx :=
  grants.foldl (fun tx grant => (segmentGrant tx grant).1) tx

theorem QueueOk.granted {tx : Tx} (ok : QueueOk tx) (grant : Grant) : QueueOk (tx.granted grant) :=
  ⟨ok.vtS, ok.current, ok.count, ok.short, ok.waiting, ok.occupancy⟩

/-- A grant keeps the queue consistent, and brings a PDU when there is something to send. -/
theorem segmentGrant_queue {tx : Tx} (ok : QueueOk tx) {grant : Grant} (bytes : 2 < grant.bytes) :
    QueueOk (segmentGrant tx grant).1 ∧ ((segmentGrant tx grant).2.isSome ↔ tx.queue ≠ []) := by
  have ready := ok.granted grant
  by_cases empty : tx.queue = []
  · have idle : (tx.granted grant).sduBufferOccupancy ≤ 0 := by
      rw [ready.occupancy, show (tx.granted grant).queue = [] from empty]
      exact Int.le_refl _
    unfold segmentGrant segment10
    rw [if_pos idle]
    exact ⟨ready, by simp [empty]⟩
  · obtain ⟨sdu, rest, list⟩ :=
      List.exists_cons_of_ne_nil (show (tx.granted grant).queue ≠ [] from empty)
    have holding := ready.holding
    rw [list] at holding
    have waiting := holding.waiting sdu List.mem_cons_self
    obtain ⟨after, b1, same, vtS, -, result⟩ :=
      @segment10_emits (tx.granted grant) grant.block true grant.now
      (ready.occupied empty) (by rw [holding.head]; exact waiting.block)
      (show 0 < grant.bytes by omega)
    rw [segmentGrant, result]
    exact ⟨(queueStep ready empty same vtS).queue, by simp [empty]⟩

theorem afterGrants_queue {tx : Tx} (ok : QueueOk tx) {grants : List Grant}
    (bytes : ∀ grant ∈ grants, 2 < grant.bytes) :
    QueueOk (afterGrants tx grants) := by
  induction grants generalizing tx with
  | nil => exact ok
  | cons grant rest ih =>
    exact ih (segmentGrant_queue ok (bytes grant List.mem_cons_self)).1
      fun grant member => bytes grant (List.mem_cons_of_mem _ member)

/-- The grant can be filled to its last byte: walking the queue, every SDU either reaches
the end of the PDU or leaves place for another piece behind its indicator, with no more
than 128 SDUs in the PDU, no more than 32 PDUs for each SDU, and a payload of fifteen bits. -/
def CleanGrant (tx : Tx) : Prop :=
  Clean (pduRoom tx) 0 tx.queue ∧
    (cut (pduRoom tx) 0 (tx.queue.map TxSdu.sduRemainingSize)).sum ≤ 32767

/-- On every consistent queue, after any grants, a grant brings a PDU while there is
something to send, and the decoder undoes it exactly when the grant is clean. -/
theorem segmentation_undone (tx : Tx) (ok : QueueOk tx) (grants : List Grant)
    (bytes : ∀ grant ∈ grants, 2 < grant.bytes) (grant : Grant) (enough : 2 < grant.bytes) :
    ((segmentGrant (afterGrants tx grants) grant).2.isSome ↔ (afterGrants tx grants).queue ≠ []) ∧
    ∀ mem tbSize, (segmentGrant (afterGrants tx grants) grant).2 = some (mem, tbSize) →
      (Undone ((afterGrants tx grants).granted grant)
        (segmentGrant (afterGrants tx grants) grant).1 mem tbSize ↔
        CleanGrant ((afterGrants tx grants).granted grant)) := by
  have now := afterGrants_queue ok bytes
  refine ⟨(segmentGrant_queue now enough).2, fun mem tbSize emits => ?_⟩
  have ready := now.granted grant
  obtain ⟨b1, emission⟩ := emission_of_segment10 ready enough (Prod.ext rfl emits)
  constructor
  · intro undone
    obtain ⟨clean, small⟩ := emission.clean_of_undone ready enough undone
    obtain ⟨-, taken, -⟩ := reserve_clean ready clean
    exact ⟨clean, taken ▸ small⟩
  · rintro ⟨clean, small⟩
    obtain ⟨-, taken, -⟩ := reserve_clean ready clean
    exact emission.undone ready enough clean (taken ▸ small)

def twoSdus : Tx where
  nbSdu := 2
  nbSduNoSegmented := 2
  nextSduIndex := 2
  sduBufferOccupancy := 12
  inputSdus i :=
    if i = 0 then { memBlock := some fun _ => 0xAA, sduRemainingSize := 5, sduSize := 5 }
    else if i = 1 then { memBlock := some fun _ => 0xBB, sduRemainingSize := 7, sduSize := 7 }
    else {}

theorem twoSdus_ok : QueueOk twoSdus := by
  refine ⟨by decide, by decide, by decide, by decide, ?_, by decide⟩
  intro sdu member
  rcases List.mem_cons.mp (show sdu ∈ [_, _] from member) with rfl | later
  · exact ⟨rfl, by decide, by decide, by decide⟩
  · rw [List.mem_singleton] at later
    subst later
    exact ⟨rfl, by decide, by decide, by decide⟩

/-- A grant that leaves one byte behind the first SDU: the byte is sent too, and the
decoder takes it for a sixth byte of the SDU. -/
theorem twoSdus_not_undone :
    ∃ mem tbSize, (segmentGrant twoSdus ⟨8, fun _ => 0xEE, 0⟩).2 = some (mem, tbSize) ∧ tbSize = 8 ∧
      given (twoSdus.granted ⟨8, fun _ => 0xEE, 0⟩)
        (segmentGrant twoSdus ⟨8, fun _ => 0xEE, 0⟩).1 = [5] ∧
      (getDataPduInfos mem (Int16.ofInt tbSize)).info.hiddenSize = 6 ∧
      ¬ Undone (twoSdus.granted ⟨8, fun _ => 0xEE, 0⟩)
        (segmentGrant twoSdus ⟨8, fun _ => 0xEE, 0⟩).1 mem tbSize := by
  have gave : given (twoSdus.granted ⟨8, fun _ => 0xEE, 0⟩)
      (segmentGrant twoSdus ⟨8, fun _ => 0xEE, 0⟩).1 = [5] := by decide +kernel
  have hidden : ((segmentGrant twoSdus ⟨8, fun _ => 0xEE, 0⟩).2.map fun out =>
      (out.2, (getDataPduInfos out.1 (Int16.ofInt out.2)).info.hiddenSize)) =
        some (8, 6) := by decide +kernel
  cases emits : (segmentGrant twoSdus ⟨8, fun _ => 0xEE, 0⟩).2 with
  | none => rw [emits] at hidden; cases hidden
  | some out =>
    obtain ⟨mem, tbSize⟩ := out
    rw [emits, Option.map_some, Option.some.injEq, Prod.mk.injEq] at hidden
    refine ⟨mem, tbSize, rfl, hidden.1, gave, hidden.2, fun undone => ?_⟩
    have pieces := undone.pieces
    rw [gave, hidden.2] at pieces
    have last := congrArg List.getLast? pieces
    simp at last

/-- A grant that the first SDU fills. -/
theorem segmentation_undone_sample :
    ∃ mem tbSize, (segmentGrant twoSdus ⟨7, fun _ => 0xEE, 0⟩).2 = some (mem, tbSize) ∧
      Undone (twoSdus.granted ⟨7, fun _ => 0xEE, 0⟩) (segmentGrant twoSdus ⟨7, fun _ => 0xEE, 0⟩).1
        mem tbSize := by
  obtain ⟨emits, undone⟩ :=
    segmentation_undone twoSdus twoSdus_ok [] (by simp) ⟨7, fun _ => 0xEE, 0⟩ (by decide)
  obtain ⟨⟨mem, tbSize⟩, sent⟩ := Option.isSome_iff_exists.mp (emits.mpr (by decide))
  exact ⟨mem, tbSize, sent, (undone mem tbSize sent).mpr ⟨by decide, by decide⟩⟩

end OpenAir.Rlc.Am
