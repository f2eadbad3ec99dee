import OpenAir.Rlc.Am.LiEntry

/-! The decoder on a PDU whose header announces its pieces: every piece but the last has
a length indicator, and the size tells the last. -/
namespace OpenAir.Rlc.Am
open BitField

theorem int16_sub (tbSize header : Int) : int16 ((Int16.ofInt tbSize).toInt - header) =
    int16 (tbSize - header) := by
  rw [Int16.toInt_ofInt, int16, int16]
  exact Int.bmod_sub_bmod

/-- The decoder finds the size of the last piece, which has no indicator. -/
theorem hidden_eq {pieces : List Nat} (some : pieces ≠ []) (last : 0 < pieces.getLast some)
    (small : pieces.sum ≤ 32767) :
    (if (pieces.sum : Int) > int16 pieces.dropLast.sum then
      int16 (pieces.sum - int16 pieces.dropLast.sum) else 0) =
      pieces.getLast some := by
  have sum : pieces.dropLast.sum + pieces.getLast some = pieces.sum := by
    conv_rhs => rw [← List.dropLast_concat_getLast some]
    rw [List.sum_append, List.sum_singleton]
  rw [int16_eq (by omega) (by omega), if_pos (by omega)]
  have rest : (pieces.sum : Int) - pieces.dropLast.sum = pieces.getLast some := by omega
  rw [rest]
  exact int16_eq (by omega) (by omega)

/-- A data PDU whose header announces the pieces. -/
structure Announces (mem : Memory) (pieces : List Nat) : Prop where
  data : bitAt mem 0 = true
  e : bitAt mem 5 = decide (1 < pieces.length)
  few : pieces.length ≤ maxSduInPdu
  entries : Entries mem (liStart mem) (pieces.length - 1) 0 pieces.dropLast

/-- The bytes in front of the pieces. -/
def announcedHeader (mem : Memory) (pieces : List Nat) : Nat :=
  liStart mem + headerLiLength (pieces.length - 1)

section Announces

variable {mem : Memory} {pieces : List Nat}

/-- The decoder finds the indicators whatever the size is. -/
theorem Announces.read (announces : Announces mem pieces) (totalSize : Int16) :
    getDataPduInfos mem totalSize = ⟨0, dataPduInfo mem (pieces.length - 1) totalSize⟩ ∧
    lisAt mem (liStart mem) 0 (pieces.length - 1) = pieces.dropLast := by
  have length : pieces.dropLast.length = pieces.length - 1 := List.length_dropLast
  have entries := announces.entries
  refine ⟨getDataPduInfos_chain _ announces.data ?_ ((Nat.sub_le _ _).trans announces.few),
    length ▸ entries.lisAt⟩
  rw [LiCount, announces.e]
  by_cases single : pieces.length - 1 = 0
  · rw [if_neg (by simp only [decide_eq_true_eq]; omega)]
    exact single
  · rw [if_pos (by simp only [decide_eq_true_eq]; omega)]
    rw [← length] at entries ⊢
    exact entries.chain (by rw [ne_eq, ← List.length_eq_zero_iff]; omega)

theorem Announces.decoded (announces : Announces mem pieces) (some : pieces ≠ [])
    (last : 0 < pieces.getLast some)
    (small : pieces.sum ≤ 32767) {tbSize : Int}
    (size : tbSize = announcedHeader mem pieces + pieces.sum) :
    getDataPduInfos mem (Int16.ofInt tbSize) =
      ⟨0, { readFixedHeader mem with
        liList := pieces.dropLast
        headerSize := announcedHeader mem pieces
        payload := announcedHeader mem pieces
        payloadSize := pieces.sum
        hiddenSize := pieces.getLast some }⟩ := by
  obtain ⟨read, lis⟩ := announces.read (Int16.ofInt tbSize)
  have payloadSize : int16 ((Int16.ofInt tbSize).toInt - (announcedHeader mem pieces : Int)) =
      pieces.sum := by
    rw [int16_sub, size, int16_eq (by omega) (by omega)]
    omega
  have hidden := hidden_eq some last small
  rw [read, dataPduInfo, lis]
  simp only [← announcedHeader.eq_def, payloadSize, hidden]

end Announces

end OpenAir.Rlc.Am
