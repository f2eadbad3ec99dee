import OpenAir.Rlc.Am.SegmentMemory
import OpenAir.Rlc.Am.PieceDecode

/-! Reassembly: the SDUs that the receiver builds from the pieces of the PDUs it is fed
in order, and delivers to the upper layer. -/
namespace OpenAir.Rlc.Am
open BitField

/-- The reassembling side of `rlc_am_entity_t`: the bytes written so far to
`output_sdu_in_construction`, and the SDUs given to the upper layer, the oldest first. -/
structure Assembly where
  outputSdu : Option (List UInt8) := none
  delivered : List (List UInt8) := []
deriving Repr, DecidableEq

def Assembly.partialSdu (a : Assembly) : List UInt8 := a.outputSdu.getD []

/-- `rlc_am_reassembly`, the block of a new SDU having been found; an SDU that outgrows
its block is erased. -/
def reassembly (a : Assembly) (bytes : List UInt8) : Assembly :=
  if a.partialSdu.length + bytes.length ≤ sduMaxSize then
    { a with outputSdu := some (a.partialSdu ++ bytes) }
  else
    { a with outputSdu := some [] }

/-- `rlc_am_send_sdu`; the block of an empty SDU is kept. -/
def sendSdu (a : Assembly) : Assembly :=
  match a.outputSdu with
  | none => a
  | some [] => a
  | some bytes => ⟨none, a.delivered ++ [bytes]⟩

/-- The loop over `li_list`: every indicator ends an SDU. The result has the offset of
the bytes behind them. -/
def reassembleLis (mem : Memory) : Nat → List Nat → Assembly → Nat × Assembly
  | j, [], a => (j, a)
  | j, li :: rest, a => reassembleLis mem (j + li) rest (sendSdu (reassembly a (bytesAt mem j li)))

/-- `rlc_am_reassemble_pdu` on a decoded PDU, `payload` being an address in its block. The
framing values 0 and 1 start an SDU, 0 and 2 end one. -/
def reassemblePdu (a : Assembly) (mem : Memory) (info : PduInfo) : Assembly :=
  let a := if info.fi = 0 ∨ info.fi = 1 then sendSdu a else a
  if info.e = false then
    let a := reassembly a (bytesAt mem info.payload info.payloadSize.toNat)
    if info.fi = 0 ∨ info.fi = 2 then sendSdu a else a
  else
    let (j, a) := reassembleLis mem info.payload info.liList a
    if info.hiddenSize > 0 then
      let a := reassembly a (bytesAt mem j info.hiddenSize.toNat)
      if info.fi = 0 ∨ info.fi = 2 then sendSdu a else a
    else
      a

section Assembly

variable (a : Assembly)

theorem sendSdu_delivered : (sendSdu a).delivered =
    a.delivered ++ (if a.partialSdu = [] then [] else [a.partialSdu]) := by
  obtain ⟨_ | _ | ⟨byte, rest⟩, delivered⟩ := a <;> simp [sendSdu, Assembly.partialSdu]

theorem sendSdu_partialSdu : (sendSdu a).partialSdu = [] := by
  obtain ⟨_ | _ | ⟨byte, rest⟩, delivered⟩ := a <;> rfl

theorem reassembly_delivered (bytes : List UInt8) : (reassembly a bytes).delivered =
    a.delivered := by
  unfold reassembly
  split <;> rfl

variable {a}

theorem reassembly_fits {bytes : List UInt8}
    (fits : a.partialSdu.length + bytes.length ≤ sduMaxSize) :
    reassembly a bytes = { a with outputSdu := some (a.partialSdu ++ bytes) } := if_pos fits

/-- Two pieces one behind the other are as good as one. -/
theorem reassembly_append {first second : List UInt8}
    (fits : a.partialSdu.length + (first ++ second).length ≤ sduMaxSize) :
    reassembly (reassembly a first) second = reassembly a (first ++ second) := by
  rw [List.length_append] at fits
  have here : reassembly a first = { a with outputSdu := some (a.partialSdu ++ first) } :=
    reassembly_fits (by omega)
  rw [here, reassembly_fits (by simp [Assembly.partialSdu] at fits ⊢; omega),
    reassembly_fits (by rw [List.length_append]; omega)]
  simp [Assembly.partialSdu]

theorem sendSdu_length_le : (sendSdu a).delivered.length ≤ a.delivered.length + 1 := by
  rw [sendSdu_delivered]
  split <;> simp

theorem sendSdu_length (some : a.partialSdu ≠ []) : (sendSdu a).delivered.length =
    a.delivered.length + 1 := by
  rw [sendSdu_delivered, if_neg some]
  simp

end Assembly

/-- Pieces fed one after the other, an SDU ending behind each but the last. -/
def feedPieces : Assembly → List (List UInt8) → Assembly
  | a, [] => a
  | a, [piece] => reassembly a piece
  | a, piece :: next :: rest => feedPieces (sendSdu (reassembly a piece)) (next :: rest)

/-- A PDU fed to the reassembly: whether its first piece starts an SDU, its pieces, and
whether its last piece ends one. -/
def feed (a : Assembly) (first : Bool) (pieces : List (List UInt8)) (last : Bool) : Assembly :=
  let a := feedPieces (if first then sendSdu a else a) pieces
  if last then sendSdu a else a

/-- Consecutive runs of bytes. -/
def chunks (mem : Memory) : Nat → List Nat → List (List UInt8)
  | _, [] => []
  | a, size :: rest => bytesAt mem a size :: chunks mem (a + size) rest

theorem feedPieces_cons {a : Assembly} {piece : List UInt8} {rest : List (List UInt8)}
    (more : rest ≠ []) :
    feedPieces a (piece :: rest) = feedPieces (sendSdu (reassembly a piece)) rest := by
  cases rest with
  | nil => exact absurd rfl more
  | cons next rest => rfl

theorem reassembleLis_feed (mem : Memory) (j last : Nat) (lis : List Nat) (a : Assembly) :
    reassembly (reassembleLis mem j lis a).2 (bytesAt mem (reassembleLis mem j lis a).1 last) =
      feedPieces a (chunks mem j (lis ++ [last])) := by
  induction lis generalizing j a with
  | nil => rfl
  | cons li rest ih =>
    rw [reassembleLis, ih, List.cons_append, chunks, feedPieces_cons]
    cases rest <;> exact List.cons_ne_nil _ _

theorem framing_flags (mem : Memory) :
    (valueAt mem 3 2 = 0 ∨ valueAt mem 3 2 = 1 ↔ (!bitAt mem 3) = true) ∧
    (valueAt mem 3 2 = 0 ∨ valueAt mem 3 2 = 2 ↔ (!bitAt mem 4) = true) := by
  have value : valueAt mem 3 2 = 2 * (bitAt mem 3).toNat + (bitAt mem 4).toNat := by simp [valueAt]
  rw [value]
  cases bitAt mem 3 <;> cases bitAt mem 4 <;> decide

theorem reassemblePdu_feed {mem : Memory} {pieces : List Nat} (announces : Announces mem pieces)
    (some : pieces ≠ [])
    (pos : ∀ piece ∈ pieces, 0 < piece) (small : pieces.sum ≤ 32767) {tbSize : Int}
    (size : tbSize = announcedHeader mem pieces + pieces.sum) (a : Assembly) :
    reassemblePdu a mem (getDataPduInfos mem (Int16.ofInt tbSize)).info =
      feed a (!bitAt mem 3) (chunks mem (announcedHeader mem pieces) pieces) (!bitAt mem 4) := by
  have last := pos _ (List.getLast_mem some)
  obtain ⟨first, ends⟩ := framing_flags mem
  rw [announces.decoded some last small size, readFixedHeader_eq, reassemblePdu, feed]
  simp only [first, ends]
  generalize (if (!bitAt mem 3) = true then sendSdu a else a) = b
  by_cases single : pieces.length = 1
  · obtain ⟨piece, rfl⟩ := List.length_eq_one_iff.mp single
    have e : bitAt mem 5 = false := announces.e
    simp only [e, if_true, List.sum_singleton, Int.toNat_natCast]
    rfl
  · have positive := List.length_pos_iff.mpr some
    have e : bitAt mem 5 = true := by
      rw [announces.e, decide_eq_true_eq]
      omega
    have hidden : (pieces.getLast some : Int) > 0 := by omega
    simp only [e, Bool.true_eq_false, if_false, hidden, if_true, Int.toNat_natCast,
      reassembleLis_feed, List.dropLast_concat_getLast]

end OpenAir.Rlc.Am
