import OpenAir.Rlc.Am.NewSegment

/-! The rest of a stored PDU behind a split as a new segment: what its header describes, and when
the reassembly of both parts delivers what that of the PDU does. -/
namespace OpenAir.Rlc.Am
open BitField

section Alike

/-- The same SDUs, delivered and in construction. -/
structure Alike (a b : Assembly) : Prop where
  delivered : a.delivered = b.delivered
  partialSdu : a.partialSdu = b.partialSdu

theorem reassembly_partialSdu (a : Assembly) (bytes : List UInt8) :
    (reassembly a bytes).partialSdu =
    if a.partialSdu.length + bytes.length ≤ sduMaxSize then a.partialSdu ++ bytes else [] := by
  unfold reassembly
  split <;> rfl

variable {a b : Assembly}

theorem Alike.refl (a : Assembly) : Alike a a := ⟨rfl, rfl⟩

theorem Alike.symm (alike : Alike a b) : Alike b a := ⟨alike.delivered.symm, alike.partialSdu.symm⟩

theorem Alike.trans {c : Assembly} (left : Alike a b) (right : Alike b c) : Alike a c :=
  ⟨left.delivered.trans right.delivered, left.partialSdu.trans right.partialSdu⟩

theorem Alike.reassembly (alike : Alike a b) (bytes : List UInt8) :
    Alike (reassembly a bytes) (reassembly b bytes) := by
  constructor
  · rw [reassembly_delivered, reassembly_delivered, alike.delivered]
  · rw [reassembly_partialSdu, reassembly_partialSdu, alike.partialSdu]

theorem Alike.sendSdu (alike : Alike a b) : Alike (sendSdu a) (sendSdu b) := by
  constructor
  · rw [sendSdu_delivered, sendSdu_delivered, alike.partialSdu, alike.delivered]
  · rw [sendSdu_partialSdu, sendSdu_partialSdu]

theorem Alike.feedPieces (alike : Alike a b) (pieces : List (List UInt8)) :
    Alike (feedPieces a pieces) (feedPieces b pieces) := by
  induction pieces generalizing a b with
  | nil => exact alike
  | cons piece rest ih =>
    by_cases last : rest = []
    · subst last
      exact alike.reassembly piece
    · rw [feedPieces_cons last, feedPieces_cons last]
      exact ih (alike.reassembly piece).sendSdu

theorem Alike.ending (alike : Alike a b) (ends : Bool) :
    Alike (if ends then Am.sendSdu a else a) (if ends then Am.sendSdu b else b) := by
  cases ends with
  | true => exact alike.sendSdu
  | false => exact alike

/-- An SDU that was sent is not sent again. -/
theorem sendSdu_twice (a : Assembly) : Alike (sendSdu a) (sendSdu (sendSdu a)) := by
  constructor
  · rw [sendSdu_delivered (sendSdu a), sendSdu_partialSdu, if_pos rfl, List.append_nil]
  · rw [sendSdu_partialSdu, sendSdu_partialSdu]

theorem sendSdu_empty (a : Assembly) : Alike (sendSdu a) (sendSdu (reassembly (sendSdu a) [])) := by
  have still : Alike (sendSdu a) (reassembly (sendSdu a) []) := by
    constructor
    · rw [reassembly_delivered]
    · rw [reassembly_partialSdu, sendSdu_partialSdu]
      rfl
  exact (sendSdu_twice a).trans still.sendSdu

theorem feedPieces_zeros (zeros : Nat) (mem : Memory) (j : Nat) (a : Assembly) :
    Alike (sendSdu a)
      (sendSdu (feedPieces (sendSdu a) (chunks mem j (List.replicate zeros 0)))) := by
  induction zeros generalizing j a with
  | zero => exact sendSdu_twice a
  | succ zeros ih =>
    have here := sendSdu_empty a
    cases zeros with
    | zero => exact here
    | succ zeros =>
      have more : chunks mem (j + 0) (List.replicate (zeros + 1) 0) ≠ [] :=
        chunks_ne_nil (List.cons_ne_nil _ _)
      rw [List.replicate_succ, chunks, feedPieces_cons more]
      exact here.trans (ih (j + 0) (reassembly (sendSdu a) []))

theorem feedPieces_empty {front : List Nat} (mem : Memory) (j zeros : Nat) (some : front ≠ []) :
    Alike (sendSdu (feedPieces a (chunks mem j front)))
      (sendSdu (feedPieces a (chunks mem j (front ++ List.replicate zeros 0)))) := by
  cases zeros with
  | zero =>
    rw [List.replicate_zero, List.append_nil]
    exact .refl _
  | succ zeros =>
    have more : chunks mem (j + front.sum) (List.replicate (zeros + 1) 0) ≠ [] :=
      chunks_ne_nil (List.cons_ne_nil _ _)
    rw [chunks_append, feedPieces_append (chunks_ne_nil some) more]
    exact feedPieces_zeros (zeros + 1) mem (j + front.sum) (feedPieces a (chunks mem j front))

end Alike

section Describes

variable {info : PduInfo} {pieces : List Nat} {starts ends : Bool}

def framingInfo (starts ends : Bool) : Nat := (if starts then 0 else 2) + if ends then 0 else 1

/-- What a decoded header says of the data field: the sizes of the SDU pieces, whether the first one
starts an SDU and whether the last one ends one. The last piece is the hidden one, or it has an
indicator too and ends its SDU. -/
structure Describes (info : PduInfo) (pieces : List Nat) (starts ends : Bool) : Prop where
  some : pieces ≠ []
  last : 0 < pieces.getLast some
  fi : info.fi = framingInfo starts ends
  e : info.e = decide (info.liList ≠ [])
  listed : info.liList = pieces.dropLast ∧ info.hiddenSize = (pieces.getLast some : Nat) ∨
    info.liList = pieces ∧ info.hiddenSize = 0 ∧ ends = true
  payloadSize : info.payloadSize = pieces.sum

theorem reassembleLis_concat (mem : Memory) (j last : Nat) (lis : List Nat) (a : Assembly) :
    (reassembleLis mem j (lis ++ [last]) a).2 =
    sendSdu (feedPieces a (chunks mem j (lis ++ [last]))) := by
  induction lis generalizing j a with
  | nil => rfl
  | cons li rest ih =>
    rw [List.cons_append, reassembleLis, ih, chunks, feedPieces_cons]
    cases rest <;> exact List.cons_ne_nil _ _

theorem fi_starts (starts ends : Bool) (fi : Nat) (eq : fi = framingInfo starts ends) :
    (fi = 0 ∨ fi = 1 ↔ starts = true) ∧ (fi = 0 ∨ fi = 2 ↔ ends = true) := by
  subst eq
  cases starts <;> cases ends <;> decide

theorem Describes.feed (describes : Describes info pieces starts ends) (mem : Memory)
    (a : Assembly) :
    reassemblePdu a mem info = feed a starts (chunks mem info.payload pieces) ends := by
  obtain ⟨first, last⟩ := fi_starts starts ends info.fi describes.fi
  have positive := describes.last
  have init := List.dropLast_concat_getLast describes.some
  rw [reassemblePdu, Am.feed]
  simp only [first, last]
  generalize (if starts = true then sendSdu a else a) = b
  by_cases none : info.liList = []
  · have e : info.e = false := by
      rw [describes.e, decide_eq_false_iff_not, not_not]
      exact none
    rcases describes.listed with ⟨listed, -⟩ | ⟨listed, -, -⟩
    · rw [none] at listed
      rw [← listed, List.nil_append] at init
      rw [if_pos e, describes.payloadSize, ← init, List.sum_singleton]
      rfl
    · exact absurd (listed.symm.trans none) describes.some
  · have e : ¬ info.e = false := by
      rw [describes.e, decide_eq_false_iff_not, not_not]
      exact none
    rw [if_neg e]
    rcases describes.listed with ⟨listed, hidden⟩ | ⟨listed, hidden, ending⟩
    · simp only [listed, hidden, Int.toNat_natCast, reassembleLis_feed, init]
      rw [if_pos (by omega)]
    · subst ending
      have sent :=
        reassembleLis_concat mem info.payload (pieces.getLast describes.some) pieces.dropLast b
      rw [init] at sent
      simp only [listed, hidden, sent]
      rfl

/-- Without indicators the whole data field is hidden, whatever the extension bit says. -/
theorem reassemblePdu_e (mem : Memory) (a : Assembly) (none : info.liList = [])
    (hidden : info.hiddenSize = info.payloadSize)
    (some : 0 < info.hiddenSize) :
    reassemblePdu a mem info = reassemblePdu a mem { info with e := false } := by
  cases e : info.e with
  | false => rw [← e]
  | true =>
    rw [reassemblePdu, reassemblePdu]
    simp only [e, none, Bool.true_eq_false, if_false, if_true, reassembleLis, if_pos some]
    rw [hidden]

end Describes

end OpenAir.Rlc.Am
