import OpenAir.Rlc.Um.Refused
import OpenAir.Rlc.Am.Reassembly

/-! SDUs cut into the pieces of UMD PDUs, in the sender's order, and what the receiver makes of
such PDUs when some of them are missing. -/
namespace OpenAir.Rlc.Um
open BitField
open Am (bytesAt Entries headerLiLength headerLiLength_shift chunks)

/-- What the sender has before it: the SDUs, and the bytes of the first of them that have gone
out already. -/
structure Backlog where
  sent : List UInt8
  sdus : List (List UInt8)
deriving Repr, DecidableEq

/-- The pieces of one PDU, and the backlog behind it. Every piece but the last ends its SDU. -/
inductive Cuts : Backlog → List (List UInt8) → Backlog → Prop
  | ends {sent piece sdus} (some : piece ≠ []) :
      Cuts ⟨sent, (sent ++ piece) :: sdus⟩ [piece] ⟨[], sdus⟩
  | opens {sent piece rest sdus} (some : piece ≠ []) (more : rest ≠ []) :
      Cuts ⟨sent, (sent ++ piece ++ rest) :: sdus⟩ [piece]
        ⟨sent ++ piece, (sent ++ piece ++ rest) :: sdus⟩
  | next {sent piece sdus pieces after} (some : piece ≠ []) (rest : Cuts ⟨[], sdus⟩ pieces after) :
      Cuts ⟨sent, (sent ++ piece) :: sdus⟩ (piece :: pieces) after

/-- The bytes of a UMD PDU: its SN, the framing info of the backlogs around it, a length
indicator for every piece but the last, and the pieces. -/
structure Encodes (length : SnLength) (sn : Nat) (before : Backlog) (pieces : List (List UInt8))
    (after : Backlog)
    (pdu : Pdu) : Prop where
  sn : fixedSn length pdu.mem = sn
  fi : fixedFi length pdu.mem = (if before.sent = [] then 0 else 2) +
    (if after.sent = [] then 0 else 1)
  e : fixedE length pdu.mem = if pieces.length = 1 then 0 else 1
  lis : Entries pdu.mem length.headerMin (pieces.length - 1) 0 (pieces.dropLast.map List.length)
  size : pdu.size = length.headerMin + headerLiLength (pieces.length - 1) + pieces.flatten.length
  payload : bytesAt pdu.mem (length.headerMin + headerLiLength (pieces.length - 1))
    pieces.flatten.length = pieces.flatten

/-- PDUs numbered from 0 on that carry the SDUs in order. -/
structure Segmentation (config : Config) (sdus : List (List UInt8)) (pdus : List Pdu)
    (backlog : Nat → Backlog) : Prop where
  start : backlog 0 = ⟨[], sdus⟩
  pdu : ∀ k pdu, pdus[k]? = some pdu → ∃ pieces, Cuts (backlog k) pieces (backlog (k + 1)) ∧
    Encodes config.snLength (k % config.modulo) (backlog k) pieces (backlog (k + 1)) pdu

section Cuts

variable {before after : Backlog} {pieces : List (List UInt8)}

theorem Cuts.ne_nil (cuts : Cuts before pieces after) : pieces ≠ [] := by
  cases cuts <;> exact List.cons_ne_nil _ _

theorem Cuts.piece_ne_nil (cuts : Cuts before pieces after) : ∀ piece ∈ pieces, piece ≠ [] := by
  induction cuts with
  | ends some => exact fun piece member => List.mem_singleton.mp member ▸ some
  | opens some more => exact fun piece member => List.mem_singleton.mp member ▸ some
  | next some rest ih =>
    intro piece member
    obtain rfl | later := List.mem_cons.mp member
    · exact some
    · exact ih piece later

theorem Cuts.suffix (cuts : Cuts before pieces after) :
    ∃ done, before.sdus = done ++ after.sdus := by
  induction cuts with
  | ends some => exact ⟨[_], rfl⟩
  | opens some more => exact ⟨[], rfl⟩
  | next some rest ih =>
    obtain ⟨done, split⟩ := ih
    exact ⟨_ :: done, congrArg (_ :: ·) split⟩

end Cuts

section Decode

variable {length : SnLength} {sn : Nat} {before after : Backlog}
    {pieces : List (List UInt8)} {pdu : Pdu}

theorem chunks_flatten {mem : Memory} {data : Nat}
    (payload : bytesAt mem data pieces.flatten.length = pieces.flatten) :
    chunks mem data (pieces.map List.length) = pieces := by
  induction pieces generalizing data with
  | nil => rfl
  | cons piece rest ih =>
    rw [List.flatten_cons, List.length_append, Am.bytesAt_add] at payload
    obtain ⟨first, behind⟩ := List.append_inj payload (Am.bytesAt_length mem data piece.length)
    rw [List.map_cons, chunks, first, ih behind]

theorem sizes_split (some : pieces ≠ []) :
    pieces.map List.length = pieces.dropLast.map List.length ++ [(pieces.getLast some).length] := by
  conv_lhs => rw [← List.dropLast_concat_getLast some]
  rw [List.map_append]
  rfl

/-- Indicators that the decoder's array can take are read, with what is left behind them. -/
theorem read_entries {mem : Memory} {start last : Nat} {lis : List Nat} (some : lis ≠ [])
    (entries : Entries mem start lis.length 0 lis) (fits : lis.length ≤ maxLiPerPdu)
    (positive : 0 < last) {size : Int}
    (total : size = headerLiLength lis.length + lis.sum + last) :
    readLengthIndicators mem start size = ⟨true, lis, last⟩ := by
  have left : sizeBehind mem start size lis.length = last := by
    rw [sizeBehind, entries.lisAt, total]
    omega
  rw [readLengthIndicators_of_some (liLoop_read (entries.chain some) fits _), readBehind,
    entries.lisAt, left]
  congr 1
  exact decide_eq_true (by omega)

theorem refused_entries {mem : Memory} {start : Nat} {lis : List Nat}
    (entries : Entries mem start lis.length 0 lis)
    (many : maxLiPerPdu < lis.length) (size : Int) :
    (readLengthIndicators mem start size).accepted = false := by
  have endless : ∀ j < maxLiPerPdu, Am.liE mem start j = true := by
    intro j inside
    have bit := entries.e (Nat.lt_trans inside many)
    rw [Nat.zero_add] at bit
    rw [bit, decide_eq_true_eq]
    omega
  obtain ⟨count, -, loop⟩ :=
    liLoop_endless mem start size endless (Nat.zero_le _) (show _ < 2 * (0 + liRounds) by decide)
  rw [liLoop_start] at loop
  rw [readLengthIndicators_of_some loop]
  rfl

theorem Encodes.entries (encodes : Encodes length sn before pieces after pdu) :
    Entries pdu.mem length.headerMin (pieces.dropLast.map List.length).length 0
      (pieces.dropLast.map List.length) := by
  rw [List.length_map, List.length_dropLast]
  exact encodes.lis

theorem Encodes.read (encodes : Encodes length sn before pieces after pdu)
    (cuts : Cuts before pieces after)
    (several : 1 < pieces.length) (fits : pieces.length - 1 ≤ maxLiPerPdu) :
    readLengthIndicators pdu.mem length.headerMin ((pdu.size - length.headerMin : Nat) : Int) =
      ⟨true, pieces.dropLast.map List.length, (pieces.getLast cuts.ne_nil).length⟩ := by
  have count : (pieces.dropLast.map List.length).length = pieces.length - 1 := by
    rw [List.length_map, List.length_dropLast]
  have total : pieces.flatten.length = (pieces.dropLast.map List.length).sum +
      (pieces.getLast cuts.ne_nil).length := by
    rw [List.length_flatten, sizes_split cuts.ne_nil, List.sum_append, List.sum_singleton]
  refine read_entries ?_ encodes.entries (count ▸ fits)
    (List.length_pos_iff.mpr (cuts.piece_ne_nil _ (List.getLast_mem cuts.ne_nil))) ?_
  · exact List.ne_nil_of_length_pos (by omega)
  · rw [count, encodes.size]
    omega

theorem Encodes.refused (encodes : Encodes length sn before pieces after pdu)
    (many : maxLiPerPdu < pieces.length - 1) (size : Int) :
    (readLengthIndicators pdu.mem length.headerMin size).accepted = false :=
  refused_entries encodes.entries (by rw [List.length_map, List.length_dropLast]; exact many) size

end Decode

/-- The pieces of a PDU put to the SDU in construction: every one but the last ends its SDU. -/
def Assembly.takePieces (a : Assembly) (config : Config) : List (List UInt8) → Assembly
  | [] => a
  | [piece] => a.reassembly config piece
  | piece :: next :: rest => ((a.reassembly config piece).sendSdu).takePieces config (next :: rest)

section Pieces

variable {config : Config} {a : Assembly} {before after : Backlog} {pieces : List (List UInt8)}

theorem takePieces_cons {piece : List UInt8} (more : pieces ≠ []) :
    a.takePieces config (piece :: pieces) =
    ((a.reassembly config piece).sendSdu).takePieces config pieces := by
  cases pieces with
  | nil => exact absurd rfl more
  | cons next rest => rfl

theorem reassembleLis_take (mem : Memory) (data last : Nat) (lis : List Nat) (a : Assembly) :
    (a.reassembleLis config mem data lis).2.reassembly config
      (bytesAt mem (a.reassembleLis config mem data lis).1 last) =
        a.takePieces config (chunks mem data (lis ++ [last])) := by
  induction lis generalizing data a with
  | nil => rfl
  | cons li rest ih =>
    rw [Assembly.reassembleLis, ih, List.cons_append, chunks, takePieces_cons]
    cases rest <;> exact List.cons_ne_nil _ _

theorem reassembly_fits {piece : List UInt8} (some : piece ≠ [])
    (fits : a.outputSdu.length + piece.length ≤ config.sduMaxSize) :
    a.reassembly config piece = { a with outputSdu := a.outputSdu ++ piece } := by
  unfold Assembly.reassembly
  rw [if_neg (fun none => some (List.eq_nil_of_length_eq_zero none)), if_pos fits]

theorem sendSdu_some (some : a.outputSdu ≠ []) :
    a.sendSdu = { a with delivered := a.delivered ++ [a.outputSdu], outputSdu := [] } :=
  if_pos (List.length_pos_iff.mpr some)

theorem sendSdu_reassembly {piece : List UInt8} (some : piece ≠ [])
    (fits : (a.outputSdu ++ piece).length ≤ config.sduMaxSize) :
    (a.reassembly config piece).sendSdu =
      { a with delivered := a.delivered ++ [a.outputSdu ++ piece], outputSdu := [] } := by
  rw [List.length_append] at fits
  rw [reassembly_fits some fits, sendSdu_some (List.append_ne_nil_of_right_ne_nil _ some)]

/-- What the pieces of a PDU make of the SDUs; the last piece may end its SDU. -/
def Assembly.take (a : Assembly) (config : Config) (pieces : List (List UInt8))
    (after : Backlog) : Assembly :=
  if after.sent = [] then (a.takePieces config pieces).sendSdu else a.takePieces config pieces

/-- With all that was sent of the open SDU at hand, the SDUs that a PDU ends are delivered as
they were sent. -/
theorem take_cuts (cuts : Cuts before pieces after) (output : a.outputSdu = before.sent)
    (fit : ∀ sdu ∈ before.sdus, sdu.length ≤ config.sduMaxSize) :
    ∃ done, before.sdus = done ++ after.sdus ∧
      a.take config pieces after =
      { a with outputSdu := after.sent, delivered := a.delivered ++ done } := by
  induction cuts generalizing a with
  | @ends sent piece sdus some =>
    refine ⟨[sent ++ piece], rfl, ?_⟩
    have whole : (a.reassembly config piece).sendSdu = _ :=
      sendSdu_reassembly some (by rw [output]; exact fit _ List.mem_cons_self)
    rw [output] at whole
    exact (if_pos rfl).trans whole
  | @opens sent piece rest sdus some more =>
    refine ⟨[], rfl, ?_⟩
    have fits : a.outputSdu.length + piece.length ≤ config.sduMaxSize := by
      have room : (sent ++ piece ++ rest).length ≤ config.sduMaxSize := fit _ List.mem_cons_self
      rw [output]
      simp only [List.length_append] at room ⊢
      omega
    have part : a.takePieces config [piece] = _ := reassembly_fits some fits
    rw [Assembly.take, if_neg (List.append_ne_nil_of_right_ne_nil _ some), part, output,
      List.append_nil]
  | @next sent piece sdus pieces after some rest ih =>
    have whole : (a.reassembly config piece).sendSdu = _ :=
      sendSdu_reassembly some (by rw [output]; exact fit _ List.mem_cons_self)
    obtain ⟨done, split, taken⟩ := @ih (a.reassembly config piece).sendSdu (by rw [whole])
      (fun sdu member => fit sdu (List.mem_cons_of_mem _ member))
    refine ⟨(sent ++ piece) :: done, congrArg (_ :: ·) split, ?_⟩
    have behind : a.take config (piece :: pieces) after =
        (a.reassembly config piece).sendSdu.take config pieces after := by
      simp only [Assembly.take, takePieces_cons rest.ne_nil]
    rw [behind, taken, whole, output, List.append_assoc]
    rfl

end Pieces

/-- The SDUs have followed the sender from one backlog to the next: nothing of the open SDU is
at hand when a PDU is missing, all that was sent of it otherwise, and of the SDUs ended some
have been delivered. -/
structure Joined (a : Assembly) (before after : Backlog) (b : Assembly) : Prop where
  last : b.lastReassembliedSn = a.lastReassembliedSn
  output : b.outputSdu = if b.missingSnDetected then [] else after.sent
  delivered : ∃ done fresh, before.sdus = done ++ after.sdus ∧ b.delivered = a.delivered ++ fresh ∧
    fresh.Sublist done

section Join

variable {config : Config} {a : Assembly} {sn : Nat} {before after : Backlog}
    {pieces : List (List UInt8)} {pdu : Pdu}

theorem Joined.silent {b : Assembly} (cuts : Cuts before pieces after)
    (last : b.lastReassembliedSn = a.lastReassembliedSn)
    (delivered : b.delivered = a.delivered)
    (output : b.outputSdu = if b.missingSnDetected then [] else after.sent) :
    Joined a before after b := by
  obtain ⟨done, split⟩ := cuts.suffix
  exact ⟨last, output, done, [], split, by rw [delivered, List.append_nil], List.nil_sublist done⟩

theorem Joined.taken {b : Assembly} (cuts : Cuts before pieces after)
    (output : a.outputSdu = before.sent)
    (fit : ∀ sdu ∈ before.sdus, sdu.length ≤ config.sduMaxSize)
    (took : b = { a.take config pieces after with missingSnDetected := false }) :
    Joined a before after b := by
  obtain ⟨done, split, taken⟩ := take_cuts cuts output fit
  rw [taken] at took
  subst took
  exact ⟨rfl, rfl, done, done, split, rfl, List.Sublist.refl done⟩

theorem clearRxSdu_of_nil (empty : a.outputSdu = []) : a.clearRxSdu = a := by
  unfold Assembly.clearRxSdu
  rw [← empty]

theorem joinPdu_single {piece : List UInt8}
    (encodes : Encodes config.snLength sn before [piece] after pdu)
    (cuts : Cuts before [piece] after)
    (output : a.outputSdu = if a.missingSnDetected then [] else before.sent)
    (fit : ∀ sdu ∈ before.sdus, sdu.length ≤ config.sduMaxSize) :
    Joined a before after (a.joinPdu config pdu) := by
  have e : fixedE config.snLength pdu.mem = 0 := encodes.e
  have size := encodes.size
  have payload := encodes.payload
  simp only [List.length_singleton, Nat.sub_self, headerLiLength, List.flatten_singleton,
    Nat.add_zero, Nat.zero_div, Nat.zero_mod] at size payload
  have bytes :
      bytesAt pdu.mem config.snLength.headerMin (pdu.size - config.snLength.headerMin) = piece := by
    rw [size, Nat.add_sub_cancel_left]
    exact payload
  have fi := encodes.fi
  simp only [Assembly.joinPdu, e, if_true, bytes, fi]
  by_cases starts : before.sent = []
  · -- the piece starts an SDU, and whatever was in construction has been given up
    have empty : a.outputSdu = [] := by rw [output, starts, ite_self]
    apply Joined.taken cuts (empty.trans starts.symm) fit
    by_cases ends : after.sent = []
    · simp only [starts, ends, if_true, Assembly.reassembleWhole, clearRxSdu_of_nil empty,
        Assembly.take, Assembly.takePieces]
    · simp only [starts, ends, if_true, if_false, Assembly.reassembleWhole,
        clearRxSdu_of_nil empty, Assembly.take, Assembly.takePieces]
  · cases missing : a.missingSnDetected with
    | false =>
      rw [missing] at output
      apply Joined.taken cuts output fit
      by_cases ends : after.sent = []
      · simp only [starts, ends, if_true, if_false, Assembly.reassembleWhole, missing,
          Assembly.take, Assembly.takePieces]
      · have kept : (a.reassembly config piece).missingSnDetected = false := by
          unfold Assembly.reassembly
          split
          · exact missing
          · split <;> exact missing
        simp only [starts, ends, if_true, if_false, Assembly.reassembleWhole, missing,
          Assembly.take, Assembly.takePieces]
        rw [← kept]
    | true =>
      rw [missing] at output
      by_cases ends : after.sent = []
      · simp only [starts, ends, if_true, if_false, Assembly.reassembleWhole, missing]
        exact Joined.silent cuts rfl rfl (output.trans ends.symm)
      · simp only [starts, ends, if_false, Assembly.reassembleWhole, missing, Bool.true_eq_false]
        refine Joined.silent cuts rfl rfl ?_
        rw [missing]
        exact output

/-- A PDU with several pieces, of which those that are not skipped are taken. -/
theorem reassembleConcatenated_take {mem : Memory} {fi data last base : Nat} {lis others : List Nat}
    (skip : a.skipFirst fi data lis = (base, others))
    (parts : chunks mem base (others ++ [last]) = pieces) (some : 0 < last)
    (ends : fi = 0 ∨ fi = 2 ↔ after.sent = [])
    (kept : (if fi = 2 ∨ fi = 3 then a else a.clearRxSdu) = a) :
    a.reassembleConcatenated config fi mem data lis last =
    { a.take config pieces after with missingSnDetected := false } := by
  have size : (last : Int) > 0 := Int.natCast_pos.mpr some
  simp only [Assembly.reassembleConcatenated, skip, kept, size, if_true, and_true,
    Int.toNat_natCast, reassembleLis_take, parts, ends, Assembly.take]

theorem joinPdu_several (encodes : Encodes config.snLength sn before pieces after pdu)
    (cuts : Cuts before pieces after)
    (several : 1 < pieces.length) (accepted : pieces.length - 1 ≤ maxLiPerPdu)
    (output : a.outputSdu = if a.missingSnDetected then [] else before.sent)
    (fit : ∀ sdu ∈ before.sdus, sdu.length ≤ config.sduMaxSize) :
    Joined a before after (a.joinPdu config pdu) := by
  have e : fixedE config.snLength pdu.mem = 1 := encodes.e.trans (if_neg (by omega))
  have last := List.length_pos_iff.mpr (cuts.piece_ne_nil _ (List.getLast_mem cuts.ne_nil))
  have parts := chunks_flatten encodes.payload
  rw [sizes_split cuts.ne_nil] at parts
  have ends : fixedFi config.snLength pdu.mem = 0 ∨ fixedFi config.snLength pdu.mem = 2 ↔
      after.sent = [] := by
    rw [encodes.fi]
    split <;> split <;> simp [*]
  have continues : fixedFi config.snLength pdu.mem = 2 ∨ fixedFi config.snLength pdu.mem = 3 ↔
      before.sent ≠ [] := by
    rw [encodes.fi]
    split <;> split <;> simp [*]
  have join : a.joinPdu config pdu = a.reassembleConcatenated config
    (fixedFi config.snLength pdu.mem) pdu.mem
      (config.snLength.headerMin + headerLiLength (pieces.length - 1))
        (pieces.dropLast.map List.length)
      (pieces.getLast cuts.ne_nil).length := by
    simp only [Assembly.joinPdu, e, Nat.one_ne_zero, if_false,
      encodes.read cuts several accepted, if_true, headerLiLength_shift, List.length_map,
        List.length_dropLast]
  rw [join]
  by_cases skips : before.sent ≠ [] ∧ a.missingSnDetected = true
  · -- the first piece is left out, the others are those of a PDU that starts an SDU
    obtain ⟨open', missing⟩ := skips
    rw [missing] at output
    cases cuts with
    | ends some => exact absurd several (Nat.lt_irrefl 1)
    | opens some more => exact absurd several (Nat.lt_irrefl 1)
    | @next sent piece sdus rest after some cuts =>
      have skip : a.skipFirst (fixedFi config.snLength pdu.mem)
          (config.snLength.headerMin + headerLiLength ((piece :: rest).length - 1))
            ((piece :: rest).dropLast.map List.length) =
          (config.snLength.headerMin + headerLiLength ((piece :: rest).length - 1) + piece.length,
            rest.dropLast.map List.length) := by
        simp only [Assembly.skipFirst, continues.mpr open', missing, and_true, if_true,
          List.dropLast_cons_of_ne_nil cuts.ne_nil, List.map_cons, List.headD_cons, List.tail_cons]
      rw [List.dropLast_cons_of_ne_nil cuts.ne_nil, List.map_cons, List.cons_append, chunks]
        at parts
      have behind : Joined a ⟨[], sdus⟩ after _ := Joined.taken cuts output
        (fun sdu member => fit sdu (List.mem_cons_of_mem _ member))
        (reassembleConcatenated_take skip (List.cons.inj parts).2 last ends
          (if_pos (continues.mpr open')))
      obtain ⟨done, fresh, split, delivered, sub⟩ := behind.delivered
      exact ⟨behind.last, behind.output, _ :: done, fresh, congrArg (_ :: ·) split,
        delivered, sub.cons _⟩
  · have skip :
      a.skipFirst (fixedFi config.snLength pdu.mem)
      (config.snLength.headerMin + headerLiLength (pieces.length - 1))
        (pieces.dropLast.map List.length) = _ :=
          if_neg (fun both => skips ⟨continues.mp both.1, both.2⟩)
    have heard : a.outputSdu = before.sent := by
      rw [output]
      split
      · rename_i missing
        exact (not_not.mp fun open' => skips ⟨open', missing⟩).symm
      · rfl
    refine Joined.taken cuts heard fit (reassembleConcatenated_take skip parts last ends ?_)
    by_cases starts : before.sent = []
    · rw [if_neg (fun both => continues.mp both starts), clearRxSdu_of_nil (heard.trans starts)]
    · exact if_pos (continues.mpr starts)

/-- A PDU that starts an SDU and has more indicators than the decoder takes. -/
theorem joinPdu_overfull (encodes : Encodes config.snLength sn before pieces after pdu)
    (cuts : Cuts before pieces after)
    (many : maxLiPerPdu < pieces.length - 1) (starts : before.sent = [])
    (output : a.outputSdu = if a.missingSnDetected then [] else before.sent) :
    Joined a before after (a.joinPdu config pdu) := by
  have e : fixedE config.snLength pdu.mem = 1 := encodes.e.trans (if_neg (by omega))
  have join : a.joinPdu config pdu = { a with missingSnDetected := true } := by
    simp only [Assembly.joinPdu, e, Nat.one_ne_zero, if_false, encodes.refused many,
      Bool.false_eq_true]
  rw [join]
  refine Joined.silent cuts rfl rfl ?_
  have empty : a.outputSdu = [] := by rw [output, starts, ite_self]
  exact empty

end Join

/-- A PDU that continues an SDU has no more indicators than the decoder takes. -/
def Acceptable (config : Config) (pdu : Pdu) : Prop :=
  2 ≤ fixedFi config.snLength pdu.mem → fixedE config.snLength pdu.mem ≠ 0 →
    Ends pdu.mem config.snLength.headerMin

theorem Encodes.ends {length : SnLength} {sn : Nat} {before after : Backlog}
    {pieces : List (List UInt8)} {pdu : Pdu}
    (encodes : Encodes length sn before pieces after pdu) (ends : Ends pdu.mem length.headerMin) :
    pieces.length - 1 ≤ maxLiPerPdu := by
  obtain ⟨k, inside, clear⟩ := ends
  by_contra many
  have count : (pieces.dropLast.map List.length).length = pieces.length - 1 := by
    rw [List.length_map, List.length_dropLast]
  have bit := encodes.entries.e (show k < _ by omega)
  rw [Nat.zero_add, clear, eq_comm, decide_eq_false_iff_not] at bit
  omega

theorem joinPdu_joined {config : Config} {a : Assembly} {sn : Nat} {before after : Backlog}
    {pieces : List (List UInt8)}
    {pdu : Pdu} (encodes : Encodes config.snLength sn before pieces after pdu)
    (cuts : Cuts before pieces after)
    (acceptable : Acceptable config pdu)
    (output : a.outputSdu = if a.missingSnDetected then [] else before.sent)
    (fit : ∀ sdu ∈ before.sdus, sdu.length ≤ config.sduMaxSize) :
    Joined a before after (a.joinPdu config pdu) := by
  have positive := List.length_pos_iff.mpr cuts.ne_nil
  by_cases single : pieces.length = 1
  · obtain ⟨piece, rfl⟩ := List.length_eq_one_iff.mp single
    exact joinPdu_single encodes cuts output fit
  · have several : 1 < pieces.length := by omega
    by_cases accepted : pieces.length - 1 ≤ maxLiPerPdu
    · exact joinPdu_several encodes cuts several accepted output fit
    · have starts : before.sent = [] := by
        by_contra open'
        refine accepted (encodes.ends (acceptable ?_ ?_))
        · rw [encodes.fi, if_neg open']
          exact Nat.le_add_right 2 _
        · rw [encodes.e, if_neg single]
          exact Nat.one_ne_zero
      exact joinPdu_overfull encodes cuts (Nat.not_le.mp accepted) starts output

end OpenAir.Rlc.Um
