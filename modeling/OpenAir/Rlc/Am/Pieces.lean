import OpenAir.Rlc.Am.Reassembly

/-! The SDU pieces of a PDU that is sent again as segments: what is left of them behind
an offset, where a grant cuts them, and what the reassembly makes of the parts. -/
namespace OpenAir.Rlc.Am
open BitField

/-- The pieces from the byte `so` on. -/
@[grind =]
def piecesFrom : Nat → List Nat → List Nat
  | _, [] => []
  | so, piece :: rest => if so < piece then (piece - so) :: rest else piecesFrom (so - piece) rest

section PiecesFrom

variable {pieces : List Nat}

theorem piecesFrom_zero (pos : ∀ piece ∈ pieces, 0 < piece) : piecesFrom 0 pieces = pieces := by
  cases pieces with
  | nil => rfl
  | cons piece rest => rw [piecesFrom, if_pos (pos piece List.mem_cons_self), Nat.sub_zero]

theorem piecesFrom_append (front rest : List Nat) (more : Nat) :
    piecesFrom (front.sum + more) (front ++ rest) = piecesFrom more rest := by
  induction front with
  | nil => rw [List.sum_nil, Nat.zero_add, List.nil_append]
  | cons piece front ih =>
    rw [List.cons_append, piecesFrom, List.sum_cons, if_neg (by omega), Nat.add_assoc,
      Nat.add_sub_cancel_left, ih]

theorem piecesFrom_pos (pos : ∀ piece ∈ pieces, 0 < piece)
    (so : Nat) : ∀ piece ∈ piecesFrom so pieces, 0 < piece := by
  induction pieces generalizing so with
  | nil => simp [piecesFrom]
  | cons piece rest ih =>
    rw [piecesFrom]
    have later : ∀ piece ∈ rest, 0 < piece :=
      fun piece member => pos piece (List.mem_cons_of_mem _ member)
    split
    · intro part member
      rcases List.mem_cons.mp member with rfl | inside
      · omega
      · exact later part inside
    · exact ih later _

theorem piecesFrom_sum (so : Nat) (pieces : List Nat) : (piecesFrom so pieces).sum =
    pieces.sum - so := by
  induction pieces generalizing so with
  | nil => simp [piecesFrom]
  | cons piece rest ih =>
    rw [piecesFrom, List.sum_cons]
    split
    · rw [List.sum_cons]
      omega
    · rw [ih]
      omega

theorem piecesFrom_length (so : Nat) (pieces : List Nat) : (piecesFrom so pieces).length ≤
    pieces.length := by
  induction pieces generalizing so with
  | nil => exact Nat.le_refl _
  | cons piece rest ih =>
    rw [piecesFrom]
    split
    · exact Nat.le_refl _
    · exact (ih _).trans (Nat.le_succ _)

theorem piecesFrom_add (so more : Nat) (pieces : List Nat) :
    piecesFrom (so + more) pieces = piecesFrom more (piecesFrom so pieces) := by
  induction pieces generalizing so with
  | nil => rfl
  | cons piece rest ih =>
    rw [piecesFrom, piecesFrom]
    by_cases here : so < piece
    · rw [if_pos here, piecesFrom]
      by_cases both : so + more < piece
      · rw [if_pos both, if_pos (by omega), Nat.sub_sub]
      · rw [if_neg both, if_neg (by omega), show so + more - piece = more - (piece - so) by omega]
    · rw [if_neg here, if_neg (by omega), show so + more - piece = so - piece + more by omega, ih]

theorem piecesFrom_cons {so part : Nat} {rest : List Nat}
    (left : piecesFrom so pieces = part :: rest) :
    ∃ front piece, pieces = front ++ piece :: rest ∧ part ≤ piece ∧ 0 < part ∧
      so = front.sum + (piece - part) := by
  induction pieces generalizing so with
  | nil => cases left
  | cons piece pieces ih =>
    rw [piecesFrom] at left
    split at left
    · cases left
      exact ⟨[], piece, rfl, by omega, by omega, by simp only [List.sum_nil]; omega⟩
    · obtain ⟨front, inner, rfl, le, positive, offset⟩ := ih left
      refine ⟨piece :: front, inner, rfl, le, positive, ?_⟩
      rw [List.sum_cons]
      omega

end PiecesFrom

/-- The offsets inside the PDU where one SDU ends and the next starts. -/
def innerBoundaries (pieces : List Nat) : List Nat :=
  (List.range (pieces.length - 1)).map fun k => (pieces.take (k + 1)).sum

theorem mem_innerBoundaries {pieces : List Nat} {so : Nat} :
    so ∈ innerBoundaries pieces ↔ ∃ front rest, front ≠ [] ∧ rest ≠ [] ∧ pieces = front ++ rest ∧
    so = front.sum := by
  rw [innerBoundaries, List.mem_map]
  constructor
  · rintro ⟨k, inside, rfl⟩
    rw [List.mem_range] at inside
    refine ⟨pieces.take (k + 1), pieces.drop (k + 1), ?_, ?_, (List.take_append_drop _ _).symm, rfl⟩
    · rw [ne_eq, List.take_eq_nil_iff]
      rintro (none | rfl)
      · omega
      · simp at inside
    · rw [ne_eq, List.drop_eq_nil_iff]
      omega
  · rintro ⟨front, rest, some, more, rfl, rfl⟩
    have first := List.length_pos_iff.mpr some
    have second := List.length_pos_iff.mpr more
    refine ⟨front.length - 1, List.mem_range.mpr (by rw [List.length_append]; omega), ?_⟩
    rw [show front.length - 1 + 1 = front.length by omega, List.take_left]

/-- How a cut parts a list of pieces: behind one of them, or inside. -/
inductive Parted (parts : List Nat) : List Nat → List Nat → Prop
  | behind (rest : List Nat) : Parted parts (parts ++ rest) rest
  | inside (front : List Nat) (part more : Nat) (rest : List Nat) (some : 0 < more)
      (same : parts = front ++ [part]) :
    Parted parts (front ++ (part + more) :: rest) (more :: rest)

theorem Parted.sum {parts whole left : List Nat} (parted : Parted parts whole left) :
    whole.sum = parts.sum + left.sum := by
  cases parted with
  | behind => exact List.sum_append
  | inside front part more rest some same =>
    rw [same]
    simp only [List.sum_append, List.sum_cons, List.sum_nil]
    omega

theorem cut_parted {room k : Nat} {sizes : List Nat} (pos : ∀ size ∈ sizes, 0 < size) :
    Parted (cut room k sizes) sizes (piecesFrom (cut room k sizes).sum sizes) := by
  induction sizes generalizing room k with
  | nil => exact .behind []
  | cons size rest ih =>
    have later : ∀ size ∈ rest, 0 < size :=
      fun size member => pos size (List.mem_cons_of_mem _ member)
    rw [cut]
    split
    · rename_i le
      by_cases whole : room = size
      · subst whole
        rw [List.sum_singleton, piecesFrom, if_neg (Nat.lt_irrefl _), Nat.sub_self,
          piecesFrom_zero later]
        exact .behind rest
      · rw [List.sum_singleton, piecesFrom, if_pos (by omega)]
        have parted := @Parted.inside [room] [] room (size - room) rest (by omega) rfl
        rwa [List.nil_append, Nat.add_sub_cancel' le] at parted
    · split
      · rename_i more
        have tail := @ih (room - (size + liBytes k)) (k + 1) later
        rw [List.sum_cons, piecesFrom, if_neg (by omega), Nat.add_sub_cancel_left]
        generalize piecesFrom _ rest = left at tail ⊢
        generalize cut _ _ rest = parts at tail ⊢
        cases tail with
        | behind => exact .behind left
        | inside front part more rest some same =>
          exact .inside (size :: front) part more rest some (by rw [same]; rfl)
      · rw [List.sum_singleton, piecesFrom, if_neg (Nat.lt_irrefl _), Nat.sub_self,
          piecesFrom_zero later]
        exact .behind rest

section Feed

variable {mem : Memory} {a : Assembly}

theorem chunks_append (mem : Memory) (j : Nat) (sizes more : List Nat) :
    chunks mem j (sizes ++ more) = chunks mem j sizes ++ chunks mem (j + sizes.sum) more := by
  induction sizes generalizing j with
  | nil => rfl
  | cons size rest ih =>
    rw [List.cons_append, chunks, ih, chunks, List.sum_cons, List.cons_append, Nat.add_assoc]

theorem chunks_length (mem : Memory) (j : Nat) (sizes : List Nat) : (chunks mem j sizes).length =
    sizes.length := by
  induction sizes generalizing j with
  | nil => rfl
  | cons size rest ih => rw [chunks, List.length_cons, ih, List.length_cons]

theorem chunks_ne_nil {j : Nat} {sizes : List Nat} (some : sizes ≠ []) :
    chunks mem j sizes ≠ [] := by
  cases sizes with
  | nil => exact absurd rfl some
  | cons size rest => exact List.cons_ne_nil _ _

theorem feedPieces_append {front rest : List (List UInt8)} (some : front ≠ []) (more : rest ≠ []) :
    feedPieces a (front ++ rest) = feedPieces (sendSdu (feedPieces a front)) rest := by
  induction front generalizing a with
  | nil => exact absurd rfl some
  | cons piece front ih =>
    rw [List.cons_append, feedPieces_cons (by simp [more])]
    by_cases last : front = []
    · subst last
      rfl
    · rw [ih last, feedPieces_cons last]

/-- No SDU outgrows its block when the pieces are fed. -/
def Roomy (a : Assembly) (sizes : List Nat) : Prop :=
  (∀ size ∈ sizes, size ≤ sduMaxSize) ∧ a.partialSdu.length + sizes.headD 0 ≤ sduMaxSize

/-- Behind an SDU that has been sent there is room for the next pieces. -/
theorem roomy_sent {sizes : List Nat} (each : ∀ size ∈ sizes, size ≤ sduMaxSize) :
    Roomy (sendSdu a) sizes := by
  refine ⟨each, ?_⟩
  rw [sendSdu_partialSdu, List.length_nil, Nat.zero_add]
  cases sizes with
  | nil => exact Nat.zero_le _
  | cons size rest => exact each size List.mem_cons_self

/-- The state in front of the pieces behind a run of whole pieces. -/
theorem feedPieces_front {j : Nat} {front sizes : List Nat} (roomy : Roomy a (front ++ sizes)) :
    ∃ b, Roomy b sizes ∧ ∀ more ≠ [], feedPieces a (chunks mem j (front ++ more)) =
      feedPieces b (chunks mem (j + front.sum) more) := by
  by_cases none : front = []
  · subst none
    exact ⟨a, roomy, fun more _ => rfl⟩
  · refine ⟨sendSdu (feedPieces a (chunks mem j front)), roomy_sent fun size member =>
      roomy.1 size (List.mem_append_right _ member), fun more some => ?_⟩
    rw [chunks_append, feedPieces_append (chunks_ne_nil none) (chunks_ne_nil some)]

/-- A cut inside a piece makes no difference to the reassembly. -/
theorem feedPieces_inside {j part more : Nat} {front rest : List Nat}
    (roomy : Roomy a (front ++ (part + more) :: rest)) :
    Roomy (feedPieces a (chunks mem j (front ++ [part]))) (more :: rest) ∧
    feedPieces (feedPieces a (chunks mem j (front ++ [part])))
      (chunks mem (j + (front ++ [part]).sum) (more :: rest)) =
      feedPieces a (chunks mem j (front ++ (part + more) :: rest)) := by
  obtain ⟨b, room, front'⟩ := @feedPieces_front mem a j _ _ roomy
  rw [front' [part] (List.cons_ne_nil _ _), front' ((part + more) :: rest) (List.cons_ne_nil _ _)]
  have length (i size : Nat) : (bytesAt mem i size).length = size := by simp [bytesAt]
  have fits : b.partialSdu.length + (part + more) ≤ sduMaxSize := room.2
  have here : feedPieces b (chunks mem (j + front.sum) [part]) =
      reassembly b (bytesAt mem (j + front.sum) part) := rfl
  have joined : reassembly (reassembly b (bytesAt mem (j + front.sum) part))
      (bytesAt mem (j + front.sum + part) more) =
          reassembly b (bytesAt mem (j + front.sum) (part + more)) := by
    rw [bytesAt_add]
    exact reassembly_append (by rw [List.length_append, length, length]; exact fits)
  rw [here, List.sum_append, List.sum_singleton, ← Nat.add_assoc, chunks, chunks]
  constructor
  · refine ⟨fun size member => ?_, ?_⟩
    · rcases List.mem_cons.mp member with rfl | later
      · exact (Nat.le_add_left _ _).trans ((Nat.le_add_left _ _).trans fits)
      · exact room.1 size (List.mem_cons_of_mem _ later)
    · rw [reassembly_fits (by rw [length]; omega)]
      simp only [Assembly.partialSdu, Option.getD_some, List.length_append, length, List.headD_cons]
        at fits ⊢
      omega
  · cases rest with
    | nil => exact joined
    | cons next rest =>
      have more : ∀ i, chunks mem i (next :: rest) ≠ [] :=
        fun i => chunks_ne_nil (List.cons_ne_nil _ _)
      rw [feedPieces_cons (more _), feedPieces_cons (more _), joined, Nat.add_assoc (j + front.sum)]

theorem feedPieces_length_le (a : Assembly) (pieces : List (List UInt8)) :
    (feedPieces a pieces).delivered.length ≤ a.delivered.length + (pieces.length - 1) := by
  fun_induction feedPieces a pieces with
  | case1 a => exact Nat.le_refl _
  | case2 a piece => rw [reassembly_delivered]; exact Nat.le_refl _
  | case3 a piece next rest ih =>
    have sent := @sendSdu_length_le (reassembly a piece)
    rw [reassembly_delivered] at sent
    simp only [List.length_cons] at ih ⊢
    omega

/-- Every piece but the last completes an SDU, and the last leaves one in construction. -/
theorem feedPieces_length {j : Nat} {sizes : List Nat} (roomy : Roomy a sizes)
    (pos : ∀ size ∈ sizes, 0 < size)
    (some : sizes ≠ []) :
    (feedPieces a (chunks mem j sizes)).delivered.length = a.delivered.length + (sizes.length - 1) ∧
    (feedPieces a (chunks mem j sizes)).partialSdu ≠ [] := by
  induction sizes generalizing a j with
  | nil => exact absurd rfl some
  | cons size rest ih =>
    have length : (bytesAt mem j size).length = size := by simp [bytesAt]
    have here : reassembly a (bytesAt mem j size) = _ :=
      reassembly_fits (by rw [length]; exact roomy.2)
    have nonempty : (reassembly a (bytesAt mem j size)).partialSdu ≠ [] := by
      rw [here]
      simp only [Assembly.partialSdu, Option.getD_some]
      apply List.append_ne_nil_of_right_ne_nil
      rw [← List.length_pos_iff, length]
      exact pos size List.mem_cons_self
    cases rest with
    | nil => exact ⟨by simp [chunks, feedPieces, reassembly_delivered], nonempty⟩
    | cons next rest =>
      rw [chunks, feedPieces_cons (chunks_ne_nil (List.cons_ne_nil _ _))]
      obtain ⟨count, last⟩ := @ih (sendSdu (reassembly a (bytesAt mem j size))) (j + size)
        (roomy_sent fun size member => roomy.1 size (List.mem_cons_of_mem _ member))
        (fun size member => pos size (List.mem_cons_of_mem _ member)) (List.cons_ne_nil _ _)
      refine ⟨?_, last⟩
      rw [count, sendSdu_length nonempty, reassembly_delivered]
      simp only [List.length_cons]
      omega

end Feed

end OpenAir.Rlc.Am
