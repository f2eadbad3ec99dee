import OpenAir.Rlc.Am.DataPduFields

/-! How a PDU is cut out of the sizes of the queued SDUs: which pieces it takes when
the length indicators between them have to fit too, and how many bytes stay unused. -/
namespace OpenAir.Rlc.Am

/-- The header bytes that the `k`-th length indicator adds. -/
def liBytes (k : Nat) : Nat := 2 - k % 2

theorem headerLiLength_liBytes (k : Nat) : headerLiLength (k + 1) = headerLiLength k + liBytes k :=
  headerLiLength_succ k

theorem headerLiLength_mono {j k : Nat} (le : j ≤ k) : headerLiLength j ≤ headerLiLength k := by
  simp only [headerLiLength]
  omega

/-- The header bytes of `n` indicators as the source counts them. -/
theorem headerLiLength_shift (n : Nat) : (n * 3 + 1) >>> 1 = headerLiLength n := by
  rw [Nat.shiftRight_eq_div_pow, headerLiLength]
  omega

theorem liBytes_pos (k : Nat) : 0 < liBytes k := by
  simp only [liBytes]
  omega

/-- The length of the `k`-th indicator as the source toggles it. -/
theorem toggle_li (k : Nat) : (1 + k % 2) ^^^ 3 = liBytes k := by
  rw [liBytes]
  rcases Nat.mod_two_eq_zero_or_one k with even | odd
  · rw [even]; rfl
  · rw [odd]; rfl

theorem liBytes_next (k : Nat) : liBytes k = 1 + (k + 1) % 2 := by
  simp only [liBytes]
  omega

/-- The pieces taken for `room` bytes, from the `k`-th piece on: SDUs are taken whole
while another piece and the indicator before it still fit. -/
@[grind =]
def cut : Nat → Nat → List Nat → List Nat
  | _, _, [] => []
  | room, k, size :: rest =>
    if room ≤ size then [room]
    else if size + liBytes k < room ∧ k < maxSduInPdu - 1 then
      size :: cut (room - (size + liBytes k)) (k + 1) rest
    else [size]

/-- The bytes of the room that no piece fills. -/
def waste : Nat → Nat → List Nat → Nat
  | room, _, [] => room
  | room, k, size :: rest =>
    if room ≤ size then 0
    else if size + liBytes k < room ∧ k < maxSduInPdu - 1 then
      waste (room - (size + liBytes k)) (k + 1) rest
    else room - size

def cutEnds : Nat → Nat → List Nat → Bool
  | _, _, [] => true
  | room, k, size :: rest =>
    if room ≤ size then decide (room = size)
    else if size + liBytes k < room ∧ k < maxSduInPdu - 1 then
      cutEnds (room - (size + liBytes k)) (k + 1) rest
    else true

/-- The room is no more than the SDUs and the indicators between them need. -/
def Needed (room k : Nat) (sizes : List Nat) : Prop :=
  sizes ≠ [] ∧ room + headerLiLength k ≤ sizes.sum + headerLiLength (k + (sizes.length - 1))

theorem Needed.tail {room k size : Nat} {rest : List Nat} (needed : Needed room k (size :: rest))
    (more : size + liBytes k < room) : Needed (room - (size + liBytes k)) (k + 1) rest := by
  obtain ⟨-, bound⟩ := needed
  have header := headerLiLength_liBytes k
  cases rest with
  | nil =>
    simp only [List.sum_cons, List.sum_nil, List.length_cons, List.length_nil] at bound
    simp only [Nat.add_zero, Nat.zero_add, Nat.sub_self] at bound
    omega
  | cons next rest =>
    refine ⟨List.cons_ne_nil _ _, ?_⟩
    simp only [List.sum_cons, List.length_cons] at bound ⊢
    have place : k + (rest.length + 1 + 1 - 1) = k + 1 + (rest.length + 1 - 1) := by omega
    rw [place] at bound
    omega

theorem Needed.mono {room less k : Nat} {sizes : List Nat} (needed : Needed room k sizes)
    (le : less ≤ room) :
    Needed less k sizes :=
  ⟨needed.1, Nat.le_trans (Nat.add_le_add_right le _) needed.2⟩

theorem cut_ne_nil {room k : Nat} {sizes : List Nat} (some : sizes ≠ []) :
    cut room k sizes ≠ [] := by
  cases sizes with
  | nil => exact absurd rfl some
  | cons size rest =>
    rw [cut]
    split
    · exact List.cons_ne_nil _ _
    · split <;> exact List.cons_ne_nil _ _

theorem cut_length_le (room k : Nat) (sizes : List Nat) :
    (cut room k sizes).length ≤ sizes.length := by
  induction sizes generalizing room k with
  | nil => simp [cut]
  | cons size rest ih =>
    rw [cut]
    split
    · simp
    · split
      · simpa using ih _ _
      · simp

/-- At most as many pieces as a PDU has indicators and one more. -/
theorem cut_length_max {room k : Nat} (sizes : List Nat) (below : k < maxSduInPdu) :
    k + (cut room k sizes).length ≤ maxSduInPdu := by
  induction sizes generalizing room k with
  | nil =>
    simp only [cut, List.length_nil]
    omega
  | cons size rest ih =>
    rw [cut]
    split
    · exact below
    · split
      · rename_i more
        have := @ih (room - (size + liBytes k)) (k + 1)
          (by simp only [maxSduInPdu] at more ⊢; omega)
        simp only [List.length_cons]
        omega
      · exact below

theorem cut_pos {room k : Nat} {sizes : List Nat} (roomPos : 0 < room)
    (sizesPos : ∀ size ∈ sizes, 0 < size) :
    ∀ piece ∈ cut room k sizes, 0 < piece := by
  induction sizes generalizing room k with
  | nil => simp [cut]
  | cons size rest ih =>
    have here := sizesPos size List.mem_cons_self
    rw [cut]
    split
    · simpa using roomPos
    · split
      · intro piece member
        rcases List.mem_cons.mp member with rfl | later
        · exact here
        · exact ih (by omega)
            (fun size member => sizesPos size (List.mem_cons_of_mem _ member)) piece later
      · simpa using here

theorem cut_getD_le (room k : Nat) (sizes : List Nat) (j : Nat) :
    (cut room k sizes).getD j 0 ≤ sizes.getD j 0 := by
  induction sizes generalizing room k j with
  | nil => simp [cut]
  | cons size rest ih =>
    rw [cut]
    split
    · cases j with
      | zero => simpa
      | succ j => simp
    · split
      · cases j with
        | zero => simp
        | succ j => simpa using ih _ _ j
      · cases j with
        | zero => simp
        | succ j => simp

theorem cut_whole {room k : Nat} {sizes : List Nat} {j : Nat}
    (inner : j + 1 < (cut room k sizes).length) :
    (cut room k sizes).getD j 0 = sizes.getD j 0 := by
  induction sizes generalizing room k j with
  | nil => simp [cut] at inner
  | cons size rest ih =>
    rw [cut] at inner ⊢
    split at inner
    · simp at inner
    · rename_i beyond
      rw [if_neg beyond]
      split at inner
      · rename_i more
        rw [if_pos more]
        cases j with
        | zero => rfl
        | succ j =>
          simp only [List.getD_cons_succ]
          exact ih (by simpa using inner)
      · simp at inner

theorem cutEnds_eq {room k : Nat} {sizes : List Nat} (needed : Needed room k sizes) :
    cutEnds room k sizes = decide ((cut room k sizes).getD ((cut room k sizes).length - 1) 0 =
      sizes.getD ((cut room k sizes).length - 1) 0) := by
  induction sizes generalizing room k with
  | nil => exact absurd rfl needed.1
  | cons size rest ih =>
    rw [cut, cutEnds]
    split
    · rfl
    · split
      · rename_i more
        rw [ih (needed.tail more.1)]
        have length := List.length_pos_iff.mpr (@cut_ne_nil (room - (size + liBytes k)) (k + 1) rest
          (needed.tail more.1).1)
        generalize cut (room - (size + liBytes k)) (k + 1) rest = pieces at length ⊢
        obtain ⟨last, same⟩ : ∃ last, pieces.length = last + 1 := ⟨pieces.length - 1, by omega⟩
        simp [List.length_cons, same]
      · simp

/-- The room goes to the pieces, the indicators between them and what stays unused. -/
theorem cut_account {room k : Nat} {sizes : List Nat} (needed : Needed room k sizes) :
    room + headerLiLength k =
      (cut room k sizes).sum + headerLiLength (k + ((cut room k sizes).length - 1)) +
      waste room k sizes := by
  induction sizes generalizing room k with
  | nil => exact absurd rfl needed.1
  | cons size rest ih =>
    rw [cut, waste]
    split
    · simp
    · split
      · rename_i more
        have tail := ih (needed.tail more.1)
        have header := headerLiLength_liBytes k
        have length : 0 < (cut (room - (size + liBytes k)) (k + 1) rest).length :=
          List.length_pos_iff.mpr (cut_ne_nil (needed.tail more.1).1)
        simp only [List.sum_cons, List.length_cons, Nat.add_sub_cancel]
        rw [show k + (cut (room - (size + liBytes k)) (k + 1) rest).length =
          k + 1 + ((cut (room - (size + liBytes k)) (k + 1) rest).length - 1) by omega]
        omega
      · simp only [List.sum_cons, List.sum_nil, List.length_cons, List.length_nil,
          Nat.zero_add, Nat.sub_self, Nat.add_zero]
        omega

/-- The room is filled to its last byte within the number of indicators allowed. -/
def Exact : Nat → Nat → List Nat → Prop
  | _, _, [] => False
  | room, k, size :: rest =>
    room ≤ size ∨ size + liBytes k < room ∧ k < maxSduInPdu - 1 ∧
      Exact (room - (size + liBytes k)) (k + 1) rest

theorem Exact.waste {room k : Nat} {sizes : List Nat} (exact : Exact room k sizes) :
    waste room k sizes = 0 := by
  induction sizes generalizing room k with
  | nil => exact exact.elim
  | cons size rest ih =>
    rw [Am.waste]
    rcases exact with last | ⟨more, few, tail⟩
    · rw [if_pos last]
    · rw [if_neg (by omega), if_pos ⟨more, few⟩]
      exact ih tail

end OpenAir.Rlc.Am
