import OpenAir.Rlc.Um.Segment
import OpenAir.Rlc.Am.Cut

/-! The pieces that a UMD PDU takes from the queue, the bytes that stay behind the last of them,
and what the first pass makes of these bytes. -/
namespace OpenAir.Rlc.Um
open Am (headerLiLength liBytes liBytes_pos liBytes_next toggle_li headerLiLength_liBytes Needed)

/-- The pieces taken for `room` bytes, from the `k`-th piece on: SDUs are taken whole while
another piece and the indicator before it still fit. -/
def cut : Nat → Nat → List Nat → List Nat
  | _, _, [] => []
  | room, k, size :: rest =>
    if room ≤ size then [room]
    else if size + liBytes k < room then size :: cut (room - (size + liBytes k)) (k + 1) rest
    else [size]

/-- The bytes that stay behind the last piece. -/
def leftOver : Nat → Nat → List Nat → Nat
  | _, _, [] => 0
  | room, k, size :: rest =>
    if room ≤ size then 0
    else if size + liBytes k < room then leftOver (room - (size + liBytes k)) (k + 1) rest
    else room - size

/-- The bytes that the next indicator would take. -/
def nextLi (room k : Nat) (sizes : List Nat) : Nat := liBytes (k + ((cut room k sizes).length - 1))

section Cut

variable {room k size : Nat} {sizes rest : List Nat}

theorem cut_ne_nil (some : sizes ≠ []) : cut room k sizes ≠ [] := by
  cases sizes with
  | nil => exact absurd rfl some
  | cons size rest =>
    rw [cut]
    split
    · exact List.cons_ne_nil _ _
    · split <;> exact List.cons_ne_nil _ _

theorem cut_last (fits : room ≤ size) : cut room k (size :: rest) = [room] ∧
    leftOver room k (size :: rest) = 0 := by
  rw [cut, leftOver, if_pos fits, if_pos fits]
  exact ⟨rfl, rfl⟩

theorem cut_more (more : size + liBytes k < room) :
    cut room k (size :: rest) = size :: cut (room - (size + liBytes k)) (k + 1) rest ∧
      leftOver room k (size :: rest) = leftOver (room - (size + liBytes k)) (k + 1) rest := by
  have past : ¬ room ≤ size := by omega
  rw [cut, leftOver, if_neg past, if_neg past, if_pos more, if_pos more]
  exact ⟨rfl, rfl⟩

theorem cut_short (ends : size < room) (short : room ≤ size + liBytes k) :
    cut room k (size :: rest) = [size] ∧ leftOver room k (size :: rest) = room - size := by
  have past : ¬ room ≤ size := Nat.not_le.mpr ends
  have full : ¬ size + liBytes k < room := Nat.not_lt.mpr short
  rw [cut, leftOver, if_neg past, if_neg past, if_neg full, if_neg full]
  exact ⟨rfl, rfl⟩

theorem nextLi_more (more : size + liBytes k < room) (some : rest ≠ []) :
    nextLi room k (size :: rest) = nextLi (room - (size + liBytes k)) (k + 1) rest := by
  have length : 0 < (cut (room - (size + liBytes k)) (k + 1) rest).length :=
    List.length_pos_iff.mpr (cut_ne_nil some)
  unfold nextLi
  rw [(cut_more more).1, List.length_cons]
  congr 1
  omega

/-- The cases of one SDU: it reaches the end of the room, another piece fits behind it, or the
bytes behind it do not hold an indicator and a byte more. -/
theorem room_cases (room k size : Nat) :
    room ≤ size ∨ size + liBytes k < room ∨ size < room ∧ room ≤ size + liBytes k := by
  omega

theorem leftOver_lt (needed : Needed room k sizes) (some : 0 < room)
    (positive : ∀ size ∈ sizes, 0 < size) :
    leftOver room k sizes < room := by
  induction sizes generalizing room k with
  | nil => exact absurd rfl needed.1
  | cons size rest ih =>
    have here := positive size List.mem_cons_self
    obtain last | more | ⟨ends, short⟩ := room_cases room k size
    · rw [(cut_last last).2]
      exact some
    · have behind :=
        ih (needed.tail more) (by omega)
        (fun size member => positive size (List.mem_cons_of_mem _ member))
      rw [(cut_more more).2]
      omega
    · rw [(cut_short ends short).2]
      omega

theorem cut_less {less : Nat} (needed : Needed room k sizes) (positive : ∀ size ∈ sizes, 0 < size)
    (some : 0 < room)
    (few : less ≤ leftOver room k sizes) :
    cut (room - less) k sizes = cut room k sizes ∧ leftOver (room - less) k sizes =
    leftOver room k sizes - less := by
  induction sizes generalizing room k with
  | nil => exact absurd rfl needed.1
  | cons size rest ih =>
    obtain last | more | ⟨ends, short⟩ := room_cases room k size
    · rw [(cut_last last).2] at few
      rw [Nat.le_zero.mp few]
      exact ⟨rfl, rfl⟩
    · have positiveRest : ∀ size ∈ rest, 0 < size :=
        fun size member => positive size (List.mem_cons_of_mem _ member)
      have tail := needed.tail more
      rw [(cut_more more).2] at few
      have room' := leftOver_lt tail (by omega) positiveRest
      have fits : size + liBytes k < room - less := by omega
      obtain ⟨pieces, behind⟩ := ih tail positiveRest (by omega) few
      rw [(cut_more more).1, (cut_more more).2, (cut_more fits).1, (cut_more fits).2,
        Nat.sub_right_comm, pieces, behind]
      exact ⟨rfl, rfl⟩
    · rw [(cut_short ends short).2] at few
      rw [(cut_short ends short).1, (cut_short ends short).2]
      by_cases whole : room - less ≤ size
      · rw [(cut_last whole).1, (cut_last whole).2]
        have exact' : room - less = size := by omega
        rw [exact']
        exact ⟨rfl, by omega⟩
      · rw [(cut_short (Nat.not_le.mp whole) (by omega)).1,
          (cut_short (Nat.not_le.mp whole) (by omega)).2]
        exact ⟨rfl, by omega⟩

/-- The room goes to the pieces, the indicators between them and what stays behind. -/
theorem cut_account (needed : Needed room k sizes) :
    room + headerLiLength k =
      (cut room k sizes).sum + headerLiLength (k + ((cut room k sizes).length - 1)) +
      leftOver room k sizes := by
  induction sizes generalizing room k with
  | nil => exact absurd rfl needed.1
  | cons size rest ih =>
    obtain last | more | ⟨ends, short⟩ := room_cases room k size
    · rw [(cut_last last).1, (cut_last last).2]
      simp
    · have tail := ih (needed.tail more)
      have header := headerLiLength_liBytes k
      have length : 0 < (cut (room - (size + liBytes k)) (k + 1) rest).length :=
        List.length_pos_iff.mpr (cut_ne_nil (needed.tail more).1)
      have place : k + (cut (room - (size + liBytes k)) (k + 1) rest).length =
          k + 1 + ((cut (room - (size + liBytes k)) (k + 1) rest).length - 1) := by omega
      rw [(cut_more more).1, (cut_more more).2, List.sum_cons, List.length_cons,
        Nat.add_sub_cancel, place]
      omega
    · rw [(cut_short ends short).1, (cut_short ends short).2]
      simp only [List.sum_singleton, List.length_singleton, Nat.sub_self, Nat.add_zero]
      omega

end Cut

/-- What the first pass takes off the room when `bytes` stay behind. -/
def SnLength.reduce (length : SnLength) (bytes li : Nat) : Nat :=
  match length with
  | .ten => if bytes < li then bytes else 0
  | .five => bytes

/-- What it takes off the size of the PDU. -/
def SnLength.shrink (length : SnLength) (bytes : Nat) : Nat :=
  match length with
  | .ten => 0
  | .five => bytes

/-- The variables of the first pass behind an SDU that another follows. -/
def FirstPass.more (s : FirstPass) (room li : Nat) : FirstPass :=
  { s with
    testNumLi := s.testNumLi + 1
    testPduRemainingSize := room
    testRemainingSizeToSubstract := li
    testRemainingNumLiToSubstract := 1
    testLiLengthInBytes := li }

section FirstPass

variable {length : SnLength} {s : FirstPass} {room k : Nat} {sdu : TxSdu} {rest : List TxSdu}
  (test : s.testPduRemainingSize = room) (li : s.testLiLengthInBytes = 1 + k % 2)

include test in
theorem firstPass_last (last : room ≤ sdu.sduRemainingSize) : firstPass length (sdu :: rest) s =
    s.stop 0 0 := by
  simp only [firstPass, test]
  by_cases whole : sdu.sduRemainingSize = room
  · rw [if_neg (by omega), if_pos whole]
  · rw [if_pos (by omega)]

include test li

theorem firstPass_more (more : sdu.sduRemainingSize + liBytes k < room) :
    firstPass length (sdu :: rest) s =
      firstPass length rest (s.more (room - (sdu.sduRemainingSize + liBytes k)) (liBytes k)) := by
  simp only [firstPass, test, li, toggle_li]
  rw [if_neg (by omega), if_neg (by omega), if_neg (by omega), if_pos more]
  rfl

theorem firstPass_short (ends : sdu.sduRemainingSize < room)
    (short : room ≤ sdu.sduRemainingSize + liBytes k) :
    firstPass length (sdu :: rest) s =
      s.stop (length.reduce (room - sdu.sduRemainingSize) (liBytes k))
        (length.shrink (room - sdu.sduRemainingSize)) := by
  have small : liBytes k ≤ 2 := Nat.sub_le 2 _
  simp only [firstPass, test, li, toggle_li]
  rw [if_neg (by omega), if_neg (by omega)]
  by_cases whole : sdu.sduRemainingSize + liBytes k = room
  · have bytes : room - sdu.sduRemainingSize = liBytes k := by omega
    rw [if_pos whole, bytes]
    cases length with
    | five => rfl
    | ten =>
      have none : SnLength.ten.reduce (liBytes k) (liBytes k) = 0 := if_neg (Nat.lt_irrefl _)
      rw [none]
      rfl
  · have one : room - sdu.sduRemainingSize = 1 := by omega
    rw [if_neg whole, if_neg (by omega), one]
    cases length with
    | five => rfl
    | ten =>
      have single : SnLength.ten.reduce 1 (liBytes k) = 1 := if_pos (by omega)
      rw [single]
      rfl

end FirstPass

/-- The first pass counts an indicator for every piece but the last, and trims the room and the
PDU by the bytes that stay behind. -/
theorem firstPass_result {length : SnLength} {queue : List TxSdu} {s : FirstPass} {room k : Nat}
    {sizes : List Nat}
    (map : queue.map TxSdu.sduRemainingSize = sizes) (needed : Needed room k sizes)
    (test : s.testPduRemainingSize = room)
    (li : s.testLiLengthInBytes = 1 + k % 2) (numLi : s.testNumLi = k) :
    (firstPass length queue s).result = (k + ((cut room k sizes).length - 1),
        s.pduRemainingSize - length.reduce (leftOver room k sizes) (nextLi room k sizes)) ∧
      (firstPass length queue s).dataPduSize =
      s.dataPduSize - length.shrink (leftOver room k sizes) := by
  induction queue generalizing s room k sizes with
  | nil => exact absurd map.symm needed.1
  | cons sdu rest ih =>
    rw [List.map_cons] at map
    subst map
    obtain last | more | ⟨ends, short⟩ := room_cases room k sdu.sduRemainingSize
    · have nothing (next : Nat) : length.reduce 0 next = 0 ∧ length.shrink 0 = 0 := by
        cases length with
        | five => exact ⟨rfl, rfl⟩
        | ten => exact ⟨ite_self 0, rfl⟩
      rw [firstPass_last test last, (cut_last last).2, (nothing _).1, (nothing 0).2,
        (cut_last last).1, ← numLi]
      exact ⟨rfl, rfl⟩
    · have tail := needed.tail more
      rw [firstPass_more test li more, (cut_more more).2, nextLi_more more tail.1,
        (cut_more more).1]
      obtain ⟨result, size⟩ :=
        ih (s := s.more (room - (sdu.sduRemainingSize + liBytes k)) (liBytes k)) rfl tail rfl
        (liBytes_next k) (congrArg (· + 1) numLi)
      refine ⟨result.trans ?_, size⟩
      have positive :=
        List.length_pos_iff.mpr
        (@cut_ne_nil (room - (sdu.sduRemainingSize + liBytes k)) (k + 1) _ tail.1)
      rw [List.length_cons]
      congr 1
      omega
    · rw [firstPass_short test li ends short, (cut_short ends short).2, nextLi,
        (cut_short ends short).1, ← numLi]
      exact ⟨rfl, rfl⟩

end OpenAir.Rlc.Um
