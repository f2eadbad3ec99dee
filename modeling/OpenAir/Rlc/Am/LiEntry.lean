import OpenAir.Rlc.Am.Segment
import OpenAir.Rlc.Am.Cut

/-! A length indicator in the bytes of the header, and what writing one does to the
chain: two neighbours share a byte, so the second is written over the first. -/
namespace OpenAir.Rlc.Am
open BitField

section Bytes

variable (mem : Memory) (start h : Nat)

theorem liE_even : liE mem start (2 * h) = decide ((mem (start + 3 * h)).toNat / 128 % 2 = 1) := by
  rw [liE, show 8 * start + 12 * (2 * h) = 8 * (start + 3 * h) + 0 by omega, bitAt_byte (by decide),
    Nat.testBit_eq_decide_div_mod_eq]

theorem liE_odd :
    liE mem start (2 * h + 1) = decide ((mem (start + 3 * h + 1)).toNat / 8 % 2 = 1) := by
  rw [liE, show 8 * start + 12 * (2 * h + 1) = 8 * (start + 3 * h + 1) + 4 by
    omega, bitAt_byte (by decide), Nat.testBit_eq_decide_div_mod_eq]

theorem liAt_even : liAt mem start (2 * h) =
    (mem (start + 3 * h)).toNat % 128 * 16 + (mem (start + 3 * h + 1)).toNat / 16 := by
  have high := shift_and_mask mem (start + 3 * h) 0 7 (by decide)
  have low := shift_and_mask mem (start + 3 * h + 1) 4 4 (by decide)
  rw [Nat.and_two_pow_sub_one_eq_mod, Nat.shiftRight_eq_div_pow] at high low
  rw [Nat.pow_zero, Nat.div_one] at high
  have small : (mem (start + 3 * h + 1)).toNat / 2 ^ 4 % 2 ^ 4 =
      (mem (start + 3 * h + 1)).toNat / 16 := by
    have := UInt8.toNat_lt (mem (start + 3 * h + 1))
    omega
  rw [small] at low
  rw [liAt, show 8 * start + 12 * (2 * h) + 1 = 8 * (start + 3 * h) + 1 by
    omega, valueAt_add _ _ 7 4, show 8 * (start + 3 * h) + 1 + 7 = 8 * (start + 3 * h + 1) +
      (8 - 4 - 4) by omega, ← low]
  rw [show 8 * (start + 3 * h) + 1 = 8 * (start + 3 * h) + (8 - 0 - 7) by omega, ← high]
  rfl

theorem liAt_odd : liAt mem start (2 * h + 1) =
    (mem (start + 3 * h + 1)).toNat % 8 * 256 + (mem (start + 3 * h + 2)).toNat := by
  have high := shift_and_mask mem (start + 3 * h + 1) 0 3 (by decide)
  rw [Nat.and_two_pow_sub_one_eq_mod, Nat.shiftRight_eq_div_pow, Nat.pow_zero, Nat.div_one] at high
  have low := valueAt_byte mem (start + 3 * h + 2)
  rw [liAt, show 8 * start + 12 * (2 * h + 1) + 1 = 8 * (start + 3 * h + 1) + 5 by
    omega, valueAt_add _ _ 3 8, show 8 * (start + 3 * h + 1) + 5 + 3 =
      8 * (start + 3 * h + 2) by omega, low]
  rw [show 8 * (start + 3 * h + 1) + 5 = 8 * (start + 3 * h + 1) + (8 - 0 - 3) by omega, ← high]
  rfl

end Bytes

/-- The half byte in front of an odd entry is still clear. -/
def HalfOpen (mem : Memory) (start k : Nat) : Prop :=
  k % 2 = 1 → (mem (start + 3 * (k / 2) + 1)).toNat % 16 = 0

/-- The `k`-th entry of a chain has been written, the others and all bytes outside of
the chain are as before. -/
structure LiWritten (before after : Memory) (start k li : Nat) (more : Bool) : Prop where
  value : liAt after start k = li
  e : liE after start k = more
  earlier : ∀ j < k, liAt after start j = liAt before start j ∧
    liE after start j = liE before start j
  outside : ∀ a, a < start ∨ start + headerLiLength (k + 1) ≤ a → after a = before a
  halfOpen : HalfOpen after start (k + 1)

theorem entry_congr {mem mem' : Memory} {start j : Nat}
    (same : ∀ a, start ≤ a → a < start + headerLiLength (j + 1) → mem' a = mem a) :
    liAt mem' start j = liAt mem start j ∧ liE mem' start j = liE mem start j := by
  rcases Nat.even_or_odd' j with ⟨h, rfl | rfl⟩
  · have length : headerLiLength (2 * h + 1) = 3 * h + 2 := by simp only [headerLiLength]; omega
    rw [length] at same
    rw [liAt_even, liAt_even, liE_even, liE_even, same (start + 3 * h) (by omega) (by omega),
      same (start + 3 * h + 1) (by omega) (by omega)]
    exact ⟨rfl, rfl⟩
  · have length : headerLiLength (2 * h + 1 + 1) = 3 * h + 3 := by simp only [headerLiLength]; omega
    rw [length] at same
    rw [liAt_odd, liAt_odd, liE_odd, liE_odd, same (start + 3 * h + 1) (by omega) (by omega),
      same (start + 3 * h + 2) (by omega) (by omega)]
    exact ⟨rfl, rfl⟩

/-- An even entry is written to two fresh bytes. -/
theorem liWritten_even {before after : Memory} {start h li : Nat} {more : Bool} (small : li < 2048)
    (high : (after (start + 3 * h)).toNat = (if more then 128 else 0) + li / 16)
    (low : (after (start + 3 * h + 1)).toNat = li % 16 * 16)
    (others : ∀ a, a ≠ start + 3 * h → a ≠ start + 3 * h + 1 → after a = before a) :
    LiWritten before after start (2 * h) li more := by
  have length : headerLiLength (2 * h + 1) = 3 * h + 2 := by simp only [headerLiLength]; omega
  refine ⟨?_, ?_, ?_, ?_, ?_⟩
  · rw [liAt_even, high, low]
    split <;> omega
  · rw [liE_even, high]
    cases more with
    | true => simp only [if_true, decide_eq_true_eq]; omega
    | false => simp only [Bool.false_eq_true, if_false, decide_eq_false_iff_not]; omega
  · intro j below
    apply entry_congr
    intro a _ inside
    have bound := headerLiLength_mono (show j + 1 ≤ 2 * h by omega)
    have even : headerLiLength (2 * h) = 3 * h := by simp only [headerLiLength]; omega
    exact others a (by omega) (by omega)
  · intro a away
    rw [length] at away
    exact others a (by omega) (by omega)
  · intro _
    rw [show (2 * h + 1) / 2 = h by omega, low]
    omega

/-- An odd entry is written to the open half byte and the byte behind it. -/
theorem liWritten_odd {before after : Memory} {start h li : Nat} {more : Bool} (small : li < 2048)
    (halfOpen : HalfOpen before start (2 * h + 1))
    (high : (after (start + 3 * h + 1)).toNat =
      (before (start + 3 * h + 1)).toNat + (if more then 8 else 0) + li / 256)
    (low : (after (start + 3 * h + 2)).toNat = li % 256)
    (others : ∀ a, a ≠ start + 3 * h + 1 → a ≠ start + 3 * h + 2 → after a = before a) :
    LiWritten before after start (2 * h + 1) li more := by
  have length : headerLiLength (2 * h + 1 + 1) = 3 * h + 3 := by simp only [headerLiLength]; omega
  have clear : (before (start + 3 * h + 1)).toNat % 16 = 0 := by
    have := halfOpen (by omega)
    rwa [show (2 * h + 1) / 2 = h by omega] at this
  refine ⟨?_, ?_, ?_, ?_, ?_⟩
  · rw [liAt_odd, high, low]
    split <;> omega
  · rw [liE_odd, high]
    cases more with
    | true => simp only [if_true, decide_eq_true_eq]; omega
    | false => simp only [Bool.false_eq_true, if_false, decide_eq_false_iff_not]; omega
  · intro j below
    by_cases neighbour : j = 2 * h
    · subst neighbour
      rw [liAt_even, liAt_even, liE_even, liE_even,
        others (start + 3 * h) (by omega) (by omega), high]
      refine ⟨?_, rfl⟩
      split <;> omega
    · apply entry_congr
      intro a _ inside
      have bound := headerLiLength_mono (show j + 1 ≤ 2 * h by omega)
      have even : headerLiLength (2 * h) = 3 * h := by simp only [headerLiLength]; omega
      exact others a (by omega) (by omega)
  · intro a away
    rw [length] at away
    exact others a (by omega) (by omega)
  · intro odd
    omega

/-- The entries of a chain, from the `k`-th on: one for each size, every one but the
last of all `total` entries announcing another. -/
def Entries (mem : Memory) (start total : Nat) : Nat → List Nat → Prop
  | _, [] => True
  | k, li :: rest =>
    liAt mem start k = li ∧ liE mem start k = decide (k + 1 < total) ∧
      Entries mem start total (k + 1) rest

theorem Entries.congr {mem mem' : Memory} {start total k : Nat} {lis : List Nat}
    (same : ∀ j, k ≤ j → j < k + lis.length → liAt mem' start j = liAt mem start j ∧
      liE mem' start j = liE mem start j)
    (entries : Entries mem start total k lis) : Entries mem' start total k lis := by
  induction lis generalizing k with
  | nil => trivial
  | cons li rest ih =>
    obtain ⟨value, e, tail⟩ := entries
    simp only [List.length_cons] at same
    obtain ⟨sameValue, sameE⟩ := same k (Nat.le_refl _) (by omega)
    exact ⟨sameValue.trans value, sameE.trans e,
      ih (fun j lower upper => same j (by omega) (by omega)) tail⟩

theorem entries_of_forall {mem : Memory} {start total k : Nat} {lis : List Nat}
    (each : ∀ j < lis.length, some (liAt mem start (k + j)) = lis[j]? ∧
      liE mem start (k + j) = decide (k + j + 1 < total)) :
    Entries mem start total k lis := by
  induction lis generalizing k with
  | nil => trivial
  | cons li rest ih =>
    obtain ⟨value, e⟩ := each 0 (Nat.succ_pos _)
    refine ⟨Option.some.inj value, e, ih fun j inside => ?_⟩
    have later := each (j + 1) (Nat.succ_lt_succ inside)
    rwa [List.getElem?_cons_succ, Nat.add_comm j, ← Nat.add_assoc] at later

theorem Entries.lisAt {mem : Memory} {start total k : Nat} {lis : List Nat}
    (entries : Entries mem start total k lis) : lisAt mem start k lis.length = lis := by
  induction lis generalizing k with
  | nil => rfl
  | cons li rest ih =>
    obtain ⟨value, -, tail⟩ := entries
    rw [List.length_cons, lisAt_succ, value, ih tail]

theorem Entries.e {mem : Memory} {start total k : Nat} {lis : List Nat}
    (entries : Entries mem start total k lis)
    {j : Nat} (inside : j < lis.length) : liE mem start (k + j) = decide (k + j + 1 < total) := by
  induction lis generalizing k j with
  | nil => exact absurd inside (Nat.not_lt_zero _)
  | cons li rest ih =>
    obtain ⟨-, e, tail⟩ := entries
    cases j with
    | zero => exact e
    | succ j =>
      have later := ih tail (Nat.lt_of_succ_lt_succ inside)
      rwa [Nat.add_assoc, Nat.add_comm 1] at later

/-- A full list of entries is a chain that the decoder reads to its end. -/
theorem Entries.chain {mem : Memory} {start : Nat} {lis : List Nat} (some : lis ≠ [])
    (entries : Entries mem start lis.length 0 lis) : ChainOf mem start 0 lis.length := by
  refine ⟨List.length_pos_iff.mpr some, fun j inside => ?_⟩
  have e := entries.e inside
  rwa [Nat.zero_add] at e ⊢

end OpenAir.Rlc.Am
