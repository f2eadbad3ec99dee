import Mathlib.Data.List.Basic

/-! Half-open intervals of natural numbers, laid out in increasing order. -/
namespace OpenAir.Interval

variable {w i : Nat} {l : List (Nat × Nat)}

def Covers (l : List (Nat × Nat)) (i : Nat) : Prop := ∃ p ∈ l, p.1 ≤ i ∧ i < p.2

/-- Proper intervals, each starting where the one before it stops or later, the
first at `w` or later. -/
def Laid : Nat → List (Nat × Nat) → Prop
  | _, [] => True
  | w, p :: l => w ≤ p.1 ∧ p.1 < p.2 ∧ Laid p.2 l

def reach (w : Nat) : List (Nat × Nat) → Nat
  | [] => w
  | p :: l => reach p.2 l

@[simp] theorem covers_nil (i : Nat) : ¬ Covers [] i := by simp [Covers]

@[simp] theorem covers_cons (p : Nat × Nat) : Covers (p :: l) i ↔ (p.1 ≤ i ∧ i < p.2) ∨
    Covers l i := by
  simp [Covers]

@[simp] theorem covers_append (l r : List (Nat × Nat)) : Covers (l ++ r) i ↔
    Covers l i ∨ Covers r i := by
  simp only [Covers, List.mem_append, or_and_right, exists_or]

theorem Laid.weaken {v : Nat} (laid : Laid w l) (lower : v ≤ w) : Laid v l := by
  cases l with
  | nil => trivial
  | cons p l => exact ⟨Nat.le_trans lower laid.1, laid.2⟩

theorem Laid.le_reach (laid : Laid w l) : w ≤ reach w l := by
  induction l generalizing w with
  | nil => exact Nat.le_refl w
  | cons p l ih =>
    obtain ⟨start, proper, rest⟩ := laid
    exact Nat.le_trans (Nat.le_trans start (Nat.le_of_lt proper)) (ih rest)

theorem Laid.bounds (laid : Laid w l) (covered : Covers l i) : w ≤ i ∧ i < reach w l := by
  induction l generalizing w with
  | nil => simp at covered
  | cons p l ih =>
    obtain ⟨start, proper, rest⟩ := laid
    rw [covers_cons] at covered
    rcases covered with ⟨lower, upper⟩ | later
    · exact ⟨Nat.le_trans start lower, Nat.lt_of_lt_of_le upper rest.le_reach⟩
    · obtain ⟨lower, upper⟩ := ih rest later
      exact ⟨by omega, upper⟩

theorem Laid.le_start (laid : Laid w l) {p : Nat × Nat} (member : p ∈ l) : w ≤ p.1 := by
  induction l generalizing w with
  | nil => cases member
  | cons q l ih =>
    obtain ⟨start, proper, rest⟩ := laid
    rcases List.mem_cons.mp member with rfl | later
    · exact start
    · exact Nat.le_trans (Nat.le_trans start (Nat.le_of_lt proper)) (ih rest later)

theorem Laid.pairwise (laid : Laid w l) : l.Pairwise fun a b => a.2 ≤ b.1 := by
  induction l generalizing w with
  | nil => exact List.Pairwise.nil
  | cons p l ih =>
    obtain ⟨-, -, rest⟩ := laid
    exact List.pairwise_cons.mpr ⟨fun q member => rest.le_start member, ih rest⟩

theorem Laid.proper (laid : Laid w l) {p : Nat × Nat} (member : p ∈ l) : p.1 < p.2 ∧
    p.2 ≤ reach w l := by
  induction l generalizing w with
  | nil => cases member
  | cons q l ih =>
    obtain ⟨-, proper, rest⟩ := laid
    rcases List.mem_cons.mp member with rfl | later
    · exact ⟨proper, rest.le_reach⟩
    · exact ih rest later

end OpenAir.Interval
