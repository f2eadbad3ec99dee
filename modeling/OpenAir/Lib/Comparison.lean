import Mathlib.Algebra.Order.Group.Int

/-! Three-way comparisons, as sorting functions take them: negative when the first element comes
first. -/
namespace OpenAir.Comparison

variable {α : Type}

/-- A comparison that orders all elements, with ties. -/
structure TotalPreorder (cmp : α → α → Int) : Prop where
  swap : ∀ a b, cmp b a = -cmp a b
  trans : ∀ a b c, cmp a b ≤ 0 → cmp b c ≤ 0 → cmp a c ≤ 0

section
variable {cmp : α → α → Int} {a b c : α}

theorem TotalPreorder.total (order : TotalPreorder cmp) (a b : α) : cmp a b ≤ 0 ∨ cmp b a ≤ 0 := by
  rw [order.swap a b]
  omega

theorem TotalPreorder.lt_of_lt_of_le (order : TotalPreorder cmp) (first : cmp a b < 0)
    (second : cmp b c ≤ 0) :
    cmp a c < 0 := by
  by_contra behind
  have back : cmp c a ≤ 0 := by
    rw [order.swap a c]
    omega
  have around := order.trans b c a second back
  rw [order.swap a b] at around
  omega

theorem TotalPreorder.lt_of_le_of_lt (order : TotalPreorder cmp) (first : cmp a b ≤ 0)
    (second : cmp b c < 0) :
    cmp a c < 0 := by
  by_contra behind
  have back : cmp c a ≤ 0 := by
    rw [order.swap a c]
    omega
  have around := order.trans c a b back first
  rw [order.swap b c] at around
  omega

end

def descending (key : α → Int) (a b : α) : Int :=
  if key a > key b then -1 else if key a < key b then 1 else 0

theorem descending_order (key : α → Int) : TotalPreorder (descending key) where
  swap a b := by
    unfold descending
    split_ifs <;> omega
  trans a b c := by
    unfold descending
    split_ifs <;> omega

/-- The first comparison that tells the two apart decides. -/
def lexicographic : List (α → α → Int) → α → α → Int
  | [], _, _ => 0
  | cmp :: rest, a, b => if cmp a b ≠ 0 then cmp a b else lexicographic rest a b

theorem lexicographic_order {cmps : List (α → α → Int)} (all : ∀ cmp ∈ cmps, TotalPreorder cmp) :
    TotalPreorder (lexicographic cmps) := by
  induction cmps with
  | nil => exact ⟨fun _ _ => rfl, fun _ _ _ _ _ => le_rfl⟩
  | cons cmp rest ih =>
    have order := all cmp List.mem_cons_self
    have later := ih fun other member => all other (List.mem_cons_of_mem _ member)
    refine ⟨fun a b => ?_, fun a b c first second => ?_⟩
    · rw [lexicographic, lexicographic, order.swap a b]
      by_cases tie : cmp a b = 0
      · rw [tie, neg_zero, if_neg (not_not.mpr rfl), if_neg (not_not.mpr rfl)]
        exact later.swap a b
      · rw [if_pos (neg_ne_zero.mpr tie), if_pos tie]
    · rw [lexicographic] at first second ⊢
      by_cases tieAb : cmp a b = 0
      · rw [if_neg (not_not.mpr tieAb)] at first
        by_cases tieBc : cmp b c = 0
        · rw [if_neg (not_not.mpr tieBc)] at second
          have tieCa : cmp c a ≤ 0 :=
            order.trans c b a (by rw [order.swap b c]; omega) (by rw [order.swap a b]; omega)
          have tieAc := order.trans a b c tieAb.le tieBc.le
          rw [order.swap a c] at tieCa
          rw [if_neg (not_not.mpr (by omega))]
          exact later.trans a b c first second
        · rw [if_pos tieBc] at second
          have less := order.lt_of_le_of_lt tieAb.le (lt_of_le_of_ne second tieBc)
          rw [if_pos less.ne]
          exact less.le
      · rw [if_pos tieAb] at first
        have behind : cmp b c ≤ 0 := by
          by_cases tieBc : cmp b c = 0
          · exact tieBc.le
          · rwa [if_pos tieBc] at second
        have less := order.lt_of_lt_of_le (lt_of_le_of_ne first tieAb) behind
        rw [if_pos less.ne]
        exact less.le

/-- The first element is not behind the second one: a tie, or the first difference is in its
favour. -/
def Before (cmps : List (α → α → Int)) (a b : α) : Prop :=
  (∀ cmp ∈ cmps, cmp a b = 0) ∨
    ∃ earlier cmp later, cmps = earlier ++ cmp :: later ∧
      (∀ other ∈ earlier, other a b = 0) ∧ cmp a b < 0

theorem lexicographic_le_iff {cmps : List (α → α → Int)} {a b : α} : lexicographic cmps a b ≤ 0 ↔
    Before cmps a b := by
  induction cmps with
  | nil => exact iff_of_true le_rfl (.inl fun cmp member => absurd member List.not_mem_nil)
  | cons cmp rest ih =>
    rw [lexicographic]
    by_cases tie : cmp a b = 0
    · rw [if_neg (not_not.mpr tie), ih]
      constructor
      · rintro (ties | ⟨earlier, other, later, rfl, ties, less⟩)
        · exact .inl (List.forall_mem_cons.mpr ⟨tie, ties⟩)
        · exact .inr ⟨cmp :: earlier, other, later, rfl, List.forall_mem_cons.mpr ⟨tie, ties⟩, less⟩
      · rintro (ties | ⟨earlier, other, later, same, ties, less⟩)
        · exact .inl fun other member => ties other (List.mem_cons_of_mem _ member)
        · cases earlier with
          | nil =>
            obtain ⟨rfl, -⟩ := List.cons.inj same
            exact absurd tie less.ne
          | cons front earlier =>
            obtain ⟨-, rfl⟩ := List.cons.inj same
            exact .inr ⟨earlier, other, later, rfl,
              fun x member => ties x (List.mem_cons_of_mem _ member), less⟩
    · rw [if_pos tie]
      constructor
      · intro first
        exact .inr ⟨[], cmp, rest, rfl,
          fun x member => absurd member List.not_mem_nil, lt_of_le_of_ne first tie⟩
      · rintro (ties | ⟨earlier, other, later, same, ties, less⟩)
        · exact absurd (ties cmp List.mem_cons_self) tie
        · cases earlier with
          | nil =>
            obtain ⟨rfl, -⟩ := List.cons.inj same
            exact less.le
          | cons front earlier =>
            obtain ⟨rfl, -⟩ := List.cons.inj same
            exact absurd (ties cmp List.mem_cons_self) tie

/-- A library sort: for every total preorder a sorted permutation. -/
def Sorts (sort : (α → α → Int) → List α → List α) : Prop :=
  ∀ cmp, TotalPreorder cmp → ∀ list, (sort cmp list).Perm list ∧ (sort cmp list).Pairwise
    fun a b => cmp a b ≤ 0

end OpenAir.Comparison
