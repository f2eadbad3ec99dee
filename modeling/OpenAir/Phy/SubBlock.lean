import OpenAir.Phy.RateMatching

/-! What the sub-block interleaver writes where, and which places are null. -/
namespace OpenAir.Phy

section Rows

variable {size : Nat}

theorem rtcOf_eq (size : Nat) : rtcOf size = (size + 31) / 32 := by
  have mask : size &&& 31 = size % 32 := Nat.and_two_pow_sub_one_eq_mod size 5
  rw [rtcOf, mask, Nat.shiftRight_eq_div_pow]
  split <;> omega

/-- The matrix holds the bits, and the nulls before them stay in its first row. -/
theorem rtcOf_bounds (size : Nat) : size ≤ 32 * rtcOf size ∧ 32 * rtcOf size < size + 32 := by
  rw [rtcOf_eq]
  omega

end Rows

section Walk

variable {σ : Type} {visit : σ → Nat → Nat → σ} {rtc : Nat}

/-- The index that position `k` of a stream belongs to, for a permutation of the columns. -/
def permutedIndex (heads : List Nat) (rtc k : Nat) : Nat := heads.getD (k / rtc) 0 + 32 * (k % rtc)

theorem permutedIndex_row {heads : List Nat} {col index row : Nat}
    (found : heads[col]? = some index) (below : row < rtc) :
    permutedIndex heads rtc (col * rtc + row) = index + 32 * row := by
  have positive : 0 < rtc := Nat.zero_lt_of_lt below
  rw [permutedIndex, Nat.mul_comm col, Nat.mul_add_div positive, Nat.mul_add_mod,
    Nat.div_eq_of_lt below, Nat.mod_eq_of_lt below, Nat.add_zero, List.getD_eq_getElem?_getD, found,
      Option.getD_some]

/-- What each visit of a column carries on holds after the column. -/
theorem column_rule {Inv : Nat → σ → Prop} {rows k index : Nat} {s : σ}
    (step : ∀ row < rows, ∀ s, Inv (k + row) s →
      Inv (k + row + 1) (visit s (k + row) (index + 32 * row))) (start : Inv k s) :
    Inv (k + rows) (column visit rows k index s) := by
  induction rows generalizing k index s with
  | zero => exact start
  | succ rows ih =>
    rw [column, Nat.add_comm rows, ← Nat.add_assoc]
    refine ih (fun row below s inv => ?_) (step 0 (Nat.succ_pos rows) s start)
    have next :=
      step (row + 1) (Nat.succ_lt_succ below) s (by rwa [Nat.add_comm row, ← Nat.add_assoc])
    rwa [Nat.add_comm row, ← Nat.add_assoc, Nat.mul_add, ← Nat.add_assoc] at next

/-- The same for the columns that are left; `done` are those before them. -/
theorem permuted_rule_append {all : List Nat} {Inv : Nat → σ → Prop} (done heads : List Nat)
    (whole : all = done ++ heads) {s : σ}
    (step : ∀ k < all.length * rtc, ∀ s, Inv k s →
      Inv (k + 1) (visit s k (permutedIndex all rtc k)))
    (start : Inv (done.length * rtc) s) :
    Inv (all.length * rtc) (columns visit rtc heads (done.length * rtc) s) := by
  induction heads generalizing done s with
  | nil =>
    rw [columns, whole, List.append_nil]
    exact start
  | cons head rest ih =>
    have total : done.length + 1 ≤ all.length := by
      rw [whole, List.length_append, List.length_cons]
      omega
    have next : (done ++ [head]).length * rtc = done.length * rtc + rtc := by
      rw [List.length_append, List.length_singleton, Nat.succ_mul]
    rw [columns, ← next]
    refine ih (done ++ [head]) (by rw [whole, List.append_assoc, List.singleton_append]) ?_
    rw [next]
    refine column_rule (fun row below s inv => ?_) start
    have bound : done.length * rtc + row < all.length * rtc :=
      calc done.length * rtc + row < done.length * rtc + rtc := Nat.add_lt_add_left below _
        _ = (done.length + 1) * rtc := (Nat.succ_mul _ _).symm
        _ ≤ all.length * rtc := Nat.mul_le_mul_right _ total
    have found : all[done.length]? = some head := by
      rw [whole, List.getElem?_append_right (Nat.le_refl _), Nat.sub_self]
      rfl
    have visited := step _ bound s inv
    rwa [permutedIndex_row found below] at visited

def IsPermutation (heads : List Nat) : Prop := heads.Perm (List.range 32)

section Permutation

variable {heads : List Nat} (perm : IsPermutation heads)
include perm

theorem IsPermutation.length : heads.length = 32 :=
  (List.Perm.length_eq perm).trans List.length_range

theorem IsPermutation.lt (col : Nat) : heads.getD col 0 < 32 := by
  by_cases inside : col < heads.length
  · rw [List.getD_eq_getElem _ _ inside]
    exact List.mem_range.mp ((List.Perm.mem_iff perm).mp (List.getElem_mem inside))
  · rw [List.getD_eq_default _ _ (Nat.le_of_not_lt inside)]
    exact Nat.zero_lt_succ 31

theorem IsPermutation.injective {a b : Nat} (first : a < 32) (second : b < 32)
    (same : heads.getD a 0 = heads.getD b 0) :
    a = b := by
  have distinct : heads.Nodup := (List.Perm.nodup_iff perm).mpr List.nodup_range
  have count := perm.length
  rw [List.getD_eq_getElem _ _ (by omega), List.getD_eq_getElem _ _ (by omega)] at same
  exact (List.Nodup.getElem_inj_iff distinct).mp same

/-- What each visit carries on holds after all columns. -/
theorem IsPermutation.rule {Inv : Nat → σ → Prop} {s : σ}
    (step : ∀ k < 32 * rtc, ∀ s, Inv k s → Inv (k + 1) (visit s k (permutedIndex heads rtc k)))
    (start : Inv 0 s) :
    Inv (32 * rtc) (columns visit rtc heads 0 s) := by
  rw [← perm.length] at step ⊢
  have rule := @permuted_rule_append σ visit rtc heads Inv [] heads rfl s step
  rw [List.length_nil, Nat.zero_mul] at rule
  exact rule start

theorem IsPermutation.index_lt {k : Nat} (inside : k < 32 * rtc) :
    permutedIndex heads rtc k < 32 * rtc := by
  have positive : 0 < rtc := by omega
  have row : k % rtc < rtc := Nat.mod_lt _ positive
  have head := perm.lt (k / rtc)
  rw [permutedIndex]
  omega

theorem IsPermutation.index_injective {a b : Nat} (first : a < 32 * rtc) (second : b < 32 * rtc)
    (same : permutedIndex heads rtc a = permutedIndex heads rtc b) : a = b := by
  have head := perm.lt (a / rtc)
  have other := perm.lt (b / rtc)
  rw [permutedIndex, permutedIndex] at same
  have columns : a / rtc = b / rtc :=
    perm.injective (Nat.div_lt_of_lt_mul (by rwa [Nat.mul_comm]))
      (Nat.div_lt_of_lt_mul (by rwa [Nat.mul_comm])) (by omega)
  have rows : a % rtc = b % rtc := by omega
  rw [← Nat.div_add_mod a rtc, columns, rows, Nat.div_add_mod]

theorem IsPermutation.index_surjective {index : Nat} (inside : index < 32 * rtc) :
    ∃ k < 32 * rtc, permutedIndex heads rtc k = index := by
  have member : index % 32 ∈ heads :=
    (List.Perm.mem_iff perm).mpr (List.mem_range.mpr (Nat.mod_lt _ (Nat.zero_lt_succ 31)))
  obtain ⟨col, below, found⟩ := List.mem_iff_getElem.mp member
  have row : index / 32 < rtc := Nat.div_lt_of_lt_mul inside
  have count := perm.length
  have bound : col * rtc + index / 32 < 32 * rtc :=
    calc col * rtc + index / 32 < col * rtc + rtc := Nat.add_lt_add_left row _
      _ = (col + 1) * rtc := (Nat.succ_mul _ _).symm
      _ ≤ 32 * rtc := Nat.mul_le_mul_right _ (by omega)
  refine ⟨col * rtc + index / 32, bound, ?_⟩
  rw [permutedIndex_row (List.getElem?_eq_some_iff.mpr ⟨below, found⟩) row, Nat.mod_add_div]

end Permutation

/-- The index that position `k` of a stream belongs to. -/
def indexOf (rtc k : Nat) : Nat := bitrev.getD (k / rtc) 0 + 32 * (k % rtc)

theorem bitrev_permutation : IsPermutation bitrev := by
  unfold IsPermutation
  decide

theorem indexOf_row {rtc col index row : Nat} (found : bitrev[col]? = some index)
    (below : row < rtc) :
    indexOf rtc (col * rtc + row) = index + 32 * row := permutedIndex_row found below

/-- What each visit carries on holds after all columns. -/
theorem columns_rule {Inv : Nat → σ → Prop} {s : σ}
    (step : ∀ k < 32 * rtc, ∀ s, Inv k s → Inv (k + 1) (visit s k (indexOf rtc k)))
    (start : Inv 0 s) :
    Inv (32 * rtc) (columns visit rtc bitrev 0 s) := bitrev_permutation.rule step start

theorem div_lt_columns {k : Nat} (inside : k < 32 * rtc) : k / rtc < 32 :=
  Nat.div_lt_of_lt_mul (by rwa [Nat.mul_comm])

theorem indexOf_lt {k : Nat} (inside : k < 32 * rtc) : indexOf rtc k < 32 * rtc :=
  bitrev_permutation.index_lt inside

theorem indexOf_injective {a b : Nat} (first : a < 32 * rtc) (second : b < 32 * rtc)
    (same : indexOf rtc a = indexOf rtc b) :
    a = b := bitrev_permutation.index_injective first second same

theorem indexOf_last {rtc j : Nat} (inside : j < 32 * rtc) (notLast : j + 1 < 32 * rtc) :
    indexOf rtc j + 1 < 32 * rtc := by
  have row : rtc - 1 < rtc := by omega
  have last : indexOf rtc (31 * rtc + (rtc - 1)) = 31 + 32 * (rtc - 1) := indexOf_row rfl row
  have bound := indexOf_lt inside
  refine Nat.lt_of_le_of_ne bound (fun same => ?_)
  have position : j = 31 * rtc + (rtc - 1) := indexOf_injective inside (by omega) (by omega)
  omega

end Walk

section Dummy

variable {rtc kpi nd f : Nat}

/-- The places that one column marks: `k` is the place of its head and `index` the head's own
index. -/
def Marks (kpi nd f index k ind : Nat) : Prop :=
  index < nd + f ∧ (ind = k ∨ ind = kpi + 2 * k) ∨ index + 32 < nd + f ∧
    (ind = k + 1 ∨ ind = kpi + 2 + 2 * k) ∨
    index + 64 < nd + f ∧ (ind = k + 2 ∨ ind = kpi + 4 + 2 * k) ∨ index + 1 < nd ∧
      ind = kpi + 1 + 2 * k

theorem markNull_null {condition : Prop} [Decidable condition] {place ind : Nat} {w : Nat → Nat} :
    markNull condition place w ind = lteNull ↔ condition ∧ ind = place ∨ w ind = lteNull := by
  rw [markNull]
  by_cases holds : condition
  · rw [if_pos holds]
    by_cases same : ind = place
    · rw [same, Function.update_self]
      exact ⟨fun _ => .inl ⟨holds, rfl⟩, fun _ => rfl⟩
    · rw [Function.update_of_ne same]
      exact ⟨.inr, fun either => either.resolve_left fun both => same both.2⟩
  · rw [if_neg holds]
    exact ⟨.inr, fun either => either.resolve_left fun both => holds both.1⟩

theorem column_null (index k : Nat) (w : Nat → Nat) (ind : Nat) :
    markNull (index + 1 < nd) (kpi + 1 + 2 * k)
        (markNull (index + 64 < nd + f) (kpi + 4 + 2 * k) (markNull (index + 64 < nd + f) (k + 2)
          (markNull (index + 32 < nd + f) (kpi + 2 + 2 * k) (markNull (index + 32 < nd + f) (k + 1)
            (markNull (index < nd + f) (kpi + 2 * k) (markNull (index < nd + f) k w))))))
              ind = lteNull ↔
      w ind = lteNull ∨ Marks kpi nd f index k ind := by
  simp only [markNull_null, Marks]
  grind

theorem dummyColumns_null (heads : List Nat) (k : Nat) (w : Nat → Nat) (ind : Nat) :
    dummyColumns rtc kpi nd f heads k w ind = lteNull ↔
      w ind = lteNull ∨ ∃ col index, heads[col]? = some index ∧
      Marks kpi nd f index (k + col * rtc) ind := by
  induction heads generalizing k w with
  | nil =>
    rw [dummyColumns]
    refine ⟨.inl, ?_⟩
    rintro (null | ⟨col, index, none, _⟩)
    · exact null
    · cases none
  | cons head rest ih =>
    rw [dummyColumns, ih]
    rw [column_null]
    constructor
    · rintro ((null | marks) | ⟨col, index, found, marks⟩)
      · exact .inl null
      · refine .inr ⟨0, head, rfl, ?_⟩
        rwa [Nat.zero_mul, Nat.add_zero]
      · refine .inr ⟨col + 1, index, found, ?_⟩
        rwa [Nat.succ_mul, Nat.add_comm (col * rtc), ← Nat.add_assoc]
    · rintro (null | ⟨col, index, found, marks⟩)
      · exact .inl (.inl null)
      · cases col with
        | zero =>
          cases found
          rw [Nat.zero_mul, Nat.add_zero] at marks
          exact .inl (.inr marks)
        | succ col =>
          refine .inr ⟨col, index, found, ?_⟩
          rwa [Nat.succ_mul, Nat.add_comm (col * rtc), ← Nat.add_assoc] at marks

theorem marks_iff (rows : nd + f ≤ 32 * rtc) (few : nd + f ≤ 96) (first : nd ≤ 32) (i : Nat) :
    (∃ col index, bitrev[col]? = some index ∧ Marks (32 * rtc) nd f index (col * rtc) i) ↔
      (∃ k < 32 * rtc, indexOf rtc k < nd + f ∧ (i = k ∨ i = 32 * rtc + 2 * k)) ∨
        ∃ k < 32 * rtc, indexOf rtc k + 1 < nd ∧ i = 32 * rtc + 1 + 2 * k := by
  have inside {col index row : Nat} (found : bitrev[col]? = some index) (below : row < rtc) :
      col * rtc + row < 32 * rtc :=
    calc col * rtc + row < col * rtc + rtc := Nat.add_lt_add_left below _
      _ = (col + 1) * rtc := (Nat.succ_mul _ _).symm
      _ ≤ 32 * rtc := Nat.mul_le_mul_right _ (List.getElem?_eq_some_iff.mp found).1
  have marked {col index : Nat} (row : Nat) (found : bitrev[col]? = some index)
    (null : index + 32 * row < nd + f)
      (place : i = col * rtc + row ∨ i = 32 * rtc + 2 * (col * rtc + row)) :
      ∃ k < 32 * rtc, indexOf rtc k < nd + f ∧ (i = k ∨ i = 32 * rtc + 2 * k) := by
    have below : row < rtc := by omega
    exact ⟨_, inside found below, by rwa [indexOf_row found below], place⟩
  constructor
  · rintro ⟨col, index, found, ⟨null, place⟩ | ⟨null, place⟩ | ⟨null, place⟩ | ⟨null, place⟩⟩
    · exact .inl (marked 0 found null place)
    · exact .inl (marked 1 found null (by omega))
    · exact .inl (marked 2 found null (by omega))
    · have below : 0 < rtc := by omega
      refine .inr ⟨_, inside found below, ?_, place⟩
      rwa [indexOf_row found below]
  · have position (k : Nat) (low : k < 32 * rtc) : ∃ index, bitrev[k / rtc]? = some index ∧
        indexOf rtc k = index + 32 * (k % rtc) ∧ k = k / rtc * rtc + k % rtc := by
      refine ⟨_, List.getElem?_eq_getElem (div_lt_columns low), ?_, ?_⟩
      · rw [indexOf, List.getD_eq_getElem _ _ (div_lt_columns low)]
      · rw [Nat.mul_comm, Nat.div_add_mod]
    rintro (⟨k, low, null, place⟩ | ⟨k, low, null, place⟩)
    · obtain ⟨index, found, here, split_⟩ := position k low
      rw [here] at null
      refine ⟨_, index, found, ?_⟩
      have three : k % rtc = 0 ∨ k % rtc = 1 ∨ k % rtc = 2 := by omega
      rcases three with row | row | row
      · exact .inl ⟨by omega, by omega⟩
      · exact .inr (.inl ⟨by omega, by omega⟩)
      · exact .inr (.inr (.inl ⟨by omega, by omega⟩))
    · obtain ⟨index, found, here, split_⟩ := position k low
      rw [here] at null
      exact ⟨_, index, found, .inr (.inr (.inr ⟨by omega, by omega⟩))⟩

variable {size : Nat}

theorem generateDummyW_null (ind : Nat) :
    (generateDummyW size (fun _ => 0) f).1 ind = lteNull ↔
      0 < 32 * rtcOf size - size ∧ ind = 3 * (32 * rtcOf size) - 1 ∨
      ∃ col index, bitrev[col]? = some index ∧
        Marks (32 * rtcOf size) (32 * rtcOf size - size) f index (col * rtcOf size) ind := by
  rw [generateDummyW]
  simp only [markNull_null, dummyColumns_null, Nat.zero_add]
  have zero : ¬ (0 = lteNull) := by decide
  rw [or_iff_right zero]

/-- The third stream keeps the head of the last column. -/
theorem generateDummyW_live (large : 32 < size) :
    (generateDummyW size (fun _ => 0) f).1
      (32 * rtcOf size + 1 + 2 * (31 * rtcOf size)) ≠ lteNull := by
  rw [Ne, generateDummyW_null]
  have bounds := rtcOf_bounds size
  have two : 2 ≤ rtcOf size := by omega
  rintro (⟨_, last⟩ | ⟨col, index, found, marks⟩)
  · omega
  · have below : col < bitrev.length := List.getElem?_eq_some_iff.mp found |>.1
    have column : col * rtcOf size ≤ 31 * rtcOf size :=
      Nat.mul_le_mul_right _ (Nat.le_of_lt_succ below)
    rcases marks with ⟨_, same⟩ | ⟨_, same⟩ | ⟨_, same⟩ | ⟨null, same⟩
    · omega
    · omega
    · omega
    · have last : col = 31 :=
        Nat.eq_of_mul_eq_mul_right (Nat.lt_of_lt_of_le Nat.zero_lt_two two) (by omega)
      subst last
      cases found
      omega

end Dummy

section Streams

variable {size : Nat}

/-- The index of `d` that a place of the buffer belongs to. -/
def sourceOf (size i : Nat) : Int :=
  let kpi := 32 * rtcOf size
  let nd := kpi - size
  if i < kpi then 3 * indexOf (rtcOf size) i - 3 * nd
  else if (i - kpi) % 2 = 0 then 3 * indexOf (rtcOf size) ((i - kpi) / 2) - 3 * nd + 1
  else 3 * indexOf (rtcOf size) ((i - kpi) / 2) - 3 * nd + 5

theorem stream_cases {kpi i : Nat} (inside : i < 3 * kpi) :
    i < kpi ∨ (∃ k < kpi, i = kpi + 2 * k) ∨ ∃ k < kpi, i = kpi + 1 + 2 * k := by
  rcases Nat.lt_or_ge i kpi with low | high
  · exact .inl low
  · rcases Nat.mod_two_eq_zero_or_one (i - kpi) with even | odd
    · exact .inr (.inl ⟨(i - kpi) / 2, by omega, by omega⟩)
    · exact .inr (.inr ⟨(i - kpi) / 2, by omega, by omega⟩)

theorem sourceOf_first {k : Nat} (inside : k < 32 * rtcOf size) :
    sourceOf size k = 3 * indexOf (rtcOf size) k - 3 * (32 * rtcOf size - size : Nat) :=
  if_pos inside

theorem sourceOf_second (size k : Nat) :
    sourceOf size (32 * rtcOf size + 2 * k) =
    3 * indexOf (rtcOf size) k - 3 * (32 * rtcOf size - size : Nat) + 1 := by
  rw [sourceOf]
  simp only [Nat.add_sub_cancel_left, Nat.mul_mod_right, Nat.mul_div_cancel_left k Nat.two_pos]
  rw [if_neg (by omega), if_pos trivial]

theorem sourceOf_third (size k : Nat) :
    sourceOf size (32 * rtcOf size + 1 + 2 * k) =
    3 * indexOf (rtcOf size) k - 3 * (32 * rtcOf size - size : Nat) + 5 := by
  have half : (1 + 2 * k) / 2 = k := by omega
  rw [sourceOf]
  simp only [Nat.add_assoc, Nat.add_sub_cancel_left, half]
  rw [if_neg (by omega), if_neg (by omega)]

/-- The buffer before its last place is made null. -/
theorem interleave_columns {d : Int → Nat} {w : Nat → Nat} {rtc nd : Nat} :
    ∀ k < 32 * rtc,
      let out := columns
        (fun (w : Nat → Nat) k index => Function.update (Function.update (Function.update w k
        (d (3 * index - 3 * nd))) (32 * rtc + 2 * k) (d (3 * index - 3 * nd + 1)))
          (32 * rtc + 1 + 2 * k)
          (d (3 * index - 3 * nd + 5))) rtc bitrev 0 w
      out k = d (3 * indexOf rtc k - 3 * nd) ∧ out (32 * rtc + 2 * k) =
        d (3 * indexOf rtc k - 3 * nd + 1) ∧
        out (32 * rtc + 1 + 2 * k) = d (3 * indexOf rtc k - 3 * nd + 5) := by
  refine @columns_rule _ _ rtc
    (fun n (out : Nat → Nat) => ∀ k < n, out k = d (3 * indexOf rtc k - 3 * nd) ∧
    out (32 * rtc + 2 * k) = d (3 * indexOf rtc k - 3 * nd + 1) ∧
      out (32 * rtc + 1 + 2 * k) = d (3 * indexOf rtc k - 3 * nd + 5)) w
        (fun n inside out earlier k below => ?_) (fun k none => ?_)
  · rcases Nat.lt_succ_iff_lt_or_eq.mp below with before | rfl
    · obtain ⟨first, second, third⟩ := earlier k before
      simp (disch := omega) only [Function.update_of_ne]
      exact ⟨first, second, third⟩
    · simp (disch := omega) only [Function.update_of_ne, Function.update_self]
      exact ⟨trivial, trivial, trivial⟩
  · cases none

/-- Only the last place belongs to the index that the interleaver itself writes. -/
theorem sourceOf_ne {i : Nat} (inside : i < 3 * (32 * rtcOf size) - 1) :
    sourceOf size i ≠ 3 * size + 2 := by
  have bounds := rtcOf_bounds size
  rcases stream_cases (show i < 3 * (32 * rtcOf size) by omega)
    with first | ⟨k, low, rfl⟩ | ⟨k, low, rfl⟩
  · rw [sourceOf_first first]
    omega
  · rw [sourceOf_second]
    omega
  · have next := indexOf_last low (by omega)
    rw [sourceOf_third]
    omega

theorem interleaved_eq {d : Int → Nat} {w : Nat → Nat} {i : Nat}
    (some_null : size < 32 * rtcOf size)
    (inside : i < 3 * (32 * rtcOf size) - 1) :
    (subBlockInterleavingTurbo size d w).2.1 i = d (sourceOf size i) := by
  rw [← Function.update_of_ne (sourceOf_ne inside) (d 2) d, subBlockInterleavingTurbo]
  simp only
  rw [if_pos (by omega), Function.update_of_ne (by omega)]
  rcases stream_cases (show i < 3 * (32 * rtcOf size) by omega)
    with first | ⟨k, low, rfl⟩ | ⟨k, low, rfl⟩
  · rw [sourceOf_first first]
    exact (interleave_columns i first).1
  · rw [sourceOf_second]
    exact (interleave_columns k low).2.1
  · rw [sourceOf_third]
    exact (interleave_columns k low).2.2

theorem interleaved_last {d : Int → Nat} {w : Nat → Nat} (some_null : size < 32 * rtcOf size) :
    (subBlockInterleavingTurbo size d w).2.1 (3 * (32 * rtcOf size) - 1) = lteNull := by
  rw [subBlockInterleavingTurbo]
  simp only
  rw [if_pos (by omega), Function.update_self]

theorem deinterleave_columns {d : Int → BitVec 16} {w : Nat → BitVec 16} {rtc nd : Nat} :
    ∀ k < 32 * rtc,
      let out := columns
        (fun (d : Int → BitVec 16) k index => Function.update (Function.update (Function.update d
        (3 * index - 3 * nd) (w k)) (3 * index - 3 * nd + 1) (w (32 * rtc + 2 * k)))
          (3 * index - 3 * nd + 5) (w (32 * rtc + 1 + 2 * k))) rtc bitrev 0 d
      out (3 * indexOf rtc k - 3 * nd) = w k ∧ out (3 * indexOf rtc k - 3 * nd + 1) =
        w (32 * rtc + 2 * k) ∧
        out (3 * indexOf rtc k - 3 * nd + 5) = w (32 * rtc + 1 + 2 * k) := by
  refine @columns_rule _ _ rtc
    (fun n (out : Int → BitVec 16) => ∀ k < n, out (3 * indexOf rtc k - 3 * nd) = w k ∧
    out (3 * indexOf rtc k - 3 * nd + 1) = w (32 * rtc + 2 * k) ∧
      out (3 * indexOf rtc k - 3 * nd + 5) =
        w (32 * rtc + 1 + 2 * k)) d (fun n inside out earlier k below => ?_) (fun k none => ?_)
  · rcases Nat.lt_succ_iff_lt_or_eq.mp below with before | rfl
    · obtain ⟨first, second, third⟩ := earlier k before
      have apart : indexOf rtc k ≠ indexOf rtc n := fun same =>
        Nat.ne_of_lt before (indexOf_injective (Nat.lt_trans before inside) inside same)
      simp (disch := omega) only [Function.update_of_ne]
      exact ⟨first, second, third⟩
    · simp (disch := omega) only [Function.update_of_ne, Function.update_self]
      exact ⟨trivial, trivial, trivial⟩
  · cases none

theorem deinterleaved_eq {d : Int → BitVec 16} {w : Nat → BitVec 16} {i : Nat}
    (inside : i < 3 * (32 * rtcOf size)) :
    subBlockDeinterleavingTurbo size d w (sourceOf size i) = w i := by
  rw [subBlockDeinterleavingTurbo]
  rcases stream_cases inside with first | ⟨k, low, rfl⟩ | ⟨k, low, rfl⟩
  · rw [sourceOf_first first]
    exact (deinterleave_columns i first).1
  · rw [sourceOf_second]
    exact (deinterleave_columns k low).2.1
  · rw [sourceOf_third]
    exact (deinterleave_columns k low).2.2

end Streams

end OpenAir.Phy
