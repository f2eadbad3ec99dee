import Mathlib.Data.List.Nodup
import Mathlib.Data.List.Range
import Mathlib.Data.List.Perm.Basic
import Mathlib.Logic.Function.Basic
import Mathlib.Data.Nat.ModEq
import Mathlib.Data.List.GetD

/-! The interleaving of the PDCCH, of the eNB and back at the UE. All loops copy four symbols
at a time, so the arrays are taken by quadruplets here. -/
namespace OpenAir.Phy.Pdcch

variable {Quad : Type}

def bitrevCcDci : List Nat :=
  [1, 17, 9, 25, 5, 21, 13, 29, 3, 19, 11, 27, 7, 23, 15, 31,
    0, 16, 8, 24, 4, 20, 12, 28, 2, 18, 10, 26, 6, 22, 14, 30]

/-- `DCI_BITS_MAX`: 88 CCEs of 72 bits. -/
def dciBitsMax : Nat := (2 * 33 + 22) * 72

def msymb : Nat := dciBitsMax / 2

/-- One store after the other; `none` once an index leaves the array. -/
@[grind =]
def stores (size : Nat) (array : Nat → Quad) : List (Nat × Quad) → Option (Nat → Quad)
  | [] => some array
  | (index, value) :: rest => if index < size then
      stores size (Function.update array index value) rest else none

def rcc (mquad : Nat) : Nat := mquad / 32 + if 0 < mquad % 32 then 1 else 0

/-- `index - ND` in the order of the two loops, where it is not negative. -/
def quadOrder (mquad : Nat) : List Nat :=
  let nd := 32 * rcc mquad - mquad
  ((bitrevCcDci.flatMap fun col => (List.range (rcc mquad)).map fun row => col + 32 * row).filter
    (nd ≤ ·)).map (· - nd)

/-- The eNB: `wtemp` is read column by column, then turned by the cell identity. -/
def pdcchInterleaving (mquad nidCell : Nat) (wtemp wbar z : Nat → Quad) : Option (Nat → Quad) := do
  let wtemp ← stores (msymb / 4) wtemp ((quadOrder mquad).mapIdx fun k quad => (k, z quad))
  stores (msymb / 4) wbar ((List.range mquad).map fun i => (i, wtemp ((i + nidCell) % mquad)))

/-- The UE; its `z` is `e_rx`, of 4800 entries. -/
def pdcchDeinterleaving (mquad nidCell : Nat) (wtemp z wbar : Nat → Quad) :
    Option (Nat → Quad) := do
  let wtemp ← stores (msymb / 4) wtemp
    ((List.range mquad).map fun i => ((i + nidCell) % mquad, wbar i))
  stores 1200 z ((quadOrder mquad).mapIdx fun k quad => (quad, wtemp k))

section Stores
variable {size : Nat} {array after : Nat → Quad} {list : List (Nat × Quad)}

theorem stores_inside (inside : ∀ entry ∈ list, entry.1 < size) : ∃ after, stores size array list =
    some after := by
  induction list generalizing array with
  | nil => exact ⟨array, rfl⟩
  | cons entry rest ih =>
    rw [stores, if_pos (inside entry List.mem_cons_self)]
    exact ih fun other member => inside other (List.mem_cons_of_mem _ member)

theorem stores_some (stored : stores size array list = some after) : ∀ entry ∈ list,
    entry.1 < size := by
  induction list generalizing array with
  | nil => exact fun _ member => by cases member
  | cons entry rest ih =>
    rw [stores] at stored
    split at stored
    · rename_i first
      intro other member
      obtain same | behind := List.mem_cons.mp member
      · rw [same]
        exact first
      · exact ih stored other behind
    · cases stored

theorem stores_other {index : Nat} (stored : stores size array list = some after)
    (apart : index ∉ list.map Prod.fst) :
    after index = array index := by
  induction list generalizing array with
  | nil =>
    cases stored
    rfl
  | cons entry rest ih =>
    rw [stores] at stored
    rw [List.map_cons] at apart
    split at stored
    · rw [ih stored (List.not_mem_of_not_mem_cons apart)]
      exact Function.update_of_ne (List.ne_of_not_mem_cons apart) ..
    · cases stored

theorem stores_get {index : Nat} {value : Quad} (stored : stores size array list = some after)
    (distinct : (list.map Prod.fst).Nodup) (member : (index, value) ∈ list) :
    after index = value := by
  induction list generalizing array with
  | nil => cases member
  | cons entry rest ih =>
    rw [stores] at stored
    rw [List.map_cons, List.nodup_cons] at distinct
    split at stored
    · obtain same | behind := List.mem_cons.mp member
      · subst same
        rw [stores_other stored distinct.1]
        exact Function.update_self ..
      · exact ih stored distinct.2 behind
    · cases stored

end Stores

section Order
variable {mquad : Nat}

theorem bitrevCcDci_perm : bitrevCcDci.Perm (List.range 32) := by decide

theorem rcc_rows (mquad : Nat) : mquad ≤ 32 * rcc mquad ∧ 32 * rcc mquad < mquad + 32 := by
  rw [rcc]
  split <;> omega

/-- Every quadruplet is copied, and once. -/
theorem quadOrder_perm (mquad : Nat) : (quadOrder mquad).Perm (List.range mquad) := by
  have rows := rcc_rows mquad
  have columns : ∀ col ∈ bitrevCcDci, col < 32 :=
    fun col member => List.mem_range.mp (bitrevCcDci_perm.subset member)
  have cells :
      (bitrevCcDci.flatMap
      fun col => (List.range (rcc mquad)).map fun row => col + 32 * row).Nodup := by
    rw [List.nodup_flatMap]
    constructor
    · intro col _
      refine List.Nodup.map (fun row row' same => ?_) List.nodup_range
      have equal : col + 32 * row = col + 32 * row' := same
      omega
    · refine (bitrevCcDci_perm.nodup_iff.mpr List.nodup_range).pairwise_of_forall_ne
        fun col member col' member' apart => ?_
      intro cell first second
      obtain ⟨row, _, rfl⟩ := List.mem_map.mp first
      obtain ⟨row', _, same⟩ := List.mem_map.mp second
      have small := columns col member
      have small' := columns col' member'
      omega
  have distinct : (quadOrder mquad).Nodup := by
    refine (cells.filter _).map_on fun cell member cell' member' same => ?_
    have above := of_decide_eq_true (List.mem_filter.mp member).2
    have above' := of_decide_eq_true (List.mem_filter.mp member').2
    omega
  refine (List.perm_ext_iff_of_nodup distinct List.nodup_range).mpr fun quad => ?_
  rw [List.mem_range, quadOrder, List.mem_map]
  constructor
  · rintro ⟨cell, member, rfl⟩
    obtain ⟨found, above⟩ := List.mem_filter.mp member
    obtain ⟨col, column, found⟩ := List.mem_flatMap.mp found
    obtain ⟨row, rowInside, rfl⟩ := List.mem_map.mp found
    have small := columns col column
    have few := List.mem_range.mp rowInside
    have enough := of_decide_eq_true above
    omega
  · intro inside
    have cell : quad + (32 * rcc mquad - mquad) < 32 * rcc mquad := by omega
    refine ⟨quad + (32 * rcc mquad - mquad),
      List.mem_filter.mpr ⟨?_, decide_eq_true (Nat.le_add_left ..)⟩, Nat.add_sub_cancel ..⟩
    refine List.mem_flatMap.mpr ⟨(quad + (32 * rcc mquad - mquad)) % 32, ?_, List.mem_map.mpr
      ⟨(quad + (32 * rcc mquad - mquad)) / 32, List.mem_range.mpr (by omega), Nat.mod_add_div ..⟩⟩
    exact bitrevCcDci_perm.mem_iff.mpr (List.mem_range.mpr (Nat.mod_lt _ (by decide)))

theorem quadOrder_length (mquad : Nat) : (quadOrder mquad).length = mquad :=
  (quadOrder_perm mquad).length_eq.trans List.length_range

theorem quadOrder_nodup (mquad : Nat) : (quadOrder mquad).Nodup :=
  (quadOrder_perm mquad).nodup_iff.mpr List.nodup_range

theorem turn_inj {nidCell i j : Nat} (first : i < mquad) (second : j < mquad)
    (same : (i + nidCell) % mquad = (j + nidCell) % mquad) : i = j := by
  have congruent : i ≡ j [MOD mquad] := Nat.ModEq.add_right_cancel' nidCell same
  rw [Nat.ModEq, Nat.mod_eq_of_lt first, Nat.mod_eq_of_lt second] at congruent
  exact congruent

end Order

section Undone
variable {mquad nidCell : Nat} {wtemp wbar z : Nat → Quad}

theorem mapIdx_fst {α : Type} (f : Nat → Nat → α) (list : List Nat) :
    (list.mapIdx fun k quad => (k, f k quad)).map Prod.fst = List.range list.length := by
  apply List.ext_getElem
  · simp
  · intro k inside within
    simp

theorem mapIdx_snd {α : Type} (f : Nat → α) (list : List Nat) :
    (list.mapIdx fun k quad => (quad, f k)).map Prod.fst = list := by
  apply List.ext_getElem
  · simp
  · intro k inside within
    simp

theorem pdcchInterleaving_isSome : (pdcchInterleaving mquad nidCell wtemp wbar z).isSome ↔
    mquad ≤ msymb / 4 := by
  constructor
  · intro done
    obtain ⟨after, interleaved⟩ := Option.isSome_iff_exists.mp done
    obtain ⟨filled, first, _⟩ := Option.bind_eq_some_iff.mp interleaved
    by_contra more
    have inside := stores_some first
    have last : msymb / 4 < (quadOrder mquad).length := by
      rw [quadOrder_length]
      omega
    exact Nat.lt_irrefl _ (inside (msymb / 4, z (quadOrder mquad)[msymb / 4])
      (List.mem_mapIdx.mpr ⟨msymb / 4, last, rfl⟩))
  · intro fits
    obtain ⟨filled, first⟩ :
        ∃ filled, stores (msymb / 4) wtemp ((quadOrder mquad).mapIdx fun k quad => (k, z quad)) =
        some filled := by
      refine stores_inside fun entry member => ?_
      obtain ⟨k, inside, rfl⟩ := List.mem_mapIdx.mp member
      rw [quadOrder_length] at inside
      exact Nat.lt_of_lt_of_le inside fits
    obtain ⟨after, second⟩ : ∃ after, stores (msymb / 4) wbar
        ((List.range mquad).map fun i => (i, filled ((i + nidCell) % mquad))) = some after := by
      refine stores_inside fun entry member => ?_
      obtain ⟨i, inside, rfl⟩ := List.mem_map.mp member
      exact Nat.lt_of_lt_of_le (List.mem_range.mp inside) fits
    rw [pdcchInterleaving, first, Option.bind_eq_bind, Option.bind_some, second]
    rfl

theorem pdcchInterleaving_get {after : Nat → Quad}
    (interleaved : pdcchInterleaving mquad nidCell wtemp wbar z = some after)
    {i : Nat} (inside : i < mquad) :
    after i = z ((quadOrder mquad).getD ((i + nidCell) % mquad) 0) := by
  obtain ⟨filled, first, second⟩ := Option.bind_eq_some_iff.mp interleaved
  have turned : (i + nidCell) % mquad < (quadOrder mquad).length := by
    rw [quadOrder_length]
    exact Nat.mod_lt _ (Nat.zero_lt_of_lt inside)
  have read : after i = filled ((i + nidCell) % mquad) := by
    refine stores_get second ?_ (List.mem_map.mpr ⟨i, List.mem_range.mpr inside, rfl⟩)
    rw [List.map_map]
    exact List.Nodup.map (fun _ _ same => same) List.nodup_range
  have wrote : filled ((i + nidCell) % mquad) = z (quadOrder mquad)[(i + nidCell) % mquad] := by
    refine stores_get first ?_ (List.mem_mapIdx.mpr ⟨_, turned, rfl⟩)
    rw [mapIdx_fst fun _ quad => z quad]
    exact List.nodup_range
  rw [read, wrote, List.getD_eq_getElem _ _ turned]

theorem pdcchDeinterleaving_get (some_ : 1 ≤ mquad) (fits : mquad ≤ msymb / 4) :
    ∃ after, pdcchDeinterleaving mquad nidCell wtemp z wbar = some after ∧
      ∀ i < mquad, after ((quadOrder mquad).getD ((i + nidCell) % mquad) 0) = wbar i := by
  have turned : ∀ i, (i + nidCell) % mquad < (quadOrder mquad).length := by
    intro i
    rw [quadOrder_length]
    exact Nat.mod_lt _ some_
  obtain ⟨filled, first⟩ : ∃ filled, stores (msymb / 4) wtemp
      ((List.range mquad).map fun i => ((i + nidCell) % mquad, wbar i)) = some filled := by
    refine stores_inside fun entry member => ?_
    obtain ⟨i, _, rfl⟩ := List.mem_map.mp member
    exact Nat.lt_of_lt_of_le (Nat.mod_lt _ some_) fits
  obtain ⟨after, second⟩ :
      ∃ after, stores 1200 z ((quadOrder mquad).mapIdx fun k quad => (quad, filled k)) =
      some after := by
    refine stores_inside fun entry member => ?_
    obtain ⟨k, inside, rfl⟩ := List.mem_mapIdx.mp member
    have quad := List.mem_range.mp ((quadOrder_perm mquad).subset (List.getElem_mem inside))
    exact Nat.lt_of_lt_of_le quad (fits.trans (by decide))
  refine ⟨after, by
    rw [pdcchDeinterleaving, first, Option.bind_eq_bind, Option.bind_some, second],
      fun i inside => ?_⟩
  have place := turned i
  have read : after (quadOrder mquad)[(i + nidCell) % mquad] = filled ((i + nidCell) % mquad) := by
    refine stores_get second ?_ (List.mem_mapIdx.mpr ⟨_, place, rfl⟩)
    rw [mapIdx_snd]
    exact quadOrder_nodup mquad
  have wrote : filled ((i + nidCell) % mquad) = wbar i := by
    refine stores_get first ?_ (List.mem_map.mpr ⟨i, List.mem_range.mpr inside, rfl⟩)
    rw [List.map_map]
    exact List.nodup_range.map_on fun i first j second same =>
      turn_inj (List.mem_range.mp first) (List.mem_range.mp second) same
  rw [List.getD_eq_getElem _ _ place, read, wrote]

theorem pdcch_deinterleaved {wtemp' z' : Nat → Quad} (some_ : 1 ≤ mquad)
    (fits : mquad ≤ msymb / 4) :
    ∃ sent received, pdcchInterleaving mquad nidCell wtemp wbar z = some sent ∧
      pdcchDeinterleaving mquad nidCell wtemp' z' sent = some received ∧ ∀ quad < mquad,
      received quad = z quad := by
  have room : (pdcchInterleaving mquad nidCell wtemp wbar z).isSome :=
    pdcchInterleaving_isSome.mpr fits
  obtain ⟨sent, interleaved⟩ := Option.isSome_iff_exists.mp room
  obtain ⟨received, deinterleaved, back⟩ : ∃ received,
    pdcchDeinterleaving mquad nidCell wtemp' z' sent = some received ∧
      ∀ i < mquad, received ((quadOrder mquad).getD ((i + nidCell) % mquad) 0) = sent i :=
    pdcchDeinterleaving_get some_ fits
  refine ⟨sent, received, interleaved, deinterleaved, fun quad inside => ?_⟩
  -- the turn in which this quadruplet is copied
  have copied : quad ∈ quadOrder mquad :=
    (quadOrder_perm mquad).mem_iff.mpr (List.mem_range.mpr inside)
  obtain ⟨k, few, place⟩ := List.getElem_of_mem copied
  rw [quadOrder_length] at few
  have turned : (((k + mquad - nidCell % mquad) % mquad) + nidCell) % mquad = k := by
    have small : nidCell % mquad < mquad := Nat.mod_lt _ some_
    rw [Nat.mod_add_mod, ← Nat.mod_add_div nidCell mquad, ← Nat.add_assoc,
      Nat.add_mul_mod_self_left, Nat.mod_add_div, Nat.sub_add_cancel (by omega), Nat.add_mod_right,
        Nat.mod_eq_of_lt few]
  have slot : (k + mquad - nidCell % mquad) % mquad < mquad := Nat.mod_lt _ some_
  have read := back _ slot
  rw [pdcchInterleaving_get interleaved slot, turned,
    List.getD_eq_getElem _ _ (by rw [quadOrder_length]; exact few), place] at read
  exact read

end Undone

end OpenAir.Phy.Pdcch
