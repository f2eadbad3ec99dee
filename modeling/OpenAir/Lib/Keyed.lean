import Mathlib.Algebra.Ring.Int.Defs
import Mathlib.Data.List.Nodup
import Mathlib.Algebra.BigOperators.Group.List.Basic

/-! Lists of records with a key: the position of a key, and replacing the record of a key or adding
it behind. -/
namespace OpenAir.Keyed

variable {α β κ : Type} [DecidableEq κ] {key : α → κ}

def position (key : α → κ) (l : List α) (k : κ) : Option Nat := l.findIdx? fun x => key x = k

def lastPosition (key : α → κ) (k : κ) : List α → Option Nat
  | [] => none
  | x :: rest =>
    match lastPosition key k rest with
    | some j => some (j + 1)
    | none => if key x = k then some 0 else none

/-- The record takes the place of the one with its key, or is added behind all. -/
def put (key : α → κ) (l : List α) (u : α) : List α :=
  match position key l (key u) with
  | some i => l.set i u
  | none => l ++ [u]

def puts (key : α → κ) (l : List α) (us : List α) : List α := us.foldl (put key) l

section Position

variable {l : List α} {k : κ} {i : Nat}

theorem position_some (found : position key l k = some i) : ∃ inside :
    i < l.length, key l[i] = k := by
  obtain ⟨inside, here, -⟩ := List.findIdx?_eq_some_iff_getElem.mp found
  exact ⟨inside, of_decide_eq_true here⟩

theorem position_none : position key l k = none ↔ k ∉ l.map key := by
  rw [position, List.findIdx?_eq_none_iff, List.mem_map]
  constructor
  · rintro absent ⟨x, member, same⟩
    exact of_decide_eq_false (absent x member) same
  · intro absent x member
    exact decide_eq_false fun same => absent ⟨x, member, same⟩

/-- Only the keys matter for positions. -/
theorem position_keys : position key l k = (l.map key).findIdx? fun x => x = k := by
  rw [List.findIdx?_map]
  rfl

theorem lastPosition_none (absent : k ∉ l.map key) : lastPosition key k l = none := by
  induction l with
  | nil => rfl
  | cons x rest ih =>
    rw [List.map_cons, List.mem_cons, not_or] at absent
    rw [lastPosition, ih absent.2]
    exact if_neg fun same => absent.1 same.symm

/-- With different keys the last record with a key is the first one. -/
theorem lastPosition_eq (distinct : (l.map key).Nodup) :
    lastPosition key k l = position key l k := by
  induction l with
  | nil => rfl
  | cons x rest ih =>
    obtain ⟨other, distinct⟩ := List.nodup_cons.mp distinct
    rw [lastPosition, position, List.findIdx?_cons]
    by_cases here : key x = k
    · subst here
      rw [lastPosition_none other, if_pos rfl, if_pos (decide_eq_true rfl)]
    · rw [ih distinct, if_neg here, decide_eq_false here, position]
      cases List.findIdx? (fun x => decide (key x = k)) rest with
      | none => rfl
      | some j => rfl

end Position

section Put

variable {l us : List α} {u : α} {k : κ} {i : Nat}

theorem keys_put_some (found : position key l (key u) = some i) :
    (put key l u).map key = l.map key := by
  obtain ⟨inside, same⟩ := position_some found
  rw [put, found]
  simp only [List.map_set, ← same]
  rw [← List.getElem_map key (h := by rw [List.length_map]; exact inside), List.set_getElem_self]

theorem put_none (absent : position key l (key u) = none) : put key l u = l ++ [u] := by
  rw [put, absent]

theorem put_some (found : position key l (key u) = some i) : put key l u = l.set i u := by
  rw [put, found]

theorem put_distinct (distinct : (l.map key).Nodup) : ((put key l u).map key).Nodup := by
  cases found : position key l (key u) with
  | some i => rwa [keys_put_some found]
  | none =>
    rw [put_none found, List.map_append, List.map_singleton]
    exact distinct.append (List.nodup_singleton _)
      (List.disjoint_singleton.mpr (position_none.mp found))

theorem position_put (other : k ≠ key u) : position key (put key l u) k = position key l k := by
  cases found : position key l (key u) with
  | some i => rw [position_keys, keys_put_some found, ← position_keys]
  | none =>
    rw [put_none found, position, List.findIdx?_append, List.findIdx?_singleton,
      if_neg (by simpa using other.symm)]
    exact Option.or_none

theorem getElem?_put (other : k ≠ key u) (at_ : position key l k = some i) :
    (put key l u)[i]? = l[i]? := by
  obtain ⟨inside, same⟩ := position_some at_
  cases found : position key l (key u) with
  | some j =>
    obtain ⟨_, same'⟩ := position_some found
    rw [put_some found, List.getElem?_set_ne]
    rintro rfl
    exact other (same.symm.trans same')
  | none => rw [put_none found, List.getElem?_append_left inside]

theorem length_put_le : l.length ≤ (put key l u).length := by
  unfold put
  split
  · exact Nat.le_of_eq List.length_set.symm
  · rw [List.length_append]
    exact Nat.le_add_right _ _

theorem length_puts_le : l.length ≤ (puts key l us).length := by
  induction us generalizing l with
  | nil => exact Nat.le_refl _
  | cons u us ih => exact Nat.le_trans length_put_le ih

theorem mem_put {x : α} (member : x ∈ put key l u) : x ∈ l ∨ x = u := by
  cases found : position key l (key u) with
  | some i =>
    rw [put_some found] at member
    exact List.mem_or_eq_of_mem_set member
  | none =>
    rw [put_none found, List.mem_append, List.mem_singleton] at member
    exact member

theorem mem_puts {x : α} (member : x ∈ puts key l us) : x ∈ l ∨ x ∈ us := by
  induction us generalizing l with
  | nil => exact .inl member
  | cons u us ih =>
    rcases ih member with earlier | later
    · rcases mem_put earlier with there | rfl
      · exact .inl there
      · exact .inr List.mem_cons_self
    · exact .inr (List.mem_cons_of_mem _ later)

end Put

/-- The record of a key; the last one, should there be more. -/
def record (key : α → κ) (l : List α) (k : κ) : Option α :=
  (lastPosition key k l).bind fun i => l[i]?

section Record

variable {l us : List α} {u x : α} {k : κ} {i : Nat}

theorem record_at (distinct : (l.map key).Nodup) (at_ : position key l k = some i)
    (inside : i < l.length) :
    record key l k = some l[i] := by
  rw [record, lastPosition_eq distinct, at_]
  exact List.getElem?_eq_getElem inside

theorem record_none (distinct : (l.map key).Nodup) : record key l k = none ↔ k ∉ l.map key := by
  rw [← position_none]
  constructor
  · intro absent
    cases at_ : position key l k with
    | none => rfl
    | some i =>
      obtain ⟨inside, -⟩ := position_some at_
      rw [record_at distinct at_ inside] at absent
      cases absent
  · intro absent
    rw [record, lastPosition_eq distinct, absent]
    rfl

theorem record_put (distinct : (l.map key).Nodup) (other : k ≠ key u) : record key (put key l u) k =
    record key l k := by
  rw [record, record, lastPosition_eq distinct, lastPosition_eq (put_distinct distinct),
    position_put other]
  cases at_ : position key l k with
  | none => rfl
  | some i => exact getElem?_put other at_

theorem length_put (distinct : (l.map key).Nodup) :
    (put key l u).length = l.length + if record key l (key u) = none then 1 else 0 := by
  cases at_ : position key l (key u) with
  | none =>
    rw [put_none at_, if_pos ((record_none distinct).mpr (position_none.mp at_)),
      List.length_append, List.length_singleton]
  | some i =>
    obtain ⟨inside, -⟩ := position_some at_
    rw [put_some at_, record_at distinct at_ inside, if_neg (Option.some_ne_none _),
      List.length_set, Nat.add_zero]

theorem sum_set (w : α → Int) (inside : i < l.length) :
    ((l.set i u).map w).sum = (l.map w).sum - w l[i] + w u := by
  induction l generalizing i with
  | nil => exact absurd inside (Nat.not_lt_zero i)
  | cons x rest ih =>
    cases i with
    | zero =>
      simp only [List.set_cons_zero, List.map_cons, List.sum_cons, List.getElem_cons_zero]
      omega
    | succ i =>
      simp only [List.set_cons_succ, List.map_cons, List.sum_cons, List.getElem_cons_succ,
        ih (Nat.lt_of_succ_lt_succ inside)]
      omega

theorem sum_put (distinct : (l.map key).Nodup) (w : α → Int) :
    ((put key l u).map w).sum = (l.map w).sum - (record key l (key u)).elim 0 w + w u := by
  cases at_ : position key l (key u) with
  | none =>
    rw [put_none at_, (record_none distinct).mpr (position_none.mp at_), List.map_append,
      List.sum_append, List.map_singleton, List.sum_singleton, Option.elim_none, Int.sub_zero]
  | some i =>
    obtain ⟨inside, -⟩ := position_some at_
    rw [put_some at_, record_at distinct at_ inside, sum_set w inside, Option.elim_some]

/-- The records with keys that are not there. -/
def fresh (key : α → κ) (l us : List α) : List α := us.filter fun u => key u ∉ l.map key

theorem fresh_cons (distinct : (l.map key).Nodup) : (fresh key l (u :: us)).length =
    (if record key l (key u) = none then 1 else 0) + (fresh key l us).length := by
  by_cases there : key u ∈ l.map key
  · have known : record key l (key u) ≠ none := fun absent => (record_none distinct).mp absent there
    rw [fresh, List.filter_cons_of_neg (by simpa using there), if_neg known, Nat.zero_add, fresh]
  · rw [fresh, List.filter_cons_of_pos (by simpa using there),
      if_pos ((record_none distinct).mpr there), List.length_cons, Nat.add_comm, fresh]

/-- Records with different keys add those that were not there. -/
theorem length_puts (distinct : (l.map key).Nodup) (once : (us.map key).Nodup) :
    (puts key l us).length = l.length + (fresh key l us).length := by
  induction us generalizing l with
  | nil => rfl
  | cons u us ih =>
    obtain ⟨other, once⟩ := List.nodup_cons.mp once
    have same : fresh key (put key l u) us = fresh key l us := by
      refine List.filter_congr fun v member => decide_eq_decide.mpr (not_congr ?_)
      have different : key v ≠ key u := fun same => other (same ▸ List.mem_map_of_mem member)
      rw [← not_iff_not, ← record_none distinct, ← record_none (put_distinct distinct),
        record_put distinct different]
    show (puts key (put key l u) us).length = _
    rw [ih (put_distinct distinct) once, same, length_put distinct,
      fresh_cons distinct, Nat.add_assoc]

theorem puts_distinct (distinct : (l.map key).Nodup) : ((puts key l us).map key).Nodup := by
  induction us generalizing l with
  | nil => exact distinct
  | cons u us ih => exact ih (put_distinct distinct)

end Record

end OpenAir.Keyed
