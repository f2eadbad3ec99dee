import Mathlib.Data.List.Nodup

/-! Tables filled by stores at given places; a store outside fails. -/
namespace OpenAir.Table

variable {α : Type} {table : List α}

def store (table : List α) (i : Nat) (a : α) : Option (List α) :=
  if i < table.length then some (table.set i a) else none

def storeAll (table : List α) : List (Nat × α) → Option (List α)
  | [] => some table
  | (i, a) :: rest => (store table i a).bind fun table => storeAll table rest

theorem storeAll_distinct {stores : List (Nat × α)} (inside : ∀ p ∈ stores, p.1 < table.length)
    (distinct : (stores.map Prod.fst).Nodup) :
    ∃ filled, storeAll table stores = some filled ∧ filled.length = table.length ∧
      (∀ p ∈ stores, filled[p.1]? = some p.2) ∧ ∀ i, i ∉ stores.map Prod.fst →
        filled[i]? = table[i]? := by
  induction stores generalizing table with
  | nil => exact ⟨table, rfl, rfl, fun p member => absurd member List.not_mem_nil, fun _ _ => rfl⟩
  | cons first rest ih =>
    obtain ⟨i, a⟩ := first
    have here : i < table.length := inside (i, a) List.mem_cons_self
    rw [List.map_cons, List.nodup_cons] at distinct
    have insideRest : ∀ p ∈ rest, p.1 < (table.set i a).length := by
      intro p member
      rw [List.length_set]
      exact inside p (List.mem_cons_of_mem _ member)
    obtain ⟨filled, done, length, kept, others⟩ := ih insideRest distinct.2
    refine ⟨filled, ?_, ?_, ?_, ?_⟩
    · rw [storeAll, store, if_pos here, Option.bind_some, done]
    · rw [length, List.length_set]
    · intro p member
      rcases List.mem_cons.mp member with rfl | later
      · rw [others i distinct.1, List.getElem?_set_self here]
      · exact kept p later
    · intro j outside
      rw [List.map_cons, List.mem_cons, not_or] at outside
      rw [others j outside.2, List.getElem?_set_ne (Ne.symm outside.1)]

end OpenAir.Table
