import Mathlib.Logic.Function.Basic

/-! Writes to the entries of an array, one after the other: the last one stays. -/
namespace OpenAir.Writes

variable {κ β : Type} [DecidableEq κ] {key : κ} {entries : κ → β} {writes later : List (κ × β)}

def run (entries : κ → β) : List (κ × β) → κ → β
  | [] => entries
  | write :: rest => run (Function.update entries write.1 write.2) rest

/-- The last write at a key. -/
def last : List (κ × β) → κ → Option β
  | [], _ => none
  | write :: rest, key => (last rest key).or (if write.1 = key then some write.2 else none)

theorem last_mem {value : β} (stored : last writes key = some value) : (key, value) ∈ writes := by
  induction writes with
  | nil => exact nomatch stored
  | cons write rest ih =>
    rw [last] at stored
    cases later : last rest key with
    | some other =>
      rw [later] at stored
      cases stored
      exact List.mem_cons_of_mem _ (ih later)
    | none =>
      rw [later] at stored
      obtain ⟨rfl, rfl⟩ : write.1 = key ∧ write.2 = value := by simpa using stored
      exact List.mem_cons_self
theorem run_append : run entries (writes ++ later) = run (run entries writes) later := by
  induction writes generalizing entries with
  | nil => rfl
  | cons write rest ih => exact ih

theorem run_eq (key : κ) : run entries writes key = (last writes key).getD (entries key) := by
  induction writes generalizing entries with
  | nil => rfl
  | cons write rest ih =>
    rw [run, ih, last]
    cases last rest key with
    | some value => rfl
    | none =>
      by_cases same : write.1 = key
      · subst same
        rw [if_pos rfl, Option.getD_none, Function.update_self]
        rfl
      · rw [if_neg same, Option.getD_none, Function.update_of_ne (Ne.symm same)]
        rfl

/-- An entry is as before exactly when the last write there stores what it held. -/
theorem run_unchanged_iff : run entries writes key = entries key ↔
    ∀ value, last writes key = some value → value = entries key := by
  rw [run_eq]
  cases last writes key with
  | none => exact iff_of_true rfl fun value impossible => nomatch impossible
  | some value =>
    constructor
    · intro same other stored
      cases stored
      exact same
    · intro same
      exact same value rfl

end OpenAir.Writes
