/-! Runs of a deterministic machine whose steps can fail. -/
namespace OpenAir.Run

variable {σ τ ι : Type}

/-- The state after a list of inputs; `none` once a step has failed. -/
def run (step : σ → ι → Option σ) (s : σ) : List ι → Option σ
  | [] => some s
  | input :: rest => (step s input).bind fun s => run step s rest

theorem run_append {step : σ → ι → Option σ} {s mid : σ} {inputs more : List ι}
    (ran : run step s inputs = some mid) :
    run step s (inputs ++ more) = run step mid more := by
  induction inputs generalizing s with
  | nil =>
    cases ran
    rfl
  | cons input rest ih =>
    obtain ⟨next, stepped, ran⟩ := Option.bind_eq_some_iff.mp ran
    rw [List.cons_append, run, stepped, Option.bind_some, ih ran]

/-- A property that no input can break holds after every run, and no run fails. -/
theorem run_invariant {step : σ → ι → Option σ} {Inv : σ → Prop}
    (keep : ∀ s input, Inv s → ∃ s', step s input = some s' ∧ Inv s') {s : σ} (start : Inv s)
    (inputs : List ι) :
    ∃ s', run step s inputs = some s' ∧ Inv s' := by
  induction inputs generalizing s with
  | nil => exact ⟨s, rfl, start⟩
  | cons input rest ih =>
    obtain ⟨next, stepped, inv⟩ := keep s input start
    obtain ⟨last, ran, inv⟩ := ih inv
    exact ⟨last, by rw [run, stepped, Option.bind_some, ran], inv⟩

/-- Every input of a run meets a condition on the state it is given in. -/
def Meets (step : σ → ι → Option σ) (condition : σ → ι → Prop) (s : σ) : List ι → Prop
  | [] => True
  | input :: rest => condition s input ∧ ∀ next, step s input = some next →
      Meets step condition next rest

/-- Whether a run meets a condition can be computed. -/
instance Meets.decidable {step : σ → ι → Option σ}
    {condition : σ → ι → Prop} [∀ s input, Decidable (condition s input)] :
    (s : σ) → (inputs : List ι) → Decidable (Meets step condition s inputs)
  | _, [] => isTrue trivial
  | s, input :: rest =>
    match stepped : step s input with
    | none => decidable_of_iff (condition s input)
        ⟨fun here =>
          ⟨here, fun next same => absurd (stepped.symm.trans same).symm (Option.some_ne_none next)⟩,
          And.left⟩
    | some next =>
      haveI : Decidable (Meets step condition next rest) := Meets.decidable next rest
      decidable_of_iff (condition s input ∧ Meets step condition next rest)
        ⟨fun both => ⟨both.1, fun _ same => Option.some.inj (stepped.symm.trans same) ▸ both.2⟩,
          fun meets => ⟨meets.1, meets.2 next stepped⟩⟩

theorem meets_of_forall {step : σ → ι → Option σ} {condition : ι → Prop} {inputs : List ι}
    (all : ∀ input ∈ inputs, condition input)
    (s : σ) : Meets step (fun _ input => condition input) s inputs := by
  induction inputs generalizing s with
  | nil => trivial
  | cons input rest ih =>
    exact ⟨all input List.mem_cons_self,
      fun next _ => ih (fun other member => all other (List.mem_cons_of_mem _ member)) next⟩

/-- A property that inputs under a condition keep holds after every run that meets it. -/
theorem run_invariant_meets {step : σ → ι → Option σ} {Inv : σ → Prop} {condition : σ → ι → Prop}
    (keep : ∀ s input, Inv s → condition s input → ∃ s', step s input = some s' ∧ Inv s') {s : σ}
    (start : Inv s)
    {inputs : List ι} (meets : Meets step condition s inputs) :
    ∃ s', run step s inputs = some s' ∧ Inv s' := by
  induction inputs generalizing s with
  | nil => exact ⟨s, rfl, start⟩
  | cons input rest ih =>
    obtain ⟨next, stepped, inv⟩ := keep s input start meets.1
    obtain ⟨last, ran, inv⟩ := ih inv (meets.2 next stepped)
    exact ⟨last, by rw [run, stepped, Option.bind_some, ran], inv⟩

/-- The same for steps that may fail: the property holds wherever a run ends. -/
theorem run_keeps {step : σ → ι → Option σ} {Inv : σ → Prop} {condition : σ → ι → Prop}
    (keep : ∀ s input s', Inv s → condition s input → step s input = some s' → Inv s') {s s' : σ}
    (start : Inv s)
    {inputs : List ι} (meets : Meets step condition s inputs)
    (ran : run step s inputs = some s') : Inv s' := by
  induction inputs generalizing s with
  | nil =>
    cases ran
    exact start
  | cons input rest ih =>
    obtain ⟨next, stepped, ran⟩ := Option.bind_eq_some_iff.mp ran
    exact ih (keep s input next start meets.1 stepped) (meets.2 next stepped) ran

/-- Every input of a run that meets a condition is good, where an invariant that such inputs keep
makes it so. -/
theorem meets_of_invariant {step : σ → ι → Option σ} {Inv : σ → Prop}
    {condition good : σ → ι → Prop}
    (keep : ∀ s input s', Inv s → condition s input → step s input = some s' → Inv s')
    (enough : ∀ s input, Inv s → condition s input → good s input) {s : σ} (start : Inv s)
    {inputs : List ι}
    (meets : Meets step condition s inputs) : Meets step good s inputs := by
  induction inputs generalizing s with
  | nil => trivial
  | cons input rest ih =>
    exact ⟨enough s input start meets.1, fun next stepped =>
      ih (keep s input next start meets.1 stepped) (meets.2 next stepped)⟩

/-- A property that a step keeps exactly when it meets a condition, and that nothing brings back,
holds after a run exactly when the run meets the condition. -/
theorem run_exactly {step : σ → ι → Option σ} {Inv P : σ → Prop} {ok : ι → Prop}
    {condition : σ → ι → Prop}
    (keep : ∀ s input, Inv s → ok input → ∃ s', step s input = some s' ∧ Inv s' ∧
      (P s' ↔ P s ∧ condition s input))
    {inputs : List ι} (good : ∀ input ∈ inputs, ok input) {s : σ} (inv : Inv s) :
    ∃ s', run step s inputs = some s' ∧ Inv s' ∧ (P s' ↔ P s ∧ Meets step condition s inputs) := by
  induction inputs generalizing s with
  | nil => exact ⟨s, rfl, inv, (and_iff_left trivial).symm⟩
  | cons input rest ih =>
    obtain ⟨next, stepped, inv, exactly⟩ := keep s input inv (good input List.mem_cons_self)
    obtain ⟨last, ran, inv, holds⟩ :=
      ih (fun other member => good other (List.mem_cons_of_mem _ member)) inv
    refine ⟨last, by rw [run, stepped, Option.bind_some, ran], inv, ?_⟩
    rw [holds, exactly, and_assoc]
    refine and_congr_right
      fun _ => and_congr_right
      fun _ => ⟨fun meets other same => ?_, fun meets => meets next stepped⟩
    cases stepped.symm.trans same
    exact meets

/-- Where good inputs keep a property exactly under a condition, a run of good inputs goes through
and the property holds in every state of it exactly when the run meets the condition. -/
theorem runs_iff_meets {step : σ → ι → Option σ} {Inv P : σ → Prop} {ok condition : σ → ι → Prop}
    (keep : ∀ s input, Inv s → ok s input → ∃ s', step s input = some s' ∧ Inv s')
    (exactly : ∀ s input s', Inv s → P s → ok s input → step s input = some s' →
      (P s' ↔ condition s input)) {s : σ}
    (inv : Inv s) (holds : P s) {inputs : List ι} (good : Meets step ok s inputs) :
    (∀ before after, inputs = before ++ after → ∃ s', run step s before = some s' ∧ P s') ↔
      Meets step condition s inputs := by
  induction inputs generalizing s with
  | nil =>
    refine ⟨fun _ => trivial, fun _ before after whole => ?_⟩
    obtain ⟨rfl, -⟩ := List.append_eq_nil_iff.mp whole.symm
    exact ⟨s, rfl, holds⟩
  | cons input rest ih =>
    obtain ⟨next, stepped, invNext⟩ := keep s input inv good.1
    have one : P next ↔ condition s input := exactly s input next inv holds good.1 stepped
    have first : ∀ before, run step s (input :: before) = run step next before := fun before => by
      rw [run, stepped, Option.bind_some]
    constructor
    · intro always
      have holdsNext : P next := by
        obtain ⟨other, ran, holdsOther⟩ := always [input] rest rfl
        cases (first []).symm.trans ran
        exact holdsOther
      refine ⟨one.mp holdsNext, fun other same => ?_⟩
      cases stepped.symm.trans same
      refine (ih invNext holdsNext (good.2 next stepped)).mp fun before after whole => ?_
      rw [← first before]
      exact always (input :: before) after (by rw [whole, List.cons_append])
    · intro meets before after whole
      have holdsNext : P next := one.mpr meets.1
      cases before with
      | nil => exact ⟨s, rfl, holds⟩
      | cons other before =>
        obtain ⟨rfl, tail⟩ := List.cons.inj whole
        rw [first before]
        exact (ih invNext holdsNext (good.2 next stepped)).mpr (meets.2 next stepped)
          before after tail

/-- Where a step keeps a property exactly under a condition, the property holds in every state of a
run exactly when the run meets the condition. -/
theorem always_iff_meets {step : σ → ι → Option σ} {Inv P : σ → Prop} {condition : σ → ι → Prop}
    (keep : ∀ s input, Inv s → ∃ s', step s input = some s' ∧ Inv s')
    (exactly : ∀ s input s', Inv s → P s → step s input = some s' → (P s' ↔ condition s input))
    {s : σ} (inv : Inv s)
    (holds : P s) (inputs : List ι) :
    (∀ before after s', inputs = before ++ after → run step s before = some s' → P s') ↔
      Meets step condition s inputs := by
  have good : Meets step (fun _ _ => True) s inputs :=
    (@meets_of_forall _ _ _ (fun _ => True) _) (fun _ _ => trivial) s
  rw [← runs_iff_meets (fun s input inv _ => keep s input inv)
    (fun s input s' inv holds _ => exactly s input s' inv holds)
    inv holds good]
  constructor
  · intro always before after whole
    obtain ⟨last, ran, _⟩ := run_invariant keep inv before
    exact ⟨last, ran, always before after last whole ran⟩
  · intro runs before after s' whole ran
    obtain ⟨last, same, holds⟩ := runs before after whole
    cases same.symm.trans ran
    exact holds

theorem meets_append_iff {step : σ → ι → Option σ} {condition : σ → ι → Prop} {s mid : σ}
    {inputs more : List ι}
    (ran : run step s inputs = some mid) :
    Meets step condition s (inputs ++ more) ↔ Meets step condition s inputs ∧
    Meets step condition mid more := by
  induction inputs generalizing s with
  | nil =>
    cases ran
    exact (and_iff_right trivial).symm
  | cons input rest ih =>
    obtain ⟨next, stepped, ran⟩ := Option.bind_eq_some_iff.mp ran
    constructor
    · rintro ⟨first, later⟩
      obtain ⟨meets, after⟩ := (ih ran).mp (later next stepped)
      refine ⟨⟨first, fun other same => ?_⟩, after⟩
      cases stepped.symm.trans same
      exact meets
    · rintro ⟨⟨first, later⟩, after⟩
      refine ⟨first, fun other same => ?_⟩
      cases stepped.symm.trans same
      exact (ih ran).mpr ⟨later next stepped, after⟩

theorem Meets.append {step : σ → ι → Option σ} {condition : σ → ι → Prop} {s : σ}
    {inputs more : List ι}
    (meets : Meets step condition s (inputs ++ more)) :
    Meets step condition s inputs ∧ ∀ s', run step s inputs = some s' →
    Meets step condition s' more := by
  induction inputs generalizing s with
  | nil =>
    refine ⟨trivial, fun s' same => ?_⟩
    cases same
    exact meets
  | cons input rest ih =>
    refine ⟨⟨meets.1, fun next stepped => (ih (meets.2 next stepped)).1⟩, fun s' ran => ?_⟩
    obtain ⟨next, stepped, ran⟩ := Option.bind_eq_some_iff.mp ran
    exact (ih (meets.2 next stepped)).2 s' ran

/-- A relation that inputs under a condition keep holds after every run that meets it. -/
theorem run_simulates {step : σ → ι → Option σ} {spec : τ → ι → τ} {R : σ → τ → Prop}
    {condition : σ → ι → Prop}
    (keep : ∀ s a input, R s a → condition s input → ∃ s', step s input = some s' ∧
      R s' (spec a input)) {s : σ} {a : τ} (start : R s a)
    {inputs : List ι} (meets : Meets step condition s inputs) : ∃ s', run step s inputs = some s' ∧
    R s' (inputs.foldl spec a) := by
  induction inputs generalizing s a with
  | nil => exact ⟨s, rfl, start⟩
  | cons input rest ih =>
    obtain ⟨next, stepped, related⟩ := keep s a input start meets.1
    obtain ⟨last, ran, related⟩ := ih related (meets.2 next stepped)
    exact ⟨last, by rw [run, stepped, Option.bind_some, ran], related⟩

end OpenAir.Run
