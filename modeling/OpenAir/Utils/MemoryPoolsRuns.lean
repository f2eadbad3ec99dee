import OpenAir.Lib.Run
import OpenAir.Utils.MemoryRing

/-! No item of a pool is lost or given out twice, as long as no call comes in the way of an
allocation that has to give its position back or to clear its cell. -/
namespace OpenAir.MemoryPools
open OpenAir.Run OpenAir.Serial

/-- What a call does in the ring of a pool. -/
def Call.inPool (k : Nat) : Call → Option Phase
  | .idle => none
  | .allocating _ pool phase => if pool = k then some phase else none
  | .freeing pool phase => if pool = k then some phase else none

namespace Pools

@[grind =]
def phaseAt (s : Pools) (k t : Nat) : Option Phase := (s.calls t).inPool k

def HeldAt (s : Pools) (k i : Nat) : Prop := ∃ x ∈ s.held, x.pool = k ∧ x.index = i

end Pools

/-- The steps of `items_group_get_free_item`. -/
def Phase.OfGet : Phase → Prop
  | .readPut | .advanceGet _ | .giveBack | .readIndex _ | .wrapGet _ _ | .clearIndex _ _ => True
  | .advancePut _ | .wrapPut _ _ | .checkIndex _ _ | .saveIndex _ _ => False

/-- Every item of every pool is where the calls and the callers know it to be. -/
structure Conserved (items : Nat → Nat) (s : Pools) : Prop where
  alive : s.aborted = false
  sound : ∀ k < s.poolsDefined, ∃ w, Sound (items k) (s.pools k).group (s.phaseAt k) (s.HeldAt k) w
  status : ∀ k < s.poolsDefined, ∀ i, (s.pools k).allocated i = true ↔ s.HeldAt k i
  distinct : (s.held.map fun x => (x.pool, x.index)).Nodup
  large : ∀ x ∈ s.held, x.pool < s.poolsDefined ∧ x.itemSize ≤ (s.pools x.pool).itemDataNumber * 4
  allocating : ∀ t size k phase, s.calls t = .allocating size k phase →
    k < s.poolsDefined ∧ size ≤ (s.pools k).itemDataNumber * 4 ∧ phase.OfGet
  freeing : ∀ t k phase, s.calls t = .freeing k phase → k < s.poolsDefined ∧ ¬ phase.OfGet

/-- No other call is in the way of the one that moves a position. -/
def Undisturbed (s : Pools) : Action → Prop
  | .run t =>
    match s.calls t with
    | .allocating _ k (.advanceGet _) => AdvanceClear (s.pools k).group (s.phaseAt k) t
    | .freeing k (.advancePut _) =>
      (s.pools k).group.indexes ((s.pools k).group.place (s.pools k).group.put) = none
    | _ => True
  | _ => True

section Frame
variable {s : Pools} {t k : Nat}

theorem phaseAt_setCall (s : Pools) (t k : Nat) (call : Call) :
    (s.setCall t call).phaseAt k = Function.update (s.phaseAt k) t (call.inPool k) := by
  funext u
  have call_ : (s.setCall t call).calls u = if u = t then call else s.calls u :=
    Function.update_apply ..
  rw [Pools.phaseAt, call_, Function.update_apply]
  split <;> rfl

theorem select_spec {size first pool : Nat} (found : s.select size first = some pool) :
    first ≤ pool ∧ pool < s.poolsDefined ∧ size ≤ (s.pools pool).itemDataNumber * 4 := by
  have member := List.mem_of_find?_eq_some found
  have large := List.find?_some found
  rw [List.mem_range'_1] at member
  simp only [decide_eq_true_eq, Nat.not_lt] at large
  exact ⟨member.1, by omega, large⟩

theorem select_least {size first pool : Nat} (found : s.select size first = some pool) {k : Nat}
    (after : first ≤ k) (before : k < pool) :
    (s.pools k).itemDataNumber * 4 < size := by
  obtain ⟨_, _, least⟩ := List.find?_range'_eq_some.mp found
  simpa using least k after before

theorem select_none {size first : Nat} (missing : s.select size first = none) {pool : Nat}
    (after : first ≤ pool)
    (defined : pool < s.poolsDefined) : (s.pools pool).itemDataNumber * 4 < size := by
  have small := List.find?_eq_none.mp missing pool (List.mem_range'_1.mpr ⟨after, by omega⟩)
  simpa using small

/-- A step of one thread in one pool, seen from all pools. -/
structure Moved (s s' : Pools) (t p : Nat) (call : Call) : Prop where
  defined : s'.poolsDefined = s.poolsDefined
  alive : s'.aborted = false
  calls : s'.calls = Function.update s.calls t call
  others : ∀ k ≠ p, s'.pools k = s.pools k
  size : (s'.pools p).itemDataNumber = (s.pools p).itemDataNumber
  held : ∀ k ≠ p, ∀ i, s'.HeldAt k i ↔ s.HeldAt k i
  before : ∀ k ≠ p, Neutral (s.phaseAt k t)
  after : ∀ k ≠ p, Neutral (call.inPool k)

variable {items : Nat → Nat} {s' : Pools} {p : Nat} {call : Call}

theorem Moved.phaseAt (moved : Moved s s' t p call)
    (k : Nat) : s'.phaseAt k = Function.update (s.phaseAt k) t (call.inPool k) := by
  rw [← phaseAt_setCall]
  funext u
  rw [Pools.phaseAt, moved.calls]
  rfl

theorem Moved.dataNumber (moved : Moved s s' t p call)
    (k : Nat) : (s'.pools k).itemDataNumber = (s.pools k).itemDataNumber := by
  by_cases here : k = p
  · rw [here]
    exact moved.size
  · rw [moved.others k here]

theorem Moved.conserved (moved : Moved s s' t p call) (conserved : Conserved items s)
    (sound : p < s.poolsDefined →
      ∃ w, Sound (items p) (s'.pools p).group (Function.update (s.phaseAt p) t (call.inPool p))
      (s'.HeldAt p) w)
    (status : p < s.poolsDefined → ∀ i, (s'.pools p).allocated i = true ↔ s'.HeldAt p i)
    (distinct : (s'.held.map fun x => (x.pool, x.index)).Nodup)
    (large : ∀ x ∈ s'.held, x.pool < s.poolsDefined ∧
      x.itemSize ≤ (s.pools x.pool).itemDataNumber * 4)
    (allocating : ∀ size k phase, call = .allocating size k phase →
      k < s.poolsDefined ∧ size ≤ (s.pools k).itemDataNumber * 4 ∧ phase.OfGet)
    (freeing : ∀ k phase, call = .freeing k phase → k < s.poolsDefined ∧ ¬ phase.OfGet) :
    Conserved items s' where
  alive := moved.alive
  sound k defined := by
    rw [moved.defined] at defined
    by_cases here : k = p
    · subst here
      rw [moved.phaseAt]
      exact sound defined
    · obtain ⟨w, was⟩ := conserved.sound k defined
      have held : s'.HeldAt k = s.HeldAt k := funext fun i => propext (moved.held k here i)
      rw [moved.phaseAt, moved.others k here, held]
      exact ⟨w, was.neutral (moved.before k here) (moved.after k here)⟩
  status k defined i := by
    rw [moved.defined] at defined
    by_cases here : k = p
    · subst here
      exact status defined i
    · rw [moved.others k here, moved.held k here i]
      exact conserved.status k defined i
  distinct := distinct
  large x member := by
    rw [moved.defined, moved.dataNumber]
    exact large x member
  allocating u size k phase doing := by
    rw [moved.calls, Function.update_apply] at doing
    rw [moved.defined, moved.dataNumber]
    split at doing
    · exact allocating size k phase doing
    · exact conserved.allocating u size k phase doing
  freeing u k phase doing := by
    rw [moved.calls, Function.update_apply] at doing
    rw [moved.defined]
    split at doing
    · exact freeing k phase doing
    · exact conserved.freeing u k phase doing

/-- The thread is in the ring of one pool only. -/
theorem inPool_elsewhere {size k : Nat} {phase : Phase} (other : k ≠ p) :
    Neutral ((Call.allocating size p phase).inPool k) :=
  Or.inl (if_neg other.symm)

theorem inPool_freeing_elsewhere {k : Nat} {phase : Phase} (other : k ≠ p) :
    Neutral ((Call.freeing p phase).inPool k) :=
  Or.inl (if_neg other.symm)

theorem Conserved.goOn (conserved : Conserved items s) {g : ItemsGroup}
    (before : ∀ k ≠ p, Neutral (s.phaseAt k t)) (after : ∀ k ≠ p, Neutral (call.inPool k))
    (sound : p < s.poolsDefined →
      ∃ w, Sound (items p) g (Function.update (s.phaseAt p) t (call.inPool p)) (s.HeldAt p) w)
    (allocating : ∀ size k phase, call = .allocating size k phase →
      k < s.poolsDefined ∧ size ≤ (s.pools k).itemDataNumber * 4 ∧ phase.OfGet)
    (freeing : ∀ k phase, call = .freeing k phase → k < s.poolsDefined ∧ ¬ phase.OfGet) :
    Conserved items ((s.setGroup p g).setCall t call) := by
  have pools : ((s.setGroup p g).setCall t call).pools p = { s.pools p with group := g } :=
    Function.update_self ..
  have moved : Moved s ((s.setGroup p g).setCall t call) t p call :=
    { defined := rfl
      alive := conserved.alive
      calls := rfl
      others := fun k other => Function.update_of_ne other ..
      size := by rw [pools]
      held := fun _ _ _ => Iff.rfl
      before := before
      after := after }
  refine moved.conserved conserved ?_ ?_ conserved.distinct conserved.large allocating freeing
  · rw [pools]
    exact sound
  · rw [pools]
    exact conserved.status p

theorem setGroup_pools (s : Pools) (p k : Nat) (g : ItemsGroup) :
    (s.setGroup p g).pools k = if k = p then { s.pools p with group := g } else s.pools k :=
  Function.update_apply ..

theorem setGroup_self (s : Pools) (p : Nat) : s.setGroup p (s.pools p).group = s := by
  have same : Function.update s.pools p { s.pools p with group := (s.pools p).group } = s.pools :=
    Function.update_eq_self p s.pools
  rw [Pools.setGroup, Pools.setPool, same]

/-- The call goes on to a pool that comes later, or ends. -/
theorem Conserved.tryFrom (conserved : Conserved items s) {g : ItemsGroup} {size first : Nat}
    (later : p < first ∨ s.poolsDefined ≤ p)
    (before : ∀ k ≠ p, Neutral (s.phaseAt k t))
    (sound : p < s.poolsDefined →
      ∃ w, Sound (items p) g (Function.update (s.phaseAt p) t none) (s.HeldAt p) w) :
    Conserved items ((s.setGroup p g).tryFrom t size first) := by
  have data (k : Nat) : ((s.setGroup p g).pools k).itemDataNumber = (s.pools k).itemDataNumber := by
    rw [setGroup_pools]
    split
    · rename_i here
      rw [here]
    · rfl
  rw [Pools.tryFrom]
  cases found : (s.setGroup p g).select size first with
  | none =>
    exact conserved.goOn before (fun _ _ => Or.inl rfl) sound nofun nofun
  | some k =>
    obtain ⟨after, defined, large⟩ := select_spec found
    rw [data] at large
    have defined : k < s.poolsDefined := defined
    have elsewhere : (Call.allocating size k .readPut).inPool p = none := if_neg (by omega)
    refine conserved.goOn before (fun j _ => ?_) (by rw [elsewhere]; exact sound)
      (fun size k phase same => ?_) nofun
    · rw [Call.inPool]
      split
      · exact Or.inr (Or.inl rfl)
      · exact Or.inl rfl
    · cases same
      exact ⟨defined, large, trivial⟩

end Frame

section Actions
variable {items : Nat → Nat} {s s' : Pools} {t : Nat}

theorem Conserved.allocate (conserved : Conserved items s) {size : Nat} (idle : s.calls t = .idle) :
    Conserved items (s.tryFrom t size 0) := by
  have outside (k : Nat) : s.phaseAt k t = none := by
    rw [Pools.phaseAt, idle]
    rfl
  have went : Conserved items
      ((s.setGroup s.poolsDefined (s.pools s.poolsDefined).group).tryFrom t size 0) :=
    conserved.tryFrom (Or.inr (Nat.le_refl _)) (fun k _ => Or.inl (outside k))
      (fun no => absurd no (Nat.lt_irrefl _))
  rwa [setGroup_self] at went

theorem heldAt_takeBack (conserved : Conserved items s) {x : Holding}
    (member : x ∈ s.held) (k i : Nat) :
    (s.takeBack t x).HeldAt k i ↔ ¬ (k = x.pool ∧ i = x.index) ∧ s.HeldAt k i := by
  have distinct := conserved.distinct
  have nodup : s.held.Nodup := distinct.of_map _
  constructor
  · rintro ⟨y, there, rfl, rfl⟩
    obtain ⟨other, there⟩ := nodup.mem_erase_iff.mp there
    refine ⟨fun same => other ?_, y, there, rfl, rfl⟩
    exact List.inj_on_of_nodup_map distinct there member (Prod.ext same.1 same.2)
  · rintro ⟨other, y, there, rfl, rfl⟩
    exact ⟨y, nodup.mem_erase_iff.mpr ⟨fun same => other (same ▸ ⟨rfl, rfl⟩), there⟩, rfl, rfl⟩

theorem takeBack_pool (s : Pools) (t : Nat) (x : Holding) : (s.takeBack t x).pools x.pool =
    { s.pools x.pool with allocated := Function.update (s.pools x.pool).allocated x.index false } :=
  Function.update_self ..

theorem Conserved.free (conserved : Conserved items s) {x : Holding} (idle : s.calls t = .idle)
    (member : x ∈ s.held) :
    Conserved items (s.takeBack t x) := by
  have outside (k : Nat) : s.phaseAt k t = none := by
    rw [Pools.phaseAt, idle]
    rfl
  have gone := heldAt_takeBack (t := t) conserved member
  have pool := takeBack_pool s t x
  obtain ⟨defined, _⟩ := conserved.large x member
  have moved : Moved s (s.takeBack t x) t x.pool (.freeing x.pool (.advancePut x.index)) :=
    { defined := rfl
      alive := conserved.alive
      calls := rfl
      others := fun k other => Function.update_of_ne other ..
      size := by rw [pool]
      held := fun k other i => (gone k i).trans (and_iff_right fun same => other same.1)
      before := fun k _ => Or.inl (outside k)
      after := fun k other => inPool_freeing_elsewhere other }
  refine moved.conserved conserved (fun _ => ?_) (fun _ i => ?_) ?_ (fun y there => ?_) nofun
    (fun k phase same => ?_)
  · obtain ⟨w, sound⟩ := conserved.sound x.pool defined
    obtain ⟨w, sound⟩ := sound.startFree (outside x.pool) ⟨x, member, rfl, rfl⟩
    have held : (s.takeBack t x).HeldAt x.pool = fun j => j ≠ x.index ∧ s.HeldAt x.pool j := by
      funext j
      rw [gone, eq_self, true_and]
    have here : (Call.freeing x.pool (.advancePut x.index)).inPool x.pool =
      some (.advancePut x.index) := if_pos rfl
    rw [pool, held, here]
    exact ⟨w, sound⟩
  · rw [pool, gone]
    have status := conserved.status x.pool defined i
    simp only [Function.update_apply, true_and]
    by_cases mine : i = x.index
    · simp [mine]
    · simp [mine, status]
  · exact conserved.distinct.sublist (List.erase_sublist.map _)
  · exact conserved.large y (List.mem_of_mem_erase there)
  · cases same
    exact ⟨defined, id⟩

theorem handOut_pool (s : Pools) (t : Nat) (x : Holding) : (s.handOut t x).pools x.pool =
    { s.pools x.pool with allocated := Function.update (s.pools x.pool).allocated x.index true } :=
  Function.update_self ..

theorem heldAt_handOut (s : Pools) (t : Nat) (x : Holding) (k i : Nat) :
    (s.handOut t x).HeldAt k i ↔ (k = x.pool ∧ i = x.index) ∨ s.HeldAt k i := by
  constructor
  · rintro ⟨y, there, rfl, rfl⟩
    rcases List.mem_cons.mp there with rfl | before
    · exact Or.inl ⟨rfl, rfl⟩
    · exact Or.inr ⟨y, before, rfl, rfl⟩
  · rintro (⟨rfl, rfl⟩ | ⟨y, before, rfl, rfl⟩)
    · exact ⟨x, List.mem_cons_self, rfl, rfl⟩
    · exact ⟨y, List.mem_cons_of_mem x before, rfl, rfl⟩

theorem Conserved.handOut (conserved : Conserved items s) {size k i : Nat} {get : Int}
    (doing : s.calls t = .allocating size k (.clearIndex get i)) {g : ItemsGroup}
    (cleared : g =
      { (s.pools k).group with indexes := Function.update (s.pools k).group.indexes get none }) :
    ((s.setGroup k g).pools k).allocated i = false ∧
        Conserved items ((s.setGroup k g).handOut t ⟨k, i, size⟩) := by
  obtain ⟨defined, large, _⟩ := conserved.allocating t size k _ doing
  obtain ⟨w, sound⟩ := conserved.sound k defined
  have here : s.phaseAt k t = some (.clearIndex get i) := by
    rw [Pools.phaseAt, doing]
    exact if_pos rfl
  have fresh : ¬ s.HeldAt k i := sound.not_held here
  have group : (s.setGroup k g).pools k = { s.pools k with group := g } := Function.update_self ..
  have free : ((s.setGroup k g).pools k).allocated i = false := by
    rw [group]
    exact Bool.eq_false_iff.mpr (mt (conserved.status k defined i).mp fresh)
  refine ⟨free, ?_⟩
  have pool := handOut_pool (s.setGroup k g) t ⟨k, i, size⟩
  have more (j l : Nat) : ((s.setGroup k g).handOut t ⟨k, i, size⟩).HeldAt j l ↔ (j = k ∧ l = i) ∨
      s.HeldAt j l :=
    heldAt_handOut (s.setGroup k g) t ⟨k, i, size⟩ j l
  have moved : Moved s ((s.setGroup k g).handOut t ⟨k, i, size⟩) t k .idle :=
    { defined := rfl
      alive := conserved.alive
      calls := rfl
      others := fun j other =>
        (Function.update_of_ne other ..).trans (Function.update_of_ne other ..)
      size := by rw [pool, group]
      held := fun j other l => (more j l).trans (or_iff_right fun same => other same.1)
      before := fun j other => by rw [Pools.phaseAt, doing]; exact inPool_elsewhere other
      after := fun _ _ => Or.inl rfl }
  refine moved.conserved conserved (fun _ => ?_) (fun _ l => ?_) ?_ (fun y there => ?_) nofun nofun
  · obtain ⟨w, sound⟩ := sound.clearIndex here
    have held : ((s.setGroup k g).handOut t ⟨k, i, size⟩).HeldAt k =
        fun j => j = i ∨ s.HeldAt k j := by
      funext j
      rw [more, eq_self, true_and]
    rw [pool, group, held, cleared]
    exact ⟨w, sound⟩
  · rw [pool, group, more]
    have status := conserved.status k defined l
    simp only [Function.update_apply, true_and]
    by_cases mine : l = i
    · simp [mine]
    · simp [mine, status]
  · refine List.nodup_cons.mpr ⟨fun member => fresh ?_, conserved.distinct⟩
    obtain ⟨y, there, same⟩ := List.mem_map.mp member
    exact ⟨y, there, congrArg Prod.fst same, congrArg Prod.snd same⟩
  · rcases List.mem_cons.mp there with rfl | before
    · exact ⟨defined, large⟩
    · exact conserved.large y before

/-- An access of an allocation after which it goes on in the same pool. -/
theorem Conserved.allocating_next (conserved : Conserved items s) {size k : Nat}
    {phase next : Phase} {g : ItemsGroup}
    (doing : s.calls t = .allocating size k phase) (ofGet : next.OfGet)
    (sound : ∃ w, Sound (items k) g (Function.update (s.phaseAt k) t (some next)) (s.HeldAt k) w) :
    Conserved items ((s.setGroup k g).setCall t (.allocating size k next)) := by
  obtain ⟨defined, large, _⟩ := conserved.allocating t size k phase doing
  have here : (Call.allocating size k next).inPool k = some next := if_pos rfl
  refine conserved.goOn (fun j other => ?_) (fun j other => inPool_elsewhere other)
    (fun _ => here ▸ sound) (fun size' j phase' same => ?_) nofun
  · rw [Pools.phaseAt, doing]
    exact inPool_elsewhere other
  · cases same
    exact ⟨defined, large, ofGet⟩

theorem Conserved.freeing_next (conserved : Conserved items s) {k : Nat} {phase next : Phase}
    {g : ItemsGroup}
    (doing : s.calls t = .freeing k phase) (ofPut : ¬ next.OfGet)
    (sound : ∃ w, Sound (items k) g (Function.update (s.phaseAt k) t (some next)) (s.HeldAt k) w) :
    Conserved items ((s.setGroup k g).setCall t (.freeing k next)) := by
  obtain ⟨defined, _⟩ := conserved.freeing t k phase doing
  have here : (Call.freeing k next).inPool k = some next := if_pos rfl
  refine conserved.goOn (fun j other => ?_) (fun j other => inPool_freeing_elsewhere other)
    (fun _ => here ▸ sound) nofun (fun j phase' same => ?_)
  · rw [Pools.phaseAt, doing]
    exact inPool_freeing_elsewhere other
  · cases same
    exact ⟨defined, ofPut⟩

theorem Conserved.run_allocating (conserved : Conserved items s) {size k : Nat} {phase : Phase}
    (doing : s.calls t = .allocating size k phase) (undisturbed : Undisturbed s (.run t))
    (ran : s.runCall t (.allocating size k phase) = some s') : Conserved items s' := by
  obtain ⟨defined, _, ofGet⟩ := conserved.allocating t size k phase doing
  obtain ⟨w, sound⟩ := conserved.sound k defined
  have here : s.phaseAt k t = some phase := by
    rw [Pools.phaseAt, doing]
    exact if_pos rfl
  simp only [Undisturbed, doing] at undisturbed
  cases phase with
  | readPut =>
    cases ran
    exact conserved.allocating_next doing
      trivial ⟨w, sound.neutral (here ▸ Or.inr (Or.inl rfl)) (Or.inr (Or.inr ⟨_, rfl⟩))⟩
  | advanceGet put =>
    cases ran
    refine conserved.allocating_next doing ?_ (sound.advanceGet here undisturbed ?_)
    · split <;> trivial
    · split
      · exact Or.inl rfl
      · exact Or.inr rfl
  | giveBack =>
    cases ran
    refine conserved.tryFrom (Or.inl (Nat.lt_succ_self k)) (fun j other => ?_)
      (fun _ => sound.giveBack here (Or.inl rfl))
    rw [Pools.phaseAt, doing]
    exact inPool_elsewhere other
  | readIndex raw =>
    cases cell : (s.pools k).group.indexes ((s.pools k).group.place raw) with
    | none =>
      simp only [Pools.runCall, ItemsGroup.step, cell] at ran
      cases ran
      exact conserved.allocating_next doing trivial ⟨w, sound.readIndex_empty here cell⟩
    | some i =>
      simp only [Pools.runCall, ItemsGroup.step, cell] at ran
      cases ran
      refine conserved.allocating_next doing ?_ (sound.readIndex_some here cell)
      split <;> trivial
  | wrapGet get i =>
    cases ran
    exact conserved.allocating_next doing trivial (sound.wrapGet here)
  | clearIndex get i =>
    obtain ⟨free, handed⟩ := conserved.handOut doing rfl
    have plain : s.runCall t (.allocating size k (.clearIndex get i)) = some _ :=
      if_neg (Bool.eq_false_iff.mp free)
    exact Option.some.inj (plain.symm.trans ran) ▸ handed
  | advancePut i => exact ofGet.elim
  | wrapPut put i => exact ofGet.elim
  | checkIndex put i => exact ofGet.elim
  | saveIndex put i => exact ofGet.elim

theorem Conserved.run_freeing (conserved : Conserved items s) {k : Nat} {phase : Phase}
    (doing : s.calls t = .freeing k phase) (undisturbed : Undisturbed s (.run t))
    (ran : s.runCall t (.freeing k phase) = some s') : Conserved items s' := by
  obtain ⟨defined, ofPut⟩ := conserved.freeing t k phase doing
  obtain ⟨w, sound⟩ := conserved.sound k defined
  have here : s.phaseAt k t = some phase := by
    rw [Pools.phaseAt, doing]
    exact if_pos rfl
  simp only [Undisturbed, doing] at undisturbed
  cases phase with
  | advancePut i =>
    cases ran
    refine conserved.freeing_next doing ?_ (sound.advancePut here undisturbed)
    split <;> exact id
  | wrapPut put i =>
    cases ran
    exact conserved.freeing_next doing id (sound.wrapPut here)
  | checkIndex put i =>
    obtain ⟨clear, sound⟩ := sound.checkIndex here
    simp only [Pools.runCall, ItemsGroup.step, clear] at ran
    cases ran
    exact conserved.freeing_next doing id ⟨w, sound⟩
  | saveIndex put i =>
    cases ran
    refine conserved.goOn (fun j other => ?_) (fun _ _ => Or.inl rfl)
      (fun _ => sound.saveIndex here) nofun nofun
    rw [Pools.phaseAt, doing]
    exact inPool_freeing_elsewhere other
  | readPut => exact absurd trivial ofPut
  | advanceGet put => exact absurd trivial ofPut
  | giveBack => exact absurd trivial ofPut
  | readIndex raw => exact absurd trivial ofPut
  | wrapGet get i => exact absurd trivial ofPut
  | clearIndex get i => exact absurd trivial ofPut

theorem Conserved.step (conserved : Conserved items s) {action : Action}
    (undisturbed : Undisturbed s action)
    (stepped : s.step action = some s') : Conserved items s' := by
  simp only [Pools.step, conserved.alive, Bool.false_eq_true, if_false] at stepped
  cases action with
  | allocate t size =>
    cases call : s.calls t with
    | idle =>
      simp only [call] at stepped
      cases stepped
      exact conserved.allocate call
    | allocating size k phase => simp [call] at stepped
    | freeing k phase => simp [call] at stepped
  | free t x =>
    cases call : s.calls t with
    | idle =>
      simp only [call] at stepped
      by_cases member : x ∈ s.held
      · obtain ⟨defined, _⟩ := conserved.large x member
        have status : (s.pools x.pool).allocated x.index = true :=
          (conserved.status x.pool defined x.index).mpr ⟨x, member, rfl, rfl⟩
        rw [if_pos member, if_pos status] at stepped
        cases stepped
        exact conserved.free call member
      · rw [if_neg member] at stepped
        exact nomatch stepped
    | allocating size k phase => simp [call] at stepped
    | freeing k phase => simp [call] at stepped
  | run t =>
    simp only at stepped
    cases call : s.calls t with
    | idle =>
      rw [call] at stepped
      exact nomatch stepped
    | allocating size k phase =>
      rw [call] at stepped
      exact conserved.run_allocating call undisturbed stepped
    | freeing k phase =>
      rw [call] at stepped
      exact conserved.run_freeing call undisturbed stepped

end Actions

section Start

/-- All items in their cells. -/
def fullRing (n : Nat) : Ghost where
  cells c := if c < n then .filled c else .free
  place i := .cell i
  head := 0
  count := n
  pending := none
  getLap := none
  putLap := none

theorem fullRing_queued (n c : Nat) : ((fullRing n).cells c).Queued ↔ c < n := by
  simp only [fullRing]
  split
  · rename_i less
    exact iff_of_true trivial less
  · rename_i more
    exact iff_of_false id more

theorem absent {α : Type} {a : α} {p : Prop} (given : none = some a) : p :=
  absurd given.symm (Option.some_ne_none a)

theorem addPool_sound (n size : Nat) :
    Sound n (addPool n size).group (fun _ => none) (fun _ => False) (fullRing n) := by
  have busy {c t i : Nat} : (fullRing n).cells c ≠ .reserved t i ∧ (fullRing n).cells c ≠
      .taken t i := by
    simp only [fullRing]
    split <;> exact ⟨Cell.noConfusion, Cell.noConfusion⟩
  refine ⟨⟨rfl,
    fun c small =>
    ?_, fun c small i item =>
    ?_, fun i less c there => ?_, fun i => ?_, fun t i => ?_, fun c small => ?_,
    Nat.le_refl n,
      fun t i put saving =>
      ?_, fun c small t i cell => absurd cell busy.1, fun t i get taking => ?_,
    fun _ _ reading => absent reading,
      fun c small t i cell => absurd cell busy.2, fun _ backing => absent backing,
    fun _ pending => absent pending, ?_, ?_⟩,
    ⟨fun _ => ?_,
      fun _ lap => absent lap,
      fun t => ?_, fun _ _ _ wrapping => absent wrapping, fun _ _ pending => absent pending,
      fun _ => ?_, fun _ lap => absent lap, fun t => ?_, fun _ _ _ wrapping => absent wrapping⟩⟩
  · simp only [addPool, fullRing]
    by_cases less : c < n
    · rw [if_pos ⟨Int.natCast_nonneg c, by omega⟩, if_pos less]
      rfl
    · rw [if_neg (by omega), if_neg less]
      rfl
  · simp only [fullRing] at item
    split at item
    · cases item
      exact ⟨‹_›, rfl⟩
    · cases item
  · cases there
    refine ⟨Nat.lt_succ_of_lt less, ?_⟩
    simp only [fullRing, if_pos less]
    rfl
  · exact iff_of_false id (fun held => by cases held.2)
  · exact iff_of_false absent (fun there => by cases there.2)
  · rw [fullRing_queued]
    simp [fullRing, Serial.dist, Nat.mod_eq_of_lt small]
  · rcases saving with no | no | no <;> exact absent no
  · rcases taking with no | no <;> exact absent no
  · exact Int.dvd_zero _
  · simp [addPool, fullRing]
  · exact ⟨Int.le_refl 0, by simp [addPool, fullRing, Ghost.ahead]; omega⟩
  · exact iff_of_false absent (by rintro (⟨get, i, no⟩ | ⟨no, _⟩) <;> exact absent no)
  · exact ⟨Int.natCast_nonneg n, by simp [addPool]⟩
  · exact iff_of_false absent (by rintro ⟨put, i, no⟩; exact absent no)

theorem create_conserved (poolsDefined : Nat) (itemsNumber itemSize : Nat → Nat) :
    Conserved itemsNumber (create poolsDefined itemsNumber itemSize) where
  alive := rfl
  sound k _ := by
    have empty : (create poolsDefined itemsNumber itemSize).HeldAt k = fun _ => False :=
      funext fun i => propext ⟨fun held => (nomatch held.choose_spec.1), False.elim⟩
    rw [empty]
    exact ⟨_, addPool_sound (itemsNumber k) (itemSize k)⟩
  status k _ i := iff_of_false Bool.false_ne_true (fun held => nomatch held.choose_spec.1)
  distinct := List.nodup_nil
  large := nofun
  allocating := nofun
  freeing := nofun

end Start

section Quiet
variable {n : Nat} {g : ItemsGroup} {held : Nat → Prop} {w : Ghost}

theorem Sound.quiet_cell (sound : Sound n g (fun _ => none) held w) {c : Nat} (small : c < n + 1) :
    w.cells c = .free ∨ ∃ i, w.cells c = .filled i := by
  cases cell : w.cells c with
  | free => exact Or.inl rfl
  | filled i => exact Or.inr ⟨i, rfl⟩
  | reserved t i =>
    rcases sound.ring.saver c small t i cell with no | no | no <;> exact nomatch no
  | taken t i =>
    rcases (sound.ring.taker c small t i cell).2 with no | no | ⟨_, no, _⟩ <;> exact nomatch no

theorem Sound.quiet_pending (sound : Sound n g (fun _ => none) held w) : w.pending = none := by
  cases waiting : w.pending with
  | none => rfl
  | some t =>
    rcases (sound.ring.pending t waiting).1 with no | ⟨_, no⟩ <;> exact nomatch no

theorem Sound.quiet_get (sound : Sound n g (fun _ => none) held w) : 0 ≤ g.get ∧ g.get ≤ n + 1 := by
  have lap : w.getLap = none := by
    cases lap : w.getLap with
    | none => rfl
    | some t =>
      rcases (sound.laps.getLap t).mp lap with ⟨_, _, no⟩ | ⟨no, _⟩ <;> exact nomatch no
  have bound := sound.laps.getLow lap
  rw [ahead_none sound.quiet_pending] at bound
  omega

theorem Sound.quiet_put (sound : Sound n g (fun _ => none) held w) : 0 ≤ g.put ∧ g.put ≤ n + 1 := by
  have lap : w.putLap = none := by
    cases lap : w.putLap with
    | none => rfl
    | some t =>
      obtain ⟨_, _, no⟩ := (sound.laps.putLap t).mp lap
      exact nomatch no
  exact sound.laps.putLow lap

theorem Sound.quiet_count (sound : Sound n g (fun _ => none) held w) : g.freeItems = w.count := by
  have get := sound.quiet_get
  have put := sound.quiet_put
  have short := sound.ring.short
  have getPlace := sound.ring.getPlace
  have putPlace := sound.ring.putPlace
  rw [ahead_none sound.quiet_pending] at getPlace
  have same : ((n + 1 : Nat) : Int) ∣ (n + 1 : Nat) + g.put - g.get - w.count := by
    have split_ : ((n + 1 : Nat) : Int) + g.put - g.get - w.count =
        (n + 1 : Nat) + (g.put - (w.head + w.count : Nat)) - (g.get - (w.head + 0 : Nat)) := by
      push_cast
      omega
    rw [split_]
    exact Int.dvd_sub (Int.dvd_add (Int.dvd_refl _) putPlace) getPlace
  have place := cellOf_eq (by omega) same
  rw [Nat.mod_eq_of_lt (by omega), cellOf] at place
  rw [ItemsGroup.freeItems, sound.ring.number, place, Int.toNat_natCast]

theorem Sound.quiet_at (sound : Sound n g (fun _ => none) held w) (j : Nat) :
    g.place (g.get + j) = (((w.head % (n + 1) + j) % (n + 1) : Nat) : Int) := by
  have getPlace := sound.ring.getPlace
  rw [ahead_none sound.quiet_pending] at getPlace
  have same : ((n + 1 : Nat) : Int) ∣ g.get + j - (w.head + j : Nat) := by
    have split_ : g.get + j - ((w.head + j : Nat) : Int) = g.get - (w.head + 0 : Nat) := by
      push_cast
      omega
    rw [split_]
    exact getPlace
  have positive := sound.quiet_get.1
  rw [sound.ring.place_def, cellOf_eq (by omega) same, Nat.mod_add_mod]

theorem Sound.quiet_filled (sound : Sound n g (fun _ => none) held w) {j : Nat}
    (inside : j < w.count) :
    ∃ i, w.cells ((w.head % (n + 1) + j) % (n + 1)) = .filled i := by
  have short := sound.ring.short
  have small : (w.head % (n + 1) + j) % (n + 1) < n + 1 := Nat.mod_lt _ (Nat.succ_pos n)
  have queued :=
    (sound.ring.queue _ small).mpr (by rw [dist_add (head_lt w n) (by omega)]; exact inside)
  rcases sound.quiet_cell small with free | filled
  · rw [free] at queued
    exact queued.elim
  · exact filled

/-- With no call under way the ring has every item that nobody holds, and has it once. -/
theorem Sound.quiet_ring (sound : Sound n g (fun _ => none) held w) :
    ∃ free : List Nat, g.ring = free.map some ∧ free.Nodup ∧ ∀ i, i ∈ free ↔ i < n ∧ ¬ held i := by
  have short := sound.ring.short
  have small (j : Nat) : (w.head % (n + 1) + j) % (n + 1) < n + 1 := Nat.mod_lt _ (Nat.succ_pos n)
  let item (j : Nat) : Nat := (w.cells ((w.head % (n + 1) + j) % (n + 1))).item.getD 0
  have filled {j : Nat} (inside : j < w.count) : w.cells ((w.head % (n + 1) + j) % (n + 1)) =
      .filled (item j) := by
    obtain ⟨i, cell⟩ := sound.quiet_filled inside
    simp only [item, cell]
    rfl
  have place {j : Nat} (inside : j < w.count) : item j < n ∧
      w.place (item j) = .cell ((w.head % (n + 1) + j) % (n + 1)) :=
    sound.ring.item _ (small j) _ (by rw [filled inside]; rfl)
  refine ⟨(List.range w.count).map item, ?_, ?_, fun i => ?_⟩
  · rw [ItemsGroup.ring, sound.quiet_count, List.map_map]
    apply List.map_congr_left
    intro j member
    rw [sound.quiet_at, sound.ring.content _ (small j), filled (List.mem_range.mp member)]
    rfl
  · refine List.Nodup.map_on (fun a first b second same => ?_) List.nodup_range
    have left := (place (List.mem_range.mp first)).2
    have right := (place (List.mem_range.mp second)).2
    rw [same, right] at left
    have equal := congrArg (dist (n + 1) (w.head % (n + 1))) (Where.cell.inj left)
    rw [dist_add (head_lt w n) (by have := List.mem_range.mp second; omega),
      dist_add (head_lt w n) (by have := List.mem_range.mp first; omega)] at equal
    exact equal.symm
  · rw [List.mem_map, sound.ring.holding]
    constructor
    · rintro ⟨j, member, rfl⟩
      obtain ⟨less, there⟩ := place (List.mem_range.mp member)
      refine ⟨less, fun hand => ?_⟩
      rw [there] at hand
      exact nomatch hand.2
    · rintro ⟨less, nobody⟩
      cases there : w.place i with
      | held => exact absurd ⟨less, there⟩ nobody
      | freeing t => exact nomatch (sound.ring.freeing t i).mpr ⟨less, there⟩
      | cell c =>
        obtain ⟨inside, item_⟩ := sound.ring.place i less c there
        rcases sound.quiet_cell inside with free | ⟨j, cell⟩
        · rw [free] at item_
          exact nomatch item_
        · have near := (sound.ring.queue c inside).mp (by rw [cell]; trivial)
          refine ⟨dist (n + 1) (w.head % (n + 1)) c, List.mem_range.mpr near, ?_⟩
          simp only [item, add_dist (head_lt w n) inside, item_]
          rfl

end Quiet

section Alone
variable {items : Nat → Nat} {s : Pools} {t : Nat}

/-- The pools with one call under way in one pool. -/
def Pools.within (s : Pools) (t k : Nat) (g : ItemsGroup) (call : Call) : Pools :=
  (s.setGroup k g).setCall t call

theorem within_setGroup (s : Pools) (t k : Nat) (g g' : ItemsGroup) (call : Call) :
    (s.within t k g call).setGroup k g' = s.within t k g' call := by
  simp only [Pools.within, Pools.setCall, Pools.setGroup, Pools.setPool, Function.update_self,
    Function.update_idem]

theorem within_setCall (s : Pools) (t k : Nat) (g : ItemsGroup) (call call' : Call) :
    (s.within t k g call).setCall t call' = s.within t k g call' := by
  simp only [Pools.within, Pools.setCall, Function.update_idem]

theorem within_group (s : Pools) (t k : Nat) (g : ItemsGroup) (call : Call) :
    ((s.within t k g call).pools k).group = g := by
  simp only [Pools.within, Pools.setCall, Pools.setGroup, Pools.setPool, Function.update_self]

theorem step_within (alive : s.aborted = false) (t k : Nat) (g : ItemsGroup) (call : Call) :
    (s.within t k g call).step (.run t) = (s.within t k g call).runCall t call := by
  have running : (s.within t k g call).aborted = false := alive
  have doing : (s.within t k g call).calls t = call := Function.update_self ..
  simp only [Pools.step, running, doing, Bool.false_eq_true, if_false]

theorem step_next (alive : s.aborted = false) {size k : Nat} {g g' : ItemsGroup}
    {phase next : Phase}
    (went : g.step phase = (g', .next next)) :
    (s.within t k g (.allocating size k phase)).step (.run t) =
    some (s.within t k g' (.allocating size k next)) := by
  rw [step_within alive, Pools.runCall, within_group, went]
  simp only [within_setGroup, within_setCall]

theorem tryFrom_some {size first k : Nat} (found : s.select size first = some k) :
    s.tryFrom t size first = s.within t k (s.pools k).group (.allocating size k .readPut) := by
  rw [Pools.tryFrom, found, Pools.within, setGroup_self]

theorem step_failed (alive : s.aborted = false) {size k : Nat} {g : ItemsGroup}
    (was : g.get = (s.pools k).group.get + 1)
    (same : { g with get := (s.pools k).group.get } = (s.pools k).group) :
    (s.within t k g (.allocating size k .giveBack)).step (.run t) =
        some (s.tryFrom t size (k + 1)) := by
  have back : { g with get := g.get - 1 } = (s.pools k).group := by
    rw [was, Int.add_sub_cancel, same]
  rw [step_within alive, Pools.runCall, within_group]
  simp only [ItemsGroup.step, back, within_setGroup]
  simp only [Pools.within, setGroup_self, Pools.tryFrom]
  have found : (s.setCall t (.allocating size k .giveBack)).select size (k + 1) =
    s.select size (k + 1) := rfl
  rw [found]
  cases s.select size (k + 1) <;> simp only [Pools.setCall, Function.update_idem]

/-- A call of one thread that no other call overlaps ends without an item. -/
def EndsWith (s : Pools) (t : Nat) (held : List Holding) : Prop :=
  ∃ actions s', (∀ action ∈ actions, action = .run t) ∧ run Pools.step s actions = some s' ∧
    s'.calls t = .idle ∧ s'.held = held

theorem EndsWith.step {s next : Pools} {held : List Holding} (stepped : s.step (.run t) = some next)
    (ends : EndsWith next t held) :
    EndsWith s t held := by
  obtain ⟨actions, s', only, ran, idle, same⟩ := ends
  refine ⟨.run t :: actions, s', ?_, ?_, idle, same⟩
  · rintro action (_ | ⟨_, later⟩)
    · rfl
    · exact only action later
  · rw [run, stepped, Option.bind_some, ran]

theorem quiet_phaseAt (quiet : ∀ u, s.calls u = .idle) (k : Nat) : s.phaseAt k = fun _ => none := by
  funext u
  rw [Pools.phaseAt, quiet u]
  rfl

theorem readPut_step (g : ItemsGroup) :
    g.step .readPut = (g, .next (.advanceGet (g.place g.put))) := rfl

theorem readIndex_step {g : ItemsGroup} {raw : Int} {i : Nat}
    (cell : g.indexes (g.place raw) = some i) :
    g.step (.readIndex raw) =
    (g, .next (if raw = g.numberPlusOne then .wrapGet (g.place raw) i
      else .clearIndex (g.place raw) i)) := by
  rw [ItemsGroup.step, cell]

/-- The pool has no item: the allocation goes on to the next one. -/
theorem alone_empty (alive : s.aborted = false) {size k : Nat} {held : List Holding}
    (empty : (s.pools k).group.place (s.pools k).group.put =
      (s.pools k).group.place (s.pools k).group.get)
    (ends : EndsWith (s.tryFrom t size (k + 1)) t held) :
    EndsWith (s.within t k (s.pools k).group (.allocating size k .readPut)) t held := by
  refine EndsWith.step (step_next alive (readPut_step _)) ?_
  have advanced :
    (s.pools k).group.step (.advanceGet ((s.pools k).group.place (s.pools k).group.put)) =
      ({ (s.pools k).group with get := (s.pools k).group.get + 1 }, .next .giveBack) := by
    rw [ItemsGroup.step, if_pos empty]
  refine EndsWith.step (step_next alive advanced) ?_
  exact EndsWith.step (step_failed alive rfl rfl) ends

theorem alone_found (conserved : Conserved items s) {size k i : Nat} (defined : k < s.poolsDefined)
    (some_ : (s.pools k).group.place (s.pools k).group.put ≠
      (s.pools k).group.place (s.pools k).group.get)
    (cell : (s.pools k).group.indexes ((s.pools k).group.place (s.pools k).group.get) = some i)
    (nobody : ¬ s.HeldAt k i) :
    EndsWith (s.within t k (s.pools k).group (.allocating size k .readPut)) t
      (⟨k, i, size⟩ :: s.held) := by
  have alive := conserved.alive
  -- the last step, whatever has become of the positions
  have last (g : ItemsGroup) (get : Int) :
      EndsWith (s.within t k g (.allocating size k (.clearIndex get i))) t
      (⟨k, i, size⟩ :: s.held) := by
    have free : ¬ ((s.within t k { g with indexes := Function.update g.indexes get none }
        (.allocating size k (.clearIndex get i))).pools k).allocated i = true := by
      simp only [Pools.within, Pools.setCall, Pools.setGroup, Pools.setPool, Function.update_self]
      rw [conserved.status k defined i]
      exact nobody
    have stepped : (s.within t k g (.allocating size k (.clearIndex get i))).step (.run t) =
        some ((s.within t k { g with indexes := Function.update g.indexes get none }
          (.allocating size k (.clearIndex get i))).handOut t ⟨k, i, size⟩) := by
      rw [step_within alive, Pools.runCall, within_group]
      simp only [ItemsGroup.step, within_setGroup]
      exact if_neg free
    refine EndsWith.step stepped ⟨[], _, nofun, rfl, ?_, rfl⟩
    exact Function.update_self ..
  refine EndsWith.step (step_next alive (readPut_step _)) ?_
  have advanced :
    (s.pools k).group.step (.advanceGet ((s.pools k).group.place (s.pools k).group.put)) =
      ({ (s.pools k).group with get := (s.pools k).group.get + 1 },
          .next (.readIndex (s.pools k).group.get)) := by
    rw [ItemsGroup.step, if_neg some_]
  refine EndsWith.step (step_next alive advanced) ?_
  refine EndsWith.step (step_next alive (readIndex_step cell)) ?_
  split
  · exact EndsWith.step (step_next alive rfl) (last _ _)
  · exact last _ _

/-- An allocation that no other call overlaps fails only when no pool that is large enough has an
item. -/
theorem alone_ends (conserved : Conserved items s) (quiet : ∀ u, s.calls u = .idle)
    (size first : Nat) :
    (∃ k i, EndsWith (s.tryFrom t size first) t (⟨k, i, size⟩ :: s.held)) ∨
      EndsWith (s.tryFrom t size first) t s.held ∧
        ∀ k, first ≤ k → k < s.poolsDefined → size ≤ (s.pools k).itemDataNumber * 4 →
          (s.pools k).group.ring = [] := by
  induction left : s.poolsDefined - first using Nat.strong_induction_on generalizing first with
  | _ left_ ih =>
    cases found : s.select size first with
    | none =>
      refine Or.inr
        ⟨⟨[], s.tryFrom t size first, nofun, rfl, ?_, ?_⟩, fun k after defined large => ?_⟩
      · rw [Pools.tryFrom, found]
        exact Function.update_self ..
      · rw [Pools.tryFrom, found]
        rfl
      · exact absurd (select_none found after defined) (Nat.not_lt.mpr large)
    | some k =>
      obtain ⟨after, defined, large⟩ := select_spec found
      obtain ⟨w, sound⟩ := conserved.sound k defined
      rw [quiet_phaseAt quiet] at sound
      have short := sound.ring.short
      have getPlace := sound.quiet_at 0
      have putPlace := sound.put_place.2
      rw [Int.natCast_zero, Int.add_zero, Nat.add_zero] at getPlace
      rw [← sound.ring.place_def] at putPlace
      rw [tryFrom_some found]
      by_cases none_ : w.count = 0
      · have empty : (s.pools k).group.ring = [] := by
          rw [ItemsGroup.ring, sound.quiet_count, none_]
          rfl
        have same : (s.pools k).group.place (s.pools k).group.put =
            (s.pools k).group.place (s.pools k).group.get := by
          rw [putPlace, getPlace, none_, Nat.add_zero, Nat.mod_mod]
        rcases ih (s.poolsDefined - (k + 1)) (by omega)
          (k + 1) rfl with ⟨j, i, ends⟩ | ⟨ends, others⟩
        · exact Or.inl ⟨j, i, alone_empty conserved.alive same ends⟩
        · refine Or.inr ⟨alone_empty conserved.alive same ends, fun j start inside enough => ?_⟩
          rcases Nat.lt_trichotomy j k with less | rfl | more
          · exact absurd (select_least found start less) (Nat.not_lt.mpr enough)
          · exact empty
          · exact others j more inside enough
      · obtain ⟨i, filled⟩ := sound.quiet_filled (Nat.pos_of_ne_zero none_)
        have inside : w.head % (items k + 1) % (items k + 1) < items k + 1 :=
          Nat.mod_lt _ (Nat.succ_pos _)
        rw [Nat.add_zero] at filled
        refine Or.inl ⟨k, i, alone_found conserved defined (fun same => none_ ?_) ?_ ?_⟩
        · rw [putPlace, getPlace, Nat.mod_mod] at same
          have equal := congrArg (dist (items k + 1) (w.head % (items k + 1))) (Int.ofNat.inj same)
          rw [dist_mod (Nat.le_add_right ..) (by omega), dist_self, Nat.add_sub_cancel_left]
            at equal
          exact equal
        · rw [getPlace, sound.ring.content _ inside, filled]
          rfl
        · have place := (sound.ring.item _ inside i (by rw [filled]; rfl)).2
          rw [sound.ring.holding, place]
          exact fun no => nomatch no.2

end Alone

section Runs

/-- A call of `memory_pools_allocate` that no other call overlaps, and what is held after it. -/
def Allocates (s : Pools) (t size : Nat) (held : List Holding) : Prop :=
  ∃ actions s', (∀ action ∈ actions, action = .run t) ∧
    run Pools.step s (.allocate t size :: actions) = some s' ∧
    s'.calls t = .idle ∧ s'.held = held

/-- No item has two holders and none is too small; with no call under way each item that nobody
holds is in its ring once, and an allocation fails only when no large enough pool has one. -/
structure Intact (itemsNumber : Nat → Nat) (s : Pools) : Prop where
  distinct : (s.held.map fun x => (x.pool, x.index)).Nodup
  large : ∀ x ∈ s.held, x.itemSize ≤ (s.pools x.pool).itemDataNumber * 4
  ring : (∀ u, s.calls u = .idle) → ∀ k < s.poolsDefined,
    ∃ free : List Nat, (s.pools k).group.ring = free.map some ∧ free.Nodup ∧ ∀ i, i ∈ free ↔
      i < itemsNumber k ∧ ¬ s.HeldAt k i
  serves : (∀ u, s.calls u = .idle) →
    ∀ t size, (∃ k i, Allocates s t size (⟨k, i, size⟩ :: s.held)) ∨
    Allocates s t size s.held ∧ ∀ k < s.poolsDefined, size ≤ (s.pools k).itemDataNumber * 4 →
      (s.pools k).group.ring = []

theorem EndsWith.allocates {s : Pools} {t size : Nat} {held : List Holding}
    (alive : s.aborted = false) (idle : s.calls t = .idle)
    (ends : EndsWith (s.tryFrom t size 0) t held) : Allocates s t size held := by
  obtain ⟨actions, s', only, ran, rest⟩ := ends
  refine ⟨actions, s', only, ?_, rest⟩
  have stepped : s.step (.allocate t size) = some (s.tryFrom t size 0) := by
    simp only [Pools.step, alive, idle, Bool.false_eq_true, if_false]
  rw [run, stepped, Option.bind_some, ran]

theorem Conserved.intact {items : Nat → Nat} {s : Pools} (conserved : Conserved items s) :
    Intact items s where
  distinct := conserved.distinct
  large x member := (conserved.large x member).2
  ring quiet k defined := by
    obtain ⟨w, sound⟩ := conserved.sound k defined
    rw [quiet_phaseAt quiet] at sound
    exact sound.quiet_ring
  serves quiet t size := by
    rcases alone_ends (t := t) conserved quiet size 0 with ⟨k, i, ends⟩ | ⟨ends, empty⟩
    · exact Or.inl ⟨k, i, ends.allocates conserved.alive (quiet t)⟩
    · exact Or.inr ⟨ends.allocates conserved.alive (quiet t), fun k => empty k (Nat.zero_le k)⟩

/-- Two threads have the two items of a pool; a third allocates in vain and is held up before it
takes its advance back. Both items are freed, a fourth allocation gets the second of them, and the
third ends. -/
def passedBy : List Action :=
  [.allocate 0 4, .run 0, .run 0, .run 0, .run 0, .allocate 1 4, .run 1, .run 1, .run 1, .run 1,
    .allocate 2 4, .run 2, .run 2,
    .free 0 ⟨0, 0, 4⟩, .run 0, .run 0, .run 0, .free 1 ⟨0, 1, 4⟩, .run 1, .run 1, .run 1, .run 1,
    .allocate 3 4, .run 3, .run 3, .run 3, .run 3, .run 3,
    .run 2]

def twoItems : Pools := create 1 (fun _ => 2) (fun _ => 4)

def Action.thread : Action → Nat
  | .allocate thread _ => thread
  | .free thread _ => thread
  | .run thread => thread

theorem tryFrom_calls (s : Pools) (t size first : Nat) {u : Nat} (other : u ≠ t) :
    (s.tryFrom t size first).calls u = s.calls u := by
  rw [Pools.tryFrom]
  split <;> exact Function.update_of_ne other ..

theorem runCall_calls {s s' : Pools} {t : Nat} {call : Call} (ran : s.runCall t call = some s')
    {u : Nat} (other : u ≠ t) :
    s'.calls u = s.calls u := by
  cases call with
  | idle => exact nomatch ran
  | allocating size k phase =>
    simp only [Pools.runCall] at ran
    split at ran
    · cases ran
      exact Function.update_of_ne other ..
    · cases ran
      exact tryFrom_calls _ t size (k + 1) other
    · split at ran
      · cases ran
        rfl
      · cases ran
        exact Function.update_of_ne other ..
    · exact nomatch ran
    · exact nomatch ran
  | freeing k phase =>
    simp only [Pools.runCall] at ran
    split at ran
    · cases ran
      exact Function.update_of_ne other ..
    · cases ran
      exact Function.update_of_ne other ..
    · cases ran
      exact Function.update_of_ne other ..
    · exact nomatch ran
    · exact nomatch ran

theorem step_calls {s s' : Pools} {action : Action} (stepped : s.step action = some s') {u : Nat}
    (other : u ≠ action.thread) :
    s'.calls u = s.calls u := by
  simp only [Pools.step] at stepped
  split at stepped
  · exact nomatch stepped
  · cases action with
    | allocate t size =>
      simp only at stepped
      split at stepped
      · cases stepped
        exact tryFrom_calls s t size 0 other
      · exact nomatch stepped
    | free t x =>
      simp only at stepped
      split at stepped
      · split at stepped
        · split at stepped
          · cases stepped
            exact Function.update_of_ne other ..
          · cases stepped
            rfl
        · exact nomatch stepped
      · exact nomatch stepped
    | run t => exact runCall_calls stepped other

/-- `Undisturbed`, where only the first threads make calls. -/
def UndisturbedBelow (threads : Nat) (s : Pools) : Action → Prop
  | .run t =>
    match s.calls t with
    | .allocating _ k (.advanceGet _) => ∀ u < threads, u ≠ t → ∀ p ∈ s.phaseAt k u,
        p.Apart (s.pools k).group
    | .freeing k (.advancePut _) =>
      (s.pools k).group.indexes ((s.pools k).group.place (s.pools k).group.put) = none
    | _ => True
  | _ => True

instance (threads : Nat) (s : Pools) (action : Action) :
    Decidable (UndisturbedBelow threads s action) := by
  unfold UndisturbedBelow
  split
  · split <;> infer_instance
  · infer_instance

theorem undisturbed_of_below {threads : Nat} {s : Pools}
    (idle : ∀ u, threads ≤ u → s.calls u = .idle) {action : Action}
    (below : UndisturbedBelow threads s action) : Undisturbed s action := by
  cases action with
  | allocate t size => trivial
  | free t x => trivial
  | run t =>
    unfold UndisturbedBelow at below
    unfold Undisturbed
    dsimp only at below ⊢
    split at below
    · refine advanceClear_of_apart fun u other p here => ?_
      by_cases few : u < threads
      · exact below u few other p here
      · rw [Pools.phaseAt, idle u (Nat.le_of_not_lt few)] at here
        cases here
    · exact below
    · trivial

/-- With few threads the condition on a run can be computed. -/
theorem meets_of_below {threads : Nat} {s : Pools} {actions : List Action}
    (idle : ∀ u, threads ≤ u → s.calls u = .idle)
    (few : ∀ action ∈ actions, action.thread < threads)
    (meets : Meets Pools.step (UndisturbedBelow threads) s actions) :
    Meets Pools.step Undisturbed s actions := by
  induction actions generalizing s with
  | nil => trivial
  | cons action rest ih =>
    refine ⟨undisturbed_of_below idle meets.1,
      fun next stepped => ih (fun u more => ?_) (fun other later => ?_)
      (meets.2 next stepped)⟩
    · have first := few action List.mem_cons_self
      rw [step_calls stepped (by omega)]
      exact idle u more
    · exact few other (List.mem_cons_of_mem _ later)

/-- Two allocations side by side in a pool of two items, a third in vain, and one item freed and
allocated again. -/
def sideBySide : List Action :=
  [.allocate 0 4, .allocate 1 4, .run 0, .run 1, .run 0, .run 1, .run 1, .run 0, .run 0, .run 1,
    .allocate 2 4, .run 2, .run 2, .run 2,
    .free 0 ⟨0, 0, 4⟩, .run 0, .allocate 1 4, .run 0, .run 1, .run 0, .run 1, .run 1, .run 1]

def Call.isIdle : Call → Bool
  | .idle => true
  | _ => false

end Runs

end OpenAir.MemoryPools
