import OpenAir.Lib.Serial
import OpenAir.Utils.MemoryPools
import Mathlib.Data.Fintype.Card
import Mathlib.Data.Int.ModEq
import Mathlib.Data.Fintype.EquivFin

/-! The free ring of a pool under calls of many threads. -/
namespace OpenAir.MemoryPools
open OpenAir.Serial

/-- What a cell of the ring is used for. -/
inductive Cell where
  | free
  | filled (index : Nat)
  /-- A thread that frees the item has the cell and has not yet written it. -/
  | reserved (thread index : Nat)
  /-- A thread that allocates has the cell and has not yet cleared it. -/
  | taken (thread index : Nat)

namespace Cell

def item : Cell → Option Nat
  | .free => none
  | .filled index => some index
  | .reserved _ index => some index
  | .taken _ index => some index

/-- What the cell has in memory. -/
def content : Cell → Option Nat
  | .free => none
  | .filled index => some index
  | .reserved _ _ => none
  | .taken _ index => some index

/-- The cell is between the get and the put position. -/
def Queued : Cell → Prop
  | .filled _ | .reserved _ _ => True
  | .free | .taken _ _ => False

end Cell

inductive Where where
  | cell (c : Nat)
  | held
  | freeing (thread : Nat)

/-- What the memory does not show: the use of each cell, the place of each item, how far the ring
has been read, how many cells are in it, the last allocation that has moved the get position, as
long as it may find nothing, and the calls that have a wrap to do. -/
structure Ghost where
  cells : Nat → Cell
  place : Nat → Where
  head : Nat
  count : Nat
  pending : Option Nat
  getLap : Option Nat
  putLap : Option Nat

def Ghost.ahead (w : Ghost) : Nat := if w.pending = none then 0 else 1

theorem ahead_none {w : Ghost} (none_ : w.pending = none) : w.ahead = 0 := if_pos none_

theorem ahead_some {w : Ghost} {t : Nat} (some_ : w.pending = some t) : w.ahead = 1 :=
  if_neg (some_ ▸ nofun)

def cellOf (n : Nat) (raw : Int) : Int := raw.tmod (n + 1 : Nat)

/-- The ring of `n` items as the threads see it; `phase` is `none` for those that are elsewhere. -/
structure Ring (n : Nat) (g : ItemsGroup) (phase : Nat → Option Phase) (held : Nat → Prop)
    (w : Ghost) : Prop where
  number : g.numberPlusOne = n + 1
  content : ∀ c < n + 1, g.indexes c = (w.cells c).content
  item : ∀ c < n + 1, ∀ i, (w.cells c).item = some i → i < n ∧ w.place i = .cell c
  place : ∀ i < n, ∀ c, w.place i = .cell c → c < n + 1 ∧ (w.cells c).item = some i
  holding : ∀ i, held i ↔ i < n ∧ w.place i = .held
  freeing : ∀ t i, phase t = some (.advancePut i) ↔ i < n ∧ w.place i = .freeing t
  queue : ∀ c < n + 1, (w.cells c).Queued ↔ dist (n + 1) (w.head % (n + 1)) c < w.count
  short : w.count ≤ n
  saving : ∀ t i put, phase t = some (.wrapPut put i) ∨ phase t = some (.checkIndex put i) ∨
    phase t = some (.saveIndex put i) →
    ∃ c < n + 1, put = c ∧ w.cells c = .reserved t i
  saver : ∀ c < n + 1, ∀ t i, w.cells c = .reserved t i →
    phase t = some (.wrapPut c i) ∨ phase t = some (.checkIndex c i) ∨
      phase t = some (.saveIndex c i)
  taking : ∀ t i get, phase t = some (.wrapGet get i) ∨ phase t = some (.clearIndex get i) →
    ∃ c < n + 1, get = c ∧ w.cells c = .taken t i
  reading : ∀ t raw, phase t = some (.readIndex raw) → 0 ≤ raw ∧ ∃ c < n + 1, cellOf n raw = c ∧
    (w.pending = some t → c = w.head % (n + 1)) ∧
    (w.pending ≠ some t → ∃ i, w.cells c = .taken t i)
  taker : ∀ c < n + 1, ∀ t i, w.cells c = .taken t i → w.pending ≠ some t ∧
    (phase t = some (.wrapGet c i) ∨ phase t = some (.clearIndex c i) ∨
      ∃ raw, phase t = some (.readIndex raw) ∧ cellOf n raw = c)
  backing : ∀ t, phase t = some .giveBack → w.pending = some t
  pending : ∀ t, w.pending = some t →
    (phase t = some .giveBack ∨ ∃ raw, phase t = some (.readIndex raw)) ∧
    ∀ u i, w.cells (w.head % (n + 1)) ≠ .taken u i
  getPlace : ((n + 1 : Nat) : Int) ∣ g.get - (w.head + w.ahead : Nat)
  putPlace : ((n + 1 : Nat) : Int) ∣ g.put - (w.head + w.count : Nat)

theorem Ring.place_def {n : Nat} {g : ItemsGroup} {phase : Nat → Option Phase}
    {held : Nat → Prop} {w : Ghost}
    (ring : Ring n g phase held w) (raw : Int) : g.place raw = cellOf n raw := by
  rw [ItemsGroup.place, ring.number, cellOf]

theorem cellOf_eq {n : Nat} {raw : Int} (positive : 0 ≤ raw) {p : Nat}
    (same : ((n + 1 : Nat) : Int) ∣ raw - p) :
    cellOf n raw = ((p % (n + 1) : Nat) : Int) := by
  rw [cellOf, Int.tmod_eq_emod_of_nonneg positive, Int.natCast_mod]
  exact Int.emod_eq_emod_iff_emod_sub_eq_zero.mpr (Int.emod_eq_zero_of_dvd same)

/-- How far the positions have run since they were wrapped. -/
structure Laps (n : Nat) (g : ItemsGroup) (phase : Nat → Option Phase) (w : Ghost) : Prop where
  getLow : w.getLap = none → w.ahead ≤ g.get ∧ g.get ≤ n + 1 + w.ahead
  getHigh : ∀ t, w.getLap = some t → n + 2 + w.ahead ≤ g.get ∧ g.get ≤ 2 * (n + 1) + w.ahead
  getLap : ∀ t, w.getLap = some t ↔
    (∃ get i, phase t = some (.wrapGet get i)) ∨
      (phase t = some (.readIndex (n + 1 : Nat)) ∧ w.pending ≠ some t)
  wrapGet : ∀ t get i, phase t = some (.wrapGet get i) → get = 0
  /-- A wrap may have passed the pending allocation by. -/
  raw : ∀ t raw, w.pending = some t → phase t = some (.readIndex raw) →
    raw = g.get - 1 ∨ (raw = g.get + n ∧ w.getLap = none ∧ 2 ≤ g.get ∧ g.get ≤ n + 1)
  putLow : w.putLap = none → 0 ≤ g.put ∧ g.put ≤ n + 1
  putHigh : ∀ t, w.putLap = some t → n + 2 ≤ g.put ∧ g.put ≤ 2 * (n + 1)
  putLap : ∀ t, w.putLap = some t ↔ ∃ put i, phase t = some (.wrapPut put i)
  wrapPut : ∀ t put i, phase t = some (.wrapPut put i) → put = 0

structure Sound (n : Nat) (g : ItemsGroup) (phase : Nat → Option Phase) (held : Nat → Prop)
    (w : Ghost) : Prop where
  ring : Ring n g phase held w
  laps : Laps n g phase w

/-- The call has no part in the ring. -/
def Neutral (p : Option Phase) : Prop := p = none ∨ p = some .readPut ∨
    ∃ put, p = some (.advanceGet put)

section Steps
variable {n : Nat} {g : ItemsGroup} {phase : Nat → Option Phase} {held : Nat → Prop} {w : Ghost}

theorem Sound.neutral (sound : Sound n g phase held w) {t : Nat} {next : Option Phase}
    (before : Neutral (phase t)) (after : Neutral next) :
    Sound n g (Function.update phase t next) held w := by
  obtain ⟨ring, laps⟩ := sound
  have quiet (p : Phase) (busy : ¬ Neutral (some p)) (u : Nat) : Function.update phase t next u =
      some p ↔ phase u = some p := by
    by_cases mine : u = t
    · subst mine
      rw [Function.update_self]
      constructor
      · rintro rfl
        exact absurd after busy
      · intro here
        exact absurd (here ▸ before) busy
    · rw [Function.update_of_ne mine]
  constructor
  · constructor <;> try simp only [quiet, Neutral, reduceCtorEq, Option.some.injEq, exists_false,
      or_self, not_false_eq_true]
    all_goals first
      | exact ring.number | exact ring.content | exact ring.item | exact ring.place
      | exact ring.holding | exact ring.freeing | exact ring.queue | exact ring.short
      | exact ring.saving | exact ring.saver | exact ring.taking | exact ring.reading
      | exact ring.taker | exact ring.backing | exact ring.pending | exact ring.getPlace
      | exact ring.putPlace
  · constructor <;> try simp only [quiet, Neutral, reduceCtorEq, Option.some.injEq, exists_false,
      or_self, not_false_eq_true]
    all_goals first
      | exact laps.getLow | exact laps.getHigh | exact laps.getLap | exact laps.wrapGet
      | exact laps.raw | exact laps.putLow | exact laps.putHigh | exact laps.putLap
      | exact laps.wrapPut

/-- No other allocation has to take its advance back, or has still to clear the cell that is
next. -/
def AdvanceClear (g : ItemsGroup) (phase : Nat → Option Phase) (t : Nat) : Prop :=
  ∀ u ≠ t, phase u ≠ some .giveBack ∧
    (∀ raw, phase u = some (.readIndex raw) → g.indexes (g.place raw) ≠ none ∧
      g.place raw ≠ g.place g.get) ∧
    ∀ get i, phase u = some (.wrapGet get i) ∨ phase u = some (.clearIndex get i) →
      get ≠ g.place g.get

/-- What `AdvanceClear` asks of the call of another thread. -/
def Phase.Apart (g : ItemsGroup) : Phase → Prop
  | .giveBack => False
  | .readIndex raw => g.indexes (g.place raw) ≠ none ∧ g.place raw ≠ g.place g.get
  | .wrapGet get _ | .clearIndex get _ => get ≠ g.place g.get
  | _ => True

instance (g : ItemsGroup) : (p : Phase) → Decidable (p.Apart g)
  | .giveBack => inferInstanceAs (Decidable False)
  | .readIndex _ => inferInstanceAs (Decidable (_ ∧ _))
  | .wrapGet _ _ | .clearIndex _ _ => inferInstanceAs (Decidable (_ ≠ _))
  | .readPut | .advanceGet _ | .advancePut _ | .wrapPut _ _ | .checkIndex _ _ | .saveIndex _ _ =>
    inferInstanceAs (Decidable True)

theorem advanceClear_of_apart {g : ItemsGroup} {phase : Nat → Option Phase} {t : Nat}
    (apart : ∀ u ≠ t, ∀ p ∈ phase u, p.Apart g) : AdvanceClear g phase t := by
  refine fun u other =>
    ⟨apart u other .giveBack, fun raw here => apart u other _ here, fun get i here => ?_⟩
  rcases here with wrapping | clearing
  · exact apart u other _ wrapping
  · exact apart u other _ clearing

theorem update_eq (phase : Nat → Option Phase) (t u : Nat) (next : Option Phase) :
    Function.update phase t next u = if u = t then next else phase u := Function.update_apply ..

/-- The item of the first cell goes to the thread that waits for it. -/
def Ghost.take (w : Ghost) (n t i : Nat) (lap : Bool) : Ghost :=
  { w with
    cells := Function.update w.cells (w.head % (n + 1)) (.taken t i)
    head := w.head + 1
    count := w.count - 1
    pending := none
    getLap := if lap then some t else w.getLap }

theorem head_lt (w : Ghost) (n : Nat) : w.head % (n + 1) < n + 1 := Nat.mod_lt _ (Nat.succ_pos n)

theorem dist_next {m base x : Nat} (below : base < m) (valid : x < m) :
    dist m ((base + 1) % m) x = if x = base then m - 1 else dist m base x - 1 := by
  have next := succ_mod below
  have inside : (base + 1) % m < m := Nat.mod_lt _ (by omega)
  rw [dist_eq inside valid, dist_eq below valid, next]
  split_ifs <;> omega

theorem dist_pos {m base x : Nat} (below : base < m) (valid : x < m) (other : x ≠ base) :
    0 < dist m base x := by
  refine Nat.pos_of_ne_zero fun zero => other ?_
  exact dist_inj below valid below (zero.trans (dist_self m base).symm)

theorem Ring.queue_take (ring : Ring n g phase held w) (t i c : Nat) (small : c < n + 1) :
    (Function.update w.cells (w.head % (n + 1)) (.taken t i) c).Queued ↔
    dist (n + 1) ((w.head + 1) % (n + 1)) c < w.count - 1 := by
  have inside := head_lt w n
  have short := ring.short
  have next : (w.head + 1) % (n + 1) = (w.head % (n + 1) + 1) % (n + 1) := (Nat.mod_add_mod ..).symm
  rw [next, dist_next inside small, Function.update_apply]
  by_cases first : c = w.head % (n + 1)
  · rw [if_pos first, if_pos first]
    constructor
    · exact False.elim
    · omega
  · have away := dist_pos inside small first
    rw [if_neg first, if_neg first, ring.queue c small]
    omega

/-- An item at each queued cell: there are no more of these than items outside of `j`. -/
theorem Ring.count_lt (ring : Ring n g phase held w) {j : Nat} (less : j < n)
    (elsewhere : ∀ c, w.place j ≠ .cell c) : w.count < n := by
  by_contra many
  have stored (k : Fin n) : ∃ i : Fin n, w.place i = .cell ((w.head % (n + 1) + k) % (n + 1)) := by
    have inside : (w.head % (n + 1) + k) % (n + 1) < n + 1 := Nat.mod_lt _ (Nat.succ_pos n)
    have queued : (w.cells ((w.head % (n + 1) + k) % (n + 1))).Queued := by
      rw [ring.queue _ inside, dist_add (head_lt w n) (by omega)]
      omega
    cases cell : w.cells ((w.head % (n + 1) + k) % (n + 1)) with
    | free =>
      rw [cell] at queued
      exact queued.elim
    | taken t i =>
      rw [cell] at queued
      exact queued.elim
    | filled i =>
      obtain ⟨small, place⟩ := ring.item _ inside i (by rw [cell]; rfl)
      exact ⟨⟨i, small⟩, place⟩
    | reserved t i =>
      obtain ⟨small, place⟩ := ring.item _ inside i (by rw [cell]; rfl)
      exact ⟨⟨i, small⟩, place⟩
  choose item place using stored
  have injective : Function.Injective item := by
    intro a b same
    have cells :=
      (place a).symm.trans ((congrArg (fun i : Fin n => w.place i) same).trans (place b))
    have equal := congrArg (dist (n + 1) (w.head % (n + 1))) (Where.cell.inj cells)
    rw [dist_add (head_lt w n) (by omega), dist_add (head_lt w n) (by omega)] at equal
    exact Fin.ext equal
  obtain ⟨k, hit⟩ := Finite.surjective_of_injective injective ⟨j, less⟩
  have found := place k
  rw [hit] at found
  exact elsewhere _ found

/-- The allocation that has the get position to wrap is at the first cell. -/
theorem Sound.lap_cell (sound : Sound n g phase held w) {t : Nat} (lap : w.getLap = some t) :
    ∃ i, w.cells 0 = .taken t i := by
  rcases (sound.laps.getLap t).mp lap with ⟨get, i, doing⟩ | ⟨doing, found⟩
  · obtain ⟨c, _, place, cell⟩ := sound.ring.taking t i get (Or.inl doing)
    have zero := sound.laps.wrapGet t get i doing
    obtain rfl : c = 0 := by omega
    exact ⟨i, cell⟩
  · obtain ⟨_, c, _, place, _, taken⟩ := sound.ring.reading t _ doing
    rw [cellOf, Int.tmod_self] at place
    obtain rfl : c = 0 := by omega
    exact taken found

theorem mod_zero {n head : Nat} {get : Int} (place : ((n + 1 : Nat) : Int) ∣ get - (head + 1 : Nat))
    (full : get = 2 * (n + 1) + 1) :
    head % (n + 1) = 0 := by
  apply Nat.mod_eq_zero_of_dvd
  have split_ : (head : Int) = 2 * (n + 1 : Nat) - (get - (head + 1 : Nat)) := by
    push_cast
    omega
  have multiple : ((n + 1 : Nat) : Int) ∣ head := by
    rw [split_]
    exact Int.dvd_sub (Dvd.intro_left 2 rfl) place
  exact Int.natCast_dvd_natCast.mp multiple

theorem Sound.take (sound : Sound n g phase held w) {t i : Nat} {raw : Int}
    (waiting : w.pending = some t)
    (here : phase t = some (.readIndex raw)) (filled : w.cells (w.head % (n + 1)) = .filled i) :
    Sound n g phase held (w.take n t i (raw = (n + 1 : Nat))) := by
  have lap_cell (u : Nat) : w.getLap = some u → ∃ i, w.cells 0 = .taken u i := sound.lap_cell
  obtain ⟨ring, laps⟩ := sound
  have inside := head_lt w n
  have some_ : 0 < w.count := by
    have first := (ring.queue _ inside).mp (by rw [filled]; trivial)
    omega
  obtain ⟨low, c, small, same, first, _⟩ := ring.reading t raw here
  obtain rfl := first waiting
  have low := laps.getLow
  have high := laps.getHigh
  have value := laps.raw t raw waiting here
  have ahead := ahead_some waiting
  have unwrapped : raw = (n + 1 : Nat) → w.getLap = none := by
    intro last
    cases lap : w.getLap with
    | none => rfl
    | some u =>
      have bound := high u lap
      grind
  refine ⟨⟨ring.number, ?_, ?_, ?_, ring.holding, ring.freeing, ring.queue_take t i, ?_, ?_, ?_, ?_,
    ?_, ?_, ?_, ?_, ?_, ?_⟩,
    ⟨?_, ?_, ?_, laps.wrapGet, nofun, laps.putLow, laps.putHigh, laps.putLap, laps.wrapPut⟩⟩
  all_goals simp only [Ghost.take, Function.update_apply]
  · intro c small
    split
    · rename_i mine
      rw [mine, ring.content _ inside, filled]
      rfl
    · exact ring.content c small
  · intro c small j
    split
    · rename_i mine
      intro item
      rw [mine]
      exact ring.item _ inside j (by rw [filled]; exact item)
    · exact ring.item c small j
  · intro j less c here
    obtain ⟨small, item⟩ := ring.place j less c here
    refine ⟨small, ?_⟩
    split
    · rename_i mine
      rw [mine, filled] at item
      exact item
    · exact item
  · have short := ring.short
    omega
  · intro u j put saving
    obtain ⟨c, small, rfl, cell⟩ := ring.saving u j put saving
    exact ⟨c, small, rfl, by grind⟩
  · grind [ring.saver]
  · intro u j get taking
    obtain ⟨c, small, rfl, cell⟩ := ring.taking u j get taking
    exact ⟨c, small, rfl, by grind⟩
  · intro u other doing
    obtain ⟨low, c, small, place, _, taken⟩ := ring.reading u other doing
    refine ⟨low, c, small, place, nofun, fun _ => ?_⟩
    by_cases mine : u = t
    · subst mine
      obtain rfl : other = raw := by
        rw [here] at doing
        cases doing
        rfl
      have equal : c = w.head % (n + 1) := Int.ofNat.inj (place.symm.trans same)
      exact ⟨i, if_pos equal⟩
    · obtain ⟨j, cell⟩ := taken (by grind)
      exact ⟨j, by grind⟩
  · intro c small u j cell
    refine ⟨nofun, ?_⟩
    split at cell
    · rename_i mine
      cases cell
      exact Or.inr (Or.inr ⟨raw, here, mine ▸ same⟩)
    · exact (ring.taker c small u j cell).2
  · intro u doing
    have found := ring.backing u doing
    grind
  · nofun
  · have place := ring.getPlace
    rw [ahead] at place
    exact place
  · have place := ring.putPlace
    have sum : w.head + 1 + (w.count - 1) = w.head + w.count := by omega
    rw [sum]
    exact place
  · intro lap
    have plain : w.getLap = none := by grind
    have bound := low plain
    rw [ahead_none rfl]
    grind
  · intro u lap
    rw [ahead_none rfl]
    by_cases last : raw = (n + 1 : Nat)
    · have bound := low (unwrapped last)
      grind
    · have plain : w.getLap = some u := by grind
      have bound := high u plain
      obtain ⟨j, cell⟩ := lap_cell u plain
      have away : w.head % (n + 1) ≠ 0 := by
        intro zero
        rw [zero, cell] at filled
        exact nomatch filled
      have short_of : g.get ≠ 2 * (n + 1) + 1 :=
        fun full => away (mod_zero (ahead ▸ ring.getPlace) full)
      grind
  · intro u
    have lap := laps.getLap u
    grind

/-- An allocation that waits at a cell which has been written has its item. -/
theorem Sound.settle (sound : Sound n g phase held w) {t : Nat} {put : Int}
    (here : phase t = some (.advanceGet put))
    (clear : AdvanceClear g phase t) :
    ∃ w', Sound n g phase held w' ∧ w'.pending = none := by
  cases waiting : w.pending with
  | none => exact ⟨w, sound, waiting⟩
  | some u =>
    obtain ⟨doing, untaken⟩ := sound.ring.pending u waiting
    have other : u ≠ t := by
      rintro rfl
      simp [here] at doing
    obtain ⟨back, read, _⟩ := clear u other
    rcases doing with doing | ⟨raw, doing⟩
    · exact absurd doing back
    · obtain ⟨_, c, small, same, first, _⟩ := sound.ring.reading u raw doing
      have filled := (read raw doing).1
      obtain rfl := first waiting
      rw [sound.ring.place_def, same, sound.ring.content _ small] at filled
      cases cell : w.cells (w.head % (n + 1)) with
      | free => simp [cell, Cell.content] at filled
      | reserved v i => simp [cell, Cell.content] at filled
      | taken v i => exact absurd cell (untaken v i)
      | filled i => exact ⟨_, sound.take waiting doing cell, rfl⟩

theorem Sound.get_place (sound : Sound n g phase held w) (none_ : w.pending = none) :
    0 ≤ g.get ∧ cellOf n g.get = ((w.head % (n + 1) : Nat) : Int) := by
  have low := sound.laps.getLow
  have high := sound.laps.getHigh
  have same := sound.ring.getPlace
  rw [ahead_none none_] at low high same
  have positive : 0 ≤ g.get := by
    cases lap : w.getLap with
    | none => exact (low lap).1
    | some u =>
      have bound := (high u lap).1
      omega
  exact ⟨positive, cellOf_eq positive same⟩

theorem Sound.head_not_taken (sound : Sound n g phase held w) (none_ : w.pending = none)
    {t : Nat} {put : Int}
    (here : phase t = some (.advanceGet put)) (clear : AdvanceClear g phase t) (u i : Nat) :
    w.cells (w.head % (n + 1)) ≠ .taken u i := by
  intro taken
  have place := (sound.get_place none_).2
  rw [← sound.ring.place_def] at place
  obtain ⟨_, doing⟩ := sound.ring.taker _ (head_lt w n) u i taken
  have other : u ≠ t := by
    rintro rfl
    simp [here] at doing
  obtain ⟨_, read, cleared⟩ := clear u other
  rcases doing with doing | doing | ⟨raw, doing, same⟩
  · exact cleared _ i (Or.inl doing) place.symm
  · exact cleared _ i (Or.inr doing) place.symm
  · rw [← sound.ring.place_def] at same
    exact (read raw doing).2 (same.trans place.symm)

theorem Sound.advanceGet (sound : Sound n g phase held w) {t : Nat} {put : Int}
    (here : phase t = some (.advanceGet put))
    (clear : AdvanceClear g phase t) {next : Phase}
    (either : next = .giveBack ∨ next = .readIndex g.get) :
    ∃ w', Sound n { g with get := g.get + 1 } (Function.update phase t (some next)) held w' := by
  obtain ⟨w, sound, none_⟩ := sound.settle here clear
  have untaken := sound.head_not_taken none_ here clear
  obtain ⟨positive, place⟩ := sound.get_place none_
  obtain ⟨ring, laps⟩ := sound
  have ahead := ahead_none none_
  refine ⟨{ w with pending := some t },
    ⟨ring.number, ring.content, ring.item, ring.place, ring.holding, ?_, ring.queue, ring.short,
    ?_, ?_, ?_, ?_, ?_, ?_, ?_, ?_, ring.putPlace⟩,
      ⟨?_, ?_, ?_, ?_, ?_, laps.putLow, laps.putHigh, ?_, ?_⟩⟩
  all_goals simp only [update_eq]
  · grind [ring.freeing]
  · grind [ring.saving]
  · grind [ring.saver]
  · grind [ring.taking]
  · intro u raw doing
    split at doing
    · rcases either with rfl | rfl
      · exact nomatch doing
      · cases doing
        exact ⟨positive, _, head_lt w n, place, fun _ => rfl, by grind⟩
    · obtain ⟨low, c, small, same, _, taken⟩ := ring.reading u raw doing
      exact ⟨low, c, small, same, by grind, by grind⟩
  · grind [ring.taker]
  · grind [ring.backing]
  · grind
  · have same := ring.getPlace
    rw [ahead] at same
    rw [ahead_some rfl]
    have shift : g.get + 1 - ((w.head + 1 : Nat) : Int) = g.get - (w.head + 0 : Nat) := by
      push_cast
      omega
    rw [shift]
    exact same
  · intro lap
    have bound := laps.getLow lap
    rw [ahead_some rfl]
    grind
  · intro u lap
    have bound := laps.getHigh u lap
    rw [ahead_some rfl]
    grind
  · grind [laps.getLap]
  · grind [laps.wrapGet]
  · grind
  · grind [laps.putLap]
  · grind [laps.wrapPut]

theorem Sound.giveBack (sound : Sound n g phase held w) {t : Nat} (here : phase t = some .giveBack)
    {next : Option Phase}
    (after : Neutral next) :
    ∃ w', Sound n { g with get := g.get - 1 } (Function.update phase t next) held w' := by
  obtain ⟨ring, laps⟩ := sound
  have waiting := ring.backing t here
  have ahead := ahead_some waiting
  simp only [Neutral] at after
  refine ⟨{ w with pending := none },
    ⟨ring.number, ring.content, ring.item, ring.place, ring.holding, ?_, ring.queue, ring.short,
    ?_, ?_, ?_, ?_, ?_, ?_, nofun, ?_, ring.putPlace⟩,
      ⟨?_, ?_, ?_, ?_, nofun, laps.putLow, laps.putHigh, ?_, ?_⟩⟩
  all_goals simp only [update_eq]
  · grind [ring.freeing]
  · grind [ring.saving]
  · grind [ring.saver]
  · grind [ring.taking]
  · intro u raw doing
    split at doing
    · grind
    · obtain ⟨low, c, small, same, _, taken⟩ := ring.reading u raw doing
      exact ⟨low, c, small, same, nofun, fun _ => taken (by grind)⟩
  · intro c small u i cell
    obtain ⟨found, doing⟩ := ring.taker c small u i cell
    have other : u ≠ t := fun same => found (same ▸ waiting)
    rw [if_neg other]
    exact ⟨nofun, doing⟩
  · intro u doing
    split at doing
    · grind
    · exact absurd (ring.backing u doing) (by grind)
  · have same := ring.getPlace
    rw [ahead] at same
    rw [ahead_none rfl]
    have shift : g.get - 1 - ((w.head + 0 : Nat) : Int) = g.get - (w.head + 1 : Nat) := by
      push_cast
      omega
    rw [shift]
    exact same
  · intro lap
    have bound := laps.getLow lap
    rw [ahead_none rfl]
    grind
  · intro u lap
    have bound := laps.getHigh u lap
    rw [ahead_none rfl]
    grind
  · grind [laps.getLap]
  · grind [laps.wrapGet]
  · grind [laps.putLap]
  · grind [laps.wrapPut]

theorem Sound.readIndex_empty (sound : Sound n g phase held w) {t : Nat} {raw : Int}
    (here : phase t = some (.readIndex raw))
    (empty : g.indexes (g.place raw) = none) :
    Sound n g (Function.update phase t (some .giveBack)) held w := by
  obtain ⟨ring, laps⟩ := sound
  obtain ⟨_, c, small, same, first, taken⟩ := ring.reading t raw here
  have waiting : w.pending = some t := by
    by_contra found
    obtain ⟨i, cell⟩ := taken found
    rw [ring.place_def, same, ring.content c small, cell] at empty
    exact nomatch empty
  refine ⟨⟨ring.number, ring.content, ring.item, ring.place, ring.holding, ?_, ring.queue,
    ring.short, ?_, ?_, ?_, ?_, ?_, ?_, ?_,
    ring.getPlace, ring.putPlace⟩,
      ⟨laps.getLow, laps.getHigh, ?_, ?_, ?_, laps.putLow, laps.putHigh, ?_, ?_⟩⟩
  all_goals simp only [update_eq]
  · grind [ring.freeing]
  · grind [ring.saving]
  · grind [ring.saver]
  · grind [ring.taking]
  · intro u other doing
    split at doing
    · grind
    · exact ring.reading u other doing
  · grind [ring.taker]
  · grind [ring.backing]
  · grind [ring.pending]
  · grind [laps.getLap]
  · grind [laps.wrapGet]
  · grind
  · grind [laps.putLap]
  · grind [laps.wrapPut]

theorem Sound.readIndex_taken (sound : Sound n g phase held w) {t i c : Nat} {raw : Int}
    (here : phase t = some (.readIndex raw))
    (found : w.pending ≠ some t) (small : c < n + 1) (same : cellOf n raw = c)
    (taken : w.cells c = .taken t i) :
    Sound n g (Function.update phase t
      (some (if raw = (n + 1 : Nat) then .wrapGet c i else .clearIndex c i))) held w := by
  obtain ⟨ring, laps⟩ := sound
  have lap := laps.getLap t
  have first : raw = (n + 1 : Nat) → c = 0 := by
    rintro rfl
    rw [cellOf, Int.tmod_self] at same
    omega
  refine ⟨⟨ring.number, ring.content, ring.item, ring.place, ring.holding, ?_, ring.queue,
    ring.short, ?_, ?_, ?_, ?_, ?_, ?_, ?_,
    ring.getPlace, ring.putPlace⟩,
      ⟨laps.getLow, laps.getHigh, ?_, ?_, ?_, laps.putLow, laps.putHigh, ?_, ?_⟩⟩
  all_goals simp only [update_eq]
  · grind [ring.freeing]
  · grind [ring.saving]
  · grind [ring.saver]
  · grind [ring.taking]
  · intro u other doing
    split at doing
    · grind
    · exact ring.reading u other doing
  · intro d inside u j cell
    by_cases mine : u = t
    · subst mine
      obtain ⟨_, doing⟩ := ring.taker d inside u j cell
      grind
    · grind [ring.taker]
  · grind [ring.backing]
  · grind [ring.pending]
  · grind [laps.getLap]
  · grind [laps.wrapGet]
  · grind [laps.raw]
  · grind [laps.putLap]
  · grind [laps.wrapPut]

theorem Sound.readIndex_some (sound : Sound n g phase held w) {t i : Nat} {raw : Int}
    (here : phase t = some (.readIndex raw))
    (full : g.indexes (g.place raw) = some i) :
    ∃ w', Sound n g (Function.update phase t
      (some (if raw = g.numberPlusOne then .wrapGet (g.place raw) i
        else .clearIndex (g.place raw) i))) held w' := by
  obtain ⟨_, c, small, same, first, taken⟩ := sound.ring.reading t raw here
  have number := sound.ring.number
  rw [sound.ring.place_def, same] at full ⊢
  rw [sound.ring.content c small] at full
  rw [number]
  by_cases waiting : w.pending = some t
  · obtain ⟨_, untaken⟩ := sound.ring.pending t waiting
    obtain rfl := first waiting
    cases cell : w.cells (w.head % (n + 1)) with
    | free => simp [cell, Cell.content] at full
    | reserved v j => simp [cell, Cell.content] at full
    | taken v j => exact absurd cell (untaken v j)
    | filled j =>
      obtain rfl : j = i := by simpa [cell, Cell.content] using full
      refine ⟨_, (sound.take waiting here cell).readIndex_taken here nofun small same ?_⟩
      exact Function.update_self ..
  · obtain ⟨j, cell⟩ := taken waiting
    obtain rfl : j = i := by simpa [cell, Cell.content] using full
    exact ⟨w, sound.readIndex_taken here waiting small same cell⟩

theorem Sound.wrapGet (sound : Sound n g phase held w) {t i : Nat} {get : Int}
    (here : phase t = some (.wrapGet get i)) :
    ∃ w', Sound n { g with get := g.get - g.numberPlusOne }
        (Function.update phase t (some (.clearIndex get i))) held w' := by
  have lap : w.getLap = some t := (sound.laps.getLap t).mpr (Or.inl ⟨get, i, here⟩)
  obtain ⟨j, cell⟩ := sound.lap_cell lap
  obtain ⟨ring, laps⟩ := sound
  have bound := laps.getHigh t lap
  have number := ring.number
  have owner (u : Nat) : w.getLap = some u ↔ u = t := by grind
  have same_ahead : ({ w with getLap := none } : Ghost).ahead = w.ahead := rfl
  -- an allocation that waits is not at the first cell, so the position has not gone round
  have short_of {u : Nat} (waiting : w.pending = some u) : g.get ≠ 2 * (n + 1) + 1 := by
    intro full
    have zero := mod_zero (ahead_some waiting ▸ ring.getPlace) full
    exact (ring.pending u waiting).2 t j (zero ▸ cell)
  refine ⟨{ w with getLap := none },
    ⟨ring.number, ring.content, ring.item, ring.place, ring.holding, ?_, ring.queue,
    ring.short, ?_, ?_, ?_,
    ?_, ?_, ?_, ?_, ?_, ring.putPlace⟩, ⟨?_, nofun, ?_, ?_, ?_, laps.putLow, laps.putHigh, ?_, ?_⟩⟩
  all_goals simp only [update_eq]
  · grind [ring.freeing]
  · grind [ring.saving]
  · grind [ring.saver]
  · grind [ring.taking]
  · intro u other doing
    split at doing
    · exact nomatch doing
    · exact ring.reading u other doing
  · grind [ring.taker]
  · grind [ring.backing]
  · grind [ring.pending]
  · have place := ring.getPlace
    have shift : g.get - ((n + 1 : Nat) : Int) - (w.head + w.ahead : Nat) =
        g.get - (w.head + w.ahead : Nat) - (n + 1 : Nat) := by
      omega
    rw [number, same_ahead, shift]
    exact Int.dvd_sub place (Int.dvd_refl _)
  · intro _
    rw [number, same_ahead]
    push_cast
    omega
  · intro u
    have mine := laps.getLap u
    grind
  · grind [laps.wrapGet]
  · intro u other waiting doing
    split at doing
    · exact nomatch doing
    · have far := short_of waiting
      have ahead := ahead_some waiting
      have value := laps.raw u other waiting doing
      rw [number]
      push_cast
      grind
  · grind [laps.putLap]
  · grind [laps.wrapPut]

theorem Sound.not_held (sound : Sound n g phase held w) {t i : Nat} {get : Int}
    (here : phase t = some (.clearIndex get i)) : ¬ held i := by
  obtain ⟨c, small, _, cell⟩ := sound.ring.taking t i get (Or.inr here)
  obtain ⟨_, place⟩ := sound.ring.item c small i (by rw [cell]; rfl)
  intro mine
  have hand := ((sound.ring.holding i).mp mine).2
  rw [place] at hand
  exact nomatch hand

theorem Sound.clearIndex (sound : Sound n g phase held w) {t i : Nat} {get : Int}
    (here : phase t = some (.clearIndex get i)) :
    ∃ w', Sound n { g with indexes := Function.update g.indexes get none }
        (Function.update phase t none) (fun j => j = i ∨ held j) w' := by
  obtain ⟨ring, laps⟩ := sound
  obtain ⟨c, small, rfl, cell⟩ := ring.taking t i get (Or.inr here)
  obtain ⟨less, place⟩ := ring.item c small i (by rw [cell]; rfl)
  have found := (ring.taker c small t i cell).1
  refine ⟨{ w with
      cells := Function.update w.cells c .free
      place := Function.update w.place i .held },
    ⟨ring.number, ?_, ?_, ?_, ?_, ?_, ?_, ring.short, ?_, ?_, ?_, ?_, ?_, ?_, ?_, ring.getPlace,
      ring.putPlace⟩,
    ⟨laps.getLow, laps.getHigh, ?_, ?_, ?_, laps.putLow, laps.putHigh, ?_, ?_⟩⟩
  all_goals simp only [Function.update_apply]
  · intro d inside
    have content := ring.content d inside
    grind [Cell.content]
  · intro d inside j item
    split at item
    · exact nomatch item
    · obtain ⟨low, place⟩ := ring.item d inside j item
      grind
  · intro j low d there
    split at there
    · exact nomatch there
    · obtain ⟨inside, item⟩ := ring.place j low d there
      refine ⟨inside, ?_⟩
      have other : d ≠ c := by
        rintro rfl
        rw [cell] at item
        cases item
        contradiction
      rw [if_neg other]
      exact item
  · intro j
    have was := ring.holding j
    grind
  · intro u j
    have was := ring.freeing u j
    grind
  · intro d inside
    have was := ring.queue d inside
    split
    · rename_i mine
      subst mine
      rw [cell] at was
      exact was
    · exact was
  · intro u j put saving
    obtain ⟨d, inside, rfl, reserved⟩ := ring.saving u j put (by grind)
    exact ⟨d, inside, rfl, by grind⟩
  · grind [ring.saver]
  · intro u j get taking
    obtain ⟨d, inside, rfl, taken⟩ := ring.taking u j get (by grind)
    refine ⟨d, inside, rfl, ?_⟩
    have other : d ≠ c := by
      rintro rfl
      grind
    rw [if_neg other]
    exact taken
  · intro u raw doing
    split at doing
    · exact nomatch doing
    · obtain ⟨low, d, inside, same, first, taken⟩ := ring.reading u raw doing
      refine ⟨low, d, inside, same, first, fun free => ?_⟩
      obtain ⟨j, taken⟩ := taken free
      exact ⟨j, by grind⟩
  · intro d inside u j taken
    split at taken
    · exact nomatch taken
    · obtain ⟨free, doing⟩ := ring.taker d inside u j taken
      refine ⟨free, ?_⟩
      have other : u ≠ t := by
        rintro rfl
        grind
      rw [if_neg other]
      exact doing
  · grind [ring.backing]
  · grind [ring.pending]
  · grind [laps.getLap]
  · grind [laps.wrapGet]
  · grind [laps.raw]
  · grind [laps.putLap]
  · grind [laps.wrapPut]

theorem Sound.startFree (sound : Sound n g phase held w) {t i : Nat} (idle : phase t = none)
    (mine : held i) :
    ∃ w', Sound n g (Function.update phase t (some (.advancePut i)))
        (fun j => j ≠ i ∧ held j) w' := by
  obtain ⟨ring, laps⟩ := sound
  obtain ⟨less, place⟩ := (ring.holding i).mp mine
  refine ⟨{ w with place := Function.update w.place i (.freeing t) },
    ⟨ring.number, ring.content, ?_, ?_, ?_, ?_, ring.queue, ring.short, ?_, ?_, ?_, ?_, ?_, ?_, ?_,
      ring.getPlace, ring.putPlace⟩,
    ⟨laps.getLow, laps.getHigh, ?_, ?_, ?_, laps.putLow, laps.putHigh, ?_, ?_⟩⟩
  all_goals simp only [Function.update_apply]
  · intro c small j item
    obtain ⟨low, there⟩ := ring.item c small j item
    grind
  · intro j low c there
    split at there
    · exact nomatch there
    · exact ring.place j low c there
  · intro j
    have was := ring.holding j
    grind
  · intro u j
    have was := ring.freeing u j
    grind
  · grind [ring.saving]
  · grind [ring.saver]
  · grind [ring.taking]
  · intro u raw doing
    split at doing
    · exact nomatch doing
    · exact ring.reading u raw doing
  · grind [ring.taker]
  · grind [ring.backing]
  · grind [ring.pending]
  · grind [laps.getLap]
  · grind [laps.wrapGet]
  · grind [laps.raw]
  · grind [laps.putLap]
  · grind [laps.wrapPut]

theorem Ring.queue_reserve (ring : Ring n g phase held w) (room : w.count < n) (t i c : Nat)
    (small : c < n + 1) :
    (Function.update w.cells ((w.head + w.count) % (n + 1)) (.reserved t i) c).Queued ↔
      dist (n + 1) (w.head % (n + 1)) c < w.count + 1 := by
  have inside := head_lt w n
  have last : (w.head + w.count) % (n + 1) = (w.head % (n + 1) + w.count) % (n + 1) :=
    (Nat.mod_add_mod ..).symm
  have far : dist (n + 1) (w.head % (n + 1)) ((w.head % (n + 1) + w.count) % (n + 1)) = w.count :=
    dist_add inside (by omega)
  rw [last, Function.update_apply]
  by_cases mine : c = (w.head % (n + 1) + w.count) % (n + 1)
  · subst mine
    rw [if_pos rfl, far]
    exact iff_of_true trivial (Nat.lt_succ_self _)
  · have other : dist (n + 1) (w.head % (n + 1)) c ≠ w.count := by
      intro same
      exact mine (dist_inj inside small (Nat.mod_lt _ (Nat.succ_pos n)) (same.trans far.symm))
    rw [if_neg mine, ring.queue c small]
    omega

theorem Sound.put_place (sound : Sound n g phase held w) :
    0 ≤ g.put ∧ cellOf n g.put = (((w.head + w.count) % (n + 1) : Nat) : Int) := by
  have positive : 0 ≤ g.put := by
    cases lap : w.putLap with
    | none => exact (sound.laps.putLow lap).1
    | some u =>
      have bound := (sound.laps.putHigh u lap).1
      omega
  exact ⟨positive, cellOf_eq positive sound.ring.putPlace⟩

/-- The cell behind the last one is free unless an allocation has still to clear it. -/
theorem Sound.last_free (sound : Sound n g phase held w)
    (clear : g.indexes (g.place g.put) = none) :
    w.cells ((w.head + w.count) % (n + 1)) = .free := by
  obtain ⟨_, place⟩ := sound.put_place
  have small : (w.head + w.count) % (n + 1) < n + 1 := Nat.mod_lt _ (Nat.succ_pos n)
  have short := sound.ring.short
  have content := sound.ring.content _ small
  rw [← place, ← sound.ring.place_def, clear] at content
  have queue := sound.ring.queue _ small
  have last : (w.head + w.count) % (n + 1) = (w.head % (n + 1) + w.count) % (n + 1) :=
    (Nat.mod_add_mod ..).symm
  have far : dist (n + 1) (w.head % (n + 1)) ((w.head + w.count) % (n + 1)) = w.count := by
    rw [last]
    exact dist_add (head_lt w n) (by omega)
  rw [far] at queue
  cases cell : w.cells ((w.head + w.count) % (n + 1)) with
  | free => rfl
  | filled i =>
    rw [cell] at content
    exact nomatch content
  | taken u i =>
    rw [cell] at content
    exact nomatch content
  | reserved u i =>
    rw [cell] at queue
    exact absurd (queue.mp trivial) (Nat.lt_irrefl _)

theorem Sound.advancePut (sound : Sound n g phase held w) {t i : Nat}
    (here : phase t = some (.advancePut i))
    (clear : g.indexes (g.place g.put) = none) :
    ∃ w', Sound n { g with put := g.put + 1 } (Function.update phase t
      (some (if g.put = g.numberPlusOne then .wrapPut (g.place g.put) i
          else .checkIndex (g.place g.put) i))) held w' := by
  have free := sound.last_free clear
  obtain ⟨positive, place⟩ := sound.put_place
  obtain ⟨ring, laps⟩ := sound
  obtain ⟨less, there⟩ := (ring.freeing t i).mp here
  have room := ring.count_lt less (fun c => by rw [there]; nofun)
  have small : (w.head + w.count) % (n + 1) < n + 1 := Nat.mod_lt _ (Nat.succ_pos n)
  have queue := ring.queue_reserve room t i
  have number := ring.number
  have sum : ((w.head + (w.count + 1) : Nat) : Int) = (w.head + w.count : Nat) + 1 := by
    push_cast
    omega
  have putPlace := ring.putPlace
  rw [ring.place_def, place, number]
  generalize (w.head + w.count) % (n + 1) = c at free place small queue
  have first : g.put = (n + 1 : Nat) → c = 0 := by
    intro full
    rw [full, cellOf, Int.tmod_self] at place
    omega
  refine ⟨{ w with
      cells := Function.update w.cells c (.reserved t i)
      place := Function.update w.place i (.cell c)
      count := w.count + 1
      putLap := if g.put = (n + 1 : Nat) then some t else w.putLap },
    ⟨rfl, ?_, ?_, ?_, ?_, ?_, queue, room, ?_, ?_, ?_, ?_, ?_, ?_, ?_, ring.getPlace, ?_⟩,
    ⟨laps.getLow, laps.getHigh, ?_, ?_, ?_, ?_, ?_, ?_, ?_⟩⟩
  all_goals simp only [Function.update_apply]
  · intro d inside
    have content := ring.content d inside
    grind [Cell.content]
  · intro d inside j item
    split at item
    · cases item
      grind
    · obtain ⟨low, was⟩ := ring.item d inside j item
      grind
  · intro j low d was
    split at was
    · cases was
      grind [Cell.item]
    · obtain ⟨inside, item⟩ := ring.place j low d was
      have other : d ≠ c := by
        rintro rfl
        rw [free] at item
        exact nomatch item
      rw [if_neg other]
      exact ⟨inside, item⟩
  · intro j
    have was := ring.holding j
    grind
  · intro u j
    have was := ring.freeing u j
    grind
  · intro u j put saving
    by_cases mine : u = t
    · subst mine
      exact ⟨c, small, by grind, by grind⟩
    · obtain ⟨d, inside, rfl, reserved⟩ := ring.saving u j put (by grind)
      exact ⟨d, inside, rfl, by grind⟩
  · intro d inside u j reserved
    split at reserved
    · cases reserved
      grind
    · have doing := ring.saver d inside u j reserved
      grind
  · intro u j get taking
    obtain ⟨d, inside, rfl, taken⟩ := ring.taking u j get (by grind)
    exact ⟨d, inside, rfl, by grind⟩
  · intro u raw doing
    split at doing
    · grind
    · obtain ⟨low, d, inside, same, waits, taken⟩ := ring.reading u raw doing
      refine ⟨low, d, inside, same, waits, fun found => ?_⟩
      obtain ⟨j, taken⟩ := taken found
      exact ⟨j, by grind⟩
  · intro d inside u j taken
    split at taken
    · exact nomatch taken
    · obtain ⟨found, doing⟩ := ring.taker d inside u j taken
      exact ⟨found, by grind⟩
  · grind [ring.backing]
  · intro u waiting
    obtain ⟨doing, untaken⟩ := ring.pending u waiting
    exact ⟨by grind, by grind⟩
  · rw [sum, Int.add_sub_add_right]
    exact putPlace
  · grind [laps.getLap]
  · grind [laps.wrapGet]
  · grind [laps.raw]
  · intro lap
    have plain : w.putLap = none := by grind
    have bound := laps.putLow plain
    grind
  · intro u lap
    cases plain : w.putLap with
    | none =>
      have bound := laps.putLow plain
      grind
    | some v =>
      have bound := laps.putHigh v plain
      -- the free that has to wrap has the first cell, so the position has not gone round
      have short_of : g.put ≠ 2 * (n + 1) := by
        intro full
        obtain ⟨put, j, doing⟩ := (laps.putLap v).mp plain
        obtain ⟨d, _, same, reserved⟩ := ring.saving v j put (Or.inl doing)
        have zero := laps.wrapPut v put j doing
        have multiple : g.put = 2 * (n + 1 : Nat) := by
          push_cast
          exact full
        rw [multiple, cellOf, Int.mul_tmod_left] at place
        grind
      grind
  · intro u
    have was := laps.putLap u
    by_cases full : g.put = (n + 1 : Nat)
    · have plain : w.putLap ≠ some u := by
        intro lap
        have bound := laps.putHigh u lap
        omega
      simp only [if_pos full]
      by_cases mine : u = t
      · simp [mine]
      · simp only [if_neg mine, ← was, plain, iff_false]
        exact fun same => mine (Option.some.inj same).symm
    · simp only [if_neg full]
      by_cases mine : u = t
      · subst mine
        simp [was, here]
      · rw [if_neg mine]
        exact was
  · grind [laps.wrapPut]

theorem Sound.wrapPut (sound : Sound n g phase held w) {t i : Nat} {put : Int}
    (here : phase t = some (.wrapPut put i)) :
    ∃ w', Sound n { g with put := g.put - g.numberPlusOne }
        (Function.update phase t (some (.checkIndex put i))) held w' := by
  obtain ⟨ring, laps⟩ := sound
  have lap : w.putLap = some t := (laps.putLap t).mpr ⟨put, i, here⟩
  have bound := laps.putHigh t lap
  have number := ring.number
  refine ⟨{ w with putLap := none },
    ⟨ring.number, ring.content, ring.item, ring.place, ring.holding, ?_, ring.queue,
    ring.short, ?_, ?_,
    ?_, ?_, ?_, ?_, ?_, ring.getPlace, ?_⟩,
      ⟨laps.getLow, laps.getHigh, ?_, ?_, ?_, ?_, nofun, ?_, ?_⟩⟩
  all_goals simp only [update_eq]
  · grind [ring.freeing]
  · grind [ring.saving]
  · grind [ring.saver]
  · grind [ring.taking]
  · intro u other doing
    split at doing
    · exact nomatch doing
    · exact ring.reading u other doing
  · grind [ring.taker]
  · grind [ring.backing]
  · grind [ring.pending]
  · have place := ring.putPlace
    have shift : g.put - ((n + 1 : Nat) : Int) - (w.head + w.count : Nat) =
        g.put - (w.head + w.count : Nat) - (n + 1 : Nat) := by
      omega
    rw [number, shift]
    exact Int.dvd_sub place (Int.dvd_refl _)
  · grind [laps.getLap]
  · grind [laps.wrapGet]
  · grind [laps.raw]
  · intro _
    rw [number]
    push_cast
    omega
  · intro u
    have was := laps.putLap u
    by_cases mine : u = t
    · simp [mine]
    · have other : w.putLap ≠ some u := fun same => mine (Option.some.inj (same.symm.trans lap))
      rw [if_neg mine, ← was]
      simp [other]
  · grind [laps.wrapPut]

theorem Sound.checkIndex (sound : Sound n g phase held w) {t i : Nat} {put : Int}
    (here : phase t = some (.checkIndex put i)) :
    g.indexes put = none ∧
    Sound n g (Function.update phase t (some (.saveIndex put i))) held w := by
  obtain ⟨ring, laps⟩ := sound
  obtain ⟨c, small, rfl, reserved⟩ := ring.saving t i put (Or.inr (Or.inl here))
  have empty : g.indexes c = none := by
    rw [ring.content c small, reserved]
    rfl
  refine ⟨empty,
    ⟨ring.number, ring.content, ring.item, ring.place, ring.holding, ?_, ring.queue, ring.short, ?_,
    ?_, ?_, ?_, ?_, ?_, ?_,
    ring.getPlace, ring.putPlace⟩,
      ⟨laps.getLow, laps.getHigh, ?_, ?_, ?_, laps.putLow, laps.putHigh, ?_, ?_⟩⟩
  all_goals simp only [update_eq]
  · grind [ring.freeing]
  · grind [ring.saving]
  · grind [ring.saver]
  · grind [ring.taking]
  · intro u other doing
    split at doing
    · exact nomatch doing
    · exact ring.reading u other doing
  · grind [ring.taker]
  · grind [ring.backing]
  · grind [ring.pending]
  · grind [laps.getLap]
  · grind [laps.wrapGet]
  · grind [laps.raw]
  · grind [laps.putLap]
  · grind [laps.wrapPut]

theorem Sound.saveIndex (sound : Sound n g phase held w) {t i : Nat} {put : Int}
    (here : phase t = some (.saveIndex put i)) :
    ∃ w', Sound n { g with indexes := Function.update g.indexes put (some i) }
        (Function.update phase t none) held w' := by
  obtain ⟨ring, laps⟩ := sound
  obtain ⟨c, small, rfl, cell⟩ := ring.saving t i put (Or.inr (Or.inr here))
  obtain ⟨less, place⟩ := ring.item c small i (by rw [cell]; rfl)
  refine ⟨{ w with cells := Function.update w.cells c (.filled i) },
    ⟨ring.number, ?_, ?_, ?_, ring.holding, ?_, ?_, ring.short, ?_, ?_, ?_, ?_, ?_, ?_, ?_,
      ring.getPlace, ring.putPlace⟩,
    ⟨laps.getLow, laps.getHigh, ?_, ?_, ?_, laps.putLow, laps.putHigh, ?_, ?_⟩⟩
  all_goals simp only [Function.update_apply]
  · intro d inside
    have content := ring.content d inside
    grind [Cell.content]
  · intro d inside j item
    split at item
    · cases item
      grind
    · exact ring.item d inside j item
  · intro j low d there
    obtain ⟨inside, item⟩ := ring.place j low d there
    refine ⟨inside, ?_⟩
    split
    · rename_i mine
      rw [mine, cell] at item
      exact item
    · exact item
  · grind [ring.freeing]
  · intro d inside
    have was := ring.queue d inside
    split
    · rename_i mine
      rw [mine, cell] at was
      rw [mine]
      exact was
    · exact was
  · intro u j put saving
    obtain ⟨d, inside, rfl, reserved⟩ := ring.saving u j put (by grind)
    refine ⟨d, inside, rfl, ?_⟩
    have other : d ≠ c := by
      rintro rfl
      grind
    rw [if_neg other]
    exact reserved
  · intro d inside u j reserved
    split at reserved
    · exact nomatch reserved
    · have doing := ring.saver d inside u j reserved
      have other : u ≠ t := by
        rintro rfl
        grind
      rw [if_neg other]
      exact doing
  · intro u j get taking
    obtain ⟨d, inside, rfl, taken⟩ := ring.taking u j get (by grind)
    exact ⟨d, inside, rfl, by grind⟩
  · intro u raw doing
    split at doing
    · exact nomatch doing
    · obtain ⟨low, d, inside, same, first, taken⟩ := ring.reading u raw doing
      refine ⟨low, d, inside, same, first, fun found => ?_⟩
      obtain ⟨j, taken⟩ := taken found
      exact ⟨j, by grind⟩
  · intro d inside u j taken
    split at taken
    · exact nomatch taken
    · obtain ⟨found, doing⟩ := ring.taker d inside u j taken
      exact ⟨found, by grind⟩
  · grind [ring.backing]
  · intro u waiting
    obtain ⟨doing, untaken⟩ := ring.pending u waiting
    exact ⟨by grind, by grind⟩
  · grind [laps.getLap]
  · grind [laps.wrapGet]
  · grind [laps.raw]
  · grind [laps.putLap]
  · grind [laps.wrapPut]

end Steps

end OpenAir.MemoryPools
