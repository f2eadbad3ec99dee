import Mathlib.Logic.Function.Basic

/-! Memory pools shared by threads. Every access to a position or to an index cell is a step. -/
namespace OpenAir.MemoryPools

/-- The free ring of a pool; `none` is `ITEMS_GROUP_INDEX_INVALID`. -/
structure ItemsGroup where
  numberPlusOne : Nat
  put : Int
  get : Int
  indexes : Int → Option Nat

/-- What a call does next in the ring of a pool: the steps of `items_group_get_free_item`, then
those of `items_group_put_free_item`. -/
inductive Phase where
  | readPut
  | advanceGet (put : Int)
  | giveBack
  | readIndex (getRaw : Int)
  | wrapGet (get : Int) (index : Nat)
  | clearIndex (get : Int) (index : Nat)
  | advancePut (index : Nat)
  | wrapPut (put : Int) (index : Nat)
  | checkIndex (put : Int) (index : Nat)
  | saveIndex (put : Int) (index : Nat)
deriving DecidableEq

inductive Outcome where
  | next (phase : Phase)
  /-- `items_group_get_free_item` returns. -/
  | failed
  | got (index : Nat)
  /-- `items_group_put_free_item` returns. -/
  | saved
  | refused

namespace ItemsGroup

def place (g : ItemsGroup) (raw : Int) : Int := raw.tmod g.numberPlusOne

/-- One access to the ring. The minimum of the free items, a statistic, is left out. -/
def step (g : ItemsGroup) : Phase → ItemsGroup × Outcome
  | .readPut => (g, .next (.advanceGet (g.place g.put)))
  | .advanceGet put =>
    -- `__sync_fetch_and_add`, then the comparison of the positions
    ({ g with get := g.get + 1 },
      .next (if put = g.place g.get then .giveBack else .readIndex g.get))
  | .giveBack => ({ g with get := g.get - 1 }, .failed)
  | .readIndex getRaw =>
    match g.indexes (g.place getRaw) with
    | none => (g, .next .giveBack)
    | some index =>
      (g, .next (if getRaw = g.numberPlusOne then .wrapGet (g.place getRaw) index
        else .clearIndex (g.place getRaw) index))
  | .wrapGet get index => ({ g with get := g.get - g.numberPlusOne }, .next (.clearIndex get index))
  | .clearIndex get index => ({ g with indexes := Function.update g.indexes get none }, .got index)
  | .advancePut index =>
    ({ g with put := g.put + 1 },
      .next (if g.put = g.numberPlusOne then .wrapPut (g.place g.put) index
        else .checkIndex (g.place g.put) index))
  | .wrapPut put index => ({ g with put := g.put - g.numberPlusOne }, .next (.checkIndex put index))
  | .checkIndex put index =>
    -- the assertion that the cell is marked as free
    match g.indexes put with
    | none => (g, .next (.saveIndex put index))
    | some _ => (g, .refused)
  | .saveIndex put index =>
    ({ g with indexes := Function.update g.indexes put (some index) }, .saved)

def freeItems (g : ItemsGroup) : Nat :=
  ((g.numberPlusOne + g.put - g.get).tmod g.numberPlusOne).toNat

/-- The cells from the get position to the put position. -/
def ring (g : ItemsGroup) : List (Option Nat) :=
  (List.range g.freeItems).map fun j : Nat => g.indexes (g.place (g.get + j))

end ItemsGroup

structure Pool where
  itemDataNumber : Nat
  group : ItemsGroup
  /-- `item_status` is `ITEM_STATUS_ALLOCATED`. -/
  allocated : Nat → Bool

/-- The pool that `memory_pools_add_pool` makes. -/
def addPool (itemsNumber itemSize : Nat) : Pool where
  itemDataNumber := (itemSize + 3) / 4
  group :=
    { numberPlusOne := itemsNumber + 1
      put := itemsNumber
      get := 0
      indexes := fun i => if 0 ≤ i ∧ i < itemsNumber then some i.toNat else none }
  allocated _ := false

inductive Call where
  | idle
  | allocating (itemSize pool : Nat) (phase : Phase)
  | freeing (pool : Nat) (phase : Phase)

/-- An item in the hands of a caller, with the size that was asked for. -/
structure Holding where
  pool : Nat
  index : Nat
  itemSize : Nat
deriving DecidableEq

structure Pools where
  poolsDefined : Nat
  pools : Nat → Pool
  calls : Nat → Call
  held : List Holding
  /-- A fatal assertion has failed. -/
  aborted : Bool

inductive Action where
  | allocate (thread itemSize : Nat)
  /-- Any thread may free an item that some caller holds. -/
  | free (thread : Nat) (item : Holding)
  | run (thread : Nat)

namespace Pools

/-- The next pool whose items are not too small. -/
def select (s : Pools) (itemSize first : Nat) : Option Nat :=
  (List.range' first (s.poolsDefined - first)).find?
    fun pool => ¬ (s.pools pool).itemDataNumber * 4 < itemSize

def setCall (s : Pools) (thread : Nat) (call : Call) : Pools :=
  { s with calls := Function.update s.calls thread call }

def setPool (s : Pools) (pool : Nat) (p : Pool) : Pools :=
  { s with pools := Function.update s.pools pool p }

def setGroup (s : Pools) (pool : Nat) (g : ItemsGroup) : Pools :=
  s.setPool pool { s.pools pool with group := g }

def setStatus (s : Pools) (pool index : Nat) (allocated : Bool) : Pools :=
  s.setPool pool
    { s.pools pool with allocated := Function.update (s.pools pool).allocated index allocated }

/-- The loop of `memory_pools_allocate` goes on to the next pool, or returns without an item. -/
def tryFrom (s : Pools) (thread itemSize first : Nat) : Pools :=
  match s.select itemSize first with
  | some pool => s.setCall thread (.allocating itemSize pool .readPut)
  | none => s.setCall thread .idle

/-- The end of `memory_pools_allocate`. -/
def handOut (s : Pools) (thread : Nat) (item : Holding) : Pools :=
  { (s.setStatus item.pool item.index true).setCall thread .idle with held := item :: s.held }

/-- `memory_pools_free` up to the ring. -/
def takeBack (s : Pools) (thread : Nat) (item : Holding) : Pools :=
  { (s.setStatus item.pool item.index false).setCall thread (.freeing item.pool
    (.advancePut item.index)) with held := s.held.erase item }

/-- A call of a thread goes on by one access. -/
def runCall (s : Pools) (thread : Nat) : Call → Option Pools
  | .idle => none
  | .allocating itemSize pool phase =>
    let (g, outcome) := (s.pools pool).group.step phase
    let s := s.setGroup pool g
    match outcome with
    | .next phase => some (s.setCall thread (.allocating itemSize pool phase))
    | .failed => some (s.tryFrom thread itemSize (pool + 1))
    | .got index =>
      if (s.pools pool).allocated index then some { s with aborted := true }
      else some (s.handOut thread ⟨pool, index, itemSize⟩)
    | .saved | .refused => none
  | .freeing pool phase =>
    let (g, outcome) := (s.pools pool).group.step phase
    let s := s.setGroup pool g
    match outcome with
    | .next phase => some (s.setCall thread (.freeing pool phase))
    | .saved | .refused => some (s.setCall thread .idle)
    | .failed | .got _ => none

/-- One step of the system; `none` for an action that cannot be taken. -/
def step (s : Pools) (action : Action) : Option Pools :=
  if s.aborted then none
  else
    match action with
    | .allocate thread itemSize =>
      match s.calls thread with
      | .idle => some (s.tryFrom thread itemSize 0)
      | _ => none
    | .free thread item =>
      match s.calls thread with
      | .idle =>
        if item ∈ s.held then
          if (s.pools item.pool).allocated item.index then some (s.takeBack thread item)
            else some { s with aborted := true }
        else none
      | _ => none
    | .run thread => s.runCall thread (s.calls thread)

end Pools

def create (poolsDefined : Nat) (itemsNumber itemSize : Nat → Nat) : Pools where
  poolsDefined := poolsDefined
  pools k := addPool (itemsNumber k) (itemSize k)
  calls _ := .idle
  held := []
  aborted := false

end OpenAir.MemoryPools
