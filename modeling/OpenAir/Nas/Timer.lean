import OpenAir.Lib.DoublyLinked
import OpenAir.Lib.Run
import Mathlib.Logic.Function.Basic
import Mathlib.Data.Fintype.Card
import Mathlib.Data.Finset.Basic

/-! The timer queue of the NAS, over the timers of the inter-task interface. -/
namespace OpenAir.NasTimer
open DoublyLinked

def timerDatabaseSize : Nat := 256

/-- The identifier of a timer entry; `NAS_TIMER_INACTIVE_ID` is `none`. -/
abbrev Id := Fin timerDatabaseSize

/-- `struct timeval` -/
structure Timeval where
  sec : Int
  usec : Int

/-- What `clock_gettime` gives, in microseconds. -/
structure Clock where
  sec : Int
  usec : Fin 1000000

def Clock.timeval (now : Clock) : Timeval := ⟨now.sec, now.usec⟩

/-- `nas_timer_entry_t` -/
structure Entry (κ ρ τ : Type) where
  timerId : τ
  itv : Timeval
  tv : Timeval
  cb : κ
  args : ρ

/-- `nas_timer_database_t`, with one function for each field of the entries of `tq`. -/
structure Database (κ ρ τ : Type) where
  timerId : Nat
  id : Id → Option Id
  entry : Id → Option (Entry κ ρ τ)
  prev : Id → Option Id
  next : Id → Option Id
  head : Option Id

def timerCmp (a b : Timeval) : Int :=
  if a.sec < b.sec then -1
  else if a.sec > b.sec then 1
  else if a.usec < b.usec then -1
  else if a.usec > b.usec then 1
  else 0

def timerAdd (a b : Timeval) : Timeval :=
  let result : Timeval := ⟨a.sec + b.sec, a.usec + b.usec⟩
  if result.usec > 1000000 then ⟨result.sec + 1, result.usec - 1000000⟩ else result

variable {κ ρ τ : Type}

/-- `_nas_timer_db_init`, over zeroed memory. -/
def dbInit : Database κ ρ τ where
  timerId := 0
  id _ := none
  entry _ := none
  prev _ := none
  next _ := none
  head := none

/-- `_nas_timer_db_get_id`: from the current entry to the last one, then from the first one. -/
def dbGetId (db : Database κ ρ τ) : Option (Id × Database κ ρ τ) :=
  let free (i : Id) := (db.id i).isNone
  let found :=
    ((List.finRange timerDatabaseSize).find? fun i => decide (db.timerId ≤ i.val) && free i).or
      ((List.finRange timerDatabaseSize).find? fun i => decide (i.val < db.timerId) && free i)
  found.map fun i => (i, { db with timerId := i.val + 1 })

def dbIsActive (db : Database κ ρ τ) (i : Id) : Bool := (db.id i).isSome

/-- `_nas_timer_db_create_entry`; the timer identifier is what the memory held. -/
def dbCreateEntry (sec : Int) (cb : κ) (args : ρ) (malloced : τ) : Entry κ ρ τ :=
  ⟨malloced, ⟨sec, 0⟩, ⟨sec, 0⟩, cb, args⟩

def dbDeleteEntry (db : Database κ ρ τ) (i : Id) : Option (Database κ ρ τ) :=
  if db.id i = some i then
    some { db with id := Function.update db.id i none, entry := Function.update db.entry i none }
  else none

/-- The loop of `_nas_timer_db_insert`; no result where it does not end, or an entry is missing. -/
def dbSearch (db : Database κ ρ τ) (tv : Timeval) : Nat → Option Id → Option Id →
    Option (Option Id × Option Id)
  | 0, _, _ => none
  | _ + 1, prev, none => some (prev, none)
  | fuel + 1, prev, some next => do
    let te ← db.entry next
    if timerCmp te.tv tv > 0 then some (prev, some next)
    else dbSearch db tv fuel (some next) (db.next next)

def dbInsert (db : Database κ ρ τ) (i : Id) : Option (Database κ ρ τ × Bool) := do
  let te ← db.entry i
  let (prev, next) ← dbSearch db te.tv (timerDatabaseSize + 1) none db.head
  let db := { db with
    prev := Function.update db.prev i prev
    next := Function.update db.next i next }
  let db :=
    match db.next i with
    | none => db
    | some behind => { db with prev := Function.update db.prev behind (some i) }
  match db.prev i with
  | some before => some ({ db with next := Function.update db.next before (some i) }, false)
  | none => some ({ db with head := some i }, true)

/-- `_nas_timer_db_insert_entry`; no system timer is restarted in this build. -/
def dbInsertEntry (db : Database κ ρ τ) (i : Id) (te : Entry κ ρ τ) (now : Clock) :
    Option (Database κ ρ τ) :=
  let te := { te with tv := timerAdd te.tv now.timeval }
  let db := { db with
    id := Function.update db.id i (some i)
    entry := Function.update db.entry i (some te) }
  (dbInsert db i).map Prod.fst

def dbRemove (db : Database κ ρ τ) (i : Id) : Database κ ρ τ × Bool :=
  let db :=
    match db.next i with
    | none => db
    | some behind => { db with prev := Function.update db.prev behind (db.prev i) }
  match db.prev i with
  | some before => ({ db with next := Function.update db.next before (db.next i) }, false)
  | none => ({ db with head := db.next i }, (db.next i).isSome)

variable [DecidableEq τ]

/-- `_nas_timer_db_remove_entry`: the timer that is removed is that of the new head. -/
def dbRemoveEntry (db : Database κ ρ τ) (armed : Finset τ)
    (i : Id) : Option (Database κ ρ τ × Finset τ × Entry κ ρ τ) := do
  if db.id i ≠ some i then none
  let (db, restart) := dbRemove db i
  let armed ←
    if restart then do
      let head ← db.head
      let te ← db.entry head
      some (armed.erase te.timerId)
    else some armed
  let te ← db.entry i
  some (db, armed, te)

/-- `nas_timer_start`; `timer_setup` arms a timer and gives its identifier, or fails. -/
def nasTimerStart (db : Database κ ρ τ) (armed : Finset τ) (sec : Int) (cb : κ) (args : ρ)
    (now : Clock) (malloced : τ)
    (setup : Option τ) : Option (Database κ ρ τ × Finset τ × Option Id) :=
  if sec = 0 then some (db, armed, none)
  else
    match dbGetId db with
    | none => some (db, armed, none)
    | some (i, db) => do
      let db ← dbInsertEntry db i (dbCreateEntry sec cb args malloced) now
      match setup with
      | none => some (db, armed, none)
      | some timerId => do
        let te ← db.entry i
        some ({ db with entry := Function.update db.entry i (some { te with timerId := timerId }) },
          insert timerId armed, some i)

def nasTimerStop (db : Database κ ρ τ) (armed : Finset τ) (id : Option Id) :
    Option (Database κ ρ τ × Finset τ × Option Id) :=
  match id with
  | none => some (db, armed, none)
  | some i =>
    if dbIsActive db i then do
      let (db, armed, te) ← dbRemoveEntry db armed i
      let db ← dbDeleteEntry db i
      some (db, armed.erase te.timerId, none)
    else some (db, armed, some i)

/-- `nas_timer_restart`; the timer that was set up goes on as it is. -/
def nasTimerRestart (db : Database κ ρ τ) (armed : Finset τ) (id : Option Id) (now : Clock) :
    Option (Database κ ρ τ × Finset τ × Option Id) :=
  match id with
  | none => some (db, armed, none)
  | some i =>
    if dbIsActive db i then do
      let (db, armed, te) ← dbRemoveEntry db armed i
      let db ← dbInsertEntry db i { te with tv := te.itv } now
      some (db, armed, some i)
    else some (db, armed, none)

/-- `nas_timer_handle_signal_expiry`: the entry whose callback is run. -/
def nasTimerHandleSignalExpiry (db : Database κ ρ τ) (_timerId : τ) : Option (Entry κ ρ τ) :=
  db.head.bind db.entry

inductive Call (κ ρ τ : Type) where
  | start (sec : Int) (cb : κ) (args : ρ) (now : Clock) (malloced : τ) (setup : Option τ)
  | stop (id : Option Id)
  | restart (id : Option Id) (now : Clock)
  | expiry (timerId : τ)

/-! ### What the queue is for -/

/-- A timer that was started and not stopped: its interval in seconds, and when it expires in
microseconds. -/
structure Started where
  sec : Int
  due : Int

def Started.after (sec : Int) (now : Clock) : Started := ⟨sec, (now.sec + sec) * 1000000 + now.usec⟩

/-- The database and the timers that are armed, beside the timers that the callers have started, and
what the last expiry has run. -/
structure State (κ ρ τ : Type) where
  db : Database κ ρ τ
  armed : Finset τ
  started : Id → Option Started
  ran : Option (τ × Entry κ ρ τ)

/-- A timer that is started again expires after the same interval. -/
def step (s : State κ ρ τ) : Call κ ρ τ → Option (State κ ρ τ)
  | .start sec cb args now malloced setup => do
    let (db, armed, id) ← nasTimerStart s.db s.armed sec cb args now malloced setup
    let started :=
      match id with
      | none => s.started
      | some i => Function.update s.started i (some (.after sec now))
    some { db, armed, started, ran := none }
  | .stop id => do
    let (db, armed, _) ← nasTimerStop s.db s.armed id
    let started :=
      match id with
      | none => s.started
      | some i => Function.update s.started i none
    some { db, armed, started, ran := none }
  | .restart id now => do
    let (db, armed, _) ← nasTimerRestart s.db s.armed id now
    let started :=
      match id with
      | none => s.started
      | some i => Function.update s.started i ((s.started i).map fun timer => .after timer.sec now)
    some { db, armed, started, ran := none }
  | .expiry timerId => do
    let te ← nasTimerHandleSignalExpiry s.db timerId
    some { s with ran := some (timerId, te) }

/-- A timer is set up under an identifier that no armed one has, and an armed timer of the queue
expires. -/
def Call.Valid (s : State κ ρ τ) : Call κ ρ τ → Prop
  | start _ _ _ _ _ setup => ∀ timerId ∈ setup, timerId ∉ s.armed
  | expiry timerId => timerId ∈ s.armed ∧ ∃ i te, s.db.entry i = some te ∧ te.timerId = timerId
  | _ => True

/-- The list from the head is that of the active entries, in the order in which their timers expire,
and they are the timers that are started; each has a timer of its own that is armed, and what an
expiry has run is the entry of the timer. -/
structure Faithful (s : State κ ρ τ) : Prop where
  queue : ∃ l, Linked s.db.next s.db.prev l ∧ s.db.head = l.head? ∧
    (∀ i, i ∈ l ↔ s.db.id i = some i) ∧
    l.Pairwise fun i j => ∀ a ∈ s.started i, ∀ b ∈ s.started j, a.due ≤ b.due
  active : ∀ i, s.db.id i = some i ↔ (s.started i).isSome
  armed : ∀ i te, s.db.entry i = some te → te.timerId ∈ s.armed
  distinct : ∀ i j te te', s.db.entry i = some te → s.db.entry j = some te' →
    te.timerId = te'.timerId → i = j
  ran : ∀ timerId te, s.ran = some (timerId, te) → te.timerId = timerId ∧
    ∃ i, s.db.entry i = some te

/-- A timer that is started is set up or not started at all, one that is stopped or started again is
not the first of several, and the first one expires. -/
def Call.InOrder (s : State κ ρ τ) : Call κ ρ τ → Prop
  | start sec _ _ _ _ setup => sec = 0 ∨ (∀ i, s.db.id i ≠ none) ∨ setup ≠ none
  | stop (some i) | restart (some i) _ => s.db.id i ≠ none → s.db.head = some i → s.db.next i = none
  | expiry timerId => ∀ te ∈ s.db.head.bind s.db.entry, te.timerId = timerId
  | _ => True

end OpenAir.NasTimer
