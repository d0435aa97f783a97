import ExomonadHarness.Browser.Commands

/-! The status reads of `command-lookups.ts`. Each callback runs to its end and reads the
clock once; what happens between callbacks is the events below. -/

namespace ExomonadHarness.Browser

open Store

structure PendingRead where
  record : BrowserCommandRecord
  attempt : ℕ
  due : ℕ
  forced : Bool
  /-- The entry has a controller: its read is in flight. -/
  reading : Bool

abbrev PendingReads := List (OperationKey × PendingRead)

/-- Where the promise of a read has come to: its answer, then one callback after another. -/
inductive ReadPhase where
  | reading | resolved | rejected | finishing
  deriving DecidableEq

structure StatusRead where
  id : ℕ
  generation : ℕ
  key : OperationKey
  aborted : Bool
  phase : ReadPhase

/-- The variables of `createCommandLookups`, with the promises it has made, the ledger that
`options.current` shows, and the clock. -/
structure Lookups where
  pending : PendingReads := []
  generation : ℕ := 0
  disposed : Bool := false
  active : ℕ := 0
  currentRun : Option String := none
  timer : Option ℕ := none
  reads : List StatusRead := []
  nextRead : ℕ := 0
  current : List BrowserCommandRecord := []
  now : ℕ := 0

def delays : List ℕ := [1000, 2000, 5000, 10000, 30000]

def delay (attempt : ℕ) : ℕ := delays.getD (min attempt (delays.length - 1)) 0

def maxActive : ℕ := 2

/-- Start what is due, in order, as long as there is room. -/
def startReads (now generation : ℕ) :
    PendingReads → ℕ → ℕ → PendingReads × List StatusRead
  | [], _, _ => ([], [])
  | (key, entry) :: rest, active, id =>
    if active < maxActive && !entry.reading && entry.due ≤ now then
      let started := startReads now generation rest (active + 1) (id + 1)
      ((key, { entry with reading := true }) :: started.1,
        ⟨id, generation, key, false, .reading⟩ :: started.2)
    else
      let started := startReads now generation rest active id
      ((key, entry) :: started.1, started.2)

namespace Lookups

def pump (state : Lookups) : Lookups :=
  if state.disposed then state
  else
    let started := startReads state.now state.generation state.pending state.active state.nextRead
    let active := state.active + started.2.length
    let queued := started.1.filter (!·.2.reading)
    { state with
      pending := started.1
      reads := state.reads ++ started.2
      active
      nextRead := state.nextRead + started.2.length
      timer := if active < maxActive then (queued.map (·.2.due)).min?.map (max state.now) else none }

def pause (state : Lookups) : Lookups :=
  { state with
    generation := state.generation + 1
    timer := none
    reads := state.reads.map fun read =>
      { read with aborted := read.aborted || (read.generation = state.generation &&
          state.pending.any fun entry => entry.1 = read.key && entry.2.reading) }
    pending := []
    active := 0
    currentRun := none }

def dispose (state : Lookups) : Lookups :=
  pause { state with disposed := true }

/-- One record of a reconciliation. -/
def enlist (now : ℕ) (force : Bool) (pending : PendingReads) (record : BrowserCommandRecord) :
    PendingReads :=
  let key := operationKey record
  if pending.any (·.1 = key) then
    pending.map fun entry => (entry.1,
      if entry.1 = key then { entry.2 with
        record
        forced := entry.2.forced || force
        due := if force && !entry.2.reading then now else entry.2.due }
      else entry.2)
  else pending ++ [(key, ⟨record, 0, now, force, false⟩)]

def eligible (run : String) (force : Bool) (record : BrowserCommandRecord) : Bool :=
  record.hostRun = run && (force || needsCommandLookup record)

/-- A queued read stays when its record is retained and still wants it. -/
def stays (current : List BrowserCommandRecord) (force : Bool) (entry : OperationKey × PendingRead) :
    Bool :=
  entry.2.reading || (current.find? (operationKey · = entry.1)).any fun record =>
    force || entry.2.forced || needsCommandLookup record

/-- A run that is not the current one starts a new generation. -/
def address (state : Lookups) (run : String) : Lookups :=
  if state.currentRun = some run then state else { state.pause with currentRun := some run }

def reconcile (state : Lookups) (records : List BrowserCommandRecord) (run : String)
    (force : Bool) : Lookups :=
  if state.disposed then state
  else
    let addressed := state.address run
    let listed := (records.filter (eligible run force)).foldl (enlist addressed.now force)
      addressed.pending
    pump { addressed with pending := listed.filter (stays addressed.current force) }

structure Delivery where
  read : StatusRead
  record : BrowserCommandRecord
  failed : Bool

/-- What a callback hands out: nothing once its generation is over. -/
def deliver (state : Lookups) (read : StatusRead) (failed : Bool) : Option Delivery :=
  if state.disposed || state.generation ≠ read.generation || read.aborted then none
  else (state.pending.lookup read.key).map fun entry => ⟨read, entry.record, failed⟩

/-- The entry waits for its next attempt. -/
def requeue (now : ℕ) (record : BrowserCommandRecord) (entry : PendingRead) : PendingRead :=
  ⟨record, entry.attempt + 1, now + delay entry.attempt, false, false⟩

/-- The last callback of a read. -/
def finish (state : Lookups) (read : StatusRead) : Lookups :=
  if state.disposed || state.generation ≠ read.generation then state
  else
    let pending := match state.current.find? (operationKey · = read.key) with
      | some record =>
        if needsCommandLookup record then state.pending.map fun entry => (entry.1,
          if entry.1 = read.key then requeue state.now record entry.2 else entry.2)
        else state.pending.filter (·.1 ≠ read.key)
      | none => state.pending.filter (·.1 ≠ read.key)
    pump { state with active := state.active - 1, pending }

def setPhase (state : Lookups) (id : ℕ) (phase : ReadPhase) : Lookups :=
  { state with reads := state.reads.map fun read =>
      if read.id = id then { read with phase } else read }

def drop (state : Lookups) (id : ℕ) : Lookups :=
  { state with reads := state.reads.filter (·.id ≠ id) }

/-- The next callback of a promise; the handler of a result may throw. -/
def advance (state : Lookups) (throws : Bool) (read : StatusRead) : Lookups × Option Delivery :=
  match read.phase with
  | .reading => (state, none)
  | .resolved => (state.setPhase read.id (if throws && (state.deliver read false).isSome then
      .rejected else .finishing), state.deliver read false)
  | .rejected => (state.setPhase read.id .finishing, state.deliver read true)
  | .finishing => ((state.drop read.id).finish read, none)

end Lookups

/-- A call, a timer, an answer, a callback, a change of the ledger, or time. -/
inductive LookupEvent where
  | reconcile (records : List BrowserCommandRecord) (run : String) (force : Bool)
  | pause
  | dispose
  | fire
  | answer (id : ℕ) (succeeds : Bool)
  | callback (id : ℕ) (throws : Bool)
  | ledger (records : List BrowserCommandRecord)
  | elapse (time : ℕ)

namespace Lookups

def handle (state : Lookups) : LookupEvent → Lookups × Option Delivery
  | .reconcile records run force => (state.reconcile records run force, none)
  | .pause => (state.pause, none)
  | .dispose => (state.dispose, none)
  | .fire => (if state.timer.isSome then state.pump else state, none)
  | .answer id succeeds =>
    match state.reads.find? (·.id = id) with
    | some read =>
      if read.phase = .reading then
        (state.setPhase id (if succeeds then .resolved else .rejected), none)
      else (state, none)
    | none => (state, none)
  | .callback id throws =>
    match state.reads.find? (·.id = id) with
    | some read => state.advance throws read
    | none => (state, none)
  | .ledger records => ({ state with current := records }, none)
  | .elapse time => ({ state with now := state.now + time }, none)

/-- The record is retained and still needs a lookup. -/
def wants (state : Lookups) (key : OperationKey) : Bool :=
  (state.current.find? (operationKey · = key)).any needsCommandLookup

/-- The operations of the current run that were reconciled and have needed a lookup since. -/
def owe (state : Lookups) (owed : List OperationKey) : LookupEvent → List OperationKey
  | .reconcile records run force =>
    if state.disposed then []
    else ((if state.currentRun = some run then owed else []) ++
      (records.filter (eligible run force)).map operationKey).filter state.wants
  | .pause | .dispose => []
  | .ledger records => owed.filter { state with current := records }.wants
  | .fire | .answer .. | .callback .. | .elapse _ => owed

end Lookups

end ExomonadHarness.Browser
