import ExomonadHarness.Support.Run

/-! The holders of one store share a connection behind a mutex and a one-way recovery fence.
The answers of SQLite are arbitrary: any action, commit or rollback may fail. -/

namespace ExomonadHarness.Store.Fence

open Transition

variable {Db Holder Result Failure : Type}

/-- A connection is in autocommit mode or holds the content of an open transaction. -/
inductive Connection (Db : Type) where
  | autocommit
  | transaction (working : Db)

/-- The durable content, the shared connection and who holds the mutex. A fenced store has
no connection. -/
structure Shared (Db Holder : Type) where
  database : Db
  connection : Option (Connection Db)
  recoveryRequired : Bool
  holder : Option Holder

/-- How an action over an open transaction ends. -/
inductive Acted (Db Result Failure : Type) where
  | returned (result : Except Failure Result) (working : Db)
  /-- SQLite rolled the transaction back under a failed statement. -/
  | rolledBack (result : Except Failure Result)
  | panicked (working : Option Db)

inductive CommitAnswer where
  | committed
  /-- A failed `COMMIT` does not tell whether it was applied. -/
  | unknown (applied : Bool)

inductive RollbackAnswer where
  | rolledBack
  /-- A failed `ROLLBACK` may leave the transaction open. -/
  | unknown (unresolved : Bool)

/-- The answers of SQLite during one transaction. -/
structure Answers (Db Result Failure : Type) where
  begun : Bool
  action : Db → Acted Db Result Failure
  commit : CommitAnswer
  rollback : RollbackAnswer

inductive Report (Result Failure : Type) where
  | ok (result : Result)
  | refused (failure : Failure)
  | notBegun
  | recoveryRequired
  | panicked

namespace Shared

variable (shared : Shared Db Holder)

/-- Closing the connection discards whatever transaction it still holds. -/
def fence : Shared Db Holder :=
  { shared with recoveryRequired := true, connection := none }

def on (connection : Connection Db) : Shared Db Holder :=
  { shared with connection := some connection }

/-- Drop of a `StoreConnection`. -/
def release : Shared Db Holder :=
  match shared.connection with
  | some (.transaction _) => { shared.fence with holder := none }
  | _ => { shared with holder := none }

/-- `None` is `AdmissionFenced`. -/
def lock (holder : Holder) : Option (Shared Db Holder) :=
  match shared.connection with
  | none => none
  | some _ => some { shared with holder := some holder }

/-- `ROLLBACK`, with its failure reported to the caller. -/
def rolledBack (answer : RollbackAnswer) (report : Report Result Failure) :
    Report Result Failure × Shared Db Holder :=
  match answer with
  | .rolledBack => (report, shared.on .autocommit)
  | .unknown _ => (.recoveryRequired, shared.fence)

/-- A panic drops the transaction, which tries a rollback, and then the guard. -/
def unwound (answer : RollbackAnswer) (working : Option Db) : Shared Db Holder :=
  match working, answer with
  | some working, .unknown true => (shared.on (.transaction working)).release
  | _, _ => (shared.on .autocommit).release

/-- The guard of a fenced store has no connection to run the transaction on. -/
def writeTransaction (answers : Answers Db Result Failure) :
    Report Result Failure × Shared Db Holder :=
  if shared.connection.isNone then (.panicked, shared.release)
  else if !answers.begun then (.notBegun, shared)
  else
    match answers.action shared.database with
    | .returned (.ok result) working =>
      match answers.commit with
      | .committed => (.ok result, { shared.on .autocommit with database := working })
      | .unknown applied =>
        (.recoveryRequired,
          { shared.fence with database := if applied then working else shared.database })
    -- Without a transaction `COMMIT` fails.
    | .rolledBack (.ok _) => (.recoveryRequired, shared.fence)
    | .returned (.error failure) _ => shared.rolledBack answers.rollback (.refused failure)
    | .rolledBack (.error failure) => (.refused failure, shared.on .autocommit)
    | .panicked working => (.panicked, shared.unwound answers.rollback working)

def readTransaction (answers : Answers Db Result Failure) :
    Report Result Failure × Shared Db Holder :=
  if shared.connection.isNone then (.panicked, shared.release)
  else if !answers.begun then (.notBegun, shared)
  else
    match answers.action shared.database with
    | .returned (.ok result) _ => shared.rolledBack answers.rollback (.ok result)
    | .returned (.error failure) _ => shared.rolledBack answers.rollback (.refused failure)
    | .rolledBack (.ok result) => (.ok result, shared.on .autocommit)
    | .rolledBack (.error failure) => (.refused failure, shared.on .autocommit)
    | .panicked working => (.panicked, shared.unwound answers.rollback working)

/-- Opening the store again recovers its durable content. -/
def opened (database : Db) : Shared Db Holder where
  database := database
  connection := some .autocommit
  recoveryRequired := false
  holder := none

end Shared

namespace Answers

variable (answers : Answers Db Result Failure) (database : Db)

def commitUnknown : Bool :=
  match answers.commit with
  | .committed => false
  | .unknown _ => true

def rollbackUnknown : Bool :=
  match answers.rollback with
  | .rolledBack => false
  | .unknown _ => true

/-- A panic leaves an open transaction behind when its rollback does not end it. -/
def unwindUnknown (working : Option Db) : Bool :=
  match working, answers.rollback with
  | some _, .unknown true => true
  | _, _ => false

/-- The write runs a `COMMIT` or rollback whose outcome is not known. -/
def writeUnknown : Bool :=
  answers.begun &&
    match answers.action database with
    | .returned (.ok _) _ => answers.commitUnknown
    | .rolledBack (.ok _) => true
    | .returned (.error _) _ => answers.rollbackUnknown
    | .rolledBack (.error _) => false
    | .panicked working => answers.unwindUnknown working

def readUnknown : Bool :=
  answers.begun &&
    match answers.action database with
    | .returned _ _ => answers.rollbackUnknown
    | .rolledBack _ => false
    | .panicked working => answers.unwindUnknown working

end Answers

inductive Event (Holder : Type) where
  | lock (holder : Holder) (admitted : Bool)
  | transaction (holder : Holder) (unknown : Bool)
  | drop (holder : Holder)
  | reopen
  deriving DecidableEq

/-- Holders take turns on the mutex; each may run transactions until it drops its guard. -/
inductive Step (Result Failure : Type) :
    Shared Db Holder → Event Holder → Shared Db Holder → Prop where
  | lock {shared next : Shared Db Holder} {holder : Holder} (free : shared.holder = none)
      (admitted : shared.lock holder = some next) :
      Step Result Failure shared (.lock holder true) next
  | refuse {shared : Shared Db Holder} {holder : Holder} (free : shared.holder = none)
      (fenced : shared.lock holder = none) :
      Step Result Failure shared (.lock holder false) shared
  | write {shared : Shared Db Holder} {holder : Holder} (held : shared.holder = some holder)
      (handed : shared.connection.isSome = true) (answers : Answers Db Result Failure) :
      Step Result Failure shared (.transaction holder (answers.writeUnknown shared.database))
        (shared.writeTransaction answers).2
  | read {shared : Shared Db Holder} {holder : Holder} (held : shared.holder = some holder)
      (handed : shared.connection.isSome = true) (answers : Answers Db Result Failure) :
      Step Result Failure shared (.transaction holder (answers.readUnknown shared.database))
        (shared.readTransaction answers).2
  /-- A transaction on the guard of a fenced store panics. -/
  | stranded {shared : Shared Db Holder} {holder : Holder} (held : shared.holder = some holder)
      (fenced : shared.connection = none) :
      Step Result Failure shared (.transaction holder false) shared.release
  | drop {shared : Shared Db Holder} {holder : Holder} (held : shared.holder = some holder) :
      Step Result Failure shared (.drop holder) shared.release
  | reopen {shared : Shared Db Holder} (free : shared.holder = none) :
      Step Result Failure shared .reopen (.opened shared.database)

/-- Between transactions the connection is in autocommit mode or gone for good. -/
def Shared.Resolved (shared : Shared Db Holder) : Prop :=
  shared.connection = none ∧ shared.recoveryRequired = true ∨ shared.connection = some .autocommit

section

variable {shared next : Shared Db Holder} {answers : Answers Db Result Failure}

theorem Shared.resolved_fence (shared : Shared Db Holder) : shared.fence.Resolved :=
  .inl ⟨rfl, rfl⟩

theorem Shared.resolved_on (shared : Shared Db Holder) : (shared.on .autocommit).Resolved :=
  .inr rfl

variable {report : Report Result Failure} {working : Option Db}

theorem Shared.resolved_rolledBack {answer : RollbackAnswer} :
    (shared.rolledBack answer report).2.Resolved := by
  cases answer with
  | rolledBack => exact shared.resolved_on
  | unknown => exact shared.resolved_fence

theorem Shared.Resolved.release (resolved : shared.Resolved) : shared.release.Resolved := by
  unfold Shared.release
  split
  case h_1 => exact .inl ⟨rfl, rfl⟩
  case h_2 => exact resolved

theorem Shared.resolved_unwound {answer : RollbackAnswer} :
    (shared.unwound answer working).Resolved := by
  unfold Shared.unwound
  split
  case h_1 => exact .inl ⟨rfl, rfl⟩
  case h_2 => exact shared.resolved_on.release

theorem Shared.Resolved.write (resolved : shared.Resolved) :
    (shared.writeTransaction answers).2.Resolved := by
  unfold Shared.writeTransaction
  split
  case isTrue => exact resolved.release
  case isFalse =>
    split
    case isTrue => exact resolved
    case isFalse =>
      split
      case h_1 =>
        split
        case h_1 => exact .inr rfl
        case h_2 => exact .inl ⟨rfl, rfl⟩
      case h_2 => exact shared.resolved_fence
      case h_3 => exact Shared.resolved_rolledBack
      case h_4 => exact shared.resolved_on
      case h_5 => exact Shared.resolved_unwound

theorem Shared.Resolved.read (resolved : shared.Resolved) :
    (shared.readTransaction answers).2.Resolved := by
  unfold Shared.readTransaction
  split
  case isTrue => exact resolved.release
  case isFalse =>
    split
    case isTrue => exact resolved
    case isFalse =>
      split
      case h_1 => exact Shared.resolved_rolledBack
      case h_2 => exact Shared.resolved_rolledBack
      case h_3 => exact shared.resolved_on
      case h_4 => exact shared.resolved_on
      case h_5 => exact Shared.resolved_unwound

theorem Shared.lock_eq_some {holder : Holder} : shared.lock holder = some next ↔
    shared.connection.isSome = true ∧ next = { shared with holder := some holder } := by
  unfold Shared.lock
  cases shared.connection with
  | none => simp
  | some connection => simp [eq_comm]

theorem Shared.Resolved.step {event : Event Holder} (resolved : shared.Resolved)
    (taken : Step Result Failure shared event next) : next.Resolved := by
  cases taken with
  | lock free admitted =>
    obtain ⟨_, rfl⟩ := Shared.lock_eq_some.mp admitted
    exact resolved
  | refuse => exact resolved
  | write => exact resolved.write
  | read => exact resolved.read
  | stranded => exact resolved.release
  | drop => exact resolved.release
  | reopen => exact .inr rfl

theorem Shared.rolledBack_unknown (unknown : answers.rollbackUnknown = true) :
    (shared.rolledBack answers.rollback report).2.connection = none := by
  cases answer : answers.rollback with
  | rolledBack =>
    rw [Answers.rollbackUnknown, answer] at unknown
    cases unknown
  | unknown unresolved => rfl

theorem Shared.unwound_unknown (unknown : answers.unwindUnknown working = true) :
    (shared.unwound answers.rollback working).connection = none := by
  unfold Answers.unwindUnknown at unknown
  split at unknown
  case h_1 left _ answer =>
    rw [answer]
    rfl
  case h_2 => cases unknown

theorem Shared.started (handed : shared.connection.isSome = true) :
    ¬ shared.connection.isNone = true := by
  rw [← Option.not_isSome, handed]
  simp

/-- A transaction whose outcome is not known leaves the store fenced. -/
theorem Shared.write_unknown (handed : shared.connection.isSome = true)
    (unknown : answers.writeUnknown shared.database = true) :
    (shared.writeTransaction answers).2.connection = none := by
  obtain ⟨begun, unknown⟩ := Bool.and_eq_true_iff.mp unknown
  unfold Shared.writeTransaction
  rw [if_neg (Shared.started handed), if_neg (by simp [begun])]
  split at unknown
  case h_1 =>
    cases answer : answers.commit with
    | committed =>
      rw [Answers.commitUnknown, answer] at unknown
      cases unknown
    | unknown applied => rfl
  case h_2 => rfl
  case h_3 => exact Shared.rolledBack_unknown unknown
  case h_4 => cases unknown
  case h_5 => exact Shared.unwound_unknown unknown

theorem Shared.read_unknown (handed : shared.connection.isSome = true)
    (unknown : answers.readUnknown shared.database = true) :
    (shared.readTransaction answers).2.connection = none := by
  obtain ⟨begun, unknown⟩ := Bool.and_eq_true_iff.mp unknown
  unfold Shared.readTransaction
  rw [if_neg (Shared.started handed), if_neg (by simp [begun])]
  split at unknown
  case h_1 result _ acted =>
    rw [acted]
    cases result with
    | ok => exact Shared.rolledBack_unknown unknown
    | error => exact Shared.rolledBack_unknown unknown
  case h_2 => cases unknown
  case h_3 acted =>
    rw [acted]
    exact Shared.unwound_unknown unknown

/-- A fenced store stays fenced until it is opened again. -/
theorem Shared.fenced_step {event : Event Holder} (fenced : shared.connection = none)
    (taken : Step Result Failure shared event next) (closed : event ≠ .reopen) :
    next.connection = none := by
  have released : shared.release.connection = none := by
    unfold Shared.release
    split
    case h_1 => rfl
    case h_2 => exact fenced
  cases taken with
  | lock free admitted =>
    rw [Shared.lock_eq_some, fenced] at admitted
    cases admitted.1
  | refuse => exact fenced
  | write held handed =>
    rw [fenced] at handed
    cases handed
  | read held handed =>
    rw [fenced] at handed
    cases handed
  | stranded => exact released
  | drop => exact released
  | reopen => exact absurd rfl closed

theorem Shared.fenced_run {events : List (Event Holder)} (fenced : shared.connection = none)
    (run : Run (Step Result Failure) shared events next) (closed : .reopen ∉ events) :
    next.connection = none := by
  induction run with
  | start => exact fenced
  | next _ taken ih =>
    rw [List.mem_append, not_or] at closed
    refine Shared.fenced_step (ih closed.1) taken ?_
    intro same
    exact closed.2 (List.mem_singleton.mpr same.symm)

@[simp] theorem Shared.database_release : shared.release.database = shared.database := by
  unfold Shared.release
  split
  case h_1 => rfl
  case h_2 => rfl

@[simp] theorem Shared.database_rolledBack {answer : RollbackAnswer} :
    (shared.rolledBack answer report).2.database = shared.database := by
  cases answer with
  | rolledBack => rfl
  | unknown => rfl

@[simp] theorem Shared.database_unwound {answer : RollbackAnswer} :
    (shared.unwound answer working).database = shared.database := by
  unfold Shared.unwound
  split
  case h_1 => exact Shared.database_release
  case h_2 => exact Shared.database_release

/-- What a write reports and what it leaves in the database. -/
theorem Shared.write_cases (shared : Shared Db Holder) (answers : Answers Db Result Failure) :
    (∃ result working, (shared.writeTransaction answers).1 = .ok result ∧
        answers.action shared.database = .returned (.ok result) working ∧
        (shared.writeTransaction answers).2.database = working ∧
        (shared.writeTransaction answers).2.connection = some .autocommit) ∨
      (shared.writeTransaction answers).1 = .recoveryRequired ∨
      (∀ result, (shared.writeTransaction answers).1 ≠ .ok result) ∧
        (shared.writeTransaction answers).2.database = shared.database := by
  unfold Shared.writeTransaction
  split
  case isTrue => exact .inr (.inr ⟨by simp, Shared.database_release⟩)
  case isFalse =>
    split
    case isTrue => exact .inr (.inr ⟨by simp, rfl⟩)
    case isFalse =>
      split
      case h_1 result working acted =>
        split
        case h_1 => exact .inl ⟨result, working, rfl, acted, rfl, rfl⟩
        case h_2 => exact .inr (.inl rfl)
      case h_2 => exact .inr (.inl rfl)
      case h_3 =>
        cases answers.rollback with
        | rolledBack => exact .inr (.inr ⟨by simp [Shared.rolledBack], rfl⟩)
        | unknown => exact .inr (.inl rfl)
      case h_4 => exact .inr (.inr ⟨by simp, rfl⟩)
      case h_5 => exact .inr (.inr ⟨by simp, Shared.database_unwound⟩)

/-- Only an action that returned `Ok` over its own transaction changes the database, whatever
becomes of the `COMMIT` or `ROLLBACK` after it. -/
theorem Shared.database_write (shared : Shared Db Holder) {answers : Answers Db Result Failure}
    (refused : ∀ result working, answers.action shared.database ≠ .returned (.ok result) working) :
    (shared.writeTransaction answers).2.database = shared.database := by
  unfold Shared.writeTransaction
  split
  case isTrue => exact Shared.database_release
  case isFalse =>
    split
    case isTrue => rfl
    case isFalse =>
      split
      case h_1 result working acted => exact absurd acted (refused result working)
      case h_2 => rfl
      case h_3 => exact Shared.database_rolledBack
      case h_4 => rfl
      case h_5 => exact Shared.database_unwound

theorem Shared.database_read (shared : Shared Db Holder) (answers : Answers Db Result Failure) :
    (shared.readTransaction answers).2.database = shared.database := by
  unfold Shared.readTransaction
  split
  case isTrue => exact Shared.database_release
  case isFalse =>
    split
    case isTrue => rfl
    case isFalse =>
      split
      case h_1 => exact Shared.database_rolledBack
      case h_2 => exact Shared.database_rolledBack
      case h_3 => rfl
      case h_4 => rfl
      case h_5 => exact Shared.database_unwound

end

section

variable {database : Db} {shared : Shared Db Holder} {events : List (Event Holder)}

theorem Shared.database_of_report (shared : Shared Db Holder) {answers : Answers Db Result Failure}
    (failed : ∀ result, (shared.writeTransaction answers).1 ≠ .ok result)
    (known : (shared.writeTransaction answers).1 ≠ .recoveryRequired) :
    (shared.writeTransaction answers).2.database = shared.database := by
  rcases shared.write_cases answers with ⟨result, _, ok, _⟩ | recovery | ⟨_, same⟩
  · exact absurd ok (failed result)
  · exact absurd recovery known
  · exact same

/-- A transaction whose outcome is not known leaves no connection. -/
theorem Shared.fenced_of_unknown {holder : Holder} {middle : Shared Db Holder}
    (taken : Step Result Failure shared (.transaction holder true) middle) :
    middle.connection = none := by
  generalize event : Event.transaction holder true = performed at taken
  cases taken with
  | lock | refuse | drop | reopen => cases event
  | write held handed answers =>
    exact Shared.write_unknown handed (Event.transaction.inj event).2.symm
  | read held handed answers =>
    exact Shared.read_unknown handed (Event.transaction.inj event).2.symm
  | stranded => cases event

/-- After every sequence of transactions of any holders: a refused action leaves the database as
it was, also when its rollback fails, a write reported `Ok` is committed, a transaction whose
outcome is not known fences every later `lock`, and a lock never hands out an open
transaction. -/
theorem store_admission_fence
    (run : Run (Step Result Failure) (.opened database) events shared) :
    (∀ answers : Answers Db Result Failure,
      ((∀ result working, answers.action shared.database ≠ .returned (.ok result) working) →
        (shared.writeTransaction answers).2.database = shared.database) ∧
      (∀ failure, (shared.writeTransaction answers).1 = .refused failure →
        (shared.writeTransaction answers).2.database = shared.database) ∧
      ((shared.writeTransaction answers).1 = .notBegun ∨
          (shared.writeTransaction answers).1 = .panicked →
        (shared.writeTransaction answers).2.database = shared.database) ∧
      (shared.readTransaction answers).2.database = shared.database ∧
      ∀ result, (shared.writeTransaction answers).1 = .ok result →
        answers.action shared.database =
            .returned (.ok result) (shared.writeTransaction answers).2.database ∧
          (shared.writeTransaction answers).2.connection = some .autocommit) ∧
    (∀ (holder : Holder) (middle later : Shared Db Holder) (more : List (Event Holder)),
      Step Result Failure shared (.transaction holder true) middle →
      Run (Step Result Failure) middle more later → .reopen ∉ more →
      later.recoveryRequired = true ∧ ∀ other, later.lock other = none) ∧
    ∀ (holder : Holder) (next : Shared Db Holder), shared.lock holder = some next →
      next.connection = some .autocommit := by
  have resolved : shared.Resolved := run.invariant Shared.Resolved (.inr rfl) Shared.Resolved.step
  refine ⟨?_, ?_, ?_⟩
  · intro answers
    have outcome := shared.write_cases answers
    refine ⟨shared.database_write, ?_, ?_, shared.database_read answers, ?_⟩
    · intro failure refused
      exact shared.database_of_report (by simp [refused]) (by simp [refused])
    · rintro (stopped | stopped) <;>
        exact shared.database_of_report (by simp [stopped]) (by simp [stopped])
    · intro result reported
      rcases outcome with ⟨other, working, ok, acted, stored, plain⟩ | recovery | ⟨never, _⟩
      · rw [ok] at reported
        cases reported
        rw [stored]
        exact ⟨acted, plain⟩
      · rw [recovery] at reported
        cases reported
      · exact absurd reported (never result)
  · intro holder middle later more taken further closed
    have gone := Shared.fenced_run (Shared.fenced_of_unknown taken) further closed
    have settled : later.Resolved :=
      further.invariant Shared.Resolved (resolved.step taken) Shared.Resolved.step
    refine ⟨?_, ?_⟩
    · rcases settled with ⟨_, required⟩ | plain
      · exact required
      · rw [gone] at plain
        cases plain
    · intro other
      rw [Shared.lock, gone]
  · intro holder next admitted
    obtain ⟨present, rfl⟩ := Shared.lock_eq_some.mp admitted
    rcases resolved with ⟨gone, _⟩ | plain
    · rw [gone] at present
      cases present
    · exact plain

end

/-- A write of `1` whose `COMMIT` fails after it was applied. -/
def lostAcknowledgement : Answers ℕ Unit Unit where
  begun := true
  action _ := .returned (.ok ()) 1
  commit := .unknown true
  rollback := .rolledBack

def heldStore : Shared ℕ Bool :=
  { (.opened 0 : Shared ℕ Bool) with holder := some true }

theorem heldStore_run : Run (Step Unit Unit) (.opened 0) [.lock true true] heldStore :=
  .next (.start _) (.lock rfl rfl)

/-- A refused write whose `ROLLBACK` fails. -/
def lostRollback : Answers ℕ Unit Unit where
  begun := true
  action _ := .returned (.error ()) 1
  commit := .committed
  rollback := .unknown true

theorem store_admission_fence_lost :
    Run (Step Unit Unit) (.opened 0) [.lock true true] heldStore ∧
    Step Unit Unit heldStore (.transaction true true) (heldStore.writeTransaction lostAcknowledgement).2 ∧
    (heldStore.writeTransaction lostAcknowledgement).2.database = 1 ∧
    (∀ other, (heldStore.writeTransaction lostAcknowledgement).2.lock other = none) ∧
    (heldStore.writeTransaction lostRollback).1 = .recoveryRequired ∧
    (heldStore.writeTransaction lostRollback).2.database = 0 := by
  have taken : Step Unit Unit heldStore (.transaction true true)
      (heldStore.writeTransaction lostAcknowledgement).2 := .write rfl rfl lostAcknowledgement
  obtain ⟨writes, fences, _⟩ := store_admission_fence heldStore_run
  refine ⟨heldStore_run, taken, rfl, ?_, rfl, (writes lostRollback).1 ?_⟩
  · exact (fences true _ _ [] taken (.start _) (by simp)).2
  · intro result working acted
    cases acted

end ExomonadHarness.Store.Fence
