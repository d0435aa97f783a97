import ExomonadHarness.Support.Run
import ExomonadHarness.Transport.Types

/-! The budget of a parent cell. Every model invocation of the cell draws on one
tree of scopes; a child scope narrows the limits and the deadline of its parent, and
the first exhaustion anywhere latches the whole tree. -/

namespace ExomonadHarness.Budget

open Transport

structure Limits where
  requests : ℕ
  tools : ℕ
  reportedTokens : ℕ
  seconds : ℕ
  fits : requests < u64Size ∧ tools < u64Size ∧ reportedTokens < u64Size ∧ seconds < u64Size

inductive Exhausted where
  | requests | tools | reportedTokens | deadline
  deriving DecidableEq

structure Counts where
  requests : ℕ := 0
  tools : ℕ := 0
  reportedTokens : ℕ := 0
  unknownUsageRequests : ℕ := 0
  deriving DecidableEq

/-- The limit of one kind of admission, a tool or a request. -/
def Limits.admissions (limits : Limits) (tool : Bool) : ℕ :=
  if tool then limits.tools else limits.requests

def Counts.admissions (counts : Counts) (tool : Bool) : ℕ :=
  if tool then counts.tools else counts.requests

def Counts.admitKind (counts : Counts) (tool : Bool) : Counts :=
  if tool then { counts with tools := (counts.tools + 1) % u64Size }
  else { counts with requests := (counts.requests + 1) % u64Size }

def Counts.recordUsage (counts : Counts) : Option Usage → Counts
  | none =>
    { counts with unknownUsageRequests := (counts.unknownUsageRequests + 1) % u64Size }
  | some usage =>
    let counts :=
      { counts with reportedTokens := saturatingAdd counts.reportedTokens usage.knownTokenSubtotal }
    if usage.hasReportedTotals then counts
    else { counts with unknownUsageRequests := (counts.unknownUsageRequests + 1) % u64Size }

structure Scope where
  limits : Limits
  deadline : ℕ
  counts : Counts := {}

/-- A whole cell: the shared gate, every scope, and for every scope the
`CellBudget` that ends in it, as its scopes from the root down. A scope is shared
by reference, so it is named by its place of allocation. -/
structure Cell where
  reason : Option Exhausted := none
  cancelled : Bool := false
  scopes : List Scope
  budgets : List (List ℕ)

def nanosPerSecond : ℕ := 1000000000

/-- The readings of the clock during one operation, in order. -/
abbrev Readings := ℕ → ℕ

/-- `Instant::now().checked_add(seconds)`, where a sum after the latest instant falls
back to another reading of the clock. -/
def deadlineAfter (latest : ℕ) (now : Readings) (seconds : ℕ) : ℕ :=
  let deadline := now 0 + seconds * nanosPerSecond
  if deadline ≤ latest then deadline else now 1

def Limits.narrow (parent limits : Limits) : Limits where
  requests := min limits.requests parent.requests
  tools := min limits.tools parent.tools
  reportedTokens := min limits.reportedTokens parent.reportedTokens
  seconds := min limits.seconds parent.seconds
  fits := by
    obtain ⟨requests, tools, reported, seconds⟩ := limits.fits
    refine ⟨?_, ?_, ?_, ?_⟩ <;> omega

namespace Cell

def new (latest : ℕ) (now : Readings) (limits : Limits) : Cell where
  scopes := [{ limits, deadline := deadlineAfter latest now limits.seconds }]
  budgets := [[0]]

/-- The budget named by its last scope. -/
def chain (cell : Cell) (budget : ℕ) : List ℕ :=
  (cell.budgets[budget]?).getD []

def scopesOf (cell : Cell) (chain : List ℕ) : List Scope :=
  chain.filterMap (cell.scopes[·]?)

/-- A new scope below those of a budget. -/
def extend (cell : Cell) (chain : List ℕ) (scope : Scope) : Cell :=
  { cell with
    scopes := cell.scopes ++ [scope]
    budgets := cell.budgets ++ [chain ++ [cell.scopes.length]] }

/-- There is always a last scope; the fallback is not reached from `Cell.new`. -/
def narrow (latest : ℕ) (now : Readings) (cell : Cell) (chain : List ℕ)
    (limits : Limits) : Cell :=
  match (cell.scopesOf chain).getLast? with
  | none => cell
  | some parent =>
    let limits := parent.limits.narrow limits
    cell.extend chain
      { limits, deadline := min parent.deadline (deadlineAfter latest now limits.seconds) }

/-- The loop of `check`, which reads the clock once for each scope. -/
def firstExhausted (now : Readings) : ℕ → List Scope → Option Exhausted
  | _, [] => none
  | reading, scope :: rest =>
    if scope.deadline ≤ now reading then some .deadline
    else if scope.limits.reportedTokens ≤ scope.counts.reportedTokens then some .reportedTokens
    else firstExhausted now (reading + 1) rest

def latch (cell : Cell) (reason : Exhausted) : Cell :=
  { cell with reason := some reason, cancelled := true }

def check (now : Readings) (cell : Cell) (chain : List ℕ) :
    Except Exhausted Unit × Cell :=
  match cell.reason with
  | some reason => (.error reason, cell)
  | none =>
    match firstExhausted now 0 (cell.scopesOf chain) with
    | some reason => (.error reason, cell.latch reason)
    | none => (.ok (), cell)

def updateCounts (cell : Cell) (change : Counts → Counts) (chain : List ℕ) : Cell :=
  { cell with
    scopes := chain.foldl
      (fun scopes id => scopes.modify id fun scope => { scope with counts := change scope.counts })
      cell.scopes }

/-- Every scope of the budget has room, or none of them counts the admission. -/
def admitKind (now : Readings) (cell : Cell) (chain : List ℕ) (tool : Bool) :
    Except Exhausted Unit × Cell :=
  match cell.check now chain with
  | (.error reason, cell) => (.error reason, cell)
  | (.ok (), cell) =>
    if (cell.scopesOf chain).any fun scope =>
        decide (scope.limits.admissions tool ≤ scope.counts.admissions tool) then
      let reason := if tool then Exhausted.tools else Exhausted.requests
      (.error reason, cell.latch reason)
    else (.ok (), cell.updateCounts (·.admitKind tool) chain)

def usage (now : Readings) (cell : Cell) (chain : List ℕ) (usage : Option Usage) : Cell :=
  ((cell.updateCounts (·.recordUsage usage) chain).check now chain).2

def exhausted (now : Readings) (cell : Cell) (chain : List ℕ) :
    Option Exhausted × Cell :=
  match cell.check now chain with
  | (.error reason, cell) => (some reason, cell)
  | (.ok (), cell) => (none, cell)

end Cell

/-- A call on one of the budgets, with what it answered. -/
inductive Event where
  | narrow (budget : ℕ) (limits : Limits)
  | admitKind (budget : ℕ) (tool : Bool) (answer : Except Exhausted Unit)
  | usage (budget : ℕ) (usage : Option Usage)
  | exhausted (budget : ℕ) (answer : Option Exhausted)

/-- Every call runs under the gate, or reads only what never changes. Nothing is
assumed of the clock. -/
inductive Step (latest : ℕ) : Cell → Event → Cell → Prop where
  | narrow (cell : Cell) (budget : ℕ) (known : budget < cell.budgets.length)
      (limits : Limits) (now : Readings) :
      Step latest cell (.narrow budget limits)
        (cell.narrow latest now (cell.chain budget) limits)
  | admitKind (cell : Cell) (budget : ℕ) (known : budget < cell.budgets.length)
      (tool : Bool) (now : Readings) :
      Step latest cell (.admitKind budget tool (cell.admitKind now (cell.chain budget) tool).1)
        (cell.admitKind now (cell.chain budget) tool).2
  | usage (cell : Cell) (budget : ℕ) (known : budget < cell.budgets.length)
      (usage : Option Usage) (now : Readings) :
      Step latest cell (.usage budget usage) (cell.usage now (cell.chain budget) usage)
  | exhausted (cell : Cell) (budget : ℕ) (known : budget < cell.budgets.length)
      (now : Readings) :
      Step latest cell (.exhausted budget (cell.exhausted now (cell.chain budget)).1)
        (cell.exhausted now (cell.chain budget)).2

abbrev Run (latest : ℕ) := Transition.Run (Step latest)

end ExomonadHarness.Budget
