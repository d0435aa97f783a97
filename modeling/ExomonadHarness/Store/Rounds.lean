import ExomonadHarness.Support.Table
import ExomonadHarness.Support.Transaction
import ExomonadHarness.Store.Types

/-! The request rows of a conversation and the frontier derived from them. -/

namespace ExomonadHarness.Store

open Checked Transaction Transport

/-- The host that an actor path belongs to. -/
structure Binding where
  actor : AgentPath
  run : String
  incarnation : String
  deriving DecidableEq

inductive RoundPhase where
  | pending | completed | cancelled | rejected
  deriving DecidableEq

/-- The columns of `requests` that the frontier reads. -/
structure RequestRow where
  id : RequestId
  parent : Option RequestId
  branch : String
  run : Option String
  incarnation : Option String
  phase : Option RoundPhase
  deriving DecidableEq

end ExomonadHarness.Store
