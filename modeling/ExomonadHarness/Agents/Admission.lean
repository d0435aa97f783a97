import ExomonadHarness.Store.Mailbox
import ExomonadHarness.Store.History

/-! The admission of an agent: one transaction stores the agent one name below its parent,
the snapshot a fork starts from and the envelope with its first task. -/

namespace ExomonadHarness.Agents

open Json Checked Transaction
open Store

inductive Effort where
  | none | low | medium | high | max
  deriving DecidableEq

namespace Effort

def asStr : Effort → String
  | none => "none"
  | low => "low"
  | medium => "medium"
  | high => "high"
  | max => "max"

def toValue (effort : Effort) : Value :=
  .string effort.asStr

end Effort

/-- The sole settings item of the harness. -/
def configurationUpdate (effort : Effort) : Value :=
  .object [("reasoning", .object [("effort", effort.toValue)]),
    ("type", .string "configuration_update")]

variable {Hash Window : Type}

section

variable [DecidableEq Hash] (hash : Value → Hash) (fromStr : String → Except String Document)

/-! Snapshots. -/

/-! Admission. -/

end

end ExomonadHarness.Agents
