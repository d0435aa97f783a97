import ExomonadHarness.Store.Media

/-! The types of `store/actor_output.rs`, their encoded lengths and their checks. -/

namespace ExomonadHarness.Store

open ExomonadHarness.Json ExomonadHarness.Presentation Checked
open Scheduler (ConversationIdentity)

def maxHistoryBytes : ℕ := 256 * 1024

/-- `i64::MAX`. -/
def maxCounter : ℕ := 2 ^ 63 - 1

structure ActorOutputOrigin where
  run : String
  nativeActor : ℕ
  incarnation : ℕ
  deriving DecidableEq

inductive ActorOutputExecution where
  | notebook (execution : String) (inputUnitIndex effectOrdinal : ℕ)
  | actorProgram
  deriving DecidableEq

def ActorOutputOrigin.length (origin : ActorOutputOrigin) : ℕ :=
  Length.object [("run", Length.text origin.run), ("nativeActor", Length.nat origin.nativeActor),
    ("incarnation", Length.nat origin.incarnation)]

def ActorOutputExecution.length : ActorOutputExecution → ℕ
  | notebook execution inputUnitIndex effectOrdinal => Length.object
      [("kind", Length.text "notebook"), ("execution", Length.text execution),
        ("inputUnitIndex", Length.nat inputUnitIndex), ("effectOrdinal", Length.nat effectOrdinal)]
  | actorProgram => Length.object [("kind", Length.text "actor_program")]

def conversationLength : ConversationIdentity → ℕ
  | .standalone store actor => Length.object [("kind", Length.text "standalone"),
      ("store", Length.text store), ("actor", Length.text actor)]
  | .embedded run actor incarnation => Length.object [("kind", Length.text "embedded"),
      ("run", Length.text run), ("actor", Length.text actor),
      ("incarnation", Length.text incarnation)]

/-- An origin, an execution and a conversation are flat objects. -/
def flatDepth : ℕ := nest []

def validateOrigin (origin : ActorOutputOrigin) : Except StoreError Unit :=
  require (!origin.run.isEmpty && origin.run.utf8ByteSize ≤ 1024 &&
    origin.nativeActor ≤ maxCounter && origin.incarnation ≤ maxCounter) .invalidActorOutput

def validateExecution : ActorOutputExecution → Except StoreError Unit
  | .actorProgram => .ok ()
  | .notebook execution _ _ =>
    require (!execution.isEmpty && execution.utf8ByteSize ≤ 256) .invalidActorOutput

/-- An embedded conversation is the one of the origin's run and incarnation. -/
def ownsConversation (origin : ActorOutputOrigin) : Option ConversationIdentity → Bool
  | some (.embedded run _ incarnation) =>
    run = origin.run && incarnation = toString origin.incarnation
  | _ => true

/-- A standalone conversation is one of this store. -/
def inStore (storeId : String) : Option ConversationIdentity → Bool
  | some (.standalone store _) => store = storeId
  | _ => true

end ExomonadHarness.Store
