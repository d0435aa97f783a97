import ExomonadHarness.Store.Overlay

/-! The editable form of a conversation: messages as text blocks, and everything that needs
native continuity as groups with their visible text. -/

namespace ExomonadHarness.Store

open Json Checked

inductive ContextRole where
  | user | assistant
  deriving DecidableEq

inductive ContextNativeKind where
  | completedExchange | opaqueExchange | pending
  deriving DecidableEq

structure ContextVisibleText (Reference : Type) where
  reference : Reference
  selector : ContextTextSelector
  text : String
  editable : Bool
  removable : Bool
  deriving DecidableEq

inductive ContextBlock (Reference : Type) where
  | text (reference : Option Reference) (role : ContextRole) (text : String)
      (sources : List Reference)
  | native (reference : Reference) (kind : ContextNativeKind) (preview : String)
      (isProtected : Bool) (texts : List (ContextVisibleText Reference))
  deriving DecidableEq

structure ContextDocument (Reference : Type) where
  blocks : List (ContextBlock Reference)
  deriving DecidableEq

mutual

def encryptedPayload : Value → Bool
  | .object fields => encryptedFields fields
  | .array items => encryptedItems items
  | .null | .bool _ | .number _ | .string _ => false

def encryptedItems : List Value → Bool
  | [] => false
  | item :: rest => encryptedPayload item || encryptedItems rest

def encryptedFields : Map → Bool
  | [] => false
  | (key, value) :: rest =>
    "encrypted".isPrefixOf key || encryptedPayload value || encryptedFields rest

end

variable {Hash : Type}

def referenceOf (items : List (Occurrence Hash)) : ContextReference Hash :=
  items.map (·.origin)

end ExomonadHarness.Store
