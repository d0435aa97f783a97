import ExomonadHarness.Store.Document

/-! Planning a batch of edits of a context document. A batch is checked as a whole against
one document, and a refused batch edits nothing. -/

namespace ExomonadHarness.Store

open Json Checked

structure ContextTextVersion (Reference : Type) where
  reference : Reference
  selector : ContextTextSelector
  digest : String
  deriving DecidableEq

structure ContextUnitVersion (Reference : Type) where
  reference : Reference
  digest : String
  deriving DecidableEq

structure ContextInspection (Reference : Type) where
  textVersions : List (ContextTextVersion Reference)
  unitVersions : List (ContextUnitVersion Reference)
  deriving DecidableEq

inductive ContextChange (Reference : Type) where
  | replaceContextText (reference : Reference) (selector : ContextTextSelector)
      (expected text : String)
  | removeContextUnit (reference : Reference) (expected : String)
  | appendContextNote (text : String) (sources : List Reference)
  | appendRetainedExchange (source : String)
  deriving DecidableEq

structure ContextPatch (Reference : Type) where
  changes : List (ContextChange Reference)
  deriving DecidableEq

inductive ContextProblemCode where
  | stale | missing | ambiguous | denied | invalidPatch | ineligible | alreadyStaged
  | unsupportedSelector
  deriving DecidableEq

structure ContextProblem (Reference : Type) where
  code : ContextProblemCode
  reference : Option Reference
  detail : String
  deriving DecidableEq

/-- The SHA-256 digests of a text and of a native unit with its visible fields. -/
structure Digests (Reference : Type) where
  text : String → String
  unit : Reference → List (Reference × ContextTextSelector × String) → String

/-- `expected` has the form of an issued digest. -/
def isDigest (expected : String) : Bool :=
  decide (expected.utf8ByteSize = 64) &&
    expected.toList.all fun letter =>
      ('0' ≤ letter && letter ≤ '9') || ('a' ≤ letter && letter ≤ 'f')

variable {Reference : Type}

/-! Inspection. -/

section

variable (digests : Digests Reference)

def textVersionsOf : ContextBlock Reference → List (ContextTextVersion Reference)
  | .text (some reference) _ text _ => [⟨reference, .messageText 0, digests.text text⟩]
  | .text none _ _ _ => []
  | .native _ _ _ _ texts =>
    (texts.filter (·.editable)).map fun field =>
      ⟨field.reference, field.selector, digests.text field.text⟩

def unitVersionsOf : ContextBlock Reference → List (ContextUnitVersion Reference)
  | .text (some reference) _ text _ => [⟨reference, digests.text text⟩]
  | .text none _ _ _ => []
  | .native reference kind _ isProtected texts =>
    (if !isProtected && decide (kind = .completedExchange) then
      [⟨reference, digests.unit reference
        (texts.map fun field => (field.reference, field.selector, field.text))⟩]
    else []) ++
    (texts.filter (·.removable)).map fun field => ⟨field.reference, digests.text field.text⟩

def inspectContext (document : ContextDocument Reference) : ContextInspection Reference where
  textVersions := document.blocks.flatMap (textVersionsOf digests)
  unitVersions := document.blocks.flatMap (unitVersionsOf digests)

end

variable [DecidableEq Reference]

def ContextBlock.hasReference (reference : Reference) : ContextBlock Reference → Bool
  | .text (some own) _ _ sources => decide (own = reference) || decide (reference ∈ sources)
  | .text none _ _ _ => false
  | .native own _ _ _ texts => decide (own = reference) || texts.any (·.reference = reference)

def contextHasReference (document : ContextDocument Reference) (reference : Reference) : Bool :=
  document.blocks.any (ContextBlock.hasReference reference)

/-! The plan. -/

/-- The targets met so far, and what is wrong with them. -/
structure PatchPlan (Reference : Type) where
  texts : List (Reference × ContextTextSelector)
  removals : List Reference
  problems : List (ContextProblem Reference)

/-- One target against the versions that carry its name. -/
def targetProblems (document : ContextDocument Reference) (reference : Reference)
    (matching : List String) (expected : String) : List (ContextProblem Reference) :=
  if !isDigest expected then
    [⟨.invalidPatch, some reference, "expected version must be an owner-issued SHA-256 digest"⟩]
  else
    let code := match matching with
      | [] => if contextHasReference document reference then some ContextProblemCode.denied
          else some .missing
      | [actual] => if actual = expected then none else some .stale
      | _ => some .ambiguous
    code.toList.map fun code =>
      ⟨code, some reference, "target version or editable authority does not match"⟩

section

variable (digests : Digests Reference) (document : ContextDocument Reference)

def textMatches (reference : Reference) (selector : ContextTextSelector) : List String :=
  ((inspectContext digests document).textVersions.filter fun version =>
    decide (version.reference = reference) && decide (version.selector = selector)).map (·.digest)

def unitMatches (reference : Reference) : List String :=
  ((inspectContext digests document).unitVersions.filter (·.reference = reference)).map (·.digest)

def planChange (plan : PatchPlan Reference) : ContextChange Reference → PatchPlan Reference
  | .replaceContextText reference selector expected _ =>
    let repeated := if (reference, selector) ∈ plan.texts then
        [⟨.invalidPatch, some reference, "text target occurs more than once in the batch"⟩]
      else []
    { plan with
      texts := plan.texts.insert (reference, selector)
      problems := plan.problems ++ repeated ++
        targetProblems document reference (textMatches digests document reference selector) expected }
  | .removeContextUnit reference expected =>
    let repeated := if reference ∈ plan.removals then
        [⟨.invalidPatch, some reference, "unit target occurs more than once in the batch"⟩]
      else []
    { plan with
      removals := plan.removals.insert reference
      problems := plan.problems ++ repeated ++
        targetProblems document reference (unitMatches digests document reference) expected }
  | .appendRetainedExchange _ => plan
  | .appendContextNote _ sources =>
    { plan with
      problems := plan.problems ++ (sources.filter (!contextHasReference document ·)).map
        fun source => ⟨.denied, some source, "note source is outside the inspected context"⟩ }

/-- A native block that is removed and shows the reference among its fields. -/
def removesMember (removals : List Reference) (reference : Reference) :
    ContextBlock Reference → Bool
  | .native group _ _ _ fields => decide (group ∈ removals) && fields.any (·.reference = reference)
  | .text _ _ _ _ => false

def editProblems (plan : PatchPlan Reference) : List (ContextProblem Reference) :=
  (plan.texts.filter fun target =>
    decide (target.1 ∈ plan.removals) ||
      document.blocks.any (removesMember plan.removals target.1)).map fun target =>
    ⟨.invalidPatch, some target.1, "batch both edits and removes the same unit"⟩

def unitProblem (removals : List Reference) :
    ContextBlock Reference → Option (ContextProblem Reference)
  | .native reference _ _ _ texts =>
    if decide (reference ∈ removals) &&
        texts.any (fun field => decide (field.reference ≠ reference) &&
          decide (field.reference ∈ removals)) then
      some ⟨.invalidPatch, some reference, "batch removes both a unit and one of its members"⟩
    else none
  | .text _ _ _ _ => none

def patchProblems (patch : ContextPatch Reference) : List (ContextProblem Reference) :=
  let plan := patch.changes.foldl (planChange digests document) ⟨[], [], []⟩
  plan.problems ++ editProblems document plan ++
    document.blocks.filterMap (unitProblem plan.removals)

end

/-! Applying the changes one after another. -/

def replaceText (reference : Reference) (selector : ContextTextSelector) (text : String) :
    ContextBlock Reference → ContextBlock Reference
  | .text (some own) role body sources =>
    .text (some own) role (if own = reference then text else body) sources
  | .text none role body sources => .text none role body sources
  | .native own kind preview isProtected texts =>
    .native own kind preview isProtected (texts.map fun field =>
      if field.reference = reference ∧ field.selector = selector then { field with text } else field)

def isUnit (reference : Reference) : ContextBlock Reference → Bool
  | .text own _ _ _ => decide (own = some reference)
  | .native own _ _ _ _ => decide (own = reference)

def removeField (reference : Reference) : ContextBlock Reference → ContextBlock Reference
  | .native own kind preview isProtected texts =>
    .native own kind preview isProtected (texts.filter (·.reference ≠ reference))
  | .text own role body sources => .text own role body sources

def noteBlock (text : String) (sources : List Reference) : ContextBlock Reference :=
  .text none .assistant text sources

def applyChange (blocks : List (ContextBlock Reference)) :
    ContextChange Reference → List (ContextBlock Reference)
  | .replaceContextText reference selector _ text => blocks.map (replaceText reference selector text)
  | .removeContextUnit reference _ =>
    (blocks.filter (!isUnit reference ·)).map (removeField reference)
  | .appendRetainedExchange _ => blocks
  | .appendContextNote text sources => blocks ++ [noteBlock text sources]

def checkContextPatch (digests : Digests Reference) (document : ContextDocument Reference)
    (patch : ContextPatch Reference) :
    Except (List (ContextProblem Reference)) (ContextDocument Reference) :=
  if (patchProblems digests document patch).isEmpty then
    .ok ⟨patch.changes.foldl applyChange document.blocks⟩
  else .error (patchProblems digests document patch)

end ExomonadHarness.Store
