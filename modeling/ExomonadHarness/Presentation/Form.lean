import ExomonadHarness.Presentation.View

/-! Form descriptors, drafts and field errors of `harness-presentation`. -/

namespace ExomonadHarness.Presentation

open ExomonadHarness.Json Checked

/-- What the presentation rules take from elsewhere: the XML parser's verdict, the length of
a printed double, the double read from its text, which `serde_json` without `float_roundtrip`
may take for a neighbour, and the conversion `as f64`. -/
structure Host where
  validateSvg : String → Except String Unit
  printed : F64 → ℕ
  back : F64 → F64
  ofInt : ℤ → F64

structure FormOption where
  id : String
  label : String
  presentation : View
  deriving DecidableEq

mutual

inductive FormNode where
  | pure
  | empty
  | group (children : List FormNode)
  | titled (title : String) (child : FormNode)
  | view (presentation : View)
  | text (id label : String) (initial : Option String)
  | int (id label : String) (initial : Option String)
  | number (id label : String) (initial : Option F64)
  | slider (id label : String) (minimum maximum initial : F64)
  | bool (id label : String) (initial : Option Bool)
  | choice (id label : String) (options : List FormOption) (initial : Option String)
  | many (id label : String) (options : List FormOption) (initial : Option (List String))
  | alternativesMany (id label : String) (options : List FormAlternative)
      (initial : Option (List String))
  | alternatives (id label : String) (options : List FormAlternative) (initial : Option String)

inductive FormAlternative where
  | mk (id label : String) (presentation : View) (form : FormNode)

end

namespace FormAlternative

def id : FormAlternative → String
  | mk id _ _ _ => id

def presentation : FormAlternative → View
  | mk _ _ presentation _ => presentation

end FormAlternative

structure FormSpec where
  version : ℕ
  root : FormNode

/-- `ControlValue` is untagged: a document is read as the first kind it fits. -/
inductive ControlValue where
  | bool (value : Bool)
  | integer (value : ℤ)
  | number (value : F64)
  | text (value : String)
  | many (values : List String)
  | empty
  deriving DecidableEq

/-- A `BTreeMap` of control values by control id. -/
abbrev FormDraft := List (String × ControlValue)

structure FormError where
  field : Option String
  message : String
  deriving DecidableEq

/-! What is read back from the text of a form or a draft. -/

namespace FormNode

mutual

def reread (back : F64 → F64) : FormNode → FormNode
  | group children => group (rereadAll back children)
  | titled title child => titled title (child.reread back)
  | number id label initial => number id label (initial.map back)
  | slider id label minimum maximum initial =>
    slider id label (back minimum) (back maximum) (back initial)
  | alternativesMany id label options initial =>
    alternativesMany id label (rereadOptions back options) initial
  | alternatives id label options initial =>
    alternatives id label (rereadOptions back options) initial
  | other => other

def rereadAll (back : F64 → F64) : List FormNode → List FormNode
  | [] => []
  | node :: rest => node.reread back :: rereadAll back rest

def rereadOptions (back : F64 → F64) : List FormAlternative → List FormAlternative
  | [] => []
  | .mk id label presentation form :: rest =>
    .mk id label presentation (form.reread back) :: rereadOptions back rest

end

end FormNode

def ControlValue.reread (back : F64 → F64) : ControlValue → ControlValue
  | number value => number (back value)
  | other => other

def rereadDraft (back : F64 → F64) (draft : FormDraft) : FormDraft :=
  draft.map fun entry => (entry.1, entry.2.reread back)

/-! `PartialEq` as the source derives it. -/

namespace FormNode

mutual

def same : FormNode → FormNode → Bool
  | pure, pure => true
  | empty, empty => true
  | group left, group right => sameAll left right
  | titled leftTitle left, titled rightTitle right => leftTitle = rightTitle && same left right
  | view left, view right => left = right
  | text leftId leftLabel left, text rightId rightLabel right =>
    leftId = rightId && leftLabel = rightLabel && left = right
  | int leftId leftLabel left, int rightId rightLabel right =>
    leftId = rightId && leftLabel = rightLabel && left = right
  | number leftId leftLabel left, number rightId rightLabel right =>
    leftId = rightId && leftLabel = rightLabel && left = right
  | slider leftId leftLabel leftMinimum leftMaximum left,
    slider rightId rightLabel rightMinimum rightMaximum right =>
    leftId = rightId && leftLabel = rightLabel && leftMinimum = rightMinimum &&
      leftMaximum = rightMaximum && left = right
  | bool leftId leftLabel left, bool rightId rightLabel right =>
    leftId = rightId && leftLabel = rightLabel && left = right
  | choice leftId leftLabel leftOptions left, choice rightId rightLabel rightOptions right =>
    leftId = rightId && leftLabel = rightLabel && leftOptions = rightOptions && left = right
  | many leftId leftLabel leftOptions left, many rightId rightLabel rightOptions right =>
    leftId = rightId && leftLabel = rightLabel && leftOptions = rightOptions && left = right
  | alternativesMany leftId leftLabel leftOptions left,
    alternativesMany rightId rightLabel rightOptions right =>
    leftId = rightId && leftLabel = rightLabel && sameOptions leftOptions rightOptions &&
      left = right
  | alternatives leftId leftLabel leftOptions left,
    alternatives rightId rightLabel rightOptions right =>
    leftId = rightId && leftLabel = rightLabel && sameOptions leftOptions rightOptions &&
      left = right
  | _, _ => false

def sameAll : List FormNode → List FormNode → Bool
  | [], [] => true
  | left :: lefts, right :: rights => same left right && sameAll lefts rights
  | _, _ => false

def sameOption : FormAlternative → FormAlternative → Bool
  | .mk leftId leftLabel leftView left, .mk rightId rightLabel rightView right =>
    leftId = rightId && leftLabel = rightLabel && leftView = rightView && same left right

def sameOptions : List FormAlternative → List FormAlternative → Bool
  | [], [] => true
  | left :: lefts, right :: rights => sameOption left right && sameOptions lefts rights
  | _, _ => false

end

mutual

theorem same_iff (left right : FormNode) : same left right = true ↔ left = right := by
  cases left with
  | group children => cases right <;> simp [same, sameAll_iff children]
  | titled _ child => cases right <;> simp [same, same_iff child]
  | alternativesMany _ _ options _ =>
    cases right <;> simp [same, sameOptions_iff options, and_assoc]
  | alternatives _ _ options _ => cases right <;> simp [same, sameOptions_iff options, and_assoc]
  | _ => cases right <;> simp [same, and_assoc]

theorem sameAll_iff (left right : List FormNode) : sameAll left right = true ↔ left = right := by
  cases left with
  | nil => cases right <;> simp [sameAll]
  | cons first rest => cases right <;> simp [sameAll, same_iff first, sameAll_iff rest]

theorem sameOption_iff (left right : FormAlternative) :
    sameOption left right = true ↔ left = right := by
  cases left with
  | mk _ _ _ form =>
    cases right
    simp [sameOption, same_iff form, and_assoc]

theorem sameOptions_iff (left right : List FormAlternative) :
    sameOptions left right = true ↔ left = right := by
  cases left with
  | nil => cases right <;> simp [sameOptions]
  | cons first rest => cases right <;> simp [sameOptions, sameOption_iff first, sameOptions_iff rest]

end

instance instDecidableEqFormNode : DecidableEq FormNode := fun left right =>
  decidable_of_iff _ (same_iff left right)

end FormNode

deriving instance DecidableEq for FormSpec

/-! Encoded lengths. -/

def FormOption.length (option : FormOption) : ℕ :=
  Length.object [("id", Length.text option.id), ("label", Length.text option.label),
    ("presentation", option.presentation.length)]

/-- The tag, the id and the label every control starts with. -/
def controlFields (kind id label : String) : List (String × ℕ) :=
  [("kind", Length.text kind), ("id", Length.text id), ("label", Length.text label)]

def textsLength (texts : List String) : ℕ :=
  Length.array (texts.map Length.text)

namespace FormNode

variable (host : Host)

mutual

def length : FormNode → ℕ
  | pure => Length.object [("kind", Length.text "pure")]
  | empty => Length.object [("kind", Length.text "empty")]
  | group children => Length.object
      [("kind", Length.text "group"), ("children", Length.array (lengths children))]
  | titled title child => Length.object
      [("kind", Length.text "section"), ("title", Length.text title), ("child", length child)]
  | view presentation => Length.object
      [("kind", Length.text "view"), ("presentation", presentation.length)]
  | text id label initial => Length.object (controlFields "text" id label ++
      [("initial", Length.option (initial.map Length.text))])
  | int id label initial => Length.object (controlFields "int" id label ++
      [("initial", Length.option (initial.map Length.text))])
  | number id label initial => Length.object (controlFields "number" id label ++
      [("initial", Length.option (initial.map host.printed))])
  | slider id label minimum maximum initial => Length.object (controlFields "slider" id label ++
      [("minimum", host.printed minimum), ("maximum", host.printed maximum),
        ("initial", host.printed initial)])
  | bool id label initial => Length.object (controlFields "bool" id label ++
      [("initial", Length.option (initial.map Length.bool))])
  | choice id label options initial => Length.object (controlFields "choice" id label ++
      [("options", Length.array (options.map FormOption.length)),
        ("initial", Length.option (initial.map Length.text))])
  | many id label options initial => Length.object (controlFields "many" id label ++
      [("options", Length.array (options.map FormOption.length)),
        ("initial", Length.option (initial.map textsLength))])
  | alternativesMany id label options initial =>
    Length.object (controlFields "alternatives_many" id label ++
      [("options", Length.array (optionLengths options)),
        ("initial", Length.option (initial.map textsLength))])
  | alternatives id label options initial =>
    Length.object (controlFields "alternatives" id label ++
      [("options", Length.array (optionLengths options)),
        ("initial", Length.option (initial.map Length.text))])

def lengths : List FormNode → List ℕ
  | [] => []
  | node :: rest => length node :: lengths rest

def optionLength : FormAlternative → ℕ
  | .mk id label presentation form => Length.object
      [("id", Length.text id), ("label", Length.text label),
        ("presentation", presentation.length), ("form", length form)]

def optionLengths : List FormAlternative → List ℕ
  | [] => []
  | option :: rest => optionLength option :: optionLengths rest

end

/-! The nesting of the encoded node. -/

def selectionDepth (initial : Option (List String)) : ℕ :=
  initial.elim 0 fun _ => nest []

mutual

def depth : FormNode → ℕ
  | group children => nest [nest (depths children)]
  | titled _ child => nest [depth child]
  | view presentation => nest [presentation.depth]
  | choice _ _ options _ =>
    nest [nest (options.map fun option => nest [option.presentation.depth])]
  | many _ _ options initial =>
    nest [nest (options.map fun option => nest [option.presentation.depth]),
      selectionDepth initial]
  | alternativesMany _ _ options initial =>
    nest [nest (optionDepths options), selectionDepth initial]
  | alternatives _ _ options _ => nest [nest (optionDepths options)]
  | pure | empty | text _ _ _ | int _ _ _ | number _ _ _ | slider _ _ _ _ _ | bool _ _ _ => nest []

def depths : List FormNode → List ℕ
  | [] => []
  | node :: rest => depth node :: depths rest

def optionDepths : List FormAlternative → List ℕ
  | [] => []
  | .mk _ _ presentation form :: rest =>
    nest [presentation.depth, depth form] :: optionDepths rest

end

/-- The id of a control; the other nodes have none. -/
def controlId : FormNode → Option String
  | text id _ _ | int id _ _ | number id _ _ | slider id _ _ _ _ | bool id _ _
  | choice id _ _ _ | many id _ _ _ | alternativesMany id _ _ _ | alternatives id _ _ _ => some id
  | pure | empty | group _ | titled _ _ | view _ => none

end FormNode

/-- A nonempty bounded id not seen before joins the seen ones. -/
def freshId (seen : List String) (id : String) : Option (List String) :=
  if id.isEmpty || 128 < id.utf8ByteSize || id ∈ seen then none else some (id :: seen)

/-- Every id of the list is fresh when it is reached. -/
def freshIds (ids : List String) : Option (List String) :=
  ids.foldlM freshId []

/-- `options`: distinct ids with valid views, and a selection of distinct ones. -/
def validOptions (host : Host) (options : List (String × View)) (initial : List String)
    (nonempty : Bool) : Bool :=
  (freshIds (options.map Prod.fst)).isSome &&
    options.all (fun option => (option.2.validate host.validateSvg).isOk) &&
    (!nonempty || !options.isEmpty) && options.length ≤ 1024 &&
    initial.all (fun id => options.any fun option => option.1 = id) && initial.Nodup

/-- An optional sign and at least one decimal digit. -/
def isInteger (text : String) : Bool :=
  let digits := if text.toList.head? = some '-' then text.toList.tail else text.toList
  !digits.isEmpty && digits.all Char.isDigit

namespace FormNode

variable (host : Host)

/-! `go`: whether a node is well formed, and the control ids seen after it. -/

mutual

def walk (node : FormNode) (depth : ℕ) (seen : List String) : Option (List String) :=
  if 32 < depth then none
  else
    match node.controlId.elim (some seen) (freshId seen) with
    | none => none
    | some seen =>
      match node with
      | pure | empty | text _ _ _ | number _ _ _ | bool _ _ _ => some seen
      | int _ _ initial => if initial.all isInteger then some seen else none
      | slider _ _ minimum maximum initial =>
        if minimum.value < maximum.value ∧ minimum.value ≤ initial.value ∧
          initial.value ≤ maximum.value then some seen else none
      | group children => if children.length ≤ 1024 then walkAll children (depth + 1) seen else none
      | titled _ child => walk child (depth + 1) seen
      | view presentation =>
        if (presentation.validate host.validateSvg).isOk then some seen else none
      | choice _ _ options initial =>
        if validOptions host (options.map fun option => (option.id, option.presentation))
          initial.toList true then some seen else none
      | many _ _ options initial =>
        if validOptions host (options.map fun option => (option.id, option.presentation))
          (initial.getD []) false then some seen else none
      | alternativesMany _ _ options initial =>
        if validOptions host (options.map fun option => (option.id, option.presentation))
          (initial.getD []) false then walkOptions options (depth + 1) seen else none
      | alternatives _ _ options initial =>
        if validOptions host (options.map fun option => (option.id, option.presentation))
          initial.toList true then walkOptions options (depth + 1) seen else none

def walkAll (nodes : List FormNode) (depth : ℕ) (seen : List String) : Option (List String) :=
  match nodes with
  | [] => some seen
  | node :: rest =>
    match walk node depth seen with
    | none => none
    | some seen => walkAll rest depth seen

def walkOptions (options : List FormAlternative) (depth : ℕ) (seen : List String) :
    Option (List String) :=
  match options with
  | [] => some seen
  | .mk _ _ _ form :: rest =>
    match walk form depth seen with
    | none => none
    | some seen => walkOptions rest depth seen

end

end FormNode

def FormSpec.length (host : Host) (form : FormSpec) : ℕ :=
  Length.object [("version", Length.nat form.version), ("root", form.root.length host)]

def FormSpec.validate (host : Host) (form : FormSpec) : Except PresentationError Unit :=
  require (form.version = 1 ∧ form.length host ≤ maxPresentationBytes ∧
    (form.root.walk host 0 []).isSome) .invalidForm

/-! Drafts. -/

def ControlValue.length (host : Host) : ControlValue → ℕ
  | bool value => Length.bool value
  | integer value => Length.int value
  | number value => host.printed value
  | text value => Length.text value
  | many values => textsLength values
  | empty => Length.null

def draftLength (host : Host) (draft : FormDraft) : ℕ :=
  Length.object (draft.map fun entry => (entry.1, entry.2.length host))

def ControlValue.depth : ControlValue → ℕ
  | many _ => nest []
  | _ => 0

def draftDepth (draft : FormDraft) : ℕ :=
  nest (draft.map fun entry => entry.2.depth)

/-- A control the draft fills, if it does. -/
def control (draft : FormDraft) (id : String) : Option ControlValue :=
  (draft.lookup id).filter (· ≠ .empty)

def ControlValue.isText : ControlValue → Bool
  | text _ => true
  | _ => false

def ControlValue.isNumber : ControlValue → Bool
  | integer _ | number _ => true
  | _ => false

def ControlValue.isBool : ControlValue → Bool
  | bool _ => true
  | _ => false

/-- A value a slider can stand at; a double is finite by its type. -/
def ControlValue.within (host : Host) (minimum maximum : F64) : ControlValue → Bool
  | integer value =>
    minimum.value ≤ (host.ofInt value).value && (host.ofInt value).value ≤ maximum.value
  | number value => minimum.value ≤ value.value && value.value ≤ maximum.value
  | _ => false

namespace FormNode

variable (host : Host)

mutual

def accepts (draft : FormDraft) (node : FormNode) : Bool :=
  match node with
  | text id _ _ | int id _ _ => (control draft id).all ControlValue.isText
  | number id _ _ => (control draft id).all ControlValue.isNumber
  | bool id _ _ => (control draft id).all ControlValue.isBool
  | choice id _ options _ =>
    match control draft id with
    | none => true
    | some (.text chosen) => options.any fun option => option.id = chosen
    | some _ => false
  | many id _ options _ =>
    match control draft id with
    | none => true
    | some (.many chosen) =>
      chosen.Nodup && chosen.all fun id => options.any fun option => option.id = id
    | some _ => false
  | slider id _ minimum maximum _ => (control draft id).all (·.within host minimum maximum)
  | alternativesMany id _ options _ =>
    match control draft id with
    | none => true
    | some (.many chosen) => chosen.Nodup && chosen.all (acceptsChosen draft options)
    | some _ => false
  | alternatives id _ options _ =>
    match control draft id with
    | none => true
    | some (.text chosen) => acceptsChosen draft options chosen
    | some _ => false
  | group children => acceptsAll draft children
  | titled _ child => accepts draft child
  | pure | empty | view _ => true

def acceptsAll (draft : FormDraft) (nodes : List FormNode) : Bool :=
  match nodes with
  | [] => true
  | node :: rest => accepts draft node && acceptsAll draft rest

/-- The first option with the chosen id accepts the draft. -/
def acceptsChosen (draft : FormDraft) (options : List FormAlternative) (chosen : String) : Bool :=
  match options with
  | [] => false
  | .mk id _ _ form :: rest =>
    if id = chosen then accepts draft form else acceptsChosen draft rest chosen

end

end FormNode

def FormSpec.validateDraft (host : Host) (form : FormSpec) (draft : FormDraft) :
    Except PresentationError Unit := do
  require (draft.length ≤ 1024 ∧ draftLength host draft ≤ maxPresentationBytes) .invalidForm
  require (form.root.accepts host draft) .invalidForm

/-! Field errors. -/

def FormError.length (error : FormError) : ℕ :=
  Length.object [("field", Length.option (error.field.map Length.text)),
    ("message", Length.text error.message)]

def errorsLength (errors : List FormError) : ℕ :=
  Length.array (errors.map FormError.length)

def errorsDepth (errors : List FormError) : ℕ :=
  nest (errors.map fun _ => nest [])

/-- `parse_errors` on a document read as a list of errors; `none` is one that is not. -/
def parseErrors (errors : Option (List FormError)) : Except PresentationError (List FormError) := do
  let errors ← okOr errors .invalidForm
  require (errors.length ≤ 1024 ∧ errorsLength errors ≤ 32768) .invalidForm
  return errors

end ExomonadHarness.Presentation
