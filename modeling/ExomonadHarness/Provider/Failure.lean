import ExomonadHarness.Json.Value
import ExomonadHarness.Support.Checked

/-! The failure a tool reports: its bounded metadata and its encoding. -/

namespace ExomonadHarness.Provider

open Json Checked

def maxToolFailureMetadataBytes : ℕ := 8192
def maxToolFailureMetadataDepth : ℕ := 8

inductive MetadataOmission where
  | sizeLimit | depthLimit
  deriving DecidableEq

def MetadataOmission.toValue : MetadataOmission → Value
  | sizeLimit => .string "size_limit"
  | depthLimit => .string "depth_limit"

def MetadataOmission.fromValue : Value → Option MetadataOmission
  | .string "size_limit" => some sizeLimit
  | .string "depth_limit" => some depthLimit
  | _ => none

/-- The values directly inside a document. -/
def children : Value → List Value
  | .array items => items
  | .object entries => entries.map Prod.snd
  | _ => []

theorem sum_size_children (value : Value) :
    ((children value).map Value.size).sum < value.size := by
  have items (list : List Value) : (list.map Value.size).sum = Value.sizeItems list := by
    induction list with
    | nil => rfl
    | cons first rest ih => simp [Value.sizeItems, ih]
  have entries (map : Map) : ((map.map Prod.snd).map Value.size).sum = Value.sizeEntries map := by
    induction map with
    | nil => rfl
    | cons first rest ih =>
      obtain ⟨key, value⟩ := first
      simpa [Value.sizeEntries] using ih
  cases value with
  | array list => simp [children, items, Value.size]
  | object map =>
    rw [children, entries]
    simp [Value.size]
  | _ => simp [children, Value.size]

/-- Visit the pending nodes, the last one added first. -/
def admitNodes (pending : List (Value × ℕ)) (visited : ℕ) : Except MetadataOmission Unit :=
  match pending with
  | [] => .ok ()
  | (value, depth) :: pending => do
    require (depth ≤ maxToolFailureMetadataDepth) .depthLimit
    require (visited + 1 + pending.length + (children value).length ≤ maxToolFailureMetadataBytes)
      .sizeLimit
    admitNodes (((children value).map (·, depth + 1)).reverse ++ pending) (visited + 1)
termination_by (pending.map (·.1.size)).sum
decreasing_by
  have inner := sum_size_children value
  simp only [List.map_append, List.map_reverse, List.map_map, List.sum_append, List.sum_reverse,
    List.map_cons, List.sum_cons]
  have same : (fun entry : Value × ℕ => entry.1.size) ∘ (fun item => (item, depth + 1)) =
      Value.size := rfl
  rw [same]
  omega

/-- The compact text of a document, `toText`, is bounded in bytes. -/
def admitMetadata (toText : Value → String) (metadata : Value) : Except MetadataOmission Unit := do
  admitNodes [(metadata, 1)] 0
  require ((toText metadata).utf8ByteSize ≤ maxToolFailureMetadataBytes) .sizeLimit

/-- Metadata is retained only when it was admitted, and is then not omitted. -/
structure ToolFailure (toText : Value → String) where
  message : String
  providerContext : Bool
  metadata : Option Value
  metadataOmitted : Option MetadataOmission
  resultReceipt : Option Value
  admitted : ∀ value ∈ metadata, admitMetadata toText value = .ok () ∧ metadataOmitted = none
  deriving DecidableEq

namespace ToolFailure

variable {toText : Value → String}

def fromMessage (message : String) : ToolFailure toText where
  message := message
  providerContext := false
  metadata := none
  metadataOmitted := none
  resultReceipt := none
  admitted := by simp

/-- The reason metadata is left out, if it is. -/
def omission (toText : Value → String) (metadata : Value) : Option MetadataOmission :=
  match admitMetadata toText metadata with
  | .ok () => none
  | .error reason => some reason

theorem omission_eq_none {metadata : Value} :
    omission toText metadata = none ↔ admitMetadata toText metadata = .ok () := by
  unfold omission
  split
  case h_1 verdict => simp [verdict]
  case h_2 verdict => simp [verdict]

def withMetadata (message : String) (metadata : Value) : ToolFailure toText where
  message := message
  providerContext := false
  metadata := if omission toText metadata = none then some metadata else none
  metadataOmitted := omission toText metadata
  resultReceipt := none
  admitted := by
    intro value kept
    split at kept
    case isTrue none =>
      cases kept
      exact ⟨omission_eq_none.mp none, none⟩
    case isFalse => cases kept

def withoutResultReceipt (failure : ToolFailure toText) : ToolFailure toText :=
  { failure with resultReceipt := none }

/-- The error text a model sees in place of the tool's result. -/
def outputValue (failure : ToolFailure toText) : Value :=
  let omitted := failure.metadataOmitted.map fun reason =>
    Value.object [("metadata_omitted", reason.toValue)]
  .object (OrderedMap.insertSome "result" failure.resultReceipt
    (OrderedMap.insertSome "failure" (failure.metadata <|> omitted)
      [("error", .string failure.message)]))

/-- A failure that is only a message is encoded as that text. -/
def isText (failure : ToolFailure toText) : Bool :=
  !failure.providerContext && failure.metadata.isNone && failure.metadataOmitted.isNone &&
    failure.resultReceipt.isNone

def fields (failure : ToolFailure toText) : Map :=
  OrderedMap.insertSome "result_receipt" failure.resultReceipt
    (OrderedMap.insertSome "metadata_omitted" (failure.metadataOmitted.map (·.toValue))
      (OrderedMap.insertSome "metadata" failure.metadata
        (OrderedMap.insertSome "provider_context"
          (if failure.providerContext then some (.bool true) else none)
          [("message", .string failure.message)])))

def toValue (failure : ToolFailure toText) : Value :=
  if failure.isText then .string failure.message else .object failure.fields

/-- An optional field of a record: an absent or `null` field is `None`. -/
def optional {α : Type} (decode : Value → Option α) : Option Value → Option (Option α)
  | none | some .null => some none
  | some value => (decode value).map some

def defaultFalse : Option Value → Option Bool
  | none => some false
  | some (.bool value) => some value
  | some _ => none

/-- Metadata that crosses the wire is admitted again. -/
def restore (message : String) (providerContext : Bool) (metadata : Option Value)
    (metadataOmitted : Option MetadataOmission) (resultReceipt : Option Value) :
    ToolFailure toText :=
  match metadata with
  | some metadata => { withMetadata message metadata with providerContext, resultReceipt }
  | none =>
    { message, providerContext, metadata := none, metadataOmitted, resultReceipt
      admitted := by simp }

/-- `None` is a value the deserializer rejects. -/
def fromValue : Value → Option (ToolFailure toText)
  | .string message => some (fromMessage message)
  | .object entries => do
    let message ← (entries.lookup "message").bind Value.asStr
    let providerContext ← defaultFalse (entries.lookup "provider_context")
    let metadata ← optional some (entries.lookup "metadata")
    let metadataOmitted ← optional MetadataOmission.fromValue (entries.lookup "metadata_omitted")
    let resultReceipt ← optional some (entries.lookup "result_receipt")
    return restore message providerContext metadata metadataOmitted resultReceipt
  | _ => none

variable {failure : ToolFailure toText}

@[ext] theorem ext {left right : ToolFailure toText} (message : left.message = right.message)
    (providerContext : left.providerContext = right.providerContext)
    (metadata : left.metadata = right.metadata)
    (metadataOmitted : left.metadataOmitted = right.metadataOmitted)
    (resultReceipt : left.resultReceipt = right.resultReceipt) : left = right := by
  cases left
  cases right
  cases message
  cases providerContext
  cases metadata
  cases metadataOmitted
  cases resultReceipt
  rfl

/-- A field that holds `null` is taken for absent. -/
def present (field : Option Value) : Option Value :=
  if field = some .null then none else field

@[simp] theorem optional_some {field : Option Value} :
    optional some field = some (present field) := by
  cases field with
  | none => rfl
  | some value => cases value <;> rfl

@[simp] theorem optional_omission {reason : Option MetadataOmission} :
    optional MetadataOmission.fromValue (reason.map (·.toValue)) = some reason := by
  cases reason with
  | none => rfl
  | some reason => cases reason <;> rfl

@[simp] theorem defaultFalse_flag {flag : Bool} :
    defaultFalse (if flag then some (.bool true) else none) = some flag := by
  cases flag <;> rfl

theorem eq_fromMessage (text : failure.isText = true) : failure = fromMessage failure.message := by
  simp only [isText, Bool.and_eq_true, Bool.not_eq_true', Option.isNone_iff_eq_none] at text
  obtain ⟨⟨⟨context, metadata⟩, omitted⟩, receipt⟩ := text
  exact ext rfl context metadata omitted receipt

theorem lookup_fields (failure : ToolFailure toText) :
    failure.fields.lookup "message" = some (.string failure.message) ∧
    failure.fields.lookup "provider_context" =
      (if failure.providerContext then some (.bool true) else none) ∧
    failure.fields.lookup "metadata" = failure.metadata ∧
    failure.fields.lookup "metadata_omitted" = failure.metadataOmitted.map (·.toValue) ∧
    failure.fields.lookup "result_receipt" = failure.resultReceipt := by
  have only (wanted : String) (other : wanted ≠ "message") :
      List.lookup wanted [("message", Value.string failure.message)] = none :=
    OrderedMap.lookup_cons_of_ne other _ _
  simp [fields, only]

theorem restore_eq (failure : ToolFailure toText) :
    restore failure.message failure.providerContext failure.metadata failure.metadataOmitted
      failure.resultReceipt = failure := by
  cases found : failure.metadata with
  | none => exact ext rfl rfl found.symm rfl rfl
  | some metadata =>
    obtain ⟨passed, kept⟩ := failure.admitted metadata found
    have admitted : omission toText metadata = none := omission_eq_none.mpr passed
    refine ext rfl rfl ?_ ?_ rfl
    · rw [found]
      exact if_pos admitted
    · rw [kept]
      exact admitted

variable {back : F64 → F64}

/-- A failure as its encoding is read back: a field that holds `null` is taken for absent, and
the metadata is admitted again with the doubles that were read. -/
def reread (back : F64 → F64) (failure : ToolFailure toText) : ToolFailure toText :=
  restore failure.message failure.providerContext
    (present (failure.metadata.map (·.reread back))) failure.metadataOmitted
    (present (failure.resultReceipt.map (·.reread back)))

theorem present_eq {field : Option Value} : present (field.map (·.reread back)) = field ↔
    ∀ value ∈ field, value ≠ .null ∧ value.reread back = value := by
  cases field with
  | none => simp [present]
  | some value =>
    by_cases null : value = .null
    · simp [present, null, Value.reread]
    · simp [present, null, Value.reread_eq_null]

theorem reread_eq : failure.reread back = failure ↔
    present (failure.metadata.map (·.reread back)) = failure.metadata ∧
      present (failure.resultReceipt.map (·.reread back)) = failure.resultReceipt := by
  constructor
  · intro same
    have metadata := congrArg ToolFailure.metadata same
    have receipt := congrArg ToolFailure.resultReceipt same
    unfold reread restore at metadata receipt
    split at metadata
    case h_1 value read =>
      rw [read] at receipt
      refine ⟨?_, receipt⟩
      simp only [withMetadata] at metadata
      split at metadata
      case isTrue => exact read.trans metadata
      case isFalse =>
        rw [← metadata] at read
        cases read
    case h_2 read =>
      rw [read] at receipt
      exact ⟨read.trans metadata, receipt⟩
  · intro same
    rw [reread, same.1, same.2, restore_eq]

theorem fromValue_toValue (back : F64 → F64) (failure : ToolFailure toText) :
    fromValue (failure.toValue.reread back) = some (failure.reread back) := by
  by_cases text : failure.isText = true
  · rw [eq_fromMessage text]
    rfl
  · obtain ⟨message, context, metadata, omitted, receipt⟩ := lookup_fields failure
    have flag : Option.map (Value.reread back) (if failure.providerContext then some (.bool true)
        else none) = if failure.providerContext then some (.bool true) else none := by
      split <;> rfl
    have reason : Option.map (Value.reread back) (failure.metadataOmitted.map (·.toValue)) =
        failure.metadataOmitted.map (·.toValue) := by
      rcases failure.metadataOmitted with _ | ⟨_ | _⟩ <;> rfl
    rw [toValue, if_neg text, Value.reread]
    simp only [fromValue, Value.lookup_rereadEntries, message, context, metadata, omitted, receipt,
      flag, reason, Option.map_some, Value.reread, optional_some, optional_omission,
      defaultFalse_flag, Option.bind_some, Value.asStr, Option.bind_eq_bind]
    rfl

end ToolFailure
end ExomonadHarness.Provider
