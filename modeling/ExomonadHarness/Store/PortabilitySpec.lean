import ExomonadHarness.Json.Text
import ExomonadHarness.Store.Portability

/-! A portability note shows only what every provider may read: it is a function of the
visible part of its items, and holds no encrypted field. -/

namespace ExomonadHarness.Store

open Json Checked

/-! The visible part of an item. -/

/-- Parts of a content without their token probabilities. -/
def withoutLogprobs (parts : List Value) : List Value :=
  parts.map (·.removeKey "logprobs")

/-- Auxiliary reasoning leaves a reasoning item, and token probabilities any other content. -/
def visibleContent (object : Map) : Map :=
  if object.lookup "type" = some (.string "reasoning") then OrderedMap.remove "content" object
  else
    match object.lookup "content" with
    | some (.array parts) => OrderedMap.insert "content" (.array (withoutLogprobs parts)) object
    | _ => object

def visibleFields (object : Map) : Map :=
  OrderedMap.remove "encrypted_content" (OrderedMap.remove "output_format"
    (removeNullPhase (stripMetadata (visibleContent object))))

/-- An item without what only its provider reads. -/
def visibleItem : Value → Value
  | .object object => .object (visibleFields object)
  | other => other

/-! Removing what is not there. -/

theorem remove_absent {key : String} {object : Map} (absent : key ∉ OrderedMap.keys object) :
    OrderedMap.remove key object = object := by
  rw [OrderedMap.remove, List.filter_eq_self]
  intro entry member
  have different : entry.1 ≠ key := fun same =>
    absent (same ▸ List.mem_map_of_mem member)
  simpa using different

theorem lookup_absent {key : String} {object : Map} (absent : key ∉ OrderedMap.keys object) :
    object.lookup key = none := by
  rw [OrderedMap.mem_keys_iff, not_exists] at absent
  exact Option.eq_none_iff_forall_ne_some.mpr absent

theorem validateFields_eq_ok {object : Map} {allowed : List String} {item : String} {done : PUnit}
    (valid : validateFields object allowed item = .ok done) {key : String} (other : key ∉ allowed) :
    key ∉ OrderedMap.keys object := by
  intro member
  have refused := refuseFirst_eq_ok.mp valid key member
  simp [other] at refused

theorem keys_remove {removed key : String} {object : Map}
    (member : key ∈ OrderedMap.keys (OrderedMap.remove removed object)) :
    key ∈ OrderedMap.keys object := by
  obtain ⟨entry, inside, same⟩ := List.mem_map.mp member
  exact List.mem_map.mpr ⟨entry, List.mem_of_mem_filter inside, same⟩

theorem keys_stripMetadata {object : Map} {key : String}
    (member : key ∈ OrderedMap.keys (stripMetadata object)) : key ∈ OrderedMap.keys object :=
  keys_remove (keys_remove member)

theorem keys_removeNullPhase {object : Map} {key : String}
    (member : key ∈ OrderedMap.keys (removeNullPhase object)) : key ∈ OrderedMap.keys object := by
  rw [removeNullPhase] at member
  split at member
  case isTrue => exact keys_remove member
  case isFalse => exact member

theorem keys_insert_subset {key added : String} {value : Value} {object : Map}
    (member : key ∈ OrderedMap.keys (OrderedMap.insert added value object)) :
    key ∈ OrderedMap.keys object ∨ key = added := by
  obtain ⟨entry, inside, same⟩ := List.mem_map.mp member
  rcases OrderedMap.mem_insert inside with new | old
  · exact .inr (by rw [← same, new])
  · exact .inl (List.mem_map.mpr ⟨entry, old, same⟩)

theorem keys_visibleContent {object : Map} {key : String}
    (member : key ∈ OrderedMap.keys (visibleContent object)) :
    key ∈ OrderedMap.keys object ∨ key = "content" := by
  rw [visibleContent] at member
  split at member
  case isTrue => exact .inl (keys_remove member)
  case isFalse =>
    split at member
    · exact keys_insert_subset member
    · exact .inl member

theorem removeNullPhase_absent {object : Map} (absent : "phase" ∉ OrderedMap.keys object) :
    removeNullPhase object = object := by
  rw [removeNullPhase, lookup_absent absent]
  rfl

/-! Projection keeps the visible part. -/

section

variable {isBlank : String → Bool} {object : Map} {shown : Value} {visible : Bool}

theorem projectPart_eq_ok {value : Value} (read : projectPart isBlank value = .ok (shown, visible)) :
    shown = value.removeKey "logprobs" := by
  simp only [projectPart, bind_eq_ok, okOr_eq_ok] at read
  obtain ⟨part, object, _, _, field, _, text, _, _, _, same⟩ := read
  rw [Value.asObject_eq_some.mp object]
  exact (Prod.mk.inj (pure_eq_ok.mp same)).1.symm

theorem projectParts_eq_ok {parts : List Value} {projected : List (Value × Bool)}
    (read : parts.mapM (projectPart isBlank) = .ok projected) :
    projected.map Prod.fst = withoutLogprobs parts := by
  have related := mapM_eq_ok.mp read
  clear read
  induction related with
  | nil => rfl
  | cons here _ ih =>
    rw [List.map_cons, ih, projectPart_eq_ok here]
    rfl

theorem projectContent_eq_ok {content : Value} {projected : Map}
    (other : object.lookup "type" ≠ some (.string "reasoning"))
    (found : object.lookup "content" = some content)
    (read : projectContent isBlank object content = .ok (projected, visible)) :
    projected = visibleContent object := by
  rw [visibleContent, if_neg other, found]
  cases content with
  | string text => exact (Prod.mk.inj (Except.ok.inj read)).1.symm
  | array parts =>
    simp only [projectContent, bind_eq_ok, pure_eq_ok] at read
    obtain ⟨projected, read, same⟩ := read
    rw [← (Prod.mk.inj same).1, projectParts_eq_ok read]
  | _ => cases read

theorem projectMessage_shown (kind : object.lookup "type" = some (.string "message"))
    (read : projectMessage isBlank object = .ok (shown, visible)) :
    shown = visibleItem (.object object) := by
  simp only [projectMessage, bind_eq_ok, okOr_eq_ok, pure_eq_ok] at read
  obtain ⟨_, valid, _, _, _, _, content, found, projected, body, _, _, same⟩ := read
  have other : object.lookup "type" ≠ some (.string "reasoning") := by simp [kind]
  have whole := projectContent_eq_ok other found body
  have absent {key : String} (foreign : key ∉ ["type", "role", "content", "phase", "id", "status"]) :
      key ∉ OrderedMap.keys (removeNullPhase (stripMetadata (visibleContent object))) := by
    intro member
    have inside := keys_stripMetadata (keys_removeNullPhase member)
    rcases keys_visibleContent inside with inside | content
    · exact validateFields_eq_ok valid foreign inside
    · exact foreign (by simp [content])
  rw [← (Prod.mk.inj same).1, whole, visibleItem, visibleFields,
    remove_absent (absent (by decide)), remove_absent (absent (by decide))]

theorem visibleContent_plain (other : object.lookup "type" ≠ some (.string "reasoning"))
    (absent : "content" ∉ OrderedMap.keys object) : visibleContent object = object := by
  rw [visibleContent, if_neg other, lookup_absent absent]

theorem projectToolCall_shown {custom : Bool}
    (other : object.lookup "type" ≠ some (.string "reasoning"))
    (read : projectToolCall isBlank object custom = .ok (shown, visible)) :
    shown = visibleItem (.object object) ∧ encryptedPayload (.object object) = false := by
  simp only [projectToolCall, bind_eq_ok, pure_eq_ok] at read
  obtain ⟨_, valid, _, _, _, _, _, _, _, _, _, _, _, clean, same⟩ := read
  have absent {key : String} (foreign : key ∉ ["type", "call_id", "name", "id", "status",
      "namespace", "async"] ++ [if custom then "input" else "arguments"]) :
      key ∉ OrderedMap.keys object := validateFields_eq_ok valid foreign
  have content : "content" ∉ OrderedMap.keys object := absent (by cases custom <;> decide)
  have phase : "phase" ∉ OrderedMap.keys object := absent (by cases custom <;> decide)
  have format : "output_format" ∉ OrderedMap.keys object := absent (by cases custom <;> decide)
  have payload : "encrypted_content" ∉ OrderedMap.keys object := absent (by cases custom <;> decide)
  refine ⟨?_, by simpa [rejectEncrypted] using clean⟩
  rw [← (Prod.mk.inj same).1, visibleItem, visibleFields, visibleContent_plain other content,
    removeNullPhase_absent (mt keys_stripMetadata phase), remove_absent (mt keys_stripMetadata format),
    remove_absent (mt keys_stripMetadata payload)]

theorem projectToolOutput_shown (other : object.lookup "type" ≠ some (.string "reasoning"))
    (read : projectToolOutput isBlank object = .ok (shown, visible)) :
    shown = visibleItem (.object object) := by
  simp only [projectToolOutput, bind_eq_ok, pure_eq_ok] at read
  obtain ⟨_, valid, _, _, _, _, _, _, _, _, same⟩ := read
  have absent {key : String} (foreign : key ∉ ["type", "call_id", "output", "output_format", "id",
      "status"]) : key ∉ OrderedMap.keys object := validateFields_eq_ok valid foreign
  have content : "content" ∉ OrderedMap.keys object := absent (by decide)
  have phase : "phase" ∉ OrderedMap.keys object := absent (by decide)
  have payload : "encrypted_content" ∉ OrderedMap.keys object := absent (by decide)
  rw [← (Prod.mk.inj same).1, visibleItem, visibleFields, visibleContent_plain other content,
    removeNullPhase_absent (mt keys_stripMetadata phase),
    remove_absent (mt (keys_stripMetadata ∘ keys_remove) payload)]

theorem remove_comm (first second : String) (object : Map) :
    OrderedMap.remove first (OrderedMap.remove second object) =
      OrderedMap.remove second (OrderedMap.remove first object) := by
  simp only [OrderedMap.remove, List.filter_filter]
  exact List.filter_congr fun entry _ => Bool.and_comm _ _

theorem projectReasoning_shown (kind : object.lookup "type" = some (.string "reasoning"))
    (read : projectReasoning isBlank object = .ok (shown, visible)) :
    shown = visibleItem (.object object) := by
  simp only [projectReasoning, bind_eq_ok, pure_eq_ok] at read
  obtain ⟨_, valid, _, _, _, _, _, _, _, _, same⟩ := read
  have absent {key : String} (foreign : key ∉ ["type", "summary", "content", "encrypted_content",
      "id", "status"]) : key ∉ OrderedMap.keys object := validateFields_eq_ok valid foreign
  have phase : "phase" ∉ OrderedMap.keys object := absent (by decide)
  have format : "output_format" ∉ OrderedMap.keys object := absent (by decide)
  rw [← (Prod.mk.inj same).1, visibleItem, visibleFields, visibleContent, if_pos kind,
    removeNullPhase_absent (mt (keys_remove ∘ keys_stripMetadata) phase),
    remove_absent (mt (keys_remove ∘ keys_stripMetadata) format), stripMetadata, stripMetadata,
    remove_comm "content", remove_comm "content", remove_comm "content"]

/-- The kinds of item a note can show. -/
theorem projectItem_cases {item : Value} (read : projectItem isBlank item = .ok (shown, visible)) :
    ∃ object kind, item = .object object ∧ object.lookup "type" = some (.string kind) ∧
      (kind = "message" ∧ projectMessage isBlank object = .ok (shown, visible) ∨
        kind = "reasoning" ∧ projectReasoning isBlank object = .ok (shown, visible) ∨
        kind ≠ "reasoning" ∧ ((∃ custom, projectToolCall isBlank object custom = .ok (shown, visible)) ∨
          projectToolOutput isBlank object = .ok (shown, visible))) := by
  simp only [projectItem, bind_eq_ok, okOr_eq_ok] at read
  obtain ⟨object, whole, kind, type, read⟩ := read
  obtain ⟨value, found, text⟩ := Option.bind_eq_some_iff.mp type
  rw [Value.asStr_eq_some.mp text] at found
  refine ⟨object, kind, Value.asObject_eq_some.mp whole, found, ?_⟩
  split at read
  case isTrue same => exact .inl ⟨same, read⟩
  case isFalse =>
    split at read
    case isTrue same => exact .inr (.inr ⟨by simp [same], .inl ⟨false, read⟩⟩)
    case isFalse =>
      split at read
      case isTrue same => exact .inr (.inr ⟨by simp [same], .inl ⟨true, read⟩⟩)
      case isFalse =>
        split at read
        case isTrue same =>
          have other : kind ≠ "reasoning" := by
            rcases same with same | same <;> simp [same]
          exact .inr (.inr ⟨other, .inr read⟩)
        case isFalse =>
          split at read
          case isTrue same => exact .inr (.inl ⟨same, read⟩)
          case isFalse => cases read

/-- What is shown of an item is its visible part. -/
theorem projectItem_shown {item : Value} (read : projectItem isBlank item = .ok (shown, visible)) :
    shown = visibleItem item := by
  obtain ⟨object, kind, same, found, read⟩ := projectItem_cases read
  rw [same]
  rcases read with ⟨kind, read⟩ | ⟨kind, read⟩ | ⟨other, ⟨custom, read⟩ | read⟩
  · exact projectMessage_shown (kind ▸ found) read
  · exact projectReasoning_shown (kind ▸ found) read
  · exact (projectToolCall_shown (by simpa [found] using other) read).1
  · exact projectToolOutput_shown (by simpa [found] using other) read

/-! Encrypted fields. -/

theorem encryptedFields_eq_false {entries : Map} : encryptedFields entries = false ↔
    ∀ entry ∈ entries, "encrypted".isPrefixOf entry.1 = false ∧ encryptedPayload entry.2 = false := by
  induction entries with
  | nil => simp [encryptedFields]
  | cons entry rest ih =>
    obtain ⟨key, value⟩ := entry
    simp only [encryptedFields, Bool.or_eq_false_iff, ih, List.forall_mem_cons]

theorem encryptedItems_eq_false {items : List Value} : encryptedItems items = false ↔
    ∀ item ∈ items, encryptedPayload item = false := by
  induction items with
  | nil => simp [encryptedItems]
  | cons item rest ih => simp only [encryptedItems, Bool.or_eq_false_iff, ih, List.forall_mem_cons]

theorem encryptedPayload_object {entries : Map} : encryptedPayload (.object entries) = false ↔
    ∀ entry ∈ entries, "encrypted".isPrefixOf entry.1 = false ∧ encryptedPayload entry.2 = false := by
  rw [encryptedPayload, encryptedFields_eq_false]

theorem encryptedPayload_filter {keep : String × Value → Bool} {entries : Map}
    (clean : encryptedPayload (.object entries) = false) :
    encryptedPayload (.object (entries.filter keep)) = false := by
  rw [encryptedPayload_object] at clean ⊢
  intro entry member
  exact clean entry (List.mem_of_mem_filter member)

/-- An object whose names are allowed and whose values are checked one by one. -/
theorem encryptedPayload_checked {entries : Map} (ordered : OrderedMap.Ordered entries)
    (checked : ∀ key value, entries.lookup key = some value →
      "encrypted".isPrefixOf key = false ∧ encryptedPayload value = false) :
    encryptedPayload (.object entries) = false := by
  rw [encryptedPayload_object]
  intro entry member
  exact checked entry.1 entry.2 (ordered.lookup_of_mem member)

theorem mem_keys_of_lookup {entries : Map} {key : String} {value : Value}
    (found : entries.lookup key = some value) : key ∈ OrderedMap.keys entries :=
  OrderedMap.mem_keys_iff.mpr ⟨value, found⟩

theorem allowed_of_lookup {entries : Map} {allowed : List String} {item : String} {done : PUnit}
    (valid : validateFields entries allowed item = .ok done) {key : String} {value : Value}
    (found : entries.lookup key = some value) : key ∈ allowed := by
  by_contra foreign
  exact validateFields_eq_ok valid foreign (mem_keys_of_lookup found)

theorem validateReasoningText_clean {kind location text : String} {value : Value}
    (formed : value.wellFormed = true)
    (read : validateReasoningText kind location value = .ok text) :
    encryptedPayload value = false := by
  simp only [validateReasoningText, bind_eq_ok, okOr_eq_ok, require_eq_ok, decide_eq_true_eq] at read
  obtain ⟨object, whole, _, valid, _, type, body⟩ := read
  rw [Value.asObject_eq_some.mp whole] at formed ⊢
  refine encryptedPayload_checked (Value.wellFormed_object.mp formed).1 ?_
  intro key value found
  have allowed := allowed_of_lookup valid found
  simp only [List.mem_cons, List.not_mem_nil, or_false] at allowed
  rcases allowed with same | same
  · subst same
    rw [type, Option.some.injEq] at found
    exact ⟨by decide +kernel, by rw [← found]; rfl⟩
  · subst same
    obtain ⟨shown, here, string⟩ := Option.bind_eq_some_iff.mp body
    rw [found, Option.some.injEq] at here
    exact ⟨by decide +kernel, by rw [here, Value.asStr_eq_some.mp string]; rfl⟩

theorem stripMetadata_lookup {key : String} {value : Value}
    (found : (stripMetadata object).lookup key = some value) :
    object.lookup key = some value ∧ key ≠ "id" ∧ key ≠ "status" := by
  simp only [stripMetadata, OrderedMap.lookup_remove] at found
  split at found
  case isTrue => cases found
  case isFalse status =>
    split at found
    case isTrue => cases found
    case isFalse identity => exact ⟨found, identity, status⟩

theorem summaryTexts_clean {summary : Value} {texts : List String} (formed : summary.wellFormed = true)
    (found : object.lookup "summary" = some summary) (read : summaryTexts object = .ok texts) :
    encryptedPayload summary = false := by
  simp only [summaryTexts, found, bind_eq_ok, okOr_eq_ok] at read
  obtain ⟨blocks, array, read⟩ := read
  rw [Value.asArray_eq_some.mp array] at formed ⊢
  rw [encryptedPayload, encryptedItems_eq_false]
  intro block member
  obtain ⟨text, _, here⟩ := exists_right_of_forall₂ (mapM_eq_ok.mp read) block member
  exact validateReasoningText_clean (Value.wellFormed_array.mp formed block member) here

theorem projectReasoning_clean (formed : Value.wellFormed (.object object) = true)
    (kind : object.lookup "type" = some (.string "reasoning"))
    (read : projectReasoning isBlank object = .ok (shown, visible)) :
    encryptedPayload shown = false := by
  simp only [projectReasoning, bind_eq_ok, pure_eq_ok] at read
  obtain ⟨_, valid, _, _, _, _, _, _, texts, summary, same⟩ := read
  rw [← (Prod.mk.inj same).1]
  have ordered := (Value.wellFormed_object.mp formed).1
  refine encryptedPayload_checked ((((ordered.remove _).remove _).remove _).remove _) ?_
  intro key value found
  simp only [OrderedMap.lookup_remove] at found
  split at found
  case isTrue => cases found
  case isFalse content =>
    split at found
    case isTrue => cases found
    case isFalse payload =>
      obtain ⟨here, identity, status⟩ := stripMetadata_lookup found
      have allowed := allowed_of_lookup valid here
      simp only [List.mem_cons, List.not_mem_nil, or_false, content, payload, identity, status,
        or_self] at allowed
      rcases allowed with same | same
      · subst same
        rw [kind, Option.some.injEq] at here
        exact ⟨by decide +kernel, by rw [← here]; rfl⟩
      · subst same
        exact ⟨by decide +kernel,
          summaryTexts_clean (Value.wellFormed_of_lookup formed here) here summary⟩

theorem projectToolOutput_clean (formed : Value.wellFormed (.object object) = true) {kind : String}
    (type : object.lookup "type" = some (.string kind))
    (read : projectToolOutput isBlank object = .ok (shown, visible)) :
    encryptedPayload shown = false := by
  simp only [projectToolOutput, requiredNonemptyString, bind_eq_ok, okOr_eq_ok, pure_eq_ok] at read
  obtain ⟨_, valid, _, _, call, named, output, present, _, clean, same⟩ := read
  rw [← (Prod.mk.inj same).1]
  have ordered := (Value.wellFormed_object.mp formed).1
  refine encryptedPayload_checked (((ordered.remove _).remove _).remove _) ?_
  intro key value found
  simp only [OrderedMap.lookup_remove] at found
  split at found
  case isTrue => cases found
  case isFalse format =>
    obtain ⟨here, identity, status⟩ := stripMetadata_lookup found
    have allowed := allowed_of_lookup valid here
    simp only [List.mem_cons, List.not_mem_nil, or_false, format, identity, status, or_self] at allowed
    rcases allowed with same | same | same
    · subst same
      rw [type, Option.some.injEq] at here
      exact ⟨by decide +kernel, by rw [← here]; rfl⟩
    · subst same
      obtain ⟨text, _⟩ := Option.filter_eq_some_iff.mp named
      obtain ⟨shown, stored, string⟩ := Option.bind_eq_some_iff.mp text
      rw [here, Option.some.injEq] at stored
      exact ⟨by decide +kernel, by rw [stored, Value.asStr_eq_some.mp string]; rfl⟩
    · subst same
      rw [present, Option.some.injEq] at here
      exact ⟨by decide +kernel, by simpa [rejectEncrypted, ← here] using clean⟩

theorem projectMessage_clean (read : projectMessage isBlank object = .ok (shown, visible)) :
    encryptedPayload shown = false := by
  simp only [projectMessage, bind_eq_ok, pure_eq_ok] at read
  obtain ⟨_, _, _, _, _, _, _, _, _, _, _, clean, same⟩ := read
  rw [← (Prod.mk.inj same).1]
  simpa [rejectEncrypted] using clean

theorem projectToolCall_clean {custom : Bool}
    (other : object.lookup "type" ≠ some (.string "reasoning"))
    (read : projectToolCall isBlank object custom = .ok (shown, visible)) :
    encryptedPayload shown = false := by
  obtain ⟨_, clean⟩ := projectToolCall_shown other read
  simp only [projectToolCall, bind_eq_ok, pure_eq_ok] at read
  obtain ⟨_, _, _, _, _, _, _, _, _, _, _, _, _, _, same⟩ := read
  rw [← (Prod.mk.inj same).1]
  exact encryptedPayload_filter (encryptedPayload_filter clean)

/-- What is shown of an item has no encrypted field. -/
theorem projectItem_clean {item : Value} (formed : item.wellFormed = true)
    (read : projectItem isBlank item = .ok (shown, visible)) : encryptedPayload shown = false := by
  obtain ⟨object, kind, same, found, read⟩ := projectItem_cases read
  rw [same] at formed
  rcases read with ⟨_, read⟩ | ⟨kind, read⟩ | ⟨other, ⟨custom, read⟩ | read⟩
  · exact projectMessage_clean read
  · exact projectReasoning_clean formed (kind ▸ found) read
  · exact projectToolCall_clean (by simpa [found] using other) read
  · exact projectToolOutput_clean formed found read

end

/-! The note. -/

section

variable {Hash : Type} {printer : NotePrinter Hash}

theorem renderItem_eq_ok {occurrence : Occurrence Hash} {entry : Value × Value × Bool}
    (read : renderItem printer occurrence = .ok entry) :
    entry.1 = originValue printer occurrence.origin ∧
      projectItem printer.isBlank occurrence.item = .ok entry.2 := by
  simp only [renderItem, bind_eq_ok, pure_eq_ok] at read
  obtain ⟨_, _, ⟨item, visible⟩, projected, same⟩ := read
  subst same
  exact ⟨rfl, projected⟩

theorem renderedItems_eq_ok {items : List (Occurrence Hash)} {rendered : List (Value × Value)}
    (read : renderedItems printer items = .ok rendered) :
    List.Forall₂ (fun occurrence entry => ∃ visible,
      entry.1 = originValue printer occurrence.origin ∧
        projectItem printer.isBlank occurrence.item = .ok (entry.2, visible)) items rendered := by
  simp only [renderedItems, bind_eq_ok, mapM_eq_ok, pure_eq_ok] at read
  obtain ⟨entries, related, _, _, same⟩ := read
  subst same
  rw [List.forall₂_map_right_iff]
  refine related.imp ?_
  intro occurrence entry here
  obtain ⟨origin, projected⟩ := renderItem_eq_ok here
  exact ⟨entry.2.2, origin, projected⟩

/-- The entries of a note are the origins and the visible parts of its items. -/
theorem renderedItems_shown {items : List (Occurrence Hash)} {rendered : List (Value × Value)}
    (read : renderedItems printer items = .ok rendered) :
    rendered = items.map fun occurrence =>
      (originValue printer occurrence.origin, visibleItem occurrence.item) := by
  have related := renderedItems_eq_ok read
  clear read
  induction related with
  | nil => rfl
  | cons here _ ih =>
    obtain ⟨visible, origin, projected⟩ := here
    rw [List.map_cons, ← ih, ← origin, ← projectItem_shown projected]

theorem originValue_clean (origin : Origin Hash) :
    encryptedPayload (originValue printer origin) = false := by
  rw [originValue, encryptedPayload_object]
  simp only [List.forall_mem_cons, List.not_mem_nil, false_implies, implies_true, and_true]
  exact ⟨⟨by decide +kernel, rfl⟩, ⟨by decide +kernel, rfl⟩, by decide +kernel, rfl⟩

theorem noteMessage_clean (text : String) : encryptedPayload (noteMessage text) = false := by
  rw [noteMessage, encryptedPayload_object]
  simp only [List.forall_mem_cons, List.not_mem_nil, false_implies, implies_true, and_true]
  exact ⟨⟨by decide +kernel, rfl⟩, ⟨by decide +kernel, rfl⟩, by decide +kernel, rfl⟩

variable (printer) in
theorem shown_pairs (items : List (Occurrence Hash)) :
    (items.map fun occurrence =>
      (originValue printer occurrence.origin, visibleItem occurrence.item)) =
      ((items.map (·.origin)).map (originValue printer)).zip (items.map (visibleItem ·.item)) := by
  rw [List.map_map, List.zip_map']
  rfl

end

/-- Two groups with the same origins and the same visible parts are rendered into the same note,
and neither a note nor anything it shows has an encrypted field. -/
theorem portability_note {Hash : Type} (printer : NotePrinter Hash) :
    (∀ (first second : List (Occurrence Hash)) (left right : Value),
      first.map (·.origin) = second.map (·.origin) →
      first.map (visibleItem ·.item) = second.map (visibleItem ·.item) →
      render printer first = .ok left → render printer second = .ok right → left = right) ∧
    ∀ (items : List (Occurrence Hash)) (note : Value),
      (∀ occurrence ∈ items, occurrence.item.wellFormed = true) → render printer items = .ok note →
        encryptedPayload note = false ∧ ∃ rendered, renderedItems printer items = .ok rendered ∧
          note = noteMessage (noteText printer (referenceOf items) rendered) ∧
          ∀ entry ∈ rendered, encryptedPayload entry.1 = false ∧ encryptedPayload entry.2 = false := by
  refine ⟨?_, ?_⟩
  · intro first second left right origins shown one two
    simp only [render, bind_eq_ok, pure_eq_ok] at one two
    obtain ⟨entries, readOne, sameOne⟩ := one
    obtain ⟨others, readTwo, sameTwo⟩ := two
    have reference : referenceOf first = referenceOf second := origins
    have same : entries = others := by
      rw [renderedItems_shown readOne, renderedItems_shown readTwo, shown_pairs, shown_pairs,
        origins, shown]
    rw [← sameOne, ← sameTwo, same, reference]
  · intro items note formed read
    simp only [render, bind_eq_ok, pure_eq_ok] at read
    obtain ⟨rendered, entries, same⟩ := read
    refine ⟨?_, rendered, entries, same.symm, ?_⟩
    · exact same ▸ noteMessage_clean _
    · intro entry member
      obtain ⟨occurrence, inside, visible, origin, projected⟩ :=
        exists_left_of_forall₂ (renderedItems_eq_ok entries) entry member
      exact ⟨origin ▸ originValue_clean occurrence.origin,
        projectItem_clean (formed occurrence inside) projected⟩

/-- Two copies of a reasoning summary with different provider state. -/
def summaryItem (identity secret : String) : Value :=
  .object [("encrypted_content", .string secret), ("id", .string identity),
    ("summary", .array [.object [("text", .string "planned"), ("type", .string "summary_text")]]),
    ("type", .string "reasoning")]

def summaryOccurrence (identity secret : String) : Occurrence ℕ where
  request := "request"
  position := 0
  hash := 0
  item := summaryItem identity secret
  outputOperation := none
  origin := ⟨"request", 0, 0⟩
  sources := []
  note := false
  overlays := []

def plainPrinter : NotePrinter ℕ where
  compact := Value.compact fun _ => "0.0"
  pretty := Value.compact fun _ => "0.0"
  hashText := Nat.repr
  reference origins := ",".intercalate (origins.map fun origin => origin.request)
  isBlank text := text.isEmpty

theorem portability_note_summary :
    ∃ note, render plainPrinter [summaryOccurrence "a" "x"] = .ok note ∧
      render plainPrinter [summaryOccurrence "b" "y"] = .ok note ∧ encryptedPayload note = false := by
  have ran {items : List (Occurrence ℕ)}
      (succeeds : (render plainPrinter items).toOption.isSome = true) :
      ∃ note, render plainPrinter items = .ok note := by
    cases read : render plainPrinter items with
    | ok note => exact ⟨note, rfl⟩
    | error failure => simp [read, Except.toOption] at succeeds
  obtain ⟨left, one⟩ : ∃ note, render plainPrinter [summaryOccurrence "a" "x"] = .ok note :=
    ran (by decide +kernel)
  obtain ⟨right, two⟩ : ∃ note, render plainPrinter [summaryOccurrence "b" "y"] = .ok note :=
    ran (by decide +kernel)
  obtain ⟨same, clean⟩ := portability_note plainPrinter
  have equal := same _ _ left right rfl (by decide +kernel) one two
  have formed : ∀ occurrence ∈ [summaryOccurrence "a" "x"], occurrence.item.wellFormed = true := by
    decide +kernel
  exact ⟨left, one, equal ▸ two, (clean _ left formed one).1⟩

end ExomonadHarness.Store
