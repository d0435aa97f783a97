import ExomonadHarness.Store.History

/-! Visible text of retained items. An edit of a body is an overlay of its occurrence; the
item itself keeps its bytes, and the bodies sent to a provider are projected from both. -/

namespace ExomonadHarness.Json.Value

/-- `value[key] = new` on an object. -/
def setIndex (value : Value) (key : String) (new : Value) : Value :=
  match value with
  | object entries => object (OrderedMap.insert key new entries)
  | other => other

def removeKey (value : Value) (key : String) : Value :=
  match value with
  | object entries => object (OrderedMap.remove key entries)
  | other => other

theorem index_setIndex_ne {key wanted : String} (different : wanted ≠ key) (value new : Value) :
    (value.setIndex key new).index wanted = value.index wanted := by
  cases value with
  | object entries => simp [setIndex, different]
  | _ => rfl

theorem index_setIndex_self {value : Value} {key : String} (present : value.index key ≠ null)
    (new : Value) : (value.setIndex key new).index key = new := by
  obtain ⟨entries, same, _⟩ := index_eq rfl present
  simp [same, setIndex]

theorem index_removeKey_ne {key wanted : String} (different : wanted ≠ key) (value : Value) :
    (value.removeKey key).index wanted = value.index wanted := by
  cases value with
  | object entries => simp [removeKey, different]
  | _ => rfl

end ExomonadHarness.Json.Value

namespace ExomonadHarness.Store

open Json Checked

variable {Hash : Type}

/-! Bodies. -/

def isMessageText (part : Value) : Bool :=
  part.index "type" = .string "input_text" || part.index "type" = .string "output_text"

def isReasoningText (part : Value) : Bool :=
  part.index "type" = .string "reasoning_text"

/-- The text of one content part of an accepted kind. -/
def partText (accepts : Value → Bool) (parts : List Value) (part : ℕ) : Option String :=
  (parts[part]?.filter accepts).bind fun found => (found.index "text").asStr

def setPartText (parts : List Value) (part : ℕ) (text : String) : List Value :=
  parts.modify part fun found => found.setIndex "text" (.string text)

/-- The text of a message's content, whole or by parts. -/
def messageText (content : Value) (part : ℕ) : Option String :=
  match content with
  | .string text => if part = 0 then some text else none
  | .array parts => partText isMessageText parts part
  | _ => none

def textBody (item : Value) : ContextTextSelector → Option String
  | .messageText part =>
    if item.index "type" = .string "message" ∧
        (item.index "role" = .string "user" ∨ item.index "role" = .string "assistant") then
      messageText (item.index "content") part
    else none
  | .reasoningText part =>
    if item.index "type" = .string "reasoning" then
      (item.index "content").asArray.bind fun parts => partText isReasoningText parts part
    else none
  | .toolResultText =>
    if item.index "type" = .string "function_call_output" ∨
        item.index "type" = .string "custom_tool_call_output" then
      (item.index "output").asStr
    else none

def setTextBody (item : Value) (selector : ContextTextSelector) (text : String) :
    Except ContextError Value := do
  let _ ← okOr (textBody item selector) .invalidReference
  match selector with
  | .messageText part =>
    match item.index "content" with
    | .array parts => return item.setIndex "content" (.array (setPartText parts part text))
    | _ => return item.setIndex "content" (.string text)
  | .toolResultText => return item.setIndex "output" (.string text)
  | .reasoningText part =>
    return item.setIndex "content" (.array (setPartText (item.index "content").items part text))

/-- The format of a tool result describes the settled output, not an edited body. -/
def projectBody (item : Value) (overlay : ContextTextOverlay) : Except ContextError Value := do
  let edited ← setTextBody item overlay.selector overlay.text
  if overlay.selector = .toolResultText then return edited.removeKey "output_format"
  else return edited

def projectFrom (item : Value) (seen : List ContextTextSelector) :
    List ContextTextOverlay → Except ContextError Value
  | [] => .ok item
  | overlay :: rest => do
    require (overlay.selector ∉ seen) .invalidReference
    let edited ← projectBody item overlay
    projectFrom edited (overlay.selector :: seen) rest

def projectBodies (occurrence : Occurrence Hash) : Except ContextError Value :=
  projectFrom occurrence.item [] occurrence.overlays

/-- The order of stored overlays. -/
def ContextTextSelector.rank : ContextTextSelector → ℕ ×ₗ ℕ
  | .messageText part => toLex (0, part)
  | .toolResultText => toLex (1, 0)
  | .reasoningText part => toLex (2, part)

def sortOverlays (overlays : List ContextTextOverlay) : List ContextTextOverlay :=
  overlays.insertionSort fun left right => left.selector.rank ≤ right.selector.rank

def setOverlay (occurrence : Occurrence Hash) (selector : ContextTextSelector) (text : String) :
    Except ContextError (Occurrence Hash) := do
  let original ← okOr (textBody occurrence.item selector) .invalidReference
  let others := occurrence.overlays.filter (·.selector ≠ selector)
  let overlays := if original ≠ text then others ++ [⟨selector, text⟩] else others
  return { occurrence with overlays := sortOverlays overlays }

/-! Reading a body after writing one. -/

variable {part : ℕ} {old : String} {selector : ContextTextSelector} {overlay : ContextTextOverlay}
  {overlays : List ContextTextOverlay}

theorem partText_setPartText {accepts : Value → Bool} {parts : List Value}
    (found : partText accepts parts part = some old)
    (kind : ∀ value new, accepts (Value.setIndex value "text" new) = accepts value) (text : String)
    (other : ℕ) : partText accepts (setPartText parts part text) other =
      if other = part then some text else partText accepts parts other := by
  by_cases same : other = part
  · obtain ⟨value, kept, body⟩ := Option.bind_eq_some_iff.mp found
    obtain ⟨here, accepted⟩ := Option.filter_eq_some_iff.mp kept
    have present : value.index "text" ≠ .null := by
      intro missing
      simp [missing, Value.asStr] at body
    simp [same, partText, setPartText, here, Option.filter, kind, accepted,
      Value.index_setIndex_self present, Value.asStr]
  · simp [partText, setPartText, same, Ne.symm same]

theorem isMessageText_setIndex (value new : Value) :
    isMessageText (value.setIndex "text" new) = isMessageText value := by
  simp only [isMessageText, Value.index_setIndex_ne (by decide : "type" ≠ "text")]

theorem isReasoningText_setIndex (value new : Value) :
    isReasoningText (value.setIndex "text" new) = isReasoningText value := by
  simp only [isReasoningText, Value.index_setIndex_ne (by decide : "type" ≠ "text")]

/-- The item after one body was set: that body reads as set, the others as before. -/
def Sets (item : Value) (selector : ContextTextSelector) (text : String) (edited : Value) : Prop :=
  ∀ other, textBody edited other = if other = selector then some text else textBody item other

theorem sets_messageText {item : Value} (found : textBody item (.messageText part) = some old)
    (text : String) :
    ∃ edited, setTextBody item (.messageText part) text = .ok edited ∧
      Sets item (.messageText part) text edited := by
  have message : item.index "type" = .string "message" ∧
      (item.index "role" = .string "user" ∨ item.index "role" = .string "assistant") := by
    by_contra other
    simp [textBody, other] at found
  have body : messageText (item.index "content") part = some old := by
    simpa [textBody, message] using found
  have present : item.index "content" ≠ .null := by
    intro missing
    simp [missing, messageText] at body
  have written (new : Value)
      (reads : ∀ other, messageText new other =
        if other = part then some text else messageText (item.index "content") other) :
      Sets item (.messageText part) text (item.setIndex "content" new) := by
    intro other
    cases other with
    | messageText other =>
      simp [textBody, Value.index_setIndex_ne, Value.index_setIndex_self present, message, reads]
    | reasoningText other => simp [textBody, Value.index_setIndex_ne, message]
    | toolResultText => simp [textBody, Value.index_setIndex_ne, message]
  cases content : item.index "content" with
  | string whole =>
    have first : part = 0 := by
      by_contra later
      simp [content, messageText, later] at body
    refine ⟨_, by simp [setTextBody, found, content, okOr]; rfl, written _ ?_⟩
    intro other
    by_cases same : other = part <;> simp_all [messageText]
  | array parts =>
    rw [content] at body
    refine ⟨_, by simp [setTextBody, found, content, okOr]; rfl, written _ ?_⟩
    intro other
    rw [content]
    exact partText_setPartText body isMessageText_setIndex text other
  | _ => simp [content, messageText] at body

theorem sets_reasoningText {item : Value} (found : textBody item (.reasoningText part) = some old)
    (text : String) :
    ∃ edited, setTextBody item (.reasoningText part) text = .ok edited ∧
      Sets item (.reasoningText part) text edited := by
  have reasoning : item.index "type" = .string "reasoning" := by
    by_contra other
    simp [textBody, other] at found
  obtain ⟨parts, content, body⟩ : ∃ parts, item.index "content" = .array parts ∧
      partText isReasoningText parts part = some old := by
    simpa [textBody, reasoning, Option.bind_eq_some_iff] using found
  have present : item.index "content" ≠ .null := by simp [content]
  refine ⟨_, by simp [setTextBody, found, content, okOr]; rfl, ?_⟩
  intro other
  cases other with
  | messageText other => simp [textBody, Value.index_setIndex_ne, reasoning]
  | toolResultText => simp [textBody, Value.index_setIndex_ne, reasoning]
  | reasoningText other =>
    have read := partText_setPartText body isReasoningText_setIndex text other
    simp [textBody, Value.index_setIndex_ne, Value.index_setIndex_self present, reasoning,
      Value.asArray, read, content]

theorem sets_toolResultText {item : Value} (found : textBody item .toolResultText = some old)
    (text : String) :
    ∃ edited, setTextBody item .toolResultText text = .ok edited ∧
      Sets item .toolResultText text edited := by
  have result : item.index "type" = .string "function_call_output" ∨
      item.index "type" = .string "custom_tool_call_output" := by
    by_contra other
    simp [textBody, other] at found
  have body : (item.index "output").asStr = some old := by
    simpa [textBody, result] using found
  have present : item.index "output" ≠ .null := by
    intro missing
    simp [missing, Value.asStr] at body
  refine ⟨_, by simp [setTextBody, found, okOr]; rfl, ?_⟩
  intro other
  cases other with
  | messageText other =>
    rcases result with result | result <;> simp [textBody, Value.index_setIndex_ne, result]
  | reasoningText other =>
    rcases result with result | result <;> simp [textBody, Value.index_setIndex_ne, result]
  | toolResultText =>
    simp [textBody, Value.index_setIndex_ne, Value.index_setIndex_self present, result, Value.asStr]

theorem textBody_removeKey (item : Value) (selector : ContextTextSelector) :
    textBody (item.removeKey "output_format") selector = textBody item selector := by
  cases selector <;> simp [textBody, Value.index_removeKey_ne]

theorem setTextBody_sets {item : Value} (found : textBody item selector = some old) (text : String) :
    ∃ edited, setTextBody item selector text = .ok edited ∧ Sets item selector text edited := by
  cases selector with
  | messageText part => exact sets_messageText found text
  | toolResultText => exact sets_toolResultText found text
  | reasoningText part => exact sets_reasoningText found text

theorem projectBody_sets {item : Value} (found : textBody item overlay.selector = some old) :
    ∃ edited, projectBody item overlay = .ok edited ∧
      Sets item overlay.selector overlay.text edited := by
  obtain ⟨edited, set, reads⟩ := setTextBody_sets found overlay.text
  by_cases result : overlay.selector = .toolResultText
  · refine ⟨edited.removeKey "output_format", ?_, ?_⟩
    · simpa [projectBody, result] using ⟨edited, result ▸ set, rfl⟩
    intro other
    rw [textBody_removeKey]
    exact reads other
  · exact ⟨edited, by simp [projectBody, set, result], reads⟩

/-! The overlays as a map from selectors to texts. -/

/-- The text of the first overlay on a selector. -/
def textSet (overlays : List ContextTextOverlay) (selector : ContextTextSelector) : Option String :=
  (overlays.find? (·.selector = selector)).map (·.text)

/-- What a selector reads: its overlay, and otherwise the body of the item. -/
def overlaidText (item : Value) (overlays : List ContextTextOverlay)
    (selector : ContextTextSelector) : Option String :=
  (textSet overlays selector).or (textBody item selector)

/-- Stored overlays stand in selector order, one for each selector, and each changes a body. -/
structure Canonical (item : Value) (overlays : List ContextTextOverlay) : Prop where
  ordered : overlays.Pairwise fun left right => left.selector.rank < right.selector.rank
  changes : ∀ overlay ∈ overlays, ∃ original,
    textBody item overlay.selector = some original ∧ original ≠ overlay.text

theorem canonical_nil (item : Value) : Canonical item [] where
  ordered := List.Pairwise.nil
  changes := by simp

def Distinct (overlays : List ContextTextOverlay) : Prop :=
  (overlays.map ContextTextOverlay.selector).Nodup

theorem Canonical.distinct {item : Value} (canonical : Canonical item overlays) : Distinct overlays := by
  refine List.pairwise_map.mpr (canonical.ordered.imp ?_)
  intro left right before same
  exact before.ne (congrArg _ same)

theorem rank_injective : Function.Injective ContextTextSelector.rank := by
  intro left right same
  cases left <;> cases right <;> simp_all [ContextTextSelector.rank]

@[simp] theorem textSet_nil (selector : ContextTextSelector) : textSet [] selector = none := rfl

theorem textSet_cons (overlay : ContextTextOverlay) (rest : List ContextTextOverlay)
    (selector : ContextTextSelector) :
    textSet (overlay :: rest) selector =
      if overlay.selector = selector then some overlay.text else textSet rest selector := by
  by_cases same : overlay.selector = selector <;> simp [textSet, same]

theorem textSet_append (first second : List ContextTextOverlay) (selector : ContextTextSelector) :
    textSet (first ++ second) selector = (textSet first selector).or (textSet second selector) := by
  induction first with
  | nil => rfl
  | cons overlay rest ih =>
    rw [List.cons_append, textSet_cons, textSet_cons, ih]
    by_cases same : overlay.selector = selector <;> simp [same]

theorem Distinct.textSet_eq_some (distinct : Distinct overlays) {text : String} :
    textSet overlays selector = some text ↔ ⟨selector, text⟩ ∈ overlays := by
  induction overlays with
  | nil => simp
  | cons overlay rest ih =>
    obtain ⟨fresh, tail⟩ := List.nodup_cons.mp distinct
    rw [textSet_cons, List.mem_cons]
    by_cases same : overlay.selector = selector
    · subst same
      have absent : ⟨overlay.selector, text⟩ ∉ rest :=
        fun member => fresh (List.mem_map.mpr ⟨_, member, rfl⟩)
      obtain ⟨selector, shown⟩ := overlay
      simpa [absent] using eq_comm
    · rw [if_neg same, ih tail]
      refine ⟨.inr, fun member => member.resolve_left ?_⟩
      intro equal
      exact same (congrArg ContextTextOverlay.selector equal).symm

theorem mem_sortOverlays :
    overlay ∈ sortOverlays overlays ↔ overlay ∈ overlays :=
  (List.perm_insertionSort _ overlays).mem_iff

theorem sortOverlays_ordered (distinct : Distinct overlays) :
    (sortOverlays overlays).Pairwise fun left right => left.selector.rank < right.selector.rank := by
  have permuted : (sortOverlays overlays).Perm overlays := List.perm_insertionSort _ overlays
  have different : (sortOverlays overlays).Pairwise fun left right => left.selector ≠ right.selector :=
    List.pairwise_map.mp ((permuted.map _).nodup_iff.mpr distinct)
  have sorted : (sortOverlays overlays).Pairwise
      fun left right => left.selector.rank ≤ right.selector.rank := by
    have total : Std.Total fun left right : ContextTextOverlay =>
        left.selector.rank ≤ right.selector.rank := ⟨fun left right => le_total _ _⟩
    have trans : IsTrans ContextTextOverlay fun left right =>
        left.selector.rank ≤ right.selector.rank := ⟨fun _ _ _ => le_trans⟩
    exact List.pairwise_insertionSort _ overlays
  refine (sorted.and different).imp ?_
  intro left right related
  exact lt_of_le_of_ne related.1 fun same => related.2 (rank_injective same)

/-- Canonical overlays are determined by what the selectors read. -/
theorem Canonical.mem_iff {item : Value} (canonical : Canonical item overlays) :
    overlay ∈ overlays ↔ overlaidText item overlays overlay.selector = some overlay.text ∧
      textBody item overlay.selector ≠ some overlay.text := by
  obtain ⟨selector, text⟩ := overlay
  rw [← canonical.distinct.textSet_eq_some, overlaidText]
  cases here : textSet overlays selector with
  | none =>
    simp only [Option.none_or, reduceCtorEq, false_iff]
    exact fun both => both.2 both.1
  | some shown =>
    have member := canonical.distinct.textSet_eq_some.mp here
    obtain ⟨original, body, differs⟩ := canonical.changes _ member
    simp only [Option.some_or, Option.some.injEq]
    refine ⟨fun same => ⟨same, ?_⟩, And.left⟩
    rw [body, ← same]
    exact fun equal => differs (Option.some.inj equal)

theorem Canonical.ext {item : Value} {left right : List ContextTextOverlay}
    (first : Canonical item left) (second : Canonical item right)
    (same : ∀ selector, overlaidText item left selector = overlaidText item right selector) :
    left = right := by
  have members (overlay : ContextTextOverlay) : overlay ∈ left ↔ overlay ∈ right := by
    rw [first.mem_iff, second.mem_iff, same]
  have permuted : left.Perm right :=
    (List.perm_ext_iff_of_nodup first.distinct.of_map second.distinct.of_map).mpr members
  exact permuted.eq_of_pairwise (fun one two _ _ before after => (before.asymm after).elim)
    first.ordered second.ordered

/-! One edit, and the projection of the result. -/

theorem setOverlay_spec {occurrence : Occurrence Hash} {original : String}
    (canonical : Canonical occurrence.item occurrence.overlays)
    (found : textBody occurrence.item selector = some original) (text : String) :
    ∃ overlays, setOverlay occurrence selector text = .ok { occurrence with overlays } ∧
      Canonical occurrence.item overlays ∧
      ∀ other, overlaidText occurrence.item overlays other =
        if other = selector then some text
        else overlaidText occurrence.item occurrence.overlays other := by
  let others := occurrence.overlays.filter (·.selector ≠ selector)
  let edited := if original ≠ text then others ++ [⟨selector, text⟩] else others
  have member (overlay : ContextTextOverlay) : overlay ∈ edited ↔
      overlay ∈ occurrence.overlays ∧ overlay.selector ≠ selector ∨
        overlay = ⟨selector, text⟩ ∧ original ≠ text := by
    by_cases same : original = text <;> simp [edited, others, same]
  have distinct : Distinct edited := by
    have kept : Distinct others := (List.filter_sublist.map _).nodup canonical.distinct
    have fresh : selector ∉ others.map ContextTextOverlay.selector := by
      simp [others]
    by_cases same : original = text
    · simpa [edited, same] using kept
    · simpa [edited, same, Distinct, List.nodup_append] using
        ⟨kept, fun overlay member equal => fresh (equal ▸ List.mem_map_of_mem member)⟩
  have sorted : Distinct (sortOverlays edited) :=
    ((List.perm_insertionSort _ edited).map _).nodup_iff.mpr distinct
  refine ⟨sortOverlays edited, by simp [setOverlay, found, okOr, edited, others], ⟨?_, ?_⟩, ?_⟩
  · exact sortOverlays_ordered distinct
  · intro overlay stored
    rcases (member overlay).mp (mem_sortOverlays.mp stored) with ⟨old, _⟩ | ⟨same, differs⟩
    · exact canonical.changes overlay old
    · exact ⟨original, by rw [same, found], by simpa [same] using differs⟩
  · intro other
    by_cases same : other = selector
    · subst same
      rw [if_pos rfl, overlaidText, found]
      cases here : textSet (sortOverlays edited) other with
      | none =>
        by_cases equal : original = text
        · simp [equal]
        · have stored := mem_sortOverlays.mpr ((member ⟨other, text⟩).mpr (.inr ⟨rfl, equal⟩))
          simp [sorted.textSet_eq_some.mpr stored] at here
      | some shown =>
        have stored := mem_sortOverlays.mp (sorted.textSet_eq_some.mp here)
        rcases (member _).mp stored with ⟨_, different⟩ | ⟨equal, _⟩
        · exact absurd rfl different
        · simpa using equal
    · rw [if_neg same, overlaidText, overlaidText]
      congr 1
      apply Option.ext
      intro shown
      rw [sorted.textSet_eq_some, canonical.distinct.textSet_eq_some, mem_sortOverlays, member]
      simp [same]

theorem projectFrom_reads {item : Value} {seen : List ContextTextSelector}
    (distinct : Distinct overlays) (unseen : ∀ overlay ∈ overlays, overlay.selector ∉ seen)
    (bodies : ∀ overlay ∈ overlays, ∃ old, textBody item overlay.selector = some old) :
    ∃ projected, projectFrom item seen overlays = .ok projected ∧
      ∀ selector, textBody projected selector = overlaidText item overlays selector := by
  induction overlays generalizing item seen with
  | nil => exact ⟨item, rfl, fun _ => rfl⟩
  | cons overlay rest ih =>
    obtain ⟨fresh, tail⟩ := List.nodup_cons.mp distinct
    obtain ⟨old, found⟩ := bodies overlay List.mem_cons_self
    obtain ⟨edited, set, reads⟩ := projectBody_sets found
    have different : ∀ other ∈ rest, other.selector ≠ overlay.selector :=
      fun other member same => fresh (same ▸ List.mem_map_of_mem member)
    have later : ∀ other ∈ rest, other.selector ∉ overlay.selector :: seen := by
      intro other member
      simpa [different other member] using unseen other (List.mem_cons_of_mem _ member)
    have kept : ∀ other ∈ rest, ∃ old, textBody edited other.selector = some old := by
      intro other member
      rw [reads other.selector, if_neg (different other member)]
      exact bodies other (List.mem_cons_of_mem _ member)
    obtain ⟨projected, rests, shows⟩ := ih tail later kept
    refine ⟨projected, ?_, ?_⟩
    · simpa [projectFrom, unseen overlay List.mem_cons_self, set] using rests
    · intro selector
      rw [shows, overlaidText, reads, overlaidText, textSet_cons]
      by_cases same : selector = overlay.selector
      · have absent : textSet rest overlay.selector = none := by
          by_contra present
          obtain ⟨text, shown⟩ := Option.ne_none_iff_exists'.mp present
          exact different _ (Distinct.textSet_eq_some tail |>.mp shown) rfl
        simp [same, absent]
      · simp [same, Ne.symm same]

theorem projectBodies_reads {occurrence : Occurrence Hash}
    (canonical : Canonical occurrence.item occurrence.overlays) :
    ∃ projected, projectBodies occurrence = .ok projected ∧
      ∀ selector, textBody projected selector =
        overlaidText occurrence.item occurrence.overlays selector := by
  refine projectFrom_reads canonical.distinct (by simp) ?_
  intro overlay member
  obtain ⟨original, body, _⟩ := canonical.changes overlay member
  exact ⟨original, body⟩

/-! Any number of edits. -/

def setOverlays (occurrence : Occurrence Hash) (edits : List ContextTextOverlay) :
    Except ContextError (Occurrence Hash) :=
  edits.foldlM (fun occurrence edit => setOverlay occurrence edit.selector edit.text) occurrence

/-- What a selector reads after the edits: the last text set, and otherwise what it read. -/
def finalText (occurrence : Occurrence Hash) (edits : List ContextTextOverlay)
    (selector : ContextTextSelector) : Option String :=
  (textSet edits.reverse selector).or (overlaidText occurrence.item occurrence.overlays selector)

theorem setOverlays_spec {occurrence : Occurrence Hash} {edits : List ContextTextOverlay}
    (canonical : Canonical occurrence.item occurrence.overlays)
    (bodies : ∀ edit ∈ edits, (textBody occurrence.item edit.selector).isSome) :
    ∃ overlays, setOverlays occurrence edits = .ok { occurrence with overlays } ∧
      Canonical occurrence.item overlays ∧
      ∀ selector, overlaidText occurrence.item overlays selector =
        finalText occurrence edits selector := by
  induction edits generalizing occurrence with
  | nil => exact ⟨occurrence.overlays, rfl, canonical, fun _ => rfl⟩
  | cons edit rest ih =>
    obtain ⟨original, found⟩ := Option.isSome_iff_exists.mp (bodies edit List.mem_cons_self)
    obtain ⟨overlays, set, stored, reads⟩ := setOverlay_spec canonical found edit.text
    have next : Canonical { occurrence with overlays }.item overlays := stored
    obtain ⟨final, run, kept, shows⟩ := ih next
      (fun other member => bodies other (List.mem_cons_of_mem _ member))
    refine ⟨final, ?_, kept, ?_⟩
    · simpa [setOverlays, set] using run
    · intro selector
      rw [shows, finalText, finalText, reads, List.reverse_cons, textSet_append, textSet_cons]
      by_cases same : selector = edit.selector
      · simp [same]
      · simp [same, Ne.symm same]

theorem setOverlay_eq_ok {occurrence edited : Occurrence Hash} {text : String}
    (set : setOverlay occurrence selector text = .ok edited) :
    edited.item = occurrence.item ∧ (textBody occurrence.item selector).isSome := by
  simp only [setOverlay, bind_eq_ok, okOr_eq_ok, pure_eq_ok] at set
  obtain ⟨original, found, same⟩ := set
  simp [← same, found]

theorem setOverlays_bodies {occurrence edited : Occurrence Hash} {edits : List ContextTextOverlay}
    (run : setOverlays occurrence edits = .ok edited) :
    ∀ edit ∈ edits, (textBody occurrence.item edit.selector).isSome := by
  induction edits generalizing occurrence with
  | nil => simp
  | cons edit rest ih =>
    simp only [setOverlays, List.foldlM_cons, bind_eq_ok] at run
    obtain ⟨next, set, run⟩ := run
    obtain ⟨item, found⟩ := setOverlay_eq_ok set
    have later := ih run
    rw [item] at later
    simpa using ⟨found, later⟩

/-- Edits of text bodies succeed and change only the overlays. The overlays stay canonical,
every body is projected with the last text set for it, and edits that end in the same texts
end in the same overlays. -/
theorem overlay_edits (occurrence : Occurrence Hash) (edits : List ContextTextOverlay)
    (canonical : Canonical occurrence.item occurrence.overlays)
    (bodies : ∀ edit ∈ edits, (textBody occurrence.item edit.selector).isSome) :
    ∃ edited projected, setOverlays occurrence edits = .ok edited ∧
      projectBodies edited = .ok projected ∧
      edited = { occurrence with overlays := edited.overlays } ∧
      Canonical edited.item edited.overlays ∧
      (∀ selector, textBody projected selector = finalText occurrence edits selector) ∧
      ∀ (second : Occurrence Hash) (others : List ContextTextOverlay) (other : Occurrence Hash),
        second.item = occurrence.item → Canonical second.item second.overlays →
        setOverlays second others = .ok other →
        (∀ selector, finalText second others selector = finalText occurrence edits selector) →
        other.overlays = edited.overlays := by
  obtain ⟨overlays, run, kept, shows⟩ := setOverlays_spec canonical bodies
  have edited : Canonical { occurrence with overlays }.item overlays := kept
  obtain ⟨projected, project, reads⟩ := projectBodies_reads edited
  refine ⟨_, projected, run, project, rfl, kept, ?_, ?_⟩
  · intro selector
    rw [reads, shows]
  · intro second others other item stored ran same
    obtain ⟨final, again, canonicalOther, showsOther⟩ :=
      setOverlays_spec stored (setOverlays_bodies ran)
    rw [ran] at again
    cases again
    rw [item] at canonicalOther showsOther
    refine canonicalOther.ext kept ?_
    intro selector
    rw [showsOther, same, shows]

/-- A retained message of two parts. -/
def twoParts : Occurrence ℕ where
  request := "r"
  position := 0
  hash := 0
  item := .object [("content", .array [
      .object [("text", .string "first"), ("type", .string "input_text")],
      .object [("text", .string "second"), ("type", .string "input_text")]]),
    ("role", .string "user"), ("type", .string "message")]
  outputOperation := none
  origin := ⟨"r", 0, 0⟩
  sources := []
  note := false
  overlays := []

/-- The first part is edited twice, and the second gets its own text back. -/
def partEdits : List ContextTextOverlay :=
  [⟨.messageText 1, "b"⟩, ⟨.messageText 0, "a"⟩, ⟨.messageText 1, "second"⟩, ⟨.messageText 0, "c"⟩]

theorem overlay_edits_result :
    ∃ edited projected, setOverlays twoParts partEdits = .ok edited ∧
      projectBodies edited = .ok projected ∧ edited.item = twoParts.item ∧
      edited.overlays = [⟨.messageText 0, "c"⟩] ∧
      textBody projected (.messageText 0) = some "c" ∧
      textBody projected (.messageText 1) = some "second" := by
  obtain ⟨edited, projected, run, project, same, -, shows, only⟩ :=
    overlay_edits twoParts partEdits (canonical_nil _) (by decide)
  have once : setOverlays twoParts [⟨.messageText 0, "c"⟩] =
      .ok { twoParts with overlays := [⟨.messageText 0, "c"⟩] } := by rfl
  have alike (selector : ContextTextSelector) :
      finalText twoParts [⟨.messageText 0, "c"⟩] selector =
        finalText twoParts partEdits selector := by
    rcases selector with (_ | _ | part) | part | _ <;> rfl
  refine ⟨edited, projected, run, project, same ▸ rfl, ?_, ?_, ?_⟩
  · exact (only twoParts _ _ rfl (canonical_nil _) once alike).symm
  · rw [shows]
    rfl
  · rw [shows]
    rfl

end ExomonadHarness.Store
