import ExomonadHarness.Agents.Admission
import ExomonadHarness.Json.Text
import ExomonadHarness.Support.Layout

/-! The compactors of `compaction.rs` and the windows they build. -/

namespace ExomonadHarness.Compaction

open Json Checked
open Agents (Effort configurationUpdate)
open Store (Occurrence isConfigurationUpdate)

variable {Hash : Type}

inductive CompactError where
  | failed (reason : String)
  deriving DecidableEq

structure NewWindow (Hash : Type) where
  items : List Value
  effort : Effort
  carried : List String
  retained : List (ℕ × Occurrence Hash)
  generated : List (ℕ × ℕ)

structure CompactionInput (Hash : Type) where
  items : List Value
  occurrences : List (Option (Occurrence Hash))

/-- What a compactor is given; the two last fields are the turns its caller performs. -/
structure CompactContext (Hash : Type) where
  items : List Value
  pendingCalls : List Value
  pendingPositions : List ℕ
  pendingOccurrences : List (Occurrence Hash)
  occurrences : List (Option (Occurrence Hash))
  effort : Effort
  serverCompact : CompactionInput Hash → Except CompactError (List Value)
  textTurn : CompactionInput Hash → Except CompactError (List Value)

def maxRecentUserMessages : ℕ := 8
def maxRecentUserBytes : ℕ := 16 * 1024
def handoffMarker : String := "[plain-text-compaction-v1]"

def typeOf (item : Value) : Option String :=
  (item.get? "type").bind Value.asStr

def roleOf (item : Value) : Option String :=
  (item.get? "role").bind Value.asStr

def isUserMessage (item : Value) : Bool :=
  typeOf item = some "message" && roleOf item = some "user"

def standingInstruction (item : Value) : Bool :=
  typeOf item = some "message" &&
    (roleOf item = some "system" || roleOf item = some "developer")

def isSetting (item : Value) : Bool :=
  typeOf item = some "configuration_update" || typeOf item = some "additional_tools" ||
    typeOf item = some "compaction_trigger"

/-- A tool call or a tool output. -/
def isToolItem (item : Value) : Bool :=
  typeOf item = some "function_call" || typeOf item = some "custom_tool_call" ||
    typeOf item = some "function_call_output" || typeOf item = some "custom_tool_call_output"

def serverKeeps (item : Value) : Bool :=
  !isSetting item && !isUserMessage item && !isToolItem item

def message (role content : String) : Value :=
  .object [("content", .string content), ("role", .string role), ("type", .string "message")]

/-- The text an output part of a message shows. -/
def partText (part : Value) : Option String :=
  if part.index "type" = .string "output_text" then (part.index "text").asStr else none

def joinLines (texts : List String) : String :=
  String.intercalate "\n" texts

def assistantText (item : Value) : Option String :=
  if typeOf item ≠ some "message" ∨ roleOf item ≠ some "assistant" then none
  else
    match item.index "content" with
    | .string text => some text
    | .array parts => some (joinLines (parts.filterMap partText))
    | _ => none

/-- The characters `str::trim` removes: those with the Unicode property `White_Space`. -/
def isWhiteSpace (char : Char) : Bool :=
  let code := char.toNat
  (9 ≤ code && code ≤ 13) || code = 0x20 || code = 0x85 || code = 0xa0 || code = 0x1680 ||
    (0x2000 ≤ code && code ≤ 0x200a) || code = 0x2028 || code = 0x2029 || code = 0x202f ||
    code = 0x205f || code = 0x3000

def trim (text : String) : String :=
  String.ofList ((text.toList.dropWhile isWhiteSpace).rdropWhile isWhiteSpace)

/-- The selected items one after the other; each position once and in range. -/
def selectPositions (cx : CompactContext Hash) (seen : List ℕ) :
    List ℕ → Except CompactError (List (Value × Option (Occurrence Hash)))
  | [] => .ok []
  | position :: rest => do
    require (position ∉ seen) (.failed "invalid compaction input selection")
    let item ← okOr cx.items[position]? (.failed "invalid compaction input selection")
    let selected ← selectPositions cx (position :: seen) rest
    return (item, cx.occurrences[position]?.join) :: selected

def selectInput (cx : CompactContext Hash) (positions : List ℕ) (appended : List Value) :
    Except CompactError (CompactionInput Hash) := do
  let selected ← selectPositions cx [] positions
  return { items := selected.map Prod.fst ++ appended
           occurrences := selected.map Prod.snd ++ List.replicate appended.length none }

/-- The items of a window under construction, and the positions of those with a source. -/
structure Draft (Hash : Type) where
  items : List Value
  retained : List (ℕ × Occurrence Hash)

namespace Draft

def push (draft : Draft Hash) (item : Value) : Draft Hash :=
  { draft with items := draft.items ++ [item] }

def keep (draft : Draft Hash) (source : Option (Occurrence Hash)) (item : Value) : Draft Hash :=
  { items := draft.items ++ [item]
    retained :=
      match source with
      | some source => draft.retained ++ [(draft.items.length, source)]
      | none => draft.retained }

/-- Items of the context, each with its occurrence if it has one. -/
def copy (cx : CompactContext Hash) (draft : Draft Hash) (entries : List (Value × ℕ)) : Draft Hash :=
  entries.foldl (fun draft entry => draft.keep cx.occurrences[entry.2]?.join entry.1) draft

def carry (draft : Draft Hash) (pending : List (Occurrence Hash)) : Draft Hash :=
  pending.foldl (fun draft occurrence => draft.keep (some occurrence) occurrence.item) draft

end Draft

/-- The call ids of the pending calls, each once. -/
def carriedCalls (pendingCalls : List Value) : List String :=
  pendingCalls.foldl (fun carried item =>
    match (item.get? "call_id").bind Value.asStr with
    | some id => if id ∈ carried then carried else carried ++ [id]
    | none => carried) []

def summaryPrompt : Value :=
  message "user" ("Summarize the conversation so the next assistant can continue the work. " ++
    "Include goals, decisions, important evidence, and unresolved tasks. " ++
    "Write plain text only. Do not call tools.")

def handoff (summary : String) : Value :=
  message "developer" (handoffMarker ++ " Earlier conversation summary:\n" ++ summary)

def contextMessage : Value :=
  message "developer" ("[compaction-context-v1] Context was compacted; you are the successor. " ++
    "Summary follows; live state (bindings, worktrees, children) is listed after it.")

/-- A standing instruction that is not an earlier handoff. -/
def lasting (item : Value) : Bool :=
  standingInstruction item &&
    !(item.index "content").asStr.any fun text => handoffMarker.toList.isPrefixOf text.toList

/-- The newest messages that fit, newest first. -/
def recentMessages (double : F64 → String) (count bytes : ℕ) : List (Value × ℕ) → List (Value × ℕ)
  | [] => []
  | entry :: older =>
    let size := (entry.1.compact double).utf8ByteSize
    if count = maxRecentUserMessages || maxRecentUserBytes < bytes + size then []
    else entry :: recentMessages double (count + 1) (bytes + size) older

def userMessages (cx : CompactContext Hash) : List (Value × ℕ) :=
  cx.items.zipIdx.filter fun entry => isUserMessage entry.1

/-- The summary of an accepted response. -/
def summaryOf (response : List Value) : Except CompactError String := do
  require (!response.any isToolItem) (.failed "summary response contained a tool item")
  let summary := joinLines (response.filterMap assistantText)
  require (trim summary ≠ "") (.failed "summary response had no assistant text")
  return summary

/-- `PlainText::compact`. -/
def plainText (double : F64 → String) (cx : CompactContext Hash) :
    Except CompactError (NewWindow Hash) := do
  let positions := (cx.items.zipIdx.map Prod.snd).filter (· ∉ cx.pendingPositions)
  let prompt ← selectInput cx positions [summaryPrompt]
  let response ← cx.textTurn prompt
  let summary ← summaryOf response
  let standing := cx.items.zipIdx.filter fun entry => lasting entry.1
  let recent := (recentMessages double 0 0 (userMessages cx).reverse).reverse
  let draft := ((Draft.copy cx ⟨[], []⟩ standing).push (handoff summary)).copy cx recent
    |>.carry cx.pendingOccurrences
  return { items := draft.items ++ [configurationUpdate cx.effort]
           effort := cx.effort
           carried := carriedCalls cx.pendingCalls
           retained := draft.retained
           generated := [] }

/-- `Server::compact`. -/
def server (cx : CompactContext Hash) : Except CompactError (NewWindow Hash) := do
  let positions := (cx.items.zipIdx.filter fun entry => !isSetting entry.1).map Prod.snd
  let input ← selectInput cx positions [.object [("type", .string "compaction_trigger")]]
  let response ← cx.serverCompact input
  let kept := response.zipIdx.filter fun entry => serverKeeps entry.1
  let draft := (Draft.copy cx ⟨kept.map Prod.fst, []⟩ (userMessages cx)).carry cx.pendingOccurrences
  return { items := contextMessage :: draft.items ++ [configurationUpdate cx.effort]
           effort := cx.effort
           carried := carriedCalls cx.pendingCalls
           retained := draft.retained.map fun pair => (pair.1 + 1, pair.2)
           generated := kept.zipIdx.map fun entry => (entry.2 + 1, entry.1.2) }

end ExomonadHarness.Compaction
