import ExomonadHarness.Json.Value

/-! What a provider response is assembled into, and how reading one can fail. -/

namespace ExomonadHarness.Transport

open Json

/-- A missing usage establishes no consumption; an observed one keeps its
unrecognized fields. -/
inductive RawUsage where
  | unavailable
  | observed (usage : Value)
  deriving DecidableEq

structure Usage where
  inputTokens : Option ℕ := none
  outputTokens : Option ℕ := none
  cachedTokens : Option ℕ := none
  cacheMissTokens : Option ℕ := none
  cacheWriteTokens : Option ℕ := none
  reasoningTokens : Option ℕ := none
  raw : RawUsage := .unavailable
  deriving DecidableEq

/-- Absent or malformed counters stay unknown. -/
def Usage.fromResponseUsage (response : Value) : Usage :=
  match response.get? "usage" with
  | none => {}
  | some usage =>
    let inputDetails := usage.index "input_tokens_details"
    let outputDetails := usage.index "output_tokens_details"
    { inputTokens := (usage.get? "input_tokens").bind Value.asU64
      outputTokens := (usage.get? "output_tokens").bind Value.asU64
      cachedTokens := (inputDetails.get? "cached_tokens").bind Value.asU64
      cacheMissTokens := (usage.get? "prompt_cache_miss_tokens").bind Value.asU64
      cacheWriteTokens := (inputDetails.get? "cache_write_tokens").bind Value.asU64
      reasoningTokens := (outputDetails.get? "reasoning_tokens").bind Value.asU64
      raw := .observed usage }

/-- The first value that a `u64` cannot hold. -/
def u64Size : ℕ := 2 ^ 64

def saturatingAdd (first second : ℕ) : ℕ := min (first + second) (u64Size - 1)

def Usage.hasReportedTotals (usage : Usage) : Bool :=
  usage.inputTokens.isSome && usage.outputTokens.isSome

/-- A lower bound of the known counters, not a bill. -/
def Usage.knownTokenSubtotal (usage : Usage) : ℕ :=
  (usage.inputTokens.toList ++ usage.outputTokens.toList).foldl saturatingAdd 0

structure HttpDiagnostic where
  code : Option String := none
  errorType : Option String := none
  param : Option String := none
  message : Option String := none
  deriving DecidableEq

inductive IncompleteReason where
  | maxOutputTokens | contentFilter | steered | unknown
  deriving DecidableEq

def IncompleteReason.fromProvider : String → IncompleteReason
  | "max_output_tokens" => maxOutputTokens
  | "content_filter" => contentFilter
  | "steered" => steered
  | _ => unknown

inductive StreamInterruption where
  | missingCompletion | readFailed
  deriving DecidableEq

inductive ProviderStreamFailureEvent where
  | responseFailed | error
  deriving DecidableEq

/-- The failures of reading a response. -/
inductive TransportError where
  | responseIncomplete (responseId : String) (reason : Option IncompleteReason)
  | missingOutputIndex
  | conflictingOutputIndex (index : ℕ)
  | incompleteOutputIndices (index : ℕ)
  | providerStreamFailure (event : ProviderStreamFailureEvent) (diagnostic : Option HttpDiagnostic)
  | stream (message : String)
  | incompleteResponse (interruption : StreamInterruption)
  deriving DecidableEq

/-- A finalized item with its provider-issued output position. -/
structure CompletedOutputItem where
  item : Value
  outputIndex : ℕ
  sequenceNumber : Option ℕ
  deriving DecidableEq

inductive OutputChannel where
  | assistant | reasoningSummary | reasoning | toolArguments | toolInput | refusal
  deriving DecidableEq

inductive StreamEvent where
  | completedItem (item : CompletedOutputItem)
  | delta (itemId : String) (channel : OutputChannel) (index : ℕ) (text : String)
      (toolName : Option String)
  deriving DecidableEq

structure ResponsesTurn where
  responseId : String
  items : List Value
  usage : Usage
  deriving DecidableEq

end ExomonadHarness.Transport
