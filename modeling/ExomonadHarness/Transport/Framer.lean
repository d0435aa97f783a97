import ExomonadHarness.Support.Chunks
import ExomonadHarness.Transport.Types

/-! The framer of server-sent events. An event may hold several `data:` lines and
span arbitrary network chunks. -/

namespace ExomonadHarness.Transport

structure FramedEvent where
  data : String
  eventName : Option String
  deriving DecidableEq

structure SseFramer where
  line : List UInt8 := []
  data : List String := []
  eventName : Option String := none
  skipLf : Bool := false
  deriving DecidableEq

/-- The safeguard against a single runaway line. -/
def lineLimit : ℕ := 1024 * 1024

def carriageReturn : UInt8 := 13
def lineFeed : UInt8 := 10

/-- `line.split_once(':')`, or the whole line with an empty value. -/
def splitField (line : List Char) : List Char × List Char :=
  (line.takeWhile (· != ':'), (line.dropWhile (· != ':')).drop 1)

/-- `value.strip_prefix(' ')`. -/
def stripSpace : List Char → List Char
  | ' ' :: rest => rest
  | value => value

namespace SseFramer

/-- A blank line takes the event name, also when there is no data to deliver. -/
def endBlock (framer : SseFramer) : SseFramer × Option FramedEvent :=
  if framer.data.isEmpty then ({ framer with eventName := none }, none)
  else
    ({ framer with data := [], eventName := none },
      some { data := "\n".intercalate framer.data, eventName := framer.eventName })

def addField (framer : SseFramer) (line : List Char) : SseFramer :=
  let (field, value) := splitField line
  let value := String.ofList (stripSpace value)
  if field = "data".toList then { framer with data := framer.data ++ [value] }
  else if field = "event".toList then { framer with eventName := some value }
  else framer

/-- The bytes of a refused line are kept. -/
def endLine (framer : SseFramer) : SseFramer × Except TransportError (Option FramedEvent) :=
  match String.fromUTF8? ⟨framer.line.toArray⟩ with
  | none => (framer, .error (.stream "invalid SSE UTF-8"))
  | some line =>
    let (ended, event) :=
      if line.isEmpty then framer.endBlock else (framer.addField line.toList, none)
    ({ ended with line := [] }, .ok event)

/-- One byte of `push`: a line feed that completes a `CRLF` is passed over. -/
def scan (framer : SseFramer) (byte : UInt8) :
    SseFramer × Except TransportError (Option FramedEvent) :=
  if framer.skipLf ∧ byte = lineFeed then ({ framer with skipLf := false }, .ok none)
  else if byte = carriageReturn ∨ byte = lineFeed then
    { framer with skipLf := decide (byte = carriageReturn) }.endLine
  else
    let framer := { framer with line := framer.line ++ [byte], skipLf := false }
    if lineLimit < framer.line.length then (framer, .error (.stream "SSE line too large"))
    else (framer, .ok none)

/-- Earlier frames are kept when a later line of the same chunk is malformed. -/
def push (framer : SseFramer) (chunk : List UInt8) :
    SseFramer × List FramedEvent × Option TransportError :=
  Chunks.push scan framer chunk

end SseFramer

end ExomonadHarness.Transport
