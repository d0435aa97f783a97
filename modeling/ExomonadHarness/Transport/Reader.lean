import ExomonadHarness.Transport.Assembly
import ExomonadHarness.Transport.Framer

/-! The loop that reads a response body. Network chunks are framed, each frame is
given to the assembly, and live events go to the sink as they are accepted. -/

namespace ExomonadHarness.Transport

open Json

/-- How a body ends, when its reader did not stop before. -/
inductive BodyEnd where
  | cleanEof | readFailed
  deriving DecidableEq

/-- What a read answers and what it sent to the sink. -/
abbrev Reading := Except TransportError ResponsesTurn × List StreamEvent

section Reader

variable (fromStr : String → Except String Document) (token account : String)

/-- One frame: an accepted event is sent, a refusal or a completion stops the loop. -/
def takeFrame (assembly : ResponseAssembly) (frame : FramedEvent) :
    ResponseAssembly × List StreamEvent × Option (Except TransportError ResponsesTurn) :=
  match assembly.accept fromStr frame.data token account with
  | (.error error, assembly) => (assembly, [], some (.error error))
  | (.ok event, assembly) =>
    (assembly, event.toList, if assembly.isComplete then some assembly.finish else none)

/-- A failed read of the body is reported only where the assembly is incomplete. -/
def endOfBody (bodyEnd : BodyEnd) (assembly : ResponseAssembly) :
    Except TransportError ResponsesTurn :=
  match bodyEnd with
  | .cleanEof => assembly.finish
  | .readFailed => assembly.finish.mapError fun _ => .incompleteResponse .readFailed

def readResponse (chunks : List (List UInt8)) (bodyEnd : BodyEnd) : Reading :=
  Chunks.read SseFramer.scan (takeFrame fromStr token account) Except.error (endOfBody bodyEnd)
    {} {} chunks

/-- What is read and what is sent depend on the bytes of the body and on how it
ends, however the network cuts it. -/
theorem readResponse_chunking (first second : List (List UInt8)) (bodyEnd : BodyEnd)
    (same : first.flatten = second.flatten) :
    readResponse fromStr token account first bodyEnd =
      readResponse fromStr token account second bodyEnd := by
  unfold readResponse
  apply Chunks.read_congr
  exact same

end Reader

def completionEvent : Value :=
  .object [("response", .object [("id", .string "r")]), ("type", .string "response.completed")]

theorem completionEvent_formed : completionEvent.wellFormed = true := by decide

/-- A parser of the single text `{}é`, read as the completion of response `r`. -/
def completionParser (text : String) : Except String Document :=
  if text = "{}é" then .ok ⟨completionEvent, completionEvent_formed⟩
  else .error "unexpected text"

/-- A completed event and a line that is not UTF-8, cut inside `é` and inside `CRLF`. -/
theorem readResponse_chunking_cut :
    let whole : List (List UInt8) :=
      [[100, 97, 116, 97, 58, 123, 125, 195, 169, 13, 10, 13, 10, 255, 10]]
    let cut : List (List UInt8) :=
      [[100, 97, 116, 97, 58, 123, 125, 195], [], [169, 13], [10, 13], [10, 255], [10]]
    readResponse completionParser "" "" whole .cleanEof =
        readResponse completionParser "" "" cut .cleanEof ∧
      readResponse completionParser "" "" cut .cleanEof =
        (.ok { responseId := "r", items := [], usage := {} }, []) :=
  ⟨readResponse_chunking completionParser "" "" _ _ .cleanEof rfl, by decide +kernel⟩

end ExomonadHarness.Transport
