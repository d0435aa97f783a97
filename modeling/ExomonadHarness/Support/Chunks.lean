import Mathlib

/-! Reading a sequence that arrives in chunks. A scanner turns each symbol into
at most one frame, a consumer takes the frames of a chunk one by one and may stop
the reading. What is read depends on the symbols and not on where they are cut. -/

namespace ExomonadHarness.Chunks

variable {Symbol Frame Failure Scanner State Output Result : Type}

section Scanning

variable (scan : Scanner → Symbol → Scanner × Except Failure (Option Frame))

/-- The frames of a chunk, up to its first failure. -/
def push (scanner : Scanner) : List Symbol → Scanner × List Frame × Option Failure
  | [] => (scanner, [], none)
  | symbol :: rest =>
    match scan scanner symbol with
    | (next, .error failure) => (next, [], some failure)
    | (next, .ok frame) =>
      let (last, frames, failure) := push next rest
      (last, frame.toList ++ frames, failure)

/-- The frames of a sequence of chunks, up to the first failure. -/
def pushAll (scanner : Scanner) : List (List Symbol) → Scanner × List Frame × Option Failure
  | [] => (scanner, [], none)
  | chunk :: chunks =>
    match push scan scanner chunk with
    | (next, frames, some failure) => (next, frames, some failure)
    | (next, frames, none) =>
      let (last, later, failure) := pushAll next chunks
      (last, frames ++ later, failure)

theorem push_append (scanner : Scanner) (first second : List Symbol) :
    push scan scanner (first ++ second) =
      match push scan scanner first with
      | (next, frames, some failure) => (next, frames, some failure)
      | (next, frames, none) =>
        let (last, later, failure) := push scan next second
        (last, frames ++ later, failure) := by
  induction first generalizing scanner with
  | nil => simp [push]
  | cons symbol rest ih =>
    rcases scanned : scan scanner symbol with ⟨next, failure | frame⟩
    · simp [push, scanned]
    · rcases pushed : push scan next rest with ⟨last, frames, failure | failure⟩
      · simp [push, scanned, ih, pushed]
      · simp [push, scanned, ih, pushed]

/-- What is framed does not depend on where the sequence is cut. -/
theorem pushAll_eq_push (scanner : Scanner) (chunks : List (List Symbol)) :
    pushAll scan scanner chunks = push scan scanner chunks.flatten := by
  induction chunks generalizing scanner with
  | nil => rfl
  | cons chunk chunks ih =>
    rw [List.flatten_cons, push_append, pushAll]
    simp only [ih]

end Scanning

section Consuming

variable (take : State → Frame → State × List Output × Option Result)

/-- The outputs of the frames, up to the one at which the consumer stops. -/
def consume (state : State) : List Frame → State × List Output × Option Result
  | [] => (state, [], none)
  | frame :: rest =>
    match take state frame with
    | (next, outputs, some result) => (next, outputs, some result)
    | (next, outputs, none) =>
      let (last, later, result) := consume next rest
      (last, outputs ++ later, result)

theorem consume_append (state : State) (first second : List Frame) :
    consume take state (first ++ second) =
      match consume take state first with
      | (next, outputs, some result) => (next, outputs, some result)
      | (next, outputs, none) =>
        let (last, later, result) := consume take next second
        (last, outputs ++ later, result) := by
  induction first generalizing state with
  | nil => rfl
  | cons frame rest ih =>
    rcases taken : take state frame with ⟨next, outputs, result | result⟩
    · rcases consumed : consume take next rest with ⟨last, later, result | result⟩
      · simp [consume, taken, ih, consumed]
      · simp [consume, taken, ih, consumed]
    · simp [consume, taken]

end Consuming

section Reading

variable (scan : Scanner → Symbol → Scanner × Except Failure (Option Frame))
  (take : State → Frame → State × List Output × Option Result)
  (fail : Failure → Result) (finish : State → Result)

/-- Each chunk is scanned, its frames are consumed, and only then does a failure of
the scan end the reading. The end of the sequence finishes it. -/
def read (scanner : Scanner) (state : State) : List (List Symbol) → Result × List Output
  | [] => (finish state, [])
  | chunk :: chunks =>
    let (scanned, frames, failure) := push scan scanner chunk
    match consume take state frames, failure with
    | (_, outputs, some result), _ => (result, outputs)
    | (_, outputs, none), some failure => (fail failure, outputs)
    | (next, outputs, none), none =>
      let (result, later) := read scanned next chunks
      (result, outputs ++ later)

/-- An empty chunk is passed over. -/
theorem read_nil_cons (scanner : Scanner) (state : State) (chunks : List (List Symbol)) :
    read scan take fail finish scanner state ([] :: chunks) =
      read scan take fail finish scanner state chunks := by
  simp [read, push, consume]

/-- Cutting off the first symbol of a chunk changes nothing. -/
theorem read_cons_cons (scanner : Scanner) (state : State) (symbol : Symbol)
    (chunk : List Symbol) (chunks : List (List Symbol)) :
    read scan take fail finish scanner state ((symbol :: chunk) :: chunks) =
      read scan take fail finish scanner state ([symbol] :: chunk :: chunks) := by
  rcases scanned : scan scanner symbol with ⟨next, failure | frame⟩
  · simp [read, push, scanned, consume]
  · rcases pushed : push scan next chunk with ⟨last, frames, failure⟩
    rcases consumed : consume take state frame.toList with ⟨middle, outputs, result | result⟩
    · rcases rest : consume take middle frames with ⟨final, later, result | result⟩
      · cases failure <;> simp [read, push, scanned, pushed, consume_append, consumed, rest]
      · simp [read, push, scanned, pushed, consume_append, consumed, rest]
    · simp [read, push, scanned, pushed, consume_append, consumed]

/-- Every reading is the reading of the symbols one at a time. -/
theorem read_eq_symbols (scanner : Scanner) (state : State) (chunks : List (List Symbol)) :
    read scan take fail finish scanner state chunks =
      read scan take fail finish scanner state (chunks.flatten.map fun symbol => [symbol]) := by
  induction chunks generalizing scanner state with
  | nil => rfl
  | cons chunk chunks ih =>
    induction chunk generalizing scanner state with
    | nil => simpa [read_nil_cons] using ih scanner state
    | cons symbol chunk chunkRead =>
      rw [read_cons_cons]
      simp only [List.flatten_cons, List.cons_append, List.map_cons] at chunkRead ⊢
      rw [read, read]
      simp only [chunkRead]

theorem read_congr (scanner : Scanner) (state : State) (first second : List (List Symbol))
    (same : first.flatten = second.flatten) :
    read scan take fail finish scanner state first =
      read scan take fail finish scanner state second := by
  rw [read_eq_symbols scan take fail finish scanner state first, same,
    ← read_eq_symbols scan take fail finish scanner state second]

end Reading

end ExomonadHarness.Chunks
