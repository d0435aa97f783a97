import ExomonadHarness.Transport.Framer

/-! The framer meets the reference grammar of server-sent events, which reads the
stream as a whole: newlines are normalized, the lines are cut into blocks at the blank
ones, and every ended block with a data field is one event. -/

namespace ExomonadHarness.Transport

/-- Every `CRLF` and every lone `CR` becomes a line feed. -/
def normalizeNewlines : List UInt8 → List UInt8
  | [] => []
  | [byte] => [if byte = carriageReturn then lineFeed else byte]
  | byte :: next :: rest =>
    if byte = carriageReturn ∧ next = lineFeed then lineFeed :: normalizeNewlines rest
    else (if byte = carriageReturn then lineFeed else byte) :: normalizeNewlines (next :: rest)

/-- The lines of a stream, the last one not ended. -/
def streamLines (bytes : List UInt8) : List (List UInt8) :=
  (normalizeNewlines bytes).splitOnP (· == lineFeed)

def lineText (line : List UInt8) : Option String :=
  String.fromUTF8? ⟨line.toArray⟩

/-- The value of a line that is a field of this name: nothing behind the name, or what follows
a colon and at most one space. -/
def fieldValue (name line : String) : Option String :=
  if line = name then some ""
  else if (name ++ ": ").toList <+: line.toList then
    some (String.ofList (line.toList.drop (name.length + 2)))
  else if (name ++ ":").toList <+: line.toList then
    some (String.ofList (line.toList.drop (name.length + 1)))
  else none

/-- The event of a block of lines, if the block has a data field. -/
def blockEvent (block : List String) : Option FramedEvent :=
  if block.filterMap (fieldValue "data") = [] then none
  else
    some {
      data := "\n".intercalate (block.filterMap (fieldValue "data"))
      eventName := (block.filterMap (fieldValue "event")).getLast? }

/-- The blocks that a blank line ends. -/
def endedBlocks (lines : List String) : List (List String) :=
  (lines.splitOnP (·.isEmpty)).dropLast

def referenceEvents (bytes : List UInt8) : List FramedEvent :=
  (endedBlocks ((streamLines bytes).dropLast.map fun line => (lineText line).getD "")).filterMap
    blockEvent

/-- The ended lines are UTF-8, and no line is too long. -/
structure Framable (bytes : List UInt8) : Prop where
  decoded : ∀ line ∈ (streamLines bytes).dropLast, (lineText line).isSome
  bounded : ∀ line ∈ streamLines bytes, line.length ≤ lineLimit

/-- The newlines behind a byte that was a `CR` or not. -/
def newlines : Bool → List UInt8 → List UInt8
  | _, [] => []
  | afterCr, byte :: rest =>
    if afterCr ∧ byte = lineFeed then newlines false rest
    else if byte = carriageReturn then lineFeed :: newlines true rest
    else byte :: newlines false rest

theorem newlines_after {byte : UInt8} (rest : List UInt8) (other : byte ≠ lineFeed) :
    newlines true (byte :: rest) = newlines false (byte :: rest) := by
  simp [newlines, other]

theorem normalizeNewlines_eq (bytes : List UInt8) :
    normalizeNewlines bytes = newlines false bytes := by
  induction bytes using normalizeNewlines.induct with
  | case1 => rfl
  | case2 byte =>
    by_cases returned : byte = carriageReturn <;> simp [normalizeNewlines, newlines, returned]
  | case3 byte next rest broken ih =>
    obtain ⟨rfl, rfl⟩ := broken
    simp [normalizeNewlines, newlines, ih]
  | case4 byte next rest unbroken ih =>
    rw [normalizeNewlines, if_neg unbroken, ih]
    by_cases returned : byte = carriageReturn
    · have other : next ≠ lineFeed := by
        intro same
        exact unbroken ⟨returned, same⟩
      rw [← newlines_after rest other]
      simp [newlines, returned]
    · simp [newlines, returned]

theorem newlines_no_return (afterCr : Bool) (bytes : List UInt8) :
    carriageReturn ∉ newlines afterCr bytes := by
  induction bytes generalizing afterCr with
  | nil => simp [newlines]
  | cons byte rest ih =>
    rw [newlines]
    split
    · exact ih false
    · split
      · have other : carriageReturn ≠ lineFeed := by decide
        simp [ih, other]
      · rename_i other
        simp [ih, Ne.symm other]

namespace SseFramer

/-- The end of a line leaves the flag alone. -/
theorem endLine_skipLf (framer : SseFramer) (skipLf : Bool) :
    { framer with skipLf }.endLine = ({ framer.endLine.1 with skipLf }, framer.endLine.2) := by
  unfold endLine
  dsimp only
  split
  · rfl
  · split
    · simp only [endBlock]
      split <;> rfl
    · simp only [addField]
      split
      · rfl
      · split <;> rfl

/-- The framer of a stream whose newlines are line feeds. -/
def plain (framer : SseFramer) : SseFramer := { framer with skipLf := false }

theorem scan_passed {framer : SseFramer} (returned : framer.skipLf = true) :
    framer.scan lineFeed = (framer.plain, .ok none) := by
  simp [scan, returned, plain]

theorem scan_return (framer : SseFramer) :
    framer.scan carriageReturn =
      ({ framer.plain.endLine.1 with skipLf := true }, framer.plain.endLine.2) := by
  have other : carriageReturn ≠ lineFeed := by decide
  simp only [scan, other, and_false, ↓reduceIte, true_or, decide_true]
  rw [← endLine_skipLf]
  rfl

theorem plain_scan_feed (framer : SseFramer) :
    framer.plain.scan lineFeed = framer.plain.endLine := by
  have other : lineFeed ≠ carriageReturn := by decide
  simp [scan, plain, other]

theorem plain_endLine (framer : SseFramer) : framer.plain.endLine.1.plain = framer.plain.endLine.1 := by
  have same := endLine_skipLf framer.plain false
  exact (congrArg Prod.fst same).symm

/-- A byte that does not complete a `CRLF` is scanned as behind no `CR`. -/
theorem scan_plain {framer : SseFramer} {byte : UInt8}
    (fresh : ¬ (framer.skipLf = true ∧ byte = lineFeed)) :
    framer.scan byte = framer.plain.scan byte := by
  simp only [scan, fresh, ↓reduceIte, plain, Bool.false_eq_true, false_and]
  rfl

theorem plain_scan_flag (framer : SseFramer) {byte : UInt8} (other : byte ≠ carriageReturn) :
    (framer.plain.scan byte).1.plain = (framer.plain.scan byte).1 := by
  by_cases fed : byte = lineFeed
  · rw [fed, plain_scan_feed, plain_endLine]
  · simp only [scan, fed, other, and_false, or_self, ↓reduceIte]
    split <;> rfl

/-- The framer reads a stream as the one with its newlines normalized. -/
theorem push_newlines (framer : SseFramer) (bytes : List UInt8) :
    (framer.push bytes).2 = (framer.plain.push (newlines framer.skipLf bytes)).2 := by
  induction bytes generalizing framer with
  | nil => rfl
  | cons byte rest ih =>
    rw [newlines]
    split
    case isTrue passed =>
      obtain ⟨returned, rfl⟩ := passed
      have step := ih framer.plain
      have plain_twice : framer.plain.plain = framer.plain := rfl
      have unset : framer.plain.skipLf = false := rfl
      rw [plain_twice, unset] at step
      simp only [push] at step
      simp only [push, Chunks.push, scan_passed returned, step]
      rfl
    case isFalse fresh =>
      split
      case isTrue returned =>
        subst returned
        simp only [push, Chunks.push, scan_return, plain_scan_feed]
        rcases ended : framer.plain.endLine with ⟨next, failure | event⟩
        · rfl
        · have flag := plain_endLine framer
          rw [ended] at flag
          have step := ih { next with skipLf := true }
          have same : ({ next with skipLf := true } : SseFramer).plain = next := flag
          rw [same] at step
          simp only [push] at step
          simp only [step]
      case isFalse other =>
        have flag := plain_scan_flag framer other
        simp only [push, Chunks.push, scan_plain fresh]
        rcases scanned : framer.plain.scan byte with ⟨next, failure | event⟩
        · rfl
        · rw [scanned] at flag
          have step := ih next
          have unset : next.skipLf = false := (congrArg SseFramer.skipLf flag).symm
          rw [flag, unset] at step
          simp only [push] at step
          simp only [step]

theorem splitField_alone {name : List Char} (plain : ':' ∉ name) : splitField name = (name, []) := by
  have all : ∀ letter ∈ name, (letter != ':') = true := by
    intro letter member
    exact bne_iff_ne.mpr fun same => plain (same ▸ member)
  simp [splitField, List.takeWhile_eq_self_iff.mpr all, List.dropWhile_eq_nil_iff.mpr all]

theorem splitField_colon {name : List Char} (plain : ':' ∉ name) (value : List Char) :
    splitField (name ++ ':' :: value) = (name, value) := by
  have all : ∀ letter ∈ name, (letter != ':') = true := by
    intro letter member
    exact bne_iff_ne.mpr fun same => plain (same ▸ member)
  simp [splitField, List.takeWhile_append_of_pos all, List.dropWhile_append_of_pos all]

/-- A line is its name, or has a colon behind it. -/
theorem splitField_cases (line : List Char) :
    line = (splitField line).1 ∨ line = (splitField line).1 ++ ':' :: (splitField line).2 := by
  have whole := List.takeWhile_append_dropWhile (p := (· != ':')) (l := line)
  rcases tail : line.dropWhile (· != ':') with _ | ⟨letter, value⟩
  · rw [tail, List.append_nil] at whole
    exact .inl whole.symm
  · have colon := List.head?_dropWhile_not (· != ':') line
    rw [tail] at colon whole
    obtain rfl : letter = ':' := by simpa using colon
    rw [splitField, tail]
    exact .inr whole.symm

/-- A name without a colon is what the framer splits off. -/
theorem fieldValue_eq {name : String} (plain : ':' ∉ name.toList) (line : String) :
    fieldValue name line = if (splitField line.toList).1 = name.toList then
      some (String.ofList (stripSpace (splitField line.toList).2)) else none := by
  have colon (value : List Char) (same : line.toList = name.toList ++ ':' :: value) :
      splitField line.toList = (name.toList, value) := same ▸ splitField_colon plain value
  by_cases named : (splitField line.toList).1 = name.toList
  · have whole := splitField_cases line.toList
    rw [named] at whole
    rw [if_pos named]
    rcases whole with alone | valued
    · rw [fieldValue, if_pos (String.toList_injective alone), alone, splitField_alone plain]
      rfl
    · generalize (splitField line.toList).2 = value at valued
      have unlike : line ≠ name := fun same => plain (by rw [← same, valued]; simp)
      have first : (name ++ ":").toList <+: line.toList := ⟨value, by simp [valued]⟩
      have spaced : (name ++ ": ").toList <+: line.toList ↔ [' '] <+: value := by
        have parts : (name ++ ": ").toList = (name.toList ++ [':']) ++ [' '] := by simp
        have known : line.toList = (name.toList ++ [':']) ++ value := by simp [valued]
        rw [parts, known, List.prefix_append_right_inj]
      have tail (count : ℕ) : line.toList.drop (name.length + count) = (':' :: value).drop count := by
        rw [valued, ← String.length_toList, List.drop_length_add_append]
      rw [fieldValue, if_neg unlike, if_pos first, tail, tail]
      split
      case isTrue space =>
        obtain ⟨rest, rfl⟩ := spaced.mp space
        rfl
      case isFalse other =>
        rw [stripSpace.eq_2 value fun rest same => other (spaced.mpr ⟨rest, same.symm⟩)]
        rfl
  · rw [if_neg named, fieldValue, if_neg, if_neg, if_neg]
    · rintro ⟨rest, same⟩
      exact named (by rw [colon rest (by simp [← same])])
    · rintro ⟨rest, same⟩
      exact named (by rw [colon (' ' :: rest) (by simp [← same])])
    · rintro rfl
      exact named (by rw [splitField_alone plain])

/-- The fields that the framer holds are those of the lines of the block so far. -/
structure Holds (framer : SseFramer) (block : List String) : Prop where
  data : framer.data = block.filterMap (fieldValue "data")
  eventName : framer.eventName = (block.filterMap (fieldValue "event")).getLast?
  full : ∀ line ∈ block, line.isEmpty = false

variable {framer : SseFramer} {block : List String}

theorem Holds.addField (holds : framer.Holds block) {line : String} (full : line.isEmpty = false) :
    (framer.addField line.toList).Holds (block ++ [line]) := by
  have fields : "data".toList ≠ "event".toList := by decide
  have data := @fieldValue_eq "data" (by decide) line
  have event := @fieldValue_eq "event" (by decide) line
  have whole : ∀ other ∈ block ++ [line], other.isEmpty = false := by
    intro other member
    rcases List.mem_append.mp member with old | last
    · exact holds.full other old
    · exact List.mem_singleton.mp last ▸ full
  unfold SseFramer.addField
  dsimp only
  split
  case isTrue named =>
    have other : fieldValue "event" line = none := event.trans (if_neg (named ▸ fields))
    refine ⟨?_, ?_, whole⟩
    · simp only [holds.data, List.filterMap_append, List.filterMap_cons, List.filterMap_nil]
      rw [data, if_pos named]
    · simp [holds.eventName, other]
  case isFalse unnamed =>
    have undata : fieldValue "data" line = none := data.trans (if_neg unnamed)
    split
    case isTrue named =>
      have shown : fieldValue "event" line = some _ := event.trans (if_pos named)
      refine ⟨?_, ?_, whole⟩
      · simp [holds.data, undata]
      · simp [shown]
    case isFalse other =>
      have unnamed : fieldValue "event" line = none := event.trans (if_neg other)
      refine ⟨?_, ?_, whole⟩
      · simp [holds.data, undata]
      · simp [holds.eventName, unnamed]

theorem Holds.endBlock (holds : framer.Holds block) :
    framer.endBlock.1.Holds [] ∧ framer.endBlock.2 = blockEvent block := by
  unfold SseFramer.endBlock blockEvent
  rw [← holds.data, ← holds.eventName]
  by_cases empty : framer.data = []
  · simp only [empty, List.isEmpty_nil, ↓reduceIte]
    exact ⟨⟨rfl, rfl, by simp⟩, trivial⟩
  · have shown : framer.data.isEmpty = false := by simpa using empty
    simp only [empty, shown, ↓reduceIte, Bool.false_eq_true]
    exact ⟨⟨rfl, rfl, by simp⟩, trivial⟩

/-- What the end of a decoded line does to the block so far. -/
theorem Holds.endLine (holds : framer.Holds block) {text : String}
    (decoded : lineText framer.line = some text) :
    ∃ next event, framer.endLine = (next, .ok event) ∧ next.line = [] ∧
      next.skipLf = framer.skipLf ∧
      if text.isEmpty = true then next.Holds [] ∧ event = blockEvent block
      else next.Holds (block ++ [text]) ∧ event = none := by
  unfold lineText at decoded
  simp only [SseFramer.endLine, decoded]
  split
  case isTrue blank =>
    obtain ⟨emptied, event⟩ := holds.endBlock
    refine ⟨_, _, rfl, rfl, ?_, ⟨emptied.data, emptied.eventName, emptied.full⟩, event⟩
    simp only [SseFramer.endBlock]
    split <;> rfl
  case isFalse full =>
    have added := holds.addField (by simpa using full)
    refine ⟨_, _, rfl, rfl, ?_, ⟨added.data, added.eventName, added.full⟩, rfl⟩
    simp only [SseFramer.addField]
    split
    · rfl
    · split <;> rfl

/-- The ended blocks of a block so far and the lines that follow. -/
theorem endedBlocks_cons (full : ∀ line ∈ block, line.isEmpty = false) {line : String}
    (lines : List String) :
    endedBlocks (block ++ line :: lines) =
      if line.isEmpty = true then block :: endedBlocks lines
      else endedBlocks (block ++ [line] ++ lines) := by
  split
  case isTrue blank =>
    have first : (block ++ line :: lines).splitOnP (·.isEmpty) =
        block :: lines.splitOnP (·.isEmpty) :=
      List.splitOnP_append_cons_of_forall_mem full line blank lines
    rw [endedBlocks, first, List.dropLast_cons_of_ne_nil (List.splitOnP_ne_nil _ _), endedBlocks]
  case isFalse => simp

/-- The framer reads a stream of line feeds as the reference does. -/
theorem push_lines {bytes : List UInt8} (holds : framer.Holds block)
    (unset : framer.skipLf = false) (feeds : carriageReturn ∉ bytes)
    (decoded : ∀ line ∈ ((bytes.splitOnP (· == lineFeed)).modifyHead (framer.line ++ ·)).dropLast,
      (lineText line).isSome)
    (bounded : ∀ line ∈ (bytes.splitOnP (· == lineFeed)).modifyHead (framer.line ++ ·),
      line.length ≤ lineLimit) :
    (framer.push bytes).2 =
      ((endedBlocks (block ++
        (((bytes.splitOnP (· == lineFeed)).modifyHead (framer.line ++ ·)).dropLast.map
          fun line => (lineText line).getD ""))).filterMap blockEvent, none) := by
  induction bytes generalizing framer block with
  | nil =>
    have single : block.splitOnP (·.isEmpty) = [block] := List.splitOnP_eq_singleton holds.full
    simp [push, Chunks.push, endedBlocks, single]
  | cons byte rest ih =>
    have others : carriageReturn ∉ rest := fun member => feeds (List.mem_cons_of_mem _ member)
    have other : byte ≠ carriageReturn := fun same => feeds (same ▸ List.mem_cons_self)
    obtain ⟨first, later, cut⟩ := List.exists_cons_of_ne_nil
      (List.splitOnP_ne_nil (· == lineFeed) rest)
    by_cases fed : byte = lineFeed
    · subst fed
      simp only [List.splitOnP_cons_eq_if_modifyHead, BEq.rfl, ↓reduceIte, List.modifyHead_cons,
        List.append_nil, List.dropLast_cons_of_ne_nil (List.splitOnP_ne_nil _ _)] at decoded bounded ⊢
      obtain ⟨text, known⟩ := Option.isSome_iff_exists.mp (decoded _ List.mem_cons_self)
      obtain ⟨next, event, ended, emptied, flag, after⟩ := holds.endLine known
      have scanned : framer.scan lineFeed = (next, .ok event) := by
        have same : framer.plain = framer := by simp [plain, ← unset]
        rw [← ended, ← same, plain_scan_feed]
      have whole : (rest.splitOnP (· == lineFeed)).modifyHead (next.line ++ ·) =
          rest.splitOnP (· == lineFeed) := by
        rw [emptied, cut]
        simp
      have step := @ih next
      rw [whole] at step
      have laterDecoded : ∀ line ∈ (rest.splitOnP (· == lineFeed)).dropLast,
          (lineText line).isSome := fun line member => decoded line (List.mem_cons_of_mem _ member)
      have laterBounded : ∀ line ∈ rest.splitOnP (· == lineFeed), line.length ≤ lineLimit :=
        fun line member => bounded line (List.mem_cons_of_mem _ member)
      simp only [push, Chunks.push, scanned, List.map_cons, known, Option.getD_some,
        endedBlocks_cons holds.full] at step ⊢
      split at after
      case isTrue blank =>
        obtain ⟨fresh, rfl⟩ := after
        have read := step fresh (flag.trans unset) others laterDecoded laterBounded
        simp only [read, blank, ↓reduceIte, List.nil_append]
        cases shown : blockEvent block <;> simp [shown]
      case isFalse full =>
        obtain ⟨grown, rfl⟩ := after
        have read := step grown (flag.trans unset) others laterDecoded laterBounded
        rw [if_neg full]
        simp only [read, Option.toList_none, List.nil_append]
    · have plainByte : (byte == lineFeed) = false := by simpa using fed
      simp only [List.splitOnP_cons_eq_if_modifyHead, plainByte, Bool.false_eq_true, ↓reduceIte, cut,
        List.modifyHead_cons] at decoded bounded ⊢
      have short := bounded _ List.mem_cons_self
      have scanned : framer.scan byte =
          ({ framer with line := framer.line ++ [byte], skipLf := false }, .ok none) := by
        have within : ¬ lineLimit < (framer.line ++ [byte]).length := by
          simp only [List.length_append, List.length_cons, List.length_nil] at short ⊢
          omega
        simp only [scan, fed, other, and_false, or_self, ↓reduceIte, within]
      have grown : ({ framer with line := framer.line ++ [byte], skipLf := false } :
          SseFramer).Holds block := ⟨holds.data, holds.eventName, holds.full⟩
      have step := ih grown rfl others
      simp only [cut, List.modifyHead_cons, List.append_assoc, List.singleton_append] at step
      simp only [push, Chunks.push, scanned] at step ⊢
      have read := step decoded bounded
      simp only [read, Option.toList_none, List.nil_append]

end SseFramer

/-- However the network cuts a stream of UTF-8 lines that are not too long, the framer
returns the events of the reference grammar and no failure. -/
theorem framing_meets_grammar (chunks : List (List UInt8)) (framable : Framable chunks.flatten) :
    (Chunks.pushAll SseFramer.scan {} chunks).2 = (referenceEvents chunks.flatten, none) := by
  rw [Chunks.pushAll_eq_push]
  have fresh : ({} : SseFramer).Holds [] := ⟨rfl, rfl, by simp⟩
  have whole : (streamLines chunks.flatten).modifyHead (({} : SseFramer).line ++ ·) =
      streamLines chunks.flatten := by
    cases streamLines chunks.flatten <;> rfl
  have feeds := newlines_no_return false chunks.flatten
  have read := SseFramer.push_newlines {} chunks.flatten
  rw [← normalizeNewlines_eq] at feeds
  have lines := SseFramer.push_lines fresh rfl feeds
  rw [← streamLines, whole] at lines
  have parsed := lines framable.decoded framable.bounded
  rw [← normalizeNewlines_eq] at read
  exact read.trans parsed

/-- Two data lines and a name, ended by `CRLF`, `CR` and `LF`, then an unfinished block. -/
theorem framing_meets_grammar_cut :
    let stream : List (List UInt8) :=
      [[101, 118, 101, 110, 116, 58, 110, 13], [10, 100, 97, 116, 97, 58, 32, 97, 13],
        [100, 97, 116, 97, 10, 13, 10, 100, 97, 116, 97]]
    (Chunks.pushAll SseFramer.scan {} stream).2 = (referenceEvents stream.flatten, none) ∧
      referenceEvents stream.flatten = [{ data := "a\n", eventName := some "n" }] := by
  refine ⟨framing_meets_grammar _ ⟨?_, ?_⟩, ?_⟩
  · decide +kernel
  · decide +kernel
  · decide +kernel

end ExomonadHarness.Transport
