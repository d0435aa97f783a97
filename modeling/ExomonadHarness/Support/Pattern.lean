import Mathlib

/-! Regular expressions as a text is searched for them: a pattern reads a stretch of
the text between what stands before it and what stands after it. -/

inductive Pattern where
  | literal (text : List Char)
  | range (low high : Char)
  | upTo (part : Pattern) (most : ℕ)
  | times (part : Pattern) (count : ℕ)
  | seq (first second : Pattern)
  | alt (left right : Pattern)
  | group (inner : Pattern)
  | start
  | finish
  | nothingAfter

namespace Pattern

def render : Pattern → String
  | literal text => String.ofList text
  | range low high => "[" ++ toString low ++ "-" ++ toString high ++ "]"
  | upTo part most => part.render ++ "\x7b0," ++ toString most ++ "\x7d"
  | times part count => part.render ++ "\x7b" ++ toString count ++ "\x7d"
  | seq first second => first.render ++ second.render
  | alt left right => left.render ++ "|" ++ right.render
  | group inner => "(?:" ++ inner.render ++ ")"
  | start => "^"
  | finish => "$"
  | nothingAfter => "(?![\\s\\S])"

/-- A number of stretches after one another. -/
def Repeats (reads : List Char → List Char → List Char → Prop) :
    ℕ → List Char → List Char → List Char → Prop
  | 0, _, word, _ => word = []
  | count + 1, before, word, after => ∃ head tail, word = head ++ tail ∧
      reads before head (tail ++ after) ∧ Repeats reads count (before ++ head) tail after

/-- A pattern reads a word between its surroundings. The end of a line may stand before
the last line break of a text. -/
def Reads : Pattern → List Char → List Char → List Char → Prop
  | literal text, _, word, _ => word = text
  | range low high, _, word, _ => ∃ c, word = [c] ∧ low ≤ c ∧ c ≤ high
  | upTo part most, before, word, after =>
    ∃ count ≤ most, Repeats part.Reads count before word after
  | times part count, before, word, after => Repeats part.Reads count before word after
  | seq first second, before, word, after => ∃ head tail, word = head ++ tail ∧
      first.Reads before head (tail ++ after) ∧ second.Reads (before ++ head) tail after
  | alt left right, before, word, after => left.Reads before word after ∨ right.Reads before word after
  | group inner, before, word, after => inner.Reads before word after
  | start, before, word, _ => word = [] ∧ before = []
  | finish, _, word, after => word = [] ∧ (after = [] ∨ after = ['\n'])
  | nothingAfter, _, word, after => word = [] ∧ after = []

/-- A search finds the pattern somewhere in the text. -/
def Accepts (pattern : Pattern) (text : String) : Prop :=
  ∃ before word after, text.toList = before ++ word ++ after ∧ pattern.Reads before word after

/-- The pattern of one of several alternatives. -/
def anyOf (first : Pattern) (others : List Pattern) : Pattern :=
  others.foldl alt first

variable {before word after : List Char}

theorem reads_anyOf (first : Pattern) (others : List Pattern) :
    (anyOf first others).Reads before word after ↔
      ∃ pattern ∈ first :: others, pattern.Reads before word after := by
  induction others generalizing first with
  | nil => simp [anyOf]
  | cons second rest ih =>
    rw [show anyOf first (second :: rest) = anyOf (alt first second) rest from rfl, ih]
    simp only [List.exists_mem_cons_iff, Reads, or_assoc]

theorem intercalate_merge (separator first second : String) (rest : List String) :
    separator.intercalate ((first ++ separator ++ second) :: rest) =
      separator.intercalate (first :: second :: rest) := by
  rw [← String.toList_inj, String.toList_intercalate, String.toList_intercalate]
  cases rest with
  | nil => simp [List.intercalate, List.intersperse]
  | cons third rest => simp [List.intercalate, List.intersperse]

theorem render_anyOf (first : Pattern) (others : List Pattern) :
    (anyOf first others).render = "|".intercalate (first.render :: others.map render) := by
  induction others generalizing first with
  | nil => simp [anyOf]
  | cons second rest ih =>
    rw [show anyOf first (second :: rest) = anyOf (alt first second) rest from rfl, ih,
      List.map_cons, ← intercalate_merge]
    rfl

/-- A class of characters read a number of times. -/
theorem repeats_range {low high : Char} {count : ℕ} :
    Repeats (range low high).Reads count before word after ↔
      word.length = count ∧ ∀ c ∈ word, low ≤ c ∧ c ≤ high := by
  induction count generalizing before word with
  | zero =>
    simp only [Repeats, List.length_eq_zero_iff]
    constructor
    · intro empty
      exact ⟨empty, by simp [empty]⟩
    · exact And.left
  | succ count ih =>
    constructor
    · intro read
      obtain ⟨head, tail, rfl, ⟨c, rfl, within⟩, rest⟩ := read
      obtain ⟨length, all⟩ := ih.mp rest
      refine ⟨by simp [length], fun other member => ?_⟩
      rcases List.mem_cons.mp member with rfl | member
      · exact within
      · exact all other member
    · intro read
      obtain ⟨length, all⟩ := read
      obtain ⟨c, tail, rfl⟩ := List.exists_cons_of_length_eq_add_one length
      refine ⟨[c], tail, rfl, ⟨c, rfl, all c List.mem_cons_self⟩, ih.mpr ⟨?_, ?_⟩⟩
      · simpa using length
      · intro other member
        exact all other (List.mem_cons_of_mem _ member)

/-- A pattern between both ends of the text reads all of it. -/
theorem accepts_whole {inner : Pattern} {text : String} :
    (seq start (seq inner (seq finish nothingAfter))).Accepts text ↔
      inner.Reads [] text.toList [] := by
  constructor
  · intro accepted
    obtain ⟨before, word, after, parts, head, rest, rfl, ⟨rfl, rfl⟩, read, tail, rfl, inside, ends,
      last, rfl, ⟨rfl, _⟩, rfl, rfl⟩ := accepted
    simpa [parts] using inside
  · intro inside
    exact ⟨[], text.toList, [], by simp, [], text.toList, rfl, ⟨rfl, rfl⟩, text.toList, [],
      by simp, inside, [], [], rfl, ⟨rfl, .inl rfl⟩, rfl, rfl⟩

end Pattern
