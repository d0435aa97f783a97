import ExomonadHarness.Transport.Diagnostic

/-! What provider diagnostics reveal. -/

namespace ExomonadHarness.Transport

section

variable {α : Type} {pattern front back : List α} {separator : α}

/-- A pattern without the separator lies on one side of it. -/
theorem infix_split (outside : separator ∉ pattern)
    (found : pattern <:+: front ++ separator :: back) : pattern <:+: front ∨ pattern <:+: back := by
  obtain ⟨before, after, parts⟩ := found
  rw [List.append_assoc] at parts
  rcases List.append_eq_append_iff.mp parts with ⟨middle, rfl, rest⟩ | ⟨middle, rfl, rest⟩
  · rcases List.append_eq_append_iff.mp rest with ⟨inner, rfl, -⟩ | ⟨inner, rfl, tail⟩
    · exact .inl ⟨before, inner, by simp⟩
    · cases inner with
      | nil => exact .inl ⟨before, [], by simp⟩
      | cons head inner =>
        cases tail
        exact absurd (by simp) outside
  · cases middle with
    | nil =>
      cases pattern with
      | nil => exact .inl List.nil_infix
      | cons head pattern =>
        cases rest
        exact absurd List.mem_cons_self outside
    | cons head middle =>
      cases rest
      exact .inr ⟨middle, after, by simp⟩

end

def marker : List Char := "[redacted]".toList

/-- A credential in the alphabet of tokens and accounts that the marker does not spell. -/
structure Credential (secret : List Char) : Prop where
  nonempty : secret ≠ []
  alphabet : ∀ char ∈ secret, isDelimiter char = false
  apart : ¬secret <:+: marker

namespace Credential

variable {secret other text front back : List Char}

theorem delimiter_outside (credential : Credential secret) {char : Char}
    (delimiter : isDelimiter char = true) : char ∉ secret := by
  intro member
  simp [credential.alphabet char member] at delimiter

/-- A credential does not reach across a delimiter. -/
theorem not_infix_delimited (credential : Credential secret) {char : Char}
    (delimiter : isDelimiter char = true) (first : ¬secret <:+: front) (second : ¬secret <:+: back) :
    ¬secret <:+: front ++ char :: back := by
  intro found
  rcases infix_split (credential.delimiter_outside delimiter) found with inside | inside
  · exact first inside
  · exact second inside

theorem not_infix_nil (credential : Credential secret) : ¬secret <:+: [] := by
  intro found
  exact credential.nonempty (List.infix_nil.mp found)

theorem not_infix_marker_append (credential : Credential secret) (rest : ¬secret <:+: back) :
    ¬secret <:+: marker ++ back := by
  have inner : ¬secret <:+: "[redacted".toList := fun found =>
    credential.apart (found.trans ⟨[], [']'], rfl⟩)
  have parts : marker ++ back = "[redacted".toList ++ ']' :: back := rfl
  rw [parts]
  exact credential.not_infix_delimited rfl inner rest

/-- What stands at the head of a replaced text stood at the head of the text. -/
theorem head_of_replaced {pattern start : List Char} (free : '[' ∉ start)
    (found : start <+: replaceAll pattern marker text) : start <+: text := by
  induction text using replaceAll.induct pattern generalizing start with
  | case1 => simpa [replaceAll] using found
  | case2 char rest matched ih =>
    rw [replaceAll, if_pos matched] at found
    cases start with
    | nil => exact List.nil_prefix
    | cons head start =>
      obtain ⟨same, -⟩ := List.cons_prefix_cons.mp found
      exact absurd (same ▸ List.mem_cons_self) free
  | case3 char rest unmatched ih =>
    rw [replaceAll, if_neg unmatched] at found
    cases start with
    | nil => exact List.nil_prefix
    | cons head start =>
      obtain ⟨same, later⟩ := List.cons_prefix_cons.mp found
      have outside : '[' ∉ start := fun member => free (List.mem_cons_of_mem _ member)
      exact List.cons_prefix_cons.mpr ⟨same, ih outside later⟩

theorem head_of_unmatched (credential : Credential secret) {pattern rest : List Char} {char : Char}
    (unmatched : ¬(pattern ≠ [] ∧ pattern.isPrefixOf (char :: rest) = true))
    (found : secret <+: char :: replaceAll pattern marker rest) : secret <+: char :: rest := by
  have replaced : replaceAll pattern marker (char :: rest) =
      char :: replaceAll pattern marker rest := by
    rw [replaceAll, if_neg unmatched]
  rw [← replaced] at found
  exact head_of_replaced (credential.delimiter_outside rfl) found

/-- Replacing a text brings in no credential that was not there. -/
theorem not_infix_replaced (credential : Credential secret) (pattern : List Char)
    (absent : ¬secret <:+: text) : ¬secret <:+: replaceAll pattern marker text := by
  induction text using replaceAll.induct pattern with
  | case1 => simpa [replaceAll] using absent
  | case2 char rest matched ih =>
    rw [replaceAll, if_pos matched]
    refine credential.not_infix_marker_append (ih fun found => absent ?_)
    exact found.trans (List.drop_suffix _ _).isInfix
  | case3 char rest unmatched ih =>
    intro found
    rw [replaceAll, if_neg unmatched] at found
    rcases List.infix_cons_iff.mp found with first | later
    · exact absent (credential.head_of_unmatched unmatched first).isInfix
    · refine ih (fun inside => absent ?_) later
      exact inside.trans (List.suffix_cons _ _).isInfix

/-- No occurrence of a credential survives its replacement. -/
theorem replaced (credential : Credential secret) (text : List Char) :
    ¬secret <:+: replaceAll secret marker text := by
  induction text using replaceAll.induct secret with
  | case1 => simpa [replaceAll] using credential.nonempty
  | case2 char rest matched ih =>
    rw [replaceAll, if_pos matched]
    exact credential.not_infix_marker_append ih
  | case3 char rest unmatched ih =>
    intro found
    rw [replaceAll, if_neg unmatched] at found
    rcases List.infix_cons_iff.mp found with first | later
    · have here := credential.head_of_unmatched unmatched first
      exact unmatched ⟨credential.nonempty, List.isPrefixOf_iff_prefix.mpr here⟩
    · exact ih later

end Credential

/-! The words of a text. -/

/-- Every part but the last ends with its delimiter. -/
inductive Parted : List (List Char) → Prop where
  | nil : Parted []
  | last {word : List Char} (plain : ∀ char ∈ word, isDelimiter char = false) : Parted [word]
  | cons {word : List Char} {delimiter : Char} {parts : List (List Char)}
      (plain : ∀ char ∈ word, isDelimiter char = false) (ends : isDelimiter delimiter = true)
      (rest : Parted parts) : Parted ((word ++ [delimiter]) :: parts)

theorem splitInclusive_parted (text : List Char) : Parted (splitInclusive isDelimiter text) := by
  induction text with
  | nil => exact .nil
  | cons char rest ih =>
    by_cases delimiter : isDelimiter char = true
    · rw [splitInclusive, if_pos delimiter]
      exact @Parted.cons [] char _ (by simp) delimiter ih
    · have ordinary : isDelimiter char = false := by simpa using delimiter
      rw [splitInclusive, if_neg delimiter]
      split
      case h_1 => exact .last (by simpa using ordinary)
      case h_2 part parts split =>
        rw [split] at ih
        cases ih with
        | last plain => exact .last (List.forall_mem_cons.mpr ⟨ordinary, plain⟩)
        | cons plain ends rest => exact .cons (List.forall_mem_cons.mpr ⟨ordinary, plain⟩) ends rest

theorem splitInclusive_flatten (text : List Char) :
    (splitInclusive isDelimiter text).flatten = text := by
  induction text with
  | nil => rfl
  | cons char rest ih =>
    by_cases delimiter : isDelimiter char = true
    · rw [splitInclusive, if_pos delimiter, List.flatten_cons, ih]
      rfl
    · rw [splitInclusive, if_neg delimiter]
      split
      case h_1 split =>
        rw [split] at ih
        rw [← ih]
        rfl
      case h_2 part parts split =>
        rw [split] at ih
        rw [← ih]
        rfl

theorem isControl_of_alphanum {char : Char} (ordinary : char.isAlphanum = true) :
    isControl char = false := by
  have upper : 'A'.val.toNat = 65 ∧ 'Z'.val.toNat = 90 := ⟨rfl, rfl⟩
  have lower : 'a'.val.toNat = 97 ∧ 'z'.val.toNat = 122 := ⟨rfl, rfl⟩
  have digit : '0'.val.toNat = 48 ∧ '9'.val.toNat = 57 := ⟨rfl, rfl⟩
  simp only [Char.isAlphanum, Char.isAlpha, Char.isUpper, Char.isLower, Char.isDigit,
    Bool.or_eq_true, Bool.and_eq_true, decide_eq_true_eq, ge_iff_le,
    UInt32.le_iff_toNat_le] at ordinary
  simp only [isControl, Bool.or_eq_false_iff, Bool.and_eq_false_iff, decide_eq_false_iff_not,
    UInt32.lt_iff_toNat_lt, UInt32.le_iff_toNat_le, UInt32.reduceToNat]
  omega

theorem isControl_of_plain {char : Char} (plain : isDelimiter char = false) :
    isControl char = false := by
  simp only [isDelimiter, Bool.and_eq_false_iff, Bool.not_eq_false'] at plain
  rcases plain with ordinary | listed
  · exact isControl_of_alphanum ordinary
  · have all : "_-./+=".toList.all (fun char => !isControl char) = true := by decide
    have safe := List.all_eq_true.mp all char (List.contains_iff_mem.mp listed)
    simpa using safe

theorem readable_word {word : List Char} (plain : ∀ char ∈ word, isDelimiter char = false) :
    readable word = word := by
  have same : ∀ char ∈ word, (if isControl char then ' ' else char) = char := by
    intro char member
    exact if_neg (by simp [isControl_of_plain (plain char member)])
  rw [readable, List.map_congr_left same, List.map_id']

theorem isControl_readable {text : List Char} : ∀ char ∈ readable text, isControl char = false := by
  intro char member
  obtain ⟨source, -, rfl⟩ := List.mem_map.mp member
  split
  case isTrue => rfl
  case isFalse ordinary => simpa using ordinary

theorem isControl_redactParts (bearer : Bool) (parts : List (List Char)) :
    ∀ char ∈ redactParts bearer parts, isControl char = false := by
  induction parts generalizing bearer with
  | nil => simp [redactParts]
  | cons part parts ih =>
    intro char member
    rw [redactParts] at member
    split at member
    · rcases List.mem_append.mp member with own | later
      · exact isControl_readable char own
      · exact ih _ char later
    · rcases List.mem_append.mp member with first | later
      · rcases List.mem_append.mp first with word | delimiter
        · split at word
          · have all : "[redacted]".toList.all (fun char => !isControl char) = true := by decide
            simpa using List.all_eq_true.mp all char word
          · exact isControl_readable char word
        · exact isControl_readable char delimiter
      · exact ih _ char later

theorem rdropWhile_word {word : List Char} (plain : ∀ char ∈ word, isDelimiter char = false) :
    word.rdropWhile isDelimiter = word := by
  rw [List.rdropWhile_eq_self_iff]
  intro nonempty
  simp [plain _ (List.getLast_mem nonempty)]

theorem rdropWhile_part {word : List Char} {delimiter : Char}
    (plain : ∀ char ∈ word, isDelimiter char = false) (ends : isDelimiter delimiter = true) :
    (word ++ [delimiter]).rdropWhile isDelimiter = word := by
  rw [List.rdropWhile_concat_pos _ _ _ ends, rdropWhile_word plain]

/-- A word as it is shown. -/
def shown (bearer : Bool) (word : List Char) : List Char :=
  if word.isEmpty then [] else if bearer || secretShape word then marker else word

def readableChar (char : Char) : Char :=
  if isControl char then ' ' else char

theorem redactParts_last {word : List Char} (plain : ∀ char ∈ word, isDelimiter char = false)
    (bearer : Bool) : redactParts bearer [word] = shown bearer word := by
  simp only [redactParts, rdropWhile_word plain, List.drop_length, readable_word plain, shown]
  split
  case isTrue => rfl
  case isFalse =>
    rw [List.append_nil]
    exact List.append_nil _

theorem redactParts_cons {word : List Char} {delimiter : Char}
    (plain : ∀ char ∈ word, isDelimiter char = false) (ends : isDelimiter delimiter = true)
    (bearer : Bool) (parts : List (List Char)) :
    ∃ next, redactParts bearer ((word ++ [delimiter]) :: parts) =
      shown bearer word ++ readableChar delimiter :: redactParts next parts := by
  simp only [redactParts, rdropWhile_part plain ends, List.drop_left, readable_word plain, shown]
  split
  case isTrue => exact ⟨bearer, rfl⟩
  case isFalse =>
    rw [List.append_assoc]
    exact ⟨_, rfl⟩

theorem isDelimiter_readableChar {char : Char} (ends : isDelimiter char = true) :
    isDelimiter (readableChar char) = true := by
  unfold readableChar
  split
  case isTrue => decide
  case isFalse => exact ends

namespace Credential

variable {secret word : List Char}

theorem not_infix_shown (credential : Credential secret) (absent : ¬secret <:+: word)
    (bearer : Bool) : ¬secret <:+: shown bearer word := by
  unfold shown
  split_ifs
  · exact credential.not_infix_nil
  · exact credential.apart
  · exact absent

/-- Hiding words brings in no credential. -/
theorem not_infix_parts (credential : Credential secret) {parts : List (List Char)}
    (parted : Parted parts) (absent : ∀ part ∈ parts, ¬secret <:+: part) (bearer : Bool) :
    ¬secret <:+: redactParts bearer parts := by
  induction parted generalizing bearer with
  | nil => exact credential.not_infix_nil
  | last plain =>
    rw [redactParts_last plain]
    exact credential.not_infix_shown (absent _ List.mem_cons_self) bearer
  | @cons word delimiter parts plain ends rest ih =>
    obtain ⟨next, shows⟩ := redactParts_cons plain ends bearer parts
    have own : ¬secret <:+: word := fun found =>
      absent _ List.mem_cons_self (found.trans (List.prefix_append _ _).isInfix)
    have others := ih (fun part listed => absent part (List.mem_cons_of_mem _ listed)) next
    rw [shows]
    exact credential.not_infix_delimited (isDelimiter_readableChar ends)
      (credential.not_infix_shown own bearer) others

end Credential

/-- A text that reveals neither credential and holds no control character. -/
structure Undisclosed (token account field : String) : Prop where
  token : ¬token.toList <:+: field.toList
  account : ¬account.toList <:+: field.toList
  printable : ∀ char ∈ field.toList, isControl char = false

theorem Undisclosed.cut {token account text field : String} (whole : Undisclosed token account text)
    (part : field.toList <+: text.toList) : Undisclosed token account field :=
  ⟨fun found => whole.token (found.trans part.isInfix),
    fun found => whole.account (found.trans part.isInfix),
    fun char member => whole.printable char (part.subset member)⟩

section

variable {token account : String}

theorem redact_undisclosed (hidden : Credential token.toList) (also : Credential account.toList)
    (text : String) : Undisclosed token account (redact text token account) := by
  have given (secret : String) (credential : Credential secret.toList) (text : List Char) :
      (if secret.isEmpty then text else replaceAll secret.toList "[redacted]".toList text) =
        replaceAll secret.toList marker text := by
    refine if_neg fun empty => credential.nonempty ?_
    rw [String.isEmpty_iff.mp empty]
    rfl
  have shows : (redact text token account).toList = redactParts false (splitInclusive isDelimiter
      (replaceAll account.toList marker (replaceAll token.toList marker text.toList))) := by
    simp only [redact, List.foldl_cons, List.foldl_nil, given token hidden, given account also,
      String.toList_ofList]
  have parts (text : List Char) (secret : List Char) (absent : ¬secret <:+: text) :
      ∀ part ∈ splitInclusive isDelimiter text, ¬secret <:+: part := by
    intro part listed found
    refine absent ((found.trans ?_ : secret <:+: text))
    rw [← splitInclusive_flatten text]
    exact List.infix_of_mem_flatten listed
  refine ⟨?_, ?_, ?_⟩
  · rw [shows]
    refine hidden.not_infix_parts (splitInclusive_parted _) (parts _ _ ?_) false
    exact hidden.not_infix_replaced _ (hidden.replaced _)
  · rw [shows]
    exact also.not_infix_parts (splitInclusive_parted _) (parts _ _ (also.replaced _)) false
  · rw [shows]
    exact isControl_redactParts _ _

theorem takeBytes_prefix (limit : ℕ) (text : List Char) : takeBytes limit text <+: text := by
  induction text generalizing limit with
  | nil => exact List.prefix_rfl
  | cons char rest ih =>
    rw [takeBytes]
    split
    · exact List.cons_prefix_cons.mpr ⟨rfl, ih _⟩
    · exact List.nil_prefix

theorem takeBytes_bytes (limit : ℕ) (text : List Char) :
    (String.ofList (takeBytes limit text)).utf8ByteSize ≤ limit := by
  rw [String.utf8ByteSize_ofList]
  induction text generalizing limit with
  | nil => exact Nat.zero_le _
  | cons char rest ih =>
    rw [takeBytes]
    split
    case isTrue fits =>
      have later := ih (limit - char.utf8Size)
      rw [String.utf8Len_cons]
      omega
    case isFalse => exact Nat.zero_le _

/-- Every field of a diagnostic. -/
def HttpDiagnostic.fields (found : HttpDiagnostic) : List (ℕ × String) :=
  (found.code.map (fieldLimit, ·)).toList ++ (found.errorType.map (fieldLimit, ·)).toList ++
    (found.param.map (fieldLimit, ·)).toList ++ (found.message.map (messageLimit, ·)).toList

/-- A redacted text cut after a number of characters. -/
theorem bounded_undisclosed (hidden : Credential token.toList) (also : Credential account.toList)
    {text : Option String} {limit : ℕ} {entry : ℕ × String}
    (listed : entry ∈ ((text.map fun text =>
      String.ofList ((redact text token account).toList.take limit)).map (limit, ·)).toList) :
    entry.2.length ≤ entry.1 ∧ Undisclosed token account entry.2 := by
  simp only [Option.mem_toList, Option.map_eq_some_iff] at listed
  obtain ⟨field, ⟨text, -, rfl⟩, rfl⟩ := listed
  constructor
  · rw [← String.length_toList, String.toList_ofList]
    exact List.length_take_le _ _
  · refine (redact_undisclosed hidden also text).cut ?_
    rw [String.toList_ofList]
    exact List.take_prefix _ _

/-- Diagnostics reveal no credential, stay within their limits and are printable. -/
theorem diagnostics_undisclosed (hidden : Credential token.toList)
    (also : Credential account.toList) :
    (∀ code errorType param message found,
      diagnostic code errorType param message token account = some found →
      ∀ entry ∈ found.fields, entry.2.length ≤ entry.1 ∧ Undisclosed token account entry.2) ∧
    ∀ value, (metadata value token account).1.utf8ByteSize ≤ metadataBytes ∧
      (metadata value token account).1.toList <+: (redact value token account).toList ∧
      Undisclosed token account (metadata value token account).1 := by
  refine ⟨fun code errorType param message found answered entry listed => ?_, fun value => ?_⟩
  · simp only [diagnostic] at answered
    split at answered
    case isTrue => cases answered
    case isFalse =>
      cases answered
      simp only [HttpDiagnostic.fields, List.mem_append] at listed
      rcases listed with ((listed | listed) | listed) | listed
      · exact bounded_undisclosed hidden also listed
      · exact bounded_undisclosed hidden also listed
      · exact bounded_undisclosed hidden also listed
      · exact bounded_undisclosed hidden also listed
  · have part : (metadata value token account).1.toList <+: (redact value token account).toList := by
      rw [metadata, String.toList_ofList]
      exact takeBytes_prefix _ _
    exact ⟨takeBytes_bytes _ _, part, (redact_undisclosed hidden also value).cut part⟩

theorem diagnostics_undisclosed_short :
    Undisclosed "k1" "a2" (metadata "use k1\nfor a2" "k1" "a2").1 := by
  have plain (secret : String) (all : secret.toList.all (fun char => !isDelimiter char) = true) :
      ∀ char ∈ secret.toList, isDelimiter char = false := by
    intro char member
    simpa using List.all_eq_true.mp all char member
  have token : Credential "k1".toList := ⟨by decide, plain "k1" (by decide), by decide⟩
  have account : Credential "a2".toList := ⟨by decide, plain "a2" (by decide), by decide⟩
  exact ((diagnostics_undisclosed token account).2 "use k1\nfor a2").2.2

end

end ExomonadHarness.Transport
