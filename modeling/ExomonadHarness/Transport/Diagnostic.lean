import ExomonadHarness.Transport.Types

/-! Bounded and redacted provider diagnostics. Only selected fields are kept,
and credentials are removed before a field is cut. -/

namespace ExomonadHarness.Transport

def fieldLimit : ℕ := 256
def messageLimit : ℕ := 2048
def metadataBytes : ℕ := 128

/-- `str::replace`: every occurrence, leftmost first and without overlap. -/
def replaceAll (pattern replacement : List Char) : List Char → List Char
  | [] => []
  | char :: rest =>
    if pattern ≠ [] ∧ pattern.isPrefixOf (char :: rest) then
      replacement ++ replaceAll pattern replacement ((char :: rest).drop pattern.length)
    else char :: replaceAll pattern replacement rest
termination_by text => text.length
decreasing_by
  · rename_i found
    have positive := List.length_pos_iff.mpr found.1
    simp only [List.length_drop, List.length_cons]
    omega
  · simp

/-- `str::split_inclusive`: each part ends with its delimiter, the last perhaps
without one. -/
def splitInclusive (isDelimiter : Char → Bool) : List Char → List (List Char)
  | [] => []
  | char :: rest =>
    if isDelimiter char then [char] :: splitInclusive isDelimiter rest
    else
      match splitInclusive isDelimiter rest with
      | [] => [[char]]
      | part :: parts => (char :: part) :: parts

def isDelimiter (char : Char) : Bool :=
  !char.isAlphanum && !"_-./+=".toList.contains char

def isControl (char : Char) : Bool :=
  char.val < 0x20 || (0x7f ≤ char.val && char.val ≤ 0x9f)

def readable (text : List Char) : List Char :=
  text.map fun char => if isControl char then ' ' else char

/-- Common credential shapes are removed even when they differ from the active
request's token. -/
def secretShape (word : List Char) : Bool :=
  "sk-".toList.isPrefixOf word || "acct_".toList.isPrefixOf word ||
    "account-".toList.isPrefixOf word || "org-".toList.isPrefixOf word ||
    ("eyJ".toList.isPrefixOf word && word.count '.' == 2)

/-- The words of a text, with those hidden that follow `bearer` or look like a
credential. -/
def redactParts : Bool → List (List Char) → List Char
  | _, [] => []
  | bearer, part :: parts =>
    let word := part.rdropWhile isDelimiter
    let delimiter := part.drop word.length
    if word.isEmpty then readable delimiter ++ redactParts bearer parts
    else
      (if bearer || secretShape word then "[redacted]".toList else readable word) ++
        readable delimiter ++
        redactParts (word.map Char.toLower == "bearer".toList) parts

def redact (text token account : String) : String :=
  let hidden := [token, account].foldl (fun text secret =>
    if secret.isEmpty then text else replaceAll secret.toList "[redacted]".toList text) text.toList
  String.ofList (redactParts false (splitInclusive isDelimiter hidden))

/-- Credentials are redacted before the cut, so that it cannot keep a prefix. -/
def diagnostic (code errorType param message : Option String) (token account : String) :
    Option HttpDiagnostic :=
  let bounded (limit : ℕ) (text : String) : String :=
    String.ofList ((redact text token account).toList.take limit)
  let diagnostic : HttpDiagnostic := {
    code := code.map (bounded fieldLimit)
    errorType := errorType.map (bounded fieldLimit)
    param := param.map (bounded fieldLimit)
    message := message.map (bounded messageLimit) }
  if diagnostic = {} then none else some diagnostic

/-- The longest prefix of whole characters within a number of bytes. -/
def takeBytes : ℕ → List Char → List Char
  | _, [] => []
  | limit, char :: rest =>
    if char.utf8Size ≤ limit then char :: takeBytes (limit - char.utf8Size) rest else []

/-- A redacted identifier cut at a character boundary, and whether it was cut. -/
def metadata (value token account : String) : String × Bool :=
  let value := redact value token account
  (String.ofList (takeBytes metadataBytes value.toList), metadataBytes < value.utf8ByteSize)

end ExomonadHarness.Transport
