import ExomonadHarness.Json.Length
import ExomonadHarness.Support.Checked

/-! The presentation contract of `harness-presentation`: views, their encoded
length and their structural validation. -/

namespace ExomonadHarness.Presentation

open ExomonadHarness.Json Checked

def maxPresentationBytes : ℕ := 128 * 1024

inductive PresentationError where
  | invalidView
  | invalidForm
  | invalidSvg (detail : String)
  deriving DecidableEq

inductive ImageMime where
  | png
  | jpeg
  | webp
  deriving DecidableEq

def ImageMime.asStr : ImageMime → String
  | png => "image/png"
  | jpeg => "image/jpeg"
  | webp => "image/webp"

inductive MediaSource where
  | data (mime : ImageMime) (base64 : String)
  | retained (hash : String)
  deriving DecidableEq

def MediaSource.length : MediaSource → ℕ
  | data mime base64 => Length.object [("kind", Length.text "data"),
      ("mime", Length.text mime.asStr), ("base64", Length.text base64)]
  | retained hash => Length.object [("kind", Length.text "retained"), ("hash", Length.text hash)]

inductive View where
  | text (text : String) (truncated : Bool)
  | markdown (text : String) (truncated : Bool)
  | row (children : List View)
  | column (children : List View)
  | caption (body : View) (text : String) (truncated : Bool)
  | svg (source : String)
  | image (source : MediaSource) (alt : String) (truncated : Bool)
  | inspection (text : String) (hasMore unavailable : Bool)

namespace View

/-! `PartialEq` as the source derives it. -/

mutual

def same : View → View → Bool
  | text left leftCut, text right rightCut => left = right && leftCut = rightCut
  | markdown left leftCut, markdown right rightCut => left = right && leftCut = rightCut
  | row left, row right => sameAll left right
  | column left, column right => sameAll left right
  | caption left leftText leftCut, caption right rightText rightCut =>
    same left right && leftText = rightText && leftCut = rightCut
  | svg left, svg right => left = right
  | image left leftAlt leftCut, image right rightAlt rightCut =>
    left = right && leftAlt = rightAlt && leftCut = rightCut
  | inspection left leftMore leftGone, inspection right rightMore rightGone =>
    left = right && leftMore = rightMore && leftGone = rightGone
  | _, _ => false

def sameAll : List View → List View → Bool
  | [], [] => true
  | left :: lefts, right :: rights => same left right && sameAll lefts rights
  | _, _ => false

end

mutual

theorem same_iff (left right : View) : same left right = true ↔ left = right := by
  cases left with
  | row children => cases right <;> simp [same, sameAll_iff children]
  | column children => cases right <;> simp [same, sameAll_iff children]
  | caption body _ _ => cases right <;> simp [same, same_iff body, and_assoc]
  | _ => cases right <;> simp [same, and_assoc]

theorem sameAll_iff (left right : List View) : sameAll left right = true ↔ left = right := by
  cases left with
  | nil => cases right <;> simp [sameAll]
  | cons first rest => cases right <;> simp [sameAll, same_iff first, sameAll_iff rest]

end

instance instDecidableEqView : DecidableEq View := fun left right =>
  decidable_of_iff _ (same_iff left right)

/-! `serde_json::to_vec(view).len()`: the tag first, `truncated` only when set. -/

def truncatedField (truncated : Bool) : List (String × ℕ) :=
  if truncated then [("truncated", Length.bool true)] else []

mutual

def length : View → ℕ
  | text content truncated => Length.object
      ([("kind", Length.text "text"), ("text", Length.text content)] ++ truncatedField truncated)
  | markdown content truncated => Length.object
      ([("kind", Length.text "markdown"), ("text", Length.text content)] ++ truncatedField truncated)
  | row children => Length.object
      [("kind", Length.text "row"), ("children", Length.array (lengths children))]
  | column children => Length.object
      [("kind", Length.text "column"), ("children", Length.array (lengths children))]
  | caption body content truncated => Length.object
      ([("kind", Length.text "caption"), ("body", length body), ("text", Length.text content)] ++
        truncatedField truncated)
  | svg source => Length.object [("kind", Length.text "svg"), ("source", Length.text source)]
  | image source alt truncated => Length.object
      ([("kind", Length.text "image"), ("source", source.length), ("alt", Length.text alt)] ++
        truncatedField truncated)
  | inspection content hasMore unavailable => Length.object
      [("kind", Length.text "inspection"), ("text", Length.text content),
        ("has_more", Length.bool hasMore), ("unavailable", Length.bool unavailable)]

def lengths : List View → List ℕ
  | [] => []
  | child :: rest => length child :: lengths rest

end

/-! The nesting of the encoded view. -/

mutual

def depth : View → ℕ
  | row children | column children => nest [nest (depths children)]
  | caption body _ _ => nest [depth body]
  | image _ _ _ => nest [nest []]
  | text _ _ | markdown _ _ | svg _ | inspection _ _ _ => nest []

def depths : List View → List ℕ
  | [] => []
  | child :: rest => depth child :: depths rest

end

/-- A blake3 digest in hexadecimal, either case. -/
def isDigest (hash : String) : Bool :=
  hash.utf8ByteSize = 64 && hash.toList.all fun c =>
    c.isDigit || ('a' ≤ c && c ≤ 'f') || ('A' ≤ c && c ≤ 'F')

/-! `validateSvg` is the XML parser's verdict on a source. -/

variable (validateSvg : String → Except String Unit)

mutual

def walk (view : View) (depth : ℕ) : Except PresentationError Unit :=
  if 32 < depth then .error .invalidView
  else
    match view with
    | svg source => (validateSvg source).mapError .invalidSvg
    | row children | column children =>
      if 1024 < children.length then .error .invalidView else walkAll children (depth + 1)
    | caption body _ _ => walk body (depth + 1)
    | image (.retained hash) _ _ => require (isDigest hash) .invalidView
    | _ => .ok ()

def walkAll (views : List View) (depth : ℕ) : Except PresentationError Unit :=
  match views with
  | [] => .ok ()
  | view :: rest => do
    walk view depth
    walkAll rest depth

end

def validate (view : View) : Except PresentationError Unit := do
  require (view.length ≤ maxPresentationBytes) .invalidView
  walk validateSvg view 0

end View

end ExomonadHarness.Presentation
