import ExomonadHarness.Presentation.Form
import ExomonadHarness.Store.Types
import ExomonadHarness.Support.Attempt
import ExomonadHarness.Support.Table

/-! `store/media.rs`: immutable assets named by their digest. Each asset is kept
in a transaction of its own, so a view refused half way leaves the earlier ones. -/

namespace ExomonadHarness.Store

open ExomonadHarness.Json ExomonadHarness.Presentation Checked

def maxMediaBytes : ℕ := 4 * 1024 * 1024

/-- The presentation host with the digest of an asset and the base64 decoder. -/
structure MediaHost extends Host where
  digest : String → List UInt8 → String
  decodeBase64 : String → Option (List UInt8)

/-- `From<PresentationError> for StoreError`. -/
def StoreError.ofPresentation : PresentationError → StoreError
  | .invalidView => .invalidActorOutput
  | .invalidForm => .invalidForm
  | .invalidSvg detail => .invalidSvg detail

structure RetainedActorMedia where
  hash : String
  mime : String
  bytes : List UInt8
  deriving DecidableEq

abbrev Media := Table RetainedActorMedia.hash

/-- Calls that fail without undoing the transactions before the failure. -/
abbrev Retaining (α : Type) := Attempt.Computation Media StoreError α

def magic (mime : String) (bytes : List UInt8) : Bool :=
  match mime with
  | "image/png" => [0x89, 0x50, 0x4e, 0x47, 0x0d, 0x0a, 0x1a, 0x0a].isPrefixOf bytes
  | "image/jpeg" => [0xff, 0xd8, 0xff].isPrefixOf bytes
  | "image/webp" => [0x52, 0x49, 0x46, 0x46].isPrefixOf bytes &&
      (bytes.drop 8).take 4 = [0x57, 0x45, 0x42, 0x50]
  | _ => false

/-- `INSERT OR IGNORE`: an asset already kept under the digest stays. -/
def Media.keep (media : Media) (asset : RetainedActorMedia) : Media :=
  (media.insert? asset).getD media

variable (host : MediaHost)

def retainActorMedia (mime : String) (bytes : List UInt8) : Retaining RetainedActorMedia := do
  Attempt.lift (require (!bytes.isEmpty && bytes.length ≤ maxMediaBytes &&
    mime ∈ ["image/png", "image/jpeg", "image/webp"]) .invalidMedia)
  Attempt.lift (require (magic mime bytes) .invalidMedia)
  let asset : RetainedActorMedia := { hash := host.digest mime bytes, mime, bytes }
  modify fun media : Media => media.keep asset
  return asset

def actorMedia (media : Media) (hash : String) : Except StoreError (Option RetainedActorMedia) := do
  require (View.isDigest hash) .invalidMedia
  return media.find? hash

mutual

def retainViewMedia (view : View) : Retaining View := do
  Attempt.lift ((view.validate host.validateSvg).mapError .ofPresentation)
  match view with
  | .image (.data mime base64) alt truncated =>
    Attempt.lift (require (base64.utf8ByteSize ≤ maxMediaBytes * 4 / 3 + 4) .invalidMedia)
    let bytes ← Attempt.lift (okOr (host.decodeBase64 base64) .invalidMedia)
    let retained ← retainActorMedia host mime.asStr bytes
    return .image (.retained retained.hash) alt truncated
  | .row children => .row <$> retainViewsMedia children
  | .column children => .column <$> retainViewsMedia children
  | .caption body text truncated => (View.caption · text truncated) <$> retainViewMedia body
  | view => return view

def retainViewsMedia (views : List View) : Retaining (List View) :=
  match views with
  | [] => return []
  | view :: rest => do
    let view ← retainViewMedia view
    let rest ← retainViewsMedia rest
    return view :: rest

end

def retainOptionMedia (option : FormOption) : Retaining FormOption := do
  let presentation ← retainViewMedia host option.presentation
  return { option with presentation }

mutual

def retainNodeMedia (node : FormNode) : Retaining FormNode :=
  match node with
  | .view presentation => .view <$> retainViewMedia host presentation
  | .group children => .group <$> retainNodesMedia children
  | .titled title child => .titled title <$> retainNodeMedia child
  | .choice id label options initial =>
    (FormNode.choice id label · initial) <$> options.mapM (retainOptionMedia host)
  | .many id label options initial =>
    (FormNode.many id label · initial) <$> options.mapM (retainOptionMedia host)
  | .alternatives id label options initial =>
    (FormNode.alternatives id label · initial) <$> retainAlternativesMedia options
  | .alternativesMany id label options initial =>
    (FormNode.alternativesMany id label · initial) <$> retainAlternativesMedia options
  | node => return node

def retainNodesMedia (nodes : List FormNode) : Retaining (List FormNode) :=
  match nodes with
  | [] => return []
  | node :: rest => do
    let node ← retainNodeMedia node
    let rest ← retainNodesMedia rest
    return node :: rest

def retainAlternativesMedia (options : List FormAlternative) : Retaining (List FormAlternative) :=
  match options with
  | [] => return []
  | .mk id label presentation form :: rest => do
    let presentation ← retainViewMedia host presentation
    let form ← retainNodeMedia form
    let rest ← retainAlternativesMedia rest
    return .mk id label presentation form :: rest

end

def retainFormMedia (form : FormSpec) : Retaining FormSpec := do
  let root ← retainNodeMedia host form.root
  return { form with root }

end ExomonadHarness.Store
