import ExomonadHarness.Store.Archive

/-! Provider issuance owns streamed occurrences before any response termination. -/

namespace ExomonadHarness.Store

open Json Finalize Transport Checked Transaction

variable {Hash Window : Type} [DecidableEq Hash]

section

variable (hash : Value → Hash)

/-- Retain an item and answer its hash. -/
def putItem (item : Value) : Tx (Archive Hash Window) StoreError Hash := do
  modify (·.put (hash item) item)
  return hash item

variable (fromStr : String → Except String Document)

end

end ExomonadHarness.Store
