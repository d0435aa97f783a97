import ExomonadHarness.Json.Number
import ExomonadHarness.Support.OrderedMap

/-! JSON documents as `serde_json::Value` without `preserve_order`: an object is
a `BTreeMap`, so its entries stand in ascending key order. -/

namespace ExomonadHarness.Json

inductive Value where
  | null
  | bool (value : Bool)
  | number (value : Number)
  | string (value : String)
  | array (items : List Value)
  | object (entries : List (String × Value))

/-- `serde_json::Map`. -/
abbrev Map := List (String × Value)

namespace Value

mutual

protected def decEq : (left right : Value) → Decidable (left = right)
  | null, null => isTrue rfl
  | bool left, bool right =>
    if same : left = right then isTrue (by rw [same]) else isFalse (by simp [same])
  | number left, number right =>
    if same : left = right then isTrue (by rw [same]) else isFalse (by simp [same])
  | string left, string right =>
    if same : left = right then isTrue (by rw [same]) else isFalse (by simp [same])
  | array left, array right =>
    match Value.decEqItems left right with
    | isTrue same => isTrue (by rw [same])
    | isFalse different => isFalse (by simp [different])
  | object left, object right =>
    match Value.decEqEntries left right with
    | isTrue same => isTrue (by rw [same])
    | isFalse different => isFalse (by simp [different])
  | null, bool _ | null, number _ | null, string _ | null, array _ | null, object _
  | bool _, null | bool _, number _ | bool _, string _ | bool _, array _ | bool _, object _
  | number _, null | number _, bool _ | number _, string _ | number _, array _
  | number _, object _ | string _, null | string _, bool _ | string _, number _
  | string _, array _ | string _, object _ | array _, null | array _, bool _
  | array _, number _ | array _, string _ | array _, object _ | object _, null
  | object _, bool _ | object _, number _ | object _, string _ | object _, array _ =>
    isFalse nofun

protected def decEqItems : (left right : List Value) → Decidable (left = right)
  | [], [] => isTrue rfl
  | [], _ :: _ | _ :: _, [] => isFalse nofun
  | left :: lefts, right :: rights =>
    match Value.decEq left right, Value.decEqItems lefts rights with
    | isTrue same, isTrue rest => isTrue (by rw [same, rest])
    | isFalse different, _ => isFalse (by simp [different])
    | _, isFalse different => isFalse (by simp [different])

protected def decEqEntries : (left right : Map) → Decidable (left = right)
  | [], [] => isTrue rfl
  | [], _ :: _ | _ :: _, [] => isFalse nofun
  | (leftKey, left) :: lefts, (rightKey, right) :: rights =>
    match instDecidableEqString leftKey rightKey, Value.decEq left right,
      Value.decEqEntries lefts rights with
    | isTrue key, isTrue same, isTrue rest => isTrue (by rw [key, same, rest])
    | isFalse different, _, _ => isFalse (by simp [different])
    | _, isFalse different, _ => isFalse (by simp [different])
    | _, _, isFalse different => isFalse (by simp [different])

end

instance : DecidableEq Value := Value.decEq

instance : Inhabited Value := ⟨null⟩

/-! The number of nodes of a document bounds every traversal of it. -/

mutual

def size : Value → ℕ
  | array items => 1 + sizeItems items
  | object entries => 1 + sizeEntries entries
  | null | bool _ | number _ | string _ => 1

def sizeItems : List Value → ℕ
  | [] => 0
  | item :: rest => item.size + sizeItems rest

def sizeEntries : Map → ℕ
  | [] => 0
  | (_, value) :: rest => value.size + sizeEntries rest

end

theorem size_pos (value : Value) : 0 < value.size := by
  cases value <;> simp [size]

theorem size_le_items {item : Value} {items : List Value} (member : item ∈ items) :
    item.size ≤ sizeItems items := by
  induction items with
  | nil => cases member
  | cons first rest ih =>
    rcases List.mem_cons.mp member with same | member
    · simp [sizeItems, same]
    · exact (ih member).trans (by simp [sizeItems])

theorem size_le_entries {entry : String × Value} {entries : Map} (member : entry ∈ entries) :
    entry.2.size ≤ sizeEntries entries := by
  induction entries with
  | nil => cases member
  | cons first rest ih =>
    rcases List.mem_cons.mp member with same | member
    · simp [sizeEntries, same]
    · exact (ih member).trans (by simp [sizeEntries])

theorem size_lt_array {item : Value} {items : List Value} (member : item ∈ items) :
    item.size < (array items).size := by
  have bound := size_le_items member
  simp only [size]
  omega

theorem size_lt_object {key : String} {value : Value} {entries : Map}
    (found : entries.lookup key = some value) : value.size < (object entries).size := by
  have bound : value.size ≤ sizeEntries entries :=
    size_le_entries (OrderedMap.mem_of_lookup found)
  simp only [size]
  omega

theorem sizeEntries_filter_le (keep : String × Value → Bool) (entries : Map) :
    sizeEntries (entries.filter keep) ≤ sizeEntries entries := by
  induction entries with
  | nil => exact le_rfl
  | cons first rest ih =>
    obtain ⟨key, value⟩ := first
    by_cases kept : keep (key, value) = true
    · simpa [kept, sizeEntries] using ih
    · simp only [List.filter_cons_of_neg kept, sizeEntries]
      omega

/-- Replacing a value by one of a single node never makes a map larger, and
makes it smaller where the old value had parts. -/
theorem sizeEntries_replace (key : String) {atom : Value} (single : atom.size = 1) (entries : Map) :
    sizeEntries (OrderedMap.replace key atom entries) ≤ sizeEntries entries := by
  induction entries with
  | nil => exact le_rfl
  | cons first rest ih =>
    obtain ⟨name, value⟩ := first
    have positive := size_pos value
    simp only [OrderedMap.replace, List.map_cons] at ih ⊢
    by_cases same : name = key
    · simp only [same, if_true, sizeEntries]
      omega
    · simp only [same, if_false, sizeEntries]
      omega

theorem sizeEntries_replace_lt {key : String} {old atom : Value} (single : atom.size = 1)
    {entries : Map} (found : entries.lookup key = some old) (larger : 1 < old.size) :
    sizeEntries (OrderedMap.replace key atom entries) < sizeEntries entries := by
  induction entries with
  | nil => cases found
  | cons first rest ih =>
    obtain ⟨name, value⟩ := first
    have shrunk := sizeEntries_replace key single rest
    simp only [OrderedMap.replace, List.map_cons] at ih shrunk ⊢
    by_cases same : name = key
    · subst name
      rw [List.lookup_cons_self, Option.some.injEq] at found
      subst value
      simp only [if_true, sizeEntries]
      omega
    · rw [OrderedMap.lookup_cons_of_ne (Ne.symm same)] at found
      have tail := ih found
      simp only [same, if_false, sizeEntries]
      omega

/-! A document whose doubles went through their texts. -/

mutual

/-- `serde_json` without `float_roundtrip` may read a double's text as a neighbour of it. -/
def reread (back : F64 → F64) : Value → Value
  | number (.float value) => number (.float (back value))
  | array items => array (rereadItems back items)
  | object entries => object (rereadEntries back entries)
  | other => other

def rereadItems (back : F64 → F64) : List Value → List Value
  | [] => []
  | item :: rest => item.reread back :: rereadItems back rest

def rereadEntries (back : F64 → F64) : Map → Map
  | [] => []
  | (key, value) :: rest => (key, value.reread back) :: rereadEntries back rest

end

theorem lookup_rereadEntries (back : F64 → F64) (key : String) (entries : Map) :
    (rereadEntries back entries).lookup key = (entries.lookup key).map (reread back) := by
  induction entries with
  | nil => rfl
  | cons first rest ih =>
    rw [rereadEntries, List.lookup_cons, List.lookup_cons]
    split
    · rfl
    · exact ih

theorem reread_eq_null {back : F64 → F64} {value : Value} : value.reread back = null ↔ value = null := by
  cases value with
  | number value => cases value <;> simp [reread]
  | _ => simp [reread]

/-! Accessors. Indexing a missing key or a non-object gives `null`, as
`value[key]` does; `get?` distinguishes the missing key. -/

def asObject : Value → Option Map
  | object entries => some entries
  | _ => none

def asArray : Value → Option (List Value)
  | array items => some items
  | _ => none

def asStr : Value → Option String
  | string value => some value
  | _ => none

def asNumber : Value → Option Number
  | number value => some value
  | _ => none

def asU64 (value : Value) : Option ℕ :=
  value.asNumber.bind Number.asU64

def asI64 (value : Value) : Option ℤ :=
  value.asNumber.bind Number.asI64

def get? (value : Value) (key : String) : Option Value :=
  value.asObject.bind (List.lookup key)

def index (value : Value) (key : String) : Value :=
  (value.get? key).getD null

/-- The elements of an array, and none of any other value. -/
def items (value : Value) : List Value :=
  value.asArray.getD []

/-- The entries of an object, and none of any other value. -/
def entries (value : Value) : Map :=
  value.asObject.getD []

@[simp] theorem items_array (items : List Value) : (array items).items = items := rfl

@[simp] theorem entries_object (entries : Map) : (object entries).entries = entries := rfl

theorem size_lt_of_mem_items {value item : Value} (member : item ∈ value.items) :
    item.size < value.size := by
  cases value with
  | array items => exact size_lt_array member
  | _ => cases member

theorem size_lt_of_mem_entries {value : Value} {entry : String × Value}
    (member : entry ∈ value.entries) : entry.2.size < value.size := by
  cases value with
  | object entries =>
    have bound : entry.2.size ≤ sizeEntries entries := size_le_entries member
    simp only [size]
    omega
  | _ => cases member

@[simp] theorem asArray_eq_some {value : Value} {items : List Value} :
    value.asArray = some items ↔ value = array items := by
  cases value <;> simp [asArray]

@[simp] theorem asObject_eq_some {value : Value} {entries : Map} :
    value.asObject = some entries ↔ value = object entries := by
  cases value <;> simp [asObject]

@[simp] theorem asStr_eq_some {value : Value} {text : String} :
    value.asStr = some text ↔ value = string text := by
  cases value <;> simp [asStr]

@[simp] theorem get?_object (entries : Map) (key : String) :
    (object entries).get? key = entries.lookup key := rfl

@[simp] theorem index_object (entries : Map) (key : String) :
    (object entries).index key = (entries.lookup key).getD null := rfl

theorem index_eq {value found : Value} {key : String} (present : value.index key = found)
    (nonnull : found ≠ null) : ∃ entries, value = object entries ∧ entries.lookup key = some found := by
  cases value with
  | object entries =>
    refine ⟨entries, rfl, ?_⟩
    rw [index_object] at present
    cases here : entries.lookup key with
    | none => exact absurd (by rw [← present, here]; rfl) nonnull
    | some item => rw [← present, here]; rfl
  | _ => exact absurd present.symm nonnull

theorem index_size_le (value : Value) (key : String) : (value.index key).size ≤ value.size := by
  cases value with
  | object entries =>
    rw [index_object]
    cases found : entries.lookup key with
    | none => exact size_pos _
    | some item => exact (size_lt_object found).le
  | _ => exact size_pos _

theorem size_lt_of_mem_index {schema variant : Value} {key : String} {variants : List Value}
    (found : (schema.index key).asArray = some variants) (member : variant ∈ variants) :
    variant.size < schema.size := by
  have whole := asArray_eq_some.mp found
  have inner := size_lt_array member
  rw [← whole] at inner
  exact inner.trans_le (index_size_le schema key)

theorem size_le_of_mem_index {schema : Value} {key : String} {properties : Map}
    {entry : String × Value} (found : (schema.index key).asObject = some properties)
    (member : entry ∈ properties) : entry.2.size ≤ schema.size := by
  have whole := asObject_eq_some.mp found
  have inner : entry.2.size ≤ (object properties).size :=
    (size_le_entries member).trans (by simp [size])
  rw [← whole] at inner
  exact inner.trans (index_size_le schema key)

theorem size_get?_lt {schema part : Value} {key : String} (found : schema.get? key = some part) :
    part.size < schema.size := by
  cases schema with
  | object entries => exact size_lt_object found
  | _ => cases found

/-! The `BTreeMap` order, at every level. -/

mutual

def wellFormed : Value → Bool
  | array items => wellFormedItems items
  | object entries => decide (OrderedMap.Ordered entries) && wellFormedEntries entries
  | null | bool _ | number _ | string _ => true

def wellFormedItems : List Value → Bool
  | [] => true
  | item :: rest => item.wellFormed && wellFormedItems rest

def wellFormedEntries : Map → Bool
  | [] => true
  | (_, value) :: rest => value.wellFormed && wellFormedEntries rest

end

@[simp] theorem wellFormed_array {items : List Value} :
    (array items).wellFormed = true ↔ ∀ item ∈ items, item.wellFormed = true := by
  have spread : wellFormedItems items = true ↔ ∀ item ∈ items, item.wellFormed = true := by
    induction items with
    | nil => simp [wellFormedItems]
    | cons first rest ih => simp [wellFormedItems, ih]
  simpa [wellFormed] using spread

@[simp] theorem wellFormed_object {entries : Map} :
    (object entries).wellFormed = true ↔
      OrderedMap.Ordered entries ∧ ∀ entry ∈ entries, entry.2.wellFormed = true := by
  have spread : wellFormedEntries entries = true ↔
      ∀ entry ∈ entries, entry.2.wellFormed = true := by
    induction entries with
    | nil => simp [wellFormedEntries]
    | cons first rest ih =>
      obtain ⟨key, value⟩ := first
      simp only [wellFormedEntries, Bool.and_eq_true, ih, List.forall_mem_cons]
  simp only [wellFormed, Bool.and_eq_true, decide_eq_true_eq, spread]

theorem wellFormed_of_lookup {entries : Map} {key : String} {value : Value}
    (formed : (object entries).wellFormed = true) (found : entries.lookup key = some value) :
    value.wellFormed = true :=
  (wellFormed_object.mp formed).2 _ (OrderedMap.mem_of_lookup found)

end Value

/-- A document the program can hold: every map of it is a `BTreeMap`. -/
structure Document where
  value : Value
  wellFormed : value.wellFormed = true

end ExomonadHarness.Json
