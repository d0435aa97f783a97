import Mathlib

/-! Association lists in strictly ascending key order. Such a list is the only
representative of its finite map, so list equality is map equality. -/

namespace OrderedMap

universe u v w

variable {Key : Type u} {Item : Type v} [LinearOrder Key]

/-- The keys of the map, in order. -/
def keys (entries : List (Key × Item)) : List Key :=
  entries.map Prod.fst

def Ordered (entries : List (Key × Item)) : Prop :=
  entries.Pairwise fun earlier later => earlier.1 < later.1

instance (entries : List (Key × Item)) : Decidable (Ordered entries) :=
  inferInstanceAs (Decidable (entries.Pairwise _))

/-- Replace the entry at a key, or add it at its place in the key order. -/
def insert (key : Key) (item : Item) : List (Key × Item) → List (Key × Item)
  | [] => [(key, item)]
  | entry :: rest =>
    if key < entry.1 then (key, item) :: entry :: rest
    else if key = entry.1 then (key, item) :: rest
    else entry :: insert key item rest

def remove (key : Key) (entries : List (Key × Item)) : List (Key × Item) :=
  entries.filter fun entry => entry.1 != key

theorem lookup_cons_of_ne {key wanted : Key} (different : wanted ≠ key) (item : Item)
    (rest : List (Key × Item)) : ((key, item) :: rest).lookup wanted = rest.lookup wanted := by
  have test : (wanted == key) = false := beq_eq_false_iff_ne.mpr different
  simp only [List.lookup_cons, test]

/-- Change the value at a key that is present. -/
def replace (key : Key) (item : Item) (entries : List (Key × Item)) : List (Key × Item) :=
  entries.map fun entry => if entry.1 = key then (key, item) else entry

@[simp] theorem lookup_insert (key wanted : Key) (item : Item) (entries : List (Key × Item)) :
    (insert key item entries).lookup wanted =
      if wanted = key then some item else entries.lookup wanted := by
  induction entries with
  | nil =>
    by_cases same : wanted = key
    · simp [insert, same]
    · simp [insert, same, lookup_cons_of_ne]
  | cons entry rest ih =>
    obtain ⟨first, value⟩ := entry
    simp only [insert]
    split
    · by_cases same : wanted = key
      · simp [same]
      · simp [same, lookup_cons_of_ne]
    · split
      · rename_i same
        subst key
        by_cases equal : wanted = first
        · simp [equal]
        · simp [equal, lookup_cons_of_ne]
      · rename_i different
        by_cases equal : wanted = first
        · subst wanted
          simp [Ne.symm different]
        · simp [equal, lookup_cons_of_ne, ih]

/-- Add an entry unless it is absent. -/
def insertSome (key : Key) (item : Option Item) (entries : List (Key × Item)) : List (Key × Item) :=
  match item with
  | none => entries
  | some item => insert key item entries

@[simp] theorem lookup_insertSome (key wanted : Key) (item : Option Item)
    (entries : List (Key × Item)) :
    (insertSome key item entries).lookup wanted =
      if wanted = key then item <|> entries.lookup wanted else entries.lookup wanted := by
  cases item with
  | none => simp [insertSome]
  | some item => simp [insertSome]

theorem lookup_filter (keep : Key → Bool) (wanted : Key) (entries : List (Key × Item)) :
    (entries.filter fun entry => keep entry.1).lookup wanted =
      if keep wanted then entries.lookup wanted else none := by
  induction entries with
  | nil => simp
  | cons entry rest ih =>
    obtain ⟨first, value⟩ := entry
    by_cases kept : keep first = true
    · rw [List.filter_cons_of_pos (by exact kept)]
      by_cases same : wanted = first
      · simp [same, kept]
      · simpa [same, lookup_cons_of_ne] using ih
    · rw [List.filter_cons_of_neg (by exact kept)]
      by_cases same : wanted = first
      · simpa [same, kept] using ih
      · simpa [same, lookup_cons_of_ne] using ih

@[simp] theorem lookup_remove (key wanted : Key) (entries : List (Key × Item)) :
    (remove key entries).lookup wanted =
      if wanted = key then none else entries.lookup wanted := by
  rw [remove, lookup_filter (fun first => first != key)]
  by_cases same : wanted = key <;> simp [same]

/-- Changing each value under its key changes what is found under the key. -/
theorem lookup_map {Other : Type w} (write : Key → Item → Other) (wanted : Key)
    (entries : List (Key × Item)) :
    (entries.map fun entry => (entry.1, write entry.1 entry.2)).lookup wanted =
      (entries.lookup wanted).map (write wanted) := by
  induction entries with
  | nil => rfl
  | cons entry rest ih =>
    obtain ⟨first, value⟩ := entry
    by_cases same : wanted = first
    · simp [same]
    · rw [List.map_cons, lookup_cons_of_ne same, lookup_cons_of_ne same, ih]

@[simp] theorem lookup_replace (key wanted : Key) (item : Item) (entries : List (Key × Item)) :
    (replace key item entries).lookup wanted =
      if wanted = key then (entries.lookup key).map fun _ => item else entries.lookup wanted := by
  have pointwise : replace key item entries =
      entries.map fun entry => (entry.1, if entry.1 = key then item else entry.2) := by
    refine List.map_congr_left fun entry _ => ?_
    split
    case isTrue same => rw [same]
    case isFalse => rfl
  rw [pointwise, lookup_map fun first value => if first = key then item else value]
  by_cases same : wanted = key <;> simp [same]

@[simp] theorem keys_replace (key : Key) (item : Item) (entries : List (Key × Item)) :
    keys (replace key item entries) = keys entries := by
  rw [keys, replace, List.map_map, keys]
  apply List.map_congr_left
  intro entry _
  by_cases same : entry.1 = key <;> simp [same]

theorem mem_insert {key : Key} {item : Item} {entries : List (Key × Item)} {entry : Key × Item}
    (member : entry ∈ insert key item entries) : entry = (key, item) ∨ entry ∈ entries := by
  induction entries with
  | nil => simpa [insert] using member
  | cons first rest ih =>
    simp only [insert] at member
    split at member
    · rcases List.mem_cons.mp member with same | member
      · exact .inl same
      · exact .inr member
    · split at member
      · rcases List.mem_cons.mp member with same | member
        · exact .inl same
        · exact .inr (List.mem_cons_of_mem _ member)
      · rcases List.mem_cons.mp member with same | member
        · exact .inr (same ▸ List.mem_cons_self)
        · exact (ih member).imp_right (List.mem_cons_of_mem _)

theorem Ordered.nil : Ordered ([] : List (Key × Item)) := List.Pairwise.nil

theorem Ordered.insert {entries : List (Key × Item)} (ordered : Ordered entries)
    (key : Key) (item : Item) : Ordered (insert key item entries) := by
  induction entries with
  | nil => simp [OrderedMap.insert, Ordered]
  | cons first rest ih =>
    obtain ⟨below, tail⟩ := List.pairwise_cons.mp ordered
    simp only [OrderedMap.insert]
    split
    · rename_i before
      refine List.pairwise_cons.mpr ⟨?_, ordered⟩
      intro entry member
      rcases List.mem_cons.mp member with same | member
      · exact same ▸ before
      · exact before.trans (below entry member)
    · split
      · rename_i same
        exact List.pairwise_cons.mpr ⟨fun entry member => same ▸ below entry member, tail⟩
      · rename_i notBefore different
        refine List.pairwise_cons.mpr ⟨?_, ih tail⟩
        intro entry member
        rcases mem_insert member with same | member
        · subst entry
          exact lt_of_le_of_ne (not_lt.mp notBefore) (Ne.symm different)
        · exact below entry member

theorem Ordered.filter {entries : List (Key × Item)} (ordered : Ordered entries)
    (keep : Key × Item → Bool) : Ordered (entries.filter keep) :=
  List.Pairwise.filter _ ordered

theorem ordered_iff_keys {entries : List (Key × Item)} :
    Ordered entries ↔ (keys entries).Pairwise (· < ·) := by
  rw [Ordered, keys, List.pairwise_map]

theorem Ordered.replace {entries : List (Key × Item)} (ordered : Ordered entries)
    (key : Key) (item : Item) : Ordered (replace key item entries) := by
  rw [ordered_iff_keys] at ordered ⊢
  rwa [keys_replace]

theorem Ordered.remove {entries : List (Key × Item)} (ordered : Ordered entries) (key : Key) :
    Ordered (remove key entries) := ordered.filter _

theorem mem_of_lookup {key : Key} {item : Item} {entries : List (Key × Item)}
    (found : entries.lookup key = some item) : (key, item) ∈ entries := by
  obtain ⟨before, after, same, _⟩ := List.lookup_eq_some_iff.mp found
  simp [same]

theorem Ordered.lookup_of_mem {key : Key} {item : Item} {entries : List (Key × Item)}
    (ordered : Ordered entries) (member : (key, item) ∈ entries) :
    entries.lookup key = some item := by
  induction entries with
  | nil => cases member
  | cons first rest ih =>
    obtain ⟨below, tail⟩ := List.pairwise_cons.mp ordered
    rcases List.mem_cons.mp member with same | member
    · simp [← same]
    · have later : first.1 < key := below _ member
      exact (lookup_cons_of_ne later.ne' first.2 rest).trans (ih tail member)

theorem Ordered.mem_iff_lookup {key : Key} {item : Item} {entries : List (Key × Item)}
    (ordered : Ordered entries) : (key, item) ∈ entries ↔ entries.lookup key = some item :=
  ⟨ordered.lookup_of_mem, mem_of_lookup⟩

theorem mem_keys_iff {key : Key} {entries : List (Key × Item)} :
    key ∈ keys entries ↔ ∃ item, entries.lookup key = some item := by
  rw [← Option.isSome_iff_exists, List.lookup_isSome_iff]
  simp only [keys, List.mem_map, beq_iff_eq, Prod.exists]
  constructor
  · rintro ⟨first, item, member, same⟩
    exact ⟨first, item, member, same.symm⟩
  · rintro ⟨first, item, member, same⟩
    exact ⟨first, item, member, same.symm⟩

theorem Ordered.nodup_keys {entries : List (Key × Item)} (ordered : Ordered entries) :
    (keys entries).Nodup := by
  rw [keys, List.nodup_iff_pairwise_ne, List.pairwise_map]
  exact ordered.imp fun before => before.ne

/-- Two ordered lists with the same lookups are the same list. -/
theorem Ordered.ext {left right : List (Key × Item)} (leftOrdered : Ordered left)
    (rightOrdered : Ordered right) (same : ∀ key, left.lookup key = right.lookup key) :
    left = right := by
  have members : ∀ entry, entry ∈ left ↔ entry ∈ right := by
    rintro ⟨key, item⟩
    rw [leftOrdered.mem_iff_lookup, rightOrdered.mem_iff_lookup, same]
  have distinct {entries : List (Key × Item)} (ordered : Ordered entries) : entries.Nodup :=
    List.Nodup.of_map Prod.fst ordered.nodup_keys
  have shuffled : left.Perm right :=
    (List.perm_ext_iff_of_nodup (distinct leftOrdered) (distinct rightOrdered)).mpr members
  exact shuffled.eq_of_pairwise (fun one two _ _ before after => (before.asymm after).elim)
    leftOrdered rightOrdered

/-- Two maps of one size have the same keys once one has all keys of the other. -/
theorem Ordered.isSome_lookup {Other : Type w} {first : List (Key × Item)}
    {second : List (Key × Other)} (ordered : Ordered first) (sameSize : second.length = first.length)
    (present : ∀ key, (first.lookup key).isSome → (second.lookup key).isSome) {key : Key}
    (found : (second.lookup key).isSome) : (first.lookup key).isSome := by
  have included : keys first ⊆ keys second := by
    intro key member
    obtain ⟨item, found⟩ := mem_keys_iff.mp member
    obtain ⟨other, found⟩ := Option.isSome_iff_exists.mp (present key (by simp [found]))
    exact mem_keys_iff.mpr ⟨other, found⟩
  have bounded : (keys second).length ≤ (keys first).length := by
    simp [keys, sameSize]
  have permuted := (List.subperm_of_subset ordered.nodup_keys included).perm_of_length_le bounded
  obtain ⟨other, found⟩ := Option.isSome_iff_exists.mp found
  have member := permuted.mem_iff.mpr (mem_keys_iff.mpr ⟨other, found⟩)
  obtain ⟨item, found⟩ := mem_keys_iff.mp member
  simp [found]

theorem Ordered.length_eq {Other : Type w} {first : List (Key × Item)} {second : List (Key × Other)}
    (ordered : Ordered first) (otherOrdered : Ordered second)
    (present : ∀ key, (first.lookup key).isSome ↔ (second.lookup key).isSome) :
    first.length = second.length := by
  have members (key : Key) : key ∈ keys first ↔ key ∈ keys second := by
    rw [mem_keys_iff, mem_keys_iff, ← Option.isSome_iff_exists, ← Option.isSome_iff_exists, present]
  have permuted : (keys first).Perm (keys second) :=
    (List.perm_ext_iff_of_nodup ordered.nodup_keys otherOrdered.nodup_keys).mpr members
  simpa [keys] using permuted.length_eq

omit [LinearOrder Key] in
theorem keys_related {Other : Type w} {first : List (Key × Item)} {second : List (Key × Other)}
    (related : List.Forall₂ (fun entry other => entry.1 = other.1) first second) :
    keys first = keys second := by
  induction related with
  | nil => rfl
  | cons here _ ih => rw [keys, keys, List.map_cons, List.map_cons, here, ← keys, ih, keys]

/-- Maps related entry by entry under equal keys are related at every key. -/
theorem lookup_related {Other : Type w} (relation : Key → Item → Other → Prop)
    {first : List (Key × Item)} {second : List (Key × Other)}
    (related : List.Forall₂ (fun entry other => entry.1 = other.1 ∧ relation entry.1 entry.2 other.2)
      first second) (key : Key) :
    first.lookup key = none ∧ second.lookup key = none ∨
      ∃ item other, first.lookup key = some item ∧ second.lookup key = some other ∧
        relation key item other := by
  induction related with
  | nil => exact .inl ⟨rfl, rfl⟩
  | cons here _ ih =>
    rename_i entry other _ _ _
    obtain ⟨name, item⟩ := entry
    obtain ⟨same, here⟩ := here
    obtain ⟨_, otherItem⟩ := other
    subst same
    by_cases equal : key = name
    · subst equal
      exact .inr ⟨item, otherItem, List.lookup_cons_self, List.lookup_cons_self, here⟩
    · rw [lookup_cons_of_ne equal, lookup_cons_of_ne equal]
      exact ih

end OrderedMap
