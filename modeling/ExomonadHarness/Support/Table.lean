import Mathlib

/-! Tables of rows with a primary key. -/

variable {Key Row : Type}

/-- Rows with distinct keys, oldest first. -/
structure Table (key : Row → Key) where
  rows : List Row
  distinct : (rows.map key).Nodup

namespace Table

variable {key : Row → Key}

@[ext] theorem ext {left right : Table key} (same : left.rows = right.rows) : left = right := by
  cases left
  cases right
  cases same
  rfl

def empty : Table key where
  rows := []
  distinct := List.nodup_nil

def single (row : Row) : Table key where
  rows := [row]
  distinct := List.nodup_singleton _

/-- Change rows in place; no change moves a row to another key. -/
def update (table : Table key) (change : Row → Row) (keeps : ∀ row, key (change row) = key row) :
    Table key where
  rows := table.rows.map change
  distinct := by
    have same : (table.rows.map change).map key = table.rows.map key := by
      rw [List.map_map]
      exact List.map_congr_left fun row _ => keeps row
    rw [same]
    exact table.distinct

variable [DecidableEq Key]

def find? (table : Table key) (wanted : Key) : Option Row :=
  table.rows.find? (key · = wanted)

/-- Insert a row whose key is not taken. -/
def insert? (table : Table key) (row : Row) : Option (Table key) :=
  if taken : key row ∈ table.rows.map key then none
  else some
    { rows := table.rows ++ [row]
      distinct := by
        rw [List.map_append, List.nodup_append]
        refine ⟨table.distinct, List.nodup_singleton _, ?_⟩
        intro old member new added same
        rw [List.map_singleton, List.mem_singleton] at added
        exact taken (added ▸ same ▸ member) }

section

variable {table next : Table key} {row old : Row} {wanted : Key}

theorem mem_of_find? (found : table.find? wanted = some row) : row ∈ table.rows :=
  List.mem_of_find?_eq_some found

theorem key_of_find? (found : table.find? wanted = some row) : key row = wanted := by
  simpa using List.find?_some found

theorem find?_eq_none : table.find? wanted = none ↔ ∀ row ∈ table.rows, key row ≠ wanted := by
  simp [find?, List.find?_eq_none]

theorem find?_key (member : row ∈ table.rows) : table.find? (key row) = some row := by
  obtain ⟨rows, distinct⟩ := table
  simp only [find?] at *
  induction rows with
  | nil => simp at member
  | cons first rest ih =>
    rw [List.map_cons, List.nodup_cons] at distinct
    rcases List.mem_cons.mp member with same | later
    · subst same
      simp
    · have other : key first ≠ key row := fun same =>
        distinct.1 (same ▸ List.mem_map_of_mem later)
      rw [List.find?_cons_of_neg (by simpa using other)]
      exact ih distinct.2 later

theorem mem_iff_find? : row ∈ table.rows ↔ table.find? (key row) = some row :=
  ⟨find?_key, mem_of_find?⟩

@[simp] theorem find?_update {change : Row → Row} {keeps : ∀ row, key (change row) = key row} :
    (table.update change keeps).find? wanted = (table.find? wanted).map change := by
  simp only [find?, update, List.find?_map]
  congr 2
  funext row
  simp [keeps]

theorem insert?_eq_some :
    table.insert? row = some next ↔
      table.find? (key row) = none ∧ next.rows = table.rows ++ [row] := by
  unfold insert?
  split
  case isTrue taken =>
    refine ⟨fun impossible => by simp at impossible, fun both => ?_⟩
    obtain ⟨old, member, same⟩ := List.mem_map.mp taken
    exact absurd same (find?_eq_none.mp both.1 old member)
  case isFalse free =>
    constructor
    · intro inserted
      cases inserted
      refine ⟨find?_eq_none.mpr fun old member same => ?_, rfl⟩
      exact free (same ▸ List.mem_map_of_mem member)
    · intro both
      exact congrArg some (Table.ext both.2.symm)

theorem insert?_eq_none : table.insert? row = none ↔ ∃ old, table.find? (key row) = some old := by
  unfold insert?
  split
  case isTrue taken =>
    obtain ⟨old, member, same⟩ := List.mem_map.mp taken
    exact ⟨fun _ => ⟨old, same ▸ find?_key member⟩, fun _ => rfl⟩
  case isFalse free =>
    constructor
    · intro impossible
      simp at impossible
    · intro taken
      obtain ⟨old, found⟩ := taken
      exact absurd (key_of_find? found ▸ List.mem_map_of_mem (mem_of_find? found)) free

theorem exists_insert (free : table.find? (key row) = none) :
    ∃ next, table.insert? row = some next := by
  rw [← Option.isSome_iff_exists, Option.isSome_iff_ne_none]
  intro taken
  obtain ⟨old, found⟩ := insert?_eq_none.mp taken
  cases free.symm.trans found

theorem find?_insert (inserted : table.insert? row = some next) :
    next.find? wanted = if key row = wanted then some row else table.find? wanted := by
  obtain ⟨free, rows⟩ := insert?_eq_some.mp inserted
  simp only [find?, rows, List.find?_append]
  split
  case isTrue same =>
    subst same
    rw [find?] at free
    simp [free]
  case isFalse other => simp [other]

theorem find?_insert_self (inserted : table.insert? row = some next) :
    next.find? (key row) = some row :=
  (find?_insert inserted).trans (if_pos rfl)

end

end Table
