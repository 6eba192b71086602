import Mathlib.Algebra.Order.Ring.Nat
import Mathlib.Data.List.Nodup

/-
  This file implements tables with a primary key, as a relational database keeps them: a list of
  rows in which no two rows have the same key. The key constraint is a field of the table, so that
  every operation has to keep it.
-/

----
-- Tables
----

/- Rows whose keys are pairwise different. -/
structure KeyedTable {Row Key : Type} (key : Row → Key) where
  rows : List Row
  primaryKey : (rows.map key).Nodup

namespace KeyedTable

variable {Row Key : Type} {key : Row → Key}

instance : Membership Row (KeyedTable key) where
  mem table row := row ∈ table.rows

def empty : KeyedTable key where
  rows := []
  primaryKey := List.nodup_nil

@[simp] theorem not_mem_empty (row : Row) : row ∉ (empty : KeyedTable key) :=
  List.not_mem_nil

theorem mem_def {t : KeyedTable key} {row : Row} : row ∈ t ↔ row ∈ t.rows :=
  Iff.rfl

theorem eq_of_key_eq {t : KeyedTable key} {row x : Row} (hRow : row ∈ t)
    (hx : x ∈ t) (hKey : key row = key x) : row = x :=
  List.inj_on_of_nodup_map t.primaryKey hRow hx hKey

end KeyedTable

----
-- Lookup by Key
----

namespace KeyedTable

open List

section

variable {Row Key : Type} [DecidableEq Key] {key : Row → Key}

def find? (table : KeyedTable key) (wanted : Key) : Option Row :=
  table.rows.find? fun row => key row = wanted

variable {t : KeyedTable key}

theorem find?_eq_some_iff {wanted : Key} {row : Row} :
    t.find? wanted = some row ↔ row ∈ t ∧ key row = wanted := by
  constructor
  · intro hFind
    have hKey := find?_some hFind
    exact ⟨mem_of_find?_eq_some hFind, by simpa using hKey⟩
  · rintro ⟨hRow, hKey⟩
    cases hFind : t.find? wanted with
    | none =>
      have hNone := find?_eq_none.mp hFind row hRow
      exact absurd hKey (by simpa using hNone)
    | some x =>
      have hOtherKey := find?_some hFind
      have hx := mem_of_find?_eq_some hFind
      have hEq : x = row := eq_of_key_eq hx hRow (by
          rw [hKey]
          simpa using hOtherKey)
      rw [hEq]

theorem find?_eq_none_iff {wanted : Key} : t.find? wanted = none ↔ ∀ row ∈ t, key row ≠ wanted := by
  simp [find?, find?_eq_none, mem_def]

theorem find?_key_of_mem {row : Row} (hRow : row ∈ t) : t.find? (key row) = some row :=
  find?_eq_some_iff.mpr ⟨hRow, rfl⟩

end

----
-- Insertion
----

section

variable {Row Key : Type} {key : Row → Key}

def appendFresh (table : KeyedTable key) (row : Row) (hFresh : key row ∉ table.rows.map key) :
    KeyedTable key where
  rows := table.rows ++ [row]
  primaryKey := by
    rw [List.map_append]
    refine List.Nodup.append table.primaryKey ?_ ?_
    · simp
    · simpa using hFresh

variable {table : KeyedTable key} {row x : Row}

theorem mem_appendFresh_iff {hFresh : key row ∉ table.rows.map key} :
    x ∈ table.appendFresh row hFresh ↔ x ∈ table ∨ x = row := by
  simp [mem_def, appendFresh]

variable [DecidableEq Key]

def insert (table : KeyedTable key) (row : Row) : Option (KeyedTable key) :=
  if hTaken : key row ∈ table.rows.map key then none else some (table.appendFresh row hTaken)

def insertOrIgnore (table : KeyedTable key) (row : Row) : KeyedTable key :=
  (table.insert row).getD table

theorem find?_eq_none_iff_fresh : table.find? (key row) = none ↔ key row ∉ table.rows.map key := by
  simp [find?_eq_none_iff, mem_def]

theorem insert_eq_none_iff : table.insert row = none ↔ table.find? (key row) ≠ none := by
  rw [Ne, find?_eq_none_iff_fresh, not_not, insert]
  split <;> simp_all

theorem mem_insert_iff {next : KeyedTable key} (hInsert : table.insert row = some next) :
    x ∈ next ↔ x ∈ table ∨ x = row := by
  unfold insert at hInsert
  split at hInsert
  · cases hInsert
  · cases hInsert
    exact mem_appendFresh_iff

theorem mem_insertOrIgnore_iff : x ∈ table.insertOrIgnore row ↔
      x ∈ table ∨ (x = row ∧ table.find? (key row) = none) := by
  cases hInsert : table.insert row with
  | none =>
    have hTaken := insert_eq_none_iff.mp hInsert
    simp [insertOrIgnore, hInsert, hTaken]
  | some next =>
    have hFree : table.find? (key row) = none := by
      by_contra hTaken
      rw [insert_eq_none_iff.mpr hTaken] at hInsert
      cases hInsert
    simp [insertOrIgnore, hInsert, hFree, mem_insert_iff hInsert]

variable {rows : List Row}

theorem find?_foldl_insertOrIgnore {wanted : Key} : (rows.foldl insertOrIgnore table).find? wanted =
      (table.find? wanted).or (rows.find? fun row => key row = wanted) := by
  induction rows generalizing table with
  | nil => simp
  | cons row xs ih =>
    rw [foldl_cons, ih]
    have hStep : (table.insertOrIgnore row).find? wanted = (table.find? wanted).or
            (if key row = wanted then some row else none) := by
      ext x
      rw [find?_eq_some_iff, mem_insertOrIgnore_iff, Option.or_eq_some_iff, find?_eq_some_iff]
      by_cases hKey : key row = wanted
      · subst hKey
        simp only [if_true, Option.some.injEq]
        constructor
        · rintro ⟨hMem | ⟨rfl, hFree⟩, hx⟩
          · exact .inl ⟨hMem, hx⟩
          · exact .inr ⟨hFree, rfl⟩
        · rintro (⟨hMem, hx⟩ | ⟨hFree, rfl⟩)
          · exact ⟨.inl hMem, hx⟩
          · exact ⟨.inr ⟨rfl, hFree⟩, rfl⟩
      · simp only [hKey, if_false, reduceCtorEq, and_false, or_false]
        constructor
        · rintro ⟨hMem | ⟨rfl, _⟩, hx⟩
          · exact ⟨hMem, hx⟩
          · exact absurd hx hKey
        · rintro ⟨hMem, hx⟩
          exact ⟨.inl hMem, hx⟩
    rw [hStep, Option.or_assoc]
    by_cases hKey : key row = wanted <;> simp [hKey]

theorem mem_of_mem_foldl_insertOrIgnore (hRow : row ∈ rows.foldl insertOrIgnore table) :
    row ∈ table ∨ row ∈ rows := by
  have hFind := find?_key_of_mem hRow
  rw [find?_foldl_insertOrIgnore, Option.or_eq_some_iff] at hFind
  rcases hFind with hTable | ⟨_, hRows⟩
  · exact .inl (find?_eq_some_iff.mp hTable).1
  · exact .inr (mem_of_find?_eq_some hRows)

theorem mem_foldl_insertOrIgnore_of_mem (hRow : row ∈ table) :
    row ∈ rows.foldl insertOrIgnore table := by
  have hFind : (rows.foldl insertOrIgnore table).find? (key row) = some row := by
    rw [find?_foldl_insertOrIgnore, find?_key_of_mem hRow]
    rfl
  exact (find?_eq_some_iff.mp hFind).1

end

variable {Row Key Value : Type} {key : Row → Key}

def minimum [Min Value] (table : KeyedTable key) (filter : Row → Bool) (column : Row → Value) :
    Option Value :=
  ((table.rows.filter filter).map column).min?

theorem minimum_some_iff [Min Value] [LE Value] [Std.IsLinearOrder Value]
    [Std.LawfulOrderMin Value] {t : KeyedTable key} {filter : Row → Bool}
    {col : Row → Value} {v : Value} :
    t.minimum filter col = some v ↔ (∃ row ∈ t, filter row ∧ col row = v) ∧
      ∀ row ∈ t, filter row → v ≤ col row := by
  rw [minimum, min?_eq_some_iff, forall_mem_map]
  simp [mem_def, and_assoc]

end KeyedTable
