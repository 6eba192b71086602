import Mathlib.Algebra.Order.Ring.Nat
import Mathlib.Data.Finmap

/-
  This file implements bulk changes of hash tables. A table is an association list without duplicate
  keys, whose order is the order of iteration.
-/

----
-- Bulk Changes
----

abbrev HashTable (Key Value : Type) :=
  AList fun _ : Key => Value

namespace HashTable

variable {Key Value : Type} [DecidableEq Key]

section

variable (table : HashTable Key Value)

def retain (keep : Key → Value → Bool) : HashTable Key Value where
  entries := table.entries.filter fun entry => keep entry.1 entry.2
  nodupKeys := List.NodupKeys.sublist List.filter_sublist table.nodupKeys

def mapValues (change : Value → Value) : HashTable Key Value where
  entries := table.entries.map fun entry => ⟨entry.1, change entry.2⟩
  nodupKeys := by
    unfold List.NodupKeys List.keys
    rw [List.map_map]
    exact table.nodupKeys

/- Write an entry, if there is one. -/
def putOptional : Option (Key × Value) → HashTable Key Value
| none => table
| some (key, value) => table.insert key value

def putAll (entries : List (Key × Value)) : HashTable Key Value :=
  entries.foldl (fun written entry => written.insert entry.1 entry.2) table

def deleteAll (keys : List Key) : HashTable Key Value :=
  keys.foldl (fun left key => left.erase key) table

end

end HashTable

----
-- Lookups
----

namespace HashTable

open List AList

section

variable {Key Value : Type} [DecidableEq Key] {table : HashTable Key Value}

theorem perm_entries {x : HashTable Key Value}
    (hEq : ∀ k, x.lookup k = table.lookup k) : x.entries.Perm table.entries := by
  refine lookup_ext x.nodupKeys table.nodupKeys ?_
  intro k v
  exact Iff.of_eq (congrArg (v ∈ ·) (hEq k))

variable {key : Key} {value : Value}

/- Any entry can come first in the order of iteration. -/
theorem exists_order (hGot : table.lookup key = some value) :
    ∃ (order : HashTable Key Value) (xs : List (Sigma fun _ => Value)),
      order.entries = ⟨key, value⟩ :: xs ∧ order.entries.Perm table.entries := by
  rcases append_of_mem (mem_lookup_iff.mp hGot) with ⟨front, back, hEntries⟩
  have hPerm : (⟨key, value⟩ :: (front ++ back)).Perm table.entries := by
    rw [hEntries]
    exact perm_middle.symm
  exact ⟨⟨_, (perm_nodupKeys hPerm).mpr table.nodupKeys⟩, _, rfl, hPerm⟩

theorem mem_iff : key ∈ table ↔ ∃ value, table.lookup key = some value := by
  rw [← lookup_isSome, Option.isSome_iff_exists]

theorem lookup_insert_cases {x : Key} {y : Value}
    (hGot : (table.insert key value).lookup x = some y) :
    x = key ∧ y = value ∨ x ≠ key ∧ table.lookup x = some y := by
  by_cases hEq : x = key
  · rw [hEq, lookup_insert] at hGot
    exact .inl ⟨hEq, (Option.some.inj hGot).symm⟩
  · rw [lookup_insert_ne hEq] at hGot
    exact .inr ⟨hEq, hGot⟩

/- A table that is a list of entries, one entry later. -/
theorem lookup_insert_iff_exists {Entry : Type} {es : List Entry} {e : Entry}
    {keyOf : Entry → Key} {valueOf : Entry → Value}
    (hOld : ∀ k v, table.lookup k = some v ↔ ∃ x ∈ es, keyOf x = k ∧ valueOf x = v)
    (hFresh : ∀ x ∈ es, keyOf x ≠ keyOf e) (k : Key) (v : Value) :
    (table.insert (keyOf e) (valueOf e)).lookup k = some v ↔
      ∃ x ∈ es ++ [e], keyOf x = k ∧ valueOf x = v := by
  simp only [mem_append, mem_singleton, or_and_right, exists_or, exists_eq_left]
  by_cases hKey : k = keyOf e
  · rw [hKey, lookup_insert, Option.some.injEq, or_iff_right]
    · exact (and_iff_right rfl).symm
    · rintro ⟨x, hx, hAt, _⟩
      exact hFresh x hx hAt
  · rw [lookup_insert_ne hKey, hOld]
    exact (or_iff_left fun hNew => hKey hNew.1.symm).symm

theorem lookup_insert_self (hThere : table.lookup key = some value) (x : Key) :
    (table.insert key value).lookup x = table.lookup x := by
  by_cases hEq : x = key
  · rw [hEq, lookup_insert, hThere]
  · rw [lookup_insert_ne hEq]

theorem length_keys_congr {x : HashTable Key Value}
    (hEq : ∀ key, x.lookup key = table.lookup key) : x.keys.length = table.keys.length :=
  ((perm_entries hEq).map Sigma.fst).length_eq

theorem lookup_retain (table : HashTable Key Value) (keep : Key → Value → Bool) (key : Key) :
    (retain table keep).lookup key = (table.lookup key).filter (keep key) := by
  refine Option.ext fun value => ?_
  rw [Option.filter_eq_some_iff, ← Option.mem_def, mem_lookup_iff, ← Option.mem_def, mem_lookup_iff]
  exact mem_filter

theorem lookup_mapValues (table : HashTable Key Value) (change : Value → Value) (key : Key) :
    (mapValues table change).lookup key = (table.lookup key).map change := by
  refine Option.ext fun value => ?_
  rw [← Option.mem_def, mem_lookup_iff, Option.map_eq_some_iff]
  constructor
  · intro hMem
    rcases mem_map.mp hMem with ⟨e, hRow, hEq⟩
    cases hEq
    exact ⟨e.2, mem_lookup_iff.mpr hRow, rfl⟩
  · rintro ⟨old, hOld, rfl⟩
    exact mem_map.mpr ⟨⟨key, old⟩, mem_lookup_iff.mp hOld, rfl⟩

theorem lookup_singleton (key x : Key) (value : Value) :
    (AList.singleton key value : HashTable Key Value).lookup x =
      if x = key then some value else none := by
  by_cases hEq : x = key
  · subst hEq
    simp [AList.singleton, AList.lookup]
  · simp [AList.singleton, AList.lookup, hEq]

theorem lookup_singleton_iff {x : Key} {y : Value} :
    (AList.singleton key value : HashTable Key Value).lookup x = some y ↔ x = key ∧ value = y := by
  simp [lookup_singleton]

theorem lookup_putOptional_some (table : HashTable Key Value) (key x : Key) (value : Value) :
    (putOptional table (some (key, value))).lookup x = if x = key then some value
      else table.lookup x := by
  unfold putOptional
  by_cases hEq : x = key
  · rw [if_pos hEq, hEq, lookup_insert]
  · rw [if_neg hEq, lookup_insert_ne hEq]

theorem length_insert_le (table : HashTable Key Value) (key : Key) (v : Value) :
    (table.insert key v).entries.length ≤ table.entries.length + 1 := by
  simpa using (kerase_sublist key table.entries).length_le

theorem filter_insert {v : Value} {test : (Σ _ : Key, Value) → Bool}
    (hNot : ∀ v, test ⟨key, v⟩ = false) :
    (table.insert key v).entries.filter test = table.entries.filter test := by
  rw [entries_insert, filter_cons_of_neg (by simp [hNot])]
  generalize table.entries = entries
  induction entries with
  | nil => rfl
  | cons e xs ih =>
    by_cases hKey : key = e.1
    · subst hKey
      rw [kerase_cons_eq rfl, filter_cons_of_neg (by simp [hNot])]
    · simp [kerase_cons_ne hKey, filter_cons, ih]

theorem length_deleteAll_le (table : HashTable Key Value) (keys : List Key) :
    (deleteAll table keys).entries.length ≤ table.entries.length := by
  induction keys generalizing table with
  | nil => exact le_rfl
  | cons key xs ih =>
    have hErase : (table.erase key).entries.length ≤ table.entries.length :=
        (kerase_sublist key table.entries).length_le
    exact le_trans (ih (table.erase key)) hErase

theorem lookup_deleteAll (table : HashTable Key Value) (keys : List Key) (key : Key) :
    (deleteAll table keys).lookup key = if key ∈ keys then none else table.lookup key := by
  unfold deleteAll
  induction keys generalizing table with
  | nil => simp
  | cons a xs ih =>
    rw [foldl_cons, ih]
    by_cases hxs : key ∈ xs
    · simp [hxs]
    · by_cases hFst : key = a
      · rw [hFst, lookup_erase]
        simp
      · simp [hxs, hFst, lookup_erase_ne]

theorem lookup_of_deleteAll {keys : List Key} (hGot : (deleteAll table keys).lookup key = some value) :
    table.lookup key = some value := by
  rw [lookup_deleteAll] at hGot
  split at hGot
  · cases hGot
  · exact hGot

theorem mem_putAll {entries : List (Key × Value)} :
    key ∈ putAll table entries ↔ key ∈ table ∨ key ∈ entries.map Prod.fst := by
  induction entries generalizing table with
  | nil => exact (or_iff_left not_mem_nil).symm
  | cons a xs ih =>
    refine ih.trans ?_
    rw [mem_insert, map_cons, mem_cons, or_assoc, or_left_comm]

theorem lookup_putAll_of_not_mem (table : HashTable Key Value) (entries : List (Key × Value))
    (hFresh : ∀ value, (key, value) ∉ entries) :
    (putAll table entries).lookup key = table.lookup key := by
  unfold putAll
  induction entries generalizing table with
  | nil => rfl
  | cons a xs ih =>
    rw [foldl_cons, ih]
    · apply lookup_insert_ne
      intro hEq
      exact hFresh a.2 (hEq ▸ mem_cons_self)
    · intro value hValue
      exact hFresh value (mem_cons_of_mem _ hValue)

theorem mem_of_lookup_putAll {entries : List (Key × Value)}
    (hGot : (putAll table entries).lookup key = some value) :
    (key, value) ∈ entries ∨ (∀ x, (key, x) ∉ entries) ∧ table.lookup key = some value := by
  induction entries generalizing table with
  | nil => exact .inr ⟨fun _ => not_mem_nil, hGot⟩
  | cons a xs ih =>
    rcases ih hGot with hxs | ⟨hFresh, hTable⟩
    · exact .inl (mem_cons_of_mem _ hxs)
    · rcases lookup_insert_cases hTable with ⟨rfl, rfl⟩ | ⟨hOther, hTable⟩
      · exact .inl mem_cons_self
      · refine .inr ⟨fun x => not_mem_cons_of_ne_of_not_mem ?_ (hFresh x), hTable⟩
        rintro rfl
        exact hOther rfl

theorem lookup_putAll_of_mem (table : HashTable Key Value) (entries : List (Key × Value))
    (hMem : (key, value) ∈ entries) (hAgree : ∀ x, (key, x) ∈ entries → x = value) :
    (putAll table entries).lookup key = some value := by
  rcases mem_iff.mp (mem_putAll.mpr (.inr (mem_map_of_mem hMem))) with ⟨x, hx⟩
  rcases mem_of_lookup_putAll hx with hFound | ⟨hFresh, _⟩
  · rw [hx, hAgree x hFound]
  · exact absurd hMem (hFresh value)

----
-- Entries Made on Demand
----

def entryOr (table : HashTable Key Value) (key : Key) (value : Value) :
    Value × HashTable Key Value :=
  match table.lookup key with
  | some found => (found, table)
  | none => (value, table.insert key value)

def Memo (table : HashTable Key Value) (function : Key → Value) : Prop :=
  ∀ key value, table.lookup key = some value → value = function key

theorem Memo.empty (function : Key → Value) : Memo (∅ : HashTable Key Value) function := by
  intro key value hGot
  cases hGot

theorem Memo.entryOr {function : Key → Value} (hMemo : Memo table function) (key : Key) :
    (entryOr table key (function key)).1 = function key ∧
      Memo (entryOr table key (function key)).2 function := by
  unfold HashTable.entryOr
  cases hGot : table.lookup key with
  | some y => exact ⟨hMemo key y hGot, hMemo⟩
  | none =>
    refine ⟨rfl, ?_⟩
    intro x value hx
    rcases lookup_insert_cases hx with ⟨rfl, rfl⟩ | ⟨_, hx⟩
    · rfl
    · exact hMemo x value hx

end

----
-- Groups
----

variable {Key Item : Type} [DecidableEq Key]

def push (table : HashTable Key (List Item)) (key : Key) (item : Item) :
    HashTable Key (List Item) :=
  table.insert key ((table.lookup key).getD [] ++ [item])

def group (entries : List (Key × Item)) : HashTable Key (List Item) :=
  entries.foldl (fun table entry => push table entry.1 entry.2) ∅

def itemsOf (entries : List (Key × Item)) (key : Key) : List Item :=
  (entries.filter fun entry => entry.1 = key).map Prod.snd

theorem mem_itemsOf {entries : List (Key × Item)} {k : Key} {item : Item} :
    item ∈ itemsOf entries k ↔ (k, item) ∈ entries := by
  simp only [itemsOf, mem_map, mem_filter, decide_eq_true_eq]
  constructor
  · rintro ⟨e, ⟨hRow, rfl⟩, rfl⟩
    exact hRow
  · intro hRow
    exact ⟨(k, item), ⟨hRow, rfl⟩, rfl⟩

theorem itemsOf_concat (front : List (Key × Item)) (last : Key × Item) (k : Key) :
    itemsOf (front ++ [last]) k = if last.1 = k then itemsOf front k ++ [last.2]
      else itemsOf front k := by
  unfold itemsOf
  by_cases hLast : last.1 = k
  · simp [hLast]
  · simp [hLast]

theorem lookup_group (entries : List (Key × Item)) (k : Key) :
    (group entries).lookup k = if itemsOf entries k = [] then none
      else some (itemsOf entries k) := by
  unfold group
  induction entries using List.reverseRecOn with
  | nil => exact lookup_empty k
  | append_singleton front last ih =>
    rw [foldl_append, foldl_cons, foldl_nil, push, itemsOf_concat]
    by_cases hLast : last.1 = k
    · subst hLast
      rw [lookup_insert, ih]
      by_cases hNone : itemsOf front last.1 = []
      · simp [hNone]
      · simp [hNone]
    · rw [lookup_insert_ne (Ne.symm hLast), ih, if_neg hLast]

end HashTable
