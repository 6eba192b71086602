import Mathlib.Data.Finset.Card
import Pharos.Lib.HashTable

/-
  This file implements caches that forget what was written longest ago. The entries are in the order
  of iteration, with the one written last in front.
-/

----
-- Caches
----

/- A table that never has more entries than it has room for. -/
structure LruCache (Key Value : Type) (capacity : Nat) where
  table : HashTable Key Value
  bounded : table.entries.length ≤ capacity

namespace LruCache

variable {Key Value : Type} [DecidableEq Key] {capacity : Nat}

def empty : LruCache Key Value capacity where
  table := ∅
  bounded := Nat.zero_le capacity

variable (cache : LruCache Key Value capacity)

def peek (key : Key) : Option Value :=
  cache.table.lookup key

def values : List Value :=
  cache.table.entries.map Sigma.snd

def front (table : HashTable Key Value) (count : Nat) : HashTable Key Value where
  entries := table.entries.take count
  nodupKeys := List.NodupKeys.sublist (List.take_sublist _ _) table.nodupKeys

/- Write an entry in front. If there is no room left, the last entry goes. -/
def put (key : Key) (value : Value) : LruCache Key Value capacity where
  table := front (cache.table.insert key value) capacity
  bounded := List.length_take_le _ _

def putIfAbsent (key : Key) (value : Value) : LruCache Key Value capacity :=
  match cache.peek key with
  | some _ => cache
  | none => cache.put key value

def popAll (keys : List Key) : LruCache Key Value capacity where
  table := HashTable.deleteAll cache.table keys
  bounded := le_trans (HashTable.length_deleteAll_le _ _) cache.bounded

def drain (limit : Nat) (test : Value → Bool) : List Value × LruCache Key Value capacity :=
  let drained := (cache.table.entries.filter fun entry => test entry.2).take limit
  (drained.map Sigma.snd, cache.popAll (drained.map Sigma.fst))

end LruCache

----
-- Lookups
----

namespace LruCache

open List

variable {Key Value : Type} [DecidableEq Key] {capacity : Nat}

variable {cache : LruCache Key Value capacity} {v : Value}

theorem mem_values_of_peek {k : Key} (hPeek : cache.peek k = some v) : v ∈ cache.values :=
  mem_map.mpr ⟨⟨k, v⟩, AList.mem_lookup_iff.mp hPeek, rfl⟩

theorem mem_values_put {k : Key} {y : Value} (hGot : y ∈ (cache.put k v).values) :
    y = v ∨ y ∈ cache.values := by
  rcases mem_map.mp hGot with ⟨e, hRow, rfl⟩
  have hPeek := AList.mem_lookup_iff.mpr (mem_of_mem_take hRow)
  rcases HashTable.lookup_insert_cases hPeek with ⟨_, hNew⟩ | ⟨_, hOld⟩
  · exact .inl hNew
  · exact .inr (mem_values_of_peek hOld)

/- Nothing is forgotten while there is room. -/
theorem peek_put (hRoom : cache.table.entries.length < capacity) (k x : Key) (v : Value) :
    (cache.put k v).peek x = if x = k then some v else cache.peek x := by
  have hTable : front (cache.table.insert k v) capacity = cache.table.insert k v :=
    AList.ext (take_of_length_le ((HashTable.length_insert_le _ _ _).trans hRoom))
  change (front (cache.table.insert k v) capacity).lookup x = _
  rw [hTable]
  split
  · subst x
    exact AList.lookup_insert _
  · exact AList.lookup_insert_ne ‹_›

theorem length_putIfAbsent_le (k : Key) (v : Value) :
    (cache.putIfAbsent k v).table.entries.length ≤ cache.table.entries.length + 1 := by
  unfold putIfAbsent
  split
  · exact Nat.le_succ _
  · exact (length_take_le' _ _).trans (HashTable.length_insert_le _ _ _)

theorem isSome_peek_putIfAbsent (hRoom : cache.table.entries.length < capacity) (k x : Key)
    (v : Value) : ((cache.putIfAbsent k v).peek x).isSome ↔ (cache.peek x).isSome ∨ x = k := by
  unfold putIfAbsent
  split
  · rename_i hPeek
    exact (or_iff_left_of_imp fun hEq => by simp [hEq, hPeek]).symm
  · rw [peek_put hRoom]
    split <;> simp_all

theorem mem_values_putIfAbsent {k : Key}
    (hRoom : cache.peek k = none → cache.table.entries.length < capacity) (y : Value) :
    y ∈ (cache.putIfAbsent k v).values ↔ y ∈ cache.values ∨ cache.peek k = none ∧ y = v := by
  unfold putIfAbsent
  split
  · simp [*]
  · rename_i hNone
    have hRows : (cache.table.insert k v).entries = ⟨k, v⟩ :: cache.table.entries :=
      AList.entries_insert_of_notMem (AList.lookup_eq_none.mp hNone)
    have hFits : (⟨k, v⟩ :: cache.table.entries : List (Σ _ : Key, Value)).length ≤ capacity :=
      hRoom hNone
    have hPut : (cache.put k v).table.entries = ⟨k, v⟩ :: cache.table.entries :=
      (congrArg (take capacity) hRows).trans (take_of_length_le hFits)
    simp [values, hPut, hNone, or_comm]

theorem find?_concat_key_iff (keyOf : Value → Key) {vs : List Value} {y : Value} :
    (vs ++ [v]).find? (fun o => keyOf o = keyOf y) = some y ↔
      vs.find? (fun o => keyOf o = keyOf y) = some y ∨ keyOf y ∉ vs.map keyOf ∧ y = v := by
  have hLast : [v].find? (fun o => keyOf o = keyOf y) = some y ↔ y = v := by grind
  rw [find?_append, Option.or_eq_some_iff, hLast, find?_eq_none]
  simp

/-
  Values put in turn, each under its own key: while there is room for all keys, the first value of
  each new key is kept.
-/
theorem mem_values_foldl_putIfAbsent (keyOf : Value → Key) {vs : List Value}
    (hRoom : cache.table.entries.length + (vs.map keyOf).toFinset.card ≤ capacity) :
    let after := vs.foldl (fun kept v => kept.putIfAbsent (keyOf v) v) cache
    after.table.entries.length ≤ cache.table.entries.length + (vs.map keyOf).toFinset.card ∧
      (∀ k, after.peek k = none ↔ cache.peek k = none ∧ k ∉ vs.map keyOf) ∧
      ∀ y, y ∈ after.values ↔ y ∈ cache.values ∨
        cache.peek (keyOf y) = none ∧ vs.find? (fun v => keyOf v = keyOf y) = some y := by
  induction vs using List.reverseRecOn with
  | nil => simp
  | append_singleton vs v ih =>
    have hKeys : ((vs ++ [v]).map keyOf).toFinset = insert (keyOf v) (vs.map keyOf).toFinset := by
      ext k
      simp
    rw [hKeys] at hRoom ⊢
    have hLess := Finset.card_le_card (Finset.subset_insert (keyOf v) (vs.map keyOf).toFinset)
    rcases ih (by omega) with ⟨hLength, hPeek, hValues⟩
    rw [foldl_append, foldl_cons, foldl_nil]
    generalize vs.foldl (fun kept v => kept.putIfAbsent (keyOf v) v) cache = kept at *
    cases hOwn : kept.peek (keyOf v) with
    | some own =>
      have hTaken : ¬(cache.peek (keyOf v) = none ∧ keyOf v ∉ vs.map keyOf) := by
        rw [← hPeek, hOwn]
        simp
      have hSame : kept.putIfAbsent (keyOf v) v = kept := by rw [putIfAbsent, hOwn]
      rw [hSame]
      refine ⟨by omega, fun k => ?_, fun y => ?_⟩
      · rw [hPeek, map_append, mem_append]
        grind
      · rw [hValues, find?_concat_key_iff]
        grind
    | none =>
      have hFresh := (hPeek _).mp hOwn
      have hOut : keyOf v ∉ (vs.map keyOf).toFinset := by simpa using hFresh.2
      rw [Finset.card_insert_of_notMem hOut] at hRoom ⊢
      have hSpace : kept.table.entries.length < capacity := by omega
      refine ⟨(length_putIfAbsent_le _ _).trans (by omega), fun k => ?_, fun y => ?_⟩
      · have hPut : kept.putIfAbsent (keyOf v) v = kept.put (keyOf v) v := by rw [putIfAbsent, hOwn]
        rw [hPut, peek_put hSpace, map_append, mem_append]
        grind
      · rw [mem_values_putIfAbsent fun _ => hSpace, hValues, find?_concat_key_iff]
        grind

theorem drained_put_empty (hCapacity : 0 < capacity) {limit : Nat} (hLimit : 0 < limit)
    {test : Value → Bool} (hTest : test v = true) (k : Key) :
    (((empty : LruCache Key Value capacity).put k v).drain limit test).1 = [v] := by
  have hEntries : ((empty : LruCache Key Value capacity).put k v).table.entries =
      [⟨k, v⟩] := take_of_length_le hCapacity
  have hOne : ([⟨k, v⟩] : List (Σ _ : Key, Value)).take limit = [⟨k, v⟩] :=
      take_of_length_le hLimit
  simp [drain, hEntries, hTest, hOne]

theorem mem_values_of_mem_drained {limit : Nat} {test : Value → Bool}
    (hDrained : v ∈ (cache.drain limit test).1) : v ∈ cache.values ∧ test v = true := by
  rcases mem_map.mp hDrained with ⟨e, hRow, rfl⟩
  have hKept := mem_filter.mp (mem_of_mem_take hRow)
  exact ⟨mem_map.mpr ⟨e, hKept.1, rfl⟩, hKept.2⟩

end LruCache
