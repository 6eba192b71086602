import Mathlib.Algebra.Order.Ring.Nat
import Mathlib.Data.List.Basic

/-
  This file describes the root of a binary tree of hashes over a list of leaves, where missing
  leaves are zero, and shows that it can be computed level by level.
-/

----
-- Roots
----

namespace Merkle

open List

section

variable {Hash : Type}

def zeroRoot (hash : Hash → Hash → Hash) (zero : Hash) : Nat → Hash
| 0 => zero
| depth + 1 =>
  hash (zeroRoot hash zero depth) (zeroRoot hash zero depth)

/- The first half of the leaves is below on the left. -/
def root (hash : Hash → Hash → Hash) (zero : Hash) : Nat → List Hash → Hash
| 0, leaves => leaves.head?.getD zero
| depth + 1, leaves =>
  hash (root hash zero depth (leaves.take (2 ^ depth)))
    (root hash zero depth (leaves.drop (2 ^ depth)))

variable {hash : Hash → Hash → Hash} {zero : Hash}

theorem root_append_replicate (d n : Nat) (ls : List Hash) :
    root hash zero d (ls ++ replicate n zero) = root hash zero d ls := by
  induction d generalizing ls n with
  | zero => cases ls <;> cases n <;> simp [root, replicate_succ]
  | succ d ih => simp [root, take_append, drop_append, ih]

@[simp]
theorem root_nil (d : Nat) : root hash zero d [] = zeroRoot hash zero d := by
  induction d with
  | zero => rfl
  | succ d ih => simp [root, zeroRoot, ih]

end

----
-- Levels
----

variable {Hash : Type}

def mergeLevel (hash : Hash → Hash → Hash) (zero : Hash) : List Hash → List Hash
| [] => []
| [last] => [hash last zero]
| first :: second :: rest =>
  hash first second :: mergeLevel hash zero rest

def climb (hash : Hash → Hash → Hash) : Nat → Hash → List Hash → Hash
| 0, zero, leaves => leaves.head?.getD zero
| depth + 1, zero, leaves =>
  climb hash depth (hash zero zero) (mergeLevel hash zero leaves)

variable {hash : Hash → Hash → Hash} {zero : Hash}

theorem mergeLevel_take (n : Nat) (ls : List Hash) :
    mergeLevel hash zero (ls.take (2 * n)) = (mergeLevel hash zero ls).take n := by
  induction n generalizing ls with
  | zero => simp [mergeLevel]
  | succ n ih =>
    rw [Nat.mul_succ]
    match ls with
    | [] | [last] => simp [mergeLevel]
    | a :: b :: rest => simp [mergeLevel, ih]

theorem mergeLevel_drop (n : Nat) (ls : List Hash) :
    mergeLevel hash zero (ls.drop (2 * n)) = (mergeLevel hash zero ls).drop n := by
  induction n generalizing ls with
  | zero => simp
  | succ n ih =>
    rw [Nat.mul_succ]
    match ls with
    | [] | [last] => simp [mergeLevel]
    | a :: b :: rest => simp [mergeLevel, ih]

theorem root_succ (d : Nat) (ls : List Hash) : root hash zero (d + 1) ls =
      root hash (hash zero zero) d (mergeLevel hash zero ls) := by
  induction d generalizing ls with
  | zero =>
    match ls with
    | [] | [last] | a :: b :: rest => rfl
  | succ d ih =>
    rw [root, ih, ih, Nat.pow_succ', mergeLevel_take, mergeLevel_drop]
    rfl

theorem root_eq_climb (d : Nat) (ls : List Hash) : root hash zero d ls = climb hash d zero ls := by
  induction d generalizing zero ls with
  | zero => rfl
  | succ d ih => rw [root_succ, ih, climb]

end Merkle
