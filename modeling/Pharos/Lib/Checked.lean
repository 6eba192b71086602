import Pharos.Lib.Outcome

/-
  This file implements arithmetic on unsigned words of 64 bits that stops where a result does not
  exist or does not fit.
-/

----
-- Operations
----

namespace Checked

section

inductive Fault where
  | overflow
  | underflow
  | divisionByZero
deriving DecidableEq, Repr

def add (first second : Nat) : Except Fault Nat :=
  if first + second < 2 ^ 64 then .ok (first + second) else .error .overflow

def sub (first second : Nat) : Except Fault Nat :=
  if second ≤ first then .ok (first - second) else .error .underflow

def mul (first second : Nat) : Except Fault Nat :=
  if first * second < 2 ^ 64 then .ok (first * second) else .error .overflow

def div (first second : Nat) : Except Fault Nat :=
  if second = 0 then .error .divisionByZero else .ok (first / second)

def rem (first second : Nat) : Except Fault Nat :=
  if second = 0 then .error .divisionByZero else .ok (first % second)

def sum (summands : List Nat) : Except Fault Nat :=
  summands.foldlM add 0

/- A program stops by a fault, or returns an error. -/
inductive Halt (Error : Type) where
  | panic (fault : Fault)
  | error (error : Error)
deriving DecidableEq, Repr

variable {Value Error : Type}

def orPanic (calculation : Except Fault Value) : Except (Halt Error) Value :=
  calculation.mapError .panic

/- A program without faults as a part of one with faults. -/
def orError (program : Except Error Value) : Except (Halt Error) Value :=
  program.mapError .error

end

----
-- Results
----

section

open Outcome

variable {Value Error : Type} {a b res : Nat}

theorem add_ok_iff : add a b = .ok res ↔ a + b < 2 ^ 64 ∧ a + b = res :=
  ite_ok_ok_iff

theorem sub_ok_iff : sub a b = .ok res ↔ b ≤ a ∧ a - b = res :=
  ite_ok_ok_iff

theorem mul_ok_iff : mul a b = .ok res ↔ a * b < 2 ^ 64 ∧ a * b = res :=
  ite_ok_ok_iff

theorem div_ok_iff : div a b = .ok res ↔ b ≠ 0 ∧ a / b = res := by
  unfold div
  rw [ite_error_ok_iff, Except.ok.injEq]

theorem rem_ok_iff : rem a b = .ok res ↔ b ≠ 0 ∧ a % b = res := by
  unfold rem
  rw [ite_error_ok_iff, Except.ok.injEq]

theorem orPanic_ok_iff {calculation : Except Fault Value} {v : Value} :
    (orPanic calculation : Except (Halt Error) Value) = .ok v ↔ calculation = .ok v :=
  mapError_ok_iff

theorem orError_ok_iff {program : Except Error Value} {v : Value} :
    orError program = .ok v ↔ program = .ok v :=
  mapError_ok_iff

end

----
-- Faults
----

open Outcome

variable {Value Error : Type}

abbrev OverflowOnly (calculation : Except Fault Value) : Prop :=
  FailsOnly (· = .overflow) calculation

def Halt.Tolerable : Halt Error → Prop
| .panic fault => fault = .overflow
| .error _ => True

theorem overflowOnly_add (a b : Nat) : OverflowOnly (add a b) := by
  unfold add
  split
  · exact failsOnly_ok _
  · exact failsOnly_error rfl

theorem overflowOnly_mul (a b : Nat) : OverflowOnly (mul a b) := by
  unfold mul
  split
  · exact failsOnly_ok _
  · exact failsOnly_error rfl

theorem overflowOnly_sub {a b : Nat} (hLe : b ≤ a) : OverflowOnly (sub a b) := by
  unfold sub
  rw [if_pos hLe]
  exact failsOnly_ok _

theorem overflowOnly_div (a : Nat) {b : Nat} (hPos : 0 < b) : OverflowOnly (div a b) := by
  unfold div
  rw [if_neg (pos_iff_ne_zero.mp hPos)]
  exact failsOnly_ok _

theorem overflowOnly_rem (a : Nat) {b : Nat} (hPos : 0 < b) : OverflowOnly (rem a b) := by
  unfold rem
  rw [if_neg (pos_iff_ne_zero.mp hPos)]
  exact failsOnly_ok _

theorem overflowOnly_sum (summands : List Nat) : OverflowOnly (sum summands) := by
  unfold sum
  generalize 0 = s₀
  induction summands generalizing s₀ with
  | nil => exact failsOnly_ok s₀
  | cons a xs ih =>
    refine failsOnly_bind (overflowOnly_add _ _) ?_
    intro next _
    exact ih next

theorem tolerable_orPanic {calculation : Except Fault Value}
    (hOverflow : OverflowOnly calculation) :
    FailsOnly Halt.Tolerable (orPanic calculation : Except (Halt Error) Value) :=
  failsOnly_mapError hOverflow

theorem tolerable_orError (program : Except Error Value) :
    FailsOnly Halt.Tolerable (orError program) :=
  failsOnly_mapError fun _ _ => trivial

end Checked
