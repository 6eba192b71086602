import Mathlib.Tactic.Linarith
import Pharos.Lib.Checked

/-
  This file implements the integer square root of the state transition, with every step of its
  arithmetic checked.

  Main theorems:
  * `integerSquareroot_exact`
-/

----
-- Newton's Iteration
----

namespace Pharos.Stf

open Checked

def uint64Max : Nat := 2 ^ 64 - 1

def uint64MaxSqrt : Nat := 4294967295

/- Newton steps, as long as they go down. -/
def squarerootLoop (n x y : Nat) : Except Fault Nat :=
  if _ : y < x then do
    let quotient ← div n y
    let sum ← add y quotient
    squarerootLoop n y (sum / 2)
  else
    .ok x
termination_by x

/- For the largest word, the first sum would overflow. -/
def integerSquareroot (n : UInt64) : Except Fault Nat :=
  if n.toNat = uint64Max then
    .ok uint64MaxSqrt
  else do
    let sum ← add n.toNat 1
    squarerootLoop n.toNat n.toNat (sum / 2)

variable {n x y : Nat}

/- The mean of two numbers is at least the root of their product. -/
theorem lt_mean_succ_sq (hPos : 0 < y) : n < ((y + n / y) / 2 + 1) * ((y + n / y) / 2 + 1) := by
  have hProduct : n < y * (n / y + 1) := Nat.lt_mul_div_succ n hPos
  have hMean : y + (n / y + 1) ≤ 2 * ((y + n / y) / 2 + 1) := by omega
  have hSquares := four_mul_le_sq_add y (n / y + 1)
  have hLe := Nat.pow_le_pow_left hMean 2
  linarith

/- The iteration stays above the root, and stops at it. -/
theorem squarerootLoop_ok (hWord : n + 1 < 2 ^ 64) (hAbove : n < (x + 1) * (x + 1))
    (hNext : y < x → 0 < y ∧ 2 * y ≤ n + 1 ∧ n < (y + 1) * (y + 1)) (hDone : x ≤ y → x * x ≤ n) :
    ∃ root, squarerootLoop n x y = .ok root ∧ root * root ≤ n ∧ n < (root + 1) * (root + 1) := by
  induction x using Nat.strong_induction_on generalizing y with
  | _ x ih =>
    by_cases hLess : y < x
    · rcases hNext hLess with ⟨hPos, hHalf, hRoot⟩
      have hFits : y + n / y < 2 ^ 64 := by
        rcases Nat.eq_or_lt_of_le (Nat.succ_le_of_lt hPos) with rfl | hTwo
        · simpa [Nat.add_comm] using hWord
        · have hLe : n / y ≤ n / 2 := Nat.div_le_div_left hTwo Nat.two_pos
          omega
      have hSum : add y (n / y) = .ok (y + n / y) := if_pos hFits
      have hStep : squarerootLoop n x y = squarerootLoop n y ((y + n / y) / 2) := by
        rw [squarerootLoop, dif_pos hLess, div, if_neg hPos.ne']
        simp [hSum, bind, Except.bind]
      have hQuotient : 0 < n / y := Nat.div_pos (by omega) hPos
      rw [hStep]
      refine ih y hLess hRoot (fun hLower => ⟨by omega, by omega, lt_mean_succ_sq hPos⟩) ?_
      intro hStop
      exact (Nat.le_div_iff_mul_le hPos).mp (by omega)
    · rw [squarerootLoop, dif_neg hLess]
      exact ⟨x, rfl, hDone (not_lt.mp hLess), hAbove⟩

/- The root exists for every word, and no step on the way overflows. -/
theorem integerSquareroot_exact (n : UInt64) :
    ∃ x, integerSquareroot n = .ok x ∧ x * x ≤ n.toNat ∧ n.toNat < (x + 1) * (x + 1) := by
  unfold integerSquareroot
  by_cases hMax : n.toNat = uint64Max
  · rw [if_pos hMax, hMax]
    exact ⟨uint64MaxSqrt, rfl, by decide, by decide⟩
  · have hWord : n.toNat + 1 < 2 ^ 64 := by
      have hLt := n.toNat_lt
      unfold uint64Max at hMax
      omega
    rw [if_neg hMax, add, if_pos hWord]
    refine squarerootLoop_ok hWord (by nlinarith) (fun hLess => ⟨by omega, by omega, ?_⟩) ?_
    · have hHalf : n.toNat ≤ 2 * ((n.toNat + 1) / 2) := by omega
      nlinarith
    · intro hStop
      have hSmall : n.toNat ≤ 1 := by omega
      nlinarith

end Pharos.Stf
