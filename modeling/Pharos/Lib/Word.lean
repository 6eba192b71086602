import Mathlib.Algebra.Order.Ring.Nat

/-
  This file implements arithmetic on unsigned words of 64 bits: saturating operations, which stop at
  the largest word, and operations that wrap around.
-/

----
-- Operations
----

namespace Word

/- The largest word. -/
def maxValue : Nat :=
  2 ^ 64 - 1

/- The word closest to a number. -/
def clamp (value : Nat) : Nat :=
  min value maxValue

def satAdd (first second : Nat) : Nat :=
  clamp (first + second)

def satMul (first second : Nat) : Nat :=
  clamp (first * second)

def wrapAdd (first second : Nat) : Nat :=
  (first + second) % 2 ^ 64

def wrapMul (first second : Nat) : Nat :=
  first * second % 2 ^ 64

/- Wrapping at every addition or at the end makes no difference to a sum. -/
def wrapSum (values : List Nat) : Nat :=
  values.sum % 2 ^ 64

----
-- Saturation
----

theorem clamp_eq_or (v : Nat) : clamp v = v ∨ clamp v = maxValue := by
  rcases le_total v maxValue with hSmall | hLarge
  · exact .inl (min_eq_left hSmall)
  · exact .inr (min_eq_right hLarge)

/- Saturating early or late makes no difference to a sum. -/
theorem satAdd_clamp (a b : Nat) : satAdd (clamp a) (clamp b) = clamp (a + b) := by
  unfold satAdd clamp
  omega

/- Saturating early or late makes no difference to a product. -/
theorem satMul_clamp (a b : Nat) : satMul (clamp a) b = clamp (a * b) := by
  rcases Nat.eq_zero_or_pos b with hZero | hPos
  · rw [hZero]
    rfl
  · rcases le_total a maxValue with hSmall | hLarge
    · have hFst : clamp a = a := min_eq_left hSmall
      rw [hFst]
      rfl
    · have hFst : clamp a = maxValue := min_eq_right hLarge
      have hEarly : maxValue ≤ maxValue * b := Nat.le_mul_of_pos_right maxValue hPos
      have hLate : maxValue ≤ a * b := le_trans hLarge (Nat.le_mul_of_pos_right a hPos)
      rw [hFst]
      unfold satMul clamp
      rw [min_eq_right hEarly, min_eq_right hLate]

theorem wrapAdd_le (a b : Nat) : wrapAdd a b ≤ a + b :=
  Nat.mod_le _ _

theorem wrapMul_le (a b : Nat) : wrapMul a b ≤ a * b :=
  Nat.mod_le _ _

theorem wrapMul_lt (a b : Nat) : wrapMul a b < 2 ^ 64 :=
  Nat.mod_lt _ (Nat.two_pow_pos 64)

theorem wrapMul_of_lt {a b : Nat} (hFits : a * b < 2 ^ 64) : wrapMul a b = a * b :=
  Nat.mod_eq_of_lt hFits

theorem wrapSum_lt (values : List Nat) : wrapSum values < 2 ^ 64 :=
  Nat.mod_lt _ (Nat.two_pow_pos 64)

theorem wrapAdd_wrapSum_zero (values : List Nat) : wrapAdd (wrapSum values) 0 = wrapSum values :=
  Nat.mod_mod _ _

theorem wrapSum_of_lt {values : List Nat} (hFits : values.sum < 2 ^ 64) :
    wrapSum values = values.sum :=
  Nat.mod_eq_of_lt hFits

theorem wrapAdd_of_lt {a b : Nat} (hFits : a + b < 2 ^ 64) : wrapAdd a b = a + b :=
  Nat.mod_eq_of_lt hFits

end Word
