import Pharos.Lib.Sums

/-
  This file implements allowances: in each period a certain amount may be drawn. A draw that needs
  more than is left is granted a later period, together with what the periods up to it allow for.
-/

----
-- Draws
----

namespace Allowance

open List

/- What is left to be drawn in a period. -/
structure Account where
  period : Nat
  left : Nat
deriving DecidableEq, Repr

/-
  A draw from an account at a time from which on `first` is the earliest period that may be granted.
-/
structure Draw where
  held : Account
  first : Nat
  rate : Nat
  amount : Nat
  granted : Account
deriving DecidableEq, Repr

def Draw.Opens (draw : Draw) : Prop :=
  draw.held.period < draw.first

instance (draw : Draw) : Decidable draw.Opens :=
  inferInstanceAs (Decidable (_ < _))

def Draw.available (draw : Draw) : Nat :=
  if draw.Opens then draw.rate else draw.held.left

/- Each period after the first one adds the rate. -/
structure Draw.Fair (draw : Draw) : Prop where
  held_le : draw.held.period ≤ draw.first
  first_le : draw.first ≤ draw.granted.period
  spends : draw.granted.left + draw.amount + draw.rate * draw.first =
    draw.available + draw.rate * draw.granted.period

def Granted : Account → List Draw → Account → Prop
| account, [], last => account = last
| account, draw :: rest, last =>
  draw.held = account ∧ draw.Fair ∧ Granted draw.granted rest last

variable {account last : Account} {draws ys : List Draw}

theorem granted_append : Granted account (draws ++ ys) last ↔
      ∃ mid, Granted account draws mid ∧ Granted mid ys last := by
  induction draws generalizing account with
  | nil => simp [Granted]
  | cons draw xs ih =>
    simp only [cons_append, Granted, ih]
    grind

theorem Granted.le_last (hGranted : Granted account draws last) :
    account.period ≤ last.period ∧ ∀ draw ∈ draws,
      draw.Fair ∧ account.period ≤ draw.first ∧ draw.granted.period ≤ last.period := by
  induction draws generalizing account with
  | nil =>
    rw [show account = last from hGranted]
    simp
  | cons draw xs ih =>
    rcases hGranted with ⟨hHeld, hFair, hxs⟩
    rcases ih hxs with ⟨hLast, hEach⟩
    have hFst := hFair.held_le
    rw [hHeld] at hFst
    have hForward := hFst.trans hFair.first_le
    refine ⟨hForward.trans hLast, ?_⟩
    rw [forall_mem_cons]
    refine ⟨⟨hFair, hFst, hLast⟩, ?_⟩
    intro x hx
    rcases hEach x hx with ⟨hOtherFair, hLe, hEnd⟩
    exact ⟨hOtherFair, hForward.trans hLe, hEnd⟩

theorem Granted.not_before {draw : Draw} (hPost : Granted draw.granted draws last) {b : Nat}
    (hLate : ¬draw.granted.period < b) :
    ∀ each ∈ draw :: draws, ¬decide (each.granted.period < b) = true := by
  rw [forall_mem_cons]
  refine ⟨by simpa using hLate, ?_⟩
  intro each hEach
  rcases hPost.le_last.2 each hEach with ⟨hFair, hFst, _⟩
  have hForward := hFst.trans hFair.first_le
  rw [decide_eq_true_eq]
  omega

----
-- The Bound
----

open Sums

/- What is granted in a number of periods. -/
def drawnWithin (start count : Nat) (draws : List Draw) : Nat :=
  weigh Draw.amount
    (fun draw =>
      start ≤ draw.granted.period && draw.granted.period < start + count)
    draws

variable {rate : Nat}

theorem Granted.weigh_le {b : Nat} (hGranted : Granted account draws last)
    (hRate : ∀ draw ∈ draws, draw.rate = rate) (hBd : account.period < b) :
    weigh Draw.amount (·.granted.period < b) draws + (rate * account.period + rate) ≤
      account.left + rate * b := by
  induction draws generalizing account with
  | nil =>
    have hLe : rate * account.period + rate ≤ rate * b := Nat.mul_le_mul_left rate hBd
    rw [weigh_nil]
    omega
  | cons draw xs ih =>
    rcases hGranted with ⟨rfl, hFair, hxs⟩
    rw [forall_mem_cons] at hRate
    by_cases hIn : draw.granted.period < b
    · have hLater := ih hxs hRate.2 hIn
      have hSpends := hFair.spends
      have hOpened : draw.available + rate * draw.held.period ≤ draw.held.left +
          rate * draw.first := by
        unfold Draw.available
        split
        · rename_i hOpens
          have hLe : rate * draw.held.period + rate ≤ rate * draw.first :=
              Nat.mul_le_mul_left rate hOpens
          omega
        · exact Nat.add_le_add_left (Nat.mul_le_mul_left rate hFair.held_le) _
      rw [hRate.1] at hSpends
      rw [weigh_cons, if_pos (decide_eq_true hIn)]
      omega
    · have hLe : rate * draw.held.period + rate ≤ rate * b := Nat.mul_le_mul_left rate hBd
      rw [weigh_eq_zero (hxs.not_before hIn)]
      omega

theorem Granted.drawnWithin_le {draw : Draw}
    (hGranted : Granted account (draws ++ draw :: ys) last) (hOpens : draw.Opens)
    (hRate : ∀ each ∈ draw :: ys, each.rate = rate) (n : Nat) :
    drawnWithin draw.first n (draws ++ draw :: ys) ≤ rate * n := by
  rcases granted_append.mp hGranted with ⟨mid, hPre, rfl, hFair, hPost⟩
  rw [forall_mem_cons] at hRate
  have hNone : drawnWithin draw.first n draws = 0 := by
    apply weigh_eq_zero
    intro each hEach
    have hEarly := (hPre.le_last.2 each hEach).2.2
    unfold Draw.Opens at hOpens
    simp only [Bool.and_eq_true, decide_eq_true_eq]
    omega
  have hWithin : drawnWithin draw.first n (draw :: ys) ≤
      weigh Draw.amount (·.granted.period < draw.first + n) (draw :: ys) :=
      weigh_le_weigh fun _ hEach =>
      ((Bool.and_eq_true _ _).mp hEach).2
  unfold drawnWithin at hNone hWithin ⊢
  rw [weigh_append, hNone, zero_add]
  refine hWithin.trans ?_
  by_cases hIn : draw.granted.period < draw.first + n
  · have hLater := hPost.weigh_le hRate.2 hIn
    have hSpends := hFair.spends
    rw [Draw.available, if_pos hOpens, hRate.1] at hSpends
    rw [mul_add] at hLater
    rw [weigh_cons, if_pos (decide_eq_true hIn)]
    omega
  · rw [weigh_eq_zero (hPost.not_before hIn)]
    exact Nat.zero_le _

end Allowance
