import Mathlib.Algebra.Order.Field.Basic
import Mathlib.Order.Monotone.Basic
import Mathlib.Tactic.FieldSimp
import Mathlib.Tactic.Linarith
import Mathlib.Tactic.Positivity
import Mathlib.Tactic.Ring

namespace RequestProxy.Abstract

universe u

variable {K : Type u} [Field K]

/-- The balance after a number of periods. -/
def balance (deposit rate : K) : Nat → K
  | 0 => 0
  | periods + 1 =>
    (balance deposit rate periods + deposit) + (balance deposit rate periods + deposit) * rate

/-- The part of the balance that was not deposited. -/
def interest (deposit rate : K) (periods : Nat) : K :=
  balance deposit rate periods - deposit * periods

/-- The balance is a geometric sum. -/
theorem balance_closed (deposit : K) {rate : K} (nonzero : rate ≠ 0) (periods : Nat) :
    balance deposit rate periods = deposit * (1 + rate) * ((1 + rate) ^ periods - 1) / rate := by
  induction periods with
  | zero => simp [balance]
  | succ periods ih =>
    rw [balance, ih, pow_succ]
    field_simp
    ring

theorem interest_succ (deposit rate : K) (periods : Nat) :
    interest deposit rate (periods + 1) =
      interest deposit rate periods + (balance deposit rate periods + deposit) * rate := by
  rw [interest, interest, balance]
  push_cast
  ring

variable [LinearOrder K] [IsStrictOrderedRing K] {deposit rate : K}

theorem balance_nonneg (positive : 0 < deposit) (gains : 0 < rate) (periods : Nat) :
    0 ≤ balance deposit rate periods := by
  induction periods with
  | zero => exact le_rfl
  | succ periods ih =>
    rw [balance]
    positivity

/-- Every period adds interest. -/
theorem interest_strictMono (positive : 0 < deposit) (gains : 0 < rate) :
    StrictMono (interest deposit rate) := by
  apply strictMono_nat_of_lt_succ
  intro periods
  have grows := balance_nonneg positive gains periods
  have added : 0 < (balance deposit rate periods + deposit) * rate := by positivity
  rw [interest_succ]
  linarith

theorem interest_pos (positive : 0 < deposit) (gains : 0 < rate) (some : 0 < periods) :
    0 < interest deposit rate periods := by
  have start : interest deposit rate 0 = 0 := by simp [interest, balance]
  have more := interest_strictMono positive gains some
  rwa [start] at more

end RequestProxy.Abstract
