import Mathlib.Algebra.BigOperators.Group.List.Basic
import Mathlib.Algebra.Order.Ring.Nat
import Mathlib.Tactic.Common

/-! Whole tokens that accrue at a rate while a fine clock runs. Each reading of the clock keeps the
whole tokens and forgets the fraction, so what a splitting of the time loses is a remainder. -/
namespace Accrual

/-- The whole tokens of `d` ticks, at `r` tokens for each `unit` of them. -/
def accrued (unit r d : ℕ) : ℕ := r*d/unit

variable {unit r d : ℕ}

theorem accrued_mul_le (unit r d : ℕ) : accrued unit r d*unit ≤ r*d := Nat.div_mul_le_self _ _

theorem le_accrued_iff (hunit : 0 < unit) {n : ℕ} : n ≤ accrued unit r d ↔ n*unit ≤ r*d :=
  Nat.le_div_iff_mul_le hunit

/-- Whole units of time accrue the rate itself. -/
theorem accrued_parts (hunit : 0 < unit) (whole part : ℕ) :
    accrued unit r (unit*whole+part) = whole*r+part*r/unit := by
  have hsplit : r*(unit*whole+part) = unit*(whole*r)+part*r := by
    calc r*(unit*whole+part) = r*(unit*whole)+r*part := Nat.mul_add _ _ _
      _ = unit*(whole*r)+part*r := by
        rw [Nat.mul_left_comm, Nat.mul_comm r whole, Nat.mul_comm r part]
  rw [accrued, hsplit, Nat.mul_add_div hunit]

/-- Many readings against one: each keeps its quotient, and their remainders are left over. -/
theorem mul_sum_eq (unit r : ℕ) (gaps : List ℕ) :
    r*gaps.sum = unit*(gaps.map (accrued unit r)).sum+(gaps.map fun d => r*d%unit).sum := by
  induction gaps with
  | nil => rfl
  | cons d gaps ih =>
    have hd : unit*accrued unit r d+r*d%unit = r*d := Nat.div_add_mod (r*d) unit
    calc r*(d :: gaps).sum = r*d+r*gaps.sum := by rw [List.sum_cons, Nat.mul_add]
      _ = (unit*accrued unit r d+r*d%unit)+(unit*(gaps.map (accrued unit r)).sum+
          (gaps.map fun d => r*d%unit).sum) := by rw [hd, ih]
      _ = _ := by
        rw [List.map_cons, List.map_cons, List.sum_cons, List.sum_cons, Nat.mul_add]
        omega

theorem accrued_sum (hunit : 0 < unit) (gaps : List ℕ) :
    accrued unit r gaps.sum =
      (gaps.map (accrued unit r)).sum+(gaps.map fun d => r*d%unit).sum/unit := by
  rw [accrued, mul_sum_eq unit r gaps, Nat.mul_add_div hunit]

/-- Many readings lose nothing against one exactly when their fractions make less than a token. -/
theorem sum_accrued_iff (hunit : 0 < unit) {gaps : List ℕ} :
    (gaps.map (accrued unit r)).sum = accrued unit r gaps.sum ↔
      (gaps.map fun d => r*d%unit).sum < unit := by
  rw [accrued_sum hunit gaps, ← Nat.div_eq_zero_iff_lt hunit]
  omega

theorem sum_accrued_le (hunit : 0 < unit) (gaps : List ℕ) :
    (gaps.map (accrued unit r)).sum ≤ accrued unit r gaps.sum := by
  rw [accrued_sum hunit gaps]
  exact Nat.le_add_right _ _

/-! ### The level of a bucket with a cap -/

/-- What a bucket of `tokens` at time `last` may have grown to by `now`, in fractions of tokens. -/
def credit (unit cap r tokens last now : ℕ) : ℕ := min (cap*unit) (tokens*unit+r*(now-last))

variable {cap tokens last now next : ℕ}

theorem credit_le_cap : credit unit cap r tokens last now ≤ cap*unit := Nat.min_le_left _ _

/-- Credit grows no faster than the rate. -/
theorem credit_later (hnow : last ≤ now) (hnext : now ≤ next) :
    credit unit cap r tokens last next ≤ credit unit cap r tokens last now+r*(next-now) := by
  have hsplit : r*(next-last) = r*(now-last)+r*(next-now) := by
    rw [← Nat.mul_add]
    congr 1
    omega
  unfold credit
  omega

/-- What is taken off a level that a refill may reach leaves the credit. -/
theorem credit_take {level spent : ℕ} (hlevel : level ≤ tokens+accrued unit r (now-last))
    (hcap : level ≤ cap) (hspent : spent ≤ level) :
    credit unit cap r (level-spent) now now+spent*unit ≤ credit unit cap r tokens last now := by
  have haccrued := accrued_mul_le unit r (now-last)
  have hkept : (level-spent)*unit+spent*unit = level*unit := by
    rw [← Nat.add_mul, Nat.sub_add_cancel hspent]
  have hfull : level*unit ≤ cap*unit := Nat.mul_le_mul_right _ hcap
  have hgrown : level*unit ≤ tokens*unit+accrued unit r (now-last)*unit := by
    rw [← Nat.add_mul]
    exact Nat.mul_le_mul_right _ hlevel
  unfold credit
  rw [Nat.sub_self, Nat.mul_zero]
  omega

end Accrual
