import Mathlib.Algebra.Order.Ring.Nat
import Mathlib.Tactic.Common

/-! Overflow-aware arithmetic on 64-bit words: the checked and saturating
operations of a systems language, related to the natural numbers they bound. -/
namespace Checked

/-- `u64::checked_add`. -/
def checkedAdd (a b : UInt64) : Option UInt64 :=
  if a.toNat + b.toNat < 2^64 then some (a + b) else none

/-- `u64::checked_sub`. -/
def checkedSub (a b : UInt64) : Option UInt64 :=
  if b.toNat ≤ a.toNat then some (a - b) else none

/-- `u64::saturating_add`. -/
def saturatingAdd (a b : UInt64) : UInt64 :=
  (checkedAdd a b).getD 18446744073709551615

/-- `u64::saturating_sub`. -/
def saturatingSub (a b : UInt64) : UInt64 :=
  (checkedSub a b).getD 0

/-- `u64::saturating_mul`. -/
def saturatingMul (a b : UInt64) : UInt64 :=
  if a.toNat*b.toNat < 2^64 then a*b else 18446744073709551615

/-- `u64::div_ceil`. -/
def divCeil (a b : UInt64) : UInt64 := a/b + if a % b = 0 then 0 else 1

theorem checkedAdd_eq_some_iff (a b c : UInt64) :
    checkedAdd a b = some c ↔ a.toNat + b.toNat = c.toNat := by
  unfold checkedAdd
  have hc := c.toNat_lt
  split
  · rename_i hlt
    have hsum : (a + b).toNat = a.toNat + b.toNat := by
      rw [UInt64.toNat_add]
      exact Nat.mod_eq_of_lt hlt
    constructor
    · intro h
      rw [← Option.some.inj h, hsum]
    · intro h
      exact congrArg some (UInt64.toNat_inj.mp (hsum.trans h))
  · rename_i hge
    constructor
    · intro h
      cases h
    · intro h
      omega

theorem checkedSub_eq_some_iff (a b c : UInt64) :
    checkedSub a b = some c ↔ a.toNat = c.toNat + b.toNat := by
  unfold checkedSub
  have hc := c.toNat_lt
  split
  · rename_i hle
    have hdiff : (a - b).toNat = a.toNat - b.toNat :=
      UInt64.toNat_sub_of_le a b (UInt64.le_iff_toNat_le.mpr hle)
    constructor
    · intro h
      rw [← Option.some.inj h, hdiff]
      omega
    · intro h
      exact congrArg some (UInt64.toNat_inj.mp (by omega))
  · rename_i hgt
    constructor
    · intro h
      cases h
    · intro h
      omega

theorem checkedAdd_eq_none_iff (a b : UInt64) :
    checkedAdd a b = none ↔ 2^64 ≤ a.toNat + b.toNat := by
  unfold checkedAdd
  split <;> simp <;> omega

/-- Saturating addition is exact below the top of the range. -/
theorem saturatingAdd_toNat_of_lt (a b : UInt64) (h : a.toNat + b.toNat < 2^64) :
    (saturatingAdd a b).toNat = a.toNat + b.toNat := by
  have hsome : checkedAdd a b = some (a + b) := by
    unfold checkedAdd
    rw [if_pos h]
  rw [saturatingAdd, hsome]
  exact ((checkedAdd_eq_some_iff a b (a + b)).mp hsome).symm

theorem saturatingAdd_toNat (a b : UInt64) :
    (saturatingAdd a b).toNat = min (a.toNat + b.toNat) (2^64 - 1) := by
  by_cases h : a.toNat + b.toNat < 2^64
  · rw [saturatingAdd_toNat_of_lt a b h]
    omega
  · have hnone : checkedAdd a b = none := (checkedAdd_eq_none_iff a b).mpr (by omega)
    rw [saturatingAdd, hnone]
    change 18446744073709551615 = _
    omega

theorem min_toNat (a b : UInt64) : (min a b).toNat = min a.toNat b.toNat := by
  change (if a ≤ b then a else b).toNat = _
  rw [Nat.min_def]
  by_cases h : a ≤ b
  · rw [if_pos h, if_pos (UInt64.le_iff_toNat_le.mp h)]
  · rw [if_neg h, if_neg (fun hle => h (UInt64.le_iff_toNat_le.mpr hle))]

theorem saturatingSub_toNat (a b : UInt64) : (saturatingSub a b).toNat = a.toNat - b.toNat := by
  unfold saturatingSub checkedSub
  split
  · rename_i hle
    exact UInt64.toNat_sub_of_le a b (UInt64.le_iff_toNat_le.mpr hle)
  · rename_i hgt
    have hzero : a.toNat - b.toNat = 0 := by omega
    rw [hzero]
    rfl

theorem max_eq_left_of_le {a b : UInt64} (h : b ≤ a) : max a b = a := by
  apply UInt64.toNat_inj.mp
  rw [UInt64.toNat_max]
  exact Nat.max_eq_left (UInt64.le_iff_toNat_le.mp h)

end Checked
