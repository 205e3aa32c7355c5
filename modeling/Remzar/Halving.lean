import Mathlib
import Remzar.Lib.Checked
import Remzar.Configuration

/-! The emission schedule: the reward of a height, and what the schedule has issued up to
a height. -/
namespace Remzar
open Checked

namespace RewardHalving

def cumulativeRewardSequence : UInt64 := 38*halvingIntervalBlocks*unitDivisor

def rewardlessPrefixNominalIssuance : UInt64 := rewardlessPrefixBlocks*initialBlockReward

def effectiveCumulativeRewardSequence : UInt64 :=
  saturatingSub cumulativeRewardSequence rewardlessPrefixNominalIssuance

def ceilDiv (a b : UInt64) : UInt64 := a/b + if a%b = 0 then 0 else 1

def blocksForStabilizedReward : UInt64 :=
  ceilDiv (saturatingSub maxRewardSupply effectiveCumulativeRewardSequence) stabilizedBlockReward

def totalRewardBlocks : UInt64 :=
  rewardlessPrefixBlocks + UInt64.ofNat rewardReductionSequence.length*halvingIntervalBlocks +
    blocksForStabilizedReward

def checkedAdd128 (a b : ℕ) : Option ℕ := if a + b < 2^128 then some (a+b) else none

def checkedMul128 (a b : ℕ) : Option ℕ := if a*b < 2^128 then some (a*b) else none

/-- The reward of each block in a period: the sequence, then the stabilized reward. -/
def periodReward (period : ℕ) : ℕ :=
  ((rewardReductionSequence[period]?).getD stabilizedBlockReward).toNat

def issuedInSequence (periods : ℕ) : ℕ :=
  ((rewardReductionSequence.take (min periods rewardReductionSequence.length)).map fun r =>
    min (r.toNat*halvingIntervalBlocks.toNat) (2^128-1)).sum

/-- Nominal issuance below a height, rewardless prefix included; nothing where a product or
a sum leaves 128 bits. -/
def issuedNominal (height : ℕ) : Option ℕ := do
  let interval := halvingIntervalBlocks.toNat
  let fullPeriods := height/interval
  let stab ← checkedMul128 stabilizedBlockReward.toNat
    (fullPeriods - rewardReductionSequence.length)
  let issuedStab ← checkedMul128 stab interval
  let remainderBlocks := height%interval
  let issuedPartial ← checkedMul128 remainderBlocks
    (if remainderBlocks = 0 then 0 else periodReward fullPeriods)
  let issued ← checkedAdd128 (issuedInSequence fullPeriods) issuedStab
  checkedAdd128 issued issuedPartial

def configSane (interval scheduleEnd : UInt64) : Bool :=
  interval ≠ 0 ∧ rewardlessPrefixBlocks ≤ scheduleEnd

/-- Issuance strictly below a height. Arithmetic that cannot be trusted counts as
everything issued. -/
def totalIssuedTo (height : UInt64) : ℕ :=
  if !configSane halvingIntervalBlocks totalRewardBlocks then maxRewardSupply.toNat
  else
    let height := min height totalRewardBlocks
    match issuedNominal height.toNat with
    | none => maxRewardSupply.toNat
    | some nominal =>
      let rewardlessPrefix := min rewardlessPrefixBlocks height
      if rewardlessPrefix = 0 then nominal
      else match issuedNominal rewardlessPrefix.toNat with
        | none => maxRewardSupply.toNat
        | some offset => nominal - offset

def remainingRewardSupplyMicroAfterBlock (blockHeight : UInt64) : ℕ :=
  maxRewardSupply.toNat - totalIssuedTo (min (saturatingAdd blockHeight 1) totalRewardBlocks)

-- Beyond the sequence the stabilized reward applies, which `periodReward` covers.
def getBlockReward (blockHeight : UInt64) : UInt64 :=
  if blockHeight < rewardlessPrefixBlocks then 0
  else if totalRewardBlocks ≤ blockHeight then 0
  else
    let issuedBefore := totalIssuedTo blockHeight
    if maxRewardSupply.toNat ≤ issuedBefore then 0
    else
      let remaining := maxRewardSupply.toNat - issuedBefore
      let period := blockHeight.toNat/halvingIntervalBlocks.toNat
      if rewardReductionSequence.length ≤ period ∧ blocksForStabilizedReward = 0 then 0
      else UInt64.ofNat (min (periodReward period) remaining)

/-! ### The schedule as a sum -/

theorem totalRewardBlocks_toNat : totalRewardBlocks.toNat = 183500021 := by decide

/-- What the first periods issue in full. -/
def periodsTotal (periods : ℕ) : ℕ :=
  issuedInSequence periods + (periods - 5)*50000000000000

theorem issuedInSequence_of_le (periods : ℕ) (h : 5 ≤ periods) :
    issuedInSequence periods = 1900000000000000 := by
  have hmin : min periods rewardReductionSequence.length = 5 := Nat.min_eq_right h
  rw [issuedInSequence, hmin]
  decide

theorem periodReward_of_le (period : ℕ) (h : 5 ≤ period) : periodReward period = 100000000 := by
  have hnone : rewardReductionSequence[period]? = none := List.getElem?_eq_none h
  rw [periodReward, hnone]
  rfl

theorem periodReward_le (period : ℕ) : periodReward period ≤ 2000000000 := by
  by_cases h : 5 ≤ period
  · rw [periodReward_of_le period h]
    omega
  · interval_cases period <;> decide

theorem issuedInSequence_le (periods : ℕ) : issuedInSequence periods ≤ 1900000000000000 := by
  by_cases h : 5 ≤ periods
  · exact (issuedInSequence_of_le periods h).le
  · interval_cases periods <;> decide

theorem periodsTotal_succ (period : ℕ) :
    periodsTotal (period+1) = periodsTotal period + 500000*periodReward period := by
  by_cases h : 5 ≤ period
  · rw [periodsTotal, periodsTotal, issuedInSequence_of_le _ h,
      issuedInSequence_of_le _ (Nat.le_succ_of_le h), periodReward_of_le _ h]
    omega
  · interval_cases period <;> decide

/-- Nominal issuance below a height. -/
def nominal (height : ℕ) : ℕ :=
  periodsTotal (height/500000) + height%500000*periodReward (height/500000)

theorem nominal_succ (height : ℕ) :
    nominal (height+1) = nominal height + periodReward (height/500000) := by
  unfold nominal
  -- Either the block stays inside its period or it is the last one of it.
  by_cases hlast : height%500000 + 1 = 500000
  · have hdiv : (height+1)/500000 = height/500000 + 1 := by omega
    have hmod : (height+1)%500000 = 0 := by omega
    have hrem : height%500000 = 499999 := by omega
    rw [hdiv, hmod, hrem, periodsTotal_succ]
    omega
  · have hdiv : (height+1)/500000 = height/500000 := by omega
    have hmod : (height+1)%500000 = height%500000 + 1 := by omega
    rw [hdiv, hmod]
    ring

theorem checkedMul128_of_lt {a b : ℕ} (h : a*b < 2^128) : checkedMul128 a b = some (a*b) :=
  if_pos h

theorem checkedAdd128_of_lt {a b : ℕ} (h : a + b < 2^128) : checkedAdd128 a b = some (a+b) :=
  if_pos h

-- The schedule ends long before a product could leave 128 bits.
theorem issuedNominal_eq (height : ℕ) (h : height ≤ 183500021) :
    issuedNominal height = some (nominal height) := by
  have hinterval : halvingIntervalBlocks.toNat = 500000 := rfl
  have hstab : stabilizedBlockReward.toNat = 100000000 := rfl
  have hlen : rewardReductionSequence.length = 5 := rfl
  have hperiods : height/500000 ≤ 367 := by omega
  have hseq := issuedInSequence_le (height/500000)
  have hreward := periodReward_le (height/500000)
  have hrem : height%500000 < 500000 := Nat.mod_lt _ (by decide)
  have hpartial : height%500000*(if height%500000 = 0 then 0 else periodReward (height/500000)) =
      height%500000*periodReward (height/500000) := by
    split
    · rename_i hzero
      rw [hzero]
      omega
    · rfl
  have hproduct : height%500000*periodReward (height/500000) ≤ 500000*2000000000 :=
    Nat.mul_le_mul hrem.le hreward
  unfold issuedNominal
  simp only [hinterval, hstab, hlen]
  rw [checkedMul128_of_lt (by omega), Option.bind_eq_bind, Option.bind_some,
    checkedMul128_of_lt (by omega), Option.bind_some,
    checkedMul128_of_lt (by omega), hpartial, Option.bind_some, checkedAdd128_of_lt (by omega),
    Option.bind_some, checkedAdd128_of_lt (by omega), nominal, periodsTotal]
  refine congrArg some ?_
  omega

theorem totalIssuedTo_eq (height : UInt64) :
    totalIssuedTo height = nominal (min height.toNat 183500021) - 2000000000 := by
  have hsane : configSane halvingIntervalBlocks totalRewardBlocks = true := by decide
  have hmin : (min height totalRewardBlocks).toNat = min height.toNat 183500021 := by
    rw [min_toNat, totalRewardBlocks_toNat]
  have hone : nominal 1 = 2000000000 := by decide
  unfold totalIssuedTo
  simp only [hsane, Bool.not_true, Bool.false_eq_true, if_false, hmin]
  rw [issuedNominal_eq _ (Nat.min_le_right _ _)]
  by_cases hzero : height = 0
  · subst hzero
    decide
  · have hpos : 1 ≤ height.toNat := by
      have := UInt64.toNat_inj.not.mpr hzero
      simp only [UInt64.toNat_zero] at this
      omega
    have hstart : min rewardlessPrefixBlocks (min height totalRewardBlocks) = 1 := by
      refine UInt64.toNat_inj.mp ?_
      rw [min_toNat, hmin]
      change min 1 (min height.toNat 183500021) = 1
      omega
    have hstartIssued : issuedNominal (1 : UInt64).toNat = some 2000000000 := by
      rw [← hone]
      exact issuedNominal_eq 1 (by decide)
    simp only [hstart, hstartIssued]
    exact if_neg (by decide)

theorem nominal_pos {height : ℕ} (h : 1 ≤ height) : 2000000000 ≤ nominal height := by
  induction height, h using Nat.le_induction with
  | base => decide
  | succ n _ ih =>
    rw [nominal_succ]
    omega

theorem getBlockReward_eq (height : UInt64) (hpos : 1 ≤ height.toNat)
    (hend : height.toNat < 183500021) :
    (getBlockReward height).toNat = min (periodReward (height.toNat/500000))
      (maxRewardSupply.toNat - (nominal height.toNat - 2000000000)) := by
  have hstart : ¬height < rewardlessPrefixBlocks := by
    rw [UInt64.lt_iff_toNat_lt]
    exact Nat.not_lt.mpr hpos
  have hbefore : ¬totalRewardBlocks ≤ height := by
    rw [UInt64.le_iff_toNat_le, totalRewardBlocks_toNat]
    omega
  have hmin : min height.toNat 183500021 = height.toNat := by omega
  have hstab : blocksForStabilizedReward ≠ 0 := by decide
  have hinterval : halvingIntervalBlocks.toNat = 500000 := rfl
  have hreward := periodReward_le (height.toNat/500000)
  unfold getBlockReward
  simp only [hstart, hbefore, if_false, totalIssuedTo_eq, hmin, hstab, and_false, hinterval]
  split
  · rename_i hissued
    rw [Nat.sub_eq_zero_of_le hissued, Nat.min_zero]
    rfl
  · rw [UInt64.toNat_ofNat_of_lt']
    exact lt_of_le_of_lt (Nat.min_le_left _ _) (lt_of_le_of_lt hreward (by decide))

theorem getBlockReward_of_le (height : UInt64) (h : 183500021 ≤ height.toNat) :
    getBlockReward height = 0 := by
  have hend : totalRewardBlocks ≤ height := by
    rw [UInt64.le_iff_toNat_le, totalRewardBlocks_toNat]
    exact h
  have hpos : ¬height < rewardlessPrefixBlocks := by
    rw [UInt64.lt_iff_toNat_lt]
    change ¬height.toNat < 1
    omega
  rw [getBlockReward, if_neg hpos, if_pos hend]

/-- What the schedule has issued below a height, cap included. -/
def scheduledTo (height : ℕ) : ℕ :=
  min maxRewardSupply.toNat (nominal (min height 183500021) - 2000000000)

theorem scheduledTo_succ (height : UInt64) :
    scheduledTo (height.toNat+1) = scheduledTo height.toNat + (getBlockReward height).toNat := by
  by_cases hzero : height = 0
  · subst hzero
    decide
  have hpos : 1 ≤ height.toNat := by
    have hne := UInt64.toNat_inj.not.mpr hzero
    rw [UInt64.toNat_zero] at hne
    omega
  by_cases hend : height.toNat < 183500021
  · have hnow : min height.toNat 183500021 = height.toNat := by omega
    have hnext : min (height.toNat+1) 183500021 = height.toNat+1 := by omega
    have hissued := nominal_pos hpos
    rw [getBlockReward_eq height hpos hend, scheduledTo, scheduledTo, hnow, hnext, nominal_succ]
    omega
  · have hnow : min height.toNat 183500021 = 183500021 := by omega
    have hnext : min (height.toNat+1) 183500021 = 183500021 := by omega
    rw [getBlockReward_of_le height (by omega), scheduledTo, scheduledTo, hnow, hnext]
    rfl

end RewardHalving

end Remzar
