import Mathlib
import Remzar.Halving
import Remzar.PuzzleEngine

/-! What the emission schedule can really pay out: the schedule runs for more than 183 million
heights, and the structural checks of a header and of a puzzle proof end at ten million. -/
namespace Remzar
open Fallible Checked

/-- Some header of this height, with or without a puzzle proof, passes its structural checks. -/
def CanBeMinted (height : UInt64) : Prop :=
  ∃ m : BlockMetadata, m.index = height ∧ m.validateStructural = .ok () ∧
    ∀ proof, m.puzzleProof = some proof → proof.validateStructural = .ok ()

open Classical in
/-- The rewards of all heights at which a block can exist. -/
noncomputable def mintableSupply : ℕ :=
  ∑ h ∈ (Finset.range (2^64)).filter (fun h => CanBeMinted (UInt64.ofNat h)),
    (RewardHalving.getBlockReward (UInt64.ofNat h)).toNat

/-! ### The heights -/

namespace Sample

def plainProof (height : UInt64) : BlockPuzzleProof := ⟨height, miner, hash0, 1⟩

/-- A header that only has to have the right form; genesis carries no proof. -/
def plainHeader (height : UInt64) : BlockMetadata :=
  ⟨height, 1700000000, hash0, root0, signature,
    if height = 0 then none else some (plainProof height), 2097152⟩

theorem plainProof_valid {height : UInt64} (h : height ≤ maxReasonableHeight) :
    (plainProof height).validateStructural = .ok () := by
  have hminer : canonWalletIdChecked miner = .ok miner := by decide +kernel
  have hhash : hash0 ≠ zeroHash ∧ hash0 ≠ onesHash := by decide
  have houtput : (1 : BitVec 128) ≠ 0 := by decide
  apply BlockPuzzleProof.validateStructural_ok (canonWalletIdChecked_canonical hminer)
  exact ⟨h, hhash.1, hhash.2, houtput⟩

theorem plainHeader_validateGenesis : (plainHeader 0).validateGenesis = .ok () := by
  decide

theorem plainHeader_validateNonGenesis {height : UInt64} (hpos : height ≠ 0)
    (h : height ≤ maxReasonableHeight) : (plainHeader height).validateNonGenesis = .ok () := by
  have hroot : ¬(plainHeader height).merkleRoot = zeroHash := show ¬root0 = zeroHash by decide
  have hprev : ¬(plainHeader height).previousHash = zeroHash :=
    show ¬hash0 = zeroHash by decide
  have hsig : ¬(plainHeader height).guardianSignature = zeroSignature :=
    show ¬signature = zeroSignature by decide
  have hne : ¬(plainHeader height).merkleRoot = (plainHeader height).previousHash :=
    show ¬root0 = hash0 by decide
  have hheight : ¬(plainProof height).height ≠ (plainHeader height).index := not_not_intro rfl
  have hparent : ¬(plainProof height).prevBlockHash ≠ (plainHeader height).previousHash :=
    not_not_intro rfl
  have hproof : (plainHeader height).puzzleProof = some (plainProof height) := if_neg hpos
  have hbound : (plainHeader height).validatePuzzleProof = .ok () := by
    rw [BlockMetadata.validatePuzzleProof, hproof]
    dsimp only
    rw [plainProof_valid h, ok_bind, rejectIf_of_not _ hheight, ok_bind, rejectIf_of_not _ hparent]
  rw [BlockMetadata.validateNonGenesis, rejectIf_of_not _ hroot, ok_bind,
    rejectIf_of_not _ hprev, ok_bind, rejectIf_of_not _ hsig, ok_bind, rejectIf_of_not _ hne,
    ok_bind, hbound]

theorem plainHeader_valid {height : UInt64} (h : height ≤ maxMetadataIndexHard) :
    (plainHeader height).validateStructural = .ok () := by
  have hbound : ¬(maxMetadataIndexHard < (plainHeader height).index ∨
      maxBlockSize < (plainHeader height).size.toNat) :=
    not_or.mpr ⟨UInt64.not_lt.mpr h, show ¬maxBlockSize < (2097152 : UInt64).toNat by decide⟩
  have hsize : ¬(plainHeader height).size.toNat < minBlockSize :=
    show ¬(2097152 : UInt64).toNat < minBlockSize by decide
  have htime : validateUnixSecsStructural "BlockMetadata.timestamp" (plainHeader height).timestamp =
      .ok () :=
    show validateUnixSecsStructural "BlockMetadata.timestamp" 1700000000 = .ok () by decide
  have hmin : ¬(plainHeader height).timestamp < minTimestampSecs :=
    show ¬(1700000000 : UInt64) < minTimestampSecs by decide
  rw [BlockMetadata.validateStructural, rejectIf_of_not _ hbound, ok_bind,
    rejectIf_of_not _ hsize, ok_bind, htime, ok_bind, rejectIf_of_not _ hmin, ok_bind]
  by_cases hzero : height = 0
  · rw [hzero]
    exact plainHeader_validateGenesis
  · have hindex : ¬(plainHeader height).index = 0 := hzero
    rw [if_neg hindex]
    exact plainHeader_validateNonGenesis hzero h

end Sample

/-- The hard bound on the index is all that limits the heights. -/
theorem canBeMinted_iff (height : UInt64) : CanBeMinted height ↔ height ≤ maxMetadataIndexHard := by
  constructor
  · rintro ⟨m, rfl, hvalid, -⟩
    simp only [BlockMetadata.validateStructural, bind_eq_ok_iff, rejectIf_eq_ok_iff] at hvalid
    obtain ⟨_, hbound, -⟩ := hvalid
    exact UInt64.not_lt.mp (fun hlt => hbound (.inl hlt))
  · intro h
    refine ⟨Sample.plainHeader height, rfl, Sample.plainHeader_valid h, ?_⟩
    intro proof hproof
    by_cases hzero : height = 0
    · rw [Sample.plainHeader, if_pos hzero] at hproof
      cases hproof
    · rw [Sample.plainHeader, if_neg hzero] at hproof
      cases hproof
      exact Sample.plainProof_valid h

/-! ### The sum -/

/-- The rewards below a height add up to what the schedule has issued there. -/
theorem sum_getBlockReward (n : ℕ) (h : n ≤ 2^64) :
    ∑ i ∈ Finset.range n, (RewardHalving.getBlockReward (UInt64.ofNat i)).toNat =
      RewardHalving.scheduledTo n := by
  induction n with
  | zero => decide
  | succ n ih =>
    have hn : (UInt64.ofNat n).toNat = n := UInt64.toNat_ofNat_of_lt' h
    have hstep := RewardHalving.scheduledTo_succ (UInt64.ofNat n)
    rw [hn] at hstep
    rw [Finset.sum_range_succ, ih (Nat.le_of_succ_le h), hstep]

/-! ### The schedule at every height -/

namespace RewardHalving

/-- Where the arithmetic of the schedule stays inside its types: no fallback to everything
issued, no saturated product, no clamped conversion to 64 bits. -/
structure Unclamped (height : UInt64) : Prop where
  config : configSane halvingIntervalBlocks totalRewardBlocks = true
  issued : (issuedNominal (min height totalRewardBlocks).toNat).isSome
  skipped : (issuedNominal (min rewardlessPrefixBlocks (min height totalRewardBlocks)).toNat).isSome
  lookup : ∀ period < rewardReductionSequence.length, (rewardReductionSequence[period]?).isSome
  products : ∀ r ∈ rewardReductionSequence, r.toNat*halvingIntervalBlocks.toNat < 2^128
  sum : issuedInSequence (height.toNat/halvingIntervalBlocks.toNat) < 2^128
  narrowed : periodReward (height.toNat/halvingIntervalBlocks.toNat) < 2^64

theorem unclamped (height : UInt64) : Unclamped height := by
  have hend : (min height totalRewardBlocks).toNat ≤ 183500021 := by
    rw [min_toNat, totalRewardBlocks_toNat]
    exact Nat.min_le_right _ _
  have hprefix : (min rewardlessPrefixBlocks (min height totalRewardBlocks)).toNat ≤ 183500021 := by
    rw [min_toNat]
    exact (Nat.min_le_right _ _).trans hend
  refine ⟨by decide, ?_, ?_, ?_, ?_, ?_, ?_⟩
  · rw [issuedNominal_eq _ hend]
    rfl
  · rw [issuedNominal_eq _ hprefix]
    rfl
  · intro period hperiod
    rw [List.getElem?_eq_getElem hperiod]
    rfl
  · intro r _
    have hreward := r.toNat_lt
    have hinterval : halvingIntervalBlocks.toNat = 500000 := rfl
    rw [hinterval]
    omega
  · exact (issuedInSequence_le _).trans_lt (by decide)
  · exact (periodReward_le _).trans_lt (by decide)

/-- The last height saturates, far beyond the end of the schedule. -/
theorem remaining_eq_sub (height : UInt64) :
    remainingRewardSupplyMicroAfterBlock height =
      maxRewardSupply.toNat - scheduledTo (height.toNat+1) := by
  have hnext : min (min (min (height.toNat+1) (2^64-1)) 183500021) 183500021 =
      min (height.toNat+1) 183500021 := by omega
  have hsat : (saturatingAdd height 1).toNat = min (height.toNat+1) (2^64-1) :=
    saturatingAdd_toNat height 1
  rw [remainingRewardSupplyMicroAfterBlock, totalIssuedTo_eq, min_toNat, hsat,
    totalRewardBlocks_toNat, hnext, scheduledTo]
  omega

theorem scheduledTo_le (n : ℕ) : scheduledTo n ≤ maxRewardSupply.toNat := Nat.min_le_left _ _

theorem scheduledTo_end : scheduledTo totalRewardBlocks.toNat = maxRewardSupply.toNat := by
  rw [totalRewardBlocks_toNat]
  decide

/-- At every height the counter of the remaining supply and the rewards paid so far make up the
whole supply, which the end of the schedule reaches, and no step of the arithmetic is clamped. -/
theorem reward_schedule_exact :
    (∀ height : UInt64,
      remainingRewardSupplyMicroAfterBlock height = maxRewardSupply.toNat -
        ∑ i ∈ Finset.range (height.toNat+1), (getBlockReward (UInt64.ofNat i)).toNat) ∧
    (∀ height : UInt64, ∑ i ∈ Finset.range (height.toNat+1),
      (getBlockReward (UInt64.ofNat i)).toNat ≤ maxRewardSupply.toNat) ∧
    ∑ i ∈ Finset.range totalRewardBlocks.toNat, (getBlockReward (UInt64.ofNat i)).toNat =
      maxRewardSupply.toNat ∧
    ∀ height : UInt64, Unclamped height := by
  have hsum : ∀ height : UInt64, ∑ i ∈ Finset.range (height.toNat+1),
      (getBlockReward (UInt64.ofNat i)).toNat = scheduledTo (height.toNat+1) :=
    fun height => sum_getBlockReward _ height.toNat_lt
  refine ⟨fun height => ?_, fun height => ?_, ?_, unclamped⟩
  · rw [hsum, remaining_eq_sub]
  · rw [hsum]
    exact scheduledTo_le _
  · rw [sum_getBlockReward _ totalRewardBlocks.toNat_lt.le, scheduledTo_end]

end RewardHalving

theorem mintable_heights (h : ℕ) (hlt : h < 2^64) :
    CanBeMinted (UInt64.ofNat h) ↔ h < 10000001 := by
  rw [canBeMinted_iff, UInt64.le_iff_toNat_le, UInt64.toNat_ofNat_of_lt' hlt]
  exact Nat.lt_succ_iff.symm

theorem mintableSupply_eq : mintableSupply = RewardHalving.scheduledTo 10000001 := by
  classical
  have hheights : (Finset.range (2^64)).filter (fun h => CanBeMinted (UInt64.ofNat h)) =
      Finset.range 10000001 := by
    ext h
    rw [Finset.mem_filter, Finset.mem_range, Finset.mem_range]
    constructor
    · rintro ⟨hlt, hmint⟩
      exact (mintable_heights h hlt).mp hmint
    · intro hlow
      have hlt : h < 2^64 := hlow.trans (by decide)
      exact ⟨hlt, (mintable_heights h hlt).mpr hlow⟩
  calc mintableSupply
      = ∑ h ∈ Finset.range 10000001, (RewardHalving.getBlockReward (UInt64.ofNat h)).toNat := by
        rw [← hheights, mintableSupply]
    _ = RewardHalving.scheduledTo 10000001 := sum_getBlockReward _ (by decide)

theorem scheduledTo_mono {m n : ℕ} (h : m ≤ n) :
    RewardHalving.scheduledTo m ≤ RewardHalving.scheduledTo n := by
  have hnominal : Monotone RewardHalving.nominal := by
    apply monotone_nat_of_le_succ
    intro k
    rw [RewardHalving.nominal_succ]
    exact Nat.le_add_right _ _
  have hmin : min m 183500021 ≤ min n 183500021 := min_le_min_right _ h
  exact min_le_min_left _ (Nat.sub_le_sub_right (hnominal hmin) _)

/-- Blocks up to a last height pay out the whole supply exactly when the schedule is exhausted
there. The last height that can be minted comes long before: less than a seventh of the supply. -/
theorem mintable_supply_short (last : UInt64) :
    (∑ h ∈ Finset.range (last.toNat+1), (RewardHalving.getBlockReward (UInt64.ofNat h)).toNat =
        maxRewardSupply.toNat ↔ 183500019 ≤ last.toNat) ∧
      mintableSupply = 2649998100000000 ∧ mintableSupply < maxRewardSupply.toNat := by
  have hsum : RewardHalving.scheduledTo 10000001 = 2649998100000000 := by decide +kernel
  have hopen : RewardHalving.scheduledTo 183500019 < maxRewardSupply.toNat := by decide +kernel
  have hend : RewardHalving.scheduledTo 183500020 = maxRewardSupply.toNat := by decide +kernel
  rw [mintableSupply_eq, hsum, sum_getBlockReward (last.toNat+1) last.toNat_lt]
  refine ⟨⟨?_, ?_⟩, rfl, by decide⟩
  · intro hall
    by_contra hearly
    have hle := scheduledTo_mono (show last.toNat+1 ≤ 183500019 by omega)
    omega
  · intro hlate
    have hle := scheduledTo_mono (show 183500020 ≤ last.toNat+1 by omega)
    exact (RewardHalving.scheduledTo_le _).antisymm (hend ▸ hle)

theorem mintable_supply_ne_total : ¬mintableSupply = maxRewardSupply.toNat := by
  have hsum : RewardHalving.scheduledTo 10000001 ≠ maxRewardSupply.toNat := by decide +kernel
  rw [mintableSupply_eq]
  exact hsum

end Remzar
