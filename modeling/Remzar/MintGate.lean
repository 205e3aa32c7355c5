import Mathlib
import Remzar.LeaderSchedule
import Remzar.ProposalGate
import Remzar.Production

/-! The gate a block passes before it is assembled, and whether the rest of the network agrees
with it: the miner is authorized by the clock after its puzzle, the block is dated before. -/
namespace Remzar
open Fallible Effects Checked Text LeaderSchedule

/-- The consensus engine of one node. The puzzle engine and the registry of wallets to register
are its answers. -/
structure LocalConsensus where
  localWallet : String
  localWallet_canon : canonWalletIdChecked localWallet = .ok localWallet
  validatorState : ValidatorState
  committeeEligibility : CommitteeEligibility
  tm : TimeManager
  gate : ProposalGate
  solveLocally : UInt64 → String → Hash → Fallible PorPuzzleProof
  registerNodeTxs : UInt64 → List RegisterNodeTx

namespace LocalConsensus

/-- Programs that may drop or stage the puzzle proof. -/
abbrev Gated := EStateM ErrorDetection ProposalGate

def ensureSafety (height : UInt64) (prevHash : Hash) (phase : String) (db : RockDB) : Gated Unit :=
  fun g =>
    match g.ensureRuntimeLocalProposalSafety height prevHash phase db with
    | (.ok (), g) => .ok () g
    | (.error e, g) => .error e g

section
variable (c : LocalConsensus)

/-! ### The puzzle -/

def hasStagedLocalPuzzle (height : UInt64) (prevHash : Hash) (g : ProposalGate) : Bool :=
  g.pendingPuzzleProof.any fun proof => decide (proof.height = height) &&
    decide (proof.prevBlockHash = prevHash) && eqIgnoreAsciiCase proof.validator c.localWallet

def invalidateStaleStagedLocalPuzzle (height : UInt64) (prevHash : Hash) (g : ProposalGate) :
    ProposalGate :=
  if c.hasStagedLocalPuzzle height prevHash g then g else g.clearStagedLocalPuzzleProof

def ensureLocalRuntimeMintEligibilityForStaging : Fallible Unit :=
  let reasons := c.committeeEligibility.decideWallet c.localWallet
  let listed := ", ".intercalate (reasons.map IneligibilityReason.debug)
  rejectIf (reasons ≠ []) (validationErr s!"local mint suppressed by runtime policy: {listed}")

def ensureLocalCanStagePuzzleForContext [Blake3] (height : UInt64) (prevHash : Hash) :
    Fallible Unit := do
  let snapshot ← committeeSnapshot c.validatorState c.tm prevHash height
  rejectIf (¬snapshot.containsWallet c.localWallet) (validationErr
    s!"local wallet is not in canonical committee at height {height}")
  c.ensureLocalRuntimeMintEligibilityForStaging

def runLocalPuzzleForBlock (height : UInt64) (prevHash : Hash) (db : RockDB) : Gated Unit := do
  lift (rejectIf (height = 0) (validationErr "run_local_puzzle_for_block called for height=0"))
  lift (rejectIf (prevHash = zeroHash) (validationErr
    s!"run_local_puzzle_for_block called with zero prev_hash for height {height}"))
  ensureSafety height prevHash "local_puzzle_solve" db
  let proof ← lift (c.solveLocally height c.localWallet prevHash)
  lift (rejectIf (¬eqIgnoreAsciiCase proof.validator c.localWallet) (validationErr
    s!"local puzzle proof validator mismatch at h={height}"))
  lift (rejectIf (proof.height ≠ height) (validationErr
    s!"local puzzle proof height mismatch: proof.height={proof.height} expected={height}"))
  lift (rejectIf (proof.prevBlockHash ≠ prevHash) (validationErr
    s!"local puzzle proof prev_hash mismatch at h={height}"))
  modify fun g => { g with pendingPuzzleProof := some proof }

def ensureStagedLocalPuzzleForBlock [Blake3] (height : UInt64) (prevHash : Hash) (db : RockDB) :
    Gated Unit := do
  ensureSafety height prevHash "prestage" db
  modify (c.invalidateStaleStagedLocalPuzzle height prevHash)
  if c.hasStagedLocalPuzzle height prevHash (← get) then pure ()
  else do
    lift (c.ensureLocalCanStagePuzzleForContext height prevHash)
    c.runLocalPuzzleForBlock height prevHash db

/-! ### The gate -/

/-- `clock` is read once the proof is staged. -/
def assertCanBuildBlock [Blake3] (clock : Int64) (height : UInt64) (prevHash : Hash)
    (bypassLeader : Bool) (db : RockDB) : Gated Unit := do
  lift (rejectIf bypassLeader (validationErr "bypass_leader is disabled (fork lever)"))
  lift (rejectIf (height = 0) (validationErr "assert_can_build_block called for height=0"))
  lift (rejectIf (prevHash = zeroHash) (validationErr
    s!"assert_can_build_block called with zero prev_hash for non-genesis height {height}"))
  ensureSafety height prevHash "build_gate_precheck" db
  c.ensureStagedLocalPuzzleForBlock height prevHash db
  ensureSafety height prevHash "build_gate_poststage" db
  let now ← lift (nowUnixSecsRuntime clock)
  let _ ← lift (assertLocalCanMintNow c.validatorState c.tm prevHash height c.localWallet
    c.committeeEligibility now)
  lift (rejectIf (¬c.hasStagedLocalPuzzle height prevHash (← get)) (validationErr
    s!"staged local puzzle proof missing or mismatched for h={height}"))
  ensureSafety height prevHash "build_gate_final" db

/-- The proof that the gate leaves staged for the next block. -/
def stagedForNext [Blake3] (clock : Int64) (db : RockDB) : Option PorPuzzleProof :=
  match db.getLatestBlockHash with
  | .error _ => none
  | .ok hash => (storeOf (c.assertCanBuildBlock clock (saturatingAdd db.getTipHeight 1) hash false
      db c.gate)).pendingPuzzleProof

/-- The engine as the builder sees it. -/
def consensus [Blake3] (clock : Int64) (db : RockDB) : BlockchainConsensus where
  localWallet := c.localWallet
  assertCanBuildBlock height prevHash bypassLeader :=
    match c.assertCanBuildBlock clock height prevHash bypassLeader db c.gate with
    | .ok _ _ => .ok ()
    | .error e _ => .error e
  pendingPuzzleProof := c.stagedForNext clock db
  rewardEligibleAt := c.validatorState.rewardEligibleAt
  collectRegisterNodeTxsForBlock := c.registerNodeTxs
  isCanonicallyKnown := c.validatorState.isCanonicallyKnown

def builder [Blake3] (signingKey : SigningKey) (clock : BuildClock) (gateClock : Int64)
    (db : RockDB) : BlockchainBuilder :=
  ⟨c.consensus gateClock db, signingKey, clock⟩

end

/-! ### Authorization -/

section Authorization
variable [Blake3] {c : LocalConsensus} {clock : Int64} {height : UInt64} {prevHash : Hash}
  {db : RockDB}

theorem assertCanBuildBlock_authorized {bypassLeader : Bool} {u : Unit} {g g' : ProposalGate}
    (h : c.assertCanBuildBlock clock height prevHash bypassLeader db g = .ok u g') :
    ∃ now trace, nowUnixSecsRuntime clock = .ok now ∧
      assertLocalCanMintNow c.validatorState c.tm prevHash height c.localWallet
        c.committeeEligibility now = .ok trace := by
  simp only [assertCanBuildBlock, run_bind_eq_ok_iff, lift_eq_ok_iff] at h
  obtain ⟨_, _, -, _, _, -, _, _, -, _, _, -, _, _, -, _, _, -, now, _, ⟨hnow, -⟩, trace, _,
    ⟨hmint, -⟩, -⟩ := h
  exact ⟨now, trace, hnow, hmint⟩

/-- The header of a minted block: the parent as it was captured, the clock as it was then. -/
theorem createNewBlock_header {signingKey : SigningKey} {build : BuildClock} {isSynced : Bool}
    {db' : RockDB} {block : Block}
    (h : (c.builder signingKey build clock db).createNewBlock isSynced db = .ok block db') :
    db.getLatestBlockHash = .ok block.metadata.previousHash ∧
      block.metadata.index = saturatingAdd db.getTipHeight 1 ∧
      nowUnixSecsRuntime build.batch = .ok block.metadata.timestamp ∧
      block.miner = c.localWallet ∧
      ∃ g, c.assertCanBuildBlock clock block.metadata.index block.metadata.previousHash false db
        c.gate = .ok () g := by
  obtain ⟨p, cand, hprepare, hdrop, -, rfl⟩ := createNewBlock_ok_iff.mp h
  obtain ⟨kept, -, hattempt⟩ := attemptDropping_inv _ hdrop
  obtain ⟨hassemble, -⟩ := attempt_inv hattempt
  obtain ⟨-, -, -, -, root, proof, sig, -, -, -, -, -, -, hnew, -⟩ :=
    assemble_inv hassemble
  obtain ⟨-, -, -, canon, hcanon, hblock⟩ := Block.new_ok.mp hnew
  obtain ⟨hparent, -, -⟩ := prepare_inv hprepare
  simp only [BlockchainBuilder.findParent, bind_eq_ok_iff, pure_eq_ok_iff] at hparent
  obtain ⟨_, -, hash, hhash, _, hzero, _, -, timestamp, htime, _, hgate, hparent⟩ := hparent
  have hindex := (rejectIf_eq_ok_iff _ _ _).mp hzero
  have hminer : canon = c.localWallet := by
    rw [Block.canonicalizeMinerForHeight] at hcanon
    split at hcanon
    · rw [if_neg ?_] at hcanon
      · cases hcanon
      · rw [Prepared.header, ← hparent]
        exact hindex
    · simp only [bind_eq_ok_iff, pure_eq_ok_iff] at hcanon
      obtain ⟨w, hw, _, -, rfl⟩ := hcanon
      exact Except.ok.inj (hw.symm.trans c.localWallet_canon)
  rw [hblock]
  dsimp only [Prepared.header]
  rw [← hparent]
  refine ⟨hhash, rfl, htime, hminer, ?_⟩
  dsimp only [builder, consensus] at hgate
  split at hgate
  · rename_i g hok
    exact ⟨g, hok⟩
  · cases hgate

/-- The height has started when the block is dated, and its leader is still the leader when the
clock is read again. -/
def OneTurn (c : LocalConsensus) (batch gateClock : Int64) (db : RockDB) : Prop :=
  ∀ parent, db.getLatestBlockHash = .ok parent →
    let height := saturatingAdd db.getTipHeight 1
    heightStartUnix c.tm height ≤ batch.toUInt64 ∧
      scheduledLeader c.validatorState c.tm parent height batch.toUInt64 =
        scheduledLeader c.validatorState c.tm parent height gateClock.toUInt64

end Authorization
end LocalConsensus

/-- The proposer of a minted block is accepted by its timestamp exactly when the two readings of
the clock fall into the turn of one leader. -/
theorem minted_proposer_accepted_iff [Blake3] (c : LocalConsensus) (signingKey : SigningKey)
    (clock : BuildClock) (gateClock : Int64) (isSynced : Bool) (db db' : RockDB) (block : Block)
    (hclock : clock.batch ≤ gateClock)
    (h : (c.builder signingKey clock gateClock db).createNewBlock isSynced db = .ok block db') :
    succeeds (validateProposerFromBlockTimestamp c.validatorState c.tm block.metadata.previousHash
      block.metadata.index block.metadata.timestamp block.miner) ↔
      c.OneTurn clock.batch gateClock db := by
  obtain ⟨hparent, hindex, htime, hminer, g, hgate⟩ := LocalConsensus.createNewBlock_header h
  obtain ⟨now, trace, hnow, hmint⟩ := LocalConsensus.assertCanBuildBlock_authorized hgate
  obtain ⟨hpos, hbatch⟩ := nowUnixSecsRuntime_ok htime
  obtain ⟨-, rfl⟩ := nowUnixSecsRuntime_ok hnow
  have hlater : clock.batch.toUInt64 ≤ gateClock.toUInt64 := Int64.toUInt64_le hpos hclock
  have hturn := assertLocalCanMintNow_leader c.localWallet_canon hmint
  rw [hminer, validateProposerFromBlockTimestamp_iff c.localWallet_canon, hbatch, hindex]
  rw [hindex] at hturn
  constructor
  · intro hleader parent hparent'
    obtain rfl := Except.ok.inj (hparent.symm.trans hparent')
    have hstart := scheduledLeader_start hleader
    refine ⟨hstart, ?_⟩
    rw [Checked.max_eq_left_of_le (UInt64.le_trans hstart hlater)] at hturn
    rw [hleader, hturn]
  · intro hone
    obtain ⟨hstart, hsame⟩ := hone _ hparent
    rw [Checked.max_eq_left_of_le (UInt64.le_trans hstart hlater)] at hturn
    rw [hsame, hturn]

/-! ### A block dated before its height -/

namespace Sample

/-- A founder alone. -/
def founded : LocalConsensus where
  localWallet := miner
  localWallet_canon := by decide +kernel
  validatorState := (∅ : ValidatorState).insert miner ⟨0, 1700000000, 0, 1700000000, none⟩
  committeeEligibility := ⟨Std.ExtTreeSet.ofList [miner] byteOrder, ∅, .fromGlobals⟩
  tm := .fromGenesisTs 1700000000
  gate := .new
  solveLocally height wallet prevHash := .ok ⟨height, wallet, prevHash, 7⟩
  registerNodeTxs _ := []

/-- `emptyBlock1`, early in its slot. -/
def promptBlock1 : Block :=
  { emptyBlock1 with metadata := { emptyBlock1.metadata with timestamp := 1700000010 } }

/-- Two blocks; the height of the third starts at 1700000030. -/
def promptDb : RockDB :=
  ((genesisDb.put .blockmintData (RockDB.blockKey 1) (Block.codec.enc promptBlock1)).put .blockToHash
    promptBlock1.blockHash.toList (Block.codec.enc promptBlock1)).setLatestBlockIndex 1

def signer : SigningKey := ⟨fun _ _ => .ok signature⟩

/-- Dated at `batch`, rewarded at 1700000033. -/
def datedAt (batch : Int64) : BuildClock := ⟨batch, 1700000033, fun _ => 1700000033⟩

def mint [Blake3] (batch gateClock : Int64) : EStateM.Result ErrorDetection RockDB Block :=
  (founded.builder signer (datedAt batch) gateClock promptDb).createNewBlock true promptDb

def accepts [Blake3] (block : Block) : Bool :=
  succeeds (validateProposerFromBlockTimestamp founded.validatorState founded.tm
    block.metadata.previousHash block.metadata.index block.metadata.timestamp block.miner)

/-- What a validator says of the block that is minted, if one is. -/
def verdict [Blake3] : EStateM.Result ErrorDetection RockDB Block → Option Bool
  | .error _ _ => none
  | .ok block _ => some (accepts block)

/-- The block that comes out, whatever its date. -/
def promptBlock2 : Block :=
  { block 2 1700000029 promptBlock1.blockHash
    (hashOfWords 0x7bc973112836a54b24e60f363f2f0c4c628614a0bcd50b35c226b82736768b27
      0xc299f95aaee87d1d21fa27a4385bec8f6db1c1809721ddd46924742e1c141384)
    (hashOfWords 0x193568e6cc06d8beddbd367db4bc68cbc89a637c2dc00223ab194e491e62566a
      0x7b9f8f3c23ecbed7f06d5684a29d2df788a098d66f4ecf6110e9b9a6328e4124) with reward := 2000000000 }

theorem cached_prompt :
    Blake3.cached (hashTable [emptyBlock1, promptBlock2]) = Blake3.reference :=
  Blake3.cached_eq (by decide +kernel)

theorem verdict_early :
    @verdict Blake3.reference (@mint Blake3.reference 1700000029 1700000031) = some false := by
  rw [← cached_prompt]
  decide +kernel

theorem verdict_started :
    (@verdict Blake3.reference (@mint Blake3.reference 1700000031 1700000033)).isSome = true := by
  rw [← cached_prompt]
  decide +kernel

theorem minted_of_verdict [Blake3] {r : EStateM.Result ErrorDetection RockDB Block} {accepted : Bool}
    (h : verdict r = some accepted) : ∃ block db', r = .ok block db' ∧ accepts block = accepted := by
  cases r with
  | error e db => cases h
  | ok block db => exact ⟨block, db, rfl, Option.some.inj h⟩

theorem oneTurn_started [Blake3] : founded.OneTurn 1700000031 1700000033 promptDb := by
  have hheight : saturatingAdd promptDb.getTipHeight 1 = 2 := by decide +kernel
  intro parent _
  rw [hheight]
  refine ⟨by decide, ?_⟩
  exact scheduledLeader_same_round (by decide) (by decide) (by decide)

end Sample

/-- A puzzle that starts and ends in the window of one leader. -/
theorem minted_proposer_accepted_founded :
    ∃ block db', @Sample.mint Blake3.reference 1700000031 1700000033 = .ok block db' ∧
      @Sample.accepts Blake3.reference block = true := by
  obtain ⟨_, hverdict⟩ := Option.isSome_iff_exists.mp Sample.verdict_started
  obtain ⟨block, db', hmint, -⟩ := @Sample.minted_of_verdict Blake3.reference _ _ hverdict
  refine ⟨block, db', hmint, ?_⟩
  exact (@minted_proposer_accepted_iff Blake3.reference Sample.founded Sample.signer
    (Sample.datedAt 1700000031) 1700000033 true Sample.promptDb db' block (by decide) hmint).mpr
    (@Sample.oneTurn_started Blake3.reference)

/-- One second before the height starts, within the drift, the only validator there is mints a
block that nobody accepts. -/
theorem early_block_refused :
    ∃ block db', @Sample.mint Blake3.reference 1700000029 1700000031 = .ok block db' ∧
      @Sample.accepts Blake3.reference block = false :=
  @Sample.minted_of_verdict Blake3.reference _ _ Sample.verdict_early

end Remzar
