import Mathlib
import Remzar.Lib.Effects
import Remzar.Halving
import Remzar.Signing

/-! The block builder: it selects transactions from the mempool, assembles and signs a block
that fits, and persists it before anyone has executed it. -/
namespace Remzar
open Std Fallible Effects Checked Text

/-- A proof as it is gossiped; the builder commits it in a block. -/
structure PorPuzzleProof where
  height : UInt64
  validator : String
  prevBlockHash : Hash
  output : BitVec 128

/-- What the builder asks of consensus. None of the answers depends on the mempool. -/
structure BlockchainConsensus where
  localWallet : String
  assertCanBuildBlock : UInt64 → Hash → Bool → Fallible Unit
  -- Staged by the call above.
  pendingPuzzleProof : Option PorPuzzleProof
  rewardEligibleAt : String → UInt64 → Bool
  collectRegisterNodeTxsForBlock : UInt64 → List RegisterNodeTx
  isCanonicallyKnown : String → Fallible Bool

/-- What the clock reports: for the batch, for the reward, and for each mempool record. -/
structure BuildClock where
  batch : Int64
  reward : Int64
  record : List UInt8 → Int64

structure BlockchainBuilder where
  consensus : BlockchainConsensus
  signingKey : SigningKey
  clock : BuildClock

/-- A pending transaction under its mempool key. -/
abbrev Pending := List UInt8 × TxKind

/-- Where the next block goes. -/
structure Parent where
  tip : UInt64
  index : UInt64
  hash : Hash
  timestamp : UInt64

/-- What is settled before a block is assembled. -/
structure Prepared where
  parent : Parent
  system : List TxKind
  blockReward : UInt64
  kept : List Pending

/-- A block that fits, with the bytes to store and the mempool keys it uses up. -/
structure Candidate where
  block : Block
  blockBytes : List UInt8
  batchBytes : List UInt8
  txKeys : List (List UInt8)

def BlockPuzzleProof.fromGossip (proof : PorPuzzleProof) : Fallible BlockPuzzleProof := do
  rejectIf (maxValidatorLen < byteLen proof.validator) (validationErr
    s!"BlockPuzzleProof.validator too long (len={byteLen proof.validator}, max={maxValidatorLen})")
  let validator ← canonWalletIdChecked proof.validator
  let committed : BlockPuzzleProof :=
    ⟨proof.height, validator, proof.prevBlockHash, proof.output⟩
  committed.validateStructural
  return committed

def eqIgnoreAsciiCase (a b : String) : Bool := toAsciiLowercase a = toAsciiLowercase b

namespace BlockchainBuilder
section
variable [Blake3] (builder : BlockchainBuilder)

/-! ### System transactions -/

def rewardTotal (index : UInt64) : UInt64 :=
  if index < rewardDelayBlocks then 0 else RewardHalving.getBlockReward index

def rewardKinds (index : UInt64) : Fallible (List TxKind × UInt64) :=
  let total := rewardTotal index
  if 0 < total ∧ builder.consensus.rewardEligibleAt builder.consensus.localWallet index then do
    let timestamp ← nowUnixSecsRuntime builder.clock.reward
    let tx ← RewardTx.newWithTimestamp builder.consensus.localWallet total index timestamp
    return ([.reward tx], total)
  else .ok ([], 0)

def rejectKnown (index : UInt64) : TxKind → Fallible Unit
  | .registerNode tx => do
    let wallet ← okOr (fromUtf8 tx.walletAddress.toList)
      (validationErr "RegisterNodeTx wallet address is not valid UTF-8")
    let canon ← mapErr (fun e => validationErr
      s!"RegisterNodeTx wallet address is not canonical in builder guard: {e.display}")
      (canonWalletIdChecked wallet)
    let known ← builder.consensus.isCanonicallyKnown canon
    rejectIf known (validationErr
      s!"refusing to build block at height {index}: attempted to include duplicate canonical RegisterNodeTx for wallet {canon}")
  | _ => .ok ()

def rejectCanonicalReregistrationSystemTxs (kinds : List TxKind) (index : UInt64) :
    Fallible Unit :=
  if index = 0 then .ok () else kinds.forM (builder.rejectKnown index)

/-- The transactions the builder adds itself, and the reward of the block. -/
def systemKinds (index : UInt64) : Fallible (List TxKind × UInt64) := do
  let (rewards, blockReward) ← builder.rewardKinds index
  let kinds := rewards ++
    (builder.consensus.collectRegisterNodeTxsForBlock index).map TxKind.registerNode
  builder.rejectCanonicalReregistrationSystemTxs kinds index
  return (kinds, blockReward)

/-! ### User transactions -/

def kindsLen (kinds : List TxKind) : ℕ := (kinds.map fun kind => kind.serialize.length).sum

/-- Pops pairs, given in reverse, until the rest fits. -/
def trimToBudget (remaining : ℕ) : List Pending → List Pending
  | [] => []
  | pair :: rest =>
    if remaining < kindsLen ((pair :: rest).map Prod.snd) then trimToBudget remaining rest
    else (pair :: rest).reverse

def rejectRepeatedId (seen : List String) (tx : Transaction) : Fallible (List String) := do
  let id ← tx.id
  rejectIf (id ∈ seen) (validationErr "duplicate transaction detected")
  return id :: seen

def checkUserKinds (userKinds : List TxKind) : Fallible Unit := do
  let _ ← (BlockchainValidation.transfers userKinds).foldlM rejectRepeatedId []
  let ids ← BlockchainValidation.transferIds userKinds
  DetectionSystem.detectDoubleSpend ids
  DetectionSystem.detectReplay (ids.map fun id => (id, []))

/-! ### Assembly -/

-- A staged proof must be for this height, this parent and this proposer.
def stagedProof (parent : Parent) : Fallible (Option BlockPuzzleProof) :=
  match builder.consensus.pendingPuzzleProof with
  | none => .ok none
  | some gossip => do
    let proof ← BlockPuzzleProof.fromGossip gossip
    proof.validateStructural
    rejectIf (proof.height ≠ parent.index) (validationErr
      s!"staged puzzle proof height mismatch: proof.height={proof.height} expected_block_height={parent.index}")
    rejectIf (proof.prevBlockHash ≠ parent.hash) (validationErr
      s!"staged puzzle proof prev_hash mismatch for h={parent.index}")
    rejectIf (¬eqIgnoreAsciiCase proof.validator builder.consensus.localWallet) (validationErr
      s!"staged puzzle proof validator does not match local proposer at h={parent.index}")
    return some proof

/-- A signed block over the system and user transactions, of whatever size. -/
def assemble (p : Prepared) (kept : List Pending) : Fallible Candidate := do
  let userKinds := kept.map Prod.snd
  checkUserKinds userKinds
  let unsigned : TransactionBatch :=
    ⟨p.parent.index, p.parent.timestamp, p.system ++ userKinds, none⟩
  let (metadata, batch) ← BlockchainValidation.validateTransactionBatch builder.signingKey
    p.parent.hash unsigned
  rejectIf (batch.index ≠ p.parent.index) (validationErr
    s!"batch index invariant failed: batch.index={batch.index} expected={p.parent.index}")
  let proof ← builder.stagedProof p.parent
  let sig ← GuardianSignature.signBatch builder.signingKey
    (batch.transactions.map TxKind.serialize)
  let block ← Block.new { metadata with puzzleProof := proof, guardianSignature := sig }
    (some (batchKeyString p.parent.index)) builder.consensus.localWallet p.blockReward
  let blockBytes ← block.serializeForStorage
  return ⟨block, blockBytes, batch.serialize, kept.map Prod.fst⟩

-- An inner error asks for one transaction less and is returned when none is left.
def attempt (p : Prepared) (kept : List Pending) : Fallible (Fallible Candidate) :=
  if maxTxsPerBlock < kept.length + p.system.length then
    .ok (.error (validationErr
      "cannot build a valid batch: system txs exceed MAX_TXS_PER_BLOCK"))
  else do
    let c ← builder.assemble p kept
    let total := c.blockBytes.length + c.batchBytes.length
    if total ≤ maxBlockSize then do
      DetectionSystem.checkBlockSize total
      return .ok c
    else return .error (validationErr
      s!"Block+Batch exceeds MAX_BLOCK_SIZE even with zero user txs: block_bytes={c.blockBytes.length} batch_bytes={c.batchBytes.length} total={total} > {maxBlockSize} (h={p.parent.index})")

def findParent (isSynced bypassLeader : Bool) (db : RockDB) : Fallible Parent := do
  rejectIf (!isSynced) (validationErr "attempted to mint before full sync")
  let tip := db.getTipHeight
  let index := saturatingAdd tip 1
  let hash ← db.getLatestBlockHash
  rejectIf (index = 0) (validationErr "builder computed invalid next_index=0")
  rejectIf (0 < index ∧ hash = zeroHash) (validationErr
    s!"refusing to mint non-genesis block at height {index} with zero prev_hash")
  let timestamp ← nowUnixSecsRuntime builder.clock.batch
  builder.consensus.assertCanBuildBlock index hash bypassLeader
  return ⟨tip, index, hash, timestamp⟩

/-- The pairs that fit beside the system transactions, before the count is looked at. -/
def keepPairs (system : List TxKind) (entries : List Pending) : List Pending :=
  trimToBudget (maxBlockSize - blockOverheadReserve - kindsLen system) entries.reverse

def prepare (isSynced bypassLeader : Bool) (db : RockDB) : Fallible Prepared := do
  let parent ← builder.findParent isSynced bypassLeader db
  let entries ← MemPool.fetchTransactionsForBlock builder.clock.record db
  rejectIf (maxTxsPerBlock < entries.length) (validationErr
    s!"block exceeds max-txs: {entries.length} > {maxTxsPerBlock}")
  let (system, blockReward) ← builder.systemKinds parent.index
  return ⟨parent, system, blockReward, keepPairs system entries⟩

/-- Everything before the first write. -/
def plan (isSynced bypassLeader : Bool) (db : RockDB) : Fallible (Parent × Candidate) := do
  let p ← builder.prepare isSynced bypassLeader db
  let c ← attemptDropping (builder.attempt p) p.kept.reverse
  return (p.parent, c)

/-! ### Persistence -/

def storeNewBlock (blockBytes : List UInt8) (index : UInt64) (blockHash : Hash) :
    EStateM ErrorDetection RockDB Unit := do
  let db ← get
  lift (rejectIf ((db.read .blockmintData (RockDB.blockKey index)).isSome) (validationErr
    s!"block #{index} already exists – refusing to overwrite"))
  lift (rejectIf ((db.getBlockByHash blockHash).isSome) (validationErr
    s!"block hash already exists for height {index} – refusing duplicate persist"))
  update fun db => db.storeLatestBlock blockBytes index
  update fun db => db.indexBlockByHash blockHash blockBytes

def recheckParent (parent : Parent) (db : RockDB) : Fallible Unit := do
  rejectIf (db.getTipHeight ≠ parent.tip) (validationErr
    s!"parent tip advanced concurrently ({parent.tip} -> {db.getTipHeight}), aborting mint")
  let hash ← db.getLatestBlockHash
  rejectIf (hash ≠ parent.hash) (validationErr
    s!"parent hash changed concurrently while building h={parent.index} (captured={Blake3.toHex parent.hash.toList} current={Blake3.toHex hash.toList})")

def persist (parent : Parent) (c : Candidate) : EStateM ErrorDetection RockDB Unit := do
  let db ← get
  lift (recheckParent parent db)
  storeNewBlock c.blockBytes parent.index c.block.blockHash
  update fun db => db.write .transactionBatch (batchKey parent.index) c.batchBytes
  modify fun db => (db.setLatestBlockIndex parent.index).setTipHeight parent.index
  update (MemPool.removeTransactions c.txKeys)

def createNewBlockWithBypass (isSynced bypassLeader : Bool) :
    EStateM ErrorDetection RockDB Block := do
  let db ← get
  let (parent, c) ← lift (builder.plan isSynced bypassLeader db)
  persist parent c
  return c.block

def createNewBlock (isSynced : Bool) : EStateM ErrorDetection RockDB Block :=
  builder.createNewBlockWithBypass isSynced false

end
end BlockchainBuilder

end Remzar
