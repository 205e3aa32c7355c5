import Mathlib
import Remzar.Builder
import Remzar.ReorgManager

/-! The orchestration engine: the preflight that repairs the local tip before a mint, and the
execution of the block that was built. -/
namespace Remzar
open Fallible Effects Checked

namespace OrchestrationEngine

/-! ### The mint preflight -/

def verifyBlockIsHashIndexed (db : RockDB) (height : UInt64) (hash : Hash) : Bool :=
  match db.getBlockByHash hash with
  | some block => decide (block.metadata.index = height ∧ block.blockHash = hash)
  | none => false

-- Only a block that cannot be deleted counts as a failure.
def deleteProjectionAt (acc : Bool × RockDB) (height : UInt64) : Bool × RockDB :=
  let (ok, db) := match acc.2.delete .blockmintData (RockDB.blockKey height) with
    | .ok db => (acc.1, db)
    | .error _ => (false, acc.2)
  (ok, attemptUpdate (fun db => db.delete .transactionBatch (batchKey height)) db)

def truncateLegacyCanonicalProjectionAboveTip (newTip oldTip : UInt64) (db : RockDB) :
    Bool × RockDB :=
  if oldTip ≤ newTip then (true, db)
  else
    let first := saturatingAdd newTip 1
    let (ok, db) := (RockDB.heightRange first oldTip).foldl deleteProjectionAt (true, db)
    (ok, db.deleteCanonicalHashRange first oldTip)

section
variable [Blake3]

/-- Is the block found under its hash, if need be after it has been indexed again? -/
def repairHashIndex (height : UInt64) (hash : Hash) (bytes : List UInt8) (db : RockDB) :
    Bool × RockDB :=
  if verifyBlockIsHashIndexed db height hash then (true, db)
  else match db.indexBlockByHash hash bytes with
    | .error _ => (false, db)
    | .ok db => (verifyBlockIsHashIndexed db height hash, db)

-- `none` sends the scan on to the next height.
def rollBackTip (originalTip height : UInt64) (s : ChainState) : Option Bool × ChainState :=
  if height < originalTip then
    match reloadFromDbToHeight height s with
    | .error _ s => (none, s)
    | .ok () s =>
      match truncateLegacyCanonicalProjectionAboveTip height originalTip s.db with
      | (false, db) => (some false, { s with db := db })
      | (true, db) => (some true, ReorgManager.saveState { s with db := db })
  else (some true, s)

/-- Every record of the tip names the block that was found usable. -/
def pinTip (height : UInt64) (hash : Hash) (db : RockDB) : RockDB :=
  let db := ((db.setLatestBlockIndex height).setTipHeight height).setAddrIndexHeight height
  let db := (db.setCanonicalHashAtHeight height hash).setCanonicalTip hash height
  if ReorgBlockIndex.hasMetaOrFalse hash db then
    attemptUpdate (ReorgBlockIndex.markCanonical hash) db
  else db

/-- One height of the scan. -/
def repairAt (originalTip : UInt64) (s : ChainState) (height : UInt64) :
    Option Bool × ChainState :=
  match s.db.getBlockByIndex height with
  | .error _ => (none, s)
  | .ok none => (none, s)
  | .ok (some block) =>
    match block.serializeForStorage with
    | .error _ => (none, s)
    | .ok bytes =>
      match repairHashIndex height block.blockHash bytes s.db with
      | (false, db) => (none, { s with db := db })
      | (true, db) =>
        match rollBackTip originalTip height { s with db := db } with
        | (some true, s) => (some true, { s with db := pinTip height block.blockHash s.db })
        | (stop, s) => (stop, s)

def scanDown (originalTip : UInt64) : List UInt64 → ChainState → Bool × ChainState
  | [], s => (false, s)
  | height :: rest, s =>
    match repairAt originalTip s height with
    | (some ok, s) => (ok, s)
    | (none, s) => scanDown originalTip rest s

def repairFounderRebootTipForMint (s : ChainState) : Bool × ChainState :=
  let originalTip := s.db.getTipHeight
  let scanFloor := saturatingSub originalTip maxFounderRebootTipRepairScanDepth
  scanDown originalTip (RockDB.heightRange scanFloor originalTip).reverse s

/-! ### The minted block -/

def addBlockTo (block : Block) : EStateM ErrorDetection ChainState Unit := fun s =>
  match s.tree.addBlock block with
  | (.ok (), tree) => .ok () { s with tree := tree }
  | (.error e, tree) => .error e { s with tree := tree }

def applyBatchTo (batch : TransactionBatch) : EStateM ErrorDetection ChainState Unit :=
  update fun s => do
    let tree ← s.tree.applyBatch batch
    return { s with tree := tree }

def applyMintedBatch (block : Block) (bytes : List UInt8) :
    EStateM ErrorDetection ChainState Unit := do
  let batch ← lift (TransactionBatch.deserialize bytes)
  lift (rejectIf (batch.index ≠ block.metadata.index) (validationErr
    s!"batch index mismatch (batch.index={batch.index} block.index={block.metadata.index})"))
  addBlockTo block
  applyBatchTo batch
  onDb (batch.transactions.forM (applyNftInOrder (nftContext block)))

/-- The batch a block names, or the one of its height. -/
def mintedBatchBytes (block : Block) (db : RockDB) : Option (List UInt8) :=
  db.read .transactionBatch
    (Text.utf8 (block.batchKey.getD (batchKeyString block.metadata.index)))

def executeMinted (block : Block) : EStateM ErrorDetection ChainState (Option (List UInt8)) := do
  let s ← get
  let bytes := mintedBatchBytes block s.db
  match bytes with
  | some bytes => applyMintedBatch block bytes
  | none => addBlockTo block
  let s ← get
  onDb (update (commitInnerState s.tree.inner))
  return bytes

/-- The rollback after a failed mint; its own failure is dropped. -/
def undoMint (ancestor : Option Hash) (s : ChainState) : ChainState :=
  match ancestor with
  | some hash => storeOf (rollbackTo hash s)
  | none => reloadFromDb s

inductive MintOutcome where
  | notBuilt (e : ErrorDetection)
  | failed (block : Block) (e : ErrorDetection)
  | minted (block : Block)

/-- The fork graph, the balances and fork choice follow a minted block. -/
def publishMinted (cfg : ReForkConfig) (clock : Int64) (block : Block) (tipIdx : UInt64)
    (ancestor : Option Hash) (bytes : Option (List UInt8)) (s : ManagedChain) : ManagedChain :=
  let ingested := persistLocalBlockIntoReorgGraph clock block tipIdx ancestor bytes s.chain.db
  let db := storeOf (flushBalances s.chain.tree.inner (storeOf ingested))
  let s := { s with chain := { s.chain with db := db } }
  if succeeded ingested then storeOf (ReorgManager.handleNewBlock cfg block s) else s

/-- The end of `handle_mint_attempt_common`, from `create_new_block` on. -/
def mintAttempt (cfg : ReForkConfig) (clock : Int64) (builder : BlockchainBuilder)
    (isSynced : Bool) (s : ManagedChain) : MintOutcome × ManagedChain :=
  match builder.createNewBlock isSynced s.chain.db with
  | .error e db => (.notBuilt e, { s with chain := { s.chain with db := db } })
  | .ok block db =>
    let chain := { s.chain with db := db }
    let tipIdx := chain.tree.latestBlockHeight
    let ancestor := (chain.tree.getBlockByHeight db tipIdx).toOption.map Block.blockHash
    match executeMinted block chain with
    | .error e chain => (.failed block e, { s with chain := undoMint ancestor chain })
    | .ok bytes chain =>
      (.minted block, publishMinted cfg clock block tipIdx ancestor bytes { s with chain := chain })

end
end OrchestrationEngine

end Remzar
