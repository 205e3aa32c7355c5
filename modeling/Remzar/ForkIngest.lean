import Mathlib
import Remzar.ForkChoice
import Remzar.Helper

/-! How blocks and their batches enter the fork graph: from a block response, from a hydration
response, from a local mint and with a batch response. -/
namespace Remzar
open Fallible Effects

/-- Score and status of a received block, from what is known of its parent. -/
def receivedScore (block : Block) (parent : Option ForkBlockMeta) : BitVec 128 × ForkBlockStatus :=
  match parent with
  | some m => (saturatingSucc m.cumulativeScore, .validated)
  | none =>
    if block.metadata.index = 0 ∨ block.metadata.previousHash = zeroHash then (0, .validated)
    else (BitVec.ofNat 128 block.metadata.index.toNat, .orphan)

def forkMeta (block : Block) (score : BitVec 128 × ForkBlockStatus) (received : UInt64) :
    ForkBlockMeta :=
  ⟨block.metadata.previousHash, block.metadata.index, score.1, score.2, received⟩

def persistSyncBlockIntoReorgGraph [Blake3] (clock : Int64) (block : Block) (db : RockDB) :
    Fallible RockDB := do
  let parent ← db.getBlockMetaByHash block.metadata.previousHash
  let received ← nowUnixSecsRuntime clock
  ReorgBlockIndex.putBlockAndMeta block (forkMeta block (receivedScore block parent) received) db

-- The same rule, but a failing clock reads as zero.
def persistHydratedBlock [Blake3] (clock : Int64) (block : Block) (db : RockDB) :
    Fallible RockDB := do
  let parent ← db.getBlockMetaByHash block.metadata.previousHash
  let received := match nowUnixSecsRuntime clock with
    | .ok now => now
    | .error _ => 0
  ReorgBlockIndex.putBlockAndMeta block (forkMeta block (receivedScore block parent) received) db

/-- Does a block sit directly on the canonical tip? -/
def extendsTip (block : Block) (tip : Option CanonicalTipView) : Bool :=
  match tip with
  | some view => decide (block.metadata.previousHash = view.tipHash ∧
      block.metadata.index = Checked.saturatingAdd view.tipHeight 1)
  | none => decide (block.metadata.index = 0 ∨ block.metadata.previousHash = zeroHash)

/-- The canonical view moves up by one block. -/
def promoteToTip (block : Block) : EStateM ErrorDetection RockDB Unit := do
  modify fun db => db.setCanonicalHashAtHeight block.metadata.index block.blockHash
  update (ReorgBlockIndex.markCanonical block.blockHash)
  modify fun db => db.setCanonicalTip block.blockHash block.metadata.index

def persistSyncBatchIntoReorgGraph (header : Block) (batchBytes : List UInt8) :
    EStateM ErrorDetection RockDB Unit := do
  modify fun db => db.storeBatchByBlockHash header.blockHash batchBytes
  let db ← get
  let priorTip ← lift (ReorgChainView.getTipWithLegacyFallback db)
  if extendsTip header priorTip then do
    promoteToTip header
    modify fun db => db.storeBatchBytes header.metadata.index batchBytes
  else update (ReorgBlockIndex.markSideBranch header.blockHash)

/-- The score of a local block counts its height where its parent is unknown. -/
def localScore (block : Block) (parent : Option ForkBlockMeta) : BitVec 128 :=
  match parent with
  | some m => saturatingSucc m.cumulativeScore
  | none => BitVec.ofNat 128 block.metadata.index.toNat

def persistLocalBlockIntoReorgGraph [Blake3] (clock : Int64) (block : Block) (oldTipHeight : UInt64)
    (oldTipHash : Option Hash) (maybeBatchBytes : Option (List UInt8)) :
    EStateM ErrorDetection RockDB Unit := do
  let db ← get
  let parent ← lift (db.getBlockMetaByHash block.metadata.previousHash)
  let received ← lift (nowUnixSecsRuntime clock)
  update (ReorgBlockIndex.ingestValidatedBlock block
    (forkMeta block (localScore block parent, .validated) received) maybeBatchBytes)
  if oldTipHash = some block.metadata.previousHash ∧
      block.metadata.index = Checked.saturatingAdd oldTipHeight 1 then do
    promoteToTip block
    match maybeBatchBytes with
    | some bytes => modify fun db => db.storeBatchBytes block.metadata.index bytes
    | none => pure ()
  else update (ReorgBlockIndex.markSideBranch block.blockHash)

-- Every result of these writes is dropped.
def attemptUpdate (f : RockDB → Fallible RockDB) (db : RockDB) : RockDB :=
  match f db with
  | .ok db' => db'
  | .error _ => db

/-- The writes that follow once a received genesis block has been accepted. -/
def adoptGenesis [Blake3] (clock : Int64) (block : Block) (canonicalBytes : List UInt8)
    (db : RockDB) : RockDB :=
  let db := attemptUpdate (fun db => db.storeLatestBlock canonicalBytes block.metadata.index) db
  let db := attemptUpdate (fun db => db.indexBlockByHash block.blockHash canonicalBytes) db
  let db := ((db.setLatestBlockIndex block.metadata.index).setTipHeight 0).setAddrIndexHeight 0
  match persistSyncBlockIntoReorgGraph clock block db with
  | .error _ => db
  | .ok db =>
    let db := attemptUpdate (ReorgBlockIndex.markCanonical block.blockHash) db
    (db.setCanonicalHashAtHeight 0 block.blockHash).setCanonicalTip block.blockHash 0

end Remzar
