import Mathlib
import Remzar.Engine
import Remzar.SyncEvents
import Remzar.ValidatorChain

/-! Answers that bring a block or a batch: how the sync runtime takes them into the database, the
account tree and the fork graph, on the canonical chain and on a competing branch. -/
namespace Remzar
open Std Fallible Effects Checked

/-- What the runtime reads and writes of the local block builder. -/
structure Miner where
  validators : ValidatorState
  gate : ProposalGate

/-- The sync runtime with the account tree of the live chain, the reorganization manager's
configuration and, on a node that mints, the builder. The database is the runtime's. -/
structure SyncNode where
  sync : P2pSync
  tree : AccountModelTree
  fork : ReForkConfig
  miner : Option Miner

namespace P2pSync

def expectedPrev (s : P2pSync) : Except String Hash :=
  okOr s.lastSyncedHash "last_synced_hash not initialised"

def isSameCanonicalBlock (block : Block) (s : P2pSync) : Bool :=
  s.canonicalHashAtHeight block.metadata.index = some block.blockHash

def hasReorgParentMeta (block : Block) (s : P2pSync) : Bool :=
  if block.metadata.index = 0 ∨ block.metadata.previousHash = zeroHash then true
  else ReorgBlockIndex.hasMetaOrFalse block.metadata.previousHash s.db

def hasReorgBlockAndMeta (hash : Hash) (s : P2pSync) : Bool :=
  s.db.hasBlockByHash hash && ReorgBlockIndex.hasMetaOrFalse hash s.db

def blockForBatchResponse (req : PendingBatchRequest) (s : P2pSync) : Option Block :=
  match req.expectedBlockHash with
  | some hash => s.db.getBlockByHash hash
  | none =>
    match s.db.getBlockByIndex req.idx with
    | .ok found => found
    | .error _ => none

def retryBatchIfPossible (req : PendingBatchRequest) (s : P2pSync) : P2pSync :=
  if s.batchWanted req then s.pushBatchRetry ⟨req.peer, req.idx, req.retriesLeft-1⟩ else s

/-- The retries and the hydration of a competing block whose parent is not known. -/
def queueBranchHydration (originPeer : PeerId) (block : Block) (retriesLeft : ℕ) (s : P2pSync) :
    P2pSync :=
  let idx := block.metadata.index
  let s := s.retryBlockIfPossible ⟨originPeer, idx, retriesLeft⟩
  let s := if 0 < idx then s.pushBlockRetry ⟨originPeer, saturatingSub idx 1, maxRetries⟩ else s
  s.onHydration (Hydration.queueBranchHydration originPeer block)

/-- The pointers follow the canonical view, which a reorganization may have moved. -/
def refreshSyncTrackingFromCanonicalView (s : P2pSync) : P2pSync :=
  let s := match ReorgChainView.getTipWithLegacyFallback s.db with
    | .ok (some view) =>
      { s with
        lastSyncedIndex := some view.tipHeight
        lastSyncedHash := some view.tipHash
        downloaded := view.tipHeight
        totalToDownload := max s.syncTarget view.tipHeight }
    | _ => s
  s.updateSyncPointers.updateSyncState

def needMoreData (originPeer : PeerId) (block : Block) (missingHash : Hash) (context : String) :
    Hydration → Hydration :=
  Hydration.queueBranchHydrationByHash originPeer missingHash
    (if block.metadata.index = 0 then none else some (block.metadata.index-1))
    .forkChoiceNeedMoreData context

/-- The batch in an answer, with its Merkle root. -/
def readBatch [Blake3] (bytes : List UInt8) : Fallible (TransactionBatch × Hash) := do
  let batch ← TransactionBatch.deserialize bytes
  let root ← batch.computeMerkleRoot
  return (batch, root)

end P2pSync

namespace SyncNode
open P2pSync

def onSync (f : P2pSync → P2pSync) (n : SyncNode) : SyncNode := { n with sync := f n.sync }

def db (n : SyncNode) : RockDB := n.sync.db

def chain (n : SyncNode) : ChainState := ⟨n.sync.db, n.tree⟩

def withChain (s : ChainState) (n : SyncNode) : SyncNode :=
  { n with sync := { n.sync with db := s.db }, tree := s.tree }

def onDb (f : RockDB → RockDB) (n : SyncNode) : SyncNode :=
  { n with sync := { n.sync with db := f n.sync.db } }

def onGate (f : P2pSync → ProposalGate → ProposalGate) (n : SyncNode) : SyncNode :=
  { n with miner := n.miner.map fun m => { m with gate := f n.sync m.gate } }

/-! ### The builder's proposal gate -/

def publishRuntimeProposalSafetyToMiner (catchupActive : Bool) (reason : String) (n : SyncNode) :
    SyncNode :=
  n.onGate (P2pSync.publishRuntimeProposalSafetyToMiner catchupActive (some reason))

def maybeResetMinerProposalSafety (n : SyncNode) : SyncNode :=
  n.onGate P2pSync.maybeResetMinerProposalSafety

def noteMinerValidatorStateAlignedToCurrentTip (n : SyncNode) : SyncNode :=
  n.onGate fun s gate =>
    let gate := gate.noteValidatorStateRebuiltToTip s.localTip
    if s.localTip = 0 ∨ s.tipHash ≠ zeroHash then
      gate.setRuntimeCanonicalTipContext s.localTip s.tipHash
    else gate

def stillCatchingUp (n : SyncNode) : Bool := !n.sync.hasSynced || n.sync.syncing

/-- What ends a response that was worked through. -/
def conclude (reason : String) (n : SyncNode) : SyncNode :=
  let n := n.onSync updateSyncState
  (n.publishRuntimeProposalSafetyToMiner n.stillCatchingUp reason).maybeResetMinerProposalSafety

/-! ### Competing branches -/

def handleNewBlock [Blake3] (block : Block) (n : SyncNode) : Fallible ForkAction × SyncNode :=
  let managed (s : ManagedChain) : SyncNode :=
    { n.withChain s.chain with
      miner := n.miner.map fun m => { m with validators := s.validators.getD m.validators } }
  match ReorgManager.handleNewBlock n.fork block ⟨n.chain, n.miner.map Miner.validators⟩ with
  | .ok action s => (.ok action, managed s)
  | .error e s => (.error e, managed s)

def evaluated (reason : String) (n : SyncNode) : SyncNode :=
  let n := n.onSync fun s => { s with syncing := true }.refreshSyncTrackingFromCanonicalView
  let n := n.noteMinerValidatorStateAlignedToCurrentTip
  (n.publishRuntimeProposalSafetyToMiner n.stillCatchingUp reason).maybeResetMinerProposalSafety

def hydrating (now : Instant) (queue : P2pSync → P2pSync) (reason : String) (n : SyncNode) :
    SyncNode :=
  let n := n.onSync fun s =>
    { (queue s).driveBranchHydrationRequests now with
      syncing := true }.refreshSyncTrackingFromCanonicalView
  n.publishRuntimeProposalSafetyToMiner true reason

def handleCompetingBlockWithReorgManager [Blake3] (now : Instant) (originPeer : PeerId)
    (block : Block) (retriesLeft : ℕ) (n : SyncNode) : SyncNode :=
  let n := n.publishRuntimeProposalSafetyToMiner true "competing branch handling in progress"
  if (n.db.getBatchByBlockHash block.blockHash).isNone then
    n.onSync fun s =>
      { (s.issueBatchRequestByHashIfAbsent originPeer block.metadata.index block.blockHash
          retriesLeft).2 with
        syncing := true }.updateSyncState
  else
    match n.handleNewBlock block with
    | (.ok .stay, n) =>
      n.evaluated "competing block evaluated; canonical tip unchanged during recovery"
    | (.ok (.reorg _), n) =>
      (n.evaluated "reorg applied from competing branch; validator state rebuilt before proposal resume").onSync
        (requestNextBlock originPeer)
    | (.ok (.needMoreData missingHash context), n) =>
      n.hydrating now (fun s => s.onHydration fun h =>
          (needMoreData originPeer block missingHash context h)
            |>.noteChildWaitingOnParent missingHash block.blockHash)
        "branch hydration required before fork choice can complete"
    | (.error _, n) =>
      n.hydrating now (P2pSync.queueBranchHydration originPeer block retriesLeft)
        "hydration retry queued after competing-branch reorg-manager failure"

/-! ### Batch responses -/

-- A registry that fails on the block keeps what it had taken in.
def noteBatchForMiner (header : Block) (batch : TransactionBatch) (n : SyncNode) : SyncNode :=
  match n.miner with
  | none => n
  | some m =>
    match ValidatorRegistry.applyBlock header batch ⟨m.validators, n.db⟩ with
    | .ok () s =>
      { n.onDb fun _ => s.db with
        miner := some ⟨s.inner,
          (m.gate.noteValidatorStateRebuiltToTip header.metadata.index)
            |>.setRuntimeCanonicalTipContext header.metadata.index header.blockHash⟩ }
    | .error _ s => { n.onDb fun _ => s.db with miner := some { m with validators := s.inner } }

/-- The height the batch was asked for is the new tip. -/
def noteBatchApplied (idx : UInt64) (header : Block) (s : P2pSync) : P2pSync :=
  { s with
    lastSyncedIndex := some idx
    lastSyncedHash := some header.blockHash
    downloaded := idx
    totalToDownload := s.syncTarget
    db := ((s.db.setLatestBlockIndex idx).setTipHeight idx).setAddrIndexHeight idx }

def afterForkChoice [Blake3] (now : Instant) (req : PendingBatchRequest) (header : Block)
    (n : SyncNode) : SyncNode :=
  match n.handleNewBlock header with
  | (.ok .stay, n) => n.noteMinerValidatorStateAlignedToCurrentTip
  | (.ok (.reorg _), n) =>
    (n.onSync updateSyncPointers).noteMinerValidatorStateAlignedToCurrentTip
  | (.ok (.needMoreData missingHash context), n) =>
    (n.onSync fun s => (s.onHydration fun h => Hydration.queueBranchHydrationByHash req.peer
          missingHash (if req.idx = 0 then none else some (req.idx-1)) .forkChoiceNeedMoreData
          context h).driveBranchHydrationRequests now)
      |>.publishRuntimeProposalSafetyToMiner true "fork-choice needs more data during canonical sync"
  | (.error _, n) => n

/-- A batch of the canonical chain is stored before it is applied, and stays when that fails. -/
def applyCanonicalBatch [Blake3] (now : Instant) (req : PendingBatchRequest) (header : Block)
    (bytes : List UInt8) (batch : TransactionBatch) (n : SyncNode) : SyncNode :=
  let n := n.onDb fun db => db.storeBatchBytes req.idx bytes
  match OrchestrationEngine.applyBatchTo batch n.chain with
  | .error _ s => (n.withChain s).onSync (retryBatchIfPossible req)
  | .ok () s =>
    let n := n.withChain s
    match commitInnerState n.tree.inner n.db with
    | .error _ => n.onSync (retryBatchIfPossible req)
    | .ok db =>
      let n := n.onDb fun _ => storeOf (flushBalances n.tree.inner db)
      let n := n.noteBatchForMiner header batch
      let n := n.onDb (attemptUpdate (MemPool.removeTransactionsInBatch batch))
      let n := n.onDb fun db => storeOf (persistSyncBatchIntoReorgGraph header bytes db)
      let n := (n.onSync (noteBatchApplied req.idx header)).afterForkChoice now req header
      (n.conclude "canonical sync progress update").onSync (requestNextBlock req.peer)

/-- A batch that was asked for by hash only enters the fork graph; fork choice does the rest. -/
def applyCompetingBatch [Blake3] (now : Instant) (req : PendingBatchRequest) (header : Block)
    (bytes : List UInt8) (n : SyncNode) : SyncNode :=
  match persistSyncBatchIntoReorgGraph header bytes n.db with
  | .error _ db =>
    (n.onDb fun _ => db).onSync fun s =>
      if 0 < req.retriesLeft then s.pushBatchRetry ⟨req.peer, req.idx, req.retriesLeft-1⟩ else s
  | .ok () db =>
    ((n.onDb fun _ => db).handleCompetingBlockWithReorgManager now req.peer header req.retriesLeft)
      |>.conclude "batch response processing complete"

-- The stored batch of the height goes as well, whether or not it is the one refused here.
def refuseBatch (req : PendingBatchRequest) (n : SyncNode) : SyncNode :=
  let n := if req.expectedBlockHash.isNone then
    n.onDb (attemptUpdate fun db => db.delete .transactionBatch (batchKey req.idx)) else n
  n.onSync (retryBatchIfPossible req)

def onBatchData [Blake3] (now : Instant) (req : PendingBatchRequest) (dropped : Option Bool)
    (bytes : List UInt8) (n : SyncNode) : SyncNode :=
  if exceedsConsensusCap bytes.length then n.onSync (retryBatchIfPossible req)
  else
    match dropped with
    | some disconnect =>
      n.onSync fun s => (s.handleLastResortDrop now req.peer disconnect).retryBatchIfPossible req
    | none =>
      if req.expectedBlockHash.isNone ∧ req.idx ≤ n.db.getAddrIndexHeight then n
      else
        match n.sync.blockForBatchResponse req with
        | none => n.onSync fun s => { s with syncing := false }
        | some header =>
          match readBatch bytes with
          | .error _ => n.onSync (retryBatchIfPossible req)
          | .ok (batch, root) =>
            if header.metadata.merkleRoot ≠ root then n.refuseBatch req
            else if req.expectedBlockHash.isNone then
              n.applyCanonicalBatch now req header bytes batch
            else n.applyCompetingBatch now req header bytes

def handleBatchTxResponse [Blake3] (now : Instant) (req : PendingBatchRequest)
    (dropped : Option Bool) (response : BlockTxResponse) (n : SyncNode) : SyncNode :=
  let n := n.publishRuntimeProposalSafetyToMiner true "sync batch response processing in progress"
  match response with
  | .batchData bytes => n.onBatchData now req dropped bytes
  | .notFound =>
    (n.onSync (retryBatchIfPossible req)).conclude "batch response processing complete"
  | _ => n.conclude "batch response processing complete"

/-! ### Block responses -/

def noteGenesis (block : Block) (s : P2pSync) : P2pSync :=
  { s with
    lastSyncedIndex := some 0
    lastSyncedHash := some block.blockHash
    downloaded := 0
    totalToDownload := s.syncTarget }

def stopSyncing (n : SyncNode) : SyncNode := n.onSync fun s => { s with syncing := false }

/-- Adds a block to the live tree and commits it; the tree keeps what it took in either way. -/
def addAndCommit (block : Block) (n : SyncNode) : Bool × SyncNode :=
  match OrchestrationEngine.addBlockTo block n.chain with
  | .error _ s => (false, n.withChain s)
  | .ok () s =>
    match commitInnerState s.tree.inner s.db with
    | .error _ => (false, n.withChain s)
    | .ok db => (true, n.withChain { s with db := db })

def onGenesisData [Blake3] (clock : Int64) (req : PendingBlockRequest) (block : Block)
    (canonicalBytes : List UInt8) (n : SyncNode) : SyncNode :=
  match n.db.getBlockByIndex 0 with
  | .ok (some existing) =>
    if existing.blockHash = block.blockHash then
      n.onSync fun s =>
        let s := if s.lastSyncedIndex.isNone then
          { s with lastSyncedIndex := some 0, lastSyncedHash := some existing.blockHash } else s
        s.requestNextBlock req.peer
    else n.stopSyncing
  | _ =>
    if block.metadata.index ≠ 0 ∨ block.metadata.previousHash ≠ zeroHash then n.stopSyncing
    else if n.sync.expectedGenesisHash.any fun expected =>
        Blake3.toHex block.blockHash.toList ≠ expected then n.stopSyncing
    else
      match block.validate with
      | .error _ => n.stopSyncing
      | .ok () =>
        match n.addAndCommit block with
        | (false, n) => n.stopSyncing
        | (true, n) =>
          let n := n.onDb (adoptGenesis clock block canonicalBytes)
          n.onSync fun s => (noteGenesis block s).requestNextBlock req.peer

/-- Does the block come next on the chain the pointers name? -/
def comesNext (block : Block) (prev : Hash) (s : P2pSync) : Bool :=
  block.metadata.index = saturatingAdd (s.lastSyncedIndex.getD 0) 1 &&
    block.metadata.previousHash = prev

def onCompetingBlock [Blake3] (now : Instant) (req : PendingBlockRequest) (block : Block)
    (canonicalBytes : List UInt8) (n : SyncNode) : SyncNode :=
  let n := n.onDb (attemptUpdate fun db => db.indexBlockByHash block.blockHash canonicalBytes)
  let hydrate (reason : String) (n : SyncNode) : SyncNode :=
    (n.onSync fun s =>
      { (s.queueBranchHydration req.peer block req.retriesLeft).driveBranchHydrationRequests now with
        syncing := true }.updateSyncState).publishRuntimeProposalSafetyToMiner true reason
  if !n.sync.hasReorgParentMeta block then
    hydrate "parent hydration queued for competing block" n
  else if !n.sync.hasReorgBlockAndMeta block.blockHash then
    hydrate "competing block hydration retry queued" n
  else n.handleCompetingBlockWithReorgManager now req.peer block req.retriesLeft

def onNextBlock [Blake3] (req : PendingBlockRequest) (block : Block)
    (canonicalBytes : List UInt8) (n : SyncNode) : SyncNode :=
  match n.addAndCommit block with
  | (false, n) => n.stopSyncing
  | (true, n) =>
    let n := n.onDb (attemptUpdate fun db =>
      db.storeLatestBlock canonicalBytes block.metadata.index)
    let n := n.onDb (attemptUpdate fun db => db.indexBlockByHash block.blockHash canonicalBytes)
    let n := n.onSync fun s => (s.issueBatchRequestIfAbsent req.peer req.idx maxRetries).2
    n.noteMinerValidatorStateAlignedToCurrentTip.conclude "block response processing complete"

/-- A block that is valid in itself, of the height asked for. -/
def onBlockData [Blake3] (now : Instant) (clock : Int64) (req : PendingBlockRequest) (block : Block)
    (canonicalBytes : List UInt8) (n : SyncNode) : SyncNode :=
  if req.idx = 0 then n.onGenesisData clock req block canonicalBytes
  else if req.idx ≤ n.sync.localTip ∧ n.sync.isSameCanonicalBlock block then n
  else
    match block.validate with
    | .error _ => n.stopSyncing
    | .ok () =>
      let n := n.onDb (attemptUpdate (persistSyncBlockIntoReorgGraph clock block))
      match n.sync.expectedPrev with
      | .error _ => n.stopSyncing
      | .ok prev =>
        if comesNext block prev n.sync then n.onNextBlock req block canonicalBytes
        else n.onCompetingBlock now req block canonicalBytes

def handleBlockTxResponse [Blake3] (now : Instant) (clock : Int64) (req : PendingBlockRequest)
    (dropped : Option Bool) (response : BlockTxResponse) (n : SyncNode) : SyncNode :=
  let n := n.onSync updateSyncPointers
  let n := n.publishRuntimeProposalSafetyToMiner true "sync block response processing in progress"
  match response with
  | .blockData block =>
    if block.metadata.index ≠ req.idx then n.onSync (retryBlockIfPossible req)
    else
      match block.serializeForStorage with
      | .error _ => n.onSync (retryBlockIfPossible req)
      | .ok canonicalBytes =>
        if exceedsConsensusCap canonicalBytes.length then n.onSync (retryBlockIfPossible req)
        else
          match dropped with
          | some disconnect =>
            n.onSync fun s => (s.handleLastResortDrop now req.peer disconnect).retryBlockIfPossible req
          | none => n.onBlockData now clock req block canonicalBytes
  | .notFound => n.onSync (onBlockNotFound req)
  | _ => (n.onSync (retryBlockIfPossible req)).conclude "block response processing complete"

/-! ### Hydrated blocks -/

def onHydratedBlock [Blake3] (now : Instant) (clock : Int64) (request : RequestId) (block : Block)
    (n : SyncNode) : SyncNode :=
  match n.sync.branchHydration.onBlockReceived request block
      (fun b => persistHydratedBlock clock b n.db)
      (fun db hash => ReorgBlockIndex.hasMetaOrFalse hash db) with
  | (.ok (.ignored, _), h) => n.onSync fun s => { s with branchHydration := h }
  | (.ok (_, store), h) =>
    n.onSync fun s =>
      { s with branchHydration := h, db := store.getD s.db }.driveBranchHydrationRequests now
  | (.error _, h) => n.onSync fun s => { s with branchHydration := h }

/-! ### Events -/

/-- An answer on the block protocol. The flag is false where the peer is not the one asked. -/
def onBlocktxResponse [Blake3] (now : Instant) (clock : Int64) (request : RequestId) (peer : PeerId)
    (dropped : Option Bool) (response : BlockTxResponse) (n : SyncNode) : SyncNode × Bool :=
  match n.sync.pendingBlocks[request]? with
  | some req =>
    let n := n.onSync fun s => { s with pendingBlocks := s.pendingBlocks.erase request }
    if peer ≠ req.peer then
      (n.onSync fun s =>
        let s := s.rejectProtocolPeer now peer
        if s.dbHasBlockIndex req.idx then s else s.retryBlockIfPossible req, false)
    else (n.handleBlockTxResponse now clock req dropped response, true)
  | none =>
    match n.sync.pendingBatches[request]? with
    | some req =>
      let n := n.onSync fun s => { s with pendingBatches := s.pendingBatches.erase request }
      if peer ≠ req.peer then
        (n.onSync fun s =>
          let s := s.rejectProtocolPeer now peer
          if 0 < req.retriesLeft ∧ s.db.getAddrIndexHeight < req.idx then
            s.pushBatchRetry ⟨req.peer, req.idx, req.retriesLeft-1⟩ else s, false)
      else (n.handleBatchTxResponse now req dropped response, true)
    | none =>
      match response with
      | .blockData block => (n.onHydratedBlock now clock request block, true)
      | .notFound => (n.onSync (onHydrationFailure now request), true)
      | _ => (n, true)

/-- A node that has caught up replays its chain where the accounts lag behind. -/
def noteApplied [Blake3] (n : SyncNode) : SyncNode :=
  if n.sync.hasSynced && !n.sync.syncing && n.db.getAddrIndexHeight < n.sync.localTip then
    let tip := n.sync.localTip
    (n.withChain (reloadFromDb n.chain)).onDb fun db => db.setAddrIndexHeight tip
  else n

def finish [Blake3] (now : Instant) (timedOut : List PeerId) (n : SyncNode) : SyncNode :=
  (n.onSync fun s =>
    let s := (timedOut.foldl (dropTimedOut now) s).drainQueues.reissueIdleSyncWorkIfNeeded
    (s.driveBranchHydrationRequests now).updateSyncState).noteApplied

/-- What reaches the runtime: an event of the network, with the refusal of the guard of bytes where
it brings a block or a batch, or a gossiped block. -/
inductive SyncEvent where
  | swarm (event : P2pSync.SwarmEvent) (refused : Option Bool)
  | gossipBlock (peer : PeerId) (block : Block)

-- Every event but an answer on the block protocol has a result in the runtime alone.
def handleEvent [Blake3] (now : Instant) (clock : Int64) (n : SyncNode) :
    SyncEvent → SyncNode × Bool
  | .swarm (.blocktxResponse request peer response) refused =>
    n.onBlocktxResponse now clock request peer refused response
  | .swarm event _ =>
    match n.sync.handleSwarmEvent now event with
    | some (s, handled) => ({ n with sync := s }, handled)
    | none => (n, true)
  | .gossipBlock peer block => (n.onSync (onGossipBlock peer block), true)

def onEvent [Blake3] (now : Instant) (clock : Int64) (timedOut : List PeerId) (event : SyncEvent)
    (n : SyncNode) : SyncNode :=
  match event, n.handleEvent now clock event with
  | .swarm _ _, (n, true) => n.finish now timedOut
  | _, (n, _) => n

end SyncNode
end Remzar
