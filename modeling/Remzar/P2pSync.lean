import Mathlib
import Remzar.Hydration
import Remzar.ProposalGate
import Remzar.ForkIngest

/-! The sync runtime: the target it works towards, the block and batch requests it has out
or queued, and the flags that say whether the node takes part. -/
namespace Remzar
open Std Fallible Checked

/-! ### State -/

/-- The network as the runtime sees it during one event. Each protocol numbers its own
requests upwards. -/
structure Swarm where
  connected : List PeerId
  gossipPeers : List PeerId
  nextBlocktxId : RequestId
  nextVersionId : RequestId
  nextPqId : RequestId

structure PendingBlockRequest where
  peer : PeerId
  idx : UInt64
  retriesLeft : ℕ
  deriving DecidableEq

structure PendingBatchRequest where
  peer : PeerId
  idx : UInt64
  retriesLeft : ℕ
  expectedBlockHash : Option Hash
  deriving DecidableEq

structure P2pSync where
  db : RockDB
  syncing : Bool
  hasSynced : Bool
  totalToDownload : UInt64
  downloaded : UInt64
  pendingVersions : ExtTreeMap RequestId PeerId
  pendingPq : ExtTreeMap RequestId PeerId
  pqInitiators : List PeerId
  pqReadyPeers : List PeerId
  pendingBlocks : ExtTreeMap RequestId PendingBlockRequest
  pendingBatches : ExtTreeMap RequestId PendingBatchRequest
  blockQueue : List PendingBlockRequest
  batchQueue : List PendingBlockRequest
  reservedBlockIndices : List UInt64
  reservedBatchIndices : List UInt64
  triedGenesis : Bool
  expectedGenesisHash : Option String
  lastSyncedHash : Option Hash
  lastSyncedIndex : Option UInt64
  syncTarget : UInt64
  queuedSyncTarget : Option UInt64
  admittedPeers : List PeerId
  branchHydration : Hydration
  swarm : Swarm

namespace P2pSync

/-! ### Parameters -/

def maxRetries : ℕ := 3
def maxPendingVersions : ℕ := 512
def maxPendingPq : ℕ := 512
def maxPendingBlocks : ℕ := 512
def maxPendingBatches : ℕ := 512
def maxBlockQueue : ℕ := 1024
def maxBatchQueue : ℕ := 1024
def maxHeightPollPeers : ℕ := 128
def maxRuntimePeerSideTables : ℕ := 8192
def maxGossipBlockHeightAdvance : UInt64 := 1000000

def exceedsConsensusCap (n : ℕ) : Bool := maxBlockSize < n

/-! ### What it reads -/

def localTip (s : P2pSync) : UInt64 := s.db.getTipHeight

def isConnected (s : P2pSync) (peer : PeerId) : Bool := peer ∈ s.swarm.connected

def isPqReady (s : P2pSync) (peer : PeerId) : Bool := peer ∈ s.pqReadyPeers

def canonicalHashAtHeight (s : P2pSync) (height : UInt64) : Option Hash :=
  match s.db.getBlockByIndex height with
  | .ok (some block) => some block.blockHash
  | _ => none

def dbHasBlockIndex (s : P2pSync) (idx : UInt64) : Bool :=
  match s.db.getBlockByIndex idx with
  | .ok (some _) => true
  | _ => false

/-! ### Housekeeping -/

def compactSyncQueues (s : P2pSync) : P2pSync :=
  { s with
    blockQueue := s.blockQueue.take maxBlockQueue
    batchQueue := s.batchQueue.take maxBatchQueue }

def cleared (peers : List PeerId) : List PeerId :=
  if maxRuntimePeerSideTables < peers.length then [] else peers

def pruneAdvisoryRuntimeTables (s : P2pSync) : P2pSync :=
  { s with
    pqReadyPeers := cleared s.pqReadyPeers
    admittedPeers := cleared s.admittedPeers }

def maintenanceHousekeeping (s : P2pSync) : P2pSync :=
  s.compactSyncQueues.pruneAdvisoryRuntimeTables

/-! ### The sync target -/

def effectiveSyncTarget (s : P2pSync) : UInt64 :=
  max (max s.syncTarget (s.queuedSyncTarget.getD 0)) s.localTip

def genesisIsReady (s : P2pSync) : Bool :=
  match s.db.getBlockByIndex 0 with
  | .ok (some block0) =>
    match s.expectedGenesisHash with
    | some expected => Blake3.toHex block0.blockHash.toList = expected
    | none => true
  | _ => false

def hasPendingSyncBacklog (s : P2pSync) : Bool :=
  !s.blockQueue.isEmpty || !s.pendingBlocks.isEmpty || !s.batchQueue.isEmpty ||
    !s.pendingBatches.isEmpty || !s.reservedBlockIndices.isEmpty || !s.reservedBatchIndices.isEmpty

def updateSyncPointers (s : P2pSync) : P2pSync :=
  match s.canonicalHashAtHeight s.localTip with
  | some hash =>
    { s with
      lastSyncedHash := some hash
      lastSyncedIndex := some s.localTip
      downloaded := s.localTip }
  | none => { s with lastSyncedHash := none, lastSyncedIndex := none, downloaded := 0 }

/-- The target for the flags: with work in progress the visible total counts too. -/
def visibleTarget (s : P2pSync) : UInt64 :=
  if s.hasPendingSyncBacklog then max (max s.effectiveSyncTarget s.totalToDownload) s.localTip
  else max s.effectiveSyncTarget s.localTip

def visibleTotal (s : P2pSync) : UInt64 :=
  if s.hasPendingSyncBacklog then max s.totalToDownload s.visibleTarget else s.visibleTarget

def visibleDownloaded (s : P2pSync) : UInt64 :=
  if s.hasPendingSyncBacklog then min (max s.downloaded s.localTip) s.visibleTotal
  else min s.localTip s.visibleTotal

/-- The one place that says whether the node has synced. -/
def refreshFlags (s : P2pSync) : P2pSync :=
  let atTip := decide (s.visibleTarget ≤ s.localTip)
  { s with
    syncTarget := s.visibleTarget
    totalToDownload := s.visibleTotal
    downloaded := s.visibleDownloaded
    queuedSyncTarget := if atTip then none else some s.visibleTarget
    hasSynced := s.genesisIsReady && atTip
    syncing := !s.genesisIsReady || !atTip || s.hasPendingSyncBacklog }

def updateSyncState (s : P2pSync) : P2pSync := s.maintenanceHousekeeping.refreshFlags

def new (db : RockDB) (expectedGenesisHash : Option String) (swarm : Swarm) : P2pSync :=
  let s : P2pSync :=
    { db, swarm, expectedGenesisHash
      syncing := false
      hasSynced := false
      totalToDownload := db.getTipHeight
      downloaded := db.getTipHeight
      pendingVersions := ∅
      pendingPq := ∅
      pqInitiators := []
      pqReadyPeers := []
      pendingBlocks := ∅
      pendingBatches := ∅
      blockQueue := []
      batchQueue := []
      reservedBlockIndices := []
      reservedBatchIndices := []
      triedGenesis := false
      lastSyncedHash := none
      lastSyncedIndex := none
      syncTarget := db.getTipHeight
      queuedSyncTarget := none
      admittedPeers := []
      branchHydration := .defaultMainnet }
  s.updateSyncPointers.updateSyncState

/-- The counters follow a target. -/
def aim (target : UInt64) (s : P2pSync) : P2pSync :=
  { s with syncTarget := target, downloaded := s.localTip, totalToDownload := target }

/-- A target above the tip is kept for later. -/
def queueTarget (target : UInt64) (s : P2pSync) : P2pSync :=
  { s with queuedSyncTarget := if s.localTip < target then some target else none }

def onLocalTipAdvanced (s : P2pSync) : P2pSync :=
  let s := s.updateSyncPointers
  let target := s.effectiveSyncTarget
  ((s.aim target).queueTarget target).updateSyncState

def deferSyncUntilPq (desiredTarget : UInt64) (s : P2pSync) : P2pSync :=
  let target := max (max (max desiredTarget s.localTip) s.syncTarget) (s.queuedSyncTarget.getD 0)
  ((s.aim target).queueTarget target).updateSyncState

def clearPqPeerState (peer : PeerId) (s : P2pSync) : P2pSync :=
  let target := max (max (max s.syncTarget (s.queuedSyncTarget.getD 0)) s.totalToDownload) s.localTip
  let total := max s.totalToDownload target
  let s := { s with
    pqInitiators := s.pqInitiators.erase peer
    pqReadyPeers := s.pqReadyPeers.erase peer
    pendingPq := s.pendingPq.filter fun _ p => decide (p ≠ peer)
    syncTarget := target
    totalToDownload := total
    downloaded := min s.downloaded total }
  (s.queueTarget target).maintenanceHousekeeping

def markPqReady (peer : PeerId) (s : P2pSync) : P2pSync :=
  let s := { s with
    pqReadyPeers := s.pqReadyPeers.insert peer
    pqInitiators := s.pqInitiators.erase peer
    pendingPq := s.pendingPq.filter fun _ p => decide (p ≠ peer) }
  if maxRuntimePeerSideTables < s.pqReadyPeers.length then s.pruneAdvisoryRuntimeTables else s

/-! ### Requests -/

def isBlockIdxInFlightOrReservedOrQueued (idx : UInt64) (s : P2pSync) : Bool :=
  idx ∈ s.reservedBlockIndices || s.pendingBlocks.values.any (fun req => req.idx = idx) ||
    s.blockQueue.any (fun req => req.idx = idx)

def isBatchIdxInFlightOrReservedOrQueued (idx : UInt64) (s : P2pSync) : Bool :=
  idx ∈ s.reservedBatchIndices || s.pendingBatches.values.any (fun req => req.idx = idx) ||
    s.batchQueue.any (fun req => req.idx = idx)

def canRequestBlockIdx (idx : UInt64) (s : P2pSync) : Bool :=
  if s.dbHasBlockIndex idx then false
  else if maxPendingBlocks ≤ s.pendingBlocks.size then false
  else !s.isBlockIdxInFlightOrReservedOrQueued idx

def canRequestBatchIdx (idx : UInt64) (s : P2pSync) : Bool :=
  if idx ≤ s.db.getAddrIndexHeight then false
  else if maxPendingBatches ≤ s.pendingBatches.size then false
  else !s.isBatchIdxInFlightOrReservedOrQueued idx

def reserveBlockIdxForRequest (idx : UInt64) (s : P2pSync) : Bool × P2pSync :=
  if s.canRequestBlockIdx idx then
    (idx ∉ s.reservedBlockIndices,
      { s with reservedBlockIndices := s.reservedBlockIndices.insert idx })
  else (false, s)

def reserveBatchIdxForRequest (idx : UInt64) (s : P2pSync) : Bool × P2pSync :=
  if s.canRequestBatchIdx idx then
    (idx ∉ s.reservedBatchIndices,
      { s with reservedBatchIndices := s.reservedBatchIndices.insert idx })
  else (false, s)

/-- The network numbers a block or batch request. -/
def sendBlocktx (s : P2pSync) : RequestId × P2pSync :=
  (s.swarm.nextBlocktxId,
    { s with swarm := { s.swarm with nextBlocktxId := s.swarm.nextBlocktxId+1 } })

def markBlockRequestPending (reqId : RequestId) (req : PendingBlockRequest) (s : P2pSync) :
    P2pSync :=
  { s with
    reservedBlockIndices := s.reservedBlockIndices.erase req.idx
    pendingBlocks := s.pendingBlocks.insert reqId req }

-- Also for a request by hash, which names the block it is for.
def markBatchRequestPending (reqId : RequestId) (req : PendingBatchRequest) (s : P2pSync) :
    P2pSync :=
  { s with
    reservedBatchIndices := s.reservedBatchIndices.erase req.idx
    pendingBatches := s.pendingBatches.insert reqId req }

def issueBlockRequestIfAbsent (req : PendingBlockRequest) (s : P2pSync) : Bool × P2pSync :=
  let (reserved, s) := s.reserveBlockIdxForRequest req.idx
  if reserved then
    let (reqId, s) := s.sendBlocktx
    (true, s.markBlockRequestPending reqId req)
  else (false, s)

def issueBatchRequest (req : PendingBatchRequest) (s : P2pSync) : Bool × P2pSync :=
  let (reserved, s) := s.reserveBatchIdxForRequest req.idx
  if reserved then
    let (reqId, s) := s.sendBlocktx
    (true, s.markBatchRequestPending reqId req)
  else (false, s)

def issueBatchRequestIfAbsent (peer : PeerId) (idx : UInt64) (retriesLeft : ℕ) (s : P2pSync) :
    Bool × P2pSync :=
  s.issueBatchRequest ⟨peer, idx, retriesLeft, none⟩

def issueBatchRequestByHashIfAbsent (peer : PeerId) (idx : UInt64) (blockHash : Hash)
    (retriesLeft : ℕ) (s : P2pSync) : Bool × P2pSync :=
  s.issueBatchRequest ⟨peer, idx, retriesLeft, some blockHash⟩

def pushBlockRetry (req : PendingBlockRequest) (s : P2pSync) : P2pSync :=
  if s.dbHasBlockIndex req.idx then s
  else if maxBlockQueue ≤ s.blockQueue.length then s
  else if s.isBlockIdxInFlightOrReservedOrQueued req.idx then s
  else { s with blockQueue := s.blockQueue ++ [req] }

-- What hash a batch was asked for is not queued.
def pushBatchRetry (req : PendingBlockRequest) (s : P2pSync) : P2pSync :=
  if req.idx ≤ s.db.getAddrIndexHeight then s
  else if maxBatchQueue ≤ s.batchQueue.length then s
  else if s.isBatchIdxInFlightOrReservedOrQueued req.idx then s
  else { s with batchQueue := s.batchQueue ++ [req] }

def retryBlockIfPossible (req : PendingBlockRequest) (s : P2pSync) : P2pSync :=
  if 0 < req.retriesLeft then s.pushBlockRetry { req with retriesLeft := req.retriesLeft-1 } else s

/-! ### Towards the target -/

def canStartBlockSyncWithPeer (peer : PeerId) (desiredTarget : UInt64) (s : P2pSync) :
    Bool × P2pSync :=
  if s.isConnected peer && s.isPqReady peer then (true, s)
  else (false, s.deferSyncUntilPq desiredTarget)

def requestIndexFromPeer (peer : PeerId) (idx : UInt64) (s : P2pSync) : P2pSync :=
  if !s.isConnected peer then
    s.deferSyncUntilPq (max (max s.syncTarget (s.queuedSyncTarget.getD 0)) idx)
  else if s.dbHasBlockIndex idx then (s.issueBatchRequestIfAbsent peer idx maxRetries).2
  else (s.issueBlockRequestIfAbsent ⟨peer, idx, maxRetries⟩).2

def requestNextBlock (peer : PeerId) (s : P2pSync) : P2pSync :=
  let target := s.effectiveSyncTarget
  let s := s.aim target
  if s.localTip < target then
    let (ready, s) := s.canStartBlockSyncWithPeer peer target
    if ready then (s.requestIndexFromPeer peer (saturatingAdd s.localTip 1)).updateSyncState
    else s.updateSyncState
  else { s with queuedSyncTarget := none }.updateSyncState

def beginSyncToTarget (peer : PeerId) (peerTip : UInt64) (s : P2pSync) : P2pSync :=
  let target := max (max (max s.syncTarget (s.queuedSyncTarget.getD 0)) s.localTip) peerTip
  let s := s.aim target
  if target ≤ s.localTip then { s with queuedSyncTarget := none }.updateSyncState
  else
    let (ready, s) := s.canStartBlockSyncWithPeer peer target
    if ready then
      let s := { s with
        queuedSyncTarget := none
        downloaded := s.localTip
        totalToDownload := s.syncTarget }
      if s.syncTarget ≤ s.downloaded then s.updateSyncState
      else (s.requestIndexFromPeer peer (saturatingAdd s.downloaded 1)).updateSyncState
    else s.updateSyncState

/-! ### Proposal safety -/

def branchHydrationActive (s : P2pSync) : Bool := s.branchHydration.active

def tipHash (s : P2pSync) : Hash := (s.canonicalHashAtHeight s.localTip).getD zeroHash

def publishRuntimeProposalSafetyToMiner (catchupActive : Bool) (catchupReason : Option String)
    (s : P2pSync) (gate : ProposalGate) : ProposalGate :=
  let gate := (gate.setRuntimeRejoinCatchupGate catchupActive catchupReason)
    |>.setRuntimeBranchHydrationActive s.branchHydrationActive
  if s.localTip = 0 ∨ s.tipHash ≠ zeroHash then
    gate.setRuntimeCanonicalTipContext s.localTip s.tipHash
  else gate

def maybeResetMinerProposalSafety (s : P2pSync) (gate : ProposalGate) : ProposalGate :=
  if !s.hasSynced || s.syncing || s.branchHydrationActive then gate
  else if 0 < s.localTip ∧ s.tipHash = zeroHash then gate
  else gate.resetRuntimeProposalSafetyState s.localTip s.tipHash

end P2pSync
end Remzar
