import Mathlib
import Remzar.P2pSync

/-! The events of the sync runtime: claims of height by gossip and by the version handshake,
answers to block and batch requests, connections, and the work done after each of them. -/
namespace Remzar
open Std Fallible Checked Text

/-! ### Version handshake -/

structure VersionInfo where
  protocolVersion : UInt32
  chainHeight : UInt64
  services : UInt32
  userAgent : String
  genesisHash : Option Hash

namespace VersionInfo

def maxUserAgentBytes : ℕ := 256
def maxProtocolVersion : UInt32 := 1000000
def expectedProtocolVersion : UInt32 := 1
-- The node, miner and validator flags.
def knownServices : UInt32 := 7

def genesisHashHex : String :=
  "48ca1f065debb4f4291f1423c3e9da446635e6fbc39e169c2c7b4dfb25b310c95143bc31ab6afb7e63a861abb4807dfc50611765337aa459e3470f682d210e66"

def isControl (c : Char) : Bool := c.toNat < 32 || (127 ≤ c.toNat && c.toNat < 160)

def validateUntrusted (info : VersionInfo) : Bool :=
  byteLen info.userAgent ≤ maxUserAgentBytes && !info.userAgent.toList.any isControl &&
    info.protocolVersion ≠ 0 && info.protocolVersion ≤ maxProtocolVersion &&
    info.services &&& ~~~knownServices = 0

def matchesLocalChain (info : VersionInfo) : Bool :=
  info.validateUntrusted && info.protocolVersion = expectedProtocolVersion &&
    (info.genesisHash.map fun got => Blake3.toHex got.toList) = some genesisHashHex

end VersionInfo

inductive BlockTxResponse where
  | blockData (block : Block)
  | batchData (bytes : List UInt8)
  | txData
  | notFound

namespace P2pSync

/-! ### Peers -/

def pickRetryPeer (exclude : PeerId) (s : P2pSync) : Option PeerId :=
  s.swarm.gossipPeers.find? fun p =>
    decide (p ≠ exclude) && s.isConnected p && (s.isPqReady p || decide (p ∈ s.admittedPeers))

def pickNotfoundRetryPeer (failedPeer : PeerId) (idx : UInt64) (s : P2pSync) : Option PeerId :=
  (s.swarm.gossipPeers.find? fun p =>
    decide (p ≠ failedPeer) && s.isConnected p && s.isPqReady p &&
      !s.pendingBlocks.values.any fun req => decide (req.peer = p ∧ req.idx = idx)).or
  (s.swarm.gossipPeers.find? fun p => decide (p ≠ failedPeer) && s.isConnected p)

def retryPeer (origin : PeerId) (allowSamePeer : Bool) (s : P2pSync) : Option PeerId :=
  (s.pickRetryPeer origin).or (if allowSamePeer then some origin else none)

/-- A pending block request of a lost peer is queued for another one. -/
def requeueBlock (allowSamePeer : Bool) (s : P2pSync) (entry : RequestId × PendingBlockRequest) :
    P2pSync :=
  let req := entry.2
  let s := { s with pendingBlocks := s.pendingBlocks.erase entry.1 }
  if 0 < req.retriesLeft then
    match s.retryPeer req.peer allowSamePeer with
    | some p => s.pushBlockRetry ⟨p, req.idx, req.retriesLeft-1⟩
    | none => s
  else s

def batchWanted (req : PendingBatchRequest) (s : P2pSync) : Bool :=
  0 < req.retriesLeft && (req.expectedBlockHash.isSome || s.db.getAddrIndexHeight < req.idx)

def requeueBatch (allowSamePeer : Bool) (s : P2pSync) (entry : RequestId × PendingBatchRequest) :
    P2pSync :=
  let req := entry.2
  let s := { s with pendingBatches := s.pendingBatches.erase entry.1 }
  if s.batchWanted req then
    match s.retryPeer req.peer allowSamePeer with
    | some p => s.pushBatchRetry ⟨p, req.idx, req.retriesLeft-1⟩
    | none => s
  else s

def cleanupPendingForPeer (now : Instant) (peer : PeerId) (allowSamePeer : Bool) (s : P2pSync) :
    P2pSync :=
  let s := { s with pendingVersions := s.pendingVersions.filter fun _ p => decide (p ≠ peer) }
  let s := (s.pendingBlocks.toList.filter fun e => decide (e.2.peer = peer)).foldl
    (requeueBlock allowSamePeer) s
  let s := (s.pendingBatches.toList.filter fun e => decide (e.2.peer = peer)).foldl
    (requeueBatch allowSamePeer) s
  { s with branchHydration := s.branchHydration.onPeerDisconnected now peer }

def rejectProtocolPeer (now : Instant) (peer : PeerId) (s : P2pSync) : P2pSync :=
  (s.cleanupPendingForPeer now peer false).clearPqPeerState peer

/-- A guard that refuses a peer may also ask to disconnect it. -/
def handleLastResortDrop (now : Instant) (peer : PeerId) (disconnect : Bool) (s : P2pSync) :
    P2pSync :=
  if disconnect then
    let s := s.rejectProtocolPeer now peer
    { s with admittedPeers := s.admittedPeers.erase peer }
  else s

/-! ### Post-quantum handshake -/

def preserveSyncTargetForPqRetry (s : P2pSync) : P2pSync :=
  let target := max s.syncTarget (s.queuedSyncTarget.getD 0)
  if s.localTip < target then
    { s with
      queuedSyncTarget := some target
      downloaded := s.localTip
      totalToDownload := target
      syncing := true
      hasSynced := false }.updateSyncState
  else s

/-- `built` says whether an offer could be made. -/
def tryStartFreshPqOffer (peer : PeerId) (built : Bool) (s : P2pSync) : P2pSync :=
  if s.isPqReady peer then s
  else if !s.isConnected peer then s.updateSyncState
  else
    let s := s.preserveSyncTargetForPqRetry.clearPqPeerState peer
    if maxPendingPq ≤ s.pendingPq.size then s.updateSyncState
    else if built then
      { s with
        swarm := { s.swarm with nextPqId := s.swarm.nextPqId+1 }
        pendingPq := s.pendingPq.insert s.swarm.nextPqId peer
        pqInitiators := s.pqInitiators.insert peer }.updateSyncState
    else (s.clearPqPeerState peer).updateSyncState

def resumeQueuedSyncAfterPqReady (peer : PeerId) (s : P2pSync) : P2pSync :=
  match s.queuedSyncTarget with
  | none => s.updateSyncState
  | some target =>
    let s := { s with queuedSyncTarget := none }
    let effective := max (max target s.syncTarget) s.localTip
    if effective ≤ s.localTip then s.updateSyncState else s.beginSyncToTarget peer effective

def onPqResponse (now : Instant) (request : RequestId) (peer : PeerId) (finalized built : Bool)
    (s : P2pSync) : P2pSync × Bool :=
  match s.pendingPq[request]? with
  | none => (s, true)
  | some origin =>
    let s := { s with pendingPq := s.pendingPq.erase request }
    if peer ≠ origin then (s.rejectProtocolPeer now peer, false)
    else if origin ∈ s.pqInitiators ∧ finalized then
      let s := { s with pqInitiators := s.pqInitiators.erase origin }
      ((s.markPqReady origin).resumeQueuedSyncAfterPqReady origin, true)
    else
      let s := { s with pqInitiators := s.pqInitiators.erase origin }
      ((s.clearPqPeerState origin).tryStartFreshPqOffer origin built, true)

/-! ### Height claims -/

def pollVersions : List PeerId → P2pSync → P2pSync
  | [], s => s
  | peer :: rest, s =>
    if maxPendingVersions ≤ s.pendingVersions.size then s
    else pollVersions rest
      { s with
        swarm := { s.swarm with nextVersionId := s.swarm.nextVersionId+1 }
        pendingVersions := s.pendingVersions.insert s.swarm.nextVersionId peer }

def pollPeersForHeight (s : P2pSync) : P2pSync :=
  let s := s.updateSyncPointers
  let peers := s.swarm.gossipPeers.take maxHeightPollPeers
  if peers = [] then
    let s := s.updateSyncPointers
    let target := s.effectiveSyncTarget
    ((s.aim target).queueTarget target).updateSyncState
  else (pollVersions peers s).updateSyncState

/-- The height a peer reports. Before there is a genesis block it is taken as it is. -/
def onReportedHeight (origin : PeerId) (height : UInt64) (s : P2pSync) : P2pSync :=
  if !s.dbHasBlockIndex 0 then
    let s := { s with
      syncTarget := height
      totalToDownload := height
      downloaded := 0
      syncing := true
      hasSynced := false }
    let s := (s.issueBlockRequestIfAbsent ⟨origin, 0, maxRetries⟩).2
    { s with triedGenesis := true }.updateSyncState
  else
    let s := s.updateSyncPointers
    if max s.syncTarget s.localTip < height then s.beginSyncToTarget origin height
    else s.updateSyncState

def offerPqIfNew (origin : PeerId) (built : Bool) (s : P2pSync) : P2pSync :=
  if !s.isPqReady origin && !s.pendingPq.values.any (fun p => decide (p = origin)) &&
      !decide (origin ∈ s.pqInitiators) then s.tryStartFreshPqOffer origin built
  else s

/-- `admitted` is the connection guard's answer. A false flag ends the event at once. -/
def onVersionResponse (now : Instant) (request : RequestId) (peer : PeerId) (info : VersionInfo)
    (admitted built : Bool) (s : P2pSync) : P2pSync × Bool :=
  match s.pendingVersions[request]? with
  | none => (s, true)
  | some origin =>
    let s := { s with pendingVersions := s.pendingVersions.erase request }
    if peer ≠ origin then (s.rejectProtocolPeer now peer, false)
    else if !info.matchesLocalChain || !admitted then (s.rejectProtocolPeer now origin, false)
    else
      let s := { s with admittedPeers := s.admittedPeers.insert origin }
      ((s.onReportedHeight origin info.chainHeight).offerPqIfNew origin built, true)

def isReasonableGossipPeerTip (localTip peerTip : UInt64) : Bool :=
  localTip < peerTip && saturatingSub peerTip localTip ≤ maxGossipBlockHeightAdvance

/-- Whether a gossiped block is taken as a claim of height. -/
def gossipBlockTaken [Blake3] (block : Block) (s : P2pSync) : Bool :=
  match block.serializeForStorage with
  | .ok bytes => !exceedsConsensusCap bytes.length &&
      isReasonableGossipPeerTip s.localTip block.metadata.index
  | .error _ => false

def onGossipBlock [Blake3] (peer : PeerId) (block : Block) (s : P2pSync) : P2pSync :=
  if s.gossipBlockTaken block then s.beginSyncToTarget peer block.metadata.index else s

/-! ### Answers -/

def preserveMissingBlockSyncTarget (idx : UInt64) (s : P2pSync) : P2pSync :=
  let target := max (max (max s.syncTarget (s.queuedSyncTarget.getD 0)) idx) s.localTip
  let s := s.aim target
  if s.localTip < idx then
    { s with queuedSyncTarget := some target, syncing := true, hasSynced := false }
  else s

def onBlockNotFound (req : PendingBlockRequest) (s : P2pSync) : P2pSync :=
  let s := s.preserveMissingBlockSyncTarget req.idx
  if req.idx ≤ s.localTip ∨ s.dbHasBlockIndex req.idx then s.requestNextBlock req.peer
  else if 0 < req.retriesLeft then
    let again (peer : PeerId) := s.pushBlockRetry ⟨peer, req.idx, req.retriesLeft-1⟩
    match s.pickNotfoundRetryPeer req.peer req.idx with
    | some peer => (again peer).updateSyncState
    | none =>
      if s.isConnected req.peer && s.isPqReady req.peer then (again req.peer).updateSyncState
      else s.updateSyncState
  else
    -- The retries are used up: the target is not dropped.
    let target := max (max (max s.syncTarget (s.queuedSyncTarget.getD 0)) req.idx) s.localTip
    { s with syncing := true, hasSynced := false, queuedSyncTarget := some target }.updateSyncState

/-- `handle_block_tx_response` up to the point where a block is found to be valid and of the
height asked for; from there on it is `none` here. -/
def handleBlockTxResponse [Blake3] (req : PendingBlockRequest) (response : BlockTxResponse)
    (s : P2pSync) : Option P2pSync :=
  let s := s.updateSyncPointers
  match response with
  | .blockData block =>
    if block.metadata.index ≠ req.idx then some (s.retryBlockIfPossible req)
    else
      match block.serializeForStorage with
      | .error _ => some (s.retryBlockIfPossible req)
      | .ok _ => none
  | .notFound => some (s.onBlockNotFound req)
  | _ => some (s.retryBlockIfPossible req).updateSyncState

/-- `handle_batch_tx_response` for an answer without a batch. -/
def handleBatchTxResponse (req : PendingBatchRequest) (response : BlockTxResponse) (s : P2pSync) :
    Option P2pSync :=
  match response with
  | .batchData _ => none
  | .notFound =>
    if s.batchWanted req then
      some (s.pushBatchRetry ⟨req.peer, req.idx, req.retriesLeft-1⟩).updateSyncState
    else some s.updateSyncState
  | _ => some s.updateSyncState

def onHydration (f : Hydration → Hydration) (s : P2pSync) : P2pSync :=
  { s with branchHydration := f s.branchHydration }

def driveBranchHydrationRequests (now : Instant) (s : P2pSync) : P2pSync :=
  let d := HydrationDriver.driveBranchHydrationRequests now s.isConnected s.isPqReady
    ⟨s.branchHydration, s.swarm.nextBlocktxId⟩
  { s with
    branchHydration := d.hydration
    swarm := { s.swarm with nextBlocktxId := d.nextRequestId } }

def onHydrationFailure (now : Instant) (request : RequestId) (s : P2pSync) : P2pSync :=
  let (failure, h) := s.branchHydration.onRequestFailed now request
  let s := { s with branchHydration := h }
  match failure with
  | .retryScheduled _ _ => s.driveBranchHydrationRequests now
  | _ => s

/-- Any answer on the block protocol; the flag is as for a version. -/
def onBlocktxResponse [Blake3] (now : Instant) (request : RequestId) (peer : PeerId)
    (response : BlockTxResponse) (s : P2pSync) : Option (P2pSync × Bool) :=
  match s.pendingBlocks[request]? with
  | some req =>
    let s := { s with pendingBlocks := s.pendingBlocks.erase request }
    if peer ≠ req.peer then
      let s := s.rejectProtocolPeer now peer
      some (if s.dbHasBlockIndex req.idx then s else s.retryBlockIfPossible req, false)
    else (s.handleBlockTxResponse req response).map (·, true)
  | none =>
    match s.pendingBatches[request]? with
    | some req =>
      let s := { s with pendingBatches := s.pendingBatches.erase request }
      if peer ≠ req.peer then
        let s := s.rejectProtocolPeer now peer
        some (if 0 < req.retriesLeft ∧ s.db.getAddrIndexHeight < req.idx then
          s.pushBatchRetry ⟨req.peer, req.idx, req.retriesLeft-1⟩ else s, false)
      else (s.handleBatchTxResponse req response).map (·, true)
    | none =>
      match response with
      | .notFound => some (s.onHydrationFailure now request, true)
      | .blockData _ => none
      | _ => some (s, true)

/-- A request that failed is tried at another peer. -/
def onBlocktxFailure (now : Instant) (request : RequestId) (peer : PeerId) (s : P2pSync) : P2pSync :=
  let other (s : P2pSync) (origin : PeerId) :=
    (s.pickRetryPeer origin).filter fun p => decide (p ≠ origin) && decide (p ≠ peer)
  match s.pendingBlocks[request]? with
  | some req =>
    let s := { s with pendingBlocks := s.pendingBlocks.erase request }
    if 0 < req.retriesLeft ∧ !s.dbHasBlockIndex req.idx then
      match other s req.peer with
      | some p => s.pushBlockRetry ⟨p, req.idx, req.retriesLeft-1⟩
      | none => s
    else s
  | none =>
    match s.pendingBatches[request]? with
    | some req =>
      let s := { s with pendingBatches := s.pendingBatches.erase request }
      if 0 < req.retriesLeft ∧ s.db.getAddrIndexHeight < req.idx then
        match other s req.peer with
        | some p => s.pushBatchRetry ⟨p, req.idx, req.retriesLeft-1⟩
        | none => s
      else s
    | none => s.onHydrationFailure now request

/-! ### After each event -/

def drainBlockQueue : List PendingBlockRequest → P2pSync → P2pSync
  | [], s => { s with blockQueue := [] }
  | req :: rest, s =>
    let s := { s with blockQueue := rest }
    if s.dbHasBlockIndex req.idx then
      if s.db.getAddrIndexHeight < req.idx then
        let (issued, s) := s.issueBatchRequestIfAbsent req.peer req.idx maxRetries
        if issued then s else drainBlockQueue rest s
      else drainBlockQueue rest s
    else
      let (issued, s) := s.issueBlockRequestIfAbsent req
      if issued then s else drainBlockQueue rest s

def drainBatchQueue : List PendingBlockRequest → P2pSync → P2pSync
  | [], s => { s with batchQueue := [] }
  | req :: rest, s =>
    let s := { s with batchQueue := rest }
    if req.idx ≤ s.db.getAddrIndexHeight then drainBatchQueue rest s
    else
      let (issued, s) := s.issueBatchRequestIfAbsent req.peer req.idx req.retriesLeft
      if issued then s else drainBatchQueue rest s

def pickIdleSyncResumePeer (s : P2pSync) : Option PeerId :=
  (s.swarm.gossipPeers.find? fun p => s.isConnected p && s.isPqReady p).or
    (s.swarm.gossipPeers.find? s.isConnected)

def reissueIdleSyncWorkIfNeeded (s : P2pSync) : P2pSync :=
  let target := s.effectiveSyncTarget
  let idle := s.pendingBlocks.isEmpty && s.blockQueue.isEmpty && s.pendingBatches.isEmpty &&
    s.batchQueue.isEmpty
  if target ≤ s.localTip ∨ !idle then s
  else if s.syncing || s.queuedSyncTarget.isSome || s.localTip < s.syncTarget then
    let s := { s.aim target with
      queuedSyncTarget := some target
      syncing := true
      hasSynced := false }
    match s.pickIdleSyncResumePeer with
    | none => s.updateSyncState
    | some peer => s.requestNextBlock peer
  else s

/-- A node that has caught up notes how far its accounts go. -/
def noteApplied (s : P2pSync) : P2pSync :=
  if s.hasSynced && !s.syncing && s.db.getAddrIndexHeight < s.localTip then
    { s with db := s.db.setAddrIndexHeight s.localTip }
  else s

def dropTimedOut (now : Instant) (s : P2pSync) (peer : PeerId) : P2pSync :=
  (s.cleanupPendingForPeer now peer false).clearPqPeerState peer

def drainQueues (s : P2pSync) : P2pSync :=
  let s := if s.syncing && s.pendingBlocks.isEmpty then s.drainBlockQueue s.blockQueue else s
  if s.syncing && s.pendingBatches.isEmpty then s.drainBatchQueue s.batchQueue else s

/-- What `on_swarm_event` does last. -/
def finish (now : Instant) (timedOut : List PeerId) (s : P2pSync) : P2pSync :=
  let s := (timedOut.foldl (dropTimedOut now) s).drainQueues.reissueIdleSyncWorkIfNeeded
  (s.driveBranchHydrationRequests now).updateSyncState.noteApplied

/-! ### Events -/

/-- What the network reports, with what the guards and the key exchange answered to it. -/
inductive SwarmEvent where
  | connectionEstablished (peer : PeerId) (allowed : Bool)
  | connectionClosed (peer : PeerId)
  | connectionError (peer : PeerId)
  | versionResponse (request : RequestId) (peer : PeerId) (info : VersionInfo)
      (admitted built : Bool)
  | versionRequest (peer : PeerId) (info : VersionInfo) (dropped : Option Bool) (admitted : Bool)
  | versionFailure (request : RequestId)
  | pqResponse (request : RequestId) (peer : PeerId) (finalized built : Bool)
  | pqRequest (peer : PeerId) (dropped : Option Bool) (answered : Bool)
  | pqFailure (request : RequestId) (built : Bool)
  | pqInboundFailure (peer : PeerId)
  | blocktxResponse (request : RequestId) (peer : PeerId) (response : BlockTxResponse)
  | blocktxRequest (peer : PeerId) (dropped : Option Bool)
  | blocktxFailure (request : RequestId) (peer : PeerId)
  | other

-- `dropped` holds whether the peer that is refused is also disconnected.
def onVersionRequest (now : Instant) (peer : PeerId) (info : VersionInfo) (dropped : Option Bool)
    (admitted : Bool) (s : P2pSync) : P2pSync × Bool :=
  if !info.matchesLocalChain then (s.rejectProtocolPeer now peer, false)
  else
    match dropped with
    | some disconnect => (s.handleLastResortDrop now peer disconnect, false)
    | none =>
      if admitted then ({ s with admittedPeers := s.admittedPeers.insert peer }, true)
      else (s.rejectProtocolPeer now peer, false)

def onPqRequest (now : Instant) (peer : PeerId) (dropped : Option Bool) (answered : Bool)
    (s : P2pSync) : P2pSync × Bool :=
  match dropped with
  | some disconnect => ((s.handleLastResortDrop now peer disconnect).clearPqPeerState peer, false)
  | none =>
    if answered then ((s.markPqReady peer).resumeQueuedSyncAfterPqReady peer, true)
    else (s.clearPqPeerState peer, true)

def onPqFailure (request : RequestId) (built : Bool) (s : P2pSync) : P2pSync :=
  match s.pendingPq[request]? with
  | none => s
  | some origin =>
    { s with pendingPq := s.pendingPq.erase request }
      |>.clearPqPeerState origin |>.tryStartFreshPqOffer origin built

def onConnectionClosed (now : Instant) (peer : PeerId) (s : P2pSync) : P2pSync :=
  let s := { s with admittedPeers := s.admittedPeers.erase peer }
  ((s.clearPqPeerState peer).cleanupPendingForPeer now peer true).driveBranchHydrationRequests now

/-- An event before its `finish`; `none` where a valid block or a batch is brought. -/
def handleSwarmEvent [Blake3] (now : Instant) (s : P2pSync) : SwarmEvent → Option (P2pSync × Bool)
  | .connectionEstablished peer allowed =>
    if allowed then some (s.pollPeersForHeight.driveBranchHydrationRequests now, true)
    else some (s.rejectProtocolPeer now peer, false)
  | .connectionClosed peer => some (s.onConnectionClosed now peer, true)
  | .connectionError peer => some ((s.clearPqPeerState peer).driveBranchHydrationRequests now, true)
  | .versionResponse request peer info admitted built =>
    some (s.onVersionResponse now request peer info admitted built)
  | .versionRequest peer info dropped admitted =>
    some (s.onVersionRequest now peer info dropped admitted)
  | .versionFailure request =>
    some ({ s with pendingVersions := s.pendingVersions.erase request }, true)
  | .pqResponse request peer finalized built =>
    some (s.onPqResponse now request peer finalized built)
  | .pqRequest peer dropped answered => some (s.onPqRequest now peer dropped answered)
  | .pqFailure request built => some (s.onPqFailure request built, true)
  | .pqInboundFailure peer => some (s.clearPqPeerState peer, true)
  | .blocktxResponse request peer response => s.onBlocktxResponse now request peer response
  | .blocktxRequest peer dropped =>
    match dropped with
    | some disconnect => some (s.handleLastResortDrop now peer disconnect, true)
    | none => some (s, true)
  | .blocktxFailure request peer => some (s.onBlocktxFailure now request peer, true)
  | .other => some (s.driveBranchHydrationRequests now, true)

def onSwarmEvent [Blake3] (now : Instant) (timedOut : List PeerId) (event : SwarmEvent)
    (s : P2pSync) : Option P2pSync :=
  (s.handleSwarmEvent now event).map fun r => if r.2 then r.1.finish now timedOut else r.1

end P2pSync
end Remzar
