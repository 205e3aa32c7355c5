import Mathlib
import Remzar.Lib.RequestBook
import Remzar.SyncHandlers

/-! The books of the sync runtime, over every run of its events: no index is asked for twice at a
time, and no reservation outlives the call that made it. -/
namespace Remzar
open Std Fallible Effects Checked RequestBook

namespace P2pSync
variable {s s' : P2pSync}

def blockBook (s : P2pSync) : Book PendingBlockRequest PendingBlockRequest :=
  ⟨s.pendingBlocks, s.blockQueue⟩

def batchBook (s : P2pSync) : Book PendingBatchRequest PendingBlockRequest :=
  ⟨s.pendingBatches, s.batchQueue⟩

/-- Both books are sound, no number is in both, and nothing is reserved. -/
structure Booked (s : P2pSync) : Prop where
  blocks : Sound PendingBlockRequest.idx PendingBlockRequest.idx maxPendingBlocks maxBlockQueue
    s.swarm.nextBlocktxId s.blockBook
  batches : Sound PendingBatchRequest.idx PendingBlockRequest.idx maxPendingBatches maxBatchQueue
    s.swarm.nextBlocktxId s.batchBook
  separate : ∀ r : RequestId, s.pendingBlocks[r]? = none ∨ s.pendingBatches[r]? = none
  blockReserved : s.reservedBlockIndices = []
  batchReserved : s.reservedBatchIndices = []

/-- All that the books are made of. -/
def books (s : P2pSync) : Book PendingBlockRequest PendingBlockRequest ×
    Book PendingBatchRequest PendingBlockRequest × List UInt64 × List UInt64 :=
  (s.blockBook, s.batchBook, s.reservedBlockIndices, s.reservedBatchIndices)

theorem Booked.frame (h : s.Booked) (hbooks : s'.books = s.books)
    (hnext : s.swarm.nextBlocktxId ≤ s'.swarm.nextBlocktxId) : s'.Booked := by
  simp only [books, Prod.mk.injEq] at hbooks
  obtain ⟨hblocks, hbatches, hblockReserved, hbatchReserved⟩ := hbooks
  refine ⟨?_, ?_, ?_, hblockReserved.trans h.blockReserved,
    hbatchReserved.trans h.batchReserved⟩
  · rw [hblocks]
    exact h.blocks.mono hnext
  · rw [hbatches]
    exact h.batches.mono hnext
  · have hpending : s'.pendingBlocks = s.pendingBlocks := congrArg Book.pending hblocks
    have hpending' : s'.pendingBatches = s.pendingBatches := congrArg Book.pending hbatches
    rw [hpending, hpending']
    exact h.separate

/-! ### Requests -/

theorem not_taken_block {idx : UInt64} (h : s.isBlockIdxInFlightOrReservedOrQueued idx = false) :
    ¬Taken PendingBlockRequest.idx PendingBlockRequest.idx s.blockBook idx := by
  simp only [isBlockIdxInFlightOrReservedOrQueued, Bool.or_eq_false_iff, List.any_eq_false,
    decide_eq_true_eq] at h
  obtain ⟨⟨-, hpending⟩, hqueue⟩ := h
  rintro (⟨r, req, hreq, hidx⟩ | ⟨req, hreq, hidx⟩)
  · exact hpending req (mem_values hreq) hidx
  · exact hqueue req hreq hidx

theorem not_taken_batch {idx : UInt64} (h : s.isBatchIdxInFlightOrReservedOrQueued idx = false) :
    ¬Taken PendingBatchRequest.idx PendingBlockRequest.idx s.batchBook idx := by
  simp only [isBatchIdxInFlightOrReservedOrQueued, Bool.or_eq_false_iff, List.any_eq_false,
    decide_eq_true_eq] at h
  obtain ⟨⟨-, hpending⟩, hqueue⟩ := h
  rintro (⟨r, req, hreq, hidx⟩ | ⟨req, hreq, hidx⟩)
  · exact hpending req (mem_values hreq) hidx
  · exact hqueue req hreq hidx

theorem canRequestBlockIdx_inv {idx : UInt64} (h : s.canRequestBlockIdx idx = true) :
    s.pendingBlocks.size < maxPendingBlocks ∧
      ¬Taken PendingBlockRequest.idx PendingBlockRequest.idx s.blockBook idx := by
  unfold canRequestBlockIdx at h
  split at h
  · cases h
  · split at h
    · cases h
    · rename_i hroom
      exact ⟨Nat.not_le.mp hroom, not_taken_block (by simpa using h)⟩

theorem canRequestBatchIdx_inv {idx : UInt64} (h : s.canRequestBatchIdx idx = true) :
    s.pendingBatches.size < maxPendingBatches ∧
      ¬Taken PendingBatchRequest.idx PendingBlockRequest.idx s.batchBook idx := by
  unfold canRequestBatchIdx at h
  split at h
  · cases h
  · split at h
    · cases h
    · rename_i hroom
      exact ⟨Nat.not_le.mp hroom, not_taken_batch (by simpa using h)⟩

/-- What issuing a block request does when nothing is reserved: nothing, or one request is out. -/
theorem issueBlockRequestIfAbsent_eq (hs : s.Booked) (req : PendingBlockRequest) :
    s.issueBlockRequestIfAbsent req = if s.canRequestBlockIdx req.idx then
      (true, { s with
        swarm := { s.swarm with nextBlocktxId := s.swarm.nextBlocktxId+1 }
        pendingBlocks := s.pendingBlocks.insert s.swarm.nextBlocktxId req })
    else (false, s) := by
  have hreserved := hs.blockReserved
  unfold issueBlockRequestIfAbsent reserveBlockIdxForRequest
  by_cases hcan : s.canRequestBlockIdx req.idx
  · simp [hcan, hreserved, sendBlocktx, markBlockRequestPending]
  · simp [hcan]

theorem issueBatchRequest_eq (hs : s.Booked) (req : PendingBatchRequest) :
    s.issueBatchRequest req = if s.canRequestBatchIdx req.idx then
      (true, { s with
        swarm := { s.swarm with nextBlocktxId := s.swarm.nextBlocktxId+1 }
        pendingBatches := s.pendingBatches.insert s.swarm.nextBlocktxId req })
    else (false, s) := by
  have hreserved := hs.batchReserved
  unfold issueBatchRequest reserveBatchIdxForRequest
  by_cases hcan : s.canRequestBatchIdx req.idx
  · simp [hcan, hreserved, sendBlocktx, markBatchRequestPending]
  · simp [hcan]

theorem separate_insert {α β : Type} {pending : ExtTreeMap ℕ α} {others : ExtTreeMap ℕ β} {next : ℕ}
    (h : ∀ r : ℕ, pending[r]? = none ∨ others[r]? = none) (hnext : others[next]? = none) {a : α}
    (r : ℕ) : (pending.insert next a)[r]? = none ∨ others[r]? = none := by
  rw [ExtTreeMap.getElem?_insert]
  split
  · rename_i hr
    rw [← LawfulEqOrd.eq_of_compare hr]
    exact Or.inr hnext
  · exact h r

theorem separate_erase {α β : Type} {pending : ExtTreeMap ℕ α} {others : ExtTreeMap ℕ β}
    (h : ∀ r : ℕ, pending[r]? = none ∨ others[r]? = none) (k r : ℕ) :
    (pending.erase k)[r]? = none ∨ others[r]? = none := by
  rw [ExtTreeMap.getElem?_erase]
  split
  · exact Or.inl rfl
  · exact h r

namespace Booked

theorem issueBlock (hs : s.Booked) (req : PendingBlockRequest) :
    (s.issueBlockRequestIfAbsent req).2.Booked := by
  rw [issueBlockRequestIfAbsent_eq hs]
  split
  · rename_i hcan
    obtain ⟨hroom, hfree⟩ := canRequestBlockIdx_inv hcan
    refine ⟨hs.blocks.send hfree hroom, hs.batches.mono (Nat.le_succ _), ?_, hs.blockReserved,
      hs.batchReserved⟩
    exact separate_insert hs.separate (hs.batches.unused le_rfl)
  · exact hs

theorem issueBatch (hs : s.Booked) (req : PendingBatchRequest) :
    (s.issueBatchRequest req).2.Booked := by
  rw [issueBatchRequest_eq hs]
  split
  · rename_i hcan
    obtain ⟨hroom, hfree⟩ := canRequestBatchIdx_inv hcan
    refine ⟨hs.blocks.mono (Nat.le_succ _), hs.batches.send hfree hroom, ?_, hs.blockReserved,
      hs.batchReserved⟩
    exact fun r => (separate_insert (fun r => (hs.separate r).symm)
      (hs.blocks.unused le_rfl) r).symm
  · exact hs

theorem pushBlock (hs : s.Booked) (req : PendingBlockRequest) : (s.pushBlockRetry req).Booked := by
  unfold pushBlockRetry
  split
  · exact hs
  · split
    · exact hs
    · rename_i hroom
      split
      · exact hs
      · rename_i hfree
        have hsound := hs.blocks.enqueue (not_taken_block (Bool.eq_false_of_not_eq_true hfree))
          (Nat.not_le.mp hroom)
        exact ⟨hsound, hs.batches, hs.separate, hs.blockReserved, hs.batchReserved⟩

theorem pushBatch (hs : s.Booked) (req : PendingBlockRequest) : (s.pushBatchRetry req).Booked := by
  unfold pushBatchRetry
  split
  · exact hs
  · split
    · exact hs
    · rename_i hroom
      split
      · exact hs
      · rename_i hfree
        have hsound := hs.batches.enqueue (not_taken_batch (Bool.eq_false_of_not_eq_true hfree))
          (Nat.not_le.mp hroom)
        exact ⟨hs.blocks, hsound, hs.separate, hs.blockReserved, hs.batchReserved⟩

theorem retryBlock (hs : s.Booked) (req : PendingBlockRequest) :
    (s.retryBlockIfPossible req).Booked := by
  unfold retryBlockIfPossible
  split
  · exact hs.pushBlock _
  · exact hs

theorem retryBatch (hs : s.Booked) (req : PendingBatchRequest) :
    (s.retryBatchIfPossible req).Booked := by
  unfold retryBatchIfPossible
  split
  · exact hs.pushBatch _
  · exact hs

theorem answerBlock (hs : s.Booked) (r : RequestId) :
    { s with pendingBlocks := s.pendingBlocks.erase r }.Booked :=
  ⟨hs.blocks.answer r, hs.batches, separate_erase hs.separate r, hs.blockReserved,
    hs.batchReserved⟩

theorem answerBatch (hs : s.Booked) (r : RequestId) :
    { s with pendingBatches := s.pendingBatches.erase r }.Booked :=
  ⟨hs.blocks, hs.batches.answer r,
    fun r' => (separate_erase (fun r => (hs.separate r).symm) r r').symm, hs.blockReserved,
    hs.batchReserved⟩

theorem thinBlocks (hs : s.Booked) {queue : List PendingBlockRequest}
    (hsub : queue.Sublist s.blockQueue) : { s with blockQueue := queue }.Booked :=
  ⟨hs.blocks.thin hsub, hs.batches, hs.separate, hs.blockReserved, hs.batchReserved⟩

theorem thinBatches (hs : s.Booked) {queue : List PendingBlockRequest}
    (hsub : queue.Sublist s.batchQueue) : { s with batchQueue := queue }.Booked :=
  ⟨hs.blocks, hs.batches.thin hsub, hs.separate, hs.blockReserved, hs.batchReserved⟩

/-! ### Housekeeping -/

theorem housekeeping (hs : s.Booked) : s.maintenanceHousekeeping.Booked := by
  have hblocks := hs.thinBlocks (List.take_sublist maxBlockQueue s.blockQueue)
  have hbatches := hblocks.thinBatches (List.take_sublist maxBatchQueue s.batchQueue)
  exact hbatches.frame rfl le_rfl

theorem updateState (hs : s.Booked) : s.updateSyncState.Booked := hs.housekeeping.frame rfl le_rfl

theorem updatePointers (hs : s.Booked) : s.updateSyncPointers.Booked := by
  unfold updateSyncPointers
  split <;> exact hs.frame rfl le_rfl

theorem clearPq (hs : s.Booked) (peer : PeerId) : (s.clearPqPeerState peer).Booked := by
  unfold clearPqPeerState
  exact Booked.housekeeping (hs.frame rfl le_rfl)

theorem markPq (hs : s.Booked) (peer : PeerId) : (s.markPqReady peer).Booked := by
  unfold markPqReady
  dsimp only
  split <;> exact hs.frame rfl le_rfl

theorem deferUntilPq (hs : s.Booked) (desired : UInt64) : (s.deferSyncUntilPq desired).Booked :=
  (hs.frame rfl le_rfl : Booked (queueTarget _ (aim _ s))).updateState

theorem onTipAdvanced (hs : s.Booked) : s.onLocalTipAdvanced.Booked :=
  (hs.updatePointers.frame rfl le_rfl : Booked (queueTarget _ (aim _ s.updateSyncPointers))).updateState

/-! ### Towards the target -/

theorem canStart (hs : s.Booked) (peer : PeerId) (target : UInt64) :
    (s.canStartBlockSyncWithPeer peer target).2.Booked := by
  unfold canStartBlockSyncWithPeer
  split
  · exact hs
  · exact hs.deferUntilPq target

theorem requestIndex (hs : s.Booked) (peer : PeerId) (idx : UInt64) :
    (s.requestIndexFromPeer peer idx).Booked := by
  unfold requestIndexFromPeer
  split
  · exact hs.deferUntilPq _
  · split
    · exact hs.issueBatch _
    · exact hs.issueBlock _

theorem requestNext (hs : s.Booked) (peer : PeerId) : (s.requestNextBlock peer).Booked := by
  have haim : (s.aim s.effectiveSyncTarget).Booked := hs.frame rfl le_rfl
  unfold requestNextBlock
  dsimp only
  split
  · have hstart := haim.canStart peer s.effectiveSyncTarget
    split
    · exact (hstart.requestIndex _ _).updateState
    · exact hstart.updateState
  · exact (haim.frame rfl le_rfl : Booked { s.aim s.effectiveSyncTarget with
      queuedSyncTarget := none }).updateState

theorem beginSync (hs : s.Booked) (peer : PeerId) (peerTip : UInt64) :
    (s.beginSyncToTarget peer peerTip).Booked := by
  unfold beginSyncToTarget
  dsimp only
  generalize max (max (max s.syncTarget (s.queuedSyncTarget.getD 0)) s.localTip) peerTip = target
  have haim : (s.aim target).Booked := hs.frame rfl le_rfl
  split
  · exact (haim.frame rfl le_rfl : Booked { s.aim target with queuedSyncTarget := none }).updateState
  · have hstart := haim.canStart peer target
    generalize (s.aim target).canStartBlockSyncWithPeer peer target = started at hstart ⊢
    split
    · have hcounted : Booked { started.2 with
          queuedSyncTarget := none
          downloaded := started.2.localTip
          totalToDownload := started.2.syncTarget } := hstart.frame rfl le_rfl
      split
      · exact hcounted.updateState
      · exact (hcounted.requestIndex _ _).updateState
    · exact hstart.updateState

/-! ### Peers -/

theorem foldl {α : Type} {f : P2pSync → α → P2pSync} (items : List α)
    (hf : ∀ s a, Booked s → Booked (f s a)) (hs : s.Booked) : (items.foldl f s).Booked := by
  induction items generalizing s with
  | nil => exact hs
  | cons a rest ih => exact ih (hf s a hs)

theorem hydrate (hs : s.Booked) (h : Hydration) : { s with branchHydration := h }.Booked :=
  hs.frame rfl le_rfl

theorem requeueBlock (hs : s.Booked) (allowSamePeer : Bool)
    (entry : RequestId × PendingBlockRequest) : (s.requeueBlock allowSamePeer entry).Booked := by
  have hanswered := hs.answerBlock entry.1
  unfold P2pSync.requeueBlock
  dsimp only
  split
  · split
    · exact hanswered.pushBlock _
    · exact hanswered
  · exact hanswered

theorem requeueBatch (hs : s.Booked) (allowSamePeer : Bool)
    (entry : RequestId × PendingBatchRequest) : (s.requeueBatch allowSamePeer entry).Booked := by
  have hanswered := hs.answerBatch entry.1
  unfold P2pSync.requeueBatch
  dsimp only
  split
  · split
    · exact hanswered.pushBatch _
    · exact hanswered
  · exact hanswered

theorem cleanup (hs : s.Booked) (now : Instant) (peer : PeerId) (allowSamePeer : Bool) :
    (s.cleanupPendingForPeer now peer allowSamePeer).Booked := by
  unfold cleanupPendingForPeer
  dsimp only
  have hversions : Booked { s with
    pendingVersions := s.pendingVersions.filter fun _ p => decide (p ≠ peer) } := hs.frame rfl le_rfl
  exact hydrate (foldl _ (fun s e hs => requeueBatch hs allowSamePeer e)
    (foldl _ (fun s e hs => requeueBlock hs allowSamePeer e) hversions)) _

theorem rejectPeer (hs : s.Booked) (now : Instant) (peer : PeerId) :
    (s.rejectProtocolPeer now peer).Booked := (hs.cleanup now peer false).clearPq peer

theorem lastResortDrop (hs : s.Booked) (now : Instant) (peer : PeerId) (disconnect : Bool) :
    (s.handleLastResortDrop now peer disconnect).Booked := by
  unfold handleLastResortDrop
  split
  · have hreject := hs.rejectPeer now peer
    dsimp only
    generalize s.rejectProtocolPeer now peer = s₁ at hreject ⊢
    exact hreject.frame rfl le_rfl
  · exact hs

theorem dropTimedOut (hs : s.Booked) (now : Instant) (peer : PeerId) :
    (P2pSync.dropTimedOut now s peer).Booked := (hs.cleanup now peer false).clearPq peer

/-! ### Handshakes -/

theorem preserveForPqRetry (hs : s.Booked) : s.preserveSyncTargetForPqRetry.Booked := by
  unfold preserveSyncTargetForPqRetry
  dsimp only
  split
  · exact Booked.updateState (hs.frame rfl le_rfl)
  · exact hs

theorem freshOffer (hs : s.Booked) (peer : PeerId) (built : Bool) :
    (s.tryStartFreshPqOffer peer built).Booked := by
  unfold tryStartFreshPqOffer
  dsimp only
  split
  · exact hs
  · split
    · exact hs.updateState
    · have hclear := hs.preserveForPqRetry.clearPq peer
      split
      · exact hclear.updateState
      · split
        · exact Booked.updateState (hclear.frame rfl le_rfl)
        · exact (hclear.clearPq peer).updateState

theorem resumeQueued (hs : s.Booked) (peer : PeerId) :
    (s.resumeQueuedSyncAfterPqReady peer).Booked := by
  unfold resumeQueuedSyncAfterPqReady
  split
  · exact hs.updateState
  · dsimp only
    have hcleared : Booked { s with queuedSyncTarget := none } := hs.frame rfl le_rfl
    split
    · exact hcleared.updateState
    · exact hcleared.beginSync _ _

theorem pqResponse (hs : s.Booked) (now : Instant) (request : RequestId) (peer : PeerId)
    (finalized built : Bool) : (s.onPqResponse now request peer finalized built).1.Booked := by
  unfold onPqResponse
  split
  · exact hs
  next origin _ =>
    dsimp only
    have hanswered : Booked { s with pendingPq := s.pendingPq.erase request } :=
      hs.frame rfl le_rfl
    have hopened : Booked { s with
        pendingPq := s.pendingPq.erase request
        pqInitiators := s.pqInitiators.erase origin } := hs.frame rfl le_rfl
    split
    · exact hanswered.rejectPeer now peer
    · split
      · exact (hopened.markPq origin).resumeQueued origin
      · exact (hopened.clearPq origin).freshOffer origin built

/-! ### Height claims -/

theorem pollVersions (peers : List PeerId) (hs : s.Booked) : (P2pSync.pollVersions peers s).Booked := by
  induction peers generalizing s with
  | nil => exact hs
  | cons peer rest ih =>
    rw [P2pSync.pollVersions]
    split
    · exact hs
    · exact ih (hs.frame rfl le_rfl)

theorem pollPeers (hs : s.Booked) : s.pollPeersForHeight.Booked := by
  have hpointers := hs.updatePointers
  unfold pollPeersForHeight
  dsimp only
  split
  · exact Booked.updateState (hpointers.updatePointers.frame rfl le_rfl)
  · exact (hpointers.pollVersions _).updateState

theorem reportedHeight (hs : s.Booked) (origin : PeerId) (height : UInt64) :
    (s.onReportedHeight origin height).Booked := by
  unfold onReportedHeight
  dsimp only
  split
  · have haimed : Booked { s with
        syncTarget := height
        totalToDownload := height
        downloaded := 0
        syncing := true
        hasSynced := false } := hs.frame rfl le_rfl
    have hissued := haimed.issueBlock ⟨origin, 0, maxRetries⟩
    generalize (issueBlockRequestIfAbsent _ _).2 = s₁ at hissued ⊢
    have htried : Booked { s₁ with triedGenesis := true } := hissued.frame rfl le_rfl
    exact htried.updateState
  · split
    · exact hs.updatePointers.beginSync _ _
    · exact hs.updatePointers.updateState

theorem offerPq (hs : s.Booked) (origin : PeerId) (built : Bool) :
    (s.offerPqIfNew origin built).Booked := by
  unfold offerPqIfNew
  split
  · exact hs.freshOffer _ _
  · exact hs

theorem versionResponse (hs : s.Booked) (now : Instant) (request : RequestId) (peer : PeerId)
    (info : VersionInfo) (admitted built : Bool) :
    (s.onVersionResponse now request peer info admitted built).1.Booked := by
  unfold onVersionResponse
  split
  · exact hs
  next origin _ =>
    dsimp only
    have hanswered : Booked { s with pendingVersions := s.pendingVersions.erase request } :=
      hs.frame rfl le_rfl
    have hadmitted : Booked { s with
        pendingVersions := s.pendingVersions.erase request
        admittedPeers := s.admittedPeers.insert origin } := hs.frame rfl le_rfl
    split
    · exact hanswered.rejectPeer now peer
    · split
      · exact hanswered.rejectPeer now origin
      · exact (hadmitted.reportedHeight origin info.chainHeight).offerPq origin built

theorem gossipBlock [Blake3] (hs : s.Booked) (peer : PeerId) (block : Block) :
    (s.onGossipBlock peer block).Booked := by
  unfold onGossipBlock
  split
  · exact hs.beginSync _ _
  · exact hs

/-! ### Answers without a block -/

theorem blockNotFound (hs : s.Booked) (req : PendingBlockRequest) : (s.onBlockNotFound req).Booked := by
  have hkept : (s.preserveMissingBlockSyncTarget req.idx).Booked := by
    unfold preserveMissingBlockSyncTarget
    dsimp only
    split <;> exact hs.frame rfl le_rfl
  unfold onBlockNotFound
  dsimp only
  generalize s.preserveMissingBlockSyncTarget req.idx = s₁ at hkept ⊢
  split
  · exact hkept.requestNext _
  · split
    · split
      · exact (hkept.pushBlock _).updateState
      · split
        · exact (hkept.pushBlock _).updateState
        · exact hkept.updateState
    · exact Booked.updateState (hkept.frame rfl le_rfl)

theorem driveRounds_le (now : Instant) (connected pqReady : PeerId → Bool) (rounds : ℕ)
    (d : HydrationDriver) :
    d.nextRequestId ≤ (HydrationDriver.driveRounds now connected pqReady rounds d).nextRequestId := by
  induction rounds generalizing d with
  | zero => exact le_rfl
  | succ rounds ih =>
    rw [HydrationDriver.driveRounds]
    split
    · exact le_rfl
    next peer hash h _ =>
      split
      · exact (Nat.le_succ _).trans (ih ⟨h.markIssued now d.nextRequestId hash, d.nextRequestId+1⟩)
      · exact ih { d with hydration := h }

theorem drive (hs : s.Booked) (now : Instant) : (s.driveBranchHydrationRequests now).Booked := by
  refine hs.frame rfl ?_
  exact driveRounds_le now s.isConnected s.isPqReady _ ⟨s.branchHydration, s.swarm.nextBlocktxId⟩

theorem hydrationFailure (hs : s.Booked) (now : Instant) (request : RequestId) :
    (s.onHydrationFailure now request).Booked := by
  unfold onHydrationFailure
  have hfailed := hs.hydrate (s.branchHydration.onRequestFailed now request).2
  dsimp only
  split
  · exact hfailed.drive now
  · exact hfailed

theorem blocktxFailure (hs : s.Booked) (now : Instant) (request : RequestId) (peer : PeerId) :
    (s.onBlocktxFailure now request peer).Booked := by
  unfold onBlocktxFailure
  dsimp only
  split
  · have hanswered := hs.answerBlock request
    split
    · split
      · exact hanswered.pushBlock _
      · exact hanswered
    · exact hanswered
  · split
    · have hanswered := hs.answerBatch request
      split
      · split
        · exact hanswered.pushBatch _
        · exact hanswered
      · exact hanswered
    · exact hs.hydrationFailure now request

/-! ### After each event -/

/-- A request that is not issued leaves the books alone. -/
theorem issueBlock_kept (hs : s.Booked) {req : PendingBlockRequest}
    (h : ¬(s.issueBlockRequestIfAbsent req).1 = true) : (s.issueBlockRequestIfAbsent req).2 = s := by
  rw [issueBlockRequestIfAbsent_eq hs] at h ⊢
  split at h
  · exact absurd rfl h
  next hcannot => rw [if_neg hcannot]

theorem issueBatch_kept (hs : s.Booked) {req : PendingBatchRequest}
    (h : ¬(s.issueBatchRequest req).1 = true) : (s.issueBatchRequest req).2 = s := by
  rw [issueBatchRequest_eq hs] at h ⊢
  split at h
  · exact absurd rfl h
  next hcannot => rw [if_neg hcannot]

theorem drainBlocks (queue : List PendingBlockRequest) (hs : s.Booked)
    (hqueue : queue.Sublist s.blockQueue) : (s.drainBlockQueue queue).Booked := by
  induction queue generalizing s with
  | nil => exact hs.thinBlocks hqueue
  | cons req rest ih =>
    have htaken : Booked { s with blockQueue := rest } :=
      hs.thinBlocks ((List.sublist_cons_self req rest).trans hqueue)
    have hrest : (drainBlockQueue rest { s with blockQueue := rest }).Booked :=
      ih htaken (List.Sublist.refl rest)
    rw [drainBlockQueue]
    dsimp only
    split
    · split
      · split
        · exact htaken.issueBatch _
        next hnot =>
          rw [issueBatchRequestIfAbsent, htaken.issueBatch_kept hnot]
          exact hrest
      · exact hrest
    · split
      · exact htaken.issueBlock req
      next hnot =>
        rw [htaken.issueBlock_kept hnot]
        exact hrest

theorem drainBatches (queue : List PendingBlockRequest) (hs : s.Booked)
    (hqueue : queue.Sublist s.batchQueue) : (s.drainBatchQueue queue).Booked := by
  induction queue generalizing s with
  | nil => exact hs.thinBatches hqueue
  | cons req rest ih =>
    have htaken : Booked { s with batchQueue := rest } :=
      hs.thinBatches ((List.sublist_cons_self req rest).trans hqueue)
    have hrest : (drainBatchQueue rest { s with batchQueue := rest }).Booked :=
      ih htaken (List.Sublist.refl rest)
    rw [drainBatchQueue]
    dsimp only
    split
    · exact hrest
    · split
      · exact htaken.issueBatch _
      next hnot =>
        rw [issueBatchRequestIfAbsent, htaken.issueBatch_kept hnot]
        exact hrest

theorem drain (hs : s.Booked) : s.drainQueues.Booked := by
  have hblocks : Booked (if s.syncing && s.pendingBlocks.isEmpty then s.drainBlockQueue s.blockQueue
      else s) := by
    split
    · exact hs.drainBlocks _ (List.Sublist.refl _)
    · exact hs
  unfold drainQueues
  dsimp only
  generalize (if s.syncing && s.pendingBlocks.isEmpty then s.drainBlockQueue s.blockQueue else s) =
    s₁ at hblocks ⊢
  split
  · exact hblocks.drainBatches _ (List.Sublist.refl _)
  · exact hblocks

theorem reissue (hs : s.Booked) : s.reissueIdleSyncWorkIfNeeded.Booked := by
  unfold reissueIdleSyncWorkIfNeeded
  dsimp only
  split
  · exact hs
  · split
    · have haimed : Booked { s.aim s.effectiveSyncTarget with
          queuedSyncTarget := some s.effectiveSyncTarget
          syncing := true
          hasSynced := false } := hs.frame rfl le_rfl
      split
      · exact haimed.updateState
      · exact haimed.requestNext _
    · exact hs

theorem dropAll (hs : s.Booked) (now : Instant) (timedOut : List PeerId) :
    (timedOut.foldl (P2pSync.dropTimedOut now) s).Booked :=
  foldl timedOut (fun _ peer hs => hs.dropTimedOut now peer) hs

/-! ### Events of the network -/

theorem versionRequest (hs : s.Booked) (now : Instant) (peer : PeerId) (info : VersionInfo)
    (dropped : Option Bool) (admitted : Bool) :
    (s.onVersionRequest now peer info dropped admitted).1.Booked := by
  unfold onVersionRequest
  split
  · exact hs.rejectPeer now peer
  · split
    · exact hs.lastResortDrop now peer _
    · split
      · exact hs.frame rfl le_rfl
      · exact hs.rejectPeer now peer

theorem pqRequest (hs : s.Booked) (now : Instant) (peer : PeerId) (dropped : Option Bool)
    (answered : Bool) : (s.onPqRequest now peer dropped answered).1.Booked := by
  unfold onPqRequest
  split
  · exact (hs.lastResortDrop now peer _).clearPq peer
  · split
    · exact (hs.markPq peer).resumeQueued peer
    · exact hs.clearPq peer

theorem pqFailure (hs : s.Booked) (request : RequestId) (built : Bool) :
    (s.onPqFailure request built).Booked := by
  unfold onPqFailure
  split
  · exact hs
  next origin _ =>
    have hanswered : Booked { s with pendingPq := s.pendingPq.erase request } :=
      hs.frame rfl le_rfl
    exact (hanswered.clearPq origin).freshOffer origin built

theorem connectionClosed (hs : s.Booked) (now : Instant) (peer : PeerId) :
    (s.onConnectionClosed now peer).Booked := by
  have herased : Booked { s with admittedPeers := s.admittedPeers.erase peer } :=
    hs.frame rfl le_rfl
  unfold onConnectionClosed
  exact ((herased.clearPq peer).cleanup now peer true).drive now

/-- Events that bring no block and no batch are all handled in the runtime. -/
theorem networkEvent [Blake3] (hs : s.Booked) (now : Instant) (event : SwarmEvent)
    (hevent : ∀ request peer response, event ≠ .blocktxResponse request peer response) :
    ∃ s' handled, s.handleSwarmEvent now event = some (s', handled) ∧ s'.Booked := by
  cases event with
  | connectionEstablished peer allowed =>
    unfold handleSwarmEvent
    dsimp only
    split
    · exact ⟨_, _, rfl, hs.pollPeers.drive now⟩
    · exact ⟨_, _, rfl, hs.rejectPeer now peer⟩
  | connectionClosed peer => exact ⟨_, _, rfl, hs.connectionClosed now peer⟩
  | connectionError peer => exact ⟨_, _, rfl, (hs.clearPq peer).drive now⟩
  | versionResponse request peer info admitted built =>
    exact ⟨_, _, rfl, hs.versionResponse now request peer info admitted built⟩
  | versionRequest peer info dropped admitted =>
    exact ⟨_, _, rfl, hs.versionRequest now peer info dropped admitted⟩
  | versionFailure request => exact ⟨_, _, rfl, hs.frame rfl le_rfl⟩
  | pqResponse request peer finalized built =>
    exact ⟨_, _, rfl, hs.pqResponse now request peer finalized built⟩
  | pqRequest peer dropped answered =>
    exact ⟨_, _, rfl, hs.pqRequest now peer dropped answered⟩
  | pqFailure request built => exact ⟨_, _, rfl, hs.pqFailure request built⟩
  | pqInboundFailure peer => exact ⟨_, _, rfl, hs.clearPq peer⟩
  | blocktxResponse request peer response => exact absurd rfl (hevent request peer response)
  | blocktxRequest peer dropped =>
    cases dropped with
    | none => exact ⟨_, _, rfl, hs⟩
    | some disconnect => exact ⟨_, _, rfl, hs.lastResortDrop now peer disconnect⟩
  | blocktxFailure request peer => exact ⟨_, _, rfl, hs.blocktxFailure now request peer⟩
  | other => exact ⟨_, _, rfl, hs.drive now⟩

end Booked

end P2pSync

/-! ### Events that bring a block or a batch -/

namespace P2pSync.Booked
variable {s : P2pSync}

theorem withDb (hs : s.Booked) (db : RockDB) : { s with db := db }.Booked := hs.frame rfl le_rfl

theorem queueHydration (hs : s.Booked) (originPeer : PeerId) (block : Block) (retriesLeft : ℕ) :
    (s.queueBranchHydration originPeer block retriesLeft).Booked := by
  have hretry := hs.retryBlock ⟨originPeer, block.metadata.index, retriesLeft⟩
  unfold P2pSync.queueBranchHydration
  dsimp only
  generalize s.retryBlockIfPossible ⟨originPeer, block.metadata.index, retriesLeft⟩ = s₁ at hretry ⊢
  split
  · exact (hretry.pushBlock _).hydrate _
  · exact hretry.hydrate _

theorem refreshTracking (hs : s.Booked) : s.refreshSyncTrackingFromCanonicalView.Booked := by
  unfold refreshSyncTrackingFromCanonicalView
  dsimp only
  split
  · exact Booked.updateState (Booked.updatePointers (hs.frame rfl le_rfl))
  · exact hs.updatePointers.updateState

theorem catchUp (hs : s.Booked) : Booked { s with syncing := true } := hs.frame rfl le_rfl

theorem pause (hs : s.Booked) : Booked { s with syncing := false } := hs.frame rfl le_rfl

end P2pSync.Booked

namespace SyncNode
open P2pSync

/-- The books of the node's runtime are in order. -/
def Booked (n : SyncNode) : Prop := n.sync.Booked

namespace Booked
variable {n : SyncNode}

theorem onSync (hn : n.Booked) {f : P2pSync → P2pSync} (hf : n.sync.Booked → (f n.sync).Booked) :
    (n.onSync f).Booked := hf hn

theorem onDb (hn : n.Booked) (f : RockDB → RockDB) : (n.onDb f).Booked := hn.withDb _

theorem withChain (hn : n.Booked) (s : ChainState) : (n.withChain s).Booked := hn.withDb _

theorem conclude (hn : n.Booked) (reason : String) : (n.conclude reason).Booked := hn.updateState

/-! #### Competing branches -/

theorem handleNewBlock [Blake3] (hn : n.Booked) (block : Block) : (n.handleNewBlock block).2.Booked := by
  unfold SyncNode.handleNewBlock
  dsimp only
  split <;> exact hn.withDb _

theorem evaluated (hn : n.Booked) (reason : String) : (n.evaluated reason).Booked :=
  hn.catchUp.refreshTracking

theorem hydrating (hn : n.Booked) (now : Instant) {queue : P2pSync → P2pSync} (reason : String)
    (hqueue : n.sync.Booked → (queue n.sync).Booked) : (n.hydrating now queue reason).Booked :=
  ((hqueue hn).drive now).catchUp.refreshTracking

theorem competingBlock [Blake3] (hn : n.Booked) (now : Instant) (originPeer : PeerId) (block : Block)
    (retriesLeft : ℕ) :
    (n.handleCompetingBlockWithReorgManager now originPeer block retriesLeft).Booked := by
  unfold handleCompetingBlockWithReorgManager
  dsimp only
  split
  · exact (P2pSync.Booked.issueBatch hn _).catchUp.updateState
  · have hpublished : (n.publishRuntimeProposalSafetyToMiner true
        "competing branch handling in progress").Booked := hn
    have hchosen := hpublished.handleNewBlock block
    generalize SyncNode.handleNewBlock block _ = chosen at hchosen ⊢
    obtain ⟨action, n₁⟩ := chosen
    cases action with
    | error e => exact hchosen.hydrating now _ fun h => h.queueHydration originPeer block retriesLeft
    | ok action =>
      cases action with
      | stay => exact hchosen.evaluated _
      | reorg plan => exact (hchosen.evaluated _).onSync fun hs => hs.requestNext originPeer
      | needMoreData missingHash context => exact hchosen.hydrating now _ fun h => h.hydrate _

/-! #### Batches -/

theorem noteBatchForMiner (hn : n.Booked) (header : Block) (batch : TransactionBatch) :
    (n.noteBatchForMiner header batch).Booked := by
  unfold SyncNode.noteBatchForMiner
  split
  · exact hn
  · split <;> exact hn.withDb _

theorem afterForkChoice [Blake3] (hn : n.Booked) (now : Instant) (req : PendingBatchRequest)
    (header : Block) : (n.afterForkChoice now req header).Booked := by
  have hchosen := hn.handleNewBlock header
  unfold SyncNode.afterForkChoice
  generalize SyncNode.handleNewBlock header n = chosen at hchosen ⊢
  obtain ⟨action, n₁⟩ := chosen
  cases action with
  | error e => exact hchosen
  | ok action =>
    cases action with
    | stay => exact hchosen
    | reorg plan => exact P2pSync.Booked.updatePointers hchosen
    | needMoreData missingHash context => exact (P2pSync.Booked.hydrate hchosen _).drive now

theorem canonicalBatch [Blake3] (hn : n.Booked) (now : Instant) (req : PendingBatchRequest)
    (header : Block) (bytes : List UInt8) (batch : TransactionBatch) :
    (n.applyCanonicalBatch now req header bytes batch).Booked := by
  have hstored := hn.onDb fun db => db.storeBatchBytes req.idx bytes
  unfold applyCanonicalBatch
  dsimp only
  generalize n.onDb (fun db => db.storeBatchBytes req.idx bytes) = n₁ at hstored ⊢
  split
  · exact (hstored.withChain _).retryBatch req
  next s _ =>
    have happlied := hstored.withChain s
    generalize n₁.withChain s = n₂ at happlied ⊢
    split
    · exact happlied.retryBatch req
    next db _ =>
      have hflushed := happlied.onDb fun _ => storeOf (flushBalances n₂.tree.inner db)
      have hnoted := (hflushed.noteBatchForMiner header batch).onDb
        (attemptUpdate (MemPool.removeTransactionsInBatch batch))
      have hkept := hnoted.onDb fun db => storeOf (persistSyncBatchIntoReorgGraph header bytes db)
      generalize SyncNode.onDb (fun db => storeOf (persistSyncBatchIntoReorgGraph header bytes db))
        _ = n₃ at hkept ⊢
      have htip : (n₃.onSync (noteBatchApplied req.idx header)).Booked :=
        P2pSync.Booked.frame hkept rfl le_rfl
      exact ((htip.afterForkChoice now req header).conclude _).onSync
        fun hs => hs.requestNext req.peer

theorem competingBatch [Blake3] (hn : n.Booked) (now : Instant) (req : PendingBatchRequest)
    (header : Block) (bytes : List UInt8) : (n.applyCompetingBatch now req header bytes).Booked := by
  unfold applyCompetingBatch
  split
  next db _ =>
    refine (hn.onDb fun _ => db).onSync fun hs => ?_
    split
    · exact hs.pushBatch _
    · exact hs
  next db _ =>
    have hkept := hn.onDb fun _ => db
    exact (hkept.competingBlock now req.peer header req.retriesLeft).conclude _

theorem refuseBatch (hn : n.Booked) (req : PendingBatchRequest) : (n.refuseBatch req).Booked := by
  unfold SyncNode.refuseBatch
  dsimp only
  split
  · exact P2pSync.Booked.retryBatch (hn.onDb _) req
  · exact hn.retryBatch req

theorem batchData [Blake3] (hn : n.Booked) (now : Instant) (req : PendingBatchRequest)
    (dropped : Option Bool) (bytes : List UInt8) : (n.onBatchData now req dropped bytes).Booked := by
  unfold onBatchData
  split
  · exact hn.retryBatch req
  · split
    next disconnect => exact (hn.lastResortDrop now req.peer disconnect).retryBatch req
    next =>
      split
      · exact hn
      · split
        · exact hn.pause
        next header _ =>
          split
          · exact hn.retryBatch req
          next batch root _ =>
            split
            · exact hn.refuseBatch req
            · split
              · exact hn.canonicalBatch now req header bytes batch
              · exact hn.competingBatch now req header bytes

theorem batchTxResponse [Blake3] (hn : n.Booked) (now : Instant) (req : PendingBatchRequest)
    (dropped : Option Bool) (response : BlockTxResponse) :
    (n.handleBatchTxResponse now req dropped response).Booked := by
  have hpublished : (n.publishRuntimeProposalSafetyToMiner true
      "sync batch response processing in progress").Booked := hn
  unfold SyncNode.handleBatchTxResponse
  dsimp only
  generalize n.publishRuntimeProposalSafetyToMiner true _ = n₁ at hpublished ⊢
  cases response with
  | batchData bytes => exact hpublished.batchData now req dropped bytes
  | notFound =>
    have hretry : (n₁.onSync (retryBatchIfPossible req)).Booked := hpublished.retryBatch req
    exact hretry.conclude _
  | blockData block => exact hpublished.conclude _
  | txData => exact hpublished.conclude _

/-! #### Blocks -/

theorem addAndCommit (hn : n.Booked) (block : Block) : (n.addAndCommit block).2.Booked := by
  unfold SyncNode.addAndCommit
  split
  · exact hn.withChain _
  · split <;> exact hn.withChain _

theorem genesisData [Blake3] (hn : n.Booked) (clock : Int64) (req : PendingBlockRequest)
    (block : Block) (canonicalBytes : List UInt8) :
    (n.onGenesisData clock req block canonicalBytes).Booked := by
  unfold onGenesisData
  split
  next existing _ =>
    split
    · refine hn.onSync fun hs => ?_
      dsimp only
      split
      · have hpointed : Booked { n with sync := { n.sync with
            lastSyncedIndex := some 0, lastSyncedHash := some existing.blockHash } } :=
          P2pSync.Booked.frame hs rfl le_rfl
        exact hpointed.requestNext req.peer
      · exact hs.requestNext req.peer
    · exact hn.pause
  next =>
    split
    · exact hn.pause
    · split
      · exact hn.pause
      · split
        · exact hn.pause
        · have hadded := hn.addAndCommit block
          generalize SyncNode.addAndCommit block n = added at hadded ⊢
          obtain ⟨ok, n₁⟩ := added
          cases ok with
          | false => exact hadded.pause
          | true =>
            have hadopted := hadded.onDb (adoptGenesis clock block canonicalBytes)
            refine hadopted.onSync fun hs => ?_
            have hnoted : (noteGenesis block (n₁.onDb (adoptGenesis clock block
              canonicalBytes)).sync).Booked := hs.frame rfl le_rfl
            exact hnoted.requestNext req.peer

theorem competingBlockData [Blake3] (hn : n.Booked) (now : Instant) (req : PendingBlockRequest)
    (block : Block) (canonicalBytes : List UInt8) :
    (n.onCompetingBlock now req block canonicalBytes).Booked := by
  have hindexed := hn.onDb
    (attemptUpdate fun db => db.indexBlockByHash block.blockHash canonicalBytes)
  unfold onCompetingBlock
  dsimp only
  generalize n.onDb (attemptUpdate fun db => db.indexBlockByHash block.blockHash canonicalBytes) =
    n₁ at hindexed ⊢
  have hqueued : { (n₁.sync.queueBranchHydration req.peer block req.retriesLeft).driveBranchHydrationRequests
      now with syncing := true }.updateSyncState.Booked :=
    ((P2pSync.Booked.queueHydration hindexed req.peer block req.retriesLeft).drive now).catchUp
      |>.updateState
  split
  · exact hqueued
  · split
    · exact hqueued
    · exact hindexed.competingBlock now req.peer block req.retriesLeft

theorem nextBlockData [Blake3] (hn : n.Booked) (req : PendingBlockRequest) (block : Block)
    (canonicalBytes : List UInt8) : (n.onNextBlock req block canonicalBytes).Booked := by
  have hadded := hn.addAndCommit block
  unfold onNextBlock
  generalize SyncNode.addAndCommit block n = added at hadded ⊢
  obtain ⟨ok, n₁⟩ := added
  cases ok with
  | false => exact hadded.pause
  | true =>
    have hstored := (hadded.onDb (attemptUpdate fun db =>
      db.storeLatestBlock canonicalBytes block.metadata.index)).onDb
        (attemptUpdate fun db => db.indexBlockByHash block.blockHash canonicalBytes)
    exact (P2pSync.Booked.issueBatch hstored _).updateState

theorem blockData [Blake3] (hn : n.Booked) (now : Instant) (clock : Int64)
    (req : PendingBlockRequest) (block : Block) (canonicalBytes : List UInt8) :
    (n.onBlockData now clock req block canonicalBytes).Booked := by
  unfold onBlockData
  split
  · exact hn.genesisData clock req block canonicalBytes
  · split
    · exact hn
    · split
      · exact hn.pause
      · have hgraph := hn.onDb (attemptUpdate (persistSyncBlockIntoReorgGraph clock block))
        dsimp only
        generalize n.onDb (attemptUpdate (persistSyncBlockIntoReorgGraph clock block)) =
          n₁ at hgraph ⊢
        split
        · exact hgraph.pause
        · split
          · exact hgraph.nextBlockData req block canonicalBytes
          · exact hgraph.competingBlockData now req block canonicalBytes

theorem blockTxResponse [Blake3] (hn : n.Booked) (now : Instant) (clock : Int64)
    (req : PendingBlockRequest) (dropped : Option Bool) (response : BlockTxResponse) :
    (n.handleBlockTxResponse now clock req dropped response).Booked := by
  have hpublished : ((n.onSync updateSyncPointers).publishRuntimeProposalSafetyToMiner true
      "sync block response processing in progress").Booked := P2pSync.Booked.updatePointers hn
  unfold SyncNode.handleBlockTxResponse
  dsimp only
  generalize (n.onSync updateSyncPointers).publishRuntimeProposalSafetyToMiner true _ =
    n₁ at hpublished ⊢
  have hretry : (n₁.onSync (retryBlockIfPossible req)).Booked := hpublished.retryBlock req
  cases response with
  | notFound => exact hpublished.blockNotFound req
  | batchData bytes => exact hretry.conclude _
  | txData => exact hretry.conclude _
  | blockData block =>
    dsimp only
    split
    · exact hretry
    · split
      · exact hretry
      next canonicalBytes _ =>
        split
        · exact hretry
        · split
          next disconnect => exact (hpublished.lastResortDrop now req.peer disconnect).retryBlock req
          next => exact hpublished.blockData now clock req block canonicalBytes

theorem hydratedBlock [Blake3] (hn : n.Booked) (now : Instant) (clock : Int64)
    (request : RequestId) (block : Block) : (n.onHydratedBlock now clock request block).Booked := by
  unfold onHydratedBlock
  generalize n.sync.branchHydration.onBlockReceived request block _ _ = received
  obtain ⟨result, h⟩ := received
  have hkept : Booked { n with sync := { n.sync with branchHydration := h } } :=
    P2pSync.Booked.hydrate hn h
  cases result with
  | error e => exact hkept
  | ok result =>
    obtain ⟨advance, store⟩ := result
    have hstored : Booked { n with
        sync := { n.sync with branchHydration := h, db := store.getD n.sync.db } } :=
      P2pSync.Booked.withDb hkept _
    cases advance with
    | ignored => exact hkept
    | acceptedComplete hash => exact hstored.drive now
    | acceptedNeedsParent hash missingParent => exact hstored.drive now
    | acceptedUnblockedChildren hash children => exact hstored.drive now

/-! #### Any event -/

theorem blocktxResponse [Blake3] (hn : n.Booked) (now : Instant) (clock : Int64)
    (request : RequestId) (peer : PeerId) (dropped : Option Bool) (response : BlockTxResponse) :
    (n.onBlocktxResponse now clock request peer dropped response).1.Booked := by
  unfold SyncNode.onBlocktxResponse
  split
  next req _ =>
    have hanswered : (n.onSync fun s =>
        { s with pendingBlocks := s.pendingBlocks.erase request }).Booked :=
      P2pSync.Booked.answerBlock hn request
    dsimp only
    split
    · refine hanswered.onSync fun hs => ?_
      have hrejected := hs.rejectPeer now peer
      split
      · exact hrejected
      · exact hrejected.retryBlock req
    · exact hanswered.blockTxResponse now clock req dropped response
  next =>
    split
    next req _ =>
      have hanswered : (n.onSync fun s =>
          { s with pendingBatches := s.pendingBatches.erase request }).Booked :=
        P2pSync.Booked.answerBatch hn request
      dsimp only
      split
      · refine hanswered.onSync fun hs => ?_
        have hrejected := hs.rejectPeer now peer
        split
        · exact hrejected.pushBatch _
        · exact hrejected
      · exact hanswered.batchTxResponse now req dropped response
    next =>
      split
      · exact hn.hydratedBlock now clock request _
      · exact hn.hydrationFailure now request
      · exact hn

theorem handleEvent_network [Blake3] (now : Instant) (clock : Int64) {event : SwarmEvent}
    {refused : Option Bool} {s : P2pSync} {handled : Bool}
    (hother : ∀ request peer response, event ≠ .blocktxResponse request peer response)
    (h : n.sync.handleSwarmEvent now event = some (s, handled)) :
    n.handleEvent now clock (.swarm event refused) = ({ n with sync := s }, handled) := by
  unfold SyncNode.handleEvent
  split
  next heq =>
    cases heq
    exact absurd rfl (hother _ _ _)
  next heq =>
    cases heq
    rw [h]
  next heq => cases heq

theorem handleEvent [Blake3] (hn : n.Booked) (now : Instant) (clock : Int64) (event : SyncEvent) :
    (n.handleEvent now clock event).1.Booked := by
  cases event with
  | gossipBlock peer block => exact hn.gossipBlock peer block
  | swarm event refused =>
    by_cases hevent : ∃ request peer response, event = .blocktxResponse request peer response
    · obtain ⟨request, peer, response, rfl⟩ := hevent
      exact hn.blocktxResponse now clock request peer refused response
    · have hother : ∀ request peer response, event ≠ .blocktxResponse request peer response :=
        fun request peer response h => hevent ⟨request, peer, response, h⟩
      obtain ⟨s, handled, hs, hbooked⟩ := P2pSync.Booked.networkEvent hn now event hother
      rw [handleEvent_network now clock hother hs]
      exact hbooked

theorem noteApplied [Blake3] (hn : n.Booked) : n.noteApplied.Booked := by
  unfold SyncNode.noteApplied
  split
  · exact (hn.withChain _).onDb _
  · exact hn

theorem finish [Blake3] (hn : n.Booked) (now : Instant) (timedOut : List PeerId) :
    (n.finish now timedOut).Booked :=
  noteApplied ((((P2pSync.Booked.dropAll hn now timedOut).drain.reissue).drive now).updateState)

theorem onEvent [Blake3] (hn : n.Booked) (now : Instant) (clock : Int64) (timedOut : List PeerId)
    (event : SyncEvent) : (n.onEvent now clock timedOut event).Booked := by
  have hhandled := hn.handleEvent now clock event
  unfold SyncNode.onEvent
  generalize n.handleEvent now clock event = handled at hhandled ⊢
  obtain ⟨n₁, ok⟩ := handled
  split
  next heq =>
    cases heq
    exact hhandled.finish now timedOut
  next heq =>
    cases heq
    exact hhandled

end Booked

/-! ### Runs -/

/-- What happens to a node that syncs: an event, a tip of its own, a poll for heights, and changes
to what it shares with the network and with the rest of the node. -/
inductive NodeStep where
  | event (now : Instant) (clock : Int64) (timedOut : List PeerId) (event : SyncEvent)
  | localTipAdvanced
  | poll
  | network (connected gossipPeers : List PeerId)
  | elsewhere (db : RockDB) (tree : AccountModelTree) (miner : Option Miner)

def next [Blake3] (n : SyncNode) : NodeStep → SyncNode
  | .event now clock timedOut event => n.onEvent now clock timedOut event
  | .localTipAdvanced => n.onSync onLocalTipAdvanced
  | .poll => n.onSync pollPeersForHeight
  | .network connected gossipPeers => n.onSync fun s =>
    { s with swarm := { s.swarm with connected := connected, gossipPeers := gossipPeers } }
  | .elsewhere db tree miner =>
    { n with sync := { n.sync with db := db }, tree := tree, miner := miner }

def start (db : RockDB) (expectedGenesisHash : Option String) (swarm : Swarm)
    (tree : AccountModelTree) (fork : ReForkConfig) (miner : Option Miner) : SyncNode :=
  ⟨.new db expectedGenesisHash swarm, tree, fork, miner⟩

theorem Booked.next [Blake3] {n : SyncNode} (hn : n.Booked) (step : NodeStep) :
    (n.next step).Booked := by
  cases step with
  | event now clock timedOut event => exact hn.onEvent now clock timedOut event
  | localTipAdvanced => exact hn.onTipAdvanced
  | poll => exact hn.pollPeers
  | network connected gossipPeers => exact P2pSync.Booked.frame hn rfl le_rfl
  | elsewhere db tree miner => exact hn.withDb db

theorem booked_start (db : RockDB) (expectedGenesisHash : Option String) (swarm : Swarm)
    (tree : AccountModelTree) (fork : ReForkConfig) (miner : Option Miner) :
    (start db expectedGenesisHash swarm tree fork miner).Booked := by
  have hempty : P2pSync.Booked
      { db, swarm, expectedGenesisHash
        syncing := false
        hasSynced := false
        totalToDownload := db.getTipHeight
        downloaded := db.getTipHeight
        pendingVersions := ∅
        pendingPq := ∅
        pqInitiators := []
        pqReadyPeers := []
        pendingBlocks := ∅
        pendingBatches := ∅
        blockQueue := []
        batchQueue := []
        reservedBlockIndices := []
        reservedBatchIndices := []
        triedGenesis := false
        lastSyncedHash := none
        lastSyncedIndex := none
        syncTarget := db.getTipHeight
        queuedSyncTarget := none
        admittedPeers := []
        branchHydration := .defaultMainnet } :=
    ⟨.empty, .empty, fun r => Or.inl (by simp), rfl, rfl⟩
  exact hempty.updatePointers.updateState

theorem booked_run [Blake3] {n : SyncNode} (hn : n.Booked) (steps : List NodeStep) :
    (steps.foldl SyncNode.next n).Booked := by
  induction steps generalizing n with
  | nil => exact hn
  | cons step rest ih => exact ih (hn.next step)

end SyncNode

namespace P2pSync

/-- How often a block of this height is asked for: requests that are out, and queued ones. -/
def blockRequests (idx : UInt64) (s : P2pSync) : ℕ :=
  (s.pendingBlocks.toList.countP fun e => decide (e.2.idx = idx)) +
    s.blockQueue.countP fun req => decide (req.idx = idx)

def batchRequests (idx : UInt64) (s : P2pSync) : ℕ :=
  (s.pendingBatches.toList.countP fun e => decide (e.2.idx = idx)) +
    s.batchQueue.countP fun req => decide (req.idx = idx)

end P2pSync

/-- Over every run no height is asked for twice at a time, no number stands for two requests or for
one to come, no reservation is left behind, and the bounds hold. -/
theorem requests_kept_apart [Blake3] (db : RockDB) (expectedGenesisHash : Option String)
    (swarm : Swarm) (tree : AccountModelTree) (fork : ReForkConfig) (miner : Option Miner)
    (steps : List SyncNode.NodeStep) :
    let s := (steps.foldl SyncNode.next
      (SyncNode.start db expectedGenesisHash swarm tree fork miner)).sync
    (∀ idx, s.blockRequests idx ≤ 1 ∧ s.batchRequests idx ≤ 1) ∧
    (∀ r : RequestId, s.pendingBlocks[r]? = none ∨ s.pendingBatches[r]? = none) ∧
    (∀ r : RequestId, s.swarm.nextBlocktxId ≤ r →
      s.pendingBlocks[r]? = none ∧ s.pendingBatches[r]? = none) ∧
    s.reservedBlockIndices = [] ∧ s.reservedBatchIndices = [] ∧
    s.pendingBlocks.size ≤ P2pSync.maxPendingBlocks ∧
    s.pendingBatches.size ≤ P2pSync.maxPendingBatches ∧
    s.blockQueue.length ≤ P2pSync.maxBlockQueue ∧
    s.batchQueue.length ≤ P2pSync.maxBatchQueue := by
  intro s
  have hbooked : s.Booked := SyncNode.booked_run
    (SyncNode.booked_start db expectedGenesisHash swarm tree fork miner) steps
  refine ⟨fun idx => ⟨hbooked.blocks.count_le idx, hbooked.batches.count_le idx⟩,
    hbooked.separate, ?_, hbooked.blockReserved, hbooked.batchReserved, hbooked.blocks.pending_le,
    hbooked.batches.pending_le, hbooked.blocks.queue_le, hbooked.batches.queue_le⟩
  intro r hr
  exact ⟨hbooked.blocks.unused hr, hbooked.batches.unused hr⟩

end Remzar
