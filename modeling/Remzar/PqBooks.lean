import Mathlib
import Remzar.SyncEvents

/-! The books of the post-quantum handshake: the requests that are out, the key pairs kept for their
answers and the peers a key is agreed with. Most of the runtime leaves them alone. -/
namespace Remzar
open Std Checked
namespace P2pSync
variable {s s' s₁ s₂ : P2pSync} {peer : PeerId}

/-! ### Work that is not about the handshake -/

theorem cleared_cleared (peers : List PeerId) : cleared (cleared peers) = cleared peers := by
  unfold cleared
  split
  · rfl
  · rfl

/-- The books are as they were, but too long a table of ready peers may have been cleared. -/
structure SamePq (s s' : P2pSync) : Prop where
  pending : s'.pendingPq = s.pendingPq
  initiators : s'.pqInitiators = s.pqInitiators
  nextId : s'.swarm.nextPqId = s.swarm.nextPqId
  ready : s'.pqReadyPeers = s.pqReadyPeers ∨ s'.pqReadyPeers = cleared s.pqReadyPeers

namespace SamePq

theorem refl (s : P2pSync) : SamePq s s := ⟨rfl, rfl, rfl, .inl rfl⟩

theorem trans (h : SamePq s s₁) (h' : SamePq s₁ s₂) : SamePq s s₂ := by
  refine ⟨h'.pending.trans h.pending, h'.initiators.trans h.initiators, h'.nextId.trans h.nextId, ?_⟩
  rcases h'.ready with h₂ | h₂
  · rw [h₂]
    exact h.ready
  · rcases h.ready with h₁ | h₁
    · exact .inr (h₂.trans (congrArg cleared h₁))
    · rw [h₂, h₁, cleared_cleared]
      exact .inr rfl

theorem foldl {α : Type} {f : P2pSync → α → P2pSync} (hf : ∀ s a, SamePq s (f s a)) (as : List α)
    (s : P2pSync) : SamePq s (as.foldl f s) := by
  induction as generalizing s with
  | nil => exact refl s
  | cons a as ih => exact (hf s a).trans (ih _)

end SamePq

theorem maintenanceHousekeeping_same (s : P2pSync) : SamePq s s.maintenanceHousekeeping :=
  ⟨rfl, rfl, rfl, .inr rfl⟩

theorem updateSyncState_same (s : P2pSync) : SamePq s s.updateSyncState :=
  ⟨rfl, rfl, rfl, .inr rfl⟩

theorem updateSyncPointers_same (s : P2pSync) : SamePq s s.updateSyncPointers := by
  unfold updateSyncPointers
  split
  · exact ⟨rfl, rfl, rfl, .inl rfl⟩
  · exact ⟨rfl, rfl, rfl, .inl rfl⟩

theorem deferSyncUntilPq_same (target : UInt64) (s : P2pSync) :
    SamePq s (s.deferSyncUntilPq target) := by
  unfold deferSyncUntilPq
  dsimp only
  generalize max (max (max target s.localTip) s.syncTarget) (s.queuedSyncTarget.getD 0) = target'
  have hqueued : SamePq s ((s.aim target').queueTarget target') := ⟨rfl, rfl, rfl, .inl rfl⟩
  exact hqueued.trans (updateSyncState_same _)

theorem reserveBlockIdxForRequest_same (idx : UInt64) (s : P2pSync) :
    SamePq s (s.reserveBlockIdxForRequest idx).2 := by
  unfold reserveBlockIdxForRequest
  split
  · exact ⟨rfl, rfl, rfl, .inl rfl⟩
  · exact .refl s

theorem reserveBatchIdxForRequest_same (idx : UInt64) (s : P2pSync) :
    SamePq s (s.reserveBatchIdxForRequest idx).2 := by
  unfold reserveBatchIdxForRequest
  split
  · exact ⟨rfl, rfl, rfl, .inl rfl⟩
  · exact .refl s

theorem issueBlockRequestIfAbsent_same (req : PendingBlockRequest) (s : P2pSync) :
    SamePq s (s.issueBlockRequestIfAbsent req).2 := by
  have hreserve := reserveBlockIdxForRequest_same req.idx s
  unfold issueBlockRequestIfAbsent
  generalize s.reserveBlockIdxForRequest req.idx = result at hreserve ⊢
  dsimp only
  split
  · exact hreserve.trans ⟨rfl, rfl, rfl, .inl rfl⟩
  · exact hreserve

theorem issueBatchRequest_same (req : PendingBatchRequest) (s : P2pSync) :
    SamePq s (s.issueBatchRequest req).2 := by
  have hreserve := reserveBatchIdxForRequest_same req.idx s
  unfold issueBatchRequest
  generalize s.reserveBatchIdxForRequest req.idx = result at hreserve ⊢
  dsimp only
  split
  · exact hreserve.trans ⟨rfl, rfl, rfl, .inl rfl⟩
  · exact hreserve

theorem pushBlockRetry_same (req : PendingBlockRequest) (s : P2pSync) :
    SamePq s (s.pushBlockRetry req) := by
  unfold pushBlockRetry
  split
  · exact .refl s
  · split
    · exact .refl s
    · split
      · exact .refl s
      · exact ⟨rfl, rfl, rfl, .inl rfl⟩

theorem pushBatchRetry_same (req : PendingBlockRequest) (s : P2pSync) :
    SamePq s (s.pushBatchRetry req) := by
  unfold pushBatchRetry
  split
  · exact .refl s
  · split
    · exact .refl s
    · split
      · exact .refl s
      · exact ⟨rfl, rfl, rfl, .inl rfl⟩

theorem retryBlockIfPossible_same (req : PendingBlockRequest) (s : P2pSync) :
    SamePq s (s.retryBlockIfPossible req) := by
  unfold retryBlockIfPossible
  split
  · exact pushBlockRetry_same _ s
  · exact .refl s

theorem canStartBlockSyncWithPeer_same (peer : PeerId) (target : UInt64) (s : P2pSync) :
    SamePq s (s.canStartBlockSyncWithPeer peer target).2 := by
  unfold canStartBlockSyncWithPeer
  split
  · exact .refl s
  · exact deferSyncUntilPq_same target s

theorem requestIndexFromPeer_same (peer : PeerId) (idx : UInt64) (s : P2pSync) :
    SamePq s (s.requestIndexFromPeer peer idx) := by
  unfold requestIndexFromPeer
  split
  · exact deferSyncUntilPq_same _ s
  · split
    · exact issueBatchRequest_same _ s
    · exact issueBlockRequestIfAbsent_same _ s

theorem requestNextBlock_same (peer : PeerId) (s : P2pSync) :
    SamePq s (s.requestNextBlock peer) := by
  unfold requestNextBlock
  dsimp only
  split
  · have hcan := canStartBlockSyncWithPeer_same peer s.effectiveSyncTarget
      (s.aim s.effectiveSyncTarget)
    generalize canStartBlockSyncWithPeer peer s.effectiveSyncTarget (s.aim s.effectiveSyncTarget) =
      result at hcan ⊢
    have haimed : SamePq s result.2 := ⟨hcan.pending, hcan.initiators, hcan.nextId, hcan.ready⟩
    split
    · exact (haimed.trans (requestIndexFromPeer_same _ _ _)).trans (updateSyncState_same _)
    · exact haimed.trans (updateSyncState_same _)
  · have hdone : SamePq s { s.aim s.effectiveSyncTarget with queuedSyncTarget := none } :=
      ⟨rfl, rfl, rfl, .inl rfl⟩
    exact hdone.trans (updateSyncState_same _)

theorem beginSyncToTarget_same (peer : PeerId) (peerTip : UInt64) (s : P2pSync) :
    SamePq s (s.beginSyncToTarget peer peerTip) := by
  unfold beginSyncToTarget
  dsimp only
  generalize max (max (max s.syncTarget (s.queuedSyncTarget.getD 0)) s.localTip) peerTip = target
  split
  · have hdone : SamePq s { s.aim target with queuedSyncTarget := none } := ⟨rfl, rfl, rfl, .inl rfl⟩
    exact hdone.trans (updateSyncState_same _)
  · have hcan := canStartBlockSyncWithPeer_same peer target (s.aim target)
    cases hready : canStartBlockSyncWithPeer peer target (s.aim target) with
    | mk ready s₁ =>
      rw [hready] at hcan
      have haimed : SamePq s s₁ := ⟨hcan.pending, hcan.initiators, hcan.nextId, hcan.ready⟩
      have hstart : SamePq s₁ { s₁ with
          queuedSyncTarget := none
          downloaded := s₁.localTip
          totalToDownload := s₁.syncTarget } := ⟨rfl, rfl, rfl, .inl rfl⟩
      dsimp only
      split
      · split
        · exact (haimed.trans hstart).trans (updateSyncState_same _)
        · exact ((haimed.trans hstart).trans (requestIndexFromPeer_same _ _ _)).trans
            (updateSyncState_same _)
      · exact haimed.trans (updateSyncState_same _)

theorem requeueBlock_same (allowSamePeer : Bool) (s : P2pSync)
    (entry : RequestId × PendingBlockRequest) : SamePq s (requeueBlock allowSamePeer s entry) := by
  have herased : SamePq s { s with pendingBlocks := s.pendingBlocks.erase entry.1 } :=
    ⟨rfl, rfl, rfl, .inl rfl⟩
  unfold requeueBlock
  dsimp only
  split
  · split
    · exact herased.trans (pushBlockRetry_same _ _)
    · exact herased
  · exact herased

theorem requeueBatch_same (allowSamePeer : Bool) (s : P2pSync)
    (entry : RequestId × PendingBatchRequest) : SamePq s (requeueBatch allowSamePeer s entry) := by
  have herased : SamePq s { s with pendingBatches := s.pendingBatches.erase entry.1 } :=
    ⟨rfl, rfl, rfl, .inl rfl⟩
  unfold requeueBatch
  dsimp only
  split
  · split
    · exact herased.trans (pushBatchRetry_same _ _)
    · exact herased
  · exact herased

theorem cleanupPendingForPeer_same (now : Instant) (peer : PeerId) (allowSamePeer : Bool)
    (s : P2pSync) : SamePq s (s.cleanupPendingForPeer now peer allowSamePeer) := by
  unfold cleanupPendingForPeer
  dsimp only
  have hversions : SamePq s { s with
      pendingVersions := s.pendingVersions.filter fun _ p => decide (p ≠ peer) } :=
    ⟨rfl, rfl, rfl, .inl rfl⟩
  have hblocks := SamePq.foldl (requeueBlock_same allowSamePeer)
    (s.pendingBlocks.toList.filter fun e => decide (e.2.peer = peer))
    { s with pendingVersions := s.pendingVersions.filter fun _ p => decide (p ≠ peer) }
  refine (hversions.trans hblocks).trans ?_
  generalize List.foldl (requeueBlock allowSamePeer) _ _ = s₁
  have hbatches := SamePq.foldl (requeueBatch_same allowSamePeer)
    (s₁.pendingBatches.toList.filter fun e => decide (e.2.peer = peer)) s₁
  exact hbatches.trans ⟨rfl, rfl, rfl, .inl rfl⟩

theorem driveBranchHydrationRequests_same (now : Instant) (s : P2pSync) :
    SamePq s (s.driveBranchHydrationRequests now) := ⟨rfl, rfl, rfl, .inl rfl⟩

theorem onHydrationFailure_same (now : Instant) (request : RequestId) (s : P2pSync) :
    SamePq s (s.onHydrationFailure now request) := by
  unfold onHydrationFailure
  rcases s.branchHydration.onRequestFailed now request with ⟨failure, h⟩
  cases failure with
  | retryScheduled hash left => exact ⟨rfl, rfl, rfl, .inl rfl⟩
  | exhausted hash => exact ⟨rfl, rfl, rfl, .inl rfl⟩
  | unknownRequest => exact ⟨rfl, rfl, rfl, .inl rfl⟩

theorem preserveSyncTargetForPqRetry_same (s : P2pSync) :
    SamePq s s.preserveSyncTargetForPqRetry := by
  unfold preserveSyncTargetForPqRetry
  dsimp only
  split
  · have hraised : SamePq s { s with
        queuedSyncTarget := some (max s.syncTarget (s.queuedSyncTarget.getD 0))
        downloaded := s.localTip
        totalToDownload := max s.syncTarget (s.queuedSyncTarget.getD 0)
        syncing := true
        hasSynced := false } := ⟨rfl, rfl, rfl, .inl rfl⟩
    exact hraised.trans (updateSyncState_same _)
  · exact .refl s

theorem resumeQueuedSyncAfterPqReady_same (peer : PeerId) (s : P2pSync) :
    SamePq s (s.resumeQueuedSyncAfterPqReady peer) := by
  unfold resumeQueuedSyncAfterPqReady
  split
  · exact updateSyncState_same s
  · have htaken : SamePq s { s with queuedSyncTarget := none } := ⟨rfl, rfl, rfl, .inl rfl⟩
    dsimp only
    split
    · exact htaken.trans (updateSyncState_same _)
    · exact htaken.trans (beginSyncToTarget_same _ _ _)

theorem pollVersions_same (peers : List PeerId) (s : P2pSync) : SamePq s (pollVersions peers s) := by
  induction peers generalizing s with
  | nil => exact .refl s
  | cons peer rest ih =>
    unfold pollVersions
    split
    · exact .refl s
    · have hsent : SamePq s { s with
          swarm := { s.swarm with nextVersionId := s.swarm.nextVersionId+1 }
          pendingVersions := s.pendingVersions.insert s.swarm.nextVersionId peer } :=
        ⟨rfl, rfl, rfl, .inl rfl⟩
      exact hsent.trans (ih _)

theorem pollPeersForHeight_same (s : P2pSync) : SamePq s s.pollPeersForHeight := by
  have hpointers := updateSyncPointers_same s
  unfold pollPeersForHeight
  dsimp only
  split
  · have hagain := hpointers.trans (updateSyncPointers_same _)
    generalize s.updateSyncPointers.updateSyncPointers = s₁ at hagain ⊢
    have hqueued : SamePq s₁ ((s₁.aim s₁.effectiveSyncTarget).queueTarget s₁.effectiveSyncTarget) :=
      ⟨rfl, rfl, rfl, .inl rfl⟩
    exact (hagain.trans hqueued).trans (updateSyncState_same _)
  · exact (hpointers.trans (pollVersions_same _ _)).trans (updateSyncState_same _)

theorem onReportedHeight_same (origin : PeerId) (height : UInt64) (s : P2pSync) :
    SamePq s (s.onReportedHeight origin height) := by
  unfold onReportedHeight
  split
  · dsimp only
    have haimed : SamePq s { s with
        syncTarget := height
        totalToDownload := height
        downloaded := 0
        syncing := true
        hasSynced := false } := ⟨rfl, rfl, rfl, .inl rfl⟩
    have hissued := haimed.trans (issueBlockRequestIfAbsent_same ⟨origin, 0, maxRetries⟩ _)
    generalize (issueBlockRequestIfAbsent ⟨origin, 0, maxRetries⟩ _).2 = s₁ at hissued ⊢
    have htried : SamePq s₁ { s₁ with triedGenesis := true } := ⟨rfl, rfl, rfl, .inl rfl⟩
    exact (hissued.trans htried).trans (updateSyncState_same _)
  · have hpointers := updateSyncPointers_same s
    dsimp only
    split
    · exact hpointers.trans (beginSyncToTarget_same _ _ _)
    · exact hpointers.trans (updateSyncState_same _)

theorem onBlockNotFound_same (req : PendingBlockRequest) (s : P2pSync) :
    SamePq s (s.onBlockNotFound req) := by
  have hkept : SamePq s (s.preserveMissingBlockSyncTarget req.idx) := by
    unfold preserveMissingBlockSyncTarget
    dsimp only
    split
    · exact ⟨rfl, rfl, rfl, .inl rfl⟩
    · exact ⟨rfl, rfl, rfl, .inl rfl⟩
  unfold onBlockNotFound
  dsimp only
  generalize s.preserveMissingBlockSyncTarget req.idx = s₁ at hkept ⊢
  split
  · exact hkept.trans (requestNextBlock_same _ _)
  · split
    · split
      · exact (hkept.trans (pushBlockRetry_same _ _)).trans (updateSyncState_same _)
      · split
        · exact (hkept.trans (pushBlockRetry_same _ _)).trans (updateSyncState_same _)
        · exact hkept.trans (updateSyncState_same _)
    · have hraised : SamePq s₁ { s₁ with
          syncing := true
          hasSynced := false
          queuedSyncTarget := some (max (max (max s₁.syncTarget (s₁.queuedSyncTarget.getD 0))
            req.idx) s₁.localTip) } := ⟨rfl, rfl, rfl, .inl rfl⟩
      exact (hkept.trans hraised).trans (updateSyncState_same _)

theorem handleBlockTxResponse_same [Blake3] {req : PendingBlockRequest} {response : BlockTxResponse}
    (h : s.handleBlockTxResponse req response = some s') : SamePq s s' := by
  have hpointers := updateSyncPointers_same s
  unfold handleBlockTxResponse at h
  dsimp only at h
  split at h
  · split at h
    · obtain rfl := Option.some_inj.mp h
      exact hpointers.trans (retryBlockIfPossible_same _ _)
    · split at h
      · obtain rfl := Option.some_inj.mp h
        exact hpointers.trans (retryBlockIfPossible_same _ _)
      · cases h
  · obtain rfl := Option.some_inj.mp h
    exact hpointers.trans (onBlockNotFound_same _ _)
  · obtain rfl := Option.some_inj.mp h
    exact (hpointers.trans (retryBlockIfPossible_same _ _)).trans (updateSyncState_same _)

theorem handleBatchTxResponse_same {req : PendingBatchRequest} {response : BlockTxResponse}
    (h : s.handleBatchTxResponse req response = some s') : SamePq s s' := by
  unfold handleBatchTxResponse at h
  split at h
  · cases h
  · split at h
    · obtain rfl := Option.some_inj.mp h
      exact (pushBatchRetry_same _ s).trans (updateSyncState_same _)
    · obtain rfl := Option.some_inj.mp h
      exact updateSyncState_same s
  · obtain rfl := Option.some_inj.mp h
    exact updateSyncState_same s

theorem onBlocktxFailure_same (now : Instant) (request : RequestId) (peer : PeerId) (s : P2pSync) :
    SamePq s (s.onBlocktxFailure now request peer) := by
  unfold onBlocktxFailure
  dsimp only
  split
  · have herased : SamePq s { s with pendingBlocks := s.pendingBlocks.erase request } :=
      ⟨rfl, rfl, rfl, .inl rfl⟩
    split
    · split
      · exact herased.trans (pushBlockRetry_same _ _)
      · exact herased
    · exact herased
  · split
    · have herased : SamePq s { s with pendingBatches := s.pendingBatches.erase request } :=
        ⟨rfl, rfl, rfl, .inl rfl⟩
      split
      · split
        · exact herased.trans (pushBatchRetry_same _ _)
        · exact herased
      · exact herased
    · exact onHydrationFailure_same now request s

theorem drainBlockQueue_same (queue : List PendingBlockRequest) (s : P2pSync) :
    SamePq s (s.drainBlockQueue queue) := by
  induction queue generalizing s with
  | nil => exact ⟨rfl, rfl, rfl, .inl rfl⟩
  | cons req rest ih =>
    have hpop : SamePq s { s with blockQueue := rest } := ⟨rfl, rfl, rfl, .inl rfl⟩
    unfold drainBlockQueue
    dsimp only
    refine hpop.trans ?_
    split
    · split
      · have hissue := issueBatchRequest_same ⟨req.peer, req.idx, maxRetries, none⟩
          { s with blockQueue := rest }
        unfold issueBatchRequestIfAbsent
        generalize issueBatchRequest ⟨req.peer, req.idx, maxRetries, none⟩
          { s with blockQueue := rest } = result at hissue ⊢
        split
        · exact hissue
        · exact hissue.trans (ih _)
      · exact ih _
    · have hissue := issueBlockRequestIfAbsent_same req { s with blockQueue := rest }
      generalize issueBlockRequestIfAbsent req { s with blockQueue := rest } = result at hissue ⊢
      split
      · exact hissue
      · exact hissue.trans (ih _)

theorem drainBatchQueue_same (queue : List PendingBlockRequest) (s : P2pSync) :
    SamePq s (s.drainBatchQueue queue) := by
  induction queue generalizing s with
  | nil => exact ⟨rfl, rfl, rfl, .inl rfl⟩
  | cons req rest ih =>
    have hpop : SamePq s { s with batchQueue := rest } := ⟨rfl, rfl, rfl, .inl rfl⟩
    unfold drainBatchQueue
    dsimp only
    refine hpop.trans ?_
    split
    · exact ih _
    · have hissue := issueBatchRequest_same ⟨req.peer, req.idx, req.retriesLeft, none⟩
        { s with batchQueue := rest }
      unfold issueBatchRequestIfAbsent
      generalize issueBatchRequest ⟨req.peer, req.idx, req.retriesLeft, none⟩
        { s with batchQueue := rest } = result at hissue ⊢
      split
      · exact hissue
      · exact hissue.trans (ih _)

theorem drainQueues_same (s : P2pSync) : SamePq s s.drainQueues := by
  unfold drainQueues
  dsimp only
  have hblocks : SamePq s (if s.syncing && s.pendingBlocks.isEmpty then
      s.drainBlockQueue s.blockQueue else s) := by
    split
    · exact drainBlockQueue_same _ s
    · exact .refl s
  refine hblocks.trans ?_
  generalize (if s.syncing && s.pendingBlocks.isEmpty then
    s.drainBlockQueue s.blockQueue else s) = s₁
  split
  · exact drainBatchQueue_same _ s₁
  · exact .refl s₁

theorem reissueIdleSyncWorkIfNeeded_same (s : P2pSync) :
    SamePq s s.reissueIdleSyncWorkIfNeeded := by
  unfold reissueIdleSyncWorkIfNeeded
  dsimp only
  split
  · exact .refl s
  · split
    · have haimed : SamePq s { s.aim s.effectiveSyncTarget with
          queuedSyncTarget := some s.effectiveSyncTarget
          syncing := true
          hasSynced := false } := ⟨rfl, rfl, rfl, .inl rfl⟩
      split
      · exact haimed.trans (updateSyncState_same _)
      · exact haimed.trans (requestNextBlock_same _ _)
    · exact .refl s

theorem noteApplied_same (s : P2pSync) : SamePq s s.noteApplied := by
  unfold noteApplied
  split
  · exact ⟨rfl, rfl, rfl, .inl rfl⟩
  · exact .refl s

end P2pSync
end Remzar
