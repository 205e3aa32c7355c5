import Mathlib
import Remzar.ConnGuard
import Remzar.SyncTarget

/-! What connected peers keep while connections open and close: their admission, their key
exchange, the requests out to them and the wallet they announced. -/
namespace Remzar
open Std Fallible Checked
namespace P2pSync

/-! ### What the runtime holds for a peer -/

/-- The network has numbered every request that is out. -/
structure Numbered (s : P2pSync) : Prop where
  blocks : ∀ id req, s.pendingBlocks[id]? = some req → id < s.swarm.nextBlocktxId
  batches : ∀ id req, s.pendingBatches[id]? = some req → id < s.swarm.nextBlocktxId
  versions : ∀ id peer, s.pendingVersions[id]? = some peer → id < s.swarm.nextVersionId

/-- The peers in `P` still have in `s` what they had in `s₀`. -/
structure Spares (P : Set PeerId) (s₀ s : P2pSync) : Prop where
  numbered : s.Numbered
  tables : P.Nonempty → s.admittedPeers.length ≤ maxRuntimePeerSideTables ∧
    s.pqReadyPeers.length ≤ maxRuntimePeerSideTables
  admitted : ∀ p ∈ P, p ∈ s₀.admittedPeers → p ∈ s.admittedPeers
  pqReady : ∀ p ∈ P, p ∈ s₀.pqReadyPeers → p ∈ s.pqReadyPeers
  versions : ∀ (id : RequestId), ∀ p ∈ P, s₀.pendingVersions[id]? = some p →
    s.pendingVersions[id]? = some p
  blocks : ∀ (id : RequestId) req, req.peer ∈ P → s₀.pendingBlocks[id]? = some req →
    s.pendingBlocks[id]? = some req
  batches : ∀ (id : RequestId) req, req.peer ∈ P → s₀.pendingBatches[id]? = some req →
    s.pendingBatches[id]? = some req

variable {P : Set PeerId} {s₀ s s' : P2pSync}

theorem Spares.refl (hnum : s.Numbered)
    (htables : P.Nonempty → s.admittedPeers.length ≤ maxRuntimePeerSideTables ∧
      s.pqReadyPeers.length ≤ maxRuntimePeerSideTables) : Spares P s s :=
  ⟨hnum, htables, fun _ _ h => h, fun _ _ h => h, fun _ _ _ h => h, fun _ _ _ h => h,
    fun _ _ _ h => h⟩

/-- Steps that touch no table of a peer spare everyone. -/
theorem Spares.same (h : Spares P s₀ s) (hadmitted : s'.admittedPeers = s.admittedPeers)
    (hpq : s'.pqReadyPeers = s.pqReadyPeers) (hversions : s'.pendingVersions = s.pendingVersions)
    (hblocks : s'.pendingBlocks = s.pendingBlocks)
    (hbatches : s'.pendingBatches = s.pendingBatches)
    (hblocktx : s.swarm.nextBlocktxId ≤ s'.swarm.nextBlocktxId)
    (hversion : s.swarm.nextVersionId ≤ s'.swarm.nextVersionId) : Spares P s₀ s' := by
  obtain ⟨⟨hnb, hna, hnv⟩, htables, ha, hp, hv, hb, hbt⟩ := h
  refine ⟨⟨?_, ?_, ?_⟩, ?_, ?_, ?_, ?_, ?_, ?_⟩
  · intro id req hreq
    exact (hnb id req (hblocks ▸ hreq)).trans_le hblocktx
  · intro id req hreq
    exact (hna id req (hbatches ▸ hreq)).trans_le hblocktx
  · intro id peer hpeer
    exact (hnv id peer (hversions ▸ hpeer)).trans_le hversion
  · rw [hadmitted, hpq]
    exact htables
  · rw [hadmitted]
    exact ha
  · rw [hpq]
    exact hp
  · rw [hversions]
    exact hv
  · rw [hblocks]
    exact hb
  · rw [hbatches]
    exact hbt

theorem cleared_eq {peers : List PeerId} (h : peers.length ≤ maxRuntimePeerSideTables) :
    cleared peers = peers := by
  rw [cleared, if_neg (Nat.not_lt.mpr h)]

theorem Spares.maintenanceHousekeeping (h : Spares P s₀ s) :
    Spares P s₀ s.maintenanceHousekeeping := by
  by_cases hP : P.Nonempty
  · obtain ⟨hadmitted, hpq⟩ := h.tables hP
    exact h.same (cleared_eq hadmitted) (cleared_eq hpq) rfl rfl rfl le_rfl le_rfl
  · -- No peer is left to spare.
    have hnone : ∀ p, p ∉ P := fun p hp => hP ⟨p, hp⟩
    exact ⟨⟨h.numbered.blocks, h.numbered.batches, h.numbered.versions⟩, fun hne => absurd hne hP,
      fun p hp => absurd hp (hnone p), fun p hp => absurd hp (hnone p),
      fun _ p hp => absurd hp (hnone p), fun _ _ hp => absurd hp (hnone _),
      fun _ _ hp => absurd hp (hnone _)⟩

theorem Spares.updateSyncState (h : Spares P s₀ s) : Spares P s₀ s.updateSyncState :=
  h.maintenanceHousekeeping.same rfl rfl rfl rfl rfl le_rfl le_rfl

theorem Spares.updateSyncPointers (h : Spares P s₀ s) : Spares P s₀ s.updateSyncPointers := by
  unfold P2pSync.updateSyncPointers
  split <;> exact h.same rfl rfl rfl rfl rfl le_rfl le_rfl

theorem Spares.aim (h : Spares P s₀ s) (target : UInt64) : Spares P s₀ (s.aim target) :=
  h.same rfl rfl rfl rfl rfl le_rfl le_rfl

theorem Spares.queueTarget (h : Spares P s₀ s) (target : UInt64) :
    Spares P s₀ (s.queueTarget target) :=
  h.same rfl rfl rfl rfl rfl le_rfl le_rfl

theorem Spares.queued (h : Spares P s₀ s) (target : Option UInt64) :
    Spares P s₀ { s with queuedSyncTarget := target } :=
  h.same rfl rfl rfl rfl rfl le_rfl le_rfl

theorem Spares.deferSyncUntilPq (h : Spares P s₀ s) (desired : UInt64) :
    Spares P s₀ (s.deferSyncUntilPq desired) := by
  unfold P2pSync.deferSyncUntilPq
  exact ((h.aim _).queueTarget _).updateSyncState

/-- Losing the key exchange of a peer is felt by that peer only. -/
theorem Spares.clearPqPeerState (h : Spares P s₀ s) {peer : PeerId}
    (hpeer : peer ∈ P → peer ∉ s₀.pqReadyPeers) : Spares P s₀ (s.clearPqPeerState peer) := by
  unfold P2pSync.clearPqPeerState
  dsimp only
  apply Spares.maintenanceHousekeeping
  refine ⟨⟨h.numbered.blocks, h.numbered.batches, h.numbered.versions⟩, ?_, h.admitted, ?_,
    h.versions, h.blocks, h.batches⟩
  · intro hP
    exact ⟨(h.tables hP).1, (List.length_erase_le).trans (h.tables hP).2⟩
  · intro p hp hready
    have hne : p ≠ peer := fun heq => hpeer (heq ▸ hp) (heq ▸ hready)
    exact (List.mem_erase_of_ne hne).mpr (h.pqReady p hp hready)

/-! ### Requests -/

/-- A request under a new number leaves the others as they are. -/
theorem getElem?_insert_fresh {α : Type} {m : ExtTreeMap RequestId α} {next : RequestId}
    (hm : ∀ id v, m[id]? = some v → id < next) (x : α) :
    (∀ id v, (m.insert next x)[id]? = some v → id < next+1) ∧
      ∀ (id : RequestId) v, m[id]? = some v → (m.insert next x)[id]? = some v := by
  constructor
  · intro id v hv
    rw [ExtTreeMap.getElem?_insert] at hv
    split at hv
    next heq =>
      rw [← Std.compare_eq_iff_eq.mp heq]
      exact Nat.lt_succ_self next
    next => exact Nat.lt_succ_of_lt (hm id v hv)
  · intro id v hv
    have hlt := hm id v hv
    rw [ExtTreeMap.getElem?_insert, if_neg]
    · exact hv
    · intro heq
      rw [Std.compare_eq_iff_eq.mp heq] at hlt
      exact lt_irrefl _ hlt

theorem getElem?_of_erase {α : Type} {m : ExtTreeMap RequestId α} {id id' : RequestId} {v : α}
    (h : (m.erase id')[id]? = some v) : m[id]? = some v := by
  rw [ExtTreeMap.getElem?_erase] at h
  split at h
  · cases h
  · exact h

theorem getElem?_erase_of_ne {α : Type} {m : ExtTreeMap RequestId α} {id id' : RequestId} {v : α}
    (h : m[id]? = some v) (hne : id ≠ id') : (m.erase id')[id]? = some v := by
  rw [ExtTreeMap.getElem?_erase, if_neg]
  · exact h
  · intro heq
    exact hne (Std.compare_eq_iff_eq.mp heq).symm

theorem Spares.issueBlockRequestIfAbsent (h : Spares P s₀ s) (req : PendingBlockRequest) :
    Spares P s₀ (s.issueBlockRequestIfAbsent req).2 := by
  obtain ⟨reserved, hreserved⟩ := reserveBlockIdxForRequest_snd s req.idx
  unfold P2pSync.issueBlockRequestIfAbsent
  generalize s.reserveBlockIdxForRequest req.idx = result at hreserved ⊢
  obtain ⟨ok, s₁⟩ := result
  obtain rfl : s₁ = { s with reservedBlockIndices := reserved } := hreserved
  dsimp only
  split
  · have hfresh := getElem?_insert_fresh h.numbered.blocks req
    have hbatches : ∀ id req, s.pendingBatches[id]? = some req → id < s.swarm.nextBlocktxId+1 :=
      fun id req hreq => Nat.lt_succ_of_lt (h.numbered.batches id req hreq)
    refine ⟨⟨hfresh.1, hbatches, h.numbered.versions⟩, h.tables, h.admitted, h.pqReady,
      h.versions, ?_, h.batches⟩
    intro id req' hpeer hreq'
    exact hfresh.2 id req' (h.blocks id req' hpeer hreq')
  · exact h.same rfl rfl rfl rfl rfl le_rfl le_rfl

theorem Spares.issueBatchRequest (h : Spares P s₀ s) (req : PendingBatchRequest) :
    Spares P s₀ (s.issueBatchRequest req).2 := by
  obtain ⟨reserved, hreserved⟩ := reserveBatchIdxForRequest_snd s req.idx
  unfold P2pSync.issueBatchRequest
  generalize s.reserveBatchIdxForRequest req.idx = result at hreserved ⊢
  obtain ⟨ok, s₁⟩ := result
  obtain rfl : s₁ = { s with reservedBatchIndices := reserved } := hreserved
  dsimp only
  split
  · have hfresh := getElem?_insert_fresh h.numbered.batches req
    have hblocks : ∀ id req, s.pendingBlocks[id]? = some req → id < s.swarm.nextBlocktxId+1 :=
      fun id req hreq => Nat.lt_succ_of_lt (h.numbered.blocks id req hreq)
    refine ⟨⟨hblocks, hfresh.1, h.numbered.versions⟩, h.tables, h.admitted, h.pqReady,
      h.versions, h.blocks, ?_⟩
    intro id req' hpeer hreq'
    exact hfresh.2 id req' (h.batches id req' hpeer hreq')
  · exact h.same rfl rfl rfl rfl rfl le_rfl le_rfl

theorem Spares.pushBlockRetry (h : Spares P s₀ s) (req : PendingBlockRequest) :
    Spares P s₀ (s.pushBlockRetry req) := by
  unfold P2pSync.pushBlockRetry
  split
  · exact h
  · split
    · exact h
    · split
      · exact h
      · exact h.same rfl rfl rfl rfl rfl le_rfl le_rfl

theorem Spares.pushBatchRetry (h : Spares P s₀ s) (req : PendingBlockRequest) :
    Spares P s₀ (s.pushBatchRetry req) := by
  unfold P2pSync.pushBatchRetry
  split
  · exact h
  · split
    · exact h
    · split
      · exact h
      · exact h.same rfl rfl rfl rfl rfl le_rfl le_rfl

theorem Spares.requestIndexFromPeer (h : Spares P s₀ s) (peer : PeerId) (idx : UInt64) :
    Spares P s₀ (s.requestIndexFromPeer peer idx) := by
  unfold P2pSync.requestIndexFromPeer
  split
  · exact h.deferSyncUntilPq _
  · split
    · exact h.issueBatchRequest _
    · exact h.issueBlockRequestIfAbsent _

theorem Spares.canStartBlockSyncWithPeer (h : Spares P s₀ s) (peer : PeerId) (target : UInt64) :
    Spares P s₀ (s.canStartBlockSyncWithPeer peer target).2 := by
  unfold P2pSync.canStartBlockSyncWithPeer
  split
  · exact h
  · exact h.deferSyncUntilPq target

theorem Spares.requestNextBlock (h : Spares P s₀ s) (peer : PeerId) :
    Spares P s₀ (s.requestNextBlock peer) := by
  have haim := h.aim s.effectiveSyncTarget
  unfold P2pSync.requestNextBlock
  dsimp only
  split
  · have hstart := haim.canStartBlockSyncWithPeer peer s.effectiveSyncTarget
    split
    · exact (hstart.requestIndexFromPeer peer _).updateSyncState
    · exact hstart.updateSyncState
  · exact (haim.queued none).updateSyncState

theorem Spares.beginSyncToTarget (h : Spares P s₀ s) (peer : PeerId) (peerTip : UInt64) :
    Spares P s₀ (s.beginSyncToTarget peer peerTip) := by
  unfold P2pSync.beginSyncToTarget
  dsimp only
  generalize max (max (max s.syncTarget (s.queuedSyncTarget.getD 0)) s.localTip) peerTip = target
  have haim := h.aim target
  split
  · exact (haim.queued none).updateSyncState
  · have hstart := haim.canStartBlockSyncWithPeer peer target
    generalize (s.aim target).canStartBlockSyncWithPeer peer target = result at hstart ⊢
    split
    · have hresume : Spares P s₀ { result.2 with
          queuedSyncTarget := none
          downloaded := result.2.localTip
          totalToDownload := result.2.syncTarget } :=
        hstart.same rfl rfl rfl rfl rfl le_rfl le_rfl
      split
      · exact hresume.updateSyncState
      · exact (hresume.requestIndexFromPeer peer _).updateSyncState
    · exact hstart.updateSyncState

/-! ### Other peers -/

theorem Spares.requeueBlock (h : Spares P s₀ s) (allowSamePeer : Bool)
    {entry : RequestId × PendingBlockRequest}
    (hentry : ∀ req, s₀.pendingBlocks[entry.1]? = some req → req.peer ∉ P) :
    Spares P s₀ (s.requeueBlock allowSamePeer entry) := by
  have herase : Spares P s₀ { s with pendingBlocks := s.pendingBlocks.erase entry.1 } := by
    refine ⟨⟨?_, h.numbered.batches, h.numbered.versions⟩, h.tables, h.admitted, h.pqReady,
      h.versions, ?_, h.batches⟩
    · intro id req hreq
      exact h.numbered.blocks id req (getElem?_of_erase hreq)
    · intro id req hpeer hreq
      apply getElem?_erase_of_ne (h.blocks id req hpeer hreq)
      rintro rfl
      exact hentry req hreq hpeer
  unfold P2pSync.requeueBlock
  dsimp only
  split
  · split
    · exact herase.pushBlockRetry _
    · exact herase
  · exact herase

theorem Spares.requeueBatch (h : Spares P s₀ s) (allowSamePeer : Bool)
    {entry : RequestId × PendingBatchRequest}
    (hentry : ∀ req, s₀.pendingBatches[entry.1]? = some req → req.peer ∉ P) :
    Spares P s₀ (s.requeueBatch allowSamePeer entry) := by
  have herase : Spares P s₀ { s with pendingBatches := s.pendingBatches.erase entry.1 } := by
    refine ⟨⟨h.numbered.blocks, ?_, h.numbered.versions⟩, h.tables, h.admitted, h.pqReady,
      h.versions, h.blocks, ?_⟩
    · intro id req hreq
      exact h.numbered.batches id req (getElem?_of_erase hreq)
    · intro id req hpeer hreq
      apply getElem?_erase_of_ne (h.batches id req hpeer hreq)
      rintro rfl
      exact hentry req hreq hpeer
  unfold P2pSync.requeueBatch
  dsimp only
  split
  · split
    · exact herase.pushBatchRetry _
    · exact herase
  · exact herase

theorem Spares.foldl {α : Type} {f : P2pSync → α → P2pSync} (items : List α)
    (hf : ∀ a ∈ items, ∀ s, Spares P s₀ s → Spares P s₀ (f s a)) (h : Spares P s₀ s) :
    Spares P s₀ (items.foldl f s) := by
  induction items generalizing s with
  | nil => exact h
  | cons a rest ih =>
    apply ih
    · intro b hb
      exact hf b (List.mem_cons_of_mem a hb)
    · exact hf a List.mem_cons_self s h

/-- A peer outside `P` takes only its own requests with it. -/
theorem Spares.cleanupPendingForPeer (h : Spares P s₀ s) (now : Instant) {peer : PeerId}
    (hpeer : peer ∉ P) (allowSamePeer : Bool) :
    Spares P s₀ (s.cleanupPendingForPeer now peer allowSamePeer) := by
  unfold P2pSync.cleanupPendingForPeer
  dsimp only
  have hversions : Spares P s₀
      { s with pendingVersions := s.pendingVersions.filter fun _ p => decide (p ≠ peer) } := by
    refine ⟨⟨h.numbered.blocks, h.numbered.batches, ?_⟩, h.tables, h.admitted, h.pqReady, ?_,
      h.blocks, h.batches⟩
    · intro id p hp
      rw [ExtTreeMap.getElem?_filter', Option.filter_eq_some_iff] at hp
      exact h.numbered.versions id p hp.1
    · intro id p hp hsome
      rw [ExtTreeMap.getElem?_filter', Option.filter_eq_some_iff]
      refine ⟨h.versions id p hp hsome, decide_eq_true ?_⟩
      rintro rfl
      exact hpeer hp
  have hblocks : Spares P s₀ ((s.pendingBlocks.toList.filter fun e =>
      decide (e.2.peer = peer)).foldl (P2pSync.requeueBlock allowSamePeer)
        { s with pendingVersions := s.pendingVersions.filter fun _ p => decide (p ≠ peer) }) := by
    apply hversions.foldl
    intro e he s' hs
    obtain ⟨hmem, howner⟩ := List.mem_filter.mp he
    apply hs.requeueBlock allowSamePeer
    -- What was kept of a peer in `P` is not a request of the peer that is lost.
    intro req hreq hin
    have hsame := ExtTreeMap.mem_toList_iff_getElem?_eq_some.mp hmem
    rw [h.blocks e.1 req hin hreq] at hsame
    have hown : req.peer = peer := (Option.some_inj.mp hsame) ▸ of_decide_eq_true howner
    exact hpeer (hown ▸ hin)
  generalize List.foldl (P2pSync.requeueBlock allowSamePeer) _ _ = s₁ at hblocks ⊢
  have hbatches : Spares P s₀ ((s₁.pendingBatches.toList.filter fun e =>
      decide (e.2.peer = peer)).foldl (P2pSync.requeueBatch allowSamePeer) s₁) := by
    apply hblocks.foldl
    intro e he s' hs
    obtain ⟨hmem, howner⟩ := List.mem_filter.mp he
    apply hs.requeueBatch allowSamePeer
    intro req hreq hin
    have hsame := ExtTreeMap.mem_toList_iff_getElem?_eq_some.mp hmem
    rw [hblocks.batches e.1 req hin hreq] at hsame
    have hown : req.peer = peer := (Option.some_inj.mp hsame) ▸ of_decide_eq_true howner
    exact hpeer (hown ▸ hin)
  exact hbatches.same rfl rfl rfl rfl rfl le_rfl le_rfl

theorem Spares.rejectProtocolPeer (h : Spares P s₀ s) (now : Instant) {peer : PeerId}
    (hpeer : peer ∉ P) : Spares P s₀ (s.rejectProtocolPeer now peer) :=
  (h.cleanupPendingForPeer now hpeer false).clearPqPeerState fun hin => absurd hin hpeer

theorem Spares.handleLastResortDrop (h : Spares P s₀ s) (now : Instant) {peer : PeerId}
    {disconnect : Bool} (hpeer : peer ∈ P → disconnect = false) :
    Spares P s₀ (s.handleLastResortDrop now peer disconnect) := by
  unfold P2pSync.handleLastResortDrop
  split
  next hdisconnect =>
    have hout : peer ∉ P := by
      intro hin
      rw [hpeer hin] at hdisconnect
      cases hdisconnect
    have hreject := h.rejectProtocolPeer now hout
    dsimp only
    generalize s.rejectProtocolPeer now peer = s₁ at hreject ⊢
    refine ⟨⟨hreject.numbered.blocks, hreject.numbered.batches, hreject.numbered.versions⟩, ?_, ?_,
      hreject.pqReady, hreject.versions, hreject.blocks, hreject.batches⟩
    · intro hP
      exact ⟨List.length_erase_le.trans (hreject.tables hP).1, (hreject.tables hP).2⟩
    · intro p hp hadmitted
      have hne : p ≠ peer := fun heq => hout (heq ▸ hp)
      exact (List.mem_erase_of_ne hne).mpr (hreject.admitted p hp hadmitted)
  next => exact h

/-! ### Handshakes -/

theorem Spares.preserveSyncTargetForPqRetry (h : Spares P s₀ s) :
    Spares P s₀ s.preserveSyncTargetForPqRetry := by
  unfold P2pSync.preserveSyncTargetForPqRetry
  dsimp only
  split
  · apply Spares.updateSyncState
    exact h.same rfl rfl rfl rfl rfl le_rfl le_rfl
  · exact h

/-- A fresh offer is made only to a peer that is not ready. -/
theorem Spares.tryStartFreshPqOffer (h : Spares P s₀ s) (peer : PeerId) (built : Bool) :
    Spares P s₀ (s.tryStartFreshPqOffer peer built) := by
  unfold P2pSync.tryStartFreshPqOffer
  split
  next => exact h
  next hready =>
    have hnot : peer ∈ P → peer ∉ s₀.pqReadyPeers := by
      intro hin hwas
      exact hready (decide_eq_true (h.pqReady peer hin hwas))
    split
    · exact h.updateSyncState
    · have hclear := h.preserveSyncTargetForPqRetry.clearPqPeerState hnot
      dsimp only
      generalize s.preserveSyncTargetForPqRetry.clearPqPeerState peer = s₁ at hclear ⊢
      split
      · exact hclear.updateSyncState
      · split
        · apply Spares.updateSyncState
          exact hclear.same rfl rfl rfl rfl rfl le_rfl le_rfl
        · exact (hclear.clearPqPeerState hnot).updateSyncState

theorem Spares.offerPqIfNew (h : Spares P s₀ s) (origin : PeerId) (built : Bool) :
    Spares P s₀ (s.offerPqIfNew origin built) := by
  unfold P2pSync.offerPqIfNew
  split
  · exact h.tryStartFreshPqOffer origin built
  · exact h

theorem Spares.onReportedHeight (h : Spares P s₀ s) (origin : PeerId) (height : UInt64) :
    Spares P s₀ (s.onReportedHeight origin height) := by
  unfold P2pSync.onReportedHeight
  split
  · have hstarted : Spares P s₀ { s with
        syncTarget := height
        totalToDownload := height
        downloaded := 0
        syncing := true
        hasSynced := false } := h.same rfl rfl rfl rfl rfl le_rfl le_rfl
    have hissued := hstarted.issueBlockRequestIfAbsent ⟨origin, 0, maxRetries⟩
    dsimp only
    apply Spares.updateSyncState
    exact hissued.same rfl rfl rfl rfl rfl le_rfl le_rfl
  · have hpointers := h.updateSyncPointers
    dsimp only
    split
    · exact hpointers.beginSyncToTarget origin height
    · exact hpointers.updateSyncState

theorem Spares.pollVersions (peers : List PeerId) (h : Spares P s₀ s) :
    Spares P s₀ (pollVersions peers s) := by
  induction peers generalizing s with
  | nil => exact h
  | cons peer rest ih =>
    unfold P2pSync.pollVersions
    split
    · exact h
    · have hfresh := getElem?_insert_fresh h.numbered.versions peer
      apply ih
      refine ⟨⟨h.numbered.blocks, h.numbered.batches, hfresh.1⟩, h.tables, h.admitted, h.pqReady,
        ?_, h.blocks, h.batches⟩
      intro id p hp hsome
      exact hfresh.2 id p (h.versions id p hp hsome)

theorem Spares.pollPeersForHeight (h : Spares P s₀ s) : Spares P s₀ s.pollPeersForHeight := by
  have hpointers := h.updateSyncPointers
  unfold P2pSync.pollPeersForHeight
  dsimp only
  split
  · exact ((hpointers.updateSyncPointers.aim _).queueTarget _).updateSyncState
  · exact (Spares.pollVersions _ hpointers).updateSyncState

/-! ### After each event -/

theorem driveRounds_numbers (now : Instant) (connected pqReady : PeerId → Bool) (rounds : ℕ)
    (d : HydrationDriver) :
    d.nextRequestId ≤ (d.driveRounds now connected pqReady rounds).nextRequestId := by
  induction rounds generalizing d with
  | zero => exact le_rfl
  | succ rounds ih =>
    unfold HydrationDriver.driveRounds
    split
    next => exact le_rfl
    next peer hash h _ =>
      split
      · exact (Nat.le_succ _).trans
          (ih ⟨h.markIssued now d.nextRequestId hash, d.nextRequestId+1⟩)
      · exact ih { d with hydration := h }

theorem Spares.driveBranchHydrationRequests (h : Spares P s₀ s) (now : Instant) :
    Spares P s₀ (s.driveBranchHydrationRequests now) :=
  h.same rfl rfl rfl rfl rfl (driveRounds_numbers now s.isConnected s.isPqReady
    HydrationDriver.maxHydrationRequestsPerTick ⟨s.branchHydration, s.swarm.nextBlocktxId⟩) le_rfl

theorem Spares.drainBlockQueue (queue : List PendingBlockRequest) (h : Spares P s₀ s) :
    Spares P s₀ (s.drainBlockQueue queue) := by
  induction queue generalizing s with
  | nil => exact h.same rfl rfl rfl rfl rfl le_rfl le_rfl
  | cons req rest ih =>
    have hpop : Spares P s₀ { s with blockQueue := rest } :=
      h.same rfl rfl rfl rfl rfl le_rfl le_rfl
    unfold P2pSync.drainBlockQueue
    dsimp only
    split
    · split
      · have hissue := hpop.issueBatchRequest ⟨req.peer, req.idx, maxRetries, none⟩
        unfold P2pSync.issueBatchRequestIfAbsent
        generalize P2pSync.issueBatchRequest _ { s with blockQueue := rest } = result at hissue ⊢
        split
        · exact hissue
        · exact ih hissue
      · exact ih hpop
    · have hissue := hpop.issueBlockRequestIfAbsent req
      generalize P2pSync.issueBlockRequestIfAbsent req { s with blockQueue := rest } =
        result at hissue ⊢
      split
      · exact hissue
      · exact ih hissue

theorem Spares.drainBatchQueue (queue : List PendingBlockRequest) (h : Spares P s₀ s) :
    Spares P s₀ (s.drainBatchQueue queue) := by
  induction queue generalizing s with
  | nil => exact h.same rfl rfl rfl rfl rfl le_rfl le_rfl
  | cons req rest ih =>
    have hpop : Spares P s₀ { s with batchQueue := rest } :=
      h.same rfl rfl rfl rfl rfl le_rfl le_rfl
    unfold P2pSync.drainBatchQueue
    dsimp only
    split
    · exact ih hpop
    · have hissue := hpop.issueBatchRequest ⟨req.peer, req.idx, req.retriesLeft, none⟩
      unfold P2pSync.issueBatchRequestIfAbsent
      generalize P2pSync.issueBatchRequest _ { s with batchQueue := rest } = result at hissue ⊢
      split
      · exact hissue
      · exact ih hissue

theorem Spares.drainQueues (h : Spares P s₀ s) : Spares P s₀ s.drainQueues := by
  unfold P2pSync.drainQueues
  dsimp only
  have hblocks : Spares P s₀ (if s.syncing && s.pendingBlocks.isEmpty then
      s.drainBlockQueue s.blockQueue else s) := by
    split
    · exact h.drainBlockQueue s.blockQueue
    · exact h
  generalize (if s.syncing && s.pendingBlocks.isEmpty then
    s.drainBlockQueue s.blockQueue else s) = s₁ at hblocks ⊢
  split
  · exact hblocks.drainBatchQueue s₁.batchQueue
  · exact hblocks

theorem Spares.reissueIdleSyncWorkIfNeeded (h : Spares P s₀ s) :
    Spares P s₀ s.reissueIdleSyncWorkIfNeeded := by
  unfold P2pSync.reissueIdleSyncWorkIfNeeded
  dsimp only
  generalize s.effectiveSyncTarget = target
  split
  · exact h
  · split
    · have hagain : Spares P s₀ { s.aim target with
          queuedSyncTarget := some target
          syncing := true
          hasSynced := false } := h.same rfl rfl rfl rfl rfl le_rfl le_rfl
      split
      · exact hagain.updateSyncState
      · exact hagain.requestNextBlock _
    · exact h

theorem Spares.noteApplied (h : Spares P s₀ s) : Spares P s₀ s.noteApplied := by
  unfold P2pSync.noteApplied
  split
  · exact h.same rfl rfl rfl rfl rfl le_rfl le_rfl
  · exact h

theorem Spares.finish (h : Spares P s₀ s) (now : Instant) {timedOut : List PeerId}
    (htimed : ∀ peer ∈ timedOut, peer ∉ P) : Spares P s₀ (s.finish now timedOut) := by
  have hdropped : Spares P s₀ (timedOut.foldl (P2pSync.dropTimedOut now) s) := by
    apply h.foldl
    intro peer hpeer s' hs
    exact hs.rejectProtocolPeer now (htimed peer hpeer)
  have hissued := hdropped.drainQueues.reissueIdleSyncWorkIfNeeded
  exact (hissued.driveBranchHydrationRequests now).updateSyncState.noteApplied

/-! ### Events of connections -/

/-- The version poll an event answers. -/
def SwarmEvent.answers : SwarmEvent → Option RequestId
  | .versionResponse request _ _ _ _ => some request
  | _ => none

/-- The peer an event admits. -/
def SwarmEvent.admits (s : P2pSync) : SwarmEvent → Option PeerId
  | .versionRequest peer info dropped admitted =>
    if info.matchesLocalChain && dropped.isNone && admitted then some peer else none
  | .versionResponse request peer info admitted _ =>
    if s.versionTaken request peer info admitted then some peer else none
  | _ => none

def SwarmEvent.admittedAfter (event : SwarmEvent) (s : P2pSync) : List PeerId :=
  match event.admits s with
  | some peer => s.admittedPeers.insert peer
  | none => s.admittedPeers

/-- Peers in `P` are neither refused nor lost by an event. -/
def SwarmEvent.Spares (P : Set PeerId) (s : P2pSync) : SwarmEvent → Prop
  | .connectionEstablished peer allowed => peer ∈ P → allowed = true
  | .connectionClosed peer => peer ∉ P
  | .versionRequest peer info dropped admitted => peer ∈ P →
    info.matchesLocalChain = true ∧ dropped ≠ some true ∧ (dropped = none → admitted = true)
  | .versionResponse request peer info admitted _ => peer ∈ P →
    s.pendingVersions[request]? = none ∨ s.versionTaken request peer info admitted = true
  | _ => False

/-- `base` is `s` once an event is known to have arrived. -/
structure Heard (event : SwarmEvent) (s base : P2pSync) : Prop where
  numbered : s.Numbered → base.Numbered
  pqReady : base.pqReadyPeers = s.pqReadyPeers
  blocks : base.pendingBlocks = s.pendingBlocks
  batches : base.pendingBatches = s.pendingBatches
  versions : ∀ id, some id ≠ event.answers → base.pendingVersions[id]? = s.pendingVersions[id]?
  admitted : base.admittedPeers = event.admittedAfter s

theorem SwarmEvent.admittedAfter_none {event : SwarmEvent} (h : event.admits s = none) :
    event.admittedAfter s = s.admittedPeers := by
  rw [admittedAfter, h]

theorem SwarmEvent.admittedAfter_some {event : SwarmEvent} {peer : PeerId}
    (h : event.admits s = some peer) : event.admittedAfter s = s.admittedPeers.insert peer := by
  rw [admittedAfter, h]

theorem Heard.same {event : SwarmEvent} (h : event.admits s = none) : Heard event s s :=
  ⟨fun h => h, rfl, rfl, rfl, fun _ _ => rfl, (SwarmEvent.admittedAfter_none h).symm⟩

/-- A version response takes its poll off the table. -/
theorem Heard.answered {request : RequestId} {peer : PeerId} {info : VersionInfo}
    {admitted built : Bool} {peers : List PeerId}
    (hpeers : peers =
      (SwarmEvent.versionResponse request peer info admitted built).admittedAfter s) :
    Heard (.versionResponse request peer info admitted built) s { s with
      pendingVersions := s.pendingVersions.erase request
      admittedPeers := peers } := by
  refine ⟨?_, rfl, rfl, rfl, ?_, hpeers⟩
  · intro hnum
    refine ⟨hnum.blocks, hnum.batches, ?_⟩
    intro id p hp
    exact hnum.versions id p (getElem?_of_erase hp)
  · intro id hid
    change (s.pendingVersions.erase request)[id]? = s.pendingVersions[id]?
    rw [ExtTreeMap.getElem?_erase, if_neg]
    intro heq
    exact hid (congrArg some (Std.compare_eq_iff_eq.mp heq).symm)

theorem Spares.onConnectionClosed (h : Spares P s₀ s) (now : Instant) {peer : PeerId}
    (hpeer : peer ∉ P) : Spares P s₀ (s.onConnectionClosed now peer) := by
  unfold P2pSync.onConnectionClosed
  have hremoved : Spares P s₀ { s with admittedPeers := s.admittedPeers.erase peer } := by
    refine ⟨⟨h.numbered.blocks, h.numbered.batches, h.numbered.versions⟩, ?_, ?_, h.pqReady,
      h.versions, h.blocks, h.batches⟩
    · intro hP
      exact ⟨List.length_erase_le.trans (h.tables hP).1, (h.tables hP).2⟩
    · intro p hp hadmitted
      have hne : p ≠ peer := fun heq => hpeer (heq ▸ hp)
      exact (List.mem_erase_of_ne hne).mpr (h.admitted p hp hadmitted)
  have hcleared := hremoved.clearPqPeerState fun hin => absurd hin hpeer
  exact (hcleared.cleanupPendingForPeer now hpeer true).driveBranchHydrationRequests now

theorem spares_of_versionRequest {now : Instant} {peer : PeerId} {info : VersionInfo}
    {dropped : Option Bool} {admitted : Bool}
    (hbase : ∀ base, Heard (.versionRequest peer info dropped admitted) s base → Spares P base base)
    (hevent : (SwarmEvent.versionRequest peer info dropped admitted).Spares P s) :
    ∃ base, Heard (.versionRequest peer info dropped admitted) s base ∧
      Spares P base (s.onVersionRequest now peer info dropped admitted).1 := by
  unfold onVersionRequest
  by_cases hmatch : info.matchesLocalChain = true
  · rw [hmatch, Bool.not_true, if_neg Bool.false_ne_true]
    cases dropped with
    | some disconnect =>
      have hheard : Heard (.versionRequest peer info (some disconnect) admitted) s s := by
        apply Heard.same
        simp only [SwarmEvent.admits, Option.isNone_some, Bool.and_false, Bool.false_and,
          Bool.false_eq_true, if_false]
      refine ⟨s, hheard, (hbase s hheard).handleLastResortDrop now ?_⟩
      intro hin
      cases disconnect with
      | true => exact absurd rfl (hevent hin).2.1
      | false => rfl
    | none =>
      cases admitted with
      | true =>
        have hadmits : (SwarmEvent.versionRequest peer info none true).admits s = some peer := by
          simp only [SwarmEvent.admits, hmatch, Option.isNone_none, Bool.and_self, if_true]
        have hheard : Heard (.versionRequest peer info none true) s
            { s with admittedPeers := s.admittedPeers.insert peer } :=
          ⟨fun h => ⟨h.blocks, h.batches, h.versions⟩, rfl, rfl, rfl, fun _ _ => rfl,
            (SwarmEvent.admittedAfter_some hadmits).symm⟩
        exact ⟨_, hheard, hbase _ hheard⟩
      | false =>
        have hheard : Heard (.versionRequest peer info none false) s s := by
          apply Heard.same
          simp only [SwarmEvent.admits, Bool.and_false, Bool.false_eq_true, if_false]
        have hout : peer ∉ P := fun hin => Bool.false_ne_true ((hevent hin).2.2 rfl)
        exact ⟨s, hheard, (hbase s hheard).rejectProtocolPeer now hout⟩
  · have hheard : Heard (.versionRequest peer info dropped admitted) s s := by
      apply Heard.same
      simp only [SwarmEvent.admits, Bool.eq_false_iff.mpr hmatch, Bool.false_and,
        Bool.false_eq_true, if_false]
    have hout : peer ∉ P := fun hin => hmatch (hevent hin).1
    rw [Bool.eq_false_iff.mpr hmatch, Bool.not_false, if_pos rfl]
    exact ⟨s, hheard, (hbase s hheard).rejectProtocolPeer now hout⟩

theorem spares_of_versionResponse {now : Instant} {request : RequestId} {peer : PeerId}
    {info : VersionInfo} {admitted built : Bool}
    (hbase : ∀ base, Heard (.versionResponse request peer info admitted built) s base →
      Spares P base base)
    (hevent : (SwarmEvent.versionResponse request peer info admitted built).Spares P s) :
    ∃ base, Heard (.versionResponse request peer info admitted built) s base ∧
      Spares P base (s.onVersionResponse now request peer info admitted built).1 := by
  unfold onVersionResponse
  by_cases htaken : s.versionTaken request peer info admitted = true
  · have hparts := htaken
    simp only [versionTaken, Bool.and_eq_true, decide_eq_true_eq] at hparts
    obtain ⟨⟨hpending, hmatch⟩, hadmitted⟩ := hparts
    have hadmits : (SwarmEvent.versionResponse request peer info admitted built).admits s =
        some peer := by
      simp only [SwarmEvent.admits, htaken, if_true]
    have hheard : Heard (.versionResponse request peer info admitted built) s { s with
        pendingVersions := s.pendingVersions.erase request
        admittedPeers := s.admittedPeers.insert peer } :=
      Heard.answered (SwarmEvent.admittedAfter_some hadmits).symm
    refine ⟨_, hheard, ?_⟩
    rw [hpending]
    dsimp only
    rw [if_neg (not_not_intro rfl), hmatch, hadmitted, Bool.not_true, Bool.or_false,
      if_neg Bool.false_ne_true]
    exact ((hbase _ hheard).onReportedHeight peer info.chainHeight).offerPqIfNew peer built
  · have hadmits : (SwarmEvent.versionResponse request peer info admitted built).admits s =
        none := by
      simp only [SwarmEvent.admits, Bool.eq_false_iff.mpr htaken, Bool.false_eq_true, if_false]
    cases hpending : s.pendingVersions[request]? with
    | none => exact ⟨s, Heard.same hadmits, hbase s (Heard.same hadmits)⟩
    | some origin =>
      have hheard : Heard (.versionResponse request peer info admitted built) s { s with
          pendingVersions := s.pendingVersions.erase request
          admittedPeers := s.admittedPeers } :=
        Heard.answered (SwarmEvent.admittedAfter_none hadmits).symm
      have hout : peer ∉ P := by
        intro hin
        rcases hevent hin with hnone | hok
        · rw [hpending] at hnone
          cases hnone
        · exact htaken hok
      refine ⟨_, hheard, ?_⟩
      dsimp only
      split
      · exact (hbase _ hheard).rejectProtocolPeer now hout
      next hpeer =>
        obtain rfl : peer = origin := not_not.mp hpeer
        rw [if_pos]
        · exact (hbase _ hheard).rejectProtocolPeer now hout
        · rw [← Bool.not_and, Bool.not_eq_true']
          apply Bool.eq_false_iff.mpr
          intro hok
          apply htaken
          rw [versionTaken, hpending, decide_eq_true rfl, Bool.true_and]
          exact hok

/-- An event that spares the peers in `P` leaves them what they had. -/
theorem spares_of_event [Blake3] {event : SwarmEvent} {now : Instant} {r : P2pSync × Bool}
    (hnum : s.Numbered)
    (hroom : P.Nonempty → (event.admittedAfter s).length ≤ maxRuntimePeerSideTables ∧
      s.pqReadyPeers.length ≤ maxRuntimePeerSideTables)
    (hevent : event.Spares P s) (hr : s.handleSwarmEvent now event = some r) :
    ∃ base, Heard event s base ∧ Spares P base r.1 := by
  have hbase : ∀ base, Heard event s base → Spares P base base := by
    intro base hheard
    apply Spares.refl (hheard.numbered hnum)
    intro hP
    rw [hheard.admitted, hheard.pqReady]
    exact hroom hP
  cases event with
  | connectionEstablished peer allowed =>
    have hheard : Heard (.connectionEstablished peer allowed) s s := Heard.same rfl
    have hs := hbase s hheard
    cases allowed with
    | true =>
      obtain rfl := Option.some_inj.mp hr
      exact ⟨s, hheard, hs.pollPeersForHeight.driveBranchHydrationRequests now⟩
    | false =>
      obtain rfl := Option.some_inj.mp hr
      have hout : peer ∉ P := fun hin => Bool.false_ne_true (hevent hin)
      exact ⟨s, hheard, hs.rejectProtocolPeer now hout⟩
  | connectionClosed peer =>
    have hheard : Heard (.connectionClosed peer) s s := Heard.same rfl
    obtain rfl := Option.some_inj.mp hr
    exact ⟨s, hheard, (hbase s hheard).onConnectionClosed now hevent⟩
  | versionRequest peer info dropped admitted =>
    obtain rfl := Option.some_inj.mp hr
    exact spares_of_versionRequest hbase hevent
  | versionResponse request peer info admitted built =>
    obtain rfl := Option.some_inj.mp hr
    exact spares_of_versionResponse hbase hevent
  | _ => exact hevent.elim

end P2pSync

/-! ### The guard -/

namespace ConnGuard

variable {g : ConnGuard} {p peer : PeerId} {now : Instant}

/-- No handshake of the peer is overdue. -/
def OnTime (g : ConnGuard) (p : PeerId) (now : Instant) : Prop :=
  ∀ deadline, g.pending[p]? = some deadline → now ≤ deadline

theorem onTime_of_all (h : g.pending[p]?.all (fun deadline => decide (now ≤ deadline)) = true) :
    g.OnTime p now := by
  intro deadline hdeadline
  rw [hdeadline] at h
  exact of_decide_eq_true h

/-- A connection the guard counts: from a known address that is not too eager, with room for one
more handshake and time for it. -/
def Takes (g : ConnGuard) (peer : PeerId) (remoteAddr : Multiaddr) (now : Instant) : Prop :=
  ∃ ip, ipFromMultiaddr remoteAddr = some ip ∧
    (pruneRateWindow (g.recentAttempts ip) now g.cfg.rateWindow).length <
      g.cfg.maxNewConnsPerIpPerWindow ∧
    (peer ∈ g.pending ∨
      g.pending.size < g.cfg.maxHandshaking ∧ now+g.cfg.handshakeDeadline ≤ lastInstant)

theorem countConnection_admitted (ip : IpAddr) :
    (g.countConnection peer ip now).2.admitted = g.admitted := by
  unfold countConnection
  dsimp only
  split
  · rfl
  · split <;> rfl

theorem onConnectionEstablished_admitted (remoteAddr : Multiaddr) :
    (g.onConnectionEstablished peer remoteAddr now).2.admitted = g.admitted := by
  unfold onConnectionEstablished
  split
  · rfl
  · dsimp only
    split
    · rfl
    · split
      · rfl
      · exact countConnection_admitted _

theorem countConnection_onTime (ip : IpAddr) (h : g.OnTime p now) :
    (g.countConnection peer ip now).2.OnTime p now := by
  unfold countConnection
  dsimp only
  split
  · exact h
  · split
    · intro deadline hdeadline
      change (g.pending.insert peer (now+g.cfg.handshakeDeadline))[p]? = some deadline at hdeadline
      rw [ExtTreeMap.getElem?_insert] at hdeadline
      split at hdeadline
      · rw [← Option.some_inj.mp hdeadline]
        exact Nat.le_add_right _ _
      · exact h deadline hdeadline
    · exact h

theorem onConnectionEstablished_onTime (remoteAddr : Multiaddr) (h : g.OnTime p now) :
    (g.onConnectionEstablished peer remoteAddr now).2.OnTime p now := by
  unfold onConnectionEstablished
  split
  · exact h
  · dsimp only
    split
    · exact h
    · split
      · exact h
      · exact countConnection_onTime _ h

theorem onConnectionEstablished_allow {remoteAddr : Multiaddr} (h : g.Takes peer remoteAddr now) :
    (g.onConnectionEstablished peer remoteAddr now).1 = .allow := by
  obtain ⟨ip, hip, hrate, hpool⟩ := h
  unfold onConnectionEstablished
  rw [hip]
  dsimp only
  rw [if_neg (Nat.not_le.mpr hrate), if_neg]
  · unfold countConnection
    dsimp only
    split
    next => rfl
    next hnot =>
      rcases hpool with hin | hroom
      · exact absurd hin hnot
      · rw [if_pos hroom.2]
  · rintro ⟨hfull, hnot⟩
    rcases hpool with hin | hroom
    · exact hnot hin
    · exact absurd hroom.1 (Nat.not_lt.mpr hfull)

theorem tryAdmit_of_admitted (h : peer ∈ g.admitted) :
    g.tryAdmit peer = (.allow, { g with pending := g.pending.erase peer }) := by
  rw [tryAdmit, if_pos h]

/-- The guard admits at most the peer it is asked about, and says so. -/
theorem tryAdmit_admitted (peer : PeerId) (g : ConnGuard) :
    ((g.tryAdmit peer).1 = .allow ∧ (g.tryAdmit peer).2.admitted = insert peer g.admitted ∧
      (g.tryAdmit peer).2.pending = g.pending.erase peer) ∨
    ((g.tryAdmit peer).1 ≠ .allow ∧ (g.tryAdmit peer).2.admitted = g.admitted ∧
      ((g.tryAdmit peer).2.pending = g.pending ∨
        (g.tryAdmit peer).2.pending = g.pending.erase peer)) := by
  by_cases hin : peer ∈ g.admitted
  · rw [tryAdmit_of_admitted hin]
    exact Or.inl ⟨rfl, (Finset.insert_eq_self.mpr hin).symm, rfl⟩
  · rw [tryAdmit, if_neg hin]
    have hdrop (reason : DropReason) : GuardDecision.drop reason ≠ .allow := by
      intro h
      cases h
    split
    · exact Or.inr ⟨hdrop _, rfl, Or.inl rfl⟩
    · split
      · exact Or.inr ⟨hdrop _, rfl, Or.inl rfl⟩
      · split
        · exact Or.inr ⟨hdrop _, rfl, Or.inl rfl⟩
        · split
          · exact Or.inr ⟨hdrop _, rfl, Or.inl rfl⟩
          · split
            · exact Or.inr ⟨hdrop _, rfl, Or.inl rfl⟩
            · unfold admitCounted
              dsimp only
              split
              · exact Or.inr ⟨hdrop _, rfl, Or.inr rfl⟩
              · exact Or.inl ⟨rfl, rfl, rfl⟩

theorem onTime_erase (h : g.OnTime p now) {g' : ConnGuard}
    (hpending : g'.pending = g.pending.erase peer) : g'.OnTime p now := by
  intro deadline hdeadline
  rw [hpending, ExtTreeMap.getElem?_erase] at hdeadline
  split at hdeadline
  · cases hdeadline
  · exact h deadline hdeadline

theorem tryAdmit_onTime (h : g.OnTime p now) (peer : PeerId) : (g.tryAdmit peer).2.OnTime p now := by
  rcases tryAdmit_admitted peer g with ⟨-, -, hpending⟩ | ⟨-, -, hpending | hpending⟩
  · exact onTime_erase h hpending
  · intro deadline hdeadline
    exact h deadline (hpending ▸ hdeadline)
  · exact onTime_erase h hpending

theorem tryAdmit_self_onTime (h : (g.tryAdmit peer).1 = .allow) (now : Instant) :
    (g.tryAdmit peer).2.OnTime peer now := by
  rcases tryAdmit_admitted peer g with ⟨-, -, hpending⟩ | ⟨hnot, -, -⟩
  · intro deadline hdeadline
    rw [hpending, ExtTreeMap.getElem?_erase_self] at hdeadline
    cases hdeadline
  · exact absurd h hnot

/-- A close of one peer is not felt by another. -/
theorem onConnectionClosed_other (hne : peer ≠ p) :
    (p ∈ (g.onConnectionClosed peer).admitted ↔ p ∈ g.admitted) ∧
      (g.OnTime p now → (g.onConnectionClosed peer).OnTime p now) := by
  have herase : p ∈ g.admitted.erase peer ↔ p ∈ g.admitted := by
    rw [Finset.mem_erase]
    exact and_iff_right (Ne.symm hne)
  unfold onConnectionClosed
  split
  · exact ⟨herase, fun h => onTime_erase h rfl⟩
  · split
    · dsimp only
      split
      · exact ⟨herase, fun h => onTime_erase h rfl⟩
      · exact ⟨Iff.rfl, fun h => onTime_erase h rfl⟩
    · exact ⟨Iff.rfl, fun h => h⟩

theorem onConnectionClosed_admitted : (g.onConnectionClosed peer).admitted ⊆ g.admitted := by
  unfold onConnectionClosed
  split
  · exact Finset.erase_subset _ _
  · split
    · dsimp only
      split
      · exact Finset.erase_subset _ _
      · exact Finset.Subset.refl _
    · exact Finset.Subset.refl _

theorem not_mem_sweepTimeouts (h : g.OnTime p now) : p ∉ (g.sweepTimeouts now).1 := by
  intro hin
  obtain ⟨⟨q, deadline⟩, hmem, rfl⟩ := List.mem_map.mp hin
  obtain ⟨hlist, hlate⟩ := List.mem_filter.mp hmem
  have hsome := ExtTreeMap.mem_toList_iff_getElem?_eq_some.mp hlist
  exact absurd (of_decide_eq_true hlate) (Nat.not_lt.mpr (h deadline hsome))

end ConnGuard

/-! ### The node -/

def ConnEvent.peer : ConnEvent → PeerId
  | .connectionEstablished peer _ => peer
  | .versionRequest peer _ _ => peer
  | .versionResponse _ peer _ _ => peer
  | .connectionClosed peer => peer

def ConnEvent.answers : ConnEvent → Option RequestId
  | .versionResponse request _ _ _ => some request
  | _ => none

namespace NetNode

/-- What an event would have to be to leave an admitted peer alone. -/
def Harmless (p : PeerId) (n : NetNode) (now : Instant) : ConnEvent → Prop
  | .connectionEstablished peer remoteAddr => peer = p → n.guard.Takes peer remoteAddr now
  | .versionRequest peer info dropped => peer = p →
    info.matchesLocalChain = true ∧ dropped ≠ some true
  | .versionResponse request peer info _ => peer = p →
    n.sync.pendingVersions[request]? = none ∨
      n.sync.pendingVersions[request]? = some p ∧ info.matchesLocalChain = true
  | .connectionClosed peer => peer ≠ p ∧
    ∀ w, n.registry.identityMap[toBase58 p]? = some w →
      n.registry.identityMap[toBase58 peer]? ≠ some w

/-- The step after `r` disturbs neither the tables nor the peer, once that is admitted. -/
structure Undisturbed (p : PeerId) (n : NetNode) (r : Report) : Prop where
  room : (n.sync.admittedPeers.insert r.event.peer).length ≤ P2pSync.maxRuntimePeerSideTables ∧
    n.sync.pqReadyPeers.length ≤ P2pSync.maxRuntimePeerSideTables
  onTime : n.guard.isAdmitted p = true → n.guard.OnTime p r.now
  harmless : n.guard.isAdmitted p = true → n.Harmless p r.now r.event

/-- What the peer had in `n` it has in `n'`, polls that were answered apart. -/
structure PeerKept (p : PeerId) (answered : List RequestId) (n n' : NetNode) : Prop where
  admitted : p ∈ n'.sync.admittedPeers ↔ n'.guard.isAdmitted p = true
  pqReady : p ∈ n.sync.pqReadyPeers → p ∈ n'.sync.pqReadyPeers
  versions : ∀ id ∉ answered, n.sync.pendingVersions[id]? = some p →
    n'.sync.pendingVersions[id]? = some p
  blocks : ∀ (id : RequestId) req, req.peer = p → n.sync.pendingBlocks[id]? = some req →
    n'.sync.pendingBlocks[id]? = some req
  batches : ∀ (id : RequestId) req, req.peer = p → n.sync.pendingBatches[id]? = some req →
    n'.sync.pendingBatches[id]? = some req
  wallet : ∀ w, n.registry.identityMap[toBase58 p]? = some w → w ∈ n.registry.wallets →
    n'.registry.identityMap[toBase58 p]? = some w ∧ w ∈ n'.registry.wallets

theorem PeerKept.trans {p : PeerId} {ids ids' : List RequestId} {n n' n'' : NetNode}
    (h : PeerKept p ids n n') (h' : PeerKept p ids' n' n'') : PeerKept p (ids ++ ids') n n'' := by
  refine ⟨h'.admitted, fun hready => h'.pqReady (h.pqReady hready), ?_, ?_, ?_, ?_⟩
  · intro id hid hsome
    rw [List.mem_append, not_or] at hid
    exact h'.versions id hid.2 (h.versions id hid.1 hsome)
  · intro id req hpeer hreq
    exact h'.blocks id req hpeer (h.blocks id req hpeer hreq)
  · intro id req hpeer hreq
    exact h'.batches id req hpeer (h.batches id req hpeer hreq)
  · intro w hw hin
    obtain ⟨hw', hin'⟩ := h.wallet w hw hin
    exact h'.wallet w hw' hin'

section Steps

variable {n : NetNode} {p : PeerId} {now : Instant} {e : ConnEvent}

/-! What the guard is asked, and what that means for the event the runtime handles. -/

theorem consult_answers (now : Instant) (n : NetNode) (e : ConnEvent) :
    (n.consult now e).1.answers = e.answers := by
  cases e with
  | connectionEstablished peer remoteAddr => rfl
  | versionRequest peer info dropped =>
    unfold consult
    dsimp only
    split <;> rfl
  | versionResponse request peer info built =>
    unfold consult
    dsimp only
    split <;> rfl
  | connectionClosed peer => rfl

theorem answering_eq_some_iff {request : RequestId} {peer origin : PeerId} {info : VersionInfo} :
    n.answering request peer info = some origin ↔
      n.sync.pendingVersions[request]? = some origin ∧ peer = origin ∧
        info.matchesLocalChain = true := by
  rw [answering, Option.filter_eq_some_iff, Bool.and_eq_true, decide_eq_true_eq]

/-- Only the peer an event is about can be admitted by it. -/
theorem consult_admits {q : PeerId} (h : (n.consult now e).1.admits n.sync = some q) :
    q = e.peer ∧ (n.consult now e).2 = (n.guard.tryAdmit q).2 ∧
      (n.guard.tryAdmit q).1 = .allow := by
  cases e with
  | connectionEstablished peer remoteAddr => cases h
  | versionRequest peer info dropped =>
    unfold consult at h ⊢
    dsimp only at h ⊢
    split at h
    next hasked =>
      rw [if_pos hasked]
      simp only [P2pSync.SwarmEvent.admits] at h
      split at h
      next hok =>
        rw [Bool.and_eq_true, decide_eq_true_eq] at hok
        obtain rfl := Option.some_inj.mp h
        exact ⟨rfl, rfl, hok.2⟩
      next => cases h
    next =>
      simp only [P2pSync.SwarmEvent.admits, Bool.and_false, Bool.false_eq_true, if_false] at h
      cases h
  | versionResponse request peer info built =>
    unfold consult at h ⊢
    dsimp only at h ⊢
    split at h
    next origin hasked =>
      obtain ⟨-, rfl, -⟩ := answering_eq_some_iff.mp hasked
      simp only [P2pSync.SwarmEvent.admits, P2pSync.versionTaken, Option.ite_none_right_eq_some,
        Bool.and_eq_true, decide_eq_true_eq] at h
      obtain rfl := Option.some_inj.mp h.2
      exact ⟨rfl, rfl, h.1.2⟩
    next =>
      simp only [P2pSync.SwarmEvent.admits, P2pSync.versionTaken, Bool.and_false,
        Bool.false_eq_true, if_false] at h
      cases h
  | connectionClosed peer => cases h

/-- A peer that is new to the guard's list was asked about and goes into the runtime's. -/
theorem admits_of_consult (hnew : p ∈ (n.consult now e).2.admitted) (hold : p ∉ n.guard.admitted) :
    (n.consult now e).1.admits n.sync = some p := by
  have hasked (peer : PeerId) (h : p ∈ (n.guard.tryAdmit peer).2.admitted) :
      peer = p ∧ (n.guard.tryAdmit peer).1 = .allow := by
    rcases ConnGuard.tryAdmit_admitted peer n.guard with ⟨hallow, hset, -⟩ | ⟨-, hset, -⟩
    · rw [hset, Finset.mem_insert] at h
      rcases h with rfl | h
      · exact ⟨rfl, hallow⟩
      · exact absurd h hold
    · rw [hset] at h
      exact absurd h hold
  cases e with
  | connectionEstablished peer remoteAddr =>
    have hset : (n.guard.onConnectionEstablished peer remoteAddr now).2.admitted =
        n.guard.admitted := ConnGuard.onConnectionEstablished_admitted remoteAddr
    exact absurd (hset ▸ hnew) hold
  | versionRequest peer info dropped =>
    unfold consult at hnew ⊢
    dsimp only at hnew ⊢
    split at hnew
    next hok =>
      rw [if_pos hok]
      obtain ⟨rfl, hallow⟩ := hasked peer hnew
      simp only [P2pSync.SwarmEvent.admits, hok, hallow, decide_true, Bool.and_self, if_true]
    next => exact absurd hnew hold
  | versionResponse request peer info built =>
    unfold consult at hnew ⊢
    dsimp only at hnew ⊢
    split at hnew
    next origin horigin =>
      obtain ⟨hpending, rfl, hmatch⟩ := answering_eq_some_iff.mp horigin
      obtain ⟨rfl, hallow⟩ := hasked peer hnew
      simp only [P2pSync.SwarmEvent.admits, P2pSync.versionTaken, hpending, hmatch, hallow,
        decide_true, Bool.and_self, if_true]
    next => exact absurd hnew hold
  | connectionClosed peer =>
    exact absurd (ConnGuard.onConnectionClosed_admitted hnew) hold

/-- No event can disturb nobody. -/
theorem consult_spares_none (now : Instant) (n : NetNode) (e : ConnEvent) :
    (n.consult now e).1.Spares ∅ n.sync := by
  cases e with
  | connectionEstablished peer remoteAddr => exact fun h => h.elim
  | versionRequest peer info dropped =>
    unfold consult
    dsimp only
    split <;> exact fun h => h.elim
  | versionResponse request peer info built =>
    unfold consult
    dsimp only
    split <;> exact fun h => h.elim
  | connectionClosed peer => exact fun h => h

/-- A harmless event leaves an admitted peer to the guard and to the runtime. -/
theorem consult_harmless (hin : p ∈ n.guard.admitted) (htime : n.guard.OnTime p now)
    (h : n.Harmless p now e) :
    (n.consult now e).1.Spares {p} n.sync ∧ p ∈ (n.consult now e).2.admitted ∧
      (n.consult now e).2.OnTime p now := by
  -- Asking the guard about any peer leaves `p` admitted.
  have hasked (peer : PeerId) : p ∈ (n.guard.tryAdmit peer).2.admitted := by
    rcases ConnGuard.tryAdmit_admitted peer n.guard with ⟨-, hset, -⟩ | ⟨-, hset, -⟩
    · rw [hset]
      exact Finset.mem_insert_of_mem hin
    · rw [hset]
      exact hin
  have hallow : (n.guard.tryAdmit p).1 = .allow := by
    rw [ConnGuard.tryAdmit_of_admitted hin]
  cases e with
  | connectionEstablished peer remoteAddr =>
    refine ⟨?_, ?_, ConnGuard.onConnectionEstablished_onTime remoteAddr htime⟩
    · intro hpeer
      exact decide_eq_true (ConnGuard.onConnectionEstablished_allow (h hpeer))
    · change p ∈ (n.guard.onConnectionEstablished peer remoteAddr now).2.admitted
      rw [ConnGuard.onConnectionEstablished_admitted]
      exact hin
  | versionRequest peer info dropped =>
    unfold consult
    dsimp only
    split
    next hok =>
      refine ⟨?_, hasked peer, ConnGuard.tryAdmit_onTime htime peer⟩
      rintro (rfl : peer = p)
      exact ⟨(h rfl).1, (h rfl).2, fun _ => decide_eq_true hallow⟩
    next hno =>
      refine ⟨?_, hin, htime⟩
      rintro (rfl : peer = p)
      refine ⟨(h rfl).1, (h rfl).2, ?_⟩
      rintro rfl
      exact absurd (h rfl).1 (by simpa using hno)
  | versionResponse request peer info built =>
    unfold consult
    dsimp only
    split
    next origin horigin =>
      obtain ⟨hpending, rfl, hmatch⟩ := answering_eq_some_iff.mp horigin
      refine ⟨?_, hasked peer, ConnGuard.tryAdmit_onTime htime peer⟩
      rintro (rfl : peer = p)
      right
      simp only [P2pSync.versionTaken, hpending, hmatch, hallow, decide_true, Bool.and_self]
    next hno =>
      refine ⟨?_, hin, htime⟩
      rintro (rfl : peer = p)
      rcases h rfl with hnone | ⟨hpending, hmatch⟩
      · exact Or.inl hnone
      · rw [answering_eq_some_iff.mpr ⟨hpending, rfl, hmatch⟩] at hno
        cases hno
  | connectionClosed peer =>
    have hother : (p ∈ (n.guard.onConnectionClosed peer).admitted ↔ p ∈ n.guard.admitted) ∧
        (n.guard.OnTime p now → (n.guard.onConnectionClosed peer).OnTime p now) :=
      ConnGuard.onConnectionClosed_other h.1
    exact ⟨h.1, hother.1.mpr hin, hother.2 htime⟩

/-- The event that admits a peer spares it. -/
theorem consult_admission (h : (n.consult now e).1.admits n.sync = some p) :
    (n.consult now e).1.Spares {p} n.sync ∧ (n.consult now e).2.OnTime p now := by
  obtain ⟨-, hguard, hallow⟩ := consult_admits h
  refine ⟨?_, hguard ▸ ConnGuard.tryAdmit_self_onTime hallow now⟩
  generalize (n.consult now e).1 = event at h ⊢
  cases event with
  | versionRequest peer info dropped admitted =>
    intro _
    simp only [P2pSync.SwarmEvent.admits] at h
    split at h
    next hok =>
      rw [Bool.and_eq_true, Bool.and_eq_true, Option.isNone_iff_eq_none] at hok
      refine ⟨hok.1.1, ?_, fun _ => hok.2⟩
      rw [hok.1.2]
      exact Option.some_ne_none true |>.symm
    next => cases h
  | versionResponse request peer info admitted built =>
    intro _
    simp only [P2pSync.SwarmEvent.admits] at h
    split at h
    next hok => exact Or.inr hok
    next => cases h
  | _ => cases h

theorem length_admittedAfter (now : Instant) (n : NetNode) (e : ConnEvent) :
    ((n.consult now e).1.admittedAfter n.sync).length ≤
      (n.sync.admittedPeers.insert e.peer).length := by
  cases hadmits : (n.consult now e).1.admits n.sync with
  | none =>
    rw [P2pSync.SwarmEvent.admittedAfter_none hadmits]
    exact List.length_le_length_insert
  | some q =>
    obtain ⟨rfl, -⟩ := consult_admits hadmits
    rw [P2pSync.SwarmEvent.admittedAfter_some hadmits]

variable [Blake3]

theorem deliver_admitted (now : Instant) (event : P2pSync.SwarmEvent) (guard : ConnGuard)
    (n : NetNode) : (n.deliver now event guard).guard.admitted = guard.admitted ∧
      (n.deliver now event guard).registry = n.registry := by
  unfold deliver
  split <;> exact ⟨rfl, rfl⟩

/-- The rest of an event spares whom the event itself spares, unless they are overdue. -/
theorem deliver_spares {P : Set PeerId} {event : P2pSync.SwarmEvent} {guard : ConnGuard}
    (hnum : n.sync.Numbered)
    (hroom : P.Nonempty → (event.admittedAfter n.sync).length ≤ P2pSync.maxRuntimePeerSideTables ∧
      n.sync.pqReadyPeers.length ≤ P2pSync.maxRuntimePeerSideTables)
    (hevent : event.Spares P n.sync) (htime : ∀ q ∈ P, guard.OnTime q now) :
    ∃ base, P2pSync.Heard event n.sync base ∧
      P2pSync.Spares P base (n.deliver now event guard).sync := by
  cases hr : n.sync.handleSwarmEvent now event with
  | none =>
    exfalso
    cases event with
    | connectionEstablished peer allowed =>
      cases allowed <;> cases hr
    | _ => first | exact hevent | cases hr
  | some r =>
    obtain ⟨base, hheard, hspares⟩ := P2pSync.spares_of_event hnum hroom hevent hr
    refine ⟨base, hheard, ?_⟩
    obtain ⟨sync, more⟩ := r
    unfold deliver
    rw [hr]
    cases more with
    | false => exact hspares
    | true =>
      apply hspares.finish now
      intro q hq hin
      exact ConnGuard.not_mem_sweepTimeouts (htime q hin) hq

theorem deliver_sync (now : Instant) (event : P2pSync.SwarmEvent) (guard : ConnGuard)
    {n n' : NetNode} (h : n.sync = n'.sync) :
    (n.deliver now event guard).sync = (n'.deliver now event guard).sync := by
  unfold deliver
  rw [h]
  split <;> rfl

omit [Blake3] in
theorem unregister_sync (n : NetNode) (e : ConnEvent) : (n.unregister e).sync = n.sync := by
  cases e <;> rfl

omit [Blake3] in
theorem consult_unregister (now : Instant) (n : NetNode) (e : ConnEvent) :
    (n.unregister e).consult now e = n.consult now e := by
  cases e <;> rfl

variable {r : Report}

theorem step_registry (n : NetNode) (r : Report) :
    (n.step r).registry = (n.unregister r.event).registry := by
  refine (deliver_admitted _ _ _ _).2.trans ?_
  cases r.event <;> rfl

theorem step_admitted (n : NetNode) (r : Report) :
    (n.step r).guard.admitted = ((n.listing r).consult r.now r.event).2.admitted := by
  unfold step
  dsimp only
  rw [consult_unregister]
  exact (deliver_admitted _ _ _ _).1

/-- A step spares whom its event spares. -/
theorem step_spares {P : Set PeerId} (hnum : n.sync.Numbered)
    (hroom : P.Nonempty →
      (n.sync.admittedPeers.insert r.event.peer).length ≤ P2pSync.maxRuntimePeerSideTables ∧
      n.sync.pqReadyPeers.length ≤ P2pSync.maxRuntimePeerSideTables)
    (hevent : ((n.listing r).consult r.now r.event).1.Spares P (n.listing r).sync)
    (htime : ∀ q ∈ P, ((n.listing r).consult r.now r.event).2.OnTime q r.now) :
    ∃ base, P2pSync.Heard ((n.listing r).consult r.now r.event).1 (n.listing r).sync base ∧
      P2pSync.Spares P base (n.step r).sync := by
  have hlisted : (n.listing r).sync.Numbered := ⟨hnum.blocks, hnum.batches, hnum.versions⟩
  have hfits : P.Nonempty →
      (((n.listing r).consult r.now r.event).1.admittedAfter (n.listing r).sync).length ≤
        P2pSync.maxRuntimePeerSideTables ∧
      (n.listing r).sync.pqReadyPeers.length ≤ P2pSync.maxRuntimePeerSideTables := by
    intro hP
    exact ⟨(length_admittedAfter r.now (n.listing r) r.event).trans (hroom hP).1, (hroom hP).2⟩
  have hdelivered := deliver_spares hlisted hfits hevent htime
  have hsame : (n.step r).sync = ((n.listing r).deliver r.now
      ((n.listing r).consult r.now r.event).1 ((n.listing r).consult r.now r.event).2).sync := by
    unfold step
    dsimp only
    rw [consult_unregister]
    exact deliver_sync _ _ _ (unregister_sync _ _)
  rw [hsame]
  exact hdelivered

theorem step_numbered (hnum : n.sync.Numbered) (r : Report) : (n.step r).sync.Numbered := by
  obtain ⟨base, -, hspares⟩ := step_spares (P := ∅) (r := r) hnum
    (fun h => absurd h Set.not_nonempty_empty) (consult_spares_none r.now (n.listing r) r.event) (fun q hq => hq.elim)
  exact hspares.numbered

/-- The step that admits a peer writes it into both lists. -/
theorem step_admission (hnum : n.sync.Numbered) (h : n.Undisturbed p r)
    (hold : p ∉ n.guard.admitted) (hnew : p ∈ (n.step r).guard.admitted) :
    p ∈ (n.step r).sync.admittedPeers := by
  rw [step_admitted] at hnew
  have hadmits := admits_of_consult hnew hold
  obtain ⟨hevent, htime⟩ := consult_admission hadmits
  obtain ⟨base, hheard, hspares⟩ := step_spares hnum (fun _ => h.room) hevent (by
    rintro q rfl
    exact htime)
  apply hspares.admitted p rfl
  rw [hheard.admitted, P2pSync.SwarmEvent.admittedAfter_some hadmits]
  exact List.mem_insert_self

omit [Blake3] in
theorem unregister_wallet {w : String} (h : n.Harmless p now e)
    (hw : n.registry.identityMap[toBase58 p]? = some w) (hin : w ∈ n.registry.wallets) :
    (n.unregister e).registry.identityMap[toBase58 p]? = some w ∧
      w ∈ (n.unregister e).registry.wallets := by
  cases e with
  | connectionClosed peer =>
    have hother := h.2 w hw
    change (n.registry.unregisterByPeer (toBase58 peer)).2.identityMap[toBase58 p]? = some w ∧
      w ∈ (n.registry.unregisterByPeer (toBase58 peer)).2.wallets
    unfold EphemeralRegistry.unregisterByPeer
    split
    · exact ⟨hw, hin⟩
    · split
      next => exact ⟨hw, hin⟩
      next addr haddr =>
        have hne : w ≠ addr := fun heq => hother (heq ▸ haddr)
        have hkey : toBase58 peer ≠ toBase58 p := by
          intro heq
          rw [heq] at hother
          exact hother hw
        constructor
        · dsimp only
          rw [ExtTreeMap.getElem?_filter', Option.filter_eq_some_iff, ExtTreeMap.getElem?_erase,
            if_neg]
          · exact ⟨hw, decide_eq_true hne⟩
          · intro heq
            exact hkey (Std.compare_eq_iff_eq.mp heq)
        · exact Finset.mem_erase_of_ne_of_mem hne hin
  | _ => exact ⟨hw, hin⟩

/-- A step that disturbs nothing leaves an admitted peer everything it has. -/
theorem step_kept (hnum : n.sync.Numbered) (h : n.Undisturbed p r) (hguard : p ∈ n.guard.admitted)
    (hsync : p ∈ n.sync.admittedPeers) :
    p ∈ (n.step r).guard.admitted ∧ PeerKept p r.event.answers.toList n (n.step r) := by
  have hadmitted : n.guard.isAdmitted p = true := decide_eq_true hguard
  have hharmless : (n.listing r).Harmless p r.now r.event := by
    have hn := h.harmless hadmitted
    cases he : r.event <;> rw [he] at hn <;> exact hn
  obtain ⟨hevent, hstays, htime⟩ := consult_harmless (n := n.listing r) hguard (h.onTime hadmitted)
    hharmless
  obtain ⟨base, hheard, hspares⟩ := step_spares hnum (fun _ => h.room) hevent (by
    rintro q rfl
    exact htime)
  have hguard' : p ∈ (n.step r).guard.admitted := by
    rw [step_admitted]
    exact hstays
  have hbase : p ∈ base.admittedPeers := by
    rw [hheard.admitted, P2pSync.SwarmEvent.admittedAfter]
    split
    · exact List.mem_insert_of_mem hsync
    · exact hsync
  refine ⟨hguard', ?_, ?_, ?_, ?_, ?_, ?_⟩
  · exact ⟨fun _ => decide_eq_true hguard', fun _ => hspares.admitted p rfl hbase⟩
  · intro hready
    apply hspares.pqReady p rfl
    rw [hheard.pqReady]
    exact hready
  · intro id hid hsome
    apply hspares.versions id p rfl
    rw [hheard.versions id]
    · exact hsome
    · rw [consult_answers]
      intro heq
      exact hid (Option.mem_toList.mpr heq.symm)
  · intro id req hpeer hreq
    apply hspares.blocks id req hpeer
    rw [hheard.blocks]
    exact hreq
  · intro id req hpeer hreq
    apply hspares.batches id req hpeer
    rw [hheard.batches]
    exact hreq
  · intro w hw hin
    rw [step_registry]
    exact unregister_wallet (h.harmless hadmitted) hw hin

end Steps

/-! ### Whole runs -/

/-- The polls the reports answer. -/
def answered (reports : List Report) : List RequestId :=
  reports.flatMap fun r => r.event.answers.toList

/-- Once the guard has admitted a peer, the two lists agree on it and it keeps what it has. -/
def KeepsPeer [Blake3] (p : PeerId) (start : NetNode) (reports : List Report) : Prop :=
  ∀ pre mid, pre ++ mid <+: reports → (start.run pre).guard.isAdmitted p = true →
    PeerKept p (answered mid) (start.run pre) (start.run (pre ++ mid))

section Runs

variable [Blake3] {start : NetNode} {p : PeerId} {reports : List Report}

theorem run_append (start : NetNode) (reports : List Report) (r : Report) :
    start.run (reports ++ [r]) = (start.run reports).step r := by
  rw [run, List.foldl_append]
  rfl

theorem run_numbered (hnum : start.sync.Numbered) (reports : List Report) :
    (start.run reports).sync.Numbered := by
  induction reports using List.reverseRecOn with
  | nil => exact hnum
  | append_singleton reports r ih =>
    rw [run_append]
    exact step_numbered ih r

/-- Whom the guard lists, the runtime lists. -/
theorem run_listed (hnum : start.sync.Numbered)
    (hstart : start.guard.isAdmitted p = true → p ∈ start.sync.admittedPeers)
    (hquiet : ∀ pre r post, reports = pre ++ r :: post → (start.run pre).Undisturbed p r)
    (hadmitted : (start.run reports).guard.isAdmitted p = true) :
    p ∈ (start.run reports).sync.admittedPeers := by
  induction reports using List.reverseRecOn with
  | nil => exact hstart hadmitted
  | append_singleton reports r ih =>
    have hstep := hquiet reports r [] rfl
    rw [run_append] at hadmitted ⊢
    by_cases hold : p ∈ (start.run reports).guard.admitted
    · have hlisted := ih (fun pre r' post heq => hquiet pre r' (post ++ [r]) (by
        rw [heq, List.append_assoc, List.cons_append])) (decide_eq_true hold)
      have hkept := (step_kept (run_numbered hnum reports) hstep hold hlisted).2
      exact hkept.admitted.mpr hadmitted
    · exact step_admission (run_numbered hnum reports) hstep hold (of_decide_eq_true hadmitted)

theorem run_kept (hnum : start.sync.Numbered)
    (hstart : start.guard.isAdmitted p = true → p ∈ start.sync.admittedPeers)
    (hquiet : ∀ pre r post, reports = pre ++ r :: post → (start.run pre).Undisturbed p r)
    {pre : List Report} (mid : List Report) (hpre : pre ++ mid <+: reports)
    (hadmitted : (start.run pre).guard.isAdmitted p = true) :
    (start.run (pre ++ mid)).guard.isAdmitted p = true ∧
      PeerKept p (answered mid) (start.run pre) (start.run (pre ++ mid)) := by
  -- What is true of the steps of a run is true of the steps of its beginning.
  have hquiet' {seen : List Report} (hseen : seen <+: reports) (before : List Report) (r : Report)
      (after : List Report) (heq : seen = before ++ r :: after) :
      (start.run before).Undisturbed p r := by
    obtain ⟨rest, rfl⟩ := hseen
    apply hquiet before r (after ++ rest)
    rw [heq, List.append_assoc, List.cons_append]
  induction mid using List.reverseRecOn with
  | nil =>
    rw [List.append_nil] at hpre ⊢
    have hlisted := run_listed hnum hstart (hquiet' hpre) hadmitted
    exact ⟨hadmitted, ⟨fun _ => hadmitted, fun _ => hlisted⟩, fun h => h, fun _ _ h => h,
      fun _ _ _ h => h, fun _ _ _ h => h, fun _ hw hin => ⟨hw, hin⟩⟩
  | append_singleton mid r ih =>
    rw [← List.append_assoc] at hpre ⊢
    obtain ⟨hbefore, hkept⟩ := ih ((List.prefix_append _ _).trans hpre)
    have hstep := hquiet' hpre (pre ++ mid) r [] rfl
    obtain ⟨hguard, hnext⟩ := step_kept (run_numbered hnum (pre ++ mid)) hstep
      (of_decide_eq_true hbefore) (hkept.admitted.mpr hbefore)
    rw [run_append]
    refine ⟨decide_eq_true hguard, ?_⟩
    have hall := hkept.trans hnext
    rw [answered, List.flatMap_append, List.flatMap_singleton]
    exact hall

end Runs

/-- The connections of a peer that the reports opened and closed. -/
def opened (p : PeerId) (reports : List Report) : ℕ :=
  reports.countP fun r => match r.event with
    | .connectionEstablished peer _ => decide (peer = p)
    | _ => false

def closed (p : PeerId) (reports : List Report) : ℕ :=
  reports.countP fun r => match r.event with
    | .connectionClosed peer => decide (peer = p)
    | _ => false

/-- From its first connection on, the peer always has one open. -/
def StaysConnected (p : PeerId) (reports : List Report) : Prop :=
  ∀ pre, pre <+: reports → 0 < opened p pre → closed p pre < opened p pre

end NetNode

/-- As long as nothing disturbs an admitted peer, every order of events keeps it. -/
theorem undisturbed_peer_kept [Blake3] (p : PeerId) (start : NetNode) (reports : List Report)
    (hnum : start.sync.Numbered)
    (hstart : start.guard.isAdmitted p = true → p ∈ start.sync.admittedPeers)
    (hquiet : ∀ pre r post, reports = pre ++ r :: post → (start.run pre).Undisturbed p r) :
    start.KeepsPeer p reports := by
  intro pre mid hpre hadmitted
  exact (NetNode.run_kept hnum hstart hquiet mid hpre hadmitted).2

namespace Sample

def host : Multiaddr := [.ip4 ⟨#[10, 0, 0, 7], rfl⟩, .other]

def freshNode : NetNode := .new RockDB.empty none ⟨[], [], 0, 0, 0⟩

/-- A peer with two connections shows its version. -/
def twoConnections : List Report :=
  [⟨.connectionEstablished [1] host, 0, [[1]], []⟩,
    ⟨.connectionEstablished [1] host, 1, [[1]], []⟩,
    ⟨.versionRequest [1] boast none, 2, [[1]], []⟩]

def thirdConnection : Report := ⟨.connectionEstablished [1] host, 4, [[1]], []⟩

/-- A third connection, and the version once more. -/
def threeConnections : List Report :=
  twoConnections ++ [thirdConnection, ⟨.versionRequest [1] boast none, 5, [[1]], []⟩]

/-- Or one of the two is closed. -/
def oneClosed : List Report := twoConnections ++ [⟨.connectionClosed [1], 3, [[1]], []⟩]

theorem freshNode_numbered : freshNode.sync.Numbered := by
  refine ⟨?_, ?_, ?_⟩
  · intro id req hreq
    change (∅ : ExtTreeMap RequestId PendingBlockRequest)[id]? = some req at hreq
    rw [ExtTreeMap.getElem?_empty] at hreq
    cases hreq
  · intro id req hreq
    change (∅ : ExtTreeMap RequestId PendingBatchRequest)[id]? = some req at hreq
    rw [ExtTreeMap.getElem?_empty] at hreq
    cases hreq
  · intro id peer hpeer
    change (∅ : ExtTreeMap RequestId PeerId)[id]? = some peer at hpeer
    rw [ExtTreeMap.getElem?_empty] at hpeer
    cases hpeer

/-- Before the guard admits the peer, only the tables matter. -/
theorem undisturbed_of_unknown {n : NetNode} {r : Report} (hnew : n.guard.isAdmitted [1] = false)
    (hroom : (n.sync.admittedPeers.insert r.event.peer).length ≤ P2pSync.maxRuntimePeerSideTables ∧
      n.sync.pqReadyPeers.length ≤ P2pSync.maxRuntimePeerSideTables) : n.Undisturbed [1] r :=
  ⟨hroom, fun h => absurd h (Bool.eq_false_iff.mp hnew), fun h => absurd h (Bool.eq_false_iff.mp hnew)⟩

theorem forall_steps_cons {Q : List Report → Report → Prop} {a : Report} {rest : List Report}
    (hfirst : Q [] a) (hrest : ∀ pre r post, rest = pre ++ r :: post → Q (a :: pre) r)
    (pre : List Report) (r : Report) (post : List Report) (h : a :: rest = pre ++ r :: post) :
    Q pre r := by
  cases pre with
  | nil =>
    obtain ⟨rfl, -⟩ := List.cons.inj h
    exact hfirst
  | cons b pre =>
    rw [List.cons_append] at h
    obtain ⟨rfl, hmore⟩ := List.cons.inj h
    exact hrest pre r post hmore

theorem threeConnections_undisturbed : ∀ pre r post, threeConnections = pre ++ r :: post →
    (@NetNode.run Blake3.reference freshNode pre).Undisturbed [1] r := by
  apply forall_steps_cons
  · exact undisturbed_of_unknown (by decide) (by decide)
  apply forall_steps_cons
  · exact undisturbed_of_unknown (by decide) (by decide)
  apply forall_steps_cons
  · exact undisturbed_of_unknown (by decide +kernel) (by decide +kernel)
  apply forall_steps_cons
  · -- The peer is admitted and not waiting for a handshake.
    refine ⟨by decide +kernel, fun _ => ConnGuard.onTime_of_all (by decide +kernel), ?_⟩
    intro _ _
    exact ⟨_, rfl, by decide +kernel, Or.inr (by decide +kernel)⟩
  apply forall_steps_cons
  · -- The third connection started a new handshake, which is in time.
    refine ⟨by decide +kernel, fun _ => ConnGuard.onTime_of_all (by decide +kernel), ?_⟩
    intro _ _
    exact ⟨by decide +kernel, by decide⟩
  intro pre r post h
  cases pre <;> cases h

end Sample

theorem undisturbed_peer_kept_three :
    @NetNode.KeepsPeer Blake3.reference [1] Sample.freshNode Sample.threeConnections :=
  @undisturbed_peer_kept Blake3.reference [1] Sample.freshNode Sample.threeConnections
    Sample.freshNode_numbered (by decide +kernel) Sample.threeConnections_undisturbed

/-- A peer that still has a connection is struck off the runtime's list, not off the guard's. -/
theorem closed_connection_drops_peer :
    NetNode.StaysConnected [1] Sample.oneClosed ∧
    ¬@NetNode.KeepsPeer Blake3.reference [1] Sample.freshNode Sample.oneClosed := by
  constructor
  · intro pre hpre
    have hall : ∀ pre ∈ Sample.oneClosed.inits, 0 < NetNode.opened [1] pre →
        NetNode.closed [1] pre < NetNode.opened [1] pre := by decide +kernel
    exact hall pre ((List.mem_inits _ _).mpr hpre)
  · intro hkeeps
    have hkept := hkeeps Sample.twoConnections [⟨.connectionClosed [1], 3, [[1]], []⟩]
      List.prefix_rfl (by decide +kernel)
    have hin : [1] ∈ (@NetNode.run Blake3.reference Sample.freshNode
        Sample.oneClosed).sync.admittedPeers := hkept.admitted.mpr (by decide +kernel)
    revert hin
    decide +kernel

end Remzar
