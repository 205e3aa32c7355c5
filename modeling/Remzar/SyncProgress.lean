import Mathlib
import Remzar.SyncBooks
import Remzar.SyncTarget

/-! After each event a node that is behind its target has work to do, as long as there is a peer it
can ask. -/
namespace Remzar
open Std Fallible Effects Checked

namespace P2pSync
variable {s s' s'' : P2pSync}

/-- A step that leaves the store and the network alone; peers may stop being ready. -/
structure Calm (s s' : P2pSync) : Prop where
  db : s'.db = s.db
  connected : s'.swarm.connected = s.swarm.connected
  gossip : s'.swarm.gossipPeers = s.swarm.gossipPeers
  ready : s'.pqReadyPeers ⊆ s.pqReadyPeers

theorem Calm.refl (s : P2pSync) : Calm s s := ⟨rfl, rfl, rfl, List.Subset.refl _⟩

theorem Calm.trans (h : Calm s s') (h' : Calm s' s'') : Calm s s'' :=
  ⟨h'.db.trans h.db, h'.connected.trans h.connected, h'.gossip.trans h.gossip,
    List.Subset.trans h'.ready h.ready⟩

theorem calm_of_same (hdb : s'.db = s.db) (hconnected : s'.swarm.connected = s.swarm.connected)
    (hgossip : s'.swarm.gossipPeers = s.swarm.gossipPeers)
    (hready : s'.pqReadyPeers = s.pqReadyPeers) : Calm s s' :=
  ⟨hdb, hconnected, hgossip, fun _ hp => hready ▸ hp⟩

theorem cleared_subset (peers : List PeerId) : cleared peers ⊆ peers := by
  unfold cleared
  split
  · exact List.nil_subset peers
  · exact List.Subset.refl peers

theorem updateSyncState_calm (s : P2pSync) : Calm s s.updateSyncState :=
  ⟨rfl, rfl, rfl, cleared_subset s.pqReadyPeers⟩

theorem deferSyncUntilPq_calm (s : P2pSync) (desired : UInt64) :
    Calm s (s.deferSyncUntilPq desired) :=
  ⟨rfl, rfl, rfl, cleared_subset s.pqReadyPeers⟩

theorem issueBlockRequestIfAbsent_calm (hs : s.Booked) (req : PendingBlockRequest) :
    Calm s (s.issueBlockRequestIfAbsent req).2 := by
  rw [issueBlockRequestIfAbsent_eq hs]
  split
  · exact calm_of_same rfl rfl rfl rfl
  · exact .refl s

theorem issueBatchRequest_calm (hs : s.Booked) (req : PendingBatchRequest) :
    Calm s (s.issueBatchRequest req).2 := by
  rw [issueBatchRequest_eq hs]
  split
  · exact calm_of_same rfl rfl rfl rfl
  · exact .refl s

theorem requestIndexFromPeer_calm (hs : s.Booked) (peer : PeerId) (idx : UInt64) :
    Calm s (s.requestIndexFromPeer peer idx) := by
  unfold requestIndexFromPeer
  split
  · exact deferSyncUntilPq_calm s _
  · split
    · exact issueBatchRequest_calm hs _
    · exact issueBlockRequestIfAbsent_calm hs _

theorem canStartBlockSyncWithPeer_calm (s : P2pSync) (peer : PeerId) (target : UInt64) :
    Calm s (s.canStartBlockSyncWithPeer peer target).2 := by
  unfold canStartBlockSyncWithPeer
  split
  · exact .refl s
  · exact deferSyncUntilPq_calm s target

theorem requestNextBlock_calm (hs : s.Booked) (peer : PeerId) :
    Calm s (s.requestNextBlock peer) := by
  have haim : Calm s (s.aim s.effectiveSyncTarget) := calm_of_same rfl rfl rfl rfl
  have hbooked : (s.aim s.effectiveSyncTarget).Booked := hs.frame rfl le_rfl
  unfold requestNextBlock
  dsimp only
  split
  · have hstart := haim.trans (canStartBlockSyncWithPeer_calm _ peer s.effectiveSyncTarget)
    have hstarted := hbooked.canStart peer s.effectiveSyncTarget
    generalize canStartBlockSyncWithPeer peer s.effectiveSyncTarget _ = started at hstart hstarted ⊢
    split
    · exact (hstart.trans (requestIndexFromPeer_calm hstarted peer _)).trans
        (updateSyncState_calm _)
    · exact hstart.trans (updateSyncState_calm _)
  · exact (calm_of_same rfl rfl rfl rfl : Calm s { s.aim s.effectiveSyncTarget with
      queuedSyncTarget := none }).trans (updateSyncState_calm _)

/-! ### Work -/

/-- The next block is stored and its batch counts as applied: there is nothing to ask for. -/
def NextApplied (s : P2pSync) : Prop :=
  s.dbHasBlockIndex (saturatingAdd s.localTip 1) = true ∧
    saturatingAdd s.localTip 1 ≤ s.db.getAddrIndexHeight

/-- A gossip peer that blocks can be asked of. -/
def Reachable (s : P2pSync) : Prop :=
  ∃ p ∈ s.swarm.gossipPeers, s.isConnected p = true ∧ s.isPqReady p = true

theorem Calm.reachable (h : Calm s s') (hs : s'.Reachable) : s.Reachable := by
  obtain ⟨p, hp, hconnected, hready⟩ := hs
  simp only [isConnected, isPqReady, decide_eq_true_eq] at hconnected hready
  refine ⟨p, h.gossip ▸ hp, ?_, ?_⟩
  · simp only [isConnected, decide_eq_true_eq]
    exact h.connected ▸ hconnected
  · simp only [isPqReady, decide_eq_true_eq]
    exact h.ready hready

theorem Calm.nextApplied_iff (h : Calm s s') : s'.NextApplied ↔ s.NextApplied := by
  unfold NextApplied dbHasBlockIndex localTip
  rw [h.db]

/-- Nothing is out and nothing is queued. -/
structure Idle (s : P2pSync) : Prop where
  blocks : s.pendingBlocks = ∅
  blockQueue : s.blockQueue = []
  batches : s.pendingBatches = ∅
  batchQueue : s.batchQueue = []

theorem not_idle (h : ¬s.Idle) : s.hasPendingSyncBacklog = true := by
  by_contra hnone
  simp only [hasPendingSyncBacklog, Bool.or_eq_true, Bool.not_eq_true', not_or,
    Bool.not_eq_false, List.isEmpty_iff, ExtTreeMap.isEmpty_iff] at hnone
  obtain ⟨⟨⟨⟨⟨hqueue, hblocks⟩, hbatchQueue⟩, hbatches⟩, -⟩, -⟩ := hnone
  exact h ⟨hblocks, hqueue, hbatches, hbatchQueue⟩

theorem canRequestBlockIdx_of_idle (hs : s.Booked) (h : s.Idle) {idx : UInt64}
    (hnew : ¬s.dbHasBlockIndex idx = true) : s.canRequestBlockIdx idx = true := by
  have hfree : s.isBlockIdxInFlightOrReservedOrQueued idx = false := by
    simp [isBlockIdxInFlightOrReservedOrQueued, hs.blockReserved, h.blocks, h.blockQueue,
      RequestBook.values_eq_map]
  rw [canRequestBlockIdx, if_neg hnew, h.blocks, hfree]
  rfl

theorem canRequestBatchIdx_of_idle (hs : s.Booked) (h : s.Idle) {idx : UInt64}
    (hnew : ¬idx ≤ s.db.getAddrIndexHeight) : s.canRequestBatchIdx idx = true := by
  have hfree : s.isBatchIdxInFlightOrReservedOrQueued idx = false := by
    simp [isBatchIdxInFlightOrReservedOrQueued, hs.batchReserved, h.batches, h.batchQueue,
      RequestBook.values_eq_map]
  rw [canRequestBatchIdx, if_neg hnew, h.batches, hfree]
  rfl

theorem requestIndexFromPeer_works (hs : s.Booked) (hidle : s.Idle) {peer : PeerId}
    (hconnected : s.isConnected peer = true) (idx : UInt64) :
    (s.requestIndexFromPeer peer idx).hasPendingSyncBacklog = true ∨
      (s.dbHasBlockIndex idx = true ∧ idx ≤ s.db.getAddrIndexHeight) := by
  have hgo : ¬(!s.isConnected peer) = true := by simp [hconnected]
  rw [requestIndexFromPeer, if_neg hgo]
  by_cases hstored : s.dbHasBlockIndex idx = true
  · rw [if_pos hstored]
    by_cases happlied : idx ≤ s.db.getAddrIndexHeight
    · exact Or.inr ⟨hstored, happlied⟩
    · left
      rw [issueBatchRequestIfAbsent, issueBatchRequest_eq hs,
        if_pos (canRequestBatchIdx_of_idle hs hidle happlied)]
      simp [hasPendingSyncBacklog]
  · left
    rw [if_neg hstored, issueBlockRequestIfAbsent_eq hs,
      if_pos (canRequestBlockIdx_of_idle hs hidle hstored)]
    simp [hasPendingSyncBacklog]

theorem backlog_maintenanceHousekeeping (hs : s.Booked) :
    s.maintenanceHousekeeping.hasPendingSyncBacklog = s.hasPendingSyncBacklog := by
  have hblocks : s.maintenanceHousekeeping.blockQueue = s.blockQueue :=
    List.take_of_length_le hs.blocks.queue_le
  have hbatches : s.maintenanceHousekeeping.batchQueue = s.batchQueue :=
    List.take_of_length_le hs.batches.queue_le
  unfold hasPendingSyncBacklog
  rw [hblocks, hbatches]
  rfl

theorem backlog_updateSyncState (hs : s.Booked) :
    s.updateSyncState.hasPendingSyncBacklog = s.hasPendingSyncBacklog :=
  backlog_maintenanceHousekeeping hs

theorem requestNextBlock_works (hs : s.Booked) (hidle : s.Idle) {peer : PeerId}
    (hconnected : s.isConnected peer = true) (hready : s.isPqReady peer = true)
    (hbehind : s.localTip < s.effectiveSyncTarget) :
    (s.requestNextBlock peer).hasPendingSyncBacklog = true ∨ s.NextApplied := by
  have hbooked : (s.aim s.effectiveSyncTarget).Booked := hs.frame rfl le_rfl
  have hidle' : (s.aim s.effectiveSyncTarget).Idle :=
    ⟨hidle.blocks, hidle.blockQueue, hidle.batches, hidle.batchQueue⟩
  have hstart : (s.aim s.effectiveSyncTarget).canStartBlockSyncWithPeer peer
      s.effectiveSyncTarget = (true, s.aim s.effectiveSyncTarget) := by
    have husable : ((s.aim s.effectiveSyncTarget).isConnected peer &&
        (s.aim s.effectiveSyncTarget).isPqReady peer) = true := by
      rw [Bool.and_eq_true]
      exact ⟨hconnected, hready⟩
    rw [canStartBlockSyncWithPeer, if_pos husable]
  have hrequest := requestIndexFromPeer_works hbooked hidle' hconnected
    (saturatingAdd (s.aim s.effectiveSyncTarget).localTip 1)
  have hnext : s.requestNextBlock peer = ((s.aim s.effectiveSyncTarget).requestIndexFromPeer peer
      (saturatingAdd (s.aim s.effectiveSyncTarget).localTip 1)).updateSyncState := by
    have htip : (s.aim s.effectiveSyncTarget).localTip < s.effectiveSyncTarget := hbehind
    unfold requestNextBlock
    dsimp only
    rw [if_pos htip, hstart]
    rfl
  rw [hnext, backlog_updateSyncState (hbooked.requestIndex peer _)]
  exact hrequest

theorem pickIdleSyncResumePeer_of_reachable (h : s.Reachable) :
    ∃ p, s.pickIdleSyncResumePeer = some p ∧ s.isConnected p = true ∧ s.isPqReady p = true := by
  obtain ⟨p, hp, hconnected, hready⟩ := h
  cases hfind : s.swarm.gossipPeers.find? fun p => s.isConnected p && s.isPqReady p with
  | none =>
    have hnot := List.find?_eq_none.mp hfind p hp
    rw [hconnected, hready] at hnot
    exact absurd rfl hnot
  | some q =>
    have hq := List.find?_some hfind
    rw [Bool.and_eq_true] at hq
    refine ⟨q, ?_, hq⟩
    rw [pickIdleSyncResumePeer, hfind]
    rfl

/-- An idle node as it asks for the next block again. -/
def resumed (s : P2pSync) : P2pSync :=
  { s.aim s.effectiveSyncTarget with
    queuedSyncTarget := some s.effectiveSyncTarget
    syncing := true
    hasSynced := false }

theorem resumed_calm (s : P2pSync) : Calm s s.resumed := calm_of_same rfl rfl rfl rfl

theorem resumed_booked (hs : s.Booked) : s.resumed.Booked := hs.frame rfl le_rfl

theorem resumed_idle (h : s.Idle) : s.resumed.Idle :=
  ⟨h.blocks, h.blockQueue, h.batches, h.batchQueue⟩

theorem resumed_behind (h : s.localTip < s.effectiveSyncTarget) :
    s.resumed.localTip < s.resumed.effectiveSyncTarget := by
  rw [UInt64.lt_iff_toNat_lt] at h ⊢
  have hlevel := level_eq s.resumed
  have htarget : s.resumed.syncTarget = s.effectiveSyncTarget := rfl
  have htip : s.resumed.localTip = s.localTip := rfl
  rw [htarget] at hlevel
  unfold level at hlevel
  rw [htip]
  omega

theorem resumed_of_behind (h : s.Idle) (htip : s.localTip < s.effectiveSyncTarget) :
    (s.resumed.pickIdleSyncResumePeer = none →
      s.reissueIdleSyncWorkIfNeeded = s.resumed.updateSyncState) ∧
    ∀ peer, s.resumed.pickIdleSyncResumePeer = some peer →
      s.reissueIdleSyncWorkIfNeeded = s.resumed.requestNextBlock peer := by
  have hidle : (s.pendingBlocks.isEmpty && s.blockQueue.isEmpty && s.pendingBatches.isEmpty &&
      s.batchQueue.isEmpty) = true := by
    simp [h.blocks, h.blockQueue, h.batches, h.batchQueue]
  have hgo : ¬(s.effectiveSyncTarget ≤ s.localTip ∨ (!(s.pendingBlocks.isEmpty &&
      s.blockQueue.isEmpty && s.pendingBatches.isEmpty && s.batchQueue.isEmpty)) = true) := by
    rw [hidle]
    simpa using htip
  have hexpected : (s.syncing || s.queuedSyncTarget.isSome ||
      decide (s.localTip < s.syncTarget)) = true := by
    by_contra hnone
    simp only [Bool.or_eq_true, decide_eq_true_eq, not_or, UInt64.not_lt,
      Option.not_isSome_iff_eq_none] at hnone
    obtain ⟨⟨-, hqueued⟩, htarget⟩ := hnone
    have hlevel := level_eq s
    rw [hqueued] at hlevel
    have hzero : ((none : Option UInt64).getD 0).toNat = 0 := rfl
    rw [UInt64.lt_iff_toNat_lt] at htip
    rw [UInt64.le_iff_toNat_le] at htarget
    unfold level at hlevel
    omega
  unfold reissueIdleSyncWorkIfNeeded
  dsimp only
  rw [if_neg hgo, if_pos hexpected]
  refine ⟨fun hpick => ?_, fun peer hpick => ?_⟩
  · rw [resumed] at hpick
    rw [hpick]
    rfl
  · rw [resumed] at hpick
    rw [hpick]
    rfl

theorem reissue_of_idle_behind (hs : s.Booked) (hidle : s.Idle)
    (htip : s.localTip < s.effectiveSyncTarget) :
    Calm s s.reissueIdleSyncWorkIfNeeded ∧ (s.Reachable →
      s.reissueIdleSyncWorkIfNeeded.hasPendingSyncBacklog = true ∨ s.NextApplied) := by
  obtain ⟨hnone, hsome⟩ := resumed_of_behind hidle htip
  have hcalm := resumed_calm s
  have hbooked := resumed_booked hs
  cases hpick : s.resumed.pickIdleSyncResumePeer with
  | none =>
    rw [hnone hpick]
    refine ⟨hcalm.trans (updateSyncState_calm _), fun hpeer => ?_⟩
    obtain ⟨p, hp, -⟩ := pickIdleSyncResumePeer_of_reachable (s := s.resumed) hpeer
    rw [hpick] at hp
    cases hp
  | some peer =>
    rw [hsome peer hpick]
    refine ⟨hcalm.trans (requestNextBlock_calm hbooked peer), fun hpeer => ?_⟩
    obtain ⟨p, hp, hconnected, hready⟩ :=
      pickIdleSyncResumePeer_of_reachable (s := s.resumed) hpeer
    rw [hpick] at hp
    cases hp
    exact requestNextBlock_works hbooked (resumed_idle hidle) hconnected hready
      (resumed_behind htip)

theorem reissue_of_busy (h : ¬s.Idle) : s.reissueIdleSyncWorkIfNeeded = s := by
  have hbusy : (s.pendingBlocks.isEmpty && s.blockQueue.isEmpty && s.pendingBatches.isEmpty &&
      s.batchQueue.isEmpty) = false := by
    rw [Bool.eq_false_iff]
    simp only [ne_eq, Bool.and_eq_true, List.isEmpty_iff, ExtTreeMap.isEmpty_iff]
    exact fun hidle => h ⟨hidle.1.1.1, hidle.1.1.2, hidle.1.2, hidle.2⟩
  rw [reissueIdleSyncWorkIfNeeded]
  exact if_pos (Or.inr (by rw [hbusy]; rfl))

theorem reissue_of_level (h : ¬s.localTip < s.effectiveSyncTarget) :
    s.reissueIdleSyncWorkIfNeeded = s := by
  rw [reissueIdleSyncWorkIfNeeded]
  exact if_pos (Or.inl (UInt64.not_lt.mp h))

theorem reissue_calm (hs : s.Booked) : Calm s s.reissueIdleSyncWorkIfNeeded := by
  by_cases hidle : s.Idle
  · by_cases htip : s.localTip < s.effectiveSyncTarget
    · exact (reissue_of_idle_behind hs hidle htip).1
    · rw [reissue_of_level htip]
      exact .refl s
  · rw [reissue_of_busy hidle]
    exact .refl s

/-- A node that is behind keeps its work, or gets some. -/
theorem reissue_works (hs : s.Booked) (hpeer : s.reissueIdleSyncWorkIfNeeded.Reachable)
    (hbehind : s.localTip < s.reissueIdleSyncWorkIfNeeded.effectiveSyncTarget) :
    s.reissueIdleSyncWorkIfNeeded.hasPendingSyncBacklog = true ∨ s.NextApplied := by
  by_cases hidle : s.Idle
  · by_cases htip : s.localTip < s.effectiveSyncTarget
    · exact (reissue_of_idle_behind hs hidle htip).2 ((reissue_calm hs).reachable hpeer)
    · rw [reissue_of_level htip] at hbehind
      exact absurd hbehind htip
  · left
    rw [reissue_of_busy hidle]
    exact not_idle hidle

/-! ### After an event -/

theorem drive_calm (now : Instant) (s : P2pSync) : Calm s (s.driveBranchHydrationRequests now) :=
  calm_of_same rfl rfl rfl rfl

/-- Without work the flags keep the target of the node. -/
theorem level_updateSyncState (hs : s.Booked) (h : s.hasPendingSyncBacklog = false) :
    s.updateSyncState.level = s.level := by
  have hkept : s.maintenanceHousekeeping.hasPendingSyncBacklog = false :=
    (backlog_maintenanceHousekeeping hs).trans h
  have hvisible : s.updateSyncState.syncTarget.toNat = s.level := by
    have htarget : s.updateSyncState.syncTarget = max s.effectiveSyncTarget s.localTip := by
      change s.maintenanceHousekeeping.visibleTarget = _
      rw [visibleTarget, if_neg (by rw [hkept]; exact Bool.false_ne_true)]
      rfl
    have hlevel := level_eq s
    rw [htarget, UInt64.toNat_max]
    unfold level at hlevel ⊢
    omega
  have hqueued : (s.updateSyncState.queuedSyncTarget.getD 0).toNat ≤ s.level := by
    have hchoice : s.updateSyncState.queuedSyncTarget =
        if decide (s.maintenanceHousekeeping.visibleTarget ≤ s.localTip) then none
        else some s.updateSyncState.syncTarget := rfl
    rw [hchoice]
    split
    · exact Nat.zero_le _
    · exact hvisible.le
  have htip : s.updateSyncState.localTip = s.localTip := rfl
  have hlevel := level_eq s
  rw [level_eq s.updateSyncState, hvisible, htip]
  omega

/-- What the handler does last leaves a node that is behind with work. -/
theorem finish_works (hs : s.Booked) (now : Instant)
    (hlast : (s.reissueIdleSyncWorkIfNeeded.driveBranchHydrationRequests now).updateSyncState = s')
    (hpeer : s'.Reachable) (hbehind : s'.localTip.toNat < s'.level) :
    s'.hasPendingSyncBacklog = true ∨ s'.NextApplied := by
  subst hlast
  have hreissued := hs.reissue
  have hcalm := reissue_calm hs
  have hworks := reissue_works hs
  generalize s.reissueIdleSyncWorkIfNeeded = s₁ at *
  have hdriven := hreissued.drive now
  have hend : Calm s₁ (s₁.driveBranchHydrationRequests now).updateSyncState :=
    (drive_calm now s₁).trans (updateSyncState_calm _)
  rw [backlog_updateSyncState hdriven, (hcalm.trans hend).nextApplied_iff]
  cases hbacklog : s₁.hasPendingSyncBacklog with
  | true => exact Or.inl hbacklog
  | false =>
    -- With no work left the flags keep the target, so that the node was behind before them as well.
    rw [level_updateSyncState hdriven hbacklog] at hbehind
    have htip : s₁.localTip = s.localTip := congrArg RockDB.getTipHeight hcalm.db
    refine hworks (hend.reachable hpeer) ?_
    rw [← htip, UInt64.lt_iff_toNat_lt]
    exact hbehind

theorem level_of_synced (h : s.updateSyncState.hasSynced = true) :
    s.updateSyncState.level = s.updateSyncState.localTip.toNat := by
  have htip : s.maintenanceHousekeeping.visibleTarget ≤ s.localTip := by
    have hboth : (s.maintenanceHousekeeping.genesisIsReady &&
      decide (s.maintenanceHousekeeping.visibleTarget ≤ s.localTip)) = true := h
    rw [Bool.and_eq_true, decide_eq_true_eq] at hboth
    exact hboth.2
  have htarget : s.updateSyncState.syncTarget ≤ s.updateSyncState.localTip := htip
  have hqueued : s.updateSyncState.queuedSyncTarget = none := by
    change (if decide (s.maintenanceHousekeeping.visibleTarget ≤ s.localTip) then none
      else _) = none
    rw [if_pos (decide_eq_true htip)]
  have hzero : ((none : Option UInt64).getD 0).toNat = 0 := rfl
  rw [level_eq, hqueued, hzero, Nat.max_zero, Nat.max_eq_right (UInt64.le_iff_toNat_le.mp htarget)]

end P2pSync

namespace SyncNode
open P2pSync

theorem getTipHeight_of_columns {db db' : RockDB} (h : db'.column = db.column) :
    db'.getTipHeight = db.getTipHeight := by
  have hglobal : db'.column .global = db.column .global := congrFun h .global
  unfold RockDB.getTipHeight RockDB.getLatestBlockIndex
  rw [RockDB.readHeight_congr hglobal, RockDB.readHeight_congr hglobal]

theorem noteApplied_inv [Blake3] (n : SyncNode) : n.noteApplied = n ∨
    (n.sync.hasSynced = true ∧ n.noteApplied.sync.localTip = n.sync.localTip ∧
      n.noteApplied.sync.level = n.sync.level) := by
  unfold SyncNode.noteApplied
  split
  next h =>
    right
    simp only [Bool.and_eq_true] at h
    have htip : ((n.withChain (reloadFromDb n.chain)).onDb fun db =>
        db.setAddrIndexHeight n.sync.localTip).sync.localTip = n.sync.localTip :=
      (getTipHeight_setAddrIndexHeight _ _).trans
        (getTipHeight_of_columns (reloadFromDbToHeight_columns _ n.chain))
    refine ⟨h.1.1, htip, ?_⟩
    rw [level_eq, level_eq, htip]
    rfl
  next => exact Or.inl rfl

/-- After every event that is handled, a node that is below its target and has a peer it can ask has
a request out or queued, unless the next block is there already and counts as applied. -/
theorem behind_node_at_work [Blake3] (db : RockDB) (expectedGenesisHash : Option String)
    (swarm : Swarm) (tree : AccountModelTree) (fork : ReForkConfig) (miner : Option Miner)
    (steps : List NodeStep) (n : SyncNode)
    (hrun : steps.foldl next (start db expectedGenesisHash swarm tree fork miner) = n)
    (now : Instant) (clock : Int64) (timedOut : List PeerId) (event : SwarmEvent)
    (refused : Option Bool) (hhandled : (n.handleEvent now clock (.swarm event refused)).2 = true)
    (s : P2pSync) (hafter : (n.onEvent now clock timedOut (.swarm event refused)).sync = s)
    (hpeer : ∃ p ∈ s.swarm.gossipPeers, s.isConnected p = true ∧ s.isPqReady p = true)
    (hbehind : s.localTip < s.effectiveSyncTarget) :
    s.hasPendingSyncBacklog = true ∨ s.dbHasBlockIndex (saturatingAdd s.localTip 1) = true ∧
      saturatingAdd s.localTip 1 ≤ s.db.getAddrIndexHeight := by
  have hbooked : n.Booked :=
    hrun ▸ booked_run (booked_start db expectedGenesisHash swarm tree fork miner) steps
  have hevent := hbooked.handleEvent now clock (.swarm event refused)
  unfold onEvent at hafter
  generalize n.handleEvent now clock (.swarm event refused) = handled at hhandled hevent hafter
  obtain ⟨n₁, ok⟩ := handled
  cases hhandled
  dsimp only at hafter
  have hdrained := (P2pSync.Booked.dropAll hevent now timedOut).drain
  rw [UInt64.lt_iff_toNat_lt] at hbehind
  unfold SyncNode.finish at hafter
  generalize hlast : n₁.onSync _ = n₂ at hafter
  have hsync : (((timedOut.foldl (P2pSync.dropTimedOut now) n₁.sync).drainQueues
      |>.reissueIdleSyncWorkIfNeeded).driveBranchHydrationRequests now).updateSyncState = n₂.sync :=
    hlast ▸ rfl
  rcases noteApplied_inv n₂ with hsame | ⟨hsynced, htip, hlevel⟩
  · rw [hsame] at hafter
    exact finish_works hdrained now (hsync.trans hafter) hpeer hbehind
  · rw [hafter] at htip hlevel
    rw [← hsync] at hsynced htip hlevel
    have hreached : s.level = s.localTip.toNat := by
      rw [hlevel, htip]
      exact level_of_synced hsynced
    exact absurd hbehind (Nat.not_lt.mpr hreached.le)

end SyncNode

namespace Sample

/-- A node with a genesis block and one peer, which boasts and then opens a secure session. -/
def joining [Blake3] : SyncNode :=
  [.poll, .event 0 0 [] (.swarm boasting none),
    .event 0 0 [] (.swarm (.pqRequest [1] none true) none)].foldl SyncNode.next
    (SyncNode.start genesisOnly none ⟨[[1]], [[1]], 0, 0, 0⟩ .withManager .mainnetDefault none)

def joined [Blake3] : P2pSync := (joining.onEvent 0 0 [] (.swarm .other none)).sync

end Sample

theorem behind_node_at_work_sample :
    (@Sample.joined Blake3.reference).hasPendingSyncBacklog = true ∨
    (@Sample.joined Blake3.reference).dbHasBlockIndex
        (saturatingAdd (@Sample.joined Blake3.reference).localTip 1) = true ∧
      saturatingAdd (@Sample.joined Blake3.reference).localTip 1 ≤
        (@Sample.joined Blake3.reference).db.getAddrIndexHeight :=
  @SyncNode.behind_node_at_work Blake3.reference _ _ _ _ _ _ _ _ rfl 0 0 [] .other none
    (by decide +kernel) _ rfl (by decide +kernel) (by decide +kernel)

end Remzar
