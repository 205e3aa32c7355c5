import Mathlib
import Remzar.SyncEvents
import Remzar.Frames
import Remzar.Atomicity

/-! The sync target is a running maximum: over every event it grows by the heights that are
claimed, and by nothing else. -/
namespace Remzar
open Std Fallible Checked

namespace P2pSync
variable {s s' s'' : P2pSync} {c c' : ℕ}

/-- The target the runtime works towards. -/
def level (s : P2pSync) : ℕ := s.effectiveSyncTarget.toNat

theorem level_eq (s : P2pSync) :
    s.level = max (max s.syncTarget.toNat (s.queuedSyncTarget.getD 0).toNat) s.localTip.toNat := by
  unfold level effectiveSyncTarget
  rw [UInt64.toNat_max, UInt64.toNat_max]

/-- A height asked for, or queued to be asked for again. -/
def Wanted (s : P2pSync) (idx : UInt64) : Prop :=
  (∃ (r : RequestId) (req : PendingBlockRequest), s.pendingBlocks[r]? = some req ∧ req.idx = idx) ∨
    ∃ req ∈ s.blockQueue, req.idx = idx

/-- Nothing is counted or asked for beyond the target. -/
structure Bounded (s : P2pSync) : Prop where
  total : s.totalToDownload.toNat ≤ s.level
  wanted : ∀ idx, s.Wanted idx → idx.toNat ≤ s.level

theorem Bounded.wanted_le (hs : s.Bounded) (c : ℕ) (idx : UInt64) (h : s.Wanted idx) :
    idx.toNat ≤ max s.level c :=
  (hs.wanted idx h).trans (le_max_left _ _)

/-- A step during which a height `c` was claimed. -/
structure Raises (c : ℕ) (s s' : P2pSync) : Prop where
  tip : s'.localTip = s.localTip
  genesis : s'.genesisIsReady = s.genesisIsReady
  level : s'.level = max s.level c
  bounded : s'.Bounded

theorem Raises.refl (hs : s.Bounded) : Raises 0 s s := ⟨rfl, rfl, by omega, hs⟩

theorem Raises.trans (h : Raises c s s') (h' : Raises c' s' s'') : Raises (max c c') s s'' := by
  refine ⟨h'.tip.trans h.tip, h'.genesis.trans h.genesis, ?_, h'.bounded⟩
  rw [h'.level, h.level]
  omega

theorem Raises.then (h : Raises c s s') (h' : Raises 0 s' s'') : Raises c s s'' := by
  have hboth := h.trans h'
  rwa [Nat.max_zero] at hboth

theorem Raises.after (h : Raises 0 s s') (h' : Raises c s' s'') : Raises c s s'' := by
  have hboth := h.trans h'
  rwa [Nat.zero_max] at hboth

/-- Bounds for the fields that hold a target, and for the heights asked for. -/
theorem raises_of_fields (hdb : s'.db = s.db)
    (hexpected : s'.expectedGenesisHash = s.expectedGenesisHash)
    (hlevel : max (max s'.syncTarget.toNat (s'.queuedSyncTarget.getD 0).toNat) s.localTip.toNat =
      max s.level c)
    (htotal : s'.totalToDownload.toNat ≤ max s.level c)
    (hwanted : ∀ idx, s'.Wanted idx → idx.toNat ≤ max s.level c) : Raises c s s' := by
  have htip : s'.localTip = s.localTip := by
    unfold localTip
    rw [hdb]
  have hlevel' : s'.level = max s.level c := by
    rw [level_eq, htip]
    exact hlevel
  refine ⟨htip, ?_, hlevel', ?_, ?_⟩
  · unfold genesisIsReady
    rw [hdb, hexpected]
  · rw [hlevel']
    exact htotal
  · intro idx hidx
    rw [hlevel']
    exact hwanted idx hidx

/-- A step that leaves the targets alone and asks for no new height. -/
theorem raises_of_same (hs : s.Bounded) (hdb : s'.db = s.db)
    (hexpected : s'.expectedGenesisHash = s.expectedGenesisHash)
    (htarget : s'.syncTarget = s.syncTarget) (hqueued : s'.queuedSyncTarget = s.queuedSyncTarget)
    (htotal : s'.totalToDownload = s.totalToDownload)
    (hwanted : ∀ idx, s'.Wanted idx → s.Wanted idx) : Raises 0 s s' := by
  apply raises_of_fields hdb hexpected
  · rw [htarget, hqueued, ← level_eq]
    omega
  · rw [htotal]
    have htotal := hs.total
    omega
  · exact fun idx hidx => hs.wanted_le 0 idx (hwanted idx hidx)

/-! ### The target itself -/

theorem wanted_of_take {n : ℕ} {idx : UInt64}
    (h : { s with blockQueue := s.blockQueue.take n }.Wanted idx) : s.Wanted idx := by
  rcases h with h | ⟨req, hreq, hidx⟩
  · exact Or.inl h
  · exact Or.inr ⟨req, List.mem_of_mem_take hreq, hidx⟩

theorem maintenanceHousekeeping_raises (hs : s.Bounded) : Raises 0 s s.maintenanceHousekeeping := by
  refine raises_of_same hs rfl rfl rfl rfl rfl ?_
  intro idx hidx
  exact wanted_of_take (n := maxBlockQueue) hidx

theorem visibleTarget_toNat (hs : s.Bounded) : s.visibleTarget.toNat = s.level := by
  have htotal := hs.total
  have htip : s.localTip.toNat ≤ s.level := by
    rw [level_eq]
    exact le_max_right _ _
  unfold visibleTarget
  split
  · rw [UInt64.toNat_max, UInt64.toNat_max]
    change max (max s.level s.totalToDownload.toNat) s.localTip.toNat = s.level
    omega
  · rw [UInt64.toNat_max]
    change max s.level s.localTip.toNat = s.level
    omega

theorem visibleTotal_toNat (hs : s.Bounded) : s.visibleTotal.toNat = s.level := by
  have htotal := hs.total
  unfold visibleTotal
  split
  · rw [UInt64.toNat_max, visibleTarget_toNat hs]
    omega
  · exact visibleTarget_toNat hs

theorem refreshFlags_raises (hs : s.Bounded) : Raises 0 s s.refreshFlags := by
  have htarget := visibleTarget_toNat hs
  have hlevel := level_eq s
  refine raises_of_fields rfl rfl ?_ ?_ (hs.wanted_le 0)
  · change max (max s.visibleTarget.toNat ((if decide (s.visibleTarget ≤ s.localTip) = true then none
      else some s.visibleTarget).getD 0).toNat) s.localTip.toNat = _
    split
    · change max (max s.visibleTarget.toNat 0) s.localTip.toNat = _
      omega
    · change max (max s.visibleTarget.toNat s.visibleTarget.toNat) s.localTip.toNat = _
      omega
  · change s.visibleTotal.toNat ≤ _
    rw [visibleTotal_toNat hs]
    omega

theorem updateSyncState_raises (hs : s.Bounded) : Raises 0 s s.updateSyncState := by
  have hhouse := maintenanceHousekeeping_raises hs
  exact hhouse.then (refreshFlags_raises hhouse.bounded)

theorem updateSyncPointers_raises (hs : s.Bounded) : Raises 0 s s.updateSyncPointers := by
  unfold updateSyncPointers
  split <;> exact raises_of_same hs rfl rfl rfl rfl rfl fun _ h => h

theorem reserveBlockIdxForRequest_snd (s : P2pSync) (idx : UInt64) :
    ∃ reserved, (s.reserveBlockIdxForRequest idx).2 =
      { s with reservedBlockIndices := reserved } := by
  unfold reserveBlockIdxForRequest
  split
  · exact ⟨_, rfl⟩
  · exact ⟨s.reservedBlockIndices, rfl⟩

theorem reserveBatchIdxForRequest_snd (s : P2pSync) (idx : UInt64) :
    ∃ reserved, (s.reserveBatchIdxForRequest idx).2 =
      { s with reservedBatchIndices := reserved } := by
  unfold reserveBatchIdxForRequest
  split
  · exact ⟨_, rfl⟩
  · exact ⟨s.reservedBatchIndices, rfl⟩

/-- Whether a version response is taken as a claim of height. -/
def versionTaken (request : RequestId) (peer : PeerId) (info : VersionInfo) (admitted : Bool)
    (s : P2pSync) : Bool :=
  s.pendingVersions[request]? = some peer && info.matchesLocalChain && admitted

theorem getTipHeight_setAddrIndexHeight (db : RockDB) (height : UInt64) :
    (db.setAddrIndexHeight height).getTipHeight = db.getTipHeight := by
  unfold RockDB.setAddrIndexHeight RockDB.getTipHeight RockDB.getLatestBlockIndex
  rw [RockDB.readHeight_putHeight, RockDB.readHeight_putHeight, if_neg (by decide),
    if_neg (by decide)]

end P2pSync

/-- A sync runtime as its events leave it. -/
structure SyncState extends P2pSync where
  bounded : toP2pSync.Bounded

namespace SyncState

def new (db : RockDB) (expectedGenesisHash : Option String) (swarm : Swarm) : SyncState :=
  ⟨.new db expectedGenesisHash swarm, by
    unfold P2pSync.new
    dsimp only
    have hstart : P2pSync.Bounded
        { db, swarm, expectedGenesisHash
          syncing := false
          hasSynced := false
          totalToDownload := db.getTipHeight
          downloaded := db.getTipHeight
          pendingVersions := ∅
          pendingPq := ∅
          pqInitiators := []
          pqReadyPeers := []
          pendingBlocks := ∅
          pendingBatches := ∅
          blockQueue := []
          batchQueue := []
          reservedBlockIndices := []
          reservedBatchIndices := []
          triedGenesis := false
          lastSyncedHash := none
          lastSyncedIndex := none
          syncTarget := db.getTipHeight
          queuedSyncTarget := none
          admittedPeers := []
          branchHydration := .defaultMainnet } := by
      refine ⟨?_, ?_⟩
      · rw [P2pSync.level_eq]
        exact le_max_right _ _
      · rintro idx (⟨r, req, hreq, -⟩ | ⟨req, hreq, -⟩)
        · simp at hreq
        · cases hreq
    have hpointers := P2pSync.updateSyncPointers_raises hstart
    exact (P2pSync.updateSyncState_raises hpointers.bounded).bounded⟩

end SyncState

namespace SyncRun
variable {start s : P2pSync} {claims : List UInt64}

/-- What a run from a node that has synced keeps: the target is the highest claim or the tip. -/
structure Follows (claims : List UInt64) (s : P2pSync) : Prop where
  bounded : s.Bounded
  genesis : s.genesisIsReady = true
  level_le : ∀ n, s.level ≤ n ↔ s.localTip.toNat ≤ n ∧ ∀ c ∈ claims, c.toNat ≤ n

theorem Follows.raises {s s' : P2pSync} {new : Option UInt64} (h : Follows claims s)
    (hraises : P2pSync.Raises (new.getD 0).toNat s s') : Follows (claims ++ new.toList) s' := by
  refine ⟨hraises.bounded, hraises.genesis.trans h.genesis, ?_⟩
  intro n
  rw [hraises.level, hraises.tip, Nat.max_le, h.level_le n]
  cases new with
  | none => simp
  | some c =>
    simp only [Option.getD_some, Option.toList_some, List.mem_append, List.mem_singleton]
    constructor
    · rintro ⟨⟨htip, hall⟩, hc⟩
      refine ⟨htip, ?_⟩
      rintro d (hd | rfl)
      · exact hall d hd
      · exact hc
    · rintro ⟨htip, hall⟩
      exact ⟨⟨htip, fun d hd => hall d (Or.inl hd)⟩, hall c (Or.inr rfl)⟩

theorem Follows.quiet {s s' : P2pSync} (h : Follows claims s) (hraises : P2pSync.Raises 0 s s') :
    Follows claims s' := by
  have hnone : P2pSync.Raises ((none : Option UInt64).getD 0).toNat s s' := hraises
  simpa using h.raises hnone

end SyncRun

namespace P2pSync
variable {s : P2pSync}

end P2pSync

namespace Sample

def genesisHash : Hash :=
  hashOfWords 0x48ca1f065debb4f4291f1423c3e9da446635e6fbc39e169c2c7b4dfb25b310c9
    0x5143bc31ab6afb7e63a861abb4807dfc50611765337aa459e3470f682d210e66

def genesisOnly : RockDB :=
  RockDB.empty.put .blockmintData (RockDB.blockKey 0) (Block.codec.enc nftBlock0)

def caughtUp : SyncState := .new genesisOnly none ⟨[[1]], [[1]], 0, 0, 0⟩

/-- A peer that says it is a thousand blocks ahead. -/
def boast : VersionInfo := ⟨1, 1000, 1, "remzar", some genesisHash⟩

def asked : P2pSync := caughtUp.updateSyncState.pollPeersForHeight

def boasting : P2pSync.SwarmEvent := .versionResponse 0 [1] boast true true

end Sample

end Remzar
