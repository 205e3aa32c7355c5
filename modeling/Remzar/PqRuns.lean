import Mathlib
import Remzar.PqBooks
import Remzar.SyncTarget

/-! Runs of the post-quantum handshake: as long as every answer comes from the peer that was asked,
the requests that are out and the key pairs kept for them are of the same peers, one each. -/
namespace Remzar
open Std Checked
namespace P2pSync
variable {s s' s₁ s₂ : P2pSync} {peer : PeerId}

/-! ### The books -/

structure PqBooks (s : P2pSync) : Prop where
  once : ∀ (i j : RequestId) p, s.pendingPq[i]? = some p → s.pendingPq[j]? = some p → i = j
  initiators : ∀ p, p ∈ s.pqInitiators ↔ ∃ i : RequestId, s.pendingPq[i]? = some p
  ready : ∀ p ∈ s.pqReadyPeers, p ∉ s.pqInitiators
  bounded : s.pendingPq.size ≤ maxPendingPq
  numbered : ∀ (i : RequestId) p, s.pendingPq[i]? = some p → i < s.swarm.nextPqId
  initiatorsNodup : s.pqInitiators.Nodup
  readyNodup : s.pqReadyPeers.Nodup

/-- What the books say of a peer. -/
structure SameEntries (s s' : P2pSync) (p : PeerId) : Prop where
  pending : ∀ i : RequestId, s'.pendingPq[i]? = some p ↔ s.pendingPq[i]? = some p
  initiator : p ∈ s'.pqInitiators ↔ p ∈ s.pqInitiators

namespace SameEntries
variable {p : PeerId}

theorem refl (s : P2pSync) (p : PeerId) : SameEntries s s p := ⟨fun _ => Iff.rfl, Iff.rfl⟩

theorem trans (h : SameEntries s s₁ p) (h' : SameEntries s₁ s₂ p) : SameEntries s s₂ p :=
  ⟨fun i => (h'.pending i).trans (h.pending i), h'.initiator.trans h.initiator⟩

end SameEntries

/-- What work about some peers does to the books, when at most `n` peers become ready. -/
structure Touches (mine : PeerId → Prop) (n : ℕ) (s s' : P2pSync) : Prop where
  books : s'.PqBooks
  others : ∀ p, ¬mine p → SameEntries s s' p
  ready : s.pqReadyPeers.length+n ≤ maxRuntimePeerSideTables →
    s'.pqReadyPeers.length ≤ s.pqReadyPeers.length+n ∧
      ∀ p, ¬mine p → (p ∈ s'.pqReadyPeers ↔ p ∈ s.pqReadyPeers)

namespace Touches
variable {mine : PeerId → Prop} {m n : ℕ}

theorem refl (hs : s.PqBooks) : Touches mine 0 s s :=
  ⟨hs, fun p _ => .refl s p, fun _ => ⟨le_rfl, fun _ _ => Iff.rfl⟩⟩

/-- One thing after another. -/
theorem and_then (h : Touches mine m s s₁) (h' : Touches mine n s₁ s₂) :
    Touches mine (m+n) s s₂ := by
  refine ⟨h'.books, fun p hp => (h.others p hp).trans (h'.others p hp), fun hroom => ?_⟩
  obtain ⟨hlen, hready⟩ := h.ready (by omega)
  obtain ⟨hlen', hready'⟩ := h'.ready (by omega)
  exact ⟨by omega, fun p hp => (hready' p hp).trans (hready p hp)⟩

theorem mono {mine' : PeerId → Prop} (h : Touches mine n s s') (hmine : ∀ p, mine p → mine' p) :
    Touches mine' n s s' :=
  ⟨h.books, fun p hp => h.others p fun hmem => hp (hmine p hmem), fun hroom =>
    ⟨(h.ready hroom).1, fun p hp => (h.ready hroom).2 p fun hmem => hp (hmine p hmem)⟩⟩

theorem weaken (h : Touches mine 0 s s') : Touches mine n s s' := by
  refine ⟨h.books, h.others, fun hroom => ?_⟩
  obtain ⟨hlen, hready⟩ := h.ready (by omega)
  exact ⟨by omega, hready⟩

end Touches

theorem cleared_of_le {peers : List PeerId} (h : peers.length ≤ maxRuntimePeerSideTables) :
    cleared peers = peers := if_neg (Nat.not_lt.mpr h)

theorem mem_of_mem_cleared {peers : List PeerId} {p : PeerId} (h : p ∈ cleared peers) :
    p ∈ peers := by
  unfold cleared at h
  split at h
  · cases h
  · exact h

theorem nodup_cleared {peers : List PeerId} (h : peers.Nodup) : (cleared peers).Nodup := by
  unfold cleared
  split
  · exact List.nodup_nil
  · exact h

theorem length_cleared_le (peers : List PeerId) : (cleared peers).length ≤ peers.length := by
  unfold cleared
  split
  · exact Nat.zero_le _
  · exact le_rfl

theorem SamePq.touches (h : SamePq s s') (hs : s.PqBooks) (mine : PeerId → Prop) :
    Touches mine 0 s s' := by
  have hready : ∀ p ∈ s'.pqReadyPeers, p ∈ s.pqReadyPeers := by
    intro p hp
    rcases h.ready with he | he
    · exact he ▸ hp
    · exact mem_of_mem_cleared (he ▸ hp)
  refine ⟨⟨?_, ?_, ?_, ?_, ?_, ?_, ?_⟩, fun p _ => ⟨fun i => ?_, ?_⟩, fun hroom => ?_⟩
  · rw [h.pending]
    exact hs.once
  · rw [h.pending, h.initiators]
    exact hs.initiators
  · rw [h.initiators]
    exact fun p hp => hs.ready p (hready p hp)
  · rw [h.pending]
    exact hs.bounded
  · rw [h.pending, h.nextId]
    exact hs.numbered
  · rw [h.initiators]
    exact hs.initiatorsNodup
  · rcases h.ready with he | he
    · exact he ▸ hs.readyNodup
    · exact he ▸ nodup_cleared hs.readyNodup
  · rw [h.pending]
  · rw [h.initiators]
  · have hsame : s'.pqReadyPeers = s.pqReadyPeers := by
      rcases h.ready with he | he
      · exact he
      · rw [he, cleared_of_le (by omega)]
    rw [hsame]
    exact ⟨le_rfl, fun _ _ => Iff.rfl⟩

/-! ### A peer's entries are dropped -/

/-- The requests to a peer and the key pair kept for it are gone. -/
structure Drops (peer : PeerId) (s s' : P2pSync) : Prop where
  pending : ∀ (i : RequestId) p, s'.pendingPq[i]? = some p ↔ s.pendingPq[i]? = some p ∧ p ≠ peer
  size : s'.pendingPq.size ≤ s.pendingPq.size
  initiators : s.pqInitiators.Nodup → s'.pqInitiators.Nodup ∧
    ∀ p, p ∈ s'.pqInitiators ↔ p ∈ s.pqInitiators ∧ p ≠ peer
  nextId : s'.swarm.nextPqId = s.swarm.nextPqId

namespace Drops

theorem of_filter (hpending : s'.pendingPq = s.pendingPq.filter fun _ p => decide (p ≠ peer))
    (hinitiators : s'.pqInitiators = s.pqInitiators.erase peer)
    (hnext : s'.swarm.nextPqId = s.swarm.nextPqId) : Drops peer s s' := by
  refine ⟨fun i p => ?_, ?_, fun hnodup => ?_, hnext⟩
  · rw [hpending, ExtTreeMap.getElem?_filter', Option.filter_eq_some_iff, decide_eq_true_iff]
  · rw [hpending]
    exact ExtTreeMap.size_filter_le_size
  · rw [hinitiators]
    refine ⟨hnodup.erase peer, fun p => ?_⟩
    rw [hnodup.mem_erase_iff, and_comm]

/-- So they are when an answer to one of the requests was taken off first. -/
theorem of_answered {request : RequestId} (hrequest : s.pendingPq[request]? = some peer)
    {initiators : List PeerId} (hinitiators : initiators = s.pqInitiators ∨
      initiators = s.pqInitiators.erase peer)
    (h : Drops peer { s with
      pendingPq := s.pendingPq.erase request
      pqInitiators := initiators } s') : Drops peer s s' := by
  refine ⟨fun i p => ?_, ?_, fun hnodup => ?_, h.nextId⟩
  · rw [h.pending, ExtTreeMap.getElem?_erase]
    constructor
    · rintro ⟨hi, hp⟩
      split at hi
      · cases hi
      · exact ⟨hi, hp⟩
    · rintro ⟨hi, hp⟩
      rw [if_neg]
      · exact ⟨hi, hp⟩
      · intro heq
        rw [LawfulEqCmp.compare_eq_iff_eq] at heq
        rw [← heq, hrequest] at hi
        exact hp (Option.some_inj.mp hi).symm
  · exact h.size.trans ExtTreeMap.size_erase_le
  · rcases hinitiators with rfl | rfl
    · exact h.initiators hnodup
    · obtain ⟨hnodup', hmem⟩ := h.initiators (hnodup.erase peer)
      refine ⟨hnodup', fun p => ?_⟩
      rw [hmem]
      change p ∈ s.pqInitiators.erase peer ∧ p ≠ peer ↔ _
      rw [hnodup.mem_erase_iff]
      tauto

theorem touches (h : Drops peer s s') (hs : s.PqBooks) {n : ℕ}
    (hready : ∀ p ∈ s'.pqReadyPeers, p = peer ∨ p ∈ s.pqReadyPeers)
    (hnodup : s'.pqReadyPeers.Nodup)
    (hroom : s.pqReadyPeers.length+n ≤ maxRuntimePeerSideTables →
      s'.pqReadyPeers.length ≤ s.pqReadyPeers.length+n ∧
        ∀ p, p ≠ peer → (p ∈ s'.pqReadyPeers ↔ p ∈ s.pqReadyPeers)) :
    Touches (· = peer) n s s' := by
  obtain ⟨hinodup, hinitiators⟩ := h.initiators hs.initiatorsNodup
  refine ⟨⟨?_, ?_, ?_, ?_, ?_, hinodup, hnodup⟩, fun p hp => ⟨fun i => ?_, ?_⟩, hroom⟩
  · intro i j p hi hj
    exact hs.once i j p ((h.pending i p).mp hi).1 ((h.pending j p).mp hj).1
  · intro p
    rw [hinitiators, hs.initiators]
    simp only [h.pending, exists_and_right]
  · intro p hp hmem
    obtain ⟨hmem, hne⟩ := (hinitiators p).mp hmem
    rcases hready p hp with heq | hold
    · exact hne heq
    · exact hs.ready p hold hmem
  · exact h.size.trans hs.bounded
  · intro i p hi
    rw [h.nextId]
    exact hs.numbered i p ((h.pending i p).mp hi).1
  · rw [h.pending, and_iff_left hp]
  · rw [hinitiators, and_iff_left hp]

end Drops

theorem clearPqPeerState_drops (peer : PeerId) (s : P2pSync) :
    Drops peer s (s.clearPqPeerState peer) := .of_filter rfl rfl rfl

theorem markPqReady_fields (peer : PeerId) (s : P2pSync) :
    (s.markPqReady peer).pendingPq = s.pendingPq.filter (fun _ p => decide (p ≠ peer)) ∧
      (s.markPqReady peer).pqInitiators = s.pqInitiators.erase peer ∧
      (s.markPqReady peer).swarm = s.swarm ∧
      (s.markPqReady peer).pqReadyPeers = cleared (s.pqReadyPeers.insert peer) := by
  unfold markPqReady
  dsimp only
  split
  · exact ⟨rfl, rfl, rfl, rfl⟩
  · rename_i hroom
    exact ⟨rfl, rfl, rfl, (if_neg hroom).symm⟩

theorem markPqReady_drops (peer : PeerId) (s : P2pSync) : Drops peer s (s.markPqReady peer) := by
  obtain ⟨hpending, hinitiators, hswarm, -⟩ := markPqReady_fields peer s
  exact .of_filter hpending hinitiators (congrArg Swarm.nextPqId hswarm)

theorem clearPqPeerState_touches (hs : s.PqBooks) (peer : PeerId) :
    Touches (· = peer) 0 s (s.clearPqPeerState peer) := by
  have hready : (s.clearPqPeerState peer).pqReadyPeers = cleared (s.pqReadyPeers.erase peer) := rfl
  have hlen := (s.pqReadyPeers.erase_sublist (a := peer)).length_le
  refine (clearPqPeerState_drops peer s).touches hs ?_ ?_ fun hroom => ?_
  · intro p hp
    rw [hready] at hp
    exact .inr (List.mem_of_mem_erase (mem_of_mem_cleared hp))
  · rw [hready]
    exact nodup_cleared (hs.readyNodup.erase peer)
  · rw [hready, cleared_of_le (by omega)]
    exact ⟨hlen, fun p hp => List.mem_erase_of_ne hp⟩

/-- A peer whose state was cleared is not ready. -/
theorem not_mem_ready_clearPqPeerState (hs : s.PqBooks) (peer : PeerId) :
    peer ∉ (s.clearPqPeerState peer).pqReadyPeers := fun h =>
  hs.readyNodup.not_mem_erase (mem_of_mem_cleared h)

theorem markPqReady_ready_touches {s₀ : P2pSync} (hs : s₀.PqBooks) (hdrops : Drops peer s₀ s')
    (hready : s'.pqReadyPeers = cleared (s₀.pqReadyPeers.insert peer)) :
    Touches (· = peer) 1 s₀ s' := by
  have hlen : (s₀.pqReadyPeers.insert peer).length ≤ s₀.pqReadyPeers.length+1 := by
    rw [List.length_insert]
    split
    · exact Nat.le_succ _
    · exact le_rfl
  refine hdrops.touches hs ?_ ?_ fun hroom => ?_
  · intro p hp
    rw [hready] at hp
    exact List.mem_insert_iff.mp (mem_of_mem_cleared hp)
  · rw [hready]
    exact nodup_cleared (hs.readyNodup.insert)
  · rw [hready, cleared_of_le (hlen.trans hroom)]
    refine ⟨hlen, fun p hp => ?_⟩
    rw [List.mem_insert_iff, or_iff_right hp]

theorem markPqReady_touches (hs : s.PqBooks) (peer : PeerId) :
    Touches (· = peer) 1 s (s.markPqReady peer) :=
  markPqReady_ready_touches hs (markPqReady_drops peer s) (markPqReady_fields peer s).2.2.2

/-- A new request has a number of its own. -/
theorem offered_touches (hs : s.PqBooks) (hpeer : peer ∉ s.pqInitiators)
    (hready : peer ∉ s.pqReadyPeers) (hroom : s.pendingPq.size < maxPendingPq)
    (hpending : s'.pendingPq = s.pendingPq.insert s.swarm.nextPqId peer)
    (hinitiators : s'.pqInitiators = s.pqInitiators.insert peer)
    (hnext : s'.swarm.nextPqId = s.swarm.nextPqId+1) (hsame : s'.pqReadyPeers = s.pqReadyPeers) :
    Touches (· = peer) 0 s s' := by
  have hread : ∀ (i : RequestId) p, s'.pendingPq[i]? = some p ↔
      i = s.swarm.nextPqId ∧ p = peer ∨ s.pendingPq[i]? = some p := by
    intro i p
    rw [hpending, ExtTreeMap.getElem?_insert]
    split
    · rename_i heq
      rw [LawfulEqCmp.compare_eq_iff_eq] at heq
      constructor
      · intro h
        exact .inl ⟨heq.symm, (Option.some_inj.mp h).symm⟩
      · rintro (⟨-, rfl⟩ | h)
        · rfl
        · exact absurd (heq ▸ hs.numbered i p h) (Nat.lt_irrefl _)
    · rename_i hne
      rw [LawfulEqCmp.compare_eq_iff_eq] at hne
      constructor
      · exact .inr
      · rintro (⟨heq, -⟩ | h)
        · exact absurd heq.symm hne
        · exact h
  have hfree : ∀ i : RequestId, s.pendingPq[i]? ≠ some peer := fun i hi =>
    hpeer ((hs.initiators peer).mpr ⟨i, hi⟩)
  refine ⟨⟨?_, ?_, ?_, ?_, ?_, ?_, ?_⟩, fun p hp => ⟨fun i => ?_, ?_⟩, fun _ => ?_⟩
  · intro i j p hi hj
    rcases (hread i p).mp hi with ⟨rfl, rfl⟩ | hi
    · rcases (hread j p).mp hj with ⟨rfl, -⟩ | hj
      · rfl
      · exact absurd hj (hfree j)
    · rcases (hread j p).mp hj with ⟨rfl, rfl⟩ | hj
      · exact absurd hi (hfree i)
      · exact hs.once i j p hi hj
  · intro p
    rw [hinitiators, List.mem_insert_iff, hs.initiators]
    simp only [hread]
    constructor
    · rintro (rfl | ⟨i, hi⟩)
      · exact ⟨_, .inl ⟨rfl, rfl⟩⟩
      · exact ⟨i, .inr hi⟩
    · rintro ⟨i, ⟨-, rfl⟩ | hi⟩
      · exact .inl rfl
      · exact .inr ⟨i, hi⟩
  · rw [hsame, hinitiators]
    intro p hp hmem
    rcases List.mem_insert_iff.mp hmem with rfl | hmem
    · exact hready hp
    · exact hs.ready p hp hmem
  · rw [hpending]
    exact (ExtTreeMap.size_insert_le).trans hroom
  · intro i p hi
    rw [hnext]
    rcases (hread i p).mp hi with ⟨rfl, -⟩ | hi
    · exact Nat.lt_succ_self _
    · exact (hs.numbered i p hi).trans (Nat.lt_succ_self _)
  · rw [hinitiators]
    exact hs.initiatorsNodup.insert
  · rw [hsame]
    exact hs.readyNodup
  · rw [hread]
    exact or_iff_right fun h => hp h.2
  · rw [hinitiators, List.mem_insert_iff, or_iff_right hp]
  · rw [hsame]
    exact ⟨le_rfl, fun _ _ => Iff.rfl⟩

theorem tryStartFreshPqOffer_touches (hs : s.PqBooks) (peer : PeerId) (built : Bool) :
    Touches (· = peer) 0 s (s.tryStartFreshPqOffer peer built) := by
  unfold tryStartFreshPqOffer
  split
  · exact .refl hs
  · split
    · exact (updateSyncState_same s).touches hs _
    · have hkept := (preserveSyncTargetForPqRetry_same s).touches hs (· = peer)
      have hclear := hkept.and_then (clearPqPeerState_touches hkept.books peer)
      have hgone : peer ∉ (s.preserveSyncTargetForPqRetry.clearPqPeerState peer).pqInitiators := by
        have hdrops := clearPqPeerState_drops peer s.preserveSyncTargetForPqRetry
        rw [(hdrops.initiators hkept.books.initiatorsNodup).2]
        exact fun h => h.2 rfl
      have hunready := not_mem_ready_clearPqPeerState hkept.books peer
      dsimp only
      generalize s.preserveSyncTargetForPqRetry.clearPqPeerState peer = s₁ at hclear hgone hunready ⊢
      split
      · exact hclear.and_then ((updateSyncState_same s₁).touches hclear.books _)
      · rename_i hroom
        split
        · have hoffered : Touches (· = peer) 0 s₁ { s₁ with
              swarm := { s₁.swarm with nextPqId := s₁.swarm.nextPqId+1 }
              pendingPq := s₁.pendingPq.insert s₁.swarm.nextPqId peer
              pqInitiators := s₁.pqInitiators.insert peer } :=
            offered_touches hclear.books hgone hunready (Nat.not_le.mp hroom) rfl rfl rfl rfl
          have hafter := hclear.and_then hoffered
          exact hafter.and_then ((updateSyncState_same _).touches hafter.books _)
        · have hagain := hclear.and_then (clearPqPeerState_touches hclear.books peer)
          exact hagain.and_then ((updateSyncState_same _).touches hagain.books _)

theorem rejectProtocolPeer_touches (hs : s.PqBooks) (now : Instant) (peer : PeerId) :
    Touches (· = peer) 0 s (s.rejectProtocolPeer now peer) := by
  have hclean := (cleanupPendingForPeer_same now peer false s).touches hs (· = peer)
  exact hclean.and_then (clearPqPeerState_touches hclean.books peer)

theorem handleLastResortDrop_touches (hs : s.PqBooks) (now : Instant) (peer : PeerId)
    (disconnect : Bool) : Touches (· = peer) 0 s (s.handleLastResortDrop now peer disconnect) := by
  unfold handleLastResortDrop
  split
  · have hreject := rejectProtocolPeer_touches hs now peer
    generalize s.rejectProtocolPeer now peer = s₁ at hreject ⊢
    have hsame : SamePq s₁ { s₁ with admittedPeers := s₁.admittedPeers.erase peer } :=
      ⟨rfl, rfl, rfl, .inl rfl⟩
    exact hreject.and_then (hsame.touches hreject.books _)
  · exact .refl hs

/-! ### Events -/

/-- The peers an event is about. -/
def SwarmEvent.pqPeers (s : P2pSync) : SwarmEvent → List PeerId
  | .connectionEstablished peer _ | .connectionClosed peer | .connectionError peer
  | .versionResponse _ peer _ _ _ | .versionRequest peer _ _ _ | .pqResponse _ peer _ _
  | .pqRequest peer _ _ | .pqInboundFailure peer | .blocktxResponse _ peer _
  | .blocktxRequest peer _ => [peer]
  | .pqFailure request _ => s.pendingPq[request]?.toList
  | .versionFailure _ | .blocktxFailure _ _ | .other => []

/-- An answer on the handshake's protocol comes from the peer its request went to. -/
def AnsweredByAsked (s : P2pSync) : SwarmEvent → Prop
  | .pqResponse request peer _ _ => ∀ origin, s.pendingPq[request]? = some origin → peer = origin
  | _ => True

/-- Clearing a peer whose request was taken off first. -/
theorem clear_answered_touches (hs : s.PqBooks) {request : RequestId}
    (hrequest : s.pendingPq[request]? = some peer) {initiators : List PeerId}
    (hinitiators : initiators = s.pqInitiators ∨ initiators = s.pqInitiators.erase peer) :
    Touches (· = peer) 0 s (clearPqPeerState peer { s with
      pendingPq := s.pendingPq.erase request
      pqInitiators := initiators }) := by
  have hcleared : Touches (· = peer) 0 s (s.clearPqPeerState peer) := clearPqPeerState_touches hs peer
  have hready : (clearPqPeerState peer { s with
      pendingPq := s.pendingPq.erase request
      pqInitiators := initiators }).pqReadyPeers = (s.clearPqPeerState peer).pqReadyPeers := rfl
  refine (Drops.of_answered hrequest hinitiators (clearPqPeerState_drops peer _)).touches hs
    ?_ ?_ fun hroom => ?_
  · rw [hready]
    intro p hp
    exact .inr (List.mem_of_mem_erase (mem_of_mem_cleared hp))
  · rw [hready]
    exact hcleared.books.readyNodup
  · rw [hready]
    exact hcleared.ready hroom

theorem onPqResponse_touches (hs : s.PqBooks) (now : Instant) (request : RequestId) (peer : PeerId)
    (finalized built : Bool) (hasked : s.AnsweredByAsked (.pqResponse request peer finalized built)) :
    Touches (· = peer) 1 s (s.onPqResponse now request peer finalized built).1 := by
  unfold onPqResponse
  cases hrequest : s.pendingPq[request]? with
  | none => exact (Touches.refl hs).weaken
  | some origin =>
    obtain rfl := hasked origin hrequest
    dsimp only
    rw [if_neg (not_not_intro rfl)]
    split
    · have hdrops : Drops peer s (markPqReady peer { s with
          pendingPq := s.pendingPq.erase request
          pqInitiators := s.pqInitiators.erase peer }) :=
        Drops.of_answered hrequest (.inr rfl) (markPqReady_drops peer _)
      have hready := markPqReady_ready_touches hs hdrops (markPqReady_fields peer _).2.2.2
      exact hready.and_then ((resumeQueuedSyncAfterPqReady_same peer _).touches hready.books _)
    · have hcleared := clear_answered_touches hs hrequest (.inr rfl)
      have hoffered := tryStartFreshPqOffer_touches hcleared.books peer built
      exact (hcleared.and_then hoffered).weaken

theorem onPqRequest_touches (hs : s.PqBooks) (now : Instant) (peer : PeerId)
    (dropped : Option Bool) (answered : Bool) :
    Touches (· = peer) 1 s (s.onPqRequest now peer dropped answered).1 := by
  unfold onPqRequest
  split
  · rename_i disconnect
    have hdropped := handleLastResortDrop_touches hs now peer disconnect
    exact (hdropped.and_then (clearPqPeerState_touches hdropped.books peer)).weaken
  · split
    · have hready := markPqReady_touches hs peer
      exact hready.and_then ((resumeQueuedSyncAfterPqReady_same peer _).touches hready.books _)
    · exact (clearPqPeerState_touches hs peer).weaken

theorem onPqFailure_touches (hs : s.PqBooks) (request : RequestId) (built : Bool) :
    Touches (· ∈ s.pendingPq[request]?.toList) 0 s (s.onPqFailure request built) := by
  unfold onPqFailure
  cases hrequest : s.pendingPq[request]? with
  | none => exact .refl hs
  | some origin =>
    have hcleared := clear_answered_touches hs hrequest (.inl rfl)
    have hoffered := tryStartFreshPqOffer_touches hcleared.books origin built
    exact (hcleared.and_then hoffered).mono fun p hp => List.mem_singleton.mpr hp

theorem onVersionResponse_touches (hs : s.PqBooks) (now : Instant) (request : RequestId)
    (peer : PeerId) (info : VersionInfo) (admitted built : Bool) :
    Touches (· = peer) 0 s (s.onVersionResponse now request peer info admitted built).1 := by
  unfold onVersionResponse
  cases hrequest : s.pendingVersions[request]? with
  | none => exact .refl hs
  | some origin =>
    have hanswered : SamePq s { s with pendingVersions := s.pendingVersions.erase request } :=
      ⟨rfl, rfl, rfl, .inl rfl⟩
    have htaken := hanswered.touches hs (· = peer)
    dsimp only
    by_cases hpeer : peer = origin
    · subst hpeer
      rw [if_neg (not_not_intro rfl)]
      split
      · exact htaken.and_then (rejectProtocolPeer_touches htaken.books now peer)
      · have hadmitted : SamePq s { s with
            pendingVersions := s.pendingVersions.erase request
            admittedPeers := s.admittedPeers.insert peer } := ⟨rfl, rfl, rfl, .inl rfl⟩
        have hreported := (hadmitted.trans (onReportedHeight_same peer info.chainHeight _)).touches hs
          (· = peer)
        generalize (onReportedHeight peer info.chainHeight _) = s₁ at hreported ⊢
        unfold offerPqIfNew
        split
        · exact hreported.and_then (tryStartFreshPqOffer_touches hreported.books peer built)
        · exact hreported
    · rw [if_pos hpeer]
      exact htaken.and_then (rejectProtocolPeer_touches htaken.books now peer)

theorem onVersionRequest_touches (hs : s.PqBooks) (now : Instant) (peer : PeerId)
    (info : VersionInfo) (dropped : Option Bool) (admitted : Bool) :
    Touches (· = peer) 0 s (s.onVersionRequest now peer info dropped admitted).1 := by
  unfold onVersionRequest
  split
  · exact rejectProtocolPeer_touches hs now peer
  · split
    · exact handleLastResortDrop_touches hs now peer _
    · split
      · have hadmitted : SamePq s { s with admittedPeers := s.admittedPeers.insert peer } :=
          ⟨rfl, rfl, rfl, .inl rfl⟩
        exact hadmitted.touches hs _
      · exact rejectProtocolPeer_touches hs now peer

theorem onConnectionClosed_touches (hs : s.PqBooks) (now : Instant) (peer : PeerId) :
    Touches (· = peer) 0 s (s.onConnectionClosed now peer) := by
  have hgone : SamePq s { s with admittedPeers := s.admittedPeers.erase peer } :=
    ⟨rfl, rfl, rfl, .inl rfl⟩
  have hleft := hgone.touches hs (· = peer)
  have hclear := hleft.and_then (clearPqPeerState_touches hleft.books peer)
  have hclean := (cleanupPendingForPeer_same now peer true (clearPqPeerState peer
    { s with admittedPeers := s.admittedPeers.erase peer })).trans
      (driveBranchHydrationRequests_same now _)
  exact hclear.and_then (hclean.touches hclear.books _)

theorem onBlocktxResponse_touches [Blake3] (hs : s.PqBooks) (now : Instant) (request : RequestId)
    (peer : PeerId) {response : BlockTxResponse} {r : P2pSync × Bool}
    (h : s.onBlocktxResponse now request peer response = some r) : Touches (· = peer) 0 s r.1 := by
  unfold onBlocktxResponse at h
  split at h
  · have hanswered : SamePq s { s with pendingBlocks := s.pendingBlocks.erase request } :=
      ⟨rfl, rfl, rfl, .inl rfl⟩
    have htaken := hanswered.touches hs (· = peer)
    dsimp only at h
    split at h
    · have hreject := htaken.and_then (rejectProtocolPeer_touches htaken.books now peer)
      obtain rfl := Option.some_inj.mp h
      dsimp only
      split
      · exact hreject
      · exact hreject.and_then ((retryBlockIfPossible_same _ _).touches hreject.books _)
    · obtain ⟨s', hs', rfl⟩ := Option.map_eq_some_iff.mp h
      exact (hanswered.trans (handleBlockTxResponse_same hs')).touches hs _
  · split at h
    · have hanswered : SamePq s { s with pendingBatches := s.pendingBatches.erase request } :=
        ⟨rfl, rfl, rfl, .inl rfl⟩
      have htaken := hanswered.touches hs (· = peer)
      dsimp only at h
      split at h
      · have hreject := htaken.and_then (rejectProtocolPeer_touches htaken.books now peer)
        obtain rfl := Option.some_inj.mp h
        dsimp only
        split
        · exact hreject.and_then ((pushBatchRetry_same _ _).touches hreject.books _)
        · exact hreject
      · obtain ⟨s', hs', rfl⟩ := Option.map_eq_some_iff.mp h
        exact (hanswered.trans (handleBatchTxResponse_same hs')).touches hs _
    · cases response with
      | notFound =>
        obtain rfl := Option.some_inj.mp h
        exact (onHydrationFailure_same now request s).touches hs _
      | blockData block => cases h
      | batchData bytes =>
        obtain rfl := Option.some_inj.mp h
        exact .refl hs
      | txData =>
        obtain rfl := Option.some_inj.mp h
        exact .refl hs

/-- An event touches what the books say of the peers it is about. -/
theorem handleSwarmEvent_touches [Blake3] (hs : s.PqBooks) (now : Instant) {event : SwarmEvent}
    {r : P2pSync × Bool} (h : s.handleSwarmEvent now event = some r)
    (hasked : s.AnsweredByAsked event) : Touches (· ∈ event.pqPeers s) 1 s r.1 := by
  have hone : ∀ {peer : PeerId} {n : ℕ} {s' : P2pSync}, Touches (· = peer) n s s' →
      Touches (· ∈ [peer]) n s s' := fun h => h.mono fun p hp => List.mem_singleton.mpr hp
  cases event with
  | connectionEstablished peer allowed =>
    unfold handleSwarmEvent at h
    dsimp only at h
    split at h
    · obtain rfl := Option.some_inj.mp h
      have hpoll := (pollPeersForHeight_same s).trans (driveBranchHydrationRequests_same now _)
      exact (hpoll.touches hs _).weaken
    · obtain rfl := Option.some_inj.mp h
      exact (hone (rejectProtocolPeer_touches hs now peer)).weaken
  | connectionClosed peer =>
    obtain rfl := Option.some_inj.mp h
    exact (hone (onConnectionClosed_touches hs now peer)).weaken
  | connectionError peer =>
    obtain rfl := Option.some_inj.mp h
    have hclear := clearPqPeerState_touches hs peer
    have hdriven := hclear.and_then ((driveBranchHydrationRequests_same now _).touches hclear.books _)
    exact (hone hdriven).weaken
  | versionResponse request peer info admitted built =>
    obtain rfl := Option.some_inj.mp h
    exact (hone (onVersionResponse_touches hs now request peer info admitted built)).weaken
  | versionRequest peer info dropped admitted =>
    obtain rfl := Option.some_inj.mp h
    exact (hone (onVersionRequest_touches hs now peer info dropped admitted)).weaken
  | versionFailure request =>
    obtain rfl := Option.some_inj.mp h
    have hanswered : SamePq s { s with pendingVersions := s.pendingVersions.erase request } :=
      ⟨rfl, rfl, rfl, .inl rfl⟩
    exact (hanswered.touches hs _).weaken
  | pqResponse request peer finalized built =>
    obtain rfl := Option.some_inj.mp h
    exact hone (onPqResponse_touches hs now request peer finalized built hasked)
  | pqRequest peer dropped answered =>
    obtain rfl := Option.some_inj.mp h
    exact hone (onPqRequest_touches hs now peer dropped answered)
  | pqFailure request built =>
    obtain rfl := Option.some_inj.mp h
    exact (onPqFailure_touches hs request built).weaken
  | pqInboundFailure peer =>
    obtain rfl := Option.some_inj.mp h
    exact (hone (clearPqPeerState_touches hs peer)).weaken
  | blocktxResponse request peer response =>
    exact (hone (onBlocktxResponse_touches hs now request peer h)).weaken
  | blocktxRequest peer dropped =>
    cases dropped with
    | none =>
      obtain rfl := Option.some_inj.mp h
      exact (Touches.refl hs).weaken
    | some disconnect =>
      obtain rfl := Option.some_inj.mp h
      exact (hone (handleLastResortDrop_touches hs now peer disconnect)).weaken
  | blocktxFailure request peer =>
    obtain rfl := Option.some_inj.mp h
    exact ((onBlocktxFailure_same now request peer s).touches hs _).weaken
  | other =>
    obtain rfl := Option.some_inj.mp h
    exact ((driveBranchHydrationRequests_same now s).touches hs _).weaken

theorem dropTimedOut_touches (now : Instant) (timedOut : List PeerId) (hs : s.PqBooks) :
    Touches (· ∈ timedOut) 0 s (timedOut.foldl (dropTimedOut now) s) := by
  induction timedOut generalizing s with
  | nil => exact .refl hs
  | cons peer rest ih =>
    have hclean := (cleanupPendingForPeer_same now peer false s).touches hs (· = peer)
    have hdrop : Touches (· = peer) 0 s (s.dropTimedOut now peer) :=
      hclean.and_then (clearPqPeerState_touches hclean.books peer)
    have hfirst : Touches (· ∈ peer :: rest) 0 s (s.dropTimedOut now peer) :=
      hdrop.mono fun p hp => List.mem_cons.mpr (.inl hp)
    exact hfirst.and_then ((ih hdrop.books).mono fun p hp => List.mem_cons_of_mem _ hp)

theorem finish_touches (hs : s.PqBooks) (now : Instant) (timedOut : List PeerId) :
    Touches (· ∈ timedOut) 0 s (s.finish now timedOut) := by
  have hdropped := dropTimedOut_touches now timedOut hs
  unfold finish
  dsimp only
  generalize timedOut.foldl (dropTimedOut now) s = s₁ at hdropped ⊢
  have hissued := (drainQueues_same s₁).trans (reissueIdleSyncWorkIfNeeded_same _)
  generalize s₁.drainQueues.reissueIdleSyncWorkIfNeeded = s₂ at hissued ⊢
  have hdriven := hissued.trans (driveBranchHydrationRequests_same now s₂)
  have hnoted := (hdriven.trans (updateSyncState_same _)).trans (noteApplied_same _)
  exact hdropped.and_then (hnoted.touches hdropped.books _)

theorem onSwarmEvent_touches [Blake3] (hs : s.PqBooks) (now : Instant) (timedOut : List PeerId)
    {event : SwarmEvent} (h : s.onSwarmEvent now timedOut event = some s')
    (hasked : s.AnsweredByAsked event) :
    Touches (fun p => p ∈ event.pqPeers s ∨ p ∈ timedOut) 1 s s' := by
  obtain ⟨r, hr, rfl⟩ := Option.map_eq_some_iff.mp h
  have hhandled := handleSwarmEvent_touches hs now hr hasked
  split
  · exact (hhandled.mono fun p hp => .inl hp).and_then
      ((finish_touches hhandled.books now timedOut).mono fun p hp => .inr hp)
  · exact hhandled.mono fun p hp => .inl hp

/-- An answer from another peer leaves the key pair of the peer that was asked without its
request. -/
theorem not_books_of_mismatch [Blake3] (hs : s.PqBooks) {now : Instant} {timedOut : List PeerId}
    {event : SwarmEvent} (h : s.onSwarmEvent now timedOut event = some s')
    (hother : ¬s.AnsweredByAsked event) : ¬s'.PqBooks := by
  obtain ⟨r, hr, rfl⟩ := Option.map_eq_some_iff.mp h
  cases event with
  | pqResponse request peer finalized built =>
    unfold AnsweredByAsked at hother
    push Not at hother
    obtain ⟨origin, hrequest, hne⟩ := hother
    have hrun : s.onPqResponse now request peer finalized built =
        (rejectProtocolPeer now peer { s with pendingPq := s.pendingPq.erase request }, false) := by
      unfold onPqResponse
      rw [hrequest]
      dsimp only
      rw [if_pos hne]
    obtain rfl := Option.some_inj.mp hr
    rw [hrun]
    intro hbooks
    change PqBooks (rejectProtocolPeer now peer { s with
      pendingPq := s.pendingPq.erase request }) at hbooks
    have hclean := cleanupPendingForPeer_same now peer false { s with
      pendingPq := s.pendingPq.erase request }
    have hdrops := clearPqPeerState_drops peer (cleanupPendingForPeer now peer false { s with
      pendingPq := s.pendingPq.erase request })
    unfold rejectProtocolPeer at hbooks
    have hmem : origin ∈ s.pqInitiators := (hs.initiators origin).mpr ⟨request, hrequest⟩
    have hnodup : (cleanupPendingForPeer now peer false { s with
        pendingPq := s.pendingPq.erase request }).pqInitiators.Nodup := by
      rw [hclean.initiators]
      exact hs.initiatorsNodup
    have hstale := ((hdrops.initiators hnodup).2 origin).mpr
      ⟨hclean.initiators.symm ▸ hmem, Ne.symm hne⟩
    obtain ⟨i, hi⟩ := (hbooks.initiators origin).mp hstale
    have hleft := ((hdrops.pending i origin).mp hi).1
    rw [hclean.pending, ExtTreeMap.getElem?_erase] at hleft
    split at hleft
    · cases hleft
    · rename_i hdiffer
      rw [LawfulEqCmp.compare_eq_iff_eq] at hdiffer
      exact hdiffer (hs.once request i origin hrequest hleft)
  | _ => exact absurd trivial hother

theorem new_books (db : RockDB) (expectedGenesisHash : Option String) (swarm : Swarm) :
    (P2pSync.new db expectedGenesisHash swarm).PqBooks := by
  unfold P2pSync.new
  dsimp only
  generalize hstart : P2pSync.mk db false false db.getTipHeight db.getTipHeight ∅ ∅ [] [] ∅ ∅ [] []
    [] [] false expectedGenesisHash none none db.getTipHeight none [] .defaultMainnet swarm = s
  have hs : s.PqBooks := by
    subst hstart
    refine ⟨?_, ?_, nofun, ?_, ?_, List.nodup_nil, List.nodup_nil⟩
    · intro i j p hi
      rw [ExtTreeMap.getElem?_empty] at hi
      cases hi
    · intro p
      refine iff_of_false List.not_mem_nil ?_
      rintro ⟨i, hi⟩
      rw [ExtTreeMap.getElem?_empty] at hi
      cases hi
    · rw [ExtTreeMap.size_empty]
      exact Nat.zero_le _
    · intro i p hi
      rw [ExtTreeMap.getElem?_empty] at hi
      cases hi
  have hsame := (updateSyncPointers_same s).trans (updateSyncState_same _)
  exact (hsame.touches hs fun _ => False).books

/-- A run whose answers all come from the peers that were asked. What happens between the events does
not touch the books, but may clear too long a table of ready peers. -/
inductive PqRun [Blake3] (start : P2pSync) : P2pSync → Prop
  | start : PqRun start start
  | swarmEvent {s s' : P2pSync} (now : Instant) (timedOut : List PeerId) (event : SwarmEvent)
      (run : PqRun start s) (handled : s.onSwarmEvent now timedOut event = some s')
      (asked : s.AnsweredByAsked event) : PqRun start s'
  | elsewhere {s s' : P2pSync} (run : PqRun start s) (same : SamePq s s') : PqRun start s'

theorem PqRun.books [Blake3] {start : P2pSync} (run : PqRun start s) (hstart : start.PqBooks) :
    s.PqBooks := by
  induction run with
  | start => exact hstart
  | swarmEvent now timedOut event run handled asked ih =>
    exact (onSwarmEvent_touches ih now timedOut handled asked).books
  | elsewhere run same ih => exact (same.touches ih fun _ => False).books

/-- As long as every answer comes from the peer that was asked the books are in order, and work
about some peers leaves the entries of the others alone. An answer from another peer always brings
the books into disorder. -/
theorem pq_bookkeeping [Blake3] (db : RockDB) (expectedGenesisHash : Option String) (swarm : Swarm)
    {s : P2pSync} (run : PqRun (.new db expectedGenesisHash swarm) s) :
    s.PqBooks ∧
    (∀ peer p, p ≠ peer → SameEntries s (s.clearPqPeerState peer) p ∧
      SameEntries s (s.markPqReady peer) p) ∧
    ∀ now timedOut event s', s.onSwarmEvent now timedOut event = some s' →
      (s'.PqBooks ↔ s.AnsweredByAsked event) ∧
      (s.AnsweredByAsked event → ∀ p, p ∉ event.pqPeers s → p ∉ timedOut →
        SameEntries s s' p ∧ (s.pqReadyPeers.length < maxRuntimePeerSideTables →
          (p ∈ s'.pqReadyPeers ↔ p ∈ s.pqReadyPeers))) := by
  have hs : s.PqBooks := run.books (new_books db expectedGenesisHash swarm)
  refine ⟨hs, ?_, ?_⟩
  · intro peer p hp
    exact ⟨(clearPqPeerState_touches hs peer).others p hp, (markPqReady_touches hs peer).others p hp⟩
  · intro now timedOut event s' handled
    refine ⟨⟨fun hbooks => ?_, fun hasked => ?_⟩, fun hasked p hp hkept => ?_⟩
    · by_contra hother
      exact not_books_of_mismatch hs handled hother hbooks
    · exact (onSwarmEvent_touches hs now timedOut handled hasked).books
    · have htouches := onSwarmEvent_touches hs now timedOut handled hasked
      have hmine : ¬(p ∈ event.pqPeers s ∨ p ∈ timedOut) := not_or.mpr ⟨hp, hkept⟩
      exact ⟨htouches.others p hmine, fun hroom => (htouches.ready hroom).2 p hmine⟩

/-! ### An answer from another peer -/

namespace PqAnswers

def node : P2pSync := .new .empty none ⟨[[1], [2]], [[1], [2]], 0, 0, 0⟩

/-- Both peers are asked for their version. -/
def polling : SwarmEvent := .connectionEstablished [1] true

/-- The first peer answers, and is made an offer. -/
def greeting : SwarmEvent := .versionResponse 0 [1] Sample.boast true true

/-- The second peer answers the offer made to the first. -/
def mismatch : SwarmEvent := .pqResponse 0 [2] true true

def event (s : P2pSync) (event : SwarmEvent) : Option P2pSync :=
  @onSwarmEvent Blake3.reference 0 [] event s

def polled : P2pSync := (event node polling).getD node
def offered : P2pSync := (event polled greeting).getD polled
def stale : P2pSync := (event offered mismatch).getD offered

theorem handled (s : P2pSync) {e : SwarmEvent} (he : e = polling ∨ e = greeting ∨ e = mismatch) :
    event s e = some ((event s e).getD s) := by
  rcases he with rfl | rfl | rfl
  · rfl
  · rfl
  · rfl

theorem offered_run : @PqRun Blake3.reference node offered := by
  let : Blake3 := Blake3.reference
  have hpolled : @PqRun Blake3.reference node polled :=
    .swarmEvent 0 [] polling .start (handled node (.inl rfl)) trivial
  exact .swarmEvent 0 [] greeting hpolled (handled polled (.inr (.inl rfl))) trivial

end PqAnswers

theorem pq_bookkeeping_offered :
    PqAnswers.offered.PqBooks ∧
    (∀ peer p, p ≠ peer →
      SameEntries PqAnswers.offered (PqAnswers.offered.clearPqPeerState peer) p ∧
      SameEntries PqAnswers.offered (PqAnswers.offered.markPqReady peer) p) ∧
    ∀ now timedOut event s',
      @onSwarmEvent Blake3.reference now timedOut event PqAnswers.offered = some s' →
      (s'.PqBooks ↔ PqAnswers.offered.AnsweredByAsked event) ∧
      (PqAnswers.offered.AnsweredByAsked event →
        ∀ p, p ∉ event.pqPeers PqAnswers.offered → p ∉ timedOut →
        SameEntries PqAnswers.offered s' p ∧
          (PqAnswers.offered.pqReadyPeers.length < maxRuntimePeerSideTables →
            (p ∈ s'.pqReadyPeers ↔ p ∈ PqAnswers.offered.pqReadyPeers))) :=
  @pq_bookkeeping Blake3.reference .empty none ⟨[[1], [2]], [[1], [2]], 0, 0, 0⟩
    PqAnswers.offered PqAnswers.offered_run

/-- The second peer's answer to the offer made to the first takes the request away and leaves the key
pair. -/
theorem mismatched_answer_strands_initiator :
    @PqRun Blake3.reference PqAnswers.node PqAnswers.offered ∧
    @onSwarmEvent Blake3.reference 0 [] PqAnswers.mismatch PqAnswers.offered =
      some PqAnswers.stale ∧
    PqAnswers.stale.pqInitiators = [[1]] ∧ PqAnswers.stale.pendingPq.isEmpty = true := by
  refine ⟨PqAnswers.offered_run, PqAnswers.handled _ (.inr (.inr rfl)), ?_⟩
  decide +kernel

end P2pSync
end Remzar
