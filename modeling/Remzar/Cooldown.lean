import Mathlib
import Remzar.Lib.Runs
import Remzar.LastResort

/-! The cooldown of a peer that misbehaves: once it has begun, every request of the peer is
refused to its end, for as long as the guards keep what they know of the peer. -/
namespace Remzar
open Std

namespace PeerState
variable {ps : PeerState} {cfg : LastResortConfig} {now start finish : Nanos}

/-- The cooldown lasts at least to a given time. -/
def Cools (ps : PeerState) (finish : Nanos) : Prop :=
  ∃ t, ps.cooldownUntil = some t ∧ finish ≤ t

theorem decayBadness_cooldownUntil (ps : PeerState) (cfg : LastResortConfig) (now : Nanos) :
    (ps.decayBadness cfg now).cooldownUntil = ps.cooldownUntil := by
  unfold decayBadness
  dsimp only
  split <;> rfl

theorem Cools.isCoolingDown (h : ps.Cools finish) (cfg : LastResortConfig) (hnow : now < finish) :
    ∃ ps', ps.isCoolingDown cfg now = (true, ps') ∧ ps'.Cools finish := by
  obtain ⟨t, ht, hle⟩ := h
  have hdecayed := ps.decayBadness_cooldownUntil cfg now
  rw [ht] at hdecayed
  refine ⟨ps.decayBadness cfg now, ?_, t, hdecayed, hle⟩
  simp only [PeerState.isCoolingDown, hdecayed]
  rw [if_pos (hnow.trans_le hle)]

/-- Further points leave the end where it is or move it on. -/
theorem Cools.addBadness (h : ps.Cools finish) (hlate : finish ≤ now+cfg.cooldown)
    (hclock : now+cfg.cooldown ≤ lastNanos) (points : ℤ) :
    (ps.addBadness cfg now points).Cools finish := by
  obtain ⟨t, ht, hle⟩ := h
  unfold PeerState.addBadness
  dsimp only
  rw [if_pos hclock]
  split
  · exact ⟨_, rfl, hlate⟩
  · exact ⟨t, (ps.decayBadness_cooldownUntil cfg now).trans ht, hle⟩

/-- Reaching the threshold puts the peer into cooldown. -/
theorem addBadness_cools {points : ℤ}
    (hthreshold : cfg.badnessThreshold ≤ clampI32 ((ps.decayBadness cfg now).badness.toInt+points))
    (hclock : now+cfg.cooldown ≤ lastNanos) :
    (ps.addBadness cfg now points).Cools (now+cfg.cooldown) := by
  unfold addBadness
  dsimp only
  rw [if_pos hthreshold]
  exact ⟨_, if_pos hclock, Nat.le_refl _⟩

end PeerState

namespace LastResortGuards
variable {g : LastResortGuards} {p q : PeerId} {now finish : Nanos}

/-- What the guards know of the peer is that it cools down. -/
def Cooling (g : LastResortGuards) (p : PeerId) (finish : Nanos) : Prop :=
  ∃ ps, g.peer[p]? = some ps ∧ ps.Cools finish

/-! ### What a call leaves of the other peers -/

/-- A call on behalf of one peer changes that peer's entry at most. -/
structure Touches (g g' : LastResortGuards) (p : PeerId) : Prop where
  cfg : g'.cfg = g.cfg
  other : ∀ q, q ≠ p → g'.peer[q]? = g.boundMaps.peer[q]?

theorem Touches.keep {g₁ : LastResortGuards} (hcfg : g₁.cfg = g.cfg)
    (hpeer : g₁.peer = g.boundMaps.peer) (p : PeerId) (ps : PeerState) : g.Touches (g₁.keep p ps) p where
  cfg := hcfg
  other q hq := by
    have hcmp : ¬compare p q = .eq := fun hc => hq (LawfulEqCmp.eq_of_compare hc).symm
    change (g₁.peer.insert p ps)[q]? = _
    rw [ExtTreeMap.getElem?_insert, if_neg hcmp, hpeer]

theorem boundMaps_peer (h : g.peer.size ≤ maxTrackedPeers) : g.boundMaps.peer = g.peer :=
  if_neg (Nat.not_lt.mpr h)

theorem checkIp_touches {g₁ : LastResortGuards} (hcfg : g₁.cfg = g.cfg)
    (hpeer : g₁.peer = g.boundMaps.peer) (req : LastResortActionRequest) (cost : ℕ)
    (ps : PeerState) : g.Touches (g₁.checkIp req cost ps).2 req.peerId := by
  unfold checkIp
  split
  · exact .keep hcfg hpeer _ _
  · split
    · dsimp only
      split
      · exact .keep (by exact hcfg) (by exact hpeer) _ _
      · exact .keep (by exact hcfg) (by exact hpeer) _ _
    · exact .keep hcfg hpeer _ _

theorem checkAction_touches (g : LastResortGuards) (req : LastResortActionRequest) :
    g.Touches (g.checkAction req).2 req.peerId := by
  unfold checkAction
  dsimp only
  split
  · exact ⟨rfl, fun _ _ => rfl⟩
  · split
    · exact .keep (by rfl) (by rfl) _ _
    · split
      · exact .keep (by rfl) (by rfl) _ _
      · split
        · exact checkIp_touches (by rfl) (by rfl) _ _ _
        · exact .keep (by rfl) (by rfl) _ _

theorem tryBeginInflight_touches (g : LastResortGuards) (now : Nanos) (p : PeerId) :
    g.Touches (g.tryBeginInflight now p).2 p := by
  unfold tryBeginInflight
  dsimp only
  split
  · exact .keep (by rfl) (by rfl) _ _
  · split <;> exact .keep (by rfl) (by rfl) _ _

theorem checkBytes_touches (g : LastResortGuards) (now : Nanos) (p : PeerId) (bytes : UInt64) :
    g.Touches (g.checkBytes now p bytes).2 p := by
  unfold checkBytes
  dsimp only
  split
  · exact .keep (by rfl) (by rfl) _ _
  · split
    · split <;> exact .keep (by rfl) (by rfl) _ _
    · exact .keep (by rfl) (by rfl) _ _

theorem Cooling.of_touches {g' : LastResortGuards} (h : g.Cooling p finish)
    (htouches : g.Touches g' q) (hne : p ≠ q) (hsize : g.peer.size ≤ maxTrackedPeers) :
    g'.Cooling p finish := by
  obtain ⟨ps, hps, hcools⟩ := h
  refine ⟨ps, ?_, hcools⟩
  rw [htouches.other p hne, boundMaps_peer hsize, hps]

/-! ### Calls of the peer itself -/

theorem Cooling.keep {g₁ : LastResortGuards} {ps : PeerState} (h : ps.Cools finish) :
    (g₁.keep p ps).Cooling p finish :=
  ⟨ps, ExtTreeMap.getElem?_insert_self, h⟩

theorem Cooling.entry (h : g.Cooling p finish) (hsize : g.peer.size ≤ maxTrackedPeers) (now : Nanos) :
    (g.boundMaps.entry p now).Cools finish := by
  obtain ⟨ps, hps, hcools⟩ := h
  rw [LastResortGuards.entry, boundMaps_peer hsize, hps]
  exact hcools

/-- A check of a request of the peer stops at the cooldown or before it. -/
theorem Cooling.checkAction {req : LastResortActionRequest} (h : g.Cooling req.peerId finish)
    (hsize : g.peer.size ≤ maxTrackedPeers) (hnow : req.now < finish) :
    (g.checkAction req).1 = (if req.admitted = false ∧ req.action ∈ g.cfg.requireAdmissionFor
        then .drop .notAdmitted else .drop .peerCoolingDown) ∧
      (g.checkAction req).2.Cooling req.peerId finish := by
  obtain ⟨ps, hcheck, hcools⟩ := (h.entry hsize req.now).isCoolingDown g.cfg hnow
  have hcfg : g.boundMaps.cfg = g.cfg := rfl
  unfold LastResortGuards.checkAction
  simp only [hcfg, hcheck, if_true]
  by_cases hgate : req.admitted = false ∧ req.action ∈ g.cfg.requireAdmissionFor
  · rw [if_pos hgate, if_pos hgate]
    refine ⟨rfl, ?_⟩
    obtain ⟨ps₀, hps₀, hcools₀⟩ := h
    refine ⟨ps₀, ?_, hcools₀⟩
    rw [boundMaps_peer hsize, hps₀]
  · rw [if_neg hgate, if_neg hgate]
    exact ⟨rfl, .keep hcools⟩

theorem Cooling.tryBeginInflight (h : g.Cooling p finish) (hsize : g.peer.size ≤ maxTrackedPeers)
    (hnow : now < finish) :
    (g.tryBeginInflight now p).1 = .drop .peerCoolingDown ∧
      (g.tryBeginInflight now p).2.Cooling p finish := by
  obtain ⟨ps, hcheck, hcools⟩ := (h.entry hsize now).isCoolingDown g.cfg hnow
  have hcfg : g.boundMaps.cfg = g.cfg := rfl
  unfold LastResortGuards.tryBeginInflight
  simp only [hcfg, hcheck, if_true]
  exact ⟨trivial, .keep hcools⟩

theorem Cooling.checkBytes (h : g.Cooling p finish) (hsize : g.peer.size ≤ maxTrackedPeers)
    (hnow : now < finish) (bytes : UInt64) :
    (g.checkBytes now p bytes).1 = .drop .peerCoolingDown ∧
      (g.checkBytes now p bytes).2.Cooling p finish := by
  obtain ⟨ps, hcheck, hcools⟩ := (h.entry hsize now).isCoolingDown g.cfg hnow
  have hcfg : g.boundMaps.cfg = g.cfg := rfl
  unfold LastResortGuards.checkBytes
  simp only [hcfg, hcheck, if_true]
  exact ⟨trivial, .keep hcools⟩

theorem Cooling.reportMisbehavior (h : g.Cooling p finish) (hsize : g.peer.size ≤ maxTrackedPeers)
    (hlate : finish ≤ now+g.cfg.cooldown) (hclock : now+g.cfg.cooldown ≤ lastNanos)
    (points : Int32) : (g.reportMisbehavior now p points).Cooling p finish :=
  .keep ((h.entry hsize now).addBadness hlate hclock _)

/-! ### Runs -/

/-- A call that the cooldown of a peer survives: it comes in time, it is not the end of the
connection, and it does not find so many peers that all of them are forgotten. -/
structure Spares (p : PeerId) (start finish : Nanos) (g : LastResortGuards) (c : LastResortCall) : Prop where
  notBefore : start ≤ c.now
  before : c.now < finish
  connected : ∀ now, c ≠ .onPeerDisconnected now p
  clock : c.now+g.cfg.cooldown ≤ lastNanos
  tracked : g.peer.size ≤ maxTrackedPeers

theorem step_cfg (g : LastResortGuards) (c : LastResortCall) : (g.step c).cfg = g.cfg := by
  cases c with
  | checkAction req => exact (checkAction_touches g req).cfg
  | tryBeginInflight now peer => exact (tryBeginInflight_touches g now peer).cfg
  | checkBytes now peer bytes => exact (checkBytes_touches g now peer bytes).cfg
  | reportMisbehavior now peer points => rfl
  | onPeerDisconnected now peer => rfl
  | permitDropped now permit => rfl

theorem Cooling.step {start : Nanos} {c : LastResortCall} (h : g.Cooling p finish)
    (huntil : finish ≤ start+g.cfg.cooldown) (hc : Spares p start finish g c) :
    (g.step c).Cooling p finish := by
  have hsize := hc.tracked
  have hbefore := hc.before
  cases c with
  | checkAction req =>
    by_cases hp : p = req.peerId
    · subst hp
      exact (h.checkAction hsize hbefore).2
    · exact h.of_touches (checkAction_touches g req) hp hsize
  | tryBeginInflight now peer =>
    by_cases hp : p = peer
    · subst hp
      exact (h.tryBeginInflight hsize hbefore).2
    · exact h.of_touches (tryBeginInflight_touches g now peer) hp hsize
  | checkBytes now peer bytes =>
    by_cases hp : p = peer
    · subst hp
      exact (h.checkBytes hsize hbefore bytes).2
    · exact h.of_touches (checkBytes_touches g now peer bytes) hp hsize
  | reportMisbehavior now peer points =>
    by_cases hp : p = peer
    · subst hp
      have hlate : finish ≤ now+g.cfg.cooldown :=
        huntil.trans (Nat.add_le_add_right hc.notBefore _)
      exact h.reportMisbehavior hsize hlate hc.clock points
    · exact h.of_touches (.keep (by rfl) (by rfl) _ _) hp hsize
  | onPeerDisconnected now peer =>
    have hne : ¬compare peer p = .eq := by
      intro heq
      apply hc.connected now
      rw [LawfulEqCmp.eq_of_compare heq]
    obtain ⟨ps, hps, hcools⟩ := h
    refine ⟨ps, ?_, hcools⟩
    change (g.peer.erase peer)[p]? = some ps
    rw [ExtTreeMap.getElem?_erase, if_neg hne, hps]
  | permitDropped now permit => exact h

theorem Cooling.run {start : Nanos} {calls : List LastResortCall} (h : g.Cooling p finish)
    (huntil : finish ≤ start+g.cfg.cooldown)
    (hcalls : Runs.Steps LastResortGuards.step (Spares p start finish) g calls) :
    (calls.foldl LastResortGuards.step g).Cooling p finish ∧
      (calls.foldl LastResortGuards.step g).cfg = g.cfg := by
  induction calls generalizing g with
  | nil => exact ⟨h, rfl⟩
  | cons c calls ih =>
    have hcfg := g.step_cfg c
    have hnext := ih (h.step huntil hcalls.1) (hcfg ▸ huntil) hcalls.2
    exact ⟨hnext.1, hnext.2.trans hcfg⟩

end LastResortGuards

/-- A peer that badness has put into cooldown at `start` is refused everything until the cooldown
is over, whatever is called in between, as long as the guards do not forget the peer: its
connection does not end, and no call finds more peers than are tracked. -/
theorem cooldown_enforced {g : LastResortGuards} {p : PeerId} {ps : PeerState} {start now : Nanos}
    {points : ℤ} {calls : List LastResortCall}
    (hput : g.peer[p]? = some (ps.addBadness g.cfg start points))
    (hthreshold : g.cfg.badnessThreshold ≤
      clampI32 ((ps.decayBadness g.cfg start).badness.toInt+points))
    (hclock : start+g.cfg.cooldown ≤ lastNanos)
    (hcalls : Runs.Steps LastResortGuards.step
      (LastResortGuards.Spares p start (start+g.cfg.cooldown)) g calls)
    (hnow : now < start+g.cfg.cooldown)
    (htracked : (calls.foldl LastResortGuards.step g).peer.size ≤ maxTrackedPeers) :
    let g' := calls.foldl LastResortGuards.step g
    (∀ req : LastResortActionRequest, req.peerId = p → req.now = now →
        (req.admitted = true ∨ req.action ∉ g.cfg.requireAdmissionFor) →
        (g'.checkAction req).1 = .drop .peerCoolingDown) ∧
      (g'.tryBeginInflight now p).1 = .drop .peerCoolingDown ∧
      ∀ bytes, (g'.checkBytes now p bytes).1 = .drop .peerCoolingDown := by
  intro g'
  have hcools : g.Cooling p (start+g.cfg.cooldown) :=
    ⟨_, hput, PeerState.addBadness_cools hthreshold hclock⟩
  obtain ⟨hcooling, hcfg⟩ := hcools.run (Nat.le_refl _) hcalls
  refine ⟨?_, (hcooling.tryBeginInflight htracked hnow).1, ?_⟩
  · intro req hp htime hgate
    subst hp
    subst htime
    have hcheck := (hcooling.checkAction htracked hnow).1
    rw [hcfg, if_neg] at hcheck
    · exact hcheck
    · rintro ⟨hadmitted, haction⟩
      rcases hgate with hyes | hno
      · rw [hadmitted] at hyes
        cases hyes
      · exact hno haction
  · intro bytes
    exact (hcooling.checkBytes htracked hnow bytes).1

theorem cooldown_enforced_reported :
    let g := (LastResortGuards.new {} 0).reportMisbehavior 0 [1] 100
    let g' := [LastResortCall.reportMisbehavior 5 [2] 1, .tryBeginInflight 7 [1]].foldl
      LastResortGuards.step g
    (∀ req : LastResortActionRequest, req.peerId = [1] → req.now = 9 →
        (req.admitted = true ∨ req.action ∉ g.cfg.requireAdmissionFor) →
        (g'.checkAction req).1 = .drop .peerCoolingDown) ∧
      (g'.tryBeginInflight 9 [1]).1 = .drop .peerCoolingDown ∧
      ∀ bytes, (g'.checkBytes 9 [1] bytes).1 = .drop .peerCoolingDown := by
  have hput : ((LastResortGuards.new {} 0).reportMisbehavior 0 [1] 100).peer[([1] : PeerId)]? =
      some ((PeerState.new {} 0).addBadness {} 0 100) := ExtTreeMap.getElem?_insert_self
  refine cooldown_enforced hput (by decide) (by decide) ⟨?_, ?_, trivial⟩ (by decide) (by decide)
  · exact ⟨by decide, by decide, fun _ h => (by cases h), by decide, by decide⟩
  · exact ⟨by decide, by decide, fun _ h => (by cases h), by decide, by decide⟩

/-! ### What ends a cooldown early -/

/-- Calls for peers that were not seen before, `n` of them. -/
def strangers (n : ℕ) : List LastResortCall :=
  (List.range n).map fun i => .reportMisbehavior 0 (List.replicate (i+2) 0) 1

theorem strangers_succ (n : ℕ) :
    strangers (n+1) = strangers n ++ [.reportMisbehavior 0 (List.replicate (n+2) 0) 1] := by
  unfold strangers
  rw [List.range_succ, List.map_append, List.map_singleton]

namespace LastResortGuards
variable {g : LastResortGuards}

/-- Each of them takes a place in the table of peers, up to one more than are tracked. -/
theorem strangers_tracked (hknown : ∀ i, g.peer[List.replicate (i+2) (0 : UInt8)]? = none) {n : ℕ}
    (hn : g.peer.size+n ≤ maxTrackedPeers+1) :
    let g' := (strangers n).foldl step g
    g'.peer.size = g.peer.size+n ∧ g'.cfg = g.cfg ∧
      ∀ i, n ≤ i → g'.peer[List.replicate (i+2) (0 : UInt8)]? = none := by
  induction n with
  | zero => exact ⟨rfl, rfl, fun i _ => hknown i⟩
  | succ n ih =>
    obtain ⟨hsize, hcfg, hnone⟩ := ih (by omega)
    rw [strangers_succ, List.foldl_append]
    generalize (strangers n).foldl step g = g' at hsize hcfg hnone
    have hbound : g'.boundMaps.peer = g'.peer := boundMaps_peer (by omega)
    intro g''
    have hpeer : g''.peer = g'.peer.insert (List.replicate (n+2) 0)
        ((g'.boundMaps.entry (List.replicate (n+2) 0) 0).addBadness g'.cfg 0 1) := by
      change g'.boundMaps.peer.insert _ _ = _
      rw [hbound]
      rfl
    refine ⟨?_, hcfg, fun i hi => ?_⟩
    · have hfresh : g'.peer.contains (List.replicate (n+2) (0 : UInt8)) = false := by
        rw [ExtTreeMap.contains_eq_isSome_getElem?, hnone n (Nat.le_refl n)]
        rfl
      rw [hpeer, ExtTreeMap.size_insert, hfresh, if_neg Bool.false_ne_true, hsize]
      omega
    · have hne : ¬compare (List.replicate (n+2) (0 : UInt8)) (List.replicate (i+2) 0) = .eq := by
        intro heq
        have hlength := congrArg List.length (LawfulEqCmp.eq_of_compare heq)
        rw [List.length_replicate, List.length_replicate] at hlength
        omega
      rw [hpeer, ExtTreeMap.getElem?_insert, if_neg hne]
      exact hnone i (by omega)

/-- A call that finds too many peers knows none of them. -/
theorem checkAction_forgotten (hsize : maxTrackedPeers < g.peer.size) (hcfg : g.cfg = {})
    (p : PeerId) : (g.checkAction ⟨9, p, true, none, .version, 1, none⟩).1 = .allow := by
  have hentry : g.boundMaps.entry p 9 = .new {} 9 := by
    unfold entry boundMaps
    rw [if_pos hsize, hcfg, ExtTreeMap.getElem?_empty]
    rfl
  have hbound : g.boundMaps.cfg = {} := hcfg
  unfold checkAction
  dsimp only
  rw [hentry, hbound]
  rfl

end LastResortGuards

/-- A peer in cooldown is served again at once when its connection ends, and when enough strangers
turn up. -/
theorem cooldown_forgotten :
    ∃ (g : LastResortGuards) (ps : PeerState),
      g.peer[([1] : PeerId)]? = some (ps.addBadness g.cfg 0 100) ∧
      (ps.addBadness g.cfg 0 100).cooldownUntil = some (120*nanosPerSec) ∧
      (([LastResortCall.onPeerDisconnected 5 [1]].foldl LastResortGuards.step g).checkAction
        ⟨9, [1], true, none, .version, 1, none⟩).1 = .allow ∧
      ∃ calls : List LastResortCall, (∀ now, .onPeerDisconnected now [1] ∉ calls) ∧
        ((calls.foldl LastResortGuards.step g).checkAction
          ⟨9, [1], true, none, .version, 1, none⟩).1 = .allow := by
  refine ⟨(LastResortGuards.new {} 0).reportMisbehavior 0 [1] 100, .new {} 0,
    ExtTreeMap.getElem?_insert_self, rfl, rfl, strangers maxTrackedPeers, ?_, ?_⟩
  · intro now hmem
    obtain ⟨i, -, hi⟩ := List.mem_map.mp hmem
    cases hi
  · have hknown : ∀ i, ((LastResortGuards.new {} 0).reportMisbehavior 0 [1] 100).peer[
        List.replicate (i+2) (0 : UInt8)]? = none := by
      intro i
      change ((∅ : ExtTreeMap PeerId PeerState).insert [1] _)[_]? = none
      have hne : ¬compare ([1] : PeerId) (List.replicate (i+2) 0) = .eq := by
        intro heq
        have hlength := congrArg List.length (LawfulEqCmp.eq_of_compare heq)
        rw [List.length_replicate] at hlength
        cases hlength
      rw [ExtTreeMap.getElem?_insert, if_neg hne, ExtTreeMap.getElem?_empty]
    obtain ⟨hsize, hcfg, -⟩ := LastResortGuards.strangers_tracked hknown (n := maxTrackedPeers)
      (by decide)
    apply LastResortGuards.checkAction_forgotten _ hcfg
    rw [hsize]
    decide

end Remzar
