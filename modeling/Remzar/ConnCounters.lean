import Remzar.Lib.Runs
import Remzar.Lib.Tally
import Remzar.ConnGuard

/-! The counters of the connection guard against the connections that are really open: what
every order of its calls keeps, and the connections that put the counters wrong. -/
namespace Remzar
open Std Tally

inductive GuardCall where
  | connectionEstablished (peer : PeerId) (remoteAddr : Multiaddr) (now : Instant)
  | tryAdmit (peer : PeerId)
  | connectionClosed (peer : PeerId)
  | sweepTimeouts (now : Instant)

/-! ### What a call does -/

namespace ConnGuard

variable {g : ConnGuard} {peer : PeerId} {now : Instant}

/-- A connection the guard counts: from an address that is not too eager, with room for a
handshake. -/
def Counts (g : ConnGuard) (peer : PeerId) (ip : IpAddr) (now : Instant) : Prop :=
  (pruneRateWindow (g.recentAttempts ip) now g.cfg.rateWindow).length <
    g.cfg.maxNewConnsPerIpPerWindow ∧
  (g.pending.size < g.cfg.maxHandshaking ∨ peer ∈ g.pending)

/-- The state of a peer with one more connection. -/
def oneMore (g : ConnGuard) (peer : PeerId) (ip : IpAddr) : PeerConnState :=
  ⟨min ((g.peerState[peer]?.map PeerConnState.conns).getD 0+1) usizeMax, some ip,
    some (subnetKey ip)⟩

/-- A new connection is noted as an attempt at most, or counted; its peer then waits for a
handshake, unless there is no time left for one. -/
theorem established_cases (g : ConnGuard) (peer : PeerId) (remoteAddr : Multiaddr) (now : Instant) :
    (∃ attempts, (g.onConnectionEstablished peer remoteAddr now).2 =
      { g with recentAttempts := attempts }) ∨
    ∃ ip attempts pending, ipFromMultiaddr remoteAddr = some ip ∧ g.Counts peer ip now ∧
      (g.onConnectionEstablished peer remoteAddr now).2 =
        { g with
          recentAttempts := attempts
          peerState := g.peerState.insert peer (g.oneMore peer ip)
          pending } ∧
      ((peer ∈ g.pending ∨ lastInstant < now+g.cfg.handshakeDeadline) ∧ pending = g.pending ∨
        peer ∉ g.pending ∧ now+g.cfg.handshakeDeadline ≤ lastInstant ∧
          pending = g.pending.insert peer (now+g.cfg.handshakeDeadline)) := by
  unfold onConnectionEstablished
  split
  · exact Or.inl ⟨_, rfl⟩
  · rename_i ip hip
    dsimp only
    split
    · exact Or.inl ⟨_, rfl⟩
    · rename_i hrate
      split
      · exact Or.inl ⟨_, rfl⟩
      · rename_i hpool
        right
        have hcounts : g.Counts peer ip now := by
          refine ⟨Nat.not_le.mp hrate, ?_⟩
          by_cases hroom : g.cfg.maxHandshaking ≤ g.pending.size
          · exact Or.inr (of_not_not fun hnot => hpool ⟨hroom, hnot⟩)
          · exact Or.inl (Nat.not_le.mp hroom)
        unfold countConnection
        dsimp only
        split
        · rename_i hin
          exact ⟨ip, _, _, hip, hcounts, rfl, Or.inl ⟨Or.inl hin, rfl⟩⟩
        · rename_i hnot
          split
          · rename_i htime
            exact ⟨ip, _, _, hip, hcounts, rfl, Or.inr ⟨hnot, htime, rfl⟩⟩
          · rename_i htime
            exact ⟨ip, _, _, hip, hcounts, rfl, Or.inl ⟨Or.inr (Nat.not_le.mp htime), rfl⟩⟩

/-- A peer is admitted for the address that is remembered, below both caps; every other answer
ends a handshake at most. -/
theorem tryAdmit_cases (g : ConnGuard) (peer : PeerId) :
    (((g.tryAdmit peer).1 ≠ .allow ∨ peer ∈ g.admitted) ∧ ((g.tryAdmit peer).2 = g ∨
      (g.tryAdmit peer).2 = { g with pending := g.pending.erase peer })) ∨
    peer ∉ g.admitted ∧ ∃ st ip subnet, g.peerState[peer]? = some st ∧ st.ip = some ip ∧
      st.subnet = some subnet ∧ g.perIp ip < g.cfg.maxPerIp ∧
      g.perSubnet subnet < subnetCap g.cfg subnet ∧
      g.tryAdmit peer = (.allow, { g with
        pending := g.pending.erase peer
        admitted := insert peer g.admitted
        perIp := Function.update g.perIp ip (g.perIp ip+1)
        perSubnet := Function.update g.perSubnet subnet (g.perSubnet subnet+1) }) := by
  have hdrop (reason : DropReason) : GuardDecision.drop reason ≠ .allow := fun h => nomatch h
  by_cases hin : peer ∈ g.admitted
  · rw [tryAdmit, if_pos hin]
    exact Or.inl ⟨Or.inr hin, Or.inr rfl⟩
  · unfold tryAdmit
    rw [if_neg hin]
    split
    · exact Or.inl ⟨Or.inl (hdrop _), Or.inl rfl⟩
    · rename_i st hst
      split
      · exact Or.inl ⟨Or.inl (hdrop _), Or.inl rfl⟩
      · rename_i ip hip
        split
        · exact Or.inl ⟨Or.inl (hdrop _), Or.inl rfl⟩
        · rename_i hcap
          split
          · exact Or.inl ⟨Or.inl (hdrop _), Or.inl rfl⟩
          · rename_i subnet hsubnet
            split
            · exact Or.inl ⟨Or.inl (hdrop _), Or.inl rfl⟩
            · rename_i hcap'
              unfold admitCounted
              dsimp only
              split
              · exact Or.inl ⟨Or.inl (hdrop _), Or.inr rfl⟩
              · exact Or.inr ⟨hin, st, ip, subnet, hst, hip, hsubnet, Nat.not_le.mp hcap,
                  Nat.not_le.mp hcap', rfl⟩

end ConnGuard

/-! ### The guard beside the open connections -/

/-- The guard beside what it should know: the open connections of every peer, dropped ones
included, and for a peer that was admitted and is still connected the address it was
counted for. -/
structure WatchedGuard where
  guard : ConnGuard
  opens : PeerId → ℕ
  countedFor : PeerId → Option IpAddr

namespace WatchedGuard

def start (cfg : ConnGuardConfig) : WatchedGuard := ⟨.new cfg, fun _ => 0, fun _ => none⟩

def step (w : WatchedGuard) : GuardCall → WatchedGuard
  | .connectionEstablished peer remoteAddr now =>
    { w with
      guard := (w.guard.onConnectionEstablished peer remoteAddr now).2
      opens := Function.update w.opens peer (w.opens peer+1) }
  | .tryAdmit peer =>
    let (decision, guard) := w.guard.tryAdmit peer
    if decision = .allow ∧ peer ∉ w.guard.admitted then
      let ip := w.guard.peerState[peer]?.bind PeerConnState.ip
      { w with guard, countedFor := Function.update w.countedFor peer ip }
    else { w with guard }
  | .connectionClosed peer =>
    { guard := w.guard.onConnectionClosed peer
      opens := Function.update w.opens peer (w.opens peer-1)
      countedFor :=
        if w.opens peer ≤ 1 then Function.update w.countedFor peer none else w.countedFor }
  | .sweepTimeouts now => { w with guard := (w.guard.sweepTimeouts now).2 }

/-- Only an open connection closes. -/
def Feasible (w : WatchedGuard) : GuardCall → Prop
  | .connectionClosed peer => 0 < w.opens peer
  | _ => True

instance (w : WatchedGuard) (call : GuardCall) : Decidable (w.Feasible call) :=
  match call with
  | .connectionClosed peer => inferInstanceAs (Decidable (0 < w.opens peer))
  | .connectionEstablished _ _ _ => inferInstanceAs (Decidable True)
  | .tryAdmit _ => inferInstanceAs (Decidable True)
  | .sweepTimeouts _ => inferInstanceAs (Decidable True)

/-! ### What the counters should say -/

/-- The admitted peers with an open connection that were counted under a key: their address
itself or its subnet. -/
def heldBy {κ : Type} [DecidableEq κ] (w : WatchedGuard) (key : IpAddr → κ) (k : κ) :
    Finset PeerId :=
  w.guard.admitted.filter fun p => 0 < w.opens p ∧ (w.countedFor p).map key = some k

structure Exact (w : WatchedGuard) : Prop where
  perIp : ∀ ip, w.guard.perIp ip = (w.heldBy id ip).card
  perSubnet : ∀ subnet, w.guard.perSubnet subnet = (w.heldBy subnetKey subnet).card
  maxPerIp : ∀ ip, w.guard.perIp ip ≤ w.guard.cfg.maxPerIp
  maxPerSubnet : ∀ subnet, w.guard.perSubnet subnet ≤ ConnGuard.subnetCap w.guard.cfg subnet
  notPending : ∀ p ∈ w.guard.admitted, p ∉ w.guard.pending
  notSwept : ∀ now, ∀ p ∈ (w.guard.sweepTimeouts now).1, p ∉ w.guard.admitted
  handshaking : w.guard.pending.size ≤ w.guard.cfg.maxHandshaking

/-- The guard lists every peer that it admitted and that is still connected. -/
def ListsAdmitted (w : WatchedGuard) : Prop :=
  ∀ p, p ∈ w.guard.admitted ↔ w.countedFor p ≠ none

/-- The address the guard remembers for a peer. -/
def remembered (w : WatchedGuard) (peer : PeerId) : Option IpAddr :=
  w.guard.peerState[peer]?.bind PeerConnState.ip

/-- A further connection of an admitted peer is not counted, or there is no time left for a
handshake and the connection comes from the address that is remembered. -/
def CountsOnce (w : WatchedGuard) : GuardCall → Prop
  | .connectionEstablished peer remoteAddr now => peer ∈ w.guard.admitted →
    ∀ ip, ipFromMultiaddr remoteAddr = some ip → w.guard.Counts peer ip now →
      ConnGuard.lastInstant < now+w.guard.cfg.handshakeDeadline ∧ w.remembered peer = some ip
  | _ => True

/-- When a connection of an admitted peer closes and it is the only one the guard counts, it is
the only one that is open. -/
def ClosesLast (w : WatchedGuard) : GuardCall → Prop
  | .connectionClosed peer => peer ∈ w.guard.admitted →
    w.guard.peerState[peer]?.map PeerConnState.conns = some 1 → w.opens peer = 1
  | _ => True

/-! ### What a call keeps -/

/-- The invariant: the counters are tallies of the admitted peers, the guard remembers the
address that an admitted peer was counted for, and counts no connection that is not open. -/
structure Kept (w : WatchedGuard) : Prop where
  perIp : w.guard.perIp = tally w.guard.admitted w.countedFor
  perSubnet : w.guard.perSubnet = tally w.guard.admitted fun p => (w.countedFor p).map subnetKey
  maxPerIp : ∀ ip, w.guard.perIp ip ≤ w.guard.cfg.maxPerIp
  maxPerSubnet : ∀ subnet, w.guard.perSubnet subnet ≤ ConnGuard.subnetCap w.guard.cfg subnet
  notPending : ∀ p ∈ w.guard.admitted, p ∉ w.guard.pending
  handshaking : w.guard.pending.size ≤ w.guard.cfg.maxHandshaking
  counts : ∀ (p : PeerId) (st : PeerConnState), w.guard.peerState[p]? = some st →
    1 ≤ st.conns ∧ st.conns ≤ w.opens p ∧ st.subnet = st.ip.map subnetKey
  remembers : ∀ p ∈ w.guard.admitted, ∃ st ip, w.guard.peerState[p]? = some st ∧
    st.ip = some ip ∧ w.countedFor p = some ip

theorem kept_start (cfg : ConnGuardConfig) : (start cfg).Kept where
  perIp := tally_empty.symm
  perSubnet := tally_empty.symm
  maxPerIp _ := Nat.zero_le _
  maxPerSubnet _ := Nat.zero_le _
  notPending _ hp := absurd hp (Finset.notMem_empty _)
  handshaking := by
    change (∅ : ExtTreeMap PeerId Instant).size ≤ _
    rw [ExtTreeMap.size_empty]
    exact Nat.zero_le _
  counts p st hst := by
    change (∅ : ExtTreeMap PeerId PeerConnState)[p]? = some st at hst
    rw [ExtTreeMap.getElem?_empty] at hst
    cases hst
  remembers _ hp := absurd hp (Finset.notMem_empty _)

section
variable {w : WatchedGuard} {peer : PeerId}

theorem Kept.opens_pos (h : w.Kept) {p : PeerId} (hp : p ∈ w.guard.admitted) : 0 < w.opens p := by
  obtain ⟨st, -, hst, -⟩ := h.remembers p hp
  obtain ⟨hone, hle, -⟩ := h.counts p st hst
  exact Nat.lt_of_lt_of_le hone hle

theorem Kept.card_heldBy {κ : Type} [DecidableEq κ] (h : w.Kept) (key : IpAddr → κ) (k : κ) :
    (w.heldBy key k).card = tally w.guard.admitted (fun p => (w.countedFor p).map key) k := by
  unfold heldBy tally
  congr 1
  apply Finset.filter_congr
  exact fun p hp => and_iff_right (h.opens_pos hp)

theorem Kept.exact (h : w.Kept) : w.Exact where
  perIp ip := by
    rw [h.card_heldBy, h.perIp]
    congr 1
    funext p
    exact (congrFun Option.map_id _).symm
  perSubnet subnet := by rw [h.card_heldBy, h.perSubnet]
  maxPerIp := h.maxPerIp
  maxPerSubnet := h.maxPerSubnet
  notPending := h.notPending
  notSwept now p hp hadmitted := by
    obtain ⟨⟨q, deadline⟩, hmem, rfl⟩ := List.mem_map.mp hp
    have hsome := ExtTreeMap.mem_toList_iff_getElem?_eq_some.mp (List.mem_filter.mp hmem).1
    exact h.notPending q hadmitted (ExtTreeMap.mem_iff_isSome_getElem?.mpr (by rw [hsome]; rfl))
  handshaking := h.handshaking

/-- Fewer handshakes, with everything else as it was. -/
theorem Kept.pending (h : w.Kept) {pending : ExtTreeMap PeerId Instant}
    (hsub : ∀ p, p ∈ pending → p ∈ w.guard.pending) (hsize : pending.size ≤ w.guard.pending.size) :
    ({ w with guard := { w.guard with pending } } : WatchedGuard).Kept :=
  { h with
    notPending := fun p hp hin => h.notPending p hp (hsub p hin)
    handshaking := hsize.trans h.handshaking }

theorem Kept.sweepTimeouts (h : w.Kept) (now : Instant) : (w.step (.sweepTimeouts now)).Kept :=
  h.pending (fun _ hp => ExtTreeMap.mem_of_mem_filter hp) ExtTreeMap.size_filter_le_size

theorem Kept.erasePending (h : w.Kept) (peer : PeerId) :
    ({ w with guard := { w.guard with pending := w.guard.pending.erase peer } } :
      WatchedGuard).Kept :=
  h.pending (fun _ hp => ExtTreeMap.mem_of_mem_erase hp) ExtTreeMap.size_erase_le

theorem Kept.tryAdmit (h : w.Kept) (peer : PeerId) : (w.step (.tryAdmit peer)).Kept := by
  rcases w.guard.tryAdmit_cases peer with
    ⟨hold, hguard⟩ | ⟨hnot, st, ip, subnet, hst, hip, hsubnet, hroom, hroom', heq⟩
  · have hstep : w.step (.tryAdmit peer) = { w with guard := (w.guard.tryAdmit peer).2 } := by
      unfold step
      dsimp only
      rw [if_neg]
      rintro ⟨hallow, hnot⟩
      exact hold.elim (fun hne => hne hallow) hnot
    rw [hstep]
    rcases hguard with hguard | hguard
    · rw [hguard]
      exact h
    · rw [hguard]
      exact h.erasePending peer
  · have hkey : subnet = subnetKey ip := by
      have hcounts := (h.counts peer st hst).2.2
      rw [hip, hsubnet] at hcounts
      exact Option.some_inj.mp hcounts
    subst hkey
    have hstep : w.step (.tryAdmit peer) =
        { w with
          guard := { w.guard with
            pending := w.guard.pending.erase peer
            admitted := insert peer w.guard.admitted
            perIp := Function.update w.guard.perIp ip (w.guard.perIp ip+1)
            perSubnet := Function.update w.guard.perSubnet (subnetKey ip)
              (w.guard.perSubnet (subnetKey ip)+1) }
          countedFor := Function.update w.countedFor peer (some ip) } := by
      unfold step
      dsimp only
      rw [heq]
      dsimp only
      rw [if_pos ⟨rfl, hnot⟩, hst, Option.bind_some, hip]
    rw [hstep]
    have hother {p : PeerId} (hp : p ∈ w.guard.admitted) :
        w.countedFor p = Function.update w.countedFor peer (some ip) p :=
      (Function.update_of_ne (ne_of_mem_of_not_mem hp hnot) _ _).symm
    constructor
    · change Function.update _ _ _ = tally (insert _ _) _
      rw [tally_insert hnot (Function.update_self _ _ _), ← tally_congr fun _ => hother, ← h.perIp]
    · change Function.update _ _ _ = tally (insert _ _) _
      rw [tally_insert hnot
          (congrArg (Option.map subnetKey) (Function.update_self peer (some ip) w.countedFor)),
        ← tally_congr fun p hp => congrArg (Option.map subnetKey) (hother hp), ← h.perSubnet]
    · intro ip'
      change Function.update w.guard.perIp ip (w.guard.perIp ip+1) ip' ≤ w.guard.cfg.maxPerIp
      rw [Function.update_apply]
      split
      · rename_i heq
        exact hroom
      · exact h.maxPerIp ip'
    · intro subnet
      change Function.update w.guard.perSubnet (subnetKey ip) (w.guard.perSubnet (subnetKey ip)+1)
        subnet ≤ ConnGuard.subnetCap w.guard.cfg subnet
      rw [Function.update_apply]
      split
      · rename_i heq
        rw [heq]
        exact hroom'
      · exact h.maxPerSubnet subnet
    · intro p hp hpending
      rcases Finset.mem_insert.mp hp with rfl | hp
      · exact absurd hpending (by rw [ExtTreeMap.mem_erase]; simp)
      · exact h.notPending p hp (ExtTreeMap.mem_of_mem_erase hpending)
    · exact ExtTreeMap.size_erase_le.trans h.handshaking
    · exact h.counts
    · intro p hp
      rcases Finset.mem_insert.mp hp with rfl | hp
      · exact ⟨st, ip, hst, hip, Function.update_self _ _ _⟩
      · obtain ⟨st', ip', hst', hip', hcounted⟩ := h.remembers p hp
        exact ⟨st', ip', hst', hip', (hother hp).symm.trans hcounted⟩

/-- A peer that the guard does not admit may be forgotten, and its connections may come and go. -/
theorem Kept.elsewhere (h : w.Kept) (hnot : peer ∉ w.guard.admitted) {opens : PeerId → ℕ}
    {countedFor : PeerId → Option IpAddr} {pending : ExtTreeMap PeerId Instant}
    {peerState : ExtTreeMap PeerId PeerConnState} {recentAttempts : IpAddr → List Instant}
    (hopens : ∀ p, p ≠ peer → opens p = w.opens p)
    (hcounted : ∀ p, p ≠ peer → countedFor p = w.countedFor p)
    (hpending : ∀ p, p ≠ peer → p ∈ pending → p ∈ w.guard.pending)
    (hsize : pending.size ≤ w.guard.cfg.maxHandshaking)
    (hstates : ∀ p, p ≠ peer → peerState[p]? = w.guard.peerState[p]?)
    (hstate : ∀ (st : PeerConnState), peerState[peer]? = some st →
      1 ≤ st.conns ∧ st.conns ≤ opens peer ∧ st.subnet = st.ip.map subnetKey) :
    (⟨{ w.guard with pending, peerState, recentAttempts }, opens, countedFor⟩ : WatchedGuard).Kept := by
  have hne {p : PeerId} (hp : p ∈ w.guard.admitted) : p ≠ peer := ne_of_mem_of_not_mem hp hnot
  refine
    { perIp := ?_
      perSubnet := ?_
      maxPerIp := h.maxPerIp
      maxPerSubnet := h.maxPerSubnet
      notPending := fun p hp hin => h.notPending p hp (hpending p (hne hp) hin)
      handshaking := hsize
      counts := ?_
      remembers := ?_ }
  · exact h.perIp.trans (tally_congr fun p hp => (hcounted p (hne hp)).symm)
  · exact h.perSubnet.trans
      (tally_congr fun p hp => congrArg (Option.map subnetKey) (hcounted p (hne hp)).symm)
  · intro p st hst
    by_cases hpeer : p = peer
    · subst hpeer
      exact hstate st hst
    · have hold := h.counts p st ((hstates p hpeer).symm.trans hst)
      refine ⟨hold.1, ?_, hold.2.2⟩
      exact hold.2.1.trans (hopens p hpeer).ge
  · intro p hp
    obtain ⟨st, ip, hst, hip, hold⟩ := h.remembers p hp
    exact ⟨st, ip, (hstates p (hne hp)).trans hst, hip, (hcounted p (hne hp)).trans hold⟩

theorem onConnectionClosed_other {p : PeerId} (hp : p ≠ peer) :
    p ∈ (w.guard.onConnectionClosed peer).admitted ↔ p ∈ w.guard.admitted := by
  have herase : p ∈ w.guard.admitted.erase peer ↔ p ∈ w.guard.admitted :=
    Finset.mem_erase.trans (and_iff_right hp)
  unfold ConnGuard.onConnectionClosed
  split
  · exact herase
  · split
    · dsimp only
      split
      · exact herase
      · exact Iff.rfl
    · exact Iff.rfl

theorem counted_other (w : WatchedGuard) {p : PeerId} (hp : p ≠ peer) :
    (w.step (.connectionClosed peer)).countedFor p = w.countedFor p := by
  change (if w.opens peer ≤ 1 then Function.update w.countedFor peer none else w.countedFor) p = _
  split
  · exact Function.update_of_ne hp _ _
  · rfl

theorem getElem?_erase_other {α : Type} (m : ExtTreeMap PeerId α) {p : PeerId} (hp : p ≠ peer) :
    (m.erase peer)[p]? = m[p]? := by
  rw [ExtTreeMap.getElem?_erase, if_neg]
  exact fun heq => hp (Std.compare_eq_iff_eq.mp heq).symm

theorem getElem?_insert_other {α : Type} (m : ExtTreeMap PeerId α) (v : α) {p : PeerId}
    (hp : p ≠ peer) : (m.insert peer v)[p]? = m[p]? := by
  rw [ExtTreeMap.getElem?_insert, if_neg]
  exact fun heq => hp (Std.compare_eq_iff_eq.mp heq).symm

theorem decrement_le {κ : Type} [DecidableEq κ] (counts : κ → ℕ) (key : Option κ) (k : κ) :
    ConnGuard.decrement counts key k ≤ counts k := by
  cases key with
  | none => exact Nat.le_refl _
  | some k' =>
    rw [ConnGuard.decrement, Function.update_apply]
    split
    · rename_i heq
      rw [heq]
      exact Nat.sub_le _ _
    · exact Nat.le_refl _

theorem Kept.connectionClosed (h : w.Kept) (peer : PeerId) : (w.step (.connectionClosed peer)).Kept := by
  have hopens : ∀ p, p ≠ peer → Function.update w.opens peer (w.opens peer-1) p = w.opens p :=
    fun p hp => Function.update_of_ne hp _ _
  have hcounted : ∀ p, p ≠ peer → (w.step (.connectionClosed peer)).countedFor p = w.countedFor p :=
    fun p hp => counted_other w hp
  have hsize : (w.guard.pending.erase peer).size ≤ w.guard.cfg.maxHandshaking :=
    ExtTreeMap.size_erase_le.trans h.handshaking
  have hgone (st : PeerConnState) (P : Prop) (hst : (w.guard.peerState.erase peer)[peer]? = some st) :
      P := by
    rw [ExtTreeMap.getElem?_erase_self] at hst
    cases hst
  unfold step at hcounted ⊢
  dsimp only at hcounted ⊢
  unfold ConnGuard.onConnectionClosed
  cases hst : w.guard.peerState[peer]? with
  | none =>
    have hnot : peer ∉ w.guard.admitted := by
      intro hin
      obtain ⟨st, -, hsome, -⟩ := h.remembers peer hin
      cases hst.symm.trans hsome
    dsimp only
    rw [Finset.erase_eq_of_notMem hnot]
    refine h.elsewhere hnot hopens hcounted (fun p _ hp => ExtTreeMap.mem_of_mem_erase hp) hsize
      (fun p _ => rfl) ?_
    intro st hsome
    cases hst.symm.trans hsome
  | some st =>
    obtain ⟨hone, hle, hsubnet⟩ := h.counts peer st hst
    dsimp only
    by_cases hlast : st.conns-1 = 0
    · rw [if_pos hlast]
      by_cases hin : peer ∈ w.guard.admitted
      · -- the peer leaves under the address it was counted for
        rw [if_pos hin]
        obtain ⟨st', ip, hst', hip, hcountedFor⟩ := h.remembers peer hin
        cases hst.symm.trans hst'
        rw [hip] at hsubnet ⊢
        rw [hsubnet]
        constructor
        · change Function.update _ _ _ = tally (w.guard.admitted.erase peer) _
          rw [h.perIp, ← tally_erase hin hcountedFor]
          exact tally_congr fun p hp => (hcounted p (Finset.ne_of_mem_erase hp)).symm
        · change Function.update _ _ _ = tally (w.guard.admitted.erase peer) _
          rw [h.perSubnet, ← tally_erase hin (congrArg (Option.map subnetKey) hcountedFor)]
          exact tally_congr fun p hp =>
            congrArg (Option.map subnetKey) (hcounted p (Finset.ne_of_mem_erase hp)).symm
        · exact fun ip' => (decrement_le _ (some ip) ip').trans (h.maxPerIp ip')
        · exact fun subnet => (decrement_le _ (some (subnetKey ip)) subnet).trans (h.maxPerSubnet subnet)
        · exact fun p hp hpending =>
            h.notPending p (Finset.mem_of_mem_erase hp) (ExtTreeMap.mem_of_mem_erase hpending)
        · exact hsize
        · intro p st' hst'
          by_cases hpeer : p = peer
          · subst hpeer
            exact hgone st' _ hst'
          · have hold := h.counts p st' ((getElem?_erase_other _ hpeer).symm.trans hst')
            exact ⟨hold.1, hold.2.1.trans (hopens p hpeer).ge, hold.2.2⟩
        · intro p hp
          obtain ⟨hpeer, hp⟩ := Finset.mem_erase.mp hp
          obtain ⟨st', ip', hst', hip', hold⟩ := h.remembers p hp
          exact ⟨st', ip', (getElem?_erase_other _ hpeer).trans hst', hip',
            (hcounted p hpeer).trans hold⟩
      · rw [if_neg hin]
        exact h.elsewhere hin hopens hcounted (fun p _ hp => ExtTreeMap.mem_of_mem_erase hp) hsize
          (fun p hp => getElem?_erase_other _ hp) (fun st => hgone st _)
    · have hmore : ¬w.opens peer ≤ 1 := by omega
      rw [if_neg hlast, if_neg hmore]
      refine { h with counts := ?_, remembers := ?_ }
      · intro p st' hst'
        by_cases hpeer : p = peer
        · subst hpeer
          change (w.guard.peerState.insert p _)[p]? = some st' at hst'
          rw [ExtTreeMap.getElem?_insert_self] at hst'
          obtain rfl := Option.some_inj.mp hst'
          change 1 ≤ st.conns-1 ∧ st.conns-1 ≤ Function.update w.opens p (w.opens p-1) p ∧ _
          rw [Function.update_self]
          exact ⟨by omega, by omega, hsubnet⟩
        · have hold := h.counts p st' ((getElem?_insert_other _ _ hpeer).symm.trans hst')
          exact ⟨hold.1, hold.2.1.trans (hopens p hpeer).ge, hold.2.2⟩
      · intro p hp
        obtain ⟨st', ip, hst', hip, hold⟩ := h.remembers p hp
        by_cases hpeer : p = peer
        · subst hpeer
          cases hst.symm.trans hst'
          exact ⟨_, ip, ExtTreeMap.getElem?_insert_self, hip, hold⟩
        · exact ⟨st', ip, (getElem?_insert_other _ _ hpeer).trans hst', hip, hold⟩

theorem Kept.connectionEstablished (h : w.Kept) {peer : PeerId} {remoteAddr : Multiaddr}
    {now : Instant} (honce : w.CountsOnce (.connectionEstablished peer remoteAddr now)) :
    (w.step (.connectionEstablished peer remoteAddr now)).Kept := by
  have hother : ∀ p, p ≠ peer → Function.update w.opens peer (w.opens peer+1) p = w.opens p :=
    fun p hp => Function.update_of_ne hp _ _
  have hself : Function.update w.opens peer (w.opens peer+1) peer = w.opens peer+1 :=
    Function.update_self _ _ _
  unfold step
  dsimp only
  rcases w.guard.established_cases peer remoteAddr now with
    ⟨attempts, heq⟩ | ⟨ip, attempts, pending, hip, hcounts, heq, hpending⟩
  · rw [heq]
    refine { h with counts := fun p st hst => ?_ }
    have hold := h.counts p st hst
    refine ⟨hold.1, hold.2.1.trans ?_, hold.2.2⟩
    by_cases hpeer : p = peer
    · subst hpeer
      exact (Nat.le_succ _).trans hself.ge
    · exact (hother p hpeer).ge
  · rw [heq]
    have hconns : (w.guard.peerState[peer]?.map PeerConnState.conns).getD 0 ≤ w.opens peer := by
      cases hst : w.guard.peerState[peer]? with
      | none => exact Nat.zero_le _
      | some st => exact (h.counts peer st hst).2.1
    have hmore : 1 ≤ (w.guard.oneMore peer ip).conns ∧
        (w.guard.oneMore peer ip).conns ≤ w.opens peer+1 := by
      unfold ConnGuard.oneMore
      constructor
      · exact Nat.le_min.mpr ⟨Nat.succ_pos _, by decide⟩
      · exact (Nat.min_le_left _ _).trans (Nat.succ_le_succ hconns)
    by_cases hin : peer ∈ w.guard.admitted
    · -- not counted, but for a peer without time for a handshake
      obtain ⟨hlate, hremembered⟩ := honce hin ip hip hcounts
      have hsame : pending = w.guard.pending := by
        rcases hpending with ⟨-, hsame⟩ | ⟨-, htime, -⟩
        · exact hsame
        · exact absurd htime (Nat.not_le.mpr hlate)
      rw [hsame]
      refine { h with counts := ?_, remembers := ?_ }
      · intro p st hst
        by_cases hpeer : p = peer
        · subst hpeer
          change (w.guard.peerState.insert p _)[p]? = some st at hst
          rw [ExtTreeMap.getElem?_insert_self] at hst
          obtain rfl := Option.some_inj.mp hst
          exact ⟨hmore.1, hmore.2.trans hself.ge, rfl⟩
        · have hold := h.counts p st ((getElem?_insert_other _ _ hpeer).symm.trans hst)
          exact ⟨hold.1, hold.2.1.trans (hother p hpeer).ge, hold.2.2⟩
      · intro p hp
        obtain ⟨st, ip', hst, hip', hold⟩ := h.remembers p hp
        by_cases hpeer : p = peer
        · subst hpeer
          rw [remembered, hst, Option.bind_some, hip'] at hremembered
          exact ⟨_, ip, ExtTreeMap.getElem?_insert_self, rfl, hold.trans hremembered⟩
        · exact ⟨st, ip', (getElem?_insert_other _ _ hpeer).trans hst, hip', hold⟩
    · refine h.elsewhere hin hother (fun _ _ => rfl) ?_ ?_ (fun p hp => getElem?_insert_other _ _ hp) ?_
      · intro p hp hmem
        rcases hpending with ⟨-, rfl⟩ | ⟨-, -, rfl⟩
        · exact hmem
        · rcases ExtTreeMap.mem_insert.mp hmem with heq | hmem
          · exact absurd (Std.compare_eq_iff_eq.mp heq).symm hp
          · exact hmem
      · rcases hpending with ⟨-, rfl⟩ | ⟨hnot, -, rfl⟩
        · exact h.handshaking
        · have hroom := hcounts.2.resolve_right hnot
          exact ExtTreeMap.size_insert_le.trans hroom
      · intro st hst
        rw [ExtTreeMap.getElem?_insert_self] at hst
        obtain rfl := Option.some_inj.mp hst
        exact ⟨hmore.1, hmore.2.trans hself.ge, rfl⟩

/-- What every call keeps, if no connection of an admitted peer is counted again. -/
theorem Kept.step (h : w.Kept) (call : GuardCall) (honce : w.CountsOnce call) : (w.step call).Kept := by
  cases call with
  | connectionEstablished peer remoteAddr now => exact h.connectionEstablished honce
  | tryAdmit peer => exact h.tryAdmit peer
  | connectionClosed peer => exact h.connectionClosed peer
  | sweepTimeouts now => exact h.sweepTimeouts now

theorem ListsAdmitted.connectionClosed (hlists : w.ListsAdmitted) (h : w.Kept)
    (hlast : w.ClosesLast (.connectionClosed peer)) :
    (w.step (.connectionClosed peer)).ListsAdmitted := by
  intro p
  by_cases hpeer : p = peer
  · subst hpeer
    unfold step
    dsimp only
    have hclear : w.countedFor p = none →
        (if w.opens p ≤ 1 then Function.update w.countedFor p none else w.countedFor) p = none := by
      intro hnone
      split
      · exact Function.update_self _ _ _
      · exact hnone
    unfold ConnGuard.onConnectionClosed
    cases hst : w.guard.peerState[p]? with
    | none =>
      have hnot : p ∉ w.guard.admitted := by
        intro hin
        obtain ⟨st, -, hsome, -⟩ := h.remembers p hin
        cases hst.symm.trans hsome
      have hnone := hclear (of_not_not fun hne => hnot ((hlists p).mpr hne))
      exact iff_of_false (Finset.notMem_erase _ _) (not_not.mpr hnone)
    | some st =>
      obtain ⟨hone, hle, -⟩ := h.counts p st hst
      dsimp only
      by_cases hconns : st.conns-1 = 0
      · rw [if_pos hconns]
        by_cases hin : p ∈ w.guard.admitted
        · have hopens : w.opens p = 1 := by
            apply hlast hin
            rw [hst, Option.map_some, Option.some_inj]
            omega
          rw [if_pos hin, if_pos hopens.le]
          exact iff_of_false (Finset.notMem_erase _ _) (not_not.mpr (Function.update_self _ _ _))
        · rw [if_neg hin]
          have hnone := hclear (of_not_not fun hne => hin ((hlists p).mpr hne))
          exact iff_of_false hin (not_not.mpr hnone)
      · have hmore : ¬w.opens p ≤ 1 := by omega
        rw [if_neg hconns, if_neg hmore]
        exact hlists p
  · rw [counted_other w hpeer, ← hlists p]
    exact onConnectionClosed_other hpeer

theorem ListsAdmitted.step (hlists : w.ListsAdmitted) (h : w.Kept) (call : GuardCall)
    (hlast : w.ClosesLast call) : (w.step call).ListsAdmitted := by
  cases call with
  | connectionEstablished peer remoteAddr now =>
    intro p
    unfold WatchedGuard.step
    dsimp only
    rcases w.guard.established_cases peer remoteAddr now with ⟨_, heq⟩ | ⟨_, _, _, -, -, heq, -⟩
    · rw [heq]
      exact hlists p
    · rw [heq]
      exact hlists p
  | tryAdmit peer =>
    intro p
    unfold WatchedGuard.step
    dsimp only
    rcases w.guard.tryAdmit_cases peer with
      ⟨hold, hguard⟩ | ⟨hnot, st, ip, subnet, hst, hip, -, -, -, heq⟩
    · rw [if_neg fun hnew => hold.elim (fun hne => hne hnew.1) hnew.2]
      rcases hguard with hguard | hguard
      · rw [hguard]
        exact hlists p
      · rw [hguard]
        exact hlists p
    · rw [heq]
      dsimp only
      rw [if_pos ⟨rfl, hnot⟩, hst, Option.bind_some, hip, Finset.mem_insert]
      change _ ↔ Function.update w.countedFor peer (some ip) p ≠ none
      by_cases hpeer : p = peer
      · subst hpeer
        rw [Function.update_self]
        exact iff_of_true (Or.inl rfl) (Option.some_ne_none ip)
      · rw [Function.update_of_ne hpeer, or_iff_right hpeer]
        exact hlists p
  | connectionClosed peer => exact hlists.connectionClosed h hlast
  | sweepTimeouts now => exact hlists

end

end WatchedGuard

/-- If no call counts a connection of an admitted peer again, the counters of the guard are exact
after every call; if moreover no admitted peer is forgotten early, the guard lists every peer that
it admitted and that is still connected. -/
theorem guard_counters_exact (cfg : ConnGuardConfig) (calls : List GuardCall)
    (honce : Runs.Steps WatchedGuard.step WatchedGuard.CountsOnce (.start cfg) calls)
    (pre : List GuardCall) (hpre : pre <+: calls) :
    (pre.foldl WatchedGuard.step (.start cfg)).Exact ∧
    (Runs.Steps WatchedGuard.step WatchedGuard.ClosesLast (.start cfg) calls →
      (pre.foldl WatchedGuard.step (.start cfg)).ListsAdmitted) := by
  have hkept := honce.invariant (fun w call hw hcall => hw.step call hcall)
    (WatchedGuard.kept_start cfg) hpre
  refine ⟨hkept.exact, fun hlast => ?_⟩
  have hstart : (WatchedGuard.start cfg).ListsAdmitted := fun p =>
    iff_of_false (Finset.notMem_empty p) (not_not.mpr rfl)
  have hstep : ∀ (w : WatchedGuard) call, w.Kept ∧ w.ListsAdmitted →
      w.CountsOnce call ∧ w.ClosesLast call → (w.step call).Kept ∧ (w.step call).ListsAdmitted :=
    fun w call hw hcall => ⟨hw.1.step call hcall.1, hw.2.step hw.1 call hcall.2⟩
  exact ((honce.and hlast).invariant hstep ⟨WatchedGuard.kept_start cfg, hstart⟩ hpre).2

namespace Sample

def firstHost : Multiaddr := [.ip4 ⟨#[10, 0, 0, 1], rfl⟩]
def secondHost : Multiaddr := [.ip4 ⟨#[10, 0, 1, 2], rfl⟩]

/-- A peer is admitted, connects again from another address, and closes both connections. -/
def movingPeer : List GuardCall :=
  [.connectionEstablished [1] firstHost 0, .tryAdmit [1], .connectionEstablished [1] secondHost 1,
    .connectionClosed [1], .connectionClosed [1]]

/-- A peer is admitted, and a connection of it without an address is dropped and closed. -/
def droppedConnection : List GuardCall :=
  [.connectionEstablished [1] firstHost 0, .tryAdmit [1], .connectionEstablished [1] [] 1,
    .connectionClosed [1]]

end Sample

theorem guard_counters_exact_droppedConnection :
    ((Sample.droppedConnection.take 3).foldl WatchedGuard.step (.start {})).Exact ∧
    (Runs.Steps WatchedGuard.step WatchedGuard.ClosesLast (.start {})
        (Sample.droppedConnection.take 3) →
      ((Sample.droppedConnection.take 3).foldl WatchedGuard.step (.start {})).ListsAdmitted) := by
  refine guard_counters_exact {} (Sample.droppedConnection.take 3) ?_ _ (List.prefix_refl _)
  refine ⟨fun hin => absurd hin (Finset.notMem_empty _), trivial, ?_, trivial⟩
  intro _ ip hip
  cases hip

/-- The address that a moving peer left is never free again, and a dropped connection takes the
admission of its peer along when it closes. -/
theorem guard_counters_drift :
    (Runs.Steps WatchedGuard.step WatchedGuard.Feasible (.start {}) Sample.movingPeer ∧
      ¬(Sample.movingPeer.foldl WatchedGuard.step (.start {})).Exact) ∧
    (Runs.Steps WatchedGuard.step WatchedGuard.Feasible (.start {}) Sample.droppedConnection ∧
      ¬(Sample.droppedConnection.foldl WatchedGuard.step (.start {})).ListsAdmitted) := by
  refine ⟨⟨⟨trivial, trivial, trivial, by decide +kernel, by decide +kernel, trivial⟩, ?_⟩,
    ⟨⟨trivial, trivial, trivial, by decide +kernel, trivial⟩, ?_⟩⟩
  · intro hexact
    have hheld := hexact.perIp (.v4 ⟨#[10, 0, 0, 1], rfl⟩)
    revert hheld
    decide +kernel
  · intro hlists
    have hlisted := hlists [1]
    revert hlisted
    decide +kernel

end Remzar
