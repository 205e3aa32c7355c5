import Mathlib
import Remzar.P2pSync
import Remzar.Chain

/-! Whole runs of branch hydration, read one hash at a time: what a step can do to the entry
of a hash and to the requests out for it. -/
namespace Remzar
open Std Fallible

/-! ### One hash -/

/-- What is known of a hash: its entry, and the requests out for it. -/
structure Tracked where
  entry : Option PendingHash
  requests : Set RequestId

namespace Hydration

def trackedAt (h : Hydration) (hash : Hash) : Tracked :=
  ⟨h.pendingByHash[hash]?, {r | h.inflightByRequest[r]? = some hash}⟩

end Hydration

namespace Tracked

/-- An exhausted entry has no retry left, and only an entry in flight has a request, one. -/
def Sound (t : Tracked) : Prop :=
  match t.entry with
  | none => t.requests = ∅
  | some p => (p.exhausted = true ↔ p.retriesLeft = 0) ∧
    if p.inFlight then p.exhausted = false ∧ ∃ r, t.requests = {r} else t.requests = ∅

def Exhausted (t : Tracked) : Prop := ∃ p, t.entry = some p ∧ p.exhausted = true

/-- One move of the tracker at a hash. Where `lossy` fails no move takes a last retry. -/
inductive Move (lossy : Prop) : Tracked → Tracked → Prop
  | track (p : PendingHash) (hnew : p.exhausted = false ∧ p.inFlight = false ∧ p.retriesLeft ≠ 0)
      (R : Set RequestId) : Move lossy ⟨none, R⟩ ⟨some p, R⟩
  | note (p p' : PendingHash) (R : Set RequestId)
      (hsame : p'.exhausted = p.exhausted ∧ p'.inFlight = p.inFlight ∧
        p'.retriesLeft = p.retriesLeft) : Move lossy ⟨some p, R⟩ ⟨some p', R⟩
  | issue (p : PendingHash) (R : Set RequestId) (r : RequestId) (now : Instant)
      (hopen : p.exhausted = false ∧ p.inFlight = false ∧ p.retriesLeft ≠ 0) :
      Move lossy ⟨some p, R⟩
        ⟨some { p with inFlight := true, lastAttemptAt := some now }, insert r R⟩
  | fail (p p' : PendingHash) (R R' : Set RequestId)
      (hretry : lossy ∨ 1 < p.retriesLeft)
      (hflight : p'.inFlight = false) (hleft : p'.retriesLeft = p.retriesLeft - 1)
      (hearlier : p'.exhausted = true → p.exhausted = true ∨ p.retriesLeft - 1 = 0)
      (hlast : p.retriesLeft - 1 = 0 → p'.exhausted = true)
      (hrequests : R' = ∅ ∨ ∃ r ∈ R, R' = R \ {r}) : Move lossy ⟨some p, R⟩ ⟨some p', R'⟩
  | drop (p : PendingHash) (R : Set RequestId) (r : RequestId) (hr : r ∈ R) :
      Move lossy ⟨some p, R⟩ ⟨none, R \ {r}⟩

variable {lossy : Prop} {t t' : Tracked}

theorem Move.sound (h : Move lossy t t') (ht : t.Sound) : t'.Sound := by
  cases h with
  | track p hnew R =>
    have hR : R = ∅ := ht
    obtain ⟨he, hf, hn⟩ := hnew
    simp [Sound, he, hf, hn, hR]
  | note p p' R hsame =>
    obtain ⟨he, hf, hn⟩ := hsame
    simpa [Sound, he, hf, hn] using ht
  | issue p R r now hopen =>
    obtain ⟨he, hf, hn⟩ := hopen
    have hR : R = ∅ := by simpa [Sound, hf] using ht.2
    refine ⟨by simpa [he] using hn, ?_⟩
    simp [he, hR]
  | fail p p' R R' hretry hflight hleft hearlier hlast hrequests =>
    have hiff : p.exhausted = true ↔ p.retriesLeft = 0 := ht.1
    refine ⟨?_, ?_⟩
    · rw [hleft]
      constructor
      · intro h
        rcases hearlier h with h | h
        · rw [hiff.mp h]
        · exact h
      · exact hlast
    · rw [hflight]
      change R' = ∅
      rcases hrequests with h | ⟨r, hr, rfl⟩
      · exact h
      · -- The request that failed was the only one.
        have hreq := ht.2
        change (if p.inFlight then p.exhausted = false ∧ ∃ r, R = {r} else R = ∅) at hreq
        split at hreq
        · obtain ⟨-, r', rfl⟩ := hreq
          rw [Set.mem_singleton_iff.mp hr]
          exact Set.sdiff_self
        · rw [hreq] at hr
          exact hr.elim
  | drop p R r hr =>
    change R \ {r} = ∅
    have hreq := ht.2
    change (if p.inFlight then p.exhausted = false ∧ ∃ r, R = {r} else R = ∅) at hreq
    split at hreq
    · obtain ⟨-, r', rfl⟩ := hreq
      rw [Set.mem_singleton_iff.mp hr]
      exact Set.sdiff_self
    · rw [hreq] at hr
      exact hr.elim

/-- An exhausted entry has no request out, so nothing can remove it. -/
theorem Move.exhausted (h : Move lossy t t') (ht : t.Sound) (he : t.Exhausted) : t'.Exhausted := by
  obtain ⟨q, hq, hqe⟩ := he
  cases h with
  | track p hnew R => simp at hq
  | note p p' R hsame =>
    obtain rfl : p = q := by simpa using hq
    exact ⟨p', rfl, hsame.1.trans hqe⟩
  | issue p R r now hopen =>
    obtain rfl : p = q := by simpa using hq
    rw [hopen.1] at hqe
    cases hqe
  | fail p p' R R' hretry hflight hleft hearlier hlast hrequests =>
    obtain rfl : p = q := by simpa using hq
    have hnone : p.retriesLeft = 0 := ht.1.mp hqe
    exact ⟨p', rfl, hlast (by omega)⟩
  | drop p R r hr =>
    obtain rfl : p = q := by simpa using hq
    have hreq := ht.2
    change (if p.inFlight then p.exhausted = false ∧ ∃ r, R = {r} else R = ∅) at hreq
    split at hreq
    · rw [hreq.1] at hqe
      cases hqe
    · rw [hreq] at hr
      exact hr.elim

theorem Move.not_exhausted (h : Move False t t') (he : ¬t.Exhausted) : ¬t'.Exhausted := by
  rintro ⟨q, hq, hqe⟩
  cases h with
  | track p hnew R =>
    obtain rfl : p = q := by simpa using hq
    rw [hnew.1] at hqe
    cases hqe
  | note p p' R hsame =>
    obtain rfl : p' = q := by simpa using hq
    exact he ⟨p, rfl, hsame.1.symm.trans hqe⟩
  | issue p R r now hopen =>
    obtain rfl := by simpa using hq
    have hpe : p.exhausted = true := hqe
    rw [hopen.1] at hpe
    cases hpe
  | fail p p' R R' hretry hflight hleft hearlier hlast hrequests =>
    obtain rfl : p' = q := by simpa using hq
    have hretry' : 1 < p.retriesLeft := hretry.resolve_left id
    rcases hearlier hqe with hp | hp
    · exact he ⟨p, rfl, hp⟩
    · omega
  | drop p R r hr => simp at hq

/-- What a whole step does at a hash. -/
abbrev Moves (lossy : Prop) : Tracked → Tracked → Prop := Relation.ReflTransGen (Move lossy)

theorem Moves.sound (h : Moves lossy t t') (ht : t.Sound) : t'.Sound := by
  induction h with
  | refl => exact ht
  | tail _ hstep ih => exact hstep.sound ih

theorem Moves.exhausted (h : Moves lossy t t') (ht : t.Sound) (he : t.Exhausted) :
    t'.Exhausted := by
  induction h with
  | refl => exact he
  | tail hrun hstep ih => exact hstep.exhausted (Moves.sound hrun ht) ih

theorem Moves.not_exhausted (h : Moves False t t') (he : ¬t.Exhausted) : ¬t'.Exhausted := by
  induction h with
  | refl => exact he
  | tail _ hstep ih => exact hstep.not_exhausted ih

end Tracked

/-! ### One operation -/

namespace Hydration
variable {lossy : Prop} {h h' h'' : Hydration} {hash : Hash}

/-- An operation that sends no request. -/
structure Quiet (lossy : Prop) (h h' : Hydration) : Prop where
  moves : ∀ k, Tracked.Moves lossy (h.trackedAt k) (h'.trackedAt k)
  cfg : h'.cfg = h.cfg
  requests : ∀ (r : RequestId) (k : Hash),
    h'.inflightByRequest[r]? = some k → h.inflightByRequest[r]? = some k

theorem Quiet.refl (lossy : Prop) (h : Hydration) : Quiet lossy h h :=
  ⟨fun _ => .refl, rfl, fun _ _ hr => hr⟩

theorem Quiet.trans (h₁ : Quiet lossy h h') (h₂ : Quiet lossy h' h'') : Quiet lossy h h'' :=
  ⟨fun k => (h₁.moves k).trans (h₂.moves k), h₂.cfg.trans h₁.cfg,
    fun r k hr => h₁.requests r k (h₂.requests r k hr)⟩

theorem enqueueOnce_quiet (lossy : Prop) (hash : Hash) (h : Hydration) :
    Quiet lossy h (enqueueOnce hash h) := by
  unfold enqueueOnce
  split
  · exact .refl lossy h
  · exact ⟨fun _ => .refl, rfl, fun _ _ hr => hr⟩

theorem foldl_enqueueOnce_quiet (lossy : Prop) (hashes : List Hash) (h : Hydration) :
    Quiet lossy h (hashes.foldl (fun h hash => enqueueOnce hash h) h) := by
  induction hashes generalizing h with
  | nil => exact .refl lossy h
  | cons hash rest ih =>
    rw [List.foldl_cons]
    exact (enqueueOnce_quiet lossy hash h).trans (ih _)

/-- An entry is replaced, and seen at its hash only. -/
theorem insert_quiet (lossy : Prop) {t : Option PendingHash} (p : PendingHash)
    (hentry : h.pendingByHash[hash]? = t)
    (hmove : ∀ R, Tracked.Move lossy ⟨t, R⟩ ⟨some p, R⟩) :
    Quiet lossy h { h with pendingByHash := h.pendingByHash.insert hash p } := by
  refine ⟨?_, rfl, fun _ _ hr => hr⟩
  intro k
  unfold trackedAt
  dsimp only
  rw [ExtTreeMap.getElem?_insert]
  split
  next heq =>
    obtain rfl : hash = k := LawfulEqCmp.eq_of_compare heq
    rw [hentry]
    exact .single (hmove _)
  next => exact .refl

theorem noteNeedMoreData_quiet (lossy : Prop) (peer : PeerId) (missing : Hash)
    (height : Option UInt64) (reason : HydrationReason) (context : String)
    (hcfg : h.cfg.maxRetriesPerHash ≠ 0) :
    Quiet lossy h (noteNeedMoreData peer missing height reason context h) := by
  unfold noteNeedMoreData
  split
  · exact .refl lossy h
  · split
    next existing hentry =>
      have hnoted := insert_quiet lossy { existing with
        originPeer := peer
        sourceHeight := existing.sourceHeight.or height
        reason := reason
        context := context } hentry fun R => .note existing _ R ⟨rfl, rfl, rfl⟩
      dsimp only
      split
      · exact hnoted.trans (enqueueOnce_quiet lossy _ _)
      · exact hnoted
    next hentry =>
      have htracked := insert_quiet lossy
        (.new peer height reason context h.cfg) hentry fun R => .track _ ⟨rfl, rfl, hcfg⟩ R
      exact htracked.trans (enqueueOnce_quiet lossy _ _)

theorem noteChildWaitingOnParent_quiet (lossy : Prop) (parent child : Hash) (h : Hydration) :
    Quiet lossy h (noteChildWaitingOnParent parent child h) := by
  refine ⟨?_, rfl, fun _ _ hr => hr⟩
  intro k
  unfold noteChildWaitingOnParent trackedAt
  dsimp only
  rw [ExtTreeMap.getElem?_modify]
  split
  next heq =>
    obtain rfl : parent = k := LawfulEqCmp.eq_of_compare heq
    cases hentry : h.pendingByHash[parent]? with
    | none => exact .refl
    | some p => exact .single (.note p _ _ ⟨rfl, rfl, rfl⟩)
  next => exact .refl

/-! The scheduler only turns its queue. -/

theorem scanQueue_spec (now : Instant) (turns : ℕ) (h : Hydration) :
    (∃ queue, (scanQueue now turns h).2 = { h with readyQueue := queue }) ∧
    ∀ peer hash, (scanQueue now turns h).1 = some (peer, hash) →
      ∃ p, h.pendingByHash[hash]? = some p ∧ p.canAttemptNow now h.cfg = true := by
  induction turns generalizing h with
  | zero => exact ⟨⟨_, rfl⟩, by simp [scanQueue]⟩
  | succ turns ih =>
    unfold scanQueue
    split
    · exact ⟨⟨_, rfl⟩, by simp⟩
    next hash rest hqueue =>
      split
      · exact ih { h with readyQueue := rest }
      next pending hentry =>
        split
        next hopen =>
          refine ⟨⟨_, rfl⟩, ?_⟩
          intro peer found hfound
          obtain ⟨rfl, rfl⟩ : pending.originPeer = peer ∧ hash = found := by simpa using hfound
          exact ⟨pending, hentry, hopen⟩
        next =>
          split
          · exact ih { h with readyQueue := rest ++ [hash] }
          · exact ih { h with readyQueue := rest }

theorem PendingHash.open_of_canAttemptNow {p : PendingHash} {now : Instant} {cfg : HydrationConfig}
    (hp : p.canAttemptNow now cfg = true) :
    p.exhausted = false ∧ p.inFlight = false ∧ p.retriesLeft ≠ 0 := by
  unfold PendingHash.canAttemptNow at hp
  split at hp
  · cases hp
  next hclosed =>
    simp only [Bool.or_eq_true, beq_iff_eq, not_or, Bool.not_eq_true] at hclosed
    exact ⟨hclosed.1.1, hclosed.1.2, hclosed.2⟩

/-- Every request out bears a number already given. -/
def Numbered (d : HydrationDriver) : Prop :=
  ∀ r hash, d.hydration.inflightByRequest[r]? = some hash → r < d.nextRequestId

theorem markIssued_moves (lossy : Prop) (now : Instant) (r : RequestId) {p : PendingHash}
    (hentry : h.pendingByHash[hash]? = some p) (hopen : p.canAttemptNow now h.cfg = true)
    (hfresh : h.inflightByRequest[r]? = none) (k : Hash) :
    Tracked.Moves lossy (h.trackedAt k) ((markIssued now r hash h).trackedAt k) := by
  unfold markIssued
  rw [hentry]
  unfold trackedAt
  dsimp only
  by_cases hk : k = hash
  · subst hk
    rw [hentry, ExtTreeMap.getElem?_insert_self]
    have hreq : {x : RequestId | (h.inflightByRequest.insert r k)[x]? = some k} =
        insert r {x : RequestId | h.inflightByRequest[x]? = some k} := by
      ext x
      by_cases hx : r = x
      · subst hx
        simp
      · have hx' : ¬x = r := fun he => hx he.symm
        simp [ExtTreeMap.getElem?_insert, hx, hx']
    rw [hreq]
    exact .single (.issue p _ r now (PendingHash.open_of_canAttemptNow hopen))
  · have hne : ¬hash = k := fun he => hk he.symm
    have hreq : {x : RequestId | (h.inflightByRequest.insert r hash)[x]? = some k} =
        {x : RequestId | h.inflightByRequest[x]? = some k} := by
      ext x
      by_cases hx : r = x
      · subst hx
        simp [hne, hfresh]
      · simp [ExtTreeMap.getElem?_insert, hx]
    rw [hreq, ExtTreeMap.getElem?_insert]
    simp only [LawfulEqCmp.compare_eq_iff_eq, hne, if_false]
    exact .refl

theorem driveRounds_moves (lossy : Prop) (now : Instant) (connected pqReady : PeerId → Bool)
    (rounds : ℕ) (d : HydrationDriver) (hd : Numbered d) :
    (∀ k, Tracked.Moves lossy (d.hydration.trackedAt k)
      ((d.driveRounds now connected pqReady rounds).hydration.trackedAt k)) ∧
    Numbered (d.driveRounds now connected pqReady rounds) ∧
    (d.driveRounds now connected pqReady rounds).hydration.cfg = d.hydration.cfg := by
  induction rounds generalizing d with
  | zero => exact ⟨fun _ => .refl, hd, rfl⟩
  | succ rounds ih =>
    obtain ⟨⟨queue, hqueue⟩, hfound⟩ := scanQueue_spec now d.hydration.readyQueue.length d.hydration
    unfold HydrationDriver.driveRounds nextRequest
    cases hscan : scanQueue now d.hydration.readyQueue.length d.hydration with
    | mk found h =>
      rw [hscan] at hqueue hfound
      obtain rfl : h = { d.hydration with readyQueue := queue } := hqueue
      cases found with
      | none => exact ⟨fun _ => .refl, hd, rfl⟩
      | some request =>
        obtain ⟨peer, hash⟩ := request
        obtain ⟨p, hentry, hopen⟩ := hfound peer hash rfl
        dsimp only
        split
        · have hfresh : d.hydration.inflightByRequest[d.nextRequestId]? = none := by
            cases hr : d.hydration.inflightByRequest[d.nextRequestId]? with
            | none => rfl
            | some k => exact absurd (hd _ _ hr) (lt_irrefl _)
          have hmoves := markIssued_moves (h := { d.hydration with readyQueue := queue }) lossy now
            d.nextRequestId hentry hopen hfresh
          have hissued : markIssued now d.nextRequestId hash
              { d.hydration with readyQueue := queue } = ⟨d.hydration.cfg,
                d.hydration.pendingByHash.insert hash
                  { p with inFlight := true, lastAttemptAt := some now },
                d.hydration.inflightByRequest.insert d.nextRequestId hash, queue⟩ := by
            unfold markIssued
            dsimp only
            rw [hentry]
          have hnumbered : Numbered ⟨markIssued now d.nextRequestId hash
              { d.hydration with readyQueue := queue }, d.nextRequestId+1⟩ := by
            intro r k hr
            rw [hissued] at hr
            dsimp only at hr ⊢
            rw [ExtTreeMap.getElem?_insert] at hr
            split at hr
            next heq =>
              have hre : d.nextRequestId = r := LawfulEqCmp.eq_of_compare heq
              exact Nat.lt_succ_of_le hre.symm.le
            next => exact Nat.lt_succ_of_lt (hd r k hr)
          obtain ⟨hrest, hrestNumbered, hcfg⟩ := ih _ hnumbered
          refine ⟨fun k => (hmoves k).trans (hrest k), hrestNumbered, hcfg.trans ?_⟩
          rw [hissued]
        · exact ih { d with hydration := { d.hydration with readyQueue := queue } } hd

/-! A failure costs the hash of its request a retry. -/

/-- No request out is for two hashes, so an erased one leaves the other hashes alone. -/
theorem requests_erase (h : Hydration) {r : RequestId} (hr : h.inflightByRequest[r]? = some hash)
    (k : Hash) : {x : RequestId | (h.inflightByRequest.erase r)[x]? = some k} =
      if k = hash then {x : RequestId | h.inflightByRequest[x]? = some k} \ {r}
      else {x : RequestId | h.inflightByRequest[x]? = some k} := by
  ext x
  by_cases hx : r = x
  · subst hx
    by_cases hk : k = hash
    · simp [hk]
    · have hne : ¬hash = k := fun he => hk he.symm
      simp [hk, hr, hne]
  · have hx' : ¬x = r := fun he => hx he.symm
    by_cases hk : k = hash <;> simp [ExtTreeMap.getElem?_erase, hx, hx', hk]

theorem requests_of_erase {r x : RequestId} {k : Hash}
    (hx : (h.inflightByRequest.erase r)[x]? = some k) : h.inflightByRequest[x]? = some k := by
  rw [ExtTreeMap.getElem?_erase] at hx
  split at hx
  · cases hx
  · exact hx

/-- Whether a failure of a request leaves its hash a retry. -/
def SparesRequest (h : Hydration) (r : RequestId) : Prop :=
  ∀ hash p, h.inflightByRequest[r]? = some hash → h.pendingByHash[hash]? = some p →
    1 < p.retriesLeft

theorem failed_quiet {r : RequestId} {p : PendingHash} (p' : PendingHash)
    (hr : h.inflightByRequest[r]? = some hash) (hentry : h.pendingByHash[hash]? = some p)
    (hretry : lossy ∨ 1 < p.retriesLeft) (hflight : p'.inFlight = false)
    (hleft : p'.retriesLeft = p.retriesLeft - 1)
    (hearlier : p'.exhausted = true → p.exhausted = true ∨ p.retriesLeft - 1 = 0)
    (hlast : p.retriesLeft - 1 = 0 → p'.exhausted = true) :
    Quiet lossy h
      { h with
        pendingByHash := h.pendingByHash.insert hash p'
        inflightByRequest := h.inflightByRequest.erase r } := by
  refine ⟨?_, rfl, fun _ _ => requests_of_erase⟩
  intro k
  unfold trackedAt
  dsimp only
  rw [requests_erase h hr]
  by_cases hk : k = hash
  · subst hk
    rw [if_pos rfl, hentry, ExtTreeMap.getElem?_insert_self]
    exact .single (.fail p p' _ _ hretry hflight hleft hearlier hlast (Or.inr ⟨r, hr, rfl⟩))
  · have hne : ¬hash = k := fun he => hk he.symm
    rw [if_neg hk, ExtTreeMap.getElem?_insert]
    simp only [LawfulEqCmp.compare_eq_iff_eq, hne, if_false]
    exact .refl

/-- Where every hash is sound, a request has an entry. -/
theorem entry_of_request (hsound : ∀ k, (h.trackedAt k).Sound) {r : RequestId}
    (hr : h.inflightByRequest[r]? = some hash) : ∃ p, h.pendingByHash[hash]? = some p := by
  cases hentry : h.pendingByHash[hash]? with
  | some p => exact ⟨p, rfl⟩
  | none =>
    have hk := hsound hash
    unfold trackedAt Tracked.Sound at hk
    rw [hentry] at hk
    have hmem : r ∈ (∅ : Set RequestId) := by
      rw [← show {x : RequestId | h.inflightByRequest[x]? = some hash} = ∅ from hk]
      exact hr
    exact hmem.elim

theorem onRequestFailed_quiet (now : Instant) (r : RequestId)
    (hsound : ∀ k, (h.trackedAt k).Sound) (hspares : lossy ∨ h.SparesRequest r) :
    Quiet lossy h (onRequestFailed now r h).2 := by
  unfold onRequestFailed
  split
  · exact .refl lossy h
  next hash hr =>
    obtain ⟨p, hentry⟩ := entry_of_request hsound hr
    have hfailed := failed_quiet (p.failed now) hr hentry
      (hspares.imp id fun hs => hs hash p hr hentry) rfl rfl (by simp [PendingHash.failed])
      (by simp +contextual [PendingHash.failed])
    unfold onHashRequestFailed
    dsimp only
    rw [hentry]
    dsimp only
    split
    · exact hfailed
    · exact hfailed.trans (enqueueOnce_quiet lossy _ _)

/-- A last retry that is taken leaves an exhausted entry. -/
theorem onRequestFailed_exhausts (now : Instant) (r : RequestId) (hspares : ¬h.SparesRequest r) :
    ∃ k, ((onRequestFailed now r h).2.trackedAt k).Exhausted := by
  unfold SparesRequest at hspares
  push Not at hspares
  obtain ⟨hash, p, hr, hentry, hleft⟩ := hspares
  have hexhausted : (p.failed now).exhausted = true := by
    have h0 : p.retriesLeft - 1 = 0 := by omega
    simp [PendingHash.failed, h0]
  refine ⟨hash, p.failed now, ?_, hexhausted⟩
  unfold onRequestFailed
  rw [hr]
  unfold onHashRequestFailed
  dsimp only
  rw [hentry]
  simp [hexhausted, trackedAt]

/-! A block ends the life of its entry, unless it is another block. -/

/-- Whether a response leaves the hash it was asked for a retry, or brings its block. -/
def SparesReceived (h : Hydration) (r : RequestId) (block : Block) : Prop :=
  ∀ hash p, h.inflightByRequest[r]? = some hash → h.pendingByHash[hash]? = some p →
    block.blockHash = hash ∨ 1 < p.retriesLeft

theorem accept_quiet (lossy : Prop) (block : Block) (pending : PendingHash)
    (hasParentMeta : Hash → Bool) (hcfg : h.cfg.maxRetriesPerHash ≠ 0) :
    Quiet lossy h (accept block pending hasParentMeta h).2 := by
  unfold accept
  dsimp only
  split
  · exact (noteNeedMoreData_quiet lossy _ _ _ _ _ hcfg).trans
      (noteChildWaitingOnParent_quiet lossy _ _ _)
  · split
    · exact .refl lossy h
    · exact foldl_enqueueOnce_quiet lossy _ _

theorem dropped_quiet {r : RequestId} {p : PendingHash} (lossy : Prop)
    (hr : h.inflightByRequest[r]? = some hash) (hentry : h.pendingByHash[hash]? = some p) :
    Quiet lossy h
      { h with
        pendingByHash := h.pendingByHash.erase hash
        inflightByRequest := h.inflightByRequest.erase r } := by
  refine ⟨?_, rfl, fun _ _ => requests_of_erase⟩
  intro k
  unfold trackedAt
  dsimp only
  rw [requests_erase h hr]
  by_cases hk : k = hash
  · subst hk
    rw [if_pos rfl, hentry, ExtTreeMap.getElem?_erase_self]
    exact .single (.drop p _ r hr)
  · have hne : ¬hash = k := fun he => hk he.symm
    rw [if_neg hk, ExtTreeMap.getElem?_erase]
    simp only [LawfulEqCmp.compare_eq_iff_eq, hne, if_false]
    exact .refl

theorem onBlockReceived_quiet {σ : Type} (r : RequestId) (block : Block)
    (persistBlock : Block → Fallible σ) (hasParentMeta : σ → Hash → Bool)
    (hcfg : h.cfg.maxRetriesPerHash ≠ 0) (hsound : ∀ k, (h.trackedAt k).Sound)
    (hspares : lossy ∨ h.SparesReceived r block) :
    Quiet lossy h (onBlockReceived r block persistBlock hasParentMeta h).2 := by
  unfold onBlockReceived
  split
  · exact .refl lossy h
  next hash hr =>
    obtain ⟨p, hentry⟩ := entry_of_request hsound hr
    dsimp only
    rw [hentry]
    dsimp only
    split
    next hother =>
      have hretry : lossy ∨ 1 < p.retriesLeft :=
        hspares.imp id fun hs => (hs hash p hr hentry).resolve_left hother
      have hfailed := failed_quiet p.mismatched hr hentry hretry rfl rfl
        (by simp +contextual [PendingHash.mismatched]) (by simp [PendingHash.mismatched])
      dsimp only
      split
      · exact hfailed
      · exact hfailed.trans (enqueueOnce_quiet lossy _ _)
    next hsame =>
      have hdropped := dropped_quiet lossy hr hentry
      cases persistBlock block with
      | error e => exact hdropped
      | ok store => exact hdropped.trans (accept_quiet lossy block p (hasParentMeta store) hcfg)

theorem onBlockReceived_exhausts {σ : Type} (r : RequestId) (block : Block)
    (persistBlock : Block → Fallible σ) (hasParentMeta : σ → Hash → Bool)
    (hspares : ¬h.SparesReceived r block) :
    ∃ k, ((onBlockReceived r block persistBlock hasParentMeta h).2.trackedAt k).Exhausted := by
  unfold SparesReceived at hspares
  push Not at hspares
  obtain ⟨hash, p, hr, hentry, hother, hleft⟩ := hspares
  have hexhausted : p.mismatched.exhausted = true := by
    have h0 : p.retriesLeft - 1 = 0 := by omega
    simp [PendingHash.mismatched, h0]
  refine ⟨hash, p.mismatched, ?_, hexhausted⟩
  unfold onBlockReceived
  rw [hr]
  dsimp only
  rw [hentry]
  simp [hother, hexhausted, trackedAt]

/-! A disconnect fails every hash asked of the peer. -/

def SparesPeer (h : Hydration) (peer : PeerId) : Prop :=
  ∀ (hash : Hash) (p : PendingHash), h.pendingByHash[hash]? = some p → p.originPeer = peer →
    1 < p.retriesLeft

theorem entry_onPeerDisconnected (now : Instant) (peer : PeerId) (h : Hydration) (k : Hash) :
    (onPeerDisconnected now peer h).pendingByHash[k]? =
      (h.pendingByHash[k]?).map fun p => if p.originPeer = peer then p.failed now else p := by
  have hpending : (onPeerDisconnected now peer h).pendingByHash =
      h.pendingByHash.map fun _ p => if p.originPeer = peer then p.failed now else p := by
    unfold onPeerDisconnected
    dsimp only
    generalize hashesToRequeue peer h = hashes
    induction hashes using List.reverseRecOn with
    | nil => rfl
    | append_singleton rest hash ih =>
      rw [List.foldl_append, List.foldl_cons, List.foldl_nil]
      unfold enqueueOnce
      split <;> exact ih
  rw [hpending, ExtTreeMap.getElem?_map]

theorem request_onPeerDisconnected (now : Instant) (peer : PeerId) (h : Hydration) (r : RequestId)
    (k : Hash) : (onPeerDisconnected now peer h).inflightByRequest[r]? = some k ↔
      h.inflightByRequest[r]? = some k ∧
        ∃ p, h.pendingByHash[k]? = some p ∧ p.originPeer ≠ peer := by
  have horigin : ∀ p : PendingHash,
      (if p.originPeer = peer then p.failed now else p).originPeer = p.originPeer := by
    intro p
    split <;> rfl
  unfold onPeerDisconnected
  dsimp only
  rw [ExtTreeMap.getElem?_filter', Option.filter_eq_some_iff, ExtTreeMap.getElem?_map]
  refine and_congr_right fun _ => ?_
  cases h.pendingByHash[k]? with
  | none => simp
  | some p => simp [horigin]

theorem onPeerDisconnected_quiet (now : Instant) (peer : PeerId)
    (hsound : ∀ k, (h.trackedAt k).Sound) (hspares : lossy ∨ h.SparesPeer peer) :
    Quiet lossy h (onPeerDisconnected now peer h) := by
  refine ⟨?_, ?_, fun r k hr => ((request_onPeerDisconnected now peer h r k).mp hr).1⟩
  · intro k
    have hk := hsound k
    unfold trackedAt at hk ⊢
    rw [entry_onPeerDisconnected]
    simp only [request_onPeerDisconnected]
    cases hentry : h.pendingByHash[k]? with
    | none =>
      rw [hentry] at hk
      have hR : {r : RequestId | h.inflightByRequest[r]? = some k} = ∅ := hk
      rw [hR]
      simp
      exact .refl
    | some p =>
      by_cases hp : p.originPeer = peer
      · have hR : {r : RequestId | h.inflightByRequest[r]? = some k ∧
            ∃ q, some p = some q ∧ q.originPeer ≠ peer} = ∅ := by
          ext r
          simp [hp]
        rw [hR, Option.map_some, if_pos hp]
        refine .single (.fail p (p.failed now) _ _ (hspares.imp id fun hs => hs k p hentry hp)
          rfl rfl ?_ ?_ (Or.inl rfl))
        · simp [PendingHash.failed]
        · simp +contextual [PendingHash.failed]
      · have hR : {r : RequestId | h.inflightByRequest[r]? = some k ∧
            ∃ q, some p = some q ∧ q.originPeer ≠ peer} =
            {r : RequestId | h.inflightByRequest[r]? = some k} := by
          ext r
          simp [hp]
        rw [hR, Option.map_some, if_neg hp]
  · exact (foldl_enqueueOnce_quiet lossy (hashesToRequeue peer h) _).cfg

theorem onPeerDisconnected_exhausts (now : Instant) (peer : PeerId) (hspares : ¬h.SparesPeer peer) :
    ∃ k, ((onPeerDisconnected now peer h).trackedAt k).Exhausted := by
  unfold SparesPeer at hspares
  push Not at hspares
  obtain ⟨hash, p, hentry, hpeer, hleft⟩ := hspares
  refine ⟨hash, p.failed now, ?_, ?_⟩
  · unfold trackedAt
    dsimp only
    rw [entry_onPeerDisconnected, hentry, Option.map_some, if_pos hpeer]
  · have h0 : p.retriesLeft - 1 = 0 := by omega
    simp [PendingHash.failed, h0]

end Hydration

/-! ### Whole runs -/

/-- What the sync runtime does to its tracker. -/
inductive HydrationEvent where
  | competingBlock (peer : PeerId) (block : Block)
  | needMoreData (peer : PeerId) (missing : Hash) (height : Option UInt64) (context : String)
      (child : Option Hash)
  | drive (now : Instant) (connected pqReady : PeerId → Bool)
  -- A block or batch request of the ordinary sync takes the next number.
  | otherRequest
  | notFound (now : Instant) (request : RequestId)
  | requestFailed (now : Instant) (request : RequestId)
  | blockReceived (request : RequestId) (block : Block) (persistBlock : Block → Fallible Unit)
      (hasParentMeta : Hash → Bool)
  | peerDisconnected (now : Instant) (peer : PeerId)

namespace HydrationDriver

def new : HydrationDriver := ⟨.defaultMainnet, 0⟩

def onHydration (f : Hydration → Hydration) (d : HydrationDriver) : HydrationDriver :=
  { d with hydration := f d.hydration }

def step (d : HydrationDriver) : HydrationEvent → HydrationDriver
  | .competingBlock peer block => d.onHydration (Hydration.queueBranchHydration peer block)
  | .needMoreData peer missing height context child =>
    d.onHydration fun h =>
      let h := h.queueBranchHydrationByHash peer missing height .forkChoiceNeedMoreData context
      match child with
      | some child => h.noteChildWaitingOnParent missing child
      | none => h
  | .drive now connected pqReady => d.driveBranchHydrationRequests now connected pqReady
  | .otherRequest => { d with nextRequestId := d.nextRequestId+1 }
  | .notFound now r => d.onHydration fun h => (h.onNotFound now r).2
  | .requestFailed now r => d.onHydration fun h => (h.onRequestFailed now r).2
  | .blockReceived r block persistBlock hasParentMeta =>
    d.onHydration fun h => (h.onBlockReceived r block persistBlock fun _ => hasParentMeta).2
  | .peerDisconnected now peer => d.onHydration (Hydration.onPeerDisconnected now peer)

def run (d : HydrationDriver) (events : List HydrationEvent) : HydrationDriver :=
  events.foldl step d

/-- A step that takes no last retry. -/
def Spares (d : HydrationDriver) : HydrationEvent → Prop
  | .notFound _ r => d.hydration.SparesRequest r
  | .requestFailed _ r => d.hydration.SparesRequest r
  | .blockReceived r block _ _ => d.hydration.SparesReceived r block
  | .peerDisconnected _ peer => d.hydration.SparesPeer peer
  | _ => True

def SparesAll (d : HydrationDriver) : List HydrationEvent → Prop
  | [] => True
  | event :: rest => d.Spares event ∧ (d.step event).SparesAll rest

/-- What every state of a run keeps. -/
structure Scheduled (d : HydrationDriver) : Prop where
  sound : ∀ k, (d.hydration.trackedAt k).Sound
  numbered : Hydration.Numbered d
  retries : d.hydration.cfg.maxRetriesPerHash ≠ 0

variable {d : HydrationDriver} {lossy : Prop}

theorem new_scheduled : Scheduled new := by
  refine ⟨?_, ?_, by decide⟩
  · intro k
    simp [new, Hydration.defaultMainnet, Hydration.new, Hydration.trackedAt, Tracked.Sound]
  · intro r hash hr
    simp [new, Hydration.defaultMainnet, Hydration.new] at hr

theorem Scheduled.quiet {h : Hydration} (hd : d.Scheduled)
    (hf : Hydration.Quiet lossy d.hydration h) : Scheduled { d with hydration := h } := by
  refine ⟨fun k => (hf.moves k).sound (hd.sound k), ?_, ?_⟩
  · intro r hash hr
    exact hd.numbered r hash (hf.requests r hash hr)
  · exact (congrArg HydrationConfig.maxRetriesPerHash hf.cfg).trans_ne hd.retries

theorem queueBranchHydration_quiet (lossy : Prop) (peer : PeerId) (block : Block)
    (hd : d.Scheduled) :
    Hydration.Quiet lossy d.hydration (d.hydration.queueBranchHydration peer block) := by
  unfold Hydration.queueBranchHydration
  split
  · exact (Hydration.noteNeedMoreData_quiet lossy _ _ _ _ _ hd.retries).trans
      (Hydration.noteChildWaitingOnParent_quiet lossy _ _ _)
  · exact .refl lossy _

/-- A step keeps the invariant, and moves every hash; only a lossy one takes a last retry. -/
theorem step_moves (hd : d.Scheduled) (event : HydrationEvent) :
    (d.step event).Scheduled ∧ ∀ k, Tracked.Moves (¬d.Spares event)
      (d.hydration.trackedAt k) ((d.step event).hydration.trackedAt k) := by
  have hquiet : ∀ h : Hydration, Hydration.Quiet (¬d.Spares event) d.hydration h →
      Scheduled { d with hydration := h } ∧ ∀ k, Tracked.Moves (¬d.Spares event)
        (d.hydration.trackedAt k) (h.trackedAt k) :=
    fun h hf => ⟨hd.quiet hf, hf.moves⟩
  have hcase : ¬d.Spares event ∨ d.Spares event := (Classical.em _).symm
  cases event with
  | competingBlock peer block => exact hquiet _ (queueBranchHydration_quiet _ peer block hd)
  | needMoreData peer missing height context child =>
    have hnoted := Hydration.noteNeedMoreData_quiet (h := d.hydration)
      (¬d.Spares (.needMoreData peer missing height context child)) peer missing height
      .forkChoiceNeedMoreData context hd.retries
    cases child with
    | none => exact hquiet _ hnoted
    | some child =>
      exact hquiet _ (hnoted.trans (Hydration.noteChildWaitingOnParent_quiet _ missing child _))
  | drive now connected pqReady =>
    obtain ⟨hmoves, hnumbered, hcfg⟩ := Hydration.driveRounds_moves
      (¬d.Spares (.drive now connected pqReady)) now connected pqReady
      maxHydrationRequestsPerTick d hd.numbered
    refine ⟨⟨fun k => (hmoves k).sound (hd.sound k), hnumbered, ?_⟩, hmoves⟩
    exact (congrArg HydrationConfig.maxRetriesPerHash hcfg).trans_ne hd.retries
  | otherRequest =>
    refine ⟨⟨hd.sound, ?_, hd.retries⟩, fun _ => .refl⟩
    intro r hash hr
    exact Nat.lt_succ_of_lt (hd.numbered r hash hr)
  | notFound now r => exact hquiet _ (Hydration.onRequestFailed_quiet now r hd.sound hcase)
  | requestFailed now r => exact hquiet _ (Hydration.onRequestFailed_quiet now r hd.sound hcase)
  | blockReceived r block persistBlock hasParentMeta =>
    exact hquiet _ (Hydration.onBlockReceived_quiet r block persistBlock _ hd.retries hd.sound hcase)
  | peerDisconnected now peer =>
    exact hquiet _ (Hydration.onPeerDisconnected_quiet now peer hd.sound hcase)

theorem step_exhausts (event : HydrationEvent) (hspares : ¬d.Spares event) :
    ∃ k, ((d.step event).hydration.trackedAt k).Exhausted := by
  cases event with
  | notFound now r => exact Hydration.onRequestFailed_exhausts now r hspares
  | requestFailed now r => exact Hydration.onRequestFailed_exhausts now r hspares
  | blockReceived r block persistBlock hasParentMeta =>
    exact Hydration.onBlockReceived_exhausts r block persistBlock _ hspares
  | peerDisconnected now peer => exact Hydration.onPeerDisconnected_exhausts now peer hspares
  | competingBlock => exact absurd trivial hspares
  | needMoreData => exact absurd trivial hspares
  | drive => exact absurd trivial hspares
  | otherRequest => exact absurd trivial hspares

theorem run_scheduled (events : List HydrationEvent) (hd : d.Scheduled) :
    (d.run events).Scheduled := by
  induction events generalizing d with
  | nil => exact hd
  | cons event rest ih => exact ih (step_moves hd event).1

/-- An entry that is exhausted stays for the rest of the run. -/
theorem run_keeps_exhausted (events : List HydrationEvent) (hd : d.Scheduled) {k : Hash}
    (hk : (d.hydration.trackedAt k).Exhausted) :
    ((d.run events).hydration.trackedAt k).Exhausted := by
  induction events generalizing d with
  | nil => exact hk
  | cons event rest ih =>
    obtain ⟨hstep, hmoves⟩ := step_moves hd event
    exact ih hstep ((hmoves k).exhausted (hd.sound k) hk)

theorem run_exhausted_iff (events : List HydrationEvent) (hd : d.Scheduled)
    (hnone : ∀ k, ¬(d.hydration.trackedAt k).Exhausted) :
    (∀ k, ¬((d.run events).hydration.trackedAt k).Exhausted) ↔ d.SparesAll events := by
  induction events generalizing d with
  | nil => exact iff_of_true hnone trivial
  | cons event rest ih =>
    obtain ⟨hstep, hmoves⟩ := step_moves hd event
    by_cases hspares : d.Spares event
    · have hstill : ∀ k, ¬((d.step event).hydration.trackedAt k).Exhausted := by
        intro k
        have hlossless : Tracked.Moves False (d.hydration.trackedAt k)
            ((d.step event).hydration.trackedAt k) := by
          rw [← eq_false (not_not_intro hspares)]
          exact hmoves k
        exact hlossless.not_exhausted (hnone k)
      exact (ih hstep hstill).trans (and_iff_right hspares).symm
    · refine iff_of_false ?_ (fun hall => hspares hall.1)
      obtain ⟨k, hk⟩ := step_exhausts event hspares
      intro hrun
      exact hrun k (run_keeps_exhausted rest hstep hk)

end HydrationDriver

/-! ### Proposals after hydration -/

namespace Hydration

/-- No request is out, and no tracked hash can be asked for at any later time. -/
def Quiescent (h : Hydration) : Prop :=
  h.inflightByRequest = ∅ ∧ ∀ (k : Hash) (p : PendingHash), h.pendingByHash[k]? = some p →
    ∀ now, p.canAttemptNow now h.cfg = false

theorem active_eq_false_iff (h : Hydration) :
    h.active = false ↔ h.pendingByHash = ∅ ∧ h.inflightByRequest = ∅ := by
  unfold active trackedLen inflightLen
  rw [ExtTreeMap.eq_empty_iff_size_eq_zero, ExtTreeMap.eq_empty_iff_size_eq_zero]
  simp

/-- An entry that is neither exhausted nor in flight can be asked for once its cooldown ends. -/
theorem exists_canAttemptNow {p : PendingHash} (cfg : HydrationConfig)
    (hopen : p.exhausted = false ∧ p.inFlight = false ∧ p.retriesLeft ≠ 0) :
    ∃ now, p.canAttemptNow now cfg = true := by
  obtain ⟨he, hf, hn⟩ := hopen
  unfold PendingHash.canAttemptNow
  simp only [he, hf, Bool.or_self, Bool.false_or, beq_iff_eq, hn, if_false]
  cases p.lastAttemptAt with
  | none => exact ⟨0, rfl⟩
  | some last =>
    refine ⟨last + cfg.retryCooldown, ?_⟩
    rw [decide_eq_true_eq]
    exact (Nat.add_sub_cancel_left last cfg.retryCooldown).ge

/-- In a quiescent state whatever is tracked is exhausted. -/
theorem Quiescent.exhausted {h : Hydration} (hq : h.Quiescent) {k : Hash} {p : PendingHash}
    (hsound : (h.trackedAt k).Sound) (hentry : h.pendingByHash[k]? = some p) :
    p.exhausted = true := by
  have hrequests : {r : RequestId | h.inflightByRequest[r]? = some k} = ∅ := by
    rw [hq.1]
    simp
  unfold trackedAt Tracked.Sound at hsound
  rw [hentry, hrequests] at hsound
  obtain ⟨hiff, hflight⟩ := hsound
  have hf : p.inFlight = false := by
    cases hin : p.inFlight with
    | false => rfl
    | true =>
      simp only [hin, if_true] at hflight
      obtain ⟨-, r, hr⟩ := hflight
      exact absurd hr.symm (Set.singleton_ne_empty r)
  by_contra he
  have he' : p.exhausted = false := by simpa using he
  have hn : p.retriesLeft ≠ 0 := fun h0 => he (hiff.mpr h0)
  obtain ⟨now, hnow⟩ := exists_canAttemptNow h.cfg ⟨he', hf, hn⟩
  rw [hq.2 k p hentry now] at hnow
  cases hnow

theorem Quiescent.active_eq_false_iff {h : Hydration} (hq : h.Quiescent)
    (hsound : ∀ k, (h.trackedAt k).Sound) :
    h.active = false ↔ ∀ k, ¬(h.trackedAt k).Exhausted := by
  rw [Hydration.active_eq_false_iff]
  constructor
  · rintro ⟨hempty, -⟩ k ⟨p, hp, -⟩
    unfold trackedAt at hp
    rw [hempty] at hp
    simp at hp
  · intro hnone
    refine ⟨?_, hq.1⟩
    apply ExtTreeMap.ext_getElem?
    intro k
    rw [ExtTreeMap.getElem?_empty]
    cases hentry : h.pendingByHash[k]? with
    | none => rfl
    | some p => exact absurd ⟨p, hentry, hq.exhausted (hsound k) hentry⟩ (hnone k)

end Hydration

namespace P2pSync

/-- Hydration no longer stands in the way of proposals: it is not counted as active, publishing
says so, and a node that has synced opens its gate again. -/
def ProposalsResume (s : P2pSync) : Prop :=
  s.branchHydrationActive = false ∧
  ∀ gate : ProposalGate,
    (∀ active reason, (s.publishRuntimeProposalSafetyToMiner active reason
      gate).runtimeBranchHydrationActive = false) ∧
    (s.hasSynced = true → s.syncing = false → (s.localTip = 0 ∨ s.tipHash ≠ zeroHash) →
      s.maybeResetMinerProposalSafety gate =
        gate.resetRuntimeProposalSafetyState s.localTip s.tipHash)

theorem publish_hydrationActive (s : P2pSync) (active : Bool) (reason : Option String)
    (gate : ProposalGate) :
    (s.publishRuntimeProposalSafetyToMiner active reason gate).runtimeBranchHydrationActive =
      s.branchHydrationActive := by
  unfold publishRuntimeProposalSafetyToMiner ProposalGate.setRuntimeBranchHydrationActive
  dsimp only
  split <;> split <;> rfl

theorem proposalsResume_iff (s : P2pSync) :
    s.ProposalsResume ↔ s.branchHydrationActive = false := by
  refine ⟨And.left, fun hidle => ⟨hidle, fun gate => ⟨?_, ?_⟩⟩⟩
  · intro active reason
    rw [publish_hydrationActive, hidle]
  · intro hsynced hsyncing htip
    unfold maybeResetMinerProposalSafety
    have hknown : ¬(0 < s.localTip ∧ s.tipHash = zeroHash) := by
      rintro ⟨hpos, hzero⟩
      rcases htip with h0 | hne
      · rw [h0] at hpos
        exact absurd hpos (by decide)
      · exact hne hzero
    simp [hsynced, hsyncing, hidle, hknown]

/-- In a run of hydration that has come to rest, proposals resume exactly when no step of the
run took the last retry of a tracked hash. -/
theorem proposals_resume_iff_retries_spared (events : List HydrationEvent) (s : P2pSync)
    (hs : s.branchHydration = (HydrationDriver.new.run events).hydration)
    (hrest : s.branchHydration.Quiescent) :
    s.ProposalsResume ↔ HydrationDriver.new.SparesAll events := by
  have hscheduled := HydrationDriver.run_scheduled events HydrationDriver.new_scheduled
  have hnone : ∀ k, ¬(HydrationDriver.new.hydration.trackedAt k).Exhausted := by
    rintro k ⟨p, hp, -⟩
    simp [HydrationDriver.new, Hydration.defaultMainnet, Hydration.new, Hydration.trackedAt] at hp
  rw [proposalsResume_iff]
  unfold branchHydrationActive
  rw [hs] at hrest ⊢
  rw [hrest.active_eq_false_iff hscheduled.sound]
  exact HydrationDriver.run_exhausted_iff events HydrationDriver.new_scheduled hnone

end P2pSync

namespace Sample

def orphanParent : Hash := hashOfWords 0 5

/-- A block on top of one that nobody has. -/
def orphan : Block :=
  ⟨⟨2, 1700000060, orphanParent, zeroHash, signature, none, 2097152⟩, none, miner,
    hashOfWords 0 6, 0⟩

def missing : Block :=
  ⟨⟨1, 1700000030, zeroHash, zeroHash, signature, none, 2097152⟩, none, miner, orphanParent, 0⟩

def allPeers (_ : PeerId) : Bool := true

/-- The parent is asked for a second after the last answer, and the peer does not have it. -/
def refusal (n : ℕ) : List HydrationEvent :=
  [.drive (1000*n) allPeers allPeers, .notFound (1000*n + 100) n]

def refused : List HydrationEvent :=
  .competingBlock [1] orphan :: (List.range 6).flatMap refusal

def delivered : List HydrationEvent :=
  [.competingBlock [1] orphan, .drive 0 allPeers allPeers, .notFound 100 0,
    .drive 1000 allPeers allPeers, .blockReceived 1 missing (fun _ => .ok ()) fun _ => true]

def syncAfter (events : List HydrationEvent) : P2pSync :=
  { P2pSync.new .empty none ⟨[[1]], [[1]], 0, 0, 0⟩ with
    branchHydration := (HydrationDriver.new.run events).hydration }

end Sample

theorem Hydration.quiescent_of_exhausted {h : Hydration} (hsize : h.inflightByRequest.size = 0)
    (hall : (h.pendingByHash.toList.all fun e => e.2.exhausted) = true) : h.Quiescent := by
  refine ⟨ExtTreeMap.eq_empty_iff_size_eq_zero.mpr hsize, ?_⟩
  intro k p hentry now
  have hmem := ExtTreeMap.mem_toList_iff_getElem?_eq_some.mpr hentry
  have he : p.exhausted = true := List.all_eq_true.mp hall _ hmem
  simp [PendingHash.canAttemptNow, he]

theorem proposals_resume_after_delivery :
    (Sample.syncAfter Sample.delivered).branchHydration.Quiescent ∧
    ((Sample.syncAfter Sample.delivered).ProposalsResume ↔
      HydrationDriver.new.SparesAll Sample.delivered) := by
  have hrest : (Sample.syncAfter Sample.delivered).branchHydration.Quiescent :=
    Hydration.quiescent_of_exhausted (by decide +kernel) (by decide +kernel)
  exact ⟨hrest, P2pSync.proposals_resume_iff_retries_spared Sample.delivered _ rfl hrest⟩

/-- Six refusals exhaust the parent, and the node never proposes again. -/
theorem refused_parent_blocks_proposals :
    (Sample.syncAfter Sample.refused).branchHydration.Quiescent ∧
    (Sample.syncAfter Sample.refused).branchHydrationActive = true ∧
    ¬(Sample.syncAfter Sample.refused).ProposalsResume := by
  have hactive : (Sample.syncAfter Sample.refused).branchHydrationActive = true := by
    decide +kernel
  refine ⟨Hydration.quiescent_of_exhausted (by decide +kernel) (by decide +kernel), hactive, ?_⟩
  rintro ⟨hidle, -⟩
  rw [hactive] at hidle
  cases hidle

end Remzar
