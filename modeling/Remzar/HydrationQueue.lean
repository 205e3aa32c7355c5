import Mathlib
import Remzar.HydrationRuns
import Remzar.Lib.Runs

/-! Where the hashes of branch hydration stand: in flight, in the queue or given up, how often each is
asked for, and the children that wait for them. -/
namespace Remzar
open Std Fallible

def PendingHash.Waiting (p : PendingHash) : Prop := p.exhausted = false ∧ p.inFlight = false

/-- What one more request for the hash would leave of its retries. -/
def PendingHash.Paid (p : PendingHash) (asked maxRetries : ℕ) : Prop :=
  asked + p.retriesLeft ≤ maxRetries + if p.inFlight then 1 else 0

namespace Hydration
variable {h h' : Hydration} {hash k : Hash} {p : PendingHash} {asked : Hash → ℕ}

/-- No hash is queued twice, of the tracked hashes those are queued that wait, and every request
since a hash was tracked, except one in flight, has cost it a retry. -/
structure Kept (asked : Hash → ℕ) (h : Hydration) : Prop where
  once : h.readyQueue.Nodup
  waiting : ∀ (k : Hash) (p : PendingHash), h.pendingByHash[k]? = some p →
    (k ∈ h.readyQueue ↔ p.Waiting)
  paid : ∀ (k : Hash) (p : PendingHash), h.pendingByHash[k]? = some p →
    p.Paid (asked k) h.cfg.maxRetriesPerHash
  untracked : ∀ k : Hash, h.pendingByHash[k]? = none → asked k = 0

theorem Kept.congr {asked' : Hash → ℕ} (hk : h.Kept asked) (heq : ∀ k, asked k = asked' k) :
    h.Kept asked' := by
  rwa [← funext heq]

/-! ### The queue -/

theorem enqueueOnce_pending (hash : Hash) (h : Hydration) :
    (enqueueOnce hash h).pendingByHash = h.pendingByHash := by
  unfold enqueueOnce
  split <;> rfl

theorem mem_enqueueOnce (hash : Hash) (h : Hydration) (k : Hash) : k ∈ (enqueueOnce hash h).readyQueue ↔ k = hash ∨ k ∈ h.readyQueue := by
  unfold enqueueOnce
  split
  next hin =>
    constructor
    · exact Or.inr
    · rintro (rfl | hk)
      · exact hin
      · exact hk
  next => simp only [List.mem_append, List.mem_singleton, or_comm]

theorem enqueueOnce_once (hash : Hash) (h : Hydration) (honce : h.readyQueue.Nodup) : (enqueueOnce hash h).readyQueue.Nodup := by
  unfold enqueueOnce
  split
  next => exact honce
  next hout =>
    refine List.Nodup.append honce (List.nodup_singleton hash) ?_
    intro x hx hx'
    rw [List.mem_singleton.mp hx'] at hx
    exact hout hx

theorem enqueueAll_pending (hashes : List Hash) (h : Hydration) :
    (hashes.foldl (fun h hash => enqueueOnce hash h) h).pendingByHash = h.pendingByHash := by
  induction hashes generalizing h with
  | nil => rfl
  | cons hash hashes ih => rw [List.foldl_cons, ih, enqueueOnce_pending]

theorem mem_enqueueAll (hashes : List Hash) (h : Hydration) :
    k ∈ (hashes.foldl (fun h hash => enqueueOnce hash h) h).readyQueue ↔
      k ∈ hashes ∨ k ∈ h.readyQueue := by
  induction hashes generalizing h with
  | nil => simp only [List.foldl_nil, List.not_mem_nil, false_or]
  | cons hash hashes ih => rw [List.foldl_cons, ih, mem_enqueueOnce, List.mem_cons, or_left_comm, or_assoc]

theorem enqueueAll_once (hashes : List Hash) (honce : h.readyQueue.Nodup) :
    (hashes.foldl (fun h hash => enqueueOnce hash h) h).readyQueue.Nodup := by
  induction hashes generalizing h with
  | nil => exact honce
  | cons hash hashes ih => exact ih (enqueueOnce_once hash h honce)

/-- A hash gets a new entry, and is queued if the entry waits. -/
theorem Kept.insert (hk : h.Kept asked) (q : PendingHash) {queue : List Hash} (honce : queue.Nodup)
    (hqueue : ∀ k, k ≠ hash → (k ∈ queue ↔ k ∈ h.readyQueue)) (hwaits : hash ∈ queue ↔ q.Waiting)
    (hpaid : q.Paid (asked hash) h.cfg.maxRetriesPerHash) :
    Kept asked { h with pendingByHash := h.pendingByHash.insert hash q, readyQueue := queue } := by
  have hentry (k : Hash) : (h.pendingByHash.insert hash q)[k]? =
      if hash = k then some q else h.pendingByHash[k]? := by
    rw [ExtTreeMap.getElem?_insert]
    simp only [LawfulEqCmp.compare_eq_iff_eq]
  refine ⟨honce, fun k p hp => ?_, fun k p hp => ?_, fun k hnone => ?_⟩
  all_goals dsimp only at *
  · rw [hentry] at hp
    split at hp
    next heq =>
      obtain rfl := heq
      obtain rfl := Option.some.inj hp
      exact hwaits
    next hne => exact (hqueue k fun heq => hne heq.symm).trans (hk.waiting k p hp)
  · rw [hentry] at hp
    split at hp
    next heq =>
      obtain rfl := heq
      obtain rfl := Option.some.inj hp
      exact hpaid
    next => exact hk.paid k p hp
  · rw [hentry] at hnone
    split at hnone
    · cases hnone
    · exact hk.untracked k hnone

/-- A new entry that waits is queued, if it was not yet. -/
theorem Kept.enqueueOnce (hk : h.Kept asked) (q : PendingHash) (hwaits : q.Waiting)
    (hpaid : q.Paid (asked hash) h.cfg.maxRetriesPerHash) :
    Kept asked (enqueueOnce hash { h with pendingByHash := h.pendingByHash.insert hash q }) := by
  have honce := enqueueOnce_once hash { h with pendingByHash := h.pendingByHash.insert hash q } hk.once
  have hmem := mem_enqueueOnce hash { h with pendingByHash := h.pendingByHash.insert hash q }
  have heq : Hydration.enqueueOnce hash { h with pendingByHash := h.pendingByHash.insert hash q } =
      { h with
        pendingByHash := h.pendingByHash.insert hash q
        readyQueue := (Hydration.enqueueOnce hash
          { h with pendingByHash := h.pendingByHash.insert hash q }).readyQueue } := by
    unfold Hydration.enqueueOnce
    split <;> rfl
  rw [heq]
  refine hk.insert q honce (fun k hne => ?_) (iff_of_true ((hmem hash).mpr (Or.inl rfl)) hwaits) hpaid
  rw [hmem, or_iff_right hne]

theorem Kept.noteNeedMoreData (hk : h.Kept asked) (peer : PeerId) (missing : Hash)
    (height : Option UInt64) (reason : HydrationReason) (context : String) :
    (noteNeedMoreData peer missing height reason context h).Kept asked := by
  unfold Hydration.noteNeedMoreData
  split
  · exact hk
  · split
    next existing hentry =>
      dsimp only
      split
      next hopen =>
        simp only [Bool.and_eq_true, Bool.not_eq_true'] at hopen
        exact hk.enqueueOnce _ ⟨hopen.2, hopen.1⟩ (hk.paid missing existing hentry)
      next =>
        exact hk.insert _ hk.once (fun _ _ => Iff.rfl) (hk.waiting missing existing hentry)
          (hk.paid missing existing hentry)
    next hentry =>
      refine hk.enqueueOnce _ ⟨rfl, rfl⟩ ?_
      rw [hk.untracked missing hentry]
      exact Nat.le_of_eq (Nat.zero_add _)

theorem Kept.noteChildWaitingOnParent (hk : h.Kept asked) (parent child : Hash) :
    (noteChildWaitingOnParent parent child h).Kept asked := by
  have hentry (k : Hash) (p : PendingHash)
      (hp : (Hydration.noteChildWaitingOnParent parent child h).pendingByHash[k]? = some p) :
      ∃ q, h.pendingByHash[k]? = some q ∧ (p.Waiting ↔ q.Waiting) ∧
        ∀ asked max, p.Paid asked max ↔ q.Paid asked max := by
    unfold Hydration.noteChildWaitingOnParent at hp
    rw [ExtTreeMap.getElem?_modify] at hp
    split at hp
    next heq =>
      obtain rfl : parent = k := LawfulEqCmp.eq_of_compare heq
      obtain ⟨q, hq, rfl⟩ := Option.map_eq_some_iff.mp hp
      exact ⟨q, hq, Iff.rfl, fun _ _ => Iff.rfl⟩
    next => exact ⟨p, hp, Iff.rfl, fun _ _ => Iff.rfl⟩
  refine ⟨hk.once, fun k p hp => ?_, fun k p hp => ?_, fun k hnone => ?_⟩
  · obtain ⟨q, hq, hwaits, -⟩ := hentry k p hp
    exact (hk.waiting k q hq).trans hwaits.symm
  · obtain ⟨q, hq, -, hpaid⟩ := hentry k p hp
    exact (hpaid _ _).mpr (hk.paid k q hq)
  · apply hk.untracked
    unfold Hydration.noteChildWaitingOnParent at hnone
    rw [ExtTreeMap.getElem?_modify] at hnone
    split at hnone
    next heq =>
      obtain rfl : parent = k := LawfulEqCmp.eq_of_compare heq
      exact Option.map_eq_none_iff.mp hnone
    next => exact hnone

/-! ### The scheduler -/

/-- The scan takes the hash it finds out of the queue and keeps every other tracked one. -/
theorem scanQueue_queue (now : Instant) (turns : ℕ) (h : Hydration) (honce : h.readyQueue.Nodup)
    (hopen : ∀ k p, h.pendingByHash[k]? = some p → k ∈ h.readyQueue →
      p.exhausted = false ∧ p.retriesLeft ≠ 0) :
    (scanQueue now turns h).2.readyQueue.Nodup ∧
      ∀ k p, h.pendingByHash[k]? = some p →
        (k ∈ (scanQueue now turns h).2.readyQueue ↔
          k ∈ h.readyQueue ∧ ∀ peer, (scanQueue now turns h).1 ≠ some (peer, k)) := by
  induction turns generalizing h with
  | zero => exact ⟨honce, fun k p _ => by simp [scanQueue]⟩
  | succ turns ih =>
    unfold scanQueue
    split
    next hnil => exact ⟨honce, fun k p _ => by simp⟩
    next head rest hqueue =>
      rw [hqueue] at honce hopen
      obtain ⟨hhead, hrest⟩ := List.nodup_cons.mp honce
      split
      next hnone =>
        obtain ⟨h₁, h₂⟩ := ih { h with readyQueue := rest } hrest
          fun k p hk hin => hopen k p hk (List.mem_cons_of_mem _ hin)
        refine ⟨h₁, fun k p hk => (h₂ k p hk).trans ?_⟩
        have hne : k ≠ head := by
          rintro rfl
          rw [hnone] at hk
          cases hk
        rw [hqueue, List.mem_cons, or_iff_right hne]
      next pending hentry =>
        split
        next =>
          refine ⟨hrest, fun k p hk => ?_⟩
          dsimp only
          rw [hqueue, List.mem_cons]
          constructor
          · intro hin
            refine ⟨Or.inr hin, fun peer heq => hhead ?_⟩
            obtain ⟨-, rfl⟩ := Prod.mk.inj (Option.some.inj heq)
            exact hin
          · rintro ⟨rfl | hin, hnot⟩
            · exact absurd rfl (hnot _)
            · exact hin
        next =>
          obtain ⟨hexhausted, hleft⟩ := hopen head pending hentry List.mem_cons_self
          have hagain : (!pending.exhausted && decide (0 < pending.retriesLeft)) = true := by
            rw [hexhausted, Bool.not_false, Bool.true_and, decide_eq_true_eq]
            exact Nat.pos_of_ne_zero hleft
          rw [if_pos hagain]
          have hmem : ∀ x, x ∈ rest ++ [head] ↔ x ∈ head :: rest := fun x => by
            rw [List.mem_append, List.mem_singleton, List.mem_cons, or_comm]
          obtain ⟨h₁, h₂⟩ := ih { h with readyQueue := rest ++ [head] }
            (List.nodup_append_comm.mp honce)
            fun k p hk hin => hopen k p hk ((hmem k).mp hin)
          refine ⟨h₁, fun k p hk => (h₂ k p hk).trans ?_⟩
          rw [hqueue]
          exact and_congr_left fun _ => hmem k

theorem sound_entry (hsound : ∀ k, (h.trackedAt k).Sound) (hentry : h.pendingByHash[k]? = some p) :
    (p.exhausted = true ↔ p.retriesLeft = 0) ∧
      if p.inFlight then
        p.exhausted = false ∧ ∃ r, {x : RequestId | h.inflightByRequest[x]? = some k} = {r}
      else {x : RequestId | h.inflightByRequest[x]? = some k} = ∅ := by
  have hk := hsound k
  unfold trackedAt Tracked.Sound at hk
  rw [hentry] at hk
  exact hk

/-- A request out is for an entry in flight. -/
theorem inFlight_of_request (hsound : ∀ k, (h.trackedAt k).Sound) {r : RequestId}
    (hr : h.inflightByRequest[r]? = some k) (hentry : h.pendingByHash[k]? = some p) :
    p.inFlight = true ∧ p.retriesLeft ≠ 0 := by
  obtain ⟨hiff, hrequests⟩ := sound_entry hsound hentry
  cases hin : p.inFlight with
  | true =>
    simp only [hin, if_true] at hrequests
    refine ⟨rfl, fun hzero => ?_⟩
    rw [hiff.mpr hzero] at hrequests
    cases hrequests.1
  | false =>
    simp only [hin, Bool.false_eq_true, if_false] at hrequests
    have hmem : r ∈ {x : RequestId | h.inflightByRequest[x]? = some k} := hr
    rw [hrequests] at hmem
    exact absurd hmem (Set.notMem_empty r)

theorem Kept.issued (hk : h.Kept asked) {queue : List Hash} {p : PendingHash} (now : Instant)
    (r : RequestId) (hentry : h.pendingByHash[hash]? = some p)
    (hopen : p.canAttemptNow now h.cfg = true) (honce : queue.Nodup) (hout : hash ∉ queue)
    (hqueue : ∀ k, k ≠ hash → (h.pendingByHash[k]? ≠ none → (k ∈ queue ↔ k ∈ h.readyQueue))) :
    (markIssued now r hash { h with readyQueue := queue }).Kept
      fun k => asked k + [hash].count k := by
  obtain ⟨hexhausted, hflight, hleft⟩ := PendingHash.open_of_canAttemptNow hopen
  have hissued : markIssued now r hash { h with readyQueue := queue } = ⟨h.cfg,
      h.pendingByHash.insert hash { p with inFlight := true, lastAttemptAt := some now },
      h.inflightByRequest.insert r hash, queue⟩ := by
    unfold markIssued
    dsimp only
    rw [hentry]
  have hget (k : Hash) : (h.pendingByHash.insert hash
      { p with inFlight := true, lastAttemptAt := some now })[k]? =
      if hash = k then some { p with inFlight := true, lastAttemptAt := some now }
      else h.pendingByHash[k]? := by
    rw [ExtTreeMap.getElem?_insert]
    simp only [LawfulEqCmp.compare_eq_iff_eq]
  have hcount (k : Hash) (hne : ¬hash = k) : asked k + [hash].count k = asked k := by
    rw [List.count_eq_zero_of_not_mem (fun hin => hne (List.mem_singleton.mp hin).symm), Nat.add_zero]
  rw [hissued]
  refine ⟨honce, fun k q hq => ?_, fun k q hq => ?_, fun k hnone => ?_⟩
  all_goals dsimp only at *
  · rw [hget] at hq
    split at hq
    next heq =>
      obtain rfl := heq
      obtain rfl := Option.some.inj hq
      exact iff_of_false hout fun hwaits => Bool.noConfusion hwaits.2
    next hne =>
      have htracked : h.pendingByHash[k]? ≠ none := by
        rw [hq]
        exact Option.some_ne_none q
      exact (hqueue k (fun heq => hne heq.symm) htracked).trans (hk.waiting k q hq)
  · rw [hget] at hq
    split at hq
    next heq =>
      obtain rfl := heq
      obtain rfl := Option.some.inj hq
      have hpaid := hk.paid hash p hentry
      unfold PendingHash.Paid at hpaid ⊢
      simp only [hflight, Bool.false_eq_true, if_false, if_true, List.count_singleton_self] at hpaid ⊢
      omega
    next hne =>
      rw [hcount k hne]
      exact hk.paid k q hq
  · rw [hget] at hnone
    split at hnone
    · cases hnone
    next hne =>
      rw [hcount k hne]
      exact hk.untracked k hnone

end Hydration

/-! ### The driver -/

namespace HydrationDriver
open Hydration
variable {d : HydrationDriver} {asked : Hash → ℕ}

/-- Every hash the driver takes from the queue is asked of a peer it can reach. -/
def reaches (now : Instant) (connected pqReady : PeerId → Bool) : ℕ → HydrationDriver → Bool
  | 0, _ => true
  | rounds+1, d =>
    match d.hydration.nextRequest now with
    | (none, _) => true
    | (some (peer, hash), h) => connected peer && pqReady peer &&
      reaches now connected pqReady rounds ⟨h.markIssued now d.nextRequestId hash, d.nextRequestId+1⟩

/-- The hashes the driver sends requests for. -/
def sent (now : Instant) (connected pqReady : PeerId → Bool) : ℕ → HydrationDriver → List Hash
  | 0, _ => []
  | rounds+1, d =>
    match d.hydration.nextRequest now with
    | (none, _) => []
    | (some (peer, hash), h) =>
      if connected peer && pqReady peer then
        hash :: sent now connected pqReady rounds
          ⟨h.markIssued now d.nextRequestId hash, d.nextRequestId+1⟩
      else sent now connected pqReady rounds { d with hydration := h }

theorem Scheduled.issued (hd : d.Scheduled) {queue : List Hash} {hash : Hash} {p : PendingHash}
    (now : Instant) (hentry : d.hydration.pendingByHash[hash]? = some p)
    (hopen : p.canAttemptNow now d.hydration.cfg = true) :
    Scheduled ⟨markIssued now d.nextRequestId hash { d.hydration with readyQueue := queue },
      d.nextRequestId+1⟩ := by
  have hfresh : d.hydration.inflightByRequest[d.nextRequestId]? = none := by
    cases hr : d.hydration.inflightByRequest[d.nextRequestId]? with
    | none => rfl
    | some k => exact absurd (hd.numbered _ _ hr) (lt_irrefl _)
  have hmoves := @markIssued_moves { d.hydration with readyQueue := queue } hash False now
    d.nextRequestId p hentry hopen hfresh
  have hissued : markIssued now d.nextRequestId hash { d.hydration with readyQueue := queue } =
      ⟨d.hydration.cfg,
        d.hydration.pendingByHash.insert hash { p with inFlight := true, lastAttemptAt := some now },
        d.hydration.inflightByRequest.insert d.nextRequestId hash, queue⟩ := by
    unfold markIssued
    dsimp only
    rw [hentry]
  refine ⟨fun k => (hmoves k).sound (hd.sound k), ?_, ?_⟩
  · intro r k hr
    rw [hissued] at hr
    dsimp only at hr ⊢
    rw [ExtTreeMap.getElem?_insert] at hr
    split at hr
    next heq =>
      have hre : d.nextRequestId = r := LawfulEqCmp.eq_of_compare heq
      exact Nat.lt_succ_of_le hre.symm.le
    next => exact Nat.lt_succ_of_lt (hd.numbered r k hr)
  · rw [hissued]
    exact hd.retries

theorem driveRounds_kept (now : Instant) (connected pqReady : PeerId → Bool) (rounds : ℕ)
    (d : HydrationDriver) (asked : Hash → ℕ) (hd : d.Scheduled) (hk : d.hydration.Kept asked)
    (hreaches : reaches now connected pqReady rounds d = true) :
    (d.driveRounds now connected pqReady rounds).hydration.Kept
      fun k => asked k + (sent now connected pqReady rounds d).count k := by
  induction rounds generalizing d asked with
  | zero => exact hk
  | succ rounds ih =>
    obtain ⟨⟨queue, hqueue⟩, hfound⟩ := scanQueue_spec now d.hydration.readyQueue.length d.hydration
    have hopen : ∀ k p, d.hydration.pendingByHash[k]? = some p → k ∈ d.hydration.readyQueue →
        p.exhausted = false ∧ p.retriesLeft ≠ 0 := by
      intro k p hentry hin
      have hexhausted := ((hk.waiting k p hentry).mp hin).1
      refine ⟨hexhausted, fun hzero => ?_⟩
      rw [(sound_entry hd.sound hentry).1.mpr hzero] at hexhausted
      cases hexhausted
    obtain ⟨honce, hmem⟩ := scanQueue_queue now d.hydration.readyQueue.length d.hydration hk.once hopen
    unfold HydrationDriver.driveRounds sent
    unfold reaches at hreaches
    unfold nextRequest at hreaches ⊢
    cases hscan : scanQueue now d.hydration.readyQueue.length d.hydration with
    | mk found h =>
      rw [hscan] at hqueue hfound honce hmem hreaches
      obtain rfl : h = { d.hydration with readyQueue := queue } := hqueue
      cases found with
      | none =>
        refine ⟨honce, fun k p hp => ?_, hk.paid, hk.untracked⟩
        refine ((hmem k p hp).trans ?_).trans (hk.waiting k p hp)
        exact and_iff_left fun _ heq => Option.some_ne_none _ heq.symm
      | some request =>
        obtain ⟨peer, hash⟩ := request
        obtain ⟨p, hentry, hcan⟩ := hfound peer hash rfl
        dsimp only at hreaches hmem honce ⊢
        obtain ⟨hpeer, hreaches⟩ := Bool.and_eq_true_iff.mp hreaches
        rw [if_pos hpeer, if_pos hpeer]
        have hout : hash ∉ queue := fun hin => ((hmem hash p hentry).mp hin).2 peer rfl
        have hissued := hk.issued now d.nextRequestId hentry hcan honce hout (by
          intro k hne htracked
          obtain ⟨q, hq⟩ := Option.ne_none_iff_exists'.mp htracked
          refine (hmem k q hq).trans (and_iff_left fun peer' heq => hne ?_)
          exact (Prod.mk.inj (Option.some.inj heq)).2.symm)
        have hnext := ih _ _ (hd.issued now hentry hcan) hissued hreaches
        refine hnext.congr fun k => ?_
        have hsplit (l : List Hash) : (hash :: l).count k = [hash].count k + l.count k := by
          rw [← List.singleton_append, List.count_append]
        exact (Nat.add_assoc _ _ _).trans (congrArg (asked k + ·) (hsplit _).symm)

end HydrationDriver

/-! ### Answers and failures -/

namespace Hydration
variable {h : Hydration} {hash k : Hash} {p : PendingHash} {asked : Hash → ℕ}

/-- A failure frees an entry in flight: it is queued again, or it is exhausted. -/
theorem Kept.freed (hk : h.Kept asked) {r : RequestId} {q : PendingHash}
    (hentry : h.pendingByHash[hash]? = some p) (hflight : p.inFlight = true) (hleft : p.retriesLeft ≠ 0)
    (hfreed : q.inFlight = false) (hless : q.retriesLeft = p.retriesLeft-1) :
    (if q.exhausted then
      { h with
        pendingByHash := h.pendingByHash.insert hash q
        inflightByRequest := h.inflightByRequest.erase r }
    else Hydration.enqueueOnce hash { h with
        pendingByHash := h.pendingByHash.insert hash q
        inflightByRequest := h.inflightByRequest.erase r }).Kept asked := by
  have herased : ({ h with inflightByRequest := h.inflightByRequest.erase r } : Hydration).Kept asked :=
    ⟨hk.once, hk.waiting, hk.paid, hk.untracked⟩
  have hpaid : q.Paid (asked hash) h.cfg.maxRetriesPerHash := by
    have hbefore := hk.paid hash p hentry
    unfold PendingHash.Paid at hbefore ⊢
    simp only [hflight, hfreed, hless, Bool.false_eq_true, if_false, if_true] at hbefore ⊢
    omega
  split
  next hexhausted =>
    have hout : hash ∉ h.readyQueue := fun hin => by
      have hwaits := ((hk.waiting hash p hentry).mp hin).2
      rw [hflight] at hwaits
      cases hwaits
    exact herased.insert q hk.once (fun _ _ => Iff.rfl)
      (iff_of_false hout fun hwaits => by rw [hwaits.1] at hexhausted; cases hexhausted) hpaid
  next hopen =>
    exact herased.enqueueOnce q ⟨Bool.not_eq_true _ ▸ hopen, hfreed⟩ hpaid

theorem Kept.onRequestFailed (hk : h.Kept asked) (now : Instant) (r : RequestId)
    (hsound : ∀ k, (h.trackedAt k).Sound) : (onRequestFailed now r h).2.Kept asked := by
  unfold Hydration.onRequestFailed
  split
  · exact hk
  next hash hr =>
    obtain ⟨p, hentry⟩ := entry_of_request hsound hr
    obtain ⟨hflight, hleft⟩ := inFlight_of_request hsound hr hentry
    have hfreed := @Kept.freed h hash p asked hk r (p.failed now) hentry hflight hleft rfl rfl
    unfold onHashRequestFailed
    dsimp only
    rw [hentry]
    dsimp only
    split
    next hexhausted =>
      rw [if_pos hexhausted] at hfreed
      exact hfreed
    next hopen =>
      rw [if_neg hopen] at hfreed
      exact hfreed

/-- A block that is accepted ends the count of its hash. -/
theorem Kept.dropped (hk : h.Kept asked) (r : RequestId) (hash : Hash) :
    Kept (fun k => if hash = k then 0 else asked k) { h with
      pendingByHash := h.pendingByHash.erase hash
      inflightByRequest := h.inflightByRequest.erase r } := by
  have hget (k : Hash) : (h.pendingByHash.erase hash)[k]? =
      if hash = k then none else h.pendingByHash[k]? := by
    rw [ExtTreeMap.getElem?_erase]
    simp only [LawfulEqCmp.compare_eq_iff_eq]
  refine ⟨hk.once, fun k p hp => ?_, fun k p hp => ?_, fun k hnone => ?_⟩
  all_goals dsimp only at *
  · rw [hget] at hp
    split at hp
    · cases hp
    · exact hk.waiting k p hp
  · rw [hget] at hp
    split at hp
    · cases hp
    next hne =>
      rw [if_neg hne]
      exact hk.paid k p hp
  · rw [hget] at hnone
    split at hnone
    next heq => rw [if_pos heq]
    next hne =>
      rw [if_neg hne]
      exact hk.untracked k hnone

theorem Kept.enqueueAll (hk : h.Kept asked) {hashes : List Hash}
    (hwaits : ∀ k p, k ∈ hashes → h.pendingByHash[k]? = some p → p.Waiting) :
    (hashes.foldl (fun h hash => Hydration.enqueueOnce hash h) h).Kept asked := by
  have hpending := enqueueAll_pending hashes h
  have hcfg := (foldl_enqueueOnce_quiet False hashes h).cfg
  refine ⟨enqueueAll_once hashes hk.once, fun k p hp => ?_, fun k p hp => ?_, fun k hnone => ?_⟩
  · rw [hpending] at hp
    rw [mem_enqueueAll]
    constructor
    · rintro (hin | hin)
      · exact hwaits k p hin hp
      · exact (hk.waiting k p hp).mp hin
    · exact fun hw => Or.inr ((hk.waiting k p hp).mpr hw)
  · rw [hpending] at hp
    rw [hcfg]
    exact hk.paid k p hp
  · rw [hpending] at hnone
    exact hk.untracked k hnone

/-- The children an accepted block wakes are not tracked themselves, or they wait. -/
def WakesWaiting {σ : Type} (h : Hydration) (r : RequestId) (block : Block)
    (persistBlock : Block → Fallible σ) (hasParentMeta : σ → Hash → Bool) : Prop :=
  ∀ p store, h.inflightByRequest[r]? = some block.blockHash →
    h.pendingByHash[block.blockHash]? = some p → persistBlock block = .ok store →
    ¬(h.cfg.autoChaseParent ∧ ¬parentIsGenesis block ∧
      ¬hasParentMeta store block.metadata.previousHash) →
    ∀ child ∈ p.waitingChildren, child ≠ block.blockHash →
      ∀ q : PendingHash, h.pendingByHash[child]? = some q → q.Waiting

/-- Whether a block answers a request for its hash. -/
def Accepts (h : Hydration) (r : RequestId) (block : Block) (k : Hash) : Prop :=
  h.inflightByRequest[r]? = some k ∧ block.blockHash = k ∧ k ∈ h.pendingByHash

instance (h : Hydration) (r : RequestId) (block : Block) (k : Hash) : Decidable (h.Accepts r block k) := by
  unfold Accepts
  infer_instance

theorem Kept.onBlockReceived {σ : Type} (hk : h.Kept asked) (r : RequestId) (block : Block)
    (persistBlock : Block → Fallible σ) (hasParentMeta : σ → Hash → Bool)
    (hsound : ∀ k, (h.trackedAt k).Sound) (hwakes : h.WakesWaiting r block persistBlock hasParentMeta) :
    (onBlockReceived r block persistBlock hasParentMeta h).2.Kept
      fun k => if h.Accepts r block k then 0 else asked k := by
  unfold Hydration.onBlockReceived
  split
  next hnone =>
    refine hk.congr fun k => (if_neg ?_).symm
    rintro ⟨hr, -⟩
    rw [hnone] at hr
    cases hr
  next hash hr =>
    obtain ⟨p, hentry⟩ := entry_of_request hsound hr
    dsimp only
    rw [hentry]
    dsimp only
    split
    next hother =>
      obtain ⟨hflight, hleft⟩ := inFlight_of_request hsound hr hentry
      have hfreed := @Kept.freed h hash p asked hk r p.mismatched hentry hflight hleft rfl rfl
      refine Kept.congr hfreed fun k => (if_neg ?_).symm
      rintro ⟨hr', rfl, -⟩
      rw [hr] at hr'
      exact hother (Option.some.inj hr').symm
    next hsame =>
      obtain rfl : block.blockHash = hash := not_not.mp hsame
      have hmem : block.blockHash ∈ h.pendingByHash := by
        rw [ExtTreeMap.mem_iff_isSome_getElem?, hentry]
        rfl
      have hended : ∀ k, (if block.blockHash = k then 0 else asked k) =
          if h.Accepts r block k then 0 else asked k := by
        intro k
        by_cases heq : block.blockHash = k
        · rw [if_pos heq, if_pos ⟨heq ▸ hr, heq, heq ▸ hmem⟩]
        · rw [if_neg heq, if_neg fun haccepts => heq haccepts.2.1]
      have hdropped := (hk.dropped r block.blockHash).congr hended
      cases hpersist : persistBlock block with
      | error e => exact hdropped
      | ok store =>
        dsimp only
        unfold accept
        dsimp only
        split
        next => exact (hdropped.noteNeedMoreData _ _ _ _ _).noteChildWaitingOnParent _ _
        next hknown =>
          split
          next => exact hdropped
          next =>
            refine hdropped.enqueueAll fun child q hin hq => ?_
            dsimp only at hq
            rw [ExtTreeMap.getElem?_erase] at hq
            split at hq
            · cases hq
            next hne =>
              rw [LawfulEqCmp.compare_eq_iff_eq] at hne
              exact hwakes p store hr hentry hpersist hknown child hin (fun heq => hne heq.symm) q hq

/-- No hash that waits for the peer is at its last retry. -/
def SparesWaiting (h : Hydration) (peer : PeerId) : Prop :=
  ∀ (k : Hash) (p : PendingHash), h.pendingByHash[k]? = some p → p.originPeer = peer → p.Waiting →
    1 < p.retriesLeft

theorem mem_hashesToRequeue (peer : PeerId) (h : Hydration) (k : Hash) :
    k ∈ hashesToRequeue peer h ↔ ∃ p, h.pendingByHash[k]? = some p ∧ p.originPeer = peer ∧
      p.retriesLeft-1 ≠ 0 := by
  unfold hashesToRequeue
  rw [List.mem_map]
  constructor
  · rintro ⟨⟨k', p⟩, hmem, rfl⟩
    rw [List.mem_filter, Bool.and_eq_true, decide_eq_true_eq, decide_eq_true_eq] at hmem
    exact ⟨p, ExtTreeMap.mem_toList_iff_getElem?_eq_some.mp hmem.1, hmem.2⟩
  · rintro ⟨p, hentry, hpeer, hleft⟩
    refine ⟨(k, p), ?_, rfl⟩
    rw [List.mem_filter, Bool.and_eq_true, decide_eq_true_eq, decide_eq_true_eq]
    exact ⟨ExtTreeMap.mem_toList_iff_getElem?_eq_some.mpr hentry, hpeer, hleft⟩

theorem Kept.onPeerDisconnected (hk : h.Kept asked) (now : Instant) (peer : PeerId)
    (hsound : ∀ k, (h.trackedAt k).Sound) (hspares : h.SparesWaiting peer) :
    (onPeerDisconnected now peer h).Kept asked := by
  have hentry := entry_onPeerDisconnected now peer h
  have hqueue (k : Hash) : k ∈ (Hydration.onPeerDisconnected now peer h).readyQueue ↔
      k ∈ hashesToRequeue peer h ∨ k ∈ h.readyQueue :=
    mem_enqueueAll (hashesToRequeue peer h) { h with
      pendingByHash := h.pendingByHash.map fun _ p => if p.originPeer = peer then p.failed now else p }
  have honce : (Hydration.onPeerDisconnected now peer h).readyQueue.Nodup :=
    @enqueueAll_once { h with
      pendingByHash := h.pendingByHash.map fun _ p => if p.originPeer = peer then p.failed now else p }
      (hashesToRequeue peer h) hk.once
  have hcfg : (Hydration.onPeerDisconnected now peer h).cfg = h.cfg :=
    (foldl_enqueueOnce_quiet False (hashesToRequeue peer h) _).cfg
  refine ⟨honce, fun k q hq => ?_, fun k q hq => ?_, fun k hnone => ?_⟩
  · rw [hentry] at hq
    obtain ⟨p, hp, rfl⟩ := Option.map_eq_some_iff.mp hq
    rw [hqueue, mem_hashesToRequeue]
    by_cases hpeer : p.originPeer = peer
    · rw [if_pos hpeer]
      have hiff := (sound_entry hsound hp).1
      by_cases hleft : p.retriesLeft-1 = 0
      · -- the last retry is gone, and the hash did not wait
        have hout : ¬p.Waiting := fun hw => by
          have hspared := hspares k p hp hpeer hw
          omega
        refine iff_of_false ?_ ?_
        · rintro (⟨p', hp', -, hleft'⟩ | hin)
          · rw [hp] at hp'
            obtain rfl := Option.some.inj hp'
            exact hleft' hleft
          · exact hout ((hk.waiting k p hp).mp hin)
        · rintro ⟨hexhausted, -⟩
          rw [PendingHash.failed, hleft] at hexhausted
          simp at hexhausted
      · refine iff_of_true (Or.inl ⟨p, hp, hpeer, hleft⟩) ⟨?_, rfl⟩
        have hopen : p.exhausted = false := by
          cases he : p.exhausted with
          | false => rfl
          | true => exact absurd (hiff.mp he) (by omega)
        simp [PendingHash.failed, hopen, hleft]
    · rw [if_neg hpeer, or_iff_right]
      · exact hk.waiting k p hp
      · rintro ⟨p', hp', hpeer', -⟩
        rw [hp] at hp'
        obtain rfl := Option.some.inj hp'
        exact hpeer hpeer'
  · rw [hentry] at hq
    obtain ⟨p, hp, rfl⟩ := Option.map_eq_some_iff.mp hq
    have hpaid := hk.paid k p hp
    rw [hcfg]
    split
    next =>
      have hleft := (sound_entry hsound hp).2
      have hiff := (sound_entry hsound hp).1
      unfold PendingHash.Paid at hpaid ⊢
      simp only [PendingHash.failed, Bool.false_eq_true, if_false]
      cases hin : p.inFlight with
      | false =>
        simp only [hin, Bool.false_eq_true, if_false] at hpaid
        omega
      | true =>
        simp only [hin, if_true] at hpaid hleft
        have hpos : p.retriesLeft ≠ 0 := fun hzero => by
          rw [hiff.mpr hzero] at hleft
          cases hleft.1
        omega
    next => exact hpaid
  · rw [hentry] at hnone
    exact hk.untracked k (Option.map_eq_none_iff.mp hnone)

end Hydration

/-! ### Runs -/

namespace HydrationDriver
open Hydration

/-- The hashes a step sends requests for. -/
def sentBy (d : HydrationDriver) : HydrationEvent → List Hash
  | .drive now connected pqReady => sent now connected pqReady maxHydrationRequestsPerTick d
  | _ => []

/-- Whether a step brings the block of a tracked hash. -/
def accepts (d : HydrationDriver) (event : HydrationEvent) (k : Hash) : Bool :=
  match event with
  | .blockReceived r block _ _ => decide (d.hydration.Accepts r block k)
  | _ => false

/-- A step that loses no hash: the driver can reach whom it asks, a block wakes only children that
wait or are not tracked, and a lost peer leaves the hashes that wait for it another retry. -/
def Orderly (d : HydrationDriver) : HydrationEvent → Prop
  | .drive now connected pqReady =>
    reaches now connected pqReady maxHydrationRequestsPerTick d = true
  | .blockReceived r block persistBlock hasParentMeta =>
    d.hydration.WakesWaiting r block persistBlock fun _ => hasParentMeta
  | .peerDisconnected _ peer => d.hydration.SparesWaiting peer
  | _ => True

end HydrationDriver

/-- The driver, with how often each hash was asked for since it was last tracked. -/
structure WatchedHydration where
  driver : HydrationDriver
  asked : Hash → ℕ

/-- Where a tracked hash stands. -/
inductive Standing (h : Hydration) (k : Hash) (p : PendingHash) : Prop
  | inFlight (flies : p.inFlight = true) (once : ∃! r : RequestId, h.inflightByRequest[r]? = some k)
    (notQueued : k ∉ h.readyQueue) (open' : p.exhausted = false)
  | queued (once : h.readyQueue.count k = 1) (rests : p.inFlight = false)
    (notAsked : ∀ r : RequestId, h.inflightByRequest[r]? ≠ some k) (open' : p.exhausted = false)
  | exhausted (given : p.exhausted = true) (rests : p.inFlight = false)
    (notAsked : ∀ r : RequestId, h.inflightByRequest[r]? ≠ some k) (notQueued : k ∉ h.readyQueue)

namespace WatchedHydration
open HydrationDriver Hydration

def new : WatchedHydration := ⟨HydrationDriver.new, fun _ => 0⟩

def step (w : WatchedHydration) (event : HydrationEvent) : WatchedHydration :=
  ⟨w.driver.step event, fun k =>
    if w.driver.accepts event k then 0 else w.asked k + (w.driver.sentBy event).count k⟩

/-- What every state of an orderly run keeps. -/
structure Kept (w : WatchedHydration) : Prop where
  scheduled : w.driver.Scheduled
  kept : w.driver.hydration.Kept w.asked

theorem Kept.step {w : WatchedHydration} (h : w.Kept) (event : HydrationEvent)
    (horderly : w.driver.Orderly event) : (w.step event).Kept := by
  refine ⟨(step_moves h.scheduled event).1, ?_⟩
  have hsound := h.scheduled.sound
  -- no request is sent and no block is taken
  have hquiet {h' : Hydration} (hk : h'.Kept w.asked) :
      h'.Kept fun k => if false then 0 else w.asked k + ([] : List Hash).count k :=
    hk.congr fun _ => rfl
  cases event with
  | competingBlock peer block =>
    apply hquiet
    change (w.driver.hydration.queueBranchHydration peer block).Kept w.asked
    unfold queueBranchHydration
    split
    · exact (h.kept.noteNeedMoreData _ _ _ _ _).noteChildWaitingOnParent _ _
    · exact h.kept
  | needMoreData peer missing height context child =>
    apply hquiet
    have hnoted := h.kept.noteNeedMoreData peer missing height .forkChoiceNeedMoreData context
    cases child with
    | none => exact hnoted
    | some child => exact hnoted.noteChildWaitingOnParent missing child
  | drive now connected pqReady =>
    exact driveRounds_kept now connected pqReady _ w.driver w.asked h.scheduled h.kept horderly
  | otherRequest => exact hquiet h.kept
  | notFound now r => exact hquiet (h.kept.onRequestFailed now r hsound)
  | requestFailed now r => exact hquiet (h.kept.onRequestFailed now r hsound)
  | blockReceived r block persistBlock hasParentMeta =>
    refine (h.kept.onBlockReceived r block persistBlock (fun _ => hasParentMeta) hsound horderly).congr
      fun k => ?_
    change _ = if decide (w.driver.hydration.Accepts r block k) = true then 0 else w.asked k + 0
    simp only [decide_eq_true_eq, Nat.add_zero]
  | peerDisconnected now peer => exact hquiet (h.kept.onPeerDisconnected now peer hsound horderly)

end WatchedHydration

namespace Sample

end Sample

namespace Hydration
variable {h : Hydration} {parent child : Hash}

/-- A child is recorded as waiting for a tracked parent. -/
def Recorded (h : Hydration) (parent child : Hash) : Prop :=
  ∃ p, h.pendingByHash[parent]? = some p ∧ child ∈ p.waitingChildren

theorem Recorded.congr {h' : Hydration} (hrec : h.Recorded parent child)
    (heq : ∀ p, h.pendingByHash[parent]? = some p →
      ∃ q, h'.pendingByHash[parent]? = some q ∧ p.waitingChildren ⊆ q.waitingChildren) :
    h'.Recorded parent child := by
  obtain ⟨p, hp, hin⟩ := hrec
  obtain ⟨q, hq, hsub⟩ := heq p hp
  exact ⟨q, hq, hsub hin⟩

theorem Recorded.insert (hrec : h.Recorded parent child) {hash : Hash} {p : PendingHash}
    (q : PendingHash) (hentry : h.pendingByHash[hash]? = some p)
    (hsame : q.waitingChildren = p.waitingChildren) :
    Recorded { h with pendingByHash := h.pendingByHash.insert hash q } parent child := by
  refine hrec.congr fun p' hp' => ?_
  dsimp only
  rw [ExtTreeMap.getElem?_insert]
  split
  next heq =>
    obtain rfl : hash = parent := LawfulEqCmp.eq_of_compare heq
    rw [hentry] at hp'
    obtain rfl := Option.some.inj hp'
    exact ⟨q, rfl, hsame ▸ List.Subset.refl _⟩
  next => exact ⟨p', hp', List.Subset.refl _⟩

theorem Recorded.enqueueOnce (hrec : h.Recorded parent child) (hash : Hash) :
    (enqueueOnce hash h).Recorded parent child := by
  unfold Recorded
  rw [enqueueOnce_pending]
  exact hrec

theorem Recorded.noteNeedMoreData (hrec : h.Recorded parent child) (peer : PeerId) (missing : Hash)
    (height : Option UInt64) (reason : HydrationReason) (context : String) :
    (noteNeedMoreData peer missing height reason context h).Recorded parent child := by
  unfold Hydration.noteNeedMoreData
  split
  · exact hrec
  · split
    next existing hentry =>
      have hnoted := hrec.insert { existing with
        originPeer := peer
        sourceHeight := existing.sourceHeight.or height
        reason := reason
        context := context } hentry rfl
      dsimp only
      split
      · exact hnoted.enqueueOnce _
      · exact hnoted
    next hentry =>
      apply Recorded.enqueueOnce
      obtain ⟨p, hp, hin⟩ := hrec
      refine ⟨p, ?_, hin⟩
      dsimp only
      rw [ExtTreeMap.getElem?_insert]
      split
      next heq =>
        obtain rfl : missing = parent := LawfulEqCmp.eq_of_compare heq
        rw [hentry] at hp
        cases hp
      next => exact hp

theorem Recorded.noteChildWaitingOnParent (hrec : h.Recorded parent child) (p c : Hash) :
    (noteChildWaitingOnParent p c h).Recorded parent child := by
  refine hrec.congr fun q hq => ?_
  unfold Hydration.noteChildWaitingOnParent
  dsimp only
  rw [ExtTreeMap.getElem?_modify]
  split
  next heq =>
    obtain rfl : p = parent := LawfulEqCmp.eq_of_compare heq
    rw [hq]
    exact ⟨{ q with waitingChildren := q.waitingChildren.insert c }, rfl,
      fun x hx => List.mem_insert_of_mem hx⟩
  next => exact ⟨q, hq, List.Subset.refl _⟩

theorem Recorded.onRequestFailed (hrec : h.Recorded parent child) (now : Instant) (r : RequestId) :
    (onRequestFailed now r h).2.Recorded parent child := by
  unfold Hydration.onRequestFailed
  split
  · exact hrec
  next hash hr =>
    have herased : ({ h with inflightByRequest := h.inflightByRequest.erase r } : Hydration).Recorded
      parent child := hrec
    unfold onHashRequestFailed
    dsimp only
    split
    · exact herased
    next p hentry =>
      have hfailed := herased.insert (p.failed now) hentry rfl
      split
      · exact hfailed
      · exact hfailed.enqueueOnce hash

theorem Recorded.onPeerDisconnected (hrec : h.Recorded parent child) (now : Instant) (peer : PeerId) :
    (onPeerDisconnected now peer h).Recorded parent child := by
  refine hrec.congr fun p hp => ?_
  rw [entry_onPeerDisconnected, hp, Option.map_some]
  refine ⟨_, rfl, ?_⟩
  split
  · exact List.Subset.refl _
  · exact List.Subset.refl _

theorem Recorded.markIssued (hrec : h.Recorded parent child) (now : Instant) (r : RequestId)
    (hash : Hash) : (markIssued now r hash h).Recorded parent child := by
  unfold Hydration.markIssued
  split
  · exact hrec
  next p hentry => exact hrec.insert { p with inFlight := true, lastAttemptAt := some now } hentry rfl

/-- A block that ends the entry of a hash with children is stored, and its parent is known. -/
def HandsOn {σ : Type} (h : Hydration) (r : RequestId) (block : Block)
    (persistBlock : Block → Fallible σ) (hasParentMeta : σ → Hash → Bool) : Prop :=
  ∀ p, h.inflightByRequest[r]? = some block.blockHash →
    h.pendingByHash[block.blockHash]? = some p → p.waitingChildren ≠ [] →
    ∃ store, persistBlock block = .ok store ∧
      (h.cfg.autoChaseParent → parentIsGenesis block ∨
        hasParentMeta store block.metadata.previousHash = true)

/-- The children an answer reports as unblocked. -/
def unblocked {σ : Type} (answer : Fallible (HydrationAdvance × Option σ)) : List Hash :=
  match answer with
  | .ok (.acceptedUnblockedChildren _ children, _) => children
  | _ => []

theorem Recorded.onBlockReceived {σ : Type} (hrec : h.Recorded parent child) (r : RequestId)
    (block : Block) (persistBlock : Block → Fallible σ) (hasParentMeta : σ → Hash → Bool)
    (hhands : h.HandsOn r block persistBlock hasParentMeta) :
    (onBlockReceived r block persistBlock hasParentMeta h).2.Recorded parent child ∨
      child ∈ unblocked (onBlockReceived r block persistBlock hasParentMeta h).1 := by
  unfold Hydration.onBlockReceived
  split
  · exact Or.inl hrec
  next hash hr =>
    have herased : ({ h with inflightByRequest := h.inflightByRequest.erase r } : Hydration).Recorded
      parent child := hrec
    dsimp only
    split
    · exact Or.inl herased
    next p hentry =>
      split
      next =>
        have hkept := herased.insert p.mismatched hentry rfl
        dsimp only
        split
        · exact Or.inl hkept
        · exact Or.inl (hkept.enqueueOnce hash)
      next hsame =>
        obtain rfl : block.blockHash = hash := not_not.mp hsame
        have hother {h' : Hydration} (hne : parent ≠ block.blockHash)
            (heq : h'.pendingByHash = h.pendingByHash.erase block.blockHash) :
            h'.Recorded parent child := by
          obtain ⟨q, hq, hin⟩ := hrec
          refine ⟨q, ?_, hin⟩
          rw [heq, ExtTreeMap.getElem?_erase,
            if_neg fun hcmp => hne (LawfulEqCmp.eq_of_compare hcmp).symm]
          exact hq
        by_cases heq : parent = block.blockHash
        · subst heq
          obtain ⟨q, hq, hin⟩ := hrec
          rw [hentry] at hq
          obtain rfl := Option.some.inj hq
          have hne : p.waitingChildren ≠ [] := List.ne_nil_of_mem hin
          obtain ⟨store, hpersist, hknown⟩ := hhands p hr hentry hne
          rw [hpersist]
          dsimp only
          unfold accept
          dsimp only
          split
          next hchase =>
            rcases hknown hchase.1 with hgenesis | hmeta
            · exact absurd hgenesis hchase.2.1
            · exact absurd hmeta hchase.2.2
          next => exact Or.inr hin
        · left
          cases persistBlock block with
          | error e => exact hother heq rfl
          | ok store =>
            dsimp only
            unfold accept
            dsimp only
            have hdropped : ({ h with
                pendingByHash := h.pendingByHash.erase block.blockHash
                inflightByRequest := h.inflightByRequest.erase r } : Hydration).Recorded parent child :=
              hother heq rfl
            split
            · exact (hdropped.noteNeedMoreData _ _ _ _ _).noteChildWaitingOnParent _ _
            · split
              · exact hdropped
              · refine hother heq ?_
                rw [enqueueAll_pending]

end Hydration

namespace HydrationDriver
open Hydration

/-- The children a step reports as unblocked. -/
def reports (d : HydrationDriver) : HydrationEvent → List Hash
  | .blockReceived r block persistBlock hasParentMeta =>
    unblocked (d.hydration.onBlockReceived r block persistBlock fun _ => hasParentMeta).1
  | _ => []

def HandsOn (d : HydrationDriver) : HydrationEvent → Prop
  | .blockReceived r block persistBlock hasParentMeta =>
    d.hydration.HandsOn r block persistBlock fun _ => hasParentMeta
  | _ => True

theorem recorded_driveRounds {parent child : Hash} (now : Instant) (connected pqReady : PeerId → Bool)
    (rounds : ℕ) {d : HydrationDriver} (hrec : d.hydration.Recorded parent child) :
    (d.driveRounds now connected pqReady rounds).hydration.Recorded parent child := by
  induction rounds generalizing d with
  | zero => exact hrec
  | succ rounds ih =>
    obtain ⟨⟨queue, hqueue⟩, -⟩ := scanQueue_spec now d.hydration.readyQueue.length d.hydration
    have hscanned : (d.hydration.nextRequest now).2.Recorded parent child := by
      unfold nextRequest
      rw [hqueue]
      exact hrec
    unfold driveRounds
    cases hnext : d.hydration.nextRequest now with
    | mk found h =>
      rw [hnext] at hscanned
      cases found with
      | none => exact hscanned
      | some request =>
        dsimp only
        split
        · exact ih (hscanned.markIssued now _ _)
        · exact ih hscanned

theorem recorded_step {d : HydrationDriver} {parent child : Hash}
    (hrec : d.hydration.Recorded parent child) (event : HydrationEvent) (hhands : d.HandsOn event) :
    (d.step event).hydration.Recorded parent child ∨ child ∈ d.reports event := by
  cases event with
  | competingBlock peer block =>
    left
    change (d.hydration.queueBranchHydration peer block).Recorded parent child
    unfold queueBranchHydration
    split
    · exact (hrec.noteNeedMoreData _ _ _ _ _).noteChildWaitingOnParent _ _
    · exact hrec
  | needMoreData peer missing height context child' =>
    have hnoted := hrec.noteNeedMoreData peer missing height .forkChoiceNeedMoreData context
    cases child' with
    | none => exact Or.inl hnoted
    | some c => exact Or.inl (hnoted.noteChildWaitingOnParent missing c)
  | drive now connected pqReady => exact Or.inl (recorded_driveRounds now connected pqReady _ hrec)
  | otherRequest => exact Or.inl hrec
  | notFound now r => exact Or.inl (hrec.onRequestFailed now r)
  | requestFailed now r => exact Or.inl (hrec.onRequestFailed now r)
  | blockReceived r block persistBlock hasParentMeta =>
    exact hrec.onBlockReceived r block persistBlock (fun _ => hasParentMeta) hhands
  | peerDisconnected now peer => exact Or.inl (hrec.onPeerDisconnected now peer)

end HydrationDriver

/-- In a run where every block that answers for a hash with children is stored under a known parent,
a recorded child stays recorded until it is reported. -/
theorem child_recorded_until_reported (d : HydrationDriver) (parent child : Hash)
    (hrec : d.hydration.Recorded parent child) (events : List HydrationEvent)
    (hhands : Runs.Steps HydrationDriver.step HydrationDriver.HandsOn d events) :
    (d.run events).hydration.Recorded parent child ∨
      ∃ (before : List HydrationEvent) (event : HydrationEvent),
        before ++ [event] <+: events ∧ child ∈ (d.run before).reports event := by
  induction events generalizing d with
  | nil => exact Or.inl hrec
  | cons event events ih =>
    rcases HydrationDriver.recorded_step hrec event hhands.1 with hstays | hreported
    · rcases ih (d.step event) hstays hhands.2 with hstill | ⟨before, event', hprefix, hin⟩
      · exact Or.inl hstill
      · exact Or.inr ⟨event :: before, event', List.cons_prefix_cons.mpr ⟨rfl, hprefix⟩, hin⟩
    · exact Or.inr ⟨[], event, List.cons_prefix_cons.mpr ⟨rfl, List.nil_prefix⟩, hreported⟩

namespace Sample

/-- The parent of a competing block is tracked and asked for. -/
def waitingForParent : HydrationDriver :=
  HydrationDriver.new.run [.competingBlock [1] orphan, .drive 0 allPeers allPeers]

theorem recorded_waitingForParent :
    waitingForParent.hydration.Recorded orphanParent orphan.blockHash := by
  have hchildren : (waitingForParent.hydration.pendingByHash[orphanParent]?).map
      (fun p => p.waitingChildren) = some [orphan.blockHash] := by
    decide
  obtain ⟨p, hp, hlist⟩ := Option.map_eq_some_iff.mp hchildren
  exact ⟨p, hp, hlist ▸ List.mem_singleton_self _⟩

def parentArrives : HydrationEvent := .blockReceived 0 missing (fun _ => .ok ()) fun _ => true

end Sample

theorem child_recorded_until_reported_orphan :
    (Sample.waitingForParent.run [Sample.parentArrives]).hydration.Recorded Sample.orphanParent
        Sample.orphan.blockHash ∨
      ∃ (before : List HydrationEvent) (event : HydrationEvent),
        before ++ [event] <+: [Sample.parentArrives] ∧
        Sample.orphan.blockHash ∈ (Sample.waitingForParent.run before).reports event :=
  child_recorded_until_reported Sample.waitingForParent Sample.orphanParent Sample.orphan.blockHash
    Sample.recorded_waitingForParent [Sample.parentArrives]
    ⟨fun _ _ _ _ => ⟨(), rfl, fun _ => Or.inr rfl⟩, trivial⟩

/-- The parent arrives and cannot be stored: the child is gone, and nobody was told. -/
theorem child_lost_when_parent_not_stored :
    ∃ (d : HydrationDriver) (parent child : Hash) (event : HydrationEvent),
      d.hydration.Recorded parent child ∧ ¬(d.step event).hydration.Recorded parent child ∧
      (d.step event).hydration.pendingByHash = ∅ ∧ d.reports event = [] := by
  let event : HydrationEvent := .blockReceived 0 Sample.missing
    (fun _ => .error (.databaseError "put")) fun _ => true
  have hsize : (Sample.waitingForParent.step event).hydration.pendingByHash.size = 0 := by decide +kernel
  have hempty := ExtTreeMap.eq_empty_iff_size_eq_zero.mpr hsize
  refine ⟨Sample.waitingForParent, Sample.orphanParent, Sample.orphan.blockHash, event,
    Sample.recorded_waitingForParent, ?_, hempty, by decide +kernel⟩
  rintro ⟨p, hp, -⟩
  rw [hempty, ExtTreeMap.getElem?_empty] at hp
  cases hp

end Remzar
