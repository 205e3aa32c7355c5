import Mathlib
import Remzar.Lib.Runs
import Remzar.PendingBlocks

/-! The queue of early blocks over whole runs: adding blocks, applying stored blocks, reloading
and rolling back in any order, with other writers changing the database in between. -/
namespace Remzar
open Std Fallible Effects Checked

/-! ### Runs of a tree -/

inductive TreeCall where
  | addBlock (block : Block)
  | applyBlock (block : Block)
  | reloadFromDbToHeight (height : UInt64)
  | rollbackTo (ancestor : Hash)
  -- Somebody else writes to the database.
  | store (db : RockDB)

namespace TreeCall

def after [Blake3] (s : ChainState) : TreeCall → ChainState
  | .addBlock block => { s with tree := s.tree.feed block }
  | .applyBlock block => storeOf (Remzar.applyBlock block s)
  | .reloadFromDbToHeight height => storeOf (Remzar.reloadFromDbToHeight height s)
  | .rollbackTo ancestor => storeOf (Remzar.rollbackTo ancestor s)
  | .store db => { s with db }

theorem after_addBlock [Blake3] (s : ChainState) (block : Block) :
    after s (.addBlock block) = { s with tree := s.tree.feed block } := rfl

theorem after_applyBlock [Blake3] (s : ChainState) (block : Block) :
    after s (.applyBlock block) = storeOf (Remzar.applyBlock block s) := rfl

end TreeCall

/-- The height that a rollback goes back to, before it reloads the tree. -/
def rollbackHeight [Blake3] (ancestor : Hash) (s : ChainState) : Except Failure UInt64 := do
  let height ← match s.tree.inner.blocks.find? (fun b => b.blockHash = ancestor) with
    | some block => .ok (some block.metadata.index)
    | none => findHeightDownFrom s.db ancestor s.tree.inner.tipHeight.toNat
  okOr height ⟨s!"Ancestor block hash {Blake3.toHex ancestor.toList} not found for rollback", none⟩

theorem rollbackTo_eq [Blake3] (ancestor : Hash) (s : ChainState) : rollbackTo ancestor s =
    match rollbackHeight ancestor s with
    | .error e => .error e s
    | .ok height =>
      match reloadFromDbToHeight height s with
      | .error e s' => .error (failed s!"Failed to reload compact state to rollback height {height}" e) s'
      | .ok _ s' => .ok () { s' with tree := s'.tree.retainPending height } := by
  have hreload (height : UInt64) :
      ((mapError (failed s!"Failed to reload compact state to rollback height {height}")
        (reloadFromDbToHeight height) >>= fun _ =>
          modify fun s : ChainState => { s with tree := s.tree.retainPending height }) :
            EStateM Failure ChainState Unit) s =
      match reloadFromDbToHeight height s with
      | .error e s' => .error (failed s!"Failed to reload compact state to rollback height {height}" e) s'
      | .ok _ s' => .ok () { s' with tree := s'.tree.retainPending height } := by
    rw [bind_run, mapError]
    cases reloadFromDbToHeight height s <;> rfl
  unfold rollbackTo rollbackHeight
  rw [bind_run]
  dsimp only [get, getThe, MonadStateOf.get, EStateM.get]
  cases s.tree.inner.blocks.find? (fun b => b.blockHash = ancestor) with
  | some block => exact hreload block.metadata.index
  | none =>
    dsimp only
    rw [bind_run]
    unfold lift
    cases findHeightDownFrom s.db ancestor s.tree.inner.tipHeight.toNat with
    | error e => rfl
    | ok found =>
      cases found with
      | none => rfl
      | some height => exact hreload height

theorem replayTo_tip [Blake3] {height : UInt64} {db db' : RockDB} {inner : InnerTree}
    (h : replayTo height db = .ok inner db') : inner.hasTip = true ∧ inner.tipHeight = height := by
  simp only [replayTo, run_bind_eq_ok_iff, lift_eq_ok_iff] at h
  obtain ⟨inner', db₁, -, u, db₂, ⟨hverify, -⟩, hret⟩ := h
  cases hret
  simp only [verifyCompactStateInvariants, verifyTipHeight, bind_eq_ok_iff,
    rejectIf_eq_ok_iff] at hverify
  obtain ⟨-, -, -, ⟨-, htip, hheight⟩, -⟩ := hverify
  exact ⟨by simpa using htip, not_not.mp hheight⟩

/-- A reload that fails leaves the tree, any other replaces it and cuts the queue. -/
theorem reload_cases [Blake3] (height : UInt64) (s : ChainState) :
    (∃ e db, reloadFromDbToHeight height s = .error e ⟨db, s.tree⟩) ∨
    ∃ inner db, replayTo height s.db = .ok inner db ∧
      reloadFromDbToHeight height s =
        .ok () ⟨db, (s.tree.withInner inner).retainPending height⟩ := by
  unfold reloadFromDbToHeight
  rw [bind_run, onDb, zoom]
  cases hreplay : replayTo height s.db with
  | error e db => exact Or.inl ⟨e, db, rfl⟩
  | ok inner db => exact Or.inr ⟨inner, db, rfl, rfl⟩

namespace AccountModelTree

/-! ### Room in the queue -/

def queuedHeights (t : AccountModelTree) : Finset UInt64 := t.pendingBlocks.keys.toFinset

/-- The queued blocks that are further ahead than a new block may be when `next` is expected. -/
def farAbove (t : AccountModelTree) (next : ℕ) : ℕ :=
  (t.queuedHeights.filter fun h => next+maxPendingBlockDistance.toNat < h.toNat).card

/-- So many of them leave room for every height that may be queued. -/
def maxFarAbove : ℕ := maxPendingBlocks-(maxPendingBlockDistance.toNat+1)-1

/-- Everything queued is above the tip, and a block close enough to the tip is queued. -/
structure NotWedged (t : AccountModelTree) : Prop where
  above : ∀ h ∈ t.pendingBlocks, t.latestBlockHeight < h
  queues : ∀ block : Block, t.inner.expectedNextHeight < block.metadata.index →
    saturatingSub block.metadata.index t.inner.expectedNextHeight ≤ maxPendingBlockDistance →
    t.feed block = t.queue block

/-- The invariant behind it: what is out of reach leaves room for what is in reach. -/
structure Roomy (t : AccountModelTree) : Prop where
  above : ∀ h ∈ t.pendingBlocks, t.latestBlockHeight < h
  far : t.farAbove t.inner.expectedNextHeight.toNat ≤ maxFarAbove

section
variable {t t' : AccountModelTree} {block : Block}

theorem mem_queuedHeights {h : UInt64} : h ∈ t.queuedHeights ↔ h ∈ t.pendingBlocks := by
  rw [queuedHeights, List.mem_toFinset, ExtTreeMap.mem_keys]

theorem card_queuedHeights : t.queuedHeights.card = t.pendingBlocks.size := by
  rw [queuedHeights, List.toFinset_card_of_nodup ExtTreeMap.nodup_keys, ExtTreeMap.length_keys]

theorem expectedNextHeight_toNat : t.inner.expectedNextHeight.toNat ≤ t.latestBlockHeight.toNat+1 ∧
    t.latestBlockHeight ≤ t.inner.expectedNextHeight := by
  unfold InnerTree.expectedNextHeight latestBlockHeight
  split
  · rw [UInt64.le_iff_toNat_le, saturatingAdd_toNat]
    have hlt := t.inner.tipHeight.toNat_lt
    change min (_+1) _ ≤ _ ∧ _ ≤ min (_+1) _
    omega
  · exact ⟨Nat.zero_le _, UInt64.le_refl _⟩

theorem farAbove_mono {next next' : ℕ} (hsub : ∀ h ∈ t'.pendingBlocks, h ∈ t.pendingBlocks)
    (hnext : next ≤ next') : t'.farAbove next' ≤ t.farAbove next := by
  apply Finset.card_le_card
  intro h hh
  obtain ⟨hqueued, hfar⟩ := Finset.mem_filter.mp hh
  refine Finset.mem_filter.mpr ⟨mem_queuedHeights.mpr (hsub h (mem_queuedHeights.mp hqueued)), ?_⟩
  omega

theorem Roomy.next_le (h : Roomy t) {height : UInt64} (hmem : height ∈ t.pendingBlocks) :
    t.inner.expectedNextHeight ≤ height := by
  have habove := UInt64.lt_iff_toNat_lt.mp (h.above height hmem)
  have hnext := (expectedNextHeight_toNat (t := t)).1
  rw [UInt64.le_iff_toNat_le]
  omega

/-- The heights in reach, the expected one included, and the ones out of reach. -/
theorem Roomy.size_lt (h : Roomy t) : t.pendingBlocks.size < maxPendingBlocks := by
  set next := t.inner.expectedNextHeight.toNat with hnext
  have hnear : (t.queuedHeights.filter fun height =>
      ¬next+maxPendingBlockDistance.toNat < height.toNat).card ≤
        maxPendingBlockDistance.toNat+1 := by
    have hcard : (Finset.Icc next (next+maxPendingBlockDistance.toNat)).card =
        maxPendingBlockDistance.toNat+1 := by
      rw [Nat.card_Icc]
      omega
    rw [← hcard]
    apply Finset.card_le_card_of_injOn UInt64.toNat
    · intro height hheight
      obtain ⟨hqueued, hreach⟩ := Finset.mem_filter.mp hheight
      have hle := UInt64.le_iff_toNat_le.mp (h.next_le (mem_queuedHeights.mp hqueued))
      exact Finset.mem_coe.mpr (Finset.mem_Icc.mpr ⟨hle, Nat.not_lt.mp hreach⟩)
    · exact fun _ _ _ _ heq => UInt64.toNat_inj.mp heq
  have hsplit := Finset.card_filter_add_card_filter_not (s := t.queuedHeights)
    (fun height => next+maxPendingBlockDistance.toNat < height.toNat)
  have hfar : (t.queuedHeights.filter fun height =>
      next+maxPendingBlockDistance.toNat < height.toNat).card ≤ maxFarAbove := h.far
  have hlimit : maxFarAbove+(maxPendingBlockDistance.toNat+1) < maxPendingBlocks := by decide
  rw [card_queuedHeights] at hsplit
  omega

theorem Roomy.notWedged (h : Roomy t) : NotWedged t where
  above := h.above
  queues block hearly hreach := by
    rw [feed_early hearly, if_neg]
    rintro (hfar | hfull)
    · exact UInt64.not_lt.mpr hreach hfar
    · exact absurd h.size_lt (Nat.not_lt.mpr hfull)

theorem roomy_empty (hempty : t.pendingBlocks = ∅) : Roomy t where
  above height hmem := by
    rw [hempty] at hmem
    exact absurd hmem ExtTreeMap.not_mem_empty
  far := by
    have hnone : t.queuedHeights = ∅ := by
      rw [queuedHeights, hempty]
      rfl
    rw [farAbove, hnone, Finset.filter_empty]
    exact Nat.zero_le _

/-! ### Adding blocks -/

theorem Roomy.unqueue (h : Roomy t) (height : UInt64) : Roomy (t.unqueue height) where
  above height' hmem := h.above height' (ExtTreeMap.mem_of_mem_erase hmem)
  far := (farAbove_mono (fun _ hmem => ExtTreeMap.mem_of_mem_erase hmem) (Nat.le_refl _)).trans h.far

/-- A tree whose tip moves to the expected height, where nothing is queued. -/
theorem Roomy.advance (h : Roomy t) {inner : InnerTree} (htip : inner.hasTip = true)
    (hheight : inner.tipHeight = t.inner.expectedNextHeight)
    (hfree : t.inner.expectedNextHeight ∉ t.pendingBlocks) : Roomy (t.withInner inner) := by
  have hlatest : (t.withInner inner).latestBlockHeight = t.inner.expectedNextHeight := by
    unfold latestBlockHeight
    exact (if_pos htip).trans hheight
  constructor
  · intro height hmem
    rw [hlatest]
    have hne : t.inner.expectedNextHeight ≠ height := fun heq => hfree (heq ▸ hmem)
    exact UInt64.lt_of_le_of_ne (h.next_le hmem) hne
  · refine (farAbove_mono (fun _ hmem => hmem) ?_).trans h.far
    have hle := (expectedNextHeight_toNat (t := t.withInner inner)).2
    rw [hlatest] at hle
    exact UInt64.le_iff_toNat_le.mp hle

theorem Roomy.acceptNext (h : Roomy t)
    (hfree : validateNextBlockLink t.inner block = .ok () → block.metadata.index ∉ t.pendingBlocks) :
    Roomy (t.acceptNext block).2 := by
  unfold AccountModelTree.acceptNext
  cases hlink : validateNextBlockLink t.inner block with
  | error e => exact h
  | ok u =>
    have hheight := ((validateNextBlockLink_eq_ok_iff _ _ _).mp hlink).1
    exact h.advance rfl hheight (hheight ▸ hfree hlink)

theorem Roomy.processPendingBlocks (fuel : ℕ) (h : Roomy t) :
    Roomy (t.processPendingBlocks fuel) := by
  induction fuel generalizing t with
  | zero => exact h
  | succ fuel ih =>
    rw [AccountModelTree.processPendingBlocks]
    split
    · exact h
    · rename_i block hblock
      have hindex : block.metadata.index = t.inner.expectedNextHeight := t.pending_keyed _ _ hblock
      have hfree : block.metadata.index ∉
          (t.unqueue t.inner.expectedNextHeight).pendingBlocks := by
        intro hmem
        rw [hindex] at hmem
        exact (ExtTreeMap.mem_erase.mp hmem).1 ReflCmp.compare_self
      have haccept := (h.unqueue t.inner.expectedNextHeight).acceptNext fun _ => hfree
      split
      · rename_i heq
        rw [heq] at haccept
        exact haccept
      · rename_i heq
        rw [heq] at haccept
        exact ih (ih haccept)

theorem Roomy.queue (h : Roomy t) (hearly : t.inner.expectedNextHeight < block.metadata.index)
    (hreach : saturatingSub block.metadata.index t.inner.expectedNextHeight ≤
      maxPendingBlockDistance) : Roomy (t.queue block) where
  above height hmem := by
    rcases ExtTreeMap.mem_insert.mp hmem with heq | hmem
    · rw [← Std.compare_eq_iff_eq.mp heq]
      exact UInt64.lt_of_le_of_lt expectedNextHeight_toNat.2 hearly
    · exact h.above height hmem
  far := by
    refine (Finset.card_le_card ?_).trans h.far
    intro height hheight
    obtain ⟨hqueued, hfar⟩ := Finset.mem_filter.mp hheight
    refine Finset.mem_filter.mpr ⟨mem_queuedHeights.mpr ?_, hfar⟩
    rcases ExtTreeMap.mem_insert.mp (mem_queuedHeights.mp hqueued) with heq | hmem
    · rw [← Std.compare_eq_iff_eq.mp heq] at hfar
      have hle := UInt64.le_iff_toNat_le.mp hreach
      rw [saturatingSub_toNat] at hle
      change t.inner.expectedNextHeight.toNat+_ < _ at hfar
      omega
    · exact hmem

theorem Roomy.feed (h : Roomy t)
    (hfree : validateNextBlockLink t.inner block = .ok () → block.metadata.index ∉ t.pendingBlocks) :
    Roomy (t.feed block) := by
  have haccept := h.acceptNext hfree
  unfold AccountModelTree.feed addBlock
  dsimp only
  split
  · split
    · rename_i heq
      rw [heq] at haccept
      exact haccept
    · rename_i heq
      rw [heq] at haccept
      exact haccept.processPendingBlocks _
  · split
    · rename_i hearly
      split
      · exact h
      · rename_i hreach
        split
        · exact h
        · exact h.queue hearly (UInt64.not_lt.mp hreach)
    · exact h

/-- A tree that was rebuilt up to a height, with the queue cut there. -/
theorem roomy_retain {height : UInt64} {inner : InnerTree} (htip : inner.hasTip = true)
    (hheight : inner.tipHeight = height) (hfar : t.farAbove (height.toNat+1) ≤ maxFarAbove) :
    Roomy ((t.withInner inner).retainPending height) := by
  have hlatest : ((t.withInner inner).retainPending height).latestBlockHeight = height := by
    unfold latestBlockHeight
    exact (if_pos htip).trans hheight
  constructor
  · intro height' hmem
    rw [hlatest]
    obtain ⟨hkept, hlt⟩ := ExtTreeMap.mem_filter.mp hmem
    rw [ExtTreeMap.getKey_eq] at hlt
    exact of_decide_eq_true hlt
  · refine Nat.le_trans ?_ hfar
    apply Finset.card_le_card
    intro height' hheight'
    obtain ⟨hqueued, hreach⟩ := Finset.mem_filter.mp hheight'
    refine Finset.mem_filter.mpr ⟨mem_queuedHeights.mpr ?_, ?_⟩
    · exact ExtTreeMap.mem_of_mem_filter (mem_queuedHeights.mp hqueued)
    · -- the next height is one above, but for the last height of all, and nothing is above that
      change inner.expectedNextHeight.toNat+_ < _ at hreach
      rw [InnerTree.expectedNextHeight, if_pos htip, hheight, saturatingAdd_toNat] at hreach
      have hlt := height'.toNat_lt
      change min (_+1) _+_ < _ at hreach
      change height.toNat+1+_ < _
      omega

theorem Roomy.retainPending (h : Roomy t) (height : UInt64) : Roomy (t.retainPending height) where
  above height' hmem := h.above height' (ExtTreeMap.mem_of_mem_filter hmem)
  far := (farAbove_mono (fun _ hmem => ExtTreeMap.mem_of_mem_filter hmem) (Nat.le_refl _)).trans h.far

end
end AccountModelTree

namespace TreeCall
open AccountModelTree

/-- What a call must find for the queue to stay open. A block that becomes the tip is not queued
itself, and a tree that goes back to a height keeps few blocks that are out of reach from there. -/
def KeepsQueue [Blake3] (s : ChainState) : TreeCall → Prop
  | .addBlock block => validateNextBlockLink s.tree.inner block = .ok () →
    block.metadata.index ∉ s.tree.pendingBlocks
  | .applyBlock block => ∀ batch next outcome,
    Planned s.db s.tree.inner block batch next outcome →
      block.metadata.index ∉ s.tree.pendingBlocks
  | .reloadFromDbToHeight height => ∀ inner db, replayTo height s.db = .ok inner db →
    s.tree.farAbove (height.toNat+1) ≤ maxFarAbove
  | .rollbackTo ancestor => ∀ height inner db, rollbackHeight ancestor s = .ok height →
    replayTo height s.db = .ok inner db → s.tree.farAbove (height.toNat+1) ≤ maxFarAbove
  | .store _ => True

theorem roomy_after [Blake3] {s : ChainState} (h : Roomy s.tree) (call : TreeCall)
    (hkeeps : call.KeepsQueue s) : Roomy (call.after s).tree := by
  cases call with
  | addBlock block => exact h.feed hkeeps
  | applyBlock block =>
    change Roomy (storeOf (Remzar.applyBlock block s)).tree
    have hout := applyBlock_outcome block s
    generalize Remzar.applyBlock block s = out at hout ⊢
    cases hout with
    | refused e s' htree =>
      change Roomy s'.tree
      exact htree ▸ h
    | known _ => exact h
    | executed batch next outcome s' hplan hrun =>
      have hheight := validateNextBlockLink_height hplan.link
      have hmoves := (dryRun_applied hplan.dryRun).moves.tip
      change Roomy s'.tree
      rw [executePlan_ok hrun]
      exact h.advance hmoves.1 (hmoves.2.trans hheight) (hheight ▸ hkeeps _ _ _ hplan)
  | reloadFromDbToHeight height =>
    change Roomy (storeOf (Remzar.reloadFromDbToHeight height s)).tree
    rcases reload_cases height s with ⟨e, db, heq⟩ | ⟨inner, db, hreplay, heq⟩
    · rw [heq]
      exact h
    · rw [heq]
      obtain ⟨htip, hheight⟩ := replayTo_tip hreplay
      exact roomy_retain htip hheight (hkeeps inner db hreplay)
  | rollbackTo ancestor =>
    change Roomy (storeOf (Remzar.rollbackTo ancestor s)).tree
    rw [rollbackTo_eq]
    cases hheight : rollbackHeight ancestor s with
    | error e => exact h
    | ok height =>
      dsimp only
      rcases reload_cases height s with ⟨e, db, heq⟩ | ⟨inner, db, hreplay, heq⟩
      · rw [heq]
        exact h
      · rw [heq]
        obtain ⟨htip, hinner⟩ := replayTo_tip hreplay
        exact (roomy_retain htip hinner (hkeeps height inner db hheight hreplay)).retainPending height
  | store db => exact h

end TreeCall

/-- From an empty queue on, if every call leaves the queue open, everything queued is above the tip
and every block that is close enough to the tip is queued. -/
theorem pending_queue_open [Blake3] (start : ChainState) (hempty : start.tree.pendingBlocks = ∅)
    (calls : List TreeCall) (hkeeps : Runs.Steps TreeCall.after (fun s call => call.KeepsQueue s) start calls)
    (pre : List TreeCall) (hpre : pre <+: calls) :
    (pre.foldl TreeCall.after start).tree.NotWedged := by
  have hstep : ∀ (s : ChainState) call, s.tree.Roomy → call.KeepsQueue s →
      (TreeCall.after s call).tree.Roomy :=
    fun s call h hcall => TreeCall.roomy_after h call hcall
  exact (hkeeps.invariant hstep (AccountModelTree.roomy_empty hempty) hpre).notWedged

namespace Sample

/-- A block of height one arrives before the first block; then both are applied from the store. -/
def earlyArrival : List TreeCall := [.addBlock block1, .applyBlock block0, .applyBlock block1]

/-- What the two blocks leave behind once they are known to be valid. -/
def leavesQueued [Blake3] (s : ChainState) : Bool :=
  match applyValid block0 s with
  | .ok _ s =>
    match applyValid block1 s with
    | .ok _ s => decide (s.tree.latestBlockHeight = 1) && s.tree.pendingBlocks.contains 1
    | .error _ _ => false
  | .error _ _ => false

theorem wedged_of_leavesQueued [Blake3] {s : ChainState} (hvalid0 : block0.validate = .ok ())
    (hvalid1 : block1.validate = .ok ())
    (h : leavesQueued { s with tree := s.tree.feed block1 } = true) :
    ¬(earlyArrival.foldl TreeCall.after s).tree.NotWedged := by
  rw [earlyArrival, List.foldl_cons, List.foldl_cons, List.foldl_cons, List.foldl_nil,
    TreeCall.after_addBlock, TreeCall.after_applyBlock, TreeCall.after_applyBlock]
  generalize ({ s with tree := s.tree.feed block1 } : ChainState) = s₀ at h ⊢
  rw [applyBlock_of_valid hvalid0, applyBlock_of_valid hvalid1]
  unfold leavesQueued at h
  cases h₁ : applyValid block0 s₀ with
  | error e s₁ =>
    rw [h₁] at h
    cases h
  | ok u s₁ =>
    rw [h₁] at h
    change (match applyValid block1 s₁ with | .ok _ s => _ | .error _ _ => false) = true at h
    change ¬(storeOf (applyValid block1 s₁)).tree.NotWedged
    cases h₂ : applyValid block1 s₁ with
    | error e s₂ =>
      rw [h₂] at h
      cases h
    | ok u s₂ =>
      rw [h₂] at h
      obtain ⟨hheight, hqueued⟩ := (Bool.and_eq_true _ _).mp h
      intro hopen
      have habove := hopen.above 1 (ExtTreeMap.contains_iff_mem.mp hqueued)
      change s₂.tree.latestBlockHeight < 1 at habove
      rw [of_decide_eq_true hheight] at habove
      exact absurd habove (by decide)

theorem leavesQueued_earlyArrival :
    @leavesQueued Blake3.reference { start with tree := start.tree.feed block1 } = true := by
  decide +kernel

end Sample

theorem pending_queue_open_earlyArrival :
    ((Sample.earlyArrival.take 2).foldl (@TreeCall.after Blake3.reference) Sample.start).tree.NotWedged := by
  refine @pending_queue_open Blake3.reference Sample.start rfl (Sample.earlyArrival.take 2) ?_ _
    (List.prefix_refl _)
  refine ⟨fun _ => ExtTreeMap.not_mem_empty, fun _ _ _ _ => ?_, trivial⟩
  change (0 : UInt64) ∉ (AccountModelTree.withManager.feed Sample.block1).pendingBlocks
  decide +kernel

/-- `apply_block` leaves the queued block of the height it has just reached. -/
theorem pending_queue_stale : Sample.start.tree.pendingBlocks = ∅ ∧
    ¬(Sample.earlyArrival.foldl (@TreeCall.after Blake3.reference) Sample.start).tree.NotWedged := by
  refine ⟨rfl, ?_⟩
  exact @Sample.wedged_of_leavesQueued Blake3.reference Sample.start Sample.signed_block0.valid
    Sample.signed_block1.valid Sample.leavesQueued_earlyArrival

end Remzar
