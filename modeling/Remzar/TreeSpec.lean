import Mathlib
import Remzar.GuardSpec
import Remzar.AccountTree

/-! What one call of `apply_block` does to the tree. -/
namespace Remzar
open Std Fallible Effects Checked Ledger AccountGuard

theorem storeOf_onDb_tree {ε α : Type} (x : EStateM ε RockDB α) (s : ChainState) :
    (storeOf (onDb x s)).tree = s.tree := by
  unfold onDb zoom
  cases x s.db <;> rfl

theorem onDb_ok_tree {ε α : Type} {x : EStateM ε RockDB α} {s s' : ChainState} {a : α}
    (h : onDb x s = .ok a s') : s'.tree = s.tree := by
  have hstore := storeOf_onDb_tree x s
  rw [h] at hstore
  exact hstore

/-! ### The plan -/

/-- The batch found through the key in a block, if it is there and decodes. -/
def storedBatch (db : RockDB) (block : Block) : Option TransactionBatch := do
  let key ← block.batchKey
  let bytes ← db.read .transactionBatch (Text.utf8 key)
  (TransactionBatch.deserialize bytes).toOption

theorem storedBatch_eq_some_iff (db : RockDB) (block : Block) (batch : TransactionBatch) :
    storedBatch db block = some batch ↔ ∃ key bytes, block.batchKey = some key ∧
      db.read .transactionBatch (Text.utf8 key) = some bytes ∧
      TransactionBatch.deserialize bytes = .ok batch := by
  simp only [storedBatch, Option.bind_eq_bind, Option.bind_eq_some_iff]
  constructor
  · rintro ⟨key, hkey, bytes, hbytes, hbatch⟩
    refine ⟨key, bytes, hkey, hbytes, ?_⟩
    cases h : TransactionBatch.deserialize bytes with
    | error e =>
      rw [h] at hbatch
      cases hbatch
    | ok b =>
      rw [h] at hbatch
      exact congrArg Except.ok (Option.some.inj hbatch)
  · rintro ⟨key, bytes, hkey, hbytes, hbatch⟩
    refine ⟨key, hkey, bytes, hbytes, ?_⟩
    rw [hbatch]
    rfl

/-- Everything `apply_block` has read and checked before its first write. -/
structure Planned [Blake3] (db : RockDB) (s : InnerTree) (block : Block)
    (batch : TransactionBatch) (next : InnerTree) (outcome : BatchApplyOutcome) : Prop where
  valid : block.validate = .ok ()
  fresh : ¬(s.hasTip ∧ block.metadata.index ≤ s.tipHeight)
  link : validateNextBlockLink s block = .ok ()
  stored : storedBatch db block = some batch
  height : batch.index = block.metadata.index
  dryRun : dryRunBlockAndBatch s block batch = .ok (next, outcome)

-- At or below the tip the check answers true or fails, never false.
theorem checkCanonicalIdempotency_ne_false (s : InnerTree) (block : Block)
    (h : s.hasTip ∧ block.metadata.index ≤ s.tipHeight) :
    checkCanonicalIdempotency s block ≠ .ok false := by
  intro hfalse
  have hnot : ¬s.tipHeight < block.metadata.index := UInt64.not_lt.mpr h.2
  simp only [checkCanonicalIdempotency, h.1, Bool.not_true, Bool.false_eq_true, if_false,
    hnot] at hfalse
  split at hfalse
  · simp only [bind_eq_ok_iff, pure_eq_ok_iff] at hfalse
    simp at hfalse
  · split at hfalse
    · simp only [bind_eq_ok_iff, pure_eq_ok_iff] at hfalse
      simp at hfalse
    · simp at hfalse

theorem alreadyCanonical_false {s : InnerTree} {block : Block}
    (h : alreadyCanonical s block = .ok false) :
    ¬(s.hasTip ∧ block.metadata.index ≤ s.tipHeight) := by
  intro hold
  rw [alreadyCanonical, if_pos hold, mapErr_eq_ok_iff] at h
  exact checkCanonicalIdempotency_ne_false s block hold h

theorem alreadyCanonical_true {s : InnerTree} {block : Block}
    (h : alreadyCanonical s block = .ok true) :
    s.hasTip ∧ block.metadata.index ≤ s.tipHeight := by
  by_contra hfresh
  rw [alreadyCanonical, if_neg hfresh] at h
  cases h

theorem planBlock_none [Blake3] {db : RockDB} {s : InnerTree} {block : Block}
    (h : planBlock db s block = .ok none) : s.hasTip ∧ block.metadata.index ≤ s.tipHeight := by
  simp only [planBlock, bind_eq_ok_iff, mapErr_eq_ok_iff] at h
  obtain ⟨-, -, known, hknown, h⟩ := h
  cases known with
  | true => exact alreadyCanonical_true hknown
  | false =>
    simp only [Bool.false_eq_true, if_false, bind_eq_ok_iff, pure_eq_ok_iff, reduceCtorEq,
      and_false, exists_false] at h

theorem planBlock_some [Blake3] {db : RockDB} {s : InnerTree} {block : Block}
    {batch : TransactionBatch} {next : InnerTree} {outcome : BatchApplyOutcome}
    (h : planBlock db s block = .ok (some (batch, next, outcome))) :
    Planned db s block batch next outcome := by
  simp only [planBlock, bind_eq_ok_iff, mapErr_eq_ok_iff] at h
  obtain ⟨_, hvalid, known, hknown, h⟩ := h
  cases known with
  | true =>
    simp only [if_true, pure_eq_ok_iff] at h
    cases h
  | false =>
    simp only [Bool.false_eq_true, if_false, planNext, bind_eq_ok_iff, mapErr_eq_ok_iff,
      pure_eq_ok_iff, okOr_eq_ok_iff, rejectIf_eq_ok_iff] at h
    obtain ⟨plan, ⟨_, hlink, key, hkey, bytes, hbytes, batch', hbatch, _, hindex,
      ⟨next', outcome'⟩, hdry, rfl⟩, heq⟩ := h
    cases heq
    have hstored := (storedBatch_eq_some_iff db block batch).mpr ⟨key, bytes, hkey, hbytes, hbatch⟩
    exact ⟨hvalid, alreadyCanonical_false hknown, hlink, hstored, not_not.mp hindex, hdry⟩

theorem dryRun_applied [Blake3] {s next : InnerTree} {block : Block} {batch : TransactionBatch}
    {outcome : BatchApplyOutcome} (h : dryRunBlockAndBatch s block batch = .ok (next, outcome)) :
    BatchApplied (rememberRecentBlockForGuard s block) batch
      ⟨.live, block.metadata.index, block.blockHash, tipPreviousHash s block, false⟩
      next outcome := by
  simp only [dryRunBlockAndBatch, bind_eq_ok_iff, pure_eq_ok_iff] at h
  obtain ⟨-, -, -, -, ⟨mid, out⟩, happly, -, -, heq⟩ := h
  cases heq
  exact applyBatchToState_applied _ _ _ _ _ happly

/-! ### The execution -/

theorem executePlan_ok {block : Block} {batch : TransactionBatch} {next : InnerTree}
    {touched : Touched} {s s' : ChainState}
    (h : executePlan block batch next touched s = .ok () s') :
    s'.tree = s.tree.withInner next := by
  simp only [executePlan, run_bind_eq_ok_iff, lift_eq_ok_iff] at h
  obtain ⟨_, s₁, h₁, _, s₂, h₂, _, s₃, h₃, _, s₄, h₄, _, s₅, h₅, _, s₆, h₆, -, rfl⟩ := h
  cases h₄
  cases h₆
  rw [onDb_ok_tree h₅]
  change s₃.tree.withInner next = _
  rw [onDb_ok_tree h₃, onDb_ok_tree h₂, onDb_ok_tree h₁]

/-- The outcomes of a call: refused with the tree put back, skipped as already canonical,
or executed as planned. -/
inductive Outcome [Blake3] (block : Block) (s : ChainState) :
    EStateM.Result Failure ChainState Unit → Prop
  | refused (e : Failure) (s' : ChainState) (htree : s'.tree = s.tree) :
    Outcome block s (.error e s')
  | known (h : s.tree.inner.hasTip ∧ block.metadata.index ≤ s.tree.inner.tipHeight) :
    Outcome block s (.ok () s)
  | executed (batch : TransactionBatch) (next : InnerTree) (outcome : BatchApplyOutcome)
    (s' : ChainState) (hplan : Planned s.db s.tree.inner block batch next outcome)
    (hrun : executePlan block batch next outcome.touchedAccounts s = .ok () s') :
    Outcome block s (.ok () s')

theorem applyBlock_outcome [Blake3] (block : Block) (s : ChainState) :
    Outcome block s (applyBlock block s) := by
  unfold applyBlock
  cases hbody : applyBlockBody block s with
  | error e s' => exact .refused e _ rfl
  | ok u s' =>
    simp only [applyBlockBody, run_bind_eq_ok_iff, lift_eq_ok_iff] at hbody
    obtain ⟨_, _, hget, plan, _, ⟨hplan, rfl⟩, hrun⟩ := hbody
    cases hget
    cases plan with
    | none =>
      cases hrun
      exact .known (planBlock_none hplan)
    | some plan =>
      obtain ⟨batch, next, outcome⟩ := plan
      exact .executed batch next outcome s' (planBlock_some hplan) hrun

/-! ### Adding a block and applying a batch -/

theorem acceptNext_ok {t t' : AccountModelTree} {block : Block}
    (h : t.acceptNext block = (.ok (), t')) :
    validateNextBlockLink t.inner block = .ok () ∧
      t' = t.withInner (rememberRecentBlock t.inner block) ∧
      verifyCompactStateInvariants t'.inner (some t.inner.expectedNextHeight)
        (some t'.inner.tipHash) none = .ok () := by
  unfold AccountModelTree.acceptNext at h
  cases hlink : validateNextBlockLink t.inner block with
  | error e =>
    rw [hlink] at h
    cases h
  | ok u =>
    rw [hlink] at h
    obtain ⟨hinv, rfl⟩ := Prod.mk.inj h
    exact ⟨rfl, rfl, hinv⟩

/-- With nothing queued, a block of the expected height becomes the tip and that is all. -/
theorem addBlock_next {t t' : AccountModelTree} {block : Block}
    (h : t.addBlock block = (.ok (), t'))
    (hindex : block.metadata.index = t.inner.expectedNextHeight) (hqueue : t.pendingBlocks = ∅) :
    t.acceptNext block = (.ok (), t') ∧ t'.pendingBlocks = ∅ := by
  unfold AccountModelTree.addBlock at h
  simp only [if_pos hindex] at h
  rcases haccept : t.acceptNext block with ⟨r, t₁⟩
  rw [haccept] at h
  cases r with
  | error e => cases h
  | ok u =>
    obtain ⟨-, rfl, -⟩ := acceptNext_ok haccept
    have hsize : (t.withInner (rememberRecentBlock t.inner block)).pendingBlocks.size = 0 := by
      change t.pendingBlocks.size = 0
      rw [hqueue]
      rfl
    simp only [hsize, AccountModelTree.processPendingBlocks] at h
    obtain ⟨-, rfl⟩ := Prod.mk.inj h
    exact ⟨rfl, hqueue⟩

/-- Whichever way a batch is applied, it passed the structural rules and the state
invariants, and it ran over the state in order. -/
theorem applyBatch_ok [Blake3] {t t' : AccountModelTree} {batch : TransactionBatch}
    (h : t.applyBatch batch = .ok t') :
    t' = t.withInner t'.inner ∧ validateBatchStructure batch = .ok () ∧
      (∃ touched, batch.transactions.foldlM applyTxkindToState (t.inner, ∅) =
        .ok (t'.inner, touched)) ∧
      verifyStateInvariants t'.inner none = .ok () := by
  unfold AccountModelTree.applyBatch at h
  dsimp only at h
  split at h
  · simp only [bind_eq_ok_iff, pure_eq_ok_iff] at h
    obtain ⟨⟨next, outcome⟩, happly, rfl⟩ := h
    have happlied := applyBatchToState_applied _ _ _ _ _ happly
    exact ⟨rfl, happlied.structural, ⟨_, happlied.run⟩, happlied.invariants⟩
  · simp only [bind_eq_ok_iff, pure_eq_ok_iff] at h
    obtain ⟨_, hstruct, ⟨next, touched⟩, hrun, _, hinv, rfl⟩ := h
    exact ⟨rfl, hstruct, ⟨touched, hrun⟩, hinv⟩

end Remzar
