import Mathlib
import Remzar.TreeSpec

/-! Conservation of the supply over every run of `apply_block`. -/
namespace Remzar
open Std Fallible Effects Ledger AccountGuard

/-- A call of `apply_block`, after whatever the rest of the node did to the database. -/
structure Call where
  environment : RockDB → RockDB
  block : Block

def Call.before (c : Call) (s : ChainState) : ChainState := { s with db := c.environment s.db }

def Call.result [Blake3] (c : Call) (s : ChainState) : EStateM.Result Failure ChainState Unit :=
  applyBlock c.block (c.before s)

def callStep [Blake3] (s : ChainState) (c : Call) : ChainState := storeOf (c.result s)

/-- The state after a list of calls on a node that started with an empty tree. -/
def runCalls [Blake3] (db : RockDB) (calls : List Call) : ChainState :=
  calls.foldl callStep ⟨db, AccountModelTree.withManager⟩

/-- The call succeeded on a block above the tip, and `batch` is what the database holds
under the key in that block. -/
def NewlyApplied [Blake3] (c : Call) (s : ChainState) (batch : TransactionBatch) : Prop :=
  succeeded (c.result s) ∧
  ¬(s.tree.inner.hasTip ∧ c.block.metadata.index ≤ s.tree.inner.tipHeight) ∧
  storedBatch (c.environment s.db) c.block = some batch

instance [Blake3] (c : Call) (s : ChainState) (batch : TransactionBatch) :
    Decidable (NewlyApplied c s batch) := inferInstanceAs (Decidable (_ ∧ _ ∧ _))

theorem SupplyInvariant.remember {s : InnerTree} (hs : SupplyInvariant s) (block : Block) :
    SupplyInvariant (rememberRecentBlockForGuard s block) := ⟨hs.sum, hs.rewards, hs.cap⟩

theorem SupplyInvariant.planned [Blake3] {db : RockDB} {s next : InnerTree} {block : Block}
    {batch : TransactionBatch} {outcome : BatchApplyOutcome} (hs : SupplyInvariant s)
    (h : Planned db s block batch next outcome) : SupplyInvariant next := by
  have happlied := dryRun_applied h.dryRun
  exact (hs.remember block).of_moves happlied.moves happlied.invariants

theorem callStep_supply [Blake3] (s : ChainState) (c : Call) (hs : SupplyInvariant s.tree.inner) :
    SupplyInvariant (callStep s c).tree.inner := by
  have hbefore : SupplyInvariant (c.before s).tree.inner := hs
  unfold callStep
  cases h : c.result s with
  | error e s' =>
    have hout := applyBlock_outcome c.block (c.before s)
    rw [← Call.result, h] at hout
    cases hout with
    | refused _ _ htree => exact htree ▸ hbefore
  | ok u s' =>
    have hout := applyBlock_outcome c.block (c.before s)
    rw [← Call.result, h] at hout
    cases hout with
    | known _ => exact hbefore
    | executed batch next outcome _ hplan hrun =>
      change SupplyInvariant s'.tree.inner
      rw [executePlan_ok hrun]
      exact hbefore.planned hplan

theorem runCalls_supply [Blake3] (db : RockDB) (calls : List Call) :
    SupplyInvariant (runCalls db calls).tree.inner := by
  unfold runCalls
  refine List.foldlRecOn calls callStep (motive := fun s => SupplyInvariant s.tree.inner) ?_ ?_
  · exact SupplyInvariant.empty
  · intro s hs c _
    exact callStep_supply s c hs

/-- What a call adds to the issued total: the reward of a newly applied batch, else nothing. -/
theorem callStep_issued [Blake3] (s : ChainState) (c : Call) :
    (∃ batch, NewlyApplied c s batch ∧ batch.transactions.countP TxKind.isReward ≤ 1 ∧
      (callStep s c).tree.inner.totalIssuedMicro.toNat =
        s.tree.inner.totalIssuedMicro.toNat + batch.rewardAmount) ∨
    ((∀ batch, ¬NewlyApplied c s batch) ∧
      (callStep s c).tree.inner.totalIssuedMicro = s.tree.inner.totalIssuedMicro) := by
  have hout := applyBlock_outcome c.block (c.before s)
  rw [← Call.result] at hout
  unfold callStep NewlyApplied
  cases h : c.result s with
  | error e s' =>
    rw [h] at hout
    refine .inr ⟨fun batch hnew => Bool.false_ne_true hnew.1, ?_⟩
    cases hout with
    | refused _ _ htree =>
      change s'.tree.inner.totalIssuedMicro = _
      rw [htree]
      rfl
  | ok u s' =>
    rw [h] at hout
    cases hout with
    | known hold =>
      exact .inr ⟨fun batch hnew => hnew.2.1 hold, rfl⟩
    | executed batch next outcome _ hplan hrun =>
      have happlied := dryRun_applied hplan.dryRun
      refine .inl ⟨batch, ⟨rfl, hplan.fresh, hplan.stored⟩,
        validateBatchStructure_rewardCount batch happlied.structural, ?_⟩
      change s'.tree.inner.totalIssuedMicro.toNat = _
      rw [executePlan_ok hrun]
      exact happlied.moves.issued

/-- After every call of every run the balances add up to the issued total, which is all
rewards and within the cap; it grew by the one reward of a newly applied batch and by
nothing otherwise. -/
theorem supply_conserved [Blake3] (db : RockDB) (calls : List Call) (c : Call) :
    let s := runCalls db calls
    let s' := callStep s c
    SupplyInvariant s'.tree.inner ∧
    ((∃ batch, NewlyApplied c s batch ∧ batch.transactions.countP TxKind.isReward ≤ 1 ∧
      s'.tree.inner.totalIssuedMicro.toNat =
        s.tree.inner.totalIssuedMicro.toNat + batch.rewardAmount) ∨
    ((∀ batch, ¬NewlyApplied c s batch) ∧
      s'.tree.inner.totalIssuedMicro = s.tree.inner.totalIssuedMicro)) ∧
    (∀ (kind : TxKind) (acc acc' : InnerTree × Touched), kind.isReward = false →
      applyTxkindToState acc kind = .ok acc' →
      total acc'.1.balances = total acc.1.balances) := by
  intro s s'
  refine ⟨callStep_supply s c (runCalls_supply db calls), callStep_issued s c, ?_⟩
  intro kind acc acc' hkind h
  have hmoves := (applyTxkindToState_moves acc acc' kind h).balances
  cases kind with
  | reward rew => cases hkind
  | transfer tx => exact hmoves
  | registerNode reg => exact hmoves
  | nftMint tx => exact hmoves
  | nftTransfer tx => exact hmoves

end Remzar
