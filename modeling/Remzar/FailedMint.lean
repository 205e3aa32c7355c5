import Mathlib
import Remzar.Recovery

/-! What is left of a mint whose block was built and then could not be executed. -/
namespace Remzar
open Std Fallible Effects Checked

namespace OrchestrationEngine

/-- Nothing about height `h` has changed, and the mint of that height can be tried again. -/
structure Untouched (s s' : ChainState) (h : UInt64) : Prop where
  tipHeight : s'.db.readHeight "tip_height" = s.db.readHeight "tip_height"
  latestBlockIndex : s'.db.readHeight "latest_block_index" = s.db.readHeight "latest_block_index"
  block : s'.db.read .blockmintData (RockDB.blockKey h) =
    s.db.read .blockmintData (RockDB.blockKey h)
  batch : s'.db.read .transactionBatch (batchKey h) = s.db.read .transactionBatch (batchKey h)
  hashIndex : s'.db.column .blockToHash = s.db.column .blockToHash
  mempool : s'.db.column .transaction = s.db.column .transaction
  mempoolHashes : s'.db.column .txToHash = s.db.column .txToHash
  nfts : s'.db.nfts = s.db.nfts
  tree : s'.tree = s.tree

section
variable [Blake3]

/-- Execution writes NFT records and the snapshot, but no column. -/
theorem executeMinted_columns (block : Block) (column : ColumnName → Column) :
    Preserves (fun s : ChainState => s.db.column = column) (executeMinted block) := by
  have hadd : Preserves (fun s : ChainState => s.db.column = column) (addBlockTo block) := by
    intro s hs
    unfold addBlockTo
    split <;> exact hs
  have hbatch : ∀ bytes, Preserves (fun s : ChainState => s.db.column = column)
      (applyMintedBatch block bytes) := by
    intro bytes
    refine preserves_bind (preserves_lift _) fun batch => ?_
    refine preserves_bind (preserves_lift _) fun _ => ?_
    refine preserves_bind hadd fun _ => ?_
    refine preserves_bind ?_ fun _ => ?_
    · refine preserves_update fun s s' hs h => ?_
      simp only [bind_eq_ok_iff, pure_eq_ok_iff] at h
      obtain ⟨tree, -, rfl⟩ := h
      exact hs
    · exact preserves_onDb (P := fun db => db.column = column) (preserves_forM _ fun kind _ => applyNftInOrder_columns _ kind _)
  have hcommit : ∀ inner, Preserves (fun s : ChainState => s.db.column = column)
      (onDb (update (commitInnerState inner))) := by
    intro inner
    refine preserves_onDb (P := fun db => db.column = column) ?_
    refine preserves_update fun db db' hdb h => ?_
    simp only [commitInnerState, bind_eq_ok_iff, pure_eq_ok_iff] at h
    obtain ⟨-, -, -, -, -, -, rfl⟩ := h
    exact hdb
  refine preserves_bind (fun s hs => hs) fun s => ?_
  dsimp only
  split
  · refine preserves_bind (hbatch _) fun _ => ?_
    refine preserves_bind (fun s hs => hs) fun s => ?_
    exact preserves_bind (hcommit _) fun _ => preserves_pure _
  · refine preserves_bind hadd fun _ => ?_
    refine preserves_bind (fun s hs => hs) fun s => ?_
    exact preserves_bind (hcommit _) fun _ => preserves_pure _

theorem rollbackTo_columns (ancestor : Hash) (column : ColumnName → Column) :
    Preserves (fun s : ChainState => s.db.column = column) (rollbackTo ancestor) := by
  have hreload : ∀ height, Preserves (fun s : ChainState => s.db.column = column)
      (reloadFromDbToHeight height) := by
    intro height s hs
    exact (reloadFromDbToHeight_columns height s).trans hs
  refine preserves_bind (fun s hs => hs) fun s => ?_
  dsimp only
  split
  · refine preserves_bind (preserves_pure _) fun height => ?_
    refine preserves_bind (preserves_lift _) fun height => ?_
    exact preserves_bind (preserves_mapError (hreload height)) fun _ => fun s hs => hs
  · refine preserves_bind (preserves_lift _) fun height => ?_
    refine preserves_bind (preserves_lift _) fun height => ?_
    exact preserves_bind (preserves_mapError (hreload height)) fun _ => fun s hs => hs

theorem undoMint_columns (ancestor : Option Hash) (s : ChainState) :
    (undoMint ancestor s).db.column = s.db.column := by
  cases ancestor with
  | some hash => exact rollbackTo_columns hash s.db.column s rfl
  | none => exact reloadFromDbToHeight_columns _ s

/-- The block of a failed mint was not stored before and is stored afterwards. -/
theorem failed_mint_stored {cfg : ReForkConfig} {clock : Int64} {builder : BlockchainBuilder}
    {isSynced : Bool} {s s' : ManagedChain} {block : Block} {e : ErrorDetection}
    (h : mintAttempt cfg clock builder isSynced s = (.failed block e, s')) :
    s.chain.db.read .blockmintData (RockDB.blockKey block.metadata.index) = none ∧
      (s'.chain.db.read .blockmintData (RockDB.blockKey block.metadata.index)).isSome := by
  unfold mintAttempt at h
  cases hmint : builder.createNewBlock isSynced s.chain.db with
  | error e db =>
    rw [hmint] at h
    cases h
  | ok built db =>
    rw [hmint] at h
    dsimp only at h
    cases hexec : executeMinted built { s.chain with db := db } with
    | ok bytes chain =>
      rw [hexec] at h
      cases h
    | error e' chain =>
      rw [hexec] at h
      obtain ⟨houtcome, rfl⟩ := Prod.mk.inj h
      obtain ⟨rfl, rfl⟩ := MintOutcome.failed.inj houtcome
      obtain ⟨p, c, hp, hc, hpersist, hblock⟩ := createNewBlock_ok_iff.mp hmint
      obtain ⟨-, hfree, -⟩ := persist_ok_iff.mp hpersist
      have hbuilt := Built.of_plan hp hc
      have hheight : built.metadata.index = p.parent.index := hblock ▸ hbuilt.height
      refine ⟨hheight.symm ▸ hfree, ?_⟩
      have hkept := executeMinted_columns built db.column { s.chain with db := db } rfl
      rw [hexec] at hkept
      change chain.db.column = db.column at hkept
      rw [RockDB.read, undoMint_columns, hkept, hheight]
      exact persist_stored hbuilt hpersist

/-- No failed mint is without a trace: the block stays stored under its height, where no later
mint or canonical block can go. -/
theorem failed_mint_leaves_trace (cfg : ReForkConfig) (clock : Int64) (builder : BlockchainBuilder)
    (isSynced : Bool) (s s' : ManagedChain) (block : Block) (e : ErrorDetection)
    (h : mintAttempt cfg clock builder isSynced s = (.failed block e, s')) :
    ¬Untouched s.chain s'.chain block.metadata.index := by
  intro huntouched
  obtain ⟨hbefore, hafter⟩ := failed_mint_stored h
  rw [huntouched.block, hbefore] at hafter
  cases hafter

end
end OrchestrationEngine

namespace Sample
open OrchestrationEngine

/-- A node at genesis with a payment pending that its sender cannot cover. -/
def broke [Blake3] : ManagedChain :=
  ⟨{ reloadFromDb ⟨genesisDb, AccountModelTree.withManager⟩ with db := pendingDb 1 }, none⟩

/-- Does the mint fail after its block was built? -/
def mintFails [Blake3] (s : ManagedChain) : Bool :=
  match (mintAttempt .mainnetDefault 1700000030 builder true s).1 with
  | .failed _ _ => true
  | _ => false

theorem mintFails_broke : @mintFails Blake3.reference (@broke Blake3.reference) = true := by
  rw [← cached_candidates]
  decide +kernel

theorem failed_of_mintFails [Blake3] {s : ManagedChain} (h : mintFails s = true) :
    ∃ block e s', mintAttempt .mainnetDefault 1700000030 builder true s = (.failed block e, s') := by
  unfold mintFails at h
  cases hmint : mintAttempt .mainnetDefault 1700000030 builder true s with
  | mk outcome s' =>
    rw [hmint] at h
    cases outcome with
    | failed block e => exact ⟨block, e, s', rfl⟩
    | notBuilt e => cases h
    | minted block => cases h

end Sample

section
open OrchestrationEngine

theorem failed_mint_leaves_trace_broke :
    ∃ (block : Block) (e : ErrorDetection) (s' : ManagedChain),
      @mintAttempt Blake3.reference .mainnetDefault 1700000030 Sample.builder true
        (@Sample.broke Blake3.reference) = (.failed block e, s') ∧
      ¬Untouched (@Sample.broke Blake3.reference).chain s'.chain block.metadata.index := by
  obtain ⟨block, e, s', hfailed⟩ :=
    @Sample.failed_of_mintFails Blake3.reference _ Sample.mintFails_broke
  exact ⟨block, e, s', hfailed,
    @failed_mint_leaves_trace Blake3.reference _ _ _ _ _ s' block e hfailed⟩

/-- A payment without funds: the block of height 1 is built, stored, and cannot be executed. -/
theorem unfunded_mint_leaves_block :
    ∃ (block : Block) (e : ErrorDetection) (s' : ManagedChain),
      @mintAttempt Blake3.reference .mainnetDefault 1700000030 Sample.builder true
        (@Sample.broke Blake3.reference) = (.failed block e, s') ∧
      s'.chain.db.read .blockmintData (RockDB.blockKey block.metadata.index) ≠
        (@Sample.broke Blake3.reference).chain.db.read .blockmintData
          (RockDB.blockKey block.metadata.index) := by
  obtain ⟨block, e, s', hfailed⟩ :=
    @Sample.failed_of_mintFails Blake3.reference _ Sample.mintFails_broke
  obtain ⟨hbefore, hafter⟩ := @failed_mint_stored Blake3.reference _ _ _ _ _ _ _ _ hfailed
  refine ⟨block, e, s', hfailed, ?_⟩
  intro heq
  rw [heq, hbefore] at hafter
  cases hafter

end

end Remzar
