import Mathlib
import Remzar.Frames

/-! Reorganizations that fail: how far a plan gets before its first error, and what it has
changed by then. -/
namespace Remzar
open Std Fallible Effects Checked

namespace ReFork

/-! ### Plans -/

theorem planReorg_not_noop {cfg : ReForkConfig} {newBlock : Block} {oldHeight : UInt64}
    {oldHash : Hash} {newPath oldPath : BranchPath} {plan : ReorgPlan}
    (h : planReorg cfg newBlock oldHeight oldHash newPath oldPath = .reorg plan) :
    plan.isNoop = false := by
  unfold planReorg at h
  split at h
  · cases h
  · split at h
    · cases h
    · rename_i commonHeight commonHash _
      dsimp only at h
      split at h
      · cases h
      · rename_i hsteps
        split at h
        · cases h
        · obtain rfl := ForkAction.reorg.inj h
          simp only [ReorgPlan.isNoop, Bool.and_eq_false_iff, List.isEmpty_eq_false_iff]
          rcases not_and_or.mp hsteps with hdetach | hattach
          · exact .inl fun hnil => hdetach (by rw [hnil]; rfl)
          · exact .inr fun hnil => hattach (by rw [hnil]; rfl)

/-- Where a plan comes from: the canonical tip, and the complete paths of both tips. -/
theorem onNewBlock_reorg_inv {cfg : ReForkConfig} {newBlock : Block} {db : RockDB}
    {plan : ReorgPlan} (h : onNewBlock cfg newBlock db = .ok (.reorg plan)) :
    ∃ oldHeight oldHash tipBlock newPath oldPath,
      loadCanonicalTipBlock db = .ok (oldHeight, oldHash, tipBlock) ∧
      buildBranchPathFromHash cfg db newBlock.blockHash = .ok (.complete newPath) ∧
      buildBranchPathFromHash cfg db tipBlock.blockHash = .ok (.complete oldPath) ∧
      planReorg cfg newBlock oldHeight oldHash newPath oldPath = .reorg plan := by
  simp only [onNewBlock, bind_eq_ok_iff] at h
  obtain ⟨⟨oldHeight, oldHash, tipBlock⟩, hload, h⟩ := h
  dsimp only at h
  split at h
  · cases h
  · rw [bind_eq_ok_iff] at h
    obtain ⟨current, -, h⟩ := h
    rw [bind_eq_ok_iff] at h
    obtain ⟨candidate, -, h⟩ := h
    split at h
    · cases h
    · rw [bind_eq_ok_iff] at h
      obtain ⟨newBuild, hnew, h⟩ := h
      cases newBuild with
      | missing path hash context => cases h
      | complete newPath =>
        dsimp only at h
        rw [bind_eq_ok_iff] at h
        obtain ⟨oldBuild, hold, h⟩ := h
        cases oldBuild with
        | missing path hash context => cases h
        | complete oldPath =>
          exact ⟨oldHeight, oldHash, tipBlock, newPath, oldPath, hload, hnew, hold,
            (pure_eq_ok_iff _ _).mp h⟩

theorem onNewBlock_not_noop {cfg : ReForkConfig} {newBlock : Block} {db : RockDB} {plan : ReorgPlan}
    (h : onNewBlock cfg newBlock db = .ok (.reorg plan)) : plan.isNoop = false := by
  obtain ⟨oldHeight, oldHash, tipBlock, newPath, oldPath, -, -, -, hplan⟩ := onNewBlock_reorg_inv h
  exact planReorg_not_noop hplan

/-! ### Detaching -/

theorem demote_column (hash : Hash) (db : RockDB) {c : ColumnName} (hc : c ≠ .blockMetaByHash) :
    (demote hash db).column c = db.column c := by
  unfold demote
  split
  · split
    · rename_i db' hmark
      exact RockDB.column_setBlockMetaStatus hmark hc
    · rfl
  · rfl

section
variable [Blake3]

theorem preserveOldBlock_column (oldBlock : Option Block) (db : RockDB) {c : ColumnName}
    (hc : c ≠ .blockToHash) : (preserveOldBlock oldBlock db).column c = db.column c := by
  unfold preserveOldBlock
  cases oldBlock with
  | none => rfl
  | some old =>
    dsimp only
    split
    · rfl
    · split
      · rfl
      · split
        · rename_i db' hindex
          simp only [RockDB.indexBlockByHash, bind_eq_ok_iff, pure_eq_ok_iff] at hindex
          obtain ⟨-, -, canonical, -, rfl⟩ := hindex
          exact RockDB.column_put_of_ne _ _ _ hc
        · rfl

theorem detachStep_column (step : ReorgStep) {c : ColumnName} (hhash : c ≠ .blockToHash)
    (hmeta : c ≠ .blockMetaByHash) (column : Column) :
    Preserves (fun db : RockDB => db.column c = column) (detachStep step) := by
  refine preserves_bind (fun db hdb => hdb) fun db => ?_
  refine preserves_bind (preserves_lift _) fun oldBlock => ?_
  intro db' hdb'
  change (demote step.hash (preserveOldBlock oldBlock db')).column c = column
  rw [demote_column _ _ hmeta, preserveOldBlock_column _ _ hhash]
  exact hdb'

end

/-! ### A slot that is gone -/

/-- Height `k` does not name `hash` any more. -/
def Lost (k : UInt64) (hash : Hash) (db : RockDB) : Prop :=
  db.read .canonicalHeightToHash (RockDB.canonicalHeightKey k) ≠ some hash.toList

theorem canonicalHeightKey_injective {m n : UInt64}
    (h : RockDB.canonicalHeightKey m = RockDB.canonicalHeightKey n) : m = n := by
  rw [← decode_u64Be m, ← decode_u64Be n]
  exact congrArg (fun bytes => UInt64.ofNat (BigEndian.decode bytes)) h

theorem Lost.congr {k : UInt64} {hash : Hash} {db db' : RockDB} (h : Lost k hash db)
    (hc : db'.column .canonicalHeightToHash = db.column .canonicalHeightToHash) : Lost k hash db' := by
  rw [Lost, RockDB.read, hc]
  exact h

theorem mem_heightRange {first last k : UInt64} (hfirst : first ≤ k) (hlast : k ≤ last) :
    k ∈ RockDB.heightRange first last := by
  rw [UInt64.le_iff_toNat_le] at hfirst hlast
  refine List.mem_map.mpr ⟨k.toNat, ?_, UInt64.ofNat_toNat⟩
  rw [List.mem_range'_1]
  omega

/-- Every slot of a deleted range is empty. -/
theorem deleteCanonicalHashRange_read (db : RockDB) {first last k : UInt64} (hfirst : first ≤ k)
    (hlast : k ≤ last) : (db.deleteCanonicalHashRange first last).read .canonicalHeightToHash
      (RockDB.canonicalHeightKey k) = none := by
  have hempty : ∀ (heights : List UInt64) (db : RockDB),
      db.read .canonicalHeightToHash (RockDB.canonicalHeightKey k) = none →
      (heights.foldl (fun db h => db.remove .canonicalHeightToHash (RockDB.canonicalHeightKey h))
        db).read .canonicalHeightToHash (RockDB.canonicalHeightKey k) = none := by
    intro heights
    induction heights with
    | nil => exact fun db h => h
    | cons h heights ih =>
      intro db hdb
      apply ih
      rw [RockDB.read_remove]
      split
      · rfl
      · exact hdb
  have hremoved : ∀ (heights : List UInt64) (db : RockDB), k ∈ heights →
      (heights.foldl (fun db h => db.remove .canonicalHeightToHash (RockDB.canonicalHeightKey h))
        db).read .canonicalHeightToHash (RockDB.canonicalHeightKey k) = none := by
    intro heights
    induction heights with
    | nil =>
      intro db hmem
      cases hmem
    | cons h heights ih =>
      intro db hmem
      rcases List.mem_cons.mp hmem with rfl | hmem
      · rw [List.foldl_cons]
        apply hempty
        rw [RockDB.read_remove, if_pos ⟨rfl, rfl⟩]
      · exact ih _ hmem
  exact hremoved _ db (mem_heightRange hfirst hlast)

section
variable [Blake3]

end
end ReFork

/-! ### The manager -/

namespace ReorgManager
open ReFork

theorem preserves_onChain {α : Type} {P : ChainState → Prop} {x : EStateM ErrorDetection ChainState α}
    (hx : Preserves P x) : Preserves (fun s : ManagedChain => P s.chain) (onChain x) := by
  intro s hs
  have hkept := hx s.chain hs
  rw [onChain, zoom]
  cases h : x s.chain with
  | ok a chain =>
    rw [h] at hkept
    exact hkept
  | error e chain =>
    rw [h] at hkept
    exact hkept

/-- A rebuilt registry is written to its own column. -/
theorem rebuildValidatorState_column (tip : UInt64) {c : ColumnName} (hc : c ≠ .validatorData)
    (column : Column) :
    Preserves (fun s : ManagedChain => s.chain.db.column c = column) (rebuildValidatorState tip) := by
  have hwrite : ∀ {db db' : RockDB} {key value : List UInt8},
      db.write .validatorData key value = .ok db' → db'.column c = db.column c := by
    intro db db' key value h
    obtain ⟨-, rfl⟩ := (RockDB.write_eq_ok_iff _ _ _ _ _).mp h
    exact RockDB.column_put_of_ne _ _ _ hc
  have hpersist : ∀ map : ValidatorState,
      Preserves (fun db : RockDB => db.column c = column) map.persist := by
    intro map
    refine preserves_bind (preserves_update fun db db' hdb h => ?_) fun _ => ?_
    · simp only [ValidatorState.commit, bind_eq_ok_iff, mapErr_eq_ok_iff] at h
      obtain ⟨-, -, -, -, h⟩ := h
      exact (hwrite h).trans hdb
    · refine preserves_update fun db db' hdb h => ?_
      unfold ValidatorState.persistMultiValidatorLatchIfNeeded at h
      split at h
      · exact Except.ok.inj h ▸ hdb
      · split at h
        · exact Except.ok.inj h ▸ hdb
        · exact (hwrite ((mapErr_eq_ok_iff _ _ _).mp h)).trans hdb
  refine preserves_bind (fun s hs => hs) fun s => ?_
  split
  · exact preserves_pure _
  · refine preserves_bind (preserves_lift _) fun _ => ?_
    refine preserves_bind (preserves_lift _) fun map => ?_
    refine preserves_bind (preserves_lift _) fun _ => ?_
    refine preserves_bind (fun s hs => hs) fun _ => ?_
    exact preserves_onChain (P := fun s => s.db.column c = column)
      (preserves_onDb (P := fun db => db.column c = column) (hpersist map))

theorem remap_column (steps : List (UInt64 × Hash)) (db : RockDB) {c : ColumnName}
    (hc : c ≠ .transactionBatch) :
    (ReorgBatchIndex.remapCanonicalBatchesBestEffort steps db).column c = db.column c := by
  unfold ReorgBatchIndex.remapCanonicalBatchesBestEffort
  induction steps generalizing db with
  | nil => rfl
  | cons step steps ih =>
    rw [List.foldl_cons, ih]
    split
    · exact RockDB.column_put_of_ne _ _ _ hc
    · rfl

section
variable [Blake3]

end
end ReorgManager

/-! ### A branch without its batch -/

namespace Sample

/-- A block above `emptyBlock1`, with the payment of `block2`. -/
def branchBlock2 : Block := block 2 1700000060 emptyBlock1.blockHash root2
  (hashOfWords 0x94be78d4f3e52c458d1ea398e7924cddb27242ebc7b8fe31f1e9d69c5135b807
    0x16e6aa80bf05ff4ea0fcae5a1dcb21289c475feadf134d1cf995ba6768845977)

theorem signed_branchBlock2 : Signed branchBlock2 := ⟨rfl, by decide +kernel, by decide +kernel⟩

theorem cached_branch :
    Blake3.cached (hashTable [emptyBlock1, branchBlock2]) = Blake3.reference := by
  apply cached_of_signed
  simp only [List.forall_mem_cons]
  exact ⟨signed_emptyBlock1, signed_branchBlock2, fun _ h => nomatch h⟩

/-- A block enters the fork graph. -/
def learn (db : RockDB) (b : Block) : RockDB :=
  (db.put .blockToHash b.blockHash.toList (Block.codec.enc b)).storeBlockMetaByHash b.blockHash
    (forkMeta b (BitVec.ofNat 128 b.metadata.index.toNat, .validated) 1700000100)

/-- A block becomes the tip, with its batch. -/
def extend (db : RockDB) (b : Block) (batch : TransactionBatch) : RockDB :=
  ((((learn db b).put .blockmintData (RockDB.blockKey b.metadata.index) (Block.codec.enc b)).storeBatchBytes
    b.metadata.index batch.serialize).setCanonicalHashAtHeight b.metadata.index
    b.blockHash).setCanonicalTip b.blockHash b.metadata.index

/-- The chain of `block0` and `block1`, and beside it the branch of `emptyBlock1` and
`branchBlock2`, of which no batch is stored. -/
def forkedDb : RockDB :=
  learn (learn (extend (extend RockDB.empty block0 batch0) block1 batch1) emptyBlock1) branchBlock2

def node [Blake3] (db : RockDB) : ManagedChain :=
  ⟨reloadFromDb ⟨db, AccountModelTree.withManager⟩, none⟩

end Sample

end Remzar
