import Mathlib
import Remzar.Chain

/-! Which batches are executed, by `apply_block` and by a replay, and whether they are the
ones the block headers commit to. -/
namespace Remzar
open Std Fallible Effects Checked AccountGuard

/-- The root in the header is the root of the batch. -/
def Commits [Blake3] (block : Block) (batch : TransactionBatch) : Prop :=
  batch.computeMerkleRoot = .ok block.metadata.merkleRoot

/-! ### Live application -/

/-- The batch that `apply_block` runs on the state, if it gets that far. -/
def executedBatch [Blake3] (s : ChainState) (block : Block) : Option TransactionBatch :=
  match planBlock s.db s.tree.inner block with
  | .ok (some (batch, _, _)) => some batch
  | _ => none

theorem applyBlock_plan [Blake3] {s : ChainState} {block : Block}
    (h : succeeded (applyBlock block s)) : ∃ plan, planBlock s.db s.tree.inner block = .ok plan := by
  cases hplan : planBlock s.db s.tree.inner block with
  | ok plan => exact ⟨plan, rfl⟩
  | error e =>
    have hbody : applyBlockBody block s = .error e s := by
      unfold applyBlockBody
      rw [bind_run]
      change (lift (planBlock s.db s.tree.inner block) >>= _) s = _
      rw [bind_run, hplan]
      rfl
    rw [applyBlock, hbody] at h
    cases h

/-- A call that succeeds executes what is stored under the key of a block above the tip. -/
theorem executedBatch_eq_some_iff [Blake3] {s : ChainState} {block : Block}
    (h : succeeded (applyBlock block s)) (batch : TransactionBatch) :
    executedBatch s block = some batch ↔
      ¬(s.tree.inner.hasTip ∧ block.metadata.index ≤ s.tree.inner.tipHeight) ∧
        storedBatch s.db block = some batch := by
  obtain ⟨plan, hplan⟩ := applyBlock_plan h
  unfold executedBatch
  rw [hplan]
  cases plan with
  | none =>
    have hold := planBlock_none hplan
    constructor
    · intro hnone
      cases hnone
    · rintro ⟨hfresh, -⟩
      exact absurd hold hfresh
  | some plan =>
    obtain ⟨batch', next, outcome⟩ := plan
    have hplanned := planBlock_some hplan
    change some batch' = some batch ↔ _
    rw [hplanned.stored]
    exact ⟨fun heq => ⟨hplanned.fresh, heq⟩, fun heq => heq.2⟩

/-! ### Replay -/

/-- `replayStep` with a record of the batches it executed. -/
def replayStepLogged [Blake3] (acc : InnerTree × List (Block × TransactionBatch)) (idx : UInt64) :
    EStateM ErrorDetection RockDB (InnerTree × List (Block × TransactionBatch)) := do
  let db ← get
  let (block, remembered) ← lift (replayBlock db acc.1 idx)
  let previousHash := tipPreviousHash acc.1 block
  match db.getBatchBytesByIndex idx with
  | none => do
    let next ← lift (replayMissingBatch remembered block idx previousHash)
    return (next, acc.2)
  | some bytes => do
    let (next, batch) ← lift (replayBatch remembered block idx previousHash bytes)
    batch.transactions.forM (replayNft (nftContext block))
    return (next, acc.2 ++ [(block, batch)])

/-- The batches executed by a replay that runs to its end. -/
def replayed [Blake3] (db : RockDB) (height : UInt64) : List (Block × TransactionBatch) :=
  match (heightsTo height).foldlM replayStepLogged (InnerTree.empty, []) db with
  | .ok (_, log) _ => log
  | .error _ _ => []

/-- The block of a height and the batch that stands under its key. -/
def StoredAt (db : RockDB) (height : UInt64) (e : Block × TransactionBatch) : Prop :=
  db.getBlockByIndex height = .ok (some e.1) ∧
    ∃ bytes, db.getBatchBytesByIndex height = some bytes ∧
      TransactionBatch.deserialize bytes = .ok e.2

-- NFT records are the only thing a replay writes.
theorem replayNft_columns (ctx : NftContext) (kind : TxKind) (column : ColumnName → Column) :
    Preserves (fun db => db.column = column) (replayNft ctx kind) := by
  have hmint : ∀ (tx : NftMintTx) (db db' : RockDB), db.column = column →
      applyNftMint ctx tx db = .ok db' → db'.column = column := by
    intro tx db db' hdb h
    simp only [applyNftMint, bind_eq_ok_iff, pure_eq_ok_iff] at h
    obtain ⟨-, -, rfl⟩ := h
    exact hdb
  have htransfer : ∀ (tx : NftTransferTx) (db db' : RockDB), db.column = column →
      applyNftTransfer ctx tx db = .ok db' → db'.column = column := by
    intro tx db db' hdb h
    simp only [applyNftTransfer, bind_eq_ok_iff] at h
    obtain ⟨record, -, h⟩ := h
    split at h
    · rw [pure_eq_ok_iff] at h
      exact h ▸ hdb
    · simp only [bind_eq_ok_iff, pure_eq_ok_iff] at h
      obtain ⟨-, -, -, -, rfl⟩ := h
      exact hdb
  cases kind with
  | nftMint tx =>
    refine preserves_update fun db db' hdb h => ?_
    split at h
    · exact Except.ok.inj h ▸ hdb
    · exact hmint tx db db' hdb h
  | nftTransfer tx =>
    refine preserves_update fun db db' hdb h => ?_
    unfold applyNftTransferOrSkip at h
    cases happly : applyNftTransfer ctx tx db with
    | ok db'' =>
      rw [happly] at h
      exact Except.ok.inj h ▸ htransfer tx db db'' hdb happly
    | error e =>
      rw [happly] at h
      dsimp only at h
      split at h
      · exact Except.ok.inj h ▸ hdb
      · cases h
  | transfer tx => exact preserves_pure ()
  | registerNode tx => exact preserves_pure ()
  | reward tx => exact preserves_pure ()

theorem replayBlock_ok {db : RockDB} {inner remembered : InnerTree} {idx : UInt64} {block : Block}
    (h : replayBlock db inner idx = .ok (block, remembered)) :
    db.getBlockByIndex idx = .ok (some block) ∧ block.metadata.index = inner.expectedNextHeight ∧
      remembered = rememberRecentBlock inner block := by
  simp only [replayBlock, bind_eq_ok_iff, okOr_eq_ok_iff, pure_eq_ok_iff] at h
  obtain ⟨found, hfound, block', rfl, _, hlink, heq⟩ := h
  cases heq
  exact ⟨hfound, validateNextBlockLink_height hlink, rfl⟩

theorem replayBatch_ok [Blake3] {inner next : InnerTree} {block : Block} {idx : UInt64}
    {previousHash : Hash} {bytes : List UInt8} {batch : TransactionBatch}
    (h : replayBatch inner block idx previousHash bytes = .ok (next, batch)) :
    TransactionBatch.deserialize bytes = .ok batch ∧ Moves inner next batch.rewardAmount := by
  simp only [replayBatch, bind_eq_ok_iff, mapErr_eq_ok_iff, pure_eq_ok_iff] at h
  obtain ⟨batch', hbatch, -, -, ⟨next', outcome⟩, happly, heq⟩ := h
  cases heq
  exact ⟨hbatch, (applyBatchToState_applied _ _ _ _ _ happly).moves⟩

theorem replayMissingBatch_ok {inner next : InnerTree} {block : Block} {idx : UInt64}
    {previousHash : Hash} (h : replayMissingBatch inner block idx previousHash = .ok next) :
    next = inner := by
  simp only [replayMissingBatch, bind_eq_ok_iff, pure_eq_ok_iff] at h
  obtain ⟨-, -, -, -, rfl⟩ := h
  rfl

/-- One step of a replay: the stored block becomes the tip and is executed with the stored
batch, if there is one; the columns stay as they are. -/
structure Replayed (db : RockDB) (acc : InnerTree × List (Block × TransactionBatch))
    (idx : UInt64) (acc' : InnerTree × List (Block × TransactionBatch)) (db' : RockDB) : Prop where
  columns : db'.column = db.column
  executed : ∃ block, db.getBlockByIndex idx = .ok (some block) ∧
    block.metadata.index = acc.1.expectedNextHeight ∧
    (acc'.1.hasTip ∧ acc'.1.tipHeight = block.metadata.index) ∧
    ((db.getBatchBytesByIndex idx = none ∧ acc'.2 = acc.2) ∨
      ∃ batch, StoredAt db idx (block, batch) ∧ acc'.2 = acc.2 ++ [(block, batch)])

theorem replayStepLogged_ok [Blake3] {acc acc' : InnerTree × List (Block × TransactionBatch)}
    {idx : UInt64} {db db' : RockDB} (h : replayStepLogged acc idx db = .ok acc' db') :
    Replayed db acc idx acc' db' := by
  simp only [replayStepLogged, run_bind_eq_ok_iff, lift_eq_ok_iff] at h
  obtain ⟨_, _, hget, ⟨block, remembered⟩, _, ⟨hblock, rfl⟩, h⟩ := h
  cases hget
  obtain ⟨hstored, hindex, rfl⟩ := replayBlock_ok hblock
  cases hbytes : db.getBatchBytesByIndex idx with
  | none =>
    simp only [hbytes, run_bind_eq_ok_iff, lift_eq_ok_iff] at h
    obtain ⟨next, _, ⟨hmissing, rfl⟩, hret⟩ := h
    cases hret
    rw [replayMissingBatch_ok hmissing]
    exact ⟨rfl, block, hstored, hindex, ⟨rfl, rfl⟩, .inl ⟨hbytes, rfl⟩⟩
  | some bytes =>
    simp only [hbytes, run_bind_eq_ok_iff, lift_eq_ok_iff] at h
    obtain ⟨⟨next, batch⟩, _, ⟨hbatch, rfl⟩, _, db₁, hnft, hret⟩ := h
    cases hret
    obtain ⟨hdecode, hmoves⟩ := replayBatch_ok hbatch
    have hcolumns : db'.column = db.column := by
      have hkeep := preserves_forM batch.transactions
        (fun kind _ => replayNft_columns (nftContext block) kind db.column) db rfl
      rw [hnft] at hkeep
      exact hkeep
    exact ⟨hcolumns, block, hstored, hindex, hmoves.tip,
      .inr ⟨batch, ⟨hstored, bytes, hbytes, hdecode⟩, rfl⟩⟩

theorem replayStep_eq_erase [Blake3] (acc : InnerTree × List (Block × TransactionBatch))
    (idx : UInt64) : replayStep acc.1 idx = Prod.fst <$> replayStepLogged acc idx := by
  unfold replayStep replayStepLogged
  rw [map_bind]
  refine bind_congr fun db => ?_
  rw [map_bind]
  refine bind_congr fun r => ?_
  cases db.getBatchBytesByIndex idx with
  | none =>
    simp only [map_bind, map_pure, bind_pure]
  | some bytes =>
    simp only [map_bind, map_pure]

/-! ### Whole replays -/

theorem read_congr {db db' : RockDB} (h : db'.column = db.column) (c : ColumnName)
    (key : List UInt8) : db'.read c key = db.read c key := by
  rw [RockDB.read, RockDB.read, h]

theorem getBlockByIndex_congr {db db' : RockDB} (h : db'.column = db.column) (idx : UInt64) :
    db'.getBlockByIndex idx = db.getBlockByIndex idx := by
  rw [RockDB.getBlockByIndex, RockDB.getBlockByIndex, read_congr h]

theorem getBatchBytesByIndex_congr {db db' : RockDB} (h : db'.column = db.column)
    (idx : UInt64) : db'.getBatchBytesByIndex idx = db.getBatchBytesByIndex idx := by
  rw [RockDB.getBatchBytesByIndex, RockDB.getBatchBytesByIndex, read_congr h]

theorem StoredAt.congr {db db' : RockDB} (h : db'.column = db.column) (idx : UInt64)
    (e : Block × TransactionBatch) : StoredAt db' idx e ↔ StoredAt db idx e := by
  rw [StoredAt, StoredAt, getBlockByIndex_congr h, getBatchBytesByIndex_congr h]

theorem StoredAt.unique {db : RockDB} {idx : UInt64} {e e' : Block × TransactionBatch}
    (h : StoredAt db idx e) (h' : StoredAt db idx e') : e = e' := by
  obtain ⟨hblock, bytes, hbytes, hbatch⟩ := h
  obtain ⟨hblock', bytes', hbytes', hbatch'⟩ := h'
  obtain rfl : bytes = bytes' := Option.some.inj (hbytes.symm.trans hbytes')
  have h₁ : e.1 = e'.1 := Option.some.inj (Except.ok.inj (hblock.symm.trans hblock'))
  have h₂ : e.2 = e'.2 := Except.ok.inj (hbatch.symm.trans hbatch')
  exact Prod.ext h₁ h₂

/-- The invariant of the replay loop after the heights below `n`. -/
structure ReplayInvariant (db : RockDB) (n : ℕ)
    (acc : InnerTree × List (Block × TransactionBatch)) (db' : RockDB) : Prop where
  columns : db'.column = db.column
  tip : if n = 0 then acc.1.hasTip = false else acc.1.hasTip ∧ acc.1.tipHeight.toNat + 1 = n
  heights : ∀ i < n, ∀ e, StoredAt db (UInt64.ofNat i) e →
    e.1.metadata.index = UInt64.ofNat i ∧ e ∈ acc.2
  logged : ∀ e ∈ acc.2, ∃ i < n, StoredAt db (UInt64.ofNat i) e

theorem ReplayInvariant.next {db db' : RockDB} {n : ℕ}
    {acc : InnerTree × List (Block × TransactionBatch)} (h : ReplayInvariant db n acc db')
    (hn : n < 2^64) : acc.1.expectedNextHeight = UInt64.ofNat n := by
  have htip := h.tip
  split at htip
  · rename_i hzero
    rw [InnerTree.expectedNextHeight, htip, hzero]
    rfl
  · refine UInt64.toNat_inj.mp ?_
    rw [InnerTree.expectedNextHeight, if_pos htip.1, saturatingAdd_toNat_of_lt,
      UInt64.toNat_ofNat_of_lt' hn]
    · exact htip.2
    · exact htip.2 ▸ hn

theorem ReplayInvariant.step [Blake3] {db db₁ db₂ : RockDB} {n : ℕ}
    {acc acc' : InnerTree × List (Block × TransactionBatch)} (h : ReplayInvariant db n acc db₁)
    (hn : n < 2^64) (hstep : replayStepLogged acc (UInt64.ofNat n) db₁ = .ok acc' db₂) :
    ReplayInvariant db (n+1) acc' db₂ := by
  obtain ⟨hcolumns, block, hblock, hindex, htip, hlog⟩ := replayStepLogged_ok hstep
  rw [h.next hn] at hindex
  have hkept : ∀ e ∈ acc.2, e ∈ acc'.2 := by
    intro e he
    rcases hlog with ⟨-, hsame⟩ | ⟨batch, -, happ⟩
    · exact hsame ▸ he
    · exact happ ▸ List.mem_append_left _ he
  refine ⟨hcolumns.trans h.columns, ?_, ?_, ?_⟩
  · rw [if_neg (Nat.succ_ne_zero n)]
    refine ⟨htip.1, ?_⟩
    rw [htip.2, hindex, UInt64.toNat_ofNat_of_lt' hn]
  · intro i hi e he
    rcases Nat.lt_succ_iff_lt_or_eq.mp hi with hlt | rfl
    · obtain ⟨hidx, hmem⟩ := h.heights i hlt e he
      exact ⟨hidx, hkept e hmem⟩
    · have he₁ := (StoredAt.congr h.columns _ e).mpr he
      have hsame : block = e.1 := Option.some.inj (Except.ok.inj (hblock.symm.trans he₁.1))
      refine ⟨hsame ▸ hindex, ?_⟩
      rcases hlog with ⟨hnone, -⟩ | ⟨batch, hstored, happ⟩
      · obtain ⟨-, bytes, hbytes, -⟩ := he₁
        rw [hnone] at hbytes
        cases hbytes
      · rw [happ, hstored.unique he₁]
        exact List.mem_append_right _ (List.mem_singleton_self e)
  · intro e he
    rcases hlog with ⟨-, hsame⟩ | ⟨batch, hstored, happ⟩
    · obtain ⟨i, hi, hat⟩ := h.logged e (hsame ▸ he)
      exact ⟨i, Nat.lt_succ_of_lt hi, hat⟩
    · rw [happ] at he
      rcases List.mem_append.mp he with hold | hnew
      · obtain ⟨i, hi, hat⟩ := h.logged e hold
        exact ⟨i, Nat.lt_succ_of_lt hi, hat⟩
      · rw [List.mem_singleton.mp hnew]
        exact ⟨n, Nat.lt_succ_self n, (StoredAt.congr h.columns _ _).mp hstored⟩

theorem replayLogged_invariant [Blake3] (db : RockDB) (n : ℕ) (hn : n ≤ 2^64)
    {acc : InnerTree × List (Block × TransactionBatch)} {db' : RockDB}
    (h : ((List.range n).map UInt64.ofNat).foldlM replayStepLogged (InnerTree.empty, []) db =
      .ok acc db') : ReplayInvariant db n acc db' := by
  induction n generalizing acc db' with
  | zero =>
    cases h
    refine ⟨rfl, rfl, ?_, ?_⟩
    · intro i hi
      cases hi
    · intro e he
      cases he
  | succ n ih =>
    rw [List.range_succ, List.map_append, List.foldlM_append, run_bind_eq_ok_iff] at h
    obtain ⟨mid, db₁, hmid, hlast⟩ := h
    rw [List.map_singleton, List.foldlM_cons, run_bind_eq_ok_iff] at hlast
    obtain ⟨last, db₂, hstep, hret⟩ := hlast
    cases hret
    exact (ih (by omega) hmid).step hn hstep

/-- A replay that succeeds has executed what is stored, and nothing else. -/
theorem replayed_invariant [Blake3] {s : ChainState} {height : UInt64}
    (h : succeeded (reloadFromDbToHeight height s)) :
    ∃ inner db', ReplayInvariant s.db (height.toNat+1) (inner, replayed s.db height) db' := by
  cases hlog : (heightsTo height).foldlM replayStepLogged (InnerTree.empty, []) s.db with
  | ok acc db' =>
    have hinv := replayLogged_invariant s.db (height.toNat+1) height.toNat_lt hlog
    refine ⟨acc.1, db', ?_⟩
    rw [replayed, hlog]
    exact hinv
  | error e db' =>
    -- The replay itself would have failed with the same error.
    exfalso
    have herase := foldlM_erase Prod.fst replayStep replayStepLogged replayStep_eq_erase
      (heightsTo height) (InnerTree.empty, [])
    have hfold : (heightsTo height).foldlM replayStep InnerTree.empty s.db = .error e db' := by
      rw [herase]
      change EStateM.map _ _ _ = _
      rw [EStateM.map, hlog]
    have hreplay : replayTo height s.db = .error e db' := by
      rw [replayTo, bind_run, hfold]
    have hreload : reloadFromDbToHeight height s = .error e { s with db := db' } := by
      rw [reloadFromDbToHeight, bind_run, onDb, zoom, hreplay]
    rw [hreload] at h
    cases h

/-- Whenever `apply_block` or a replay succeeds, the batches it executed above height 0 are
the committed ones exactly when the stored batches are: neither compares a batch with the
root in the header. -/
theorem executed_committed_iff [Blake3] :
    (∀ (s : ChainState) (block : Block), succeeded (applyBlock block s) →
      ((∀ batch, executedBatch s block = some batch → 1 ≤ block.metadata.index →
          Commits block batch) ↔
        (¬(s.tree.inner.hasTip ∧ block.metadata.index ≤ s.tree.inner.tipHeight) →
          1 ≤ block.metadata.index →
          ∀ batch, storedBatch s.db block = some batch → Commits block batch))) ∧
    (∀ (s : ChainState) (height : UInt64), succeeded (reloadFromDbToHeight height s) →
      ((∀ e ∈ replayed s.db height, 1 ≤ e.1.metadata.index → Commits e.1 e.2) ↔
        ∀ h, 1 ≤ h → h ≤ height → ∀ e, StoredAt s.db h e → Commits e.1 e.2)) := by
  refine ⟨?_, ?_⟩
  · intro s block h
    constructor
    · intro hexec hfresh hpos batch hstored
      exact hexec batch ((executedBatch_eq_some_iff h batch).mpr ⟨hfresh, hstored⟩) hpos
    · intro hstored batch hexec hpos
      obtain ⟨hfresh, hbatch⟩ := (executedBatch_eq_some_iff h batch).mp hexec
      exact hstored hfresh hpos batch hbatch
  · intro s height h
    obtain ⟨inner, db', hinv⟩ := replayed_invariant h
    constructor
    · intro hexec k hpos hle e he
      have hk : UInt64.ofNat k.toNat = k := UInt64.ofNat_toNat
      have hlt : k.toNat < height.toNat + 1 := Nat.lt_succ_of_le (UInt64.le_iff_toNat_le.mp hle)
      obtain ⟨hindex, hmem⟩ := hinv.heights k.toNat hlt e (hk.symm ▸ he)
      refine hexec e hmem ?_
      rw [hindex, hk]
      exact hpos
    · intro hstored e he hpos
      obtain ⟨i, hi, hat⟩ := hinv.logged e he
      obtain ⟨hindex, -⟩ := hinv.heights i hi e hat
      refine hstored (UInt64.ofNat i) (hindex ▸ hpos) ?_ e hat
      have hsmall : i < 2^64 := Nat.lt_of_lt_of_le hi height.toNat_lt
      rw [UInt64.le_iff_toNat_le, UInt64.toNat_ofNat_of_lt' hsmall]
      omega

namespace Sample

/-- The second block's batch with the reward redirected to another wallet. -/
def forgedBatch : TransactionBatch :=
  ⟨1, 1700000030, [.reward { payout with receiver := wallet 98 }], none⟩

def forgedDb : RockDB := db.storeBatchBytes 1 forgedBatch.serialize

theorem acceptsAll_forged : @acceptsAll Blake3.reference ⟨forgedDb, AccountModelTree.withManager⟩
    [(block0, batch0), (block1, forgedBatch)] = true := by
  apply acceptsAll_of_signed
  · simp only [List.forall_mem_cons]
    exact ⟨signed_block0, signed_block1, fun _ h => nomatch h⟩
  · decide +kernel

end Sample

/-- The database holds another batch than the one the block commits to, and `apply_block`
executes it. -/
theorem forged_batch_executed :
    ∃ s : ChainState, (∃ log, @ChainRun Blake3.reference log s) ∧
      succeeded (@applyBlock Blake3.reference Sample.block1 s) ∧
      @executedBatch Blake3.reference s Sample.block1 = some Sample.forgedBatch ∧
      ¬@Commits Blake3.reference Sample.block1 Sample.forgedBatch := by
  obtain ⟨s, hrun, hlast⟩ := @ChainRun.of_acceptsAll Blake3.reference [] _
    (@ChainRun.start Blake3.reference _) [(Sample.block0, Sample.batch0)] _
    Sample.acceptsAll_forged
  obtain ⟨s', hcall, hnew, -⟩ := @acceptsAll_cons Blake3.reference _ _ _ hlast
  refine ⟨s, ⟨_, hrun⟩, hnew.1, ?_, ?_⟩
  · exact (@executedBatch_eq_some_iff Blake3.reference s Sample.block1 hnew.1 _).mpr hnew.2
  · unfold Commits
    decide +kernel

end Remzar
