import Mathlib
import Remzar.Recovery
import Remzar.BranchSwitch
import Remzar.PendingQueue

/-! What the mint preflight leaves: one usable tip in every record, a tree that is reloaded only
where the tip was moved, and above the tip whatever lay above the recorded one. -/
namespace Remzar
open Std Fallible Effects Checked

/-! ### Deleted heights -/

namespace RockDB

theorem mem_heightRange_iff {first last k : UInt64} :
    k ∈ heightRange first last ↔ first ≤ k ∧ k ≤ last := by
  refine ⟨fun hmem => ?_, fun h => ReFork.mem_heightRange h.1 h.2⟩
  obtain ⟨n, hn, rfl⟩ := List.mem_map.mp hmem
  rw [List.mem_range'_1] at hn
  have hlast : last.toNat < UInt64.size := last.toNat_lt
  have hvalue : (UInt64.ofNat n).toNat = n := UInt64.toNat_ofNat_of_lt' (by omega)
  rw [UInt64.le_iff_toNat_le, UInt64.le_iff_toNat_le, hvalue]
  omega

/-- A loop over heights that empties one key at each of them. -/
theorem foldl_read_none {c : ColumnName} {key : UInt64 → List UInt8} {f : RockDB → UInt64 → RockDB}
    (hf : ∀ db h k, (f db h).read c (key k) = if h = k then none else db.read c (key k))
    (heights : List UInt64) (db : RockDB) (k : UInt64) :
    (heights.foldl f db).read c (key k) = if k ∈ heights then none else db.read c (key k) := by
  induction heights generalizing db with
  | nil => rw [List.foldl_nil, if_neg List.not_mem_nil]
  | cons h heights ih =>
    rw [List.foldl_cons, ih, hf]
    simp only [List.mem_cons]
    by_cases hin : k ∈ heights
    · rw [if_pos hin, if_pos (Or.inr hin)]
    · rw [if_neg hin]
      by_cases heq : h = k
      · rw [if_pos heq, if_pos (Or.inl heq.symm)]
      · rw [if_neg heq, if_neg fun hor => hor.elim (fun h' => heq h'.symm) hin]

theorem read_remove_key {c : ColumnName} {key : UInt64 → List UInt8}
    (hkey : ∀ {h k}, key h = key k → h = k) (db : RockDB) (h k : UInt64) :
    (db.remove c (key h)).read c (key k) = if h = k then none else db.read c (key k) := by
  rw [read_remove]
  by_cases heq : h = k
  · rw [if_pos ⟨rfl, congrArg key heq⟩, if_pos heq]
  · rw [if_neg fun hboth => heq (hkey hboth.2), if_neg heq]

theorem read_remove_other {c c' : ColumnName} (hne : c' ≠ c) (db : RockDB) (key key' : List UInt8) :
    (db.remove c key).read c' key' = db.read c' key' := by
  rw [read, read, db.column_remove_of_ne key hne]

theorem slot_deleteRange (db : RockDB) (first last k : UInt64) :
    (db.deleteCanonicalHashRange first last).slot k =
      if first ≤ k ∧ k ≤ last then none else db.slot k := by
  have hread := @foldl_read_none .canonicalHeightToHash canonicalHeightKey
    (fun db h => db.remove .canonicalHeightToHash (canonicalHeightKey h))
    (read_remove_key ReFork.canonicalHeightKey_injective) (heightRange first last) db k
  simp only [mem_heightRange_iff] at hread
  exact hread

/-- Nothing is stored above a height: no block, no batch, no canonical hash. -/
def NothingAbove (db : RockDB) (height : UInt64) : Prop :=
  ∀ k, height < k → db.read .blockmintData (blockKey k) = none ∧ db.getBatchBytesByIndex k = none ∧
    db.slot k = none

theorem NothingAbove.congr {db db' : RockDB} {height : UInt64} (h : db.NothingAbove height)
    (hblock : db'.column .blockmintData = db.column .blockmintData)
    (hbatch : db'.column .transactionBatch = db.column .transactionBatch)
    (hslot : db'.column .canonicalHeightToHash = db.column .canonicalHeightToHash) :
    db'.NothingAbove height := by
  intro k hk
  rw [read, hblock, getBatchBytesByIndex_of_column hbatch, slot_congr hslot]
  exact h k hk

end RockDB

namespace OrchestrationEngine

/-- A height without its block and batch. -/
def removeProjectionAt (db : RockDB) (height : UInt64) : RockDB :=
  (db.remove .blockmintData (RockDB.blockKey height)).remove .transactionBatch (batchKey height)

theorem removeProjections_column (heights : List UInt64) (db : RockDB) {c : ColumnName}
    (hblock : c ≠ .blockmintData) (hbatch : c ≠ .transactionBatch) :
    (heights.foldl removeProjectionAt db).column c = db.column c := by
  induction heights generalizing db with
  | nil => rfl
  | cons height heights ih =>
    rw [List.foldl_cons, ih, removeProjectionAt, RockDB.column_remove_of_ne _ _ hbatch,
      RockDB.column_remove_of_ne _ _ hblock]

theorem deleteProjectionAt_ok {db : RockDB} (hdb : db.batchProcessAll = .ok ()) (ok : Bool)
    (height : UInt64) :
    deleteProjectionAt (ok, db) height = (ok, removeProjectionAt db height) ∧
      (removeProjectionAt db height).batchProcessAll = .ok () := by
  have hdelete {db : RockDB} (hdb : db.batchProcessAll = .ok ()) (c : ColumnName) (key : List UInt8) :
      db.delete c key = .ok (db.remove c key) := by
    rw [RockDB.delete, hdb]
    rfl
  have hmid : (db.remove .blockmintData (RockDB.blockKey height)).batchProcessAll = .ok () :=
    (RockDB.batchProcessAll_congr (db.column_remove_of_ne _ (by decide))).trans hdb
  constructor
  · unfold deleteProjectionAt attemptUpdate
    simp only [hdelete hdb, hdelete hmid]
    rfl
  · exact (RockDB.batchProcessAll_congr (RockDB.column_remove_of_ne _ _ (by decide))).trans hmid

theorem deleteProjectionAt_error {db : RockDB} {e : ErrorDetection} (hdb : db.batchProcessAll = .error e)
    (ok : Bool) (height : UInt64) : deleteProjectionAt (ok, db) height = (false, db) := by
  have hdelete (c : ColumnName) (key : List UInt8) : db.delete c key = .error e := by
    rw [RockDB.delete, hdb]
    rfl
  unfold deleteProjectionAt attemptUpdate
  simp only [hdelete]

/-- Where every block could be deleted, the whole projection is. -/
theorem foldl_deleteProjectionAt {heights : List UInt64} {db db' : RockDB} (hne : heights ≠ [])
    (h : heights.foldl deleteProjectionAt (true, db) = (true, db')) :
    db' = heights.foldl removeProjectionAt db := by
  cases hdb : db.batchProcessAll with
  | ok u =>
    clear hne
    induction heights generalizing db with
    | nil =>
      cases h
      rfl
    | cons height heights ih =>
      obtain ⟨hstep, hnext⟩ := deleteProjectionAt_ok hdb true height
      rw [List.foldl_cons, hstep] at h
      exact ih h hnext
  | error e =>
    have hall : ∀ (heights : List UInt64) (ok : Bool), heights ≠ [] →
        heights.foldl deleteProjectionAt (ok, db) = (false, db) := by
      intro heights
      induction heights with
      | nil => exact fun _ hne => absurd rfl hne
      | cons height heights ih =>
        intro ok _
        rw [List.foldl_cons, deleteProjectionAt_error hdb]
        cases heights with
        | nil => rfl
        | cons height' heights => exact ih false (List.cons_ne_nil _ _)
    rw [hall heights true hne] at h
    cases h

/-- A truncation that succeeds empties every height above the new tip, up to the old one. -/
theorem truncate_reads {newTip oldTip : UInt64} {db db' : RockDB} (hlt : newTip < oldTip)
    (h : truncateLegacyCanonicalProjectionAboveTip newTip oldTip db = (true, db')) (k : UInt64) :
    db'.read .blockmintData (RockDB.blockKey k) =
        (if newTip < k ∧ k ≤ oldTip then none else db.read .blockmintData (RockDB.blockKey k)) ∧
      db'.getBatchBytesByIndex k =
        (if newTip < k ∧ k ≤ oldTip then none else db.getBatchBytesByIndex k) ∧
      db'.slot k = if newTip < k ∧ k ≤ oldTip then none else db.slot k := by
  have hnext : (saturatingAdd newTip 1).toNat = newTip.toNat+1 := by
    have hold := oldTip.toNat_lt
    have hlt' := UInt64.lt_iff_toNat_lt.mp hlt
    exact saturatingAdd_toNat_of_lt _ _ (by change newTip.toNat+1 < _; omega)
  have hrange {k : UInt64} : (saturatingAdd newTip 1 ≤ k ∧ k ≤ oldTip) ↔ (newTip < k ∧ k ≤ oldTip) := by
    rw [UInt64.le_iff_toNat_le, UInt64.lt_iff_toNat_lt, hnext]
    exact Iff.rfl
  unfold truncateLegacyCanonicalProjectionAboveTip at h
  rw [if_neg (UInt64.not_le.mpr hlt)] at h
  dsimp only at h
  cases hfold : (RockDB.heightRange (saturatingAdd newTip 1) oldTip).foldl deleteProjectionAt (true, db) with
  | mk ok db₁ =>
    rw [hfold] at h
    obtain ⟨rfl, rfl⟩ := Prod.mk.inj h
    have hne : RockDB.heightRange (saturatingAdd newTip 1) oldTip ≠ [] := by
      have hmem : oldTip ∈ RockDB.heightRange (saturatingAdd newTip 1) oldTip :=
        RockDB.mem_heightRange_iff.mpr (hrange.mpr ⟨hlt, UInt64.le_refl _⟩)
      exact List.ne_nil_of_mem hmem
    obtain rfl := foldl_deleteProjectionAt hne hfold
    have hblocks := @RockDB.foldl_read_none .blockmintData RockDB.blockKey removeProjectionAt
      (fun db h k => by
        rw [removeProjectionAt, RockDB.read_remove_other (by decide),
          RockDB.read_remove_key RockDB.blockKey_injective])
      (RockDB.heightRange (saturatingAdd newTip 1) oldTip) db k
    have hbatches := @RockDB.foldl_read_none .transactionBatch batchKey removeProjectionAt
      (fun db h k => by
        rw [removeProjectionAt, RockDB.read_remove_key batchKey_injective,
          RockDB.read_remove_other (by decide)])
      (RockDB.heightRange (saturatingAdd newTip 1) oldTip) db k
    simp only [RockDB.mem_heightRange_iff, hrange] at hblocks hbatches
    have hslots : (((RockDB.heightRange (saturatingAdd newTip 1) oldTip).foldl removeProjectionAt
        db).deleteCanonicalHashRange (saturatingAdd newTip 1) oldTip).slot k =
          if newTip < k ∧ k ≤ oldTip then none else db.slot k := by
      rw [RockDB.slot_deleteRange, RockDB.slot_congr (removeProjections_column _ _ (by decide) (by decide))]
      simp only [hrange]
    refine ⟨?_, ?_, hslots⟩
    · rw [← hblocks, RockDB.read, RockDB.read,
        RockDB.column_deleteCanonicalHashRange _ _ _ (by decide)]
    · rw [RockDB.getBatchBytesByIndex_of_column (RockDB.column_deleteCanonicalHashRange _ _ _ (by decide))]
      exact hbatches

/-- The scan begins at the tip and goes below it. -/
theorem heightRange_reverse {floor tip : UInt64} (hle : floor.toNat ≤ tip.toNat) :
    ∃ rest, (RockDB.heightRange floor tip).reverse = tip :: rest ∧ ∀ height ∈ rest, height < tip := by
  refine ⟨((List.range' floor.toNat (tip.toNat-floor.toNat)).map UInt64.ofNat).reverse, ?_, ?_⟩
  · have hcount : tip.toNat + 1 - floor.toNat = (tip.toNat-floor.toNat) + 1 := by omega
    have hlast : floor.toNat + 1*(tip.toNat-floor.toNat) = tip.toNat := by omega
    rw [RockDB.heightRange, hcount, List.range'_concat, List.map_append, List.reverse_append, hlast]
    simp
  · intro height hmem
    obtain ⟨n, hn, rfl⟩ := List.mem_map.mp (List.mem_reverse.mp hmem)
    rw [List.mem_range'_1] at hn
    have htip : tip.toNat < UInt64.size := tip.toNat_lt
    rw [UInt64.lt_iff_toNat_lt, UInt64.toNat_ofNat_of_lt' (by omega)]
    omega

/-! ### One consistent tip -/

/-- Every record in the database names one block as the tip. -/
structure PinnedTip (db : RockDB) (height : UInt64) (block : Block) : Prop where
  tipHeight : db.readHeight "tip_height" = some height
  latestBlockIndex : db.readHeight "latest_block_index" = some height
  view : db.getCanonicalTip = .ok (some ⟨block.blockHash, height⟩)
  slot : db.slot height = some block.blockHash.toList
  stored : db.getBlockByIndex height = .ok (some block)
  indexed : verifyBlockIsHashIndexed db height block.blockHash = true

def TreeAt (s : InnerTree) (height : UInt64) (hash : Hash) : Prop :=
  s.hasTip = true ∧ s.tipHeight = height ∧ s.tipHash = hash

/-- The records and the tree agree, and nothing is left above. -/
structure ConsistentTip (s : ChainState) (height : UInt64) (block : Block) : Prop where
  pinned : PinnedTip s.db height block
  tree : TreeAt s.tree.inner height block.blockHash
  above : s.db.NothingAbove height

section
variable [Blake3]

/-- The block of a height can be used as it is stored, at most its hash index is written again. -/
def InPlace (db : RockDB) (height : UInt64) (block : Block) : Prop :=
  db.getBlockByIndex height = .ok (some block) ∧ ∃ bytes, block.serializeForStorage = .ok bytes ∧
    (repairHashIndex height block.blockHash bytes db).1 = true

theorem repairHashIndex_column (height : UInt64) (hash : Hash) (bytes : List UInt8) (db : RockDB)
    {c : ColumnName} (hc : c ≠ .blockToHash) :
    (repairHashIndex height hash bytes db).2.column c = db.column c := by
  unfold repairHashIndex
  split
  · rfl
  · cases hindex : db.indexBlockByHash hash bytes with
    | error e => rfl
    | ok db₁ =>
      simp only [RockDB.indexBlockByHash, bind_eq_ok_iff, pure_eq_ok_iff] at hindex
      obtain ⟨-, -, canonical, -, rfl⟩ := hindex
      exact RockDB.column_put_of_ne _ _ _ hc

omit [Blake3] in
/-- A pinned tip keeps what was found under its hash and its height, and what lies above it. -/
theorem pinTip_pinned {db : RockDB} {height : UInt64} {block : Block}
    (hstored : db.getBlockByIndex height = .ok (some block))
    (hindexed : verifyBlockIsHashIndexed db height block.blockHash = true) :
    PinnedTip (pinTip height block.blockHash db) height block where
  tipHeight := pinTip_recorded _ _ _
  latestBlockIndex := by
    unfold pinTip
    rw [RockDB.readHeight_congr (markIfKnown_column _ _ (by decide))]
    exact (RockDB.readHeight_setCanonicalTip _ _ _).2
  view := by
    unfold pinTip
    rw [RockDB.getCanonicalTip_congr (markIfKnown_column _ _ (by decide))]
    exact RockDB.getCanonicalTip_setCanonicalTip _ _ _
  slot := by
    unfold pinTip
    rw [RockDB.slot_congr (markIfKnown_column _ _ (by decide)),
      RockDB.slot_congr (RockDB.column_setCanonicalTip _ _ _ (by decide) (by decide)),
      RockDB.slot_setCanonicalHashAtHeight, if_pos rfl]
  stored := by
    rw [RockDB.getBlockByIndex_of_column
      (pinTip_column _ _ _ (by decide) (by decide) (by decide) (by decide))]
    exact hstored
  indexed := by
    unfold verifyBlockIsHashIndexed
    rw [RockDB.getBlockByHash_congr
      (pinTip_column _ _ _ (by decide) (by decide) (by decide) (by decide))]
    exact hindexed

omit [Blake3] in
theorem pinTip_nothingAbove_iff (height : UInt64) (hash : Hash) (db : RockDB) :
    (pinTip height hash db).NothingAbove height ↔ db.NothingAbove height := by
  refine forall_congr' fun k => imp_congr_right fun hk => ?_
  have hslot : (pinTip height hash db).slot k = db.slot k := by
    unfold pinTip
    rw [RockDB.slot_congr (markIfKnown_column _ _ (by decide)),
      RockDB.slot_congr (RockDB.column_setCanonicalTip _ _ _ (by decide) (by decide)),
      RockDB.slot_setCanonicalHashAtHeight, if_neg fun heq => UInt64.ne_of_lt hk heq]
    apply RockDB.slot_congr
    rw [RockDB.setAddrIndexHeight, RockDB.column_putHeight _ _ _ (by decide), RockDB.setTipHeight,
      RockDB.column_putHeight _ _ _ (by decide), RockDB.setLatestBlockIndex,
      RockDB.column_putHeight _ _ _ (by decide), RockDB.column_putHeight _ _ _ (by decide)]
  have hcolumn {c : ColumnName} (hglobal : c ≠ .global) (hslot : c ≠ .canonicalHeightToHash)
      (hview : c ≠ .canonicalChainView) (hmeta : c ≠ .blockMetaByHash) :=
    pinTip_column height hash db hglobal hslot hview hmeta
  rw [hslot, RockDB.read, hcolumn (by decide) (by decide) (by decide) (by decide),
    RockDB.getBatchBytesByIndex_of_column (hcolumn (by decide) (by decide) (by decide) (by decide))]
  rfl

/-- A replay ends on the block stored at its height. -/
theorem replayTo_treeAt {height : UInt64} {db db' : RockDB} {inner : InnerTree} {block : Block}
    (h : replayTo height db = .ok inner db') (hblock : db.getBlockByIndex height = .ok (some block)) :
    TreeAt inner height block.blockHash := by
  obtain ⟨htip, hheight⟩ := replayTo_tip h
  refine ⟨htip, hheight, ?_⟩
  simp only [replayTo, run_bind_eq_ok_iff, lift_eq_ok_iff] at h
  obtain ⟨inner', db₁, hfold, _, _, -, hret⟩ := h
  cases hret
  have hrun := fold_inner hfold
  have hlast : heightsTo height = (List.range height.toNat).map UInt64.ofNat ++ [height] := by
    rw [heightsTo, List.range_succ, List.map_append, List.map_singleton, UInt64.ofNat_toNat]
  rw [hlast, List.foldlM_append, bind_eq_ok_iff] at hrun
  obtain ⟨mid, -, hstep⟩ := hrun
  rw [List.foldlM_cons, bind_eq_ok_iff] at hstep
  obtain ⟨next, hstep, hnil⟩ := hstep
  cases hnil
  simp only [replayInner, bind_eq_ok_iff] at hstep
  obtain ⟨⟨block', remembered⟩, hreplayed, hstep⟩ := hstep
  obtain ⟨hfound, -, rfl⟩ := replayBlock_ok hreplayed
  obtain rfl := Option.some.inj (Except.ok.inj (hblock.symm.trans hfound))
  cases hbytes : db.getBatchBytesByIndex height with
  | none =>
    simp only [hbytes] at hstep
    rw [replayMissingBatch_ok hstep]
    rfl
  | some bytes =>
    simp only [hbytes, bind_eq_ok_iff, pure_eq_ok_iff] at hstep
    obtain ⟨⟨next', batch⟩, hbatch, rfl⟩ := hstep
    simp only [replayBatch, bind_eq_ok_iff, mapErr_eq_ok_iff, pure_eq_ok_iff] at hbatch
    obtain ⟨batch', -, -, -, ⟨mid', outcome⟩, happly, heq⟩ := hbatch
    cases heq
    rw [(applyBatchToState_applied _ _ _ _ _ happly).moves.rest]
    rfl

/-! ### The scan -/

/-- What a height that is passed over changes: at most the hash index. -/
structure PassedOver (s s' : ChainState) : Prop where
  tree : s'.tree = s.tree
  column : ∀ c : ColumnName, c ≠ .blockToHash → s'.db.column c = s.db.column c

omit [Blake3] in
theorem PassedOver.nothingAbove_iff {s s' : ChainState} (h : PassedOver s s') (height : UInt64) :
    s'.db.NothingAbove height ↔ s.db.NothingAbove height := by
  have hblock := h.column .blockmintData (by decide)
  have hbatch := h.column .transactionBatch (by decide)
  have hslot := h.column .canonicalHeightToHash (by decide)
  exact ⟨fun hs' => hs'.congr hblock.symm hbatch.symm hslot.symm, fun hs => hs.congr hblock hbatch hslot⟩

omit [Blake3] in
theorem PassedOver.trans {s s' s'' : ChainState} (h : PassedOver s s') (h' : PassedOver s' s'') :
    PassedOver s s'' :=
  ⟨h'.tree.trans h.tree, fun c hc => (h'.column c hc).trans (h.column c hc)⟩

/-- The tip is moved down: the tree follows it, and what lay above it up to the old tip is gone. -/
theorem rollBackTip_moved {tip height : UInt64} {s s' : ChainState} {block : Block}
    (hlt : height < tip) (h : rollBackTip tip height s = (some true, s'))
    (hblock : s.db.getBlockByIndex height = .ok (some block)) :
    TreeAt s'.tree.inner height block.blockHash ∧
      (s'.db.NothingAbove height ↔ s.db.NothingAbove tip) := by
  unfold rollBackTip at h
  rw [if_pos hlt] at h
  have hcolumns := reloadFromDbToHeight_columns height s
  rcases reload_cases height s with ⟨e, db, hrun⟩ | ⟨inner, db, hreplay, hrun⟩
  · rw [hrun] at h
    cases h
  · rw [hrun] at h hcolumns
    change db.column = s.db.column at hcolumns
    dsimp only at h
    cases htruncate : truncateLegacyCanonicalProjectionAboveTip height tip db with
    | mk ok db₁ =>
      rw [htruncate] at h
      cases ok with
      | false => cases h
      | true =>
        obtain ⟨-, rfl⟩ := Prod.mk.inj h
        refine ⟨replayTo_treeAt hreplay hblock, ?_⟩
        have hreads := truncate_reads hlt htruncate
        let saved := ReorgManager.saveState ⟨db₁, (s.tree.withInner inner).retainPending height⟩
        have hsaved {c : ColumnName} (hc : c ≠ .account) : saved.db.column c = db₁.column c :=
          ReorgManager.saveState_column _ hc
        have hkept (k : UInt64) : saved.db.read .blockmintData (RockDB.blockKey k) =
              (if height < k ∧ k ≤ tip then none else s.db.read .blockmintData (RockDB.blockKey k)) ∧
            saved.db.getBatchBytesByIndex k =
              (if height < k ∧ k ≤ tip then none else s.db.getBatchBytesByIndex k) ∧
            saved.db.slot k = if height < k ∧ k ≤ tip then none else s.db.slot k := by
          obtain ⟨hblocks, hbatches, hslots⟩ := hreads k
          rw [RockDB.read, hsaved (by decide), RockDB.getBatchBytesByIndex_of_column (hsaved (by decide)),
            RockDB.slot_congr (hsaved (by decide))]
          have hread : db.read .blockmintData (RockDB.blockKey k) =
              s.db.read .blockmintData (RockDB.blockKey k) := by
            rw [RockDB.read, RockDB.read, hcolumns]
          rw [hread] at hblocks
          rw [RockDB.getBatchBytesByIndex_of_column (congrFun hcolumns _)] at hbatches
          rw [RockDB.slot_congr (congrFun hcolumns _)] at hslots
          exact ⟨hblocks, hbatches, hslots⟩
        change saved.db.NothingAbove height ↔ _
        constructor
        · intro habove k hk
          have hall := habove k (UInt64.lt_trans hlt hk)
          obtain ⟨hblocks, hbatches, hslots⟩ := hkept k
          have hout : ¬(height < k ∧ k ≤ tip) := fun hin => UInt64.not_le.mpr hk hin.2
          rw [hblocks, hbatches, hslots, if_neg hout, if_neg hout, if_neg hout] at hall
          exact hall
        · intro habove k hk
          obtain ⟨hblocks, hbatches, hslots⟩ := hkept k
          rw [hblocks, hbatches, hslots]
          by_cases hle : k ≤ tip
          · rw [if_pos ⟨hk, hle⟩, if_pos ⟨hk, hle⟩, if_pos ⟨hk, hle⟩]
            exact ⟨rfl, rfl, rfl⟩
          · have hout : ¬(height < k ∧ k ≤ tip) := fun hin => hle hin.2
            rw [if_neg hout, if_neg hout, if_neg hout]
            exact habove k (UInt64.not_le.mp hle)

/-- What became of one height of the scan: it was passed over, given up, or made the tip. -/
inductive HeightOutcome (tip height : UInt64) (s : ChainState) : Option Bool → ChainState → Prop
  | passed {s' : ChainState} (passedOver : PassedOver s s')
    (unusable : ¬height < tip → ∀ block, ¬InPlace s.db height block) : HeightOutcome tip height s none s'
  | refused (s' : ChainState) : HeightOutcome tip height s (some false) s'
  | rolledBack {s' : ChainState} (block : Block) (below : height < tip)
    (pinned : PinnedTip s'.db height block) (tree : TreeAt s'.tree.inner height block.blockHash)
    (above : s'.db.NothingAbove height ↔ s.db.NothingAbove tip) : HeightOutcome tip height s (some true) s'
  | kept {s' : ChainState} (block : Block) (inPlace : InPlace s.db height block)
    (notBelow : ¬height < tip) (pinned : PinnedTip s'.db height block) (tree : s'.tree = s.tree)
    (above : s'.db.NothingAbove height ↔ s.db.NothingAbove height) : HeightOutcome tip height s (some true) s'

/-- A roll back that is not the end of the scan changes nothing. -/
theorem rollBackTip_passed {tip height : UInt64} {s s' : ChainState} (hlt : height < tip)
    (h : rollBackTip tip height s = (none, s')) : PassedOver s s' := by
  unfold rollBackTip at h
  rw [if_pos hlt] at h
  have hcolumns := reloadFromDbToHeight_columns height s
  rcases reload_cases height s with ⟨e, db, hrun⟩ | ⟨inner, db, -, hrun⟩
  · rw [hrun] at h hcolumns
    obtain ⟨-, rfl⟩ := Prod.mk.inj h
    exact ⟨rfl, fun c _ => congrFun hcolumns c⟩
  · rw [hrun] at h
    dsimp only at h
    split at h <;> cases h

/-- A height whose block is found under its hash. -/
theorem indexed_outcome {tip height : UInt64} {s s' : ChainState} {stop : Option Bool} {block : Block}
    {db : RockDB} (hinPlace : InPlace s.db height block) (hindexed : PassedOver s ⟨db, s.tree⟩)
    (hverified : verifyBlockIsHashIndexed db height block.blockHash = true)
    (h : (match rollBackTip tip height ⟨db, s.tree⟩ with
      | (some true, s₁) => (some true, { s₁ with db := pinTip height block.blockHash s₁.db })
      | (stop, s₁) => (stop, s₁)) = (stop, s')) : HeightOutcome tip height s stop s' := by
  have hstored : db.getBlockByIndex height = .ok (some block) := by
    rw [RockDB.getBlockByIndex_of_column (hindexed.column _ (by decide))]
    exact hinPlace.1
  by_cases hlt : height < tip
  · cases hroll : rollBackTip tip height ⟨db, s.tree⟩ with
    | mk stop' s₁ =>
      rw [hroll] at h
      match stop', hroll, h with
      | none, hroll, h =>
        obtain ⟨rfl, rfl⟩ := Prod.mk.inj h
        exact .passed (hindexed.trans (rollBackTip_passed hlt hroll)) fun hnot => absurd hlt hnot
      | some false, _, h =>
        obtain ⟨rfl, rfl⟩ := Prod.mk.inj h
        exact .refused _
      | some true, hroll, h =>
        obtain ⟨rfl, rfl⟩ := Prod.mk.inj h
        obtain ⟨htree, habove⟩ := rollBackTip_moved hlt hroll hstored
        obtain ⟨hread, hhash⟩ := rollBackTip_keeps hroll
        have hstored₁ : s₁.db.getBlockByIndex height = .ok (some block) := by
          rw [RockDB.getBlockByIndex, hread]
          exact hstored
        have hverified₁ : verifyBlockIsHashIndexed s₁.db height block.blockHash = true := by
          unfold verifyBlockIsHashIndexed
          rw [RockDB.getBlockByHash_congr hhash]
          exact hverified
        refine .rolledBack block hlt (pinTip_pinned hstored₁ hverified₁) htree ?_
        calc (pinTip height block.blockHash s₁.db).NothingAbove height
            ↔ s₁.db.NothingAbove height := pinTip_nothingAbove_iff _ _ _
          _ ↔ db.NothingAbove tip := habove
          _ ↔ s.db.NothingAbove tip := hindexed.nothingAbove_iff tip
  · have hroll : rollBackTip tip height ⟨db, s.tree⟩ = (some true, ⟨db, s.tree⟩) := if_neg hlt
    rw [hroll] at h
    obtain ⟨rfl, rfl⟩ := Prod.mk.inj h
    refine .kept block hinPlace hlt (pinTip_pinned hstored hverified) rfl ?_
    exact (pinTip_nothingAbove_iff _ _ _).trans (hindexed.nothingAbove_iff height)

theorem repairAt_outcome {tip height : UInt64} {s s' : ChainState} {stop : Option Bool}
    (h : repairAt tip s height = (stop, s')) : HeightOutcome tip height s stop s' := by
  have hstay : PassedOver s s := ⟨rfl, fun _ _ => rfl⟩
  unfold repairAt at h
  cases hblock : s.db.getBlockByIndex height with
  | error e =>
    rw [hblock] at h
    obtain ⟨rfl, rfl⟩ := Prod.mk.inj h
    refine .passed hstay fun _ block hin => ?_
    rw [InPlace, hblock] at hin
    cases hin.1
  | ok found =>
    cases found with
    | none =>
      rw [hblock] at h
      obtain ⟨rfl, rfl⟩ := Prod.mk.inj h
      refine .passed hstay fun _ block hin => ?_
      rw [InPlace, hblock] at hin
      cases hin.1
    | some block =>
      rw [hblock] at h
      dsimp only at h
      -- any block that is in place there is this one
      have hsame {b : Block} (hin : InPlace s.db height b) : b = block := by
        have hfound := hin.1
        rw [hblock] at hfound
        exact (Option.some.inj (Except.ok.inj hfound)).symm
      cases hbytes : block.serializeForStorage with
      | error e =>
        rw [hbytes] at h
        obtain ⟨rfl, rfl⟩ := Prod.mk.inj h
        refine .passed hstay fun _ b hin => ?_
        obtain rfl := hsame hin
        obtain ⟨-, bytes, hwritten, -⟩ := hin
        rw [hbytes] at hwritten
        cases hwritten
      | ok bytes =>
        rw [hbytes] at h
        dsimp only at h
        have hcolumn := fun c hc => @repairHashIndex_column _ height block.blockHash bytes s.db c hc
        cases hindex : repairHashIndex height block.blockHash bytes s.db with
        | mk ok db =>
          rw [hindex] at h hcolumn
          have hindexed : PassedOver s ⟨db, s.tree⟩ := ⟨rfl, hcolumn⟩
          cases ok with
          | false =>
            obtain ⟨rfl, rfl⟩ := Prod.mk.inj h
            refine .passed hindexed fun _ b hin => ?_
            obtain rfl := hsame hin
            obtain ⟨-, bytes', hwritten, hrepaired⟩ := hin
            rw [hbytes] at hwritten
            obtain rfl := Except.ok.inj hwritten
            rw [hindex] at hrepaired
            cases hrepaired
          | true =>
            have hinPlace : InPlace s.db height block := ⟨hblock, bytes, hbytes, by rw [hindex]⟩
            exact indexed_outcome hinPlace hindexed (repairHashIndex_ok hindex).2 h

theorem scanDown_below {tip : UInt64} {heights : List UInt64} {s s' : ChainState}
    (hbelow : ∀ height ∈ heights, height < tip) (h : scanDown tip heights s = (true, s')) :
    ∃ height block, PinnedTip s'.db height block ∧ TreeAt s'.tree.inner height block.blockHash ∧
      (s'.db.NothingAbove height ↔ s.db.NothingAbove tip) := by
  induction heights generalizing s with
  | nil => cases h
  | cons height heights ih =>
    obtain ⟨hlt, hrest⟩ := List.forall_mem_cons.mp hbelow
    rw [scanDown] at h
    cases hat : repairAt tip s height with
    | mk stop s₁ =>
      rw [hat] at h
      cases repairAt_outcome hat with
      | passed hover =>
        obtain ⟨height', block, hpinned, htree, habove⟩ := ih hrest h
        exact ⟨height', block, hpinned, htree, habove.trans (hover.nothingAbove_iff tip)⟩
      | refused => cases h
      | rolledBack block below hpinned htree habove =>
        cases h
        exact ⟨height, block, hpinned, htree, habove⟩
      | kept block _ hnot => exact absurd hlt hnot

/-- A preflight that succeeds has kept the recorded tip, with the tree as it was, or it has moved the
tip down and the tree with it. -/
theorem repair_outcome {s s' : ChainState} (h : repairFounderRebootTipForMint s = (true, s')) :
    (∃ block, InPlace s.db s.db.getTipHeight block ∧ PinnedTip s'.db s.db.getTipHeight block ∧
      s'.tree = s.tree ∧
      (s'.db.NothingAbove s.db.getTipHeight ↔ s.db.NothingAbove s.db.getTipHeight)) ∨
    (∀ block, ¬InPlace s.db s.db.getTipHeight block) ∧ ∃ height block, PinnedTip s'.db height block ∧
      TreeAt s'.tree.inner height block.blockHash ∧
      (s'.db.NothingAbove height ↔ s.db.NothingAbove s.db.getTipHeight) := by
  unfold repairFounderRebootTipForMint at h
  dsimp only at h
  generalize s.db.getTipHeight = tip at h ⊢
  have hfloor : (saturatingSub tip maxFounderRebootTipRepairScanDepth).toNat ≤ tip.toNat := by
    rw [saturatingSub_toNat]
    exact Nat.sub_le _ _
  obtain ⟨rest, hrest, hbelow⟩ : ∃ rest, (RockDB.heightRange
      (saturatingSub tip maxFounderRebootTipRepairScanDepth) tip).reverse = tip :: rest ∧
      ∀ height ∈ rest, height < tip := heightRange_reverse hfloor
  rw [hrest, scanDown] at h
  have hnot : ¬tip < tip := UInt64.lt_irrefl tip
  cases hat : repairAt tip s tip with
  | mk stop s₁ =>
    rw [hat] at h
    cases repairAt_outcome hat with
    | passed hover hunusable =>
      obtain ⟨height, block, hpinned, htree, habove⟩ := scanDown_below hbelow h
      exact Or.inr ⟨hunusable hnot, height, block, hpinned, htree,
        habove.trans (hover.nothingAbove_iff tip)⟩
    | refused => cases h
    | rolledBack block below => exact absurd below hnot
    | kept block hin _ hpinned htree habove =>
      cases h
      exact Or.inl ⟨block, hin, hpinned, htree, habove⟩

omit [Blake3] in
theorem ConsistentTip.unique {s : ChainState} {height height' : UInt64} {block block' : Block}
    (h : ConsistentTip s height block) (h' : PinnedTip s.db height' block') :
    height = height' ∧ block = block' := by
  obtain rfl := Option.some.inj (h.pinned.tipHeight.symm.trans h'.tipHeight)
  exact ⟨rfl, Option.some.inj (Except.ok.inj (h.pinned.stored.symm.trans h'.stored))⟩

/-- After a preflight that succeeds there is one consistent tip exactly if nothing lay above the
recorded tip, and, where that tip could be kept, the tree was already on it. -/
theorem tip_repair_consistent_iff (s s' : ChainState) (h : repairFounderRebootTipForMint s = (true, s')) :
    (∃ height block, ConsistentTip s' height block) ↔
      s.db.NothingAbove s.db.getTipHeight ∧ ∀ block, InPlace s.db s.db.getTipHeight block →
        TreeAt s.tree.inner s.db.getTipHeight block.blockHash := by
  rcases repair_outcome h with ⟨block, hin, hpinned, htree, habove⟩ |
    ⟨hunusable, height, block, hpinned, htree, habove⟩
  · constructor
    · rintro ⟨height', block', hconsistent⟩
      obtain ⟨rfl, rfl⟩ := hconsistent.unique hpinned
      refine ⟨habove.mp hconsistent.above, fun b hb => ?_⟩
      obtain rfl : block' = b := Option.some.inj (Except.ok.inj (hin.1.symm.trans hb.1))
      rw [← htree]
      exact hconsistent.tree
    · rintro ⟨hnothing, hat⟩
      refine ⟨_, block, hpinned, ?_, habove.mpr hnothing⟩
      rw [htree]
      exact hat block hin
  · constructor
    · rintro ⟨height', block', hconsistent⟩
      obtain ⟨rfl, rfl⟩ := hconsistent.unique hpinned
      exact ⟨habove.mp hconsistent.above, fun b hb => absurd hb (hunusable b)⟩
    · rintro ⟨hnothing, -⟩
      exact ⟨height, block, hpinned, htree, habove.mpr hnothing⟩

end

end OrchestrationEngine

namespace Sample
open OrchestrationEngine

/-- The tree on the genesis block. -/
def genesisTree : AccountModelTree := AccountModelTree.withManager.withInner
  { InnerTree.empty with hasTip := true, tipHeight := 0, tipHash := block0.blockHash }

/-- The node stopped in its first mint, with the block written and the tip not yet. -/
def interruptedDb : RockDB :=
  genesisDb.put .blockmintData (RockDB.blockKey 1) (Block.codec.enc block1)

theorem getBlockByIndex_block0 {db : RockDB}
    (hread : db.read .blockmintData (RockDB.blockKey 0) = some (Block.codec.enc block0)) :
    db.getBlockByIndex 0 = .ok (some block0) := by
  rw [RockDB.getBlockByIndex, hread]
  dsimp only
  rw [signed_block0.stored.2]
  rfl

theorem repair_block0 {s : ChainState} (htip : s.db.getTipHeight = 0)
    (hread : s.db.read .blockmintData (RockDB.blockKey 0) = some (Block.codec.enc block0))
    (hmissing : s.db.getBlockByHash block0.blockHash = none) :
    ∃ s', @repairFounderRebootTipForMint Blake3.reference s = (true, s') := by
  obtain ⟨hbytes, hblock⟩ := signed_block0.stored
  exact ⟨_, @repair_genesis Blake3.reference s block0 _ htip (getBlockByIndex_block0 hread) hbytes
    hblock hmissing rfl⟩

theorem genesisDb_nothingAbove : genesisDb.NothingAbove 0 := by
  intro k hk
  have hne : RockDB.blockKey 0 ≠ RockDB.blockKey k := fun heq =>
    UInt64.ne_of_lt hk (RockDB.blockKey_injective heq)
  refine ⟨?_, rfl, ?_⟩
  · rw [genesisDb, RockDB.setLatestBlockIndex, RockDB.putHeight, RockDB.putHeight,
      RockDB.read_put_of_column_ne _ _ _ _ (by decide),
      RockDB.read_put_of_column_ne _ _ _ _ (by decide), RockDB.read_put_of_key_ne _ _ _ _ hne]
    rfl
  · rfl

end Sample

section
open OrchestrationEngine

/-- A node that holds its genesis block only, in the database and in the tree. -/
theorem genesis_tip_repaired :
    ∃ s', @repairFounderRebootTipForMint Blake3.reference ⟨Sample.genesisDb, Sample.genesisTree⟩ =
        (true, s') ∧ ∃ height block, ConsistentTip s' height block := by
  have htip : Sample.genesisDb.getTipHeight = 0 := by decide +kernel
  obtain ⟨s', hrepair⟩ := @Sample.repair_block0 ⟨Sample.genesisDb, Sample.genesisTree⟩ htip
    (by decide +kernel) (by decide +kernel)
  refine ⟨s', hrepair, (@tip_repair_consistent_iff Blake3.reference _ s' hrepair).mpr ?_⟩
  rw [htip]
  refine ⟨Sample.genesisDb_nothingAbove, fun block hblock => ?_⟩
  have hstored : Sample.genesisDb.getBlockByIndex 0 = .ok (some Sample.block0) :=
    Sample.getBlockByIndex_block0 (by decide +kernel)
  obtain rfl := Option.some.inj (Except.ok.inj (hstored.symm.trans hblock.1))
  exact ⟨rfl, rfl, rfl⟩

/-- The block of the interrupted mint stays above the tip that the preflight accepts. -/
theorem interrupted_tip_repair : ∃ s s', @repairFounderRebootTipForMint Blake3.reference s = (true, s') ∧
    ¬∃ height block, ConsistentTip s' height block := by
  let : Blake3 := Blake3.reference
  have htip : Sample.interruptedDb.getTipHeight = 0 := by decide +kernel
  have hblock1 : Sample.interruptedDb.read .blockmintData (RockDB.blockKey 1) ≠ none := by
    rw [Sample.interruptedDb, RockDB.read_put_self]
    exact Option.some_ne_none _
  obtain ⟨s', hrepair⟩ := @Sample.repair_block0 ⟨Sample.interruptedDb, Sample.genesisTree⟩ htip
    (by decide +kernel) (by decide +kernel)
  refine ⟨_, s', hrepair, ?_⟩
  rintro ⟨height, block, hconsistent⟩
  apply hblock1
  rcases repair_outcome hrepair with ⟨block', -, hpinned, -, habove⟩ |
    ⟨-, height', block', hpinned, -, habove⟩
  · obtain ⟨rfl, rfl⟩ := hconsistent.unique hpinned
    rw [htip] at habove
    exact (habove.mp hconsistent.above 1 (by decide)).1
  · obtain ⟨rfl, rfl⟩ := hconsistent.unique hpinned
    have hnothing := habove.mp hconsistent.above
    rw [htip] at hnothing
    exact (hnothing 1 (by decide)).1

end

end Remzar
