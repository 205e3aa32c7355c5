import Mathlib
import Remzar.Engine
import Remzar.Frames
import Remzar.Production

/-! What a crash inside a mint leaves behind, and what the next preflight makes of it. -/
namespace Remzar
open Std Fallible Effects Checked

namespace OrchestrationEngine

/-! ### The preflight -/

section Truncate

theorem deleteProjectionAt_column (acc : Bool × RockDB) (height : UInt64) {c : ColumnName}
    (hblock : c ≠ .blockmintData) (hbatch : c ≠ .transactionBatch) :
    (deleteProjectionAt acc height).2.column c = acc.2.column c := by
  have hdelete : ∀ (db db' : RockDB) (c' : ColumnName) (key : List UInt8), c ≠ c' →
      db.delete c' key = .ok db' → db'.column c = db.column c := by
    intro db db' c' key hne h
    simp only [RockDB.delete, bind_eq_ok_iff, pure_eq_ok_iff] at h
    obtain ⟨-, -, rfl⟩ := h
    exact db.column_remove_of_ne key hne
  unfold deleteProjectionAt
  cases h : acc.2.delete .blockmintData (RockDB.blockKey height) with
  | ok db =>
    apply Eq.trans (RockDB.column_attemptUpdate _ fun db' h' => hdelete _ _ _ _ hbatch h')
    exact hdelete _ _ _ _ hblock h
  | error e => exact RockDB.column_attemptUpdate _ fun db' h' => hdelete _ _ _ _ hbatch h'

/-- Only the deleted height loses its block. -/
theorem deleteProjectionAt_read (acc : Bool × RockDB) {height kept : UInt64} (hne : height ≠ kept) :
    (deleteProjectionAt acc height).2.read .blockmintData (RockDB.blockKey kept) =
      acc.2.read .blockmintData (RockDB.blockKey kept) := by
  have hbatch : ∀ db : RockDB,
      (attemptUpdate (fun db => db.delete .transactionBatch (batchKey height)) db).column
        .blockmintData = db.column .blockmintData := by
    intro db
    apply RockDB.column_attemptUpdate
    intro db' h
    simp only [RockDB.delete, bind_eq_ok_iff, pure_eq_ok_iff] at h
    obtain ⟨-, -, rfl⟩ := h
    exact db.column_remove_of_ne _ (by decide)
  unfold deleteProjectionAt
  cases h : acc.2.delete .blockmintData (RockDB.blockKey height) with
  | ok db =>
    simp only [RockDB.delete, bind_eq_ok_iff, pure_eq_ok_iff] at h
    obtain ⟨-, -, rfl⟩ := h
    have hkey : RockDB.blockKey height ≠ RockDB.blockKey kept := fun h => hne (RockDB.blockKey_injective h)
    rw [RockDB.read, hbatch]
    change RockDB.read _ _ _ = _
    rw [RockDB.read_remove, if_neg fun h => hkey h.2]
  | error e =>
    rw [RockDB.read, hbatch]
    rfl

theorem heightRange_mem {first last height : UInt64} (h : height ∈ RockDB.heightRange first last) :
    first.toNat ≤ height.toNat := by
  rw [RockDB.heightRange, List.mem_map] at h
  obtain ⟨n, hn, rfl⟩ := h
  rw [List.mem_range'_1] at hn
  have hlast : last.toNat < UInt64.size := last.toNat_lt
  have hsmall : n < UInt64.size := by omega
  rw [UInt64.toNat_ofNat_of_lt' hsmall]
  exact hn.1

/-- Truncation keeps the block of the new tip, and every column but three. -/
theorem truncate_keeps (newTip oldTip : UInt64) (db : RockDB) :
    (truncateLegacyCanonicalProjectionAboveTip newTip oldTip db).2.read .blockmintData
        (RockDB.blockKey newTip) = db.read .blockmintData (RockDB.blockKey newTip) ∧
      ∀ c : ColumnName, c ≠ .blockmintData → c ≠ .transactionBatch → c ≠ .canonicalHeightToHash →
        (truncateLegacyCanonicalProjectionAboveTip newTip oldTip db).2.column c = db.column c := by
  unfold truncateLegacyCanonicalProjectionAboveTip
  split
  · exact ⟨rfl, fun _ _ _ _ => rfl⟩
  · rename_i hlt
    have habove : ∀ h ∈ RockDB.heightRange (saturatingAdd newTip 1) oldTip, h ≠ newTip := by
      intro h hh heq
      have hle := heightRange_mem hh
      have hold := oldTip.toNat_lt
      rw [UInt64.le_iff_toNat_le] at hlt
      rw [saturatingAdd_toNat_of_lt _ _ (by change newTip.toNat + 1 < _; omega), heq] at hle
      change newTip.toNat + 1 ≤ _ at hle
      omega
    have hloop : ∀ (hs : List UInt64) (acc : Bool × RockDB), (∀ h ∈ hs, h ≠ newTip) →
        (hs.foldl deleteProjectionAt acc).2.read .blockmintData (RockDB.blockKey newTip) =
            acc.2.read .blockmintData (RockDB.blockKey newTip) ∧
          ∀ c : ColumnName, c ≠ .blockmintData → c ≠ .transactionBatch →
            (hs.foldl deleteProjectionAt acc).2.column c = acc.2.column c := by
      intro hs
      induction hs with
      | nil => exact fun acc _ => ⟨rfl, fun _ _ _ => rfl⟩
      | cons h hs ih =>
        intro acc hne
        obtain ⟨hread, hcolumn⟩ := ih (deleteProjectionAt acc h)
          fun h' hh' => hne h' (List.mem_cons_of_mem h hh')
        refine ⟨hread.trans (deleteProjectionAt_read acc (hne h List.mem_cons_self)), ?_⟩
        intro c hblock hbatch
        exact (hcolumn c hblock hbatch).trans (deleteProjectionAt_column acc h hblock hbatch)
    obtain ⟨hread, hcolumn⟩ := hloop _ (true, db) habove
    refine ⟨?_, ?_⟩
    · rw [← hread, RockDB.read, RockDB.read]
      exact congrArg (fun m : Column => m[RockDB.blockKey newTip]?)
        (RockDB.column_deleteCanonicalHashRange _ _ _ (by decide))
    · intro c hblock hbatch hslot
      exact (RockDB.column_deleteCanonicalHashRange _ _ _ hslot).trans (hcolumn c hblock hbatch)

end Truncate

theorem markIfKnown_column (hash : Hash) (db : RockDB) {c : ColumnName} (hc : c ≠ .blockMetaByHash) :
    (if ReorgBlockIndex.hasMetaOrFalse hash db then
      attemptUpdate (ReorgBlockIndex.markCanonical hash) db else db).column c = db.column c := by
  split
  · apply RockDB.column_attemptUpdate
    intro db' h
    exact RockDB.column_setBlockMetaStatus h hc
  · rfl

/-- Pinning the tip touches the heights, the canonical view and a status. -/
theorem pinTip_column (height : UInt64) (hash : Hash) (db : RockDB) {c : ColumnName}
    (hglobal : c ≠ .global) (hslot : c ≠ .canonicalHeightToHash) (hview : c ≠ .canonicalChainView)
    (hmeta : c ≠ .blockMetaByHash) : (pinTip height hash db).column c = db.column c := by
  unfold pinTip
  rw [markIfKnown_column _ _ hmeta, RockDB.column_setCanonicalTip _ _ _ hview hglobal,
    RockDB.setCanonicalHashAtHeight, RockDB.column_put_of_ne _ _ _ hslot,
    RockDB.setAddrIndexHeight, RockDB.column_putHeight _ _ _ hglobal, RockDB.setTipHeight,
    RockDB.column_putHeight _ _ _ hglobal, RockDB.setLatestBlockIndex,
    RockDB.column_putHeight _ _ _ hglobal, RockDB.column_putHeight _ _ _ hglobal]

theorem pinTip_recorded (height : UInt64) (hash : Hash) (db : RockDB) :
    (pinTip height hash db).readHeight "tip_height" = some height := by
  unfold pinTip
  rw [RockDB.readHeight_congr (markIfKnown_column _ _ (by decide)), RockDB.setCanonicalTip,
    RockDB.setLatestBlockIndex, RockDB.readHeight_putHeight, if_pos rfl]

section Repair
variable [Blake3]

/-- A tip that can be built on: it is recorded, its block is stored and can be written again,
and the block is found under its hash. -/
structure TipUsable (db : RockDB) (tip : UInt64) (block : Block) : Prop where
  recorded : db.readHeight "tip_height" = some tip
  stored : db.getBlockByIndex tip = .ok (some block)
  writable : ∃ bytes, block.serializeForStorage = .ok bytes
  indexed : verifyBlockIsHashIndexed db tip block.blockHash = true

theorem TipUsable.congr {db db' : RockDB} {tip : UInt64} {block : Block} (h : TipUsable db tip block)
    (hrecorded : db'.readHeight "tip_height" = db.readHeight "tip_height")
    (hblock : db'.read .blockmintData (RockDB.blockKey tip) =
      db.read .blockmintData (RockDB.blockKey tip))
    (hhash : db'.read .blockToHash block.blockHash.toList =
      db.read .blockToHash block.blockHash.toList) : TipUsable db' tip block where
  recorded := hrecorded.trans h.recorded
  stored := by
    rw [RockDB.getBlockByIndex, hblock]
    exact h.stored
  writable := h.writable
  indexed := by
    rw [verifyBlockIsHashIndexed, RockDB.getBlockByHash, hhash]
    exact h.indexed

theorem repairHashIndex_ok {height : UInt64} {hash : Hash} {bytes : List UInt8} {db db' : RockDB}
    (h : repairHashIndex height hash bytes db = (true, db')) :
    db'.column .blockmintData = db.column .blockmintData ∧
      verifyBlockIsHashIndexed db' height hash = true := by
  unfold repairHashIndex at h
  split at h
  · rename_i hverified
    obtain ⟨-, rfl⟩ := Prod.mk.inj h
    exact ⟨rfl, hverified⟩
  · cases hindex : db.indexBlockByHash hash bytes with
    | error e =>
      rw [hindex] at h
      cases h
    | ok db₁ =>
      rw [hindex] at h
      obtain ⟨hverified, rfl⟩ := Prod.mk.inj h
      simp only [RockDB.indexBlockByHash, bind_eq_ok_iff, pure_eq_ok_iff] at hindex
      obtain ⟨-, -, canonical, -, rfl⟩ := hindex
      exact ⟨RockDB.column_put_of_ne db _ _ (by decide), hverified⟩

theorem TipUsable.pinned {db db' : RockDB} {tip : UInt64} {block : Block}
    (hstored : db.getBlockByIndex tip = .ok (some block))
    (hwritable : ∃ bytes, block.serializeForStorage = .ok bytes)
    (hindexed : verifyBlockIsHashIndexed db tip block.blockHash = true)
    (hblock : db'.read .blockmintData (RockDB.blockKey tip) =
      db.read .blockmintData (RockDB.blockKey tip))
    (hhash : db'.column .blockToHash = db.column .blockToHash) :
    TipUsable (pinTip tip block.blockHash db') tip block where
  recorded := pinTip_recorded _ _ _
  stored := by
    have hread : (pinTip tip block.blockHash db').read .blockmintData (RockDB.blockKey tip) =
        db.read .blockmintData (RockDB.blockKey tip) := by
      rw [RockDB.read, pinTip_column _ _ _ (by decide) (by decide) (by decide) (by decide)]
      exact hblock
    rw [RockDB.getBlockByIndex] at hstored ⊢
    rw [hread]
    exact hstored
  writable := hwritable
  indexed := by
    have hcolumn := (pinTip_column tip block.blockHash db' (c := .blockToHash) (by decide)
      (by decide) (by decide) (by decide)).trans hhash
    rw [verifyBlockIsHashIndexed, RockDB.getBlockByHash_congr hcolumn]
    exact hindexed

theorem rollBackTip_keeps {originalTip height : UInt64} {s s' : ChainState}
    (h : rollBackTip originalTip height s = (some true, s')) :
    s'.db.read .blockmintData (RockDB.blockKey height) =
        s.db.read .blockmintData (RockDB.blockKey height) ∧
      s'.db.column .blockToHash = s.db.column .blockToHash := by
  unfold rollBackTip at h
  split at h
  · have hcolumns := reloadFromDbToHeight_columns height s
    cases hreload : reloadFromDbToHeight height s with
    | error e s₁ =>
      rw [hreload] at h
      cases h
    | ok u s₁ =>
      rw [hreload] at h hcolumns
      dsimp only [storeOf] at hcolumns
      obtain ⟨hread, hrest⟩ := truncate_keeps height originalTip s₁.db
      dsimp only at h
      cases htrunc : truncateLegacyCanonicalProjectionAboveTip height originalTip s₁.db with
      | mk ok db =>
        rw [htrunc] at h hread hrest
        cases ok with
        | false => cases h
        | true =>
          obtain ⟨-, rfl⟩ := Prod.mk.inj h
          have hread' : db.read .blockmintData (RockDB.blockKey height) =
              s.db.read .blockmintData (RockDB.blockKey height) := by
            rw [hread, RockDB.read, RockDB.read, hcolumns]
          have hhash : db.column .blockToHash = s.db.column .blockToHash := by
            rw [hrest _ (by decide) (by decide) (by decide), hcolumns]
          refine ⟨?_, ?_⟩
          · rw [← hread', RockDB.read, RockDB.read,
              ReorgManager.saveState_column _ (by decide)]
          · rw [ReorgManager.saveState_column _ (by decide)]
            exact hhash
  · obtain ⟨-, rfl⟩ := Prod.mk.inj h
    exact ⟨rfl, rfl⟩

/-- A height at which the scan stops with success ends up as a usable tip. -/
theorem repairAt_usable {originalTip height : UInt64} {s s' : ChainState}
    (h : repairAt originalTip s height = (some true, s')) :
    ∃ block, TipUsable s'.db height block := by
  unfold repairAt at h
  cases hblock : s.db.getBlockByIndex height with
  | error e =>
    rw [hblock] at h
    cases h
  | ok found =>
    cases found with
    | none =>
      rw [hblock] at h
      cases h
    | some block =>
      rw [hblock] at h
      dsimp only at h
      cases hbytes : block.serializeForStorage with
      | error e =>
        rw [hbytes] at h
        cases h
      | ok bytes =>
        rw [hbytes] at h
        dsimp only at h
        cases hindex : repairHashIndex height block.blockHash bytes s.db with
        | mk ok db =>
          rw [hindex] at h
          cases ok with
          | false => cases h
          | true =>
            dsimp only at h
            obtain ⟨hcolumn, hverified⟩ := repairHashIndex_ok hindex
            cases hroll : rollBackTip originalTip height { s with db := db } with
            | mk stop s₁ =>
              rw [hroll] at h
              match stop, hroll, h with
              | none, _, h => cases h
              | some false, _, h => cases h
              | some true, hroll, h =>
                obtain ⟨hread, hhash⟩ := rollBackTip_keeps hroll
                obtain ⟨-, rfl⟩ := Prod.mk.inj h
                have hstored : db.getBlockByIndex height = .ok (some block) := by
                  rw [RockDB.getBlockByIndex_of_column hcolumn]
                  exact hblock
                exact ⟨block, .pinned hstored ⟨bytes, hbytes⟩ hverified hread hhash⟩

/-- A preflight that succeeds leaves a usable tip. -/
theorem usable_of_repair {s s' : ChainState} (h : repairFounderRebootTipForMint s = (true, s')) :
    ∃ tip block, TipUsable s'.db tip block := by
  have hscan : ∀ (originalTip : UInt64) (heights : List UInt64) (s : ChainState),
      scanDown originalTip heights s = (true, s') → ∃ tip block, TipUsable s'.db tip block := by
    intro originalTip heights
    induction heights with
    | nil =>
      intro s h
      cases h
    | cons height rest ih =>
      intro s h
      rw [scanDown] at h
      cases hat : repairAt originalTip s height with
      | mk stop s₁ =>
        rw [hat] at h
        cases stop with
        | none => exact ih s₁ h
        | some ok =>
          obtain ⟨rfl, rfl⟩ := Prod.mk.inj h
          exact ⟨height, repairAt_usable hat⟩
  exact hscan _ _ _ h

/-- On a usable tip the preflight stops at once and pins it. -/
theorem repair_of_usable {db : RockDB} {tip : UInt64} {block : Block} (h : TipUsable db tip block)
    (tree : AccountModelTree) :
    repairFounderRebootTipForMint ⟨db, tree⟩ = (true, ⟨pinTip tip block.blockHash db, tree⟩) := by
  obtain ⟨bytes, hbytes⟩ := h.writable
  have htip : db.getTipHeight = tip := RockDB.getTipHeight_of_recorded h.recorded
  have hat : repairAt tip ⟨db, tree⟩ tip =
      (some true, ⟨pinTip tip block.blockHash db, tree⟩) := by
    have hroll : rollBackTip tip tip ⟨db, tree⟩ = (some true, ⟨db, tree⟩) :=
      if_neg (UInt64.lt_irrefl tip)
    have hindex : repairHashIndex tip block.blockHash bytes db = (true, db) := if_pos h.indexed
    simp only [repairAt, h.stored, hbytes, hindex, hroll]
  have hhead : ∀ floor : UInt64, floor.toNat ≤ tip.toNat →
      ∃ rest, (RockDB.heightRange floor tip).reverse = tip :: rest := by
    intro floor hle
    refine ⟨((List.range' floor.toNat (tip.toNat-floor.toNat)).map UInt64.ofNat).reverse, ?_⟩
    have hcount : tip.toNat + 1 - floor.toNat = (tip.toNat-floor.toNat) + 1 := by omega
    have hlast : floor.toNat + 1*(tip.toNat-floor.toNat) = tip.toNat := by omega
    rw [RockDB.heightRange, hcount, List.range'_concat, List.map_append, List.reverse_append, hlast]
    simp
  have hfloor : (saturatingSub tip maxFounderRebootTipRepairScanDepth).toNat ≤ tip.toNat := by
    rw [saturatingSub_toNat]
    exact Nat.sub_le _ _
  obtain ⟨rest, hrest⟩ := hhead _ hfloor
  unfold repairFounderRebootTipForMint
  simp only [htip, hrest, scanDown, hat]

end Repair

/-! ### Cutting a mint short -/

section Begun
variable {db dbk : RockDB} {h : UInt64} {hash : Hash}

/-- After one to four writes: the block of height `h` is stored and the tip does not know it. -/
structure Begun (db dbk : RockDB) (h : UInt64) (hash : Hash) : Prop where
  tip : dbk.readHeight "tip_height" = db.readHeight "tip_height"
  block : (dbk.read .blockmintData (RockDB.blockKey h)).isSome
  otherHeights : ∀ h', h' ≠ h →
    dbk.read .blockmintData (RockDB.blockKey h') = db.read .blockmintData (RockDB.blockKey h')
  otherHashes : ∀ hash' : Hash, hash' ≠ hash →
    dbk.read .blockToHash hash'.toList = db.read .blockToHash hash'.toList

theorem Begun.first (db : RockDB) (h : UInt64) (hash : Hash) (bytes : List UInt8) :
    Begun db (db.put .blockmintData (RockDB.blockKey h) bytes) h hash where
  tip := RockDB.readHeight_congr (RockDB.column_put_of_ne db _ _ (by decide)) _
  block := by
    rw [RockDB.read_put_self]
    rfl
  otherHeights := by
    intro h' hne
    have hkey : RockDB.blockKey h ≠ RockDB.blockKey h' := fun heq =>
      hne (RockDB.blockKey_injective heq).symm
    exact RockDB.read_put_of_key_ne _ _ _ _ hkey
  otherHashes := by
    intro hash' _
    exact RockDB.read_put_of_column_ne _ _ _ _ (by decide)

theorem Begun.indexed (hb : Begun db dbk h hash) (bytes : List UInt8) :
    Begun db (dbk.put .blockToHash hash.toList bytes) h hash where
  tip := (RockDB.readHeight_congr (RockDB.column_put_of_ne dbk _ _ (by decide)) _).trans hb.tip
  block := by
    rw [RockDB.read_put_of_column_ne _ _ _ _ (by decide)]
    exact hb.block
  otherHeights := by
    intro h' hne
    rw [RockDB.read_put_of_column_ne _ _ _ _ (by decide)]
    exact hb.otherHeights h' hne
  otherHashes := by
    intro hash' hne
    have hkey : hash.toList ≠ hash'.toList := fun heq => hne (Hash.toList_injective heq).symm
    rw [RockDB.read_put_of_key_ne _ _ _ _ hkey]
    exact hb.otherHashes hash' hne

/-- Writes to other columns change nothing about it, but for the tip height. -/
theorem Begun.put (hb : Begun db dbk h hash) {c : ColumnName} (hblock : c ≠ .blockmintData)
    (hhash : c ≠ .blockToHash) (key value : List UInt8)
    (htip : (dbk.put c key value).readHeight "tip_height" = dbk.readHeight "tip_height") :
    Begun db (dbk.put c key value) h hash where
  tip := htip.trans hb.tip
  block := by
    rw [RockDB.read_put_of_column_ne _ _ _ _ hblock]
    exact hb.block
  otherHeights := by
    intro h' hne
    rw [RockDB.read_put_of_column_ne _ _ _ _ hblock]
    exact hb.otherHeights h' hne
  otherHashes := by
    intro hash' hne
    rw [RockDB.read_put_of_column_ne _ _ _ _ hhash]
    exact hb.otherHashes hash' hne

end Begun

/-- What a mint reads of the database. -/
structure SameForMint (db db' : RockDB) : Prop where
  tip : db'.getTipHeight = db.getTipHeight
  blocks : db'.column .blockmintData = db.column .blockmintData
  hashes : db'.column .blockToHash = db.column .blockToHash
  pending : db'.column .transaction = db.column .transaction

theorem SameForMint.latestHash {db db' : RockDB} (hs : SameForMint db db') :
    db'.getLatestBlockHash = db.getLatestBlockHash := by
  rw [RockDB.getLatestBlockHash, RockDB.getLatestBlockHash, RockDB.getLatestBlock,
    RockDB.getLatestBlock, hs.blocks]

theorem SameForMint.prepare {db db' : RockDB} (hs : SameForMint db db') (builder : BlockchainBuilder)
    (isSynced : Bool) : builder.prepare isSynced false db' = builder.prepare isSynced false db := by
  have hrecords : MemPool.records db' = MemPool.records db := by
    rw [MemPool.records, MemPool.records, hs.pending]
  rw [BlockchainBuilder.prepare, BlockchainBuilder.prepare, BlockchainBuilder.findParent,
    BlockchainBuilder.findParent, hs.tip, hs.latestHash, MemPool.fetchTransactionsForBlock,
    MemPool.fetchTransactionsForBlock, hrecords]

/-- The mempool is untouched until the block is stored. -/
theorem pending_of_stores (db : RockDB) (h : UInt64) (hash : Hash)
    (bytes hashBytes batchBytes : List UInt8) :
    (((((db.put .blockmintData (RockDB.blockKey h) bytes).put .blockToHash hash.toList hashBytes).put
      .transactionBatch (batchKey h) batchBytes).setLatestBlockIndex h).setTipHeight h).column
      .transaction = db.column .transaction := by
  rw [RockDB.setTipHeight, RockDB.column_putHeight _ _ _ (by decide), RockDB.setLatestBlockIndex,
    RockDB.column_putHeight _ _ _ (by decide), RockDB.column_putHeight _ _ _ (by decide),
    RockDB.column_put_of_ne _ _ _ (by decide), RockDB.column_put_of_ne _ _ _ (by decide),
    RockDB.column_put_of_ne _ _ _ (by decide)]

theorem currentBuffer_congr {db db' : RockDB}
    (h : db'.column .transaction = db.column .transaction) :
    MemPool.currentBuffer db' = MemPool.currentBuffer db := by
  rw [MemPool.currentBuffer, MemPool.currentBuffer, MemPool.readMempoolBytesUsed,
    MemPool.readMempoolBytesUsed, MemPool.recomputeMempoolBytesUsed,
    MemPool.recomputeMempoolBytesUsed, MemPool.records, MemPool.records, RockDB.read, RockDB.read, h]

def runWrites (writes : List (RockDB → Fallible RockDB)) (db : RockDB) : Fallible RockDB :=
  writes.foldlM (fun db write => write db) db

theorem runWrites_take {writes : List (RockDB → Fallible RockDB)} {db db' : RockDB}
    (h : runWrites writes db = .ok db') (k : ℕ) : ∃ dbk, runWrites (writes.take k) db = .ok dbk := by
  rw [runWrites, ← List.take_append_drop k writes, List.foldlM_append, bind_eq_ok_iff] at h
  obtain ⟨dbk, hk, -⟩ := h
  exact ⟨dbk, hk⟩

section Crash
variable [Blake3]

/-- The writes of a mint, one by one. -/
def mintWrites (parent : Parent) (c : Candidate) : List (RockDB → Fallible RockDB) :=
  [fun db => db.storeLatestBlock c.blockBytes parent.index,
    fun db => db.indexBlockByHash c.block.blockHash c.blockBytes,
    fun db => db.write .transactionBatch (batchKey parent.index) c.batchBytes,
    fun db => .ok (db.putHeight "latest_block_index" parent.index),
    fun db => .ok (db.putHeight "tip_height" parent.index),
    fun db => .ok (db.setTipHeight parent.index),
    MemPool.removeTransactions c.txKeys]

theorem runWrites_of_persist {parent : Parent} {c : Candidate} {db db' : RockDB}
    (h : BlockchainBuilder.persist parent c db = .ok () db') :
    runWrites (mintWrites parent c) db = .ok db' := by
  obtain ⟨-, -, -, db₁, hstore, db₂, hindex, db₃, hbatch, hremove⟩ := persist_ok_iff.mp h
  simp only [runWrites, mintWrites, List.foldlM_cons, hstore, hindex, hbatch, ok_bind]
  change (MemPool.removeTransactions c.txKeys
    ((db₃.setLatestBlockIndex parent.index).setTipHeight parent.index) >>= pure) = _
  rw [hremove]
  rfl

/-- All the writes together are what `create_new_block` does to the database. -/
theorem createNewBlock_writes {builder : BlockchainBuilder} {isSynced : Bool} {db db' : RockDB}
    {block : Block} (h : builder.createNewBlock isSynced db = .ok block db') :
    ∃ parent c, builder.plan isSynced false db = .ok (parent, c) ∧ c.block = block ∧
      runWrites (mintWrites parent c) db = .ok db' := by
  obtain ⟨p, c, hp, hc, hpersist, hblock⟩ := createNewBlock_ok_iff.mp h
  refine ⟨p.parent, c, ?_, hblock, runWrites_of_persist hpersist⟩
  rw [BlockchainBuilder.plan, hp, ok_bind, hc]
  rfl

/-- The node starts again on what is stored, with a fresh tree, and runs the preflight. -/
def restart (db : RockDB) : ChainState :=
  (repairFounderRebootTipForMint (reloadFromDb ⟨db, AccountModelTree.withManager⟩)).2

/-- Everything about the block of height `h` is there. -/
def Finished (db : RockDB) (h : UInt64) : Prop :=
  db.getTipHeight = h ∧ (db.getBatchBytesByIndex h).isSome ∧
    ∃ block, db.getBlockByIndex h = .ok (some block) ∧ (db.getBlockByHash block.blockHash).isSome

/-- The tip is below `h` and some block of height `h` can still be made. -/
def Repeatable (db : RockDB) (h : UInt64) : Prop :=
  db.getTipHeight.toNat + 1 = h.toNat ∧
    ∃ (builder : BlockchainBuilder) (isSynced : Bool) (block : Block) (db' : RockDB),
      builder.createNewBlock isSynced db = .ok block db' ∧ block.metadata.index = h

def Recovered (db : RockDB) (h : UInt64) : Prop := Finished db h ∨ Repeatable db h

theorem removeTransactions_column {txKeys : List (List UInt8)} {db db' : RockDB}
    (h : MemPool.removeTransactions txKeys db = .ok db') {c : ColumnName} (htx : c ≠ .transaction)
    (hhash : c ≠ .txToHash) : db'.column c = db.column c := by
  simp only [MemPool.removeTransactions, bind_eq_ok_iff, pure_eq_ok_iff] at h
  obtain ⟨current, -, rfl⟩ := h
  rw [RockDB.column_put_of_ne _ _ _ htx]
  have hstep : ∀ (acc : UInt64 × RockDB) (key : List UInt8),
      (MemPool.removeStep db acc key).2.column c = acc.2.column c := by
    intro acc key
    unfold MemPool.removeStep
    split
    · rfl
    · split
      · exact RockDB.column_remove_of_ne _ _ htx
      · rw [RockDB.column_remove_of_ne _ _ htx, RockDB.column_remove_of_ne _ _ hhash]
  have hloop : ∀ (keys : List (List UInt8)) (acc : UInt64 × RockDB),
      (keys.foldl (MemPool.removeStep db) acc).2.column c = acc.2.column c := by
    intro keys
    induction keys with
    | nil => exact fun acc => rfl
    | cons key keys ih => exact fun acc => (ih _).trans (hstep acc key)
  exact hloop _ _

theorem removeTransactions_read {txKeys : List (List UInt8)} {db db' : RockDB}
    (h : MemPool.removeTransactions txKeys db = .ok db') {c : ColumnName} (htx : c ≠ .transaction)
    (hhash : c ≠ .txToHash) (key : List UInt8) : db'.read c key = db.read c key := by
  rw [RockDB.read, RockDB.read, removeTransactions_column h htx hhash]

/-- After five or more: the tip is the block of height `h`, and its batch is stored. -/
structure Landed (dbk : RockDB) (h : UInt64) (block : Block) : Prop where
  usable : TipUsable dbk h block
  batch : (dbk.getBatchBytesByIndex h).isSome

variable {db dbk : RockDB} {h : UInt64} {hash : Hash}

/-- The tip that was usable before stays so. -/
theorem Begun.usable (hb : Begun db dbk h hash) {tip : UInt64} {block : Block}
    (husable : TipUsable db tip block) (htip : tip ≠ h) (hnew : db.getBlockByHash hash = none) :
    TipUsable dbk tip block := by
  have hne : block.blockHash ≠ hash := by
    intro heq
    have hindexed := husable.indexed
    rw [verifyBlockIsHashIndexed, heq, hnew] at hindexed
    cases hindexed
  exact husable.congr hb.tip (hb.otherHeights tip htip) (hb.otherHashes _ hne)

theorem Landed.congr {block : Block} {dbk' : RockDB} (hl : Landed dbk h block)
    (htip : dbk'.readHeight "tip_height" = some h)
    (hcolumn : ∀ c : ColumnName, c ≠ .global → c ≠ .transaction → c ≠ .txToHash →
      dbk'.column c = dbk.column c) : Landed dbk' h block where
  usable := by
    apply hl.usable.congr
    · rw [htip, hl.usable.recorded]
    · rw [RockDB.read, RockDB.read, hcolumn _ (by decide) (by decide) (by decide)]
    · rw [RockDB.read, RockDB.read, hcolumn _ (by decide) (by decide) (by decide)]
  batch := by
    rw [RockDB.getBatchBytesByIndex, RockDB.read, hcolumn _ (by decide) (by decide) (by decide)]
    exact hl.batch

/-- What the builder hands to `persist`. -/
structure Built (db : RockDB) (parent : Parent) (c : Candidate) : Prop where
  tip : parent.tip = db.getTipHeight
  index : parent.index = saturatingAdd db.getTipHeight 1
  height : c.block.metadata.index = parent.index
  bytes : c.block.serializeForStorage = .ok c.blockBytes
  positive : parent.index ≠ 0

theorem Built.of_plan {builder : BlockchainBuilder} {isSynced : Bool} {p : Prepared} {c : Candidate}
    (hp : builder.prepare isSynced false db = .ok p)
    (hc : attemptDropping (builder.attempt p) p.kept.reverse = .ok c) : Built db p.parent c := by
  obtain ⟨hparent, -, -⟩ := prepare_inv hp
  obtain ⟨htip, hpositive, -⟩ := findParent_ok hparent
  obtain ⟨kept, -, hattempt⟩ := attemptDropping_inv _ hc
  obtain ⟨hassemble, -⟩ := attempt_inv hattempt
  obtain ⟨-, leaves, leafRoot, sliceRoot, root, proof, sig, -, -, -, -, -, -, hnew, hbytes⟩ :=
    assemble_inv hassemble
  obtain ⟨-, -, -, canon, -, hblock⟩ := Block.new_ok.mp hnew
  have hindex : p.parent.index = saturatingAdd db.getTipHeight 1 := by
    simp only [BlockchainBuilder.findParent, bind_eq_ok_iff, pure_eq_ok_iff] at hparent
    obtain ⟨-, -, hash, -, -, -, -, -, timestamp, -, -, -, hparent⟩ := hparent
    rw [← hparent]
  refine ⟨htip, hindex, ?_, hbytes, hpositive⟩
  rw [hblock]
  rfl

/-- The block, its hash index, its batch and the heights, in whatever database they are written. -/
theorem Landed.of_writes {parent : Parent} {c : Candidate} (hbuilt : Built db parent c)
    (start : RockDB) :
    Landed (((((start.put .blockmintData (RockDB.blockKey parent.index) c.blockBytes).put .blockToHash
      c.block.blockHash.toList c.blockBytes).put .transactionBatch (batchKey parent.index)
      c.batchBytes).putHeight "latest_block_index" parent.index).putHeight "tip_height" parent.index)
      parent.index c.block := by
  have hread : Block.deserializeFromStorage c.blockBytes = .ok c.block :=
    Block.deserialize_serialize hbuilt.bytes (hbuilt.height ▸ hbuilt.positive)
  have hheights : ∀ (db : RockDB) (c' : ColumnName) (key : List UInt8), ColumnName.global ≠ c' →
      ((db.putHeight "latest_block_index" parent.index).putHeight "tip_height" parent.index).read
        c' key = db.read c' key := by
    intro db c' key hne
    rw [RockDB.putHeight, RockDB.read_put_of_column_ne _ _ _ _ hne, RockDB.putHeight,
      RockDB.read_put_of_column_ne _ _ _ _ hne]
  refine ⟨⟨?_, ?_, ⟨_, hbuilt.bytes⟩, ?_⟩, ?_⟩
  · rw [RockDB.readHeight_putHeight, if_pos rfl]
  · rw [RockDB.getBlockByIndex, hheights _ _ _ (by decide),
      RockDB.read_put_of_column_ne _ _ _ _ (by decide),
      RockDB.read_put_of_column_ne _ _ _ _ (by decide), RockDB.read_put_self]
    simp only [hread, ok_bind]
    rfl
  · rw [verifyBlockIsHashIndexed, RockDB.getBlockByHash, hheights _ _ _ (by decide),
      RockDB.read_put_of_column_ne _ _ _ _ (by decide), RockDB.read_put_self]
    simp only [hread]
    exact decide_eq_true ⟨hbuilt.height, rfl⟩
  · rw [RockDB.getBatchBytesByIndex, hheights _ _ _ (by decide), RockDB.read_put_self]
    rfl

/-- Where a mint stands after its first writes. -/
theorem crash_cases {parent : Parent} {c : Candidate} {db' : RockDB} (hbuilt : Built db parent c)
    (hpersist : BlockchainBuilder.persist parent c db = .ok () db') {k : ℕ}
    (hcrash : runWrites ((mintWrites parent c).take k) db = .ok dbk) :
    (k = 0 ∧ dbk = db) ∨
    ((1 ≤ k ∧ k ≤ 4) ∧ Begun db dbk parent.index c.block.blockHash) ∨
    (5 ≤ k ∧ Landed dbk parent.index c.block) := by
  obtain ⟨-, -, -, db₁, hstore, db₂, hindex, db₃, hbatch, hremove⟩ :=
    persist_ok_iff.mp hpersist
  have hread : Block.deserializeFromStorage c.blockBytes = .ok c.block :=
    Block.deserialize_serialize hbuilt.bytes (hbuilt.height ▸ hbuilt.positive)
  have hdb₁ : db₁ = db.put .blockmintData (RockDB.blockKey parent.index) c.blockBytes := by
    simp only [RockDB.storeLatestBlock, bind_eq_ok_iff, pure_eq_ok_iff] at hstore
    obtain ⟨-, -, -, -, -, -, rfl⟩ := hstore
    rfl
  have hdb₂ : db₂ = db₁.put .blockToHash c.block.blockHash.toList c.blockBytes := by
    rw [RockDB.indexBlockByHash_ok hread hbuilt.bytes] at hindex
    exact (Except.ok.inj hindex).symm
  have hdb₃ : db₃ = db₂.put .transactionBatch (batchKey parent.index) c.batchBytes :=
    ((RockDB.write_eq_ok_iff _ _ _ _ _).mp hbatch).2.symm
  have hbegun₁ : Begun db db₁ parent.index c.block.blockHash := hdb₁ ▸ Begun.first db _ _ _
  have hbegun₂ : Begun db db₂ parent.index c.block.blockHash := hdb₂ ▸ hbegun₁.indexed _
  have hbegun₃ : Begun db db₃ parent.index c.block.blockHash := by
    rw [hdb₃]
    apply hbegun₂.put (by decide) (by decide)
    exact RockDB.readHeight_congr (RockDB.column_put_of_ne _ _ _ (by decide)) _
  have hbegun₄ : Begun db (db₃.putHeight "latest_block_index" parent.index) parent.index
      c.block.blockHash := by
    apply hbegun₃.put (by decide) (by decide)
    change (db₃.putHeight _ _).readHeight _ = _
    rw [RockDB.readHeight_putHeight, if_neg (by decide)]
  have hlanded : Landed ((db₃.putHeight "latest_block_index" parent.index).putHeight "tip_height"
      parent.index) parent.index c.block := hdb₃ ▸ hdb₂ ▸ hdb₁ ▸ Landed.of_writes hbuilt db
  have hagain : Landed (((db₃.putHeight "latest_block_index" parent.index).putHeight "tip_height"
      parent.index).setTipHeight parent.index) parent.index c.block := by
    apply hlanded.congr
    · rw [RockDB.setTipHeight, RockDB.readHeight_putHeight, if_pos rfl]
    · exact fun c' hglobal _ _ => RockDB.column_putHeight _ _ _ hglobal
  have hdone : Landed db' parent.index c.block := by
    apply hagain.congr
    · rw [RockDB.readHeight_congr (removeTransactions_column hremove (by decide) (by decide))]
      exact hagain.usable.recorded
    · exact fun c' _ htx hhash => removeTransactions_column hremove htx hhash
  by_cases hlate : 7 ≤ k
  · rw [List.take_of_length_le hlate] at hcrash
    simp only [runWrites, mintWrites, List.foldlM_cons, hstore, hindex, hbatch, ok_bind] at hcrash
    change (MemPool.removeTransactions c.txKeys
      ((db₃.setLatestBlockIndex parent.index).setTipHeight parent.index) >>= pure) = _ at hcrash
    rw [hremove, ok_bind, pure_eq_ok_iff] at hcrash
    exact .inr (.inr ⟨by omega, hcrash ▸ hdone⟩)
  have hearly := Nat.lt_of_not_le hlate
  clear hlate
  interval_cases k
  · exact .inl ⟨rfl, (Except.ok.inj hcrash).symm⟩
  · simp only [runWrites, mintWrites, List.take_succ_cons, List.take_zero, List.foldlM_cons,
      List.foldlM_nil, hstore, ok_bind, pure_eq_ok_iff] at hcrash
    exact .inr (.inl ⟨⟨by decide, by decide⟩, hcrash ▸ hbegun₁⟩)
  · simp only [runWrites, mintWrites, List.take_succ_cons, List.take_zero, List.foldlM_cons,
      List.foldlM_nil, hstore, hindex, ok_bind, pure_eq_ok_iff] at hcrash
    exact .inr (.inl ⟨⟨by decide, by decide⟩, hcrash ▸ hbegun₂⟩)
  · simp only [runWrites, mintWrites, List.take_succ_cons, List.take_zero, List.foldlM_cons,
      List.foldlM_nil, hstore, hindex, hbatch, ok_bind, pure_eq_ok_iff] at hcrash
    exact .inr (.inl ⟨⟨by decide, by decide⟩, hcrash ▸ hbegun₃⟩)
  · simp only [runWrites, mintWrites, List.take_succ_cons, List.take_zero, List.foldlM_cons,
      List.foldlM_nil, hstore, hindex, hbatch, ok_bind, pure_eq_ok_iff] at hcrash
    exact .inr (.inl ⟨⟨by decide, by decide⟩, hcrash ▸ hbegun₄⟩)
  · simp only [runWrites, mintWrites, List.take_succ_cons, List.take_zero, List.foldlM_cons,
      List.foldlM_nil, hstore, hindex, hbatch, ok_bind, pure_eq_ok_iff] at hcrash
    exact .inr (.inr ⟨by decide, hcrash ▸ hlanded⟩)
  · simp only [runWrites, mintWrites, List.take_succ_cons, List.take_zero, List.foldlM_cons,
      List.foldlM_nil, hstore, hindex, hbatch, ok_bind, pure_eq_ok_iff] at hcrash
    exact .inr (.inr ⟨by decide, hcrash ▸ hagain⟩)

/-- A persisted block stands under its height. -/
theorem persist_stored {parent : Parent} {c : Candidate} {db' : RockDB}
    (hbuilt : Built db parent c) (hpersist : BlockchainBuilder.persist parent c db = .ok () db') :
    (db'.read .blockmintData (RockDB.blockKey parent.index)).isSome := by
  have hwrites : runWrites (mintWrites parent c) db = .ok db' := runWrites_of_persist hpersist
  rcases crash_cases hbuilt hpersist (k := 7) hwrites with ⟨hk, -⟩ | ⟨-, hbegun⟩ | ⟨-, hlanded⟩
  · cases hk
  · exact hbegun.block
  · have hstored := hlanded.usable.stored
    rw [RockDB.getBlockByIndex] at hstored
    cases hread : db'.read .blockmintData (RockDB.blockKey parent.index) with
    | none =>
      rw [hread] at hstored
      cases hstored
    | some data => rfl

/-! ### Starting again -/

/-- On a usable tip a restart ends at that tip, and keeps every column that tip records do not
live in. -/
theorem restart_of_usable {tip : UInt64} {block : Block} (husable : TipUsable db tip block) :
    (restart db).db.getTipHeight = tip ∧
      ∀ c : ColumnName, c ≠ .global → c ≠ .canonicalHeightToHash → c ≠ .canonicalChainView →
        c ≠ .blockMetaByHash → (restart db).db.column c = db.column c := by
  have hcolumns : (reloadFromDb ⟨db, AccountModelTree.withManager⟩).db.column = db.column :=
    reloadFromDbToHeight_columns _ _
  have husable' : TipUsable (reloadFromDb ⟨db, AccountModelTree.withManager⟩).db tip block := by
    apply husable.congr
    · exact RockDB.readHeight_congr (congrFun hcolumns _) _
    · rw [RockDB.read, RockDB.read, hcolumns]
    · rw [RockDB.read, RockDB.read, hcolumns]
  rw [restart, repair_of_usable husable']
  refine ⟨RockDB.getTipHeight_of_recorded (pinTip_recorded _ _ _), ?_⟩
  intro c hglobal hslot hview hmeta
  rw [pinTip_column _ _ _ hglobal hslot hview hmeta, hcolumns]

/-- A mint that succeeds on one database succeeds on any other that reads the same. -/
theorem SameForMint.createNewBlock {db' : RockDB} (hs : SameForMint db db')
    {builder : BlockchainBuilder} {isSynced : Bool} {block : Block} {out : RockDB}
    (hmint : builder.createNewBlock isSynced db = .ok block out) :
    ∃ out', builder.createNewBlock isSynced db' = .ok block out' := by
  obtain ⟨p, c, hp, hc, hpersist, hblock⟩ := createNewBlock_ok_iff.mp hmint
  obtain ⟨hparent, hfree, hnew, db₁, hstore, db₂, hindex, db₃, hbatch, hremove⟩ :=
    persist_ok_iff.mp hpersist
  simp only [RockDB.storeLatestBlock, bind_eq_ok_iff, pure_eq_ok_iff] at hstore
  obtain ⟨_, hrecords, _, hnonempty, _, hsize, rfl⟩ := hstore
  simp only [RockDB.indexBlockByHash, bind_eq_ok_iff, pure_eq_ok_iff] at hindex
  obtain ⟨stored, hread, canonical, hwrite, rfl⟩ := hindex
  obtain ⟨-, rfl⟩ := (RockDB.write_eq_ok_iff _ _ _ _ _).mp hbatch
  simp only [MemPool.removeTransactions, bind_eq_ok_iff, pure_eq_ok_iff] at hremove
  obtain ⟨buffer, hbuffer, -⟩ := hremove
  have hrecords' : db'.batchProcessAll = .ok () :=
    (RockDB.batchProcessAll_congr hs.pending).trans hrecords
  have hparent' : BlockchainBuilder.recheckParent p.parent db' = .ok () := by
    rw [BlockchainBuilder.recheckParent, hs.tip, hs.latestHash]
    exact hparent
  have hstore' : db'.storeLatestBlock c.blockBytes p.parent.index =
      .ok (db'.put .blockmintData (RockDB.blockKey p.parent.index) c.blockBytes) := by
    rw [RockDB.storeLatestBlock, hrecords', ok_bind, hnonempty, ok_bind, hsize]
    rfl
  let stored₁ := db'.put .blockmintData (RockDB.blockKey p.parent.index) c.blockBytes
  let stored₂ := stored₁.put .blockToHash c.block.blockHash.toList canonical
  let stored₃ := stored₂.put .transactionBatch (batchKey p.parent.index) c.batchBytes
  have hindex' : stored₁.indexBlockByHash c.block.blockHash c.blockBytes = .ok stored₂ :=
    RockDB.indexBlockByHash_ok hread hwrite _
  have hbatch' : stored₂.write .transactionBatch (batchKey p.parent.index) c.batchBytes =
      .ok stored₃ := by
    refine (RockDB.write_eq_ok_iff _ _ _ _ _).mpr ⟨?_, rfl⟩
    have hsame : stored₂.column .transaction = db'.column .transaction := by
      rw [RockDB.column_put_of_ne _ _ _ (by decide)]
      exact RockDB.column_put_of_ne _ _ _ (by decide)
    exact (RockDB.batchProcessAll_congr hsame).trans hrecords'
  have hremove' : ∃ out', MemPool.removeTransactions c.txKeys
      ((stored₃.setLatestBlockIndex p.parent.index).setTipHeight p.parent.index) = .ok out' := by
    have hsame := (pending_of_stores db' p.parent.index c.block.blockHash c.blockBytes canonical
      c.batchBytes).trans (hs.pending.trans (pending_of_stores db p.parent.index c.block.blockHash
      c.blockBytes canonical c.batchBytes).symm)
    rw [MemPool.removeTransactions, currentBuffer_congr hsame, hbuffer]
    exact ⟨_, rfl⟩
  obtain ⟨out', hremove'⟩ := hremove'
  refine ⟨out', createNewBlock_ok_iff.mpr ⟨p, c, ?_, hc, ?_, hblock⟩⟩
  · rw [hs.prepare]
    exact hp
  · refine persist_ok_iff.mpr ⟨hparent', ?_, ?_, _, hstore', _, hindex', _, hbatch', hremove'⟩
    · rw [RockDB.read, hs.blocks]
      exact hfree
    · rw [RockDB.getBlockByHash_congr hs.hashes]
      exact hnew

theorem Landed.finished {block : Block} (hl : Landed dbk h block) :
    Finished (restart dbk).db h := by
  obtain ⟨htip, hkept⟩ := restart_of_usable hl.usable
  refine ⟨htip, ?_, block, ?_, ?_⟩
  · rw [RockDB.getBatchBytesByIndex, RockDB.read,
      hkept _ (by decide) (by decide) (by decide) (by decide)]
    exact hl.batch
  · rw [RockDB.getBlockByIndex_of_column (hkept _ (by decide) (by decide) (by decide) (by decide))]
    exact hl.usable.stored
  · rw [RockDB.getBlockByHash_congr (hkept _ (by decide) (by decide) (by decide) (by decide))]
    have hindexed := hl.usable.indexed
    rw [verifyBlockIsHashIndexed] at hindexed
    cases hget : dbk.getBlockByHash block.blockHash with
    | none =>
      rw [hget] at hindexed
      cases hindexed
    | some found => rfl

/-- A height whose block is stored cannot be minted. -/
theorem not_repeatable {db : RockDB} (hblock : (db.read .blockmintData (RockDB.blockKey h)).isSome) :
    ¬Repeatable db h := by
  rintro ⟨htip, builder, isSynced, block, db', hmint, -⟩
  obtain ⟨p, c, hp, hc, hpersist, -⟩ := createNewBlock_ok_iff.mp hmint
  obtain ⟨-, hfree, -⟩ := persist_ok_iff.mp hpersist
  have hbuilt := Built.of_plan hp hc
  have hindex : p.parent.index = h := by
    apply UInt64.toNat_inj.mp
    have hsmall : db.getTipHeight.toNat + (1 : UInt64).toNat < 2^64 := by
      have hlt := h.toNat_lt
      change db.getTipHeight.toNat + 1 < 2^64
      omega
    rw [hbuilt.index, saturatingAdd_toNat_of_lt _ _ hsmall]
    exact htip
  rw [hindex] at hfree
  rw [hfree] at hblock
  cases hblock

/-- A mint that begins on a usable tip. -/
structure Begins (db : RockDB) (parent : Parent) (c : Candidate) (tip : UInt64) (block : Block) :
    Prop where
  built : Built db parent c
  usable : TipUsable db tip block
  free : db.read .blockmintData (RockDB.blockKey parent.index) = none
  new : db.getBlockByHash c.block.blockHash = none

theorem Begins.next {parent : Parent} {c : Candidate} {tip : UInt64} {block : Block}
    (hb : Begins db parent c tip block) : tip.toNat + 1 = parent.index.toNat := by
  have htip : db.getTipHeight = tip := RockDB.getTipHeight_of_recorded hb.usable.recorded
  have hne : tip.toNat ≠ parent.index.toNat := by
    intro heq
    have hstored := hb.usable.stored
    rw [RockDB.getBlockByIndex, UInt64.toNat_inj.mp heq, hb.free] at hstored
    cases hstored
  have hsum := saturatingAdd_toNat tip 1
  rw [← htip, ← hb.built.index, htip] at hsum
  change _ = min (tip.toNat + 1) (2^64 - 1) at hsum
  have hlt := tip.toNat_lt
  omega

/-- Once the block is stored and the tip is not, the height is lost. -/
theorem Begins.not_recovered {parent : Parent} {c : Candidate} {tip : UInt64} {block : Block}
    (hb : Begins db parent c tip block) (hbegun : Begun db dbk parent.index c.block.blockHash) :
    ¬Recovered (restart dbk).db parent.index := by
  have hne : tip ≠ parent.index := by
    intro heq
    have hnext := hb.next
    rw [heq] at hnext
    omega
  obtain ⟨htip, hkept⟩ := restart_of_usable (hbegun.usable hb.usable hne hb.new)
  have hstored : ((restart dbk).db.read .blockmintData (RockDB.blockKey parent.index)).isSome := by
    rw [RockDB.read, hkept _ (by decide) (by decide) (by decide) (by decide)]
    exact hbegun.block
  rintro (hfinished | hrepeat)
  · exact hne (htip.symm.trans hfinished.1)
  · exact not_repeatable hstored hrepeat

/-- With nothing written the same mint succeeds again. -/
theorem Begins.repeatable {parent : Parent} {c : Candidate} {tip : UInt64} {tipBlock block : Block}
    (hb : Begins db parent c tip tipBlock) {builder : BlockchainBuilder} {isSynced : Bool}
    {db' : RockDB} (hmint : builder.createNewBlock isSynced db = .ok block db')
    (hheight : block.metadata.index = parent.index) : Repeatable (restart db).db parent.index := by
  obtain ⟨htip, hkept⟩ := restart_of_usable hb.usable
  have hread : SameForMint db (restart db).db :=
    ⟨htip.trans (RockDB.getTipHeight_of_recorded hb.usable.recorded).symm,
      hkept _ (by decide) (by decide) (by decide) (by decide),
      hkept _ (by decide) (by decide) (by decide) (by decide),
      hkept _ (by decide) (by decide) (by decide) (by decide)⟩
  obtain ⟨out, hagain⟩ := hread.createNewBlock hmint
  exact ⟨htip.symm ▸ hb.next, builder, isSynced, block, out, hagain, hheight⟩

/-- A mint that follows a preflight. -/
theorem begins_of_preflight {s₀ s : ChainState}
    (hpreflight : repairFounderRebootTipForMint s₀ = (true, s)) {builder : BlockchainBuilder}
    {isSynced : Bool} {block : Block} {db' : RockDB}
    (hmint : builder.createNewBlock isSynced s.db = .ok block db') {parent : Parent} {c : Candidate}
    (hplan : builder.plan isSynced false s.db = .ok (parent, c)) :
    (∃ tip tipBlock, Begins s.db parent c tip tipBlock) ∧ block.metadata.index = parent.index ∧
      BlockchainBuilder.persist parent c s.db = .ok () db' := by
  obtain ⟨p, c', hp, hc, hpersist, hblock⟩ := createNewBlock_ok_iff.mp hmint
  have hsame : (p.parent, c') = (parent, c) := by
    rw [BlockchainBuilder.plan, hp, ok_bind, hc] at hplan
    exact Except.ok.inj hplan
  obtain ⟨rfl, rfl⟩ := Prod.mk.inj hsame
  obtain ⟨-, hfree, hnew, -⟩ := persist_ok_iff.mp hpersist
  have hbuilt := Built.of_plan hp hc
  obtain ⟨tip, tipBlock, husable⟩ := usable_of_repair hpreflight
  exact ⟨⟨tip, tipBlock, hbuilt, husable, hfree, hnew⟩, hblock ▸ hbuilt.height, hpersist⟩

/-- A mint cut short after `k` of its writes is recovered by the next preflight exactly when
nothing was written, or the tip height already was: from the first to the fourth write the block
is stored, the tip is below it, and no builder replaces a stored block. -/
theorem mint_crash_recovered_iff (s₀ s : ChainState)
    (hpreflight : repairFounderRebootTipForMint s₀ = (true, s)) (builder : BlockchainBuilder)
    (isSynced : Bool) (block : Block) (db' : RockDB)
    (hmint : builder.createNewBlock isSynced s.db = .ok block db') (parent : Parent) (c : Candidate)
    (hplan : builder.plan isSynced false s.db = .ok (parent, c)) (k : ℕ) (dbk : RockDB)
    (hcrash : runWrites ((mintWrites parent c).take k) s.db = .ok dbk) :
    Recovered (restart dbk).db block.metadata.index ↔ k = 0 ∨ 5 ≤ k := by
  obtain ⟨⟨tip, tipBlock, hb⟩, hheight, hpersist⟩ := begins_of_preflight hpreflight hmint hplan
  rw [hheight]
  rcases crash_cases hb.built hpersist hcrash with ⟨hk, rfl⟩ | ⟨⟨hlow, hhigh⟩, hbegun⟩ | ⟨hk, hlanded⟩
  · exact iff_of_true (.inr (hb.repeatable hmint hheight)) (.inl hk)
  · exact iff_of_false (hb.not_recovered hbegun) (by omega)
  · exact iff_of_true (.inl hlanded.finished) (.inr hk)

end Crash

end OrchestrationEngine

/-- The first preflight of a node that has nothing but a genesis block. -/
theorem OrchestrationEngine.repair_genesis [Blake3] {s : ChainState} {block : Block} {bytes : List UInt8}
    (htip : s.db.getTipHeight = 0) (hblock : s.db.getBlockByIndex 0 = .ok (some block))
    (hbytes : block.serializeForStorage = .ok bytes)
    (hread : Block.deserializeFromStorage bytes = .ok block)
    (hmissing : s.db.getBlockByHash block.blockHash = none) (hindex : block.metadata.index = 0) :
    repairFounderRebootTipForMint s = (true, ⟨pinTip 0 block.blockHash
      (s.db.put .blockToHash block.blockHash.toList bytes), s.tree⟩) := by
  have hheights : (RockDB.heightRange (saturatingSub 0 maxFounderRebootTipRepairScanDepth) 0).reverse =
      [0] := by
    decide
  have hfound : (s.db.put .blockToHash block.blockHash.toList bytes).getBlockByHash block.blockHash =
      some block := by
    rw [RockDB.getBlockByHash_put _ hread, if_pos rfl]
  have hrepair : repairHashIndex 0 block.blockHash bytes s.db =
      (true, s.db.put .blockToHash block.blockHash.toList bytes) := by
    have hverify : verifyBlockIsHashIndexed s.db 0 block.blockHash = false := by
      rw [verifyBlockIsHashIndexed, hmissing]
    rw [repairHashIndex, hverify, RockDB.indexBlockByHash_ok hread hbytes]
    simp only [Bool.false_eq_true, if_false, verifyBlockIsHashIndexed, hfound, hindex, and_self,
      decide_true]
  have hroll : ∀ t, rollBackTip 0 0 t = (some true, t) := fun t => if_neg (by decide)
  rw [repairFounderRebootTipForMint, htip, hheights, scanDown, repairAt, hblock]
  dsimp only
  rw [hbytes]
  dsimp only
  rw [hrepair]
  dsimp only
  rw [hroll]

namespace Sample
open OrchestrationEngine

/-- A node with a genesis block, before and after its first preflight. -/
def booted : ChainState := ⟨genesisDb, AccountModelTree.withManager⟩

def rebooted [Blake3] : ChainState := (repairFounderRebootTipForMint booted).2

/-- The first preflight indexes the genesis block by its hash and pins the tip to it. -/
def pinnedDb : RockDB := pinTip 0 block0.blockHash
  (genesisDb.put .blockToHash block0.blockHash.toList (Block.codec.enc block0))

theorem repair_booted : @repairFounderRebootTipForMint Blake3.reference booted =
    (true, ⟨pinnedDb, AccountModelTree.withManager⟩) := by
  obtain ⟨hbytes, hread⟩ := signed_block0.stored
  have hblock : genesisDb.getBlockByIndex 0 = .ok (some block0) := by
    rw [RockDB.getBlockByIndex, genesisDb, RockDB.setLatestBlockIndex, RockDB.putHeight,
      RockDB.putHeight, RockDB.read_put_of_column_ne _ _ _ _ (by decide),
      RockDB.read_put_of_column_ne _ _ _ _ (by decide), RockDB.read_put_self]
    dsimp only
    rw [hread]
    rfl
  exact @repair_genesis Blake3.reference booted block0 _ (by decide) hblock hbytes hread
    (by decide) rfl

-- Unfolded for any hash: for a concrete one the kernel would run the whole preflight.
theorem rebooted_def [Blake3] : rebooted = (repairFounderRebootTipForMint booted).2 := rfl

theorem rebooted_eq : @rebooted Blake3.reference = ⟨pinnedDb, AccountModelTree.withManager⟩ := by
  rw [@rebooted_def Blake3.reference, repair_booted]

theorem preflight_booted :
    @repairFounderRebootTipForMint Blake3.reference booted = (true, @rebooted Blake3.reference) := by
  rw [rebooted_eq]
  exact repair_booted

theorem createNewBlock_rebooted :
    succeeded (@BlockchainBuilder.createNewBlock Blake3.reference builder true
      (@rebooted Blake3.reference).db) = true := by
  rw [rebooted_eq]
  apply createNewBlock_empty
  · decide
  · have hlast : (pinnedDb.column .blockmintData).toList.getLast? =
        some (RockDB.blockKey 0, Block.codec.enc block0) := by
      decide +kernel
    have hprefix : (asciiBytes "block_").isPrefixOf (RockDB.blockKey 0) = true := by decide
    rw [RockDB.getLatestBlockHash, RockDB.getLatestBlock, hlast]
    dsimp only
    rw [if_pos hprefix, signed_block0.stored.2]
    rfl
  · rfl
  · decide
  · decide

end Sample

section Cut
open OrchestrationEngine

/-- A complete mint is recovered. -/
theorem mint_crash_recovered_at_end :
    ∃ (block : Block) (dbk : RockDB),
      @Recovered Blake3.reference (@restart Blake3.reference dbk).db block.metadata.index ∧
      ∃ (db' : RockDB), @BlockchainBuilder.createNewBlock Blake3.reference Sample.builder true
        (@Sample.rebooted Blake3.reference).db = .ok block db' := by
  let : Blake3 := Blake3.reference
  obtain ⟨block, db', hmint⟩ := (succeeded_iff _).mp Sample.createNewBlock_rebooted
  obtain ⟨parent, c, hplan, -, hwrites⟩ := createNewBlock_writes hmint
  obtain ⟨dbk, hcrash⟩ := runWrites_take hwrites 5
  refine ⟨block, dbk, ?_, db', hmint⟩
  exact (mint_crash_recovered_iff Sample.booted Sample.rebooted Sample.preflight_booted Sample.builder
    true block db' hmint parent c hplan 5 dbk hcrash).mpr (.inr (Nat.le_refl 5))

/-- The node stops after the first write, and its preflight does not help. -/
theorem mint_crash_after_first_write :
    ∃ (s₀ s : ChainState) (block : Block) (db' : RockDB) (parent : Parent) (c : Candidate)
      (dbk : RockDB),
      @repairFounderRebootTipForMint Blake3.reference s₀ = (true, s) ∧
      @BlockchainBuilder.createNewBlock Blake3.reference Sample.builder true s.db = .ok block db' ∧
      @BlockchainBuilder.plan Blake3.reference Sample.builder true false s.db = .ok (parent, c) ∧
      runWrites ((@mintWrites Blake3.reference parent c).take 1) s.db = .ok dbk ∧
      ¬@Recovered Blake3.reference (@restart Blake3.reference dbk).db block.metadata.index := by
  let : Blake3 := Blake3.reference
  obtain ⟨block, db', hmint⟩ := (succeeded_iff _).mp Sample.createNewBlock_rebooted
  obtain ⟨parent, c, hplan, -, hwrites⟩ := createNewBlock_writes hmint
  obtain ⟨dbk, hcrash⟩ := runWrites_take hwrites 1
  obtain ⟨⟨tip, tipBlock, hb⟩, hheight, hpersist⟩ :=
    begins_of_preflight Sample.preflight_booted hmint hplan
  refine ⟨Sample.booted, Sample.rebooted, block, db', parent, c, dbk, Sample.preflight_booted, hmint,
    hplan, hcrash, ?_⟩
  rw [hheight]
  rcases crash_cases hb.built hpersist hcrash with ⟨hk, -⟩ | ⟨-, hbegun⟩ | ⟨hk, -⟩
  · cases hk
  · exact hb.not_recovered hbegun
  · exact absurd hk (by decide)

end Cut

end Remzar
