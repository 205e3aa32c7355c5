import Mathlib
import Remzar.Convergence
import Remzar.Reorganization

/-! Reorganizations that succeed: the canonical projection and the account tree afterwards,
compared with those of a node that only ever saw the new branch. -/
namespace Remzar
open Std Fallible Effects Checked ReFork AccountGuard

/-! ### Replays see blocks and batches only -/

/-- Two databases with the same blocks and batches at every height. -/
structure SameHistory (db db' : RockDB) : Prop where
  blocks : ∀ h, db'.getBlockByIndex h = db.getBlockByIndex h
  batches : ∀ h, db'.getBatchBytesByIndex h = db.getBatchBytesByIndex h

theorem SameHistory.of_columns {db db' : RockDB} (h : db'.column = db.column) : SameHistory db db' where
  blocks := getBlockByIndex_congr h
  batches := getBatchBytesByIndex_congr h

section Replay
variable [Blake3]

/-- The account state of one replayed height, without the NFT records. -/
def replayInner (db : RockDB) (inner : InnerTree) (idx : UInt64) : Fallible InnerTree := do
  let (block, remembered) ← replayBlock db inner idx
  let previousHash := tipPreviousHash inner block
  match db.getBatchBytesByIndex idx with
  | none => replayMissingBatch remembered block idx previousHash
  | some bytes => do
    let (next, _) ← replayBatch remembered block idx previousHash bytes
    return next

theorem replayStep_inner {inner next : InnerTree} {idx : UInt64} {db db' : RockDB}
    (h : replayStep inner idx db = .ok next db') :
    replayInner db inner idx = .ok next ∧ db'.column = db.column := by
  simp only [replayStep, run_bind_eq_ok_iff, lift_eq_ok_iff] at h
  obtain ⟨_, _, hget, ⟨block, remembered⟩, _, ⟨hblock, rfl⟩, h⟩ := h
  cases hget
  rw [replayInner, hblock]
  cases hbytes : db.getBatchBytesByIndex idx with
  | none =>
    simp only [hbytes, lift_eq_ok_iff] at h
    obtain ⟨hmissing, rfl⟩ := h
    exact ⟨hmissing, rfl⟩
  | some bytes =>
    simp only [hbytes, run_bind_eq_ok_iff, lift_eq_ok_iff] at h
    obtain ⟨⟨next', batch⟩, _, ⟨hbatch, rfl⟩, _, db₁, hnft, hret⟩ := h
    cases hret
    refine ⟨?_, ?_⟩
    · simp only [ok_bind, hbatch]
      rfl
    · have hkept := preserves_forM batch.transactions
        (fun kind _ => replayNft_columns (nftContext block) kind db.column) db rfl
      rw [hnft] at hkept
      exact hkept

theorem SameHistory.replayInner {db db' : RockDB} (hs : SameHistory db db') (inner : InnerTree)
    (idx : UInt64) : replayInner db' inner idx = Remzar.replayInner db inner idx := by
  rw [Remzar.replayInner, Remzar.replayInner, replayBlock, replayBlock, hs.blocks, hs.batches]

/-- A replay that gets through has computed the account state height by height. -/
theorem fold_inner {heights : List UInt64} {inner inner' : InnerTree} {db db' : RockDB}
    (h : heights.foldlM replayStep inner db = .ok inner' db') :
    heights.foldlM (replayInner db) inner = .ok inner' := by
  induction heights generalizing inner db with
  | nil =>
    cases h
    rfl
  | cons height heights ih =>
    rw [List.foldlM_cons, run_bind_eq_ok_iff] at h
    obtain ⟨next, db₁, hstep, hrest⟩ := h
    obtain ⟨hinner, hcolumn⟩ := replayStep_inner hstep
    have hsame : replayInner db₁ = replayInner db := by
      funext inner idx
      exact (SameHistory.of_columns hcolumn).replayInner inner idx
    rw [List.foldlM_cons, hinner, ok_bind, ← hsame]
    exact ih hrest

theorem reload_inner {height : UInt64} {s s' : ChainState}
    (h : reloadFromDbToHeight height s = .ok () s') :
    (heightsTo height).foldlM (replayInner s.db) InnerTree.empty = .ok s'.tree.inner := by
  simp only [reloadFromDbToHeight, run_bind_eq_ok_iff] at h
  obtain ⟨inner, s₁, hreplay, hmodify⟩ := h
  cases hmodify
  rw [onDb, zoom] at hreplay
  cases hrun : replayTo height s.db with
  | error e db =>
    rw [hrun] at hreplay
    cases hreplay
  | ok inner' db =>
    rw [hrun] at hreplay
    cases hreplay
    simp only [replayTo, run_bind_eq_ok_iff, lift_eq_ok_iff] at hrun
    obtain ⟨inner'', db', hfold, _, _, ⟨-, rfl⟩, hret⟩ := hrun
    cases hret
    exact fold_inner hfold

end Replay

/-! ### Projections -/

namespace RockDB

theorem getBlockByIndex_put (db : RockDB) {b : Block} {bytes : List UInt8}
    (h : Block.deserializeFromStorage bytes = .ok b) (height height' : UInt64) :
    (db.put .blockmintData (blockKey height) bytes).getBlockByIndex height' =
      if height = height' then .ok (some b) else db.getBlockByIndex height' := by
  by_cases heq : height = height'
  · subst heq
    rw [if_pos rfl, getBlockByIndex, read_put_self]
    simp only [h, ok_bind]
    rfl
  · have hkey : blockKey height ≠ blockKey height' := fun h => heq (blockKey_injective h)
    rw [if_neg heq, getBlockByIndex, read_put_of_key_ne _ _ _ _ hkey]
    rfl

/-- The bytes under a canonical slot. -/
def slot (db : RockDB) (height : UInt64) : Option (List UInt8) :=
  db.read .canonicalHeightToHash (canonicalHeightKey height)

theorem slot_congr {db db' : RockDB}
    (h : db'.column .canonicalHeightToHash = db.column .canonicalHeightToHash) (height : UInt64) :
    db'.slot height = db.slot height := by
  rw [slot, slot, read, read, h]

theorem slot_setCanonicalHashAtHeight (db : RockDB) (height height' : UInt64) (hash : Hash) :
    (db.setCanonicalHashAtHeight height hash).slot height' =
      if height = height' then some hash.toList else db.slot height' := by
  by_cases heq : height = height'
  · subst heq
    rw [if_pos rfl, slot, setCanonicalHashAtHeight, read_put_self]
  · have hkey : canonicalHeightKey height ≠ canonicalHeightKey height' := fun h =>
      heq (canonicalHeightKey_injective h)
    rw [if_neg heq, slot, setCanonicalHashAtHeight, read_put_of_key_ne _ _ _ _ hkey]
    rfl

theorem getBatchBytesByIndex_store (db : RockDB) (height height' : UInt64) (bytes : List UInt8) :
    (db.storeBatchBytes height bytes).getBatchBytesByIndex height' =
      if height = height' then some bytes else db.getBatchBytesByIndex height' := by
  by_cases heq : height = height'
  · subst heq
    rw [if_pos rfl, getBatchBytesByIndex, storeBatchBytes, read_put_self]
  · have hkey : batchKey height ≠ batchKey height' := fun h => heq (batchKey_injective h)
    rw [if_neg heq, getBatchBytesByIndex, storeBatchBytes, read_put_of_key_ne _ _ _ _ hkey]
    rfl

theorem getBatchBytesByIndex_of_column {db db' : RockDB}
    (h : db'.column .transactionBatch = db.column .transactionBatch) (height : UInt64) :
    db'.getBatchBytesByIndex height = db.getBatchBytesByIndex height := by
  rw [getBatchBytesByIndex, getBatchBytesByIndex, read, read, h]

theorem readHeight_setCanonicalTip (db : RockDB) (hash : Hash) (height : UInt64) :
    (db.setCanonicalTip hash height).readHeight "tip_height" = some height ∧
      (db.setCanonicalTip hash height).readHeight "latest_block_index" = some height := by
  refine ⟨?_, ?_⟩
  · rw [setCanonicalTip, setLatestBlockIndex, readHeight_putHeight, if_pos rfl]
  · rw [setCanonicalTip, setLatestBlockIndex, readHeight_putHeight, if_neg (by decide),
      readHeight_putHeight, if_pos rfl]

/-- A slot outside a deleted range stays. -/
theorem slot_deleteCanonicalHashRange (db : RockDB) {first last k : UInt64}
    (h : k < first ∨ last < k) : (db.deleteCanonicalHashRange first last).slot k = db.slot k := by
  have hloop : ∀ (heights : List UInt64) (db : RockDB), (∀ h ∈ heights, h ≠ k) →
      (heights.foldl (fun db h => db.remove .canonicalHeightToHash (canonicalHeightKey h)) db).slot k =
        db.slot k := by
    intro heights
    induction heights with
    | nil => exact fun db _ => rfl
    | cons h heights ih =>
      intro db hne
      rw [List.foldl_cons, ih _ fun h' hmem => hne h' (List.mem_cons_of_mem h hmem), slot, read_remove,
        if_neg]
      · rfl
      · exact fun hkey => hne h List.mem_cons_self (canonicalHeightKey_injective hkey.2)
  apply hloop
  intro h' hmem heq
  subst heq
  rw [heightRange, List.mem_map] at hmem
  obtain ⟨n, hn, hn'⟩ := hmem
  rw [List.mem_range'_1] at hn
  have hlt : last.toNat < UInt64.size := last.toNat_lt
  have hvalue : h'.toNat = n := by
    rw [← hn', UInt64.toNat_ofNat_of_lt' (by omega)]
  rw [UInt64.lt_iff_toNat_lt, UInt64.lt_iff_toNat_lt] at h
  omega

end RockDB

/-- The canonical records of a chain: every height has the chain's block, hash and batch, the tip
is its last block, and nothing stands above. -/
structure Projects (batchOf : Hash → Option (List UInt8)) (chain : List Block) (db : RockDB) :
    Prop where
  slots : ∀ h, db.slot h = chain[h.toNat]?.map fun b : Block => b.blockHash.toList
  blocks : ∀ h, db.getBlockByIndex h = .ok chain[h.toNat]?
  batches : ∀ h, db.getBatchBytesByIndex h =
    chain[h.toNat]?.bind fun b : Block => batchOf b.blockHash
  view : db.getCanonicalTip =
    .ok (chain.getLast?.map fun b : Block => ⟨b.blockHash, b.metadata.index⟩)
  tipHeight : db.readHeight "tip_height" = chain.getLast?.map fun b : Block => b.metadata.index
  latestBlockIndex : db.readHeight "latest_block_index" =
    chain.getLast?.map fun b : Block => b.metadata.index

/-- The columns that the canonical records are read from. -/
def canonicalColumns : List ColumnName :=
  [.canonicalHeightToHash, .blockmintData, .transactionBatch, .canonicalChainView, .global]

theorem Projects.congr {batchOf : Hash → Option (List UInt8)} {chain : List Block} {db db' : RockDB}
    (h : Projects batchOf chain db) (hc : ∀ c ∈ canonicalColumns, db'.column c = db.column c) :
    Projects batchOf chain db' where
  slots height := by rw [RockDB.slot_congr (hc _ (by decide)), h.slots]
  blocks height := by rw [RockDB.getBlockByIndex_of_column (hc _ (by decide)), h.blocks]
  batches height := by rw [RockDB.getBatchBytesByIndex_of_column (hc _ (by decide)), h.batches]
  view := by rw [RockDB.getCanonicalTip_congr (hc _ (by decide)), h.view]
  tipHeight := by rw [RockDB.readHeight_congr (hc _ (by decide)), h.tipHeight]
  latestBlockIndex := by rw [RockDB.readHeight_congr (hc _ (by decide)), h.latestBlockIndex]

/-- A fresh node takes in one block and its batch. -/
def receive (batchOf : Hash → Option (List UInt8)) (db : RockDB) (b : Block) : RockDB :=
  let db := db.put .blockmintData (RockDB.blockKey b.metadata.index) (Block.codec.enc b)
  let db := match batchOf b.blockHash with
    | some bytes => db.storeBatchBytes b.metadata.index bytes
    | none => db
  (db.setCanonicalHashAtHeight b.metadata.index b.blockHash).setCanonicalTip b.blockHash
    b.metadata.index

/-- A node that received a chain and nothing else. -/
def freshDb (batchOf : Hash → Option (List UInt8)) (chain : List Block) : RockDB :=
  chain.foldl (receive batchOf) RockDB.empty

theorem getElem?_concat {chain : List Block} {b : Block} {height : UInt64}
    (hb : b.metadata.index.toNat = chain.length) :
    (chain ++ [b])[height.toNat]? =
      if b.metadata.index = height then some b else chain[height.toNat]? := by
  by_cases heq : b.metadata.index = height
  · rw [if_pos heq, ← heq, hb, List.getElem?_concat_length]
  · have hne : height.toNat ≠ chain.length := by
      intro hlen
      exact heq (UInt64.toNat_inj.mp (hb.trans hlen.symm))
    rw [if_neg heq, List.getElem?_append]
    split
    · rfl
    · rename_i hge
      rw [List.getElem?_singleton, if_neg (by omega), List.getElem?_eq_none (by omega)]

/-- One more block and its batch, in the records of a chain. -/
theorem Projects.receive {batchOf : Hash → Option (List UInt8)} {chain : List Block} {db : RockDB}
    (h : Projects batchOf chain db) {b : Block} (hb : b.metadata.index.toNat = chain.length)
    (hread : Block.deserializeFromStorage (Block.codec.enc b) = .ok b) :
    Projects batchOf (chain ++ [b]) (receive batchOf db b) := by
  have hlast : (chain ++ [b]).getLast? = some b := List.getLast?_concat
  -- Block, batch and slot go to columns of their own; the tip is written last.
  let db₁ := db.put .blockmintData (RockDB.blockKey b.metadata.index) (Block.codec.enc b)
  let db₂ := match batchOf b.blockHash with
    | some bytes => db₁.storeBatchBytes b.metadata.index bytes
    | none => db₁
  let db₃ := db₂.setCanonicalHashAtHeight b.metadata.index b.blockHash
  have hbatch : ∀ c : ColumnName, c ≠ .transactionBatch → db₂.column c = db₁.column c := by
    intro c hc
    change (match batchOf b.blockHash with
      | some bytes => db₁.storeBatchBytes b.metadata.index bytes
      | none => db₁).column c = _
    split
    · exact RockDB.column_put_of_ne _ _ _ hc
    · rfl
  have hslot : ∀ c : ColumnName, c ≠ .canonicalHeightToHash → db₃.column c = db₂.column c :=
    fun c hc => RockDB.column_put_of_ne _ _ _ hc
  have htip : ∀ c : ColumnName, c ≠ .canonicalChainView → c ≠ .global →
      (Remzar.receive batchOf db b).column c = db₃.column c :=
    fun c hview hglobal => RockDB.column_setCanonicalTip _ _ _ hview hglobal
  have hrecorded : (Remzar.receive batchOf db b).readHeight "tip_height" = some b.metadata.index ∧
      (Remzar.receive batchOf db b).readHeight "latest_block_index" = some b.metadata.index :=
    RockDB.readHeight_setCanonicalTip db₃ b.blockHash b.metadata.index
  refine ⟨fun height => ?_, fun height => ?_, fun height => ?_, ?_, ?_, ?_⟩
  · rw [getElem?_concat hb, RockDB.slot_congr (htip _ (by decide) (by decide)),
      RockDB.slot_setCanonicalHashAtHeight]
    split
    · rfl
    · rw [RockDB.slot_congr (hbatch _ (by decide)),
        RockDB.slot_congr (RockDB.column_put_of_ne _ _ _ (by decide)), h.slots]
  · rw [getElem?_concat hb, RockDB.getBlockByIndex_of_column (htip _ (by decide) (by decide)),
      RockDB.getBlockByIndex_of_column (hslot _ (by decide)),
      RockDB.getBlockByIndex_of_column (hbatch _ (by decide)), RockDB.getBlockByIndex_put db hread,
      h.blocks]
    split
    · rfl
    · rfl
  · rw [getElem?_concat hb, RockDB.getBatchBytesByIndex_of_column (htip _ (by decide) (by decide)),
      RockDB.getBatchBytesByIndex_of_column (hslot _ (by decide))]
    have hold : db₁.getBatchBytesByIndex height = db.getBatchBytesByIndex height :=
      RockDB.getBatchBytesByIndex_of_column (RockDB.column_put_of_ne _ _ _ (by decide)) height
    have hnone : b.metadata.index = height → db.getBatchBytesByIndex height = none := by
      intro heq
      rw [h.batches, ← heq, hb, List.getElem?_eq_none (Nat.le_refl _)]
      rfl
    change (match batchOf b.blockHash with
      | some bytes => db₁.storeBatchBytes b.metadata.index bytes
      | none => db₁).getBatchBytesByIndex height = _
    cases hbytes : batchOf b.blockHash with
    | some bytes =>
      rw [RockDB.getBatchBytesByIndex_store, hold]
      split
      · exact hbytes.symm
      · exact h.batches height
    | none =>
      rw [hold]
      split
      · rename_i heq
        rw [hnone heq]
        exact hbytes.symm
      · exact h.batches height
  · rw [hlast]
    exact RockDB.getCanonicalTip_setCanonicalTip db₃ b.blockHash b.metadata.index
  · rw [hlast]
    exact hrecorded.1
  · rw [hlast]
    exact hrecorded.2

/-- A chain of stored blocks from height zero on. -/
structure Branch [Blake3] (db : RockDB) (chain : List Block) : Prop where
  index : ∀ {i : ℕ} {x : Block}, chain[i]? = some x → x.metadata.index.toNat = i
  linked : ∀ {i : ℕ} {p x : Block}, chain[i]? = some p → chain[i+1]? = some x →
    x.metadata.previousHash = p.blockHash
  indexed : ∀ x ∈ chain, db.getBlockByHash x.blockHash = some x
  encoded : ∀ x ∈ chain, ∃ bytes, x.Encoded bytes

theorem Branch.nil [Blake3] (db : RockDB) : Branch db [] where
  index hx := absurd hx (by simp)
  linked hp := absurd hp (by simp)
  indexed := by simp
  encoded := by simp

theorem Branch.congr [Blake3] {db db' : RockDB} {chain : List Block} (h : Branch db chain)
    (hc : db'.column .blockToHash = db.column .blockToHash) : Branch db' chain :=
  ⟨h.index, h.linked, fun x hx => (RockDB.getBlockByHash_congr hc _).trans (h.indexed x hx), h.encoded⟩

/-- One more stored block on top of a branch. -/
theorem Branch.concat [Blake3] {db : RockDB} {chain : List Block} (h : Branch db chain) {b : Block}
    (hindex : b.metadata.index.toNat = chain.length)
    (hlink : ∀ p, chain.getLast? = some p → b.metadata.previousHash = p.blockHash)
    (hget : db.getBlockByHash b.blockHash = some b) (hencoded : ∃ bytes, b.Encoded bytes) :
    Branch db (chain ++ [b]) := by
  have hat : ∀ {i : ℕ} {x : Block}, (chain ++ [b])[i]? = some x →
      chain[i]? = some x ∨ i = chain.length ∧ x = b := by
    intro i x hx
    rcases Nat.lt_trichotomy i chain.length with hlt | rfl | hgt
    · rw [List.getElem?_append_left hlt] at hx
      exact .inl hx
    · rw [List.getElem?_concat_length] at hx
      exact .inr ⟨rfl, (Option.some.inj hx).symm⟩
    · rw [List.getElem?_append_right (by omega), List.getElem?_singleton, if_neg (by omega)] at hx
      cases hx
  refine ⟨fun hx => ?_, fun {i p x} hp hx => ?_, fun x hx => ?_, fun x hx => ?_⟩
  · rcases hat hx with hx | ⟨rfl, rfl⟩
    · exact h.index hx
    · exact hindex
  · have hi : i < chain.length := by
      have hlen := (List.getElem?_eq_some_iff.mp hx).1
      rw [List.length_append, List.length_singleton] at hlen
      omega
    rw [List.getElem?_append_left hi] at hp
    rcases hat hx with hx | ⟨hlast, rfl⟩
    · exact h.linked hp hx
    · apply hlink
      rw [List.getLast?_eq_getElem?, ← hlast]
      exact hp
  · rcases List.mem_append.mp hx with hx | hx
    · exact h.indexed x hx
    · exact List.mem_singleton.mp hx ▸ hget
  · rcases List.mem_append.mp hx with hx | hx
    · exact h.encoded x hx
    · exact List.mem_singleton.mp hx ▸ hencoded

/-- The records of a node that received a branch only. -/
theorem Branch.fresh_projects [Blake3] {db : RockDB} {chain : List Block} (h : Branch db chain)
    (batchOf : Hash → Option (List UInt8)) : Projects batchOf chain (freshDb batchOf chain) := by
  induction chain using List.reverseRecOn with
  | nil => exact ⟨fun _ => rfl, fun _ => rfl, fun _ => rfl, rfl, rfl, rfl⟩
  | append_singleton chain b ih =>
    have hleft : ∀ {i : ℕ} {x : Block}, chain[i]? = some x → (chain ++ [b])[i]? = some x := by
      intro i x hx
      rw [List.getElem?_append_left (List.getElem?_eq_some_iff.mp hx).1]
      exact hx
    have hinit : Branch db chain :=
      ⟨fun hx => h.index (hleft hx), fun hp hx => h.linked (hleft hp) (hleft hx),
        fun x hx => h.indexed x (List.mem_append_left _ hx),
        fun x hx => h.encoded x (List.mem_append_left _ hx)⟩
    have hb : b.metadata.index.toNat = chain.length := h.index List.getElem?_concat_length
    obtain ⟨bytes, hencoded⟩ := h.encoded b (List.mem_append_right _ (List.mem_singleton_self b))
    obtain ⟨-, -, rfl⟩ := Block.serializeForStorage_ok.mp hencoded.write
    rw [freshDb, List.foldl_append]
    exact (ih hinit).receive hb hencoded.read

/-- Metadata is about the block stored beside it. -/
def Described (db : RockDB) : Prop :=
  ∀ (hash : Hash) (m : ForkBlockMeta) (x : Block), db.getBlockMetaByHash hash = .ok (some m) →
    db.getBlockByHash hash = some x → m.parentHash = x.metadata.previousHash ∧ m.height = x.metadata.index

theorem Described.congr {db db' : RockDB} (h : Described db)
    (hmeta : db'.column .blockMetaByHash = db.column .blockMetaByHash)
    (hblock : db'.column .blockToHash = db.column .blockToHash) : Described db' := by
  intro hash m x hm hx
  rw [RockDB.getBlockMetaByHash_congr hmeta] at hm
  rw [RockDB.getBlockByHash_congr hblock] at hx
  exact h hash m x hm hx

/-! ### The plan of a switch -/

namespace Branch
variable [Blake3] {db : RockDB} {chain other : List Block}

theorem bounded (h : Branch db chain) {i : ℕ} {x : Block} (hx : chain[i]? = some x) :
    i ≤ 10000000 := by
  obtain ⟨bytes, hencoded⟩ := h.encoded x (List.mem_of_getElem? hx)
  obtain ⟨hvalid, -⟩ := Block.serializeForStorage_ok.mp hencoded.write
  rw [← h.index hx]
  exact UInt64.le_iff_toNat_le.mp (validate_index hvalid)

/-- A walk down a branch passes its blocks from the top. -/
theorem walk (h : Branch db chain) (hdescribed : Described db) {fuel : ℕ} {path result : BranchPath}
    {i : ℕ} {x : Block} (hx : chain[i]? = some x)
    (hwalk : walkBranch db fuel path x.blockHash = .ok (.complete result)) :
    ∃ k, result = path.reverse ++ (pathOf (chain.take (i+1)).reverse).take k := by
  induction fuel generalizing path i x with
  | zero =>
    refine ⟨0, ?_⟩
    rw [List.take_zero, List.append_nil]
    cases hwalk
    rfl
  | succ fuel ih =>
    have hdown : pathOf (chain.take (i+1)).reverse =
        (x.metadata.index, x.blockHash) :: pathOf (chain.take i).reverse := by
      rw [List.take_add_one, hx, Option.toList_some, List.reverse_append]
      rfl
    rw [walkBranch, bind_eq_ok_iff] at hwalk
    obtain ⟨found, hfound, hwalk⟩ := hwalk
    cases found with
    | none => cases hwalk
    | some m =>
      obtain ⟨hparent, hheight⟩ :=
        hdescribed _ m x hfound (h.indexed x (List.mem_of_getElem? hx))
      dsimp only at hwalk
      rw [hparent, hheight] at hwalk
      split at hwalk
      · refine ⟨1, ?_⟩
        cases hwalk
        rw [hdown, List.reverse_cons, List.take_succ_cons, List.take_zero]
      · rename_i hgoes
        cases i with
        | zero =>
          have hzero : x.metadata.index = 0 := UInt64.toNat_inj.mp (h.index hx)
          exact absurd (.inl hzero) hgoes
        | succ i =>
          have hlt : i < chain.length := Nat.lt_of_succ_lt (List.getElem?_eq_some_iff.mp hx).1
          have hp : chain[i]? = some chain[i] := List.getElem?_eq_getElem hlt
          rw [h.linked hp hx] at hwalk
          split at hwalk
          · cases hwalk
          · rw [bind_eq_ok_iff] at hwalk
            obtain ⟨known, -, hwalk⟩ := hwalk
            split at hwalk
            · obtain ⟨k, hk⟩ := ih hp hwalk
              refine ⟨k+1, ?_⟩
              rw [hk, hdown, List.reverse_cons, List.take_succ_cons, List.append_assoc]
              rfl
            · cases hwalk

theorem buildPath (h : Branch db chain) (hdescribed : Described db) {cfg : ReForkConfig}
    {result : BranchPath} {x : Block} (hx : chain.getLast? = some x)
    (hpath : buildBranchPathFromHash cfg db x.blockHash = .ok (.complete result)) :
    ∃ k, result = (pathOf chain.reverse).take k := by
  rw [buildBranchPathFromHash, bind_eq_ok_iff] at hpath
  obtain ⟨-, -, hwalk⟩ := hpath
  rw [List.getLast?_eq_getElem?] at hx
  obtain ⟨k, hk⟩ := h.walk hdescribed hx hwalk
  refine ⟨k, ?_⟩
  have hlt := (List.getElem?_eq_some_iff.mp hx).1
  have hall : chain.take (chain.length-1+1) = chain := List.take_of_length_le (by omega)
  rw [hk, hall]
  rfl

/-- Branches that share a block by hash share it at one height. -/
theorem same (h : Branch db chain) (ho : Branch db other) {i j : ℕ} {x y : Block}
    (hx : chain[i]? = some x) (hy : other[j]? = some y) (hhash : x.blockHash = y.blockHash) :
    x = y ∧ i = j := by
  have hxy : x = y := by
    have hget := h.indexed x (List.mem_of_getElem? hx)
    rw [hhash, ho.indexed y (List.mem_of_getElem? hy)] at hget
    exact (Option.some.inj hget).symm
  refine ⟨hxy, ?_⟩
  rw [← h.index hx, hxy, ho.index hy]

/-- And everything below it. -/
theorem agree (h : Branch db chain) (ho : Branch db other) {i : ℕ} {x : Block}
    (hx : chain[i]? = some x) (hy : other[i]? = some x) : ∀ j ≤ i, chain[j]? = other[j]? := by
  induction i generalizing x with
  | zero =>
    intro j hj
    obtain rfl := Nat.le_zero.mp hj
    rw [hx, hy]
  | succ i ih =>
    intro j hj
    rcases Nat.le_succ_iff.mp hj with hle | rfl
    · have hlt : i < chain.length := Nat.lt_of_succ_lt (List.getElem?_eq_some_iff.mp hx).1
      have hlt' : i < other.length := Nat.lt_of_succ_lt (List.getElem?_eq_some_iff.mp hy).1
      have hp : chain[i]? = some chain[i] := List.getElem?_eq_getElem hlt
      have hp' : other[i]? = some other[i] := List.getElem?_eq_getElem hlt'
      have hparent : chain[i].blockHash = other[i].blockHash := by
        rw [← h.linked hp hx, ho.linked hp' hy]
      obtain ⟨heq, -⟩ := h.same ho hp hp' hparent
      exact ih hp (heq ▸ hp') j hle
    · rw [hx, hy]

/-- The steps above a block of a branch are the blocks above it. -/
theorem stepsAbove (h : Branch db chain) {i k : ℕ} {x : Block} (hx : chain[i]? = some x)
    (hmet : ∃ step ∈ (pathOf chain.reverse).take k, step.2 = x.blockHash) :
    (ReFork.stepsAbove ((pathOf chain.reverse).take k) x.blockHash).reverse =
      (chain.drop (i+1)).map fun y => ⟨y.metadata.index, y.blockHash⟩ := by
  have hlt := (List.getElem?_eq_some_iff.mp hx).1
  have hcut : chain = chain.take i ++ x :: chain.drop (i+1) := by
    rw [← (List.getElem?_eq_some_iff.mp hx).2, ← List.drop_eq_getElem_cons hlt, List.take_append_drop]
  have hpath : pathOf chain.reverse = pathOf (chain.drop (i+1)).reverse ++
      (x.metadata.index, x.blockHash) :: pathOf (chain.take i).reverse := by
    conv_lhs => rw [hcut, List.reverse_append, List.reverse_cons, List.append_assoc]
    exact List.map_append
  have habove : ∀ step ∈ pathOf (chain.drop (i+1)).reverse, step.2 ≠ x.blockHash := by
    intro step hstep heq
    obtain ⟨y, hy, rfl⟩ := List.mem_map.mp hstep
    obtain ⟨j, hj⟩ := List.mem_iff_getElem?.mp (List.mem_reverse.mp hy)
    rw [List.getElem?_drop] at hj
    obtain ⟨-, hindex⟩ := h.same h hj hx heq
    omega
  rw [hpath] at hmet ⊢
  have hk : (pathOf (chain.drop (i+1)).reverse).length < k := by
    by_contra hle
    obtain ⟨step, hstep, heq⟩ := hmet
    rw [List.take_append_of_le_length (Nat.not_lt.mp hle)] at hstep
    exact habove step (List.mem_of_mem_take hstep) heq
  obtain ⟨m, rfl⟩ := Nat.exists_eq_add_of_lt hk
  rw [Nat.add_assoc, List.take_length_add_append, List.take_succ_cons, ReFork.stepsAbove,
    List.takeWhile_append_of_pos (by simpa using habove), List.takeWhile_cons_of_neg (by simp),
    List.append_nil, pathOf, List.map_reverse, List.map_reverse, List.reverse_reverse, List.map_map]
  rfl

end Branch

/-- A plan from one branch to another that parts from it above height `fork`. -/
structure Switch (chain newChain : List Block) (fork : ℕ) (plan : ReorgPlan) : Prop where
  shared : ∀ i ≤ fork, chain[i]? = newChain[i]?
  common : plan.commonAncestorHeight.toNat = fork
  inside : fork < chain.length ∧ fork < newChain.length
  oldTip : plan.oldTipHeight.toNat + 1 = chain.length
  newTip : newChain.getLast?.map (fun x => (x.metadata.index, x.blockHash)) =
    some (plan.newTipHeight, plan.newTipHash)
  attach : plan.attach = (newChain.drop (fork+1)).map fun y => ⟨y.metadata.index, y.blockHash⟩

/-- Fork choice needs a canonical tip. -/
theorem Projects.nonempty {batchOf : Hash → Option (List UInt8)} {chain : List Block} {db : RockDB}
    (hprojects : Projects batchOf chain db) {tip : UInt64 × Hash × Block} (h : loadCanonicalTipBlock db = .ok tip) :
    ∃ t, chain.getLast? = some t := by
  cases hlast : chain.getLast? with
  | some t => exact ⟨t, rfl⟩
  | none =>
    have hview := hprojects.view
    have hblock := hprojects.blocks db.getTipHeight
    rw [hlast] at hview
    rw [List.getLast?_eq_none_iff.mp hlast, List.getElem?_nil] at hblock
    rw [loadCanonicalTipBlock, ReorgChainView.getTipWithLegacyFallback, hview] at h
    simp only [Option.map_none, ok_bind, hblock] at h
    cases h

section Planning
variable [Blake3] {db : RockDB} {chain newChain : List Block} {cfg : ReForkConfig} {b t : Block}
  {plan : ReorgPlan}

theorem planReorg_switch (hchain : Branch db chain) (hnew : Branch db newChain)
    (ht : chain.getLast? = some t) (hb : newChain.getLast? = some b) {k l : ℕ}
    (h : planReorg cfg b t.metadata.index t.blockHash ((pathOf newChain.reverse).take k)
      ((pathOf chain.reverse).take l) = .reorg plan) : ∃ fork, Switch chain newChain fork plan := by
  unfold planReorg at h
  split at h
  · cases h
  · split at h
    · cases h
    · rename_i commonHeight commonHash hcommon
      dsimp only [computeReorgSteps] at h
      split at h
      · cases h
      · split at h
        · cases h
        · obtain rfl := ForkAction.reorg.inj h
          obtain ⟨hold, hshared⟩ := findCommonAncestor_mem hcommon
          obtain ⟨x, hx, hstep⟩ := List.mem_map.mp (List.mem_of_mem_take hold)
          obtain ⟨other, hmem, hsame⟩ := List.any_eq_true.mp hshared
          have hmet : other.2 = x.blockHash := by
            rw [of_decide_eq_true hsame, ← hstep]
          obtain ⟨y, hy, rfl⟩ := List.mem_map.mp (List.mem_of_mem_take hmem)
          obtain ⟨i, hi⟩ := List.mem_iff_getElem?.mp (List.mem_reverse.mp hx)
          obtain ⟨j, hj⟩ := List.mem_iff_getElem?.mp (List.mem_reverse.mp hy)
          obtain ⟨rfl, rfl⟩ := hnew.same hchain hj hi hmet
          cases hstep
          have hlast : t.metadata.index.toNat + 1 = chain.length := by
            rw [List.getLast?_eq_getElem?] at ht
            have hlt := (List.getElem?_eq_some_iff.mp ht).1
            rw [hchain.index ht]
            omega
          refine ⟨j, hchain.agree hnew hi hj, hchain.index hi, ⟨?_, ?_⟩, hlast, ?_, ?_⟩
          · exact (List.getElem?_eq_some_iff.mp hi).1
          · exact (List.getElem?_eq_some_iff.mp hj).1
          · rw [hb]
            rfl
          · exact hnew.stepsAbove hj ⟨_, hmem, rfl⟩

theorem onNewBlock_switch {batchOf : Hash → Option (List UInt8)} (hdescribed : Described db)
    (hchain : Branch db chain) (hnew : Branch db newChain) (hprojects : Projects batchOf chain db)
    (hb : newChain.getLast? = some b) (h : onNewBlock cfg b db = .ok (.reorg plan)) :
    ∃ fork, Switch chain newChain fork plan := by
  obtain ⟨oldHeight, oldHash, tipBlock, newPath, oldPath, hload, hnewPath, holdPath, hplan⟩ :=
    onNewBlock_reorg_inv h
  obtain ⟨t, ht⟩ := hprojects.nonempty hload
  have hview : db.getCanonicalTip = .ok (some ⟨t.blockHash, t.metadata.index⟩) := by
    rw [hprojects.view, ht]
    rfl
  have htip : loadCanonicalTipBlock db = .ok (t.metadata.index, t.blockHash, t) := by
    rw [loadCanonicalTipBlock, ReorgChainView.getTipWithLegacyFallback, hview]
    simp only [ok_bind, pure_bind_ok, hchain.indexed t (List.mem_of_getLast? ht), okOr]
    rfl
  obtain ⟨rfl, rfl, rfl⟩ : oldHeight = t.metadata.index ∧ oldHash = t.blockHash ∧ tipBlock = t := by
    rw [htip] at hload
    cases hload
    exact ⟨rfl, rfl, rfl⟩
  obtain ⟨k, rfl⟩ := hnew.buildPath hdescribed hb hnewPath
  obtain ⟨l, rfl⟩ := hchain.buildPath hdescribed ht holdPath
  exact planReorg_switch hchain hnew ht hb hplan

end Planning

/-! ### Carrying it out -/

/-- Batches move height by height, where they are stored by hash. -/
theorem remap_reads {newChain : List Block} (hindex : ∀ {i : ℕ} {x : Block}, newChain[i]? = some x →
      x.metadata.index.toNat = i) {n : ℕ} (hn : n ≤ newChain.length) (db : RockDB) (h : UInt64) :
    (ReorgBatchIndex.remapCanonicalBatchesBestEffort
      ((newChain.drop n).map fun y => (y.metadata.index, y.blockHash)) db).getBatchBytesByIndex h =
      if n ≤ h.toNat then
        (newChain[h.toNat]?.bind fun x => db.getBatchByBlockHash x.blockHash).or
          (db.getBatchBytesByIndex h)
      else db.getBatchBytesByIndex h := by
  obtain ⟨m, hm⟩ := Nat.exists_eq_add_of_le hn
  induction m generalizing n db with
  | zero =>
    rw [List.drop_of_length_le (by omega)]
    change db.getBatchBytesByIndex h = _
    split
    · rw [List.getElem?_eq_none (by omega)]
      rfl
    · rfl
  | succ m ih =>
    have hlt : n < newChain.length := by omega
    have hx : newChain[n]? = some newChain[n] := List.getElem?_eq_getElem hlt
    rw [List.drop_eq_getElem_cons hlt]
    -- The first step, and then the rest from the height above.
    let db₁ := match db.getBatchByBlockHash newChain[n].blockHash with
      | some bytes => db.storeBatchBytes newChain[n].metadata.index bytes
      | none => db
    change (ReorgBatchIndex.remapCanonicalBatchesBestEffort
      ((newChain.drop (n+1)).map fun y => (y.metadata.index, y.blockHash)) db₁).getBatchBytesByIndex h = _
    have hkeyed : ∀ hash, db₁.getBatchByBlockHash hash = db.getBatchByBlockHash hash := by
      intro hash
      change (match db.getBatchByBlockHash newChain[n].blockHash with
        | some bytes => db.storeBatchBytes newChain[n].metadata.index bytes
        | none => db).getBatchByBlockHash hash = _
      split
      · exact RockDB.read_put_of_column_ne _ _ _ _ (by decide)
      · rfl
    have hfirst : db₁.getBatchBytesByIndex h = if h.toNat = n then
        (db.getBatchByBlockHash newChain[n].blockHash).or (db.getBatchBytesByIndex h)
        else db.getBatchBytesByIndex h := by
      have hiff : newChain[n].metadata.index = h ↔ h.toNat = n := by
        rw [← UInt64.toNat_inj, hindex hx]
        exact eq_comm
      change (match db.getBatchByBlockHash newChain[n].blockHash with
        | some bytes => db.storeBatchBytes newChain[n].metadata.index bytes
        | none => db).getBatchBytesByIndex h = _
      cases db.getBatchByBlockHash newChain[n].blockHash with
      | some bytes =>
        rw [RockDB.getBatchBytesByIndex_store]
        simp only [hiff]
        rfl
      | none => rw [Option.none_or, ite_self]
    rw [ih hlt db₁ (by omega), hfirst]
    simp only [hkeyed]
    by_cases heq : h.toNat = n
    · rw [if_neg (by omega), if_pos heq, if_pos (by omega), heq, hx]
      rfl
    · by_cases hle : n+1 ≤ h.toNat
      · rw [if_pos hle, if_neg heq, if_pos (by omega)]
      · rw [if_neg hle, if_neg heq, if_neg (by omega)]

section Carrying
variable [Blake3] {db db' pre : RockDB} {newChain : List Block} {x : Block}

/-- What attaching a block does to the records of the node. -/
theorem attachStep_reads {bytes : List UInt8} (hget : db.getBlockByHash x.blockHash = some x)
    (hencoded : x.Encoded bytes)
    (h : attachStep ⟨x.metadata.index, x.blockHash⟩ db = .ok () db') :
    (∀ height, db'.slot height = if x.metadata.index = height then some x.blockHash.toList
      else db.slot height) ∧
    (∀ height, db'.getBlockByIndex height = if x.metadata.index = height then .ok (some x)
      else db.getBlockByIndex height) ∧
    (∀ hash, db'.getBlockByHash hash = db.getBlockByHash hash) ∧
    ∀ c : ColumnName, c ≠ .blockToHash → c ≠ .blockMetaByHash → c ≠ .blockmintData →
      c ≠ .canonicalHeightToHash → db'.column c = db.column c := by
  simp only [attachStep, run_bind_eq_ok_iff, lift_eq_ok_iff, update_eq_ok_iff, okOr_eq_ok_iff,
    rejectIf_eq_ok_iff] at h
  obtain ⟨_, _, hstart, x', _, ⟨hget', rfl⟩, _, _, ⟨-, rfl⟩, bytes', _, ⟨hwrite, rfl⟩, _, db₁,
    hindex, _, db₂, hstore, _, db₃, hslot, hpromote⟩ := h
  cases hstart
  cases hslot
  obtain rfl : x' = x := by
    rw [hget] at hget'
    exact (Option.some.inj hget').symm
  obtain rfl : bytes' = bytes := by
    rw [hencoded.write] at hwrite
    exact (Except.ok.inj hwrite).symm
  rw [RockDB.indexBlockByHash_ok hencoded.read hencoded.write] at hindex
  obtain rfl := Except.ok.inj hindex
  simp only [RockDB.storeLatestBlock, bind_eq_ok_iff, pure_eq_ok_iff] at hstore
  obtain ⟨-, -, -, -, -, -, rfl⟩ := hstore
  have hlast : ∀ c : ColumnName, c ≠ .blockMetaByHash → db'.column c = (RockDB.setCanonicalHashAtHeight
      ((db.put .blockToHash x'.blockHash.toList bytes').put .blockmintData
        (RockDB.blockKey x'.metadata.index) bytes') x'.metadata.index x'.blockHash).column c := by
    intro c hc
    unfold promote at hpromote
    split at hpromote
    · exact RockDB.column_setBlockMetaStatus hpromote hc
    · exact congrArg (fun db : RockDB => db.column c) (Except.ok.inj hpromote).symm
  refine ⟨fun height => ?_, fun height => ?_, fun hash => ?_, fun c hhash hmeta hmint hheight => ?_⟩
  · rw [RockDB.slot_congr (hlast _ (by decide)), RockDB.slot_setCanonicalHashAtHeight,
      RockDB.slot_congr (RockDB.column_put_of_ne _ _ _ (by decide)),
      RockDB.slot_congr (RockDB.column_put_of_ne _ _ _ (by decide))]
  · rw [RockDB.getBlockByIndex_of_column (hlast _ (by decide)), RockDB.setCanonicalHashAtHeight,
      RockDB.getBlockByIndex_of_column (RockDB.column_put_of_ne _ _ _ (by decide)),
      RockDB.getBlockByIndex_put _ hencoded.read,
      RockDB.getBlockByIndex_of_column (RockDB.column_put_of_ne _ _ _ (by decide))]
  · rw [RockDB.getBlockByHash_congr (hlast _ (by decide)), RockDB.setCanonicalHashAtHeight,
      RockDB.getBlockByHash_congr (RockDB.column_put_of_ne _ _ _ (by decide)),
      RockDB.getBlockByHash_congr (RockDB.column_put_of_ne _ _ _ (by decide)),
      RockDB.getBlockByHash_put _ hencoded.read]
    by_cases heq : x'.blockHash = hash
    · rw [if_pos heq, ← heq, hget]
    · rw [if_neg heq]
  · rw [hlast c hmeta, RockDB.setCanonicalHashAtHeight, RockDB.column_put_of_ne _ _ _ hheight,
      RockDB.column_put_of_ne _ _ _ hmint, RockDB.column_put_of_ne _ _ _ hhash]

/-- The first `n` blocks of the new branch are in place; above, the records are still those of
`pre`. -/
structure AttachedTo (pre : RockDB) (newChain : List Block) (n : ℕ) (db : RockDB) : Prop where
  slots : ∀ h : UInt64, db.slot h = if h.toNat < n then
    newChain[h.toNat]?.map (fun x => x.blockHash.toList) else pre.slot h
  blocks : ∀ h : UInt64, db.getBlockByIndex h = if h.toNat < n then .ok newChain[h.toNat]?
    else pre.getBlockByIndex h
  indexed : ∀ hash, db.getBlockByHash hash = pre.getBlockByHash hash
  columns : ∀ c : ColumnName, c ≠ .blockToHash → c ≠ .blockMetaByHash → c ≠ .blockmintData →
    c ≠ .canonicalHeightToHash → db.column c = pre.column c

theorem AttachedTo.attach {n : ℕ} {bytes : List UInt8} (h : AttachedTo pre newChain n db)
    (hx : newChain[n]? = some x) (hindex : x.metadata.index.toNat = n)
    (hget : pre.getBlockByHash x.blockHash = some x) (hencoded : x.Encoded bytes)
    (hattach : attachStep ⟨x.metadata.index, x.blockHash⟩ db = .ok () db') :
    AttachedTo pre newChain (n+1) db' := by
  obtain ⟨hslots, hblocks, hindexed, hcolumns⟩ :=
    attachStep_reads ((h.indexed _).trans hget) hencoded hattach
  have hat : ∀ {height : UInt64}, x.metadata.index = height → height.toNat = n :=
    fun heq => heq ▸ hindex
  have hnot : ∀ {height : UInt64}, x.metadata.index ≠ height → height.toNat ≠ n :=
    fun hne heq => hne (UInt64.toNat_inj.mp (hindex.trans heq.symm))
  refine ⟨fun height => ?_, fun height => ?_, fun hash => (hindexed hash).trans (h.indexed hash),
    fun c h₁ h₂ h₃ h₄ => (hcolumns c h₁ h₂ h₃ h₄).trans (h.columns c h₁ h₂ h₃ h₄)⟩
  · rw [hslots, h.slots]
    by_cases heq : x.metadata.index = height
    · have hn := hat heq
      rw [if_pos heq, if_pos (by omega), hn, hx]
      rfl
    · have hn := hnot heq
      rw [if_neg heq]
      by_cases hlt : height.toNat < n
      · rw [if_pos hlt, if_pos (by omega)]
      · rw [if_neg hlt, if_neg (by omega)]
  · rw [hblocks, h.blocks]
    by_cases heq : x.metadata.index = height
    · have hn := hat heq
      rw [if_pos heq, if_pos (by omega), hn, hx]
    · have hn := hnot heq
      rw [if_neg heq]
      by_cases hlt : height.toNat < n
      · rw [if_pos hlt, if_pos (by omega)]
      · rw [if_neg hlt, if_neg (by omega)]

/-- The attaching loop, from the first height that it fills. -/
theorem AttachedTo.attachAll (hnew : Branch pre newChain) {n : ℕ} (hn : n ≤ newChain.length)
    (h : AttachedTo pre newChain n db)
    (hattach : ((newChain.drop n).map fun y => (⟨y.metadata.index, y.blockHash⟩ : ReorgStep)).forM
      attachStep db = .ok () db') : AttachedTo pre newChain newChain.length db' := by
  obtain ⟨m, hm⟩ := Nat.exists_eq_add_of_le hn
  induction m generalizing n db with
  | zero =>
    rw [List.drop_of_length_le (by omega)] at hattach
    cases hattach
    rw [hm]
    exact h
  | succ m ih =>
    have hlt : n < newChain.length := by omega
    have hx : newChain[n]? = some newChain[n] := List.getElem?_eq_getElem hlt
    rw [List.drop_eq_getElem_cons hlt] at hattach
    change (attachStep _ >>= fun _ => List.forM _ attachStep) db = _ at hattach
    rw [run_bind_eq_ok_iff] at hattach
    obtain ⟨_, db₁, hfirst, hrest⟩ := hattach
    obtain ⟨bytes, hencoded⟩ := hnew.encoded _ (List.mem_of_getElem? hx)
    exact ih hlt (h.attach hx (hnew.index hx) (hnew.indexed _ (List.mem_of_getElem? hx)) hencoded
      hfirst) hrest (by omega)

theorem preserveOldBlock_indexed (oldBlock : Option Block) {hash : Hash}
    (h : db.getBlockByHash hash = some x) :
    (preserveOldBlock oldBlock db).getBlockByHash hash = some x := by
  unfold preserveOldBlock
  split
  · exact h
  · rename_i old
    split
    · exact h
    · rename_i hmissing
      have hne : old.blockHash ≠ hash := by
        rintro rfl
        exact hmissing (RockDB.hasBlockByHash_of_get h)
      split
      · exact h
      · split
        · rename_i hindex
          obtain ⟨canonical, rfl⟩ := indexBlockByHash_inv hindex
          have hkey : old.blockHash.toList ≠ hash.toList := fun heq => hne (Hash.toList_injective heq)
          rw [RockDB.getBlockByHash, RockDB.read_put_of_key_ne _ _ _ _ hkey]
          exact h
        · exact h

/-- Detaching keeps every block that is stored by hash. -/
theorem detach_indexed (steps : List ReorgStep) (hash : Hash) :
    Preserves (fun db : RockDB => db.getBlockByHash hash = some x) (steps.forM detachStep) := by
  refine preserves_forM steps fun step _ => ?_
  refine preserves_bind (fun db hdb => hdb) fun db => ?_
  refine preserves_bind (preserves_lift _) fun oldBlock => ?_
  intro db hdb
  change (demote step.hash (preserveOldBlock oldBlock db)).getBlockByHash hash = some x
  rw [RockDB.getBlockByHash_congr (demote_column _ _ (by decide))]
  exact preserveOldBlock_indexed oldBlock hdb

/-- The records after a switch: the new branch up to its tip, whatever stood above it, and of the
batches those that are stored by hash. -/
structure Moved (chain newChain : List Block) (fork : ℕ) (pre db : RockDB) : Prop where
  slots : ∀ h, db.slot h = newChain[h.toNat]?.map fun b : Block => b.blockHash.toList
  blocks : ∀ h, db.getBlockByIndex h =
    .ok (if h.toNat < newChain.length then newChain[h.toNat]? else chain[h.toNat]?)
  batches : ∀ h, db.getBatchBytesByIndex h = if fork+1 ≤ h.toNat then
      (newChain[h.toNat]?.bind fun x => pre.getBatchByBlockHash x.blockHash).or
        (pre.getBatchBytesByIndex h)
    else pre.getBatchBytesByIndex h
  view : db.getCanonicalTip =
    .ok (newChain.getLast?.map fun b : Block => ⟨b.blockHash, b.metadata.index⟩)
  tipHeight : db.readHeight "tip_height" = newChain.getLast?.map fun b : Block => b.metadata.index
  latestBlockIndex : db.readHeight "latest_block_index" =
    newChain.getLast?.map fun b : Block => b.metadata.index

/-- The database once the old branch is detached and its slots are deleted: the blocks below the
fork are those of both branches, and the slots above it are empty. -/
structure DetachedFrom (chain newChain : List Block) (fork : ℕ) (pre db : RockDB) : Prop where
  branch : Branch db newChain
  attached : AttachedTo db newChain (fork+1) db
  slots : ∀ h : UInt64, fork+1 ≤ h.toNat → db.slot h = none
  blocks : ∀ h, db.getBlockByIndex h = .ok chain[h.toNat]?
  columns : ∀ c : ColumnName, c ≠ .blockToHash → c ≠ .blockMetaByHash → c ≠ .canonicalHeightToHash →
    db.column c = pre.column c

theorem Switch.detach {batchOf : Hash → Option (List UInt8)} {chain : List Block} {fork : ℕ}
    {plan : ReorgPlan} (hswitch : Switch chain newChain fork plan) (hnew : Branch pre newChain)
    (hprojects : Projects batchOf chain pre) (h : plan.detach.forM detachStep pre = .ok () db) :
    DetachedFrom chain newChain fork pre (db.deleteCanonicalHashRange
      (saturatingAdd plan.commonAncestorHeight 1) plan.oldTipHeight) := by
  have hdetached : ∀ c : ColumnName, c ≠ .blockToHash → c ≠ .blockMetaByHash →
      db.column c = pre.column c := by
    intro c hhash hmeta
    have hloop := preserves_forM plan.detach
      (fun step _ => detachStep_column step hhash hmeta (pre.column c)) pre rfl
    rw [h] at hloop
    exact hloop
  have hindexed : ∀ x ∈ newChain, db.getBlockByHash x.blockHash = some x := by
    intro x hx
    have hloop := detach_indexed plan.detach x.blockHash pre (hnew.indexed x hx)
    rw [h] at hloop
    exact hloop
  have hfirst : (saturatingAdd plan.commonAncestorHeight 1).toNat = fork+1 := by
    have hbound := hnew.bounded (List.getElem?_eq_getElem hswitch.inside.2)
    have hcommon := hswitch.common
    have hone : (1 : UInt64).toNat = 1 := rfl
    rw [saturatingAdd_toNat_of_lt _ _ (by omega), hcommon, hone]
  generalize hfirst' : saturatingAdd plan.commonAncestorHeight 1 = first at hfirst ⊢
  have hcolumns : ∀ c : ColumnName, c ≠ .canonicalHeightToHash →
      (db.deleteCanonicalHashRange first plan.oldTipHeight).column c = db.column c :=
    fun c hc => RockDB.column_deleteCanonicalHashRange _ _ _ hc
  have hold : ∀ height, db.slot height = chain[height.toNat]?.map fun x => x.blockHash.toList := by
    intro height
    rw [RockDB.slot_congr (hdetached _ (by decide) (by decide)), hprojects.slots]
  have hblocks : ∀ height, (db.deleteCanonicalHashRange first
      plan.oldTipHeight).getBlockByIndex height = .ok chain[height.toNat]? := by
    intro height
    rw [RockDB.getBlockByIndex_of_column (hcolumns _ (by decide)),
      RockDB.getBlockByIndex_of_column (hdetached _ (by decide) (by decide)), hprojects.blocks]
  refine ⟨⟨hnew.index, hnew.linked, fun x hx => ?_, hnew.encoded⟩,
    ⟨fun height => ?_, fun height => ?_, fun _ => rfl, fun _ _ _ _ _ => rfl⟩, fun height hhigh => ?_,
    hblocks, fun c hhash hmeta hslots => (hcolumns c hslots).trans (hdetached c hhash hmeta)⟩
  · rw [RockDB.getBlockByHash_congr (hcolumns _ (by decide))]
    exact hindexed x hx
  · split
    · rename_i hlow
      have hbelow : height < first := by
        rw [UInt64.lt_iff_toNat_lt, hfirst]
        exact hlow
      rw [RockDB.slot_deleteCanonicalHashRange db (.inl hbelow), hold,
        hswitch.shared _ (Nat.le_of_lt_succ hlow)]
    · rfl
  · split
    · rename_i hlow
      rw [hblocks, hswitch.shared _ (Nat.le_of_lt_succ hlow)]
    · rfl
  · by_cases htip : plan.oldTipHeight < height
    · have hlen := hswitch.oldTip
      rw [RockDB.slot_deleteCanonicalHashRange db (.inr htip), hold]
      rw [UInt64.lt_iff_toNat_lt] at htip
      rw [List.getElem?_eq_none (by omega)]
      rfl
    · have habove : first ≤ height := by
        rw [UInt64.le_iff_toNat_le, hfirst]
        exact hhigh
      exact deleteCanonicalHashRange_read db habove (UInt64.not_lt.mp htip)

theorem moveProjection_moved {batchOf : Hash → Option (List UInt8)} {chain : List Block} {fork : ℕ}
    {plan : ReorgPlan} (hnew : Branch pre newChain) (hswitch : Switch chain newChain fork plan)
    (hprojects : Projects batchOf chain pre) (hnoop : plan.isNoop = false)
    (h : ReorgManager.moveProjection plan pre = .ok () db) :
    Moved chain newChain fork pre db := by
  simp only [ReorgManager.moveProjection, applyReorg, hnoop, Bool.false_eq_true, if_false,
    run_bind_eq_ok_iff] at h
  obtain ⟨_, _, ⟨_, db₁, hdetach, _, _, hdelete, _, db₃, hattach, htip⟩, hremap⟩ := h
  cases hdelete
  cases htip
  cases hremap
  have hstart := hswitch.detach hnew hprojects hdetach
  rw [hswitch.attach] at hattach
  have hdone := hstart.attached.attachAll hstart.branch hswitch.inside.2 hattach
  -- The tip and the batches come last.
  have hsteps : ReorgManager.attachSteps plan =
      (newChain.drop (fork+1)).map fun y => (y.metadata.index, y.blockHash) := by
    rw [ReorgManager.attachSteps, hswitch.attach, List.map_map]
    rfl
  have htipped : ∀ c : ColumnName, c ≠ .canonicalChainView → c ≠ .global →
      (db₃.setCanonicalTip plan.newTipHash plan.newTipHeight).column c = db₃.column c :=
    fun c hview hglobal => RockDB.column_setCanonicalTip _ _ _ hview hglobal
  have hremapped : ∀ (db : RockDB) (c : ColumnName), c ≠ .transactionBatch →
      (ReorgBatchIndex.remapCanonicalBatchesBestEffort (ReorgManager.attachSteps plan) db).column c =
        db.column c :=
    fun db c hc => ReorgManager.remap_column _ _ hc
  have hbatches : ∀ c : ColumnName, c = .transactionBatch ∨ c = .batchByBlockHash →
      (db₃.setCanonicalTip plan.newTipHash plan.newTipHeight).column c = pre.column c := by
    rintro c (rfl | rfl)
    · rw [htipped _ (by decide) (by decide), hdone.columns _ (by decide) (by decide) (by decide)
        (by decide), hstart.columns _ (by decide) (by decide) (by decide)]
    · rw [htipped _ (by decide) (by decide), hdone.columns _ (by decide) (by decide) (by decide)
        (by decide), hstart.columns _ (by decide) (by decide) (by decide)]
  have hkeyed : ∀ hash, (db₃.setCanonicalTip plan.newTipHash
      plan.newTipHeight).getBatchByBlockHash hash = pre.getBatchByBlockHash hash := by
    intro hash
    rw [RockDB.getBatchByBlockHash, RockDB.getBatchByBlockHash, RockDB.read, RockDB.read,
      hbatches _ (.inr rfl)]
  obtain ⟨b, hb, hnewTip⟩ := Option.map_eq_some_iff.mp hswitch.newTip
  obtain ⟨hheight, hhash⟩ := Prod.mk.inj hnewTip
  have hrecorded := RockDB.readHeight_setCanonicalTip db₃ plan.newTipHash plan.newTipHeight
  refine ⟨fun height => ?_, fun height => ?_, fun height => ?_, ?_, ?_, ?_⟩
  · rw [RockDB.slot_congr (hremapped _ _ (by decide)),
      RockDB.slot_congr (htipped _ (by decide) (by decide)), hdone.slots]
    split
    · rfl
    · rename_i hge
      have hfork := hswitch.inside.2
      rw [hstart.slots _ (by omega), List.getElem?_eq_none (by omega)]
      rfl
  · rw [RockDB.getBlockByIndex_of_column (hremapped _ _ (by decide)),
      RockDB.getBlockByIndex_of_column (htipped _ (by decide) (by decide)), hdone.blocks,
      hstart.blocks]
    split
    · rfl
    · rfl
  · rw [hsteps, remap_reads hnew.index hswitch.inside.2,
      RockDB.getBatchBytesByIndex_of_column (hbatches _ (.inl rfl))]
    simp only [hkeyed]
  · rw [RockDB.getCanonicalTip_congr (hremapped _ _ (by decide)),
      RockDB.getCanonicalTip_setCanonicalTip, hb, ← hheight, ← hhash]
    rfl
  · rw [RockDB.readHeight_congr (hremapped _ _ (by decide)), hrecorded.1, hb, ← hheight]
    rfl
  · rw [RockDB.readHeight_congr (hremapped _ _ (by decide)), hrecorded.2, hb, ← hheight]
    rfl

end Carrying

/-! ### The manager's switch -/

/-- A node with the canonical records and the account state of a fresh node, queued blocks
apart. -/
structure OnBranch [Blake3] (fresh : RockDB) (tip : UInt64) (s : ChainState) : Prop where
  slots : ∀ h, s.db.slot h = fresh.slot h
  blocks : ∀ h, s.db.getBlockByIndex h = fresh.getBlockByIndex h
  batches : ∀ h, s.db.getBatchBytesByIndex h = fresh.getBatchBytesByIndex h
  view : s.db.getCanonicalTip = fresh.getCanonicalTip
  tipHeight : s.db.readHeight "tip_height" = fresh.readHeight "tip_height"
  latestBlockIndex : s.db.readHeight "latest_block_index" = fresh.readHeight "latest_block_index"
  tree : (heightsTo tip).foldlM (replayInner fresh) InnerTree.empty = .ok s.tree.inner

namespace ReorgManager

theorem onDb_tree {α : Type} (x : EStateM ErrorDetection RockDB α) (tree : AccountModelTree) :
    Preserves (fun s : ChainState => s.tree = tree) (onDb x) := by
  intro s hs
  rw [onDb, zoom]
  cases x s.db with
  | ok a db => exact hs
  | error e db => exact hs

theorem rebuildValidatorState_tree (tip : UInt64) (tree : AccountModelTree) :
    Preserves (fun s : ManagedChain => s.chain.tree = tree) (rebuildValidatorState tip) := by
  refine preserves_bind (fun s hs => hs) fun s => ?_
  split
  · exact preserves_pure _
  · refine preserves_bind (preserves_lift _) fun _ => ?_
    refine preserves_bind (preserves_lift _) fun map => ?_
    refine preserves_bind (preserves_lift _) fun _ => ?_
    refine preserves_bind (fun s hs => hs) fun _ => ?_
    exact preserves_onChain (P := fun s => s.tree = tree) (onDb_tree map.persist tree)

section
variable [Blake3] {cfg : ReForkConfig} {b : Block} {s s' : ManagedChain} {plan : ReorgPlan}

theorem handleNewBlock_reorg (h : handleNewBlock cfg b s = .ok (.reorg plan) s') :
    onNewBlock cfg b s.chain.db = .ok (.reorg plan) ∧ applyReorgPlan plan s = .ok () s' := by
  simp only [handleNewBlock, run_bind_eq_ok_iff, lift_eq_ok_iff] at h
  obtain ⟨_, _, hget, action, _, ⟨haction, rfl⟩, h⟩ := h
  cases hget
  cases action with
  | stay => cases h
  | needMoreData hash context => cases h
  | reorg plan' =>
    rw [run_bind_eq_ok_iff] at h
    obtain ⟨_, s₁, happly, hret⟩ := h
    cases hret
    exact ⟨haction, happly⟩

/-- A plan that is carried out: the projection moves, the tree is reloaded and saved, and the
registry is all that is written after it. -/
theorem applyReorgPlan_saved (h : applyReorgPlan plan s = .ok () s') :
    ∃ db chain, moveProjection plan s.chain.db = .ok () db ∧
      reloadFromDbToHeight plan.newTipHeight { s.chain with db := db } = .ok () chain ∧
      s'.chain.tree = chain.tree ∧
      ∀ c : ColumnName, c ≠ .validatorData → s'.chain.db.column c = (saveState chain).db.column c := by
  simp only [applyReorgPlan, run_bind_eq_ok_iff] at h
  obtain ⟨_, s₁, hmove, _, s₂, hreload, _, s₃, hsave, hrebuild⟩ := h
  cases hsave
  rw [onChain, zoom, onDb, zoom] at hmove
  cases hrun : moveProjection plan s.chain.db with
  | error e db =>
    rw [hrun] at hmove
    cases hmove
  | ok u db =>
    rw [hrun] at hmove
    cases hmove
    rw [onChain, zoom] at hreload
    cases hload : reloadFromDbToHeight plan.newTipHeight { s.chain with db := db } with
    | error e chain =>
      rw [hload] at hreload
      cases hreload
    | ok u chain =>
      rw [hload] at hreload
      cases hreload
      have htree := rebuildValidatorState_tree plan.newTipHeight chain.tree _
        (rfl : ({ s with chain := saveState chain } : ManagedChain).chain.tree = chain.tree)
      rw [hrebuild] at htree
      refine ⟨db, chain, rfl, hload, htree, fun c hvalidator => ?_⟩
      have hkept := rebuildValidatorState_column plan.newTipHeight hvalidator
        ((saveState chain).db.column c) { s with chain := saveState chain } rfl
      rw [hrebuild] at hkept
      exact hkept

/-- The projection of a plan that is carried out moves, the account state is that of a replay, and
what follows writes neither. -/
theorem applyReorgPlan_ok (h : applyReorgPlan plan s = .ok () s') :
    ∃ db, moveProjection plan s.chain.db = .ok () db ∧
      (heightsTo plan.newTipHeight).foldlM (replayInner db) InnerTree.empty =
        .ok s'.chain.tree.inner ∧
      ∀ c : ColumnName, c ≠ .account → c ≠ .validatorData → s'.chain.db.column c = db.column c := by
  obtain ⟨db, chain, hmove, hload, htree, hsaved⟩ := applyReorgPlan_saved h
  have hcolumn := reloadFromDbToHeight_columns plan.newTipHeight { s.chain with db := db }
  rw [hload] at hcolumn
  refine ⟨db, hmove, ?_, fun c haccount hvalidator => ?_⟩
  · rw [htree]
    exact reload_inner hload
  · calc s'.chain.db.column c = (saveState chain).db.column c := hsaved c hvalidator
      _ = chain.db.column c := saveState_column chain haccount
      _ = db.column c := congrFun hcolumn c

/-- Every block of a branch has its batch stored by hash, or already at its height. -/
def BatchesAtHand (batchOf : Hash → Option (List UInt8)) (newChain : List Block) (db : RockDB) : Prop :=
  ∀ x ∈ newChain, db.getBatchByBlockHash x.blockHash = none →
    db.getBatchBytesByIndex x.metadata.index = batchOf x.blockHash

/-- The batches after a switch are those of the new branch exactly when they are at hand. -/
theorem moved_batches_iff {batchOf : Hash → Option (List UInt8)} {chain newChain : List Block}
    {fork : ℕ} {pre db : RockDB} (hnew : Branch pre newChain) (hswitch : Switch chain newChain fork plan)
    (hprojects : Projects batchOf chain pre)
    (hkeyed : ∀ hash bytes, pre.getBatchByBlockHash hash = some bytes → batchOf hash = some bytes)
    (hmoved : Moved chain newChain fork pre db) (hlen : chain.length ≤ newChain.length) :
    (∀ h, db.getBatchBytesByIndex h = newChain[h.toNat]?.bind fun x => batchOf x.blockHash) ↔
      BatchesAtHand batchOf newChain pre := by
  have hat : ∀ x ∈ newChain, newChain[x.metadata.index.toNat]? = some x := by
    intro x hx
    obtain ⟨i, hi⟩ := List.mem_iff_getElem?.mp hx
    rw [hnew.index hi]
    exact hi
  -- Below the fork nothing moved, and both branches have the same blocks.
  have hlow : ∀ h : UInt64, ¬fork+1 ≤ h.toNat → pre.getBatchBytesByIndex h =
      newChain[h.toNat]?.bind fun x => batchOf x.blockHash := by
    intro h hle
    rw [hprojects.batches, hswitch.shared _ (by omega)]
  constructor
  · intro hall x hx hnone
    by_cases hle : fork+1 ≤ x.metadata.index.toNat
    · have hread := hall x.metadata.index
      rw [hmoved.batches, if_pos hle, hat x hx, Option.bind_some, Option.bind_some, hnone,
        Option.none_or] at hread
      exact hread
    · rw [hlow _ hle, hat x hx]
      rfl
  · intro hhand h
    rw [hmoved.batches]
    split
    · cases hx : newChain[h.toNat]? with
      | none =>
        have hge := List.getElem?_eq_none_iff.mp hx
        rw [Option.bind_none, Option.none_or, hprojects.batches, List.getElem?_eq_none (by omega),
          Option.bind_none]
      | some x =>
        have hheight : x.metadata.index = h := UInt64.toNat_inj.mp (hnew.index hx)
        rw [Option.bind_some, Option.bind_some]
        cases hbytes : pre.getBatchByBlockHash x.blockHash with
        | some bytes => exact (hkeyed _ _ hbytes).symm
        | none =>
          rw [Option.none_or, ← hheight]
          exact hhand x (List.mem_of_getElem? hx) hbytes
    · rename_i hle
      exact hlow h hle

/-- After a reorganization the node is on the new branch only, exactly when the branch is no shorter
than the chain it replaces and every block of it has its batch at hand. -/
theorem switched_to_branch_iff (cfg : ReForkConfig) (b : Block) (s s' : ManagedChain)
    (plan : ReorgPlan) (batchOf : Hash → Option (List UInt8)) (chain newChain : List Block)
    (hdescribed : Described s.chain.db) (hchain : Branch s.chain.db chain)
    (hnew : Branch s.chain.db newChain) (hb : newChain.getLast? = some b)
    (hprojects : Projects batchOf chain s.chain.db)
    (hkeyed : ∀ hash bytes, s.chain.db.getBatchByBlockHash hash = some bytes →
      batchOf hash = some bytes)
    (h : handleNewBlock cfg b s = .ok (.reorg plan) s') :
    OnBranch (freshDb batchOf newChain) b.metadata.index s'.chain ↔
      chain.length ≤ newChain.length ∧ BatchesAtHand batchOf newChain s.chain.db := by
  obtain ⟨hplan, happly⟩ := handleNewBlock_reorg h
  obtain ⟨fork, hswitch⟩ := onNewBlock_switch hdescribed hchain hnew hprojects hb hplan
  obtain ⟨db, hmove, htree, hcolumns⟩ := applyReorgPlan_ok happly
  have hmoved := moveProjection_moved hnew hswitch hprojects (onNewBlock_not_noop hplan) hmove
  have hfresh := hnew.fresh_projects batchOf
  have htip : plan.newTipHeight = b.metadata.index := by
    have hlast := hswitch.newTip
    rw [hb] at hlast
    exact (Prod.mk.inj (Option.some.inj hlast)).1.symm
  have hblocks : ∀ height, s'.chain.db.getBlockByIndex height = db.getBlockByIndex height :=
    RockDB.getBlockByIndex_of_column (hcolumns _ (by decide) (by decide))
  have hbatches : ∀ height, s'.chain.db.getBatchBytesByIndex height = db.getBatchBytesByIndex height :=
    RockDB.getBatchBytesByIndex_of_column (hcolumns _ (by decide) (by decide))
  have hglobal : s'.chain.db.column .global = db.column .global :=
    hcolumns _ (by decide) (by decide)
  constructor
  · intro hon
    have hlen : chain.length ≤ newChain.length := by
      by_contra hshort
      -- A block of the old chain is left above the new tip.
      have hlast : newChain.length < chain.length := Nat.lt_of_not_le hshort
      have hbound := hchain.bounded (List.getElem?_eq_getElem hlast)
      have hsize : 10000000 < UInt64.size := by decide
      have hheight : (UInt64.ofNat newChain.length).toNat = newChain.length :=
        UInt64.toNat_ofNat_of_lt' (by omega)
      have hread := hon.blocks (UInt64.ofNat newChain.length)
      rw [hblocks, hmoved.blocks, hfresh.blocks, hheight, if_neg (Nat.lt_irrefl _),
        List.getElem?_eq_getElem hlast, List.getElem?_eq_none (Nat.le_refl _)] at hread
      cases hread
    refine ⟨hlen, (moved_batches_iff hnew hswitch hprojects hkeyed hmoved hlen).mp fun height => ?_⟩
    rw [← hbatches, hon.batches, hfresh.batches]
  · rintro ⟨hlen, hhand⟩
    have hmovedBatches :=
      (moved_batches_iff hnew hswitch hprojects hkeyed hmoved hlen).mpr hhand
    have hsame : SameHistory db (freshDb batchOf newChain) := by
      refine ⟨fun height => ?_, fun height => ?_⟩
      · rw [hfresh.blocks, hmoved.blocks]
        split
        · rfl
        · rw [List.getElem?_eq_none (by omega), List.getElem?_eq_none (by omega)]
      · rw [hfresh.batches, hmovedBatches]
    refine ⟨fun height => ?_, fun height => ?_, fun height => ?_, ?_, ?_, ?_, ?_⟩
    · rw [RockDB.slot_congr (hcolumns _ (by decide) (by decide)), hmoved.slots, hfresh.slots]
    · rw [hblocks, hsame.blocks]
    · rw [hbatches, hsame.batches]
    · rw [RockDB.getCanonicalTip_congr (hcolumns _ (by decide) (by decide)), hmoved.view, hfresh.view]
    · rw [RockDB.readHeight_congr hglobal, hmoved.tipHeight, hfresh.tipHeight]
    · rw [RockDB.readHeight_congr hglobal, hmoved.latestBlockIndex, hfresh.latestBlockIndex]
    · have hreplay : replayInner (freshDb batchOf newChain) = replayInner db := by
        funext inner idx
        exact hsame.replayInner inner idx
      rw [hreplay, ← htip]
      exact htree

end
end ReorgManager

/-! ### A batch of the detached branch -/

namespace Sample

/-- The batch of `emptyBlock1`. -/
def emptyBatch1 : TransactionBatch := ⟨1, 1700000030, [], none⟩

def batchOf (hash : Hash) : Option (List UInt8) :=
  if hash = block0.blockHash then some batch0.serialize
  else if hash = block1.blockHash then some batch1.serialize
  else if hash = emptyBlock1.blockHash then some emptyBatch1.serialize
  else if hash = branchBlock2.blockHash then some batch2.serialize
  else none

/-- Of the branch above `emptyBlock1` only the upper batch is stored by hash. -/
def staleDb : RockDB := forkedDb.storeBatchByBlockHash branchBlock2.blockHash batch2.serialize

/-- Is the batch of `block1` still under its height after the switch to `branchBlock2`? -/
def keepsStaleBatch [Blake3] (db : RockDB) : Bool :=
  match ReorgManager.handleNewBlock .mainnetDefault branchBlock2 (node db) with
  | .ok (.reorg _) s' => decide (s'.chain.db.getBatchBytesByIndex 1 = some batch1.serialize)
  | _ => false

theorem keepsStaleBatch_staleDb : @keepsStaleBatch Blake3.reference staleDb = true := by
  rw [← cached_branch]
  decide +kernel

theorem known_readable : ∀ b ∈ [block0, block1, emptyBlock1, branchBlock2],
    Block.deserializeFromStorage (Block.codec.enc b) = .ok b ∧
      staleDb.getBlockByHash b.blockHash = some b := by
  decide +kernel

theorem known_encoded : ∀ b ∈ [block0, block1, emptyBlock1, branchBlock2],
    ∃ bytes, @Block.Encoded Blake3.reference b bytes := by
  let : Blake3 := Blake3.reference
  have hstored : ∀ b ∈ [block0, block1, emptyBlock1, branchBlock2],
      succeeds b.serializeForStorage = true := by
    have hbranch : succeeds branchBlock2.serializeForStorage = true := by
      change succeeds (@Block.serializeForStorage Blake3.reference branchBlock2) = true
      rw [← cached_branch]
      decide +kernel
    intro b hb
    simp only [List.mem_cons, List.not_mem_nil, or_false] at hb
    rcases hb with rfl | rfl | rfl | rfl
    · exact siblings_storable _ (by simp)
    · exact siblings_storable _ (by simp [siblings])
    · exact siblings_storable _ (by simp [siblings])
    · exact hbranch
  intro b hb
  obtain ⟨bytes, hbytes⟩ := (succeeds_iff _).mp (hstored b hb)
  obtain ⟨-, -, rfl⟩ := Block.serializeForStorage_ok.mp hbytes
  exact ⟨_, hbytes, (known_readable b hb).1⟩

/-- A block that enters the fork graph is described there. -/
theorem described_learn {db : RockDB} {b : Block} (h : Described db)
    (hread : Block.deserializeFromStorage (Block.codec.enc b) = .ok b) : Described (learn db b) := by
  intro hash m x hm hx
  rw [learn, RockDB.getBlockMetaByHash_store] at hm
  rw [learn, RockDB.storeBlockMetaByHash, RockDB.getBlockByHash_congr
    (RockDB.column_put_of_ne _ _ _ (by decide)), RockDB.getBlockByHash_put _ hread] at hx
  by_cases heq : b.blockHash = hash
  · rw [if_pos heq] at hm hx
    cases hm
    cases hx
    exact ⟨rfl, rfl⟩
  · rw [if_neg heq, RockDB.getBlockMetaByHash_congr (RockDB.column_put_of_ne _ _ _ (by decide))] at hm
    rw [if_neg heq] at hx
    exact h hash m x hm hx

theorem learn_columns (db : RockDB) (b : Block) : ∀ c ∈ canonicalColumns,
    (learn db b).column c = db.column c := by
  intro c hc
  have hne : c ≠ .blockMetaByHash ∧ c ≠ .blockToHash := by
    revert c
    decide
  rw [learn, RockDB.storeBlockMetaByHash, RockDB.column_put_of_ne _ _ _ hne.1,
    RockDB.column_put_of_ne _ _ _ hne.2]

theorem extend_columns (db : RockDB) (b : Block) (batch : TransactionBatch) :
    (extend db b batch).column .blockMetaByHash = (learn db b).column .blockMetaByHash ∧
      (extend db b batch).column .blockToHash = (learn db b).column .blockToHash := by
  refine ⟨?_, ?_⟩
  · rw [extend, RockDB.column_setCanonicalTip _ _ _ (by decide) (by decide),
      RockDB.setCanonicalHashAtHeight, RockDB.storeBatchBytes, RockDB.column_put_of_ne _ _ _ (by decide),
      RockDB.column_put_of_ne _ _ _ (by decide), RockDB.column_put_of_ne _ _ _ (by decide)]
  · rw [extend, RockDB.column_setCanonicalTip _ _ _ (by decide) (by decide),
      RockDB.setCanonicalHashAtHeight, RockDB.storeBatchBytes, RockDB.column_put_of_ne _ _ _ (by decide),
      RockDB.column_put_of_ne _ _ _ (by decide), RockDB.column_put_of_ne _ _ _ (by decide)]

theorem staleDb_described : Described staleDb := by
  have hempty : Described RockDB.empty := by
    intro hash m x hm
    cases hm
  have hread : ∀ b ∈ [block0, block1, emptyBlock1, branchBlock2],
      Block.deserializeFromStorage (Block.codec.enc b) = .ok b := fun b hb => (known_readable b hb).1
  have hextend : ∀ {db : RockDB} {b : Block} (batch : TransactionBatch), Described db →
      b ∈ [block0, block1, emptyBlock1, branchBlock2] → Described (extend db b batch) := by
    intro db b batch hdb hb
    obtain ⟨hmeta, hblock⟩ := extend_columns db b batch
    exact (described_learn hdb (hread b hb)).congr hmeta hblock
  have hforked : Described forkedDb :=
    described_learn (described_learn (hextend batch1 (hextend batch0 hempty (by simp)) (by simp))
      (hread _ (by simp))) (hread _ (by simp))
  exact hforked.congr (RockDB.column_put_of_ne _ _ _ (by decide))
    (RockDB.column_put_of_ne _ _ _ (by decide))

theorem staleDb_projects : Projects batchOf [block0, block1] staleDb := by
  have hempty : Projects batchOf [] RockDB.empty :=
    ⟨fun _ => rfl, fun _ => rfl, fun _ => rfl, rfl, rfl, rfl⟩
  have hfirst : Projects batchOf [block0] (extend RockDB.empty block0 batch0) :=
    (hempty.congr (learn_columns _ block0)).receive rfl (known_readable _ (by simp)).1
  have hsecond : Projects batchOf [block0, block1]
      (extend (extend RockDB.empty block0 batch0) block1 batch1) :=
    (hfirst.congr (learn_columns _ block1)).receive rfl (known_readable _ (by simp)).1
  have hforked : Projects batchOf [block0, block1] forkedDb :=
    (hsecond.congr (learn_columns _ emptyBlock1)).congr (learn_columns _ branchBlock2)
  refine hforked.congr fun c hc => RockDB.column_put_of_ne _ _ _ ?_
  revert c
  decide

theorem staleDb_branch (b : Block) (hb : b ∈ [block1, emptyBlock1]) :
    @Branch Blake3.reference staleDb [block0, b] := by
  let : Blake3 := Blake3.reference
  have hroot : Branch staleDb [block0] :=
    (Branch.nil staleDb).concat rfl (fun p hp => by cases hp) (known_readable _ (by simp)).2
      (known_encoded _ (by simp))
  have hmem : b ∈ [block0, block1, emptyBlock1, branchBlock2] := by
    rcases List.mem_cons.mp hb with rfl | hb
    · simp
    · rw [List.mem_singleton.mp hb]
      simp
  have hlink := siblings_linked b ((List.Perm.swap _ _ _).subset hb)
  refine hroot.concat hlink.2 (fun p hp => ?_) (known_readable b hmem).2 (known_encoded b hmem)
  cases hp
  exact hlink.1.symm

theorem staleDb_newBranch : @Branch Blake3.reference staleDb [block0, emptyBlock1, branchBlock2] := by
  let : Blake3 := Blake3.reference
  refine (staleDb_branch emptyBlock1 (by simp)).concat rfl (fun p hp => ?_)
    (known_readable _ (by simp)).2 (known_encoded _ (by simp))
  cases hp
  rfl

theorem staleDb_keyed (hash : Hash) (bytes : List UInt8)
    (h : staleDb.getBatchByBlockHash hash = some bytes) : batchOf hash = some bytes := by
  have hforked : ∀ key, forkedDb.read .batchByBlockHash key = none := fun _ => rfl
  rw [RockDB.getBatchByBlockHash, staleDb, RockDB.storeBatchByBlockHash, RockDB.read_put, hforked] at h
  split at h
  · rename_i hkey
    cases h
    rw [← Hash.toList_injective hkey.2]
    rfl
  · cases h

theorem node_column [Blake3] (db : RockDB) : (node db).chain.db.column = db.column :=
  reloadFromDbToHeight_columns _ _

theorem switch_of_keepsStaleBatch [Blake3] {db : RockDB} (h : keepsStaleBatch db = true) :
    ∃ plan s', ReorgManager.handleNewBlock .mainnetDefault branchBlock2 (node db) =
        .ok (.reorg plan) s' ∧ s'.chain.db.getBatchBytesByIndex 1 = some batch1.serialize := by
  unfold keepsStaleBatch at h
  split at h
  · rename_i plan s' hrun
    exact ⟨plan, s', hrun, of_decide_eq_true h⟩
  · cases h

end Sample

theorem switched_to_branch_iff_stale :
    ∃ (plan : ReorgPlan) (s' : ManagedChain),
      @ReorgManager.handleNewBlock Blake3.reference .mainnetDefault Sample.branchBlock2
        (@Sample.node Blake3.reference Sample.staleDb) = .ok (.reorg plan) s' ∧
      (@OnBranch Blake3.reference (freshDb Sample.batchOf
          [Sample.block0, Sample.emptyBlock1, Sample.branchBlock2]) 2 s'.chain ↔
        2 ≤ 3 ∧ ReorgManager.BatchesAtHand Sample.batchOf
          [Sample.block0, Sample.emptyBlock1, Sample.branchBlock2]
          (@Sample.node Blake3.reference Sample.staleDb).chain.db) := by
  let : Blake3 := Blake3.reference
  obtain ⟨plan, s', hrun, -⟩ := Sample.switch_of_keepsStaleBatch Sample.keepsStaleBatch_staleDb
  have hcolumn : ∀ c, (Sample.node Sample.staleDb).chain.db.column c = Sample.staleDb.column c :=
    congrFun (Sample.node_column Sample.staleDb)
  have hdescribed := Sample.staleDb_described.congr (hcolumn .blockMetaByHash) (hcolumn .blockToHash)
  have hchain := (Sample.staleDb_branch Sample.block1 List.mem_cons_self).congr (hcolumn .blockToHash)
  have hnew := Sample.staleDb_newBranch.congr (hcolumn .blockToHash)
  have hprojects := Sample.staleDb_projects.congr fun c _ => hcolumn c
  have hkeyed : ∀ hash bytes, (Sample.node Sample.staleDb).chain.db.getBatchByBlockHash hash =
      some bytes → Sample.batchOf hash = some bytes := by
    intro hash bytes h
    rw [RockDB.getBatchByBlockHash, RockDB.read, hcolumn] at h
    exact Sample.staleDb_keyed hash bytes h
  refine ⟨plan, s', hrun, ?_⟩
  exact ReorgManager.switched_to_branch_iff .mainnetDefault Sample.branchBlock2 _ s' plan
    Sample.batchOf [Sample.block0, Sample.block1]
    [Sample.block0, Sample.emptyBlock1, Sample.branchBlock2]
    hdescribed hchain hnew rfl hprojects hkeyed hrun

/-- The reward of the detached block is executed again as part of the new branch. -/
theorem switch_keeps_detached_batch :
    ∃ (plan : ReorgPlan) (s' : ManagedChain),
      Described Sample.staleDb ∧ Projects Sample.batchOf [Sample.block0, Sample.block1] Sample.staleDb ∧
      @Branch Blake3.reference Sample.staleDb
        [Sample.block0, Sample.emptyBlock1, Sample.branchBlock2] ∧
      @ReorgManager.handleNewBlock Blake3.reference .mainnetDefault Sample.branchBlock2
        (@Sample.node Blake3.reference Sample.staleDb) = .ok (.reorg plan) s' ∧
      s'.chain.db.getBatchBytesByIndex 1 = Sample.batchOf Sample.block1.blockHash ∧
      ¬@OnBranch Blake3.reference (freshDb Sample.batchOf
        [Sample.block0, Sample.emptyBlock1, Sample.branchBlock2]) 2 s'.chain := by
  let : Blake3 := Blake3.reference
  obtain ⟨plan, s', hrun, hstale⟩ := Sample.switch_of_keepsStaleBatch Sample.keepsStaleBatch_staleDb
  refine ⟨plan, s', Sample.staleDb_described, Sample.staleDb_projects, Sample.staleDb_newBranch, hrun,
    hstale, fun hon => ?_⟩
  have hfresh := (Sample.staleDb_newBranch.fresh_projects Sample.batchOf).batches 1
  rw [← hon.batches, hstale] at hfresh
  exact absurd hfresh (by decide +kernel)

end Remzar
