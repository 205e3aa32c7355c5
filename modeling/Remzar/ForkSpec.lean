import Mathlib
import Remzar.ForkIngest

/-! What fork choice reads of the blocks a node has ingested, and which writes keep it
readable. -/
namespace Remzar
open Fallible Effects

/-! ### Reads after writes -/

theorem Hash.toList_injective {a b : Hash} (h : a.toList = b.toList) : a = b := Subtype.ext h

namespace RockDB
variable {db db' : RockDB}

theorem getBlockMetaByHash_congr
    (h : db'.column .blockMetaByHash = db.column .blockMetaByHash) (hash : Hash) :
    db'.getBlockMetaByHash hash = db.getBlockMetaByHash hash := by
  rw [getBlockMetaByHash, getBlockMetaByHash, read, read, h]

theorem getBlockByHash_congr (h : db'.column .blockToHash = db.column .blockToHash) (hash : Hash) :
    db'.getBlockByHash hash = db.getBlockByHash hash := by
  rw [getBlockByHash, getBlockByHash, read, read, h]

theorem getBlockMetaByHash_store (db : RockDB) (hash hash' : Hash) (m : ForkBlockMeta) :
    (db.storeBlockMetaByHash hash m).getBlockMetaByHash hash' =
      if hash = hash' then .ok (some m) else db.getBlockMetaByHash hash' := by
  by_cases heq : hash = hash'
  · subst heq
    rw [if_pos rfl, getBlockMetaByHash, storeBlockMetaByHash, read_put_self]
    simp only [ForkBlockMeta.fromBytes_toBytes, ok_bind]
    rfl
  · have hkey : hash.toList ≠ hash'.toList := fun h => heq (Hash.toList_injective h)
    rw [if_neg heq, getBlockMetaByHash, storeBlockMetaByHash, read_put_of_key_ne _ _ _ _ hkey]
    rfl

theorem setBlockMetaStatus_ok {hash : Hash} {m : ForkBlockMeta}
    (h : db.getBlockMetaByHash hash = .ok (some m)) (status : ForkBlockStatus) :
    db.setBlockMetaStatus hash status =
      .ok (db.storeBlockMetaByHash hash { m with status := status }) := by
  rw [setBlockMetaStatus, h]
  rfl

theorem setBlockMetaStatus_inv {hash : Hash} {status : ForkBlockStatus}
    (h : db.setBlockMetaStatus hash status = .ok db') :
    ∃ m, db.getBlockMetaByHash hash = .ok (some m) ∧
      db' = db.storeBlockMetaByHash hash { m with status := status } := by
  rw [setBlockMetaStatus, bind_eq_ok_iff] at h
  obtain ⟨found, hfound, h⟩ := h
  rw [bind_eq_ok_iff] at h
  obtain ⟨m, hm, h⟩ := h
  rw [okOr_eq_ok_iff] at hm
  subst hm
  exact ⟨m, hfound, ((pure_eq_ok_iff _ _).mp h).symm⟩

/-- What a block is indexed as, when the index decodes its bytes and encodes them again. -/
theorem indexBlockByHash_ok [Blake3] {b : Block} {bytes bytes' : List UInt8}
    (hread : Block.deserializeFromStorage bytes = .ok b)
    (hwrite : b.serializeForStorage = .ok bytes') (hash : Hash) :
    db.indexBlockByHash hash bytes = .ok (db.put .blockToHash hash.toList bytes') := by
  rw [indexBlockByHash, hread, ok_bind, hwrite]
  rfl

theorem getBlockByHash_put (db : RockDB) {b : Block} {bytes : List UInt8}
    (h : Block.deserializeFromStorage bytes = .ok b) (hash hash' : Hash) :
    (db.put .blockToHash hash.toList bytes).getBlockByHash hash' =
      if hash = hash' then some b else db.getBlockByHash hash' := by
  by_cases heq : hash = hash'
  · subst heq
    rw [if_pos rfl, getBlockByHash, read_put_self]
    simp only [h]
    rfl
  · have hkey : hash.toList ≠ hash'.toList := fun h => heq (Hash.toList_injective h)
    rw [if_neg heq, getBlockByHash, read_put_of_key_ne _ _ _ _ hkey]
    rfl

theorem hasBlockByHash_of_get {hash : Hash} {b : Block} (h : db.getBlockByHash hash = some b) :
    db.hasBlockByHash hash = true := by
  rw [getBlockByHash] at h
  rw [hasBlockByHash]
  cases hread : db.read .blockToHash hash.toList with
  | none =>
    rw [hread] at h
    cases h
  | some bytes => rfl

theorem column_foldl_remove (c c' : ColumnName) (key : UInt64 → List UInt8) (h : c' ≠ c)
    (heights : List UInt64) (db : RockDB) :
    (heights.foldl (fun db height => db.remove c (key height)) db).column c' = db.column c' := by
  induction heights generalizing db with
  | nil => rfl
  | cons height heights ih =>
    rw [List.foldl_cons, ih]
    exact Function.update_of_ne h _ _

theorem column_deleteCanonicalHashRange (db : RockDB) (first last : UInt64) {c : ColumnName}
    (h : c ≠ .canonicalHeightToHash) :
    (db.deleteCanonicalHashRange first last).column c = db.column c :=
  column_foldl_remove _ _ _ h _ _

theorem column_setCanonicalTip (db : RockDB) (hash : Hash) (height : UInt64) {c : ColumnName}
    (hview : c ≠ .canonicalChainView) (hglobal : c ≠ .global) :
    (db.setCanonicalTip hash height).column c = db.column c := by
  rw [setCanonicalTip, setLatestBlockIndex, putHeight, putHeight, setTipHeight, putHeight,
    column_put_of_ne _ _ _ hglobal, column_put_of_ne _ _ _ hglobal, column_put_of_ne _ _ _ hglobal,
    column_put_of_ne _ _ _ hview]

theorem getCanonicalTip_congr
    (h : db'.column .canonicalChainView = db.column .canonicalChainView) :
    db'.getCanonicalTip = db.getCanonicalTip := by
  rw [getCanonicalTip, getCanonicalTip, read, read, h]

theorem getCanonicalTip_setCanonicalTip (db : RockDB) (hash : Hash) (height : UInt64) :
    (db.setCanonicalTip hash height).getCanonicalTip = .ok (some ⟨hash, height⟩) := by
  have hread : (db.setCanonicalTip hash height).read .canonicalChainView canonicalTipViewKey =
      some (CanonicalTipView.toBytes ⟨hash, height⟩) := by
    rw [setCanonicalTip, setLatestBlockIndex, putHeight, putHeight, setTipHeight, putHeight,
      read_put_of_column_ne _ _ _ _ (by decide), read_put_of_column_ne _ _ _ _ (by decide),
      read_put_of_column_ne _ _ _ _ (by decide), read_put_self]
  rw [getCanonicalTip, hread]
  simp only [CanonicalTipView.fromBytes_toBytes, ok_bind]
  rfl

theorem batchProcessAll_congr (h : db'.column .transaction = db.column .transaction) :
    db'.batchProcessAll = db.batchProcessAll := by
  rw [batchProcessAll, batchProcessAll, h]

theorem getBlockByIndex_of_column
    (h : db'.column .blockmintData = db.column .blockmintData) (index : UInt64) :
    db'.getBlockByIndex index = db.getBlockByIndex index := by
  rw [getBlockByIndex, getBlockByIndex, read, read, h]

end RockDB

/-! ### Known blocks -/

/-- Bytes that read back as a block which is written as those bytes. -/
structure Block.Encoded [Blake3] (b : Block) (bytes : List UInt8) : Prop where
  write : b.serializeForStorage = .ok bytes
  read : Block.deserializeFromStorage bytes = .ok b

/-- A block that fork choice can read: its metadata, with the height as score, and its bytes. -/
structure Known [Blake3] (db : RockDB) (b : Block) : Prop where
  graph : ∃ m, db.getBlockMetaByHash b.blockHash = .ok (some m) ∧
    m.parentHash = b.metadata.previousHash ∧ m.height = b.metadata.index ∧
    m.cumulativeScore = BitVec.ofNat 128 b.metadata.index.toNat
  stored : ∃ b' bytes, db.getBlockByHash b.blockHash = some b' ∧ b'.metadata = b.metadata ∧
    b'.blockHash = b.blockHash ∧ b'.Encoded bytes

/-- What the steps of fork choice need besides the blocks: durable writes are accepted, and
every stored height decodes. -/
structure Writable (db : RockDB) : Prop where
  mempool : db.batchProcessAll = .ok ()
  heights : ∀ h, ∃ o, db.getBlockByIndex h = .ok o

namespace Known
variable [Blake3] {db db' : RockDB} {b : Block}

theorem congr (h : Known db b)
    (hmeta : db'.column .blockMetaByHash = db.column .blockMetaByHash)
    (hblock : db'.column .blockToHash = db.column .blockToHash) : Known db' b where
  graph := by
    rw [RockDB.getBlockMetaByHash_congr hmeta]
    exact h.graph
  stored := by
    rw [RockDB.getBlockByHash_congr hblock]
    exact h.stored

/-- A status says nothing about parent, height and score. -/
theorem setStatus (h : Known db b) {hash : Hash} {status : ForkBlockStatus}
    (hset : db.setBlockMetaStatus hash status = .ok db') : Known db' b := by
  obtain ⟨m, hm, rfl⟩ := RockDB.setBlockMetaStatus_inv hset
  refine ⟨?_, ?_⟩
  · obtain ⟨m', hm', hparent, hheight, hscore⟩ := h.graph
    rw [RockDB.getBlockMetaByHash_store]
    by_cases heq : hash = b.blockHash
    · have hsame : m = m' := by
        rw [heq, hm'] at hm
        exact (Option.some.inj (Except.ok.inj hm)).symm
      rw [if_pos heq]
      exact ⟨_, rfl, hsame ▸ hparent, hsame ▸ hheight, hsame ▸ hscore⟩
    · rw [if_neg heq]
      exact ⟨m', hm', hparent, hheight, hscore⟩
  · have hcolumn : (db.storeBlockMetaByHash hash { m with status := status }).column .blockToHash =
        db.column .blockToHash := RockDB.column_put_of_ne _ _ _ (by decide)
    rw [RockDB.getBlockByHash_congr hcolumn]
    exact h.stored

/-- Writing a stored block again under its hash changes nothing that is read. -/
theorem put_again (h : Known db b) {hash : Hash} {c : Block} {bytes : List UInt8}
    (hget : db.getBlockByHash hash = some c) (hc : c.Encoded bytes) :
    Known (db.put .blockToHash hash.toList bytes) b := by
  have hmeta : (db.put .blockToHash hash.toList bytes).column .blockMetaByHash =
      db.column .blockMetaByHash := RockDB.column_put_of_ne _ _ _ (by decide)
  have hread : (db.put .blockToHash hash.toList bytes).getBlockByHash b.blockHash =
      db.getBlockByHash b.blockHash := by
    rw [RockDB.getBlockByHash_put db hc.read]
    by_cases heq : hash = b.blockHash
    · rw [if_pos heq, ← heq, hget]
    · rw [if_neg heq]
  refine ⟨?_, ?_⟩
  · rw [RockDB.getBlockMetaByHash_congr hmeta]
    exact h.graph
  · rw [hread]
    exact h.stored

/-- A block under another hash changes nothing either. -/
theorem put_other (h : Known db b) {hash : Hash} (hne : hash ≠ b.blockHash) (bytes : List UInt8) :
    Known (db.put .blockToHash hash.toList bytes) b := by
  have hkey : hash.toList ≠ b.blockHash.toList := fun heq => hne (Hash.toList_injective heq)
  have hmeta : (db.put .blockToHash hash.toList bytes).column .blockMetaByHash =
      db.column .blockMetaByHash := RockDB.column_put_of_ne _ _ _ (by decide)
  refine ⟨?_, ?_⟩
  · rw [RockDB.getBlockMetaByHash_congr hmeta]
    exact h.graph
  · rw [RockDB.getBlockByHash, RockDB.read_put_of_key_ne _ _ _ _ hkey]
    exact h.stored

theorem hasMeta (h : Known db b) : ReorgBlockIndex.hasMetaOrFalse b.blockHash db = true := by
  obtain ⟨m, hm, -⟩ := h.graph
  rw [ReorgBlockIndex.hasMetaOrFalse, RockDB.hasBlockMetaByHash, hm]
  rfl

theorem hasBlock (h : Known db b) : db.hasBlockByHash b.blockHash = true := by
  obtain ⟨b', bytes, hget, -⟩ := h.stored
  exact RockDB.hasBlockByHash_of_get hget

end Known

namespace Writable
variable {db db' : RockDB}

theorem congr (h : Writable db) (htx : db'.column .transaction = db.column .transaction)
    (hmint : db'.column .blockmintData = db.column .blockmintData) : Writable db' where
  mempool := by
    rw [RockDB.batchProcessAll_congr htx]
    exact h.mempool
  heights := by
    intro height
    rw [RockDB.getBlockByIndex_of_column hmint]
    exact h.heights height

theorem put (h : Writable db) {c : ColumnName} (htx : c ≠ .transaction) (hmint : c ≠ .blockmintData)
    (k v : List UInt8) : Writable (db.put c k v) :=
  h.congr (RockDB.column_put_of_ne _ _ _ (Ne.symm htx))
    (RockDB.column_put_of_ne _ _ _ (Ne.symm hmint))

/-- What a block is stored as can be kept under any height. -/
theorem storeLatestBlock [Blake3] (h : Writable db) {b b' : Block} {bytes : List UInt8}
    (hwrite : b.serializeForStorage = .ok bytes)
    (hread : Block.deserializeFromStorage bytes = .ok b') (index : UInt64) :
    db.storeLatestBlock bytes index = .ok (db.put .blockmintData (RockDB.blockKey index) bytes) ∧
      Writable (db.put .blockmintData (RockDB.blockKey index) bytes) := by
  obtain ⟨-, hlen, henc⟩ := Block.serializeForStorage_ok.mp hwrite
  have hmin := b.minBlockSize_le
  rw [henc] at hlen hmin
  have hne : bytes ≠ [] := by
    intro hnil
    rw [hnil] at hmin
    exact absurd hmin (by decide)
  refine ⟨?_, ?_, ?_⟩
  · rw [RockDB.storeLatestBlock, h.mempool, ok_bind, rejectIf_of_not _ hne, ok_bind,
      rejectIf_of_not _ (Nat.not_lt.mpr hlen)]
    rfl
  · have htx := RockDB.column_put_of_ne db (RockDB.blockKey index) bytes
      (show ColumnName.transaction ≠ .blockmintData by decide)
    rw [RockDB.batchProcessAll_congr htx]
    exact h.mempool
  · intro height
    rw [RockDB.getBlockByIndex, RockDB.read_put]
    by_cases hkey : RockDB.blockKey index = RockDB.blockKey height
    · rw [if_pos ⟨rfl, hkey⟩]
      refine ⟨some b', ?_⟩
      simp only [hread, ok_bind]
      rfl
    · rw [if_neg fun heq => hkey heq.2]
      exact h.heights height

end Writable

end Remzar
