import Mathlib
import Remzar.BlockSpec
import Remzar.Builder
import Remzar.Chain
import Remzar.MempoolSpec

/-! When block production succeeds: whatever the mempool holds, only a transfer above
`MAX_TX_AMOUNT` can stop a block that an empty mempool would not have stopped. -/
namespace Remzar
open Std Fallible Effects Checked Postcard Text BlockchainBuilder

/-! ### Signing -/

theorem merkleParents_ne_nil [Blake3] {nodes : List Hash} (h : nodes ≠ []) :
    merkleParents nodes ≠ [] := by
  match nodes with
  | [] => exact absurd rfl h
  | [left] => exact List.cons_ne_nil _ _
  | left :: right :: rest => exact List.cons_ne_nil _ _

theorem merkleClimb_ne_nil [Blake3] (fuel : ℕ) {nodes : List Hash} (h : nodes ≠ []) :
    merkleClimb fuel nodes ≠ [] := by
  induction fuel generalizing nodes with
  | zero => exact h
  | succ fuel ih =>
    rw [merkleClimb]
    split
    · exact h
    · exact ih (merkleParents_ne_nil h)

theorem signedMerkleRoot_ok [Blake3] (hashes : List Hash) (h : hashes.length ≤ maxBatchItems) :
    ∃ root, signedMerkleRoot hashes = .ok root := by
  rw [signedMerkleRoot, rejectIf_of_not _ (Nat.not_lt.mpr h), ok_bind]
  dsimp only
  have hne : (if hashes = [] then [Blake3.xof64 emptyBlockDummyLeaf] else hashes) ≠ [] := by
    split
    · exact List.cons_ne_nil _ _
    · assumption
  have hclimb := merkleClimb_ne_nil
    (if hashes = [] then [Blake3.xof64 emptyBlockDummyLeaf] else hashes).length hne
  refine ⟨List.head _ hclimb, ?_⟩
  rw [List.head?_eq_some_head hclimb]
  rfl

theorem foldlM_validateItem_ok (data : List (List UInt8)) (i total : ℕ)
    (hitem : ∀ item ∈ data, item.length ≤ maxItemBytes)
    (htotal : total + (data.map List.length).sum ≤ maxTotalBatchBytes) :
    ∃ out, data.foldlM validateItem (i, total) = .ok out := by
  induction data generalizing i total with
  | nil => exact ⟨_, rfl⟩
  | cons item data ih =>
    rw [List.map_cons, List.sum_cons] at htotal
    have hlen := hitem item List.mem_cons_self
    have hstep : validateItem (i, total) item = .ok (i+1, total + item.length) := by
      simp only [validateItem, rejectIf_of_not _ (Nat.not_lt.mpr hlen), ok_bind]
      rw [rejectIf_of_not _ (by omega), ok_bind]
      rfl
    rw [List.foldlM_cons, hstep, ok_bind]
    exact ih _ _ (fun item' h => hitem item' (List.mem_cons_of_mem item h)) (by omega)

theorem validateBatchInput_ok {data : List (List UInt8)} (hcount : data.length ≤ maxBatchItems)
    (hsum : (data.map List.length).sum ≤ maxItemBytes) : validateBatchInput data = .ok () := by
  have hitem : ∀ item ∈ data, item.length ≤ maxItemBytes := by
    intro item h
    exact (List.single_le_sum (by simp) _ (List.mem_map_of_mem h)).trans hsum
  have htotal : 0 + (data.map List.length).sum ≤ maxTotalBatchBytes := by
    rw [Nat.zero_add]
    exact hsum.trans (by decide)
  obtain ⟨out, hout⟩ := foldlM_validateItem_ok data 0 0 hitem htotal
  rw [validateBatchInput, rejectIf_of_not _ (Nat.not_lt.mpr hcount), ok_bind, hout]
  rfl

/-- The signature scheme does what it is there for: it signs, and never with zeros only. -/
def SigningKey.Works (sk : SigningKey) : Prop :=
  ∀ draw root, ∃ sig, sk.trySign draw root = .ok sig ∧ sig ≠ zeroSignature

theorem signBatchAs_ok [Blake3] {sk : SigningKey} (hsk : sk.Works) (signer : String) (draw : ℕ)
    (data : List (List UInt8)) (hcount : data.length ≤ maxBatchItems)
    (hsum : (data.map List.length).sum ≤ maxItemBytes)
    (hroot : ∀ root, signedMerkleRoot (data.map Blake3.xof64) = .ok root → root ≠ zeroHash) :
    ∃ root sig, signedMerkleRoot (data.map Blake3.xof64) = .ok root ∧
      sk.trySign draw root = .ok sig ∧ signBatchAs signer draw sk data = .ok sig ∧
      sig ≠ zeroSignature := by
  obtain ⟨root, hok⟩ : ∃ root, signedMerkleRoot (data.map Blake3.xof64) = .ok root :=
    signedMerkleRoot_ok _ (by rwa [List.length_map])
  obtain ⟨sig, hsig, hzero⟩ := hsk draw root
  refine ⟨root, sig, hok, hsig, ?_, hzero⟩
  rw [signBatchAs, validateBatchInput_ok hcount hsum, ok_bind, computeBatchMerkleRoot, hok, ok_bind,
    rejectIf_of_not _ (hroot root hok), ok_bind, pure_bind_ok, hsig]
  rfl

/-! ### Leaves and sizes -/

theorem TxKind.leaf_of_valid {kind : TxKind} (h : kind.validate = .ok ()) :
    kind.leaf = .ok kind.payload := by
  cases kind with
  | transfer tx =>
    have hvalid := (mapErr_eq_ok_iff _ _ _).mp h
    change tx.serialize = _
    rw [Transaction.serialize, hvalid]
    rfl
  | registerNode tx =>
    have hvalid := (mapErr_eq_ok_iff _ _ _).mp h
    change tx.serialize = _
    rw [RegisterNodeTx.serialize, hvalid]
    rfl
  | reward tx =>
    have hvalid := (mapErr_eq_ok_iff _ _ _).mp h
    change tx.serialize = _
    rw [RewardTx.serialize, hvalid]
    rfl
  | nftMint tx => rfl
  | nftTransfer tx => rfl

theorem mapM_leaf_of_valid {kinds : List TxKind} (h : ∀ kind ∈ kinds, kind.validate = .ok ()) :
    kinds.mapM TxKind.leaf = .ok (kinds.map TxKind.payload) := by
  induction kinds with
  | nil => rfl
  | cons kind kinds ih =>
    rw [List.mapM_cons, TxKind.leaf_of_valid (h kind List.mem_cons_self), ok_bind,
      ih fun kind' h' => h kind' (List.mem_cons_of_mem kind h'), ok_bind]
    rfl

theorem payload_sum_le (kinds : List TxKind) :
    ((kinds.map TxKind.payload).map List.length).sum ≤ kindsLen kinds := by
  rw [List.map_map, kindsLen]
  refine List.sum_le_sum fun kind _ => ?_
  have hlen := kind.serialize_length
  change kind.payload.length ≤ _
  omega

theorem kindsLen_append (kinds more : List TxKind) :
    kindsLen (kinds ++ more) = kindsLen kinds + kindsLen more := by
  rw [kindsLen, List.map_append, List.sum_append]
  rfl

theorem kindsLen_pos {kinds : List TxKind} (h : kinds ≠ []) : 0 < kindsLen kinds := by
  obtain ⟨kind, rest, rfl⟩ := List.exists_cons_of_ne_nil h
  have hpos : 0 < kind.serialize.length := List.length_pos_iff.mpr kind.serialize_ne_nil
  rw [kindsLen, List.map_cons, List.sum_cons]
  omega

theorem kindsLen_le_of_initial {kinds more : List TxKind} (h : kinds <+: more) :
    kindsLen kinds ≤ kindsLen more := by
  obtain ⟨rest, rfl⟩ := h
  rw [kindsLen_append]
  exact Nat.le_add_right _ _

/-- Everything of an unsigned batch that is not a transaction fits in 31 bytes. -/
theorem serialize_length_le (index timestamp : UInt64) (kinds : List TxKind) :
    (TransactionBatch.serialize ⟨index, timestamp, kinds, none⟩).length ≤ kindsLen kinds + 31 := by
  have hsum : (kinds.flatMap TxKind.codec.enc).length = kindsLen kinds := by
    rw [List.length_flatMap]
    rfl
  have hindex := encodeVarint_length_le 10 index.toNat
  have htime := encodeVarint_length_le 10 timestamp.toNat
  have hcount := encodeVarint_length_le 10 kinds.length
  change (encodeVarint 10 index.toNat ++ (encodeVarint 10 timestamp.toNat ++
    ((encodeVarint 10 kinds.length ++ kinds.flatMap TxKind.codec.enc) ++ [0]))).length ≤ _
  simp only [List.length_append, hsum, List.length_singleton]
  omega

/-! ### Selection -/

theorem trimToBudget_reverse (remaining : ℕ) (pairs : List Pending) :
    trimToBudget remaining pairs.reverse <+: pairs ∧
      (trimToBudget remaining pairs.reverse = [] ∨
        kindsLen ((trimToBudget remaining pairs.reverse).map Prod.snd) ≤ remaining) := by
  induction pairs using List.reverseRecOn with
  | nil => exact ⟨List.prefix_rfl, .inl rfl⟩
  | append_singleton pairs pair ih =>
    have hcons : (pairs ++ [pair]).reverse = pair :: pairs.reverse := by
      rw [List.reverse_append, List.reverse_singleton, List.singleton_append]
    rw [hcons, trimToBudget]
    split
    · exact ⟨ih.1.trans (List.prefix_append pairs [pair]), ih.2⟩
    · rename_i hfits
      have hrev : (pair :: pairs.reverse).reverse = pairs ++ [pair] := by
        rw [List.reverse_cons, List.reverse_reverse]
      rw [hrev]
      refine ⟨List.prefix_rfl, .inr ?_⟩
      -- The size of a list does not depend on its order.
      have hperm : kindsLen ((pairs ++ [pair]).map Prod.snd) =
          kindsLen ((pair :: pairs.reverse).map Prod.snd) := by
        have hsame : ((pairs ++ [pair]).map Prod.snd).Perm ((pair :: pairs.reverse).map Prod.snd) := by
          rw [← hcons]
          exact (List.reverse_perm _).symm.map _
        exact (hsame.map _).sum_eq
      omega

/-- User transactions a candidate block may carry. -/
structure Usable [Blake3] (p : Prepared) (kept : List Pending) : Prop where
  stored : ∀ e ∈ kept, MemPool.Stored e.2.serialize e.2
  distinct : kept.Pairwise fun e e' => ∀ tx tx', e.2 = .transfer tx → e'.2 = .transfer tx' →
    tx.id ≠ tx'.id
  count : kept.length + p.system.length ≤ maxTxsPerBlock
  size : kept = [] ∨
    kindsLen (p.system ++ kept.map Prod.snd) ≤ MemPool.batchBudgetBytes

/-- What is left after the count has been cut down as well. -/
def Prepared.selected (p : Prepared) : List Pending := p.kept.take (maxTxsPerBlock - p.system.length)

theorem Usable.of_prefix [Blake3] {p : Prepared} {kept pre : List Pending} (h : Usable p kept)
    (hpre : pre <+: kept) : Usable p pre := by
  refine ⟨fun e he => h.stored e (hpre.subset he), h.distinct.sublist hpre.sublist, ?_, ?_⟩
  · have hlen := hpre.length_le
    have hcount := h.count
    omega
  · rcases h.size with hnil | hsize
    · subst hnil
      exact .inl (List.prefix_nil.mp hpre)
    · refine .inr (Nat.le_trans (kindsLen_le_of_initial ?_) hsize)
      rw [List.prefix_append_right_inj]
      exact hpre.map _

theorem selected_usable [Blake3] {db : RockDB} (hdb : MemPool.Sound db) {p : Prepared}
    {entries : List Pending} (hfetch : MemPool.Fetched db entries)
    (hkept : p.kept = keepPairs p.system entries) (hsystem : p.system.length ≤ maxTxsPerBlock) :
    Usable p p.selected := by
  obtain ⟨hinitial, htrim⟩ := trimToBudget_reverse
    (maxBlockSize - blockOverheadReserve - kindsLen p.system) entries
  have hsub : p.selected <+: entries := by
    rw [Prepared.selected, hkept]
    exact ( List.take_prefix _ _).trans hinitial
  refine ⟨fun e he => hfetch.stored e (hsub.subset he),
    (hfetch.ids_nodup hdb).sublist hsub.sublist, ?_, ?_⟩
  · have hlen : p.selected.length ≤ maxTxsPerBlock - p.system.length := List.length_take_le _ _
    omega
  · by_cases hnil : p.selected = []
    · exact .inl hnil
    · have hcut : p.selected <+: p.kept := List.take_prefix _ _
      have hne : p.kept ≠ [] := fun h => hnil (List.prefix_nil.mp (h ▸ hcut))
      have hkindsNe : p.kept.map Prod.snd ≠ [] := fun h => hne (List.map_eq_nil_iff.mp h)
      have hpos := kindsLen_pos hkindsNe
      have hfits : kindsLen (p.kept.map Prod.snd) ≤
          maxBlockSize - blockOverheadReserve - kindsLen p.system := by
        rw [hkept] at hne ⊢
        exact htrim.resolve_left hne
      have hshort := kindsLen_le_of_initial (hcut.map Prod.snd)
      refine .inr ?_
      rw [kindsLen_append, MemPool.batchBudgetBytes]
      omega

/-! ### Distinct transfers -/

open BlockchainValidation

theorem mem_transfers {kinds : List TxKind} {tx : Transaction} :
    tx ∈ transfers kinds ↔ .transfer tx ∈ kinds := by
  rw [transfers, List.mem_filterMap]
  constructor
  · rintro ⟨kind, hmem, hkind⟩
    split at hkind
    · rwa [← Option.some.inj hkind]
    · cases hkind
  · intro hmem
    exact ⟨_, hmem, rfl⟩

theorem transfers_append (kinds more : List TxKind) :
    transfers (kinds ++ more) = transfers kinds ++ transfers more :=
  List.filterMap_append

theorem detectDoubleSpend_ok {ids : List String} (hnodup : ids.Nodup)
    (hcount : ids.length ≤ maxTxsPerBlock) : DetectionSystem.detectDoubleSpend ids = .ok () := by
  have hstep : ∀ txId ∈ ids, ∀ seen : List String, seen.length < maxTxsPerBlock →
      id txId ∉ seen.map id → ∃ b, DetectionSystem.scanId seen txId = .ok (b :: seen) ∧
        id b = id txId := by
    intro txId _ seen hlen hfresh
    rw [List.map_id, id] at hfresh
    refine ⟨txId, ?_, rfl⟩
    rw [DetectionSystem.scanId, rejectIf_of_not _ (by omega), ok_bind, rejectIf_of_not _ hfresh]
    rfl
  obtain ⟨out, hout⟩ := foldlM_scan_ok maxTxsPerBlock ids [] hstep (by simpa using hcount)
    (by simpa using hnodup) (by simp)
  rw [DetectionSystem.detectDoubleSpend, hout]
  rfl

theorem detectReplay_ok {ids : List String} (hnodup : ids.Nodup)
    (hcount : ids.length ≤ maxTxsPerBlock) :
    DetectionSystem.detectReplay (ids.map fun id => (id, [])) = .ok () := by
  have hstep : ∀ item ∈ ids.map fun id => (id, ([] : List UInt8)),
      ∀ seen : List (String × List UInt8), seen.length < maxTxsPerBlock →
      item.1 ∉ seen.map Prod.fst → ∃ b, DetectionSystem.scanPair seen item = .ok (b :: seen) ∧
        b.1 = item.1 := by
    intro item _ seen hlen hfresh
    have hpair : item ∉ seen := fun hmem => hfresh (List.mem_map_of_mem hmem)
    refine ⟨item, ?_, rfl⟩
    rw [DetectionSystem.scanPair, rejectIf_of_not _ (by omega), ok_bind, rejectIf_of_not _ hpair,
      ok_bind, rejectIf_of_not _ hfresh]
    rfl
  have hkeys : ((ids.map fun id => (id, ([] : List UInt8))).map Prod.fst).Nodup := by
    have hids : (ids.map fun id => (id, ([] : List UInt8))).map Prod.fst = ids := by
      rw [List.map_map]
      exact List.map_id ids
    rwa [hids]
  obtain ⟨out, hout⟩ := foldlM_scan_ok maxTxsPerBlock _ [] hstep (by simpa using hcount) hkeys
    (by simp)
  rw [DetectionSystem.detectReplay, hout]
  rfl

section Ids
variable [Blake3]

/-- The id of a transaction that serializes. -/
def Transaction.idText (tx : Transaction) : String :=
  Blake3.toHex (Blake3.hash (Transaction.codec.enc tx)).toList

theorem Transaction.id_of_valid {tx : Transaction} (h : tx.validateStructural = .ok ()) :
    tx.id = .ok tx.idText := by
  rw [Transaction.id, Transaction.serialize, h]
  rfl

/-- Transfers that can be listed by their ids without repetition. -/
structure Listed (txs : List Transaction) : Prop where
  valid : ∀ tx ∈ txs, tx.validateStructural = .ok ()
  nodup : (txs.map Transaction.idText).Nodup
  count : txs.length ≤ maxTxsPerBlock

theorem Listed.ids {txs : List Transaction} (h : Listed txs) :
    txs.mapM Transaction.id = .ok (txs.map Transaction.idText) := by
  have hvalid := h.valid
  clear h
  induction txs with
  | nil => rfl
  | cons tx txs ih =>
    rw [List.mapM_cons, Transaction.id_of_valid (hvalid tx List.mem_cons_self), ok_bind,
      ih fun tx' h' => hvalid tx' (List.mem_cons_of_mem tx h'), ok_bind]
    rfl

theorem Listed.rejectRepeatedId {txs : List Transaction} (h : Listed txs) :
    ∃ out, txs.foldlM rejectRepeatedId [] = .ok out := by
  have hstep : ∀ tx ∈ txs, ∀ seen : List String, seen.length < maxTxsPerBlock →
      tx.idText ∉ seen.map id → ∃ b, BlockchainBuilder.rejectRepeatedId seen tx = .ok (b :: seen) ∧
        id b = tx.idText := by
    intro tx htx seen _ hfresh
    rw [List.map_id] at hfresh
    refine ⟨tx.idText, ?_, rfl⟩
    rw [BlockchainBuilder.rejectRepeatedId, Transaction.id_of_valid (h.valid tx htx), ok_bind,
      rejectIf_of_not _ hfresh]
    rfl
  exact foldlM_scan_ok maxTxsPerBlock txs [] hstep (by simpa using h.count) h.nodup (by simp)

theorem Usable.listed {p : Prepared} {kept : List Pending} (h : Usable p kept) :
    Listed (transfers (kept.map Prod.snd)) := by
  have hvalid : ∀ tx ∈ transfers (kept.map Prod.snd), tx.validateStructural = .ok () := by
    intro tx htx
    obtain ⟨e, he, heq⟩ := List.mem_map.mp (mem_transfers.mp htx)
    have hstored := (h.stored e he).2.1
    rw [heq] at hstored
    exact (mapErr_eq_ok_iff _ _ _).mp hstored
  refine ⟨hvalid, ?_, ?_⟩
  · rw [List.Nodup, List.pairwise_map]
    have hdistinct : (transfers (kept.map Prod.snd)).Pairwise fun tx tx' => tx.id ≠ tx'.id := by
      rw [transfers, List.filterMap_map, List.pairwise_filterMap]
      refine h.distinct.imp ?_
      intro e e' hne tx htx tx' htx'
      refine hne tx tx' ?_ ?_
      · dsimp only [Function.comp] at htx
        split at htx
        · rename_i heq
          rw [heq, Option.some.inj htx]
        · cases htx
      · dsimp only [Function.comp] at htx'
        split at htx'
        · rename_i heq
          rw [heq, Option.some.inj htx']
        · cases htx'
    refine hdistinct.imp_of_mem ?_
    intro tx tx' htx htx' hne heq
    rw [Transaction.id_of_valid (hvalid tx htx), Transaction.id_of_valid (hvalid tx' htx'), heq]
      at hne
    exact hne rfl
  · have hlen : (transfers (kept.map Prod.snd)).length ≤ kept.length := by
      rw [transfers]
      exact (List.length_filterMap_le _ _).trans (List.length_map _).le
    have hcount := h.count
    omega

theorem Listed.checkUserKinds {kinds : List TxKind} (h : Listed (transfers kinds)) :
    checkUserKinds kinds = .ok () := by
  obtain ⟨out, hout⟩ := h.rejectRepeatedId
  have hcount : ((transfers kinds).map Transaction.idText).length ≤ maxTxsPerBlock := by
    rw [List.length_map]
    exact h.count
  rw [BlockchainBuilder.checkUserKinds, hout, ok_bind, BlockchainValidation.transferIds, h.ids, ok_bind,
    detectDoubleSpend_ok h.nodup hcount, ok_bind]
  exact detectReplay_ok h.nodup hcount

end Ids

/-! ### Assembly -/

theorem computeMerkleRoot_ok [Blake3] (index timestamp : UInt64) {kinds : List TxKind}
    (hvalid : ∀ kind ∈ kinds, kind.validate = .ok ())
    (hsize : kindsLen kinds ≤ MemPool.batchBudgetBytes) :
    ∃ root, TransactionBatch.computeMerkleRoot ⟨index, timestamp, kinds, none⟩ = .ok root := by
  have hblob : ∀ blob ∈ (kinds.map TxKind.payload).map Postcard.bytes.enc,
      ensureSizeLimit blob.length "compute_merkle_root(tx)" = .ok () := by
    intro blob hblob
    obtain ⟨payload, hpayload, rfl⟩ := List.mem_map.mp hblob
    have hle : payload.length ≤ ((kinds.map TxKind.payload).map List.length).sum :=
      List.single_le_sum (by simp) _ (List.mem_map_of_mem hpayload)
    have hsum := payload_sum_le kinds
    have henc := encodeVarint_length_le 10 payload.length
    have hbudget : MemPool.batchBudgetBytes + 10 ≤ maxSerializedBytes := by decide
    refine rejectIf_of_not _ (Nat.not_lt.mpr ?_)
    change (encodeVarint 10 payload.length ++ payload).length ≤ _
    rw [List.length_append]
    omega
  rw [TransactionBatch.computeMerkleRoot, TransactionBatch.leaves, mapM_leaf_of_valid hvalid, ok_bind,
    remzarComputeMerkleRoot]
  rw [(forM_eq_ok_iff _ _).mpr hblob, ok_bind]
  split
  · exact ⟨_, rfl⟩
  · exact ⟨_, rfl⟩

theorem finalizeBlock_ok [Blake3] {sk : SigningKey} (hsk : sk.Works) (prevHash : Hash)
    {index timestamp : UInt64} {kinds : List TxKind}
    (hvalid : ∀ kind ∈ kinds, kind.validate = .ok ()) (hcount : kinds.length ≤ maxTxsPerBlock)
    (hsize : kindsLen kinds ≤ MemPool.batchBudgetBytes)
    (hroot : ∀ root, signedMerkleRoot ((kinds.map TxKind.payload).map Blake3.xof64) = .ok root →
      root ≠ zeroHash) :
    ∃ sig root, TransactionBatch.computeMerkleRoot ⟨index, timestamp, kinds, none⟩ = .ok root ∧
      TransactionBatch.finalizeBlock sk prevHash ⟨index, timestamp, kinds, none⟩ =
        .ok (⟨index, timestamp, prevHash, root, sig, none, UInt64.ofNat maxBlockSize⟩,
          ⟨index, timestamp, kinds, some sig.toList⟩) := by
  have hleaves : TransactionBatch.leaves ⟨index, timestamp, kinds, none⟩ =
      .ok (kinds.map TxKind.payload) := mapM_leaf_of_valid hvalid
  have hsum := payload_sum_le kinds
  have hbudget : MemPool.batchBudgetBytes + 31 ≤ maxBlockSize := by decide
  have hitem : MemPool.batchBudgetBytes ≤ maxItemBytes := by decide
  have hitems : maxTxsPerBlock ≤ maxBatchItems := by decide
  obtain ⟨root, hmerkle⟩ := computeMerkleRoot_ok index timestamp hvalid hsize
  obtain ⟨_, sig, -, -, hsign, -⟩ := signBatchAs_ok hsk "Batch" 0
    (kinds.map TxKind.payload) (by rw [List.length_map]; omega) (by omega) hroot
  have hserial := serialize_length_le index timestamp kinds
  refine ⟨sig, root, hmerkle, ?_⟩
  rw [TransactionBatch.finalizeBlock, TransactionBatch.totalSize, hleaves]
  simp only [ok_bind, pure_bind_ok]
  rw [rejectIf_of_not _ (by omega), ok_bind, TransactionBatch.serializeForStorage]
  rw [rejectIf_of_not _ (by omega), ok_bind, pure_bind_ok, TransactionBatch.signBatch, hleaves,
    ok_bind, MlDsa65BatchSignature.signBatch, hsign, ok_bind, hmerkle]
  rfl

theorem validateBatchKind_valid {kind : TxKind} (h : validateBatchKind kind = .ok ()) :
    kind.validate = .ok () := by
  cases kind with
  | transfer tx =>
    simp only [validateBatchKind, validateTransaction, bind_eq_ok_iff] at h
    obtain ⟨_, hvalid, -⟩ := h
    exact (mapErr_eq_ok_iff _ _ _).mpr hvalid
  | registerNode tx => exact h
  | reward tx => exact h
  | nftMint tx => exact h
  | nftTransfer tx => exact h

theorem validateBatchKind_of_valid {kind : TxKind} (h : kind.validate = .ok ())
    (hamount : ∀ tx, kind = .transfer tx → tx.amount ≤ maxTxAmount) :
    validateBatchKind kind = .ok () := by
  cases kind with
  | transfer tx =>
    have hvalid := (mapErr_eq_ok_iff _ _ _).mp h
    have hsmall : ¬maxTxAmount < tx.amount := UInt64.not_lt.mpr (hamount tx rfl)
    rw [validateBatchKind, validateTransaction, hvalid, ok_bind, rejectIf_of_not _ hsmall]
  | registerNode tx => exact h
  | reward tx => exact h
  | nftMint tx => exact h
  | nftTransfer tx => exact h

section Assemble
variable [Blake3] {builder : BlockchainBuilder} {p : Prepared} {kept : List Pending} {c : Candidate}

/-- The batch of a candidate before it is signed. -/
def Prepared.unsigned (p : Prepared) (kept : List Pending) : TransactionBatch :=
  ⟨p.parent.index, p.parent.timestamp, p.system ++ kept.map Prod.snd, none⟩

/-- The header of a candidate. -/
def Prepared.header (p : Prepared) (root : Hash) (sig : SignatureArray)
    (proof : Option BlockPuzzleProof) : BlockMetadata :=
  ⟨p.parent.index, p.parent.timestamp, p.parent.hash, root, sig, proof, UInt64.ofNat maxBlockSize⟩

theorem signBatchAs_inv {signer : String} {draw : ℕ} {sk : SigningKey} {data : List (List UInt8)}
    {sig : SignatureArray} (h : signBatchAs signer draw sk data = .ok sig) :
    ∃ root, signedMerkleRoot (data.map Blake3.xof64) = .ok root ∧ sk.trySign draw root = .ok sig := by
  simp only [signBatchAs, computeBatchMerkleRoot, bind_eq_ok_iff, pure_eq_ok_iff,
    mapErr_eq_ok_iff] at h
  obtain ⟨-, -, root, ⟨root', hroot, -, -, rfl⟩, hsig⟩ := h
  exact ⟨root', hroot, hsig⟩

/-- Everything that went into a candidate. -/
theorem assemble_inv (h : builder.assemble p kept = .ok c) :
    (∀ kind ∈ p.system ++ kept.map Prod.snd, validateBatchKind kind = .ok ()) ∧
    ∃ leaves leafRoot sliceRoot root proof sig, (p.unsigned kept).leaves = .ok leaves ∧
      signedMerkleRoot (leaves.map Blake3.xof64) = .ok leafRoot ∧
      signedMerkleRoot (((p.unsigned kept).transactions.map TxKind.serialize).map Blake3.xof64) =
        .ok sliceRoot ∧
      (p.unsigned kept).computeMerkleRoot = .ok root ∧ builder.stagedProof p.parent = .ok proof ∧
      builder.signingKey.trySign 1 sliceRoot = .ok sig ∧
      Block.new (p.header root sig proof) (some (batchKeyString p.parent.index))
        builder.consensus.localWallet p.blockReward = .ok c.block ∧
      c.block.serializeForStorage = .ok c.blockBytes := by
  simp only [assemble, validateTransactionBatch, TransactionBatch.finalizeBlock, bind_eq_ok_iff,
    pure_eq_ok_iff] at h
  obtain ⟨-, -, ⟨metadata, batch⟩, ⟨_, hvalid, -, -, -, -, -, -, -, -, -, -, sig₀, hsign, root, hroot,
    hpair⟩, -, -, proof, hproof, sig, hsig, block, hnew, bytes, hbytes, rfl⟩ := h
  obtain ⟨rfl, rfl⟩ := Prod.mk.inj hpair
  simp only [TransactionBatch.signBatch, bind_eq_ok_iff] at hsign
  obtain ⟨leaves, hleaves, hsign⟩ := hsign
  obtain ⟨leafRoot, hleafRoot, -⟩ := signBatchAs_inv hsign
  obtain ⟨sliceRoot, hsliceRoot, htry⟩ := signBatchAs_inv hsig
  exact ⟨(forM_eq_ok_iff _ _).mp hvalid, leaves, leafRoot, sliceRoot, root, proof, sig, hleaves,
    hleafRoot, hsliceRoot, hroot, hproof, htry, hnew, hbytes⟩

/-- The hashes that a candidate computes: the two signed roots, the Merkle root and the
block hash. -/
def candidateHashes (builder : BlockchainBuilder) (p : Prepared) (kept : List Pending) :
    Fallible (List Hash) := do
  let leaves ← (p.unsigned kept).leaves
  let leafRoot ← signedMerkleRoot (leaves.map Blake3.xof64)
  let sliceRoot ← signedMerkleRoot
    (((p.unsigned kept).transactions.map TxKind.serialize).map Blake3.xof64)
  let root ← (p.unsigned kept).computeMerkleRoot
  let sig ← mapErr .cryptographicError (builder.signingKey.trySign 1 sliceRoot)
  return [leafRoot, sliceRoot, root, Blake3.xof64 (Block.hashPreimage (p.header root sig none)
    (some (batchKeyString p.parent.index)) p.blockReward)]

/-- A hash that the node has not met: not the zero sentinel, not the parent, not indexed. -/
def Unknown (db : RockDB) (parent : Hash) (hash : Hash) : Prop :=
  hash ≠ zeroHash ∧ hash ≠ parent ∧ db.getBlockByHash hash = none

theorem candidateHashes_ok {leaves : List (List UInt8)} {leafRoot sliceRoot root : Hash}
    {sig : SignatureArray} (hleaves : (p.unsigned kept).leaves = .ok leaves)
    (hleafRoot : signedMerkleRoot (leaves.map Blake3.xof64) = .ok leafRoot)
    (hsliceRoot : signedMerkleRoot
      (((p.unsigned kept).transactions.map TxKind.serialize).map Blake3.xof64) = .ok sliceRoot)
    (hroot : (p.unsigned kept).computeMerkleRoot = .ok root)
    (hsig : builder.signingKey.trySign 1 sliceRoot = .ok sig) :
    candidateHashes builder p kept = .ok [leafRoot, sliceRoot, root,
      Blake3.xof64 (Block.hashPreimage (p.header root sig none)
        (some (batchKeyString p.parent.index)) p.blockReward)] := by
  rw [candidateHashes, hleaves, ok_bind, hleafRoot, ok_bind, hsliceRoot, ok_bind, hroot, ok_bind, hsig]
  rfl

theorem assemble_hash (h : builder.assemble p kept = .ok c) :
    ∃ hashes, candidateHashes builder p kept = .ok hashes ∧ c.block.blockHash ∈ hashes := by
  obtain ⟨-, leaves, leafRoot, sliceRoot, root, proof, sig, hleaves, hleafRoot, hsliceRoot, hroot, -,
    hsig, hnew, -⟩ := assemble_inv h
  refine ⟨_, candidateHashes_ok hleaves hleafRoot hsliceRoot hroot hsig, ?_⟩
  obtain ⟨-, -, -, canon, -, hblock⟩ := Block.new_ok.mp hnew
  rw [hblock]
  simp only [List.mem_cons]
  exact .inr (.inr (.inr (.inl rfl)))

/-- A candidate that carries a transfer above the maximum is never assembled. -/
theorem assemble_amounts (h : builder.assemble p kept = .ok c) :
    ∀ tx ∈ transfers (kept.map Prod.snd), tx.amount ≤ maxTxAmount := by
  obtain ⟨hvalid, -⟩ := assemble_inv h
  intro tx htx
  have hkind := hvalid _ (List.mem_append_right _ (mem_transfers.mp htx))
  simp only [validateBatchKind, validateTransaction, bind_eq_ok_iff, rejectIf_eq_ok_iff] at hkind
  obtain ⟨-, -, hsmall⟩ := hkind
  exact UInt64.not_lt.mp hsmall

/-- From the candidate without user transactions to the candidate with them. -/
theorem assemble_ok {c₀ : Candidate} (hempty : builder.assemble p [] = .ok c₀)
    (hindex : p.parent.index ≠ 0) (hsystem : transfers p.system = [])
    (hsk : builder.signingKey.Works) (hkept : Usable p kept)
    (hamount : ∀ tx ∈ transfers (kept.map Prod.snd), tx.amount ≤ maxTxAmount) {db : RockDB}
    (hhash : ∀ hashes, candidateHashes builder p kept = .ok hashes →
      ∀ hash ∈ hashes, Unknown db p.parent.hash hash) :
    ∃ c, builder.assemble p kept = .ok c := by
  rcases hkept.size with rfl | hsize
  · exact ⟨c₀, hempty⟩
  obtain ⟨hvalid₀, -, -, -, root₀, proof, sig₀, -, -, -, -, hproof, -, hnew₀, hbytes₀⟩ :=
    assemble_inv hempty
  have hvalidBatch : ∀ kind ∈ p.system ++ kept.map Prod.snd, validateBatchKind kind = .ok () := by
    intro kind hkind
    rcases List.mem_append.mp hkind with hsys | huser
    · exact hvalid₀ kind (List.mem_append_left _ hsys)
    · obtain ⟨e, he, rfl⟩ := List.mem_map.mp huser
      refine validateBatchKind_of_valid (hkept.stored e he).2.1 ?_
      intro tx htx
      exact hamount tx (mem_transfers.mpr (htx ▸ huser))
  have hvalid := fun kind hkind => validateBatchKind_valid (hvalidBatch kind hkind)
  have hcount : (p.system ++ kept.map Prod.snd).length ≤ maxTxsPerBlock := by
    have hlen := hkept.count
    rw [List.length_append, List.length_map]
    omega
  have hitems : maxTxsPerBlock ≤ maxBatchItems := by decide
  have hitem : MemPool.batchBudgetBytes ≤ maxItemBytes := by decide
  have hleaves : (p.unsigned kept).leaves =
      .ok ((p.system ++ kept.map Prod.snd).map TxKind.payload) := mapM_leaf_of_valid hvalid
  obtain ⟨root, hroot⟩ := computeMerkleRoot_ok p.parent.index p.parent.timestamp hvalid hsize
  -- Both signed roots exist; the hashes of the candidate then are all known to be fresh.
  obtain ⟨leafRoot, hleafRoot⟩ := signedMerkleRoot_ok
    (((p.system ++ kept.map Prod.snd).map TxKind.payload).map Blake3.xof64)
    (by rw [List.length_map, List.length_map]; omega)
  obtain ⟨sliceRoot, hsliceRoot⟩ := signedMerkleRoot_ok
    (((p.system ++ kept.map Prod.snd).map TxKind.serialize).map Blake3.xof64)
    (by rw [List.length_map, List.length_map]; omega)
  obtain ⟨sig, htry, hsigZero⟩ := hsk 1 sliceRoot
  have hfresh := hhash _ (candidateHashes_ok hleaves hleafRoot hsliceRoot hroot htry)
  simp only [List.mem_cons, List.not_mem_nil, or_false, forall_eq_or_imp, forall_eq] at hfresh
  obtain ⟨hleafFresh, hsliceFresh, hrootFresh, hblockFresh⟩ := hfresh
  obtain ⟨sig₁, root', hroot', hfinal⟩ := finalizeBlock_ok hsk p.parent.hash hvalid hcount hsize
    (fun r hr => Except.ok.inj (hleafRoot.symm.trans hr) ▸ hleafFresh.1)
  obtain rfl : root = root' := Except.ok.inj (hroot.symm.trans hroot')
  have hguardian : GuardianSignature.signBatch builder.signingKey
      ((p.system ++ kept.map Prod.snd).map TxKind.serialize) = .ok sig := by
    have hsum : (((p.system ++ kept.map Prod.snd).map TxKind.serialize).map List.length).sum ≤
        maxItemBytes := by
      rw [List.map_map]
      exact hsize.trans hitem
    obtain ⟨r, sig', hr, hsig', hsign, -⟩ := signBatchAs_ok hsk "Guardian Node" 1 _
      (by rw [List.length_map]; omega) hsum
      (fun r hr => Except.ok.inj (hsliceRoot.symm.trans hr) ▸ hsliceFresh.1)
    obtain rfl : sliceRoot = r := Except.ok.inj (hsliceRoot.symm.trans hr)
    obtain rfl : sig = sig' := Except.ok.inj (htry.symm.trans hsig')
    exact hsign
  obtain ⟨block, bytes, hnew, hbytes, -, -⟩ := Block.reseal_stored hnew₀ hbytes₀ hindex
    hrootFresh.1 hrootFresh.2.1 hsigZero hblockFresh.1
  have hlisted := hkept.listed
  have htransfers : transfers (p.system ++ kept.map Prod.snd) = transfers (kept.map Prod.snd) := by
    rw [transfers_append, hsystem, List.nil_append]
  have hids : ((transfers (kept.map Prod.snd)).map Transaction.idText).length ≤ maxTxsPerBlock := by
    rw [List.length_map]
    exact hlisted.count
  refine ⟨⟨block, bytes, TransactionBatch.serialize ⟨p.parent.index, p.parent.timestamp,
    p.system ++ kept.map Prod.snd, some sig₁.toList⟩, kept.map Prod.fst⟩, ?_⟩
  simp only [assemble, hlisted.checkUserKinds, ok_bind, validateTransactionBatch,
    (forM_eq_ok_iff _ _).mpr hvalidBatch, BlockchainValidation.transferIds, htransfers, hlisted.ids,
    detectDoubleSpend_ok hlisted.nodup hids, hfinal]
  rw [rejectIf_of_not _ (not_not.mpr rfl), ok_bind, hproof, ok_bind, hguardian, ok_bind]
  change (Block.new ((p.header root₀ sig₀ proof).reseal root sig) _ _ _ >>= _) = _
  rw [hnew, ok_bind, hbytes]
  rfl

theorem attempt_ok (hkept : Usable p kept) (h : builder.assemble p kept = .ok c) :
    ∃ r, builder.attempt p kept = .ok r := by
  rw [attempt, if_neg (Nat.not_lt.mpr hkept.count), h, ok_bind]
  dsimp only
  split
  · rename_i hfits
    rw [DetectionSystem.checkBlockSize, rejectIf_of_not _ (Nat.not_lt.mpr hfits)]
    exact ⟨_, rfl⟩
  · exact ⟨_, rfl⟩

theorem attempt_inv (h : builder.attempt p kept = .ok (.ok c)) :
    builder.assemble p kept = .ok c ∧ p.system.length ≤ maxTxsPerBlock := by
  rw [attempt] at h
  split at h
  · cases Except.ok.inj h
  · rename_i hcount
    rw [bind_eq_ok_iff] at h
    obtain ⟨c', hc', h⟩ := h
    dsimp only at h
    split at h
    · simp only [bind_eq_ok_iff, pure_eq_ok_iff] at h
      obtain ⟨-, -, heq⟩ := h
      obtain rfl := Except.ok.inj heq
      exact ⟨hc', by omega⟩
    · cases h

/-- The blocks that are too long only ask for less. -/
theorem attempt_long (h : maxTxsPerBlock - p.system.length < kept.length) :
    ∃ e, builder.attempt p kept = .ok (.error e) := by
  rw [attempt, if_pos (by omega)]
  exact ⟨_, rfl⟩

end Assemble

/-! ### Preparation -/

/-- Two databases that differ in the mempool only. -/
def SameChain (db db' : RockDB) : Prop :=
  ∀ c, c ≠ .transaction → c ≠ .txToHash → db'.column c = db.column c

section Prepare
variable {db db' : RockDB}

theorem sameChain_clearMempool (db : RockDB) : SameChain db.clearMempool db := by
  intro c hc hc'
  rw [RockDB.column_clearMempool, if_neg (not_or.mpr ⟨hc, hc'⟩)]

theorem SameChain.read (h : SameChain db db') {c : ColumnName} (hc : c ≠ .transaction)
    (hc' : c ≠ .txToHash) (key : List UInt8) : db'.read c key = db.read c key := by
  rw [RockDB.read, RockDB.read, h c hc hc']

theorem SameChain.getTipHeight (h : SameChain db db') : db'.getTipHeight = db.getTipHeight := by
  rw [RockDB.getTipHeight, RockDB.getTipHeight, RockDB.getLatestBlockIndex,
    RockDB.getLatestBlockIndex, RockDB.readHeight, RockDB.readHeight, RockDB.readHeight,
    RockDB.readHeight, h.read (by decide) (by decide), h.read (by decide) (by decide)]

theorem SameChain.getLatestBlockHash (h : SameChain db db') :
    db'.getLatestBlockHash = db.getLatestBlockHash := by
  rw [RockDB.getLatestBlockHash, RockDB.getLatestBlockHash, RockDB.getLatestBlock,
    RockDB.getLatestBlock, h .blockmintData (by decide) (by decide)]

theorem SameChain.findParent (h : SameChain db db') (builder : BlockchainBuilder)
    (isSynced bypassLeader : Bool) :
    builder.findParent isSynced bypassLeader db' = builder.findParent isSynced bypassLeader db := by
  rw [BlockchainBuilder.findParent, BlockchainBuilder.findParent, h.getTipHeight,
    h.getLatestBlockHash]

theorem findParent_ok {builder : BlockchainBuilder} {isSynced bypassLeader : Bool} {parent : Parent}
    (h : builder.findParent isSynced bypassLeader db = .ok parent) :
    parent.tip = db.getTipHeight ∧ parent.index ≠ 0 ∧
      db.getLatestBlockHash = .ok parent.hash := by
  simp only [findParent, bind_eq_ok_iff, pure_eq_ok_iff, rejectIf_eq_ok_iff] at h
  obtain ⟨-, -, hash, hhash, -, hzero, -, -, timestamp, -, -, -, rfl⟩ := h
  exact ⟨rfl, hzero, hhash⟩

theorem systemKinds_transfers {builder : BlockchainBuilder} {index reward : UInt64}
    {kinds : List TxKind} (h : builder.systemKinds index = .ok (kinds, reward)) :
    transfers kinds = [] := by
  simp only [systemKinds, bind_eq_ok_iff, pure_eq_ok_iff] at h
  obtain ⟨⟨rewards, blockReward⟩, hrewards, -, -, heq⟩ := h
  obtain ⟨rfl, rfl⟩ := Prod.mk.inj heq
  have hreward : transfers rewards = [] := by
    rw [rewardKinds] at hrewards
    split at hrewards
    · simp only [bind_eq_ok_iff, pure_eq_ok_iff] at hrewards
      obtain ⟨-, -, tx, -, hpair⟩ := hrewards
      obtain ⟨rfl, -⟩ := Prod.mk.inj hpair
      rfl
    · obtain ⟨rfl, -⟩ := Prod.mk.inj (Except.ok.inj hrewards)
      rfl
  have hregister : ∀ regs : List RegisterNodeTx, transfers (regs.map TxKind.registerNode) = [] := by
    intro regs
    rw [transfers, List.filterMap_map]
    exact List.filterMap_eq_nil_iff.mpr fun _ _ => rfl
  rw [transfers_append, hreward, hregister]
  rfl

theorem prepare_inv {builder : BlockchainBuilder} {isSynced bypassLeader : Bool} {p : Prepared}
    (h : builder.prepare isSynced bypassLeader db = .ok p) :
    builder.findParent isSynced bypassLeader db = .ok p.parent ∧
      builder.systemKinds p.parent.index = .ok (p.system, p.blockReward) ∧
      ∃ entries, MemPool.fetchTransactionsForBlock builder.clock.record db = .ok entries ∧
        p.kept = keepPairs p.system entries := by
  simp only [prepare, bind_eq_ok_iff, pure_eq_ok_iff] at h
  obtain ⟨parent, hparent, entries, hentries, -, -, ⟨system, reward⟩, hsystem, rfl⟩ := h
  exact ⟨hparent, hsystem, entries, hentries, rfl⟩

/-- With nothing pending nothing is kept. -/
theorem prepare_clearMempool_kept {builder : BlockchainBuilder} {isSynced bypassLeader : Bool}
    {p : Prepared} (h : builder.prepare isSynced bypassLeader db.clearMempool = .ok p) :
    p.kept = [] := by
  obtain ⟨-, -, entries, hentries, hkept⟩ := prepare_inv h
  have hcolumn : db.clearMempool.column .transaction = ∅ := by
    rw [RockDB.column_clearMempool, if_pos (.inl rfl)]
  have hnone : MemPool.records db.clearMempool = [] := by
    rw [MemPool.records, hcolumn]
    rfl
  rw [MemPool.fetchTransactionsForBlock, hnone] at hentries
  obtain rfl := Except.ok.inj hentries
  rw [hkept]
  rfl

/-- What the mempool holds decides only which transactions are kept. -/
theorem prepare_of_clearMempool [Blake3] (hdb : MemPool.Sound db) {builder : BlockchainBuilder}
    {isSynced bypassLeader : Bool} {p₀ : Prepared}
    (h : builder.prepare isSynced bypassLeader db.clearMempool = .ok p₀) :
    ∃ entries, MemPool.Fetched db entries ∧
      builder.prepare isSynced bypassLeader db =
        .ok { p₀ with kept := keepPairs p₀.system entries } := by
  obtain ⟨hparent, hsystem, -⟩ := prepare_inv h
  obtain ⟨entries, hentries, hfetched⟩ := hdb.fetch builder.clock.record
  have hparent' := ((sameChain_clearMempool db).findParent builder isSynced bypassLeader).trans hparent
  refine ⟨entries, hfetched, ?_⟩
  rw [prepare, hparent', ok_bind, hentries, ok_bind,
    rejectIf_of_not _ (Nat.not_lt.mpr hfetched.count), ok_bind, hsystem]
  rfl

theorem recheckParent_ok {parent : Parent} {builder : BlockchainBuilder} {isSynced bypassLeader : Bool}
    (h : builder.findParent isSynced bypassLeader db = .ok parent) :
    recheckParent parent db = .ok () := by
  obtain ⟨htip, -, hhash⟩ := findParent_ok h
  rw [recheckParent, rejectIf_of_not _ (not_not.mpr htip.symm), ok_bind, hhash, ok_bind,
    rejectIf_of_not _ (not_not.mpr rfl)]

end Prepare

/-! ### Persistence -/

section Persist
variable [Blake3] {db db' : RockDB} {parent : Parent} {c : Candidate}

/-- A candidate is persisted by five writes, each of which can fail. -/
theorem persist_ok_iff :
    persist parent c db = .ok () db' ↔
      recheckParent parent db = .ok () ∧ db.read .blockmintData (RockDB.blockKey parent.index) = none ∧
      db.getBlockByHash c.block.blockHash = none ∧
      ∃ db₁, db.storeLatestBlock c.blockBytes parent.index = .ok db₁ ∧
      ∃ db₂, db₁.indexBlockByHash c.block.blockHash c.blockBytes = .ok db₂ ∧
      ∃ db₃, db₂.write .transactionBatch (batchKey parent.index) c.batchBytes = .ok db₃ ∧
        MemPool.removeTransactions c.txKeys
          ((db₃.setLatestBlockIndex parent.index).setTipHeight parent.index) = .ok db' := by
  constructor
  · intro h
    simp only [persist, storeNewBlock, run_bind_eq_ok_iff, lift_eq_ok_iff, update_eq_ok_iff] at h
    obtain ⟨_, _, hget, _, _, ⟨hparent, rfl⟩, _, db₂, ⟨_, _, hget', _, _, ⟨habsent, rfl⟩, _, _,
      ⟨hnew, rfl⟩, _, db₁, hstore, hindex⟩, _, db₃, hbatch, _, _, hmodify, hremove⟩ := h
    cases hget
    cases hget'
    cases hmodify
    rw [rejectIf_eq_ok_iff, Bool.not_eq_true, Option.isSome_eq_false_iff, Option.isNone_iff_eq_none]
      at habsent hnew
    exact ⟨hparent, habsent, hnew, db₁, hstore, db₂, hindex, db₃, hbatch, hremove⟩
  · rintro ⟨hparent, habsent, hnew, db₁, hstore, db₂, hindex, db₃, hbatch, hremove⟩
    simp only [persist, storeNewBlock, run_bind_eq_ok_iff, lift_eq_ok_iff, update_eq_ok_iff]
    have habsent' : rejectIf ((db.read .blockmintData (RockDB.blockKey parent.index)).isSome)
        (validationErr s!"block #{parent.index} already exists – refusing to overwrite") = .ok () := by
      rw [habsent]
      rfl
    have hnew' : rejectIf ((db.getBlockByHash c.block.blockHash).isSome) (validationErr
        s!"block hash already exists for height {parent.index} – refusing duplicate persist") =
        .ok () := by
      rw [hnew]
      rfl
    exact ⟨db, db, rfl, (), db, ⟨hparent, rfl⟩, (), db₂, ⟨db, db, rfl, (), db, ⟨habsent', rfl⟩, (), db,
      ⟨hnew', rfl⟩, (), db₁, hstore, hindex⟩, (), db₃, hbatch, (), _, rfl, hremove⟩

theorem storeLatestBlock_ok (hdb : MemPool.Sound db) {bytes : List UInt8} (hne : bytes ≠ [])
    (hlen : bytes.length ≤ maxBlockSize) (index : UInt64) :
    db.storeLatestBlock bytes index = .ok (db.put .blockmintData (RockDB.blockKey index) bytes) := by
  rw [RockDB.storeLatestBlock, hdb.batchProcessAll, ok_bind, rejectIf_of_not _ hne, ok_bind,
    rejectIf_of_not _ (Nat.not_lt.mpr hlen)]
  rfl

/-- A stored block of a fresh hash at a free height is all that persistence needs. -/
theorem persist_ok (hdb : MemPool.Sound db) (hparent : recheckParent parent db = .ok ())
    (hfree : db.read .blockmintData (RockDB.blockKey parent.index) = none)
    (hnew : db.getBlockByHash c.block.blockHash = none) (hindex : c.block.metadata.index ≠ 0)
    (hbytes : c.block.serializeForStorage = .ok c.blockBytes) :
    ∃ db', persist parent c db = .ok () db' := by
  obtain ⟨hvalid, hlen, henc⟩ := Block.serializeForStorage_ok.mp hbytes
  have hmin := c.block.minBlockSize_le
  rw [henc] at hlen hmin
  have hne : c.blockBytes ≠ [] := by
    intro hnil
    rw [hnil] at hmin
    exact absurd hmin (by decide)
  have hstore := storeLatestBlock_ok hdb hne hlen parent.index
  have hdecode := Block.deserialize_serialize hbytes hindex
  have hhash : ∀ db₁ : RockDB, db₁.indexBlockByHash c.block.blockHash c.blockBytes =
      .ok (db₁.put .blockToHash c.block.blockHash.toList c.blockBytes) := by
    intro db₁
    rw [RockDB.indexBlockByHash, hdecode, ok_bind, hbytes]
    rfl
  -- None of the writes before the last one touches the mempool.
  let db₂ := (db.put .blockmintData (RockDB.blockKey parent.index) c.blockBytes).put .blockToHash
    c.block.blockHash.toList c.blockBytes
  have hdb₂ : db₂.column .transaction = db.column .transaction := by
    rw [RockDB.column_put_of_ne _ _ _ (by decide), RockDB.column_put_of_ne _ _ _ (by decide)]
  have hwrite := (RockDB.write_eq_ok_iff db₂ _ .transactionBatch (batchKey parent.index)
    c.batchBytes).mpr ⟨(hdb.congr hdb₂).batchProcessAll, rfl⟩
  let db₃ := db₂.put .transactionBatch (batchKey parent.index) c.batchBytes
  have hdb₄ : ((db₃.setLatestBlockIndex parent.index).setTipHeight parent.index).column .transaction =
      db.column .transaction := by
    rw [RockDB.setTipHeight, RockDB.putHeight, RockDB.column_put_of_ne _ _ _ (by decide),
      RockDB.setLatestBlockIndex, RockDB.putHeight, RockDB.column_put_of_ne _ _ _ (by decide),
      RockDB.putHeight, RockDB.column_put_of_ne _ _ _ (by decide),
      RockDB.column_put_of_ne _ _ _ (by decide), hdb₂]
  obtain ⟨used, hused⟩ := (hdb.congr hdb₄).currentBuffer
  obtain ⟨db', hremove⟩ : ∃ db', MemPool.removeTransactions c.txKeys
      ((db₃.setLatestBlockIndex parent.index).setTipHeight parent.index) = .ok db' := by
    rw [MemPool.removeTransactions, hused, ok_bind]
    exact ⟨_, rfl⟩
  exact ⟨db', persist_ok_iff.mpr
    ⟨hparent, hfree, hnew, _, hstore, _, hhash _, _, hwrite, hremove⟩⟩

end Persist

/-! ### Block production -/

section Produce
variable [Blake3] {db : RockDB} {builder : BlockchainBuilder} {isSynced : Bool}

theorem createNewBlock_ok_iff {block : Block} {db' : RockDB} :
    builder.createNewBlock isSynced db = .ok block db' ↔
      ∃ p c, builder.prepare isSynced false db = .ok p ∧
        attemptDropping (builder.attempt p) p.kept.reverse = .ok c ∧
        persist p.parent c db = .ok () db' ∧ c.block = block := by
  constructor
  · intro h
    simp only [createNewBlock, createNewBlockWithBypass, plan, run_bind_eq_ok_iff, lift_eq_ok_iff,
      bind_eq_ok_iff, pure_eq_ok_iff] at h
    obtain ⟨_, _, hget, ⟨parent, c⟩, _, ⟨⟨p, hp, c', hc', hpair⟩, rfl⟩, _, db'', hpersist, hret⟩ := h
    cases hget
    obtain ⟨rfl, rfl⟩ := Prod.mk.inj hpair
    cases hret
    exact ⟨p, c', hp, hc', hpersist, rfl⟩
  · rintro ⟨p, c, hp, hc, hpersist, rfl⟩
    simp only [createNewBlock, createNewBlockWithBypass, plan, run_bind_eq_ok_iff, lift_eq_ok_iff,
      bind_eq_ok_iff, pure_eq_ok_iff]
    exact ⟨db, db, rfl, (p.parent, c), db, ⟨⟨p, hp, c, hc, rfl⟩, rfl⟩, (), db', hpersist, rfl⟩

/-- What an empty mempool would have led to. -/
structure WouldBuild (builder : BlockchainBuilder) (isSynced : Bool) (db : RockDB) (p₀ : Prepared)
    (c₀ : Candidate) : Prop where
  prepared : builder.prepare isSynced false db.clearMempool = .ok p₀
  fits : builder.attempt p₀ [] = .ok (.ok c₀)
  free : db.read .blockmintData (RockDB.blockKey p₀.parent.index) = none

theorem wouldBuild (h : succeeded (builder.createNewBlock isSynced db.clearMempool)) :
    ∃ p₀ c₀, WouldBuild builder isSynced db p₀ c₀ := by
  obtain ⟨block, db', hok⟩ := (succeeded_iff _).mp h
  obtain ⟨p₀, c₀, hp₀, hc₀, hpersist, -⟩ := createNewBlock_ok_iff.mp hok
  refine ⟨p₀, c₀, hp₀, ?_, ?_⟩
  · rw [prepare_clearMempool_kept hp₀, List.reverse_nil, attemptDropping, bind_eq_ok_iff] at hc₀
    obtain ⟨r, hr, hrok⟩ := hc₀
    cases r with
    | ok c =>
      obtain rfl := Except.ok.inj hrok
      exact hr
    | error e => cases hrok
  · obtain ⟨-, hfree, -⟩ := persist_ok_iff.mp hpersist
    rw [(sameChain_clearMempool db).read (by decide) (by decide)]
    exact hfree

/-- Block production with a used mempool: where an empty one would have given a block, this
one does exactly when every transfer it selects keeps the maximum amount. -/
theorem createNewBlock_succeeds_iff (builder : BlockchainBuilder) (isSynced : Bool) (db : RockDB)
    (hdb : MemPool.Reached db)
    (hempty : succeeded (builder.createNewBlock isSynced db.clearMempool))
    (hsign : builder.signingKey.Works)
    (hhash : ∀ p kept hashes, builder.prepare isSynced false db = .ok p → kept <+: p.selected →
      candidateHashes builder p kept = .ok hashes →
      ∀ hash ∈ hashes, Unknown db p.parent.hash hash) :
    succeeded (builder.createNewBlock isSynced db) ↔
      ∀ p, builder.prepare isSynced false db = .ok p →
        ∀ tx ∈ transfers (p.selected.map Prod.snd), tx.amount ≤ maxTxAmount := by
  have hsound := hdb.sound
  obtain ⟨p₀, c₀, hp₀, hc₀, hfree⟩ := wouldBuild hempty
  obtain ⟨entries, hfetched, hp⟩ := prepare_of_clearMempool hsound hp₀
  obtain ⟨hassemble₀, hsystemLen⟩ := attempt_inv hc₀
  obtain ⟨-, hsystem, -⟩ := prepare_inv hp₀
  obtain ⟨hparent, -, -⟩ := prepare_inv hp
  obtain ⟨-, hindex, -⟩ := findParent_ok hparent
  let p : Prepared := { p₀ with kept := keepPairs p₀.system entries }
  have husable : Usable p p.selected := selected_usable hsound hfetched rfl hsystemLen
  -- Candidates that are too long are cut down to the selection first.
  have hcut : attemptDropping (builder.attempt p) p.kept.reverse =
      attemptDropping (builder.attempt p) p.selected.reverse :=
    attemptDropping_take _ p.kept fun pre _ hlen => attempt_long hlen
  constructor
  · intro hok p' hp' tx htx
    obtain rfl : p = p' := Except.ok.inj (hp.symm.trans hp')
    cases hfirst : builder.assemble p p.selected with
    | ok c => exact assemble_amounts hfirst tx htx
    | error e =>
      exfalso
      have hattempt : builder.attempt p p.selected = .error e := by
        rw [attempt, if_neg (Nat.not_lt.mpr husable.count), hfirst]
        rfl
      obtain ⟨block, db', hrun⟩ := (succeeded_iff _).mp hok
      obtain ⟨p', c, hp', hc, -⟩ := createNewBlock_ok_iff.mp hrun
      obtain rfl : p = p' := Except.ok.inj (hp.symm.trans hp')
      rw [hcut, attemptDropping_error hattempt] at hc
      cases hc
  · intro hamounts
    have hassemble : ∀ pre, pre <+: p.selected → ∃ c, builder.assemble p pre = .ok c := by
      intro pre hpre
      refine assemble_ok (p := p) hassemble₀ hindex (systemKinds_transfers hsystem) hsign
        (husable.of_prefix hpre) ?_ (fun hashes => hhash p pre hashes hp hpre)
      intro tx htx
      refine hamounts p hp tx (mem_transfers.mpr ?_)
      exact (hpre.map Prod.snd).subset (mem_transfers.mp htx)
    obtain ⟨pre, c, hpre, hattempt, hdrop⟩ := attemptDropping_ok p.selected
      (fun pre hpre => (hassemble pre hpre).elim fun c hc => attempt_ok (husable.of_prefix hpre) hc)
      ⟨c₀, hc₀⟩
    obtain ⟨hassembled, -⟩ := attempt_inv hattempt
    obtain ⟨-, -, -, -, root, proof, sig, -, -, -, -, -, -, hnew, hbytes⟩ := assemble_inv hassembled
    obtain ⟨hashes, hcandidate, hmem⟩ := assemble_hash hassembled
    have hunknown := hhash p pre hashes hp hpre hcandidate _ hmem
    obtain ⟨-, -, -, canon, -, hblock⟩ := Block.new_ok.mp hnew
    have hblockIndex : c.block.metadata.index ≠ 0 := by
      rw [hblock]
      exact hindex
    obtain ⟨db', hpersist⟩ := persist_ok hsound (recheckParent_ok hparent) hfree hunknown.2.2
      hblockIndex hbytes
    exact (succeeded_iff _).mpr ⟨c.block, db',
      createNewBlock_ok_iff.mpr ⟨p, c, hp, hcut.trans hdrop, hpersist, rfl⟩⟩

end Produce

/-! ### A payment that can be built and one that cannot -/

namespace Sample

/-- A chain of one block. -/
def genesisDb : RockDB :=
  (RockDB.empty.put .blockmintData (RockDB.blockKey 0) (Block.codec.enc block0)).setLatestBlockIndex 0

def consensus : BlockchainConsensus where
  localWallet := miner
  assertCanBuildBlock _ _ _ := .ok ()
  pendingPuzzleProof := some ⟨1, miner, hash0, 7⟩
  rewardEligibleAt _ _ := false
  collectRegisterNodeTxsForBlock _ := []
  isCanonicallyKnown _ := .ok false

def builder : BlockchainBuilder :=
  ⟨consensus, ⟨fun _ _ => .ok signature⟩, ⟨1700000030, 1700000030, fun _ => 1700000030⟩⟩

def reading : MemPool.Reading := ⟨1700000020, 1700000020000, 7⟩

/-- The chain with one payment pending. -/
def pendingDb [Blake3] (amount : UInt64) : RockDB :=
  match MemPool.addTxKind reading (.transfer (payment amount)) genesisDb with
  | .ok db => db
  | .error _ => genesisDb

theorem addTxKind_pendingDb [Blake3] {amount : UInt64}
    (h : succeeds (MemPool.addTxKind reading (.transfer (payment amount)) genesisDb) = true) :
    MemPool.addTxKind reading (.transfer (payment amount)) genesisDb = .ok (pendingDb amount) := by
  obtain ⟨db, hdb⟩ := (succeeds_iff _).mp h
  have hpending : pendingDb amount = db := by
    unfold pendingDb
    rw [hdb]
  rw [hpending]
  exact hdb

theorem genesisDb_clearMempool : genesisDb.clearMempool = genesisDb := by
  have hcolumn : genesisDb.clearMempool.column = genesisDb.column := by
    funext c
    cases c <;> rfl
  exact congrArg (fun column => (⟨column, genesisDb.state, genesisDb.nfts⟩ : RockDB)) hcolumn

/-- The block of the pending payment; `emptyBlock1` is the block of an empty mempool. -/
def paidCandidate : Block := block 1 1700000030 hash0 root2
  (hashOfWords 0xdbe6a376c7f253862aeafe8c8c019e0e20f49e6beacc77b72caa697c33edf5df
    0xa66de3eaab2912026470693bcc2e0faf3c396b845dd811691ee43e2e8e375049)

/-- What the builder finds above `block0` while nothing is pending. -/
def emptyPrepared : Prepared := ⟨⟨0, 1, hash0, 1700000030⟩, [], 0, []⟩

/-- `emptyBlock1` with the staged proof. -/
def stagedBlock1 : Block :=
  { emptyBlock1 with metadata := { emptyBlock1.metadata with puzzleProof := some ⟨1, miner, hash0, 7⟩ } }

def emptyUnsigned : TransactionBatch := ⟨1, 1700000030, [], none⟩

def emptyCandidate : Candidate :=
  ⟨stagedBlock1, Block.codec.enc stagedBlock1,
    { emptyUnsigned with guardianSignature := some signature.toList }.serialize, []⟩

theorem signed_candidates : ∀ b ∈ [paidCandidate, stagedBlock1], Signed b := by
  apply signed_of_checksOut
  · simp only [List.forall_mem_cons]
    exact ⟨rfl, rfl, fun _ h => nomatch h⟩
  · decide +kernel

theorem signed_stagedBlock1 : Signed stagedBlock1 := signed_candidates stagedBlock1 (by simp)

theorem cached_candidates :
    Blake3.cached (hashTable [emptyBlock1, paidCandidate]) = Blake3.reference := by
  apply cached_of_signed
  simp only [List.forall_mem_cons]
  exact ⟨signed_emptyBlock1, signed_candidates paidCandidate (by simp), fun _ h => nomatch h⟩

theorem finalizeBlock_empty :
    @TransactionBatch.finalizeBlock Blake3.reference builder.signingKey hash0 emptyUnsigned =
      .ok (emptyBlock1.metadata, { emptyUnsigned with guardianSignature := some signature.toList }) := by
  let : Blake3 := Blake3.reference
  obtain ⟨hsize, hstorage, hsign, hroot⟩ : emptyUnsigned.totalSize = .ok 0 ∧
      succeeds emptyUnsigned.serializeForStorage = true ∧
      emptyUnsigned.signBatch builder.signingKey = .ok signature ∧
      emptyUnsigned.computeMerkleRoot = .ok root0 := by
    decide +kernel
  obtain ⟨bytes, hbytes⟩ := (succeeds_iff _).mp hstorage
  rw [TransactionBatch.finalizeBlock, hsize, ok_bind, rejectIf_of_not _ (by decide), ok_bind, hbytes,
    ok_bind, hsign, ok_bind, hroot, ok_bind]
  rfl

theorem assemble_empty :
    @BlockchainBuilder.assemble Blake3.reference builder emptyPrepared [] = .ok emptyCandidate := by
  let : Blake3 := Blake3.reference
  have hcheck : BlockchainBuilder.checkUserKinds [] = .ok () := by decide
  have hids : BlockchainValidation.transferIds [] = .ok [] := rfl
  have hspend : DetectionSystem.detectDoubleSpend [] = .ok () := by decide
  have hproof : builder.stagedProof emptyPrepared.parent = .ok (some ⟨1, miner, hash0, 7⟩) := by
    decide +kernel
  have hsign : GuardianSignature.signBatch builder.signingKey [] = .ok signature := by decide +kernel
  have hnew : Block.new stagedBlock1.metadata (some (batchKeyString 1)) miner 0 = .ok stagedBlock1 := by
    obtain ⟨hstruct, hsize, hminer, hkey, -⟩ := Block.validate_ok signed_stagedBlock1.valid
    refine Block.new_ok.mpr ⟨hkey, hstruct, hsize, miner, (Block.miner_canonical hminer (by decide)).1, ?_⟩
    exact congrArg (fun hash => (⟨stagedBlock1.metadata, some (batchKeyString 1), miner, hash, 0⟩ : Block))
      signed_stagedBlock1.computeBlockHash
  have hvalid : BlockchainValidation.validateTransactionBatch builder.signingKey hash0 emptyUnsigned =
      .ok (emptyBlock1.metadata, { emptyUnsigned with guardianSignature := some signature.toList }) := by
    rw [BlockchainValidation.validateTransactionBatch]
    change (BlockchainValidation.transferIds [] >>= fun ids => DetectionSystem.detectDoubleSpend ids >>=
      fun _ => emptyUnsigned.finalizeBlock builder.signingKey hash0) = _
    rw [hids, ok_bind, hspend, ok_bind]
    exact finalizeBlock_empty
  unfold BlockchainBuilder.assemble
  change (BlockchainBuilder.checkUserKinds [] >>= fun _ => _) = _
  rw [hcheck, ok_bind]
  change (BlockchainValidation.validateTransactionBatch builder.signingKey hash0 emptyUnsigned >>=
    fun r => _) = _
  rw [hvalid, ok_bind]
  dsimp only
  rw [rejectIf_of_not _ (by decide), ok_bind, hproof, ok_bind]
  change (GuardianSignature.signBatch builder.signingKey [] >>= fun sig => _) = _
  rw [hsign, ok_bind]
  change (Block.new stagedBlock1.metadata (some (batchKeyString 1)) miner 0 >>= fun block => _) = _
  rw [hnew, ok_bind, signed_stagedBlock1.stored.1]
  rfl

theorem attempt_empty :
    @BlockchainBuilder.attempt Blake3.reference builder emptyPrepared [] = .ok (.ok emptyCandidate) := by
  have hsmall : emptyCandidate.blockBytes.length + emptyCandidate.batchBytes.length ≤ maxBlockSize := by
    decide +kernel
  unfold BlockchainBuilder.attempt
  rw [if_neg (by decide), assemble_empty, ok_bind]
  dsimp only
  rw [if_pos hsmall, DetectionSystem.checkBlockSize, rejectIf_of_not _ (Nat.not_lt.mpr hsmall)]
  rfl

section Empty
variable {db : RockDB} (htip : db.getTipHeight = 0) (hlatest : db.getLatestBlockHash = .ok hash0)
  (hpending : db.column .transaction = ∅)
include htip hlatest hpending

theorem prepare_empty :
    builder.prepare true false db = .ok emptyPrepared := by
  have hparent : builder.findParent true false db = .ok emptyPrepared.parent := by
    have hnow : nowUnixSecsRuntime builder.clock.batch = .ok 1700000030 := by decide
    have hzero : ¬(0 < saturatingAdd (0 : UInt64) 1 ∧ hash0 = zeroHash) := by decide
    have hindex : ¬saturatingAdd (0 : UInt64) 1 = 0 := by decide
    simp only [BlockchainBuilder.findParent, htip, hlatest, rejectIf, Bool.not_true,
      Bool.false_eq_true, if_false, ok_bind, if_neg hindex, if_neg hzero, hnow]
    rfl
  have hentries : MemPool.fetchTransactionsForBlock builder.clock.record db = .ok [] := by
    have hrecords : MemPool.records db = [] := by
      rw [MemPool.records, hpending]
      rfl
    rw [MemPool.fetchTransactionsForBlock, hrecords]
    rfl
  have hsystem : builder.systemKinds 1 = .ok ([], 0) := by decide
  unfold BlockchainBuilder.prepare
  rw [hparent, ok_bind, hentries, ok_bind, rejectIf_of_not _ (by decide), ok_bind]
  change (builder.systemKinds 1 >>= fun r => _) = _
  rw [hsystem, ok_bind]
  rfl

example : succeeds (builder.prepare true false genesisDb) = true := by decide +kernel

/-- Above `block0` an empty mempool gives `stagedBlock1`. -/
theorem createNewBlock_empty
    (hfree : db.read .blockmintData (RockDB.blockKey 1) = none)
    (hnew : db.getBlockByHash emptyBlock1.blockHash = none) :
    succeeded (@BlockchainBuilder.createNewBlock Blake3.reference builder true db) = true := by
  let : Blake3 := Blake3.reference
  have hparent : BlockchainBuilder.recheckParent emptyPrepared.parent db = .ok () := by
    have hsame : ¬db.getTipHeight ≠ emptyPrepared.parent.tip := not_not.mpr htip
    rw [BlockchainBuilder.recheckParent, rejectIf_of_not _ hsame, ok_bind, hlatest, ok_bind]
    exact rejectIf_of_not _ (not_not.mpr rfl)
  obtain ⟨db', hpersist⟩ := persist_ok (MemPool.Sound.unused hpending) hparent
    (c := emptyCandidate) hfree hnew (by decide) signed_stagedBlock1.stored.1
  refine (succeeded_iff _).mpr ⟨stagedBlock1, db', createNewBlock_ok_iff.mpr
    ⟨emptyPrepared, emptyCandidate, prepare_empty htip hlatest hpending, ?_, hpersist, rfl⟩⟩
  change attemptDropping (builder.attempt emptyPrepared) [] = _
  rw [attemptDropping]
  change (builder.attempt emptyPrepared [] >>= fun r => _) = _
  rw [attempt_empty]
  rfl

end Empty

theorem createNewBlock_genesisDb :
    succeeded (@BlockchainBuilder.createNewBlock Blake3.reference builder true genesisDb) = true := by
  have hlast : (genesisDb.column .blockmintData).toList.getLast? =
      some (RockDB.blockKey 0, Block.codec.enc block0) := by
    decide +kernel
  apply createNewBlock_empty
  · decide
  · have hprefix : (asciiBytes "block_").isPrefixOf (RockDB.blockKey 0) = true := by decide
    rw [RockDB.getLatestBlockHash, RockDB.getLatestBlock, hlast]
    dsimp only
    rw [if_pos hprefix, signed_block0.stored.2]
    rfl
  · rfl
  · decide
  · decide

/-- Every candidate of the pending payment has hashes the node has not met. -/
def freshHashes [Blake3] (db : RockDB) : Bool :=
  match builder.prepare true false db with
  | .error _ => false
  | .ok p => p.selected.inits.all fun kept =>
    match candidateHashes builder p kept with
    | .error _ => false
    | .ok hashes => hashes.all fun hash =>
      decide (hash ≠ zeroHash ∧ hash ≠ p.parent.hash ∧ db.getBlockByHash hash = none)

theorem freshHashes_pendingDb :
    @freshHashes Blake3.reference (@pendingDb Blake3.reference 1) = true := by
  rw [← cached_candidates]
  decide +kernel

theorem unknown_of_freshHashes [Blake3] {db : RockDB} (h : freshHashes db = true) (p : Prepared)
    (kept : List Pending) (hashes : List Hash) (hp : builder.prepare true false db = .ok p)
    (hkept : kept <+: p.selected) (hhashes : candidateHashes builder p kept = .ok hashes) :
    ∀ hash ∈ hashes, Unknown db p.parent.hash hash := by
  rw [freshHashes, hp] at h
  have hall := List.all_eq_true.mp h kept ((List.mem_inits kept p.selected).mpr hkept)
  rw [hhashes] at hall
  intro hash hhash
  have hfresh := of_decide_eq_true (List.all_eq_true.mp hall hash hhash)
  exact hfresh

/-- The amounts that were selected. -/
def selectedAmounts (db : RockDB) : List UInt64 :=
  match builder.prepare true false db with
  | .error _ => []
  | .ok p => (BlockchainValidation.transfers (p.selected.map Prod.snd)).map Transaction.amount

theorem selectedAmounts_pendingDb : selectedAmounts (@pendingDb Blake3.reference 1) = [1] := by
  decide +kernel

example : selectedAmounts genesisDb = [] := by decide +kernel

end Sample

theorem createNewBlock_with_payment :
    succeeded (@BlockchainBuilder.createNewBlock Blake3.reference Sample.builder true
      (@Sample.pendingDb Blake3.reference 1)) := by
  let : Blake3 := Blake3.reference
  have hadd := @Sample.addTxKind_pendingDb Blake3.reference 1 (by decide +kernel)
  have hreached : MemPool.Reached (Sample.pendingDb 1) := .added (.unused Sample.genesisDb rfl) hadd
  have hclear : (Sample.pendingDb 1).clearMempool = Sample.genesisDb :=
    (MemPool.addTxKind_clearMempool hadd).trans Sample.genesisDb_clearMempool
  refine (createNewBlock_succeeds_iff Sample.builder true (Sample.pendingDb 1) hreached ?_ ?_
    (Sample.unknown_of_freshHashes Sample.freshHashes_pendingDb)).mpr ?_
  · rw [hclear]
    exact Sample.createNewBlock_genesisDb
  · exact fun _ _ => ⟨Sample.signature, rfl, by decide +kernel⟩
  · intro p hp tx htx
    have hamount : tx.amount ∈ Sample.selectedAmounts (Sample.pendingDb 1) := by
      rw [Sample.selectedAmounts, hp]
      exact List.mem_map_of_mem htx
    rw [Sample.selectedAmounts_pendingDb, List.mem_singleton] at hamount
    rw [hamount]
    decide

theorem not_succeeded_pendingDb :
    succeeded (@BlockchainBuilder.createNewBlock Blake3.reference Sample.builder true
      (@Sample.pendingDb Blake3.reference (maxTxAmount+1))) = false := by
  rw [← Sample.cached_candidates]
  decide +kernel

/-- An admitted transfer above the maximum keeps every block from being built. -/
theorem createNewBlock_stopped_by_transfer :
    @MemPool.addTxKind Blake3.reference Sample.reading
        (.transfer (Sample.payment (maxTxAmount+1))) Sample.genesisDb =
      .ok (@Sample.pendingDb Blake3.reference (maxTxAmount+1)) ∧
    succeeded (@BlockchainBuilder.createNewBlock Blake3.reference Sample.builder true
      Sample.genesisDb) ∧
    ¬succeeded (@BlockchainBuilder.createNewBlock Blake3.reference Sample.builder true
      (@Sample.pendingDb Blake3.reference (maxTxAmount+1))) := by
  refine ⟨@Sample.addTxKind_pendingDb Blake3.reference _ (by decide +kernel),
    Sample.createNewBlock_genesisDb, ?_⟩
  rw [not_succeeded_pendingDb]
  exact Bool.false_ne_true

end Remzar
