import Mathlib
import Remzar.Mempool

/-! What holds of the mempool however it was filled and emptied, and what the builder gets
from it. -/
namespace Remzar
open Std Fallible Checked Postcard Text MemPool

/-! ### Encoded transactions -/

theorem TxKind.serialize_length (kind : TxKind) :
    kind.serialize.length = (discriminant.enc kind.variant).length + kind.payload.length :=
  List.length_append

theorem TxKind.fits_of_serialize (kind : TxKind) (h : kind.serialize.length < 2^64) : kind.Fits := by
  apply TxKind.fits_of_length
  have hlen := kind.serialize_length
  omega

theorem TxKind.serialize_injective {kind kind' : TxKind} (h : kind.Fits) (h' : kind'.Fits)
    (heq : kind.serialize = kind'.serialize) : kind = kind' := by
  have hleft := takeFromBytes_enc TxKind.codec kind h
  have hright := takeFromBytes_enc TxKind.codec kind' h'
  change takeFromBytes TxKind.codec kind.serialize = _ at hleft
  rw [heq] at hleft
  exact congrArg Prod.fst (Except.ok.inj (hleft.symm.trans hright))

theorem TxKind.deserialize_serialize (kind : TxKind) (hlen : kind.serialize.length < 2^64)
    (hvalid : kind.validate = .ok ()) : TxKind.deserialize kind.serialize = .ok kind := by
  rw [TxKind.deserialize, TxKind.serialize,
    takeFromBytes_enc TxKind.codec kind (kind.fits_of_serialize hlen)]
  simp only [mapErr, ok_bind, hvalid, rejectIf_of_not _ (fun h : ([] : List UInt8) ≠ [] => h rfl)]
  rfl

theorem TxKind.serialize_ne_nil (kind : TxKind) : kind.serialize ≠ [] := by
  intro h
  have hlen : (discriminant.enc kind.variant).length = 0 := by
    have hsum := kind.serialize_length
    rw [h, List.length_nil] at hsum
    omega
  cases kind <;> cases hlen

/-! ### Records -/

namespace MemPool

theorem mem_records {db : RockDB} {r : List UInt8 × List UInt8} :
    r ∈ records db ↔ db.read .transaction r.1 = some r.2 ∧ r.1 ≠ mempoolBytesKey := by
  rw [records, List.mem_filter, decide_eq_true_eq]
  exact and_congr_left fun _ => ExtTreeMap.mem_toList_iff_getElem?_eq_some

theorem records_pairwise (db : RockDB) : (records db).Pairwise (fun a b => a.1 ≠ b.1) := by
  refine List.Pairwise.sublist List.filter_sublist ?_
  refine ExtTreeMap.distinct_keys_toList.imp ?_
  intro a b hab heq
  exact hab (LawfulEqCmp.compare_eq_iff_eq.mpr heq)

/-- A stored transaction that the mempool would take again, apart from its timestamp. -/
def Stored (value : List UInt8) (kind : TxKind) : Prop :=
  value = kind.serialize ∧ kind.validate = .ok () ∧ value.length ≤ batchBudgetBytes

theorem Stored.deserialize {value : List UInt8} {kind : TxKind} (h : Stored value kind) :
    TxKind.deserialize value = .ok kind := by
  obtain ⟨rfl, hvalid, hlen⟩ := h
  exact kind.deserialize_serialize (Nat.lt_of_le_of_lt hlen (by decide)) hvalid

theorem Stored.unique {value : List UInt8} {kind kind' : TxKind} (h : Stored value kind)
    (h' : Stored value kind') : kind = kind' :=
  Except.ok.inj (h.deserialize.symm.trans h'.deserialize)

theorem Stored.entrySize {value : List UInt8} {kind : TxKind} (h : Stored value kind) :
    checkEntrySizeBound value.length = .ok () := by
  refine rejectIf_of_not _ (Nat.not_lt.mpr (h.2.2.trans ?_))
  decide

/-- Records are valid transactions within the budget, no two of them transfers of one id, and
the counter can be read unless the mempool has never been used. -/
structure Sound [Blake3] (db : RockDB) : Prop where
  keys : ∀ key value, db.read .transaction key = some value → key ≠ [] ∧ value ≠ []
  stored : ∀ key value, db.read .transaction key = some value → key ≠ mempoolBytesKey →
    ∃ kind, Stored value kind
  distinct : ∀ key key' tx tx', key ≠ mempoolBytesKey → key' ≠ mempoolBytesKey →
    db.read .transaction key = some (TxKind.serialize (.transfer tx)) →
    db.read .transaction key' = some (TxKind.serialize (.transfer tx')) →
    tx.id = tx'.id → key = key'
  counter : (∃ used : UInt64, db.read .transaction mempoolBytesKey = some (u64.enc used)) ∨
    ∀ key, db.read .transaction key = none

section
variable {db db' : RockDB}

theorem Sound.unused [Blake3] (h : db.column .transaction = ∅) : Sound db := by
  have hnone : ∀ key, db.read .transaction key = none := by
    intro key
    rw [RockDB.read, h]
    exact ExtTreeMap.getElem?_empty
  refine ⟨?_, ?_, ?_, .inr hnone⟩
  · intro key value hread
    rw [hnone] at hread
    cases hread
  · intro key value hread
    rw [hnone] at hread
    cases hread
  · intro key key' tx tx' _ _ hread
    rw [hnone] at hread
    cases hread

theorem Sound.congr [Blake3] (h : Sound db) (hcolumn : db'.column .transaction = db.column .transaction) :
    Sound db' := by
  have hread : ∀ key, db'.read .transaction key = db.read .transaction key := by
    intro key
    rw [RockDB.read, RockDB.read, hcolumn]
  obtain ⟨hkeys, hstored, hdistinct, hcounter⟩ := h
  refine ⟨?_, ?_, ?_, ?_⟩
  · simpa only [hread] using hkeys
  · simpa only [hread] using hstored
  · simpa only [hread] using hdistinct
  · simpa only [hread] using hcounter

theorem Sound.stored_transfer [Blake3] (h : Sound db) {key : List UInt8} {tx : Transaction}
    (hread : db.read .transaction key = some (TxKind.serialize (.transfer tx)))
    (hkey : key ≠ mempoolBytesKey) : Stored (TxKind.serialize (.transfer tx)) (.transfer tx) := by
  obtain ⟨kind, hstored⟩ := h.stored key _ hread hkey
  obtain ⟨hbytes, hvalid, hlen⟩ := hstored
  have hfits : kind.serialize.length < 2^64 :=
    hbytes ▸ Nat.lt_of_le_of_lt hlen (by decide)
  have hkind : TxKind.transfer tx = kind :=
    TxKind.serialize_injective (TxKind.fits_of_serialize _ (hbytes ▸ hfits))
      (kind.fits_of_serialize hfits) hbytes
  exact ⟨rfl, hkind ▸ hvalid, hlen⟩

/-- Fewer records, and the counter rewritten: what every removal does. -/
theorem Sound.shrink [Blake3] (h : Sound db) (used : UInt64)
    (hcounter : db'.read .transaction mempoolBytesKey = some (u64.enc used))
    (hsub : ∀ key value, key ≠ mempoolBytesKey → db'.read .transaction key = some value →
      db.read .transaction key = some value) : Sound db' := by
  refine ⟨?_, ?_, ?_, .inl ⟨used, hcounter⟩⟩
  · intro key value hread
    by_cases hkey : key = mempoolBytesKey
    · subst hkey
      rw [hcounter] at hread
      obtain rfl := Option.some.inj hread
      exact ⟨by decide, encodeVarint_ne_nil 9 _⟩
    · exact h.keys key value (hsub key value hkey hread)
  · intro key value hread hkey
    exact h.stored key value (hsub key value hkey hread) hkey
  · intro key key' tx tx' hkey hkey' hread hread' hid
    exact h.distinct key key' tx tx' hkey hkey' (hsub _ _ hkey hread) (hsub _ _ hkey' hread') hid

/-! ### Admission -/

theorem generateUniqueKey_ok {r : Reading} {key : String} (h : generateUniqueKey r = .ok key) :
    utf8 key ≠ [] ∧ utf8 key ≠ mempoolBytesKey := by
  simp only [generateUniqueKey, bind_eq_ok_iff, pure_eq_ok_iff] at h
  obtain ⟨now, -, -, -, rfl⟩ := h
  have htx : ∀ rest, utf8 ("tx_" ++ rest) = 116 :: 120 :: 95 :: utf8 rest := by
    intro rest
    rw [utf8_append]
    rfl
  rw [htx]
  refine ⟨List.cons_ne_nil _ _, fun heq => ?_⟩
  have hhead : some 116 = mempoolBytesKey.head? := congrArg List.head? heq
  revert hhead
  decide

/-- Everything an admitted transaction has passed. -/
structure Admitted [Blake3] (r : Reading) (kind : TxKind) (db db' : RockDB) : Prop where
  valid : kind.validate = .ok ()
  small : kind.serialize.length ≤ batchBudgetBytes
  replay : rejectReplay db kind = .ok ()
  write : ∃ key total, key ≠ [] ∧ key ≠ mempoolBytesKey ∧ db' = insertPending db key kind.serialize total

theorem addTxKind_ok [Blake3] {r : Reading} {kind : TxKind} (h : addTxKind r kind db = .ok db') :
    Admitted r kind db db' := by
  simp only [addTxKind, bind_eq_ok_iff, pure_eq_ok_iff] at h
  obtain ⟨_, hvalid, _, -, _, hsize, total, -, _, hreplay, key, hkey, _, -, rfl⟩ := h
  obtain ⟨hne, hcounter⟩ := generateUniqueKey_ok hkey
  refine ⟨?_, ?_, hreplay, utf8 key, total, hne, hcounter, rfl⟩
  · unfold validateTxkindForMempool at hvalid
    rw [bind_eq_ok_iff] at hvalid
    obtain ⟨_, hkind, -⟩ := hvalid
    exact hkind
  · rw [rejectOversized] at hsize
    split at hsize
    · rw [bind_eq_ok_iff] at hsize
      obtain ⟨_, -, hthrow⟩ := hsize
      cases hthrow
    · omega

theorem scanPair_ok {seen seen' : List (String × List UInt8)} {item : String × List UInt8}
    (h : DetectionSystem.scanPair seen item = .ok seen') :
    item.1 ∉ seen.map Prod.fst ∧ ∃ b, seen' = b :: seen ∧ b.1 = item.1 := by
  simp only [DetectionSystem.scanPair, bind_eq_ok_iff, pure_eq_ok_iff, rejectIf_eq_ok_iff] at h
  obtain ⟨-, -, -, -, -, hfresh, rfl⟩ := h
  exact ⟨hfresh, item, rfl, rfl⟩

theorem detectReplay_nodup {items : List (String × List UInt8)}
    (h : DetectionSystem.detectReplay items = .ok ()) : (items.map Prod.fst).Nodup := by
  simp only [DetectionSystem.detectReplay, bind_eq_ok_iff] at h
  obtain ⟨out, hscan, -⟩ := h
  have hstep : ∀ (item : String × List UInt8) (seen seen' : List (String × List UInt8)),
      DetectionSystem.scanPair seen item = .ok seen' →
        item.1 ∉ seen.map Prod.fst ∧ ∃ b, seen' = b :: seen ∧ b.1 = item.1 :=
    fun _ _ _ => scanPair_ok
  exact (foldlM_scan_nodup hstep items [] out hscan).1

/-- The replay check has looked at every stored transfer. -/
theorem rejectReplay_fresh [Blake3] (hdb : Sound db) {tx tx' : Transaction} {key : List UInt8}
    (h : rejectReplay db (.transfer tx) = .ok ()) (hkey : key ≠ mempoolBytesKey)
    (hread : db.read .transaction key = some (TxKind.serialize (.transfer tx'))) :
    tx.id ≠ tx'.id := by
  simp only [rejectReplay, bind_eq_ok_iff] at h
  obtain ⟨id, hid, existing, hexisting, hreplay⟩ := h
  have hstored := hdb.stored_transfer hread hkey
  have hpending : pendingTransfer (TxKind.serialize (.transfer tx')) = some tx' := by
    rw [pendingTransfer, hstored.entrySize, hstored.deserialize]
  have hmem : tx' ∈ (records db).filterMap fun r => pendingTransfer r.2 :=
    List.mem_filterMap.mpr ⟨(key, _), mem_records.mpr ⟨hread, hkey⟩, hpending⟩
  obtain ⟨pair, hpair, hpairOk⟩ := mapM_ok_mem hexisting hmem
  rw [bind_eq_ok_iff] at hpairOk
  obtain ⟨id', hid', hret⟩ := hpairOk
  obtain rfl := (pure_eq_ok_iff _ _).mp hret
  intro heq
  have hsame : id = id' := Except.ok.inj (hid.symm.trans (heq.trans hid'))
  have hnodup := detectReplay_nodup hreplay
  rw [List.map_append, List.nodup_append] at hnodup
  exact hnodup.2.2 id' (List.mem_map_of_mem hpair) id (List.mem_singleton_self id) hsame.symm

theorem read_insertPending [Blake3] (db : RockDB) (key serialized : List UInt8) (total : UInt64)
    (key' : List UInt8) (hkey' : key' ≠ mempoolBytesKey) :
    (insertPending db key serialized total).read .transaction key' =
      if key = key' then some serialized else db.read .transaction key' := by
  have hcounter : mempoolBytesKey ≠ key' := fun h => hkey' h.symm
  rw [insertPending, RockDB.read_put_of_key_ne _ _ _ _ hcounter,
    RockDB.read_put_of_column_ne _ _ _ _ (by decide), RockDB.read_put]
  simp only [true_and]

theorem Sound.add [Blake3] (h : Sound db) {r : Reading} {kind : TxKind}
    (hadd : addTxKind r kind db = .ok db') : Sound db' := by
  obtain ⟨hvalid, hsmall, hreplay, key, total, hne, hkey, rfl⟩ := addTxKind_ok hadd
  have hcounter : (insertPending db key kind.serialize total).read .transaction mempoolBytesKey =
      some (u64.enc total) := RockDB.read_put_self _ _ _ _
  refine ⟨?_, ?_, ?_, .inl ⟨total, hcounter⟩⟩
  · intro key' value hread
    by_cases hkey' : key' = mempoolBytesKey
    · subst hkey'
      rw [hcounter] at hread
      obtain rfl := Option.some.inj hread
      exact ⟨by decide, encodeVarint_ne_nil 9 _⟩
    · rw [read_insertPending db key kind.serialize total key' hkey'] at hread
      split at hread
      · rename_i heq
        rw [← Option.some.inj hread]
        exact ⟨heq ▸ hne, kind.serialize_ne_nil⟩
      · exact h.keys key' value hread
  · intro key' value hread hkey'
    rw [read_insertPending db key kind.serialize total key' hkey'] at hread
    split at hread
    · exact ⟨kind, (Option.some.inj hread).symm, hvalid, Option.some.inj hread ▸ hsmall⟩
    · exact h.stored key' value hread hkey'
  · -- A transfer written now has an id that no stored transfer has.
    have hnew : ∀ tx key' tx', kind.serialize = TxKind.serialize (.transfer tx) →
        key' ≠ mempoolBytesKey →
        db.read .transaction key' = some (TxKind.serialize (.transfer tx')) →
        tx.id ≠ tx'.id := by
      intro tx key' tx' hbytes hkey' hread
      have hfits : kind.serialize.length < 2^64 := Nat.lt_of_le_of_lt hsmall (by decide)
      have hkind : kind = .transfer tx := TxKind.serialize_injective (kind.fits_of_serialize hfits)
        (TxKind.fits_of_serialize _ (hbytes ▸ hfits)) hbytes
      subst hkind
      exact rejectReplay_fresh h hreplay hkey' hread
    intro k₁ k₂ tx₁ tx₂ hk₁ hk₂ hread₁ hread₂ hid
    rw [read_insertPending db key kind.serialize total _ hk₁] at hread₁
    rw [read_insertPending db key kind.serialize total _ hk₂] at hread₂
    split at hread₁ <;> split at hread₂
    · rename_i h₁ h₂
      exact h₁.symm.trans h₂
    · exact absurd hid (hnew tx₁ k₂ tx₂ (Option.some.inj hread₁) hk₂ hread₂)
    · exact absurd hid.symm (hnew tx₂ k₁ tx₁ (Option.some.inj hread₂) hk₁ hread₁)
    · exact h.distinct k₁ k₂ tx₁ tx₂ hk₁ hk₂ hread₁ hread₂ hid

/-- Admission changes nothing but the mempool. -/
theorem addTxKind_clearMempool [Blake3] {r : Reading} {kind : TxKind}
    (hadd : addTxKind r kind db = .ok db') : db'.clearMempool = db.clearMempool := by
  obtain ⟨-, -, -, key, total, -, -, rfl⟩ := addTxKind_ok hadd
  rw [insertPending, RockDB.clearMempool_put _ _ _ (.inl rfl), RockDB.clearMempool_put _ _ _ (.inr rfl),
    RockDB.clearMempool_put _ _ _ (.inl rfl)]

/-! ### Removal -/

/-- Removing is never adding. -/
theorem read_remove_some {db : RockDB} {c c' : ColumnName} {key key' value : List UInt8}
    (h : (db.remove c key).read c' key' = some value) : db.read c' key' = some value := by
  rw [RockDB.read_remove] at h
  split at h
  · cases h
  · exact h

theorem foldl_removeStep_sub [Blake3] (db : RockDB) (keys : List (List UInt8))
    (acc : UInt64 × RockDB) {key value : List UInt8}
    (h : (keys.foldl (removeStep db) acc).2.read .transaction key = some value) :
    acc.2.read .transaction key = some value := by
  induction keys generalizing acc with
  | nil => exact h
  | cons k keys ih =>
    have hstep := ih _ h
    unfold removeStep at hstep
    split at hstep
    · exact hstep
    · split at hstep
      · exact read_remove_some hstep
      · exact read_remove_some (read_remove_some hstep)

theorem Sound.remove [Blake3] (h : Sound db) {keys : List (List UInt8)}
    (hremove : removeTransactions keys db = .ok db') : Sound db' := by
  simp only [removeTransactions, bind_eq_ok_iff, pure_eq_ok_iff] at hremove
  obtain ⟨current, -, rfl⟩ := hremove
  refine h.shrink _ (RockDB.read_put_self _ _ _ _) ?_
  intro key value hkey hread
  rw [RockDB.read_put_of_key_ne _ _ _ _ (fun heq => hkey heq.symm)] at hread
  exact foldl_removeStep_sub db keys (current, db) hread

theorem foldl_pruneStep_sub [Blake3] (wanted : List Hash) (rs : List (List UInt8 × List UInt8))
    (acc : UInt64 × RockDB) {key value : List UInt8}
    (h : (rs.foldl (pruneStep wanted) acc).2.read .transaction key = some value) :
    acc.2.read .transaction key = some value := by
  induction rs generalizing acc with
  | nil => exact h
  | cons r rs ih =>
    have hstep := ih _ h
    simp only [pruneStep] at hstep
    split at hstep
    · exact read_remove_some (read_remove_some hstep)
    · exact hstep

theorem Sound.prune [Blake3] (h : Sound db) {batch : TransactionBatch}
    (hremove : removeTransactionsInBatch batch db = .ok db') : Sound db' := by
  rw [removeTransactionsInBatch] at hremove
  dsimp only at hremove
  split at hremove
  · rw [pure_eq_ok_iff] at hremove
    exact hremove ▸ h
  · simp only [bind_eq_ok_iff, pure_eq_ok_iff] at hremove
    obtain ⟨current, -, rfl⟩ := hremove
    refine h.shrink _ (RockDB.read_put_self _ _ _ _) ?_
    intro key value hkey hread
    rw [RockDB.read_put_of_key_ne _ _ _ _ (fun heq => hkey heq.symm)] at hread
    exact foldl_pruneStep_sub _ _ (current, db) hread

/-! ### Whole histories -/

/-- Every database the mempool can be found in: it starts out unused, transactions are
admitted and removed, and the rest of the node writes to other columns. -/
inductive Reached [Blake3] : RockDB → Prop
  | unused (db : RockDB) (hempty : db.column .transaction = ∅) : Reached db
  | added {db db' : RockDB} {r : Reading} {kind : TxKind} (hdb : Reached db)
    (hadd : addTxKind r kind db = .ok db') : Reached db'
  | removed {db db' : RockDB} {keys : List (List UInt8)} (hdb : Reached db)
    (hremove : removeTransactions keys db = .ok db') : Reached db'
  | pruned {db db' : RockDB} {batch : TransactionBatch} (hdb : Reached db)
    (hprune : removeTransactionsInBatch batch db = .ok db') : Reached db'
  | elsewhere {db db' : RockDB} (hdb : Reached db)
    (hcolumn : db'.column .transaction = db.column .transaction) : Reached db'

theorem Reached.sound [Blake3] (h : Reached db) : Sound db := by
  induction h with
  | unused db hempty => exact Sound.unused hempty
  | added _ hadd ih => exact ih.add hadd
  | removed _ hremove ih => exact ih.remove hremove
  | pruned _ hprune ih => exact ih.prune hprune
  | elsewhere _ hcolumn ih => exact ih.congr hcolumn

/-! ### Use -/

theorem Sound.batchProcessAll [Blake3] (h : Sound db) : db.batchProcessAll = .ok () := by
  refine rejectIf_of_not _ ?_
  intro hany
  obtain ⟨r, hr, hempty⟩ := List.any_eq_true.mp hany
  obtain ⟨hkey, hvalue⟩ := h.keys r.1 r.2 (ExtTreeMap.mem_toList_iff_getElem?_eq_some.mp hr)
  rw [Bool.or_eq_true, List.isEmpty_iff, List.isEmpty_iff] at hempty
  exact hempty.elim hkey hvalue

theorem Sound.currentBuffer [Blake3] (h : Sound db) : ∃ used, currentBuffer db = .ok used := by
  rcases h.counter with ⟨used, hread⟩ | hnone
  · have hused : readMempoolBytesUsed db = .ok (some used) := by
      rw [readMempoolBytesUsed, hread]
      simp only [fromBytes_enc u64 used trivial]
      rfl
    refine ⟨used, ?_⟩
    rw [MemPool.currentBuffer, hused]
    rfl
  · have hrecords : records db = [] := by
      refine List.eq_nil_iff_forall_not_mem.mpr fun r hr => ?_
      have hread := (mem_records.mp hr).1
      rw [hnone] at hread
      cases hread
    refine ⟨0, ?_⟩
    rw [MemPool.currentBuffer, readMempoolBytesUsed, hnone]
    simp only [ok_bind, recomputeMempoolBytesUsed, hrecords]
    rfl

theorem consider_entries (acc : Selection) (key : List UInt8) (kind : TxKind) :
    (consider acc key kind).entries = acc.entries ∨
      acc.entries.length < maxBatchTxs ∧
        (consider acc key kind).entries = acc.entries ++ [(key, kind)] := by
  rw [consider]
  split
  · exact .inl rfl
  split
  · exact .inl rfl
  split
  · exact .inl rfl
  · rename_i hroom
    exact .inr ⟨by omega, rfl⟩

/-- One record of the scan: passed over, or added at the end. -/
theorem fetchStep_ok (clock : List UInt8 → Int64) (acc : Selection)
    {r : List UInt8 × List UInt8} {kind : TxKind} (hkind : Stored r.2 kind) :
    ∃ acc', fetchStep clock acc r = .ok acc' ∧ (acc'.entries = acc.entries ∨
      acc.entries.length < maxBatchTxs ∧ acc'.entries = acc.entries ++ [(r.1, kind)]) := by
  by_cases hstopped : acc.stopped
  · exact ⟨acc, if_pos hstopped, .inl rfl⟩
  · rw [fetchStep, if_neg hstopped, hkind.entrySize, ok_bind, selectable, hkind.deserialize]
    dsimp only
    split
    · exact ⟨acc, rfl, .inl rfl⟩
    · rename_i kind' hselect
      split at hselect
      · obtain rfl := Option.some.inj hselect
        exact ⟨_, rfl, consider_entries acc r.1 kind⟩
      · cases hselect

/-- What the scan picks is stored, valid, and in the order of the records. -/
theorem foldlM_fetchStep (clock : List UInt8 → Int64)
    (rs : List (List UInt8 × List UInt8)) (hrs : ∀ r ∈ rs, ∃ kind, Stored r.2 kind)
    (acc : Selection) (hcount : acc.entries.length ≤ maxBatchTxs) :
    ∃ out extra, rs.foldlM (fetchStep clock) acc = .ok out ∧ out.entries = acc.entries ++ extra ∧
      (extra.map fun e => (e.1, e.2.serialize)).Sublist rs ∧
      (∀ e ∈ extra, Stored e.2.serialize e.2) ∧ out.entries.length ≤ maxBatchTxs := by
  induction rs generalizing acc with
  | nil => exact ⟨acc, [], rfl, (List.append_nil _).symm, List.Sublist.refl _, by simp, hcount⟩
  | cons r rs ih =>
    obtain ⟨kind, hkind⟩ := hrs r List.mem_cons_self
    obtain ⟨mid, hstep, hmid⟩ := fetchStep_ok clock acc hkind
    have hroom : mid.entries.length ≤ maxBatchTxs := by
      rcases hmid with hsame | ⟨hlt, happ⟩
      · rw [hsame]
        exact hcount
      · rw [happ, List.length_append, List.length_singleton]
        exact hlt
    obtain ⟨out, extra, hfold, hentries, hsub, hstored, hlen⟩ :=
      ih (fun r' hr' => hrs r' (List.mem_cons_of_mem r hr')) mid hroom
    have hall : (r :: rs).foldlM (fetchStep clock) acc = .ok out := by
      rw [List.foldlM_cons, hstep, ok_bind]
      exact hfold
    rcases hmid with hsame | ⟨-, happ⟩
    · exact ⟨out, extra, hall, hsame ▸ hentries, hsub.cons r, hstored, hlen⟩
    · refine ⟨out, (r.1, kind) :: extra, hall, ?_, ?_, ?_, hlen⟩
      · rw [hentries, happ, List.append_assoc, List.singleton_append]
      · rw [List.map_cons, ← hkind.1]
        exact hsub.cons_cons r
      · intro e he
        rcases List.mem_cons.mp he with rfl | he
        · exact hkind.1 ▸ hkind
        · exact hstored e he

/-- Transactions taken from the mempool for a block. -/
structure Fetched (db : RockDB) (entries : List (List UInt8 × TxKind)) : Prop where
  sub : (entries.map fun e => (e.1, e.2.serialize)).Sublist (records db)
  stored : ∀ e ∈ entries, Stored e.2.serialize e.2
  count : entries.length ≤ maxTxsPerBlock

theorem Sound.fetch [Blake3] (h : Sound db) (clock : List UInt8 → Int64) :
    ∃ entries, fetchTransactionsForBlock clock db = .ok entries ∧ Fetched db entries := by
  have hrs : ∀ r ∈ records db, ∃ kind, Stored r.2 kind := by
    intro r hr
    obtain ⟨hread, hkey⟩ := mem_records.mp hr
    exact h.stored r.1 r.2 hread hkey
  obtain ⟨out, extra, hfold, hentries, hsub, hstored, hlen⟩ :=
    foldlM_fetchStep clock (records db) hrs ⟨[], 0, false⟩ (Nat.zero_le _)
  have hout : out.entries = extra := hentries
  refine ⟨out.entries, ?_, hout ▸ hsub, hout ▸ hstored, hlen.trans (by decide)⟩
  rw [fetchTransactionsForBlock, hfold]
  rfl

/-- Different entries have different keys, so transfers among them have different ids. -/
theorem Fetched.ids_nodup [Blake3] (hdb : Sound db) {entries : List (List UInt8 × TxKind)}
    (h : Fetched db entries) :
    entries.Pairwise fun e e' => ∀ tx tx', e.2 = .transfer tx → e'.2 = .transfer tx' →
      tx.id ≠ tx'.id := by
  have hkeys : (entries.map fun e => (e.1, e.2.serialize)).Pairwise (fun a b => a.1 ≠ b.1) :=
    (records_pairwise db).sublist h.sub
  rw [List.pairwise_map] at hkeys
  have hread : ∀ e ∈ entries, db.read .transaction e.1 = some e.2.serialize ∧
      e.1 ≠ mempoolBytesKey := by
    intro e he
    exact mem_records.mp (h.sub.subset (List.mem_map_of_mem he))
  refine hkeys.imp_of_mem ?_
  intro e e' he he' hne tx tx' htx htx' hid
  obtain ⟨hread₁, hkey₁⟩ := hread e he
  obtain ⟨hread₂, hkey₂⟩ := hread e' he'
  rw [htx] at hread₁
  rw [htx'] at hread₂
  exact hne (hdb.distinct _ _ tx tx' hkey₁ hkey₂ hread₁ hread₂ hid)

end

end MemPool

end Remzar
