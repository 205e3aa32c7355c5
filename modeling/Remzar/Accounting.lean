import Mathlib
import Remzar.MempoolSpec
import Remzar.Chain

/-! The books of the mempool: the records, the index of their hashes and the counter of their
bytes, over every sequence of admissions and removals. -/
namespace Remzar
open Std Fallible Checked Postcard Text

/-! ### Calls -/

/-- The calls that change the mempool. -/
inductive MempoolCall where
  | add (r : MemPool.Reading) (kind : TxKind)
  | remove (txKeys : List (List UInt8))
  | removeBatch (batch : TransactionBatch)

namespace MempoolCall

def run [Blake3] (db : RockDB) : MempoolCall → Fallible RockDB
  | .add r kind => MemPool.addTxKind r kind db
  | .remove txKeys => MemPool.removeTransactions txKeys db
  | .removeBatch batch => MemPool.removeTransactionsInBatch batch db

-- All writes of a call go through one batch at its end, so a failed call has written nothing.
def after [Blake3] (db : RockDB) (call : MempoolCall) : RockDB :=
  match call.run db with
  | .ok db' => db'
  | .error _ => db

/-- The key an admission has stored its record under. -/
def usedKey [Blake3] (db : RockDB) : MempoolCall → Option String
  | .add r kind => if succeeds (MemPool.addTxKind r kind db) then
      (MemPool.generateUniqueKey r).toOption else none
  | _ => none

def usedKeys [Blake3] : RockDB → List MempoolCall → List String
  | _, [] => []
  | db, call :: calls => (usedKey db call).toList ++ usedKeys (after db call) calls

end MempoolCall

namespace MemPool

/-! ### Books -/

/-- The bytes of all records. -/
def pendingBytes (db : RockDB) : ℕ := ((records db).map fun r => r.2.length).sum

/-- The counter is the sum of the records and within the limit, and the index knows exactly the
records, each a canonical encoding that is stored once. An unused mempool has no counter. -/
structure Accounted [Blake3] (db : RockDB) : Prop where
  counter : (∃ used : UInt64, readMempoolBytesUsed db = .ok (some used) ∧
      used.toNat = pendingBytes db) ∨
    db.read .transaction mempoolBytesKey = none ∧ records db = []
  limit : pendingBytes db ≤ transactionBufferLimit
  canonical : ∀ r ∈ records db, ∃ kind : TxKind, r.2 = kind.serialize
  single : ∀ r ∈ records db, ∀ r' ∈ records db, r.2 = r'.2 → r = r'
  index : ∀ hash value, db.read .txToHash hash = some value ↔
    ∃ r ∈ records db, hash = (Blake3.xof64 r.2).toList ∧ value = r.2

/-- No record is named twice, or nothing is left of the records. -/
def Removable (txKeys : List (List UInt8)) (db : RockDB) : Prop :=
  (∀ r ∈ records db, txKeys.count r.1 ≤ 1) ∨ ∀ r ∈ records db, r.1 ∈ txKeys

section
variable {db db' : RockDB}

theorem records_nodup (db : RockDB) : (records db).Nodup := by
  refine (records_pairwise db).imp ?_
  intro a b hne heq
  exact hne (congrArg Prod.fst heq)

theorem records_key_inj {r r' : List UInt8 × List UInt8} (hr : r ∈ records db)
    (hr' : r' ∈ records db) (h : r.1 = r'.1) : r = r' := by
  have hread := (mem_records.mp hr).1
  have hread' := (mem_records.mp hr').1
  rw [h, hread'] at hread
  exact Prod.ext h (Option.some.inj hread).symm

theorem readMempoolBytesUsed_of_read {used : UInt64}
    (h : db.read .transaction mempoolBytesKey = some (u64.enc used)) :
    readMempoolBytesUsed db = .ok (some used) := by
  rw [readMempoolBytesUsed, h]
  simp only [fromBytes_enc u64 used trivial]
  rfl

theorem Accounted.currentBuffer [Blake3] (h : Accounted db) {used : UInt64}
    (hused : currentBuffer db = .ok used) : used.toNat = pendingBytes db := by
  rcases h.counter with ⟨n, hread, hsum⟩ | ⟨hnone, hempty⟩
  · rw [MemPool.currentBuffer, hread, ok_bind] at hused
    obtain rfl := (pure_eq_ok_iff _ _).mp hused
    exact hsum
  · rw [MemPool.currentBuffer, readMempoolBytesUsed, hnone, ok_bind] at hused
    simp only [recomputeMempoolBytesUsed, hempty, List.foldlM_nil] at hused
    obtain rfl := (pure_eq_ok_iff _ _).mp hused
    rw [pendingBytes, hempty]
    rfl

/-- Records with one hash are one record. -/
theorem Accounted.hash_inj [Blake3] (h : Accounted db) {r r' : List UInt8 × List UInt8}
    (hr : r ∈ records db) (hr' : r' ∈ records db)
    (heq : (Blake3.xof64 r.2).toList = (Blake3.xof64 r'.2).toList) : r = r' := by
  have hread := (h.index _ r.2).mpr ⟨r, hr, rfl, rfl⟩
  have hread' := (h.index _ r'.2).mpr ⟨r', hr', rfl, rfl⟩
  rw [heq, hread'] at hread
  exact h.single r hr r' hr' (Option.some.inj hread).symm

theorem Accounted.unused [Blake3] (htx : db.column .transaction = ∅)
    (hhash : db.column .txToHash = ∅) : Accounted db := by
  have hnone : ∀ key, db.read .transaction key = none := by
    intro key
    rw [RockDB.read, htx]
    exact ExtTreeMap.getElem?_empty
  have hnohash : ∀ key, db.read .txToHash key = none := by
    intro key
    rw [RockDB.read, hhash]
    exact ExtTreeMap.getElem?_empty
  have hrecords : records db = [] := by
    rw [records, htx]
    rfl
  refine ⟨.inr ⟨hnone _, hrecords⟩, ?_, ?_, ?_, ?_⟩
  · rw [pendingBytes, hrecords]
    exact Nat.zero_le _
  · simp [hrecords]
  · simp [hrecords]
  · intro hash value
    simp [hrecords, hnohash]

/-! ### Admission -/

/-- What an admitted transaction writes, and that neither its hash nor its size stood against it. -/
theorem addTxKind_write [Blake3] {r : Reading} {kind : TxKind}
    (h : addTxKind r kind db = .ok db') :
    ∃ key total, generateUniqueKey r = .ok key ∧
      newTotal db (UInt64.ofNat kind.serialize.length) = .ok total ∧
      db.read .txToHash (Blake3.xof64 kind.serialize).toList = none ∧
      db' = insertPending db (utf8 key) kind.serialize total := by
  simp only [addTxKind, bind_eq_ok_iff, pure_eq_ok_iff] at h
  obtain ⟨_, -, _, -, _, -, total, htotal, _, -, key, hkey, _, hdup, rfl⟩ := h
  refine ⟨key, total, hkey, htotal, ?_, rfl⟩
  rw [rejectDuplicate] at hdup
  split at hdup
  · rw [bind_eq_ok_iff] at hdup
    obtain ⟨_, -, hthrow⟩ := hdup
    cases hthrow
  · rename_i hfresh
    exact Option.not_isSome_iff_eq_none.mp hfresh

theorem newTotal_ok {size total : UInt64} (h : newTotal db size = .ok total) :
    ∃ used, currentBuffer db = .ok used ∧ total.toNat = used.toNat + size.toNat ∧
      total.toNat ≤ transactionBufferLimit := by
  simp only [newTotal, bind_eq_ok_iff, pure_eq_ok_iff, rejectIf_eq_ok_iff, okOr_eq_ok_iff] at h
  obtain ⟨used, hused, _, hadd, _, hlimit, rfl⟩ := h
  exact ⟨used, hused, ((checkedAdd_eq_some_iff _ _ _).mp hadd).symm, Nat.not_lt.mp hlimit⟩

theorem records_insertPending [Blake3] {key serialized : List UInt8} {total : UInt64}
    (hkey : key ≠ mempoolBytesKey) (hfresh : db.read .transaction key = none) :
    (records (insertPending db key serialized total)).Perm ((key, serialized) :: records db) := by
  have hnew : (key, serialized) ∉ records db := by
    intro hmem
    rw [mem_records, hfresh] at hmem
    cases hmem.1
  refine (List.perm_ext_iff_of_nodup (records_nodup _) (List.nodup_cons.mpr ⟨hnew, records_nodup _⟩)).mpr ?_
  rintro ⟨k, v⟩
  rw [List.mem_cons, mem_records, mem_records, Prod.mk.injEq]
  by_cases hk : k = mempoolBytesKey
  · simp [hk, hkey.symm]
  · rw [read_insertPending db key serialized total k hk]
    by_cases heq : key = k
    · subst heq
      simp [hk, hfresh, eq_comm]
    · simp [hk, heq, eq_comm]

theorem read_txToHash_insertPending [Blake3] (db : RockDB) (key serialized : List UInt8)
    (total : UInt64) (hash : List UInt8) :
    (insertPending db key serialized total).read .txToHash hash =
      if (Blake3.xof64 serialized).toList = hash then some serialized else db.read .txToHash hash := by
  rw [insertPending, RockDB.read_put_of_column_ne _ _ _ _ (by decide), RockDB.read_put,
    RockDB.read_put_of_column_ne _ _ _ _ (by decide)]
  simp only [true_and]

theorem Accounted.add [Blake3] (h : Accounted db) {r : Reading} {kind : TxKind}
    (hadd : addTxKind r kind db = .ok db')
    (hfresh : ∀ key, generateUniqueKey r = .ok key → db.read .transaction (utf8 key) = none) :
    Accounted db' := by
  have hsmall := (addTxKind_ok hadd).small
  obtain ⟨key, total, hkey, htotal, hhash, rfl⟩ := addTxKind_write hadd
  obtain ⟨used, hused, hsum, hlimit⟩ := newTotal_ok htotal
  have hlen : (UInt64.ofNat kind.serialize.length).toNat = kind.serialize.length :=
    UInt64.toNat_ofNat_of_lt' (Nat.lt_of_le_of_lt hsmall (by decide))
  have hperm : (records (insertPending db (utf8 key) kind.serialize total)).Perm
      ((utf8 key, kind.serialize) :: records db) :=
    records_insertPending (generateUniqueKey_ok hkey).2 (hfresh key hkey)
  have hbytes : pendingBytes (insertPending db (utf8 key) kind.serialize total) = total.toNat := by
    rw [pendingBytes, (hperm.map _).sum_eq, List.map_cons, List.sum_cons, hsum, hlen,
      h.currentBuffer hused, pendingBytes, Nat.add_comm]
  have hmem : ∀ e, e ∈ records (insertPending db (utf8 key) kind.serialize total) ↔
      e = (utf8 key, kind.serialize) ∨ e ∈ records db := by
    intro e
    rw [hperm.mem_iff, List.mem_cons]
  -- The index would already know a record with these bytes.
  have hunknown : ∀ e ∈ records db, kind.serialize ≠ e.2 := by
    intro e he heq
    have hread := (h.index _ e.2).mpr ⟨e, he, rfl, rfl⟩
    rw [← heq, hhash] at hread
    cases hread
  refine ⟨.inl ⟨total, readMempoolBytesUsed_of_read (RockDB.read_put_self _ _ _ _), hbytes.symm⟩,
    hbytes ▸ hlimit, ?_, ?_, ?_⟩
  · intro e he
    rcases (hmem e).mp he with rfl | he
    · exact ⟨kind, rfl⟩
    · exact h.canonical e he
  · intro e he e' he' heq
    rcases (hmem e).mp he with rfl | he <;> rcases (hmem e').mp he' with rfl | he'
    · rfl
    · exact absurd heq (hunknown e' he')
    · exact absurd heq.symm (hunknown e he)
    · exact h.single e he e' he' heq
  · intro hash value
    rw [read_txToHash_insertPending]
    split
    · rename_i heq
      subst heq
      constructor
      · intro hvalue
        exact ⟨_, (hmem _).mpr (.inl rfl), rfl, (Option.some.inj hvalue).symm⟩
      · rintro ⟨e, he, heq, rfl⟩
        rcases (hmem e).mp he with rfl | he
        · rfl
        · have hread := (h.index _ e.2).mpr ⟨e, he, rfl, rfl⟩
          rw [← heq, hhash] at hread
          cases hread
    · rename_i hne
      rw [h.index]
      constructor
      · rintro ⟨e, he, heq, hvalue⟩
        exact ⟨e, (hmem e).mpr (.inr he), heq, hvalue⟩
      · rintro ⟨e, he, heq, hvalue⟩
        rcases (hmem e).mp he with rfl | he
        · exact absurd heq.symm hne
        · exact ⟨e, he, heq, hvalue⟩

/-! ### Removal -/

theorem read_remove_eq_some_iff {db : RockDB} {c c' : ColumnName} {key key' value : List UInt8} :
    (db.remove c key).read c' key' = some value ↔
      db.read c' key' = some value ∧ ¬(c = c' ∧ key = key') := by
  rw [RockDB.read_remove]
  split
  · rename_i heq
    simp [heq]
  · rename_i hne
    simp [hne]

/-- What is left after some of the records, with their hashes, are gone. -/
structure Leaves [Blake3] (gone : List UInt8 × List UInt8 → Prop) (db db' : RockDB) : Prop where
  rest : ∀ r, r ∈ records db' ↔ r ∈ records db ∧ ¬gone r
  index : ∀ hash value, db'.read .txToHash hash = some value ↔
    db.read .txToHash hash = some value ∧
      ∀ r ∈ records db, gone r → (Blake3.xof64 r.2).toList ≠ hash

/-- After a removal the books are right exactly when the counter is. -/
theorem Leaves.accounted_iff [Blake3] {gone : List UInt8 × List UInt8 → Prop} {used : UInt64}
    (hleaves : Leaves gone db db') (h : Accounted db)
    (hused : db'.read .transaction mempoolBytesKey = some (u64.enc used))
    (hless : pendingBytes db' ≤ pendingBytes db) :
    Accounted db' ↔ used.toNat = pendingBytes db' := by
  have hread := readMempoolBytesUsed_of_read hused
  constructor
  · intro h'
    rcases h'.counter with ⟨n, hn, hsum⟩ | ⟨hnone, -⟩
    · rw [hread] at hn
      obtain rfl := Option.some.inj (Except.ok.inj hn)
      exact hsum
    · rw [hused] at hnone
      cases hnone
  · intro hsum
    refine ⟨.inl ⟨used, hread, hsum⟩, hless.trans h.limit, ?_, ?_, ?_⟩
    · intro r hr
      exact h.canonical r ((hleaves.rest r).mp hr).1
    · intro r hr r' hr'
      exact h.single r ((hleaves.rest r).mp hr).1 r' ((hleaves.rest r').mp hr').1
    · intro hash value
      rw [hleaves.index, h.index]
      constructor
      · rintro ⟨⟨r, hr, rfl, rfl⟩, hkept⟩
        exact ⟨r, (hleaves.rest r).mpr ⟨hr, fun hgone => hkept r hr hgone rfl⟩, rfl, rfl⟩
      · rintro ⟨r, hr, rfl, rfl⟩
        obtain ⟨hr, hkept⟩ := (hleaves.rest r).mp hr
        refine ⟨⟨r, hr, rfl, rfl⟩, ?_⟩
        -- A removed record with the same hash would be this one.
        intro r' hr' hgone heq
        exact hkept (h.hash_inj hr' hr heq ▸ hgone)

theorem foldl_removeStep_read_transaction [Blake3] (keys : List (List UInt8))
    (acc : UInt64 × RockDB) {key value : List UInt8} (hkey : key ≠ mempoolBytesKey) :
    (keys.foldl (removeStep db) acc).2.read .transaction key = some value ↔
      acc.2.read .transaction key = some value ∧ key ∉ keys := by
  induction keys generalizing acc with
  | nil => simp
  | cons k keys ih =>
    rw [List.foldl_cons, ih, List.mem_cons, not_or, ← and_assoc]
    refine and_congr_left fun _ => ?_
    unfold removeStep
    split
    · rename_i hcounter
      subst hcounter
      simp [hkey]
    · split
      · rw [read_remove_eq_some_iff]
        simp [eq_comm]
      · rw [read_remove_eq_some_iff, read_remove_eq_some_iff]
        simp [eq_comm]

theorem foldl_removeStep_read_txToHash [Blake3] (keys : List (List UInt8))
    (acc : UInt64 × RockDB) {hash value : List UInt8} :
    (keys.foldl (removeStep db) acc).2.read .txToHash hash = some value ↔
      acc.2.read .txToHash hash = some value ∧
        ∀ r ∈ records db, r.1 ∈ keys → (Blake3.xof64 r.2).toList ≠ hash := by
  induction keys generalizing acc with
  | nil => simp
  | cons k keys ih =>
    have hstep : (removeStep db acc k).2.read .txToHash hash = some value ↔
        acc.2.read .txToHash hash = some value ∧
          ∀ r ∈ records db, r.1 = k → (Blake3.xof64 r.2).toList ≠ hash := by
      unfold removeStep
      split
      · rename_i hcounter
        refine (and_iff_left ?_).symm
        intro r hr heq
        exact absurd (heq.trans hcounter) (mem_records.mp hr).2
      · rename_i hcounter
        split
        · rename_i hnone
          rw [read_remove_eq_some_iff]
          refine and_congr_right fun _ => iff_of_true (by simp) ?_
          intro r hr heq
          have hread := (mem_records.mp hr).1
          rw [heq, hnone] at hread
          cases hread
        · rename_i val hval
          rw [read_remove_eq_some_iff, read_remove_eq_some_iff, and_assoc]
          refine and_congr_right fun _ => ?_
          constructor
          · rintro ⟨hne, -⟩ r hr heq hhash
            have hread := (mem_records.mp hr).1
            rw [heq, hval] at hread
            rw [← Option.some.inj hread] at hhash
            exact hne ⟨rfl, hhash⟩
          · intro hall
            refine ⟨?_, by simp⟩
            rintro ⟨-, hhash⟩
            exact hall (k, val) (mem_records.mpr ⟨hval, hcounter⟩) rfl hhash
    rw [List.foldl_cons, ih, hstep, and_assoc, ← forall₂_and]
    refine and_congr_right fun _ => forall₂_congr fun r _ => ?_
    rw [List.mem_cons, or_imp]

theorem removeTransactions_leaves [Blake3] {keys : List (List UInt8)}
    (hremove : removeTransactions keys db = .ok db') : Leaves (fun r => r.1 ∈ keys) db db' := by
  simp only [removeTransactions, bind_eq_ok_iff, pure_eq_ok_iff] at hremove
  obtain ⟨current, -, rfl⟩ := hremove
  constructor
  · intro r
    rw [mem_records, mem_records, and_right_comm]
    refine and_congr_left fun hkey => ?_
    rw [RockDB.read_put_of_key_ne _ _ _ _ hkey.symm]
    exact foldl_removeStep_read_transaction keys (current, db) hkey
  · intro hash value
    rw [RockDB.read_put_of_column_ne _ _ _ _ (by decide)]
    exact foldl_removeStep_read_txToHash keys (current, db)

/-! ### The counter after a removal -/

theorem pendingBytes_eq (db : RockDB) :
    pendingBytes db = ∑ r ∈ (records db).toFinset, r.2.length :=
  (List.sum_toFinset _ (records_nodup db)).symm

theorem Leaves.pendingBytes [Blake3] {gone : List UInt8 × List UInt8 → Prop} [DecidablePred gone]
    (h : Leaves gone db db') : pendingBytes db =
      ∑ r ∈ (records db).toFinset with gone r, r.2.length + MemPool.pendingBytes db' := by
  have hrest : (records db').toFinset = (records db).toFinset.filter (fun r => ¬gone r) := by
    ext r
    rw [Finset.mem_filter, List.mem_toFinset, List.mem_toFinset]
    exact h.rest r
  rw [pendingBytes_eq, pendingBytes_eq, hrest]
  exact (Finset.sum_filter_add_sum_filter_not _ _ _).symm

/-- What one mention of a key takes off the counter. -/
def storedBytes (db : RockDB) (key : List UInt8) : ℕ :=
  if key = mempoolBytesKey then 0 else ((db.read .transaction key).map List.length).getD 0

theorem storedBytes_eq (db : RockDB) (key : List UInt8) :
    storedBytes db key = ∑ r ∈ (records db).toFinset, if r.1 = key then r.2.length else 0 := by
  by_cases hmem : ∃ value, (key, value) ∈ records db
  · obtain ⟨value, hmem⟩ := hmem
    obtain ⟨hread, hkey⟩ := mem_records.mp hmem
    have hkey : ¬key = mempoolBytesKey := hkey
    have hread : db.read .transaction key = some value := hread
    rw [Finset.sum_eq_single (key, value)]
    · rw [storedBytes, if_neg hkey, hread, if_pos rfl]
      rfl
    · intro r hr hne
      refine if_neg fun heq => hne ?_
      exact records_key_inj (List.mem_toFinset.mp hr) hmem heq
    · intro hnot
      exact absurd (List.mem_toFinset.mpr hmem) hnot
  · rw [Finset.sum_eq_zero]
    · rw [storedBytes]
      split
      · rfl
      · rename_i hkey
        cases hread : db.read .transaction key with
        | none => rfl
        | some value => exact absurd ⟨value, mem_records.mpr ⟨hread, hkey⟩⟩ hmem
    · intro r hr
      refine if_neg fun heq => hmem ⟨r.2, ?_⟩
      rw [← heq]
      exact List.mem_toFinset.mp hr

/-- Every mention of a key takes off the bytes of its record. -/
theorem sum_storedBytes (db : RockDB) (keys : List (List UInt8)) :
    (keys.map (storedBytes db)).sum =
      ∑ r ∈ (records db).toFinset, keys.count r.1*r.2.length := by
  induction keys with
  | nil => simp
  | cons k keys ih =>
    rw [List.map_cons, List.sum_cons, ih, storedBytes_eq, ← Finset.sum_add_distrib]
    refine Finset.sum_congr rfl fun r _ => ?_
    rw [List.count_cons, Nat.add_mul, Nat.add_comm]
    congr 1
    by_cases heq : r.1 = k
    · simp [heq]
    · simp [heq, Ne.symm heq]

theorem Sound.length_toNat [Blake3] (h : Sound db) {r : List UInt8 × List UInt8}
    (hr : r ∈ records db) : (UInt64.ofNat r.2.length).toNat = r.2.length := by
  obtain ⟨hread, hkey⟩ := mem_records.mp hr
  obtain ⟨kind, hstored⟩ := h.stored r.1 r.2 hread hkey
  exact UInt64.toNat_ofNat_of_lt' (Nat.lt_of_le_of_lt hstored.2.2 (by decide))

theorem Sound.length_pos [Blake3] (h : Sound db) {r : List UInt8 × List UInt8}
    (hr : r ∈ records db) : 0 < r.2.length :=
  List.length_pos_of_ne_nil (h.keys r.1 r.2 (mem_records.mp hr).1).2

theorem foldl_removeStep_counter [Blake3] (h : Sound db) (keys : List (List UInt8))
    (acc : UInt64 × RockDB) : (keys.foldl (removeStep db) acc).1.toNat =
      acc.1.toNat - (keys.map (storedBytes db)).sum := by
  induction keys generalizing acc with
  | nil => simp
  | cons k keys ih =>
    have hstep : (removeStep db acc k).1.toNat = acc.1.toNat - storedBytes db k := by
      unfold removeStep
      rw [storedBytes]
      split
      · rfl
      · rename_i hkey
        cases hread : db.read .transaction k with
        | none => rfl
        | some val =>
          have hlen := h.length_toNat (r := (k, val)) (mem_records.mpr ⟨hread, hkey⟩)
          dsimp only at hlen ⊢
          rw [saturatingSub_toNat, hlen]
          rfl
    rw [List.foldl_cons, ih, hstep, List.map_cons, List.sum_cons, Nat.sub_sub]

/-- A removal keeps the books exactly when it names no record twice, or leaves none. -/
theorem Accounted.remove_iff [Blake3] (h : Accounted db) (hdb : Sound db)
    {keys : List (List UInt8)} (hremove : removeTransactions keys db = .ok db') :
    Accounted db' ↔ Removable keys db := by
  have hleaves := removeTransactions_leaves hremove
  have hbytes := hleaves.pendingBytes
  simp only [removeTransactions, bind_eq_ok_iff, pure_eq_ok_iff] at hremove
  obtain ⟨current, hcurrent, hwrite⟩ := hremove
  have hcounter := foldl_removeStep_counter hdb keys (current, db)
  rw [sum_storedBytes, h.currentBuffer hcurrent] at hcounter
  rw [hleaves.accounted_iff h (hwrite ▸ RockDB.read_put_self _ _ _ _) (by omega), hcounter]
  have hgone : ∑ r ∈ (records db).toFinset with r.1 ∈ keys, r.2.length =
      ∑ r ∈ (records db).toFinset, if r.1 ∈ keys then r.2.length else 0 := Finset.sum_filter _ _
  -- Each named record counts at least once.
  have hle : ∀ r ∈ (records db).toFinset,
      (if r.1 ∈ keys then r.2.length else 0) ≤ keys.count r.1*r.2.length := by
    intro r _
    split
    · rename_i hmem
      exact Nat.le_mul_of_pos_left _ (List.count_pos_iff.mpr hmem)
    · exact Nat.zero_le _
  have honce := Finset.sum_eq_sum_iff_of_le hle
  have hleft : pendingBytes db' = 0 ↔ ∀ r ∈ records db, r.1 ∈ keys := by
    rw [pendingBytes_eq, Finset.sum_eq_zero_iff]
    constructor
    · intro hzero r hr
      by_contra hkept
      have hr' : r ∈ records db' := (hleaves.rest r).mpr ⟨hr, hkept⟩
      have hpos := hdb.length_pos hr
      have hlen := hzero r (List.mem_toFinset.mpr hr')
      omega
    · intro hall r hr
      obtain ⟨hr, hkept⟩ := (hleaves.rest r).mp (List.mem_toFinset.mp hr)
      exact absurd (hall r hr) hkept
  have hsame : (∀ r ∈ (records db).toFinset,
      (if r.1 ∈ keys then r.2.length else 0) = keys.count r.1*r.2.length) ↔
        ∀ r ∈ records db, keys.count r.1 ≤ 1 := by
    refine forall_congr' fun r => ?_
    rw [List.mem_toFinset]
    refine imp_congr_right fun hr => ?_
    have hpos := hdb.length_pos hr
    split
    · rename_i hmem
      have hcount := List.count_pos_iff.mpr hmem
      constructor
      · intro heq
        have hone : 1*r.2.length = keys.count r.1*r.2.length := by rw [one_mul]; exact heq
        exact (Nat.eq_of_mul_eq_mul_right hpos hone).symm.le
      · intro hone
        rw [Nat.le_antisymm hone hcount, one_mul]
    · rename_i hmem
      rw [List.count_eq_zero_of_not_mem hmem]
      simp
  rw [Removable, ← hsame, ← hleft, ← honce, ← hgone]
  have hmore := Finset.sum_le_sum hle
  rw [← hgone] at hmore
  omega

/-! ### Pruning -/

theorem foldl_pruneStep_read_transaction [Blake3] (wanted : List Hash)
    (rs : List (List UInt8 × List UInt8)) (acc : UInt64 × RockDB) {key value : List UInt8} :
    (rs.foldl (pruneStep wanted) acc).2.read .transaction key = some value ↔
      acc.2.read .transaction key = some value ∧
        ∀ r ∈ rs, Blake3.xof64 r.2 ∈ wanted → r.1 ≠ key := by
  induction rs generalizing acc with
  | nil => simp
  | cons r rs ih =>
    rw [List.foldl_cons, ih, List.forall_mem_cons, ← and_assoc]
    refine and_congr_left fun _ => ?_
    simp only [pruneStep]
    split
    · rename_i hmem
      rw [read_remove_eq_some_iff, read_remove_eq_some_iff]
      simp [hmem]
    · rename_i hmem
      simp [hmem]

theorem foldl_pruneStep_read_txToHash [Blake3] (wanted : List Hash)
    (rs : List (List UInt8 × List UInt8)) (acc : UInt64 × RockDB) {hash value : List UInt8} :
    (rs.foldl (pruneStep wanted) acc).2.read .txToHash hash = some value ↔
      acc.2.read .txToHash hash = some value ∧
        ∀ r ∈ rs, Blake3.xof64 r.2 ∈ wanted → (Blake3.xof64 r.2).toList ≠ hash := by
  induction rs generalizing acc with
  | nil => simp
  | cons r rs ih =>
    rw [List.foldl_cons, ih, List.forall_mem_cons, ← and_assoc]
    refine and_congr_left fun _ => ?_
    simp only [pruneStep]
    split
    · rename_i hmem
      rw [read_remove_eq_some_iff, read_remove_eq_some_iff]
      simp [hmem]
    · rename_i hmem
      simp [hmem]

theorem foldl_pruneStep_counter [Blake3] (wanted : List Hash)
    (rs : List (List UInt8 × List UInt8)) (acc : UInt64 × RockDB)
    (hlen : ∀ r ∈ rs, (UInt64.ofNat r.2.length).toNat = r.2.length) :
    (rs.foldl (pruneStep wanted) acc).1.toNat =
      acc.1.toNat - (rs.map fun r => if Blake3.xof64 r.2 ∈ wanted then r.2.length else 0).sum := by
  induction rs generalizing acc with
  | nil => simp
  | cons r rs ih =>
    have hstep : (pruneStep wanted acc r).1.toNat =
        acc.1.toNat - if Blake3.xof64 r.2 ∈ wanted then r.2.length else 0 := by
      simp only [pruneStep]
      split
      · rw [saturatingSub_toNat, hlen r List.mem_cons_self]
      · rfl
    rw [List.foldl_cons, ih _ fun r' hr' => hlen r' (List.mem_cons_of_mem r hr'), hstep,
      List.map_cons, List.sum_cons, Nat.sub_sub]

theorem removeTransactionsInBatch_sub [Blake3] {batch : TransactionBatch}
    (hprune : removeTransactionsInBatch batch db = .ok db') {r : List UInt8 × List UInt8}
    (hr : r ∈ records db') : r ∈ records db := by
  rw [removeTransactionsInBatch] at hprune
  dsimp only at hprune
  split at hprune
  · rw [pure_eq_ok_iff] at hprune
    exact hprune ▸ hr
  simp only [bind_eq_ok_iff, pure_eq_ok_iff] at hprune
  obtain ⟨current, -, rfl⟩ := hprune
  obtain ⟨hread, hkey⟩ := mem_records.mp hr
  rw [RockDB.read_put_of_key_ne _ _ _ _ hkey.symm, foldl_pruneStep_read_transaction] at hread
  exact mem_records.mpr ⟨hread.1, hkey⟩

/-- Pruning goes through the records themselves, so it names none of them twice. -/
theorem Accounted.prune [Blake3] (h : Accounted db) (hdb : Sound db) {batch : TransactionBatch}
    (hprune : removeTransactionsInBatch batch db = .ok db') : Accounted db' := by
  rw [removeTransactionsInBatch] at hprune
  dsimp only at hprune
  split at hprune
  · rw [pure_eq_ok_iff] at hprune
    exact hprune ▸ h
  simp only [bind_eq_ok_iff, pure_eq_ok_iff] at hprune
  obtain ⟨current, hcurrent, rfl⟩ := hprune
  generalize hwanted : (batch.transactions.map fun kind => Blake3.xof64 kind.serialize) = wanted
  have hleaves : Leaves (fun r => Blake3.xof64 r.2 ∈ wanted) db
      (((records db).foldl (pruneStep wanted) (current, db)).2.put .transaction mempoolBytesKey
        (u64.enc ((records db).foldl (pruneStep wanted) (current, db)).1)) := by
    constructor
    · intro r
      rw [mem_records, mem_records, and_right_comm]
      refine and_congr_left fun hkey => ?_
      rw [RockDB.read_put_of_key_ne _ _ _ _ hkey.symm, foldl_pruneStep_read_transaction]
      refine and_congr_right fun hread => ?_
      constructor
      · intro hall hgone
        exact hall r (mem_records.mpr ⟨hread, hkey⟩) hgone rfl
      · intro hkept r' hr' hgone heq
        exact hkept (records_key_inj hr' (mem_records.mpr ⟨hread, hkey⟩) heq ▸ hgone)
    · intro hash value
      rw [RockDB.read_put_of_column_ne _ _ _ _ (by decide)]
      exact foldl_pruneStep_read_txToHash wanted (records db) (current, db)
  have hbytes := hleaves.pendingBytes
  have hcounter := foldl_pruneStep_counter wanted (records db) (current, db)
    fun r hr => hdb.length_toNat hr
  rw [← List.sum_toFinset _ (records_nodup db), ← Finset.sum_filter,
    h.currentBuffer hcurrent] at hcounter
  rw [hleaves.accounted_iff h (RockDB.read_put_self _ _ _ _) (by omega), hcounter]
  omega

end

end MemPool

/-! ### Whole runs -/

namespace MempoolCall
open MemPool
variable {db db' : RockDB}

theorem after_of_ok [Blake3] {call : MempoolCall} (h : call.run db = .ok db') :
    after db call = db' := by
  rw [after, h]

theorem after_of_error [Blake3] {call : MempoolCall} {e : ErrorDetection}
    (h : call.run db = .error e) : after db call = db := by
  rw [after, h]

theorem sound_after [Blake3] (h : Sound db) (call : MempoolCall) : Sound (after db call) := by
  cases hrun : call.run db with
  | error e =>
    rw [after_of_error hrun]
    exact h
  | ok db' =>
    rw [after_of_ok hrun]
    cases call with
    | add r kind => exact h.add hrun
    | remove txKeys => exact h.remove hrun
    | removeBatch batch => exact h.prune hrun

/-- Every record stands under a key that was generated for it. -/
def Owned (used : List String) (db : RockDB) : Prop :=
  ∀ r ∈ records db, ∃ key ∈ used, utf8 key = r.1

theorem Owned.fresh {used : List String} {key : String} (h : Owned used db) (hkey : key ∉ used)
    (hne : utf8 key ≠ mempoolBytesKey) : db.read .transaction (utf8 key) = none := by
  cases hread : db.read .transaction (utf8 key) with
  | none => rfl
  | some value =>
    obtain ⟨key', hmem, heq⟩ := h (utf8 key, value) (mem_records.mpr ⟨hread, hne⟩)
    exact absurd (utf8_injective heq ▸ hmem) hkey

theorem usedKey_add [Blake3] {r : Reading} {kind : TxKind} {key : String}
    (hadd : addTxKind r kind db = .ok db') (hkey : generateUniqueKey r = .ok key) :
    usedKey db (.add r kind) = some key := by
  have hok : succeeds (addTxKind r kind db) = true := (succeeds_iff _).mpr ⟨db', hadd⟩
  rw [usedKey, if_pos hok, hkey]
  rfl

theorem Owned.after [Blake3] {used : List String} (h : Owned used db) (call : MempoolCall) :
    Owned (used ++ (usedKey db call).toList) (after db call) := by
  have hwiden : ∀ db', (∀ r ∈ records db', r ∈ records db) →
      Owned (used ++ (usedKey db call).toList) db' := by
    intro db' hsub r hr
    obtain ⟨key, hmem, heq⟩ := h r (hsub r hr)
    exact ⟨key, List.mem_append_left _ hmem, heq⟩
  cases hrun : call.run db with
  | error e =>
    rw [after_of_error hrun]
    exact hwiden db fun _ hr => hr
  | ok db' =>
    rw [after_of_ok hrun]
    cases call with
    | add r kind =>
      obtain ⟨key, total, hkey, -, -, rfl⟩ := addTxKind_write hrun
      rw [usedKey_add hrun hkey]
      intro e he
      obtain ⟨hread, hne⟩ := mem_records.mp he
      rw [read_insertPending _ _ _ _ _ hne] at hread
      split at hread
      · rename_i heq
        exact ⟨key, List.mem_append_right _ (List.mem_singleton_self key), heq⟩
      · obtain ⟨key', hmem, heq⟩ := h e (mem_records.mpr ⟨hread, hne⟩)
        exact ⟨key', List.mem_append_left _ hmem, heq⟩
    | remove txKeys =>
      exact hwiden db' fun r hr => ((removeTransactions_leaves hrun).rest r |>.mp hr).1
    | removeBatch batch => exact hwiden db' fun r hr => removeTransactionsInBatch_sub hrun hr

/-- One call keeps the books, a removal exactly when it names no record twice or leaves none. -/
theorem accounted_after_iff [Blake3] {used : List String} (h : Accounted db) (hdb : Sound db)
    (howned : Owned used db) (call : MempoolCall)
    (hkeys : (used ++ (usedKey db call).toList).Nodup) :
    Accounted (after db call) ↔ ∀ txKeys, call = .remove txKeys → Removable txKeys db := by
  cases call with
  | add r kind =>
    refine iff_of_true ?_ (fun _ heq => by cases heq)
    cases hrun : run db (.add r kind) with
    | error e =>
      rw [after_of_error hrun]
      exact h
    | ok db' =>
      rw [after_of_ok hrun]
      refine h.add hrun fun key hkey => ?_
      rw [usedKey_add hrun hkey] at hkeys
      refine howned.fresh (fun hmem => ?_) (generateUniqueKey_ok hkey).2
      exact (List.nodup_append.mp hkeys).2.2 key hmem key (List.mem_singleton_self key) rfl
  | remove txKeys =>
    obtain ⟨db', hrun⟩ : ∃ db', run db (.remove txKeys) = .ok db' := by
      obtain ⟨used, hused⟩ := hdb.currentBuffer
      rw [run, removeTransactions, hused]
      exact ⟨_, rfl⟩
    rw [after_of_ok hrun, h.remove_iff hdb hrun]
    constructor
    · rintro hremovable _ ⟨⟩
      exact hremovable
    · intro hall
      exact hall txKeys rfl
  | removeBatch batch =>
    refine iff_of_true ?_ (fun _ heq => by cases heq)
    cases hrun : run db (.removeBatch batch) with
    | error e =>
      rw [after_of_error hrun]
      exact h
    | ok db' => exact after_of_ok hrun ▸ h.prune hdb hrun

theorem forall_prefix_cons {call : MempoolCall} {calls : List MempoolCall}
    {P : List MempoolCall → Prop} : (∀ pre, pre <+: call :: calls → P pre) ↔
      P [] ∧ ∀ pre, pre <+: calls → P (call :: pre) := by
  constructor
  · intro h
    exact ⟨h [] (List.nil_prefix), fun pre hpre => h _ (List.cons_prefix_cons.mpr ⟨rfl, hpre⟩)⟩
  · rintro ⟨hnil, hcons⟩ pre hpre
    rcases List.prefix_cons_iff.mp hpre with rfl | ⟨rest, rfl, hrest⟩
    · exact hnil
    · exact hcons rest hrest

theorem forall_removal_cons {call : MempoolCall} {calls : List MempoolCall}
    {P : List MempoolCall → List (List UInt8) → Prop} :
    (∀ pre txKeys, pre ++ [.remove txKeys] <+: call :: calls → P pre txKeys) ↔
      (∀ txKeys, call = .remove txKeys → P [] txKeys) ∧
        ∀ pre txKeys, pre ++ [.remove txKeys] <+: calls → P (call :: pre) txKeys := by
  constructor
  · intro h
    refine ⟨?_, fun pre txKeys hpre => h _ _ (List.cons_prefix_cons.mpr ⟨rfl, hpre⟩)⟩
    rintro txKeys rfl
    exact h [] txKeys (List.cons_prefix_cons.mpr ⟨rfl, List.nil_prefix⟩)
  · rintro ⟨hhead, htail⟩ pre txKeys hpre
    cases pre with
    | nil => exact hhead txKeys (List.cons_prefix_cons.mp hpre).1.symm
    | cons c pre =>
      obtain ⟨rfl, hrest⟩ := List.cons_prefix_cons.mp hpre
      exact htail pre txKeys hrest

theorem accounted_run_iff [Blake3] (calls : List MempoolCall) (used : List String)
    (h : Accounted db) (hdb : Sound db) (howned : Owned used db)
    (hkeys : (used ++ usedKeys db calls).Nodup) :
    (∀ pre, pre <+: calls → Accounted (pre.foldl after db)) ↔
      ∀ pre txKeys, pre ++ [.remove txKeys] <+: calls → Removable txKeys (pre.foldl after db) := by
  induction calls generalizing db used with
  | nil =>
    constructor
    · intro _ pre txKeys hpre
      cases List.append_ne_nil_of_right_ne_nil pre (List.cons_ne_nil _ _) (List.prefix_nil.mp hpre)
    · intro _ pre hpre
      rw [List.prefix_nil.mp hpre]
      exact h
  | cons call calls ih =>
    rw [usedKeys, ← List.append_assoc] at hkeys
    have hstep := accounted_after_iff h hdb howned call (List.nodup_append.mp hkeys).1
    have hrest := fun hnext : Accounted (after db call) =>
      ih _ hnext (sound_after hdb call) (howned.after call) hkeys
    rw [forall_prefix_cons, forall_removal_cons]
    constructor
    · rintro ⟨-, hall⟩
      have hnext : Accounted (after db call) := hall [] List.nil_prefix
      exact ⟨hstep.mp hnext, (hrest hnext).mp hall⟩
    · rintro ⟨hhead, hall⟩
      exact ⟨h, (hrest (hstep.mpr hhead)).mpr hall⟩

/-- From an unused mempool, and with keys that never repeat, the books are right after every call
exactly when no removal names a record twice, unless it leaves none. -/
theorem books_kept_iff_removable [Blake3] (db : RockDB) (htx : db.column .transaction = ∅)
    (hhash : db.column .txToHash = ∅) (calls : List MempoolCall)
    (hkeys : (usedKeys db calls).Nodup) :
    (∀ pre, pre <+: calls → Accounted (pre.foldl after db)) ↔
      ∀ pre txKeys, pre ++ [.remove txKeys] <+: calls → Removable txKeys (pre.foldl after db) := by
  apply accounted_run_iff calls [] (Accounted.unused htx hhash) (Sound.unused htx)
  · intro r hr
    rw [records, htx] at hr
    cases hr
  · exact hkeys

end MempoolCall

namespace Sample

def firstAdmission : MempoolCall := .add ⟨1700000020, 1700000020000, 7⟩ (.transfer (payment 1))

def firstKey : List UInt8 := utf8 "tx_1700000020000000_7"

/-- A payment, and a removal that also names a key nothing is stored under, twice. -/
def removedOnce : List MempoolCall := [firstAdmission, .remove [[1], firstKey, [1]]]

/-- Two payments, and a removal that names the first of them twice. -/
def removedTwice : List MempoolCall :=
  [firstAdmission, .add ⟨1700000021, 1700000021000, 8⟩ (.transfer (payment 2)),
    .remove [firstKey, firstKey]]

end Sample

namespace MempoolCall
open MemPool

theorem books_kept_unknown_key_twice :
    (@usedKeys Blake3.reference RockDB.empty Sample.removedOnce).Nodup ∧
      ∀ pre, pre <+: Sample.removedOnce →
        @Accounted Blake3.reference (pre.foldl (@after Blake3.reference) RockDB.empty) := by
  have hkeys : (@usedKeys Blake3.reference RockDB.empty Sample.removedOnce).Nodup := by
    decide +kernel
  refine ⟨hkeys, (@books_kept_iff_removable Blake3.reference RockDB.empty rfl rfl
    Sample.removedOnce hkeys).mpr ?_⟩
  rw [Sample.removedOnce, forall_removal_cons, forall_removal_cons]
  refine ⟨?_, ?_, ?_⟩
  · rintro txKeys ⟨⟩
  · rintro txKeys ⟨⟩
    left
    decide +kernel
  · intro pre txKeys hpre
    cases List.append_ne_nil_of_right_ne_nil pre (List.cons_ne_nil _ _) (List.prefix_nil.mp hpre)

/-- The second mention is subtracted again: the counter says zero, and a payment is still there. -/
theorem books_broken_record_twice :
    (@usedKeys Blake3.reference RockDB.empty Sample.removedTwice).Nodup ∧
      ¬@Accounted Blake3.reference
        (Sample.removedTwice.foldl (@after Blake3.reference) RockDB.empty) := by
  refine ⟨by decide +kernel, ?_⟩
  have hcounter : (Sample.removedTwice.foldl (@after Blake3.reference) RockDB.empty).read
      .transaction mempoolBytesKey = some (u64.enc 0) := by decide +kernel
  have hbytes : pendingBytes (Sample.removedTwice.foldl (@after Blake3.reference) RockDB.empty) =
    265 := by decide +kernel
  intro h
  rcases @Accounted.counter Blake3.reference _ h with ⟨used, hread, hsum⟩ | ⟨hnone, -⟩
  · rw [readMempoolBytesUsed_of_read hcounter] at hread
    obtain rfl := Option.some.inj (Except.ok.inj hread)
    rw [hbytes] at hsum
    cases hsum
  · rw [hcounter] at hnone
    cases hnone

end MempoolCall

end Remzar
