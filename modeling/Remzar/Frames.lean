import Mathlib
import Remzar.Committed
import Remzar.ForkSpec
import Remzar.ReorgManager

/-! Frame conditions: which columns of the database the operations of a node leave alone. -/
namespace Remzar
open Std Fallible Effects Checked

/-! ### Keys -/

theorem padded10_injective {m n : UInt64} (h : padded10 m = padded10 n) : m = n := by
  -- Leading zeros do not change the number that the digits spell.
  have hvalue : ∀ k : UInt64, Nat.ofDigitChars 10 (padded10 k) 0 = k.toNat := by
    intro k
    rw [padded10, Nat.ofDigitChars_append, Nat.ofDigitChars_replicate_zero, Nat.mul_zero,
      Nat.ofDigitChars_ten_toDigits]
  apply UInt64.toNat_inj.mp
  rw [← hvalue m, ← hvalue n, h]

theorem labelled_injective (label : String) {m n : UInt64}
    (h : asciiBytes (label ++ String.ofList (padded10 m)) =
      asciiBytes (label ++ String.ofList (padded10 n))) : m = n := by
  have htext : label ++ String.ofList (padded10 m) = label ++ String.ofList (padded10 n) :=
    Text.utf8_injective h
  have hchars := congrArg String.toList htext
  rw [String.toList_append, String.toList_append, String.toList_ofList, String.toList_ofList] at hchars
  exact padded10_injective (List.append_cancel_left hchars)

theorem RockDB.blockKey_injective {m n : UInt64} (h : RockDB.blockKey m = RockDB.blockKey n) :
    m = n :=
  labelled_injective "block_" h

theorem batchKey_injective {m n : UInt64} (h : batchKey m = batchKey n) : m = n :=
  labelled_injective "tx_batch_" h

/-! ### Frames -/

namespace RockDB
variable {db db' : RockDB} {c : ColumnName}

theorem column_putHeight (db : RockDB) (key : String) (height : UInt64) (hc : c ≠ .global) :
    (db.putHeight key height).column c = db.column c :=
  column_put_of_ne db _ _ hc

theorem column_remove_of_ne (db : RockDB) {c' : ColumnName} (key : List UInt8) (hc : c ≠ c') :
    (db.remove c' key).column c = db.column c :=
  Function.update_of_ne hc _ _

theorem readHeight_congr (h : db'.column .global = db.column .global) (key : String) :
    db'.readHeight key = db.readHeight key := by
  rw [readHeight, readHeight, read, read, h]

theorem readHeight_putHeight (db : RockDB) (key key' : String) (height : UInt64) :
    (db.putHeight key height).readHeight key' =
      if key = key' then some height else db.readHeight key' := by
  by_cases heq : key = key'
  · subst heq
    rw [if_pos rfl, readHeight, putHeight, read_put_self]
    have hlen := u64Be_length height
    have hvalue := decode_u64Be height
    simp only [hlen, if_true]
    exact congrArg some hvalue
  · have hkey : asciiBytes key ≠ asciiBytes key' := fun h => heq (Text.utf8_injective h)
    rw [if_neg heq, readHeight, putHeight, read_put_of_key_ne _ _ _ _ hkey]
    rfl

theorem getTipHeight_of_recorded {tip : UInt64} (h : db.readHeight "tip_height" = some tip) :
    db.getTipHeight = tip := by
  rw [getTipHeight, h]

theorem column_setBlockMetaStatus {hash : Hash} {status : ForkBlockStatus}
    (h : db.setBlockMetaStatus hash status = .ok db') (hc : c ≠ .blockMetaByHash) :
    db'.column c = db.column c := by
  obtain ⟨m, -, rfl⟩ := setBlockMetaStatus_inv h
  exact column_put_of_ne db _ _ hc

theorem column_attemptUpdate (f : RockDB → Fallible RockDB)
    (hf : ∀ db', f db = .ok db' → db'.column c = db.column c) :
    (attemptUpdate f db).column c = db.column c := by
  unfold attemptUpdate
  cases h : f db with
  | ok db' => exact hf db' h
  | error e => rfl

end RockDB

/-- A replay writes NFT records only, however it ends. -/
theorem reloadFromDbToHeight_columns [Blake3] (height : UInt64) (s : ChainState) :
    (storeOf (reloadFromDbToHeight height s)).db.column = s.db.column := by
  have hreplay : Preserves (fun db : RockDB => db.column = s.db.column) (replayTo height) := by
    apply preserves_bind
    · refine preserves_foldlM (fun inner idx => ?_) _ _
      refine preserves_bind (fun db hdb => hdb) fun db => ?_
      refine preserves_bind (preserves_lift _) fun r => ?_
      dsimp only
      split
      · exact preserves_lift _
      · refine preserves_bind (preserves_lift _) fun r => ?_
        refine preserves_bind ?_ fun _ => preserves_pure _
        exact preserves_forM _ fun kind _ => replayNft_columns _ kind _
    · intro inner
      exact preserves_bind (preserves_lift _) fun _ => preserves_pure _
  have hkept := hreplay s.db rfl
  rw [reloadFromDbToHeight, bind_run, onDb, zoom]
  cases h : replayTo height s.db with
  | ok inner db =>
    rw [h] at hkept
    exact hkept
  | error e db =>
    rw [h] at hkept
    exact hkept

/-- Saving a state writes the snapshot and the balances. -/
theorem ReorgManager.saveState_column (s : ChainState) {c : ColumnName} (hc : c ≠ .account) :
    (ReorgManager.saveState s).db.column c = s.db.column c := by
  have hcommit : (attemptUpdate (commitInnerState s.tree.inner) s.db).column c = s.db.column c := by
    apply RockDB.column_attemptUpdate
    intro db' h
    simp only [commitInnerState, bind_eq_ok_iff, pure_eq_ok_iff] at h
    obtain ⟨-, -, -, -, -, -, rfl⟩ := h
    rfl
  have hflush : Preserves (fun db : RockDB => db.column c = s.db.column c)
      (flushBalances s.tree.inner) := by
    refine preserves_forM _ fun entry _ => preserves_update fun db db' hdb h => ?_
    obtain ⟨-, rfl⟩ := (RockDB.write_eq_ok_iff _ _ _ _ _).mp h
    exact (RockDB.column_put_of_ne db _ _ hc).trans hdb
  exact hflush _ hcommit

theorem applyNftMint_columns {ctx : NftContext} {tx : NftMintTx} {db db' : RockDB}
    (h : applyNftMint ctx tx db = .ok db') : db'.column = db.column := by
  simp only [applyNftMint, bind_eq_ok_iff, pure_eq_ok_iff] at h
  obtain ⟨-, -, rfl⟩ := h
  rfl

theorem applyNftInOrder_columns (ctx : NftContext) (kind : TxKind) (column : ColumnName → Column) :
    Preserves (fun db : RockDB => db.column = column) (applyNftInOrder ctx kind) := by
  cases kind with
  | nftMint tx => exact preserves_update fun db db' hdb h => (applyNftMint_columns h).trans hdb
  -- A transfer is applied as in a replay.
  | nftTransfer tx => exact replayNft_columns ctx (.nftTransfer tx) column
  | transfer tx => exact preserves_pure ()
  | registerNode tx => exact preserves_pure ()
  | reward tx => exact preserves_pure ()

/-- A program on the database keeps what it keeps of the database. -/
theorem preserves_onDb {ε α : Type} {P : RockDB → Prop} {x : EStateM ε RockDB α}
    (hx : Preserves P x) : Preserves (fun s : ChainState => P s.db) (onDb x) := by
  intro s hs
  have hkept := hx s.db hs
  rw [onDb, zoom]
  cases h : x s.db with
  | ok a db =>
    rw [h] at hkept
    exact hkept
  | error e db =>
    rw [h] at hkept
    exact hkept

/-- Applying a block writes NFT records, the snapshot and balances, however it ends. -/
theorem applyBlock_column [Blake3] (block : Block) (s : ChainState) {c : ColumnName}
    (hc : c ≠ .account) : (storeOf (applyBlock block s)).db.column c = s.db.column c := by
  let kept : RockDB → Prop := fun db => db.column c = s.db.column c
  have hmints (batch : TransactionBatch) : Preserves kept (applyNftMintsForBlock block batch) := by
    refine preserves_forM _ fun kind _ => ?_
    cases kind with
    | nftMint tx =>
      exact preserves_update fun db db' hdb h => (congrFun (applyNftMint_columns h) c).trans hdb
    | nftTransfer tx => exact preserves_pure ()
    | transfer tx => exact preserves_pure ()
    | registerNode tx => exact preserves_pure ()
    | reward tx => exact preserves_pure ()
  have htransfers (batch : TransactionBatch) :
      Preserves kept (applyNftTransfersForBlock block batch) := by
    refine preserves_forM _ fun kind _ => ?_
    cases kind with
    | nftTransfer tx =>
      intro db hdb
      exact (congrFun (replayNft_columns _ (.nftTransfer tx) db.column db rfl) c).trans hdb
    | nftMint tx => exact preserves_pure ()
    | transfer tx => exact preserves_pure ()
    | registerNode tx => exact preserves_pure ()
    | reward tx => exact preserves_pure ()
  have hcommit (next : InnerTree) : Preserves kept (update (commitInnerState next)) := by
    refine preserves_update fun db db' hdb h => ?_
    simp only [commitInnerState, bind_eq_ok_iff, pure_eq_ok_iff] at h
    obtain ⟨-, -, -, -, -, -, rfl⟩ := h
    exact hdb
  have hflush (next : InnerTree) (accounts : List String) :
      Preserves kept (flushAddresses next accounts) := by
    refine preserves_forM _ fun acct _ => preserves_update fun db db' hdb h => ?_
    obtain ⟨-, rfl⟩ := (RockDB.write_eq_ok_iff _ _ _ _ _).mp h
    exact (RockDB.column_put_of_ne db _ _ hc).trans hdb
  have hbody : Preserves (fun s' : ChainState => kept s'.db) (applyBlockBody block) := by
    refine preserves_bind (fun _ hs => hs) fun s' => ?_
    refine preserves_bind (preserves_lift _) fun plan => ?_
    split
    · exact preserves_pure ()
    · rename_i batch next outcome
      refine preserves_bind (preserves_onDb (preserves_mapError (hmints batch))) fun _ => ?_
      refine preserves_bind (preserves_onDb (preserves_mapError (htransfers batch))) fun _ => ?_
      refine preserves_bind (preserves_onDb (preserves_mapError (hcommit next))) fun _ => ?_
      refine preserves_bind (fun _ hs => hs) fun _ => ?_
      refine preserves_bind (preserves_onDb (preserves_mapError (hflush next _))) fun _ => ?_
      exact preserves_bind (fun _ hs => hs) fun _ => preserves_lift _
  have hkept := hbody s rfl
  rw [applyBlock]
  cases h : applyBlockBody block s with
  | ok u s' =>
    rw [h] at hkept
    exact hkept
  | error e s' =>
    rw [h] at hkept
    exact hkept

end Remzar
