import Mathlib
import Remzar.Lib.Keyed
import Remzar.Nft

/-! What one NFT transaction does to the records: which ones it needs, which one it writes and
when it is refused. -/
namespace Remzar
open Std Fallible Effects Text

/-- A transfer that names no new owner. -/
def NftTransferTx.Blank (tx : NftTransferTx) : Prop := (trim tx.newOwnerWallet).isEmpty = true

instance (tx : NftTransferTx) : Decidable tx.Blank := inferInstanceAs (Decidable (_ = true))

/-- Records are filed under their own id. -/
def NftKeyed (db : RockDB) : Prop :=
  ∀ (id : Hash) (r : NftRecord), loadNftRecord db id = some r → r.nftId = id

theorem loadNftRecord_store (db : RockDB) (r : NftRecord) (id : Hash) :
    loadNftRecord (storeNftRecord db r) id = if r.nftId = id then some r else loadNftRecord db id := by
  rw [loadNftRecord, storeNftRecord, ExtTreeMap.getElem?_insert]
  by_cases heq : r.nftId = id
  · rw [if_pos heq, if_pos]
    rw [heq]
    exact compare_self
  · rw [if_neg heq, if_neg]
    · rfl
    · intro hcmp
      exact heq (Subtype.ext (LawfulEqCmp.eq_of_compare hcmp))

theorem NftKeyed.of_empty {db : RockDB} (h : db.nfts = ∅) : NftKeyed db := by
  intro id r hload
  rw [loadNftRecord, h] at hload
  simp at hload

theorem NftKeyed.store {db : RockDB} (h : NftKeyed db) (r : NftRecord) :
    NftKeyed (storeNftRecord db r) := by
  intro id r' hload
  rw [loadNftRecord_store] at hload
  split at hload
  · rename_i heq
    cases hload
    exact heq
  · exact h id r' hload

/-! ### Transfers -/

def notFoundError (tx : NftTransferTx) : ErrorDetection :=
  validationErr s!"NFT id not found for transfer: {Blake3.toHex tx.nftId.toList}"

def blankOwnerError : ErrorDetection :=
  validationErr "NFT transfer new_owner_wallet cannot be empty"

theorem isTransferDenied_denied (rest : String) :
    isTransferDenied (validationErr (transferDeniedPrefix ++ rest)) = true := by
  change (utf8 transferDeniedPrefix).isPrefixOf (utf8 (transferDeniedPrefix ++ rest)) = true
  rw [utf8_append, List.isPrefixOf_iff_prefix]
  exact List.prefix_append _ _

theorem isTransferDenied_notFound (tx : NftTransferTx) : isTransferDenied (notFoundError tx) = false := by
  have hprefix : utf8 transferDeniedPrefix = 78 :: 70 :: 84 :: 32 :: 116 ::
      (utf8 transferDeniedPrefix).drop 5 := by decide +kernel
  have hmessage : utf8 "NFT id not found for transfer: " = 78 :: 70 :: 84 :: 32 :: 105 ::
      (utf8 "NFT id not found for transfer: ").drop 5 := by decide +kernel
  have htext : isTransferDenied (notFoundError tx) = (utf8 transferDeniedPrefix).isPrefixOf
      (utf8 ("NFT id not found for transfer: " ++ toString (Blake3.toHex tx.nftId.toList))) := rfl
  rw [htext, utf8_append, hprefix, hmessage]
  rfl

theorem isTransferDenied_blankOwner : isTransferDenied blankOwnerError = false := by decide +kernel

/-- A transfer as it is applied: the record must exist; a transfer to the owner, or by somebody
else, changes nothing; the owner may not name a blank one. -/
theorem applyNftTransferOrSkip_eq (ctx : NftContext) (tx : NftTransferTx) (db : RockDB) :
    applyNftTransferOrSkip ctx tx db =
      match loadNftRecord db tx.nftId with
      | none => .error (notFoundError tx)
      | some r =>
        if r.ownerWallet = tx.newOwnerWallet ∨ r.ownerWallet ≠ ctx.signer then .ok db
        else if tx.Blank then .error blankOwnerError
        else .ok (storeNftRecord db { r with ownerWallet := tx.newOwnerWallet }) := by
  rw [applyNftTransferOrSkip, applyNftTransfer]
  cases hload : loadNftRecord db tx.nftId with
  | none =>
    change (if isTransferDenied (notFoundError tx) = true then _ else _) = _
    rw [isTransferDenied_notFound]
    rfl
  | some r =>
    simp only [okOr, ok_bind]
    by_cases hsame : r.ownerWallet = tx.newOwnerWallet
    · rw [if_pos hsame, if_pos (.inl hsame)]
      rfl
    · rw [if_neg hsame]
      by_cases howner : r.ownerWallet ≠ ctx.signer
      · rw [if_pos (.inr howner), rejectIf, if_pos howner]
        change (if isTransferDenied (validationErr _) = true then _ else _) = _
        rw [isTransferDenied_denied]
        rfl
      · rw [if_neg fun hor => hor.elim hsame howner, rejectIf_of_not _ howner, ok_bind]
        by_cases hblank : tx.Blank
        · have hempty : (trim tx.newOwnerWallet).isEmpty = true := hblank
          rw [if_pos hblank, rejectIf, if_pos hempty]
          change (if isTransferDenied blankOwnerError = true then _ else _) = _
          rw [isTransferDenied_blankOwner]
          rfl
        · have hempty : ¬(trim tx.newOwnerWallet).isEmpty = true := hblank
          rw [if_neg hblank, rejectIf_of_not _ hempty]
          rfl

/-! ### One record at a time

Every NFT transaction reads and writes the record of its own id only. -/

def TxKind.nftKey : TxKind → Option (List UInt8)
  | .nftMint tx => some tx.nftId.toList
  | .nftTransfer tx => some tx.nftId.toList
  | _ => none

def nftAt (db : RockDB) (key : List UInt8) : Option NftRecord := db.nfts[key]?

def duplicateMintError (tx : NftMintTx) : ErrorDetection :=
  validationErr s!"NFT id already exists (duplicate mint): {Blake3.toHex tx.nftId.toList}"

def mintEntry (ctx : NftContext) (tx : NftMintTx) : Option NftRecord → Fallible (Option NftRecord)
  | none => .ok (some (mintedRecord ctx tx))
  | some _ => .error (duplicateMintError tx)

/-- Whether a transfer leaves the record as it is. -/
def NftTransferTx.Idle (ctx : NftContext) (tx : NftTransferTx) (r : NftRecord) : Prop :=
  r.ownerWallet = tx.newOwnerWallet ∨ r.ownerWallet ≠ ctx.signer

instance (ctx : NftContext) (tx : NftTransferTx) (r : NftRecord) : Decidable (tx.Idle ctx r) :=
  inferInstanceAs (Decidable (_ ∨ _))

def transferEntry (ctx : NftContext) (tx : NftTransferTx) :
    Option NftRecord → Fallible (Option NftRecord)
  | none => .error (notFoundError tx)
  | some r =>
    if tx.Idle ctx r then .ok (some r)
    else if tx.Blank then .error blankOwnerError
    else .ok (some { r with ownerWallet := tx.newOwnerWallet })

/-- The entry of its id after a transaction, applied for the first time. -/
def liveEntry (ctx : NftContext) : TxKind → Option NftRecord → Fallible (Option NftRecord)
  | .nftMint tx, v => mintEntry ctx tx v
  | .nftTransfer tx, v => transferEntry ctx tx v
  | _, v => .ok v

/-- The entry of its id after a transaction, applied in a replay. -/
def replayEntry (ctx : NftContext) : TxKind → Option NftRecord → Fallible (Option NftRecord)
  | .nftMint _, some r => .ok (some r)
  | kind, v => liveEntry ctx kind v

def liveStep (ctx : NftContext) (kind : TxKind) (db : RockDB) : Fallible RockDB :=
  match kind with
  | .nftMint tx => applyNftMint ctx tx db
  | .nftTransfer tx => applyNftTransferOrSkip ctx tx db
  | _ => .ok db

def replayNftStep (ctx : NftContext) (kind : TxKind) (db : RockDB) : Fallible RockDB :=
  match kind with
  | .nftMint tx => if (loadNftRecord db tx.nftId).isSome then .ok db else applyNftMint ctx tx db
  | kind => liveStep ctx kind db

theorem applyNftInOrder_eq (ctx : NftContext) (kind : TxKind) :
    applyNftInOrder ctx kind = update (liveStep ctx kind) := by
  cases kind <;> rfl

theorem replayNft_eq (ctx : NftContext) (kind : TxKind) :
    replayNft ctx kind = update (replayNftStep ctx kind) := by
  cases kind <;> rfl

theorem nftAt_store (db : RockDB) (r : NftRecord) :
    nftAt (storeNftRecord db r) = Function.update (nftAt db) r.nftId.toList (some r) := by
  funext key
  rw [nftAt, storeNftRecord, ExtTreeMap.getElem?_insert]
  by_cases hkey : key = r.nftId.toList
  · rw [hkey, if_pos compare_self, Function.update_self]
  · rw [if_neg, Function.update_of_ne hkey]
    · rfl
    · intro hcmp
      exact hkey (LawfulEqCmp.eq_of_compare hcmp).symm

theorem nfts_eq_of_nftAt {db db' : RockDB} (h : nftAt db = nftAt db') : db.nfts = db'.nfts :=
  ExtTreeMap.ext_getElem? fun key => congrFun h key

theorem applyNftMint_nftAt (ctx : NftContext) (tx : NftMintTx) (db : RockDB) :
    (applyNftMint ctx tx db).map nftAt = (mintEntry ctx tx (nftAt db tx.nftId.toList)).map
      (Function.update (nftAt db) tx.nftId.toList) := by
  rw [applyNftMint]
  change Except.map nftAt (rejectIf ((nftAt db tx.nftId.toList).isSome) (duplicateMintError tx) >>= _) = _
  cases hat : nftAt db tx.nftId.toList with
  | some r => rfl
  | none =>
    change Except.ok (nftAt (storeNftRecord db (mintedRecord ctx tx))) = _
    rw [nftAt_store]
    rfl

theorem applyNftTransfer_nftAt (ctx : NftContext) (tx : NftTransferTx) {db : RockDB}
    (hkeyed : NftKeyed db) :
    (applyNftTransferOrSkip ctx tx db).map nftAt =
      (transferEntry ctx tx (nftAt db tx.nftId.toList)).map
        (Function.update (nftAt db) tx.nftId.toList) := by
  rw [applyNftTransferOrSkip_eq]
  have hload : loadNftRecord db tx.nftId = nftAt db tx.nftId.toList := rfl
  rw [hload]
  cases hat : nftAt db tx.nftId.toList with
  | none => rfl
  | some r =>
    have hid : r.nftId = tx.nftId := hkeyed tx.nftId r hat
    simp only [transferEntry]
    by_cases hidle : tx.Idle ctx r
    · have hor : r.ownerWallet = tx.newOwnerWallet ∨ r.ownerWallet ≠ ctx.signer := hidle
      rw [if_pos hor, if_pos hidle]
      change Except.ok (nftAt db) = .ok (Function.update (nftAt db) tx.nftId.toList (some r))
      rw [← hat, Function.update_eq_self]
    · have hor : ¬(r.ownerWallet = tx.newOwnerWallet ∨ r.ownerWallet ≠ ctx.signer) := hidle
      rw [if_neg hor, if_neg hidle]
      by_cases hblank : tx.Blank
      · rw [if_pos hblank, if_pos hblank]
        rfl
      · rw [if_neg hblank, if_neg hblank]
        change Except.ok (nftAt (storeNftRecord db _)) = _
        rw [nftAt_store]
        change Except.ok (Function.update (nftAt db) r.nftId.toList _) = _
        rw [hid]
        rfl

theorem liveStep_nftAt (ctx : NftContext) (kind : TxKind) {db : RockDB} (hkeyed : NftKeyed db) :
    (liveStep ctx kind db).map nftAt =
      Keyed.step TxKind.nftKey (liveEntry ctx) (nftAt db) kind := by
  cases kind with
  | nftMint tx =>
    rw [liveStep, applyNftMint_nftAt]
    change _ = (mintEntry ctx tx (nftAt db tx.nftId.toList) >>= _)
    cases mintEntry ctx tx (nftAt db tx.nftId.toList) <;> rfl
  | nftTransfer tx =>
    rw [liveStep, applyNftTransfer_nftAt ctx tx hkeyed]
    change _ = (transferEntry ctx tx (nftAt db tx.nftId.toList) >>= _)
    cases transferEntry ctx tx (nftAt db tx.nftId.toList) <;> rfl
  | transfer tx => rfl
  | registerNode tx => rfl
  | reward tx => rfl

theorem replayNftStep_nftAt (ctx : NftContext) (kind : TxKind) {db : RockDB}
    (hkeyed : NftKeyed db) :
    (replayNftStep ctx kind db).map nftAt =
      Keyed.step TxKind.nftKey (replayEntry ctx) (nftAt db) kind := by
  cases kind with
  | nftMint tx =>
    cases hat : nftAt db tx.nftId.toList with
    | none =>
      have hnone : ¬(loadNftRecord db tx.nftId).isSome = true := by
        change ¬(nftAt db tx.nftId.toList).isSome = true
        rw [hat]
        exact Bool.false_ne_true
      have hstep := liveStep_nftAt ctx (.nftMint tx) hkeyed
      rw [replayNftStep, if_neg hnone]
      refine hstep.trans ?_
      simp only [Keyed.step, TxKind.nftKey, hat]
      rfl
    | some r =>
      have hsome : (loadNftRecord db tx.nftId).isSome = true := by
        change (nftAt db tx.nftId.toList).isSome = true
        rw [hat]
        rfl
      rw [replayNftStep, if_pos hsome]
      simp only [Keyed.step, TxKind.nftKey, hat, replayEntry, ok_bind]
      rw [← hat, Function.update_eq_self]
      rfl
  | nftTransfer tx => exact liveStep_nftAt ctx (.nftTransfer tx) hkeyed
  | transfer tx => rfl
  | registerNode tx => rfl
  | reward tx => rfl

/-- Only NFT records are written, and each under its own id. -/
structure NftWrite (db db' : RockDB) : Prop where
  rest : db' = { db with nfts := db'.nfts }
  keyed : NftKeyed db → NftKeyed db'

theorem NftWrite.refl (db : RockDB) : NftWrite db db := ⟨rfl, id⟩

theorem NftWrite.trans {db db₁ db₂ : RockDB} (h : NftWrite db db₁) (h' : NftWrite db₁ db₂) :
    NftWrite db db₂ where
  rest := by
    rw [h'.rest, h.rest]
  keyed := h'.keyed ∘ h.keyed

theorem NftWrite.store (db : RockDB) (r : NftRecord) : NftWrite db (storeNftRecord db r) :=
  ⟨rfl, fun h => h.store r⟩

theorem liveStep_write {ctx : NftContext} {kind : TxKind} {db db' : RockDB}
    (h : liveStep ctx kind db = .ok db') : NftWrite db db' := by
  cases kind with
  | nftMint tx =>
    simp only [liveStep, applyNftMint, bind_eq_ok_iff, pure_eq_ok_iff] at h
    obtain ⟨-, -, rfl⟩ := h
    exact NftWrite.store db _
  | nftTransfer tx =>
    rw [liveStep, applyNftTransferOrSkip_eq] at h
    split at h
    · cases h
    · split at h
      · cases h
        exact NftWrite.refl db
      · split at h
        · cases h
        · cases h
          exact NftWrite.store db _
  | transfer tx =>
    cases h
    exact NftWrite.refl db
  | registerNode tx =>
    cases h
    exact NftWrite.refl db
  | reward tx =>
    cases h
    exact NftWrite.refl db

theorem replayNftStep_write {ctx : NftContext} {kind : TxKind} {db db' : RockDB}
    (h : replayNftStep ctx kind db = .ok db') : NftWrite db db' := by
  cases kind with
  | nftMint tx =>
    rw [replayNftStep] at h
    split at h
    · cases h
      exact NftWrite.refl db
    · exact @liveStep_write ctx (.nftMint tx) db db' h
  | nftTransfer tx => exact @liveStep_write ctx (.nftTransfer tx) db db' h
  | transfer tx => exact @liveStep_write ctx (.transfer tx) db db' h
  | registerNode tx => exact @liveStep_write ctx (.registerNode tx) db db' h
  | reward tx => exact @liveStep_write ctx (.reward tx) db db' h

/-! ### Loops over a batch -/

section Loop
variable {step : TxKind → RockDB → Fallible RockDB}
  (hwrite : ∀ {kind : TxKind} {db db' : RockDB}, step kind db = .ok db' → NftWrite db db')
include hwrite

theorem loop_write {kinds : List TxKind} {db db' : RockDB}
    (h : kinds.foldlM (fun db kind => step kind db) db = .ok db') : NftWrite db db' :=
  foldlM_preserves _ (NftWrite db) (fun _ _ _ hs hstep => hs.trans (hwrite hstep)) kinds db db'
    (NftWrite.refl db) h

theorem loop_nftAt {entry : TxKind → Option NftRecord → Fallible (Option NftRecord)}
    (hview : ∀ (kind : TxKind) {db : RockDB}, NftKeyed db →
      (step kind db).map nftAt = Keyed.step TxKind.nftKey entry (nftAt db) kind)
    (kinds : List TxKind) {db : RockDB} (hkeyed : NftKeyed db) (view : List UInt8 → Option NftRecord) :
    (∃ db', kinds.foldlM (fun db kind => step kind db) db = .ok db' ∧ nftAt db' = view) ↔
      ∀ key, (Keyed.ofKey TxKind.nftKey key kinds).foldlM (fun v kind => entry kind v)
        (nftAt db key) = .ok (view key) := by
  have hloop := foldlM_map (fun db kind => step kind db) (Keyed.step TxKind.nftKey entry) nftAt
    NftKeyed (fun db kind h => hview kind h) (fun db kind db' h hstep => (hwrite hstep).keyed h)
    kinds db hkeyed
  rw [← Keyed.foldlM_step_eq_ok_iff, ← hloop]
  cases kinds.foldlM (fun db kind => step kind db) db with
  | error e =>
    constructor
    · rintro ⟨db', h, -⟩
      cases h
    · exact nofun
  | ok db' =>
    constructor
    · rintro ⟨db'', h, rfl⟩
      cases h
      rfl
    · intro h
      exact ⟨db', rfl, Except.ok.inj h⟩

end Loop

/-- The entry of an id after a list of transactions on it. -/
def liveEntries (ctx : NftContext) (kinds : List TxKind) (v : Option NftRecord) :
    Fallible (Option NftRecord) :=
  kinds.foldlM (fun v kind => liveEntry ctx kind v) v

def replayEntries (ctx : NftContext) (kinds : List TxKind) (v : Option NftRecord) :
    Fallible (Option NftRecord) :=
  kinds.foldlM (fun v kind => replayEntry ctx kind v) v

def isNftMint : TxKind → Bool
  | .nftMint _ => true
  | _ => false

def isNftTransfer : TxKind → Bool
  | .nftTransfer _ => true
  | _ => false

def nftMints (kinds : List TxKind) : List NftMintTx :=
  kinds.filterMap fun kind =>
    match kind with
    | .nftMint tx => some tx
    | _ => none

def nftTransfers (kinds : List TxKind) : List NftTransferTx :=
  kinds.filterMap fun kind =>
    match kind with
    | .nftTransfer tx => some tx
    | _ => none

theorem filter_isNftMint (kinds : List TxKind) :
    kinds.filter isNftMint = (nftMints kinds).map .nftMint := by
  induction kinds with
  | nil => rfl
  | cons kind kinds ih =>
    cases kind with
    | nftMint tx => exact congrArg (TxKind.nftMint tx :: ·) ih
    | nftTransfer tx => exact ih
    | transfer tx => exact ih
    | registerNode tx => exact ih
    | reward tx => exact ih

theorem filter_isNftTransfer (kinds : List TxKind) :
    kinds.filter isNftTransfer = (nftTransfers kinds).map .nftTransfer := by
  induction kinds with
  | nil => rfl
  | cons kind kinds ih =>
    cases kind with
    | nftMint tx => exact ih
    | nftTransfer tx => exact congrArg (TxKind.nftTransfer tx :: ·) ih
    | transfer tx => exact ih
    | registerNode tx => exact ih
    | reward tx => exact ih

/-- The order in which `apply_block` works through a batch. -/
def mintsFirst (kinds : List TxKind) : List TxKind :=
  (nftMints kinds).map .nftMint ++ (nftTransfers kinds).map .nftTransfer

theorem applyNftMintsForBlock_eq (block : Block) (batch : TransactionBatch) :
    applyNftMintsForBlock block batch = ((nftMints batch.transactions).map .nftMint).forM
      fun kind => update (liveStep (nftContext block) kind) := by
  rw [← filter_isNftMint]
  apply forM_filter
  · intro kind hkind
    cases kind <;> first | rfl | cases hkind
  · intro kind hkind
    cases kind <;> first | rfl | cases hkind

theorem applyNftTransfersForBlock_eq (block : Block) (batch : TransactionBatch) :
    applyNftTransfersForBlock block batch = ((nftTransfers batch.transactions).map .nftTransfer).forM
      fun kind => update (liveStep (nftContext block) kind) := by
  rw [← filter_isNftTransfer]
  apply forM_filter
  · intro kind hkind
    cases kind <;> first | rfl | cases hkind
  · intro kind hkind
    cases kind <;> first | rfl | cases hkind

/-! ### The entry of one id -/

theorem liveEntries_mints (ctx : NftContext) (mints : List NftMintTx) (v v' : Option NftRecord) :
    liveEntries ctx (mints.map .nftMint) v = .ok v' ↔
      (mints = [] ∧ v' = v) ∨ ∃ tx, mints = [tx] ∧ v = none ∧ v' = some (mintedRecord ctx tx) := by
  match mints, v with
  | [], v =>
    simp only [liveEntries, List.map_nil, List.foldlM_nil, pure_eq_ok_iff, true_and]
    exact ⟨fun h => .inl h.symm, fun h => h.elim Eq.symm nofun⟩
  | [tx], none =>
    have hrun : liveEntries ctx ([tx].map .nftMint) none = .ok (some (mintedRecord ctx tx)) := rfl
    rw [hrun]
    constructor
    · intro h
      cases h
      exact .inr ⟨tx, rfl, rfl, rfl⟩
    · rintro (⟨h, -⟩ | ⟨tx', h, -, rfl⟩)
      · cases h
      · cases h
        rfl
  | tx :: tx' :: rest, none =>
    constructor
    · exact nofun
    · rintro (⟨h, -⟩ | ⟨tx'', h, -⟩)
      · cases h
      · cases h
  | tx :: rest, some r =>
    constructor
    · exact nofun
    · rintro (⟨h, -⟩ | ⟨tx'', -, h, -⟩)
      · cases h
      · cases h

/-- The first transfer that would give the NFT away. -/
def givenAway (ctx : NftContext) (transfers : List NftTransferTx) : Option NftTransferTx :=
  transfers.find? fun tx => decide (tx.newOwnerWallet ≠ ctx.signer)

theorem liveEntries_transfers_none (ctx : NftContext) (transfers : List NftTransferTx) :
    (∃ v', liveEntries ctx (transfers.map .nftTransfer) none = .ok v') ↔ transfers = [] := by
  cases transfers with
  | nil => exact ⟨fun _ => rfl, fun _ => ⟨none, rfl⟩⟩
  | cons tx rest =>
    constructor
    · rintro ⟨v', h⟩
      cases h
    · exact nofun

theorem liveEntries_transfers_idle (ctx : NftContext) (transfers : List NftTransferTx)
    {r : NftRecord} (hidle : ∀ tx ∈ transfers, tx.Idle ctx r) :
    liveEntries ctx (transfers.map .nftTransfer) (some r) = .ok (some r) := by
  induction transfers with
  | nil => rfl
  | cons tx rest ih =>
    have hhead : liveEntry ctx (.nftTransfer tx) (some r) = .ok (some r) :=
      if_pos (hidle tx List.mem_cons_self)
    rw [liveEntries, List.map_cons, List.foldlM_cons, hhead]
    exact ih fun tx' h => hidle tx' (List.mem_cons_of_mem tx h)

/-- Transfers of a record go through unless its owner signs the first one that gives it away
and that one names nobody. -/
theorem liveEntries_transfers_some (ctx : NftContext) (transfers : List NftTransferTx)
    (r : NftRecord) :
    (∃ v', liveEntries ctx (transfers.map .nftTransfer) (some r) = .ok v') ↔
      (r.ownerWallet = ctx.signer → ∀ tx ∈ givenAway ctx transfers, ¬tx.Blank) := by
  by_cases howner : r.ownerWallet = ctx.signer
  · rw [forall_prop_of_true howner]
    induction transfers with
    | nil => exact ⟨fun _ => nofun, fun _ => ⟨some r, rfl⟩⟩
    | cons tx rest ih =>
      by_cases hnew : tx.newOwnerWallet = ctx.signer
      · -- The owner keeps it.
        have hhead : liveEntry ctx (.nftTransfer tx) (some r) = .ok (some r) :=
          if_pos (.inl (howner.trans hnew.symm))
        have hskip : givenAway ctx (tx :: rest) = givenAway ctx rest :=
          List.find?_cons_of_neg (by simpa using hnew)
        rw [liveEntries, List.map_cons, List.foldlM_cons, hhead, hskip]
        exact ih
      · have hfirst : givenAway ctx (tx :: rest) = some tx :=
          List.find?_cons_of_pos (by simpa using hnew)
        have hbusy : ¬tx.Idle ctx r := by
          rintro (h | h)
          · exact hnew (h.symm.trans howner)
          · exact h howner
        rw [liveEntries, List.map_cons, List.foldlM_cons, hfirst]
        have hhead : liveEntry ctx (.nftTransfer tx) (some r) =
            if tx.Blank then .error blankOwnerError
            else .ok (some { r with ownerWallet := tx.newOwnerWallet }) := if_neg hbusy
        rw [hhead]
        by_cases hblank : tx.Blank
        · rw [if_pos hblank]
          constructor
          · rintro ⟨v', h⟩
            cases h
          · intro h
            exact absurd hblank (h tx rfl)
        · rw [if_neg hblank]
          constructor
          · rintro - tx' htx'
            cases htx'
            exact hblank
          · -- From here on the signer is not the owner.
            intro _
            exact ⟨_, liveEntries_transfers_idle ctx rest fun tx' _ => .inr hnew⟩
  · constructor
    · exact fun _ h => absurd h howner
    · exact fun _ => ⟨_, liveEntries_transfers_idle ctx transfers fun tx' _ => .inr howner⟩

/-! ### Whole batches -/

def mintsOf (id : Hash) (kinds : List TxKind) : List NftMintTx :=
  (nftMints kinds).filter fun tx => decide (tx.nftId = id)

def transfersOf (id : Hash) (kinds : List TxKind) : List NftTransferTx :=
  (nftTransfers kinds).filter fun tx => decide (tx.nftId = id)

/-- The signer owns the NFT, or mints it in the same batch. -/
def Held (ctx : NftContext) (db : RockDB) (kinds : List TxKind) (id : Hash) : Prop :=
  mintsOf id kinds ≠ [] ∨ ∃ r, loadNftRecord db id = some r ∧ r.ownerWallet = ctx.signer

/-- When every NFT transaction of a batch goes through: minted ids are new and differ from each
other, transferred ones exist or are minted here, and the signer gives none to nobody. -/
structure NftsGo (ctx : NftContext) (db : RockDB) (kinds : List TxKind) : Prop where
  fresh : ∀ id, mintsOf id kinds ≠ [] → loadNftRecord db id = none
  once : ∀ id, (mintsOf id kinds).length ≤ 1
  known : ∀ id, transfersOf id kinds ≠ [] → loadNftRecord db id ≠ none ∨ mintsOf id kinds ≠ []
  named : ∀ id, Held ctx db kinds id → ∀ tx ∈ givenAway ctx (transfersOf id kinds), ¬tx.Blank

theorem ofKey_mintsFirst (id : Hash) (kinds : List TxKind) :
    Keyed.ofKey TxKind.nftKey id.toList (mintsFirst kinds) =
      (mintsOf id kinds).map .nftMint ++ (transfersOf id kinds).map .nftTransfer := by
  have hid : ∀ id' : Hash, some id'.toList = some id.toList ↔ id' = id := by
    intro id'
    constructor
    · exact fun h => Subtype.ext (Option.some.inj h)
    · rintro rfl
      rfl
  rw [mintsFirst, Keyed.ofKey_append, Keyed.ofKey, Keyed.ofKey, List.filter_map, List.filter_map]
  congr 2
  · apply List.filter_congr
    intro tx _
    exact decide_eq_decide.mpr (hid tx.nftId)
  · apply List.filter_congr
    intro tx _
    exact decide_eq_decide.mpr (hid tx.nftId)

theorem ofKey_other {key : List UInt8} (hkey : ∀ id : Hash, id.toList ≠ key) (kinds : List TxKind) :
    Keyed.ofKey TxKind.nftKey key kinds = [] := by
  apply List.filter_eq_nil_iff.mpr
  intro kind _ h
  have hkind := of_decide_eq_true h
  cases kind with
  | nftMint tx => exact hkey tx.nftId (Option.some.inj hkind)
  | nftTransfer tx => exact hkey tx.nftId (Option.some.inj hkind)
  | transfer tx => cases hkind
  | registerNode tx => cases hkind
  | reward tx => cases hkind

theorem liveEntries_append (ctx : NftContext) (kinds kinds' : List TxKind) (v v' : Option NftRecord) :
    liveEntries ctx (kinds ++ kinds') v = .ok v' ↔
      ∃ v₁, liveEntries ctx kinds v = .ok v₁ ∧ liveEntries ctx kinds' v₁ = .ok v' := by
  rw [liveEntries, List.foldlM_append, bind_eq_ok_iff]
  rfl

/-- The transactions on one id go through. -/
theorem liveEntries_mintsFirst (ctx : NftContext) (mints : List NftMintTx)
    (transfers : List NftTransferTx) (v : Option NftRecord) :
    (∃ v', liveEntries ctx (mints.map .nftMint ++ transfers.map .nftTransfer) v = .ok v') ↔
      (mints ≠ [] → v = none) ∧ mints.length ≤ 1 ∧ (transfers ≠ [] → v ≠ none ∨ mints ≠ []) ∧
      (mints ≠ [] ∨ (∃ r, v = some r ∧ r.ownerWallet = ctx.signer) →
        ∀ tx ∈ givenAway ctx transfers, ¬tx.Blank) := by
  simp only [liveEntries_append, liveEntries_mints]
  constructor
  · rintro ⟨v', v₁, ⟨rfl, rfl⟩ | ⟨tx, rfl, rfl, rfl⟩, htransfers⟩
    · refine ⟨fun h => absurd rfl h, Nat.zero_le 1, ?_, ?_⟩
      · intro hne
        left
        rintro rfl
        exact hne ((liveEntries_transfers_none ctx transfers).mp ⟨v', htransfers⟩)
      · rintro (h | ⟨r, rfl, howner⟩)
        · exact absurd rfl h
        · exact (liveEntries_transfers_some ctx transfers r).mp ⟨v', htransfers⟩ howner
    · refine ⟨fun _ => rfl, Nat.le_refl 1, fun _ => .inr (List.cons_ne_nil tx []), fun _ => ?_⟩
      exact (liveEntries_transfers_some ctx transfers _).mp ⟨v', htransfers⟩ rfl
  · rintro ⟨hfresh, honce, hknown, hnamed⟩
    match mints with
    | [] =>
      cases v with
      | none =>
        have hnil : transfers = [] := by
          by_contra hne
          rcases hknown hne with h | h
          · exact h rfl
          · exact h rfl
        exact ⟨none, none, .inl ⟨rfl, rfl⟩, hnil ▸ rfl⟩
      | some r =>
        have hgo := (liveEntries_transfers_some ctx transfers r).mpr
          fun howner => hnamed (.inr ⟨r, rfl, howner⟩)
        obtain ⟨v', hv'⟩ := hgo
        exact ⟨v', some r, .inl ⟨rfl, rfl⟩, hv'⟩
    | [tx] =>
      have hnone := hfresh (List.cons_ne_nil tx [])
      have hgo := (liveEntries_transfers_some ctx transfers (mintedRecord ctx tx)).mpr
        fun _ => hnamed (.inl (List.cons_ne_nil tx []))
      obtain ⟨v', hv'⟩ := hgo
      exact ⟨v', _, .inr ⟨tx, rfl, hnone, rfl⟩, hv'⟩
    | tx :: tx' :: rest =>
      simp only [List.length_cons] at honce
      omega

/-- A batch's NFT transactions go through, mints first, exactly under `NftsGo`. -/
theorem mintsFirst_ok_iff (ctx : NftContext) (kinds : List TxKind) {db : RockDB}
    (hkeyed : NftKeyed db) :
    (∃ db', (mintsFirst kinds).foldlM (fun db kind => liveStep ctx kind db) db = .ok db') ↔
      NftsGo ctx db kinds := by
  have hloop := loop_nftAt liveStep_write (liveStep_nftAt ctx) (mintsFirst kinds) hkeyed
  have hat := fun id : Hash => liveEntries_mintsFirst ctx (mintsOf id kinds) (transfersOf id kinds)
    (nftAt db id.toList)
  simp only [← ofKey_mintsFirst] at hat
  constructor
  · rintro ⟨db', hdb'⟩
    have hall := (hloop (nftAt db')).mp ⟨db', hdb', rfl⟩
    have hid := fun id : Hash => (hat id).mp ⟨_, hall id.toList⟩
    exact ⟨fun id => (hid id).1, fun id => (hid id).2.1, fun id => (hid id).2.2.1,
      fun id => (hid id).2.2.2⟩
  · intro hgo
    have hall : ∀ key, ∃ v', liveEntries ctx (Keyed.ofKey TxKind.nftKey key (mintsFirst kinds))
        (nftAt db key) = .ok v' := by
      intro key
      by_cases hkey : ∃ id : Hash, id.toList = key
      · obtain ⟨id, rfl⟩ := hkey
        exact (hat id).mpr ⟨hgo.fresh id, hgo.once id, hgo.known id, hgo.named id⟩
      · rw [ofKey_other (fun id h => hkey ⟨id, h⟩)]
        exact ⟨_, rfl⟩
    obtain ⟨view, hview⟩ := Classical.skolem.mp hall
    obtain ⟨db', hdb', -⟩ := (hloop view).mpr hview
    exact ⟨db', hdb'⟩

end Remzar
