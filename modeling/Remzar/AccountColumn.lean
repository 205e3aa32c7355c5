import Mathlib
import Remzar.Lib.Runs
import Remzar.BalanceFlow
import Remzar.Atomicity
import Remzar.BranchSwitch
import Remzar.PendingQueue
import Remzar.Engine

/-! The account column against the balances in memory. Whatever moves balances forward writes the
accounts it moved; what goes back to an older state writes nothing, or nothing for accounts that
the older state does not know. -/
namespace Remzar
open Std Fallible Effects Checked Ledger AccountGuard

/-! ### The column -/

/-- The balance that the column holds for an address: none if nothing stands there that decodes. -/
def storedBalance (db : RockDB) (account : String) : UInt64 :=
  match db.read .account (Text.utf8 account) with
  | none => 0
  | some bytes =>
    match Postcard.takeFromBytes Postcard.u64 bytes with
    | .ok (balance, []) => balance
    | _ => 0

/-- The column has a non-zero balance exactly for the addresses that have one in memory, and the
same one. -/
def Mirrored (db : RockDB) (balances : Balances) : Prop :=
  ∀ account, storedBalance db account = amount balances account

section
variable {db db' : RockDB} {balances : Balances}

theorem storedBalance_congr (h : db'.column .account = db.column .account) (account : String) :
    storedBalance db' account = storedBalance db account := by
  unfold storedBalance RockDB.read
  rw [h]

theorem storedBalance_put_self (db : RockDB) (account : String) (v : UInt64) :
    storedBalance (db.put .account (Text.utf8 account) (Postcard.u64.enc v)) account = v := by
  unfold storedBalance
  rw [RockDB.read_put_self]
  dsimp only
  rw [Postcard.takeFromBytes_enc Postcard.u64 v trivial]

theorem storedBalance_put_other (db : RockDB) {account other : String} (v : UInt64)
    (hne : account ≠ other) :
    storedBalance (db.put .account (Text.utf8 account) (Postcard.u64.enc v)) other =
      storedBalance db other := by
  unfold storedBalance
  rw [RockDB.read_put_of_key_ne _ _ _ _ fun h => hne (Text.utf8_injective h)]

theorem amount_of_not_mem {account : String} (h : account ∉ balances) : amount balances account = 0 := by
  rw [amount, ExtTreeMap.getElem?_eq_none h]
  rfl

/-- A row of balances written to the column. -/
def flushEntries (entries : List (String × UInt64)) : EStateM ErrorDetection RockDB Unit :=
  entries.forM fun e => update fun db => writeAccount db e.1 e.2

theorem flushBalances_eq (s : InnerTree) : flushBalances s = flushEntries s.balances.toList := rfl

theorem flushAddresses_eq (s : InnerTree) (accounts : List String) :
    flushAddresses s accounts = flushEntries (accounts.map fun a => (a, amount s.balances a)) := by
  unfold flushAddresses flushEntries
  induction accounts with
  | nil => rfl
  | cons a accounts ih =>
    exact congrArg (fun rest : EStateM ErrorDetection RockDB Unit =>
      (update fun db => writeAccount db a (amount s.balances a)) >>= fun _ => rest) ih

/-- A row that goes through: every address in it has the balance it stands with, the others keep
theirs. -/
theorem flushEntries_ok (balances : Balances) (entries : List (String × UInt64))
    (hentries : ∀ e ∈ entries, e.2 = amount balances e.1) (db : RockDB)
    (hdb : db.batchProcessAll = .ok ()) :
    ∃ db', flushEntries entries db = .ok () db' ∧ db'.state = db.state ∧
      ∀ account, storedBalance db' account =
        if account ∈ entries.map Prod.fst then amount balances account
        else storedBalance db account := by
  induction entries generalizing db with
  | nil => exact ⟨db, rfl, rfl, fun account => rfl⟩
  | cons e entries ih =>
    obtain ⟨hfirst, hrest⟩ := List.forall_mem_cons.mp hentries
    let db₁ := db.put .account (Text.utf8 e.1) (Postcard.u64.enc e.2)
    have hwrite : writeAccount db e.1 e.2 = .ok db₁ :=
      (RockDB.write_eq_ok_iff _ _ _ _ _).mpr ⟨hdb, rfl⟩
    have hdb₁ : db₁.batchProcessAll = .ok () :=
      (batchProcessAll_congr (RockDB.column_put_of_ne db _ _ (by decide))).trans hdb
    obtain ⟨db', hrun, hstate, hstored⟩ := ih hrest db₁ hdb₁
    refine ⟨db', ?_, hstate, fun account => ?_⟩
    · change (e :: entries).forM (fun e => update fun db => writeAccount db e.1 e.2) db = _
      rw [forM_update_cons, hwrite]
      exact hrun
    · rw [hstored, List.map_cons]
      by_cases hmem : account ∈ entries.map Prod.fst
      · rw [if_pos hmem, if_pos (List.mem_cons_of_mem _ hmem)]
      · rw [if_neg hmem]
        by_cases heq : e.1 = account
        · rw [if_pos (List.mem_cons.mpr (Or.inl heq.symm)), ← heq, storedBalance_put_self, hfirst]
        · rw [if_neg fun h => hmem (List.mem_of_ne_of_mem (Ne.symm heq) h),
            storedBalance_put_other _ _ heq]

theorem flushEntries_error (entries : List (String × UInt64)) (db : RockDB) {e : ErrorDetection}
    (hdb : db.batchProcessAll = .error e) : storeOf (flushEntries entries db) = db := by
  cases entries with
  | nil => rfl
  | cons entry entries =>
    have hwrite : writeAccount db entry.1 entry.2 = .error e := by
      unfold writeAccount RockDB.write
      rw [hdb]
      rfl
    unfold flushEntries
    rw [forM_update_cons, hwrite]
    rfl

theorem flushBalances_ok (s : InnerTree) (db : RockDB) (hdb : db.batchProcessAll = .ok ()) :
    ∀ account, storedBalance (storeOf (flushBalances s db)) account =
      if account ∈ s.balances then amount s.balances account else storedBalance db account := by
  obtain ⟨db', hrun, -, hstored⟩ := flushEntries_ok s.balances s.balances.toList (by
    intro e he
    have hsome := ExtTreeMap.mem_toList_iff_getElem?_eq_some.mp he
    rw [amount, hsome]
    rfl) db hdb
  intro account
  have hmem : account ∈ s.balances.toList.map Prod.fst ↔ account ∈ s.balances := by
    rw [ExtTreeMap.map_fst_toList_eq_keys, ExtTreeMap.mem_keys]
  rw [flushBalances_eq, hrun]
  change storedBalance db' account = _
  rw [hstored]
  simp only [hmem]

/-! ### Applying a stored block -/

/-- A plan that fails has written no balance; one that goes through has written those of the
touched accounts last. -/
theorem executePlan_accounts {block : Block} {batch : TransactionBatch} {next : InnerTree}
    {touched : Touched} {s : ChainState} :
    (∃ e db, executePlan block batch next touched s = .error e db ∧
      db.db.column .account = s.db.column .account) ∨
    ∃ db, executePlan block batch next touched s = .ok () ⟨db, s.tree.withInner next⟩ ∧
      ∀ account, storedBalance db account =
        if account ∈ touched then amount next.balances account
        else storedBalance s.db account := by
  have hwrite : NftWrite s.db (storeOf (nftLoop block batch s.db)) := nftLoop_write
  cases hloop : nftLoop block batch s.db with
  | error e db₁ =>
    rw [hloop] at hwrite
    obtain ⟨e', hrun⟩ : ∃ e', executePlan block batch next touched s = .error e' _ :=
      executePlan_refused hloop
    change NftWrite s.db db₁ at hwrite
    refine Or.inl ⟨e', _, hrun, ?_⟩
    change db₁.column .account = _
    rw [hwrite.rest]
  | ok u db₁ =>
    rw [hloop] at hwrite
    change NftWrite s.db db₁ at hwrite
    have haccount : db₁.column .account = s.db.column .account := by
      rw [hwrite.rest]
    rw [nftLoop_run, run_bind_eq_ok_iff] at hloop
    obtain ⟨_, db₀, hmints, htransfers⟩ := hloop
    cases hcommit : commitInnerState next db₁ with
    | error e =>
      refine Or.inl ⟨failed "Failed to commit compact next state" e, { s with db := db₁ }, ?_,
        haccount⟩
      simp only [executePlan, bind_run, onDb_run, mapError, hmints, htransfers, update, hcommit]
    | ok db₂ =>
      have hpieces := hcommit
      simp only [commitInnerState, bind_eq_ok_iff, mapErr_eq_ok_iff, pure_eq_ok_iff] at hpieces
      obtain ⟨-, -, -, -, _, hdb₁, hstate⟩ := hpieces
      have hdb₂ : db₂.batchProcessAll = .ok () := by
        rw [← hstate]
        exact hdb₁
      obtain ⟨db₃, hflush, hflushed⟩ := flushAddresses_ok next touched.toList db₂ hdb₂
      obtain ⟨db', hflush', -, hstored⟩ := flushEntries_ok next.balances
        (touched.toList.map fun a => (a, amount next.balances a)) (by
          intro e he
          obtain ⟨a, -, rfl⟩ := List.mem_map.mp he
          rfl) db₂ hdb₂
      rw [← flushAddresses_eq, hflush] at hflush'
      obtain ⟨-, rfl⟩ := EStateM.Result.ok.inj hflush'
      have hverify : verifyAccountCfMatchesState db₃ next touched = .ok () := by
        apply (forM_eq_ok_iff _ _).mpr
        exact fun acct hacct => verifyAccountCf_of_flushed (hflushed acct (.inl hacct))
      have hupdate : update (commitInnerState next) db₁ = .ok () db₂ :=
        (update_eq_ok_iff _ _ _ _).mpr hcommit
      refine Or.inr ⟨db₃, ?_, fun account => ?_⟩
      · simp only [executePlan, run_bind_eq_ok_iff]
        refine ⟨(), _, onDb_ok hmints, (), _, onDb_ok htransfers, (), _, onDb_ok hupdate, (), _, rfl,
          (), _, onDb_ok hflush, _, _, rfl, ?_⟩
        rw [hverify]
        rfl
      · have hmem : account ∈ (touched.toList.map fun a => (a, amount next.balances a)).map Prod.fst ↔
            account ∈ touched := by
          rw [List.map_map]
          simp only [Function.comp_def, List.map_id', ExtTreeSet.mem_toList]
        have hold : storedBalance db₂ account = storedBalance s.db account := by
          apply storedBalance_congr
          rw [← hstate]
          exact haccount
        rw [hstored, hold]
        simp only [hmem]

/-- `apply_block` keeps the column in step, however it ends. -/
theorem Mirrored.applyBlock [Blake3] {s : ChainState} (h : Mirrored s.db s.tree.inner.balances)
    (block : Block) : Mirrored (storeOf (applyBlock block s)).db
      (storeOf (applyBlock block s)).tree.inner.balances := by
  cases hplan : planBlock s.db s.tree.inner block with
  | error e =>
    rw [applyBlock_unplanned hplan]
    exact h
  | ok plan =>
    rcases plan with - | ⟨batch, next, outcome⟩
    · rw [applyBlock_skipped hplan]
      exact h
    · rw [applyBlock_planned hplan]
      have hplanned := @executePlan_accounts block batch next outcome.touchedAccounts s
      rcases hplanned with
        ⟨e, s', hrun, haccount⟩ | ⟨db, hrun, hstored⟩
      · rw [hrun]
        exact fun account => (storedBalance_congr haccount account).trans (h account)
      · rw [hrun]
        intro account
        change storedBalance db account = amount next.balances account
        have happlied := dryRun_applied (planBlock_some hplan).dryRun
        obtain ⟨hflow, htouched⟩ := foldlM_applyTxkindToState_flow happlied.run
        rw [hstored]
        split
        · rfl
        · -- an account that is not touched is not written by any transaction
          rename_i hnot
          rw [h account]
          refine (hflow.amount_eq fun kind hkind hparty => hnot ?_).symm
          exact (htouched account).mpr (Or.inr ⟨kind, hkind, kind.parties_subset hparty⟩)

/-! ### Adding a block and running a batch -/

theorem processPendingBlocks_balances (fuel : ℕ) (t : AccountModelTree) :
    (t.processPendingBlocks fuel).inner.balances = t.inner.balances := by
  induction fuel generalizing t with
  | zero => rfl
  | succ fuel ih =>
    have haccept (u : AccountModelTree) (block : Block) :
        (u.acceptNext block).2.inner.balances = u.inner.balances := by
      unfold AccountModelTree.acceptNext
      cases validateNextBlockLink u.inner block <;> rfl
    rw [AccountModelTree.processPendingBlocks]
    split
    · rfl
    · rename_i block hblock
      have hnext := haccept (t.unqueue t.inner.expectedNextHeight) block
      split
      · rename_i heq
        rw [heq] at hnext
        exact hnext
      · rename_i heq
        rw [heq] at hnext
        rw [ih, ih]
        exact hnext

theorem feed_balances (t : AccountModelTree) (block : Block) :
    (t.feed block).inner.balances = t.inner.balances := by
  have haccept : (t.acceptNext block).2.inner.balances = t.inner.balances := by
    unfold AccountModelTree.acceptNext
    cases validateNextBlockLink t.inner block <;> rfl
  unfold AccountModelTree.feed AccountModelTree.addBlock
  dsimp only
  split
  · split
    · rename_i heq
      rw [heq] at haccept
      exact haccept
    · rename_i heq
      rw [heq] at haccept
      rw [processPendingBlocks_balances]
      exact haccept
  · split
    · split
      · rfl
      · split <;> rfl
    · rfl

/-- The batch of a block that was added: the step of the sync and of a mint. A failed flush is
only logged. -/
def runBatch [Blake3] (batch : TransactionBatch) : EStateM ErrorDetection ChainState Unit := do
  OrchestrationEngine.applyBatchTo batch
  let s ← get
  onDb (update (commitInnerState s.tree.inner))
  modify fun s => { s with db := storeOf (flushBalances s.tree.inner s.db) }

theorem runBatch_eq [Blake3] (batch : TransactionBatch) (s : ChainState) : runBatch batch s =
    match s.tree.applyBatch batch with
    | .error e => .error e s
    | .ok tree =>
      match commitInnerState tree.inner s.db with
      | .error e => .error e { s with tree }
      | .ok db => .ok () ⟨storeOf (flushBalances tree.inner db), tree⟩ := by
  have happly : OrchestrationEngine.applyBatchTo batch s =
      match s.tree.applyBatch batch with
      | .error e => .error e s
      | .ok tree => .ok () { s with tree } := by
    unfold OrchestrationEngine.applyBatchTo update
    dsimp only
    cases s.tree.applyBatch batch <;> rfl
  unfold runBatch
  rw [bind_run, happly]
  cases s.tree.applyBatch batch with
  | error e => rfl
  | ok tree =>
    dsimp only
    rw [bind_run]
    change (onDb (update (commitInnerState tree.inner)) >>= fun _ => _) ({ s with tree } : ChainState) = _
    rw [bind_run, onDb_run]
    unfold update
    cases commitInnerState tree.inner s.db <;> rfl

/-- A batch that goes through, snapshot and all, is followed by the column. -/
theorem Mirrored.runBatch [Blake3] {s s' : ChainState} (h : Mirrored s.db s.tree.inner.balances)
    {batch : TransactionBatch} (hrun : runBatch batch s = .ok () s') :
    Mirrored s'.db s'.tree.inner.balances := by
  rw [runBatch_eq] at hrun
  cases happly : s.tree.applyBatch batch with
  | error e =>
    rw [happly] at hrun
    cases hrun
  | ok tree =>
    rw [happly] at hrun
    dsimp only at hrun
    cases hcommit : commitInnerState tree.inner s.db with
    | error e =>
      rw [hcommit] at hrun
      cases hrun
    | ok db =>
      rw [hcommit] at hrun
      cases hrun
      simp only [commitInnerState, bind_eq_ok_iff, mapErr_eq_ok_iff, pure_eq_ok_iff] at hcommit
      obtain ⟨-, -, -, -, _, hbatch, rfl⟩ := hcommit
      obtain ⟨-, -, ⟨touched, hfold⟩, -⟩ := applyBatch_ok happly
      have hflow := (foldlM_applyTxkindToState_flow hfold).1
      intro account
      change storedBalance (storeOf (flushBalances tree.inner _)) account =
        amount tree.inner.balances account
      rw [flushBalances_ok tree.inner { s.db with state := some (snapshotFromInner tree.inner) }
        hbatch account]
      split
      · rfl
      · -- no account leaves the map
        rename_i hnot
        have hold : account ∉ s.tree.inner.balances := fun hin =>
          hnot ((hflow.accounts account).mpr (Or.inl hin))
        calc storedBalance { s.db with state := some (snapshotFromInner tree.inner) } account
            = storedBalance s.db account := storedBalance_congr rfl account
          _ = amount s.tree.inner.balances account := h account
          _ = 0 := amount_of_not_mem hold
          _ = amount tree.inner.balances account := (amount_of_not_mem hnot).symm

/-! ### Going back -/

/-- The transactions of a stored batch: none if nothing is stored, or it does not decode. -/
def batchTransactions : Option (List UInt8) → List TxKind
  | none => []
  | some bytes =>
    match TransactionBatch.deserialize bytes with
    | .ok batch => batch.transactions
    | .error _ => []

/-- The transactions of the heights up to one, from what is stored for each. -/
def transactionsTo (stored : UInt64 → Option (List UInt8)) (height : UInt64) : List TxKind :=
  (heightsTo height).flatMap fun idx => batchTransactions (stored idx)

theorem replayInner_flow [Blake3] {inner next : InnerTree} {idx : UInt64}
    (h : replayInner db inner idx = .ok next) : Flow inner.balances next.balances
      (batchTransactions (db.getBatchBytesByIndex idx)) := by
  simp only [replayInner, bind_eq_ok_iff] at h
  obtain ⟨⟨block, remembered⟩, hblock, h⟩ := h
  obtain ⟨-, -, rfl⟩ := replayBlock_ok hblock
  cases hbytes : db.getBatchBytesByIndex idx with
  | none =>
    simp only [hbytes] at h
    rw [replayMissingBatch_ok h]
    exact .refl _
  | some bytes =>
    simp only [hbytes, bind_eq_ok_iff, pure_eq_ok_iff] at h
    obtain ⟨⟨next', batch⟩, hbatch, rfl⟩ := h
    simp only [replayBatch, bind_eq_ok_iff, mapErr_eq_ok_iff, pure_eq_ok_iff] at hbatch
    obtain ⟨batch', hdecode, -, -, ⟨mid, outcome⟩, happly, heq⟩ := hbatch
    cases heq
    have happlied := applyBatchToState_applied _ _ _ _ _ happly
    simp only [batchTransactions, hdecode]
    exact (foldlM_applyTxkindToState_flow happlied.run).1

/-- A replay gives every account what the stored batches give it. -/
theorem replayTo_flow [Blake3] {height : UInt64} {inner : InnerTree}
    (h : replayTo height db = .ok inner db') :
    Flow ∅ inner.balances (transactionsTo db.getBatchBytesByIndex height) := by
  simp only [replayTo, run_bind_eq_ok_iff, lift_eq_ok_iff] at h
  obtain ⟨inner', db₁, hfold, _, _, -, hret⟩ := h
  cases hret
  have hflow : ∀ (heights : List UInt64) (s s' : InnerTree),
      heights.foldlM (replayInner db) s = .ok s' →
        Flow s.balances s'.balances (heights.flatMap fun idx =>
          batchTransactions (db.getBatchBytesByIndex idx)) := by
    intro heights
    induction heights with
    | nil =>
      intro s s' hs
      cases hs
      exact .refl _
    | cons height heights ih =>
      intro s s' hs
      rw [List.foldlM_cons, bind_eq_ok_iff] at hs
      obtain ⟨mid, hstep, hrest⟩ := hs
      rw [List.flatMap_cons]
      exact (replayInner_flow hstep).trans (ih mid s' hrest)
  exact hflow _ _ _ (fold_inner hfold)

theorem amount_empty (account : String) : amount (∅ : Balances) account = 0 :=
  amount_of_not_mem ExtTreeMap.not_mem_empty

/-- A replay ends with the balances of another map exactly if the stored batches lead there. -/
theorem replayTo_amount_iff [Blake3] {height : UInt64} {inner : InnerTree}
    (h : replayTo height db = .ok inner db') (account : String) :
    amount balances account = amount inner.balances account ↔
      (amount balances account).toNat + spent account (transactionsTo db.getBatchBytesByIndex height) =
        received account (transactionsTo db.getBatchBytesByIndex height) := by
  have hflow := (replayTo_flow h).amounts account
  rw [amount_empty] at hflow
  rw [← UInt64.toNat_inj]
  change _ = 0 + _ at hflow
  omega

/-- Nothing is written by a rollback: the column stays right exactly if the balances stay. -/
theorem Mirrored.rollbackTo_iff [Blake3] {s : ChainState} (h : Mirrored s.db s.tree.inner.balances)
    (ancestor : Hash) : Mirrored (storeOf (rollbackTo ancestor s)).db
        (storeOf (rollbackTo ancestor s)).tree.inner.balances ↔
      ∀ height inner db, rollbackHeight ancestor s = .ok height → replayTo height s.db = .ok inner db →
        ∀ account, (amount s.tree.inner.balances account).toNat +
          spent account (transactionsTo s.db.getBatchBytesByIndex height) =
            received account (transactionsTo s.db.getBatchBytesByIndex height) := by
  rw [rollbackTo_eq]
  cases hheight : rollbackHeight ancestor s with
  | error e =>
    refine ⟨fun _ height inner db heq => ?_, fun _ => h⟩
    cases heq
  | ok height =>
    dsimp only
    have hcolumn := congrFun (reloadFromDbToHeight_columns height s) .account
    rcases reload_cases height s with ⟨e, db, hrun⟩ | ⟨inner, db, hreplay, hrun⟩
    · rw [hrun] at hcolumn ⊢
      refine ⟨fun _ height' inner db' heq hreplay => ?_, fun _ account => ?_⟩
      · -- a replay that goes through makes the reload go through
        cases heq
        rw [reloadFromDbToHeight, bind_run, onDb, zoom, hreplay] at hrun
        cases hrun
      · exact (storedBalance_congr hcolumn account).trans (h account)
    · rw [hrun] at hcolumn ⊢
      have hstored (account : String) : storedBalance db account = amount s.tree.inner.balances account :=
        (storedBalance_congr hcolumn account).trans (h account)
      change (∀ account, storedBalance db account = amount inner.balances account) ↔ _
      simp only [hstored, replayTo_amount_iff hreplay]
      constructor
      · intro hall height' inner' db' heq _
        cases heq
        exact hall
      · exact fun hall => hall height inner db rfl hreplay

/-! ### Switching branches -/

namespace ReorgManager
open ReFork

/-- What a plan writes before the batches follow. -/
def reorgColumns : List ColumnName :=
  [.blockToHash, .blockMetaByHash, .blockmintData, .canonicalHeightToHash, .canonicalChainView, .global]

theorem attachStep_column [Blake3] (step : ReorgStep) {c : ColumnName} (hc : c ∉ reorgColumns)
    (column : Column) : Preserves (fun db : RockDB => db.column c = column) (attachStep step) := by
  simp only [reorgColumns, List.mem_cons, List.not_mem_nil, or_false, not_or] at hc
  obtain ⟨hhash, hmeta, hmint, hslot, -, -⟩ := hc
  refine preserves_bind (fun db hdb => hdb) fun db => ?_
  refine preserves_bind (preserves_lift _) fun block => ?_
  refine preserves_bind (preserves_lift _) fun _ => ?_
  refine preserves_bind (preserves_lift _) fun bytes => ?_
  refine preserves_bind (preserves_update fun db db' hdb h => ?_) fun _ => ?_
  · simp only [RockDB.indexBlockByHash, bind_eq_ok_iff, pure_eq_ok_iff] at h
    obtain ⟨-, -, canonical, -, rfl⟩ := h
    exact (RockDB.column_put_of_ne _ _ _ hhash).trans hdb
  refine preserves_bind (preserves_update fun db db' hdb h => ?_) fun _ => ?_
  · simp only [RockDB.storeLatestBlock, bind_eq_ok_iff, pure_eq_ok_iff] at h
    obtain ⟨-, -, -, -, -, -, rfl⟩ := h
    exact (RockDB.column_put_of_ne _ _ _ hmint).trans hdb
  refine preserves_bind (fun db hdb => ?_) fun _ => ?_
  · exact (RockDB.column_put_of_ne _ _ _ hslot).trans hdb
  · refine preserves_update fun db db' hdb h => ?_
    unfold promote at h
    split at h
    · exact (RockDB.column_setBlockMetaStatus h hmeta).trans hdb
    · exact Except.ok.inj h ▸ hdb

theorem applyReorg_column [Blake3] (plan : ReorgPlan) {c : ColumnName} (hc : c ∉ reorgColumns)
    (column : Column) : Preserves (fun db : RockDB => db.column c = column) (applyReorg plan) := by
  have hsteps := hc
  simp only [reorgColumns, List.mem_cons, List.not_mem_nil, or_false, not_or] at hc
  obtain ⟨hhash, hmeta, -, hslot, hview, hglobal⟩ := hc
  unfold applyReorg
  split
  · exact preserves_pure _
  · refine preserves_bind (preserves_forM _ fun step _ => ?_) fun _ => ?_
    · exact detachStep_column step hhash hmeta column
    refine preserves_bind (fun db hdb => ?_) fun _ => ?_
    · exact (RockDB.column_deleteCanonicalHashRange _ _ _ hslot).trans hdb
    refine preserves_bind (preserves_forM _ fun step _ => attachStep_column step hsteps column) fun _ => ?_
    exact fun db hdb => (RockDB.column_setCanonicalTip _ _ _ hview hglobal).trans hdb

/-- The batch of a height once a plan has moved the batches that are stored by hash. -/
def plannedBatch (db : RockDB) (steps : List (UInt64 × Hash)) (height : UInt64) : Option (List UInt8) :=
  steps.foldl (fun stored step =>
    if step.1 = height then (db.getBatchByBlockHash step.2).or stored else stored)
    (db.getBatchBytesByIndex height)

theorem getBatchBytesByIndex_remap (pre : RockDB) (steps : List (UInt64 × Hash)) (db : RockDB)
    (hpre : db.column .batchByBlockHash = pre.column .batchByBlockHash) (height : UInt64) :
    (ReorgBatchIndex.remapCanonicalBatchesBestEffort steps db).getBatchBytesByIndex height =
      steps.foldl (fun stored step =>
        if step.1 = height then (pre.getBatchByBlockHash step.2).or stored else stored)
        (db.getBatchBytesByIndex height) := by
  unfold ReorgBatchIndex.remapCanonicalBatchesBestEffort
  induction steps generalizing db with
  | nil => rfl
  | cons step steps ih =>
    have hread : db.getBatchByBlockHash step.2 = pre.getBatchByBlockHash step.2 := by
      unfold RockDB.getBatchByBlockHash RockDB.read
      rw [hpre]
    rw [List.foldl_cons, List.foldl_cons, hread]
    cases pre.getBatchByBlockHash step.2 with
    | none =>
      rw [Option.none_or, ite_self]
      exact ih db hpre
    | some bytes =>
      rw [Option.some_or, ← RockDB.getBatchBytesByIndex_store]
      exact ih _ ((RockDB.column_put_of_ne _ _ _ (by decide)).trans hpre)

/-- A moved projection: the columns beside it as before, the batches as planned. -/
theorem moveProjection_batches [Blake3] {plan : ReorgPlan} (h : moveProjection plan db = .ok () db') :
    db'.column .account = db.column .account ∧ db'.column .transaction = db.column .transaction ∧
      ∀ height, db'.getBatchBytesByIndex height = plannedBatch db (attachSteps plan) height := by
  rw [moveProjection, run_bind_eq_ok_iff] at h
  obtain ⟨_, db₁, hreorg, hremap⟩ := h
  cases hremap
  have hcolumn {c : ColumnName} (hc : c ∉ reorgColumns) : db₁.column c = db.column c := by
    have hkept := applyReorg_column plan hc (db.column c) db rfl
    rw [hreorg] at hkept
    exact hkept
  refine ⟨(remap_column _ _ (by decide)).trans (hcolumn (by decide)),
    (remap_column _ _ (by decide)).trans (hcolumn (by decide)), fun height => ?_⟩
  rw [getBatchBytesByIndex_remap db _ _ (hcolumn (by decide)),
    RockDB.getBatchBytesByIndex_of_column (hcolumn (by decide))]
  rfl

/-- What saving the tree leaves in the column. -/
theorem saveState_stored (s : ChainState) (account : String) :
    (s.db.batchProcessAll = .ok () → storedBalance (saveState s).db account =
      if account ∈ s.tree.inner.balances then amount s.tree.inner.balances account
      else storedBalance s.db account) ∧
    (s.db.batchProcessAll ≠ .ok () →
      storedBalance (saveState s).db account = storedBalance s.db account) := by
  have hcolumn : (attemptUpdate (commitInnerState s.tree.inner) s.db).column = s.db.column := by
    funext c
    apply RockDB.column_attemptUpdate
    intro db' h
    simp only [commitInnerState, bind_eq_ok_iff, pure_eq_ok_iff] at h
    obtain ⟨-, -, -, -, -, -, rfl⟩ := h
    rfl
  have hbatch : (attemptUpdate (commitInnerState s.tree.inner) s.db).batchProcessAll =
      s.db.batchProcessAll := batchProcessAll_congr (congrFun hcolumn .transaction)
  have hold : storedBalance (attemptUpdate (commitInnerState s.tree.inner) s.db) account =
      storedBalance s.db account := storedBalance_congr (congrFun hcolumn .account) account
  rw [← hold]
  refine ⟨fun hok => flushBalances_ok s.tree.inner _ (hbatch.trans hok) account, fun hnot => ?_⟩
  unfold saveState
  cases hall : s.db.batchProcessAll with
  | ok u => exact absurd hall hnot
  | error e =>
    dsimp only
    rw [flushBalances_eq, flushEntries_error _ _ (hbatch.trans hall)]

end ReorgManager

/-- After a successful switch the column is right exactly if it was written, and every account that
had a balance before takes part in a batch of the new branch; or if no balance changed. -/
theorem Mirrored.applyReorgPlan_iff [Blake3] {s s' : ManagedChain} {plan : ReorgPlan}
    (h : Mirrored s.chain.db s.chain.tree.inner.balances)
    (hrun : ReorgManager.applyReorgPlan plan s = .ok () s') :
    Mirrored s'.chain.db s'.chain.tree.inner.balances ↔ ∀ account,
      (s.chain.db.batchProcessAll = .ok () ∧ ∃ kind ∈ transactionsTo
        (ReorgManager.plannedBatch s.chain.db (ReorgManager.attachSteps plan)) plan.newTipHeight,
          account ∈ kind.parties) ∨
      (amount s.chain.tree.inner.balances account).toNat + spent account (transactionsTo
        (ReorgManager.plannedBatch s.chain.db (ReorgManager.attachSteps plan)) plan.newTipHeight) =
      received account (transactionsTo
        (ReorgManager.plannedBatch s.chain.db (ReorgManager.attachSteps plan)) plan.newTipHeight) := by
  obtain ⟨db, chain, hmove, hload, htree, hsaved⟩ := ReorgManager.applyReorgPlan_saved hrun
  obtain ⟨haccount, htransaction, hbatches⟩ := ReorgManager.moveProjection_batches hmove
  have hcolumn := reloadFromDbToHeight_columns plan.newTipHeight { s.chain with db := db }
  rcases reload_cases plan.newTipHeight { s.chain with db := db } with
    ⟨e, db₁, hreload⟩ | ⟨inner, db₁, hreplay, hreload⟩
  · rw [hreload] at hload
    cases hload
  · rw [hload] at hreload hcolumn
    cases hreload
    change db₁.column = db.column at hcolumn
    change replayTo plan.newTipHeight db = .ok inner db₁ at hreplay
    have hfinal (account : String) : storedBalance s'.chain.db account = storedBalance
        (ReorgManager.saveState ⟨db₁, (s.chain.tree.withInner inner).retainPending plan.newTipHeight⟩).db
          account := storedBalance_congr (hsaved .account (by decide)) account
    have hstored (account : String) : storedBalance db₁ account =
        amount s.chain.tree.inner.balances account :=
      (storedBalance_congr ((congrFun hcolumn .account).trans haccount) account).trans (h account)
    have hprocess : db₁.batchProcessAll = s.chain.db.batchProcessAll :=
      batchProcessAll_congr ((congrFun hcolumn .transaction).trans htransaction)
    rw [← funext hbatches]
    refine forall_congr' fun account => ?_
    rw [← replayTo_amount_iff hreplay, htree]
    change storedBalance s'.chain.db account = amount inner.balances account ↔ _
    have hmem : account ∈ inner.balances ↔ ∃ kind ∈ transactionsTo db.getBatchBytesByIndex
        plan.newTipHeight, account ∈ kind.parties := by
      rw [(replayTo_flow hreplay).accounts account]
      exact or_iff_right ExtTreeMap.not_mem_empty
    have hsave := ReorgManager.saveState_stored
      ⟨db₁, (s.chain.tree.withInner inner).retainPending plan.newTipHeight⟩ account
    rw [hfinal, ← hmem, ← hprocess]
    by_cases hok : db₁.batchProcessAll = .ok ()
    · rw [hsave.1 hok]
      change (if account ∈ inner.balances then amount inner.balances account
        else storedBalance db₁ account) = _ ↔ _
      split
      · rename_i hin
        exact ⟨fun _ => Or.inl ⟨hok, hin⟩, fun _ => rfl⟩
      · rename_i hnot
        rw [hstored]
        exact (or_iff_right fun hwritten => hnot hwritten.2).symm
    · rw [hsave.2 hok]
      change storedBalance db₁ account = _ ↔ _
      rw [hstored]
      exact (or_iff_right fun hwritten => hok hwritten.1).symm

end

/-! ### Runs -/

inductive LedgerCall where
  | applyBlock (block : Block)
  | addBlock (block : Block)
  -- The batch of an added block, in a sync or a mint.
  | runBatch (batch : TransactionBatch)
  | rollbackTo (ancestor : Hash)
  | applyReorgPlan (plan : ReorgPlan)
  -- Somebody else writes to the database.
  | store (db : RockDB)

namespace LedgerCall

def after [Blake3] (s : ManagedChain) : LedgerCall → ManagedChain
  | .applyBlock block => { s with chain := storeOf (Remzar.applyBlock block s.chain) }
  | .addBlock block => { s with chain := { s.chain with tree := s.chain.tree.feed block } }
  | .runBatch batch => { s with chain := storeOf (Remzar.runBatch batch s.chain) }
  | .rollbackTo ancestor => { s with chain := storeOf (Remzar.rollbackTo ancestor s.chain) }
  | .applyReorgPlan plan => storeOf (ReorgManager.applyReorgPlan plan s)
  | .store db => { s with chain := { s.chain with db } }

/-- A batch is run to the end, a plan is carried out, and only the calls themselves write to the
account column. A block that is refused and a rollback that fails are calls like any other. -/
def Completes [Blake3] (s : ManagedChain) : LedgerCall → Prop
  | .applyBlock _ | .addBlock _ | .rollbackTo _ => True
  | .runBatch batch => ∃ chain, Remzar.runBatch batch s.chain = .ok () chain
  | .applyReorgPlan plan => ∃ s', ReorgManager.applyReorgPlan plan s = .ok () s'
  | .store db => db.column .account = s.chain.db.column .account

/-- An account's balance is what the stored batches leave it with. -/
def SettledBy (balances : Balances) (kinds : List TxKind) (account : String) : Prop :=
  (amount balances account).toNat + spent account kinds = received account kinds

/-- A rollback has to leave every balance as it is. A switch may change the balances of accounts
that the batches of the new branch name, as long as the column can be written. -/
def KeepsColumn [Blake3] (s : ManagedChain) : LedgerCall → Prop
  | .applyBlock _ | .addBlock _ | .runBatch _ | .store _ => True
  | .rollbackTo ancestor => ∀ height inner db, rollbackHeight ancestor s.chain = .ok height →
      replayTo height s.chain.db = .ok inner db → ∀ account, SettledBy s.chain.tree.inner.balances
        (transactionsTo s.chain.db.getBatchBytesByIndex height) account
  | .applyReorgPlan plan =>
      let kinds := transactionsTo (ReorgManager.plannedBatch s.chain.db (ReorgManager.attachSteps plan))
        plan.newTipHeight
      ∀ account, (s.chain.db.batchProcessAll = .ok () ∧ ∃ kind ∈ kinds, account ∈ kind.parties) ∨
        SettledBy s.chain.tree.inner.balances kinds account

/-- One call keeps the column in step under exactly this condition. -/
theorem mirrored_after_iff [Blake3] {s : ManagedChain}
    (h : Mirrored s.chain.db s.chain.tree.inner.balances) (call : LedgerCall) (hdone : call.Completes s) :
    Mirrored (after s call).chain.db (after s call).chain.tree.inner.balances ↔ call.KeepsColumn s := by
  cases call with
  | applyBlock block => exact iff_of_true (h.applyBlock block) trivial
  | addBlock block =>
    refine iff_of_true ?_ trivial
    change Mirrored s.chain.db (s.chain.tree.feed block).inner.balances
    rw [feed_balances]
    exact h
  | runBatch batch =>
    obtain ⟨chain, hrun⟩ := hdone
    refine iff_of_true ?_ trivial
    have hkept := h.runBatch hrun
    change Mirrored (storeOf (Remzar.runBatch batch s.chain)).db
      (storeOf (Remzar.runBatch batch s.chain)).tree.inner.balances
    rw [hrun]
    exact hkept
  | rollbackTo ancestor => exact h.rollbackTo_iff ancestor
  | applyReorgPlan plan =>
    obtain ⟨s', hrun⟩ := hdone
    have hiff := h.applyReorgPlan_iff hrun
    change Mirrored (storeOf (ReorgManager.applyReorgPlan plan s)).chain.db
      (storeOf (ReorgManager.applyReorgPlan plan s)).chain.tree.inner.balances ↔ _
    rw [hrun]
    exact hiff
  | store db =>
    exact iff_of_true (fun account => (storedBalance_congr hdone account).trans (h account)) trivial

end LedgerCall

/-- The column mirrors the balances after every call of a run exactly if every rollback leaves the
balances as they are and every switch writes all that it changes. -/
theorem account_column_mirrored_iff [Blake3] (start : ManagedChain)
    (h : Mirrored start.chain.db start.chain.tree.inner.balances) (calls : List LedgerCall)
    (hdone : Runs.Steps LedgerCall.after (fun s call => call.Completes s) start calls) :
    Runs.Steps LedgerCall.after (fun s call => call.KeepsColumn s) start calls ↔
      ∀ pre, pre <+: calls → Mirrored (pre.foldl LedgerCall.after start).chain.db
        (pre.foldl LedgerCall.after start).chain.tree.inner.balances :=
  hdone.iff_invariant (fun _ call hs hcall => LedgerCall.mirrored_after_iff hs call hcall) h

namespace Sample

def rewardDb : RockDB := storeAll RockDB.empty [(block0, batch0), (block1, batch1)]

def rewardNode : ManagedChain := ⟨⟨rewardDb, AccountModelTree.withManager⟩, none⟩

theorem rewardNode_mirrored :
    Mirrored rewardNode.chain.db rewardNode.chain.tree.inner.balances := by
  intro account
  have hcolumn : rewardDb.column .account = RockDB.empty.column .account := by
    unfold rewardDb storeAll RockDB.storeBatchBytes
    simp only [List.foldl_cons, List.foldl_nil]
    repeat rw [RockDB.column_put_of_ne _ _ _ (by decide)]
  calc storedBalance rewardDb account = storedBalance RockDB.empty account :=
        storedBalance_congr hcolumn account
    _ = 0 := rfl
    _ = amount (∅ : Balances) account := (amount_empty account).symm

/-- Two blocks, the second with a reward, and back to the first. -/
def rewardTakenBack : List LedgerCall :=
  [.applyBlock block0, .applyBlock block1, .rollbackTo block0.blockHash]

theorem rewardTakenBack_completes [Blake3] :
    Runs.Steps LedgerCall.after (fun s call => call.Completes s) rewardNode rewardTakenBack :=
  ⟨trivial, trivial, trivial, trivial⟩

/-- Is the balance of the miner in the column after the calls not the one in memory? -/
def leavesEntry [Blake3] (s : ChainState) : Bool :=
  match applyValid block0 s with
  | .ok _ s =>
    match applyValid block1 s with
    | .ok _ s =>
      let s := storeOf (rollbackTo block0.blockHash s)
      decide (storedBalance s.db miner ≠ amount s.tree.inner.balances miner)
    | .error _ _ => false
  | .error _ _ => false

theorem leavesEntry_rewardNode : @leavesEntry Blake3.reference rewardNode.chain = true := by
  decide +kernel

theorem unmirrored_of_leavesEntry [Blake3] {s : ManagedChain} (hvalid0 : block0.validate = .ok ())
    (hvalid1 : block1.validate = .ok ()) (h : leavesEntry s.chain = true) :
    ¬Mirrored (rewardTakenBack.foldl LedgerCall.after s).chain.db
      (rewardTakenBack.foldl LedgerCall.after s).chain.tree.inner.balances := by
  intro hmirrored
  have hminer := hmirrored miner
  rw [rewardTakenBack, List.foldl_cons, List.foldl_cons, List.foldl_cons, List.foldl_nil] at hminer
  unfold LedgerCall.after at hminer
  dsimp only at hminer
  rw [applyBlock_of_valid hvalid0, applyBlock_of_valid hvalid1] at hminer
  unfold leavesEntry at h
  cases h₁ : applyValid block0 s.chain with
  | error e s₁ =>
    rw [h₁] at h
    cases h
  | ok u s₁ =>
    rw [h₁] at h hminer
    change (match applyValid block1 s₁ with | .ok _ s => _ | .error _ _ => false) = true at h
    cases h₂ : applyValid block1 s₁ with
    | error e s₂ =>
      rw [h₂] at h
      cases h
    | ok u s₂ =>
      rw [h₂] at h
      change storedBalance (storeOf (rollbackTo block0.blockHash (storeOf (applyValid block1 s₁)))).db miner =
        amount (storeOf (rollbackTo block0.blockHash (storeOf (applyValid block1 s₁)))).tree.inner.balances miner at hminer
      rw [h₂] at hminer
      exact of_decide_eq_true h hminer

end Sample

theorem account_column_mirrored_iff_reward :
    Runs.Steps (@LedgerCall.after Blake3.reference) (fun s call => @LedgerCall.KeepsColumn Blake3.reference s call)
        Sample.rewardNode Sample.rewardTakenBack ↔
      ∀ pre, pre <+: Sample.rewardTakenBack →
        Mirrored (pre.foldl (@LedgerCall.after Blake3.reference) Sample.rewardNode).chain.db
          (pre.foldl (@LedgerCall.after Blake3.reference) Sample.rewardNode).chain.tree.inner.balances :=
  @account_column_mirrored_iff Blake3.reference Sample.rewardNode Sample.rewardNode_mirrored
    Sample.rewardTakenBack (@Sample.rewardTakenBack_completes Blake3.reference)

/-- The rollback takes the reward from the balances and leaves it in the column. -/
theorem rollback_leaves_account_entry :
    Mirrored Sample.rewardNode.chain.db Sample.rewardNode.chain.tree.inner.balances ∧
      Runs.Steps (@LedgerCall.after Blake3.reference) (fun s call => @LedgerCall.Completes Blake3.reference s call)
        Sample.rewardNode Sample.rewardTakenBack ∧
      ¬Mirrored (Sample.rewardTakenBack.foldl (@LedgerCall.after Blake3.reference) Sample.rewardNode).chain.db
        (Sample.rewardTakenBack.foldl (@LedgerCall.after Blake3.reference)
          Sample.rewardNode).chain.tree.inner.balances := by
  refine ⟨Sample.rewardNode_mirrored, @Sample.rewardTakenBack_completes Blake3.reference, ?_⟩
  exact @Sample.unmirrored_of_leavesEntry Blake3.reference Sample.rewardNode
    Sample.signed_block0.valid Sample.signed_block1.valid Sample.leavesEntry_rewardNode

end Remzar
