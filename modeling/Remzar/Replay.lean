import Mathlib
import Remzar.Atomicity
import Remzar.Frames

/-! Chains accepted block by block, and the replay of their stored blocks and batches. -/
namespace Remzar
open Std Fallible Effects Checked Ledger AccountGuard

/-- Chains applied block by block from an empty database. The rest of the node may write to the
database between the calls, but not to the NFT records. -/
inductive LiveRun [Blake3] : List (Block × TransactionBatch) → ChainState → Prop
  | start : LiveRun [] ⟨RockDB.empty, AccountModelTree.withManager⟩
  | step {log : List (Block × TransactionBatch)} {s s' : ChainState} {block : Block}
    {batch : TransactionBatch} (hrun : LiveRun log s) (environment : RockDB → RockDB)
    (hrecords : (environment s.db).nfts = s.db.nfts)
    (hcall : Call.result ⟨environment, block⟩ s = .ok () s')
    (hnew : NewlyApplied ⟨environment, block⟩ s batch) : LiveRun (log ++ [(block, batch)]) s'

/-! ### Accounts -/

section Accounts
variable [Blake3]

/-- The account state after one replayed block and its batch. -/
def accountStep (inner : InnerTree) (e : Block × TransactionBatch) : Fallible InnerTree := do
  validateNextBlockLink inner e.1
  let (next, _) ← applyBatchToState (rememberRecentBlock inner e.1) e.2
    ⟨.replay, e.1.metadata.index, e.1.blockHash, tipPreviousHash inner e.1, false⟩
  return next

/-- The cache ends with the tip. -/
def CacheTip (s : InnerTree) : Prop :=
  ∀ last, s.blocks.getLast? = some last →
    s.hasTip = true ∧ last.metadata.index = s.tipHeight ∧ s.tipHeight ≤ maxMetadataIndexHard

omit [Blake3] in
theorem CacheTip.empty : CacheTip InnerTree.empty := by
  intro last h
  cases h

omit [Blake3] in
theorem CacheTip.of_guard {s : InnerTree} (htip : s.hasTip = true)
    (hbound : s.tipHeight ≤ maxMetadataIndexHard) (h : verifyStateInvariants s none = .ok ()) :
    CacheTip s := by
  intro last hlast
  simp only [verifyStateInvariants, bind_eq_ok_iff] at h
  obtain ⟨-, -, -, -, -, -, _, hcache, -⟩ := h
  simp only [verifyRecentBlockCache, htip, if_true, bind_eq_ok_iff, hlast, verifyRecentTip,
    rejectIf_eq_ok_iff] at hcache
  obtain ⟨-, -, -, -, -, hsame, -⟩ := hcache
  refine ⟨htip, ?_, hbound⟩
  by_contra hne
  exact hsame (.inl hne)

omit [Blake3] in
/-- The block of the next height is not yet in the cache, so both ways of remembering it agree. -/
theorem rememberRecentBlock_eq_guard {s : InnerTree} {block : Block} (hs : CacheTip s)
    (hheight : block.metadata.index = s.expectedNextHeight) :
    rememberRecentBlockForGuard s block = rememberRecentBlock s block := by
  unfold rememberRecentBlockForGuard rememberRecentBlock
  cases hlast : s.blocks.getLast? with
  | none => rfl
  | some last =>
    obtain ⟨htip, hindex, hbound⟩ := hs last hlast
    have hne : (last.metadata.index == block.metadata.index) = false := by
      apply beq_eq_false_iff_ne.mpr
      intro heq
      have hnext := expectedNextHeight_of_tip htip hbound
      rw [← hheight, ← heq, hindex] at hnext
      omega
    simp only [hne, Bool.false_and, Bool.false_eq_true, if_false]

/-- The mode of a context only matters where duplicate rewards are allowed. -/
theorem applyBatchToState_replay (s : InnerTree) (batch : TransactionBatch) (height : UInt64)
    (hash prev : Hash) :
    applyBatchToState s batch ⟨.replay, height, hash, prev, false⟩ =
      applyBatchToState s batch ⟨.live, height, hash, prev, false⟩ := by
  have hcontext : validateApplyContext ⟨.replay, height, hash, prev, false⟩ =
      validateApplyContext ⟨.live, height, hash, prev, false⟩ := by
    simp only [validateApplyContext, Bool.false_eq_true, and_false]
  rw [applyBatchToState, applyBatchToState, hcontext]
  rfl

theorem accountStep_of_plan {db : RockDB} {s next : InnerTree} {block : Block}
    {batch : TransactionBatch} {outcome : BatchApplyOutcome} (hs : CacheTip s)
    (h : Planned db s block batch next outcome) : accountStep s (block, batch) = .ok next := by
  have hdry := h.dryRun
  simp only [dryRunBlockAndBatch, bind_eq_ok_iff, pure_eq_ok_iff] at hdry
  obtain ⟨-, -, -, -, ⟨mid, out⟩, happly, -, -, heq⟩ := hdry
  cases heq
  rw [rememberRecentBlock_eq_guard hs (validateNextBlockLink_height h.link)] at happly
  rw [accountStep, h.link, ok_bind, applyBatchToState_replay, happly]
  rfl

end Accounts

/-! ### Executed plans -/

theorem onDb_mapError_ok {ε ε' α : Type} {x : EStateM ε RockDB α} {f : ε → ε'} {s s' : ChainState}
    {a : α} (h : onDb (mapError f x) s = .ok a s') :
    ∃ db', x s.db = .ok a db' ∧ s' = { s with db := db' } := by
  rw [onDb_run, mapError] at h
  cases hx : x s.db with
  | error e db' =>
    rw [hx] at h
    cases h
  | ok a' db' =>
    rw [hx] at h
    cases h
    exact ⟨db', rfl, rfl⟩

theorem flushAddresses_nfts (s : InnerTree) (accounts : List String) {db db' : RockDB}
    (h : flushAddresses s accounts db = .ok () db') : db'.nfts = db.nfts := by
  have hkept : Preserves (fun db' : RockDB => db'.nfts = db.nfts) (flushAddresses s accounts) := by
    refine preserves_forM _ fun acct _ => preserves_update fun db₁ db₂ hdb₁ hwrite => ?_
    obtain ⟨-, rfl⟩ := (RockDB.write_eq_ok_iff _ _ _ _ _).mp hwrite
    exact hdb₁
  have hend := hkept db rfl
  rw [h] at hend
  exact hend

theorem executePlan_nfts {block : Block} {batch : TransactionBatch} {next : InnerTree}
    {touched : Touched} {s s' : ChainState}
    (h : executePlan block batch next touched s = .ok () s') :
    ∃ db₁, nftLoop block batch s.db = .ok () db₁ ∧ s'.db.nfts = db₁.nfts := by
  simp only [executePlan, run_bind_eq_ok_iff, lift_eq_ok_iff] at h
  obtain ⟨_, s₁, h₁, _, s₂, h₂, _, s₃, h₃, _, s₄, h₄, _, s₅, h₅, _, s₆, h₆, -, rfl⟩ := h
  obtain ⟨db₁, hmints, rfl⟩ := onDb_mapError_ok h₁
  obtain ⟨db₂, htransfers, rfl⟩ := onDb_mapError_ok h₂
  obtain ⟨db₃, hcommit, rfl⟩ := onDb_mapError_ok h₃
  cases h₄
  obtain ⟨db₅, hflush, rfl⟩ := onDb_mapError_ok h₅
  cases h₆
  refine ⟨db₂, ?_, ?_⟩
  · rw [nftLoop_run, run_bind_eq_ok_iff]
    exact ⟨(), db₁, hmints, htransfers⟩
  · rw [update_eq_ok_iff] at hcommit
    simp only [commitInnerState, bind_eq_ok_iff, pure_eq_ok_iff] at hcommit
    obtain ⟨-, -, -, -, -, -, rfl⟩ := hcommit
    have hkept := flushAddresses_nfts next touched.toList hflush
    exact hkept

theorem executePlan_fits {block : Block} {batch : TransactionBatch} {next : InnerTree}
    {touched : Touched} {s s' : ChainState}
    (h : executePlan block batch next touched s = .ok () s') : SnapshotFits next := by
  simp only [executePlan, run_bind_eq_ok_iff, lift_eq_ok_iff] at h
  obtain ⟨_, s₁, _, _, s₂, _, _, s₃, h₃, -⟩ := h
  obtain ⟨db₃, hcommit, -⟩ := onDb_mapError_ok h₃
  rw [update_eq_ok_iff] at hcommit
  exact commitInnerState_fits hcommit

/-! ### NFT records -/

/-- The records after one block, applied for the first time. -/
def liveNfts (view : List UInt8 → Option NftRecord) (e : Block × TransactionBatch) :
    Fallible (List UInt8 → Option NftRecord) :=
  (mintsFirst e.2.transactions).foldlM
    (Keyed.step TxKind.nftKey (liveEntry (nftContext e.1))) view

/-- The records after one replayed block. -/
def replayNfts (view : List UInt8 → Option NftRecord) (e : Block × TransactionBatch) :
    Fallible (List UInt8 → Option NftRecord) :=
  e.2.transactions.foldlM (Keyed.step TxKind.nftKey (replayEntry (nftContext e.1))) view

theorem nftLoop_liveNfts {block : Block} {batch : TransactionBatch} {db db' : RockDB}
    (hkeyed : NftKeyed db) (h : nftLoop block batch db = .ok () db') :
    liveNfts (nftAt db) (block, batch) = .ok (nftAt db') := by
  have hloop := foldlM_map (fun db kind => liveStep (nftContext block) kind db)
    (Keyed.step TxKind.nftKey (liveEntry (nftContext block))) nftAt NftKeyed
    (fun db kind h => liveStep_nftAt (nftContext block) kind h)
    (fun db kind db' h hstep => (liveStep_write hstep).keyed h) (mintsFirst batch.transactions) db hkeyed
  rw [nftLoop, forM_update_eq_ok_iff] at h
  rw [h] at hloop
  exact hloop.symm

/-! ### Live runs -/

/-- What holds of every chain applied from an empty database. -/
structure LiveInvariant [Blake3] (log : List (Block × TransactionBatch)) (s : ChainState) : Prop where
  chain : ChainInvariant log s
  accounts : log.foldlM accountStep InnerTree.empty = .ok s.tree.inner
  nfts : log.foldlM liveNfts (fun _ => none) = .ok (nftAt s.db)
  keyed : NftKeyed s.db
  cache : CacheTip s.tree.inner
  tip : log ≠ [] → s.tree.inner.hasTip = true ∧ s.tree.inner.tipHeight ≤ maxMetadataIndexHard
  guarded : log ≠ [] → verifyStateInvariants s.tree.inner none = .ok ()

theorem LiveInvariant.start [Blake3] :
    LiveInvariant [] ⟨RockDB.empty, AccountModelTree.withManager⟩ where
  chain := (ChainRun.start RockDB.empty).invariant
  accounts := rfl
  nfts := by
    have hnone : nftAt RockDB.empty = fun _ => none := funext fun _ => ExtTreeMap.getElem?_empty
    rw [hnone]
    rfl
  keyed := NftKeyed.of_empty rfl
  cache := CacheTip.empty
  tip := fun h => absurd rfl h
  guarded := fun h => absurd rfl h

theorem nftKeyed_congr {db db' : RockDB} (h : db'.nfts = db.nfts) (hkeyed : NftKeyed db) :
    NftKeyed db' := by
  intro id r hload
  rw [loadNftRecord, h] at hload
  exact hkeyed id r hload

theorem nftAt_congr {db db' : RockDB} (h : db'.nfts = db.nfts) : nftAt db' = nftAt db := by
  funext key
  rw [nftAt, nftAt, h]

theorem LiveInvariant.step [Blake3] {log : List (Block × TransactionBatch)} {s s' : ChainState}
    {block : Block} {batch : TransactionBatch} (h : LiveInvariant log s)
    (environment : RockDB → RockDB) (hrecords : (environment s.db).nfts = s.db.nfts)
    (hcall : Call.result ⟨environment, block⟩ s = .ok () s')
    (hnew : NewlyApplied ⟨environment, block⟩ s batch) : LiveInvariant (log ++ [(block, batch)]) s' := by
  have hext := (Accepts.applied environment s' hcall hnew).extends h.chain.queue
  have hout := applyBlock_outcome block (Call.before ⟨environment, block⟩ s)
  obtain ⟨-, hfresh, hstored⟩ := hnew
  rw [Call.result] at hcall
  rw [hcall] at hout
  cases hout with
  | known hold => exact absurd hold hfresh
  | executed batch' next outcome _ hplan hexec =>
    obtain rfl : batch = batch' := Option.some.inj (hstored.symm.trans hplan.stored)
    have happlied := dryRun_applied hplan.dryRun
    have hinner : s'.tree.inner = next := by
      rw [executePlan_ok hexec]
      rfl
    have hkeyed : NftKeyed (environment s.db) := nftKeyed_congr hrecords h.keyed
    obtain ⟨db₁, hloop, hnfts⟩ := executePlan_nfts hexec
    have hwrite : NftWrite (environment s.db) (storeOf (nftLoop block batch (environment s.db))) :=
      nftLoop_write
    change nftLoop block batch (environment s.db) = .ok () db₁ at hloop
    rw [hloop] at hwrite
    have hstep := nftLoop_liveNfts hkeyed hloop
    rw [nftAt_congr hrecords, ← nftAt_congr hnfts] at hstep
    have hguard : verifyStateInvariants s'.tree.inner none = .ok () := by
      rw [hinner]
      exact happlied.invariants
    have hbound : s'.tree.inner.tipHeight ≤ maxMetadataIndexHard := by
      rw [hext.tip.2]
      exact hext.bounded
    refine ⟨h.chain.step hext, ?_, ?_, ?_, ?_, fun _ => ⟨hext.tip.1, hbound⟩, fun _ => hguard⟩
    · rw [List.foldlM_append, h.accounts, ok_bind, List.foldlM_cons,
        accountStep_of_plan h.cache hplan, hinner]
      rfl
    · rw [List.foldlM_append, h.nfts, ok_bind, List.foldlM_cons, hstep]
      rfl
    · exact nftKeyed_congr hnfts (hwrite.keyed hkeyed)
    · exact CacheTip.of_guard hext.tip.1 hbound hguard

theorem LiveRun.invariant [Blake3] {log : List (Block × TransactionBatch)} {s : ChainState}
    (h : LiveRun log s) : LiveInvariant log s := by
  induction h with
  | start => exact LiveInvariant.start
  | step _ environment hrecords hcall hnew ih => exact ih.step environment hrecords hcall hnew

/-! ### Replays of stored chains -/

/-- The NFT transactions of one block, as a replay applies them to the database. -/
def replayRecords (db : RockDB) (e : Block × TransactionBatch) : Fallible RockDB :=
  e.2.transactions.foldlM (fun db kind => replayNftStep (nftContext e.1) kind db) db

theorem replayRecords_write {db db' : RockDB} {e : Block × TransactionBatch}
    (h : replayRecords db e = .ok db') : NftWrite db db' :=
  loop_write replayNftStep_write h

theorem replayRecords_nftAt {db : RockDB} (hkeyed : NftKeyed db) (e : Block × TransactionBatch) :
    (replayRecords db e).map nftAt = replayNfts (nftAt db) e :=
  foldlM_map _ _ nftAt NftKeyed (fun _ kind h => replayNftStep_nftAt (nftContext e.1) kind h)
    (fun _ _ _ h hstep => (replayNftStep_write hstep).keyed h) e.2.transactions db hkeyed

theorem replayNft_loop_ok_iff (e : Block × TransactionBatch) (db db' : RockDB) :
    e.2.transactions.forM (replayNft (nftContext e.1)) db = .ok () db' ↔
      replayRecords db e = .ok db' := by
  have hfun : replayNft (nftContext e.1) = fun kind => update (replayNftStep (nftContext e.1) kind) :=
    funext fun kind => replayNft_eq (nftContext e.1) kind
  rw [hfun, forM_update_eq_ok_iff]
  rfl

section
variable [Blake3]

/-- One height of a replay, with its block and batch in place. -/
theorem replayStep_ok_iff {db db' : RockDB} {inner next : InnerTree} {idx : UInt64}
    {e : Block × TransactionBatch} (hstored : StoredAt db idx e) (hidx : e.1.metadata.index = idx) :
    replayStep inner idx db = .ok next db' ↔
      accountStep inner e = .ok next ∧ replayRecords db e = .ok db' := by
  obtain ⟨block, batch⟩ := e
  obtain ⟨hblock, bytes, hbytes, hbatch⟩ := hstored
  rw [← replayNft_loop_ok_iff]
  simp only [replayStep, run_bind_eq_ok_iff, lift_eq_ok_iff]
  constructor
  · rintro ⟨_, _, hget, ⟨block', remembered⟩, _, ⟨hread, rfl⟩, h⟩
    cases hget
    simp only [replayBlock, hblock, ok_bind, bind_eq_ok_iff, okOr_eq_ok_iff, pure_eq_ok_iff] at hread
    obtain ⟨_, hsome, _, hlink, heq⟩ := hread
    cases hsome
    cases heq
    simp only [hbytes, run_bind_eq_ok_iff, lift_eq_ok_iff, replayBatch, hbatch, mapErr, ok_bind,
      bind_eq_ok_iff, pure_eq_ok_iff] at h
    obtain ⟨_, _, ⟨⟨-, -, ⟨next', outcome⟩, happly, rfl⟩, rfl⟩, _, db₁, hnft, hret⟩ := h
    cases hret
    refine ⟨?_, hnft⟩
    rw [accountStep, hlink, ok_bind, hidx, happly]
    rfl
  · rintro ⟨haccount, hnft⟩
    simp only [accountStep, bind_eq_ok_iff, pure_eq_ok_iff] at haccount
    obtain ⟨_, hlink, ⟨next', outcome⟩, happly, rfl⟩ := haccount
    rw [hidx] at happly
    have hheight : batch.index = idx := (applyBatchToState_applied _ _ _ _ _ happly).height
    refine ⟨db, db, rfl, (block, rememberRecentBlock inner block), db, ⟨?_, rfl⟩, ?_⟩
    · rw [replayBlock, hblock, ok_bind]
      change (validateNextBlockLink inner block >>= _) = _
      rw [hlink]
      rfl
    · have hreplay : replayBatch (rememberRecentBlock inner block) block idx
          (tipPreviousHash inner block) bytes = .ok (next', batch) := by
        simp only [replayBatch, hbatch, mapErr, ok_bind]
        rw [rejectIf_of_not _ (fun hne => hne hheight), ok_bind, happly]
        rfl
      simp only [hbytes, run_bind_eq_ok_iff, lift_eq_ok_iff]
      exact ⟨_, _, ⟨hreplay, rfl⟩, (), db', hnft, rfl⟩

/-- The heights of a log from `k` on, each with its own block and batch. -/
def StoredFrom (db : RockDB) (k : ℕ) (log : List (Block × TransactionBatch)) : Prop :=
  ∀ i e, log[i]? = some e →
    StoredAt db (UInt64.ofNat (k+i)) e ∧ e.1.metadata.index = UInt64.ofNat (k+i)

omit [Blake3] in
theorem StoredFrom.tail {db : RockDB} {k : ℕ} {e : Block × TransactionBatch}
    {log : List (Block × TransactionBatch)} (h : StoredFrom db k (e :: log)) :
    StoredFrom db (k+1) log := by
  intro i e' he'
  have hat := h (i+1) e' (by simpa using he')
  rwa [show k+(i+1) = k+1+i by omega] at hat

omit [Blake3] in
theorem StoredFrom.congr {db db' : RockDB} {k : ℕ} {log : List (Block × TransactionBatch)}
    (hcolumn : db'.column = db.column) (h : StoredFrom db k log) : StoredFrom db' k log :=
  fun i e he => ⟨(StoredAt.congr hcolumn _ e).mpr (h i e he).1, (h i e he).2⟩

theorem replayFold_ok_iff (log : List (Block × TransactionBatch)) (k : ℕ) {inner inner' : InnerTree}
    {db db' : RockDB} (hstored : StoredFrom db k log) :
    ((List.range' k log.length).map UInt64.ofNat).foldlM replayStep inner db = .ok inner' db' ↔
      log.foldlM accountStep inner = .ok inner' ∧ log.foldlM replayRecords db = .ok db' := by
  induction log generalizing k inner db with
  | nil =>
    change EStateM.Result.ok inner db = .ok inner' db' ↔ Except.ok inner = .ok inner' ∧ Except.ok db = .ok db'
    simp only [EStateM.Result.ok.injEq, Except.ok.injEq]
  | cons e log ih =>
    obtain ⟨hat, hidx⟩ := hstored 0 e rfl
    rw [List.length_cons, List.range'_succ, List.map_cons, List.foldlM_cons, List.foldlM_cons,
      List.foldlM_cons, run_bind_eq_ok_iff, bind_eq_ok_iff, bind_eq_ok_iff]
    have hrest : ∀ {db₁ : RockDB}, replayRecords db e = .ok db₁ → StoredFrom db₁ (k+1) log := by
      intro db₁ hrecords
      have hcolumn : db₁.column = db.column := by rw [(replayRecords_write hrecords).rest]
      exact hstored.tail.congr hcolumn
    constructor
    · rintro ⟨mid, db₁, hstep, hfold⟩
      obtain ⟨haccount, hrecords⟩ := (replayStep_ok_iff hat hidx).mp hstep
      obtain ⟨haccounts, hrecords'⟩ := (ih (k+1) (hrest hrecords)).mp hfold
      exact ⟨⟨mid, haccount, haccounts⟩, ⟨db₁, hrecords, hrecords'⟩⟩
    · rintro ⟨⟨mid, haccount, haccounts⟩, ⟨db₁, hrecords, hrecords'⟩⟩
      refine ⟨mid, db₁, (replayStep_ok_iff hat hidx).mpr ⟨haccount, hrecords⟩, ?_⟩
      exact (ih (k+1) (hrest hrecords)).mpr ⟨haccounts, hrecords'⟩

omit [Blake3] in
/-- The checks at the end of a replay, for a state the guard has passed. -/
theorem verifyReplayed {s : InnerTree} (htip : s.hasTip = true)
    (hguard : verifyStateInvariants s none = .ok ()) :
    verifyCompactStateInvariants s (some s.tipHeight) s.currentTipHash s.currentPrevTipHash = .ok () := by
  have hcompact := verifyCompactStateInvariants_of_guard htip hguard
  have hheight : verifyTipHeight s (some s.tipHeight) = .ok () := by
    simp only [verifyTipHeight, htip, Bool.not_true, ne_eq, not_true_eq_false]
    rfl
  have hfield : ∀ (what : String) (actual : Hash), verifyTipField s what actual (some actual) = .ok () := by
    intro what actual
    apply rejectIf_of_not
    rintro (hno | hne)
    · rw [htip] at hno
      cases hno
    · exact hne rfl
  simp only [verifyCompactStateInvariants, bind_eq_ok_iff, InnerTree.currentTipHash,
    InnerTree.currentPrevTipHash, htip, if_true] at hcompact ⊢
  obtain ⟨_, hlen, _, -, _, -, _, -, hrest⟩ := hcompact
  exact ⟨(), hlen, (), hheight, (), hfield _ _, (), hfield _ _, hrest⟩

/-- Replaying stored blocks that the guard has passed before rebuilds their account state; it goes
through exactly when the NFT records do. -/
theorem reload_ok_iff {log : List (Block × TransactionBatch)} {inner : InnerTree} {height : UInt64}
    {db : RockDB} {tree : AccountModelTree} {s' : ChainState}
    (haccounts : log.foldlM accountStep InnerTree.empty = .ok inner) (htip : inner.hasTip = true)
    (hguard : verifyStateInvariants inner none = .ok ()) (hheight : inner.tipHeight = height)
    (hlen : log.length = height.toNat+1) (hstored : StoredFrom db 0 log) :
    reloadFromDbToHeight height ⟨db, tree⟩ = .ok () s' ↔
      ∃ db', log.foldlM replayRecords db = .ok db' ∧
        s' = ⟨db', (tree.withInner inner).retainPending height⟩ := by
  have hheights : heightsTo height = (List.range' 0 log.length).map UInt64.ofNat := by
    rw [heightsTo, hlen, List.range_eq_range']
  have hverify := verifyReplayed htip hguard
  rw [hheight] at hverify
  have hreplay : ∀ {inner' : InnerTree} {db' : RockDB}, replayTo height db = .ok inner' db' ↔
      inner' = inner ∧ log.foldlM replayRecords db = .ok db' := by
    intro inner' db'
    simp only [replayTo, run_bind_eq_ok_iff, lift_eq_ok_iff, hheights, replayFold_ok_iff log 0 hstored,
      haccounts]
    constructor
    · rintro ⟨mid, db₁, ⟨heq, hrecords⟩, _, _, ⟨-, rfl⟩, hret⟩
      cases heq
      cases hret
      exact ⟨rfl, hrecords⟩
    · rintro ⟨rfl, hrecords⟩
      exact ⟨inner', db', ⟨rfl, hrecords⟩, (), db', ⟨hverify, rfl⟩, rfl⟩
  simp only [reloadFromDbToHeight, run_bind_eq_ok_iff]
  constructor
  · rintro ⟨inner', s₁, honDb, hmodify⟩
    rw [onDb_run] at honDb
    cases hrun : replayTo height db with
    | error e db' =>
      rw [hrun] at honDb
      cases honDb
    | ok inner'' db' =>
      rw [hrun] at honDb
      cases honDb
      obtain ⟨rfl, hrecords⟩ := hreplay.mp hrun
      cases hmodify
      exact ⟨db', hrecords, rfl⟩
  · rintro ⟨db', hrecords, rfl⟩
    refine ⟨inner, ⟨db', tree⟩, ?_, rfl⟩
    rw [onDb_run, hreplay.mpr ⟨rfl, hrecords⟩]

end

theorem ChainInvariant.index_eq [Blake3] {log : List (Block × TransactionBatch)} {s : ChainState}
    (h : ChainInvariant log s) {i : ℕ} {e : Block × TransactionBatch} (he : log[i]? = some e) :
    e.1.metadata.index = UInt64.ofNat i := by
  have hi := (List.getElem?_eq_some_iff.mp he).1
  have hat := congrArg (fun l => l[i]?) h.heights
  simp only [List.getElem?_map, he, Option.map_some, List.getElem?_range hi] at hat
  rw [← Option.some.inj hat, UInt64.ofNat_toNat]

theorem ChainInvariant.storedFrom [Blake3] {log : List (Block × TransactionBatch)} {s : ChainState}
    (h : ChainInvariant log s) {db : RockDB}
    (hstored : ∀ i e, log[i]? = some e → StoredAt db (UInt64.ofNat i) e) : StoredFrom db 0 log := by
  intro i e he
  rw [Nat.zero_add]
  exact ⟨hstored i e he, h.index_eq he⟩

/-- The tip of a chain that is not empty. -/
theorem LiveInvariant.tipHeight_eq [Blake3] {log : List (Block × TransactionBatch)} {s : ChainState}
    (h : LiveInvariant log s) {height : UInt64} (hlen : log.length = height.toNat+1) :
    s.tree.inner.tipHeight = height := by
  have hne : log ≠ [] := by
    rintro rfl
    cases hlen
  obtain ⟨htip, hbound⟩ := h.tip hne
  have hnext := expectedNextHeight_of_tip htip hbound
  rw [h.chain.next, hlen] at hnext
  exact UInt64.toNat_inj.mp (Nat.succ.inj hnext).symm

/-- Replaying the stored blocks of a live chain. -/
theorem LiveInvariant.reload_ok_iff [Blake3] {log : List (Block × TransactionBatch)} {s : ChainState}
    (h : LiveInvariant log s) {height : UInt64} (hlen : log.length = height.toNat+1) {db : RockDB}
    (hstored : ∀ i e, log[i]? = some e → StoredAt db (UInt64.ofNat i) e) {tree : AccountModelTree}
    {s' : ChainState} :
    reloadFromDbToHeight height ⟨db, tree⟩ = .ok () s' ↔
      ∃ db', log.foldlM replayRecords db = .ok db' ∧
        s' = ⟨db', (tree.withInner s.tree.inner).retainPending height⟩ := by
  have hne : log ≠ [] := by
    rintro rfl
    cases hlen
  exact Remzar.reload_ok_iff h.accounts (h.tip hne).1 (h.guarded hne) (h.tipHeight_eq hlen) hlen
    (h.chain.storedFrom hstored)

/-! ### Mints and transfers out of order

Live application works through the mints of a batch first, a replay takes the transactions as
they come. -/

/-- A transfer of the id that the other transaction mints. -/
def early : TxKind → TxKind → Bool
  | .nftTransfer tx, .nftMint mint => decide (tx.nftId = mint.nftId)
  | _, _ => false

/-- No NFT is transferred before the batch mints it. -/
def MintsLead (kinds : List TxKind) : Prop := kinds.Pairwise fun a b => early a b = false

instance (kinds : List TxKind) : Decidable (MintsLead kinds) :=
  inferInstanceAs (Decidable (kinds.Pairwise _))

theorem ofKey_mintsFirst_eq (key : List UInt8) (kinds : List TxKind) :
    Keyed.ofKey TxKind.nftKey key (mintsFirst kinds) =
      (nftMints (Keyed.ofKey TxKind.nftKey key kinds)).map .nftMint ++
        (nftTransfers (Keyed.ofKey TxKind.nftKey key kinds)).map .nftTransfer := by
  rw [mintsFirst, ← filter_isNftMint, ← filter_isNftTransfer, ← filter_isNftMint,
    ← filter_isNftTransfer, Keyed.ofKey_append]
  congr 1
  · exact List.filter_comm ..
  · exact List.filter_comm ..

/-- Only mints are replayed differently. -/
theorem replayEntries_transfers (ctx : NftContext) (transfers : List NftTransferTx)
    (v : Option NftRecord) :
    replayEntries ctx (transfers.map .nftTransfer) v =
      liveEntries ctx (transfers.map .nftTransfer) v := by
  induction transfers generalizing v with
  | nil => rfl
  | cons tx rest ih =>
    rw [replayEntries, liveEntries, List.map_cons, List.foldlM_cons, List.foldlM_cons]
    exact bind_congr fun v' => ih v'

/-- Without mints, the transactions on one id are its transfers. -/
theorem eq_transfers_of_no_mints {key : List UInt8} {kinds : List TxKind}
    (hkinds : ∀ kind ∈ kinds, kind.nftKey = some key) (hmints : nftMints kinds = []) :
    kinds = (nftTransfers kinds).map .nftTransfer := by
  rw [← filter_isNftTransfer]
  symm
  apply List.filter_eq_self.mpr
  intro kind hkind
  cases kind with
  | nftTransfer tx => rfl
  | nftMint tx =>
    have hmem : tx ∈ nftMints kinds := List.mem_filterMap.mpr ⟨_, hkind, rfl⟩
    rw [hmints] at hmem
    cases hmem
  | transfer tx => cases hkinds _ hkind
  | registerNode tx => cases hkinds _ hkind
  | reward tx => cases hkinds _ hkind

theorem mintsLead_transfers (transfers : List NftTransferTx) :
    MintsLead (transfers.map .nftTransfer) := by
  apply List.pairwise_map.mpr
  exact List.pairwise_of_forall fun tx tx' => rfl

/-- Where live application of the transactions on one id goes through, a replay of them goes
through exactly when the mint comes first, and with the same result. -/
theorem replayEntries_ok_iff (ctx : NftContext) {key : List UInt8} {kinds : List TxKind}
    (hkinds : ∀ kind ∈ kinds, kind.nftKey = some key) {v v' : Option NftRecord}
    (hlive : liveEntries ctx ((nftMints kinds).map .nftMint ++ (nftTransfers kinds).map .nftTransfer)
      v = .ok v') (v'' : Option NftRecord) :
    replayEntries ctx kinds v = .ok v'' ↔ v'' = v' ∧ MintsLead kinds := by
  have hok : ∀ x : Fallible (Option NftRecord), x = .ok v' → (x = .ok v'' ↔ v'' = v') := by
    rintro _ rfl
    exact ⟨fun h => (Except.ok.inj h).symm, fun h => congrArg Except.ok h.symm⟩
  obtain ⟨v₁, hmints, htransfers⟩ := (liveEntries_append ctx _ _ v v').mp hlive
  rcases (liveEntries_mints ctx _ v v₁).mp hmints with ⟨hnil, rfl⟩ | ⟨tx, hone, rfl, rfl⟩
  · have hkinds' := eq_transfers_of_no_mints hkinds hnil
    rw [hkinds', and_iff_left (mintsLead_transfers _)]
    apply hok
    rw [replayEntries_transfers]
    exact htransfers
  · cases kinds with
    | nil => cases hone
    | cons kind rest =>
      have hrest : ∀ kind' ∈ rest, kind'.nftKey = some key :=
        fun kind' h => hkinds kind' (List.mem_cons_of_mem kind h)
      cases kind with
      | nftMint mint =>
        -- The mint comes first, and what follows are transfers.
        obtain ⟨rfl, hnil⟩ : mint = tx ∧ nftMints rest = [] := List.cons.inj hone
        have hrest' := eq_transfers_of_no_mints hrest hnil
        have hlead : MintsLead (.nftMint mint :: rest) := by
          rw [hrest']
          exact List.pairwise_cons.mpr ⟨fun _ _ => rfl, mintsLead_transfers _⟩
        rw [and_iff_left hlead]
        apply hok
        rw [replayEntries, List.foldlM_cons]
        change replayEntries ctx rest (some (mintedRecord ctx mint)) = .ok v'
        rw [hrest', replayEntries_transfers]
        exact htransfers
      | nftTransfer transfer =>
        constructor
        · exact nofun
        · rintro ⟨-, hlead⟩
          have hmem : tx ∈ nftMints rest := by
            have hall : nftMints rest = [tx] := hone
            rw [hall]
            exact List.mem_singleton_self tx
          obtain ⟨kind', hkind', hsome⟩ := List.mem_filterMap.mp hmem
          cases kind' with
          | nftMint mint =>
            cases hsome
            have hfirst := hkinds _ List.mem_cons_self
            have hmint := hrest _ hkind'
            have hsame : transfer.nftId = tx.nftId :=
              Subtype.ext (Option.some.inj (hfirst.trans hmint.symm))
            have hnot := (List.pairwise_cons.mp hlead).1 _ hkind'
            rw [early, hsame, decide_eq_true rfl] at hnot
            cases hnot
          | nftTransfer _ => cases hsome
          | transfer _ => cases hsome
          | registerNode _ => cases hsome
          | reward _ => cases hsome
      | transfer _ => cases hkinds _ List.mem_cons_self
      | registerNode _ => cases hkinds _ List.mem_cons_self
      | reward _ => cases hkinds _ List.mem_cons_self

/-- It is enough to look at one id at a time. -/
theorem mintsLead_iff_ofKey (kinds : List TxKind) :
    MintsLead kinds ↔ ∀ key, MintsLead (Keyed.ofKey TxKind.nftKey key kinds) := by
  constructor
  · exact fun h key => h.filter _
  · intro h
    apply List.pairwise_iff_forall_sublist.mpr
    intro a b hab
    by_contra hearly
    have hearly : early a b = true := by simpa using hearly
    cases a with
    | nftTransfer tx =>
      cases b with
      | nftMint mint =>
        have hsame : tx.nftId = mint.nftId := of_decide_eq_true hearly
        have hsub := hab.filter fun a => decide (a.nftKey = some mint.nftId.toList)
        have hkeep : [TxKind.nftTransfer tx, .nftMint mint].filter
            (fun a => decide (a.nftKey = some mint.nftId.toList)) = [.nftTransfer tx, .nftMint mint] := by
          apply List.filter_eq_self.mpr
          intro a ha
          apply decide_eq_true
          rcases List.mem_cons.mp ha with rfl | ha
          · rw [← hsame]
            rfl
          · rw [List.mem_singleton.mp ha]
            rfl
        rw [hkeep] at hsub
        have hnot := List.pairwise_iff_forall_sublist.mp (h mint.nftId.toList) hsub
        rw [hearly] at hnot
        cases hnot
      | nftTransfer _ => cases hearly
      | transfer _ => cases hearly
      | registerNode _ => cases hearly
      | reward _ => cases hearly
    | nftMint _ => cases hearly
    | transfer _ => cases hearly
    | registerNode _ => cases hearly
    | reward _ => cases hearly

/-- A block that was applied live replays on the same records exactly when its mints lead. -/
theorem replayNfts_ok_iff {view view' : List UInt8 → Option NftRecord} {e : Block × TransactionBatch}
    (hlive : liveNfts view e = .ok view') (view'' : List UInt8 → Option NftRecord) :
    replayNfts view e = .ok view'' ↔ view'' = view' ∧ MintsLead e.2.transactions := by
  have hlive' := (Keyed.foldlM_step_eq_ok_iff _ _ _).mp hlive
  have hat : ∀ key, replayEntries (nftContext e.1) (Keyed.ofKey TxKind.nftKey key e.2.transactions)
      (view key) = .ok (view'' key) ↔
      view'' key = view' key ∧ MintsLead (Keyed.ofKey TxKind.nftKey key e.2.transactions) := by
    intro key
    have hkey := hlive' key
    rw [ofKey_mintsFirst_eq] at hkey
    exact replayEntries_ok_iff _ (fun kind hkind => (Keyed.mem_ofKey.mp hkind).2) hkey _
  rw [replayNfts, Keyed.foldlM_step_eq_ok_iff, mintsLead_iff_ofKey, funext_iff, ← forall_and]
  exact forall_congr' hat

theorem replayLog_ok_iff {log : List (Block × TransactionBatch)}
    {view view' : List UInt8 → Option NftRecord} (hlive : log.foldlM liveNfts view = .ok view')
    (view'' : List UInt8 → Option NftRecord) :
    log.foldlM replayNfts view = .ok view'' ↔
      view'' = view' ∧ ∀ e ∈ log, MintsLead e.2.transactions := by
  induction log generalizing view with
  | nil =>
    cases hlive
    change Except.ok view' = .ok view'' ↔ _
    simp only [Except.ok.injEq, List.not_mem_nil, false_implies, implies_true, and_true]
    exact eq_comm
  | cons e log ih =>
    rw [List.foldlM_cons, bind_eq_ok_iff] at hlive
    obtain ⟨mid, hhead, htail⟩ := hlive
    rw [List.foldlM_cons, bind_eq_ok_iff, List.forall_mem_cons]
    constructor
    · rintro ⟨mid', hmid', hrest⟩
      obtain ⟨rfl, hlead⟩ := (replayNfts_ok_iff hhead mid').mp hmid'
      obtain ⟨heq, hleads⟩ := (ih htail).mp hrest
      exact ⟨heq, hlead, hleads⟩
    · rintro ⟨heq, hlead, hleads⟩
      exact ⟨mid, (replayNfts_ok_iff hhead mid).mpr ⟨rfl, hlead⟩, (ih htail).mpr ⟨heq, hleads⟩⟩

theorem replayRecords_log_nftAt {db : RockDB} (hkeyed : NftKeyed db)
    (log : List (Block × TransactionBatch)) :
    (log.foldlM replayRecords db).map nftAt = log.foldlM replayNfts (nftAt db) :=
  foldlM_map _ _ nftAt NftKeyed (fun _ e h => replayRecords_nftAt h e)
    (fun _ _ _ h hstep => (replayRecords_write hstep).keyed h) log db hkeyed

/-- A replay from an empty NFT store rebuilds the records of a live chain exactly when no batch
transfers an NFT before it mints it. -/
theorem nft_replay_agrees_iff [Blake3] (log : List (Block × TransactionBatch)) (s : ChainState)
    (hrun : LiveRun log s) (height : UInt64) (hlen : log.length = height.toNat+1) (db : RockDB)
    (tree : AccountModelTree) (hempty : db.nfts = ∅)
    (hstored : ∀ i e, log[i]? = some e → StoredAt db (UInt64.ofNat i) e) :
    (∃ s', reloadFromDbToHeight height ⟨db, tree⟩ = .ok () s' ∧ s'.db.nfts = s.db.nfts) ↔
      ∀ e ∈ log, MintsLead e.2.transactions := by
  have hinv := hrun.invariant
  have hnone : nftAt db = fun _ => none := by
    funext key
    rw [nftAt, hempty]
    exact ExtTreeMap.getElem?_empty
  have hview := replayRecords_log_nftAt (NftKeyed.of_empty hempty) log
  rw [hnone] at hview
  have hreplay := replayLog_ok_iff hinv.nfts
  constructor
  · rintro ⟨s', hreload, -⟩
    obtain ⟨db', hrecords, -⟩ := (hinv.reload_ok_iff hlen hstored).mp hreload
    rw [hrecords] at hview
    exact ((hreplay (nftAt db')).mp hview.symm).2
  · intro hlead
    have hall := (hreplay (nftAt s.db)).mpr ⟨rfl, hlead⟩
    rw [hall] at hview
    cases hrecords : log.foldlM replayRecords db with
    | error e =>
      rw [hrecords] at hview
      cases hview
    | ok db' =>
      rw [hrecords] at hview
      refine ⟨_, (hinv.reload_ok_iff hlen hstored).mpr ⟨db', hrecords, rfl⟩, ?_⟩
      exact nfts_eq_of_nftAt (Except.ok.inj hview)

/-- No replay goes through that its NFT records stop. -/
theorem LiveRun.reload_stopped [Blake3] {log : List (Block × TransactionBatch)} {s : ChainState}
    (hrun : LiveRun log s) {height : UInt64} (hlen : log.length = height.toNat+1) {t : ChainState}
    (hstored : ∀ i e, log[i]? = some e → StoredAt t.db (UInt64.ofNat i) e)
    (hstops : succeeds (log.foldlM replayRecords t.db) = false) :
    ¬∃ s', reloadFromDbToHeight height t = .ok () s' := by
  rintro ⟨s', hreload⟩
  obtain ⟨db', hrecords, -⟩ := (hrun.invariant.reload_ok_iff hlen hstored).mp hreload
  rw [hrecords] at hstops
  cases hstops

/-! ### NFTs given away early -/

/-- The state after a list of blocks, applied one by one. -/
def applyAll [Blake3] (s : ChainState) (log : List (Block × TransactionBatch)) : ChainState :=
  log.foldl (fun s e => storeOf (applyBlock e.1 s)) s

theorem applyAll_column [Blake3] (s : ChainState) (log : List (Block × TransactionBatch))
    {c : ColumnName} (hc : c ≠ .account) : (applyAll s log).db.column c = s.db.column c := by
  induction log generalizing s with
  | nil => rfl
  | cons e rest ih => exact (ih (storeOf (applyBlock e.1 s))).trans (applyBlock_column e.1 s hc)

/-- Blocks stay stored while others are applied. -/
theorem StoredAt.applyAll [Blake3] {s : ChainState} {idx : UInt64} {e : Block × TransactionBatch}
    (h : StoredAt s.db idx e) (log : List (Block × TransactionBatch)) :
    StoredAt (applyAll s log).db idx e := by
  rw [StoredAt, RockDB.getBlockByIndex, RockDB.getBatchBytesByIndex, RockDB.read, RockDB.read,
    applyAll_column s log (by decide), applyAll_column s log (by decide)]
  exact h

/-- `applyAll` for blocks that are known to be valid. -/
def applyAllValid [Blake3] (s : ChainState) (log : List (Block × TransactionBatch)) : ChainState :=
  log.foldl (fun s e => storeOf (applyValid e.1 s)) s

theorem applyAll_of_valid [Blake3] {log : List (Block × TransactionBatch)}
    (h : ∀ e ∈ log, e.1.validate = .ok ()) (s : ChainState) :
    applyAll s log = applyAllValid s log := by
  induction log generalizing s with
  | nil => rfl
  | cons e rest ih =>
    obtain ⟨hfirst, hrest⟩ := List.forall_mem_cons.mp h
    change applyAll (storeOf (applyBlock e.1 s)) rest = applyAllValid (storeOf (applyValid e.1 s)) rest
    rw [ih hrest, applyBlock_of_valid hfirst]

theorem LiveRun.of_acceptsAll [Blake3] {log : List (Block × TransactionBatch)} {s : ChainState}
    (hrun : LiveRun log s) (more : List (Block × TransactionBatch)) (h : acceptsAll s more = true) :
    LiveRun (log ++ more) (applyAll s more) := by
  induction more generalizing log s with
  | nil =>
    rw [List.append_nil]
    exact hrun
  | cons e more ih =>
    obtain ⟨s', hcall, hnew, hrest⟩ := acceptsAll_cons h
    have hnext := ih (.step hrun id rfl hcall hnew) hrest
    have hstore : storeOf (applyBlock e.1 s) = s' := congrArg storeOf hcall
    rw [List.append_assoc, List.singleton_append, ← hstore] at hnext
    exact hnext

/-- A chain whose blocks and batches are all stored before the first of them is applied. -/
theorem LiveRun.of_stored [Blake3] {db : RockDB} (hempty : db.nfts = ∅) {e : Block × TransactionBatch}
    {more : List (Block × TransactionBatch)}
    (h : acceptsAll ⟨db, AccountModelTree.withManager⟩ (e :: more) = true) :
    LiveRun (e :: more) (applyAll ⟨db, AccountModelTree.withManager⟩ (e :: more)) := by
  obtain ⟨s', hcall, hnew, hrest⟩ := acceptsAll_cons h
  have hfirst : LiveRun ([] ++ [e]) s' := .step .start (fun _ => db) hempty hcall hnew
  have hstore : storeOf (applyBlock e.1 ⟨db, AccountModelTree.withManager⟩) = s' :=
    congrArg storeOf hcall
  have hall := hfirst.of_acceptsAll more hrest
  rw [← hstore] at hall
  exact hall

namespace Sample

def storeAll (db : RockDB) (log : List (Block × TransactionBatch)) : RockDB :=
  log.foldl (fun db e =>
    (db.put .blockmintData (RockDB.blockKey e.1.metadata.index) (Block.codec.enc e.1)).storeBatchBytes
      e.1.metadata.index e.2.serialize) db

/-- The blocks and batches of a log are stored under keys of their heights only. -/
theorem storeAll_read {db : RockDB} {log : List (Block × TransactionBatch)} {idx : UInt64}
    (h : ∀ e ∈ log, e.1.metadata.index ≠ idx) :
    (storeAll db log).read .blockmintData (RockDB.blockKey idx) =
        db.read .blockmintData (RockDB.blockKey idx) ∧
      (storeAll db log).read .transactionBatch (batchKey idx) =
        db.read .transactionBatch (batchKey idx) := by
  induction log generalizing db with
  | nil => exact ⟨rfl, rfl⟩
  | cons e rest ih =>
    obtain ⟨hfirst, hrest⟩ := List.forall_mem_cons.mp h
    have hblock : RockDB.blockKey e.1.metadata.index ≠ RockDB.blockKey idx :=
      fun heq => hfirst (RockDB.blockKey_injective heq)
    have hbatch : batchKey e.1.metadata.index ≠ batchKey idx :=
      fun heq => hfirst (batchKey_injective heq)
    obtain ⟨hread, hread'⟩ := @ih ((db.put .blockmintData
      (RockDB.blockKey e.1.metadata.index) (Block.codec.enc e.1)).storeBatchBytes e.1.metadata.index
        e.2.serialize) hrest
    refine ⟨hread.trans ?_, hread'.trans ?_⟩
    · rw [RockDB.storeBatchBytes, RockDB.read_put_of_column_ne _ _ _ _ (by decide),
        RockDB.read_put_of_key_ne _ _ _ _ hblock]
    · rw [RockDB.storeBatchBytes, RockDB.read_put_of_key_ne _ _ _ _ hbatch,
        RockDB.read_put_of_column_ne _ _ _ _ (by decide)]

theorem storedAt_storeAll {db : RockDB} {log : List (Block × TransactionBatch)}
    (hnodup : (log.map fun e => e.1.metadata.index).Nodup) {e : Block × TransactionBatch}
    (he : e ∈ log) (hblock : Block.deserializeFromStorage (Block.codec.enc e.1) = .ok e.1)
    (hbatch : TransactionBatch.deserialize e.2.serialize = .ok e.2) :
    StoredAt (storeAll db log) e.1.metadata.index e := by
  induction log generalizing db with
  | nil => cases he
  | cons first rest ih =>
    obtain ⟨hfresh, hnodup⟩ := List.nodup_cons.mp hnodup
    rcases List.mem_cons.mp he with rfl | he
    · have hother : ∀ e' ∈ rest, e'.1.metadata.index ≠ e.1.metadata.index := by
        intro e' he' heq
        exact hfresh (List.mem_map.mpr ⟨e', he', heq⟩)
      obtain ⟨hread, hread'⟩ := @storeAll_read ((db.put .blockmintData
        (RockDB.blockKey e.1.metadata.index) (Block.codec.enc e.1)).storeBatchBytes
          e.1.metadata.index e.2.serialize) rest e.1.metadata.index hother
      rw [RockDB.storeBatchBytes, RockDB.read_put_of_column_ne _ _ _ _ (by decide),
        RockDB.read_put_self] at hread
      rw [RockDB.storeBatchBytes, RockDB.read_put_self] at hread'
      refine ⟨?_, e.2.serialize, hread', hbatch⟩
      change (storeAll _ rest).getBlockByIndex e.1.metadata.index = _
      unfold RockDB.getBlockByIndex
      simp only [RockDB.storeBatchBytes, hread, hblock, ok_bind]
      rfl
    · exact ih hnodup he

/-- Signed blocks of consecutive heights are stored under their positions. -/
theorem storeAll_storedAt {log : List (Block × TransactionBatch)}
    (hsigned : ∀ e ∈ log, Signed e.1)
    (hheights : ∀ i e, log[i]? = some e → e.1.metadata.index = UInt64.ofNat i)
    (hnodup : (log.map fun e => e.1.metadata.index).Nodup)
    (hbatches : ∀ e ∈ log, TransactionBatch.deserialize e.2.serialize = .ok e.2) (i : ℕ)
    (e : Block × TransactionBatch) (he : log[i]? = some e) :
    StoredAt (storeAll RockDB.empty log) (UInt64.ofNat i) e := by
  have hmem : e ∈ log := List.mem_of_getElem? he
  rw [← hheights i e he]
  exact storedAt_storeAll hnodup hmem (hsigned e hmem).stored.2 (hbatches e hmem)

def nftLog : List (Block × TransactionBatch) :=
  [(nftBlock0, nftBatch0), (nftBlock1, nftBatch1), (nftBlock2, nftBatch2)]

def nftDb : RockDB := storeAll RockDB.empty nftLog

def earlyLog : List (Block × TransactionBatch) := [(earlyBlock, earlyBatch)]

def earlyDb : RockDB := storeAll RockDB.empty earlyLog

theorem signed_nftLog : ∀ e ∈ nftLog, Signed e.1 := by
  intro e he
  have hmem : e.1 ∈ nftLog.map Prod.fst := List.mem_map_of_mem he
  exact signed_nfts e.1 (List.mem_append_left [strayBlock, earlyBlock] hmem)

theorem signed_earlyLog : ∀ e ∈ earlyLog, Signed e.1 := by
  intro e he
  rw [List.mem_singleton.mp he]
  exact signed_nfts earlyBlock (by simp)

theorem acceptsAll_nftLog :
    @acceptsAll Blake3.reference ⟨nftDb, AccountModelTree.withManager⟩ nftLog = true :=
  acceptsAll_of_signed signed_nftLog (by decide +kernel)

theorem acceptsAll_earlyLog :
    @acceptsAll Blake3.reference ⟨earlyDb, AccountModelTree.withManager⟩ earlyLog = true :=
  acceptsAll_of_signed signed_earlyLog (by decide +kernel)

theorem nftDb_stored (i : ℕ) (e : Block × TransactionBatch) (he : nftLog[i]? = some e) :
    StoredAt nftDb (UInt64.ofNat i) e := by
  apply storeAll_storedAt signed_nftLog _ (by decide) (by decide +kernel) i e he
  intro i e he
  match i, he with
  | 0, rfl => rfl
  | 1, rfl => rfl
  | 2, rfl => rfl

theorem earlyDb_stored (i : ℕ) (e : Block × TransactionBatch) (he : earlyLog[i]? = some e) :
    StoredAt earlyDb (UInt64.ofNat i) e := by
  apply storeAll_storedAt signed_earlyLog _ (by decide) (by decide +kernel) i e he
  intro i e he
  match i, he with
  | 0, rfl => rfl

/-- The early gift names an NFT that a replay does not know yet. -/
theorem replayRecords_earlyLog : succeeds (earlyLog.foldlM replayRecords earlyDb) = false := by
  decide

end Sample

theorem nft_replay_agrees_iff_sample :
    ∃ s, @LiveRun Blake3.reference Sample.nftLog s ∧
      ((∃ s', @reloadFromDbToHeight Blake3.reference 2 ⟨Sample.nftDb, AccountModelTree.withManager⟩ =
        .ok () s' ∧ s'.db.nfts = s.db.nfts) ↔ ∀ e ∈ Sample.nftLog, MintsLead e.2.transactions) := by
  have hrun := @LiveRun.of_stored Blake3.reference Sample.nftDb rfl _ _ Sample.acceptsAll_nftLog
  exact ⟨_, hrun, @nft_replay_agrees_iff Blake3.reference Sample.nftLog _ hrun 2 rfl Sample.nftDb
    AccountModelTree.withManager rfl Sample.nftDb_stored⟩

/-- Live application accepts a batch that gives an NFT away before it mints it; a replay of the
same block from an empty store does not. -/
theorem early_gift_stops_replay :
    ∃ s, @LiveRun Blake3.reference Sample.earlyLog s ∧
      (∀ i e, Sample.earlyLog[i]? = some e → StoredAt Sample.earlyDb (UInt64.ofNat i) e) ∧
      Sample.earlyDb.nfts = ∅ ∧
      ¬∃ s', @reloadFromDbToHeight Blake3.reference 0 ⟨Sample.earlyDb, AccountModelTree.withManager⟩ =
        .ok () s' := by
  have hrun := @LiveRun.of_stored Blake3.reference Sample.earlyDb rfl _ _ Sample.acceptsAll_earlyLog
  exact ⟨_, hrun, Sample.earlyDb_stored, rfl, @LiveRun.reload_stopped Blake3.reference _ _ hrun 0 rfl
    ⟨Sample.earlyDb, AccountModelTree.withManager⟩ Sample.earlyDb_stored
    Sample.replayRecords_earlyLog⟩

/-! ### Replay over the records of the chain itself

A node that reloads keeps its NFT records, so the transactions of the chain are applied once
more on top of what they led to. -/

theorem liveEntry_isSome {ctx : NftContext} {kind : TxKind} {v v' : Option NftRecord}
    (h : liveEntry ctx kind v = .ok v') (hkind : kind.nftKey ≠ none ∨ v.isSome = true) :
    v'.isSome = true := by
  cases kind with
  | nftMint tx =>
    cases v with
    | some r => cases h
    | none =>
      cases h
      rfl
  | nftTransfer tx =>
    cases v with
    | none => cases h
    | some r =>
      simp only [liveEntry, transferEntry] at h
      split at h
      · cases h
        rfl
      · split at h
        · cases h
        · cases h
          rfl
  | transfer tx =>
    cases h
    exact hkind.resolve_left fun hne => hne rfl
  | registerNode tx =>
    cases h
    exact hkind.resolve_left fun hne => hne rfl
  | reward tx =>
    cases h
    exact hkind.resolve_left fun hne => hne rfl

theorem liveEntries_isSome {ctx : NftContext} {kinds : List TxKind} {v v' : Option NftRecord}
    (h : liveEntries ctx kinds v = .ok v')
    (hkinds : (∃ kind ∈ kinds, kind.nftKey ≠ none) ∨ v.isSome = true) : v'.isSome = true := by
  induction kinds generalizing v with
  | nil =>
    cases h
    rcases hkinds with ⟨kind, hmem, -⟩ | hsome
    · cases hmem
    · exact hsome
  | cons kind kinds ih =>
    rw [liveEntries, List.foldlM_cons, bind_eq_ok_iff] at h
    obtain ⟨mid, hmid, hrest⟩ := h
    apply ih hrest
    rcases hkinds with ⟨kind', hmem, hkey⟩ | hsome
    · rcases List.mem_cons.mp hmem with rfl | hmem
      · exact .inr (liveEntry_isSome hmid (.inl hkey))
      · exact .inl ⟨kind', hmem, hkey⟩
    · exact .inr (liveEntry_isSome hmid (.inr hsome))

theorem mem_mintsFirst {kind : TxKind} {kinds : List TxKind} (hmem : kind ∈ kinds)
    (hkey : kind.nftKey ≠ none) : kind ∈ mintsFirst kinds := by
  rw [mintsFirst, ← filter_isNftMint, ← filter_isNftTransfer, List.mem_append]
  cases kind with
  | nftMint tx => exact .inl (List.mem_filter.mpr ⟨hmem, rfl⟩)
  | nftTransfer tx => exact .inr (List.mem_filter.mpr ⟨hmem, rfl⟩)
  | transfer tx => exact absurd rfl hkey
  | registerNode tx => exact absurd rfl hkey
  | reward tx => exact absurd rfl hkey

/-- Every transaction of the list is about a record that exists. -/
def AllKnown (view : List UInt8 → Option NftRecord) (kinds : List TxKind) : Prop :=
  ∀ kind ∈ kinds, ∀ key, kind.nftKey = some key → (view key).isSome = true

theorem liveNfts_known {view view' : List UInt8 → Option NftRecord} {e : Block × TransactionBatch}
    (h : liveNfts view e = .ok view') :
    AllKnown view' e.2.transactions ∧ ∀ key, (view key).isSome = true → (view' key).isSome = true := by
  have hkeys := (Keyed.foldlM_step_eq_ok_iff _ _ _).mp h
  constructor
  · intro kind hkind key hkey
    have hsome : kind.nftKey ≠ none := by
      rw [hkey]
      exact nofun
    exact liveEntries_isSome (hkeys key)
      (.inl ⟨kind, Keyed.mem_ofKey.mpr ⟨mem_mintsFirst hkind hsome, hkey⟩, hsome⟩)
  · intro key hsome
    exact liveEntries_isSome (hkeys key) (.inr hsome)

/-- What a chain has transacted stays on record. -/
theorem liveLog_known {log : List (Block × TransactionBatch)} {view view' : List UInt8 → Option NftRecord}
    (h : log.foldlM liveNfts view = .ok view') :
    (∀ e ∈ log, AllKnown view' e.2.transactions) ∧
      ∀ key, (view key).isSome = true → (view' key).isSome = true := by
  induction log generalizing view with
  | nil =>
    cases h
    exact ⟨fun e he => (List.not_mem_nil he).elim, fun key hsome => hsome⟩
  | cons e log ih =>
    rw [List.foldlM_cons, bind_eq_ok_iff] at h
    obtain ⟨mid, hmid, hrest⟩ := h
    obtain ⟨hknown, hgrows⟩ := liveNfts_known hmid
    obtain ⟨hknown', hgrows'⟩ := ih hrest
    refine ⟨?_, fun key hsome => hgrows' key (hgrows key hsome)⟩
    intro e' he'
    rcases List.mem_cons.mp he' with rfl | he'
    · exact fun kind hkind key hkey => hgrows' key (hknown kind hkind key hkey)
    · exact hknown' e' he'

/-- Every transfer of the list names a new owner. -/
def AllNamed (kinds : List TxKind) : Prop := ∀ tx ∈ nftTransfers kinds, ¬tx.Blank

theorem AllNamed.of_cons {kind : TxKind} {kinds : List TxKind} (h : AllNamed (kind :: kinds)) :
    (∀ tx, kind = .nftTransfer tx → ¬tx.Blank) ∧ AllNamed kinds := by
  constructor
  · rintro tx rfl
    exact h tx List.mem_cons_self
  · intro tx htx
    obtain ⟨kind', hkind', hsome⟩ := List.mem_filterMap.mp htx
    exact h tx (List.mem_filterMap.mpr ⟨kind', List.mem_cons_of_mem kind hkind', hsome⟩)

theorem replayEntries_of_known (ctx : NftContext) {kinds : List TxKind} (hnamed : AllNamed kinds)
    (r : NftRecord) : ∃ r', replayEntries ctx kinds (some r) = .ok (some r') := by
  induction kinds generalizing r with
  | nil => exact ⟨r, rfl⟩
  | cons kind kinds ih =>
    obtain ⟨hhead, htail⟩ := hnamed.of_cons
    have hstep : ∃ r₁, replayEntry ctx kind (some r) = .ok (some r₁) := by
      cases kind with
      | nftTransfer tx =>
        change ∃ r₁, (if tx.Idle ctx r then Except.ok (some r)
          else if tx.Blank then .error blankOwnerError
          else .ok (some { r with ownerWallet := tx.newOwnerWallet })) = .ok (some r₁)
        rw [if_neg (hhead tx rfl)]
        split
        · exact ⟨_, rfl⟩
        · exact ⟨_, rfl⟩
      | nftMint tx => exact ⟨r, rfl⟩
      | transfer tx => exact ⟨r, rfl⟩
      | registerNode tx => exact ⟨r, rfl⟩
      | reward tx => exact ⟨r, rfl⟩
    obtain ⟨r₁, hr₁⟩ := hstep
    rw [replayEntries, List.foldlM_cons, hr₁]
    exact ih htail r₁

theorem AllNamed.ofKey {kinds : List TxKind} (h : AllNamed kinds) (key : List UInt8) :
    AllNamed (Keyed.ofKey TxKind.nftKey key kinds) := by
  intro tx htx
  obtain ⟨kind, hkind, hsome⟩ := List.mem_filterMap.mp htx
  exact h tx (List.mem_filterMap.mpr ⟨kind, (Keyed.mem_ofKey.mp hkind).1, hsome⟩)

theorem replayNfts_of_known {view : List UInt8 → Option NftRecord} {e : Block × TransactionBatch}
    (hknown : AllKnown view e.2.transactions) (hnamed : AllNamed e.2.transactions) :
    ∃ view', replayNfts view e = .ok view' ∧
      ∀ key, (view key).isSome = true → (view' key).isSome = true := by
  have hkeys : ∀ key, ∃ v', replayEntries (nftContext e.1)
      (Keyed.ofKey TxKind.nftKey key e.2.transactions) (view key) = .ok v' ∧
      ((view key).isSome = true → v'.isSome = true) := by
    intro key
    cases hat : view key with
    | none =>
      have hnil : Keyed.ofKey TxKind.nftKey key e.2.transactions = [] := by
        apply List.eq_nil_iff_forall_not_mem.mpr
        intro kind hkind
        obtain ⟨hmem, hkey⟩ := Keyed.mem_ofKey.mp hkind
        have hsome := hknown kind hmem key hkey
        rw [hat] at hsome
        cases hsome
      rw [hnil]
      exact ⟨none, rfl, id⟩
    | some r =>
      obtain ⟨r', hr'⟩ := replayEntries_of_known (nftContext e.1) (hnamed.ofKey key) r
      exact ⟨some r', hr', fun _ => rfl⟩
  obtain ⟨view', hview'⟩ := Classical.skolem.mp hkeys
  refine ⟨view', (Keyed.foldlM_step_eq_ok_iff _ _ _).mpr fun key => (hview' key).1, ?_⟩
  exact fun key => (hview' key).2

theorem replayLog_of_known {log : List (Block × TransactionBatch)} {view : List UInt8 → Option NftRecord}
    (hknown : ∀ e ∈ log, AllKnown view e.2.transactions)
    (hnamed : ∀ e ∈ log, AllNamed e.2.transactions) : ∃ view', log.foldlM replayNfts view = .ok view' := by
  induction log generalizing view with
  | nil => exact ⟨view, rfl⟩
  | cons e log ih =>
    obtain ⟨mid, hmid, hgrows⟩ := replayNfts_of_known (hknown e List.mem_cons_self)
      (hnamed e List.mem_cons_self)
    rw [List.foldlM_cons, hmid, ok_bind]
    apply ih
    · intro e' he' kind hkind key hkey
      exact hgrows key (hknown e' (List.mem_cons_of_mem e he') kind hkind key hkey)
    · exact fun e' he' => hnamed e' (List.mem_cons_of_mem e he')

/-- Reloading the stored blocks of a live chain on top of its own NFT records succeeds with the
account state of the live run, recent blocks included, as long as no transfer of the chain names
a blank owner. -/
theorem account_replay_agrees [Blake3] (log : List (Block × TransactionBatch)) (s : ChainState)
    (hrun : LiveRun log s) (hnamed : ∀ e ∈ log, AllNamed e.2.transactions) (height : UInt64)
    (hlen : log.length = height.toNat+1) (db : RockDB) (tree : AccountModelTree)
    (hrecords : db.nfts = s.db.nfts)
    (hstored : ∀ i e, log[i]? = some e → StoredAt db (UInt64.ofNat i) e) :
    ∃ s', reloadFromDbToHeight height ⟨db, tree⟩ = .ok () s' ∧ s'.tree.inner = s.tree.inner := by
  have hinv := hrun.invariant
  have hknown := (liveLog_known hinv.nfts).1
  rw [← nftAt_congr hrecords] at hknown
  obtain ⟨view', hview'⟩ := replayLog_of_known hknown hnamed
  have hview := replayRecords_log_nftAt (nftKeyed_congr hrecords hinv.keyed) log
  rw [hview'] at hview
  cases hreplay : log.foldlM replayRecords db with
  | error e =>
    rw [hreplay] at hview
    cases hview
  | ok db' => exact ⟨_, (hinv.reload_ok_iff hlen hstored).mpr ⟨db', hreplay, rfl⟩, rfl⟩

namespace Sample

/-- The node after `nftLog`. -/
def nftNode [Blake3] : ChainState := applyAll ⟨nftDb, AccountModelTree.withManager⟩ nftLog

theorem nftNode_run : @LiveRun Blake3.reference nftLog (@nftNode Blake3.reference) :=
  @LiveRun.of_stored Blake3.reference nftDb rfl _ _ acceptsAll_nftLog

/-- Replayed over the records of the chain itself, its transactions do not go through. -/
theorem replayRecords_nftNode :
    succeeds (nftLog.foldlM replayRecords (@nftNode Blake3.reference).db) = false := by
  unfold nftNode
  rw [@applyAll_of_valid Blake3.reference nftLog fun e he => (signed_nftLog e he).valid]
  decide +kernel

theorem nftNode_stored (i : ℕ) (e : Block × TransactionBatch) (he : nftLog[i]? = some e) :
    StoredAt (@nftNode Blake3.reference).db (UInt64.ofNat i) e :=
  @StoredAt.applyAll Blake3.reference ⟨nftDb, AccountModelTree.withManager⟩ (UInt64.ofNat i) e
    (nftDb_stored i e he) nftLog

/-- The first block of that chain. -/
def mintLog : List (Block × TransactionBatch) := [(nftBlock0, nftBatch0)]

theorem acceptsAll_mintLog :
    @acceptsAll Blake3.reference ⟨nftDb, AccountModelTree.withManager⟩ mintLog = true := by
  apply acceptsAll_of_signed
  · intro e he
    rw [List.mem_singleton.mp he]
    exact signed_nfts nftBlock0 (by simp)
  · decide +kernel

theorem mintLog_stored (i : ℕ) (e : Block × TransactionBatch) (he : mintLog[i]? = some e) :
    StoredAt nftDb (UInt64.ofNat i) e := by
  apply nftDb_stored i e
  cases i with
  | zero => exact he
  | succ i => cases he

theorem mintLog_named : ∀ e ∈ mintLog, AllNamed e.2.transactions := by
  intro e he tx htx
  rw [List.mem_singleton.mp he] at htx
  cases htx

end Sample

theorem account_replay_agrees_minted :
    ∃ s, @LiveRun Blake3.reference Sample.mintLog s ∧
      ∃ s', @reloadFromDbToHeight Blake3.reference 0
          ⟨{ Sample.nftDb with nfts := s.db.nfts }, AccountModelTree.withManager⟩ = .ok () s' ∧
        s'.tree.inner = s.tree.inner := by
  obtain ⟨s, hrun⟩ : ∃ s, @LiveRun Blake3.reference Sample.mintLog s :=
    ⟨_, @LiveRun.of_stored Blake3.reference Sample.nftDb rfl _ _ Sample.acceptsAll_mintLog⟩
  have hcolumn : ({ Sample.nftDb with nfts := s.db.nfts } : RockDB).column = Sample.nftDb.column := rfl
  exact ⟨s, hrun, @account_replay_agrees Blake3.reference Sample.mintLog s hrun Sample.mintLog_named 0
    rfl { Sample.nftDb with nfts := s.db.nfts } AccountModelTree.withManager rfl
    fun i e he => (StoredAt.congr hcolumn _ e).mpr (Sample.mintLog_stored i e he)⟩

/-- Another miner once tried to give the NFT to nobody and was denied. By now he owns it, and the
node cannot reload its chain. -/
theorem blank_gift_stops_reload :
    @LiveRun Blake3.reference Sample.nftLog (@Sample.nftNode Blake3.reference) ∧
      (∀ i e, Sample.nftLog[i]? = some e →
        StoredAt (@Sample.nftNode Blake3.reference).db (UInt64.ofNat i) e) ∧
      ¬∃ s', @reloadFromDbToHeight Blake3.reference 2 (@Sample.nftNode Blake3.reference) = .ok () s' :=
  ⟨Sample.nftNode_run, Sample.nftNode_stored, @LiveRun.reload_stopped Blake3.reference _ _
    Sample.nftNode_run 2 rfl _ Sample.nftNode_stored Sample.replayRecords_nftNode⟩

end Remzar
