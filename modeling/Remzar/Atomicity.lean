import Mathlib
import Remzar.NftSpec
import Remzar.Committed

/-! What a failed `apply_block` leaves behind. -/
namespace Remzar
open Std Fallible Effects Checked Ledger AccountGuard

/-! ### NFT records move one way

A record is minted to the signer of the block, given away by the signer, and then out of the
signer's reach. -/

def nftIdle (ctx : NftContext) : TxKind → Option NftRecord → Bool
  | .nftMint _, _ => false
  | .nftTransfer _, none => false
  | .nftTransfer tx, some r => decide (tx.Idle ctx r)
  | _, _ => true

def nftRefused (ctx : NftContext) : TxKind → Option NftRecord → Bool
  | .nftMint _, v => v.isSome
  | .nftTransfer _, none => true
  | .nftTransfer tx, some r => decide (¬tx.Idle ctx r ∧ tx.Blank)
  | _, _ => false

/-- The record a transaction is about. -/
def entryOf (db : RockDB) (kind : TxKind) : Option NftRecord := kind.nftKey.bind (nftAt db)

/-- How far a record has come under one signer. -/
def stage (ctx : NftContext) : Option NftRecord → ℕ
  | none => 0
  | some r => if r.ownerWallet = ctx.signer then 1 else 2

theorem liveEntry_stage {ctx : NftContext} {kind : TxKind} {v v' : Option NftRecord}
    (h : liveEntry ctx kind v = .ok v') : v' = v ∨ stage ctx v < stage ctx v' := by
  cases kind with
  | nftMint tx =>
    cases v with
    | some r => cases h
    | none =>
      cases h
      right
      change 0 < if ctx.signer = ctx.signer then 1 else 2
      rw [if_pos rfl]
      exact Nat.one_pos
  | nftTransfer tx =>
    cases v with
    | none => cases h
    | some r =>
      simp only [liveEntry, transferEntry] at h
      split at h
      · exact .inl (Except.ok.inj h).symm
      · rename_i hbusy
        split at h
        · cases h
        · cases h
          right
          have howner : r.ownerWallet = ctx.signer := by
            by_contra hne
            exact hbusy (.inr hne)
          have hnew : tx.newOwnerWallet ≠ ctx.signer := fun heq => hbusy (.inl (howner.trans heq.symm))
          rw [stage, stage, if_pos howner, if_neg hnew]
          exact Nat.one_lt_two
  | transfer tx => exact .inl (Except.ok.inj h).symm
  | registerNode tx => exact .inl (Except.ok.inj h).symm
  | reward tx => exact .inl (Except.ok.inj h).symm

theorem liveStep_stage {ctx : NftContext} {kind : TxKind} {db db' : RockDB} (hkeyed : NftKeyed db)
    (h : liveStep ctx kind db = .ok db') (key : List UInt8) :
    nftAt db' key = nftAt db key ∨ stage ctx (nftAt db key) < stage ctx (nftAt db' key) := by
  have hview := liveStep_nftAt ctx kind hkeyed
  rw [h] at hview
  cases hkind : kind.nftKey with
  | none =>
    have hsame := (Keyed.step_of_no_key hkind).mp hview.symm
    exact .inl (congrFun hsame key)
  | some k =>
    obtain ⟨v, hv, hupdate⟩ := (Keyed.step_of_key hkind).mp hview.symm
    rw [hupdate]
    by_cases hk : key = k
    · subst hk
      rw [Function.update_self]
      exact liveEntry_stage hv
    · rw [Function.update_of_ne hk]
      exact .inl rfl

theorem stage_le_of_step {ctx : NftContext} {kind : TxKind} {db db' : RockDB}
    (hkeyed : NftKeyed db) (h : liveStep ctx kind db = .ok db') (key : List UInt8) :
    stage ctx (nftAt db key) ≤ stage ctx (nftAt db' key) := by
  rcases liveStep_stage hkeyed h key with heq | hlt
  · rw [heq]
  · exact Nat.le_of_lt hlt

theorem liveStep_idle {ctx : NftContext} {kind : TxKind} {db : RockDB}
    (h : nftIdle ctx kind (entryOf db kind) = true) : liveStep ctx kind db = .ok db := by
  cases kind with
  | nftMint tx => cases h
  | nftTransfer tx =>
    rw [liveStep, applyNftTransferOrSkip_eq]
    change nftIdle ctx (.nftTransfer tx) (loadNftRecord db tx.nftId) = true at h
    cases hload : loadNftRecord db tx.nftId with
    | none =>
      rw [hload] at h
      cases h
    | some r =>
      rw [hload] at h
      exact if_pos (of_decide_eq_true h)
  | transfer tx => rfl
  | registerNode tx => rfl
  | reward tx => rfl

theorem liveStep_refused {ctx : NftContext} {kind : TxKind} {db : RockDB}
    (h : nftRefused ctx kind (entryOf db kind) = true) : ∃ e, liveStep ctx kind db = .error e := by
  cases kind with
  | nftMint tx =>
    refine ⟨duplicateMintError tx, ?_⟩
    have hsome : (loadNftRecord db tx.nftId).isSome = true := h
    rw [liveStep, applyNftMint, rejectIf, if_pos hsome]
    rfl
  | nftTransfer tx =>
    rw [liveStep, applyNftTransferOrSkip_eq]
    change nftRefused ctx (.nftTransfer tx) (loadNftRecord db tx.nftId) = true at h
    cases hload : loadNftRecord db tx.nftId with
    | none => exact ⟨_, rfl⟩
    | some r =>
      rw [hload] at h
      obtain ⟨hbusy, hblank⟩ := of_decide_eq_true h
      have hor : ¬(r.ownerWallet = tx.newOwnerWallet ∨ r.ownerWallet ≠ ctx.signer) := hbusy
      refine ⟨blankOwnerError, ?_⟩
      dsimp only
      rw [if_neg hor, if_pos hblank]
  | transfer tx => cases h
  | registerNode tx => cases h
  | reward tx => cases h

/-- A step that is neither idle nor refused changes the record it is about. -/
theorem liveStep_busy {ctx : NftContext} {kind : TxKind} {db : RockDB} (hkeyed : NftKeyed db)
    (hidle : nftIdle ctx kind (entryOf db kind) = false)
    (hrefused : nftRefused ctx kind (entryOf db kind) = false) :
    ∃ db' key, liveStep ctx kind db = .ok db' ∧ stage ctx (nftAt db key) < stage ctx (nftAt db' key) := by
  have hmoves : ∀ {key : List UInt8} {v' : Option NftRecord}, kind.nftKey = some key →
      liveEntry ctx kind (nftAt db key) = .ok v' → v' ≠ nftAt db key →
      ∃ db' key, liveStep ctx kind db = .ok db' ∧
        stage ctx (nftAt db key) < stage ctx (nftAt db' key) := by
    intro key v' hkey hentry hne
    have hview := liveStep_nftAt ctx kind hkeyed
    rw [(Keyed.step_of_key hkey).mpr ⟨v', hentry, rfl⟩] at hview
    cases hstep : liveStep ctx kind db with
    | error e =>
      rw [hstep] at hview
      cases hview
    | ok db' =>
      rw [hstep] at hview
      have hat : nftAt db' = Function.update (nftAt db) key v' := Except.ok.inj hview
      refine ⟨db', key, rfl, ?_⟩
      rcases liveStep_stage hkeyed hstep key with hsame | hlt
      · rw [hat, Function.update_self] at hsame
        exact absurd hsame hne
      · exact hlt
  cases kind with
  | nftMint tx =>
    change (nftAt db tx.nftId.toList).isSome = false at hrefused
    have hnone : nftAt db tx.nftId.toList = none := by
      cases hat : nftAt db tx.nftId.toList with
      | none => rfl
      | some r =>
        rw [hat] at hrefused
        cases hrefused
    apply hmoves rfl
    · rw [hnone]
      rfl
    · rw [hnone]
      exact nofun
  | nftTransfer tx =>
    change nftIdle ctx (.nftTransfer tx) (nftAt db tx.nftId.toList) = false at hidle
    change nftRefused ctx (.nftTransfer tx) (nftAt db tx.nftId.toList) = false at hrefused
    cases hat : nftAt db tx.nftId.toList with
    | none =>
      rw [hat] at hrefused
      cases hrefused
    | some r =>
      rw [hat] at hidle hrefused
      have hbusy : ¬tx.Idle ctx r := of_decide_eq_false hidle
      have hnamed : ¬tx.Blank := fun hblank => of_decide_eq_false hrefused ⟨hbusy, hblank⟩
      apply hmoves rfl
      · rw [hat]
        change transferEntry ctx tx (some r) = _
        rw [transferEntry, if_neg hbusy, if_neg hnamed]
      · rw [hat]
        intro heq
        have howner := congrArg NftRecord.ownerWallet (Option.some.inj heq)
        exact hbusy (.inl howner.symm)
  | transfer tx => cases hidle
  | registerNode tx => cases hidle
  | reward tx => cases hidle

/-- The first transaction that is not idle is refused, if there is one. -/
def FirstRefused (ctx : NftContext) (db : RockDB) (kinds : List TxKind) : Prop :=
  ∀ kind ∈ kinds.find? (fun kind => !nftIdle ctx kind (entryOf db kind)),
    nftRefused ctx kind (entryOf db kind) = true

/-- A loop over NFT transactions leaves the records as they were, however it ends, exactly when
nothing comes before its first refusal. -/
theorem loop_unchanged_iff (ctx : NftContext) (kinds : List TxKind) {db : RockDB}
    (hkeyed : NftKeyed db) :
    (storeOf (kinds.forM (fun kind => update (liveStep ctx kind)) db)).nfts = db.nfts ↔
      FirstRefused ctx db kinds := by
  induction kinds with
  | nil => exact ⟨fun _ => nofun, fun _ => rfl⟩
  | cons kind kinds ih =>
    rw [forM_update_cons]
    cases hidle : nftIdle ctx kind (entryOf db kind) with
    | true =>
      have hskip : (kind :: kinds).find? (fun kind => !nftIdle ctx kind (entryOf db kind)) =
          kinds.find? fun kind => !nftIdle ctx kind (entryOf db kind) :=
        List.find?_cons_of_neg (by rw [hidle]; exact Bool.false_ne_true)
      rw [liveStep_idle hidle, FirstRefused, hskip]
      exact ih
    | false =>
      have hfirst : (kind :: kinds).find? (fun kind => !nftIdle ctx kind (entryOf db kind)) =
          some kind := List.find?_cons_of_pos (by rw [hidle]; rfl)
      rw [FirstRefused, hfirst]
      cases hrefused : nftRefused ctx kind (entryOf db kind) with
      | true =>
        obtain ⟨e, he⟩ := liveStep_refused hrefused
        rw [he]
        constructor
        · rintro - kind' hkind'
          cases hkind'
          exact hrefused
        · exact fun _ => rfl
      | false =>
        obtain ⟨db₁, key, hstep, hlt⟩ := liveStep_busy hkeyed hidle hrefused
        rw [hstep]
        -- The stage of the changed record never falls back.
        have hkept : Preserves (fun db' : RockDB => NftKeyed db' ∧
            stage ctx (nftAt db₁ key) ≤ stage ctx (nftAt db' key))
            (kinds.forM fun kind => update (liveStep ctx kind)) := by
          refine preserves_forM _ fun kind' _ => preserves_update fun db' db'' hdb' hstep' => ?_
          refine ⟨(liveStep_write hstep').keyed hdb'.1, ?_⟩
          exact hdb'.2.trans (stage_le_of_step hdb'.1 hstep' key)
        have hend := hkept db₁ ⟨(liveStep_write hstep).keyed hkeyed, Nat.le_refl _⟩
        constructor
        · intro hnfts
          dsimp only at hnfts hend
          rw [nftAt, nftAt, hnfts] at hend
          exact absurd hend.2 (Nat.not_le.mpr hlt)
        · intro hall
          rw [hall kind rfl] at hrefused
          cases hrefused

/-! ### Writing out a planned state -/

/-- The snapshot of a state fits its record. -/
def SnapshotFits (s : InnerTree) : Prop :=
  (snapshotFromInner s).serialize.length ≤ maxAccountStateSnapshotBytes

theorem verifyContiguousCache_of_recent (blocks : List Block)
    (h : verifyContiguousRecentBlocks blocks = .ok ()) : verifyContiguousCache blocks = .ok () := by
  induction blocks with
  | nil => rfl
  | cons prev blocks ih =>
    cases blocks with
    | nil => rfl
    | cons next rest =>
      simp only [verifyContiguousRecentBlocks, bind_eq_ok_iff, rejectIf_eq_ok_iff] at h
      obtain ⟨_, hindex, _, hlink, hrest⟩ := h
      rw [verifyContiguousCache, rejectIf_of_not _ hindex, ok_bind, rejectIf_of_not _ hlink, ok_bind]
      exact ih hrest

/-- What the guard checks of a state covers what is checked again when it is committed. -/
theorem verifyCompactStateInvariants_of_guard {s : InnerTree} (htip : s.hasTip = true)
    (h : verifyStateInvariants s none = .ok ()) :
    verifyCompactStateInvariants s none none none = .ok () := by
  simp only [verifyStateInvariants, bind_eq_ok_iff] at h
  obtain ⟨-, -, -, -, _, hsupply, _, hcache, -⟩ := h
  simp only [verifyRecentBlockCache, htip, if_true, bind_eq_ok_iff, rejectIf_eq_ok_iff] at hcache
  obtain ⟨_, hlen, _, hcontiguous, hlast⟩ := hcache
  simp only [verifySupply, sumBalancesChecked, bind_eq_ok_iff, rejectIf_eq_ok_iff,
    okOr_eq_ok_iff] at hsupply
  obtain ⟨sum, hsum, _, hmax, _, hrewards, _, hissued, -⟩ := hsupply
  have hcacheTip : verifyCacheTip s = .ok () := by
    unfold verifyCacheTip
    cases hget : s.blocks.getLast? with
    | none => rfl
    | some last =>
      rw [hget] at hlast
      simp only [verifyRecentTip, bind_eq_ok_iff, rejectIf_eq_ok_iff] at hlast
      obtain ⟨-, hsame, -⟩ := hlast
      apply rejectIf_of_not
      rintro (hno | hdiff)
      · rw [htip] at hno
        cases hno
      · exact hsame hdiff
  have hcap : ¬maxRewardSupply < s.rewardsIssuedMicro := by
    intro hlt
    have hle : s.rewardsIssuedMicro ≤ s.totalIssuedMicro := UInt64.not_lt.mp hrewards
    exact hissued (UInt64.lt_of_lt_of_le hlt hle)
  have hcompact : verifyCompactSupply s = .ok () := by
    rw [verifyCompactSupply, hsum]
    change (rejectIf (maxSupply < sum) _ >>= _) = _
    rw [rejectIf_of_not _ hmax, ok_bind, rejectIf_of_not _ hissued, ok_bind]
    exact rejectIf_of_not _ hcap
  rw [verifyCompactStateInvariants, rejectIf_of_not _ hlen, ok_bind]
  change (verifyContiguousCache s.blocks >>= _) = _
  rw [verifyContiguousCache_of_recent s.blocks hcontiguous, ok_bind, hcacheTip, ok_bind]
  exact hcompact

theorem commitInnerState_ok {s : InnerTree} {db : RockDB} (hdb : db.batchProcessAll = .ok ())
    (hcompact : verifyCompactStateInvariants s none none none = .ok ()) (hfits : SnapshotFits s) :
    commitInnerState s db = .ok { db with state := some (snapshotFromInner s) } := by
  rw [commitInnerState, hcompact, ok_bind]
  change (rejectIf _ _ >>= _) = _
  rw [rejectIf_of_not _ (Nat.not_lt.mpr hfits), ok_bind, hdb]
  rfl

theorem commitInnerState_fits {s : InnerTree} {db db' : RockDB} (h : commitInnerState s db = .ok db') :
    SnapshotFits s := by
  simp only [commitInnerState, bind_eq_ok_iff, rejectIf_eq_ok_iff] at h
  obtain ⟨-, -, -, hfits, -⟩ := h
  exact Nat.not_lt.mp hfits

/-- The balance of an account stands in its column. -/
def Flushed (s : InnerTree) (db : RockDB) (acct : String) : Prop :=
  db.read .account (Text.utf8 acct) = some (Postcard.u64.enc (amount s.balances acct))

theorem batchProcessAll_congr {db db' : RockDB}
    (h : db'.column .transaction = db.column .transaction) :
    db'.batchProcessAll = db.batchProcessAll := by
  rw [RockDB.batchProcessAll, RockDB.batchProcessAll, h]

theorem flushAddresses_ok (s : InnerTree) (accounts : List String) (db : RockDB)
    (hdb : db.batchProcessAll = .ok ()) :
    ∃ db', flushAddresses s accounts db = .ok () db' ∧
      ∀ acct, acct ∈ accounts ∨ Flushed s db acct → Flushed s db' acct := by
  induction accounts generalizing db with
  | nil =>
    refine ⟨db, rfl, ?_⟩
    rintro acct (h | h)
    · cases h
    · exact h
  | cons acct accounts ih =>
    let db₁ := db.put .account (Text.utf8 acct) (Postcard.u64.enc (amount s.balances acct))
    have hwrite : writeAccount db acct (amount s.balances acct) = .ok db₁ :=
      (RockDB.write_eq_ok_iff _ _ _ _ _).mpr ⟨hdb, rfl⟩
    have hcolumn : db₁.column .transaction = db.column .transaction :=
      RockDB.column_put_of_ne db _ _ (by decide)
    have hdb₁ : db₁.batchProcessAll = .ok () := (batchProcessAll_congr hcolumn).trans hdb
    obtain ⟨db', hrest, hflushed⟩ := ih db₁ hdb₁
    refine ⟨db', ?_, ?_⟩
    · change (acct :: accounts).forM (fun acct => update fun db =>
        writeAccount db acct (amount s.balances acct)) db = _
      rw [forM_update_cons, hwrite]
      exact hrest
    · intro other hother
      apply hflushed
      by_cases heq : other = acct
      · right
        rw [heq]
        exact RockDB.read_put_self db _ _ _
      · rcases hother with hmem | hflush
        · exact .inl (List.mem_of_ne_of_mem heq hmem)
        · right
          have hkey : Text.utf8 acct ≠ Text.utf8 other := fun h => heq (Text.utf8_injective h).symm
          exact (RockDB.read_put_of_key_ne db _ _ _ hkey).trans hflush

theorem verifyAccountCf_of_flushed {s : InnerTree} {db : RockDB} {acct : String}
    (h : Flushed s db acct) : verifyAccountCf db s acct = .ok () := by
  have hdecode := Postcard.takeFromBytes_enc Postcard.u64 (amount s.balances acct) trivial
  rw [verifyAccountCf, h]
  change (mapErr _ (Postcard.takeFromBytes Postcard.u64 _) >>= _) = _
  simp only [hdecode, mapErr, ok_bind]
  rw [rejectIf_of_not _ (fun hne => hne rfl), ok_bind]
  exact rejectIf_of_not _ (fun hne => hne rfl)

/-! ### Carrying out a plan -/

def nftLoop (block : Block) (batch : TransactionBatch) : EStateM ErrorDetection RockDB Unit :=
  (mintsFirst batch.transactions).forM fun kind => update (liveStep (nftContext block) kind)

theorem nftLoop_run (block : Block) (batch : TransactionBatch) (db : RockDB) :
    nftLoop block batch db = (do
      applyNftMintsForBlock block batch
      applyNftTransfersForBlock block batch : EStateM ErrorDetection RockDB Unit) db := by
  rw [applyNftMintsForBlock_eq, applyNftTransfersForBlock_eq, nftLoop, mintsFirst]
  exact congrFun (List.forM_append) db

theorem onDb_run {ε α : Type} (x : EStateM ε RockDB α) (s : ChainState) :
    onDb x s = match x s.db with
      | .ok a db => .ok a { s with db := db }
      | .error e db => .error e { s with db := db } := by
  unfold onDb zoom
  cases x s.db <;> rfl

theorem onDb_ok {ε ε' α : Type} {x : EStateM ε RockDB α} {f : ε → ε'} {s : ChainState} {a : α}
    {db' : RockDB} (h : x s.db = .ok a db') :
    onDb (mapError f x) s = .ok a { s with db := db' } := by
  rw [onDb_run, mapError, h]

theorem nftLoop_write {block : Block} {batch : TransactionBatch} {db : RockDB} :
    NftWrite db (storeOf (nftLoop block batch db)) := by
  have hkept : Preserves (NftWrite db) (nftLoop block batch) :=
    preserves_forM _ fun kind _ => preserves_update fun _ _ hdb hstep => hdb.trans (liveStep_write hstep)
  exact hkept db (NftWrite.refl db)

section Execution
variable {block : Block} {batch : TransactionBatch} {next : InnerTree} {touched : Touched}
  {s : ChainState}

/-- A refused NFT transaction stops the plan with the records written so far. -/
theorem executePlan_refused {e : ErrorDetection} {db' : RockDB}
    (h : nftLoop block batch s.db = .error e db') :
    ∃ e', executePlan block batch next touched s = .error e' { s with db := db' } := by
  rw [nftLoop_run, bind_run] at h
  simp only [executePlan, bind_run, onDb_run, mapError]
  cases hmints : applyNftMintsForBlock block batch s.db with
  | error e₁ db₁ =>
    rw [hmints] at h
    cases h
    exact ⟨_, rfl⟩
  | ok u db₁ =>
    rw [hmints] at h
    dsimp only at h
    simp only [h]
    exact ⟨_, rfl⟩

theorem executePlan_oversized {db' : RockDB} (h : nftLoop block batch s.db = .ok () db')
    (hfits : ¬SnapshotFits next) :
    ∃ e', executePlan block batch next touched s = .error e' { s with db := db' } := by
  rw [nftLoop_run, run_bind_eq_ok_iff] at h
  obtain ⟨_, db₁, hmints, htransfers⟩ := h
  simp only [executePlan, bind_run, onDb_run, mapError, hmints, htransfers]
  cases hcommit : commitInnerState next db' with
  | ok db'' => exact absurd (commitInnerState_fits hcommit) hfits
  | error e =>
    refine ⟨failed "Failed to commit compact next state" e, ?_⟩
    simp only [update, hcommit]

theorem executePlan_through {db' : RockDB} (hdb : s.db.batchProcessAll = .ok ())
    (hcompact : verifyCompactStateInvariants next none none none = .ok ())
    (h : nftLoop block batch s.db = .ok () db') (hfits : SnapshotFits next) :
    ∃ s', executePlan block batch next touched s = .ok () s' := by
  have hwrite : NftWrite s.db (storeOf (nftLoop block batch s.db)) := nftLoop_write
  rw [h] at hwrite
  change NftWrite s.db db' at hwrite
  have hdb' : db'.batchProcessAll = .ok () := by
    rw [hwrite.rest]
    exact hdb
  rw [nftLoop_run, run_bind_eq_ok_iff] at h
  obtain ⟨_, db₁, hmints, htransfers⟩ := h
  have hcommit := commitInnerState_ok hdb' hcompact hfits
  obtain ⟨db₂, hflush, hflushed⟩ := flushAddresses_ok next touched.toList
    { db' with state := some (snapshotFromInner next) } hdb'
  have hverify : verifyAccountCfMatchesState db₂ next touched = .ok () := by
    apply (forM_eq_ok_iff _ _).mpr
    intro acct hacct
    exact verifyAccountCf_of_flushed (hflushed acct (.inl hacct))
  have hupdate : update (commitInnerState next) db' =
      .ok () { db' with state := some (snapshotFromInner next) } :=
    (update_eq_ok_iff _ _ _ _).mpr hcommit
  refine ⟨⟨db₂, s.tree.withInner next⟩, ?_⟩
  simp only [executePlan, run_bind_eq_ok_iff]
  refine ⟨(), _, onDb_ok hmints, (), _, onDb_ok htransfers, (), _, onDb_ok hupdate, (), _, rfl,
    (), _, onDb_ok hflush, _, _, rfl, ?_⟩
  rw [hverify]
  rfl

end Execution

/-! ### Failed calls -/

theorem applyBlock_unplanned [Blake3] {block : Block} {s : ChainState} {e : Failure}
    (h : planBlock s.db s.tree.inner block = .error e) : applyBlock block s = .error e s := by
  rw [applyBlock, applyBlockBody_run, h]

theorem applyBlock_skipped [Blake3] {block : Block} {s : ChainState}
    (h : planBlock s.db s.tree.inner block = .ok none) : applyBlock block s = .ok () s := by
  rw [applyBlock, applyBlockBody_run, h]

theorem applyBlock_planned [Blake3] {block : Block} {s : ChainState} {batch : TransactionBatch}
    {next : InnerTree} {outcome : BatchApplyOutcome}
    (h : planBlock s.db s.tree.inner block = .ok (some (batch, next, outcome))) :
    applyBlock block s =
      match executePlan block batch next outcome.touchedAccounts s with
      | .ok () s' => .ok () s'
      | .error e s' => .error e { s' with tree := s.tree } := by
  cases hrun : executePlan block batch next outcome.touchedAccounts s with
  | ok u s' => simp only [applyBlock, applyBlockBody_run, h, hrun]
  | error e s' => simp only [applyBlock, applyBlockBody_run, h, hrun]

/-- The tree, the snapshot, the balances and the NFT records are what they were. -/
structure Intact (s s' : ChainState) : Prop where
  inner : s'.tree.inner = s.tree.inner
  pending : s'.tree.pendingBlocks = s.tree.pendingBlocks
  state : s'.db.state = s.db.state
  accounts : s'.db.column .account = s.db.column .account
  nfts : s'.db.nfts = s.db.nfts

theorem Intact.refl (s : ChainState) : Intact s s := ⟨rfl, rfl, rfl, rfl, rfl⟩

/-- Up to its first write to another record, a plan is undone by what is put back in memory
exactly when no NFT record has changed. -/
theorem intact_nftLoop_iff (block : Block) (batch : TransactionBatch) {s : ChainState} {db' : RockDB}
    (hkeyed : NftKeyed s.db) (hstore : storeOf (nftLoop block batch s.db) = db') :
    Intact s { s with db := db' } ↔
      FirstRefused (nftContext block) s.db (mintsFirst batch.transactions) := by
  rw [← loop_unchanged_iff (nftContext block) (mintsFirst batch.transactions) hkeyed]
  have hwrite : NftWrite s.db (storeOf (nftLoop block batch s.db)) := nftLoop_write
  rw [hstore] at hwrite
  change _ ↔ (storeOf (nftLoop block batch s.db)).nfts = s.db.nfts
  rw [hstore]
  constructor
  · exact fun h => h.nfts
  · intro hnfts
    refine ⟨rfl, rfl, ?_, ?_, hnfts⟩
    · change db'.state = _
      rw [hwrite.rest]
    · change db'.column .account = _
      rw [hwrite.rest]

theorem nftLoop_ok_iff (block : Block) (batch : TransactionBatch) {db : RockDB}
    (hkeyed : NftKeyed db) :
    (∃ db', nftLoop block batch db = .ok () db') ↔ NftsGo (nftContext block) db batch.transactions := by
  rw [← mintsFirst_ok_iff (nftContext block) batch.transactions hkeyed]
  simp only [nftLoop, forM_update_eq_ok_iff]

/-- When a call that fails leaves everything as it was: nothing has been written before the
first NFT transaction that is refused, or all of them go through and the snapshot fits, so that
a planned call cannot fail. -/
theorem apply_block_atomic_iff [Blake3] (block : Block) (s : ChainState)
    (hdb : s.db.batchProcessAll = .ok ()) (hkeyed : NftKeyed s.db) :
    (∀ e s', applyBlock block s = .error e s' → Intact s s') ↔
      ∀ batch next outcome, planBlock s.db s.tree.inner block = .ok (some (batch, next, outcome)) →
        FirstRefused (nftContext block) s.db (mintsFirst batch.transactions) ∨
        NftsGo (nftContext block) s.db batch.transactions ∧ SnapshotFits next := by
  cases hplan : planBlock s.db s.tree.inner block with
  | error e =>
    constructor
    · intro _ batch next outcome h
      cases h
    · intro _ e' s' h
      rw [applyBlock_unplanned hplan] at h
      cases h
      exact Intact.refl s
  | ok plan =>
    cases plan with
    | none =>
      constructor
      · intro _ batch next outcome h
        cases h
      · intro _ e' s' h
        rw [applyBlock_skipped hplan] at h
        cases h
    | some plan =>
      obtain ⟨batch, next, outcome⟩ := plan
      have happlied := dryRun_applied (planBlock_some hplan).dryRun
      have htip : next.hasTip = true := happlied.moves.tip.1
      have hcompact := verifyCompactStateInvariants_of_guard htip happlied.invariants
      have hgo := nftLoop_ok_iff block batch hkeyed
      -- A run that fails after the NFT loop has written what the loop has written.
      have hfails : ∀ {e' : Failure} {db' : RockDB}, storeOf (nftLoop block batch s.db) = db' →
          executePlan block batch next outcome.touchedAccounts s = .error e' { s with db := db' } →
          ((∀ e s', applyBlock block s = .error e s' → Intact s s') ↔
            FirstRefused (nftContext block) s.db (mintsFirst batch.transactions)) := by
        intro e' db' hstore hrun
        rw [applyBlock_planned hplan, hrun, ← intact_nftLoop_iff block batch hkeyed hstore]
        constructor
        · exact fun h => h _ _ rfl
        · intro h e s' heq
          cases heq
          exact h
      have hplanned : (∀ batch' next' outcome', Except.ok (ε := Failure) (some (batch, next, outcome)) =
          .ok (some (batch', next', outcome')) →
          FirstRefused (nftContext block) s.db (mintsFirst batch'.transactions) ∨
          NftsGo (nftContext block) s.db batch'.transactions ∧ SnapshotFits next') ↔
          FirstRefused (nftContext block) s.db (mintsFirst batch.transactions) ∨
          NftsGo (nftContext block) s.db batch.transactions ∧ SnapshotFits next := by
        constructor
        · exact fun h => h batch next outcome rfl
        · intro h batch' next' outcome' heq
          cases heq
          exact h
      rw [hplanned]
      cases hloop : nftLoop block batch s.db with
      | error e db' =>
        obtain ⟨e', hrun⟩ := executePlan_refused hloop
        have hstop : ¬NftsGo (nftContext block) s.db batch.transactions := by
          intro h
          obtain ⟨db'', hok⟩ := hgo.mpr h
          rw [hloop] at hok
          cases hok
        rw [hfails (congrArg storeOf hloop) hrun]
        exact ⟨Or.inl, fun h => h.elim id fun hgo => absurd hgo.1 hstop⟩
      | ok u db' =>
        by_cases hfits : SnapshotFits next
        · obtain ⟨s'', hrun⟩ := executePlan_through hdb hcompact hloop hfits
          have hok : applyBlock block s = .ok () s'' := by
            rw [applyBlock_planned hplan, hrun]
          rw [hok]
          constructor
          · exact fun _ => .inr ⟨hgo.mp ⟨db', hloop⟩, hfits⟩
          · intro _ e s' heq
            cases heq
        · obtain ⟨e', hrun⟩ := executePlan_oversized hloop hfits
          rw [hfails (congrArg storeOf hloop) hrun]
          exact ⟨Or.inl, fun h => h.elim id fun hgo => absurd hgo.2 hfits⟩

/-! ### NFT transactions on a short chain -/

namespace Sample

def otherMiner : String := "r" ++ String.ofList (List.replicate 128 'b')

def artwork : NftMintTx := ⟨hashOfWords 0 1, hashOfWords 0 7, "A", "B"⟩

def give (owner : String) : TxKind := .nftTransfer ⟨artwork.nftId, owner⟩

def nftBlock (index timestamp : UInt64) (miner : String) (previousHash merkleRoot hash : Hash) : Block :=
  ⟨⟨index, timestamp, previousHash, merkleRoot, signature, none, 2097152⟩,
    some (batchKeyString index), miner, hash, 0⟩

/-- A mint, an attempt by another miner to give the NFT to nobody, and a gift to that miner. -/
def nftBatch0 : TransactionBatch := ⟨0, 1700000000, [.nftMint artwork], none⟩
def nftBatch1 : TransactionBatch := ⟨1, 1700000030, [give ""], none⟩
def nftBatch2 : TransactionBatch := ⟨2, 1700000060, [give otherMiner], none⟩

def nftBlock0 : Block := nftBlock 0 1700000000 miner zeroHash
  (hashOfWords 0x6ad8cbfa4fc73f2c19d0cbe0f9b4e64e28c66f1eb7596d568f63bc76cc84d3f9
    0xf89d4c6bdc6e844d08daadd38fe8a191f7cc25f43cb2fa4c6e3de4493c571d72)
  (hashOfWords 0xdd37631048de23180d9b95fbd96fdd5cf5007486d9ae18eea408a18c9a69e525
    0x37cfc4551dd6e1570285441766675b7c162a7d0a4557ee0717556f1787a9a9cc)

def nftBlock1 : Block := nftBlock 1 1700000030 otherMiner nftBlock0.blockHash
  (hashOfWords 0x06dc8920898f11449fe0b68a984db2a36a921de2e45b6ecc29ae746dc8e181c0
    0xec58e480bd032285396856593bf5092ec53492b04d0f2ee00965edabb5df1483)
  (hashOfWords 0x2ed25ea004b8b9e0a23eef60c26e625ba550812232a92890ece8f80770b26664
    0x7a8a0de37e118d7a0f9ce5eac7d0cc4919540f68f8b4cd8af487ad9b3cd397ed)

def nftBlock2 : Block := nftBlock 2 1700000060 miner nftBlock1.blockHash
  (hashOfWords 0x47fe25770a03283545ec10817e11939deb28aa7de34688aa062ae84660ee4683
    0x193fa934f3bb35418d7efa10805a9ebb70f813cb90bb2dd6ebbc0ea582f8f3bf)
  (hashOfWords 0x5b59f984db18af48a9ae779fdc1b7704450f712e25761233768e1d33293e03f7
    0x5b1f1baa33b0b55eaaa7673c8e14f991d9cda475d622e31d2fd167d845fe1aaf)

/-- A mint, and a transfer of an NFT that nobody minted. -/
def strayBatch : TransactionBatch :=
  ⟨0, 1700000000, [.nftMint artwork, .nftTransfer ⟨hashOfWords 0 2, otherMiner⟩], none⟩

def strayBlock : Block := nftBlock 0 1700000000 miner zeroHash
  (hashOfWords 0x9914970ccb7d468b7b7064e61c04c9dde5a46d0b4742a32a9f2e2484e4491880
    0x98705878da9f3a6e9d63a28dfd9b0cf743851a4ec67f5606e62acf7346b813bf)
  (hashOfWords 0x3d375b5bd9dc950848773cb7a8d1c405e5b05ca192e58899ec7252e924c936c7
    0xd021aa24deaafd35d50ad9debff95060e9006e4377ae721b12d23d797e602c39)

/-- A gift before the mint. -/
def earlyBatch : TransactionBatch := ⟨0, 1700000000, [give otherMiner, .nftMint artwork], none⟩

def earlyBlock : Block := nftBlock 0 1700000000 miner zeroHash
  (hashOfWords 0xaf7112270473d0ed45e907bc8e75fd507b289d38c11ac1ff3c8610175f865979
    0xb1cf20c987339d9fd1c2766d21f2b3a36cea72cca9daff5d90ac09b2a1822a58)
  (hashOfWords 0x65da5415ef23e3615a724b0809ce75a69eb0f5a7225400ba272a46699546d5bb
    0xd0d17ec7ae3043bde767c037ab4d8de4e4df02e80a28593a213192fca726a910)

theorem signed_nfts :
    ∀ b ∈ [nftBlock0, nftBlock1, nftBlock2, strayBlock, earlyBlock], Signed b := by
  apply signed_of_checksOut
  · simp only [List.forall_mem_cons]
    exact ⟨rfl, rfl, rfl, rfl, rfl, fun _ h => nomatch h⟩
  · decide +kernel

def strayStart : ChainState :=
  ⟨RockDB.empty.storeBatchBytes 0 strayBatch.serialize, AccountModelTree.withManager⟩

/-- Is the block refused with its NFT on record? -/
def keepsMint : EStateM.Result Failure ChainState Unit → Bool
  | .ok _ _ => false
  | .error _ s' => (nftAt s'.db artwork.nftId.toList).isSome

theorem keepsMint_reference : keepsMint (@applyBlock Blake3.reference strayBlock strayStart) = true := by
  rw [@applyBlock_of_valid Blake3.reference _ (signed_nfts strayBlock (by simp)).valid]
  decide +kernel

theorem error_of_keepsMint {out : EStateM.Result Failure ChainState Unit} (h : keepsMint out = true) :
    ∃ e s', out = .error e s' ∧ nftAt s'.db artwork.nftId.toList ≠ none := by
  cases out with
  | ok u s' => cases h
  | error e s' => exact ⟨e, s', rfl, Option.isSome_iff_ne_none.mp h⟩

theorem strayStart_writes : strayStart.db.batchProcessAll = .ok () := by decide

end Sample

theorem apply_block_atomic_iff_stray :
    (∀ e s', @applyBlock Blake3.reference Sample.strayBlock Sample.strayStart = .error e s' →
      Intact Sample.strayStart s') ↔
    ∀ batch next outcome, @planBlock Blake3.reference Sample.strayStart.db
        Sample.strayStart.tree.inner Sample.strayBlock = .ok (some (batch, next, outcome)) →
      FirstRefused (nftContext Sample.strayBlock) Sample.strayStart.db
        (mintsFirst batch.transactions) ∨
      NftsGo (nftContext Sample.strayBlock) Sample.strayStart.db batch.transactions ∧
        SnapshotFits next :=
  @apply_block_atomic_iff Blake3.reference Sample.strayBlock Sample.strayStart
    Sample.strayStart_writes (NftKeyed.of_empty rfl)

/-- The mint of a refused block stays on record. -/
theorem refused_block_keeps_mint :
    Sample.strayStart.db.batchProcessAll = .ok () ∧
    ∃ e s', @applyBlock Blake3.reference Sample.strayBlock Sample.strayStart = .error e s' ∧
      ¬Intact Sample.strayStart s' := by
  obtain ⟨e, s', hrun, hrecord⟩ := Sample.error_of_keepsMint Sample.keepsMint_reference
  refine ⟨Sample.strayStart_writes, e, s', hrun, ?_⟩
  intro hintact
  apply hrecord
  rw [nftAt, hintact.nfts]
  exact ExtTreeMap.getElem?_empty

end Remzar
