import Mathlib
import Remzar.Replay

/-! Rolling a chain back to one of its blocks. The account state is replayed from the stored
blocks; the NFT records are kept, and the transactions below the fork are applied to them once
more. -/
namespace Remzar
open Std Fallible Effects Checked Ledger AccountGuard

/-! ### Owners -/

def NftRecord.ownedBy (r : NftRecord) (owner : String) : NftRecord := { r with ownerWallet := owner }

@[simp] theorem NftRecord.ownedBy_owner (r : NftRecord) (owner : String) :
    (r.ownedBy owner).ownerWallet = owner := rfl

@[simp] theorem NftRecord.ownedBy_ownedBy (r : NftRecord) (o o' : String) :
    (r.ownedBy o).ownedBy o' = r.ownedBy o' := rfl

theorem NftRecord.ownedBy_self (r : NftRecord) : r.ownedBy r.ownerWallet = r := rfl

/-- Transfers look at the owner of a record and at nothing else of it. -/
theorem liveEntries_transfers_ownedBy (ctx : NftContext) (transfers : List NftTransferTx)
    (r q : NftRecord) {v' : Option NftRecord}
    (h : liveEntries ctx (transfers.map .nftTransfer) (some r) = .ok v') :
    ∃ r', v' = some r' ∧
      liveEntries ctx (transfers.map .nftTransfer) (some (q.ownedBy r.ownerWallet)) =
        .ok (some (q.ownedBy r'.ownerWallet)) := by
  induction transfers generalizing r with
  | nil =>
    cases h
    exact ⟨r, rfl, rfl⟩
  | cons tx rest ih =>
    rw [liveEntries, List.map_cons, List.foldlM_cons, bind_eq_ok_iff] at h
    obtain ⟨mid, hmid, hrest⟩ := h
    rw [liveEntries, List.map_cons, List.foldlM_cons]
    change transferEntry ctx tx (some r) = .ok mid at hmid
    change ∃ r', _ ∧ (transferEntry ctx tx (some (q.ownedBy r.ownerWallet)) >>= _) = _
    have hidle : tx.Idle ctx (q.ownedBy r.ownerWallet) ↔ tx.Idle ctx r := Iff.rfl
    rw [transferEntry] at hmid ⊢
    by_cases hi : tx.Idle ctx r
    · rw [if_pos hi] at hmid
      cases hmid
      rw [if_pos (hidle.mpr hi)]
      exact ih r hrest
    · rw [if_neg hi] at hmid
      rw [if_neg (fun h => hi (hidle.mp h))]
      by_cases hblank : tx.Blank
      · rw [if_pos hblank] at hmid
        cases hmid
      · rw [if_neg hblank] at hmid ⊢
        cases hmid
        exact ih _ hrest

/-- In a replay over existing records the mints are passed over. -/
theorem replayEntries_some (ctx : NftContext) {key : List UInt8} {kinds : List TxKind}
    (hkinds : ∀ kind ∈ kinds, kind.nftKey = some key) (r : NftRecord) :
    replayEntries ctx kinds (some r) =
      liveEntries ctx ((nftTransfers kinds).map .nftTransfer) (some r) := by
  induction kinds generalizing r with
  | nil => rfl
  | cons kind kinds ih =>
    have hrest : ∀ kind' ∈ kinds, kind'.nftKey = some key :=
      fun kind' h => hkinds kind' (List.mem_cons_of_mem kind h)
    rw [replayEntries, List.foldlM_cons]
    cases kind with
    | nftMint tx => exact ih hrest r
    | nftTransfer tx =>
      change (transferEntry ctx tx (some r) >>= _) =
        liveEntries ctx (.nftTransfer tx :: (nftTransfers kinds).map .nftTransfer) (some r)
      rw [liveEntries, List.foldlM_cons]
      change (transferEntry ctx tx (some r) >>= _) = (transferEntry ctx tx (some r) >>= _)
      rw [transferEntry]
      by_cases hi : tx.Idle ctx r
      · rw [if_pos hi]
        exact ih hrest r
      · rw [if_neg hi]
        by_cases hblank : tx.Blank
        · rw [if_pos hblank]
          rfl
        · rw [if_neg hblank]
          exact ih hrest _
    | transfer tx => cases hkinds _ List.mem_cons_self
    | registerNode tx => cases hkinds _ List.mem_cons_self
    | reward tx => cases hkinds _ List.mem_cons_self

/-- Transfers by a wallet that just came to own the NFT, all back to one owner. -/
theorem liveEntries_give_back (ctx : NftContext) (transfers : List NftTransferTx) {r : NftRecord}
    {owner : String} (howner : owner ≠ ctx.signer)
    (hback : ∀ tx ∈ transfers, tx.newOwnerWallet = owner ∧ ¬tx.Blank) :
    liveEntries ctx (transfers.map .nftTransfer) (some r) = .ok (some r) ∨
      liveEntries ctx (transfers.map .nftTransfer) (some r) = .ok (some (r.ownedBy owner)) := by
  cases transfers with
  | nil => exact .inl rfl
  | cons tx rest =>
    obtain ⟨hnew, hnamed⟩ := hback tx List.mem_cons_self
    have hrest : ∀ tx' ∈ rest, tx'.Idle ctx (r.ownedBy owner) := fun tx' _ => .inr howner
    rw [liveEntries, List.map_cons, List.foldlM_cons]
    change (transferEntry ctx tx (some r) >>= _) = _ ∨ (transferEntry ctx tx (some r) >>= _) = _
    rw [transferEntry]
    by_cases hi : tx.Idle ctx r
    · left
      rw [if_pos hi]
      rcases hi with hsame | hother
      · -- The record already has that owner, so the rest is idle as well.
        apply liveEntries_transfers_idle ctx rest
        intro tx' htx'
        exact .inl (hsame.trans (hnew.trans (hback tx' (List.mem_cons_of_mem tx htx')).1.symm))
      · exact liveEntries_transfers_idle ctx rest fun tx' _ => .inr hother
    · right
      rw [if_neg hi, if_neg hnamed, hnew]
      exact liveEntries_transfers_idle ctx rest hrest

/-! ### Replaying over the records a chain has led to -/

/-- While a chain is replayed over its own final records, a record belongs to its final owner or to
the one it had in the live run. -/
def FollowsAt (final live replayed : Option NftRecord) : Prop :=
  match final with
  | none => replayed = none
  | some last => ∃ owner, replayed = some (last.ownedBy owner) ∧
      (owner = last.ownerWallet ∨ ∃ r, live = some r ∧ owner = r.ownerWallet)

theorem FollowsAt.start (final live : Option NftRecord) : FollowsAt final live final := by
  cases final with
  | none => rfl
  | some last => exact ⟨last.ownerWallet, rfl, .inl rfl⟩

theorem FollowsAt.eq_final {final replayed : Option NftRecord} (h : FollowsAt final final replayed) :
    replayed = final := by
  cases final with
  | none => exact h
  | some last =>
    obtain ⟨owner, rfl, howner⟩ := h
    have heq : owner = last.ownerWallet := by
      rcases howner with heq | ⟨r, hr, heq⟩
      · exact heq
      · cases hr
        exact heq
    rw [heq, NftRecord.ownedBy_self]

section FollowsStep
variable {ctx : NftContext} {key : List UInt8} {kinds : List TxKind} {live live' : Option NftRecord}
  {last : NftRecord}

/-- The replayed record has the owner of the live one: both go the same way. -/
theorem FollowsAt.step_same {r : NftRecord} {v₁ : Option NftRecord}
    (hkinds : ∀ kind ∈ kinds, kind.nftKey = some key) (hv₁ : v₁ = some r)
    (htransfers : liveEntries ctx ((nftTransfers kinds).map .nftTransfer) v₁ = .ok live') :
    ∃ v', replayEntries ctx kinds (some (last.ownedBy r.ownerWallet)) = .ok v' ∧
      FollowsAt (some last) live' v' := by
  subst hv₁
  obtain ⟨r', rfl, hrun⟩ := liveEntries_transfers_ownedBy ctx _ r last htransfers
  refine ⟨some (last.ownedBy r'.ownerWallet), ?_, _, rfl, .inr ⟨r', rfl, rfl⟩⟩
  rw [replayEntries_some ctx hkinds]
  exact hrun

/-- The signer is not the final owner: nothing happens to a record that has that owner. -/
theorem FollowsAt.step_other (hkinds : ∀ kind ∈ kinds, kind.nftKey = some key)
    (hsigner : last.ownerWallet ≠ ctx.signer) :
    ∃ v', replayEntries ctx kinds (some last) = .ok v' ∧ FollowsAt (some last) live' v' := by
  refine ⟨some last, ?_, FollowsAt.start _ _⟩
  rw [replayEntries_some ctx hkinds]
  exact liveEntries_transfers_idle ctx _ fun tx _ => .inr hsigner

theorem FollowsAt.step {final replayed : Option NftRecord}
    (hkinds : ∀ kind ∈ kinds, kind.nftKey = some key) (h : FollowsAt final live replayed)
    (hlive : liveEntries ctx ((nftMints kinds).map .nftMint ++ (nftTransfers kinds).map .nftTransfer)
      live = .ok live') (hkept : live'.isSome = true → final.isSome = true)
    (hsettled : ∀ tx ∈ nftTransfers kinds, ∀ r last, live = some r → final = some last →
      r.ownerWallet ≠ ctx.signer → last.ownerWallet = ctx.signer →
      tx.newOwnerWallet = r.ownerWallet ∧ ¬tx.Blank) :
    ∃ v', replayEntries ctx kinds replayed = .ok v' ∧ FollowsAt final live' v' := by
  cases final with
  | none =>
    -- A record that never came to exist has no transactions.
    have hnil : kinds = [] := by
      by_contra hne
      obtain ⟨kind, hkind⟩ := List.exists_mem_of_ne_nil kinds hne
      have hsome : kind.nftKey ≠ none := by
        rw [hkinds kind hkind]
        exact nofun
      have hmem := mem_mintsFirst hkind hsome
      have hlive' := hkept (liveEntries_isSome hlive (.inl ⟨kind, hmem, hsome⟩))
      cases hlive'
    rw [hnil]
    exact ⟨replayed, rfl, h⟩
  | some last =>
    obtain ⟨owner, rfl, howner⟩ := h
    obtain ⟨v₁, hmints, htransfers⟩ := (liveEntries_append ctx _ _ live live').mp hlive
    rcases (liveEntries_mints ctx _ live v₁).mp hmints with ⟨-, rfl⟩ | ⟨tx, -, rfl, rfl⟩
    · by_cases hsame : ∃ r, v₁ = some r ∧ owner = r.ownerWallet
      · obtain ⟨r, hr, rfl⟩ := hsame
        exact FollowsAt.step_same hkinds hr htransfers
      · obtain rfl : owner = last.ownerWallet := howner.resolve_right hsame
        rw [NftRecord.ownedBy_self]
        by_cases hsigner : last.ownerWallet = ctx.signer
        · cases v₁ with
          | none =>
            have hnil := (liveEntries_transfers_none ctx _).mp ⟨live', htransfers⟩
            refine ⟨some last, ?_, FollowsAt.start _ _⟩
            rw [replayEntries_some ctx hkinds, hnil]
            rfl
          | some r =>
            -- The signer has come by the NFT only later.
            have hother : r.ownerWallet ≠ ctx.signer :=
              fun heq => hsame ⟨r, rfl, hsigner.trans heq.symm⟩
            have hidle := liveEntries_transfers_idle ctx (nftTransfers kinds)
              (fun tx (_ : tx ∈ nftTransfers kinds) => (Or.inr hother : tx.Idle ctx r))
            rw [hidle] at htransfers
            cases htransfers
            have hback := liveEntries_give_back ctx (nftTransfers kinds) (r := last) hother
              fun tx htx => hsettled tx htx r last rfl rfl hother hsigner
            rw [replayEntries_some ctx hkinds]
            rcases hback with hrun | hrun
            · exact ⟨_, hrun, FollowsAt.start _ _⟩
            · exact ⟨_, hrun, _, rfl, .inr ⟨r, rfl, rfl⟩⟩
        · exact FollowsAt.step_other hkinds hsigner
    · obtain rfl : owner = last.ownerWallet := by
        rcases howner with heq | ⟨r, hr, -⟩
        · exact heq
        · cases hr
      by_cases hsigner : last.ownerWallet = ctx.signer
      · -- The signer mints what he owns in the end.
        rw [hsigner]
        exact FollowsAt.step_same (r := mintedRecord ctx tx) hkinds rfl htransfers
      · exact FollowsAt.step_other hkinds hsigner

end FollowsStep

/-- The transfers of a block that its miner signs for an NFT he did not own then, but owns in the
end, all name the owner of that time. -/
def SettledBlock (final live : List UInt8 → Option NftRecord) (e : Block × TransactionBatch) : Prop :=
  ∀ tx ∈ nftTransfers e.2.transactions, ∀ r last, live tx.nftId.toList = some r →
    final tx.nftId.toList = some last → r.ownerWallet ≠ e.1.miner → last.ownerWallet = e.1.miner →
    tx.newOwnerWallet = r.ownerWallet ∧ ¬tx.Blank

theorem replayNfts_follows {final live live' replayed : List UInt8 → Option NftRecord}
    {e : Block × TransactionBatch} (h : ∀ key, FollowsAt (final key) (live key) (replayed key))
    (hlive : liveNfts live e = .ok live')
    (hkept : ∀ key, (live' key).isSome = true → (final key).isSome = true)
    (hsettled : SettledBlock final live e) :
    ∃ replayed', replayNfts replayed e = .ok replayed' ∧
      ∀ key, FollowsAt (final key) (live' key) (replayed' key) := by
  have hkeys := (Keyed.foldlM_step_eq_ok_iff _ _ _).mp hlive
  have hat : ∀ key, ∃ v', replayEntries (nftContext e.1)
      (Keyed.ofKey TxKind.nftKey key e.2.transactions) (replayed key) = .ok v' ∧
      FollowsAt (final key) (live' key) v' := by
    intro key
    have hkey := hkeys key
    rw [ofKey_mintsFirst_eq] at hkey
    apply FollowsAt.step (fun kind hkind => (Keyed.mem_ofKey.mp hkind).2) (h key) hkey (hkept key)
    intro tx htx r last hr hlast hother hsigner
    obtain ⟨kind, hkind, hsome⟩ := List.mem_filterMap.mp htx
    obtain ⟨hmem, hkey'⟩ := Keyed.mem_ofKey.mp hkind
    cases kind with
    | nftTransfer tx' =>
      cases hsome
      obtain rfl : tx.nftId.toList = key := Option.some.inj hkey'
      exact hsettled tx (List.mem_filterMap.mpr ⟨_, hmem, rfl⟩) r last hr hlast hother hsigner
    | nftMint _ => cases hsome
    | transfer _ => cases hsome
    | registerNode _ => cases hsome
    | reward _ => cases hsome
  obtain ⟨replayed', hreplayed'⟩ := Classical.skolem.mp hat
  exact ⟨replayed', (Keyed.foldlM_step_eq_ok_iff _ _ _).mpr fun key => (hreplayed' key).1,
    fun key => (hreplayed' key).2⟩

/-- No transfer of the chain that its signer was not entitled to becomes one that he is entitled
to with the records at the end of the chain. -/
def Settled (log : List (Block × TransactionBatch)) (final : RockDB) : Prop :=
  ∀ pre e post records, log = pre ++ e :: post → pre.foldlM liveNfts (fun _ => none) = .ok records →
    SettledBlock (nftAt final) records e

/-- A settled chain can be replayed over its own records, and leaves them as they are. -/
theorem replayLog_settled {log : List (Block × TransactionBatch)} {final : RockDB}
    (hlive : log.foldlM liveNfts (fun _ => none) = .ok (nftAt final)) (hsettled : Settled log final) :
    log.foldlM replayNfts (nftAt final) = .ok (nftAt final) := by
  have hrest : ∀ (rest pre : List (Block × TransactionBatch))
      (live replayed : List UInt8 → Option NftRecord), log = pre ++ rest →
      pre.foldlM liveNfts (fun _ => none) = .ok live → rest.foldlM liveNfts live = .ok (nftAt final) →
      (∀ key, FollowsAt (nftAt final key) (live key) (replayed key)) →
      rest.foldlM replayNfts replayed = .ok (nftAt final) := by
    intro rest
    induction rest with
    | nil =>
      intro pre live replayed _ _ hend hfollows
      cases hend
      exact congrArg Except.ok (funext fun key => (hfollows key).eq_final)
    | cons e rest ih =>
      intro pre live replayed hlog hpre hend hfollows
      rw [List.foldlM_cons, bind_eq_ok_iff] at hend
      obtain ⟨live', hstep, hend⟩ := hend
      have hkept := (liveLog_known hend).2
      obtain ⟨replayed', hreplay, hfollows'⟩ := replayNfts_follows hfollows hstep hkept
        (hsettled pre e rest live hlog hpre)
      rw [List.foldlM_cons, hreplay, ok_bind]
      apply ih (pre ++ [e]) live' replayed' _ _ hend hfollows'
      · rw [List.append_assoc, List.singleton_append]
        exact hlog
      · rw [List.foldlM_append, hpre, ok_bind, List.foldlM_cons, hstep]
        rfl
  exact hrest log [] _ _ rfl rfl hlive fun key => FollowsAt.start _ _

/-! ### Finding the ancestor -/

theorem accountStep_blocks [Blake3] {inner next : InnerTree} {e : Block × TransactionBatch}
    (h : accountStep inner e = .ok next) : ∀ b ∈ next.blocks, b ∈ inner.blocks ∨ b = e.1 := by
  simp only [accountStep, bind_eq_ok_iff, pure_eq_ok_iff] at h
  obtain ⟨_, -, ⟨next', outcome⟩, happly, rfl⟩ := h
  have hmoves := (applyBatchToState_applied _ _ _ _ _ happly).moves
  have hblocks : next'.blocks = (rememberRecentBlock inner e.1).blocks := by rw [hmoves.rest]
  intro b hb
  rw [hblocks, rememberRecentBlock, drainExcess] at hb
  dsimp only at hb
  have hmem : b ∈ inner.blocks ++ [e.1] := List.mem_of_mem_drop hb
  rcases List.mem_append.mp hmem with hold | hnew
  · exact .inl hold
  · exact .inr (List.mem_singleton.mp hnew)

/-- Cached blocks are blocks of the chain. -/
theorem accountLog_blocks [Blake3] {log : List (Block × TransactionBatch)} {inner next : InnerTree}
    (h : log.foldlM accountStep inner = .ok next) :
    ∀ b ∈ next.blocks, b ∈ inner.blocks ∨ b ∈ log.map Prod.fst := by
  induction log generalizing inner with
  | nil =>
    cases h
    exact fun b hb => .inl hb
  | cons e log ih =>
    rw [List.foldlM_cons, bind_eq_ok_iff] at h
    obtain ⟨mid, hmid, hrest⟩ := h
    intro b hb
    rcases ih hrest b hb with hmem | hmem
    · rcases accountStep_blocks hmid b hmem with hold | rfl
      · exact .inl hold
      · exact .inr List.mem_cons_self
    · exact .inr (List.mem_cons_of_mem _ hmem)

section Search
variable {log : List (Block × TransactionBatch)} {db : RockDB} {m : ℕ} {e : Block × TransactionBatch}

/-- Blocks of the chain have different hashes. -/
def HashesDiffer (log : List (Block × TransactionBatch)) : Prop :=
  (log.map fun e => e.1.blockHash).Nodup

theorem HashesDiffer.index_eq (h : HashesDiffer log) {i : ℕ} {e' : Block × TransactionBatch}
    (he : log[m]? = some e) (he' : log[i]? = some e') (hash : e'.1.blockHash = e.1.blockHash) :
    i = m := by
  obtain ⟨hm, hem⟩ := List.getElem?_eq_some_iff.mp he
  obtain ⟨hi, hei⟩ := List.getElem?_eq_some_iff.mp he'
  have hi' : i < (log.map fun e => e.1.blockHash).length := by simpa using hi
  have hm' : m < (log.map fun e => e.1.blockHash).length := by simpa using hm
  apply (@List.Nodup.getElem_inj_iff _ _ h i hi' m hm').mp
  simp only [List.getElem_map, hem, hei, hash]

theorem readForRollback_eq (hstored : ∀ i e, log[i]? = some e → StoredAt db (UInt64.ofNat i) e)
    (hdiffer : HashesDiffer log) (he : log[m]? = some e) {i : ℕ} (hi : i < log.length) :
    readForRollback db e.1.blockHash (UInt64.ofNat i) = .ok (decide (i = m)) := by
  have hat := hstored i log[i] (List.getElem?_eq_getElem hi)
  rw [readForRollback, hat.1]
  change Except.ok (decide (log[i].1.blockHash = e.1.blockHash)) = _
  congr 1
  apply decide_eq_decide.mpr
  constructor
  · exact fun hash => hdiffer.index_eq he (List.getElem?_eq_getElem hi) hash
  · rintro rfl
    rw [List.getElem?_eq_getElem hi] at he
    rw [Option.some.inj he]

/-- The search from the tip downwards ends at the ancestor. -/
theorem findHeightDownFrom_eq (hstored : ∀ i e, log[i]? = some e → StoredAt db (UInt64.ofNat i) e)
    (hdiffer : HashesDiffer log) (he : log[m]? = some e) (n : ℕ) (hn : n < log.length) (hm : m ≤ n) :
    findHeightDownFrom db e.1.blockHash n = .ok (some (UInt64.ofNat m)) := by
  induction n with
  | zero =>
    obtain rfl : m = 0 := Nat.le_zero.mp hm
    have hread := readForRollback_eq hstored hdiffer he hn
    change readForRollback db e.1.blockHash 0 = _ at hread
    rw [findHeightDownFrom, hread]
    rfl
  | succ n ih =>
    rw [findHeightDownFrom, readForRollback_eq hstored hdiffer he hn, ok_bind]
    by_cases heq : n+1 = m
    · subst heq
      rw [decide_eq_true rfl]
      rfl
    · rw [decide_eq_false heq]
      exact ih (Nat.lt_of_succ_lt hn) (by omega)

end Search

/-! ### Rolling back -/

section Rolling
variable [Blake3]

/-- Further blocks on top of a state, as in a live run. -/
inductive LiveSteps (s : ChainState) : List (Block × TransactionBatch) → ChainState → Prop
  | none : LiveSteps s [] s
  | step {log : List (Block × TransactionBatch)} {s₁ s' : ChainState} {block : Block}
    {batch : TransactionBatch} (hsteps : LiveSteps s log s₁) (environment : RockDB → RockDB)
    (hrecords : (environment s₁.db).nfts = s₁.db.nfts)
    (hcall : Call.result ⟨environment, block⟩ s₁ = .ok () s')
    (hnew : NewlyApplied ⟨environment, block⟩ s₁ batch) : LiveSteps s (log ++ [(block, batch)]) s'

theorem LiveRun.append {below above : List (Block × TransactionBatch)} {s s' : ChainState}
    (hrun : LiveRun below s) (hsteps : LiveSteps s above s') : LiveRun (below ++ above) s' := by
  induction hsteps with
  | none =>
    rw [List.append_nil]
    exact hrun
  | step _ environment hrecords hcall hnew ih =>
    rw [← List.append_assoc]
    exact .step ih environment hrecords hcall hnew

/-- The height that `rollback_to` finds for a block of the chain. -/
theorem rollback_height {log : List (Block × TransactionBatch)} {s : ChainState}
    (h : LiveInvariant log s) {db : RockDB}
    (hstored : ∀ i e, log[i]? = some e → StoredAt db (UInt64.ofNat i) e)
    (hdiffer : HashesDiffer log) {m : ℕ} {e : Block × TransactionBatch} (he : log[m]? = some e) :
    (∃ block, s.tree.inner.blocks.find? (fun b => b.blockHash = e.1.blockHash) = some block ∧
      block.metadata.index = UInt64.ofNat m) ∨
    (s.tree.inner.blocks.find? (fun b => b.blockHash = e.1.blockHash) = none ∧
      findHeightDownFrom db e.1.blockHash s.tree.inner.tipHeight.toNat = .ok (some (UInt64.ofNat m))) := by
  have hm : m < log.length := (List.getElem?_eq_some_iff.mp he).1
  have hne : log ≠ [] := List.ne_nil_of_length_pos (Nat.zero_lt_of_lt hm)
  obtain ⟨htip, hbound⟩ := h.tip hne
  have hnext := expectedNextHeight_of_tip htip hbound
  rw [h.chain.next] at hnext
  cases hfind : s.tree.inner.blocks.find? (fun b => b.blockHash = e.1.blockHash) with
  | none =>
    exact .inr ⟨rfl, findHeightDownFrom_eq hstored hdiffer he s.tree.inner.tipHeight.toNat
      (by omega) (by omega)⟩
  | some block =>
    have hhash : block.blockHash = e.1.blockHash := of_decide_eq_true
      (@List.find?_some _ (fun b : Block => decide (b.blockHash = e.1.blockHash)) block _ hfind)
    have hcached := List.mem_of_find?_eq_some hfind
    have hmem : block ∈ log.map Prod.fst := by
      rcases accountLog_blocks h.accounts block hcached with hold | hmem
      · cases hold
      · exact hmem
    obtain ⟨e', he', rfl⟩ := List.mem_map.mp hmem
    obtain ⟨i, hi⟩ := List.mem_iff_getElem?.mp he'
    obtain rfl := hdiffer.index_eq he hi hhash
    exact .inl ⟨e'.1, rfl, h.chain.index_eq hi⟩

/-- Rolling back to a block of a live chain, where the NFT records can be replayed up to it. -/
theorem rollbackTo_replayed {below above : List (Block × TransactionBatch)} {sm s : ChainState}
    (hbelow : LiveInvariant below sm) (hall : LiveInvariant (below ++ above) s) {db db' : RockDB}
    (hstored : ∀ i e, (below ++ above)[i]? = some e → StoredAt db (UInt64.ofNat i) e)
    (hdiffer : HashesDiffer (below ++ above)) {e : Block × TransactionBatch}
    (hlast : below.getLast? = some e) (hrun : below.foldlM replayRecords db = .ok db') :
    ∃ s', rollbackTo e.1.blockHash ⟨db, s.tree⟩ = .ok () s' ∧
      s'.tree.inner = sm.tree.inner ∧ s'.db = db' := by
  -- The ancestor is the last of the blocks that stay.
  have hpos : below ≠ [] := by
    rintro rfl
    cases hlast
  have hlen : below.length = below.length-1+1 := by
    have := List.length_pos_iff.mpr hpos
    omega
  have hat : below[below.length-1]? = some e := by
    rw [← List.getLast?_eq_getElem?]
    exact hlast
  have hat' : (below ++ above)[below.length-1]? = some e := by
    rw [List.getElem?_append_left (by omega)]
    exact hat
  have hbound := hbelow.chain.bounded e (List.mem_of_getElem? hat)
  have hindex := hbelow.chain.index_eq hat
  have hsmall : below.length-1 < 2^64 := by
    obtain ⟨htip, hle⟩ := hbelow.tip hpos
    have hnext := expectedNextHeight_of_tip htip hle
    have hlt := sm.tree.inner.expectedNextHeight.toNat_lt
    rw [hbelow.chain.next] at hlt
    omega
  have hheight : below.length = (UInt64.ofNat (below.length-1)).toNat+1 := by
    rw [UInt64.toNat_ofNat_of_lt' hsmall]
    exact hlen
  have hstored' : ∀ i e, below[i]? = some e → StoredAt db (UInt64.ofNat i) e := by
    intro i e' he'
    apply hstored i e'
    rw [List.getElem?_append_left (List.getElem?_eq_some_iff.mp he').1]
    exact he'
  let height := UInt64.ofNat (below.length-1)
  have hreload : reloadFromDbToHeight height ⟨db, s.tree⟩ =
      .ok () ⟨db', (s.tree.withInner sm.tree.inner).retainPending height⟩ :=
    (hbelow.reload_ok_iff hheight hstored').mpr ⟨db', hrun, rfl⟩
  have hfound := rollback_height hall hstored hdiffer hat'
  refine ⟨⟨db', ((s.tree.withInner sm.tree.inner).retainPending height).retainPending height⟩,
    ?_, rfl, rfl⟩
  rw [rollbackTo, run_bind_eq_ok_iff]
  refine ⟨_, _, rfl, ?_⟩
  rcases hfound with ⟨block, hfind, hindex'⟩ | ⟨hfind, hsearch⟩
  · simp only [hfind, hindex', run_bind_eq_ok_iff]
    refine ⟨_, _, rfl, _, _, rfl, (), ⟨db', (s.tree.withInner sm.tree.inner).retainPending height⟩,
      ?_, rfl⟩
    exact (mapError_eq_ok_iff _ _ _ _ _).mpr hreload
  · simp only [hfind, hsearch, run_bind_eq_ok_iff]
    refine ⟨_, _, rfl, _, _, rfl, (), ⟨db', (s.tree.withInner sm.tree.inner).retainPending height⟩,
      ?_, rfl⟩
    exact (mapError_eq_ok_iff _ _ _ _ _).mpr hreload

/-- Rolling back to a block of a live chain whose later blocks have left no trace in the NFT
records, and whose earlier ones are settled. -/
theorem rollbackTo_ok {below above : List (Block × TransactionBatch)} {sm s : ChainState}
    (hbelow : LiveInvariant below sm) (hall : LiveInvariant (below ++ above) s) {db : RockDB}
    (hrecords : db.nfts = sm.db.nfts)
    (hstored : ∀ i e, (below ++ above)[i]? = some e → StoredAt db (UInt64.ofNat i) e)
    (hdiffer : HashesDiffer (below ++ above)) {e : Block × TransactionBatch}
    (hlast : below.getLast? = some e) (hsettled : Settled below sm.db) :
    ∃ s', rollbackTo e.1.blockHash ⟨db, s.tree⟩ = .ok () s' ∧
      s'.tree.inner = sm.tree.inner ∧ s'.db.nfts = sm.db.nfts := by
  have hreplay := replayLog_settled hbelow.nfts hsettled
  rw [← nftAt_congr hrecords] at hreplay
  have hview := replayRecords_log_nftAt (nftKeyed_congr hrecords hbelow.keyed) below
  rw [hreplay] at hview
  cases hrun : below.foldlM replayRecords db with
  | error err =>
    rw [hrun] at hview
    cases hview
  | ok db' =>
    rw [hrun] at hview
    obtain ⟨s', hroll, hinner, rfl⟩ := rollbackTo_replayed hbelow hall hstored hdiffer hlast hrun
    exact ⟨s', hroll, hinner, (nfts_eq_of_nftAt (Except.ok.inj hview)).trans hrecords⟩

/-! ### The next block -/

/-- What a block does depends on the account state, the NFT records and the bytes under its batch
key, as long as writes succeed. -/
theorem applyBlock_determined {block : Block} {s t s' : ChainState}
    (hinner : t.tree.inner = s.tree.inner) (hnfts : t.db.nfts = s.db.nfts) (hkeyed : NftKeyed s.db)
    (hbatch : ∀ key, block.batchKey = some key →
      t.db.read .transactionBatch (Text.utf8 key) = s.db.read .transactionBatch (Text.utf8 key))
    (hwrites : t.db.batchProcessAll = .ok ()) (h : applyBlock block s = .ok () s') :
    ∃ t', applyBlock block t = .ok () t' ∧ t'.tree.inner = s'.tree.inner ∧ t'.db.nfts = s'.db.nfts := by
  have hplan : planBlock t.db t.tree.inner block = planBlock s.db s.tree.inner block := by
    have hnext : planNext t.db s.tree.inner block = planNext s.db s.tree.inner block := by
      cases hkey : block.batchKey with
      | none =>
        simp only [planNext, hkey, okOr]
        cases mapErr (failed "Block linkage failed") (validateNextBlockLink s.tree.inner block) <;> rfl
      | some key => simp only [planNext, hkey, okOr, ok_bind, hbatch key hkey]
    rw [planBlock, planBlock, hinner, hnext]
  cases hs : planBlock s.db s.tree.inner block with
  | error e =>
    rw [applyBlock_unplanned hs] at h
    cases h
  | ok plan =>
    rw [hs] at hplan
    cases plan with
    | none =>
      rw [applyBlock_skipped hs] at h
      cases h
      exact ⟨t, applyBlock_skipped hplan, hinner, hnfts⟩
    | some plan =>
      obtain ⟨batch, next, outcome⟩ := plan
      have happlied := dryRun_applied (planBlock_some hs).dryRun
      have hcompact := verifyCompactStateInvariants_of_guard happlied.moves.tip.1 happlied.invariants
      rw [applyBlock_planned hs] at h
      cases hexec : executePlan block batch next outcome.touchedAccounts s with
      | error e s₁ =>
        rw [hexec] at h
        cases h
      | ok u s₁ =>
        rw [hexec] at h
        cases h
        obtain ⟨db₁, hloop, hrecords⟩ := executePlan_nfts hexec
        have hfits := executePlan_fits hexec
        have hgo := (nftLoop_ok_iff block batch hkeyed).mp ⟨db₁, hloop⟩
        have hkeyed' : NftKeyed t.db := nftKeyed_congr hnfts hkeyed
        have hview := nftLoop_liveNfts hkeyed hloop
        have hlive : ∃ db₂, nftLoop block batch t.db = .ok () db₂ := by
          apply (nftLoop_ok_iff block batch hkeyed').mpr
          have hload : ∀ id, loadNftRecord t.db id = loadNftRecord s.db id := by
            intro id
            rw [loadNftRecord, loadNftRecord, hnfts]
          refine ⟨?_, hgo.once, ?_, ?_⟩
          · intro id hid
            rw [hload]
            exact hgo.fresh id hid
          · intro id hid
            rw [hload]
            exact hgo.known id hid
          · intro id hheld
            apply hgo.named id
            unfold Held at hheld ⊢
            rw [hload] at hheld
            exact hheld
        obtain ⟨db₂, hloop'⟩ := hlive
        have hview' := nftLoop_liveNfts hkeyed' hloop'
        rw [nftAt_congr hnfts, hview] at hview'
        obtain ⟨t', hexec'⟩ := executePlan_through hwrites hcompact hloop' hfits
        obtain ⟨db₃, hloop'', hrecords'⟩ := executePlan_nfts hexec'
        rw [hloop'] at hloop''
        cases hloop''
        refine ⟨t', ?_, ?_, ?_⟩
        · rw [applyBlock_planned hplan, hexec']
        · rw [executePlan_ok hexec', executePlan_ok hexec]
          rfl
        · rw [hrecords', hrecords]
          exact nfts_eq_of_nftAt (Except.ok.inj hview').symm

/-- Rolling a live chain back to one of its blocks restores the account state and the NFT records
of that block, and the node then accepts whatever a node accepts that has never seen the later
blocks, with the same outcome: as long as the later blocks left the NFT records as they were, and
the earlier ones are settled. -/
theorem rollback_erases_suffix (below above : List (Block × TransactionBatch)) (sm s : ChainState)
    (hbelow : LiveRun below sm) (habove : LiveSteps sm above s) (e : Block × TransactionBatch)
    (hlast : below.getLast? = some e) (hquiet : s.db.nfts = sm.db.nfts)
    (hsettled : Settled below sm.db) (db : RockDB) (hrecords : db.nfts = s.db.nfts)
    (hstored : ∀ i e, (below ++ above)[i]? = some e → StoredAt db (UInt64.ofNat i) e)
    (hdiffer : HashesDiffer (below ++ above)) :
    ∃ s', rollbackTo e.1.blockHash ⟨db, s.tree⟩ = .ok () s' ∧
      s'.tree.inner = sm.tree.inner ∧ s'.db.nfts = sm.db.nfts ∧
      ∀ (block : Block) (fresh fresh' : ChainState) (freshDb here : RockDB), LiveRun below fresh →
        freshDb.nfts = fresh.db.nfts → here.nfts = s'.db.nfts → here.batchProcessAll = .ok () →
        (∀ key, block.batchKey = some key → here.read .transactionBatch (Text.utf8 key) =
          freshDb.read .transactionBatch (Text.utf8 key)) →
        applyBlock block ⟨freshDb, fresh.tree⟩ = .ok () fresh' →
        ∃ t', applyBlock block ⟨here, s'.tree⟩ = .ok () t' ∧
          t'.tree.inner = fresh'.tree.inner ∧ t'.db.nfts = fresh'.db.nfts := by
  have hinv := hbelow.invariant
  obtain ⟨s', hroll, hinner, hnfts⟩ := rollbackTo_ok hinv (hbelow.append habove).invariant
    (hrecords.trans hquiet) hstored hdiffer hlast hsettled
  refine ⟨s', hroll, hinner, hnfts, ?_⟩
  intro block fresh fresh' freshDb here hfresh hfreshDb hhere hwrites hbatch happly
  -- A chain determines the account state and the records it leads to.
  have hinv' := hfresh.invariant
  have hsameInner : fresh.tree.inner = sm.tree.inner :=
    Except.ok.inj (hinv'.accounts.symm.trans hinv.accounts)
  have hsameNfts : fresh.db.nfts = sm.db.nfts :=
    nfts_eq_of_nftAt (Except.ok.inj (hinv'.nfts.symm.trans hinv.nfts))
  have hinner' : s'.tree.inner = fresh.tree.inner := hinner.trans hsameInner.symm
  have hnfts' : here.nfts = freshDb.nfts := by
    rw [hhere, hnfts, hfreshDb, hsameNfts]
  exact applyBlock_determined (t := ⟨here, s'.tree⟩) (s := ⟨freshDb, fresh.tree⟩) hinner' hnfts'
    (nftKeyed_congr hfreshDb hinv'.keyed) hbatch hwrites happly

theorem LiveSteps.rollback {below above : List (Block × TransactionBatch)} {sm s : ChainState}
    (habove : LiveSteps sm above s) (hbelow : LiveRun below sm) (e : Block × TransactionBatch)
    (hlast : below.getLast? = some e)
    (hstored : ∀ i e, (below ++ above)[i]? = some e → StoredAt s.db (UInt64.ofNat i) e)
    (hdiffer : HashesDiffer (below ++ above)) (db' : RockDB)
    (hreplay : below.foldlM replayRecords s.db = .ok db') :
    ∃ s', rollbackTo e.1.blockHash s = .ok () s' ∧ s'.db = db' := by
  obtain ⟨s', hroll, -, hdb⟩ := rollbackTo_replayed hbelow.invariant (hbelow.append habove).invariant
    hstored hdiffer hlast hreplay
  exact ⟨s', hroll, hdb⟩

theorem LiveSteps.of_acceptsAll {log : List (Block × TransactionBatch)} {s s₁ : ChainState}
    (hsteps : LiveSteps s log s₁) (more : List (Block × TransactionBatch))
    (h : acceptsAll s₁ more = true) : LiveSteps s (log ++ more) (applyAll s₁ more) := by
  induction more generalizing log s₁ with
  | nil =>
    rw [List.append_nil]
    exact hsteps
  | cons e more ih =>
    obtain ⟨s', hcall, hnew, hrest⟩ := acceptsAll_cons h
    have hnext := ih (.step hsteps id rfl hcall hnew) hrest
    have hstore : storeOf (applyBlock e.1 s₁) = s' := congrArg storeOf hcall
    rw [List.append_assoc, List.singleton_append, ← hstore] at hnext
    exact hnext

end Rolling

/-! ### An NFT that stays with its later owner -/

namespace Sample

/-- The node right after the mint, and after some more blocks. -/
def mintedNode [Blake3] : ChainState := applyAll ⟨nftDb, AccountModelTree.withManager⟩ mintLog

def laterNode [Blake3] (more : List (Block × TransactionBatch)) : ChainState :=
  applyAll mintedNode more

def denied : List (Block × TransactionBatch) := [(nftBlock1, nftBatch1)]

def gifts : List (Block × TransactionBatch) := [(nftBlock1, nftBatch1), (nftBlock2, nftBatch2)]

/-- The owner on record. -/
def ownerIn (db : RockDB) : Option String := (nftAt db artwork.nftId.toList).map (·.ownerWallet)

/-- The owner after a replay. -/
def ownerAfter (out : Fallible RockDB) : Option String := out.toOption.bind ownerIn

theorem mintLog_valid : ∀ e ∈ mintLog, @Block.validate Blake3.reference e.1 = .ok () := by
  intro e he
  rw [List.mem_singleton.mp he]
  exact (signed_nfts nftBlock0 (by simp)).valid

theorem signed_gifts : ∀ e ∈ gifts, Signed e.1 :=
  fun e he => signed_nftLog e (List.mem_cons_of_mem _ he)

theorem signed_denied : ∀ e ∈ denied, Signed e.1 := by
  intro e he
  rw [List.mem_singleton.mp he]
  exact signed_nfts nftBlock1 (by simp)

theorem mintedNode_owner : ownerIn (@mintedNode Blake3.reference).db = some miner := by
  unfold mintedNode
  rw [@applyAll_of_valid Blake3.reference _ mintLog_valid]
  decide +kernel

theorem laterNode_accepted : @acceptsAll Blake3.reference (@mintedNode Blake3.reference) gifts = true ∧
    @acceptsAll Blake3.reference (@mintedNode Blake3.reference) denied = true := by
  unfold mintedNode
  rw [@applyAll_of_valid Blake3.reference _ mintLog_valid]
  exact ⟨acceptsAll_of_signed signed_gifts (by decide +kernel),
    acceptsAll_of_signed signed_denied (by decide +kernel)⟩

/-- A replay of the mint over the later records leaves the NFT with its later owner. -/
theorem replayRecords_gifts :
    ownerAfter (mintLog.foldlM replayRecords (@laterNode Blake3.reference gifts).db) =
      some otherMiner := by
  unfold laterNode mintedNode
  rw [@applyAll_of_valid Blake3.reference _ mintLog_valid,
    @applyAll_of_valid Blake3.reference _ fun e he => (signed_gifts e he).valid]
  decide +kernel

/-- The denied transfer leaves the records as they were. -/
theorem laterNode_records :
    (@laterNode Blake3.reference denied).db.nfts = (@mintedNode Blake3.reference).db.nfts := by
  unfold laterNode mintedNode
  rw [@applyAll_of_valid Blake3.reference _ mintLog_valid,
    @applyAll_of_valid Blake3.reference _ fun e he => (signed_denied e he).valid]
  apply ExtTreeMap.toList_inj.mp
  decide +kernel

theorem mintedNode_run : @LiveRun Blake3.reference mintLog (@mintedNode Blake3.reference) :=
  @LiveRun.of_stored Blake3.reference nftDb rfl _ _ acceptsAll_mintLog

theorem laterNode_steps [Blake3] (more : List (Block × TransactionBatch))
    (h : acceptsAll mintedNode more = true) : LiveSteps mintedNode more (laterNode more) :=
  (LiveSteps.none : LiveSteps mintedNode [] mintedNode).of_acceptsAll more h

theorem laterNode_stored {more rest : List (Block × TransactionBatch)}
    (hmore : mintLog ++ more ++ rest = nftLog) (i : ℕ) (e : Block × TransactionBatch)
    (he : (mintLog ++ more)[i]? = some e) :
    StoredAt (@laterNode Blake3.reference more).db (UInt64.ofNat i) e := by
  have hstart : StoredAt (⟨nftDb, AccountModelTree.withManager⟩ : ChainState).db (UInt64.ofNat i) e := by
    apply nftDb_stored i e
    rw [← hmore, List.getElem?_append_left (List.getElem?_eq_some_iff.mp he).1]
    exact he
  exact @StoredAt.applyAll Blake3.reference _ _ _
    (@StoredAt.applyAll Blake3.reference _ _ _ hstart mintLog) more

theorem mintLog_settled (final : RockDB) : Settled mintLog final := by
  intro pre e post records hlog _ tx htx
  have hmem : e ∈ mintLog := by
    rw [hlog]
    exact List.mem_append_right _ List.mem_cons_self
  rw [List.mem_singleton.mp hmem] at htx
  cases htx

theorem hashesDiffer_later :
    HashesDiffer (mintLog ++ denied) ∧ HashesDiffer (mintLog ++ gifts) := by
  unfold HashesDiffer
  decide +kernel

theorem ownerAfter_eq_some {out : Fallible RockDB} {owner : String} (h : ownerAfter out = some owner) :
    ∃ db', out = .ok db' ∧ ownerIn db' = some owner := by
  cases out with
  | error e => cases h
  | ok db' => exact ⟨db', rfl, h⟩

end Sample

theorem rollback_erases_denied_transfer :
    @LiveRun Blake3.reference Sample.mintLog (@Sample.mintedNode Blake3.reference) ∧
    @LiveSteps Blake3.reference (@Sample.mintedNode Blake3.reference) Sample.denied
      (@Sample.laterNode Blake3.reference Sample.denied) ∧
    ∃ s', @rollbackTo Blake3.reference Sample.nftBlock0.blockHash
        (@Sample.laterNode Blake3.reference Sample.denied) = .ok () s' ∧
      s'.tree.inner = (@Sample.mintedNode Blake3.reference).tree.inner ∧
      s'.db.nfts = (@Sample.mintedNode Blake3.reference).db.nfts := by
  have hsteps := @Sample.laterNode_steps Blake3.reference Sample.denied Sample.laterNode_accepted.2
  have hrecords := Sample.laterNode_records
  have hrolls : ∀ node, @LiveSteps Blake3.reference (@Sample.mintedNode Blake3.reference) Sample.denied
      node → node.db.nfts = (@Sample.mintedNode Blake3.reference).db.nfts →
      (∀ i e, (Sample.mintLog ++ Sample.denied)[i]? = some e → StoredAt node.db (UInt64.ofNat i) e) →
      ∃ s', @rollbackTo Blake3.reference Sample.nftBlock0.blockHash node = .ok () s' ∧
        s'.tree.inner = (@Sample.mintedNode Blake3.reference).tree.inner ∧
        s'.db.nfts = (@Sample.mintedNode Blake3.reference).db.nfts := by
    intro node hsteps hrecords hstored
    obtain ⟨s', hroll, hinner, hnfts, -⟩ := @rollback_erases_suffix Blake3.reference Sample.mintLog
      Sample.denied _ node Sample.mintedNode_run hsteps (Sample.nftBlock0, Sample.nftBatch0) rfl hrecords
      (Sample.mintLog_settled _) node.db rfl hstored Sample.hashesDiffer_later.1
    exact ⟨s', hroll, hinner, hnfts⟩
  have hstored := @Sample.laterNode_stored Sample.denied [(Sample.nftBlock2, Sample.nftBatch2)] rfl
  exact ⟨Sample.mintedNode_run, hsteps, hrolls _ hsteps hrecords hstored⟩

/-- Two blocks later the NFT has another owner, and a rollback to the block that minted it leaves
it with him. -/
theorem rollback_keeps_later_owner :
    @LiveRun Blake3.reference Sample.mintLog (@Sample.mintedNode Blake3.reference) ∧
    @LiveSteps Blake3.reference (@Sample.mintedNode Blake3.reference) Sample.gifts
      (@Sample.laterNode Blake3.reference Sample.gifts) ∧
    ∃ s', @rollbackTo Blake3.reference Sample.nftBlock0.blockHash
        (@Sample.laterNode Blake3.reference Sample.gifts) = .ok () s' ∧
      s'.db.nfts ≠ (@Sample.mintedNode Blake3.reference).db.nfts := by
  have hsteps := @Sample.laterNode_steps Blake3.reference Sample.gifts Sample.laterNode_accepted.1
  obtain ⟨db', hreplay, howner⟩ := Sample.ownerAfter_eq_some Sample.replayRecords_gifts
  obtain ⟨s', hroll, rfl⟩ := @LiveSteps.rollback Blake3.reference Sample.mintLog Sample.gifts _ _
    hsteps Sample.mintedNode_run (Sample.nftBlock0, Sample.nftBatch0) rfl
    (@Sample.laterNode_stored Sample.gifts [] rfl) Sample.hashesDiffer_later.2 _ hreplay
  refine ⟨Sample.mintedNode_run, hsteps, s', hroll, ?_⟩
  intro heq
  have hbefore := Sample.mintedNode_owner
  rw [Sample.ownerIn, nftAt, ← heq, ← nftAt, ← Sample.ownerIn, howner] at hbefore
  exact absurd hbefore (by decide +kernel)

end Remzar
