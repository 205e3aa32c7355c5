import Mathlib
import Remzar.BalanceFlow

/-! A batch in any order. What the guard checks before it runs a batch does not depend on the order
of the transactions, and is all that a run needs: every order runs to its end, and to the same
state. -/
namespace Remzar
open Std Fallible Checked Ledger AccountGuard BlockchainValidation

section
variable [Blake3] {kinds order : List TxKind} {batch : TransactionBatch}

/-! ### The structural scan -/

/-- A transaction that the scan lets through where it repeats nothing. -/
def TxKind.Scanned : TxKind → Prop
  | .transfer tx => AccountGuard.validateTransfer tx = .ok () ∧ tx.validateStructural = .ok ()
  | .reward rew => validateReward rew = .ok ()
  | .registerNode reg => validateAccountKeyString (normalizeWalletBytes reg.walletAddress.toList)
      "RegisterNode wallet" = .ok ()
  | .nftMint _ => True
  | .nftTransfer _ => True

theorem Transaction.id_ok_iff (tx : Transaction) (id : String) :
    tx.id = .ok id ↔ tx.validateStructural = .ok () ∧ id = tx.idText := by
  constructor
  · intro h
    have hvalid : tx.validateStructural = .ok () := by
      simp only [Transaction.id, Transaction.serialize, bind_eq_ok_iff] at h
      obtain ⟨_, ⟨_, hvalid, -⟩, -⟩ := h
      exact hvalid
    rw [Transaction.id_of_valid hvalid] at h
    exact ⟨hvalid, (Except.ok.inj h).symm⟩
  · rintro ⟨hvalid, rfl⟩
    exact Transaction.id_of_valid hvalid

/-- The scan goes through exactly where every transaction does by itself, and no transfer comes
twice. -/
theorem foldlM_validateKind_iff (kinds : List TxKind) (acc : List String × ℕ) :
    (∃ acc', kinds.foldlM validateKind acc = .ok acc') ↔ (∀ kind ∈ kinds, kind.Scanned) ∧
      ((transfers kinds).map Transaction.idText).Nodup ∧
      ∀ tx ∈ transfers kinds, tx.idText ∉ acc.1 := by
  induction kinds generalizing acc with
  | nil => exact iff_of_true ⟨acc, rfl⟩ ⟨fun _ h => absurd h List.not_mem_nil, List.nodup_nil,
      fun _ h => absurd h List.not_mem_nil⟩
  | cons kind kinds ih =>
    have hskip {acc' : List String × ℕ} (hlist : acc'.1 = acc.1)
        (htransfers : transfers (kind :: kinds) = transfers kinds)
        (hkind : ∀ next, validateKind acc kind = .ok next ↔ kind.Scanned ∧ next = acc') :
        (∃ last, (kind :: kinds).foldlM validateKind acc = .ok last) ↔
          (∀ k ∈ kind :: kinds, k.Scanned) ∧
          ((transfers (kind :: kinds)).map Transaction.idText).Nodup ∧
          ∀ tx ∈ transfers (kind :: kinds), tx.idText ∉ acc.1 := by
      rw [htransfers, List.forall_mem_cons, and_assoc, ← hlist, ← ih acc']
      simp only [List.foldlM_cons, bind_eq_ok_iff, hkind]
      grind
    cases kind with
    | transfer tx =>
      have hkind (next : List String × ℕ) : validateKind acc (.transfer tx) = .ok next ↔
          (TxKind.transfer tx).Scanned ∧ tx.idText ∉ acc.1 ∧ next = (tx.idText :: acc.1, acc.2) := by
        simp only [validateKind, bind_eq_ok_iff, Transaction.id_ok_iff, rejectIf_eq_ok_iff,
          pure_eq_ok_iff, TxKind.Scanned]
        grind
      have hnext := ih (tx.idText :: acc.1, acc.2)
      change _ ↔ _ ∧ (tx.idText :: (transfers kinds).map Transaction.idText).Nodup ∧
        ∀ tx' ∈ tx :: transfers kinds, tx'.idText ∉ acc.1
      simp only [List.foldlM_cons, bind_eq_ok_iff, hkind, List.nodup_cons, List.mem_map,
        List.mem_cons, not_or] at hnext ⊢
      grind
    | reward rew =>
      refine @hskip (acc.1, acc.2+1) rfl rfl fun next => ?_
      simp only [validateKind, bind_eq_ok_iff, pure_eq_ok_iff, TxKind.Scanned]
      grind
    | registerNode reg =>
      refine @hskip acc rfl rfl fun next => ?_
      simp only [validateKind, bind_eq_ok_iff, pure_eq_ok_iff, TxKind.Scanned]
      grind
    | nftMint tx =>
      refine @hskip acc rfl rfl fun next => ?_
      simp only [validateKind, TxKind.Scanned, true_and, Except.ok.injEq, eq_comm]
    | nftTransfer tx =>
      refine @hskip acc rfl rfl fun next => ?_
      simp only [validateKind, TxKind.Scanned, true_and, Except.ok.injEq, eq_comm]

omit [Blake3] in
theorem transfers_perm (h : order.Perm kinds) : (transfers order).Perm (transfers kinds) :=
  h.filterMap _

/-- The scan does not depend on the order. -/
theorem foldlM_validateKind_perm (h : order.Perm kinds) :
    (∃ acc, kinds.foldlM validateKind ([], 0) = .ok acc) →
      ∃ acc, order.foldlM validateKind ([], 0) = .ok acc := by
  rw [foldlM_validateKind_iff, foldlM_validateKind_iff]
  rintro ⟨hscanned, hnodup, -⟩
  refine ⟨fun kind hkind => hscanned kind (h.mem_iff.mp hkind), ?_, fun _ _ => List.not_mem_nil⟩
  exact ((transfers_perm h).map _).nodup_iff.mpr hnodup

omit [Blake3] in
theorem serializedLen_perm (batch : TransactionBatch) (h : order.Perm batch.transactions) :
    ({ batch with transactions := order } : TransactionBatch).serializedLen = batch.serializedLen := by
  have hflat : (order.flatMap TxKind.codec.enc).length =
      (batch.transactions.flatMap TxKind.codec.enc).length := (h.flatMap_right _).length_eq
  have hlist : ((Postcard.vec TxKind.codec).enc order).length =
      ((Postcard.vec TxKind.codec).enc batch.transactions).length := by
    change (Postcard.usize.enc order.length ++ order.flatMap TxKind.codec.enc).length =
      (Postcard.usize.enc batch.transactions.length ++ batch.transactions.flatMap TxKind.codec.enc).length
    rw [List.length_append, List.length_append, hflat, h.length_eq]
  change (Postcard.u64.enc batch.index ++ (Postcard.u64.enc batch.timestamp ++
      ((Postcard.vec TxKind.codec).enc order ++ _))).length =
    (Postcard.u64.enc batch.index ++ (Postcard.u64.enc batch.timestamp ++
      ((Postcard.vec TxKind.codec).enc batch.transactions ++ _))).length
  simp only [List.length_append, hlist]

/-- Nor does the whole check of the structure, and replay asks for less than live consensus. -/
theorem validateBatchStructure_perm (h : order.Perm batch.transactions)
    (hbatch : validateBatchStructure batch = .ok ()) (allowDuplicateRewardInBatch : Bool) :
    validateBatchStructureWithRewardPolicy { batch with transactions := order }
      allowDuplicateRewardInBatch = .ok () := by
  have hcount := validateBatchStructure_rewardCount batch hbatch
  simp only [validateBatchStructure, validateBatchStructureWithRewardPolicy, validateBatchPayloadSize,
    bind_eq_ok_iff, rejectIf_eq_ok_iff] at hbatch ⊢
  obtain ⟨_, hsize, _, hlength, acc, hscan, -⟩ := hbatch
  obtain ⟨acc', hscan'⟩ := foldlM_validateKind_perm h ⟨acc, hscan⟩
  refine ⟨(), ?_, (), ?_, acc', hscan', ?_⟩
  · rw [serializedLen_perm batch h]
    exact hsize
  · rw [h.length_eq]
    exact hlength
  · have hrewards := foldlM_validateKind_rewardCount _ _ _ hscan'
    rw [h.countP_eq] at hrewards
    dsimp only at hrewards
    rintro ⟨-, hmany⟩
    omega

/-! ### The run -/

omit [Blake3] in
/-- The invariants of a state, and a covered list: the state can run it. -/
theorem solvent_of_covered {s : InnerTree} {expected : Option (UInt64 × Hash × Hash)}
    (hs : verifyStateInvariants s expected = .ok ())
    (hnamed : ∀ kind ∈ kinds, ∀ account ∈ kind.accounts, KeyOk account)
    (hcovered : ∀ account, spent account kinds ≤ (amount s.balances account).toNat)
    (hcap : s.totalIssuedMicro.toNat + (kinds.map TxKind.rewardAmount).sum ≤ maxSupply.toNat) :
    Solvent s kinds := by
  have hsupply := verifyStateInvariants_supply s expected hs
  simp only [verifyStateInvariants, bind_eq_ok_iff] at hs
  obtain ⟨-, -, _, haccounts, -⟩ := hs
  have hsolvent := solvent_of_verified ((forM_eq_ok_iff _ _).mp haccounts) hsupply
  exact ⟨hsolvent.sum, hsolvent.rewards, hcap, hcovered, hnamed, hsolvent.keys⟩

omit [Blake3] in
theorem TxKind.Scanned.named {kind : TxKind} (h : kind.Scanned) :
    ∀ account ∈ kind.accounts, KeyOk account := by
  intro account hmem
  cases kind with
  | transfer tx =>
    obtain ⟨htransfer, -⟩ := h
    simp only [AccountGuard.validateTransfer, bind_eq_ok_iff] at htransfer
    obtain ⟨-, -, _, hsender, _, hreceiver, -⟩ := htransfer
    simp only [TxKind.accounts, List.mem_cons, List.not_mem_nil, or_false] at hmem
    rcases hmem with rfl | rfl
    · exact (validateAccountKeyString_ok_iff _ _).mp hsender
    · exact (validateAccountKeyString_ok_iff _ _).mp hreceiver
  | reward rew =>
    change validateReward rew = .ok () at h
    simp only [validateReward, bind_eq_ok_iff] at h
    obtain ⟨-, -, _, hreceiver, -⟩ := h
    rw [List.mem_singleton.mp hmem]
    exact (validateAccountKeyString_ok_iff _ _).mp hreceiver
  | registerNode reg =>
    rw [List.mem_singleton.mp hmem]
    exact (validateAccountKeyString_ok_iff _ _).mp h
  | nftMint tx => cases hmem
  | nftTransfer tx => cases hmem

omit [Blake3] in
/-- A run changes balances and counters only, so what is checked of the tip and the recent blocks
still holds. -/
theorem verifyStateInvariants_of_solvent {s next : InnerTree} {w : ℕ}
    (hs : verifyStateInvariants s none = .ok ()) (hmoves : Moves s next w) (hnext : Solvent next []) :
    verifyStateInvariants next none = .ok () := by
  obtain ⟨haccounts, hsupply⟩ := verified_of_solvent hnext
  simp only [verifyStateInvariants, bind_eq_ok_iff] at hs ⊢
  obtain ⟨_, hshape, -, -, -, -, _, hcache, _, hbounded, -⟩ := hs
  refine ⟨(), ?_, (), (forM_eq_ok_iff _ _).mpr haccounts, (), hsupply, (), ?_, (), ?_, trivial⟩
  · rw [hmoves.rest]
    exact hshape
  · rw [hmoves.rest]
    exact hcache
  · rw [hmoves.rest]
    exact hbounded

/-- One order of a covered batch. -/
theorem applyBatchToState_covered {s : InnerTree} {ctx : ApplyContext}
    (hs : verifyStateInvariants s none = .ok ()) (hctx : validateApplyContext ctx = .ok ())
    (hheight : batch.index = ctx.blockHeight)
    (hstruct : validateBatchStructureWithRewardPolicy batch ctx.allowDuplicateRewardInBatch = .ok ())
    (hsolvent : Solvent s batch.transactions) :
    ∃ next outcome, applyBatchToState s batch ctx = .ok (next, outcome) := by
  obtain ⟨spend, hspend, hcheck⟩ := (spend_ok_iff _ _).mpr hsolvent.funded
  obtain ⟨next, touched, hrun, hnext, hsize⟩ := hsolvent.run ∅
  have hmoves := foldlM_applyTxkindToState_moves _ _ _ hrun
  have hinvariants := verifyStateInvariants_of_solvent hs hmoves hnext
  obtain ⟨supply, hsupply⟩ : ∃ supply, sumBalancesChecked next.balances = .ok supply := by
    have hverified := verifyStateInvariants_supply next none hinvariants
    simp only [verifySupply, bind_eq_ok_iff] at hverified
    obtain ⟨supply, hsupply, -⟩ := hverified
    exact ⟨supply, hsupply⟩
  have hlength : batch.transactions.length ≤ maxTxsPerBlock := by
    simp only [validateBatchStructureWithRewardPolicy, bind_eq_ok_iff, rejectIf_eq_ok_iff] at hstruct
    obtain ⟨-, -, _, hlength, -⟩ := hstruct
    exact Nat.not_lt.mp hlength
  have htouched : verifyTouchedAccountBound batch touched = .ok () := by
    apply rejectIf_of_not
    have hempty : (∅ : Touched).size = 0 := rfl
    have hfour : maxTouchedAccountsPerTx = 4 := rfl
    rw [hempty] at hsize
    rw [hfour]
    omega
  refine ⟨next, ⟨touched, supply, fingerprintHex next ctx touched supply⟩, ?_⟩
  rw [applyBatchToState, hctx, ok_bind, hstruct, ok_bind, rejectIf_of_not _ (not_not.mpr hheight),
    ok_bind, hspend, ok_bind, hcheck, ok_bind, hrun]
  change (verifyTouchedAccountBound batch touched >>= _) = _
  rw [htouched, ok_bind, hinvariants, ok_bind, hsupply]
  rfl

/-- Two orders of one batch that go through lead to one state, with one report. -/
theorem applyBatchToState_perm {s next next' : InnerTree} {ctx : ApplyContext}
    {outcome outcome' : BatchApplyOutcome} (h : order.Perm batch.transactions)
    (hrun : applyBatchToState s batch ctx = .ok (next, outcome))
    (hrun' : applyBatchToState s { batch with transactions := order } ctx = .ok (next', outcome')) :
    (next', outcome') = (next, outcome) := by
  have happlied := applyBatchToState_applied _ _ _ _ _ hrun
  have happlied' := applyBatchToState_applied _ _ _ _ _ hrun'
  obtain ⟨hflow, htouched⟩ := foldlM_applyTxkindToState_flow happlied.run
  obtain ⟨hflow', htouched'⟩ := foldlM_applyTxkindToState_flow happlied'.run
  have hmoves := happlied.moves
  have hmoves' := happlied'.moves
  have hamount : ({ batch with transactions := order } : TransactionBatch).rewardAmount =
      batch.rewardAmount := (h.map _).sum_nat
  have hbalances : next'.balances = next.balances := hflow'.unique hflow h
  have hissued : next'.totalIssuedMicro = next.totalIssuedMicro := by
    apply UInt64.toNat_inj.mp
    rw [hmoves'.issued, hmoves.issued, hamount]
  have hrewards : next'.rewardsIssuedMicro = next.rewardsIssuedMicro := by
    apply UInt64.toNat_inj.mp
    rw [hmoves'.rewards, hmoves.rewards, hamount]
  have hnext : next' = next := by
    rw [hmoves'.rest, hbalances, hissued, hrewards]
    exact hmoves.rest.symm
  have hset : outcome'.touchedAccounts = outcome.touchedAccounts := by
    apply ExtTreeSet.ext_mem
    intro account
    rw [htouched', htouched]
    simp only [h.mem_iff]
  -- the supply and the fingerprint are read off the state
  simp only [applyBatchToState, bind_eq_ok_iff, pure_eq_ok_iff] at hrun hrun'
  obtain ⟨-, -, -, -, -, -, -, -, -, -, ⟨mid, touched⟩, -, -, -, -, -, supply, hsupply, heq⟩ := hrun
  obtain ⟨-, -, -, -, -, -, -, -, -, -, ⟨mid', touched'⟩, -, -, -, -, -, supply', hsupply', heq'⟩ := hrun'
  cases heq
  cases heq'
  change touched' = touched at hset
  subst hnext hset
  obtain rfl := Except.ok.inj (hsupply'.symm.trans hsupply)
  rfl

/-- A batch that passes the structural check, whose senders are covered and whose reward fits under
the cap, goes through in every order, and always to the same state. -/
theorem covered_batch_any_order (s : InnerTree) (batch : TransactionBatch) (ctx : ApplyContext)
    (hs : verifyStateInvariants s none = .ok ()) (hbatch : validateBatchStructure batch = .ok ())
    (hctx : validateApplyContext ctx = .ok ()) (hheight : batch.index = ctx.blockHeight)
    (hcovered : ∀ account, spent account batch.transactions ≤ (amount s.balances account).toNat)
    (hcap : s.totalIssuedMicro.toNat + batch.rewardAmount ≤ maxSupply.toNat) :
    ∃ next outcome, ∀ order : List TxKind, order.Perm batch.transactions →
      applyBatchToState s { batch with transactions := order } ctx = .ok (next, outcome) := by
  have hrun {order : List TxKind} (h : order.Perm batch.transactions) : ∃ next outcome,
      applyBatchToState s { batch with transactions := order } ctx = .ok (next, outcome) := by
    have hscanned : ∀ kind ∈ batch.transactions, kind.Scanned := by
      simp only [validateBatchStructure, validateBatchStructureWithRewardPolicy,
        bind_eq_ok_iff] at hbatch
      obtain ⟨-, -, -, -, acc, hscan, -⟩ := hbatch
      exact ((foldlM_validateKind_iff _ _).mp ⟨acc, hscan⟩).1
    refine @applyBatchToState_covered _ { batch with transactions := order } s ctx hs hctx hheight
      (validateBatchStructure_perm h hbatch _) ?_
    refine solvent_of_covered hs ?_ (fun account => ?_) ?_
    · exact fun kind hkind => (hscanned kind (h.mem_iff.mp hkind)).named
    · calc spent account order = spent account batch.transactions := (h.map _).sum_nat
        _ ≤ (amount s.balances account).toNat := hcovered account
    · calc s.totalIssuedMicro.toNat + (order.map TxKind.rewardAmount).sum
          = s.totalIssuedMicro.toNat + batch.rewardAmount :=
            congrArg _ (h.map TxKind.rewardAmount).sum_nat
        _ ≤ maxSupply.toNat := hcap
  obtain ⟨next, outcome, hfirst⟩ := hrun (List.Perm.refl batch.transactions)
  refine ⟨next, outcome, fun order h => ?_⟩
  obtain ⟨next', outcome', hother⟩ := hrun h
  rw [hother, applyBatchToState_perm h hfirst hother]

end

namespace Sample

/-- One account, with what was issued so far. -/
def paidOut : InnerTree := { InnerTree.empty with
  balances := (∅ : Balances).insert miner 2000000000
  totalIssuedMicro := 2000000000
  rewardsIssuedMicro := 2000000000 }

/-- A transfer and a reward to its sender. -/
def mixedBatch : TransactionBatch := ⟨1, 1700000030, [.transfer (payment 2000000000), .reward payout], none⟩

theorem paidOut_covers (account : String) :
    spent account mixedBatch.transactions ≤ (amount paidOut.balances account).toNat := by
  change (if normalizeWalletBytes (wallet 97).toList = account then (2000000000 : UInt64).toNat else 0) +
    (0+0) ≤ (amount ((∅ : Balances).insert miner 2000000000) account).toNat
  have hminer : normalizeWalletBytes (wallet 97).toList = miner := by decide +kernel
  rw [hminer, amount_insert]
  split
  · exact Nat.le_refl _
  · exact Nat.zero_le _

end Sample

theorem covered_batch_any_order_mixed :
    ∃ next outcome, ∀ order : List TxKind, order.Perm Sample.mixedBatch.transactions →
      @applyBatchToState Blake3.reference Sample.paidOut { Sample.mixedBatch with transactions := order }
        ⟨.live, 1, Sample.hash1, Sample.hash0, false⟩ = .ok (next, outcome) :=
  @covered_batch_any_order Blake3.reference Sample.paidOut Sample.mixedBatch
    ⟨.live, 1, Sample.hash1, Sample.hash0, false⟩ (by decide +kernel) (by decide +kernel) (by decide +kernel)
    rfl Sample.paidOut_covers (by decide)

end Remzar
