import Mathlib
import Remzar.AccountGuard

/-! What a successful run of the guard guarantees about the state it returns. -/
namespace Remzar
open Std Fallible Checked Ledger AccountGuard

/-- The state moved by `w` issued units and nothing else but balances changed. -/
structure Moves (s s' : InnerTree) (w : ℕ) : Prop where
  balances : total s'.balances = total s.balances + w
  issued : s'.totalIssuedMicro.toNat = s.totalIssuedMicro.toNat + w
  rewards : s'.rewardsIssuedMicro.toNat = s.rewardsIssuedMicro.toNat + w
  rest : s' = { s with
    balances := s'.balances
    totalIssuedMicro := s'.totalIssuedMicro
    rewardsIssuedMicro := s'.rewardsIssuedMicro }

theorem Moves.refl (s : InnerTree) : Moves s s 0 := ⟨rfl, rfl, rfl, rfl⟩

theorem Moves.trans {s₁ s₂ s₃ : InnerTree} {w₁ w₂ : ℕ} (h₁ : Moves s₁ s₂ w₁)
    (h₂ : Moves s₂ s₃ w₂) : Moves s₁ s₃ (w₁+w₂) := by
  refine ⟨?_, ?_, ?_, ?_⟩
  · rw [h₂.balances, h₁.balances, Nat.add_assoc]
  · rw [h₂.issued, h₁.issued, Nat.add_assoc]
  · rw [h₂.rewards, h₁.rewards, Nat.add_assoc]
  · have hrest := h₂.rest
    rw [h₁.rest] at hrest
    exact hrest

theorem debit_total (m m' : Balances) (sender : String) (v : UInt64)
    (h : debit m sender v = .ok m') : total m' + v.toNat = total m := by
  simp only [debit, bind_eq_ok_iff, okOr_eq_ok_iff, pure_eq_ok_iff] at h
  obtain ⟨left, hleft, rfl⟩ := h
  have hsub := (checkedSub_eq_some_iff _ _ _).mp hleft
  have hins := total_insert m sender left
  omega

theorem credit_total (m m' : Balances) (receiver : String) (v : UInt64) (o c : String)
    (h : credit m receiver v o c = .ok m') : total m' = total m + v.toNat := by
  simp only [credit, bind_eq_ok_iff, okOr_eq_ok_iff, pure_eq_ok_iff] at h
  obtain ⟨sum, hsum, _, -, rfl⟩ := h
  have hadd := (checkedAdd_eq_some_iff _ _ _).mp hsum
  have hins := total_insert m receiver sum
  omega

-- Sender and receiver may be one account here: the credit reads the debited ledger.
theorem applyTransfer_moves (s s' : InnerTree) (tx : Transaction) (t t' : Touched)
    (h : applyTransfer s tx t = .ok (s', t')) : Moves s s' 0 := by
  simp only [applyTransfer, bind_eq_ok_iff, pure_eq_ok_iff, Prod.mk.injEq] at h
  obtain ⟨-, -, -, -, debited, hd, credited, hc, rfl, -⟩ := h
  have hdebit := debit_total _ _ _ _ hd
  have hcredit := credit_total _ _ _ _ _ _ hc
  refine ⟨?_, rfl, rfl, rfl⟩
  change total credited = total s.balances + 0
  omega

theorem applyReward_moves (s s' : InnerTree) (rew : RewardTx) (t t' : Touched)
    (h : applyReward s rew t = .ok (s', t')) : Moves s s' rew.amount.toNat := by
  simp only [applyReward, bind_eq_ok_iff, okOr_eq_ok_iff, pure_eq_ok_iff, Prod.mk.injEq] at h
  obtain ⟨-, -, rewards, hr, issued, hi, -, -, credited, hc, rfl, -⟩ := h
  have hrewards := (checkedAdd_eq_some_iff _ _ _).mp hr
  have hissued := (checkedAdd_eq_some_iff _ _ _).mp hi
  exact ⟨credit_total _ _ _ _ _ _ hc, hissued.symm, hrewards.symm, rfl⟩

theorem applyTxkindToState_moves (acc acc' : InnerTree × Touched) (kind : TxKind)
    (h : applyTxkindToState acc kind = .ok acc') : Moves acc.1 acc'.1 kind.rewardAmount := by
  cases kind with
  | transfer tx => exact applyTransfer_moves acc.1 acc'.1 tx acc.2 acc'.2 h
  | reward rew => exact applyReward_moves acc.1 acc'.1 rew acc.2 acc'.2 h
  | registerNode reg =>
    simp only [applyTxkindToState, bind_eq_ok_iff, pure_eq_ok_iff] at h
    obtain ⟨-, -, rfl⟩ := h
    exact Moves.refl acc.1
  | nftMint tx =>
    cases h
    exact Moves.refl acc.1
  | nftTransfer tx =>
    cases h
    exact Moves.refl acc.1

theorem foldlM_applyTxkindToState_moves (kinds : List TxKind) (acc acc' : InnerTree × Touched)
    (h : kinds.foldlM applyTxkindToState acc = .ok acc') :
    Moves acc.1 acc'.1 (kinds.map TxKind.rewardAmount).sum := by
  induction kinds generalizing acc with
  | nil =>
    rw [List.foldlM_nil, pure_eq_ok_iff] at h
    exact h ▸ Moves.refl acc.1
  | cons kind kinds ih =>
    rw [List.foldlM_cons, bind_eq_ok_iff] at h
    obtain ⟨mid, hmid, hrest⟩ := h
    rw [List.map_cons, List.sum_cons]
    exact (applyTxkindToState_moves acc mid kind hmid).trans (ih mid hrest)

/-! ### Batch structure -/

def TxKind.isReward : TxKind → Bool
  | .reward _ => true
  | _ => false

theorem validateKind_rewardCount [Blake3] (acc acc' : List String × ℕ) (kind : TxKind)
    (h : validateKind acc kind = .ok acc') :
    acc'.2 = acc.2 + if kind.isReward then 1 else 0 := by
  cases kind with
  | transfer tx =>
    simp only [validateKind, bind_eq_ok_iff, pure_eq_ok_iff] at h
    obtain ⟨-, -, id, -, -, -, rfl⟩ := h
    rfl
  | reward rew =>
    simp only [validateKind, bind_eq_ok_iff, pure_eq_ok_iff] at h
    obtain ⟨-, -, rfl⟩ := h
    rfl
  | registerNode reg =>
    simp only [validateKind, bind_eq_ok_iff, pure_eq_ok_iff] at h
    obtain ⟨-, -, rfl⟩ := h
    rfl
  | nftMint tx =>
    cases h
    rfl
  | nftTransfer tx =>
    cases h
    rfl

theorem foldlM_validateKind_rewardCount [Blake3] (kinds : List TxKind)
    (acc acc' : List String × ℕ) (h : kinds.foldlM validateKind acc = .ok acc') :
    acc'.2 = acc.2 + kinds.countP TxKind.isReward := by
  induction kinds generalizing acc with
  | nil =>
    rw [List.foldlM_nil, pure_eq_ok_iff] at h
    rw [h]
    rfl
  | cons kind kinds ih =>
    rw [List.foldlM_cons, bind_eq_ok_iff] at h
    obtain ⟨mid, hmid, hrest⟩ := h
    rw [ih mid hrest, validateKind_rewardCount acc mid kind hmid, List.countP_cons]
    omega

theorem validateBatchStructure_rewardCount [Blake3] (batch : TransactionBatch)
    (h : validateBatchStructureWithRewardPolicy batch false = .ok ()) :
    batch.transactions.countP TxKind.isReward ≤ 1 := by
  simp only [validateBatchStructureWithRewardPolicy, bind_eq_ok_iff, rejectIf_eq_ok_iff] at h
  obtain ⟨-, -, -, -, acc, hacc, hcount⟩ := h
  have hsum := foldlM_validateKind_rewardCount _ _ _ hacc
  simp only [Bool.not_false, true_and] at hcount
  omega

/-- Everything a successful application of a batch has checked and computed. -/
structure BatchApplied [Blake3] (s : InnerTree) (batch : TransactionBatch) (ctx : ApplyContext)
    (next : InnerTree) (outcome : BatchApplyOutcome) : Prop where
  context : validateApplyContext ctx = .ok ()
  structural : validateBatchStructureWithRewardPolicy batch ctx.allowDuplicateRewardInBatch = .ok ()
  height : batch.index = ctx.blockHeight
  spend : ∃ spend, batch.transactions.foldlM addSpend ∅ = .ok spend ∧
    checkSpend s.balances spend = .ok ()
  run : batch.transactions.foldlM applyTxkindToState (s, ∅) = .ok (next, outcome.touchedAccounts)
  touched : verifyTouchedAccountBound batch outcome.touchedAccounts = .ok ()
  invariants : verifyStateInvariants next none = .ok ()

theorem applyBatchToState_applied [Blake3] (s next : InnerTree) (batch : TransactionBatch)
    (ctx : ApplyContext) (outcome : BatchApplyOutcome)
    (h : applyBatchToState s batch ctx = .ok (next, outcome)) :
    BatchApplied s batch ctx next outcome := by
  simp only [applyBatchToState, bind_eq_ok_iff, pure_eq_ok_iff, rejectIf_eq_ok_iff] at h
  obtain ⟨_, hctx, _, hstruct, _, hheight, spend, hspend, _, hcheck, ⟨mid, touched⟩, hrun, _,
    htouched, _, hinv, supply, hsupply, heq⟩ := h
  cases heq
  exact ⟨hctx, hstruct, not_not.mp hheight, ⟨spend, hspend, hcheck⟩, hrun, htouched, hinv⟩

theorem BatchApplied.moves [Blake3] {s next : InnerTree} {batch : TransactionBatch}
    {ctx : ApplyContext} {outcome : BatchApplyOutcome}
    (h : BatchApplied s batch ctx next outcome) : Moves s next batch.rewardAmount :=
  foldlM_applyTxkindToState_moves _ _ _ h.run

/-! ### Supply -/

/-- Balances add up to what was issued, all of it as rewards, within the cap. -/
structure SupplyInvariant (s : InnerTree) : Prop where
  sum : total s.balances = s.totalIssuedMicro.toNat
  rewards : s.rewardsIssuedMicro = s.totalIssuedMicro
  cap : s.totalIssuedMicro ≤ maxSupply

theorem SupplyInvariant.empty : SupplyInvariant InnerTree.empty where
  sum := total_empty
  rewards := rfl
  cap := by decide

theorem verifySupply_cap (s : InnerTree) (h : verifySupply s = .ok ()) :
    s.totalIssuedMicro ≤ maxSupply := by
  simp only [verifySupply, bind_eq_ok_iff, rejectIf_eq_ok_iff] at h
  obtain ⟨-, -, -, -, -, -, -, hcap, -⟩ := h
  exact UInt64.not_lt.mp hcap

theorem verifyStateInvariants_supply (s : InnerTree) (expected : Option (UInt64 × Hash × Hash))
    (h : verifyStateInvariants s expected = .ok ()) : verifySupply s = .ok () := by
  simp only [verifyStateInvariants, bind_eq_ok_iff] at h
  obtain ⟨-, -, -, -, _, hsupply, -⟩ := h
  exact hsupply

theorem SupplyInvariant.of_moves {s s' : InnerTree} {w : ℕ} (hs : SupplyInvariant s)
    (hm : Moves s s' w) (hv : verifyStateInvariants s' none = .ok ()) : SupplyInvariant s' where
  sum := by
    rw [hm.balances, hm.issued, hs.sum]
  rewards := by
    refine UInt64.toNat_inj.mp ?_
    rw [hm.rewards, hm.issued, hs.rewards]
  cap := verifySupply_cap s' (verifyStateInvariants_supply s' none hv)

end Remzar
