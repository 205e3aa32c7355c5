import Mathlib
import Remzar.Solvency

/-! Balances as flows: what a list of transactions takes from and gives to every account, and
which accounts it brings into the map. Neither depends on the order of the transactions. -/
namespace Remzar
open Std Fallible Checked Ledger AccountGuard

namespace TxKind

def incoming (account : String) : TxKind → ℕ
  | .transfer tx => if normalizeWalletBytes tx.receiver.toList = account then tx.amount.toNat else 0
  | .reward rew => if normalizeWalletBytes rew.receiver.toList = account then rew.amount.toNat else 0
  | _ => 0

/-- The accounts whose balance a transaction writes. -/
def parties : TxKind → List String
  | .transfer tx => [normalizeWalletBytes tx.sender.toList, normalizeWalletBytes tx.receiver.toList]
  | .reward rew => [normalizeWalletBytes rew.receiver.toList]
  | _ => []

end TxKind

/-- What the transactions of a list give to an account. -/
def received (account : String) (kinds : List TxKind) : ℕ :=
  (kinds.map (TxKind.incoming account)).sum

/-- The way from one map of balances to another is what the transactions of a list take and give. -/
structure Flow (m m' : Balances) (kinds : List TxKind) : Prop where
  amounts : ∀ account, (amount m' account).toNat + spent account kinds =
    (amount m account).toNat + received account kinds
  accounts : ∀ account, account ∈ m' ↔ account ∈ m ∨ ∃ kind ∈ kinds, account ∈ kind.parties

section
variable {m m' m'' : Balances} {kinds kinds' : List TxKind}

theorem received_append (account : String) :
    received account (kinds ++ kinds') = received account kinds + received account kinds' := by
  rw [received, List.map_append, List.sum_append]
  rfl

theorem spent_append (account : String) :
    spent account (kinds ++ kinds') = spent account kinds + spent account kinds' := by
  rw [spent, List.map_append, List.sum_append]
  rfl

theorem Flow.refl (m : Balances) : Flow m m [] := ⟨fun _ => rfl, fun _ => by simp⟩

theorem Flow.trans (h : Flow m m' kinds) (h' : Flow m' m'' kinds') : Flow m m'' (kinds ++ kinds') where
  amounts account := by
    have hfirst := h.amounts account
    have hsecond := h'.amounts account
    rw [spent_append, received_append]
    omega
  accounts account := by
    rw [h'.accounts, h.accounts, or_assoc]
    simp only [List.mem_append, or_and_right, exists_or]

/-- Where two flows of the same transactions start from one map, they end in one map; the order of
the transactions does not matter. -/
theorem Flow.unique (h : Flow m m' kinds) (h' : Flow m m'' kinds') (hperm : kinds.Perm kinds') :
    m' = m'' := by
  have hspent (account : String) : spent account kinds = spent account kinds' :=
    (hperm.map _).sum_nat
  have hreceived (account : String) : received account kinds = received account kinds' :=
    (hperm.map _).sum_nat
  have hamount (account : String) : amount m' account = amount m'' account := by
    have hfirst := h.amounts account
    have hsecond := h'.amounts account
    rw [← hspent, ← hreceived] at hsecond
    apply UInt64.toNat_inj.mp
    omega
  have hmem (account : String) : account ∈ m' ↔ account ∈ m'' := by
    rw [h.accounts, h'.accounts]
    simp only [hperm.mem_iff]
  apply ExtTreeMap.ext_getElem?
  intro account
  have hsome := hamount account
  unfold amount at hsome
  have hiff := hmem account
  rw [ExtTreeMap.mem_iff_isSome_getElem?, ExtTreeMap.mem_iff_isSome_getElem?] at hiff
  cases h₁ : m'[account]? with
  | none =>
    cases h₂ : m''[account]? with
    | none => rfl
    | some v =>
      rw [h₁, h₂] at hiff
      exact absurd (hiff.mpr rfl) (by decide)
  | some v =>
    cases h₂ : m''[account]? with
    | none =>
      rw [h₁, h₂] at hiff
      exact absurd (hiff.mp rfl) (by decide)
    | some v' =>
      rw [h₁, h₂] at hsome
      exact congrArg some hsome

/-! ### Running transactions -/

theorem debit_flow {sender : String} {v : UInt64} (h : debit m sender v = .ok m') (account : String) :
    (amount m' account).toNat + (if sender = account then v.toNat else 0) = (amount m account).toNat ∧
      (account ∈ m' ↔ account ∈ m ∨ account = sender) := by
  simp only [debit, bind_eq_ok_iff, okOr_eq_ok_iff, pure_eq_ok_iff] at h
  obtain ⟨left, hleft, rfl⟩ := h
  constructor
  · rw [amount_insert]
    split
    · rename_i heq
      subst heq
      exact ((checkedSub_eq_some_iff _ _ _).mp hleft).symm ▸ rfl
    · rfl
  · rw [ExtTreeMap.mem_insert, LawfulEqCmp.compare_eq_iff_eq, or_comm, eq_comm]

theorem credit_flow {receiver : String} {v : UInt64} {overflow cap : String}
    (h : credit m receiver v overflow cap = .ok m') (account : String) :
    (amount m' account).toNat = (amount m account).toNat + (if receiver = account then v.toNat else 0) ∧
      (account ∈ m' ↔ account ∈ m ∨ account = receiver) := by
  simp only [credit, bind_eq_ok_iff, okOr_eq_ok_iff, pure_eq_ok_iff] at h
  obtain ⟨sum, hsum, -, -, rfl⟩ := h
  constructor
  · rw [amount_insert]
    split
    · rename_i heq
      subst heq
      exact ((checkedAdd_eq_some_iff _ _ _).mp hsum).symm
    · rfl
  · rw [ExtTreeMap.mem_insert, LawfulEqCmp.compare_eq_iff_eq, or_comm, eq_comm]

theorem flow_single {kind : TxKind}
    (hamounts : ∀ account, (amount m' account).toNat + kind.outgoing account =
      (amount m account).toNat + kind.incoming account)
    (haccounts : ∀ account, account ∈ m' ↔ account ∈ m ∨ account ∈ kind.parties) :
    Flow m m' [kind] where
  amounts account := by
    rw [spent_cons, received, List.map_singleton, List.sum_singleton]
    exact hamounts account
  accounts account := by
    rw [haccounts]
    simp only [List.mem_singleton, exists_eq_left]

theorem applyTransfer_flow {s s' : InnerTree} {tx : Transaction} {t t' : Touched}
    (h : applyTransfer s tx t = .ok (s', t')) : Flow s.balances s'.balances [.transfer tx] := by
  simp only [applyTransfer, bind_eq_ok_iff, pure_eq_ok_iff] at h
  obtain ⟨-, -, -, -, debited, hdebit, credited, hcredit, heq⟩ := h
  cases heq
  apply flow_single
  · intro account
    rw [(credit_flow hcredit account).1, ← (debit_flow hdebit account).1]
    exact Nat.add_right_comm _ _ _
  · intro account
    rw [(credit_flow hcredit account).2, (debit_flow hdebit account).2, or_assoc]
    simp only [TxKind.parties, List.mem_cons, List.not_mem_nil, or_false]

theorem applyReward_flow {s s' : InnerTree} {rew : RewardTx} {t t' : Touched}
    (h : applyReward s rew t = .ok (s', t')) : Flow s.balances s'.balances [.reward rew] := by
  simp only [applyReward, bind_eq_ok_iff, okOr_eq_ok_iff, pure_eq_ok_iff] at h
  obtain ⟨-, -, rewards, -, total, -, -, -, credited, hcredit, heq⟩ := h
  cases heq
  apply flow_single
  · intro account
    exact (credit_flow hcredit account).1
  · intro account
    rw [(credit_flow hcredit account).2]
    simp only [TxKind.parties, List.mem_singleton]

/-- One transaction: the balances flow, and the touched accounts are those it names. -/
theorem applyTxkindToState_flow {acc acc' : InnerTree × Touched} {kind : TxKind}
    (h : applyTxkindToState acc kind = .ok acc') :
    Flow acc.1.balances acc'.1.balances [kind] ∧
      ∀ account, account ∈ acc'.2 ↔ account ∈ acc.2 ∨ account ∈ kind.accounts := by
  have hstill {kind : TxKind} (hout : ∀ account, kind.outgoing account = 0)
      (hin : ∀ account, kind.incoming account = 0) (hnone : kind.parties = []) :
      Flow acc.1.balances acc.1.balances [kind] := by
    apply flow_single
    · intro account
      rw [hout, hin]
    · intro account
      rw [hnone, List.mem_nil_iff, or_false]
  cases kind with
  | transfer tx =>
    refine ⟨applyTransfer_flow h, fun account => ?_⟩
    change applyTransfer acc.1 tx acc.2 = .ok acc' at h
    simp only [applyTransfer, bind_eq_ok_iff, pure_eq_ok_iff] at h
    obtain ⟨-, -, -, -, debited, -, credited, -, rfl⟩ := h
    simp only [ExtTreeSet.mem_insert, LawfulEqCmp.compare_eq_iff_eq, TxKind.accounts, List.mem_cons,
      List.not_mem_nil, or_false]
    grind
  | reward rew =>
    refine ⟨applyReward_flow h, fun account => ?_⟩
    change applyReward acc.1 rew acc.2 = .ok acc' at h
    simp only [applyReward, bind_eq_ok_iff, okOr_eq_ok_iff, pure_eq_ok_iff] at h
    obtain ⟨-, -, rewards, -, total, -, -, -, credited, -, rfl⟩ := h
    simp only [ExtTreeSet.mem_insert, LawfulEqCmp.compare_eq_iff_eq, TxKind.accounts,
      List.mem_singleton]
    grind
  | registerNode reg =>
    simp only [applyTxkindToState, bind_eq_ok_iff, pure_eq_ok_iff] at h
    obtain ⟨-, -, rfl⟩ := h
    refine ⟨hstill (fun _ => rfl) (fun _ => rfl) rfl, fun account => ?_⟩
    simp only [ExtTreeSet.mem_insert, LawfulEqCmp.compare_eq_iff_eq, TxKind.accounts,
      List.mem_singleton]
    grind
  | nftMint tx =>
    cases h
    exact ⟨hstill (fun _ => rfl) (fun _ => rfl) rfl, fun account => (or_iff_left List.not_mem_nil).symm⟩
  | nftTransfer tx =>
    cases h
    exact ⟨hstill (fun _ => rfl) (fun _ => rfl) rfl, fun account => (or_iff_left List.not_mem_nil).symm⟩

/-- A list of transactions that runs to its end. -/
theorem foldlM_applyTxkindToState_flow {acc acc' : InnerTree × Touched}
    (h : kinds.foldlM applyTxkindToState acc = .ok acc') :
    Flow acc.1.balances acc'.1.balances kinds ∧
      ∀ account, account ∈ acc'.2 ↔ account ∈ acc.2 ∨ ∃ kind ∈ kinds, account ∈ kind.accounts := by
  induction kinds generalizing acc with
  | nil =>
    cases h
    exact ⟨.refl _, fun account => by simp⟩
  | cons kind kinds ih =>
    rw [List.foldlM_cons, bind_eq_ok_iff] at h
    obtain ⟨mid, hstep, hrest⟩ := h
    obtain ⟨hflow, htouched⟩ := applyTxkindToState_flow hstep
    obtain ⟨hflow', htouched'⟩ := ih hrest
    refine ⟨hflow.trans hflow', fun account => ?_⟩
    rw [htouched', htouched, or_assoc, List.exists_mem_cons_iff]

/-- An account that is written is named. -/
theorem TxKind.parties_subset (kind : TxKind) : kind.parties ⊆ kind.accounts := by
  cases kind with
  | registerNode reg => exact List.nil_subset _
  | transfer tx => exact List.Subset.refl _
  | reward rew => exact List.Subset.refl _
  | nftMint tx => exact List.Subset.refl _
  | nftTransfer tx => exact List.Subset.refl _

theorem outgoing_of_notMem {kind : TxKind} {account : String} (h : account ∉ kind.parties) :
    kind.outgoing account = 0 := by
  cases kind with
  | transfer tx =>
    simp only [TxKind.parties, List.mem_cons, List.not_mem_nil, or_false, not_or] at h
    rw [TxKind.outgoing, if_neg (Ne.symm h.1)]
  | reward rew => rfl
  | registerNode reg => rfl
  | nftMint tx => rfl
  | nftTransfer tx => rfl

theorem incoming_of_notMem {kind : TxKind} {account : String} (h : account ∉ kind.parties) :
    kind.incoming account = 0 := by
  cases kind with
  | transfer tx =>
    simp only [TxKind.parties, List.mem_cons, List.not_mem_nil, or_false, not_or] at h
    rw [TxKind.incoming, if_neg (Ne.symm h.2)]
  | reward rew =>
    simp only [TxKind.parties, List.mem_singleton] at h
    rw [TxKind.incoming, if_neg (Ne.symm h)]
  | registerNode reg => rfl
  | nftMint tx => rfl
  | nftTransfer tx => rfl

/-- Nothing comes to or goes from an account that no transaction writes. -/
theorem Flow.amount_eq (h : Flow m m' kinds) {account : String}
    (hnone : ∀ kind ∈ kinds, account ∉ kind.parties) : amount m' account = amount m account := by
  have hzero : spent account kinds = 0 ∧ received account kinds = 0 := by
    constructor
    · refine List.sum_eq_zero fun v hv => ?_
      obtain ⟨kind, hkind, rfl⟩ := List.mem_map.mp hv
      exact outgoing_of_notMem (hnone kind hkind)
    · refine List.sum_eq_zero fun v hv => ?_
      obtain ⟨kind, hkind, rfl⟩ := List.mem_map.mp hv
      exact incoming_of_notMem (hnone kind hkind)
  have hflow := h.amounts account
  apply UInt64.toNat_inj.mp
  omega

end

end Remzar
