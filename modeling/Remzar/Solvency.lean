import Mathlib
import Remzar.Binding
import Remzar.Replay
import Remzar.Production

/-! When the guard lets a batch through: a batch of valid transactions runs to its end exactly
when its senders can cover what they send and what it issues stays below the cap. -/
namespace Remzar
open Std Fallible Checked Ledger Text AccountGuard

/-! ### Account keys -/

/-- Text that may name an account. -/
structure KeyOk (account : String) : Prop where
  nonempty : account ≠ ""
  length : byteLen account ≤ maxAccountKeyBytes
  plain : ¬(utf8 account).any isAsciiControl

theorem validateAccountKeyString_ok_iff (account label : String) :
    validateAccountKeyString account label = .ok () ↔ KeyOk account := by
  simp only [validateAccountKeyString, bind_eq_ok_iff, rejectIf_eq_ok_iff]
  constructor
  · rintro ⟨_, hempty, _, hlen, hplain⟩
    exact ⟨hempty, Nat.not_lt.mp hlen, hplain⟩
  · rintro ⟨hempty, hlen, hplain⟩
    exact ⟨(), hempty, (), Nat.not_lt.mpr hlen, hplain⟩

theorem dropWhile_of_forall {α : Type} {p : α → Bool} {as : List α} (h : ∀ a ∈ as, p a = false) :
    as.dropWhile p = as := by
  cases as with
  | nil => rfl
  | cons a as => rw [List.dropWhile_cons_of_neg (by rw [h a List.mem_cons_self]; exact Bool.false_ne_true)]

theorem dropEndWhile_of_forall {p : Char → Bool} {cs : List Char} (h : ∀ c ∈ cs, p c = false) :
    dropEndWhile p cs = cs := by
  rw [dropEndWhile, dropWhile_of_forall, List.reverse_reverse]
  intro c hc
  exact h c (List.mem_reverse.mp hc)

theorem lossyChars_ascii (bytes : List UInt8) (h : ∀ b ∈ bytes, b < 0x80) :
    lossyChars bytes.length bytes = bytes.map fun b => Char.ofNat b.toNat := by
  induction bytes with
  | nil => rfl
  | cons b bytes ih =>
    have hstep : lossyStep b bytes = (Char.ofNat b.toNat, 1) := by
      unfold lossyStep
      exact if_pos (h b List.mem_cons_self)
    rw [List.length_cons, lossyChars, hstep, List.map_cons]
    exact congrArg _ (ih fun c hc => h c (List.mem_cons_of_mem b hc))

/-- Printable bytes other than the blank. -/
def Printable (b : UInt8) : Prop := 33 ≤ b.toNat ∧ b.toNat ≤ 126

theorem WalletBytes.printable {bytes : List UInt8} (h : WalletBytes bytes) :
    ∀ b ∈ bytes, Printable b := by
  intro b hb
  cases bytes with
  | nil => cases hb
  | cons first rest =>
    rcases List.mem_cons.mp hb with rfl | hrest
    · obtain rfl := Option.some.inj h.head
      exact ⟨by decide, by decide⟩
    · have hrange := isLowerHex_range (h.hex b hrest)
      unfold Printable
      omega

theorem Printable.char {b : UInt8} (h : Printable b) :
    (Char.ofNat b.toNat == Char.ofNat 0) = false ∧ isWhitespace (Char.ofNat b.toNat) = false := by
  obtain ⟨hlow, hhigh⟩ := h
  generalize b.toNat = n at hlow hhigh
  interval_cases n <;> exact ⟨by decide, by decide⟩

/-- A wallet in canonical form is its own account key. -/
theorem WalletBytes.normalize {bytes : List UInt8} (h : WalletBytes bytes) :
    utf8 (normalizeWalletBytes bytes) = bytes := by
  have hprintable := h.printable
  have hascii : ∀ b ∈ bytes, b < 0x80 := by
    intro b hb
    obtain ⟨-, hhigh⟩ := hprintable b hb
    rw [UInt8.lt_iff_toNat_lt]
    change b.toNat < 128
    omega
  have hchars : Text.chars (fromUtf8Lossy bytes) = bytes.map fun b => Char.ofNat b.toNat := by
    rw [chars_eq, fromUtf8Lossy, String.toList_ofList, lossyChars_ascii bytes hascii]
  have hchar : ∀ c ∈ bytes.map (fun b => Char.ofNat b.toNat),
      (c == Char.ofNat 0) = false ∧ isWhitespace c = false := by
    intro c hc
    obtain ⟨b, hb, rfl⟩ := List.mem_map.mp hc
    exact (hprintable b hb).char
  rw [normalizeWalletBytes, hchars, dropEndWhile_of_forall fun c hc => (hchar c hc).1, trimChars,
    dropWhile_of_forall fun c hc => (hchar c hc).2, dropEndWhile_of_forall fun c hc => (hchar c hc).2,
    utf8_eq, String.toList_ofList, List.flatMap_map]
  conv_rhs => rw [← List.flatMap_singleton' bytes]
  apply List.flatMap_congr
  intro b hb
  exact utf8EncodeChar_ascii (hascii b hb)

theorem WalletBytes.keyOk {bytes : List UInt8} (h : WalletBytes bytes) :
    KeyOk (normalizeWalletBytes bytes) := by
  have hutf8 := h.normalize
  have hlen := h.length
  refine ⟨?_, ?_, ?_⟩
  · intro hempty
    rw [hempty] at hutf8
    rw [← hutf8] at hlen
    exact absurd hlen (by decide)
  · rw [byteLen, hutf8, hlen]
    decide
  · rw [hutf8, Bool.not_eq_true, List.any_eq_false]
    intro b hb
    obtain ⟨hlow, hhigh⟩ := h.printable b hb
    rw [isAsciiControl, Bool.or_eq_true, decide_eq_true_eq, beq_iff_eq, UInt8.lt_iff_toNat_lt,
      ← UInt8.toNat_inj]
    change ¬(b.toNat < 32 ∨ b.toNat = 127)
    omega

/-! ### What a batch spends -/

/-- The accounts a transaction names. -/
def TxKind.accounts : TxKind → List String
  | .transfer tx => [normalizeWalletBytes tx.sender.toList, normalizeWalletBytes tx.receiver.toList]
  | .reward rew => [normalizeWalletBytes rew.receiver.toList]
  | .registerNode reg => [normalizeWalletBytes reg.walletAddress.toList]
  | .nftMint _ => []
  | .nftTransfer _ => []

def TxKind.outgoing (account : String) : TxKind → ℕ
  | .transfer tx => if normalizeWalletBytes tx.sender.toList = account then tx.amount.toNat else 0
  | _ => 0

/-- What the transactions of a list take from an account. -/
def spent (account : String) (kinds : List TxKind) : ℕ := (kinds.map (TxKind.outgoing account)).sum

theorem spent_cons (account : String) (kind : TxKind) (kinds : List TxKind) :
    spent account (kind :: kinds) = kind.outgoing account + spent account kinds := rfl

theorem addSpend_ok {spend spend' : Balances} {kind : TxKind} (h : addSpend spend kind = .ok spend')
    (account : String) :
    (amount spend' account).toNat = (amount spend account).toNat + kind.outgoing account := by
  cases kind with
  | transfer tx =>
    simp only [addSpend, bind_eq_ok_iff, okOr_eq_ok_iff, pure_eq_ok_iff] at h
    obtain ⟨sum, hsum, rfl⟩ := h
    rw [amount_insert, TxKind.outgoing]
    split
    · rename_i hsender
      rw [← hsender]
      exact ((checkedAdd_eq_some_iff _ _ _).mp hsum).symm
    · rfl
  | reward rew =>
    cases h
    rfl
  | registerNode reg =>
    cases h
    rfl
  | nftMint tx =>
    cases h
    rfl
  | nftTransfer tx =>
    cases h
    rfl

theorem foldlM_addSpend_ok {kinds : List TxKind} {spend spend' : Balances}
    (h : kinds.foldlM addSpend spend = .ok spend') (account : String) :
    (amount spend' account).toNat = (amount spend account).toNat + spent account kinds := by
  induction kinds generalizing spend with
  | nil =>
    cases h
    rfl
  | cons kind kinds ih =>
    rw [List.foldlM_cons, bind_eq_ok_iff] at h
    obtain ⟨mid, hmid, hrest⟩ := h
    rw [ih hrest, addSpend_ok hmid, spent_cons, Nat.add_assoc]

/-- Sums that stay below the word size are computed. -/
theorem foldlM_addSpend_exists (kinds : List TxKind) (spend : Balances)
    (h : ∀ account, (amount spend account).toNat + spent account kinds < 2^64) :
    ∃ spend', kinds.foldlM addSpend spend = .ok spend' := by
  induction kinds generalizing spend with
  | nil => exact ⟨spend, rfl⟩
  | cons kind kinds ih =>
    obtain ⟨mid, hmid⟩ : ∃ mid, addSpend spend kind = .ok mid := by
      cases kind with
      | transfer tx =>
        have hfit := h (normalizeWalletBytes tx.sender.toList)
        rw [spent_cons, TxKind.outgoing, if_pos rfl] at hfit
        have hsum : checkedAdd (amount spend (normalizeWalletBytes tx.sender.toList)) tx.amount =
            some (amount spend (normalizeWalletBytes tx.sender.toList) + tx.amount) :=
          if_pos (by omega)
        exact ⟨_, by rw [addSpend, hsum]; rfl⟩
      | reward rew => exact ⟨spend, rfl⟩
      | registerNode reg => exact ⟨spend, rfl⟩
      | nftMint tx => exact ⟨spend, rfl⟩
      | nftTransfer tx => exact ⟨spend, rfl⟩
    obtain ⟨spend', hrest⟩ := ih mid fun account => by
      have hfit := h account
      rw [spent_cons] at hfit
      rw [addSpend_ok hmid]
      omega
    refine ⟨spend', ?_⟩
    rw [List.foldlM_cons, hmid]
    exact hrest

theorem checkSpend_ok_iff (balances spend : Balances) :
    checkSpend balances spend = .ok () ↔
      ∀ account, (amount spend account).toNat ≤ (amount balances account).toNat := by
  rw [checkSpend, forM_eq_ok_iff]
  simp only [rejectIf_eq_ok_iff]
  constructor
  · intro h account
    cases hget : spend[account]? with
    | none =>
      rw [amount, hget]
      exact Nat.zero_le _
    | some v =>
      have hentry := h (account, v) (ExtTreeMap.mem_toList_iff_getElem?_eq_some.mpr hget)
      have hv : amount spend account = v := by
        rw [amount, hget]
        rfl
      rw [hv]
      exact UInt64.le_iff_toNat_le.mp (UInt64.not_lt.mp hentry)
  · rintro h ⟨account, v⟩ hmem
    have hget := ExtTreeMap.mem_toList_iff_getElem?_eq_some.mp hmem
    have hv : amount spend account = v := by
      rw [amount, hget]
      rfl
    have hle := h account
    rw [hv] at hle
    exact UInt64.not_lt.mpr (UInt64.le_iff_toNat_le.mpr hle)

/-- The spending check of a batch, account by account. -/
theorem spend_ok_iff (kinds : List TxKind) (balances : Balances) :
    (∃ spend, kinds.foldlM addSpend ∅ = .ok spend ∧ checkSpend balances spend = .ok ()) ↔
      ∀ account, spent account kinds ≤ (amount balances account).toNat := by
  have hzero : ∀ account, (amount (∅ : Balances) account).toNat = 0 := by
    intro account
    rw [amount, ExtTreeMap.getElem?_empty]
    rfl
  constructor
  · rintro ⟨spend, hfold, hcheck⟩ account
    have hle := (checkSpend_ok_iff balances spend).mp hcheck account
    rw [foldlM_addSpend_ok hfold, hzero, Nat.zero_add] at hle
    exact hle
  · intro h
    obtain ⟨spend, hfold⟩ := foldlM_addSpend_exists kinds ∅ fun account => by
      have hlt := (amount balances account).toNat_lt
      have hle := h account
      rw [hzero]
      omega
    refine ⟨spend, hfold, (checkSpend_ok_iff balances spend).mpr fun account => ?_⟩
    rw [foldlM_addSpend_ok hfold, hzero, Nat.zero_add]
    exact h account

/-! ### Running a batch -/

theorem debit_ok {m : Balances} {sender : String} {v : UInt64}
    (h : v.toNat ≤ (amount m sender).toNat) :
    debit m sender v = .ok (m.insert sender (amount m sender - v)) := by
  have hsub : checkedSub (amount m sender) v = some (amount m sender - v) := if_pos h
  rw [debit, hsub]
  rfl

theorem credit_ok {m : Balances} (receiver : String) {v : UInt64} (overflow cap : String)
    (h : total m + v.toNat ≤ maxSupply.toNat) :
    credit m receiver v overflow cap = .ok (m.insert receiver (amount m receiver + v)) := by
  have hle := amount_le_total m receiver
  have hfit : (amount m receiver).toNat + v.toNat < 2^64 := by
    have hmax := maxSupply.toNat_lt
    omega
  have hadd : checkedAdd (amount m receiver) v = some (amount m receiver + v) := if_pos hfit
  have hsum := (checkedAdd_eq_some_iff _ _ _).mp hadd
  have hcap : ¬maxSupply < amount m receiver + v := by
    rw [UInt64.lt_iff_toNat_lt, ← hsum]
    omega
  rw [credit, hadd]
  change (rejectIf (maxSupply < amount m receiver + v) _ >>= _) = _
  rw [rejectIf_of_not _ hcap]
  rfl

theorem getElem?_insert_ne_none {m : Balances} {key account : String} {v : UInt64}
    (h : (m.insert key v)[account]? ≠ none) : account = key ∨ m[account]? ≠ none := by
  rw [ExtTreeMap.getElem?_insert] at h
  split at h
  · rename_i hcmp
    exact .inl (LawfulEqCmp.eq_of_compare hcmp).symm
  · exact .inr h

theorem amount_credited {m : Balances} {receiver : String} {v : UInt64}
    (h : total m + v.toNat ≤ maxSupply.toNat) (account : String) :
    (amount m account).toNat ≤ (amount (m.insert receiver (amount m receiver + v)) account).toNat := by
  have hle := amount_le_total m receiver
  rw [amount_insert]
  split
  · rename_i hsame
    rw [← hsame, UInt64.toNat_add]
    have hmax := maxSupply.toNat_lt
    omega
  · exact Nat.le_refl _

/-- A covered payment leaves every other account with at least what it had. -/
theorem pay_ok {m : Balances} {sender : String} (receiver : String) {v : UInt64}
    (hcover : v.toNat ≤ (amount m sender).toNat) (hcap : total m ≤ maxSupply.toNat) :
    ∃ debited credited, debit m sender v = .ok debited ∧
      (∀ overflow cap, credit debited receiver v overflow cap = .ok credited) ∧
      (∀ account, (amount m account).toNat ≤
        (amount credited account).toNat + if sender = account then v.toNat else 0) ∧
      ∀ account, credited[account]? ≠ none →
        account ∈ [sender, receiver] ∨ m[account]? ≠ none := by
  let debited := m.insert sender (amount m sender - v)
  have hdebit : debit m sender v = .ok debited := debit_ok hcover
  have htotal := debit_total _ _ _ _ hdebit
  have hfits : total debited + v.toNat ≤ maxSupply.toNat := by omega
  refine ⟨debited, _, hdebit, fun o c => credit_ok receiver o c hfits, ?_, ?_⟩
  · intro account
    have hcredited := @amount_credited debited receiver v hfits account
    have hdebited : (amount m account).toNat =
        (amount debited account).toNat + if sender = account then v.toNat else 0 := by
      rw [amount_insert]
      split
      · rename_i hsame
        rw [← hsame, UInt64.toNat_sub_of_le _ _ (UInt64.le_iff_toNat_le.mpr hcover)]
        omega
      · rfl
    omega
  · intro account hsome
    rcases getElem?_insert_ne_none hsome with rfl | hsome
    · exact .inl (List.mem_cons_of_mem _ List.mem_cons_self)
    · rcases getElem?_insert_ne_none hsome with rfl | hsome
      · exact .inl List.mem_cons_self
      · exact .inr hsome

/-- A state that can run the transactions of a list to their end. -/
structure Solvent (s : InnerTree) (kinds : List TxKind) : Prop where
  sum : total s.balances = s.totalIssuedMicro.toNat
  rewards : s.rewardsIssuedMicro.toNat ≤ s.totalIssuedMicro.toNat
  cap : s.totalIssuedMicro.toNat + (kinds.map TxKind.rewardAmount).sum ≤ maxSupply.toNat
  funded : ∀ account, spent account kinds ≤ (amount s.balances account).toNat
  named : ∀ kind ∈ kinds, ∀ account ∈ kind.accounts, KeyOk account
  keys : ∀ account, s.balances[account]? ≠ none → KeyOk account

section Run
variable {s : InnerTree} {kind : TxKind} {kinds : List TxKind}

/-- Only the supply, the named accounts and what is left to fund change in a step. -/
theorem Solvent.next (h : Solvent s (kind :: kinds)) {s' : InnerTree}
    (hmoves : Moves s s' kind.rewardAmount)
    (hspent : ∀ account, (amount s.balances account).toNat ≤
      (amount s'.balances account).toNat + kind.outgoing account)
    (hkeys : ∀ account, s'.balances[account]? ≠ none →
      account ∈ kind.accounts ∨ s.balances[account]? ≠ none) : Solvent s' kinds where
  sum := by rw [hmoves.balances, hmoves.issued, h.sum]
  rewards := by
    rw [hmoves.rewards, hmoves.issued]
    exact Nat.add_le_add_right h.rewards _
  cap := by
    have hcap := h.cap
    rw [List.map_cons, List.sum_cons] at hcap
    rw [hmoves.issued]
    omega
  funded := by
    intro account
    have hfunded := h.funded account
    have hleft := hspent account
    rw [spent_cons] at hfunded
    omega
  named := fun k hk => h.named k (List.mem_cons_of_mem kind hk)
  keys := by
    intro account hsome
    rcases hkeys account hsome with hnamed | hold
    · exact h.named kind List.mem_cons_self account hnamed
    · exact h.keys account hold

theorem applyTransfer_ok {tx : Transaction} (h : Solvent s (.transfer tx :: kinds))
    (touched : Touched) :
    ∃ s', applyTransfer s tx touched = .ok (s', (touched.insert
        (normalizeWalletBytes tx.sender.toList)).insert (normalizeWalletBytes tx.receiver.toList)) ∧
      Solvent s' kinds := by
  have hnamed := h.named _ List.mem_cons_self
  have hsender := (validateAccountKeyString_ok_iff _ "Transfer sender").mpr
    (hnamed _ List.mem_cons_self)
  have hreceiver := (validateAccountKeyString_ok_iff _ "Transfer receiver").mpr
    (hnamed _ (List.mem_cons_of_mem _ List.mem_cons_self))
  have hcover : tx.amount.toNat ≤ (amount s.balances (normalizeWalletBytes tx.sender.toList)).toNat := by
    have hfunded := h.funded (normalizeWalletBytes tx.sender.toList)
    rw [spent_cons, TxKind.outgoing, if_pos rfl] at hfunded
    omega
  have hcap : total s.balances ≤ maxSupply.toNat := by
    rw [h.sum]
    exact Nat.le_trans (Nat.le_add_right _ _) h.cap
  obtain ⟨debited, credited, hdebit, hcredit, hspent, hkeys⟩ :=
    pay_ok (normalizeWalletBytes tx.receiver.toList) hcover hcap
  have hrun : applyTransfer s tx touched = .ok ({ s with balances := credited }, (touched.insert
      (normalizeWalletBytes tx.sender.toList)).insert (normalizeWalletBytes tx.receiver.toList)) := by
    rw [applyTransfer, hsender, ok_bind, hreceiver, ok_bind, hdebit, ok_bind, hcredit]
    rfl
  exact ⟨_, hrun, h.next (applyTransfer_moves _ _ _ _ _ hrun) hspent hkeys⟩

theorem applyReward_ok {rew : RewardTx} (h : Solvent s (.reward rew :: kinds)) (touched : Touched) :
    ∃ s', applyReward s rew touched =
        .ok (s', touched.insert (normalizeWalletBytes rew.receiver.toList)) ∧ Solvent s' kinds := by
  have hreceiver := (validateAccountKeyString_ok_iff _ "Reward receiver").mpr
    (h.named _ List.mem_cons_self _ List.mem_cons_self)
  have hcap : s.totalIssuedMicro.toNat + rew.amount.toNat ≤ maxSupply.toNat := by
    have hcap := h.cap
    rw [List.map_cons, List.sum_cons] at hcap
    change s.totalIssuedMicro.toNat + (rew.amount.toNat + _) ≤ _ at hcap
    omega
  have hword := maxSupply.toNat_lt
  have hissued : checkedAdd s.totalIssuedMicro rew.amount =
      some (s.totalIssuedMicro + rew.amount) := if_pos (by omega)
  have hrewards : checkedAdd s.rewardsIssuedMicro rew.amount =
      some (s.rewardsIssuedMicro + rew.amount) := if_pos (by have := h.rewards; omega)
  have hbelow : ¬maxSupply < s.totalIssuedMicro + rew.amount := by
    rw [UInt64.lt_iff_toNat_lt, ← (checkedAdd_eq_some_iff _ _ _).mp hissued]
    omega
  have hfits : total s.balances + rew.amount.toNat ≤ maxSupply.toNat := by
    rw [h.sum]
    exact hcap
  have hcredit := fun o c => credit_ok (normalizeWalletBytes rew.receiver.toList) o c hfits
  have hrun : applyReward s rew touched = .ok ({ s with
      balances := s.balances.insert (normalizeWalletBytes rew.receiver.toList)
        (amount s.balances (normalizeWalletBytes rew.receiver.toList) + rew.amount)
      rewardsIssuedMicro := s.rewardsIssuedMicro + rew.amount
      totalIssuedMicro := s.totalIssuedMicro + rew.amount },
      touched.insert (normalizeWalletBytes rew.receiver.toList)) := by
    rw [applyReward, hreceiver, ok_bind, hrewards]
    simp only [okOr, ok_bind, hissued, rejectIf_of_not _ hbelow, hcredit]
    rfl
  refine ⟨_, hrun, h.next (applyReward_moves _ _ _ _ _ hrun) ?_ ?_⟩
  · exact fun account => amount_credited hfits account
  · intro account hsome
    rcases getElem?_insert_ne_none hsome with rfl | hold
    · exact .inl List.mem_cons_self
    · exact .inr hold

/-- One transaction, and at most two accounts touched. -/
theorem Solvent.step (h : Solvent s (kind :: kinds)) (touched : Touched) :
    ∃ s' touched', applyTxkindToState (s, touched) kind = .ok (s', touched') ∧ Solvent s' kinds ∧
      touched'.size ≤ touched.size + 2 := by
  have hstill : ∀ hmoves : Moves s s kind.rewardAmount, Solvent s kinds := fun hmoves =>
    h.next hmoves (fun _ => Nat.le_add_right _ _) fun _ hold => .inr hold
  cases kind with
  | transfer tx =>
    obtain ⟨s', hrun, hs'⟩ := applyTransfer_ok h touched
    refine ⟨s', _, hrun, hs', ?_⟩
    exact Nat.le_trans ExtTreeSet.size_insert_le (Nat.add_le_add_right ExtTreeSet.size_insert_le 1)
  | reward rew =>
    obtain ⟨s', hrun, hs'⟩ := applyReward_ok h touched
    refine ⟨s', _, hrun, hs', ?_⟩
    exact Nat.le_trans ExtTreeSet.size_insert_le (Nat.add_le_add_left (by decide) _)
  | registerNode reg =>
    have hkey := (validateAccountKeyString_ok_iff _ "RegisterNode wallet").mpr
      (h.named _ List.mem_cons_self _ List.mem_cons_self)
    refine ⟨s, touched.insert (normalizeWalletBytes reg.walletAddress.toList), ?_,
      hstill (Moves.refl s), ?_⟩
    · rw [applyTxkindToState]
      dsimp only
      rw [hkey]
      rfl
    · exact Nat.le_trans ExtTreeSet.size_insert_le (Nat.add_le_add_left (by decide) _)
  | nftMint tx => exact ⟨s, touched, rfl, hstill (Moves.refl s), Nat.le_add_right _ _⟩
  | nftTransfer tx => exact ⟨s, touched, rfl, hstill (Moves.refl s), Nat.le_add_right _ _⟩

/-- The whole list, by induction on what is left of it. -/
theorem Solvent.run (h : Solvent s kinds) (touched : Touched) :
    ∃ s' touched', kinds.foldlM applyTxkindToState (s, touched) = .ok (s', touched') ∧
      Solvent s' [] ∧ touched'.size ≤ touched.size + 2*kinds.length := by
  induction kinds generalizing s touched with
  | nil => exact ⟨s, touched, rfl, h, Nat.le_add_right _ _⟩
  | cons kind kinds ih =>
    obtain ⟨mid, touched₁, hstep, hmid, hsize₁⟩ := h.step touched
    obtain ⟨s', touched', hrest, hs', hsize⟩ := ih hmid touched₁
    refine ⟨s', touched', ?_, hs', ?_⟩
    · rw [List.foldlM_cons, hstep]
      exact hrest
    · rw [List.length_cons]
      omega

end Run

/-! ### The recent blocks -/

/-- Each block of a list but the first follows the one before it. -/
theorem contiguous_cons_iff {prev block : Block} {rest : List Block} :
    verifyContiguousRecentBlocks (prev :: block :: rest) = .ok () ↔
      block.metadata.index = saturatingAdd prev.metadata.index 1 ∧
        block.metadata.previousHash = prev.blockHash ∧
        verifyContiguousRecentBlocks (block :: rest) = .ok () := by
  simp only [verifyContiguousRecentBlocks, bind_eq_ok_iff, rejectIf_eq_ok_iff, not_not]
  constructor
  · rintro ⟨_, hindex, _, hlink, hrest⟩
    exact ⟨hindex, hlink, hrest⟩
  · rintro ⟨hindex, hlink, hrest⟩
    exact ⟨(), hindex, (), hlink, hrest⟩

theorem contiguous_append {blocks : List Block} {block : Block}
    (h : verifyContiguousRecentBlocks blocks = .ok ())
    (hlast : ∀ last, blocks.getLast? = some last →
      block.metadata.index = saturatingAdd last.metadata.index 1 ∧
        block.metadata.previousHash = last.blockHash) :
    verifyContiguousRecentBlocks (blocks ++ [block]) = .ok () := by
  induction blocks with
  | nil => rfl
  | cons prev blocks ih =>
    cases blocks with
    | nil =>
      obtain ⟨hindex, hlink⟩ := hlast prev rfl
      exact contiguous_cons_iff.mpr ⟨hindex, hlink, rfl⟩
    | cons next rest =>
      obtain ⟨hindex, hlink, hrest⟩ := contiguous_cons_iff.mp h
      refine contiguous_cons_iff.mpr ⟨hindex, hlink, ih hrest ?_⟩
      intro last hget
      exact hlast last (by rw [List.getLast?_cons_cons]; exact hget)

theorem contiguous_drop {blocks : List Block} (h : verifyContiguousRecentBlocks blocks = .ok ())
    (n : ℕ) : verifyContiguousRecentBlocks (blocks.drop n) = .ok () := by
  induction n generalizing blocks with
  | zero => exact h
  | succ n ih =>
    cases blocks with
    | nil => exact h
    | cons prev blocks =>
      apply ih
      cases blocks with
      | nil => rfl
      | cons next rest => exact (contiguous_cons_iff.mp h).2.2

/-- Heights count up through the list. -/
theorem contiguous_first {first : Block} {rest : List Block} {last : Block}
    (h : verifyContiguousRecentBlocks (first :: rest) = .ok ())
    (hlast : (first :: rest).getLast? = some last)
    (hbound : last.metadata.index ≤ maxMetadataIndexHard) :
    first.metadata.index.toNat + rest.length = last.metadata.index.toNat := by
  induction rest generalizing first with
  | nil =>
    obtain rfl := Option.some.inj hlast
    rfl
  | cons next rest ih =>
    obtain ⟨hindex, -, hrest⟩ := contiguous_cons_iff.mp h
    rw [List.getLast?_cons_cons] at hlast
    have hcount := ih hrest hlast
    have hlimit : last.metadata.index.toNat ≤ 10000000 := UInt64.le_iff_toNat_le.mp hbound
    have hnext := congrArg UInt64.toNat hindex
    rw [saturatingAdd_toNat] at hnext
    change next.metadata.index.toNat = min (first.metadata.index.toNat + 1) (2^64-1) at hnext
    rw [List.length_cons]
    omega

section Guarded
variable {s : InnerTree}

/-- What the guard has checked of a state with a tip. -/
structure Guarded (s : InnerTree) : Prop where
  tip : s.hasTip = true
  hash : s.tipHash ≠ zeroHash
  parent : 0 < s.tipHeight → s.prevTipHash ≠ zeroHash
  solvent : Solvent s []
  short : s.blocks.length ≤ maxRecentBlocksInRam
  contiguous : verifyContiguousRecentBlocks s.blocks = .ok ()
  last : ∀ last, s.blocks.getLast? = some last → last.metadata.index = s.tipHeight ∧
    last.blockHash = s.tipHash ∧ last.metadata.previousHash = s.prevTipHash
  bounded : verifyRecentCacheNotFullHistoryRegression s = .ok ()

theorem solvent_of_verified (haccounts : ∀ e ∈ s.balances.toList, verifyAccount e.1 e.2 = .ok ())
    (hsupply : verifySupply s = .ok ()) : Solvent s [] := by
  simp only [verifySupply, sumBalancesChecked, bind_eq_ok_iff, okOr_eq_ok_iff,
    rejectIf_eq_ok_iff, not_not] at hsupply
  obtain ⟨sum, hsum, _, -, _, hrewards, _, hissued, heq⟩ := hsupply
  have htotal := (checkedTotal_eq_some_iff _ _).mp hsum
  refine ⟨?_, ?_, ?_, ?_, ?_, ?_⟩
  · rw [htotal, heq]
  · exact UInt64.le_iff_toNat_le.mp (UInt64.not_lt.mp hrewards)
  · exact UInt64.le_iff_toNat_le.mp (UInt64.not_lt.mp hissued)
  · exact fun _ => Nat.zero_le _
  · intro kind hkind
    cases hkind
  · intro account hsome
    obtain ⟨v, hv⟩ := Option.ne_none_iff_exists'.mp hsome
    have haccount := haccounts (account, v) (ExtTreeMap.mem_toList_iff_getElem?_eq_some.mpr hv)
    simp only [verifyAccount, bind_eq_ok_iff] at haccount
    obtain ⟨_, hkey, -⟩ := haccount
    exact (validateAccountKeyString_ok_iff _ _).mp hkey

theorem verified_of_solvent (h : Solvent s []) :
    (∀ e ∈ s.balances.toList, verifyAccount e.1 e.2 = .ok ()) ∧ verifySupply s = .ok () := by
  have hcap : s.totalIssuedMicro.toNat ≤ maxSupply.toNat := h.cap
  have hsum := (checkedTotal_eq_some_iff _ _).mpr h.sum
  constructor
  · rintro ⟨account, v⟩ hmem
    have hget := ExtTreeMap.mem_toList_iff_getElem?_eq_some.mp hmem
    have hkey := (validateAccountKeyString_ok_iff account "Account state key").mpr
      (h.keys account (by rw [hget]; exact Option.some_ne_none v))
    have hle := amount_le_total s.balances account
    rw [h.sum, amount, hget] at hle
    change v.toNat ≤ _ at hle
    have hbelow : ¬maxSupply < v := by
      rw [UInt64.lt_iff_toNat_lt]
      omega
    rw [verifyAccount, hkey, ok_bind, rejectIf_of_not _ hbelow]
  · have hrewards : ¬s.totalIssuedMicro < s.rewardsIssuedMicro := by
      rw [UInt64.lt_iff_toNat_lt]
      exact Nat.not_lt.mpr h.rewards
    have hbelow : ¬maxSupply < s.totalIssuedMicro := by
      rw [UInt64.lt_iff_toNat_lt]
      exact Nat.not_lt.mpr hcap
    rw [verifySupply, sumBalancesChecked, hsum]
    change (rejectIf (maxSupply < s.totalIssuedMicro) _ >>= _) = _
    rw [rejectIf_of_not _ hbelow, ok_bind, rejectIf_of_not _ hrewards, ok_bind,
      rejectIf_of_not _ hbelow, ok_bind, rejectIf_of_not _ (fun hne => hne rfl)]

theorem guarded_iff (htip : s.hasTip = true) :
    verifyStateInvariants s none = .ok () ↔ Guarded s := by
  simp only [verifyStateInvariants, verifyCompactTipShape, verifyRecentBlockCache, htip, if_true,
    bind_eq_ok_iff, rejectIf_eq_ok_iff]
  constructor
  · rintro ⟨_, ⟨_, hhash, hparent⟩, _, haccounts, _, hsupply, _, ⟨_, hshort, _, hcontiguous, hlast⟩, _,
      hbounded, -⟩
    refine ⟨htip, hhash, fun hpos hzero => hparent ⟨hpos, hzero⟩,
      solvent_of_verified ((forM_eq_ok_iff _ _).mp haccounts) hsupply,
      Nat.not_lt.mp hshort, hcontiguous, ?_, hbounded⟩
    intro last hget
    rw [hget] at hlast
    simp only [verifyRecentTip, bind_eq_ok_iff, rejectIf_eq_ok_iff, not_or, not_not] at hlast
    obtain ⟨_, ⟨hindex, hhash⟩, hprev⟩ := hlast
    exact ⟨hindex, hhash, hprev⟩
  · intro h
    obtain ⟨haccounts, hsupply⟩ := verified_of_solvent h.solvent
    refine ⟨(), ⟨(), h.hash, fun hzero => h.parent hzero.1 hzero.2⟩, (),
      (forM_eq_ok_iff _ _).mpr haccounts, (), hsupply, (),
      ⟨(), Nat.not_lt.mpr h.short, (), h.contiguous, ?_⟩, (), h.bounded, trivial⟩
    cases hget : s.blocks.getLast? with
    | none => rfl
    | some last =>
      obtain ⟨hindex, hhash, hprev⟩ := h.last last hget
      simp only [verifyRecentTip, bind_eq_ok_iff, rejectIf_eq_ok_iff, not_or, not_not]
      exact ⟨(), ⟨hindex, hhash⟩, hprev⟩

end Guarded

/-! ### The dry run -/

section DryRun
variable [Blake3] {s : InnerTree} {block : Block} {batch : TransactionBatch}

/-- A block that can be put on the tip. -/
structure Linked (s : InnerTree) (block : Block) : Prop where
  height : block.metadata.index = s.expectedNextHeight
  bounded : block.metadata.index ≤ maxMetadataIndexHard
  parent : block.metadata.previousHash = s.tipHash
  hash : block.blockHash ≠ zeroHash

omit [Blake3] in
theorem Linked.toNat (h : Linked s block) (htip : s.hasTip = true) :
    block.metadata.index.toNat = s.tipHeight.toNat + 1 := by
  have hlimit : block.metadata.index.toNat ≤ 10000000 := UInt64.le_iff_toNat_le.mp h.bounded
  have hnext := congrArg UInt64.toNat h.height
  rw [InnerTree.expectedNextHeight, if_pos htip, saturatingAdd_toNat] at hnext
  change block.metadata.index.toNat = min (s.tipHeight.toNat + 1) (2^64-1) at hnext
  omega

omit [Blake3] in
/-- Remembering the next block keeps everything the guard checks, whatever the balances become. -/
theorem Guarded.remember (h : Guarded s) (hlink : Linked s block) {next : InnerTree}
    (hsolvent : Solvent next []) {w : ℕ} (hmoves : Moves (rememberRecentBlock s block) next w) :
    Guarded next := by
  have hheight := hlink.toNat h.tip
  have hrest := hmoves.rest
  have htip : next.hasTip = true := by rw [hrest]; rfl
  have hhash : next.tipHash = block.blockHash := by rw [hrest]; rfl
  have htipHeight : next.tipHeight = block.metadata.index := by rw [hrest]; rfl
  have hprev : next.prevTipHash = s.tipHash := by
    rw [hrest]
    change (if s.hasTip then s.tipHash else _) = _
    rw [h.tip, if_pos rfl]
  have hblocks : next.blocks = drainExcess (s.blocks ++ [block]) := by
    rw [hrest]
    simp only [rememberRecentBlock]
  have happend : verifyContiguousRecentBlocks (s.blocks ++ [block]) = .ok () := by
    refine contiguous_append h.contiguous fun last hget => ?_
    obtain ⟨hindex, hlast, -⟩ := h.last last hget
    rw [hindex, hlast, hlink.height, hlink.parent, InnerTree.expectedNextHeight, if_pos h.tip]
    exact ⟨rfl, rfl⟩
  have hcontiguous : verifyContiguousRecentBlocks next.blocks = .ok () := by
    rw [hblocks]
    exact contiguous_drop happend _
  have hlen := h.short
  have hlast : next.blocks.getLast? = some block := by
    rw [hblocks, drainExcess, List.getLast?_drop, if_neg, List.getLast?_concat]
    rw [List.length_append, List.length_singleton]
    have hram : maxRecentBlocksInRam = 512 := rfl
    omega
  refine ⟨htip, ?_, ?_, hsolvent, ?_, hcontiguous, ?_, ?_⟩
  · rw [hhash]
    exact hlink.hash
  · intro _
    rw [hprev]
    exact h.hash
  · rw [hblocks, drainExcess, List.length_drop]
    omega
  · intro last hget
    obtain rfl := Option.some.inj (hlast.symm.trans hget)
    exact ⟨htipHeight.symm, hhash.symm, hprev ▸ hlink.parent⟩
  · -- A full cache that starts at genesis would end below its own length.
    rw [verifyRecentCacheNotFullHistoryRegression]
    split
    · rfl
    · rename_i hfull
      cases hfirst : next.blocks with
      | nil => rfl
      | cons first rest =>
        rw [hfirst] at hcontiguous hlast hfull
        have hcount := contiguous_first hcontiguous hlast hlink.bounded
        apply rejectIf_of_not
        rintro ⟨hram, hzero⟩
        have hshort : (first :: rest).length ≤ maxRecentBlocksInRam := by
          rw [← hfirst, hblocks, drainExcess, List.length_drop]
          omega
        rw [hzero] at hcount
        change 0 + rest.length = _ at hcount
        rw [htipHeight] at hram
        rw [List.length_cons] at hshort
        omega

end DryRun

/-! ### Structure -/

section Structure
variable [Blake3] {batch : TransactionBatch}

open BlockchainValidation

/-- A batch as the builder checks it. -/
structure WellFormed (batch : TransactionBatch) : Prop where
  size : batch.serializedLen ≤ maxBatchSerializedBytes
  count : batch.transactions.length ≤ maxTxsPerBlock
  valid : ∀ kind ∈ batch.transactions, validateBatchKind kind = .ok ()
  distinct : ((transfers batch.transactions).map Transaction.idText).Nodup

omit [Blake3] in
theorem named_of_valid {kind : TxKind} (h : validateBatchKind kind = .ok ()) :
    ∀ account ∈ kind.accounts, KeyOk account := by
  intro account hmem
  cases kind with
  | transfer tx =>
    simp only [validateBatchKind, validateTransaction, Transaction.validateStructural,
      bind_eq_ok_iff] at h
    obtain ⟨_, ⟨_, hsender, _, hreceiver, -⟩, -⟩ := h
    simp only [TxKind.accounts, List.mem_cons, List.not_mem_nil, or_false] at hmem
    rcases hmem with rfl | rfl
    · exact (parseWalletAddressBytes_wallet hsender).keyOk
    · exact (parseWalletAddressBytes_wallet hreceiver).keyOk
  | reward rew =>
    have hvalid := (mapErr_eq_ok_iff _ _ _).mp h
    simp only [RewardTx.validate, bind_eq_ok_iff] at hvalid
    obtain ⟨_, -, _, -, _, hreceiver, -⟩ := hvalid
    obtain rfl := List.mem_singleton.mp hmem
    exact (parseWalletAddressBytes_wallet hreceiver).keyOk
  | registerNode reg =>
    have hvalid := (mapErr_eq_ok_iff _ _ _).mp h
    simp only [RegisterNodeTx.validateStructural, bind_eq_ok_iff, rejectIf_eq_ok_iff,
      not_not] at hvalid
    obtain ⟨canon, hcanon, _, rfl, -⟩ := hvalid
    obtain rfl := List.mem_singleton.mp hmem
    exact (canonWalletFromBytes_wallet hcanon).keyOk
  | nftMint tx => cases hmem
  | nftTransfer tx => cases hmem

omit [Blake3] in
theorem validateTransfer_ok {tx : Transaction} (h : validateTransaction tx = .ok ()) :
    AccountGuard.validateTransfer tx = .ok () := by
  have hnamed := @named_of_valid (.transfer tx) h
  simp only [validateTransaction, Transaction.validateStructural, bind_eq_ok_iff,
    rejectIf_eq_ok_iff] at h
  obtain ⟨_, ⟨sender, hsender, receiver, hreceiver, _, hdiffer, _, hzero, -⟩, hmax⟩ := h
  have hsame : normalizeWalletBytes tx.sender.toList ≠ normalizeWalletBytes tx.receiver.toList := by
    intro heq
    have hbytes := congrArg utf8 heq
    rw [(parseWalletAddressBytes_wallet hsender).normalize,
      (parseWalletAddressBytes_wallet hreceiver).normalize] at hbytes
    rw [hbytes] at hsender
    exact hdiffer (Except.ok.inj (hsender.symm.trans hreceiver))
  rw [AccountGuard.validateTransfer, rejectIf_of_not _ hzero, ok_bind,
    (validateAccountKeyString_ok_iff _ _).mpr (hnamed _ List.mem_cons_self), ok_bind,
    (validateAccountKeyString_ok_iff _ _).mpr (hnamed _ (List.mem_cons_of_mem _ List.mem_cons_self)),
    ok_bind, rejectIf_of_not _ hsame, ok_bind, rejectIf_of_not _ hmax]

omit [Blake3] in
theorem validateReward_ok {rew : RewardTx} (h : validateBatchKind (.reward rew) = .ok ()) :
    AccountGuard.validateReward rew = .ok () := by
  have hkey := named_of_valid h _ List.mem_cons_self
  have hvalid := (mapErr_eq_ok_iff _ _ _).mp h
  simp only [RewardTx.validate, RewardTx.validateAmount, bind_eq_ok_iff,
    rejectIf_eq_ok_iff] at hvalid
  obtain ⟨_, ⟨_, hzero, hmax⟩, -⟩ := hvalid
  rw [AccountGuard.validateReward, rejectIf_of_not _ hzero, ok_bind,
    (validateAccountKeyString_ok_iff _ _).mpr hkey, ok_bind, rejectIf_of_not _ hmax]

/-- The structural scan, by induction on the list: the transfers still to come are new to it. -/
theorem foldlM_validateKind_ok (kinds : List TxKind) (acc : List String × ℕ)
    (hvalid : ∀ kind ∈ kinds, validateBatchKind kind = .ok ())
    (hdistinct : ((transfers kinds).map Transaction.idText).Nodup)
    (hfresh : ∀ tx ∈ transfers kinds, tx.idText ∉ acc.1) :
    ∃ acc', kinds.foldlM validateKind acc = .ok acc' := by
  induction kinds generalizing acc with
  | nil => exact ⟨acc, rfl⟩
  | cons kind kinds ih =>
    have hkind := hvalid kind List.mem_cons_self
    have hrest := fun k hk => hvalid k (List.mem_cons_of_mem kind hk)
    rw [List.foldlM_cons]
    cases kind with
    | transfer tx =>
      change (tx.idText :: (transfers kinds).map Transaction.idText).Nodup at hdistinct
      obtain ⟨hnew, hdistinct⟩ := List.nodup_cons.mp hdistinct
      have hstructural : tx.validateStructural = .ok () := by
        simp only [validateBatchKind, validateTransaction, bind_eq_ok_iff] at hkind
        obtain ⟨_, hstructural, -⟩ := hkind
        exact hstructural
      have hstep : validateKind acc (.transfer tx) = .ok (tx.idText :: acc.1, acc.2) := by
        rw [validateKind, validateTransfer_ok hkind, ok_bind, Transaction.id_of_valid hstructural,
          ok_bind, rejectIf_of_not _ (hfresh tx List.mem_cons_self)]
        rfl
      rw [hstep, ok_bind]
      apply ih _ hrest hdistinct
      intro tx' htx' hmem
      rcases List.mem_cons.mp hmem with heq | hold
      · exact hnew (heq ▸ List.mem_map_of_mem htx')
      · exact hfresh tx' (List.mem_cons_of_mem tx htx') hold
    | reward rew =>
      rw [validateKind, validateReward_ok hkind]
      exact ih _ hrest hdistinct hfresh
    | registerNode reg =>
      have hkey := named_of_valid hkind _ List.mem_cons_self
      rw [validateKind, (validateAccountKeyString_ok_iff _ _).mpr hkey]
      exact ih _ hrest hdistinct hfresh
    | nftMint tx => exact ih _ hrest hdistinct hfresh
    | nftTransfer tx => exact ih _ hrest hdistinct hfresh

/-- Of what the builder has checked, the guard can only object to a second reward. -/
theorem validateBatchStructure_ok_iff (h : WellFormed batch) :
    validateBatchStructure batch = .ok () ↔ batch.transactions.countP TxKind.isReward ≤ 1 := by
  constructor
  · exact validateBatchStructure_rewardCount batch
  · intro hcount
    obtain ⟨acc, hscan⟩ := foldlM_validateKind_ok batch.transactions ([], 0) h.valid h.distinct
      fun _ _ => List.not_mem_nil
    have hrewards := foldlM_validateKind_rewardCount _ _ _ hscan
    rw [validateBatchStructure, validateBatchStructureWithRewardPolicy, validateBatchPayloadSize,
      rejectIf_of_not _ (Nat.not_lt.mpr h.size), ok_bind, rejectIf_of_not _ (Nat.not_lt.mpr h.count),
      ok_bind, hscan, ok_bind]
    apply rejectIf_of_not
    rintro ⟨-, htwo⟩
    simp only [Nat.zero_add] at hrewards
    omega

end Structure

end Remzar
