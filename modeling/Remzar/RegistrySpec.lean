import Mathlib
import Remzar.Lib.Runs
import Remzar.Registry

/-! What every run of the registry keeps: eight collections that agree on the wallets. -/
namespace Remzar
open Std Fallible Effects

/-! ### Derived wallet ids -/

theorem toList_derive [Blake3] (vk : VerifyingKeyBytes) :
    (deriveWalletIdFromPubkeyBytes vk).toList =
      'r' :: (Blake3.toHex (Blake3.xof64 vk).toList).toList := by
  rw [deriveWalletIdFromPubkeyBytes, String.toList_ofList]

theorem toAsciiLowercase_toHex (bytes : List UInt8) :
    ∀ c ∈ (Blake3.toHex bytes).toList, ¬('A' ≤ c ∧ c ≤ 'Z') := by
  intro c hc
  obtain ⟨n, rfl⟩ := mem_toHex hc
  exact (hexDigit_plain n).2.1

theorem utf8_toHex (bytes : List UInt8) : ∀ b ∈ Text.utf8 (Blake3.toHex bytes), isLowerHex b = true := by
  intro b hb
  rw [Text.utf8_eq, List.mem_flatMap] at hb
  obtain ⟨c, hc, hbc⟩ := hb
  obtain ⟨n, rfl⟩ := mem_toHex hc
  obtain ⟨-, -, b', hb', hhex⟩ := hexDigit_plain n
  rw [hb', List.mem_singleton] at hbc
  rw [hbc]
  exact hhex

/-- `r` and the digits of 64 bytes. -/
theorem canonicalWallet_of_digits {wallet : String} {bytes : List UInt8} (hbytes : bytes.length = 64)
    (h : wallet.toList = 'r' :: (Blake3.toHex bytes).toList) : CanonicalWallet wallet := by
  have hutf8 : Text.utf8 wallet = 114 :: Text.utf8 (Blake3.toHex bytes) := by
    rw [Text.utf8_eq, Text.utf8_eq, h, List.flatMap_cons]
    rfl
  refine ⟨?_, ?_, ?_, ?_⟩
  · have hsame : wallet.toList.map (fun c =>
        if 'A' ≤ c ∧ c ≤ 'Z' then Char.ofNat (c.toNat+32) else c) = wallet.toList := by
      refine (List.map_congr_left fun c hc => if_neg ?_).trans (List.map_id' _)
      rw [h, List.mem_cons] at hc
      rcases hc with rfl | hc
      · decide
      · exact toAsciiLowercase_toHex bytes c hc
    rw [toAsciiLowercase, Text.chars_eq, hsame, String.ofList_toList]
  · rw [byteLen, hutf8, List.length_cons]
    change byteLen _ + 1 = _
    rw [length_toHex, hbytes]
    rfl
  · rw [hutf8]
    rfl
  · rw [hutf8, List.tail_cons, List.all_eq_true]
    exact utf8_toHex bytes

theorem canonicalWallet_derive [Blake3] (vk : VerifyingKeyBytes) :
    CanonicalWallet (deriveWalletIdFromPubkeyBytes vk) :=
  canonicalWallet_of_digits (Blake3.xof64 vk).toList_length (toList_derive vk)

namespace EphemeralRegistry
variable {r r' : EphemeralRegistry} {addr : String}

/-- The collections agree on the wallets, all wallets are canonical and the caps hold. -/
structure Sound (r : EphemeralRegistry) : Prop where
  joinHeights : ∀ w, w ∈ r.joinHeights ↔ w ∈ r.wallets
  lastSeenAt : ∀ w, w ∈ r.lastSeenAt ↔ w ∈ r.wallets
  joinedAt : ∀ w, w ∈ r.joinedAt ↔ w ∈ r.wallets
  verifyingKeys : ∀ w, w ∈ r.verifyingKeys → w ∈ r.wallets
  tipSnapshots : ∀ w, w ∈ r.tipSnapshots → w ∈ r.wallets
  heartbeatRoundSeen : r.heartbeatRoundSeen ⊆ r.wallets
  identities : ∀ p w : String, r.identityMap[p]? = some w → w ∈ r.wallets
  canonical : ∀ w ∈ r.wallets, CanonicalWallet w
  validatorCap : r.wallets.card ≤ maxValidators
  keyCap : r.verifyingKeys.size ≤ maxVerifyingKeys
  identityCap : r.identityMap.size ≤ maxIdentities

theorem Sound.new : new.Sound where
  joinHeights w := by simp [EphemeralRegistry.new]
  lastSeenAt w := by simp [EphemeralRegistry.new]
  joinedAt w := by simp [EphemeralRegistry.new]
  verifyingKeys w hw := absurd hw ExtTreeMap.not_mem_empty
  tipSnapshots w hw := absurd hw ExtTreeMap.not_mem_empty
  heartbeatRoundSeen := Finset.Subset.refl _
  identities p w hp := by simp [EphemeralRegistry.new] at hp
  canonical w hw := absurd hw (Finset.notMem_empty w)
  validatorCap := Nat.zero_le _
  keyCap := Nat.zero_le _
  identityCap := Nat.zero_le _

theorem card_insert_le_cap (h : r.wallets.card < maxValidators) (addr : String) :
    (insert addr r.wallets).card ≤ maxValidators :=
  (Finset.card_insert_le addr r.wallets).trans h

theorem mem_insert_iff {β : Type} {m : ExtTreeMap String β} {k a : String} {v : β} :
    a ∈ m.insert k v ↔ a = k ∨ a ∈ m := by
  rw [ExtTreeMap.mem_insert, LawfulEqCmp.compare_eq_iff_eq, eq_comm]

theorem mem_insertIfNew_iff {β : Type} {m : ExtTreeMap String β} {k a : String} {v : β} :
    a ∈ m.insertIfNew k v ↔ a = k ∨ a ∈ m := by
  rw [ExtTreeMap.mem_insertIfNew, LawfulEqCmp.compare_eq_iff_eq, eq_comm]

theorem mem_erase_iff {β : Type} {m : ExtTreeMap String β} {k a : String} :
    a ∈ m.erase k ↔ a ≠ k ∧ a ∈ m := by
  rw [ExtTreeMap.mem_erase, ne_eq, LawfulEqCmp.compare_eq_iff_eq, ← ne_eq, ne_comm]

theorem mem_filter_iff {β : Type} {m : ExtTreeMap String β} {p : String → Prop} [DecidablePred p]
    {a : String} : a ∈ m.filter (fun k _ => decide (p k)) ↔ a ∈ m ∧ p a := by
  rw [ExtTreeMap.mem_iff_isSome_getElem?, ExtTreeMap.mem_iff_isSome_getElem?,
    ExtTreeMap.getElem?_filter']
  cases m[a]? with
  | none => simp
  | some v => simp [Option.filter]

/-- Registrations and heartbeats of a canonical wallet, below the cap. -/
theorem Sound.enroll (h : r.Sound) (haddr : CanonicalWallet addr)
    (hcap : r.wallets.card < maxValidators) (joinHeight now : UInt64) :
    (r.enroll addr joinHeight now).Sound where
  joinHeights w := by
    change w ∈ r.joinHeights.insertIfNew addr joinHeight ↔ w ∈ insert addr r.wallets
    rw [mem_insertIfNew_iff, Finset.mem_insert, h.joinHeights]
  lastSeenAt w := by
    change w ∈ r.lastSeenAt.insert addr now ↔ w ∈ insert addr r.wallets
    rw [mem_insert_iff, Finset.mem_insert, h.lastSeenAt]
  joinedAt w := by
    change w ∈ r.joinedAt.insertIfNew addr now ↔ w ∈ insert addr r.wallets
    rw [mem_insertIfNew_iff, Finset.mem_insert, h.joinedAt]
  verifyingKeys w hw := Finset.mem_insert_of_mem (h.verifyingKeys w hw)
  tipSnapshots w hw := Finset.mem_insert_of_mem (h.tipSnapshots w hw)
  heartbeatRoundSeen := Finset.insert_subset_insert addr h.heartbeatRoundSeen
  identities p w hp := Finset.mem_insert_of_mem (h.identities p w hp)
  canonical w hw := by
    rcases Finset.mem_insert.mp hw with rfl | hw
    · exact haddr
    · exact h.canonical w hw
  validatorCap := card_insert_le_cap hcap addr
  keyCap := h.keyCap
  identityCap := h.identityCap

theorem Sound.tip (h : r.Sound) (haddr : addr ∈ r.wallets) (tip : UInt64) :
    { r with tipSnapshots := r.tipSnapshots.insert addr tip }.Sound :=
  { h with
    tipSnapshots := by
      intro w hw
      rcases mem_insert_iff.mp hw with rfl | hw
      · exact haddr
      · exact h.tipSnapshots w hw }

theorem Sound.key (h : r.Sound) (haddr : addr ∈ r.wallets)
    (hcap : r.verifyingKeys.size < maxVerifyingKeys) (vk : VerifyingKeyBytes) :
    { r with verifyingKeys := r.verifyingKeys.insert addr vk }.Sound :=
  { h with
    verifyingKeys := by
      intro w hw
      rcases mem_insert_iff.mp hw with rfl | hw
      · exact haddr
      · exact h.verifyingKeys w hw
    keyCap := ExtTreeMap.size_insert_le.trans hcap }

theorem Sound.identity (h : r.Sound) (haddr : addr ∈ r.wallets)
    (hcap : r.identityMap.size < maxIdentities) (peerId : String) :
    { r with identityMap := r.identityMap.insert peerId addr }.Sound :=
  { h with
    identities := by
      intro p w hp
      rw [ExtTreeMap.getElem?_insert] at hp
      split at hp
      · cases hp
        exact haddr
      · exact h.identities p w hp
    identityCap := ExtTreeMap.size_insert_le.trans hcap }

/-- Leaving, whatever is left of the identities. -/
theorem Sound.remove_of (h : r.Sound) (addr : String) (identityMap : ExtTreeMap String String)
    (hidentities : ∀ p w : String, identityMap[p]? = some w → r.identityMap[p]? = some w ∧ w ≠ addr)
    (hcap : identityMap.size ≤ maxIdentities) : { r.remove addr with identityMap }.Sound where
  joinHeights w := by
    change w ∈ r.joinHeights.erase addr ↔ w ∈ r.wallets.erase addr
    rw [mem_erase_iff, Finset.mem_erase, h.joinHeights]
  lastSeenAt w := by
    change w ∈ r.lastSeenAt.erase addr ↔ w ∈ r.wallets.erase addr
    rw [mem_erase_iff, Finset.mem_erase, h.lastSeenAt]
  joinedAt w := by
    change w ∈ r.joinedAt.erase addr ↔ w ∈ r.wallets.erase addr
    rw [mem_erase_iff, Finset.mem_erase, h.joinedAt]
  verifyingKeys w hw := by
    obtain ⟨hne, hw⟩ := mem_erase_iff.mp hw
    exact Finset.mem_erase.mpr ⟨hne, h.verifyingKeys w hw⟩
  tipSnapshots w hw := by
    obtain ⟨hne, hw⟩ := mem_erase_iff.mp hw
    exact Finset.mem_erase.mpr ⟨hne, h.tipSnapshots w hw⟩
  heartbeatRoundSeen := Finset.erase_subset_erase addr h.heartbeatRoundSeen
  identities p w hp := by
    obtain ⟨hp, hne⟩ := hidentities p w hp
    exact Finset.mem_erase.mpr ⟨hne, h.identities p w hp⟩
  canonical w hw := h.canonical w (Finset.mem_of_mem_erase hw)
  validatorCap := (Finset.card_le_card (Finset.erase_subset addr _)).trans h.validatorCap
  keyCap := ExtTreeMap.size_erase_le.trans h.keyCap
  identityCap := hcap

theorem Sound.remove (h : r.Sound) (addr : String) : (r.remove addr).Sound := by
  refine h.remove_of addr (r.remove addr).identityMap ?_ ?_
  · intro p w hp
    change (r.identityMap.filter fun _ w => decide (w ≠ addr))[p]? = some w at hp
    rw [ExtTreeMap.getElem?_filter', Option.filter_eq_some_iff] at hp
    exact ⟨hp.1, of_decide_eq_true hp.2⟩
  · exact ExtTreeMap.size_filter_le_size.trans h.identityCap

theorem Sound.unregisterByPeer (h : r.Sound) (peerId : String) :
    (r.unregisterByPeer peerId).2.Sound := by
  unfold EphemeralRegistry.unregisterByPeer
  split
  · exact h
  · split
    · exact h
    · rename_i addr _
      refine h.remove_of addr _ ?_ ?_
      · intro p w hp
        rw [ExtTreeMap.getElem?_filter', Option.filter_eq_some_iff, ExtTreeMap.getElem?_erase] at hp
        obtain ⟨hp, hne⟩ := hp
        split at hp
        · cases hp
        · exact ⟨hp, of_decide_eq_true hne⟩
      · exact (ExtTreeMap.size_filter_le_size.trans ExtTreeMap.size_erase_le).trans h.identityCap

theorem Sound.unregisterWallet (h : r.Sound) (walletAddr : String) :
    (r.unregisterWallet walletAddr).2.Sound := by
  unfold EphemeralRegistry.unregisterWallet
  split
  · exact h
  · split
    · exact h.remove _
    · exact h

theorem Sound.removeAll (h : r.Sound) (gone : List String) :
    (gone.foldl EphemeralRegistry.remove r).Sound := by
  induction gone generalizing r with
  | nil => exact h
  | cons addr gone ih => exact ih (h.remove addr)

theorem Sound.finalizeHeartbeatRound (h : r.Sound) : r.finalizeHeartbeatRound.Sound := by
  unfold EphemeralRegistry.finalizeHeartbeatRound
  split
  · exact .new
  · have hwallets : ∀ w, w ∈ r.wallets ∩ r.heartbeatRoundSeen → w ∈ r.wallets :=
      fun w hw => (Finset.mem_inter.mp hw).1
    exact
      { joinHeights := fun w => by
          rw [mem_filter_iff, h.joinHeights, and_iff_right_of_imp (hwallets w)]
        lastSeenAt := fun w => by
          rw [mem_filter_iff, h.lastSeenAt, and_iff_right_of_imp (hwallets w)]
        joinedAt := fun w => by
          rw [mem_filter_iff, h.joinedAt, and_iff_right_of_imp (hwallets w)]
        verifyingKeys := fun w hw => (mem_filter_iff.mp hw).2
        tipSnapshots := fun w hw => (mem_filter_iff.mp hw).2
        heartbeatRoundSeen := fun w hw => Finset.mem_inter.mpr ⟨h.heartbeatRoundSeen hw, hw⟩
        identities := fun p w hp => by
          rw [ExtTreeMap.getElem?_filter', Option.filter_eq_some_iff] at hp
          exact of_decide_eq_true hp.2
        canonical := fun w hw => h.canonical w (hwallets w hw)
        validatorCap := (Finset.card_le_card Finset.inter_subset_left).trans h.validatorCap
        keyCap := ExtTreeMap.size_filter_le_size.trans h.keyCap
        identityCap := ExtTreeMap.size_filter_le_size.trans h.identityCap }

/-! ### Checks before writes -/

/-- What lets a wallet be registered. -/
def checkUnregistered (walletAddr : String) (r : EphemeralRegistry) : Fallible String := do
  ensureUnderCap r.wallets.card maxValidators "validators"
  let addr ← canonWalletIdChecked walletAddr
  rejectIf (addr ∈ r.wallets) (validationErr s!"Wallet {addr} already registered (ephemeral)")
  return addr

/-- What lets a key be registered. -/
def checkKey [Blake3] (vk : VerifyingKeyBytes) (r : EphemeralRegistry) : Fallible String := do
  ensureUnderCap r.wallets.card maxValidators "validators"
  ensureUnderCap r.verifyingKeys.size maxVerifyingKeys "verifying_keys"
  let addr := deriveWalletIdFromPubkeyBytes vk
  rejectIf (addr ∈ r.wallets) (validationErr s!"Wallet {addr} already registered (ephemeral)")
  return addr

/-- What names a wallet that is there. -/
def checkRegistered (walletAddr : String) (r : EphemeralRegistry) : Fallible String := do
  let can ← canonWalletIdChecked walletAddr
  rejectIf (can ∉ r.wallets) (validationErr s!"Wallet {can} is not registered (ephemeral)")
  return can

def checkIdentity (peerId walletAddr : String) (r : EphemeralRegistry) : Fallible String := do
  validatePeerIdB58 peerId
  ensureUnderCap r.identityMap.size maxIdentities "identity_map"
  checkRegistered walletAddr r

/-- What lets a heartbeat count. -/
def checkHeartbeat (walletAddr : String) (r : EphemeralRegistry) : Fallible String := do
  ensureUnderCap r.wallets.card maxValidators "validators"
  canonWalletIdChecked walletAddr

theorem ensureUnderCap_ok_iff {cur cap : ℕ} {what : String} :
    ensureUnderCap cur cap what = .ok () ↔ cur < cap := by
  rw [ensureUnderCap, rejectIf_eq_ok_iff, Nat.not_le]

theorem checkUnregistered_ok_iff {walletAddr : String} :
    checkUnregistered walletAddr r = .ok addr ↔ r.wallets.card < maxValidators ∧
      canonWalletIdChecked walletAddr = .ok addr ∧ addr ∉ r.wallets := by
  simp only [checkUnregistered, bind_eq_ok_iff, pure_eq_ok_iff, rejectIf_eq_ok_iff]
  constructor
  · rintro ⟨_, hcap, addr', hcanon, _, hnew, rfl⟩
    exact ⟨ensureUnderCap_ok_iff.mp hcap, hcanon, hnew⟩
  · rintro ⟨hcap, hcanon, hnew⟩
    exact ⟨(), ensureUnderCap_ok_iff.mpr hcap, addr, hcanon, (), hnew, rfl⟩

theorem checkKey_ok_iff [Blake3] {vk : VerifyingKeyBytes} :
    checkKey vk r = .ok addr ↔ r.wallets.card < maxValidators ∧
      r.verifyingKeys.size < maxVerifyingKeys ∧ addr = deriveWalletIdFromPubkeyBytes vk ∧
      addr ∉ r.wallets := by
  simp only [checkKey, bind_eq_ok_iff, pure_eq_ok_iff, rejectIf_eq_ok_iff]
  constructor
  · rintro ⟨_, hcap, _, hkeys, _, hnew, rfl⟩
    exact ⟨ensureUnderCap_ok_iff.mp hcap, ensureUnderCap_ok_iff.mp hkeys, rfl, hnew⟩
  · rintro ⟨hcap, hkeys, rfl, hnew⟩
    exact ⟨(), ensureUnderCap_ok_iff.mpr hcap, (), ensureUnderCap_ok_iff.mpr hkeys, (), hnew, rfl⟩

theorem checkRegistered_ok_iff {walletAddr : String} :
    checkRegistered walletAddr r = .ok addr ↔
      canonWalletIdChecked walletAddr = .ok addr ∧ addr ∈ r.wallets := by
  simp only [checkRegistered, bind_eq_ok_iff, pure_eq_ok_iff, rejectIf_eq_ok_iff, not_not]
  constructor
  · rintro ⟨addr', hcanon, _, hmem, rfl⟩
    exact ⟨hcanon, hmem⟩
  · rintro ⟨hcanon, hmem⟩
    exact ⟨addr, hcanon, (), hmem, rfl⟩

theorem checkHeartbeat_ok_iff {walletAddr : String} :
    checkHeartbeat walletAddr r = .ok addr ↔ r.wallets.card < maxValidators ∧
      canonWalletIdChecked walletAddr = .ok addr := by
  simp only [checkHeartbeat, bind_eq_ok_iff]
  constructor
  · rintro ⟨_, hcap, hcanon⟩
    exact ⟨ensureUnderCap_ok_iff.mp hcap, hcanon⟩
  · rintro ⟨hcap, hcanon⟩
    exact ⟨(), ensureUnderCap_ok_iff.mpr hcap, hcanon⟩

theorem registerWalletStrict_eq (clock : Int64) (walletAddr : String) (joinHeight : UInt64) :
    registerWalletStrict clock walletAddr joinHeight = guarded (checkUnregistered walletAddr)
      fun addr r => r.enroll addr joinHeight (nowUnix clock) := by
  rw [guarded_eq]
  unfold checkUnregistered
  simp only [lift_bind, bind_assoc]
  rfl

theorem registerWalletFromVk_eq [Blake3] (clock : Int64) (vk : VerifyingKeyBytes) (joinHeight : UInt64) :
    registerWalletFromVk clock vk joinHeight = guarded (checkKey vk) fun addr r =>
      { r.enroll addr joinHeight (nowUnix clock) with
        verifyingKeys := r.verifyingKeys.insert addr vk } := by
  rw [guarded_eq]
  unfold checkKey
  simp only [lift_bind, bind_assoc]
  rfl

theorem noteHeartbeatRound_eq (clock : Int64) (walletAddr : String) (tipSnapshot : UInt64) :
    noteHeartbeatRound clock walletAddr tipSnapshot = guarded (checkHeartbeat walletAddr)
      fun addr r => { r.enroll addr 0 (nowUnix clock) with
        tipSnapshots := r.tipSnapshots.insert addr tipSnapshot } := by
  rw [guarded_eq]
  unfold checkHeartbeat
  simp only [lift_bind, bind_assoc]
  rfl

theorem associateIdentity_eq (peerId walletAddr : String) :
    associateIdentity peerId walletAddr = (do
      let _ ← guarded (checkIdentity peerId walletAddr) fun can r =>
        { r with identityMap := r.identityMap.insert peerId can }) := by
  rw [guarded_eq]
  unfold checkIdentity checkRegistered
  simp only [lift_bind, bind_assoc]
  rfl

theorem setJoinHeight_eq (walletAddr : String) (height : UInt64) :
    setJoinHeight walletAddr height = (do
      let _ ← guarded (checkRegistered walletAddr) fun can r =>
        { r with joinHeights := r.joinHeights.insertIfNew can height }) := by
  rw [guarded_eq]
  unfold checkRegistered
  simp only [lift_bind, bind_assoc]
  rfl

theorem setTipSnapshot_eq (walletAddr : String) (tipSnapshot : UInt64) :
    setTipSnapshot walletAddr tipSnapshot = (do
      let _ ← guarded (checkRegistered walletAddr) fun can r =>
        { r with tipSnapshots := r.tipSnapshots.insert can tipSnapshot }) := by
  rw [guarded_eq]
  unfold checkRegistered
  simp only [lift_bind, bind_assoc]
  rfl

/-! ### Calls -/

/-- A call keeps the registry sound, and one that fails does not touch it. -/
structure Keeps {α : Type} (x : RegistryM α) : Prop where
  sound : ∀ r, r.Sound → (storeOf (x r)).Sound
  atomic : ∀ r e r', x r = .error e r' → r' = r

theorem Keeps.guarded {α : Type} {check : EphemeralRegistry → Fallible α}
    {write : α → EphemeralRegistry → EphemeralRegistry}
    (h : ∀ r a, r.Sound → check r = .ok a → (write a r).Sound) : Keeps (guarded check write) where
  sound r hr := by
    cases hcheck : check r with
    | ok a =>
      rw [guarded_of_ok hcheck]
      exact h r a hr hcheck
    | error e =>
      rw [guarded_of_error hcheck]
      exact hr
  atomic r e r' hrun := by
    cases hcheck : check r with
    | ok a =>
      rw [guarded_of_ok hcheck] at hrun
      cases hrun
    | error e =>
      rw [guarded_of_error hcheck] at hrun
      cases hrun
      rfl

theorem Keeps.discard {α : Type} {x : RegistryM α} (h : Keeps x) :
    Keeps (x >>= fun _ => pure ()) where
  sound r hr := by
    have hx := h.sound r hr
    rw [bind_run]
    cases hrun : x r with
    | ok a r' =>
      rw [hrun] at hx
      exact hx
    | error e r' =>
      rw [hrun] at hx
      exact hx
  atomic r e r' hrun := by
    rw [bind_run] at hrun
    cases hx : x r with
    | ok a r₁ =>
      rw [hx] at hrun
      cases hrun
    | error e₁ r₁ =>
      rw [hx] at hrun
      cases hrun
      exact h.atomic r e r' hx

theorem Keeps.modify {f : EphemeralRegistry → EphemeralRegistry} (h : ∀ r, r.Sound → (f r).Sound) :
    Keeps (modify f) where
  sound := h
  atomic := nofun

theorem keeps_registerWalletStrict (clock : Int64) (walletAddr : String) (joinHeight : UInt64) :
    Keeps (registerWalletStrict clock walletAddr joinHeight) := by
  rw [registerWalletStrict_eq]
  apply Keeps.guarded
  intro r addr hr hcheck
  obtain ⟨hcap, hcanon, -⟩ := checkUnregistered_ok_iff.mp hcheck
  exact hr.enroll (canonWalletIdChecked_canonical hcanon) hcap _ _

theorem keeps_registerWalletFromVk [Blake3] (clock : Int64) (vk : VerifyingKeyBytes)
    (joinHeight : UInt64) : Keeps (registerWalletFromVk clock vk joinHeight) := by
  rw [registerWalletFromVk_eq]
  apply Keeps.guarded
  intro r addr hr hcheck
  obtain ⟨hcap, hkeys, rfl, -⟩ := checkKey_ok_iff.mp hcheck
  have henrolled := hr.enroll (canonicalWallet_derive vk) hcap joinHeight (nowUnix clock)
  exact henrolled.key (Finset.mem_insert_self _ _) hkeys vk

theorem keeps_noteHeartbeatRound (clock : Int64) (walletAddr : String) (tipSnapshot : UInt64) :
    Keeps (noteHeartbeatRound clock walletAddr tipSnapshot) := by
  rw [noteHeartbeatRound_eq]
  apply Keeps.guarded
  intro r addr hr hcheck
  obtain ⟨hcap, hcanon⟩ := checkHeartbeat_ok_iff.mp hcheck
  have henrolled := hr.enroll (canonWalletIdChecked_canonical hcanon) hcap 0 (nowUnix clock)
  exact henrolled.tip (Finset.mem_insert_self _ _) tipSnapshot

theorem keeps_associateIdentity (peerId walletAddr : String) :
    Keeps (associateIdentity peerId walletAddr) := by
  rw [associateIdentity_eq]
  refine (Keeps.guarded fun r can hr hcheck => ?_).discard
  simp only [checkIdentity, bind_eq_ok_iff] at hcheck
  obtain ⟨_, -, _, hcap, hregistered⟩ := hcheck
  obtain ⟨-, hmem⟩ := checkRegistered_ok_iff.mp hregistered
  exact hr.identity hmem (ensureUnderCap_ok_iff.mp hcap) peerId

/-- A wallet that is there has its join height, so the new one is not written. -/
theorem Sound.setJoinHeight (h : r.Sound) (haddr : addr ∈ r.wallets) (height : UInt64) :
    { r with joinHeights := r.joinHeights.insertIfNew addr height } = r := by
  have hmem : addr ∈ r.joinHeights := (h.joinHeights addr).mpr haddr
  have hsame : r.joinHeights.insertIfNew addr height = r.joinHeights := by
    apply ExtTreeMap.ext_getElem?
    intro k
    rw [ExtTreeMap.getElem?_insertIfNew, if_neg]
    rintro ⟨hk, hnew⟩
    exact hnew hmem
  rw [hsame]

theorem keeps_setJoinHeight (walletAddr : String) (height : UInt64) :
    Keeps (setJoinHeight walletAddr height) := by
  rw [setJoinHeight_eq]
  refine (Keeps.guarded fun r can hr hcheck => ?_).discard
  rw [hr.setJoinHeight (checkRegistered_ok_iff.mp hcheck).2 height]
  exact hr

theorem keeps_setTipSnapshot (walletAddr : String) (tipSnapshot : UInt64) :
    Keeps (setTipSnapshot walletAddr tipSnapshot) := by
  rw [setTipSnapshot_eq]
  refine (Keeps.guarded fun r can hr hcheck => ?_).discard
  exact hr.tip (checkRegistered_ok_iff.mp hcheck).2 tipSnapshot

theorem Sound.beginHeartbeatRound (h : r.Sound) : r.beginHeartbeatRound.Sound :=
  { h with heartbeatRoundSeen := Finset.empty_subset _ }

/-! ### Snapshots -/

/-- Stamping a wallet that has just been registered. -/
theorem Sound.stamp (h : r.Sound) (haddr : addr ∈ r.wallets) (now : UInt64) :
    { r with
      lastSeenAt := r.lastSeenAt.insert addr now
      joinedAt := r.joinedAt.insertIfNew addr now }.Sound :=
  { h with
    lastSeenAt := fun w => by
      rw [mem_insert_iff, h.lastSeenAt, or_iff_right_of_imp (fun hw => hw ▸ haddr)]
    joinedAt := fun w => by
      rw [mem_insertIfNew_iff, h.joinedAt, or_iff_right_of_imp (fun hw => hw ▸ haddr)] }

theorem registerEntry_member [Blake3] {e : SnapshotEntry}
    (hrun : registerEntry e r = .ok addr r') : addr ∈ r'.wallets := by
  unfold registerEntry at hrun
  cases hvk : e.vk with
  | some vk =>
    rw [hvk] at hrun
    dsimp only at hrun
    rw [registerWalletFromVk_eq] at hrun
    cases hcheck : checkKey vk r with
    | ok a =>
      rw [guarded_of_ok hcheck] at hrun
      cases hrun
      exact Finset.mem_insert_self _ _
    | error err =>
      rw [guarded_of_error hcheck] at hrun
      cases hrun
  | none =>
    rw [hvk] at hrun
    dsimp only at hrun
    rw [registerWalletStrict_eq] at hrun
    cases hcheck : checkUnregistered e.wallet r with
    | ok a =>
      rw [guarded_of_ok hcheck] at hrun
      cases hrun
      exact Finset.mem_insert_self _ _
    | error err =>
      rw [guarded_of_error hcheck] at hrun
      cases hrun

theorem sound_applyEntry [Blake3] (h : r.Sound) (e : SnapshotEntry) :
    (storeOf (applyEntry e r)).Sound := by
  have hkeeps : Keeps (registerEntry e) := by
    unfold registerEntry
    split
    · exact keeps_registerWalletFromVk _ _ _
    · exact keeps_registerWalletStrict _ _ _
  have hsound := hkeeps.sound r h
  unfold applyEntry
  rw [bind_run]
  cases hrun : registerEntry e r with
  | ok addr r' =>
    rw [hrun] at hsound
    exact Sound.stamp hsound (registerEntry_member hrun) _
  | error err r' =>
    rw [hrun] at hsound
    exact hsound

theorem sound_applyEntries [Blake3] (entries : List SnapshotEntry) (applied : ℕ) (h : r.Sound) :
    (applyEntries applied entries r).Sound := by
  induction entries generalizing applied r with
  | nil => exact h
  | cons e entries ih =>
    have hnext := sound_applyEntry h e
    unfold applyEntries
    split
    · exact h
    · cases hrun : applyEntry e r with
      | ok a r' =>
        rw [hrun] at hnext
        exact ih (applied+1) hnext
      | error err r' =>
        rw [hrun] at hnext
        exact ih applied hnext

theorem sound_rebuildFromSnapshot [Blake3] (entries : List SnapshotEntry) :
    (rebuildFromSnapshot entries).Sound :=
  sound_applyEntries entries 0 .new

/-- The checked rebuild stops at the first bad entry. What it has applied by then stays, and is
sound. -/
theorem sound_rebuildFromSnapshotChecked [Blake3] (entries : List SnapshotEntry) :
    Preserves Sound (rebuildFromSnapshotChecked entries) := by
  have hloop : ∀ applied, Preserves Sound (applyEntriesChecked applied entries) := by
    induction entries with
    | nil => exact fun _ => preserves_pure ()
    | cons e entries ih =>
      intro applied
      unfold applyEntriesChecked
      refine preserves_bind (preserves_lift _) fun _ => ?_
      refine preserves_bind (preserves_mapError fun r hr => sound_applyEntry hr e) fun _ => ?_
      exact ih (applied+1)
  intro r _
  exact hloop 0 new .new

theorem keeps_perform [Blake3] (c : RegistryCall) : Keeps c.perform := by
  cases c with
  | registerWalletStrict clock walletAddr joinHeight =>
    exact (keeps_registerWalletStrict clock walletAddr joinHeight).discard
  | registerWalletFromVk clock vk joinHeight =>
    exact (keeps_registerWalletFromVk clock vk joinHeight).discard
  | associateIdentity peerId walletAddr => exact keeps_associateIdentity peerId walletAddr
  | setJoinHeight walletAddr height => exact keeps_setJoinHeight walletAddr height
  | setTipSnapshot walletAddr tip => exact keeps_setTipSnapshot walletAddr tip
  | noteHeartbeatRound clock walletAddr tip =>
    exact (keeps_noteHeartbeatRound clock walletAddr tip).discard
  | beginHeartbeatRound => exact .modify fun _ hr => hr.beginHeartbeatRound
  | finalizeHeartbeatRound => exact .modify fun _ hr => hr.finalizeHeartbeatRound
  | evictInactiveValidators clock maxInactive bootGrace => exact .modify fun _ hr => hr.removeAll _
  | unregisterWallet walletAddr => exact .modify fun _ hr => hr.unregisterWallet walletAddr
  | unregisterByPeer peerId => exact .modify fun _ hr => hr.unregisterByPeer peerId
  | rebuildFromSnapshot entries => exact .modify fun _ _ => sound_rebuildFromSnapshot entries

theorem Sound.run [Blake3] (h : r.Sound) (calls : List RegistryCall) : (calls.foldl step r).Sound := by
  induction calls generalizing r with
  | nil => exact h
  | cons c calls ih => exact ih ((keeps_perform c).sound r h)

/-- In every run the eight collections agree, the wallets are canonical and the caps hold, and no
call that fails changes anything. -/
theorem registry_kept [Blake3] (calls : List RegistryCall) :
    (calls.foldl step new).Sound ∧ ∀ (c : RegistryCall) (e : ErrorDetection)
      (r' : EphemeralRegistry), c.perform (calls.foldl step new) = .error e r' →
        r' = calls.foldl step new :=
  ⟨Sound.new.run calls, fun c e r' => (keeps_perform c).atomic _ e r'⟩

end EphemeralRegistry

end Remzar
