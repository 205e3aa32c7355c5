import Mathlib
import Remzar.Heartbeats

/-! Join heights: which message of a wallet decides the height it joined at, when heartbeats and its
registration arrive in any order. -/
namespace Remzar
open Std Fallible Effects

namespace EphemeralRegistry
variable {r : EphemeralRegistry} {b : Heartbeat} {beats : List Heartbeat} {w : String}

/-- What heartbeats of an unknown wallet leave for its join height: 0, as soon as one finds room. -/
theorem hearAll_unknown (hbeats : ∀ b ∈ beats, b.names w = true) (hw : w ∉ r.joinHeights) :
    (beats.foldl hear r).joinHeights[w]? =
      if r.wallets.card < maxValidators ∧ beats ≠ [] then some 0 else none := by
  have hnone : r.joinHeights[w]? = none := ExtTreeMap.getElem?_eq_none hw
  cases beats with
  | nil => rw [if_neg (fun h => h.2 rfl), List.foldl_nil, hnone]
  | cons b beats =>
    by_cases hcap : r.wallets.card < maxValidators
    · have hcanon := names_iff.mp (hbeats b List.mem_cons_self)
      have hfirst : (r.hear b).joinHeights[w]? = some 0 := by
        rw [hear_accepted hcap hcanon]
        change (r.joinHeights.insertIfNew w 0)[w]? = _
        rw [ExtTreeMap.getElem?_insertIfNew, if_pos ⟨LawfulEqCmp.compare_eq_iff_eq.mpr rfl, hw⟩]
      have hknown : w ∈ (r.hear b).joinHeights := by
        rw [ExtTreeMap.mem_iff_isSome_getElem?, hfirst]
        rfl
      rw [if_pos ⟨hcap, List.cons_ne_nil b beats⟩, List.foldl_cons, hearAll_join hknown, hfirst]
    · rw [if_neg (fun h => hcap h.1), hearAll_full (Nat.not_lt.mp hcap), hnone]

/-- The registration writes its height for a wallet that is unknown, if there is room, and no
other. -/
theorem registerWalletStrict_join {id : String} (h : r.Sound) (hid : canonWalletIdChecked id = .ok w)
    (clock : Int64) (height : UInt64) :
    (storeOf (registerWalletStrict clock id height r)).joinHeights[w]? =
      if r.wallets.card < maxValidators ∧ w ∉ r.joinHeights then some height
      else r.joinHeights[w]? := by
  rw [registerWalletStrict_eq]
  by_cases hnew : r.wallets.card < maxValidators ∧ w ∉ r.joinHeights
  · have hcheck : checkUnregistered id r = .ok w := checkUnregistered_ok_iff.mpr
      ⟨hnew.1, hid, fun hw => hnew.2 ((h.joinHeights w).mpr hw)⟩
    rw [guarded_of_ok hcheck, if_pos hnew]
    change (r.joinHeights.insertIfNew w height)[w]? = _
    rw [ExtTreeMap.getElem?_insertIfNew, if_pos ⟨LawfulEqCmp.compare_eq_iff_eq.mpr rfl, hnew.2⟩]
  · rw [if_neg hnew]
    cases hcheck : checkUnregistered id r with
    | ok addr =>
      obtain ⟨hcap, hcanon, hunknown⟩ := checkUnregistered_ok_iff.mp hcheck
      rw [hid] at hcanon
      cases hcanon
      exact absurd ⟨hcap, fun hw => hunknown ((h.joinHeights w).mp hw)⟩ hnew
    | error e =>
      rw [guarded_of_error hcheck]
      rfl

theorem registerWalletStrict_full {id : String} (hcap : maxValidators ≤ r.wallets.card)
    (clock : Int64) (height : UInt64) :
    storeOf (registerWalletStrict clock id height r) = r := by
  rw [registerWalletStrict_eq]
  cases hcheck : checkUnregistered id r with
  | ok addr => exact absurd (checkUnregistered_ok_iff.mp hcheck).1 (Nat.not_lt.mpr hcap)
  | error e =>
    rw [guarded_of_error hcheck]
    rfl

/-- A join height that is there is never set. -/
theorem setJoinHeight_idle (h : r.Sound) {id : String} (height : UInt64) :
    storeOf (setJoinHeight id height r) = r := by
  rw [setJoinHeight_eq, bind_run]
  cases hcheck : checkRegistered id r with
  | ok can =>
    rw [guarded_of_ok hcheck, h.setJoinHeight (checkRegistered_ok_iff.mp hcheck).2 height]
    rfl
  | error e =>
    rw [guarded_of_error hcheck]
    rfl

theorem Sound.hearAll [Blake3] (h : r.Sound) (beats : List Heartbeat) :
    (beats.foldl hear r).Sound := by
  induction beats generalizing r with
  | nil => exact h
  | cons b beats ih => exact ih ((keeps_noteHeartbeatRound b.clock b.walletAddr b.tip).sound r h)

/-- Heartbeats around a registration. -/
def interleaved (before after : List Heartbeat) (registration : RegistryM α)
    (r : EphemeralRegistry) : EphemeralRegistry :=
  after.foldl hear (storeOf (registration (before.foldl hear r)))

theorem registered_join [Blake3] {id : String} {before after : List Heartbeat} (h : r.Sound)
    (hid : canonWalletIdChecked id = .ok w) (hbefore : ∀ b ∈ before, b.names w = true)
    (clock : Int64) (height : UInt64) :
    (interleaved before after (registerWalletStrict clock id height) r).joinHeights[w]? =
      match r.joinHeights[w]? with
      | some j => some j
      | none =>
        if r.wallets.card < maxValidators then some (if before = [] then height else 0) else none := by
  have hfirst := registerWalletStrict_join (h.hearAll before) hid clock height
  unfold interleaved
  by_cases hknown : w ∈ (before.foldl hear r).joinHeights
  · -- Known by now: the registration comes too late.
    rw [if_neg (fun hnew => hnew.2 hknown)] at hfirst
    have hstays : w ∈ (storeOf (registerWalletStrict clock id height
        (before.foldl hear r))).joinHeights := by
      rw [ExtTreeMap.mem_iff_isSome_getElem?, hfirst]
      exact ExtTreeMap.mem_iff_isSome_getElem?.mp hknown
    rw [hearAll_join hstays, hfirst]
    by_cases hold : w ∈ r.joinHeights
    · rw [hearAll_join hold]
      obtain ⟨j, hj⟩ := Option.isSome_iff_exists.mp (ExtTreeMap.mem_iff_isSome_getElem?.mp hold)
      rw [hj]
    · have hunknown := hearAll_unknown hbefore hold
      have hsome := ExtTreeMap.mem_iff_isSome_getElem?.mp hknown
      rw [hunknown] at hsome ⊢
      rw [ExtTreeMap.getElem?_eq_none hold]
      split at hsome
      · rename_i hroom
        rw [if_pos hroom]
        dsimp only
        rw [if_pos hroom.1, if_neg hroom.2]
      · cases hsome
  · have hold : w ∉ r.joinHeights := by
      intro hold
      apply hknown
      rw [ExtTreeMap.mem_iff_isSome_getElem?, hearAll_join hold]
      exact ExtTreeMap.mem_iff_isSome_getElem?.mp hold
    rw [ExtTreeMap.getElem?_eq_none hold]
    dsimp only
    by_cases hcap : r.wallets.card < maxValidators
    · -- Nothing was heard before: the registration comes first.
      have hnil : before = [] := by
        by_contra hne
        apply hknown
        rw [ExtTreeMap.mem_iff_isSome_getElem?, hearAll_unknown hbefore hold, if_pos ⟨hcap, hne⟩]
        rfl
      subst hnil
      rw [List.foldl_nil] at hfirst ⊢
      rw [if_pos ⟨hcap, hold⟩] at hfirst
      have hstays : w ∈ (storeOf (registerWalletStrict clock id height r)).joinHeights := by
        rw [ExtTreeMap.mem_iff_isSome_getElem?, hfirst]
        rfl
      rw [hearAll_join hstays, hfirst, if_pos hcap, if_pos rfl]
    · have hfull := Nat.not_lt.mp hcap
      rw [hearAll_full hfull, registerWalletStrict_full hfull, hearAll_full hfull, if_neg hcap,
        ExtTreeMap.getElem?_eq_none hold]

/-- The height a wallet ends up with is the one it joined at, as far as eligibility tells. -/
def JoinedAt (r : EphemeralRegistry) (w : String) (height : UInt64) : Prop :=
  r.joinHeights[w]? = some height ∧
    ∀ k, r.eligible w k = true ↔ height.toNat+rewardDelayBlocks.toNat ≤ k.toNat

theorem joinedAt_iff (hw : canonWalletIdChecked w = .ok w) {height : UInt64} :
    r.JoinedAt w height ↔
      r.joinHeights[w]? = some height ∧ height.toNat+rewardDelayBlocks.toNat < 2^64 := by
  have hdelay : rewardDelayBlocks.toNat = 1 := rfl
  unfold JoinedAt
  constructor
  · rintro ⟨hjoin, heligible⟩
    refine ⟨hjoin, ?_⟩
    by_contra hlast
    -- At the last height the sum saturates, and the wallet is eligible a block early.
    have hmax := (heligible height).mp ?_
    · omega
    · have hsat := Checked.saturatingAdd_toNat height rewardDelayBlocks
      have hlt := height.toNat_lt
      unfold eligible
      rw [hw]
      dsimp only
      rw [hjoin]
      apply decide_eq_true
      rw [UInt64.le_iff_toNat_le, hsat]
      omega
  · rintro ⟨hjoin, hlt⟩
    refine ⟨hjoin, fun k => ?_⟩
    have hsat := Checked.saturatingAdd_toNat_of_lt height rewardDelayBlocks hlt
    unfold eligible
    rw [hw]
    dsimp only
    rw [hjoin]
    dsimp only
    rw [decide_eq_true_iff, UInt64.le_iff_toNat_le, hsat]

end EphemeralRegistry

/-- One registration among heartbeats of the wallet decides its join height exactly when nothing was
heard of the wallet before, or what was heard says the same. For a wallet that is there, setting the
join height changes nothing. -/
theorem join_height_iff [Blake3] (calls : List RegistryCall) {id w : String}
    (hid : canonWalletIdChecked id = .ok w) {before : List Heartbeat}
    (hbefore : ∀ b ∈ before, b.names w = true) (after : List Heartbeat) (clock : Int64) (height : UInt64) :
    let r := calls.foldl EphemeralRegistry.step .new
    ((EphemeralRegistry.interleaved before after
        (EphemeralRegistry.registerWalletStrict clock id height) r).JoinedAt w height ↔
      height.toNat+rewardDelayBlocks.toNat < 2^64 ∧
        match r.joinHeights[w]? with
        | some j => j = height
        | none => r.wallets.card < maxValidators ∧ (before = [] ∨ height = 0)) ∧
    (w ∈ (before.foldl EphemeralRegistry.hear r).wallets →
      ((EphemeralRegistry.interleaved before after
          (EphemeralRegistry.setJoinHeight id height) r).JoinedAt w height ↔
        height.toNat+rewardDelayBlocks.toNat < 2^64 ∧ r.joinHeights[w]?.getD 0 = height)) := by
  intro r
  have hsound : r.Sound := EphemeralRegistry.Sound.new.run calls
  have hw := canonWalletIdChecked_idem hid
  constructor
  · rw [EphemeralRegistry.joinedAt_iff hw, and_comm,
      EphemeralRegistry.registered_join hsound hid hbefore clock height]
    apply and_congr_right
    intro _
    cases r.joinHeights[w]? with
    | some j => simp
    | none =>
      dsimp only
      by_cases hcap : r.wallets.card < maxValidators
      · rw [if_pos hcap, and_iff_right hcap, Option.some.injEq]
        by_cases hnil : before = []
        · rw [if_pos hnil]
          exact iff_of_true rfl (Or.inl hnil)
        · rw [if_neg hnil, or_iff_right hnil, eq_comm]
      · rw [if_neg hcap]
        exact iff_of_false nofun fun h => hcap h.1
  · intro hpresent
    rw [EphemeralRegistry.joinedAt_iff hw, and_comm, EphemeralRegistry.interleaved,
      EphemeralRegistry.setJoinHeight_idle (hsound.hearAll before)]
    apply and_congr_right
    intro _
    have hknown := ((hsound.hearAll before).joinHeights w).mpr hpresent
    rw [EphemeralRegistry.hearAll_join hknown]
    by_cases hold : w ∈ r.joinHeights
    · rw [EphemeralRegistry.hearAll_join hold]
      obtain ⟨j, hj⟩ := Option.isSome_iff_exists.mp (ExtTreeMap.mem_iff_isSome_getElem?.mp hold)
      rw [hj, Option.getD_some, Option.some.injEq]
    · have hunknown := EphemeralRegistry.hearAll_unknown hbefore hold
      have hsome := ExtTreeMap.mem_iff_isSome_getElem?.mp hknown
      rw [hunknown] at hsome ⊢
      rw [ExtTreeMap.getElem?_eq_none hold, Option.getD_none]
      split at hsome
      · rename_i hroom
        rw [if_pos hroom, Option.some.injEq]
      · cases hsome

theorem join_height_iff_first :
    (EphemeralRegistry.interleaved [] [Sample.beat]
      (EphemeralRegistry.registerWalletStrict 1700000000 Sample.miner 5) .new).JoinedAt
        Sample.miner 5 :=
  (@join_height_iff Blake3.reference [] Sample.miner Sample.miner (by decide +kernel) []
    (fun _ hb => by cases hb) [Sample.beat] 1700000000 5).1.mpr ⟨by decide, by decide, .inl rfl⟩

/-- The heartbeat comes first: the registration fails, and the wallet stays joined at 0. -/
theorem join_height_lost :
    let r := EphemeralRegistry.interleaved [Sample.beat] []
      (EphemeralRegistry.registerWalletStrict 1700000200 Sample.miner 5) .new
    r.joinHeights[Sample.miner]? = some 0 ∧ r.eligible Sample.miner 1 = true := by
  decide +kernel

end Remzar
