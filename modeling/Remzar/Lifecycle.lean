import Mathlib
import Remzar.Quarantine

/-! The registry under renewals and exits that change an entry where it stands and check it
afterwards: what the map is left with when the check refuses. -/
namespace Remzar
open Std Fallible Effects Text

/-! ### In-place registration -/

namespace ValidatorMeta

-- As for an exit, the entry is changed before it is checked.
def recordRenewal (m : ValidatorMeta) (wallet : String) (outcome : RegisterOutcome) :
    EStateM.Result ErrorDetection ValidatorMeta RegisterOutcome :=
  match m.validateInvariants wallet with
  | .ok _ => .ok outcome m
  | .error e => .error e m

/-- `renew_or_reactivate` with the entry it leaves behind when it fails. -/
def renewInPlace (wallet : String) (height timestamp : UInt64) :
    EStateM ErrorDetection ValidatorMeta RegisterOutcome := fun m =>
  match validateUnixSecsStructural "ValidatorMeta.renew_or_reactivate.timestamp" timestamp with
  | .error e => .error e m
  | .ok _ =>
    match m.validateInvariants wallet with
    | .error e => .error e m
    | .ok _ =>
      match m.exitHeight with
      | none =>
        (m.renewed height timestamp).recordRenewal wallet
          (if m.renewed height timestamp = m then .noChange else .renewed)
      | some exit =>
        -- A registration from before the recorded exit keeps the stricter state.
        if height < exit then .ok .noChange m
        else (m.reactivated height timestamp).recordRenewal wallet .reactivated

end ValidatorMeta

namespace ValidatorLifecycle

def registerOrRenewInPlace (wallet : String) (height timestamp : UInt64) :
    EStateM ErrorDetection ValidatorState RegisterOutcome := fun map =>
  match mapErr (fun e => validationErr
      s!"ValidatorLifecycle::apply_register_or_renew invalid wallet: {e.display}")
      (canonWalletIdChecked wallet) with
  | .error e => .error e map
  | .ok canon =>
    match config.validate with
    | .error e => .error e map
    | .ok _ =>
      match validateUnixSecsStructural
          "ValidatorLifecycle.apply_register_or_renew.timestamp" timestamp with
      | .error e => .error e map
      | .ok _ =>
        match map[canon]? with
        | some m =>
          match m.renewInPlace canon height timestamp with
          | .ok outcome m' => .ok outcome (map.insert canon m')
          | .error e m' => .error e (map.insert canon m')
        | none =>
          match newValidatorMeta canon height timestamp with
          | .ok m => .ok .inserted (map.insert canon m)
          | .error e => .error e map

end ValidatorLifecycle

/-! ### Sound entries -/

namespace ValidatorMeta

/-- What the registry checks of an entry. -/
structure Sound (m : ValidatorMeta) : Prop where
  joinTimestamp : ValidSecs m.joinTimestamp
  lastRenewTimestamp : ValidSecs m.lastRenewTimestamp
  height : m.joinHeight ≤ m.lastRenewHeight
  timestamp : m.joinTimestamp ≤ m.lastRenewTimestamp
  exit : ∀ exit, m.exitHeight = some exit → m.joinHeight < exit

/-- The founder's exit only has to differ from zero, which is where the founder joined. -/
theorem validateExit_eq_ok_iff (m : ValidatorMeta) :
    m.validateExit = .ok () ↔ ∀ exit, m.exitHeight = some exit → m.joinHeight < exit := by
  cases hexit : m.exitHeight with
  | none => simp [validateExit, hexit]
  | some exit =>
    simp only [validateExit, hexit, bind_eq_ok_iff, rejectIf_eq_ok_iff, exists_const,
      Option.some.injEq, forall_eq', not_and_or, not_not, UInt64.not_le]
    constructor
    · rintro ⟨hpos, hlt | hfounder⟩
      · exact hlt
      · rw [hfounder]
        exact UInt64.pos_iff_ne_zero.mpr hpos
    · intro hlt
      refine ⟨?_, .inl hlt⟩
      rintro rfl
      exact absurd hlt UInt64.not_lt_zero

theorem validateStructuralInvariants_iff (m : ValidatorMeta) :
    m.validateStructuralInvariants = .ok () ↔ m.Sound := by
  simp only [validateStructuralInvariants, bind_eq_ok_iff, rejectIf_eq_ok_iff, exists_const,
    validateUnixSecsStructural_eq_ok_iff, UInt64.not_lt, validateExit_eq_ok_iff]
  constructor
  · rintro ⟨hjoin, hrenew, hheight, htime, hexit⟩
    exact ⟨hjoin, hrenew, hheight, htime, hexit⟩
  · rintro ⟨hjoin, hrenew, hheight, htime, hexit⟩
    exact ⟨hjoin, hrenew, hheight, htime, hexit⟩

theorem validateInvariants_iff (m : ValidatorMeta) {wallet : String}
    (hwallet : CanonicalWallet wallet) : m.validateInvariants wallet = .ok () ↔ m.Sound := by
  rw [validateInvariants, hwallet.checked]
  exact m.validateStructuralInvariants_iff

theorem Sound.renewed {m : ValidatorMeta} (h : m.Sound) (height : UInt64) {timestamp : UInt64}
    (hts : ValidSecs timestamp) : (m.renewed height timestamp).Sound := by
  refine ⟨h.joinTimestamp, h.lastRenewTimestamp.max hts, ?_, ?_, h.exit⟩
  · have hheight := h.height
    simp only [ValidatorMeta.renewed, UInt64.le_iff_toNat_le, UInt64.toNat_max] at *
    omega
  · have htime := h.timestamp
    simp only [ValidatorMeta.renewed, UInt64.le_iff_toNat_le, UInt64.toNat_max] at *
    omega

theorem Sound.reactivated {m : ValidatorMeta} (h : m.Sound) (height : UInt64) {timestamp : UInt64}
    (hts : ValidSecs timestamp) : (m.reactivated height timestamp).Sound := by
  rw [ValidatorMeta.reactivated]
  split
  · have hrenewed := h.renewed height hts
    exact ⟨hrenewed.joinTimestamp, hrenewed.lastRenewTimestamp, hrenewed.height,
      hrenewed.timestamp, fun exit hexit => (Option.some_ne_none exit hexit.symm).elim⟩
  · exact ⟨hts, hts, UInt64.le_refl _, UInt64.le_refl _,
      fun exit hexit => (Option.some_ne_none exit hexit.symm).elim⟩

/-- A sound entry is renewed to a sound entry or left as it is: the late check never refuses. -/
theorem renewInPlace_sound {m : ValidatorMeta} (h : m.Sound) {wallet : String}
    (hwallet : CanonicalWallet wallet) (height timestamp : UInt64) :
    (∃ outcome m', m.renewInPlace wallet height timestamp = .ok outcome m' ∧ m'.Sound) ∨
      ∃ e, m.renewInPlace wallet height timestamp = .error e m := by
  have hvalid := (m.validateInvariants_iff hwallet).mpr h
  rw [renewInPlace]
  split
  · exact .inr ⟨_, rfl⟩
  · rename_i htime
    have hts := (validateUnixSecsStructural_eq_ok_iff _ _ _).mp htime
    have hrenewed := h.renewed height hts
    have hreactivated := h.reactivated height hts
    refine .inl ?_
    rw [hvalid]
    dsimp only
    split
    · rw [recordRenewal, (validateInvariants_iff _ hwallet).mpr hrenewed]
      exact ⟨_, _, rfl, hrenewed⟩
    · split
      · exact ⟨_, _, rfl, h⟩
      · rw [recordRenewal, (validateInvariants_iff _ hwallet).mpr hreactivated]
        exact ⟨_, _, rfl, hreactivated⟩

theorem renewOrReactivate_eq (m : ValidatorMeta) (wallet : String) (height timestamp : UInt64) :
    m.renewOrReactivate wallet height timestamp =
      match m.renewInPlace wallet height timestamp with
      | .ok outcome m' => .ok (outcome, m')
      | .error e _ => .error e := by
  -- Recording an entry and checking it gives the pair that the pure version returns.
  have hrecord : ∀ (m' : ValidatorMeta) (outcome : RegisterOutcome),
      (do m'.validateInvariants wallet; return (outcome, m') : Fallible _) =
        match m'.recordRenewal wallet outcome with
        | .ok outcome m' => .ok (outcome, m')
        | .error e _ => .error e := by
    intro m' outcome
    rw [recordRenewal]
    cases m'.validateInvariants wallet <;> rfl
  rw [renewOrReactivate, renewInPlace]
  cases validateUnixSecsStructural "ValidatorMeta.renew_or_reactivate.timestamp" timestamp with
  | error e => rfl
  | ok u =>
    rw [ok_bind]
    cases m.validateInvariants wallet with
    | error e => rfl
    | ok u =>
      rw [ok_bind]
      dsimp only
      cases m.exitHeight with
      | none => exact hrecord _ _
      | some exit =>
        dsimp only
        split
        · rfl
        · exact hrecord _ _

theorem Sound.exitAt {m : ValidatorMeta} (h : m.Sound) {height : UInt64}
    (hheight : m.joinHeight < height) : Sound { m with exitHeight := some height } := by
  refine ⟨h.joinTimestamp, h.lastRenewTimestamp, h.height, h.timestamp, fun exit hexit => ?_⟩
  cases hexit
  exact hheight

theorem recordExit_sound {m : ValidatorMeta} (h : m.Sound) {wallet : String}
    (hwallet : CanonicalWallet wallet) {height : UInt64} (hheight : m.joinHeight < height) :
    m.recordExit wallet height = .ok true { m with exitHeight := some height } := by
  rw [recordExit, (validateInvariants_iff _ hwallet).mpr (h.exitAt hheight)]

theorem markExit_sound {m : ValidatorMeta} (h : m.Sound) {wallet : String}
    (hwallet : CanonicalWallet wallet) {height : UInt64} (hheight : m.joinHeight < height) :
    ∃ changed m', m.markExit wallet height = .ok changed m' ∧ m'.Sound := by
  rw [markExit, (m.validateInvariants_iff hwallet).mpr h]
  dsimp only
  split
  · exact ⟨_, _, recordExit_sound h hwallet hheight, h.exitAt hheight⟩
  · split
    · exact ⟨_, _, recordExit_sound h hwallet hheight, h.exitAt hheight⟩
    · exact ⟨_, _, rfl, h⟩

/-- An exit no later than the join is refused after it has been written into the entry. -/
theorem markExit_refused {m : ValidatorMeta} (h : m.Sound) {wallet : String}
    (hwallet : CanonicalWallet wallet) {height : UInt64} (hheight : height ≤ m.joinHeight) :
    ∃ e, m.markExit wallet height = .error e { m with exitHeight := some height } ∧
      m.exitHeight ≠ some height := by
  have hunsound : ¬Sound { m with exitHeight := some height } := by
    intro hsound
    exact absurd (hsound.exit height rfl) (UInt64.not_lt.mpr hheight)
  have hrecord : ∃ e, m.recordExit wallet height = .error e { m with exitHeight := some height } := by
    rw [recordExit]
    cases hvalid : validateInvariants { m with exitHeight := some height } wallet with
    | ok u => exact absurd ((validateInvariants_iff _ hwallet).mp hvalid) hunsound
    | error e => exact ⟨e, rfl⟩
  obtain ⟨e, he⟩ := hrecord
  refine ⟨e, ?_, ?_⟩
  · rw [markExit, (m.validateInvariants_iff hwallet).mpr h]
    dsimp only
    split
    · exact he
    · rename_i prev hprev
      have hlt : height < prev := UInt64.lt_of_le_of_lt hheight (h.exit prev hprev)
      rw [if_pos hlt]
      exact he
  · intro hexit
    exact absurd (h.exit height hexit) (UInt64.not_lt.mpr hheight)

end ValidatorMeta

/-! ### The registry -/

namespace ValidatorState

theorem validateMap_iff (map : ValidatorState) :
    ValidatorLifecycle.validateMap map = .ok () ↔
      ∀ (wallet : String) (m : ValidatorMeta), map[wallet]? = some m →
        m.validateInvariants wallet = .ok () := by
  rw [ValidatorLifecycle.validateMap, config_valid, ok_bind, forM_eq_ok_iff]
  constructor
  · intro h wallet m hm
    exact h (wallet, m) (ExtTreeMap.mem_toList_iff_getElem?_eq_some.mpr hm)
  · intro h entry hentry
    exact h entry.1 entry.2 (ExtTreeMap.mem_toList_iff_getElem?_eq_some.mp hentry)

theorem validateMap_insert {map : ValidatorState} (h : ValidatorLifecycle.validateMap map = .ok ())
    {wallet : String} (hwallet : CanonicalWallet wallet) {m : ValidatorMeta} (hm : m.Sound) :
    ValidatorLifecycle.validateMap (map.insert wallet m) = .ok () := by
  rw [validateMap_iff] at h ⊢
  intro w m' hm'
  rw [getElem?_insert_wallet] at hm'
  split at hm'
  · rename_i hw
    cases hm'
    exact hw ▸ (m.validateInvariants_iff hwallet).mpr hm
  · exact h w m' hm'

end ValidatorState

namespace ValidatorLifecycle

/-- A sound map after a success, the same map after a failure. -/
def KeepsMap {α : Type} (op : EStateM ErrorDetection ValidatorState α) (map : ValidatorState) :
    Prop :=
  match op map with
  | .ok _ map' => validateMap map' = .ok ()
  | .error _ map' => map' = map

theorem registerOrRenewInPlace_keeps {map : ValidatorState} (h : validateMap map = .ok ())
    (wallet : String) (height timestamp : UInt64) :
    KeepsMap (registerOrRenewInPlace wallet height timestamp) map := by
  rw [KeepsMap, registerOrRenewInPlace]
  cases hcanon : canonWalletIdChecked wallet with
  | error e => rfl
  | ok canon =>
    have hwallet := canonWalletIdChecked_canonical hcanon
    rw [mapErr, ValidatorState.config_valid]
    dsimp only
    cases htime : validateUnixSecsStructural
        "ValidatorLifecycle.apply_register_or_renew.timestamp" timestamp with
    | error e => rfl
    | ok u =>
      dsimp only
      cases hm : map[canon]? with
      | some m =>
        have hsound := (m.validateInvariants_iff hwallet).mp
          ((ValidatorState.validateMap_iff map).mp h canon m hm)
        dsimp only
        rcases ValidatorMeta.renewInPlace_sound hsound hwallet height timestamp with
          ⟨outcome, m', hrun, hsound'⟩ | ⟨e, hrun⟩
        · rw [hrun]
          exact ValidatorState.validateMap_insert h hwallet hsound'
        · rw [hrun]
          exact ValidatorState.insert_of_getElem? hm
      | none =>
        dsimp only
        cases hnew : newValidatorMeta canon height timestamp with
        | error e => rfl
        | ok m =>
          simp only [newValidatorMeta, bind_eq_ok_iff, pure_eq_ok_iff] at hnew
          obtain ⟨canon', hcanon', m, -, _, hvalid, rfl⟩ := hnew
          rw [hwallet.checked, mapErr, Except.ok.injEq] at hcanon'
          rw [← hcanon'] at hvalid
          exact ValidatorState.validateMap_insert h hwallet
            ((m.validateInvariants_iff hwallet).mp hvalid)

/-- An exit keeps the map exactly when its height lies above the join of the entry it is for. -/
theorem applyExit_keeps_iff {map : ValidatorState} (h : validateMap map = .ok ())
    (wallet : String) (height : UInt64) :
    KeepsMap (applyExit wallet height) map ↔
      ∀ canon, canonWalletIdChecked wallet = .ok canon → ∀ m : ValidatorMeta,
        map[canon]? = some m → m.joinHeight < height := by
  rw [KeepsMap, applyExit]
  cases hcanon : canonWalletIdChecked wallet with
  | error e => simp [mapErr]
  | ok canon =>
    have hwallet := canonWalletIdChecked_canonical hcanon
    simp only [mapErr, Except.ok.injEq, forall_eq']
    cases hm : map[canon]? with
    | none => simpa using h
    | some m =>
      have hsound := (m.validateInvariants_iff hwallet).mp
        ((ValidatorState.validateMap_iff map).mp h canon m hm)
      simp only [Option.some.injEq, forall_eq']
      constructor
      · intro hkeeps
        by_contra hheight
        obtain ⟨e, hrun, hne⟩ := ValidatorMeta.markExit_refused hsound hwallet
          (UInt64.not_lt.mp hheight)
        rw [hrun] at hkeeps
        have hentry := congrArg (fun map' : ValidatorState => map'[canon]?) hkeeps
        simp only [ValidatorState.getElem?_insert_wallet, if_true, hm, Option.some.injEq] at hentry
        exact hne (congrArg ValidatorMeta.exitHeight hentry).symm
      · intro hheight
        obtain ⟨changed, m', hrun, hsound'⟩ := ValidatorMeta.markExit_sound hsound hwallet hheight
        rw [hrun]
        exact ValidatorState.validateMap_insert h hwallet hsound'

/-- The registry's own registration, with the map it leaves behind, is the in-place one. -/
theorem applyRegisterOrRenew_eq (map : ValidatorState) (wallet : String) (height timestamp : UInt64) :
    applyRegisterOrRenew map wallet height timestamp =
      match registerOrRenewInPlace wallet height timestamp map with
      | .ok outcome map' => .ok (outcome, map')
      | .error e _ => .error e := by
  rw [applyRegisterOrRenew, registerOrRenewInPlace]
  cases canonWalletIdChecked wallet with
  | error e => rfl
  | ok canon =>
    rw [mapErr, ok_bind, ValidatorState.config_valid, ok_bind]
    dsimp only
    cases validateUnixSecsStructural
        "ValidatorLifecycle.apply_register_or_renew.timestamp" timestamp with
    | error e => rfl
    | ok u =>
      rw [ok_bind]
      cases map[canon]? with
      | some m =>
        dsimp only
        rw [m.renewOrReactivate_eq]
        cases m.renewInPlace canon height timestamp with
        | ok outcome m' => rfl
        | error e m' => rfl
      | none =>
        dsimp only
        cases newValidatorMeta canon height timestamp with
        | ok m => rfl
        | error e => rfl

/-- A registration keeps every sound map. An exit does exactly when its height lies above the join
of the entry it is for; else the refused exit stays in the entry. -/
theorem lifecycle_keeps_map_iff (map : ValidatorState) (h : validateMap map = .ok ())
    (wallet : String) (height timestamp : UInt64) :
    (KeepsMap (registerOrRenewInPlace wallet height timestamp) map ∧
        KeepsMap (applyExit wallet height) map) ↔
      ∀ canon, canonWalletIdChecked wallet = .ok canon → ∀ m : ValidatorMeta,
        map[canon]? = some m → m.joinHeight < height := by
  rw [applyExit_keeps_iff h]
  exact and_iff_right (registerOrRenewInPlace_keeps h wallet height timestamp)

end ValidatorLifecycle

/-! ### A poisoned entry -/

namespace Sample

/-- A registry of one validator, which joined at height 5. -/
def lateJoiner : ValidatorState :=
  (∅ : ValidatorState).insert miner ⟨5, 1700000000, 5, 1700000000, none⟩

theorem lateJoiner_valid : ValidatorLifecycle.validateMap lateJoiner = .ok () := by decide +kernel

theorem lateJoiner_miner :
    canonWalletIdChecked miner = .ok miner ∧
      lateJoiner[miner]? = some ⟨5, 1700000000, 5, 1700000000, none⟩ := by
  refine ⟨by decide +kernel, ?_⟩
  rw [lateJoiner, ValidatorState.getElem?_insert_wallet, if_pos rfl]

theorem lateJoiner_poisoned :
    ¬ValidatorLifecycle.KeepsMap (ValidatorLifecycle.applyExit miner 5) lateJoiner := by
  rw [ValidatorLifecycle.applyExit_keeps_iff lateJoiner_valid]
  intro hlater
  obtain ⟨hminer, hentry⟩ := lateJoiner_miner
  exact absurd (hlater miner hminer _ hentry) (by decide)

end Sample

/-- An exit at height 5 is refused and stays: the map changes, and no later check passes it. -/
theorem refused_exit_poisons_map :
    ¬∀ (map : ValidatorState) (wallet : String) (height timestamp : UInt64),
      ValidatorLifecycle.validateMap map = .ok () →
        ValidatorLifecycle.KeepsMap
            (ValidatorLifecycle.registerOrRenewInPlace wallet height timestamp) map ∧
          ValidatorLifecycle.KeepsMap (ValidatorLifecycle.applyExit wallet height) map := by
  intro hall
  exact not_and_of_not_right _ Sample.lateJoiner_poisoned
    (hall Sample.lateJoiner Sample.miner 5 1700000000 Sample.lateJoiner_valid)

theorem lifecycle_keeps_map_later :
    ValidatorLifecycle.KeepsMap
        (ValidatorLifecycle.registerOrRenewInPlace Sample.miner 6 1700000000) Sample.lateJoiner ∧
      ValidatorLifecycle.KeepsMap (ValidatorLifecycle.applyExit Sample.miner 6) Sample.lateJoiner := by
  refine (ValidatorLifecycle.lifecycle_keeps_map_iff Sample.lateJoiner Sample.lateJoiner_valid
    Sample.miner 6 1700000000).mpr ?_
  intro canon hcanon m hm
  obtain ⟨hminer, hentry⟩ := Sample.lateJoiner_miner
  rw [hminer] at hcanon
  cases hcanon
  rw [hentry] at hm
  cases hm
  decide

end Remzar
