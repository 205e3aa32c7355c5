import Mathlib
import Remzar.Validators
import Remzar.Wallets
import Remzar.Chain

/-! The validator registry as a running node keeps it, block by block, and the registry it
rebuilds from the stored chain. -/
namespace Remzar
open Std Fallible Effects Text

/-- The map in memory, and the database it is persisted in. -/
structure ValidatorRegistry where
  inner : ValidatorState
  db : RockDB

namespace ValidatorRegistry
open ValidatorState

def persist : EStateM ErrorDetection ValidatorRegistry Unit := fun s =>
  zoom db (fun s db => { s with db := db }) s.inner.persist s

-- Invariants survive a renewal, so an entry is never left changed by a registration that fails.
def applyRegistration (height timestamp : UInt64) (changed : Bool) (kind : TxKind) :
    EStateM ErrorDetection ValidatorRegistry Bool := fun s =>
  match kind with
  | .registerNode reg =>
    match upsertRegisterIntoMap height timestamp s.inner reg with
    | .ok (c, map) => .ok (changed || c) { s with inner := map }
    | .error e => .error e s
  | _ => .ok changed s

def applyBlock (block : Block) (batch : TransactionBatch) :
    EStateM ErrorDetection ValidatorRegistry Unit := do
  let height := block.metadata.index
  let timestamp ← lift (canonicalEventTimestampForBlock block height)
  let anyChange ← batch.transactions.foldlM (applyRegistration height timestamp) false
  if anyChange then persist else return ()

-- A founder that is already there is left alone.
def seedGenesisFounder (founderWallet : String) (joinTimestamp : UInt64) :
    EStateM ErrorDetection ValidatorRegistry Unit := do
  let founder ← lift (mapErr (fun e => validationErr
    s!"ValidatorState::seed_genesis_founder invalid wallet: {e.display}")
    (canonWalletIdChecked founderWallet))
  let timestamp ← lift (canonicalEventTimestampFromBlock
    "ValidatorState.seed_genesis_founder.join_timestamp" joinTimestamp)
  let s ← get
  if s.inner[founder]?.any fun m => m.joinHeight = 0 ∧ m.exitHeight = none then return ()
  else do
    let m ← lift (ValidatorMeta.founder timestamp)
    set { s with inner := s.inner.insert founder m }
    persist

def replaceWithRebuiltMap (map : ValidatorState) : EStateM ErrorDetection ValidatorRegistry Unit := do
  lift (ValidatorLifecycle.validateMap map)
  modify fun s => { s with inner := map }
  persist

def rebuildFromChain (upToHeight : Option UInt64) : EStateM ErrorDetection ValidatorRegistry Unit := do
  let s ← get
  let rebuilt ← lift (buildReplayMapFromChain s.db (upToHeight.getD s.db.getTipHeight))
  replaceWithRebuiltMap rebuilt

end ValidatorRegistry

/-! ### Timestamps -/

def ValidSecs (ts : UInt64) : Prop := unix2000Secs ≤ ts ∧ ts ≤ unix9999Secs

theorem validateUnixSecsStructural_eq_ok_iff (label : String) (ts : UInt64) (u : Unit) :
    validateUnixSecsStructural label ts = .ok u ↔ ValidSecs ts := by
  simp only [validateUnixSecsStructural, bind_eq_ok_iff, rejectIf_eq_ok_iff, exists_const, ValidSecs,
    UInt64.not_lt]

theorem ValidSecs.max {a b : UInt64} (ha : ValidSecs a) (hb : ValidSecs b) : ValidSecs (max a b) := by
  simp only [ValidSecs, UInt64.le_iff_toNat_le, UInt64.toNat_max] at *
  omega

/-! ### Entries -/

namespace ValidatorMeta

/-- What the registry checks of an entry that has not left. -/
structure Standing (m : ValidatorMeta) : Prop where
  joinTimestamp : ValidSecs m.joinTimestamp
  lastRenewTimestamp : ValidSecs m.lastRenewTimestamp
  height : m.joinHeight ≤ m.lastRenewHeight
  timestamp : m.joinTimestamp ≤ m.lastRenewTimestamp
  exit : m.exitHeight = none

theorem validateStructuralInvariants_eq_ok_iff {m : ValidatorMeta} (hexit : m.exitHeight = none) :
    m.validateStructuralInvariants = .ok () ↔ m.Standing := by
  simp only [validateStructuralInvariants, validateExit, hexit, bind_eq_ok_iff, rejectIf_eq_ok_iff,
    exists_const, validateUnixSecsStructural_eq_ok_iff, UInt64.not_lt, and_true]
  constructor
  · rintro ⟨hjoin, hrenew, hheight, htime⟩
    exact ⟨hjoin, hrenew, hheight, htime, hexit⟩
  · rintro ⟨hjoin, hrenew, hheight, htime, -⟩
    exact ⟨hjoin, hrenew, hheight, htime⟩

theorem Standing.fresh {height timestamp : UInt64} (hts : ValidSecs timestamp) :
    Standing ⟨height, timestamp, height, timestamp, none⟩ :=
  ⟨hts, hts, UInt64.le_refl _, UInt64.le_refl _, rfl⟩

theorem Standing.renewed {m : ValidatorMeta} (h : m.Standing) (height : UInt64) {timestamp : UInt64}
    (hts : ValidSecs timestamp) : (m.renewed height timestamp).Standing := by
  refine ⟨h.joinTimestamp, h.lastRenewTimestamp.max hts, ?_, ?_, h.exit⟩
  · have hheight := h.height
    simp only [ValidatorMeta.renewed, UInt64.le_iff_toNat_le, UInt64.toNat_max] at *
    omega
  · have htime := h.timestamp
    simp only [ValidatorMeta.renewed, UInt64.le_iff_toNat_le, UInt64.toNat_max] at *
    omega

/-- A renewal that is not later than the last one changes nothing. -/
theorem renewed_eq_self {m : ValidatorMeta} {height timestamp : UInt64}
    (hheight : height ≤ m.lastRenewHeight) (htime : timestamp ≤ m.lastRenewTimestamp) :
    m.renewed height timestamp = m := by
  have hmaxHeight : max m.lastRenewHeight height = m.lastRenewHeight := by
    rw [← UInt64.toNat_inj, UInt64.toNat_max]
    exact max_eq_left (UInt64.le_iff_toNat_le.mp hheight)
  have hmaxTime : max m.lastRenewTimestamp timestamp = m.lastRenewTimestamp := by
    rw [← UInt64.toNat_inj, UInt64.toNat_max]
    exact max_eq_left (UInt64.le_iff_toNat_le.mp htime)
  rw [ValidatorMeta.renewed, hmaxHeight, hmaxTime]

/-- The entry after a registration, from the one before it. -/
def registered (height timestamp : UInt64) : Option ValidatorMeta → ValidatorMeta
  | none => ⟨height, timestamp, height, timestamp, none⟩
  | some m => m.renewed height timestamp

theorem joined_eq_ok_iff (height timestamp : UInt64) (m : ValidatorMeta) :
    joined height timestamp = .ok m ↔
      ValidSecs timestamp ∧ m = ⟨height, timestamp, height, timestamp, none⟩ := by
  simp only [joined, bind_eq_ok_iff, pure_eq_ok_iff, validateUnixSecsStructural_eq_ok_iff,
    exists_const]
  constructor
  · rintro ⟨hts, _, -, rfl⟩
    exact ⟨hts, rfl⟩
  · rintro ⟨hts, rfl⟩
    have hvalid := (validateStructuralInvariants_eq_ok_iff rfl).mpr (@Standing.fresh height _ hts)
    exact ⟨hts, (), hvalid, rfl⟩

theorem founder_eq_joined (timestamp : UInt64) (m : ValidatorMeta) :
    founder timestamp = .ok m ↔ joined 0 timestamp = .ok m := by
  simp only [founder, joined, bind_eq_ok_iff, validateUnixSecsStructural_eq_ok_iff]

end ValidatorMeta

/-! ### The map -/

namespace ValidatorState

/-- Every entry is under a canonical wallet and has not left. -/
def Running (map : ValidatorState) : Prop :=
  ∀ wallet m, map[wallet]? = some m → CanonicalWallet wallet ∧ m.Standing

theorem Running.empty : Running ∅ := by
  intro wallet m hm
  rw [ExtTreeMap.getElem?_empty] at hm
  cases hm

theorem getElem?_insert_wallet (map : ValidatorState) (wallet w : String) (m : ValidatorMeta) :
    (map.insert wallet m)[w]? = if wallet = w then some m else map[w]? := by
  rw [ExtTreeMap.getElem?_insert]
  simp only [LawfulEqCmp.compare_eq_iff_eq]

theorem Running.insert {map : ValidatorState} (h : Running map) {wallet : String} {m : ValidatorMeta}
    (hwallet : CanonicalWallet wallet) (hm : m.Standing) : Running (map.insert wallet m) := by
  intro w m' hm'
  rw [getElem?_insert_wallet] at hm'
  split at hm'
  · rename_i hw
    cases hm'
    exact ⟨hw ▸ hwallet, hm⟩
  · exact h w m' hm'

theorem insert_of_getElem? {map : ValidatorState} {wallet : String} {m : ValidatorMeta}
    (h : map[wallet]? = some m) : map.insert wallet m = map := by
  refine ExtTreeMap.ext_getElem? fun {w} => ?_
  rw [getElem?_insert_wallet]
  split
  · rename_i hw
    rw [← hw, h]
  · rfl

theorem config_valid : ValidatorLifecycle.config.validate = .ok () := by decide

theorem validateInvariants_ok {wallet : String} {m : ValidatorMeta} (hwallet : CanonicalWallet wallet)
    (hm : m.Standing) : m.validateInvariants wallet = .ok () := by
  rw [ValidatorMeta.validateInvariants, hwallet.checked]
  exact (ValidatorMeta.validateStructuralInvariants_eq_ok_iff hm.exit).mpr hm

theorem Running.validateMap {map : ValidatorState} (h : Running map) :
    ValidatorLifecycle.validateMap map = .ok () := by
  rw [ValidatorLifecycle.validateMap, config_valid, ok_bind, forM_eq_ok_iff]
  intro entry hentry
  obtain ⟨hwallet, hm⟩ := h entry.1 entry.2 (ExtTreeMap.mem_toList_iff_getElem?_eq_some.mp hentry)
  exact validateInvariants_ok hwallet hm

/-! ### Registrations -/

theorem walletStr_canonical {reg : RegisterNodeTx} {wallet : String}
    (h : reg.walletStr = .ok wallet) : CanonicalWallet wallet := by
  simp only [RegisterNodeTx.walletStr, bind_eq_ok_iff, pure_eq_ok_iff, mapErr_eq_ok_iff,
    rejectIf_eq_ok_iff, not_not] at h
  obtain ⟨s, -, canon, hcanon, _, rfl, rfl⟩ := h
  exact canonWalletIdChecked_canonical hcanon

theorem renewOrReactivate_standing {m : ValidatorMeta} (hm : m.Standing) {wallet : String}
    (hwallet : CanonicalWallet wallet) (height : UInt64) {timestamp : UInt64}
    (hts : ValidSecs timestamp) :
    m.renewOrReactivate wallet height timestamp =
      .ok (if m.renewed height timestamp = m then .noChange else .renewed,
        m.renewed height timestamp) := by
  have htime := (validateUnixSecsStructural_eq_ok_iff "ValidatorMeta.renew_or_reactivate.timestamp"
    timestamp ()).mpr hts
  rw [ValidatorMeta.renewOrReactivate, htime, ok_bind, validateInvariants_ok hwallet hm, ok_bind,
    hm.exit]
  simp only [validateInvariants_ok hwallet (hm.renewed height hts), ok_bind]
  rfl

theorem applyRegisterOrRenew_running {map : ValidatorState} (h : Running map) {wallet : String}
    (hwallet : CanonicalWallet wallet) (height : UInt64) {timestamp : UInt64}
    (hts : ValidSecs timestamp) :
    ∃ outcome, ValidatorLifecycle.applyRegisterOrRenew map wallet height timestamp =
        .ok (outcome, map.insert wallet (ValidatorMeta.registered height timestamp map[wallet]?)) ∧
      (outcome = .noChange ↔
        map[wallet]? = some (ValidatorMeta.registered height timestamp map[wallet]?)) := by
  have htime := (validateUnixSecsStructural_eq_ok_iff
    "ValidatorLifecycle.apply_register_or_renew.timestamp" timestamp ()).mpr hts
  rw [ValidatorLifecycle.applyRegisterOrRenew, hwallet.checked, mapErr, ok_bind, config_valid, ok_bind,
    htime, ok_bind]
  cases hm : map[wallet]? with
  | none =>
    have hnew : ValidatorLifecycle.newValidatorMeta wallet height timestamp =
        .ok ⟨height, timestamp, height, timestamp, none⟩ := by
      have hjoined := (ValidatorMeta.joined_eq_ok_iff height timestamp _).mpr ⟨hts, rfl⟩
      rw [ValidatorLifecycle.newValidatorMeta, hwallet.checked, mapErr, ok_bind, hjoined, ok_bind,
        validateInvariants_ok hwallet (ValidatorMeta.Standing.fresh hts)]
      rfl
    refine ⟨.inserted, ?_, by simp⟩
    simp only [hnew, ok_bind]
    rfl
  | some m =>
    obtain ⟨-, hstanding⟩ := h wallet m hm
    refine ⟨if m.renewed height timestamp = m then .noChange else .renewed, ?_, ?_⟩
    · simp only [renewOrReactivate_standing hstanding hwallet height hts, ok_bind]
      rfl
    · simp only [ValidatorMeta.registered, Option.some.injEq, eq_comm (a := m)]
      split <;> simp_all

/-- A registration succeeds exactly when its wallet and its time are valid, whatever the map. -/
theorem upsertRegisterIntoMap_eq_ok_iff {map : ValidatorState} (h : Running map)
    (height timestamp : UInt64) (reg : RegisterNodeTx) (changed : Bool) (map' : ValidatorState) :
    upsertRegisterIntoMap height timestamp map reg = .ok (changed, map') ↔
      ∃ wallet, reg.walletStr = .ok wallet ∧ ValidSecs timestamp ∧
        map' = map.insert wallet (ValidatorMeta.registered height timestamp map[wallet]?) ∧
        (changed = false ↔
          map[wallet]? = some (ValidatorMeta.registered height timestamp map[wallet]?)) := by
  simp only [upsertRegisterIntoMap, canonicalEventTimestampFromBlock, bind_eq_ok_iff, pure_eq_ok_iff,
    mapErr_eq_ok_iff, validateUnixSecsStructural_eq_ok_iff, exists_const]
  constructor
  · rintro ⟨wallet, hstr, canon, hcanon, ts, ⟨hts, rfl⟩, out, hout, heq⟩
    have hwallet := walletStr_canonical hstr
    obtain rfl : wallet = canon := Except.ok.inj (hwallet.checked.symm.trans hcanon)
    obtain ⟨outcome, hok, hiff⟩ := applyRegisterOrRenew_running h hwallet height hts
    rw [hok] at hout
    cases hout
    cases heq
    refine ⟨wallet, hstr, hts, rfl, ?_⟩
    rw [← hiff]
    simp
  · rintro ⟨wallet, hstr, hts, rfl, hchanged⟩
    have hwallet := walletStr_canonical hstr
    obtain ⟨outcome, hok, hiff⟩ := applyRegisterOrRenew_running h hwallet height hts
    refine ⟨wallet, hstr, wallet, hwallet.checked, timestamp, ⟨hts, rfl⟩, _, hok, ?_⟩
    rw [← hiff] at hchanged
    have hflag : decide (outcome ≠ .noChange) = changed := by
      cases changed with
      | false => exact decide_eq_false (not_not_intro (hchanged.mp rfl))
      | true => exact decide_eq_true fun hsame => Bool.noConfusion (hchanged.mpr hsame)
    exact congrArg (fun c => (c, _)) hflag

/-! ### Blocks of registrations -/

/-- The wallet has registered at this height and time, or later. -/
def Renewed (map : ValidatorState) (wallet : String) (height timestamp : UInt64) : Prop :=
  ∃ m, map[wallet]? = some m ∧ height ≤ m.lastRenewHeight ∧ timestamp ≤ m.lastRenewTimestamp

/-- Nothing of these transactions is new to the map. -/
def Absorbed (height timestamp : UInt64) (kinds : List TxKind) (map : ValidatorState) : Prop :=
  ∀ reg, .registerNode reg ∈ kinds →
    ∃ wallet, reg.walletStr = .ok wallet ∧ ValidSecs timestamp ∧ Renewed map wallet height timestamp

theorem Renewed.insert_self (map : ValidatorState) (wallet : String) (height timestamp : UInt64) :
    Renewed (map.insert wallet (ValidatorMeta.registered height timestamp map[wallet]?)) wallet height
      timestamp := by
  refine ⟨_, ExtTreeMap.getElem?_insert_self, ?_⟩
  cases map[wallet]? with
  | none => exact ⟨UInt64.le_refl _, UInt64.le_refl _⟩
  | some m =>
    simp only [ValidatorMeta.registered, ValidatorMeta.renewed, UInt64.le_iff_toNat_le,
      UInt64.toNat_max]
    omega

theorem Renewed.insert {map : ValidatorState} {w : String} {h ts : UInt64} (hr : Renewed map w h ts)
    (wallet : String) (height timestamp : UInt64) :
    Renewed (map.insert wallet (ValidatorMeta.registered height timestamp map[wallet]?)) w h ts := by
  obtain ⟨m, hm, hheight, htime⟩ := hr
  by_cases hw : wallet = w
  · subst hw
    refine ⟨_, ExtTreeMap.getElem?_insert_self, ?_⟩
    simp only [hm, ValidatorMeta.registered, ValidatorMeta.renewed, UInt64.le_iff_toNat_le,
      UInt64.toNat_max] at *
    omega
  · exact ⟨m, by rw [getElem?_insert_wallet, if_neg hw, hm], hheight, htime⟩

theorem applyKinds_running {height timestamp : UInt64} (kinds : List TxKind) {map map' : ValidatorState}
    {c c' : Bool} (hmap : Running map)
    (h : kinds.foldlM (applyKind height timestamp) (c, map) = .ok (c', map')) :
    Running map' ∧ Absorbed height timestamp kinds map' ∧
      ∀ w hw ts, Renewed map w hw ts → Renewed map' w hw ts := by
  -- By induction on the transactions, from the first on: later ones keep what it has renewed.
  induction kinds generalizing c map with
  | nil =>
    cases h
    exact ⟨hmap, fun reg hreg => absurd hreg List.not_mem_nil, fun _ _ _ hr => hr⟩
  | cons kind kinds ih =>
    rw [List.foldlM_cons, bind_eq_ok_iff] at h
    obtain ⟨⟨c₁, map₁⟩, hkind, hrest⟩ := h
    by_cases hreg : ∃ reg, kind = .registerNode reg
    · obtain ⟨reg, rfl⟩ := hreg
      simp only [applyKind, bind_eq_ok_iff, pure_eq_ok_iff] at hkind
      obtain ⟨⟨changed, mid⟩, hupsert, heq⟩ := hkind
      cases heq
      obtain ⟨wallet, hstr, hts, rfl, -⟩ :=
        (upsertRegisterIntoMap_eq_ok_iff hmap height timestamp reg _ _).mp hupsert
      have hstanding : (ValidatorMeta.registered height timestamp map[wallet]?).Standing := by
        cases hm : map[wallet]? with
        | none => exact ValidatorMeta.Standing.fresh hts
        | some m => exact (hmap wallet m hm).2.renewed height hts
      have hrunning := hmap.insert (walletStr_canonical hstr) hstanding
      obtain ⟨hrun, habsorbed, hkeep⟩ := ih hrunning hrest
      refine ⟨hrun, ?_, fun w hw ts hr => hkeep w hw ts (hr.insert wallet height timestamp)⟩
      intro reg' hreg'
      rcases List.mem_cons.mp hreg' with heq | hmem
      · cases heq
        exact ⟨wallet, hstr, hts, hkeep _ _ _ (Renewed.insert_self map wallet height timestamp)⟩
      · exact habsorbed reg' hmem
    · have hsame : applyKind height timestamp (c, map) kind = .ok (c, map) := by
        cases kind <;> first | rfl | exact absurd ⟨_, rfl⟩ hreg
      rw [hsame] at hkind
      cases hkind
      obtain ⟨hrun, habsorbed, hkeep⟩ := ih hmap hrest
      refine ⟨hrun, ?_, hkeep⟩
      intro reg' hreg'
      rcases List.mem_cons.mp hreg' with heq | hmem
      · exact absurd ⟨reg', heq.symm⟩ hreg
      · exact habsorbed reg' hmem

/-- Transactions that bring nothing new leave the map as it is. -/
theorem applyKinds_absorbed {height timestamp : UInt64} (kinds : List TxKind) {map : ValidatorState}
    (hmap : Running map) (habsorbed : Absorbed height timestamp kinds map) (c : Bool) :
    kinds.foldlM (applyKind height timestamp) (c, map) = .ok (c, map) := by
  induction kinds with
  | nil => rfl
  | cons kind kinds ih =>
    have hrest := ih fun reg hreg => habsorbed reg (List.mem_cons_of_mem _ hreg)
    have hkind : applyKind height timestamp (c, map) kind = .ok (c, map) := by
      by_cases hreg : ∃ reg, kind = .registerNode reg
      · obtain ⟨reg, rfl⟩ := hreg
        obtain ⟨wallet, hstr, hts, m, hm, hheight, htime⟩ := habsorbed reg List.mem_cons_self
        have hself : ValidatorMeta.registered height timestamp map[wallet]? = m := by
          rw [hm]
          exact ValidatorMeta.renewed_eq_self hheight htime
        have hupsert : upsertRegisterIntoMap height timestamp map reg = .ok (false, map) := by
          refine (upsertRegisterIntoMap_eq_ok_iff hmap height timestamp reg _ _).mpr
            ⟨wallet, hstr, hts, ?_, ?_⟩
          · rw [hself, insert_of_getElem? hm]
          · rw [hself, hm]
            exact iff_of_true rfl rfl
        rw [applyKind, hupsert, ok_bind]
        exact congrArg (fun b => Except.ok (b, map)) (Bool.or_false c)
      · cases kind <;> first | rfl | exact absurd ⟨_, rfl⟩ hreg
    rw [List.foldlM_cons, hkind, ok_bind, hrest]

/-! ### Persistence -/

theorem batchProcessAll_put (db : RockDB) (key value : List UInt8) :
    (db.put .validatorData key value).batchProcessAll = db.batchProcessAll := by
  rw [RockDB.batchProcessAll, RockDB.batchProcessAll,
    RockDB.column_put_of_ne db key value (by decide : ColumnName.transaction ≠ .validatorData)]

theorem persist_inv {map : ValidatorState} {db db' : RockDB} (h : map.persist db = .ok () db') :
    db.batchProcessAll = .ok () ∧ db'.batchProcessAll = .ok () := by
  simp only [persist, run_bind_eq_ok_iff, update_eq_ok_iff, commit, bind_eq_ok_iff, mapErr_eq_ok_iff,
    RockDB.write_eq_ok_iff] at h
  obtain ⟨-, db₁, ⟨_, -, _, -, hall, rfl⟩, hlatch⟩ := h
  have hall₁ := (batchProcessAll_put db validatorStateKey map.serialize).trans hall
  refine ⟨hall, ?_⟩
  rw [persistMultiValidatorLatchIfNeeded] at hlatch
  split at hlatch
  · cases hlatch
    exact hall₁
  · split at hlatch
    · cases hlatch
      exact hall₁
    · rw [mapErr_eq_ok_iff, RockDB.write_eq_ok_iff] at hlatch
      obtain ⟨-, rfl⟩ := hlatch
      rw [batchProcessAll_put, hall₁]

theorem Running.persist {map : ValidatorState} (h : Running map) {db : RockDB}
    (hall : db.batchProcessAll = .ok ()) : ∃ db', map.persist db = .ok () db' := by
  have hcommit : map.commit db = .ok (db.put .validatorData validatorStateKey map.serialize) := by
    rw [commit, config_valid, ok_bind, h.validateMap, ok_bind, mapErr_eq_ok_iff, RockDB.write_eq_ok_iff]
    exact ⟨hall, rfl⟩
  have hall₁ := (batchProcessAll_put db validatorStateKey map.serialize).trans hall
  have hlatch : ∃ db', map.persistMultiValidatorLatchIfNeeded
      (db.put .validatorData validatorStateKey map.serialize) = .ok db' := by
    rw [persistMultiValidatorLatchIfNeeded]
    split
    · exact ⟨_, rfl⟩
    split
    · exact ⟨_, rfl⟩
    · exact ⟨_, (mapErr_eq_ok_iff _ _ _).mpr ((RockDB.write_eq_ok_iff _ _ _ _ _).mpr ⟨hall₁, rfl⟩)⟩
  obtain ⟨db', hlatch⟩ := hlatch
  refine ⟨db', ?_⟩
  simp only [ValidatorState.persist, run_bind_eq_ok_iff, update_eq_ok_iff]
  exact ⟨(), _, hcommit, hlatch⟩

end ValidatorState

namespace ValidatorRegistry
open ValidatorState

/-! ### One block, live and replayed -/

/-- What a block and its batch do to the map. -/
def Step (block : Block) (batch : TransactionBatch) (map map' : ValidatorState) : Prop :=
  ∃ timestamp changed, canonicalEventTimestampForBlock block block.metadata.index = .ok timestamp ∧
    applyKinds block.metadata.index timestamp batch.transactions map = .ok (changed, map')

theorem result_ok_iff {α : Type} (a b : α) (s s' : ValidatorRegistry) :
    (.ok a s : EStateM.Result ErrorDetection ValidatorRegistry α) = .ok b s' ↔
      (Except.ok (a, s.inner) : Fallible (α × ValidatorState)) = .ok (b, s'.inner) ∧ s'.db = s.db := by
  obtain ⟨map, db⟩ := s
  obtain ⟨map', db'⟩ := s'
  simp only [EStateM.Result.ok.injEq, ValidatorRegistry.mk.injEq, Except.ok.injEq, Prod.mk.injEq,
    and_assoc, eq_comm (a := db)]

theorem applyRegistration_eq_ok_iff (height timestamp : UInt64) (kind : TxKind) (c c' : Bool)
    (s s' : ValidatorRegistry) :
    applyRegistration height timestamp c kind s = .ok c' s' ↔
      applyKind height timestamp (c, s.inner) kind = .ok (c', s'.inner) ∧ s'.db = s.db := by
  by_cases hreg : ∃ reg, kind = .registerNode reg
  · obtain ⟨reg, rfl⟩ := hreg
    simp only [applyRegistration, applyKind]
    cases upsertRegisterIntoMap height timestamp s.inner reg with
    | error e => simp [bind, Except.bind]
    | ok out => exact result_ok_iff (c || out.1) c' { s with inner := out.2 } s'
  · have hlive : applyRegistration height timestamp c kind s = .ok c s := by
      cases kind <;> first | rfl | exact absurd ⟨_, rfl⟩ hreg
    have hpure : applyKind height timestamp (c, s.inner) kind = .ok (c, s.inner) := by
      cases kind <;> first | rfl | exact absurd ⟨_, rfl⟩ hreg
    rw [hlive, hpure]
    exact result_ok_iff c c' s s'

theorem foldlM_applyRegistration_eq_ok_iff (height timestamp : UInt64) (kinds : List TxKind)
    (c c' : Bool) (s s' : ValidatorRegistry) :
    kinds.foldlM (applyRegistration height timestamp) c s = .ok c' s' ↔
      kinds.foldlM (applyKind height timestamp) (c, s.inner) = .ok (c', s'.inner) ∧
        s'.db = s.db := by
  induction kinds generalizing c s with
  | nil => exact result_ok_iff c c' s s'
  | cons kind kinds ih =>
    simp only [List.foldlM_cons, run_bind_eq_ok_iff, bind_eq_ok_iff, applyRegistration_eq_ok_iff, ih]
    constructor
    · rintro ⟨c₁, s₁, ⟨hkind, hdb₁⟩, hrest, hdb⟩
      exact ⟨⟨(c₁, s₁.inner), hkind, hrest⟩, hdb.trans hdb₁⟩
    · rintro ⟨⟨⟨c₁, map₁⟩, hkind, hrest⟩, hdb⟩
      exact ⟨c₁, ⟨map₁, s.db⟩, ⟨hkind, rfl⟩, hrest, hdb⟩

theorem persist_eq_ok_iff (s s' : ValidatorRegistry) :
    persist s = .ok () s' ↔ s.inner.persist s.db = .ok () s'.db ∧ s'.inner = s.inner := by
  obtain ⟨map', db'⟩ := s'
  rw [persist, zoom]
  cases s.inner.persist s.db with
  | error e db => simp
  | ok u db =>
    simp only [EStateM.Result.ok.injEq, ValidatorRegistry.mk.injEq, true_and, and_comm,
      eq_comm (a := s.inner)]

/-- A store that takes writes. -/
def Writable (s : ValidatorRegistry) : Prop := s.db.batchProcessAll = .ok ()

theorem applyBlock_inv {block : Block} {batch : TransactionBatch} {s s' : ValidatorRegistry}
    (h : applyBlock block batch s = .ok () s') (hs : s.Writable) :
    Step block batch s.inner s'.inner ∧ s'.Writable := by
  simp only [applyBlock, run_bind_eq_ok_iff, lift_eq_ok_iff,
    foldlM_applyRegistration_eq_ok_iff] at h
  obtain ⟨ts, _, ⟨hts, rfl⟩, changed, s₁, ⟨hkinds, hdb⟩, hpersist⟩ := h
  split at hpersist
  · obtain ⟨hpersist, hinner⟩ := (persist_eq_ok_iff s₁ s').mp hpersist
    exact ⟨⟨ts, changed, hts, hinner ▸ hkinds⟩, (persist_inv hpersist).2⟩
  · cases hpersist
    refine ⟨⟨ts, changed, hts, hkinds⟩, ?_⟩
    rw [Writable, hdb]
    exact hs

theorem Step.running {block : Block} {batch : TransactionBatch} {map map' : ValidatorState}
    (h : Step block batch map map') (hmap : Running map) : Running map' := by
  obtain ⟨ts, changed, -, hkinds⟩ := h
  exact (applyKinds_running _ hmap hkinds).1

theorem Step.applyBlock {block : Block} {batch : TransactionBatch} {s : ValidatorRegistry}
    {map' : ValidatorState} (h : Step block batch s.inner map') (hmap : Running s.inner)
    (hs : s.Writable) : ∃ db', applyBlock block batch s = .ok () ⟨map', db'⟩ := by
  have hmap' := h.running hmap
  obtain ⟨ts, changed, hts, hkinds⟩ := h
  obtain ⟨db', hdb'⟩ := hmap'.persist hs
  simp only [ValidatorRegistry.applyBlock, run_bind_eq_ok_iff, lift_eq_ok_iff,
    foldlM_applyRegistration_eq_ok_iff]
  cases changed with
  | true =>
    refine ⟨db', ts, s, ⟨hts, rfl⟩, true, ⟨map', s.db⟩, ⟨hkinds, rfl⟩, ?_⟩
    exact (persist_eq_ok_iff _ _).mpr ⟨hdb', rfl⟩
  | false => exact ⟨s.db, ts, s, ⟨hts, rfl⟩, false, ⟨map', s.db⟩, ⟨hkinds, rfl⟩, rfl⟩

/-- A block whose registrations the map knows changes nothing, not even the database. -/
theorem applyBlock_absorbed {block : Block} {batch : TransactionBatch} {s : ValidatorRegistry}
    {timestamp : UInt64} (hmap : Running s.inner)
    (hts : canonicalEventTimestampForBlock block block.metadata.index = .ok timestamp)
    (habsorbed : Absorbed block.metadata.index timestamp batch.transactions s.inner) :
    applyBlock block batch s = .ok () s := by
  simp only [applyBlock, run_bind_eq_ok_iff, lift_eq_ok_iff, foldlM_applyRegistration_eq_ok_iff]
  exact ⟨timestamp, s, ⟨hts, rfl⟩, false, s,
    ⟨applyKinds_absorbed _ hmap habsorbed false, rfl⟩, rfl⟩

/-! ### The founder -/

/-- The registry of a chain that consists of its genesis block. -/
def seeded (wallet : String) (timestamp : UInt64) : ValidatorState :=
  (∅ : ValidatorState).insert wallet ⟨0, timestamp, 0, timestamp, none⟩

theorem seeded_running {wallet : String} {timestamp : UInt64} (hwallet : CanonicalWallet wallet)
    (hts : ValidSecs timestamp) : Running (seeded wallet timestamp) :=
  Running.empty.insert hwallet (ValidatorMeta.Standing.fresh hts)

/-- The founder's wallet and time are valid. -/
def Founds (genesis : Block) (wallet : String) : Prop :=
  canonWalletIdChecked genesis.miner = .ok wallet ∧ ValidSecs genesis.metadata.timestamp

theorem not_founded (wallet : String) : ¬((∅ : ValidatorState)[wallet]?.any fun m =>
    m.joinHeight = 0 ∧ m.exitHeight = none) = true := by
  rw [ExtTreeMap.getElem?_empty]
  exact Bool.false_ne_true

theorem seedGenesisFounder_eq_ok_iff (genesis : Block) (db : RockDB) (u : Unit)
    (s' : ValidatorRegistry) :
    seedGenesisFounder genesis.miner genesis.metadata.timestamp ⟨∅, db⟩ = .ok u s' ↔
      ∃ wallet, Founds genesis wallet ∧ s'.inner = seeded wallet genesis.metadata.timestamp ∧
        s'.inner.persist db = .ok () s'.db := by
  simp only [seedGenesisFounder, canonicalEventTimestampFromBlock, run_bind_eq_ok_iff, lift_eq_ok_iff,
    mapErr_eq_ok_iff, bind_eq_ok_iff, validateUnixSecsStructural_eq_ok_iff, exists_const,
    pure_eq_ok_iff]
  constructor
  · rintro ⟨wallet, _, ⟨hwallet, rfl⟩, ts, _, ⟨⟨hts, rfl⟩, rfl⟩, _, _, hget, hseed⟩
    cases hget
    rw [if_neg (not_founded wallet)] at hseed
    simp only [run_bind_eq_ok_iff, lift_eq_ok_iff, ValidatorMeta.founder_eq_joined,
      ValidatorMeta.joined_eq_ok_iff] at hseed
    obtain ⟨m, _, ⟨⟨-, rfl⟩, rfl⟩, _, _, hset, hpersist⟩ := hseed
    cases hset
    obtain ⟨hpersist, hinner⟩ := (persist_eq_ok_iff _ _).mp hpersist
    exact ⟨wallet, ⟨hwallet, hts⟩, hinner, hinner ▸ hpersist⟩
  · rintro ⟨wallet, ⟨hwallet, hts⟩, hinner, hpersist⟩
    refine ⟨wallet, _, ⟨hwallet, rfl⟩, genesis.metadata.timestamp, _, ⟨⟨hts, rfl⟩, rfl⟩, _, _, rfl, ?_⟩
    rw [if_neg (not_founded wallet)]
    simp only [run_bind_eq_ok_iff, lift_eq_ok_iff, ValidatorMeta.founder_eq_joined,
      ValidatorMeta.joined_eq_ok_iff]
    refine ⟨_, _, ⟨⟨hts, rfl⟩, rfl⟩, _, _, rfl, (persist_eq_ok_iff _ _).mpr ⟨?_, hinner⟩⟩
    rw [hinner] at hpersist
    exact hpersist

theorem seedFounderFromCanonicalGenesis_eq_ok_iff {db : RockDB} {genesis : Block}
    (hblock : db.getBlockByIndex 0 = .ok (some genesis)) (hindex : genesis.metadata.index = 0)
    (map : ValidatorState) :
    seedFounderFromCanonicalGenesis db ∅ = .ok map ↔
      ∃ wallet, Founds genesis wallet ∧ map = seeded wallet genesis.metadata.timestamp := by
  have hderive : ∀ out, deriveGenesisFounderFromChain db = .ok out ↔
      ∃ wallet, Founds genesis wallet ∧ out = some (wallet, genesis.metadata.timestamp) := by
    intro out
    rw [deriveGenesisFounderFromChain, hblock, ok_bind]
    simp only [canonicalEventTimestampFromBlock, hindex, bind_eq_ok_iff, pure_eq_ok_iff,
      mapErr_eq_ok_iff, rejectIf_eq_ok_iff, validateUnixSecsStructural_eq_ok_iff, exists_const,
      not_not, true_and]
    constructor
    · rintro ⟨ts, ⟨hts, rfl⟩, wallet, hwallet, rfl⟩
      exact ⟨wallet, ⟨hwallet, hts⟩, rfl⟩
    · rintro ⟨wallet, ⟨hwallet, hts⟩, rfl⟩
      exact ⟨_, ⟨hts, rfl⟩, wallet, hwallet, rfl⟩
  rw [seedFounderFromCanonicalGenesis, bind_eq_ok_iff]
  constructor
  · rintro ⟨out, hout, hmap⟩
    obtain ⟨wallet, hfounds, rfl⟩ := (hderive out).mp hout
    dsimp only at hmap
    rw [if_neg (not_founded wallet)] at hmap
    simp only [bind_eq_ok_iff, pure_eq_ok_iff, ValidatorMeta.founder_eq_joined,
      ValidatorMeta.joined_eq_ok_iff] at hmap
    obtain ⟨m, ⟨-, rfl⟩, rfl⟩ := hmap
    exact ⟨wallet, hfounds, rfl⟩
  · rintro ⟨wallet, hfounds, rfl⟩
    refine ⟨_, (hderive _).mpr ⟨wallet, hfounds, rfl⟩, ?_⟩
    dsimp only
    rw [if_neg (not_founded wallet)]
    simp only [bind_eq_ok_iff, pure_eq_ok_iff, ValidatorMeta.founder_eq_joined,
      ValidatorMeta.joined_eq_ok_iff]
    exact ⟨_, ⟨hfounds.2, rfl⟩, rfl⟩

/-! ### Chains -/

/-- The blocks 0..n under their heights, and the batches of all but the genesis block. -/
structure StoredChain (db : RockDB) (n : ℕ) (block : ℕ → Block) (batch : ℕ → TransactionBatch) :
    Prop where
  blocks : ∀ i ≤ n, db.getBlockByIndex (UInt64.ofNat i) = .ok (some (block i))
  index : ∀ i ≤ n, (block i).metadata.index = UInt64.ofNat i
  batches : ∀ i, 0 < i → i ≤ n → ∃ bytes, db.getBatchBytesByIndex (UInt64.ofNat i) = some bytes ∧
    TransactionBatch.deserialize bytes = .ok (batch i)

/-- The genesis block has no batch, or one in which only the founder registers. -/
def FounderAlone (db : RockDB) (genesis : Block) : Prop :=
  ∀ bytes, db.getBatchBytesByIndex 0 = some bytes → ∃ batch, TransactionBatch.deserialize bytes = .ok batch ∧
    ∀ reg, .registerNode reg ∈ batch.transactions → reg.walletStr = canonWalletIdChecked genesis.miner

/-- Blocks 1..n as they arrive. -/
def applyBlocks (block : ℕ → Block) (batch : ℕ → TransactionBatch) :
    ℕ → EStateM ErrorDetection ValidatorRegistry Unit
  | 0 => return ()
  | n+1 => do
    applyBlocks block batch n
    applyBlock (block (n+1)) (batch (n+1))

/-- The registry of a node that has seen the chain from its genesis on. -/
def live (block : ℕ → Block) (batch : ℕ → TransactionBatch) (n : ℕ) :
    EStateM ErrorDetection ValidatorRegistry Unit := do
  seedGenesisFounder (block 0).miner (block 0).metadata.timestamp
  applyBlocks block batch n

/-- Blocks 1..n, one after the other. -/
def Steps (block : ℕ → Block) (batch : ℕ → TransactionBatch) : ℕ → ValidatorState → ValidatorState → Prop
  | 0, map, map' => map' = map
  | n+1, map, map' => ∃ mid, Steps block batch n map mid ∧ Step (block (n+1)) (batch (n+1)) mid map'

section Runs
variable {db : RockDB} {n : ℕ} {block : ℕ → Block} {batch : ℕ → TransactionBatch}

theorem Steps.running {map map' : ValidatorState} (h : Steps block batch n map map')
    (hmap : Running map) : Running map' := by
  induction n generalizing map' with
  | zero => exact h ▸ hmap
  | succ n ih =>
    obtain ⟨mid, hsteps, hstep⟩ := h
    exact hstep.running (ih hsteps)

theorem applyBlocks_inv {s s' : ValidatorRegistry} (hs : s.Writable)
    (h : applyBlocks block batch n s = .ok () s') :
    Steps block batch n s.inner s'.inner ∧ s'.Writable := by
  induction n generalizing s' with
  | zero =>
    cases h
    exact ⟨rfl, hs⟩
  | succ n ih =>
    rw [applyBlocks, run_bind_eq_ok_iff] at h
    obtain ⟨_, s₁, hrun, hlast⟩ := h
    obtain ⟨hsteps, hs₁⟩ := ih hrun
    obtain ⟨hstep, hs'⟩ := applyBlock_inv hlast hs₁
    exact ⟨⟨s₁.inner, hsteps, hstep⟩, hs'⟩

theorem Steps.applyBlocks {s : ValidatorRegistry} {map' : ValidatorState} (hs : s.Writable)
    (hmap : Running s.inner) (h : Steps block batch n s.inner map') :
    ∃ s', applyBlocks block batch n s = .ok () s' ∧ s'.inner = map' ∧ s'.Writable := by
  induction n generalizing map' with
  | zero => exact ⟨s, rfl, h.symm, hs⟩
  | succ n ih =>
    obtain ⟨mid, hsteps, hstep⟩ := h
    obtain ⟨s₁, hrun, rfl, hs₁⟩ := ih hsteps
    obtain ⟨db', hlast⟩ := hstep.applyBlock (hsteps.running hmap) hs₁
    refine ⟨_, ?_, rfl, (applyBlock_inv hlast hs₁).2⟩
    rw [ValidatorRegistry.applyBlocks, run_bind_eq_ok_iff]
    exact ⟨(), s₁, hrun, hlast⟩

theorem replayHeight_eq_ok_iff (h : StoredChain db n block batch) {i : ℕ} (hpos : 0 < i) (hi : i ≤ n)
    (map map' : ValidatorState) :
    replayHeight db map (UInt64.ofNat i) = .ok map' ↔ Step (block i) (batch i) map map' := by
  obtain ⟨bytes, hbytes, hbatch⟩ := h.batches i hpos hi
  rw [replayHeight, hbytes]
  simp only [h.blocks i hi, hbatch, okOr, mapErr, ok_bind, bind_eq_ok_iff, pure_eq_ok_iff, Step,
    h.index i hi]
  constructor
  · rintro ⟨ts, hts, out, hout, rfl⟩
    exact ⟨ts, out.1, hts, hout⟩
  · rintro ⟨ts, changed, hts, hout⟩
    exact ⟨ts, hts, (changed, map'), hout, rfl⟩

theorem foldlM_replayHeight_eq_ok_iff (h : StoredChain db n block batch) {k : ℕ} (hk : k ≤ n)
    (map map' : ValidatorState) :
    ((List.range (k+1)).map UInt64.ofNat).foldlM (replayHeight db) map = .ok map' ↔
      ∃ mid, replayHeight db map 0 = .ok mid ∧ Steps block batch k mid map' := by
  induction k generalizing map' with
  | zero =>
    change (replayHeight db map 0 >>= fun m => pure m) = _ ↔ _
    rw [bind_pure]
    constructor
    · intro hmap
      exact ⟨map', hmap, rfl⟩
    · rintro ⟨mid, hmid, rfl⟩
      exact hmid
  | succ k ih =>
    rw [List.range_succ, List.map_append, List.foldlM_append, bind_eq_ok_iff]
    simp only [ih (Nat.le_of_succ_le hk), List.map_cons, List.map_nil, List.foldlM_cons,
      List.foldlM_nil, bind_pure, replayHeight_eq_ok_iff h k.succ_pos hk]
    constructor
    · rintro ⟨last, ⟨mid, hmid, hsteps⟩, hstep⟩
      exact ⟨mid, hmid, last, hsteps, hstep⟩
    · rintro ⟨mid, hmid, last, hsteps, hstep⟩
      exact ⟨last, ⟨mid, hmid, hsteps⟩, hstep⟩

theorem replay_genesis (h : StoredChain db n block batch) (halone : FounderAlone db (block 0))
    {wallet : String} (hfounds : Founds (block 0) wallet) :
    replayHeight db (seeded wallet (block 0).metadata.timestamp) 0 =
      .ok (seeded wallet (block 0).metadata.timestamp) := by
  cases hbytes : db.getBatchBytesByIndex 0 with
  | none => rw [replayHeight, hbytes]
  | some bytes =>
    obtain ⟨genesis, hgenesis, honly⟩ := halone bytes hbytes
    have hindex : (block 0).metadata.index = 0 := h.index 0 (Nat.zero_le n)
    have hblock : db.getBlockByIndex 0 = .ok (some (block 0)) := h.blocks 0 (Nat.zero_le n)
    have hts : canonicalEventTimestampForBlock (block 0) 0 = .ok (block 0).metadata.timestamp := by
      rw [canonicalEventTimestampForBlock, rejectIf_of_not _ (not_not_intro hindex), ok_bind,
        canonicalEventTimestampFromBlock,
        (validateUnixSecsStructural_eq_ok_iff _ _ ()).mpr hfounds.2]
      rfl
    have habsorbed : Absorbed 0 (block 0).metadata.timestamp genesis.transactions
        (seeded wallet (block 0).metadata.timestamp) := by
      intro reg hreg
      exact ⟨wallet, (honly reg hreg).trans hfounds.1, hfounds.2, Renewed.insert_self ∅ wallet 0 _⟩
    have hrunning := seeded_running (canonWalletIdChecked_canonical hfounds.1) hfounds.2
    rw [replayHeight, hbytes]
    simp only [hblock, okOr, ok_bind, hts, hgenesis, mapErr, applyKinds,
      applyKinds_absorbed _ hrunning habsorbed false]
    rfl

theorem live_eq_ok_iff (map : ValidatorState) :
    (∃ db', live block batch n ⟨∅, db⟩ = .ok () ⟨map, db'⟩) ↔ db.batchProcessAll = .ok () ∧
      ∃ wallet, Founds (block 0) wallet ∧
        Steps block batch n (seeded wallet (block 0).metadata.timestamp) map := by
  simp only [live, run_bind_eq_ok_iff, seedGenesisFounder_eq_ok_iff]
  constructor
  · rintro ⟨db', _, s₁, ⟨wallet, hfounds, hinner, hpersist⟩, hrun⟩
    obtain ⟨hall, hall₁⟩ := persist_inv hpersist
    obtain ⟨hsteps, -⟩ := applyBlocks_inv hall₁ hrun
    exact ⟨hall, wallet, hfounds, hinner ▸ hsteps⟩
  · rintro ⟨hall, wallet, hfounds, hsteps⟩
    have hrunning := seeded_running (canonWalletIdChecked_canonical hfounds.1) hfounds.2
    obtain ⟨db₁, hpersist⟩ := hrunning.persist hall
    obtain ⟨s', hrun, rfl, -⟩ := @Steps.applyBlocks n block batch
      ⟨seeded wallet (block 0).metadata.timestamp, db₁⟩ map (persist_inv hpersist).2 hrunning hsteps
    exact ⟨s'.db, (), ⟨seeded wallet (block 0).metadata.timestamp, db₁⟩,
      ⟨wallet, hfounds, rfl, hpersist⟩, hrun⟩

theorem rebuild_eq_ok_iff (h : StoredChain db n block batch) (halone : FounderAlone db (block 0))
    (hn : n < 2^64) (old map : ValidatorState) :
    (∃ db', rebuildFromChain (some (UInt64.ofNat n)) ⟨old, db⟩ = .ok () ⟨map, db'⟩) ↔
      db.batchProcessAll = .ok () ∧ ∃ wallet, Founds (block 0) wallet ∧
        Steps block batch n (seeded wallet (block 0).metadata.timestamp) map := by
  have hbuild : ∀ out, buildReplayMapFromChain db (UInt64.ofNat n) = .ok out ↔
      ∃ wallet, Founds (block 0) wallet ∧
        Steps block batch n (seeded wallet (block 0).metadata.timestamp) out := by
    intro out
    simp only [buildReplayMapFromChain, bind_eq_ok_iff, pure_eq_ok_iff,
      seedFounderFromCanonicalGenesis_eq_ok_iff (h.blocks 0 (Nat.zero_le n)) (h.index 0 (Nat.zero_le n)),
      UInt64.toNat_ofNat_of_lt' hn, foldlM_replayHeight_eq_ok_iff h (Nat.le_refl n)]
    constructor
    · rintro ⟨_, ⟨wallet, hfounds, rfl⟩, map', ⟨mid, hmid, hsteps⟩, _, -, rfl⟩
      cases (replay_genesis h halone hfounds).symm.trans hmid
      exact ⟨wallet, hfounds, hsteps⟩
    · rintro ⟨wallet, hfounds, hsteps⟩
      have hrunning := seeded_running (canonWalletIdChecked_canonical hfounds.1) hfounds.2
      exact ⟨_, ⟨wallet, hfounds, rfl⟩, out, ⟨_, replay_genesis h halone hfounds, hsteps⟩, (),
        (hsteps.running hrunning).validateMap, rfl⟩
  simp only [rebuildFromChain, replaceWithRebuiltMap, run_bind_eq_ok_iff, lift_eq_ok_iff]
  constructor
  · rintro ⟨db', _, _, hget, rebuilt, _, ⟨hrebuilt, rfl⟩, _, _, ⟨-, rfl⟩, _, _, hmodify, hpersist⟩
    cases hget
    cases hmodify
    obtain ⟨hpersist, hinner⟩ := (persist_eq_ok_iff _ _).mp hpersist
    cases hinner
    exact ⟨(persist_inv hpersist).1, (hbuild _).mp hrebuilt⟩
  · rintro ⟨hall, hsteps⟩
    have hrebuilt := (hbuild map).mpr hsteps
    obtain ⟨wallet, hfounds, hsteps⟩ := hsteps
    have hrunning := hsteps.running (seeded_running (canonWalletIdChecked_canonical hfounds.1) hfounds.2)
    obtain ⟨db', hpersist⟩ := hrunning.persist hall
    exact ⟨db', _, _, rfl, map, _, ⟨hrebuilt, rfl⟩, (), _, ⟨hrunning.validateMap, rfl⟩, (), _, rfl,
      (persist_eq_ok_iff _ _).mpr ⟨hpersist, rfl⟩⟩

/-- After blocks 1..n the map knows every registration of each of them. -/
theorem Steps.absorbed {map map' : ValidatorState} (h : Steps block batch n map map')
    (hmap : Running map) {i : ℕ} (hpos : 0 < i) (hi : i ≤ n) :
    ∃ timestamp, canonicalEventTimestampForBlock (block i) (block i).metadata.index = .ok timestamp ∧
      Absorbed (block i).metadata.index timestamp (batch i).transactions map' := by
  induction n generalizing map' with
  | zero => omega
  | succ n ih =>
    obtain ⟨mid, hsteps, ts, changed, hts, hkinds⟩ := h
    obtain ⟨-, hnew, hkeep⟩ := applyKinds_running _ (hsteps.running hmap) hkinds
    rcases Nat.lt_or_eq_of_le hi with hlt | rfl
    · obtain ⟨ts', hts', hold⟩ := ih hsteps (Nat.le_of_lt_succ hlt)
      refine ⟨ts', hts', ?_⟩
      intro reg hreg
      obtain ⟨wallet, hstr, hvalid, hrenewed⟩ := hold reg hreg
      exact ⟨wallet, hstr, hvalid, hkeep _ _ _ hrenewed⟩
    · exact ⟨ts, hts, hnew⟩

/-- The registry kept block by block is the registry rebuilt from the stored chain, and a block
of the chain that is applied again changes neither the map nor the database. -/
theorem live_registry_eq_rebuilt (h : StoredChain db n block batch)
    (halone : FounderAlone db (block 0)) (hn : n < 2^64) (old : ValidatorState) :
    (∀ map, (∃ db', live block batch n ⟨∅, db⟩ = .ok () ⟨map, db'⟩) ↔
      ∃ db', rebuildFromChain (some (UInt64.ofNat n)) ⟨old, db⟩ = .ok () ⟨map, db'⟩) ∧
    ∀ map db', live block batch n ⟨∅, db⟩ = .ok () ⟨map, db'⟩ → ∀ i, 0 < i → i ≤ n →
      applyBlock (block i) (batch i) ⟨map, db'⟩ = .ok () ⟨map, db'⟩ := by
  constructor
  · intro map
    rw [live_eq_ok_iff, rebuild_eq_ok_iff h halone hn]
  · intro map db' hlive i hpos hi
    obtain ⟨-, wallet, hfounds, hsteps⟩ := (live_eq_ok_iff map).mp ⟨db', hlive⟩
    have hrunning := seeded_running (canonWalletIdChecked_canonical hfounds.1) hfounds.2
    obtain ⟨ts, hts, habsorbed⟩ := hsteps.absorbed hrunning hpos hi
    exact applyBlock_absorbed (hsteps.running hrunning) hts habsorbed

end Runs

end ValidatorRegistry

/-! ### Two chains -/

namespace Sample
open ValidatorRegistry

/-- One registration of the wallet `b`. -/
def registration (height timestamp : UInt64) : TransactionBatch :=
  ⟨height, timestamp, [.registerNode ⟨wallet 98, timestamp⟩], none⟩

def storeBlock (db : RockDB) (b : Block) : RockDB :=
  db.put .blockmintData (RockDB.blockKey b.metadata.index) (Block.codec.enc b)

/-- A genesis block with a batch, in which somebody else than the founder registers. -/
def crowdedDb : RockDB :=
  (storeBlock RockDB.empty block0).storeBatchBytes 0 (registration 0 1700000000).serialize

/-- A genesis block without a batch, and a registration in the next block. -/
def joinedDb : RockDB :=
  (storeBlock (storeBlock RockDB.empty block0) emptyBlock1).storeBatchBytes 1
    (registration 1 1700000030).serialize

def joinedBlock (i : ℕ) : Block := if i = 0 then block0 else emptyBlock1

/-- The wallets of the registry that a run leaves. -/
def walletsOf : EStateM.Result ErrorDetection ValidatorRegistry Unit → Option (List String)
  | .ok _ s => some (s.inner.toList.map Prod.fst)
  | .error _ _ => none

theorem walletsOf_ok {r : EStateM.Result ErrorDetection ValidatorRegistry Unit} {wallets : List String}
    (h : walletsOf r = some wallets) :
    ∃ map db, r = .ok () ⟨map, db⟩ ∧ map.toList.map Prod.fst = wallets := by
  cases r with
  | ok u s => exact ⟨s.inner, s.db, rfl, Option.some.inj h⟩
  | error e s => cases h

theorem crowded_wallets :
    walletsOf (live (fun _ => block0) (fun _ => registration 0 1700000000) 0 ⟨∅, crowdedDb⟩) =
        some [miner] ∧
      walletsOf (rebuildFromChain (some 0) ⟨∅, crowdedDb⟩) =
        some [miner, String.ofList ('r' :: List.replicate 128 'b')] := by
  decide +kernel

end Sample

namespace ValidatorRegistry

/-- The genesis block and its batch are stored; live, the registration in that batch is never
looked at, and rebuilding applies it. -/
theorem genesis_registration_only_rebuilt :
    Sample.crowdedDb.getBlockByIndex 0 = .ok (some Sample.block0) ∧
      (∃ bytes, Sample.crowdedDb.getBatchBytesByIndex 0 = some bytes ∧
        TransactionBatch.deserialize bytes = .ok (Sample.registration 0 1700000000)) ∧
      ∃ map map' db db',
        live (fun _ => Sample.block0) (fun _ => Sample.registration 0 1700000000) 0
          ⟨∅, Sample.crowdedDb⟩ = .ok () ⟨map, db⟩ ∧
        rebuildFromChain (some 0) ⟨∅, Sample.crowdedDb⟩ = .ok () ⟨map', db'⟩ ∧ map ≠ map' := by
  obtain ⟨hlive, hrebuilt⟩ := Sample.crowded_wallets
  obtain ⟨map, db, hmap, hwallets⟩ := Sample.walletsOf_ok hlive
  obtain ⟨map', db', hmap', hwallets'⟩ := Sample.walletsOf_ok hrebuilt
  refine ⟨by decide +kernel, ⟨_, rfl, by decide +kernel⟩, map, map', db, db', hmap, hmap', ?_⟩
  rintro rfl
  have hlengths := congrArg List.length (hwallets.symm.trans hwallets')
  cases hlengths

theorem live_registry_eq_rebuilt_joined :
    FounderAlone Sample.joinedDb (Sample.joinedBlock 0) ∧
    ∀ map, (∃ db', live Sample.joinedBlock (fun _ => Sample.registration 1 1700000030) 1
        ⟨∅, Sample.joinedDb⟩ = .ok () ⟨map, db'⟩) ↔
      ∃ db', rebuildFromChain (some 1) ⟨∅, Sample.joinedDb⟩ = .ok () ⟨map, db'⟩ := by
  have hchain : StoredChain Sample.joinedDb 1 Sample.joinedBlock
      (fun _ => Sample.registration 1 1700000030) := by
    refine ⟨?_, ?_, ?_⟩
    · intro i hi
      interval_cases i <;> decide +kernel
    · intro i hi
      interval_cases i <;> decide +kernel
    · intro i hpos hi
      interval_cases i
      exact ⟨_, rfl, by decide +kernel⟩
  have halone : FounderAlone Sample.joinedDb (Sample.joinedBlock 0) := by
    intro bytes hbytes
    have hnone : Sample.joinedDb.getBatchBytesByIndex 0 = none := by decide +kernel
    rw [hnone] at hbytes
    cases hbytes
  exact ⟨halone, (live_registry_eq_rebuilt hchain halone (by decide) ∅).1⟩

end ValidatorRegistry

end Remzar
