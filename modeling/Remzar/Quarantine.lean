import Mathlib
import Remzar.ValidatorChain
import Remzar.LeaderSchedule

/-! Joining, renewing and leaving over a history of events, and how long a validator has been
active by the time it may propose. A renewal never moves the join height, also when the lease
it renews has run out long before. -/
namespace Remzar
open Std Fallible Effects Checked Text

/-! ### Leaving -/

namespace ValidatorMeta

-- The entry is changed before it is checked: a refused exit height stays recorded.
def recordExit (m : ValidatorMeta) (wallet : String) (height : UInt64) :
    EStateM.Result ErrorDetection ValidatorMeta Bool :=
  let m' := { m with exitHeight := some height }
  match m'.validateInvariants wallet with
  | .ok _ => .ok true m'
  | .error e => .error e m'

def markExit (wallet : String) (height : UInt64) : EStateM ErrorDetection ValidatorMeta Bool := fun m =>
  match m.validateInvariants wallet with
  | .error e => .error e m
  | .ok _ =>
    match m.exitHeight with
    | none => m.recordExit wallet height
    | some prev => if height < prev then m.recordExit wallet height else .ok false m

end ValidatorMeta

def ValidatorLifecycle.applyExit (wallet : String) (height : UInt64) :
    EStateM ErrorDetection ValidatorState Bool := fun map =>
  match mapErr (fun e => validationErr
      s!"ValidatorLifecycle::apply_exit invalid wallet: {e.display}") (canonWalletIdChecked wallet) with
  | .error e => .error e map
  | .ok canon =>
    match map[canon]? with
    | none => .ok false map
    | some m =>
      match m.markExit canon height with
      | .ok changed m' => .ok changed (map.insert canon m')
      | .error e m' => .error e (map.insert canon m')

/-! ### Histories -/

inductive LifecycleEvent where
  | registerOrRenew (wallet : String) (timestamp : UInt64)
  | exit (wallet : String)

/-- Events with their heights, in the order they happen. -/
abbrev History := List (UInt64 × LifecycleEvent)

namespace History

-- A refused registration leaves the registry as it was.
def step (map : ValidatorState) (e : UInt64 × LifecycleEvent) : ValidatorState :=
  match e.2 with
  | .registerOrRenew wallet timestamp =>
    match ValidatorLifecycle.applyRegisterOrRenew map wallet e.1 timestamp with
    | .ok out => out.2
    | .error _ => map
  | .exit wallet => storeOf (ValidatorLifecycle.applyExit wallet e.1 map)

def run (map : ValidatorState) (history : History) : ValidatorState := history.foldl step map

/-- The registry after everything up to a height. -/
def asOf (map : ValidatorState) (history : History) (height : UInt64) : ValidatorState :=
  run map (history.filter fun e => e.1 ≤ height)

/-- Nobody but founders so far. -/
def Founders (map : ValidatorState) : Prop :=
  ∀ (w : String) (m : ValidatorMeta), map[w]? = some m → m.joinHeight = 0

def Ordered (history : History) : Prop := history.Pairwise fun a b => a.1 ≤ b.1

def ActiveAt (map : ValidatorState) (wallet : String) (height : UInt64) : Prop :=
  ∃ m, map[wallet]? = some m ∧ m.isActiveAt height ValidatorLifecycle.config = true

def Registers (e : LifecycleEvent) (wallet : String) : Prop :=
  ∃ w timestamp, e = .registerOrRenew w timestamp ∧ canonWalletIdChecked w = .ok wallet

/-- No registration of the wallet after height `a` comes later than the block after the lease
it renews has run out. -/
def RenewsInTime (map : ValidatorState) (history : History) (wallet : String) (a : ℕ) : Prop :=
  ∀ before e after, history = before ++ e :: after → a < e.1.toNat → Registers e.2 wallet →
    ∀ m, (run map before)[wallet]? = some m → m.exitHeight = none →
      e.1.toNat ≤ (m.leaseExpiryHeight ValidatorLifecycle.config).toNat + 1

/-! ### What an event does to one entry -/

/-- The ways in which an entry comes about at a height. -/
inductive Change (e : UInt64 × LifecycleEvent) (wallet : String) :
    Option ValidatorMeta → ValidatorMeta → Prop
  | same (m : ValidatorMeta) : Change e wallet (some m) m
  | joined (m : ValidatorMeta) (hjoin : m.joinHeight = e.1) (hrenew : m.lastRenewHeight = e.1) :
    Change e wallet none m
  | renewed (m : ValidatorMeta) (timestamp : UInt64) (hreg : Registers e.2 wallet)
    (hexit : m.exitHeight = none) : Change e wallet (some m) (m.renewed e.1 timestamp)
  | reactivated (m : ValidatorMeta) (timestamp : UInt64) :
    Change e wallet (some m) (m.reactivated e.1 timestamp)
  | exited (m : ValidatorMeta) (hexit : ∀ prev, m.exitHeight = some prev → e.1 < prev) :
    Change e wallet (some m) { m with exitHeight := some e.1 }

theorem renewOrReactivate_cases {m m' : ValidatorMeta} {wallet : String} {height timestamp : UInt64}
    {outcome : RegisterOutcome}
    (h : m.renewOrReactivate wallet height timestamp = .ok (outcome, m')) :
    (m.exitHeight = none ∧ m' = m.renewed height timestamp) ∨ m' = m ∨
      m' = m.reactivated height timestamp := by
  simp only [ValidatorMeta.renewOrReactivate, bind_eq_ok_iff] at h
  obtain ⟨_, -, _, -, h⟩ := h
  cases hexit : m.exitHeight with
  | none =>
    simp only [hexit, bind_eq_ok_iff, pure_eq_ok_iff, Prod.mk.injEq] at h
    obtain ⟨_, -, -, rfl⟩ := h
    exact .inl ⟨rfl, rfl⟩
  | some exit =>
    simp only [hexit] at h
    split at h
    · cases h
      exact .inr (.inl rfl)
    · simp only [bind_eq_ok_iff, pure_eq_ok_iff, Prod.mk.injEq] at h
      obtain ⟨_, -, -, rfl⟩ := h
      exact .inr (.inr rfl)

theorem markExit_cases (m : ValidatorMeta) (wallet : String) (height : UInt64) :
    storeOf (m.markExit wallet height) = m ∨
      (∀ prev, m.exitHeight = some prev → height < prev) ∧
        storeOf (m.markExit wallet height) = { m with exitHeight := some height } := by
  have hrecord : storeOf (m.recordExit wallet height) = { m with exitHeight := some height } := by
    rw [ValidatorMeta.recordExit]
    split <;> rfl
  rw [ValidatorMeta.markExit]
  split
  · exact .inl rfl
  · split
    · rename_i hnone
      refine .inr ⟨fun prev h => ?_, hrecord⟩
      rw [hnone] at h
      cases h
    · rename_i prev hprev
      split
      · rename_i hlt
        refine .inr ⟨fun p h => ?_, hrecord⟩
        rw [hprev] at h
        cases h
        exact hlt
      · exact .inl rfl

theorem step_change (map : ValidatorState) (e : UInt64 × LifecycleEvent) {wallet : String}
    {m' : ValidatorMeta} (h : (step map e)[wallet]? = some m') :
    Change e wallet map[wallet]? m' := by
  obtain ⟨height, event⟩ := e
  have hsame : map[wallet]? = some m' → Change (height, event) wallet map[wallet]? m' := by
    intro hm
    rw [hm]
    exact .same m'
  cases event with
  | registerOrRenew w timestamp =>
    simp only [step] at h
    split at h
    · rename_i out hout
      simp only [ValidatorLifecycle.applyRegisterOrRenew, bind_eq_ok_iff, mapErr_eq_ok_iff] at hout
      obtain ⟨canon, hcanon, _, -, _, -, hout⟩ := hout
      cases hentry : map[canon]? with
      | none =>
        simp only [hentry, bind_eq_ok_iff, pure_eq_ok_iff] at hout
        obtain ⟨m, hm, rfl⟩ := hout
        rw [ValidatorState.getElem?_insert_wallet] at h
        split at h
        · rename_i hw
          cases h
          subst hw
          rw [hentry]
          simp only [ValidatorLifecycle.newValidatorMeta, bind_eq_ok_iff, pure_eq_ok_iff] at hm
          obtain ⟨_, -, _, hjoined, _, -, rfl⟩ := hm
          obtain ⟨-, rfl⟩ := (ValidatorMeta.joined_eq_ok_iff _ _ _).mp hjoined
          exact .joined _ rfl rfl
        · exact hsame h
      | some m =>
        simp only [hentry, bind_eq_ok_iff, pure_eq_ok_iff] at hout
        obtain ⟨⟨outcome, m₁⟩, hrenew, rfl⟩ := hout
        rw [ValidatorState.getElem?_insert_wallet] at h
        split at h
        · rename_i hw
          cases h
          subst hw
          rw [hentry]
          rcases renewOrReactivate_cases hrenew with ⟨hexit, rfl⟩ | rfl | rfl
          · exact .renewed m timestamp ⟨w, timestamp, rfl, hcanon⟩ hexit
          · exact .same _
          · exact .reactivated m timestamp
        · exact hsame h
    · exact hsame h
  | exit w =>
    simp only [step, ValidatorLifecycle.applyExit] at h
    split at h
    · exact hsame h
    · rename_i canon hcanon
      split at h
      · exact hsame h
      · rename_i m hentry
        have hstore : (map.insert canon (storeOf (m.markExit canon height)))[wallet]? = some m' := by
          cases hmark : m.markExit canon height with
          | ok changed m₁ => rwa [hmark] at h
          | error err m₁ => rwa [hmark] at h
        rw [ValidatorState.getElem?_insert_wallet] at hstore
        split at hstore
        · rename_i hw
          cases hstore
          subst hw
          rw [hentry]
          rcases markExit_cases m canon height with hm | ⟨hprev, hm⟩
          · rw [hm]
            exact .same m
          · rw [hm]
            exact .exited m hprev
        · exact hsame hstore

/-! ### The window -/

section Window
variable {map : ValidatorState} {history : History} {wallet : String}

theorem run_append (map : ValidatorState) (before after : History) :
    run map (before ++ after) = run (run map before) after := List.foldl_append

theorem asOf_of_forall_le {h : UInt64} (hall : ∀ e ∈ history, e.1 ≤ h) :
    asOf map history h = run map history := by
  rw [asOf, List.filter_eq_self.mpr fun e he => decide_eq_true (hall e he)]

theorem asOf_append_of_lt (before : History) {e : UInt64 × LifecycleEvent} {h : UInt64}
    (hlt : h < e.1) : asOf map (before ++ [e]) h = asOf map before h := by
  rw [asOf, List.filter_append, List.filter_singleton]
  rw [decide_eq_false (UInt64.not_le.mpr hlt), asOf]
  simp

theorem isActiveAt_iff (m : ValidatorMeta) (height : UInt64) (cfg : ValidatorLifecycleConfig) :
    m.isActiveAt height cfg = true ↔ m.joinHeight ≤ height ∧
      (∀ exit, m.exitHeight = some exit → height < exit) ∧ height ≤ m.leaseExpiryHeight cfg := by
  simp only [ValidatorMeta.isActiveAt, ValidatorMeta.withinLeaseAt, Bool.and_eq_true,
    decide_eq_true_eq, and_assoc]
  apply and_congr_right
  intro _
  apply and_congr_left
  intro _
  rw [ValidatorMeta.notExplicitlyExitedAt]
  cases m.exitHeight <;> simp

theorem Ordered.snoc {e : UInt64 × LifecycleEvent} (h : Ordered (history ++ [e])) :
    Ordered history ∧ ∀ x ∈ history, x.1 ≤ e.1 := by
  obtain ⟨hbefore, -, hcross⟩ := List.pairwise_append.mp h
  exact ⟨hbefore, fun x hx => hcross x hx e List.mem_cons_self⟩

/-- Wherever the entry of now says it was active, back to the height from which all renewals
came in time, the registry of then said so too. -/
theorem active_before (hfounders : Founders map)
    (hordered : Ordered history) {a : ℕ} (hin : RenewsInTime map history wallet a)
    {m : ValidatorMeta} {h : UInt64} (hm : (run map history)[wallet]? = some m)
    (hjoin : m.joinHeight ≠ 0) (ha : a ≤ h.toNat)
    (hactive : m.isActiveAt h ValidatorLifecycle.config = true) :
    ActiveAt (asOf map history h) wallet h := by
  -- By induction on the history from its end: the last event is either not yet seen at `h`, or
  -- it is, and the registry of then is the registry of now.
  induction history using List.reverseRecOn generalizing m with
  | nil => exact absurd (hfounders wallet m hm) hjoin
  | append_singleton before e ih =>
    obtain ⟨hbefore, hle⟩ := hordered.snoc
    by_cases hseen : e.1 ≤ h
    · have hall : ∀ x ∈ before ++ [e], x.1 ≤ h := by
        intro x hx
        rcases List.mem_append.mp hx with hx | hx
        · exact UInt64.le_trans (hle x hx) hseen
        · rwa [List.mem_singleton.mp hx]
      rw [asOf_of_forall_le hall]
      exact ⟨m, hm, hactive⟩
    · have hlt : h < e.1 := UInt64.not_le.mp hseen
      rw [asOf_append_of_lt before hlt]
      have hin' : RenewsInTime map before wallet a := by
        intro b x c hsplit
        exact hin b x (c ++ [e]) (by rw [hsplit, List.append_assoc, List.cons_append])
      rw [run_append] at hm
      have hchange := step_change (run map before) e hm
      obtain ⟨hfrom, hexit, hlease⟩ := (isActiveAt_iff m h _).mp hactive
      have hltn : h.toNat < e.1.toNat := UInt64.lt_iff_toNat_lt.mp hlt
      cases hentry : (run map before)[wallet]? with
      | none =>
        rw [hentry] at hchange
        cases hchange with
        | joined _ hj _ => exact absurd (hj ▸ hfrom) (UInt64.not_le.mpr hlt)
      | some m₀ =>
        rw [hentry] at hchange
        cases hchange with
        | same _ => exact ih hbefore hin' hentry hjoin hactive
        | renewed _ timestamp hreg hnone =>
          refine ih hbefore hin' hentry hjoin ((isActiveAt_iff m₀ h _).mpr ⟨hfrom, hexit, ?_⟩)
          have htime := hin before e [] rfl (Nat.lt_of_le_of_lt ha hltn) hreg m₀ hentry hnone
          exact UInt64.le_iff_toNat_le.mpr (by omega)
        | reactivated _ timestamp =>
          rw [ValidatorMeta.reactivated] at hfrom hjoin
          split at hfrom
          · rename_i hzero
            rw [if_pos hzero] at hjoin
            exact absurd hzero hjoin
          · exact absurd hfrom (UInt64.not_le.mpr hlt)
        | exited _ hprev =>
          refine ih hbefore hin' hentry hjoin ((isActiveAt_iff m₀ h _).mpr ⟨hfrom, ?_, hlease⟩)
          intro exit hexit₀
          exact UInt64.lt_trans hlt (hprev exit hexit₀)

/-- Once a lease covers a height, later events never take it back. -/
theorem expiry_keep {h : UInt64} (hlater : ∀ e ∈ history, h ≤ e.1) {m₀ : ValidatorMeta}
    (hm₀ : map[wallet]? = some m₀) (hlease : h ≤ m₀.leaseExpiryHeight ValidatorLifecycle.config)
    {m : ValidatorMeta} (hm : (run map history)[wallet]? = some m) :
    h ≤ m.leaseExpiryHeight ValidatorLifecycle.config := by
  have hrenewed : ∀ m : ValidatorMeta, h ≤ m.lastRenewHeight →
      h ≤ m.leaseExpiryHeight ValidatorLifecycle.config := by
    intro m hle
    rw [UInt64.le_iff_toNat_le] at *
    have hlt := h.toNat_lt
    rw [ValidatorMeta.leaseExpiryHeight, saturatingAdd_toNat]
    omega
  induction history using List.reverseRecOn generalizing m with
  | nil =>
    cases hm₀.symm.trans hm
    exact hlease
  | append_singleton before e ih =>
    have hbefore : ∀ x ∈ before, h ≤ x.1 := fun x hx => hlater x (List.mem_append_left _ hx)
    have he : h ≤ e.1 := hlater e (List.mem_append_right _ List.mem_cons_self)
    rw [run_append] at hm
    have hchange := step_change (run map before) e hm
    cases hentry : (run map before)[wallet]? with
    | none =>
      rw [hentry] at hchange
      cases hchange with
      | joined _ _ hrenew => exact hrenewed m (hrenew ▸ he)
    | some m₁ =>
      rw [hentry] at hchange
      have hmax : h ≤ (m₁.renewed e.1 0).lastRenewHeight := by
        simp only [ValidatorMeta.renewed, UInt64.le_iff_toNat_le, UInt64.toNat_max] at *
        omega
      cases hchange with
      | same _ => exact ih hbefore hentry
      | renewed _ timestamp _ _ => exact hrenewed _ hmax
      | reactivated _ timestamp =>
        apply hrenewed
        rw [ValidatorMeta.reactivated]
        split
        · exact hmax
        · exact he
      | exited _ _ =>
        have hlease₁ := ih hbefore hentry
        exact hlease₁

theorem Ordered.split (hordered : Ordered history) (h : UInt64) :
    history = history.filter (fun e => e.1 ≤ h) ++ history.filter (fun e => ¬e.1 ≤ h) := by
  induction history with
  | nil => rfl
  | cons e rest ih =>
    obtain ⟨hhead, hrest⟩ := List.pairwise_cons.mp hordered
    by_cases hle : e.1 ≤ h
    · rw [List.filter_cons_of_pos (by simpa using hle), List.filter_cons_of_neg (by simpa using hle),
        List.cons_append, ← ih hrest]
    · have hlate : ∀ x ∈ rest, ¬x.1 ≤ h := fun x hx hx' => hle (UInt64.le_trans (hhead x hx) hx')
      rw [List.filter_cons_of_neg (by simpa using hle), List.filter_cons_of_pos (by simpa using hle),
        List.filter_eq_nil_iff.mpr (by simpa using hlate), List.nil_append,
        List.filter_eq_self.mpr (by simpa using hlate)]

/-- A registry that was active at every height after `a` was renewed in time. -/
theorem RenewsInTime.of_active (hordered : Ordered history) {a : ℕ} {h : UInt64}
    (hall : ∀ e ∈ history, e.1 ≤ h)
    (hactive : ∀ h', a ≤ h'.toNat → h' ≤ h → ActiveAt (asOf map history h') wallet h') :
    RenewsInTime map history wallet a := by
  rintro before e after rfl ha - m hm -
  -- The height just before the event: only events before it count there.
  have hone : (1 : UInt64) ≤ e.1 := by
    rw [UInt64.le_iff_toNat_le]
    exact Nat.one_le_iff_ne_zero.mpr (by omega)
  have hpred : (e.1 - 1).toNat = e.1.toNat - 1 := UInt64.toNat_sub_of_le e.1 1 hone
  have he := UInt64.le_iff_toNat_le.mp (hall e (List.mem_append_right _ List.mem_cons_self))
  obtain ⟨m₀, hm₀, hactive₀⟩ := hactive (e.1 - 1) (by omega) (UInt64.le_iff_toNat_le.mpr (by omega))
  obtain ⟨hbefore, hrest, -⟩ := List.pairwise_append.mp hordered
  have hlate : ∀ x ∈ e :: after, ¬x.1 ≤ e.1 - 1 := by
    intro x hx
    have hex : e.1.toNat ≤ x.1.toNat := by
      rcases List.mem_cons.mp hx with rfl | hx
      · exact Nat.le_refl _
      · exact UInt64.le_iff_toNat_le.mp ((List.pairwise_cons.mp hrest).1 x hx)
    rw [UInt64.le_iff_toNat_le]
    omega
  have hasOf : asOf map (before ++ e :: after) (e.1 - 1) =
      run map (before.filter fun x => x.1 ≤ e.1 - 1) := by
    have hnone : (e :: after).filter (fun x => x.1 ≤ e.1 - 1) = [] :=
      List.filter_eq_nil_iff.mpr fun x hx => by simpa using hlate x hx
    rw [asOf, List.filter_append, hnone, List.append_nil]
  rw [hasOf] at hm₀
  rw [Ordered.split hbefore (e.1 - 1), run_append] at hm
  have hkeep := expiry_keep (h := e.1 - 1) (by
    intro x hx
    exact UInt64.le_of_lt (UInt64.not_le.mp (by simpa using (List.mem_filter.mp hx).2))) hm₀
    ((isActiveAt_iff m₀ _ _).mp hactive₀).2.2 hm
  rw [UInt64.le_iff_toNat_le] at hkeep
  omega

theorem mem_proposableAt {h d : UInt64} (hmem : wallet ∈ map.proposableAt h d) :
    ∃ m, map[wallet]? = some m ∧ m.isActiveAt h ValidatorLifecycle.config = true ∧
      (m.joinHeight ≠ 0 → saturatingAdd m.joinHeight d ≤ h) := by
  rw [ValidatorState.proposableAt] at hmem
  split at hmem
  · exact absurd hmem List.not_mem_nil
  · rename_i cfg hcfg
    simp only [ValidatorState.lifecycleConfigWithActivationDelay, bind_eq_ok_iff,
      pure_eq_ok_iff] at hcfg
    obtain ⟨_, -, rfl⟩ := hcfg
    obtain ⟨entry, hentry, rfl⟩ := List.mem_map.mp hmem
    obtain ⟨hentry, hprop⟩ := List.mem_filter.mp hentry
    rw [ValidatorMeta.isProposableAt, Bool.and_eq_true, decide_eq_true_eq] at hprop
    refine ⟨entry.2, ExtTreeMap.mem_toList_iff_getElem?_eq_some.mp hentry, hprop.1, ?_⟩
    intro hjoin
    have heligible := hprop.2
    rw [ValidatorMeta.eligibleHeight, if_neg hjoin] at heligible
    exact heligible

end Window

def NonFounder (map : ValidatorState) (wallet : String) : Prop :=
  ∀ m : ValidatorMeta, map[wallet]? = some m → m.joinHeight ≠ 0

theorem asOf_filter (map : ValidatorState) (history : History) {h h' : UInt64} (hle : h' ≤ h) :
    asOf map (history.filter fun e => e.1 ≤ h) h' = asOf map history h' := by
  rw [asOf, asOf, List.filter_filter]
  refine congrArg (run map) (List.filter_congr ?_)
  intro e _
  by_cases he : e.1 ≤ h'
  · simp [he, UInt64.le_trans he hle]
  · simp [he]

/-- A validator that may propose has been active for the whole delay exactly when, within the
delay, no lease had run out by more than one block when it was renewed. -/
theorem proposable_active_throughout_iff (map : ValidatorState) (hfounders : Founders map)
    (history : History) (hordered : Ordered history) (wallet : String) (h d : UInt64)
    (hh : h.toNat + 1 < 2^64) :
    (NonFounder (asOf map history h) wallet → wallet ∈ (asOf map history h).proposableAt h d →
        ∀ h', h.toNat - d.toNat ≤ h'.toNat → h' ≤ h → ActiveAt (asOf map history h') wallet h') ↔
      (NonFounder (asOf map history h) wallet → wallet ∈ (asOf map history h).proposableAt h d →
        RenewsInTime map (history.filter fun e => e.1 ≤ h) wallet (h.toNat - d.toNat)) := by
  have hsorted : Ordered (history.filter fun e => e.1 ≤ h) := hordered.filter _
  have hall : ∀ e ∈ history.filter (fun e => e.1 ≤ h), e.1 ≤ h :=
    fun e he => of_decide_eq_true (List.mem_filter.mp he).2
  constructor
  · intro hactive hnon hprop
    refine RenewsInTime.of_active hsorted hall fun h' hfrom hto => ?_
    rw [asOf_filter map history hto]
    exact hactive hnon hprop h' hfrom hto
  · intro hin hnon hprop h' hfrom hto
    obtain ⟨m, hm, hnow, hdelay⟩ := mem_proposableAt hprop
    have hjoin := hnon m hm
    have helapsed := UInt64.le_iff_toNat_le.mp (hdelay hjoin)
    rw [saturatingAdd_toNat] at helapsed
    have hton := UInt64.le_iff_toNat_le.mp hto
    obtain ⟨-, hexit, hlease⟩ := (isActiveAt_iff m h _).mp hnow
    -- Active now and joined before the window opened, so active in all of it.
    have hthen : m.isActiveAt h' ValidatorLifecycle.config = true := by
      refine (isActiveAt_iff m h' _).mpr ⟨UInt64.le_iff_toNat_le.mpr (by omega), ?_, ?_⟩
      · intro exit hx
        exact UInt64.lt_iff_toNat_lt.mpr
          (Nat.lt_of_le_of_lt hton (UInt64.lt_iff_toNat_lt.mp (hexit exit hx)))
      · exact UInt64.le_trans hto hlease
    rw [← asOf_filter map history hto]
    exact active_before hfounders hsorted (hin hnon hprop) hm hjoin hfrom hthen

end History

/-! ### A lapsed lease -/

namespace Sample

/-- A wallet that joins at height 1 and registers again at `height`. -/
def comeback (height : UInt64) : History :=
  [(1, .registerOrRenew miner 1700000000), (height, .registerOrRenew miner 1700000000)]

theorem founders_empty : History.Founders ∅ := by
  intro w m hm
  rw [ExtTreeMap.getElem?_empty] at hm
  cases hm

theorem comeback_ordered {height : UInt64} (h : 1 ≤ height) : History.Ordered (comeback height) := by
  refine List.pairwise_cons.mpr ⟨?_, List.pairwise_singleton _ _⟩
  intro e he
  rw [List.mem_singleton.mp he]
  exact h

/-- A fact about the entry of a wallet, if it has one. -/
theorem of_all {map : ValidatorState} {wallet : String} {p : ValidatorMeta → Bool}
    (h : (map[wallet]?.all p) = true) (m : ValidatorMeta) (hm : map[wallet]? = some m) :
    p m = true := by
  rw [hm] at h
  exact h

end Sample

/-- The lease of a wallet that joins at height 1 runs out after height 11. Registering again at
height 100 lets it propose at once, under a delay of 4 blocks: at height 99 it was not active. -/
theorem lapsed_validator_proposes :
    History.Ordered (Sample.comeback 100) ∧
      History.NonFounder (History.asOf ∅ (Sample.comeback 100) 100) Sample.miner ∧
      Sample.miner ∈ (History.asOf ∅ (Sample.comeback 100) 100).proposableAt 100 quarantineBlocks ∧
      ¬History.ActiveAt (History.asOf ∅ (Sample.comeback 100) 99) Sample.miner 99 := by
  refine ⟨Sample.comeback_ordered (by decide), ?_, by decide +kernel, ?_⟩
  · have hall : (((History.asOf ∅ (Sample.comeback 100) 100)[Sample.miner]?).all fun m =>
        m.joinHeight ≠ 0) = true := by decide +kernel
    intro m hm
    exact of_decide_eq_true (Sample.of_all hall m hm)
  · have hall : (((History.asOf ∅ (Sample.comeback 100) 99)[Sample.miner]?).all fun m =>
        !m.isActiveAt 99 ValidatorLifecycle.config) = true := by decide +kernel
    rintro ⟨m, hm, hactive⟩
    have hnot := Sample.of_all hall m hm
    rw [hactive] at hnot
    cases hnot

/-- Registering again at height 12, the block after the lease has run out, is in time. -/
theorem proposable_active_throughout_renewed :
    Sample.miner ∈ (History.asOf ∅ (Sample.comeback 12) 12).proposableAt 12 4 ∧
    ∀ h' : UInt64, 8 ≤ h'.toNat → h' ≤ 12 →
      History.ActiveAt (History.asOf ∅ (Sample.comeback 12) h') Sample.miner h' := by
  have hall : (((History.asOf ∅ (Sample.comeback 12) 12)[Sample.miner]?).all fun m =>
      m.joinHeight ≠ 0) = true := by decide +kernel
  have hexpiry : (((History.run ∅ [(1, .registerOrRenew Sample.miner 1700000000)])[Sample.miner]?).all
      fun m => 12 ≤ (m.leaseExpiryHeight ValidatorLifecycle.config).toNat + 1) = true := by
    decide +kernel
  have hproposable : Sample.miner ∈ (History.asOf ∅ (Sample.comeback 12) 12).proposableAt 12 4 := by
    decide +kernel
  refine ⟨hproposable, (History.proposable_active_throughout_iff ∅ Sample.founders_empty
    (Sample.comeback 12) (Sample.comeback_ordered (by decide)) Sample.miner 12 4
    (by decide)).mpr ?_ ?_ hproposable⟩
  · intro _ _ before e after hsplit ha _ m hm _
    change [(1, LifecycleEvent.registerOrRenew Sample.miner 1700000000),
      (12, .registerOrRenew Sample.miner 1700000000)] = before ++ e :: after at hsplit
    match before, hsplit with
    | [], hsplit =>
      cases hsplit
      exact absurd ha (by decide)
    | [x], hsplit =>
      cases hsplit
      exact of_decide_eq_true (Sample.of_all hexpiry m hm)
    | x :: y :: rest, hsplit =>
      have hlen := congrArg List.length hsplit
      simp at hlen
  · intro m hm
    exact of_decide_eq_true (Sample.of_all hall m hm)

end Remzar
