import Mathlib.Logic.Function.Basic
import Mathlib.Tactic.Common
import Remzar.Lib.Fallible

/-! Loops over a store of keyed entries, where every step reads and writes the entry of its
own key only. Such a loop can be studied one key at a time. -/
namespace Keyed
open Fallible
variable {ε α κ ν : Type} [DecidableEq κ]

/-- Replace the entry of the step's key, or fail; a step without a key does nothing. -/
def step (key : α → Option κ) (act : α → ν → Except ε ν) (s : κ → ν) (a : α) :
    Except ε (κ → ν) :=
  match key a with
  | none => .ok s
  | some k => do
    let v ← act a (s k)
    return Function.update s k v

/-- The steps of one key. -/
def ofKey (key : α → Option κ) (k : κ) (as : List α) : List α :=
  as.filter fun a => decide (key a = some k)

section
variable {key : α → Option κ} {act : α → ν → Except ε ν}

theorem ofKey_append (k : κ) (as bs : List α) :
    ofKey key k (as ++ bs) = ofKey key k as ++ ofKey key k bs :=
  List.filter_append _ _

theorem ofKey_cons_of_eq {k : κ} {a : α} (h : key a = some k) (as : List α) :
    ofKey key k (a :: as) = a :: ofKey key k as :=
  List.filter_cons_of_pos (decide_eq_true h)

theorem ofKey_cons_of_ne {k : κ} {a : α} (h : key a ≠ some k) (as : List α) :
    ofKey key k (a :: as) = ofKey key k as :=
  List.filter_cons_of_neg (by simpa using h)

theorem mem_ofKey {k : κ} {a : α} {as : List α} : a ∈ ofKey key k as ↔ a ∈ as ∧ key a = some k := by
  rw [ofKey, List.mem_filter, decide_eq_true_eq]

theorem step_of_key {s s' : κ → ν} {a : α} {k : κ} (hkey : key a = some k) :
    step key act s a = .ok s' ↔ ∃ v, act a (s k) = .ok v ∧ s' = Function.update s k v := by
  simp only [step, hkey, bind_eq_ok_iff, pure_eq_ok_iff]
  exact ⟨fun ⟨v, hv, heq⟩ => ⟨v, hv, heq.symm⟩, fun ⟨v, hv, heq⟩ => ⟨v, hv, heq.symm⟩⟩

theorem step_of_no_key {s s' : κ → ν} {a : α} (hkey : key a = none) :
    step key act s a = .ok s' ↔ s' = s := by
  simp only [step, hkey, Except.ok.injEq]
  exact ⟨fun h => h.symm, fun h => h.symm⟩

/-- A loop runs through exactly when it runs through at every key, and it computes there what
the steps of that key compute. -/
theorem foldlM_step_eq_ok_iff (as : List α) (s s' : κ → ν) :
    as.foldlM (step key act) s = .ok s' ↔
      ∀ k, (ofKey key k as).foldlM (fun v a => act a v) (s k) = .ok (s' k) := by
  induction as generalizing s with
  | nil =>
    simp only [List.foldlM_nil, pure_eq_ok_iff, ofKey, List.filter_nil]
    exact funext_iff
  | cons a as ih =>
    rw [List.foldlM_cons, bind_eq_ok_iff]
    cases hkey : key a with
    | none =>
      have hrest : ∀ k, ofKey key k (a :: as) = ofKey key k as := by
        intro k
        apply ofKey_cons_of_ne
        rw [hkey]
        exact nofun
      simp only [step_of_no_key hkey, exists_eq_left, hrest]
      exact ih s
    | some k =>
      have hrest : ∀ k', k' ≠ k → ofKey key k' (a :: as) = ofKey key k' as := by
        intro k' hne
        apply ofKey_cons_of_ne
        rw [hkey]
        intro heq
        exact hne (Option.some.inj heq).symm
      constructor
      · rintro ⟨s₁, hstep, hloop⟩ k'
        obtain ⟨v, hv, rfl⟩ := (step_of_key hkey).mp hstep
        have hat := (ih _).mp hloop k'
        by_cases hk : k' = k
        · subst hk
          rw [Function.update_self] at hat
          rw [ofKey_cons_of_eq hkey, List.foldlM_cons, hv]
          exact hat
        · rw [Function.update_of_ne hk] at hat
          rw [hrest k' hk]
          exact hat
      · intro hall
        have hat := hall k
        rw [ofKey_cons_of_eq hkey, List.foldlM_cons, bind_eq_ok_iff] at hat
        obtain ⟨v, hv, hloop⟩ := hat
        refine ⟨Function.update s k v, (step_of_key hkey).mpr ⟨v, hv, rfl⟩, ?_⟩
        apply (ih _).mpr
        intro k'
        by_cases hk : k' = k
        · subst hk
          rw [Function.update_self]
          exact hloop
        · rw [Function.update_of_ne hk, ← hrest k' hk]
          exact hall k'

end

end Keyed
