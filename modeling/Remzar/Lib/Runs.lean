import Mathlib.Data.List.Induction

/-! Runs: a state that takes one event after another. What every step keeps under a condition,
a run keeps whose steps all meet the condition. -/
namespace Runs

variable {σ ε : Type}

/-- Every step of a run meets a condition on its event and the state before it. -/
def Steps (step : σ → ε → σ) (P : σ → ε → Prop) : σ → List ε → Prop
  | _, [] => True
  | s, e :: events => P s e ∧ Steps step P (step s e) events

variable {step : σ → ε → σ} {P Q : σ → ε → Prop} {s : σ} {events : List ε}

theorem Steps.mono (hPQ : ∀ s e, P s e → Q s e) (h : Steps step P s events) :
    Steps step Q s events := by
  induction events generalizing s with
  | nil => exact trivial
  | cons e events ih => exact ⟨hPQ s e h.1, ih h.2⟩

theorem Steps.and (hP : Steps step P s events) (hQ : Steps step Q s events) :
    Steps step (fun s e => P s e ∧ Q s e) s events := by
  induction events generalizing s with
  | nil => exact trivial
  | cons e events ih => exact ⟨⟨hP.1, hQ.1⟩, ih hP.2 hQ.2⟩

/-- The run rule: an invariant of the steps holds in every state of the run. -/
theorem Steps.invariant {Inv : σ → Prop} (hstep : ∀ s e, Inv s → P s e → Inv (step s e))
    (h : Steps step P s events) (hs : Inv s) {pre : List ε} (hpre : pre <+: events) :
    Inv (pre.foldl step s) := by
  induction events generalizing s pre with
  | nil =>
    rw [List.prefix_nil.mp hpre]
    exact hs
  | cons e events ih =>
    rcases List.prefix_cons_iff.mp hpre with rfl | ⟨rest, rfl, hrest⟩
    · exact hs
    · exact ih h.2 (hstep s e hs h.1) hrest

/-- What each step has from the invariant and its condition, all steps of a run have. -/
theorem Steps.derive {Inv : σ → Prop} (hstep : ∀ s e, Inv s → P s e → Inv (step s e) ∧ Q s e)
    (h : Steps step P s events) (hs : Inv s) : Steps step Q s events := by
  induction events generalizing s with
  | nil => exact trivial
  | cons e events ih =>
    obtain ⟨hnext, hq⟩ := hstep s e hs h.1
    exact ⟨hq, ih h.2 hnext⟩

/-- Where a condition says of every step whether it keeps the invariant, a run keeps it throughout
exactly if all its steps meet the condition. -/
theorem Steps.iff_invariant {Inv : σ → Prop} (hstep : ∀ s e, Inv s → P s e → (Inv (step s e) ↔ Q s e))
    (h : Steps step P s events) (hs : Inv s) :
    Steps step Q s events ↔ ∀ pre, pre <+: events → Inv (pre.foldl step s) := by
  induction events generalizing s with
  | nil =>
    refine ⟨fun _ pre hpre => ?_, fun _ => trivial⟩
    rw [List.prefix_nil.mp hpre]
    exact hs
  | cons e events ih =>
    constructor
    · intro hQ pre hpre
      have hboth := h.and hQ
      exact hboth.invariant (fun s e hs he => (hstep s e hs he.1).mpr he.2) hs hpre
    · intro hall
      have hnext : Inv (step s e) := hall [e] (List.prefix_append [e] events)
      refine ⟨(hstep s e hs h.1).mp hnext, (ih h.2 hnext).mpr fun pre hpre => ?_⟩
      exact hall (e :: pre) (List.cons_prefix_cons.mpr ⟨rfl, hpre⟩)

/-- Two conditions that agree wherever an invariant holds agree on a run, if the first keeps the
invariant. -/
theorem Steps.congr {Inv : σ → Prop} (hiff : ∀ s e, Inv s → (P s e ↔ Q s e))
    (hstep : ∀ s e, Inv s → P s e → Inv (step s e)) (hs : Inv s) :
    Steps step P s events ↔ Steps step Q s events := by
  induction events generalizing s with
  | nil => exact Iff.rfl
  | cons e events ih =>
    rw [Steps, Steps, ← hiff s e hs]
    exact and_congr_right fun he => ih (hstep s e hs he)

/-- The run rule where a step may have no result, for an invariant that speaks of the events so
far. -/
theorem foldlM_indexed {f : σ → ε → Option σ} (Inv : List ε → σ → Prop) (events : List ε) (h : Inv [] s)
    (hstep : ∀ pre e post t, events = pre ++ e :: post → pre.foldlM f s = some t → Inv pre t →
      ∃ t', f t e = some t' ∧ Inv (pre ++ [e]) t') :
    ∃ t, events.foldlM f s = some t ∧ Inv events t := by
  have hprefix : ∀ pre post, events = pre ++ post → ∃ t, pre.foldlM f s = some t ∧ Inv pre t := by
    intro pre
    induction pre using List.reverseRecOn with
    | nil => exact fun _ _ => ⟨s, rfl, h⟩
    | append_singleton pre e ih =>
      intro post heq
      rw [List.append_assoc, List.singleton_append] at heq
      obtain ⟨t, hrun, hinv⟩ := ih (e :: post) heq
      obtain ⟨t', hnext, hinv'⟩ := hstep pre e post t heq hrun hinv
      refine ⟨t', ?_, hinv'⟩
      rw [List.foldlM_append, hrun]
      change (f t e >>= fun t => some t) = some t'
      rw [hnext]
      rfl
  exact hprefix events [] (List.append_nil events).symm

/-- Where no step from a state with the invariant is without result, no run is. -/
theorem foldlM_keeps {f : σ → ε → Option σ} (Inv : σ → Prop) (events : List ε)
    (hstep : ∀ e ∈ events, ∀ s, Inv s → ∃ s', f s e = some s' ∧ Inv s') (hs : Inv s) :
    ∃ s', events.foldlM f s = some s' ∧ Inv s' := by
  refine foldlM_indexed (fun _ => Inv) events hs ?_
  intro pre e post t heq _ hinv
  exact hstep e (heq ▸ List.mem_append_right pre List.mem_cons_self) t hinv

/-! ### Costs of a run -/

/-- What the steps of a run come to, each counted in the state before it. -/
def cost (step : σ → ε → σ) (f : σ → ε → ℕ) : σ → List ε → ℕ
  | _, [] => 0
  | s, e :: events => f s e+cost step f (step s e) events

theorem cost_eq_zero {f : σ → ε → ℕ} (h : ∀ e ∈ events, ∀ s, f s e = 0) (s : σ) :
    cost step f s events = 0 := by
  induction events generalizing s with
  | nil => rfl
  | cons e events ih =>
    rw [cost, h e List.mem_cons_self, ih fun e he => h e (List.mem_cons_of_mem _ he)]

theorem cost_append (f : σ → ε → ℕ) (s : σ) (events more : List ε) :
    cost step f s (events ++ more) =
      cost step f s events+cost step f (events.foldl step s) more := by
  induction events generalizing s with
  | nil => exact (Nat.zero_add _).symm
  | cons e events ih => rw [List.cons_append, cost, ih, cost, List.foldl_cons, Nat.add_assoc]

end Runs
