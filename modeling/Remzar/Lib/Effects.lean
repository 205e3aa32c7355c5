import Mathlib.Tactic.Common

/-! Programs over a store whose writes survive an error, as `EStateM`, with the rules
for what a run keeps whether it succeeds or fails. -/
namespace Effects
variable {ε ε' σ τ α β : Type}

/-- The store after a run, on success and on failure. -/
def storeOf : EStateM.Result ε σ α → σ
  | .ok _ s => s
  | .error _ s => s

def succeeded : EStateM.Result ε σ α → Bool
  | .ok _ _ => true
  | .error _ _ => false

theorem succeeded_iff (r : EStateM.Result ε σ α) :
    succeeded r ↔ ∃ a s, r = .ok a s := by
  cases r with
  | ok a s => simp [succeeded]
  | error e s => simp [succeeded]

/-- A computation that does not touch the store. -/
def lift (x : Except ε α) : EStateM ε σ α := fun s =>
  match x with
  | .ok a => .ok a s
  | .error e => .error e s

/-- Replace the store, or fail and leave it as it was. -/
def update (f : σ → Except ε σ) : EStateM ε σ Unit := fun s =>
  match f s with
  | .ok s' => .ok () s'
  | .error e => .error e s

def mapError (f : ε → ε') (x : EStateM ε σ α) : EStateM ε' σ α := fun s =>
  match x s with
  | .ok a s' => .ok a s'
  | .error e s' => .error (f e) s'

/-- Run a program on one part of the store. -/
def zoom (get : σ → τ) (set : σ → τ → σ) (x : EStateM ε τ α) : EStateM ε σ α := fun s =>
  match x (get s) with
  | .ok a t => .ok a (set s t)
  | .error e t => .error e (set s t)

theorem bind_run (x : EStateM ε σ α) (f : α → EStateM ε σ β) (s : σ) :
    (x >>= f) s =
      match x s with
      | .ok a s' => f a s'
      | .error e s' => .error e s' := rfl

theorem run_bind_eq_ok_iff (x : EStateM ε σ α) (f : α → EStateM ε σ β) (s s'' : σ) (b : β) :
    (x >>= f) s = .ok b s'' ↔ ∃ a s', x s = .ok a s' ∧ f a s' = .ok b s'' := by
  rw [bind_run]
  cases x s with
  | ok a s' => simp
  | error e s' => simp

theorem lift_eq_ok_iff (x : Except ε α) (s s' : σ) (a : α) :
    lift x s = .ok a s' ↔ x = .ok a ∧ s = s' := by
  cases x <;> simp [lift]

theorem update_eq_ok_iff (f : σ → Except ε σ) (s s' : σ) (u : Unit) :
    update f s = .ok u s' ↔ f s = .ok s' := by
  unfold update
  split <;> simp_all

theorem mapError_eq_ok_iff (f : ε → ε') (x : EStateM ε σ α) (s s' : σ) (a : α) :
    mapError f x s = .ok a s' ↔ x s = .ok a s' := by
  unfold mapError
  cases x s <;> simp

theorem storeOf_mapError (f : ε → ε') (x : EStateM ε σ α) (s : σ) :
    storeOf (mapError f x s) = storeOf (x s) := by
  unfold mapError
  cases x s <;> rfl

theorem storeOf_lift (x : Except ε α) (s : σ) : storeOf (lift x s) = s := by
  unfold lift
  cases x <;> rfl

/-- A program keeps a property of the store, however it ends. -/
def Preserves (P : σ → Prop) (x : EStateM ε σ α) : Prop := ∀ s, P s → P (storeOf (x s))

section Rules
variable {P : σ → Prop}

theorem preserves_pure (a : α) : Preserves P (pure a : EStateM ε σ α) := fun _ hs => hs

theorem preserves_lift (x : Except ε α) : Preserves P (lift x) := by
  intro s hs
  rw [storeOf_lift]
  exact hs

theorem preserves_bind {x : EStateM ε σ α} {f : α → EStateM ε σ β}
    (hx : Preserves P x) (hf : ∀ a, Preserves P (f a)) : Preserves P (x >>= f) := by
  intro s hs
  have hs' := hx s hs
  rw [bind_run]
  cases h : x s with
  | ok a s' =>
    rw [h] at hs'
    exact hf a s' hs'
  | error e s' =>
    rw [h] at hs'
    exact hs'

theorem preserves_mapError {f : ε → ε'} {x : EStateM ε σ α} (hx : Preserves P x) :
    Preserves P (mapError f x) := by
  intro s hs
  rw [storeOf_mapError]
  exact hx s hs

theorem preserves_update {f : σ → Except ε σ} (hf : ∀ s s', P s → f s = .ok s' → P s') :
    Preserves P (update f) := by
  intro s hs
  unfold update
  cases h : f s with
  | ok s' => exact hf s s' hs h
  | error e => exact hs

theorem preserves_forM {f : α → EStateM ε σ Unit} (as : List α)
    (hf : ∀ a ∈ as, Preserves P (f a)) : Preserves P (as.forM f) := by
  induction as with
  | nil => exact preserves_pure ()
  | cons a as ih =>
    refine preserves_bind (hf a List.mem_cons_self) (fun _ => ?_)
    exact ih (fun b hb => hf b (List.mem_cons_of_mem a hb))

theorem preserves_foldlM {f : β → α → EStateM ε σ β} (hf : ∀ b a, Preserves P (f b a))
    (as : List α) (b : β) : Preserves P (as.foldlM f b) := by
  induction as generalizing b with
  | nil => exact preserves_pure b
  | cons a as ih => exact preserves_bind (hf b a) fun b' => ih b'

/-- A loop whose every step succeeds from a good store and leads to a good store. -/
theorem forM_succeeds {f : α → EStateM ε σ Unit} (as : List α)
    (hf : ∀ a ∈ as, ∀ s, P s → ∃ s', f a s = .ok () s' ∧ P s') (s : σ) (hs : P s) :
    ∃ s', as.forM f s = .ok () s' ∧ P s' := by
  induction as generalizing s with
  | nil => exact ⟨s, rfl, hs⟩
  | cons a as ih =>
    obtain ⟨s₁, h₁, hs₁⟩ := hf a List.mem_cons_self s hs
    obtain ⟨s₂, h₂, hs₂⟩ := ih (fun b hb => hf b (List.mem_cons_of_mem a hb)) s₁ hs₁
    refine ⟨s₂, ?_, hs₂⟩
    change (f a >>= fun _ => as.forM f) s = .ok () s₂
    rw [bind_run, h₁]
    exact h₂

end Rules

/-! ### Loops of updates -/

/-- Steps that do nothing may be left out. -/
theorem forM_filter (f g : α → EStateM ε σ Unit) (p : α → Bool)
    (hkeep : ∀ a, p a = true → f a = g a) (hskip : ∀ a, p a = false → f a = pure ())
    (as : List α) : as.forM f = (as.filter p).forM g := by
  induction as with
  | nil => rfl
  | cons a as ih =>
    change (f a >>= fun _ => as.forM f) = _
    cases hp : p a with
    | true =>
      rw [List.filter_cons_of_pos hp, ih, hkeep a hp]
      rfl
    | false =>
      rw [List.filter_cons_of_neg (by rw [hp]; exact Bool.false_ne_true), hskip a hp, ih, pure_bind]

theorem forM_update_cons (f : α → σ → Except ε σ) (a : α) (as : List α) (s : σ) :
    (a :: as).forM (fun a => update (f a)) s =
      match f a s with
      | .ok s' => as.forM (fun a => update (f a)) s'
      | .error e => .error e s := by
  change (update (f a) >>= fun _ => as.forM fun a => update (f a)) s = _
  rw [bind_run, update]
  cases f a s <;> rfl

theorem forM_update_eq_ok_iff (f : α → σ → Except ε σ) (as : List α) (s s' : σ) :
    as.forM (fun a => update (f a)) s = .ok () s' ↔ as.foldlM (fun s a => f a s) s = .ok s' := by
  induction as generalizing s with
  | nil =>
    change EStateM.Result.ok () s = .ok () s' ↔ Except.ok s = .ok s'
    simp only [EStateM.Result.ok.injEq, true_and, Except.ok.injEq]
  | cons a as ih =>
    rw [forM_update_cons, List.foldlM_cons]
    cases h : f a s with
    | error e =>
      constructor
      · exact nofun
      · exact nofun
    | ok s₁ => exact ih s₁

/-- A loop of updates that fails has run through some of them, and failed at the next one. -/
theorem forM_update_eq_error_iff (f : α → σ → Except ε σ) (as : List α) (s s' : σ) (e : ε) :
    as.forM (fun a => update (f a)) s = .error e s' ↔
      ∃ pre a post, as = pre ++ a :: post ∧ pre.foldlM (fun s a => f a s) s = .ok s' ∧
        f a s' = .error e := by
  induction as generalizing s with
  | nil =>
    constructor
    · exact nofun
    · rintro ⟨pre, a, post, happ, -⟩
      cases pre <;> cases happ
  | cons a as ih =>
    rw [forM_update_cons]
    constructor
    · intro h
      cases hstep : f a s with
      | error e' =>
        rw [hstep] at h
        cases h
        exact ⟨[], a, as, rfl, rfl, hstep⟩
      | ok s₁ =>
        rw [hstep] at h
        obtain ⟨pre, b, post, rfl, hpre, hfail⟩ := (ih s₁).mp h
        refine ⟨a :: pre, b, post, rfl, ?_, hfail⟩
        rw [List.foldlM_cons, hstep]
        exact hpre
    · rintro ⟨pre, b, post, happ, hpre, hfail⟩
      cases pre with
      | nil =>
        cases happ
        cases hpre
        rw [hfail]
      | cons c pre =>
        obtain ⟨rfl, rfl⟩ := List.cons.inj happ
        rw [List.foldlM_cons] at hpre
        cases hstep : f a s with
        | error e' =>
          rw [hstep] at hpre
          cases hpre
        | ok s₁ =>
          rw [hstep] at hpre
          exact (ih s₁).mpr ⟨pre, b, post, rfl, hpre, hfail⟩

/-- A loop over a larger accumulator computes the loop over a part of it. -/
theorem foldlM_erase (f : τ → σ) (step : σ → α → EStateM ε β σ) (logged : τ → α → EStateM ε β τ)
    (h : ∀ t a, step (f t) a = f <$> logged t a) (as : List α) (t : τ) :
    as.foldlM step (f t) = f <$> as.foldlM logged t := by
  induction as generalizing t with
  | nil => simp
  | cons a as ih =>
    rw [List.foldlM_cons, List.foldlM_cons, h, bind_map_left, map_bind]
    exact bind_congr ih

/-! ### Programs that check first -/

/-- All checks come before the one write, so an error leaves the store as it was. -/
def guarded (check : σ → Except ε α) (write : α → σ → σ) : EStateM ε σ α := fun s =>
  match check s with
  | .ok a => .ok a (write a s)
  | .error e => .error e s

theorem lift_bind (x : Except ε α) (f : α → Except ε β) :
    (lift (x >>= f) : EStateM ε σ β) = lift x >>= fun a => lift (f a) := by
  funext s
  cases x <;> rfl

/-- Programs that begin without touching the store may be read from the end of that beginning. -/
theorem lift_bind_of {γ : Type} {x : Except ε α} {f : α → EStateM ε σ γ} {g : α → Except ε β}
    {k : β → EStateM ε σ γ} {s : σ} (h : ∀ a, f a s = (lift (g a) >>= k) s) :
    (lift x >>= f) s = (lift (x >>= g) >>= k) s := by
  cases x with
  | ok a => exact h a
  | error e => rfl

theorem guarded_eq (check : σ → Except ε α) (write : α → σ → σ) :
    guarded check write = (do
      let s ← get
      let a ← lift (check s)
      set (write a s)
      return a) := by
  funext s
  change guarded check write s = (lift (check s) >>= _) s
  rw [bind_run]
  unfold guarded lift
  cases check s <;> rfl

theorem guarded_of_ok {check : σ → Except ε α} {s : σ} {a : α} (h : check s = .ok a)
    (write : α → σ → σ) : guarded check write s = .ok a (write a s) := by
  unfold guarded
  rw [h]

theorem guarded_of_error {check : σ → Except ε α} {s : σ} {e : ε} (h : check s = .error e)
    (write : α → σ → σ) : guarded check write s = .error e s := by
  unfold guarded
  rw [h]

/-! ### Whole runs -/

/-- The stores a list of inputs passes through, the first one included. -/
def trace (step : σ → α → σ) : σ → List α → List σ
  | s, [] => [s]
  | s, a :: as => s :: trace step (step s a) as

/-- What every step keeps holds in every store of a run. -/
theorem trace_invariant (step : σ → α → σ) (P : σ → Prop) (s : σ) (as : List α)
    (hs : P s) (hstep : ∀ s a, P s → P (step s a)) : ∀ t ∈ trace step s as, P t := by
  induction as generalizing s with
  | nil =>
    intro t ht
    rw [trace, List.mem_singleton] at ht
    exact ht ▸ hs
  | cons a as ih =>
    intro t ht
    rcases List.mem_cons.mp ht with rfl | ht
    · exact hs
    · exact ih (step s a) (hstep s a hs) t ht

end Effects
