import Mathlib.Algebra.Order.Ring.Nat
import Mathlib.Data.List.Forall2
import Mathlib.Data.List.Induction
import Mathlib.Tactic.Common

/-! Programs that stop at their first error, as `Except`, and the rules that read a
successful run back into the checks it passed. -/
namespace Fallible
variable {ε ε' α β σ : Type}

/-- An early return with an error. -/
def rejectIf (p : Prop) [Decidable p] (e : ε) : Except ε Unit :=
  if p then .error e else .ok ()

/-- `ok_or`. -/
def okOr (o : Option α) (e : ε) : Except ε α :=
  match o with
  | some a => .ok a
  | none => .error e

/-- `map_err`. -/
def mapErr (f : ε → ε') (x : Except ε α) : Except ε' α :=
  match x with
  | .ok a => .ok a
  | .error e => .error (f e)

theorem bind_eq_ok_iff (x : Except ε α) (f : α → Except ε β) (b : β) :
    (x >>= f) = .ok b ↔ ∃ a, x = .ok a ∧ f a = .ok b := by
  cases x with
  | error e => simp [bind, Except.bind]
  | ok a => simp [bind, Except.bind]

theorem pure_eq_ok_iff (a b : α) : (pure a : Except ε α) = .ok b ↔ a = b := by
  simp [pure, Except.pure]

theorem rejectIf_eq_ok_iff (p : Prop) [Decidable p] (e : ε) (u : Unit) :
    rejectIf p e = .ok u ↔ ¬p := by
  unfold rejectIf
  split <;> simp_all

theorem okOr_eq_ok_iff (o : Option α) (e : ε) (a : α) :
    okOr o e = .ok a ↔ o = some a := by
  cases o <;> simp [okOr]

theorem mapErr_eq_ok_iff (f : ε → ε') (x : Except ε α) (a : α) :
    mapErr f x = .ok a ↔ x = .ok a := by
  cases x <;> simp [mapErr]

@[simp] theorem ok_bind (a : α) (f : α → Except ε β) : (Except.ok a >>= f) = f a := rfl

@[simp] theorem pure_bind_ok (a : α) (f : α → Except ε β) :
    ((pure a : Except ε α) >>= f) = f a := rfl

theorem rejectIf_of_not {p : Prop} [Decidable p] (e : ε) (h : ¬p) :
    rejectIf p e = .ok () := if_neg h

/-- The outcome of a program seen only as success or failure. -/
def succeeds (x : Except ε α) : Bool :=
  match x with
  | .ok _ => true
  | .error _ => false

theorem succeeds_iff (x : Except ε α) : succeeds x ↔ ∃ a, x = .ok a := by
  cases x with
  | ok a => simp [succeeds]
  | error e => simp [succeeds]

/-- Attempt a list, given in reverse, and drop its last element for as long as an attempt
does not fit. An attempt may also fail for good. -/
def attemptDropping (attempt : List α → Except ε (Except ε β)) : List α → Except ε β
  | [] => do
    match ← attempt [] with
    | .ok b => .ok b
    | .error e => .error e
  | a :: rest => do
    match ← attempt (a :: rest).reverse with
    | .ok b => .ok b
    | .error _ => attemptDropping attempt rest

section Dropping
variable {attempt : List α → Except ε (Except ε β)}

theorem attemptDropping_append (as : List α) (a : α) :
    attemptDropping attempt (as ++ [a]).reverse = attempt (as ++ [a]) >>= fun r =>
      (match r with
      | .ok b => .ok b
      | .error _ => attemptDropping attempt as.reverse) := by
  rw [List.reverse_append, List.reverse_singleton, List.singleton_append, attemptDropping,
    List.reverse_cons, List.reverse_reverse]

/-- If no attempt fails for good and the empty list fits, some prefix fits. -/
theorem attemptDropping_ok (as : List α)
    (h : ∀ pre, pre <+: as → ∃ r, attempt pre = .ok r) (hnil : ∃ b, attempt [] = .ok (.ok b)) :
    ∃ pre b, pre <+: as ∧ attempt pre = .ok (.ok b) ∧ attemptDropping attempt as.reverse = .ok b := by
  induction as using List.reverseRecOn with
  | nil =>
    obtain ⟨b, hb⟩ := hnil
    refine ⟨[], b, List.prefix_rfl, hb, ?_⟩
    rw [List.reverse_nil, attemptDropping, hb]
    rfl
  | append_singleton as a ih =>
    obtain ⟨r, hr⟩ := h (as ++ [a]) List.prefix_rfl
    have hstep : attemptDropping attempt (as ++ [a]).reverse = _ := attemptDropping_append as a
    rw [hr, ok_bind] at hstep
    cases r with
    | ok b => exact ⟨as ++ [a], b, List.prefix_rfl, hr, hstep⟩
    | error e =>
      have hsub := as.prefix_append [a]
      obtain ⟨pre, b, hpre, hb, hrun⟩ := ih fun pre hpre => h pre (hpre.trans hsub)
      exact ⟨pre, b, hpre.trans hsub, hb, hstep.trans hrun⟩

/-- What comes out was attempted on some prefix. -/
theorem attemptDropping_inv (as : List α) {b : β}
    (h : attemptDropping attempt as.reverse = .ok b) :
    ∃ pre, pre <+: as ∧ attempt pre = .ok (.ok b) := by
  induction as using List.reverseRecOn with
  | nil =>
    rw [List.reverse_nil, attemptDropping, bind_eq_ok_iff] at h
    obtain ⟨r, hr, h⟩ := h
    cases r with
    | ok b' => exact ⟨[], List.prefix_rfl, Except.ok.inj h ▸ hr⟩
    | error e => cases h
  | append_singleton as a ih =>
    rw [attemptDropping_append, bind_eq_ok_iff] at h
    obtain ⟨r, hr, h⟩ := h
    cases r with
    | ok b' => exact ⟨as ++ [a], List.prefix_rfl, Except.ok.inj h ▸ hr⟩
    | error e =>
      obtain ⟨pre, hpre, hattempt⟩ := ih h
      exact ⟨pre, hpre.trans (as.prefix_append [a]), hattempt⟩

/-- Lists that are too long are cut down before anything else can go wrong. -/
theorem attemptDropping_take (n : ℕ) (as : List α)
    (h : ∀ pre, pre <+: as → n < pre.length → ∃ e, attempt pre = .ok (.error e)) :
    attemptDropping attempt as.reverse = attemptDropping attempt (as.take n).reverse := by
  induction as using List.reverseRecOn with
  | nil => rw [List.take_nil]
  | append_singleton as a ih =>
    by_cases hlen : (as ++ [a]).length ≤ n
    · rw [List.take_of_length_le hlen]
    · obtain ⟨e, he⟩ := h (as ++ [a]) List.prefix_rfl (Nat.lt_of_not_le hlen)
      have hshort : n ≤ as.length := by
        rw [List.length_append, List.length_singleton] at hlen
        omega
      have hsub := as.prefix_append [a]
      rw [List.take_append_of_le_length hshort, ← ih fun pre hpre => h pre (hpre.trans hsub),
        attemptDropping_append, he, ok_bind]

theorem attemptDropping_error {as : List α} {e : ε} (h : attempt as = .error e) :
    attemptDropping attempt as.reverse = .error e := by
  cases as using List.reverseRecOn with
  | nil =>
    rw [List.reverse_nil, attemptDropping, h]
    rfl
  | append_singleton as a =>
    rw [attemptDropping_append, h]
    rfl

end Dropping

/-- A loop that stops at its first error keeps what every iteration keeps. -/
theorem foldlM_preserves (step : σ → α → Except ε σ) (P : σ → Prop)
    (hstep : ∀ s a s', P s → step s a = .ok s' → P s')
    (as : List α) (s s' : σ) (hs : P s) (h : as.foldlM step s = .ok s') : P s' := by
  induction as generalizing s with
  | nil =>
    rw [List.foldlM_nil, pure_eq_ok_iff] at h
    exact h ▸ hs
  | cons a as ih =>
    rw [List.foldlM_cons, bind_eq_ok_iff] at h
    obtain ⟨s₁, h₁, h₂⟩ := h
    exact ih s₁ (hstep s a s₁ hs h₁) h₂

/-- A loop seen through a view of its state, when every iteration can be seen through it. -/
theorem foldlM_map (step : σ → α → Except ε σ) (step' : β → α → Except ε β) (view : σ → β)
    (P : σ → Prop) (hview : ∀ s a, P s → (step s a).map view = step' (view s) a)
    (hstep : ∀ s a s', P s → step s a = .ok s' → P s') (as : List α) (s : σ) (hs : P s) :
    (as.foldlM step s).map view = as.foldlM step' (view s) := by
  induction as generalizing s with
  | nil => rfl
  | cons a as ih =>
    rw [List.foldlM_cons, List.foldlM_cons, ← hview s a hs]
    cases h : step s a with
    | error e => rfl
    | ok s' => exact ih s' (hstep s a s' hs h)

/-- A quantity that every iteration moves by a known amount moves by their sum. -/
theorem foldlM_measure (step : σ → α → Except ε σ) (m : σ → ℕ) (w : α → ℕ)
    (hstep : ∀ s a s', step s a = .ok s' → m s' = m s + w a)
    (as : List α) (s s' : σ) (h : as.foldlM step s = .ok s') :
    m s' = m s + (as.map w).sum := by
  induction as generalizing s with
  | nil =>
    rw [List.foldlM_nil, pure_eq_ok_iff] at h
    rw [h]
    simp
  | cons a as ih =>
    rw [List.foldlM_cons, bind_eq_ok_iff] at h
    obtain ⟨s₁, h₁, h₂⟩ := h
    rw [ih s₁ h₂, hstep s a s₁ h₁, List.map_cons, List.sum_cons]
    omega

theorem mapM_ok_mem {f : α → Except ε β} {as : List α} {bs : List β}
    (h : as.mapM f = .ok bs) {a : α} (ha : a ∈ as) : ∃ b ∈ bs, f a = .ok b := by
  induction as generalizing bs with
  | nil => cases ha
  | cons a' as ih =>
    simp only [List.mapM_cons, bind_eq_ok_iff, pure_eq_ok_iff] at h
    obtain ⟨b, hb, bs', hbs, rfl⟩ := h
    rcases List.mem_cons.mp ha with rfl | ha
    · exact ⟨b, List.mem_cons_self, hb⟩
    · obtain ⟨c, hc, hf⟩ := ih hbs ha
      exact ⟨c, List.mem_cons_of_mem b hc, hf⟩

theorem forall₂_of_mapM {f : α → Except ε β} {as : List α} {bs : List β}
    (h : as.mapM f = .ok bs) : List.Forall₂ (fun a b => f a = .ok b) as bs := by
  induction as generalizing bs with
  | nil =>
    cases h
    exact .nil
  | cons a as ih =>
    simp only [List.mapM_cons, bind_eq_ok_iff, pure_eq_ok_iff] at h
    obtain ⟨b, hb, bs', hbs, rfl⟩ := h
    exact .cons hb (ih hbs)

theorem forM_eq_ok_iff (f : α → Except ε Unit) (as : List α) :
    as.forM f = .ok () ↔ ∀ a ∈ as, f a = .ok () := by
  induction as with
  | nil => simp [pure, Except.pure]
  | cons a as ih =>
    change (f a >>= fun _ => as.forM f) = _ ↔ _
    rw [bind_eq_ok_iff, List.forall_mem_cons, ← ih]
    exact ⟨fun ⟨_, h⟩ => h, fun h => ⟨(), h⟩⟩

/-! ### Scans

A scan walks a list, keeps what it has seen, and stops at the first element whose key has
been seen before or when it has seen too much. -/

section Scan
variable {γ : Type} {step : List β → α → Except ε (List β)} {key : α → γ} {proj : β → γ}

theorem foldlM_scan_ok (limit : ℕ) (as : List α) (seen : List β)
    (hstep : ∀ a ∈ as, ∀ seen : List β, seen.length < limit → key a ∉ seen.map proj →
      ∃ b, step seen a = .ok (b :: seen) ∧ proj b = key a)
    (hlen : seen.length + as.length ≤ limit) (hnodup : (as.map key).Nodup)
    (hfresh : ∀ a ∈ as, key a ∉ seen.map proj) : ∃ out, as.foldlM step seen = .ok out := by
  induction as generalizing seen with
  | nil => exact ⟨seen, rfl⟩
  | cons a as ih =>
    rw [List.length_cons] at hlen
    rw [List.map_cons, List.nodup_cons] at hnodup
    obtain ⟨b, hb, hproj⟩ := hstep a List.mem_cons_self seen (by omega)
      (hfresh a List.mem_cons_self)
    rw [List.foldlM_cons, hb, ok_bind]
    refine ih (b :: seen) (fun c hc => hstep c (List.mem_cons_of_mem a hc)) ?_ hnodup.2 ?_
    · rw [List.length_cons]
      omega
    · intro c hc hmem
      rw [List.map_cons, List.mem_cons, hproj] at hmem
      rcases hmem with heq | hmem
      · exact hnodup.1 (heq ▸ List.mem_map_of_mem hc)
      · exact hfresh c (List.mem_cons_of_mem a hc) hmem

theorem foldlM_scan_nodup
    (hstep : ∀ (a : α) (seen seen' : List β), step seen a = .ok seen' →
      key a ∉ seen.map proj ∧ ∃ b, seen' = b :: seen ∧ proj b = key a)
    (as : List α) (seen out : List β) (h : as.foldlM step seen = .ok out) :
    (as.map key).Nodup ∧ ∀ a ∈ as, key a ∉ seen.map proj := by
  induction as generalizing seen with
  | nil => exact ⟨List.nodup_nil, fun a ha => by cases ha⟩
  | cons a as ih =>
    rw [List.foldlM_cons, bind_eq_ok_iff] at h
    obtain ⟨mid, hmid, hrest⟩ := h
    obtain ⟨hfresh, b, rfl, hproj⟩ := hstep a seen mid hmid
    obtain ⟨hnodup, hnew⟩ := ih _ hrest
    have hne : ∀ c ∈ as, key c ≠ key a ∧ key c ∉ seen.map proj := by
      intro c hc
      have hout := hnew c hc
      rw [List.map_cons, List.mem_cons, hproj, not_or] at hout
      exact hout
    refine ⟨?_, ?_⟩
    · rw [List.map_cons, List.nodup_cons]
      refine ⟨fun hmem => ?_, hnodup⟩
      obtain ⟨c, hc, heq⟩ := List.mem_map.mp hmem
      exact (hne c hc).1 heq
    · intro c hc
      rcases List.mem_cons.mp hc with rfl | hc
      · exact hfresh
      · exact (hne c hc).2

end Scan

end Fallible
