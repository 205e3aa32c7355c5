import Mathlib.Data.List.Nodup
import Mathlib.Tactic.Common
import Std.Data.ExtTreeMap.Lemmas

/-! Requests for indexed items: those that are out, by the number they were sent under, and those
queued to be sent. Every index is out or queued at most once. -/
namespace RequestBook
open Std

structure Book (α β : Type) where
  pending : ExtTreeMap ℕ α
  queue : List β

variable {ι α β : Type} {out : α → ι} {queued : β → ι} {maxPending maxQueue next next' : ℕ}
  {b : Book α β}

/-- An index that is out or queued. -/
def Taken (out : α → ι) (queued : β → ι) (b : Book α β) (i : ι) : Prop :=
  (∃ (r : ℕ) (a : α), b.pending[r]? = some a ∧ out a = i) ∨ ∃ q ∈ b.queue, queued q = i

/-- Numbers below `next` have been given out. -/
structure Sound (out : α → ι) (queued : β → ι) (maxPending maxQueue next : ℕ) (b : Book α β) :
    Prop where
  out_once : ∀ (r r' : ℕ) (a a' : α), b.pending[r]? = some a → b.pending[r']? = some a' →
    out a = out a' → r = r'
  queued_once : (b.queue.map queued).Nodup
  apart : ∀ (r : ℕ) (a : α), b.pending[r]? = some a → ∀ q ∈ b.queue, out a ≠ queued q
  numbered : ∀ (r : ℕ) (a : α), b.pending[r]? = some a → r < next
  pending_le : b.pending.size ≤ maxPending
  queue_le : b.queue.length ≤ maxQueue

def Book.send (b : Book α β) (r : ℕ) (a : α) : Book α β := { b with pending := b.pending.insert r a }

def Book.answer (b : Book α β) (r : ℕ) : Book α β := { b with pending := b.pending.erase r }

def Book.enqueue (b : Book α β) (q : β) : Book α β := { b with queue := b.queue ++ [q] }

theorem values_eq_map {κ : Type} {cmp : κ → κ → Ordering} [TransCmp cmp] (t : ExtTreeMap κ α cmp) :
    t.values = t.toList.map Prod.snd := by
  obtain ⟨inner⟩ := t
  induction inner using ExtDTreeMap.inductionOn with
  | _ m =>
    refine DTreeMap.Internal.Impl.values_eq_map_snd.trans ?_
    change _ = (DTreeMap.Internal.Impl.Const.toList m.inner).map Prod.snd
    rw [DTreeMap.Internal.Impl.Const.toList_eq_toListModel_map, List.map_map]
    rfl

theorem mem_values {t : ExtTreeMap ℕ α} {r : ℕ} {a : α} (h : t[r]? = some a) : a ∈ t.values := by
  rw [values_eq_map]
  exact List.mem_map.mpr ⟨(r, a), ExtTreeMap.mem_toList_iff_getElem?_eq_some.mpr h, rfl⟩

theorem Sound.empty : Sound out queued maxPending maxQueue next (⟨∅, []⟩ : Book α β) where
  out_once r r' a a' h := by simp at h
  queued_once := List.nodup_nil
  apart r a h := by simp at h
  numbered r a h := by simp at h
  pending_le := by simp
  queue_le := Nat.zero_le _

/-- Numbers that have not been given out are free. -/
theorem Sound.unused (h : Sound out queued maxPending maxQueue next b) {r : ℕ} (hr : next ≤ r) :
    b.pending[r]? = none := by
  cases hget : b.pending[r]? with
  | none => rfl
  | some a => exact absurd (h.numbered r a hget) (Nat.not_lt.mpr hr)

theorem Sound.mono (h : Sound out queued maxPending maxQueue next b) (hnext : next ≤ next') :
    Sound out queued maxPending maxQueue next' b :=
  { h with numbered := fun r a ha => Nat.lt_of_lt_of_le (h.numbered r a ha) hnext }

theorem Sound.send (h : Sound out queued maxPending maxQueue next b) {a : α}
    (hfree : ¬Taken out queued b (out a)) (hroom : b.pending.size < maxPending) :
    Sound out queued maxPending maxQueue (next+1) (b.send next a) := by
  have hget : ∀ (r : ℕ) (x : α), (b.pending.insert next a)[r]? = some x →
      (r = next ∧ x = a) ∨ b.pending[r]? = some x := by
    intro r x hx
    rw [ExtTreeMap.getElem?_insert] at hx
    split at hx
    · rename_i hr
      exact Or.inl ⟨(LawfulEqOrd.eq_of_compare hr).symm, (Option.some.inj hx).symm⟩
    · exact Or.inr hx
  refine ⟨?_, h.queued_once, ?_, ?_, ?_, h.queue_le⟩
  · intro r r' x x' hx hx' hsame
    rcases hget r x hx with ⟨rfl, rfl⟩ | hold
    · rcases hget r' x' hx' with ⟨rfl, -⟩ | hold'
      · rfl
      · exact absurd (Or.inl ⟨r', x', hold', hsame.symm⟩) hfree
    · rcases hget r' x' hx' with ⟨rfl, rfl⟩ | hold'
      · exact absurd (Or.inl ⟨r, x, hold, hsame⟩) hfree
      · exact h.out_once r r' x x' hold hold' hsame
  · intro r x hx q hq
    rcases hget r x hx with ⟨-, rfl⟩ | hold
    · exact fun hsame => hfree (Or.inr ⟨q, hq, hsame.symm⟩)
    · exact h.apart r x hold q hq
  · intro r x hx
    rcases hget r x hx with ⟨rfl, -⟩ | hold
    · exact Nat.lt_succ_self _
    · exact Nat.lt_succ_of_lt (h.numbered r x hold)
  · exact Nat.le_trans ExtTreeMap.size_insert_le hroom

theorem Sound.answer (h : Sound out queued maxPending maxQueue next b) (r : ℕ) :
    Sound out queued maxPending maxQueue next (b.answer r) := by
  have hget : ∀ (r' : ℕ) (x : α), (b.pending.erase r)[r']? = some x → b.pending[r']? = some x := by
    intro r' x hx
    rw [ExtTreeMap.getElem?_erase] at hx
    split at hx
    · cases hx
    · exact hx
  exact {
    out_once := fun r₁ r₂ x x' hx hx' => h.out_once r₁ r₂ x x' (hget r₁ x hx) (hget r₂ x' hx')
    queued_once := h.queued_once
    apart := fun r' x hx => h.apart r' x (hget r' x hx)
    numbered := fun r' x hx => h.numbered r' x (hget r' x hx)
    pending_le := Nat.le_trans ExtTreeMap.size_erase_le h.pending_le
    queue_le := h.queue_le }

theorem Sound.enqueue (h : Sound out queued maxPending maxQueue next b) {q : β}
    (hfree : ¬Taken out queued b (queued q)) (hroom : b.queue.length < maxQueue) :
    Sound out queued maxPending maxQueue next (b.enqueue q) := by
  refine ⟨h.out_once, ?_, ?_, h.numbered, h.pending_le, ?_⟩
  · change ((b.queue ++ [q]).map queued).Nodup
    rw [List.map_append, List.map_singleton, List.nodup_append]
    refine ⟨h.queued_once, List.nodup_singleton _, ?_⟩
    intro i hi j hj
    obtain ⟨q', hq', rfl⟩ := List.mem_map.mp hi
    rw [List.mem_singleton.mp hj]
    exact fun hsame => hfree (Or.inr ⟨q', hq', hsame⟩)
  · intro r x hx q' hq'
    rcases List.mem_append.mp hq' with hq' | hq'
    · exact h.apart r x hx q' hq'
    · rw [List.mem_singleton.mp hq']
      exact fun hsame => hfree (Or.inl ⟨r, x, hx, hsame⟩)
  · change (b.queue ++ [q]).length ≤ maxQueue
    rw [List.length_append, List.length_singleton]
    exact hroom

/-- The queue may lose entries anywhere. -/
theorem Sound.thin (h : Sound out queued maxPending maxQueue next b) {queue : List β}
    (hsub : queue.Sublist b.queue) :
    Sound out queued maxPending maxQueue next { b with queue := queue } where
  out_once := h.out_once
  queued_once := h.queued_once.sublist (hsub.map queued)
  apart r a ha q hq := h.apart r a ha q (hsub.subset hq)
  numbered := h.numbered
  pending_le := h.pending_le
  queue_le := Nat.le_trans hsub.length_le h.queue_le

/-! ### Counting -/

theorem countP_le_one {γ : Type} {p : γ → Bool} {l : List γ}
    (h : l.Pairwise fun a b => ¬(p a = true ∧ p b = true)) : l.countP p ≤ 1 := by
  induction h with
  | nil => exact Nat.zero_le 1
  | @cons a l hfirst _ ih =>
    by_cases ha : p a = true
    · have hrest : l.countP p = 0 := by
        rw [List.countP_eq_zero]
        exact fun b hb hpb => hfirst b hb ⟨ha, hpb⟩
      have hone : (a :: l).countP p = 1 := by rw [List.countP_cons_of_pos ha, hrest]
      exact Nat.le_of_eq hone
    · rw [List.countP_cons_of_neg ha]
      exact ih

/-- An index is counted once at most. -/
theorem Sound.count_le [DecidableEq ι] (h : Sound out queued maxPending maxQueue next b) (i : ι) :
    (b.pending.toList.countP fun e => decide (out e.2 = i)) +
      (b.queue.countP fun q => decide (queued q = i)) ≤ 1 := by
  have hpending : (b.pending.toList.countP fun e => decide (out e.2 = i)) ≤ 1 := by
    refine countP_le_one (ExtTreeMap.distinct_keys_toList.imp_of_mem ?_)
    rintro e e' he he' hkeys ⟨hi, hi'⟩
    simp only [decide_eq_true_eq] at hi hi'
    have hsame := h.out_once e.1 e'.1 e.2 e'.2 (ExtTreeMap.mem_toList_iff_getElem?_eq_some.mp he)
      (ExtTreeMap.mem_toList_iff_getElem?_eq_some.mp he') (hi.trans hi'.symm)
    exact hkeys (by rw [hsame]; exact compare_self)
  have hqueue : (b.queue.countP fun q => decide (queued q = i)) ≤ 1 := by
    have hapart : b.queue.Pairwise fun q q' => queued q ≠ queued q' := List.pairwise_map.mp h.queued_once
    refine countP_le_one (hapart.imp ?_)
    rintro q q' hne ⟨hi, hi'⟩
    simp only [decide_eq_true_eq] at hi hi'
    exact hne (hi.trans hi'.symm)
  by_cases hout : ∃ e ∈ b.pending.toList, out e.2 = i
  · obtain ⟨e, he, hi⟩ := hout
    have hnone : (b.queue.countP fun q => decide (queued q = i)) = 0 := by
      rw [List.countP_eq_zero]
      intro q hq hqi
      have hget := ExtTreeMap.mem_toList_iff_getElem?_eq_some.mp he
      exact h.apart e.1 e.2 hget q hq (hi.trans (of_decide_eq_true hqi).symm)
    rw [hnone]
    exact hpending
  · have hnone : (b.pending.toList.countP fun e => decide (out e.2 = i)) = 0 := by
      rw [List.countP_eq_zero]
      exact fun e he hi => hout ⟨e, he, of_decide_eq_true hi⟩
    rw [hnone, Nat.zero_add]
    exact hqueue

end RequestBook
