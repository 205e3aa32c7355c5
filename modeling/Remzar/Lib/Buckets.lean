import Mathlib
import Remzar.Lib.Ledger

/-! Buffers that file items under keys: a map from keys to lists of items. How many items the
operations leave, and the rules by which a bounded buffer stays one. -/
namespace Buckets
open Std
variable {κ α β : Type} {cmp : κ → κ → Ordering} [TransCmp cmp]

/-- The number of items. -/
def total (m : ExtTreeMap κ (List α) cmp) : ℕ := (m.toList.map fun e => e.2.length).sum

/-- The items under a key. -/
def bucket (m : ExtTreeMap κ (List α) cmp) (k : κ) : List α := m[k]?.getD []

def push (k : κ) (a : α) (m : ExtTreeMap κ (List α) cmp) : ExtTreeMap κ (List α) cmp :=
  m.insert k (bucket m k ++ [a])

/-- A bucket without its last item, and no bucket where none is left. -/
def popAt (k : κ) (m : ExtTreeMap κ (List α) cmp) : ExtTreeMap κ (List α) cmp :=
  if (bucket m k).dropLast = [] then m.erase k else m.insert k (bucket m k).dropLast

/-- The items to keep, in the buckets where any are left. -/
def retain (keep : α → Bool) (m : ExtTreeMap κ (List α) cmp) : ExtTreeMap κ (List α) cmp :=
  m.filterMap fun _ items => if items.filter keep = [] then none else some (items.filter keep)

/-- An order in which a hash map may show its entries. -/
structure IterationOrder (β : Type) where
  arrange : List β → List β
  perm : ∀ entries, (arrange entries).Perm entries

/-- The last of the greatest elements. -/
def maxByKey (f : β → ℕ) (entries : List β) : Option β :=
  entries.foldl (fun best e =>
    match best with
    | none => some e
    | some b => if f b ≤ f e then some e else some b) none

/-- Drop the last item of the fullest bucket, and say whether there was one. -/
def dropFullest (order : IterationOrder (κ × List α)) (m : ExtTreeMap κ (List α) cmp) :
    Bool × ExtTreeMap κ (List α) cmp :=
  match maxByKey (fun e => e.2.length) (order.arrange m.toList) with
  | none => (false, m)
  | some (k, _) => ((bucket m k).getLast?.isSome, popAt k m)

/-- Drop one item after another while there are too many. The fuel counts the rounds of the loop;
there is no result before it has ended. -/
def evictLoop (order : IterationOrder (κ × List α)) (full : ℕ → Prop) [DecidablePred full] :
    ℕ → ExtTreeMap κ (List α) cmp → Option (ExtTreeMap κ (List α) cmp)
  | fuel, m =>
    if full (total m) then
      match fuel with
      | 0 => none
      | fuel+1 =>
        match dropFullest order m with
        | (true, m) => evictLoop order full fuel m
        | (false, m) => some m
    else some m

/-! ### The greatest element -/

theorem foldl_maxByKey_some (f : β → ℕ) (entries : List β) (b : β) :
    ∃ a ∈ b :: entries, entries.foldl (fun best e =>
      match best with
      | none => some e
      | some b => if f b ≤ f e then some e else some b) (some b) = some a ∧
      ∀ x ∈ b :: entries, f x ≤ f a := by
  induction entries generalizing b with
  | nil =>
    refine ⟨b, List.mem_singleton_self b, rfl, fun x hx => ?_⟩
    rw [List.mem_singleton.mp hx]
  | cons e entries ih =>
    rw [List.foldl_cons]
    dsimp only
    by_cases hle : f b ≤ f e
    · rw [if_pos hle]
      obtain ⟨a, hmem, hfold, hmax⟩ := ih e
      refine ⟨a, List.mem_cons_of_mem b hmem, hfold, fun x hx => ?_⟩
      rcases List.mem_cons.mp hx with hxb | hx
      · calc
          f x = f b := congrArg f hxb
          _ ≤ f e := hle
          _ ≤ f a := hmax e List.mem_cons_self
      · exact hmax x hx
    · rw [if_neg hle]
      obtain ⟨a, hmem, hfold, hmax⟩ := ih b
      refine ⟨a, ?_, hfold, fun x hx => ?_⟩
      · rcases List.mem_cons.mp hmem with hab | hmem
        · exact hab ▸ List.mem_cons_self
        · exact List.mem_cons_of_mem b (List.mem_cons_of_mem e hmem)
      · rcases List.mem_cons.mp hx with hxb | hx
        · exact hmax x (hxb ▸ List.mem_cons_self)
        · rcases List.mem_cons.mp hx with hxe | hx
          · calc
              f x = f e := congrArg f hxe
              _ ≤ f b := Nat.le_of_not_le hle
              _ ≤ f a := hmax b List.mem_cons_self
          · exact hmax x (List.mem_cons_of_mem b hx)

theorem maxByKey_of_ne_nil (f : β → ℕ) {entries : List β} (h : entries ≠ []) :
    ∃ a ∈ entries, maxByKey f entries = some a ∧ ∀ x ∈ entries, f x ≤ f a := by
  cases entries with
  | nil => exact absurd rfl h
  | cons b entries => exact foldl_maxByKey_some f entries b

/-! ### How many items there are -/

theorem bucket_of_getElem? {m : ExtTreeMap κ (List α) cmp} {k : κ} {items : List α}
    (h : m[k]? = some items) : bucket m k = items := by
  rw [bucket, h]
  rfl

section Total
variable [LawfulEqCmp cmp] (m : ExtTreeMap κ (List α) cmp) (k : κ)

theorem total_eq_add_erase : total m = (bucket m k).length + total (m.erase k) := by
  cases h : m[k]? with
  | some items =>
    have hperm := (Ledger.toList_perm_of_getElem? m k items h).map fun e => e.2.length
    rw [total, hperm.sum_eq, List.map_cons, List.sum_cons, bucket_of_getElem? h]
    rfl
  | none =>
    have hsame : m.erase k = m := by
      apply ExtTreeMap.ext_getElem?
      intro a
      rw [ExtTreeMap.getElem?_erase]
      split
      · rename_i hka
        rw [← LawfulEqCmp.eq_of_compare hka, h]
      · rfl
    rw [hsame, bucket, h]
    exact (Nat.zero_add _).symm

theorem total_insert (items : List α) :
    total (m.insert k items) + (bucket m k).length = total m + items.length := by
  have hnew := total_eq_add_erase (m.insert k items) k
  have hold := total_eq_add_erase m k
  rw [Ledger.erase_insert_self, bucket_of_getElem? ExtTreeMap.getElem?_insert_self] at hnew
  omega

theorem total_push (a : α) : total (push k a m) = total m + 1 := by
  have h := total_insert m k (bucket m k ++ [a])
  rw [List.length_append, List.length_singleton] at h
  unfold push
  omega

theorem total_erase_le : total (m.erase k) ≤ total m := by
  have h := total_eq_add_erase m k
  omega

theorem length_bucket_le : (bucket m k).length ≤ total m := by
  have h := total_eq_add_erase m k
  omega

/-- Taking an item out of a bucket that has one leaves one item less. -/
theorem total_popAt (h : bucket m k ≠ []) : total (popAt k m) + 1 = total m := by
  have hpos := List.length_pos_of_ne_nil h
  unfold popAt
  split
  · rename_i hlast
    have herase := total_eq_add_erase m k
    have hlen : (bucket m k).length - 1 = 0 := by
      rw [← List.length_dropLast, hlast, List.length_nil]
    omega
  · have hinsert := total_insert m k (bucket m k).dropLast
    rw [List.length_dropLast] at hinsert
    omega

omit [LawfulEqCmp cmp] in
theorem total_retain_le (keep : α → Bool) : total (retain keep m) ≤ total m := by
  unfold total retain
  rw [ExtTreeMap.toList_filterMap]
  induction m.toList with
  | nil => exact Nat.le_refl _
  | cons e entries ih =>
    have hle := List.length_filter_le keep e.2
    rw [List.map_cons, List.sum_cons, List.filterMap_cons]
    by_cases hnone : e.2.filter keep = []
    · rw [if_pos hnone]
      exact ih.trans (Nat.le_add_left _ _)
    · rw [if_neg hnone]
      exact Nat.add_le_add hle ih

end Total

/-! ### Buckets after an operation -/

section Reads
variable [LawfulEqCmp cmp] [DecidableEq κ] (m : ExtTreeMap κ (List α) cmp) (k k' : κ)

theorem getElem?_push (a : α) :
    (push k a m)[k']? = if k = k' then some (bucket m k ++ [a]) else m[k']? := by
  rw [push, ExtTreeMap.getElem?_insert]
  simp only [LawfulEqCmp.compare_eq_iff_eq]

theorem getElem?_popAt : (popAt k m)[k']? =
    if k = k' then (if (bucket m k).dropLast = [] then none else some (bucket m k).dropLast)
    else m[k']? := by
  unfold popAt
  split
  · rw [ExtTreeMap.getElem?_erase]
    simp only [LawfulEqCmp.compare_eq_iff_eq]
  · rw [ExtTreeMap.getElem?_insert]
    simp only [LawfulEqCmp.compare_eq_iff_eq]

omit [DecidableEq κ] in
theorem getElem?_retain (keep : α → Bool) : (retain keep m)[k]? =
    m[k]?.bind fun items => if items.filter keep = [] then none else some (items.filter keep) := by
  rw [retain, ExtTreeMap.getElem?_filterMap']

end Reads

/-! ### Bounded buffers -/

/-- A buffer within its bounds: no bucket is empty or overfull, the items of a bucket are apart from
each other, and each is where it belongs. -/
structure Bounded (cap perKey : ℕ) (apart : α → α → Prop) (filed : κ → α → Prop)
    (m : ExtTreeMap κ (List α) cmp) : Prop where
  total_le : total m ≤ cap
  nonempty : ∀ {k : κ} {items : List α}, m[k]? = some items → items ≠ []
  length_le : ∀ {k : κ} {items : List α}, m[k]? = some items → items.length ≤ perKey
  apart : ∀ {k : κ} {items : List α}, m[k]? = some items → items.Pairwise apart
  filed : ∀ {k : κ} {items : List α}, m[k]? = some items → ∀ a ∈ items, filed k a

section Rules
variable {cap perKey : ℕ} {apart : α → α → Prop} {filed : κ → α → Prop}
  {m : ExtTreeMap κ (List α) cmp}

theorem Bounded.empty : Bounded cap perKey apart filed (∅ : ExtTreeMap κ (List α) cmp) := by
  have hnone (k : κ) (items : List α) : (∅ : ExtTreeMap κ (List α) cmp)[k]? ≠ some items := by
    rw [ExtTreeMap.getElem?_empty]
    exact (Option.some_ne_none items).symm
  refine ⟨?_, fun h => absurd h (hnone _ _), fun h => absurd h (hnone _ _),
    fun h => absurd h (hnone _ _), fun h => absurd h (hnone _ _)⟩
  have hnil : (∅ : ExtTreeMap κ (List α) cmp).toList = [] := ExtTreeMap.toList_eq_nil_iff.mpr rfl
  rw [total, hnil]
  exact Nat.zero_le _

theorem Bounded.bucket_apart (h : Bounded cap perKey apart filed m) (k : κ) :
    (bucket m k).Pairwise apart ∧ ∀ a ∈ bucket m k, filed k a := by
  cases hk : m[k]? with
  | none =>
    rw [bucket, hk]
    exact ⟨.nil, fun a ha => absurd ha List.not_mem_nil⟩
  | some items =>
    rw [bucket_of_getElem? hk]
    exact ⟨h.apart hk, h.filed hk⟩

/-- Buckets that are parts of the old ones, and not more items than the buffer holds. -/
theorem Bounded.shrink (h : Bounded cap perKey apart filed m) {m' : ExtTreeMap κ (List α) cmp}
    (htotal : total m' ≤ cap) (hpart : ∀ {k : κ} {items' : List α}, m'[k]? = some items' →
      items' ≠ [] ∧ ∃ items, m[k]? = some items ∧ items'.Sublist items) :
    Bounded cap perKey apart filed m' where
  total_le := htotal
  nonempty hk := (hpart hk).1
  length_le hk := by
    obtain ⟨items, hold, hsub⟩ := (hpart hk).2
    exact hsub.length_le.trans (h.length_le hold)
  apart hk := by
    obtain ⟨items, hold, hsub⟩ := (hpart hk).2
    exact (h.apart hold).sublist hsub
  filed hk a ha := by
    obtain ⟨items, hold, hsub⟩ := (hpart hk).2
    exact h.filed hold a (hsub.subset ha)

section
variable [LawfulEqCmp cmp] [DecidableEq κ]

theorem Bounded.push (h : Bounded cap perKey apart filed m) {k : κ} {a : α} (hroom : total m < cap)
    (hlen : (bucket m k).length < perKey) (hapart : ∀ b ∈ bucket m k, apart b a)
    (hfiled : filed k a) : Bounded cap perKey apart filed (push k a m) := by
  obtain ⟨hbucket, hitems⟩ := h.bucket_apart k
  refine ⟨(total_push m k a).trans_le hroom, ?_, ?_, ?_, ?_⟩
  all_goals
    intro k' items hk'
    rw [getElem?_push] at hk'
    split at hk'
  · cases hk'
    exact List.append_ne_nil_of_right_ne_nil _ (List.cons_ne_nil a [])
  · exact h.nonempty hk'
  · cases hk'
    rw [List.length_append, List.length_singleton]
    exact hlen
  · exact h.length_le hk'
  · cases hk'
    refine List.pairwise_append.mpr ⟨hbucket, List.pairwise_singleton _ _, fun b hb x hx => ?_⟩
    rw [List.mem_singleton.mp hx]
    exact hapart b hb
  · exact h.apart hk'
  · rename_i heq
    cases hk'
    subst heq
    intro x hx
    rcases List.mem_append.mp hx with hx | hx
    · exact hitems x hx
    · rw [List.mem_singleton.mp hx]
      exact hfiled
  · exact h.filed hk'

theorem Bounded.popAt (h : Bounded cap perKey apart filed m) {k : κ} (hk : bucket m k ≠ []) :
    Bounded cap perKey apart filed (popAt k m) := by
  have htotal := total_popAt m k hk
  have hle := h.total_le
  refine h.shrink (by omega) ?_
  intro k' items hk'
  rw [getElem?_popAt] at hk'
  split at hk'
  · rename_i heq
    subst heq
    split at hk'
    · cases hk'
    · rename_i hne
      cases hk'
      cases hold : m[k]? with
      | none =>
        rw [bucket, hold] at hk
        exact absurd rfl hk
      | some items =>
        rw [bucket_of_getElem? hold] at hne ⊢
        exact ⟨hne, items, rfl, List.dropLast_sublist items⟩
  · exact ⟨h.nonempty hk', items, hk', List.Sublist.refl items⟩

omit [DecidableEq κ] in
theorem Bounded.erase (h : Bounded cap perKey apart filed m) (k : κ) :
    Bounded cap perKey apart filed (m.erase k) := by
  refine h.shrink ((total_erase_le m k).trans h.total_le) ?_
  intro k' items hk'
  rw [ExtTreeMap.getElem?_erase] at hk'
  split at hk'
  · cases hk'
  · exact ⟨h.nonempty hk', items, hk', List.Sublist.refl items⟩

omit [DecidableEq κ] in
theorem Bounded.retain (h : Bounded cap perKey apart filed m) (keep : α → Bool) :
    Bounded cap perKey apart filed (retain keep m) := by
  refine h.shrink ((total_retain_le m keep).trans h.total_le) ?_
  intro k items hk
  rw [getElem?_retain] at hk
  obtain ⟨old, hold, hkept⟩ := Option.bind_eq_some_iff.mp hk
  split at hkept
  · cases hkept
  · rename_i hne
    cases hkept
    exact ⟨hne, old, hold, List.filter_sublist⟩

end

/-! ### Eviction -/

section Eviction
variable [LawfulEqCmp cmp] (order : IterationOrder (κ × List α)) (m : ExtTreeMap κ (List α) cmp)

/-- In a buffer with an item the fullest bucket has one. -/
theorem dropFullest_of_pos (h : 0 < total m) :
    ∃ k, bucket m k ≠ [] ∧ dropFullest order m = (true, popAt k m) := by
  have hperm := order.perm m.toList
  have hne : order.arrange m.toList ≠ [] := by
    intro hnil
    rw [hnil] at hperm
    unfold total at h
    rw [hperm.symm.eq_nil] at h
    exact Nat.lt_irrefl 0 h
  obtain ⟨⟨k, items⟩, hmem, hmax, hgreatest⟩ := maxByKey_of_ne_nil (fun e => e.2.length) hne
  have hbucket : bucket m k = items :=
    bucket_of_getElem? (ExtTreeMap.mem_toList_iff_getElem?_eq_some.mp (hperm.mem_iff.mp hmem))
  have hitems : items ≠ [] := by
    intro hnil
    -- then every bucket is empty, and so is the buffer
    have hzero : total m = 0 := by
      apply List.sum_eq_zero
      intro n hn
      obtain ⟨e, he, hlen⟩ := List.mem_map.mp hn
      have hle := hgreatest e (hperm.mem_iff.mpr he)
      rw [hnil, List.length_nil] at hle
      exact hlen.symm.trans (Nat.le_zero.mp hle)
    omega
  refine ⟨k, hbucket ▸ hitems, ?_⟩
  rw [dropFullest, hmax]
  dsimp only
  rw [hbucket, List.getLast?_isSome.mpr hitems]

omit [LawfulEqCmp cmp] in
theorem evictLoop_of_not (full : ℕ → Prop) [DecidablePred full] (fuel : ℕ) (h : ¬full (total m)) :
    evictLoop order full fuel m = some m := by
  unfold evictLoop
  exact if_neg h

variable {order m} {cap perKey : ℕ} {apart : α → α → Prop} {filed : κ → α → Prop}

theorem bucket_popAt_sublist [DecidableEq κ] (k k' : κ) :
    (bucket (popAt k m) k').Sublist (bucket m k') := by
  unfold bucket
  rw [getElem?_popAt]
  split
  · rename_i heq
    subst heq
    split
    · exact List.nil_sublist _
    · exact List.dropLast_sublist _
  · exact List.Sublist.refl _

/-- Before an insertion a bounded buffer makes room in one round at most, from whichever bucket. -/
theorem Bounded.evict [DecidableEq κ] (h : Bounded cap perKey apart filed m) (hcap : 0 < cap)
    (order : IterationOrder (κ × List α)) (fuel : ℕ) :
    ∃ m', evictLoop order (cap ≤ ·) (fuel+1) m = some m' ∧ Bounded cap perKey apart filed m' ∧
      total m' < cap ∧ (∀ k, (bucket m' k).Sublist (bucket m k)) ∧ (total m < cap → m' = m) := by
  by_cases hover : cap ≤ total m
  · have hpos : 0 < total m := hcap.trans_le hover
    obtain ⟨k, hbucket, hdrop⟩ := dropFullest_of_pos order m hpos
    have htotal := total_popAt m k hbucket
    have hle := h.total_le
    have hroom : total (Buckets.popAt k m) < cap := by omega
    refine ⟨Buckets.popAt k m, ?_, h.popAt hbucket, hroom, bucket_popAt_sublist k, fun hlt => ?_⟩
    · unfold evictLoop
      rw [if_pos hover]
      dsimp only
      rw [hdrop]
      exact evictLoop_of_not order _ _ _ (Nat.not_le.mpr hroom)
    · omega
  · exact ⟨m, evictLoop_of_not order m _ _ hover, h, Nat.lt_of_not_le hover,
      fun k => List.Sublist.refl _, fun _ => rfl⟩

end Eviction
end Rules

end Buckets
