import Mathlib
import Remzar.Lib.Buckets

/-! Items filed under a key of their own. The buckets are a listing of the items, and filing them
again gives the same buckets. -/
namespace Buckets
open Std
variable {κ α : Type} {cmp : κ → κ → Ordering} [TransCmp cmp]

/-- All items, in the order of their keys. -/
def items (m : ExtTreeMap κ (List α) cmp) : List α := m.toList.flatMap Prod.snd

/-- Buckets are not empty, and every item is in the bucket of its key. -/
structure Filed (f : α → κ) (m : ExtTreeMap κ (List α) cmp) : Prop where
  nonempty : ∀ (k : κ) (b : List α), m[k]? = some b → b ≠ []
  filed : ∀ (k : κ) (b : List α), m[k]? = some b → ∀ a ∈ b, f a = k

variable {f : α → κ} {m m' : ExtTreeMap κ (List α) cmp} {k : κ} {a : α}

theorem getElem?_of_mem_bucket (h : a ∈ bucket m k) : m[k]? = some (bucket m k) := by
  cases hk : m[k]? with
  | none =>
    rw [bucket, hk] at h
    cases h
  | some b => rw [bucket_of_getElem? hk]

theorem Filed.key (h : Filed f m) (ha : a ∈ bucket m k) : f a = k :=
  h.filed k _ (getElem?_of_mem_bucket ha) a ha

theorem Filed.empty : Filed f (∅ : ExtTreeMap κ (List α) cmp) := by
  have hnone : ∀ (k : κ) (b : List α), (∅ : ExtTreeMap κ (List α) cmp)[k]? ≠ some b := by
    intro k b h
    rw [ExtTreeMap.getElem?_empty] at h
    cases h
  exact ⟨fun k b h => absurd h (hnone k b), fun k b h => absurd h (hnone k b)⟩

theorem Filed.erase (h : Filed f m) : Filed f (m.erase k) := by
  constructor
  · intro k' b' hk'
    rw [ExtTreeMap.getElem?_erase] at hk'
    split at hk'
    · cases hk'
    · exact h.nonempty k' b' hk'
  · intro k' b' hk'
    rw [ExtTreeMap.getElem?_erase] at hk'
    split at hk'
    · cases hk'
    · exact h.filed k' b' hk'

theorem bucket_empty (k : κ) : bucket (∅ : ExtTreeMap κ (List α) cmp) k = [] := by
  rw [bucket, ExtTreeMap.getElem?_empty]
  rfl

section Reads
variable [LawfulEqCmp cmp]

theorem mem_items : a ∈ items m ↔ ∃ k, a ∈ bucket m k := by
  rw [items, List.mem_flatMap]
  constructor
  · rintro ⟨e, he, ha⟩
    exact ⟨e.1, (bucket_of_getElem? (ExtTreeMap.mem_toList_iff_getElem?_eq_some.mp he)).symm ▸ ha⟩
  · rintro ⟨k, ha⟩
    exact ⟨(k, bucket m k),
      ExtTreeMap.mem_toList_iff_getElem?_eq_some.mpr (getElem?_of_mem_bucket ha), ha⟩

theorem items_empty : items (∅ : ExtTreeMap κ (List α) cmp) = [] := by
  rw [List.eq_nil_iff_forall_not_mem]
  intro a ha
  obtain ⟨k, hk⟩ := mem_items.mp ha
  rw [bucket_empty] at hk
  cases hk

theorem Filed.mem_items (h : Filed f m) : a ∈ items m ↔ a ∈ bucket m (f a) := by
  rw [Buckets.mem_items]
  constructor
  · rintro ⟨k, ha⟩
    exact (h.key ha).symm ▸ ha
  · exact fun ha => ⟨f a, ha⟩

/-- Maps without empty buckets are known by their buckets. -/
theorem Filed.ext (h : Filed f m) (h' : Filed f m') (hsame : ∀ k, bucket m k = bucket m' k) :
    m = m' := by
  have hread : ∀ {m : ExtTreeMap κ (List α) cmp}, Filed f m → ∀ k,
      m[k]? = if bucket m k = [] then none else some (bucket m k) := by
    intro m hm k
    cases hk : m[k]? with
    | none => rw [bucket, hk, Option.getD_none, if_pos rfl]
    | some b => rw [bucket_of_getElem? hk, if_neg (hm.nonempty k b hk)]
  apply ExtTreeMap.ext_getElem?
  intro k
  rw [hread h, hread h', hsame]

theorem Filed.insert (h : Filed f m) {b : List α} (hb : b ≠ []) (hkey : ∀ a ∈ b, f a = k) :
    Filed f (m.insert k b) := by
  constructor
  · intro k' b' hk'
    rw [ExtTreeMap.getElem?_insert] at hk'
    split at hk'
    · cases hk'
      exact hb
    · exact h.nonempty k' b' hk'
  · intro k' b' hk'
    rw [ExtTreeMap.getElem?_insert] at hk'
    split at hk'
    · rename_i heq
      cases hk'
      rw [← LawfulEqCmp.eq_of_compare heq]
      exact hkey
    · exact h.filed k' b' hk'

theorem Filed.push (h : Filed f m) : Filed f (push (f a) a m) := by
  apply h.insert
  · simp
  · intro b hb
    rcases List.mem_append.mp hb with hb | hb
    · exact h.key hb
    · rw [List.mem_singleton.mp hb]

/-- File items one after another. -/
def fileAll (f : α → κ) (m : ExtTreeMap κ (List α) cmp) (as : List α) :
    ExtTreeMap κ (List α) cmp :=
  as.foldl (fun m a => push (f a) a m) m

theorem Filed.fileAll (h : Filed f m) (as : List α) : Filed f (fileAll f m as) := by
  induction as generalizing m with
  | nil => exact h
  | cons a as ih => exact ih h.push

variable [DecidableEq κ]

theorem bucket_insert (b : List α) (k' : κ) :
    bucket (m.insert k b) k' = if k = k' then b else bucket m k' := by
  rw [bucket, ExtTreeMap.getElem?_insert]
  simp only [LawfulEqCmp.compare_eq_iff_eq]
  split
  · rfl
  · rfl

theorem bucket_erase (k' : κ) : bucket (m.erase k) k' = if k = k' then [] else bucket m k' := by
  rw [bucket, ExtTreeMap.getElem?_erase]
  simp only [LawfulEqCmp.compare_eq_iff_eq]
  split
  · rfl
  · rfl

/-! ### Filing again -/

theorem bucket_fileAll (as : List α) (k : κ) : bucket (fileAll f m as) k =
    bucket m k ++ as.filter fun a => f a = k := by
  induction as generalizing m with
  | nil => exact (List.append_nil _).symm
  | cons a as ih =>
    change bucket (fileAll f (push (f a) a m) as) k = _
    rw [ih, push, bucket_insert]
    by_cases hk : f a = k
    · rw [if_pos hk, List.filter_cons_of_pos (by simpa using hk), hk, List.append_assoc,
        List.singleton_append]
    · rw [if_neg hk, List.filter_cons_of_neg (by simpa using hk)]

theorem Filed.filter_items (h : Filed f m) (k : κ) :
    (items m).filter (fun a => f a = k) = bucket m k := by
  have hother : ∀ e ∈ m.toList, e.1 ≠ k → e.2.filter (fun a => f a = k) = [] := by
    intro e he hne
    rw [List.filter_eq_nil_iff]
    intro a ha hka
    have hread := ExtTreeMap.mem_toList_iff_getElem?_eq_some.mp he
    exact hne ((h.filed e.1 e.2 hread a ha).symm.trans (of_decide_eq_true hka))
  rw [items, List.filter_flatMap]
  cases hk : m[k]? with
  | none =>
    rw [bucket, hk, Option.getD_none, List.flatMap_eq_nil_iff]
    intro e he
    refine hother e he ?_
    rintro rfl
    rw [ExtTreeMap.mem_toList_iff_getElem?_eq_some.mp he] at hk
    cases hk
  | some b =>
    have hmem := ExtTreeMap.mem_toList_iff_getElem?_eq_some.mpr hk
    obtain ⟨pre, post, hsplit⟩ := List.append_of_mem hmem
    have hdistinct := ExtTreeMap.distinct_keys_toList (t := m)
    rw [hsplit, List.pairwise_append, List.pairwise_cons] at hdistinct
    obtain ⟨-, ⟨hpost, -⟩, hpre⟩ := hdistinct
    have hself : b.filter (fun a => f a = k) = b := by
      rw [List.filter_eq_self]
      exact fun a ha => decide_eq_true (h.filed k b hk a ha)
    have hpreNil : pre.flatMap (fun e => e.2.filter fun a => f a = k) = [] := by
      rw [List.flatMap_eq_nil_iff]
      intro e he
      refine hother e (hsplit ▸ List.mem_append_left _ he) fun heq => ?_
      exact hpre e he _ List.mem_cons_self (LawfulEqCmp.compare_eq_iff_eq.mpr heq)
    have hpostNil : post.flatMap (fun e => e.2.filter fun a => f a = k) = [] := by
      rw [List.flatMap_eq_nil_iff]
      intro e he
      refine hother e (hsplit ▸ List.mem_append_right _ (List.mem_cons_of_mem _ he)) fun heq => ?_
      exact hpost e he (LawfulEqCmp.compare_eq_iff_eq.mpr heq.symm)
    rw [hsplit, List.flatMap_append, List.flatMap_cons, hpreNil, hpostNil, hself,
      bucket_of_getElem? hk, List.nil_append, List.append_nil]

/-- Filing the items of a map again gives the map. -/
theorem Filed.refile (h : Filed f m) : Buckets.fileAll f ∅ (items m) = m := by
  refine (Filed.empty.fileAll _).ext h fun k => ?_
  rw [bucket_fileAll, h.filter_items, bucket, ExtTreeMap.getElem?_empty]
  rfl

end Reads

/-- There are no more buckets than items. -/
theorem Filed.size_le_total {f : α → κ} {m : ExtTreeMap κ (List α) cmp} [LawfulEqCmp cmp]
    (h : Filed f m) : m.size ≤ total m := by
  have hone : ∀ n ∈ m.toList.map fun e => e.2.length, 1 ≤ n := by
    intro n hn
    obtain ⟨e, he, rfl⟩ := List.mem_map.mp hn
    exact List.length_pos_of_ne_nil
      (h.nonempty e.1 e.2 (ExtTreeMap.mem_toList_iff_getElem?_eq_some.mp he))
  calc m.size = (m.toList.map fun e => e.2.length).length := by
        rw [List.length_map, ExtTreeMap.length_toList]
    _ ≤ total m := List.length_le_sum_of_one_le _ hone

theorem length_items (m : ExtTreeMap κ (List α) cmp) : (items m).length = total m := by
  rw [items, total, List.length_flatMap]

end Buckets
