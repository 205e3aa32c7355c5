import Mathlib.Data.List.Nodup
import Mathlib.Tactic.Common
import Std.Data.ExtTreeMap.Lemmas

/-! Evicting entries of a map down to a size: the rows of a table are walked twice, and the entries
of the protected kind go only after all the others. -/
namespace Eviction
open Std

variable {κ α β : Type} {cmp : κ → κ → Ordering}

/-- One walk: keys of the chosen kind are condemned while there are still too many. -/
def condemn (total cap : ℕ) (chosen : β → Bool) : List (κ × β) → List κ → List κ
  | [], acc => acc
  | (k, b) :: rows, acc =>
    if total-acc.length ≤ cap then acc
    else condemn total cap chosen rows (if chosen b = true then acc ++ [k] else acc)

/-- The keys of one kind, in the order of the table. -/
def keysOf (chosen : β → Bool) (rows : List (κ × β)) : List κ :=
  (rows.filter fun row => chosen row.2).map Prod.fst

/-- Both walks. -/
def condemned (total cap : ℕ) (kept : β → Bool) (rows : List (κ × β)) : List κ :=
  condemn total cap kept rows (condemn total cap (fun b => !kept b) rows [])

def removeAll [TransCmp cmp] (keys : List κ) (m : ExtTreeMap κ α cmp) : ExtTreeMap κ α cmp :=
  keys.foldl (fun m k => m.erase k) m

theorem condemn_eq (total cap : ℕ) (chosen : β → Bool) (rows : List (κ × β)) (acc : List κ) :
    condemn total cap chosen rows acc =
      acc ++ (keysOf chosen rows).take (total-cap-acc.length) := by
  induction rows generalizing acc with
  | nil => rw [condemn, keysOf, List.filter_nil, List.map_nil, List.take_nil, List.append_nil]
  | cons row rows ih =>
    obtain ⟨k, b⟩ := row
    rw [condemn]
    by_cases hdone : total-acc.length ≤ cap
    · have hzero : total-cap-acc.length = 0 := by omega
      rw [if_pos hdone, hzero, List.take_zero, List.append_nil]
    · rw [if_neg hdone, ih]
      by_cases hb : chosen b = true
      · have hcons : keysOf chosen ((k, b) :: rows) = k :: keysOf chosen rows := by
          exact congrArg (List.map Prod.fst) (List.filter_cons_of_pos hb)
        obtain ⟨n, hn⟩ : ∃ n, total-cap-acc.length = n+1 := ⟨total-cap-acc.length-1, by omega⟩
        have hnext : total-cap-(acc ++ [k]).length = n := by
          rw [List.length_append, List.length_singleton]
          omega
        rw [if_pos hb, hnext, hn, hcons, List.take_succ_cons, List.append_assoc,
          List.singleton_append]
      · have hskip : keysOf chosen ((k, b) :: rows) = keysOf chosen rows :=
          congrArg (List.map Prod.fst) (List.filter_cons_of_neg hb)
        rw [if_neg hb, hskip]

/-- The condemned are the first of all others and then of the protected, as many as there are too
many. -/
theorem condemned_eq (total cap : ℕ) (kept : β → Bool) (rows : List (κ × β)) :
    condemned total cap kept rows =
      (keysOf (fun b => !kept b) rows ++ keysOf kept rows).take (total-cap) := by
  rw [condemned, condemn_eq, condemn_eq, List.nil_append, List.take_append, List.length_nil,
    Nat.sub_zero, List.length_take]
  congr 2
  omega

theorem keysOf_perm (kept : β → Bool) (rows : List (κ × β)) :
    (keysOf (fun b => !kept b) rows ++ keysOf kept rows).Perm (rows.map Prod.fst) := by
  rw [keysOf, keysOf, ← List.map_append]
  apply List.Perm.map
  exact List.perm_append_comm.trans (List.filter_append_perm (fun row => kept row.2) rows)

theorem mem_keysOf {chosen : β → Bool} {rows : List (κ × β)} {k : κ} :
    k ∈ keysOf chosen rows ↔ ∃ b, (k, b) ∈ rows ∧ chosen b = true := by
  rw [keysOf, List.mem_map]
  constructor
  · rintro ⟨⟨k', b⟩, hmem, rfl⟩
    obtain ⟨hrow, hb⟩ := List.mem_filter.mp hmem
    exact ⟨b, hrow, hb⟩
  · rintro ⟨b, hrow, hb⟩
    exact ⟨(k, b), List.mem_filter.mpr ⟨hrow, hb⟩, rfl⟩

/-- A protected entry is condemned only together with all that are not protected. -/
theorem condemned_protected {total cap : ℕ} {kept : β → Bool} {rows : List (κ × β)} {k k' : κ}
    {b' : β} (hk : k ∈ condemned total cap kept rows)
    (hprotected : ∀ b, (k, b) ∈ rows → kept b = true) (hk' : (k', b') ∈ rows)
    (hb' : kept b' = false) : k' ∈ condemned total cap kept rows := by
  rw [condemned_eq, List.take_append] at hk ⊢
  have hfirst : k ∉ keysOf (fun b => !kept b) rows := by
    intro hmem
    obtain ⟨b, hrow, hb⟩ := mem_keysOf.mp hmem
    rw [hprotected b hrow] at hb
    cases hb
  have hsecond := (List.mem_append.mp hk).resolve_left fun hmem =>
    hfirst (List.mem_of_mem_take hmem)
  have hpast : (keysOf (fun b => !kept b) rows).length ≤ total-cap := by
    by_contra hlt
    rw [Nat.sub_eq_zero_of_le (Nat.le_of_not_le hlt), List.take_zero] at hsecond
    cases hsecond
  rw [List.take_of_length_le hpast]
  apply List.mem_append_left
  exact mem_keysOf.mpr ⟨b', hk', by rw [hb']; rfl⟩

section Map
variable [TransCmp cmp] [LawfulEqCmp cmp] {m : ExtTreeMap κ α cmp}

theorem getElem?_removeAll [DecidableEq κ] (keys : List κ) (m : ExtTreeMap κ α cmp) (k : κ) :
    (removeAll keys m)[k]? = if k ∈ keys then none else m[k]? := by
  induction keys generalizing m with
  | nil => rw [if_neg List.not_mem_nil, removeAll, List.foldl_nil]
  | cons key keys ih =>
    change (removeAll keys (m.erase key))[k]? = _
    rw [ih, ExtTreeMap.getElem?_erase]
    by_cases hkeys : k ∈ keys
    · rw [if_pos hkeys, if_pos (List.mem_cons_of_mem key hkeys)]
    · rw [if_neg hkeys]
      by_cases heq : key = k
      · rw [heq, if_pos (LawfulEqCmp.compare_eq_iff_eq.mpr rfl), if_pos List.mem_cons_self]
      · rw [if_neg (fun h => heq (LawfulEqCmp.compare_eq_iff_eq.mp h)), if_neg]
        rw [List.mem_cons]
        rintro (h | h)
        · exact heq h.symm
        · exact hkeys h

theorem size_removeAll {keys : List κ} (hnodup : keys.Nodup) (hmem : ∀ k ∈ keys, k ∈ m) :
    (removeAll keys m).size+keys.length = m.size := by
  induction keys generalizing m with
  | nil => rfl
  | cons key keys ih =>
    obtain ⟨hnot, hnodup⟩ := List.nodup_cons.mp hnodup
    have hkey := hmem key List.mem_cons_self
    have hrest : ∀ k ∈ keys, k ∈ m.erase key := by
      intro k hk
      rw [ExtTreeMap.mem_erase]
      refine ⟨fun heq => hnot ?_, hmem k (List.mem_cons_of_mem key hk)⟩
      rwa [LawfulEqCmp.compare_eq_iff_eq.mp heq]
    have hsize := ih hnodup hrest
    have hpos : 0 < m.size := by
      apply Nat.pos_of_ne_zero
      intro hzero
      rw [ExtTreeMap.eq_empty_iff_size_eq_zero.mpr hzero] at hkey
      exact ExtTreeMap.not_mem_empty hkey
    rw [ExtTreeMap.size_erase, if_pos (ExtTreeMap.contains_iff_mem.mpr hkey)] at hsize
    change (removeAll keys (m.erase key)).size+_ = _
    rw [List.length_cons]
    omega

/-- A map cut down to a size by a table of its keys. -/
theorem size_removeAll_condemned {cap : ℕ} {kept : β → Bool} {rows : List (κ × β)}
    (hrows : (rows.map Prod.fst).Perm m.keys) :
    (removeAll (condemned m.size cap kept rows) m).size = min m.size cap := by
  have hperm := (keysOf_perm kept rows).trans hrows
  have hnodup : (keysOf (fun b => !kept b) rows ++ keysOf kept rows).Nodup :=
    hperm.symm.nodup ExtTreeMap.nodup_keys
  have hlen : (keysOf (fun b => !kept b) rows ++ keysOf kept rows).length = m.size := by
    rw [hperm.length_eq, ExtTreeMap.length_keys]
  rw [condemned_eq]
  have hsize := size_removeAll (m := m) (hnodup.sublist (List.take_sublist (m.size-cap) _))
    fun k hk => ExtTreeMap.mem_keys.mp (hperm.mem_iff.mp (List.mem_of_mem_take hk))
  rw [List.length_take, hlen] at hsize
  omega

end Map

end Eviction
