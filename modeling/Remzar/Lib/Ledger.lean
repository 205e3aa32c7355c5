import Mathlib
import Remzar.Lib.Checked

/-! Finite ledgers from keys to 64-bit amounts, and the total of their amounts. -/
namespace Ledger
open Std Checked
variable {κ : Type} {cmp : κ → κ → Ordering} [TransCmp cmp]

/-- The sum of all amounts, as a natural number. -/
def total (m : ExtTreeMap κ UInt64 cmp) : ℕ := (m.toList.map (fun e => e.2.toNat)).sum

/-- The amounts summed in key order with an overflow check. -/
def checkedTotal (m : ExtTreeMap κ UInt64 cmp) : Option UInt64 :=
  (m.toList.map Prod.snd).foldlM (fun acc v => checkedAdd acc v) 0

/-- The amount of a key, zero where there is none. -/
def amount (m : ExtTreeMap κ UInt64 cmp) (k : κ) : UInt64 := m[k]?.getD 0

theorem foldlM_checkedAdd_eq_some_iff (vs : List UInt64) (acc s : UInt64) :
    vs.foldlM (fun acc v => checkedAdd acc v) acc = some s ↔
      acc.toNat + (vs.map UInt64.toNat).sum = s.toNat := by
  induction vs generalizing acc with
  | nil => simp [UInt64.toNat_inj]
  | cons v vs ih =>
    rw [List.foldlM_cons, List.map_cons, List.sum_cons]
    have hs := s.toNat_lt
    constructor
    · intro h
      obtain ⟨b, hb, hrest⟩ := Option.bind_eq_some_iff.mp h
      have hb' := (checkedAdd_eq_some_iff acc v b).mp hb
      have hrest' := (ih b).mp hrest
      omega
    · intro h
      have hlt : acc.toNat + v.toNat < 2^64 := by omega
      have hsome : checkedAdd acc v = some (acc + v) := by
        unfold checkedAdd
        rw [if_pos hlt]
      have hsum := (checkedAdd_eq_some_iff acc v (acc + v)).mp hsome
      rw [hsome]
      exact (ih (acc + v)).mpr (by omega)

theorem checkedTotal_eq_some_iff (m : ExtTreeMap κ UInt64 cmp) (s : UInt64) :
    checkedTotal m = some s ↔ total m = s.toNat := by
  rw [checkedTotal, foldlM_checkedAdd_eq_some_iff, total, List.map_map]
  simp [Function.comp_def]

theorem total_empty : total (∅ : ExtTreeMap κ UInt64 cmp) = 0 := by
  have hnil : (∅ : ExtTreeMap κ UInt64 cmp).toList = [] := ExtTreeMap.toList_eq_nil_iff.mpr rfl
  rw [total, hnil]
  rfl

section Updates
variable [LawfulEqCmp cmp]

theorem toList_nodup {ν : Type} (m : ExtTreeMap κ ν cmp) : m.toList.Nodup := by
  refine List.Pairwise.imp ?_ (ExtTreeMap.distinct_keys_toList (t := m))
  intro a b hab heq
  exact hab (heq ▸ ReflCmp.compare_self)

/-- A key is in the ledger once. -/
theorem toList_perm_of_getElem? {ν : Type} (m : ExtTreeMap κ ν cmp) (k : κ) (v : ν)
    (h : m[k]? = some v) : m.toList.Perm ((k, v) :: (m.erase k).toList) := by
  refine (List.perm_ext_iff_of_nodup (toList_nodup m) ?_).mpr ?_
  · refine List.nodup_cons.mpr ⟨?_, toList_nodup _⟩
    rw [ExtTreeMap.mem_toList_iff_getElem?_eq_some, ExtTreeMap.getElem?_erase_self]
    simp
  · rintro ⟨a, b⟩
    rw [List.mem_cons, ExtTreeMap.mem_toList_iff_getElem?_eq_some,
      ExtTreeMap.mem_toList_iff_getElem?_eq_some, ExtTreeMap.getElem?_erase, Prod.mk.injEq]
    by_cases hka : k = a
    · subst hka
      simp only [h, ReflCmp.compare_self, if_true, reduceCtorEq, or_false, true_and, Option.some.injEq]
      exact eq_comm
    · have hne : cmp k a ≠ .eq := fun hc => hka (LawfulEqCmp.eq_of_compare hc)
      simp only [hne, if_false]
      constructor
      · exact Or.inr
      · rintro (⟨hak, -⟩ | hm)
        · exact absurd hak.symm hka
        · exact hm

theorem total_eq_amount_add_erase (m : ExtTreeMap κ UInt64 cmp) (k : κ) :
    total m = (amount m k).toNat + total (m.erase k) := by
  cases h : m[k]? with
  | some v =>
    have hperm := (toList_perm_of_getElem? m k v h).map (fun e => e.2.toNat)
    rw [total, hperm.sum_eq, List.map_cons, List.sum_cons, amount, h]
    rfl
  | none =>
    have hsame : m.erase k = m := by
      refine ExtTreeMap.ext_getElem? fun {a} => ?_
      rw [ExtTreeMap.getElem?_erase]
      split
      · rename_i hka
        rw [← LawfulEqCmp.eq_of_compare hka, h]
      · rfl
    rw [hsame, amount, h]
    simp

theorem erase_insert_self {ν : Type} (m : ExtTreeMap κ ν cmp) (k : κ) (v : ν) :
    (m.insert k v).erase k = m.erase k := by
  refine ExtTreeMap.ext_getElem? fun {a} => ?_
  rw [ExtTreeMap.getElem?_erase, ExtTreeMap.getElem?_erase, ExtTreeMap.getElem?_insert]
  split <;> rfl

theorem amount_insert [DecidableEq κ] (m : ExtTreeMap κ UInt64 cmp) (k a : κ) (v : UInt64) :
    amount (m.insert k v) a = if k = a then v else amount m a := by
  rw [amount, ExtTreeMap.getElem?_insert]
  by_cases hka : k = a
  · simp [hka]
  · have hne : cmp k a ≠ .eq := fun hc => hka (LawfulEqCmp.eq_of_compare hc)
    simp [hne, hka, amount]

/-- Replacing an amount moves the total by the difference. -/
theorem total_insert (m : ExtTreeMap κ UInt64 cmp) (k : κ) (v : UInt64) :
    total (m.insert k v) + (amount m k).toNat = total m + v.toNat := by
  have hnew := total_eq_amount_add_erase (m.insert k v) k
  have hold := total_eq_amount_add_erase m k
  have hself : amount (m.insert k v) k = v := by
    rw [amount, ExtTreeMap.getElem?_insert_self]
    rfl
  rw [erase_insert_self, hself] at hnew
  omega

theorem amount_le_total (m : ExtTreeMap κ UInt64 cmp) (k : κ) : (amount m k).toNat ≤ total m := by
  have h := total_eq_amount_add_erase m k
  omega

end Updates

end Ledger
