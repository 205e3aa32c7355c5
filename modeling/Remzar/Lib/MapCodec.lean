import Mathlib.Data.List.Basic
import Mathlib.Data.List.Nodup
import Mathlib.Data.List.Perm.Basic
import Std.Data.ExtTreeMap
import Remzar.Lib.Postcard

/-! Booleans, and hash maps as they go over the wire: the entries in whatever order the map yields
them. Reading them back gives the same map, in any order. -/
namespace Postcard
open Std

def bool : Codec Bool where
  Fits _ := True
  enc b := [if b then 1 else 0]
  dec
    | [] => .error .unexpectedEnd
    | b :: rest =>
      if b = 0 then .ok (false, rest) else if b = 1 then .ok (true, rest) else .error .badBool
  dec_enc b rest _ := by cases b <;> rfl

section
variable {α β : Type} [DecidableEq α] {cmp : α → α → Ordering} [TransCmp cmp] [LawfulEqCmp cmp]

/-- An order in which a hash map yields its entries. -/
structure Listing (α β : Type) (cmp : α → α → Ordering) [TransCmp cmp] where
  entries : ExtTreeMap α β cmp → List (α × β)
  perm : ∀ m, (entries m).Perm m.toList

/-- The entries of a map, read back in any order. -/
theorem ofList_perm {m : ExtTreeMap α β cmp} {entries : List (α × β)} (h : entries.Perm m.toList) :
    ExtTreeMap.ofList entries cmp = m := by
  have hdistinct : entries.Pairwise fun a b => ¬cmp a.1 b.1 = .eq := by
    refine (h.pairwise_iff ?_).mpr ExtTreeMap.distinct_keys_toList
    intro a b hne heq
    exact hne (OrientedCmp.eq_symm heq)
  apply ExtTreeMap.ext_getElem?
  intro key
  cases hget : m[key]? with
  | some value =>
    have hmem : (key, value) ∈ entries :=
      h.mem_iff.mpr (ExtTreeMap.mem_toList_iff_getElem?_eq_some.mpr hget)
    exact ExtTreeMap.getElem?_ofList_of_mem ReflCmp.compare_self hdistinct hmem
  | none =>
    apply ExtTreeMap.getElem?_ofList_of_contains_eq_false
    rw [← Bool.not_eq_true, List.contains_iff_mem, (h.map Prod.fst).mem_iff,
      ExtTreeMap.map_fst_toList_eq_keys, ExtTreeMap.mem_keys, ExtTreeMap.mem_iff_isSome_getElem?, hget]
    exact Bool.false_ne_true

end

/-! ### What fits -/

section
variable {α β : Type}

theorem length_le_flatMap {c : Codec α} (hc : ∀ a, c.enc a ≠ []) (as : List α) :
    as.length ≤ (as.flatMap c.enc).length := by
  induction as with
  | nil => exact Nat.le_refl 0
  | cons a as ih =>
    have hpos := List.length_pos_iff.mpr (hc a)
    rw [List.flatMap_cons, List.length_append, List.length_cons]
    omega

theorem enc_length_le_flatMap {c : Codec α} {a : α} {as : List α} (h : a ∈ as) :
    (c.enc a).length ≤ (as.flatMap c.enc).length := by
  induction as with
  | nil => cases h
  | cons b as ih =>
    rw [List.flatMap_cons, List.length_append]
    rcases List.mem_cons.mp h with rfl | hmem
    · exact Nat.le_add_right _ _
    · exact Nat.le_trans (ih hmem) (Nat.le_add_left _ _)

end

end Postcard
