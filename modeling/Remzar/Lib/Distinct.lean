import Mathlib.Data.List.Nodup
import Remzar.Lib.Fallible

/-! Lists whose entries have distinct keys, checked by a loop that keeps the keys it has seen. -/
namespace Distinct
open Fallible
variable {ε α κ : Type} [DecidableEq κ]

/-- Every entry has a key, and none has the key of an earlier one. -/
def check (key : α → Except ε κ) (duplicate : κ → ε) : List κ → List α → Except ε Unit
  | _, [] => .ok ()
  | seen, a :: as => do
    let k ← key a
    rejectIf (k ∈ seen) (duplicate k)
    check key duplicate (k :: seen) as

variable {key : α → Except ε κ} {duplicate : κ → ε}

theorem check_cons_eq_ok_iff {seen : List κ} {a : α} {as : List α} :
    check key duplicate seen (a :: as) = .ok () ↔
      ∃ k, key a = .ok k ∧ k ∉ seen ∧ check key duplicate (k :: seen) as = .ok () := by
  rw [check, bind_eq_ok_iff]
  refine exists_congr fun k => and_congr_right fun _ => ?_
  rw [bind_eq_ok_iff]
  constructor
  · rintro ⟨u, hk, hrest⟩
    exact ⟨(rejectIf_eq_ok_iff _ _ _).mp hk, hrest⟩
  · rintro ⟨hk, hrest⟩
    exact ⟨(), rejectIf_of_not _ hk, hrest⟩

/-- Where the keys are known, the loop asks for what it says. -/
theorem check_eq_ok_iff {f : α → κ} {P : α → Prop} (hkey : ∀ a k, key a = .ok k ↔ P a ∧ f a = k)
    (seen : List κ) (as : List α) : check key duplicate seen as = .ok () ↔
      (∀ a ∈ as, P a) ∧ (as.map f).Nodup ∧ ∀ a ∈ as, f a ∉ seen := by
  induction as generalizing seen with
  | nil => simp [check]
  | cons a as ih =>
    rw [check_cons_eq_ok_iff, List.map_cons, List.nodup_cons, List.forall_mem_cons,
      List.forall_mem_cons]
    constructor
    · rintro ⟨k, hk, hseen, hrest⟩
      obtain ⟨ha, rfl⟩ := (hkey a k).mp hk
      obtain ⟨hall, hnodup, hfresh⟩ := (ih _).mp hrest
      refine ⟨⟨ha, hall⟩, ⟨?_, hnodup⟩, hseen, fun b hb => ?_⟩
      · intro hmem
        obtain ⟨b, hb, heq⟩ := List.mem_map.mp hmem
        exact hfresh b hb (heq ▸ List.mem_cons_self)
      · exact fun hmem => hfresh b hb (List.mem_cons_of_mem _ hmem)
    · rintro ⟨⟨ha, hall⟩, ⟨hhead, hnodup⟩, hseen, hrest⟩
      refine ⟨f a, (hkey a _).mpr ⟨ha, rfl⟩, hseen, (ih _).mpr ⟨hall, hnodup, fun b hb => ?_⟩⟩
      rw [List.mem_cons, not_or]
      refine ⟨fun heq => hhead (List.mem_map.mpr ⟨b, hb, heq⟩), hrest b hb⟩

/-- One more entry must have a key of its own. -/
theorem check_concat {f : α → κ} {P : α → Prop} (hkey : ∀ a k, key a = .ok k ↔ P a ∧ f a = k)
    {as : List α} {a : α} (has : check key duplicate [] as = .ok ()) (ha : P a) :
    check key duplicate [] (as ++ [a]) = .ok () ↔ f a ∉ as.map f := by
  rw [check_eq_ok_iff hkey] at has
  rw [check_eq_ok_iff hkey, List.map_append, List.map_singleton, List.nodup_append]
  constructor
  · rintro ⟨-, ⟨-, -, hdisjoint⟩, -⟩ hmem
    exact hdisjoint _ hmem _ (List.mem_singleton.mpr rfl) rfl
  · intro hfresh
    refine ⟨?_, ⟨has.2.1, List.nodup_singleton _, ?_⟩, fun _ _ => List.not_mem_nil⟩
    · intro b hb
      rcases List.mem_append.mp hb with hb | hb
      · exact has.1 b hb
      · rw [List.mem_singleton.mp hb]
        exact ha
    · intro x hx y hy
      rw [List.mem_singleton.mp hy]
      rintro rfl
      exact hfresh hx

end Distinct
