import Mathlib.Algebra.Order.Ring.Nat
import Mathlib.Data.List.Basic
import Mathlib.Tactic.Common

/-! Merkle trees over an arbitrary node hash. A tree is the tower of its levels, from the leaves
to the root; a node without a neighbour is paired with itself. A proof is climbed from a leaf
with the sibling of every level below the root. -/
namespace Merkle
variable {α : Type} (h : α → α → α)

/-! ### Levels -/

/-- The pairs that are hashed into the level above. -/
def pairs : List α → List (α × α)
  | [] => []
  | [left] => [(left, left)]
  | left :: right :: rest => (left, right) :: pairs rest

def parents (level : List α) : List α := (pairs level).map fun p => h p.1 p.2

/-- The levels of a tree, each made of the parents of the one below. -/
inductive Tower : List (List α) → Prop
  | root (x : α) : Tower [[x]]
  | grow (level : List α) (above : List (List α)) (hlevel : 1 < level.length)
    (htower : Tower (parents h level :: above)) : Tower (level :: parents h level :: above)

/-- All pairs that are hashed when the tower is built. -/
def hashed : List (List α) → List (α × α)
  | [] => []
  | [_] => []
  | level :: above => pairs level ++ hashed above

theorem length_pairs (level : List α) : (pairs level).length = (level.length+1)/2 := by
  fun_induction pairs level with
  | case1 => simp
  | case2 => simp
  | case3 left right rest ih =>
    simp only [List.length_cons, ih]
    omega

theorem length_parents (level : List α) : (parents h level).length = (level.length+1)/2 := by
  rw [parents, List.length_map, length_pairs]

theorem mem_pairs {level : List α} {p : α × α} (hp : p ∈ pairs level) :
    p.1 ∈ level ∧ p.2 ∈ level := by
  fun_induction pairs level with
  | case1 => cases hp
  | case2 left =>
    rw [List.mem_singleton.mp hp]
    exact ⟨List.mem_singleton_self left, List.mem_singleton_self left⟩
  | case3 left right rest ih =>
    rcases List.mem_cons.mp hp with rfl | hp
    · exact ⟨by simp, by simp⟩
    · obtain ⟨h₁, h₂⟩ := ih hp
      exact ⟨by simp [h₁], by simp [h₂]⟩

/-- The pair that the node at a position goes into, with the node on its own side. -/
theorem pairs_getElem? (level : List α) (idx : ℕ) (x : α) (hx : level[idx]? = some x) :
    (pairs level)[idx/2]? = some (if idx%2 = 0 then (x, level[idx+1]?.getD x)
      else (level[idx-1]?.getD x, x)) := by
  fun_induction pairs level generalizing idx with
  | case1 => cases hx
  | case2 left =>
    match idx, hx with
    | 0, hx => cases hx; rfl
  | case3 left right rest ih =>
    match idx, hx with
    | 0, hx => cases hx; rfl
    | 1, hx => cases hx; rfl
    | idx+2, hx =>
      have hrest := ih idx hx
      have hdiv : (idx+2)/2 = idx/2 + 1 := by omega
      have hmod : (idx+2)%2 = idx%2 := by omega
      rw [hdiv, List.getElem?_cons_succ, hrest, hmod]
      by_cases heven : idx%2 = 0
      · rw [if_pos heven, if_pos heven]
        rfl
      · rw [if_neg heven, if_neg heven]
        obtain ⟨idx, rfl⟩ : ∃ k, idx = k+1 := ⟨idx-1, by omega⟩
        rfl

theorem Tower.length_pos {level : List α} {above : List (List α)}
    (ht : Tower h (level :: above)) : 0 < level.length := by
  cases ht with
  | root x => exact Nat.one_pos
  | grow level above hlevel htower => omega

/-- A tower over at most `2^k` leaves has at most `k` levels above them. -/
theorem Tower.depth_le {level : List α} {above : List (List α)} (ht : Tower h (level :: above))
    {k : ℕ} (hlevel : level.length ≤ 2^k) : above.length ≤ k := by
  induction k generalizing level above with
  | zero =>
    cases ht with
    | root x => exact Nat.le_refl 0
    | grow level above hmany htower => omega
  | succ k ih =>
    cases ht with
    | root x => exact Nat.zero_le _
    | grow level above hmany htower =>
      have hparents : (parents h level).length ≤ 2^k := by
        rw [length_parents]
        omega
      exact Nat.succ_le_succ (ih htower hparents)

/-! ### Building -/

/-- One unit of fuel for every level below the root. -/
def levels : ℕ → List α → List (List α)
  | 0, level => [level]
  | fuel+1, level => if level.length ≤ 1 then [level] else level :: levels fuel (parents h level)

theorem levels_eq_cons (fuel : ℕ) (level : List α) : ∃ above, levels h fuel level = level :: above := by
  cases fuel with
  | zero => exact ⟨[], rfl⟩
  | succ fuel =>
    rw [levels]
    split
    · exact ⟨[], rfl⟩
    · exact ⟨_, rfl⟩

theorem tower_levels {fuel : ℕ} {level : List α} (hpos : 0 < level.length)
    (hfuel : level.length ≤ fuel+1) : Tower h (levels h fuel level) := by
  induction fuel generalizing level with
  | zero =>
    obtain ⟨x, rfl⟩ := List.length_eq_one_iff.mp (show level.length = 1 by omega)
    exact .root x
  | succ fuel ih =>
    rw [levels]
    split
    · obtain ⟨x, rfl⟩ := List.length_eq_one_iff.mp (show level.length = 1 by omega)
      exact .root x
    · have hparents := length_parents h level
      have htower : Tower h (levels h fuel (parents h level)) := ih (by omega) (by omega)
      obtain ⟨above, habove⟩ := levels_eq_cons h fuel (parents h level)
      rw [habove] at htower ⊢
      exact .grow level above (by omega) htower

/-! ### Climbing -/

/-- A step of a proof: whether the node climbed from is the left one, and its sibling. -/
abbrev Step (α : Type) := Bool × α

def Step.pair (s : Step α) (x : α) : α × α := if s.1 then (x, s.2) else (s.2, x)

def climb (x : α) : List (Step α) → α
  | [] => x
  | s :: rest => climb (h (s.pair x).1 (s.pair x).2) rest

/-- The pairs that are hashed on the way up. -/
def climbed (x : α) : List (Step α) → List (α × α)
  | [] => []
  | s :: rest => s.pair x :: climbed (h (s.pair x).1 (s.pair x).2) rest

/-- The step from a position of a level; the last node of an odd level is its own sibling. -/
def step (level : List α) (idx : ℕ) (x : α) : Step α :=
  (idx%2 = 0, level[if idx%2 = 0 then idx+1 else idx-1]?.getD x)

theorem step_pair (level : List α) (idx : ℕ) (x : α) :
    (step level idx x).pair x = if idx%2 = 0 then (x, level[idx+1]?.getD x)
      else (level[idx-1]?.getD x, x) := by
  unfold step Step.pair
  by_cases heven : idx%2 = 0 <;> simp [heven]

/-- The steps of the tower's own nodes from a position up to the root. -/
def proof : List (List α) → ℕ → List (Step α)
  | [], _ => []
  | [_], _ => []
  | level :: above, idx =>
    match level[idx]? with
    | none => []
    | some x => step level idx x :: proof above (idx/2)

theorem parents_getElem? {level : List α} {idx : ℕ} {x : α} (hx : level[idx]? = some x) :
    (parents h level)[idx/2]? =
      some (h ((step level idx x).pair x).1 ((step level idx x).pair x).2) := by
  rw [parents, List.getElem?_map, pairs_getElem? level idx x hx, step_pair]
  rfl

/-- Climbing from a leaf with the tower's own nodes ends at the root. -/
theorem climb_proof {levels : List (List α)} (ht : Tower h levels) {level : List α}
    (hlevel : levels.head? = some level) {idx : ℕ} {x : α} (hx : level[idx]? = some x) :
    levels.getLast? = some [climb h x (proof levels idx)] ∧
      (proof levels idx).length = levels.length - 1 := by
  induction ht generalizing level idx x with
  | root y =>
    cases hlevel
    match idx, hx with
    | 0, hx => cases hx; exact ⟨rfl, rfl⟩
  | grow bottom above hbottom htower ih =>
    cases hlevel
    obtain ⟨hlast, hlength⟩ := ih rfl (parents_getElem? h hx)
    have hproof : proof (bottom :: parents h bottom :: above) idx =
        step bottom idx x :: proof (parents h bottom :: above) (idx/2) := by
      rw [proof, hx]
      simp
    rw [hproof]
    refine ⟨?_, ?_⟩
    · rw [List.getLast?_cons_cons, hlast]
      rfl
    · rw [List.length_cons, hlength]
      simp

/-- Where no pair on the way up collides with another pair of the tower, a climb of the right
length that ends at the root started at a leaf. -/
theorem mem_of_climb {levels : List (List α)} (ht : Tower h levels) {level : List α}
    (hlevel : levels.head? = some level) {x : α} {steps : List (Step α)}
    (hlength : steps.length = levels.length - 1)
    (hroot : levels.getLast? = some [climb h x steps])
    (hfree : ∀ p ∈ climbed h x steps, ∀ q ∈ hashed levels, h p.1 p.2 = h q.1 q.2 → p = q) :
    x ∈ level := by
  induction ht generalizing level x steps with
  | root y =>
    cases hlevel
    obtain rfl := List.length_eq_zero_iff.mp hlength
    simpa [climb, eq_comm] using hroot
  | grow bottom above hbottom htower ih =>
    cases hlevel
    match steps, hlength with
    | s :: rest, hlength =>
      have hparent : h (s.pair x).1 (s.pair x).2 ∈ parents h bottom := by
        rw [List.getLast?_cons_cons] at hroot
        have hrest : rest.length = (parents h bottom :: above).length - 1 := by simpa using hlength
        refine ih rfl hrest hroot ?_
        intro p hp q hq
        exact hfree p (List.mem_cons_of_mem _ hp) q (List.mem_append_right _ hq)
      obtain ⟨q, hq, heq⟩ := List.mem_map.mp hparent
      have hpair := hfree (s.pair x) List.mem_cons_self q (List.mem_append_left _ hq) heq.symm
      obtain ⟨hfst, hsnd⟩ := mem_pairs hq
      rw [← hpair, Step.pair] at hfst hsnd
      split at hfst
      · exact hfst
      · rename_i hright
        rw [if_neg hright] at hsnd
        exact hsnd

/-! ### Binding -/

theorem pairs_inj {level level' : List α} (hlen : level.length = level'.length)
    (h : pairs level = pairs level') : level = level' := by
  fun_induction pairs level generalizing level' with
  | case1 => exact (List.length_eq_zero_iff.mp hlen.symm).symm
  | case2 left =>
    obtain ⟨left', rfl⟩ := List.length_eq_one_iff.mp hlen.symm
    simp only [pairs, List.cons.injEq, Prod.mk.injEq, and_true, and_self] at h
    rw [h]
  | case3 left right rest ih =>
    obtain ⟨left', more, rfl⟩ := List.exists_cons_of_length_eq_add_one hlen.symm
    obtain ⟨right', rest', rfl⟩ := List.exists_cons_of_length_eq_add_one (Nat.succ.inj hlen.symm)
    simp only [pairs, List.cons.injEq, Prod.mk.injEq] at h
    obtain ⟨⟨rfl, rfl⟩, hrest⟩ := h
    rw [ih (by simpa using hlen) hrest]

/-- Lists of pairs that hash alike are equal where no two of their pairs collide. -/
theorem map_hash_inj {ps qs : List (α × α)}
    (hmap : (ps.map fun p => h p.1 p.2) = qs.map fun q => h q.1 q.2)
    (hfree : ∀ p ∈ ps, ∀ q ∈ qs, h p.1 p.2 = h q.1 q.2 → p = q) : ps = qs := by
  induction ps generalizing qs with
  | nil => exact (List.map_eq_nil_iff.mp hmap.symm).symm
  | cons p ps ih =>
    cases qs with
    | nil => cases hmap
    | cons q qs =>
      rw [List.map_cons, List.map_cons, List.cons.injEq] at hmap
      obtain rfl := hfree p List.mem_cons_self q List.mem_cons_self hmap.1
      rw [ih hmap.2 fun p hp q hq => hfree p (List.mem_cons_of_mem _ hp) q (List.mem_cons_of_mem _ hq)]

/-- Two towers of one width with one root have the same leaves, where no pair of one collides with
a pair of the other. -/
theorem Tower.leaves_inj {level level' : List α} {above above' : List (List α)}
    (ht : Tower h (level :: above)) (ht' : Tower h (level' :: above'))
    (hlen : level.length = level'.length)
    (hroot : (level :: above).getLast? = (level' :: above').getLast?)
    (hfree : ∀ p ∈ hashed (level :: above), ∀ q ∈ hashed (level' :: above'),
      h p.1 p.2 = h q.1 q.2 → p = q) : level = level' := by
  generalize hlevels : level :: above = levels at ht hroot hfree
  induction ht generalizing level above level' above' with
  | root x =>
    cases hlevels
    cases ht' with
    | root y => simpa using hroot
    | grow level' above' hlevel' htower' =>
      rw [List.length_singleton] at hlen
      omega
  | grow bottom tail hbottom htower ih =>
    cases hlevels
    cases ht' with
    | root y =>
      rw [List.length_singleton] at hlen
      omega
    | grow level' above' hlevel' htower' =>
      have hparents : parents h bottom = parents h level' := by
        refine ih htower' ?_ rfl ?_ ?_
        · rw [length_parents, length_parents, hlen]
        · simpa only [List.getLast?_cons_cons] using hroot
        · intro p hp q hq
          exact hfree p (List.mem_append_right _ hp) q (List.mem_append_right _ hq)
      refine pairs_inj hlen (map_hash_inj h hparents ?_)
      intro p hp q hq
      exact hfree p (List.mem_append_left _ hp) q (List.mem_append_left _ hq)

/-! ### Trees of different widths -/

/-- The levels above the leaves are determined by them. -/
theorem Tower.unique {level : List α} {above above' : List (List α)}
    (ht : Tower h (level :: above)) (ht' : Tower h (level :: above')) : above = above' := by
  generalize hlevels : level :: above = levels at ht
  induction ht generalizing level above above' with
  | root x =>
    cases hlevels
    cases ht' with
    | root y => rfl
    | grow level above' hlevel htower => simp at hlevel
  | grow bottom tail hbottom htower ih =>
    cases hlevels
    cases ht' with
    | root y => simp at hbottom
    | grow level above' hlevel htower' => rw [ih htower' rfl]

end Merkle
