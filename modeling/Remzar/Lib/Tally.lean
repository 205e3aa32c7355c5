import Mathlib.Data.Finset.Card

/-! Tallies: how many members of a set hold each key. A counter that is raised and lowered as
members come and go is such a tally for as long as a member leaves under the key it came with. -/
namespace Tally

variable {α κ : Type} [DecidableEq κ]

/-- The number of members that hold each key. -/
def tally (members : Finset α) (key : α → Option κ) (k : κ) : ℕ :=
  (members.filter fun a => key a = some k).card

variable {members : Finset α} {key key' : α → Option κ} {a : α} {k : κ}

theorem tally_empty : tally ∅ key = fun _ => 0 := by
  funext k
  rw [tally, Finset.filter_empty, Finset.card_empty]

theorem tally_congr (h : ∀ a ∈ members, key a = key' a) : tally members key = tally members key' := by
  funext k
  unfold tally
  rw [Finset.filter_congr fun a ha => by rw [h a ha]]

variable [DecidableEq α]

theorem tally_insert (ha : a ∉ members) (hk : key a = some k) :
    tally (insert a members) key = Function.update (tally members key) k (tally members key k+1) := by
  funext k'
  unfold tally
  rw [Finset.filter_insert]
  by_cases hkk : k' = k
  · subst hkk
    rw [if_pos hk, Function.update_self, Finset.card_insert_of_notMem]
    exact fun hin => ha (Finset.mem_filter.mp hin).1
  · rw [if_neg (fun h => hkk (Option.some_inj.mp (h.symm.trans hk))), Function.update_of_ne hkk]

theorem tally_erase (ha : a ∈ members) (hk : key a = some k) :
    tally (members.erase a) key = Function.update (tally members key) k (tally members key k-1) := by
  have hback := tally_insert (Finset.notMem_erase a members) hk
  rw [Finset.insert_erase ha] at hback
  funext k'
  by_cases hkk : k' = k
  · subst hkk
    rw [Function.update_self, hback, Function.update_self, Nat.add_sub_cancel]
  · rw [Function.update_of_ne hkk, hback, Function.update_of_ne hkk]

end Tally
