import Mathlib.Data.List.DropRight
import Mathlib.Data.Finset.Card

/-! The last insertions of a history. What is among the last ones is not inserted again, so they
differ from each other, and a queue that gives up its oldest entries holds just them. -/
namespace Window

variable {α : Type} {n m : ℕ} {history : List α} {a : α}

theorem rtake_of_length_le (h : history.length ≤ n) : history.rtake n = history := by
  rw [List.rtake, Nat.sub_eq_zero_of_le h, List.drop_zero]

theorem rtake_cons_of_le (h : n ≤ history.length) :
    (a :: history).rtake n = history.rtake n := by
  rw [List.rtake, List.rtake, List.length_cons, Nat.succ_sub h, List.drop_succ_cons]

theorem rtake_rtake (h : m ≤ n) : (history.rtake n).rtake m = history.rtake m := by
  rw [List.rtake, List.rtake, List.rtake, List.drop_drop, List.length_drop]
  congr 1
  omega

variable [DecidableEq α]

/-- Insert unless it is among the last `n`. -/
def note (n : ℕ) (history : List α) (a : α) : List α :=
  if a ∈ history.rtake n then history else history ++ [a]

theorem rtake_note_of_not_mem (h : a ∉ history.rtake (n+1)) :
    (note (n+1) history a).rtake (n+1) = history.rtake n ++ [a] := by
  rw [note, if_neg h, List.rtake_concat_succ]

theorem nodup_note (h : (history.rtake (n+1)).Nodup) (a : α) :
    ((note (n+1) history a).rtake (n+1)).Nodup := by
  by_cases ha : a ∈ history.rtake (n+1)
  · rw [note, if_pos ha]
    exact h
  · have hsub : (history.rtake n).Sublist (history.rtake (n+1)) := by
      rw [← rtake_rtake (Nat.le_succ n)]
      exact List.drop_sublist _ _
    rw [rtake_note_of_not_mem ha, List.nodup_append]
    refine ⟨h.sublist hsub, List.nodup_singleton a, ?_⟩
    rintro b hb c hc rfl
    rw [List.mem_singleton] at hc
    exact ha (hc ▸ hsub.subset hb)

/-! ### A queue with the set of its entries -/

/-- Give up the oldest entries until there are fewer than `n`. -/
def evict (n : ℕ) : Finset α → List α → Finset α × List α
  | seen, [] => if n ≤ seen.card then (∅, []) else (seen, [])
  | seen, oldest :: order =>
    if n ≤ seen.card then evict n (seen.erase oldest) order else (seen, oldest :: order)

theorem evict_eq {order : List α} (h : order.Nodup) :
    evict (n+1) order.toFinset order = ((order.rtake n).toFinset, order.rtake n) := by
  induction order with
  | nil =>
    rw [evict, List.toFinset_nil, Finset.card_empty, if_neg (Nat.not_succ_le_zero n), List.rtake_nil]
    rfl
  | cons oldest order ih =>
    obtain ⟨hold, hrest⟩ := List.nodup_cons.mp h
    rw [evict, List.toFinset_card_of_nodup h, List.length_cons]
    split
    · rename_i hfull
      have herase : (oldest :: order).toFinset.erase oldest = order.toFinset := by
        rw [List.toFinset_cons, Finset.erase_insert (by rwa [List.mem_toFinset])]
      rw [herase, ih hrest, rtake_cons_of_le (Nat.le_of_succ_le_succ hfull)]
    · rename_i hroom
      rw [rtake_of_length_le (by rw [List.length_cons]; omega)]

end Window
