import Mathlib.Data.List.Range
import Mathlib.Data.Nat.ModEq
import Mathlib.Tactic.Common
import Mathlib.Algebra.Order.Floor.Div

/-! A list cut into pieces of one size, the last of them shorter. -/
namespace Chunks

variable {α : Type}

def count (size len : ℕ) : ℕ := (len + size - 1)/size

def chunk (size : ℕ) (xs : List α) (i : ℕ) : List α := (xs.drop (size*i)).take size

/-- `slice::chunks`. -/
def chunks (size : ℕ) (xs : List α) : List (List α) :=
  (List.range (count size xs.length)).map (chunk size xs)

@[simp] theorem length_chunks (size : ℕ) (xs : List α) :
    (chunks size xs).length = count size xs.length := by
  rw [chunks, List.length_map, List.length_range]

theorem getElem_chunks {size : ℕ} {xs : List α} {i : ℕ} (h : i < (chunks size xs).length) :
    (chunks size xs)[i] = chunk size xs i := by
  simp only [chunks, List.getElem_map, List.getElem_range]

theorem flatten_chunk (size : ℕ) (xs : List α) (n : ℕ) :
    ((List.range n).map (chunk size xs)).flatten = xs.take (size*n) := by
  induction n with
  | zero => simp
  | succ n ih =>
    rw [List.range_succ, List.map_append, List.flatten_append, ih, Nat.mul_succ, List.take_add]
    simp [chunk]

variable {size len : ℕ}

theorem le_count (hsize : 0 < size) : len ≤ size*count size len := by
  have hdiv := Nat.div_add_mod (len + size - 1) size
  have hmod := Nat.mod_lt (len + size - 1) hsize
  rw [count]
  omega

theorem count_pos (hsize : 0 < size) (hlen : 0 < len) : 0 < count size len :=
  Nat.div_pos (by omega) hsize

theorem count_le {m : ℕ} (hsize : 0 < size) (h : len ≤ size*m) : count size len ≤ m := by
  rw [count]
  apply Nat.le_of_lt_succ
  rw [Nat.div_lt_iff_lt_mul hsize, Nat.succ_mul, Nat.mul_comm m size]
  omega

theorem flatten_chunks (hsize : 0 < size) (xs : List α) : (chunks size xs).flatten = xs := by
  rw [chunks, flatten_chunk, List.take_of_length_le (le_count hsize)]

/-- All pieces but the last are full. -/
theorem length_chunk_of_lt (hsize : 0 < size) (xs : List α) {i : ℕ}
    (hi : i + 1 < count size xs.length) : (chunk size xs i).length = size := by
  have hfull : size*(i+1) ≤ xs.length := by
    by_contra hlt
    have hle : count size xs.length ≤ i + 1 := count_le hsize (by omega)
    omega
  rw [chunk, List.length_take, List.length_drop]
  rw [Nat.mul_succ] at hfull
  omega

/-- The last piece has the rest, or is full when there is none. -/
theorem length_chunk_last (hsize : 0 < size) (xs : List α) {i : ℕ}
    (hi : i + 1 = count size xs.length) :
    (chunk size xs i).length = if xs.length%size = 0 then size else xs.length%size := by
  have hle : xs.length ≤ size*count size xs.length := le_count hsize
  rw [← hi, Nat.mul_succ] at hle
  have hlt : size*i < xs.length := by
    by_contra hge
    have hsmall : count size xs.length ≤ i := count_le hsize (by omega)
    omega
  rw [chunk, List.length_take, List.length_drop]
  obtain ⟨rest, hrest⟩ : ∃ rest, xs.length = size*i + rest := ⟨xs.length - size*i, by omega⟩
  have hmod : xs.length%size = rest%size := by rw [hrest, Nat.mul_add_mod]
  rw [hmod]
  rcases Nat.lt_or_ge rest size with hsmall | hbig
  · rw [Nat.mod_eq_of_lt hsmall, if_neg (by omega)]
    omega
  · have hexact : rest = size := by omega
    rw [hexact, Nat.mod_self, if_pos rfl]
    omega

/-- Pieces of one size are read back from their concatenation. -/
theorem flatMap_inj {β : Type} {f : β → List α} {n : ℕ} (hn : 0 < n) {as bs : List β}
    (has : ∀ a ∈ as, (f a).length = n) (hbs : ∀ b ∈ bs, (f b).length = n)
    (hf : Function.Injective f) (h : as.flatMap f = bs.flatMap f) : as = bs := by
  induction as generalizing bs with
  | nil =>
    cases bs with
    | nil => rfl
    | cons b bs =>
      have hlen := congrArg List.length h
      rw [List.flatMap_nil, List.flatMap_cons, List.length_append, hbs b List.mem_cons_self,
        List.length_nil] at hlen
      omega
  | cons a as ih =>
    cases bs with
    | nil =>
      have hlen := congrArg List.length h
      rw [List.flatMap_nil, List.flatMap_cons, List.length_append, has a List.mem_cons_self,
        List.length_nil] at hlen
      omega
    | cons b bs =>
      rw [List.flatMap_cons, List.flatMap_cons] at h
      obtain ⟨hhead, hrest⟩ := List.append_inj h
        ((has a List.mem_cons_self).trans (hbs b List.mem_cons_self).symm)
      rw [hf hhead, ih (fun x hx => has x (List.mem_cons_of_mem a hx))
        (fun x hx => hbs x (List.mem_cons_of_mem b hx)) hrest]

end Chunks
