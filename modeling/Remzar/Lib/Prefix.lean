import Remzar.Lib.Postcard

/-! Prefix decoders: what is left after a value is the end of the input. -/
namespace Postcard
open Text

/-- The decoder leaves the end of its input behind. -/
def Codec.LeavesSuffix {α : Type} (c : Codec α) : Prop :=
  ∀ ⦃input a rest⦄, c.dec input = .ok (a, rest) → rest <:+ input

theorem decodeVarint_rest {lastMax fuel n : ℕ} {input rest : List UInt8}
    (h : decodeVarint lastMax fuel input = .ok (n, rest)) :
    rest <:+ input ∧ rest.length < input.length := by
  induction fuel generalizing input n rest with
  | zero => cases h
  | succ fuel ih =>
    cases input with
    | nil => cases h
    | cons b bs =>
      rw [decodeVarint] at h
      split at h
      · split at h
        · cases h
        · cases h
          exact ⟨List.suffix_cons b rest, Nat.lt_succ_self _⟩
      · cases hmore : decodeVarint lastMax fuel bs with
        | error e =>
          rw [hmore] at h
          cases h
        | ok r =>
          rw [hmore] at h
          cases h
          obtain ⟨hsuffix, hlen⟩ := ih hmore
          exact ⟨hsuffix.trans (List.suffix_cons b bs), Nat.lt_succ_of_lt hlen⟩

theorem u64_rest {n : UInt64} {input rest : List UInt8} (h : u64.dec input = .ok (n, rest)) :
    rest <:+ input ∧ rest.length < input.length := by
  dsimp only [u64] at h
  cases hread : decodeVarint 1 10 input with
  | error e =>
    rw [hread] at h
    cases h
  | ok r =>
    rw [hread] at h
    cases h
    exact decodeVarint_rest hread

theorem u64_leavesSuffix : u64.LeavesSuffix := fun _ _ _ h => (u64_rest h).1

theorem usize_leavesSuffix : usize.LeavesSuffix := fun _ _ _ h => (decodeVarint_rest h).1

theorem u128_leavesSuffix : u128.LeavesSuffix := fun _ _ _ h => (decodeVarint_rest h).1

theorem readBytes_rest {n : ℕ} {input a rest : List UInt8}
    (h : readBytes n input = .ok (a, rest)) : rest <:+ input := by
  rw [readBytes] at h
  split at h
  · cases h
    exact List.drop_suffix n input
  · cases h

theorem array_leavesSuffix (n : ℕ) : (array n).LeavesSuffix := by
  intro input a rest h
  simp only [array] at h
  split at h
  · cases h
    exact List.drop_suffix n input
  · cases h

theorem bytes_leavesSuffix : bytes.LeavesSuffix := by
  intro input a rest h
  dsimp only [bytes] at h
  cases hlen : usize.dec input with
  | error e =>
    rw [hlen] at h
    cases h
  | ok r =>
    rw [hlen] at h
    exact (readBytes_rest h).trans (usize_leavesSuffix hlen)

theorem string_leavesSuffix : string.LeavesSuffix := by
  intro input s rest h
  simp only [string] at h
  cases hbytes : bytes.dec input with
  | error e =>
    rw [hbytes] at h
    cases h
  | ok r =>
    obtain ⟨a, more⟩ := r
    rw [hbytes] at h
    dsimp only [bind, Except.bind] at h
    split at h
    · cases h
      exact bytes_leavesSuffix hbytes
    · cases h

section Composites
variable {α β : Type} {c : Codec α} {d : Codec β}

theorem pair_dec {input rest : List UInt8} {p : α × β} (h : (pair c d).dec input = .ok (p, rest)) :
    ∃ more, c.dec input = .ok (p.1, more) ∧ d.dec more = .ok (p.2, rest) := by
  simp only [pair] at h
  cases hc : c.dec input with
  | error e =>
    rw [hc] at h
    cases h
  | ok r =>
    obtain ⟨a, more⟩ := r
    rw [hc] at h
    dsimp only [bind, Except.bind] at h
    cases hd : d.dec more with
    | error e =>
      rw [hd] at h
      cases h
    | ok r' =>
      rw [hd] at h
      cases h
      exact ⟨more, rfl, hd⟩

theorem pair_leavesSuffix (hc : c.LeavesSuffix) (hd : d.LeavesSuffix) :
    (pair c d).LeavesSuffix := by
  intro input p rest h
  obtain ⟨more, hfst, hsnd⟩ := pair_dec h
  exact (hd hsnd).trans (hc hfst)

theorem record_dec {fields : β → α} {build : α → β} {hbuild : ∀ b, build (fields b) = b}
    {input rest : List UInt8} {b : β} (h : (record c fields build hbuild).dec input = .ok (b, rest)) :
    ∃ a, c.dec input = .ok (a, rest) ∧ build a = b := by
  simp only [record] at h
  cases hc : c.dec input with
  | error e =>
    rw [hc] at h
    cases h
  | ok r =>
    rw [hc] at h
    cases h
    exact ⟨r.1, rfl, rfl⟩

theorem record_leavesSuffix {fields : β → α} {build : α → β} {hbuild : ∀ b, build (fields b) = b}
    (hc : c.LeavesSuffix) : (record c fields build hbuild).LeavesSuffix := by
  intro input b rest h
  obtain ⟨a, ha, -⟩ := record_dec h
  exact hc ha

theorem option_leavesSuffix (hc : c.LeavesSuffix) : (option c).LeavesSuffix := by
  intro input a rest h
  cases input with
  | nil => cases h
  | cons b bs =>
    dsimp only [option] at h
    split at h
    · cases h
      exact List.suffix_cons b rest
    · split at h
      · cases hx : c.dec bs with
        | error e =>
          rw [hx] at h
          cases h
        | ok r =>
          rw [hx] at h
          cases h
          exact (hc hx).trans (List.suffix_cons b bs)
      · cases h

end Composites

end Postcard
