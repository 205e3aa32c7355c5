import Mathlib
import Remzar.Helper
import Remzar.Lib.Blake3

/-! Canonical wallet ids: canonicalising a wallet id twice is canonicalising it once. -/
namespace Remzar
open Fallible Text

/-! ### Lowercase -/

theorem lower_of_upper {c : Char} (h : 'A' ≤ c ∧ c ≤ 'Z') :
    ¬('A' ≤ Char.ofNat (c.toNat+32) ∧ Char.ofNat (c.toNat+32) ≤ 'Z') := by
  obtain ⟨hA, hZ⟩ := h
  have hA' : 65 ≤ c.toNat := hA
  have hZ' : c.toNat ≤ 90 := hZ
  generalize c.toNat = n at hA' hZ'
  interval_cases n <;> decide

theorem toAsciiLowercase_idem (s : String) :
    toAsciiLowercase (toAsciiLowercase s) = toAsciiLowercase s := by
  rw [toAsciiLowercase, toAsciiLowercase, chars_eq, String.toList_ofList, List.map_map]
  apply congrArg String.ofList
  apply List.map_congr_left
  intro c _
  simp only [Function.comp_apply]
  by_cases h : 'A' ≤ c ∧ c ≤ 'Z'
  · rw [if_pos h, if_neg (lower_of_upper h)]
  · rw [if_neg h, if_neg h]

theorem utf8Size_lower {c : Char} (h : 'A' ≤ c ∧ c ≤ 'Z') :
    (Char.ofNat (c.toNat+32)).utf8Size = c.utf8Size := by
  obtain ⟨hA, hZ⟩ := h
  have hA' : 65 ≤ c.toNat := hA
  have hZ' : c.toNat ≤ 90 := hZ
  have hc : Char.ofNat c.toNat = c := Char.ofNat_toNat c
  rw [← hc]
  generalize c.toNat = n at hA' hZ'
  interval_cases n <;> decide

theorem byteLen_eq (s : String) : byteLen s = (s.toList.map Char.utf8Size).sum := by
  rw [byteLen, utf8_eq, List.length_flatMap]
  exact congrArg List.sum (List.map_congr_left fun c _ => String.length_utf8EncodeChar c)

theorem byteLen_toAsciiLowercase (s : String) : byteLen (toAsciiLowercase s) = byteLen s := by
  rw [byteLen_eq, byteLen_eq, toAsciiLowercase, String.toList_ofList, chars_eq, List.map_map]
  apply congrArg List.sum
  apply List.map_congr_left
  intro c _
  simp only [Function.comp_apply]
  by_cases h : 'A' ≤ c ∧ c ≤ 'Z'
  · rw [if_pos h, utf8Size_lower h]
  · rw [if_neg h]

/-! ### Trimming -/

theorem trimChars_of_forall {cs : List Char} (h : ∀ c ∈ cs, isWhitespace c = false) :
    trimChars cs = cs := by
  have hdrop : ∀ ds : List Char, (∀ c ∈ ds, isWhitespace c = false) →
      ds.dropWhile isWhitespace = ds := by
    intro ds hds
    cases ds with
    | nil => rfl
    | cons d ds => rw [List.dropWhile_cons_of_neg (by simp [hds d])]
  rw [trimChars, dropEndWhile, hdrop cs h, hdrop cs.reverse (by simpa using h), List.reverse_reverse]

theorem trim_of_forall {s : String} (h : ∀ c ∈ s.toList, isWhitespace c = false) : trim s = s := by
  rw [trim, chars_eq, trimChars_of_forall h, String.ofList_toList]

theorem dropWhile_idem {α : Type} (p : α → Bool) (xs : List α) :
    (xs.dropWhile p).dropWhile p = xs.dropWhile p := by
  induction xs with
  | nil => rfl
  | cons x xs ih =>
    by_cases hx : p x = true
    · rw [List.dropWhile_cons_of_pos hx, ih]
    · rw [List.dropWhile_cons_of_neg hx, List.dropWhile_cons_of_neg hx]

/-- Nothing is left to trim at the front once the end has been trimmed. -/
theorem dropWhile_dropEndWhile {p : Char → Bool} {cs : List Char} (h : cs.dropWhile p = cs) :
    (dropEndWhile p cs).dropWhile p = dropEndWhile p cs := by
  cases hcs : dropEndWhile p cs with
  | nil => rfl
  | cons c rest =>
    have hpre : dropEndWhile p cs <+: cs := by
      rw [dropEndWhile, ← List.reverse_suffix, List.reverse_reverse]
      exact List.dropWhile_suffix p
    rw [hcs] at hpre
    obtain ⟨tail, htail⟩ := hpre
    rw [← htail] at h
    by_cases hc : p c = true
    · have hlen := congrArg List.length h
      have hsuffix := (List.dropWhile_suffix (l := rest ++ tail) p).length_le
      rw [List.cons_append, List.dropWhile_cons_of_pos hc, List.length_cons] at hlen
      omega
    · rw [List.dropWhile_cons_of_neg hc]

theorem trim_idem (s : String) : trim (trim s) = trim s := by
  have hfront := dropWhile_dropEndWhile (dropWhile_idem isWhitespace (chars s))
  rw [trim, trim, chars_eq (String.ofList _), String.toList_ofList]
  apply congrArg String.ofList
  rw [trimChars, trimChars, hfront]
  simp only [dropEndWhile, List.reverse_reverse, dropWhile_idem]

theorem mem_trim {s : String} {c : Char} (h : c ∈ (trim s).toList) : c ∈ s.toList := by
  rw [trim, String.toList_ofList, chars_eq, trimChars, dropEndWhile, List.mem_reverse] at h
  have hmid := (List.dropWhile_sublist isWhitespace).mem h
  exact (List.dropWhile_sublist isWhitespace).mem (List.mem_reverse.mp hmid)

theorem utf8_trim_subset {s : String} {b : UInt8} (h : b ∈ utf8 (trim s)) : b ∈ utf8 s := by
  rw [utf8_eq, List.mem_flatMap] at h ⊢
  obtain ⟨c, hc, hb⟩ := h
  exact ⟨c, mem_trim hc, hb⟩

/-- A byte below 0x80 of a text is a character of its own. -/
theorem mem_utf8_of_ascii {s : String} (h : ∀ b ∈ utf8 s, b < 0x80) {c : Char} (hc : c ∈ s.toList) :
    ∃ b ∈ utf8 s, Char.ofNat b.toNat = c := by
  have hsub : ∀ b ∈ String.utf8EncodeChar c, b ∈ utf8 s := by
    intro b hb
    rw [utf8_eq]
    exact List.mem_flatMap_of_mem hc hb
  rcases utf8EncodeChar_cases c with ⟨b, hb, -, hchar⟩ | ⟨b, more, hb, hge⟩
  · exact ⟨b, hsub b (by simp [hb]), hchar⟩
  · exact absurd (h b (hsub b (by simp [hb]))) hge

/-! ### Wallet ids -/

theorem isLowerHex_plain {b : UInt8} (h : isLowerHex b = true) :
    b < 0x80 ∧ isWhitespace (Char.ofNat b.toNat) = false := by
  have hall : ∀ n : Fin 256, isLowerHex (UInt8.ofNat n) = true →
      UInt8.ofNat n < 0x80 ∧ isWhitespace (Char.ofNat (UInt8.ofNat n).toNat) = false := by
    decide +kernel
  have hb := hall ⟨b.toNat, b.toNat_lt⟩
  rw [UInt8.ofNat_toNat] at hb
  exact hb h

/-- What `canon_wallet_id_checked` returns. -/
structure CanonicalWallet (wallet : String) : Prop where
  lower : toAsciiLowercase wallet = wallet
  len : byteLen wallet = remzarWalletLen
  head : (utf8 wallet).head? = some 114
  hex : (utf8 wallet).tail.all isLowerHex = true

theorem canonWalletIdChecked_canonical {id wallet : String}
    (h : canonWalletIdChecked id = .ok wallet) : CanonicalWallet wallet := by
  simp only [canonWalletIdChecked, bind_eq_ok_iff, pure_eq_ok_iff, rejectIf_eq_ok_iff, not_not] at h
  obtain ⟨_, hlen, _, hhead, _, hhex, rfl⟩ := h
  exact ⟨toAsciiLowercase_idem _, (byteLen_toAsciiLowercase _).trans hlen, hhead, hhex⟩

namespace CanonicalWallet
variable {wallet : String}

theorem plain (h : CanonicalWallet wallet) :
    ∀ b ∈ utf8 wallet, b < 0x80 ∧ isWhitespace (Char.ofNat b.toNat) = false := by
  intro b hb
  have hsplit : utf8 wallet = 114 :: (utf8 wallet).tail :=
    List.eq_cons_of_mem_head? (Option.mem_def.mpr h.head)
  rw [hsplit, List.mem_cons] at hb
  rcases hb with rfl | hb
  · decide
  · exact isLowerHex_plain (List.all_eq_true.mp h.hex b hb)

theorem trim_eq (h : CanonicalWallet wallet) : trim wallet = wallet := by
  apply trim_of_forall
  intro c hc
  obtain ⟨b, hb, rfl⟩ := mem_utf8_of_ascii (fun b hb => (h.plain b hb).1) hc
  exact (h.plain b hb).2

theorem checked (h : CanonicalWallet wallet) : canonWalletIdChecked wallet = .ok wallet := by
  rw [canonWalletIdChecked]
  simp only [h.trim_eq, h.lower]
  rw [rejectIf_of_not _ (not_not_intro h.len), ok_bind, rejectIf_of_not _ (not_not_intro h.head),
    ok_bind, rejectIf_of_not _ (not_not_intro h.hex), ok_bind]
  rfl

end CanonicalWallet

theorem canonWalletIdChecked_idem {id wallet : String} (h : canonWalletIdChecked id = .ok wallet) :
    canonWalletIdChecked wallet = .ok wallet :=
  (canonWalletIdChecked_canonical h).checked

/-! ### Hexadecimal digits -/

/-- The characters `hex::encode` writes. -/
theorem hexDigit_plain (n : Fin 16) : isWhitespace (Blake3.hexDigit n) = false ∧
    ¬('A' ≤ Blake3.hexDigit n ∧ Blake3.hexDigit n ≤ 'Z') ∧
      ∃ b, String.utf8EncodeChar (Blake3.hexDigit n) = [b] ∧ isLowerHex b = true := by
  revert n
  decide +kernel

theorem mem_toHex {bytes : List UInt8} {c : Char} (h : c ∈ (Blake3.toHex bytes).toList) :
    ∃ n : Fin 16, c = Blake3.hexDigit n := by
  rw [Blake3.toHex, String.toList_ofList, List.mem_flatMap] at h
  obtain ⟨b, -, hc⟩ := h
  have hlt := b.toNat_lt
  rcases List.mem_cons.mp hc with rfl | hc
  · exact ⟨⟨b.toNat/16, by omega⟩, rfl⟩
  · obtain rfl := List.mem_singleton.mp hc
    exact ⟨⟨b.toNat%16, by omega⟩, rfl⟩

theorem length_toHex (bytes : List UInt8) : byteLen (Blake3.toHex bytes) = 2*bytes.length := by
  have hone : ∀ c ∈ (Blake3.toHex bytes).toList, (String.utf8EncodeChar c).length = 1 := by
    intro c hc
    obtain ⟨n, rfl⟩ := mem_toHex hc
    obtain ⟨-, -, b, hb, -⟩ := hexDigit_plain n
    rw [hb]
    rfl
  rw [byteLen, utf8_eq, List.length_flatMap, List.map_congr_left hone, List.map_const',
    List.sum_replicate, smul_eq_mul, mul_one, Blake3.toHex, String.toList_ofList,
    List.length_flatMap]
  simp [Nat.mul_comm]

end Remzar
