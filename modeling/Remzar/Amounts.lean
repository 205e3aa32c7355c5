import Mathlib
import Remzar.Lib.Decimal
import Remzar.Invoices

/-! Amounts as text: reading what a user types into micro-units, and writing micro-units out. -/
namespace Remzar
open Checked Text Decimal

def unitScale : UInt64 := 100000000
def maxAmountLen : ℕ := 64

/-- At most one point, or the whole text and nothing after it. -/
def splitPoint (s : String) : Option (String × String) :=
  match splitOnce '.' s with
  | some (w, f) => if containsChar '.' f then none else some (w, f)
  | none => some (s, "")

/-- The digits before and after the point; an empty whole part stands for zero. -/
def amountParts (s : String) : Option (String × String) := do
  guard (s.isEmpty = false ∧ byteLen s ≤ maxAmountLen)
  guard ((utf8 s).head? ≠ some 45 ∧ (utf8 s).head? ≠ some 43)
  guard ((utf8 s).any isAsciiWhitespace = false)
  guard (containsChar 'e' s = false ∧ containsChar 'E' s = false)
  let (wholePart, fracPart) ← splitPoint s
  guard (wholePart.isEmpty = false ∨ fracPart.isEmpty = false)
  let wholeStr := if wholePart.isEmpty then "0" else wholePart
  guard ((utf8 wholeStr).all isAsciiDigit)
  guard ((utf8 fracPart).all isAsciiDigit)
  guard (byteLen fracPart ≤ 8)
  return (wholeStr, fracPart)

def scaleAmount (wholeStr fracPart : String) : Option UInt64 := do
  let whole ← parseU64 wholeStr
  let frac ← (utf8 fracPart).foldlM pushDigit 0
  let frac ← pad (8-byteLen fracPart) frac
  let wholeScaled ← checkedMul whole unitScale
  checkedAdd wholeScaled frac

/-- Everything that cannot be read counts as nothing. -/
def toMicroUnitsStr (s : String) : UInt64 :=
  ((amountParts (trim s)).bind fun parts => scaleAmount parts.1 parts.2).getD 0

/-- Digits, with a point before, between or after them. -/
structure Spells (text whole frac : List Char) : Prop where
  text : text = whole ∧ frac = [] ∨ text = whole ++ '.' :: frac
  digit : whole ≠ [] ∨ frac ≠ []
  whole_digits : whole.all Char.isDigit = true
  frac_digits : frac.all Char.isDigit = true

def decimalValue (whole frac : List Char) : ℚ :=
  Nat.ofDigitChars 10 whole 0+Nat.ofDigitChars 10 frac 0/10^frac.length

/-- What a text stands for: an amount that fits, in a text that is not too long. -/
structure IsAmount (s : String) (whole frac : List Char) : Prop where
  spells : Spells (trim s).toList whole frac
  places : frac.length ≤ 8
  len : byteLen (trim s) ≤ 64
  fits : 10^8*decimalValue whole frac < 2^64

namespace Spells
variable {text whole frac : List Char}

theorem chars (h : Spells text whole frac) : ∀ c ∈ text, c.isDigit = true ∨ c = '.' := by
  intro c hc
  have hwhole := List.all_eq_true.mp h.whole_digits
  have hfrac := List.all_eq_true.mp h.frac_digits
  rcases h.text with ⟨rfl, -⟩ | rfl
  · exact .inl (hwhole c hc)
  · rw [List.mem_append, List.mem_cons] at hc
    rcases hc with hc | rfl | hc
    · exact .inl (hwhole c hc)
    · exact .inr rfl
    · exact .inl (hfrac c hc)

theorem not_mem {c : Char} (h : Spells text whole frac) (hdigit : c.isDigit = false)
    (hpoint : c ≠ '.') : c ∉ text := by
  intro hc
  rcases h.chars c hc with hd | hp
  · rw [hdigit] at hd
    cases hd
  · exact hpoint hp

theorem bytes {s : String} (h : Spells s.toList whole frac) :
    ∀ b ∈ utf8 s, 46 ≤ b.toNat ∧ b.toNat ≤ 57 := by
  intro b hb
  rw [utf8_eq, List.mem_flatMap] at hb
  obtain ⟨c, hc, hb⟩ := hb
  rcases h.chars c hc with hd | rfl
  · obtain ⟨hlow, hhigh⟩ := isDigit_iff.mp hd
    rw [utf8EncodeChar_digit hd, List.mem_singleton] at hb
    rw [hb, UInt8.toNat_ofNat', Nat.mod_eq_of_lt (by omega)]
    omega
  · have hpoint : String.utf8EncodeChar '.' = [46] := by decide
    rw [hpoint, List.mem_singleton] at hb
    rw [hb]
    decide

end Spells

theorem not_mem_digits {c : Char} {cs : List Char} (hc : c.isDigit = false)
    (h : cs.all Char.isDigit = true) : c ∉ cs := by
  intro hmem
  rw [List.all_eq_true.mp h c hmem] at hc
  cases hc

theorem byteLen_digits {cs : List Char} (h : cs.all Char.isDigit = true) :
    byteLen (String.ofList cs) = cs.length := by
  rw [byteLen, utf8_eq, String.toList_ofList, flatMap_digits h, List.length_map]

/-- The whole part as it is read. -/
def wholeText (whole : List Char) : List Char := if whole = [] then ['0'] else whole

theorem wholeText_digits {whole : List Char} (h : whole.all Char.isDigit = true) :
    (wholeText whole).all Char.isDigit = true := by
  rw [wholeText]
  split
  · rfl
  · exact h

theorem ofDigitChars_wholeText (whole : List Char) :
    Nat.ofDigitChars 10 (wholeText whole) 0 = Nat.ofDigitChars 10 whole 0 := by
  rw [wholeText]
  split
  · rename_i hempty
    rw [hempty]
    rfl
  · rfl

theorem splitPoint_eq_some_iff {s w f : String} :
    splitPoint s = some (w, f) ↔ '.' ∉ w.toList ∧ '.' ∉ f.toList ∧
      (s = w ∧ f = "" ∨ s.toList = w.toList ++ '.' :: f.toList) := by
  rw [splitPoint]
  cases hsplit : splitOnce '.' s with
  | none =>
    have hpoint : '.' ∉ s.toList := by
      intro hmem
      obtain ⟨before, after, hs, hbefore⟩ := List.eq_append_cons_of_mem hmem
      have hsome : splitOnce '.' s = some (String.ofList before, String.ofList after) := by
        rw [splitOnce_eq_some_iff, String.toList_ofList, String.toList_ofList]
        exact ⟨hbefore, hs⟩
      rw [hsplit] at hsome
      cases hsome
    constructor
    · intro h
      cases h
      exact ⟨hpoint, List.not_mem_nil, .inl ⟨rfl, rfl⟩⟩
    · rintro ⟨-, -, ⟨rfl, rfl⟩ | hs⟩
      · rfl
      · exact absurd (hs ▸ List.mem_append_right _ List.mem_cons_self) hpoint
  | some parts =>
    obtain ⟨w', f'⟩ := parts
    obtain ⟨hw', hs'⟩ := splitOnce_eq_some_iff.mp hsplit
    simp only
    constructor
    · intro h
      split at h
      · cases h
      · rename_i hpoint
        cases h
        rw [containsChar_iff] at hpoint
        exact ⟨hw', hpoint, .inr hs'⟩
    · rintro ⟨hw, hf, ⟨rfl, -⟩ | hs⟩
      · exact absurd (hs' ▸ List.mem_append_right _ List.mem_cons_self) hw
      · have hsome := splitOnce_eq_some_iff.mpr ⟨hw, hs⟩
        rw [hsplit] at hsome
        cases hsome
        rw [if_neg (by rw [containsChar_iff]; exact hf)]

theorem isEmpty_eq (s : String) : s.isEmpty = s.toList.isEmpty := by
  rw [Bool.eq_iff_iff, String.isEmpty_iff, List.isEmpty_iff, String.toList_eq_nil_iff]

theorem isEmpty_ofList (cs : List Char) : (String.ofList cs).isEmpty = cs.isEmpty := by
  rw [isEmpty_eq, String.toList_ofList]

/-- The texts that are split into digits, and the digits that come out. -/
theorem amountParts_eq_some_iff {s : String} {parts : String × String} :
    amountParts s = some parts ↔ ∃ whole frac, Spells s.toList whole frac ∧ frac.length ≤ 8 ∧
      byteLen s ≤ 64 ∧ parts = (String.ofList (wholeText whole), String.ofList frac) := by
  simp only [amountParts, Option.bind_eq_bind, Option.bind_eq_some_iff, Option.guard_eq_some',
    exists_and_left, Option.pure_def, Option.some.injEq, Prod.exists, exists_const]
  constructor
  · rintro ⟨⟨-, hlen⟩, -, -, -, w, f, hsplit, hdigit, hw, hf, hplaces, rfl⟩
    obtain ⟨-, -, htext⟩ := splitPoint_eq_some_iff.mp hsplit
    have hfrac := all_isAsciiDigit_iff.mp hf
    have hwhole : w.toList.all Char.isDigit = true := by
      by_cases hempty : w.isEmpty = true
      · rw [String.isEmpty_iff.mp hempty]
        rfl
      · rw [if_neg hempty] at hw
        exact all_isAsciiDigit_iff.mp hw
    refine ⟨w.toList, f.toList, ⟨?_, ?_, hwhole, hfrac⟩, ?_, hlen, ?_⟩
    · rcases htext with ⟨rfl, rfl⟩ | hs
      · exact .inl ⟨rfl, rfl⟩
      · exact .inr hs
    · rw [isEmpty_eq, isEmpty_eq, List.isEmpty_eq_false_iff, List.isEmpty_eq_false_iff] at hdigit
      exact hdigit
    · rw [← byteLen_digits hfrac, String.ofList_toList]
      exact hplaces
    · rw [String.ofList_toList, wholeText, isEmpty_eq]
      by_cases hempty : w.toList = []
      · rw [hempty]
        rfl
      · rw [if_neg hempty, if_neg (by rwa [List.isEmpty_iff]), String.ofList_toList]
  · rintro ⟨whole, frac, hspells, hplaces, hlen, rfl⟩
    have hhead : ∀ b : UInt8, b.toNat < 46 → (utf8 s).head? ≠ some b := by
      intro b hb hhead
      obtain ⟨hlow, -⟩ := hspells.bytes b (List.mem_of_head? hhead)
      omega
    have hspace : (utf8 s).any isAsciiWhitespace = false := by
      rw [List.any_eq_false]
      intro b hb hwhite
      obtain ⟨hlow, -⟩ := hspells.bytes b hb
      simp only [isAsciiWhitespace, Bool.or_eq_true, decide_eq_true_eq] at hwhite
      rcases hwhite with (((rfl | rfl) | rfl) | rfl) | rfl <;> exact absurd hlow (by decide)
    have hletter : ∀ c : Char, c.isDigit = false → c ≠ '.' → containsChar c s = false := by
      intro c hc hpoint
      rw [← Bool.not_eq_true, containsChar_iff]
      exact hspells.not_mem hc hpoint
    have hsplit : splitPoint s = some (String.ofList whole, String.ofList frac) := by
      rw [splitPoint_eq_some_iff, String.toList_ofList, String.toList_ofList]
      refine ⟨not_mem_digits rfl hspells.whole_digits, not_mem_digits rfl hspells.frac_digits, ?_⟩
      rcases hspells.text with ⟨hs, rfl⟩ | hs
      · exact .inl ⟨by rw [← hs, String.ofList_toList], rfl⟩
      · exact .inr hs
    have hwhole : (if (String.ofList whole).isEmpty = true then "0" else String.ofList whole) =
        String.ofList (wholeText whole) := by
      rw [isEmpty_ofList, wholeText]
      cases whole <;> rfl
    refine ⟨⟨?_, hlen⟩, ⟨hhead 45 (by decide), hhead 43 (by decide)⟩, hspace,
      ⟨hletter 'e' rfl (by decide), hletter 'E' rfl (by decide)⟩, _, _, hsplit, ?_, ?_, ?_, ?_, ?_⟩
    · rw [isEmpty_eq, List.isEmpty_eq_false_iff]
      rcases hspells.text with ⟨hs, hfrac⟩ | hs
      · rw [hs]
        exact hspells.digit.resolve_right (not_not_intro hfrac)
      · rw [hs]
        exact List.append_ne_nil_of_right_ne_nil _ (List.cons_ne_nil _ _)
    · rw [isEmpty_ofList, isEmpty_ofList, List.isEmpty_eq_false_iff, List.isEmpty_eq_false_iff]
      exact hspells.digit
    · rw [hwhole, all_isAsciiDigit_iff, String.toList_ofList]
      exact wholeText_digits hspells.whole_digits
    · rw [all_isAsciiDigit_iff, String.toList_ofList]
      exact hspells.frac_digits
    · rw [byteLen_digits hspells.frac_digits]
      exact hplaces
    · rw [hwhole]

/-! ### The value -/

/-- The digits in micro-units. -/
def microValue (whole frac : List Char) : ℕ :=
  Nat.ofDigitChars 10 whole 0*10^8+Nat.ofDigitChars 10 frac 0*10^(8-frac.length)

theorem microValue_eq {frac : List Char} (whole : List Char) (hplaces : frac.length ≤ 8) :
    (microValue whole frac : ℚ) = 10^8*decimalValue whole frac := by
  have hpow : (10 : ℚ)^8 = 10^(8-frac.length)*10^frac.length := by
    rw [← pow_add, Nat.sub_add_cancel hplaces]
  have hne : (10 : ℚ)^frac.length ≠ 0 := pow_ne_zero _ (by norm_num)
  rw [microValue, decimalValue, mul_add, Nat.cast_add, Nat.cast_mul, Nat.cast_mul]
  push_cast
  congr 1
  · ring
  · rw [hpow, mul_assoc, mul_div_cancel₀ _ hne]
    ring

theorem scaleAmount_eq_some_iff {whole frac : List Char} {v : UInt64}
    (hwhole : whole.all Char.isDigit = true) (hfrac : frac.all Char.isDigit = true) :
    scaleAmount (String.ofList (wholeText whole)) (String.ofList frac) = some v ↔
      microValue whole frac = v.toNat := by
  have htext := wholeText_digits hwhole
  have hne : String.ofList (wholeText whole) ≠ "" := by
    rw [ne_eq, String.ofList_eq_empty_iff, wholeText]
    split
    · exact List.cons_ne_nil _ _
    · assumption
  have hbytes : (utf8 (String.ofList (wholeText whole))).all isAsciiDigit = true := by
    rw [all_isAsciiDigit_iff, String.toList_ofList]
    exact htext
  have hfracBytes : (utf8 (String.ofList frac)).all isAsciiDigit = true := by
    rw [all_isAsciiDigit_iff, String.toList_ofList]
    exact hfrac
  have hwholeValue : value 0 (utf8 (String.ofList (wholeText whole))) =
      Nat.ofDigitChars 10 whole 0 := by
    rw [utf8_eq, String.toList_ofList, value_digits htext, ofDigitChars_wholeText]
  have hfracValue : value (0 : UInt64).toNat (utf8 (String.ofList frac)) =
      Nat.ofDigitChars 10 frac 0 := by
    rw [utf8_eq, String.toList_ofList, value_digits hfrac]
    rfl
  have hscale : unitScale.toNat = 10^8 := rfl
  simp only [scaleAmount, Option.bind_eq_bind, Option.bind_eq_some_iff,
    parseU64_eq_some_iff hne hbytes, foldlM_pushDigit hfracBytes, pad_eq_some_iff, checkedMul_eq_some_iff, checkedAdd_eq_some_iff,
    hwholeValue, hfracValue, byteLen_digits hfrac, hscale]
  constructor
  · rintro ⟨w, hw, f, hf, padded, hpad, scaled, hmul, hsum⟩
    rw [microValue, hw, hmul, hf, hpad, hsum]
  · intro h
    have hv := v.toNat_lt
    have hfit : ∀ n, n ≤ microValue whole frac → (UInt64.ofNat n).toNat = n := by
      intro n hn
      rw [UInt64.toNat_ofNat']
      exact Nat.mod_eq_of_lt (by omega)
    have hscaled : Nat.ofDigitChars 10 whole 0*10^8 ≤ microValue whole frac := Nat.le_add_right _ _
    have hpadded : Nat.ofDigitChars 10 frac 0*10^(8-frac.length) ≤ microValue whole frac :=
      Nat.le_add_left _ _
    have hw := hfit _ ((Nat.le_mul_of_pos_right _ (Nat.pow_pos (by omega))).trans hscaled)
    have hf := hfit _ ((Nat.le_mul_of_pos_right _ (Nat.pow_pos (by omega))).trans hpadded)
    refine ⟨_, hw.symm, _, hf.symm,
      UInt64.ofNat (Nat.ofDigitChars 10 frac 0*10^(8-frac.length)), ?_,
      UInt64.ofNat (Nat.ofDigitChars 10 whole 0*10^8), ?_, ?_⟩
    · rw [hf, hfit _ hpadded]
    · rw [hw, hfit _ hscaled]
    · rw [hfit _ hpadded, hfit _ hscaled]
      exact h

theorem toMicroUnitsStr_of_spells {s : String} {whole frac : List Char}
    (hspells : Spells (trim s).toList whole frac) (hplaces : frac.length ≤ 8)
    (hlen : byteLen (trim s) ≤ 64) {v : UInt64} (hv : microValue whole frac = v.toNat) :
    toMicroUnitsStr s = v := by
  have hparts := amountParts_eq_some_iff.mpr ⟨whole, frac, hspells, hplaces, hlen, rfl⟩
  have hscale := (scaleAmount_eq_some_iff hspells.whole_digits hspells.frac_digits).mpr hv
  rw [toMicroUnitsStr, hparts, Option.bind_some, hscale]
  rfl

theorem IsAmount.value {s : String} {whole frac : List Char} (h : IsAmount s whole frac) :
    ((toMicroUnitsStr s).toNat : ℚ) = 10^8*decimalValue whole frac := by
  have hfits := h.fits
  rw [← microValue_eq whole h.places] at hfits
  have hlt : microValue whole frac < 2^64 := by exact_mod_cast hfits
  have hv : microValue whole frac = (UInt64.ofNat (microValue whole frac)).toNat := by
    rw [UInt64.toNat_ofNat', Nat.mod_eq_of_lt hlt]
  rw [toMicroUnitsStr_of_spells h.spells h.places h.len hv, ← hv, microValue_eq whole h.places]

/-! ### Writing and reading back -/

theorem isWhitespace_digit {c : Char} (h : c.isDigit = true ∨ c = '.') :
    isWhitespace c = false := by
  rcases h with h | rfl
  · obtain ⟨hlow, hhigh⟩ := isDigit_iff.mp h
    simp only [isWhitespace, Bool.or_eq_false_iff, Bool.and_eq_false_iff, decide_eq_false_iff_not,
      beq_eq_false_iff_ne]
    omega
  · rfl

/-- Text that spells an amount has nothing to trim. -/
theorem Spells.trim {s : String} {whole frac : List Char} (h : Spells s.toList whole frac) :
    trim s = s := by
  apply trim_of_forall
  intro c hc
  exact isWhitespace_digit (h.chars c hc)

theorem Spells.byteLen {s : String} {whole frac : List Char} (h : Spells s.toList whole frac) :
    byteLen s = s.toList.length := by
  have hone : ∀ c ∈ s.toList, c.utf8Size = 1 := by
    intro c hc
    rcases h.chars c hc with hd | rfl
    · rw [← String.length_utf8EncodeChar, utf8EncodeChar_digit hd, List.length_singleton]
    · rfl
  rw [byteLen_eq, List.map_congr_left hone, List.map_const', List.sum_replicate,
    smul_eq_mul, Nat.mul_one]

end Remzar
