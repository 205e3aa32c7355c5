import Mathlib.Tactic.Common
import Remzar.Lib.Checked
import Remzar.Lib.Text

/-! Decimal numbers as text: digits read one by one into a 64-bit word that must not overflow, and
the number that the digits spell. -/
namespace Decimal
open Checked Text

/-- `u64::checked_mul`. -/
def checkedMul (a b : UInt64) : Option UInt64 :=
  if a.toNat*b.toNat < 2^64 then some (a*b) else none

theorem checkedMul_eq_some_iff (a b c : UInt64) :
    checkedMul a b = some c ↔ a.toNat*b.toNat = c.toNat := by
  unfold checkedMul
  have hc := c.toNat_lt
  split
  · rename_i hlt
    have hprod : (a*b).toNat = a.toNat*b.toNat := by
      rw [UInt64.toNat_mul]
      exact Nat.mod_eq_of_lt hlt
    constructor
    · intro h
      rw [← Option.some.inj h, hprod]
    · intro h
      exact congrArg some (UInt64.toNat_inj.mp (hprod.trans h))
  · rename_i hge
    constructor
    · intro h
      cases h
    · intro h
      omega

/-- `u8::is_ascii_digit`. -/
def isAsciiDigit (b : UInt8) : Bool := 48 ≤ b && b ≤ 57

theorem isAsciiDigit_iff {b : UInt8} : isAsciiDigit b = true ↔ 48 ≤ b.toNat ∧ b.toNat ≤ 57 := by
  rw [isAsciiDigit, Bool.and_eq_true, decide_eq_true_eq, decide_eq_true_eq,
    UInt8.le_iff_toNat_le, UInt8.le_iff_toNat_le]
  rfl

/-- One more digit. -/
def pushDigit (acc : UInt64) (b : UInt8) : Option UInt64 := do
  let digit ← if 48 ≤ b then some (UInt64.ofNat (b.toNat-48)) else none
  let v ← checkedMul acc 10
  checkedAdd v digit

/-- `str::parse::<u64>`: an optional plus sign and at least one digit. -/
def parseU64 (s : String) : Option UInt64 :=
  let bytes := utf8 s
  let digits := if bytes.head? = some 43 then bytes.tail else bytes
  if digits = [] then none
  else if digits.all isAsciiDigit then digits.foldlM pushDigit 0
  else none

/-- `n` more zeros. -/
def pad : ℕ → UInt64 → Option UInt64
  | 0, acc => some acc
  | n+1, acc => (checkedMul acc 10).bind (pad n)

/-! ### Values -/

/-- The number that digits after `n` spell. -/
def value (n : ℕ) (bytes : List UInt8) : ℕ := bytes.foldl (fun n b => 10*n+(b.toNat-48)) n

theorem le_value (n : ℕ) (bytes : List UInt8) : n ≤ value n bytes := by
  induction bytes generalizing n with
  | nil => exact Nat.le_refl n
  | cons b bytes ih =>
    have hrest := ih (10*n+(b.toNat-48))
    change n ≤ value (10*n+(b.toNat-48)) bytes
    omega

theorem pushDigit_eq_some_iff {acc v : UInt64} {b : UInt8} (hb : isAsciiDigit b = true) :
    pushDigit acc b = some v ↔ 10*acc.toNat+(b.toNat-48) = v.toNat := by
  obtain ⟨hlow, hhigh⟩ := isAsciiDigit_iff.mp hb
  have hle : (48 : UInt8) ≤ b := UInt8.le_iff_toNat_le.mpr hlow
  have hdigit : (UInt64.ofNat (b.toNat-48)).toNat = b.toNat-48 := by
    rw [UInt64.toNat_ofNat']
    exact Nat.mod_eq_of_lt (by omega)
  have hten : (10 : UInt64).toNat = 10 := rfl
  have hv := v.toNat_lt
  rw [pushDigit, if_pos hle]
  change (checkedMul acc 10).bind (fun v => checkedAdd v _) = some v ↔ _
  rw [Option.bind_eq_some_iff]
  constructor
  · rintro ⟨w, hw, hsum⟩
    rw [checkedMul_eq_some_iff, hten] at hw
    rw [checkedAdd_eq_some_iff, hdigit] at hsum
    omega
  · intro h
    refine ⟨UInt64.ofNat (acc.toNat*10), ?_⟩
    have hw : (UInt64.ofNat (acc.toNat*10)).toNat = acc.toNat*10 := by
      rw [UInt64.toNat_ofNat']
      exact Nat.mod_eq_of_lt (by omega)
    rw [checkedMul_eq_some_iff, checkedAdd_eq_some_iff, hw, hdigit, hten]
    omega

/-- A run of digits is read if the number it spells fits. -/
theorem foldlM_pushDigit {bytes : List UInt8} (hbytes : bytes.all isAsciiDigit = true)
    (acc v : UInt64) : bytes.foldlM pushDigit acc = some v ↔ value acc.toNat bytes = v.toNat := by
  induction bytes generalizing acc with
  | nil =>
    change some acc = some v ↔ acc.toNat = v.toNat
    rw [Option.some.injEq, UInt64.toNat_inj]
  | cons b bytes ih =>
    rw [List.all_cons, Bool.and_eq_true] at hbytes
    obtain ⟨hb, hrest⟩ := hbytes
    rw [List.foldlM_cons]
    change (pushDigit acc b).bind (fun acc => bytes.foldlM pushDigit acc) = some v ↔
      value (10*acc.toNat+(b.toNat-48)) bytes = v.toNat
    rw [Option.bind_eq_some_iff]
    constructor
    · rintro ⟨acc', hpush, hfold⟩
      rw [(pushDigit_eq_some_iff hb).mp hpush]
      exact (ih hrest acc').mp hfold
    · intro h
      have hle := le_value (10*acc.toNat+(b.toNat-48)) bytes
      have hv := v.toNat_lt
      have hacc : (UInt64.ofNat (10*acc.toNat+(b.toNat-48))).toNat = 10*acc.toNat+(b.toNat-48) := by
        rw [UInt64.toNat_ofNat']
        exact Nat.mod_eq_of_lt (by omega)
      refine ⟨_, (pushDigit_eq_some_iff hb).mpr hacc.symm, (ih hrest _).mpr ?_⟩
      rw [hacc]
      exact h

theorem parseU64_eq_some_iff {s : String} {v : UInt64} (hs : s ≠ "")
    (hdigits : (utf8 s).all isAsciiDigit = true) :
    parseU64 s = some v ↔ value 0 (utf8 s) = v.toNat := by
  have hplus : (utf8 s).head? ≠ some 43 := by
    intro hhead
    have hmem := List.mem_of_head? hhead
    have hdigit := List.all_eq_true.mp hdigits 43 hmem
    exact absurd hdigit (by decide)
  have hne : utf8 s ≠ [] := fun h => hs (utf8_injective h)
  rw [parseU64, if_neg hplus, if_neg hne, if_pos hdigits]
  exact foldlM_pushDigit hdigits 0 v

theorem pad_eq_some_iff (n : ℕ) (acc v : UInt64) :
    pad n acc = some v ↔ acc.toNat*10^n = v.toNat := by
  induction n generalizing acc with
  | zero => rw [pad, Option.some.injEq, Nat.pow_zero, Nat.mul_one, UInt64.toNat_inj]
  | succ n ih =>
    have hten : (10 : UInt64).toNat = 10 := rfl
    have hpow : acc.toNat*10^(n+1) = acc.toNat*10*10^n := by rw [Nat.pow_succ', Nat.mul_assoc]
    rw [pad, Option.bind_eq_some_iff, hpow]
    constructor
    · rintro ⟨acc', hmul, hpad⟩
      rw [checkedMul_eq_some_iff, hten] at hmul
      rw [hmul]
      exact (ih acc').mp hpad
    · intro h
      have hpos : 0 < 10^n := Nat.pow_pos (by omega)
      have hle : acc.toNat*10 ≤ acc.toNat*10*10^n := Nat.le_mul_of_pos_right _ hpos
      have hv := v.toNat_lt
      have hacc : (UInt64.ofNat (acc.toNat*10)).toNat = acc.toNat*10 := by
        rw [UInt64.toNat_ofNat']
        exact Nat.mod_eq_of_lt (by omega)
      refine ⟨_, (checkedMul_eq_some_iff _ _ _).mpr hacc.symm, (ih _).mpr ?_⟩
      rw [hacc]
      exact h

/-! ### Digits as characters -/

theorem isDigit_iff {c : Char} : c.isDigit = true ↔ 48 ≤ c.toNat ∧ c.toNat ≤ 57 := by
  rw [Char.isDigit, Bool.and_eq_true, decide_eq_true_eq, decide_eq_true_eq,
    ge_iff_le, UInt32.le_iff_toNat_le, UInt32.le_iff_toNat_le]
  rfl

theorem utf8EncodeChar_digit {c : Char} (h : c.isDigit = true) :
    String.utf8EncodeChar c = [UInt8.ofNat c.toNat] := by
  obtain ⟨-, hhigh⟩ := isDigit_iff.mp h
  have hlt : UInt8.ofNat c.toNat < 0x80 := by
    rw [UInt8.lt_iff_toNat_lt, UInt8.toNat_ofNat']
    change c.toNat%256 < 128
    omega
  have hc : (UInt8.ofNat c.toNat).toNat = c.toNat := by
    rw [UInt8.toNat_ofNat']
    exact Nat.mod_eq_of_lt (by omega)
  have hchar := utf8EncodeChar_ascii hlt
  rw [hc, Char.ofNat_toNat] at hchar
  exact hchar

theorem all_isAsciiDigit_iff {s : String} :
    (utf8 s).all isAsciiDigit = true ↔ s.toList.all Char.isDigit = true := by
  rw [utf8_eq, List.all_flatMap, List.all_eq_true, List.all_eq_true]
  refine forall₂_congr fun c _ => ?_
  constructor
  · intro h
    rcases utf8EncodeChar_cases c with ⟨b, hb, hlt, hc⟩ | ⟨b, more, hb, hge⟩
    · rw [hb, List.all_cons, List.all_nil, Bool.and_true] at h
      obtain ⟨hlow, hhigh⟩ := isAsciiDigit_iff.mp h
      have hnat : c.toNat = b.toNat := by
        have hvalid : b.toNat.isValidChar := .inl (by omega)
        rw [← hc, Char.ofNat, dif_pos hvalid]
        rfl
      exact isDigit_iff.mpr ⟨hnat ▸ hlow, hnat ▸ hhigh⟩
    · rw [hb, List.all_cons, Bool.and_eq_true] at h
      obtain ⟨-, hhigh⟩ := isAsciiDigit_iff.mp h.1
      rw [UInt8.lt_iff_toNat_lt] at hge
      exact absurd (show b.toNat < 128 by omega) hge
  · intro h
    rw [utf8EncodeChar_digit h, List.all_cons, List.all_nil, Bool.and_true]
    obtain ⟨hlow, hhigh⟩ := isDigit_iff.mp h
    have hc : (UInt8.ofNat c.toNat).toNat = c.toNat := by
      rw [UInt8.toNat_ofNat']
      exact Nat.mod_eq_of_lt (by omega)
    rw [isAsciiDigit_iff, hc]
    exact ⟨hlow, hhigh⟩

theorem flatMap_digits {cs : List Char} (h : cs.all Char.isDigit = true) :
    cs.flatMap String.utf8EncodeChar = cs.map fun c => UInt8.ofNat c.toNat := by
  induction cs with
  | nil => rfl
  | cons c cs ih =>
    rw [List.all_cons, Bool.and_eq_true] at h
    rw [List.flatMap_cons, utf8EncodeChar_digit h.1, ih h.2]
    rfl

/-- The bytes of digits spell the number that the characters do. -/
theorem value_digits {cs : List Char} (h : cs.all Char.isDigit = true) (n : ℕ) :
    value n (cs.flatMap String.utf8EncodeChar) = Nat.ofDigitChars 10 cs n := by
  rw [flatMap_digits h]
  induction cs generalizing n with
  | nil => rfl
  | cons c cs ih =>
    rw [List.all_cons, Bool.and_eq_true] at h
    have hc : (UInt8.ofNat c.toNat).toNat = c.toNat := by
      obtain ⟨-, hhigh⟩ := isDigit_iff.mp h.1
      rw [UInt8.toNat_ofNat']
      exact Nat.mod_eq_of_lt (by omega)
    rw [List.map_cons, Nat.ofDigitChars_cons, ← ih h.2]
    change value (10*n+((UInt8.ofNat c.toNat).toNat-48)) _ = _
    rw [hc]
    rfl

end Decimal
