import Mathlib.Order.Basic
import Mathlib.Tactic.Common
import Std.Data.ExtTreeMap

/-! Strings as their UTF-8 bytes: decoding, characters, and the byte order of strings. -/
namespace Text
open Std

def utf8 (s : String) : List UInt8 := s.toByteArray.data.toList

/-- The characters of a byte string, if it is valid UTF-8. Fuel is its length. -/
def decode : ℕ → List UInt8 → Option (List Char)
  | _, [] => some []
  | 0, _ :: _ => none
  | fuel+1, b :: rest =>
    if b < 0x80 then (decode fuel rest).map (Char.ofNat b.toNat :: ·)
    else match ByteArray.utf8DecodeChar? ⟨(b :: rest).toArray⟩ 0 with
      | none => none
      | some c => (decode fuel ((b :: rest).drop c.utf8Size)).map (c :: ·)

/-- `String::from_utf8`. -/
def fromUtf8 (bytes : List UInt8) : Option String := (decode bytes.length bytes).map String.ofList

/-- `str::chars`. -/
def chars (s : String) : List Char := (decode (utf8 s).length (utf8 s)).getD []

theorem utf8_eq (s : String) : utf8 s = s.toList.flatMap String.utf8EncodeChar := by
  have hs : s.toByteArray = s.toList.utf8Encode := by
    rw [← String.toByteArray_ofList, String.ofList_toList]
  rw [utf8, hs, List.utf8Encode]
  simp

theorem utf8_append (s t : String) : utf8 (s ++ t) = utf8 s ++ utf8 t := by
  rw [utf8_eq, utf8_eq, utf8_eq, String.toList_append, List.flatMap_append]

-- Only the one-byte characters start with a byte below 0x80.
theorem utf8EncodeChar_cases (c : Char) :
    (∃ b, String.utf8EncodeChar c = [b] ∧ b < 0x80 ∧ Char.ofNat b.toNat = c) ∨
      ∃ b more, String.utf8EncodeChar c = b :: more ∧ ¬b < 0x80 := by
  unfold String.utf8EncodeChar
  simp only
  split
  · rename_i h
    refine .inl ⟨_, rfl, ?_, ?_⟩
    · rw [UInt8.lt_iff_toNat_lt, UInt8.toNat_ofNat']
      change c.val.toNat%256 < 128
      omega
    · have hsmall : (UInt8.ofNat c.val.toNat).toNat = c.toNat := by
        rw [UInt8.toNat_ofNat']
        change c.val.toNat%256 = c.val.toNat
        omega
      rw [hsmall, Char.ofNat_toNat]
  · refine .inr ?_
    split
    · refine ⟨_, _, rfl, ?_⟩
      rw [UInt8.lt_iff_toNat_lt, UInt8.toNat_ofNat']
      change ¬(c.val.toNat/64%32 + 192)%256 < 128
      omega
    split
    · refine ⟨_, _, rfl, ?_⟩
      rw [UInt8.lt_iff_toNat_lt, UInt8.toNat_ofNat']
      change ¬(c.val.toNat/4096%16 + 224)%256 < 128
      omega
    · refine ⟨_, _, rfl, ?_⟩
      rw [UInt8.lt_iff_toNat_lt, UInt8.toNat_ofNat']
      change ¬(c.val.toNat/262144%8 + 240)%256 < 128
      omega

theorem utf8EncodeChar_high {c : Char} (h : 128 ≤ c.toNat) :
    ∀ b ∈ String.utf8EncodeChar c, 128 ≤ b.toNat := by
  have hnot : ¬c.val.toNat ≤ 127 := Nat.not_le.mpr h
  have hbyte : ∀ n, 128 ≤ n%256 → 128 ≤ (UInt8.ofNat n).toNat := by
    intro n hn
    rw [UInt8.toNat_ofNat']
    exact hn
  unfold String.utf8EncodeChar
  simp only [hnot, if_false]
  split
  · simp only [List.forall_mem_cons, List.not_mem_nil, false_implies, implies_true, and_true]
    refine ⟨hbyte _ ?_, hbyte _ ?_⟩ <;> omega
  split
  · simp only [List.forall_mem_cons, List.not_mem_nil, false_implies, implies_true, and_true]
    refine ⟨hbyte _ ?_, hbyte _ ?_, hbyte _ ?_⟩ <;> omega
  · simp only [List.forall_mem_cons, List.not_mem_nil, false_implies, implies_true, and_true]
    refine ⟨hbyte _ ?_, hbyte _ ?_, hbyte _ ?_, hbyte _ ?_⟩ <;> omega

theorem decode_encode (cs : List Char) (fuel : ℕ)
    (h : (cs.flatMap String.utf8EncodeChar).length ≤ fuel) :
    decode fuel (cs.flatMap String.utf8EncodeChar) = some cs := by
  induction cs generalizing fuel with
  | nil =>
    cases fuel <;> rfl
  | cons c cs ih =>
    rw [List.flatMap_cons, List.length_append, String.length_utf8EncodeChar] at h
    have hsize := c.utf8Size_pos
    obtain ⟨n, rfl⟩ : ∃ n, fuel = n+1 := ⟨fuel-1, by omega⟩
    have hrest := ih n (by omega)
    rw [List.flatMap_cons]
    rcases utf8EncodeChar_cases c with ⟨b, hb, hlt, hc⟩ | ⟨b, more, hb, hge⟩
    · rw [hb, List.singleton_append, decode, if_pos hlt, hrest, hc]
      rfl
    · have hbytes : (⟨(b :: (more ++ cs.flatMap String.utf8EncodeChar)).toArray⟩ : ByteArray) =
          (c :: cs).utf8Encode := by
        rw [List.utf8Encode, List.flatMap_cons, hb, List.cons_append, ← List.data_toByteArray]
      have hdrop : (b :: (more ++ cs.flatMap String.utf8EncodeChar)).drop c.utf8Size =
          cs.flatMap String.utf8EncodeChar := by
        have hlen : c.utf8Size = (b :: more).length := by
          rw [← hb, String.length_utf8EncodeChar]
        rw [← List.cons_append, hlen, List.drop_left]
      rw [hb, List.cons_append, decode, if_neg hge, hbytes, List.utf8DecodeChar?_utf8Encode_cons]
      simp only [hdrop, hrest, Option.map_some]

theorem decode_utf8 (s : String) : decode (utf8 s).length (utf8 s) = some s.toList := by
  rw [utf8_eq]
  exact decode_encode s.toList _ (Nat.le_refl _)

theorem chars_eq (s : String) : chars s = s.toList := by
  rw [chars, decode_utf8]
  rfl

theorem fromUtf8_utf8 (s : String) : fromUtf8 (utf8 s) = some s := by
  rw [fromUtf8, decode_utf8, Option.map_some, String.ofList_toList]

theorem utf8_injective : Function.Injective utf8 := by
  intro s t h
  have hs := fromUtf8_utf8 s
  rw [h, fromUtf8_utf8] at hs
  exact (Option.some.inj hs).symm

theorem utf8EncodeChar_ascii {b : UInt8} (h : b < 0x80) :
    String.utf8EncodeChar (Char.ofNat b.toNat) = [b] := by
  have hall : ∀ n : Fin 128, String.utf8EncodeChar (Char.ofNat n) = [UInt8.ofNat n] := by
    decide
  rw [UInt8.lt_iff_toNat_lt] at h
  rw [hall ⟨b.toNat, h⟩, UInt8.ofNat_toNat]

/-- A byte below 128 of a text is one of its characters. -/
theorem mem_of_mem_utf8 {s : String} {b : UInt8} (hlow : b.toNat < 128) (hb : b ∈ utf8 s) :
    Char.ofNat b.toNat ∈ s.toList := by
  rw [utf8_eq, List.mem_flatMap] at hb
  obtain ⟨c, hc, hb⟩ := hb
  by_cases hsmall : c.toNat < 128
  · have hbyte : (UInt8.ofNat c.toNat).toNat = c.toNat := by
      rw [UInt8.toNat_ofNat']
      exact Nat.mod_eq_of_lt (by omega)
    have hone := utf8EncodeChar_ascii (b := UInt8.ofNat c.toNat) (by
      rw [UInt8.lt_iff_toNat_lt, hbyte]
      exact hsmall)
    rw [hbyte, Char.ofNat_toNat] at hone
    rw [hone, List.mem_singleton] at hb
    rw [hb, hbyte, Char.ofNat_toNat]
    exact hc
  · exact absurd (utf8EncodeChar_high (by omega) b hb) (by omega)

/-- Decoded characters are encoded as the bytes they came from. -/
theorem encode_decode {fuel : ℕ} {bytes : List UInt8} {cs : List Char}
    (h : decode fuel bytes = some cs) : cs.flatMap String.utf8EncodeChar = bytes := by
  induction fuel generalizing bytes cs with
  | zero =>
    cases bytes with
    | nil =>
      cases h
      rfl
    | cons b rest => cases h
  | succ fuel ih =>
    cases bytes with
    | nil =>
      cases h
      rfl
    | cons b rest =>
      rw [decode] at h
      split at h
      · rename_i hlow
        obtain ⟨tail, htail, rfl⟩ := Option.map_eq_some_iff.mp h
        rw [List.flatMap_cons, ih htail, utf8EncodeChar_ascii hlow, List.singleton_append]
      · split at h
        · cases h
        · rename_i c hc
          obtain ⟨tail, htail, rfl⟩ := Option.map_eq_some_iff.mp h
          obtain ⟨more, hmore⟩ := ByteArray.exists_of_utf8DecodeChar?_eq_some hc
          have hbytes : b :: rest = String.utf8EncodeChar c ++ more.data.toList := by
            have hdata := congrArg (fun a : ByteArray => a.data.toList) hmore
            simpa using hdata
          rw [List.flatMap_cons, ih htail, hbytes,
            List.drop_left' (String.length_utf8EncodeChar c)]

theorem utf8_of_fromUtf8 {bytes : List UInt8} {s : String} (h : fromUtf8 bytes = some s) :
    utf8 s = bytes := by
  obtain ⟨cs, hcs, rfl⟩ := Option.map_eq_some_iff.mp h
  rw [utf8_eq, String.toList_ofList]
  exact encode_decode hcs

/-! ### Byte order -/

/-- Strings compared by their bytes. -/
def byteOrder (s t : String) : Ordering := compare (utf8 s) (utf8 t)

instance : TransCmp byteOrder where
  eq_swap {s t} := @OrientedCmp.eq_swap _ (compare (α := List UInt8)) _ (utf8 s) (utf8 t)
  isLE_trans h₁ h₂ := @TransCmp.isLE_trans _ (compare (α := List UInt8)) _ _ _ _ h₁ h₂

instance : LawfulEqCmp byteOrder where
  compare_self {s} := @ReflCmp.compare_self _ (compare (α := List UInt8)) _ (utf8 s)
  eq_of_compare h := utf8_injective (LawfulEqCmp.eq_of_compare h)

end Text
