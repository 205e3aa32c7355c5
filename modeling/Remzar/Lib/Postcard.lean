import Mathlib.Algebra.Order.Ring.Nat
import Mathlib.Data.Vector.Defs
import Mathlib.Tactic.Common
import Remzar.Lib.Text

/-! A little-endian base-128 wire format for records, sequences, options and tagged
unions. A `Codec` carries its own round-trip law, so a composite format is correct
as soon as it is assembled from these parts. -/
namespace Postcard
open Text

inductive Error where
  | unexpectedEnd
  | badVarint
  | badBool
  | badOption
  | badUtf8
  | custom
  deriving DecidableEq, Repr

def Error.describe : Error → String
  | .unexpectedEnd => "Hit the end of buffer, expected more data"
  | .badVarint => "Found a varint that didn't terminate. Is the usize too big for this platform?"
  | .badBool => "Found a bool that wasn't 0 or 1"
  | .badOption => "Found an Option discriminant that wasn't 0 or 1"
  | .badUtf8 => "Tried to parse invalid utf-8"
  | .custom => "Serde Deserialization Error"

/-- An encoder and a prefix decoder. `Fits` are the values the format can represent. -/
structure Codec (α : Type) where
  Fits : α → Prop
  enc : α → List UInt8
  dec : List UInt8 → Except Error (α × List UInt8)
  dec_enc : ∀ a rest, Fits a → dec (enc a ++ rest) = .ok (a, rest)

/-- `take_from_bytes`. -/
def takeFromBytes {α : Type} (c : Codec α) (bytes : List UInt8) :
    Except Error (α × List UInt8) :=
  c.dec bytes

/-- `from_bytes`: bytes after the value are ignored. -/
def fromBytes {α : Type} (c : Codec α) (bytes : List UInt8) : Except Error α := do
  let (a, _) ← c.dec bytes
  return a

theorem takeFromBytes_enc {α : Type} (c : Codec α) (a : α) (ha : c.Fits a) :
    takeFromBytes c (c.enc a) = .ok (a, []) := by
  have h := c.dec_enc a [] ha
  rwa [List.append_nil] at h

theorem fromBytes_enc {α : Type} (c : Codec α) (a : α) (ha : c.Fits a) :
    fromBytes c (c.enc a) = .ok a := by
  have h := takeFromBytes_enc c a ha
  simp only [takeFromBytes] at h
  simp only [fromBytes, h]
  rfl

/-- Encodings are uniquely read off the front of a byte string. -/
theorem Codec.enc_append_inj {α : Type} (c : Codec α) {a b : α} {rest rest' : List UInt8}
    (ha : c.Fits a) (hb : c.Fits b) (h : c.enc a ++ rest = c.enc b ++ rest') :
    a = b ∧ rest = rest' := by
  have hread := c.dec_enc a rest ha
  rw [h, c.dec_enc b rest' hb] at hread
  obtain ⟨hvalue, hrest⟩ := Prod.mk.inj (Except.ok.inj hread)
  exact ⟨hvalue.symm, hrest.symm⟩

theorem Codec.enc_inj {α : Type} (c : Codec α) {a b : α} (ha : c.Fits a) (hb : c.Fits b)
    (h : c.enc a = c.enc b) : a = b := by
  have happ : c.enc a ++ [] = c.enc b ++ [] := by rw [h]
  exact (c.enc_append_inj ha hb happ).1

/-! ### Variable-length integers -/

/-- At most `fuel` groups of seven bits, least significant first. -/
def encodeVarint : ℕ → ℕ → List UInt8
  | 0, _ => []
  | fuel+1, n =>
    if n < 128 then [UInt8.ofNat n]
    else UInt8.ofNat (n%128 + 128) :: encodeVarint fuel (n/128)

/-- `lastMax` bounds the group that no further group may follow. -/
def decodeVarint (lastMax : ℕ) : ℕ → List UInt8 → Except Error (ℕ × List UInt8)
  | 0, _ => .error .badVarint
  | _+1, [] => .error .unexpectedEnd
  | fuel+1, b :: bs =>
    if b.toNat < 128 then
      if fuel = 0 ∧ lastMax < b.toNat then .error .badVarint else .ok (b.toNat, bs)
    else do
      let (n, rest) ← decodeVarint lastMax fuel bs
      return (b.toNat%128 + 128*n, rest)

theorem decodeVarint_encodeVarint (lastMax fuel n : ℕ) (rest : List UInt8)
    (hl : lastMax < 128) (hn : n < 128^fuel*(lastMax+1)) :
    decodeVarint lastMax (fuel+1) (encodeVarint (fuel+1) n ++ rest) = .ok (n, rest) := by
  induction fuel generalizing n with
  | zero =>
    have hsmall : n < 128 := by omega
    have hbyte : (UInt8.ofNat n).toNat = n := by
      rw [UInt8.toNat_ofNat']
      omega
    rw [encodeVarint, if_pos hsmall, List.singleton_append, decodeVarint, hbyte, if_pos hsmall,
      if_neg (by omega)]
  | succ fuel ih =>
    rw [encodeVarint]
    by_cases hsmall : n < 128
    · have hbyte : (UInt8.ofNat n).toNat = n := by
        rw [UInt8.toNat_ofNat']
        omega
      rw [if_pos hsmall, List.singleton_append, decodeVarint, hbyte, if_pos hsmall,
        if_neg (by omega)]
    · have hbyte : (UInt8.ofNat (n%128 + 128)).toNat = n%128 + 128 := by
        rw [UInt8.toNat_ofNat']
        omega
      have hdiv : n/128 < 128^fuel*(lastMax+1) := by
        rw [Nat.div_lt_iff_lt_mul (by decide)]
        calc n < 128^(fuel+1)*(lastMax+1) := hn
          _ = 128^fuel*(lastMax+1)*128 := by rw [Nat.pow_succ, Nat.mul_right_comm]
      rw [if_neg hsmall, List.cons_append, decodeVarint, hbyte, if_neg (by omega), ih (n/128) hdiv]
      change Except.ok ((n%128 + 128)%128 + 128*(n/128), rest) = _
      have hvalue : (n%128 + 128)%128 + 128*(n/128) = n := by omega
      rw [hvalue]

theorem encodeVarint_length_le (fuel n : ℕ) : (encodeVarint fuel n).length ≤ fuel := by
  induction fuel generalizing n with
  | zero => exact Nat.le_refl 0
  | succ fuel ih =>
    rw [encodeVarint]
    split
    · simp
    · simpa using ih (n/128)

/-- A small number takes few groups. -/
theorem encodeVarint_length_le_of_lt {fuel k n : ℕ} (h : n < 128^(k+1)) :
    (encodeVarint fuel n).length ≤ k+1 := by
  induction fuel generalizing k n with
  | zero => exact Nat.zero_le _
  | succ fuel ih =>
    rw [encodeVarint]
    split
    · simp
    · cases k with
      | zero => omega
      | succ k =>
        have hdiv : n/128 < 128^(k+1) := by
          rw [Nat.div_lt_iff_lt_mul (by decide), ← Nat.pow_succ]
          exact h
        rw [List.length_cons]
        exact Nat.succ_le_succ (ih hdiv)

theorem encodeVarint_ne_nil (fuel n : ℕ) : encodeVarint (fuel+1) n ≠ [] := by
  rw [encodeVarint]
  split <;> exact List.cons_ne_nil _ _

def u64 : Codec UInt64 where
  Fits _ := True
  enc n := encodeVarint 10 n.toNat
  dec bytes := do
    let (n, rest) ← decodeVarint 1 10 bytes
    return (UInt64.ofNat n, rest)
  dec_enc a rest _ := by
    rw [decodeVarint_encodeVarint 1 9 a.toNat rest (by decide)
      (by simpa using a.toNat_lt)]
    exact congrArg (fun n => Except.ok (n, rest)) (UInt64.ofNat_toNat)

/-- Lengths, on a 64-bit target. -/
def usize : Codec ℕ where
  Fits n := n < 2^64
  enc n := encodeVarint 10 n
  dec := decodeVarint 1 10
  dec_enc n rest hn := decodeVarint_encodeVarint 1 9 n rest (by decide) (by simpa using hn)

def u128 : Codec ℕ where
  Fits n := n < 2^128
  enc n := encodeVarint 19 n
  dec := decodeVarint 3 19
  dec_enc n rest hn := decodeVarint_encodeVarint 3 18 n rest (by decide) (by simpa using hn)

/-- Discriminants of tagged unions, 32 bits wide. -/
def discriminant : Codec ℕ where
  Fits n := n < 2^32
  enc n := encodeVarint 5 n
  dec := decodeVarint 15 5
  dec_enc n rest hn := decodeVarint_encodeVarint 15 4 n rest (by decide) (by simpa using hn)

/-- A length below 128 is one byte, and no other length starts with such a byte. -/
theorem usize_enc_cases (n : ℕ) :
    (n < 128 ∧ usize.enc n = [UInt8.ofNat n]) ∨
      (128 ≤ n ∧ ∃ b rest, usize.enc n = b :: rest ∧ 128 ≤ b.toNat) := by
  by_cases hsmall : n < 128
  · refine .inl ⟨hsmall, ?_⟩
    change encodeVarint 10 n = _
    rw [encodeVarint, if_pos hsmall]
  · refine .inr ⟨Nat.le_of_not_lt hsmall, UInt8.ofNat (n%128 + 128), encodeVarint 9 (n/128), ?_, ?_⟩
    · change encodeVarint 10 n = _
      rw [encodeVarint, if_neg hsmall]
    · rw [UInt8.toNat_ofNat']
      omega

theorem usize_enc_head {n : ℕ} {b : UInt8} {rest rest' : List UInt8} (hb : b.toNat < 128)
    (h : usize.enc n ++ rest = b :: rest') : n = b.toNat ∧ rest = rest' := by
  rcases usize_enc_cases n with ⟨hsmall, henc⟩ | ⟨-, c, more, henc, hc⟩
  · rw [henc, List.singleton_append] at h
    obtain ⟨hhead, hrest⟩ := List.cons.inj h
    refine ⟨?_, hrest⟩
    rw [← hhead, UInt8.toNat_ofNat']
    omega
  · rw [henc, List.cons_append] at h
    obtain ⟨rfl, -⟩ := List.cons.inj h
    omega

/-! ### Bytes, strings and composites -/

def readBytes (n : ℕ) (bytes : List UInt8) : Except Error (List UInt8 × List UInt8) :=
  if n ≤ bytes.length then .ok (bytes.take n, bytes.drop n) else .error .unexpectedEnd

theorem readBytes_append (a rest : List UInt8) :
    readBytes a.length (a ++ rest) = .ok (a, rest) := by
  rw [readBytes, if_pos (by simp), List.take_left, List.drop_left]

/-- A fixed-size array, with no length in front of it. -/
def array (n : ℕ) : Codec (List.Vector UInt8 n) where
  Fits _ := True
  enc a := a.toList
  dec bytes :=
    if h : n ≤ bytes.length then
      .ok (⟨bytes.take n, by rw [List.length_take, Nat.min_eq_left h]⟩, bytes.drop n)
    else .error .unexpectedEnd
  dec_enc a rest _ := by
    have hlen : a.toList.length = n := a.toList_length
    rw [dif_pos (by rw [List.length_append, hlen]; exact Nat.le_add_right n rest.length)]
    refine congrArg Except.ok (Prod.ext (Subtype.ext ?_) ?_)
    · exact List.take_left' hlen
    · exact List.drop_left' hlen

/-- A byte string with its length in front. -/
def bytes : Codec (List UInt8) where
  Fits a := a.length < 2^64
  enc a := usize.enc a.length ++ a
  dec input := do
    let (n, rest) ← usize.dec input
    readBytes n rest
  dec_enc a rest ha := by
    rw [List.append_assoc, usize.dec_enc a.length (a ++ rest) ha]
    exact readBytes_append a rest

/-- The UTF-8 bytes of a string. -/
def string : Codec String where
  Fits s := (utf8 s).length < 2^64
  enc s := bytes.enc (utf8 s)
  dec input := do
    let (a, rest) ← bytes.dec input
    match fromUtf8 a with
    | some s => return (s, rest)
    | none => throw .badUtf8
  dec_enc s rest hs := by
    rw [bytes.dec_enc (utf8 s) rest hs]
    change (match fromUtf8 (utf8 s) with
      | some s => Except.ok (s, rest)
      | none => Except.error Error.badUtf8) = _
    rw [fromUtf8_utf8]

theorem string_enc (s : String) : string.enc s = usize.enc (utf8 s).length ++ utf8 s := rfl

theorem string_enc_length (s : String) : (utf8 s).length ≤ (string.enc s).length := by
  rw [string_enc, List.length_append]
  exact Nat.le_add_left _ _

section Composites
variable {α β : Type}

def pair (c : Codec α) (d : Codec β) : Codec (α × β) where
  Fits p := c.Fits p.1 ∧ d.Fits p.2
  enc p := c.enc p.1 ++ d.enc p.2
  dec input := do
    let (a, rest) ← c.dec input
    let (b, rest) ← d.dec rest
    return ((a, b), rest)
  dec_enc p rest hp := by
    rw [List.append_assoc, c.dec_enc p.1 _ hp.1]
    change (do let (b, rest) ← d.dec (d.enc p.2 ++ rest); return ((p.1, b), rest)) = _
    rw [d.dec_enc p.2 rest hp.2]
    rfl

/-- A record is encoded as the tuple of its fields. -/
def record (c : Codec β) (fields : α → β) (build : β → α)
    (build_fields : ∀ a, build (fields a) = a) : Codec α where
  Fits a := c.Fits (fields a)
  enc a := c.enc (fields a)
  dec input := do
    let (b, rest) ← c.dec input
    return (build b, rest)
  dec_enc a rest ha := by
    rw [c.dec_enc (fields a) rest ha]
    change Except.ok (build (fields a), rest) = _
    rw [build_fields]

def option (c : Codec α) : Codec (Option α) where
  Fits a := ∀ x, a = some x → c.Fits x
  enc
    | none => [0]
    | some x => 1 :: c.enc x
  dec
    | [] => .error .unexpectedEnd
    | b :: rest =>
      if b = 0 then .ok (none, rest)
      else if b = 1 then do
        let (x, rest) ← c.dec rest
        return (some x, rest)
      else .error .badOption
  dec_enc a rest ha := by
    cases a with
    | none => rfl
    | some x =>
      rw [List.cons_append]
      change (do let (x, rest) ← c.dec (c.enc x ++ rest); return (some x, rest)) = _
      rw [c.dec_enc x rest (ha x rfl)]
      rfl

def readMany (c : Codec α) : ℕ → List UInt8 → Except Error (List α × List UInt8)
  | 0, input => .ok ([], input)
  | n+1, input => do
    let (a, rest) ← c.dec input
    let (as, rest) ← readMany c n rest
    return (a :: as, rest)

theorem readMany_flatMap (c : Codec α) (as : List α) (rest : List UInt8)
    (ha : ∀ a ∈ as, c.Fits a) :
    readMany c as.length (as.flatMap c.enc ++ rest) = .ok (as, rest) := by
  induction as with
  | nil => rfl
  | cons a as ih =>
    have hhead : c.Fits a := ha a List.mem_cons_self
    have htail := ih (fun b hb => ha b (List.mem_cons_of_mem a hb))
    rw [List.flatMap_cons, List.append_assoc, List.length_cons, readMany,
      c.dec_enc a _ hhead]
    change (do let (as, rest) ← readMany c as.length (as.flatMap c.enc ++ rest)
               return (a :: as, rest)) = _
    rw [htail]
    rfl

/-- Encodings one after another are uniquely read off. -/
theorem flatMap_enc_inj (c : Codec α) (hc : ∀ a, c.enc a ≠ []) {as bs : List α}
    (ha : ∀ a ∈ as, c.Fits a) (hb : ∀ b ∈ bs, c.Fits b) (h : as.flatMap c.enc = bs.flatMap c.enc) :
    as = bs := by
  induction as generalizing bs with
  | nil =>
    cases bs with
    | nil => rfl
    | cons b bs =>
      rw [List.flatMap_nil, List.flatMap_cons] at h
      exact absurd (List.append_eq_nil_iff.mp h.symm).1 (hc b)
  | cons a as ih =>
    cases bs with
    | nil =>
      rw [List.flatMap_nil, List.flatMap_cons] at h
      exact absurd (List.append_eq_nil_iff.mp h).1 (hc a)
    | cons b bs =>
      rw [List.flatMap_cons, List.flatMap_cons] at h
      obtain ⟨rfl, hrest⟩ := c.enc_append_inj (ha a List.mem_cons_self) (hb b List.mem_cons_self) h
      rw [ih (fun x hx => ha x (List.mem_cons_of_mem _ hx))
        (fun x hx => hb x (List.mem_cons_of_mem _ hx)) hrest]

/-- A sequence: its length, then its elements. -/
def vec (c : Codec α) : Codec (List α) where
  Fits as := as.length < 2^64 ∧ ∀ a ∈ as, c.Fits a
  enc as := usize.enc as.length ++ as.flatMap c.enc
  dec input := do
    let (n, rest) ← usize.dec input
    readMany c n rest
  dec_enc as rest ha := by
    rw [List.append_assoc, usize.dec_enc as.length _ ha.1]
    exact readMany_flatMap c as rest ha.2

end Composites

end Postcard
