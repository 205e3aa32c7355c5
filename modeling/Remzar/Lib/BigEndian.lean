import Mathlib.Tactic.Common
import Mathlib.Algebra.Order.Ring.Nat

/-! Numbers as a fixed count of bytes, most significant first. -/
namespace BigEndian

def encode (width n : ℕ) : List UInt8 :=
  (List.range width).map fun i => UInt8.ofNat (n / 256^(width-1-i))

def decode (bytes : List UInt8) : ℕ := bytes.foldl (fun n b => 256*n + b.toNat) 0

@[simp] theorem encode_length (width n : ℕ) : (encode width n).length = width := by
  rw [encode, List.length_map, List.length_range]

theorem encode_succ (width n : ℕ) : encode (width+1) n = encode width (n/256) ++ [UInt8.ofNat n] := by
  rw [encode, encode, List.range_succ, List.map_append, List.map_singleton]
  have hlast : n / 256^(width+1-1-width) = n := by
    rw [Nat.add_sub_cancel, Nat.sub_self, pow_zero, Nat.div_one]
  rw [hlast]
  congr 1
  apply List.map_congr_left
  intro i hi
  have hlt : i < width := List.mem_range.mp hi
  have hpow : width+1-1-i = (width-1-i)+1 := by omega
  rw [hpow, pow_succ', Nat.div_div_eq_div_mul]

theorem decode_append_singleton (bytes : List UInt8) (b : UInt8) :
    decode (bytes ++ [b]) = 256*decode bytes + b.toNat := by
  rw [decode, List.foldl_append]
  rfl

theorem decode_encode (width n : ℕ) (h : n < 256^width) : decode (encode width n) = n := by
  induction width generalizing n with
  | zero =>
    have hzero : n = 0 := by
      rw [pow_zero] at h
      omega
    rw [hzero]
    rfl
  | succ width ih =>
    have hlt : n/256 < 256^width := by
      rw [pow_succ] at h
      exact Nat.div_lt_of_lt_mul (by rw [mul_comm]; exact h)
    rw [encode_succ, decode_append_singleton, ih (n/256) hlt, UInt8.toNat_ofNat']
    omega

end BigEndian
