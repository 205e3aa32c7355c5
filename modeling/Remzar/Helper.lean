import Mathlib
import Remzar.Lib.Checked
import Remzar.Lib.Fallible
import Remzar.Lib.Postcard
import Remzar.Configuration

/-! Wallet identifiers, text normalisation and the structural timestamp rules. -/
namespace Remzar
open Fallible Checked Postcard Text

/-! ### Text -/

instance isTrans_le : IsTrans String (· ≤ ·) := inferInstance

instance antisymm_le : @Std.Antisymm String (· ≤ ·) := inferInstance

/-- The Unicode `White_Space` property, which `str::trim` removes. -/
def isWhitespace (c : Char) : Bool :=
  let n := c.toNat
  (9 ≤ n && n ≤ 13) || n == 0x20 || n == 0x85 || n == 0xA0 || n == 0x1680 ||
    (0x2000 ≤ n && n ≤ 0x200A) || n == 0x2028 || n == 0x2029 || n == 0x202F ||
    n == 0x205F || n == 0x3000

def dropEndWhile (p : Char → Bool) (cs : List Char) : List Char :=
  (cs.reverse.dropWhile p).reverse

def trimChars (cs : List Char) : List Char :=
  dropEndWhile isWhitespace (cs.dropWhile isWhitespace)

/-- `str::trim`. -/
def trim (s : String) : String := String.ofList (trimChars (chars s))

/-- `str::to_ascii_lowercase`. -/
def toAsciiLowercase (s : String) : String :=
  String.ofList ((chars s).map fun c =>
    if 'A' ≤ c ∧ c ≤ 'Z' then Char.ofNat (c.toNat + 32) else c)

/-- `str::len`, in bytes. -/
def byteLen (s : String) : ℕ := (utf8 s).length

def replacementChar : Char := Char.ofNat 0xFFFD

def isContinuation (b : UInt8) : Bool := 0x80 ≤ b && b ≤ 0xBF

/-- The bytes that may follow a leading byte of a three- or four-byte sequence. -/
def secondByteOk (lead b : UInt8) : Bool :=
  if lead = 0xE0 then 0xA0 ≤ b && b ≤ 0xBF
  else if lead = 0xED then 0x80 ≤ b && b ≤ 0x9F
  else if lead = 0xF0 then 0x90 ≤ b && b ≤ 0xBF
  else if lead = 0xF4 then 0x80 ≤ b && b ≤ 0x8F
  else isContinuation b

/-- One character, or the replacement of a maximal invalid prefix, and how many bytes
it takes. -/
def lossyStep (lead : UInt8) (rest : List UInt8) : Char × ℕ :=
  let low (b : UInt8) := b.toNat%64
  if lead < 0x80 then (Char.ofNat lead.toNat, 1)
  else if 0xC2 ≤ lead && lead ≤ 0xDF then
    match rest with
    | b :: _ =>
      if isContinuation b then (Char.ofNat (lead.toNat%32*64 + low b), 2)
      else (replacementChar, 1)
    | [] => (replacementChar, 1)
  else if 0xE0 ≤ lead && lead ≤ 0xEF then
    match rest with
    | b :: c :: _ =>
      if !secondByteOk lead b then (replacementChar, 1)
      else if !isContinuation c then (replacementChar, 2)
      else (Char.ofNat (lead.toNat%16*4096 + low b*64 + low c), 3)
    | [b] => (replacementChar, if secondByteOk lead b then 2 else 1)
    | [] => (replacementChar, 1)
  else if 0xF0 ≤ lead && lead ≤ 0xF4 then
    match rest with
    | b :: c :: d :: _ =>
      if !secondByteOk lead b then (replacementChar, 1)
      else if !isContinuation c then (replacementChar, 2)
      else if !isContinuation d then (replacementChar, 3)
      else (Char.ofNat (lead.toNat%8*262144 + low b*4096 + low c*64 + low d), 4)
    | [b, c] =>
      if !secondByteOk lead b then (replacementChar, 1)
      else (replacementChar, if isContinuation c then 3 else 2)
    | [b] => (replacementChar, if secondByteOk lead b then 2 else 1)
    | [] => (replacementChar, 1)
  else (replacementChar, 1)

def lossyChars : ℕ → List UInt8 → List Char
  | 0, _ => []
  | _+1, [] => []
  | fuel+1, lead :: rest =>
    let (c, width) := lossyStep lead rest
    c :: lossyChars fuel (rest.drop (width-1))

/-- `String::from_utf8_lossy`. -/
def fromUtf8Lossy (bytes : List UInt8) : String :=
  String.ofList (lossyChars bytes.length bytes)

/-! ### Wallets -/

abbrev WalletArray := List.Vector UInt8 129

def invalidWallet : ErrorDetection := validationErr "Wallet address is invalid or incomplete"

def invalidWalletBytes : ErrorDetection := validationErr "Wallet address bytes are invalid"

def isLowerHex (b : UInt8) : Bool := (48 ≤ b && b ≤ 57) || (97 ≤ b && b ≤ 102)

/-- Trimmed and lowercased: `r` and 128 hexadecimal digits. -/
def canonWalletIdChecked (id : String) : Fallible String := do
  let s := trim id
  rejectIf (byteLen s ≠ remzarWalletLen) invalidWallet
  let lower := toAsciiLowercase s
  rejectIf ((utf8 lower).head? ≠ some 114) invalidWallet
  rejectIf (¬(utf8 lower).tail.all isLowerHex) invalidWallet
  return lower

/-- Like `canonWalletIdChecked`, without lowercasing. -/
def parseWalletAddress (address : String) : Fallible Unit := do
  let s := trim address
  rejectIf (byteLen s ≠ remzarWalletLen) invalidWallet
  rejectIf ((utf8 s).head? ≠ some 114) invalidWallet
  rejectIf (¬(utf8 s).tail.all isLowerHex) invalidWallet

/-- Strict: 129 bytes, no padding. -/
def parseWalletAddressBytes (bytes : List UInt8) : Fallible String := do
  rejectIf (bytes.length ≠ remzarWalletLen) invalidWalletBytes
  rejectIf (0 ∈ bytes) invalidWalletBytes
  let s ← okOr (fromUtf8 bytes) invalidWalletBytes
  parseWalletAddress s
  return s

/-! ### Timestamps -/

def unix2000Secs : UInt64 := 946684800
def unix9999Secs : UInt64 := 253402300799

def validateUnixSecsStructural (label : String) (ts : UInt64) : Fallible Unit := do
  rejectIf (ts < unix2000Secs) (validationErr s!"{label}: timestamp below UNIX_2000_SECS: {ts}")
  rejectIf (unix9999Secs < ts) (validationErr s!"{label}: timestamp above UNIX_9999_SECS: {ts}")

/-- The runtime clock, from what the system reports; a time before the epoch is negative. -/
def nowUnixSecsRuntime (clock : Int64) : Fallible UInt64 := do
  rejectIf (clock < 0) (.timestampError "Timestamp error")
  let now := clock.toUInt64
  validateUnixSecsStructural "runtime_now_unix_secs" now
  return now

theorem nowUnixSecsRuntime_ok {clock : Int64} {now : UInt64}
    (h : nowUnixSecsRuntime clock = .ok now) : 0 ≤ clock ∧ now = clock.toUInt64 := by
  simp only [nowUnixSecsRuntime, bind_eq_ok_iff, rejectIf_eq_ok_iff, pure_eq_ok_iff] at h
  obtain ⟨_, hneg, _, -, rfl⟩ := h
  exact ⟨Int64.not_lt.mp hneg, rfl⟩

def unix2000Millis : UInt64 := unix2000Secs*1000
def unix9999Millis : UInt64 := unix9999Secs*1000

def nowUnixMillisRuntime (clock : Int64) : Fallible UInt64 := do
  rejectIf (clock < 0) (.timestampError "Timestamp error")
  let now := clock.toUInt64
  rejectIf (now < unix2000Millis) (validationErr
    s!"runtime_now_unix_millis: timestamp_ms below UNIX_2000_MILLIS: {now}")
  rejectIf (unix9999Millis < now) (validationErr
    s!"runtime_now_unix_millis: timestamp_ms above UNIX_9999_MILLIS: {now}")
  return now

def validateRuntimeFutureSkewSecs (label : String) (ts now maxFutureSkewSecs : UInt64) :
    Fallible Unit := do
  validateUnixSecsStructural label ts
  validateUnixSecsStructural "now_unix" now
  let maxAllowed ← okOr (checkedAdd now maxFutureSkewSecs) (validationErr
    s!"{label}: overflow computing future skew: now={now} max_future_skew_secs={maxFutureSkewSecs}")
  validateUnixSecsStructural "runtime_future_skew_max_allowed" maxAllowed
  rejectIf (maxAllowed < ts) (validationErr
    s!"{label}: timestamp too far in future: ts={ts} now={now} max_future_skew_secs={maxFutureSkewSecs}")

def validateRuntimeFutureSkewSecsDefault (label : String) (ts now : UInt64) : Fallible Unit :=
  validateRuntimeFutureSkewSecs label ts now maxFutureSkewSecs

end Remzar
