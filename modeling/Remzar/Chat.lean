import Mathlib
import Remzar.ForkGraph
import Remzar.Wallets

/-! Chat messages between wallets: their wire format, the checks on both sides of it, and the bytes
that a signature covers. The JSON parser is a parameter. -/
namespace Remzar
open Fallible Checked Postcard Text

def mlDsa65SignatureLen : ℕ := 3309
def maxChatPlaintextChars : ℕ := 500
def maxChatPlaintextBytes : ℕ := 2*1024
def maxChatJsonBytes : ℕ := 4*1024
def maxChatWireBytes : ℕ := 8*1024
def maxWalletStrBytes : ℕ := 192
def chatMaxFutureSkewMs : UInt64 := 5*60*1000
def chatMaxPastAgeMs : UInt64 := 30*24*60*60*1000

structure ChatJson where
  m : String
  deriving DecidableEq

structure ChatMessage where
  fromWallet : String
  toWallet : String
  timestampMs : UInt64
  json : List UInt8
  signature : List UInt8
  deriving DecidableEq

namespace ChatMessage

def codec : Codec ChatMessage :=
  record (pair string (pair string (pair u64 (pair bytes bytes))))
    (fun msg => (msg.fromWallet, msg.toWallet, msg.timestampMs, msg.json, msg.signature))
    (fun t => ⟨t.1, t.2.1, t.2.2.1, t.2.2.2.1, t.2.2.2.2⟩) (fun _ => rfl)

def nowUnixMillis (clock : Int64) : Fallible UInt64 := do
  rejectIf (clock < 0) (validationErr "system clock ms overflow/underflow (i64 -> u64)")
  return clock.toUInt64

def validateWalletStrCanonical (s field : String) : Fallible Unit := do
  let trimmed := trim s
  rejectIf (trimmed.isEmpty ∨ maxWalletStrBytes < byteLen trimmed) (validationErr (
    s!"{field} wallet string invalid size: {byteLen trimmed} bytes (max {maxWalletStrBytes})"))
  let canon ← canonWalletIdChecked trimmed
  rejectIf (canon ≠ trimmed) (validationErr (
    s!"{field} wallet is not canonical (expected lowercase 'r' + 128 lowercase hex)"))
  rejectIf (byteLen trimmed ≠ remzarWalletLen) (validationErr
    s!"{field} wallet length invalid (expected {remzarWalletLen}): {byteLen trimmed}")

def validateTimestampMs (clock : Int64) (ts : UInt64) : Fallible Unit := do
  let nowMs ← nowUnixMillis clock
  if nowMs < ts then
    let skew := saturatingSub ts nowMs
    rejectIf (chatMaxFutureSkewMs < skew) (validationErr (
      s!"chat timestamp too far in the future: skew {skew} ms (max {chatMaxFutureSkewMs} ms)"))
  else
    let age := saturatingSub nowMs ts
    rejectIf (chatMaxPastAgeMs < age)
      (validationErr s!"chat timestamp too old: age {age} ms (max {chatMaxPastAgeMs} ms)")

section Wire
variable (fromSlice : List UInt8 → Except String ChatJson)

def parseAndValidatePayloadJson (jsonBytes : List UInt8) : Fallible ChatJson := do
  rejectIf (maxChatJsonBytes < jsonBytes.length) (validationErr
    s!"chat payload too large: {jsonBytes.length} bytes (max {maxChatJsonBytes})")
  let payload ← mapErr (fun e => .serializationError s!"Chat JSON deserialization failed: {e}")
    (fromSlice jsonBytes)
  rejectIf ((trim payload.m).isEmpty) (validationErr "chat plaintext cannot be empty")
  let chars := (chars payload.m).length
  rejectIf (maxChatPlaintextChars < chars)
    (validationErr s!"chat plaintext too long: {chars} chars (max {maxChatPlaintextChars})")
  let bytes := byteLen payload.m
  rejectIf (maxChatPlaintextBytes < bytes)
    (validationErr s!"chat plaintext too large: {bytes} bytes (max {maxChatPlaintextBytes})")
  return payload

def rejectSameWallet (msg : ChatMessage) : Fallible Unit :=
  rejectIf (msg.fromWallet = msg.toWallet)
    (validationErr "from_wallet and to_wallet cannot be the same for chat")

def ensureSignatureLen (msg : ChatMessage) : Fallible Unit :=
  rejectIf (msg.signature.length ≠ mlDsa65SignatureLen) (.serializationError
    s!"chat signature length {msg.signature.length} != expected {mlDsa65SignatureLen}")

def encodeWire (msg : ChatMessage) : Fallible (List UInt8) := do
  let _ ← parseAndValidatePayloadJson fromSlice msg.json
  msg.ensureSignatureLen
  validateWalletStrCanonical msg.fromWallet "from_wallet"
  validateWalletStrCanonical msg.toWallet "to_wallet"
  msg.rejectSameWallet
  let out := codec.enc msg
  rejectIf (maxChatWireBytes < out.length) (validationErr
    s!"chat wire message too large: {out.length} bytes (max {maxChatWireBytes})")
  return out

def decodeWire (clock : Int64) (bytes : List UInt8) : Fallible ChatMessage := do
  rejectIf (maxChatWireBytes < bytes.length) (validationErr
    s!"chat wire bytes too large: {bytes.length} bytes (max {maxChatWireBytes})")
  let msg ← mapErr (fun e => .serializationError
    s!"ChatMessage postcard deserialization failed: {e.describe}") (fromBytes codec bytes)
  let _ ← parseAndValidatePayloadJson fromSlice msg.json
  msg.ensureSignatureLen
  validateWalletStrCanonical msg.fromWallet "from_wallet"
  validateWalletStrCanonical msg.toWallet "to_wallet"
  validateTimestampMs clock msg.timestampMs
  msg.rejectSameWallet
  return msg

end Wire

/-- What is hashed and signed. -/
def buildPreimage (msg : ChatMessage) : List UInt8 :=
  utf8 msg.fromWallet ++ 124 :: (utf8 msg.toWallet ++ 124 :: (Block.u64Be msg.timestampMs ++
    124 :: msg.json))

/-! ### Wallet fields -/

/-- The wallet a field names, with white space around it or not. -/
theorem canonWalletIdChecked_trim (s : String) :
    canonWalletIdChecked (trim s) = canonWalletIdChecked s := by
  rw [canonWalletIdChecked, canonWalletIdChecked, trim_idem]

theorem validateWalletStrCanonical_iff {s field : String} :
    validateWalletStrCanonical s field = .ok () ↔ canonWalletIdChecked s = .ok (trim s) := by
  simp only [validateWalletStrCanonical, canonWalletIdChecked_trim, bind_eq_ok_iff,
    Unique.exists_iff, rejectIf_eq_ok_iff, ne_eq, not_not]
  constructor
  · rintro ⟨-, canon, hcanon, rfl, -⟩
    exact hcanon
  · intro h
    have hcanonical := canonWalletIdChecked_canonical h
    refine ⟨?_, trim s, h, rfl, hcanonical.len⟩
    rw [not_or, hcanonical.len]
    refine ⟨fun hempty => ?_, by decide⟩
    have hlen := hcanonical.len
    rw [String.isEmpty_iff.mp hempty] at hlen
    exact absurd hlen (by decide)

/-- A character that is not white space survives trimming. -/
theorem mem_trim_of_not_space {s : String} {c : Char} (hc : c ∈ s.toList)
    (hspace : isWhitespace c = false) : c ∈ (trim s).toList := by
  have hkeep : ∀ cs : List Char, c ∈ cs → c ∈ cs.dropWhile isWhitespace := by
    intro cs hmem
    rw [← List.takeWhile_append_dropWhile (p := isWhitespace) (l := cs), List.mem_append] at hmem
    rcases hmem with htake | hdrop
    · rw [List.mem_takeWhile_imp htake] at hspace
      cases hspace
    · exact hdrop
  rw [trim, String.toList_ofList, chars_eq, trimChars, dropEndWhile, List.mem_reverse]
  exact hkeep _ (List.mem_reverse.mpr (hkeep _ hc))

theorem separator_not_wallet {wallet : String} (h : CanonicalWallet wallet) :
    (124 : UInt8) ∉ utf8 wallet := by
  have hsplit : utf8 wallet = 114 :: (utf8 wallet).tail :=
    List.eq_cons_of_mem_head? (Option.mem_def.mpr h.head)
  rw [hsplit, List.mem_cons]
  rintro (heq | hmem)
  · exact absurd heq (by decide)
  · exact absurd (List.all_eq_true.mp h.hex _ hmem) (by decide)

/-- No accepted wallet field contains the separator. -/
theorem separator_not_mem {s : String} (h : canonWalletIdChecked s = .ok (trim s)) :
    (124 : UInt8) ∉ utf8 s := by
  intro hmem
  have hchar : '|' ∈ s.toList := mem_of_mem_utf8 (by decide) hmem
  have htrim := mem_trim_of_not_space hchar (by decide)
  have hbyte : (124 : UInt8) ∈ utf8 (trim s) := by
    rw [utf8_eq]
    exact List.mem_flatMap_of_mem htrim (by decide)
  exact separator_not_wallet (canonWalletIdChecked_canonical h) hbyte

/-- A list is split at the first separator in one way only. -/
theorem split_inj {a b x y : List UInt8} {sep : UInt8} (ha : sep ∉ a) (hb : sep ∉ b)
    (h : a ++ sep :: x = b ++ sep :: y) : a = b ∧ x = y := by
  have hfirst : ∀ {c z : List UInt8}, sep ∉ c → (c ++ sep :: z).takeWhile (· ≠ sep) = c := by
    intro c z hc
    have hkeep : ∀ u ∈ c, decide (u ≠ sep) = true := by
      intro u hu
      exact decide_eq_true fun heq => hc (heq ▸ hu)
    rw [List.takeWhile_append_of_pos hkeep, List.takeWhile_cons_of_neg (by simp), List.append_nil]
  have hab : a = b := by rw [← hfirst (z := x) ha, h, hfirst hb]
  subst hab
  exact ⟨rfl, (List.cons.inj (List.append_cancel_left h)).2⟩

/-! ### Accepted messages -/

/-- What both ends check of a message. -/
structure Accepted (fromSlice : List UInt8 → Except String ChatJson) (msg : ChatMessage) :
    Prop where
  payload : ∃ p, parseAndValidatePayloadJson fromSlice msg.json = .ok p
  signature : msg.ensureSignatureLen = .ok ()
  sender : canonWalletIdChecked msg.fromWallet = .ok (trim msg.fromWallet)
  recipient : canonWalletIdChecked msg.toWallet = .ok (trim msg.toWallet)
  distinct : msg.rejectSameWallet = .ok ()

section
variable {fromSlice : List UInt8 → Except String ChatJson} {clock clock' : Int64}
  {b b' : List UInt8} {msg msg' : ChatMessage}

theorem decodeWire_accepted (h : decodeWire fromSlice clock b = .ok msg) :
    b.length ≤ maxChatWireBytes ∧ fromBytes codec b = .ok msg ∧ msg.Accepted fromSlice := by
  simp only [decodeWire, bind_eq_ok_iff, Unique.exists_iff, mapErr_eq_ok_iff,
    pure_eq_ok_iff] at h
  obtain ⟨hlen, decoded, hread, p, hp, hsig, hsender, hrecipient, -, hdistinct, rfl⟩ := h
  have hshort := (rejectIf_eq_ok_iff _ _ _).mp hlen
  exact ⟨Nat.le_of_not_lt hshort, hread, ⟨p, hp⟩, hsig,
    validateWalletStrCanonical_iff.mp hsender, validateWalletStrCanonical_iff.mp hrecipient,
    hdistinct⟩

theorem encodeWire_eq_ok_iff : encodeWire fromSlice msg = .ok b ↔
    msg.Accepted fromSlice ∧ b.length ≤ maxChatWireBytes ∧ codec.enc msg = b := by
  simp only [encodeWire, bind_eq_ok_iff, Unique.exists_iff, pure_eq_ok_iff]
  constructor
  · rintro ⟨p, hp, hsig, hsender, hrecipient, hdistinct, hlen, rfl⟩
    have hshort := (rejectIf_eq_ok_iff _ _ _).mp hlen
    exact ⟨⟨⟨p, hp⟩, hsig, validateWalletStrCanonical_iff.mp hsender,
      validateWalletStrCanonical_iff.mp hrecipient, hdistinct⟩, Nat.le_of_not_lt hshort, rfl⟩
  · rintro ⟨⟨⟨p, hp⟩, hsig, hsender, hrecipient, hdistinct⟩, hlen, rfl⟩
    exact ⟨p, hp, hsig, validateWalletStrCanonical_iff.mpr hsender,
      validateWalletStrCanonical_iff.mpr hrecipient, hdistinct,
      rejectIf_of_not _ (Nat.not_lt.mpr hlen), rfl⟩

/-- A message whose encoding is short can be read back. -/
theorem fits_of_length (h : (codec.enc msg).length ≤ maxChatWireBytes) : codec.Fits msg := by
  have henc : codec.enc msg = string.enc msg.fromWallet ++ (string.enc msg.toWallet ++
      (u64.enc msg.timestampMs ++ (bytes.enc msg.json ++ bytes.enc msg.signature))) := rfl
  have hbytes : ∀ x : List UInt8, x.length ≤ (bytes.enc x).length := by
    intro x
    change x.length ≤ (usize.enc x.length ++ x).length
    rw [List.length_append]
    exact Nat.le_add_left _ _
  have hsender := string_enc_length msg.fromWallet
  have hrecipient := string_enc_length msg.toWallet
  have hjson := hbytes msg.json
  have hsignature := hbytes msg.signature
  simp only [henc, List.length_append, maxChatWireBytes] at h
  refine ⟨?_, ?_, trivial, ?_, ?_⟩
  · change (utf8 msg.fromWallet).length < 2^64
    omega
  · change (utf8 msg.toWallet).length < 2^64
    omega
  · change msg.json.length < 2^64
    omega
  · change msg.signature.length < 2^64
    omega

/-- Wallet fields without white space around them. -/
def Plain (msg : ChatMessage) : Prop :=
  trim msg.fromWallet = msg.fromWallet ∧ trim msg.toWallet = msg.toWallet

/-- The message names two wallets, exactly as they are, and is sent on as it came. -/
def Canonical (fromSlice : List UInt8 → Except String ChatJson) (msg : ChatMessage)
    (b : List UInt8) : Prop :=
  canonWalletIdChecked msg.fromWallet = .ok msg.fromWallet ∧
    canonWalletIdChecked msg.toWallet = .ok msg.toWallet ∧
    canonWalletIdChecked msg.fromWallet ≠ canonWalletIdChecked msg.toWallet ∧
    encodeWire fromSlice msg = .ok b

theorem canonical_iff (h : decodeWire fromSlice clock b = .ok msg) :
    msg.Canonical fromSlice b ↔ ∃ m : ChatMessage, m.Plain ∧ codec.enc m = b := by
  obtain ⟨hlen, hread, haccepted⟩ := decodeWire_accepted h
  constructor
  · rintro ⟨hsender, hrecipient, -, hencode⟩
    rw [haccepted.sender, Except.ok.injEq] at hsender
    rw [haccepted.recipient, Except.ok.injEq] at hrecipient
    exact ⟨msg, ⟨hsender, hrecipient⟩, (encodeWire_eq_ok_iff.mp hencode).2.2⟩
  · rintro ⟨m, ⟨hsender, hrecipient⟩, rfl⟩
    rw [fromBytes_enc codec m (fits_of_length hlen)] at hread
    obtain rfl := Except.ok.inj hread
    have hdistinct := (rejectIf_eq_ok_iff _ _ _).mp haccepted.distinct
    have hfrom := haccepted.sender
    have hto := haccepted.recipient
    rw [hsender] at hfrom
    rw [hrecipient] at hto
    refine ⟨hfrom, hto, ?_, encodeWire_eq_ok_iff.mpr ⟨haccepted, hlen, rfl⟩⟩
    rw [hfrom, hto]
    exact fun heq => hdistinct (Except.ok.inj heq)

theorem preimage_inj (h : msg.Accepted fromSlice) (h' : msg'.Accepted fromSlice)
    (heq : msg.buildPreimage = msg'.buildPreimage) :
    msg.fromWallet = msg'.fromWallet ∧ msg.toWallet = msg'.toWallet ∧
      msg.timestampMs = msg'.timestampMs ∧ msg.json = msg'.json := by
  obtain ⟨hsender, hrest⟩ :=
    split_inj (separator_not_mem h.sender) (separator_not_mem h'.sender) heq
  obtain ⟨hrecipient, hrest⟩ :=
    split_inj (separator_not_mem h.recipient) (separator_not_mem h'.recipient) hrest
  obtain ⟨htime, hrest⟩ := List.append_inj hrest (by rw [u64Be_length, u64Be_length])
  refine ⟨utf8_injective hsender, utf8_injective hrecipient, ?_, (List.cons.inj hrest).2⟩
  rw [← decode_u64Be msg.timestampMs, ← decode_u64Be msg'.timestampMs, htime]

end

/-- The accepted bytes that keep to the format are the encodings of messages with plain wallet
fields; what is signed says who writes to whom, when and what, for all accepted messages. -/
theorem chat_messages_canonical (fromSlice : List UInt8 → Except String ChatJson) :
    (∀ clock b msg, decodeWire fromSlice clock b = .ok msg →
      (msg.Canonical fromSlice b ↔ ∃ m : ChatMessage, m.Plain ∧ codec.enc m = b)) ∧
    ∀ clock clock' b b' msg msg', decodeWire fromSlice clock b = .ok msg →
      decodeWire fromSlice clock' b' = .ok msg' → msg.buildPreimage = msg'.buildPreimage →
      msg.fromWallet = msg'.fromWallet ∧ msg.toWallet = msg'.toWallet ∧
        msg.timestampMs = msg'.timestampMs ∧ msg.json = msg'.json := by
  refine ⟨fun clock b msg h => canonical_iff h, fun clock clock' b b' msg msg' h h' heq => ?_⟩
  exact preimage_inj (decodeWire_accepted h).2.2 (decodeWire_accepted h').2.2 heq

/-! ### One wallet, written in two ways -/

namespace Spaced

def wallet : String := String.ofList ('r' :: List.replicate 128 'a')

def greeting : List UInt8 := utf8 "\x7b\"m\":\"hi\"\x7d"

/-- The JSON parser, on the text of one message. -/
def parser (json : List UInt8) : Except String ChatJson :=
  if json = greeting then .ok ⟨"hi"⟩ else .error "expected value at line 1 column 1"

/-- A wallet writes to itself, with a space behind the recipient. -/
def message : ChatMessage :=
  ⟨wallet, wallet ++ " ", 1700000000000, greeting, List.replicate 3309 0⟩

theorem accepted : message.Accepted parser where
  payload := ⟨⟨"hi"⟩, by decide⟩
  signature := by decide +kernel
  sender := by decide +kernel
  recipient := by decide +kernel
  distinct := by decide +kernel

end Spaced

/-- A message from a wallet to itself is accepted, with a recipient that is no wallet id. -/
theorem spaced_recipient_accepted :
    decodeWire Spaced.parser 1700000000000 (codec.enc Spaced.message) = .ok Spaced.message ∧
    canonWalletIdChecked Spaced.message.toWallet =
      canonWalletIdChecked Spaced.message.fromWallet ∧
    canonWalletIdChecked Spaced.message.toWallet ≠ .ok Spaced.message.toWallet := by
  have hlen : (codec.enc Spaced.message).length ≤ maxChatWireBytes := by decide +kernel
  have hread := fromBytes_enc codec Spaced.message (fits_of_length hlen)
  have htime : validateTimestampMs 1700000000000 Spaced.message.timestampMs = .ok () := by
    decide +kernel
  obtain ⟨⟨p, hp⟩, hsig, hsender, hrecipient, hdistinct⟩ := Spaced.accepted
  refine ⟨?_, by decide +kernel, by decide +kernel⟩
  rw [decodeWire, rejectIf_of_not _ (Nat.not_lt.mpr hlen), ok_bind, hread, mapErr, ok_bind, hp,
    ok_bind, hsig, ok_bind, validateWalletStrCanonical_iff.mpr hsender, ok_bind,
    validateWalletStrCanonical_iff.mpr hrecipient, ok_bind, htime, ok_bind, hdistinct]
  rfl

end ChatMessage
end Remzar
