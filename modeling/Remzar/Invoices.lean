import Mathlib
import Remzar.Wallets
import Remzar.AccountGuard

/-! Private receive invoices: a prefix, a version and a one-time wallet, written in one place and
parsed in two. -/
namespace Remzar
open Fallible Text

/-! ### Texts -/

/-- `str::strip_prefix`. -/
def stripPrefix ( pre s : String) : Option String :=
  ((chars pre).isPrefixOf? (chars s)).map String.ofList

/-- `str::split_once`. -/
def splitOnce (sep : Char) (s : String) : Option (String × String) :=
  match (chars s).dropWhile (· ≠ sep) with
  | [] => none
  | _ :: rest => some (String.ofList ((chars s).takeWhile (· ≠ sep)), String.ofList rest)

/-- `str::split`. -/
def splitText (sep : Char) (s : String) : List String := ((chars s).splitOn sep).map String.ofList

/-- `str::contains`. -/
def containsChar (sep : Char) (s : String) : Bool := (chars s).contains sep

def isAscii (s : String) : Bool := (utf8 s).all fun b => b < 0x80

def isAsciiWhitespace (b : UInt8) : Bool :=
  b = 0x09 || b = 0x0A || b = 0x0C || b = 0x0D || b = 0x20

/-! ### The receiving side -/

def privateReceiveVersion : UInt16 := 1
def privateReceiveInvoicePrefix : String := "remzar-private-receive"
def maxPrivateReceiveInvoiceLen : ℕ := 512
def walletFileExt : String := "wallet"

structure PrivateReceiveWalletRecord where
  version : UInt16
  kind : String
  ownerWallet : String
  oneTimeWallet : String
  invoice : String
  createdUnixSecs : UInt64
  walletFileName : String

namespace PrivateRW

def makeInvoice (oneTimeWallet : String) : Fallible String := do
  let oneTimeWallet ← canonWalletIdChecked oneTimeWallet
  let invoice := s!"{privateReceiveInvoicePrefix}:v{privateReceiveVersion}:{oneTimeWallet}"
  rejectIf (maxPrivateReceiveInvoiceLen < byteLen invoice)
    (validationErr "Private receive invoice exceeds maximum allowed length")
  return invoice

/-- The wallet part of an invoice without its prefix. -/
def parseInvoiceRest (rest : String) : Fallible String := do
  let (versionPart, walletPart) ← okOr (splitOnce ':' rest) (validationErr
    "Invalid private receive invoice. Expected remzar-private-receive:v1:<wallet>")
  let expectedVersion := s!"v{privateReceiveVersion}"
  rejectIf (versionPart ≠ expectedVersion) (validationErr (
    s!"Unsupported private receive invoice version '{versionPart}'; " ++
      s!"expected '{expectedVersion}'"))
  rejectIf (walletPart.isEmpty)
    (validationErr "Private receive invoice wallet address is empty")
  rejectIf (containsChar ':' walletPart)
    (validationErr "Invalid private receive invoice: too many ':' separators")
  mapErr (fun e => validationErr s!"Invalid private receive invoice wallet address: {e.display}")
    (canonWalletIdChecked walletPart)

def parseInvoiceOrAddress (input : String) : Fallible String := do
  let s := trim input
  rejectIf (s.isEmpty) (validationErr "Private receive invoice/address cannot be empty")
  rejectIf (maxPrivateReceiveInvoiceLen < byteLen s) (validationErr (
    s!"Private receive invoice/address too long: {byteLen s} > " ++
      s!"{maxPrivateReceiveInvoiceLen}"))
  match stripPrefix s!"{privateReceiveInvoicePrefix}:" s with
  | some rest => parseInvoiceRest rest
  | none => do
    rejectIf (containsChar ':' s) (validationErr (
      "Invalid private receive invoice/address. Expected remzar-private-receive:v1:<wallet> " ++
        "or raw wallet address"))
    mapErr (fun e => validationErr s!"Invalid private receive wallet address: {e.display}")
      (canonWalletIdChecked s)

def walletFileName (wallet : String) : String := s!"{wallet}.{walletFileExt}"

def validateRecord (record : PrivateReceiveWalletRecord) : Fallible Unit := do
  rejectIf (record.version ≠ privateReceiveVersion) (validationErr (
    s!"Private receive record version mismatch: expected {privateReceiveVersion}, " ++
      s!"got {record.version}"))
  rejectIf (record.kind ≠ "remzar_private_receive_wallet")
    (validationErr s!"Invalid private receive record kind '{record.kind}'")
  let owner ← canonWalletIdChecked record.ownerWallet
  let oneTime ← canonWalletIdChecked record.oneTimeWallet
  rejectIf (owner = oneTime) (validationErr
    "Private receive record owner and one-time wallet cannot be the same")
  let parsed ← parseInvoiceOrAddress record.invoice
  rejectIf (parsed ≠ oneTime)
    (validationErr "Private receive record invoice does not match one-time wallet")
  rejectIf (record.createdUnixSecs = 0)
    (validationErr "Private receive record has invalid created_unix_secs=0")
  rejectIf (record.walletFileName ≠ walletFileName oneTime) (validationErr
    "Private receive record wallet_file_name does not match one-time wallet")

end PrivateRW

/-! ### The sending side -/

inductive PrivateReceiveInvoiceSource where
  | invoice
  | rawOneTimeWallet
  deriving DecidableEq

structure PrivateReceiveInvoiceParseResult where
  source : PrivateReceiveInvoiceSource
  oneTimeWallet : String
  canonicalInvoice : String
  deriving DecidableEq

namespace PrivateRI

def normalizeInput (input : String) : Fallible String := do
  let s := trim input
  rejectIf (s.isEmpty) (validationErr "Private receive invoice/address cannot be empty")
  rejectIf (maxPrivateReceiveInvoiceLen < byteLen s) (validationErr (
    s!"Private receive invoice/address too long: {byteLen s} > " ++
      s!"{maxPrivateReceiveInvoiceLen}"))
  rejectIf (¬isAscii s) (validationErr "Private receive invoice/address must be ASCII")
  rejectIf ((utf8 s).any isAsciiControl)
    (validationErr "Private receive invoice/address contains control characters")
  rejectIf ((utf8 s).any isAsciiWhitespace)
    (validationErr "Private receive invoice/address contains internal whitespace")
  return s

def canonicalWallet (wallet : String) : Fallible String :=
  mapErr (fun e => validationErr
    s!"Invalid Remzar wallet address for private receive invoice: {e.display}")
    (canonWalletIdChecked wallet)

def looksLikePrivateReceiveInvoice (input : String) : Bool :=
  (chars s!"{privateReceiveInvoicePrefix}:v{privateReceiveVersion}:").isPrefixOf
    (chars (trim input))

def parseInvoiceToWalletStrict (invoice : String) : Fallible String := do
  let s ← normalizeInput invoice
  let parts := splitText ':' s
  rejectIf (3 < parts.length)
    (validationErr "Invalid private receive invoice: too many ':' separators")
  let prefixPart := parts.getD 0 ""
  rejectIf (prefixPart ≠ privateReceiveInvoicePrefix) (validationErr (
    s!"Invalid private receive invoice prefix '{prefixPart}'; " ++
      s!"expected '{privateReceiveInvoicePrefix}'"))
  let versionPart := parts.getD 1 ""
  let expectedVersion := s!"v{privateReceiveVersion}"
  rejectIf (versionPart ≠ expectedVersion) (validationErr (
    s!"Unsupported private receive invoice version '{versionPart}'; " ++
      s!"expected '{expectedVersion}'"))
  let walletPart := parts.getD 2 ""
  rejectIf (walletPart.isEmpty)
    (validationErr "Private receive invoice wallet address is empty")
  canonicalWallet walletPart

/-- The wallet of an input, by what the input looks like. -/
def parseBySource (s : String) : PrivateReceiveInvoiceSource → Fallible String
  | .invoice => parseInvoiceToWalletStrict s
  | .rawOneTimeWallet => do
    rejectIf (containsChar ':' s) (validationErr (
      s!"Invalid private receive target. Expected '{privateReceiveInvoicePrefix}:" ++
        s!"v{privateReceiveVersion}:<wallet>' or raw one-time wallet address"))
    canonicalWallet s

def parseInvoiceOrAddress (input : String) : Fallible PrivateReceiveInvoiceParseResult := do
  let s ← normalizeInput input
  let source : PrivateReceiveInvoiceSource :=
    if looksLikePrivateReceiveInvoice s then .invoice else .rawOneTimeWallet
  let oneTimeWallet ← parseBySource s source
  let canonicalInvoice ← PrivateRW.makeInvoice oneTimeWallet
  return ⟨source, oneTimeWallet, canonicalInvoice⟩

end PrivateRI

/-! ### What the parsers accept -/

def invoiceTag : String := s!"{privateReceiveInvoicePrefix}:v{privateReceiveVersion}:"

theorem invoiceTag_append (x : String) :
    invoiceTag ++ x = s!"{privateReceiveInvoicePrefix}:" ++ ("v1:" ++ x) := by
  have htag : invoiceTag = s!"{privateReceiveInvoicePrefix}:" ++ "v1:" := by decide
  rw [htag, String.append_assoc]

theorem byteLen_invoiceTag : byteLen invoiceTag = 26 := by decide

theorem colon_mem_invoiceTag : ':' ∈ invoiceTag.toList := by decide

theorem colon_mem_invoice (x : String) : ':' ∈ (invoiceTag ++ x).toList := by
  rw [String.toList_append]
  exact List.mem_append_left _ colon_mem_invoiceTag

theorem versionText_eq : s!"v{privateReceiveVersion}" = "v1" := by decide

theorem stripPrefix_eq_some_iff {pre s rest : String} :
    stripPrefix pre s = some rest ↔ s = pre ++ rest := by
  simp only [stripPrefix, chars_eq, Option.map_eq_some_iff, List.isPrefixOf?_eq_some_iff_append_eq]
  constructor
  · rintro ⟨cs, hcs, rfl⟩
    apply String.toList_injective
    rw [String.toList_append, String.toList_ofList, hcs]
  · rintro rfl
    exact ⟨rest.toList, String.toList_append.symm, String.ofList_toList⟩

theorem splitOnce_eq_some_iff {sep : Char} {s before after : String} :
    splitOnce sep s = some (before, after) ↔
      sep ∉ before.toList ∧ s.toList = before.toList ++ sep :: after.toList := by
  have hsplit := List.takeWhile_append_dropWhile (p := (· ≠ sep)) (l := s.toList)
  rw [splitOnce, chars_eq]
  constructor
  · intro h
    split at h
    · cases h
    · rename_i c rest hrest
      cases h
      have hc : c = sep := by
        have hne := List.head?_dropWhile_not (· ≠ sep) s.toList
        rw [hrest] at hne
        simpa using hne
      rw [hrest, hc] at hsplit
      rw [String.toList_ofList, String.toList_ofList]
      refine ⟨fun hmem => ?_, hsplit.symm⟩
      simpa using List.mem_takeWhile_imp hmem
  · rintro ⟨hbefore, hs⟩
    have hkeep : ∀ c ∈ before.toList, (decide (c ≠ sep)) = true := by
      intro c hc
      exact decide_eq_true fun heq => hbefore (heq ▸ hc)
    rw [hs, List.dropWhile_append_of_pos hkeep, List.takeWhile_append_of_pos hkeep]
    simp

theorem containsChar_iff {c : Char} {s : String} : containsChar c s = true ↔ c ∈ s.toList := by
  rw [containsChar, chars_eq, List.contains_iff_mem]

/-- What stands for a wallet: an invoice for it, or the wallet alone. -/
def Target (t wallet : String) : Prop :=
  (∃ x, t = invoiceTag ++ x ∧ ':' ∉ x.toList ∧ canonWalletIdChecked x = .ok wallet) ∨
    (':' ∉ t.toList ∧ canonWalletIdChecked t = .ok wallet)

theorem not_empty_of_canon {s wallet : String} (h : canonWalletIdChecked s = .ok wallet) :
    s.isEmpty = false := by
  rw [← Bool.not_eq_true]
  intro hempty
  obtain rfl := String.isEmpty_iff.mp hempty
  have hrefused : canonWalletIdChecked "" = .error invalidWallet := by decide
  rw [hrefused] at h
  cases h

theorem Target.not_empty {t wallet : String} (h : Target t wallet) : t.isEmpty = false := by
  rcases h with ⟨x, rfl, -, -⟩ | ⟨-, hcanon⟩
  · have htag : invoiceTag ≠ "" := by decide
    simp [htag]
  · exact not_empty_of_canon hcanon

theorem Target.canonical {t wallet : String} (h : Target t wallet) : CanonicalWallet wallet := by
  rcases h with ⟨x, -, -, hcanon⟩ | ⟨-, hcanon⟩
  · exact canonWalletIdChecked_canonical hcanon
  · exact canonWalletIdChecked_canonical hcanon

theorem CanonicalWallet.invoice_len {wallet : String} (h : CanonicalWallet wallet) :
    byteLen (invoiceTag ++ wallet) ≤ maxPrivateReceiveInvoiceLen := by
  have htag := byteLen_invoiceTag
  have hlen : byteLen wallet = 129 := h.len
  rw [byteLen] at htag hlen
  rw [byteLen, utf8_append, List.length_append, htag, hlen]
  decide

namespace PrivateRW

theorem parseInvoiceRest_ok_iff {rest wallet : String} : parseInvoiceRest rest = .ok wallet ↔
    ∃ x, rest = "v1:" ++ x ∧ ':' ∉ x.toList ∧ canonWalletIdChecked x = .ok wallet := by
  simp only [parseInvoiceRest, versionText_eq, bind_eq_ok_iff, okOr_eq_ok_iff, rejectIf_eq_ok_iff,
    mapErr_eq_ok_iff, containsChar_iff, Prod.exists, splitOnce_eq_some_iff, not_not,
    Bool.not_eq_true]
  constructor
  · rintro ⟨before, x, ⟨-, hrest⟩, _, rfl, _, -, _, hcolon, hcanon⟩
    refine ⟨x, ?_, hcolon, hcanon⟩
    apply String.toList_injective
    rw [hrest, String.toList_append]
    rfl
  · rintro ⟨x, rfl, hcolon, hcanon⟩
    refine ⟨"v1", x, ⟨by decide, ?_⟩, (), rfl, (), not_empty_of_canon hcanon, (), hcolon, hcanon⟩
    rw [String.toList_append]
    rfl

theorem parseInvoiceOrAddress_ok_iff {s wallet : String} :
    parseInvoiceOrAddress s = .ok wallet ↔
      byteLen (trim s) ≤ maxPrivateReceiveInvoiceLen ∧ Target (trim s) wallet := by
  simp only [parseInvoiceOrAddress, bind_eq_ok_iff, rejectIf_eq_ok_iff, not_lt, Bool.not_eq_true]
  generalize hpre : s!"{privateReceiveInvoicePrefix}:" = pre
  have htag : ∀ x, invoiceTag ++ x = pre ++ ("v1:" ++ x) := hpre ▸ invoiceTag_append
  have hbody : (match stripPrefix pre (trim s) with
      | some rest => parseInvoiceRest rest
      | none => do
        rejectIf (containsChar ':' (trim s)) (validationErr (
          "Invalid private receive invoice/address. Expected remzar-private-receive:v1:<wallet> " ++
            "or raw wallet address"))
        mapErr (fun e : ErrorDetection =>
          validationErr s!"Invalid private receive wallet address: {e.display}")
          (canonWalletIdChecked (trim s))) = .ok wallet ↔ Target (trim s) wallet := by
    cases hstrip : stripPrefix pre (trim s) with
    | some rest =>
      have hs := stripPrefix_eq_some_iff.mp hstrip
      rw [hs, parseInvoiceRest_ok_iff]
      constructor
      · rintro ⟨x, rfl, hx⟩
        exact .inl ⟨x, (htag x).symm, hx⟩
      · rintro (⟨x, hsame, hx⟩ | ⟨hcolon, -⟩)
        · rw [htag] at hsame
          exact ⟨x, (String.append_right_inj _).mp hsame, hx⟩
        · refine absurd ?_ hcolon
          rw [String.toList_append, ← hpre]
          exact List.mem_append_left _ (by decide)
    | none =>
      simp only [bind_eq_ok_iff, rejectIf_eq_ok_iff, mapErr_eq_ok_iff, containsChar_iff]
      constructor
      · rintro ⟨_, hcolon, hcanon⟩
        exact .inr ⟨hcolon, hcanon⟩
      · rintro (⟨x, hsame, -⟩ | ⟨hcolon, hcanon⟩)
        · rw [htag, ← stripPrefix_eq_some_iff, hstrip] at hsame
          cases hsame
        · exact ⟨(), hcolon, hcanon⟩
  constructor
  · rintro ⟨_, -, _, hlen, h⟩
    exact ⟨hlen, hbody.mp h⟩
  · rintro ⟨hlen, htarget⟩
    exact ⟨(), htarget.not_empty, (), hlen, hbody.mpr htarget⟩

theorem makeInvoice_ok_iff {oneTimeWallet invoice : String} :
    makeInvoice oneTimeWallet = .ok invoice ↔
      ∃ wallet, canonWalletIdChecked oneTimeWallet = .ok wallet ∧
        invoiceTag ++ wallet = invoice := by
  simp only [makeInvoice, bind_eq_ok_iff, rejectIf_eq_ok_iff, pure_eq_ok_iff, not_lt]
  constructor
  · rintro ⟨wallet, hwallet, _, -, rfl⟩
    exact ⟨wallet, hwallet, rfl⟩
  · rintro ⟨wallet, hwallet, rfl⟩
    exact ⟨wallet, hwallet, (), (canonWalletIdChecked_canonical hwallet).invoice_len, rfl⟩

end PrivateRW

/-! ### Plain texts -/

/-- Without the bytes the sending side refuses. -/
def plainText (t : String) : Bool :=
  isAscii t && !(utf8 t).any isAsciiControl && !(utf8 t).any isAsciiWhitespace

theorem plainText_iff {t : String} : plainText t = true ↔
    ∀ b ∈ utf8 t, b < 0x80 ∧ isAsciiControl b = false ∧ isAsciiWhitespace b = false := by
  simp only [plainText, isAscii, Bool.and_eq_true, List.all_eq_true, decide_eq_true_eq,
    Bool.not_eq_true', List.any_eq_false, Bool.not_eq_true]
  exact ⟨fun ⟨⟨ha, hc⟩, hw⟩ b hb => ⟨ha b hb, hc b hb, hw b hb⟩,
    fun h => ⟨⟨fun b hb => (h b hb).1, fun b hb => (h b hb).2.1⟩, fun b hb => (h b hb).2.2⟩⟩

theorem plainText_append {s t : String} :
    plainText (s ++ t) = true ↔ plainText s = true ∧ plainText t = true := by
  simp only [plainText_iff, utf8_append, List.mem_append]
  exact ⟨fun h => ⟨fun b hb => h b (.inl hb), fun b hb => h b (.inr hb)⟩,
    fun ⟨hs, ht⟩ b hb => hb.elim (hs b) (ht b)⟩

/-- The plain bytes are the visible ones. -/
theorem plain_byte_iff {b : UInt8} : (b < 0x80 ∧ isAsciiControl b = false ∧
    isAsciiWhitespace b = false) ↔ 33 ≤ b.toNat ∧ b.toNat ≤ 126 := by
  simp only [isAsciiControl, isAsciiWhitespace, Bool.or_eq_false_iff, decide_eq_false_iff_not,
    beq_eq_false_iff_ne, ne_eq, UInt8.lt_iff_toNat_lt, ← UInt8.toNat_inj]
  change b.toNat < 128 ∧ (¬b.toNat < 32 ∧ ¬b.toNat = 127) ∧ ((((¬b.toNat = 9 ∧ ¬b.toNat = 10) ∧
    ¬b.toNat = 12) ∧ ¬b.toNat = 13) ∧ ¬b.toNat = 32) ↔ _
  omega

theorem toNat_ofNat_byte (b : UInt8) : (Char.ofNat b.toNat).toNat = b.toNat := by
  have hlt := b.toNat_lt
  rw [Char.toNat_ofNat, if_pos (.inl (by omega))]

theorem trim_of_plainText {t : String} (h : plainText t = true) : trim t = t := by
  have hbytes := plainText_iff.mp h
  apply trim_of_forall
  intro c hc
  obtain ⟨b, hb, rfl⟩ := mem_utf8_of_ascii (fun b hb => (hbytes b hb).1) hc
  obtain ⟨hlow, hhigh⟩ := plain_byte_iff.mp (hbytes b hb)
  simp only [isWhitespace, toNat_ofNat_byte, Bool.or_eq_false_iff, Bool.and_eq_false_iff,
    decide_eq_false_iff_not, beq_eq_false_iff_ne]
  omega

/-- A character that lowercases to a digit of a wallet is plain. -/
theorem plain_of_lower {c : Char} {b : UInt8} (hb : b = 114 ∨ isLowerHex b = true)
    (h : Char.ofNat b.toNat = if 'A' ≤ c ∧ c ≤ 'Z' then Char.ofNat (c.toNat+32) else c) :
    ∀ a ∈ String.utf8EncodeChar c, a < 0x80 ∧ isAsciiControl a = false ∧
      isAsciiWhitespace a = false := by
  obtain ⟨d, hd, hrange⟩ : ∃ d : UInt8, c = Char.ofNat d.toNat ∧ 33 ≤ d.toNat ∧ d.toNat ≤ 126 := by
    split at h
    · rename_i hletter
      have hA : 65 ≤ c.toNat := hletter.1
      have hZ : c.toNat ≤ 90 := hletter.2
      have hsame : (UInt8.ofNat c.toNat).toNat = c.toNat :=
        Nat.mod_eq_of_lt (by omega)
      exact ⟨UInt8.ofNat c.toNat, by rw [hsame, Char.ofNat_toNat], by omega, by omega⟩
    · refine ⟨b, h.symm, ?_⟩
      rcases hb with rfl | hb
      · decide
      · simp only [isLowerHex, Bool.or_eq_true, Bool.and_eq_true, decide_eq_true_eq,
          UInt8.le_iff_toNat_le] at hb
        change (48 ≤ b.toNat ∧ b.toNat ≤ 57) ∨ (97 ≤ b.toNat ∧ b.toNat ≤ 102) at hb
        omega
  have hplain := plain_byte_iff.mpr hrange
  rw [hd, utf8EncodeChar_ascii hplain.1]
  intro a ha
  rw [List.mem_singleton.mp ha]
  exact hplain

theorem plainText_of_canon {s wallet : String} (h : canonWalletIdChecked s = .ok wallet) :
    plainText (trim s) = true := by
  have hcanon := canonWalletIdChecked_canonical h
  have hwallet : wallet = toAsciiLowercase (trim s) := by
    simp only [canonWalletIdChecked, bind_eq_ok_iff, pure_eq_ok_iff] at h
    obtain ⟨_, -, _, -, _, -, hlower⟩ := h
    exact hlower.symm
  have hdigit : ∀ b ∈ utf8 wallet, b = 114 ∨ isLowerHex b = true := by
    intro b hb
    have hsplit : utf8 wallet = 114 :: (utf8 wallet).tail :=
      List.eq_cons_of_mem_head? (Option.mem_def.mpr hcanon.head)
    rw [hsplit, List.mem_cons] at hb
    exact hb.imp_right (List.all_eq_true.mp hcanon.hex b)
  rw [plainText_iff]
  intro a ha
  rw [utf8_eq, List.mem_flatMap] at ha
  obtain ⟨c, hc, ha⟩ := ha
  have hmem : (if 'A' ≤ c ∧ c ≤ 'Z' then Char.ofNat (c.toNat+32) else c) ∈ wallet.toList := by
    rw [hwallet, toAsciiLowercase, String.toList_ofList, chars_eq]
    exact List.mem_map_of_mem hc
  obtain ⟨b, hb, hchar⟩ := mem_utf8_of_ascii (fun b hb => (hcanon.plain b hb).1) hmem
  exact plain_of_lower (hdigit b hb) hchar a ha

theorem plainText_iff_trim {s wallet : String} (h : canonWalletIdChecked s = .ok wallet) :
    plainText s = true ↔ trim s = s :=
  ⟨trim_of_plainText, fun htrim => htrim ▸ plainText_of_canon h⟩

namespace PrivateRI

theorem normalizeInput_ok_iff {s t : String} : normalizeInput s = .ok t ↔
    (trim s).isEmpty = false ∧ byteLen (trim s) ≤ maxPrivateReceiveInvoiceLen ∧
      plainText (trim s) = true ∧ trim s = t := by
  simp only [normalizeInput, bind_eq_ok_iff, rejectIf_eq_ok_iff, pure_eq_ok_iff, not_lt,
    Bool.not_eq_true, plainText, Bool.and_eq_true, Bool.not_eq_true', Unique.exists_iff, and_assoc]
  simp

theorem looksLikePrivateReceiveInvoice_iff {s : String} :
    looksLikePrivateReceiveInvoice s = true ↔ ∃ x, trim s = invoiceTag ++ x := by
  change (chars invoiceTag).isPrefixOf (chars (trim s)) = true ↔ _
  rw [List.isPrefixOf_iff_prefix, chars_eq, chars_eq]
  constructor
  · rintro ⟨cs, hcs⟩
    refine ⟨String.ofList cs, String.toList_injective ?_⟩
    rw [String.toList_append, String.toList_ofList]
    exact hcs.symm
  · rintro ⟨x, hx⟩
    exact ⟨x.toList, by rw [hx, String.toList_append]⟩

theorem splitText_invoice (x : String) : splitText ':' (invoiceTag ++ x) =
    privateReceiveInvoicePrefix :: "v1" :: splitText ':' x := by
  have htag : invoiceTag.toList =
      privateReceiveInvoicePrefix.toList ++ ':' :: ("v1".toList ++ [':']) := by
    decide
  rw [splitText, splitText, chars_eq, chars_eq, String.toList_append, htag, List.append_assoc,
    List.cons_append, List.append_assoc, List.singleton_append, List.splitOn_append_cons_self,
    List.splitOn_append_cons_self, List.splitOn_eq_singleton (by decide),
    List.splitOn_eq_singleton (by decide)]
  simp [String.ofList_toList]

theorem splitText_of_not_mem {x : String} (h : ':' ∉ x.toList) : splitText ':' x = [x] := by
  rw [splitText, chars_eq, List.splitOn_eq_singleton h, List.map_singleton, String.ofList_toList]

theorem length_splitText_of_mem {x : String} (h : ':' ∈ x.toList) :
    1 < (splitText ':' x).length := by
  obtain ⟨before, after, hx⟩ := List.append_of_mem h
  have hleft := List.length_pos_of_ne_nil (List.splitOn_ne_nil ':' before)
  have hright := List.length_pos_of_ne_nil (List.splitOn_ne_nil ':' after)
  rw [splitText, List.length_map, chars_eq, hx, List.splitOn_append_cons_self, List.length_append]
  omega

theorem parseInvoiceToWalletStrict_ok_iff {x wallet : String}
    (hnormal : normalizeInput (invoiceTag ++ x) = .ok (invoiceTag ++ x)) :
    parseInvoiceToWalletStrict (invoiceTag ++ x) = .ok wallet ↔
      ':' ∉ x.toList ∧ canonWalletIdChecked x = .ok wallet := by
  simp only [parseInvoiceToWalletStrict, hnormal, ok_bind, splitText_invoice, versionText_eq,
    bind_eq_ok_iff, rejectIf_eq_ok_iff, canonicalWallet, mapErr_eq_ok_iff, List.getD_cons_zero,
    List.getD_cons_succ, not_not, Bool.not_eq_true, List.length_cons, not_lt]
  constructor
  · rintro ⟨_, hlen, _, -, _, -, _, -, hcanon⟩
    have hcolon : ':' ∉ x.toList := by
      intro hmem
      have := length_splitText_of_mem hmem
      omega
    rw [splitText_of_not_mem hcolon] at hcanon
    exact ⟨hcolon, hcanon⟩
  · rintro ⟨hcolon, hcanon⟩
    rw [splitText_of_not_mem hcolon]
    exact ⟨(), by simp, (), trivial, (), trivial, (), not_empty_of_canon hcanon, hcanon⟩

/-- A target is parsed when it is plain, and then to the wallet it stands for. -/
theorem parseInvoiceOrAddress_ok_iff {s wallet : String} :
    (∃ r, parseInvoiceOrAddress s = .ok r ∧ r.oneTimeWallet = wallet) ↔
      byteLen (trim s) ≤ maxPrivateReceiveInvoiceLen ∧ plainText (trim s) = true ∧
        Target (trim s) wallet := by
  have hagain : ∀ t, normalizeInput s = .ok t → normalizeInput t = .ok t := by
    intro t ht
    obtain ⟨hempty, hlen, hplain, rfl⟩ := normalizeInput_ok_iff.mp ht
    rw [normalizeInput_ok_iff, trim_idem]
    exact ⟨hempty, hlen, hplain, rfl⟩
  have hbody : normalizeInput s = .ok (trim s) →
      (parseBySource (trim s) (if looksLikePrivateReceiveInvoice (trim s) then .invoice
        else .rawOneTimeWallet) = .ok wallet ↔ Target (trim s) wallet) := by
    intro hnormal
    by_cases hlooks : looksLikePrivateReceiveInvoice (trim s) = true
    · rw [if_pos hlooks]
      obtain ⟨x, hx⟩ := looksLikePrivateReceiveInvoice_iff.mp hlooks
      rw [trim_idem] at hx
      have hstrict := hagain _ hnormal
      rw [hx] at hstrict ⊢
      rw [parseBySource, parseInvoiceToWalletStrict_ok_iff hstrict]
      constructor
      · exact fun h => .inl ⟨x, rfl, h⟩
      · rintro (⟨y, hy, h⟩ | ⟨hcolon, -⟩)
        · obtain rfl := (String.append_right_inj _).mp hy
          exact h
        · exact absurd (colon_mem_invoice x) hcolon
    · rw [if_neg hlooks]
      simp only [parseBySource, bind_eq_ok_iff, rejectIf_eq_ok_iff, containsChar_iff,
        canonicalWallet, mapErr_eq_ok_iff]
      constructor
      · rintro ⟨_, hcolon, hcanon⟩
        exact .inr ⟨hcolon, hcanon⟩
      · rintro (⟨x, hx, -⟩ | ⟨hcolon, hcanon⟩)
        · refine absurd (looksLikePrivateReceiveInvoice_iff.mpr ⟨x, ?_⟩) hlooks
          rw [trim_idem]
          exact hx
        · exact ⟨(), hcolon, hcanon⟩
  simp only [parseInvoiceOrAddress, bind_eq_ok_iff, pure_eq_ok_iff]
  constructor
  · rintro ⟨r, ⟨t, ht, w, hw, invoice, -, rfl⟩, rfl⟩
    obtain ⟨-, hlen, hplain, rfl⟩ := normalizeInput_ok_iff.mp ht
    exact ⟨hlen, hplain, (hbody ht).mp hw⟩
  · rintro ⟨hlen, hplain, htarget⟩
    have hnormal := normalizeInput_ok_iff.mpr ⟨htarget.not_empty, hlen, hplain, rfl⟩
    have hinvoice := PrivateRW.makeInvoice_ok_iff.mpr ⟨wallet, htarget.canonical.checked, rfl⟩
    exact ⟨_, ⟨trim s, hnormal, wallet, (hbody hnormal).mpr htarget, _, hinvoice, rfl⟩, rfl⟩

/-- The invoice that comes with a parsed wallet is the one made for it. -/
theorem parseInvoiceOrAddress_invoice {s : String} {r : PrivateReceiveInvoiceParseResult}
    (h : parseInvoiceOrAddress s = .ok r) :
    CanonicalWallet r.oneTimeWallet ∧ r.canonicalInvoice = invoiceTag ++ r.oneTimeWallet := by
  obtain ⟨-, -, htarget⟩ := parseInvoiceOrAddress_ok_iff.mp ⟨r, h, rfl⟩
  refine ⟨htarget.canonical, ?_⟩
  simp only [parseInvoiceOrAddress, bind_eq_ok_iff, pure_eq_ok_iff] at h
  obtain ⟨_, -, w, -, invoice, hinvoice, rfl⟩ := h
  obtain ⟨w', hw', rfl⟩ := PrivateRW.makeInvoice_ok_iff.mp hinvoice
  rw [htarget.canonical.checked] at hw'
  rw [Except.ok.inj hw']

end PrivateRI

theorem plainText_invoiceTag : plainText invoiceTag = true := by decide

theorem trim_invoice {x : String} (h : plainText x = true) :
    trim (invoiceTag ++ x) = invoiceTag ++ x :=
  trim_of_plainText (plainText_append.mpr ⟨plainText_invoiceTag, h⟩)

/-- Both parsers read a made invoice back. -/
theorem CanonicalWallet.invoice {wallet : String} (h : CanonicalWallet wallet) :
    PrivateRW.parseInvoiceOrAddress (invoiceTag ++ wallet) = .ok wallet ∧
      ∃ r, PrivateRI.parseInvoiceOrAddress (invoiceTag ++ wallet) = .ok r ∧
        r.oneTimeWallet = wallet := by
  have hplain : plainText wallet = true := (plainText_iff_trim h.checked).mpr h.trim_eq
  have htrim := trim_invoice hplain
  have hcolon : ':' ∉ wallet.toList := by
    intro hmem
    have hbyte : (58 : UInt8) ∈ utf8 wallet := by
      rw [utf8_eq]
      exact List.mem_flatMap_of_mem hmem (by decide)
    have hsplit : utf8 wallet = 114 :: (utf8 wallet).tail :=
      List.eq_cons_of_mem_head? (Option.mem_def.mpr h.head)
    rw [hsplit, List.mem_cons] at hbyte
    rcases hbyte with hbyte | hbyte
    · exact absurd hbyte (by decide)
    · exact absurd (List.all_eq_true.mp h.hex _ hbyte) (by decide)
  have htarget : Target (trim (invoiceTag ++ wallet)) wallet := by
    rw [htrim]
    exact .inl ⟨wallet, rfl, hcolon, h.checked⟩
  have hlen : byteLen (trim (invoiceTag ++ wallet)) ≤ maxPrivateReceiveInvoiceLen := by
    rw [htrim]
    exact h.invoice_len
  refine ⟨PrivateRW.parseInvoiceOrAddress_ok_iff.mpr ⟨hlen, htarget⟩,
    PrivateRI.parseInvoiceOrAddress_ok_iff.mpr ⟨hlen, ?_, htarget⟩⟩
  rw [htrim]
  exact plainText_append.mpr ⟨plainText_invoiceTag, hplain⟩

/-! ### Where they agree -/

/-- An invoice with white space around its wallet, which one parser trims and the other refuses. -/
def spacedInvoice (s : String) : Bool :=
  match stripPrefix invoiceTag (trim s) with
  | some x => decide (byteLen (trim s) ≤ maxPrivateReceiveInvoiceLen) && !containsChar ':' x &&
      succeeds (canonWalletIdChecked x) && decide (trim x ≠ x)
  | none => false

theorem spacedInvoice_iff {s : String} : spacedInvoice s = true ↔
    ∃ x wallet, trim s = invoiceTag ++ x ∧ byteLen (trim s) ≤ maxPrivateReceiveInvoiceLen ∧
      ':' ∉ x.toList ∧ canonWalletIdChecked x = .ok wallet ∧ trim x ≠ x := by
  rw [spacedInvoice]
  cases hstrip : stripPrefix invoiceTag (trim s) with
  | some x =>
    have hs := stripPrefix_eq_some_iff.mp hstrip
    simp only [Bool.and_eq_true, decide_eq_true_eq, Bool.not_eq_true', ← Bool.not_eq_true,
      containsChar_iff, succeeds_iff]
    constructor
    · rintro ⟨⟨⟨hlen, hcolon⟩, wallet, hcanon⟩, htrim⟩
      exact ⟨x, wallet, hs, hlen, hcolon, hcanon, htrim⟩
    · rintro ⟨y, wallet, hy, hlen, hcolon, hcanon, htrim⟩
      rw [hs] at hy
      obtain rfl := (String.append_right_inj _).mp hy
      exact ⟨⟨⟨hlen, hcolon⟩, wallet, hcanon⟩, htrim⟩
  | none =>
    constructor
    · exact fun h => absurd h Bool.false_ne_true
    · rintro ⟨x, -, hx, -⟩
      rw [stripPrefix_eq_some_iff.mpr hx] at hstrip
      cases hstrip

/-- A target is plain unless it is a spaced invoice. -/
theorem Target.plain_iff {s wallet : String} (h : Target (trim s) wallet)
    (hlen : byteLen (trim s) ≤ maxPrivateReceiveInvoiceLen) :
    plainText (trim s) = true ↔ spacedInvoice s = false := by
  rw [← Bool.not_eq_true, spacedInvoice_iff]
  rcases h with ⟨x, hx, hcolon, hcanon⟩ | ⟨hcolon, hcanon⟩
  · rw [hx, plainText_append, plainText_iff_trim hcanon]
    constructor
    · rintro ⟨-, htrim⟩ ⟨y, -, hy, -, -, -, hne⟩
      obtain rfl := (String.append_right_inj _).mp hy
      exact hne htrim
    · intro hnone
      refine ⟨plainText_invoiceTag, Classical.not_not.mp fun hne => hnone ?_⟩
      exact ⟨x, wallet, rfl, hx ▸ hlen, hcolon, hcanon, hne⟩
  · refine iff_of_true ?_ ?_
    · have hplain := plainText_of_canon hcanon
      rw [trim_idem] at hplain
      exact hplain
    · rintro ⟨x, -, hx, -⟩
      exact hcolon (hx ▸ colon_mem_invoice x)

theorem parsers_agree_iff {s : String} :
    (∀ wallet, PrivateRW.parseInvoiceOrAddress s = .ok wallet ↔
      ∃ r, PrivateRI.parseInvoiceOrAddress s = .ok r ∧ r.oneTimeWallet = wallet) ↔
      spacedInvoice s = false := by
  simp only [PrivateRW.parseInvoiceOrAddress_ok_iff, PrivateRI.parseInvoiceOrAddress_ok_iff]
  constructor
  · intro h
    rw [← Bool.not_eq_true]
    intro hspaced
    obtain ⟨x, wallet, hx, hlen, hcolon, hcanon, -⟩ := spacedInvoice_iff.mp hspaced
    have htarget : Target (trim s) wallet := .inl ⟨x, hx, hcolon, hcanon⟩
    have hplain := ((h wallet).mp ⟨hlen, htarget⟩).2.1
    rw [(htarget.plain_iff hlen).mp hplain] at hspaced
    cases hspaced
  · intro hspaced wallet
    exact ⟨fun ⟨hlen, htarget⟩ => ⟨hlen, (htarget.plain_iff hlen).mpr hspaced, htarget⟩,
      fun ⟨hlen, _, htarget⟩ => ⟨hlen, htarget⟩⟩

end Remzar
