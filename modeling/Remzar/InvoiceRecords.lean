import Mathlib
import Remzar.WalletIndex

/-! Records of one-time wallets on their way into the index: the invoice of a record is read by one
parser when the record is checked and by the other when its entry is built. -/
namespace Remzar
open Fallible Text
namespace PrivateWI

theorem canonicalWallet_ok_iff {wallet canon : String} :
    canonicalWallet wallet = .ok canon ↔ canonWalletIdChecked wallet = .ok canon :=
  mapErr_eq_ok_iff _ _ _

theorem validateOptionalText_ok_iff {field text kept : String} {max : ℕ} :
    validateOptionalText field max text = .ok kept ↔ (trim text).isEmpty = false ∧
      byteLen (trim text) ≤ max ∧ (utf8 (trim text)).any isAsciiControl = false ∧
      trim text = kept := by
  simp only [validateOptionalText, bind_eq_ok_iff, rejectIf_eq_ok_iff, pure_eq_ok_iff, not_lt,
    Bool.not_eq_true, Unique.exists_iff]

/-- A kept text is kept as it is. -/
theorem validateOptionalText_again {field text kept : String} {max : ℕ}
    (h : validateOptionalText field max text = .ok kept) :
    validateOptionalText field max kept = .ok kept := by
  rw [validateOptionalText_ok_iff] at h ⊢
  obtain ⟨hempty, hlen, hcontrol, rfl⟩ := h
  rw [trim_idem]
  exact ⟨hempty, hlen, hcontrol, rfl⟩

theorem validatePresent_again {validate : String → Fallible String} {text kept : Option String}
    (hagain : ∀ t t', validate t = .ok t' → validate t' = .ok t')
    (h : validatePresent validate text = .ok kept) : validatePresent validate kept = .ok kept := by
  cases text with
  | none =>
    cases h
    rfl
  | some t =>
    simp only [validatePresent, bind_eq_ok_iff, pure_eq_ok_iff] at h
    obtain ⟨t', ht', rfl⟩ := h
    rw [validatePresent, hagain t t' ht']
    rfl

/-- What an entry is checked for. -/
theorem validateEntry_ok_iff {entry : PrivateWalletIndexEntry} : validateEntry entry = .ok () ↔
    entry.version = privateReceiveVersion ∧ ∃ owner oneTime,
      canonWalletIdChecked entry.ownerWallet = .ok owner ∧
      canonWalletIdChecked entry.oneTimeWallet = .ok oneTime ∧ owner ≠ oneTime ∧
      (∃ parsed, PrivateRI.parseInvoiceOrAddress entry.invoice = .ok parsed ∧
        parsed.oneTimeWallet = oneTime ∧ parsed.canonicalInvoice = entry.invoice) ∧
      entry.walletFileName = PrivateRW.walletFileName oneTime ∧
      entry.createdUnixSecs ≠ 0 ∧ entry.indexedUnixSecs ≠ 0 ∧
      (∃ label, validatePresent validateOptionalLabel entry.label = .ok label) ∧
      ∃ context, validatePresent validateOptionalContext entry.context = .ok context := by
  simp only [validateEntry, bind_eq_ok_iff, rejectIf_eq_ok_iff, pure_eq_ok_iff, not_not,
    canonicalWallet_ok_iff, Unique.exists_iff]
  constructor
  · rintro ⟨hversion, owner, howner, oneTime, hone, hne, parsed, hparsed, hwallet, hinvoice, hfile,
      hcreated, hindexed, label, hlabel, context, hcontext, -⟩
    exact ⟨hversion, owner, oneTime, howner, hone, hne, ⟨parsed, hparsed, hwallet, hinvoice⟩, hfile,
      hcreated, hindexed, ⟨label, hlabel⟩, context, hcontext⟩
  · rintro ⟨hversion, owner, oneTime, howner, hone, hne, ⟨parsed, hparsed, hwallet, hinvoice⟩,
      hfile, hcreated, hindexed, ⟨label, hlabel⟩, context, hcontext⟩
    exact ⟨hversion, owner, howner, oneTime, hone, hne, parsed, hparsed, hwallet, hinvoice, hfile,
      hcreated, hindexed, label, hlabel, context, hcontext, trivial⟩

/-- The name of a wallet file is found again at the end of its path. -/
theorem fileName_joinPath {name : String} (hslash : 47 ∉ utf8 name) (hdot : 2 < byteLen name)
    (dir : List UInt8) : (fileName (joinPath dir name)).bind fromUtf8 = some name := by
  have hlen : ∀ short : List UInt8, short.length ≤ 2 → utf8 name ≠ short := by
    rintro short hshort heq
    rw [byteLen, heq] at hdot
    omega
  have hkeep : [utf8 name].filter (fun c => c ≠ [] ∧ c ≠ [46]) = [utf8 name] := by
    rw [List.filter_eq_self]
    rintro c hc
    rw [List.mem_singleton.mp hc]
    exact decide_eq_true ⟨hlen [] (by simp), hlen [46] (by simp)⟩
  rw [fileName, joinPath, List.splitOn_append_cons_self, List.splitOn_eq_singleton hslash,
    List.filter_append, hkeep, List.getLast?_append, List.getLast?_singleton]
  dsimp only [Option.or]
  rw [if_neg (hlen [46, 46] (by simp)), Option.bind_some, fromUtf8_utf8]

theorem walletFileName_found {wallet : String} (h : CanonicalWallet wallet)
    (dir : List UInt8) :
    (fileName (joinPath dir (PrivateRW.walletFileName wallet))).bind fromUtf8 =
      some (PrivateRW.walletFileName wallet) := by
  have hbytes : utf8 (PrivateRW.walletFileName wallet) =
      utf8 wallet ++ (utf8 "." ++ utf8 walletFileExt) := by
    rw [← List.append_assoc, ← utf8_append, ← utf8_append]
    rfl
  apply fileName_joinPath
  · rw [hbytes, List.mem_append, not_or]
    refine ⟨fun hmem => ?_, by decide⟩
    have hsplit : utf8 wallet = 114 :: (utf8 wallet).tail :=
      List.eq_cons_of_mem_head? (Option.mem_def.mpr h.head)
    rw [hsplit, List.mem_cons] at hmem
    rcases hmem with hmem | hmem
    · exact absurd hmem (by decide)
    · exact absurd (List.all_eq_true.mp h.hex _ hmem) (by decide)
  · have hlen : (utf8 wallet).length = 129 := h.len
    rw [byteLen, hbytes, List.length_append, hlen]
    omega

/-! ### Built entries -/

/-- What a request has to bring for an entry to be built. -/
theorem buildEntry_ok_iff {path : List UInt8} {world : IndexWorld}
    {request : PrivateWalletIndexAddRequest} {entry : PrivateWalletIndexEntry} :
    buildEntry path world request = .ok entry ↔ ∃ owner oneTime invoice file created indexed label
      context, canonWalletIdChecked request.ownerWallet = .ok owner ∧
      canonWalletIdChecked request.oneTimeWallet = .ok oneTime ∧ owner ≠ oneTime ∧
      buildInvoice oneTime request.invoice = .ok invoice ∧
      buildWalletFileName oneTime request.walletFileName = .ok file ∧
      buildCreated world.created request.createdUnixSecs = .ok created ∧
      nowUnixSecsRuntime world.indexed = .ok indexed ∧
      validatePresent validateOptionalLabel request.label = .ok label ∧
      validatePresent validateOptionalContext request.context = .ok context ∧
      entry = ⟨privateReceiveVersion, owner, oneTime, invoice, file, created, indexed, label,
        context⟩ ∧
      validateEntry entry = .ok () := by
  simp only [buildEntry, bind_eq_ok_iff, rejectIf_eq_ok_iff, pure_eq_ok_iff, not_not,
    canonicalWallet_ok_iff, okOr_eq_ok_iff, Unique.exists_iff]
  constructor
  · rintro ⟨owner, howner, oneTime, hone, hne, invoice, hinvoice, file, hfile, created, hcreated,
      indexed, hindexed, label, hlabel, context, hcontext, _, -, -, hvalid, rfl⟩
    exact ⟨owner, oneTime, invoice, file, created, indexed, label, context, howner, hone, hne,
      hinvoice, hfile, hcreated, hindexed, hlabel, hcontext, rfl, hvalid⟩
  · rintro ⟨owner, oneTime, invoice, file, created, indexed, label, context, howner, hone, hne,
      hinvoice, hfile, hcreated, hindexed, hlabel, hcontext, rfl, hvalid⟩
    have hcanon := canonWalletIdChecked_canonical hone
    have hname : PrivateRW.walletFileName oneTime = file := by
      cases hrequest : request.walletFileName with
      | none =>
        rw [hrequest] at hfile
        exact Except.ok.inj hfile
      | some given =>
        rw [hrequest] at hfile
        simp only [buildWalletFileName, bind_eq_ok_iff, rejectIf_eq_ok_iff, pure_eq_ok_iff, not_not,
          Unique.exists_iff] at hfile
        exact hfile.1.symm.trans hfile.2
    exact ⟨owner, howner, oneTime, hone, hne, invoice, hinvoice, file, hfile, created, hcreated,
      indexed, hindexed, label, hlabel, context, hcontext, _, walletFileName_found hcanon path,
      hname, hvalid, rfl⟩

theorem buildInvoice_some_ok_iff {oneTime input invoice : String} :
    buildInvoice oneTime (some input) = .ok invoice ↔
      ∃ parsed, PrivateRI.parseInvoiceOrAddress input = .ok parsed ∧
        parsed.oneTimeWallet = oneTime ∧ parsed.canonicalInvoice = invoice := by
  simp only [buildInvoice, bind_eq_ok_iff, rejectIf_eq_ok_iff, pure_eq_ok_iff, not_not,
    Unique.exists_iff]

/-- What a record is checked for. -/
theorem validateRecord_ok {record : PrivateReceiveWalletRecord}
    (h : PrivateRW.validateRecord record = .ok ()) : ∃ owner oneTime,
      canonWalletIdChecked record.ownerWallet = .ok owner ∧
      canonWalletIdChecked record.oneTimeWallet = .ok oneTime ∧ owner ≠ oneTime ∧
      PrivateRW.parseInvoiceOrAddress record.invoice = .ok oneTime ∧
      record.createdUnixSecs ≠ 0 ∧ record.walletFileName = PrivateRW.walletFileName oneTime := by
  simp only [PrivateRW.validateRecord, bind_eq_ok_iff, rejectIf_eq_ok_iff, not_not,
    Unique.exists_iff] at h
  obtain ⟨-, -, owner, howner, oneTime, hone, hne, parsed, hparsed, rfl, hcreated, hfile⟩ := h
  exact ⟨owner, parsed, howner, hone, hne, hparsed, hcreated, hfile⟩

theorem nowUnixSecsRuntime_ne_zero {clock : Int64} {now : UInt64}
    (h : nowUnixSecsRuntime clock = .ok now) : now ≠ 0 := by
  simp only [nowUnixSecsRuntime, bind_eq_ok_iff, pure_eq_ok_iff, Unique.exists_iff] at h
  obtain ⟨-, hvalid, rfl⟩ := h
  intro hzero
  rw [hzero] at hvalid
  exact absurd hvalid (by decide)

/-- An entry is built from a checked record unless its invoice is a spaced one. -/
theorem buildEntry_record_iff {path : List UInt8} {world : IndexWorld}
    {record : PrivateReceiveWalletRecord} {required : Bool} {now : UInt64}
    (hrecord : PrivateRW.validateRecord record = .ok ())
    (hnow : nowUnixSecsRuntime world.indexed = .ok now) :
    (∃ entry, buildEntry path world (recordRequest record required) = .ok entry) ↔
      spacedInvoice record.invoice = false := by
  obtain ⟨owner, oneTime, howner, hone, hne, hparsed, hcreated, hfile⟩ := validateRecord_ok hrecord
  obtain ⟨hlen, htarget⟩ := PrivateRW.parseInvoiceOrAddress_ok_iff.mp hparsed
  rw [← htarget.plain_iff hlen]
  constructor
  · rintro ⟨entry, hentry⟩
    obtain ⟨_, one, _, _, _, _, _, _, -, -, -, hinvoice, -⟩ := buildEntry_ok_iff.mp hentry
    obtain ⟨parsed, hread, rfl, -⟩ := buildInvoice_some_ok_iff.mp hinvoice
    exact (PrivateRI.parseInvoiceOrAddress_ok_iff.mp ⟨parsed, hread, rfl⟩).2.1
  · intro hplain
    obtain ⟨parsed, hread, hwallet⟩ :=
      PrivateRI.parseInvoiceOrAddress_ok_iff.mpr ⟨hlen, hplain, htarget⟩
    obtain ⟨-, hinvoice⟩ := PrivateRI.parseInvoiceOrAddress_invoice hread
    rw [hwallet] at hinvoice
    have hlabel : validatePresent validateOptionalLabel none = .ok none := rfl
    have hcontext : validatePresent validateOptionalContext
        (some "rebuilt_from_private_receive_record") =
          .ok (some "rebuilt_from_private_receive_record") := by
      decide
    -- The entry holds the canonical invoice, which both parsers read.
    obtain ⟨again, hagain, hsame⟩ := htarget.canonical.invoice.2
    obtain ⟨-, hcanonical⟩ := PrivateRI.parseInvoiceOrAddress_invoice hagain
    rw [hsame] at hcanonical
    refine ⟨_, buildEntry_ok_iff.mpr ⟨owner, oneTime, invoiceTag ++ oneTime,
      PrivateRW.walletFileName oneTime, record.createdUnixSecs, now, none, _, howner, hone, hne,
      buildInvoice_some_ok_iff.mpr ⟨parsed, hread, hwallet, hinvoice⟩, ?_, ?_, hnow, hlabel,
      hcontext, rfl, validateEntry_ok_iff.mpr ⟨rfl, owner, oneTime,
        canonWalletIdChecked_idem howner, canonWalletIdChecked_idem hone, hne,
        ⟨again, hagain, hsame, hcanonical⟩, rfl, hcreated, nowUnixSecsRuntime_ne_zero hnow,
        ⟨_, hlabel⟩, _, hcontext⟩⟩⟩
    · change buildWalletFileName oneTime (some record.walletFileName) = _
      rw [hfile, buildWalletFileName]
      simp [rejectIf_of_not, pure, Except.pure]
    · change buildCreated world.created (some record.createdUnixSecs) = _
      rw [buildCreated, rejectIf_of_not _ hcreated]
      rfl

/-- Both parsers return the same wallet for a text, and read made invoices back, and an entry is
built from every checked record, exactly when no white space comes before the wallet of an
invoice. -/
theorem invoice_parsers_agree_iff (s : String) (record : PrivateReceiveWalletRecord)
    (path : List UInt8) (world : IndexWorld) (required : Bool) :
    ((∀ wallet, PrivateRW.parseInvoiceOrAddress s = .ok wallet ↔
        ∃ r, PrivateRI.parseInvoiceOrAddress s = .ok r ∧ r.oneTimeWallet = wallet) ∧
      (∀ wallet canon, canonWalletIdChecked wallet = .ok canon → ∃ invoice,
        PrivateRW.makeInvoice wallet = .ok invoice ∧
        PrivateRW.parseInvoiceOrAddress invoice = .ok canon ∧
        ∃ r, PrivateRI.parseInvoiceOrAddress invoice = .ok r ∧ r.oneTimeWallet = canon) ∧
      (PrivateRW.validateRecord record = .ok () → succeeds (nowUnixSecsRuntime world.indexed) →
        ∃ entry, buildEntry path world (recordRequest record required) = .ok entry)) ↔
      spacedInvoice s = false ∧
        (PrivateRW.validateRecord record = .ok () → succeeds (nowUnixSecsRuntime world.indexed) →
          spacedInvoice record.invoice = false) := by
  have hmade : ∀ wallet canon, canonWalletIdChecked wallet = .ok canon → ∃ invoice,
      PrivateRW.makeInvoice wallet = .ok invoice ∧
      PrivateRW.parseInvoiceOrAddress invoice = .ok canon ∧
      ∃ r, PrivateRI.parseInvoiceOrAddress invoice = .ok r ∧ r.oneTimeWallet = canon := by
    intro wallet canon hcanon
    have hread := (canonWalletIdChecked_canonical hcanon).invoice
    exact ⟨_, PrivateRW.makeInvoice_ok_iff.mpr ⟨canon, hcanon, rfl⟩, hread⟩
  have hrecord : (PrivateRW.validateRecord record = .ok () →
      succeeds (nowUnixSecsRuntime world.indexed) →
        ∃ entry, buildEntry path world (recordRequest record required) = .ok entry) ↔
      (PrivateRW.validateRecord record = .ok () → succeeds (nowUnixSecsRuntime world.indexed) →
        spacedInvoice record.invoice = false) := by
    refine forall_congr' fun hvalid => forall_congr' fun hclock => ?_
    obtain ⟨now, hnow⟩ := (succeeds_iff _).mp hclock
    exact buildEntry_record_iff hvalid hnow
  rw [parsers_agree_iff, hrecord]
  exact ⟨fun ⟨hs, _, hr⟩ => ⟨hs, hr⟩, fun ⟨hs, hr⟩ => ⟨hs, hmade, hr⟩⟩

/-- A space before the wallet: one parser returns the wallet, the other refuses the text. -/
theorem spaced_invoice_accepted : ∃ s wallet, PrivateRW.parseInvoiceOrAddress s = .ok wallet ∧
    succeeds (PrivateRI.parseInvoiceOrAddress s) = false := by
  refine ⟨invoiceTag ++ " r" ++ String.ofList (List.replicate 128 '0'),
    "r" ++ String.ofList (List.replicate 128 '0'), ?_, ?_⟩
  · decide +kernel
  · decide +kernel

end PrivateWI
end Remzar
