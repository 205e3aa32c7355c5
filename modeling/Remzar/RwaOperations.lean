import Mathlib
import Remzar.Lib.Effects
import Remzar.Lib.Runs
import Remzar.RwaCertificate

/-! What can be done to a certificate. An operation writes the fields it is about, and then checks
the whole certificate and renews its hash. -/
namespace Remzar
open Fallible Effects Rwa

/-! ### The hashed text -/

def RwaCoreFinancialData.json (core : RwaCoreFinancialData) : List UInt8 :=
  Json.object [("asset_class", Json.string core.assetClass.tag),
    ("asset_name", Json.string core.assetName),
    ("asset_reference_hash", core.assetReferenceHash.json),
    ("asset_valuation_usd_cents", Json.number core.assetValuationUsdCents.toNat),
    ("valuation_timestamp_unix", Json.number core.valuationTimestampUnix.toNat),
    ("valuation_source_hash", core.valuationSourceHash.json),
    ("yield_bps", Json.number core.yieldBps.toNat),
    ("payout_frequency", Json.string core.payoutFrequency.tag),
    ("maturity_timestamp_unix",
      Json.option (fun t => Json.number t.toNat) core.maturityTimestampUnix),
    ("total_supply", Json.number core.totalSupply.toNat),
    ("decimals", Json.number core.decimals.toNat),
    ("face_value_usd_cents_per_unit",
      Json.option (fun v => Json.number v.toNat) core.faceValueUsdCentsPerUnit),
    ("minimum_transfer_units",
      Json.option (fun v => Json.number v.toNat) core.minimumTransferUnits)]

def RwaDocumentLink.json (doc : RwaDocumentLink) : List UInt8 :=
  Json.object [("kind", Json.string doc.kind.tag), ("label", Json.string doc.label),
    ("uri", Json.string doc.uri), ("content_hash", doc.contentHash.json),
    ("version", Json.number doc.version.toNat),
    ("issued_at_unix", Json.option (fun t => Json.number t.toNat) doc.issuedAtUnix),
    ("expires_at_unix", Json.option (fun t => Json.number t.toNat) doc.expiresAtUnix),
    ("issuer_identity_hash", Json.option RwaHash64.json doc.issuerIdentityHash)]

def RwaAuditorVerification.json (stamp : RwaAuditorVerification) : List UInt8 :=
  Json.object [("auditor_wallet", Json.option Json.string stamp.auditorWallet),
    ("auditor_identity_hash", stamp.auditorIdentityHash.json),
    ("statement_hash", stamp.statementHash.json),
    ("verified_at_unix", Json.number stamp.verifiedAtUnix.toNat),
    ("expires_at_unix", Json.option (fun t => Json.number t.toNat) stamp.expiresAtUnix),
    ("proof_uri", Json.option Json.string stamp.proofUri)]

def RwaLegalOwnershipData.json (legal : RwaLegalOwnershipData) : List UInt8 :=
  Json.object [("legal_jurisdiction", Json.string legal.legalJurisdiction),
    ("spv_or_trustee_identity_hash", legal.spvOrTrusteeIdentityHash.json),
    ("trustee_wallet", Json.option Json.string legal.trusteeWallet),
    ("legal_summary", Json.option Json.string legal.legalSummary),
    ("documents", Json.array (legal.documents.map RwaDocumentLink.json)),
    ("auditor_stamps", Json.array (legal.auditorStamps.map RwaAuditorVerification.json))]

def RwaComplianceRules.json (rules : RwaComplianceRules) : List UInt8 :=
  Json.object [("kyc_registry_wallet", Json.option Json.string rules.kycRegistryWallet),
    ("kyc_registry_reference", Json.option Json.string rules.kycRegistryReference),
    ("allowed_jurisdictions", Json.array (rules.allowedJurisdictions.map Json.string)),
    ("blocked_jurisdictions", Json.array (rules.blockedJurisdictions.map Json.string)),
    ("accredited_investor_required", Json.bool rules.accreditedInvestorRequired),
    ("max_investors", Json.option (fun n => Json.number n.toNat) rules.maxInvestors),
    ("transfer_lock_until_unix",
      Json.option (fun t => Json.number t.toNat) rules.transferLockUntilUnix),
    ("transfers_paused", Json.bool rules.transfersPaused),
    ("freeze_authority_wallet", Json.option Json.string rules.freezeAuthorityWallet),
    ("clawback_authority_wallet", Json.option Json.string rules.clawbackAuthorityWallet),
    ("clawback_enabled", Json.bool rules.clawbackEnabled),
    ("rule_notes", Json.array (rules.ruleNotes.map Json.string))]

def RwaTechnicalBlockchainData.json (technical : RwaTechnicalBlockchainData) : List UInt8 :=
  Json.object [("token_standard", Json.string technical.tokenStandard.tag),
    ("contract_address", Json.option Json.string technical.contractAddress),
    ("minting_timestamp_unix",
      Json.option (fun t => Json.number t.toNat) technical.mintingTimestampUnix),
    ("minting_block", Json.option (fun n => Json.number n.toNat) technical.mintingBlock),
    ("mint_tx_hash", Json.option RwaHash64.json technical.mintTxHash)]

namespace RwaAssetCertificate

def json (cert : RwaAssetCertificate) : List UInt8 :=
  Json.object [("schema", Json.string cert.schema), ("kind", Json.string cert.kind),
    ("certificate_id", cert.certificateId.json), ("issuer_wallet", Json.string cert.issuerWallet),
    ("owner_wallet", Json.string cert.ownerWallet), ("status", Json.string cert.status.tag),
    ("core", cert.core.json), ("legal", cert.legal.json), ("compliance", cert.compliance.json),
    ("technical", cert.technical.json), ("created_at_unix", Json.number cert.createdAtUnix.toNat),
    ("updated_at_unix", Json.number cert.updatedAtUnix.toNat),
    ("metadata_hash", cert.metadataHash.json)]

def canonicalMetadataBytes (cert : RwaAssetCertificate) : List UInt8 :=
  json { cert with metadataHash := .zero }

def recomputeMetadataHash [Blake3] (cert : RwaAssetCertificate) : RwaHash64 :=
  .computeFromBytes cert.canonicalMetadataBytes

/-! ### Whole certificates -/

def validateWithoutMetadataHash (cert : RwaAssetCertificate) : Fallible Unit := do
  validateShortText "schema" cert.schema
  validateShortText "kind" cert.kind
  rejectIf (cert.schema ≠ rwaSchema)
    (validationErr s!"Invalid RWA schema: expected {rwaSchema}, got {cert.schema}")
  rejectIf (cert.kind ≠ rwaKind)
    (validationErr s!"Invalid RWA kind: expected {rwaKind}, got {cert.kind}")
  rejectIf (cert.certificateId.isZero) (validationErr "RWA certificate_id cannot be zero")
  let _ ← canonicalWallet cert.issuerWallet "issuer_wallet"
  let _ ← canonicalWallet cert.ownerWallet "owner_wallet"
  validateUnixSecsStructural "rwa.created_at_unix" cert.createdAtUnix
  validateUnixSecsStructural "rwa.updated_at_unix" cert.updatedAtUnix
  rejectIf (cert.updatedAtUnix < cert.createdAtUnix)
    (validationErr "RWA updated_at_unix cannot be earlier than created_at_unix")
  cert.core.validate cert.createdAtUnix
  cert.legal.validate
  cert.compliance.validate cert.legal
  cert.technical.validate

def validate [Blake3] (cert : RwaAssetCertificate) : Fallible Unit := do
  cert.validateWithoutMetadataHash
  rejectIf (cert.metadataHash.isZero) (validationErr "RWA metadata_hash cannot be zero")
  let expected := cert.recomputeMetadataHash
  rejectIf (expected ≠ cert.metadataHash) (validationErr (
    s!"RWA metadata_hash mismatch: expected {expected.toHex}, got {cert.metadataHash.toHex}"))

def new [Blake3] (certificateId : List.Vector UInt8 64) (issuerWallet ownerWallet : String)
    (core : RwaCoreFinancialData) (legal : RwaLegalOwnershipData) (compliance : RwaComplianceRules)
    (technical : RwaTechnicalBlockchainData) (createdAtUnix : UnixTimestampSecs) :
    Fallible RwaAssetCertificate := do
  validateUnixSecsStructural "rwa.created_at_unix" createdAtUnix
  let issuerWallet ← canonicalWallet issuerWallet "issuer_wallet"
  let ownerWallet ← canonicalWallet ownerWallet "owner_wallet"
  let out : RwaAssetCertificate := ⟨rwaSchema, rwaKind, ⟨certificateId⟩, issuerWallet, ownerWallet,
    .draft, core, legal, compliance, technical, createdAtUnix, createdAtUnix, .zero⟩
  out.validateWithoutMetadataHash
  let out := { out with metadataHash := out.recomputeMetadataHash }
  out.validate
  return out

def assertIssuerOrTrustee (cert : RwaAssetCertificate) (callerWallet : String) : Fallible Unit := do
  let caller ← canonicalWallet callerWallet "caller_wallet"
  let refused := validationErr "RWA operation rejected: caller is not issuer or trustee"
  if caller = cert.issuerWallet then return ()
  else match cert.legal.trusteeWallet with
    | some trustee => do
      let trustee ← canonicalWallet trustee "trustee_wallet"
      rejectIf (caller ≠ trustee) refused
    | none => .error refused

def assertFreezeAuthority (cert : RwaAssetCertificate) (callerWallet : String) : Fallible Unit := do
  let caller ← canonicalWallet callerWallet "caller_wallet"
  let refused := validationErr "RWA operation rejected: caller is not freeze authority"
  if caller = cert.issuerWallet then return ()
  else match cert.compliance.freezeAuthorityWallet with
    | some authority => do
      let authority ← canonicalWallet authority "freeze_authority_wallet"
      rejectIf (caller ≠ authority) refused
    | none => .error refused

/-! ### Operations -/

/-- A method that may write some fields and fail afterwards. -/
abbrev Op (α : Type) := EStateM ErrorDetection RwaAssetCertificate α

def refreshMetadataHash [Blake3] (updatedAtUnix : UnixTimestampSecs) : Op Unit := do
  lift (validateUnixSecsStructural "rwa.updated_at_unix" updatedAtUnix)
  let cert ← get
  lift (rejectIf (updatedAtUnix < cert.createdAtUnix)
    (validationErr "RWA updated_at_unix cannot be earlier than created_at_unix"))
  modify fun cert => { cert with updatedAtUnix }
  let cert ← get
  lift cert.validateWithoutMetadataHash
  modify fun cert => { cert with metadataHash := cert.recomputeMetadataHash }
  let cert ← get
  lift cert.validate

def markMintSubmitted [Blake3] (mintingTimestampUnix : UnixTimestampSecs)
    (mintingBlock : Option UInt64) (mintTxHash : Option RwaHash64) : Op Unit := do
  lift (validateUnixSecsStructural "rwa.minting_timestamp_unix" mintingTimestampUnix)
  modify fun cert => { cert with
    status := .mintSubmitted
    technical := { cert.technical with
      mintingTimestampUnix := some mintingTimestampUnix, mintingBlock, mintTxHash } }
  refreshMetadataHash mintingTimestampUnix

def activate [Blake3] (nowUnix : UnixTimestampSecs) : Op Unit := do
  modify fun cert => { cert with status := .active }
  refreshMetadataHash nowUnix

def freeze [Blake3] (callerWallet : String) (nowUnix : UnixTimestampSecs) : Op Unit := do
  let cert ← get
  lift (cert.assertFreezeAuthority callerWallet)
  modify fun cert => { cert with status := .frozen }
  refreshMetadataHash nowUnix

def unfreeze [Blake3] (callerWallet : String) (nowUnix : UnixTimestampSecs) : Op Unit := do
  let cert ← get
  lift (cert.assertFreezeAuthority callerWallet)
  modify fun cert => { cert with status := .active }
  refreshMetadataHash nowUnix

def pauseTransfers [Blake3] (callerWallet : String) (nowUnix : UnixTimestampSecs) : Op Unit := do
  let cert ← get
  lift (cert.assertFreezeAuthority callerWallet)
  modify fun cert => { cert with compliance := { cert.compliance with transfersPaused := true } }
  refreshMetadataHash nowUnix

def unpauseTransfers [Blake3] (callerWallet : String) (nowUnix : UnixTimestampSecs) :
    Op Unit := do
  let cert ← get
  lift (cert.assertFreezeAuthority callerWallet)
  modify fun cert => { cert with compliance := { cert.compliance with transfersPaused := false } }
  refreshMetadataHash nowUnix

def updateValuation [Blake3] (callerWallet : String) (assetValuationUsdCents : UsdCents)
    (valuationTimestampUnix : UnixTimestampSecs) (valuationSourceHash : RwaHash64) : Op Unit := do
  let cert ← get
  lift (cert.assertIssuerOrTrustee callerWallet)
  lift (rejectIf (assetValuationUsdCents = 0) (validationErr "RWA valuation must be > 0"))
  lift (rejectIf (valuationSourceHash.isZero)
    (validationErr "RWA valuation_source_hash cannot be zero"))
  lift (validateUnixSecsStructural "rwa.valuation_timestamp_unix" valuationTimestampUnix)
  modify fun cert => { cert with core := { cert.core with
    assetValuationUsdCents, valuationTimestampUnix, valuationSourceHash } }
  refreshMetadataHash valuationTimestampUnix

def addDocument [Blake3] (callerWallet : String) (document : RwaDocumentLink)
    (nowUnix : UnixTimestampSecs) : Op Unit := do
  let cert ← get
  lift (cert.assertIssuerOrTrustee callerWallet)
  lift (rejectIf (maxDocuments ≤ cert.legal.documents.length)
    (validationErr s!"RWA documents exceed max {maxDocuments}"))
  lift document.validate
  modify fun cert => { cert with legal := { cert.legal with
    documents := cert.legal.documents ++ [document] } }
  refreshMetadataHash nowUnix

def addAuditorStamp [Blake3] (callerWallet : String) (stamp : RwaAuditorVerification)
    (nowUnix : UnixTimestampSecs) : Op Unit := do
  let cert ← get
  lift (cert.assertIssuerOrTrustee callerWallet)
  lift (rejectIf (maxAuditorStamps ≤ cert.legal.auditorStamps.length)
    (validationErr s!"RWA auditor stamps exceed max {maxAuditorStamps}"))
  lift stamp.validate
  modify fun cert => { cert with legal := { cert.legal with
    auditorStamps := cert.legal.auditorStamps ++ [stamp] } }
  refreshMetadataHash nowUnix

theorem read_seq {β : Type} (f : RwaAssetCertificate → Op β) (cert : RwaAssetCertificate) :
    ((get : Op RwaAssetCertificate) >>= f) cert = f cert cert := rfl

theorem write_seq {β : Type} (f : RwaAssetCertificate → RwaAssetCertificate) (m : PUnit → Op β)
    (cert : RwaAssetCertificate) : ((modify f : Op PUnit) >>= m) cert = m ⟨⟩ (f cert) := rfl

theorem lift_seq {α β : Type} (x : Fallible α) (f : α → Op β) (cert : RwaAssetCertificate) :
    ((lift x : Op α) >>= f) cert =
      match x with
      | .ok a => f a cert
      | .error e => .error e cert := by
  cases x <;> rfl

/-- The last check before the certificate is written. -/
theorem lift_write (x : Fallible Unit) (f : RwaAssetCertificate → RwaAssetCertificate) (m : Op Unit)
    (cert : RwaAssetCertificate) :
    ((lift x : Op Unit) >>= fun _ => modify f >>= fun _ => m) cert =
      match x with
      | .ok _ => m (f cert)
      | .error e => .error e cert := by
  cases x <;> rfl

/-! ### Renewing the hash -/

section Refresh
variable [Blake3] {cert : RwaAssetCertificate} {t : UnixTimestampSecs}

/-- A time that the certificate can be dated with. -/
def InTime (cert : RwaAssetCertificate) (t : UnixTimestampSecs) : Prop :=
  validateUnixSecsStructural "rwa.updated_at_unix" t = .ok () ∧ cert.createdAtUnix ≤ t

def dated (cert : RwaAssetCertificate) (t : UnixTimestampSecs) : RwaAssetCertificate :=
  { cert with updatedAtUnix := t }

/-- Dated, with the hash that goes with the content. -/
def renewed (cert : RwaAssetCertificate) (t : UnixTimestampSecs) : RwaAssetCertificate :=
  { cert.dated t with metadataHash := (cert.dated t).recomputeMetadataHash }

theorem validate_iff : cert.validate = .ok () ↔ cert.validateWithoutMetadataHash = .ok () ∧
    cert.metadataHash.isZero = false ∧ cert.recomputeMetadataHash = cert.metadataHash := by
  rw [validate, bind_eq_ok_iff]
  simp only [Unique.exists_iff, bind_eq_ok_iff, rejectIf_eq_ok_iff, Bool.not_eq_true, not_not]

theorem renewed_validate : (cert.renewed t).validate = .ok () ↔
    (cert.dated t).validateWithoutMetadataHash = .ok () ∧
      (cert.renewed t).metadataHash.isZero = false := by
  rw [validate_iff]
  change (cert.dated t).validateWithoutMetadataHash = .ok () ∧ _ ∧
    (cert.dated t).recomputeMetadataHash = (cert.dated t).recomputeMetadataHash ↔ _
  rw [and_iff_left rfl]

/-- What is left of a call to `refreshMetadataHash` once the time has been accepted. -/
def finish (t : UnixTimestampSecs) : Op Unit := do
  modify fun cert => { cert with updatedAtUnix := t }
  let cert ← get
  lift cert.validateWithoutMetadataHash
  modify fun cert => { cert with metadataHash := cert.recomputeMetadataHash }
  let cert ← get
  lift cert.validate

theorem refreshMetadataHash_of_not_inTime (h : ¬cert.InTime t) :
    ∃ e, refreshMetadataHash t cert = .error e cert := by
  rw [refreshMetadataHash, bind_run]
  cases htime : validateUnixSecsStructural "rwa.updated_at_unix" t with
  | error e => exact ⟨e, rfl⟩
  | ok u =>
    have hearly : t < cert.createdAtUnix := by
      rw [← UInt64.not_le]
      exact fun hle => h ⟨htime, hle⟩
    refine ⟨validationErr "RWA updated_at_unix cannot be earlier than created_at_unix", ?_⟩
    change ((lift (rejectIf (t < cert.createdAtUnix) _) : Op Unit) >>= fun _ => _) cert = _
    rw [bind_run, rejectIf, if_pos hearly]
    rfl

theorem refreshMetadataHash_of_inTime (h : cert.InTime t) :
    refreshMetadataHash t cert = finish t cert := by
  have hlate : ¬t < cert.createdAtUnix := UInt64.not_lt.mpr h.2
  rw [refreshMetadataHash, h.1, bind_run]
  change ((lift (rejectIf (t < cert.createdAtUnix) _) : Op Unit) >>= fun _ => _) cert = _
  rw [bind_run, rejectIf_of_not _ hlate]
  rfl

/-- The last check finds no fault that the one before did not, unless the hash is zero. -/
theorem finish_run : finish t cert =
    match (cert.dated t).validateWithoutMetadataHash, (cert.renewed t).validate with
    | .error e, _ => .error e (cert.dated t)
    | .ok (), .error e => .error e (cert.renewed t)
    | .ok (), .ok () => .ok () (cert.renewed t) := by
  have hdated : { cert with updatedAtUnix := t } = cert.dated t := rfl
  rw [finish, write_seq, read_seq, lift_seq, hdated]
  cases (cert.dated t).validateWithoutMetadataHash with
  | error e => rfl
  | ok u =>
    have hrenewed : { cert.dated t with metadataHash := (cert.dated t).recomputeMetadataHash } =
        cert.renewed t := rfl
    dsimp only
    rw [write_seq, read_seq, hrenewed]
    cases (cert.renewed t).validate <;> rfl

theorem refreshMetadataHash_eq_ok_iff {cert' : RwaAssetCertificate} :
    refreshMetadataHash t cert = .ok () cert' ↔
      cert.InTime t ∧ (cert.renewed t).validate = .ok () ∧ cert.renewed t = cert' := by
  by_cases htime : cert.InTime t
  · rw [refreshMetadataHash_of_inTime htime, finish_run, and_iff_right htime]
    cases hcontent : (cert.dated t).validateWithoutMetadataHash with
    | error e =>
      have hvalid : (cert.renewed t).validate ≠ .ok () := by
        rw [ne_eq, renewed_validate, hcontent]
        exact fun h => nomatch h.1
      simp [hvalid]
    | ok u => cases hvalid : (cert.renewed t).validate <;> simp
  · obtain ⟨e, he⟩ := refreshMetadataHash_of_not_inTime htime
    simp [he, htime]

end Refresh

end RwaAssetCertificate

/-! ### Calls -/

inductive RwaCall where
  | markMintSubmitted (mintingTimestampUnix : UnixTimestampSecs) (mintingBlock : Option UInt64)
    (mintTxHash : Option RwaHash64)
  | activate (nowUnix : UnixTimestampSecs)
  | freeze (callerWallet : String) (nowUnix : UnixTimestampSecs)
  | unfreeze (callerWallet : String) (nowUnix : UnixTimestampSecs)
  | pauseTransfers (callerWallet : String) (nowUnix : UnixTimestampSecs)
  | unpauseTransfers (callerWallet : String) (nowUnix : UnixTimestampSecs)
  | updateValuation (callerWallet : String) (assetValuationUsdCents : UsdCents)
    (valuationTimestampUnix : UnixTimestampSecs) (valuationSourceHash : RwaHash64)
  | addDocument (callerWallet : String) (document : RwaDocumentLink) (nowUnix : UnixTimestampSecs)
  | addAuditorStamp (callerWallet : String) (stamp : RwaAuditorVerification)
    (nowUnix : UnixTimestampSecs)

namespace RwaCall
open RwaAssetCertificate

def run [Blake3] : RwaCall → Op Unit
  | .markMintSubmitted t block hash => RwaAssetCertificate.markMintSubmitted t block hash
  | .activate t => RwaAssetCertificate.activate t
  | .freeze caller t => RwaAssetCertificate.freeze caller t
  | .unfreeze caller t => RwaAssetCertificate.unfreeze caller t
  | .pauseTransfers caller t => RwaAssetCertificate.pauseTransfers caller t
  | .unpauseTransfers caller t => RwaAssetCertificate.unpauseTransfers caller t
  | .updateValuation caller value t source =>
    RwaAssetCertificate.updateValuation caller value t source
  | .addDocument caller document t => RwaAssetCertificate.addDocument caller document t
  | .addAuditorStamp caller stamp t => RwaAssetCertificate.addAuditorStamp caller stamp t

/-- The time a call dates the certificate with. -/
def time : RwaCall → UnixTimestampSecs
  | .markMintSubmitted t _ _ | .activate t | .freeze _ t | .unfreeze _ t | .pauseTransfers _ t
  | .unpauseTransfers _ t | .updateValuation _ _ t _ | .addDocument _ _ t
  | .addAuditorStamp _ _ t => t

/-- What a call checks before it writes. -/
def checks : RwaCall → RwaAssetCertificate → Fallible Unit
  | .markMintSubmitted t _ _, _ => validateUnixSecsStructural "rwa.minting_timestamp_unix" t
  | .activate _, _ => .ok ()
  | .freeze caller _, cert | .unfreeze caller _, cert | .pauseTransfers caller _, cert
  | .unpauseTransfers caller _, cert => cert.assertFreezeAuthority caller
  | .updateValuation caller value t source, cert => do
    cert.assertIssuerOrTrustee caller
    rejectIf (value = 0) (validationErr "RWA valuation must be > 0")
    rejectIf (source.isZero) (validationErr "RWA valuation_source_hash cannot be zero")
    validateUnixSecsStructural "rwa.valuation_timestamp_unix" t
  | .addDocument caller document _, cert => do
    cert.assertIssuerOrTrustee caller
    rejectIf (maxDocuments ≤ cert.legal.documents.length)
      (validationErr s!"RWA documents exceed max {maxDocuments}")
    document.validate
  | .addAuditorStamp caller stamp _, cert => do
    cert.assertIssuerOrTrustee caller
    rejectIf (maxAuditorStamps ≤ cert.legal.auditorStamps.length)
      (validationErr s!"RWA auditor stamps exceed max {maxAuditorStamps}")
    stamp.validate

/-- What a call writes before the certificate is checked. -/
def edit : RwaCall → RwaAssetCertificate → RwaAssetCertificate
  | .markMintSubmitted t block hash, cert => { cert with
    status := .mintSubmitted
    technical := { cert.technical with
      mintingTimestampUnix := some t, mintingBlock := block, mintTxHash := hash } }
  | .activate _, cert | .unfreeze _ _, cert => { cert with status := .active }
  | .freeze _ _, cert => { cert with status := .frozen }
  | .pauseTransfers _ _, cert =>
    { cert with compliance := { cert.compliance with transfersPaused := true } }
  | .unpauseTransfers _ _, cert =>
    { cert with compliance := { cert.compliance with transfersPaused := false } }
  | .updateValuation _ value t source, cert => { cert with core := { cert.core with
    assetValuationUsdCents := value, valuationTimestampUnix := t, valuationSourceHash := source } }
  | .addDocument _ document _, cert =>
    { cert with legal := { cert.legal with documents := cert.legal.documents ++ [document] } }
  | .addAuditorStamp _ stamp _, cert =>
    { cert with legal := { cert.legal with auditorStamps := cert.legal.auditorStamps ++ [stamp] } }

section Steps
variable [Blake3] {cert cert' : RwaAssetCertificate} {call : RwaCall}

/-- Every call checks, writes, and renews the hash, in this order. -/
theorem run_eq (call : RwaCall) (cert : RwaAssetCertificate) :
    call.run cert =
      match call.checks cert with
      | .ok _ => refreshMetadataHash call.time (call.edit cert)
      | .error e => .error e cert := by
  cases call with
  | markMintSubmitted t block hash =>
    rw [run, RwaAssetCertificate.markMintSubmitted]
    exact lift_write _ _ _ cert
  | activate t =>
    rw [run, RwaAssetCertificate.activate]
    exact write_seq _ _ cert
  | freeze caller t =>
    rw [run, RwaAssetCertificate.freeze, read_seq]
    exact lift_write _ _ _ cert
  | unfreeze caller t =>
    rw [run, RwaAssetCertificate.unfreeze, read_seq]
    exact lift_write _ _ _ cert
  | pauseTransfers caller t =>
    rw [run, RwaAssetCertificate.pauseTransfers, read_seq]
    exact lift_write _ _ _ cert
  | unpauseTransfers caller t =>
    rw [run, RwaAssetCertificate.unpauseTransfers, read_seq]
    exact lift_write _ _ _ cert
  | updateValuation caller value t source =>
    rw [run, RwaAssetCertificate.updateValuation, read_seq, lift_seq, checks]
    cases cert.assertIssuerOrTrustee caller with
    | error e => rfl
    | ok u =>
      rw [ok_bind]
      dsimp only
      rw [lift_seq]
      cases rejectIf (value = 0) (validationErr "RWA valuation must be > 0") with
      | error e => rfl
      | ok u =>
        rw [ok_bind]
        dsimp only
        rw [lift_seq]
        cases rejectIf (source.isZero = true)
            (validationErr "RWA valuation_source_hash cannot be zero") with
        | error e => rfl
        | ok u => exact lift_write _ _ _ cert
  | addDocument caller document t =>
    rw [run, RwaAssetCertificate.addDocument, read_seq, lift_seq, checks]
    cases cert.assertIssuerOrTrustee caller with
    | error e => rfl
    | ok u =>
      rw [ok_bind]
      dsimp only
      rw [lift_seq]
      cases rejectIf (maxDocuments ≤ cert.legal.documents.length)
          (validationErr s!"RWA documents exceed max {maxDocuments}") with
      | error e => rfl
      | ok u => exact lift_write _ _ _ cert
  | addAuditorStamp caller stamp t =>
    rw [run, RwaAssetCertificate.addAuditorStamp, read_seq, lift_seq, checks]
    cases cert.assertIssuerOrTrustee caller with
    | error e => rfl
    | ok u =>
      rw [ok_bind]
      dsimp only
      rw [lift_seq]
      cases rejectIf (maxAuditorStamps ≤ cert.legal.auditorStamps.length)
          (validationErr s!"RWA auditor stamps exceed max {maxAuditorStamps}") with
      | error e => rfl
      | ok u => exact lift_write _ _ _ cert

theorem run_of_ok (h : call.checks cert = .ok ()) :
    call.run cert = refreshMetadataHash call.time (call.edit cert) := by
  rw [run_eq, h]

/-- What a call adds does not spoil the certificate: a mint hash is not zero, and a document is not
there yet. -/
def Accepts : RwaCall → RwaAssetCertificate → Prop
  | .markMintSubmitted _ _ hash, _ => ∀ h ∈ hash, h.isZero = false
  | .addDocument _ document _, cert => document.key ∉ cert.legal.documents.map RwaDocumentLink.key
  | _, _ => True

omit [Blake3] in
theorem edit_createdAtUnix : (call.edit cert).createdAtUnix = cert.createdAtUnix := by
  cases call <;> rfl

end Steps

end RwaCall

/-! ### Content -/

theorem RwaDocumentLink.entry_eq_ok_iff (doc : RwaDocumentLink) (k : String) :
    (do
      doc.validate
      return doc.key : Fallible String) = .ok k ↔ doc.validate = .ok () ∧ doc.key = k := by
  rw [bind_eq_ok_iff]
  simp only [Unique.exists_iff, pure_eq_ok_iff]

theorem RwaLegalOwnershipData.validateDocuments_concat {documents : List RwaDocumentLink}
    {doc : RwaDocumentLink} (h : validateDocuments documents = .ok ())
    (hdoc : doc.validate = .ok ()) : validateDocuments (documents ++ [doc]) = .ok () ↔
      doc.key ∉ documents.map RwaDocumentLink.key :=
  Distinct.check_concat RwaDocumentLink.entry_eq_ok_iff h hdoc

namespace RwaAssetCertificate
variable {cert : RwaAssetCertificate}

/-- What no call changes. -/
def Plain (cert : RwaAssetCertificate) : Prop :=
  validateShortText "schema" cert.schema = .ok () ∧ validateShortText "kind" cert.kind = .ok () ∧
    cert.schema = rwaSchema ∧ cert.kind = rwaKind ∧ cert.certificateId.isZero = false ∧
    (∃ w, canonicalWallet cert.issuerWallet "issuer_wallet" = .ok w) ∧
    (∃ w, canonicalWallet cert.ownerWallet "owner_wallet" = .ok w) ∧
    validateUnixSecsStructural "rwa.created_at_unix" cert.createdAtUnix = .ok ()

theorem content_iff : cert.validateWithoutMetadataHash = .ok () ↔
    cert.Plain ∧ cert.InTime cert.updatedAtUnix ∧ cert.core.validate cert.createdAtUnix = .ok () ∧
      cert.legal.validate = .ok () ∧ cert.compliance.validate cert.legal = .ok () ∧
      cert.technical.validate = .ok () := by
  simp only [validateWithoutMetadataHash, bind_eq_ok_iff, rejectIf_eq_ok_iff, Unique.exists_iff,
    Plain, InTime, ← UInt64.not_lt, ne_eq, not_not, Bool.not_eq_true]
  constructor
  · rintro ⟨hschema, hkind, hs, hk, hid, issuer, hissuer, owner, howner, hcreated, hupdated, hlate,
      hcore, hlegal, hrules, htechnical⟩
    exact ⟨⟨hschema, hkind, hs, hk, hid, ⟨issuer, hissuer⟩, ⟨owner, howner⟩, hcreated⟩,
      ⟨hupdated, hlate⟩, hcore, hlegal, hrules, htechnical⟩
  · rintro ⟨⟨hschema, hkind, hs, hk, hid, ⟨issuer, hissuer⟩, ⟨owner, howner⟩, hcreated⟩,
      ⟨hupdated, hlate⟩, hcore, hlegal, hrules, htechnical⟩
    exact ⟨hschema, hkind, hs, hk, hid, issuer, hissuer, owner, howner, hcreated, hupdated, hlate,
      hcore, hlegal, hrules, htechnical⟩

end RwaAssetCertificate

namespace RwaCall
open RwaAssetCertificate
variable {cert : RwaAssetCertificate} {call : RwaCall}

theorem core_validate {core : RwaCoreFinancialData} {created t : UnixTimestampSecs}
    {value : UsdCents} {source : RwaHash64} (h : core.validate created = .ok ()) (hvalue : ¬value = 0)
    (hsource : ¬source.isZero = true) (hlate : created ≤ t)
    (ht : validateUnixSecsStructural "rwa.valuation_timestamp_unix" t = .ok ()) :
    RwaCoreFinancialData.validate { core with
      assetValuationUsdCents := value, valuationTimestampUnix := t, valuationSourceHash := source }
      created = .ok () := by
  have hrecent : ¬t < Checked.saturatingSub created (31536000*50) := by
    rw [UInt64.lt_iff_toNat_lt, Checked.saturatingSub_toNat]
    have hle := UInt64.le_iff_toNat_le.mp hlate
    omega
  simp only [RwaCoreFinancialData.validate, bind_eq_ok_iff, rejectIf_eq_ok_iff,
    Unique.exists_iff] at h ⊢
  obtain ⟨hname, hreference, -, -, -, -, hrest⟩ := h
  exact ⟨hname, hreference, hvalue, ht, hrecent, hsource, hrest⟩

theorem technical_validate {technical : RwaTechnicalBlockchainData} {t : UnixTimestampSecs}
    {block : Option UInt64} {hash : Option RwaHash64} (h : technical.validate = .ok ())
    (ht : validateUnixSecsStructural "rwa.minting_timestamp_unix" t = .ok ()) :
    RwaTechnicalBlockchainData.validate { technical with
      mintingTimestampUnix := some t, mintingBlock := block, mintTxHash := hash } = .ok () ↔
      ∀ h ∈ hash, h.isZero = false := by
  simp only [RwaTechnicalBlockchainData.validate, bind_eq_ok_iff, Unique.exists_iff] at h ⊢
  rw [and_iff_right h.1]
  change validateUnixSecsStructural "rwa.minting_timestamp_unix" t = .ok () ∧ _ ↔ _
  rw [and_iff_right ht]
  cases hash with
  | none => exact ⟨fun _ h hmem => absurd hmem (Option.not_mem_none h), fun _ => rfl⟩
  | some hash =>
    change rejectIf (hash.isZero = true) _ = .ok () ↔ _
    rw [rejectIf_eq_ok_iff, Bool.not_eq_true]
    exact ⟨fun hzero h hmem => Option.some.inj hmem ▸ hzero, fun hall => hall hash rfl⟩

theorem legal_validate_document {legal : RwaLegalOwnershipData} {doc : RwaDocumentLink}
    (h : legal.validate = .ok ()) (hroom : ¬maxDocuments ≤ legal.documents.length)
    (hdoc : doc.validate = .ok ()) :
    RwaLegalOwnershipData.validate { legal with documents := legal.documents ++ [doc] } = .ok () ↔
      doc.key ∉ legal.documents.map RwaDocumentLink.key := by
  have hsome : ¬(legal.documents ++ [doc]).isEmpty = true := by
    rw [List.isEmpty_iff]
    exact List.concat_ne_nil doc _
  have hcount : ¬maxDocuments < (legal.documents ++ [doc]).length := by
    rw [List.length_append, List.length_singleton]
    omega
  simp only [RwaLegalOwnershipData.validate, bind_eq_ok_iff, Unique.exists_iff,
    rejectIf_eq_ok_iff] at h ⊢
  obtain ⟨j, hj, hspv, htrustee, hsummary, -, -, hdocuments, hrest⟩ := h
  rw [← RwaLegalOwnershipData.validateDocuments_concat hdocuments hdoc]
  constructor
  · rintro ⟨-, -, -, -, -, -, -, hnew, -⟩
    exact hnew
  · intro hnew
    exact ⟨j, hj, hspv, htrustee, hsummary, hsome, hcount, hnew, hrest⟩

theorem legal_validate_stamp {legal : RwaLegalOwnershipData} {stamp : RwaAuditorVerification}
    (h : legal.validate = .ok ()) (hroom : ¬maxAuditorStamps ≤ legal.auditorStamps.length)
    (hstamp : stamp.validate = .ok ()) :
    RwaLegalOwnershipData.validate
      { legal with auditorStamps := legal.auditorStamps ++ [stamp] } = .ok () := by
  have hcount : ¬maxAuditorStamps < (legal.auditorStamps ++ [stamp]).length := by
    rw [List.length_append, List.length_singleton]
    omega
  simp only [RwaLegalOwnershipData.validate, bind_eq_ok_iff, Unique.exists_iff,
    rejectIf_eq_ok_iff] at h ⊢
  obtain ⟨j, hj, hspv, htrustee, hsummary, hsome, hdocs, hdocuments, -, hstamps⟩ := h
  refine ⟨j, hj, hspv, htrustee, hsummary, hsome, hdocs, hdocuments, hcount, ?_⟩
  rw [List.forM_eq_forM] at hstamps
  rw [List.forM_eq_forM, List.forM_append, hstamps, ok_bind]
  change (stamp.validate >>= fun _ => pure ()) = .ok ()
  rw [hstamp]
  rfl

/-- Once the call's own checks have passed and the time is accepted, only its entry can be wrong. -/
theorem content_edit (hvalid : cert.validateWithoutMetadataHash = .ok ())
    (hchecks : call.checks cert = .ok ()) (htime : cert.InTime call.time) :
    ((call.edit cert).dated call.time).validateWithoutMetadataHash = .ok () ↔
      call.Accepts cert := by
  obtain ⟨hplain, -, hcore, hlegal, hrules, htechnical⟩ := content_iff.mp hvalid
  rw [content_iff]
  cases call with
  | markMintSubmitted t block hash =>
    rw [Accepts, ← @technical_validate _ _ block _ htechnical hchecks]
    exact ⟨fun h => h.2.2.2.2.2, fun h => ⟨hplain, htime, hcore, hlegal, hrules, h⟩⟩
  | activate t => exact iff_of_true ⟨hplain, htime, hcore, hlegal, hrules, htechnical⟩ trivial
  | freeze caller t => exact iff_of_true ⟨hplain, htime, hcore, hlegal, hrules, htechnical⟩ trivial
  | unfreeze caller t =>
    exact iff_of_true ⟨hplain, htime, hcore, hlegal, hrules, htechnical⟩ trivial
  | pauseTransfers caller t =>
    exact iff_of_true ⟨hplain, htime, hcore, hlegal, hrules, htechnical⟩ trivial
  | unpauseTransfers caller t =>
    exact iff_of_true ⟨hplain, htime, hcore, hlegal, hrules, htechnical⟩ trivial
  | updateValuation caller value t source =>
    simp only [checks, bind_eq_ok_iff, Unique.exists_iff, rejectIf_eq_ok_iff] at hchecks
    obtain ⟨-, hvalue, hsource, ht⟩ := hchecks
    have hnew := core_validate hcore hvalue hsource htime.2 ht
    exact iff_of_true ⟨hplain, htime, hnew, hlegal, hrules, htechnical⟩ trivial
  | addDocument caller document t =>
    simp only [checks, bind_eq_ok_iff, Unique.exists_iff, rejectIf_eq_ok_iff] at hchecks
    obtain ⟨-, hroom, hdocument⟩ := hchecks
    rw [Accepts, ← legal_validate_document hlegal hroom hdocument]
    exact ⟨fun h => h.2.2.2.1, fun h => ⟨hplain, htime, hcore, h, hrules, htechnical⟩⟩
  | addAuditorStamp caller stamp t =>
    simp only [checks, bind_eq_ok_iff, Unique.exists_iff, rejectIf_eq_ok_iff] at hchecks
    obtain ⟨-, hroom, hstamp⟩ := hchecks
    have hnew := legal_validate_stamp hlegal hroom hstamp
    exact iff_of_true ⟨hplain, htime, hcore, hnew, hrules, htechnical⟩ trivial

end RwaCall
/-! ### A certificate -/

namespace RwaSample

def walletOf (c : Char) : String := String.ofList ('r' :: List.replicate 128 c)

def issuer : String := walletOf 'a'
def stranger : String := walletOf 'b'

def hashOf (b : UInt8) : RwaHash64 := ⟨.replicate 64 b⟩

def created : UnixTimestampSecs := 1700000000

def core : RwaCoreFinancialData :=
  ⟨.treasury, "Bill", hashOf 2, 100, created, hashOf 3, 450, .annual, none, 1000, 2, none, none⟩

def deed : RwaDocumentLink := ⟨.assetDeed, "Deed", "ipfs://deed", hashOf 4, 1, none, none, none⟩

def legal : RwaLegalOwnershipData := ⟨"SG", hashOf 5, none, none, [deed], []⟩

def rules : RwaComplianceRules :=
  ⟨none, none, [], [], false, none, none, false, none, none, false, []⟩

def draft : RwaAssetCertificate :=
  ⟨rwaSchema, rwaKind, hashOf 1, issuer, issuer, .draft, core, legal, rules,
    ⟨.remzarNativeRwa, none, none, none, none⟩, created, created, .zero⟩

def certificate : RwaAssetCertificate :=
  @RwaAssetCertificate.renewed Blake3.reference draft created

theorem draft_content : (draft.dated created).validateWithoutMetadataHash = .ok () := by
  decide +kernel

theorem certificate_valid :
    @RwaAssetCertificate.validate Blake3.reference certificate = .ok () := by
  have hhash : certificate.metadataHash.isZero = false := by decide +kernel
  exact (@RwaAssetCertificate.renewed_validate Blake3.reference _ _).mpr ⟨draft_content, hhash⟩

end RwaSample
end Remzar
