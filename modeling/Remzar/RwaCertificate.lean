import Mathlib
import Remzar.Lib.Blake3
import Remzar.Lib.Distinct
import Remzar.Lib.Json
import Remzar.SendFile
import Remzar.Invoices

/-! Certificates for real-world assets: their data, and the checks that every certificate must
pass. The hash of a certificate is the hash of its JSON text with the hash itself set to zero. -/
namespace Remzar
open Fallible Checked Text

def rwaSchema : String := "rwa-asset-certificate-v1"
def rwaKind : String := "RealWorldAsset"

def maxShortTextBytes : ℕ := 256
def maxMediumTextBytes : ℕ := 1024
def maxLongTextBytes : ℕ := 4*1024
def maxUriBytes : ℕ := 2*1024
def maxDocuments : ℕ := 64
def maxAuditorStamps : ℕ := 32
def maxJurisdictions : ℕ := 256
def maxRules : ℕ := 128
def maxYieldBps : UInt32 := 100000
def maxDecimals : UInt8 := 18
def maxInvestorsHardCap : UInt32 := 1000000

abbrev RwaUnits := BitVec 128
abbrev UsdCents := BitVec 128
abbrev BasisPoints := UInt32
abbrev UnixTimestampSecs := UInt64

structure RwaHash64 where
  bytes : List.Vector UInt8 64
  deriving DecidableEq

namespace RwaHash64

def zero : RwaHash64 := ⟨.replicate 64 0⟩

def isZero (h : RwaHash64) : Bool := h.bytes.toList.all (· = 0)

def toHex (h : RwaHash64) : String := Blake3.toHex h.bytes.toList

def computeFromBytes [Blake3] (bytes : List UInt8) : RwaHash64 := ⟨Blake3.xof64 bytes⟩

def json (h : RwaHash64) : List UInt8 :=
  Json.array (h.bytes.toList.map fun b => Json.number b.toNat)

end RwaHash64

inductive RwaAssetClass where
  | realEstate | treasury | moneyMarket | privateCredit | invoice | commodity | preciousMetal
  | cashEquivalent | equity | fundShare | bond | carbonCredit | intellectualProperty | equipment
  | other
  deriving DecidableEq

def RwaAssetClass.tag : RwaAssetClass → String
  | realEstate => "real_estate"
  | treasury => "treasury"
  | moneyMarket => "money_market"
  | privateCredit => "private_credit"
  | invoice => "invoice"
  | commodity => "commodity"
  | preciousMetal => "precious_metal"
  | cashEquivalent => "cash_equivalent"
  | equity => "equity"
  | fundShare => "fund_share"
  | bond => "bond"
  | carbonCredit => "carbon_credit"
  | intellectualProperty => "intellectual_property"
  | equipment => "equipment"
  | other => "other"

inductive RwaPayoutFrequency where
  | none | perSecond | daily | weekly | monthly | quarterly | semiAnnual | annual | atMaturity
  | custom
  deriving DecidableEq

def RwaPayoutFrequency.tag : RwaPayoutFrequency → String
  | none => "none"
  | perSecond => "per_second"
  | daily => "daily"
  | weekly => "weekly"
  | monthly => "monthly"
  | quarterly => "quarterly"
  | semiAnnual => "semi_annual"
  | annual => "annual"
  | atMaturity => "at_maturity"
  | custom => "custom"

inductive RwaLifecycleStatus where
  | draft | mintSubmitted | active | frozen | matured | redeemed | cancelled
  deriving DecidableEq

namespace RwaLifecycleStatus

def tag : RwaLifecycleStatus → String
  | draft => "draft"
  | mintSubmitted => "mint_submitted"
  | active => "active"
  | frozen => "frozen"
  | matured => "matured"
  | redeemed => "redeemed"
  | cancelled => "cancelled"

def debug : RwaLifecycleStatus → String
  | draft => "Draft"
  | mintSubmitted => "MintSubmitted"
  | active => "Active"
  | frozen => "Frozen"
  | matured => "Matured"
  | redeemed => "Redeemed"
  | cancelled => "Cancelled"

end RwaLifecycleStatus

inductive RwaDocumentKind where
  | assetDeed | titleInsurance | appraisal | custodyStatement | spvFiling | trustAgreement
  | offeringMemorandum | subscriptionAgreement | auditReport | proofOfReserve | insurancePolicy
  | courtOrder | legalOpinion | compliancePolicy | other
  deriving DecidableEq

namespace RwaDocumentKind

def tag : RwaDocumentKind → String
  | assetDeed => "asset_deed"
  | titleInsurance => "title_insurance"
  | appraisal => "appraisal"
  | custodyStatement => "custody_statement"
  | spvFiling => "spv_filing"
  | trustAgreement => "trust_agreement"
  | offeringMemorandum => "offering_memorandum"
  | subscriptionAgreement => "subscription_agreement"
  | auditReport => "audit_report"
  | proofOfReserve => "proof_of_reserve"
  | insurancePolicy => "insurance_policy"
  | courtOrder => "court_order"
  | legalOpinion => "legal_opinion"
  | compliancePolicy => "compliance_policy"
  | other => "other"

def debug : RwaDocumentKind → String
  | assetDeed => "AssetDeed"
  | titleInsurance => "TitleInsurance"
  | appraisal => "Appraisal"
  | custodyStatement => "CustodyStatement"
  | spvFiling => "SpvFiling"
  | trustAgreement => "TrustAgreement"
  | offeringMemorandum => "OfferingMemorandum"
  | subscriptionAgreement => "SubscriptionAgreement"
  | auditReport => "AuditReport"
  | proofOfReserve => "ProofOfReserve"
  | insurancePolicy => "InsurancePolicy"
  | courtOrder => "CourtOrder"
  | legalOpinion => "LegalOpinion"
  | compliancePolicy => "CompliancePolicy"
  | other => "Other"

end RwaDocumentKind

inductive RwaTokenStandard where
  | remzarNativeRwa | remzarNftBacked | erc3643Inspired | erc1400Inspired | erc1155Inspired | other
  deriving DecidableEq

def RwaTokenStandard.tag : RwaTokenStandard → String
  | remzarNativeRwa => "remzar_native_rwa"
  | remzarNftBacked => "remzar_nft_backed"
  | erc3643Inspired => "erc3643_inspired"
  | erc1400Inspired => "erc1400_inspired"
  | erc1155Inspired => "erc1155_inspired"
  | other => "other"

structure RwaCoreFinancialData where
  assetClass : RwaAssetClass
  assetName : String
  assetReferenceHash : RwaHash64
  assetValuationUsdCents : UsdCents
  valuationTimestampUnix : UnixTimestampSecs
  valuationSourceHash : RwaHash64
  yieldBps : BasisPoints
  payoutFrequency : RwaPayoutFrequency
  maturityTimestampUnix : Option UnixTimestampSecs
  totalSupply : RwaUnits
  decimals : UInt8
  faceValueUsdCentsPerUnit : Option UsdCents
  minimumTransferUnits : Option RwaUnits
  deriving DecidableEq

structure RwaDocumentLink where
  kind : RwaDocumentKind
  label : String
  uri : String
  contentHash : RwaHash64
  version : UInt32
  issuedAtUnix : Option UnixTimestampSecs
  expiresAtUnix : Option UnixTimestampSecs
  issuerIdentityHash : Option RwaHash64
  deriving DecidableEq

structure RwaAuditorVerification where
  auditorWallet : Option String
  auditorIdentityHash : RwaHash64
  statementHash : RwaHash64
  verifiedAtUnix : UnixTimestampSecs
  expiresAtUnix : Option UnixTimestampSecs
  proofUri : Option String
  deriving DecidableEq

structure RwaLegalOwnershipData where
  legalJurisdiction : String
  spvOrTrusteeIdentityHash : RwaHash64
  trusteeWallet : Option String
  legalSummary : Option String
  documents : List RwaDocumentLink
  auditorStamps : List RwaAuditorVerification
  deriving DecidableEq

structure RwaComplianceRules where
  kycRegistryWallet : Option String
  kycRegistryReference : Option String
  allowedJurisdictions : List String
  blockedJurisdictions : List String
  accreditedInvestorRequired : Bool
  maxInvestors : Option UInt32
  transferLockUntilUnix : Option UnixTimestampSecs
  transfersPaused : Bool
  freezeAuthorityWallet : Option String
  clawbackAuthorityWallet : Option String
  clawbackEnabled : Bool
  ruleNotes : List String
  deriving DecidableEq

structure RwaTechnicalBlockchainData where
  tokenStandard : RwaTokenStandard
  contractAddress : Option String
  mintingTimestampUnix : Option UnixTimestampSecs
  mintingBlock : Option UInt64
  mintTxHash : Option RwaHash64
  deriving DecidableEq

structure RwaAssetCertificate where
  schema : String
  kind : String
  certificateId : RwaHash64
  issuerWallet : String
  ownerWallet : String
  status : RwaLifecycleStatus
  core : RwaCoreFinancialData
  legal : RwaLegalOwnershipData
  compliance : RwaComplianceRules
  technical : RwaTechnicalBlockchainData
  createdAtUnix : UnixTimestampSecs
  updatedAtUnix : UnixTimestampSecs
  metadataHash : RwaHash64
  deriving DecidableEq

/-! ### Texts -/

namespace Rwa

def canonicalWallet (wallet label : String) : Fallible String :=
  mapErr (fun e => validationErr (s!"Invalid RWA wallet field {label}: " ++
    s!"wallet address is invalid or incomplete: {e.debug}")) (canonWalletIdChecked wallet)

/-- `str::to_ascii_uppercase`. -/
def toAsciiUppercase (s : String) : String :=
  String.ofList ((chars s).map fun c =>
    if 'a' ≤ c ∧ c ≤ 'z' then Char.ofNat (c.toNat-32) else c)

def isJurisdictionByte (b : UInt8) : Bool :=
  (65 ≤ b && b ≤ 90) || (97 ≤ b && b ≤ 122) || (48 ≤ b && b ≤ 57) || b = 45 || b = 95 || b = 46

def normalizeJurisdiction (value : String) : Fallible String := do
  let s := trim value
  rejectIf (s.isEmpty) (validationErr "RWA jurisdiction cannot be empty")
  rejectIf (64 < byteLen s) (validationErr "RWA jurisdiction exceeds 64 chars")
  rejectIf (¬(utf8 s).all isJurisdictionByte)
    (validationErr s!"RWA jurisdiction contains invalid characters: {s}")
  return toAsciiUppercase s

def normalizeJurisdictionLossy (value : String) : String := toAsciiUppercase (trim value)

def validateJurisdictionList (label : String) (list : List String) : Fallible Unit := do
  rejectIf (maxJurisdictions < list.length)
    (validationErr s!"RWA {label} exceeds max {maxJurisdictions}")
  Distinct.check normalizeJurisdiction
    (fun normalized => validationErr s!"Duplicate RWA jurisdiction in {label}: {normalized}")
    [] list

def validateText (label value : String) (minBytes maxBytes : ℕ) : Fallible Unit := do
  let s := trim value
  rejectIf (byteLen s < minBytes) (validationErr s!"RWA {label} cannot be empty")
  rejectIf (maxBytes < byteLen s) (validationErr s!"RWA {label} exceeds max {maxBytes} bytes")
  rejectIf ((chars s).any fun c => isControl c && c ≠ '\n' && c ≠ '\r' && c ≠ '\t')
    (validationErr s!"RWA {label} contains unsupported control characters")

def validateShortText (label value : String) : Fallible Unit :=
  validateText label value 1 maxShortTextBytes

def validateMediumText (label value : String) : Fallible Unit :=
  validateText label value 1 maxMediumTextBytes

def validateLongText (label value : String) : Fallible Unit :=
  validateText label value 1 maxLongTextBytes

def validateUri (label value : String) : Fallible Unit := do
  validateText label value 1 maxUriBytes
  let s := utf8 (trim value)
  rejectIf (s.any isAsciiWhitespace) (validationErr s!"RWA {label} cannot contain whitespace")
  rejectIf (¬(["ipfs://", "ar://", "https://", "remzar://"].any fun scheme =>
      (utf8 scheme).isPrefixOf s))
    (validationErr s!"RWA {label} must start with ipfs://, ar://, https://, or remzar://")

end Rwa

open Rwa

/-! ### Parts of a certificate -/

def RwaCoreFinancialData.validate (core : RwaCoreFinancialData)
    (certificateCreatedAt : UnixTimestampSecs) : Fallible Unit := do
  validateShortText "asset_name" core.assetName
  rejectIf (core.assetReferenceHash.isZero)
    (validationErr "RWA asset_reference_hash cannot be zero")
  rejectIf (core.assetValuationUsdCents = 0)
    (validationErr "RWA asset_valuation_usd_cents must be > 0")
  validateUnixSecsStructural "rwa.valuation_timestamp_unix" core.valuationTimestampUnix
  rejectIf (core.valuationTimestampUnix < saturatingSub certificateCreatedAt (31536000*50))
    (validationErr "RWA valuation timestamp is implausibly older than certificate creation")
  rejectIf (core.valuationSourceHash.isZero)
    (validationErr "RWA valuation_source_hash cannot be zero")
  rejectIf (maxYieldBps < core.yieldBps)
    (validationErr s!"RWA yield_bps exceeds max sanity cap {maxYieldBps}")
  core.maturityTimestampUnix.forM fun maturity => do
    validateUnixSecsStructural "rwa.maturity_timestamp_unix" maturity
    rejectIf (maturity ≤ certificateCreatedAt)
      (validationErr "RWA maturity_timestamp_unix must be after created_at_unix")
  rejectIf (core.totalSupply = 0) (validationErr "RWA total_supply must be > 0")
  rejectIf (maxDecimals < core.decimals) (validationErr s!"RWA decimals exceeds max {maxDecimals}")
  core.faceValueUsdCentsPerUnit.forM fun faceValue =>
    rejectIf (faceValue = 0)
      (validationErr "RWA face_value_usd_cents_per_unit must be > 0 when present")
  core.minimumTransferUnits.forM fun minTransfer => do
    rejectIf (minTransfer = 0)
      (validationErr "RWA minimum_transfer_units must be > 0 when present")
    rejectIf (core.totalSupply < minTransfer)
      (validationErr "RWA minimum_transfer_units cannot exceed total_supply")

namespace RwaDocumentLink

def validate (doc : RwaDocumentLink) : Fallible Unit := do
  validateShortText "document.label" doc.label
  validateUri "document.uri" doc.uri
  rejectIf (doc.contentHash.isZero) (validationErr "RWA document content_hash cannot be zero")
  rejectIf (doc.version = 0) (validationErr "RWA document version must be >= 1")
  doc.issuedAtUnix.forM (validateUnixSecsStructural "rwa.document.issued_at_unix")
  doc.expiresAtUnix.forM (validateUnixSecsStructural "rwa.document.expires_at_unix")
  doc.issuedAtUnix.forM fun issued => doc.expiresAtUnix.forM fun expires =>
    rejectIf (expires ≤ issued)
      (validationErr "RWA document expires_at_unix must be after issued_at_unix")
  doc.issuerIdentityHash.forM fun hash => rejectIf (hash.isZero)
    (validationErr "RWA document issuer_identity_hash cannot be zero when present")

/-- No two documents of a certificate have the same one. -/
def key (doc : RwaDocumentLink) : String :=
  s!"{doc.kind.debug}:{doc.version}:{doc.contentHash.toHex}"

end RwaDocumentLink

def RwaAuditorVerification.validate (stamp : RwaAuditorVerification) : Fallible Unit := do
  stamp.auditorWallet.forM fun wallet => do
    let _ ← canonicalWallet wallet "auditor_wallet"
  rejectIf (stamp.auditorIdentityHash.isZero)
    (validationErr "RWA auditor_identity_hash cannot be zero")
  rejectIf (stamp.statementHash.isZero)
    (validationErr "RWA auditor statement_hash cannot be zero")
  validateUnixSecsStructural "rwa.auditor.verified_at_unix" stamp.verifiedAtUnix
  stamp.expiresAtUnix.forM fun expires => do
    validateUnixSecsStructural "rwa.auditor.expires_at_unix" expires
    rejectIf (expires ≤ stamp.verifiedAtUnix)
      (validationErr "RWA auditor expires_at_unix must be after verified_at_unix")
  stamp.proofUri.forM (validateUri "auditor.proof_uri")

namespace RwaLegalOwnershipData

def validateDocuments (documents : List RwaDocumentLink) : Fallible Unit :=
  Distinct.check
    (fun doc => do
      doc.validate
      return doc.key)
    (fun _ => validationErr "Duplicate RWA legal document detected") [] documents

def validate (legal : RwaLegalOwnershipData) : Fallible Unit := do
  let _ ← normalizeJurisdiction legal.legalJurisdiction
  rejectIf (legal.spvOrTrusteeIdentityHash.isZero)
    (validationErr "RWA spv_or_trustee_identity_hash cannot be zero")
  legal.trusteeWallet.forM fun wallet => do
    let _ ← canonicalWallet wallet "trustee_wallet"
  legal.legalSummary.forM (validateLongText "legal_summary")
  rejectIf (legal.documents.isEmpty)
    (validationErr "RWA must include at least one off-chain legal document pointer")
  rejectIf (maxDocuments < legal.documents.length)
    (validationErr s!"RWA documents exceed max {maxDocuments}")
  validateDocuments legal.documents
  rejectIf (maxAuditorStamps < legal.auditorStamps.length)
    (validationErr s!"RWA auditor stamps exceed max {maxAuditorStamps}")
  legal.auditorStamps.forM RwaAuditorVerification.validate

end RwaLegalOwnershipData

def RwaComplianceRules.validate (rules : RwaComplianceRules) (legal : RwaLegalOwnershipData) :
    Fallible Unit := do
  rules.kycRegistryWallet.forM fun wallet => do
    let _ ← canonicalWallet wallet "kyc_registry_wallet"
  rules.kycRegistryReference.forM (validateMediumText "kyc_registry_reference")
  validateJurisdictionList "allowed_jurisdictions" rules.allowedJurisdictions
  validateJurisdictionList "blocked_jurisdictions" rules.blockedJurisdictions
  let allowed := rules.allowedJurisdictions.map normalizeJurisdictionLossy
  rules.blockedJurisdictions.forM fun blocked => do
    let normalized ← normalizeJurisdiction blocked
    rejectIf (normalized ∈ allowed)
      (validationErr s!"Jurisdiction {normalized} cannot be both allowed and blocked")
  rules.maxInvestors.forM fun max => do
    rejectIf (max = 0) (validationErr "RWA max_investors must be > 0 when present")
    rejectIf (maxInvestorsHardCap < max)
      (validationErr s!"RWA max_investors exceeds hard cap {maxInvestorsHardCap}")
  rules.transferLockUntilUnix.forM (validateUnixSecsStructural "rwa.transfer_lock_until_unix")
  rules.freezeAuthorityWallet.forM fun wallet => do
    let _ ← canonicalWallet wallet "freeze_authority_wallet"
  rules.clawbackAuthorityWallet.forM fun wallet => do
    let _ ← canonicalWallet wallet "clawback_authority_wallet"
  rejectIf (rules.clawbackEnabled ∧ rules.clawbackAuthorityWallet = none)
    (validationErr "RWA clawback_enabled requires clawback_authority_wallet")
  rejectIf (maxRules < rules.ruleNotes.length)
    (validationErr s!"RWA rule_notes exceed max {maxRules}")
  rules.ruleNotes.forM (validateMediumText "rule_note")
  legal.trusteeWallet.forM fun trustee => do
    let _ ← canonicalWallet trustee "legal.trustee_wallet"

def RwaTechnicalBlockchainData.validate (technical : RwaTechnicalBlockchainData) :
    Fallible Unit := do
  technical.contractAddress.forM (validateMediumText "contract_address")
  technical.mintingTimestampUnix.forM (validateUnixSecsStructural "rwa.minting_timestamp_unix")
  technical.mintTxHash.forM fun hash => rejectIf (hash.isZero)
    (validationErr "RWA mint_tx_hash cannot be zero when present")

end Remzar
