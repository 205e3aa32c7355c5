import Mathlib
import Remzar.RwaAtomicity

/-! Transfers of a certificate's units. A certificate that is frozen or paused admits none, until
the hold is lifted. -/
namespace Remzar
open Fallible Effects Rwa RwaAssetCertificate

structure RwaHolderCompliance where
  wallet : String
  kycApproved : Bool
  jurisdiction : String
  accreditedInvestor : Bool
  expiresAtUnix : Option UnixTimestampSecs
  frozen : Bool

structure RwaTransferCheck where
  fromWallet : String
  toWallet : String
  amountUnits : RwaUnits
  fromBalanceUnits : RwaUnits
  toBalanceUnits : RwaUnits
  currentHolderCount : UInt32
  nowUnix : UnixTimestampSecs

def RwaHolderCompliance.validate (holder : RwaHolderCompliance) : Fallible Unit := do
  let _ ← canonicalWallet holder.wallet "holder.wallet"
  let _ ← normalizeJurisdiction holder.jurisdiction
  holder.expiresAtUnix.forM (validateUnixSecsStructural "holder.expires_at_unix")

def RwaTransferCheck.validate (check : RwaTransferCheck) : Fallible Unit := do
  let _ ← canonicalWallet check.fromWallet "transfer.from_wallet"
  let _ ← canonicalWallet check.toWallet "transfer.to_wallet"
  validateUnixSecsStructural "transfer.now_unix" check.nowUnix
  rejectIf (check.amountUnits = 0) (validationErr "RWA transfer amount_units must be > 0")
  rejectIf (check.fromBalanceUnits < check.amountUnits)
    (validationErr "RWA transfer from_balance_units is below amount_units")

def Rwa.validateHolderActive (label : String) (holder : RwaHolderCompliance)
    (nowUnix : UnixTimestampSecs) : Fallible Unit := do
  rejectIf (¬holder.kycApproved)
    (validationErr s!"RWA transfer rejected: {label} is not KYC approved")
  holder.expiresAtUnix.forM fun expires => rejectIf (expires < nowUnix)
    (validationErr s!"RWA transfer rejected: {label} KYC has expired")

namespace RwaAssetCertificate

/-- Who takes part. -/
def transferParties (check : RwaTransferCheck) (fromCompliance toCompliance : RwaHolderCompliance) :
    Fallible Unit := do
  check.validate
  fromCompliance.validate
  toCompliance.validate
  let fromWallet ← canonicalWallet check.fromWallet "transfer.from_wallet"
  let toWallet ← canonicalWallet check.toWallet "transfer.to_wallet"
  rejectIf (fromWallet = toWallet)
    (validationErr "RWA transfer sender and receiver are the same")
  let sender ← canonicalWallet fromCompliance.wallet "from_compliance.wallet"
  rejectIf (sender ≠ fromWallet)
    (validationErr "RWA transfer sender compliance wallet does not match sender")
  let receiver ← canonicalWallet toCompliance.wallet "to_compliance.wallet"
  rejectIf (receiver ≠ toWallet)
    (validationErr "RWA transfer receiver compliance wallet does not match receiver")

/-- What moves, and between which holders. -/
def transferRules (cert : RwaAssetCertificate) (check : RwaTransferCheck)
    (fromCompliance toCompliance : RwaHolderCompliance) : Fallible Unit := do
  cert.compliance.transferLockUntilUnix.forM fun lockUntil => rejectIf (check.nowUnix < lockUntil)
    (validationErr s!"RWA transfer rejected: locked until unix {lockUntil}")
  rejectIf (check.amountUnits = 0) (validationErr "RWA transfer amount must be > 0")
  cert.core.minimumTransferUnits.forM fun min => rejectIf (check.amountUnits < min)
    (validationErr s!"RWA transfer amount below minimum units: min={min.toNat}")
  rejectIf (check.fromBalanceUnits < check.amountUnits)
    (validationErr "RWA transfer rejected: insufficient balance")
  rejectIf (fromCompliance.frozen ∨ toCompliance.frozen)
    (validationErr "RWA transfer rejected: sender or receiver wallet is frozen")
  validateHolderActive "sender" fromCompliance check.nowUnix
  validateHolderActive "receiver" toCompliance check.nowUnix
  rejectIf (cert.compliance.accreditedInvestorRequired ∧ ¬toCompliance.accreditedInvestor)
    (validationErr "RWA transfer rejected: receiver must be accredited investor")
  let jurisdiction ← normalizeJurisdiction toCompliance.jurisdiction
  rejectIf (cert.compliance.blockedJurisdictions.any fun j =>
      normalizeJurisdictionLossy j = jurisdiction)
    (validationErr s!"RWA transfer rejected: receiver jurisdiction is blocked: {jurisdiction}")
  rejectIf (cert.compliance.allowedJurisdictions ≠ [] ∧
      ¬(cert.compliance.allowedJurisdictions.any fun j =>
        normalizeJurisdictionLossy j = jurisdiction))
    (validationErr s!"RWA transfer rejected: receiver jurisdiction is not allowed: {jurisdiction}")
  cert.compliance.maxInvestors.forM fun max =>
    rejectIf (check.toBalanceUnits = 0 ∧ max ≤ check.currentHolderCount)
      (validationErr s!"RWA transfer rejected: max investor count reached ({max})")

def canTransfer [Blake3] (cert : RwaAssetCertificate) (check : RwaTransferCheck)
    (fromCompliance toCompliance : RwaHolderCompliance) : Fallible Unit := do
  cert.validate
  transferParties check fromCompliance toCompliance
  rejectIf (cert.status ≠ .active)
    (validationErr s!"RWA transfer rejected: certificate status is {cert.status.debug}")
  rejectIf (cert.compliance.transfersPaused)
    (validationErr "RWA transfer rejected: transfers are paused")
  cert.transferRules check fromCompliance toCompliance

variable [Blake3]

/-- Some transfer would go through. -/
def Transferable (cert : RwaAssetCertificate) : Prop :=
  ∃ check fromCompliance toCompliance, cert.canTransfer check fromCompliance toCompliance = .ok ()

theorem canTransfer_iff {cert : RwaAssetCertificate} {check : RwaTransferCheck}
    {fromCompliance toCompliance : RwaHolderCompliance} :
    cert.canTransfer check fromCompliance toCompliance = .ok () ↔
      cert.validate = .ok () ∧ transferParties check fromCompliance toCompliance = .ok () ∧
        cert.status = .active ∧ cert.compliance.transfersPaused = false ∧
        cert.transferRules check fromCompliance toCompliance = .ok () := by
  simp only [canTransfer, bind_eq_ok_iff, Unique.exists_iff, rejectIf_eq_ok_iff, ne_eq, not_not,
    Bool.not_eq_true]

/-- Renewing the hash writes nothing that a transfer asks for. -/
theorem storeOf_refreshMetadataHash {cert : RwaAssetCertificate} {t : UnixTimestampSecs} :
    (storeOf (refreshMetadataHash t cert)).status = cert.status ∧
      (storeOf (refreshMetadataHash t cert)).compliance = cert.compliance := by
  by_cases htime : cert.InTime t
  · rw [refreshMetadataHash_of_inTime htime, finish_run]
    split
    · exact ⟨rfl, rfl⟩
    · exact ⟨rfl, rfl⟩
    · exact ⟨rfl, rfl⟩
  · obtain ⟨e, he⟩ := refreshMetadataHash_of_not_inTime htime
    rw [he]
    exact ⟨rfl, rfl⟩

end RwaAssetCertificate

/-! ### Holds -/

/-- The two ways to stop all transfers. -/
inductive Hold where
  | frozen
  | paused

namespace Hold
open RwaCall

def InForce : Hold → RwaAssetCertificate → Prop
  | frozen, cert => cert.status ≠ .active
  | paused, cert => cert.compliance.transfersPaused = true

def impose : Hold → String → UnixTimestampSecs → RwaCall
  | frozen => .freeze
  | paused => .pauseTransfers

def lift : Hold → String → UnixTimestampSecs → RwaCall
  | frozen => .unfreeze
  | paused => .unpauseTransfers

variable [Blake3] {hold : Hold} {cert cert' : RwaAssetCertificate} {call : RwaCall}

/-- A hold is lifted by a call that succeeds, from a caller with the authority to do so. -/
def LiftedBy (hold : Hold) (cert : RwaAssetCertificate) (call : RwaCall) : Prop :=
  ∃ caller t, call = hold.lift caller t ∧ cert.assertFreezeAuthority caller = .ok () ∧
    succeeded (call.run cert)

def LiftedIn (hold : Hold) (cert : RwaAssetCertificate) (calls : List RwaCall) : Prop :=
  ∃ pre call post, calls = pre ++ call :: post ∧ hold.LiftedBy (pre.foldl next cert) call

/-- A frozen certificate is not activated, and what an authority lifts is found valid afterwards. -/
def Respects : Hold → RwaAssetCertificate → RwaCall → Prop
  | frozen, _, .activate _ => False
  | frozen, cert, .unfreeze caller t => cert.assertFreezeAuthority caller = .ok () →
    cert.InTime t ∧ (((RwaCall.unfreeze caller t).edit cert).renewed t).validate = .ok ()
  | paused, cert, .unpauseTransfers caller t => cert.assertFreezeAuthority caller = .ok () →
    cert.InTime t ∧ (((RwaCall.unpauseTransfers caller t).edit cert).renewed t).validate = .ok ()
  | _, _, _ => True

theorem next_of_error {e : ErrorDetection} (h : call.checks cert = .error e) :
    next cert call = cert := by
  rw [next, run_eq, h]
  rfl

theorem next_of_ok (h : call.checks cert = .ok ()) :
    (next cert call).status = (call.edit cert).status ∧
      (next cert call).compliance = (call.edit cert).compliance := by
  rw [next, run_of_ok h]
  exact storeOf_refreshMetadataHash

theorem succeeded_iff_renewed (h : call.checks cert = .ok ()) :
    succeeded (call.run cert) ↔
      cert.InTime call.time ∧ ((call.edit cert).renewed call.time).validate = .ok () := by
  rw [succeeded_iff, run_of_ok h]
  constructor
  · rintro ⟨u, cert', hrun⟩
    obtain ⟨htime, hvalid, -⟩ := refreshMetadataHash_eq_ok_iff.mp hrun
    exact ⟨inTime_edit.mp htime, hvalid⟩
  · rintro ⟨htime, hvalid⟩
    exact ⟨(), _, refreshMetadataHash_eq_ok_iff.mpr ⟨inTime_edit.mpr htime, hvalid, rfl⟩⟩

/-- A hold stays in force where the edit keeps it, and where the call is refused. -/
theorem inForce_of_edit (h : hold.InForce cert)
    (hedit : call.checks cert = .ok () → hold.InForce (call.edit cert)) :
    hold.InForce (next cert call) := by
  cases hchecks : call.checks cert with
  | error e =>
    rw [next_of_error hchecks]
    exact h
  | ok u =>
    obtain ⟨hstatus, hcompliance⟩ := next_of_ok hchecks
    have hnew := hedit hchecks
    cases hold with
    | frozen =>
      change (next cert call).status ≠ .active
      rw [hstatus]
      exact hnew
    | paused =>
      change (next cert call).compliance.transfersPaused = true
      rw [hcompliance]
      exact hnew

/-- A call that would lift the hold, and does not succeed, takes it away only if its caller has the
authority. -/
theorem inForce_lift_iff {caller : String} {t : UnixTimestampSecs} (h : hold.InForce cert)
    (hnot : ¬hold.LiftedBy cert (hold.lift caller t)) :
    hold.InForce (next cert (hold.lift caller t)) ↔
      (cert.assertFreezeAuthority caller = .ok () →
        cert.InTime t ∧ (((hold.lift caller t).edit cert).renewed t).validate = .ok ()) := by
  have hchecks : (hold.lift caller t).checks cert = cert.assertFreezeAuthority caller := by
    cases hold <;> rfl
  have htime : (hold.lift caller t).time = t := by
    cases hold <;> rfl
  cases hcaller : cert.assertFreezeAuthority caller with
  | error e =>
    refine iff_of_true ?_ nofun
    rw [next_of_error (hchecks.trans hcaller)]
    exact h
  | ok u =>
    have hok := hchecks.trans hcaller
    refine iff_of_false (fun hstill => ?_) fun himp => ?_
    · obtain ⟨hstatus, hcompliance⟩ := next_of_ok hok
      cases hold with
      | frozen => exact hstill hstatus
      | paused =>
        have hpaused : (next cert (paused.lift caller t)).compliance.transfersPaused = false := by
          rw [hcompliance]
          rfl
        exact Bool.false_ne_true (hpaused.symm.trans hstill)
    · have hsucceeds := (succeeded_iff_renewed hok).mpr (htime.symm ▸ himp rfl)
      exact hnot ⟨caller, t, rfl, hcaller, hsucceeds⟩

/-- What a call that does not lift the hold does to it. -/
theorem inForce_next_iff (h : hold.InForce cert) (hnot : ¬hold.LiftedBy cert call) :
    hold.InForce (next cert call) ↔ hold.Respects cert call := by
  cases hold with
  | frozen =>
    cases call with
    | activate t =>
      refine iff_of_false (fun hstill => ?_) id
      have hchecks : (RwaCall.activate t).checks cert = .ok () := rfl
      exact hstill (next_of_ok hchecks).1
    | unfreeze caller t => exact inForce_lift_iff h hnot
    | markMintSubmitted t block hash =>
      exact iff_of_true (inForce_of_edit h fun _ => nofun) trivial
    | freeze caller t => exact iff_of_true (inForce_of_edit h fun _ => nofun) trivial
    | pauseTransfers caller t => exact iff_of_true (inForce_of_edit h fun _ => h) trivial
    | unpauseTransfers caller t => exact iff_of_true (inForce_of_edit h fun _ => h) trivial
    | updateValuation caller value t source =>
      exact iff_of_true (inForce_of_edit h fun _ => h) trivial
    | addDocument caller document t => exact iff_of_true (inForce_of_edit h fun _ => h) trivial
    | addAuditorStamp caller stamp t => exact iff_of_true (inForce_of_edit h fun _ => h) trivial
  | paused =>
    cases call with
    | unpauseTransfers caller t => exact inForce_lift_iff h hnot
    | markMintSubmitted t block hash => exact iff_of_true (inForce_of_edit h fun _ => h) trivial
    | activate t => exact iff_of_true (inForce_of_edit h fun _ => h) trivial
    | freeze caller t => exact iff_of_true (inForce_of_edit h fun _ => h) trivial
    | unfreeze caller t => exact iff_of_true (inForce_of_edit h fun _ => h) trivial
    | pauseTransfers caller t => exact iff_of_true (inForce_of_edit h fun _ => rfl) trivial
    | updateValuation caller value t source =>
      exact iff_of_true (inForce_of_edit h fun _ => h) trivial
    | addDocument caller document t => exact iff_of_true (inForce_of_edit h fun _ => h) trivial
    | addAuditorStamp caller stamp t => exact iff_of_true (inForce_of_edit h fun _ => h) trivial

theorem respects_of_liftedBy (h : hold.LiftedBy cert call) : hold.Respects cert call := by
  obtain ⟨caller, t, rfl, hcaller, hsucceeds⟩ := h
  cases hold with
  | frozen =>
    have hchecks : (RwaCall.unfreeze caller t).checks cert = .ok () := hcaller
    exact fun _ => (succeeded_iff_renewed hchecks).mp hsucceeds
  | paused =>
    have hchecks : (RwaCall.unpauseTransfers caller t).checks cert = .ok () := hcaller
    exact fun _ => (succeeded_iff_renewed hchecks).mp hsucceeds

theorem inForce_of_impose {caller : String} {t : UnixTimestampSecs}
    (h : (hold.impose caller t).run cert = .ok () cert') : hold.InForce cert' := by
  rw [run_eq] at h
  split at h
  · obtain ⟨-, -, rfl⟩ := refreshMetadataHash_eq_ok_iff.mp h
    cases hold with
    | frozen => exact nofun
    | paused => rfl
  · cases h

theorem inForce_of_transferable (h : cert.Transferable) : ¬hold.InForce cert := by
  obtain ⟨check, sender, receiver, hok⟩ := h
  obtain ⟨-, -, hstatus, hpaused, -⟩ := canTransfer_iff.mp hok
  cases hold with
  | frozen => exact fun hforce => hforce hstatus
  | paused => exact fun hforce => Bool.false_ne_true (hpaused.symm.trans hforce)

/-! ### Runs -/

theorem liftedIn_concat {pre : List RwaCall} :
    hold.LiftedIn cert (pre ++ [call]) ↔
      hold.LiftedIn cert pre ∨ hold.LiftedBy (pre.foldl next cert) call := by
  constructor
  · rintro ⟨before, call', after, heq, hlift⟩
    rcases List.eq_nil_or_concat after with rfl | ⟨rest, last, rfl⟩
    · obtain ⟨rfl, hcall⟩ := List.append_inj' heq rfl
      obtain rfl : call = call' := List.cons.inj hcall |>.1
      exact .inr hlift
    · rw [List.concat_eq_append, ← List.cons_append, ← List.append_assoc] at heq
      obtain ⟨rfl, -⟩ := List.append_inj' heq rfl
      exact .inl ⟨before, call', rest, rfl, hlift⟩
  · rintro (⟨before, call', after, rfl, hlift⟩ | hlift)
    · exact ⟨before, call', after ++ [call], by rw [List.append_assoc, List.cons_append], hlift⟩
    · exact ⟨pre, call, [], rfl, hlift⟩

/-- The hold is in force all the time, until it is lifted. -/
def Held (hold : Hold) (cert : RwaAssetCertificate) (calls : List RwaCall) : Prop :=
  ∀ pre, pre <+: calls → ¬hold.LiftedIn cert pre → hold.InForce (pre.foldl next cert)

/-- Every call respects the hold, until it is lifted. -/
def Respected (hold : Hold) (cert : RwaAssetCertificate) (calls : List RwaCall) : Prop :=
  ∀ pre call post, calls = pre ++ call :: post → ¬hold.LiftedIn cert pre →
    hold.Respects (pre.foldl next cert) call

theorem held_iff_respected (h : hold.InForce cert) (calls : List RwaCall) :
    hold.Held cert calls ↔ hold.Respected cert calls := by
  constructor
  · intro hheld pre call post heq hnot
    by_cases hlift : hold.LiftedBy (pre.foldl next cert) call
    · exact respects_of_liftedBy hlift
    have hforce := hheld pre (heq ▸ List.prefix_append _ _) hnot
    have hmore : pre ++ [call] <+: calls := ⟨post, by rw [heq, List.append_assoc]; rfl⟩
    have hnext := hheld (pre ++ [call]) hmore fun hin => (liftedIn_concat.mp hin).elim hnot hlift
    rw [List.foldl_append] at hnext
    exact (inForce_next_iff hforce hlift).mp hnext
  · intro hrespected pre
    induction pre using List.reverseRecOn with
    | nil => exact fun _ _ => h
    | append_singleton pre call ih =>
      rintro ⟨post, heq⟩ hnot
      rw [liftedIn_concat, not_or] at hnot
      rw [List.append_assoc] at heq
      have hforce := ih ⟨_, heq⟩ hnot.1
      have hcall := hrespected pre call post heq.symm hnot.1
      rw [List.foldl_append]
      exact (inForce_next_iff hforce hnot.2).mpr hcall

end Hold

/-! ### Holds are effective -/

open RwaCall

/-- After a hold, the certificate stays out of reach of transfers until the hold is lifted, exactly
if no call disregards the hold; and a call that succeeds does not turn the clock back exactly if its
own time does not. -/
theorem freeze_effective [Blake3] :
    (∀ (hold : Hold) cert caller t cert₁, (hold.impose caller t).run cert = .ok () cert₁ →
      ∀ calls, (hold.Held cert₁ calls ↔ hold.Respected cert₁ calls) ∧
        (hold.Respected cert₁ calls → (calls.foldl next cert₁).Transferable →
          hold.LiftedIn cert₁ calls)) ∧
    ∀ (call : RwaCall) cert cert', call.run cert = .ok () cert' →
      (cert.updatedAtUnix ≤ cert'.updatedAtUnix ↔ cert.updatedAtUnix ≤ call.time) := by
  refine ⟨fun hold cert caller t cert₁ hrun calls => ⟨?_, fun hrespected htransfer => ?_⟩,
    fun call cert cert' hrun => ?_⟩
  · exact Hold.held_iff_respected (Hold.inForce_of_impose hrun) calls
  · by_contra hnot
    have hheld := (Hold.held_iff_respected (Hold.inForce_of_impose hrun) calls).mpr hrespected
    exact Hold.inForce_of_transferable htransfer (hheld calls List.prefix_rfl hnot)
  · rw [run_eq] at hrun
    split at hrun
    · obtain ⟨-, -, rfl⟩ := refreshMetadataHash_eq_ok_iff.mp hrun
      rfl
    · cases hrun

/-! ### A frozen certificate that anyone may activate -/

namespace RwaSample

def freezing : RwaCall := .freeze issuer created
def activating : RwaCall := .activate created

def frozenCert : RwaAssetCertificate :=
  @RwaAssetCertificate.renewed Blake3.reference (freezing.edit certificate) created

def activeCert : RwaAssetCertificate :=
  @RwaAssetCertificate.renewed Blake3.reference (activating.edit frozenCert) created

def check : RwaTransferCheck := ⟨issuer, stranger, 1, 10, 0, 1, created⟩

def holder (wallet : String) : RwaHolderCompliance := ⟨wallet, true, "SG", false, none, false⟩

theorem created_inTime {cert : RwaAssetCertificate} (h : cert.createdAtUnix = created) :
    cert.InTime created :=
  ⟨by decide, UInt64.le_of_eq h⟩

theorem freezing_run : @run Blake3.reference freezing certificate = .ok () frozenCert := by
  have hchecks : freezing.checks certificate = .ok () := by decide +kernel
  have hcontent : ((freezing.edit certificate).dated created).validateWithoutMetadataHash =
      .ok () := by
    decide +kernel
  have hhash : frozenCert.metadataHash.isZero = false := by decide +kernel
  have hvalid := (@renewed_validate Blake3.reference _ _).mpr ⟨hcontent, hhash⟩
  rw [@run_of_ok Blake3.reference _ _ hchecks]
  exact (@refreshMetadataHash_eq_ok_iff Blake3.reference _ _ _).mpr
    ⟨created_inTime rfl, hvalid, rfl⟩

theorem activeCert_valid : @RwaAssetCertificate.validate Blake3.reference activeCert = .ok () := by
  have hcontent : ((activating.edit frozenCert).dated created).validateWithoutMetadataHash =
      .ok () := by
    decide +kernel
  have hhash : activeCert.metadataHash.isZero = false := by decide +kernel
  exact (@renewed_validate Blake3.reference _ _).mpr ⟨hcontent, hhash⟩

theorem activating_run : @run Blake3.reference activating frozenCert = .ok () activeCert := by
  rw [@run_of_ok Blake3.reference _ _ rfl]
  exact (@refreshMetadataHash_eq_ok_iff Blake3.reference _ _ _).mpr
    ⟨created_inTime rfl, activeCert_valid, rfl⟩

end RwaSample

/-- The issuer freezes a certificate, and anyone at all activates it: units may be transferred. -/
theorem activation_lifts_freeze :
    @RwaAssetCertificate.validate Blake3.reference RwaSample.certificate = .ok () ∧
    @run Blake3.reference (.freeze RwaSample.issuer RwaSample.created) RwaSample.certificate =
      .ok () RwaSample.frozenCert ∧
    @run Blake3.reference (.activate RwaSample.created) RwaSample.frozenCert =
      .ok () RwaSample.activeCert ∧
    @canTransfer Blake3.reference RwaSample.activeCert RwaSample.check
      (RwaSample.holder RwaSample.issuer) (RwaSample.holder RwaSample.stranger) = .ok () := by
  have hparties : transferParties RwaSample.check (RwaSample.holder RwaSample.issuer)
      (RwaSample.holder RwaSample.stranger) = .ok () := by
    decide +kernel
  have hrules : RwaSample.activeCert.transferRules RwaSample.check
      (RwaSample.holder RwaSample.issuer) (RwaSample.holder RwaSample.stranger) = .ok () := by
    decide +kernel
  refine ⟨RwaSample.certificate_valid, RwaSample.freezing_run, RwaSample.activating_run, ?_⟩
  exact (@canTransfer_iff Blake3.reference _ _ _ _).mpr
    ⟨RwaSample.activeCert_valid, hparties, rfl, rfl, hrules⟩

end Remzar
