import Mathlib
import Remzar.RwaOperations

/-! Which calls leave a certificate either valid or as it was. A call that fails after it has
written leaves the certificate with fields that its hash does not cover. -/
namespace Remzar
open Fallible Effects Rwa RwaAssetCertificate

namespace RwaCall
variable [Blake3] {cert : RwaAssetCertificate} {call : RwaCall}

/-- The certificate after a call, which may have failed. -/
def next (cert : RwaAssetCertificate) (call : RwaCall) : RwaAssetCertificate :=
  storeOf (call.run cert)

/-- The call succeeds and leaves a valid certificate, or fails and leaves the certificate as it
was. -/
def Atomic (cert : RwaAssetCertificate) (call : RwaCall) : Prop :=
  match call.run cert with
  | .ok () cert' => cert'.validate = .ok ()
  | .error _ cert' => cert' = cert

/-- The call is refused before it writes, or writes what is there already and the time is refused,
or nothing that it writes is found wrong. -/
def Settled (cert : RwaAssetCertificate) (call : RwaCall) : Prop :=
  (∃ e, call.checks cert = .error e) ∨ (¬cert.InTime call.time ∧ call.edit cert = cert) ∨
    (cert.InTime call.time ∧ call.Accepts cert ∧
      ((call.edit cert).renewed call.time).metadataHash.isZero = false)

omit [Blake3] in
theorem inTime_edit {t : UnixTimestampSecs} : (call.edit cert).InTime t ↔ cert.InTime t := by
  rw [InTime, InTime, edit_createdAtUnix]

theorem next_valid (hvalid : cert.validate = .ok ()) (h : call.Atomic cert) :
    (next cert call).validate = .ok () := by
  rw [Atomic] at h
  rw [next]
  cases hrun : call.run cert with
  | ok u cert' =>
    rw [hrun] at h
    exact h
  | error e cert' =>
    rw [hrun] at h
    change cert'.validate = .ok ()
    rw [show cert' = cert from h]
    exact hvalid

/-- Certificates are valid from the start. -/
theorem new_valid {id : List.Vector UInt8 64} {issuer owner : String} {core : RwaCoreFinancialData}
    {legal : RwaLegalOwnershipData} {rules : RwaComplianceRules}
    {technical : RwaTechnicalBlockchainData} {t : UnixTimestampSecs}
    (h : RwaAssetCertificate.new id issuer owner core legal rules technical t = .ok cert) :
    cert.validate = .ok () := by
  simp only [RwaAssetCertificate.new, bind_eq_ok_iff, Unique.exists_iff, pure_eq_ok_iff] at h
  obtain ⟨-, issuer', -, owner', -, -, hvalid, rfl⟩ := h
  exact hvalid

/-- A late error leaves a certificate that differs from a valid one. -/
theorem finish_ne (hvalid : cert.validate = .ok ()) {cert' : RwaAssetCertificate}
    {t : UnixTimestampSecs} {e : ErrorDetection} : finish t cert' ≠ .error e cert := by
  intro h
  obtain ⟨hcontent, hzero, -⟩ := validate_iff.mp hvalid
  rw [finish_run] at h
  split at h
  · rename_i e' hbad
    cases h
    rw [hcontent] at hbad
    cases hbad
  · rename_i e' _ hbad
    cases h
    rw [hvalid] at hbad
    cases hbad
  · cases h

/-- Exactly the settled calls are atomic. -/
theorem atomic_iff (hvalid : cert.validate = .ok ()) : call.Atomic cert ↔ call.Settled cert := by
  have hcontent := (validate_iff.mp hvalid).1
  rw [Atomic, run_eq]
  cases hchecks : call.checks cert with
  | error e => exact iff_of_true rfl (.inl ⟨e, hchecks⟩)
  | ok u =>
    have hrefused : ¬∃ e, call.checks cert = .error e := by
      rintro ⟨e, he⟩
      rw [hchecks] at he
      cases he
    rw [Settled, or_iff_right hrefused]
    by_cases htime : cert.InTime call.time
    · have hsame : ¬(¬cert.InTime call.time ∧ call.edit cert = cert) := fun h => h.1 htime
      rw [or_iff_right hsame, and_iff_right htime, ← content_edit hcontent hchecks htime,
        ← renewed_validate]
      change (match refreshMetadataHash call.time (call.edit cert) with
        | .ok () cert' => cert'.validate = .ok ()
        | .error _ cert' => cert' = cert) ↔ _
      rw [refreshMetadataHash_of_inTime (inTime_edit.mpr htime)]
      cases hrun : finish call.time (call.edit cert) with
      | ok u cert' =>
        rw [finish_run] at hrun
        split at hrun
        · cases hrun
        · cases hrun
        · rename_i hnew
          cases hrun
          exact Iff.rfl
      | error e cert' =>
        refine iff_of_false ?_ ?_
        · rintro rfl
          exact finish_ne hvalid hrun
        · intro hnew
          rw [finish_run, (renewed_validate.mp hnew).1, hnew] at hrun
          cases hrun
    · have hlate : ¬(cert.InTime call.time ∧ call.Accepts cert ∧
          ((call.edit cert).renewed call.time).metadataHash.isZero = false) := fun h => htime h.1
      rw [or_iff_left hlate, and_iff_right htime]
      obtain ⟨e, he⟩ := refreshMetadataHash_of_not_inTime (mt inTime_edit.mp htime)
      change (match refreshMetadataHash call.time (call.edit cert) with
        | .ok () cert' => cert'.validate = .ok ()
        | .error _ cert' => cert' = cert) ↔ _
      rw [he]

/-- Along a run from a valid certificate, all calls are atomic exactly if all are settled. -/
theorem rwa_operations_atomic (hvalid : cert.validate = .ok ()) (calls : List RwaCall) :
    Runs.Steps next Atomic cert calls ↔ Runs.Steps next Settled cert calls :=
  Runs.Steps.congr (fun _ _ => atomic_iff) (fun _ _ => next_valid) hvalid

omit [Blake3] in
theorem rwa_operations_atomic_dated :
    @Runs.Steps _ _ (@next Blake3.reference) (@Atomic Blake3.reference) RwaSample.certificate
        [.freeze RwaSample.issuer RwaSample.created, .activate 0] ↔
      @Runs.Steps _ _ (@next Blake3.reference) (@Settled Blake3.reference) RwaSample.certificate
        [.freeze RwaSample.issuer RwaSample.created, .activate 0] :=
  @rwa_operations_atomic Blake3.reference RwaSample.certificate RwaSample.certificate_valid
    [.freeze RwaSample.issuer RwaSample.created, .activate 0]

omit [Blake3] in
/-- The issuer freezes the certificate as of a second before it was created: the call fails, and the
certificate is frozen. -/
theorem late_error_keeps_write :
    @RwaAssetCertificate.validate Blake3.reference RwaSample.certificate = .ok () ∧
    RwaSample.certificate.status = .draft ∧
    ∃ e cert', @run Blake3.reference (.freeze RwaSample.issuer (RwaSample.created-1))
      RwaSample.certificate = .error e cert' ∧ cert'.status = .frozen := by
  have hcaller : checks (.freeze RwaSample.issuer (RwaSample.created-1)) RwaSample.certificate =
      .ok () := by
    decide +kernel
  have hearly : ¬(edit (.freeze RwaSample.issuer (RwaSample.created-1))
      RwaSample.certificate).InTime (RwaSample.created-1) := fun h =>
    absurd h.2 (show ¬RwaSample.created ≤ RwaSample.created-1 by decide)
  obtain ⟨e, he⟩ := @refreshMetadataHash_of_not_inTime Blake3.reference _ _ hearly
  have hrun := (@run_of_ok Blake3.reference _ _ hcaller).trans he
  exact ⟨RwaSample.certificate_valid, rfl, e, _, hrun, rfl⟩

end RwaCall
end Remzar
