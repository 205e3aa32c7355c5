import Mathlib
import Remzar.Signing
import Remzar.Chain

/-! Signing a block and checking the signature. The signed bytes are the encoding of the whole
header, the old signature included, and signing then puts the new signature in its place: the
verifier reads other bytes than the signer did, unless the new signature is the old one. -/
namespace Remzar
open Fallible Postcard

/-- A verifying key accepts a signature of a Merkle root, or does not. -/
structure VerifyingKey where
  verify : Hash → SignatureArray → Bool

/-! ### Guardian signatures -/

namespace GuardianSignature

def validateSignatureLen (signatureBytes : List UInt8) : Fallible Unit := do
  rejectIf (sigLen < signatureBytes.length) (validationErr
    s!"Signature length {signatureBytes.length} exceeds absolute cap {sigLen}")
  -- `GUARDIAN_SIG_LEN` is `SIG_LEN`, so the third check of the source repeats this one.
  rejectIf (signatureBytes.length ≠ sigLen) (validationErr
    s!"Signature length mismatch: expected {sigLen} bytes, got {signatureBytes.length}")

def toSignatureArray (signatureBytes : List UInt8) : Fallible SignatureArray :=
  if h : signatureBytes.length = 3309 then .ok ⟨signatureBytes, h⟩
  else .error (.serializationError "Failed to convert guardian signature bytes to fixed-size array")

def verifyBatch [Blake3] (vk : VerifyingKey) (batchData : List (List UInt8))
    (signatureBytes : List UInt8) : Fallible Unit := do
  validateSignatureLen signatureBytes
  validateBatchInput batchData
  let root ← computeBatchMerkleRoot batchData
  let sig ← toSignatureArray signatureBytes
  rejectIf (¬vk.verify root sig)
    (.signatureVerificationFailed "Guardian Node signature verification failed")

/-- The key can produce this signature of the data, with some draw. -/
def Signs [Blake3] (sk : SigningKey) (batchData : List (List UInt8)) (sig : SignatureArray) : Prop :=
  ∃ draw, signBatchAs "Guardian Node" draw sk batchData = .ok sig

/-- `verify_batch` under one key accepts exactly what `sign_batch` under the other produces. -/
def Matches [Blake3] (sk : SigningKey) (vk : VerifyingKey) : Prop :=
  ∀ batchData sig, verifyBatch vk batchData sig.toList = .ok () ↔ Signs sk batchData sig

end GuardianSignature

/-! ### Blocks -/

namespace Block
open GuardianSignature

def serializeForSigning (b : Block) : List UInt8 :=
  (pair BlockMetadata.codec string).enc (b.metadata, b.batchKey.getD "")

def withSignature (b : Block) (sig : SignatureArray) : Block :=
  { b with metadata := { b.metadata with guardianSignature := sig } }

-- A signature is an array of `SIG_LEN` bytes, so its length is not checked again.
def signBlock [Blake3] (draw : ℕ) (sk : SigningKey) (b : Block) : Fallible Block := do
  let sig ← signBatchAs "Guardian Node" draw sk [b.serializeForSigning]
  let b := b.withSignature sig
  return { b with blockHash := b.computeBlockHash }

def verifyBlockSignature [Blake3] (vk : VerifyingKey) (b : Block) : Fallible Bool := do
  verifyBatch vk [b.serializeForSigning] b.metadata.guardianSignature.toList
  return true

def verifyBlockHash [Blake3] (b : Block) : Fallible Bool := .ok (b.blockHash = b.computeBlockHash)

/-! ### What signing leaves behind -/

/-- The signature is part of the signed bytes: another signature makes another payload. -/
theorem serializeForSigning_withSignature_inj (b : Block) {sig : SignatureArray}
    (h : (b.withSignature sig).serializeForSigning = b.serializeForSigning) :
    sig = b.metadata.guardianSignature := by
  simp only [serializeForSigning, withSignature, BlockMetadata.codec, pair, record,
    List.append_assoc] at h
  -- Index, time and the two hashes come first; they are the same on both sides.
  have hrest := List.append_cancel_left (List.append_cancel_left
    (List.append_cancel_left (List.append_cancel_left h)))
  exact List.Vector.eq _ _ (List.append_inj_left hrest (by simp))

theorem signBlock_eq_ok_iff [Blake3] (draw : ℕ) (sk : SigningKey) (b b' : Block) :
    b.signBlock draw sk = .ok b' ↔
      ∃ sig, signBatchAs "Guardian Node" draw sk [b.serializeForSigning] = .ok sig ∧
        { b.withSignature sig with blockHash := (b.withSignature sig).computeBlockHash } = b' := by
  simp only [signBlock, bind_eq_ok_iff, pure_eq_ok_iff]

theorem signBlock_ok [Blake3] {draw : ℕ} {sk : SigningKey} {b : Block} {sig : SignatureArray}
    (h : signBatchAs "Guardian Node" draw sk [b.serializeForSigning] = .ok sig) :
    ∃ b', b.signBlock draw sk = .ok b' ∧ b'.metadata = (b.withSignature sig).metadata ∧
      b'.serializeForSigning = (b.withSignature sig).serializeForSigning :=
  ⟨_, (signBlock_eq_ok_iff draw sk b _).mpr ⟨sig, h, rfl⟩, rfl, rfl⟩

/-- The hash is recomputed over the new signature, so it always checks. -/
theorem verifyBlockHash_of_signBlock [Blake3] {draw : ℕ} {sk : SigningKey} {b b' : Block}
    (h : b.signBlock draw sk = .ok b') : b'.verifyBlockHash = .ok true := by
  obtain ⟨sig, -, rfl⟩ := (signBlock_eq_ok_iff draw sk b b').mp h
  have hhash : (b.withSignature sig).computeBlockHash =
      computeBlockHash { b.withSignature sig with
        blockHash := (b.withSignature sig).computeBlockHash } := rfl
  exact congrArg Except.ok (decide_eq_true hhash)

theorem verifyBlockSignature_eq_ok_iff [Blake3] {sk : SigningKey} {vk : VerifyingKey}
    (hmatch : Matches sk vk) (b : Block) :
    b.verifyBlockSignature vk = .ok true ↔
      Signs sk [b.serializeForSigning] b.metadata.guardianSignature := by
  rw [← hmatch, verifyBlockSignature, bind_eq_ok_iff]
  constructor
  · rintro ⟨u, hu, -⟩
    exact hu
  · intro hu
    exact ⟨(), hu, rfl⟩

/-- A freshly signed block passes its own check exactly when it already carried the signature
that was made for it, or when that signature is one of the changed payload as well. -/
theorem sign_block_verifies_iff [Blake3] (sk : SigningKey) (vk : VerifyingKey)
    (hmatch : Matches sk vk) (draw : ℕ) (b : Block) :
    (∀ b', b.signBlock draw sk = .ok b' →
        b'.verifyBlockSignature vk = .ok true ∧ b'.verifyBlockHash = .ok true) ↔
      ∀ sig, signBatchAs "Guardian Node" draw sk [b.serializeForSigning] = .ok sig →
        sig = b.metadata.guardianSignature ∨
          (b.withSignature sig).serializeForSigning ≠ b.serializeForSigning ∧
          Signs sk [(b.withSignature sig).serializeForSigning] sig := by
  constructor
  · intro h sig hsig
    obtain ⟨hverify, -⟩ := h _ ((signBlock_eq_ok_iff draw sk b _).mpr ⟨sig, hsig, rfl⟩)
    have hsigns : Signs sk [(b.withSignature sig).serializeForSigning] sig :=
      (verifyBlockSignature_eq_ok_iff hmatch _).mp hverify
    rcases eq_or_ne sig b.metadata.guardianSignature with heq | hne
    · exact .inl heq
    · exact .inr ⟨fun h => hne (serializeForSigning_withSignature_inj b h), hsigns⟩
  · intro h b' hb'
    refine ⟨?_, verifyBlockHash_of_signBlock hb'⟩
    obtain ⟨sig, hsig, rfl⟩ := (signBlock_eq_ok_iff draw sk b b').mp hb'
    apply (verifyBlockSignature_eq_ok_iff hmatch _).mpr
    change Signs sk [(b.withSignature sig).serializeForSigning] sig
    rcases h sig hsig with rfl | ⟨-, hsigns⟩
    · exact ⟨draw, hsig⟩
    · exact hsigns

end Block

/-! ### Two schemes -/

namespace Sample
open GuardianSignature

/-- A key pair given by the one signature of each root. -/
def signerOf (f : Hash → SignatureArray) : SigningKey := ⟨fun _ root => .ok (f root)⟩
def verifierOf (f : Hash → SignatureArray) : VerifyingKey := ⟨fun root sig => sig = f root⟩

theorem signBatchAs_signerOf_iff [Blake3] (f : Hash → SignatureArray) (signer : String) (draw : ℕ)
    (data : List (List UInt8)) (sig : SignatureArray) :
    signBatchAs signer draw (signerOf f) data = .ok sig ↔
      validateBatchInput data = .ok () ∧ ∃ root, computeBatchMerkleRoot data = .ok root ∧
        f root = sig := by
  simp only [signBatchAs, signerOf, bind_eq_ok_iff, mapErr_eq_ok_iff, Except.ok.injEq]
  constructor
  · rintro ⟨u, hvalid, root, hroot, hsig⟩
    exact ⟨hvalid, root, hroot, hsig⟩
  · rintro ⟨hvalid, root, hroot, hsig⟩
    exact ⟨(), hvalid, root, hroot, hsig⟩

theorem validateSignatureLen_ok (sig : SignatureArray) :
    validateSignatureLen sig.toList = .ok () := by
  rw [validateSignatureLen, rejectIf_of_not _ (by simp [sigLen]), ok_bind,
    rejectIf_of_not _ (by simp [sigLen])]

theorem matches_of (f : Hash → SignatureArray) [Blake3] : Matches (signerOf f) (verifierOf f) := by
  intro data sig
  have hsigns : Signs (signerOf f) data sig ↔ validateBatchInput data = .ok () ∧
      ∃ root, computeBatchMerkleRoot data = .ok root ∧ f root = sig := by
    constructor
    · rintro ⟨draw, h⟩
      exact (signBatchAs_signerOf_iff f _ draw data sig).mp h
    · intro h
      exact ⟨0, (signBatchAs_signerOf_iff f _ 0 data sig).mpr h⟩
  have harray : toSignatureArray sig.toList = .ok sig := by
    rw [toSignatureArray, dif_pos sig.toList_length]
    rfl
  simp only [hsigns, verifyBatch, validateSignatureLen_ok, harray, ok_bind, bind_eq_ok_iff,
    rejectIf_eq_ok_iff, verifierOf, decide_eq_true_eq, not_not]
  constructor
  · rintro ⟨u, hvalid, root, hroot, hsig⟩
    exact ⟨hvalid, root, hroot, hsig.symm⟩
  · rintro ⟨hvalid, root, hroot, hsig⟩
    exact ⟨(), hvalid, root, hroot, hsig.symm⟩

/-- The root itself, followed by zeros. -/
def padded (root : Hash) : SignatureArray :=
  ⟨root.toList ++ List.replicate 3245 0, by
    rw [List.length_append, root.toList_length, List.length_replicate]⟩

theorem padded_injective {root root' : Hash} (h : padded root = padded root') : root = root' := by
  have hlists : root.toList ++ List.replicate 3245 0 = root'.toList ++ List.replicate 3245 0 :=
    congrArg List.Vector.toList h
  exact List.Vector.eq _ _ (List.append_cancel_right hlists)

/-- `emptyBlock1` before anybody has signed it. -/
def unsignedBlock1 : Block := emptyBlock1.withSignature zeroSignature

theorem signedMerkleRoot_single [Blake3] (root : Hash) : signedMerkleRoot [root] = .ok root := by
  rw [signedMerkleRoot, rejectIf_of_not _ (by simp [maxBatchItems])]
  rfl

theorem computeBatchMerkleRoot_single [Blake3] (data : List UInt8)
    (hroot : Blake3.xof64 data ≠ zeroHash) :
    computeBatchMerkleRoot [data] = .ok (Blake3.xof64 data) := by
  rw [computeBatchMerkleRoot, List.map_singleton, signedMerkleRoot_single, ok_bind,
    rejectIf_of_not _ hroot]
  rfl

def unsignedRoot : Hash :=
  hashOfWords 0x4f2d878084aadca50be7b280c311ed43ff4c387658ed4d2199646613201cc573
    0xfaa2e9bdedaddaa33a546151b77aab63c62d8ec4590a4aeff45e314e1c392317

theorem xof64_unsigned :
    Blake3.reference.xof64 unsignedBlock1.serializeForSigning = unsignedRoot := by
  decide +kernel

/-- The block signed by `signerOf padded` carries this signature, and hashes otherwise. -/
theorem xof64_padded : Blake3.reference.xof64
    (unsignedBlock1.withSignature (padded unsignedRoot)).serializeForSigning ≠ unsignedRoot := by
  decide +kernel

theorem validateBatchInput_unsigned :
    validateBatchInput [unsignedBlock1.serializeForSigning] = .ok () := by
  decide +kernel

theorem signBatchAs_unsigned (draw : ℕ) : @signBatchAs Blake3.reference "Guardian Node" draw
    (signerOf padded) [unsignedBlock1.serializeForSigning] = .ok (padded unsignedRoot) := by
  have hroot : @computeBatchMerkleRoot Blake3.reference [unsignedBlock1.serializeForSigning] =
      .ok unsignedRoot := by
    rw [@computeBatchMerkleRoot_single Blake3.reference _ (by rw [xof64_unsigned]; decide),
      xof64_unsigned]
  exact (@signBatchAs_signerOf_iff Blake3.reference padded _ draw _ _).mpr
    ⟨validateBatchInput_unsigned, unsignedRoot, hroot, rfl⟩

/-- No draw gives that signature for the block that carries it. -/
theorem not_signs_padded : ¬@Signs Blake3.reference (signerOf padded)
    [(unsignedBlock1.withSignature (padded unsignedRoot)).serializeForSigning]
    (padded unsignedRoot) := by
  rintro ⟨draw, h⟩
  obtain ⟨-, root, hroot, hpadded⟩ :=
    (@signBatchAs_signerOf_iff Blake3.reference padded _ draw _ _).mp h
  obtain rfl := padded_injective hpadded
  simp only [computeBatchMerkleRoot, bind_eq_ok_iff, pure_eq_ok_iff] at hroot
  obtain ⟨root', hsigned, -, -, rfl⟩ := hroot
  have hsame : Blake3.reference.xof64
      (unsignedBlock1.withSignature (padded unsignedRoot)).serializeForSigning = unsignedRoot :=
    Except.ok.inj ((@signedMerkleRoot_single Blake3.reference _).symm.trans hsigned)
  exact xof64_padded hsame

end Sample

/-- A block that carries the signature it is about to get passes its own check. -/
theorem sign_block_verifies_signed_before :
    @GuardianSignature.Matches Blake3.reference (Sample.signerOf fun _ => Sample.signature)
        (Sample.verifierOf fun _ => Sample.signature) ∧
      ∀ b', @Block.signBlock Blake3.reference 0 (Sample.signerOf fun _ => Sample.signature)
          Sample.emptyBlock1 = .ok b' →
        @Block.verifyBlockSignature Blake3.reference (Sample.verifierOf fun _ => Sample.signature)
            b' = .ok true ∧ @Block.verifyBlockHash Blake3.reference b' = .ok true := by
  have hmatch := @Sample.matches_of (fun _ => Sample.signature) Blake3.reference
  refine ⟨hmatch, (@Block.sign_block_verifies_iff Blake3.reference _ _ hmatch 0 _).mpr ?_⟩
  intro sig hsig
  obtain ⟨-, root, -, rfl⟩ :=
    (@Sample.signBatchAs_signerOf_iff Blake3.reference _ _ 0 _ _).mp hsig
  exact .inl rfl

/-- A key that signs a root with the root itself: the block it has just signed is refused by
its own verifying key. -/
theorem signed_block_refused :
    @GuardianSignature.Matches Blake3.reference (Sample.signerOf Sample.padded)
        (Sample.verifierOf Sample.padded) ∧
      ∃ b', @Block.signBlock Blake3.reference 0 (Sample.signerOf Sample.padded)
          Sample.unsignedBlock1 = .ok b' ∧
        ¬(@Block.verifyBlockSignature Blake3.reference (Sample.verifierOf Sample.padded) b' =
            .ok true ∧ @Block.verifyBlockHash Blake3.reference b' = .ok true) := by
  have hmatch := @Sample.matches_of Sample.padded Blake3.reference
  obtain ⟨b', hsigned, hmetadata, hpayload⟩ :=
    @Block.signBlock_ok Blake3.reference _ _ _ _ (Sample.signBatchAs_unsigned 0)
  refine ⟨hmatch, b', hsigned, ?_⟩
  rintro ⟨hverify, -⟩
  have hsigns := (@Block.verifyBlockSignature_eq_ok_iff Blake3.reference _ _ hmatch b').mp hverify
  rw [hpayload, hmetadata] at hsigns
  exact Sample.not_signs_padded hsigns


end Remzar
