import Mathlib
import Remzar.Binding
import Remzar.SyncEvents

/-! The genesis block: what its hash is taken over, what it is checked for, and which of its fields
two genesis blocks with one hash share. -/
namespace Remzar
open Fallible Postcard Text

/-! ### Constants -/

def genesisReward : UInt64 := 0
def maxGenesisDataBytes : ℕ := 1024

def genesisPrevHashHex : String :=
  "0000000000000000000000000000000000000000000000000000000000000000" ++
  "0000000000000000000000000000000000000000000000000000000000000000"

def genesisMerkleRootHex : String :=
  "29f984fad3389b577d75f22c4c849b1a848fb2ae9e458778ea36bd1765a79dab" ++
  "29f984fad3389b577d75f22c4c849b1a848fb2ae9e458778ea36bd1765a79dab"

def zeroGuardianSignature : SignatureArray := List.Vector.replicate _ 0

/-- The value of a hexadecimal digit of either case. -/
def hexValue (b : UInt8) : Option UInt8 :=
  if 48 ≤ b ∧ b ≤ 57 then some (b-48)
  else if 97 ≤ b ∧ b ≤ 102 then some (b-87)
  else if 65 ≤ b ∧ b ≤ 70 then some (b-55)
  else none

/-- `hex::decode`. -/
def hexDecode : List UInt8 → Option (List UInt8)
  | [] => some []
  | [_] => none
  | high :: low :: rest => do
    let h ← hexValue high
    let l ← hexValue low
    let bytes ← hexDecode rest
    return (h*16+l) :: bytes

def decodeHexTo64 (hex : String) : Fallible Hash := do
  let bytes ← okOr (hexDecode (utf8 hex)) (validationErr "Invalid hex in configuration")
  if h : bytes.length = 64 then return ⟨bytes, h⟩
  else .error (validationErr
    s!"Expected a 64-byte value in configuration (128 hex chars), got {bytes.length} bytes")

/-! ### The block -/

structure GenesisBlock where
  genesisHash : Hash
  merkleRoot : Hash
  prevHash : Hash
  timestamp : UInt64
  data : String
  founderWallet : Option String

namespace GenesisBlock

def validateGenesisTimestampStructural (ts : UInt64) : Fallible Unit := do
  validateUnixSecsStructural "GenesisBlock.timestamp" ts
  rejectIf (ts < minTimestampSecs) (validationErr
    s!"GenesisBlock timestamp below project minimum: {ts} < {minTimestampSecs}")

-- Timestamp, data and founder are not part of the preimage.
def hashPreimage [Blake3] (prevHash merkleRoot : Hash) : List UInt8 :=
  prevHash.toList ++ merkleRoot.toList ++ zeroGuardianSignature.toList ++
    Block.u64Be genesisReward ++ (Blake3.xof64 (asciiBytes "remzar_empty_block_mint")).toList

def preimage [Blake3] (g : GenesisBlock) : List UInt8 := hashPreimage g.prevHash g.merkleRoot

def recomputeGenesisHash [Blake3] (g : GenesisBlock) : Hash := Blake3.xof64 g.preimage

def validateData (empty : String) (data : String) : Fallible Unit := do
  rejectIf ((trim data).isEmpty) (validationErr empty)
  rejectIf (maxGenesisDataBytes < byteLen data) (validationErr
    s!"Genesis block data too large: {byteLen data} bytes")

def validateFounder : Option String → Fallible Unit
  | none => .ok ()
  | some w => do
    parseWalletAddress w
    let can ← canonWalletIdChecked w
    rejectIf (can ≠ w) (validationErr "GenesisBlock founder_wallet is not canonical")

def validate [Blake3] (g : GenesisBlock) : Fallible Unit := do
  rejectIf (g.genesisHash = zeroHash) (validationErr "Genesis hash is all zeros.")
  rejectIf (g.merkleRoot = zeroHash) (validationErr "Merkle root is all zeros.")
  validateGenesisTimestampStructural g.timestamp
  validateData "Genesis block data is empty." g.data
  validateFounder g.founderWallet
  rejectIf (g.genesisHash = g.prevHash ∨ g.genesisHash = g.merkleRoot ∨ g.prevHash = g.merkleRoot)
    (validationErr "Genesis hash fields must all be unique.")
  rejectIf (g.recomputeGenesisHash ≠ g.genesisHash) (validationErr
    s!"GenesisBlock genesis_hash mismatch. expected={Blake3.toHex g.recomputeGenesisHash.toList}, got={Blake3.toHex g.genesisHash.toList}")

def founderOf (miner : String) : Fallible (Option String) :=
  let m := trim miner
  if m.isEmpty then .ok none
  else do
    parseWalletAddress m
    let founder ← canonWalletIdChecked m
    return some founder

def newWithTimestampAndMiner [Blake3] (data : String) (ts : UInt64) (miner : String) :
    Fallible GenesisBlock := do
  validateGenesisTimestampStructural ts
  validateData "Genesis block data cannot be empty." data
  let founderWallet ← founderOf miner
  let prevHash ← decodeHexTo64 genesisPrevHashHex
  let merkleRoot ← decodeHexTo64 genesisMerkleRootHex
  let g : GenesisBlock :=
    ⟨Blake3.xof64 (hashPreimage prevHash merkleRoot), merkleRoot, prevHash, ts, data, founderWallet⟩
  g.validate
  return g

def codec : Codec GenesisBlock :=
  record (pair (array 64) (pair (array 64) (pair (array 64) (pair u64 (pair string (option string))))))
    (fun g => (g.genesisHash, g.merkleRoot, g.prevHash, g.timestamp, g.data, g.founderWallet))
    (fun q => ⟨q.1, q.2.1, q.2.2.1, q.2.2.2.1, q.2.2.2.2.1, q.2.2.2.2.2⟩) (fun _ => rfl)

def serialize [Blake3] (g : GenesisBlock) : Fallible (List UInt8) := do
  g.validate
  return codec.enc g

def deserialize [Blake3] (bytes : List UInt8) : Fallible GenesisBlock := do
  let (g, remaining) ← mapErr (fun e => .serializationError e.describe) (takeFromBytes codec bytes)
  rejectIf (remaining.any (· ≠ 0)) (.serializationError
    s!"GenesisBlock trailing non-zero bytes after postcard payload: {remaining.length} bytes")
  g.validate
  return g

/-! ### What a valid block is checked for -/

/-- The fields outside the preimage pass their own checks. -/
structure ContentOk (g : GenesisBlock) : Prop where
  timestamp : validateGenesisTimestampStructural g.timestamp = .ok ()
  data : validateData "Genesis block data is empty." g.data = .ok ()
  founder : validateFounder g.founderWallet = .ok ()

/-- The hash is that of the fields in the preimage. -/
structure Sealed [Blake3] (g : GenesisBlock) : Prop where
  hash_ne : g.genesisHash ≠ zeroHash
  root_ne : g.merkleRoot ≠ zeroHash
  unique : ¬(g.genesisHash = g.prevHash ∨ g.genesisHash = g.merkleRoot ∨ g.prevHash = g.merkleRoot)
  hash : g.genesisHash = Blake3.xof64 g.preimage

theorem validate_eq_ok_iff [Blake3] (g : GenesisBlock) :
    g.validate = .ok () ↔ g.Sealed ∧ g.ContentOk := by
  simp only [validate, bind_eq_ok_iff, rejectIf_eq_ok_iff]
  constructor
  · rintro ⟨_, hhash, _, hroot, _, htime, _, hdata, _, hfounder, _, hunique, hsame⟩
    have hseal : g.recomputeGenesisHash = g.genesisHash := not_not.mp hsame
    exact ⟨⟨hhash, hroot, hunique, hseal.symm⟩, ⟨htime, hdata, hfounder⟩⟩
  · rintro ⟨hsealed, hcontent⟩
    have hseal : g.recomputeGenesisHash = g.genesisHash := hsealed.hash.symm
    exact ⟨(), hsealed.hash_ne, (), hsealed.root_ne, (), hcontent.timestamp, (), hcontent.data, (),
      hcontent.founder, (), hsealed.unique, not_not.mpr hseal⟩

theorem newWithTimestampAndMiner_ok [Blake3] {data miner : String} {ts : UInt64} {g : GenesisBlock}
    (h : newWithTimestampAndMiner data ts miner = .ok g) :
    g.validate = .ok () ∧ decodeHexTo64 genesisPrevHashHex = .ok g.prevHash ∧
      decodeHexTo64 genesisMerkleRootHex = .ok g.merkleRoot := by
  simp only [newWithTimestampAndMiner, bind_eq_ok_iff, pure_eq_ok_iff] at h
  obtain ⟨_, -, _, -, founder, -, prev, hprev, root, hroot, _, hvalid, rfl⟩ := h
  exact ⟨hvalid, hprev, hroot⟩

/-! ### What the hash binds -/

theorem preimage_inj [Blake3] {g g' : GenesisBlock} :
    g.preimage = g'.preimage ↔ g.prevHash = g'.prevHash ∧ g.merkleRoot = g'.merkleRoot := by
  constructor
  · intro h
    simp only [preimage, hashPreimage, List.append_assoc] at h
    obtain ⟨hprev, h⟩ := vector_append_inj h
    exact ⟨hprev, (vector_append_inj h).1⟩
  · rintro ⟨hprev, hroot⟩
    rw [preimage, preimage, hprev, hroot]

theorem Sealed.of_content [Blake3] {g g' : GenesisBlock} (h : g.Sealed)
    (hhash : g'.genesisHash = g.genesisHash) (hprev : g'.prevHash = g.prevHash)
    (hroot : g'.merkleRoot = g.merkleRoot) : g'.Sealed where
  hash_ne := hhash ▸ h.hash_ne
  root_ne := hroot ▸ h.root_ne
  unique := by
    rw [hhash, hprev, hroot]
    exact h.unique
  hash := by
    rw [hhash, h.hash, preimage_inj.mpr ⟨hprev, hroot⟩]

end GenesisBlock

/-- The genesis hash of a valid genesis block binds the previous hash and the Merkle root, and nothing
else: any content that passes its own checks goes with the same hash. A peer's genesis hash is compared
with the configured one only. -/
theorem genesis_hash_binds [Blake3] (g g' : GenesisBlock) (hg : g.validate = .ok ())
    (hg' : g'.validate = .ok ())
    (hcollision : Blake3.xof64 g.preimage = Blake3.xof64 g'.preimage → g.preimage = g'.preimage) :
    (g.genesisHash = g'.genesisHash ↔ g.prevHash = g'.prevHash ∧ g.merkleRoot = g'.merkleRoot) ∧
    { g with timestamp := g'.timestamp, data := g'.data, founderWallet := g'.founderWallet }.validate =
      .ok () ∧
    ∀ info : VersionInfo, info.matchesLocalChain = true →
      (info.genesisHash.map fun got => Blake3.toHex got.toList) = some VersionInfo.genesisHashHex := by
  rw [GenesisBlock.validate_eq_ok_iff] at hg hg'
  refine ⟨?_, ?_, ?_⟩
  · rw [hg.1.hash, hg'.1.hash, ← GenesisBlock.preimage_inj]
    exact ⟨hcollision, fun h => by rw [h]⟩
  · rw [GenesisBlock.validate_eq_ok_iff]
    exact ⟨hg.1.of_content rfl rfl rfl, hg'.2.timestamp, hg'.2.data, hg'.2.founder⟩
  · intro info h
    rw [VersionInfo.matchesLocalChain, Bool.and_eq_true] at h
    exact of_decide_eq_true h.2

namespace Sample

def genesisMerkleRoot : Hash := hashOfWords
  0x29f984fad3389b577d75f22c4c849b1a848fb2ae9e458778ea36bd1765a79dab
  0x29f984fad3389b577d75f22c4c849b1a848fb2ae9e458778ea36bd1765a79dab

/-- The configured genesis hash. -/
def configuredHash : Hash := hashOfWords
  0x48ca1f065debb4f4291f1423c3e9da446635e6fbc39e169c2c7b4dfb25b310c9
  0x5143bc31ab6afb7e63a861abb4807dfc50611765337aa459e3470f682d210e66

def genesis : GenesisBlock := ⟨configuredHash, genesisMerkleRoot, zeroHash, 1782424800, "Remzar", none⟩

/-- Another launch: a later start, another text and a founder. -/
def relaunched : GenesisBlock :=
  { genesis with timestamp := 1782511200, data := "Remzar again", founderWallet := some miner }

def genesisFirstChunk : List UInt8 :=
  zeroHash.toList ++ genesisMerkleRoot.toList ++ List.replicate 896 0

theorem referenceXof64_genesis :
    Blake3.referenceXof64 (@GenesisBlock.hashPreimage Blake3.reference zeroHash genesisMerkleRoot) =
      configuredHash := by
  have hsplit : @GenesisBlock.hashPreimage Blake3.reference zeroHash genesisMerkleRoot =
      (genesisFirstChunk ++ List.replicate 1024 0) ++
        (List.replicate 1024 0 ++ @lastChunk Blake3.reference none genesisReward) := by
    have hsig : zeroGuardianSignature.toList = List.replicate 896 0 ++
        (List.replicate 1024 0 ++ (List.replicate 1024 0 ++ List.replicate 365 0)) := by
      change List.replicate 3309 0 = _
      rw [← List.replicate_add, ← List.replicate_add, ← List.replicate_add]
    change zeroHash.toList ++ genesisMerkleRoot.toList ++ zeroGuardianSignature.toList ++
      Block.u64Be genesisReward ++ (@keyDigest Blake3.reference none).toList = _
    rw [hsig, genesisFirstChunk]
    unfold lastChunk
    simp only [List.append_assoc]
  rw [hsplit, Blake3.referenceXof64_fourChunks _ List.length_replicate List.length_replicate,
    zeroChunks.1, zeroChunks.2]
  · decide +kernel
  · unfold lastChunk
    simp only [List.length_append, List.length_replicate]
    omega
  · unfold lastChunk
    rw [List.length_append, List.length_append, List.length_replicate, u64Be_length,
      List.Vector.toList_length]
    omega
  · simp only [genesisFirstChunk, List.length_append, List.length_replicate, List.Vector.toList_length]

theorem sealed_genesis : @GenesisBlock.Sealed Blake3.reference genesis :=
  @GenesisBlock.Sealed.mk Blake3.reference genesis (by decide) (by decide)
    (by decide) referenceXof64_genesis.symm

theorem genesis_valid : @GenesisBlock.validate Blake3.reference genesis = .ok () :=
  (@GenesisBlock.validate_eq_ok_iff Blake3.reference genesis).mpr
    ⟨sealed_genesis, by decide, by decide, rfl⟩

theorem relaunched_valid : @GenesisBlock.validate Blake3.reference relaunched = .ok () :=
  (@GenesisBlock.validate_eq_ok_iff Blake3.reference relaunched).mpr
    ⟨@GenesisBlock.Sealed.of_content Blake3.reference genesis _ sealed_genesis rfl rfl rfl,
      by decide, by decide, by decide +kernel⟩

end Sample

theorem genesis_hash_binds_relaunched :
    @GenesisBlock.validate Blake3.reference { Sample.genesis with
      timestamp := Sample.relaunched.timestamp, data := Sample.relaunched.data,
      founderWallet := Sample.relaunched.founderWallet } = .ok () :=
  (@genesis_hash_binds Blake3.reference Sample.genesis Sample.relaunched Sample.genesis_valid
    Sample.relaunched_valid fun _ => rfl).2.1

/-- Two valid genesis blocks with one hash and different times, texts and founders, and a version message
with that hash. -/
theorem genesis_hash_leaves_content_open :
    @GenesisBlock.validate Blake3.reference Sample.genesis = .ok () ∧
      @GenesisBlock.validate Blake3.reference Sample.relaunched = .ok () ∧
      @GenesisBlock.preimage Blake3.reference Sample.genesis =
        @GenesisBlock.preimage Blake3.reference Sample.relaunched ∧
      Sample.genesis.genesisHash = Sample.relaunched.genesisHash ∧
      Sample.genesis.timestamp ≠ Sample.relaunched.timestamp ∧
      Sample.genesis.data ≠ Sample.relaunched.data ∧
      Sample.genesis.founderWallet ≠ Sample.relaunched.founderWallet ∧
      VersionInfo.matchesLocalChain ⟨1, 0, 1, "remzar/1", some Sample.relaunched.genesisHash⟩ = true :=
  ⟨Sample.genesis_valid, Sample.relaunched_valid, rfl, rfl, by decide, by decide, by decide,
    by decide +kernel⟩

end Remzar
