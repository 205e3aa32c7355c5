import Mathlib
import Remzar.TransactionBatch

/-! Block headers and blocks: structure, hashing, validation and storage format. -/
namespace Remzar
open Fallible Postcard Text

abbrev SignatureArray := List.Vector UInt8 3309

def zeroSignature : SignatureArray := ⟨List.replicate 3309 0, List.length_replicate⟩

structure BlockPuzzleProof where
  height : UInt64
  validator : String
  prevBlockHash : Hash
  -- A 128-bit unsigned number.
  output : BitVec 128
  deriving DecidableEq

structure BlockMetadata where
  index : UInt64
  timestamp : UInt64
  previousHash : Hash
  merkleRoot : Hash
  guardianSignature : SignatureArray
  puzzleProof : Option BlockPuzzleProof
  size : UInt64
  deriving DecidableEq

structure Block where
  metadata : BlockMetadata
  batchKey : Option String
  miner : String
  blockHash : Hash
  reward : UInt64
  deriving DecidableEq

/-! ### Wire format -/

def BlockPuzzleProof.codec : Codec BlockPuzzleProof :=
  record (pair u64 (pair string (pair (array 64) (u128))))
    (fun p => (p.height, p.validator, p.prevBlockHash, p.output.toNat))
    (fun q => ⟨q.1, q.2.1, q.2.2.1, BitVec.ofNat 128 q.2.2.2⟩)
    (fun p => by simp)

def BlockMetadata.codec : Codec BlockMetadata :=
  record (pair u64 (pair u64 (pair (array 64) (pair (array 64) (pair (array 3309)
      (pair (option BlockPuzzleProof.codec) u64))))))
    (fun m => (m.index, m.timestamp, m.previousHash, m.merkleRoot, m.guardianSignature,
      m.puzzleProof, m.size))
    (fun p => ⟨p.1, p.2.1, p.2.2.1, p.2.2.2.1, p.2.2.2.2.1, p.2.2.2.2.2.1, p.2.2.2.2.2.2⟩)
    (fun _ => rfl)

def Block.codec : Codec Block :=
  record (pair BlockMetadata.codec (pair (option string) (pair string (pair (array 64) u64))))
    (fun b => (b.metadata, b.batchKey, b.miner, b.blockHash, b.reward))
    (fun p => ⟨p.1, p.2.1, p.2.2.1, p.2.2.2.1, p.2.2.2.2⟩) (fun _ => rfl)

/-! ### Header rules -/

def maxValidatorLen : ℕ := 256
def maxReasonableHeight : UInt64 := 10000000

def onesHash : Hash := ⟨List.replicate 64 255, List.length_replicate⟩

def BlockPuzzleProof.validateStructural (proof : BlockPuzzleProof) : Fallible Unit := do
  rejectIf (maxReasonableHeight < proof.height) (validationErr
    s!"BlockPuzzleProof.height out of bounds: {proof.height}")
  rejectIf ((trim proof.validator).isEmpty) (validationErr "BlockPuzzleProof.validator is empty")
  rejectIf (maxValidatorLen < byteLen proof.validator) (validationErr
    s!"BlockPuzzleProof.validator too long (len={byteLen proof.validator}, max={maxValidatorLen})")
  let canon ← canonWalletIdChecked proof.validator
  rejectIf (canon ≠ proof.validator)
    (validationErr "BlockPuzzleProof.validator is not canonical")
  rejectIf (proof.prevBlockHash = zeroHash ∨ proof.prevBlockHash = onesHash)
    (validationErr "BlockPuzzleProof.prev_block_hash is an invalid sentinel")
  rejectIf (proof.output = 0) (validationErr "BlockPuzzleProof.output cannot be 0")

namespace BlockMetadata

-- A proof that is present must belong to this very header.
def validatePuzzleProof (m : BlockMetadata) : Fallible Unit :=
  match m.puzzleProof with
  | none => .ok ()
  | some proof => do
    proof.validateStructural
    rejectIf (proof.height ≠ m.index) (validationErr
      s!"BlockMetadata: puzzle_proof.height {proof.height} != metadata.index {m.index}")
    rejectIf (proof.prevBlockHash ≠ m.previousHash)
      (validationErr "BlockMetadata: puzzle_proof.prev_block_hash != metadata.previous_hash")

def validateGenesis (m : BlockMetadata) : Fallible Unit := do
  rejectIf (m.merkleRoot = zeroHash)
    (validationErr "BlockMetadata: genesis merkle_root is all zeros")
  rejectIf (m.puzzleProof.isSome)
    (validationErr "BlockMetadata: genesis must not include puzzle_proof")

def validateNonGenesis (m : BlockMetadata) : Fallible Unit := do
  rejectIf (m.merkleRoot = zeroHash)
    (validationErr s!"BlockMetadata: merkle_root is all zeros (index {m.index})")
  rejectIf (m.previousHash = zeroHash)
    (validationErr s!"BlockMetadata: previous_hash is all zeros (index {m.index})")
  rejectIf (m.guardianSignature = zeroSignature)
    (validationErr s!"BlockMetadata: guardian_signature is all zeros (index {m.index})")
  rejectIf (m.merkleRoot = m.previousHash)
    (validationErr s!"BlockMetadata: merkle_root == previous_hash (index {m.index})")
  m.validatePuzzleProof

def validateStructural (m : BlockMetadata) : Fallible Unit := do
  rejectIf (maxMetadataIndexHard < m.index ∨ maxBlockSize < m.size.toNat) (validationErr
    s!"BlockMetadata fields out of bounds (corrupt?): index={m.index}, size={m.size}")
  rejectIf (m.size.toNat < minBlockSize) (validationErr
    s!"BlockMetadata: size field is implausibly small: {m.size}")
  validateUnixSecsStructural "BlockMetadata.timestamp" m.timestamp
  rejectIf (m.timestamp < minTimestampSecs) (validationErr
    s!"BlockMetadata: timestamp below project minimum: {m.timestamp} < {minTimestampSecs}")
  if m.index = 0 then m.validateGenesis else m.validateNonGenesis

def validateSize (m : BlockMetadata) : Fallible Unit := do
  rejectIf (m.size.toNat < minBlockSize) (validationErr
    s!"BlockMetadata.size field ({m.size}) is below minimum ({minBlockSize})")
  rejectIf (maxBlockSize < m.size.toNat) (validationErr
    s!"BlockMetadata.size field ({m.size}) exceeds MAX_BLOCK_SIZE ({maxBlockSize})")
  let size := (codec.enc m).length
  rejectIf (maxBlockSize < size) (validationErr
    s!"BlockMetadata serialized size {size} exceeds maximum allowed {maxBlockSize} bytes")

end BlockMetadata

/-! ### Blocks -/

namespace Block

def u64Be (n : UInt64) : List UInt8 :=
  (List.range 8).map fun i => UInt8.ofNat (n.toNat / 256^(7-i))

-- Index, timestamp, miner and puzzle proof are not part of the preimage.
def hashPreimage [Blake3] (m : BlockMetadata) (batchKey : Option String) (reward : UInt64) :
    List UInt8 :=
  let keyBytes := match batchKey with
    | some bk =>
      if bk = "" then Blake3.xof64 (asciiBytes "remzar_empty_block_mint")
      else Blake3.xof64 (utf8 bk)
    | none => Blake3.xof64 (asciiBytes "remzar_empty_block_mint")
  m.previousHash.toList ++ m.merkleRoot.toList ++ m.guardianSignature.toList ++
    u64Be reward ++ keyBytes.toList

def computeBlockHash [Blake3] (b : Block) : Hash :=
  Blake3.xof64 (hashPreimage b.metadata b.batchKey b.reward)

def validateBatchKeyBound (batchKey : Option String) (label : String) : Fallible Unit :=
  match batchKey with
  | none => .ok ()
  | some bk => rejectIf (maxBatchKeyLen < byteLen bk)
    (validationErr s!"{label} too long ({byteLen bk} bytes)")

def canonicalizeMinerForHeight (miner : String) (height : UInt64) : Fallible String :=
  if (trim miner).isEmpty then
    if height = 0 then .ok "" else .error (validationErr "Block.miner missing")
  else do
    let canon ← canonWalletIdChecked miner
    rejectIf (remzarWalletLen < byteLen canon)
      (validationErr s!"Block.miner too long ({byteLen canon} bytes)")
    return canon

def validateMinerCanonical (b : Block) : Fallible Unit :=
  if (trim b.miner).isEmpty then
    rejectIf (b.metadata.index ≠ 0) (validationErr "Block.miner missing")
  else do
    let canon ← canonWalletIdChecked b.miner
    rejectIf (canon ≠ b.miner) (validationErr "Block.miner is not in canonical form")
    rejectIf (remzarWalletLen < byteLen b.miner)
      (validationErr s!"Block.miner too long ({byteLen b.miner} bytes)")

def validateBlockHashNotZero (b : Block) : Fallible Unit :=
  rejectIf (0 < b.metadata.index ∧ b.blockHash = zeroHash)
    (validationErr s!"Block: block_hash is all zeros (index {b.metadata.index})")

/-- `validate(None)`. -/
def validate [Blake3] (b : Block) : Fallible Unit := do
  b.metadata.validateStructural
  b.metadata.validateSize
  b.validateMinerCanonical
  validateBatchKeyBound b.batchKey "Block.batch_key"
  b.validateBlockHashNotZero
  rejectIf (b.blockHash ≠ b.computeBlockHash) (validationErr "Block hash mismatch")

def new [Blake3] (metadata : BlockMetadata) (batchKey : Option String) (miner : String)
    (reward : UInt64) : Fallible Block := do
  validateBatchKeyBound batchKey "Block.batch_key"
  metadata.validateStructural
  metadata.validateSize
  let miner ← canonicalizeMinerForHeight miner metadata.index
  return ⟨metadata, batchKey, miner, Blake3.xof64 (hashPreimage metadata batchKey reward), reward⟩

def serializeForStorage [Blake3] (b : Block) : Fallible (List UInt8) := do
  b.validate
  let buf := codec.enc b
  rejectIf (maxBlockSize < buf.length) (.serializationError
    s!"Serialized block too large ({buf.length} bytes); exceeds MAX_BLOCK_SIZE {maxBlockSize}.")
  return buf

def validateStorageLen (data : List UInt8) : Fallible Unit := do
  rejectIf (data.length < minBlockSize) (.serializationError
    s!"Block data too short ({data.length} bytes); probably corrupt.")
  rejectIf (maxBlockSize < data.length) (.serializationError
    s!"Block data too large ({data.length} bytes); exceeds MAX_BLOCK_SIZE {maxBlockSize}.")

-- `from_bytes` ignores what follows the block, so its zero-padding fallback is only
-- reached by bytes that do not decode at all. The block hash is not recomputed.
def deserializeFromStorage (data : List UInt8) : Fallible Block := do
  validateStorageLen data
  let b ← mapErr (fun e => .serializationError
    s!"Deserialize block (postcard padded fallback): {e.describe}") (fromBytes codec data)
  b.metadata.validateStructural
  b.metadata.validateSize
  let miner ← canonicalizeMinerForHeight b.miner b.metadata.index
  validateBatchKeyBound b.batchKey "Block: batch_key"
  let b := { b with miner := miner }
  b.validateBlockHashNotZero
  return b

end Block

end Remzar
