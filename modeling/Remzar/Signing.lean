import Mathlib
import Remzar.Mempool

/-! Signatures over the transactions of a batch, and the checks that turn a batch into the
metadata of a block. -/
namespace Remzar
open Fallible Text

/-- A signing key signs a Merkle root, or reports why it cannot. Signing is randomised, so
what it returns depends on the draw as well. -/
structure SigningKey where
  trySign : ℕ → Hash → Except String SignatureArray

/-! ### The signed root -/

def emptyBlockDummyLeaf : List UInt8 := asciiBytes "remzar_empty_block_mint"

-- A node without a neighbour is paired with itself.
def merkleParents [Blake3] : List Hash → List Hash
  | [] => []
  | [left] => [Blake3.xof64 (left.toList ++ left.toList)]
  | left :: right :: rest => Blake3.xof64 (left.toList ++ right.toList) :: merkleParents rest

/-- Levels are built until one node is left; every level halves the one below. -/
def merkleClimb [Blake3] : ℕ → List Hash → List Hash
  | 0, nodes => nodes
  | fuel+1, nodes => if nodes.length ≤ 1 then nodes else merkleClimb fuel (merkleParents nodes)

def signedMerkleRoot [Blake3] (hashes : List Hash) : Fallible Hash := do
  rejectIf (maxBatchItems < hashes.length) (.merkleProofGenerationError
    s!"Hash count {hashes.length} exceeds MAX_BATCH_ITEMS {maxBatchItems}")
  let nodes := if hashes = [] then [Blake3.xof64 emptyBlockDummyLeaf] else hashes
  okOr (merkleClimb nodes.length nodes).head?
    (.merkleProofGenerationError "Merkle root computation produced no nodes")

def validateItem (acc : ℕ × ℕ) (item : List UInt8) : Fallible (ℕ × ℕ) := do
  let (i, total) := acc
  rejectIf (maxItemBytes < item.length) (validationErr
    s!"Batch element #{i} size {item.length} exceeds MAX_ITEM_BYTES {maxItemBytes}")
  rejectIf (maxTotalBatchBytes < total + item.length) (validationErr
    s!"Total batch bytes {total + item.length} exceeds MAX_TOTAL_BATCH_BYTES {maxTotalBatchBytes}")
  return (i+1, total + item.length)

def validateBatchInput (batchData : List (List UInt8)) : Fallible Unit := do
  rejectIf (maxBatchItems < batchData.length) (validationErr
    s!"Batch item count {batchData.length} exceeds MAX_BATCH_ITEMS {maxBatchItems}")
  let _ ← batchData.foldlM validateItem (0, 0)
  return ()

def computeBatchMerkleRoot [Blake3] (batchData : List (List UInt8)) : Fallible Hash := do
  let root ← signedMerkleRoot (batchData.map Blake3.xof64)
  rejectIf (root = zeroHash) (.merkleProofGenerationError
    "Merkle root is all-zero; refusing to sign/verify suspicious root")
  return root

/-- The two signers differ in their draw and in the name they report a failure under. -/
def signBatchAs [Blake3] (signer : String) (draw : ℕ) (sk : SigningKey)
    (batchData : List (List UInt8)) : Fallible SignatureArray := do
  validateBatchInput batchData
  let root ← computeBatchMerkleRoot batchData
  mapErr (fun e => .cryptographicError s!"{signer} signing failed: {e}") (sk.trySign draw root)

-- The hashes of a full batch stay below the cap on the hash vector.
def MlDsa65BatchSignature.signBatch [Blake3] (sk : SigningKey) (batchData : List (List UInt8)) :
    Fallible SignatureArray :=
  signBatchAs "Batch" 0 sk batchData

def GuardianSignature.signBatch [Blake3] (sk : SigningKey) (batchData : List (List UInt8)) :
    Fallible SignatureArray :=
  signBatchAs "Guardian Node" 1 sk batchData

/-! ### Batches -/

namespace TransactionBatch

/-- The signature that `sign_batch` stores in the batch. -/
def signBatch [Blake3] (sk : SigningKey) (batch : TransactionBatch) : Fallible SignatureArray := do
  let leaves ← batch.leaves
  MlDsa65BatchSignature.signBatch sk leaves

/-- The metadata of the block, and the batch with its signature. -/
def finalizeBlock [Blake3] (sk : SigningKey) (prevHash : Hash) (batch : TransactionBatch) :
    Fallible (BlockMetadata × TransactionBatch) := do
  let total ← batch.totalSize
  rejectIf (maxBlockSize < total) (validationErr "Batch too big")
  let _ ← batch.serializeForStorage
  let sig ← batch.signBatch sk
  let merkle ← batch.computeMerkleRoot
  return (⟨batch.index, batch.timestamp, prevHash, merkle, sig, none, UInt64.ofNat maxBlockSize⟩,
    { batch with guardianSignature := some sig.toList })

end TransactionBatch

namespace BlockchainValidation

def validateTransaction (tx : Transaction) : Fallible Unit := do
  tx.validateStructural
  rejectIf (maxTxAmount < tx.amount) (validationErr
    s!"Transaction amount {tx.amount} exceeds the allowed maximum {maxTxAmount}")

def validateBatchKind : TxKind → Fallible Unit
  | .transfer tx => validateTransaction tx
  | kind => kind.validate

def transfers (kinds : List TxKind) : List Transaction :=
  kinds.filterMap fun kind =>
    match kind with
    | .transfer tx => some tx
    | _ => none

def transferIds [Blake3] (kinds : List TxKind) : Fallible (List String) :=
  (transfers kinds).mapM Transaction.id

def validateTransactionBatch [Blake3] (sk : SigningKey) (previousHash : Hash)
    (batch : TransactionBatch) : Fallible (BlockMetadata × TransactionBatch) := do
  batch.transactions.forM validateBatchKind
  let ids ← transferIds batch.transactions
  DetectionSystem.detectDoubleSpend ids
  batch.finalizeBlock sk previousHash

end BlockchainValidation

end Remzar
