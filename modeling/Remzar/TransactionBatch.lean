import Mathlib
import Remzar.TxKind

/-! Transaction batches: their wire format, size and Merkle root. -/
namespace Remzar
open Fallible Postcard Text

structure TransactionBatch where
  index : UInt64
  timestamp : UInt64
  transactions : List TxKind
  guardianSignature : Option (List UInt8)
  deriving DecidableEq

def asciiBytes (s : String) : List UInt8 := utf8 s

/-- `{:010}`: decimal, padded with zeros to ten digits. -/
def padded10 (n : UInt64) : List Char :=
  let digits := Nat.toDigits 10 n.toNat
  List.replicate (10 - digits.length) '0' ++ digits

def batchKeyString (index : UInt64) : String := "tx_batch_" ++ String.ofList (padded10 index)

def batchKey (index : UInt64) : List UInt8 := asciiBytes (batchKeyString index)

def maxSerializedBytes : ℕ := 4*1024*1024

def ensureSizeLimit (len : ℕ) (context : String) : Fallible Unit :=
  rejectIf (maxSerializedBytes < len) (validationErr
    s!"{context} serialized size {len} exceeds MAX_SERIALIZED_BYTES {maxSerializedBytes}")

-- Each leaf is itself serialized, with its length in front, before it is hashed.
def remzarComputeMerkleRoot [Blake3] (leaves : List (List UInt8)) : Fallible Hash := do
  let blobs := leaves.map Postcard.bytes.enc
  blobs.forM fun blob => ensureSizeLimit blob.length "compute_merkle_root(tx)"
  if leaves = [] then return Blake3.xof64 (asciiBytes "EMPTY_MERKLE_ROOT")
  else return Blake3.xof64 blobs.flatten

namespace TransactionBatch

def codec : Codec TransactionBatch :=
  record (pair u64 (pair u64 (pair (vec TxKind.codec) (option Postcard.bytes))))
    (fun b => (b.index, b.timestamp, b.transactions, b.guardianSignature))
    (fun p => ⟨p.1, p.2.1, p.2.2.1, p.2.2.2⟩) (fun _ => rfl)

def serialize (batch : TransactionBatch) : List UInt8 := codec.enc batch

def serializedLen (batch : TransactionBatch) : ℕ := batch.serialize.length

-- Trailing bytes are rejected; the transactions are not validated here.
def deserialize (bytes : List UInt8) : Fallible TransactionBatch := do
  let (batch, remaining) ← mapErr (fun e =>
    .serializationError s!"Deserialize TransactionBatch failed: {e.describe}")
    (takeFromBytes codec bytes)
  rejectIf (remaining ≠ [])
    (.serializationError "Deserialize TransactionBatch failed: trailing bytes rejected")
  return batch

def serializeForStorage (batch : TransactionBatch) : Fallible (List UInt8) := do
  let buf := batch.serialize
  rejectIf (maxBlockSize < buf.length) (validationErr
    s!"TransactionBatch exceeds MAX_BLOCK_SIZE: {buf.length} > {maxBlockSize}")
  return buf

def leaves (batch : TransactionBatch) : Fallible (List (List UInt8)) :=
  batch.transactions.mapM TxKind.leaf

def totalSize (batch : TransactionBatch) : Fallible ℕ := do
  let leaves ← batch.leaves
  return (leaves.map List.length).sum

-- The root is hex encoded and decoded again in between, which changes nothing.
def computeMerkleRoot [Blake3] (batch : TransactionBatch) : Fallible Hash := do
  let leaves ← batch.leaves
  remzarComputeMerkleRoot leaves

/-- The units a batch issues. -/
def rewardAmount (batch : TransactionBatch) : ℕ :=
  (batch.transactions.map TxKind.rewardAmount).sum

theorem deserialize_serialize (batch : TransactionBatch) (hb : codec.Fits batch) :
    deserialize batch.serialize = .ok batch := by
  rw [deserialize, serialize, takeFromBytes_enc codec batch hb]
  rfl

end TransactionBatch

end Remzar
