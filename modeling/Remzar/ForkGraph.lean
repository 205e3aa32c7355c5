import Mathlib
import Remzar.Lib.BigEndian
import Remzar.Lib.Effects
import Remzar.BlockSpec

/-! The stored fork graph: blocks, metadata and batches by block hash, the canonical hash of
every height and the canonical tip, with the wrappers that fork choice reads them through. -/
namespace Remzar
open Std Fallible Effects Text

inductive ForkBlockStatus where
  | headerOnly
  | blockStored
  | validated
  | canonical
  | sideBranch
  | orphan
  deriving DecidableEq

namespace ForkBlockStatus

def asU8 : ForkBlockStatus → UInt8
  | headerOnly => 0
  | blockStored => 1
  | validated => 2
  | canonical => 3
  | sideBranch => 4
  | orphan => 5

def fromU8 (v : UInt8) : Fallible ForkBlockStatus :=
  match v with
  | 0 => .ok headerOnly
  | 1 => .ok blockStored
  | 2 => .ok validated
  | 3 => .ok canonical
  | 4 => .ok sideBranch
  | 5 => .ok orphan
  | _ => .error (.storageError s!"Invalid ForkBlockStatus value: {v}")

theorem fromU8_asU8 (status : ForkBlockStatus) : fromU8 status.asU8 = .ok status := by
  cases status <;> rfl

end ForkBlockStatus

/-- Durable metadata of a block in the fork graph. -/
structure ForkBlockMeta where
  parentHash : Hash
  height : UInt64
  -- A 128-bit unsigned number.
  cumulativeScore : BitVec 128
  status : ForkBlockStatus
  receivedAtUnixSecs : UInt64
  deriving DecidableEq

def saturatingSucc (score : BitVec 128) : BitVec 128 :=
  if score = BitVec.allOnes 128 then score else score + 1

/-- `bytes[from..from+n]`, which the caller has checked to exist. -/
def hashAt (bytes : List UInt8) : Hash :=
  ⟨(bytes.take 64).takeD 64 0, List.takeD_length 64 _ 0⟩

namespace ForkBlockMeta

def toBytes (m : ForkBlockMeta) : List UInt8 :=
  m.parentHash.toList ++ Block.u64Be m.height ++
    BigEndian.encode 16 m.cumulativeScore.toNat ++ [m.status.asU8] ++
    Block.u64Be m.receivedAtUnixSecs

def expectedLen : ℕ := 97

def fromBytes (bytes : List UInt8) : Fallible ForkBlockMeta := do
  rejectIf (bytes.length ≠ expectedLen) (.storageError
    s!"Invalid ForkBlockMeta length: expected {expectedLen}, got {bytes.length}")
  let height := UInt64.ofNat (BigEndian.decode ((bytes.drop 64).take 8))
  let score := BitVec.ofNat 128 (BigEndian.decode ((bytes.drop 72).take 16))
  let status ← ForkBlockStatus.fromU8 ((bytes.drop 88).headD 0)
  let received := UInt64.ofNat (BigEndian.decode ((bytes.drop 89).take 8))
  return ⟨hashAt bytes, height, score, status, received⟩

end ForkBlockMeta

structure CanonicalTipView where
  tipHash : Hash
  tipHeight : UInt64
  deriving DecidableEq

namespace CanonicalTipView

def toBytes (v : CanonicalTipView) : List UInt8 := v.tipHash.toList ++ Block.u64Be v.tipHeight

def expectedLen : ℕ := 72

def fromBytes (bytes : List UInt8) : Fallible CanonicalTipView := do
  rejectIf (bytes.length ≠ expectedLen) (.storageError
    s!"Invalid CanonicalTipView length: expected {expectedLen}, got {bytes.length}")
  return ⟨hashAt bytes, UInt64.ofNat (BigEndian.decode ((bytes.drop 64).take 8))⟩

end CanonicalTipView

/-! ### Round trips -/

theorem u64Be_length (n : UInt64) : (Block.u64Be n).length = 8 := BigEndian.encode_length 8 n.toNat

theorem decode_u64Be (n : UInt64) : UInt64.ofNat (BigEndian.decode (Block.u64Be n)) = n := by
  have hdecode : BigEndian.decode (Block.u64Be n) = n.toNat :=
    BigEndian.decode_encode 8 n.toNat n.toNat_lt
  rw [hdecode, UInt64.ofNat_toNat]

theorem hashAt_append (hash : Hash) (rest : List UInt8) : hashAt (hash.toList ++ rest) = hash := by
  apply Subtype.ext
  have hlen : hash.toList.length = 64 := hash.toList_length
  change ((hash.toList ++ rest).take 64).takeD 64 0 = hash.toList
  rw [List.take_append_of_le_length (Nat.le_of_eq hlen.symm), List.take_of_length_le
    (Nat.le_of_eq hlen), List.takeD_eq_take _ (Nat.le_of_eq hlen.symm), List.take_of_length_le
    (Nat.le_of_eq hlen)]

theorem CanonicalTipView.fromBytes_toBytes (v : CanonicalTipView) : fromBytes v.toBytes = .ok v := by
  have hhash : v.tipHash.toList.length = 64 := v.tipHash.toList_length
  have hlen : v.toBytes.length = expectedLen := by
    rw [toBytes, List.length_append, hhash, u64Be_length]
    rfl
  have hheight : (v.toBytes.drop 64).take 8 = Block.u64Be v.tipHeight := by
    rw [toBytes, List.drop_append_of_le_length (Nat.le_of_eq hhash.symm), List.drop_of_length_le
      (Nat.le_of_eq hhash), List.nil_append, List.take_of_length_le
      (Nat.le_of_eq (u64Be_length _))]
  rw [fromBytes, rejectIf_of_not _ (not_not.mpr hlen), ok_bind, hheight, decode_u64Be, toBytes,
    hashAt_append]
  rfl

theorem ForkBlockMeta.fromBytes_toBytes (m : ForkBlockMeta) : fromBytes m.toBytes = .ok m := by
  have hhash : m.parentHash.toList.length = 64 := m.parentHash.toList_length
  have hheight := u64Be_length m.height
  have hscore := BigEndian.encode_length 16 m.cumulativeScore.toNat
  have hreceived := u64Be_length m.receivedAtUnixSecs
  have hlen : m.toBytes.length = expectedLen := by
    simp only [toBytes, List.length_append, hhash, hheight, hscore, hreceived, List.length_singleton]
    rfl
  -- Every field starts where the fields before it end.
  have hshape : m.toBytes = m.parentHash.toList ++ (Block.u64Be m.height ++
      (BigEndian.encode 16 m.cumulativeScore.toNat ++ (m.status.asU8 ::
        Block.u64Be m.receivedAtUnixSecs))) := by
    simp only [toBytes, List.append_assoc, List.singleton_append]
  have hdrop64 : m.toBytes.drop 64 = Block.u64Be m.height ++
      (BigEndian.encode 16 m.cumulativeScore.toNat ++ (m.status.asU8 ::
        Block.u64Be m.receivedAtUnixSecs)) := by
    rw [hshape]
    exact List.drop_left' hhash
  have hdrop72 : m.toBytes.drop 72 = BigEndian.encode 16 m.cumulativeScore.toNat ++
      (m.status.asU8 :: Block.u64Be m.receivedAtUnixSecs) := by
    rw [show (72 : ℕ) = 64 + 8 from rfl, ← List.drop_drop, hdrop64]
    exact List.drop_left' hheight
  have hdrop88 : m.toBytes.drop 88 = m.status.asU8 :: Block.u64Be m.receivedAtUnixSecs := by
    rw [show (88 : ℕ) = 72 + 16 from rfl, ← List.drop_drop, hdrop72]
    exact List.drop_left' hscore
  have hdrop89 : m.toBytes.drop 89 = Block.u64Be m.receivedAtUnixSecs := by
    rw [show (89 : ℕ) = 88 + 1 from rfl, ← List.drop_drop, hdrop88]
    rfl
  have hscoreBound : m.cumulativeScore.toNat < 256^16 := m.cumulativeScore.isLt
  rw [fromBytes, rejectIf_of_not _ (not_not.mpr hlen), ok_bind, hdrop64, hdrop72, hdrop88, hdrop89,
    List.take_left' hheight, List.take_left' hscore, List.take_of_length_le (Nat.le_of_eq hreceived),
    decode_u64Be, decode_u64Be, BigEndian.decode_encode 16 _ hscoreBound, BitVec.ofNat_toNat,
    BitVec.setWidth_eq, List.headD_cons, ForkBlockStatus.fromU8_asU8, hshape, hashAt_append]
  rfl

/-! ### Storage by block hash -/

namespace RockDB

def storeBlockMetaByHash (db : RockDB) (hash : Hash) (m : ForkBlockMeta) : RockDB :=
  db.put .blockMetaByHash hash.toList m.toBytes

def getBlockMetaByHash (db : RockDB) (hash : Hash) : Fallible (Option ForkBlockMeta) :=
  match db.read .blockMetaByHash hash.toList with
  | none => .ok none
  | some bytes => do
    let m ← ForkBlockMeta.fromBytes bytes
    return some m

def hasBlockMetaByHash (db : RockDB) (hash : Hash) : Fallible Bool := do
  let m ← db.getBlockMetaByHash hash
  return m.isSome

def setBlockMetaStatus (db : RockDB) (hash : Hash) (status : ForkBlockStatus) : Fallible RockDB := do
  let found ← db.getBlockMetaByHash hash
  let m ← okOr found (.notFound "block_meta_by_hash")
  return db.storeBlockMetaByHash hash { m with status := status }

def storeBatchByBlockHash (db : RockDB) (hash : Hash) (bytes : List UInt8) : RockDB :=
  db.put .batchByBlockHash hash.toList bytes

def getBatchByBlockHash (db : RockDB) (hash : Hash) : Option (List UInt8) :=
  db.read .batchByBlockHash hash.toList

/-! ### The canonical view -/

def canonicalHeightKey (height : UInt64) : List UInt8 := Block.u64Be height

def setCanonicalHashAtHeight (db : RockDB) (height : UInt64) (hash : Hash) : RockDB :=
  db.put .canonicalHeightToHash (canonicalHeightKey height) hash.toList

def getCanonicalHashAtHeight (db : RockDB) (height : UInt64) : Fallible (Option Hash) :=
  match db.read .canonicalHeightToHash (canonicalHeightKey height) with
  | none => .ok none
  | some bytes =>
    if h : bytes.length = 64 then .ok (some ⟨bytes, h⟩)
    else .error (.storageError
      s!"Invalid canonical hash length at height {height}: expected 64, got {bytes.length}")

/-- The heights `from..=to`. -/
def heightRange (first last : UInt64) : List UInt64 :=
  (List.range' first.toNat (last.toNat+1-first.toNat)).map UInt64.ofNat

def deleteCanonicalHashRange (db : RockDB) (fromHeight toHeight : UInt64) : RockDB :=
  (heightRange fromHeight toHeight).foldl
    (fun db h => db.remove .canonicalHeightToHash (canonicalHeightKey h)) db

def canonicalTipViewKey : List UInt8 := asciiBytes "canonical_tip_view"

-- The legacy heights follow the tip.
def setCanonicalTip (db : RockDB) (tipHash : Hash) (tipHeight : UInt64) : RockDB :=
  ((db.put .canonicalChainView canonicalTipViewKey
    (CanonicalTipView.toBytes ⟨tipHash, tipHeight⟩)).setTipHeight tipHeight).setLatestBlockIndex
    tipHeight

def getCanonicalTip (db : RockDB) : Fallible (Option CanonicalTipView) :=
  match db.read .canonicalChainView canonicalTipViewKey with
  | none => .ok none
  | some bytes => do
    let view ← CanonicalTipView.fromBytes bytes
    return some view

def ingestForkBlock [Blake3] (db : RockDB) (hash : Hash) (blockBytes : List UInt8)
    (m : ForkBlockMeta) (maybeBatchBytes : Option (List UInt8)) : Fallible RockDB := do
  let db ← db.indexBlockByHash hash blockBytes
  let db := db.storeBlockMetaByHash hash m
  return match maybeBatchBytes with
    | some batchBytes => db.storeBatchByBlockHash hash batchBytes
    | none => db

end RockDB

/-! ### Block index, chain view and batch index -/

namespace ReorgBlockIndex

def putBlockAndMeta [Blake3] (block : Block) (m : ForkBlockMeta) (db : RockDB) : Fallible RockDB := do
  let bytes ← block.serializeForStorage
  db.ingestForkBlock block.blockHash bytes m none

def ingestValidatedBlock [Blake3] (block : Block) (m : ForkBlockMeta)
    (maybeBatchBytes : Option (List UInt8)) (db : RockDB) : Fallible RockDB := do
  let bytes ← block.serializeForStorage
  db.ingestForkBlock block.blockHash bytes m maybeBatchBytes

def markCanonical (hash : Hash) (db : RockDB) : Fallible RockDB :=
  db.setBlockMetaStatus hash .canonical

def markSideBranch (hash : Hash) (db : RockDB) : Fallible RockDB :=
  db.setBlockMetaStatus hash .sideBranch

/-- `has_meta` where an unreadable record counts as absent. -/
def hasMetaOrFalse (hash : Hash) (db : RockDB) : Bool :=
  match db.hasBlockMetaByHash hash with
  | .ok found => found
  | .error _ => false

end ReorgBlockIndex

namespace ReorgChainView

def getTipWithLegacyFallback (db : RockDB) : Fallible (Option CanonicalTipView) := do
  match ← db.getCanonicalTip with
  | some view => return some view
  | none => do
    let legacy ← db.getBlockByIndex db.getTipHeight
    return legacy.map fun block => ⟨block.blockHash, block.metadata.index⟩

end ReorgChainView

namespace ReorgBatchIndex

def remapCanonicalBatchesBestEffort (attachSteps : List (UInt64 × Hash)) (db : RockDB) : RockDB :=
  attachSteps.foldl (fun db step =>
    match db.getBatchByBlockHash step.2 with
    | some bytes => db.storeBatchBytes step.1 bytes
    | none => db) db

end ReorgBatchIndex

end Remzar
