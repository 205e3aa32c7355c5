import Mathlib
import Remzar.Lib.Ledger
import Remzar.Block

/-! The node's database: column families of byte strings, the compact account snapshot
under `STATE_KEY`, and the NFT records. A column returns what was last written to it. -/
namespace Remzar
open Std Fallible Postcard Text

abbrev Balances := ExtTreeMap String UInt64 byteOrder

structure AccountStateSnapshot where
  version : UInt64
  balances : Balances
  tipHeight : UInt64
  tipHash : Hash
  prevTipHash : Hash
  hasTip : Bool
  totalIssuedMicro : UInt64
  rewardsIssuedMicro : UInt64
  reservedIssuedMicro : UInt64

structure NftRecord where
  nftId : Hash
  creatorWallet : String
  ownerWallet : String
  contentHash : Hash
  title : String
  description : String
  mintedHeight : UInt64
  mintedTime : UInt64
  deriving DecidableEq

inductive ColumnName where
  | transaction
  | txToHash
  | transactionBatch
  | blockmintData
  | blockToHash
  | account
  | global
  | blockMetaByHash
  | batchByBlockHash
  | canonicalHeightToHash
  | canonicalChainView
  | validatorData
  deriving DecidableEq

abbrev Column := ExtTreeMap (List UInt8) (List UInt8)

structure RockDB where
  column : ColumnName → Column
  -- The snapshot is kept decoded: a hash map has no fixed order on disk.
  state : Option AccountStateSnapshot
  -- Keyed by the bytes of the NFT id.
  nfts : ExtTreeMap (List UInt8) NftRecord

namespace RockDB

def empty : RockDB := ⟨fun _ => ∅, none, ∅⟩

def read (db : RockDB) (column : ColumnName) (key : List UInt8) : Option (List UInt8) :=
  (db.column column)[key]?

def put (db : RockDB) (column : ColumnName) (key value : List UInt8) : RockDB :=
  { db with column := Function.update db.column column ((db.column column).insert key value) }

def remove (db : RockDB) (column : ColumnName) (key : List UInt8) : RockDB :=
  { db with column := Function.update db.column column ((db.column column).erase key) }

/-- The database with nothing pending. -/
def clearMempool (db : RockDB) : RockDB :=
  { db with column := Function.update (Function.update db.column .transaction ∅) .txToHash ∅ }

theorem column_clearMempool (db : RockDB) (c : ColumnName) :
    db.clearMempool.column c = if c = .transaction ∨ c = .txToHash then ∅ else db.column c := by
  cases c <;> rfl

@[simp] theorem put_state (db : RockDB) (c : ColumnName) (k v : List UInt8) :
    (db.put c k v).state = db.state := rfl

@[simp] theorem put_nfts (db : RockDB) (c : ColumnName) (k v : List UInt8) :
    (db.put c k v).nfts = db.nfts := rfl

theorem clearMempool_put (db : RockDB) {c : ColumnName} (k v : List UInt8)
    (hc : c = .transaction ∨ c = .txToHash) : (db.put c k v).clearMempool = db.clearMempool := by
  have hcolumn : (db.put c k v).clearMempool.column = db.clearMempool.column := by
    funext c'
    rw [column_clearMempool, column_clearMempool]
    split
    · rfl
    · rename_i hc'
      have hne : c' ≠ c := fun heq => hc' (heq ▸ hc)
      exact Function.update_of_ne hne _ _
  exact congrArg (fun column => (⟨column, db.state, db.nfts⟩ : RockDB)) hcolumn

theorem column_put_of_ne (db : RockDB) {c c' : ColumnName} (k v : List UInt8) (h : c' ≠ c) :
    (db.put c k v).column c' = db.column c' :=
  Function.update_of_ne h _ _

theorem read_put (db : RockDB) (c c' : ColumnName) (k k' v : List UInt8) :
    (db.put c k v).read c' k' = if c = c' ∧ k = k' then some v else db.read c' k' := by
  unfold read put
  by_cases hc : c = c'
  · subst hc
    simp only [Function.update_self, ExtTreeMap.getElem?_insert, true_and,
      LawfulEqCmp.compare_eq_iff_eq]
  · have hne : c' ≠ c := fun h => hc h.symm
    simp only [Function.update_of_ne hne, hc, false_and, if_false]

theorem read_put_self (db : RockDB) (c : ColumnName) (k v : List UInt8) :
    (db.put c k v).read c k = some v := by
  rw [read_put, if_pos ⟨rfl, rfl⟩]

theorem read_put_of_column_ne (db : RockDB) {c c' : ColumnName} (k k' v : List UInt8)
    (hc : c ≠ c') : (db.put c k v).read c' k' = db.read c' k' := by
  rw [read_put, if_neg (fun h => hc h.1)]

theorem read_put_of_key_ne (db : RockDB) (c c' : ColumnName) {k k' : List UInt8}
    (v : List UInt8) (hk : k ≠ k') : (db.put c k v).read c' k' = db.read c' k' := by
  rw [read_put, if_neg (fun h => hk h.2)]

theorem read_remove (db : RockDB) (c c' : ColumnName) (k k' : List UInt8) :
    (db.remove c k).read c' k' = if c = c' ∧ k = k' then none else db.read c' k' := by
  unfold read remove
  by_cases hc : c = c'
  · subst hc
    simp only [Function.update_self, ExtTreeMap.getElem?_erase, true_and,
      LawfulEqCmp.compare_eq_iff_eq]
  · have hne : c' ≠ c := fun h => hc h.symm
    simp only [Function.update_of_ne hne, hc, false_and, if_false]

-- Every durable write first walks the transaction column and refuses an empty record.
def batchProcessAll (db : RockDB) : Fallible Unit :=
  rejectIf ((db.column .transaction).toList.any fun r => r.1.isEmpty || r.2.isEmpty)
    (.blockchainError "Record invalid: key or value is empty")

def write (db : RockDB) (column : ColumnName) (key value : List UInt8) : Fallible RockDB := do
  db.batchProcessAll
  return db.put column key value

def delete (db : RockDB) (column : ColumnName) (key : List UInt8) : Fallible RockDB := do
  db.batchProcessAll
  return db.remove column key

theorem write_eq_ok_iff (db db' : RockDB) (c : ColumnName) (k v : List UInt8) :
    db.write c k v = .ok db' ↔ db.batchProcessAll = .ok () ∧ db.put c k v = db' := by
  rw [write, bind_eq_ok_iff]
  constructor
  · rintro ⟨u, hu, hp⟩
    exact ⟨hu, (pure_eq_ok_iff _ _).mp hp⟩
  · rintro ⟨hu, rfl⟩
    exact ⟨(), hu, rfl⟩

/-! ### Blocks and batches -/

def blockKey (index : UInt64) : List UInt8 := asciiBytes ("block_" ++ String.ofList (padded10 index))

def getBlockByIndex (db : RockDB) (index : UInt64) : Fallible (Option Block) :=
  match db.read .blockmintData (blockKey index) with
  | none => .ok none
  | some data => do
    let block ← Block.deserializeFromStorage data
    return some block

def getBatchBytesByIndex (db : RockDB) (index : UInt64) : Option (List UInt8) :=
  db.read .transactionBatch (batchKey index)

def storeBatchBytes (db : RockDB) (index : UInt64) (bytes : List UInt8) : RockDB :=
  db.put .transactionBatch (batchKey index) bytes

def storeLatestBlock (db : RockDB) (blockData : List UInt8) (index : UInt64) :
    Fallible RockDB := do
  db.batchProcessAll
  rejectIf (blockData = []) (.storageError "❌ Refusing to store an empty block payload")
  rejectIf (maxBlockSize < blockData.length) (.storageError
    s!"❌ Block too large: maximum {maxBlockSize} bytes allowed, got {blockData.length}")
  return db.put .blockmintData (blockKey index) blockData

-- The bytes are decoded and encoded again before they are stored.
def indexBlockByHash [Blake3] (db : RockDB) (hash : Hash) (blockBytes : List UInt8) :
    Fallible RockDB := do
  let block ← Block.deserializeFromStorage blockBytes
  let canonical ← block.serializeForStorage
  return db.put .blockToHash hash.toList canonical

def getBlockByHash (db : RockDB) (hash : Hash) : Option Block :=
  match db.read .blockToHash hash.toList with
  | none => none
  | some bytes => (Block.deserializeFromStorage bytes).toOption

def hasBlockByHash (db : RockDB) (hash : Hash) : Bool := (db.read .blockToHash hash.toList).isSome

/-- The last key of the block column, if it names a block. -/
def getLatestBlock (db : RockDB) : Fallible (Option Block) :=
  match (db.column .blockmintData).toList.getLast? with
  | none => .ok none
  | some (key, data) =>
    if (asciiBytes "block_").isPrefixOf key then do
      let block ← Block.deserializeFromStorage data
      return some block
    else .ok none

def getLatestBlockHash (db : RockDB) : Fallible Hash := do
  let latest ← db.getLatestBlock
  let block ← okOr latest (.notFound "latest block")
  return block.blockHash

/-! ### Heights -/

-- Heights are eight big-endian bytes; any other length reads as absent.
def readHeight (db : RockDB) (key : String) : Option UInt64 :=
  match db.read .global (asciiBytes key) with
  | none => none
  | some bytes =>
    if bytes.length = 8 then
      some (UInt64.ofNat (bytes.foldl (fun n b => 256*n + b.toNat) 0))
    else none

def putHeight (db : RockDB) (key : String) (height : UInt64) : RockDB :=
  db.put .global (asciiBytes key) (Block.u64Be height)

def getLatestBlockIndex (db : RockDB) : UInt64 := (db.readHeight "latest_block_index").getD 0

def getTipHeight (db : RockDB) : UInt64 :=
  match db.readHeight "tip_height" with
  | some height => height
  | none => db.getLatestBlockIndex

def getAddrIndexHeight (db : RockDB) : UInt64 := (db.readHeight "addr_index_height").getD 0

def setLatestBlockIndex (db : RockDB) (height : UInt64) : RockDB :=
  (db.putHeight "latest_block_index" height).putHeight "tip_height" height

def setTipHeight (db : RockDB) (height : UInt64) : RockDB := db.putHeight "tip_height" height

def setAddrIndexHeight (db : RockDB) (height : UInt64) : RockDB :=
  db.putHeight "addr_index_height" height

end RockDB

end Remzar
