import Mathlib
import Remzar.RockDB

/-! The mempool: pending transactions in the transaction column, a second column that finds
them by hash, and a counter of the bytes they take. -/
namespace Remzar
open Std Fallible Checked Postcard Text

/-! ### Detection -/

namespace DetectionSystem

def scanId (seen : List String) (tx : String) : Fallible (List String) := do
  rejectIf (maxTxsPerBlock < seen.length+1) (validationErr
    s!"Too many tx_ids to scan for double-spend: {seen.length+1} > {maxTxsPerBlock}")
  rejectIf (tx ∈ seen) (.doubleSpending (some tx))
  return tx :: seen

def detectDoubleSpend (txIds : List String) : Fallible Unit := do
  let _ ← txIds.foldlM scanId []
  return ()

def scanPair (seen : List (String × List UInt8)) (item : String × List UInt8) :
    Fallible (List (String × List UInt8)) := do
  rejectIf (maxTxsPerBlock < seen.length+1) (validationErr
    s!"Too many items to scan for replay: {seen.length+1} > {maxTxsPerBlock}")
  rejectIf (item ∈ seen) (.invalidOperation
    s!"Replay attack (duplicate (tx_id, sig) pair: tx_id = {item.1})")
  rejectIf (item.1 ∈ seen.map Prod.fst) (.invalidOperation
    s!"Replay attack (duplicate tx_id: {item.1})")
  return item :: seen

def detectReplay (items : List (String × List UInt8)) : Fallible Unit := do
  let _ ← items.foldlM scanPair []
  return ()

def checkBlockSize (size : ℕ) : Fallible Unit :=
  rejectIf (maxBlockSize < size) (validationErr s!"Block size {size} exceeds max {maxBlockSize}")

end DetectionSystem

namespace MemPool

def mempoolBytesKey : List UInt8 := asciiBytes "__mempool_bytes_used_v1"

def maxBatchTxs : ℕ := min maxTxsPerBlock maxBatchItems

def batchBudgetBytes : ℕ := maxBlockSize - blockOverheadReserve

/-- What the system reports while a transaction is admitted: the time in seconds and in
milliseconds, and a random number. -/
structure Reading where
  secs : Int64
  millis : Int64
  random : UInt32

def validateTxkindForMempool (clock : Int64) (kind : TxKind) : Fallible Unit := do
  kind.validate
  match kind with
  | .transfer tx => do
    let now ← nowUnixSecsRuntime clock
    tx.validateForMempoolAt now
  | .registerNode tx => do
    let now ← nowUnixSecsRuntime clock
    tx.validateForMempoolAt now
  | .reward tx => do
    let now ← nowUnixSecsRuntime clock
    tx.validateForRuntimeAt now
  | _ => return ()

def readMempoolBytesUsed (db : RockDB) : Fallible (Option UInt64) :=
  match db.read .transaction mempoolBytesKey with
  | none => .ok none
  | some v => do
    let used ← mapErr (fun e => .serializationError
      s!"Failed to decode mempool bytes counter: {e.describe}") (fromBytes u64 v)
    return some used

/-- The pending records in key order, without the counter. -/
def records (db : RockDB) : List (List UInt8 × List UInt8) :=
  (db.column .transaction).toList.filter fun r => r.1 ≠ mempoolBytesKey

def recomputeMempoolBytesUsed (db : RockDB) : Fallible UInt64 :=
  (records db).foldlM (fun total r => okOr (checkedAdd total (UInt64.ofNat r.2.length))
    (validationErr "Overflow while recomputing mempool byte usage")) 0

def currentBuffer (db : RockDB) : Fallible UInt64 := do
  match ← readMempoolBytesUsed db with
  | some v => return v
  | none => recomputeMempoolBytesUsed db

def checkEntrySizeBound (len : ℕ) : Fallible Unit :=
  rejectIf (maxItemBytes < len) (validationErr
    s!"Mempool entry too large: {len} bytes > MAX_ITEM_BYTES {maxItemBytes}")

/-! ### Admission -/

def pendingTransfer (value : List UInt8) : Option Transaction :=
  match checkEntrySizeBound value.length, TxKind.deserialize value with
  | .ok (), .ok (.transfer tx) => some tx
  | _, _ => none

-- Signatures do not take part: every pair carries an empty one.
def collectExistingIdSigPairs [Blake3] (db : RockDB) : Fallible (List (String × List UInt8)) :=
  ((records db).filterMap fun r => pendingTransfer r.2).mapM fun tx => do
    let id ← tx.id
    return (id, [])

def generateUniqueKey (r : Reading) : Fallible String := do
  let nowMillis ← nowUnixMillisRuntime r.millis
  rejectIf (2^64 ≤ nowMillis.toNat*1000)
    (.timestampError "Failed to generate mempool key timestamp")
  return "tx_" ++ s!"{nowMillis*1000}_{r.random}"

-- Only a transfer has an id to report.
def transferId [Blake3] : TxKind → Fallible (Option String)
  | .transfer tx => do
    let id ← tx.id
    return some id
  | _ => return none

def rejectOversized [Blake3] (kind : TxKind) (len : ℕ) : Fallible Unit :=
  if batchBudgetBytes < len then do
    let id ← transferId kind
    throw (.validationError s!"Transaction too large to ever fit: tx {len} bytes > batch budget {batchBudgetBytes} bytes (MAX_BLOCK_SIZE {maxBlockSize} - BLOCK_OVERHEAD_RESERVE {blockOverheadReserve})" id)
  else return ()

def rejectReplay [Blake3] (db : RockDB) : TxKind → Fallible Unit
  | .transfer tx => do
    let id ← tx.id
    let existing ← collectExistingIdSigPairs db
    DetectionSystem.detectReplay (existing ++ [(id, [])])
  | _ => return ()

def rejectDuplicate [Blake3] (db : RockDB) (kind : TxKind) (hash : Hash) : Fallible Unit :=
  if (db.read .txToHash hash.toList).isSome then do
    let id ← transferId kind
    throw (.validationError "Duplicate transaction (hash already in mempool)" id)
  else return ()

def newTotal (db : RockDB) (size : UInt64) : Fallible UInt64 := do
  let current ← currentBuffer db
  let total ← okOr (checkedAdd current size)
    (validationErr "Overflow while computing mempool capacity")
  rejectIf (transactionBufferLimit < total.toNat) (validationErr
    s!"Mempool full: current {current} bytes + new {size} bytes > {transactionBufferLimit} bytes")
  return total

/-- The record, its hash and the counter, in one write. -/
def insertPending [Blake3] (db : RockDB) (key serialized : List UInt8) (total : UInt64) : RockDB :=
  ((db.put .transaction key serialized).put .txToHash (Blake3.xof64 serialized).toList
    serialized).put .transaction mempoolBytesKey (u64.enc total)

def addTxKind [Blake3] (r : Reading) (kind : TxKind) (db : RockDB) : Fallible RockDB := do
  validateTxkindForMempool r.secs kind
  let serialized := kind.serialize
  checkEntrySizeBound serialized.length
  rejectOversized kind serialized.length
  let total ← newTotal db (UInt64.ofNat serialized.length)
  rejectReplay db kind
  let key ← generateUniqueKey r
  rejectDuplicate db kind (Blake3.xof64 serialized)
  return insertPending db (utf8 key) serialized total

/-! ### Selection -/

structure Selection where
  entries : List (List UInt8 × TxKind)
  totalSize : ℕ
  -- The scan has been left because the block is full.
  stopped : Bool

/-- A record whose transaction is still valid at the time it is looked at. -/
def selectable (clock : Int64) (value : List UInt8) : Option TxKind :=
  match TxKind.deserialize value with
  | .error _ => none
  | .ok kind => if succeeds (validateTxkindForMempool clock kind) then some kind else none

def consider (acc : Selection) (key : List UInt8) (kind : TxKind) : Selection :=
  let size := kind.serialize.length
  if batchBudgetBytes < size then acc
  -- A later, smaller transaction may still fit.
  else if batchBudgetBytes < acc.totalSize + size then acc
  else if maxBatchTxs ≤ acc.entries.length then { acc with stopped := true }
  else ⟨acc.entries ++ [(key, kind)], acc.totalSize + size, false⟩

def fetchStep (clock : List UInt8 → Int64) (acc : Selection) (r : List UInt8 × List UInt8) :
    Fallible Selection :=
  if acc.stopped then .ok acc
  else do
    checkEntrySizeBound r.2.length
    match selectable (clock r.1) r.2 with
    | none => return acc
    | some kind => return consider acc r.1 kind

/-- The clock is read once for every record, here by its key. -/
def fetchTransactionsForBlock (clock : List UInt8 → Int64) (db : RockDB) :
    Fallible (List (List UInt8 × TxKind)) := do
  let selection ← (records db).foldlM (fetchStep clock) ⟨[], 0, false⟩
  return selection.entries

/-! ### Removal -/

-- The counter goes down by what is stored under the key, the hash index by its hash.
def removeStep [Blake3] (db : RockDB) (acc : UInt64 × RockDB) (key : List UInt8) :
    UInt64 × RockDB :=
  if key = mempoolBytesKey then acc
  else match db.read .transaction key with
    | none => (acc.1, acc.2.remove .transaction key)
    | some val => (saturatingSub acc.1 (UInt64.ofNat val.length),
      (acc.2.remove .txToHash (Blake3.xof64 val).toList).remove .transaction key)

def removeTransactions [Blake3] (txKeys : List (List UInt8)) (db : RockDB) : Fallible RockDB := do
  let current ← currentBuffer db
  let (buffer, db') := txKeys.foldl (removeStep db) (current, db)
  return db'.put .transaction mempoolBytesKey (u64.enc buffer)

def pruneStep [Blake3] (wanted : List Hash) (acc : UInt64 × RockDB)
    (r : List UInt8 × List UInt8) : UInt64 × RockDB :=
  let hash := Blake3.xof64 r.2
  if hash ∈ wanted then (saturatingSub acc.1 (UInt64.ofNat r.2.length),
    (acc.2.remove .transaction r.1).remove .txToHash hash.toList)
  else acc

def removeTransactionsInBatch [Blake3] (batch : TransactionBatch) (db : RockDB) :
    Fallible RockDB := do
  let wanted := batch.transactions.map fun kind => Blake3.xof64 kind.serialize
  if wanted = [] then return db
  else do
    let current ← currentBuffer db
    let (buffer, db') := (records db).foldl (pruneStep wanted) (current, db)
    return db'.put .transaction mempoolBytesKey (u64.enc buffer)

end MemPool

end Remzar
