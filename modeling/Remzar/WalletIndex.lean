import Mathlib
import Remzar.Invoices
import Remzar.SendFile
import Remzar.Lib.Filed
import Remzar.Lib.Effects

/-! The private wallet index: one-time wallets under the wallet that owns them, kept in a file that
is read, changed and written as a whole. -/
namespace Remzar
open Std Fallible Text Effects

structure PrivateWalletIndexEntry where
  version : UInt16
  ownerWallet : String
  oneTimeWallet : String
  invoice : String
  walletFileName : String
  createdUnixSecs : UInt64
  indexedUnixSecs : UInt64
  label : Option String
  context : Option String
  deriving DecidableEq

abbrev OwnedEntries := ExtTreeMap String (List PrivateWalletIndexEntry) byteOrder

structure PrivateWalletIndexFile where
  kind : String
  version : UInt16
  createdUnixSecs : UInt64
  updatedUnixSecs : UInt64
  entriesByOwner : OwnedEntries

structure PrivateWalletIndexAddRequest where
  ownerWallet : String
  oneTimeWallet : String
  invoice : Option String
  walletFileName : Option String
  createdUnixSecs : Option UInt64
  label : Option String
  context : Option String
  requireOneTimeWalletFile : Bool

structure PrivateWalletOwnerLookup where
  ownerWallet : String
  entry : PrivateWalletIndexEntry
  deriving DecidableEq

/-- How the replacement of a file turns out: everything before the new file takes the place of the
old one, that step, the way back from its failure, and the removal of the old file. -/
structure Replacement where
  prepared : Fallible Unit
  renamed : Fallible Unit
  restored : Bool
  cleaned : Fallible Unit

/-- What a call finds outside the index: what the clock reads each time it is asked, how directories
and files turn out, and whether a fault is injected before or after the work. -/
structure IndexWorld where
  faultPre : Fallible Unit
  directories : Fallible Unit
  walletFile : Fallible Unit
  created : Int64
  indexed : Int64
  directory : Except IoFailure Unit
  opened : Except IoFailure Unit
  empty : Int64
  updated : Int64
  saveDirectories : Fallible Unit
  replacement : Replacement
  faultPost : Fallible Unit

namespace PrivateWI

def privateWalletIndexKind : String := "remzar_private_wallet_index"
def maxPrivateReceiveLabelLen : ℕ := 96
def maxPrivateReceiveContextLen : ℕ := 256
def maxPrivateIndexOwners : ℕ := 100000
def maxPrivateIndexEntriesPerOwner : ℕ := 100000
def maxPrivateIndexTotalEntries : ℕ := 1000000
def maxPrivateIndexJsonBytes : ℕ := 128*1024*1024

def canonicalWallet (wallet : String) : Fallible String :=
  mapErr (fun e => validationErr
    s!"Invalid Remzar wallet address for private wallet index: {e.display}")
    (canonWalletIdChecked wallet)

/-! ### Labels -/

/-- A trimmed text within a bound, without control characters. -/
def validateOptionalText (field : String) (max : ℕ) (text : String) : Fallible String := do
  let text := trim text
  rejectIf (text.isEmpty)
    (validationErr s!"Private wallet index {field} cannot be empty when provided")
  rejectIf (max < byteLen text)
    (validationErr s!"Private wallet index {field} too long: {byteLen text} > {max}")
  rejectIf ((utf8 text).any isAsciiControl)
    (validationErr s!"Private wallet index {field} contains control characters")
  return text

def validateOptionalLabel : String → Fallible String :=
  validateOptionalText "label" maxPrivateReceiveLabelLen

def validateOptionalContext : String → Fallible String :=
  validateOptionalText "context" maxPrivateReceiveContextLen

def validatePresent (validate : String → Fallible String) : Option String → Fallible (Option String)
  | none => .ok none
  | some text => do
    let text ← validate text
    return some text

/-! ### Entries -/

def validateEntry (entry : PrivateWalletIndexEntry) : Fallible Unit := do
  rejectIf (entry.version ≠ privateReceiveVersion) (validationErr (
    s!"Private wallet index entry version mismatch: expected {privateReceiveVersion}, " ++
      s!"got {entry.version}"))
  let owner ← canonicalWallet entry.ownerWallet
  let oneTime ← canonicalWallet entry.oneTimeWallet
  rejectIf (owner = oneTime) (validationErr
    "Private wallet index entry owner and one-time wallet cannot be the same")
  let parsed ← PrivateRI.parseInvoiceOrAddress entry.invoice
  rejectIf (parsed.oneTimeWallet ≠ oneTime) (validationErr
    "Private wallet index entry invoice does not match one-time wallet")
  rejectIf (parsed.canonicalInvoice ≠ entry.invoice)
    (validationErr "Private wallet index entry invoice is not canonical")
  let expectedWalletFileName := PrivateRW.walletFileName oneTime
  rejectIf (entry.walletFileName ≠ expectedWalletFileName) (validationErr (
    "Private wallet index entry wallet_file_name mismatch: " ++
      s!"expected '{expectedWalletFileName}', got '{entry.walletFileName}'"))
  rejectIf (entry.createdUnixSecs = 0)
    (validationErr "Private wallet index entry created_unix_secs cannot be zero")
  rejectIf (entry.indexedUnixSecs = 0)
    (validationErr "Private wallet index entry indexed_unix_secs cannot be zero")
  let _ ← validatePresent validateOptionalLabel entry.label
  let _ ← validatePresent validateOptionalContext entry.context

def buildInvoice (oneTimeWallet : String) : Option String → Fallible String
  | some invoiceInput => do
    let parsed ← PrivateRI.parseInvoiceOrAddress invoiceInput
    rejectIf (parsed.oneTimeWallet ≠ oneTimeWallet) (validationErr
      "Private wallet index request invoice does not match one-time wallet")
    return parsed.canonicalInvoice
  | none => do
    let parsed ← PrivateRI.parseInvoiceOrAddress oneTimeWallet
    return parsed.canonicalInvoice

def buildWalletFileName (oneTimeWallet : String) : Option String → Fallible String
  | some fileName => do
    let expected := PrivateRW.walletFileName oneTimeWallet
    rejectIf (fileName ≠ expected) (validationErr (
      "Private wallet index request wallet_file_name mismatch: " ++
        s!"expected '{expected}', got '{fileName}'"))
    return fileName
  | none => .ok (PrivateRW.walletFileName oneTimeWallet)

def buildCreated (clock : Int64) : Option UInt64 → Fallible UInt64
  | some v => do
    rejectIf (v = 0)
      (validationErr "Private wallet index request created_unix_secs cannot be zero")
    return v
  | none => nowUnixSecsRuntime clock

/-- `Path::join` of a relative name. -/
def joinPath (dir : List UInt8) (name : String) : List UInt8 := dir ++ 47 :: utf8 name

def buildEntry (walletsPath : List UInt8) (world : IndexWorld)
    (request : PrivateWalletIndexAddRequest) : Fallible PrivateWalletIndexEntry := do
  let ownerWallet ← canonicalWallet request.ownerWallet
  let oneTimeWallet ← canonicalWallet request.oneTimeWallet
  rejectIf (ownerWallet = oneTimeWallet)
    (validationErr "Private wallet index owner and one-time wallet cannot be the same")
  let invoice ← buildInvoice oneTimeWallet request.invoice
  let walletFileName ← buildWalletFileName oneTimeWallet request.walletFileName
  let createdUnixSecs ← buildCreated world.created request.createdUnixSecs
  let indexedUnixSecs ← nowUnixSecsRuntime world.indexed
  let label ← validatePresent validateOptionalLabel request.label
  let context ← validatePresent validateOptionalContext request.context
  let entry : PrivateWalletIndexEntry :=
    ⟨privateReceiveVersion, ownerWallet, oneTimeWallet, invoice, walletFileName, createdUnixSecs,
      indexedUnixSecs, label, context⟩
  let expectedFileName ← okOr ((fileName (joinPath walletsPath
      (PrivateRW.walletFileName entry.oneTimeWallet))).bind fromUtf8)
    (validationErr "Failed to compute private receive wallet file name")
  rejectIf (expectedFileName ≠ entry.walletFileName)
    (validationErr "Computed private receive wallet file name mismatch")
  validateEntry entry
  return entry

/-! ### The file -/

/-- One entry of an owner, after the wallets seen before. -/
def validateOwnedEntry (canonicalOwner : String) (seen : List String)
    (entry : PrivateWalletIndexEntry) : Fallible (List String) := do
  validateEntry entry
  rejectIf (entry.ownerWallet ≠ canonicalOwner) (validationErr
    "Private wallet index entry owner_wallet does not match owner map key")
  rejectIf (entry.oneTimeWallet ∈ seen) (validationErr
    s!"Duplicate one-time wallet in private wallet index: {entry.oneTimeWallet}")
  return entry.oneTimeWallet :: seen

/-- The wallets of one owner, after the number and the wallets of the owners before. -/
def validateOwnerEntries (acc : ℕ × List String)
    (owned : String × List PrivateWalletIndexEntry) : Fallible (ℕ × List String) := do
  let (ownerKey, entries) := owned
  let canonicalOwner ← canonicalWallet ownerKey
  rejectIf (ownerKey ≠ canonicalOwner)
    (validationErr "Private wallet index owner key is not canonical")
  rejectIf (maxPrivateIndexEntriesPerOwner < entries.length) (validationErr (
    s!"Private wallet index entries for owner {ownerKey} too large: {entries.length} > " ++
      s!"{maxPrivateIndexEntriesPerOwner}"))
  let totalEntries := acc.1+entries.length
  rejectIf (2^64 ≤ totalEntries)
    (validationErr "Overflow while counting private wallet index entries")
  rejectIf (maxPrivateIndexTotalEntries < totalEntries) (validationErr (
    s!"Private wallet index total entries too large: {totalEntries} > " ++
      s!"{maxPrivateIndexTotalEntries}"))
  let seen ← entries.foldlM (validateOwnedEntry canonicalOwner) acc.2
  return (totalEntries, seen)

def validateIndexFile (index : PrivateWalletIndexFile) : Fallible Unit := do
  rejectIf (index.kind ≠ privateWalletIndexKind) (validationErr
    s!"Invalid private wallet index kind '{index.kind}'; expected '{privateWalletIndexKind}'")
  rejectIf (index.version ≠ privateReceiveVersion) (validationErr (
    s!"Private wallet index version mismatch: expected {privateReceiveVersion}, " ++
      s!"got {index.version}"))
  rejectIf (index.createdUnixSecs = 0)
    (validationErr "Private wallet index created_unix_secs cannot be zero")
  rejectIf (index.updatedUnixSecs = 0)
    (validationErr "Private wallet index updated_unix_secs cannot be zero")
  rejectIf (maxPrivateIndexOwners < index.entriesByOwner.size) (validationErr (
    s!"Private wallet index owner count too large: {index.entriesByOwner.size} > " ++
      s!"{maxPrivateIndexOwners}"))
  let _ ← index.entriesByOwner.toList.foldlM validateOwnerEntries (0, [])

def entrySortCmp (a b : PrivateWalletIndexEntry) : Ordering :=
  (compare a.createdUnixSecs b.createdUnixSecs).then
    ((byteOrder a.ownerWallet b.ownerWallet).then (byteOrder a.oneTimeWallet b.oneTimeWallet))

def sortEntries (entries : List PrivateWalletIndexEntry) : List PrivateWalletIndexEntry :=
  entries.insertionSort fun a b => (entrySortCmp a b).isLE

/-- `Vec::dedup_by`: of entries next to each other for one wallet the first stays. -/
def dedupEntries (entries : List PrivateWalletIndexEntry) : List PrivateWalletIndexEntry :=
  entries.destutter fun a b => a.oneTimeWallet ≠ b.oneTimeWallet

def canonicalizeEntry (entry : PrivateWalletIndexEntry) : Fallible PrivateWalletIndexEntry := do
  let ownerWallet ← canonicalWallet entry.ownerWallet
  let oneTimeWallet ← canonicalWallet entry.oneTimeWallet
  let parsed ← PrivateRI.parseInvoiceOrAddress entry.invoice
  let walletFileName := PrivateRW.walletFileName oneTimeWallet
  let label ← validatePresent validateOptionalLabel entry.label
  let context ← validatePresent validateOptionalContext entry.context
  let entry := { entry with
    ownerWallet, oneTimeWallet, invoice := parsed.canonicalInvoice, walletFileName, label, context }
  validateEntry entry
  return entry

/-- One more entry, canonical and with its owner's. -/
def refileEntry (rebuilt : OwnedEntries) (entry : PrivateWalletIndexEntry) :
    Fallible OwnedEntries := do
  let entry ← canonicalizeEntry entry
  return Buckets.push entry.ownerWallet entry rebuilt

def canonicalizeIndexInPlace (index : PrivateWalletIndexFile) :
    Fallible PrivateWalletIndexFile := do
  let rebuilt ← index.entriesByOwner.toList.foldlM
    (fun rebuilt owned => owned.2.foldlM refileEntry rebuilt) (∅ : OwnedEntries)
  return { index with
    entriesByOwner := rebuilt.map fun _ entries => dedupEntries (sortEntries entries) }

def newEmptyIndex (clock : Int64) : Fallible PrivateWalletIndexFile := do
  let now ← nowUnixSecsRuntime clock
  let index : PrivateWalletIndexFile := ⟨privateWalletIndexKind, privateReceiveVersion, now, now, ∅⟩
  validateIndexFile index
  return index

/-- The first entry for a wallet, in the order of the owners. -/
def findEntry (index : PrivateWalletIndexFile) (oneTimeWallet : String) :
    Option PrivateWalletOwnerLookup :=
  index.entriesByOwner.toList.findSome? fun (owner, entries) =>
    (entries.find? fun entry => entry.oneTimeWallet = oneTimeWallet).map (⟨owner, ·⟩)

def findOwnerInIndex (index : PrivateWalletIndexFile) (oneTimeWallet : String) :
    Fallible (Option String) := do
  let oneTimeWallet ← canonicalWallet oneTimeWallet
  return (findEntry index oneTimeWallet).map PrivateWalletOwnerLookup.ownerWallet

/-- The entries of an owner with this one in the place of another for its wallet. -/
def putEntry (entry : PrivateWalletIndexEntry) (m : OwnedEntries) : OwnedEntries :=
  let others := (Buckets.bucket m entry.ownerWallet).filter fun existing =>
    existing.oneTimeWallet ≠ entry.oneTimeWallet
  m.insert entry.ownerWallet (sortEntries (others ++ [entry]))

def insertOrReplaceEntry (index : PrivateWalletIndexFile) (entry : PrivateWalletIndexEntry) :
    Fallible PrivateWalletIndexFile := do
  validateEntry entry
  let existingOwner ← findOwnerInIndex index entry.oneTimeWallet
  rejectIf (existingOwner.any fun owner => owner ≠ entry.ownerWallet) (validationErr
    s!"One-time wallet {entry.oneTimeWallet} is already indexed under a different owner")
  let index ← canonicalizeIndexInPlace
    { index with entriesByOwner := putEntry entry index.entriesByOwner }
  validateIndexFile index
  return index

/-! ### Calls -/

abbrev Stored := Option PrivateWalletIndexFile

/-- The new file in the place of the old one. The old file is gone for good when the new one does
not get there and the way back fails; and a failure after that step leaves the new file. -/
def atomicReplacePrivateFile (replacement : Replacement) (index : PrivateWalletIndexFile) :
    EStateM ErrorDetection Stored Unit := fun stored =>
  match replacement.prepared, replacement.renamed with
  | .error e, _ => .error e stored
  | .ok _, .error e => .error e (if replacement.restored then stored else none)
  | .ok _, .ok _ =>
    match (if stored.isSome then replacement.cleaned else .ok ()) with
    | .ok _ => .ok () (some index)
    | .error e => .error e (some index)

section Calls

-- How long the JSON text of an index is. The text itself is read back as it was written.
variable (jsonLen : PrivateWalletIndexFile → ℕ)

def loadIndex (world : IndexWorld) (stored : Stored) : Fallible PrivateWalletIndexFile := do
  ioErr "Failed to initialize Remzar directories: " world.directory
  let index ← okOr stored (.notFound "Private wallet index not found")
  ioErr "Failed to read private wallet index: " world.opened
  rejectIf (maxPrivateIndexJsonBytes < jsonLen index) (validationErr (
    s!"Private wallet index JSON too large: {jsonLen index} > {maxPrivateIndexJsonBytes} bytes"))
  let index ← canonicalizeIndexInPlace index
  validateIndexFile index
  return index

def loadOrNew (world : IndexWorld) (stored : Stored) : Fallible PrivateWalletIndexFile :=
  match loadIndex jsonLen world stored with
  | .ok index => .ok index
  | .error (.notFound _) => newEmptyIndex world.empty
  | .error e => .error e

def saveIndex (world : IndexWorld) (index : PrivateWalletIndexFile) :
    EStateM ErrorDetection Stored Unit := do
  lift world.saveDirectories
  let index ← lift (canonicalizeIndexInPlace index)
  lift (validateIndexFile index)
  lift (rejectIf (maxPrivateIndexJsonBytes < jsonLen index) (validationErr (
    s!"Private wallet index JSON too large to save: {jsonLen index} > " ++
      s!"{maxPrivateIndexJsonBytes} bytes")))
  atomicReplacePrivateFile world.replacement index

/-- The index a changed one is saved as. -/
def stampIndex (world : IndexWorld) (index : PrivateWalletIndexFile) :
    Fallible PrivateWalletIndexFile := do
  let updated ← nowUnixSecsRuntime world.updated
  let index := { index with updatedUnixSecs := updated }
  validateIndexFile index
  return index

def addEntry (walletsPath : List UInt8) (world : IndexWorld)
    (request : PrivateWalletIndexAddRequest) :
    EStateM ErrorDetection Stored PrivateWalletIndexEntry := do
  lift world.faultPre
  lift world.directories
  let entry ← lift (buildEntry walletsPath world request)
  lift (validateEntry entry)
  lift (if request.requireOneTimeWalletFile then world.walletFile else .ok ())
  let stored ← get
  let index ← lift (loadOrNew jsonLen world stored)
  let index ← lift (insertOrReplaceEntry index entry)
  let index ← lift (stampIndex world index)
  saveIndex jsonLen world index
  lift world.faultPost
  return entry

/-- One owner in the search for a wallet to be removed: an owner left without a wallet goes, and the
search ends with the wallet. -/
def removeStep (oneTimeWallet : String)
    (acc : OwnedEntries × Option PrivateWalletIndexEntry) (owner : String) :
    OwnedEntries × Option PrivateWalletIndexEntry :=
  match acc with
  | (m, some removed) => (m, some removed)
  | (m, none) =>
    let entries := Buckets.bucket m owner
    let removed := entries.find? fun entry => entry.oneTimeWallet = oneTimeWallet
    let left := entries.eraseP fun entry => entry.oneTimeWallet = oneTimeWallet
    (if left = [] then m.erase owner else m.insert owner left, removed)

def removeOneTimeWallet (world : IndexWorld) (oneTimeWallet : String) :
    EStateM ErrorDetection Stored (Option PrivateWalletIndexEntry) := do
  lift world.faultPre
  let oneTimeWallet ← lift (canonicalWallet oneTimeWallet)
  let stored ← get
  let index ← lift (loadOrNew jsonLen world stored)
  let (entriesByOwner, removed) := index.entriesByOwner.keys.foldl (removeStep oneTimeWallet)
    (index.entriesByOwner, none)
  if removed.isSome then do
    let index ← lift (stampIndex world { index with entriesByOwner })
    saveIndex jsonLen world index
  lift world.faultPost
  return removed

def lookupEntry (world : IndexWorld) (oneTimeWallet : String) (stored : Stored) :
    Fallible (Option PrivateWalletOwnerLookup) := do
  let oneTimeWallet ← canonicalWallet oneTimeWallet
  let index ← loadOrNew jsonLen world stored
  return findEntry index oneTimeWallet

/-! ### Rebuilding -/

def recordRequest (record : PrivateReceiveWalletRecord) (requireOneTimeWalletFile : Bool) :
    PrivateWalletIndexAddRequest :=
  { ownerWallet := record.ownerWallet
    oneTimeWallet := record.oneTimeWallet
    invoice := some record.invoice
    walletFileName := some record.walletFileName
    createdUnixSecs := some record.createdUnixSecs
    label := none
    context := some "rebuilt_from_private_receive_record"
    requireOneTimeWalletFile }

/-- A record file of the directory as it is found. Reading and decoding it may fail. -/
structure RecordFile where
  record : Fallible PrivateReceiveWalletRecord
  world : IndexWorld

/-- The entry made of a record file. -/
def recordEntry (walletsPath : List UInt8) (requireOneTimeWalletFile : Bool) (file : RecordFile) :
    Fallible PrivateWalletIndexEntry := do
  let record ← file.record
  PrivateRW.validateRecord record
  let entry ← buildEntry walletsPath file.world (recordRequest record requireOneTimeWalletFile)
  (if requireOneTimeWalletFile then file.world.walletFile else .ok ())
  return entry

def rebuildStep (walletsPath : List UInt8) (requireOneTimeWalletFile : Bool)
    (index : PrivateWalletIndexFile) (file : RecordFile) : Fallible PrivateWalletIndexFile := do
  let entry ← recordEntry walletsPath requireOneTimeWalletFile file
  insertOrReplaceEntry index entry

def rebuildFromPrivateReceiveRecords (walletsPath : List UInt8) (world : IndexWorld)
    (requireOneTimeWalletFile : Bool) (files : List RecordFile) :
    EStateM ErrorDetection Stored PrivateWalletIndexFile := do
  lift world.faultPre
  lift world.directories
  let index ← lift (newEmptyIndex world.empty)
  let index ← lift (files.foldlM (rebuildStep walletsPath requireOneTimeWalletFile) index)
  let index ← lift (stampIndex world index)
  saveIndex jsonLen world index
  lift world.faultPost
  return index

end Calls
end PrivateWI
end Remzar
