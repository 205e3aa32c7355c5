import Mathlib
import Remzar.Helper
import Remzar.Lib.Buckets
import Remzar.Lib.Eviction
import Remzar.Lib.MapCodec
import Remzar.Lib.Runs

/-! The peer book: what the node remembers of its peers, and the file it keeps them in. -/
namespace Remzar
open Std Text Eviction Buckets

/-! ### The file -/

structure PeerEntryV1 where
  peerId : String
  addrs : List String
  score : ℤ
  lastSuccessUnix : Option UInt64
  lastFailureUnix : Option UInt64
  tags : List String
  deriving DecidableEq

structure PeerListV1 where
  version : UInt32
  updatedAtUnix : UInt64
  peers : List PeerEntryV1
  deriving DecidableEq

/-- The JSON text of a list, and what is read from a text: a list, or the addresses by peer id of
the older format. -/
class PeerListJson where
  toVecPretty : PeerListV1 → List UInt8
  fromSlice : List UInt8 → Option PeerListV1
  oldFromSlice : List UInt8 → Option (ExtTreeMap String String)

/-- Multiaddresses: their parts, their bytes and their text. -/
class AddrFormat (Addr : Type) where
  Protocol : Type
  isP2p : Protocol → Bool
  iter : Addr → List Protocol
  collect : List Protocol → Addr
  toVec : Addr → List UInt8
  text : Addr → String
  parse : String → Option Addr

/-- The text of a peer id; it is short whatever its key. -/
abbrev PeerText := { text : String // byteLen text ≤ 128 }

namespace PeerBook

def peerCap : ℕ := 512
def peerlistMaxFileBytes : ℕ := 4*1024*1024
def maxAddrsPerPeer : ℕ := 32
def maxMultiaddrBytes : ℕ := 256
def maxTagsPerPeer : ℕ := 16
def maxTagBytes : ℕ := 64

def nowUnix (clock : Int64) : UInt64 := if clock < 0 then 0 else clock.toUInt64

/-! ### Addresses -/

section Addresses
variable {Addr : Type} [AddrFormat Addr]
open AddrFormat

def isMultiaddrReasonable (addr : Addr) : Bool := (toVec addr).length ≤ maxMultiaddrBytes

/-- The address without a peer id at its end. -/
def splitMultiaddrBase (addr : Addr) : Addr :=
  match (iter addr).getLast? with
  | some p => if isP2p p then collect (iter addr).dropLast else addr
  | none => addr

def kadReadyStep (acc : List Addr × List String) (a : Addr) : List Addr × List String :=
  if isMultiaddrReasonable a = false then acc
  else
    let base := splitMultiaddrBase a
    if isMultiaddrReasonable base = false then acc
    else if (iter base).isEmpty then acc
    else if text base ∈ acc.2 then acc
    else (acc.1 ++ [base], text base :: acc.2)

def kadReadyAddrs (addrs : List Addr) : List Addr := (addrs.foldl kadReadyStep ([], [])).1

def stripTrailingP2p (a : Addr) : Addr := (kadReadyAddrs [a]).head?.getD a

end Addresses

/-! ### Entries -/

structure Entry (Addr : Type) where
  addrs : Finset Addr
  score : ℤ
  lastSuccessUnix : Option UInt64
  lastFailureUnix : Option UInt64
  tags : Finset String

/-- `PeerEntry::default`. -/
def Entry.default {Addr : Type} : Entry Addr := ⟨∅, 0, none, none, ∅⟩

def isSticky {Addr : Type} (e : Entry Addr) : Bool :=
  "seed" ∈ e.tags || "stable" ∈ e.tags || "static" ∈ e.tags

/-- `i32::saturating_add`. -/
def saturatingAddI32 (a b : ℤ) : ℤ := max (-2^31) (min (2^31-1) (a+b))

end PeerBook

/-- The peers by their ids. -/
abbrev PeerBook (Addr : Type) := ExtTreeMap String (PeerBook.Entry Addr)

namespace PeerBook
variable {Addr : Type} [LinearOrder Addr] [AddrFormat Addr]

/-- An order in which the hash map of peers shows them. -/
abbrev Order (Addr : Type) := IterationOrder (String × Entry Addr)

/-! ### The cap -/

-- Oldest success first, then lowest score; the sort is stable.
def worseOrEqual (a b : String × Entry Addr) : Bool :=
  let asu := a.2.lastSuccessUnix.getD 0
  let bsu := b.2.lastSuccessUnix.getD 0
  asu < bsu || (asu = bsu && a.2.score ≤ b.2.score)

/-- Every peer with whether it is sticky, worst first. -/
def rows (order : Order Addr) (book : PeerBook Addr) : List (String × Bool) :=
  ((order.arrange book.toList).mergeSort worseOrEqual).map fun r => (r.1, isSticky r.2)

def enforceCap (order : Order Addr) (book : PeerBook Addr) : PeerBook Addr :=
  if book.size ≤ peerCap then book
  else removeAll (condemned book.size peerCap id (rows order book)) book

/-! ### Operations -/

def addAddrs : List Addr → Finset Addr → Finset Addr
  | [], addrs => addrs
  | a :: as, addrs =>
    if maxAddrsPerPeer ≤ addrs.card then addrs
    else
      let base := stripTrailingP2p a
      addAddrs as (if isMultiaddrReasonable base then insert base addrs else addrs)

def upsertEntry (clock : Int64) (addrs : List Addr) (markSuccess : Bool) (e : Entry Addr) :
    Entry Addr :=
  let e := { e with addrs := addAddrs addrs e.addrs }
  if markSuccess then
    { e with
      score := min (saturatingAddI32 e.score 10) 120
      lastSuccessUnix := some (nowUnix clock) }
  else { e with score := min (saturatingAddI32 e.score 5) 120 }

def upsert (order : Order Addr) (clock : Int64) (peerId : PeerText) (addrs : List Addr)
    (markSuccess : Bool) (book : PeerBook Addr) : PeerBook Addr :=
  let entry := book[peerId.1]?.getD Entry.default
  enforceCap order (book.insert peerId.1 (upsertEntry clock addrs markSuccess entry))

def observeFailure (clock : Int64) (peerId : PeerText) (book : PeerBook Addr) : PeerBook Addr :=
  match book[peerId.1]? with
  | some e => book.insert peerId.1
      { e with
        lastFailureUnix := some (nowUnix clock)
        score := max (saturatingAddI32 e.score (-5)) (-120) }
  | none => book

-- The cap is not enforced here.
def addTag (peerId : PeerText) (tag : String) (book : PeerBook Addr) : PeerBook Addr :=
  if maxTagBytes < byteLen tag then book
  else
    let e := book[peerId.1]?.getD Entry.default
    if maxTagsPerPeer ≤ e.tags.card then book.insert peerId.1 e
    else book.insert peerId.1 { e with tags := insert tag e.tags }

def removeTag (peerId : PeerText) (tag : String) (book : PeerBook Addr) : PeerBook Addr :=
  match book[peerId.1]? with
  | some e => book.insert peerId.1 { e with tags := e.tags.erase tag }
  | none => book

/-! ### Saving and loading -/

def writeEntry (peerId : String) (e : Entry Addr) : PeerEntryV1 where
  peerId := peerId
  addrs := ((e.addrs.sort.filter fun a => isMultiaddrReasonable a).take maxAddrsPerPeer).map
    AddrFormat.text
  score := e.score
  lastSuccessUnix := e.lastSuccessUnix
  lastFailureUnix := e.lastFailureUnix
  tags := (e.tags.sort.filter fun t => byteLen t ≤ maxTagBytes).take maxTagsPerPeer

/-- The list that `save_atomic` writes. -/
def savedList (order : Order Addr) (clock : Int64) (book : PeerBook Addr) : PeerListV1 where
  version := 1
  updatedAtUnix := nowUnix clock
  peers := ((order.arrange book.toList).take peerCap).map fun r => writeEntry r.1 r.2

def readAddr (s : String) : Option Addr :=
  if maxMultiaddrBytes*4 < byteLen s then none
  else (AddrFormat.parse s).filter isMultiaddrReasonable

def readEntry (e : PeerEntryV1) : Option (String × Entry Addr) :=
  if 128 < byteLen e.peerId then none
  else some (e.peerId, {
    addrs := ((e.addrs.take maxAddrsPerPeer).filterMap readAddr).toFinset
    score := e.score
    lastSuccessUnix := e.lastSuccessUnix
    lastFailureUnix := e.lastFailureUnix
    tags := ((e.tags.filter fun t => byteLen t ≤ maxTagBytes).take maxTagsPerPeer).toFinset })

-- A later entry of one id replaces an earlier one.
def loadList (order : Order Addr) (file : PeerListV1) : PeerBook Addr :=
  enforceCap order (ExtTreeMap.ofList (file.peers.filterMap readEntry))

variable [PeerListJson]

/-- `try_load_new` on the bytes of the file; every failure is one. -/
def tryLoadNew (order : Order Addr) (bytes : List UInt8) : Option (PeerBook Addr) := do
  guard (bytes.length ≤ peerlistMaxFileBytes)
  let file ← PeerListJson.fromSlice bytes
  guard (file.version = 1)
  return loadList order file

def migrateEntry (peerId addr : String) : Option (String × Entry Addr) :=
  if 128 < byteLen peerId then none
  else (readAddr addr).map fun ma => (peerId, ⟨{ma}, 10, none, none, ∅⟩)

/-- `try_migrate_old`. -/
def tryMigrateOld (order : Order Addr) (bytes : List UInt8) : Option (PeerBook Addr) := do
  guard (bytes.length ≤ peerlistMaxFileBytes)
  let old ← PeerListJson.oldFromSlice bytes
  return enforceCap order (ExtTreeMap.ofList (old.toList.filterMap fun r => migrateEntry r.1 r.2))

/-! ### Runs -/

/-- The operations on a book, with what the clock shows and the hash map's orders. -/
inductive Op (Addr : Type) where
  | upsert (order : Order Addr) (clock : Int64) (peerId : PeerText) (addrs : List Addr)
      (markSuccess : Bool)
  | observeFailure (clock : Int64) (peerId : PeerText)
  | addTag (peerId : PeerText) (tag : String)
  | removeTag (peerId : PeerText) (tag : String)
  | saveLoad (saving loading : Order Addr) (clock : Int64)

def savedBytes (order : Order Addr) (clock : Int64) (book : PeerBook Addr) : List UInt8 :=
  PeerListJson.toVecPretty (savedList order clock book)

/-- A book that cannot be read back is left as it was. -/
def step (book : PeerBook Addr) : Op Addr → PeerBook Addr
  | .upsert order clock peerId addrs markSuccess =>
    upsert order clock peerId addrs markSuccess book
  | .observeFailure clock peerId => observeFailure clock peerId book
  | .addTag peerId tag => addTag peerId tag book
  | .removeTag peerId tag => removeTag peerId tag book
  | .saveLoad saving loading clock =>
    (tryLoadNew loading (savedBytes saving clock book)).getD book

/-- The books a run may start from. -/
inductive Opens : PeerBook Addr → Prop
  | fresh : Opens ∅
  | loaded {book : PeerBook Addr} (order : Order Addr) (bytes : List UInt8) :
    tryLoadNew order bytes = some book → Opens book

end PeerBook

end Remzar
