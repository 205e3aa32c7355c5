import Mathlib
import Remzar.Block

/-! Branch hydration: the hashes a node is missing, the requests it has out for them, and
the queue of those it may ask for next. Times are milliseconds of a monotonic clock. -/
namespace Remzar
open Std Fallible

/-- Hashes compared by their bytes. -/
def hashOrder (a b : Hash) : Ordering := compare a.toList b.toList

instance : TransCmp hashOrder where
  eq_swap {a b} := @OrientedCmp.eq_swap _ (compare (α := List UInt8)) _ a.toList b.toList
  isLE_trans h₁ h₂ := @TransCmp.isLE_trans _ (compare (α := List UInt8)) _ _ _ _ h₁ h₂

instance : LawfulEqCmp hashOrder where
  compare_self {a} := @ReflCmp.compare_self _ (compare (α := List UInt8)) _ a.toList
  eq_of_compare h := Subtype.ext (LawfulEqCmp.eq_of_compare h)

abbrev PeerId := List UInt8

instance PeerId.lawfulBEq : LawfulBEq PeerId := inferInstance

-- The network numbers its outbound requests upwards.
abbrev RequestId := ℕ
abbrev Instant := ℕ

-- Where fractions of a second matter, instants and durations are counted in nanoseconds.
abbrev Nanos := ℕ

def nanosPerSec : ℕ := 1000000000

structure HydrationConfig where
  maxRetriesPerHash : ℕ := 6
  retryCooldown : ℕ := 800
  maxTrackedHashes : ℕ := 4096
  autoChaseParent : Bool := true

inductive HydrationReason where
  | forkChoiceNeedMoreData
  | missingParent
  | explicit
  deriving DecidableEq

structure PendingHash where
  originPeer : PeerId
  sourceHeight : Option UInt64
  reason : HydrationReason
  context : String
  lastAttemptAt : Option Instant
  lastFailureAt : Option Instant
  retriesLeft : ℕ
  waitingChildren : List Hash
  inFlight : Bool
  exhausted : Bool
  deriving DecidableEq

namespace PendingHash

def new (originPeer : PeerId) (sourceHeight : Option UInt64) (reason : HydrationReason)
    (context : String) (cfg : HydrationConfig) : PendingHash :=
  { originPeer, sourceHeight, reason, context, lastAttemptAt := none, lastFailureAt := none,
    retriesLeft := cfg.maxRetriesPerHash, waitingChildren := [], inFlight := false,
    exhausted := false }

def canAttemptNow (p : PendingHash) (now : Instant) (cfg : HydrationConfig) : Bool :=
  if p.exhausted || p.inFlight || p.retriesLeft == 0 then false
  else match p.lastAttemptAt with
    | some last => cfg.retryCooldown ≤ now - last
    | none => true

/-- A failed request costs a retry. -/
def failed (p : PendingHash) (now : Instant) : PendingHash :=
  { p with
    inFlight := false
    lastFailureAt := some now
    retriesLeft := p.retriesLeft - 1
    exhausted := p.exhausted || p.retriesLeft - 1 == 0 }

/-- So does a block with another hash than the one asked for. -/
def mismatched (p : PendingHash) : PendingHash :=
  { p with
    inFlight := false
    retriesLeft := p.retriesLeft - 1
    exhausted := p.retriesLeft - 1 == 0 }

end PendingHash

inductive HydrationAdvance where
  | acceptedComplete (hash : Hash)
  | acceptedNeedsParent (hash missingParent : Hash)
  | acceptedUnblockedChildren (hash : Hash) (childrenUnblocked : List Hash)
  | ignored
  deriving DecidableEq

inductive HydrationFailure where
  | retryScheduled (hash : Hash) (retriesLeft : ℕ)
  | exhausted (hash : Hash)
  | unknownRequest
  deriving DecidableEq

structure Hydration where
  cfg : HydrationConfig
  pendingByHash : ExtTreeMap Hash PendingHash hashOrder
  inflightByRequest : ExtTreeMap RequestId Hash
  readyQueue : List Hash

namespace Hydration

def new (cfg : HydrationConfig) : Hydration := ⟨cfg, ∅, ∅, []⟩

def defaultMainnet : Hydration := new {}

def trackedLen (h : Hydration) : ℕ := h.pendingByHash.size

def inflightLen (h : Hydration) : ℕ := h.inflightByRequest.size

def enqueueOnce (hash : Hash) (h : Hydration) : Hydration :=
  if hash ∈ h.readyQueue then h else { h with readyQueue := h.readyQueue ++ [hash] }

def noteNeedMoreData (originPeer : PeerId) (missingHash : Hash) (sourceHeight : Option UInt64)
    (reason : HydrationReason) (context : String) (h : Hydration) : Hydration :=
  if h.cfg.maxTrackedHashes ≤ h.pendingByHash.size ∧ missingHash ∉ h.pendingByHash then h
  else match h.pendingByHash[missingHash]? with
    | some existing =>
      let h' := { h with
        pendingByHash := h.pendingByHash.insert missingHash
          { existing with
            originPeer := originPeer
            sourceHeight := existing.sourceHeight.or sourceHeight
            reason := reason
            context := context } }
      if !existing.inFlight && !existing.exhausted then enqueueOnce missingHash h' else h'
    | none =>
      enqueueOnce missingHash { h with
        pendingByHash := h.pendingByHash.insert missingHash
          (.new originPeer sourceHeight reason context h.cfg) }

def noteChildWaitingOnParent (parentHash childHash : Hash) (h : Hydration) : Hydration :=
  { h with
    pendingByHash := h.pendingByHash.modify parentHash fun parent =>
      { parent with waitingChildren := parent.waitingChildren.insert childHash } }

/-- One turn over the queue, as many hashes as it held at the start. -/
def scanQueue (now : Instant) : ℕ → Hydration → Option (PeerId × Hash) × Hydration
  | 0, h => (none, h)
  | turns+1, h =>
    match h.readyQueue with
    | [] => (none, h)
    | hash :: rest =>
      match h.pendingByHash[hash]? with
      | none => scanQueue now turns { h with readyQueue := rest }
      | some pending =>
        if pending.canAttemptNow now h.cfg then
          (some (pending.originPeer, hash), { h with readyQueue := rest })
        else if !pending.exhausted && 0 < pending.retriesLeft then
          scanQueue now turns { h with readyQueue := rest ++ [hash] }
        else scanQueue now turns { h with readyQueue := rest }

def nextRequest (now : Instant) (h : Hydration) : Option (PeerId × Hash) × Hydration :=
  scanQueue now h.readyQueue.length h

def markIssued (now : Instant) (requestId : RequestId) (hash : Hash) (h : Hydration) : Hydration :=
  match h.pendingByHash[hash]? with
  | none => h
  | some pending =>
    { h with
      pendingByHash := h.pendingByHash.insert hash
        { pending with inFlight := true, lastAttemptAt := some now }
      inflightByRequest := h.inflightByRequest.insert requestId hash }

def onHashRequestFailed (now : Instant) (hash : Hash) (h : Hydration) :
    HydrationFailure × Hydration :=
  match h.pendingByHash[hash]? with
  | none => (.unknownRequest, h)
  | some pending =>
    let pending := pending.failed now
    let h := { h with pendingByHash := h.pendingByHash.insert hash pending }
    if pending.exhausted then (.exhausted hash, h)
    else (.retryScheduled hash pending.retriesLeft, enqueueOnce hash h)

def onRequestFailed (now : Instant) (requestId : RequestId) (h : Hydration) :
    HydrationFailure × Hydration :=
  match h.inflightByRequest[requestId]? with
  | none => (.unknownRequest, h)
  | some hash =>
    onHashRequestFailed now hash
      { h with inflightByRequest := h.inflightByRequest.erase requestId }

-- The same body, for a peer that answers that it does not have the block.
def onNotFound (now : Instant) (requestId : RequestId) (h : Hydration) :
    HydrationFailure × Hydration :=
  onRequestFailed now requestId h

def parentIsGenesis (block : Block) : Prop :=
  block.metadata.index = 0 ∨ block.metadata.previousHash = zeroHash

instance (block : Block) : Decidable (parentIsGenesis block) := by
  unfold parentIsGenesis
  infer_instance

def parentMissing : String := "received block but parent meta still missing"

/-- An accepted block chases its parent where that is not stored, else it wakes the children
that waited for it. -/
def accept (block : Block) (pending : PendingHash) (hasParentMeta : Hash → Bool) (h : Hydration) :
    HydrationAdvance × Hydration :=
  let missingParent := block.metadata.previousHash
  if h.cfg.autoChaseParent ∧ ¬parentIsGenesis block ∧ ¬hasParentMeta missingParent then
    (.acceptedNeedsParent block.blockHash missingParent,
      noteChildWaitingOnParent missingParent block.blockHash
        (noteNeedMoreData pending.originPeer missingParent
          (if block.metadata.index = 0 then none else some (block.metadata.index-1))
          .missingParent parentMissing h))
  else if pending.waitingChildren = [] then (.acceptedComplete block.blockHash, h)
  else (.acceptedUnblockedChildren block.blockHash pending.waitingChildren,
    pending.waitingChildren.foldl (fun h child => enqueueOnce child h) h)

/-- `persistBlock` writes a store `σ` and `hasParentMeta` reads it. -/
def onBlockReceived {σ : Type} (requestId : RequestId) (block : Block)
    (persistBlock : Block → Fallible σ) (hasParentMeta : σ → Hash → Bool) (h : Hydration) :
    Fallible (HydrationAdvance × Option σ) × Hydration :=
  match h.inflightByRequest[requestId]? with
  | none => (.ok (.ignored, none), h)
  | some expectedHash =>
    let h := { h with inflightByRequest := h.inflightByRequest.erase requestId }
    match h.pendingByHash[expectedHash]? with
    | none => (.ok (.ignored, none), h)
    | some pending =>
      if block.blockHash ≠ expectedHash then
        let pending := pending.mismatched
        let h := { h with pendingByHash := h.pendingByHash.insert expectedHash pending }
        (.ok (.ignored, none), if pending.exhausted then h else enqueueOnce expectedHash h)
      else
        let h := { h with pendingByHash := h.pendingByHash.erase expectedHash }
        match persistBlock block with
        | .error e => (.error e, h)
        | .ok store =>
          let (advance, h) := accept block pending (hasParentMeta store) h
          (.ok (advance, some store), h)

def clearIfKnown (hash : Hash) (h : Hydration) : Hydration :=
  { h with
    pendingByHash := h.pendingByHash.erase hash
    readyQueue := h.readyQueue.filter (· ≠ hash) }

/-- The hashes asked of a peer that lose a retry and keep another, in some order. -/
def hashesToRequeue (peer : PeerId) (h : Hydration) : List Hash :=
  (h.pendingByHash.toList.filter fun e =>
    decide (e.2.originPeer = peer) && decide (e.2.retriesLeft - 1 ≠ 0)).map Prod.fst

def onPeerDisconnected (now : Instant) (peer : PeerId) (h : Hydration) : Hydration :=
  let pending := h.pendingByHash.map fun _ p => if p.originPeer = peer then p.failed now else p
  let requeued := (hashesToRequeue peer h).foldl (fun h hash => enqueueOnce hash h)
    { h with pendingByHash := pending }
  { requeued with
    inflightByRequest := h.inflightByRequest.filter fun _ hash =>
      ((pending[hash]?).map fun p => decide (p.originPeer ≠ peer)).getD false }

end Hydration

/-! ### Driven by the sync runtime -/

/-- The tracker and the number the network gives to the next block request. -/
structure HydrationDriver where
  hydration : Hydration
  nextRequestId : RequestId

namespace HydrationDriver

def maxHydrationRequestsPerTick : ℕ := 8

def driveRounds (now : Instant) (connected pqReady : PeerId → Bool) :
    ℕ → HydrationDriver → HydrationDriver
  | 0, d => d
  | rounds+1, d =>
    match d.hydration.nextRequest now with
    | (none, h) => { d with hydration := h }
    | (some (peer, hash), h) =>
      if connected peer && pqReady peer then
        driveRounds now connected pqReady rounds
          ⟨h.markIssued now d.nextRequestId hash, d.nextRequestId+1⟩
      else driveRounds now connected pqReady rounds { d with hydration := h }

def driveBranchHydrationRequests (now : Instant) (connected pqReady : PeerId → Bool)
    (d : HydrationDriver) : HydrationDriver :=
  driveRounds now connected pqReady maxHydrationRequestsPerTick d

end HydrationDriver

namespace Hydration

def parentMetadataMissing : String := "competing block parent metadata missing during sync"

/-- What a competing block leaves in the tracker; its block retries are queued elsewhere. -/
def queueBranchHydration (originPeer : PeerId) (block : Block) (h : Hydration) : Hydration :=
  if 0 < block.metadata.index ∧ block.metadata.previousHash ≠ zeroHash then
    noteChildWaitingOnParent block.metadata.previousHash block.blockHash
      (noteNeedMoreData originPeer block.metadata.previousHash (some (block.metadata.index-1))
        .missingParent parentMetadataMissing h)
  else h

def queueBranchHydrationByHash (originPeer : PeerId) (missingHash : Hash)
    (sourceHeight : Option UInt64) (reason : HydrationReason) (context : String) (h : Hydration) :
    Hydration :=
  noteNeedMoreData originPeer missingHash sourceHeight reason context h

/-- Whether the sync runtime counts hydration as under way. -/
def active (h : Hydration) : Bool := 0 < h.trackedLen || 0 < h.inflightLen

end Hydration
end Remzar
