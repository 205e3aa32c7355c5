import Mathlib
import Remzar.Lib.Accrual
import Remzar.ConnGuard
import Remzar.Inflight

/-! The guards of last resort: token and byte budgets for each peer, each address and all
together, repeated requests, requests in flight, and the cooldown of peers that misbehave. -/
namespace Remzar
open Std Accrual

-- The clock counts its seconds in a signed 64-bit number.
def lastNanos : Nanos := 2^63*nanosPerSec-1

def u64Max : ℕ := 2^64-1

def i32Max : ℤ := 2^31-1

def clampI32 (n : ℤ) : Int32 := Int32.ofInt (max (-2^31) (min n i32Max))

def maxTrackedPeers : ℕ := 7500
def maxTrackedIps : ℕ := 7500

inductive LastResortDrop where
  | notAdmitted
  | peerRateLimited
  | ipRateLimited
  | peerInflightCap
  | globalInflightCap
  | duplicateRequest
  | peerByteBudgetExceeded
  | globalByteBudgetExceeded
  | peerCoolingDown
  | counterOverflow
  deriving DecidableEq, Repr

inductive LastResortDecision where
  | allow
  | drop (reason : LastResortDrop)
  deriving DecidableEq, Repr

inductive ActionClass where
  | version
  | blockTxGetBlock
  | blockTxGetBatch
  | blockTxGetTx
  | gossip
  | kad
  | identify
  deriving DecidableEq, Repr

structure LastResortActionRequest where
  now : Nanos
  peerId : PeerId
  admitted : Bool
  peerIp : Option IpAddr
  action : ActionClass
  costTokens : UInt32
  dupKey : Option UInt64

def mib : ℕ := 1024*1024

def consensusMaxBlockBytes : ℕ := if maxBlockSize = 0 then mib else maxBlockSize

structure LastResortConfig where
  requireAdmissionFor : List ActionClass := [.blockTxGetBlock, .blockTxGetBatch, .blockTxGetTx]
  peerBucketCapacity : UInt32 := 600
  peerRefillPerSec : UInt32 := 200
  enableIpBucket : Bool := true
  ipBucketCapacity : UInt32 := 6000
  ipRefillPerSec : UInt32 := 600
  maxInflightPerPeer : UInt32 := 64
  maxInflightGlobal : UInt32 := 2048
  dupWindow : Nanos := 100000000
  dupMaxEntriesPerPeer : ℕ := 1024
  peerBytesCapacity : UInt64 := .ofNat (max (consensusMaxBlockBytes*16) (16*mib))
  peerBytesRefillPerSec : UInt64 := .ofNat (max (consensusMaxBlockBytes*2) (2*mib))
  globalBytesCapacity : UInt64 := .ofNat (max (consensusMaxBlockBytes*16*8) (128*mib))
  globalBytesRefillPerSec : UInt64 := .ofNat (max (consensusMaxBlockBytes*2*8) (16*mib))
  badnessThreshold : Int32 := 100
  cooldown : Nanos := 120*nanosPerSec
  badnessDecayPerSec : Int32 := 5

/-! ### Buckets -/

def refillAddU64 (dt : Nanos) (perSec : ℕ) : ℕ :=
  if perSec = 0 then 0
  else
    let whole := min (dt/nanosPerSec*perSec) u64Max
    let frac := min (dt%nanosPerSec*perSec) u64Max/nanosPerSec
    min (whole+frac) u64Max

/-- A bucket whose numbers go up to `max`. -/
structure Bucket (max : ℕ) where
  tokens : ℕ
  cap : ℕ
  refillPerSec : ℕ
  last : Nanos
  tokens_le : tokens ≤ cap
  cap_le : cap ≤ max
  refillPerSec_le : refillPerSec ≤ max

abbrev Bucket32 := Bucket u32Max

abbrev Bucket64 := Bucket u64Max

namespace Bucket
variable {max : ℕ}

def refill (b : Bucket max) (now : Nanos) : Bucket max :=
  let add := min (refillAddU64 (now-b.last) b.refillPerSec) max
  { b with
    last := now
    tokens := min (min (b.tokens+add) max) b.cap
    tokens_le := Nat.min_le_right _ _ }

def tryTake (b : Bucket max) (now : Nanos) (cost : ℕ) : Bool × Bucket max :=
  let b := b.refill now
  if cost ≤ b.tokens then
    (true, { b with tokens := b.tokens-cost, tokens_le := (Nat.sub_le _ _).trans b.tokens_le })
  else (false, b)

end Bucket

def Bucket32.new (cap perSec : UInt32) (now : Nanos) : Bucket32 :=
  ⟨cap.toNat, cap.toNat, perSec.toNat, now, Nat.le_refl _, Nat.le_pred_of_lt cap.toNat_lt,
    Nat.le_pred_of_lt perSec.toNat_lt⟩

def Bucket64.new (cap perSec : UInt64) (now : Nanos) : Bucket64 :=
  ⟨cap.toNat, cap.toNat, perSec.toNat, now, Nat.le_refl _, Nat.le_pred_of_lt cap.toNat_lt,
    Nat.le_pred_of_lt perSec.toNat_lt⟩

/-! ### One peer -/

abbrev RecentKeys := List (UInt64 × Nanos)

namespace RecentKeys

def prune (q : RecentKeys) (now window : Nanos) : RecentKeys :=
  q.dropWhile fun entry => decide (window < now-entry.2)

def contains (q : RecentKeys) (key : UInt64) : Bool := q.any fun entry => entry.1 = key

def push (q : RecentKeys) (key : UInt64) (now : Nanos) (max : ℕ) : RecentKeys :=
  (q ++ [(key, now)]).drop (q.length+1-max)

end RecentKeys

structure PeerState where
  bucket : Bucket32
  bytes : Bucket64
  recent : RecentKeys
  badness : Int32
  lastDecay : Nanos
  cooldownUntil : Option Nanos

namespace PeerState

def new (cfg : LastResortConfig) (now : Nanos) : PeerState :=
  { bucket := .new cfg.peerBucketCapacity cfg.peerRefillPerSec now
    bytes := .new cfg.peerBytesCapacity cfg.peerBytesRefillPerSec now
    recent := []
    badness := 0
    lastDecay := now
    cooldownUntil := none }

def decayBadness (ps : PeerState) (cfg : LastResortConfig) (now : Nanos) : PeerState :=
  let dt := now-ps.lastDecay
  let ps := { ps with lastDecay := now }
  if cfg.badnessDecayPerSec ≤ 0 then ps
  else
    let dec := min (refillAddU64 dt cfg.badnessDecayPerSec.toInt.toNat : ℤ) i32Max
    { ps with badness := clampI32 (max (clampI32 (ps.badness.toInt-dec)).toInt 0) }

def addBadness (ps : PeerState) (cfg : LastResortConfig) (now : Nanos) (points : ℤ) : PeerState :=
  let ps := ps.decayBadness cfg now
  let ps := { ps with badness := clampI32 (ps.badness.toInt+points) }
  if cfg.badnessThreshold ≤ ps.badness then
    { ps with
      -- An end that the clock cannot reach leaves no cooldown at all.
      cooldownUntil := if now+cfg.cooldown ≤ lastNanos then some (now+cfg.cooldown) else none
      badness := cfg.badnessThreshold }
  else ps

def isCoolingDown (ps : PeerState) (cfg : LastResortConfig) (now : Nanos) : Bool × PeerState :=
  let ps := ps.decayBadness cfg now
  match ps.cooldownUntil with
  | some t => if now < t then (true, ps) else (false, { ps with cooldownUntil := none })
  | none => (false, ps)

end PeerState

/-! ### The guards -/

structure LastResortGuards where
  cfg : LastResortConfig
  peer : ExtTreeMap PeerId PeerState
  -- Keyed by the octets of the address, which tell addresses apart.
  ip : ExtTreeMap (List UInt8) Bucket32
  bytesGlobal : Bucket64
  inflight : InflightLimiter

inductive LastResortInflightDecision where
  | allow (permit : PeerId)
  | drop (reason : LastResortDrop)
  deriving DecidableEq, Repr

def IpAddr.octets : IpAddr → List UInt8
  | .v4 octets => octets.toList
  | .v6 octets => octets.toList

def ActionClass.isSyncRetrieval : ActionClass → Bool
  | .blockTxGetBlock => true
  | .blockTxGetBatch => true
  | .blockTxGetTx => true
  | _ => false

/-- A request that was seen a moment ago is refused, unless it asks for blocks. -/
def PeerState.suppress (ps : PeerState) (cfg : LastResortConfig) (now : Nanos)
    (action : ActionClass) : Option UInt64 → Bool × PeerState
  | none => (false, ps)
  | some key =>
    let ps := { ps with recent := ps.recent.prune now cfg.dupWindow }
    if ps.recent.contains key then
      if action.isSyncRetrieval then (false, ps) else (true, ps.addBadness cfg now 2)
    else (false, { ps with recent := ps.recent.push key now cfg.dupMaxEntriesPerPeer })

namespace LastResortGuards

def new (cfg : LastResortConfig) (now : Nanos) : LastResortGuards :=
  { cfg
    peer := ∅
    ip := ∅
    bytesGlobal := .new cfg.globalBytesCapacity cfg.globalBytesRefillPerSec now
    inflight := .new cfg.maxInflightPerPeer cfg.maxInflightGlobal }

def onPeerDisconnected (peer : PeerId) (g : LastResortGuards) : LastResortGuards :=
  { g with peer := g.peer.erase peer }

def boundMaps (g : LastResortGuards) : LastResortGuards :=
  { g with
    peer := if maxTrackedPeers < g.peer.size then ∅ else g.peer
    ip := if maxTrackedIps < g.ip.size then ∅ else g.ip }

def entry (g : LastResortGuards) (peer : PeerId) (now : Nanos) : PeerState :=
  g.peer[peer]?.getD (.new g.cfg now)

def keep (g : LastResortGuards) (peer : PeerId) (ps : PeerState) : LastResortGuards :=
  { g with peer := g.peer.insert peer ps }

def ipEntry (g : LastResortGuards) (ip : IpAddr) (now : Nanos) : Bucket32 :=
  g.ip[ip.octets]?.getD (.new g.cfg.ipBucketCapacity g.cfg.ipRefillPerSec now)

/-- The part of a check that draws on the budget of the address. -/
def checkIp (req : LastResortActionRequest) (cost : ℕ) (ps : PeerState) (g : LastResortGuards) :
    LastResortDecision × LastResortGuards :=
  match req.peerIp with
  | none => (.allow, g.keep req.peerId ps)
  | some ip =>
    if g.cfg.enableIpBucket then
      let (taken, b) := (g.ipEntry ip req.now).tryTake req.now cost
      let g := { g with ip := g.ip.insert ip.octets b }
      if taken then (.allow, g.keep req.peerId ps)
      else (.drop .ipRateLimited, g.keep req.peerId (ps.addBadness g.cfg req.now 2))
    else (.allow, g.keep req.peerId ps)

def checkAction (req : LastResortActionRequest) (g : LastResortGuards) :
    LastResortDecision × LastResortGuards :=
  let g := g.boundMaps
  if req.admitted = false ∧ req.action ∈ g.cfg.requireAdmissionFor then (.drop .notAdmitted, g)
  else
    let (cooling, ps) := (g.entry req.peerId req.now).isCoolingDown g.cfg req.now
    if cooling then (.drop .peerCoolingDown, g.keep req.peerId ps)
    else
      let (repeated, ps) := ps.suppress g.cfg req.now req.action req.dupKey
      if repeated then (.drop .duplicateRequest, g.keep req.peerId ps)
      else
        let cost := max req.costTokens.toNat 1
        let (taken, bucket) := ps.bucket.tryTake req.now cost
        let ps := { ps with bucket }
        if taken then g.checkIp req cost ps
        else (.drop .peerRateLimited, g.keep req.peerId (ps.addBadness g.cfg req.now 3))

def tryBeginInflight (now : Nanos) (peer : PeerId) (g : LastResortGuards) :
    LastResortInflightDecision × LastResortGuards :=
  let g := g.boundMaps
  let (cooling, ps) := (g.entry peer now).isCoolingDown g.cfg now
  if cooling then (.drop .peerCoolingDown, g.keep peer ps)
  else
    let (decision, inflight) := g.inflight.tryAcquire peer
    let g := { g with inflight }
    match decision with
    | .allow permit => (.allow permit, g.keep peer ps)
    | .drop .peerCap => (.drop .peerInflightCap, g.keep peer (ps.addBadness g.cfg now 4))
    | .drop .globalCap => (.drop .globalInflightCap, g.keep peer (ps.addBadness g.cfg now 1))

def checkBytes (now : Nanos) (peer : PeerId) (bytes : UInt64) (g : LastResortGuards) :
    LastResortDecision × LastResortGuards :=
  let g := g.boundMaps
  let (cooling, ps) := (g.entry peer now).isCoolingDown g.cfg now
  if cooling then (.drop .peerCoolingDown, g.keep peer ps)
  else
    let (taken, bucket) := ps.bytes.tryTake now bytes.toNat
    let ps := { ps with bytes := bucket }
    if taken then
      let (taken, bytesGlobal) := g.bytesGlobal.tryTake now bytes.toNat
      let g := { g with bytesGlobal }
      if taken then (.allow, g.keep peer ps)
      else (.drop .globalByteBudgetExceeded, g.keep peer (ps.addBadness g.cfg now 2))
    else (.drop .peerByteBudgetExceeded, g.keep peer (ps.addBadness g.cfg now 5))

def reportMisbehavior (now : Nanos) (peer : PeerId) (points : Int32) (g : LastResortGuards) :
    LastResortGuards :=
  let g := g.boundMaps
  g.keep peer ((g.entry peer now).addBadness g.cfg now (max points.toInt 1))

end LastResortGuards

/-! ### Runs -/

/-- A call of the guards, or the end of a request that was in flight. -/
inductive LastResortCall where
  | checkAction (req : LastResortActionRequest)
  | tryBeginInflight (now : Nanos) (peer : PeerId)
  | checkBytes (now : Nanos) (peer : PeerId) (bytes : UInt64)
  | reportMisbehavior (now : Nanos) (peer : PeerId) (points : Int32)
  | onPeerDisconnected (now : Nanos) (peer : PeerId)
  | permitDropped (now : Nanos) (permit : PeerId)

namespace LastResortCall

-- The calls without a time of their own take the time at which they are made.
def now : LastResortCall → Nanos
  | checkAction req => req.now
  | tryBeginInflight now _ => now
  | checkBytes now _ _ => now
  | reportMisbehavior now _ _ => now
  | onPeerDisconnected now _ => now
  | permitDropped now _ => now

end LastResortCall

def LastResortGuards.step (g : LastResortGuards) : LastResortCall → LastResortGuards
  | .checkAction req => (g.checkAction req).2
  | .tryBeginInflight now peer => (g.tryBeginInflight now peer).2
  | .checkBytes now peer bytes => (g.checkBytes now peer bytes).2
  | .reportMisbehavior now peer points => g.reportMisbehavior now peer points
  | .onPeerDisconnected _ peer => g.onPeerDisconnected peer
  | .permitDropped _ permit => { g with inflight := g.inflight.release permit }

end Remzar
