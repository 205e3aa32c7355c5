import Mathlib
import Remzar.SyncEvents

/-! Connections: the guard that counts them for each peer and admits peers, the registry of
the wallets peers have announced, and the runtime that hears of every open and close. -/
namespace Remzar
open Std Fallible Text

/-! ### Addresses -/

inductive IpAddr where
  | v4 (octets : Vector UInt8 4)
  | v6 (octets : Vector UInt8 16)
  deriving DecidableEq

/-- A part of a multiaddress, as far as it names a host. -/
inductive Protocol where
  | ip4 (octets : Vector UInt8 4)
  | ip6 (octets : Vector UInt8 16)
  | other

abbrev Multiaddr := List Protocol

def ipFromMultiaddr : Multiaddr → Option IpAddr
  | [] => none
  | .ip4 octets :: _ => some (.v4 octets)
  | .ip6 octets :: _ => some (.v6 octets)
  | .other :: rest => ipFromMultiaddr rest

inductive SubnetKey where
  | v4Net24 (network : List UInt8)
  | v6Net64 (network : List UInt8)
  deriving DecidableEq

def subnetKey : IpAddr → SubnetKey
  | .v4 octets => .v4Net24 (octets.toList.take 3)
  | .v6 octets => .v6Net64 (octets.toList.take 8)

/-! ### The guard -/

structure ConnGuardConfig where
  maxPerIp : ℕ := 8
  maxPerV4Net24 : ℕ := 32
  maxPerV6Net64 : ℕ := 16
  maxHandshaking : ℕ := 32
  handshakeDeadline : ℕ := 5000
  rateWindow : ℕ := 10000
  maxNewConnsPerIpPerWindow : ℕ := 10

inductive DropReason where
  | missingIp
  | rateLimited
  | handshakePoolFull
  | perIpCap
  | perSubnetCap
  | handshakeDeadlineOverflow
  | counterOverflow
  deriving DecidableEq

inductive GuardDecision where
  | allow
  | drop (reason : DropReason)
  deriving DecidableEq

structure PeerConnState where
  conns : ℕ
  ip : Option IpAddr
  subnet : Option SubnetKey
  deriving DecidableEq

structure ConnGuard where
  cfg : ConnGuardConfig
  admitted : Finset PeerId
  pending : ExtTreeMap PeerId Instant
  peerState : ExtTreeMap PeerId PeerConnState
  -- An address without an entry counts zero admitted peers and no attempts.
  perIp : IpAddr → ℕ
  perSubnet : SubnetKey → ℕ
  recentAttempts : IpAddr → List Instant

namespace ConnGuard

def usizeMax : ℕ := 2^64-1

-- The clock counts its seconds in a signed 64-bit number.
def lastInstant : Instant := 2^63*1000-1

def new (cfg : ConnGuardConfig) : ConnGuard :=
  { cfg
    admitted := ∅
    pending := ∅
    peerState := ∅
    perIp := fun _ => 0
    perSubnet := fun _ => 0
    recentAttempts := fun _ => [] }

def pruneRateWindow (queue : List Instant) (now : Instant) (window : ℕ) : List Instant :=
  queue.dropWhile fun t => decide (window < now-t)

def isAdmitted (g : ConnGuard) (peer : PeerId) : Bool := peer ∈ g.admitted

/-- One more connection of a peer, from an address that passed the rate limit. -/
def countConnection (peer : PeerId) (ip : IpAddr) (now : Instant) (g : ConnGuard) :
    GuardDecision × ConnGuard :=
  let conns := (g.peerState[peer]?.map PeerConnState.conns).getD 0
  let g := { g with
    peerState := g.peerState.insert peer ⟨min (conns+1) usizeMax, some ip, some (subnetKey ip)⟩ }
  if peer ∈ g.pending then (.allow, g)
  else if now+g.cfg.handshakeDeadline ≤ lastInstant then
    (.allow, { g with pending := g.pending.insert peer (now+g.cfg.handshakeDeadline) })
  else (.drop .handshakeDeadlineOverflow, g)

def onConnectionEstablished (peer : PeerId) (remoteAddr : Multiaddr) (now : Instant)
    (g : ConnGuard) : GuardDecision × ConnGuard :=
  match ipFromMultiaddr remoteAddr with
  | none => (.drop .missingIp, g)
  | some ip =>
    let recent := pruneRateWindow (g.recentAttempts ip) now g.cfg.rateWindow
    let noted (attempts : List Instant) : ConnGuard :=
      { g with recentAttempts := Function.update g.recentAttempts ip attempts }
    if g.cfg.maxNewConnsPerIpPerWindow ≤ recent.length then (.drop .rateLimited, noted recent)
    else if g.cfg.maxHandshaking ≤ g.pending.size ∧ peer ∉ g.pending then
      (.drop .handshakePoolFull, noted (recent ++ [now]))
    else (noted (recent ++ [now])).countConnection peer ip now

def subnetCap (cfg : ConnGuardConfig) : SubnetKey → ℕ
  | .v4Net24 _ => cfg.maxPerV4Net24
  | .v6Net64 _ => cfg.maxPerV6Net64

/-- The counters are raised together or not at all. -/
def admitCounted (peer : PeerId) (ip : IpAddr) (subnet : SubnetKey) (g : ConnGuard) :
    GuardDecision × ConnGuard :=
  let g := { g with pending := g.pending.erase peer }
  if g.perIp ip = usizeMax ∨ g.perSubnet subnet = usizeMax then (.drop .counterOverflow, g)
  else
    (.allow, { g with
      admitted := insert peer g.admitted
      perIp := Function.update g.perIp ip (g.perIp ip+1)
      perSubnet := Function.update g.perSubnet subnet (g.perSubnet subnet+1) })

def tryAdmit (peer : PeerId) (g : ConnGuard) : GuardDecision × ConnGuard :=
  if peer ∈ g.admitted then (.allow, { g with pending := g.pending.erase peer })
  else
    match g.peerState[peer]? with
    | none => (.drop .missingIp, g)
    | some st =>
      match st.ip with
      | none => (.drop .missingIp, g)
      | some ip =>
        if g.cfg.maxPerIp ≤ g.perIp ip then (.drop .perIpCap, g)
        else
          match st.subnet with
          | none => (.drop .missingIp, g)
          | some subnet =>
            if subnetCap g.cfg subnet ≤ g.perSubnet subnet then (.drop .perSubnetCap, g)
            else g.admitCounted peer ip subnet

def decrement {α : Type} [DecidableEq α] (counts : α → ℕ) : Option α → α → ℕ
  | none => counts
  | some key => Function.update counts key (counts key-1)

def onConnectionClosed (peer : PeerId) (g : ConnGuard) : ConnGuard :=
  match g.peerState[peer]? with
  | none => { g with admitted := g.admitted.erase peer, pending := g.pending.erase peer }
  | some st =>
    if st.conns-1 = 0 then
      let g := if peer ∈ g.admitted then
          { g with
            admitted := g.admitted.erase peer
            perIp := decrement g.perIp st.ip
            perSubnet := decrement g.perSubnet st.subnet }
        else g
      { g with pending := g.pending.erase peer, peerState := g.peerState.erase peer }
    else { g with peerState := g.peerState.insert peer { st with conns := st.conns-1 } }

/-- The peers whose handshake is overdue. -/
def sweepTimeouts (now : Instant) (g : ConnGuard) : List PeerId × ConnGuard :=
  ((g.pending.toList.filter fun e => decide (e.2 < now)).map Prod.fst,
    { g with pending := g.pending.filter fun _ deadline => decide (¬deadline < now) })

end ConnGuard

/-! ### The registry -/

structure EphemeralRegistry where
  wallets : Finset String
  joinHeights : ExtTreeMap String UInt64
  identityMap : ExtTreeMap String String
  verifyingKeys : ExtTreeMap String (List UInt8)
  heartbeatRoundSeen : Finset String
  tipSnapshots : ExtTreeMap String UInt64
  lastSeenAt : ExtTreeMap String UInt64
  joinedAt : ExtTreeMap String UInt64

namespace EphemeralRegistry

def maxPeerIdB58Len : ℕ := 128

def validatePeerIdB58 (peerId : String) : Fallible Unit := do
  rejectIf (peerId = "") (validationErr "peer_id_b58 is empty")
  rejectIf (maxPeerIdB58Len < byteLen peerId) (validationErr
    s!"peer_id_b58 too long (len={byteLen peerId}, max={maxPeerIdB58Len})")
  rejectIf (peerId.toList.any fun c => decide (128 ≤ c.toNat))
    (validationErr "peer_id_b58 must be ASCII")

def new : EphemeralRegistry := ⟨∅, ∅, ∅, ∅, ∅, ∅, ∅, ∅⟩

-- Every peer that announced the wallet loses it.
def unregisterByPeer (peerId : String) (r : EphemeralRegistry) :
    Option String × EphemeralRegistry :=
  if ¬succeeds (validatePeerIdB58 peerId) then (none, r)
  else
    match r.identityMap[peerId]? with
    | none => (none, r)
    | some addr =>
      (some addr,
        { wallets := r.wallets.erase addr
          joinHeights := r.joinHeights.erase addr
          identityMap := (r.identityMap.erase peerId).filter fun _ w => decide (w ≠ addr)
          verifyingKeys := r.verifyingKeys.erase addr
          heartbeatRoundSeen := r.heartbeatRoundSeen.erase addr
          tipSnapshots := r.tipSnapshots.erase addr
          lastSeenAt := r.lastSeenAt.erase addr
          joinedAt := r.joinedAt.erase addr })

end EphemeralRegistry

def base58Alphabet : List Char :=
  "123456789ABCDEFGHJKLMNPQRSTUVWXYZabcdefghijkmnopqrstuvwxyz".toList

/-- The text of a peer's bytes: a digit one for each leading zero, then the number they spell. -/
def toBase58 (peer : PeerId) : String :=
  let number := peer.foldl (fun n b => n*256+b.toNat) 0
  String.ofList ((peer.takeWhile fun b => b = 0).map (fun _ => '1') ++
    (Nat.digits 58 number).reverse.map fun d => base58Alphabet.getD d '1')

/-! ### The node -/

structure NetNode where
  guard : ConnGuard
  sync : P2pSync
  registry : EphemeralRegistry

/-- What the network reports of the connections of its peers. -/
inductive ConnEvent where
  | connectionEstablished (peer : PeerId) (remoteAddr : Multiaddr)
  | versionRequest (peer : PeerId) (info : VersionInfo) (dropped : Option Bool)
  | versionResponse (request : RequestId) (peer : PeerId) (info : VersionInfo) (built : Bool)
  | connectionClosed (peer : PeerId)

/-- An event, when it is handled, and the peers the network lists at that moment. -/
structure Report where
  event : ConnEvent
  now : Instant
  connected : List PeerId
  gossipPeers : List PeerId

namespace NetNode

def new (db : RockDB) (expectedGenesisHash : Option String) (swarm : Swarm) : NetNode :=
  ⟨.new {}, .new db expectedGenesisHash swarm, .new⟩

/-- The runtime hears of an event and of the guard's answer; unless that ends the event, the
overdue peers are dropped. -/
def deliver [Blake3] (now : Instant) (event : P2pSync.SwarmEvent) (guard : ConnGuard)
    (n : NetNode) : NetNode :=
  match n.sync.handleSwarmEvent now event with
  | none => { n with guard }
  | some (sync, false) => { n with guard, sync }
  | some (sync, true) =>
    let (timedOut, guard) := guard.sweepTimeouts now
    { n with guard, sync := sync.finish now timedOut }

/-- The peer a version response would admit. -/
def answering (request : RequestId) (peer : PeerId) (info : VersionInfo) (n : NetNode) :
    Option PeerId :=
  n.sync.pendingVersions[request]?.filter fun origin =>
    decide (peer = origin) && info.matchesLocalChain

-- The guard is asked to admit a peer only when everything else has been checked.
def consult (now : Instant) (n : NetNode) : ConnEvent → P2pSync.SwarmEvent × ConnGuard
  | .connectionEstablished peer remoteAddr =>
    let (decision, guard) := n.guard.onConnectionEstablished peer remoteAddr now
    (.connectionEstablished peer (decision = .allow), guard)
  | .versionRequest peer info dropped =>
    if info.matchesLocalChain && dropped.isNone then
      let (decision, guard) := n.guard.tryAdmit peer
      (.versionRequest peer info dropped (decision = .allow), guard)
    else (.versionRequest peer info dropped false, n.guard)
  | .versionResponse request peer info built =>
    match n.answering request peer info with
    | some origin =>
      let (decision, guard) := n.guard.tryAdmit origin
      (.versionResponse request peer info (decision = .allow) built, guard)
    | none => (.versionResponse request peer info false built, n.guard)
  | .connectionClosed peer => (.connectionClosed peer, n.guard.onConnectionClosed peer)

def unregister (n : NetNode) : ConnEvent → NetNode
  | .connectionClosed peer =>
    { n with registry := (n.registry.unregisterByPeer (toBase58 peer)).2 }
  | _ => n

def listing (n : NetNode) (r : Report) : NetNode :=
  { n with sync := { n.sync with
      swarm := { n.sync.swarm with connected := r.connected, gossipPeers := r.gossipPeers } } }

/-- `route_non_gossip_swarm_event` for the events of connections. -/
def step [Blake3] (n : NetNode) (r : Report) : NetNode :=
  let n := (n.listing r).unregister r.event
  let (event, guard) := n.consult r.now r.event
  n.deliver r.now event guard

def run [Blake3] (n : NetNode) (reports : List Report) : NetNode := reports.foldl step n

end NetNode
end Remzar
