import Mathlib
import Remzar.Lib.Effects
import Remzar.ConnGuard
import Remzar.Wallets

/-! The ephemeral registry: which wallets are validators at the moment, since when, who announced
them and when they were last heard of. -/
namespace Remzar
open Std Fallible Effects

def maxValidators : ℕ := 10000
def maxIdentities : ℕ := 20000
def maxVerifyingKeys : ℕ := 10000
def maxSnapshotEntries : ℕ := 50000

abbrev VerifyingKeyBytes := List UInt8

def deriveWalletIdFromPubkeyBytes [Blake3] (pkBytes : List UInt8) : String :=
  String.ofList ('r' :: (Blake3.toHex (Blake3.xof64 pkBytes).toList).toList)

/-- The clock in seconds, and 0 where it reports nothing sensible. -/
def nowUnix (clock : Int64) : UInt64 :=
  match nowUnixSecsRuntime clock with
  | .ok now => now
  | .error _ => 0

def ensureUnderCap (cur cap : ℕ) (what : String) : Fallible Unit :=
  rejectIf (cap ≤ cur) (validationErr
    s!"Ephemeral registry cap reached for {what} (cur={cur}, cap={cap})")

abbrev RegistryM := EStateM ErrorDetection EphemeralRegistry

-- Durations come in nanoseconds, the registry counts in whole seconds.
def elapsed (now since : UInt64) : Nanos := (now.toNat-since.toNat)*nanosPerSec

namespace EphemeralRegistry

/-- What registrations and heartbeats have in common: heights and times that are known stay. -/
def enroll (addr : String) (joinHeight now : UInt64) (r : EphemeralRegistry) : EphemeralRegistry :=
  { r with
    wallets := insert addr r.wallets
    joinHeights := r.joinHeights.insertIfNew addr joinHeight
    heartbeatRoundSeen := insert addr r.heartbeatRoundSeen
    lastSeenAt := r.lastSeenAt.insert addr now
    joinedAt := r.joinedAt.insertIfNew addr now }

def isRegistered (addr : String) (r : EphemeralRegistry) : Bool :=
  match canonWalletIdChecked addr with
  | .ok can => can ∈ r.wallets
  | .error _ => false

def registerWalletStrict (clock : Int64) (walletAddr : String) (joinHeight : UInt64) :
    RegistryM String := do
  let r ← get
  lift (ensureUnderCap r.wallets.card maxValidators "validators")
  let addr ← lift (canonWalletIdChecked walletAddr)
  lift (rejectIf (addr ∈ r.wallets)
    (validationErr s!"Wallet {addr} already registered (ephemeral)"))
  set (r.enroll addr joinHeight (nowUnix clock))
  return addr

def registerWalletFromVk [Blake3] (clock : Int64) (vk : VerifyingKeyBytes) (joinHeight : UInt64) :
    RegistryM String := do
  let r ← get
  lift (ensureUnderCap r.wallets.card maxValidators "validators")
  lift (ensureUnderCap r.verifyingKeys.size maxVerifyingKeys "verifying_keys")
  let addr := deriveWalletIdFromPubkeyBytes vk
  lift (rejectIf (addr ∈ r.wallets)
    (validationErr s!"Wallet {addr} already registered (ephemeral)"))
  set { r.enroll addr joinHeight (nowUnix clock) with
    verifyingKeys := r.verifyingKeys.insert addr vk }
  return addr

def associateIdentity (peerId walletAddr : String) : RegistryM Unit := do
  let r ← get
  lift (validatePeerIdB58 peerId)
  lift (ensureUnderCap r.identityMap.size maxIdentities "identity_map")
  let can ← lift (canonWalletIdChecked walletAddr)
  lift (rejectIf (can ∉ r.wallets)
    (validationErr s!"Wallet {can} is not registered (ephemeral)"))
  set { r with identityMap := r.identityMap.insert peerId can }

/-- A join height that is known is not replaced. -/
def setJoinHeight (walletAddr : String) (height : UInt64) : RegistryM Unit := do
  let r ← get
  let can ← lift (canonWalletIdChecked walletAddr)
  lift (rejectIf (can ∉ r.wallets)
    (validationErr s!"Wallet {can} is not registered (ephemeral)"))
  set { r with joinHeights := r.joinHeights.insertIfNew can height }

def setTipSnapshot (walletAddr : String) (tipSnapshot : UInt64) : RegistryM Unit := do
  let r ← get
  let can ← lift (canonWalletIdChecked walletAddr)
  lift (rejectIf (can ∉ r.wallets)
    (validationErr s!"Wallet {can} is not registered (ephemeral)"))
  set { r with tipSnapshots := r.tipSnapshots.insert can tipSnapshot }

def eligible (addr : String) (atHeight : UInt64) (r : EphemeralRegistry) : Bool :=
  match canonWalletIdChecked addr with
  | .error _ => false
  | .ok can =>
    match r.joinHeights[can]? with
    | some jh => decide (Checked.saturatingAdd jh rewardDelayBlocks ≤ atHeight)
    | none => false

/-! ### Leaving -/

def remove (r : EphemeralRegistry) (addr : String) : EphemeralRegistry :=
  { wallets := r.wallets.erase addr
    joinHeights := r.joinHeights.erase addr
    identityMap := r.identityMap.filter fun _ w => decide (w ≠ addr)
    verifyingKeys := r.verifyingKeys.erase addr
    heartbeatRoundSeen := r.heartbeatRoundSeen.erase addr
    tipSnapshots := r.tipSnapshots.erase addr
    lastSeenAt := r.lastSeenAt.erase addr
    joinedAt := r.joinedAt.erase addr }

def unregisterWallet (walletAddr : String) (r : EphemeralRegistry) : Bool × EphemeralRegistry :=
  match canonWalletIdChecked walletAddr with
  | .error _ => (false, r)
  | .ok addr => if addr ∈ r.wallets then (true, r.remove addr) else (false, r)

def isInactive (now : UInt64) (maxInactive bootGrace : Nanos) (r : EphemeralRegistry)
    (wallet : String) : Bool :=
  let lastSeen := r.lastSeenAt[wallet]?.getD 0
  let joined := r.joinedAt[wallet]?.getD 0
  if elapsed now joined ≤ bootGrace then false else decide (maxInactive < elapsed now lastSeen)

def evictInactiveValidators (clock : Int64) (maxInactive bootGrace : Nanos)
    (r : EphemeralRegistry) : EphemeralRegistry :=
  let toEvict := (r.wallets.sort (· ≤ ·)).filter (r.isInactive (nowUnix clock) maxInactive bootGrace)
  toEvict.foldl remove r

/-! ### Heartbeats -/

def beginHeartbeatRound (r : EphemeralRegistry) : EphemeralRegistry :=
  { r with heartbeatRoundSeen := ∅ }

def noteHeartbeatRound (clock : Int64) (walletAddr : String) (tipSnapshot : UInt64) :
    RegistryM String := do
  let r ← get
  lift (ensureUnderCap r.wallets.card maxValidators "validators")
  let addr ← lift (canonWalletIdChecked walletAddr)
  -- A wallet that is first seen here joins at height 0.
  set { r.enroll addr 0 (nowUnix clock) with tipSnapshots := r.tipSnapshots.insert addr tipSnapshot }
  return addr

def finalizeHeartbeatRound (r : EphemeralRegistry) : EphemeralRegistry :=
  if r.heartbeatRoundSeen = ∅ then new
  else
    let wallets := r.wallets ∩ r.heartbeatRoundSeen
    { r with
      wallets
      joinHeights := r.joinHeights.filter fun addr _ => decide (addr ∈ wallets)
      verifyingKeys := r.verifyingKeys.filter fun addr _ => decide (addr ∈ wallets)
      tipSnapshots := r.tipSnapshots.filter fun addr _ => decide (addr ∈ wallets)
      identityMap := r.identityMap.filter fun _ wallet => decide (wallet ∈ wallets)
      lastSeenAt := r.lastSeenAt.filter fun addr _ => decide (addr ∈ wallets)
      joinedAt := r.joinedAt.filter fun addr _ => decide (addr ∈ wallets) }

/-! ### Snapshots -/

/-- An entry of a snapshot, with what the clock reports when it is registered and just after. -/
structure SnapshotEntry where
  wallet : String
  vk : Option VerifyingKeyBytes
  joinHeight : UInt64
  registered : Int64
  stamped : Int64

def registerEntry [Blake3] (e : SnapshotEntry) : RegistryM String :=
  match e.vk with
  | some vk => registerWalletFromVk e.registered vk e.joinHeight
  | none => registerWalletStrict e.registered e.wallet e.joinHeight

def applyEntry [Blake3] (e : SnapshotEntry) : RegistryM Unit := do
  let addr ← registerEntry e
  modify fun r =>
    { r with
      lastSeenAt := r.lastSeenAt.insert addr (nowUnix e.stamped)
      joinedAt := r.joinedAt.insertIfNew addr (nowUnix e.stamped) }

/-- An entry that cannot be registered is passed over. -/
def applyEntries [Blake3] : ℕ → List SnapshotEntry → EphemeralRegistry → EphemeralRegistry
  | _, [], r => r
  | applied, e :: entries, r =>
    if maxSnapshotEntries ≤ applied then r
    else
      match applyEntry e r with
      | .ok _ r' => applyEntries (applied+1) entries r'
      | .error _ r' => applyEntries applied entries r'

def rebuildFromSnapshot [Blake3] (entries : List SnapshotEntry) : EphemeralRegistry :=
  applyEntries 0 entries new

def applyEntriesChecked [Blake3] : ℕ → List SnapshotEntry → RegistryM Unit
  | _, [] => pure ()
  | applied, e :: entries => do
    lift (rejectIf (maxSnapshotEntries ≤ applied)
      (validationErr s!"Snapshot too large (cap={maxSnapshotEntries})"))
    mapError (fun err => validationErr
      s!"Snapshot entry failed (wallet={e.wallet}, height={e.joinHeight}): {err.debug}") (applyEntry e)
    applyEntriesChecked (applied+1) entries

def rebuildFromSnapshotChecked [Blake3] (entries : List SnapshotEntry) : RegistryM Unit := do
  set new
  applyEntriesChecked 0 entries

end EphemeralRegistry

/-! ### Runs -/

/-- A call of the registry, with what the clock reports during it. -/
inductive RegistryCall where
  | registerWalletStrict (clock : Int64) (walletAddr : String) (joinHeight : UInt64)
  | registerWalletFromVk (clock : Int64) (vk : VerifyingKeyBytes) (joinHeight : UInt64)
  | associateIdentity (peerId walletAddr : String)
  | setJoinHeight (walletAddr : String) (height : UInt64)
  | setTipSnapshot (walletAddr : String) (tipSnapshot : UInt64)
  | noteHeartbeatRound (clock : Int64) (walletAddr : String) (tipSnapshot : UInt64)
  | beginHeartbeatRound
  | finalizeHeartbeatRound
  | evictInactiveValidators (clock : Int64) (maxInactive bootGrace : Nanos)
  | unregisterWallet (walletAddr : String)
  | unregisterByPeer (peerId : String)
  | rebuildFromSnapshot (entries : List EphemeralRegistry.SnapshotEntry)

/-- What a call does, as far as errors and the registry are concerned. -/
def RegistryCall.perform [Blake3] : RegistryCall → RegistryM Unit
  | registerWalletStrict clock walletAddr joinHeight => do
    let _ ← EphemeralRegistry.registerWalletStrict clock walletAddr joinHeight
  | registerWalletFromVk clock vk joinHeight => do
    let _ ← EphemeralRegistry.registerWalletFromVk clock vk joinHeight
  | associateIdentity peerId walletAddr => EphemeralRegistry.associateIdentity peerId walletAddr
  | setJoinHeight walletAddr height => EphemeralRegistry.setJoinHeight walletAddr height
  | setTipSnapshot walletAddr tip => EphemeralRegistry.setTipSnapshot walletAddr tip
  | noteHeartbeatRound clock walletAddr tip => do
    let _ ← EphemeralRegistry.noteHeartbeatRound clock walletAddr tip
  | beginHeartbeatRound => modify EphemeralRegistry.beginHeartbeatRound
  | finalizeHeartbeatRound => modify EphemeralRegistry.finalizeHeartbeatRound
  | evictInactiveValidators clock maxInactive bootGrace =>
    modify (EphemeralRegistry.evictInactiveValidators clock maxInactive bootGrace)
  | unregisterWallet walletAddr => modify fun r => (r.unregisterWallet walletAddr).2
  | unregisterByPeer peerId => modify fun r => (r.unregisterByPeer peerId).2
  | rebuildFromSnapshot entries => set (EphemeralRegistry.rebuildFromSnapshot entries)

def EphemeralRegistry.step [Blake3] (r : EphemeralRegistry) (c : RegistryCall) :
    EphemeralRegistry := storeOf (c.perform r)

end Remzar
