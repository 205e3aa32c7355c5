import Mathlib
import Remzar.Lib.Effects
import Remzar.RockDB

/-! The canonical validator registry: the lifecycle of one validator, and the map of all of
them as it is rebuilt from the stored chain. -/
namespace Remzar
open Std Fallible Effects Checked Text

def maxLeaseBlocksHard : UInt64 := 1000000
def maxLifecycleDelayBlocksHard : UInt64 := 1000000

inductive RegisterOutcome where
  | inserted
  | renewed
  | reactivated
  | noChange
  deriving DecidableEq

structure ValidatorLifecycleConfig where
  activationDelayBlocks : UInt64
  rewardDelayBlocks : UInt64
  leaseBlocks : UInt64

namespace ValidatorLifecycleConfig

def fromGlobals : ValidatorLifecycleConfig :=
  ⟨validatorActivationDelayBlocks, Remzar.rewardDelayBlocks,
    max 1 (min canonicalLeaseBlocks maxLeaseBlocksHard)⟩

def validate (cfg : ValidatorLifecycleConfig) : Fallible Unit := do
  rejectIf (cfg.leaseBlocks = 0)
    (validationErr "ValidatorLifecycleConfig invalid: lease_blocks must be >= 1")
  rejectIf (maxLeaseBlocksHard < cfg.leaseBlocks) (validationErr
    s!"ValidatorLifecycleConfig invalid: lease_blocks={cfg.leaseBlocks} exceeds hard cap {maxLeaseBlocksHard}")
  rejectIf (maxLifecycleDelayBlocksHard < cfg.activationDelayBlocks) (validationErr
    s!"ValidatorLifecycleConfig invalid: activation_delay_blocks={cfg.activationDelayBlocks} exceeds hard cap {maxLifecycleDelayBlocksHard}")
  rejectIf (maxLifecycleDelayBlocksHard < cfg.rewardDelayBlocks) (validationErr
    s!"ValidatorLifecycleConfig invalid: reward_delay_blocks={cfg.rewardDelayBlocks} exceeds hard cap {maxLifecycleDelayBlocksHard}")

end ValidatorLifecycleConfig

structure ValidatorMeta where
  joinHeight : UInt64
  joinTimestamp : UInt64
  lastRenewHeight : UInt64
  lastRenewTimestamp : UInt64
  exitHeight : Option UInt64
  deriving DecidableEq

namespace ValidatorMeta

def validateExit (m : ValidatorMeta) : Fallible Unit :=
  match m.exitHeight with
  | none => .ok ()
  | some exit => do
    rejectIf (exit = 0) (validationErr "ValidatorMeta invariant failed: exit_height=0 is invalid")
    rejectIf (exit ≤ m.joinHeight ∧ m.joinHeight ≠ 0) (validationErr
      s!"ValidatorMeta invariant failed: exit_height={exit} <= join_height={m.joinHeight}")

def validateStructuralInvariants (m : ValidatorMeta) : Fallible Unit := do
  validateUnixSecsStructural "ValidatorMeta.join_timestamp" m.joinTimestamp
  validateUnixSecsStructural "ValidatorMeta.last_renew_timestamp" m.lastRenewTimestamp
  rejectIf (m.lastRenewHeight < m.joinHeight) (validationErr
    s!"ValidatorMeta invariant failed: last_renew_height={m.lastRenewHeight} < join_height={m.joinHeight}")
  rejectIf (m.lastRenewTimestamp < m.joinTimestamp) (validationErr
    s!"ValidatorMeta invariant failed: last_renew_timestamp={m.lastRenewTimestamp} < join_timestamp={m.joinTimestamp}")
  m.validateExit

def validateInvariants (m : ValidatorMeta) (wallet : String) : Fallible Unit := do
  let _ ← mapErr (fun e => validationErr s!"ValidatorMeta invalid wallet '{wallet}': {e.display}")
    (canonWalletIdChecked wallet)
  m.validateStructuralInvariants

/-- A validator whose era starts at `height`; the founder's starts at 0. -/
def joined (height joinTimestamp : UInt64) : Fallible ValidatorMeta := do
  validateUnixSecsStructural "ValidatorMeta.joined.join_timestamp" joinTimestamp
  let m : ValidatorMeta := ⟨height, joinTimestamp, height, joinTimestamp, none⟩
  m.validateStructuralInvariants
  return m

def founder (joinTimestamp : UInt64) : Fallible ValidatorMeta := do
  validateUnixSecsStructural "ValidatorMeta.founder.join_timestamp" joinTimestamp
  let m : ValidatorMeta := ⟨0, joinTimestamp, 0, joinTimestamp, none⟩
  m.validateStructuralInvariants
  return m

/-! ### Activity -/

def notExplicitlyExitedAt (m : ValidatorMeta) (height : UInt64) : Bool :=
  match m.exitHeight with
  | none => true
  | some exit => decide (height < exit)

def leaseExpiryHeight (m : ValidatorMeta) (cfg : ValidatorLifecycleConfig) : UInt64 :=
  saturatingAdd m.lastRenewHeight cfg.leaseBlocks

def withinLeaseAt (m : ValidatorMeta) (height : UInt64) (cfg : ValidatorLifecycleConfig) : Bool :=
  decide (height ≤ m.leaseExpiryHeight cfg)

def isActiveAt (m : ValidatorMeta) (height : UInt64) (cfg : ValidatorLifecycleConfig) : Bool :=
  decide (m.joinHeight ≤ height) && m.notExplicitlyExitedAt height && m.withinLeaseAt height cfg

-- The founder needs no activation delay.
def eligibleHeight (m : ValidatorMeta) (cfg : ValidatorLifecycleConfig) : UInt64 :=
  if m.joinHeight = 0 then 0 else saturatingAdd m.joinHeight cfg.activationDelayBlocks

def isProposableAt (m : ValidatorMeta) (height : UInt64) (cfg : ValidatorLifecycleConfig) : Bool :=
  m.isActiveAt height cfg && decide (m.eligibleHeight cfg ≤ height)

def rewardEligibleAt (m : ValidatorMeta) (height : UInt64) (cfg : ValidatorLifecycleConfig) : Bool :=
  if m.joinHeight = 0 then true
  else decide (saturatingAdd m.joinHeight cfg.rewardDelayBlocks ≤ height)

/-! ### Renewal -/

/-- A renewal of a validator that has not exited. -/
def renewed (m : ValidatorMeta) (height timestamp : UInt64) : ValidatorMeta :=
  { m with
    lastRenewHeight := max m.lastRenewHeight height
    lastRenewTimestamp := max m.lastRenewTimestamp timestamp }

/-- The return of a validator that has; the founder stays the founder. -/
def reactivated (m : ValidatorMeta) (height timestamp : UInt64) : ValidatorMeta :=
  if m.joinHeight = 0 then { m.renewed height timestamp with exitHeight := none }
  else ⟨height, timestamp, height, timestamp, none⟩

def renewOrReactivate (m : ValidatorMeta) (wallet : String) (height timestamp : UInt64) :
    Fallible (RegisterOutcome × ValidatorMeta) := do
  validateUnixSecsStructural "ValidatorMeta.renew_or_reactivate.timestamp" timestamp
  m.validateInvariants wallet
  match m.exitHeight with
  | none => do
    let m' := m.renewed height timestamp
    m'.validateInvariants wallet
    return (if m' = m then .noChange else .renewed, m')
  | some exit =>
    if height < exit then return (.noChange, m)
    else do
      let m' := m.reactivated height timestamp
      m'.validateInvariants wallet
      return (.reactivated, m')

end ValidatorMeta

/-! ### The registry -/

/-- The validators in wallet order. -/
abbrev ValidatorState := ExtTreeMap String ValidatorMeta byteOrder

namespace ValidatorLifecycle

def config : ValidatorLifecycleConfig := .fromGlobals

def newValidatorMeta (wallet : String) (height timestamp : UInt64) : Fallible ValidatorMeta := do
  let canon ← mapErr (fun e => validationErr
    s!"ValidatorLifecycle::new_validator_meta invalid wallet: {e.display}")
    (canonWalletIdChecked wallet)
  let m ← ValidatorMeta.joined height timestamp
  m.validateInvariants canon
  return m

def applyRegisterOrRenew (map : ValidatorState) (wallet : String) (height timestamp : UInt64) :
    Fallible (RegisterOutcome × ValidatorState) := do
  let canon ← mapErr (fun e => validationErr
    s!"ValidatorLifecycle::apply_register_or_renew invalid wallet: {e.display}")
    (canonWalletIdChecked wallet)
  config.validate
  validateUnixSecsStructural "ValidatorLifecycle.apply_register_or_renew.timestamp" timestamp
  match map[canon]? with
  | some m => do
    let (outcome, m') ← m.renewOrReactivate canon height timestamp
    return (outcome, map.insert canon m')
  | none => do
    let m ← newValidatorMeta canon height timestamp
    return (.inserted, map.insert canon m)

def proposableWalletsAt (map : ValidatorState) (height : UInt64) : Fallible (List String) := do
  config.validate
  return (map.toList.filter fun entry => entry.2.isProposableAt height config).map Prod.fst

def validateMap (map : ValidatorState) : Fallible Unit := do
  config.validate
  map.toList.forM fun entry => entry.2.validateInvariants entry.1

end ValidatorLifecycle

def RegisterNodeTx.walletStr (tx : RegisterNodeTx) : Fallible String := do
  let s ← okOr (fromUtf8 tx.walletAddress.toList) (validationErr "Wallet address is not valid UTF-8")
  let canon ← mapErr (fun e => validationErr
    s!"RegisterNodeTx wallet_str invalid wallet: {e.display}") (canonWalletIdChecked s)
  rejectIf (canon ≠ s) (validationErr "RegisterNodeTx wallet_str wallet is not canonical")
  return s

namespace ValidatorState

def canonicalEventTimestampFromBlock (label : String) (timestamp : UInt64) : Fallible UInt64 := do
  validateUnixSecsStructural label timestamp
  return timestamp

def isCanonicallyKnown (map : ValidatorState) (wallet : String) : Fallible Bool := do
  let canon ← mapErr (fun e => validationErr
    s!"ValidatorState::is_canonically_known invalid wallet: {e.display}")
    (canonWalletIdChecked wallet)
  return map[canon]?.isSome

/-- The metadata of a wallet, if it is valid and known. -/
def metaFor (map : ValidatorState) (wallet : String) : Option ValidatorMeta :=
  match canonWalletIdChecked wallet with
  | .error _ => none
  | .ok canon => map[canon]?

def isActiveAt (map : ValidatorState) (wallet : String) (height : UInt64) : Bool :=
  (map.metaFor wallet).any fun m => m.isActiveAt height ValidatorLifecycle.config

def rewardEligibleAt (map : ValidatorState) (wallet : String) (height : UInt64) : Bool :=
  (map.metaFor wallet).any fun m => m.rewardEligibleAt height ValidatorLifecycle.config

/-! ### Rebuilding -/

/-- The founder's wallet and time, from the genesis block. -/
def deriveGenesisFounderFromChain (db : RockDB) : Fallible (Option (String × UInt64)) := do
  match ← db.getBlockByIndex 0 with
  | none => return none
  | some genesis => do
    rejectIf (genesis.metadata.index ≠ 0) (validationErr
      s!"ValidatorState::derive_genesis_founder_from_chain expected block 0 but loaded metadata.index={genesis.metadata.index}")
    let timestamp ← canonicalEventTimestampFromBlock "ValidatorState.genesis_founder.timestamp"
      genesis.metadata.timestamp
    let wallet ← mapErr (fun e => validationErr
      s!"ValidatorState::derive_genesis_founder_from_chain invalid genesis founder wallet: {e.display}")
      (canonWalletIdChecked genesis.miner)
    return some (wallet, timestamp)

def seedFounderFromCanonicalGenesis (db : RockDB) (map : ValidatorState) :
    Fallible ValidatorState := do
  match ← deriveGenesisFounderFromChain db with
  | none => return map
  | some (wallet, timestamp) =>
    if map[wallet]?.any fun m => m.joinHeight = 0 ∧ m.exitHeight = none then return map
    else do
      let m ← ValidatorMeta.founder timestamp
      return map.insert wallet m

def canonicalEventTimestampForBlock (block : Block) (expectedHeight : UInt64) :
    Fallible UInt64 := do
  rejectIf (block.metadata.index ≠ expectedHeight) (validationErr
    s!"ValidatorState canonical event height mismatch: expected_height={expectedHeight} block.metadata.index={block.metadata.index}")
  canonicalEventTimestampFromBlock "ValidatorState.block.metadata.timestamp" block.metadata.timestamp

def upsertRegisterIntoMap (height timestamp : UInt64) (map : ValidatorState) (reg : RegisterNodeTx) :
    Fallible (Bool × ValidatorState) := do
  let wallet ← reg.walletStr
  let canon ← mapErr (fun e => validationErr
    s!"ValidatorState::RegisterNodeTx wallet invalid: {e.display}") (canonWalletIdChecked wallet)
  let timestamp ← canonicalEventTimestampFromBlock
    "ValidatorState.register_or_renew.canonical_event_timestamp" timestamp
  let (outcome, map') ← ValidatorLifecycle.applyRegisterOrRenew map canon height timestamp
  return (outcome ≠ .noChange, map')

/-- One transaction of a block; only registrations count. -/
def applyKind (height timestamp : UInt64) (acc : Bool × ValidatorState) (kind : TxKind) :
    Fallible (Bool × ValidatorState) :=
  match kind with
  | .registerNode reg => do
    let (changed, map) ← upsertRegisterIntoMap height timestamp acc.2 reg
    return (acc.1 || changed, map)
  | _ => .ok acc

def applyKinds (height timestamp : UInt64) (kinds : List TxKind) (map : ValidatorState) :
    Fallible (Bool × ValidatorState) :=
  kinds.foldlM (applyKind height timestamp) (false, map)

-- A height without a batch is skipped.
def replayHeight (db : RockDB) (map : ValidatorState) (idx : UInt64) : Fallible ValidatorState :=
  match db.getBatchBytesByIndex idx with
  | none => .ok map
  | some bytes => do
    let found ← db.getBlockByIndex idx
    let block ← okOr found (.notFound
      s!"ValidatorState::build_replay_map_from_chain block at height {idx} for existing tx batch")
    let timestamp ← canonicalEventTimestampForBlock block idx
    let batch ← mapErr (fun e => .serializationError
      s!"ValidatorState::build_replay_map_from_chain: failed to deserialize batch at height {idx}: {e.debug}")
      (TransactionBatch.deserialize bytes)
    let (_, map') ← applyKinds idx timestamp batch.transactions map
    return map'

def buildReplayMapFromChain (db : RockDB) (tip : UInt64) : Fallible ValidatorState := do
  let seeded ← seedFounderFromCanonicalGenesis db ∅
  let map ← ((List.range (tip.toNat+1)).map UInt64.ofNat).foldlM (replayHeight db) seeded
  ValidatorLifecycle.validateMap map
  return map

/-! ### Persistence -/

def validatorStateKey : List UInt8 := asciiBytes "validator_state_v1"
def multiValidatorEverSeenKey : List UInt8 := asciiBytes "validator_multi_validator_ever_seen_v1"

def metaCodec : Postcard.Codec ValidatorMeta :=
  Postcard.record (Postcard.pair Postcard.u64 (Postcard.pair Postcard.u64 (Postcard.pair Postcard.u64
      (Postcard.pair Postcard.u64 (Postcard.option Postcard.u64)))))
    (fun m => (m.joinHeight, m.joinTimestamp, m.lastRenewHeight, m.lastRenewTimestamp, m.exitHeight))
    (fun p => ⟨p.1, p.2.1, p.2.2.1, p.2.2.2.1, p.2.2.2.2⟩) (fun _ => rfl)

def serialize (map : ValidatorState) : List UInt8 :=
  (Postcard.vec (Postcard.pair Postcard.string metaCodec)).enc map.toList

def commit (map : ValidatorState) (db : RockDB) : Fallible RockDB := do
  ValidatorLifecycle.config.validate
  ValidatorLifecycle.validateMap map
  mapErr (fun e => .storageError s!"ValidatorState write failed: {e.display}")
    (db.write .validatorData validatorStateKey map.serialize)

def multiValidatorEverSeen (db : RockDB) : Bool :=
  match db.read .validatorData multiValidatorEverSeenKey with
  | none => false
  | some bytes => bytes.head? = some 49

def persistMultiValidatorLatchIfNeeded (map : ValidatorState) (db : RockDB) : Fallible RockDB :=
  if map.size ≤ 1 then .ok db
  else if multiValidatorEverSeen db then .ok db
  else mapErr (fun e => .storageError
      s!"ValidatorState multi_validator_ever_seen write failed: {e.display}")
    (db.write .validatorData multiValidatorEverSeenKey [49])

def persist (map : ValidatorState) : EStateM ErrorDetection RockDB Unit := do
  update map.commit
  update map.persistMultiValidatorLatchIfNeeded

end ValidatorState

end Remzar
