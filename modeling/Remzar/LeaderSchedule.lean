import Mathlib
import Remzar.Builder
import Remzar.Validators
import Remzar.Wallets

/-! The leader schedule: who may propose at a height, round by round, as a miner asks it from
its clock and a validator from the timestamp of a block. -/
namespace Remzar
open Std Fallible Checked Text

/-! ### Time -/

structure TimeConfig where
  blockIntervalSecs : UInt64
  activationWarmupSecs : UInt64
  -- Where slot 0 starts.
  genesisTimeUnix : UInt64
  quarantineBlocks : UInt64
  failoverWindowSecs : UInt64
  slotGateDriftSecs : UInt64

/-- Only the configuration; every reading of it goes through the accessors. -/
abbrev TimeManager := TimeConfig

namespace TimeConfig

def effectivePuzzleSecs : UInt64 :=
  min (max puzzleCreationIntervalSecs 1) (max blockCreationIntervalSecs 1)

-- A window shorter than the puzzle and its slack is stretched to fit them.
def effectiveFailoverWindow (puzzleIntervalSecs : UInt64) : UInt64 :=
  max (max Remzar.failoverWindowSecs 1)
    (max (saturatingAdd (max puzzleIntervalSecs 1) failoverSlackSecs) 1)

def fromGenesisTs (genesisTimeUnix : UInt64) : TimeConfig where
  blockIntervalSecs := max blockCreationIntervalSecs 1
  activationWarmupSecs := Remzar.activationWarmupSecs
  genesisTimeUnix := max genesisTimeUnix 1
  quarantineBlocks := Remzar.quarantineBlocks
  failoverWindowSecs := max (effectiveFailoverWindow effectivePuzzleSecs) 1
  slotGateDriftSecs := Remzar.slotGateDriftSecs

def activationDelayBlocks (cfg : TimeConfig) : UInt64 :=
  divCeil cfg.activationWarmupSecs (max cfg.blockIntervalSecs 1)

def proposerDelayBlocks (cfg : TimeConfig) : UInt64 :=
  max cfg.activationDelayBlocks cfg.quarantineBlocks

end TimeConfig

/-! ### Runtime eligibility -/

structure CommitteeMemberStatus where
  hasSynced : Bool
  localTip : UInt64
  networkTip : UInt64
  peersConnected : ℕ
  connectedWalletPeers : ℕ
  isIsolated : Bool

def CommitteeMemberStatus.tipLag (status : CommitteeMemberStatus) : UInt64 :=
  saturatingSub status.networkTip status.localTip

inductive IneligibilityReason where
  | notLive
  | notSynced
  | tooFarBehind (lag maxAllowed : UInt64)
  | notEnoughPeers (connected minRequired : ℕ)
  | notEnoughWalletPeers (connected minRequired : ℕ)
  | isolated
  deriving DecidableEq

/-- The `Debug` text. -/
def IneligibilityReason.debug : IneligibilityReason → String
  | .notLive => "NotLive"
  | .notSynced => "NotSynced"
  | .tooFarBehind lag maxAllowed =>
    s!"TooFarBehind \x7b lag: {lag}, max_allowed: {maxAllowed} \x7d"
  | .notEnoughPeers connected minRequired =>
    s!"NotEnoughPeers \x7b connected: {connected}, min_required: {minRequired} \x7d"
  | .notEnoughWalletPeers connected minRequired =>
    s!"NotEnoughWalletPeers \x7b connected: {connected}, min_required: {minRequired} \x7d"
  | .isolated => "Isolated"

structure CommitteeEligibilityConfig where
  maxTipLagBlocks : UInt64
  minPeersConnected : ℕ
  minConnectedWalletPeers : ℕ
  requireNonIsolated : Bool
  requireSynced : Bool

def CommitteeEligibilityConfig.fromGlobals : CommitteeEligibilityConfig := ⟨2, 0, 0, false, false⟩

structure CommitteeEligibility where
  liveWallets : ExtTreeSet String byteOrder
  statuses : ExtTreeMap String CommitteeMemberStatus byteOrder
  config : CommitteeEligibilityConfig

namespace CommitteeEligibility

def isLocalSoloCandidate (e : CommitteeEligibility) (wallet : String) : Bool :=
  match e.liveWallets.toList with
  | [only] => eqIgnoreAsciiCase only wallet
  | _ => false

def shouldEnforceConnectivityChecks (e : CommitteeEligibility) (wallet : String) : Bool :=
  if e.liveWallets.toList.length ≤ 1 then false else !e.isLocalSoloCandidate wallet

/-- What the status of a live wallet has against it. -/
def statusReasons (e : CommitteeEligibility) (wallet : String) (status : CommitteeMemberStatus) :
    List IneligibilityReason :=
  let cfg := e.config
  (if cfg.requireSynced && !status.hasSynced then [.notSynced] else []) ++
  (if cfg.maxTipLagBlocks < status.tipLag then
    [.tooFarBehind status.tipLag cfg.maxTipLagBlocks] else []) ++
  if e.shouldEnforceConnectivityChecks wallet then
    (if status.peersConnected < cfg.minPeersConnected then
      [.notEnoughPeers status.peersConnected cfg.minPeersConnected] else []) ++
    (if status.connectedWalletPeers < cfg.minConnectedWalletPeers then
      [.notEnoughWalletPeers status.connectedWalletPeers cfg.minConnectedWalletPeers] else []) ++
    if cfg.requireNonIsolated && status.isIsolated then [.isolated] else []
  else []

/-- The reasons against a wallet; it is eligible when there are none. -/
def decideWallet (e : CommitteeEligibility) (wallet : String) : List IneligibilityReason :=
  match canonWalletIdChecked wallet with
  | .error _ => [.notLive]
  | .ok canon =>
    if !e.liveWallets.contains canon then [.notLive]
    else
      match e.statuses[canon]? with
      | none => []
      | some status => e.statusReasons canon status

end CommitteeEligibility

/-! ### The committee -/

def ValidatorState.lifecycleConfigWithActivationDelay (delay : UInt64) :
    Fallible ValidatorLifecycleConfig := do
  let cfg := { ValidatorLifecycle.config with activationDelayBlocks := delay }
  cfg.validate
  return cfg

-- The registry is in wallet order, so there is nothing left to sort.
def ValidatorState.proposableAt (map : ValidatorState) (height delay : UInt64) : List String :=
  match lifecycleConfigWithActivationDelay delay with
  | .error _ => []
  | .ok cfg => (map.toList.filter fun entry => entry.2.isProposableAt height cfg).map Prod.fst

def maxCommitteeSizeHard : ℕ := 100000

structure CommitteeSnapshot where
  height : UInt64
  parentHash : Hash
  activationDelayBlocks : UInt64
  validators : List String
  committeeHash : Hash

def CommitteeSnapshot.containsWallet (s : CommitteeSnapshot) (wallet : String) : Bool :=
  s.validators.any fun v => eqIgnoreAsciiCase v wallet

structure LeaderDecision where
  height : UInt64
  round : UInt64
  parentHash : Hash
  committeeHash : Hash
  leader : String
  leaderIndexInSnapshot : ℕ
  committeeLen : ℕ

/-- Where a time falls within a height. -/
structure RoundTime where
  round : UInt64
  elapsed : UInt64
  inRound : UInt64
  roundStart : UInt64

structure LeaderTrace where
  snapshot : CommitteeSnapshot
  decision : LeaderDecision
  observedTimeUnix : UInt64
  heightStartUnix : UInt64
  roundStartUnix : UInt64
  elapsedSecs : UInt64
  inRoundSecs : UInt64
  failoverWindowSecs : UInt64

namespace LeaderSchedule

/-- The set of the canonical wallets, in order. -/
def canonSet (raw : List String) : Fallible (List String) := do
  let wallets ← raw.mapM canonWalletIdChecked
  return (ExtTreeSet.ofList wallets byteOrder).toList

def tooLarge (what : String) (height : UInt64) (len : ℕ) : ErrorDetection :=
  validationErr s!"{what} too large at height {height}: {len} > hard cap {maxCommitteeSizeHard}"

def normalizeActiveValidators (raw : List String) (height : UInt64) : Fallible (List String) := do
  rejectIf (raw = []) (validationErr
    s!"no canonical validators at height {height} (canonical validator set empty?)")
  rejectIf (maxCommitteeSizeHard < raw.length)
    (tooLarge "canonical validator set" height raw.length)
  let validators ← canonSet raw
  rejectIf (validators = []) (validationErr
    s!"canonical validator set collapsed to empty after canonicalization at height {height}")
  rejectIf (maxCommitteeSizeHard < validators.length)
    (tooLarge "canonical validator set" height validators.length)
  return validators

def canonicalValidatorsForHeight (vs : ValidatorState) (tm : TimeManager) (height : UInt64) :
    Fallible (List String) := do
  rejectIf (height = 0)
    (validationErr "canonical_validators_for_height called for height=0")
  normalizeActiveValidators (vs.proposableAt height tm.proposerDelayBlocks) height

section
variable [Blake3]

def computeCommitteeHash (parentHash : Hash) (height delay : UInt64) (validators : List String) :
    Hash :=
  Blake3.xof64 (asciiBytes "remzar:por:committee:v3|" ++ parentHash.toList ++
    Block.u64Be height ++ Block.u64Be delay ++
    validators.flatMap fun v => asciiBytes "|" ++ utf8 v)

def validateSnapshotInvariants (s : CommitteeSnapshot) : Fallible Unit := do
  rejectIf (s.height = 0) (validationErr "committee snapshot created for height=0")
  rejectIf (s.validators = []) (validationErr s!"committee snapshot empty at height {s.height}")
  rejectIf (maxCommitteeSizeHard < s.validators.length)
    (tooLarge "committee snapshot" s.height s.validators.length)
  let uniq ← canonSet s.validators
  rejectIf (uniq.length ≠ s.validators.length) (validationErr
    s!"committee snapshot contains duplicate/non-canonical validators at height {s.height}")
  rejectIf (computeCommitteeHash s.parentHash s.height s.activationDelayBlocks s.validators ≠
    s.committeeHash) (validationErr s!"committee snapshot hash mismatch at height {s.height}")

def committeeSnapshot (vs : ValidatorState) (tm : TimeManager) (parentHash : Hash)
    (height : UInt64) : Fallible CommitteeSnapshot := do
  let validators ← canonicalValidatorsForHeight vs tm height
  let delay := tm.proposerDelayBlocks
  let snapshot : CommitteeSnapshot :=
    ⟨height, parentHash, delay, validators,
      computeCommitteeHash parentHash height delay validators⟩
  validateSnapshotInvariants snapshot
  return snapshot

/-! ### Leaders -/

def leaderScore (committeeHash parentHash : Hash) (height round : UInt64) (validator : String) :
    Hash :=
  Blake3.xof64 (asciiBytes "remzar:por:leader-score:v3|" ++ committeeHash.toList ++
    parentHash.toList ++ Block.u64Be height ++ Block.u64Be round ++ asciiBytes "|" ++
    utf8 validator)

/-- By score, then by wallet. -/
def scoreOrder (a b : Hash × String) : Ordering :=
  (compare a.1.toList b.1.toList).then (byteOrder a.2 b.2)

def orderedValidatorsForRound (s : CommitteeSnapshot) (round : UInt64) :
    Fallible (List String) := do
  validateSnapshotInvariants s
  let scored := s.validators.map fun v =>
    (leaderScore s.committeeHash s.parentHash s.height round v, v)
  return (scored.insertionSort fun a b => (scoreOrder a b).isLE).map Prod.snd

def leaderForRound (s : CommitteeSnapshot) (round : UInt64) : Fallible LeaderDecision := do
  validateSnapshotInvariants s
  let ordered ← orderedValidatorsForRound s round
  let leader ← okOr ordered.head? (validationErr
    s!"leader_for_round failed: empty ordered committee at height {s.height}")
  let index ← okOr (s.validators.findIdx? fun v => eqIgnoreAsciiCase v leader) (validationErr
    s!"selected leader not found in frozen committee at height {s.height}")
  return ⟨s.height, round, s.parentHash, s.committeeHash, leader, index, s.validators.length⟩

end

/-! ### Rounds -/

def heightStartUnix (tm : TimeManager) (height : UInt64) : UInt64 :=
  let genesis := max tm.genesisTimeUnix 1
  if height ≤ 1 then genesis
  else saturatingAdd genesis (saturatingMul (saturatingSub height 1) (max tm.blockIntervalSecs 1))

/-- The failover window, at least a second. -/
def tau (tm : TimeManager) : UInt64 := max tm.failoverWindowSecs 1

def roundForHeightFromTimestamp (tm : TimeManager) (height observed : UInt64) :
    Fallible RoundTime := do
  rejectIf (height = 0) (validationErr "round_for_height_from_timestamp called for height=0")
  let start := heightStartUnix tm height
  rejectIf (observed < start) (validationErr
    s!"timestamp {observed} is earlier than nominal start {start} for height {height}")
  let elapsed := saturatingSub observed start
  let round := elapsed/tau tm
  let roundStart := saturatingAdd start (saturatingMul round (tau tm))
  return ⟨round, elapsed, saturatingSub observed roundStart, roundStart⟩

/-- A clock that is early by less than the drift counts as the start of the height. -/
def roundForHeightNow (tm : TimeManager) (height now : UInt64) : Fallible RoundTime := do
  rejectIf (height = 0) (validationErr "round_for_height_now called for height=0")
  let start := heightStartUnix tm height
  let drift := tm.slotGateDriftSecs
  rejectIf (saturatingAdd now drift < start) (validationErr
    s!"too early to propose height {height} (now={now} height_start={start} drift={drift}s)")
  roundForHeightFromTimestamp tm height (max now start)

section
variable [Blake3] (vs : ValidatorState) (tm : TimeManager) (parentHash : Hash) (height : UInt64)

/-- The trace of an observed time, once it is known where it falls. -/
def traceAt (observed : UInt64) (found : Fallible RoundTime) : Fallible LeaderTrace := do
  let snapshot ← committeeSnapshot vs tm parentHash height
  let time ← found
  let decision ← leaderForRound snapshot time.round
  return ⟨snapshot, decision, observed, heightStartUnix tm height, time.roundStart, time.elapsed,
    time.inRound, tau tm⟩

def traceForTimestamp (observed : UInt64) : Fallible LeaderTrace :=
  traceAt vs tm parentHash height observed (roundForHeightFromTimestamp tm height observed)

def traceForNow (now : UInt64) : Fallible LeaderTrace :=
  traceAt vs tm parentHash height now (roundForHeightNow tm height now)

/-! ### Authorization -/

def ensureLocalRuntimeMintEligibility (wallet : String) (eligibility : CommitteeEligibility) :
    Fallible Unit :=
  let reasons := eligibility.decideWallet wallet
  let listed := ", ".intercalate (reasons.map IneligibilityReason.debug)
  rejectIf (reasons ≠ []) (validationErr
    s!"local mint suppressed by runtime policy for wallet {wallet}: {listed}")

def assertLocalCanMintNow (wallet : String) (eligibility : CommitteeEligibility) (now : UInt64) :
    Fallible LeaderTrace := do
  let trace ← traceForNow vs tm parentHash height now
  rejectIf (¬trace.snapshot.containsWallet wallet) (validationErr
    s!"local wallet is not in canonical committee at height {trace.decision.height}")
  rejectIf (¬eqIgnoreAsciiCase trace.decision.leader wallet) (validationErr
    s!"not selected canonical leader for this height/round (h={trace.decision.height}, round={trace.decision.round})")
  ensureLocalRuntimeMintEligibility wallet eligibility
  return trace

/-- The runtime eligibility plays no part. -/
def validateProposerFromBlockTimestamp (timestamp : UInt64) (proposer : String) :
    Fallible LeaderTrace := do
  let proposer ← canonWalletIdChecked proposer
  let trace ← traceForTimestamp vs tm parentHash height timestamp
  rejectIf (¬trace.snapshot.containsWallet proposer) (validationErr
    s!"proposer '{proposer}' is not in canonical committee for block height {height} timestamp {timestamp} committee_hash={Blake3.toHex trace.snapshot.committeeHash.toList}")
  rejectIf (¬eqIgnoreAsciiCase trace.decision.leader proposer) (validationErr
    s!"rogue proposer for block height {height} timestamp {timestamp} round {trace.decision.round}: proposer='{proposer}' leader='{trace.decision.leader}' committee_hash={Blake3.toHex trace.snapshot.committeeHash.toList}")
  return trace

end

/-! ### What the schedule says -/

section Canon

theorem canonWalletIdChecked_lower {id wallet : String}
    (h : canonWalletIdChecked id = .ok wallet) : toAsciiLowercase wallet = wallet :=
  (canonWalletIdChecked_canonical h).lower

/-- Between wallets in canonical form case makes no difference. -/
theorem eqIgnoreAsciiCase_iff {a b : String} (ha : toAsciiLowercase a = a)
    (hb : toAsciiLowercase b = b) : eqIgnoreAsciiCase a b = true ↔ a = b := by
  rw [eqIgnoreAsciiCase, ha, hb, decide_eq_true_iff]

theorem canonSet_lower {raw wallets : List String} (h : canonSet raw = .ok wallets) :
    ∀ w ∈ wallets, toAsciiLowercase w = w := by
  simp only [canonSet, bind_eq_ok_iff, pure_eq_ok_iff] at h
  obtain ⟨canon, hcanon, rfl⟩ := h
  intro w hw
  have hmem : w ∈ canon := by
    rw [ExtTreeSet.mem_toList, ExtTreeSet.mem_ofList] at hw
    exact List.contains_iff_mem.mp hw
  obtain ⟨i, hi, rfl⟩ := List.getElem_of_mem hmem
  obtain ⟨hlen, hget⟩ := List.forall₂_iff_get.mp (forall₂_of_mapM hcanon)
  have hid := hget i (hlen ▸ hi) hi
  exact canonWalletIdChecked_lower hid

end Canon

section Schedule
variable [Blake3] {vs : ValidatorState} {tm : TimeManager} {parentHash : Hash} {height : UInt64}
  {s : CommitteeSnapshot}

theorem committeeSnapshot_ok (h : committeeSnapshot vs tm parentHash height = .ok s) :
    validateSnapshotInvariants s = .ok () ∧ ∀ v ∈ s.validators, toAsciiLowercase v = v := by
  simp only [committeeSnapshot, bind_eq_ok_iff, pure_eq_ok_iff] at h
  obtain ⟨validators, hvalidators, _, hvalid, rfl⟩ := h
  refine ⟨hvalid, ?_⟩
  simp only [canonicalValidatorsForHeight, normalizeActiveValidators, bind_eq_ok_iff,
    pure_eq_ok_iff] at hvalidators
  obtain ⟨_, -, _, -, _, -, wallets, hset, _, -, _, -, rfl⟩ := hvalidators
  exact canonSet_lower hset

/-- A sound committee has a leader in every round, one of its members. -/
theorem leaderForRound_ok (h : validateSnapshotInvariants s = .ok ()) (round : UInt64) :
    ∃ d, leaderForRound s round = .ok d ∧ d.leader ∈ s.validators := by
  have hne : s.validators ≠ [] := by
    simp only [validateSnapshotInvariants, bind_eq_ok_iff, rejectIf_eq_ok_iff] at h
    obtain ⟨_, -, _, hne, -⟩ := h
    exact hne
  let scored := s.validators.map fun v =>
    (leaderScore s.committeeHash s.parentHash s.height round v, v)
  let ordered := (scored.insertionSort fun a b => (scoreOrder a b).isLE).map Prod.snd
  have hordered : orderedValidatorsForRound s round = .ok ordered := by
    rw [orderedValidatorsForRound, h]
    rfl
  -- Sorting only permutes, so the first of the order is a validator.
  have hperm : ordered.Perm s.validators := by
    have hsort := (List.perm_insertionSort (fun a b => (scoreOrder a b).isLE) scored).map Prod.snd
    have hback : scored.map Prod.snd = s.validators := by
      rw [List.map_map]
      exact List.map_id _
    rw [hback] at hsort
    exact hsort
  cases hlist : ordered with
  | nil => exact absurd (hlist ▸ hperm).nil_eq.symm hne
  | cons leader rest =>
    have hmem : leader ∈ s.validators := by
      apply hperm.mem_iff.mp
      rw [hlist]
      exact List.mem_cons_self
    obtain ⟨i, hi⟩ : ∃ i, s.validators.findIdx? (fun v => eqIgnoreAsciiCase v leader) = some i := by
      apply Option.isSome_iff_exists.mp
      rw [List.findIdx?_isSome, List.any_eq_true]
      exact ⟨leader, hmem, decide_eq_true rfl⟩
    refine ⟨⟨s.height, round, s.parentHash, s.committeeHash, leader, i, s.validators.length⟩, ?_, hmem⟩
    rw [leaderForRound, h, hordered, hlist]
    simp only [ok_bind, List.head?_cons, okOr, hi]
    rfl

/-- Whose turn it is at a time, if the height has started. -/
def scheduledLeader (vs : ValidatorState) (tm : TimeManager) (parentHash : Hash)
    (height time : UInt64) : Option String :=
  match traceForTimestamp vs tm parentHash height time with
  | .ok trace => some trace.decision.leader
  | .error _ => none

theorem traceAt_ok {observed : UInt64} {found : Fallible RoundTime} {trace : LeaderTrace}
    (h : traceAt vs tm parentHash height observed found = .ok trace) :
    trace.decision.leader ∈ trace.snapshot.validators ∧
      ∀ v ∈ trace.snapshot.validators, toAsciiLowercase v = v := by
  simp only [traceAt, bind_eq_ok_iff, pure_eq_ok_iff] at h
  obtain ⟨snapshot, hsnapshot, time, -, decision, hdecision, rfl⟩ := h
  obtain ⟨hvalid, hlower⟩ := committeeSnapshot_ok hsnapshot
  obtain ⟨d, hd, hmem⟩ := leaderForRound_ok hvalid time.round
  obtain rfl := Except.ok.inj (hdecision.symm.trans hd)
  exact ⟨hmem, hlower⟩

theorem scheduledLeader_start {time : UInt64} {wallet : String}
    (h : scheduledLeader vs tm parentHash height time = some wallet) :
    heightStartUnix tm height ≤ time := by
  rw [scheduledLeader] at h
  split at h
  · rename_i trace htrace
    simp only [traceForTimestamp, traceAt, roundForHeightFromTimestamp, bind_eq_ok_iff,
      rejectIf_eq_ok_iff] at htrace
    obtain ⟨_, -, _, ⟨_, -, _, hstart, -⟩, -⟩ := htrace
    exact UInt64.not_lt.mp hstart
  · cases h

/-- A validator accepts exactly the wallet whose turn it was at the time of the block. -/
theorem validateProposerFromBlockTimestamp_iff {wallet : String}
    (hwallet : canonWalletIdChecked wallet = .ok wallet) (timestamp : UInt64) :
    succeeds (validateProposerFromBlockTimestamp vs tm parentHash height timestamp wallet) = true ↔
      scheduledLeader vs tm parentHash height timestamp = some wallet := by
  have hlower := canonWalletIdChecked_lower hwallet
  rw [validateProposerFromBlockTimestamp, hwallet, ok_bind, scheduledLeader]
  cases htrace : traceForTimestamp vs tm parentHash height timestamp with
  | error e =>
    constructor
    · intro h
      cases h
    · intro h
      cases h
  | ok trace =>
    obtain ⟨hmem, hmembers⟩ := traceAt_ok htrace
    have hsame := eqIgnoreAsciiCase_iff (hmembers _ hmem) hlower
    rw [succeeds_iff, Option.some.injEq]
    simp only [bind_eq_ok_iff, rejectIf_eq_ok_iff, pure_eq_ok_iff, not_not, Except.ok.injEq]
    constructor
    · rintro ⟨_, _, rfl, _, -, _, hleader, -⟩
      exact hsame.mp hleader
    · intro hleader
      have hin : trace.snapshot.containsWallet wallet = true := by
        rw [CommitteeSnapshot.containsWallet, List.any_eq_true]
        exact ⟨_, hmem, hsame.mpr hleader⟩
      exact ⟨trace, trace, rfl, (), hin, (), hsame.mpr hleader, rfl⟩

/-- A miner is authorized only in its own turn, a clock within the drift counting as the start. -/
theorem assertLocalCanMintNow_leader {wallet : String} {eligibility : CommitteeEligibility}
    {now : UInt64} {trace : LeaderTrace} (hwallet : canonWalletIdChecked wallet = .ok wallet)
    (h : assertLocalCanMintNow vs tm parentHash height wallet eligibility now = .ok trace) :
    scheduledLeader vs tm parentHash height (max now (heightStartUnix tm height)) = some wallet := by
  simp only [assertLocalCanMintNow, bind_eq_ok_iff, rejectIf_eq_ok_iff, pure_eq_ok_iff,
    not_not] at h
  obtain ⟨_, htrace, _, -, _, hleader, _, -, rfl⟩ := h
  obtain ⟨hmem, hmembers⟩ := traceAt_ok htrace
  have hsame := (eqIgnoreAsciiCase_iff (hmembers _ hmem) (canonWalletIdChecked_lower hwallet)).mp hleader
  simp only [traceForNow, traceAt, roundForHeightNow, bind_eq_ok_iff, pure_eq_ok_iff] at htrace
  obtain ⟨snapshot, hsnapshot, time, ⟨_, -, _, -, htime⟩, decision, hdecision, rfl⟩ := htrace
  rw [scheduledLeader, traceForTimestamp, traceAt, hsnapshot, ok_bind, htime, ok_bind, hdecision]
  exact congrArg some hsame

/-- Times of one failover window have one leader. -/
theorem scheduledLeader_same_round {t t' : UInt64} (ht : heightStartUnix tm height ≤ t)
    (ht' : heightStartUnix tm height ≤ t')
    (hround : saturatingSub t (heightStartUnix tm height)/tau tm =
      saturatingSub t' (heightStartUnix tm height)/tau tm) :
    scheduledLeader vs tm parentHash height t = scheduledLeader vs tm parentHash height t' := by
  have hnot := UInt64.not_lt.mpr ht
  have hnot' := UInt64.not_lt.mpr ht'
  rw [scheduledLeader, scheduledLeader, traceForTimestamp, traceForTimestamp, traceAt, traceAt,
    roundForHeightFromTimestamp, roundForHeightFromTimestamp]
  cases committeeSnapshot vs tm parentHash height with
  | error e => rfl
  | ok s =>
    by_cases hzero : height = 0
    · simp only [rejectIf, if_pos hzero]
      rfl
    · simp only [ok_bind, rejectIf_of_not _ hzero, rejectIf_of_not _ hnot, rejectIf_of_not _ hnot',
        pure_bind_ok, hround]
      cases leaderForRound s (saturatingSub t' (heightStartUnix tm height)/tau tm) with
      | error e => rfl
      | ok d => rfl

end Schedule
end LeaderSchedule

end Remzar
