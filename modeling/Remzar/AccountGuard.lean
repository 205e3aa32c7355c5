import Mathlib
import Remzar.RockDB

/-! The consensus guard: batch structure, the deterministic state transition, and the
invariants checked on every resulting state. -/
namespace Remzar
open Std Fallible Checked Ledger

structure InnerTree where
  balances : Balances
  tipHeight : UInt64
  tipHash : Hash
  prevTipHash : Hash
  hasTip : Bool
  blocks : List Block
  totalIssuedMicro : UInt64
  rewardsIssuedMicro : UInt64
  reservedIssuedMicro : UInt64

namespace InnerTree

def empty : InnerTree := ⟨∅, 0, zeroHash, zeroHash, false, [], 0, 0, 0⟩

def expectedNextHeight (s : InnerTree) : UInt64 :=
  if s.hasTip then saturatingAdd s.tipHeight 1 else 0

def currentTipHash (s : InnerTree) : Option Hash := if s.hasTip then some s.tipHash else none

def currentPrevTipHash (s : InnerTree) : Option Hash :=
  if s.hasTip then some s.prevTipHash else none

end InnerTree

inductive ApplyMode where
  | live
  | replay
  deriving DecidableEq

structure ApplyContext where
  mode : ApplyMode
  blockHeight : UInt64
  blockHash : Hash
  previousHash : Hash
  allowDuplicateRewardInBatch : Bool

abbrev Touched := ExtTreeSet String Text.byteOrder

structure BatchApplyOutcome where
  touchedAccounts : Touched
  totalSupplyMicro : UInt64
  fingerprintHex : String

def maxBatchSerializedBytes : ℕ := maxBlockSize + maxBatchSerializedOverhead

def normalizeWalletBytes (bytes : List UInt8) : String :=
  let cs := Text.chars (fromUtf8Lossy bytes)
  String.ofList (trimChars (dropEndWhile (· == Char.ofNat 0) cs))

def isAsciiControl (b : UInt8) : Bool := b < 0x20 || b == 0x7F

def validateAccountKeyString (account label : String) : Fallible Unit := do
  rejectIf (account = "") (validationErr s!"{label} must be non-empty")
  rejectIf (maxAccountKeyBytes < byteLen account) (validationErr
    s!"{label} is too long: {byteLen account} > {maxAccountKeyBytes} bytes")
  rejectIf ((Text.utf8 account).any isAsciiControl)
    (validationErr s!"{label} contains ASCII control bytes")

/-! ### Batch structure -/

namespace AccountGuard

def validateBatchPayloadSize (batch : TransactionBatch) : Fallible Unit :=
  rejectIf (maxBatchSerializedBytes < batch.serializedLen) (validationErr
    s!"Batch {batch.index} serialized length {batch.serializedLen} exceeds guarded cap {maxBatchSerializedBytes}")

def validateTransfer (tx : Transaction) : Fallible Unit := do
  let sender := normalizeWalletBytes tx.sender.toList
  let receiver := normalizeWalletBytes tx.receiver.toList
  rejectIf (tx.amount = 0) (validationErr "Transfer tx amount must be non-zero")
  validateAccountKeyString sender "Transfer sender"
  validateAccountKeyString receiver "Transfer receiver"
  rejectIf (sender = receiver)
    (validationErr "Transfer tx sender and receiver cannot be the same")
  rejectIf (maxTxAmount < tx.amount) (validationErr
    s!"Transfer tx amount {tx.amount} exceeds allowed max {maxTxAmount}")

def validateReward (rew : RewardTx) : Fallible Unit := do
  let receiver := normalizeWalletBytes rew.receiver.toList
  rejectIf (rew.amount = 0) (validationErr "Reward tx amount must be non-zero")
  validateAccountKeyString receiver "Reward receiver"
  rejectIf (maxBlockReward < rew.amount) (validationErr
    s!"Reward tx amount {rew.amount} exceeds max block reward {maxBlockReward}")

-- The accumulator holds the transfer ids seen so far and the number of rewards.
def validateKind [Blake3] (acc : List String × ℕ) : TxKind → Fallible (List String × ℕ)
  | .transfer tx => do
    validateTransfer tx
    let id ← tx.id
    rejectIf (id ∈ acc.1) (validationErr "Duplicate transfer transaction detected in batch")
    return (id :: acc.1, acc.2)
  | .reward rew => do
    validateReward rew
    return (acc.1, acc.2 + 1)
  | .registerNode reg => do
    validateAccountKeyString (normalizeWalletBytes reg.walletAddress.toList) "RegisterNode wallet"
    return acc
  | .nftMint _ => .ok acc
  | .nftTransfer _ => .ok acc

def validateBatchStructureWithRewardPolicy [Blake3] (batch : TransactionBatch)
    (allowDuplicateRewardInBatch : Bool) : Fallible Unit := do
  validateBatchPayloadSize batch
  rejectIf (maxTxsPerBlock < batch.transactions.length) (validationErr
    s!"Batch {batch.index} contains too many transactions: {batch.transactions.length} > {maxTxsPerBlock}")
  let (_, rewardCount) ← batch.transactions.foldlM validateKind ([], 0)
  rejectIf (!allowDuplicateRewardInBatch ∧ 1 < rewardCount) (validationErr
    s!"Batch {batch.index} contains multiple reward transactions: {rewardCount}")

def validateBatchStructure [Blake3] (batch : TransactionBatch) : Fallible Unit :=
  validateBatchStructureWithRewardPolicy batch false

def validateApplyContext (ctx : ApplyContext) : Fallible Unit := do
  rejectIf (ctx.blockHash = zeroHash) (validationErr
    s!"ApplyContext for height {ctx.blockHeight} has all-zero block_hash")
  rejectIf (0 < ctx.blockHeight ∧ ctx.previousHash = zeroHash) (validationErr
    s!"ApplyContext for non-genesis height {ctx.blockHeight} has all-zero previous_hash")
  rejectIf (ctx.mode = .live ∧ ctx.allowDuplicateRewardInBatch)
    (validationErr "Live ApplyContext cannot allow duplicate reward transactions")

/-! ### The state transition -/

def addSpend (spend : Balances) : TxKind → Fallible Balances
  | .transfer tx => do
    let sender := normalizeWalletBytes tx.sender.toList
    let sum ← okOr (checkedAdd (amount spend sender) tx.amount)
      (validationErr "Overflow while aggregating per-sender batch spend")
    return spend.insert sender sum
  | _ => .ok spend

-- Every sender must cover its whole batch spend from the balance before the batch.
def checkSpend (balances spend : Balances) : Fallible Unit :=
  spend.toList.forM fun (sender, totalSpend) =>
    let bal := amount balances sender
    rejectIf (bal < totalSpend) (validationErr
      s!"Insufficient balance for {sender}: need {totalSpend}, have {bal}")

def debit (balances : Balances) (sender : String) (value : UInt64) : Fallible Balances := do
  let left ← okOr (checkedSub (amount balances sender) value)
    (validationErr s!"Transfer underflow on sender {sender}")
  return balances.insert sender left

def credit (balances : Balances) (receiver : String) (value : UInt64) (overflow cap : String) :
    Fallible Balances := do
  let sum ← okOr (checkedAdd (amount balances receiver) value) (validationErr overflow)
  rejectIf (maxSupply < sum) (validationErr cap)
  return balances.insert receiver sum

def applyTransfer (s : InnerTree) (tx : Transaction) (touched : Touched) :
    Fallible (InnerTree × Touched) := do
  let sender := normalizeWalletBytes tx.sender.toList
  let receiver := normalizeWalletBytes tx.receiver.toList
  validateAccountKeyString sender "Transfer sender"
  validateAccountKeyString receiver "Transfer receiver"
  let debited ← debit s.balances sender tx.amount
  let credited ← credit debited receiver tx.amount
    s!"Transfer overflow crediting receiver {receiver} by {tx.amount}"
    s!"Receiver {receiver} balance exceeds MAX_SUPPLY after transfer"
  return ({ s with balances := credited }, (touched.insert sender).insert receiver)

def applyReward (s : InnerTree) (rew : RewardTx) (touched : Touched) :
    Fallible (InnerTree × Touched) := do
  let receiver := normalizeWalletBytes rew.receiver.toList
  validateAccountKeyString receiver "Reward receiver"
  let rewards ← okOr (checkedAdd s.rewardsIssuedMicro rew.amount)
    (validationErr "Overflow rewards_issued_micro")
  let total ← okOr (checkedAdd s.totalIssuedMicro rew.amount)
    (validationErr "Overflow total_issued_micro")
  rejectIf (maxSupply < total) (validationErr
    s!"Mint cap exceeded: total_issued {total} > MAX_SUPPLY {maxSupply}")
  let credited ← credit s.balances receiver rew.amount
    s!"Reward overflow crediting receiver {receiver} by {rew.amount}"
    s!"Receiver {receiver} balance exceeds MAX_SUPPLY after reward"
  return ({ s with
    balances := credited, rewardsIssuedMicro := rewards, totalIssuedMicro := total },
    touched.insert receiver)

def applyTxkindToState (acc : InnerTree × Touched) : TxKind → Fallible (InnerTree × Touched)
  | .transfer tx => applyTransfer acc.1 tx acc.2
  | .reward rew => applyReward acc.1 rew acc.2
  | .registerNode reg => do
    let wallet := normalizeWalletBytes reg.walletAddress.toList
    validateAccountKeyString wallet "RegisterNode wallet"
    return (acc.1, acc.2.insert wallet)
  | .nftMint _ => .ok acc
  | .nftTransfer _ => .ok acc

def verifyTouchedAccountBound (batch : TransactionBatch) (touched : Touched) : Fallible Unit :=
  let cap := min (batch.transactions.length*maxTouchedAccountsPerTx)
    (maxTxsPerBlock*maxTouchedAccountsPerTx)
  rejectIf (cap < touched.size) (validationErr
    s!"Touched-account set too large for batch {batch.index}: {touched.size} > {cap}")

/-! ### State invariants -/

def sumBalancesChecked (balances : Balances) : Fallible UInt64 :=
  okOr (checkedTotal balances) (validationErr "Overflow while summing balances")

def verifyCompactTipShape (s : InnerTree) : Fallible Unit :=
  if s.hasTip then do
    rejectIf (s.tipHash = zeroHash) (validationErr
      "Invariant violation: compact state has_tip=true but tip_hash is zero")
    rejectIf (0 < s.tipHeight ∧ s.prevTipHash = zeroHash) (validationErr
      s!"Invariant violation: non-genesis compact tip {s.tipHeight} has zero prev_tip_hash")
  else rejectIf (s.tipHeight ≠ 0 ∨ s.tipHash ≠ zeroHash ∨ s.prevTipHash ≠ zeroHash)
    (validationErr "Invariant violation: no-tip state must have zero tip metadata")

def verifyAccount (acct : String) (bal : UInt64) : Fallible Unit := do
  validateAccountKeyString acct "Account state key"
  rejectIf (maxSupply < bal) (validationErr
    s!"Invariant violation: account {acct} balance {bal} exceeds MAX_SUPPLY {maxSupply}")

def verifySupply (s : InnerTree) : Fallible Unit := do
  let totalSupply ← sumBalancesChecked s.balances
  rejectIf (maxSupply < totalSupply) (validationErr
    s!"Invariant violation: total_supply {totalSupply} exceeds MAX_SUPPLY {maxSupply}")
  rejectIf (s.totalIssuedMicro < s.rewardsIssuedMicro) (validationErr
    s!"Invariant violation: rewards_issued_micro {s.rewardsIssuedMicro} > total_issued_micro {s.totalIssuedMicro}")
  rejectIf (maxSupply < s.totalIssuedMicro) (validationErr
    s!"Invariant violation: total_issued_micro {s.totalIssuedMicro} > MAX_SUPPLY {maxSupply}")
  -- The default configuration enforces equality: nothing is ever burned.
  rejectIf (totalSupply ≠ s.totalIssuedMicro) (validationErr
    s!"Invariant violation: total_supply {totalSupply} != total_issued_micro {s.totalIssuedMicro}")

def verifyContiguousRecentBlocks : List Block → Fallible Unit
  | prev :: block :: rest => do
    rejectIf (block.metadata.index ≠ saturatingAdd prev.metadata.index 1) (validationErr
      s!"Invariant violation: non-contiguous recent block cache: {prev.metadata.index} then {block.metadata.index}")
    rejectIf (block.metadata.previousHash ≠ prev.blockHash) (validationErr
      s!"Invariant violation: previous_hash mismatch in recent cache at height {block.metadata.index}")
    verifyContiguousRecentBlocks (block :: rest)
  | _ => .ok ()

def verifyRecentTip (s : InnerTree) (last : Block) : Fallible Unit := do
  rejectIf (last.metadata.index ≠ s.tipHeight ∨ last.blockHash ≠ s.tipHash) (validationErr
    s!"Invariant violation: recent cache tip mismatch: cache_height={last.metadata.index} compact_height={s.tipHeight} cache_hash={Blake3.toHex last.blockHash.toList} compact_hash={Blake3.toHex s.tipHash.toList}")
  rejectIf (last.metadata.previousHash ≠ s.prevTipHash) (validationErr
    (if s.tipHeight = 0 then
      "Invariant violation: genesis prev_tip_hash does not match genesis previous_hash"
    else s!"Invariant violation: recent tip previous_hash mismatch at height {last.metadata.index}"))

def verifyRecentBlockCache (s : InnerTree) : Fallible Unit := do
  rejectIf (maxRecentBlocksInRam < s.blocks.length) (validationErr
    s!"Invariant violation: recent block cache len {s.blocks.length} exceeds max {maxRecentBlocksInRam}")
  if s.hasTip then do
    verifyContiguousRecentBlocks s.blocks
    match s.blocks.getLast? with
    | some last => verifyRecentTip s last
    | none => .ok ()
  else
    rejectIf (s.blocks ≠ []) (validationErr
      "Invariant violation: state has recent blocks but no compact tip")

def verifyRecentCacheNotFullHistoryRegression (s : InnerTree) : Fallible Unit :=
  if !s.hasTip ∨ s.blocks.length < maxRecentBlocksInRam then .ok ()
  else match s.blocks.head? with
    | none => .ok ()
    | some first =>
      rejectIf (maxRecentBlocksInRam ≤ s.tipHeight.toNat ∧ first.metadata.index = 0) (validationErr
        s!"Invariant violation: recent block cache appears to contain genesis-to-tip history at tip {s.tipHeight} (len {s.blocks.length}). Full history must stay in RocksDB.")

def verifyExpectedTip (s : InnerTree) (height : UInt64) (hash prev : Hash) : Fallible Unit := do
  rejectIf (!s.hasTip) (validationErr
    s!"Invariant violation: expected tip height {height}, but state has no tip")
  rejectIf (s.tipHeight ≠ height) (validationErr
    s!"Invariant violation: expected tip height {height}, got {s.tipHeight}")
  rejectIf (s.tipHash ≠ hash) (validationErr
    s!"Invariant violation: expected tip hash {Blake3.toHex hash.toList}, got {Blake3.toHex s.tipHash.toList}")
  rejectIf (s.prevTipHash ≠ prev) (validationErr
    s!"Invariant violation: expected previous tip hash {Blake3.toHex prev.toList}, got {Blake3.toHex s.prevTipHash.toList}")

-- `expected` is the tip the caller insists on, if any.
def verifyStateInvariants (s : InnerTree) (expected : Option (UInt64 × Hash × Hash)) :
    Fallible Unit := do
  verifyCompactTipShape s
  s.balances.toList.forM fun (acct, bal) => verifyAccount acct bal
  verifySupply s
  verifyRecentBlockCache s
  verifyRecentCacheNotFullHistoryRegression s
  match expected with
  | none => .ok ()
  | some (height, hash, prev) => verifyExpectedTip s height hash prev

/-! ### Fingerprint -/

structure StableHasher where
  lo : UInt64
  hi : UInt64

namespace StableHasher

def new : StableHasher := ⟨0xcbf29ce484222325, 0x84222325cbf29ce4⟩

def updateByte (h : StableHasher) (b : UInt8) : StableHasher :=
  ⟨(h.lo ^^^ b.toUInt64)*0x100000001b3, (h.hi ^^^ (b.toUInt64 <<< 1))*0x9e3779b185ebca87⟩

def updateBytes (h : StableHasher) (bytes : List UInt8) : StableHasher := bytes.foldl updateByte h

def updateU64 (h : StableHasher) (n : UInt64) : StableHasher := h.updateBytes (Block.u64Be n)

def updateStr (h : StableHasher) (s : String) : StableHasher :=
  (h.updateU64 (UInt64.ofNat (byteLen s))).updateBytes (Text.utf8 s)

def finishHex128 (h : StableHasher) : String :=
  Blake3.toHex (Block.u64Be h.hi ++ Block.u64Be h.lo)

end StableHasher

def fingerprintHex (s : InnerTree) (ctx : ApplyContext) (touched : Touched)
    (totalSupply : UInt64) : String :=
  let h := StableHasher.new.updateStr "REMZAR_ACCOUNT_STATE_FINGERPRINT_V2"
  let h := h.updateU64 ctx.blockHeight
  let h := h.updateU64 s.totalIssuedMicro
  let h := h.updateU64 s.rewardsIssuedMicro
  let h := h.updateU64 totalSupply
  let h := h.updateBytes [if s.hasTip then 1 else 0]
  let h := h.updateU64 s.tipHeight
  let h := h.updateBytes (s.tipHash.toList ++ s.prevTipHash.toList)
  let h := h.updateBytes (ctx.blockHash.toList ++ ctx.previousHash.toList)
  let h := touched.toList.foldl
    (fun h acct => (h.updateStr acct).updateU64 (amount s.balances acct)) h
  h.finishHex128

/-! ### Batches and blocks -/

def applyBatchToState [Blake3] (s : InnerTree) (batch : TransactionBatch) (ctx : ApplyContext) :
    Fallible (InnerTree × BatchApplyOutcome) := do
  validateApplyContext ctx
  validateBatchStructureWithRewardPolicy batch ctx.allowDuplicateRewardInBatch
  rejectIf (batch.index ≠ ctx.blockHeight) (validationErr
    s!"Batch index {batch.index} does not match context block height {ctx.blockHeight}")
  let spend ← batch.transactions.foldlM addSpend ∅
  checkSpend s.balances spend
  let (next, touched) ← batch.transactions.foldlM applyTxkindToState (s, ∅)
  verifyTouchedAccountBound batch touched
  verifyStateInvariants next none
  let totalSupply ← sumBalancesChecked next.balances
  return (next, ⟨touched, totalSupply, fingerprintHex next ctx touched totalSupply⟩)

def drainExcess (blocks : List Block) : List Block :=
  blocks.drop (blocks.length - maxRecentBlocksInRam)

def tipPreviousHash (s : InnerTree) (block : Block) : Hash :=
  if s.hasTip then s.tipHash else block.metadata.previousHash

def rememberRecentBlockForGuard (s : InnerTree) (block : Block) : InnerTree :=
  let alreadyLast := match s.blocks.getLast? with
    | some last =>
      last.metadata.index == block.metadata.index && last.blockHash == block.blockHash
    | none => false
  { s with
    prevTipHash := tipPreviousHash s block
    tipHeight := block.metadata.index
    tipHash := block.blockHash
    hasTip := true
    blocks := drainExcess (if alreadyLast then s.blocks else s.blocks ++ [block]) }

def dryRunBlockAndBatch [Blake3] (s : InnerTree) (block : Block) (batch : TransactionBatch) :
    Fallible (InnerTree × BatchApplyOutcome) := do
  rejectIf (block.metadata.index ≠ s.expectedNextHeight) (validationErr
    s!"Dry-run expected next height {s.expectedNextHeight}, got {block.metadata.index}")
  rejectIf (s.hasTip ∧ block.metadata.previousHash ≠ s.tipHash) (validationErr
    s!"Dry-run previous_hash mismatch at height {block.metadata.index}: expected {Blake3.toHex s.tipHash.toList}, got {Blake3.toHex block.metadata.previousHash.toList}")
  let prevHash := tipPreviousHash s block
  let ctx : ApplyContext := ⟨.live, block.metadata.index, block.blockHash, prevHash, false⟩
  let (next, outcome) ← applyBatchToState (rememberRecentBlockForGuard s block) batch ctx
  verifyStateInvariants next (some (block.metadata.index, block.blockHash, prevHash))
  return (next, outcome)

-- Below the bounded cache every height counts as already handled.
def checkCanonicalIdempotency (s : InnerTree) (block : Block) : Fallible Bool :=
  if !s.hasTip then .ok false
  else if block.metadata.index = s.tipHeight then do
    rejectIf (block.blockHash ≠ s.tipHash) (validationErr
      s!"Conflicting canonical tip at height {block.metadata.index}: existing={Blake3.toHex s.tipHash.toList} incoming={Blake3.toHex block.blockHash.toList}")
    return true
  else if s.tipHeight < block.metadata.index then .ok false
  else match s.blocks.find? (fun existing => existing.metadata.index = block.metadata.index) with
    | some existing => do
      rejectIf (existing.blockHash ≠ block.blockHash) (validationErr
        s!"Conflicting recent canonical block at height {block.metadata.index}: existing={Blake3.toHex existing.blockHash.toList} incoming={Blake3.toHex block.blockHash.toList}")
      return true
    | none => .ok true

end AccountGuard

end Remzar
