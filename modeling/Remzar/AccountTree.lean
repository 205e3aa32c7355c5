import Mathlib
import Remzar.Nft
import Remzar.AccountGuard

/-! The account tree: the in-memory chain state of a node, its queue of early blocks,
and the operations that advance, persist and rebuild it. -/
namespace Remzar
open Std Fallible Effects Checked Ledger AccountGuard

/-- Queued blocks are filed under their own height. -/
structure AccountModelTree where
  inner : InnerTree
  pendingBlocks : ExtTreeMap UInt64 Block
  pending_keyed : ∀ (h : UInt64) (b : Block), pendingBlocks[h]? = some b → b.metadata.index = h

/-- A tree and the database it works on. -/
structure ChainState where
  db : RockDB
  tree : AccountModelTree

namespace AccountModelTree

def withManager : AccountModelTree := ⟨InnerTree.empty, ∅, by simp⟩

def withInner (t : AccountModelTree) (inner : InnerTree) : AccountModelTree :=
  { t with inner := inner }

def queue (t : AccountModelTree) (block : Block) : AccountModelTree where
  inner := t.inner
  pendingBlocks := t.pendingBlocks.insert block.metadata.index block
  pending_keyed h b hb := by
    rw [ExtTreeMap.getElem?_insert] at hb
    split at hb
    · rename_i hcmp
      rw [← Option.some.inj hb]
      exact LawfulEqOrd.eq_of_compare hcmp
    · exact t.pending_keyed h b hb

def unqueue (t : AccountModelTree) (height : UInt64) : AccountModelTree where
  inner := t.inner
  pendingBlocks := t.pendingBlocks.erase height
  pending_keyed h b hb := by
    rw [ExtTreeMap.getElem?_erase] at hb
    split at hb
    · cases hb
    · exact t.pending_keyed h b hb

/-- Only blocks above `height` stay queued. -/
def retainPending (t : AccountModelTree) (height : UInt64) : AccountModelTree where
  inner := t.inner
  pendingBlocks := t.pendingBlocks.filter fun h _ => decide (height < h)
  pending_keyed h b hb := by
    refine t.pending_keyed h b ?_
    rw [ExtTreeMap.getElem?_filter] at hb
    cases hp : t.pendingBlocks[h]? with
    | none => simp [hp] at hb
    | some b' =>
      simp only [hp, Option.pfilter_some] at hb
      split at hb
      · exact hb
      · cases hb

end AccountModelTree

/-! ### Links and compact invariants -/

def validateNextBlockLink (s : InnerTree) (block : Block) : Fallible Unit := do
  rejectIf (block.metadata.index ≠ s.expectedNextHeight) (validationErr
    s!"Block height mismatch: expected next {s.expectedNextHeight}, got {block.metadata.index}")
  rejectIf (s.hasTip ∧ block.metadata.previousHash ≠ s.tipHash) (validationErr
    s!"Block {block.metadata.index} has invalid previous_hash: expected {Blake3.toHex s.tipHash.toList}, got {Blake3.toHex block.metadata.previousHash.toList}")

def rememberRecentBlock (s : InnerTree) (block : Block) : InnerTree :=
  { s with
    prevTipHash := tipPreviousHash s block
    tipHeight := block.metadata.index
    tipHash := block.blockHash
    hasTip := true
    blocks := drainExcess (s.blocks ++ [block]) }

def verifyContiguousCache : List Block → Fallible Unit
  | prev :: next :: rest => do
    rejectIf (next.metadata.index ≠ saturatingAdd prev.metadata.index 1) (validationErr
      s!"Recent block cache is not contiguous: {prev.metadata.index} then {next.metadata.index}")
    rejectIf (next.metadata.previousHash ≠ prev.blockHash) (validationErr
      s!"Recent block cache linkage failed at height {next.metadata.index}")
    verifyContiguousCache (next :: rest)
  | _ => .ok ()

def verifyCompactSupply (s : InnerTree) : Fallible Unit := do
  let balanceSum ← okOr (checkedTotal s.balances)
    (validationErr "Overflow while summing account balances")
  rejectIf (maxSupply < balanceSum) (validationErr
    s!"Balance sum exceeds MAX_SUPPLY: {balanceSum} > {maxSupply}")
  rejectIf (maxSupply < s.totalIssuedMicro) (validationErr
    s!"total_issued_micro exceeds MAX_SUPPLY: {s.totalIssuedMicro} > {maxSupply}")
  rejectIf (maxRewardSupply < s.rewardsIssuedMicro) (validationErr
    s!"rewards_issued_micro exceeds MAX_REWARD_SUPPLY: {s.rewardsIssuedMicro} > {maxRewardSupply}")

def verifyTipHeight (s : InnerTree) : Option UInt64 → Fallible Unit
  | none => .ok ()
  | some expected => do
    rejectIf (!s.hasTip) (validationErr
      s!"Expected tip height {expected}, but compact state has no tip")
    rejectIf (s.tipHeight ≠ expected) (validationErr
      s!"Tip height mismatch: expected {expected}, got {s.tipHeight}")

-- The tip hash and the previous tip hash are compared in the same way.
def verifyTipField (s : InnerTree) (what : String) (actual : Hash) : Option Hash → Fallible Unit
  | none => .ok ()
  | some expected => rejectIf (!s.hasTip ∨ actual ≠ expected) (validationErr
    s!"{what} mismatch: expected {Blake3.toHex expected.toList}, got {Blake3.toHex actual.toList}")

def verifyCacheTip (s : InnerTree) : Fallible Unit :=
  match s.blocks.getLast? with
  | none => .ok ()
  | some last =>
    rejectIf (!s.hasTip ∨ last.metadata.index ≠ s.tipHeight ∨ last.blockHash ≠ s.tipHash)
      (validationErr "Recent block cache tip does not match compact tip metadata")

def verifyCompactStateInvariants (s : InnerTree) (expectedTipHeight : Option UInt64)
    (expectedTipHash expectedPrevHash : Option Hash) : Fallible Unit := do
  rejectIf (maxRecentBlocksInRam < s.blocks.length) (validationErr
    s!"Recent block cache exceeded bound: len={s.blocks.length} max={maxRecentBlocksInRam}")
  verifyTipHeight s expectedTipHeight
  verifyTipField s "Tip hash" s.tipHash expectedTipHash
  verifyTipField s "Previous tip hash" s.prevTipHash expectedPrevHash
  verifyContiguousCache s.blocks
  verifyCacheTip s
  verifyCompactSupply s

/-! ### Adding blocks and batches -/

namespace AccountModelTree

-- A block at the expected height becomes the tip before the invariants are checked,
-- and stays the tip when that check fails.
def acceptNext (t : AccountModelTree) (block : Block) : Fallible Unit × AccountModelTree :=
  match validateNextBlockLink t.inner block with
  | .error e => (.error e, t)
  | .ok () =>
    let inner := rememberRecentBlock t.inner block
    (verifyCompactStateInvariants inner (some t.inner.expectedNextHeight) (some inner.tipHash) none,
      t.withInner inner)

-- The block taken from the queue is added with `add_block`, which works through the
-- queue itself before the loop here continues. One unit of fuel per queued block.
def processPendingBlocks : ℕ → AccountModelTree → AccountModelTree
  | 0, t => t
  | fuel+1, t =>
    match t.pendingBlocks[t.inner.expectedNextHeight]? with
    | none => t
    | some block =>
      match (t.unqueue t.inner.expectedNextHeight).acceptNext block with
      | (.error _, t') => t'
      | (.ok _, t') => processPendingBlocks fuel (processPendingBlocks fuel t')

/-- Early blocks are queued or dropped and late ones ignored, all without an error. -/
def addBlock (t : AccountModelTree) (block : Block) : Fallible Unit × AccountModelTree :=
  let expected := t.inner.expectedNextHeight
  let index := block.metadata.index
  if index = expected then
    match t.acceptNext block with
    | (.error e, t') => (.error e, t')
    | (.ok _, t') => (.ok (), t'.processPendingBlocks t'.pendingBlocks.size)
  else if expected < index then
    if maxPendingBlockDistance < saturatingSub index expected then (.ok (), t)
    else if maxPendingBlocks ≤ t.pendingBlocks.size then (.ok (), t)
    else (.ok (), t.queue block)
  else (.ok (), t)

-- The height of the context is the batch's own, not the tip's.
def applyBatch [Blake3] (t : AccountModelTree) (batch : TransactionBatch) :
    Fallible AccountModelTree := do
  let blockHash := t.inner.currentTipHash.getD zeroHash
  let previousHash := t.inner.currentPrevTipHash.getD zeroHash
  let ctx : ApplyContext := ⟨.live, batch.index, blockHash, previousHash, false⟩
  if t.inner.hasTip ∧ blockHash ≠ zeroHash then do
    let (next, _) ← applyBatchToState t.inner batch ctx
    return t.withInner next
  else do
    validateBatchStructure batch
    let (next, _) ← batch.transactions.foldlM applyTxkindToState (t.inner, ∅)
    verifyStateInvariants next none
    return t.withInner next

def latestBlockHeight (t : AccountModelTree) : UInt64 :=
  if t.inner.hasTip then t.inner.tipHeight else 0

def getBlockByHeight (t : AccountModelTree) (db : RockDB) (height : UInt64) : Fallible Block :=
  match t.inner.blocks.find? (fun b => b.metadata.index = height) with
  | some block => .ok block
  | none => do
    let found ← db.getBlockByIndex height
    okOr found (.notFound s!"Block {height} not found in recent cache or RocksDB")

end AccountModelTree

/-! ### Persistence -/

def accountStateSnapshotVersion : UInt64 := 2

def snapshotFromInner (s : InnerTree) : AccountStateSnapshot :=
  ⟨accountStateSnapshotVersion, s.balances, s.tipHeight, s.tipHash, s.prevTipHash, s.hasTip,
    s.totalIssuedMicro, s.rewardsIssuedMicro, s.reservedIssuedMicro⟩

/-- The snapshot on the wire, its accounts in key order; their order does not change
the length. -/
def AccountStateSnapshot.serialize (p : AccountStateSnapshot) : List UInt8 :=
  let entry := Postcard.pair Postcard.string Postcard.u64
  Postcard.u64.enc p.version ++ (Postcard.vec entry).enc p.balances.toList ++
    Postcard.u64.enc p.tipHeight ++ p.tipHash.toList ++ p.prevTipHash.toList ++
    [if p.hasTip then 1 else 0] ++ Postcard.u64.enc p.totalIssuedMicro ++
    Postcard.u64.enc p.rewardsIssuedMicro ++ Postcard.u64.enc p.reservedIssuedMicro

def commitInnerState (s : InnerTree) (db : RockDB) : Fallible RockDB := do
  verifyCompactStateInvariants s none none none
  let snapshot := snapshotFromInner s
  let len := snapshot.serialize.length
  rejectIf (maxAccountStateSnapshotBytes < len) (.serializationError
    s!"Refusing to write oversized account STATE_KEY snapshot: {len} bytes > {maxAccountStateSnapshotBytes} bytes. This prevents accidental reintroduction of unbounded serialized state.")
  mapErr (fun e => .storageError e.display) db.batchProcessAll
  return { db with state := some snapshot }

def writeAccount (db : RockDB) (account : String) (bal : UInt64) : Fallible RockDB :=
  db.write .account (Text.utf8 account) (Postcard.u64.enc bal)

/-- Every balance, in key order. -/
def flushBalances (s : InnerTree) : EStateM ErrorDetection RockDB Unit :=
  s.balances.toList.forM fun (acct, bal) => update fun db => writeAccount db acct bal

def flushAddresses (s : InnerTree) (accounts : List String) : EStateM ErrorDetection RockDB Unit :=
  accounts.forM fun acct => update fun db => writeAccount db acct (amount s.balances acct)

def verifyAccountCf (db : RockDB) (s : InnerTree) (acct : String) : Fallible Unit := do
  let expected := amount s.balances acct
  let bytes ← okOr (db.read .account (Text.utf8 acct))
    (validationErr s!"ACCOUNT CF missing touched account {acct}")
  let (actual, remaining) ← mapErr (fun e => .serializationError
    s!"Failed to decode ACCOUNT CF balance for {acct}: {e.describe}")
    (Postcard.takeFromBytes Postcard.u64 bytes)
  rejectIf (remaining ≠ []) (.serializationError
    s!"ACCOUNT CF balance for {acct} has trailing bytes: {remaining.length}")
  rejectIf (actual ≠ expected) (validationErr
    s!"ACCOUNT CF mismatch for {acct}: expected {expected}, got {actual}")

def verifyAccountCfMatchesState (db : RockDB) (s : InnerTree) (touched : Touched) :
    Fallible Unit :=
  touched.toList.forM fun acct => verifyAccountCf db s acct

/-! ### Applying a stored block -/

def failed (context : String) (e : ErrorDetection) : Failure := ⟨context, some e⟩

def onDb {ε α : Type} (x : EStateM ε RockDB α) : EStateM ε ChainState α :=
  zoom ChainState.db (fun s db => { s with db := db }) x

def alreadyCanonical (s : InnerTree) (block : Block) : Except Failure Bool :=
  if s.hasTip ∧ block.metadata.index ≤ s.tipHeight then
    mapErr (failed "Canonical idempotency check failed") (checkCanonicalIdempotency s block)
  else .ok false

-- The batch is found through the key in the block; only its height is compared with the block.
def planNext [Blake3] (db : RockDB) (s : InnerTree) (block : Block) :
    Except Failure (TransactionBatch × InnerTree × BatchApplyOutcome) := do
  mapErr (failed "Block linkage failed") (validateNextBlockLink s block)
  let key ← okOr block.batchKey ⟨"Block missing batch_key", none⟩
  let bytes ← okOr (db.read .transactionBatch (Text.utf8 key))
    ⟨s!"Batch bytes missing for key: {key}", none⟩
  let batch ← mapErr (failed "Failed to deserialize batch") (TransactionBatch.deserialize bytes)
  rejectIf (batch.index ≠ block.metadata.index)
    ⟨s!"Batch index {batch.index} does not match block height {block.metadata.index}", none⟩
  let (next, outcome) ← mapErr (failed "Dry-run block+batch failed")
    (dryRunBlockAndBatch s block batch)
  return (batch, next, outcome)

/-- What `apply_block` computes before its first write: nothing for a block that is
already canonical, else the batch, the next state and the touched accounts. -/
def planBlock [Blake3] (db : RockDB) (s : InnerTree) (block : Block) :
    Except Failure (Option (TransactionBatch × InnerTree × BatchApplyOutcome)) := do
  mapErr (failed "Block validation failed") block.validate
  let known ← alreadyCanonical s block
  if known then return none
  else do
    let plan ← planNext db s block
    return some plan

-- NFT records are written first; nothing takes them back when a later step fails.
def executePlan (block : Block) (batch : TransactionBatch) (next : InnerTree)
    (touched : Touched) : EStateM Failure ChainState Unit := do
  onDb (mapError (failed "Failed to apply NFT mints") (applyNftMintsForBlock block batch))
  onDb (mapError (failed "Failed to apply NFT transfers") (applyNftTransfersForBlock block batch))
  onDb (mapError (failed "Failed to commit compact next state") (update (commitInnerState next)))
  modify fun s => { s with tree := s.tree.withInner next }
  onDb (mapError (failed "Failed to flush touched balances") (flushAddresses next touched.toList))
  let s ← get
  lift (mapErr (failed "ACCOUNT CF verification failed")
    (verifyAccountCfMatchesState s.db next touched))

def applyBlockBody [Blake3] (block : Block) : EStateM Failure ChainState Unit := do
  let s ← get
  match ← lift (planBlock s.db s.tree.inner block) with
  | none => return ()
  | some (batch, next, outcome) => executePlan block batch next outcome.touchedAccounts

/-- `ChainLogic::apply_block`: on an error the tree is put back, the database is not. -/
def applyBlock [Blake3] (block : Block) : EStateM Failure ChainState Unit := fun s =>
  match applyBlockBody block s with
  | .ok () s' => .ok () s'
  | .error e s' => .error e { s' with tree := s.tree }

/-! ### Replay -/

def replayBatch [Blake3] (inner : InnerTree) (block : Block) (idx : UInt64) (previousHash : Hash)
    (bytes : List UInt8) : Fallible (InnerTree × TransactionBatch) := do
  let batch ← mapErr (fun e => .serializationError
    s!"Failed to deserialize replay batch at height {idx}: {e.display}")
    (TransactionBatch.deserialize bytes)
  rejectIf (batch.index ≠ idx) (validationErr
    s!"Replay batch index {batch.index} does not match block height {idx}")
  let (next, _) ← applyBatchToState inner batch ⟨.replay, idx, block.blockHash, previousHash, false⟩
  return (next, batch)

-- A batch may be missing at height 0 only.
def replayMissingBatch (inner : InnerTree) (block : Block) (idx : UInt64) (previousHash : Hash) :
    Fallible InnerTree := do
  rejectIf (0 < idx) (validationErr s!"Canonical replay missing batch bytes at height {idx}")
  verifyCompactStateInvariants inner (some idx) (some block.blockHash) (some previousHash)
  return inner

def replayBlock (db : RockDB) (inner : InnerTree) (idx : UInt64) : Fallible (Block × InnerTree) := do
  let found ← db.getBlockByIndex idx
  let block ← okOr found (validationErr s!"Canonical replay missing block at height {idx}")
  validateNextBlockLink inner block
  return (block, rememberRecentBlock inner block)

def replayStep [Blake3] (inner : InnerTree) (idx : UInt64) :
    EStateM ErrorDetection RockDB InnerTree := do
  let db ← get
  let (block, remembered) ← lift (replayBlock db inner idx)
  let previousHash := tipPreviousHash inner block
  match db.getBatchBytesByIndex idx with
  | none => lift (replayMissingBatch remembered block idx previousHash)
  | some bytes => do
    let (next, batch) ← lift (replayBatch remembered block idx previousHash bytes)
    batch.transactions.forM (replayNft (nftContext block))
    return next

def heightsTo (height : UInt64) : List UInt64 :=
  (List.range (height.toNat+1)).map UInt64.ofNat

def replayTo [Blake3] (height : UInt64) : EStateM ErrorDetection RockDB InnerTree := do
  let inner ← (heightsTo height).foldlM replayStep InnerTree.empty
  lift (verifyCompactStateInvariants inner (some height) inner.currentTipHash
    inner.currentPrevTipHash)
  return inner

def reloadFromDbToHeight [Blake3] (height : UInt64) : EStateM ErrorDetection ChainState Unit := do
  let inner ← onDb (replayTo height)
  modify fun s => { s with tree := (s.tree.withInner inner).retainPending height }

-- A failed reload is only logged.
def reloadFromDb [Blake3] (s : ChainState) : ChainState :=
  storeOf (reloadFromDbToHeight s.db.getLatestBlockIndex s)

def readForRollback (db : RockDB) (ancestor : Hash) (height : UInt64) : Except Failure Bool := do
  let found ← mapErr (failed s!"Failed to read block {height} during rollback")
    (db.getBlockByIndex height)
  return found.any fun b => b.blockHash = ancestor

/-- The height of the block with the given hash, searched downwards from the tip. -/
def findHeightDownFrom (db : RockDB) (ancestor : Hash) : ℕ → Except Failure (Option UInt64)
  | 0 => do
    let hit ← readForRollback db ancestor 0
    return if hit then some 0 else none
  | n+1 => do
    let hit ← readForRollback db ancestor (UInt64.ofNat (n+1))
    if hit then return some (UInt64.ofNat (n+1)) else findHeightDownFrom db ancestor n

def rollbackTo [Blake3] (ancestor : Hash) : EStateM Failure ChainState Unit := do
  let s ← get
  let height ← match s.tree.inner.blocks.find? (fun b => b.blockHash = ancestor) with
    | some block => pure (some block.metadata.index)
    | none => lift (findHeightDownFrom s.db ancestor s.tree.inner.tipHeight.toNat)
  let height ← lift (okOr height
    ⟨s!"Ancestor block hash {Blake3.toHex ancestor.toList} not found for rollback", none⟩)
  mapError (failed s!"Failed to reload compact state to rollback height {height}")
    (reloadFromDbToHeight height)
  modify fun s => { s with tree := s.tree.retainPending height }

end Remzar
