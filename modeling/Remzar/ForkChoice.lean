import Mathlib
import Remzar.ForkGraph

/-! Branch scores, fork choice and the reorganization it plans. -/
namespace Remzar
open Fallible Effects

inductive BranchScoreMode where
  | heightOnly
  | cumulativePor
  deriving DecidableEq

structure BranchScoreConfig where
  mode : BranchScoreMode
  allowEqualHeightTiebreak : Bool
  preferLowerHashOnTie : Bool

structure BranchScore where
  height : UInt64
  cumulativePor : BitVec 128
  tipHash : Hash
  deriving DecidableEq

/-- Hashes are compared byte by byte. -/
abbrev hashBelow (a b : Hash) : Prop := compare a.toList b.toList = .lt

namespace BranchScore

def tieBreak (a b : Hash) (preferLowerHash : Bool) : Bool :=
  if a = b then false
  else if preferLowerHash then decide (hashBelow a b) else decide (hashBelow b a)

/-- The common end of both modes: the higher tip, then the tie break. -/
def beatsByHeight (self other : BranchScore) (cfg : BranchScoreConfig) : Bool :=
  if other.height < self.height then true
  else if self.height < other.height then false
  else if cfg.allowEqualHeightTiebreak then
    tieBreak self.tipHash other.tipHash cfg.preferLowerHashOnTie
  else false

def isStrictlyBetterThan (self other : BranchScore) (cfg : BranchScoreConfig) : Bool :=
  match cfg.mode with
  | .heightOnly => self.beatsByHeight other cfg
  | .cumulativePor =>
    if other.cumulativePor < self.cumulativePor then true
    else if self.cumulativePor < other.cumulativePor then false
    else self.beatsByHeight other cfg

end BranchScore

structure BranchCandidate where
  tipHash : Hash
  height : UInt64
  cumulativePor : BitVec 128

def BranchCandidate.toScore (c : BranchCandidate) : BranchScore :=
  ⟨c.height, c.cumulativePor, c.tipHash⟩

def chooseTip (cfg : BranchScoreConfig) (current candidate : BranchCandidate) : Option Hash :=
  if candidate.toScore.isStrictlyBetterThan current.toScore cfg then some candidate.tipHash
  else if current.toScore.isStrictlyBetterThan candidate.toScore cfg then some current.tipHash
  else none

/-! ### Plans -/

structure ReForkConfig where
  maxReorgDepth : UInt64
  allowEqualHeightReorg : Bool
  preferCumulativePor : Bool

def ReForkConfig.mainnetDefault : ReForkConfig := ⟨64, false, false⟩

def ReForkConfig.score (cfg : ReForkConfig) : BranchScoreConfig :=
  ⟨if cfg.preferCumulativePor then .cumulativePor else .heightOnly, cfg.allowEqualHeightReorg, true⟩

structure ReorgStep where
  height : UInt64
  hash : Hash
  deriving DecidableEq

structure ReorgPlan where
  oldTipHeight : UInt64
  oldTipHash : Hash
  newTipHeight : UInt64
  newTipHash : Hash
  commonAncestorHeight : UInt64
  commonAncestorHash : Hash
  detach : List ReorgStep
  attach : List ReorgStep
  deriving DecidableEq

def ReorgPlan.isNoop (plan : ReorgPlan) : Bool := plan.detach.isEmpty && plan.attach.isEmpty

inductive ForkAction where
  | stay
  | reorg (plan : ReorgPlan)
  | needMoreData (missingHash : Hash) (context : String)
  deriving DecidableEq

/-- The path from a tip towards its root, the tip first. -/
abbrev BranchPath := List (UInt64 × Hash)

inductive BranchPathBuild where
  | complete (path : BranchPath)
  | missing (partialPath : BranchPath) (missingHash : Hash) (context : String)

namespace ReFork

def loadCanonicalTipBlock (db : RockDB) : Fallible (UInt64 × Hash × Block) := do
  match ← ReorgChainView.getTipWithLegacyFallback db with
  | some view => do
    let block ← okOr (db.getBlockByHash view.tipHash)
      (.notFound s!"canonical tip block by hash {Blake3.toHex view.tipHash.toList}")
    return (view.tipHeight, view.tipHash, block)
  | none => .error (.notFound "canonical tip view")

def branchCandidateFromTip (db : RockDB) (tipHash : Hash) (fallbackHeight : UInt64) :
    Fallible BranchCandidate := do
  let found ← db.getBlockMetaByHash tipHash
  return ⟨tipHash, fallbackHeight,
    (found.map ForkBlockMeta.cumulativeScore).getD (BitVec.ofNat 128 fallbackHeight.toNat)⟩

-- One round of the walk per unit of fuel; `path` is in reverse.
def walkBranch (db : RockDB) : ℕ → BranchPath → Hash → Fallible BranchPathBuild
  | 0, path, _ => .ok (.complete path.reverse)
  | fuel+1, path, current => do
    match ← db.getBlockMetaByHash current with
    | none => return .missing path.reverse current "missing_meta_for_current_hash"
    | some m => do
      let path := (m.height, current) :: path
      if m.height = 0 ∨ m.parentHash = zeroHash then return .complete path.reverse
      else if !db.hasBlockByHash m.parentHash then
        return .missing path.reverse m.parentHash "missing_block_for_parent_hash"
      else do
        let known ← db.hasBlockMetaByHash m.parentHash
        if known then walkBranch db fuel path m.parentHash
        else return .missing path.reverse m.parentHash "missing_meta_for_parent_hash"

-- `usize` has 64 bits, so only the increment can fail.
def buildBranchPathFromHash (cfg : ReForkConfig) (db : RockDB) (tipHash : Hash) :
    Fallible BranchPathBuild := do
  rejectIf (cfg.maxReorgDepth.toNat + 1 = 2^64) (.blockchainError
    s!"max_reorg_depth overflow when adding 1: {cfg.maxReorgDepth}")
  walkBranch db (cfg.maxReorgDepth.toNat+1) [] tipHash

def higherCommon (newPath : BranchPath) (best : Option (UInt64 × Hash)) (step : UInt64 × Hash) :
    Option (UInt64 × Hash) :=
  if newPath.any fun other => other.2 = step.2 then
    match best with
    | some found => if step.1 ≤ found.1 then best else some step
    | none => some step
  else best

def findCommonAncestor (newPath oldPath : BranchPath) : Option (UInt64 × Hash) :=
  oldPath.foldl (higherCommon newPath) none

/-- The steps of a path above an ancestor. -/
def stepsAbove (path : BranchPath) (common : Hash) : List ReorgStep :=
  (path.takeWhile fun step => step.2 ≠ common).map fun step => ⟨step.1, step.2⟩

def computeReorgSteps (newPath oldPath : BranchPath) (common : Hash) :
    List ReorgStep × List ReorgStep :=
  (stepsAbove oldPath common, (stepsAbove newPath common).reverse)

/-- What follows once both paths are known. -/
def planReorg (cfg : ReForkConfig) (newBlock : Block) (oldHeight : UInt64) (oldHash : Hash)
    (newPath oldPath : BranchPath) : ForkAction :=
  if newPath.isEmpty || oldPath.isEmpty then .stay
  else match findCommonAncestor newPath oldPath with
  | none => .stay
  | some (commonHeight, commonHash) =>
    let (detach, attach) := computeReorgSteps newPath oldPath commonHash
    if detach.length = 0 ∧ attach.length = 0 then .stay
    else if cfg.maxReorgDepth.toNat < detach.length ∨ cfg.maxReorgDepth.toNat < attach.length then
      .stay
    else .reorg ⟨oldHeight, oldHash, newBlock.metadata.index, newBlock.blockHash, commonHeight,
      commonHash, detach, attach⟩

def onNewBlock (cfg : ReForkConfig) (newBlock : Block) (db : RockDB) : Fallible ForkAction := do
  let newHeight := newBlock.metadata.index
  let newHash := newBlock.blockHash
  let (oldHeight, oldHash, canonicalTipBlock) ← loadCanonicalTipBlock db
  if newBlock.metadata.previousHash = oldHash ∧ newHeight = Checked.saturatingAdd oldHeight 1 then
    return .stay
  else do
    let current ← branchCandidateFromTip db oldHash oldHeight
    let candidate ← branchCandidateFromTip db newHash newHeight
    if (chooseTip cfg.score current candidate).getD oldHash ≠ newHash then return .stay
    else do
      match ← buildBranchPathFromHash cfg db newHash with
      | .missing _ missingHash context => return .needMoreData missingHash context
      | .complete newPath => do
        match ← buildBranchPathFromHash cfg db canonicalTipBlock.blockHash with
        | .missing _ missingHash context => return .needMoreData missingHash context
        | .complete oldPath => return planReorg cfg newBlock oldHeight oldHash newPath oldPath

/-! ### Applying a plan -/

-- Failures to index the old block or to change its status are dropped.
def preserveOldBlock [Blake3] (oldBlock : Option Block) (db : RockDB) : RockDB :=
  match oldBlock with
  | none => db
  | some old =>
    if db.hasBlockByHash old.blockHash then db
    else match old.serializeForStorage with
      | .error _ => db
      | .ok bytes =>
        match db.indexBlockByHash old.blockHash bytes with
        | .ok db' => db'
        | .error _ => db

def demote (hash : Hash) (db : RockDB) : RockDB :=
  if ReorgBlockIndex.hasMetaOrFalse hash db then
    match ReorgBlockIndex.markSideBranch hash db with
    | .ok db' => db'
    | .error _ => db
  else db

def promote (hash : Hash) (db : RockDB) : Fallible RockDB :=
  if ReorgBlockIndex.hasMetaOrFalse hash db then ReorgBlockIndex.markCanonical hash db else .ok db

def detachStep [Blake3] (step : ReorgStep) : EStateM ErrorDetection RockDB Unit := do
  let db ← get
  let oldBlock ← lift (db.getBlockByIndex step.height)
  modify fun db => demote step.hash (preserveOldBlock oldBlock db)

def attachStep [Blake3] (step : ReorgStep) : EStateM ErrorDetection RockDB Unit := do
  let db ← get
  let block ← lift (okOr (db.getBlockByHash step.hash) (.notFound
    s!"block_by_hash({Blake3.toHex step.hash.toList}) while attaching height {step.height}"))
  lift (rejectIf (block.metadata.index ≠ step.height) (.blockchainError
    s!"reorg attach height mismatch: plan_height={step.height} block.index={block.metadata.index} hash={Blake3.toHex step.hash.toList}"))
  let bytes ← lift block.serializeForStorage
  update fun db => db.indexBlockByHash step.hash bytes
  update fun db => db.storeLatestBlock bytes step.height
  modify fun db => db.setCanonicalHashAtHeight step.height step.hash
  update (promote step.hash)

/-- `apply_reorg` with steps that revert and apply nothing more, as the manager calls it. -/
def applyReorg [Blake3] (plan : ReorgPlan) : EStateM ErrorDetection RockDB Unit :=
  if plan.isNoop then pure ()
  else do
    plan.detach.forM detachStep
    modify fun db => db.deleteCanonicalHashRange
      (Checked.saturatingAdd plan.commonAncestorHeight 1) plan.oldTipHeight
    plan.attach.forM attachStep
    modify fun db => db.setCanonicalTip plan.newTipHash plan.newTipHeight

end ReFork

end Remzar
