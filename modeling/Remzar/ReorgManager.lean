import Mathlib
import Remzar.AccountTree
import Remzar.ForkIngest
import Remzar.Validators

/-! The reorganization manager: fork choice on a new block, and the plan carried out on the
database, the account tree and the validator registry. -/
namespace Remzar
open Fallible Effects

/-- What a reorganization works on. There are validators only where the caller has a builder. -/
structure ManagedChain where
  chain : ChainState
  validators : Option ValidatorState

namespace ReorgManager

def onChain {α : Type} (x : EStateM ErrorDetection ChainState α) :
    EStateM ErrorDetection ManagedChain α :=
  zoom ManagedChain.chain (fun s chain => { s with chain := chain }) x

def loadCanonicalHashAtHeight (height : UInt64) (db : RockDB) : Fallible (Option Hash) := do
  match ← db.getCanonicalHashAtHeight height with
  | some hash => return some hash
  | none => do
    let legacy ← db.getBlockByIndex height
    return legacy.map Block.blockHash

-- The rebuilt map is in place before it is written.
def rebuildValidatorState (tip : UInt64) : EStateM ErrorDetection ManagedChain Unit := do
  let s ← get
  match s.validators with
  | none => return ()
  | some _ => do
    let _ ← lift (loadCanonicalHashAtHeight tip s.chain.db)
    let map ← lift (ValidatorState.buildReplayMapFromChain s.chain.db tip)
    lift (ValidatorLifecycle.validateMap map)
    modify fun s => { s with validators := some map }
    onChain (onDb map.persist)

def attachSteps (plan : ReorgPlan) : List (UInt64 × Hash) :=
  plan.attach.map fun step => (step.height, step.hash)

/-- The canonical database follows the plan; a batch that is not stored by hash is left out. -/
def moveProjection [Blake3] (plan : ReorgPlan) : EStateM ErrorDetection RockDB Unit := do
  ReFork.applyReorg plan
  modify (ReorgBatchIndex.remapCanonicalBatchesBestEffort (attachSteps plan))

def saveState (s : ChainState) : ChainState :=
  let db := attemptUpdate (commitInnerState s.tree.inner) s.db
  { s with db := storeOf (flushBalances s.tree.inner db) }

def applyReorgPlan [Blake3] (plan : ReorgPlan) : EStateM ErrorDetection ManagedChain Unit := do
  onChain (onDb (moveProjection plan))
  onChain (reloadFromDbToHeight plan.newTipHeight)
  onChain (modify saveState)
  rebuildValidatorState plan.newTipHeight

def handleNewBlock [Blake3] (cfg : ReForkConfig) (newBlock : Block) :
    EStateM ErrorDetection ManagedChain ForkAction := do
  let s ← get
  let action ← lift (ReFork.onNewBlock cfg newBlock s.chain.db)
  match action with
  | .reorg plan => do
    applyReorgPlan plan
    return action
  | _ => return action

end ReorgManager

end Remzar
