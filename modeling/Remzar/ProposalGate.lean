import Mathlib
import Remzar.Builder

/-! The gate in front of local proposals: what the sync runtime last published to consensus,
and the checks a proposal makes against it. -/
namespace Remzar
open Fallible Checked

structure ProposalGate where
  runtimeRejoinCatchupGateActive : Bool
  runtimeRejoinCatchupReason : Option String
  runtimeBranchHydrationActive : Bool
  runtimeCanonicalTipHeight : Option UInt64
  runtimeCanonicalTipHash : Option Hash
  validatorStateRebuiltAtTip : Option UInt64
  pendingPuzzleProof : Option PorPuzzleProof

namespace ProposalGate

def new : ProposalGate := ⟨false, none, false, none, none, none, none⟩

def clearStagedLocalPuzzleProof (g : ProposalGate) : ProposalGate :=
  { g with pendingPuzzleProof := none }

def setRuntimeRejoinCatchupGate (active : Bool) (reason : Option String) (g : ProposalGate) :
    ProposalGate :=
  let g := { g with
    runtimeRejoinCatchupGateActive := active
    runtimeRejoinCatchupReason := if active then reason else none }
  if active then g.clearStagedLocalPuzzleProof else g

def setRuntimeBranchHydrationActive (active : Bool) (g : ProposalGate) : ProposalGate :=
  let g := { g with runtimeBranchHydrationActive := active }
  if active then g.clearStagedLocalPuzzleProof else g

def setRuntimeCanonicalTipContext (tipHeight : UInt64) (tipHash : Hash) (g : ProposalGate) :
    ProposalGate :=
  { g with
    runtimeCanonicalTipHeight := some tipHeight
    runtimeCanonicalTipHash := some tipHash }

def noteValidatorStateRebuiltToTip (tipHeight : UInt64) (g : ProposalGate) : ProposalGate :=
  { g with validatorStateRebuiltAtTip := some tipHeight }

/-- The staged proof is kept. -/
def resetRuntimeProposalSafetyState (tipHeight : UInt64) (tipHash : Hash) (g : ProposalGate) :
    ProposalGate :=
  { g with
    runtimeRejoinCatchupGateActive := false
    runtimeRejoinCatchupReason := none
    runtimeBranchHydrationActive := false
    runtimeCanonicalTipHeight := some tipHeight
    runtimeCanonicalTipHash := some tipHash
    validatorStateRebuiltAtTip := some tipHeight }

/-! ### The guard -/

def blockedErr (phase reason : String) : ErrorDetection :=
  validationErr s!"local proposal blocked during {phase}: {reason}"

def rebuiltErr (phase : String) (rebuilt required height : UInt64) : ErrorDetection :=
  blockedErr phase
    s!"validator state rebuilt only through tip {rebuilt}, required at least {required} for block height {height}"

def tipMismatchErr (phase : String) (tipHeight required : UInt64) (tipHash prevHash : Hash) :
    ErrorDetection :=
  blockedErr phase
    s!"runtime canonical tip mismatch (observed_tip_height={tipHeight} required_tip_height={required} observed_tip_hash={Blake3.toHex tipHash.toList} required_prev_hash={Blake3.toHex prevHash.toList})"

/-- What is wrong with the gate for a proposal on top of `prevHash`, the first thing found. -/
def localProposalFault (height : UInt64) (prevHash : Hash) (parentKnown : Bool) (phase : String)
    (g : ProposalGate) : Option ErrorDetection :=
  let required := saturatingSub height 1
  let reason := g.runtimeRejoinCatchupReason.getD "unspecified"
  if !parentKnown then some (blockedErr phase
    s!"parent hash is not known locally for h={height} prev_hash={Blake3.toHex prevHash.toList}")
  else if g.runtimeBranchHydrationActive then
    some (blockedErr phase "branch hydration / recovery still active")
  else if g.runtimeRejoinCatchupGateActive then
    some (blockedErr phase s!"catch-up gate active ({reason})")
  else
    match g.validatorStateRebuiltAtTip.filter (· < required) with
    | some rebuilt => some (rebuiltErr phase rebuilt required height)
    | none =>
      match g.runtimeCanonicalTipHeight, g.runtimeCanonicalTipHash with
      | some tipHeight, some tipHash =>
        if tipHeight ≠ required ∨ tipHash ≠ prevHash then
          some (tipMismatchErr phase tipHeight required tipHash prevHash)
        else none
      | _, _ => none

/-- A refusal also drops the staged proof. -/
def ensureRuntimeLocalProposalSafety (height : UInt64) (prevHash : Hash) (phase : String)
    (db : RockDB) (g : ProposalGate) : Fallible Unit × ProposalGate :=
  match g.localProposalFault height prevHash (db.getBlockByHash prevHash).isSome phase with
  | some e => (.error e, g.clearStagedLocalPuzzleProof)
  | none => (.ok (), g)

end ProposalGate
end Remzar
