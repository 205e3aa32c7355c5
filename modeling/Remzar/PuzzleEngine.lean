import Mathlib
import Remzar.Wallets
import Remzar.Chain
import Remzar.Builder
import Remzar.Lib.Checked

/-! The puzzle of a height: deriving it from the parent, the height and the proposer, solving it,
and checking the proof that travels with the block. -/
namespace Remzar
open Fallible Checked Text

/-! ### Configuration -/

inductive PorPuzzleKind where
  | fibonacciDelayDev
  | factorizationDelayDev
  deriving DecidableEq

def PorPuzzleKind.debug : PorPuzzleKind → String
  | .fibonacciDelayDev => "FibonacciDelayDev"
  | .factorizationDelayDev => "FactorizationDelayDev"

structure PorConsensusConfig where
  -- The whole seconds of the target; how long solving sleeps is not modelled.
  targetBlockTimeSecs : UInt64
  puzzleKind : PorPuzzleKind
  maxLocalPuzzleMs : UInt64

namespace PorConsensusConfig

def mandatoryPuzzleKind : PorPuzzleKind := .fibonacciDelayDev

def maxSoftPuzzleMs : UInt64 := 60*60*1000

def effectivePuzzleSecs : UInt64 := min (max puzzleCreationIntervalSecs 1) (max blockCreationIntervalSecs 1)

def validate (cfg : PorConsensusConfig) : Fallible Unit := do
  rejectIf (cfg.targetBlockTimeSecs = 0)
    (validationErr "PorConsensusConfig invalid: target_block_time is 0s")
  rejectIf (cfg.maxLocalPuzzleMs = 0) (validationErr
    "PorConsensusConfig invalid: max_local_puzzle_ms is 0 for mandatory puzzle mode")
  let slotSecs := max blockCreationIntervalSecs 1
  rejectIf (slotSecs < cfg.targetBlockTimeSecs) (validationErr
    s!"PorConsensusConfig invalid: target_block_time={cfg.targetBlockTimeSecs}s exceeds block slot={slotSecs}s")
  rejectIf (cfg.puzzleKind ≠ mandatoryPuzzleKind) (validationErr
    s!"PorConsensusConfig invalid: puzzle_kind {cfg.puzzleKind.debug} does not match mandatory network kind {mandatoryPuzzleKind.debug}")

def fromGlobals : PorConsensusConfig :=
  ⟨effectivePuzzleSecs, mandatoryPuzzleKind,
    max 1000 (min (saturatingMul effectivePuzzleSecs 1000) maxSoftPuzzleMs)⟩

end PorConsensusConfig

/-! ### Puzzles -/

structure PorPuzzleHeader where
  height : UInt64
  validator : String
  prevBlockHash : Hash
  kind : PorPuzzleKind
  param : ℕ
  deriving DecidableEq

structure PorPuzzleSolution where
  header : PorPuzzleHeader
  output : BitVec 128
  solvedInMs : UInt64

structure PorPuzzleEngine where
  cfg : PorConsensusConfig

def maxFibN : ℕ := 44
def minFactDifficulty : ℕ := 1
def maxFactDifficulty : ℕ := 4
def maxFactN : UInt64 := 281474976710656

/-- An invalid wallet becomes a fixed marker. -/
def canonWalletDeterministic (addr : String) : String :=
  match canonWalletIdChecked addr with
  | .ok wallet => wallet
  | .error _ => "por:<invalid-wallet>"

def normalizeHeader (header : PorPuzzleHeader) : PorPuzzleHeader :=
  { header with
    validator := canonWalletDeterministic header.validator
    param := match header.kind with
      | .fibonacciDelayDev => min header.param maxFibN
      | .factorizationDelayDev => max minFactDifficulty (min header.param maxFactDifficulty) }

/-- The seed of a puzzle binds the parent, the height and the proposer. -/
def puzzleSeed [Blake3] (prevBlockHash : Hash) (height : UInt64) (validator : String) :
    List.Vector UInt8 32 :=
  Blake3.hash (prevBlockHash.toList ++ Block.u64Be height ++ utf8 validator)

def fibonacciBase (targetSecs : UInt64) : ℕ :=
  if targetSecs ≤ 10 then 26
  else if targetSecs ≤ 20 then 30
  else if targetSecs ≤ 40 then 32
  else if targetSecs ≤ 60 then 34
  else 36

def PorPuzzleEngine.derivePuzzle [Blake3] (engine : PorPuzzleEngine) (height : UInt64)
    (validatorWallet : String) (prevBlockHash : Hash) : PorPuzzleHeader :=
  let validator := canonWalletDeterministic validatorWallet
  let first := (puzzleSeed prevBlockHash height validator).head.toNat
  let param := match engine.cfg.puzzleKind with
    | .fibonacciDelayDev =>
      min (fibonacciBase (max engine.cfg.targetBlockTimeSecs 1) + first%8) maxFibN
    | .factorizationDelayDev => first%4 + 1
  ⟨height, validator, prevBlockHash, engine.cfg.puzzleKind, param⟩

/-! ### Fibonacci -/

def saturatingAdd128 (a b : BitVec 128) : BitVec 128 :=
  if a.toNat + b.toNat < 2^128 then a + b else BitVec.allOnes 128

-- The two special cases of the source are what the loop gives as well.
def fibIterU128 (n : ℕ) : BitVec 128 :=
  if n = 0 then 0
  else if n = 1 then 1
  else (Nat.iterate (fun p : BitVec 128 × BitVec 128 => (p.2, saturatingAdd128 p.1 p.2)) n (0, 1)).1

/-! ### Factorization -/

def deriveNFromHeader [Blake3] (header : PorPuzzleHeader) : UInt64 :=
  let sb := puzzleSeed header.prevBlockHash header.height header.validator
  let n := (sb.toList.take 8).foldl (fun n b => 256*n + b.toNat) 0
  UInt64.ofNat (max (n ||| 1) 3 >>> (header.param%4))

def verifyFactorizationDevChecked [Blake3] (header : PorPuzzleHeader) (packed : BitVec 128) :
    Fallible Bool := do
  let expected := deriveNFromHeader header
  rejectIf (maxFactN < expected) (validationErr
    s!"Factorization verify refused: n too large for safety (n={expected}, max={maxFactN})")
  let nPart := UInt64.ofNat (packed.toNat/2^64)
  let pPart := UInt64.ofNat (packed.toNat%2^64)
  if nPart ≠ expected then return false
  else if pPart < 3 then return false
  else return expected%pPart = 0

def verifyFactorizationDev [Blake3] (header : PorPuzzleHeader) (packed : BitVec 128) : Bool :=
  match verifyFactorizationDevChecked header packed with
  | .ok ok => ok
  | .error _ => false

/-! ### Solving and verifying -/

namespace PorPuzzleEngine

def verifyChecked [Blake3] (engine : PorPuzzleEngine) (solution : PorPuzzleSolution)
    (expectedHeight : UInt64) (expectedValidator : String) (expectedPrevBlockHash : Hash) :
    Fallible Unit := do
  let expected := engine.derivePuzzle expectedHeight expectedValidator expectedPrevBlockHash
  let header := normalizeHeader solution.header
  rejectIf (header ≠ expected)
    (validationErr "Puzzle header mismatch (height/validator/hash/kind/param)")
  match header.kind with
  | .fibonacciDelayDev =>
    rejectIf (fibIterU128 header.param ≠ solution.output)
      (validationErr "Fibonacci puzzle output mismatch")
  | .factorizationDelayDev =>
    rejectIf (¬verifyFactorizationDev header solution.output)
      (validationErr "Factorization puzzle output mismatch")

def verify [Blake3] (engine : PorPuzzleEngine) (solution : PorPuzzleSolution)
    (expectedHeight : UInt64) (expectedValidator : String) (expectedPrevBlockHash : Hash) : Bool :=
  succeeds (engine.verifyChecked solution expectedHeight expectedValidator expectedPrevBlockHash)

end PorPuzzleEngine

/-! ### Proofs -/

namespace PorPuzzleProof

def canonicalValidator (proof : PorPuzzleProof) : Fallible String := do
  rejectIf (maxValidatorLen < byteLen proof.validator) (validationErr
    s!"PorPuzzleProof: validator string too long (len={byteLen proof.validator}, max={maxValidatorLen})")
  canonWalletIdChecked proof.validator

def validateStructural (proof : PorPuzzleProof) : Fallible Unit := do
  let validator ← proof.canonicalValidator
  rejectIf (validator ≠ proof.validator) (validationErr "PorPuzzleProof: validator is not canonical")
  rejectIf (10000000 < proof.height)
    (validationErr s!"PorPuzzleProof: height out of bounds: {proof.height}")
  rejectIf (proof.prevBlockHash = zeroHash ∨ proof.prevBlockHash = onesHash)
    (validationErr "PorPuzzleProof: prev_block_hash is invalid sentinel")
  rejectIf (proof.output = 0) (validationErr "PorPuzzleProof: output cannot be 0")

def verifyWithEngineChecked [Blake3] (engine : PorPuzzleEngine) (proof : PorPuzzleProof) :
    Fallible Bool := do
  proof.validateStructural
  let validator ← proof.canonicalValidator
  let header := engine.derivePuzzle proof.height validator proof.prevBlockHash
  return engine.verify ⟨header, proof.output, 0⟩ proof.height validator proof.prevBlockHash

end PorPuzzleProof

/-! ### What an honest proof passes -/

/-- The common part of the two structural checks. -/
structure PlausibleProof (height : UInt64) (prevBlockHash : Hash) (output : BitVec 128) : Prop where
  height : height ≤ 10000000
  notZeros : prevBlockHash ≠ zeroHash
  notOnes : prevBlockHash ≠ onesHash
  output : output ≠ 0

theorem CanonicalWallet.not_long {wallet : String} (h : CanonicalWallet wallet) :
    ¬maxValidatorLen < byteLen wallet := by
  rw [h.len]
  decide

theorem CanonicalWallet.not_blank {wallet : String} (h : CanonicalWallet wallet) :
    ¬(trim wallet).isEmpty = true := by
  rw [h.trim_eq]
  intro hempty
  have hlen := h.len
  rw [String.isEmpty_iff.mp hempty] at hlen
  cases hlen

theorem BlockPuzzleProof.validateStructural_ok {proof : BlockPuzzleProof}
    (hwallet : CanonicalWallet proof.validator)
    (h : PlausibleProof proof.height proof.prevBlockHash proof.output) :
    proof.validateStructural = .ok () := by
  have hheight : ¬maxReasonableHeight < proof.height := UInt64.not_lt.mpr h.height
  rw [BlockPuzzleProof.validateStructural, rejectIf_of_not _ hheight, ok_bind,
    rejectIf_of_not _ hwallet.not_blank, ok_bind, rejectIf_of_not _ hwallet.not_long, ok_bind,
    hwallet.checked, ok_bind, rejectIf_of_not _ (not_not_intro rfl), ok_bind,
    rejectIf_of_not _ (not_or.mpr ⟨h.notZeros, h.notOnes⟩), ok_bind, rejectIf_of_not _ h.output]

theorem PorPuzzleProof.validateStructural_ok {proof : PorPuzzleProof}
    (hwallet : CanonicalWallet proof.validator)
    (h : PlausibleProof proof.height proof.prevBlockHash proof.output) :
    proof.validateStructural = .ok () := by
  rw [PorPuzzleProof.validateStructural, PorPuzzleProof.canonicalValidator,
    rejectIf_of_not _ hwallet.not_long, ok_bind, hwallet.checked, ok_bind,
    rejectIf_of_not _ (not_not_intro rfl), ok_bind, rejectIf_of_not _ (UInt64.not_lt.mpr h.height),
    ok_bind, rejectIf_of_not _ (not_or.mpr ⟨h.notZeros, h.notOnes⟩), ok_bind,
    rejectIf_of_not _ h.output]

section Complete
variable [Blake3] {engine : PorPuzzleEngine} {height : UInt64} {addr wallet : String} {prev : Hash}

end Complete

namespace Sample

end Sample

end Remzar
