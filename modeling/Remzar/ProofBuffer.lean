import Mathlib
import Remzar.Lib.Buckets
import Remzar.Lib.Runs
import Remzar.Hydration
import Remzar.PuzzlePool

/-! Puzzle proofs whose parent is not known yet wait in a buffer by the hash of that parent. The
buffer is bounded for any order of messages, proposals and collections. -/
namespace Remzar
open Std Fallible Effects Checked Buckets

def maxBufferedUnknownParentProofs : ℕ := 256
def maxBufferedUnknownParentProofsPerParent : ℕ := 32
def maxUnknownParentFutureHeightDistance : UInt64 := 8

abbrev ProofBuffer := ExtTreeMap Hash (List PorPuzzleProof) hashOrder

/-- The order in which the buffer's hash map is walked; it may differ from call to call. -/
abbrev BucketOrder := IterationOrder (Hash × List PorPuzzleProof)

def PorPuzzleProof.verifyWithEngine [Blake3] (engine : PorPuzzleEngine) (proof : PorPuzzleProof) :
    Bool :=
  match proof.verifyWithEngineChecked engine with
  | .ok ok => ok
  | .error _ => false

def hasKnownParentHash (db : RockDB) (parentHash : Hash) : Bool :=
  (db.getBlockByHash parentHash).isSome

def sameProofIdentity (a b : PorPuzzleProof) : Bool :=
  decide (a.height = b.height) && decide (a.prevBlockHash = b.prevBlockHash) &&
    decide (a.output = b.output) && eqIgnoreAsciiCase a.validator b.validator

/-- The puzzle side of the consensus engine. The loops of its calls run on fuel. -/
structure PuzzleConsensus where
  porEngine : PorPuzzleEngine
  puzzlePool : PorPuzzlePool
  pendingProofsByPrevHash : ProofBuffer

namespace PuzzleConsensus

def new (engine : PorPuzzleEngine) : PuzzleConsensus := ⟨engine, .new, ∅⟩

def totalBufferedPuzzleProofs (s : PuzzleConsensus) : ℕ := total s.pendingProofsByPrevHash

/-! ### Buffering -/

def dropOneBufferedPuzzleProof (order : BucketOrder) (buffer : ProofBuffer) : Bool × ProofBuffer :=
  dropFullest order buffer

def evictWhile (order : BucketOrder) (full : ℕ → Prop) [DecidablePred full] (fuel : ℕ)
    (buffer : ProofBuffer) : Option ProofBuffer :=
  evictLoop order full fuel buffer

-- Whether the proof is buffered, was before or is dropped, the answer is always `true`.
def bufferVerifiedUnknownParentProof (fuel : ℕ) (order : BucketOrder) (proof : PorPuzzleProof)
    (buffer : ProofBuffer) : Option ProofBuffer :=
  let existing := bucket buffer proof.prevBlockHash
  if existing.any (sameProofIdentity · proof) then some buffer
  else if maxBufferedUnknownParentProofsPerParent ≤ existing.length then some buffer
  else do
    let buffer ← evictWhile order (maxBufferedUnknownParentProofs ≤ ·) fuel buffer
    if maxBufferedUnknownParentProofs ≤ total buffer then some buffer
    else some (push proof.prevBlockHash proof buffer)

def clearBufferedUnknownParentPuzzleProofs (s : PuzzleConsensus) : ℕ × PuzzleConsensus :=
  (s.totalBufferedPuzzleProofs, { s with pendingProofsByPrevHash := ∅ })

section
variable [Blake3]

/-! ### Recording and replay -/

def recordVerifiedProof (proof : PorPuzzleProof) (s : PuzzleConsensus) : Bool × PuzzleConsensus :=
  let r := PorPuzzlePool.recordSuccessChecked proof.height proof.validator proof.output s.puzzlePool
  (succeeded r, { s with puzzlePool := storeOf r })

/-- Record one proof after another and count the ones admitted. -/
def recordAll (proofs : List PorPuzzleProof) (s : PuzzleConsensus) : ℕ × PuzzleConsensus :=
  proofs.foldl (fun (admitted, s) proof =>
    match recordVerifiedProof proof s with
    | (true, s) => (admitted+1, s)
    | (false, s) => (admitted, s)) (0, s)

variable (fuel : ℕ) (db : RockDB) (order : BucketOrder)

def replayForParent (parentHash : Hash) (s : PuzzleConsensus) : Option (ℕ × PuzzleConsensus) :=
  if hasKnownParentHash db parentHash = false then some (0, s)
  else match s.pendingProofsByPrevHash[parentHash]? with
    | none => some (0, s)
    | some buffered =>
      let buffer := s.pendingProofsByPrevHash.erase parentHash
      match db.getBlockByHash parentHash with
      -- the parent has disappeared since
      | none => do
        let buffer ← buffered.foldlM (fun buffer proof =>
          bufferVerifiedUnknownParentProof fuel order proof buffer) buffer
        some (0, { s with pendingProofsByPrevHash := buffer })
      | some _ => some (recordAll buffered { s with pendingProofsByPrevHash := buffer })

def replayWithKnownParents (s : PuzzleConsensus) : Option (ℕ × PuzzleConsensus) :=
  let knownParentHashes := ((order.arrange s.pendingProofsByPrevHash.toList).map Prod.fst).filter
    (hasKnownParentHash db)
  knownParentHashes.foldlM (fun (admitted, s) parentHash => do
    let (more, s) ← replayForParent fuel db order parentHash s
    some (admitted+more, s)) (0, s)

/-! ### Collection -/

def keepForLocalProposal (height : UInt64) (prevHash : Hash) (proof : PorPuzzleProof) : Bool :=
  let maxFutureHeight := saturatingAdd height maxUnknownParentFutureHeightDistance
  let malformed := decide (proof.height = 0) || decide (proof.prevBlockHash = zeroHash)
  let currentTipParent := decide (proof.prevBlockHash = prevHash)
  let staleForLocalTip := decide (proof.height ≤ height)
  let tooFarFuture := decide (maxFutureHeight < proof.height)
  !(malformed || currentTipParent || staleForLocalTip || tooFarFuture)

/-- Cut every bucket that is too long. -/
def truncateOversized (buffer : ProofBuffer) : ProofBuffer :=
  let oversizedParents := (order.arrange buffer.toList).filterMap fun e =>
    if maxBufferedUnknownParentProofsPerParent < e.2.length then some e.1 else none
  oversizedParents.foldl (fun buffer parentHash =>
    buffer.modify parentHash (List.take maxBufferedUnknownParentProofsPerParent)) buffer

def gcForLocalProposal (height : UInt64) (prevHash : Hash) (s : PuzzleConsensus) :
    Option PuzzleConsensus := do
  let (_, s) ← replayWithKnownParents fuel db order s
  let buffer := retain (keepForLocalProposal height prevHash) s.pendingProofsByPrevHash
  let buffer ← evictWhile order (maxBufferedUnknownParentProofs < ·) fuel
    (truncateOversized order buffer)
  some { s with pendingProofsByPrevHash := buffer }

def keepFrom (height : UInt64) (proof : PorPuzzleProof) : Bool :=
  decide (height ≤ proof.height) && decide (proof.height ≠ 0) && decide (proof.prevBlockHash ≠ zeroHash)

def gcBufferedBelow (height : UInt64) (s : PuzzleConsensus) : Option PuzzleConsensus := do
  let (_, s) ← replayWithKnownParents fuel db order s
  let buffer ← evictWhile order (maxBufferedUnknownParentProofs < ·) fuel
    (retain (keepFrom height) s.pendingProofsByPrevHash)
  some { s with pendingProofsByPrevHash := buffer }

def gcPuzzlePoolBelow (height : UInt64) (s : PuzzleConsensus) : Option PuzzleConsensus :=
  gcBufferedBelow fuel db order height { s with puzzlePool := s.puzzlePool.gcBelow height }

/-- The part of the proposal guard that touches the buffer. -/
def collectBeforeProposal (height : UInt64) (prevHash : Hash) (s : PuzzleConsensus) :
    Option PuzzleConsensus :=
  if hasKnownParentHash db prevHash = false then some s
  else gcForLocalProposal fuel db order height prevHash s

/-! ### Receiving -/

def onPuzzleProof (proof : PorPuzzleProof) (s : PuzzleConsensus) :
    Option (Bool × PuzzleConsensus) :=
  if proof.height = 0 then some (false, s)
  else match canonWalletIdChecked proof.validator with
    | .error _ => some (false, s)
    | .ok _ =>
      if proof.verifyWithEngine s.porEngine = false then some (false, s)
      else match db.getBlockByHash proof.prevBlockHash with
        | some _ => some (recordVerifiedProof proof s)
        | none => do
          let buffer ← bufferVerifiedUnknownParentProof fuel order proof s.pendingProofsByPrevHash
          some (true, { s with pendingProofsByPrevHash := buffer })

end
end PuzzleConsensus

/-- The calls that touch the pool or the buffer. A local proposal runs the guard, solves its own
puzzle and records the solution; the guard comes back several times before the block is built. -/
inductive PuzzleCall where
  | onPuzzleProof (proof : PorPuzzleProof)
  | replay (parentHash : Hash)
  | gcPuzzlePoolBelow (height : UInt64)
  | proposalGuard (height : UInt64) (prevHash : Hash)
  | localSolution (height : UInt64) (wallet : String) (output : BitVec 128)
  | clearForLiveness

/-- A call, the store it reads and the order in which it walks the buffer. -/
structure PuzzleEvent where
  call : PuzzleCall
  db : RockDB
  order : BucketOrder

namespace PuzzleConsensus
variable [Blake3]

def step (fuel : ℕ) (s : PuzzleConsensus) (e : PuzzleEvent) : Option PuzzleConsensus :=
  match e.call with
  | .onPuzzleProof proof => (onPuzzleProof fuel e.db e.order proof s).map Prod.snd
  | .replay parentHash => (replayForParent fuel e.db e.order parentHash s).map Prod.snd
  | .gcPuzzlePoolBelow height => gcPuzzlePoolBelow fuel e.db e.order height s
  | .proposalGuard height prevHash => collectBeforeProposal fuel e.db e.order height prevHash s
  | .localSolution height wallet output =>
    some { s with puzzlePool := storeOf (PorPuzzlePool.recordSuccessChecked height wallet output
      s.puzzlePool) }
  | .clearForLiveness => some (clearBufferedUnknownParentPuzzleProofs s).2

/-! ### The buffer invariant -/

/-- At most 256 proofs and 32 of one parent, no empty bucket, no proof twice, and every proof under
its own parent and verified by the engine. -/
def BufferSound (engine : PorPuzzleEngine) (buffer : ProofBuffer) : Prop :=
  Bounded maxBufferedUnknownParentProofs maxBufferedUnknownParentProofsPerParent
    (fun a b => sameProofIdentity a b = false)
    (fun parentHash proof => proof.prevBlockHash = parentHash ∧ proof.verifyWithEngine engine = true)
    buffer

structure Sound (engine : PorPuzzleEngine) (s : PuzzleConsensus) : Prop where
  porEngine : s.porEngine = engine
  pool : s.puzzlePool.Sound
  buffer : BufferSound engine s.pendingProofsByPrevHash

section Steps
variable {engine : PorPuzzleEngine} {fuel : ℕ} {db : RockDB} {order : BucketOrder}
  {buffer : ProofBuffer} {proof : PorPuzzleProof} {s : PuzzleConsensus}

theorem Sound.withBuffer (h : s.Sound engine) (hbuffer : BufferSound engine buffer) :
    Sound engine { s with pendingProofsByPrevHash := buffer } :=
  ⟨h.porEngine, h.pool, hbuffer⟩

theorem bufferVerified_sound (fuel : ℕ) (order : BucketOrder) (h : BufferSound engine buffer)
    (hverified : proof.verifyWithEngine engine = true) :
    ∃ buffer', bufferVerifiedUnknownParentProof (fuel+1) order proof buffer = some buffer' ∧
      BufferSound engine buffer' := by
  unfold bufferVerifiedUnknownParentProof
  dsimp only
  split
  · exact ⟨buffer, rfl, h⟩
  · rename_i hnew
    split
    · exact ⟨buffer, rfl, h⟩
    · rename_i hlen
      -- what is left of the bucket after an eviction is still free of the new proof
      obtain ⟨left, hevict, hleft, hroom, hsub, -⟩ := h.evict (by decide) order fuel
      have hbucket := hsub proof.prevBlockHash
      have happart : ∀ b ∈ bucket left proof.prevBlockHash, sameProofIdentity b proof = false := by
        intro b hb
        apply Bool.eq_false_iff.mpr
        intro hsame
        exact hnew (List.any_eq_true.mpr ⟨b, hbucket.subset hb, hsame⟩)
      refine ⟨push proof.prevBlockHash proof left, ?_, hleft.push hroom ?_ happart ⟨rfl, hverified⟩⟩
      · rw [evictWhile, hevict]
        exact if_neg (Nat.not_le.mpr hroom)
      · have hle := hbucket.length_le
        omega

theorem recordVerifiedProof_state (proof : PorPuzzleProof) (s : PuzzleConsensus) :
    (recordVerifiedProof proof s).2.porEngine = s.porEngine ∧
      (recordVerifiedProof proof s).2.pendingProofsByPrevHash = s.pendingProofsByPrevHash :=
  ⟨rfl, rfl⟩

theorem Sound.recordVerifiedProof (h : s.Sound engine) (proof : PorPuzzleProof) :
    (recordVerifiedProof proof s).2.Sound engine :=
  ⟨h.porEngine, PorPuzzlePool.preserves_recordSuccessChecked _ h.pool, h.buffer⟩

theorem Sound.recordAll (h : s.Sound engine) (proofs : List PorPuzzleProof) :
    (recordAll proofs s).2.Sound engine := by
  unfold PuzzleConsensus.recordAll
  generalize 0 = admitted
  induction proofs generalizing s admitted with
  | nil => exact h
  | cons proof proofs ih =>
    have hnext := h.recordVerifiedProof proof
    rw [List.foldl_cons]
    dsimp only
    cases hrecord : PuzzleConsensus.recordVerifiedProof proof s with
    | mk ok next =>
      rw [hrecord] at hnext
      cases ok with
      | true => exact ih hnext _
      | false => exact ih hnext _

theorem Sound.replayForParent (h : s.Sound engine) (fuel : ℕ) (db : RockDB) (order : BucketOrder)
    (parentHash : Hash) :
    ∃ r, replayForParent (fuel+1) db order parentHash s = some r ∧ r.2.Sound engine := by
  unfold PuzzleConsensus.replayForParent
  split
  · exact ⟨_, rfl, h⟩
  · cases hbucket : s.pendingProofsByPrevHash[parentHash]? with
    | none => exact ⟨_, rfl, h⟩
    | some buffered =>
      have herase : BufferSound engine (s.pendingProofsByPrevHash.erase parentHash) :=
        h.buffer.erase parentHash
      dsimp only
      cases db.getBlockByHash parentHash with
      | some block => exact ⟨_, rfl, (h.withBuffer herase).recordAll buffered⟩
      | none =>
        obtain ⟨buffer', hfold, hbuffer'⟩ := Runs.foldlM_keeps (BufferSound engine) buffered
          (fun proof hproof buffer hbuffer => bufferVerified_sound fuel order hbuffer
            (h.buffer.filed hbucket proof hproof).2) herase
        dsimp only
        rw [hfold]
        exact ⟨_, rfl, h.withBuffer hbuffer'⟩

theorem Sound.replayWithKnownParents (h : s.Sound engine) (fuel : ℕ) (db : RockDB)
    (order : BucketOrder) :
    ∃ r, replayWithKnownParents (fuel+1) db order s = some r ∧ r.2.Sound engine := by
  refine Runs.foldlM_keeps (fun r : ℕ × PuzzleConsensus => r.2.Sound engine) _ ?_ h
  rintro parentHash - ⟨admitted, s⟩ h
  obtain ⟨r, hrun, hr⟩ := h.replayForParent fuel db order parentHash
  dsimp only
  rw [hrun]
  exact ⟨_, rfl, hr⟩

/-- No bucket of a sound buffer is too long. -/
theorem truncateOversized_eq (h : BufferSound engine buffer) (order : BucketOrder) :
    truncateOversized order buffer = buffer := by
  have hnone : ((order.arrange buffer.toList).filterMap fun e =>
      if maxBufferedUnknownParentProofsPerParent < e.2.length then some e.1 else none) = [] := by
    apply List.filterMap_eq_nil_iff.mpr
    intro e he
    have hentry := ExtTreeMap.mem_toList_iff_getElem?_eq_some.mp ((order.perm _).mem_iff.mp he)
    exact if_neg (Nat.not_lt.mpr (h.length_le hentry))
  unfold truncateOversized
  rw [hnone]
  rfl

theorem evictWhile_sound (h : BufferSound engine buffer) (order : BucketOrder) (fuel : ℕ) :
    evictWhile order (maxBufferedUnknownParentProofs < ·) fuel buffer = some buffer :=
  evictLoop_of_not order buffer _ fuel (Nat.not_lt.mpr h.total_le)

theorem Sound.gcForLocalProposal (h : s.Sound engine) (height : UInt64) (prevHash : Hash) :
    ∃ s', gcForLocalProposal (fuel+1) db order height prevHash s = some s' ∧ s'.Sound engine := by
  obtain ⟨⟨admitted, s'⟩, hrun, hs'⟩ := h.replayWithKnownParents fuel db order
  have hretain : BufferSound engine
      (retain (keepForLocalProposal height prevHash) s'.pendingProofsByPrevHash) :=
    hs'.buffer.retain _
  unfold PuzzleConsensus.gcForLocalProposal
  rw [hrun]
  dsimp only
  refine ⟨_, ?_, hs'.withBuffer hretain⟩
  change (evictWhile order _ (fuel+1) (truncateOversized order _) >>= _) = _
  rw [truncateOversized_eq hretain, evictWhile_sound hretain]
  rfl

theorem Sound.gcPuzzlePoolBelow (h : s.Sound engine) (height : UInt64) :
    ∃ s', gcPuzzlePoolBelow (fuel+1) db order height s = some s' ∧ s'.Sound engine := by
  have hgc : Sound engine { s with puzzlePool := s.puzzlePool.gcBelow height } :=
    ⟨h.porEngine, h.pool.gcBelow height, h.buffer⟩
  obtain ⟨⟨admitted, s'⟩, hrun, hs'⟩ := hgc.replayWithKnownParents fuel db order
  have hretain : BufferSound engine (retain (keepFrom height) s'.pendingProofsByPrevHash) :=
    hs'.buffer.retain _
  unfold PuzzleConsensus.gcPuzzlePoolBelow gcBufferedBelow
  rw [hrun]
  refine ⟨_, ?_, hs'.withBuffer hretain⟩
  change (evictWhile order _ (fuel+1) _ >>= _) = _
  rw [evictWhile_sound hretain]
  rfl

theorem Sound.onPuzzleProof (h : s.Sound engine) (fuel : ℕ) (db : RockDB) (order : BucketOrder)
    (proof : PorPuzzleProof) :
    ∃ r, onPuzzleProof (fuel+1) db order proof s = some r ∧ r.2.Sound engine := by
  unfold PuzzleConsensus.onPuzzleProof
  split
  · exact ⟨_, rfl, h⟩
  · cases canonWalletIdChecked proof.validator with
    | error e => exact ⟨_, rfl, h⟩
    | ok canon =>
      dsimp only
      split
      · exact ⟨_, rfl, h⟩
      · rename_i hverified
        rw [Bool.not_eq_false, h.porEngine] at hverified
        cases db.getBlockByHash proof.prevBlockHash with
        | some block => exact ⟨_, rfl, h.recordVerifiedProof proof⟩
        | none =>
          obtain ⟨buffer', hbuffered, hbuffer'⟩ :=
            bufferVerified_sound fuel order h.buffer hverified
          dsimp only
          rw [hbuffered]
          exact ⟨_, rfl, h.withBuffer hbuffer'⟩

/-- Every call ends and leaves the state sound. -/
theorem Sound.step (h : s.Sound engine) (fuel : ℕ) (e : PuzzleEvent) :
    ∃ s', step (fuel+1) s e = some s' ∧ s'.Sound engine := by
  obtain ⟨call, db, order⟩ := e
  unfold PuzzleConsensus.step
  cases call with
  | onPuzzleProof proof =>
    obtain ⟨r, hrun, hr⟩ := h.onPuzzleProof fuel db order proof
    dsimp only
    rw [hrun]
    exact ⟨_, rfl, hr⟩
  | replay parentHash =>
    obtain ⟨r, hrun, hr⟩ := h.replayForParent fuel db order parentHash
    dsimp only
    rw [hrun]
    exact ⟨_, rfl, hr⟩
  | gcPuzzlePoolBelow height => exact h.gcPuzzlePoolBelow height
  | proposalGuard height prevHash =>
    dsimp only [collectBeforeProposal]
    split
    · exact ⟨_, rfl, h⟩
    · exact h.gcForLocalProposal height prevHash
  | localSolution height wallet output =>
    exact ⟨_, rfl, h.porEngine, PorPuzzlePool.preserves_recordSuccessChecked _ h.pool, h.buffer⟩
  | clearForLiveness => exact ⟨_, rfl, h.withBuffer Bounded.empty⟩

theorem Sound.new (engine : PorPuzzleEngine) : (new engine).Sound engine :=
  ⟨rfl, .new, Bounded.empty⟩

/-- The buffer keeps its invariant over every sequence of calls, and no eviction loop takes more than
one round. -/
theorem buffer_kept (engine : PorPuzzleEngine) (fuel : ℕ) (events : List PuzzleEvent) :
    ∃ s, events.foldlM (PuzzleConsensus.step (fuel+1)) (PuzzleConsensus.new engine) = some s ∧
      BufferSound engine s.pendingProofsByPrevHash := by
  obtain ⟨s, hrun, hs⟩ :=
    Runs.foldlM_keeps (Sound engine) events (fun e _ s hs => hs.step fuel e) (Sound.new engine)
  exact ⟨s, hrun, hs.buffer⟩

end Steps
end PuzzleConsensus
end Remzar
