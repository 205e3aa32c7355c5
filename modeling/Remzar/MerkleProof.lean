import Mathlib
import Remzar.Lib.Merkle
import Remzar.Signing

/-! Merkle proofs over the items of a batch: the tree under the signed root, the proof that an
item is in it, and the check of such a proof. -/
namespace Remzar
open Fallible Text

/-- A proof: the hash it starts from, a sibling for every level and the side of the node there. -/
structure MerkleProof where
  transactionHash : Hash
  siblingHashes : List Hash
  path : List Bool
  merkleRoot : Hash
  deriving DecidableEq

namespace MerkleProof

def maxProofDepthAbsolute : ℕ := 4096

def blake3Hash64Leaf [Blake3] (data : List UInt8) : Hash := Blake3.xof64 data

def blake3Hash64Two [Blake3] (left right : Hash) : Hash :=
  Blake3.xof64 (left.toList ++ right.toList)

/-! ### Bounds -/

def validateBatchItem (acc : ℕ × ℕ) (item : List UInt8) : Fallible (ℕ × ℕ) := do
  let (i, total) := acc
  rejectIf (maxItemBytes < item.length) (.merkleProofGenerationError
    s!"Batch element #{i} size {item.length} exceeds MAX_ITEM_BYTES {maxItemBytes}")
  rejectIf (maxTotalBatchBytes < total + item.length) (.merkleProofGenerationError
    s!"Total batch bytes {total + item.length} exceeds MAX_TOTAL_BATCH_BYTES {maxTotalBatchBytes}")
  return (i+1, total + item.length)

def validateBatchBounds (batchData : List (List UInt8)) : Fallible Unit := do
  rejectIf (maxBatchItems < batchData.length) (.merkleProofGenerationError
    s!"Batch item count {batchData.length} exceeds MAX_BATCH_ITEMS {maxBatchItems}")
  let _ ← batchData.foldlM validateBatchItem (0, 0)
  return ()

-- The loop stops after 64 doublings at the latest.
def doublingsBelow (n : ℕ) : ℕ → ℕ → ℕ → ℕ
  | 0, _, depth => depth
  | fuel+1, pow2, depth => if pow2 < n then doublingsBelow n fuel (pow2*2) (depth+1) else depth

def maxMerkleDepthForLeaves (n : ℕ) : ℕ := if n ≤ 1 then 0 else doublingsBelow n 64 1 0 + 2

def derivedProofDepthCap : ℕ := maxMerkleDepthForLeaves maxBatchItems

def validateHashListBounds (hashes : List Hash) : Fallible Unit :=
  rejectIf (maxBatchItems < hashes.length) (.merkleProofGenerationError
    s!"Hash count {hashes.length} exceeds MAX_BATCH_ITEMS {maxBatchItems}")

/-! ### Levels -/

def validateLevelFilled (depth : ℕ) (level : List Hash) : Fallible Unit :=
  rejectIf (level = []) (.merkleProofGenerationError s!"Merkle level {depth} is empty")

def validateLevelsFilled : ℕ → List (List Hash) → Fallible Unit
  | _, [] => .ok ()
  | depth, level :: above => do
    validateLevelFilled depth level
    validateLevelsFilled (depth+1) above

/-- Every level has half the nodes of the one below, rounded up. -/
def validateLevelSizes : ℕ → List (List Hash) → Fallible Unit
  | depth, current :: next :: above => do
    let expected := (current.length+1)/2
    rejectIf (next.length ≠ expected) (.merkleProofGenerationError
      s!"Malformed Merkle levels: level {depth} len {current.length} -> level {depth+1} len {next.length}, expected {expected}")
    validateLevelSizes (depth+1) (next :: above)
  | _, _ => .ok ()

def validateLevelsShape (levels : List (List Hash)) : Fallible Unit := do
  rejectIf (levels = []) (.merkleProofGenerationError "Merkle levels are empty")
  validateLevelsFilled 0 levels
  validateLevelSizes 0 levels
  let last ← okOr levels.getLast? (.merkleProofGenerationError "Merkle levels missing final level")
  rejectIf (last.length ≠ 1) (.merkleProofGenerationError
    s!"Final Merkle level must contain exactly one node, got {last.length}")

-- One unit of fuel per level below the root.
def buildLevels [Blake3] : ℕ → List Hash → Fallible (List (List Hash))
  | 0, nodes => .ok [nodes]
  | fuel+1, nodes =>
    if nodes.length ≤ 1 then .ok [nodes]
    else do
      let parents := merkleParents nodes
      rejectIf (parents = []) (.merkleProofGenerationError
        "Merkle root computation produced empty parent layer")
      let above ← buildLevels fuel parents
      return nodes :: above

/-- The root and all levels below it, from the leaves. -/
def computeMerkleRoot [Blake3] (hashes : List Hash) : Fallible (Hash × List (List Hash)) := do
  validateHashListBounds hashes
  let nodes := if hashes = [] then [blake3Hash64Leaf emptyBlockDummyLeaf] else hashes
  rejectIf (nodes = []) (.merkleProofGenerationError "Merkle root computation produced no leaves")
  let levels ← buildLevels nodes.length nodes
  validateLevelsShape levels
  let root ← okOr (levels.getLast?.bind List.head?)
    (.merkleProofGenerationError "Merkle root computation produced no nodes")
  return (root, levels)

/-! ### Proofs -/

def validateMerkleProofShape (proof : MerkleProof) : Fallible Unit := do
  rejectIf (proof.siblingHashes.length ≠ proof.path.length) (.serializationError
    s!"Malformed proof: sibling count {proof.siblingHashes.length} != path count {proof.path.length}")
  rejectIf (maxProofDepthAbsolute < proof.siblingHashes.length) (.serializationError
    s!"Malformed proof: depth {proof.siblingHashes.length} exceeds absolute cap {maxProofDepthAbsolute}")
  rejectIf (derivedProofDepthCap < proof.siblingHashes.length) (.serializationError
    s!"Malformed proof: depth {proof.siblingHashes.length} exceeds derived cap {derivedProofDepthCap}")

def foldSiblings [Blake3] (computed : Hash) : List (Bool × Hash) → Hash
  | [] => computed
  | (left, sibling) :: rest =>
    foldSiblings (if left then blake3Hash64Two computed sibling
      else blake3Hash64Two sibling computed) rest

def verifyMerkleProof [Blake3] (proof : MerkleProof) (signedMerkleRoot : Hash) : Bool :=
  if proof.siblingHashes.length ≠ proof.path.length then false
  else if maxProofDepthAbsolute < proof.siblingHashes.length then false
  else if derivedProofDepthCap < proof.siblingHashes.length then false
  else if proof.siblingHashes = [] then
    proof.transactionHash = signedMerkleRoot ∧ proof.merkleRoot = signedMerkleRoot
  else
    let computed := foldSiblings proof.transactionHash (proof.path.zip proof.siblingHashes)
    computed = signedMerkleRoot ∧ proof.merkleRoot = computed

def malformedLevel (idx len : ℕ) : ErrorDetection := .merkleProofGenerationError
  s!"Malformed merkle level: idx {idx} out of bounds (len={len})"

-- The last node of an odd level is its own sibling.
def siblingAt (level : List Hash) (idx : ℕ) : Fallible Hash :=
  match level[if idx%2 = 0 then idx+1 else idx-1]? with
  | some s => .ok s
  | none => okOr level[idx]? (malformedLevel idx level.length)

def collectSiblings : List (List Hash) → ℕ → Fallible (List (Bool × Hash))
  | [], _ => .ok []
  | level :: above, idx => do
    rejectIf (level.length ≤ idx) (malformedLevel idx level.length)
    let sib ← siblingAt level idx
    let rest ← collectSiblings above (idx/2)
    return (decide (idx%2 = 0), sib) :: rest

/-- The proof for the first item with the target's hash; it is checked before it is returned. -/
def generateMerkleProof [Blake3] (batchData : List (List UInt8)) (targetTransaction : List UInt8) :
    Fallible MerkleProof := do
  rejectIf (batchData = []) (.merkleProofGenerationError "Batch data is empty")
  validateBatchBounds batchData
  rejectIf (maxItemBytes < targetTransaction.length) (.merkleProofGenerationError
    s!"Target transaction size {targetTransaction.length} exceeds MAX_ITEM_BYTES {maxItemBytes}")
  let hashed := batchData.map blake3Hash64Leaf
  rejectIf (hashed = []) (.merkleProofGenerationError "Hashed batch is empty")
  let (root, levels) ← computeMerkleRoot hashed
  validateLevelsShape levels
  let target := blake3Hash64Leaf targetTransaction
  let leafLevel ← okOr levels.head? (.merkleProofGenerationError "Merkle levels missing leaf level")
  let idx ← okOr (leafLevel.findIdx? (· = target))
    (.merkleProofGenerationError "Target transaction not found in batch.")
  let steps ← collectSiblings (levels.take (levels.length-1)) idx
  let proof : MerkleProof := ⟨target, steps.map Prod.snd, steps.map Prod.fst, root⟩
  mapErr (fun e => .merkleProofGenerationError s!"Generated malformed Merkle proof: {e.debug}")
    (validateMerkleProofShape proof)
  rejectIf (!verifyMerkleProof proof root) (.merkleProofGenerationError
    "Generated Merkle proof failed self-verification")
  return proof

/-! ### Bounded batches -/

theorem derivedProofDepthCap_eq : derivedProofDepthCap = 18 := by decide

theorem foldlM_validateBatchItem_ok (data : List (List UInt8)) (i total : ℕ)
    (hitem : ∀ item ∈ data, item.length ≤ maxItemBytes)
    (htotal : total + (data.map List.length).sum ≤ maxTotalBatchBytes) :
    ∃ out, data.foldlM validateBatchItem (i, total) = .ok out := by
  induction data generalizing i total with
  | nil => exact ⟨_, rfl⟩
  | cons item data ih =>
    rw [List.map_cons, List.sum_cons] at htotal
    have hlen := hitem item List.mem_cons_self
    have hstep : validateBatchItem (i, total) item = .ok (i+1, total + item.length) := by
      simp only [validateBatchItem, rejectIf_of_not _ (Nat.not_lt.mpr hlen), ok_bind]
      rw [rejectIf_of_not _ (by omega), ok_bind]
      rfl
    rw [List.foldlM_cons, hstep, ok_bind]
    exact ih _ _ (fun item' h => hitem item' (List.mem_cons_of_mem item h)) (by omega)

/-- What the bounds on a batch say. -/
structure Bounded (batchData : List (List UInt8)) : Prop where
  count : batchData.length ≤ maxBatchItems
  item : ∀ item ∈ batchData, item.length ≤ maxItemBytes
  total : (batchData.map List.length).sum ≤ maxTotalBatchBytes

theorem Bounded.validate {batchData : List (List UInt8)} (h : Bounded batchData) :
    validateBatchBounds batchData = .ok () := by
  obtain ⟨out, hout⟩ := foldlM_validateBatchItem_ok batchData 0 0 h.item
    ((Nat.zero_add _).trans_le h.total)
  rw [validateBatchBounds, rejectIf_of_not _ (Nat.not_lt.mpr h.count), ok_bind, hout]
  rfl

theorem validateMerkleProofShape_ok {x root : Hash} {climbing : List (Bool × Hash)}
    (hlen : climbing.length ≤ 16) :
    validateMerkleProofShape ⟨x, climbing.map Prod.snd, climbing.map Prod.fst, root⟩ = .ok () := by
  rw [validateMerkleProofShape]
  simp only [List.length_map, derivedProofDepthCap_eq, maxProofDepthAbsolute]
  rw [rejectIf_of_not _ (not_not.mpr rfl), ok_bind, rejectIf_of_not _ (by omega), ok_bind]
  exact rejectIf_of_not _ (by omega)

def steps (proof : MerkleProof) : List (Bool × Hash) := proof.path.zip proof.siblingHashes

/-- The first position of a member. -/
theorem findIdx?_of_mem {hashes : List Hash} {target : Hash} (h : target ∈ hashes) :
    ∃ idx, hashes.findIdx? (· = target) = some idx ∧ hashes[idx]? = some target := by
  cases hfind : hashes.findIdx? (· = target) with
  | none =>
    have hall := List.findIdx?_eq_none_iff.mp hfind target h
    simp at hall
  | some idx =>
    obtain ⟨hlt, hat, -⟩ := List.findIdx?_eq_some_iff_getElem.mp hfind
    refine ⟨idx, rfl, ?_⟩
    rw [List.getElem?_eq_getElem hlt, of_decide_eq_true hat]

/-! ### The tree -/

section
variable [Blake3]

theorem merkleParents_eq (nodes : List Hash) :
    merkleParents nodes = Merkle.parents blake3Hash64Two nodes := by
  fun_induction merkleParents nodes with
  | case1 => rfl
  | case2 left => rfl
  | case3 left right rest ih =>
    rw [ih]
    rfl

theorem buildLevels_eq (fuel : ℕ) {nodes : List Hash} (hnodes : nodes ≠ []) :
    buildLevels fuel nodes = .ok (Merkle.levels blake3Hash64Two fuel nodes) := by
  induction fuel generalizing nodes with
  | zero => rfl
  | succ fuel ih =>
    rw [buildLevels, Merkle.levels]
    split
    · rfl
    · have hparents : merkleParents nodes ≠ [] := by
        have hlen := Merkle.length_parents blake3Hash64Two nodes
        have hpos := List.length_pos_of_ne_nil hnodes
        intro hempty
        rw [← merkleParents_eq, hempty] at hlen
        simp only [List.length_nil] at hlen
        omega
      dsimp only
      rw [rejectIf_of_not _ hparents, ok_bind, ih hparents, ok_bind, merkleParents_eq]
      rfl

theorem validateLevelsFilled_ok {levels : List (List Hash)}
    (ht : Merkle.Tower blake3Hash64Two levels) (depth : ℕ) :
    validateLevelsFilled depth levels = .ok () := by
  induction ht generalizing depth with
  | root x => rfl
  | grow level above hlevel htower ih =>
    have hfilled : level ≠ [] := by
      rintro rfl
      exact absurd hlevel (by decide)
    rw [validateLevelsFilled, validateLevelFilled, rejectIf_of_not _ hfilled, ok_bind]
    exact ih (depth+1)

theorem validateLevelSizes_ok {levels : List (List Hash)}
    (ht : Merkle.Tower blake3Hash64Two levels) (depth : ℕ) :
    validateLevelSizes depth levels = .ok () := by
  induction ht generalizing depth with
  | root x => rfl
  | grow level above hlevel htower ih =>
    have hsize := Merkle.length_parents blake3Hash64Two level
    rw [validateLevelSizes, rejectIf_of_not _ (not_not.mpr hsize), ok_bind]
    exact ih (depth+1)

theorem validateLevelsShape_ok {levels : List (List Hash)}
    (ht : Merkle.Tower blake3Hash64Two levels) {root : Hash}
    (hroot : levels.getLast? = some [root]) : validateLevelsShape levels = .ok () := by
  have hlevels : levels ≠ [] := by
    rintro rfl
    cases hroot
  rw [validateLevelsShape, rejectIf_of_not _ hlevels, ok_bind, validateLevelsFilled_ok ht, ok_bind,
    validateLevelSizes_ok ht, ok_bind, hroot]
  rfl

/-- The last level of a tower is its root. -/
theorem tower_root {levels : List (List Hash)} (ht : Merkle.Tower blake3Hash64Two levels) :
    ∃ root, levels.getLast? = some [root] := by
  induction ht with
  | root x => exact ⟨x, rfl⟩
  | grow level above hlevel htower ih =>
    obtain ⟨root, hroot⟩ := ih
    exact ⟨root, by rw [List.getLast?_cons_cons, hroot]⟩

/-- The leaves: an empty batch has a leaf of its own. -/
def leafNodes (hashes : List Hash) : List Hash :=
  if hashes = [] then [blake3Hash64Leaf emptyBlockDummyLeaf] else hashes

theorem leafNodes_ne_nil (hashes : List Hash) : leafNodes hashes ≠ [] := by
  rw [leafNodes]
  split
  · exact List.cons_ne_nil _ _
  · assumption

/-- Within the cap the tree of a list of hashes is built, and passes its own check. -/
theorem computeMerkleRoot_ok {hashes : List Hash} (hcap : hashes.length ≤ maxBatchItems) :
    ∃ root levels, computeMerkleRoot hashes = .ok (root, leafNodes hashes :: levels) ∧
      Merkle.levels blake3Hash64Two (leafNodes hashes).length (leafNodes hashes) =
        leafNodes hashes :: levels ∧
      Merkle.Tower blake3Hash64Two (leafNodes hashes :: levels) ∧
      (leafNodes hashes :: levels).getLast? = some [root] := by
  have hne := leafNodes_ne_nil hashes
  have htower := Merkle.tower_levels blake3Hash64Two (List.length_pos_of_ne_nil hne)
    (Nat.le_succ (leafNodes hashes).length)
  obtain ⟨above, habove⟩ :=
    Merkle.levels_eq_cons blake3Hash64Two (leafNodes hashes).length (leafNodes hashes)
  rw [habove] at htower
  obtain ⟨root, hroot⟩ := tower_root htower
  refine ⟨root, above, ?_, habove, htower, hroot⟩
  rw [computeMerkleRoot, validateHashListBounds, rejectIf_of_not _ (Nat.not_lt.mpr hcap), ok_bind]
  change (rejectIf (leafNodes hashes = []) _ >>= fun _ =>
    buildLevels (leafNodes hashes).length (leafNodes hashes) >>= _) = _
  rw [rejectIf_of_not _ hne, ok_bind, buildLevels_eq _ hne, ok_bind, habove,
    validateLevelsShape_ok htower hroot, ok_bind, hroot]
  rfl

theorem merkleClimb_eq (fuel : ℕ) (nodes : List Hash) :
    (Merkle.levels blake3Hash64Two fuel nodes).getLast? = some (merkleClimb fuel nodes) := by
  induction fuel generalizing nodes with
  | zero => rfl
  | succ fuel ih =>
    rw [Merkle.levels, merkleClimb]
    split
    · rfl
    · obtain ⟨above, habove⟩ := Merkle.levels_eq_cons blake3Hash64Two fuel
        (Merkle.parents blake3Hash64Two nodes)
      have hlast := ih (merkleParents nodes)
      rw [merkleParents_eq, habove] at hlast
      rw [habove, List.getLast?_cons_cons, hlast, merkleParents_eq]

/-- The root that the batch signers sign is the root of the tree. -/
theorem signedMerkleRoot_eq (hashes : List Hash) :
    signedMerkleRoot hashes = (computeMerkleRoot hashes).map Prod.fst := by
  by_cases hcap : hashes.length ≤ maxBatchItems
  · obtain ⟨root, levels, hroot, hlevels, -, hlast⟩ := computeMerkleRoot_ok hcap
    have hclimb := merkleClimb_eq (leafNodes hashes).length (leafNodes hashes)
    rw [hlevels, hlast, Option.some.injEq] at hclimb
    rw [signedMerkleRoot, rejectIf_of_not _ (Nat.not_lt.mpr hcap), ok_bind, hroot]
    change okOr (merkleClimb (leafNodes hashes).length (leafNodes hashes)).head? _ = _
    rw [← hclimb]
    rfl
  · have hreject := Nat.not_le.mp hcap
    rw [signedMerkleRoot, computeMerkleRoot, validateHashListBounds, rejectIf, if_pos hreject]
    rfl

/-! ### Siblings -/

theorem foldSiblings_eq (x : Hash) (steps : List (Bool × Hash)) :
    foldSiblings x steps = Merkle.climb blake3Hash64Two x steps := by
  induction steps generalizing x with
  | nil => rfl
  | cons s rest ih =>
    obtain ⟨left, sibling⟩ := s
    rw [foldSiblings, Merkle.climb, ih, Merkle.Step.pair]
    cases left <;> rfl

theorem collectSiblings_eq {levels : List (List Hash)}
    (ht : Merkle.Tower blake3Hash64Two levels) {level : List Hash}
    (hlevel : levels.head? = some level) {idx : ℕ} {x : Hash} (hx : level[idx]? = some x) :
    collectSiblings (levels.take (levels.length-1)) idx = .ok (Merkle.proof levels idx) := by
  induction ht generalizing level idx x with
  | root y => rfl
  | grow bottom above hbottom htower ih =>
    cases hlevel
    have hlt : idx < bottom.length := by
      by_contra hge
      rw [List.getElem?_eq_none (Nat.not_lt.mp hge)] at hx
      cases hx
    have hrest := ih rfl (Merkle.parents_getElem? blake3Hash64Two hx)
    have htake : (bottom :: Merkle.parents blake3Hash64Two bottom :: above).take
        ((bottom :: Merkle.parents blake3Hash64Two bottom :: above).length-1) =
        bottom :: (Merkle.parents blake3Hash64Two bottom :: above).take
          ((Merkle.parents blake3Hash64Two bottom :: above).length-1) := rfl
    have hsib : siblingAt bottom idx = .ok (bottom[if idx%2 = 0 then idx+1 else idx-1]?.getD x) := by
      rw [siblingAt]
      cases bottom[if idx%2 = 0 then idx+1 else idx-1]? with
      | some s => rfl
      | none =>
        rw [hx]
        rfl
    have hproof : Merkle.proof (bottom :: Merkle.parents blake3Hash64Two bottom :: above) idx =
        Merkle.step bottom idx x ::
          Merkle.proof (Merkle.parents blake3Hash64Two bottom :: above) (idx/2) := by
      rw [Merkle.proof, hx]
      simp
    rw [htake, collectSiblings, rejectIf_of_not _ (Nat.not_le.mpr hlt), ok_bind, hsib, ok_bind, hrest,
      ok_bind, hproof]
    rfl

/-! ### Proofs of a batch -/

/-- A tree within the cap on batches stays within both caps on proofs. -/
theorem depth_le {hashes : List Hash} {levels : List (List Hash)}
    (ht : Merkle.Tower blake3Hash64Two (hashes :: levels)) (hcap : hashes.length ≤ maxBatchItems) :
    levels.length ≤ 16 := by
  refine ht.depth_le blake3Hash64Two (hcap.trans ?_)
  decide

/-- What an accepted proof is: a climb from its hash to the root. -/
theorem climb_of_verify {proof : MerkleProof} {root : Hash}
    (h : verifyMerkleProof proof root = true) :
    proof.steps.length = proof.siblingHashes.length ∧
      Merkle.climb blake3Hash64Two proof.transactionHash proof.steps = root := by
  rw [verifyMerkleProof] at h
  split at h
  · cases h
  · rename_i hshape
    have hlen : proof.steps.length = proof.siblingHashes.length := by
      rw [steps, List.length_zip, ← not_not.mp hshape, Nat.min_self]
    refine ⟨hlen, ?_⟩
    split at h
    · cases h
    · split at h
      · cases h
      · split at h
        · rename_i hempty
          rw [hempty, List.length_nil, List.length_eq_zero_iff] at hlen
          rw [hlen]
          exact (of_decide_eq_true h).1
        · rw [← foldSiblings_eq]
          exact (of_decide_eq_true h).1

/-- A climb of a permitted length is accepted under the root it ends at. -/
theorem verify_of_climb {x root : Hash} {climbing : List (Bool × Hash)}
    (hlen : climbing.length ≤ 16)
    (hclimb : Merkle.climb blake3Hash64Two x climbing = root) :
    verifyMerkleProof ⟨x, climbing.map Prod.snd, climbing.map Prod.fst, root⟩ root = true := by
  have hzip : (climbing.map Prod.fst).zip (climbing.map Prod.snd) = climbing := by
    rw [List.zip_map']
    exact List.map_id _
  have hdepth : ¬maxProofDepthAbsolute < climbing.length := by
    rw [maxProofDepthAbsolute]
    omega
  have hcap : ¬derivedProofDepthCap < climbing.length := by
    rw [derivedProofDepthCap_eq]
    omega
  rw [verifyMerkleProof]
  simp only [List.length_map, ne_eq, not_true_eq_false, if_false, if_neg hdepth, if_neg hcap, hzip,
    foldSiblings_eq, hclimb]
  split
  · rename_i hempty
    rw [List.map_eq_nil_iff] at hempty
    rw [hempty] at hclimb
    exact decide_eq_true ⟨hclimb, trivial⟩
  · exact decide_eq_true ⟨trivial, trivial⟩

/-- The pairs that a proof hashes collide with no other pair of the tree. -/
def NoCollision (proof : MerkleProof) (levels : List (List Hash)) : Prop :=
  ∀ p ∈ Merkle.climbed blake3Hash64Two proof.transactionHash proof.steps,
    ∀ q ∈ Merkle.hashed levels, blake3Hash64Two p.1 p.2 = blake3Hash64Two q.1 q.2 → p = q

theorem generateMerkleProof_ok {batchData : List (List UInt8)} (h : Bounded batchData)
    {target : List UInt8} (htarget : target ∈ batchData) {root : Hash} {levels : List (List Hash)}
    (hroot : computeMerkleRoot (batchData.map blake3Hash64Leaf) =
      .ok (root, batchData.map blake3Hash64Leaf :: levels))
    (ht : Merkle.Tower blake3Hash64Two (batchData.map blake3Hash64Leaf :: levels))
    (hlast : (batchData.map blake3Hash64Leaf :: levels).getLast? = some [root]) :
    ∃ proof, generateMerkleProof batchData target = .ok proof ∧
      proof.siblingHashes.length = levels.length ∧ verifyMerkleProof proof root = true := by
  have hne : batchData ≠ [] := List.ne_nil_of_mem htarget
  have hhashed : batchData.map blake3Hash64Leaf ≠ [] := by simpa using hne
  obtain ⟨idx, hidx, hat⟩ := findIdx?_of_mem (List.mem_map_of_mem (f := blake3Hash64Leaf) htarget)
  have hcap : (batchData.map blake3Hash64Leaf).length ≤ maxBatchItems := by
    rw [List.length_map]
    exact h.count
  obtain ⟨hclimb, hlen⟩ := Merkle.climb_proof blake3Hash64Two ht rfl hat
  rw [hlast, Option.some.injEq, List.singleton_inj] at hclimb
  have hdepth : (Merkle.proof (batchData.map blake3Hash64Leaf :: levels) idx).length ≤ 16 := by
    rw [hlen]
    exact depth_le ht hcap
  have hverify := verify_of_climb hdepth hclimb.symm
  refine ⟨_, ?_, ?_, hverify⟩
  · rw [generateMerkleProof, rejectIf_of_not _ hne, ok_bind, h.validate, ok_bind,
      rejectIf_of_not _ (Nat.not_lt.mpr (h.item target htarget)), ok_bind]
    dsimp only
    rw [rejectIf_of_not _ hhashed, ok_bind, hroot, ok_bind]
    dsimp only
    rw [validateLevelsShape_ok ht hlast, ok_bind, List.head?_cons, okOr, ok_bind, hidx, okOr, ok_bind,
      collectSiblings_eq ht rfl hat, ok_bind, validateMerkleProofShape_ok hdepth, mapErr, ok_bind,
      hverify]
    rfl
  · rw [List.length_map, hlen]
    rfl

/-- Every item of a bounded batch has a proof as deep as the tree, which is accepted under the
root; and where no hash collides, a proof of that depth accepted there is for an item. -/
theorem merkle_proof_complete_and_sound (batchData : List (List UInt8)) (h : Bounded batchData)
    (target : List UInt8) (htarget : target ∈ batchData) :
    ∃ root levels, computeMerkleRoot (batchData.map blake3Hash64Leaf) = .ok (root, levels) ∧
      (∃ proof, generateMerkleProof batchData target = .ok proof ∧
        proof.siblingHashes.length = levels.length - 1 ∧ verifyMerkleProof proof root = true) ∧
      ∀ proof, proof.siblingHashes.length = levels.length - 1 →
        verifyMerkleProof proof root = true → NoCollision proof levels →
          proof.transactionHash ∈ batchData.map blake3Hash64Leaf := by
  have hhashed : batchData.map blake3Hash64Leaf ≠ [] := by
    simpa using List.ne_nil_of_mem htarget
  have hcap : (batchData.map blake3Hash64Leaf).length ≤ maxBatchItems := by
    rw [List.length_map]
    exact h.count
  obtain ⟨root, levels, hroot, -, ht, hlast⟩ := computeMerkleRoot_ok hcap
  rw [leafNodes, if_neg hhashed] at hroot ht hlast
  refine ⟨root, _, hroot, generateMerkleProof_ok h htarget hroot ht hlast, ?_⟩
  intro proof hdepth hverify hfree
  obtain ⟨hlen, hclimb⟩ := climb_of_verify hverify
  refine Merkle.mem_of_climb blake3Hash64Two ht rfl (hlen.trans hdepth) ?_ hfree
  rw [hlast, hclimb]

theorem computeMerkleRoot_pair (left right : Hash) :
    computeMerkleRoot [left, right] =
      .ok (blake3Hash64Two left right, [[left, right], [blake3Hash64Two left right]]) := by
  have htower : Merkle.Tower blake3Hash64Two [[left, right], [blake3Hash64Two left right]] :=
    .grow [left, right] [] (by simp) (.root _)
  have hlevels : Merkle.levels blake3Hash64Two [left, right].length [left, right] =
      [[left, right], [blake3Hash64Two left right]] := by
    simp [Merkle.levels, Merkle.parents, Merkle.pairs]
  rw [computeMerkleRoot, validateHashListBounds, rejectIf_of_not _ (by simp [maxBatchItems]), ok_bind]
  dsimp only
  rw [if_neg (by simp), rejectIf_of_not _ (by simp), ok_bind, buildLevels_eq _ (by simp), ok_bind,
    hlevels, validateLevelsShape_ok htower rfl]
  rfl

end

theorem merkle_proof_complete_and_sound_pair :
    ∃ root levels proof,
      @computeMerkleRoot Blake3.reference
          ([[1], [2]].map (@blake3Hash64Leaf Blake3.reference)) = .ok (root, levels) ∧
        @generateMerkleProof Blake3.reference [[1], [2]] [2] = .ok proof ∧
        proof.siblingHashes.length = levels.length - 1 ∧
        @verifyMerkleProof Blake3.reference proof root = true ∧
        @blake3Hash64Leaf Blake3.reference [1] ∈
          [[1], [2]].map (@blake3Hash64Leaf Blake3.reference) := by
  let : Blake3 := Blake3.reference
  have hbounded : Bounded [[1], [2]] := ⟨by decide, by decide, by decide⟩
  obtain ⟨root, levels, hroot, ⟨proof, hproof⟩, hsound⟩ :=
    merkle_proof_complete_and_sound [[1], [2]] hbounded [2] (by simp)
  refine ⟨root, levels, proof, hroot, hproof.1, hproof.2.1, hproof.2.2, ?_⟩
  have hpair := (computeMerkleRoot_pair (blake3Hash64Leaf [1]) (blake3Hash64Leaf [2])).symm.trans hroot
  obtain ⟨rfl, rfl⟩ := Prod.mk.inj (Except.ok.inj hpair)
  -- The proof of the other item hashes the one pair of the tree.
  refine hsound ⟨blake3Hash64Leaf [1], [blake3Hash64Leaf [2]], [true],
    blake3Hash64Two (blake3Hash64Leaf [1]) (blake3Hash64Leaf [2])⟩ rfl ?_ ?_
  · exact @verify_of_climb _ _ _ [(true, blake3Hash64Leaf [2])] (by decide) rfl
  · intro p hp q hq _
    rw [List.mem_singleton.mp hp, List.mem_singleton.mp hq]
    rfl

end MerkleProof

end Remzar
