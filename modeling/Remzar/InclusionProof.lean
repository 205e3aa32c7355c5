import Mathlib
import Remzar.Chain

/-! The inclusion proofs of a transaction batch, against the root its metadata carries. The
proofs climb a tree of hashes; the root is one hash over all transactions. -/
namespace Remzar
open Fallible Text

/-! ### The walk -/

def computeDataHash [Blake3] (data : List UInt8) : Fallible Hash := do
  let bytes := Postcard.bytes.enc data
  ensureSizeLimit bytes.length "compute_data_hash"
  return Blake3.xof64 bytes

/-- Where the walk over one level stands: the index it follows, the parents so far and the
siblings recorded so far. -/
structure LevelWalk where
  idx : ℕ
  next : List Hash
  proof : List Hash

namespace TransactionBatch

-- The index is moved to the parent just pushed after every pair, not only after the pair that
-- holds the node: the pairs that follow are compared with a position of the next level.
def walkPair [Blake3] (count : ℕ) (left right : Hash) (w : LevelWalk) : Fallible LevelWalk := do
  let proof :=
    if w.idx%2 = 0 ∧ w.idx+1 < count then w.proof ++ [right]
    else if w.idx%2 ≠ 0 then w.proof ++ [left]
    else w.proof
  let parent ← computeDataHash (left.toList ++ right.toList)
  return ⟨w.next.length, w.next ++ [parent], proof⟩

def walkLevel [Blake3] (count : ℕ) : List Hash → LevelWalk → Fallible LevelWalk
  | [], w => .ok w
  | [left], w => walkPair count left left w
  | left :: right :: rest, w => do
    let w ← walkPair count left right w
    walkLevel count rest w

-- One unit of fuel per level.
def walkUp [Blake3] : ℕ → List Hash → ℕ → List Hash → Fallible (List Hash)
  | 0, _, _, proof => .ok proof
  | fuel+1, nodes, idx, proof =>
    if nodes.length ≤ 1 then .ok proof
    else do
      let w ← walkLevel nodes.length nodes ⟨idx, [], proof⟩
      walkUp fuel w.next w.idx w.proof

def leafHash [Blake3] (kind : TxKind) : Fallible Hash := do
  let data ← kind.leaf
  computeDataHash data

def inclusionProof [Blake3] (batch : TransactionBatch) (leafIndex : ℕ) : Fallible (List Hash) := do
  let nodes ← batch.transactions.mapM leafHash
  rejectIf (nodes.length ≤ leafIndex) (.notFound s!"leaf index {leafIndex} out of bounds")
  walkUp nodes.length nodes leafIndex []

/-! ### Folding a proof -/

/-- The input that is hashed into the node above two nodes. -/
def parentInput (left right : Hash) : List UInt8 := Postcard.bytes.enc (left.toList ++ right.toList)

/-- The inputs hashed on the way from a node of a level with `count` nodes up to the root: the
bits of the index choose the side, and the last node of an odd level is paired with itself.
Nothing if siblings are missing or left over. -/
def foldInputs [Blake3] : ℕ → ℕ → ℕ → Hash → List Hash → Option (List (List UInt8))
  | 0, _, _, _, proof => if proof = [] then some [] else none
  | fuel+1, count, idx, node, proof =>
    if count ≤ 1 then if proof = [] then some [] else none
    else if idx%2 = 0 ∧ count ≤ idx+1 then
      let input := parentInput node node
      (foldInputs fuel ((count+1)/2) (idx/2) (Blake3.xof64 input) proof).map (input :: ·)
    else
      match proof with
      | [] => none
      | sibling :: proof =>
        let input := if idx%2 = 0 then parentInput node sibling else parentInput sibling node
        (foldInputs fuel ((count+1)/2) (idx/2) (Blake3.xof64 input) proof).map (input :: ·)

/-- The root that a proof leads to. -/
def foldProof [Blake3] (count idx : ℕ) (node : Hash) (proof : List Hash) : Option Hash :=
  (foldInputs count count idx node proof).map fun inputs =>
    (inputs.getLast?.map Blake3.xof64).getD node

/-- The proof of a transaction leads from its hash to the root of the batch. -/
def VerifiesAt [Blake3] (batch : TransactionBatch) (i : ℕ) : Prop :=
  ∃ proof kind node root, batch.inclusionProof i = .ok proof ∧
    batch.transactions[i]? = some kind ∧ leafHash kind = .ok node ∧
    batch.computeMerkleRoot = .ok root ∧
    foldProof batch.transactions.length i node proof = some root

/-! ### The root against the proofs -/

/-- The input that is hashed into the root: the encodings of all transactions in a row. -/
def rootInput (leaves : List (List UInt8)) : List UInt8 := (leaves.map Postcard.bytes.enc).flatten

/-- A pair of hashes is not the input of the root of two or more transactions: it would be the
encoding of the first one alone. -/
theorem parentInput_ne_rootInput (left right : Hash) {leaves : List (List UInt8)}
    (hmany : 1 < leaves.length)
    (hsize : ∀ leaf ∈ leaves, (Postcard.bytes.enc leaf).length ≤ maxSerializedBytes) :
    parentInput left right ≠ rootInput leaves := by
  intro heq
  match leaves, hmany with
  | first :: second :: rest, _ =>
    have hfirst : Postcard.bytes.Fits first := by
      have hle := hsize first List.mem_cons_self
      change (Postcard.usize.enc first.length ++ first).length ≤ _ at hle
      rw [List.length_append, maxSerializedBytes] at hle
      change first.length < 2^64
      omega
    have hpair : Postcard.bytes.Fits (left.toList ++ right.toList) := by
      change (left.toList ++ right.toList).length < 2^64
      rw [List.length_append, left.toList_length, right.toList_length]
      decide
    have happ : Postcard.bytes.enc (left.toList ++ right.toList) ++ [] =
        Postcard.bytes.enc first ++ rootInput (second :: rest) := by
      rw [List.append_nil]
      exact heq
    obtain ⟨-, hrest⟩ := Postcard.bytes.enc_append_inj hpair hfirst happ
    have hnil := List.append_eq_nil_iff.mp hrest.symm
    have husize := List.append_eq_nil_iff.mp hnil.1
    exact Postcard.encodeVarint_ne_nil _ _ husize.1

section
variable [Blake3] {batch : TransactionBatch}

/-- No input that is hashed when a proof of the batch is folded has the hash of the root's input
without being that input. -/
def NoCollision (batch : TransactionBatch) : Prop :=
  ∀ i proof kind node inputs leaves, batch.inclusionProof i = .ok proof →
    batch.transactions[i]? = some kind → leafHash kind = .ok node →
    foldInputs batch.transactions.length batch.transactions.length i node proof = some inputs →
    batch.leaves = .ok leaves →
      ∀ x ∈ inputs, Blake3.xof64 x = Blake3.xof64 (rootInput leaves) → x = rootInput leaves

theorem computeDataHash_eq_ok_iff (data : List UInt8) (hash : Hash) :
    computeDataHash data = .ok hash ↔
      (Postcard.bytes.enc data).length ≤ maxSerializedBytes ∧
        hash = Blake3.xof64 (Postcard.bytes.enc data) := by
  simp only [computeDataHash, ensureSizeLimit, bind_eq_ok_iff, rejectIf_eq_ok_iff, pure_eq_ok_iff,
    exists_const, Nat.not_lt]
  exact and_congr_right fun _ => eq_comm

theorem computeMerkleRoot_eq_ok_iff {leaves : List (List UInt8)} (hleaves : batch.leaves = .ok leaves)
    (hne : leaves ≠ []) (root : Hash) :
    batch.computeMerkleRoot = .ok root ↔
      (∀ leaf ∈ leaves, (Postcard.bytes.enc leaf).length ≤ maxSerializedBytes) ∧
        root = Blake3.xof64 (rootInput leaves) := by
  rw [computeMerkleRoot, hleaves, ok_bind, remzarComputeMerkleRoot, if_neg hne]
  have hsizes : (leaves.map Postcard.bytes.enc).forM (fun blob =>
      ensureSizeLimit blob.length "compute_merkle_root(tx)") = .ok () ↔
        ∀ leaf ∈ leaves, (Postcard.bytes.enc leaf).length ≤ maxSerializedBytes := by
    rw [forM_eq_ok_iff, List.forall_mem_map]
    simp only [ensureSizeLimit, rejectIf_eq_ok_iff, Nat.not_lt]
  rw [bind_eq_ok_iff, ← hsizes]
  constructor
  · rintro ⟨⟨⟩, hforM, hroot⟩
    cases hroot
    exact ⟨hforM, rfl⟩
  · rintro ⟨hforM, rfl⟩
    exact ⟨(), hforM, rfl⟩

/-- Everything hashed in a fold is a pair of hashes, and above a second transaction something is. -/
theorem foldInputs_pairs {fuel count idx : ℕ} {node : Hash} {proof : List Hash}
    {inputs : List (List UInt8)} (h : foldInputs fuel count idx node proof = some inputs) :
    (∀ x ∈ inputs, ∃ left right, x = parentInput left right) ∧
      (1 < count → fuel ≠ 0 → inputs ≠ []) := by
  induction fuel generalizing count idx node proof inputs with
  | zero =>
    unfold foldInputs at h
    split at h
    · cases h
      exact ⟨nofun, fun _ hfuel => absurd rfl hfuel⟩
    · cases h
  | succ fuel ih =>
    unfold foldInputs at h
    split at h
    · rename_i hcount
      split at h
      · cases h
        exact ⟨nofun, fun hmany => absurd hmany (Nat.not_lt.mpr hcount)⟩
      · cases h
    · split at h
      · obtain ⟨rest, hrest, rfl⟩ := Option.map_eq_some_iff.mp h
        refine ⟨?_, fun _ _ => List.cons_ne_nil _ _⟩
        exact List.forall_mem_cons.mpr ⟨⟨node, node, rfl⟩, (ih hrest).1⟩
      · split at h
        · cases h
        · rename_i sibling proof
          obtain ⟨rest, hrest, rfl⟩ := Option.map_eq_some_iff.mp h
          refine ⟨?_, fun _ _ => List.cons_ne_nil _ _⟩
          refine List.forall_mem_cons.mpr ⟨?_, (ih hrest).1⟩
          split
          · exact ⟨node, sibling, rfl⟩
          · exact ⟨sibling, node, rfl⟩

/-- The check that folds a proof and compares the result with the root. -/
def verifies (batch : TransactionBatch) (i : ℕ) : Bool :=
  match batch.inclusionProof i, batch.transactions[i]?.map leafHash, batch.computeMerkleRoot with
  | .ok proof, some (.ok node), .ok root =>
    foldProof batch.transactions.length i node proof = some root
  | _, _, _ => false

theorem verifies_iff (batch : TransactionBatch) (i : ℕ) : batch.verifies i = true ↔ VerifiesAt batch i := by
  constructor
  · intro h
    unfold verifies at h
    split at h
    · rename_i proof hash root hproof hmap hroot
      obtain ⟨kind, hkind, hnode⟩ := Option.map_eq_some_iff.mp hmap
      exact ⟨proof, kind, hash, root, hproof, hkind, hnode, hroot, of_decide_eq_true h⟩
    · cases h
  · rintro ⟨proof, kind, node, root, hproof, hkind, hnode, hroot, hfold⟩
    unfold verifies
    rw [hproof, hkind, Option.map_some, hnode, hroot]
    exact decide_eq_true hfold

/-- A single transaction: the root is the hash of the leaf itself, and the proof is empty. -/
theorem verifiesAt_single {leaf : List UInt8} (hleaves : batch.leaves = .ok [leaf])
    (hsize : (Postcard.bytes.enc leaf).length ≤ maxSerializedBytes) : VerifiesAt batch 0 := by
  have hforall := forall₂_of_mapM hleaves
  rcases hkinds : batch.transactions with - | ⟨kind, - | ⟨second, rest⟩⟩
  · rw [hkinds] at hforall
    cases hforall
  · rw [hkinds] at hforall
    have hleaf : kind.leaf = .ok leaf := by
      cases hforall
      assumption
    have hnode : leafHash kind = .ok (Blake3.xof64 (Postcard.bytes.enc leaf)) := by
      rw [leafHash, hleaf, ok_bind, computeDataHash_eq_ok_iff]
      exact ⟨hsize, rfl⟩
    have hproof : batch.inclusionProof 0 = .ok [] := by
      rw [inclusionProof, hkinds, List.mapM_cons, hnode]
      rfl
    have hroot : batch.computeMerkleRoot = .ok (Blake3.xof64 (Postcard.bytes.enc leaf)) := by
      rw [computeMerkleRoot_eq_ok_iff hleaves (List.cons_ne_nil _ _), rootInput]
      refine ⟨List.forall_mem_singleton.mpr hsize, ?_⟩
      rw [List.map_singleton, List.flatten_singleton]
    refine ⟨[], kind, _, _, hproof, ?_, hnode, hroot, ?_⟩
    · rw [hkinds]
      rfl
    · rw [hkinds]
      rfl
  · rw [hkinds] at hforall
    rcases hforall with - | ⟨-, ⟨⟩⟩

/-- Every proof of a non-empty batch leads to its root exactly when the batch is a single
transaction that the size limit of the hash lets through. -/
theorem inclusion_proofs_verify_iff (batch : TransactionBatch) (hne : batch.transactions ≠ [])
    (hfree : NoCollision batch) :
    (∀ i < batch.transactions.length, VerifiesAt batch i) ↔
      ∃ leaf, batch.leaves = .ok [leaf] ∧
        (Postcard.bytes.enc leaf).length ≤ maxSerializedBytes := by
  constructor
  · intro hall
    obtain ⟨proof, kind, node, root, hproof, hkind, hnode, hroot, hfold⟩ :=
      hall 0 (List.length_pos_iff.mpr hne)
    obtain ⟨leaves, hleaves, -⟩ := (bind_eq_ok_iff _ _ _).mp hroot
    have hlen := (forall₂_of_mapM hleaves).length_eq
    have hleavesNe : leaves ≠ [] := by
      rw [← List.length_pos_iff, ← hlen]
      exact List.length_pos_iff.mpr hne
    obtain ⟨hsize, rfl⟩ := (computeMerkleRoot_eq_ok_iff hleaves hleavesNe root).mp hroot
    obtain ⟨inputs, hinputs, hlast⟩ := Option.map_eq_some_iff.mp hfold
    obtain ⟨hpairs, hsome⟩ := foldInputs_pairs hinputs
    by_cases hmany : 1 < leaves.length
    · -- the last input of the fold would have to be the input of the root
      have hinputsNe := hsome (hlen ▸ hmany) (by rw [hlen]; omega)
      rw [List.getLast?_eq_some_getLast hinputsNe] at hlast
      have hmem := List.getLast_mem hinputsNe
      have hsame := hfree 0 proof kind node inputs leaves hproof hkind hnode hinputs hleaves
        _ hmem hlast
      obtain ⟨left, right, hpair⟩ := hpairs _ hmem
      exact absurd (hpair.symm.trans hsame) (parentInput_ne_rootInput left right hmany hsize)
    · have hone : leaves.length = 1 := by
        have hpos := List.length_pos_iff.mpr hleavesNe
        omega
      obtain ⟨leaf, rfl⟩ := List.length_eq_one_iff.mp hone
      exact ⟨leaf, hleaves, hsize leaf (List.mem_singleton_self leaf)⟩
  · rintro ⟨leaf, hleaves, hsize⟩ i hi
    have hlen := (forall₂_of_mapM hleaves).length_eq
    rw [hlen, List.length_singleton, Nat.lt_one_iff] at hi
    subst hi
    exact verifiesAt_single hleaves hsize

end

/-- Nothing is hashed above a single transaction. -/
theorem noCollision_single [Blake3] {batch : TransactionBatch} (hone : batch.transactions.length = 1) :
    NoCollision batch := by
  intro i proof kind node inputs leaves hproof hkind hnode hinputs hleaves x hx
  rw [hone] at hinputs
  unfold foldInputs at hinputs
  rw [if_pos (Nat.le_refl 1)] at hinputs
  split at hinputs
  · cases hinputs
    cases hx
  · cases hinputs

namespace Sample
open Remzar.Sample

def paymentBatch : TransactionBatch := ⟨1, 1700000030, [.transfer (payment 1)], none⟩

def paymentsBatch : TransactionBatch :=
  ⟨1, 1700000030, [.transfer (payment 1), .transfer (payment 2)], none⟩

theorem paymentBatch_leaf : ∃ leaf, paymentBatch.leaves = .ok [leaf] ∧
    (Postcard.bytes.enc leaf).length ≤ maxSerializedBytes := by
  refine ⟨Transaction.codec.enc (payment 1), by decide +kernel, by decide +kernel⟩

end Sample

theorem inclusion_proofs_verify_iff_paymentBatch :
    (∀ i < Sample.paymentBatch.transactions.length,
      @VerifiesAt Blake3.reference Sample.paymentBatch i) ↔
    ∃ leaf, Sample.paymentBatch.leaves = .ok [leaf] ∧
      (Postcard.bytes.enc leaf).length ≤ maxSerializedBytes :=
  @inclusion_proofs_verify_iff Blake3.reference Sample.paymentBatch (List.cons_ne_nil _ _)
    (@noCollision_single Blake3.reference _ rfl)

/-- Two valid transfers: the proof of the first one does not lead to the root. -/
theorem inclusion_proof_fails_paymentsBatch : Sample.paymentsBatch.transactions ≠ [] ∧
    (∀ kind ∈ Sample.paymentsBatch.transactions, kind.validate = .ok ()) ∧
    ¬∀ i < Sample.paymentsBatch.transactions.length,
      @VerifiesAt Blake3.reference Sample.paymentsBatch i := by
  refine ⟨List.cons_ne_nil _ _, by decide +kernel, fun hall => ?_⟩
  have hfirst := (@verifies_iff Blake3.reference _ 0).mpr (hall 0 (by decide))
  have hfails : @verifies Blake3.reference Sample.paymentsBatch 0 = false := by decide +kernel
  exact Bool.false_ne_true (hfails.symm.trans hfirst)

end TransactionBatch

end Remzar
