import Mathlib
import Remzar.Binding
import Remzar.BlockSigning
import Remzar.MerkleProof
import Remzar.Production

/-! What the Merkle root under a batch signature binds. Leaves and inner nodes are hashed alike, so
that the root fixes the items only together with their number. -/
namespace Remzar
open Fallible MerkleProof

namespace GuardianSignature

/-! ### Roots -/

section
variable [Blake3]

/-- The two hashes of a pair, as they are hashed into the level above. -/
def joined (p : Hash × Hash) : List UInt8 := p.1.toList ++ p.2.toList

def leafLevel (items : List (List UInt8)) : List Hash := items.map blake3Hash64Leaf

/-- All that is hashed on the way from the items of a batch to its root. -/
def hashedInputs (items : List (List UInt8)) : List (List UInt8) :=
  items ++ (Merkle.hashed
    (Merkle.levels blake3Hash64Two (leafLevel items).length (leafLevel items))).map joined

/-- Two different inputs, one hashed for each batch, that have one hash. -/
def Colliding (items items' : List (List UInt8)) : Prop :=
  ∃ m ∈ hashedInputs items, ∃ m' ∈ hashedInputs items', m ≠ m' ∧ Blake3.xof64 m = Blake3.xof64 m'

omit [Blake3] in
theorem joined_injective {p q : Hash × Hash} (h : joined p = joined q) : p = q := by
  obtain ⟨hfst, hsnd⟩ := vector_append_inj h
  exact Prod.ext hfst (Subtype.ext hsnd)

theorem leafLevel_ne_nil {items : List (List UInt8)} (h : items ≠ []) : leafLevel items ≠ [] := by
  simpa [leafLevel] using h

/-- The root of a batch with items is the root of the tower over their hashes. -/
theorem signedMerkleRoot_tower {hashes : List Hash} {root : Hash} (hne : hashes ≠ [])
    (h : signedMerkleRoot hashes = .ok root) :
    ∃ above, Merkle.levels blake3Hash64Two hashes.length hashes = hashes :: above ∧
      Merkle.Tower blake3Hash64Two (hashes :: above) ∧
      (hashes :: above).getLast? = some [root] := by
  have hcap : hashes.length ≤ maxBatchItems := by
    by_contra hlong
    rw [signedMerkleRoot, rejectIf, if_pos (Nat.not_le.mp hlong)] at h
    cases h
  obtain ⟨root', above, hroot, hlevels, htower, hlast⟩ := MerkleProof.computeMerkleRoot_ok hcap
  rw [leafNodes, if_neg hne] at hlevels htower hlast
  rw [signedMerkleRoot_eq, hroot] at h
  cases h
  exact ⟨above, hlevels, htower, hlast⟩

/-- The same number of items under the same root are the same items, or two of the inputs that were
hashed for them collide. -/
theorem batch_root_binds (items items' : List (List UInt8)) (root : Hash)
    (hcount : items.length = items'.length) (hroot : computeBatchMerkleRoot items = .ok root)
    (hroot' : computeBatchMerkleRoot items' = .ok root) :
    items = items' ∨ Colliding items items' := by
  by_cases hfree : Colliding items items'
  · exact Or.inr hfree
  left
  by_cases hempty : items = []
  · subst hempty
    exact (List.length_eq_zero_iff.mp hcount.symm).symm
  have hempty' : items' ≠ [] := by
    rintro rfl
    exact hempty (List.length_eq_zero_iff.mp hcount)
  simp only [computeBatchMerkleRoot, bind_eq_ok_iff, pure_eq_ok_iff] at hroot hroot'
  obtain ⟨_, hsigned, _, -, rfl⟩ := hroot
  obtain ⟨_, hsigned', _, -, rfl⟩ := hroot'
  obtain ⟨above, hlevels, htower, hlast⟩ := signedMerkleRoot_tower (leafLevel_ne_nil hempty) hsigned
  obtain ⟨above', hlevels', htower', hlast'⟩ :=
    signedMerkleRoot_tower (leafLevel_ne_nil hempty') hsigned'
  have hleaves : leafLevel items = leafLevel items' := by
    refine htower.leaves_inj blake3Hash64Two htower' (by simp [leafLevel, hcount])
      (hlast.trans hlast'.symm) ?_
    intro p hp q hq heq
    by_contra hne
    refine hfree ⟨joined p, ?_, joined q, ?_, fun h => hne (joined_injective h), heq⟩
    · rw [hashedInputs, hlevels]
      exact List.mem_append_right _ (List.mem_map_of_mem hp)
    · rw [hashedInputs, hlevels']
      exact List.mem_append_right _ (List.mem_map_of_mem hq)
  refine List.ext_getElem hcount fun i hi hi' => ?_
  by_contra hne
  refine hfree ⟨items[i], ?_, items'[i], ?_, hne, ?_⟩
  · exact List.mem_append_left _ (List.getElem_mem hi)
  · exact List.mem_append_left _ (List.getElem_mem hi')
  · have hat := congrArg (fun level : List Hash => level[i]?) hleaves
    simpa [leafLevel, hi, hi', blake3Hash64Leaf] using hat

/-! ### Batches that share a root -/

end

theorem batch_root_binds_pair : ([[1], [2]] : List (List UInt8)) = [[1], [2]] ∨
    @Colliding Blake3.reference [[1], [2]] [[1], [2]] := by
  have hroot : @computeBatchMerkleRoot Blake3.reference [[1], [2]] =
      .ok (@blake3Hash64Two Blake3.reference (@Blake3.xof64 Blake3.reference [1])
        (@Blake3.xof64 Blake3.reference [2])) := by
    decide +kernel
  exact @batch_root_binds Blake3.reference _ _ _ rfl hroot hroot

end GuardianSignature

end Remzar
