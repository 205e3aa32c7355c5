import Mathlib
import Remzar.TreeSpec
import Remzar.Chain

/-! Blocks that arrive early: what the queue of a tree does with a chain segment that is fed to it
in any order. -/
namespace Remzar
open Std Fallible Checked AccountGuard

/-! ### Compact states -/

/-- A cached block directly above another one. -/
def Follows (prev next : Block) : Prop :=
  next.metadata.index = saturatingAdd prev.metadata.index 1 ∧
    next.metadata.previousHash = prev.blockHash

theorem verifyContiguousCache_eq_ok_iff (blocks : List Block) (u : Unit) :
    verifyContiguousCache blocks = .ok u ↔ blocks.IsChain Follows := by
  induction blocks with
  | nil => exact iff_of_true rfl .nil
  | cons prev blocks ih =>
    cases blocks with
    | nil => exact iff_of_true rfl (.singleton prev)
    | cons next rest =>
      rw [List.isChain_cons_cons, ← ih]
      simp only [verifyContiguousCache, bind_eq_ok_iff, rejectIf_eq_ok_iff, not_not, Follows]
      constructor
      · rintro ⟨-, hindex, -, hlink, hrest⟩
        exact ⟨⟨hindex, hlink⟩, hrest⟩
      · rintro ⟨⟨hindex, hlink⟩, hrest⟩
        exact ⟨(), hindex, (), hlink, hrest⟩

/-- What the tree checks of itself after every block. -/
structure CompactState (s : InnerTree) : Prop where
  short : s.blocks.length ≤ maxRecentBlocksInRam
  contiguous : s.blocks.IsChain Follows
  last : ∀ last, s.blocks.getLast? = some last →
    s.hasTip = true ∧ last.metadata.index = s.tipHeight ∧ last.blockHash = s.tipHash
  supply : verifyCompactSupply s = .ok ()

theorem verifyCacheTip_eq_ok_iff (s : InnerTree) (u : Unit) : verifyCacheTip s = .ok u ↔
    ∀ last, s.blocks.getLast? = some last →
      s.hasTip = true ∧ last.metadata.index = s.tipHeight ∧ last.blockHash = s.tipHash := by
  unfold verifyCacheTip
  cases hlast : s.blocks.getLast? with
  | none => simp
  | some last => simp [rejectIf_eq_ok_iff]

theorem compactState_iff (s : InnerTree) :
    verifyCompactStateInvariants s none none none = .ok () ↔ CompactState s := by
  simp only [verifyCompactStateInvariants, verifyTipHeight, verifyTipField, ok_bind,
    bind_eq_ok_iff, rejectIf_eq_ok_iff, verifyContiguousCache_eq_ok_iff, verifyCacheTip_eq_ok_iff,
    Nat.not_lt]
  constructor
  · rintro ⟨-, hshort, -, hcontiguous, -, hlast, hsupply⟩
    exact ⟨hshort, hcontiguous, hlast, hsupply⟩
  · rintro ⟨hshort, hcontiguous, hlast, hsupply⟩
    exact ⟨(), hshort, (), hcontiguous, (), hlast, hsupply⟩

theorem validateNextBlockLink_eq_ok_iff (s : InnerTree) (block : Block) (u : Unit) :
    validateNextBlockLink s block = .ok u ↔ block.metadata.index = s.expectedNextHeight ∧
      (s.hasTip = true → block.metadata.previousHash = s.tipHash) := by
  simp only [validateNextBlockLink, bind_eq_ok_iff, rejectIf_eq_ok_iff, not_not, not_and]
  constructor
  · rintro ⟨-, hheight, hlink⟩
    exact ⟨hheight, hlink⟩
  · rintro ⟨hheight, hlink⟩
    exact ⟨(), hheight, hlink⟩

/-- A linked block keeps the compact state in order. -/
theorem CompactState.remember {s : InnerTree} {block : Block} (h : CompactState s)
    (hlink : validateNextBlockLink s block = .ok ()) : CompactState (rememberRecentBlock s block) := by
  obtain ⟨hheight, hparent⟩ := (validateNextBlockLink_eq_ok_iff s block ()).mp hlink
  have hram : maxRecentBlocksInRam = 512 := rfl
  have hchain : (s.blocks ++ [block]).IsChain Follows := by
    rw [List.isChain_append]
    refine ⟨h.contiguous, .singleton block, ?_⟩
    intro last hlast next hnext
    obtain ⟨htip, hindex, hhash⟩ := h.last last hlast
    obtain rfl := Option.some.inj hnext
    rw [Follows, hindex, hhash, hheight, InnerTree.expectedNextHeight, if_pos htip]
    exact ⟨rfl, hparent htip⟩
  have hblocks : (rememberRecentBlock s block).blocks = drainExcess (s.blocks ++ [block]) := by
    simp only [rememberRecentBlock]
  have hlast : (rememberRecentBlock s block).blocks.getLast? = some block := by
    rw [hblocks, drainExcess, List.getLast?_drop, if_neg, List.getLast?_concat]
    rw [List.length_append, List.length_singleton]
    omega
  refine ⟨?_, ?_, ?_, h.supply⟩
  · rw [hblocks, drainExcess, List.length_drop]
    omega
  · rw [hblocks, drainExcess]
    exact hchain.drop _
  · intro last hget
    obtain rfl := Option.some.inj (hlast.symm.trans hget)
    exact ⟨rfl, rfl, rfl⟩

theorem CompactState.verify_remember {s : InnerTree} {block : Block} (h : CompactState s)
    (hlink : validateNextBlockLink s block = .ok ()) :
    verifyCompactStateInvariants (rememberRecentBlock s block) (some s.expectedNextHeight)
      (some (rememberRecentBlock s block).tipHash) none = .ok () := by
  obtain ⟨hheight, -⟩ := (validateNextBlockLink_eq_ok_iff s block ()).mp hlink
  have hnext := h.remember hlink
  have hcheck := (compactState_iff _).mpr hnext
  simp only [verifyCompactStateInvariants, verifyTipHeight, verifyTipField, ok_bind,
    bind_eq_ok_iff, rejectIf_eq_ok_iff] at hcheck ⊢
  obtain ⟨-, hshort, hrest⟩ := hcheck
  refine ⟨(), hshort, (), ⟨(), ?_, ?_⟩, (), ?_, hrest⟩
  · simp [rememberRecentBlock]
  · exact not_not_intro hheight
  · simp [rememberRecentBlock]

namespace AccountModelTree

/-! ### Working through the queue -/

section Queue
variable {t : AccountModelTree} {block : Block}

theorem acceptNext_of_link (h : CompactState t.inner)
    (hlink : validateNextBlockLink t.inner block = .ok ()) :
    t.acceptNext block = (.ok (), t.withInner (rememberRecentBlock t.inner block)) := by
  unfold acceptNext
  rw [hlink]
  dsimp only
  rw [h.verify_remember hlink]

theorem acceptNext_of_error {e : ErrorDetection}
    (hlink : validateNextBlockLink t.inner block = .error e) :
    t.acceptNext block = (.error e, t) := by
  unfold acceptNext
  rw [hlink]

/-- The block of the next height is not in the queue. -/
def Settled (t : AccountModelTree) : Prop := t.pendingBlocks[t.inner.expectedNextHeight]? = none

theorem processPendingBlocks_of_settled (h : Settled t) (fuel : ℕ) :
    processPendingBlocks fuel t = t := by
  cases fuel with
  | zero => rfl
  | succ fuel =>
    rw [processPendingBlocks, h]

theorem settled_of_size (h : t.pendingBlocks.size = 0) : Settled t := by
  have hempty : t.pendingBlocks = ∅ := by
    rw [← ExtTreeMap.isEmpty_iff, ExtTreeMap.isEmpty_eq_size_beq_zero, h]
    rfl
  rw [Settled, hempty]
  exact ExtTreeMap.getElem?_empty

theorem size_unqueue {h : UInt64} {b : Block} (hb : t.pendingBlocks[h]? = some b) :
    (t.unqueue h).pendingBlocks.size + 1 = t.pendingBlocks.size := by
  have hmem : t.pendingBlocks.contains h = true := by
    rw [ExtTreeMap.contains_eq_isSome_getElem?, hb]
    rfl
  have hpos : t.pendingBlocks.size ≠ 0 := by
    intro hzero
    have hempty : t.pendingBlocks = ∅ := by
      rw [← ExtTreeMap.isEmpty_iff, ExtTreeMap.isEmpty_eq_size_beq_zero, hzero]
      rfl
    rw [hempty] at hb
    rw [ExtTreeMap.getElem?_empty] at hb
    cases hb
  change (t.pendingBlocks.erase h).size + 1 = _
  rw [ExtTreeMap.size_erase, if_pos hmem]
  omega

/-- The tree after a queued block has become its tip. -/
def advance (t : AccountModelTree) (block : Block) : AccountModelTree :=
  (t.unqueue t.inner.expectedNextHeight).withInner (rememberRecentBlock t.inner block)

/-- One round: nothing to do, a queued block that does not fit is dropped, or it becomes the tip
and the rest is worked through twice, by the call for it and by the loop. -/
theorem processPendingBlocks_cases (h : CompactState t.inner) (fuel : ℕ) :
    Settled t ∨ ∃ b, t.pendingBlocks[t.inner.expectedNextHeight]? = some b ∧
      ((∃ e, validateNextBlockLink t.inner b = .error e ∧
          processPendingBlocks (fuel+1) t = t.unqueue t.inner.expectedNextHeight) ∨
        validateNextBlockLink t.inner b = .ok () ∧ processPendingBlocks (fuel+1) t =
          processPendingBlocks fuel (processPendingBlocks fuel (t.advance b))) := by
  cases hb : t.pendingBlocks[t.inner.expectedNextHeight]? with
  | none => exact .inl hb
  | some b =>
    refine .inr ⟨b, rfl, ?_⟩
    cases hlink : validateNextBlockLink t.inner b with
    | error e =>
      refine .inl ⟨e, rfl, ?_⟩
      have haccept : (t.unqueue t.inner.expectedNextHeight).acceptNext b =
        (.error e, t.unqueue t.inner.expectedNextHeight) := acceptNext_of_error hlink
      rw [processPendingBlocks, hb]
      simp only [haccept]
    | ok u =>
      refine .inr ⟨rfl, ?_⟩
      have haccept : (t.unqueue t.inner.expectedNextHeight).acceptNext b =
        (.ok (), t.advance b) := acceptNext_of_link h hlink
      rw [processPendingBlocks, hb]
      simp only [haccept]

theorem processPendingBlocks_settled (fuel : ℕ) (h : CompactState t.inner)
    (hfuel : t.pendingBlocks.size ≤ fuel) : Settled (processPendingBlocks fuel t) := by
  induction fuel generalizing t with
  | zero => exact settled_of_size (Nat.le_zero.mp hfuel)
  | succ fuel ih =>
    rcases processPendingBlocks_cases h fuel with hset | ⟨b, hb, ⟨e, -, hrun⟩ | ⟨hlink, hrun⟩⟩
    · rw [processPendingBlocks_of_settled hset]
      exact hset
    · rw [hrun]
      exact ExtTreeMap.getElem?_erase_self
    · have hsize : (t.advance b).pendingBlocks.size + 1 = t.pendingBlocks.size := size_unqueue hb
      have hnext : CompactState (t.advance b).inner := h.remember hlink
      have hset := ih hnext (by omega)
      rw [hrun, processPendingBlocks_of_settled hset]
      exact hset

theorem processPendingBlocks_fuel (fuel fuel' : ℕ) (h : CompactState t.inner)
    (hfuel : t.pendingBlocks.size ≤ fuel) (hfuel' : t.pendingBlocks.size ≤ fuel') :
    processPendingBlocks fuel t = processPendingBlocks fuel' t := by
  induction fuel generalizing t fuel' with
  | zero =>
    have hset := settled_of_size (Nat.le_zero.mp hfuel)
    rw [processPendingBlocks_of_settled hset, processPendingBlocks_of_settled hset]
  | succ fuel ih =>
    cases fuel' with
    | zero =>
      have hset := settled_of_size (Nat.le_zero.mp hfuel')
      rw [processPendingBlocks_of_settled hset, processPendingBlocks_of_settled hset]
    | succ fuel' =>
      rcases processPendingBlocks_cases h fuel with hset | ⟨b, hb, hleft⟩
      · rw [processPendingBlocks_of_settled hset, processPendingBlocks_of_settled hset]
      rcases processPendingBlocks_cases h fuel' with hset | ⟨b', hb', hright⟩
      · rw [processPendingBlocks_of_settled hset, processPendingBlocks_of_settled hset]
      obtain rfl := Option.some.inj (hb.symm.trans hb')
      have hsize : (t.advance b).pendingBlocks.size + 1 = t.pendingBlocks.size := size_unqueue hb
      rcases hleft with ⟨e, hlink, hrun⟩ | ⟨hlink, hrun⟩
      · rcases hright with ⟨e', -, hrun'⟩ | ⟨hlink', -⟩
        · rw [hrun, hrun']
        · rw [hlink'] at hlink
          cases hlink
      · rcases hright with ⟨e', hlink', -⟩ | ⟨-, hrun'⟩
        · rw [hlink'] at hlink
          cases hlink
        · have hnext : CompactState (t.advance b).inner := h.remember hlink
          have hset := processPendingBlocks_settled fuel hnext (by omega)
          have hsame := ih fuel' hnext (by omega) (by omega)
          rw [hrun, hrun', ← hsame, processPendingBlocks_of_settled hset,
            processPendingBlocks_of_settled hset]

/-- The queue worked through as far as it goes. -/
def drain (t : AccountModelTree) : AccountModelTree :=
  processPendingBlocks t.pendingBlocks.size t

theorem drain_of_settled (h : Settled t) : t.drain = t := processPendingBlocks_of_settled h _

theorem drain_advance (h : CompactState t.inner)
    (hb : t.pendingBlocks[t.inner.expectedNextHeight]? = some block)
    (hlink : validateNextBlockLink t.inner block = .ok ()) : t.drain = (t.advance block).drain := by
  have hsize : (t.advance block).pendingBlocks.size + 1 = t.pendingBlocks.size := size_unqueue hb
  rw [drain, ← hsize, drain]
  rcases processPendingBlocks_cases h (t.advance block).pendingBlocks.size with
    hset | ⟨b, hb', ⟨e, hlink', -⟩ | ⟨-, hrun⟩⟩
  · rw [Settled, hb] at hset
    cases hset
  · obtain rfl := Option.some.inj (hb.symm.trans hb')
    rw [hlink] at hlink'
    cases hlink'
  · obtain rfl := Option.some.inj (hb.symm.trans hb')
    rw [hrun, processPendingBlocks_of_settled
      (processPendingBlocks_settled _ (h.remember hlink) (Nat.le_refl _))]

/-- Working through the queue never lowers the next height and never adds to the queue. -/
theorem processPendingBlocks_mono (fuel : ℕ) (h : CompactState t.inner) :
    CompactState (processPendingBlocks fuel t).inner ∧
      t.inner.expectedNextHeight ≤ (processPendingBlocks fuel t).inner.expectedNextHeight ∧
      ∀ height : UInt64, t.pendingBlocks[height]? = none →
        (processPendingBlocks fuel t).pendingBlocks[height]? = none := by
  induction fuel generalizing t with
  | zero => exact ⟨h, UInt64.le_refl _, fun _ hnone => hnone⟩
  | succ fuel ih =>
    have herase : ∀ height : UInt64, t.pendingBlocks[height]? = none →
        (t.unqueue t.inner.expectedNextHeight).pendingBlocks[height]? = none := by
      intro height hnone
      change (t.pendingBlocks.erase t.inner.expectedNextHeight)[height]? = none
      rw [ExtTreeMap.getElem?_erase, hnone, ite_self]
    rcases processPendingBlocks_cases h fuel with hset | ⟨b, hb, ⟨e, -, hrun⟩ | ⟨hlink, hrun⟩⟩
    · rw [processPendingBlocks_of_settled hset]
      exact ⟨h, UInt64.le_refl _, fun _ hnone => hnone⟩
    · rw [hrun]
      exact ⟨h, UInt64.le_refl _, herase⟩
    · have hnext : CompactState (t.advance b).inner := h.remember hlink
      obtain ⟨hmid, hle, hnone⟩ := ih hnext
      obtain ⟨hend, hle', hnone'⟩ := ih hmid
      have hstep : t.inner.expectedNextHeight ≤ (t.advance b).inner.expectedNextHeight := by
        obtain ⟨hheight, -⟩ := (validateNextBlockLink_eq_ok_iff t.inner b ()).mp hlink
        change _ ≤ saturatingAdd b.metadata.index 1
        rw [← hheight, UInt64.le_iff_toNat_le, saturatingAdd_toNat]
        have hlt := b.metadata.index.toNat_lt
        omega
      rw [hrun]
      refine ⟨hend, UInt64.le_trans hstep (UInt64.le_trans hle hle'), ?_⟩
      intro height hqueue
      exact hnone' height (hnone height (herase height hqueue))

end Queue

/-- The block is offered to the tree, whatever the answer. -/
def feed (t : AccountModelTree) (block : Block) : AccountModelTree := (t.addBlock block).2

theorem feed_next {t : AccountModelTree} {block : Block} (h : CompactState t.inner)
    (hlink : validateNextBlockLink t.inner block = .ok ()) :
    t.feed block = (t.withInner (rememberRecentBlock t.inner block)).drain := by
  obtain ⟨hheight, -⟩ := (validateNextBlockLink_eq_ok_iff t.inner block ()).mp hlink
  unfold feed addBlock
  simp only [if_pos hheight, acceptNext_of_link h hlink]
  rfl

theorem feed_old {t : AccountModelTree} {block : Block}
    (h : block.metadata.index < t.inner.expectedNextHeight) : t.feed block = t := by
  have hne : ¬block.metadata.index = t.inner.expectedNextHeight := by
    intro heq
    rw [heq] at h
    exact UInt64.lt_irrefl _ h
  have hlow : ¬t.inner.expectedNextHeight < block.metadata.index := UInt64.lt_asymm h
  unfold feed addBlock
  simp only [if_neg hne, if_neg hlow]

/-- An early block is queued, unless it is too far ahead or the queue is full. -/
theorem feed_early {t : AccountModelTree} {block : Block}
    (h : t.inner.expectedNextHeight < block.metadata.index) : t.feed block =
      if maxPendingBlockDistance < saturatingSub block.metadata.index t.inner.expectedNextHeight ∨
        maxPendingBlocks ≤ t.pendingBlocks.size then t else t.queue block := by
  have hne : ¬block.metadata.index = t.inner.expectedNextHeight := by
    intro heq
    rw [heq] at h
    exact UInt64.lt_irrefl _ h
  unfold feed addBlock
  simp only [if_neg hne, if_pos h]
  split
  · rename_i hfar
    rw [if_pos (.inl hfar)]
  · rename_i hnear
    split
    · rename_i hfull
      rw [if_pos (.inr hfull)]
    · rename_i hroom
      rw [if_neg (not_or.mpr ⟨hnear, hroom⟩)]

/-! ### Segments -/

/-- Blocks of consecutive heights, each linked to the one before and the first to the tip. -/
def LinkedSegment (s : InnerTree) : List Block → Prop
  | [] => True
  | block :: blocks => validateNextBlockLink s block = .ok () ∧
    block.metadata.index ≤ maxMetadataIndexHard ∧ LinkedSegment (rememberRecentBlock s block) blocks

/-- The state with the first `k` blocks of a segment on top. -/
def innerAt (s : InnerTree) (blocks : List Block) (k : ℕ) : InnerTree :=
  (blocks.take k).foldl rememberRecentBlock s

theorem innerAt_succ (s : InnerTree) (blocks : List Block) {k : ℕ} (hk : k < blocks.length) :
    innerAt s blocks (k+1) = rememberRecentBlock (innerAt s blocks k) blocks[k] := by
  rw [innerAt, innerAt, List.take_succ_eq_append_getElem hk, List.foldl_append]
  rfl

section Segment
variable {s : InnerTree} {blocks : List Block}

theorem LinkedSegment.link (h : LinkedSegment s blocks) {k : ℕ} (hk : k < blocks.length) :
    validateNextBlockLink (innerAt s blocks k) blocks[k] = .ok () ∧
      blocks[k].metadata.index ≤ maxMetadataIndexHard := by
  induction blocks generalizing s k with
  | nil => cases hk
  | cons block blocks ih =>
    obtain ⟨hlink, hbound, hrest⟩ := h
    cases k with
    | zero => exact ⟨hlink, hbound⟩
    | succ k => exact ih hrest (Nat.lt_of_succ_lt_succ hk)

theorem LinkedSegment.compact (h : LinkedSegment s blocks) (hs : CompactState s) {k : ℕ}
    (hk : k ≤ blocks.length) : CompactState (innerAt s blocks k) := by
  induction k with
  | zero => exact hs
  | succ k ih =>
    rw [innerAt_succ s blocks hk]
    exact (ih (Nat.le_of_succ_le hk)).remember (h.link hk).1

theorem LinkedSegment.expected (h : LinkedSegment s blocks) {k : ℕ} (hk : k ≤ blocks.length) :
    (innerAt s blocks k).expectedNextHeight.toNat = s.expectedNextHeight.toNat + k := by
  induction k with
  | zero => rfl
  | succ k ih =>
    obtain ⟨hlink, hbound⟩ := h.link hk
    obtain ⟨hheight, -⟩ := (validateNextBlockLink_eq_ok_iff _ _ ()).mp hlink
    have hlimit : (blocks[k]).metadata.index.toNat ≤ 10000000 := UInt64.le_iff_toNat_le.mp hbound
    have hnow := ih (Nat.le_of_succ_le hk)
    rw [innerAt_succ s blocks hk]
    change (saturatingAdd (blocks[k]).metadata.index 1).toNat = _
    rw [saturatingAdd_toNat_of_lt, hheight, hnow]
    · rfl
    · change (blocks[k]).metadata.index.toNat + 1 < 2^64
      omega

theorem LinkedSegment.height (h : LinkedSegment s blocks) {k : ℕ} (hk : k < blocks.length) :
    blocks[k].metadata.index.toNat = s.expectedNextHeight.toNat + k := by
  obtain ⟨hheight, -⟩ := (validateNextBlockLink_eq_ok_iff _ _ ()).mp (h.link hk).1
  rw [hheight]
  exact h.expected (Nat.le_of_lt hk)

theorem LinkedSegment.height_inj (h : LinkedSegment s blocks) {i j : ℕ} (hi : i < blocks.length)
    (hj : j < blocks.length) (heq : blocks[i].metadata.index = blocks[j].metadata.index) : i = j := by
  have hleft := h.height hi
  rw [heq, h.height hj] at hleft
  omega

end Segment

/-! ### Feeding a segment -/

theorem eq_of_fields {t u : AccountModelTree} (hinner : t.inner = u.inner)
    (hqueue : ∀ height : UInt64, t.pendingBlocks[height]? = u.pendingBlocks[height]?) : t = u := by
  have hpending : t.pendingBlocks = u.pendingBlocks := ExtTreeMap.ext_getElem? hqueue
  cases t
  cases u
  subst hinner hpending
  rfl

/-- The tree with the whole segment on top and the rest of its queue worked through. -/
def whole (t : AccountModelTree) (blocks : List Block) : AccountModelTree :=
  (t.withInner (innerAt t.inner blocks blocks.length)).drain

/-- The first `k` blocks of the segment are on top, and of the others those that have arrived in
time are queued. -/
structure Feeding (t : AccountModelTree) (blocks : List Block) (arrived : Block → Prop) (k : ℕ)
    (u : AccountModelTree) : Prop where
  le : k ≤ blocks.length
  inner : u.inner = innerAt t.inner blocks k
  outside : ∀ height : UInt64, (∀ b ∈ blocks, b.metadata.index ≠ height) →
    u.pendingBlocks[height]? = t.pendingBlocks[height]?
  inside : ∀ i (hi : i < blocks.length), u.pendingBlocks[blocks[i].metadata.index]? = none ∨
    k ≤ i ∧ i ≤ k + 1024 ∧ u.pendingBlocks[blocks[i].metadata.index]? = some blocks[i]
  arrived : ∀ b, arrived b → ∃ (i : ℕ) (hi : i < blocks.length), blocks[i] = b ∧
    (i < k ∨ u.pendingBlocks[b.metadata.index]? = some b)

/-- A segment on its way: the next block has not come, or everything is in place. -/
def Progress (t : AccountModelTree) (blocks : List Block) (arrived : Block → Prop)
    (u : AccountModelTree) : Prop :=
  (∃ k < blocks.length, Feeding t blocks arrived k u ∧ Settled u) ∨ u = t.whole blocks

section Feeding
variable {t u : AccountModelTree} {blocks : List Block} {arrived arrived' : Block → Prop} {k : ℕ}

theorem Feeding.mono (h : Feeding t blocks arrived' k u) (harrived : ∀ b, arrived b → arrived' b) :
    Feeding t blocks arrived k u :=
  ⟨h.le, h.inner, h.outside, h.inside, fun b hb => h.arrived b (harrived b hb)⟩

theorem Feeding.expected (h : Feeding t blocks arrived k u) (hseg : LinkedSegment t.inner blocks) :
    u.inner.expectedNextHeight.toNat = t.inner.expectedNextHeight.toNat + k := by
  rw [h.inner]
  exact hseg.expected h.le

theorem Feeding.next (h : Feeding t blocks arrived k u) (hseg : LinkedSegment t.inner blocks)
    (hk : k < blocks.length) : blocks[k].metadata.index = u.inner.expectedNextHeight := by
  apply UInt64.toNat_inj.mp
  rw [hseg.height hk, h.expected hseg]

/-- A queued block of the next height becomes the tip. -/
theorem Feeding.advance (h : Feeding t blocks arrived k u) (hseg : LinkedSegment t.inner blocks)
    (hk : k < blocks.length) : Feeding t blocks arrived (k+1) (u.advance blocks[k]) := by
  have hread : ∀ height : UInt64, (u.advance blocks[k]).pendingBlocks[height]? =
      if blocks[k].metadata.index = height then none else u.pendingBlocks[height]? := by
    intro height
    change (u.pendingBlocks.erase u.inner.expectedNextHeight)[height]? = _
    rw [ExtTreeMap.getElem?_erase, ← h.next hseg hk]
    simp only [LawfulEqCmp.compare_eq_iff_eq]
  refine ⟨hk, ?_, ?_, ?_, ?_⟩
  · change rememberRecentBlock u.inner blocks[k] = _
    rw [h.inner, innerAt_succ _ _ hk]
  · intro height hout
    rw [hread, if_neg (hout _ (List.getElem_mem hk))]
    exact h.outside height hout
  · intro i hi
    rw [hread]
    split
    · exact .inl rfl
    · rename_i hne
      rcases h.inside i hi with hnone | ⟨hlow, hhigh, hsome⟩
      · exact .inl hnone
      · have hik : i ≠ k := by
          rintro rfl
          exact hne rfl
        exact .inr ⟨by omega, by omega, hsome⟩
  · intro b hb
    obtain ⟨i, hi, rfl, hplace⟩ := h.arrived b hb
    refine ⟨i, hi, rfl, ?_⟩
    by_cases hik : i ≤ k
    · exact .inl (by omega)
    · right
      rw [hread, if_neg]
      · exact hplace.resolve_left (by omega)
      · intro heq
        exact hik (hseg.height_inj hk hi heq).symm.le

/-- Working through the queue leads to the next missing block, or to the end. -/
theorem Feeding.drain (h : Feeding t blocks arrived k u) (hseg : LinkedSegment t.inner blocks)
    (hcompact : CompactState t.inner)
    (hclear : ∀ b ∈ blocks, t.pendingBlocks[b.metadata.index]? = none) :
    Progress t blocks arrived u.drain := by
  -- Induction on how many blocks are still to come.
  generalize hleft : blocks.length - k = left
  induction left generalizing k u with
  | zero =>
    have hk : k = blocks.length := by
      have hle := h.le
      omega
    subst hk
    right
    refine congrArg AccountModelTree.drain (eq_of_fields h.inner ?_)
    intro height
    by_cases hin : ∃ b ∈ blocks, b.metadata.index = height
    · obtain ⟨b, hb, rfl⟩ := hin
      obtain ⟨i, hi, rfl⟩ := List.getElem_of_mem hb
      change _ = t.pendingBlocks[blocks[i].metadata.index]?
      rw [hclear _ hb]
      rcases h.inside i hi with hnone | ⟨hlow, -⟩
      · exact hnone
      · omega
    · push Not at hin
      exact h.outside height hin
  | succ left ih =>
    have hk : k < blocks.length := by omega
    have hcomp : CompactState u.inner := h.inner ▸ hseg.compact hcompact h.le
    rcases h.inside k hk with hnone | ⟨-, -, hsome⟩
    · have hset : Settled u := by
        rw [Settled, ← h.next hseg hk]
        exact hnone
      rw [drain_of_settled hset]
      exact .inl ⟨k, hk, h, hset⟩
    · rw [h.next hseg hk] at hsome
      have hlink : validateNextBlockLink u.inner blocks[k] = .ok () := h.inner ▸ (hseg.link hk).1
      rw [drain_advance hcomp hsome hlink]
      exact ih (h.advance hseg hk) (by omega)

theorem size_eq_card (t : AccountModelTree) :
    t.pendingBlocks.size = t.pendingBlocks.keys.toFinset.card := by
  rw [List.toFinset_card_of_nodup ExtTreeMap.nodup_keys, ExtTreeMap.length_keys]

theorem mem_keys_iff {height : UInt64} :
    height ∈ t.pendingBlocks.keys.toFinset ↔ t.pendingBlocks[height]? ≠ none := by
  rw [List.mem_toFinset, ExtTreeMap.mem_keys, ExtTreeMap.mem_iff_isSome_getElem?,
    Option.isSome_iff_ne_none]

/-- While a block of the segment is missing, the queue has room for it. -/
theorem Feeding.room (h : Feeding t blocks arrived k u) (hseg : LinkedSegment t.inner blocks)
    (hset : Settled u) (hk : k < blocks.length)
    (hroom : t.pendingBlocks.size + min blocks.length 1024 ≤ maxPendingBlocks) {i : ℕ}
    (hi : i < blocks.length) (hki : k < i) (hnear : i ≤ k + 1024)
    (hnone : u.pendingBlocks[blocks[i].metadata.index]? = none) :
    u.pendingBlocks.size < maxPendingBlocks := by
  have hsub : u.pendingBlocks.keys.toFinset ⊆ t.pendingBlocks.keys.toFinset ∪
      ((Finset.Ioc k (min (k+1024) (blocks.length-1))).erase i).image
        (fun j => UInt64.ofNat (t.inner.expectedNextHeight.toNat + j)) := by
    intro height hmem
    rw [mem_keys_iff] at hmem
    rw [Finset.mem_union, mem_keys_iff, Finset.mem_image]
    by_cases hin : ∃ b ∈ blocks, b.metadata.index = height
    · right
      obtain ⟨b, hb, rfl⟩ := hin
      obtain ⟨j, hj, rfl⟩ := List.getElem_of_mem hb
      rcases h.inside j hj with hmissing | ⟨hlow, hhigh, -⟩
      · exact absurd hmissing hmem
      refine ⟨j, ?_, ?_⟩
      · have hjk : j ≠ k := by
          rintro rfl
          rw [h.next hseg hj] at hmem
          exact hmem hset
        have hji : j ≠ i := by
          rintro rfl
          exact hmem hnone
        rw [Finset.mem_erase, Finset.mem_Ioc]
        exact ⟨hji, by omega, by omega⟩
      · rw [← hseg.height hj, UInt64.ofNat_toNat]
    · left
      push Not at hin
      rw [← h.outside height hin]
      exact hmem
  have hmem : i ∈ Finset.Ioc k (min (k+1024) (blocks.length-1)) := by
    rw [Finset.mem_Ioc]
    omega
  have hcard : ((Finset.Ioc k (min (k+1024) (blocks.length-1))).erase i).card + 1 ≤
      min blocks.length 1024 := by
    rw [Finset.card_erase_add_one hmem, Nat.card_Ioc]
    omega
  have hunion := (Finset.card_le_card hsub).trans (Finset.card_union_le _ _)
  have himage := Finset.card_image_le (s := (Finset.Ioc k (min (k+1024) (blocks.length-1))).erase i)
    (f := fun j => UInt64.ofNat (t.inner.expectedNextHeight.toNat + j))
  rw [← size_eq_card, ← size_eq_card] at hunion
  omega

theorem Feeding.queue (h : Feeding t blocks arrived k u) (hseg : LinkedSegment t.inner blocks)
    {i : ℕ} (hi : i < blocks.length) (hki : k ≤ i) (hnear : i ≤ k + 1024) :
    Feeding t blocks (fun b => arrived b ∨ b = blocks[i]) k (u.queue blocks[i]) := by
  have hread : ∀ height : UInt64, (u.queue blocks[i]).pendingBlocks[height]? =
      if blocks[i].metadata.index = height then some blocks[i] else u.pendingBlocks[height]? := by
    intro height
    change (u.pendingBlocks.insert blocks[i].metadata.index blocks[i])[height]? = _
    rw [ExtTreeMap.getElem?_insert]
    simp only [LawfulEqCmp.compare_eq_iff_eq]
  refine ⟨h.le, h.inner, ?_, ?_, ?_⟩
  · intro height hout
    rw [hread, if_neg (hout _ (List.getElem_mem hi))]
    exact h.outside height hout
  · intro j hj
    rw [hread]
    split
    · rename_i heq
      obtain rfl := hseg.height_inj hi hj heq
      exact .inr ⟨hki, hnear, rfl⟩
    · exact h.inside j hj
  · rintro b (hb | rfl)
    · obtain ⟨j, hj, rfl, hplace⟩ := h.arrived b hb
      refine ⟨j, hj, rfl, hplace.imp_right fun hsome => ?_⟩
      rw [hread]
      split
      · rename_i heq
        obtain rfl := hseg.height_inj hi hj heq
        rfl
      · exact hsome
    · refine ⟨i, hi, rfl, .inr ?_⟩
      rw [hread, if_pos rfl]

theorem whole_expected (hseg : LinkedSegment t.inner blocks) (hcompact : CompactState t.inner) :
    t.inner.expectedNextHeight.toNat + blocks.length ≤
      (t.whole blocks).inner.expectedNextHeight.toNat := by
  have hmono := (processPendingBlocks_mono (t := t.withInner (innerAt t.inner blocks blocks.length))
    t.pendingBlocks.size (hseg.compact hcompact (Nat.le_refl _))).2.1
  rw [UInt64.le_iff_toNat_le] at hmono
  rw [← hseg.expected (Nat.le_refl blocks.length)]
  exact hmono

/-- One arrival of a block of the segment. -/
theorem Progress.feed (h : Progress t blocks arrived u) (hseg : LinkedSegment t.inner blocks)
    (hcompact : CompactState t.inner)
    (hclear : ∀ b ∈ blocks, t.pendingBlocks[b.metadata.index]? = none)
    (hroom : t.pendingBlocks.size + min blocks.length 1024 ≤ maxPendingBlocks) {block : Block}
    (hblock : block ∈ blocks) : Progress t blocks
      (fun b => arrived b ∨ b = block ∧
        b.metadata.index.toNat ≤ u.inner.expectedNextHeight.toNat + 1024) (u.feed block) := by
  obtain ⟨i, hi, rfl⟩ := List.getElem_of_mem hblock
  have hheight := hseg.height hi
  rcases h with ⟨k, hk, hfeed, hset⟩ | rfl
  · have hexpected := hfeed.expected hseg
    have hcomp : CompactState u.inner := hfeed.inner ▸ hseg.compact hcompact hfeed.le
    rcases Nat.lt_trichotomy i k with hlt | rfl | hgt
    · -- Already part of the chain.
      have hold : blocks[i].metadata.index < u.inner.expectedNextHeight := by
        rw [UInt64.lt_iff_toNat_lt]
        omega
      rw [feed_old hold]
      refine .inl ⟨k, hk, ⟨hfeed.le, hfeed.inner, hfeed.outside, hfeed.inside, ?_⟩, hset⟩
      rintro b (hb | ⟨rfl, -⟩)
      · exact hfeed.arrived b hb
      · exact ⟨i, hi, rfl, .inl hlt⟩
    · -- The missing block.
      have hlink : validateNextBlockLink u.inner blocks[i] = .ok () :=
        hfeed.inner ▸ (hseg.link hi).1
      rw [feed_next hcomp hlink]
      refine Feeding.drain (k := i+1) ⟨hk, ?_, hfeed.outside, ?_, ?_⟩ hseg hcompact hclear
      · change rememberRecentBlock u.inner blocks[i] = _
        rw [hfeed.inner, innerAt_succ _ _ hk]
      · intro j hj
        rcases hfeed.inside j hj with hnone | ⟨hlow, hhigh, hsome⟩
        · exact .inl hnone
        · have hne : j ≠ i := by
            rintro rfl
            rw [hfeed.next hseg hj, hset] at hsome
            cases hsome
          exact .inr ⟨by omega, by omega, hsome⟩
      · rintro b (hb | ⟨rfl, -⟩)
        · obtain ⟨j, hj, rfl, hplace⟩ := hfeed.arrived b hb
          exact ⟨j, hj, rfl, hplace.imp_left fun hlt => by omega⟩
        · exact ⟨i, hi, rfl, .inl (Nat.lt_succ_self i)⟩
    · -- An early block.
      have hearly : u.inner.expectedNextHeight < blocks[i].metadata.index := by
        rw [UInt64.lt_iff_toNat_lt]
        omega
      have hdistance : (saturatingSub blocks[i].metadata.index u.inner.expectedNextHeight).toNat =
          i - k := by
        rw [saturatingSub_toNat, hheight, hexpected]
        omega
      have hlimit : maxPendingBlockDistance.toNat = 1024 := rfl
      rw [feed_early hearly]
      split
      · rename_i hdrop
        refine .inl ⟨k, hk, ⟨hfeed.le, hfeed.inner, hfeed.outside, hfeed.inside, ?_⟩, hset⟩
        rintro b (hb | ⟨rfl, hnear⟩)
        · exact hfeed.arrived b hb
        · have hnear' : i ≤ k + 1024 := by omega
          rcases hdrop with hfar | hfull
          · rw [UInt64.lt_iff_toNat_lt, hdistance, hlimit] at hfar
            omega
          · -- A full queue already has the block.
            rcases hfeed.inside i hi with hnone | ⟨-, -, hsome⟩
            · have hlt := hfeed.room hseg hset hk hroom hi hgt hnear' hnone
              omega
            · exact ⟨i, hi, rfl, .inr hsome⟩
      · rename_i hkeep
        have hnear : i ≤ k + 1024 := by
          by_contra hfar
          refine hkeep (.inl ?_)
          rw [UInt64.lt_iff_toNat_lt, hdistance, hlimit]
          omega
        refine .inl ⟨k, hk, (hfeed.queue hseg hi (Nat.le_of_lt hgt) hnear).mono ?_, ?_⟩
        · rintro b (hb | ⟨rfl, -⟩)
          · exact .inl hb
          · exact .inr rfl
        · change (u.pendingBlocks.insert blocks[i].metadata.index blocks[i])[
            u.inner.expectedNextHeight]? = none
          rw [ExtTreeMap.getElem?_insert, if_neg]
          · exact hset
          · intro heq
            rw [LawfulEqCmp.compare_eq_iff_eq] at heq
            rw [heq] at hearly
            exact UInt64.lt_irrefl _ hearly
  · -- Everything is in place, so the block is an old one.
    right
    apply feed_old
    have hend := whole_expected hseg hcompact
    rw [UInt64.lt_iff_toNat_lt]
    omega

theorem Progress.start (hseg : LinkedSegment t.inner blocks)
    (hclear : ∀ b ∈ blocks, t.pendingBlocks[b.metadata.index]? = none) (hne : 0 < blocks.length) :
    Progress t blocks (fun _ => False) t := by
  have hfeed : Feeding t blocks (fun _ => False) 0 t :=
    ⟨Nat.zero_le _, rfl, fun _ _ => rfl, fun i hi => .inl (hclear _ (List.getElem_mem hi)),
      fun _ hno => hno.elim⟩
  refine .inl ⟨0, hne, hfeed, ?_⟩
  rw [Settled, ← hfeed.next hseg hne]
  exact hclear _ (List.getElem_mem hne)

/-- The next block that is missing has not arrived in time. -/
theorem Progress.missing (h : Progress t blocks arrived u) (hseg : LinkedSegment t.inner blocks)
    {n : ℕ} (hall : ∀ i (hi : i < blocks.length), i < n → arrived blocks[i]) :
    (∃ k < blocks.length, n ≤ k ∧ Feeding t blocks arrived k u) ∨ u = t.whole blocks := by
  rcases h with ⟨k, hk, hfeed, hset⟩ | hwhole
  · refine .inl ⟨k, hk, ?_, hfeed⟩
    by_contra hlt
    obtain ⟨j, hj, heq, hplace⟩ := hfeed.arrived _ (hall k hk (by omega))
    rcases hplace with hjk | hsome
    · have hjk' := hseg.height_inj hj hk (congrArg (fun b => b.metadata.index) heq)
      omega
    · rw [hfeed.next hseg hk, hset] at hsome
      cases hsome
  · exact .inr hwhole

theorem whole_queue (hseg : LinkedSegment t.inner blocks) (hcompact : CompactState t.inner)
    {height : UInt64} (h : t.pendingBlocks[height]? = none) :
    (t.whole blocks).pendingBlocks[height]? = none :=
  (processPendingBlocks_mono (t := t.withInner (innerAt t.inner blocks blocks.length))
    t.pendingBlocks.size (hseg.compact hcompact (Nat.le_refl _))).2.2 height h

end Feeding

/-! ### Arrival sequences -/

/-- At some arrival the block is not too far above the height the tree waits for. -/
def InTime (t : AccountModelTree) (arrivals : List Block) (block : Block) : Prop :=
  ∃ pre, pre ++ [block] <+: arrivals ∧ block.metadata.index.toNat ≤
    (pre.foldl feed t).inner.expectedNextHeight.toNat + maxPendingBlockDistance.toNat

theorem InTime.mono {t : AccountModelTree} {arrivals arrivals' : List Block} {block : Block}
    (h : InTime t arrivals block) (hpre : arrivals <+: arrivals') : InTime t arrivals' block := by
  obtain ⟨pre, hprefix, hnear⟩ := h
  exact ⟨pre, hprefix.trans hpre, hnear⟩

/-- Either an earlier arrival was in time, or the last one is. -/
theorem InTime.of_append {t : AccountModelTree} {arrivals : List Block} {last block : Block}
    (h : InTime t (arrivals ++ [last]) block) : InTime t arrivals block ∨ block = last ∧
      block.metadata.index.toNat ≤
        (arrivals.foldl feed t).inner.expectedNextHeight.toNat + 1024 := by
  obtain ⟨pre, hprefix, hnear⟩ := h
  rcases List.prefix_concat_iff.mp hprefix with heq | hshort
  · obtain ⟨rfl, hlast⟩ := List.append_inj' heq rfl
    exact .inr ⟨List.singleton_injective hlast, hnear⟩
  · exact .inl ⟨pre, hshort, hnear⟩

section Arrivals
variable {t : AccountModelTree} {blocks arrivals : List Block}

theorem progress_run (hseg : LinkedSegment t.inner blocks) (hcompact : CompactState t.inner)
    (hclear : ∀ b ∈ blocks, t.pendingBlocks[b.metadata.index]? = none)
    (hroom : t.pendingBlocks.size + min blocks.length 1024 ≤ maxPendingBlocks)
    (hne : 0 < blocks.length) (hmem : ∀ b ∈ arrivals, b ∈ blocks) :
    Progress t blocks (InTime t arrivals) (arrivals.foldl feed t) := by
  have hweaken : ∀ {arrived arrived' : Block → Prop} {u : AccountModelTree},
      Progress t blocks arrived' u → (∀ b, arrived b → arrived' b) → Progress t blocks arrived u := by
    rintro arrived arrived' u (⟨k, hk, hfeed, hset⟩ | hwhole) himp
    · exact .inl ⟨k, hk, hfeed.mono himp, hset⟩
    · exact .inr hwhole
  induction arrivals using List.reverseRecOn with
  | nil =>
    apply hweaken (Progress.start hseg hclear hne)
    rintro b ⟨pre, hprefix, -⟩
    cases List.append_ne_nil_of_right_ne_nil pre (List.cons_ne_nil b []) (List.prefix_nil.mp hprefix)
  | append_singleton arrivals block ih =>
    rw [List.foldl_append]
    have hbefore := ih fun b hb => hmem b (List.mem_append_left _ hb)
    have hblock : block ∈ blocks := hmem block (List.mem_append_right _ (List.mem_singleton_self _))
    exact hweaken (hbefore.feed hseg hcompact hclear hroom hblock) fun b hb => hb.of_append

/-- In height order every block arrives in time. -/
theorem inTime_self (hseg : LinkedSegment t.inner blocks) (hcompact : CompactState t.inner)
    (hclear : ∀ b ∈ blocks, t.pendingBlocks[b.metadata.index]? = none)
    (hroom : t.pendingBlocks.size + min blocks.length 1024 ≤ maxPendingBlocks) {n : ℕ}
    (hn : n ≤ blocks.length) :
    ∀ i (hi : i < blocks.length), i < n → InTime t (blocks.take n) blocks[i] := by
  induction n with
  | zero => exact fun _ _ hlt => absurd hlt (Nat.not_lt_zero _)
  | succ n ih =>
    have hbefore := ih (Nat.le_of_succ_le hn)
    intro i hi hlt
    have hsplit : blocks.take (n+1) = blocks.take n ++ [blocks[n]] :=
      List.take_succ_eq_append_getElem hn
    rcases Nat.lt_succ_iff_lt_or_eq.mp hlt with hlow | rfl
    · exact (hbefore i hi hlow).mono (hsplit ▸ List.prefix_append _ _)
    · refine ⟨blocks.take i, hsplit ▸ List.prefix_rfl, ?_⟩
      have hrun : Progress t blocks (InTime t (blocks.take i)) ((blocks.take i).foldl feed t) :=
        progress_run hseg hcompact hclear hroom (Nat.zero_lt_of_lt hi)
          fun b hb => List.mem_of_mem_take hb
      have hheight := hseg.height hi
      rcases hrun.missing hseg hbefore with ⟨k, -, hik, hfeed⟩ | hwhole
      · have hexpected := hfeed.expected hseg
        omega
      · have hend := whole_expected hseg hcompact
        rw [hwhole]
        omega

theorem foldl_feed_eq_whole (hseg : LinkedSegment t.inner blocks) (hcompact : CompactState t.inner)
    (hclear : ∀ b ∈ blocks, t.pendingBlocks[b.metadata.index]? = none)
    (hroom : t.pendingBlocks.size + min blocks.length 1024 ≤ maxPendingBlocks)
    (hne : 0 < blocks.length) (hmem : ∀ b ∈ arrivals, b ∈ blocks)
    (hall : ∀ b ∈ blocks, InTime t arrivals b) : arrivals.foldl feed t = t.whole blocks := by
  have hrun := progress_run hseg hcompact hclear hroom hne hmem
  have hin : ∀ i (hi : i < blocks.length), i < blocks.length → InTime t arrivals blocks[i] :=
    fun i hi _ => hall _ (List.getElem_mem hi)
  rcases hrun.missing hseg hin with ⟨k, hk, hle, -⟩ | hwhole
  · omega
  · exact hwhole

/-- A tree whose queue has room, and nothing at the heights of a linked segment, ends in one state
however the blocks of the segment arrive, and keeps none of them in the queue. -/
theorem arrival_order_irrelevant (hseg : LinkedSegment t.inner blocks)
    (hcompact : verifyCompactStateInvariants t.inner none none none = .ok ())
    (hclear : ∀ b ∈ blocks, t.pendingBlocks[b.metadata.index]? = none)
    (hroom : t.pendingBlocks.size + min blocks.length maxPendingBlockDistance.toNat ≤
      maxPendingBlocks)
    (hmem : ∀ b ∈ arrivals, b ∈ blocks) (hall : ∀ b ∈ blocks, InTime t arrivals b) :
    arrivals.foldl feed t = blocks.foldl feed t ∧
      ∀ b ∈ blocks, ∀ height : UInt64, (arrivals.foldl feed t).pendingBlocks[height]? ≠ some b := by
  have hstate := (compactState_iff t.inner).mp hcompact
  rcases Nat.eq_zero_or_pos blocks.length with hzero | hne
  · obtain rfl := List.eq_nil_of_length_eq_zero hzero
    have hnone : arrivals = [] := List.eq_nil_iff_forall_not_mem.mpr fun b hb =>
      absurd (hmem b hb) List.not_mem_nil
    subst hnone
    exact ⟨rfl, fun b hb => absurd hb List.not_mem_nil⟩
  have harrived := foldl_feed_eq_whole hseg hstate hclear hroom hne hmem hall
  have hinOrder : blocks.foldl feed t = t.whole blocks := by
    refine foldl_feed_eq_whole hseg hstate hclear hroom hne (fun _ hb => hb) fun b hb => ?_
    obtain ⟨i, hi, rfl⟩ := List.getElem_of_mem hb
    have hin := inTime_self hseg hstate hclear hroom (Nat.le_refl _) i hi hi
    rw [List.take_length] at hin
    exact hin
  refine ⟨harrived.trans hinOrder.symm, ?_⟩
  rw [harrived]
  intro b hb height hsome
  have hkey := (t.whole blocks).pending_keyed height b hsome
  rw [← hkey, whole_queue hseg hstate (hclear b hb)] at hsome
  cases hsome

end Arrivals

end AccountModelTree

namespace Sample

/-- An empty tree with a block of height one in its queue. -/
def waitingTree : AccountModelTree := AccountModelTree.withManager.feed emptyBlock1

end Sample

namespace AccountModelTree

theorem arrival_order_irrelevant_reversed :
    [Sample.block2, Sample.block1, Sample.block2, Sample.block0].foldl feed withManager =
        [Sample.block0, Sample.block1, Sample.block2].foldl feed withManager ∧
      ∀ b ∈ [Sample.block0, Sample.block1, Sample.block2], ∀ height : UInt64,
        ([Sample.block2, Sample.block1, Sample.block2, Sample.block0].foldl feed
          withManager).pendingBlocks[height]? ≠ some b := by
  have hin : ∀ pre block rest, pre ++ block :: rest =
      [Sample.block2, Sample.block1, Sample.block2, Sample.block0] →
      block.metadata.index.toNat ≤ 1024 →
      InTime withManager [Sample.block2, Sample.block1, Sample.block2, Sample.block0] block := by
    intro pre block rest heq hlow
    refine ⟨pre, ⟨rest, ?_⟩, hlow.trans (Nat.le_add_left _ _)⟩
    rw [List.append_assoc, List.singleton_append]
    exact heq
  apply arrival_order_irrelevant
  · exact ⟨by decide +kernel, by decide, by decide +kernel, by decide, by decide +kernel, by decide,
      trivial⟩
  · decide +kernel
  · exact fun _ _ => ExtTreeMap.getElem?_empty
  · decide
  · simp
  · intro b hb
    rcases List.mem_cons.mp hb with rfl | hb
    · exact hin [_, _, _] _ [] rfl (by decide)
    rcases List.mem_cons.mp hb with rfl | hb
    · exact hin [_] _ [_, _] rfl (by decide)
    · obtain rfl := List.mem_singleton.mp hb
      exact hin [] _ [_, _, _] rfl (by decide)

/-- With a competing block in the queue the order decides: in height order the queued block of
height one becomes the tip, and in the other order the block of the segment replaces it. -/
theorem arrival_order_decides :
    LinkedSegment Sample.waitingTree.inner [Sample.block0, Sample.block1] ∧
      (∀ b ∈ [Sample.block0, Sample.block1],
        InTime Sample.waitingTree [Sample.block1, Sample.block0] b) ∧
      ([Sample.block1, Sample.block0].foldl feed Sample.waitingTree).inner.tipHash ≠
        ([Sample.block0, Sample.block1].foldl feed Sample.waitingTree).inner.tipHash := by
  refine ⟨⟨by decide +kernel, by decide, by decide +kernel, by decide, trivial⟩, ?_, ?_⟩
  · intro b hb
    rcases List.mem_cons.mp hb with rfl | hb
    · exact ⟨[Sample.block1], List.prefix_rfl, Nat.zero_le _⟩
    · obtain rfl := List.mem_singleton.mp hb
      exact ⟨[], ⟨[Sample.block0], rfl⟩, (by decide : 1 ≤ 1024).trans (Nat.le_add_left _ _)⟩
  · decide +kernel

end AccountModelTree

end Remzar
