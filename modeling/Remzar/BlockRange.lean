import Mathlib
import Remzar.TipRepair

/-! The blocks a store serves between two hashes. The ends are looked up by hash and the blocks by
height, so that only the slot at the tip's height decides whether the range ends in the tip. -/
namespace Remzar
open Std Fallible Checked

def maxBlocksBetweenRequest : UInt64 := 100000

/-- The bytes of a hash as the debug format `:x?` lists them. -/
def debugHex (hash : Hash) : String :=
  "[" ++ ", ".intercalate (hash.toList.map fun byte => String.ofList (Nat.toDigits 16 byte.toNat)) ++ "]"

namespace RockDB

/-- The link of the next block to the last one collected, or to the ancestor. -/
def checkLink (ancestor : Hash) (blocks : List Block) (idx : UInt64) (block : Block) :
    Except String Unit :=
  match blocks.getLast? with
  | some prev => rejectIf (block.metadata.previousHash ≠ prev.blockHash)
      s!"Hash linkage broken at index {idx}: prev hash {debugHex prev.blockHash} ≠ current.prev_hash {debugHex block.metadata.previousHash}"
  | none => rejectIf (block.metadata.previousHash ≠ ancestor)
      s!"First block after ancestor (index {idx}) has wrong previous_hash"

def linkStep (db : RockDB) (ancestor : Hash) (blocks : List Block) (idx : UInt64) :
    Except String (List Block) := do
  let found ← mapErr (fun e => s!"DB error at index {idx}: {e.debug}") (db.getBlockByIndex idx)
  let block ← okOr found s!"Missing block at index {idx}"
  checkLink ancestor blocks idx block
  return blocks ++ [block]

def getBlocksBetween (db : RockDB) (ancestor tip : Hash) : Except String (List Block) := do
  let ancestorBlock ← okOr (db.getBlockByHash ancestor)
    s!"Ancestor block not found: {Blake3.toHex ancestor.toList}"
  let tipBlock ← okOr (db.getBlockByHash tip) s!"Tip block not found: {Blake3.toHex tip.toList}"
  let ancestorIdx := ancestorBlock.metadata.index
  let tipIdx := tipBlock.metadata.index
  rejectIf (tipIdx ≤ ancestorIdx)
    s!"Tip height {tipIdx} must be greater than ancestor height {ancestorIdx}"
  let diff ← okOr (checkedSub tipIdx ancestorIdx)
    s!"Tip height {tipIdx} must not be lower than ancestor height {ancestorIdx}"
  rejectIf (maxBlocksBetweenRequest < diff)
    s!"Requested block range is too large: {diff} blocks exceeds limit {maxBlocksBetweenRequest}"
  let startIdx ← okOr (checkedAdd ancestorIdx 1) "Ancestor index overflow when computing start range"
  (heightRange startIdx tipIdx).foldlM (linkStep db ancestor) []

end RockDB

/-! ### Linked blocks -/

/-- Each block names the hash before it. -/
def LinkedFrom (hash : Hash) : List Block → Prop
  | [] => True
  | block :: rest => block.metadata.previousHash = hash ∧ LinkedFrom block.blockHash rest

/-- The hash that a block after these has to name. -/
def lastHash (ancestor : Hash) (blocks : List Block) : Hash :=
  (blocks.getLast?.map Block.blockHash).getD ancestor

theorem lastHash_concat (ancestor : Hash) (blocks : List Block) (block : Block) :
    lastHash ancestor (blocks ++ [block]) = block.blockHash := by
  rw [lastHash, List.getLast?_concat]
  rfl

/-- The blocks lead from the ancestor to the tip, one height at a time. -/
structure Connects (ancestor tip : Hash) (blocks : List Block) : Prop where
  nonempty : blocks ≠ []
  linked : LinkedFrom ancestor blocks
  heights : blocks.IsChain fun b b' => b'.metadata.index.toNat = b.metadata.index.toNat + 1
  last : blocks.getLast?.map Block.blockHash = some tip

namespace RockDB
variable {db : RockDB} {ancestor tip : Hash}

/-! ### One height, and a run of heights -/

theorem checkLink_ok_iff {blocks : List Block} {idx : UInt64} {block : Block} {u : Unit} :
    checkLink ancestor blocks idx block = .ok u ↔
      block.metadata.previousHash = lastHash ancestor blocks := by
  unfold checkLink lastHash
  cases blocks.getLast? with
  | none => exact (rejectIf_eq_ok_iff _ _ _).trans not_not
  | some prev => exact (rejectIf_eq_ok_iff _ _ _).trans not_not

theorem linkStep_ok_iff {blocks out : List Block} {idx : UInt64} :
    linkStep db ancestor blocks idx = .ok out ↔ ∃ block, db.getBlockByIndex idx = .ok (some block) ∧
      block.metadata.previousHash = lastHash ancestor blocks ∧ blocks ++ [block] = out := by
  unfold linkStep
  simp only [bind_eq_ok_iff, mapErr_eq_ok_iff, okOr_eq_ok_iff, checkLink_ok_iff, pure_eq_ok_iff]
  constructor
  · intro ⟨found, hfound, block, hsome, _, hlink, hout⟩
    exact ⟨block, hsome ▸ hfound, hlink, hout⟩
  · intro ⟨block, hfound, hlink, hout⟩
    exact ⟨some block, hfound, block, rfl, (), hlink, hout⟩

/-- The run over the heights collects what stands at each of them, as long as the links hold. -/
theorem foldlM_linkStep_ok_iff {heights : List UInt64} {blocks out : List Block} :
    heights.foldlM (linkStep db ancestor) blocks = .ok out ↔
      ∃ rest, List.Forall₂ (fun k b => db.getBlockByIndex k = .ok (some b)) heights rest ∧
        LinkedFrom (lastHash ancestor blocks) rest ∧ blocks ++ rest = out := by
  induction heights generalizing blocks with
  | nil =>
    rw [List.foldlM_nil, pure_eq_ok_iff]
    constructor
    · intro h
      exact ⟨[], .nil, trivial, (List.append_nil blocks).trans h⟩
    · intro ⟨rest, hread, _, hout⟩
      cases hread
      exact (List.append_nil blocks).symm.trans hout
  | cons k heights ih =>
    simp only [List.foldlM_cons, bind_eq_ok_iff, linkStep_ok_iff, ih]
    constructor
    · intro ⟨_, ⟨block, hblock, hlink, hstep⟩, rest, hread, hrest, hout⟩
      subst hstep
      rw [lastHash_concat] at hrest
      exact ⟨block :: rest, .cons hblock hread, ⟨hlink, hrest⟩, (List.append_cons ..).trans hout⟩
    · intro ⟨_, hread, hlinked, hout⟩
      cases hread with
      | @cons _ block _ rest hblock hread =>
        refine ⟨_, ⟨block, hblock, hlinked.1, rfl⟩, rest, hread, ?_, (List.append_cons ..).symm.trans hout⟩
        rw [lastHash_concat]
        exact hlinked.2

/-- The blocks standing at the heights above the ancestor's, up to the tip's. -/
structure Between (db : RockDB) (ancestor tip : Hash) (a t : Block) (blocks : List Block) : Prop where
  start : db.getBlockByHash ancestor = some a
  finish : db.getBlockByHash tip = some t
  above : a.metadata.index.toNat < t.metadata.index.toNat
  bounded : t.metadata.index.toNat ≤ a.metadata.index.toNat + maxBlocksBetweenRequest.toNat
  read : List.Forall₂ (fun k b => db.getBlockByIndex k = .ok (some b))
    (heightRange (a.metadata.index + 1) t.metadata.index) blocks
  linked : LinkedFrom ancestor blocks

theorem getBlocksBetween_ok_iff {blocks : List Block} :
    getBlocksBetween db ancestor tip = .ok blocks ↔ ∃ a t, Between db ancestor tip a t blocks := by
  unfold getBlocksBetween
  simp only [bind_eq_ok_iff, okOr_eq_ok_iff, rejectIf_eq_ok_iff, checkedSub_eq_some_iff,
    checkedAdd_eq_some_iff, foldlM_linkStep_ok_iff, List.nil_append, UInt64.lt_iff_toNat_lt,
    UInt64.le_iff_toNat_le, Nat.not_le, exists_eq_right_right]
  constructor
  · rintro ⟨a, ha, t, ht, -, hlt, diff, hdiff, -, hbound, first, hfirst, hread, hlinked⟩
    have hstart : first = a.metadata.index + 1 := by
      apply UInt64.toNat_inj.mp
      have := first.toNat_lt
      rw [UInt64.toNat_add]
      exact (hfirst.symm.trans (Nat.mod_eq_of_lt (by omega)).symm)
    subst hstart
    exact ⟨a, t, ha, ht, hlt, by omega, hread, hlinked⟩
  · rintro ⟨a, t, h⟩
    have habove := h.above
    have hbound := h.bounded
    have htip := t.metadata.index.toNat_lt
    have hdiff : (t.metadata.index - a.metadata.index).toNat =
        t.metadata.index.toNat - a.metadata.index.toNat :=
      UInt64.toNat_sub_of_le _ _ (UInt64.le_iff_toNat_le.mpr (by omega))
    have hfirst : (a.metadata.index + 1).toNat = a.metadata.index.toNat + 1 := by
      rw [UInt64.toNat_add]
      exact Nat.mod_eq_of_lt (by rw [UInt64.toNat_one]; omega)
    refine ⟨a, h.start, t, h.finish, (), habove, t.metadata.index - a.metadata.index, ?_, (), ?_,
      a.metadata.index + 1, hfirst.symm, h.read, h.linked⟩
    · omega
    · omega

theorem getElem_heightRange {first last : UInt64} {i : ℕ} (h : i < (heightRange first last).length) :
    (heightRange first last)[i].toNat = first.toNat + i := by
  have hlast : last.toNat < UInt64.size := last.toNat_lt
  have hlen : (heightRange first last).length = last.toNat + 1 - first.toNat := by
    rw [heightRange, List.length_map, List.length_range']
  simp only [heightRange, List.getElem_map, List.getElem_range', one_mul]
  exact UInt64.toNat_ofNat_of_lt' (by omega)

section Served
variable {a t : Block} {blocks : List Block}

theorem Between.length (h : Between db ancestor tip a t blocks) :
    blocks.length = t.metadata.index.toNat - a.metadata.index.toNat := by
  have hlen := h.read.length_eq
  have habove := h.above
  have htip := t.metadata.index.toNat_lt
  rw [heightRange, List.length_map, List.length_range', UInt64.toNat_add, UInt64.toNat_one,
    Nat.mod_eq_of_lt (by omega)] at hlen
  omega

/-- The `i`-th block served stands `i + 1` above the ancestor. -/
theorem Between.slot (h : Between db ancestor tip a t blocks) {k : UInt64} {i : ℕ}
    (hk : k.toNat = a.metadata.index.toNat + 1 + i) (hi : i < blocks.length) :
    db.getBlockByIndex k = .ok (some blocks[i]) := by
  obtain ⟨hlen, hread⟩ := List.forall₂_iff_get.mp h.read
  have hslot := hread i (hlen ▸ hi) hi
  have hlength := h.length
  have htip := t.metadata.index.toNat_lt
  have hheight : (heightRange (a.metadata.index + 1) t.metadata.index).get ⟨i, hlen ▸ hi⟩ = k := by
    apply UInt64.toNat_inj.mp
    rw [List.get_eq_getElem, getElem_heightRange, UInt64.toNat_add, UInt64.toNat_one,
      Nat.mod_eq_of_lt (by omega), hk]
  rw [hheight] at hslot
  exact hslot

theorem Between.last (h : Between db ancestor tip a t blocks) :
    ∃ block, blocks.getLast? = some block ∧
      db.getBlockByIndex t.metadata.index = .ok (some block) := by
  have hlen := h.length
  have habove := h.above
  have hi : blocks.length - 1 < blocks.length := by omega
  refine ⟨blocks[blocks.length - 1], ?_, h.slot (by omega) hi⟩
  rw [List.getLast?_eq_getElem?, List.getElem?_eq_getElem hi]

end Served

/-- The slot at the tip's height holds the tip. -/
def TipInSlot (db : RockDB) (tip : Hash) : Prop :=
  ∃ tipBlock block, db.getBlockByHash tip = some tipBlock ∧
    db.getBlockByIndex tipBlock.metadata.index = .ok (some block) ∧ block.blockHash = tip

/-- From the ancestor's height to the tip's, each slot holds a block one height above the block in
the slot below. -/
def SlotsAscend (db : RockDB) (ancestor tip : Hash) : Prop :=
  ∀ a t, db.getBlockByHash ancestor = some a → db.getBlockByHash tip = some t →
    ∀ k k' b b', a.metadata.index < k → k < t.metadata.index → k'.toNat = k.toNat + 1 →
      db.getBlockByIndex k = .ok (some b) → db.getBlockByIndex k' = .ok (some b') →
      b'.metadata.index.toNat = b.metadata.index.toNat + 1

theorem Between.tipInSlot_iff {a t : Block} {blocks : List Block}
    (h : Between db ancestor tip a t blocks) :
    db.TipInSlot tip ↔ blocks.getLast?.map Block.blockHash = some tip := by
  obtain ⟨last, hlast, hslot⟩ := h.last
  rw [hlast, Option.map_some, Option.some_inj]
  constructor
  · intro ⟨t', block, ht', hblock, hhash⟩
    cases h.finish.symm.trans ht'
    cases hslot.symm.trans hblock
    exact hhash
  · intro hhash
    exact ⟨t, last, h.finish, hslot, hhash⟩

theorem Between.slotsAscend_iff {a t : Block} {blocks : List Block}
    (h : Between db ancestor tip a t blocks) : db.SlotsAscend ancestor tip ↔
      blocks.IsChain fun b b' => b'.metadata.index.toNat = b.metadata.index.toNat + 1 := by
  have hlen := h.length
  have htip : t.metadata.index.toNat < UInt64.size := t.metadata.index.toNat_lt
  rw [List.isChain_iff_getElem]
  constructor
  · intro hascend i hi
    have hvalue (n : ℕ) (hn : n ≤ t.metadata.index.toNat) : (UInt64.ofNat n).toNat = n :=
      UInt64.toNat_ofNat_of_lt' (by omega)
    -- the heights of the two blocks
    have hk := hvalue (a.metadata.index.toNat + 1 + i) (by omega)
    have hk' := hvalue (a.metadata.index.toNat + 1 + (i + 1)) (by omega)
    refine hascend a t h.start h.finish _ _ _ _ ?_ ?_ (hk'.trans ?_) (h.slot hk (by omega))
      (h.slot hk' hi)
    · rw [UInt64.lt_iff_toNat_lt, hk]
      omega
    · rw [UInt64.lt_iff_toNat_lt, hk]
      omega
    · rw [hk]
      omega
  · intro hchain a' t' ha' ht' k k' b b' hlow hhigh hnext hb hb'
    cases h.start.symm.trans ha'
    cases h.finish.symm.trans ht'
    rw [UInt64.lt_iff_toNat_lt] at hlow hhigh
    obtain ⟨i, hi⟩ : ∃ i, k.toNat = a.metadata.index.toNat + 1 + i := Nat.exists_eq_add_of_le hlow
    have hlower := h.slot hi (by omega)
    have hupper := h.slot (k := k') (i := i + 1) (by omega) (by omega)
    cases hlower.symm.trans hb
    cases hupper.symm.trans hb'
    exact hchain i (by omega)

/-- Where the heights hold a chain of stored blocks, they ascend, and a range ends in its tip exactly
when the tip is in the chain. -/
theorem canonical_tip_iff [Blake3] {batchOf : Hash → Option (List UInt8)} {chain : List Block}
    (hprojects : Projects batchOf chain db) (hbranch : Branch db chain) :
    db.SlotsAscend ancestor tip ∧
      (db.TipInSlot tip ↔ ∃ block ∈ chain, block.blockHash = tip) := by
  have hslot {k : UInt64} {b : Block} (h : db.getBlockByIndex k = .ok (some b)) :
      chain[k.toNat]? = some b := Except.ok.inj ((hprojects.blocks k).symm.trans h)
  refine ⟨?_, ?_⟩
  · intro _ _ _ _ k k' b b' _ _ hnext hb hb'
    rw [hbranch.index (hslot hb), hbranch.index (hslot hb'), hnext]
  · constructor
    · intro ⟨_, block, _, hblock, hhash⟩
      exact ⟨block, List.mem_of_getElem? (hslot hblock), hhash⟩
    · intro ⟨block, hmem, hhash⟩
      obtain ⟨i, hi⟩ := List.mem_iff_getElem?.mp hmem
      refine ⟨block, block, hhash ▸ hbranch.indexed block hmem, ?_, hhash⟩
      rw [hprojects.blocks, hbranch.index hi, hi]

/-- A served range leads to the tip exactly when the slots of its heights do. -/
theorem blocks_between_iff {blocks : List Block}
    (h : db.getBlocksBetween ancestor tip = .ok blocks) :
    Connects ancestor tip blocks ↔ db.TipInSlot tip ∧ db.SlotsAscend ancestor tip := by
  obtain ⟨a, t, hbetween⟩ := getBlocksBetween_ok_iff.mp h
  rw [hbetween.tipInSlot_iff, hbetween.slotsAscend_iff]
  constructor
  · intro hconnects
    exact ⟨hconnects.last, hconnects.heights⟩
  · intro ⟨hlast, hheights⟩
    have hlen := hbetween.length
    have habove := hbetween.above
    exact ⟨List.ne_nil_of_length_pos (by omega), hbetween.linked, hheights, hlast⟩

end RockDB

/-! ### A side branch as tip -/

namespace Sample
open ReorgManager

theorem staleDb_linked : ∀ b ∈ [block1, emptyBlock1],
    b.metadata.index = 1 ∧ block1.metadata.previousHash = block0.blockHash := by
  decide

/-- Below either block of height 1 the store serves the canonical one. -/
theorem staleDb_between (b : Block) (hb : b ∈ [block1, emptyBlock1]) :
    staleDb.getBlocksBetween block0.blockHash b.blockHash = .ok [block1] := by
  have hindexed (x : Block) (hx : x ∈ [block0, block1, emptyBlock1, branchBlock2]) :
      staleDb.getBlockByHash x.blockHash = some x := (known_readable x hx).2
  have hmem : b ∈ [block0, block1, emptyBlock1, branchBlock2] := by
    rcases List.mem_cons.mp hb with rfl | hb
    · simp
    · rw [List.mem_singleton.mp hb]
      simp
  obtain ⟨hindex, hlink⟩ := staleDb_linked b hb
  refine RockDB.getBlocksBetween_ok_iff.mpr ⟨block0, b, hindexed _ (by simp), hindexed _ hmem, ?_, ?_,
    ?_, hlink, trivial⟩
  · rw [hindex]
    decide
  · rw [hindex]
    decide
  · rw [hindex]
    exact .cons (staleDb_projects.blocks 1) .nil

theorem staleDb_connected : Connects block0.blockHash block1.blockHash [block1] :=
  ⟨List.cons_ne_nil _ _, ⟨rfl, trivial⟩, .singleton _, rfl⟩

end Sample

/-- The empty block of height 1 is not among the blocks served up to it. -/
theorem RockDB.blocks_between_other_branch :
    ¬∀ (db : RockDB) (ancestor tip : Hash) (blocks : List Block),
      db.getBlocksBetween ancestor tip = .ok blocks → Connects ancestor tip blocks := by
  intro hall
  have hserved := Sample.staleDb_between Sample.emptyBlock1 (by simp)
  have hlast := (hall _ _ _ _ hserved).last
  revert hlast
  decide

theorem RockDB.blocks_between_canonical_tip :
    Sample.staleDb.getBlocksBetween Sample.block0.blockHash Sample.block1.blockHash =
      .ok [Sample.block1] ∧ Sample.staleDb.TipInSlot Sample.block1.blockHash ∧
      Sample.staleDb.SlotsAscend Sample.block0.blockHash Sample.block1.blockHash :=
  ⟨Sample.staleDb_between _ (by simp),
    (RockDB.blocks_between_iff (Sample.staleDb_between _ (by simp))).mp Sample.staleDb_connected⟩

end Remzar
