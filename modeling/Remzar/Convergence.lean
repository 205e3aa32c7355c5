import Mathlib
import Remzar.Chain
import Remzar.ForkSpec

/-! Fork choice over a finite block tree: whatever the order in which blocks arrive after their
parents, the node ends at a highest block, and at one and the same block where ties are broken
by hash. -/
namespace Remzar
open Fallible Effects ReFork Checked

/-! ### Block trees -/

/-- One link of a chain, with consistent heights. -/
def ParentOf (p b : Block) : Prop :=
  p.blockHash = b.metadata.previousHash ∧ b.metadata.index.toNat = p.metadata.index.toNat + 1

/-- A finite tree of blocks that can be stored, above a genesis block. -/
structure BlockTree [Blake3] (root : Block) (blocks : List Block) : Prop where
  storable : ∀ b ∈ root :: blocks, succeeds b.serializeForStorage = true
  hashes : ((root :: blocks).map Block.blockHash).Nodup
  genesis : root.metadata.index = 0
  parent : ∀ b ∈ blocks, ∃ p ∈ root :: blocks, ParentOf p b

/-- `c` is reached from `b` by a number of parent links. -/
inductive Above (blocks : List Block) : ℕ → Block → Block → Prop
  | here (b : Block) : Above blocks 0 b b
  | up {n : ℕ} {c p b : Block} (hp : p ∈ blocks) (hlink : ParentOf p b) (h : Above blocks n c p) :
      Above blocks (n+1) c b

/-- Any two blocks are close to a common ancestor. -/
def WithinDepth (blocks : List Block) (depth : ℕ) : Prop :=
  ∀ x ∈ blocks, ∀ y ∈ blocks, ∃ c m n, m ≤ depth ∧ n ≤ depth ∧ Above blocks m c x ∧ Above blocks n c y

/-- Parents come before their children. -/
def ParentsFirst : List Block → List Block → Prop
  | _, [] => True
  | seen, b :: rest => (∃ p ∈ seen, ParentOf p b) ∧ ParentsFirst (b :: seen) rest

/-! ### Delivery -/

/-- Store a block under its height and move the canonical view up to it. -/
def appendToTip [Blake3] (block : Block) : EStateM ErrorDetection RockDB Unit := do
  let bytes ← lift block.serializeForStorage
  update fun db => db.storeLatestBlock bytes block.metadata.index
  promoteToTip block

def follow [Blake3] (block : Block) (action : ForkAction) (tip : Option CanonicalTipView) :
    EStateM ErrorDetection RockDB Unit :=
  match action with
  | .stay => if extendsTip block tip then appendToTip block else pure ()
  | .reorg plan => applyReorg plan
  | .needMoreData _ _ => pure ()

/-- A received block enters the fork graph, and the node does what fork choice says. -/
def deliver [Blake3] (cfg : ReForkConfig) (message : Int64 × Block) :
    EStateM ErrorDetection RockDB Unit := do
  update (persistSyncBlockIntoReorgGraph message.1 message.2)
  let db ← get
  let action ← lift (onNewBlock cfg message.2 db)
  let tip ← lift (ReorgChainView.getTipWithLegacyFallback db)
  follow message.2 action tip

def deliverAll [Blake3] (cfg : ReForkConfig) (messages : List (Int64 × Block)) :
    EStateM ErrorDetection RockDB Unit :=
  messages.forM (deliver cfg)

/-! ### The order of tips -/

/-- The scorer's choice between two blocks of one tree. -/
def Preferred (cfg : ReForkConfig) (b t : Block) : Prop :=
  t.metadata.index < b.metadata.index ∨
    (b.metadata.index = t.metadata.index ∧ cfg.allowEqualHeightReorg = true ∧
      hashBelow b.blockHash t.blockHash)

theorem hashBelow_irrefl (a : Hash) : ¬hashBelow a a := by
  have hself : compare a.toList a.toList = .eq := Std.ReflCmp.compare_self
  rw [hashBelow, hself]
  exact fun h => Ordering.noConfusion h

theorem hashBelow_trans {a b c : Hash} (hab : hashBelow a b) (hbc : hashBelow b c) :
    hashBelow a c := Std.TransCmp.lt_trans hab hbc

theorem hashBelow_trichotomy (a b : Hash) : hashBelow a b ∨ a = b ∨ hashBelow b a := by
  cases hcmp : compare a.toList b.toList with
  | lt => exact .inl hcmp
  | eq => exact .inr (.inl (Hash.toList_injective (Std.LawfulEqCmp.eq_of_compare hcmp)))
  | gt => exact .inr (.inr (Std.OrientedCmp.gt_iff_lt.mp hcmp))

theorem preferred_irrefl (cfg : ReForkConfig) (b : Block) : ¬Preferred cfg b b := by
  rintro (h | ⟨-, -, h⟩)
  · exact absurd h (UInt64.lt_irrefl _)
  · exact hashBelow_irrefl _ h

theorem preferred_trans {cfg : ReForkConfig} {a b c : Block} (hab : Preferred cfg a b)
    (hbc : Preferred cfg b c) : Preferred cfg a c := by
  rcases hab with hab | ⟨hab, hcfg, hhash⟩
  · rcases hbc with hbc | ⟨hbc, -, -⟩
    · exact .inl (UInt64.lt_trans hbc hab)
    · exact .inl (hbc ▸ hab)
  · rcases hbc with hbc | ⟨hbc, -, hhash'⟩
    · exact .inl (hab ▸ hbc)
    · exact .inr ⟨hab.trans hbc, hcfg, hashBelow_trans hhash hhash'⟩

/-- Blocks that are not preferred to one another have the same height, and with the tie break
they are the same. -/
theorem eq_of_not_preferred {cfg : ReForkConfig} {a b : Block} (hab : ¬Preferred cfg a b)
    (hba : ¬Preferred cfg b a) :
    a.metadata.index = b.metadata.index ∧
      (cfg.allowEqualHeightReorg = true → a.blockHash = b.blockHash) := by
  have hle : ¬b.metadata.index < a.metadata.index := fun h => hab (.inl h)
  have hge : ¬a.metadata.index < b.metadata.index := fun h => hba (.inl h)
  have hheight : a.metadata.index = b.metadata.index :=
    UInt64.le_antisymm (UInt64.not_lt.mp hle) (UInt64.not_lt.mp hge)
  refine ⟨hheight, fun hcfg => ?_⟩
  rcases hashBelow_trichotomy a.blockHash b.blockHash with hlt | heq | hgt
  · exact absurd (.inr ⟨hheight, hcfg, hlt⟩) hab
  · exact heq
  · exact absurd (.inr ⟨hheight.symm, hcfg, hgt⟩) hba

/-- The height of a block as its score. -/
def heightScore (b : Block) : BitVec 128 := BitVec.ofNat 128 b.metadata.index.toNat

theorem heightScore_lt (a b : Block) :
    heightScore a < heightScore b ↔ a.metadata.index < b.metadata.index := by
  have ha := a.metadata.index.toNat_lt
  have hb := b.metadata.index.toNat_lt
  rw [heightScore, heightScore, BitVec.lt_def, BitVec.toNat_ofNat, BitVec.toNat_ofNat,
    Nat.mod_eq_of_lt (by omega), Nat.mod_eq_of_lt (by omega), UInt64.lt_iff_toNat_lt]

theorem beatsByHeight_iff (cfg : ReForkConfig) (b t : Block) :
    BranchScore.beatsByHeight ⟨b.metadata.index, heightScore b, b.blockHash⟩
      ⟨t.metadata.index, heightScore t, t.blockHash⟩ cfg.score = true ↔ Preferred cfg b t := by
  have htie : BranchScore.tieBreak b.blockHash t.blockHash true = true ↔
      hashBelow b.blockHash t.blockHash := by
    rw [BranchScore.tieBreak]
    by_cases heq : b.blockHash = t.blockHash
    · rw [if_pos heq, heq]
      simp [hashBelow_irrefl]
    · rw [if_neg heq]
      simp
  have hlow : cfg.score.preferLowerHashOnTie = true := rfl
  have hequal : cfg.score.allowEqualHeightTiebreak = cfg.allowEqualHeightReorg := rfl
  simp only [BranchScore.beatsByHeight, Preferred]
  by_cases hlt : t.metadata.index < b.metadata.index
  · simp [hlt]
  · by_cases hgt : b.metadata.index < t.metadata.index
    · have hne : b.metadata.index ≠ t.metadata.index := fun h => absurd hgt (h ▸ UInt64.lt_irrefl _)
      simp [hlt, hgt, hne]
    · have heq : b.metadata.index = t.metadata.index :=
        UInt64.le_antisymm (UInt64.not_lt.mp hlt) (UInt64.not_lt.mp hgt)
      rw [if_neg hlt, if_neg hgt]
      by_cases hcfg : cfg.score.allowEqualHeightTiebreak = true
      · rw [if_pos hcfg, hlow, htie]
        rw [hequal] at hcfg
        simp [heq, hcfg]
      · rw [if_neg hcfg]
        rw [hequal] at hcfg
        simp [hlt, hcfg]

theorem isStrictlyBetterThan_iff (cfg : ReForkConfig) (b t : Block) :
    BranchScore.isStrictlyBetterThan ⟨b.metadata.index, heightScore b, b.blockHash⟩
      ⟨t.metadata.index, heightScore t, t.blockHash⟩ cfg.score = true ↔ Preferred cfg b t := by
  -- Scores are heights here, so both modes compare heights first.
  cases hmode : cfg.preferCumulativePor with
  | false =>
    have hscore : cfg.score.mode = .heightOnly := by
      rw [ReForkConfig.score, hmode]
      rfl
    rw [BranchScore.isStrictlyBetterThan, hscore]
    exact beatsByHeight_iff cfg b t
  | true =>
    have hscore : cfg.score.mode = .cumulativePor := by
      rw [ReForkConfig.score, hmode]
      rfl
    rw [BranchScore.isStrictlyBetterThan, hscore]
    simp only [heightScore_lt]
    by_cases hlt : t.metadata.index < b.metadata.index
    · simp [hlt, Preferred]
    · rw [if_neg hlt]
      by_cases hgt : b.metadata.index < t.metadata.index
      · have hne : b.metadata.index ≠ t.metadata.index :=
          fun h => absurd hgt (h ▸ UInt64.lt_irrefl _)
        simp [hlt, hgt, hne, Preferred]
      · rw [if_neg hgt]
        exact beatsByHeight_iff cfg b t

theorem chooseTip_iff (cfg : ReForkConfig) {b t : Block} (hne : b.blockHash ≠ t.blockHash) :
    (chooseTip cfg.score ⟨t.blockHash, t.metadata.index, heightScore t⟩
      ⟨b.blockHash, b.metadata.index, heightScore b⟩).getD t.blockHash = b.blockHash ↔
      Preferred cfg b t := by
  have hnew := isStrictlyBetterThan_iff cfg b t
  rw [chooseTip, BranchCandidate.toScore, BranchCandidate.toScore]
  by_cases hpref : Preferred cfg b t
  · rw [if_pos (hnew.mpr hpref)]
    simp [hpref]
  · rw [if_neg (fun h => hpref (hnew.mp h))]
    split
    · simp [hpref, Ne.symm hne]
    · simp [hpref, Ne.symm hne]

/-! ### Walking a branch -/

/-- The blocks of a walk from a block towards genesis, at most as many as its fuel. -/
inductive Line (blocks : List Block) : ℕ → Block → List Block → Prop
  | stop (b : Block) : Line blocks 0 b []
  | root {n : ℕ} {b : Block} (h : b.metadata.index = 0) : Line blocks (n+1) b [b]
  | up {n : ℕ} {p b : Block} {rest : List Block} (hp : p ∈ blocks) (hlink : ParentOf p b)
      (hzero : b.metadata.previousHash ≠ zeroHash) (h : Line blocks n p rest) :
      Line blocks (n+1) b (b :: rest)

def pathOf (line : List Block) : BranchPath := line.map fun b => (b.metadata.index, b.blockHash)

namespace Line
variable {blocks line : List Block} {n : ℕ} {b : Block}

theorem length_le (h : Line blocks n b line) : line.length ≤ n := by
  induction h with
  | stop b => exact Nat.le_refl 0
  | root h => exact Nat.succ_le_succ (Nat.zero_le _)
  | up hp hlink hzero h ih => exact Nat.succ_le_succ ih

theorem mem (h : Line blocks n b line) (hb : b ∈ blocks) : ∀ x ∈ line, x ∈ blocks := by
  induction h with
  | stop b =>
    intro x hx
    cases hx
  | root h =>
    intro x hx
    rw [List.mem_singleton.mp hx]
    exact hb
  | up hp hlink hzero h ih =>
    intro x hx
    rcases List.mem_cons.mp hx with rfl | hx
    · exact hb
    · exact ih hp x hx

theorem head (h : Line blocks (n+1) b line) : ∃ rest, line = b :: rest := by
  cases h with
  | root h => exact ⟨[], rfl⟩
  | up hp hlink hzero h => exact ⟨_, rfl⟩

/-- Every ancestor that is near enough is on the line. -/
theorem above (h : Line blocks n b line) {all : List Block} (hsub : ∀ x ∈ blocks, x ∈ all)
    (hinj : ∀ x ∈ all, ∀ y ∈ all, x.blockHash = y.blockHash → x = y) {m : ℕ} {c : Block}
    (habove : Above all m c b) (hm : m < n) : c ∈ line := by
  induction h generalizing m with
  | stop b => omega
  | root h =>
    cases habove with
    | here b => exact List.mem_singleton.mpr rfl
    | up hp hlink habove =>
      -- A block of height zero has no parent.
      have hheight := hlink.2
      rw [h] at hheight
      exact absurd hheight.symm (Nat.succ_ne_zero _)
  | up hp hlink hzero h ih =>
    cases habove with
    | here b => exact List.mem_cons_self
    | up hp' hlink' habove =>
      have hsame := hinj _ (hsub _ hp) _ hp' (hlink.1.trans hlink'.1.symm)
      subst hsame
      exact List.mem_cons_of_mem _ (ih habove (by omega))

end Line

/-- A node's part of the tree: some blocks, closed under parents. -/
structure Grown (all seen : List Block) : Prop where
  sub : ∀ b ∈ seen, b ∈ all
  hashes : ∀ x ∈ all, ∀ y ∈ all, x.blockHash = y.blockHash → x = y
  linked : ∀ b ∈ seen, b.metadata.index = 0 ∨
    b.metadata.previousHash ≠ zeroHash ∧ ∃ p ∈ seen, ParentOf p b

theorem Grown.line {all seen : List Block} (h : Grown all seen) (n : ℕ) {b : Block} (hb : b ∈ seen) :
    ∃ line, Line seen n b line := by
  induction n generalizing b with
  | zero => exact ⟨[], .stop b⟩
  | succ n ih =>
    rcases h.linked b hb with hroot | ⟨hzero, p, hp, hlink⟩
    · exact ⟨[b], .root hroot⟩
    · obtain ⟨rest, hrest⟩ := ih hp
      exact ⟨b :: rest, .up hp hlink hzero hrest⟩

theorem walkBranch_line [Blake3] {db : RockDB} {seen : List Block} (hknown : ∀ b ∈ seen, Known db b)
    {n : ℕ} {b : Block} {line : List Block} (h : Line seen n b line) (hb : b ∈ seen)
    (path : BranchPath) :
    walkBranch db n path b.blockHash = .ok (.complete (path.reverse ++ pathOf line)) := by
  induction h generalizing path with
  | stop b => rw [walkBranch, pathOf, List.map_nil, List.append_nil]
  | @root n b h =>
    obtain ⟨m, hm, -, hheight, -⟩ := (hknown _ hb).graph
    have hroot : b.metadata.index = 0 ∨ m.parentHash = zeroHash := .inl h
    rw [walkBranch, hm]
    simp only [ok_bind, hheight, if_pos hroot, List.reverse_cons]
    rfl
  | @up n p b rest hp hlink hzero h ih =>
    obtain ⟨m, hm, hparent, hheight, -⟩ := (hknown _ hb).graph
    have hnot : ¬(b.metadata.index = 0 ∨ p.blockHash = zeroHash) := by
      rintro (hm0 | hmz)
      · have hindex := hlink.2
        rw [hm0] at hindex
        exact absurd hindex.symm (Nat.succ_ne_zero _)
      · exact hzero (hlink.1.symm.trans hmz)
    have hblock := (hknown p hp).hasBlock
    obtain ⟨mp, hmp, -⟩ := (hknown p hp).graph
    have hlinkHash : m.parentHash = p.blockHash := hparent.trans hlink.1.symm
    rw [walkBranch, hm]
    simp only [ok_bind, hheight, hlinkHash, if_neg hnot, hblock, RockDB.hasBlockMetaByHash, hmp,
      ih hp, pathOf, List.map_cons, List.reverse_cons, List.append_assoc]
    rfl

/-! ### Plans -/

/-- A step whose block both paths contain. -/
def Shared (newPath : BranchPath) (step : UInt64 × Hash) : Prop :=
  (newPath.any fun other => other.2 = step.2) = true

theorem higherCommon_cases (newPath : BranchPath) (best : Option (UInt64 × Hash))
    (step : UInt64 × Hash) :
    higherCommon newPath best step = best ∨
      higherCommon newPath best step = some step ∧ Shared newPath step := by
  unfold higherCommon
  split
  · rename_i hshared
    split
    · split
      · exact .inl rfl
      · exact .inr ⟨rfl, hshared⟩
    · exact .inr ⟨rfl, hshared⟩
  · exact .inl rfl

theorem higherCommon_isSome (newPath : BranchPath) (best : Option (UInt64 × Hash))
    (step : UInt64 × Hash) (h : best.isSome = true ∨ Shared newPath step) :
    (higherCommon newPath best step).isSome = true := by
  unfold higherCommon
  split
  · split
    · split
      · rfl
      · rfl
    · rfl
  · rename_i hnot
    rcases h with h | h
    · exact h
    · exact absurd h hnot

theorem foldl_higherCommon_isSome (newPath steps : BranchPath) (best : Option (UInt64 × Hash))
    (h : best.isSome = true ∨ ∃ step ∈ steps, Shared newPath step) :
    (steps.foldl (higherCommon newPath) best).isSome = true := by
  induction steps generalizing best with
  | nil =>
    rcases h with h | ⟨step, hstep, -⟩
    · exact h
    · cases hstep
  | cons step steps ih =>
    apply ih
    rcases h with h | ⟨other, hother, hshared⟩
    · exact .inl (higherCommon_isSome newPath best step (.inl h))
    · rcases List.mem_cons.mp hother with rfl | hother
      · exact .inl (higherCommon_isSome newPath best other (.inr hshared))
      · exact .inr ⟨other, hother, hshared⟩

/-- A common ancestor is a step of the old path, and its block is on the new path too. -/
theorem findCommonAncestor_mem {newPath oldPath : BranchPath} {common : UInt64 × Hash}
    (h : findCommonAncestor newPath oldPath = some common) :
    common ∈ oldPath ∧ Shared newPath common := by
  have hall : ∀ c, oldPath.foldl (higherCommon newPath) none = some c →
      c ∈ oldPath ∧ Shared newPath c := by
    refine List.foldlRecOn oldPath (higherCommon newPath) (motive := fun best => ∀ c,
      best = some c → c ∈ oldPath ∧ Shared newPath c) ?_ ?_
    · intro c hc
      cases hc
    · intro best hbest other hother c hc
      rcases higherCommon_cases newPath best other with hkeep | ⟨htake, hshared⟩
      · exact hbest c (hkeep ▸ hc)
      · obtain rfl := Option.some.inj (htake.symm.trans hc)
        exact ⟨hother, hshared⟩
  exact hall common h

/-- Two paths that share a block have one. -/
theorem findCommonAncestor_some {newPath oldPath : BranchPath} {step : UInt64 × Hash}
    (hold : step ∈ oldPath) (hnew : Shared newPath step) :
    ∃ common, findCommonAncestor newPath oldPath = some common ∧ common ∈ oldPath ∧
      Shared newPath common := by
  have hsome := foldl_higherCommon_isSome newPath oldPath none (.inr ⟨step, hold, hnew⟩)
  obtain ⟨common, hcommon⟩ := Option.isSome_iff_exists.mp hsome
  exact ⟨common, hcommon, findCommonAncestor_mem hcommon⟩

theorem stepsAbove_mem {path : BranchPath} {common : Hash} {step : ReorgStep}
    (h : step ∈ stepsAbove path common) : (step.height, step.hash) ∈ path := by
  obtain ⟨pair, hpair, rfl⟩ := List.mem_map.mp h
  exact List.takeWhile_subset _ hpair

/-- A path that meets the ancestor has at least that step more than the steps above it. -/
theorem stepsAbove_length {path : BranchPath} {common : Hash}
    (h : ∃ step ∈ path, step.2 = common) : (stepsAbove path common).length < path.length := by
  rw [stepsAbove, List.length_map]
  induction path with
  | nil =>
    obtain ⟨step, hstep, -⟩ := h
    cases hstep
  | cons first path ih =>
    rw [List.takeWhile_cons]
    split
    · rename_i hfirst
      have hne : first.2 ≠ common := by simpa using hfirst
      obtain ⟨step, hstep, hcommon⟩ := h
      rcases List.mem_cons.mp hstep with rfl | hstep
      · exact absurd hcommon hne
      · exact Nat.succ_lt_succ (ih ⟨step, hstep, hcommon⟩)
    · exact Nat.succ_pos _

theorem stepsAbove_head {first : UInt64 × Hash} {path : BranchPath} {common : Hash}
    (h : (stepsAbove (first :: path) common).length = 0) : first.2 = common := by
  by_contra hne
  rw [stepsAbove, List.length_map, List.takeWhile_cons, if_pos (by simpa using hne)] at h
  exact absurd h (Nat.succ_ne_zero _)

/-- A plan that leads to a block along known blocks. -/
structure PlanFor (seen : List Block) (b : Block) (plan : ReorgPlan) : Prop where
  tipHash : plan.newTipHash = b.blockHash
  tipHeight : plan.newTipHeight = b.metadata.index
  attach : ∀ step ∈ plan.attach, ∃ x ∈ seen, step = ⟨x.metadata.index, x.blockHash⟩
  moves : plan.isNoop = false

theorem planReorg_eq {cfg : ReForkConfig} {seen newLine oldLine : List Block} {b t c : Block}
    (hnew : Line seen (cfg.maxReorgDepth.toNat+1) b newLine)
    (hold : Line seen (cfg.maxReorgDepth.toNat+1) t oldLine) (hb : b ∈ seen)
    (hne : b.blockHash ≠ t.blockHash) (hcn : c ∈ newLine) (hco : c ∈ oldLine) (height : UInt64)
    (hash : Hash) :
    ∃ plan, planReorg cfg b height hash (pathOf newLine) (pathOf oldLine) = .reorg plan ∧
      PlanFor seen b plan := by
  obtain ⟨newRest, hnewHead⟩ := hnew.head
  obtain ⟨oldRest, holdHead⟩ := hold.head
  have hnewLen : (pathOf newLine).length ≤ cfg.maxReorgDepth.toNat+1 := by
    rw [pathOf, List.length_map]
    exact hnew.length_le
  have holdLen : (pathOf oldLine).length ≤ cfg.maxReorgDepth.toNat+1 := by
    rw [pathOf, List.length_map]
    exact hold.length_le
  have hmemOld : (c.metadata.index, c.blockHash) ∈ pathOf oldLine := List.mem_map_of_mem hco
  have hshared : Shared (pathOf newLine) (c.metadata.index, c.blockHash) := by
    apply List.any_eq_true.mpr
    exact ⟨(c.metadata.index, c.blockHash), List.mem_map_of_mem hcn, by simp⟩
  obtain ⟨⟨commonHeight, commonHash⟩, hcommon, hcommonOld, hcommonNew⟩ :=
    findCommonAncestor_some hmemOld hshared
  have hdetach : (stepsAbove (pathOf oldLine) commonHash).length ≤ cfg.maxReorgDepth.toNat := by
    have hlt := stepsAbove_length ⟨_, hcommonOld, show (commonHeight, commonHash).2 = commonHash from rfl⟩
    omega
  have hattach : (stepsAbove (pathOf newLine) commonHash).length ≤ cfg.maxReorgDepth.toNat := by
    obtain ⟨other, hother, heq⟩ := List.any_eq_true.mp hcommonNew
    have hlt := stepsAbove_length ⟨other, hother, by simpa using heq⟩
    omega
  -- Both paths start at the ancestor only if the two tips are one block.
  have hmoves : ¬((stepsAbove (pathOf oldLine) commonHash).length = 0 ∧
      (stepsAbove (pathOf newLine) commonHash).length = 0) := by
    rintro ⟨hzeroOld, hzeroNew⟩
    rw [holdHead] at hzeroOld
    rw [hnewHead] at hzeroNew
    have htip : t.blockHash = commonHash := stepsAbove_head hzeroOld
    have hblock : b.blockHash = commonHash := stepsAbove_head hzeroNew
    exact hne (hblock.trans htip.symm)
  have hnonempty : ¬((pathOf newLine).isEmpty || (pathOf oldLine).isEmpty) = true := by
    rw [hnewHead, holdHead]
    exact Bool.false_ne_true
  have hdepth : ¬(cfg.maxReorgDepth.toNat < (stepsAbove (pathOf oldLine) commonHash).length ∨
      cfg.maxReorgDepth.toNat < (stepsAbove (pathOf newLine) commonHash).reverse.length) := by
    rw [List.length_reverse]
    omega
  have hmoves' : ¬((stepsAbove (pathOf oldLine) commonHash).length = 0 ∧
      (stepsAbove (pathOf newLine) commonHash).reverse.length = 0) := by
    rw [List.length_reverse]
    exact hmoves
  refine ⟨⟨height, hash, b.metadata.index, b.blockHash, commonHeight, commonHash,
    stepsAbove (pathOf oldLine) commonHash, (stepsAbove (pathOf newLine) commonHash).reverse⟩, ?_, ?_⟩
  · rw [planReorg, if_neg hnonempty, hcommon]
    exact (if_neg hmoves').trans (if_neg hdepth)
  · refine ⟨rfl, rfl, ?_, ?_⟩
    · intro step hstep
      have hpair := stepsAbove_mem (List.mem_reverse.mp hstep)
      obtain ⟨x, hx, heq⟩ := List.mem_map.mp hpair
      refine ⟨x, hnew.mem hb x hx, ?_⟩
      obtain ⟨hheight, hhash⟩ := Prod.mk.inj heq
      rw [hheight, hhash]
    · rw [ReorgPlan.isNoop]
      by_contra hboth
      rw [Bool.not_eq_false, Bool.and_eq_true, List.isEmpty_iff, List.isEmpty_iff] at hboth
      apply hmoves'
      exact ⟨congrArg List.length hboth.1, congrArg List.length hboth.2⟩

/-! ### Fork choice -/

section Choice
variable [Blake3] {cfg : ReForkConfig} {db : RockDB} {all seen : List Block} {b t : Block}

theorem loadCanonicalTipBlock_eq (ht : Known db t)
    (hview : db.getCanonicalTip = .ok (some ⟨t.blockHash, t.metadata.index⟩)) :
    ∃ t', loadCanonicalTipBlock db = .ok (t.metadata.index, t.blockHash, t') ∧
      t'.blockHash = t.blockHash := by
  obtain ⟨t', bytes, hget, -, hhash, -⟩ := ht.stored
  refine ⟨t', ?_, hhash⟩
  rw [loadCanonicalTipBlock, ReorgChainView.getTipWithLegacyFallback, hview]
  simp only [ok_bind, pure_bind_ok, hget, okOr]
  rfl

theorem branchCandidateFromTip_eq (hb : Known db b) (height : UInt64) :
    branchCandidateFromTip db b.blockHash height = .ok ⟨b.blockHash, height, heightScore b⟩ := by
  obtain ⟨m, hm, -, -, hscore⟩ := hb.graph
  rw [branchCandidateFromTip, hm]
  simp only [ok_bind, Option.map_some, Option.getD_some, hscore]
  rfl

theorem buildBranchPathFromHash_eq (hdepth : cfg.maxReorgDepth.toNat+1 < 2^64)
    (hknown : ∀ x ∈ seen, Known db x) (hb : b ∈ seen) {line : List Block}
    (hline : Line seen (cfg.maxReorgDepth.toNat+1) b line) :
    buildBranchPathFromHash cfg db b.blockHash = .ok (.complete (pathOf line)) := by
  rw [buildBranchPathFromHash, rejectIf_of_not _ (Nat.ne_of_lt hdepth), ok_bind,
    walkBranch_line hknown hline hb [], List.reverse_nil, List.nil_append]

/-- The shortcut for a block on top of the tip. -/
def OnTopOf (b t : Block) : Prop :=
  b.metadata.previousHash = t.blockHash ∧ b.metadata.index = saturatingAdd t.metadata.index 1

theorem onNewBlock_extends (ht : Known db t)
    (hview : db.getCanonicalTip = .ok (some ⟨t.blockHash, t.metadata.index⟩)) (h : OnTopOf b t) :
    onNewBlock cfg b db = .ok .stay := by
  obtain ⟨t', htip, -⟩ := loadCanonicalTipBlock_eq ht hview
  rw [onNewBlock, htip]
  exact if_pos h

/-- A known block that is not preferred is left aside. -/
theorem onNewBlock_stay (ht : Known db t) (hb : Known db b)
    (hview : db.getCanonicalTip = .ok (some ⟨t.blockHash, t.metadata.index⟩))
    (hne : b.blockHash ≠ t.blockHash) (h : ¬Preferred cfg b t) :
    onNewBlock cfg b db = .ok .stay := by
  obtain ⟨t', htip, -⟩ := loadCanonicalTipBlock_eq ht hview
  have hchoice := fun heq => h ((chooseTip_iff cfg hne).mp heq)
  rw [onNewBlock, htip]
  simp only [ok_bind, branchCandidateFromTip_eq ht, branchCandidateFromTip_eq hb]
  by_cases hext : OnTopOf b t
  · exact if_pos hext
  · exact (if_neg hext).trans (if_pos hchoice)

/-- A preferred block with a near common ancestor is planned for. -/
theorem onNewBlock_reorg (hgrown : Grown all seen) (hknown : ∀ x ∈ seen, Known db x) (ht : t ∈ seen)
    (hb : b ∈ seen) (hview : db.getCanonicalTip = .ok (some ⟨t.blockHash, t.metadata.index⟩))
    (hne : b.blockHash ≠ t.blockHash) (hdepth : cfg.maxReorgDepth.toNat+1 < 2^64)
    (hnear : WithinDepth all cfg.maxReorgDepth.toNat) (hext : ¬OnTopOf b t)
    (hpref : Preferred cfg b t) :
    ∃ plan, onNewBlock cfg b db = .ok (.reorg plan) ∧ PlanFor seen b plan := by
  obtain ⟨t', htip, htHash⟩ := loadCanonicalTipBlock_eq (hknown t ht) hview
  obtain ⟨newLine, hnewLine⟩ := hgrown.line (cfg.maxReorgDepth.toNat+1) hb
  obtain ⟨oldLine, holdLine⟩ := hgrown.line (cfg.maxReorgDepth.toNat+1) ht
  obtain ⟨c, m, n, hm, hn, habove, habove'⟩ := hnear b (hgrown.sub b hb) t (hgrown.sub t ht)
  have hcNew : c ∈ newLine :=
    hnewLine.above hgrown.sub hgrown.hashes habove (Nat.lt_succ_of_le hm)
  have hcOld : c ∈ oldLine :=
    holdLine.above hgrown.sub hgrown.hashes habove' (Nat.lt_succ_of_le hn)
  obtain ⟨plan, hplan, hfor⟩ := planReorg_eq hnewLine holdLine hb hne hcNew hcOld t.metadata.index
    t.blockHash
  refine ⟨plan, ?_, hfor⟩
  have hchoice := (chooseTip_iff cfg hne).mpr hpref
  have hnewPath := buildBranchPathFromHash_eq hdepth hknown hb hnewLine
  have holdPath := buildBranchPathFromHash_eq hdepth hknown ht holdLine
  rw [onNewBlock, htip]
  simp only [ok_bind, branchCandidateFromTip_eq (hknown t ht), branchCandidateFromTip_eq (hknown b hb),
    htHash, hnewPath, holdPath, hplan]
  exact (if_neg hext).trans (if_neg (not_not.mpr hchoice))

end Choice

/-! ### Following fork choice -/

/-- What every write of the run keeps. -/
structure Kept [Blake3] (seen : List Block) (db : RockDB) : Prop where
  known : ∀ x ∈ seen, Known db x
  writable : Writable db

section Follow
variable [Blake3] {db db' : RockDB} {seen : List Block}

theorem Kept.congr (h : Kept seen db) (hmeta : db'.column .blockMetaByHash = db.column .blockMetaByHash)
    (hblock : db'.column .blockToHash = db.column .blockToHash)
    (htx : db'.column .transaction = db.column .transaction)
    (hmint : db'.column .blockmintData = db.column .blockmintData) : Kept seen db' :=
  ⟨fun x hx => (h.known x hx).congr hmeta hblock, h.writable.congr htx hmint⟩

theorem Kept.setStatus (h : Kept seen db) {hash : Hash} {status : ForkBlockStatus}
    (hset : db.setBlockMetaStatus hash status = .ok db') : Kept seen db' := by
  refine ⟨fun x hx => (h.known x hx).setStatus hset, ?_⟩
  obtain ⟨m, -, rfl⟩ := RockDB.setBlockMetaStatus_inv hset
  exact h.writable.put (by decide) (by decide) _ _

theorem indexBlockByHash_inv {hash : Hash} {bytes : List UInt8}
    (h : db.indexBlockByHash hash bytes = .ok db') :
    ∃ canonical, db' = db.put .blockToHash hash.toList canonical := by
  rw [RockDB.indexBlockByHash, bind_eq_ok_iff] at h
  obtain ⟨block, -, h⟩ := h
  rw [bind_eq_ok_iff] at h
  obtain ⟨canonical, -, h⟩ := h
  exact ⟨canonical, ((pure_eq_ok_iff _ _).mp h).symm⟩

theorem Kept.preserveOldBlock (h : Kept seen db) (oldBlock : Option Block) :
    Kept seen (ReFork.preserveOldBlock oldBlock db) := by
  unfold ReFork.preserveOldBlock
  split
  · exact h
  · rename_i old
    split
    · exact h
    · rename_i hmissing
      split
      · exact h
      · split
        · rename_i db' hindex
          obtain ⟨canonical, rfl⟩ := indexBlockByHash_inv hindex
          refine ⟨?_, h.writable.put (by decide) (by decide) _ _⟩
          intro x hx
          -- Every known block is in the index already, so this one is another.
          apply (h.known x hx).put_other
          intro heq
          rw [heq, (h.known x hx).hasBlock] at hmissing
          exact hmissing rfl
        · exact h

theorem Kept.demote (h : Kept seen db) (hash : Hash) : Kept seen (ReFork.demote hash db) := by
  unfold ReFork.demote
  split
  · split
    · rename_i db' hset
      exact h.setStatus hset
    · exact h
  · exact h

theorem detachStep_ok (step : ReorgStep) (h : Kept seen db) :
    ∃ db', detachStep step db = .ok () db' ∧ Kept seen db' := by
  obtain ⟨oldBlock, hold⟩ := h.writable.heights step.height
  refine ⟨ReFork.demote step.hash (ReFork.preserveOldBlock oldBlock db), ?_, ?_⟩
  · simp only [detachStep, run_bind_eq_ok_iff, lift_eq_ok_iff]
    exact ⟨db, db, rfl, oldBlock, db, ⟨hold, rfl⟩, rfl⟩
  · exact (h.preserveOldBlock oldBlock).demote step.hash

theorem promote_ok {x : Block} (hx : x ∈ seen) (h : Kept seen db) :
    ∃ db', ReFork.promote x.blockHash db = .ok db' ∧ Kept seen db' := by
  obtain ⟨m, hm, -⟩ := (h.known x hx).graph
  have hset := RockDB.setBlockMetaStatus_ok hm .canonical
  refine ⟨_, ?_, h.setStatus hset⟩
  rw [ReFork.promote, if_pos (h.known x hx).hasMeta]
  exact hset

theorem attachStep_ok {x : Block} (hx : x ∈ seen) (h : Kept seen db) :
    ∃ db', attachStep ⟨x.metadata.index, x.blockHash⟩ db = .ok () db' ∧ Kept seen db' := by
  obtain ⟨x', bytes, hget, hmeta, hhash, hencoded⟩ := (h.known x hx).stored
  have hindex : db.indexBlockByHash x.blockHash bytes =
      .ok (db.put .blockToHash x.blockHash.toList bytes) :=
    RockDB.indexBlockByHash_ok hencoded.read hencoded.write x.blockHash
  let db₁ := db.put .blockToHash x.blockHash.toList bytes
  have hkept₁ : Kept seen db₁ :=
    ⟨fun y hy => (h.known y hy).put_again hget hencoded, h.writable.put (by decide) (by decide) _ _⟩
  obtain ⟨hstore, hwritable⟩ := hkept₁.writable.storeLatestBlock hencoded.write hencoded.read
    x.metadata.index
  let db₂ := db₁.put .blockmintData (RockDB.blockKey x.metadata.index) bytes
  have hkept₂ : Kept seen db₂ :=
    ⟨fun y hy => (hkept₁.known y hy).congr (RockDB.column_put_of_ne _ _ _ (by decide))
      (RockDB.column_put_of_ne _ _ _ (by decide)), hwritable⟩
  let db₃ := db₂.setCanonicalHashAtHeight x.metadata.index x.blockHash
  have hkept₃ : Kept seen db₃ :=
    hkept₂.congr (RockDB.column_put_of_ne _ _ _ (by decide))
      (RockDB.column_put_of_ne _ _ _ (by decide)) (RockDB.column_put_of_ne _ _ _ (by decide))
      (RockDB.column_put_of_ne _ _ _ (by decide))
  obtain ⟨db₄, hpromote, hkept₄⟩ := promote_ok hx hkept₃
  refine ⟨db₄, ?_, hkept₄⟩
  have hheight : ¬x'.metadata.index ≠ x.metadata.index := by
    rw [hmeta]
    exact not_not.mpr rfl
  simp only [attachStep, run_bind_eq_ok_iff, lift_eq_ok_iff, update_eq_ok_iff, okOr_eq_ok_iff,
    rejectIf_eq_ok_iff]
  exact ⟨db, db, rfl, x', db, ⟨hget, rfl⟩, (), db, ⟨hheight, rfl⟩, bytes, db,
    ⟨hencoded.write, rfl⟩, (), db₁, hindex, (), db₂, hstore, (), db₃, rfl, hpromote⟩

theorem Kept.setCanonicalTip (h : Kept seen db) (hash : Hash) (height : UInt64) :
    Kept seen (db.setCanonicalTip hash height) :=
  h.congr (RockDB.column_setCanonicalTip _ _ _ (by decide) (by decide))
    (RockDB.column_setCanonicalTip _ _ _ (by decide) (by decide))
    (RockDB.column_setCanonicalTip _ _ _ (by decide) (by decide))
    (RockDB.column_setCanonicalTip _ _ _ (by decide) (by decide))

/-- A plan along known blocks is carried out to its end. -/
theorem applyReorg_ok {b : Block} {plan : ReorgPlan} (hplan : PlanFor seen b plan)
    (h : Kept seen db) :
    ∃ db', applyReorg plan db = .ok () db' ∧ Kept seen db' ∧
      db'.getCanonicalTip = .ok (some ⟨b.blockHash, b.metadata.index⟩) := by
  obtain ⟨db₁, hdetach, hkept₁⟩ := forM_succeeds plan.detach
    (fun step _ db hdb => detachStep_ok step hdb) db h
  let db₂ := db₁.deleteCanonicalHashRange (saturatingAdd plan.commonAncestorHeight 1) plan.oldTipHeight
  have hkept₂ : Kept seen db₂ :=
    hkept₁.congr (RockDB.column_deleteCanonicalHashRange _ _ _ (by decide))
      (RockDB.column_deleteCanonicalHashRange _ _ _ (by decide))
      (RockDB.column_deleteCanonicalHashRange _ _ _ (by decide))
      (RockDB.column_deleteCanonicalHashRange _ _ _ (by decide))
  obtain ⟨db₃, hattach, hkept₃⟩ := forM_succeeds (P := Kept seen) plan.attach (by
    intro step hstep db hdb
    obtain ⟨x, hx, rfl⟩ := hplan.attach step hstep
    exact attachStep_ok hx hdb) db₂ hkept₂
  refine ⟨db₃.setCanonicalTip plan.newTipHash plan.newTipHeight, ?_, hkept₃.setCanonicalTip _ _, ?_⟩
  · rw [applyReorg, hplan.moves]
    simp only [Bool.false_eq_true, if_false, run_bind_eq_ok_iff]
    exact ⟨(), db₁, hdetach, (), db₂, rfl, (), db₃, hattach, rfl⟩
  · rw [RockDB.getCanonicalTip_setCanonicalTip, hplan.tipHash, hplan.tipHeight]

theorem appendToTip_ok {b : Block} (hb : b ∈ seen) {bytes : List UInt8} (hencoded : b.Encoded bytes)
    (h : Kept seen db) :
    ∃ db', appendToTip b db = .ok () db' ∧ Kept seen db' ∧
      db'.getCanonicalTip = .ok (some ⟨b.blockHash, b.metadata.index⟩) := by
  obtain ⟨hstore, hwritable⟩ := h.writable.storeLatestBlock hencoded.write hencoded.read
    b.metadata.index
  let db₁ := db.put .blockmintData (RockDB.blockKey b.metadata.index) bytes
  have hkept₁ : Kept seen db₁ :=
    ⟨fun y hy => (h.known y hy).congr (RockDB.column_put_of_ne _ _ _ (by decide))
      (RockDB.column_put_of_ne _ _ _ (by decide)), hwritable⟩
  let db₂ := db₁.setCanonicalHashAtHeight b.metadata.index b.blockHash
  have hkept₂ : Kept seen db₂ :=
    hkept₁.congr (RockDB.column_put_of_ne _ _ _ (by decide))
      (RockDB.column_put_of_ne _ _ _ (by decide)) (RockDB.column_put_of_ne _ _ _ (by decide))
      (RockDB.column_put_of_ne _ _ _ (by decide))
  obtain ⟨m, hm, -⟩ := (hkept₂.known b hb).graph
  have hset := RockDB.setBlockMetaStatus_ok hm .canonical
  refine ⟨_, ?_, (hkept₂.setStatus hset).setCanonicalTip b.blockHash b.metadata.index,
    RockDB.getCanonicalTip_setCanonicalTip _ _ _⟩
  simp only [appendToTip, promoteToTip, run_bind_eq_ok_iff, lift_eq_ok_iff, update_eq_ok_iff]
  exact ⟨bytes, db, ⟨hencoded.write, rfl⟩, (), db₁, hstore, (), db₂, rfl, (), _, hset, rfl⟩

end Follow

/-! ### One delivery -/

theorem saturatingSucc_ofNat (n : ℕ) (h : n < 2^64) :
    saturatingSucc (BitVec.ofNat 128 n) = BitVec.ofNat 128 (n+1) := by
  have hne : BitVec.ofNat 128 n ≠ BitVec.allOnes 128 := by
    intro heq
    have hnat := congrArg BitVec.toNat heq
    rw [BitVec.toNat_ofNat, Nat.mod_eq_of_lt (by omega), BitVec.toNat_allOnes] at hnat
    omega
  rw [saturatingSucc, if_neg hne]
  apply BitVec.eq_of_toNat_eq
  rw [BitVec.toNat_add, BitVec.toNat_ofNat, BitVec.toNat_ofNat]
  simp

theorem ParentOf.index_ne_zero {p b : Block} (h : ParentOf p b) : b.metadata.index ≠ 0 := by
  intro hzero
  have hheight := h.2
  rw [hzero] at hheight
  exact absurd hheight.symm (Nat.succ_ne_zero _)

theorem extendsTip_iff {b t : Block} :
    extendsTip b (some ⟨t.blockHash, t.metadata.index⟩) = true ↔ OnTopOf b t := by
  rw [extendsTip, decide_eq_true_eq, OnTopOf]

/-- A block on top of the tip is higher than the tip. -/
theorem OnTopOf.preferred {p b t : Block} (h : OnTopOf b t) (hp : ParentOf p b)
    (hsame : p.blockHash = t.blockHash → p = t) (cfg : ReForkConfig) : Preferred cfg b t := by
  have hpt : p = t := hsame (hp.1.trans h.1)
  refine .inl (UInt64.lt_iff_toNat_lt.mpr ?_)
  have hheight := hp.2
  rw [hpt] at hheight
  omega

section Delivery
variable [Blake3] {cfg : ReForkConfig} {db : RockDB} {all seen : List Block} {b t : Block}

theorem Known.store_other (h : Known db b) {hash : Hash} (hne : hash ≠ b.blockHash)
    (m : ForkBlockMeta) : Known (db.storeBlockMetaByHash hash m) b where
  graph := by
    rw [RockDB.getBlockMetaByHash_store, if_neg hne]
    exact h.graph
  stored := by
    have hcolumn : (db.storeBlockMetaByHash hash m).column .blockToHash = db.column .blockToHash :=
      RockDB.column_put_of_ne _ _ _ (by decide)
    rw [RockDB.getBlockByHash_congr hcolumn]
    exact h.stored

/-- A new block with its height as score becomes known, and nothing else changes for fork
choice. -/
theorem putBlockAndMeta_ok {m : ForkBlockMeta} {bytes : List UInt8} (h : Kept seen db)
    (hfresh : ∀ x ∈ seen, b.blockHash ≠ x.blockHash) (hbytes : b.serializeForStorage = .ok bytes)
    (hparent : m.parentHash = b.metadata.previousHash) (hheight : m.height = b.metadata.index)
    (hscore : m.cumulativeScore = heightScore b) :
    ∃ db', ReorgBlockIndex.putBlockAndMeta b m db = .ok db' ∧ Kept (b :: seen) db' ∧
      db'.getCanonicalTip = db.getCanonicalTip := by
  obtain ⟨b', bytes', hread, hmeta, hhash, hwrite', hread'⟩ := Block.stored hbytes
  let db₁ := db.put .blockToHash b.blockHash.toList bytes'
  have hindex : db.indexBlockByHash b.blockHash bytes = .ok db₁ :=
    RockDB.indexBlockByHash_ok hread hwrite' b.blockHash
  refine ⟨db₁.storeBlockMetaByHash b.blockHash m, ?_, ⟨?_, ?_⟩, ?_⟩
  · rw [ReorgBlockIndex.putBlockAndMeta, hbytes, ok_bind, RockDB.ingestForkBlock, hindex]
    rfl
  · intro x hx
    rcases List.mem_cons.mp hx with rfl | hx
    · refine ⟨⟨m, ?_, hparent, hheight, hscore⟩, ⟨b', bytes', ?_, hmeta, hhash, hwrite', hread'⟩⟩
      · rw [RockDB.getBlockMetaByHash_store, if_pos rfl]
      · have hcolumn : (db₁.storeBlockMetaByHash x.blockHash m).column .blockToHash =
            db₁.column .blockToHash := RockDB.column_put_of_ne _ _ _ (by decide)
        rw [RockDB.getBlockByHash_congr hcolumn, RockDB.getBlockByHash_put db hread', if_pos rfl]
    · exact ((h.known x hx).put_other (hfresh x hx) bytes').store_other (hfresh x hx) m
  · exact (h.writable.put (by decide) (by decide) _ _).put (by decide) (by decide) _ _
  · apply RockDB.getCanonicalTip_congr
    rw [RockDB.storeBlockMetaByHash, RockDB.column_put_of_ne _ _ _ (by decide),
      RockDB.column_put_of_ne _ _ _ (by decide)]

theorem persistSync_ok {p : Block} {clock : Int64} {bytes : List UInt8} (h : Kept seen db)
    (hp : p ∈ seen) (hlink : ParentOf p b) (hfresh : ∀ x ∈ seen, b.blockHash ≠ x.blockHash)
    (hbytes : b.serializeForStorage = .ok bytes) (hclock : succeeds (nowUnixSecsRuntime clock) = true) :
    ∃ db', persistSyncBlockIntoReorgGraph clock b db = .ok db' ∧ Kept (b :: seen) db' ∧
      db'.getCanonicalTip = db.getCanonicalTip := by
  obtain ⟨now, hnow⟩ := (succeeds_iff _).mp hclock
  obtain ⟨mp, hmp, -, -, hscore⟩ := (h.known p hp).graph
  -- The score of the parent is its height, so the score of the child is its own.
  have hscore' : (forkMeta b (receivedScore b (some mp)) now).cumulativeScore = heightScore b := by
    change saturatingSucc mp.cumulativeScore = _
    rw [hscore, saturatingSucc_ofNat _ p.metadata.index.toNat_lt, heightScore, hlink.2]
  obtain ⟨db', hput, hkept, htip⟩ := putBlockAndMeta_ok h hfresh hbytes rfl rfl hscore'
  refine ⟨db', ?_, hkept, htip⟩
  rw [persistSyncBlockIntoReorgGraph, ← hlink.1, hmp, ok_bind, hnow, ok_bind]
  exact hput

/-- The node after some deliveries: it knows the blocks, and none of them is preferred to its
tip. -/
structure TipSettled (cfg : ReForkConfig) (all seen : List Block) (t : Block) (db : RockDB) : Prop where
  grown : Grown all seen
  kept : Kept seen db
  tip : t ∈ seen
  view : db.getCanonicalTip = .ok (some ⟨t.blockHash, t.metadata.index⟩)
  best : ∀ x ∈ seen, ¬Preferred cfg x t

/-- A block that may come next. -/
structure Deliverable (all seen : List Block) (b : Block) : Prop where
  mem : b ∈ all
  fresh : ∀ x ∈ seen, b.blockHash ≠ x.blockHash
  storable : succeeds b.serializeForStorage = true
  parent : ∃ p ∈ seen, ParentOf p b

/-- A valid block above genesis names a parent. -/
theorem previousHash_ne_zero {bytes : List UInt8} (h : b.serializeForStorage = .ok bytes)
    (hindex : b.metadata.index ≠ 0) : b.metadata.previousHash ≠ zeroHash := by
  obtain ⟨hvalid, -, -⟩ := Block.serializeForStorage_ok.mp h
  obtain ⟨hstruct, -⟩ := Block.validate_ok hvalid
  simp only [BlockMetadata.validateStructural, if_neg hindex, BlockMetadata.validateNonGenesis,
    bind_eq_ok_iff, rejectIf_eq_ok_iff] at hstruct
  obtain ⟨-, -, -, -, -, -, -, -, -, -, -, hprev, -⟩ := hstruct
  exact hprev

theorem Grown.add (h : Grown all seen) (hb : Deliverable all seen b) : Grown all (b :: seen) where
  sub := by
    intro x hx
    rcases List.mem_cons.mp hx with rfl | hx
    · exact hb.mem
    · exact h.sub x hx
  hashes := h.hashes
  linked := by
    intro x hx
    rcases List.mem_cons.mp hx with rfl | hx
    · obtain ⟨p, hp, hlink⟩ := hb.parent
      obtain ⟨bytes, hbytes⟩ := (succeeds_iff _).mp hb.storable
      exact .inr ⟨previousHash_ne_zero hbytes hlink.index_ne_zero, p, List.mem_cons_of_mem x hp, hlink⟩
    · rcases h.linked x hx with hroot | ⟨hzero, p, hp, hlink⟩
      · exact .inl hroot
      · exact .inr ⟨hzero, p, List.mem_cons_of_mem b hp, hlink⟩

theorem TipSettled.switch {db' : RockDB} (h : TipSettled cfg all seen t db) (hb : Deliverable all seen b)
    (hpref : Preferred cfg b t) (hkept : Kept (b :: seen) db')
    (hview : db'.getCanonicalTip = .ok (some ⟨b.blockHash, b.metadata.index⟩)) :
    TipSettled cfg all (b :: seen) b db' := by
  refine ⟨h.grown.add hb, hkept, List.mem_cons_self, hview, ?_⟩
  intro x hx hxb
  rcases List.mem_cons.mp hx with rfl | hx
  · exact preferred_irrefl cfg x hxb
  · exact h.best x hx (preferred_trans hxb hpref)

theorem TipSettled.stay {db' : RockDB} (h : TipSettled cfg all seen t db) (hb : Deliverable all seen b)
    (hpref : ¬Preferred cfg b t) (hkept : Kept (b :: seen) db')
    (hview : db'.getCanonicalTip = .ok (some ⟨t.blockHash, t.metadata.index⟩)) :
    TipSettled cfg all (b :: seen) t db' := by
  refine ⟨h.grown.add hb, hkept, List.mem_cons_of_mem b h.tip, hview, ?_⟩
  intro x hx
  rcases List.mem_cons.mp hx with rfl | hx
  · exact hpref
  · exact h.best x hx

/-- A block of a settled node enters the fork graph without moving the tip. -/
theorem persisted_settled {clock : Int64} (h : TipSettled cfg all seen t db)
    (hb : Deliverable all seen b) (hclock : succeeds (nowUnixSecsRuntime clock) = true) :
    ∃ db₁, persistSyncBlockIntoReorgGraph clock b db = .ok db₁ ∧ Kept (b :: seen) db₁ ∧
      db₁.getCanonicalTip = .ok (some ⟨t.blockHash, t.metadata.index⟩) := by
  obtain ⟨bytes, hbytes⟩ := (succeeds_iff _).mp hb.storable
  obtain ⟨p, hp, hlink⟩ := hb.parent
  obtain ⟨db₁, hpersist, hkept, htip⟩ := persistSync_ok h.kept hp hlink hb.fresh hbytes hclock
  exact ⟨db₁, hpersist, hkept, htip.trans h.view⟩

/-- What is left after that is to follow the action. -/
theorem deliver_of_persisted (cfg : ReForkConfig) {clock : Int64} {db₁ : RockDB}
    (hpersist : persistSyncBlockIntoReorgGraph clock b db = .ok db₁)
    (hview : db₁.getCanonicalTip = .ok (some ⟨t.blockHash, t.metadata.index⟩)) :
    deliver cfg (clock, b) db = match onNewBlock cfg b db₁ with
      | .ok action => follow b action (some ⟨t.blockHash, t.metadata.index⟩) db₁
      | .error e => .error e db₁ := by
  have hlegacy : ReorgChainView.getTipWithLegacyFallback db₁ =
      .ok (some ⟨t.blockHash, t.metadata.index⟩) := by
    rw [ReorgChainView.getTipWithLegacyFallback, hview]
    rfl
  have hupdate : update (persistSyncBlockIntoReorgGraph clock b) db = .ok () db₁ :=
    (update_eq_ok_iff _ _ _ _).mpr hpersist
  rw [deliver, bind_run, hupdate]
  change (lift (onNewBlock cfg b db₁) >>= _) db₁ = _
  rw [bind_run]
  cases onNewBlock cfg b db₁ with
  | error e => rfl
  | ok action =>
    change (lift (ReorgChainView.getTipWithLegacyFallback db₁) >>= _) db₁ = _
    rw [bind_run, hlegacy]
    rfl

/-- A block on top of the tip is appended, however deep branches may be. -/
theorem deliver_extends {clock : Int64} (h : TipSettled cfg all seen t db)
    (hb : Deliverable all seen b) (hclock : succeeds (nowUnixSecsRuntime clock) = true)
    (hext : OnTopOf b t) :
    ∃ db', deliver cfg (clock, b) db = .ok () db' ∧ TipSettled cfg all (b :: seen) b db' := by
  obtain ⟨bytes, hbytes⟩ := (succeeds_iff _).mp hb.storable
  obtain ⟨p, hp, hlink⟩ := hb.parent
  obtain ⟨db₁, hpersist, hkept, hview⟩ := persisted_settled h hb hclock
  have hknown : Known db₁ t := hkept.known t (List.mem_cons_of_mem b h.tip)
  have hencoded : b.Encoded bytes :=
    ⟨hbytes, Block.deserialize_serialize hbytes hlink.index_ne_zero⟩
  obtain ⟨db₂, happend, hkept₂, hview₂⟩ := appendToTip_ok List.mem_cons_self hencoded hkept
  have hpref : Preferred cfg b t :=
    hext.preferred hlink (h.grown.hashes p (h.grown.sub p hp) t (h.grown.sub t h.tip)) cfg
  refine ⟨db₂, ?_, h.switch hb hpref hkept₂ hview₂⟩
  rw [deliver_of_persisted cfg hpersist hview, onNewBlock_extends hknown hview hext]
  change follow b .stay _ db₁ = _
  rw [follow, if_pos (extendsTip_iff.mpr hext)]
  exact happend

/-- One delivery leaves the node settled on the better of its tip and the new block. -/
theorem deliver_settled {clock : Int64} (hdepth : cfg.maxReorgDepth.toNat+1 < 2^64)
    (hnear : WithinDepth all cfg.maxReorgDepth.toNat) (h : TipSettled cfg all seen t db)
    (hb : Deliverable all seen b) (hclock : succeeds (nowUnixSecsRuntime clock) = true) :
    ∃ t' db', deliver cfg (clock, b) db = .ok () db' ∧ TipSettled cfg all (b :: seen) t' db' := by
  by_cases hext : OnTopOf b t
  · obtain ⟨db', hrun, hsettled⟩ := deliver_extends h hb hclock hext
    exact ⟨b, db', hrun, hsettled⟩
  · obtain ⟨db₁, hpersist, hkept, hview⟩ := persisted_settled h hb hclock
    have hrun := deliver_of_persisted cfg hpersist hview
    by_cases hpref : Preferred cfg b t
    · obtain ⟨plan, haction, hplan⟩ := onNewBlock_reorg (h.grown.add hb) hkept.known
        (List.mem_cons_of_mem b h.tip) List.mem_cons_self hview (hb.fresh t h.tip) hdepth hnear hext
        hpref
      obtain ⟨db₂, happly, hkept₂, hview₂⟩ := applyReorg_ok hplan hkept
      rw [haction] at hrun
      exact ⟨b, db₂, hrun.trans happly, h.switch hb hpref hkept₂ hview₂⟩
    · have hstay := onNewBlock_stay (hkept.known t (List.mem_cons_of_mem b h.tip))
        (hkept.known b List.mem_cons_self) hview (hb.fresh t h.tip) hpref
      rw [hstay] at hrun
      refine ⟨t, db₁, hrun.trans ?_, h.stay hb hpref hkept hview⟩
      change follow b .stay _ db₁ = _
      rw [follow, if_neg fun heq => hext (extendsTip_iff.mp heq)]
      rfl

/-- With the greatest depth the walk along a branch is refused. -/
theorem deliver_refused {clock : Int64} (hdepth : cfg.maxReorgDepth.toNat+1 = 2^64)
    (h : TipSettled cfg all seen t db) (hb : Deliverable all seen b)
    (hclock : succeeds (nowUnixSecsRuntime clock) = true) (hext : ¬OnTopOf b t)
    (hpref : Preferred cfg b t) : ∃ e db₁, deliver cfg (clock, b) db = .error e db₁ := by
  obtain ⟨db₁, hpersist, hkept, hview⟩ := persisted_settled h hb hclock
  have hknownT : Known db₁ t := hkept.known t (List.mem_cons_of_mem b h.tip)
  have hknownB : Known db₁ b := hkept.known b List.mem_cons_self
  obtain ⟨t', htip, -⟩ := loadCanonicalTipBlock_eq hknownT hview
  have hchoice := (chooseTip_iff cfg (hb.fresh t h.tip)).mpr hpref
  obtain ⟨e, he⟩ : ∃ e, onNewBlock cfg b db₁ = .error e := by
    have hbuild : buildBranchPathFromHash cfg db₁ b.blockHash = .error (.blockchainError
        s!"max_reorg_depth overflow when adding 1: {cfg.maxReorgDepth}") := by
      rw [buildBranchPathFromHash, rejectIf, if_pos hdepth]
      rfl
    rw [onNewBlock, htip]
    simp only [ok_bind, branchCandidateFromTip_eq hknownT, branchCandidateFromTip_eq hknownB, hbuild]
    exact ⟨_, (if_neg hext).trans (if_neg (not_not.mpr hchoice))⟩
  refine ⟨e, db₁, ?_⟩
  rw [deliver_of_persisted cfg hpersist hview, he]

/-! ### Whole runs -/

theorem deliverAll_cons (m : Int64 × Block) (messages : List (Int64 × Block)) (db : RockDB) :
    deliverAll cfg (m :: messages) db = match deliver cfg m db with
      | .ok _ db' => deliverAll cfg messages db'
      | .error e db' => .error e db' := by
  change (deliver cfg m >>= fun _ => messages.forM (deliver cfg)) db = _
  rw [bind_run]
  cases deliver cfg m db <;> rfl

theorem deliverAll_settled (hdepth : cfg.maxReorgDepth.toNat+1 < 2^64)
    (hnear : WithinDepth all cfg.maxReorgDepth.toNat) (messages : List (Int64 × Block))
    (hclock : ∀ m ∈ messages, succeeds (nowUnixSecsRuntime m.1) = true)
    (hmem : ∀ m ∈ messages, m.2 ∈ all)
    (hstorable : ∀ x ∈ all, succeeds x.serializeForStorage = true)
    (horder : ParentsFirst seen (messages.map Prod.snd))
    (hnodup : ((messages.map Prod.snd).map Block.blockHash).Nodup)
    (hfresh : ∀ m ∈ messages, ∀ x ∈ seen, m.2.blockHash ≠ x.blockHash)
    (h : TipSettled cfg all seen t db) :
    ∃ t' db', deliverAll cfg messages db = .ok () db' ∧
      TipSettled cfg all ((messages.map Prod.snd).reverse ++ seen) t' db' := by
  induction messages generalizing seen t db with
  | nil => exact ⟨t, db, rfl, h⟩
  | cons m messages ih =>
    obtain ⟨hparent, horder⟩ := horder
    obtain ⟨hnot, hnodup⟩ := List.nodup_cons.mp hnodup
    have hb : Deliverable all seen m.2 :=
      ⟨hmem m List.mem_cons_self, hfresh m List.mem_cons_self,
        hstorable m.2 (hmem m List.mem_cons_self), hparent⟩
    obtain ⟨t₁, db₁, hrun, hsettled⟩ := deliver_settled hdepth hnear h hb
      (hclock m List.mem_cons_self)
    have hfresh' : ∀ m' ∈ messages, ∀ x ∈ m.2 :: seen, m'.2.blockHash ≠ x.blockHash := by
      intro m' hm' x hx
      rcases List.mem_cons.mp hx with rfl | hx
      · intro heq
        apply hnot
        rw [← heq]
        exact List.mem_map_of_mem (List.mem_map_of_mem hm')
      · exact hfresh m' (List.mem_cons_of_mem m hm') x hx
    obtain ⟨t', db', hrest, hfinal⟩ := ih (fun m' hm' => hclock m' (List.mem_cons_of_mem m hm'))
      (fun m' hm' => hmem m' (List.mem_cons_of_mem m hm')) horder hnodup hfresh' hsettled
    refine ⟨t', db', ?_, ?_⟩
    · rw [deliverAll_cons, show deliver cfg m db = .ok () db₁ from hrun]
      exact hrest
    · rw [List.map_cons, List.reverse_cons, List.append_assoc]
      exact hfinal

/-- A fresh node that has adopted a genesis block is settled on it. -/
theorem adoptGenesis_settled {root : Block} {clock : Int64} {bytes : List UInt8}
    (hgrown : Grown all [root]) (hgenesis : root.metadata.index = 0)
    (hbytes : root.serializeForStorage = .ok bytes)
    (hclock : succeeds (nowUnixSecsRuntime clock) = true) :
    TipSettled cfg all [root] root (adoptGenesis clock root bytes RockDB.empty) := by
  obtain ⟨root', bytes', hread, -, -, hwrite', -⟩ := Block.stored hbytes
  obtain ⟨now, hnow⟩ := (succeeds_iff _).mp hclock
  have hempty : Writable RockDB.empty := by
    refine ⟨rfl, fun height => ⟨none, ?_⟩⟩
    rw [RockDB.getBlockByIndex, show RockDB.empty.read .blockmintData (RockDB.blockKey height) = none
      from Std.ExtTreeMap.getElem?_empty]
  -- The writes before the block enters the fork graph.
  obtain ⟨hstore, hwritable⟩ := hempty.storeLatestBlock hbytes hread root.metadata.index
  let db₁ := RockDB.empty.put .blockmintData (RockDB.blockKey root.metadata.index) bytes
  let db₂ := db₁.put .blockToHash root.blockHash.toList bytes'
  have hindex : db₁.indexBlockByHash root.blockHash bytes = .ok db₂ :=
    RockDB.indexBlockByHash_ok hread hwrite' root.blockHash
  let db₃ := ((db₂.setLatestBlockIndex root.metadata.index).setTipHeight 0).setAddrIndexHeight 0
  have hkept₃ : Kept [] db₃ := by
    refine ⟨fun x hx => absurd hx List.not_mem_nil, ?_⟩
    have hwritable₂ : Writable db₂ := hwritable.put (by decide) (by decide) _ _
    exact (((hwritable₂.put (by decide) (by decide) _ _).put (by decide) (by decide) _ _).put
      (by decide) (by decide) _ _).put (by decide) (by decide) _ _
  -- No block is known yet, so the block starts the scores.
  have hparent : db₃.getBlockMetaByHash root.metadata.previousHash = .ok none := by
    have hcolumn : db₃.column .blockMetaByHash = ∅ := rfl
    rw [RockDB.getBlockMetaByHash, RockDB.read, hcolumn, Std.ExtTreeMap.getElem?_empty]
  have hscore : (forkMeta root (receivedScore root none) now).cumulativeScore = heightScore root := by
    rw [forkMeta, receivedScore, if_pos (.inl hgenesis), heightScore, hgenesis]
    rfl
  obtain ⟨db₄, hput, hkept₄, -⟩ := putBlockAndMeta_ok hkept₃ (fun x hx => absurd hx List.not_mem_nil)
    hbytes rfl rfl hscore
  have hpersist : persistSyncBlockIntoReorgGraph clock root db₃ = .ok db₄ := by
    rw [persistSyncBlockIntoReorgGraph, hparent, ok_bind, hnow, ok_bind]
    exact hput
  obtain ⟨m, hm, -⟩ := (hkept₄.known root List.mem_cons_self).graph
  have hset := RockDB.setBlockMetaStatus_ok hm .canonical
  have hkept₅ := hkept₄.setStatus hset
  let db₆ := (db₄.storeBlockMetaByHash root.blockHash
    { m with status := .canonical }).setCanonicalHashAtHeight 0 root.blockHash
  have hkept₆ : Kept [root] db₆ :=
    hkept₅.congr (RockDB.column_put_of_ne _ _ _ (by decide))
      (RockDB.column_put_of_ne _ _ _ (by decide)) (RockDB.column_put_of_ne _ _ _ (by decide))
      (RockDB.column_put_of_ne _ _ _ (by decide))
  have hadopt : adoptGenesis clock root bytes RockDB.empty = db₆.setCanonicalTip root.blockHash 0 := by
    have hfirst : attemptUpdate (fun db => db.storeLatestBlock bytes root.metadata.index)
        RockDB.empty = db₁ := by
      rw [attemptUpdate, hstore]
    have hsecond : attemptUpdate (fun db => db.indexBlockByHash root.blockHash bytes) db₁ = db₂ := by
      rw [attemptUpdate, hindex]
    have hthird : attemptUpdate (ReorgBlockIndex.markCanonical root.blockHash) db₄ =
        db₄.storeBlockMetaByHash root.blockHash { m with status := .canonical } := by
      rw [attemptUpdate, ReorgBlockIndex.markCanonical, hset]
    rw [adoptGenesis, hfirst, hsecond, show persistSyncBlockIntoReorgGraph clock root
      (((db₂.setLatestBlockIndex root.metadata.index).setTipHeight 0).setAddrIndexHeight 0) = _
      from hpersist]
    simp only [hthird]
    rfl
  rw [hadopt]
  refine ⟨hgrown, hkept₆.setCanonicalTip root.blockHash 0, List.mem_cons_self, ?_, ?_⟩
  · rw [RockDB.getCanonicalTip_setCanonicalTip, hgenesis]
  · intro x hx
    rw [List.mem_singleton.mp hx]
    exact preferred_irrefl cfg root

end Delivery

/-- An order in which a node can receive the blocks of a tree, with its clock at each. -/
structure DeliveryOrder (root : Block) (blocks : List Block) (order : List (Int64 × Block)) : Prop where
  blocks : (order.map Prod.snd).Perm blocks
  parentsFirst : ParentsFirst [root] (order.map Prod.snd)
  clock : ∀ m ∈ order, succeeds (nowUnixSecsRuntime m.1) = true

/-- The node that adopted the root of a tree is settled on it. -/
theorem BlockTree.start [Blake3] (cfg : ReForkConfig) {root : Block} {blocks : List Block}
    {clock : Int64} {bytes : List UInt8} (htree : BlockTree root blocks)
    (hbytes : root.serializeForStorage = .ok bytes)
    (hclock : succeeds (nowUnixSecsRuntime clock) = true) :
    TipSettled cfg (root :: blocks) [root] root (adoptGenesis clock root bytes RockDB.empty) := by
  have hgrown : Grown (root :: blocks) [root] := by
    refine ⟨?_, fun x hx y hy hxy => List.inj_on_of_nodup_map htree.hashes hx hy hxy, ?_⟩
    · intro x hx
      rw [List.mem_singleton.mp hx]
      exact List.mem_cons_self
    · intro x hx
      rw [List.mem_singleton.mp hx]
      exact .inl htree.genesis
  exact adoptGenesis_settled hgrown htree.genesis hbytes hclock

/-- The node that adopted the root is settled on the whole tree after any order. -/
theorem deliverAll_tree [Blake3] {cfg : ReForkConfig} {root : Block} {blocks : List Block}
    {clock : Int64} {bytes : List UInt8} {order : List (Int64 × Block)} (htree : BlockTree root blocks)
    (hdepth : cfg.maxReorgDepth.toNat+1 < 2^64)
    (hnear : WithinDepth (root :: blocks) cfg.maxReorgDepth.toNat)
    (hbytes : root.serializeForStorage = .ok bytes)
    (hclock : succeeds (nowUnixSecsRuntime clock) = true) (horder : DeliveryOrder root blocks order) :
    ∃ t db, deliverAll cfg order (adoptGenesis clock root bytes RockDB.empty) = .ok () db ∧
      t ∈ root :: blocks ∧ db.getCanonicalTip = .ok (some ⟨t.blockHash, t.metadata.index⟩) ∧
      ∀ b ∈ root :: blocks, ¬Preferred cfg b t := by
  obtain ⟨hrootFresh, hnodup⟩ := List.nodup_cons.mp htree.hashes
  have hmem : ∀ m ∈ order, m.2 ∈ blocks := by
    intro m hm
    exact horder.blocks.subset (List.mem_map_of_mem hm)
  have hstart := htree.start cfg hbytes hclock
  obtain ⟨t, db, hrun, hsettled⟩ := deliverAll_settled hdepth hnear order horder.clock
    (fun m hm => List.mem_cons_of_mem root (hmem m hm)) htree.storable horder.parentsFirst
    ((horder.blocks.map Block.blockHash).nodup_iff.mpr hnodup) (by
      intro m hm x hx heq
      rw [List.mem_singleton.mp hx] at heq
      apply hrootFresh
      rw [← heq]
      exact List.mem_map_of_mem (hmem m hm)) hstart
  refine ⟨t, db, hrun, hsettled.grown.sub t hsettled.tip, hsettled.view, ?_⟩
  intro b hb
  apply hsettled.best b
  rcases List.mem_cons.mp hb with rfl | hb
  · exact List.mem_append_right _ List.mem_cons_self
  · exact List.mem_append_left _ (List.mem_reverse.mpr (horder.blocks.mem_iff.mpr hb))

/-- Fork choice converges: any two orders lead to tips of the same, maximal height, and to the
same tip where ties are broken. -/
theorem forkChoice_converges [Blake3] (cfg : ReForkConfig) (root : Block) (blocks : List Block)
    (clock : Int64) (bytes : List UInt8) (order₁ order₂ : List (Int64 × Block))
    (htree : BlockTree root blocks) (hdepth : cfg.maxReorgDepth.toNat+1 < 2^64)
    (hnear : WithinDepth (root :: blocks) cfg.maxReorgDepth.toNat)
    (hbytes : root.serializeForStorage = .ok bytes)
    (hclock : succeeds (nowUnixSecsRuntime clock) = true)
    (horder₁ : DeliveryOrder root blocks order₁) (horder₂ : DeliveryOrder root blocks order₂) :
    ∃ t₁ t₂ db₁ db₂,
      deliverAll cfg order₁ (adoptGenesis clock root bytes RockDB.empty) = .ok () db₁ ∧
      deliverAll cfg order₂ (adoptGenesis clock root bytes RockDB.empty) = .ok () db₂ ∧
      db₁.getCanonicalTip = .ok (some ⟨t₁.blockHash, t₁.metadata.index⟩) ∧
      db₂.getCanonicalTip = .ok (some ⟨t₂.blockHash, t₂.metadata.index⟩) ∧
      t₁ ∈ root :: blocks ∧ t₂ ∈ root :: blocks ∧
      (∀ b ∈ root :: blocks, b.metadata.index ≤ t₁.metadata.index) ∧
      t₁.metadata.index = t₂.metadata.index ∧
      (cfg.allowEqualHeightReorg = true → t₁.blockHash = t₂.blockHash) := by
  obtain ⟨t₁, db₁, hrun₁, hmem₁, hview₁, hbest₁⟩ :=
    deliverAll_tree htree hdepth hnear hbytes hclock horder₁
  obtain ⟨t₂, db₂, hrun₂, hmem₂, hview₂, hbest₂⟩ :=
    deliverAll_tree htree hdepth hnear hbytes hclock horder₂
  obtain ⟨hheight, hhash⟩ := eq_of_not_preferred (hbest₂ t₁ hmem₁) (hbest₁ t₂ hmem₂)
  refine ⟨t₁, t₂, db₁, db₂, hrun₁, hrun₂, hview₁, hview₂, hmem₁, hmem₂, ?_, hheight, hhash⟩
  intro b hb
  exact UInt64.not_lt.mp fun hlt => hbest₁ b hb (.inl hlt)

/-! ### Two blocks on one genesis block -/

namespace Sample

def siblings : List Block := [emptyBlock1, block1]

def clock : Int64 := 1700000100

theorem siblings_storable : ∀ b ∈ block0 :: siblings,
    succeeds (@Block.serializeForStorage Blake3.reference b) = true := by
  intro b hb
  have hsigned : Signed b := by
    rcases List.mem_cons.mp hb with rfl | hb
    · exact signed_block0
    · rcases List.mem_cons.mp hb with rfl | hb
      · exact signed_emptyBlock1
      · exact List.mem_singleton.mp hb ▸ signed_block1
  exact (succeeds_iff _).mpr ⟨_, hsigned.stored.1⟩

theorem siblings_linked : ∀ b ∈ siblings, ParentOf block0 b := by
  intro b hb
  rcases List.mem_cons.mp hb with rfl | hb
  · exact ⟨rfl, rfl⟩
  · rw [List.mem_singleton.mp hb]
    exact ⟨rfl, rfl⟩

theorem siblings_tree : @BlockTree Blake3.reference block0 siblings := by
  let : Blake3 := Blake3.reference
  refine ⟨siblings_storable, by decide +kernel, rfl, ?_⟩
  intro b hb
  exact ⟨block0, List.mem_cons_self, siblings_linked b hb⟩

theorem siblings_near {depth : ℕ} (h : 1 ≤ depth) : WithinDepth (block0 :: siblings) depth := by
  have habove : ∀ x ∈ block0 :: siblings, ∃ m, m ≤ depth ∧ Above (block0 :: siblings) m block0 x := by
    intro x hx
    rcases List.mem_cons.mp hx with rfl | hx
    · exact ⟨0, Nat.zero_le _, .here _⟩
    · exact ⟨1, h, .up List.mem_cons_self (siblings_linked x hx) (.here _)⟩
  intro x hx y hy
  obtain ⟨m, hm, hxm⟩ := habove x hx
  obtain ⟨n, hn, hyn⟩ := habove y hy
  exact ⟨block0, m, n, hm, hn, hxm, hyn⟩

theorem deliveryOrder_of_perm {order : List Block} (h : order.Perm siblings) :
    DeliveryOrder block0 siblings (order.map fun b => (clock, b)) where
  blocks := by
    rw [List.map_map]
    exact (List.map_id order).symm ▸ h
  parentsFirst := by
    rw [List.map_map]
    have hall : ∀ b ∈ order, ParentOf block0 b := fun b hb => siblings_linked b (h.subset hb)
    have hfirst : ∀ seen : List Block, block0 ∈ seen → ParentsFirst seen order := by
      clear h
      induction order with
      | nil => exact fun _ _ => trivial
      | cons b rest ih =>
        intro seen hseen
        exact ⟨⟨block0, hseen, hall b List.mem_cons_self⟩,
          ih (fun x hx => hall x (List.mem_cons_of_mem b hx)) _ (List.mem_cons_of_mem b hseen)⟩
    exact (List.map_id order).symm ▸ hfirst [block0] List.mem_cons_self
  clock := by
    intro m hm
    obtain ⟨b, -, rfl⟩ := List.mem_map.mp hm
    exact show succeeds (nowUnixSecsRuntime clock) = true by decide +kernel

theorem block0_stored :
    @Block.serializeForStorage Blake3.reference block0 = .ok (Block.codec.enc block0) :=
  signed_block0.stored.1

/-- A node that has adopted the genesis block. -/
def genesisNode [Blake3] : RockDB :=
  adoptGenesis clock block0 (Block.codec.enc block0) RockDB.empty

/-- A configuration that asks for the greatest depth and breaks ties. -/
def greatestDepth : ReForkConfig := ⟨18446744073709551615, true, false⟩

/-- The empty block is appended, and the other one would replace it. -/
theorem deliverAll_refused [Blake3] (htree : BlockTree block0 siblings)
    (hstored : block0.serializeForStorage = .ok (Block.codec.enc block0)) :
    succeeded (deliverAll greatestDepth (siblings.map fun b => (clock, b)) genesisNode) = false := by
  have hclock : succeeds (nowUnixSecsRuntime clock) = true := by decide +kernel
  have hempty : Deliverable (block0 :: siblings) [block0] emptyBlock1 :=
    ⟨by simp [siblings], by decide, htree.storable _ (by simp [siblings]), block0, by simp, rfl, rfl⟩
  have hblock : Deliverable (block0 :: siblings) [emptyBlock1, block0] block1 :=
    ⟨by simp [siblings], by decide, htree.storable _ (by simp [siblings]), block0, by simp, rfl, rfl⟩
  obtain ⟨db₁, hfirst, hsettled⟩ := deliver_extends (htree.start greatestDepth hstored hclock)
    hempty hclock ⟨rfl, rfl⟩
  obtain ⟨e, db₂, hsecond⟩ := deliver_refused rfl hsettled hblock hclock
    (fun h => absurd h.1 (by decide)) (.inr ⟨rfl, rfl, by decide⟩)
  rw [siblings, List.map_cons, List.map_cons, List.map_nil, deliverAll_cons, genesisNode, hfirst]
  dsimp only
  rw [deliverAll_cons, hsecond]
  rfl

end Sample

theorem forkChoice_converges_siblings :
    ∃ (t₁ t₂ : Block) (db₁ db₂ : RockDB),
      @deliverAll Blake3.reference ⟨64, true, false⟩
        ([Sample.emptyBlock1, Sample.block1].map fun b => (Sample.clock, b))
        (@Sample.genesisNode Blake3.reference) = .ok () db₁ ∧
      @deliverAll Blake3.reference ⟨64, true, false⟩
        ([Sample.block1, Sample.emptyBlock1].map fun b => (Sample.clock, b))
        (@Sample.genesisNode Blake3.reference) = .ok () db₂ ∧
      db₁.getCanonicalTip = .ok (some ⟨t₁.blockHash, t₁.metadata.index⟩) ∧
      db₂.getCanonicalTip = .ok (some ⟨t₂.blockHash, t₂.metadata.index⟩) ∧
      t₁.blockHash = t₂.blockHash := by
  obtain ⟨t₁, t₂, db₁, db₂, hrun₁, hrun₂, hview₁, hview₂, -, -, -, -, hhash⟩ :=
    @forkChoice_converges Blake3.reference ⟨64, true, false⟩ Sample.block0 Sample.siblings Sample.clock
      (Block.codec.enc Sample.block0) _ _ Sample.siblings_tree (by decide)
      (Sample.siblings_near (by decide)) Sample.block0_stored (by decide +kernel)
      (Sample.deliveryOrder_of_perm (List.Perm.refl _))
      (Sample.deliveryOrder_of_perm (List.Perm.swap _ _ _))
  exact ⟨t₁, t₂, db₁, db₂, hrun₁, hrun₂, hview₁, hview₂, hhash rfl⟩

/-- With the greatest depth the walk along a branch is refused, and the lower of two blocks is
not adopted. -/
theorem forkChoice_fails_at_greatest_depth :
    @BlockTree Blake3.reference Sample.block0 Sample.siblings ∧
    WithinDepth (Sample.block0 :: Sample.siblings) Sample.greatestDepth.maxReorgDepth.toNat ∧
    DeliveryOrder Sample.block0 Sample.siblings (Sample.siblings.map fun b => (Sample.clock, b)) ∧
    Effects.succeeded (@deliverAll Blake3.reference Sample.greatestDepth
      (Sample.siblings.map fun b => (Sample.clock, b)) (@Sample.genesisNode Blake3.reference)) =
        false := by
  refine ⟨Sample.siblings_tree, Sample.siblings_near (by decide),
    Sample.deliveryOrder_of_perm (List.Perm.refl _), ?_⟩
  exact @Sample.deliverAll_refused Blake3.reference Sample.siblings_tree Sample.block0_stored

end Remzar
