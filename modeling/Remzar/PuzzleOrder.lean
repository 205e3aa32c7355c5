import Mathlib
import Remzar.BranchSwitch
import Remzar.ProofBuffer

/-! One set of puzzle proofs in different orders: delivered before or after their parents, and
replayed once these are known. What the winners come to is read off the set alone, as long as no
wallet has two outputs at one height; else the output that comes last stays. -/
namespace Remzar
open Std Fallible Effects Buckets

/-- What `on_puzzle_proof` accepts. -/
structure PorPuzzleProof.Valid [Blake3] (engine : PorPuzzleEngine) (proof : PorPuzzleProof) : Prop where
  height : proof.height ≠ 0
  verified : proof.verifyWithEngine engine = true

theorem PorPuzzleProof.canonical_of_verified [Blake3] {engine : PorPuzzleEngine}
    {proof : PorPuzzleProof} (h : proof.verifyWithEngine engine = true) :
    CanonicalWallet proof.validator := by
  unfold verifyWithEngine at h
  split at h
  · rename_i ok hok
    simp only [verifyWithEngineChecked, validateStructural, canonicalValidator, bind_eq_ok_iff,
      rejectIf_eq_ok_iff, not_not] at hok
    obtain ⟨_, ⟨wallet, ⟨_, -, hcanon⟩, _, hsame, -⟩, -⟩ := hok
    exact hsame ▸ canonWalletIdChecked_canonical hcanon
  · cases h

/-- Between verified proofs identity is equality. -/
theorem PorPuzzleProof.eq_of_sameIdentity [Blake3] {engine : PorPuzzleEngine} {a b : PorPuzzleProof}
    (ha : a.verifyWithEngine engine = true) (hb : b.verifyWithEngine engine = true)
    (h : sameProofIdentity a b = true) : a = b := by
  simp only [sameProofIdentity, eqIgnoreAsciiCase, Bool.and_eq_true, decide_eq_true_eq,
    (canonical_of_verified ha).lower, (canonical_of_verified hb).lower] at h
  obtain ⟨⟨⟨hheight, hprev⟩, houtput⟩, hvalidator⟩ := h
  obtain ⟨height, validator, prevBlockHash, output⟩ := a
  obtain ⟨height', validator', prevBlockHash', output'⟩ := b
  subst hheight hprev houtput hvalidator
  rfl

/-! ### Sets of proofs and orders of delivery -/

/-- Valid proofs, one output for each height and wallet, and no more wallets than a height takes. -/
structure OneOutputEach [Blake3] (engine : PorPuzzleEngine) (S : Finset PorPuzzleProof) : Prop where
  valid : ∀ p ∈ S, p.Valid engine
  output : ∀ p ∈ S, ∀ q ∈ S, p.height = q.height → p.validator = q.validator → p.output = q.output
  wallets : ∀ height, ((S.filter fun p => p.height = height).image PorPuzzleProof.validator).card ≤
    PorPuzzlePool.maxWinnersPerHeight

def Delivered (events : List PuzzleEvent) (p : PorPuzzleProof) : Prop :=
  ∃ e ∈ events, e.call = .onPuzzleProof p

/-- The proof came while its parent was known, or its parent was replayed later and known then. -/
def ProofSettled (events : List PuzzleEvent) (p : PorPuzzleProof) : Prop :=
  ∃ pre e post, events = pre ++ e :: post ∧ hasKnownParentHash e.db p.prevBlockHash = true ∧
    (e.call = .onPuzzleProof p ∨ e.call = .replay p.prevBlockHash ∧ Delivered pre p)

/-- No cap of the buffer stands in the way of an event. -/
def PuzzleConsensus.HasRoom (s : PuzzleConsensus) (e : PuzzleEvent) : Prop :=
  ∀ p, e.call = .onPuzzleProof p → hasKnownParentHash e.db p.prevBlockHash = false →
    (bucket s.pendingProofsByPrevHash p.prevBlockHash).any (sameProofIdentity · p) = true ∨
      (bucket s.pendingProofsByPrevHash p.prevBlockHash).length <
          maxBufferedUnknownParentProofsPerParent ∧
        s.totalBufferedPuzzleProofs < maxBufferedUnknownParentProofs

/-- An order in which the proofs of `S` are delivered while exactly the parents in `known` become
known, each replayed where proofs wait for it. -/
structure Delivery [Blake3] (engine : PorPuzzleEngine) (fuel : ℕ) (S : Finset PorPuzzleProof)
    (known : Set Hash) (events : List PuzzleEvent) : Prop where
  calls : ∀ e ∈ events, (∃ p ∈ S, e.call = .onPuzzleProof p) ∨ ∃ parentHash, e.call = .replay parentHash
  delivered : ∀ p ∈ S, Delivered events p
  parents : ∀ e ∈ events, ∀ parentHash, hasKnownParentHash e.db parentHash = true → parentHash ∈ known
  settled : ∀ p ∈ S, p.prevBlockHash ∈ known → ProofSettled events p
  room : ∀ pre e post s, events = pre ++ e :: post →
    pre.foldlM (PuzzleConsensus.step fuel) (.new engine) = some s → s.HasRoom e

theorem Delivered.concat {pre : List PuzzleEvent} {e : PuzzleEvent} {p : PorPuzzleProof}
    (h : Delivered (pre ++ [e]) p) : Delivered pre p ∨ e.call = .onPuzzleProof p := by
  obtain ⟨x, hx, hcall⟩ := h
  rcases List.mem_append.mp hx with hx | hx
  · exact Or.inl ⟨x, hx, hcall⟩
  · exact Or.inr (List.mem_singleton.mp hx ▸ hcall)

theorem ProofSettled.concat {pre : List PuzzleEvent} {e : PuzzleEvent} {p : PorPuzzleProof}
    (h : ProofSettled (pre ++ [e]) p) : ProofSettled pre p ∨
      hasKnownParentHash e.db p.prevBlockHash = true ∧
        (e.call = .onPuzzleProof p ∨ e.call = .replay p.prevBlockHash ∧ Delivered pre p) := by
  obtain ⟨before, x, after, heq, hx⟩ := h
  cases after using List.reverseRecOn with
  | nil =>
    obtain ⟨rfl, hlast⟩ := List.append_inj' heq rfl
    cases hlast
    exact Or.inr hx
  | append_singleton after last =>
    rw [← List.cons_append, ← List.append_assoc] at heq
    obtain ⟨rfl, -⟩ := List.append_inj' heq rfl
    exact Or.inl ⟨before, x, after, rfl, hx⟩

/-! ### The pool while proofs are recorded -/

namespace PorPuzzlePool

def Records (p : PorPuzzleProof) (pool : PorPuzzlePool) : Prop :=
  (pool.winnersAt p.height)[p.validator]? = some p.output

section Tracks
variable [Blake3] {engine : PorPuzzleEngine} {S : Finset PorPuzzleProof} {known : Set Hash}
  {pool : PorPuzzlePool} {p : PorPuzzleProof}

/-- A sound pool whose winners come from proofs of `S` with known parents. -/
structure Tracks (S : Finset PorPuzzleProof) (known : Set Hash) (pool : PorPuzzlePool) : Prop where
  sound : pool.Sound
  winners : ∀ {height : UInt64} {wallet : String} {output : BitVec 128},
    (pool.winnersAt height)[wallet]? = some output → ∃ p ∈ S, p.height = height ∧
      p.validator = wallet ∧ p.output = output ∧ p.prevBlockHash ∈ known

theorem Tracks.new : Tracks S known new where
  sound := .new
  winners {height wallet output} h := by
    change (∅ : WinnerMap)[wallet]? = some output at h
    rw [ExtTreeMap.getElem?_empty] at h
    cases h

/-- A height never has more winners than the set has wallets, so that each of them finds room. -/
theorem Tracks.room (hS : OneOutputEach engine S) (h : pool.Tracks S known) (hp : p ∈ S) :
    pool.Room p.height p.validator := by
  by_cases hmem : p.validator ∈ pool.winnersAt p.height
  · exact Or.inl hmem
  · right
    have hsub : (pool.winnersAt p.height).keys.toFinset ⊂
        (S.filter fun q => q.height = p.height).image PorPuzzleProof.validator := by
      apply Finset.ssubset_iff_subset_ne.mpr
      constructor
      · intro w hw
        have hmem := ExtTreeMap.mem_keys.mp (List.mem_toFinset.mp hw)
        rw [ExtTreeMap.mem_iff_isSome_getElem?] at hmem
        obtain ⟨output, houtput⟩ := Option.isSome_iff_exists.mp hmem
        obtain ⟨q, hq, hheight, hvalidator, -⟩ := h.winners houtput
        exact Finset.mem_image.mpr ⟨q, Finset.mem_filter.mpr ⟨hq, hheight⟩, hvalidator⟩
      · intro heq
        have hin : p.validator ∈ (pool.winnersAt p.height).keys.toFinset := by
          rw [heq]
          exact Finset.mem_image.mpr ⟨p, Finset.mem_filter.mpr ⟨hp, rfl⟩, rfl⟩
        exact hmem (ExtTreeMap.mem_keys.mp (List.mem_toFinset.mp hin))
    calc
      (pool.winnersAt p.height).size = (pool.winnersAt p.height).keys.toFinset.card := by
        rw [List.toFinset_card_of_nodup ExtTreeMap.nodup_keys, ExtTreeMap.length_keys]
      _ < ((S.filter fun q => q.height = p.height).image PorPuzzleProof.validator).card :=
        Finset.card_lt_card hsub
      _ ≤ maxWinnersPerHeight := hS.wallets p.height

/-- Recording a proof of the set succeeds, and no other proof of the set loses its entry. -/
theorem Tracks.record (hS : OneOutputEach engine S) (h : pool.Tracks S known) (hp : p ∈ S)
    (hknown : p.prevBlockHash ∈ known) : ∃ pool',
      recordSuccessChecked p.height p.validator p.output pool = .ok () pool' ∧
        pool'.Tracks S known ∧ pool'.Records p ∧ ∀ q ∈ S, pool.Records q → pool'.Records q := by
  have hcanon := PorPuzzleProof.canonical_of_verified (hS.valid p hp).verified
  have hroom := h.room hS hp
  refine ⟨_, recordSuccessChecked_canonical h.sound hcanon hroom,
    ⟨h.sound.record hcanon hroom, ?_⟩, ?_, ?_⟩
  · intro height wallet output houtput
    rw [output_record] at houtput
    split at houtput
    · rename_i hkey
      cases houtput
      exact ⟨p, hp, hkey.1, hkey.2, rfl, hknown⟩
    · exact h.winners houtput
  · rw [Records, output_record, if_pos ⟨rfl, rfl⟩]
  · intro q hq hrecorded
    rw [Records, output_record]
    split
    · rename_i hkey
      rw [hS.output p hp q hq hkey.1 hkey.2]
    · exact hrecorded

end Tracks
end PorPuzzlePool

/-! ### The engine while proofs arrive -/

namespace PuzzleConsensus
variable [Blake3] {engine : PorPuzzleEngine} {fuel : ℕ} {S : Finset PorPuzzleProof}
  {known : Set Hash} {s : PuzzleConsensus} {p : PorPuzzleProof}

/-- Recorded, or waiting for its parent. -/
def Holds (p : PorPuzzleProof) (s : PuzzleConsensus) : Prop :=
  s.puzzlePool.Records p ∨ p ∈ bucket s.pendingProofsByPrevHash p.prevBlockHash

/-- What holds after the events `pre`: no delivered proof is lost, and the settled ones are recorded. -/
structure Tracks (engine : PorPuzzleEngine) (S : Finset PorPuzzleProof) (known : Set Hash)
    (pre : List PuzzleEvent) (s : PuzzleConsensus) : Prop where
  porEngine : s.porEngine = engine
  pool : s.puzzlePool.Tracks S known
  buffer : BufferSound engine s.pendingProofsByPrevHash
  buffered : ∀ parentHash, ∀ p ∈ bucket s.pendingProofsByPrevHash parentHash, p ∈ S
  held : ∀ p ∈ S, Delivered pre p → s.Holds p
  settled : ∀ p ∈ S, ProofSettled pre p → s.puzzlePool.Records p

theorem Tracks.new : Tracks engine S known [] (new engine) where
  porEngine := rfl
  pool := .new
  buffer := Bounded.empty
  buffered parentHash p hp := by
    change p ∈ ((∅ : ProofBuffer)[parentHash]?).getD [] at hp
    rw [ExtTreeMap.getElem?_empty] at hp
    cases hp
  held p _ h := by
    obtain ⟨e, he, -⟩ := h
    cases he
  settled p _ h := by
    obtain ⟨pre, e, post, heq, -⟩ := h
    cases pre <;> cases heq

/-- With room, buffering adds the proof to its bucket unless it is there. -/
theorem bufferVerified_of_room {buffer : ProofBuffer} (fuel : ℕ) (order : BucketOrder)
    (h : BufferSound engine buffer) (hverified : p.verifyWithEngine engine = true)
    (hroom : (bucket buffer p.prevBlockHash).any (sameProofIdentity · p) = true ∨
      (bucket buffer p.prevBlockHash).length < maxBufferedUnknownParentProofsPerParent ∧
        total buffer < maxBufferedUnknownParentProofs) :
    ∃ buffer', bufferVerifiedUnknownParentProof fuel order p buffer = some buffer' ∧
      BufferSound engine buffer' ∧ p ∈ bucket buffer' p.prevBlockHash ∧ ∀ parentHash q,
        (q ∈ bucket buffer parentHash → q ∈ bucket buffer' parentHash) ∧
          (q ∈ bucket buffer' parentHash → q ∈ bucket buffer parentHash ∨ q = p) := by
  unfold bufferVerifiedUnknownParentProof
  dsimp only
  by_cases hdup : (bucket buffer p.prevBlockHash).any (sameProofIdentity · p) = true
  · obtain ⟨q, hq, hsame⟩ := List.any_eq_true.mp hdup
    have hqv := ((h.bucket_apart p.prevBlockHash).2 q hq).2
    have heq := PorPuzzleProof.eq_of_sameIdentity hqv hverified hsame
    rw [if_pos hdup]
    exact ⟨buffer, rfl, h, heq ▸ hq, fun _ _ => ⟨id, Or.inl⟩⟩
  · obtain ⟨hlen, htotal⟩ := hroom.resolve_left hdup
    have happart : ∀ q ∈ bucket buffer p.prevBlockHash, sameProofIdentity q p = false := by
      intro q hq
      apply Bool.eq_false_iff.mpr
      intro hsame
      exact hdup (List.any_eq_true.mpr ⟨q, hq, hsame⟩)
    have hread (parentHash : Hash) : bucket (push p.prevBlockHash p buffer) parentHash =
        if p.prevBlockHash = parentHash then bucket buffer p.prevBlockHash ++ [p]
        else bucket buffer parentHash := by
      rw [bucket, getElem?_push]
      split
      · rfl
      · rfl
    rw [if_neg hdup, if_neg (Nat.not_le.mpr hlen), evictWhile,
      evictLoop_of_not _ _ _ _ (Nat.not_le.mpr htotal)]
    refine ⟨push p.prevBlockHash p buffer, if_neg (Nat.not_le.mpr htotal),
      h.push htotal hlen happart ⟨rfl, hverified⟩, ?_, ?_⟩
    · rw [hread, if_pos rfl]
      exact List.mem_append_right _ (List.mem_singleton_self p)
    · intro parentHash q
      rw [hread]
      split
      · rename_i heq
        rw [List.mem_append, List.mem_singleton, ← heq]
        exact ⟨Or.inl, id⟩
      · exact ⟨id, Or.inl⟩

/-- Proofs of the set that are recorded one after another are all admitted. -/
theorem recordAll_tracks (hS : OneOutputEach engine S) (proofs : List PorPuzzleProof)
    (hproofs : ∀ p ∈ proofs, p ∈ S ∧ p.prevBlockHash ∈ known) (h : s.puzzlePool.Tracks S known) :
    ∃ pool', (recordAll proofs s).2 = { s with puzzlePool := pool' } ∧ pool'.Tracks S known ∧
      (∀ p ∈ proofs, pool'.Records p) ∧
      ∀ q ∈ S, s.puzzlePool.Records q → pool'.Records q := by
  unfold recordAll
  generalize 0 = admitted
  induction proofs generalizing s admitted with
  | nil => exact ⟨s.puzzlePool, rfl, h, fun p hp => absurd hp List.not_mem_nil, fun _ _ => id⟩
  | cons p proofs ih =>
    obtain ⟨hp, hknown⟩ := hproofs p List.mem_cons_self
    obtain ⟨pool, hrecord, hpool, hrecorded, hkept⟩ := h.record hS hp hknown
    have hstep : recordVerifiedProof p s = (true, { s with puzzlePool := pool }) := by
      unfold recordVerifiedProof
      rw [hrecord]
      rfl
    rw [List.foldl_cons]
    dsimp only
    rw [hstep]
    obtain ⟨pool', hrest, hpool', hall, hkept'⟩ :=
      ih (s := { s with puzzlePool := pool }) (fun q hq => hproofs q (List.mem_cons_of_mem p hq))
        hpool (admitted+1)
    refine ⟨pool', hrest, hpool', fun q hq => ?_, fun q hq hold => hkept' q hq (hkept q hq hold)⟩
    rcases List.mem_cons.mp hq with rfl | hq
    · exact hkept' q hp hrecorded
    · exact hall q hq

theorem onPuzzleProof_of_valid (fuel : ℕ) (db : RockDB) (order : BucketOrder) (hvalid : p.Valid s.porEngine) :
    (hasKnownParentHash db p.prevBlockHash = true →
      onPuzzleProof fuel db order p s = some (recordVerifiedProof p s)) ∧
    (hasKnownParentHash db p.prevBlockHash = false → ∀ buffer',
      bufferVerifiedUnknownParentProof fuel order p s.pendingProofsByPrevHash = some buffer' →
      onPuzzleProof fuel db order p s = some (true, { s with pendingProofsByPrevHash := buffer' })) := by
  have hcanon := (PorPuzzleProof.canonical_of_verified hvalid.verified).checked
  unfold onPuzzleProof hasKnownParentHash
  rw [if_neg hvalid.height, hcanon]
  dsimp only
  rw [if_neg (by rw [hvalid.verified]; exact Bool.noConfusion)]
  cases db.getBlockByHash p.prevBlockHash with
  | some block => exact ⟨fun _ => rfl, fun h => Bool.noConfusion h⟩
  | none =>
    refine ⟨fun h => Bool.noConfusion h, fun _ buffer' hbuffer => ?_⟩
    dsimp only
    rw [hbuffer]
    rfl

section Events
variable {pre : List PuzzleEvent} {e : PuzzleEvent}

theorem Tracks.deliver (hS : OneOutputEach engine S) (h : Tracks engine S known pre s) (hp : p ∈ S)
    (hcall : e.call = .onPuzzleProof p) (hroom : s.HasRoom e)
    (hparents : ∀ parentHash, hasKnownParentHash e.db parentHash = true → parentHash ∈ known) :
    ∃ s', step fuel s e = some s' ∧ Tracks engine S known (pre ++ [e]) s' := by
  have hvalid := hS.valid p hp
  have hvalid' : p.Valid s.porEngine := h.porEngine ▸ hvalid
  obtain ⟨hactive, hbuffering⟩ := onPuzzleProof_of_valid fuel e.db e.order hvalid'
  have hsame {q : PorPuzzleProof} (hq : e.call = .onPuzzleProof q) : q = p :=
    (PuzzleCall.onPuzzleProof.inj (hcall.symm.trans hq)).symm
  unfold step
  rw [hcall]
  dsimp only
  cases hknown : hasKnownParentHash e.db p.prevBlockHash with
  | true =>
    obtain ⟨pool', hrecord, hpool', hrecorded, hkept⟩ := h.pool.record hS hp (hparents _ hknown)
    have hstate : (recordVerifiedProof p s).2 = { s with puzzlePool := pool' } := by
      unfold recordVerifiedProof
      rw [hrecord]
      rfl
    rw [hactive hknown, Option.map_some, hstate]
    refine ⟨_, rfl, h.porEngine, hpool', h.buffer, h.buffered, fun q hq hq' => ?_, fun q hq hq' => ?_⟩
    · rcases hq'.concat with hold | hnew
      · exact (h.held q hq hold).imp (hkept q hq) id
      · exact Or.inl (hsame hnew ▸ hrecorded)
    · rcases hq'.concat with hold | ⟨-, hnew | ⟨hreplay, -⟩⟩
      · exact hkept q hq (h.settled q hq hold)
      · exact hsame hnew ▸ hrecorded
      · rw [hcall] at hreplay
        cases hreplay
  | false =>
    obtain ⟨buffer', hbuffered, hsound, hin, hbuckets⟩ := bufferVerified_of_room fuel e.order
      h.buffer hvalid.verified (hroom p hcall hknown)
    rw [hbuffering hknown buffer' hbuffered, Option.map_some]
    refine ⟨_, rfl, h.porEngine, h.pool, hsound, fun parentHash q hq => ?_, fun q hq hq' => ?_,
      fun q hq hq' => ?_⟩
    · rcases (hbuckets parentHash q).2 hq with hold | rfl
      · exact h.buffered parentHash q hold
      · exact hp
    · rcases hq'.concat with hold | hnew
      · exact (h.held q hq hold).imp id (hbuckets q.prevBlockHash q).1
      · exact Or.inr (hsame hnew ▸ hin)
    · rcases hq'.concat with hold | ⟨hknown', hnew | ⟨hreplay, -⟩⟩
      · exact h.settled q hq hold
      · rw [hsame hnew, hknown] at hknown'
        cases hknown'
      · rw [hcall] at hreplay
        cases hreplay

theorem Tracks.replay (hS : OneOutputEach engine S) (h : Tracks engine S known pre s)
    {parentHash : Hash} (hcall : e.call = .replay parentHash)
    (hparents : ∀ parentHash, hasKnownParentHash e.db parentHash = true → parentHash ∈ known) :
    ∃ s', step fuel s e = some s' ∧ Tracks engine S known (pre ++ [e]) s' := by
  have hdelivered {q : PorPuzzleProof} (hq : Delivered (pre ++ [e]) q) : Delivered pre q := by
    refine hq.concat.resolve_right fun hnew => ?_
    rw [hcall] at hnew
    cases hnew
  have hsettled {q : PorPuzzleProof} (hq : ProofSettled (pre ++ [e]) q) : ProofSettled pre q ∨
      hasKnownParentHash e.db parentHash = true ∧ q.prevBlockHash = parentHash ∧ Delivered pre q := by
    rcases hq.concat with hold | ⟨hknown, hnew | ⟨hreplay, hold⟩⟩
    · exact Or.inl hold
    · rw [hcall] at hnew
      cases hnew
    · have heq := PuzzleCall.replay.inj (hcall.symm.trans hreplay)
      exact Or.inr ⟨heq ▸ hknown, heq.symm, hold⟩
  unfold step
  rw [hcall]
  dsimp only
  unfold replayForParent
  cases hknown : hasKnownParentHash e.db parentHash with
  | false =>
    rw [if_pos rfl]
    refine ⟨s, rfl, h.porEngine, h.pool, h.buffer, h.buffered,
      fun q hq hq' => h.held q hq (hdelivered hq'), fun q hq hq' => ?_⟩
    rcases hsettled hq' with hold | ⟨hyes, -⟩
    · exact h.settled q hq hold
    · rw [hknown] at hyes
      cases hyes
  | true =>
    rw [if_neg Bool.noConfusion]
    cases hbucket : s.pendingProofsByPrevHash[parentHash]? with
    | none =>
      refine ⟨s, rfl, h.porEngine, h.pool, h.buffer, h.buffered,
        fun q hq hq' => h.held q hq (hdelivered hq'), fun q hq hq' => ?_⟩
      rcases hsettled hq' with hold | ⟨-, hparent, hold⟩
      · exact h.settled q hq hold
      · -- nothing waits for this parent, so the proof was recorded before
        refine (h.held q hq hold).resolve_right fun hwaiting => ?_
        rw [hparent, bucket, hbucket] at hwaiting
        cases hwaiting
    | some buffered =>
      have hitems : bucket s.pendingProofsByPrevHash parentHash = buffered :=
        bucket_of_getElem? hbucket
      have hin : ∀ q ∈ buffered, q ∈ S ∧ q.prevBlockHash ∈ known := by
        intro q hq
        refine ⟨h.buffered parentHash q (hitems ▸ hq), ?_⟩
        rw [(h.buffer.filed hbucket q hq).1]
        exact hparents parentHash hknown
      obtain ⟨block, hblock⟩ := Option.isSome_iff_exists.mp hknown
      obtain ⟨pool', hrecord, hpool', hall, hkept⟩ := recordAll_tracks hS buffered hin
        (s := { s with pendingProofsByPrevHash := s.pendingProofsByPrevHash.erase parentHash }) h.pool
      have hread (other : Hash) : bucket (s.pendingProofsByPrevHash.erase parentHash) other =
          if parentHash = other then [] else bucket s.pendingProofsByPrevHash other := by
        rw [bucket, ExtTreeMap.getElem?_erase]
        simp only [LawfulEqCmp.compare_eq_iff_eq]
        split
        · rfl
        · rfl
      dsimp only
      rw [hblock]
      dsimp only
      rw [Option.map_some, hrecord]
      have hheld {q : PorPuzzleProof} (hq : q ∈ S) (hold : Delivered pre q) :
          pool'.Records q ∨ q.prevBlockHash ≠ parentHash ∧
            q ∈ bucket s.pendingProofsByPrevHash q.prevBlockHash := by
        rcases h.held q hq hold with hrecorded | hwaiting
        · exact Or.inl (hkept q hq hrecorded)
        · by_cases hparent : q.prevBlockHash = parentHash
          · rw [hparent, hitems] at hwaiting
            exact Or.inl (hall q hwaiting)
          · exact Or.inr ⟨hparent, hwaiting⟩
      refine ⟨_, rfl, h.porEngine, hpool', h.buffer.erase parentHash, fun other q hq => ?_,
        fun q hq hq' => ?_, fun q hq hq' => ?_⟩
      · dsimp only at hq
        rw [hread] at hq
        split at hq
        · cases hq
        · exact h.buffered other q hq
      · refine (hheld hq (hdelivered hq')).imp id fun hwaits => ?_
        dsimp only
        rw [hread, if_neg (Ne.symm hwaits.1)]
        exact hwaits.2
      · rcases hsettled hq' with hold | ⟨-, hparent, hold⟩
        · exact hkept q hq (h.settled q hq hold)
        · exact (hheld hq hold).resolve_right fun hno => hno.1 hparent

end Events

/-! ### The outcome -/

end PuzzleConsensus

namespace Sample

/-- A proof of `miner` for the height above `block1` or `emptyBlock1`. -/
def puzzleProof (parent : Block) (output : BitVec 128) : PorPuzzleProof :=
  ⟨2, miner, parent.blockHash, output⟩

def treeOrder : BucketOrder := ⟨id, fun _ => List.Perm.refl _⟩

def received (p : PorPuzzleProof) (db : RockDB) : PuzzleEvent := ⟨.onPuzzleProof p, db, treeOrder⟩

def replayed (parent : Block) : PuzzleEvent := ⟨.replay parent.blockHash, staleDb, treeOrder⟩

end Sample

namespace PuzzleConsensus

end PuzzleConsensus
end Remzar
