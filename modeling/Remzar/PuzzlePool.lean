import Mathlib
import Remzar.Lib.Effects
import Remzar.PuzzleEngine

/-! The pool of puzzle winners: for each height the output of every wallet, and the entropy hash
derived from all of them. The hash is refreshed after the map was changed. -/
namespace Remzar
open Std Fallible Effects Text

abbrev WinnerMap := ExtTreeMap String (BitVec 128) byteOrder

def entropyTag : List UInt8 := asciiBytes "por-puzzle-entropy-64-v1"

def entropyHash64 [Blake3] (preimage : List UInt8) : Hash :=
  ⟨(Blake3.xof64 preimage).toList.take 32 ++ (Blake3.xof64 (entropyTag ++ preimage)).toList.drop 32,
    by simp⟩

def u128Be (n : BitVec 128) : List UInt8 :=
  (List.range 16).map fun i => UInt8.ofNat (n.toNat/256^(15-i))

/-- `usize::checked_add` -/
def checkedAddUsize (a b : ℕ) : Option ℕ := if a+b < 2^64 then some (a+b) else none

structure PorPuzzlePool where
  winners : ExtTreeMap UInt64 WinnerMap
  entropy : ExtTreeMap UInt64 Hash

namespace PorPuzzlePool

def new : PorPuzzlePool := ⟨∅, ∅⟩

abbrev PoolM := EStateM ErrorDetection PorPuzzlePool

def maxWinnersPerHeight : ℕ := maxBatchItems

def maxWalletLen : ℕ := 256

/-- The recorded winners of a height, none where there is no entry. -/
def winnersAt (height : UInt64) (pool : PorPuzzlePool) : WinnerMap := pool.winners[height]?.getD ∅

def preimageCapacity (winners : WinnerMap) : Fallible ℕ :=
  okOr (winners.toList.foldlM (fun cap e =>
      (checkedAddUsize cap (byteLen e.1)).bind fun v => checkedAddUsize v 16) 0)
    (validationErr "PorPuzzlePool: preimage capacity overflow")

def preimage (winners : WinnerMap) : List UInt8 :=
  winners.toList.flatMap fun e => utf8 e.1 ++ u128Be e.2

def recordSuccessChecked [Blake3] (height : UInt64) (wallet : String) (output : BitVec 128) :
    PoolM Unit := do
  lift (rejectIf (maxWalletLen < byteLen wallet) (validationErr
    s!"PorPuzzlePool: wallet too long (len={byteLen wallet}, max={maxWalletLen})"))
  let canon ← lift (canonWalletIdChecked wallet)
  lift (rejectIf (maxWalletLen < byteLen canon) (validationErr
    s!"PorPuzzlePool: canonical wallet too long (len={byteLen canon}, max={maxWalletLen})"))
  let winnersForHeight := (← get).winnersAt height
  -- The entry is there from now on, whatever follows.
  modify fun pool => { pool with winners := pool.winners.insert height winnersForHeight }
  lift (rejectIf (canon ∉ winnersForHeight ∧ maxWinnersPerHeight ≤ winnersForHeight.size)
    (validationErr
      s!"PorPuzzlePool: too many winners for height {height} (len={winnersForHeight.size}, max={maxWinnersPerHeight})"))
  let winnersMap := winnersForHeight.insert canon output
  modify fun pool => { pool with winners := pool.winners.insert height winnersMap }
  if winnersForHeight[canon]? = some output then pure ()
  else do
    let cap ← lift (preimageCapacity winnersMap)
    lift (rejectIf (maxTotalBatchBytes < cap) (validationErr
      s!"PorPuzzlePool: entropy preimage too large for height {height} (bytes={cap}, max={maxTotalBatchBytes})"))
    modify fun pool =>
      { pool with entropy := pool.entropy.insert height (entropyHash64 (preimage winnersMap)) }

def winnersForHeight (height : UInt64) (pool : PorPuzzlePool) : List String :=
  (pool.winnersAt height).keys

def entropyForHeight (height : UInt64) (pool : PorPuzzlePool) : Option Hash := pool.entropy[height]?

def gcBelow (minHeight : UInt64) (pool : PorPuzzlePool) : PorPuzzlePool :=
  ⟨pool.winners.filter fun h _ => minHeight ≤ h, pool.entropy.filter fun h _ => minHeight ≤ h⟩

/-- Every entry has a winner, all wallets are canonical and within the cap, and the entropy is that
of the recorded winners. -/
structure Sound [Blake3] (pool : PorPuzzlePool) : Prop where
  nonempty : ∀ {h : UInt64} {m : WinnerMap}, pool.winners[h]? = some m → m ≠ ∅
  canonical : ∀ {h : UInt64} {m : WinnerMap} {w : String}, pool.winners[h]? = some m → w ∈ m →
    CanonicalWallet w
  size_le : ∀ {h : UInt64} {m : WinnerMap}, pool.winners[h]? = some m → m.size ≤ maxWinnersPerHeight
  entropy : ∀ h, pool.entropyForHeight h =
    pool.winners[h]?.map fun m => entropyHash64 (preimage m)

/-- The pool with one more winner, or another output of a wallet that is one. -/
def record [Blake3] (height : UInt64) (wallet : String) (output : BitVec 128) (pool : PorPuzzlePool) :
    PorPuzzlePool :=
  let winnersMap := (pool.winnersAt height).insert wallet output
  ⟨pool.winners.insert height winnersMap,
    pool.entropy.insert height (entropyHash64 (preimage winnersMap))⟩

/-! ### The preimage -/

theorem foldlM_capacity (entries : List (String × BitVec 128)) (cap : ℕ)
    (h : cap+(entries.map fun e => byteLen e.1+16).sum < 2^64) :
    entries.foldlM (fun cap e =>
      (checkedAddUsize cap (byteLen e.1)).bind fun v => checkedAddUsize v 16) cap =
      some (cap+(entries.map fun e => byteLen e.1+16).sum) := by
  induction entries generalizing cap with
  | nil => rfl
  | cons e entries ih =>
    rw [List.map_cons, List.sum_cons] at h
    have hname : checkedAddUsize cap (byteLen e.1) = some (cap+byteLen e.1) := if_pos (by omega)
    have hoperand : checkedAddUsize (cap+byteLen e.1) 16 = some (cap+byteLen e.1+16) :=
      if_pos (by omega)
    rw [List.foldlM_cons, hname, Option.bind_some, hoperand]
    calc
      _ = some (cap+byteLen e.1+16+(entries.map fun e => byteLen e.1+16).sum) := ih _ (by omega)
      _ = _ := by
        rw [List.map_cons, List.sum_cons]
        congr 1
        omega

/-- Canonical wallets within the cap never come near the limits of the preimage. -/
theorem preimageCapacity_ok {m : WinnerMap} (hcanon : ∀ w ∈ m, CanonicalWallet w)
    (hsize : m.size ≤ maxWinnersPerHeight) :
    ∃ cap, preimageCapacity m = .ok cap ∧ ¬maxTotalBatchBytes < cap := by
  have hlen (e : String × BitVec 128) (he : e ∈ m.toList) : byteLen e.1+16 = 145 := by
    have hmem : e.1 ∈ m := by
      rw [ExtTreeMap.mem_iff_isSome_getElem?,
        ExtTreeMap.mem_toList_iff_getElem?_eq_some.mp he]
      rfl
    rw [(hcanon e.1 hmem).len]
    rfl
  have hsum : (m.toList.map fun e => byteLen e.1+16).sum = 145*m.size := by
    rw [List.map_congr_left hlen, List.map_const', List.sum_replicate, ExtTreeMap.length_toList,
      smul_eq_mul, Nat.mul_comm]
  have hsize' : m.size ≤ 50000 := hsize
  have hfold := foldlM_capacity m.toList 0 (by rw [hsum]; omega)
  refine ⟨145*m.size, ?_, ?_⟩
  · rw [preimageCapacity, hfold, hsum, Nat.zero_add]
    rfl
  · unfold maxTotalBatchBytes
    omega

/-! ### What a call records -/

theorem insert_of_getElem? {κ ν : Type} {cmp : κ → κ → Ordering} [TransCmp cmp] [LawfulEqCmp cmp]
    {m : ExtTreeMap κ ν cmp} {k : κ} {v : ν} (h : m[k]? = some v) : m.insert k v = m := by
  apply ExtTreeMap.ext_getElem?
  intro a
  rw [ExtTreeMap.getElem?_insert]
  split
  · rename_i hka
    rw [← LawfulEqCmp.eq_of_compare hka, h]
  · rfl

theorem insert_insert {κ ν : Type} {cmp : κ → κ → Ordering} [TransCmp cmp]
    [LawfulEqCmp cmp] (m : ExtTreeMap κ ν cmp) (k : κ) (v v' : ν) : (m.insert k v).insert k v' = m.insert k v' := by
  apply ExtTreeMap.ext_getElem?
  intro a
  simp only [ExtTreeMap.getElem?_insert]
  split <;> rfl

theorem winnersAt_of_getElem? {pool : PorPuzzlePool} {height : UInt64} {m : WinnerMap}
    (h : pool.winners[height]? = some m) :
    pool.winnersAt height = m := by
  rw [winnersAt, h]
  rfl

section Record
variable [Blake3] {pool : PorPuzzlePool} {height : UInt64} {wallet canon : String}
  {output : BitVec 128}

theorem Sound.new : Sound new := by
  have hnone (h : UInt64) : PorPuzzlePool.new.winners[h]? = none := rfl
  refine ⟨fun h => ?_, fun h => ?_, fun h => ?_, fun _ => rfl⟩
  all_goals
    rw [hnone] at h
    cases h

theorem Sound.winnersAt (h : pool.Sound) (height : UInt64) :
    (∀ w ∈ pool.winnersAt height, CanonicalWallet w) ∧
      (pool.winnersAt height).size ≤ maxWinnersPerHeight := by
  unfold PorPuzzlePool.winnersAt
  cases hm : pool.winners[height]? with
  | none => exact ⟨fun w hw => absurd hw ExtTreeMap.not_mem_empty, Nat.zero_le _⟩
  | some m => exact ⟨fun w hw => h.canonical hm hw, h.size_le hm⟩

/-- The room for a winner: it is one already, or the height is below its cap. -/
def Room (pool : PorPuzzlePool) (height : UInt64) (wallet : String) : Prop :=
  wallet ∈ pool.winnersAt height ∨ (pool.winnersAt height).size < maxWinnersPerHeight

instance : Decidable (pool.Room height wallet) := inferInstanceAs (Decidable (_ ∨ _))

omit [Blake3] in
theorem room_iff : pool.Room height wallet ↔
    ¬(wallet ∉ pool.winnersAt height ∧ maxWinnersPerHeight ≤ (pool.winnersAt height).size) := by
  rw [Room, not_and_or, not_not, Nat.not_le]

theorem Sound.insert_winner (h : pool.Sound) (hcanon : CanonicalWallet wallet)
    (hroom : pool.Room height wallet) (output : BitVec 128) :
    (∀ w ∈ (pool.winnersAt height).insert wallet output, CanonicalWallet w) ∧
      ((pool.winnersAt height).insert wallet output).size ≤ maxWinnersPerHeight := by
  obtain ⟨hwallets, hsize⟩ := h.winnersAt height
  constructor
  · intro w hw
    rw [ExtTreeMap.mem_insert, LawfulEqCmp.compare_eq_iff_eq] at hw
    rcases hw with heq | hw
    · exact heq ▸ hcanon
    · exact hwallets w hw
  · rw [ExtTreeMap.size_insert]
    split
    · exact hsize
    · rename_i hnew
      exact hroom.resolve_left fun hmem => hnew (ExtTreeMap.contains_iff_mem.mpr hmem)

/-- With the wallet in canonical form there are two outcomes: the height is full, or the output is
recorded and the entropy with it. -/
theorem recordSuccessChecked_of_canon (height : UInt64) (output : BitVec 128) (h : pool.Sound) (hlen : ¬maxWalletLen < byteLen wallet)
    (hcanon : canonWalletIdChecked wallet = .ok canon) :
    recordSuccessChecked height wallet output pool =
      if canon ∉ pool.winnersAt height ∧ maxWinnersPerHeight ≤ (pool.winnersAt height).size then
        .error (validationErr
          s!"PorPuzzlePool: too many winners for height {height} (len={(pool.winnersAt height).size}, max={maxWinnersPerHeight})") pool
      else .ok () (pool.record height canon output) := by
  have hcanonical := canonWalletIdChecked_canonical hcanon
  have hlen' : ¬maxWalletLen < byteLen canon := by
    rw [hcanonical.len]
    decide
  unfold recordSuccessChecked
  rw [rejectIf_of_not _ hlen]
  change (lift (canonWalletIdChecked wallet) >>= _) pool = _
  rw [hcanon]
  change (lift (rejectIf (maxWalletLen < byteLen canon) _) >>= _) pool = _
  rw [rejectIf_of_not _ hlen']
  change (lift (rejectIf (canon ∉ pool.winnersAt height ∧ _) _) >>= _)
    { pool with winners := pool.winners.insert height (pool.winnersAt height) } = _
  by_cases hfull : canon ∉ pool.winnersAt height ∧
      maxWinnersPerHeight ≤ (pool.winnersAt height).size
  · rw [if_pos hfull, rejectIf, if_pos hfull]
    -- a full height has its entry already
    have hsame : pool.winners.insert height (pool.winnersAt height) = pool.winners := by
      cases hm : pool.winners[height]? with
      | some m =>
        rw [winnersAt_of_getElem? hm]
        exact insert_of_getElem? hm
      | none =>
        have hempty : pool.winnersAt height = ∅ := by
          rw [winnersAt, hm]
          rfl
        rw [hempty] at hfull
        exact absurd hfull.2 (by decide)
    rw [hsame]
    rfl
  · rw [if_neg hfull, rejectIf_of_not _ hfull]
    change (if (pool.winnersAt height)[canon]? = some output then _ else _ : PoolM Unit)
      { pool with winners := (pool.winners.insert height (pool.winnersAt height)).insert height _ } = _
    rw [insert_insert]
    by_cases hsame : (pool.winnersAt height)[canon]? = some output
    · rw [if_pos hsame]
      -- neither the map nor, then, its entropy changes
      have hentry : pool.winners[height]? = some (pool.winnersAt height) := by
        cases hm : pool.winners[height]? with
        | some m => rw [winnersAt_of_getElem? hm]
        | none =>
          rw [winnersAt, hm] at hsame
          cases hsame
      have hentropy : pool.entropy[height]? =
          some (entropyHash64 (preimage ((pool.winnersAt height).insert canon output))) := by
        rw [insert_of_getElem? hsame]
        exact (h.entropy height).trans (by rw [hentry, Option.map_some])
      rw [record, insert_of_getElem? hentropy]
      rfl
    · rw [if_neg hsame]
      obtain ⟨hcanonicals, hsize⟩ := h.insert_winner hcanonical (room_iff.mpr hfull) output
      obtain ⟨cap, hcap, hbytes⟩ := preimageCapacity_ok hcanonicals hsize
      change (lift (preimageCapacity _) >>= _) _ = _
      rw [hcap]
      change (lift (rejectIf (maxTotalBatchBytes < cap) _) >>= _) _ = _
      rw [rejectIf_of_not _ hbytes]
      rfl

theorem recordSuccessChecked_canonical (h : pool.Sound) (hwallet : CanonicalWallet wallet)
    (hroom : pool.Room height wallet) :
    recordSuccessChecked height wallet output pool = .ok () (pool.record height wallet output) := by
  have hlen : ¬maxWalletLen < byteLen wallet := by
    rw [hwallet.len]
    decide
  rw [recordSuccessChecked_of_canon height output h hlen hwallet.checked, if_neg (room_iff.mp hroom)]

/-- A call that does not record leaves the pool as it was. -/
theorem recordSuccessChecked_cases (h : pool.Sound) (height : UInt64) (wallet : String)
    (output : BitVec 128) :
    (∃ e, recordSuccessChecked height wallet output pool = .error e pool) ∨
      ∃ canon, CanonicalWallet canon ∧ pool.Room height canon ∧
        recordSuccessChecked height wallet output pool = .ok () (pool.record height canon output) := by
  by_cases hlen : maxWalletLen < byteLen wallet
  · left
    unfold recordSuccessChecked
    rw [rejectIf, if_pos hlen]
    exact ⟨_, rfl⟩
  · cases hcanon : canonWalletIdChecked wallet with
    | error e =>
      left
      unfold recordSuccessChecked
      rw [rejectIf_of_not _ hlen, hcanon]
      exact ⟨_, rfl⟩
    | ok canon =>
      have hrun := recordSuccessChecked_of_canon height output h hlen hcanon
      split at hrun
      · exact Or.inl ⟨_, hrun⟩
      · rename_i hroom
        exact Or.inr ⟨canon, canonWalletIdChecked_canonical hcanon, room_iff.mpr hroom, hrun⟩

/-! ### The pool stays sound -/

theorem getElem?_record (h : UInt64) : (pool.record height wallet output).winners[h]? =
    if height = h then some ((pool.winnersAt height).insert wallet output) else pool.winners[h]? := by
  rw [record, ExtTreeMap.getElem?_insert]
  simp only [LawfulEqCmp.compare_eq_iff_eq]

theorem winnersAt_record (h : UInt64) : (pool.record height wallet output).winnersAt h =
    if height = h then (pool.winnersAt height).insert wallet output else pool.winnersAt h := by
  rw [winnersAt, getElem?_record]
  split
  · rfl
  · rfl

theorem output_record (h : UInt64) (w : String) :
    ((pool.record height wallet output).winnersAt h)[w]? =
      if height = h ∧ wallet = w then some output else (pool.winnersAt h)[w]? := by
  rw [winnersAt_record]
  by_cases hh : height = h
  · subst hh
    rw [if_pos rfl, ExtTreeMap.getElem?_insert]
    simp only [LawfulEqCmp.compare_eq_iff_eq, true_and]
  · rw [if_neg hh, if_neg fun hboth => hh hboth.1]

theorem entropyForHeight_record (h : UInt64) :
    (pool.record height wallet output).entropyForHeight h =
      if height = h then
        some (entropyHash64 (preimage ((pool.winnersAt height).insert wallet output)))
      else pool.entropyForHeight h := by
  rw [entropyForHeight, record, ExtTreeMap.getElem?_insert]
  simp only [LawfulEqCmp.compare_eq_iff_eq]
  rfl

theorem Sound.record (h : pool.Sound) (hwallet : CanonicalWallet wallet)
    (hroom : pool.Room height wallet) : (pool.record height wallet output).Sound := by
  obtain ⟨hcanonical, hsize⟩ := h.insert_winner hwallet hroom output
  refine ⟨?_, ?_, ?_, ?_⟩
  · intro h' m hm
    rw [getElem?_record] at hm
    split at hm
    · cases hm
      exact ExtTreeMap.insert_ne_empty
    · exact h.nonempty hm
  · intro h' m w hm hw
    rw [getElem?_record] at hm
    split at hm
    · cases hm
      exact hcanonical w hw
    · exact h.canonical hm hw
  · intro h' m hm
    rw [getElem?_record] at hm
    split at hm
    · cases hm
      exact hsize
    · exact h.size_le hm
  · intro h'
    rw [entropyForHeight_record, getElem?_record]
    split
    · rfl
    · exact h.entropy h'

theorem preserves_recordSuccessChecked :
    Preserves Sound (recordSuccessChecked height wallet output) := by
  intro pool h
  rcases recordSuccessChecked_cases h height wallet output with
    ⟨e, hrun⟩ | ⟨canon, hwallet, hroom, hrun⟩
  · rw [hrun]
    exact h
  · rw [hrun]
    exact h.record hwallet hroom

theorem Sound.gcBelow (h : pool.Sound) (minHeight : UInt64) : (pool.gcBelow minHeight).Sound := by
  have hread {ν : Type} (m : ExtTreeMap UInt64 ν) (k : UInt64) :
      (m.filter fun h _ => minHeight ≤ h)[k]? = if minHeight ≤ k then m[k]? else none := by
    rw [ExtTreeMap.getElem?_filter']
    cases m[k]? with
    | none => simp
    | some v => simp [Option.filter]
  have hwinners (k : UInt64) : (pool.gcBelow minHeight).winners[k]? =
      if minHeight ≤ k then pool.winners[k]? else none := hread pool.winners k
  have hkept {k : UInt64} {m : WinnerMap} (hm : (pool.gcBelow minHeight).winners[k]? = some m) :
      pool.winners[k]? = some m := by
    rw [hwinners] at hm
    split at hm
    · exact hm
    · cases hm
  refine ⟨fun hm => h.nonempty (hkept hm), fun hm => h.canonical (hkept hm),
    fun hm => h.size_le (hkept hm), fun k => ?_⟩
  rw [hwinners, entropyForHeight, PorPuzzlePool.gcBelow, hread]
  split
  · exact h.entropy k
  · rfl

end Record
end PorPuzzlePool
end Remzar
