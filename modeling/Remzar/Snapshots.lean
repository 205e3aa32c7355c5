import Mathlib
import Remzar.Lib.MapCodec
import Remzar.Solvency
import Remzar.PendingQueue
import Remzar.BranchSwitch

/-! The account state on disk: the versioned snapshot and the layout before it, written, read back
and filled in. -/
namespace Remzar
open Std Fallible Effects Checked Ledger AccountGuard

/-! ### The two layouts -/

abbrev BalanceListing := Postcard.Listing String UInt64 Text.byteOrder

def balancesCodec : Postcard.Codec (List (String × UInt64)) :=
  Postcard.vec (Postcard.pair Postcard.string Postcard.u64)

/-- A snapshot, field by field, with its balances as a list of entries. -/
abbrev SnapshotFields := UInt64 × List (String × UInt64) × UInt64 × Hash × Hash × Bool × UInt64 ×
  UInt64 × UInt64

open Postcard in
def snapshotCodec : Postcard.Codec SnapshotFields :=
  pair u64 (pair balancesCodec (pair u64 (pair (array 64) (pair (array 64) (pair Postcard.bool
    (pair u64 (pair u64 u64)))))))

def AccountStateSnapshot.fields (listing : BalanceListing) (p : AccountStateSnapshot) : SnapshotFields :=
  (p.version, listing.entries p.balances, p.tipHeight, p.tipHash, p.prevTipHash, p.hasTip,
    p.totalIssuedMicro, p.rewardsIssuedMicro, p.reservedIssuedMicro)

def AccountStateSnapshot.ofFields : SnapshotFields → AccountStateSnapshot
  | (version, entries, tipHeight, tipHash, prevTipHash, hasTip, total, rewards, reserved) =>
    ⟨version, ExtTreeMap.ofList entries _, tipHeight, tipHash, prevTipHash, hasTip, total, rewards,
      reserved⟩

/-- `to_allocvec`, with the hash map in some order. -/
def AccountStateSnapshot.toAllocvec (listing : BalanceListing) (p : AccountStateSnapshot) : List UInt8 :=
  snapshotCodec.enc (p.fields listing)

structure LegacyInnerTree where
  balances : Balances
  blocks : List Block
  totalIssuedMicro : UInt64
  rewardsIssuedMicro : UInt64
  reservedIssuedMicro : UInt64

open Postcard in
def legacyCodec : Postcard.Codec (List (String × UInt64) × List Block × UInt64 × UInt64 × UInt64) :=
  pair balancesCodec (pair (vec Block.codec) (pair u64 (pair u64 u64)))

def LegacyInnerTree.ofFields :
    List (String × UInt64) × List Block × UInt64 × UInt64 × UInt64 → LegacyInnerTree
  | (entries, blocks, total, rewards, reserved) =>
    ⟨ExtTreeMap.ofList entries _, blocks, total, rewards, reserved⟩

namespace AccountModelTree

def innerFromSnapshot (p : AccountStateSnapshot) : InnerTree :=
  ⟨p.balances, p.tipHeight, p.tipHash, p.prevTipHash, p.hasTip, [], p.totalIssuedMicro,
    p.rewardsIssuedMicro, p.reservedIssuedMicro⟩

/-- The tip of the old layout is its last block. -/
def innerFromLegacy (legacy : LegacyInnerTree) : InnerTree :=
  let blocks := drainExcess legacy.blocks
  match legacy.blocks.reverse with
  | [] => ⟨legacy.balances, 0, zeroHash, zeroHash, false, blocks, legacy.totalIssuedMicro,
      legacy.rewardsIssuedMicro, legacy.reservedIssuedMicro⟩
  | tip :: rest =>
    let prevTipHash := match rest with
      | prev :: _ => prev.blockHash
      | [] => tip.metadata.previousHash
    ⟨legacy.balances, tip.metadata.index, tip.blockHash, prevTipHash, true, blocks,
      legacy.totalIssuedMicro, legacy.rewardsIssuedMicro, legacy.reservedIssuedMicro⟩

def backfillTotal (s : InnerTree) : Fallible InnerTree :=
  if s.totalIssuedMicro = 0 ∧ !s.balances.isEmpty then do
    let totalSupply ← okOr (checkedTotal s.balances)
      (validationErr "Overflow while backfilling total_issued_micro")
    return { s with totalIssuedMicro := totalSupply }
  else .ok s

def backfillRewards (s : InnerTree) : InnerTree :=
  if s.rewardsIssuedMicro = 0 ∧ 0 < s.totalIssuedMicro then
    { s with rewardsIssuedMicro := s.totalIssuedMicro }
  else s

def backfillTotalIssuedIfMissing (s : InnerTree) : Fallible InnerTree := do
  let s ← backfillTotal s
  return backfillRewards s

/-- Does the versioned decoder take these bytes? -/
def versionedSnapshot (data : List UInt8) : Option AccountStateSnapshot :=
  match Postcard.takeFromBytes snapshotCodec data with
  | .ok (fields, []) =>
    let snapshot := AccountStateSnapshot.ofFields fields
    if snapshot.version = accountStateSnapshotVersion then some snapshot else none
  | _ => none

def decodeLegacy (data : List UInt8) : Fallible LegacyInnerTree := do
  let (fields, remaining) ← mapErr (fun e => .serializationError
    s!"Deserialize account state failed as compact or legacy: {e.describe}")
    (Postcard.takeFromBytes legacyCodec data)
  rejectIf (remaining ≠ []) (.serializationError
    "Deserialize legacy account state failed: trailing bytes rejected")
  return LegacyInnerTree.ofFields fields

def decodeEither (data : List UInt8) : Fallible InnerTree :=
  match versionedSnapshot data with
  | some snapshot => .ok (innerFromSnapshot snapshot)
  | none => do
    let legacy ← decodeLegacy data
    return innerFromLegacy legacy

def decodeInnerStateStrict (data : List UInt8) : Fallible InnerTree := do
  let inner ← decodeEither data
  let inner ← backfillTotalIssuedIfMissing inner
  verifyCompactStateInvariants inner none none none
  return inner

/-! ### Writing and reading -/

-- The two writers check alike and word their refusal differently.
def snapshotBytes (listing : BalanceListing) (refusal : ℕ → String) (s : InnerTree) :
    Fallible (List UInt8) := do
  verifyCompactStateInvariants s none none none
  let bytes := (snapshotFromInner s).toAllocvec listing
  rejectIf (maxAccountStateSnapshotBytes < bytes.length) (.serializationError (refusal bytes.length))
  return bytes

/-- The database, and what stands under the state key in bytes. -/
structure StateStore where
  db : RockDB
  stateBytes : Option (List UInt8)

def commit (listing : BalanceListing) (s : InnerTree) (store : StateStore) : Fallible StateStore := do
  let bytes ← snapshotBytes listing (fun len =>
    s!"Refusing to write oversized account STATE_KEY snapshot: {len} bytes > {maxAccountStateSnapshotBytes} bytes. This prevents accidental reintroduction of unbounded serialized state.")
    s
  mapErr (fun e => .storageError e.display) store.db.batchProcessAll
  return { store with stateBytes := some bytes }

def loadState (listing : BalanceListing) (store : StateStore) :
    Fallible (AccountModelTree × StateStore) := do
  let bytes ← okOr store.stateBytes (.notFound "Account state")
  let inner ← decodeInnerStateStrict bytes
  let store ← commit listing inner store
  return (withManager.withInner inner, store)

/-! ### The bytes of a snapshot -/

section
variable {s : InnerTree} {listing : BalanceListing}

/-- What is short enough to be written is short enough to be read back. -/
theorem fits_of_length {p : AccountStateSnapshot}
    (h : (p.toAllocvec listing).length ≤ maxAccountStateSnapshotBytes) :
    snapshotCodec.Fits (p.fields listing) := by
  let entry := Postcard.pair Postcard.string Postcard.u64
  have hcap : maxAccountStateSnapshotBytes < 2^64 := by decide
  have hlist : ((listing.entries p.balances).flatMap entry.enc).length ≤
      (p.toAllocvec listing).length := by
    change _ ≤ (Postcard.u64.enc p.version ++ ((Postcard.usize.enc (listing.entries p.balances).length ++
      (listing.entries p.balances).flatMap entry.enc) ++ _)).length
    simp only [List.length_append]
    omega
  have hnonempty (e : String × UInt64) : entry.enc e ≠ [] := by
    change Postcard.string.enc e.1 ++ Postcard.u64.enc e.2 ≠ []
    exact List.append_ne_nil_of_right_ne_nil _ (Postcard.encodeVarint_ne_nil 9 _)
  have hcount := Postcard.length_le_flatMap hnonempty (listing.entries p.balances)
  refine ⟨trivial, ⟨?_, fun e he => ⟨?_, trivial⟩⟩, trivial, trivial, trivial, trivial, trivial,
    trivial, trivial⟩
  · change (listing.entries p.balances).length < 2^64
    omega
  · have hentry : (entry.enc e).length ≤ ((listing.entries p.balances).flatMap entry.enc).length :=
      Postcard.enc_length_le_flatMap he
    change (Postcard.string.enc e.1 ++ Postcard.u64.enc e.2).length ≤ _ at hentry
    rw [List.length_append] at hentry
    have hstring := Postcard.string_enc_length e.1
    change (Text.utf8 e.1).length < 2^64
    omega

theorem ofFields_fields (p : AccountStateSnapshot) :
    AccountStateSnapshot.ofFields (p.fields listing) = p := by
  have hbalances : ExtTreeMap.ofList (listing.entries p.balances) Text.byteOrder = p.balances :=
    Postcard.ofList_perm (listing.perm p.balances)
  unfold AccountStateSnapshot.fields AccountStateSnapshot.ofFields
  dsimp only
  rw [hbalances]

/-- The versioned decoder takes what is written, as it was written. -/
theorem versionedSnapshot_toAllocvec
    (h : ((snapshotFromInner s).toAllocvec listing).length ≤ maxAccountStateSnapshotBytes) :
    versionedSnapshot ((snapshotFromInner s).toAllocvec listing) = some (snapshotFromInner s) := by
  have hread := Postcard.takeFromBytes_enc snapshotCodec _ (fits_of_length h)
  unfold versionedSnapshot AccountStateSnapshot.toAllocvec
  rw [hread]
  dsimp only
  rw [ofFields_fields]
  exact if_pos rfl

/-! ### What survives a round trip -/

/-- Nothing is left to fill in. -/
structure Counted (s : InnerTree) : Prop where
  total : s.totalIssuedMicro = 0 → Ledger.total s.balances = 0
  rewards : s.rewardsIssuedMicro = 0 → s.totalIssuedMicro = 0

/-- A state that is fit to be written and to be read back. -/
structure Persistable (s : InnerTree) : Prop extends Counted s where
  compact : verifyCompactStateInvariants s none none none = .ok ()

theorem Counted.backfill (h : Counted s) : backfillTotalIssuedIfMissing s = .ok s := by
  have htotal : backfillTotal s = .ok s := by
    unfold backfillTotal
    split
    · rename_i hzero
      have hsum : checkedTotal s.balances = some 0 :=
        (checkedTotal_eq_some_iff _ _).mpr (h.total hzero.1)
      rw [hsum, ← hzero.1]
      rfl
    · rfl
  have hrewards : backfillRewards s = s := by
    apply if_neg
    rintro ⟨hzero, hpos⟩
    rw [h.rewards hzero] at hpos
    exact absurd hpos (by decide)
  rw [backfillTotalIssuedIfMissing, htotal, ok_bind, hrewards]
  rfl

/-- The recent blocks are not written, and nothing that is checked needs them. -/
theorem Persistable.withoutBlocks (h : Persistable s) : Persistable { s with blocks := [] } where
  compact := by
    have hcompact := h.compact
    simp only [verifyCompactStateInvariants, bind_eq_ok_iff] at hcompact
    obtain ⟨-, -, -, -, -, -, -, -, -, -, -, -, hsupply⟩ := hcompact
    exact hsupply
  total := h.total
  rewards := h.rewards

/-- What is written is read back, up to the recent blocks. -/
theorem Persistable.decode (h : Persistable s)
    (hlen : ((snapshotFromInner s).toAllocvec listing).length ≤ maxAccountStateSnapshotBytes) :
    decodeInnerStateStrict ((snapshotFromInner s).toAllocvec listing) =
      .ok { s with blocks := [] } := by
  have hbare := h.withoutBlocks
  rw [decodeInnerStateStrict, decodeEither, versionedSnapshot_toAllocvec hlen]
  change (backfillTotalIssuedIfMissing { s with blocks := [] } >>= _) = _
  rw [hbare.backfill, ok_bind, hbare.compact]
  rfl

end

/-! ### Reachable states -/

/-- The states that a tree can get to, with whatever the database holds at each call. A state that
is loaded may come from any bytes. -/
inductive Reached [Blake3] : InnerTree → Prop
  | withManager : Reached InnerTree.empty
  | applyBlock {s : ChainState} (block : Block) (h : Reached s.tree.inner) :
    Reached (storeOf (Remzar.applyBlock block s)).tree.inner
  | reloadFromDbToHeight {s : ChainState} (height : UInt64) (h : Reached s.tree.inner) :
    Reached (storeOf (Remzar.reloadFromDbToHeight height s)).tree.inner
  | loadState {listing : BalanceListing} {store store' : StateStore} {t : AccountModelTree}
    (h : AccountModelTree.loadState listing store = .ok (t, store')) : Reached t.inner

section
variable {s next : InnerTree}

/-- Counters that are complete stay so: they move together. -/
theorem Counted.of_moves {w : ℕ} (h : Counted s) (hmoves : Moves s next w)
    (hnext : verifyStateInvariants next none = .ok ()) : Counted next where
  total hzero := by
    have hsupply := verifyStateInvariants_supply next none hnext
    simp only [verifyStateInvariants, bind_eq_ok_iff] at hnext
    obtain ⟨-, -, _, haccounts, -⟩ := hnext
    rw [(solvent_of_verified ((forM_eq_ok_iff _ _).mp haccounts) hsupply).sum, hzero]
    rfl
  rewards hzero := by
    have hrewards := hmoves.rewards
    have hissued := hmoves.issued
    rw [hzero] at hrewards
    have hboth : s.rewardsIssuedMicro.toNat = 0 ∧ w = 0 := by
      change 0 = s.rewardsIssuedMicro.toNat + w at hrewards
      omega
    have hold := h.rewards (UInt64.toNat_inj.mp hboth.1)
    apply UInt64.toNat_inj.mp
    rw [hissued, hold, hboth.2]
    rfl

variable [Blake3]

theorem Counted.replayInner {db : RockDB} {idx : UInt64} (h : Counted s)
    (hrun : replayInner db s idx = .ok next) : Counted next := by
  simp only [Remzar.replayInner, bind_eq_ok_iff] at hrun
  obtain ⟨⟨block, remembered⟩, hblock, hrun⟩ := hrun
  obtain ⟨-, -, rfl⟩ := replayBlock_ok hblock
  have hremembered : Counted (rememberRecentBlock s block) := ⟨h.total, h.rewards⟩
  cases hbytes : db.getBatchBytesByIndex idx with
  | none =>
    simp only [hbytes] at hrun
    rw [replayMissingBatch_ok hrun]
    exact hremembered
  | some bytes =>
    simp only [hbytes, bind_eq_ok_iff, pure_eq_ok_iff] at hrun
    obtain ⟨⟨next', batch⟩, hbatch, rfl⟩ := hrun
    simp only [replayBatch, bind_eq_ok_iff, mapErr_eq_ok_iff, pure_eq_ok_iff] at hbatch
    obtain ⟨batch', -, -, -, ⟨mid, outcome⟩, happly, heq⟩ := hbatch
    cases heq
    have happlied := applyBatchToState_applied _ _ _ _ _ happly
    exact hremembered.of_moves happlied.moves happlied.invariants

theorem Persistable.applyBlock {s : ChainState} (h : Persistable s.tree.inner) (block : Block) :
    Persistable (storeOf (Remzar.applyBlock block s)).tree.inner := by
  have houtcome := applyBlock_outcome block s
  revert houtcome
  generalize Remzar.applyBlock block s = out
  intro houtcome
  cases houtcome with
  | refused e s' htree =>
    change Persistable s'.tree.inner
    rw [htree]
    exact h
  | known hknown => exact h
  | executed batch next outcome s' hplan hrun =>
    change Persistable s'.tree.inner
    rw [executePlan_ok hrun]
    have happlied := dryRun_applied hplan.dryRun
    have hremembered : Counted (rememberRecentBlockForGuard s.tree.inner block) :=
      ⟨h.total, h.rewards⟩
    have htip : next.hasTip = true := by
      rw [happlied.moves.rest]
      rfl
    exact ⟨hremembered.of_moves happlied.moves happlied.invariants,
      verifyCompactStateInvariants_of_guard htip happlied.invariants⟩

end

end AccountModelTree

namespace Sample

end Sample

end Remzar
