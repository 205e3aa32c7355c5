import Mathlib
import Remzar.WalletMap

/-! Runs of the private wallet index: whatever calls succeed or fail on the way, the stored file is
a map from one-time wallets, and a rebuild does not depend on the order of the records. -/
namespace Remzar
open Std Fallible Text Buckets Effects
namespace PrivateWI

section Calls
variable (jsonLen : PrivateWalletIndexFile → ℕ)

/-! ### What is stored -/

def entriesOf : Stored → OwnedEntries
  | some index => index.entriesByOwner
  | none => ∅

/-- Nothing, or a sound index that can be read again. -/
structure Kept (stored : Stored) : Prop where
  sound : Sound (entriesOf stored)
  valid : ∀ index, stored = some index → validateIndexFile index = .ok ()
  size : ∀ index, stored = some index → jsonLen index ≤ maxPrivateIndexJsonBytes

/-- The index that replaces the file when one is saved. -/
def saved (world : IndexWorld) (index : PrivateWalletIndexFile) :
    Fallible PrivateWalletIndexFile := do
  world.saveDirectories
  let index ← canonicalizeIndexInPlace index
  validateIndexFile index
  rejectIf (maxPrivateIndexJsonBytes < jsonLen index) (validationErr (
    s!"Private wallet index JSON too large to save: {jsonLen index} > " ++
      s!"{maxPrivateIndexJsonBytes} bytes"))
  return index

/-- The entry an addition returns, and the index it saves. -/
def addedIndex (path : List UInt8) (world : IndexWorld) (request : PrivateWalletIndexAddRequest)
    (stored : Stored) : Fallible (PrivateWalletIndexEntry × PrivateWalletIndexFile) := do
  world.faultPre
  world.directories
  let entry ← buildEntry path world request
  validateEntry entry
  (if request.requireOneTimeWalletFile then world.walletFile else .ok ())
  let index ← loadOrNew jsonLen world stored
  let index ← insertOrReplaceEntry index entry
  let index ← stampIndex world index
  let index ← saved jsonLen world index
  return (entry, index)

/-- The entry a removal returns, and the index it saves if there is one. -/
def removedIndex (world : IndexWorld) (wallet : String) (stored : Stored) :
    Fallible (Option (PrivateWalletIndexEntry × PrivateWalletIndexFile)) := do
  world.faultPre
  let oneTimeWallet ← canonicalWallet wallet
  let index ← loadOrNew jsonLen world stored
  match index.entriesByOwner.keys.foldl (removeStep oneTimeWallet) (index.entriesByOwner, none) with
  | (_, none) => return none
  | (entriesByOwner, some entry) => do
    let index ← stampIndex world { index with entriesByOwner }
    let index ← saved jsonLen world index
    return some (entry, index)

variable {jsonLen}

theorem Kept.none : Kept jsonLen none := ⟨Sound.empty, nofun, nofun⟩

theorem nowUnixSecsRuntime_headed {clock : Int64} {now : UInt64}
    (h : nowUnixSecsRuntime clock = .ok now) :
    Headed ⟨privateWalletIndexKind, privateReceiveVersion, now, now, ∅⟩ :=
  ⟨rfl, rfl, nowUnixSecsRuntime_ne_zero h, nowUnixSecsRuntime_ne_zero h⟩

theorem Within.empty : Within ∅ := by
  refine ⟨by rw [ExtTreeMap.size_empty]; exact Nat.zero_le _, fun k => ?_, ?_⟩
  · rw [bucket_empty]
    exact Nat.zero_le _
  · rw [← length_items, items_empty]
    exact Nat.zero_le _

theorem newEmptyIndex_ok_iff {clock : Int64} {index : PrivateWalletIndexFile} :
    newEmptyIndex clock = .ok index ↔ ∃ now, nowUnixSecsRuntime clock = .ok now ∧
      index = ⟨privateWalletIndexKind, privateReceiveVersion, now, now, ∅⟩ := by
  simp only [newEmptyIndex, bind_eq_ok_iff, pure_eq_ok_iff, Unique.exists_iff]
  constructor
  · rintro ⟨now, hnow, -, rfl⟩
    exact ⟨now, hnow, rfl⟩
  · rintro ⟨now, hnow, rfl⟩
    exact ⟨now, hnow, Sound.empty.validate_iff.mpr
      ⟨nowUnixSecsRuntime_headed hnow, Within.empty⟩, rfl⟩

theorem loadIndex_ok_iff {stored : Stored} (h : Kept jsonLen stored) {world : IndexWorld}
    {index : PrivateWalletIndexFile} : loadIndex jsonLen world stored = .ok index ↔
      world.directory = .ok () ∧ stored = some index ∧ world.opened = .ok () := by
  simp only [loadIndex, bind_eq_ok_iff, okOr_eq_ok_iff, rejectIf_eq_ok_iff, pure_eq_ok_iff,
    ioErr_eq_ok_iff, Nat.not_lt, Unique.exists_iff]
  constructor
  · rintro ⟨hdirectory, found, rfl, hopened, -, canonical, hcanonical, -, rfl⟩
    rw [h.sound.canonicalize rfl] at hcanonical
    rw [Except.ok.inj hcanonical]
    exact ⟨hdirectory, rfl, hopened⟩
  · rintro ⟨hdirectory, rfl, hopened⟩
    exact ⟨hdirectory, index, rfl, hopened, h.size index rfl, index, h.sound.canonicalize rfl,
      h.valid index rfl, rfl⟩

/-- What is loaded has the entries that are stored. -/
theorem loadOrNew_ok {stored : Stored} (h : Kept jsonLen stored) {world : IndexWorld}
    {index : PrivateWalletIndexFile} (hload : loadOrNew jsonLen world stored = .ok index) :
    index.entriesByOwner = entriesOf stored ∧ Headed index := by
  rw [loadOrNew] at hload
  split at hload
  · rename_i loaded hloaded
    cases hload
    obtain ⟨-, rfl, -⟩ := (loadIndex_ok_iff h).mp hloaded
    exact ⟨rfl, (h.sound.validate_iff.mp (h.valid _ rfl)).1⟩
  · rename_i resource hmissing
    obtain ⟨now, hnow, rfl⟩ := newEmptyIndex_ok_iff.mp hload
    refine ⟨?_, nowUnixSecsRuntime_headed hnow⟩
    cases stored with
    | none => rfl
    | some found =>
      -- Only a missing file is taken for an empty index.
      exfalso
      simp only [loadIndex, okOr, ok_bind, h.sound.canonicalize (rfl : found.entriesByOwner = _),
        h.valid found rfl] at hmissing
      cases hdirectory : world.directory with
      | error e =>
        rw [hdirectory] at hmissing
        cases hmissing
      | ok _ =>
        cases hopened : world.opened with
        | error e =>
          rw [hdirectory, hopened] at hmissing
          cases hmissing
        | ok _ =>
          rw [hdirectory, hopened,
            rejectIf_of_not _ (Nat.not_lt.mpr (h.size found rfl))] at hmissing
          cases hmissing
  · cases hload

theorem loadOrNew_of_readable {stored : Stored} (h : Kept jsonLen stored) {world : IndexWorld}
    (hdirectory : world.directory = .ok ()) (hopened : world.opened = .ok ())
    (hclock : succeeds (nowUnixSecsRuntime world.empty)) :
    ∃ index, loadOrNew jsonLen world stored = .ok index := by
  cases stored with
  | some found =>
    have hload := (loadIndex_ok_iff h).mpr ⟨hdirectory, rfl, hopened⟩
    exact ⟨found, by rw [loadOrNew, hload]⟩
  | none =>
    obtain ⟨now, hnow⟩ := (succeeds_iff _).mp hclock
    have hmissing : loadIndex jsonLen world none =
        .error (.notFound "Private wallet index not found") := by
      rw [loadIndex, hdirectory]
      rfl
    exact ⟨_, by rw [loadOrNew, hmissing]; exact newEmptyIndex_ok_iff.mpr ⟨now, hnow, rfl⟩⟩

theorem lookupEntry_of_readable {stored : Stored} (h : Kept jsonLen stored) {world : IndexWorld}
    {wallet canon : String} (hwallet : canonWalletIdChecked wallet = .ok canon)
    (hdirectory : world.directory = .ok ()) (hopened : world.opened = .ok ())
    (hclock : succeeds (nowUnixSecsRuntime world.empty)) :
    lookupEntry jsonLen world wallet stored =
      .ok ((book (entriesOf stored) canon).map fun e => ⟨e.ownerWallet, e⟩) := by
  obtain ⟨index, hload⟩ := loadOrNew_of_readable h hdirectory hopened hclock
  obtain ⟨hentries, -⟩ := loadOrNew_ok h hload
  rw [lookupEntry, canonicalWallet_ok_iff.mpr hwallet, ok_bind, hload, ok_bind,
    findEntry_eq h.sound.filed hentries]
  rfl

/-! ### Saving -/

theorem saveIndex_run (world : IndexWorld) (index : PrivateWalletIndexFile) (stored : Stored) :
    saveIndex jsonLen world index stored =
      (lift (saved jsonLen world index) >>=
        atomicReplacePrivateFile world.replacement) stored := by
  refine lift_bind_of fun _ => ?_
  refine lift_bind_of fun index => ?_
  refine lift_bind_of fun _ => ?_
  refine lift_bind_of fun _ => ?_
  rfl

theorem saved_ok {world : IndexWorld} {index index' : PrivateWalletIndexFile}
    (h : Sound index.entriesByOwner) (hsaved : saved jsonLen world index = .ok index') :
    index' = index ∧ validateIndexFile index = .ok () ∧
      jsonLen index ≤ maxPrivateIndexJsonBytes := by
  simp only [saved, bind_eq_ok_iff, rejectIf_eq_ok_iff, pure_eq_ok_iff, Nat.not_lt,
    h.canonicalize rfl, Except.ok.injEq, Unique.exists_iff] at hsaved
  obtain ⟨-, _, rfl, hvalid, hsize, rfl⟩ := hsaved
  exact ⟨rfl, hvalid, hsize⟩

theorem stampIndex_ok {world : IndexWorld} {index index' : PrivateWalletIndexFile}
    (h : stampIndex world index = .ok index') : index'.entriesByOwner = index.entriesByOwner := by
  simp only [stampIndex, bind_eq_ok_iff, pure_eq_ok_iff, Unique.exists_iff] at h
  obtain ⟨_, -, -, rfl⟩ := h
  rfl

/-- How the store is left by a replacement and what comes after it. -/
theorem replaced_cases {α : Type} (world : IndexWorld) (index : PrivateWalletIndexFile) (a : α)
    (stored : Stored) {r : EStateM.Result ErrorDetection Stored α}
    (h : (do atomicReplacePrivateFile world.replacement index; lift world.faultPost; return a)
      stored = r) :
    r = .ok a (some index) ∨ (∃ e, r = .error e stored) ∨
      (∃ e, r = .error e none ∧ succeeds world.replacement.renamed = false ∧
        world.replacement.restored = false) ∨
      ∃ e, r = .error e (some index) ∧ succeeds world.replacement.renamed = true ∧
        (succeeds world.replacement.cleaned = false ∨ succeeds world.faultPost = false) := by
  subst h
  rw [bind_run, atomicReplacePrivateFile]
  cases hprepared : world.replacement.prepared with
  | error e => exact .inr (.inl ⟨e, rfl⟩)
  | ok _ =>
    cases hrenamed : world.replacement.renamed with
    | error e =>
      cases hrestored : world.replacement.restored with
      | true => exact .inr (.inl ⟨e, rfl⟩)
      | false => exact .inr (.inr (.inl ⟨e, rfl, rfl, rfl⟩))
    | ok _ =>
      cases hcleaned : (if stored.isSome then world.replacement.cleaned else .ok ()) with
      | error e =>
        refine .inr (.inr (.inr ⟨e, by simp only, rfl, .inl ?_⟩))
        split at hcleaned
        · rw [hcleaned]
          rfl
        · cases hcleaned
      | ok _ =>
        simp only
        rw [bind_run]
        cases hpost : world.faultPost with
        | error e => exact .inr (.inr (.inr ⟨e, rfl, rfl, .inr rfl⟩))
        | ok _ => exact .inl rfl

/-! ### Calls -/

theorem addEntry_run (path : List UInt8) (world : IndexWorld)
    (request : PrivateWalletIndexAddRequest) (stored : Stored) :
    addEntry jsonLen path world request stored =
      (lift (addedIndex jsonLen path world request stored) >>= fun p => do
        atomicReplacePrivateFile world.replacement p.2
        lift world.faultPost
        return p.1) stored := by
  refine lift_bind_of fun _ => ?_
  refine lift_bind_of fun _ => ?_
  refine lift_bind_of fun entry => ?_
  refine lift_bind_of fun _ => ?_
  refine lift_bind_of fun _ => ?_
  change (lift (loadOrNew jsonLen world stored) >>= _) stored = _
  refine lift_bind_of fun index => ?_
  refine lift_bind_of fun index => ?_
  refine lift_bind_of fun index => ?_
  rw [bind_run, saveIndex_run, ← bind_run, bind_assoc]
  exact lift_bind_of fun index => rfl

theorem removeOneTimeWallet_run (world : IndexWorld) (wallet : String) (stored : Stored) :
    removeOneTimeWallet jsonLen world wallet stored =
      (lift (removedIndex jsonLen world wallet stored) >>= fun found =>
        match found with
        | none => do
          lift world.faultPost
          return none
        | some (entry, index) => do
          atomicReplacePrivateFile world.replacement index
          lift world.faultPost
          return some entry) stored := by
  refine lift_bind_of fun _ => ?_
  refine lift_bind_of fun canon => ?_
  change (lift (loadOrNew jsonLen world stored) >>= _) stored = _
  refine lift_bind_of fun index => ?_
  rcases index.entriesByOwner.keys.foldl (removeStep canon) (index.entriesByOwner, none) with
    ⟨entriesByOwner, _ | entry⟩
  · rfl
  · change (lift (stampIndex world { index with entriesByOwner }) >>= fun index =>
      saveIndex jsonLen world index >>= fun _ => lift world.faultPost >>= fun _ =>
        pure (some entry)) stored = _
    refine lift_bind_of fun index => ?_
    rw [bind_run, saveIndex_run, ← bind_run, bind_assoc]
    exact lift_bind_of fun index => rfl

/-- Every entry of the book comes with its wallet, and an index is within what the code checks. -/
theorem Kept.save {world : IndexWorld} {index index' : PrivateWalletIndexFile}
    (h : Sound index.entriesByOwner) (hsaved : saved jsonLen world index = .ok index') :
    index' = index ∧ Kept jsonLen (some index) := by
  obtain ⟨rfl, hvalid, hsize⟩ := saved_ok h hsaved
  refine ⟨rfl, h, ?_, ?_⟩
  · intro found hfound
    cases hfound
    exact hvalid
  · intro found hfound
    cases hfound
    exact hsize

theorem addedIndex_ok {path : List UInt8} {world : IndexWorld}
    {request : PrivateWalletIndexAddRequest} {stored : Stored} (h : Kept jsonLen stored)
    {entry : PrivateWalletIndexEntry} {index : PrivateWalletIndexFile}
    (hadded : addedIndex jsonLen path world request stored = .ok (entry, index)) :
    canonWalletIdChecked request.oneTimeWallet = .ok entry.oneTimeWallet ∧
      Kept jsonLen (some index) ∧ book index.entriesByOwner =
        Function.update (book (entriesOf stored)) entry.oneTimeWallet (some entry) := by
  simp only [addedIndex, bind_eq_ok_iff, pure_eq_ok_iff, Prod.mk.injEq, Unique.exists_iff] at hadded
  obtain ⟨-, -, entry, hentry, -, -, loaded, hload, put, hput, stamped, hstamped, out, hout, rfl,
    rfl⟩ := hadded
  obtain ⟨hentries, -⟩ := loadOrNew_ok h hload
  have hcanonical := buildEntry_canonical hentry
  have hsound : Sound loaded.entriesByOwner := hentries ▸ h.sound
  obtain ⟨hconflict, rfl, -⟩ := (insertOrReplaceEntry_ok_iff hsound hcanonical).mp hput
  have hstampedEntries := stampIndex_ok hstamped
  have hstampedSound : Sound stamped.entriesByOwner :=
    hstampedEntries ▸ hsound.putEntry hcanonical hconflict
  obtain ⟨rfl, hkept⟩ := Kept.save hstampedSound hout
  refine ⟨?_, hkept, ?_⟩
  · obtain ⟨_, oneTime, _, _, _, _, _, _, -, hone, -, -, -, -, -, -, -, rfl, -⟩ :=
      buildEntry_ok_iff.mp hentry
    exact hone
  · rw [hstampedEntries, hsound.book_putEntry hcanonical hconflict, hentries]

/-- An addition comes to an index when all turns out well and there is room. -/
theorem addedIndex_of_room {path : List UInt8} {world : IndexWorld}
    {request : PrivateWalletIndexAddRequest} {stored : Stored} (h : Kept jsonLen stored)
    (hpre : world.faultPre = .ok ()) (hdirectories : world.directories = .ok ())
    (hdirectory : world.directory = .ok ()) (hopened : world.opened = .ok ())
    (hempty : succeeds (nowUnixSecsRuntime world.empty))
    (hupdated : succeeds (nowUnixSecsRuntime world.updated))
    (hsave : world.saveDirectories = .ok ()) (hfile : request.requireOneTimeWalletFile = false)
    {entry : PrivateWalletIndexEntry} (hentry : buildEntry path world request = .ok entry)
    (hfree : book (entriesOf stored) entry.oneTimeWallet = none)
    (hroom : total (entriesOf stored) < maxPrivateIndexOwners)
    (hsize : ∀ index, jsonLen index ≤ maxPrivateIndexJsonBytes) :
    ∃ index, addedIndex jsonLen path world request stored = .ok (entry, index) := by
  have hcanonical := buildEntry_canonical hentry
  obtain ⟨loaded, hload⟩ := loadOrNew_of_readable h hdirectory hopened hempty
  obtain ⟨hentries, hhead⟩ := loadOrNew_ok h hload
  have hsound : Sound loaded.entriesByOwner := hentries ▸ h.sound
  have hconflict : ∀ e ∈ items loaded.entriesByOwner, e.oneTimeWallet = entry.oneTimeWallet →
      e.ownerWallet = entry.ownerWallet := fun e he hwallet =>
    absurd hwallet (Sound.book_eq_none_iff.mp (hentries ▸ hfree) e he)
  have hput := hsound.putEntry hcanonical hconflict
  have hwithin := hsound.within_putEntry hcanonical hconflict (hentries ▸ hroom)
  obtain ⟨now, hnow⟩ := (succeeds_iff _).mp hupdated
  have hvalid : validateIndexFile
      { loaded with entriesByOwner := putEntry entry loaded.entriesByOwner } = .ok () :=
    hput.validate_iff.mpr ⟨⟨hhead.kind, hhead.version, hhead.created, hhead.updated⟩, hwithin⟩
  have hinsert := (insertOrReplaceEntry_ok_iff hsound hcanonical).mpr ⟨hconflict, rfl, hvalid⟩
  obtain ⟨stamped, hstamped, hentries', hvalid'⟩ : ∃ stamped, stampIndex world
      { loaded with entriesByOwner := putEntry entry loaded.entriesByOwner } = .ok stamped ∧
      stamped.entriesByOwner = putEntry entry loaded.entriesByOwner ∧
      validateIndexFile stamped = .ok () := by
    have hvalid' : validateIndexFile { loaded with
        entriesByOwner := putEntry entry loaded.entriesByOwner
        updatedUnixSecs := now } = .ok () :=
      hput.validate_iff.mpr ⟨⟨hhead.kind, hhead.version, hhead.created,
        nowUnixSecsRuntime_ne_zero hnow⟩, hwithin⟩
    refine ⟨_, ?_, rfl, hvalid'⟩
    simp only [stampIndex, bind_eq_ok_iff, pure_eq_ok_iff, Unique.exists_iff]
    exact ⟨now, hnow, hvalid', rfl⟩
  refine ⟨stamped, ?_⟩
  simp only [addedIndex, bind_eq_ok_iff, pure_eq_ok_iff, saved, rejectIf_eq_ok_iff, Nat.not_lt,
    Unique.exists_iff]
  exact ⟨hpre, hdirectories, entry, hentry, hcanonical.valid, by rw [hfile]; rfl, loaded, hload, _,
    hinsert, stamped, hstamped, stamped, ⟨hsave, stamped, (hentries' ▸ hput).canonicalize rfl,
      hvalid', hsize stamped, rfl⟩, rfl⟩

theorem removedIndex_some {world : IndexWorld} {wallet : String} {stored : Stored}
    (h : Kept jsonLen stored) {entry : PrivateWalletIndexEntry} {index : PrivateWalletIndexFile}
    (hremoved : removedIndex jsonLen world wallet stored = .ok (some (entry, index))) :
    canonWalletIdChecked wallet = .ok entry.oneTimeWallet ∧ Kept jsonLen (some index) ∧
      book (entriesOf stored) entry.oneTimeWallet = some entry ∧ book index.entriesByOwner =
        Function.update (book (entriesOf stored)) entry.oneTimeWallet none := by
  simp only [removedIndex, bind_eq_ok_iff, canonicalWallet_ok_iff, Unique.exists_iff] at hremoved
  obtain ⟨-, canon, hcanon, loaded, hload, hfound⟩ := hremoved
  obtain ⟨hentries, -⟩ := loadOrNew_ok h hload
  rw [hentries, h.sound.removal] at hfound
  cases hbook : book (entriesOf stored) canon with
  | none =>
    rw [hbook] at hfound
    cases hfound
  | some found =>
    rw [hbook] at hfound
    simp only [bind_eq_ok_iff, pure_eq_ok_iff, Option.some.injEq, Prod.mk.injEq] at hfound
    obtain ⟨stamped, hstamped, out, hout, rfl, rfl⟩ := hfound
    obtain ⟨hmem, rfl⟩ := mem_of_book hbook
    have hstampedEntries := stampIndex_ok hstamped
    have hsound : Sound stamped.entriesByOwner := hstampedEntries ▸ h.sound.dropEntry hmem
    obtain ⟨rfl, hkept⟩ := Kept.save hsound hout
    refine ⟨hcanon, hkept, hbook, ?_⟩
    rw [hstampedEntries, h.sound.book_dropEntry hmem]

inductive IndexCall where
  | add (world : IndexWorld) (request : PrivateWalletIndexAddRequest)
  | remove (world : IndexWorld) (wallet : String)

inductive IndexAnswer where
  | added (entry : PrivateWalletIndexEntry)
  | removed (entry : Option PrivateWalletIndexEntry)

namespace IndexCall

def world : IndexCall → IndexWorld
  | .add world _ => world
  | .remove world _ => world

/-- The wallet a call is about, as it is given. -/
def wallet : IndexCall → String
  | .add _ request => request.oneTimeWallet
  | .remove _ wallet => wallet

variable (jsonLen)

def perform (path : List UInt8) : IndexCall → EStateM ErrorDetection Stored IndexAnswer
  | .add world request => .added <$> addEntry jsonLen path world request
  | .remove world wallet => .removed <$> removeOneTimeWallet jsonLen world wallet

end IndexCall

/-- A replacement that fails leaves the old file, and nothing fails once the new one is in place. -/
def settles (world : IndexWorld) : Bool :=
  if succeeds world.replacement.renamed then
    succeeds world.replacement.cleaned && succeeds world.faultPost
  else world.replacement.restored

/-- A book after an answer. -/
def Book.note (b : Book) : IndexAnswer → Book
  | .added entry => Function.update b entry.oneTimeWallet (some entry)
  | .removed (some entry) => Function.update b entry.oneTimeWallet none
  | .removed none => b

/-- The answer is about the wallet of the call. -/
def IndexAnswer.concerns (call : IndexCall) : IndexAnswer → Prop
  | .added entry => canonWalletIdChecked call.wallet = .ok entry.oneTimeWallet
  | .removed (some entry) => canonWalletIdChecked call.wallet = .ok entry.oneTimeWallet
  | .removed none => True

theorem Book.note_other {b : Book} {call : IndexCall} {answer : IndexAnswer} {wallet : String}
    (h : answer.concerns call) (hother : canonWalletIdChecked call.wallet ≠ .ok wallet) :
    b.note answer wallet = b wallet := by
  have hne : ∀ entry : PrivateWalletIndexEntry,
      canonWalletIdChecked call.wallet = .ok entry.oneTimeWallet →
      wallet ≠ entry.oneTimeWallet := by
    rintro entry hentry rfl
    exact hother hentry
  cases answer with
  | added entry => exact Function.update_of_ne (hne entry h) _ _
  | removed entry =>
    cases entry with
    | none => rfl
    | some entry => exact Function.update_of_ne (hne entry h) _ _

/-- A call changes nothing, or it answers and the book changes by its answer, or the file is lost or
changed although the call fails. -/
inductive Performed (jsonLen : PrivateWalletIndexFile → ℕ) (call : IndexCall) (stored : Stored) :
    EStateM.Result ErrorDetection Stored IndexAnswer → Prop
  | unchanged (e : ErrorDetection) : Performed jsonLen call stored (.error e stored)
  | answered (answer : IndexAnswer) (after : Stored) (hkept : Kept jsonLen after)
      (hconcerns : answer.concerns call)
      (hbook : book (entriesOf after) = (book (entriesOf stored)).note answer) :
      Performed jsonLen call stored (.ok answer after)
  | lost (e : ErrorDetection) (hunsettled : settles call.world = false) :
      Performed jsonLen call stored (.error e none)
  | late (e : ErrorDetection) (answer : IndexAnswer) (after : Stored) (hkept : Kept jsonLen after)
      (hconcerns : answer.concerns call)
      (hbook : book (entriesOf after) = (book (entriesOf stored)).note answer)
      (hunsettled : settles call.world = false) : Performed jsonLen call stored (.error e after)

theorem performed_replaced {call : IndexCall} {stored : Stored} {answer : IndexAnswer}
    {index : PrivateWalletIndexFile} (hkept : Kept jsonLen (some index))
    (hconcerns : answer.concerns call)
    (hbook : book index.entriesByOwner = (book (entriesOf stored)).note answer) :
    Performed jsonLen call stored ((do
      atomicReplacePrivateFile call.world.replacement index
      lift call.world.faultPost
      return answer) stored) := by
  rcases replaced_cases call.world index answer stored rfl with h | ⟨e, h⟩ | ⟨e, h, hfail, hlost⟩ |
    ⟨e, h, hdone, hlate⟩
  · rw [h]
    exact .answered answer (some index) hkept hconcerns hbook
  · rw [h]
    exact .unchanged e
  · rw [h]
    exact .lost e (by rw [settles, hfail, hlost]; rfl)
  · rw [h]
    refine .late e answer (some index) hkept hconcerns hbook ?_
    rw [settles, if_pos hdone, Bool.and_eq_false_iff]
    exact hlate

theorem perform_add (path : List UInt8) (world : IndexWorld)
    (request : PrivateWalletIndexAddRequest) (stored : Stored) :
    IndexCall.perform jsonLen path (.add world request) stored =
      (lift (addedIndex jsonLen path world request stored) >>= fun p => do
        atomicReplacePrivateFile world.replacement p.2
        lift world.faultPost
        return .added p.1) stored := by
  rw [IndexCall.perform, map_eq_pure_bind, bind_run, addEntry_run, ← bind_run]
  simp only [bind_assoc, pure_bind]

theorem performed (path : List UInt8) (call : IndexCall) {stored : Stored}
    (h : Kept jsonLen stored) :
    Performed jsonLen call stored (call.perform jsonLen path stored) := by
  cases call with
  | add world request =>
    rw [perform_add]
    cases hadded : addedIndex jsonLen path world request stored with
    | error e => exact .unchanged e
    | ok p =>
      obtain ⟨hwallet, hkept, hbook⟩ := addedIndex_ok h hadded
      exact @performed_replaced jsonLen (.add world request) stored (.added p.1) p.2 hkept hwallet
        hbook
  | remove world wallet =>
    rw [IndexCall.perform, map_eq_pure_bind, bind_run, removeOneTimeWallet_run, ← bind_run,
      bind_assoc]
    cases hremoved : removedIndex jsonLen world wallet stored with
    | error e => exact .unchanged e
    | ok found =>
      cases found with
      | none =>
        change Performed jsonLen _ stored (((lift world.faultPost >>= fun _ => pure none) >>=
          fun entry => pure (IndexAnswer.removed entry)) stored)
        cases hpost : world.faultPost with
        | error e => exact .unchanged e
        | ok _ => exact .answered (.removed none) stored h trivial rfl
      | some p =>
        obtain ⟨hwallet, hkept, -, hbook⟩ := removedIndex_some h hremoved
        have hrun := @performed_replaced jsonLen (.remove world wallet) stored
          (.removed (some p.1)) p.2 hkept hwallet hbook
        change Performed jsonLen _ stored (((do
          atomicReplacePrivateFile world.replacement p.2
          lift world.faultPost
          return some p.1) >>= fun entry => pure (IndexAnswer.removed entry)) stored)
        simp only [bind_assoc, pure_bind]
        exact hrun

/-! ### Runs -/

section Runs
variable (jsonLen) (path : List UInt8)

/-- The book the answers of calls add up to: the last addition of a wallet not followed by its
removal. -/
def noted (b : Book) : EStateM.Result ErrorDetection Stored IndexAnswer → Book
  | .ok answer _ => b.note answer
  | .error _ _ => b

def runCall (s : Stored × Book) (call : IndexCall) : Stored × Book :=
  let r := call.perform jsonLen path s.1
  (storeOf r, noted s.2 r)

def runCalls (calls : List IndexCall) : Stored × Book :=
  calls.foldl (runCall jsonLen path) (none, fun _ => none)

variable {jsonLen path}

theorem Kept.performed {call : IndexCall} {stored : Stored} (h : Kept jsonLen stored) :
    Kept jsonLen (storeOf (call.perform jsonLen path stored)) := by
  have hrun := PrivateWI.performed path call h
  generalize call.perform jsonLen path stored = r at hrun
  cases hrun with
  | unchanged e => exact h
  | answered answer after hkept _ _ => exact hkept
  | lost e _ => exact Kept.none
  | late e answer after hkept _ _ _ => exact hkept

theorem runCall_book {call : IndexCall} {s : Stored × Book} (h : Kept jsonLen s.1)
    (hbook : book (entriesOf s.1) = s.2) (hsettles : settles call.world = true) :
    book (entriesOf (runCall jsonLen path s call).1) = (runCall jsonLen path s call).2 := by
  have hrun := performed path call h
  rw [runCall]
  generalize call.perform jsonLen path s.1 = r at hrun
  cases hrun with
  | unchanged e => exact hbook
  | answered answer after _ _ hafter => exact hafter.trans (congrArg (Book.note · answer) hbook)
  | lost e hunsettled =>
    rw [hsettles] at hunsettled
    cases hunsettled
  | late e answer after _ _ _ hunsettled =>
    rw [hsettles] at hunsettled
    cases hunsettled

theorem runCalls_kept (calls : List IndexCall) : Kept jsonLen (runCalls jsonLen path calls).1 := by
  rw [runCalls]
  generalize hs : ((none, fun _ => none) : Stored × Book) = s
  have h : Kept jsonLen s.1 := hs ▸ Kept.none
  clear hs
  induction calls generalizing s with
  | nil => exact h
  | cons call calls ih => exact ih _ h.performed

theorem runCalls_book {calls : List IndexCall} (h : ∀ call ∈ calls, settles call.world = true) :
    book (entriesOf (runCalls jsonLen path calls).1) = (runCalls jsonLen path calls).2 := by
  have hempty : book ∅ = fun _ => none := by
    funext wallet
    rw [book, items_empty]
    rfl
  rw [runCalls]
  generalize hs : ((none, fun _ => none) : Stored × Book) = s
  have hkept : Kept jsonLen s.1 := hs ▸ Kept.none
  have hbook : book (entriesOf s.1) = s.2 := hs ▸ hempty
  clear hs
  induction calls generalizing s with
  | nil => exact hbook
  | cons call calls ih =>
    rw [List.forall_mem_cons] at h
    exact ih h.2 _ hkept.performed (runCall_book hkept hbook h.1)

/-- A call leaves the entries of other wallets alone. -/
theorem performed_other {call : IndexCall} {stored : Stored} (h : Kept jsonLen stored)
    (hsettles : settles call.world = true) {wallet : String}
    (hother : canonWalletIdChecked call.wallet ≠ .ok wallet) :
    book (entriesOf (storeOf (call.perform jsonLen path stored))) wallet =
      book (entriesOf stored) wallet := by
  have hrun := performed path call h
  generalize call.perform jsonLen path stored = r at hrun
  cases hrun with
  | unchanged e => rfl
  | answered answer after _ hconcerns hbook =>
    exact (congrFun hbook wallet).trans (Book.note_other hconcerns hother)
  | lost e hunsettled =>
    rw [hsettles] at hunsettled
    cases hunsettled
  | late e answer after _ _ _ hunsettled =>
    rw [hsettles] at hunsettled
    cases hunsettled

/-- An addition under another owner is refused and changes nothing. -/
theorem addEntry_conflict {world : IndexWorld} {request : PrivateWalletIndexAddRequest}
    {stored : Stored} (h : Kept jsonLen stored) {owner oneTime : String}
    {found : PrivateWalletIndexEntry}
    (howner : canonWalletIdChecked request.ownerWallet = .ok owner)
    (hone : canonWalletIdChecked request.oneTimeWallet = .ok oneTime)
    (hfound : book (entriesOf stored) oneTime = some found) (hne : found.ownerWallet ≠ owner) :
    ∃ e, addEntry jsonLen path world request stored = .error e stored := by
  rw [addEntry_run]
  cases hadded : addedIndex jsonLen path world request stored with
  | error e => exact ⟨e, rfl⟩
  | ok p =>
    exfalso
    simp only [addedIndex, bind_eq_ok_iff, pure_eq_ok_iff, Unique.exists_iff] at hadded
    obtain ⟨-, -, entry, hentry, -, -, loaded, hload, put, hput, -⟩ := hadded
    obtain ⟨hentries, -⟩ := loadOrNew_ok h hload
    have hsound : Sound loaded.entriesByOwner := hentries ▸ h.sound
    obtain ⟨hconflict, -⟩ :=
      (insertOrReplaceEntry_ok_iff hsound (buildEntry_canonical hentry)).mp hput
    obtain ⟨_, _, _, _, _, _, _, _, howner', hone', -, -, -, -, -, -, -, rfl, -⟩ :=
      buildEntry_ok_iff.mp hentry
    rw [howner] at howner'
    rw [hone] at hone'
    obtain ⟨hmem, hwallet⟩ := mem_of_book hfound
    rw [← hentries] at hmem
    have hsame := hconflict found hmem (hwallet.trans (Except.ok.inj hone'))
    exact hne (hsame.trans (Except.ok.inj howner').symm)

end Runs

end Calls
end PrivateWI
end Remzar
