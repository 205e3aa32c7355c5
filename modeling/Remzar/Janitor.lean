import Mathlib
import Remzar.PeerBookRuns

/-! The janitor of the peer book: it edits the file of the book and then has the book read anew, so
the book keeps what the file holds. -/
namespace Remzar
open Std Fallible Text Buckets PeerBook

/-! ### The file -/

namespace Janitor

def peerlistMaxFileBytes : ℕ := 4*1024*1024
def maxPeersOnDisk : ℕ := 512
def maxAddrsPerPeer : ℕ := 32
def maxTagsPerPeer : ℕ := 16
def maxTagBytes : ℕ := 64
def maxPeerIdBytes : ℕ := 128
def maxAddrStringBytes : ℕ := 1024

/-- What goes wrong with a file. -/
inductive FileError where
  | notFound
  | invalidData (message : String)
  | other (message : String)
  deriving DecidableEq

def sanitizeEntry (p : PeerEntryV1) : PeerEntryV1 :=
  { p with
    -- An absurd id is cleared, and the entry then dropped.
    peerId := if maxPeerIdBytes < byteLen p.peerId then "" else p.peerId
    addrs := (p.addrs.take maxAddrsPerPeer).filter fun a => byteLen a ≤ maxAddrStringBytes
    tags := (p.tags.take maxTagsPerPeer).filter fun t => byteLen t ≤ maxTagBytes }

def sanitizePeerlist (list : PeerListV1) : PeerListV1 :=
  { list with
    peers := ((list.peers.take maxPeersOnDisk).map sanitizeEntry).filter fun p => !p.peerId.isEmpty }

variable [PeerListJson]

def loadPeerlistFromDisk (file : Option (List UInt8)) : Except FileError PeerListV1 := do
  let bytes ← okOr file .notFound
  rejectIf (peerlistMaxFileBytes < bytes.length) (.invalidData
    s!"peerlist file too large: {bytes.length} bytes (max {peerlistMaxFileBytes})")
  let list ← okOr (PeerListJson.fromSlice bytes) (.invalidData "invalid peerlist.json")
  rejectIf (list.version ≠ 1) (.invalidData "unsupported peerlist.json version")
  return sanitizePeerlist list

/-! ### The book and its files -/

/-- The file of the book, the file at the old fixed path where that is another one, and the book. -/
structure Store (Addr : Type) where
  file : Option (List UInt8)
  legacy : Option (List UInt8)
  book : PeerBook Addr

/-- What a call meets: the clock, whether the janitor's own write goes through and whether that of
the book does, whether the lock of the book is poisoned, and the orders of the hash maps. -/
structure Env (Addr : Type) where
  clock : Int64
  writes : Bool
  rewrites : Bool
  poisoned : Bool
  loading : Order Addr
  saving : Order Addr
  saveClock : Int64

variable {Addr : Type} [LinearOrder Addr] [AddrFormat Addr]

def nowUnix (env : Env Addr) : Except FileError UInt64 :=
  mapErr (fun e => .other ("failed to derive runtime unix timestamp: " ++ e.debug))
    (nowUnixSecsRuntime env.clock)

/-- A file in the new or the old format. -/
def openFile (order : Order Addr) (file : Option (List UInt8)) : Option (PeerBook Addr) :=
  match file.bind (tryLoadNew order) with
  | some book => some book
  | none => file.bind (tryMigrateOld order)

/-- What the old path has to offer. -/
def fallbackBook (order : Order Addr) (legacy : Option (List UInt8)) : PeerBook Addr :=
  (openFile order legacy).getD ∅

/-- `PeerBook::load_or_init`. -/
def loadOrInit (env : Env Addr) (file legacy : Option (List UInt8)) :
    PeerBook Addr × Option (List UInt8) :=
  -- Every book but one in the new format is written at once; a failure to do so is ignored.
  let written := fun book =>
    if env.rewrites then some (savedBytes env.saving env.saveClock book) else file
  match file.bind (tryLoadNew env.loading) with
  | some book => (book, file)
  | none =>
    match file.bind (tryMigrateOld env.loading) with
    | some book => (book, written book)
    | none => (fallbackBook env.loading legacy, written (fallbackBook env.loading legacy))

def savePeerlistToDisk (env : Env Addr) (list : PeerListV1) (store : Store Addr) :
    Except FileError (Store Addr) :=
  if env.writes then .ok { store with file := some (PeerListJson.toVecPretty list) }
  else .error (.other "peerlist.json could not be written")

def reloadPeerbookInPlace (env : Env Addr) (store : Store Addr) : Store Addr :=
  let (book, file) := loadOrInit env store.file store.legacy
  { store with file := file, book := if env.poisoned then store.book else book }

end Janitor

/-! ### The calls -/

structure JanitorConfig where
  failureGraceSecs : UInt64
  maxAgeSecsSinceSuccess : Option UInt64
  minScore : Option ℤ
  protectedTags : List String

namespace JanitorConfig

def defaultConfig : JanitorConfig := ⟨60, some (24*60*60), some (-80), ["seed", "stable", "static"]⟩

def aggressive : JanitorConfig := ⟨0, none, none, ["seed", "stable", "static"]⟩

def isProtected (cfg : JanitorConfig) (tags : List String) : Bool :=
  tags.any fun t => t ∈ cfg.protectedTags.filter fun t => byteLen t ≤ Janitor.maxTagBytes

def failed (cfg : JanitorConfig) (now : UInt64) (success failure : Option UInt64) : Bool :=
  match failure with
  | some failTs =>
    success.getD 0 ≤ failTs && cfg.failureGraceSecs ≤ Checked.saturatingSub now failTs
  | none => false

def tooOld (cfg : JanitorConfig) (now : UInt64) (success : Option UInt64) : Bool :=
  match cfg.maxAgeSecsSinceSuccess, success with
  | some maxAge, some su => maxAge ≤ Checked.saturatingSub now su
  | _, _ => false

def tooLow (cfg : JanitorConfig) (score : ℤ) : Bool :=
  match cfg.minScore with
  | some minScore => score < minScore
  | none => false

/-- The sweep rule, on what is known of a peer. -/
def keeps (cfg : JanitorConfig) (now : UInt64) (tags : List String) (score : ℤ)
    (success failure : Option UInt64) : Bool :=
  cfg.isProtected tags ||
    !(cfg.failed now success failure || cfg.tooOld now success || cfg.tooLow score)

end JanitorConfig

namespace Janitor
variable {Addr : Type} [LinearOrder Addr] [AddrFormat Addr] [PeerListJson]

/-- Write the entries that are left, and have the book read anew. -/
def rewrite (env : Env Addr) (now : UInt64) (list : PeerListV1) (peers : List PeerEntryV1)
    (store : Store Addr) : Except FileError (Store Addr) := do
  let saved ← savePeerlistToDisk env { list with updatedAtUnix := now, peers := peers } store
  return reloadPeerbookInPlace env saved

def removePeerById (env : Env Addr) (peerId : String) (store : Store Addr) :
    Except FileError (Bool × Store Addr) :=
  match loadPeerlistFromDisk store.file with
  | .error .notFound => .ok (false, store)
  | .error e => .error e
  | .ok list => do
    let peers := list.peers.filter fun p => p.peerId ≠ peerId
    if peers.length = list.peers.length then return (false, store)
    else do
      let now ← nowUnix env
      let reloaded ← rewrite env now list peers store
      return (true, reloaded)

def sweepStalePeers (env : Env Addr) (cfg : JanitorConfig) (store : Store Addr) :
    Except FileError (ℕ × Store Addr) :=
  match loadPeerlistFromDisk store.file with
  | .error .notFound => .ok (0, store)
  | .error e => .error e
  | .ok list => do
    let now ← nowUnix env
    let peers := list.peers.filter fun p =>
      cfg.keeps now p.tags p.score p.lastSuccessUnix p.lastFailureUnix
    let removed := list.peers.length-peers.length
    if removed = 0 then return (0, store)
    else do
      let reloaded ← rewrite env now list peers store
      return (removed, reloaded)

/-! ### Both calls at once -/

omit [LinearOrder Addr] [AddrFormat Addr] [PeerListJson] in
theorem map_snd_bind {ε α β : Type} (x : Except ε α) (b : β) :
    (x >>= fun a => (pure (b, a) : Except ε (β × α))).map Prod.snd = x := by
  cases x with
  | error e => rfl
  | ok a => rfl

inductive Call where
  | remove (peerId : String)
  | sweep (cfg : JanitorConfig)

/-- What the call leaves alone: the peer with another id, or the one the rule keeps. -/
def Call.keeps (now : UInt64) (peerId : String) (tags : List String) (score : ℤ)
    (success failure : Option UInt64) : Call → Bool
  | .remove removed => peerId ≠ removed
  | .sweep cfg => cfg.keeps now tags score success failure

def Call.run (env : Env Addr) (store : Store Addr) : Call → Except FileError (Store Addr)
  | .remove peerId => (removePeerById env peerId store).map Prod.snd
  | .sweep cfg => (sweepStalePeers env cfg store).map Prod.snd

def Call.keepsEntry (call : Call) (now : UInt64) (p : PeerEntryV1) : Bool :=
  call.keeps now p.peerId p.tags p.score p.lastSuccessUnix p.lastFailureUnix

/-- The list that is written when a call removes anything. -/
def Call.left (call : Call) (now : UInt64) (list : PeerListV1) : PeerListV1 :=
  { list with updatedAtUnix := now, peers := list.peers.filter (call.keepsEntry now) }

/-! ### What a call does -/

def Env.now (env : Env Addr) : UInt64 := env.clock.toUInt64

omit [LinearOrder Addr] [AddrFormat Addr] [PeerListJson] in
theorem nowUnix_ok {env : Env Addr} {now : UInt64} (h : nowUnix env = .ok now) : now = env.now :=
  (nowUnixSecsRuntime_ok ((mapErr_eq_ok_iff _ _ _).mp h)).2

section Calls
variable {call : Call} {env : Env Addr} {store store' : Store Addr} {list : PeerListV1}

/-- Nothing in the file is removed. -/
def Call.Spares (call : Call) (now : UInt64) (list : PeerListV1) : Prop :=
  (list.peers.filter (call.keepsEntry now)).length = list.peers.length

/-- A call on a file that it cannot read. -/
theorem Call.run_unloaded (h : ∀ list, loadPeerlistFromDisk store.file ≠ .ok list) :
    call.run env store = .ok store ∨ ∃ e, call.run env store = .error e := by
  cases hlist : loadPeerlistFromDisk store.file with
  | ok list => exact absurd hlist (h list)
  | error e =>
    cases call with
    | remove peerId =>
      rw [Call.run, removePeerById, hlist]
      cases e with
      | notFound => exact Or.inl rfl
      | invalidData message => exact Or.inr ⟨_, rfl⟩
      | other message => exact Or.inr ⟨_, rfl⟩
    | sweep cfg =>
      rw [Call.run, sweepStalePeers, hlist]
      cases e with
      | notFound => exact Or.inl rfl
      | invalidData message => exact Or.inr ⟨_, rfl⟩
      | other message => exact Or.inr ⟨_, rfl⟩

/-- A call that finds nothing to remove. -/
theorem Call.run_spares (hlist : loadPeerlistFromDisk store.file = .ok list)
    (hspares : call.Spares env.now list) :
    call.run env store = .ok store ∨ ∃ e, call.run env store = .error e := by
  cases call with
  | remove peerId =>
    have hsame : (list.peers.filter fun p => p.peerId ≠ peerId).length = list.peers.length :=
      hspares
    rw [Call.run, removePeerById, hlist]
    simp only [hsame, if_true]
    exact Or.inl rfl
  | sweep cfg =>
    rw [Call.run, sweepStalePeers, hlist]
    simp only
    cases hnow : nowUnix env with
    | error e => exact Or.inr ⟨e, rfl⟩
    | ok now =>
      obtain rfl := nowUnix_ok hnow
      have hsame : (list.peers.filter fun p => cfg.keeps env.now p.tags p.score p.lastSuccessUnix
          p.lastFailureUnix).length = list.peers.length := hspares
      simp only [ok_bind, hsame, Nat.sub_self, if_true]
      exact Or.inl rfl

/-- A call that removes anything writes what is left and has the book read anew. -/
theorem Call.run_removes (hlist : loadPeerlistFromDisk store.file = .ok list)
    (hremoves : ¬call.Spares env.now list) : call.run env store = (do
      let _ ← nowUnix env
      rewrite env env.now list (list.peers.filter (call.keepsEntry env.now)) store) := by
  cases call with
  | remove peerId =>
    have hfewer : (list.peers.filter fun p => p.peerId ≠ peerId).length ≠ list.peers.length :=
      hremoves
    rw [Call.run, removePeerById, hlist]
    simp only [if_neg hfewer]
    cases hnow : nowUnix env with
    | error e => rfl
    | ok now =>
      obtain rfl := nowUnix_ok hnow
      simp only [ok_bind]
      exact map_snd_bind _ _
  | sweep cfg =>
    rw [Call.run, sweepStalePeers, hlist]
    simp only
    cases hnow : nowUnix env with
    | error e => rfl
    | ok now =>
      obtain rfl := nowUnix_ok hnow
      have hfewer : list.peers.length - (list.peers.filter fun p => cfg.keeps env.now p.tags
          p.score p.lastSuccessUnix p.lastFailureUnix).length ≠ 0 := by
        have hle := List.length_filter_le (fun p : PeerEntryV1 => cfg.keeps env.now p.tags
          p.score p.lastSuccessUnix p.lastFailureUnix) list.peers
        have hne : (list.peers.filter fun p => cfg.keeps env.now p.tags p.score p.lastSuccessUnix
          p.lastFailureUnix).length ≠ list.peers.length := hremoves
        omega
      simp only [ok_bind, if_neg hfewer]
      exact map_snd_bind _ _

/-- The book that is read after something was removed. -/
theorem loadOrInit_book {bytes : List UInt8} (env : Env Addr) (legacy : Option (List UInt8))
    (hjson : PeerListJson.fromSlice bytes = some list) (hversion : list.version = 1) :
    (loadOrInit env (some bytes) legacy).1 =
      if bytes.length ≤ PeerBook.peerlistMaxFileBytes then loadList env.loading list
      else fallbackBook env.loading legacy := by
  rw [loadOrInit, Option.bind_some, Option.bind_some]
  by_cases hlen : bytes.length ≤ PeerBook.peerlistMaxFileBytes
  · have hload : tryLoadNew env.loading bytes = some (loadList env.loading list) := by
      rw [tryLoadNew, guard, if_pos hlen]
      change (PeerListJson.fromSlice bytes >>= _) = _
      rw [hjson]
      change ((guard (list.version = 1) : Option Unit) >>= _) = _
      rw [guard, if_pos hversion]
      rfl
    rw [hload, if_pos hlen]
  · have hload : tryLoadNew env.loading bytes = none := by
      rw [tryLoadNew, guard, if_neg hlen]
      rfl
    have hmigrate : tryMigrateOld env.loading bytes = none := by
      rw [tryMigrateOld, guard, if_neg hlen]
      rfl
    rw [hload, hmigrate, if_neg hlen]

theorem loadPeerlistFromDisk_ok {file : Option (List UInt8)}
    (h : loadPeerlistFromDisk file = .ok list) :
    list.version = 1 ∧ list.peers.length ≤ maxPeersOnDisk := by
  simp only [loadPeerlistFromDisk, bind_eq_ok_iff, rejectIf_eq_ok_iff, pure_eq_ok_iff,
    not_not] at h
  obtain ⟨bytes, -, _, -, raw, -, _, hversion, rfl⟩ := h
  refine ⟨hversion, (List.length_filter_le _ _).trans ?_⟩
  rw [List.length_map, List.length_take]
  exact Nat.min_le_left _ _

/-- What a file says of a peer: its last entry counts. -/
def lastEntry (peerId : String) (list : PeerListV1) : Option (Entry Addr) :=
  ((list.peers.filter fun p => p.peerId = peerId).getLast?.bind readEntry).map Prod.snd

omit [PeerListJson] in
theorem loadList_last (order : Order Addr) (peerId : String)
    (hlen : list.peers.length ≤ maxPeersOnDisk) :
    (loadList order list : PeerBook Addr)[peerId]? = lastEntry peerId list := by
  have hsize : (ExtTreeMap.ofList (list.peers.filterMap readEntry) compare :
      PeerBook Addr).size ≤ peerCap :=
    ExtTreeMap.size_ofList_le.trans ((List.length_filterMap_le _ _).trans hlen)
  rw [loadList, enforceCap, if_pos hsize, getElem?_ofList_last, lastEntry]

/-! ### What is kept -/

/-- One entry says no more than another. -/
structure AtMost (e e' : Entry Addr) : Prop where
  addrs : e.addrs ⊆ e'.addrs
  tags : e.tags ⊆ e'.tags
  score : e.score ≤ e'.score
  success : ∀ t, e.lastSuccessUnix = some t → ∃ t', e'.lastSuccessUnix = some t' ∧ t ≤ t'
  failure : ∀ t, e.lastFailureUnix = some t → ∃ t', e'.lastFailureUnix = some t' ∧ t ≤ t'

omit [LinearOrder Addr] [AddrFormat Addr] [PeerListJson] in
theorem AtMost.refl (e : Entry Addr) : AtMost e e :=
  ⟨fun _ h => h, fun _ h => h, le_rfl, fun t h => ⟨t, h, UInt64.le_refl t⟩,
    fun t h => ⟨t, h, UInt64.le_refl t⟩⟩

/-- The call does not select the peer, by what the book knows of it. -/
def Call.keepsPeer (call : Call) (now : UInt64) (peerId : String) (e : Entry Addr) : Bool :=
  call.keeps now peerId e.tags.sort e.score e.lastSuccessUnix e.lastFailureUnix

/-- Every peer of the book that the call does not select is found here, and no less of it. -/
def Call.Covers (call : Call) (now : UInt64) (book : PeerBook Addr)
    (found : String → Option (Entry Addr)) : Prop :=
  ∀ (peerId : String) (e : Entry Addr), book[peerId]? = some e →
    call.keepsPeer now peerId e = true → ∃ e', found peerId = some e' ∧ AtMost e e'

/-- The condition: where a call removes anything and goes through, the entries left in the file
cover the book, or the old path does if what is written is too long to be read again. -/
def Call.Safe (call : Call) (env : Env Addr) (store : Store Addr) : Prop :=
  ∀ list, loadPeerlistFromDisk store.file = .ok list → ¬call.Spares env.now list →
    nowUnix env = .ok env.now → env.writes = true → env.poisoned = false →
      call.Covers env.now store.book fun peerId =>
        if (PeerListJson.toVecPretty (call.left env.now list)).length ≤
            PeerBook.peerlistMaxFileBytes then
          lastEntry peerId (call.left env.now list)
        else (fallbackBook env.loading store.legacy)[peerId]?

omit [LinearOrder Addr] [AddrFormat Addr] [PeerListJson] in
theorem Call.covers_self (call : Call) (now : UInt64) (book : PeerBook Addr) :
    call.Covers now book fun peerId => book[peerId]? :=
  fun _ e he _ => ⟨e, he, AtMost.refl e⟩

/-- The book after a call that removes something. -/
theorem Call.reloaded (hlist : loadPeerlistFromDisk store.file = .ok list)
    (hjson : PeerListJson.fromSlice (PeerListJson.toVecPretty (call.left env.now list)) =
      some (call.left env.now list))
    (hwrites : env.writes = true) (hpoisoned : env.poisoned = false) :
    ∃ reloaded, rewrite env env.now list (list.peers.filter (call.keepsEntry env.now)) store =
      .ok reloaded ∧ ∀ peerId : String, reloaded.book[peerId]? =
        if (PeerListJson.toVecPretty (call.left env.now list)).length ≤
            PeerBook.peerlistMaxFileBytes then
          lastEntry peerId (call.left env.now list)
        else (fallbackBook env.loading store.legacy)[peerId]? := by
  obtain ⟨hversion, hlen⟩ := loadPeerlistFromDisk_ok hlist
  have hleft : (call.left env.now list).peers.length ≤ maxPeersOnDisk :=
    (List.length_filter_le _ _).trans hlen
  refine ⟨reloadPeerbookInPlace env
    { store with file := some (PeerListJson.toVecPretty (call.left env.now list)) }, ?_,
    fun peerId => ?_⟩
  · rw [rewrite, savePeerlistToDisk, if_pos hwrites]
    rfl
  · have hbook := loadOrInit_book env store.legacy hjson hversion
    rw [reloadPeerbookInPlace]
    simp only [hpoisoned, Bool.false_eq_true, if_false]
    rw [hbook]
    split
    · exact loadList_last env.loading peerId hleft
    · rfl

/-- A call keeps what it does not select exactly if nothing is removed from the file or the file
covers the book. -/
theorem janitor_keeps_iff (call : Call) (env : Env Addr) (store : Store Addr)
    (hjson : ∀ list, loadPeerlistFromDisk store.file = .ok list →
      PeerListJson.fromSlice (PeerListJson.toVecPretty (call.left env.now list)) =
        some (call.left env.now list)) :
    (∀ store', call.run env store = .ok store' →
      call.Covers env.now store.book fun peerId => store'.book[peerId]?) ↔
        call.Safe env store := by
  constructor
  · intro hkept list hlist hremoves hnow hwrites hpoisoned
    obtain ⟨reloaded, hrewrite, hbook⟩ := Call.reloaded hlist (hjson list hlist) hwrites hpoisoned
    have hcovers := hkept reloaded (by
      rw [Call.run_removes hlist hremoves, hnow, ok_bind]
      exact hrewrite)
    intro peerId e he hkeeps
    obtain ⟨e', he', hle⟩ := hcovers peerId e he hkeeps
    exact ⟨e', (hbook peerId).symm.trans he', hle⟩
  · intro hsafe store' hrun
    have hsame : call.run env store = .ok store ∨ (∃ e, call.run env store = .error e) →
        call.Covers env.now store.book fun peerId => store'.book[peerId]? := by
      rintro (h | ⟨e, h⟩)
      · rw [hrun] at h
        cases h
        exact call.covers_self env.now store.book
      · rw [hrun] at h
        cases h
    by_cases hloaded : ∃ list, loadPeerlistFromDisk store.file = .ok list
    · obtain ⟨list, hlist⟩ := hloaded
      by_cases hspares : call.Spares env.now list
      · exact hsame (Call.run_spares hlist hspares)
      · have hresult := hrun
        rw [Call.run_removes hlist hspares, bind_eq_ok_iff] at hresult
        obtain ⟨now, hnow, hrewrite⟩ := hresult
        obtain rfl := nowUnix_ok hnow
        have hwrites : env.writes = true := by
          by_contra hfails
          rw [rewrite, savePeerlistToDisk, if_neg hfails] at hrewrite
          cases hrewrite
        cases hpoisoned : env.poisoned with
        | true =>
          -- The reloaded book is thrown away.
          rw [rewrite, savePeerlistToDisk, if_pos hwrites] at hrewrite
          have hbook : store'.book = store.book := by
            rw [← Except.ok.inj hrewrite, reloadPeerbookInPlace]
            simp only [hpoisoned, if_true]
          rw [hbook]
          exact call.covers_self env.now store.book
        | false =>
          obtain ⟨reloaded, hrewrite', hbook⟩ :=
            Call.reloaded hlist (hjson list hlist) hwrites hpoisoned
          rw [hrewrite] at hrewrite'
          cases hrewrite'
          intro peerId e he hkeeps
          simp only
          rw [hbook peerId]
          exact hsafe list hlist hspares hnow hwrites hpoisoned peerId e he hkeeps
    · exact hsame (Call.run_unloaded fun list hlist => hloaded ⟨list, hlist⟩)

omit [LinearOrder Addr] [AddrFormat Addr] [PeerListJson] in
/-- A protected tag keeps a peer from every sweep. -/
theorem keepsPeer_of_protected (cfg : JanitorConfig) {tag : String} {e : Entry Addr}
    (now : UInt64) (peerId : String) (htag : tag ∈ e.tags) (hprotected : tag ∈ cfg.protectedTags)
    (hshort : byteLen tag ≤ maxTagBytes) : (Call.sweep cfg).keepsPeer now peerId e = true := by
  have hany : cfg.isProtected e.tags.sort = true := by
    refine List.any_eq_true.mpr ⟨tag, (Finset.mem_sort _).mpr htag, ?_⟩
    exact decide_eq_true (List.mem_filter.mpr ⟨hprotected, decide_eq_true hshort⟩)
  change (cfg.isProtected e.tags.sort || _) = true
  rw [hany, Bool.true_or]

omit [LinearOrder Addr] [AddrFormat Addr] [PeerListJson] in
/-- A peer that the book does not know is entered by a tag. -/
theorem addTag_unknown {book : PeerBook Addr} {peerId : PeerText} {tag : String}
    (hshort : byteLen tag ≤ PeerBook.maxTagBytes) (hunknown : book[peerId.1]? = none) :
    (addTag peerId tag book)[peerId.1]? = some { Entry.default with tags := {tag} } := by
  rw [addTag, if_neg (Nat.not_lt.mpr hshort), hunknown]
  change (book.insert peerId.1 _)[peerId.1]? = _
  rw [getElem?_insert_peer, if_pos rfl]
  rfl

end Calls

end Janitor

/-! ### A sweep -/

namespace Janitor
namespace Sample

/-- A file with one peer, of the day before. -/
def stale : PeerListV1 where
  version := 1
  updatedAtUnix := 1700000000
  peers := [⟨PeerBook.Sample.peer.1, [], 10, some 1700000000, none, []⟩]

def staleText : String :=
  "\x7b\n  \"version\": 1,\n  \"updated_at_unix\": 1700000000,\n  \"peers\": [\n    \x7b\n" ++
  "      \"peer_id\": \"12D3KooWQYhTNQdmr3ArTeUHRYzFg94BKyTkoWBDWez9kSCVe2Xo\",\n" ++
  "      \"addrs\": [],\n      \"score\": 10,\n      \"last_success_unix\": 1700000000,\n" ++
  "      \"last_failure_unix\": null,\n      \"tags\": []\n    \x7d\n  ]\n\x7d"

/-- What a sweep leaves of it. -/
def left : PeerListV1 where
  version := 1
  updatedAtUnix := 1700100000
  peers := []

def leftText : String :=
  "\x7b\n  \"version\": 1,\n  \"updated_at_unix\": 1700100000,\n  \"peers\": []\n\x7d"

instance json : PeerListJson where
  toVecPretty list :=
    if list = stale then utf8 staleText else if list = left then utf8 leftText else []
  fromSlice bytes :=
    if bytes = utf8 staleText then some stale
    else if bytes = utf8 leftText then some left
    else none
  oldFromSlice _ := none

def env : Env Unit where
  clock := 1700100000
  writes := true
  rewrites := true
  poisoned := false
  loading := PeerBook.Sample.order
  saving := PeerBook.Sample.order
  saveClock := 1700100000

def sweep : Call := .sweep JanitorConfig.defaultConfig

def entry : Entry Unit := ⟨∅, 10, some 1700000000, none, ∅⟩

/-- The book as it was read. -/
def store : Store Unit where
  file := some (utf8 staleText)
  legacy := none
  book := (∅ : PeerBook Unit).insert PeerBook.Sample.peer.1 entry

def seed : PeerText := ⟨"12D3KooWHdT6K4mXJxnHDiNkgpFE8HaxHzKZLMkmYjvxQHhXBpU3", by decide +kernel⟩

/-- The book after `add_tag`; it was not saved since. -/
def tagged : Store Unit := { store with book := addTag seed "seed" store.book }

theorem loaded : loadPeerlistFromDisk (some (utf8 staleText)) = .ok stale := by decide +kernel

theorem left_eq : sweep.left env.now stale = left := by decide +kernel

theorem removes : ¬sweep.Spares env.now stale := by
  rw [Call.Spares]
  decide +kernel

theorem left_read : PeerListJson.fromSlice (PeerListJson.toVecPretty (sweep.left env.now stale)) =
    some (sweep.left env.now stale) := by
  rw [left_eq]
  decide +kernel

theorem now_env : nowUnix env = .ok env.now := by decide +kernel

end Sample

theorem janitor_keeps_sample :
    (∀ store', Sample.sweep.run Sample.env Sample.store = .ok store' →
      Sample.sweep.Covers Sample.env.now Sample.store.book fun peerId => store'.book[peerId]?) ↔
        Sample.sweep.Safe Sample.env Sample.store :=
  janitor_keeps_iff Sample.sweep Sample.env Sample.store fun list hlist => by
    have hloaded : loadPeerlistFromDisk Sample.store.file = .ok Sample.stale := Sample.loaded
    rw [hloaded] at hlist
    cases hlist
    exact Sample.left_read

/-- A sweep removes a stale peer and with it the seed peer that was not saved yet. -/
theorem sweep_loses_seed : ¬∀ store', Sample.sweep.run Sample.env Sample.tagged = .ok store' →
    Sample.sweep.Covers Sample.env.now Sample.tagged.book fun peerId => store'.book[peerId]? := by
  intro hkept
  have hlist : loadPeerlistFromDisk Sample.tagged.file = .ok Sample.stale := Sample.loaded
  obtain ⟨reloaded, hrewrite, hbook⟩ := Call.reloaded hlist Sample.left_read rfl rfl
  have hunknown : Sample.store.book[Sample.seed.1]? = none := by
    rw [Sample.store, getElem?_insert_peer, if_neg (by decide +kernel), ExtTreeMap.getElem?_empty]
  have hkeeps := keepsPeer_of_protected JanitorConfig.defaultConfig
    (e := { (Entry.default : Entry Unit) with tags := {"seed"} }) Sample.env.now Sample.seed.1
    (Finset.mem_singleton_self _) (by decide +kernel) (by decide +kernel)
  obtain ⟨e', he', -⟩ := hkept reloaded (by
    rw [Call.run_removes hlist Sample.removes, Sample.now_env, ok_bind]
    exact hrewrite) Sample.seed.1 _ (addTag_unknown (by decide +kernel) hunknown) hkeeps
  have hshort : (PeerListJson.toVecPretty (Sample.sweep.left Sample.env.now Sample.stale)).length ≤
      PeerBook.peerlistMaxFileBytes := by
    rw [Sample.left_eq]
    decide +kernel
  have hgone : lastEntry Sample.seed.1 Sample.left = (none : Option (Entry Unit)) := rfl
  have hfound := (hbook Sample.seed.1).symm.trans he'
  rw [if_pos hshort, Sample.left_eq, hgone] at hfound
  cases hfound

end Janitor

end Remzar
