import Mathlib
import Remzar.PeerBook

/-! What a peer book keeps over a run: its bounds, its sticky peers, and everything when it is saved
and loaded. -/
namespace Remzar
open Std Text Eviction Buckets Runs

namespace PeerBook

section
variable {Addr : Type}

/-! ### Entries of a book -/

theorem getElem?_insert_peer (book : PeerBook Addr) (k k' : String) (e : Entry Addr) :
    (book.insert k e)[k']? = if k = k' then some e else book[k']? := by
  simp only [ExtTreeMap.getElem?_insert, LawfulEqCmp.compare_eq_iff_eq]

theorem size_insert_peer {book : PeerBook Addr} {k : String} (h : k ∈ book) (e : Entry Addr) :
    (book.insert k e).size = book.size := by
  rw [ExtTreeMap.size_insert, if_pos (ExtTreeMap.contains_iff_mem.mpr h)]

theorem mem_of_some {book : PeerBook Addr} {k : String} {e : Entry Addr} (h : book[k]? = some e) :
    k ∈ book :=
  ExtTreeMap.mem_iff_isSome_getElem?.mpr (by rw [h]; rfl)

/-- Sticky peers go only after all others. -/
def StickyKept (book book' : PeerBook Addr) : Prop :=
  ∀ (k : String) (e : Entry Addr), book[k]? = some e → isSticky e = true → book'[k]? = none →
    ∀ (k' : String) (e' : Entry Addr), book'[k']? = some e' → isSticky e' = true

theorem stickyKept_of_mem {book book' : PeerBook Addr}
    (h : ∀ k : String, k ∈ book → k ∈ book') : StickyKept book book' := by
  intro k e hk _ hgone
  have hmem := ExtTreeMap.mem_iff_isSome_getElem?.mp (h k (mem_of_some hk))
  rw [hgone] at hmem
  cases hmem

theorem stickyKept_refl (book : PeerBook Addr) : StickyKept book book :=
  stickyKept_of_mem fun _ h => h

theorem ofList_mem {entries : List (String × Entry Addr)} {k : String} {e : Entry Addr}
    (h : (ExtTreeMap.ofList entries compare)[k]? = some e) : (k, e) ∈ entries := by
  rw [ExtTreeMap.ofList_eq_insertMany_empty, ExtTreeMap.insertMany_list_eq_foldl] at h
  induction entries using List.reverseRecOn with
  | nil => cases h
  | append_singleton entries entry ih =>
    rw [List.foldl_append, List.foldl_cons, List.foldl_nil, getElem?_insert_peer] at h
    split at h
    · rename_i heq
      rw [← Option.some.inj h, ← heq]
      exact List.mem_append_right entries (List.mem_singleton_self entry)
    · exact List.mem_append_left [entry] (ih h)

/-! ### The cap -/

theorem rows_keys (order : Order Addr) (book : PeerBook Addr) :
    ((rows order book).map Prod.fst).Perm book.keys := by
  have hperm := ((List.mergeSort_perm (order.arrange book.toList) worseOrEqual).trans
    (order.perm book.toList)).map Prod.fst
  rw [rows, List.map_map]
  rw [ExtTreeMap.map_fst_toList_eq_keys] at hperm
  exact hperm

theorem mem_rows {order : Order Addr} {book : PeerBook Addr} {k : String} {b : Bool} :
    (k, b) ∈ rows order book ↔ ∃ e, book[k]? = some e ∧ isSticky e = b := by
  have hmem : ∀ r, r ∈ (order.arrange book.toList).mergeSort worseOrEqual ↔
      book[r.1]? = some r.2 := by
    intro r
    rw [(List.mergeSort_perm _ _).mem_iff, (order.perm book.toList).mem_iff,
      ExtTreeMap.mem_toList_iff_getElem?_eq_some]
  rw [rows, List.mem_map]
  constructor
  · rintro ⟨r, hr, heq⟩
    cases heq
    exact ⟨r.2, (hmem r).mp hr, rfl⟩
  · rintro ⟨e, hk, rfl⟩
    exact ⟨(k, e), (hmem (k, e)).mpr hk, rfl⟩

/-- What enforcing the cap does to a book. -/
structure Capped (book book' : PeerBook Addr) : Prop where
  kept : ∀ (k : String) (e : Entry Addr), book'[k]? = some e → book[k]? = some e
  size : book'.size ≤ peerCap
  sticky : StickyKept book book'

theorem enforceCap_capped (order : Order Addr) (book : PeerBook Addr) :
    Capped book (enforceCap order book) := by
  rw [enforceCap]
  split
  · rename_i hle
    refine ⟨fun k e h => h, hle, fun k e hk _ hgone => ?_⟩
    rw [hk] at hgone
    cases hgone
  · refine ⟨fun k e h => ?_, ?_, fun k e hk hsticky hgone k' e' hk' => ?_⟩
    · rw [getElem?_removeAll] at h
      split at h
      · cases h
      · exact h
    · rw [size_removeAll_condemned (rows_keys order book)]
      exact Nat.min_le_right _ _
    · rw [getElem?_removeAll] at hgone hk'
      split at hk'
      · cases hk'
      · rename_i hleft
        have hcondemned : k ∈ condemned book.size peerCap id (rows order book) := by
          by_contra hnot
          rw [if_neg hnot, hk] at hgone
          cases hgone
        by_contra hplain
        apply hleft
        refine condemned_protected hcondemned (fun b hb => ?_)
          (mem_rows.mpr ⟨e', hk', rfl⟩) (Bool.eq_false_iff.mpr hplain)
        obtain ⟨e'', hsame, hb⟩ := mem_rows.mp hb
        rw [hk] at hsame
        cases hsame
        exact hb.symm.trans hsticky

/-! ### Sound books -/

variable [AddrFormat Addr]

/-- An entry within its limits, that can be saved as it is. -/
structure Entry.Sound (e : Entry Addr) : Prop where
  addrs : e.addrs.card ≤ maxAddrsPerPeer
  reasonable : ∀ a ∈ e.addrs, isMultiaddrReasonable a = true
  tags : e.tags.card ≤ maxTagsPerPeer
  short : ∀ t ∈ e.tags, byteLen t ≤ maxTagBytes

/-- All entries are within their limits; how many there are is left open. -/
def Tidy (book : PeerBook Addr) : Prop :=
  ∀ (k : String) (e : Entry Addr), book[k]? = some e → byteLen k ≤ 128 ∧ e.Sound

structure Sound (book : PeerBook Addr) : Prop where
  tidy : Tidy book
  size : book.size ≤ peerCap

theorem default_sound : (Entry.default : Entry Addr).Sound :=
  ⟨Nat.zero_le _, by simp [Entry.default], Nat.zero_le _, by simp [Entry.default]⟩

theorem Tidy.entry {book : PeerBook Addr} (h : Tidy book) (k : String) :
    (book[k]?.getD Entry.default).Sound := by
  cases hk : book[k]? with
  | none => exact default_sound
  | some e => exact (h k e hk).2

theorem Tidy.insert {book : PeerBook Addr} (h : Tidy book) {peerId : PeerText} {e : Entry Addr}
    (he : e.Sound) : Tidy (book.insert peerId.1 e) := by
  intro k e' hk
  rw [getElem?_insert_peer] at hk
  split at hk
  · rename_i heq
    rw [← heq, ← Option.some.inj hk]
    exact ⟨peerId.2, he⟩
  · exact h k e' hk

theorem Tidy.enforceCap {book : PeerBook Addr} (h : Tidy book) (order : Order Addr) :
    Sound (enforceCap order book) := by
  have hcapped := enforceCap_capped order book
  exact ⟨fun k e hk => h k e (hcapped.kept k e hk), hcapped.size⟩

/-! ### Operations -/

/-- Replacing the entry of a peer that is there. -/
theorem Sound.replace {book : PeerBook Addr} (h : Sound book) {peerId : PeerText}
    {e e' : Entry Addr} (hk : book[peerId.1]? = some e) (he' : e'.Sound) :
    Sound (book.insert peerId.1 e') ∧ StickyKept book (book.insert peerId.1 e') := by
  refine ⟨⟨h.tidy.insert he', ?_⟩, stickyKept_of_mem fun k hmem => ?_⟩
  · rw [size_insert_peer (mem_of_some hk)]
    exact h.size
  · exact ExtTreeMap.mem_insert.mpr (Or.inr hmem)

theorem observeFailure_sound {book : PeerBook Addr} (h : Sound book) (clock : Int64)
    (peerId : PeerText) : Sound (observeFailure clock peerId book) ∧
      StickyKept book (observeFailure clock peerId book) := by
  rw [observeFailure]
  split
  · rename_i e hk
    have he := (h.tidy peerId.1 e hk).2
    exact h.replace hk ⟨he.addrs, he.reasonable, he.tags, he.short⟩
  · exact ⟨h, stickyKept_refl book⟩

theorem removeTag_sound {book : PeerBook Addr} (h : Sound book) (peerId : PeerText)
    (tag : String) : Sound (removeTag peerId tag book) ∧
      StickyKept book (removeTag peerId tag book) := by
  rw [removeTag]
  split
  · rename_i e hk
    have he := (h.tidy peerId.1 e hk).2
    refine h.replace hk ⟨he.addrs, he.reasonable, ?_, fun t ht => he.short t ?_⟩
    · exact (Finset.card_erase_le).trans he.tags
    · exact Finset.mem_of_mem_erase ht
  · exact ⟨h, stickyKept_refl book⟩

/-- A tag brings in a new peer only where the book has room, or not at all. -/
def TagFits (peerId : PeerText) (tag : String) (book : PeerBook Addr) : Prop :=
  maxTagBytes < byteLen tag ∨ peerId.1 ∈ book ∨ book.size < peerCap

theorem addTag_sound {book : PeerBook Addr} (h : Sound book) {peerId : PeerText} {tag : String}
    (hfits : TagFits peerId tag book) : Sound (addTag peerId tag book) ∧
      StickyKept book (addTag peerId tag book) := by
  rw [addTag]
  split
  · exact ⟨h, stickyKept_refl book⟩
  · rename_i hshort
    have hroom : peerId.1 ∈ book ∨ book.size < peerCap := hfits.resolve_left hshort
    have he := h.tidy.entry peerId.1
    have hinsert : ∀ e : Entry Addr, e.Sound → Sound (book.insert peerId.1 e) ∧
        StickyKept book (book.insert peerId.1 e) := by
      intro e hsound
      refine ⟨⟨h.tidy.insert hsound, ?_⟩,
        stickyKept_of_mem fun k hmem => ExtTreeMap.mem_insert.mpr (Or.inr hmem)⟩
      rcases hroom with hmem | hlt
      · rw [size_insert_peer hmem]
        exact h.size
      · rw [ExtTreeMap.size_insert]
        split
        · exact h.size
        · exact hlt
    dsimp only
    split
    · exact hinsert _ he
    · rename_i hcount
      apply hinsert
      refine ⟨he.addrs, he.reasonable, ?_, fun t ht => ?_⟩
      · have hle := Finset.card_insert_le tag (book[peerId.1]?.getD Entry.default).tags
        change (insert tag (book[peerId.1]?.getD Entry.default).tags).card ≤ maxTagsPerPeer
        omega
      · rcases Finset.mem_insert.mp ht with rfl | ht
        · exact Nat.le_of_not_lt hshort
        · exact he.short t ht

/-! ### Texts of addresses -/

/-- An address whose text is short enough to be read, and read back as the same address. -/
def Readable (a : Addr) : Prop :=
  byteLen (AddrFormat.text a) ≤ maxMultiaddrBytes*4 ∧ AddrFormat.parse (AddrFormat.text a) = some a

theorem readAddr_text {a : Addr} (h : Readable a) (hreasonable : isMultiaddrReasonable a = true) :
    readAddr (AddrFormat.text a) = some a := by
  rw [readAddr, if_neg (Nat.not_lt.mpr h.1), h.2]
  exact Option.filter_some_pos hreasonable

variable [LinearOrder Addr]

theorem addAddrs_sound {s : Finset Addr} (hcard : s.card ≤ maxAddrsPerPeer)
    (hreasonable : ∀ a ∈ s, isMultiaddrReasonable a = true) (addrs : List Addr) :
    (addAddrs addrs s).card ≤ maxAddrsPerPeer ∧
      ∀ a ∈ addAddrs addrs s, isMultiaddrReasonable a = true := by
  induction addrs generalizing s with
  | nil => exact ⟨hcard, hreasonable⟩
  | cons a addrs ih =>
    rw [addAddrs]
    split
    · exact ⟨hcard, hreasonable⟩
    · rename_i hroom
      dsimp only
      split
      · rename_i hbase
        apply ih
        · have hle := Finset.card_insert_le (stripTrailingP2p a) s
          omega
        · intro b hb
          rcases Finset.mem_insert.mp hb with rfl | hb
          · exact hbase
          · exact hreasonable b hb
      · exact ih hcard hreasonable

theorem Entry.Sound.upsert {e : Entry Addr} (h : e.Sound) (clock : Int64) (addrs : List Addr)
    (markSuccess : Bool) : (upsertEntry clock addrs markSuccess e).Sound := by
  obtain ⟨hcard, hreasonable⟩ := addAddrs_sound h.addrs h.reasonable addrs
  cases markSuccess with
  | true => exact ⟨hcard, hreasonable, h.tags, h.short⟩
  | false => exact ⟨hcard, hreasonable, h.tags, h.short⟩

theorem upsertEntry_sticky (clock : Int64) (addrs : List Addr) (markSuccess : Bool)
    (e : Entry Addr) : isSticky (upsertEntry clock addrs markSuccess e) = isSticky e := by
  cases markSuccess with
  | true => rfl
  | false => rfl

theorem upsert_sound {book : PeerBook Addr} (h : Sound book) (order : Order Addr) (clock : Int64)
    (peerId : PeerText) (addrs : List Addr) (markSuccess : Bool) :
    Sound (upsert order clock peerId addrs markSuccess book) ∧
      StickyKept book (upsert order clock peerId addrs markSuccess book) := by
  have htidy : Tidy (book.insert peerId.1
      (upsertEntry clock addrs markSuccess (book[peerId.1]?.getD Entry.default))) :=
    h.tidy.insert ((h.tidy.entry peerId.1).upsert clock addrs markSuccess)
  refine ⟨htidy.enforceCap order, fun k e hk hsticky hgone => ?_⟩
  have hcapped := (enforceCap_capped order (book.insert peerId.1
    (upsertEntry clock addrs markSuccess (book[peerId.1]?.getD Entry.default)))).sticky
  -- The peer that is upserted keeps its tags, all others their entries.
  by_cases heq : peerId.1 = k
  · refine hcapped k (upsertEntry clock addrs markSuccess e) ?_ ?_ hgone
    · rw [getElem?_insert_peer, if_pos heq, heq, hk]
      rfl
    · rw [upsertEntry_sticky]
      exact hsticky
  · refine hcapped k e ?_ hsticky hgone
    rw [getElem?_insert_peer, if_neg heq]
    exact hk

/-! ### Saving and loading -/

theorem readEntry_writeEntry {k : String} {e : Entry Addr} (hk : byteLen k ≤ 128) (h : e.Sound)
    (hread : ∀ a ∈ e.addrs, Readable a) : readEntry (writeEntry k e) = some (k, e) := by
  have haddrs : (writeEntry k e).addrs = e.addrs.sort.map AddrFormat.text := by
    have hall : (e.addrs.sort.filter fun a => isMultiaddrReasonable a) = e.addrs.sort := by
      rw [List.filter_eq_self]
      intro a ha
      exact h.reasonable a ((Finset.mem_sort _).mp ha)
    rw [writeEntry]
    simp only [hall]
    rw [List.take_of_length_le (by rw [Finset.length_sort]; exact h.addrs)]
  have hback : ((writeEntry k e).addrs.take maxAddrsPerPeer).filterMap readAddr = e.addrs.sort := by
    rw [haddrs, List.take_of_length_le (by rw [List.length_map, Finset.length_sort]; exact h.addrs),
      List.filterMap_map]
    have hsame : ∀ a ∈ e.addrs.sort, (readAddr ∘ AddrFormat.text) a = some a := by
      intro a ha
      have hmem := (Finset.mem_sort _).mp ha
      exact readAddr_text (hread a hmem) (h.reasonable a hmem)
    rw [List.filterMap_congr hsame, List.filterMap_some]
  have htags : (writeEntry k e).tags = e.tags.sort := by
    have hall : (e.tags.sort.filter fun t => byteLen t ≤ maxTagBytes) = e.tags.sort := by
      rw [List.filter_eq_self]
      intro t ht
      exact decide_eq_true (h.short t ((Finset.mem_sort _).mp ht))
    rw [writeEntry]
    simp only [hall]
    rw [List.take_of_length_le (by rw [Finset.length_sort]; exact h.tags)]
  have hlimits : (((writeEntry k e).tags.filter fun t => byteLen t ≤ maxTagBytes).take
      maxTagsPerPeer) = e.tags.sort := by
    rw [htags, List.filter_eq_self.mpr fun t ht =>
      decide_eq_true (h.short t ((Finset.mem_sort _).mp ht)),
      List.take_of_length_le (by rw [Finset.length_sort]; exact h.tags)]
  rw [readEntry, if_neg (show ¬128 < byteLen (writeEntry k e).peerId from Nat.not_lt.mpr hk),
    hback, hlimits, Finset.sort_toFinset, Finset.sort_toFinset]
  rfl

/-- A sound book is read back from what is written of it, peer for peer. -/
theorem loadList_savedList {book : PeerBook Addr} (h : Sound book)
    (hread : ∀ (k : String) (e : Entry Addr), book[k]? = some e → ∀ a ∈ e.addrs, Readable a)
    (saving loading : Order Addr) (clock : Int64) :
    loadList loading (savedList saving clock book) = book := by
  have hlen : (saving.arrange book.toList).length ≤ peerCap := by
    rw [(saving.perm book.toList).length_eq, ExtTreeMap.length_toList]
    exact h.size
  have hback : (savedList saving clock book).peers.filterMap readEntry =
      saving.arrange book.toList := by
    have hsame : ∀ r ∈ saving.arrange book.toList,
        (readEntry ∘ fun r => writeEntry r.1 r.2) r = some r := by
      intro r hr
      have hmem := ExtTreeMap.mem_toList_iff_getElem?_eq_some.mp
        ((saving.perm book.toList).mem_iff.mp hr)
      obtain ⟨hk, he⟩ := h.tidy r.1 r.2 hmem
      exact readEntry_writeEntry hk he (hread r.1 r.2 hmem)
    rw [savedList]
    simp only [List.take_of_length_le hlen]
    rw [List.filterMap_map, List.filterMap_congr hsame, List.filterMap_some]
  rw [loadList, hback, Postcard.ofList_perm (saving.perm book.toList), enforceCap, if_pos h.size]

theorem readEntry_eq_none_iff (p : PeerEntryV1) :
    (readEntry p : Option (String × Entry Addr)) = none ↔ 128 < byteLen p.peerId := by
  rw [readEntry]
  split
  · rename_i hlong
    exact ⟨fun _ => hlong, fun _ => rfl⟩
  · rename_i hshort
    exact ⟨nofun, fun h => absurd h hshort⟩

theorem readEntry_key {p : PeerEntryV1} {k : String} {e : Entry Addr}
    (h : readEntry p = some (k, e)) : p.peerId = k := by
  rw [readEntry] at h
  split at h
  · cases h
  · cases h
    rfl

/-- What is loaded of a peer: the last entry of the file counts. -/
theorem getElem?_ofList_last (peerId : String) (peers : List PeerEntryV1) :
    (ExtTreeMap.ofList (peers.filterMap readEntry) compare : PeerBook Addr)[peerId]? =
      ((peers.filter fun p => p.peerId = peerId).getLast?.bind readEntry).map Prod.snd := by
  rw [ExtTreeMap.ofList_eq_insertMany_empty, ExtTreeMap.insertMany_list_eq_foldl]
  induction peers using List.reverseRecOn with
  | nil => exact ExtTreeMap.getElem?_empty
  | append_singleton peers p ih =>
    rw [List.filterMap_append, List.foldl_append, List.filter_append]
    by_cases hid : p.peerId = peerId
    · have hone : ([p].filter fun p => p.peerId = peerId) = [p] := by
        simp only [List.filter_cons, hid, decide_true, if_true, List.filter_nil]
      rw [hone, List.getLast?_concat, Option.bind_some]
      cases hp : (readEntry p : Option (String × Entry Addr)) with
      | none =>
        -- The id is too long in every entry of this peer.
        rw [List.filterMap_cons_none hp, List.filterMap_nil, List.foldl_nil, ih]
        cases hprev : (peers.filter fun p => p.peerId = peerId).getLast? with
        | none => rfl
        | some q =>
          have hq := (List.mem_filter.mp (List.mem_of_getLast? hprev)).2
          have hnone : (readEntry q : Option (String × Entry Addr)) = none := by
            rw [readEntry_eq_none_iff, of_decide_eq_true hq, ← hid]
            exact (readEntry_eq_none_iff p).mp hp
          rw [Option.bind_some, hnone]
      | some entry =>
        obtain ⟨k, e⟩ := entry
        rw [List.filterMap_cons_some hp, List.filterMap_nil, List.foldl_cons, List.foldl_nil,
          getElem?_insert_peer, if_pos ((readEntry_key hp).symm.trans hid)]
        rfl
    · have hnone : ([p].filter fun p => p.peerId = peerId) = [] := by
        simp only [List.filter_cons, hid, decide_false, Bool.false_eq_true, if_false,
          List.filter_nil]
      rw [hnone, List.append_nil, ← ih]
      cases hp : (readEntry p : Option (String × Entry Addr)) with
      | none => rw [List.filterMap_cons_none hp, List.filterMap_nil, List.foldl_nil]
      | some entry =>
        obtain ⟨k, e⟩ := entry
        rw [List.filterMap_cons_some hp, List.filterMap_nil, List.foldl_cons, List.foldl_nil,
          getElem?_insert_peer, if_neg fun h => hid ((readEntry_key hp).trans h)]

theorem readEntry_sound {v : PeerEntryV1} {k : String} {e : Entry Addr}
    (h : readEntry v = some (k, e)) : byteLen k ≤ 128 ∧ e.Sound := by
  rw [readEntry] at h
  split at h
  · cases h
  · rename_i hlen
    cases h
    refine ⟨Nat.le_of_not_lt hlen, ?_, fun a ha => ?_, ?_, fun t ht => ?_⟩
    · refine (List.toFinset_card_le _).trans ((List.length_filterMap_le _ _).trans ?_)
      rw [List.length_take]
      exact Nat.min_le_left _ _
    · obtain ⟨s, -, hs⟩ := List.mem_filterMap.mp (List.mem_toFinset.mp ha)
      rw [readAddr] at hs
      split at hs
      · cases hs
      · exact (Option.filter_eq_some_iff.mp hs).2
    · refine (List.toFinset_card_le _).trans ?_
      rw [List.length_take]
      exact Nat.min_le_left _ _
    · have hmem := List.mem_of_mem_take (List.mem_toFinset.mp ht)
      exact of_decide_eq_true (List.mem_filter.mp hmem).2

theorem loadList_sound (order : Order Addr) (file : PeerListV1) :
    Sound (loadList order file : PeerBook Addr) := by
  apply Tidy.enforceCap
  intro k e hk
  obtain ⟨v, -, hv⟩ := List.mem_filterMap.mp (ofList_mem hk)
  exact readEntry_sound hv

/-! ### Runs -/

variable [PeerListJson]

theorem tryLoadNew_sound {order : Order Addr} {bytes : List UInt8} {book : PeerBook Addr}
    (h : tryLoadNew order bytes = some book) : Sound book := by
  simp only [tryLoadNew, Option.bind_eq_bind, Option.bind_eq_some_iff, Option.pure_def,
    Option.some.injEq] at h
  obtain ⟨_, -, file, -, _, -, rfl⟩ := h
  exact loadList_sound order file

theorem Opens.sound {book : PeerBook Addr} (h : Opens book) : Sound book := by
  cases h with
  | fresh =>
    refine ⟨fun k e hk => ?_, Nat.zero_le _⟩
    rw [ExtTreeMap.getElem?_empty] at hk
    cases hk
  | loaded order bytes h => exact tryLoadNew_sound h

/-- The book can be read back: the file is short enough and JSON gives back what it was given, and
so do the texts of the addresses. -/
structure Reloads (order : Order Addr) (clock : Int64) (book : PeerBook Addr) : Prop where
  length : (savedBytes order clock book).length ≤ peerlistMaxFileBytes
  json : PeerListJson.fromSlice (savedBytes order clock book) = some (savedList order clock book)
  texts : ∀ (k : String) (e : Entry Addr), book[k]? = some e → ∀ a ∈ e.addrs, Readable a

/-- The condition on a step: a tag fits, and a book that is saved can be read back. -/
def Allowed (book : PeerBook Addr) : Op Addr → Prop
  | .addTag peerId tag => TagFits peerId tag book
  | .saveLoad saving _ clock => Reloads saving clock book
  | _ => True

/-- What a step does to a book: no sticky peer goes before another, and a book that is saved and
loaded is the same. -/
def Keeps (book : PeerBook Addr) (op : Op Addr) : Prop :=
  StickyKept book (step book op) ∧ ∀ saving loading clock, op = .saveLoad saving loading clock →
    tryLoadNew loading (savedBytes saving clock book) = some book

theorem tryLoadNew_savedBytes {book : PeerBook Addr} (h : Sound book) {saving : Order Addr}
    {clock : Int64} (hreloads : Reloads saving clock book) (loading : Order Addr) :
    tryLoadNew loading (savedBytes saving clock book) = some book := by
  rw [tryLoadNew, guard, if_pos hreloads.length]
  change (PeerListJson.fromSlice (savedBytes saving clock book) >>= _) = _
  rw [hreloads.json]
  change some (loadList loading (savedList saving clock book)) = some book
  rw [loadList_savedList h hreloads.texts]

theorem step_sound {book : PeerBook Addr} (h : Sound book) {op : Op Addr}
    (hallowed : Allowed book op) : Sound (step book op) ∧ Keeps book op := by
  have hplain : Sound (step book op) ∧ StickyKept book (step book op) →
      (∀ saving loading clock, op ≠ .saveLoad saving loading clock) →
        Sound (step book op) ∧ Keeps book op := by
    intro hboth hnot
    exact ⟨hboth.1, hboth.2, fun saving loading clock heq => absurd heq (hnot _ _ _)⟩
  cases op with
  | upsert order clock peerId addrs markSuccess =>
    exact hplain (upsert_sound h order clock peerId addrs markSuccess) fun _ _ _ => nofun
  | observeFailure clock peerId =>
    exact hplain (observeFailure_sound h clock peerId) fun _ _ _ => nofun
  | addTag peerId tag => exact hplain (addTag_sound h hallowed) fun _ _ _ => nofun
  | removeTag peerId tag => exact hplain (removeTag_sound h peerId tag) fun _ _ _ => nofun
  | saveLoad saving loading clock =>
    have hback := fun order => tryLoadNew_savedBytes h hallowed order
    have hsame : step book (.saveLoad saving loading clock) = book := by
      rw [step, hback]
      rfl
    refine ⟨hsame.symm ▸ h, ?_, ?_⟩
    · rw [hsame]
      exact stickyKept_refl book
    · intro saving' loading' clock' heq
      cases heq
      exact hback loading

/-- In a run whose tags fit and whose saved books can be read back, the book stays within its
limits, no sticky peer goes before another, and every book that is saved is loaded as it was. -/
theorem peer_book_kept {start : PeerBook Addr} (hstart : Opens start) {ops : List (Op Addr)}
    (h : Steps step Allowed start ops) :
    Steps step Keeps start ops ∧ ∀ pre, pre <+: ops →
      (pre.foldl step start).size ≤ peerCap ∧
        ∀ (k : String) (e : Entry Addr), (pre.foldl step start)[k]? = some e →
          e.addrs.card ≤ maxAddrsPerPeer ∧ e.tags.card ≤ maxTagsPerPeer := by
  have hinv : ∀ {pre : List (Op Addr)}, pre <+: ops → Sound (pre.foldl step start) := fun hpre =>
    h.invariant (fun _ _ hs hallowed => (step_sound hs hallowed).1) hstart.sound hpre
  constructor
  · exact h.derive (fun _ _ hs hallowed => step_sound hs hallowed) hstart.sound
  · intro pre hpre
    have hsound := hinv hpre
    exact ⟨hsound.size, fun k e hk =>
      ⟨(hsound.tidy k e hk).2.addrs, (hsound.tidy k e hk).2.tags⟩⟩

/-- Tags for new peers bring them all in. -/
theorem size_tagged {tag : String} (hshort : byteLen tag ≤ maxTagBytes) {peers : List PeerText}
    (hnodup : peers.Nodup) {book : PeerBook Addr} (hnew : ∀ p ∈ peers, p.1 ∉ book) :
    ((peers.map fun p => Op.addTag p tag).foldl step book).size = book.size+peers.length := by
  induction peers generalizing book with
  | nil => rfl
  | cons p peers ih =>
    obtain ⟨hnot, hnodup⟩ := List.nodup_cons.mp hnodup
    have hp : p.1 ∉ book := hnew p List.mem_cons_self
    obtain ⟨e, he⟩ : ∃ e, addTag p tag book = book.insert p.1 e := by
      rw [addTag, if_neg (Nat.not_lt.mpr hshort)]
      dsimp only
      split
      · exact ⟨_, rfl⟩
      · exact ⟨_, rfl⟩
    have hrest : ∀ q ∈ peers, q.1 ∉ book.insert p.1 e := by
      intro q hq hmem
      rw [ExtTreeMap.mem_insert, LawfulEqCmp.compare_eq_iff_eq] at hmem
      rcases hmem with heq | hmem
      · exact hnot (Subtype.ext heq ▸ hq)
      · exact hnew q (List.mem_cons_of_mem p hq) hmem
    have hsize : (book.insert p.1 e).size = book.size+1 := by
      rw [ExtTreeMap.size_insert, if_neg (fun h => hp (ExtTreeMap.contains_iff_mem.mp h))]
    rw [List.map_cons, List.foldl_cons, step, he, ih hnodup hrest, hsize, List.length_cons]
    omega

end

namespace Sample

/-- The one address that these peers have. -/
instance address : AddrFormat Unit where
  Protocol := String
  isP2p p := p = "p2p"
  iter _ := ["ip4", "tcp"]
  collect _ := ()
  toVec _ := [4, 10, 0, 0, 1, 6, 15, 161]
  text _ := "/ip4/10.0.0.1/tcp/4001"
  parse s := if s = "/ip4/10.0.0.1/tcp/4001" then some () else none

def peer : PeerText := ⟨"12D3KooWQYhTNQdmr3ArTeUHRYzFg94BKyTkoWBDWez9kSCVe2Xo", by decide +kernel⟩

def order : Order Unit := ⟨id, fun _ => List.Perm.refl _⟩

def run : List (Op Unit) :=
  [.upsert order 1700000000 peer [()] true, .addTag peer "seed", .saveLoad order order 1700000100]

/-- The list that the run saves. -/
def saved : PeerListV1 where
  version := 1
  updatedAtUnix := 1700000100
  peers := [⟨peer.1, ["/ip4/10.0.0.1/tcp/4001"], 10, some 1700000000, none, ["seed"]⟩]

def savedText : String :=
  "\x7b\n  \"version\": 1,\n  \"updated_at_unix\": 1700000100,\n  \"peers\": [\n    \x7b\n" ++
  "      \"peer_id\": \"12D3KooWQYhTNQdmr3ArTeUHRYzFg94BKyTkoWBDWez9kSCVe2Xo\",\n" ++
  "      \"addrs\": [\n        \"/ip4/10.0.0.1/tcp/4001\"\n      ],\n      \"score\": 10,\n" ++
  "      \"last_success_unix\": 1700000000,\n      \"last_failure_unix\": null,\n" ++
  "      \"tags\": [\n        \"seed\"\n      ]\n    \x7d\n  ]\n\x7d"

instance json : PeerListJson where
  toVecPretty file := if file = saved then utf8 savedText else []
  fromSlice bytes := if bytes = utf8 savedText then some saved else none
  oldFromSlice _ := none

/-- Peer ids with different counts of two letters. -/
def peerName (i : ℕ) : List Char := List.replicate (i/32) 'A' ++ List.replicate (i%32) 'C'

theorem peerName_injective {i j : ℕ} (h : peerName i = peerName j) : i = j := by
  have hcount : ∀ n, (peerName n).count 'A' = n/32 ∧ (peerName n).count 'C' = n%32 := by
    intro n
    constructor
    · rw [peerName, List.count_append, List.count_replicate_self, List.count_replicate,
        if_neg (by decide), Nat.add_zero]
    · rw [peerName, List.count_append, List.count_replicate_self, List.count_replicate,
        if_neg (by decide), Nat.zero_add]
  obtain ⟨ha, hc⟩ := hcount i
  obtain ⟨ha', hc'⟩ := hcount j
  rw [h] at ha hc
  omega

theorem byteLen_peerName {i : ℕ} (h : i < 1024) : byteLen (String.ofList (peerName i)) ≤ 128 := by
  have hlen : ∀ n c, (List.flatMap String.utf8EncodeChar (List.replicate n c)).length =
      n*(String.utf8EncodeChar c).length := by
    intro n c
    rw [List.length_flatMap, List.map_replicate, List.sum_replicate, smul_eq_mul]
  have hone : (String.utf8EncodeChar 'A').length = 1 ∧ (String.utf8EncodeChar 'C').length = 1 := by
    decide
  rw [byteLen, utf8_eq, String.toList_ofList, peerName, List.flatMap_append, List.length_append,
    hlen, hlen, hone.1, hone.2]
  omega

def taggedPeer (i : Fin 513) : PeerText :=
  ⟨String.ofList (peerName i.1), byteLen_peerName (by omega)⟩

theorem taggedPeer_injective : Function.Injective taggedPeer := by
  intro i j h
  have hlist := String.ofList_injective (congrArg Subtype.val h)
  exact Fin.ext (peerName_injective hlist)

/-- Seeds that nothing has been heard of, one more than there is room for. -/
def taggedPeers : List PeerText := (List.finRange 513).map taggedPeer

end Sample

theorem peer_book_kept_sample : Steps step Keeps (∅ : PeerBook Unit) Sample.run ∧
    ∀ pre, pre <+: Sample.run → (pre.foldl step (∅ : PeerBook Unit)).size ≤ peerCap ∧
      ∀ (k : String) (e : Entry Unit), (pre.foldl step (∅ : PeerBook Unit))[k]? = some e →
        e.addrs.card ≤ maxAddrsPerPeer ∧ e.tags.card ≤ maxTagsPerPeer := by
  refine peer_book_kept Opens.fresh ⟨trivial, Or.inr (Or.inr ?_), ⟨?_, ?_, ?_⟩, trivial⟩
  · decide +kernel
  · decide +kernel
  · decide +kernel
  · intro k e _ a _
    cases a
    exact ⟨by decide +kernel, by decide +kernel⟩

/-- Tags bring in more peers than the cap allows. -/
theorem tags_pass_cap : peerCap <
    (((Sample.taggedPeers.map fun p => Op.addTag p "seed").foldl step
      (∅ : PeerBook Unit))).size := by
  have hnodup : Sample.taggedPeers.Nodup :=
    (List.nodup_finRange 513).map Sample.taggedPeer_injective
  have hshort : byteLen "seed" ≤ maxTagBytes := by decide +kernel
  rw [size_tagged hshort hnodup fun _ _ => ExtTreeMap.not_mem_empty, Sample.taggedPeers,
    List.length_map, List.length_finRange, ExtTreeMap.size_empty]
  decide

end PeerBook

end Remzar
