import Mathlib
import Remzar.InvoiceRecords

/-! The stored index as a map from one-time wallets: what canonicalising and validating ask of it,
and what an insertion and a removal change. -/
namespace Remzar
open Std Fallible Text Buckets
namespace PrivateWI

/-! ### Canonical entries -/

theorem canonicalizeEntry_ok_iff {entry entry' : PrivateWalletIndexEntry} :
    canonicalizeEntry entry = .ok entry' ↔ ∃ owner oneTime parsed label context,
      canonWalletIdChecked entry.ownerWallet = .ok owner ∧
      canonWalletIdChecked entry.oneTimeWallet = .ok oneTime ∧
      PrivateRI.parseInvoiceOrAddress entry.invoice = .ok parsed ∧
      validatePresent validateOptionalLabel entry.label = .ok label ∧
      validatePresent validateOptionalContext entry.context = .ok context ∧
      entry' = { entry with
        ownerWallet := owner, oneTimeWallet := oneTime, invoice := parsed.canonicalInvoice,
        walletFileName := PrivateRW.walletFileName oneTime, label := label, context := context } ∧
      validateEntry entry' = .ok () := by
  simp only [canonicalizeEntry, bind_eq_ok_iff, pure_eq_ok_iff, canonicalWallet_ok_iff,
    Unique.exists_iff]
  constructor
  · rintro ⟨owner, howner, oneTime, hone, parsed, hparsed, label, hlabel, context, hcontext, hvalid,
      rfl⟩
    exact ⟨owner, oneTime, parsed, label, context, howner, hone, hparsed, hlabel, hcontext, rfl,
      hvalid⟩
  · rintro ⟨owner, oneTime, parsed, label, context, howner, hone, hparsed, hlabel, hcontext, rfl,
      hvalid⟩
    exact ⟨owner, howner, oneTime, hone, parsed, hparsed, label, hlabel, context, hcontext, hvalid,
      rfl⟩

/-- An entry that canonicalising leaves alone. -/
def CanonicalEntry (entry : PrivateWalletIndexEntry) : Prop := canonicalizeEntry entry = .ok entry

namespace CanonicalEntry
variable {entry : PrivateWalletIndexEntry}

theorem valid (h : CanonicalEntry entry) : validateEntry entry = .ok () := by
  obtain ⟨_, _, _, _, _, -, -, -, -, -, -, hvalid⟩ := canonicalizeEntry_ok_iff.mp h
  exact hvalid

theorem owner (h : CanonicalEntry entry) :
    canonWalletIdChecked entry.ownerWallet = .ok entry.ownerWallet := by
  obtain ⟨owner, _, _, _, _, howner, -, -, -, -, hself, -⟩ := canonicalizeEntry_ok_iff.mp h
  have hsame : entry.ownerWallet = owner := congrArg PrivateWalletIndexEntry.ownerWallet hself
  rwa [← hsame] at howner

theorem oneTime (h : CanonicalEntry entry) :
    canonWalletIdChecked entry.oneTimeWallet = .ok entry.oneTimeWallet := by
  obtain ⟨_, oneTime, _, _, _, -, hone, -, -, -, hself, -⟩ := canonicalizeEntry_ok_iff.mp h
  have hsame : entry.oneTimeWallet = oneTime := congrArg PrivateWalletIndexEntry.oneTimeWallet hself
  rwa [← hsame] at hone

/-- The invoice of an entry is the one made for its wallet. -/
theorem invoice (h : CanonicalEntry entry) : entry.invoice = invoiceTag ++ entry.oneTimeWallet := by
  obtain ⟨-, _, oneTime, -, hone, -, ⟨parsed, hparsed, hwallet, hinvoice⟩, -⟩ :=
    validateEntry_ok_iff.mp h.valid
  rw [h.oneTime] at hone
  rw [← hinvoice, (PrivateRI.parseInvoiceOrAddress_invoice hparsed).2, hwallet,
    Except.ok.inj hone]

end CanonicalEntry

theorem buildEntry_canonical {path : List UInt8} {world : IndexWorld}
    {request : PrivateWalletIndexAddRequest} {entry : PrivateWalletIndexEntry}
    (h : buildEntry path world request = .ok entry) : CanonicalEntry entry := by
  obtain ⟨owner, oneTime, invoice, file, created, indexed, label, context, howner, hone, -, -, -, -,
    -, hlabel, hcontext, rfl, hvalid⟩ := buildEntry_ok_iff.mp h
  obtain ⟨-, _, one, -, hone', -, ⟨parsed, hparsed, -, hinvoice⟩, hfile, -⟩ :=
    validateEntry_ok_iff.mp hvalid
  have hagain := canonWalletIdChecked_idem hone
  rw [hagain] at hone'
  obtain rfl := Except.ok.inj hone'
  refine canonicalizeEntry_ok_iff.mpr ⟨owner, oneTime, parsed, label, context,
    canonWalletIdChecked_idem howner, hagain, hparsed,
    validatePresent_again (fun _ _ => validateOptionalText_again) hlabel,
    validatePresent_again (fun _ _ => validateOptionalText_again) hcontext, ?_, hvalid⟩
  rw [hinvoice, ← hfile]

/-! ### The order of entries -/

instance : TransCmp entrySortCmp :=
  inferInstanceAs (TransCmp (compareLex (compareOn fun e : PrivateWalletIndexEntry =>
    e.createdUnixSecs) (compareLex (compareOn fun e => utf8 e.ownerWallet)
      (compareOn fun e => utf8 e.oneTimeWallet))))

def Before (a b : PrivateWalletIndexEntry) : Prop := (entrySortCmp a b).isLE = true

instance : DecidableRel Before := fun a b =>
  inferInstanceAs (Decidable ((entrySortCmp a b).isLE = true))

instance : IsTrans PrivateWalletIndexEntry Before :=
  ⟨fun _ _ _ hab hbc => TransCmp.isLE_trans hab hbc⟩

instance : Std.Total Before := by
  constructor
  intro a b
  unfold Before
  rw [@OrientedCmp.eq_swap _ entrySortCmp _ b]
  cases entrySortCmp a b <;> decide

theorem sortEntries_sorted (entries : List PrivateWalletIndexEntry) :
    (sortEntries entries).Pairwise Before := List.pairwise_insertionSort Before entries

theorem sortEntries_of_sorted {entries : List PrivateWalletIndexEntry}
    (h : entries.Pairwise Before) : sortEntries entries = entries := h.insertionSort_eq

theorem sortEntries_perm (entries : List PrivateWalletIndexEntry) :
    (sortEntries entries).Perm entries := List.perm_insertionSort Before entries

theorem dedupEntries_of_nodup {entries : List PrivateWalletIndexEntry}
    (h : (entries.map (·.oneTimeWallet)).Nodup) : dedupEntries entries = entries := by
  rw [dedupEntries, List.destutter_eq_self_iff]
  exact (List.pairwise_map.mp h).isChain

/-! ### Sound indexes -/

/-- Canonical entries under their owners, in order, no wallet twice. -/
structure Sound (m : OwnedEntries) : Prop where
  filed : Filed (·.ownerWallet) m
  distinct : ∀ k, ((bucket m k).map (·.oneTimeWallet)).Nodup
  oneOwner : ∀ e ∈ items m, ∀ e' ∈ items m, e.oneTimeWallet = e'.oneTimeWallet →
    e.ownerWallet = e'.ownerWallet
  canonical : ∀ e ∈ items m, CanonicalEntry e
  sorted : ∀ k, (bucket m k).Pairwise Before

theorem refileEntry_foldlM {entries : List PrivateWalletIndexEntry} (m : OwnedEntries)
    (h : ∀ e ∈ entries, CanonicalEntry e) :
    entries.foldlM refileEntry m = .ok (fileAll (·.ownerWallet) m entries) := by
  induction entries generalizing m with
  | nil => rfl
  | cons e entries ih =>
    have he : canonicalizeEntry e = .ok e := h e List.mem_cons_self
    rw [List.foldlM_cons, refileEntry, he, ok_bind, pure_bind_ok]
    exact ih _ fun e' he' => h e' (List.mem_cons_of_mem e he')

theorem refile_owners (owners : List (String × List PrivateWalletIndexEntry)) (m : OwnedEntries)
    (h : ∀ e ∈ owners.flatMap Prod.snd, CanonicalEntry e) :
    owners.foldlM (fun m owned => owned.2.foldlM refileEntry m) m =
      .ok (fileAll (·.ownerWallet) m (owners.flatMap Prod.snd)) := by
  induction owners generalizing m with
  | nil => rfl
  | cons owned owners ih =>
    rw [List.flatMap_cons] at h ⊢
    rw [List.foldlM_cons, refileEntry_foldlM m fun e he => h e (List.mem_append_left _ he), ok_bind,
      ih _ fun e he => h e (List.mem_append_right _ he), fileAll, fileAll, fileAll,
      List.foldl_append]

namespace Sound
variable {m : OwnedEntries}

/-- Canonicalising leaves a sound index alone. -/
theorem canonicalize (h : Sound m) {index : PrivateWalletIndexFile}
    (hm : index.entriesByOwner = m) :
    canonicalizeIndexInPlace index = .ok index := by
  have hrebuilt := refile_owners m.toList ∅ h.canonical
  rw [← items, h.filed.refile] at hrebuilt
  have hmap : (m.map fun _ entries => dedupEntries (sortEntries entries)) = m := by
    apply ExtTreeMap.ext_getElem?
    intro k
    rw [ExtTreeMap.getElem?_map]
    cases hk : m[k]? with
    | none => rfl
    | some entries =>
      have hentries := bucket_of_getElem? hk
      rw [Option.map_some, sortEntries_of_sorted (hentries ▸ h.sorted k),
        dedupEntries_of_nodup (hentries ▸ h.distinct k)]
  rw [canonicalizeIndexInPlace, hm, hrebuilt, ok_bind, hmap, ← hm]
  rfl

theorem empty : Sound ∅ := by
  refine ⟨Filed.empty, fun k => ?_, ?_, ?_, fun k => ?_⟩
  · rw [bucket_empty]
    exact List.nodup_nil
  · rw [items_empty]
    exact fun e he => absurd he List.not_mem_nil
  · rw [items_empty]
    exact fun e he => absurd he List.not_mem_nil
  · rw [bucket_empty]
    exact List.Pairwise.nil

/-- A wallet has one entry. -/
theorem eq_of_wallet (h : Sound m) {e e' : PrivateWalletIndexEntry} (he : e ∈ items m)
    (he' : e' ∈ items m) (hwallet : e.oneTimeWallet = e'.oneTimeWallet) : e = e' := by
  have howner := h.oneOwner e he e' he' hwallet
  rw [h.filed.mem_items] at he he'
  rw [howner] at he
  exact List.inj_on_of_nodup_map (h.distinct e'.ownerWallet) he he' hwallet

/-- No two entries of the index are for one wallet. -/
theorem nodup_wallets (h : Sound m) : ((items m).map (·.oneTimeWallet)).Nodup := by
  have hnodup : (items m).Nodup := by
    rw [items, List.nodup_flatMap]
    constructor
    · intro owned howned
      have hread := ExtTreeMap.mem_toList_iff_getElem?_eq_some.mp howned
      exact List.Nodup.of_map _ (bucket_of_getElem? hread ▸ h.distinct owned.1)
    · have hkeys := ExtTreeMap.distinct_keys_toList (t := m)
      refine hkeys.imp_of_mem ?_
      intro a b ha hb hne
      have hreada := ExtTreeMap.mem_toList_iff_getElem?_eq_some.mp ha
      have hreadb := ExtTreeMap.mem_toList_iff_getElem?_eq_some.mp hb
      intro e hea heb
      have hsame := (h.filed.filed a.1 a.2 hreada e hea).symm.trans
        (h.filed.filed b.1 b.2 hreadb e heb)
      exact hne (LawfulEqCmp.compare_eq_iff_eq.mpr hsame)
  exact hnodup.map_on fun e he e' he' hwallet => h.eq_of_wallet he he' hwallet

end Sound
/-! ### Validating -/

/-- The bounds on owners and entries. -/
structure Within (m : OwnedEntries) : Prop where
  owners : m.size ≤ maxPrivateIndexOwners
  perOwner : ∀ k, (bucket m k).length ≤ maxPrivateIndexEntriesPerOwner
  total : total m ≤ maxPrivateIndexTotalEntries

theorem validateOwnedEntry_foldlM {owner : String} {entries : List PrivateWalletIndexEntry}
    (seen : List String) (hvalid : ∀ e ∈ entries, validateEntry e = .ok () ∧ e.ownerWallet = owner)
    (hnodup : (entries.map (·.oneTimeWallet)).Nodup)
    (hfresh : ∀ e ∈ entries, e.oneTimeWallet ∉ seen) :
    entries.foldlM (validateOwnedEntry owner) seen =
      .ok ((entries.map (·.oneTimeWallet)).reverse ++ seen) := by
  induction entries generalizing seen with
  | nil => rfl
  | cons e entries ih =>
    rw [List.map_cons, List.nodup_cons] at hnodup
    obtain ⟨hentry, howner⟩ := hvalid e List.mem_cons_self
    rw [List.foldlM_cons, validateOwnedEntry, hentry, ok_bind,
      rejectIf_of_not _ (not_not_intro howner), ok_bind,
      rejectIf_of_not _ (hfresh e List.mem_cons_self), ok_bind, pure_bind_ok,
      ih _ (fun e' he' => hvalid e' (List.mem_cons_of_mem e he')) hnodup.2 ?_]
    · simp
    · intro e' he' hmem
      rcases List.mem_cons.mp hmem with hsame | hmem
      · exact hnodup.1 (hsame ▸ List.mem_map_of_mem he')
      · exact hfresh e' (List.mem_cons_of_mem e he') hmem

theorem validateOwnerEntries_foldlM_iff {owners : List (String × List PrivateWalletIndexEntry)}
    (total : ℕ) (seen : List String)
    (hvalid : ∀ owned ∈ owners, canonWalletIdChecked owned.1 = .ok owned.1 ∧
      ∀ e ∈ owned.2, validateEntry e = .ok () ∧ e.ownerWallet = owned.1)
    (hnodup : ((owners.flatMap Prod.snd).map (·.oneTimeWallet)).Nodup)
    (hfresh : ∀ e ∈ owners.flatMap Prod.snd, e.oneTimeWallet ∉ seen)
    (htotal : total ≤ maxPrivateIndexTotalEntries) :
    (∃ r, owners.foldlM validateOwnerEntries (total, seen) = .ok r) ↔
      (∀ owned ∈ owners, owned.2.length ≤ maxPrivateIndexEntriesPerOwner) ∧
        total+(owners.flatMap Prod.snd).length ≤ maxPrivateIndexTotalEntries := by
  induction owners generalizing total seen with
  | nil =>
    refine iff_of_true ⟨_, rfl⟩ ⟨fun _ h => absurd h List.not_mem_nil, ?_⟩
    exact htotal
  | cons owned owners ih =>
    rw [List.flatMap_cons, List.map_append, List.nodup_append] at hnodup
    obtain ⟨hown, hrest, hapart⟩ := hnodup
    simp only [List.flatMap_cons, List.mem_append] at hfresh
    obtain ⟨howner, hentries⟩ := hvalid owned List.mem_cons_self
    have hseen := validateOwnedEntry_foldlM seen hentries hown fun e he => hfresh e (.inl he)
    have hstep : ∀ r, validateOwnerEntries (total, seen) owned = .ok r ↔
        owned.2.length ≤ maxPrivateIndexEntriesPerOwner ∧
          total+owned.2.length ≤ maxPrivateIndexTotalEntries ∧
          (total+owned.2.length, (owned.2.map (·.oneTimeWallet)).reverse ++ seen) = r := by
      intro r
      have hcanon : canonicalWallet owned.1 = .ok owned.1 := canonicalWallet_ok_iff.mpr howner
      simp only [validateOwnerEntries, hcanon, ok_bind, hseen, bind_eq_ok_iff, rejectIf_eq_ok_iff,
        pure_eq_ok_iff, Nat.not_lt, Nat.not_le, not_not, Unique.exists_iff, true_and]
      constructor
      · rintro ⟨hlen, -, hsum, heq⟩
        exact ⟨hlen, hsum, heq⟩
      · rintro ⟨hlen, hsum, heq⟩
        refine ⟨hlen, ?_, hsum, heq⟩
        have hcap : maxPrivateIndexTotalEntries < 2^64 := by decide
        omega
    have hvalid' := fun o ho => hvalid o (List.mem_cons_of_mem owned ho)
    have hfresh' : ∀ e ∈ owners.flatMap Prod.snd,
        e.oneTimeWallet ∉ (owned.2.map (·.oneTimeWallet)).reverse ++ seen := by
      intro e he hmem
      rcases List.mem_append.mp hmem with hmem | hmem
      · exact hapart _ (List.mem_reverse.mp hmem) _ (List.mem_map_of_mem he) rfl
      · exact hfresh e (.inr he) hmem
    simp only [List.foldlM_cons, bind_eq_ok_iff, hstep, List.forall_mem_cons, List.flatMap_cons,
      List.length_append]
    constructor
    · rintro ⟨r, _, ⟨hlen, hsum, rfl⟩, hrun⟩
      obtain ⟨hall, hcap⟩ := (ih _ _ hvalid' hrest hfresh' hsum).mp ⟨r, hrun⟩
      exact ⟨⟨hlen, hall⟩, by omega⟩
    · rintro ⟨⟨hlen, hall⟩, hcap⟩
      have hsum : total+owned.2.length ≤ maxPrivateIndexTotalEntries := by omega
      obtain ⟨r, hrun⟩ := (ih _ _ hvalid' hrest hfresh' hsum).mpr ⟨hall, by omega⟩
      exact ⟨r, _, ⟨hlen, hsum, rfl⟩, hrun⟩

/-- The fields of an index around its entries. -/
structure Headed (index : PrivateWalletIndexFile) : Prop where
  kind : index.kind = privateWalletIndexKind
  version : index.version = privateReceiveVersion
  created : index.createdUnixSecs ≠ 0
  updated : index.updatedUnixSecs ≠ 0

/-- Only its fields and the bounds can make a sound index invalid. -/
theorem Sound.validate_iff {index : PrivateWalletIndexFile} (h : Sound index.entriesByOwner) :
    validateIndexFile index = .ok () ↔ Headed index ∧ Within index.entriesByOwner := by
  have hread : ∀ owned ∈ index.entriesByOwner.toList,
      index.entriesByOwner[owned.1]? = some owned.2 := fun owned howned =>
    ExtTreeMap.mem_toList_iff_getElem?_eq_some.mp howned
  have hitem : ∀ owned ∈ index.entriesByOwner.toList, ∀ e ∈ owned.2,
      e ∈ items index.entriesByOwner := fun owned howned e he =>
    List.mem_flatMap.mpr ⟨owned, howned, he⟩
  have howners := @validateOwnerEntries_foldlM_iff index.entriesByOwner.toList 0 []
    (fun owned howned => by
      have hkey := fun e he => h.filed.filed owned.1 owned.2 (hread owned howned) e he
      refine ⟨?_, fun e he => ⟨(h.canonical e (hitem owned howned e he)).valid, hkey e he⟩⟩
      obtain ⟨e, he⟩ := List.exists_mem_of_ne_nil _
        (h.filed.nonempty owned.1 owned.2 (hread owned howned))
      rw [← hkey e he]
      exact (h.canonical e (hitem owned howned e he)).owner)
    h.nodup_wallets (fun _ _ => List.not_mem_nil) (Nat.zero_le _)
  have hlengths : (∀ owned ∈ index.entriesByOwner.toList,
      owned.2.length ≤ maxPrivateIndexEntriesPerOwner) ↔
      ∀ k, (bucket index.entriesByOwner k).length ≤ maxPrivateIndexEntriesPerOwner := by
    constructor
    · intro hall k
      cases hk : index.entriesByOwner[k]? with
      | none =>
        rw [bucket, hk]
        exact Nat.zero_le _
      | some entries =>
        rw [bucket_of_getElem? hk]
        exact hall _ (ExtTreeMap.mem_toList_iff_getElem?_eq_some.mpr hk)
    · intro hall owned howned
      rw [← bucket_of_getElem? (hread owned howned)]
      exact hall owned.1
  rw [hlengths, Nat.zero_add, ← items, length_items] at howners
  simp only [validateIndexFile, bind_eq_ok_iff, rejectIf_eq_ok_iff, pure_eq_ok_iff, not_not,
    Nat.not_lt, Unique.exists_iff, and_true]
  rw [howners]
  constructor
  · rintro ⟨hkind, hversion, hcreated, hupdated, howned, hper, htotal⟩
    exact ⟨⟨hkind, hversion, hcreated, hupdated⟩, howned, hper, htotal⟩
  · rintro ⟨⟨hkind, hversion, hcreated, hupdated⟩, howned, hper, htotal⟩
    exact ⟨hkind, hversion, hcreated, hupdated, howned, hper, htotal⟩

/-! ### The map -/

/-- Which entry a wallet has. -/
abbrev Book := String → Option PrivateWalletIndexEntry

def book (m : OwnedEntries) : Book := fun wallet =>
  (items m).find? fun e => e.oneTimeWallet = wallet

theorem mem_of_book {m : OwnedEntries} {wallet : String} {e : PrivateWalletIndexEntry}
    (h : book m wallet = some e) : e ∈ items m ∧ e.oneTimeWallet = wallet := by
  rw [book] at h
  exact ⟨List.mem_of_find?_eq_some h, by simpa using List.find?_some h⟩

theorem findEntry_eq {index : PrivateWalletIndexFile} {m : OwnedEntries}
    (h : Filed (·.ownerWallet) m) (hm : index.entriesByOwner = m) (wallet : String) :
    findEntry index wallet = (book m wallet).map fun e => ⟨e.ownerWallet, e⟩ := by
  have howned : ∀ owned ∈ m.toList, ∀ e ∈ owned.2, e.ownerWallet = owned.1 := fun owned howned =>
    h.filed owned.1 owned.2 (ExtTreeMap.mem_toList_iff_getElem?_eq_some.mp howned)
  rw [findEntry, book, items, List.find?_flatMap, List.map_findSome?, hm]
  generalize m.toList = owners at howned
  induction owners with
  | nil => rfl
  | cons owned owners ih =>
    rw [List.forall_mem_cons] at howned
    have hhead : ((owned.2.find? fun e => e.oneTimeWallet = wallet).map (⟨owned.1, ·⟩) :
        Option PrivateWalletOwnerLookup) =
        (owned.2.find? fun e => e.oneTimeWallet = wallet).map fun e => ⟨e.ownerWallet, e⟩ := by
      apply Option.map_congr
      intro e he
      rw [howned.1 e (List.mem_of_find?_eq_some he)]
    rw [List.findSome?_cons, List.findSome?_cons, ih howned.2]
    dsimp only [Function.comp_apply]
    rw [hhead]

namespace Sound
variable {m m' : OwnedEntries} {entry e : PrivateWalletIndexEntry} {wallet : String}

theorem book_eq_some_iff (h : Sound m) :
    book m wallet = some e ↔ e ∈ items m ∧ e.oneTimeWallet = wallet := by
  constructor
  · exact mem_of_book
  · rintro ⟨he, rfl⟩
    cases hbook : book m e.oneTimeWallet with
    | none => exact absurd (List.find?_eq_none.mp hbook e he) (by simp)
    | some e' =>
      obtain ⟨he', hwallet⟩ := mem_of_book hbook
      rw [h.eq_of_wallet he' he hwallet]

/-- A book of one wallet has one entry. -/
theorem total_le_one (h : Sound m) {e : PrivateWalletIndexEntry}
    (hbook : book m = Function.update (fun _ => none) wallet (some e)) : total m ≤ 1 := by
  have hsub : items m ⊆ [e] := by
    intro e' he'
    have hread := h.book_eq_some_iff.mpr ⟨he', rfl⟩
    rw [hbook, Function.update_apply] at hread
    split at hread
    · rw [List.mem_singleton]
      exact (Option.some.inj hread).symm
    · cases hread
  rw [← length_items]
  exact (h.nodup_wallets.of_map _).subperm hsub |>.length_le

theorem book_eq_none_iff : book m wallet = none ↔ ∀ e ∈ items m, e.oneTimeWallet ≠ wallet := by
  rw [book, List.find?_eq_none]
  simp

/-- Sound indexes whose entries are those of a book are that book. -/
theorem book_eq (h : Sound m) {b : Book}
    (hb : ∀ wallet e, b wallet = some e ↔ e ∈ items m ∧ e.oneTimeWallet = wallet) : book m = b := by
  funext wallet
  apply Option.ext
  intro e
  rw [h.book_eq_some_iff, hb]

/-! ### Insertion -/

theorem bucket_putEntry (k : String) : bucket (putEntry entry m) k =
    if entry.ownerWallet = k then sortEntries (((bucket m entry.ownerWallet).filter fun existing =>
      existing.oneTimeWallet ≠ entry.oneTimeWallet) ++ [entry]) else bucket m k :=
  bucket_insert _ k

theorem mem_bucket_putEntry {k : String} : e ∈ bucket (putEntry entry m) k ↔
    if entry.ownerWallet = k then
      (e ∈ bucket m k ∧ e.oneTimeWallet ≠ entry.oneTimeWallet) ∨ e = entry
    else e ∈ bucket m k := by
  rw [bucket_putEntry]
  split
  · rename_i hk
    rw [(sortEntries_perm _).mem_iff, List.mem_append, List.mem_filter, List.mem_singleton, hk,
      decide_eq_true_eq]
  · exact Iff.rfl

/-- An entry takes the place of the one for its wallet, which has the same owner. -/
theorem mem_items_putEntry (h : Sound m)
    (hconflict : ∀ e ∈ items m, e.oneTimeWallet = entry.oneTimeWallet →
      e.ownerWallet = entry.ownerWallet) :
    e ∈ items (putEntry entry m) ↔
      (e ∈ items m ∧ e.oneTimeWallet ≠ entry.oneTimeWallet) ∨ e = entry := by
  rw [mem_items]
  simp only [mem_bucket_putEntry]
  constructor
  · rintro ⟨k, hk⟩
    split at hk
    · exact hk.imp_left fun hold => ⟨mem_items.mpr ⟨k, hold.1⟩, hold.2⟩
    · rename_i hother
      have he := mem_items.mpr ⟨k, hk⟩
      refine .inl ⟨he, fun hsame => hother ?_⟩
      rw [← hconflict e he hsame, h.filed.key hk]
  · rintro (⟨he, hne⟩ | rfl)
    · refine ⟨e.ownerWallet, ?_⟩
      rw [h.filed.mem_items] at he
      split
      · exact .inl ⟨he, hne⟩
      · exact he
    · exact ⟨e.ownerWallet, by rw [if_pos rfl]; exact .inr rfl⟩

theorem putEntry (h : Sound m) (hentry : CanonicalEntry entry)
    (hconflict : ∀ e ∈ items m, e.oneTimeWallet = entry.oneTimeWallet →
      e.ownerWallet = entry.ownerWallet) : Sound (putEntry entry m) := by
  refine ⟨?_, fun k => ?_, ?_, ?_, fun k => ?_⟩
  · apply h.filed.insert
    · rw [← List.length_pos_iff, (sortEntries_perm _).length_eq, List.length_append]
      exact Nat.lt_add_left _ Nat.one_pos
    · intro e he
      rw [(sortEntries_perm _).mem_iff, List.mem_append, List.mem_filter, List.mem_singleton] at he
      rcases he with ⟨he, -⟩ | rfl
      · exact h.filed.key he
      · rfl
  · rw [bucket_putEntry]
    split
    · rw [((sortEntries_perm _).map _).nodup_iff, List.map_append, List.nodup_append]
      refine ⟨(h.distinct _).sublist (List.filter_sublist.map _), List.nodup_singleton _, ?_⟩
      intro w hw w' hw' heq
      obtain ⟨e, he, rfl⟩ := List.mem_map.mp hw
      rw [List.map_singleton, List.mem_singleton] at hw'
      exact of_decide_eq_true (List.mem_filter.mp he).2 (heq.trans hw')
    · exact h.distinct k
  · intro e he e' he' hwallet
    rw [h.mem_items_putEntry hconflict] at he he'
    rcases he with ⟨he, hne⟩ | rfl
    · rcases he' with ⟨he', -⟩ | rfl
      · exact h.oneOwner e he e' he' hwallet
      · exact absurd hwallet hne
    · rcases he' with ⟨he', hne⟩ | rfl
      · exact absurd hwallet.symm hne
      · rfl
  · intro e he
    rw [h.mem_items_putEntry hconflict] at he
    rcases he with ⟨he, -⟩ | rfl
    · exact h.canonical e he
    · exact hentry
  · rw [bucket_putEntry]
    split
    · exact sortEntries_sorted _
    · exact h.sorted k

theorem book_putEntry (h : Sound m) (hentry : CanonicalEntry entry)
    (hconflict : ∀ e ∈ items m, e.oneTimeWallet = entry.oneTimeWallet →
      e.ownerWallet = entry.ownerWallet) :
    book (PrivateWI.putEntry entry m) =
      Function.update (book m) entry.oneTimeWallet (some entry) := by
  refine (h.putEntry hentry hconflict).book_eq fun wallet e => ?_
  rw [h.mem_items_putEntry hconflict, Function.update_apply]
  split
  · rename_i hwallet
    constructor
    · intro heq
      obtain rfl := Option.some.inj heq
      exact ⟨.inr rfl, hwallet.symm⟩
    · rintro ⟨⟨-, hne⟩ | rfl, hsame⟩
      · exact absurd (hsame.trans hwallet) hne
      · rfl
  · rename_i hwallet
    rw [h.book_eq_some_iff]
    constructor
    · rintro ⟨he, hsame⟩
      exact ⟨.inl ⟨he, fun heq => hwallet (hsame.symm.trans heq)⟩, hsame⟩
    · rintro ⟨⟨he, -⟩ | rfl, hsame⟩
      · exact ⟨he, hsame⟩
      · exact absurd hsame.symm hwallet

/-- One more entry is within the bounds of an index with room. -/
theorem within_putEntry (h : Sound m) (hentry : CanonicalEntry entry)
    (hconflict : ∀ e ∈ items m, e.oneTimeWallet = entry.oneTimeWallet →
      e.ownerWallet = entry.ownerWallet)
    (hroom : total m < maxPrivateIndexOwners) : Within (PrivateWI.putEntry entry m) := by
  have htotal : total (PrivateWI.putEntry entry m) ≤ total m+1 := by
    have hinsert := total_insert m entry.ownerWallet (sortEntries
      (((bucket m entry.ownerWallet).filter fun e => e.oneTimeWallet ≠ entry.oneTimeWallet) ++
        [entry]))
    have hfilter := List.length_filter_le (fun e => decide (e.oneTimeWallet ≠ entry.oneTimeWallet))
      (bucket m entry.ownerWallet)
    rw [(sortEntries_perm _).length_eq, List.length_append, List.length_singleton] at hinsert
    change total (PrivateWI.putEntry entry m)+_ = _ at hinsert
    omega
  refine ⟨?_, fun k => ?_, ?_⟩
  · exact ((h.putEntry hentry hconflict).filed.size_le_total.trans htotal).trans hroom
  · exact ((length_bucket_le _ k).trans htotal).trans hroom
  · exact (htotal.trans hroom).trans (by decide)

/-! ### Removal -/

theorem eraseP_split {entry : PrivateWalletIndexEntry} (h : Sound m) (he : entry ∈ items m) :
    ∃ before after, bucket m entry.ownerWallet = before ++ entry :: after ∧
      ((bucket m entry.ownerWallet).eraseP fun e => e.oneTimeWallet = entry.oneTimeWallet) =
        before ++ after := by
  have hmem := h.filed.mem_items.mp he
  obtain ⟨found, before, after, -, hfound, hsplit, herase⟩ := List.exists_of_eraseP hmem
    (p := fun e => e.oneTimeWallet = entry.oneTimeWallet) (decide_eq_true rfl)
  have hin : found ∈ items m :=
    mem_items.mpr ⟨_, hsplit ▸ List.mem_append_right before List.mem_cons_self⟩
  obtain rfl := h.eq_of_wallet hin he (of_decide_eq_true hfound)
  exact ⟨before, after, hsplit, herase⟩

end Sound

/-- The index without an entry. -/
def dropEntry (entry : PrivateWalletIndexEntry) (m : OwnedEntries) : OwnedEntries :=
  let left := (bucket m entry.ownerWallet).eraseP fun e => e.oneTimeWallet = entry.oneTimeWallet
  if left = [] then m.erase entry.ownerWallet else m.insert entry.ownerWallet left

theorem bucket_dropEntry {entry : PrivateWalletIndexEntry} {m : OwnedEntries} (k : String) :
    bucket (dropEntry entry m) k = if entry.ownerWallet = k then
      (bucket m entry.ownerWallet).eraseP fun e => e.oneTimeWallet = entry.oneTimeWallet
      else bucket m k := by
  rw [dropEntry]
  split
  · rename_i hleft
    rw [bucket_erase, hleft]
  · rw [bucket_insert]

namespace Sound
variable {m m' : OwnedEntries} {entry e : PrivateWalletIndexEntry} {wallet : String}

theorem mem_items_dropEntry (h : Sound m) (hentry : entry ∈ items m) :
    e ∈ items (dropEntry entry m) ↔ e ∈ items m ∧ e.oneTimeWallet ≠ entry.oneTimeWallet := by
  obtain ⟨before, after, hsplit, herase⟩ := h.eraseP_split hentry
  have hdistinct := h.distinct entry.ownerWallet
  rw [hsplit, List.map_append, List.map_cons, List.nodup_append, List.nodup_cons] at hdistinct
  obtain ⟨-, ⟨hafter, -⟩, hbefore⟩ := hdistinct
  rw [mem_items]
  simp only [bucket_dropEntry, herase]
  constructor
  · rintro ⟨k, hk⟩
    split at hk
    · have hin : e ∈ bucket m entry.ownerWallet := by
        rw [hsplit]
        exact List.mem_append.mpr ((List.mem_append.mp hk).imp_right (List.mem_cons_of_mem entry))
      refine ⟨mem_items.mpr ⟨_, hin⟩, fun hsame => ?_⟩
      rcases List.mem_append.mp hk with hk | hk
      · exact hbefore _ (List.mem_map_of_mem hk) _ List.mem_cons_self hsame
      · exact hafter (hsame ▸ List.mem_map_of_mem hk)
    · rename_i hother
      have hin := mem_items.mpr ⟨k, hk⟩
      refine ⟨hin, fun hsame => hother ?_⟩
      rw [← h.eq_of_wallet hin hentry hsame, h.filed.key hk]
  · rintro ⟨he, hne⟩
    refine ⟨e.ownerWallet, ?_⟩
    rw [h.filed.mem_items] at he
    split
    · rename_i howner
      rw [← howner, hsplit] at he
      rcases List.mem_append.mp he with he | he
      · exact List.mem_append_left _ he
      · rcases List.mem_cons.mp he with rfl | he
        · exact absurd rfl hne
        · exact List.mem_append_right _ he
    · exact he

theorem dropEntry (h : Sound m) (hentry : entry ∈ items m) : Sound (dropEntry entry m) := by
  have hsub : ∀ k, (bucket (PrivateWI.dropEntry entry m) k).Sublist (bucket m k) := by
    intro k
    rw [bucket_dropEntry]
    split
    · rename_i hk
      rw [← hk]
      exact List.eraseP_sublist
    · exact List.Sublist.refl _
  refine ⟨?_, fun k => (h.distinct k).sublist ((hsub k).map _), ?_, ?_,
    fun k => (h.sorted k).sublist (hsub k)⟩
  · rw [PrivateWI.dropEntry]
    split
    · exact h.filed.erase
    · rename_i hleft
      exact h.filed.insert hleft fun e he => h.filed.key (List.mem_of_mem_eraseP he)
  · intro e he e' he' hwallet
    rw [h.mem_items_dropEntry hentry] at he he'
    exact h.oneOwner e he.1 e' he'.1 hwallet
  · intro e he
    exact h.canonical e ((h.mem_items_dropEntry hentry).mp he).1

theorem book_dropEntry (h : Sound m) (hentry : entry ∈ items m) :
    book (PrivateWI.dropEntry entry m) = Function.update (book m) entry.oneTimeWallet none := by
  refine (h.dropEntry hentry).book_eq fun wallet e => ?_
  rw [h.mem_items_dropEntry hentry, Function.update_apply]
  split
  · rename_i hwallet
    refine iff_of_false (by simp) ?_
    rintro ⟨⟨-, hne⟩, hsame⟩
    exact hne (hsame.trans hwallet)
  · rename_i hwallet
    rw [h.book_eq_some_iff]
    exact ⟨fun ⟨he, hsame⟩ => ⟨⟨he, fun heq => hwallet (hsame.symm.trans heq)⟩, hsame⟩,
      fun ⟨⟨he, _⟩, hsame⟩ => ⟨he, hsame⟩⟩

/-- An owner without the wallet is left as it is. -/
theorem removeStep_other (h : Sound m) {owner : String} (hkey : owner ∈ m.keys)
    (hnone : ∀ e ∈ bucket m owner, e.oneTimeWallet ≠ wallet) :
    removeStep wallet (m, none) owner = (m, none) := by
  obtain ⟨entries, hentries⟩ := ExtTreeMap.mem_iff_isSome_getElem?.mp (ExtTreeMap.mem_keys.mp hkey)
    |> Option.isSome_iff_exists.mp
  have hbucket := bucket_of_getElem? hentries
  have hfind : ((bucket m owner).find? fun e => e.oneTimeWallet = wallet) = none := by
    rw [List.find?_eq_none]
    simpa using hnone
  have hleft : ((bucket m owner).eraseP fun e => e.oneTimeWallet = wallet) = bucket m owner :=
    List.eraseP_of_forall_not (by simpa using hnone)
  have hsame : m.insert owner entries = m := by
    apply ExtTreeMap.ext_getElem?
    intro k
    rw [ExtTreeMap.getElem?_insert]
    split
    · rename_i hk
      rw [← LawfulEqCmp.eq_of_compare hk, hentries]
    · rfl
  simp only [removeStep, hfind, hleft]
  rw [if_neg (hbucket ▸ h.filed.nonempty owner entries hentries), hbucket, hsame]

theorem removeStep_found {found : PrivateWalletIndexEntry} (owners : List String) :
    owners.foldl (removeStep wallet) (m, some found) = (m, some found) := by
  induction owners with
  | nil => rfl
  | cons owner owners ih => exact ih

theorem removeStep_others (h : Sound m) {owners : List String} (hkeys : ∀ k ∈ owners, k ∈ m.keys)
    (hnone : ∀ k ∈ owners, ∀ e ∈ bucket m k, e.oneTimeWallet ≠ wallet) :
    owners.foldl (removeStep wallet) (m, none) = (m, none) := by
  induction owners with
  | nil => rfl
  | cons owner owners ih =>
    rw [List.forall_mem_cons] at hkeys hnone
    rw [List.foldl_cons, h.removeStep_other hkeys.1 hnone.1]
    exact ih hkeys.2 hnone.2

/-- The search finds the entry of the wallet and drops it. -/
theorem removal (h : Sound m) : m.keys.foldl (removeStep wallet) (m, none) =
    match book m wallet with
    | none => (m, none)
    | some entry => (PrivateWI.dropEntry entry m, some entry) := by
  cases hbook : book m wallet with
  | none =>
    have hall := book_eq_none_iff.mp hbook
    exact h.removeStep_others (fun k hk => hk) fun k _ e he => hall e (mem_items.mpr ⟨k, he⟩)
  | some entry =>
    obtain ⟨hentry, rfl⟩ := mem_of_book hbook
    have hbucket := h.filed.mem_items.mp hentry
    have hkey : entry.ownerWallet ∈ m.keys := by
      rw [ExtTreeMap.mem_keys, ExtTreeMap.mem_iff_isSome_getElem?, getElem?_of_mem_bucket hbucket]
      rfl
    have hdistinct := ExtTreeMap.nodup_keys (t := m)
    obtain ⟨pre, post, hsplit⟩ := List.append_of_mem hkey
    rw [hsplit, List.nodup_append, List.nodup_cons] at hdistinct
    have hpre : ∀ k ∈ pre, ∀ e ∈ bucket m k, e.oneTimeWallet ≠ entry.oneTimeWallet := by
      intro k hk e he hsame
      have heq := h.eq_of_wallet (mem_items.mpr ⟨k, he⟩) hentry hsame
      exact hdistinct.2.2 k hk _ List.mem_cons_self (by rw [← heq, h.filed.key he])
    have hfind : ((bucket m entry.ownerWallet).find? fun e =>
        e.oneTimeWallet = entry.oneTimeWallet) = some entry := by
      cases hfound : (bucket m entry.ownerWallet).find? fun e =>
          e.oneTimeWallet = entry.oneTimeWallet with
      | none => exact absurd (List.find?_eq_none.mp hfound entry hbucket) (by simp)
      | some e =>
        have hin := mem_items.mpr ⟨_, List.mem_of_find?_eq_some hfound⟩
        rw [h.eq_of_wallet hin hentry (by simpa using List.find?_some hfound)]
    rw [hsplit, List.foldl_append, h.removeStep_others
      (fun k hk => hsplit ▸ List.mem_append_left _ hk) hpre, List.foldl_cons]
    simp only [removeStep, hfind]
    exact removeStep_found post

end Sound

/-! ### Insertion, as the code makes it -/

/-- An insertion succeeds when the wallet has no other owner and the result is within the bounds. -/
theorem insertOrReplaceEntry_ok_iff {index index' : PrivateWalletIndexFile}
    {entry : PrivateWalletIndexEntry} (h : Sound index.entriesByOwner)
    (hentry : CanonicalEntry entry) : insertOrReplaceEntry index entry = .ok index' ↔
      (∀ e ∈ items index.entriesByOwner, e.oneTimeWallet = entry.oneTimeWallet →
        e.ownerWallet = entry.ownerWallet) ∧
      index' = { index with entriesByOwner := putEntry entry index.entriesByOwner } ∧
      validateIndexFile index' = .ok () := by
  have hcanon : canonicalWallet entry.oneTimeWallet = .ok entry.oneTimeWallet :=
    canonicalWallet_ok_iff.mpr hentry.oneTime
  have hconflict : ((findEntry index entry.oneTimeWallet).map
      PrivateWalletOwnerLookup.ownerWallet).any (fun owner => owner ≠ entry.ownerWallet) ≠ true ↔
      ∀ e ∈ items index.entriesByOwner, e.oneTimeWallet = entry.oneTimeWallet →
        e.ownerWallet = entry.ownerWallet := by
    rw [findEntry_eq h.filed rfl]
    cases hbook : book index.entriesByOwner entry.oneTimeWallet with
    | none =>
      have hall := Sound.book_eq_none_iff.mp hbook
      exact iff_of_true (by simp) fun e he hsame => absurd hsame (hall e he)
    | some found =>
      obtain ⟨hfound, hwallet⟩ := mem_of_book hbook
      constructor
      · intro hany e he hsame
        rw [h.eq_of_wallet he hfound (hsame.trans hwallet.symm)]
        simpa using hany
      · intro hall
        simpa using hall found hfound hwallet
  simp only [insertOrReplaceEntry, findOwnerInIndex, hentry.valid, ok_bind, hcanon, pure_bind_ok,
    bind_eq_ok_iff, rejectIf_eq_ok_iff, pure_eq_ok_iff, hconflict, Unique.exists_iff]
  constructor
  · rintro ⟨hall, canonical, hcanonical, hvalid, rfl⟩
    rw [(h.putEntry hentry hall).canonicalize rfl] at hcanonical
    exact ⟨hall, (Except.ok.inj hcanonical).symm, hvalid⟩
  · rintro ⟨hall, rfl, hvalid⟩
    exact ⟨hall, _, (h.putEntry hentry hall).canonicalize rfl, hvalid, rfl⟩

end PrivateWI
end Remzar
