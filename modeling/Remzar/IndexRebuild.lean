import Mathlib
import Remzar.IndexRuns

/-! Rebuilding the private wallet index from record files: what comes out, and whether anything
does, is the same for every order of the files. -/
namespace Remzar
open Std Fallible Text Buckets Effects
namespace PrivateWI

/-! ### Insertions one after another -/

/-- The index has an entry for this wallet under this owner. -/
def Lists (m : OwnedEntries) (e : PrivateWalletIndexEntry) : Prop :=
  ∃ e' ∈ items m, e'.oneTimeWallet = e.oneTimeWallet ∧ e'.ownerWallet = e.ownerWallet

/-- An index that lists no more is within the bounds if the other is. -/
theorem Within.of_lists {m m' : OwnedEntries} (h : Sound m) (h' : Sound m') (hwithin : Within m')
    (hsub : ∀ e ∈ items m, Lists m' e) : Within m := by
  have hwallet : ∀ e ∈ items m, e.oneTimeWallet ∈ (items m').map (·.oneTimeWallet) := by
    intro e he
    obtain ⟨e', he', hsame, -⟩ := hsub e he
    exact hsame ▸ List.mem_map_of_mem he'
  refine ⟨?_, fun k => ?_, ?_⟩
  · have hkeys : m.keys ⊆ m'.keys := by
      intro k hk
      obtain ⟨b, hb⟩ := Option.isSome_iff_exists.mp
        (ExtTreeMap.mem_iff_isSome_getElem?.mp (ExtTreeMap.mem_keys.mp hk))
      obtain ⟨e, he⟩ := List.exists_mem_of_ne_nil b (h.filed.nonempty k b hb)
      rw [← bucket_of_getElem? hb] at he
      obtain ⟨e', he', -, howner⟩ := hsub e (mem_items.mpr ⟨k, he⟩)
      rw [h'.filed.mem_items, howner, h.filed.key he] at he'
      rw [ExtTreeMap.mem_keys, ExtTreeMap.mem_iff_isSome_getElem?, getElem?_of_mem_bucket he']
      rfl
    calc m.size = m.keys.length := ExtTreeMap.length_keys.symm
      _ ≤ m'.keys.length := (ExtTreeMap.nodup_keys.subperm hkeys).length_le
      _ = m'.size := ExtTreeMap.length_keys
      _ ≤ maxPrivateIndexOwners := hwithin.owners
  · have hbucket : (bucket m k).map (·.oneTimeWallet) ⊆ (bucket m' k).map (·.oneTimeWallet) := by
      intro w hw
      obtain ⟨e, he, rfl⟩ := List.mem_map.mp hw
      obtain ⟨e', he', hsame, howner⟩ := hsub e (mem_items.mpr ⟨k, he⟩)
      rw [h'.filed.mem_items, howner, h.filed.key he] at he'
      exact hsame ▸ List.mem_map_of_mem he'
    have hle := ((h.distinct k).subperm hbucket).length_le
    rw [List.length_map, List.length_map] at hle
    exact hle.trans (hwithin.perOwner k)
  · have hitems : (items m).map (·.oneTimeWallet) ⊆ (items m').map (·.oneTimeWallet) := by
      intro w hw
      obtain ⟨e, he, rfl⟩ := List.mem_map.mp hw
      exact hwallet e he
    have hle := (h.nodup_wallets.subperm hitems).length_le
    rw [List.length_map, List.length_map, length_items, length_items] at hle
    exact hle.trans hwithin.total

/-- What a successful run of insertions leaves: the entries are some of those given, and every
wallet given is listed under its owner. -/
theorem insertAll_ok {entries : List PrivateWalletIndexEntry}
    {index index' : PrivateWalletIndexFile}
    (h : Sound index.entriesByOwner) (hvalid : validateIndexFile index = .ok ())
    (hentries : ∀ e ∈ entries, CanonicalEntry e)
    (hrun : entries.foldlM insertOrReplaceEntry index = .ok index') :
    (Sound index'.entriesByOwner ∧ validateIndexFile index' = .ok ()) ∧
      (∀ e ∈ items index'.entriesByOwner, e ∈ entries ∨ e ∈ items index.entriesByOwner) ∧
      ∀ e, e ∈ entries ∨ e ∈ items index.entriesByOwner → Lists index'.entriesByOwner e := by
  induction entries generalizing index with
  | nil =>
    cases hrun
    exact ⟨⟨h, hvalid⟩, fun e he => .inr he,
      fun e he => ⟨e, he.resolve_left List.not_mem_nil, rfl, rfl⟩⟩
  | cons entry entries ih =>
    rw [List.foldlM_cons, bind_eq_ok_iff] at hrun
    obtain ⟨put, hput, hrun⟩ := hrun
    rw [List.forall_mem_cons] at hentries
    obtain ⟨hconflict, rfl, hput⟩ := (insertOrReplaceEntry_ok_iff h hentries.1).mp hput
    obtain ⟨hsound, hfrom, hlists⟩ := ih (h.putEntry hentries.1 hconflict) hput hentries.2 hrun
    have hitems : ∀ e, e ∈ items (putEntry entry index.entriesByOwner) ↔ _ := fun e =>
      h.mem_items_putEntry hconflict
    refine ⟨hsound, fun e he => ?_, fun e he => ?_⟩
    · rcases hfrom e he with he | he
      · exact .inl (List.mem_cons_of_mem entry he)
      · rcases (hitems e).mp he with ⟨he, -⟩ | rfl
        · exact .inr he
        · exact .inl List.mem_cons_self
    · rcases he with he | he
      · rcases List.mem_cons.mp he with rfl | he
        · exact hlists e (.inr ((hitems e).mpr (.inr rfl)))
        · exact hlists e (.inl he)
      · by_cases hwallet : e.oneTimeWallet = entry.oneTimeWallet
        · obtain ⟨e', he', hsame, howner⟩ := hlists entry (.inr ((hitems entry).mpr (.inr rfl)))
          exact ⟨e', he', hsame.trans hwallet.symm, howner.trans (hconflict e he hwallet).symm⟩
        · exact hlists e (.inr ((hitems e).mpr (.inl ⟨he, hwallet⟩)))

/-- Insertions succeed when some index within the bounds lists all that they insert. -/
theorem insertAll_of_lists {entries : List PrivateWalletIndexEntry} {index : PrivateWalletIndexFile}
    (h : Sound index.entriesByOwner) (hhead : Headed index)
    (hentries : ∀ e ∈ entries, CanonicalEntry e) {goal : OwnedEntries} (hgoal : Sound goal)
    (hwithin : Within goal) (hindex : ∀ e ∈ items index.entriesByOwner, Lists goal e)
    (hlists : ∀ e ∈ entries, Lists goal e) :
    ∃ index', entries.foldlM insertOrReplaceEntry index = .ok index' := by
  induction entries generalizing index with
  | nil => exact ⟨index, rfl⟩
  | cons entry entries ih =>
    rw [List.forall_mem_cons] at hentries hlists
    have hconflict : ∀ e ∈ items index.entriesByOwner, e.oneTimeWallet = entry.oneTimeWallet →
        e.ownerWallet = entry.ownerWallet := by
      intro e he hwallet
      obtain ⟨e₁, he₁, hwallet₁, howner₁⟩ := hindex e he
      obtain ⟨e₂, he₂, hwallet₂, howner₂⟩ := hlists.1
      rw [← howner₁, ← howner₂]
      exact hgoal.oneOwner e₁ he₁ e₂ he₂ (hwallet₁.trans (hwallet.trans hwallet₂.symm))
    have hsound := h.putEntry hentries.1 hconflict
    have hput : ∀ e ∈ items (putEntry entry index.entriesByOwner), Lists goal e := by
      intro e he
      rcases (h.mem_items_putEntry hconflict).mp he with ⟨he, -⟩ | rfl
      · exact hindex e he
      · exact hlists.1
    have hhead' : Headed { index with entriesByOwner := putEntry entry index.entriesByOwner } :=
      ⟨hhead.kind, hhead.version, hhead.created, hhead.updated⟩
    have hvalid : validateIndexFile
        { index with entriesByOwner := putEntry entry index.entriesByOwner } = .ok () :=
      hsound.validate_iff.mpr ⟨hhead', Within.of_lists hsound hgoal hwithin hput⟩
    have hstep := (insertOrReplaceEntry_ok_iff h hentries.1).mpr ⟨hconflict, rfl, hvalid⟩
    rw [List.foldlM_cons, hstep]
    exact ih hsound hhead' hentries.2 hput hlists.2

/-! ### Record files -/

section Files
variable {path : List UInt8} {required : Bool}

theorem recordEntry_ok {file : RecordFile} {entry : PrivateWalletIndexEntry}
    (h : recordEntry path required file = .ok entry) : CanonicalEntry entry ∧
      ∃ record, file.record = .ok record ∧
        canonWalletIdChecked record.ownerWallet = .ok entry.ownerWallet ∧
        canonWalletIdChecked record.oneTimeWallet = .ok entry.oneTimeWallet := by
  simp only [recordEntry, bind_eq_ok_iff, pure_eq_ok_iff] at h
  obtain ⟨record, hrecord, _, -, entry, hentry, _, -, rfl⟩ := h
  refine ⟨buildEntry_canonical hentry, record, hrecord, ?_⟩
  obtain ⟨_, _, _, _, _, _, _, _, howner, hone, -, -, -, -, -, -, -, rfl, -⟩ :=
    buildEntry_ok_iff.mp hentry
  exact ⟨howner, hone⟩

/-- The loop over the files is the loop over their entries. -/
theorem rebuildStep_foldlM_ok_iff {files : List RecordFile}
    {index index' : PrivateWalletIndexFile} :
    files.foldlM (rebuildStep path required) index = .ok index' ↔
      ∃ entries, List.Forall₂ (fun file e => recordEntry path required file = .ok e) files entries ∧
        entries.foldlM insertOrReplaceEntry index = .ok index' := by
  induction files generalizing index with
  | nil =>
    constructor
    · exact fun h => ⟨[], .nil, h⟩
    · rintro ⟨entries, hentries, h⟩
      cases hentries
      exact h
  | cons file files ih =>
    simp only [List.foldlM_cons, rebuildStep, bind_eq_ok_iff]
    constructor
    · rintro ⟨put, ⟨entry, hentry, hput⟩, hrun⟩
      obtain ⟨entries, hentries, hrest⟩ := ih.mp hrun
      refine ⟨entry :: entries, .cons hentry hentries, ?_⟩
      rw [List.foldlM_cons, hput]
      exact hrest
    · rintro ⟨entries, hentries, hrun⟩
      cases hentries with
      | cons hentry hentries =>
        rw [List.foldlM_cons, bind_eq_ok_iff] at hrun
        obtain ⟨put, hput, hrest⟩ := hrun
        exact ⟨put, ⟨_, hentry, hput⟩, ih.mpr ⟨_, hentries, hrest⟩⟩

theorem exists_file {files : List RecordFile} {entries : List PrivateWalletIndexEntry}
    (h : List.Forall₂ (fun file e => recordEntry path required file = .ok e) files entries) :
    (∀ e ∈ entries, ∃ file ∈ files, recordEntry path required file = .ok e) ∧
      ∀ file ∈ files, ∃ e ∈ entries, recordEntry path required file = .ok e := by
  induction h with
  | nil => exact ⟨fun _ he => absurd he List.not_mem_nil, fun _ hf => absurd hf List.not_mem_nil⟩
  | cons hentry _ ih =>
    refine ⟨fun e he => ?_, fun file hfile => ?_⟩
    · rcases List.mem_cons.mp he with rfl | he
      · exact ⟨_, List.mem_cons_self, hentry⟩
      · obtain ⟨file, hfile, hread⟩ := ih.1 e he
        exact ⟨file, List.mem_cons_of_mem _ hfile, hread⟩
    · rcases List.mem_cons.mp hfile with rfl | hfile
      · exact ⟨_, List.mem_cons_self, hentry⟩
      · obtain ⟨e, he, hread⟩ := ih.2 file hfile
        exact ⟨e, List.mem_cons_of_mem _ he, hread⟩

theorem forall₂_entries {files : List RecordFile}
    (h : ∀ file ∈ files, ∃ e, recordEntry path required file = .ok e) :
    ∃ entries,
      List.Forall₂ (fun file e => recordEntry path required file = .ok e) files entries := by
  induction files with
  | nil => exact ⟨[], .nil⟩
  | cons file files ih =>
    rw [List.forall_mem_cons] at h
    obtain ⟨e, he⟩ := h.1
    obtain ⟨entries, hentries⟩ := ih h.2
    exact ⟨e :: entries, .cons he hentries⟩

/-- What the loop leaves when it begins with an empty index. -/
theorem rebuilt_ok {files : List RecordFile} {clock : Int64} {empty index : PrivateWalletIndexFile}
    (hempty : newEmptyIndex clock = .ok empty)
    (hrun : files.foldlM (rebuildStep path required) empty = .ok index) :
    (Sound index.entriesByOwner ∧ validateIndexFile index = .ok ()) ∧
      (∀ e ∈ items index.entriesByOwner, ∃ file ∈ files,
        recordEntry path required file = .ok e) ∧
      ∀ file ∈ files, ∃ e, recordEntry path required file = .ok e ∧
        Lists index.entriesByOwner e := by
  obtain ⟨now, hnow, rfl⟩ := newEmptyIndex_ok_iff.mp hempty
  obtain ⟨entries, hentries, hinsert⟩ := rebuildStep_foldlM_ok_iff.mp hrun
  obtain ⟨hfile, hentry⟩ := exists_file hentries
  have hcanonical : ∀ e ∈ entries, CanonicalEntry e := by
    intro e he
    obtain ⟨file, -, hread⟩ := hfile e he
    exact (recordEntry_ok hread).1
  have hvalid : validateIndexFile
      ⟨privateWalletIndexKind, privateReceiveVersion, now, now, ∅⟩ = .ok () :=
    Sound.empty.validate_iff.mpr ⟨nowUnixSecsRuntime_headed hnow, Within.empty⟩
  obtain ⟨hsound, hfrom, hlists⟩ := insertAll_ok Sound.empty hvalid hcanonical hinsert
  refine ⟨hsound, fun e he => ?_, fun file hf => ?_⟩
  · rcases hfrom e he with he | he
    · exact hfile e he
    · rw [items_empty] at he
      cases he
  · obtain ⟨e, he, hread⟩ := hentry file hf
    exact ⟨e, hread, hlists e (.inl he)⟩

/-- The loop succeeds for every order of the files or for none. -/
theorem rebuilt_perm {files files' : List RecordFile} (hperm : files.Perm files')
    {empty empty' index : PrivateWalletIndexFile} {clock clock' : Int64}
    (hempty : newEmptyIndex clock = .ok empty) (hempty' : newEmptyIndex clock' = .ok empty')
    (hrun : files.foldlM (rebuildStep path required) empty = .ok index) :
    ∃ index', files'.foldlM (rebuildStep path required) empty' = .ok index' := by
  obtain ⟨⟨hsound, hvalid⟩, -, hlists⟩ := rebuilt_ok hempty hrun
  obtain ⟨now', hnow', rfl⟩ := newEmptyIndex_ok_iff.mp hempty'
  have hread : ∀ file ∈ files', ∃ e, recordEntry path required file = .ok e := by
    intro file hfile
    obtain ⟨e, hread, -⟩ := hlists file (hperm.mem_iff.mpr hfile)
    exact ⟨e, hread⟩
  obtain ⟨entries, hentries⟩ := forall₂_entries hread
  obtain ⟨hfile, -⟩ := exists_file hentries
  have hgoal : ∀ e ∈ entries, Lists index.entriesByOwner e := by
    intro e he
    obtain ⟨file, hf, hread⟩ := hfile e he
    obtain ⟨e', hread', hlisted⟩ := hlists file (hperm.mem_iff.mpr hf)
    rw [hread] at hread'
    exact Except.ok.inj hread' ▸ hlisted
  have hcanonical : ∀ e ∈ entries, CanonicalEntry e := by
    intro e he
    obtain ⟨file, -, hread⟩ := hfile e he
    exact (recordEntry_ok hread).1
  obtain ⟨index', hinsert⟩ := insertAll_of_lists Sound.empty
    (nowUnixSecsRuntime_headed hnow') hcanonical hsound (hsound.validate_iff.mp hvalid).2
    (fun e he => by
      rw [items_empty] at he
      cases he) hgoal
  exact ⟨index', rebuildStep_foldlM_ok_iff.mpr ⟨entries, hentries, hinsert⟩⟩

/-- Two rebuilds from the same records list a wallet alike. -/
theorem rebuilt_book {files files' : List RecordFile}
    (hperm : (files.map (·.record)).Perm (files'.map (·.record)))
    {clock clock' : Int64} {empty empty' index index' : PrivateWalletIndexFile}
    (hempty : newEmptyIndex clock = .ok empty) (hempty' : newEmptyIndex clock' = .ok empty')
    (hrun : files.foldlM (rebuildStep path required) empty = .ok index)
    (hrun' : files'.foldlM (rebuildStep path required) empty' = .ok index')
    {wallet : String} {e : PrivateWalletIndexEntry}
    (hbook : book index.entriesByOwner wallet = some e) :
    ∃ e', book index'.entriesByOwner wallet = some e' ∧ e'.ownerWallet = e.ownerWallet ∧
      e'.invoice = e.invoice := by
  obtain ⟨-, hfrom, -⟩ := rebuilt_ok hempty hrun
  obtain ⟨⟨hsound', -⟩, -, hlists'⟩ := rebuilt_ok hempty' hrun'
  obtain ⟨hmem, rfl⟩ := mem_of_book hbook
  obtain ⟨file, hfile, hread⟩ := hfrom e hmem
  obtain ⟨hcanonical, record, hrecord, howner, hone⟩ := recordEntry_ok hread
  obtain ⟨file', hfile', hsame⟩ := List.mem_map.mp (hperm.mem_iff.mp (List.mem_map_of_mem hfile))
  obtain ⟨e₁, hread₁, e', he', hwallet, howner'⟩ := hlists' file' hfile'
  obtain ⟨-, record₁, hrecord₁, howner₁, hone₁⟩ := recordEntry_ok hread₁
  rw [hsame, hrecord] at hrecord₁
  obtain rfl := Except.ok.inj hrecord₁
  rw [howner] at howner₁
  rw [hone] at hone₁
  have hwallet' : e'.oneTimeWallet = e.oneTimeWallet := hwallet.trans (Except.ok.inj hone₁).symm
  refine ⟨e', hsound'.book_eq_some_iff.mpr ⟨he', hwallet'⟩,
    howner'.trans (Except.ok.inj howner₁).symm, ?_⟩
  rw [hcanonical.invoice, (hsound'.canonical e' he').invoice, hwallet']

variable {jsonLen : PrivateWalletIndexFile → ℕ}

/-- A rebuild that succeeds returns the index the loop ends with, stamped. -/
theorem rebuild_ok {world : IndexWorld} {files : List RecordFile} {stored after : Stored}
    {index : PrivateWalletIndexFile}
    (h : rebuildFromPrivateReceiveRecords jsonLen path world required files stored =
      .ok index after) : ∃ empty loop, newEmptyIndex world.empty = .ok empty ∧
      files.foldlM (rebuildStep path required) empty = .ok loop ∧
      index.entriesByOwner = loop.entriesByOwner := by
  simp only [rebuildFromPrivateReceiveRecords, run_bind_eq_ok_iff, lift_eq_ok_iff] at h
  obtain ⟨_, _, -, _, _, -, empty, _, ⟨hempty, -⟩, loop, _, ⟨hloop, -⟩, stamped, _, ⟨hstamped, -⟩,
    _, _, -, _, _, -, hpure⟩ := h
  cases hpure
  exact ⟨empty, loop, hempty, hloop, stampIndex_ok hstamped⟩

theorem rebuild_same {files files' : List RecordFile}
    (hperm : (files.map (·.record)).Perm (files'.map (·.record))) {world world' : IndexWorld}
    {stored stored' after after' : Stored} {index index' : PrivateWalletIndexFile}
    (h : rebuildFromPrivateReceiveRecords jsonLen path world required files stored =
      .ok index after)
    (h' : rebuildFromPrivateReceiveRecords jsonLen path world' required files' stored' =
      .ok index' after') (wallet : String) :
    (findEntry index wallet).map (fun l => (l.ownerWallet, l.entry.invoice)) =
      (findEntry index' wallet).map fun l => (l.ownerWallet, l.entry.invoice) := by
  obtain ⟨empty, loop, hempty, hloop, hentries⟩ := rebuild_ok h
  obtain ⟨empty', loop', hempty', hloop', hentries'⟩ := rebuild_ok h'
  rw [findEntry_eq (rebuilt_ok hempty hloop).1.1.filed hentries,
    findEntry_eq (rebuilt_ok hempty' hloop').1.1.filed hentries', Option.map_map, Option.map_map]
  cases hbook : book loop.entriesByOwner wallet with
  | some e =>
    obtain ⟨e', hbook', howner, hinvoice⟩ := rebuilt_book hperm hempty hempty' hloop hloop' hbook
    rw [hbook', Option.map_some, Option.map_some]
    dsimp only [Function.comp_apply]
    rw [howner, hinvoice]
  | none =>
    cases hbook' : book loop'.entriesByOwner wallet with
    | none => rfl
    | some e' =>
      obtain ⟨e, hsome, -⟩ := rebuilt_book hperm.symm hempty' hempty hloop' hloop hbook'
      rw [hbook] at hsome
      cases hsome

end Files

/-- After any calls the stored index is valid, is left alone by canonicalising and has one owner for
each wallet; an addition under another owner changes nothing; a call that settles leaves other
wallets alone; and after calls that all settle a lookup finds the entry of the last addition that is
not followed by a removal. A rebuild does not depend on the order of the files. -/
theorem wallet_index_is_map (jsonLen : PrivateWalletIndexFile → ℕ) (path : List UInt8)
    (calls : List IndexCall) :
    let stored := (runCalls jsonLen path calls).1
    let noted := (runCalls jsonLen path calls).2
    (∀ index, stored = some index →
      validateIndexFile index = .ok () ∧ canonicalizeIndexInPlace index = .ok index) ∧
    (∀ owner owner' e e', e ∈ bucket (entriesOf stored) owner →
      e' ∈ bucket (entriesOf stored) owner' → e.oneTimeWallet = e'.oneTimeWallet →
      owner = owner' ∧ e = e') ∧
    (∀ world request owner oneTime found,
      canonWalletIdChecked request.ownerWallet = .ok owner →
      canonWalletIdChecked request.oneTimeWallet = .ok oneTime →
      found ∈ items (entriesOf stored) → found.oneTimeWallet = oneTime →
      found.ownerWallet ≠ owner →
      ∃ e, addEntry jsonLen path world request stored = .error e stored) ∧
    (∀ (call : IndexCall) wallet, settles call.world = true →
      canonWalletIdChecked call.wallet ≠ .ok wallet →
      book (entriesOf (storeOf (call.perform jsonLen path stored))) wallet =
        book (entriesOf stored) wallet) ∧
    ((∀ call ∈ calls, settles call.world = true) → ∀ world wallet canon,
      canonWalletIdChecked wallet = .ok canon → world.directory = .ok () →
      world.opened = .ok () → succeeds (nowUnixSecsRuntime world.empty) →
      lookupEntry jsonLen world wallet stored =
        .ok ((noted canon).map fun e => ⟨e.ownerWallet, e⟩)) ∧
    (∀ required files files', (files.map RecordFile.record).Perm (files'.map RecordFile.record) →
      ∀ world world' before before' index index' after after',
      rebuildFromPrivateReceiveRecords jsonLen path world required files before =
        .ok index after →
      rebuildFromPrivateReceiveRecords jsonLen path world' required files' before' =
        .ok index' after' →
      ∀ wallet, (findEntry index wallet).map (fun l => (l.ownerWallet, l.entry.invoice)) =
        (findEntry index' wallet).map fun l => (l.ownerWallet, l.entry.invoice)) ∧
    ∀ required (files files' : List RecordFile), files.Perm files' →
      ∀ clock clock' empty empty' index, newEmptyIndex clock = .ok empty →
      newEmptyIndex clock' = .ok empty' →
      files.foldlM (rebuildStep path required) empty = .ok index →
      ∃ index', files'.foldlM (rebuildStep path required) empty' = .ok index' := by
  intro stored noted
  have hkept : Kept jsonLen stored := runCalls_kept calls
  refine ⟨?_, ?_, ?_, ?_, ?_, ?_, ?_⟩
  · intro index hindex
    refine ⟨hkept.valid index hindex, Sound.canonicalize ?_ rfl⟩
    have hsound := hkept.sound
    rw [hindex] at hsound
    exact hsound
  · intro owner owner' e e' he he' hwallet
    have hsame := hkept.sound.eq_of_wallet (mem_items.mpr ⟨owner, he⟩)
      (mem_items.mpr ⟨owner', he'⟩) hwallet
    refine ⟨?_, hsame⟩
    rw [← hkept.sound.filed.key he, ← hkept.sound.filed.key he', hsame]
  · intro world request owner oneTime found howner hone hfound hwallet hne
    exact addEntry_conflict hkept howner hone
      (hkept.sound.book_eq_some_iff.mpr ⟨hfound, hwallet⟩) hne
  · intro call wallet hsettles hother
    exact performed_other hkept hsettles hother
  · intro hsettles world wallet canon hcanon hdirectory hopened hclock
    have hbook : book (entriesOf stored) = noted := runCalls_book hsettles
    rw [lookupEntry_of_readable hkept hcanon hdirectory hopened hclock, hbook]
  · intro required files files' hperm world world' before before' index index' after after' h h'
    exact rebuild_same hperm h h'
  · intro required files files' hperm clock clock' empty empty' index hempty hempty' hrun
    exact rebuilt_perm hperm hempty hempty' hrun

/-! ### A file changed by a call that fails -/

namespace Sample

@[irreducible] def wallet (digit : Char) : String := "r" ++ String.ofList (List.replicate 128 digit)

def clock : Int64 := 1700000000

theorem clock_read : nowUnixSecsRuntime clock = .ok 1700000000 := by decide

/-- Everything turns out well but, perhaps, the removal of the old file. -/
def world (cleaned : Fallible Unit) : IndexWorld :=
  ⟨.ok (), .ok (), .ok (), clock, clock, .ok (), .ok (), clock, clock, .ok (),
    ⟨.ok (), .ok (), true, cleaned⟩, .ok ()⟩

def request (digit : Char) : PrivateWalletIndexAddRequest :=
  ⟨wallet '0', wallet digit, some (invoiceTag ++ wallet digit), none, none, none, none, false⟩

def entry (digit : Char) : PrivateWalletIndexEntry :=
  ⟨privateReceiveVersion, wallet '0', wallet digit, invoiceTag ++ wallet digit,
    PrivateRW.walletFileName (wallet digit), 1700000000, 1700000000, none, none⟩

theorem canonical {digit : Char} (h : digit = '0' ∨ digit = '1' ∨ digit = '2') :
    canonWalletIdChecked (wallet digit) = .ok (wallet digit) := by
  rcases h with rfl | rfl | rfl
  · decide +kernel
  · decide +kernel
  · decide +kernel

theorem built (cleaned : Fallible Unit) {digit : Char} (h : digit = '1' ∨ digit = '2') :
    buildEntry [] (world cleaned) (request digit) = .ok (entry digit) := by
  have hone := canonical (.inr h)
  have howner := canonical (.inl rfl)
  have hne : wallet '0' ≠ wallet digit := by
    rcases h with rfl | rfl
    · decide +kernel
    · decide +kernel
  obtain ⟨-, r, hr, hwallet⟩ := (canonWalletIdChecked_canonical hone).invoice
  have hinvoice : r.canonicalInvoice = invoiceTag ++ wallet digit :=
    hwallet ▸ (PrivateRI.parseInvoiceOrAddress_invoice hr).2
  have hvalid : validateEntry (entry digit) = .ok () := validateEntry_ok_iff.mpr
    ⟨rfl, wallet '0', wallet digit, howner, hone, hne, ⟨r, hr, hwallet, hinvoice⟩, rfl,
      (by decide : (1700000000 : UInt64) ≠ 0), (by decide : (1700000000 : UInt64) ≠ 0), ⟨none, rfl⟩,
      none, rfl⟩
  exact buildEntry_ok_iff.mpr ⟨wallet '0', wallet digit, invoiceTag ++ wallet digit,
    PrivateRW.walletFileName (wallet digit), 1700000000, 1700000000, none, none, howner, hone, hne,
    buildInvoice_some_ok_iff.mpr ⟨r, hr, hwallet, hinvoice⟩, rfl, clock_read, clock_read, rfl, rfl,
    rfl, hvalid⟩

theorem added (cleaned : Fallible Unit) {digit : Char} (h : digit = '1' ∨ digit = '2')
    {stored : Stored} (hkept : Kept (fun _ => 0) stored)
    (hfree : book (entriesOf stored) (wallet digit) = none)
    (hroom : total (entriesOf stored) < maxPrivateIndexOwners) : ∃ index,
      addedIndex (fun _ => 0) [] (world cleaned) (request digit) stored =
        .ok (entry digit, index) := by
  have hempty : succeeds (nowUnixSecsRuntime (world cleaned).empty) = true := by
    rw [show (world cleaned).empty = clock from rfl, clock_read]
    rfl
  have hupdated : succeeds (nowUnixSecsRuntime (world cleaned).updated) = true := by
    rw [show (world cleaned).updated = clock from rfl, clock_read]
    rfl
  exact addedIndex_of_room hkept rfl rfl rfl rfl hempty hupdated rfl rfl (built cleaned h) hfree
    hroom fun _ => Nat.zero_le _

theorem found {digit : Char} (h : digit = '0' ∨ digit = '1' ∨ digit = '2') {stored : Stored}
    (hkept : Kept (fun _ => 0) stored) :
    lookupEntry (fun _ => 0) (world (.ok ())) (wallet digit) stored =
      .ok ((book (entriesOf stored) (wallet digit)).map fun e => ⟨e.ownerWallet, e⟩) := by
  have hempty : succeeds (nowUnixSecsRuntime (world (.ok ())).empty) = true := by
    rw [show (world (.ok ())).empty = clock from rfl, clock_read]
    rfl
  exact lookupEntry_of_readable hkept (canonical h) rfl rfl hempty

/-- The old file cannot be removed. -/
def uncleaned : Fallible Unit := .error (.ioError "Failed to remove file" none)

def lateRun : Stored × Book := runCalls (fun _ => 0) []
  [.add (world (.ok ())) (request '1'), .add (world uncleaned) (request '2')]

end Sample

/-- The second addition fails after the file is replaced, and its entry is found afterwards. -/
theorem late_addition_found : Sample.lateRun.2 (Sample.wallet '2') = none ∧
    lookupEntry (fun _ => 0) (Sample.world (.ok ())) (Sample.wallet '2') Sample.lateRun.1 =
      .ok (some ⟨Sample.wallet '0', Sample.entry '2'⟩) := by
  have hne : Sample.wallet '2' ≠ Sample.wallet '1' := by decide +kernel
  have hnone : book (entriesOf none) = fun _ => none := by
    funext wallet
    rw [entriesOf, book, items_empty]
    rfl
  have hstart : total (entriesOf none) < maxPrivateIndexOwners := by
    rw [entriesOf, ← length_items, items_empty]
    exact Nat.succ_pos _
  obtain ⟨first, hfirst⟩ := Sample.added (.ok ()) (.inl rfl) Kept.none (congrFun hnone _) hstart
  obtain ⟨-, hkept, hbook⟩ := addedIndex_ok Kept.none hfirst
  rw [hnone] at hbook
  have hfree : book (entriesOf (some first)) (Sample.wallet '2') = none :=
    (congrFun hbook _).trans (Function.update_of_ne hne _ _)
  have hroom : total (entriesOf (some first)) < maxPrivateIndexOwners :=
    (hkept.sound.total_le_one hbook).trans_lt (Nat.one_lt_ofNat)
  obtain ⟨second, hsecond⟩ := Sample.added Sample.uncleaned (.inr rfl) hkept hfree hroom
  obtain ⟨-, hkept', hbook'⟩ := addedIndex_ok hkept hsecond
  have hone : runCall (fun _ => 0) [] (none, fun _ => none)
      (.add (Sample.world (.ok ())) (Sample.request '1')) = (some first,
        Function.update (fun _ => none) (Sample.wallet '1') (some (Sample.entry '1'))) := by
    change (storeOf (IndexCall.perform _ _ _ none), noted _ (IndexCall.perform _ _ _ none)) = _
    rw [perform_add, hfirst]
    rfl
  have hrun : Sample.lateRun = (some second, Function.update (fun _ => none)
      (Sample.wallet '1') (some (Sample.entry '1'))) := by
    rw [Sample.lateRun, runCalls, List.foldl_cons, List.foldl_cons, List.foldl_nil, hone]
    change (storeOf (IndexCall.perform _ _ _ (some first)),
      noted _ (IndexCall.perform _ _ _ (some first))) = _
    rw [perform_add, hsecond]
    rfl
  have hforgotten : (Function.update (fun _ => none) (Sample.wallet '1')
      (some (Sample.entry '1')) : Book) (Sample.wallet '2') = none := Function.update_of_ne hne _ _
  rw [hrun]
  refine ⟨hforgotten, ?_⟩
  have hfound : book (entriesOf (some second)) (Sample.wallet '2') = some (Sample.entry '2') :=
    (congrFun hbook' _).trans (Function.update_self _ _ _)
  rw [Sample.found (.inr (.inr rfl)) hkept', hfound]
  rfl

end PrivateWI
end Remzar
