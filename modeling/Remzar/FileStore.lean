import Mathlib
import Remzar.FileTransfer

/-! The table of incoming files: where chunks from the network are put together, and what is
written to disk. -/
namespace Remzar
open Std Fallible Text

def maxIncomingFiles : ℕ := 64
def maxWireChunks : UInt32 := 50000
def maxStoredFilenameBytes : ℕ := 128
def maxReconstructedFileBytes : UInt64 := 128*1024*1024

/-- The files being received, by their id, and the files written so far, by name. -/
structure FileStore where
  incoming : ExtTreeMap (List UInt8) IncomingFile
  stored : List (String × List UInt8)

/-- What the file system answers while a finished file is stored: whether the directory or the
file is a symbolic link, and whether the directory cannot be made or the file not be written. -/
structure Disk where
  baseIsSymlink : Bool
  createDirFails : Bool
  outIsSymlink : Bool
  writeFails : Bool

def Disk.Works (disk : Disk) : Prop :=
  disk.baseIsSymlink = false ∧ disk.createDirFails = false ∧ disk.outIsSymlink = false ∧
    disk.writeFails = false

/-- A chunk from the network, the clock when it is handled, and the disk. -/
structure Arrival where
  chunk : FileChunkMessage
  now : Int64
  disk : Disk

-- The name is one component below the base directory, so the containment checks keep it.
def IncomingFile.suggestedOutputPath (s : IncomingFile) : String :=
  let encodedId := Blake3.toHex s.fileId.toList
  let safeName := (sanitizeFilename s.filename).toOption.getD "unnamed_file"
  String.ofList ((chars encodedId).take 16) ++ "_" ++ safeName

def finalizeIncomingFile [Blake3] (disk : Disk) (incoming : IncomingFile) :
    Option (String × List UInt8) :=
  if disk.baseIsSymlink then none
  else if disk.createDirFails then none
  else if maxReconstructedFileBytes < incoming.fileSizeBytes then none
  else if disk.outIsSymlink then none
  else match incoming.intoVerifiedBytes with
    | .error _ => none
    | .ok bytes =>
      if bytes.length ≠ incoming.fileSizeBytes.toNat then none
      else if disk.writeFails then none
      else some (incoming.suggestedOutputPath, bytes)

/-- The chunk is for this node and its numbers are not absurd. -/
def passesFailFast (localWallet : String) (chunk : FileChunkMessage) : Bool :=
  !(localWallet.isEmpty || toAsciiLowercase chunk.toWallet ≠ toAsciiLowercase localWallet) &&
  !(chunk.totalChunks = 0 || maxWireChunks < chunk.totalChunks) &&
  !(chunk.totalChunks ≤ chunk.chunkIndex) &&
  !(maxReconstructedFileBytes < chunk.fileSizeBytes) &&
  !(8*maxStoredFilenameBytes < byteLen chunk.filename)

namespace FileStore

-- The entry is in the table before the chunk has been looked at.
def applyToEntry [Blake3] (st : FileStore) (a : Arrival) (entry : IncomingFile) : FileStore :=
  let id := a.chunk.fileId.toList
  match entry.applyChunk a.now a.chunk with
  | .error _ => { st with incoming := st.incoming.insert id entry }
  | .ok entry =>
    if entry.isComplete then
      ⟨st.incoming.erase id, st.stored ++ (finalizeIncomingFile a.disk entry).toList⟩
    else { st with incoming := st.incoming.insert id entry }

def handleIncomingFileChunk [Blake3] (localWallet : String) (st : FileStore) (a : Arrival) :
    FileStore :=
  if !passesFailFast localWallet a.chunk then st
  else match st.incoming[a.chunk.fileId.toList]? with
    | some entry => st.applyToEntry a entry
    | none =>
      if maxIncomingFiles ≤ st.incoming.size then st
      else st.applyToEntry a (IncomingFile.fromFirstChunk a.now a.chunk)

/-- The chunk opens an entry of its own. -/
def Opens (localWallet : String) (st : FileStore) (chunk : FileChunkMessage) : Prop :=
  passesFailFast localWallet chunk = true ∧ st.incoming[chunk.fileId.toList]? = none ∧
    st.incoming.size < maxIncomingFiles

/-! ### Rejected chunks -/

section
variable [Blake3] {localWallet : String} {st : FileStore} {a : Arrival}

omit [Blake3] in
theorem insert_self {entry : IncomingFile} {id : List UInt8} (h : st.incoming[id]? = some entry) :
    st.incoming.insert id entry = st.incoming := by
  apply ExtTreeMap.ext_getElem?
  intro key
  rw [ExtTreeMap.getElem?_insert]
  split
  · rename_i heq
    rw [← LawfulEqCmp.compare_eq_iff_eq.mp heq, h]
  · rfl

omit [Blake3] in
/-- No entry takes a chunk that does not pass on its own. -/
theorem applyChunk_rejected (entry : IncomingFile) (h : a.chunk.validate a.now ≠ .ok ()) :
    ∃ e, entry.applyChunk a.now a.chunk = .error e := by
  cases happly : entry.applyChunk a.now a.chunk with
  | error e => exact ⟨e, rfl⟩
  | ok entry' =>
    simp only [IncomingFile.applyChunk, bind_eq_ok_iff] at happly
    obtain ⟨_, -, m, hm, -⟩ := happly
    refine absurd ?_ h
    rw [FileChunkMessage.validate, hm]
    rfl

theorem applyToEntry_of_error {entry : IncomingFile} {e : ErrorDetection}
    (h : entry.applyChunk a.now a.chunk = .error e) : st.applyToEntry a entry =
      { st with incoming := st.incoming.insert a.chunk.fileId.toList entry } := by
  rw [applyToEntry, h]

/-- The entry a rejected chunk opens stays in the table. -/
theorem handle_rejected_opens (h : a.chunk.validate a.now ≠ .ok ())
    (hopens : st.Opens localWallet a.chunk) : handleIncomingFileChunk localWallet st a =
      ⟨st.incoming.insert a.chunk.fileId.toList (IncomingFile.fromFirstChunk a.now a.chunk),
        st.stored⟩ := by
  obtain ⟨hpass, hnone, hroom⟩ := hopens
  obtain ⟨e, he⟩ := applyChunk_rejected (IncomingFile.fromFirstChunk a.now a.chunk) h
  unfold handleIncomingFileChunk
  rw [hpass, Bool.not_true, if_neg Bool.false_ne_true, hnone]
  dsimp only
  rw [if_neg (Nat.not_le.mpr hroom), applyToEntry_of_error he]

/-- A rejected chunk leaves the store as it is, unless it opens an entry. -/
theorem handle_rejected_eq_iff (h : a.chunk.validate a.now ≠ .ok ()) :
    handleIncomingFileChunk localWallet st a = st ↔ ¬st.Opens localWallet a.chunk := by
  constructor
  · intro heq hopens
    rw [handle_rejected_opens h hopens] at heq
    have hincoming := congrArg (fun st => st.incoming[a.chunk.fileId.toList]?) heq
    dsimp only at hincoming
    rw [ExtTreeMap.getElem?_insert_self, hopens.2.1] at hincoming
    cases hincoming
  intro hclosed
  unfold handleIncomingFileChunk
  cases hpass : passesFailFast localWallet a.chunk with
  | false => rfl
  | true =>
    rw [Bool.not_true, if_neg Bool.false_ne_true]
    cases hentry : st.incoming[a.chunk.fileId.toList]? with
    | some entry =>
      obtain ⟨e, he⟩ := applyChunk_rejected entry h
      dsimp only
      rw [applyToEntry_of_error he, insert_self hentry]
    | none =>
      dsimp only
      rw [if_pos]
      by_contra hroom
      exact hclosed ⟨hpass, hentry, Nat.not_le.mp hroom⟩

/-! ### Other files -/

/-- Chunks of another file do not touch the entry of this one, and nothing stored is lost. -/
theorem handle_other (id : List UInt8) (h : a.chunk.fileId.toList ≠ id) :
    (handleIncomingFileChunk localWallet st a).incoming[id]? = st.incoming[id]? := by
  have hne : compare a.chunk.fileId.toList id ≠ .eq :=
    fun heq => h (LawfulEqCmp.compare_eq_iff_eq.mp heq)
  have hentry : ∀ entry, (st.applyToEntry a entry).incoming[id]? = st.incoming[id]? := by
    intro entry
    unfold applyToEntry
    dsimp only
    split
    · rw [ExtTreeMap.getElem?_insert, if_neg hne]
    · split
      · rw [ExtTreeMap.getElem?_erase, if_neg hne]
      · rw [ExtTreeMap.getElem?_insert, if_neg hne]
  unfold handleIncomingFileChunk
  split
  · rfl
  · split
    · exact hentry _
    · split
      · rfl
      · exact hentry _

theorem stored_prefix : st.stored <+: (handleIncomingFileChunk localWallet st a).stored := by
  have hentry : ∀ entry, st.stored <+: (st.applyToEntry a entry).stored := by
    intro entry
    unfold applyToEntry
    dsimp only
    split
    · exact List.prefix_rfl
    · split
      · exact List.prefix_append _ _
      · exact List.prefix_rfl
  unfold handleIncomingFileChunk
  split
  · exact List.prefix_rfl
  · split
    · exact hentry _
    · split
      · exact List.prefix_rfl
      · exact hentry _

/-! ### The honest transfer -/

omit [Blake3] in
theorem sanitizeFilename_len {name : String} (h : sanitizeFilename name = .ok name) :
    byteLen name ≤ maxFilenameLen := by
  rw [sanitizeFilename] at h
  split at h
  · rw [← (pure_eq_ok_iff _ _).mp h]
    decide
  · simp only [bind_eq_ok_iff, pure_eq_ok_iff, rejectIf_eq_ok_iff] at h
    obtain ⟨_, hlen, _, -, hname⟩ := h
    rw [hname] at hlen
    exact Nat.not_lt.mp hlen

/-- The file is for this node. -/
def Addressed (localWallet : String) (file : SendFile) : Prop :=
  toAsciiLowercase file.toWallet = toAsciiLowercase localWallet

theorem passesFailFast_chunk {file : SendFile} (h : file.Accepted)
    (hlocal : Addressed localWallet file) {i : ℕ} (hi : i < file.totalChunks.toNat)
    (sent : Int64) : passesFailFast localWallet (file.chunkMessage i sent) = true := by
  have hnonempty : localWallet.isEmpty = false := by
    rw [Bool.eq_false_iff]
    intro hempty
    have hlen := congrArg byteLen hlocal
    rw [byteLen_toAsciiLowercase, h.receiver.len, String.isEmpty_iff.mp hempty] at hlen
    revert hlen
    decide
  have hto : toAsciiLowercase (file.chunkMessage i sent).toWallet = toAsciiLowercase localWallet :=
    hlocal
  have hindex := SendFile.chunkIndex_toNat hi sent
  have hmax := h.total_le
  have hzero : ¬(file.chunkMessage i sent).totalChunks = 0 := by
    intro hz
    have hz' : file.totalChunks = 0 := hz
    rw [hz'] at hi
    exact absurd hi (Nat.not_lt_zero i)
  have hmany : ¬maxWireChunks < (file.chunkMessage i sent).totalChunks := by
    rw [UInt32.lt_iff_toNat_lt]
    change ¬50000 < file.totalChunks.toNat
    omega
  have hrange : ¬(file.chunkMessage i sent).totalChunks ≤ (file.chunkMessage i sent).chunkIndex := by
    rw [UInt32.le_iff_toNat_le, hindex]
    exact Nat.not_le.mpr hi
  have hsize : ¬maxReconstructedFileBytes < (file.chunkMessage i sent).fileSizeBytes := by
    have hbytes := h.size
    have hbound := h.bounded
    have hlimit : maxP2pFileBytes = 5242880 := rfl
    rw [UInt64.lt_iff_toNat_lt]
    change ¬134217728 < file.fileSizeBytes.toNat
    omega
  have hname : ¬8*maxStoredFilenameBytes < byteLen (file.chunkMessage i sent).filename := by
    have hlen := sanitizeFilename_len h.name
    have hcap : maxFilenameLen = 255 := rfl
    change ¬8*128 < byteLen file.filename
    omega
  simp [passesFailFast, hnonempty, hto, hzero, hmany, hrange, hsize, hname]

theorem finalize_whole {file : SendFile} (h : file.Accepted) {disk : Disk} (hdisk : disk.Works) :
    ∃ name, finalizeIncomingFile disk (file.receiving (Finset.range file.totalChunks.toNat)) =
      some (name, file.bytes) := by
  obtain ⟨hbase, hcreate, hout, hwrite⟩ := hdisk
  have hsize : ¬maxReconstructedFileBytes < file.fileSizeBytes := by
    have hbytes := h.size
    have hbound := h.bounded
    have hlimit : maxP2pFileBytes = 5242880 := rfl
    rw [UInt64.lt_iff_toNat_lt]
    change ¬134217728 < file.fileSizeBytes.toNat
    omega
  have hlen : ¬file.bytes.length ≠ file.fileSizeBytes.toNat := not_not_intro h.size.symm
  refine ⟨(file.receiving (Finset.range file.totalChunks.toNat)).suggestedOutputPath, ?_⟩
  rw [finalizeIncomingFile, hbase, hcreate, hout, hwrite, h.intoVerifiedBytes]
  simp only [Bool.false_eq_true, if_false]
  change (if maxReconstructedFileBytes < file.fileSizeBytes then none else _) = _
  rw [if_neg hsize]
  change (if file.bytes.length ≠ file.fileSizeBytes.toNat then none else _) = _
  rw [if_neg hlen]

/-- The file has been stored, or the table has exactly the chunks delivered so far. -/
def Transfer (file : SendFile) (delivered : Finset ℕ) (st : FileStore) : Prop :=
  (∃ name, (name, file.bytes) ∈ st.stored) ∨
    (delivered ⊆ Finset.range file.totalChunks.toNat ∧
      delivered ≠ Finset.range file.totalChunks.toNat ∧
      st.incoming[file.fileId.toList]? =
        if delivered = ∅ then none else some (file.receiving delivered))

theorem Transfer.stored {file : SendFile} {delivered : Finset ℕ}
    (h : ∃ name, (name, file.bytes) ∈ st.stored) :
    Transfer file delivered (handleIncomingFileChunk localWallet st a) := by
  obtain ⟨name, hmem⟩ := h
  exact .inl ⟨name, stored_prefix.subset hmem⟩

/-- An honest chunk brings the transfer one step further, or to its end. -/
theorem Transfer.honest {file : SendFile} (hacc : file.Accepted)
    (hlocal : Addressed localWallet file) {delivered : Finset ℕ} (h : Transfer file delivered st)
    (hroom : (st.incoming.erase file.fileId.toList).size < maxIncomingFiles) {i : ℕ}
    (hi : i < file.totalChunks.toNat) {sent : Int64}
    (hchunk : a.chunk = file.chunkMessage i sent) (htime : Timely a.now a.chunk)
    (hdisk : a.disk.Works) :
    Transfer file (insert i delivered) (handleIncomingFileChunk localWallet st a) := by
  rcases h with hstored | ⟨hsub, hmore, hentry⟩
  · exact Transfer.stored hstored
  rw [hchunk] at htime
  have hid : a.chunk.fileId.toList = file.fileId.toList := by
    rw [hchunk]
    rfl
  have hsub' : insert i delivered ⊆ Finset.range file.totalChunks.toNat := by
    rw [Finset.insert_subset_iff, Finset.mem_range]
    exact ⟨hi, hsub⟩
  -- Whether the entry was there or has just been opened, the chunk is applied to it.
  have hhandle : handleIncomingFileChunk localWallet st a =
      st.applyToEntry a (file.receiving delivered) := by
    have hpass : passesFailFast localWallet a.chunk = true :=
      hchunk ▸ passesFailFast_chunk hacc hlocal hi sent
    unfold handleIncomingFileChunk
    rw [hpass, Bool.not_true, if_neg Bool.false_ne_true, hid, hentry]
    by_cases hnone : delivered = ∅
    · subst hnone
      rw [if_pos rfl] at hentry ⊢
      have hsize : (st.incoming.erase file.fileId.toList).size = st.incoming.size := by
        have hout : st.incoming.contains file.fileId.toList = false := by
          rw [ExtTreeMap.contains_eq_isSome_getElem?, hentry]
          rfl
        rw [ExtTreeMap.size_erase, hout, if_neg Bool.false_ne_true]
      rw [hsize] at hroom
      dsimp only
      rw [if_neg (Nat.not_le.mpr hroom), hchunk, hacc.fromFirstChunk hi htime]
    · rw [if_neg hnone]
  have happly : (file.receiving delivered).applyChunk a.now a.chunk =
      .ok (file.receiving (insert i delivered)) := hchunk ▸ hacc.applyChunk hsub hi htime
  rw [hhandle, applyToEntry, happly]
  dsimp only
  by_cases hall : insert i delivered = Finset.range file.totalChunks.toNat
  · rw [if_pos ((hacc.isComplete_iff hsub').mpr hall), hall]
    obtain ⟨name, hname⟩ := finalize_whole hacc hdisk
    left
    refine ⟨name, List.mem_append_right _ ?_⟩
    rw [hname]
    exact List.mem_singleton_self _
  · rw [if_neg fun hcomplete => hall ((hacc.isComplete_iff hsub').mp hcomplete)]
    refine .inr ⟨hsub', hall, ?_⟩
    rw [hid, if_neg (Finset.insert_ne_empty i delivered)]
    exact ExtTreeMap.getElem?_insert_self

/-! ### Interleavings -/

/-- A chunk of the file, in time, while the disk works. -/
def Honest (file : SendFile) (a : Arrival) : Prop :=
  file.Delivers (a.chunk, a.now) ∧ a.disk.Works

def receiveAll (localWallet : String) (st : FileStore) (arrivals : List Arrival) : FileStore :=
  arrivals.foldl (handleIncomingFileChunk localWallet) st

/-- Honest chunks of a file, rejected chunks that open no entry, and valid chunks of other files,
in any order, with fewer than the maximal number of other files in the table. -/
structure Interleaving (localWallet : String) (file : SendFile) (st : FileStore)
    (arrivals : List Arrival) : Prop where
  fresh : st.incoming[file.fileId.toList]? = none
  each : ∀ pre a, pre ++ [a] <+: arrivals → Honest file a ∨
    (a.chunk.validate a.now ≠ .ok () ∧ ¬(receiveAll localWallet st pre).Opens localWallet a.chunk) ∨
    (a.chunk.validate a.now = .ok () ∧ a.chunk.fileId ≠ file.fileId)
  room : ∀ pre a, pre ++ [a] <+: arrivals →
    ((receiveAll localWallet st pre).incoming.erase file.fileId.toList).size < maxIncomingFiles

theorem Interleaving.transfer {file : SendFile} (hacc : file.Accepted)
    (hlocal : Addressed localWallet file) {arrivals : List Arrival}
    (h : Interleaving localWallet file st arrivals) :
    ∃ delivered, Transfer file delivered (receiveAll localWallet st arrivals) ∧
      ∀ a ∈ arrivals, Honest file a → a.chunk.chunkIndex.toNat ∈ delivered := by
  induction arrivals using List.reverseRecOn with
  | nil =>
    have hpos := hacc.total_pos
    refine ⟨∅, .inr ⟨Finset.empty_subset _, ?_, ?_⟩, fun _ hnil => absurd hnil List.not_mem_nil⟩
    · intro hempty
      have hmem := Finset.mem_range.mpr hpos
      rw [← hempty] at hmem
      exact Finset.notMem_empty _ hmem
    · rw [if_pos rfl]
      exact h.fresh
  | append_singleton arrivals a ih =>
    have hpre : arrivals <+: arrivals ++ [a] := List.prefix_append _ _
    have hbefore : Interleaving localWallet file st arrivals :=
      ⟨h.fresh, fun pre b hb => h.each pre b (hb.trans hpre), 
        fun pre b hb => h.room pre b (hb.trans hpre)⟩
    obtain ⟨delivered, htransfer, hall⟩ := ih hbefore
    have hstep : receiveAll localWallet st (arrivals ++ [a]) =
        handleIncomingFileChunk localWallet (receiveAll localWallet st arrivals) a := by
      rw [receiveAll, List.foldl_append]
      rfl
    rw [hstep]
    by_cases hhonest : Honest file a
    · obtain ⟨⟨⟨clock, hsent⟩, htime⟩, hdisk⟩ := hhonest
      obtain ⟨i, hi, hchunk⟩ := hacc.mem_iterChunks.mp hsent
      refine ⟨insert i delivered,
        htransfer.honest hacc hlocal (h.room arrivals a List.prefix_rfl) hi hchunk htime hdisk, ?_⟩
      intro b hb hhonest'
      rcases List.mem_append.mp hb with hb | hb
      · exact Finset.mem_insert_of_mem (hall b hb hhonest')
      · have hindex : a.chunk.chunkIndex.toNat = i := by
          rw [show a.chunk = _ from hchunk]
          exact SendFile.chunkIndex_toNat hi _
        rw [List.mem_singleton.mp hb, hindex]
        exact Finset.mem_insert_self i delivered
    · refine ⟨delivered, ?_, ?_⟩
      · rcases h.each arrivals a List.prefix_rfl with hh | ⟨hrejected, hopens⟩ | ⟨-, hother⟩
        · exact absurd hh hhonest
        · rw [(handle_rejected_eq_iff hrejected).mpr hopens]
          exact htransfer
        · rcases htransfer with hstored | ⟨hsub, hmore, hentry⟩
          · exact Transfer.stored hstored
          · refine .inr ⟨hsub, hmore, ?_⟩
            rw [handle_other _ fun heq => hother (List.Vector.toList_injective heq)]
            exact hentry
      · intro b hb hhonest'
        rcases List.mem_append.mp hb with hb | hb
        · exact hall b hb hhonest'
        · exact absurd (List.mem_singleton.mp hb ▸ hhonest') hhonest

end

/-- A rejected chunk leaves no trace exactly when it does not open an entry of its own. When no
rejected chunk does, an honest file whose chunks all arrive is stored. -/
theorem rejected_chunks_leave_no_trace [Blake3] (localWallet : String) :
    (∀ (st : FileStore) (a : Arrival), a.chunk.validate a.now ≠ .ok () →
      (handleIncomingFileChunk localWallet st a = st ↔ ¬st.Opens localWallet a.chunk)) ∧
    ∀ (sentAt : Int64) (fromWallet toWallet : String) (view : FileView) (file : SendFile),
      SendFile.fromPath sentAt fromWallet toWallet view = .ok file → Addressed localWallet file →
      ∀ (st : FileStore) (arrivals : List Arrival), Interleaving localWallet file st arrivals →
        (∀ i < file.totalChunks.toNat, ∃ a ∈ arrivals, Honest file a ∧
          a.chunk.chunkIndex.toNat = i) →
        ∃ name, (name, file.bytes) ∈ (receiveAll localWallet st arrivals).stored := by
  refine ⟨fun st a h => handle_rejected_eq_iff h, ?_⟩
  intro sentAt fromWallet toWallet view file hfile hlocal st arrivals h hall
  have hacc := SendFile.fromPath_accepted hfile
  obtain ⟨delivered, htransfer, hdelivered⟩ := h.transfer hacc hlocal
  rcases htransfer with hstored | ⟨hsub, hmore, -⟩
  · exact hstored
  · refine absurd (Finset.Subset.antisymm hsub ?_) hmore
    intro i hi
    obtain ⟨a, ha, hhonest, rfl⟩ := hall i (Finset.mem_range.mp hi)
    exact hdelivered a ha hhonest

end FileStore

namespace Sample

def disk : Disk := ⟨false, false, false, false⟩

def emptyStore : FileStore := ⟨∅, []⟩

/-- The only chunk of a file, with the sender left out. -/
def anonymous (file : SendFile) : Arrival := ⟨{ file.chunkMessage 0 0 with fromWallet := "" }, 0, disk⟩

/-- Neither a sender nor a receiver. -/
def stray (file : SendFile) : Arrival :=
  ⟨{ file.chunkMessage 0 0 with fromWallet := "", toWallet := "" }, 0, disk⟩

theorem noSender : ∀ wallet, canonicalizeWalletStr "from" "" ≠ .ok wallet := by
  have herror : succeeds (canonicalizeWalletStr "from" "") = false := by decide
  intro wallet hok
  rw [hok] at herror
  cases herror

theorem rejected_of_noSender {a : Arrival} (h : a.chunk.fromWallet = "") :
    a.chunk.validate a.now ≠ .ok () := by
  intro hok
  simp only [FileChunkMessage.validate, validateChunkMessageMetadata, bind_eq_ok_iff, h] at hok
  obtain ⟨_, ⟨wallet, hwallet, -⟩, -⟩ := hok
  exact noSender wallet hwallet

theorem addressed_note {file : SendFile}
    (h : @SendFile.fromPath Blake3.reference 0 miner friend note = .ok file) :
    FileStore.Addressed friend file := by
  have hto : canonicalizeWalletStr "to" friend = .ok friend := by decide +kernel
  simp only [SendFile.fromPath, bind_eq_ok_iff, pure_eq_ok_iff] at h
  obtain ⟨_, -, toWallet, hwallet, _, -, _, -, _, -, _, -, _, -, _, -, _, -, _, -, _, -, _, -, rfl⟩ := h
  rw [hto] at hwallet
  obtain rfl := Except.ok.inj hwallet
  rfl

end Sample

namespace FileStore

theorem honest_note {file : SendFile}
    (h : @SendFile.fromPath Blake3.reference 0 Sample.miner Sample.friend Sample.note = .ok file) :
    0 < file.totalChunks.toNat ∧ Honest file ⟨file.chunkMessage 0 0, 0, Sample.disk⟩ := by
  have hacc := @SendFile.fromPath_accepted Blake3.reference _ _ _ _ _ h
  have hpos := @SendFile.Accepted.total_pos Blake3.reference _ hacc
  refine ⟨hpos, ⟨⟨fun _ => 0, ?_⟩, ?_⟩, rfl, rfl, rfl, rfl⟩
  · exact (@SendFile.Accepted.mem_iterChunks Blake3.reference _ hacc _ _).mpr ⟨0, hpos, rfl⟩
  · exact (by decide : ((0 : UInt64).toNat : ℤ) ≤ (0 : Int64).toInt + maxFutureSkewMs)

theorem rejected_stray_leaves_no_trace : ∃ file,
    @SendFile.fromPath Blake3.reference 0 Sample.miner Sample.friend Sample.note = .ok file ∧
      ∃ name, (name, file.bytes) ∈ (@receiveAll Blake3.reference Sample.friend Sample.emptyStore
        [Sample.stray file, ⟨file.chunkMessage 0 0, 0, Sample.disk⟩]).stored := by
  obtain ⟨file, hfile⟩ := Sample.fromPath_note
  obtain ⟨hpos, hhonest⟩ := honest_note hfile
  have hacc := @SendFile.fromPath_accepted Blake3.reference _ _ _ _ _ hfile
  have hone : file.totalChunks.toNat = 1 := by
    have hbytes := @SendFile.fromPath_read Blake3.reference _ _ _ _ _ hfile
    rw [@SendFile.Accepted.total Blake3.reference _ hacc, ← Except.ok.inj hbytes]
    decide
  have hclosed : ¬Sample.emptyStore.Opens Sample.friend (Sample.stray file).chunk := by
    rintro ⟨hpass, -⟩
    have hto : toAsciiLowercase "" ≠ toAsciiLowercase Sample.friend := by decide +kernel
    simp [passesFailFast, Sample.stray, hto] at hpass
  have hstray : (Sample.stray file).chunk.validate (Sample.stray file).now ≠ .ok () :=
    Sample.rejected_of_noSender rfl
  have hsame : @handleIncomingFileChunk Blake3.reference Sample.friend Sample.emptyStore
      (Sample.stray file) = Sample.emptyStore :=
    (@handle_rejected_eq_iff Blake3.reference _ _ _ hstray).mpr hclosed
  have hsplit : ∀ pre a, pre ++ [a] <+: [Sample.stray file, ⟨file.chunkMessage 0 0, 0, Sample.disk⟩] →
      @receiveAll Blake3.reference Sample.friend Sample.emptyStore pre = Sample.emptyStore ∧
        (a = Sample.stray file ∨ a = ⟨file.chunkMessage 0 0, 0, Sample.disk⟩) := by
    intro pre a hpre
    have hmem := hpre.subset (List.mem_append_right pre (List.mem_singleton_self a))
    refine ⟨?_, by simpa using hmem⟩
    match pre, hpre with
    | [], _ => rfl
    | [b], hpre =>
      obtain ⟨rfl, -⟩ := List.cons_prefix_cons.mp hpre
      unfold receiveAll
      rw [List.foldl_cons, List.foldl_nil]
      exact hsame
    | b :: c :: more, hpre =>
      have hlen := hpre.length_le
      simp at hlen
  have hinter : @Interleaving Blake3.reference Sample.friend file Sample.emptyStore
      [Sample.stray file, ⟨file.chunkMessage 0 0, 0, Sample.disk⟩] := by
    refine @Interleaving.mk Blake3.reference _ _ _ _ ExtTreeMap.getElem?_empty ?_ ?_
    · intro pre a hpre
      obtain ⟨hstate, rfl | rfl⟩ := hsplit pre a hpre
      · rw [hstate]
        exact .inr (.inl ⟨hstray, hclosed⟩)
      · exact .inl hhonest
    · intro pre a hpre
      rw [(hsplit pre a hpre).1]
      exact (ExtTreeMap.size_erase_le).trans_lt (by decide)
  refine ⟨file, hfile, (@rejected_chunks_leave_no_trace Blake3.reference Sample.friend).2 _ _ _ _ file
    hfile (Sample.addressed_note hfile) Sample.emptyStore _ hinter ?_⟩
  intro i hi
  refine ⟨_, List.mem_cons_of_mem _ (List.mem_singleton_self _), hhonest, ?_⟩
  rw [SendFile.chunkIndex_toNat hpos]
  omega

/-- A rejected chunk under the id of an honest file opens an entry that no chunk can be added to,
and the file is never stored. -/
theorem rejected_chunk_blocks_file : ∃ file,
    @SendFile.fromPath Blake3.reference 0 Sample.miner Sample.friend Sample.note = .ok file ∧
      (Sample.anonymous file).chunk.validate (Sample.anonymous file).now ≠ .ok () ∧
      @handleIncomingFileChunk Blake3.reference Sample.friend Sample.emptyStore
        (Sample.anonymous file) ≠ Sample.emptyStore ∧
      Honest file ⟨file.chunkMessage 0 0, 0, Sample.disk⟩ ∧
      (@receiveAll Blake3.reference Sample.friend Sample.emptyStore
        [Sample.anonymous file, ⟨file.chunkMessage 0 0, 0, Sample.disk⟩]).stored = [] := by
  obtain ⟨file, hfile⟩ := Sample.fromPath_note
  obtain ⟨hpos, hhonest⟩ := honest_note hfile
  have hacc := @SendFile.fromPath_accepted Blake3.reference _ _ _ _ _ hfile
  have hlocal := Sample.addressed_note hfile
  have hrejected : (Sample.anonymous file).chunk.validate (Sample.anonymous file).now ≠ .ok () :=
    Sample.rejected_of_noSender rfl
  have hpass : passesFailFast Sample.friend (file.chunkMessage 0 0) = true :=
    @passesFailFast_chunk Blake3.reference _ _ hacc hlocal 0 hpos 0
  have hopens : Sample.emptyStore.Opens Sample.friend (Sample.anonymous file).chunk :=
    ⟨hpass, ExtTreeMap.getElem?_empty, by decide⟩
  have hafter := @handle_rejected_opens Blake3.reference _ _ _ hrejected hopens
  have hchanged : @handleIncomingFileChunk Blake3.reference Sample.friend Sample.emptyStore
      (Sample.anonymous file) ≠ Sample.emptyStore :=
    fun heq => (@handle_rejected_eq_iff Blake3.reference _ _ _ hrejected).mp heq hopens
  refine ⟨file, hfile, hrejected, hchanged, hhonest, ?_⟩
  -- The entry has no sender, so it fails its own check whatever arrives.
  generalize hentry : IncomingFile.fromFirstChunk (Sample.anonymous file).now
    (Sample.anonymous file).chunk = entry at hafter
  have hsender : entry.fromWallet = "" := by
    rw [← hentry, IncomingFile.fromFirstChunk]
    cases hchecked : IncomingFile.fromFirstChunkChecked (Sample.anonymous file).now
        (Sample.anonymous file).chunk with
    | error e =>
      have htrim : trim "" = "" := by decide +kernel
      exact htrim
    | ok v =>
      simp only [IncomingFile.fromFirstChunkChecked, bind_eq_ok_iff] at hchecked
      obtain ⟨m, hm, -⟩ := hchecked
      refine absurd ?_ hrejected
      rw [FileChunkMessage.validate, hm]
      rfl
  have hstuck : ∃ e, entry.applyChunk 0 (file.chunkMessage 0 0) = .error e := by
    cases happly : entry.applyChunk 0 (file.chunkMessage 0 0) with
    | error e => exact ⟨e, rfl⟩
    | ok v =>
      simp only [IncomingFile.applyChunk, IncomingFile.validateStateMetadata, bind_eq_ok_iff,
        hsender] at happly
      obtain ⟨_, ⟨wallet, hwallet, -⟩, -⟩ := happly
      exact absurd hwallet (Sample.noSender wallet)
  obtain ⟨e, he⟩ := hstuck
  unfold receiveAll
  rw [List.foldl_cons, List.foldl_cons, List.foldl_nil, hafter]
  unfold handleIncomingFileChunk
  dsimp only
  rw [hpass, Bool.not_true, if_neg Bool.false_ne_true]
  have hfound : (Sample.emptyStore.incoming.insert (Sample.anonymous file).chunk.fileId.toList
      entry)[(file.chunkMessage 0 0).fileId.toList]? = some entry := ExtTreeMap.getElem?_insert_self
  rw [hfound]
  dsimp only
  rw [@applyToEntry_of_error Blake3.reference _ ⟨file.chunkMessage 0 0, 0, Sample.disk⟩ _ _ he]
  rfl

end FileStore

end Remzar
