import Mathlib
import Remzar.SendFile
import Remzar.Chain

/-! A file that has been cut into chunks comes out whole at the other end, in whatever order its
chunks arrive. -/
namespace Remzar
open Fallible Checked Text Chunks

/-! ### Canonical metadata -/

theorem canonicalizeWalletStr_canonical {label s wallet : String}
    (h : canonicalizeWalletStr label s = .ok wallet) : CanonicalWallet wallet := by
  simp only [canonicalizeWalletStr, bind_eq_ok_iff] at h
  obtain ⟨_, -, _, -, hcanon⟩ := h
  exact canonWalletIdChecked_canonical hcanon

theorem CanonicalWallet.canonicalize {wallet : String} (h : CanonicalWallet wallet) (label : String) :
    canonicalizeWalletStr label wallet = .ok wallet := by
  have hnonempty : ¬wallet.isEmpty = true := by
    intro hempty
    have hlen := h.len
    rw [String.isEmpty_iff.mp hempty] at hlen
    cases hlen
  rw [canonicalizeWalletStr]
  simp only [h.trim_eq]
  rw [rejectIf_of_not _ hnonempty, ok_bind, rejectIf_of_not _ (not_not_intro h.len), ok_bind]
  exact h.checked

theorem canonicalizeContentHashHex_toHex (fileId : FileId) :
    canonicalizeContentHashHex (Blake3.toHex fileId.toList) = .ok (Blake3.toHex fileId.toList) := by
  have htrim : trim (Blake3.toHex fileId.toList) = Blake3.toHex fileId.toList := by
    apply trim_of_forall
    intro c hc
    obtain ⟨n, rfl⟩ := mem_toHex hc
    exact (hexDigit_plain n).1
  have hlower : toAsciiLowercase (Blake3.toHex fileId.toList) = Blake3.toHex fileId.toList := by
    rw [toAsciiLowercase, chars_eq]
    refine (congrArg String.ofList (List.map_congr_left (g := id) ?_)).trans ?_
    · intro c hc
      obtain ⟨n, rfl⟩ := mem_toHex hc
      exact if_neg (hexDigit_plain n).2.1
    · rw [List.map_id, String.ofList_toList]
  have hlen : byteLen (Blake3.toHex fileId.toList) = contentHashHexLen := by
    rw [length_toHex, List.Vector.toList_length]
    rfl
  have hhex : (utf8 (Blake3.toHex fileId.toList)).all isLowerHex = true := by
    rw [List.all_eq_true]
    intro b hb
    rw [utf8_eq, List.mem_flatMap] at hb
    obtain ⟨c, hc, hb⟩ := hb
    obtain ⟨n, rfl⟩ := mem_toHex hc
    obtain ⟨-, -, b', hb', hlow⟩ := hexDigit_plain n
    rw [hb'] at hb
    rw [List.mem_singleton.mp hb]
    exact hlow
  rw [canonicalizeContentHashHex]
  simp only [htrim, hlower]
  rw [rejectIf_of_not _ (not_not_intro hlen), ok_bind, rejectIf_of_not _ (not_not_intro hhex),
    ok_bind]
  rfl

theorem validateFileIdentityConsistency_toHex (fileId : FileId) :
    validateFileIdentityConsistency fileId (Blake3.toHex fileId.toList) = .ok () := by
  rw [validateFileIdentityConsistency, canonicalizeContentHashHex_toHex, ok_bind]
  exact rejectIf_of_not _ (not_not_intro rfl)

/-! ### File names -/

/-- A path of one component names itself, or nothing. -/
theorem fileName_of_component {name : List UInt8} (h : 47 ∉ name) :
    fileName name = some name ∨ fileName name = none := by
  rw [fileName, List.splitOn_eq_singleton h]
  by_cases hkeep : name ≠ [] ∧ name ≠ [46]
  · rw [List.filter_cons_of_pos (by simpa using hkeep), List.filter_nil, List.getLast?_singleton]
    dsimp only
    split
    · exact .inr rfl
    · exact .inl rfl
  · rw [List.filter_cons_of_neg (by simpa using hkeep), List.filter_nil]
    exact .inr rfl

theorem not_mem_of_mem_splitOn {α : Type} [BEq α] [LawfulBEq α] {a : α} {xs c : List α}
    (h : c ∈ xs.splitOn a) : a ∉ c := by
  induction xs generalizing c with
  | nil =>
    rw [List.splitOn_nil, List.mem_singleton] at h
    rw [h]
    exact List.not_mem_nil
  | cons x xs ih =>
    rw [List.splitOn_cons_eq_if_modifyHead] at h
    split at h
    · rcases List.mem_cons.mp h with rfl | h
      · exact List.not_mem_nil
      · exact ih h
    · rename_i hne
      cases hsplit : xs.splitOn a with
      | nil => exact absurd hsplit (List.splitOn_ne_nil a xs)
      | cons first rest =>
        rw [hsplit, List.modifyHead_cons, List.mem_cons] at h
        rcases h with rfl | h
        · rw [List.mem_cons, not_or]
          refine ⟨fun heq => hne (by simp [heq]), ih ?_⟩
          rw [hsplit]
          exact List.mem_cons_self
        · apply ih
          rw [hsplit]
          exact List.mem_cons_of_mem _ h

theorem fileName_component {path name : List UInt8} (h : fileName path = some name) :
    47 ∉ name := by
  rw [fileName] at h
  split at h
  · rename_i last hlast
    split at h
    · cases h
    · obtain rfl := Option.some.inj h
      exact not_mem_of_mem_splitOn (List.mem_filter.mp (List.mem_of_getLast? hlast)).1
  · cases h

theorem fileNameOr_component (path : List UInt8) : 47 ∉ utf8 (fileNameOr path) := by
  rw [fileNameOr]
  cases hname : (fileName path).bind fromUtf8 with
  | none => decide
  | some name =>
    obtain ⟨bytes, hbytes, htext⟩ := Option.bind_eq_some_iff.mp hname
    rw [Option.getD_some, utf8_of_fromUtf8 htext]
    exact fileName_component hbytes

/-- The name of a trimmed component is that component or the replacement. -/
theorem fileNameOr_trim {s : String} (h : 47 ∉ utf8 s) :
    fileNameOr (utf8 (trim s)) = trim s ∨ fileNameOr (utf8 (trim s)) = "unnamed_file" := by
  have htrim : 47 ∉ utf8 (trim s) := fun hmem => h (utf8_trim_subset hmem)
  rw [fileNameOr]
  rcases fileName_of_component htrim with hname | hname
  · rw [hname, Option.bind_some, fromUtf8_utf8]
    exact .inl rfl
  · rw [hname]
    exact .inr rfl

/-- What a path component is sanitized to stays as it is. -/
theorem sanitizeFilename_stable {path : List UInt8} {name : String}
    (h : sanitizeFilename (fileNameOr path) = .ok name) : sanitizeFilename name = .ok name := by
  have hunnamed : sanitizeFilename "unnamed_file" = .ok "unnamed_file" := by decide +kernel
  have hname : name = fileNameOr (utf8 (trim (fileNameOr path))) ∨ name = "unnamed_file" := by
    rw [sanitizeFilename] at h
    split at h
    · exact .inr ((pure_eq_ok_iff _ _).mp h).symm
    · simp only [bind_eq_ok_iff, pure_eq_ok_iff] at h
      obtain ⟨_, -, _, -, hret⟩ := h
      exact .inl hret.symm
  rcases hname with hname | rfl
  · rcases fileNameOr_trim (fileNameOr_component path) with htrim | hnone
    · -- The name is the trimmed component, and trimming it again changes nothing.
      have hsame : fileNameOr (utf8 (trim name)) = name := by
        rw [hname, htrim, trim_idem, htrim]
      have hleft : sanitizeFilename name = sanitizeFilename (fileNameOr path) := by
        rw [sanitizeFilename, sanitizeFilename]
        simp only [hsame, ← hname]
      rw [hleft]
      exact h
    · rw [hname, hnone]
      exact hunnamed
  · exact hunnamed

/-! ### Accepted files -/

/-- What `from_path` guarantees of a file it has accepted. -/
structure SendFile.Accepted [Blake3] (file : SendFile) : Prop where
  sender : CanonicalWallet file.fromWallet
  receiver : CanonicalWallet file.toWallet
  different : file.fromWallet ≠ file.toWallet
  name : sanitizeFilename file.filename = .ok file.filename
  id : file.fileId = Blake3.hash file.bytes
  hash : file.contentHashHex = Blake3.toHex file.fileId.toList
  size : file.fileSizeBytes.toNat = file.bytes.length
  nonempty : 0 < file.bytes.length
  bounded : file.bytes.length ≤ maxP2pFileBytes
  chunks : expectedTotalChunks file.fileSizeBytes = .ok file.totalChunks

theorem SendFile.fromPath_accepted [Blake3] {now : Int64} {fromWallet toWallet : String}
    {view : FileView} {file : SendFile} (h : SendFile.fromPath now fromWallet toWallet view = .ok file) :
    file.Accepted := by
  simp only [SendFile.fromPath, bind_eq_ok_iff, pure_eq_ok_iff, rejectIf_eq_ok_iff,
    ioErr_eq_ok_iff, not_not] at h
  obtain ⟨sender, hsender, receiver, hreceiver, _, hdifferent, ⟨isFile, len⟩, -, _, -, _, hlen, _,
    hmax, bytes, -, _, hsame, _, -, name, hname, total, htotal, rfl⟩ := h
  have hsame : bytes.length = len.toNat := hsame
  have hmax : ¬maxP2pFileBytes < len.toNat := hmax
  have hzero : len.toNat ≠ 0 := fun hz => hlen (UInt64.toNat_inj.mp hz)
  have hsize : (UInt64.ofNat bytes.length).toNat = bytes.length := by
    apply UInt64.toNat_ofNat_of_lt'
    rw [hsame]
    exact len.toNat_lt
  exact ⟨canonicalizeWalletStr_canonical hsender, canonicalizeWalletStr_canonical hreceiver,
    hdifferent, sanitizeFilename_stable hname, rfl, rfl, hsize, by dsimp only; omega,
    by dsimp only; omega, htotal⟩

/-! ### Honest chunks -/

/-- The chunk is not stamped later than the receiver allows. -/
def Timely (now : Int64) (chunk : FileChunkMessage) : Prop :=
  (chunk.timestampMs.toNat : ℤ) ≤ now.toInt + maxFutureSkewMs

theorem Timely.validate {now : Int64} {chunk : FileChunkMessage} (h : Timely now chunk) :
    validateTimestampMs now chunk.timestampMs = .ok () := by
  apply rejectIf_of_not
  have h' : (chunk.timestampMs.toNat : ℤ) ≤ now.toInt + maxFutureSkewMs := h
  omega

theorem expectedTotalChunks_eq_ok_iff {size : UInt64} {total : UInt32} :
    expectedTotalChunks size = .ok total ↔ 0 < size.toNat ∧ size.toNat ≤ maxP2pFileBytes ∧
      total.toNat = count fileChunkSize size.toNat := by
  have hmax : maxTotalChunks.toNat = 160 := by decide
  have hbytes : maxP2pFileBytes = fileChunkSize*160 := by decide
  have hcount : size.toNat ≤ maxP2pFileBytes → count fileChunkSize size.toNat ≤ 160 := by
    intro hle
    exact count_le (by decide) (hbytes ▸ hle)
  simp only [expectedTotalChunks, bind_eq_ok_iff, pure_eq_ok_iff, rejectIf_eq_ok_iff, not_or,
    Nat.not_lt, Nat.not_le]
  constructor
  · rintro ⟨-, hzero, -, hle, -, -, -, -, rfl⟩
    have hpos : size.toNat ≠ 0 := fun hz => hzero (UInt64.toNat_inj.mp hz)
    refine ⟨by omega, hle, ?_⟩
    exact UInt32.toNat_ofNat_of_lt' (Nat.lt_of_le_of_lt (hcount hle) (by decide))
  · rintro ⟨hpos, hle, htotal⟩
    have hfits : count fileChunkSize size.toNat < 2^32 :=
      Nat.lt_of_le_of_lt (hcount hle) (by decide)
    have hmany : 0 < count fileChunkSize size.toNat := count_pos (by decide) hpos
    have hsame : UInt32.ofNat (count fileChunkSize size.toNat) = total := by
      rw [← htotal, UInt32.ofNat_toNat]
    refine ⟨(), ?_, (), hle, (), hfits, (), ⟨by omega, ?_⟩, hsame⟩
    · rintro rfl
      exact absurd hpos (by decide)
    · rw [UInt32.lt_iff_toNat_lt, hmax, hsame, htotal]
      exact Nat.not_lt.mpr (hcount hle)

namespace SendFile
variable [Blake3] {file : SendFile}

/-- The chunks of a file, and how many bytes some of them have. -/
def piece (file : SendFile) (i : ℕ) : List UInt8 := chunk fileChunkSize file.bytes i

def pieceBytes (file : SendFile) (delivered : Finset ℕ) : ℕ :=
  ∑ i ∈ delivered, (file.piece i).length

theorem Accepted.total (h : file.Accepted) :
    file.totalChunks.toNat = count fileChunkSize file.bytes.length := by
  rw [(expectedTotalChunks_eq_ok_iff.mp h.chunks).2.2, h.size]

theorem Accepted.total_le (h : file.Accepted) : file.totalChunks.toNat ≤ 160 := by
  rw [h.total]
  exact count_le (by decide) h.bounded

theorem Accepted.total_pos (h : file.Accepted) : 0 < file.totalChunks.toNat := by
  rw [h.total]
  exact count_pos (by decide) h.nonempty

omit [Blake3] in
theorem pieceBytes_all (file : SendFile) :
    file.pieceBytes (Finset.range (count fileChunkSize file.bytes.length)) = file.bytes.length := by
  have hflat := congrArg List.length
    (flatten_chunks (show 0 < fileChunkSize by decide) file.bytes)
  rw [List.length_flatten, Chunks.chunks, List.map_map] at hflat
  rw [pieceBytes, ← List.toFinset_range, List.sum_toFinset _ List.nodup_range]
  exact hflat

theorem Accepted.pieceBytes_le (h : file.Accepted) {delivered : Finset ℕ}
    (hsub : delivered ⊆ Finset.range file.totalChunks.toNat) :
    file.pieceBytes delivered ≤ file.bytes.length := by
  have hsum : file.pieceBytes delivered ≤ file.pieceBytes (Finset.range file.totalChunks.toNat) :=
    Finset.sum_le_sum_of_subset hsub
  rw [h.total, pieceBytes_all] at hsum
  exact hsum

/-- The message of one chunk. -/
def chunkMessage (file : SendFile) (i : ℕ) (now : Int64) : FileChunkMessage :=
  file.message i (file.piece i) now

theorem Accepted.mem_iterChunks (h : file.Accepted) {clock : ℕ → Int64} {m : FileChunkMessage} :
    m ∈ file.iterChunks clock ↔
      ∃ i < file.totalChunks.toNat, m = file.chunkMessage i (clock i) := by
  have hlen := length_chunks fileChunkSize file.bytes
  rw [iterChunks, List.mem_mapIdx, h.total, ← hlen]
  constructor
  · rintro ⟨i, hi, rfl⟩
    refine ⟨i, hi, ?_⟩
    rw [getElem_chunks]
    rfl
  · rintro ⟨i, hi, rfl⟩
    refine ⟨i, hi, ?_⟩
    rw [getElem_chunks]
    rfl

omit [Blake3] in
theorem chunkIndex_toNat {i : ℕ} (hi : i < file.totalChunks.toNat) (now : Int64) :
    (file.chunkMessage i now).chunkIndex.toNat = i := by
  have hlt : i < 2^32 := hi.trans file.totalChunks.toNat_lt
  change (if i < 2^32 then UInt32.ofNat i else 4294967295).toNat = i
  rw [if_pos hlt]
  exact UInt32.toNat_ofNat_of_lt' hlt

theorem Accepted.validateChunkLen (h : file.Accepted) {i : ℕ} (hi : i < file.totalChunks.toNat)
    (now : Int64) : validateChunkLenForIndex file.fileSizeBytes file.totalChunks
      (file.chunkMessage i now).chunkIndex (file.piece i).length = .ok () := by
  have hsize : 0 < fileChunkSize := by decide
  have htotal := h.total
  have hindex := chunkIndex_toNat hi now
  have hlen : (file.piece i).length = if i + 1 = file.totalChunks.toNat then
      lastChunkLen file.fileSizeBytes else fileChunkSize := by
    split
    · rename_i hlast
      rw [lastChunkLen, h.size]
      exact length_chunk_last hsize file.bytes (hlast.trans htotal)
    · exact length_chunk_of_lt hsize file.bytes (by omega)
  have hlastLen : 0 < lastChunkLen file.fileSizeBytes ∧
      lastChunkLen file.fileSizeBytes ≤ fileChunkSize := by
    have hmod := Nat.mod_lt file.fileSizeBytes.toNat hsize
    rw [lastChunkLen]
    split <;> omega
  have hbounds : (file.piece i).length ≠ 0 ∧ (file.piece i).length ≤ fileChunkSize := by
    rw [hlen]
    split <;> omega
  have hzero : ¬file.totalChunks = 0 := by
    intro hz
    rw [hz] at hi
    exact absurd hi (Nat.not_lt_zero i)
  have hrange : ¬file.totalChunks ≤ (file.chunkMessage i now).chunkIndex := by
    rw [UInt32.le_iff_toNat_le, hindex]
    omega
  rw [validateChunkLenForIndex, rejectIf_of_not _ hbounds.1, ok_bind,
    rejectIf_of_not _ (Nat.not_lt.mpr hbounds.2), ok_bind, rejectIf_of_not _ hzero, ok_bind,
    rejectIf_of_not _ hrange, ok_bind]
  dsimp only
  rw [hindex]
  split
  · rename_i hlast
    rw [if_pos hlast] at hlen
    exact rejectIf_of_not _ (not_not_intro hlen)
  · rename_i hmid
    rw [if_neg hmid] at hlen
    exact rejectIf_of_not _ (not_not_intro hlen)

/-- A timely chunk of an accepted file passes all checks, and nothing of it is rewritten. -/
theorem Accepted.validateMetadata (h : file.Accepted) {i : ℕ} (hi : i < file.totalChunks.toNat)
    {sent now : Int64} (htime : Timely now (file.chunkMessage i sent)) :
    validateChunkMessageMetadata now (file.chunkMessage i sent) =
      .ok ⟨file.fromWallet, file.toWallet, file.filename, file.contentHashHex⟩ := by
  have hhash : canonicalizeContentHashHex file.contentHashHex = .ok file.contentHashHex := by
    rw [h.hash]
    exact canonicalizeContentHashHex_toHex _
  have hid : validateFileIdentityConsistency file.fileId file.contentHashHex = .ok () := by
    rw [h.hash]
    exact validateFileIdentityConsistency_toHex _
  simp only [validateChunkMessageMetadata, bind_eq_ok_iff, rejectIf_eq_ok_iff, pure_eq_ok_iff]
  exact ⟨_, h.sender.canonicalize "from", _, h.receiver.canonicalize "to", (), h.different, _, h.name,
    _, hhash, (), hid, (), htime.validate, _, h.chunks, (), not_not_intro rfl, (),
    h.validateChunkLen hi sent, rfl⟩

end SendFile

/-! ### Receiving -/

/-- The receiver's state once some chunks of a file have been delivered. -/
def SendFile.receiving (file : SendFile) (delivered : Finset ℕ) : IncomingFile :=
  ⟨file.fileId, file.fromWallet, file.toWallet, file.filename, file.fileSizeBytes,
    file.contentHashHex, file.totalChunks,
    (List.range file.totalChunks.toNat).map fun i => if i ∈ delivered then some (file.piece i) else none,
    UInt32.ofNat delivered.card, UInt64.ofNat (file.pieceBytes delivered)⟩

namespace SendFile
variable [Blake3] {file : SendFile} {delivered : Finset ℕ}

theorem Accepted.receiving_count (h : file.Accepted)
    (hsub : delivered ⊆ Finset.range file.totalChunks.toNat) :
    (file.receiving delivered).receivedCount.toNat = delivered.card ∧
      delivered.card ≤ file.totalChunks.toNat := by
  have hcard := Finset.card_le_card hsub
  rw [Finset.card_range] at hcard
  have hmax := h.total_le
  exact ⟨UInt32.toNat_ofNat_of_lt' (by omega : delivered.card < 2^32), hcard⟩

theorem Accepted.receiving_bytes (h : file.Accepted)
    (hsub : delivered ⊆ Finset.range file.totalChunks.toNat) :
    (file.receiving delivered).receivedTotalBytes.toNat = file.pieceBytes delivered := by
  have hle := h.pieceBytes_le hsub
  have hmax := h.bounded
  have hlimit : maxP2pFileBytes = 5242880 := rfl
  exact UInt64.toNat_ofNat_of_lt' (by omega : file.pieceBytes delivered < 2^64)

/-- The state of an honest transfer always passes its own check. -/
theorem Accepted.validateState (h : file.Accepted)
    (hsub : delivered ⊆ Finset.range file.totalChunks.toNat) :
    (file.receiving delivered).validateStateMetadata = .ok () := by
  have hid : validateFileIdentityConsistency file.fileId file.contentHashHex = .ok () := by
    rw [h.hash]
    exact validateFileIdentityConsistency_toHex _
  have hsize := h.size
  have hnonempty := h.nonempty
  have hbounded := h.bounded
  have hzero : ¬file.fileSizeBytes = 0 := by
    intro hz
    rw [hz] at hsize
    change 0 = _ at hsize
    omega
  have hmax : maxTotalChunks.toNat = 160 := by decide
  have htotal : ¬(file.totalChunks = 0 ∨ maxTotalChunks < file.totalChunks) := by
    rw [UInt32.lt_iff_toNat_lt, hmax]
    have hpos := h.total_pos
    have hle := h.total_le
    rintro (hz | hlt)
    · rw [hz] at hpos
      exact absurd hpos (Nat.not_lt_zero _)
    · omega
  have hslots : ¬(file.receiving delivered).receivedChunks.length ≠ file.totalChunks.toNat := by
    rw [not_not, receiving, List.length_map, List.length_range]
  obtain ⟨hcount, hcard⟩ := h.receiving_count hsub
  have hfew : ¬file.totalChunks < (file.receiving delivered).receivedCount := by
    rw [UInt32.lt_iff_toNat_lt, hcount]
    omega
  have hbytes := h.receiving_bytes hsub
  have hsum := h.pieceBytes_le hsub
  have hfits : ¬file.fileSizeBytes < (file.receiving delivered).receivedTotalBytes := by
    rw [UInt64.lt_iff_toNat_lt, hbytes, hsize]
    omega
  have hlimit : ¬maxP2pFileBytes < (file.receiving delivered).receivedTotalBytes.toNat := by
    rw [hbytes]
    omega
  have hlarge : ¬maxP2pFileBytes < file.fileSizeBytes.toNat := by
    rw [hsize]
    omega
  simp only [IncomingFile.validateStateMetadata, bind_eq_ok_iff, rejectIf_eq_ok_iff]
  exact ⟨_, h.sender.canonicalize "from", _, h.receiver.canonicalize "to", (), h.different, _, h.name,
    (), hid, (), hzero, (), hlarge, (), htotal, _, h.chunks, (), not_not_intro rfl, (), hslots, (),
    hfew, (), hfits, hlimit⟩

omit [Blake3] in
theorem validateSameFile_receiving (i : ℕ) (sent : Int64) :
    (file.receiving delivered).validateSameFile (file.chunkMessage i sent)
      ⟨file.fromWallet, file.toWallet, file.filename, file.contentHashHex⟩ = .ok () := by
  simp only [IncomingFile.validateSameFile, bind_eq_ok_iff, rejectIf_eq_ok_iff]
  exact ⟨(), not_not_intro rfl, (), not_not_intro rfl, (), not_not_intro rfl, (), not_not_intro rfl,
    (), not_not_intro rfl, (), not_not_intro rfl, not_not_intro rfl⟩

omit [Blake3] in
theorem receiving_slot {i : ℕ} (hi : i < file.totalChunks.toNat) :
    (file.receiving delivered).receivedChunks[i]?.join =
      if i ∈ delivered then some (file.piece i) else none := by
  have hget : (file.receiving delivered).receivedChunks[i]? =
      some (if i ∈ delivered then some (file.piece i) else none) := by
    simp [receiving, hi]
  rw [hget, Option.join_some]

omit [Blake3] in
theorem receiving_set {i : ℕ} (hi : i < file.totalChunks.toNat) :
    (file.receiving delivered).receivedChunks.set i (some (file.piece i)) =
      (file.receiving (insert i delivered)).receivedChunks := by
  apply List.ext_getElem?
  intro j
  rw [List.getElem?_set]
  simp only [receiving, List.getElem?_map, List.length_map, List.length_range, Finset.mem_insert]
  by_cases hij : i = j
  · subst hij
    simp [hi]
  · rw [if_neg hij]
    by_cases hj : j < file.totalChunks.toNat
    · rw [List.getElem?_range hj]
      simp [Ne.symm hij]
    · rw [List.getElem?_eq_none (by rw [List.length_range]; omega)]
      rfl

theorem Accepted.storeChunk (h : file.Accepted)
    (hsub : delivered ⊆ Finset.range file.totalChunks.toNat) {i : ℕ}
    (hi : i < file.totalChunks.toNat) (hnew : i ∉ delivered) {sent : Int64} :
    (file.receiving delivered).storeChunk (file.chunkMessage i sent) =
      .ok (file.receiving (insert i delivered)) := by
  have hsub' : insert i delivered ⊆ Finset.range file.totalChunks.toNat := by
    rw [Finset.insert_subset_iff, Finset.mem_range]
    exact ⟨hi, hsub⟩
  have hbytes := h.receiving_bytes hsub
  have hbytes' := h.receiving_bytes hsub'
  have hsum : file.pieceBytes (insert i delivered) =
      (file.piece i).length + file.pieceBytes delivered := Finset.sum_insert hnew
  have hle := h.pieceBytes_le hsub'
  have hbound := h.bounded
  have hlimit : maxP2pFileBytes = 5242880 := rfl
  have hpiece : (UInt64.ofNat (file.piece i).length).toNat = (file.piece i).length :=
    UInt64.toNat_ofNat_of_lt' (by omega : (file.piece i).length < 2^64)
  have hadd : checkedAdd (file.receiving delivered).receivedTotalBytes
      (UInt64.ofNat (file.chunkMessage i sent).chunkBytes.length) =
        some (file.receiving (insert i delivered)).receivedTotalBytes := by
    rw [checkedAdd_eq_some_iff, hbytes, hbytes', hsum]
    change _ + (UInt64.ofNat (file.piece i).length).toNat = _
    omega
  obtain ⟨hcount, hcard⟩ := h.receiving_count hsub
  obtain ⟨hcount', hcard'⟩ := h.receiving_count hsub'
  have hmax := h.total_le
  have hnext : (file.receiving delivered).receivedCount + 1 =
      (file.receiving (insert i delivered)).receivedCount := by
    apply UInt32.toNat_inj.mp
    rw [UInt32.toNat_add, hcount, hcount', Finset.card_insert_of_notMem hnew]
    change (delivered.card + 1)%2^32 = _
    omega
  have hfits : ¬file.fileSizeBytes < (file.receiving (insert i delivered)).receivedTotalBytes := by
    rw [UInt64.lt_iff_toNat_lt, hbytes', h.size]
    omega
  simp only [IncomingFile.storeChunk, bind_eq_ok_iff, rejectIf_eq_ok_iff, okOr_eq_ok_iff,
    pure_eq_ok_iff]
  refine ⟨_, hadd, (), hfits, (), by rw [hbytes']; omega, (), by rw [hcount]; omega, ?_⟩
  rw [hnext, chunkIndex_toNat hi]
  have hslots : (file.receiving delivered).receivedChunks.set i (some (file.piece i)) = _ :=
    receiving_set hi
  change IncomingFile.mk _ _ _ _ _ _ _ ((file.receiving delivered).receivedChunks.set i
    (some (file.piece i))) _ _ = _
  rw [hslots]
  rfl

/-- One delivery of an honest chunk: it is added, and a repeated one changes nothing. -/
theorem Accepted.applyChunk (h : file.Accepted)
    (hsub : delivered ⊆ Finset.range file.totalChunks.toNat) {i : ℕ}
    (hi : i < file.totalChunks.toNat) {sent now : Int64}
    (htime : Timely now (file.chunkMessage i sent)) :
    (file.receiving delivered).applyChunk now (file.chunkMessage i sent) =
      .ok (file.receiving (insert i delivered)) := by
  have hindex := chunkIndex_toNat hi sent
  have hrange : ¬(file.receiving delivered).receivedChunks.length ≤
      (file.chunkMessage i sent).chunkIndex.toNat := by
    rw [hindex, receiving, List.length_map, List.length_range]
    omega
  rw [IncomingFile.applyChunk, h.validateState hsub, ok_bind, h.validateMetadata hi htime, ok_bind,
    validateSameFile_receiving, ok_bind]
  dsimp only
  rw [rejectIf_of_not _ hrange, ok_bind, hindex, receiving_slot hi]
  by_cases hmem : i ∈ delivered
  · have hsame : ¬file.piece i ≠ (file.chunkMessage i sent).chunkBytes := not_not_intro rfl
    rw [if_pos hmem, Finset.insert_eq_of_mem hmem]
    dsimp only
    rw [rejectIf_of_not _ hsame, ok_bind]
    rfl
  · rw [if_neg hmem]
    exact h.storeChunk hsub hi hmem

theorem Accepted.fromFirstChunkChecked (h : file.Accepted) {i : ℕ}
    (hi : i < file.totalChunks.toNat) {sent now : Int64}
    (htime : Timely now (file.chunkMessage i sent)) :
    IncomingFile.fromFirstChunkChecked now (file.chunkMessage i sent) = .ok (file.receiving ∅) := by
  have hchunks : expectedTotalChunks (file.chunkMessage i sent).fileSizeBytes =
    .ok file.totalChunks := h.chunks
  have hslots : (file.receiving ∅).receivedChunks = List.replicate file.totalChunks.toNat none := by
    simp only [receiving, Finset.notMem_empty, if_false, List.map_const', List.length_range]
  rw [IncomingFile.fromFirstChunkChecked, h.validateMetadata hi htime, ok_bind, hchunks, ok_bind,
    ← hslots]
  rfl

theorem Accepted.fromFirstChunk (h : file.Accepted) {i : ℕ}
    (hi : i < file.totalChunks.toNat) {sent now : Int64}
    (htime : Timely now (file.chunkMessage i sent)) :
    IncomingFile.fromFirstChunk now (file.chunkMessage i sent) = file.receiving ∅ := by
  rw [IncomingFile.fromFirstChunk, h.fromFirstChunkChecked hi htime]

theorem Accepted.isComplete_iff (h : file.Accepted)
    (hsub : delivered ⊆ Finset.range file.totalChunks.toNat) :
    (file.receiving delivered).isComplete = true ↔
      delivered = Finset.range file.totalChunks.toNat := by
  obtain ⟨hcount, -⟩ := h.receiving_count hsub
  rw [IncomingFile.isComplete, decide_eq_true_eq, ← UInt32.toNat_inj, hcount]
  change delivered.card = file.totalChunks.toNat ↔ _
  constructor
  · intro hcard
    apply Finset.eq_of_subset_of_card_le hsub
    rw [Finset.card_range, hcard]
  · rintro rfl
    exact Finset.card_range _

omit [Blake3] in
/-- Chunks that are all there, and fit, are put one after the other. -/
theorem reconstruct_some (chunks : List (List UInt8)) (i : ℕ) (start : List UInt8)
    (hfit : start.length + chunks.flatten.length ≤ maxP2pFileBytes) :
    IncomingFile.reconstruct i start (chunks.map some) = .ok (start ++ chunks.flatten) := by
  induction chunks generalizing i start with
  | nil => simp [IncomingFile.reconstruct]
  | cons chunk chunks ih =>
    rw [List.flatten_cons, List.length_append] at hfit
    have hlen : (start ++ chunk).length = start.length + chunk.length := List.length_append
    have hroom : ¬maxP2pFileBytes < start.length + chunk.length := by omega
    rw [List.map_cons, IncomingFile.reconstruct, okOr, ok_bind, rejectIf_of_not _ hroom, ok_bind,
      ih (i+1) (start ++ chunk) (by omega), List.flatten_cons, List.append_assoc]

/-- All chunks together are the file. -/
theorem Accepted.intoVerifiedBytes (h : file.Accepted) :
    (file.receiving (Finset.range file.totalChunks.toNat)).intoVerifiedBytes = .ok file.bytes := by
  have hslots : (file.receiving (Finset.range file.totalChunks.toNat)).receivedChunks =
      (Chunks.chunks fileChunkSize file.bytes).map some := by
    simp only [receiving, Chunks.chunks, List.map_map, h.total]
    apply List.map_congr_left
    intro i hi
    rw [if_pos (Finset.mem_range.mpr (List.mem_range.mp hi))]
    rfl
  have hflat : (Chunks.chunks fileChunkSize file.bytes).flatten = file.bytes :=
    flatten_chunks (by decide) file.bytes
  have hbound := h.bounded
  have hbytes : IncomingFile.reconstruct 0 [] ((Chunks.chunks fileChunkSize file.bytes).map some) =
      .ok file.bytes := by
    rw [reconstruct_some _ 0 [] (by rw [hflat]; exact (Nat.zero_add _).le.trans hbound), hflat,
      List.nil_append]
  have hpresent : ((Chunks.chunks fileChunkSize file.bytes).map some).countP Option.isSome =
      file.totalChunks.toNat := by
    rw [List.countP_eq_length.mpr, List.length_map, length_chunks, h.total]
    intro slot hslot
    obtain ⟨c, -, rfl⟩ := List.mem_map.mp hslot
    rfl
  have hcount : (file.receiving (Finset.range file.totalChunks.toNat)).receivedCount =
      file.totalChunks := by
    simp only [receiving, Finset.card_range, UInt32.ofNat_toNat]
  have hsize : ¬file.bytes.length ≠ file.fileSizeBytes.toNat := not_not_intro h.size.symm
  have hhash : ¬Blake3.toHex (Blake3.hash file.bytes).toList ≠ file.contentHashHex := by
    rw [not_not, h.hash, h.id]
  have hid : ¬Blake3.toHex file.fileId.toList ≠ Blake3.toHex (Blake3.hash file.bytes).toList := by
    rw [not_not, h.id]
  simp only [IncomingFile.intoVerifiedBytes, hslots, hcount, hpresent, bind_eq_ok_iff,
    rejectIf_eq_ok_iff, pure_eq_ok_iff]
  refine ⟨(), h.validateState (Finset.Subset.refl _), (), ?_, (), ?_, (), not_not_intro rfl, _,
    hbytes, (), hsize, (), hhash, (), hid, rfl⟩
  · exact Nat.not_le.mpr file.totalChunks.toNat_lt
  · rw [not_not, UInt32.ofNat_toNat]

/-! ### Deliveries -/

/-- A message and the receiver's clock when it arrives. -/
abbrev Delivery := FileChunkMessage × Int64

/-- The message is one of those the file is sent as, and not from the future. -/
structure Delivers (file : SendFile) (d : Delivery) : Prop where
  sent : ∃ clock, d.1 ∈ file.iterChunks clock
  timely : Timely d.2 d.1

def deliveredIndices (ds : List Delivery) : Finset ℕ := (ds.map fun d => d.1.chunkIndex.toNat).toFinset

def applyAll (s : IncomingFile) (ds : List Delivery) : Fallible IncomingFile :=
  ds.foldlM (fun s d => s.applyChunk d.2 d.1) s

theorem Accepted.applyAll (h : file.Accepted) {ds : List Delivery}
    (hds : ∀ d ∈ ds, file.Delivers d)
    (hsub : delivered ⊆ Finset.range file.totalChunks.toNat) :
    SendFile.applyAll (file.receiving delivered) ds =
        .ok (file.receiving (delivered ∪ deliveredIndices ds)) ∧
      delivered ∪ deliveredIndices ds ⊆ Finset.range file.totalChunks.toNat := by
  induction ds generalizing delivered with
  | nil =>
    rw [deliveredIndices, List.map_nil, List.toFinset_nil, Finset.union_empty]
    exact ⟨rfl, hsub⟩
  | cons d ds ih =>
    obtain ⟨⟨clock, hsent⟩, htime⟩ := hds d List.mem_cons_self
    obtain ⟨i, hi, hmessage⟩ := h.mem_iterChunks.mp hsent
    rw [hmessage] at htime
    have hstep := h.applyChunk hsub hi htime
    have hsub' : insert i delivered ⊆ Finset.range file.totalChunks.toNat := by
      rw [Finset.insert_subset_iff, Finset.mem_range]
      exact ⟨hi, hsub⟩
    obtain ⟨hrest, hall⟩ := ih (fun d' hd' => hds d' (List.mem_cons_of_mem d hd')) hsub'
    have hindices : delivered ∪ deliveredIndices (d :: ds) = insert i delivered ∪ deliveredIndices ds := by
      rw [deliveredIndices, List.map_cons, List.toFinset_cons, hmessage, chunkIndex_toNat hi,
        Finset.union_insert, Finset.insert_union]
      rfl
    rw [hindices]
    refine ⟨?_, hall⟩
    rw [SendFile.applyAll, List.foldlM_cons, hmessage, hstep, ok_bind]
    exact hrest

theorem fromPath_read {now : Int64} {fromWallet toWallet : String} {view : FileView}
    (h : SendFile.fromPath now fromWallet toWallet view = .ok file) : view.read = .ok file.bytes := by
  simp only [SendFile.fromPath, bind_eq_ok_iff, pure_eq_ok_iff, rejectIf_eq_ok_iff,
    ioErr_eq_ok_iff] at h
  obtain ⟨_, -, _, -, _, -, _, -, _, -, _, -, _, -, bytes, hread, _, -, _, -, _, -, _, -, rfl⟩ := h
  exact hread

/-- Chunks of one file in any order and any number: none is refused, the file is complete from the
moment the last index has come, and then it is the file that was read at the other end. -/
theorem chunked_file_reassembled {sentAt : Int64} {fromWallet toWallet : String} {view : FileView}
    (hfile : SendFile.fromPath sentAt fromWallet toWallet view = .ok file) {first : Delivery}
    {rest : List Delivery} (hds : ∀ d ∈ first :: rest, file.Delivers d) :
    view.read = .ok file.bytes ∧
      IncomingFile.fromFirstChunkChecked first.2 first.1 =
        .ok (IncomingFile.fromFirstChunk first.2 first.1) ∧
      ∀ pre, pre <+: first :: rest → ∃ s,
        SendFile.applyAll (IncomingFile.fromFirstChunk first.2 first.1) pre = .ok s ∧
        (s.isComplete = true ↔
          ∀ i < file.totalChunks.toNat, ∃ d ∈ pre, d.1.chunkIndex.toNat = i) ∧
        (s.isComplete = true → s.intoVerifiedBytes = .ok file.bytes) := by
  have hacc := SendFile.fromPath_accepted hfile
  obtain ⟨⟨clock, hsent⟩, htime⟩ := hds first List.mem_cons_self
  obtain ⟨i, hi, hmessage⟩ := hacc.mem_iterChunks.mp hsent
  rw [hmessage] at htime
  have hstart := hacc.fromFirstChunk hi htime
  refine ⟨fromPath_read hfile, ?_, ?_⟩
  · rw [hmessage, hstart]
    exact hacc.fromFirstChunkChecked hi htime
  · intro pre hpre
    obtain ⟨hrun, hsub⟩ := hacc.applyAll (fun d hd => hds d (hpre.subset hd))
      (Finset.empty_subset (Finset.range file.totalChunks.toNat))
    rw [Finset.empty_union] at hrun hsub
    rw [hmessage, hstart]
    refine ⟨_, hrun, ?_, ?_⟩
    · rw [hacc.isComplete_iff hsub]
      constructor
      · intro hall i hi
        have hmem := Finset.mem_range.mpr hi
        rw [← hall, deliveredIndices, List.mem_toFinset, List.mem_map] at hmem
        exact hmem
      · intro hall
        apply Finset.Subset.antisymm hsub
        intro i hi
        rw [deliveredIndices, List.mem_toFinset, List.mem_map]
        exact hall i (Finset.mem_range.mp hi)
    · intro hcomplete
      rw [(hacc.isComplete_iff hsub).mp hcomplete]
      exact hacc.intoVerifiedBytes

end SendFile

namespace Sample

def friend : String := "r" ++ String.ofList (List.replicate 128 'b')

/-- Three bytes in `/a.txt`. -/
def note : FileView := ⟨utf8 "/a.txt", "/a.txt", .ok (true, 3), .ok [1, 2, 3]⟩

theorem fromPath_note :
    ∃ file, @SendFile.fromPath Blake3.reference 0 miner friend note = .ok file :=
  (succeeds_iff _).mp (by decide +kernel)

end Sample

/-- The only chunk of a short file, delivered twice. -/
theorem SendFile.chunked_file_reassembled_twice : ∃ file,
    @SendFile.fromPath Blake3.reference 0 Sample.miner Sample.friend Sample.note = .ok file ∧
      ∃ s, SendFile.applyAll (IncomingFile.fromFirstChunk 0 (file.chunkMessage 0 0))
          [(file.chunkMessage 0 0, 0), (file.chunkMessage 0 0, 0)] = .ok s ∧
        s.isComplete = true ∧ @IncomingFile.intoVerifiedBytes Blake3.reference s = .ok [1, 2, 3] := by
  obtain ⟨file, hfile⟩ := Sample.fromPath_note
  have hacc := @SendFile.fromPath_accepted Blake3.reference _ _ _ _ _ hfile
  have hpos := @SendFile.Accepted.total_pos Blake3.reference _ hacc
  have hdelivers : file.Delivers (file.chunkMessage 0 0, 0) :=
    ⟨⟨fun _ => 0, (@SendFile.Accepted.mem_iterChunks Blake3.reference _ hacc _ _).mpr
      ⟨0, hpos, rfl⟩⟩, show ((0 : UInt64).toNat : ℤ) ≤ (0 : Int64).toInt + maxFutureSkewMs by decide⟩
  have hds : ∀ d ∈ [(file.chunkMessage 0 0, 0), (file.chunkMessage 0 0, (0 : Int64))],
      file.Delivers d := by
    intro d hd
    rcases List.mem_cons.mp hd with rfl | hd
    · exact hdelivers
    · rw [List.mem_singleton.mp hd]
      exact hdelivers
  obtain ⟨hread, -, hall⟩ :=
    @SendFile.chunked_file_reassembled Blake3.reference _ _ _ _ _ hfile _ _ hds
  obtain ⟨s, hrun, hcomplete, hbytes⟩ := hall _ List.prefix_rfl
  have hnote : file.bytes = [1, 2, 3] := (Except.ok.inj hread).symm
  have hone : file.totalChunks.toNat = 1 := by
    rw [@SendFile.Accepted.total Blake3.reference _ hacc, hnote]
    decide
  have hwhole : s.isComplete = true := by
    refine hcomplete.mpr fun i hi => ⟨_, List.mem_cons_self, ?_⟩
    rw [SendFile.chunkIndex_toNat hpos]
    omega
  refine ⟨file, hfile, s, hrun, hwhole, ?_⟩
  rw [← hnote]
  exact hbytes hwhole

end Remzar
