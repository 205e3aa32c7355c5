import Mathlib
import Remzar.Wallets
import Remzar.Lib.Blake3
import Remzar.Lib.Checked
import Remzar.Lib.Chunks

/-! Files sent between wallets outside the chain: cutting a file into chunk messages, and putting
the messages together again. A `usize` holds 64 bits, so its conversions do not fail. -/
namespace Remzar
open Fallible Checked Text Chunks

abbrev FileId := List.Vector UInt8 32

def maxP2pFileBytes : ℕ := 5*1024*1024
def fileChunkSize : ℕ := 32*1024
def maxTotalChunks : UInt32 := UInt32.ofNat (count fileChunkSize maxP2pFileBytes)
def contentHashHexLen : ℕ := 64
def maxFilenameLen : ℕ := 255
def maxFutureSkewMs : ℤ := 10*60*1000

/-! ### Metadata -/

def canonicalizeWalletStr (label s : String) : Fallible String := do
  let trimmed := trim s
  rejectIf (trimmed.isEmpty) (validationErr s!"{label} wallet is empty")
  rejectIf (byteLen trimmed ≠ remzarWalletLen) (validationErr
    s!"{label} wallet has invalid length: {byteLen trimmed} chars (expected {remzarWalletLen})")
  canonWalletIdChecked trimmed

def canonicalizeContentHashHex (input : String) : Fallible String := do
  let s := toAsciiLowercase (trim input)
  rejectIf (byteLen s ≠ contentHashHexLen) (validationErr
    s!"content_hash_hex has invalid length: {byteLen s} chars (expected {contentHashHexLen})")
  rejectIf (¬(utf8 s).all isLowerHex) (validationErr "content_hash_hex contains non-hex characters")
  return s

def validateFileIdentityConsistency (fileId : FileId) (contentHashHex : String) : Fallible Unit := do
  let canonicalHash ← canonicalizeContentHashHex contentHashHex
  let encodedFileId := Blake3.toHex fileId.toList
  rejectIf (encodedFileId ≠ canonicalHash) (validationErr
    s!"file identity mismatch: file_id hex {encodedFileId} != content_hash_hex {canonicalHash}")

/-- `Path::file_name` on Unix: the last component, unless it is `..` or there is none. Empty and
`.` components do not count. -/
def fileName (path : List UInt8) : Option (List UInt8) :=
  match ((path.splitOn 47).filter fun c => c ≠ [] ∧ c ≠ [46]).getLast? with
  | some name => if name = [46, 46] then none else some name
  | none => none

/-- `char::is_control`. -/
def isControl (c : Char) : Bool := c.toNat < 0x20 || (0x7F ≤ c.toNat && c.toNat ≤ 0x9F)

/-- The name that stands for one that is missing or not a text. -/
def fileNameOr (path : List UInt8) : String := ((fileName path).bind fromUtf8).getD "unnamed_file"

def sanitizeFilename (input : String) : Fallible String := do
  let name := fileNameOr (utf8 (trim input))
  if name.isEmpty then return "unnamed_file"
  else do
    rejectIf (maxFilenameLen < byteLen name)
      (validationErr s!"filename too long: {byteLen name} bytes (max {maxFilenameLen})")
    rejectIf ((chars name).any isControl)
      (validationErr "filename contains invalid control characters")
    return name

def validateTimestampMs (now : Int64) (ts : UInt64) : Fallible Unit :=
  rejectIf (min (now.toInt + maxFutureSkewMs) (2^63-1) < min (ts.toNat : ℤ) (2^63-1))
    (validationErr s!"timestamp_ms too far in the future: {ts}")

def expectedTotalChunks (fileSizeBytes : UInt64) : Fallible UInt32 := do
  rejectIf (fileSizeBytes = 0) (validationErr "file_size_bytes cannot be zero")
  rejectIf (maxP2pFileBytes < fileSizeBytes.toNat) (validationErr
    s!"declared file_size_bytes {fileSizeBytes} exceeds MAX_P2P_FILE_BYTES {maxP2pFileBytes}")
  let chunks := count fileChunkSize fileSizeBytes.toNat
  rejectIf (2^32 ≤ chunks)
    (validationErr s!"computed total_chunks {chunks} cannot be represented as u32")
  rejectIf (chunks = 0 ∨ maxTotalChunks < UInt32.ofNat chunks) (validationErr
    s!"computed total_chunks {chunks} out of bounds (MAX_TOTAL_CHUNKS={maxTotalChunks})")
  return UInt32.ofNat chunks

def lastChunkLen (fileSizeBytes : UInt64) : ℕ :=
  let rem := fileSizeBytes.toNat%fileChunkSize
  if rem = 0 then fileChunkSize else rem

def validateChunkLenForIndex (fileSizeBytes : UInt64) (totalChunks chunkIndex : UInt32)
    (chunkLen : ℕ) : Fallible Unit := do
  rejectIf (chunkLen = 0) (validationErr s!"received empty chunk at index {chunkIndex}")
  rejectIf (fileChunkSize < chunkLen) (validationErr
    s!"chunk {chunkIndex} has size {chunkLen} which exceeds FILE_CHUNK_SIZE {fileChunkSize}")
  rejectIf (totalChunks = 0) (validationErr "total_chunks cannot be zero")
  rejectIf (totalChunks ≤ chunkIndex) (validationErr
    s!"chunk_index {chunkIndex} out of range (total_chunks={totalChunks})")
  let lastLen := lastChunkLen fileSizeBytes
  if chunkIndex.toNat + 1 = totalChunks.toNat then
    rejectIf (chunkLen ≠ lastLen) (validationErr
      s!"last chunk size mismatch at idx {chunkIndex}: got {chunkLen}, expected {lastLen}")
  else
    rejectIf (chunkLen ≠ fileChunkSize) (validationErr
      s!"non-last chunk size mismatch at idx {chunkIndex}: got {chunkLen}, expected {fileChunkSize}")

structure FileChunkMessage where
  fileId : FileId
  fromWallet : String
  toWallet : String
  chunkIndex : UInt32
  totalChunks : UInt32
  filename : String
  fileSizeBytes : UInt64
  contentHashHex : String
  chunkBytes : List UInt8
  timestampMs : UInt64

structure CanonicalChunkMeta where
  fromWallet : String
  toWallet : String
  filename : String
  contentHashHex : String

def sameWallets : ErrorDetection := validationErr "from_wallet and to_wallet cannot be the same"

def validateChunkMessageMetadata (now : Int64) (chunk : FileChunkMessage) :
    Fallible CanonicalChunkMeta := do
  let fromWallet ← canonicalizeWalletStr "from" chunk.fromWallet
  let toWallet ← canonicalizeWalletStr "to" chunk.toWallet
  rejectIf (fromWallet = toWallet) sameWallets
  let filename ← sanitizeFilename chunk.filename
  let contentHashHex ← canonicalizeContentHashHex chunk.contentHashHex
  validateFileIdentityConsistency chunk.fileId contentHashHex
  validateTimestampMs now chunk.timestampMs
  let expectedChunks ← expectedTotalChunks chunk.fileSizeBytes
  rejectIf (chunk.totalChunks ≠ expectedChunks) (validationErr
    s!"chunk total_chunks {chunk.totalChunks} inconsistent with file_size_bytes {chunk.fileSizeBytes} (expected {expectedChunks})")
  validateChunkLenForIndex chunk.fileSizeBytes chunk.totalChunks chunk.chunkIndex
    chunk.chunkBytes.length
  return ⟨fromWallet, toWallet, filename, contentHashHex⟩

def FileChunkMessage.validate (now : Int64) (chunk : FileChunkMessage) : Fallible Unit := do
  let _ ← validateChunkMessageMetadata now chunk
  return ()

/-! ### Sending -/

structure SendFile where
  fileId : FileId
  fromWallet : String
  toWallet : String
  filename : String
  fileSizeBytes : UInt64
  contentHashHex : String
  totalChunks : UInt32
  createdAtMs : UInt64
  bytes : List UInt8

/-- How the operating system reports a failed call. -/
structure IoFailure where
  text : String
  rawOsError : Option Int

/-- What the file system answers about a path: whether a regular file is there and how long it is,
and what can be read from it. -/
structure FileView where
  path : List UInt8
  display : String
  metadata : Except IoFailure (Bool × UInt64)
  read : Except IoFailure (List UInt8)

def ioErr {α : Type} (what : String) (answer : Except IoFailure α) : Fallible α :=
  match answer with
  | .ok a => .ok a
  | .error e => .error (.ioError (what ++ e.text) e.rawOsError)

theorem ioErr_eq_ok_iff {α : Type} {what : String} {answer : Except IoFailure α} {a : α} :
    ioErr what answer = .ok a ↔ answer = .ok a := by
  unfold ioErr
  cases answer <;> simp

/-- `u64::try_from`, with zero for a clock before 1970. -/
def millisOrZero (now : Int64) : UInt64 := if now < 0 then 0 else now.toUInt64

namespace SendFile

def fromPath [Blake3] (now : Int64) (fromWallet toWallet : String) (file : FileView) :
    Fallible SendFile := do
  let fromWallet ← canonicalizeWalletStr "from" fromWallet
  let toWallet ← canonicalizeWalletStr "to" toWallet
  rejectIf (fromWallet = toWallet) sameWallets
  let (isFile, fileLen) ← ioErr s!"Failed to stat file {file.display}: " file.metadata
  rejectIf (!isFile) (validationErr s!"Path is not a regular file: {file.display}")
  rejectIf (fileLen = 0) (validationErr s!"File {file.display} is empty")
  rejectIf (maxP2pFileBytes < fileLen.toNat) (validationErr
    s!"File {file.display} is too large for off-chain transfer: {fileLen} bytes (max {maxP2pFileBytes} bytes)")
  let bytes ← ioErr s!"Failed to read file {file.display}: " file.read
  rejectIf (bytes.length ≠ fileLen.toNat) (validationErr
    s!"File size changed while reading {file.display}: metadata={fileLen} bytes, read={bytes.length} bytes")
  let fileId := Blake3.hash bytes
  let contentHashHex := Blake3.toHex fileId.toList
  validateFileIdentityConsistency fileId contentHashHex
  let fileSizeBytes := UInt64.ofNat bytes.length
  let filename ← sanitizeFilename (fileNameOr file.path)
  let totalChunks ← expectedTotalChunks fileSizeBytes
  return ⟨fileId, fromWallet, toWallet, filename, fileSizeBytes, contentHashHex, totalChunks,
    millisOrZero now, bytes⟩

def message (file : SendFile) (idx : ℕ) (chunk : List UInt8) (now : Int64) : FileChunkMessage :=
  ⟨file.fileId, file.fromWallet, file.toWallet, if idx < 2^32 then UInt32.ofNat idx else 4294967295,
    file.totalChunks, file.filename, file.fileSizeBytes, file.contentHashHex, chunk,
    millisOrZero now⟩

/-- The clock is read once for every chunk. -/
def iterChunks (file : SendFile) (clock : ℕ → Int64) : List FileChunkMessage :=
  (chunks fileChunkSize file.bytes).mapIdx fun idx chunk => file.message idx chunk (clock idx)

end SendFile

/-! ### Receiving -/

structure IncomingFile where
  fileId : FileId
  fromWallet : String
  toWallet : String
  filename : String
  fileSizeBytes : UInt64
  contentHashHex : String
  totalChunks : UInt32
  receivedChunks : List (Option (List UInt8))
  receivedCount : UInt32
  receivedTotalBytes : UInt64

namespace IncomingFile

def fromFirstChunkChecked (now : Int64) (chunk : FileChunkMessage) : Fallible IncomingFile := do
  let m ← validateChunkMessageMetadata now chunk
  let totalChunks ← expectedTotalChunks chunk.fileSizeBytes
  return ⟨chunk.fileId, m.fromWallet, m.toWallet, m.filename, chunk.fileSizeBytes, m.contentHashHex,
    totalChunks, List.replicate totalChunks.toNat none, 0, 0⟩

/-- Metadata that does not pass is kept as far as it goes. -/
def fromFirstChunk (now : Int64) (chunk : FileChunkMessage) : IncomingFile :=
  match fromFirstChunkChecked now chunk with
  | .ok v => v
  | .error _ =>
    let safeTotalChunks := min chunk.totalChunks maxTotalChunks
    ⟨chunk.fileId, trim chunk.fromWallet, trim chunk.toWallet,
      (sanitizeFilename chunk.filename).toOption.getD "unnamed_file", chunk.fileSizeBytes,
      (canonicalizeContentHashHex chunk.contentHashHex).toOption.getD "",
      safeTotalChunks, List.replicate safeTotalChunks.toNat none, 0, 0⟩

def validateStateMetadata (s : IncomingFile) : Fallible Unit := do
  let _ ← canonicalizeWalletStr "from" s.fromWallet
  let _ ← canonicalizeWalletStr "to" s.toWallet
  rejectIf (s.fromWallet = s.toWallet)
    (validationErr "IncomingFile: from_wallet and to_wallet cannot be the same")
  let _ ← sanitizeFilename s.filename
  validateFileIdentityConsistency s.fileId s.contentHashHex
  rejectIf (s.fileSizeBytes = 0) (validationErr "IncomingFile: file_size_bytes cannot be zero")
  rejectIf (maxP2pFileBytes < s.fileSizeBytes.toNat) (validationErr
    s!"IncomingFile: declared file_size_bytes {s.fileSizeBytes} exceeds MAX_P2P_FILE_BYTES {maxP2pFileBytes}")
  rejectIf (s.totalChunks = 0 ∨ maxTotalChunks < s.totalChunks) (validationErr
    s!"IncomingFile: invalid total_chunks {s.totalChunks} (MAX_TOTAL_CHUNKS={maxTotalChunks})")
  let expectedChunks ← expectedTotalChunks s.fileSizeBytes
  rejectIf (expectedChunks ≠ s.totalChunks) (validationErr
    s!"IncomingFile: total_chunks {s.totalChunks} inconsistent with file_size_bytes {s.fileSizeBytes} (expected {expectedChunks})")
  rejectIf (s.receivedChunks.length ≠ s.totalChunks.toNat) (validationErr
    s!"IncomingFile: received_chunks len {s.receivedChunks.length} != total_chunks {s.totalChunks}")
  rejectIf (s.totalChunks < s.receivedCount) (validationErr
    s!"IncomingFile: received_count {s.receivedCount} exceeds total_chunks {s.totalChunks}")
  rejectIf (s.fileSizeBytes < s.receivedTotalBytes) (validationErr
    s!"IncomingFile: received_total_bytes {s.receivedTotalBytes} exceeds file_size_bytes {s.fileSizeBytes}")
  rejectIf (maxP2pFileBytes < s.receivedTotalBytes.toNat) (validationErr
    s!"IncomingFile: received_total_bytes {s.receivedTotalBytes} exceeds MAX_P2P_FILE_BYTES {maxP2pFileBytes}")

/-- The chunk must tell the same about the file as the first one did. -/
def validateSameFile (s : IncomingFile) (chunk : FileChunkMessage) (m : CanonicalChunkMeta) :
    Fallible Unit := do
  rejectIf (chunk.fileId ≠ s.fileId) (validationErr "IncomingFile: file_id mismatch on chunk")
  rejectIf (m.fromWallet ≠ s.fromWallet)
    (validationErr "IncomingFile: from_wallet mismatch on chunk")
  rejectIf (m.toWallet ≠ s.toWallet) (validationErr "IncomingFile: to_wallet mismatch on chunk")
  rejectIf (m.filename ≠ s.filename) (validationErr "IncomingFile: filename mismatch on chunk")
  rejectIf (chunk.totalChunks ≠ s.totalChunks)
    (validationErr "IncomingFile: total_chunks mismatch on chunk")
  rejectIf (chunk.fileSizeBytes ≠ s.fileSizeBytes)
    (validationErr "IncomingFile: file_size_bytes mismatch on chunk")
  rejectIf (m.contentHashHex ≠ s.contentHashHex)
    (validationErr "IncomingFile: content_hash_hex mismatch on chunk")

def storeChunk (s : IncomingFile) (chunk : FileChunkMessage) : Fallible IncomingFile := do
  let newTotal ← okOr
    (checkedAdd s.receivedTotalBytes (UInt64.ofNat chunk.chunkBytes.length))
    (validationErr "IncomingFile: received_total_bytes overflow")
  rejectIf (s.fileSizeBytes < newTotal) (validationErr
    s!"IncomingFile: cumulative chunk payload {newTotal} exceeds declared file_size_bytes {s.fileSizeBytes}")
  rejectIf (maxP2pFileBytes < newTotal.toNat) (validationErr
    s!"IncomingFile: cumulative chunk payload {newTotal} bytes would exceed MAX_P2P_FILE_BYTES {maxP2pFileBytes}")
  rejectIf (2^32 ≤ s.receivedCount.toNat + 1) (validationErr "IncomingFile: received_count overflow")
  return { s with
    receivedChunks := s.receivedChunks.set chunk.chunkIndex.toNat (some chunk.chunkBytes)
    receivedCount := s.receivedCount + 1
    receivedTotalBytes := newTotal }

-- The state check bounds the count, so nothing fails after the slot has been written.
def applyChunk (now : Int64) (chunk : FileChunkMessage) (s : IncomingFile) :
    Fallible IncomingFile := do
  s.validateStateMetadata
  let m ← validateChunkMessageMetadata now chunk
  s.validateSameFile chunk m
  let idx := chunk.chunkIndex.toNat
  rejectIf (s.receivedChunks.length ≤ idx) (validationErr
    s!"IncomingFile: chunk_index {idx} out of range (total_chunks={s.totalChunks})")
  match s.receivedChunks[idx]?.join with
  | some existing => do
    rejectIf (existing ≠ chunk.chunkBytes) (validationErr
      s!"IncomingFile: conflicting duplicate payload for chunk {chunk.chunkIndex}")
    return s
  | none => s.storeChunk chunk

def isComplete (s : IncomingFile) : Bool := s.receivedCount = s.totalChunks

/-- The chunks one after the other, as long as they fit. -/
def reconstruct : ℕ → List UInt8 → List (Option (List UInt8)) → Fallible (List UInt8)
  | _, allBytes, [] => .ok allBytes
  | i, allBytes, slot :: slots => do
    let chunk ← okOr slot (validationErr s!"IncomingFile: missing chunk {i}")
    rejectIf (maxP2pFileBytes < allBytes.length + chunk.length) (validationErr
      s!"IncomingFile: reconstructed size would exceed MAX_P2P_FILE_BYTES {maxP2pFileBytes} at chunk {i}")
    reconstruct (i+1) (allBytes ++ chunk) slots

def intoVerifiedBytes [Blake3] (s : IncomingFile) : Fallible (List UInt8) := do
  s.validateStateMetadata
  let actualPresent := s.receivedChunks.countP Option.isSome
  rejectIf (2^32 ≤ actualPresent) (validationErr
    s!"IncomingFile: actual present chunk count {actualPresent} cannot be represented as u32")
  rejectIf (UInt32.ofNat actualPresent ≠ s.receivedCount) (validationErr
    s!"IncomingFile: internal chunk accounting mismatch (received_count={s.receivedCount}, actual_present={actualPresent})")
  rejectIf (s.receivedCount ≠ s.totalChunks) (validationErr
    s!"IncomingFile: incomplete (have {s.receivedCount}, need {s.totalChunks})")
  let allBytes ← reconstruct 0 [] s.receivedChunks
  rejectIf (allBytes.length ≠ s.fileSizeBytes.toNat) (validationErr
    s!"IncomingFile: reconstructed size {allBytes.length} != expected {s.fileSizeBytes}")
  let hashHex := Blake3.toHex (Blake3.hash allBytes).toList
  rejectIf (hashHex ≠ s.contentHashHex) (validationErr
    s!"IncomingFile: BLAKE3 mismatch (got {hashHex}, expected {s.contentHashHex})")
  let fileIdHex := Blake3.toHex s.fileId.toList
  rejectIf (fileIdHex ≠ hashHex) (validationErr
    s!"IncomingFile: reconstructed digest {hashHex} does not match file_id {fileIdHex}")
  return allBytes

end IncomingFile

end Remzar
