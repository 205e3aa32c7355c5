import Mathlib
import Remzar.RockDB

/-! Blocks that pass their own validation: they survive storage, and a new root and signature
keep them valid. -/
namespace Remzar
open Fallible Postcard Text

/-! ### Storage round trip -/

theorem Block.validate_ok [Blake3] {b : Block} (h : b.validate = .ok ()) :
    b.metadata.validateStructural = .ok () ∧ b.metadata.validateSize = .ok () ∧
      b.validateMinerCanonical = .ok () ∧ validateBatchKeyBound b.batchKey "Block.batch_key" = .ok () ∧
      b.validateBlockHashNotZero = .ok () ∧ b.blockHash = b.computeBlockHash := by
  simp only [Block.validate, bind_eq_ok_iff, rejectIf_eq_ok_iff, not_not] at h
  obtain ⟨_, hstruct, _, hsize, _, hminer, _, hkey, _, hzero, hhash⟩ := h
  exact ⟨hstruct, hsize, hminer, hkey, hzero, hhash⟩

theorem Block.serializeForStorage_ok [Blake3] {b : Block} {bytes : List UInt8} :
    b.serializeForStorage = .ok bytes ↔
      b.validate = .ok () ∧ (codec.enc b).length ≤ maxBlockSize ∧ codec.enc b = bytes := by
  simp only [serializeForStorage, bind_eq_ok_iff, rejectIf_eq_ok_iff, pure_eq_ok_iff, Nat.not_lt]
  constructor
  · rintro ⟨_, hvalid, _, hlen, heq⟩
    exact ⟨hvalid, hlen, heq⟩
  · rintro ⟨hvalid, hlen, heq⟩
    exact ⟨(), hvalid, (), hlen, heq⟩

def BlockPuzzleProof.short (proof : BlockPuzzleProof) : Bool :=
  decide (byteLen proof.validator ≤ maxValidatorLen)

/-- The checks of a block without its hash and its encoding. -/
def Block.presentable (b : Block) : Bool :=
  succeeds b.metadata.validateStructural && succeeds b.validateMinerCanonical &&
    succeeds (validateBatchKeyBound b.batchKey "Block.batch_key") &&
    succeeds b.validateBlockHashNotZero && decide (minBlockSize ≤ b.metadata.size.toNat) &&
    decide (b.metadata.size.toNat ≤ maxBlockSize) && b.metadata.puzzleProof.all BlockPuzzleProof.short &&
    !(trim b.miner).isEmpty

theorem string_enc_length_le (t : String) : (string.enc t).length ≤ byteLen t + 10 := by
  have hlen : (usize.enc (utf8 t).length).length ≤ 10 := encodeVarint_length_le 10 _
  change (usize.enc (utf8 t).length ++ utf8 t).length ≤ (utf8 t).length + 10
  rw [List.length_append]
  omega

theorem u64_enc_length_le (n : UInt64) : (u64.enc n).length ≤ 10 := encodeVarint_length_le 10 n.toNat

/-- A header with no puzzle proof or a short one is short. -/
theorem BlockMetadata.enc_length_le {m : BlockMetadata}
    (h : m.puzzleProof.all BlockPuzzleProof.short = true) :
    (BlockMetadata.codec.enc m).length ≤ 4096 := by
  have hproof : ((option BlockPuzzleProof.codec).enc m.puzzleProof).length ≤ 400 := by
    rcases hm : m.puzzleProof with _ | proof
    · exact Nat.le_trans (Nat.le_of_eq rfl) (by decide : 1 ≤ 400)
    · rw [hm] at h
      have hshort : byteLen proof.validator ≤ maxValidatorLen := of_decide_eq_true h
      have hheight := u64_enc_length_le proof.height
      have hvalidator := string_enc_length_le proof.validator
      have houtput : (u128.enc proof.output.toNat).length ≤ 19 := encodeVarint_length_le 19 _
      change (u64.enc proof.height ++ (string.enc proof.validator ++
        (proof.prevBlockHash.toList ++ u128.enc proof.output.toNat))).length + 1 ≤ 400
      simp only [List.length_append, List.Vector.toList_length]
      rw [show maxValidatorLen = 256 from rfl] at hshort
      omega
  have hindex := u64_enc_length_le m.index
  have htime := u64_enc_length_le m.timestamp
  have hsize := u64_enc_length_le m.size
  change (u64.enc _ ++ (u64.enc _ ++ (m.previousHash.toList ++ (m.merkleRoot.toList ++
    (m.guardianSignature.toList ++ ((option BlockPuzzleProof.codec).enc m.puzzleProof ++
      u64.enc _)))))).length ≤ _
  simp only [List.length_append, List.Vector.toList_length]
  omega

theorem Block.enc_length_le {b : Block}
    (hproof : b.metadata.puzzleProof.all BlockPuzzleProof.short = true)
    (hkey : validateBatchKeyBound b.batchKey "Block.batch_key" = .ok ())
    (hminer : byteLen b.miner ≤ remzarWalletLen) :
    (Block.codec.enc b).length ≤ 4096 + (maxBatchKeyLen + 11) + (remzarWalletLen + 10) + 74 := by
  have hmeta := BlockMetadata.enc_length_le hproof
  have hreward := u64_enc_length_le b.reward
  have hminer' := string_enc_length_le b.miner
  have hkey' : ((option string).enc b.batchKey).length ≤ maxBatchKeyLen + 11 := by
    rcases hb : b.batchKey with _ | key
    · exact Nat.le_trans (Nat.le_of_eq rfl) (Nat.le_add_left 1 _)
    · rw [hb] at hkey
      have hbound := Nat.not_lt.mp ((rejectIf_eq_ok_iff _ _ _).mp hkey)
      have hlen := string_enc_length_le key
      change (string.enc key).length + 1 ≤ _
      omega
  change (BlockMetadata.codec.enc b.metadata ++ ((option string).enc b.batchKey ++
    (string.enc b.miner ++ (b.blockHash.toList ++ u64.enc b.reward)))).length ≤ _
  simp only [List.length_append, List.Vector.toList_length]
  omega

theorem validateBatchKeyBound_ok {key : Option String} {label : String} (label' : String)
    (h : Block.validateBatchKeyBound key label = .ok ()) :
    Block.validateBatchKeyBound key label' = .ok () ∧
      ∀ bk, key = some bk → byteLen bk ≤ maxBatchKeyLen := by
  cases key with
  | none => exact ⟨rfl, by simp⟩
  | some bk =>
    have hlen := (rejectIf_eq_ok_iff _ _ _).mp h
    refine ⟨rejectIf_of_not _ hlen, ?_⟩
    intro bk' hbk
    obtain rfl := Option.some.inj hbk
    exact Nat.not_lt.mp hlen

/-- A valid miner that is not blank is the canonical form of itself. -/
theorem Block.named_canonical {b : Block} (h : b.validateMinerCanonical = .ok ())
    (hnamed : (trim b.miner).isEmpty = false) :
    canonicalizeMinerForHeight b.miner b.metadata.index = .ok b.miner ∧
      byteLen b.miner ≤ remzarWalletLen := by
  have hmiss : ¬(trim b.miner).isEmpty = true := by
    rw [hnamed]
    exact Bool.false_ne_true
  rw [validateMinerCanonical, if_neg hmiss] at h
  simp only [bind_eq_ok_iff, rejectIf_eq_ok_iff, not_not] at h
  obtain ⟨canon, hcanon, _, rfl, hlen⟩ := h
  refine ⟨?_, Nat.not_lt.mp hlen⟩
  rw [canonicalizeMinerForHeight, if_neg hmiss, hcanon]
  simp only [ok_bind, rejectIf_of_not _ hlen]
  rfl

/-- Above genesis a valid miner is the canonical form of itself. -/
theorem Block.miner_canonical {b : Block} (h : b.validateMinerCanonical = .ok ())
    (hindex : b.metadata.index ≠ 0) :
    canonicalizeMinerForHeight b.miner b.metadata.index = .ok b.miner ∧
      byteLen b.miner ≤ remzarWalletLen := by
  apply named_canonical h
  by_contra hblank
  rw [validateMinerCanonical, if_pos (eq_true_of_ne_false hblank)] at h
  exact absurd ((rejectIf_eq_ok_iff _ _ _).mp h) (not_not.mpr hindex)

/-- The signature alone is longer than the least block. -/
theorem Block.minBlockSize_le (b : Block) : minBlockSize ≤ (Block.codec.enc b).length := by
  have hsig : b.metadata.guardianSignature.toList.length = 3309 := List.Vector.toList_length _
  change 64 ≤ ((u64.enc _ ++ (u64.enc _ ++ (_ ++ (_ ++ (b.metadata.guardianSignature.toList ++
    _))))) ++ _).length
  simp only [List.length_append]
  omega

/-- A block that fits into the database fits its codec: every text is part of the bytes. -/
theorem Block.fits_of_length (b : Block) (h : (Block.codec.enc b).length < 2^64) :
    Block.codec.Fits b := by
  change ((u64.enc _ ++ (u64.enc _ ++ (_ ++ (_ ++ (_ ++ ((option BlockPuzzleProof.codec).enc
    b.metadata.puzzleProof ++ u64.enc _)))))) ++ ((option string).enc b.batchKey ++
    (string.enc b.miner ++ _))).length < 2^64 at h
  simp only [List.length_append] at h
  have hminer := string_enc_length b.miner
  refine ⟨⟨trivial, trivial, trivial, trivial, trivial, ?_, trivial⟩, ?_, ?_, trivial, trivial⟩
  · intro proof hproof
    have hproof : b.metadata.puzzleProof = some proof := hproof
    have hvalidator := string_enc_length proof.validator
    have hlen : ((option BlockPuzzleProof.codec).enc b.metadata.puzzleProof).length =
        (u64.enc proof.height ++ (string.enc proof.validator ++ (proof.prevBlockHash.toList ++
          u128.enc proof.output.toNat))).length + 1 := by
      rw [hproof]
      rfl
    simp only [List.length_append] at hlen
    refine ⟨trivial, ?_, trivial, proof.output.isLt⟩
    change (utf8 proof.validator).length < 2^64
    omega
  · intro key hkey
    have hkey : b.batchKey = some key := hkey
    have hkeyText := string_enc_length key
    have hlen : ((option string).enc b.batchKey).length = (string.enc key).length + 1 := by
      rw [hkey]
      rfl
    change (utf8 key).length < 2^64
    omega
  · change (utf8 b.miner).length < 2^64
    omega

/-- What the checks of a presentable block have found. -/
theorem Block.presentable_iff {b : Block} : b.presentable = true ↔
    b.metadata.validateStructural = .ok () ∧ b.validateMinerCanonical = .ok () ∧
      validateBatchKeyBound b.batchKey "Block.batch_key" = .ok () ∧
      b.validateBlockHashNotZero = .ok () ∧ minBlockSize ≤ b.metadata.size.toNat ∧
      b.metadata.size.toNat ≤ maxBlockSize ∧
      b.metadata.puzzleProof.all BlockPuzzleProof.short = true ∧
      (trim b.miner).isEmpty = false := by
  have hunit : ∀ x : Fallible Unit, succeeds x = true ↔ x = .ok () := fun x =>
    (succeeds_iff x).trans ⟨fun ⟨_, h⟩ => h, fun h => ⟨(), h⟩⟩
  simp only [presentable, Bool.and_eq_true, decide_eq_true_eq, hunit, Bool.not_eq_true', and_assoc]

theorem Block.valid_of_presentable [Blake3] {b : Block} (h : b.presentable = true)
    (hhash : b.blockHash = b.computeBlockHash) : b.validate = .ok () := by
  obtain ⟨hstruct, hminer, hkey, hzero, hmin, hmax, hproof, -⟩ := presentable_iff.mp h
  have hsize : b.metadata.validateSize = .ok () := by
    simp only [BlockMetadata.validateSize, bind_eq_ok_iff, rejectIf_eq_ok_iff, Nat.not_lt]
    exact ⟨(), hmin, (), hmax, Nat.le_trans (BlockMetadata.enc_length_le hproof) (by decide)⟩
  simp only [validate, bind_eq_ok_iff, rejectIf_eq_ok_iff, not_not]
  exact ⟨(), hstruct, (), hsize, (), hminer, (), hkey, (), hzero, hhash⟩

theorem Block.enc_length_of_presentable {b : Block} (h : b.presentable = true) :
    (codec.enc b).length ≤ maxBlockSize := by
  obtain ⟨-, hminer, hkey, -, -, -, hproof, hnamed⟩ := presentable_iff.mp h
  exact Nat.le_trans (enc_length_le hproof hkey (named_canonical hminer hnamed).2) (by decide)

/-- The miner of a valid block in the form that is read back: blank texts of a genesis block
become empty. -/
theorem Block.canonical_miner {b : Block} (h : b.validateMinerCanonical = .ok ()) :
    ∃ canon, canonicalizeMinerForHeight b.miner b.metadata.index = .ok canon ∧
      canonicalizeMinerForHeight canon b.metadata.index = .ok canon ∧
      { b with miner := canon }.validateMinerCanonical = .ok () ∧
      (string.enc canon).length ≤ (string.enc b.miner).length := by
  by_cases hblank : (trim b.miner).isEmpty = true
  · have hindex : b.metadata.index = 0 := by
      rw [validateMinerCanonical, if_pos hblank] at h
      exact not_not.mp ((rejectIf_eq_ok_iff _ _ _).mp h)
    have hempty : (trim "").isEmpty = true := by decide
    refine ⟨"", ?_, ?_, ?_, ?_⟩
    · rw [canonicalizeMinerForHeight, if_pos hblank, if_pos hindex]
    · rw [canonicalizeMinerForHeight, if_pos hempty, if_pos hindex]
    · rw [validateMinerCanonical, if_pos hempty]
      exact rejectIf_of_not _ (not_not.mpr hindex)
    · have hone : (string.enc "").length = 1 := by decide
      rw [hone]
      apply List.length_pos_of_ne_nil
      intro hnil
      change usize.enc (utf8 b.miner).length ++ utf8 b.miner = [] at hnil
      exact encodeVarint_ne_nil _ _ (List.append_eq_nil_iff.mp hnil).1
  · have h' := h
    rw [validateMinerCanonical, if_neg hblank] at h'
    simp only [bind_eq_ok_iff, rejectIf_eq_ok_iff, not_not] at h'
    obtain ⟨canon, hcanon, _, rfl, hlen⟩ := h'
    have hself : canonicalizeMinerForHeight b.miner b.metadata.index = .ok b.miner := by
      rw [canonicalizeMinerForHeight, if_neg hblank, hcanon]
      simp only [ok_bind, rejectIf_of_not _ hlen]
      rfl
    exact ⟨b.miner, hself, hself, h, Nat.le_refl _⟩

theorem Block.deserialize_enc [Blake3] {b : Block} {canon : String} (hvalid : b.validate = .ok ())
    (hlen : (codec.enc b).length ≤ maxBlockSize)
    (hcanon : canonicalizeMinerForHeight b.miner b.metadata.index = .ok canon) :
    Block.deserializeFromStorage (codec.enc b) = .ok { b with miner := canon } := by
  obtain ⟨hstruct, hsize, -, hkey, hzero, -⟩ := Block.validate_ok hvalid
  have hstorage : validateStorageLen (codec.enc b) = .ok () := by
    rw [validateStorageLen, rejectIf_of_not _ (Nat.not_lt.mpr b.minBlockSize_le), ok_bind,
      rejectIf_of_not _ (Nat.not_lt.mpr hlen)]
  have hfits : codec.Fits b := b.fits_of_length (Nat.lt_of_le_of_lt hlen (by decide))
  have hkey' := (validateBatchKeyBound_ok "Block: batch_key" hkey).1
  have hzero' : { b with miner := canon }.validateBlockHashNotZero = .ok () := hzero
  rw [deserializeFromStorage, hstorage, ok_bind, fromBytes_enc codec b hfits]
  simp only [mapErr, ok_bind, hstruct, hsize, hcanon, hkey', hzero']
  rfl

/-- A presentable block that carries its own hash can be stored, and reads back as itself. -/
theorem Block.stored_of_presentable [Blake3] {b : Block} (h : b.presentable = true)
    (hhash : b.blockHash = b.computeBlockHash) :
    b.serializeForStorage = .ok (codec.enc b) ∧
      Block.deserializeFromStorage (codec.enc b) = .ok b := by
  have hvalid := valid_of_presentable h hhash
  have hlen := enc_length_of_presentable h
  obtain ⟨-, hminer, -, -, -, -, -, hnamed⟩ := presentable_iff.mp h
  exact ⟨serializeForStorage_ok.mpr ⟨hvalid, hlen, rfl⟩,
    deserialize_enc hvalid hlen (named_canonical hminer hnamed).1⟩

/-- What a valid block above genesis is stored as reads back as that block. -/
theorem Block.deserialize_serialize [Blake3] {b : Block} {bytes : List UInt8}
    (h : b.serializeForStorage = .ok bytes) (hindex : b.metadata.index ≠ 0) :
    Block.deserializeFromStorage bytes = .ok b := by
  obtain ⟨hvalid, hlen, rfl⟩ := Block.serializeForStorage_ok.mp h
  obtain ⟨-, -, hminer, -⟩ := Block.validate_ok hvalid
  exact Block.deserialize_enc hvalid hlen (Block.miner_canonical hminer hindex).1

/-- What a valid block is stored as reads back as a valid block with the same header and hash,
which from then on reads back as itself. -/
theorem Block.stored [Blake3] {b : Block} {bytes : List UInt8}
    (h : b.serializeForStorage = .ok bytes) :
    ∃ b' bytes', Block.deserializeFromStorage bytes = .ok b' ∧ b'.metadata = b.metadata ∧
      b'.blockHash = b.blockHash ∧ b'.serializeForStorage = .ok bytes' ∧
      Block.deserializeFromStorage bytes' = .ok b' := by
  obtain ⟨hvalid, hlen, rfl⟩ := Block.serializeForStorage_ok.mp h
  obtain ⟨hstruct, hsize, hminer, hkey, hzero, hhash⟩ := Block.validate_ok hvalid
  obtain ⟨canon, hcanon, hcanon', hminer', hshort⟩ := Block.canonical_miner hminer
  let b' : Block := { b with miner := canon }
  have hvalid' : b'.validate = .ok () := by
    simp only [Block.validate, bind_eq_ok_iff, rejectIf_eq_ok_iff, not_not]
    exact ⟨(), hstruct, (), hsize, (), hminer', (), hkey, (), hzero, hhash⟩
  have hlen' : (codec.enc b').length ≤ maxBlockSize := by
    apply Nat.le_trans _ hlen
    change (BlockMetadata.codec.enc b.metadata ++ ((option string).enc b.batchKey ++
        (string.enc canon ++ (pair (array 64) u64).enc (b.blockHash, b.reward)))).length ≤
      (BlockMetadata.codec.enc b.metadata ++ ((option string).enc b.batchKey ++
        (string.enc b.miner ++ (pair (array 64) u64).enc (b.blockHash, b.reward)))).length
    simp only [List.length_append]
    omega
  refine ⟨b', codec.enc b', Block.deserialize_enc hvalid hlen hcanon, rfl, rfl, ?_, ?_⟩
  · exact Block.serializeForStorage_ok.mpr ⟨hvalid', hlen', rfl⟩
  · exact Block.deserialize_enc hvalid' hlen' hcanon'

/-! ### A new root and signature -/

/-- The same header over other transactions. -/
def BlockMetadata.reseal (m : BlockMetadata) (root : Hash) (sig : SignatureArray) :
    BlockMetadata :=
  { m with merkleRoot := root, guardianSignature := sig }

theorem BlockMetadata.enc_reseal_length (m : BlockMetadata) (root : Hash) (sig : SignatureArray) :
    (BlockMetadata.codec.enc (m.reseal root sig)).length = (BlockMetadata.codec.enc m).length := by
  have hroot : root.toList.length = m.merkleRoot.toList.length := by
    rw [List.Vector.toList_length, List.Vector.toList_length]
  have hsig : sig.toList.length = m.guardianSignature.toList.length := by
    rw [List.Vector.toList_length, List.Vector.toList_length]
  change (_ ++ (_ ++ (_ ++ (root.toList ++ (sig.toList ++ _))))).length =
    (_ ++ (_ ++ (_ ++ (m.merkleRoot.toList ++ (m.guardianSignature.toList ++ _))))).length
  simp only [List.length_append, hroot, hsig]
  rfl

theorem BlockMetadata.reseal_valid {m : BlockMetadata} {root : Hash} {sig : SignatureArray}
    (h : m.validateStructural = .ok ()) (hindex : m.index ≠ 0) (hzero : root ≠ zeroHash)
    (hprev : root ≠ m.previousHash) (hsig : sig ≠ zeroSignature) :
    (m.reseal root sig).validateStructural = .ok () := by
  simp only [validateStructural, if_neg hindex, validateNonGenesis, bind_eq_ok_iff,
    rejectIf_eq_ok_iff] at h
  obtain ⟨_, hbounds, _, hsmall, _, hunix, _, hmin, _, -, _, hparent, _, -, _, -, hproof⟩ := h
  have hindex' : (m.reseal root sig).index ≠ 0 := hindex
  simp only [validateStructural, if_neg hindex', validateNonGenesis, bind_eq_ok_iff,
    rejectIf_eq_ok_iff]
  exact ⟨(), hbounds, (), hsmall, (), hunix, (), hmin, (), hzero, (), hparent, (), hsig, (), hprev,
    hproof⟩

theorem BlockMetadata.reseal_size {m : BlockMetadata} (root : Hash) (sig : SignatureArray)
    (h : m.validateSize = .ok ()) : (m.reseal root sig).validateSize = .ok () := by
  simp only [validateSize, bind_eq_ok_iff, rejectIf_eq_ok_iff] at h ⊢
  obtain ⟨_, hmin, _, hmax, hlen⟩ := h
  refine ⟨(), hmin, (), hmax, ?_⟩
  rw [m.enc_reseal_length]
  exact hlen

/-- What `Block::new` has checked. -/
theorem Block.new_ok [Blake3] {m : BlockMetadata} {key : Option String} {miner : String}
    {reward : UInt64} {b : Block} :
    Block.new m key miner reward = .ok b ↔
      validateBatchKeyBound key "Block.batch_key" = .ok () ∧ m.validateStructural = .ok () ∧
        m.validateSize = .ok () ∧ ∃ canon, canonicalizeMinerForHeight miner m.index = .ok canon ∧
          b = ⟨m, key, canon, Blake3.xof64 (hashPreimage m key reward), reward⟩ := by
  simp only [Block.new, bind_eq_ok_iff, pure_eq_ok_iff]
  constructor
  · rintro ⟨_, hkey, _, hstruct, _, hsize, canon, hcanon, rfl⟩
    exact ⟨hkey, hstruct, hsize, canon, hcanon, rfl⟩
  · rintro ⟨hkey, hstruct, hsize, canon, hcanon, rfl⟩
    exact ⟨(), hkey, (), hstruct, (), hsize, canon, hcanon, rfl⟩

theorem Block.enc_length_congr {m m' : BlockMetadata}
    (h : (BlockMetadata.codec.enc m).length = (BlockMetadata.codec.enc m').length)
    (key : Option String) (miner : String) (hash hash' : Hash) (reward : UInt64) :
    (codec.enc ⟨m, key, miner, hash, reward⟩).length =
      (codec.enc ⟨m', key, miner, hash', reward⟩).length := by
  have hhash : hash.toList.length = hash'.toList.length := by
    rw [List.Vector.toList_length, List.Vector.toList_length]
  change (_ ++ (_ ++ (_ ++ (hash.toList ++ _)))).length =
    (_ ++ (_ ++ (_ ++ (hash'.toList ++ _)))).length
  simp only [List.length_append, hhash, Nat.add_right_cancel_iff]
  exact h

/-- If a header makes a block that can be stored, so does the same header over other
transactions, unless the new hashes are sentinels. -/
theorem Block.reseal_stored [Blake3] {m : BlockMetadata} {key : Option String} {miner : String}
    {reward : UInt64} {b : Block} {bytes : List UInt8} (hnew : Block.new m key miner reward = .ok b)
    (hstored : b.serializeForStorage = .ok bytes) (hindex : m.index ≠ 0) {root : Hash}
    {sig : SignatureArray} (hzero : root ≠ zeroHash) (hprev : root ≠ m.previousHash)
    (hsig : sig ≠ zeroSignature)
    (hhash : Blake3.xof64 (hashPreimage (m.reseal root sig) key reward) ≠ zeroHash) :
    ∃ b' bytes', Block.new (m.reseal root sig) key miner reward = .ok b' ∧
      b'.serializeForStorage = .ok bytes' ∧ b'.metadata = m.reseal root sig ∧
      b'.blockHash = Blake3.xof64 (hashPreimage (m.reseal root sig) key reward) := by
  obtain ⟨hkey, hstruct, hsize, canon, hcanon, rfl⟩ := Block.new_ok.mp hnew
  obtain ⟨hvalid, hlen, -⟩ := Block.serializeForStorage_ok.mp hstored
  obtain ⟨-, -, hminer, -, -, -⟩ := Block.validate_ok hvalid
  have hstruct' := BlockMetadata.reseal_valid hstruct hindex hzero hprev hsig
  have hsize' := BlockMetadata.reseal_size root sig hsize
  refine ⟨_, _, Block.new_ok.mpr ⟨hkey, hstruct', hsize', canon, hcanon, rfl⟩,
    Block.serializeForStorage_ok.mpr ⟨?_, ?_, rfl⟩, rfl, rfl⟩
  · simp only [Block.validate, bind_eq_ok_iff, rejectIf_eq_ok_iff, not_not]
    refine ⟨(), hstruct', (), hsize', (), hminer, (), hkey, (), ?_, rfl⟩
    exact rejectIf_of_not _ fun h => hhash h.2
  · exact Nat.le_trans (Nat.le_of_eq (Block.enc_length_congr (m.enc_reseal_length root sig) key
      canon _ _ reward)) hlen

end Remzar
