import Mathlib
import Remzar.Lib.Prefix
import Remzar.Chain

/-! The stored form of a block and its two decoders. One of them looks at the bytes that follow
the block, the other never gets to see them. -/
namespace Remzar
open Fallible Postcard Text
namespace Block

def normalizeAndValidateAfterDecode (b : Block) : Fallible Block := do
  b.metadata.validateStructural
  b.metadata.validateSize
  let miner ← canonicalizeMinerForHeight b.miner b.metadata.index
  validateBatchKeyBound b.batchKey "Block: batch_key"
  let b := { b with miner := miner }
  b.validateBlockHashNotZero
  return b

/-- The block, the size of its encoding and the size of the data. -/
def deserializeWithSizes (data : List UInt8) : Fallible (Block × ℕ × ℕ) := do
  validateStorageLen data
  let (b, rest) ← mapErr (fun e => .serializationError
    s!"Deserialize block (postcard with size tracking): {e.describe}") (takeFromBytes codec data)
  rejectIf (rest.any fun trailingByte => trailingByte ≠ 0) (.serializationError (
    "Deserialize block failed: non-zero trailing bytes after postcard payload: " ++
      s!"{rest.length} bytes"))
  let actual := data.length-rest.length
  let b ← b.normalizeAndValidateAfterDecode
  rejectIf (actual = 0) (.serializationError "Decoded block size computed as 0 bytes; corrupt padding?")
  return (b, actual, data.length)

/-! ### What the decoders accept -/

theorem codec_rest {data rest : List UInt8} {b : Block}
    (h : codec.dec data = .ok (b, rest)) : rest.length < data.length := by
  have hproof : BlockPuzzleProof.codec.LeavesSuffix := record_leavesSuffix
    (pair_leavesSuffix u64_leavesSuffix (pair_leavesSuffix string_leavesSuffix
      (pair_leavesSuffix (array_leavesSuffix 64) u128_leavesSuffix)))
  have hheader := pair_leavesSuffix u64_leavesSuffix (pair_leavesSuffix (array_leavesSuffix 64)
    (pair_leavesSuffix (array_leavesSuffix 64) (pair_leavesSuffix (array_leavesSuffix 3309)
      (pair_leavesSuffix (option_leavesSuffix hproof) u64_leavesSuffix))))
  have hbody := pair_leavesSuffix (option_leavesSuffix string_leavesSuffix)
    (pair_leavesSuffix string_leavesSuffix
      (pair_leavesSuffix (array_leavesSuffix 64) u64_leavesSuffix))
  obtain ⟨fields, hfields, -⟩ := record_dec h
  obtain ⟨more, hmeta, hmore⟩ := pair_dec hfields
  obtain ⟨header, hmeta, -⟩ := record_dec hmeta
  obtain ⟨afterIndex, hindex, hrest⟩ := pair_dec hmeta
  calc rest.length ≤ more.length := (hbody hmore).length_le
    _ ≤ afterIndex.length := (hheader hrest).length_le
    _ < data.length := (u64_rest hindex).2

theorem deserializeFromStorage_ok_iff {data : List UInt8} {block : Block} :
    deserializeFromStorage data = .ok block ↔ validateStorageLen data = .ok () ∧
      ∃ b rest, takeFromBytes codec data = .ok (b, rest) ∧
        b.normalizeAndValidateAfterDecode = .ok block := by
  have heq : deserializeFromStorage data = (do
      validateStorageLen data
      let b ← mapErr (fun e => .serializationError
        s!"Deserialize block (postcard padded fallback): {e.describe}") (fromBytes codec data)
      b.normalizeAndValidateAfterDecode) := rfl
  simp only [heq, bind_eq_ok_iff, mapErr_eq_ok_iff]
  cases hdec : codec.dec data with
  | error e =>
    have htake : takeFromBytes codec data = .error e := hdec
    have hfrom : fromBytes codec data = .error e := by
      simp only [fromBytes, hdec]
      rfl
    simp [htake, hfrom]
  | ok r =>
    obtain ⟨b, rest⟩ := r
    have htake : takeFromBytes codec data = .ok (b, rest) := hdec
    have hfrom : fromBytes codec data = .ok b := by
      simp only [fromBytes, hdec]
      rfl
    simp [htake, hfrom, Unique.exists_iff]

theorem deserializeWithSizes_ok_iff {data : List UInt8} {block : Block} {actual stored : ℕ} :
    deserializeWithSizes data = .ok (block, actual, stored) ↔ validateStorageLen data = .ok () ∧
      ∃ b rest, takeFromBytes codec data = .ok (b, rest) ∧ (∀ t ∈ rest, t = 0) ∧
        b.normalizeAndValidateAfterDecode = .ok block ∧ data.length-rest.length = actual ∧
        data.length = stored := by
  simp only [deserializeWithSizes, bind_eq_ok_iff, mapErr_eq_ok_iff, rejectIf_eq_ok_iff,
    pure_eq_ok_iff, Prod.exists, Prod.mk.injEq, List.any_eq_true, decide_eq_true_eq, not_exists,
    not_and, not_not]
  constructor
  · rintro ⟨_, hlen, b, rest, htake, _, hzero, block', hblock, _, -, rfl, rfl, rfl⟩
    exact ⟨hlen, b, rest, htake, hzero, hblock, rfl, rfl⟩
  · rintro ⟨hlen, b, rest, htake, hzero, hblock, rfl, rfl⟩
    have hrest := codec_rest htake
    exact ⟨(), hlen, b, rest, htake, (), hzero, block, hblock, (), by omega, rfl, rfl, rfl⟩

/-! ### When the decoders agree -/

/-- Either nothing but zeros follows the block, or the block is refused. -/
def zeroPadded (data : List UInt8) : Bool :=
  !succeeds (validateStorageLen data) ||
    match takeFromBytes codec data with
    | .ok (b, rest) => (rest.all fun t => t = 0) || !succeeds b.normalizeAndValidateAfterDecode
    | .error _ => true

theorem zeroPadded_iff {data : List UInt8} : zeroPadded data = true ↔
    ∀ block b rest, validateStorageLen data = .ok () → takeFromBytes codec data = .ok (b, rest) →
      b.normalizeAndValidateAfterDecode = .ok block → ∀ t ∈ rest, t = 0 := by
  have hrefused : ∀ {α : Type} (x : Fallible α), (!succeeds x) = true ↔ ∀ a, x ≠ .ok a := by
    intro α x
    rw [Bool.not_eq_true', ← Bool.not_eq_true, succeeds_iff, not_exists]
  rw [zeroPadded, Bool.or_eq_true, hrefused]
  cases htake : takeFromBytes codec data with
  | error e =>
    constructor
    · intro _ block b rest _ hread
      cases hread
    · exact fun _ => .inr rfl
  | ok r =>
    obtain ⟨b, rest⟩ := r
    simp only [Bool.or_eq_true, List.all_eq_true, decide_eq_true_eq, hrefused]
    constructor
    · rintro (hlen | hzero | hblock) block b' rest' hlen' hread hblock'
      · exact absurd hlen' (hlen ())
      · cases hread
        exact hzero
      · cases hread
        exact absurd hblock' (hblock block)
    · intro h
      by_cases hlen : validateStorageLen data = .ok ()
      · right
        by_cases hblock : ∃ block, b.normalizeAndValidateAfterDecode = .ok block
        · obtain ⟨block, hblock⟩ := hblock
          exact .inl (h block b rest hlen rfl hblock)
        · exact .inr fun block hok => hblock ⟨block, hok⟩
      · exact .inl fun _ => hlen

theorem decoders_agree_iff {data : List UInt8} :
    (∀ block, deserializeFromStorage data = .ok block ↔
      ∃ actual stored, deserializeWithSizes data = .ok (block, actual, stored)) ↔
      zeroPadded data = true := by
  rw [zeroPadded_iff]
  constructor
  · intro h block b rest hlen htake hblock
    have hread := deserializeFromStorage_ok_iff.mpr ⟨hlen, b, rest, htake, hblock⟩
    obtain ⟨actual, stored, hsized⟩ := (h block).mp hread
    obtain ⟨-, b', rest', htake', hzero, -⟩ := deserializeWithSizes_ok_iff.mp hsized
    rw [htake] at htake'
    cases htake'
    exact hzero
  · intro h block
    constructor
    · intro hread
      obtain ⟨hlen, b, rest, htake, hblock⟩ := deserializeFromStorage_ok_iff.mp hread
      exact ⟨_, _, deserializeWithSizes_ok_iff.mpr
        ⟨hlen, b, rest, htake, h block b rest hlen htake hblock, hblock, rfl, rfl⟩⟩
    · rintro ⟨actual, stored, hsized⟩
      obtain ⟨hlen, b, rest, htake, -, hblock, -⟩ := deserializeWithSizes_ok_iff.mp hsized
      exact deserializeFromStorage_ok_iff.mpr ⟨hlen, b, rest, htake, hblock⟩

/-! ### The round trip -/

/-- A blank miner other than the empty text is not read back. -/
def plainMiner (b : Block) : Bool := !(trim b.miner).isEmpty || b.miner = ""

theorem read_back_iff [Blake3] {b : Block} (hvalid : b.validate = .ok ())
    (hlen : (codec.enc b).length ≤ maxBlockSize) :
    (∃ bytes, b.serializeForStorage = .ok bytes ∧ deserializeFromStorage bytes = .ok b) ↔
      b.plainMiner = true := by
  have hstored := serializeForStorage_ok.mpr ⟨hvalid, hlen, rfl⟩
  obtain ⟨-, -, hminer, -⟩ := validate_ok hvalid
  have hiff : (∃ bytes, b.serializeForStorage = .ok bytes ∧ deserializeFromStorage bytes = .ok b) ↔
      canonicalizeMinerForHeight b.miner b.metadata.index = .ok b.miner := by
    obtain ⟨canon, hcanon, -⟩ := canonical_miner hminer
    have hread := deserialize_enc hvalid hlen hcanon
    rw [hstored, hcanon]
    constructor
    · rintro ⟨bytes, hbytes, hback⟩
      cases hbytes
      rw [hread] at hback
      have hmine := congrArg Block.miner (Except.ok.inj hback)
      exact congrArg Except.ok hmine
    · intro hmine
      obtain rfl := Except.ok.inj hmine
      exact ⟨_, rfl, hread⟩
  rw [hiff, plainMiner, Bool.or_eq_true, Bool.not_eq_true', decide_eq_true_eq]
  by_cases hblank : (trim b.miner).isEmpty = true
  · have hindex : b.metadata.index = 0 := by
      rw [validateMinerCanonical, if_pos hblank] at hminer
      exact not_not.mp ((rejectIf_eq_ok_iff _ _ _).mp hminer)
    rw [canonicalizeMinerForHeight, if_pos hblank, if_pos hindex, hblank]
    constructor
    · exact fun h => .inr (Except.ok.inj h).symm
    · rintro (h | h)
      · cases h
      · rw [h]
  · have hnamed := eq_false_of_ne_true hblank
    exact iff_of_true (named_canonical hminer hnamed).1 (.inl hnamed)

/-- A block comes back from storage, and the two decoders agree on a byte string, exactly when the
miner is not a blank text and only zeros follow a block that is accepted. -/
theorem stored_format_iff [Blake3] (b : Block) (data : List UInt8) :
    ((b.validate = .ok () → (codec.enc b).length ≤ maxBlockSize →
        ∃ bytes, b.serializeForStorage = .ok bytes ∧ deserializeFromStorage bytes = .ok b) ∧
      (∀ block, deserializeFromStorage data = .ok block ↔
        ∃ actual stored, deserializeWithSizes data = .ok (block, actual, stored)) ∧
      (∀ b' rest, codec.Fits b' → data = codec.enc b' ++ rest → (∃ t ∈ rest, t ≠ 0) →
        succeeds (deserializeFromStorage data) = false ∧
          succeeds (deserializeWithSizes data) = false)) ↔
      (b.validate = .ok () → (codec.enc b).length ≤ maxBlockSize → b.plainMiner = true) ∧
        zeroPadded data = true := by
  constructor
  · rintro ⟨hback, hagree, -⟩
    exact ⟨fun hvalid hlen => (read_back_iff hvalid hlen).mp (hback hvalid hlen),
      decoders_agree_iff.mp hagree⟩
  · rintro ⟨hminer, hpadded⟩
    have hagree := decoders_agree_iff.mpr hpadded
    refine ⟨fun hvalid hlen => (read_back_iff hvalid hlen).mpr (hminer hvalid hlen), hagree, ?_⟩
    rintro b' rest hfits rfl ⟨t, ht, hne⟩
    have htake : takeFromBytes codec (codec.enc b' ++ rest) = .ok (b', rest) :=
      codec.dec_enc b' rest hfits
    have hread : ¬∃ block, deserializeFromStorage (codec.enc b' ++ rest) = .ok block := by
      rintro ⟨block, hblock⟩
      obtain ⟨hlen, b₁, rest₁, htake₁, hnormal⟩ := deserializeFromStorage_ok_iff.mp hblock
      rw [htake] at htake₁
      cases htake₁
      exact hne (zeroPadded_iff.mp hpadded block b' rest hlen htake hnormal t ht)
    have hsized : ¬∃ r, deserializeWithSizes (codec.enc b' ++ rest) = .ok r := by
      rintro ⟨⟨block, actual, stored⟩, hblock⟩
      exact hread ⟨block, (hagree block).mpr ⟨actual, stored, hblock⟩⟩
    rw [← Bool.not_eq_true, ← Bool.not_eq_true, succeeds_iff, succeeds_iff]
    exact ⟨hread, hsized⟩

open Sample in
/-- One byte after the block: the first decoder ignores it, the second refuses the data. -/
theorem trailing_byte_accepted :
    ¬∀ data block, deserializeFromStorage data = .ok block ↔
      ∃ actual stored, deserializeWithSizes data = .ok (block, actual, stored) := by
  intro h
  have hagree := decoders_agree_iff.mp (h (codec.enc emptyBlock1 ++ [1]))
  have hlen : validateStorageLen (codec.enc emptyBlock1 ++ [1]) = .ok () := by decide +kernel
  have hnormal : emptyBlock1.normalizeAndValidateAfterDecode = .ok emptyBlock1 := by
    decide +kernel
  have hfits : codec.Fits emptyBlock1 := by
    apply fits_of_length
    decide +kernel
  have hzero := zeroPadded_iff.mp hagree _ _ _ hlen (codec.dec_enc emptyBlock1 [1] hfits) hnormal 1
    (List.mem_singleton_self 1)
  cases hzero

end Block
end Remzar
