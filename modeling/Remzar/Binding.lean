import Mathlib
import Remzar.Chain
import Remzar.ForkGraph

/-! What the hashes of the chain bind: which fields two blocks with one hash preimage share, and
which transaction lists have one Merkle preimage. -/
namespace Remzar
open Fallible Postcard Text

/-! ### Block hashes -/

/-- The text whose hash stands for a batch key. -/
def batchKeyText (batchKey : Option String) : List UInt8 :=
  match batchKey with
  | some bk => if bk = "" then asciiBytes "remzar_empty_block_mint" else utf8 bk
  | none => asciiBytes "remzar_empty_block_mint"

def Block.preimage [Blake3] (b : Block) : List UInt8 := hashPreimage b.metadata b.batchKey b.reward

theorem Block.preimage_eq [Blake3] (b : Block) :
    b.preimage = b.metadata.previousHash.toList ++ (b.metadata.merkleRoot.toList ++
      (b.metadata.guardianSignature.toList ++ (u64Be b.reward ++
        (Blake3.xof64 (batchKeyText b.batchKey)).toList))) := by
  obtain ⟨m, key, miner, hash, reward⟩ := b
  cases key with
  | none => simp only [preimage, hashPreimage, batchKeyText, List.append_assoc]
  | some bk =>
    by_cases hempty : bk = ""
    · simp only [preimage, hashPreimage, batchKeyText, if_pos hempty, List.append_assoc]
    · simp only [preimage, hashPreimage, batchKeyText, if_neg hempty, List.append_assoc]

theorem vector_append_inj {n : ℕ} {a b : List.Vector UInt8 n} {rest rest' : List UInt8}
    (h : a.toList ++ rest = b.toList ++ rest') : a = b ∧ rest = rest' := by
  obtain ⟨hlist, hrest⟩ := List.append_inj h (by rw [a.toList_length, b.toList_length])
  exact ⟨Subtype.ext hlist, hrest⟩

/-- Blocks with one preimage agree on their parent, their Merkle root, their signature and their
reward, and on their batch keys up to the text that stands for a missing one. Height, timestamp,
miner and puzzle proof are outside the preimage. -/
theorem block_hash_binds [Blake3] (b b' : Block) (h : b.preimage = b'.preimage)
    (hkeys : Blake3.xof64 (batchKeyText b.batchKey) = Blake3.xof64 (batchKeyText b'.batchKey) →
      batchKeyText b.batchKey = batchKeyText b'.batchKey) :
    b.metadata.previousHash = b'.metadata.previousHash ∧
      b.metadata.merkleRoot = b'.metadata.merkleRoot ∧
      b.metadata.guardianSignature = b'.metadata.guardianSignature ∧
      b.reward = b'.reward ∧ batchKeyText b.batchKey = batchKeyText b'.batchKey := by
  rw [b.preimage_eq, b'.preimage_eq] at h
  obtain ⟨hprevious, h⟩ := vector_append_inj h
  obtain ⟨hroot, h⟩ := vector_append_inj h
  obtain ⟨hsignature, h⟩ := vector_append_inj h
  obtain ⟨hreward, h⟩ := List.append_inj h (by rw [u64Be_length, u64Be_length])
  refine ⟨hprevious, hroot, hsignature, ?_, hkeys (Subtype.ext h)⟩
  rw [← decode_u64Be b.reward, ← decode_u64Be b'.reward, hreward]

namespace Sample

/-- `emptyBlock1` under another height, another time and another miner. -/
def disguisedBlock1 : Block :=
  { emptyBlock1 with
    metadata := { emptyBlock1.metadata with index := 2, timestamp := 1700000031 }
    miner := String.ofList ('r' :: List.replicate 128 'b') }

theorem disguisedBlock1_valid : @Block.validate Blake3.reference emptyBlock1 = .ok () ∧
    @Block.validate Blake3.reference disguisedBlock1 = .ok () := by
  rw [← cached_log]
  decide +kernel

end Sample

theorem block_hash_binds_disguised :
    Sample.emptyBlock1.metadata.merkleRoot = Sample.disguisedBlock1.metadata.merkleRoot :=
  (@block_hash_binds Blake3.reference Sample.emptyBlock1 Sample.disguisedBlock1 rfl
    fun _ => rfl).2.1

/-- Two valid blocks with one preimage and different heights, times and miners. -/
theorem block_hash_leaves_height_open :
    @Block.validate Blake3.reference Sample.emptyBlock1 = .ok () ∧
      @Block.validate Blake3.reference Sample.disguisedBlock1 = .ok () ∧
      @Block.preimage Blake3.reference Sample.emptyBlock1 =
        @Block.preimage Blake3.reference Sample.disguisedBlock1 ∧
      Sample.emptyBlock1.metadata.index ≠ Sample.disguisedBlock1.metadata.index ∧
      Sample.emptyBlock1.metadata.timestamp ≠ Sample.disguisedBlock1.metadata.timestamp ∧
      Sample.emptyBlock1.miner ≠ Sample.disguisedBlock1.miner :=
  ⟨Sample.disguisedBlock1_valid.1, Sample.disguisedBlock1_valid.2, rfl, by decide, by decide,
    by decide +kernel⟩

/-! ### Wallets as bytes -/

/-- A trimmed text is a part of the text. -/
theorem trim_split (s : String) : ∃ before after, utf8 s = before ++ (utf8 (trim s) ++ after) := by
  have hstart := List.takeWhile_append_dropWhile (p := isWhitespace) (l := chars s)
  have hend := List.takeWhile_append_dropWhile (p := isWhitespace)
    (l := ((chars s).dropWhile isWhitespace).reverse)
  have hmiddle : (chars s).dropWhile isWhitespace = trimChars (chars s) ++
      (((chars s).dropWhile isWhitespace).reverse.takeWhile isWhitespace).reverse := by
    rw [trimChars, dropEndWhile, ← List.reverse_append, hend, List.reverse_reverse]
  refine ⟨((chars s).takeWhile isWhitespace).flatMap String.utf8EncodeChar,
    (((chars s).dropWhile isWhitespace).reverse.takeWhile isWhitespace).reverse.flatMap
      String.utf8EncodeChar, ?_⟩
  rw [utf8_eq, utf8_eq, trim, String.toList_ofList, ← List.flatMap_append, ← hmiddle,
    ← List.flatMap_append, hstart, chars_eq]

/-- A text that is as long after trimming is the trimmed text. -/
theorem trim_of_byteLen {s : String} (h : byteLen (trim s) = byteLen s) : trim s = s := by
  obtain ⟨before, after, hsplit⟩ := trim_split s
  have hlen := congrArg List.length hsplit
  rw [List.length_append, List.length_append] at hlen
  have hbefore : before = [] := List.length_eq_zero_iff.mp (by unfold byteLen at h; omega)
  have hafter : after = [] := List.length_eq_zero_iff.mp (by unfold byteLen at h; omega)
  rw [hbefore, hafter, List.append_nil, List.nil_append] at hsplit
  exact utf8_injective hsplit.symm

/-- The bytes of a canonical wallet. -/
structure WalletBytes (bytes : List UInt8) : Prop where
  length : bytes.length = 129
  head : bytes.head? = some 114
  hex : ∀ b ∈ bytes.tail, isLowerHex b = true

theorem isLowerHex_range {b : UInt8} (h : isLowerHex b = true) :
    (48 ≤ b.toNat ∧ b.toNat ≤ 57) ∨ (97 ≤ b.toNat ∧ b.toNat ≤ 102) := by
  simp only [isLowerHex, Bool.or_eq_true, Bool.and_eq_true, decide_eq_true_eq,
    UInt8.le_iff_toNat_le] at h
  exact h

theorem WalletBytes.at {bytes : List UInt8} (h : WalletBytes bytes) {i : ℕ} (hi : i < 128) :
    ∃ b, bytes.drop (i+1) = b :: bytes.drop (i+2) ∧ isLowerHex b = true := by
  have hlen := h.length
  have hlt : i+1 < bytes.length := by omega
  refine ⟨bytes[i+1], List.drop_eq_getElem_cons hlt, h.hex _ ?_⟩
  rw [List.mem_iff_getElem]
  exact ⟨i, by rw [List.length_tail]; omega, List.getElem_tail _⟩

theorem parseWalletAddressBytes_wallet {bytes : List UInt8} {s : String}
    (h : parseWalletAddressBytes bytes = .ok s) : WalletBytes bytes := by
  simp only [parseWalletAddressBytes, parseWalletAddress, bind_eq_ok_iff, rejectIf_eq_ok_iff,
    okOr_eq_ok_iff, pure_eq_ok_iff, not_not] at h
  obtain ⟨_, hlen, _, -, s', hs, _, ⟨_, htrim, _, hhead, hhex⟩, -⟩ := h
  have hutf8 : utf8 s' = bytes := utf8_of_fromUtf8 hs
  have hsame : trim s' = s' := by
    apply trim_of_byteLen
    rw [htrim, byteLen, hutf8, hlen]
  rw [hsame, hutf8] at hhead hhex
  exact ⟨hlen, hhead, List.all_eq_true.mp hhex⟩

/-- A wallet id in canonical form, as it is printed. -/
def CanonicalId (wallet : String) : Prop :=
  byteLen wallet = remzarWalletLen ∧ canonWalletIdChecked wallet = .ok wallet

theorem CanonicalId.wallet {wallet : String} (h : CanonicalId wallet) : WalletBytes (utf8 wallet) := by
  obtain ⟨hlen, hcanon⟩ := h
  simp only [canonWalletIdChecked, bind_eq_ok_iff, rejectIf_eq_ok_iff, pure_eq_ok_iff, not_not] at hcanon
  obtain ⟨_, -, _, hhead, _, hhex, hlower⟩ := hcanon
  rw [hlower] at hhead hhex
  exact ⟨hlen, hhead, List.all_eq_true.mp hhex⟩

theorem canonWalletFromBytes_wallet {bytes : List UInt8} {wallet : WalletArray}
    (h : canonWalletFromBytes bytes = .ok wallet) : WalletBytes wallet.toList := by
  simp only [canonWalletFromBytes, canonWalletFromStr, canonWalletIdChecked, bind_eq_ok_iff,
    rejectIf_eq_ok_iff, okOr_eq_ok_iff, pure_eq_ok_iff, not_not] at h
  obtain ⟨_, -, _, -, s, -, canon, ⟨_, -, _, hhead, _, hhex, rfl⟩, harray⟩ := h
  have hlist : wallet.toList = utf8 (toAsciiLowercase (trim s)) := by
    unfold toWalletArray at harray
    split at harray
    · rw [← Option.some.inj harray]
      rfl
    · cases harray
  refine ⟨wallet.toList_length, ?_, ?_⟩
  · rw [hlist]
    exact hhead
  · rw [hlist]
    exact List.all_eq_true.mp hhex

/-! ### Leaves -/

/-- A timestamp of the permitted range takes at most six bytes. -/
theorem timestamp_length {label : String} {ts : UInt64} (h : validateUnixSecsStructural label ts = .ok ()) :
    (u64.enc ts).length ≤ 6 := by
  simp only [validateUnixSecsStructural, bind_eq_ok_iff, rejectIf_eq_ok_iff] at h
  obtain ⟨-, -, hbound⟩ := h
  have hlt : ts.toNat < 128^(5+1) := by
    have hle : ts.toNat ≤ 253402300799 := UInt64.le_iff_toNat_le.mp (UInt64.not_lt.mp hbound)
    omega
  exact encodeVarint_length_le_of_lt hlt

theorem u64_enc_length (n : UInt64) : 1 ≤ (u64.enc n).length ∧ (u64.enc n).length ≤ 10 :=
  ⟨List.length_pos_of_ne_nil (encodeVarint_ne_nil _ _), encodeVarint_length_le _ _⟩

namespace TxKind

/-- What a leaf shows of the wallets and the timestamp in front of it. -/
def Shaped : TxKind → Prop
  | transfer tx => WalletBytes tx.sender.toList ∧ WalletBytes tx.receiver.toList ∧
      (u64.enc tx.timestamp).length ≤ 6
  | registerNode tx => WalletBytes tx.walletAddress.toList
  | reward tx => WalletBytes tx.receiver.toList
  | nftMint _ => True
  | nftTransfer tx => remzarWalletLen ≤ byteLen tx.newOwnerWallet

theorem shaped_of_validate {kind : TxKind} (h : kind.validate = .ok ()) : kind.Shaped := by
  cases kind with
  | transfer tx =>
    simp only [validate, wrapInvalid, mapErr_eq_ok_iff, Transaction.validateStructural,
      bind_eq_ok_iff] at h
    obtain ⟨sender, hsender, receiver, hreceiver, _, -, _, -, htime⟩ := h
    exact ⟨parseWalletAddressBytes_wallet hsender, parseWalletAddressBytes_wallet hreceiver,
      timestamp_length htime⟩
  | registerNode tx =>
    simp only [validate, wrapInvalid, mapErr_eq_ok_iff, RegisterNodeTx.validateStructural,
      bind_eq_ok_iff, rejectIf_eq_ok_iff, not_not] at h
    obtain ⟨canon, hcanon, _, rfl, -⟩ := h
    exact canonWalletFromBytes_wallet hcanon
  | reward tx =>
    simp only [validate, wrapInvalid, mapErr_eq_ok_iff, RewardTx.validate, bind_eq_ok_iff] at h
    obtain ⟨-, -, -, -, receiver, hreceiver, -⟩ := h
    exact parseWalletAddressBytes_wallet hreceiver
  | nftMint tx => trivial
  | nftTransfer tx =>
    simp only [validate, canonWalletIdChecked, bind_eq_ok_iff, mapErr_eq_ok_iff,
      rejectIf_eq_ok_iff, not_not] at h
    obtain ⟨_, -, _, ⟨_, hlen, -⟩, -⟩ := h
    obtain ⟨before, after, hsplit⟩ := trim_split tx.newOwnerWallet
    have htotal := congrArg List.length hsplit
    rw [List.length_append, List.length_append] at htotal
    change remzarWalletLen ≤ (utf8 tx.newOwnerWallet).length
    unfold byteLen at hlen
    omega

theorem leaf_eq_payload {kind : TxKind} {bytes : List UInt8} (h : kind.leaf = .ok bytes) :
    kind.payload = bytes := by
  cases kind with
  | transfer tx =>
    simp only [leaf, Transaction.serialize, bind_eq_ok_iff, pure_eq_ok_iff] at h
    obtain ⟨-, -, heq⟩ := h
    exact heq
  | registerNode tx =>
    simp only [leaf, RegisterNodeTx.serialize, bind_eq_ok_iff, pure_eq_ok_iff] at h
    obtain ⟨-, -, heq⟩ := h
    exact heq
  | reward tx =>
    simp only [leaf, RewardTx.serialize, bind_eq_ok_iff, pure_eq_ok_iff] at h
    obtain ⟨-, -, heq⟩ := h
    exact heq
  | nftMint tx => exact Except.ok.inj h
  | nftTransfer tx => exact Except.ok.inj h

/-- A mint whose leaf is also the leaf of a transfer: the new owner's wallet, with its length in
front, spells the content hash, the title and the description. -/
def Disguises : TxKind → TxKind → Prop
  | nftMint m, nftTransfer t => m.nftId = t.nftId ∧
      string.enc t.newOwnerWallet = m.contentHash.toList ++ (string.enc m.title ++ string.enc m.description)
  | _, _ => False

/-- Two kinds with the same leaf. -/
def Alike (x y : TxKind) : Prop := x = y ∨ Disguises x y ∨ Disguises y x

/-- Read as a mint, a leaf that starts with a wallet has the last digit of the wallet as the
length of its title. -/
theorem wallet_as_mint {wallet : WalletArray} (hw : WalletBytes wallet.toList) {tail : List UInt8}
    {m : NftMintTx} (h : wallet.toList ++ tail = NftMintTx.codec.enc m) :
    ∃ c : UInt8, isLowerHex c = true ∧ (utf8 m.title).length = c.toNat ∧
      tail = utf8 m.title ++ string.enc m.description := by
  obtain ⟨c, hdrop, hc⟩ := hw.at (i := 127) (by decide)
  have hrange := isLowerHex_range hc
  have hlen : wallet.toList.length = 129 := wallet.toList_length
  change wallet.toList ++ tail = m.nftId.toList ++ (m.contentHash.toList ++
    (string.enc m.title ++ string.enc m.description)) at h
  have hbytes := congrArg (List.drop 128) h
  rw [List.drop_append_of_le_length (by omega), hdrop, List.drop_of_length_le (by omega),
    List.cons_append, List.nil_append, ← List.append_assoc, List.drop_left' (by
      rw [List.length_append, m.nftId.toList_length, m.contentHash.toList_length]), string_enc,
    List.append_assoc] at hbytes
  obtain ⟨htitle, htail⟩ := usize_enc_head (by omega) hbytes.symm
  exact ⟨c, hc, htitle, htail.symm⟩

/-- Read as a transfer of an NFT, it has a digit where the length of the new owner's wallet
starts. -/
theorem wallet_not_nftTransfer {wallet : WalletArray} (hw : WalletBytes wallet.toList)
    {tail : List UInt8} {t : NftTransferTx} (ht : remzarWalletLen ≤ byteLen t.newOwnerWallet) :
    wallet.toList ++ tail ≠ NftTransferTx.codec.enc t := by
  intro h
  obtain ⟨c, hdrop, hc⟩ := hw.at (i := 63) (by decide)
  have hrange := isLowerHex_range hc
  have hlen : wallet.toList.length = 129 := wallet.toList_length
  change wallet.toList ++ tail = t.nftId.toList ++ string.enc t.newOwnerWallet at h
  have hbytes := congrArg (List.drop 64) h
  rw [List.drop_append_of_le_length (by omega), hdrop, List.cons_append,
    List.drop_left' t.nftId.toList_length, string_enc] at hbytes
  obtain ⟨hwallet, -⟩ := usize_enc_head (by omega) hbytes.symm
  change 129 ≤ (utf8 t.newOwnerWallet).length at ht
  omega

theorem wallet_not_mint {wallet : WalletArray} (hw : WalletBytes wallet.toList) {tail : List UInt8}
    (htail : tail.length ≤ 48) (m : NftMintTx) : wallet.toList ++ tail ≠ NftMintTx.codec.enc m := by
  intro h
  obtain ⟨c, hc, htitle, rfl⟩ := wallet_as_mint hw h
  have hrange := isLowerHex_range hc
  have hpositive : 1 ≤ (string.enc m.description).length := by
    rw [string_enc, List.length_append]
    exact Nat.le_add_right_of_le (List.length_pos_of_ne_nil (encodeVarint_ne_nil _ _))
  rw [List.length_append] at htail
  omega

/-- A transfer misses being a mint by one byte: title and description would have to be as long as
two digits say, which is more than amount and timestamp can fill. -/
theorem transfer_not_mint {tx : Transaction} (h : (transfer tx).Shaped) (m : NftMintTx) :
    Transaction.codec.enc tx ≠ NftMintTx.codec.enc m := by
  intro heq
  obtain ⟨hsender, hreceiver, htime⟩ := h
  change tx.sender.toList ++ (tx.receiver.toList ++ (u64.enc tx.amount ++ u64.enc tx.timestamp)) = _ at heq
  obtain ⟨c, hc, htitle, htail⟩ := wallet_as_mint hsender heq
  have hrange := isLowerHex_range hc
  obtain ⟨d, hdrop, hd⟩ := hreceiver.at (i := c.toNat-1) (by omega)
  have hrange' := isLowerHex_range hd
  have hlen : tx.receiver.toList.length = 129 := tx.receiver.toList_length
  have hindex : c.toNat-1+1 = c.toNat := by omega
  have hbytes := congrArg (List.drop c.toNat) htail
  rw [List.drop_append_of_le_length (by omega), ← hindex, hdrop, hindex, List.cons_append,
    List.drop_left' htitle, string_enc] at hbytes
  obtain ⟨hdescription, hrest⟩ := usize_enc_head (by omega) hbytes.symm
  have hcount := congrArg List.length hrest
  have hamount := u64_enc_length tx.amount
  have htimestamp := u64_enc_length tx.timestamp
  simp only [List.length_append, List.length_drop] at hcount
  omega

/-- Leaves of different length, or with a different number of integers after the wallet. -/
theorem walletLed_ne (tx : Transaction) (reg : RegisterNodeTx) (rew : RewardTx) :
    Transaction.codec.enc tx ≠ RegisterNodeTx.codec.enc reg ∧
      Transaction.codec.enc tx ≠ RewardTx.codec.enc rew ∧
      RegisterNodeTx.codec.enc reg ≠ RewardTx.codec.enc rew := by
  have hsender : tx.sender.toList.length = 129 := tx.sender.toList_length
  have hreceiver : tx.receiver.toList.length = 129 := tx.receiver.toList_length
  have hwallet : reg.walletAddress.toList.length = 129 := reg.walletAddress.toList_length
  have hpaid : rew.receiver.toList.length = 129 := rew.receiver.toList_length
  have htimestamp := u64_enc_length reg.timestamp
  have hrewarded := u64_enc_length rew.amount
  have hheight := u64_enc_length rew.blockHeight
  have hpaidAt := u64_enc_length rew.timestamp
  refine ⟨fun h => ?_, fun h => ?_, fun h => ?_⟩
  · have hlen := congrArg List.length h
    change (tx.sender.toList ++ (tx.receiver.toList ++ _)).length =
      (reg.walletAddress.toList ++ u64.enc reg.timestamp).length at hlen
    simp only [List.length_append] at hlen
    omega
  · have hlen := congrArg List.length h
    change (tx.sender.toList ++ (tx.receiver.toList ++ _)).length = (rew.receiver.toList ++
      (u64.enc rew.amount ++ (u64.enc rew.blockHeight ++ u64.enc rew.timestamp))).length at hlen
    simp only [List.length_append] at hlen
    omega
  · change reg.walletAddress.toList ++ u64.enc reg.timestamp = rew.receiver.toList ++
      (u64.enc rew.amount ++ (u64.enc rew.blockHeight ++ u64.enc rew.timestamp)) at h
    obtain ⟨-, htail⟩ := vector_append_inj h
    rw [← List.append_nil (u64.enc reg.timestamp)] at htail
    obtain ⟨-, hrest⟩ := u64.enc_append_inj trivial trivial htail
    have hlen := congrArg List.length hrest
    rw [List.length_append, List.length_nil] at hlen
    omega

theorem disguises_iff (m : NftMintTx) (t : NftTransferTx) :
    Disguises (nftMint m) (nftTransfer t) ↔ NftMintTx.codec.enc m = NftTransferTx.codec.enc t := by
  constructor
  · rintro ⟨hid, hwallet⟩
    change m.nftId.toList ++ (m.contentHash.toList ++ (string.enc m.title ++ string.enc m.description)) =
      t.nftId.toList ++ string.enc t.newOwnerWallet
    rw [hid, hwallet]
  · intro h
    obtain ⟨hid, hrest⟩ := vector_append_inj h
    exact ⟨hid, hrest.symm⟩

theorem payload_of_alike {x y : TxKind} (h : Alike x y) : x.payload = y.payload := by
  have hdisguise : ∀ {a b : TxKind}, Disguises a b → a.payload = b.payload := by
    intro a b hab
    unfold Disguises at hab
    split at hab
    · rename_i m t
      exact (disguises_iff m t).mp hab
    · exact hab.elim
  rcases h with rfl | h | h
  · rfl
  · exact hdisguise h
  · exact (hdisguise h).symm

/-- Of all pairs of kinds only a mint and a transfer of an NFT can have one leaf. -/
theorem alike_of_payload {x y : TxKind} (hx : x.Shaped) (hy : y.Shaped)
    (hsize : x.payload.length < 2^64) (h : x.payload = y.payload) : Alike x y := by
  have hfx : x.Fits := fits_of_length hsize
  have hfy : y.Fits := fits_of_length (h ▸ hsize)
  cases x with
  | transfer a =>
    cases y with
    | transfer b => exact .inl (congrArg transfer (Transaction.codec.enc_inj hfx hfy h))
    | registerNode b => exact absurd h (walletLed_ne a b ⟨b.walletAddress, 0, 0, 0⟩).1
    | reward b => exact absurd h (walletLed_ne a ⟨b.receiver, 0⟩ b).2.1
    | nftMint b => exact absurd h (transfer_not_mint hx b)
    | nftTransfer b => exact absurd h (wallet_not_nftTransfer hx.1 hy)
  | registerNode a =>
    cases y with
    | transfer b => exact absurd h.symm (walletLed_ne b a ⟨a.walletAddress, 0, 0, 0⟩).1
    | registerNode b => exact .inl (congrArg registerNode (RegisterNodeTx.codec.enc_inj hfx hfy h))
    | reward b => exact absurd h (walletLed_ne ⟨b.receiver, b.receiver, 0, 0⟩ a b).2.2
    | nftMint b =>
      refine absurd h (wallet_not_mint hx ?_ b)
      exact (u64_enc_length a.timestamp).2.trans (by decide)
    | nftTransfer b => exact absurd h (wallet_not_nftTransfer hx hy)
  | reward a =>
    have htail : (u64.enc a.amount ++ (u64.enc a.blockHeight ++ u64.enc a.timestamp)).length ≤ 48 := by
      have hamount := u64_enc_length a.amount
      have hheight := u64_enc_length a.blockHeight
      have htime := u64_enc_length a.timestamp
      simp only [List.length_append]
      omega
    cases y with
    | transfer b => exact absurd h.symm (walletLed_ne b ⟨a.receiver, 0⟩ a).2.1
    | registerNode b =>
      exact absurd h.symm (walletLed_ne ⟨a.receiver, a.receiver, 0, 0⟩ b a).2.2
    | reward b => exact .inl (congrArg reward (RewardTx.codec.enc_inj hfx hfy h))
    | nftMint b => exact absurd h (wallet_not_mint hx htail b)
    | nftTransfer b => exact absurd h (wallet_not_nftTransfer hx hy)
  | nftMint a =>
    cases y with
    | transfer b => exact absurd h.symm (transfer_not_mint hy a)
    | registerNode b =>
      refine absurd h.symm (wallet_not_mint hy ?_ a)
      exact (u64_enc_length b.timestamp).2.trans (by decide)
    | reward b =>
      have htail : (u64.enc b.amount ++ (u64.enc b.blockHeight ++ u64.enc b.timestamp)).length ≤ 48 := by
        have hamount := u64_enc_length b.amount
        have hheight := u64_enc_length b.blockHeight
        have htime := u64_enc_length b.timestamp
        simp only [List.length_append]
        omega
      exact absurd h.symm (wallet_not_mint hy htail a)
    | nftMint b => exact .inl (congrArg nftMint (NftMintTx.codec.enc_inj hfx hfy h))
    | nftTransfer b => exact .inr (.inl ((disguises_iff a b).mpr h))
  | nftTransfer a =>
    cases y with
    | transfer b => exact absurd h.symm (wallet_not_nftTransfer hy.1 hx)
    | registerNode b => exact absurd h.symm (wallet_not_nftTransfer hy hx)
    | reward b => exact absurd h.symm (wallet_not_nftTransfer hy hx)
    | nftMint b => exact .inr (.inr ((disguises_iff b a).mpr h.symm))
    | nftTransfer b => exact .inl (congrArg nftTransfer (NftTransferTx.codec.enc_inj hfx hfy h))

/-- A wallet in canonical form is no disguise: the digit that would be the length of the
description is more than the bytes that are left. -/
theorem not_disguises_canonical {m : NftMintTx} {t : NftTransferTx} (ht : CanonicalId t.newOwnerWallet) :
    ¬Disguises (nftMint m) (nftTransfer t) := by
  rintro ⟨-, hwallet⟩
  have hw := ht.wallet
  obtain ⟨c, hdrop, hc⟩ := hw.at (i := 61) (by decide)
  have hrange := isLowerHex_range hc
  have hlen := hw.length
  have hlength : string.enc t.newOwnerWallet = [129, 1] ++ utf8 t.newOwnerWallet := by
    rw [string_enc, hlen]
    rfl
  rw [hlength] at hwallet
  have hbytes := congrArg (List.drop 64) hwallet
  rw [List.drop_left' m.contentHash.toList_length, List.drop_append, List.drop_of_length_le (by decide),
    List.nil_append, show 64 - [129, (1 : UInt8)].length = 62 from rfl, hdrop, string_enc,
    List.append_assoc] at hbytes
  obtain ⟨htitle, hrest⟩ := usize_enc_head (by omega) hbytes.symm
  have hcount := congrArg List.length hrest
  simp only [List.length_append, List.length_drop, string_enc] at hcount
  obtain ⟨d, hdrop', hd⟩ := hw.at (i := 62 + c.toNat) (by omega)
  have hrange' := isLowerHex_range hd
  have hbytes' := congrArg (List.drop c.toNat) hrest
  rw [List.drop_left' htitle, List.drop_drop, string_enc] at hbytes'
  rw [show 61 + 2 + c.toNat = 62 + c.toNat + 1 by omega, hdrop'] at hbytes'
  obtain ⟨hdescription, hleft⟩ := usize_enc_head (by omega) hbytes'
  have hcount' := congrArg List.length hleft
  rw [List.length_drop] at hcount'
  omega

end TxKind

/-! ### Merkle roots -/

/-- The bytes that `compute_merkle_root` hashes for a list of transactions. -/
def merkleInput (transactions : List TxKind) : Fallible (List UInt8) := do
  let leaves ← transactions.mapM TxKind.leaf
  (leaves.map Postcard.bytes.enc).forM fun blob => ensureSizeLimit blob.length "compute_merkle_root(tx)"
  return if leaves = [] then asciiBytes "EMPTY_MERKLE_ROOT" else leaves.flatMap Postcard.bytes.enc

theorem computeMerkleRoot_input [Blake3] (batch : TransactionBatch) :
    batch.computeMerkleRoot = (merkleInput batch.transactions).map Blake3.xof64 := by
  rw [TransactionBatch.computeMerkleRoot, TransactionBatch.leaves, merkleInput]
  cases batch.transactions.mapM TxKind.leaf with
  | error e => rfl
  | ok leaves =>
    simp only [ok_bind, remzarComputeMerkleRoot]
    cases (leaves.map Postcard.bytes.enc).forM
        fun blob => ensureSizeLimit blob.length "compute_merkle_root(tx)" with
    | error e => rfl
    | ok u =>
      simp only [ok_bind]
      split
      · rfl
      · rw [List.flatMap_def]
        rfl

/-- The leaves behind the hashed bytes, none longer than the size limit. -/
theorem merkleInput_ok {transactions : List TxKind} {input : List UInt8}
    (h : merkleInput transactions = .ok input) :
    ∃ leaves, List.Forall₂ (fun x leaf => x.leaf = .ok leaf) transactions leaves ∧
      (∀ leaf ∈ leaves, leaf.length < 2^64) ∧
      input = if leaves = [] then asciiBytes "EMPTY_MERKLE_ROOT"
        else leaves.flatMap Postcard.bytes.enc := by
  simp only [merkleInput, bind_eq_ok_iff, pure_eq_ok_iff] at h
  obtain ⟨leaves, hleaves, _, hsizes, rfl⟩ := h
  refine ⟨leaves, forall₂_of_mapM hleaves, fun leaf hmem => ?_, rfl⟩
  have hblob := (forM_eq_ok_iff _ _).mp hsizes _ (List.mem_map_of_mem hmem)
  have hlimit := (rejectIf_eq_ok_iff _ _ _).mp hblob
  change ¬4*1024*1024 < (usize.enc leaf.length ++ leaf).length at hlimit
  rw [List.length_append] at hlimit
  omega

/-- No other list is hashed as the text for an empty one. -/
theorem empty_root_unique {leaves : List (List UInt8)}
    (h : leaves.flatMap Postcard.bytes.enc = asciiBytes "EMPTY_MERKLE_ROOT") : leaves = [] := by
  cases leaves with
  | nil => rfl
  | cons leaf leaves =>
    have htext : asciiBytes "EMPTY_MERKLE_ROOT" =
        69 :: [77, 80, 84, 89, 95, 77, 69, 82, 75, 76, 69, 95, 82, 79, 79, 84] := by decide
    rw [List.flatMap_cons, htext] at h
    change (usize.enc leaf.length ++ leaf) ++ _ = _ at h
    rw [List.append_assoc] at h
    obtain ⟨hlen, hrest⟩ := usize_enc_head (by decide) h
    have hcount := congrArg List.length hrest
    rw [List.length_append, hlen] at hcount
    change 69 + _ = 16 at hcount
    omega

/-- Two lists are hashed as the same bytes exactly when their leaves are the same. -/
theorem merkleInput_eq_iff {leaves leaves' : List (List UInt8)}
    (h : ∀ leaf ∈ leaves, leaf.length < 2^64) (h' : ∀ leaf ∈ leaves', leaf.length < 2^64) :
    ((if leaves = [] then asciiBytes "EMPTY_MERKLE_ROOT" else leaves.flatMap Postcard.bytes.enc) =
      if leaves' = [] then asciiBytes "EMPTY_MERKLE_ROOT" else leaves'.flatMap Postcard.bytes.enc) ↔
      leaves = leaves' := by
  have hne : ∀ leaf : List UInt8, Postcard.bytes.enc leaf ≠ [] := by
    intro leaf hnil
    exact encodeVarint_ne_nil _ _ (List.append_eq_nil_iff.mp hnil).1
  constructor
  · intro heq
    by_cases hempty : leaves = []
    · by_cases hempty' : leaves' = []
      · rw [hempty, hempty']
      · rw [if_pos hempty, if_neg hempty'] at heq
        exact absurd (empty_root_unique heq.symm) hempty'
    · by_cases hempty' : leaves' = []
      · rw [if_neg hempty, if_pos hempty'] at heq
        exact absurd (empty_root_unique heq) hempty
      · rw [if_neg hempty, if_neg hempty'] at heq
        exact flatMap_enc_inj Postcard.bytes hne h h' heq
  · intro heq
    rw [heq]

/-- Valid lists are hashed as the same bytes exactly when they agree up to mints that are
disguised as transfers. -/
theorem merkleInput_alike {xs ys : List TxKind} (hxs : ∀ x ∈ xs, x.validate = .ok ())
    (hys : ∀ y ∈ ys, y.validate = .ok ()) {p q : List UInt8} (hp : merkleInput xs = .ok p)
    (hq : merkleInput ys = .ok q) : p = q ↔ List.Forall₂ TxKind.Alike xs ys := by
  obtain ⟨leaves, hleaves, hsize, rfl⟩ := merkleInput_ok hp
  obtain ⟨leaves', hleaves', hsize', rfl⟩ := merkleInput_ok hq
  rw [merkleInput_eq_iff hsize hsize']
  constructor
  · rintro rfl
    clear hp hq hsize'
    induction hleaves generalizing ys with
    | nil =>
      cases hleaves'
      exact .nil
    | cons hx hrest ih =>
      cases hleaves' with
      | cons hy hrest' =>
        refine .cons ?_ (ih (fun x hx => hxs x (List.mem_cons_of_mem _ hx))
          (fun y hy => hys y (List.mem_cons_of_mem _ hy))
          (fun leaf hleaf => hsize leaf (List.mem_cons_of_mem _ hleaf)) hrest')
        have hpayload := TxKind.leaf_eq_payload hx
        have hpayload' := TxKind.leaf_eq_payload hy
        refine TxKind.alike_of_payload (TxKind.shaped_of_validate (hxs _ List.mem_cons_self))
          (TxKind.shaped_of_validate (hys _ List.mem_cons_self)) ?_ (hpayload.trans hpayload'.symm)
        rw [hpayload]
        exact hsize _ List.mem_cons_self
  · intro halike
    clear hp hq hsize hsize' hxs hys
    induction halike generalizing leaves leaves' with
    | nil =>
      cases hleaves
      cases hleaves'
      rfl
    | cons hxy hrest ih =>
      cases hleaves with
      | cons hx hxs =>
        cases hleaves' with
        | cons hy hys =>
          rw [ih _ hxs _ hys, ← TxKind.leaf_eq_payload hx, ← TxKind.leaf_eq_payload hy,
            TxKind.payload_of_alike hxy]

/-- The Merkle preimage binds the list of transactions, except where one list has a mint and the
other the transfer that it is disguised as; no wallet in canonical form is such a disguise. -/
theorem merkle_root_binds_iff (xs ys : List TxKind) (p q : List UInt8)
    (hxs : ∀ x ∈ xs, x.validate = .ok ()) (hys : ∀ y ∈ ys, y.validate = .ok ())
    (hp : merkleInput xs = .ok p) (hq : merkleInput ys = .ok q) :
    ((p = q → xs = ys) ↔ ¬(xs ≠ ys ∧ List.Forall₂ TxKind.Alike xs ys)) ∧
    ((∀ t, .nftTransfer t ∈ xs ++ ys → CanonicalId t.newOwnerWallet) → p = q → xs = ys) := by
  have hbytes := merkleInput_alike hxs hys hp hq
  refine ⟨⟨fun hbind hbad => hbad.1 (hbind (hbytes.mpr hbad.2)), fun hgood heq => ?_⟩,
    fun hcanonical heq => ?_⟩
  · by_contra hne
    exact hgood ⟨hne, hbytes.mp heq⟩
  · have halike := hbytes.mp heq
    clear hbytes heq hp hq hxs hys
    induction halike with
    | nil => rfl
    | @cons x y xs ys hxy hrest ih =>
      have hhead : x = y := by
        have hno : ∀ {a b : TxKind}, a ∈ x :: xs ++ y :: ys → b ∈ x :: xs ++ y :: ys →
            ¬TxKind.Disguises a b := by
          intro a b ha hb hab
          unfold TxKind.Disguises at hab
          split at hab
          · rename_i m t
            exact TxKind.not_disguises_canonical (m := m) (hcanonical t hb) hab
          · exact hab
        rcases hxy with h | h | h
        · exact h
        · exact absurd h (hno (by simp) (by simp))
        · exact absurd h (hno (by simp) (by simp))
      rw [hhead, ih fun t ht => hcanonical t ?_]
      rcases List.mem_append.mp ht with ht | ht
      · exact List.mem_append_left _ (List.mem_cons_of_mem _ ht)
      · exact List.mem_append_right _ (List.mem_cons_of_mem _ ht)

namespace Sample

/-- A new owner behind 64 blanks: their digit `a` is where a description has its length. -/
def paddedOwner : String :=
  String.ofList (List.replicate 64 ' ' ++ ('r' :: List.replicate 30 '0' ++ 'a' :: List.replicate 97 '0'))

def nftId : Hash := ⟨List.replicate 64 1, List.length_replicate⟩

def paddedTransfer : NftTransferTx := ⟨nftId, paddedOwner⟩

/-- The mint that is hashed as `paddedTransfer`. -/
def disguisedMint : NftMintTx :=
  ⟨nftId, ⟨[193, 1] ++ List.replicate 62 32, rfl⟩,
    String.ofList (' ' :: 'r' :: List.replicate 30 '0'), String.ofList (List.replicate 97 '0')⟩

theorem disguised_valid : (TxKind.nftMint disguisedMint).validate = .ok () ∧
    (TxKind.nftTransfer paddedTransfer).validate = .ok () := by
  decide +kernel

theorem disguised_input : ∃ input, merkleInput [.nftMint disguisedMint] = .ok input ∧
    merkleInput [.nftTransfer paddedTransfer] = .ok input := by
  have hinput : merkleInput [.nftMint disguisedMint] = merkleInput [.nftTransfer paddedTransfer] ∧
      succeeds (merkleInput [.nftMint disguisedMint]) = true := by
    decide +kernel
  obtain ⟨input, hok⟩ := (succeeds_iff _).mp hinput.2
  exact ⟨input, hok, hinput.1 ▸ hok⟩

end Sample

theorem merkle_root_binds_iff_disguised :
    ∃ input, merkleInput [.nftMint Sample.disguisedMint] = .ok input ∧
      ((input = input → [TxKind.nftMint Sample.disguisedMint] = [.nftTransfer Sample.paddedTransfer]) ↔
        ¬([TxKind.nftMint Sample.disguisedMint] ≠ [.nftTransfer Sample.paddedTransfer] ∧
          List.Forall₂ TxKind.Alike [.nftMint Sample.disguisedMint]
            [.nftTransfer Sample.paddedTransfer])) := by
  obtain ⟨input, hmint, htransfer⟩ := Sample.disguised_input
  refine ⟨input, hmint, ?_⟩
  exact (merkle_root_binds_iff _ _ input input
    (fun x hx => List.mem_singleton.mp hx ▸ Sample.disguised_valid.1)
    (fun y hy => List.mem_singleton.mp hy ▸ Sample.disguised_valid.2) hmint htransfer).1

/-- A mint and a transfer of an NFT, both valid, with one Merkle root. -/
theorem merkle_root_of_two_lists :
    (TxKind.nftMint Sample.disguisedMint).validate = .ok () ∧
      (TxKind.nftTransfer Sample.paddedTransfer).validate = .ok () ∧
      (∃ input, merkleInput [.nftMint Sample.disguisedMint] = .ok input ∧
        merkleInput [.nftTransfer Sample.paddedTransfer] = .ok input) ∧
      [TxKind.nftMint Sample.disguisedMint] ≠ [TxKind.nftTransfer Sample.paddedTransfer] := by
  refine ⟨Sample.disguised_valid.1, Sample.disguised_valid.2, Sample.disguised_input, ?_⟩
  intro h
  cases List.head_eq_of_cons_eq h

end Remzar
