import Mathlib
import Remzar.Lib.Blake3
import Remzar.Helper

/-! The five transaction kinds, their structural rules and their wire format. -/
namespace Remzar
open Fallible Postcard Text

structure Transaction where
  sender : WalletArray
  receiver : WalletArray
  amount : UInt64
  timestamp : UInt64
  deriving DecidableEq

structure RegisterNodeTx where
  walletAddress : WalletArray
  timestamp : UInt64
  deriving DecidableEq

structure RewardTx where
  receiver : WalletArray
  amount : UInt64
  blockHeight : UInt64
  timestamp : UInt64
  deriving DecidableEq

structure NftMintTx where
  nftId : Hash
  contentHash : Hash
  title : String
  description : String
  deriving DecidableEq

structure NftTransferTx where
  nftId : Hash
  newOwnerWallet : String
  deriving DecidableEq

inductive TxKind where
  | transfer (tx : Transaction)
  | registerNode (tx : RegisterNodeTx)
  | reward (tx : RewardTx)
  | nftMint (tx : NftMintTx)
  | nftTransfer (tx : NftTransferTx)
  deriving DecidableEq

/-! ### Wire format -/

def Transaction.codec : Codec Transaction :=
  record (pair (array 129) (pair (array 129) (pair u64 u64)))
    (fun t => (t.sender, t.receiver, t.amount, t.timestamp))
    (fun p => ⟨p.1, p.2.1, p.2.2.1, p.2.2.2⟩) (fun _ => rfl)

def RegisterNodeTx.codec : Codec RegisterNodeTx :=
  record (pair (array 129) u64)
    (fun t => (t.walletAddress, t.timestamp)) (fun p => ⟨p.1, p.2⟩) (fun _ => rfl)

def RewardTx.codec : Codec RewardTx :=
  record (pair (array 129) (pair u64 (pair u64 u64)))
    (fun t => (t.receiver, t.amount, t.blockHeight, t.timestamp))
    (fun p => ⟨p.1, p.2.1, p.2.2.1, p.2.2.2⟩) (fun _ => rfl)

def NftMintTx.codec : Codec NftMintTx :=
  record (pair (array 64) (pair (array 64) (pair string string)))
    (fun t => (t.nftId, t.contentHash, t.title, t.description))
    (fun p => ⟨p.1, p.2.1, p.2.2.1, p.2.2.2⟩) (fun _ => rfl)

def NftTransferTx.codec : Codec NftTransferTx :=
  record (pair (array 64) string)
    (fun t => (t.nftId, t.newOwnerWallet)) (fun p => ⟨p.1, p.2⟩) (fun _ => rfl)

namespace TxKind

-- The payload without the variant number in front of it.
def payload : TxKind → List UInt8
  | transfer tx => Transaction.codec.enc tx
  | registerNode tx => RegisterNodeTx.codec.enc tx
  | reward tx => RewardTx.codec.enc tx
  | nftMint tx => NftMintTx.codec.enc tx
  | nftTransfer tx => NftTransferTx.codec.enc tx

def variant : TxKind → ℕ
  | transfer _ => 0
  | registerNode _ => 1
  | reward _ => 2
  | nftMint _ => 3
  | nftTransfer _ => 4

def Fits : TxKind → Prop
  | transfer tx => Transaction.codec.Fits tx
  | registerNode tx => RegisterNodeTx.codec.Fits tx
  | reward tx => RewardTx.codec.Fits tx
  | nftMint tx => NftMintTx.codec.Fits tx
  | nftTransfer tx => NftTransferTx.codec.Fits tx

def decodePayload {α : Type} (c : Codec α) (build : α → TxKind) (bytes : List UInt8) :
    Except Postcard.Error (TxKind × List UInt8) := do
  let (tx, rest) ← c.dec bytes
  return (build tx, rest)

def decodeVariant : ℕ → List UInt8 → Except Postcard.Error (TxKind × List UInt8)
  | 0 => decodePayload Transaction.codec transfer
  | 1 => decodePayload RegisterNodeTx.codec registerNode
  | 2 => decodePayload RewardTx.codec reward
  | 3 => decodePayload NftMintTx.codec nftMint
  | 4 => decodePayload NftTransferTx.codec nftTransfer
  -- An unknown variant is a custom deserialization error.
  | _ => fun _ => throw .custom

theorem decodePayload_enc {α : Type} (c : Codec α) (build : α → TxKind) (a : α)
    (rest : List UInt8) (ha : c.Fits a) :
    decodePayload c build (c.enc a ++ rest) = .ok (build a, rest) := by
  rw [decodePayload, c.dec_enc a rest ha]
  rfl

theorem variant_lt (kind : TxKind) : kind.variant < 2^32 := by
  cases kind <;> simp [variant]

theorem decodeVariant_payload (kind : TxKind) (rest : List UInt8) (hk : kind.Fits) :
    decodeVariant kind.variant (kind.payload ++ rest) = .ok (kind, rest) := by
  cases kind with
  | transfer tx => exact decodePayload_enc Transaction.codec transfer tx rest hk
  | registerNode tx => exact decodePayload_enc RegisterNodeTx.codec registerNode tx rest hk
  | reward tx => exact decodePayload_enc RewardTx.codec reward tx rest hk
  | nftMint tx => exact decodePayload_enc NftMintTx.codec nftMint tx rest hk
  | nftTransfer tx => exact decodePayload_enc NftTransferTx.codec nftTransfer tx rest hk

def codec : Codec TxKind where
  Fits := Fits
  enc kind := discriminant.enc kind.variant ++ kind.payload
  dec bytes := do
    let (n, rest) ← discriminant.dec bytes
    decodeVariant n rest
  dec_enc kind rest hk := by
    rw [List.append_assoc, discriminant.dec_enc kind.variant _ (variant_lt kind)]
    exact decodeVariant_payload kind rest hk

end TxKind

/-! ### Structural rules -/

def Transaction.validateStructural (tx : Transaction) : Fallible Unit := do
  let sender ← parseWalletAddressBytes tx.sender.toList
  let receiver ← parseWalletAddressBytes tx.receiver.toList
  rejectIf (sender = receiver) (validationErr "Sender and receiver cannot be the same.")
  rejectIf (tx.amount = 0) (validationErr "Transaction amount must be greater than zero.")
  validateUnixSecsStructural "Transaction.timestamp" tx.timestamp

def Transaction.validateForMempoolAt (tx : Transaction) (now : UInt64) : Fallible Unit := do
  tx.validateStructural
  validateRuntimeFutureSkewSecsDefault "Transaction.timestamp" tx.timestamp now

-- Malformed transactions are never emitted.
def Transaction.serialize (tx : Transaction) : Fallible (List UInt8) := do
  tx.validateStructural
  return Transaction.codec.enc tx

def Transaction.id [Blake3] (tx : Transaction) : Fallible String := do
  let bytes ← tx.serialize
  return Blake3.toHex (Blake3.hash bytes).toList

def toWalletArray (bytes : List UInt8) : Option WalletArray :=
  if h : bytes.length = 129 then some ⟨bytes, h⟩ else none

def canonWalletFromStr (s : String) : Fallible WalletArray := do
  let canon ← canonWalletIdChecked s
  okOr (toWalletArray (utf8 canon)) (validationErr
    s!"Invalid wallet length (expected {remzarWalletLen}): {byteLen canon}")

def trimTrailingZeros (bytes : List UInt8) : List UInt8 :=
  (bytes.reverse.dropWhile (· == 0)).reverse

def canonWalletFromBytes (bytes : List UInt8) : Fallible WalletArray := do
  let trimmed := trimTrailingZeros bytes
  rejectIf (trimmed = []) (validationErr "Wallet address bytes are empty")
  rejectIf (0 ∈ trimmed) (validationErr "Wallet address bytes contain embedded NUL")
  let s ← okOr (fromUtf8 trimmed) (validationErr "Wallet address bytes are invalid UTF-8")
  canonWalletFromStr s

def RegisterNodeTx.validateStructural (tx : RegisterNodeTx) : Fallible Unit := do
  let canon ← canonWalletFromBytes tx.walletAddress.toList
  rejectIf (canon ≠ tx.walletAddress)
    (validationErr "Wallet address is not in canonical form ('r' + lowercase hex)")
  validateUnixSecsStructural "RegisterNodeTx.timestamp" tx.timestamp

def RegisterNodeTx.validateForMempoolAt (tx : RegisterNodeTx) (now : UInt64) :
    Fallible Unit := do
  tx.validateStructural
  validateRuntimeFutureSkewSecsDefault "RegisterNodeTx.timestamp" tx.timestamp now

def RegisterNodeTx.serialize (tx : RegisterNodeTx) : Fallible (List UInt8) := do
  tx.validateStructural
  return RegisterNodeTx.codec.enc tx

def RewardTx.validateAmount (amount : UInt64) : Fallible Unit := do
  rejectIf (amount = 0) (validationErr "Reward amount must be greater than zero.")
  rejectIf (maxBlockReward < amount) (validationErr
    s!"Reward amount {amount} exceeds allowed maximum {maxBlockReward}.")

def RewardTx.validateBlockHeight (blockHeight : UInt64) : Fallible Unit :=
  rejectIf (blockHeight = 0) (validationErr "Block height cannot be zero.")

def RewardTx.validate (tx : RewardTx) : Fallible Unit := do
  RewardTx.validateAmount tx.amount
  RewardTx.validateBlockHeight tx.blockHeight
  let addr ← parseWalletAddressBytes tx.receiver.toList
  rejectIf (byteLen addr ≠ remzarWalletLen)
    (validationErr s!"Invalid receiver address format: {addr}")
  validateUnixSecsStructural "RewardTx.timestamp" tx.timestamp

def RewardTx.validateForRuntimeAt (tx : RewardTx) (now : UInt64) : Fallible Unit := do
  tx.validate
  validateRuntimeFutureSkewSecsDefault "RewardTx.timestamp" tx.timestamp now

def RewardTx.serialize (tx : RewardTx) : Fallible (List UInt8) := do
  tx.validate
  return RewardTx.codec.enc tx

def RewardTx.newWithTimestamp (receiver : String) (amount blockHeight timestamp : UInt64) :
    Fallible RewardTx := do
  let canon ← mapErr (fun _ => validationErr s!"Invalid receiver address format: {receiver}")
    (canonWalletIdChecked receiver)
  RewardTx.validateAmount amount
  RewardTx.validateBlockHeight blockHeight
  validateUnixSecsStructural "RewardTx.timestamp" timestamp
  -- Copying into the array cannot fail: a canonical wallet has 129 bytes.
  let arr ← okOr (toWalletArray (utf8 canon)) invalidWallet
  let tx : RewardTx := ⟨arr, amount, blockHeight, timestamp⟩
  tx.validate
  return tx

namespace TxKind

def wrapInvalid (what : String) (x : Fallible Unit) : Fallible Unit :=
  mapErr (fun e => validationErr s!"Invalid {what} transaction: {e.display}") x

def validate : TxKind → Fallible Unit
  | transfer tx => wrapInvalid "Transfer" tx.validateStructural
  | registerNode tx => wrapInvalid "RegisterNode" tx.validateStructural
  | reward tx => wrapInvalid "Reward" tx.validate
  | nftMint _ => .ok ()
  | nftTransfer tx => do
    rejectIf ((trim tx.newOwnerWallet).isEmpty)
      (validationErr "Invalid NftTransfer: new_owner_wallet is empty")
    let _ ← mapErr (fun e => validationErr s!"Invalid NftTransfer: {e.display}")
      (canonWalletIdChecked tx.newOwnerWallet)
    return ()

def serialize (kind : TxKind) : List UInt8 := codec.enc kind

-- Trailing bytes are rejected and the decoded value is validated.
def deserialize (bytes : List UInt8) : Fallible TxKind := do
  let (kind, remaining) ← mapErr (fun e =>
    .serializationError s!"Failed to deserialize TxKind: {e.describe}") (takeFromBytes codec bytes)
  rejectIf (remaining ≠ []) (.serializationError
    s!"Failed to deserialize TxKind: trailing bytes after payload: {remaining.length} bytes")
  kind.validate
  return kind

/-- The bytes a kind contributes to the Merkle root and to the batch signature. -/
def leaf : TxKind → Fallible (List UInt8)
  | transfer tx => tx.serialize
  | registerNode tx => tx.serialize
  | reward tx => tx.serialize
  | nftMint tx => .ok (NftMintTx.codec.enc tx)
  | nftTransfer tx => .ok (NftTransferTx.codec.enc tx)

/-- The amount a kind issues. -/
def rewardAmount : TxKind → ℕ
  | reward tx => tx.amount.toNat
  | _ => 0

/-- Only the texts of an NFT can be too long to encode. -/
theorem fits_of_length {kind : TxKind} (h : kind.payload.length < 2^64) : kind.Fits := by
  cases kind with
  | transfer tx => exact ⟨trivial, trivial, trivial, trivial⟩
  | registerNode tx => exact ⟨trivial, trivial⟩
  | reward tx => exact ⟨trivial, trivial, trivial, trivial⟩
  | nftMint tx =>
    have htitle := string_enc_length tx.title
    have hdescription := string_enc_length tx.description
    change (tx.nftId.toList ++ (tx.contentHash.toList ++
      (string.enc tx.title ++ string.enc tx.description))).length < _ at h
    simp only [List.length_append] at h
    refine ⟨trivial, trivial, ?_, ?_⟩
    · change (utf8 tx.title).length < 2^64
      omega
    · change (utf8 tx.description).length < 2^64
      omega
  | nftTransfer tx =>
    have hwallet := string_enc_length tx.newOwnerWallet
    change (tx.nftId.toList ++ string.enc tx.newOwnerWallet).length < _ at h
    rw [List.length_append] at h
    refine ⟨trivial, ?_⟩
    change (utf8 tx.newOwnerWallet).length < 2^64
    omega

end TxKind

end Remzar
