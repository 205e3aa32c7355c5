import Mathlib
import Remzar.Lib.Effects
import Remzar.RockDB

/-! NFT records: minting, transfer of ownership, and the loops that apply the NFT
transactions of a batch. -/
namespace Remzar
open Std Fallible Effects

def loadNftRecord (db : RockDB) (nftId : Hash) : Option NftRecord := db.nfts[nftId.toList]?

def storeNftRecord (db : RockDB) (record : NftRecord) : RockDB :=
  { db with nfts := db.nfts.insert record.nftId.toList record }

/-- Who signs for the NFT transactions of a block, and when. -/
structure NftContext where
  signer : String
  height : UInt64
  timestamp : UInt64

def nftContext (block : Block) : NftContext :=
  ⟨block.miner, block.metadata.index, block.metadata.timestamp⟩

def mintedRecord (ctx : NftContext) (tx : NftMintTx) : NftRecord :=
  ⟨tx.nftId, ctx.signer, ctx.signer, tx.contentHash, tx.title, tx.description,
    ctx.height, ctx.timestamp⟩

def applyNftMint (ctx : NftContext) (tx : NftMintTx) (db : RockDB) : Fallible RockDB := do
  rejectIf ((loadNftRecord db tx.nftId).isSome) (validationErr
    s!"NFT id already exists (duplicate mint): {Blake3.toHex tx.nftId.toList}")
  return storeNftRecord db (mintedRecord ctx tx)

def transferDeniedPrefix : String := "NFT transfer denied: signer "

def applyNftTransfer (ctx : NftContext) (tx : NftTransferTx) (db : RockDB) : Fallible RockDB := do
  let record ← okOr (loadNftRecord db tx.nftId) (validationErr
    s!"NFT id not found for transfer: {Blake3.toHex tx.nftId.toList}")
  if record.ownerWallet = tx.newOwnerWallet then return db
  else do
    rejectIf (record.ownerWallet ≠ ctx.signer) (validationErr
      (transferDeniedPrefix ++ s!"{ctx.signer} is not current owner {record.ownerWallet}"))
    rejectIf ((trim tx.newOwnerWallet).isEmpty)
      (validationErr "NFT transfer new_owner_wallet cannot be empty")
    return storeNftRecord db { record with ownerWallet := tx.newOwnerWallet }

-- Callers tell a denied transfer from other errors by the start of its message.
def isTransferDenied : ErrorDetection → Bool
  | .validationError message _ => (Text.utf8 transferDeniedPrefix).isPrefixOf (Text.utf8 message)
  | _ => false

/-- A denied transfer is skipped, any other error is returned. -/
def applyNftTransferOrSkip (ctx : NftContext) (tx : NftTransferTx) (db : RockDB) :
    Fallible RockDB :=
  match applyNftTransfer ctx tx db with
  | .ok db' => .ok db'
  | .error e => if isTransferDenied e then .ok db else .error e

/-- The miner's loop: one pass over the batch, in order. -/
def applyNftInOrder (ctx : NftContext) (kind : TxKind) : EStateM ErrorDetection RockDB Unit :=
  match kind with
  | .nftMint tx => update (applyNftMint ctx tx)
  | .nftTransfer tx => update (applyNftTransferOrSkip ctx tx)
  | _ => pure ()

/-- Replay: a record that is already there is left alone. -/
def replayNft (ctx : NftContext) (kind : TxKind) : EStateM ErrorDetection RockDB Unit :=
  match kind with
  | .nftMint tx => update fun db =>
    if (loadNftRecord db tx.nftId).isSome then .ok db else applyNftMint ctx tx db
  | .nftTransfer tx => update (applyNftTransferOrSkip ctx tx)
  | _ => pure ()

def applyNftMintsForBlock (block : Block) (batch : TransactionBatch) :
    EStateM ErrorDetection RockDB Unit :=
  batch.transactions.forM fun kind =>
    match kind with
    | .nftMint tx => update (applyNftMint (nftContext block) tx)
    | _ => pure ()

def applyNftTransfersForBlock (block : Block) (batch : TransactionBatch) :
    EStateM ErrorDetection RockDB Unit :=
  batch.transactions.forM fun kind =>
    match kind with
    | .nftTransfer tx => update (applyNftTransferOrSkip (nftContext block) tx)
    | _ => pure ()

end Remzar
