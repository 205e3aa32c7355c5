import Mathlib.Data.Vector.Defs

/-! The consensus constants of `GlobalConfiguration` and the errors of `ErrorDetection`
that the modelled functions return. -/
namespace Remzar

abbrev Hash := List.Vector UInt8 64

def zeroHash : Hash := ⟨List.replicate 64 0, List.length_replicate⟩

/-- Smallest units in one coin. -/
def unitDivisor : UInt64 := 100000000

def maxBlockSize : ℕ := 2*1024*1024
def minBlockSize : ℕ := 64
def blockOverheadReserve : ℕ := 16*1024
def transactionBufferLimit : ℕ := 2*1024*1024
def maxTxsPerBlock : ℕ := 7500
def maxBatchSerializedOverhead : ℕ := 2048
def maxFutureSkewSecs : UInt64 := 7200
def maxBatchItems : ℕ := 50000
def maxItemBytes : ℕ := 4*1024*1024
def maxTotalBatchBytes : ℕ := 64*1024*1024
def maxRewardSupply : UInt64 := 200000000*unitDivisor
def maxSupply : UInt64 := maxRewardSupply
def rewardlessPrefixBlocks : UInt64 := 1
def maxTxAmount : UInt64 := 10000000000000000
def blockCreationIntervalSecs : UInt64 := 30
def rewardDelayBlocks : UInt64 := 1
def initialBlockReward : UInt64 := 20*unitDivisor
def maxBlockReward : UInt64 := 20*unitDivisor
def stabilizedBlockReward : UInt64 := unitDivisor
def halvingIntervalBlocks : UInt64 := 500000
def minTimestampSecs : UInt64 := 946684800
def activationWarmupSecs : UInt64 := 30
def puzzleCreationIntervalSecs : UInt64 := 2
def quarantineBlocks : UInt64 := 4
def failoverBuildSlackSecs : UInt64 := 5
def failoverLeaderGraceSecs : UInt64 := 5
def failoverSlackSecs : UInt64 := failoverBuildSlackSecs + failoverLeaderGraceSecs
def failoverWindowSecs : UInt64 := puzzleCreationIntervalSecs + failoverSlackSecs
def slotGateDriftSecs : UInt64 := 2

/-- `ceil_div(ACTIVATION_WARMUP_SECS, BLOCK_CREATION_INTERVAL_SECS)`. -/
def validatorActivationDelayBlocks : UInt64 :=
  (activationWarmupSecs + blockCreationIntervalSecs - 1) / blockCreationIntervalSecs

def maxFounderRebootTipRepairScanDepth : UInt64 := 512
def canonicalRenewIntervalBlocks : UInt64 := 10
def canonicalLeaseBlocks : UInt64 := canonicalRenewIntervalBlocks

/-- Each entry applies for `halvingIntervalBlocks` blocks. -/
def rewardReductionSequence : List UInt64 :=
  [20*unitDivisor, 10*unitDivisor, 5*unitDivisor, 2*unitDivisor, unitDivisor]

def remzarWalletLen : ℕ := 129

/-- Length of an ML-DSA-65 signature. -/
def sigLen : ℕ := 3309

def maxMetadataIndexHard : UInt64 := 10000000
def maxBatchKeyLen : ℕ := 4096
def maxRecentBlocksInRam : ℕ := 512
def maxPendingBlocks : ℕ := 4096
def maxPendingBlockDistance : UInt64 := 1024
def maxAccountStateSnapshotBytes : ℕ := 512*1024*1024
def maxAccountKeyBytes : ℕ := 256
def maxTouchedAccountsPerTx : ℕ := 4

theorem maxSupply_toNat : maxSupply.toNat = 20000000000000000 := rfl

inductive ErrorDetection where
  | validationError (message : String) (txId : Option String)
  | serializationError (details : String)
  | storageError (message : String)
  | databaseError (details : String)
  | blockchainError (details : String)
  | notFound (resource : String)
  | doubleSpending (txId : Option String)
  | transactionError (message : String) (txId : Option String)
  | timestampError (message : String)
  | cryptographicError (message : String)
  | invalidSignature (reason : String)
  | invalidOperation (operation : String)
  | merkleProofGenerationError (reason : String)
  | signatureVerificationFailed (message : String)
  -- The error of the operating system is carried as its text and code.
  | ioError (message : String) (code : Option Int)
  deriving DecidableEq, Repr

def validationErr (message : String) : ErrorDetection := .validationError message none

def debugOption : Option String → String
  | none => "None"
  | some s => "Some(\"" ++ s ++ "\")"

def debugCode : Option Int → String
  | none => "None"
  | some code => "Some(" ++ toString code ++ ")"

/-- The `Display` text of an error. -/
def ErrorDetection.display : ErrorDetection → String
  | .validationError message txId =>
    "Validation error: " ++ message ++ ", Transaction ID: " ++ debugOption txId
  | .serializationError details => "Serialization error: " ++ details
  | .storageError message => "Storage error: " ++ message
  | .databaseError details => "Database error: " ++ details
  | .blockchainError details => "Blockchain error: " ++ details
  | .notFound resource => "Resource not found: " ++ resource
  | .doubleSpending txId => "Double spending detected for Transaction ID: " ++ debugOption txId
  | .transactionError message txId =>
    "Transaction error: " ++ message ++ ", Transaction ID: " ++ debugOption txId
  | .timestampError message => "Timestamp error: " ++ message
  | .cryptographicError message => "Cryptographic error: " ++ message
  | .invalidSignature reason => "Invalid signature error: " ++ reason
  | .invalidOperation operation => "Invalid operation: " ++ operation
  | .merkleProofGenerationError reason => "Merkle Proof generation failed: " ++ reason
  | .signatureVerificationFailed message => "Signature verification failed: " ++ message
  | .ioError message code =>
    "I/O error occurred: " ++ message ++ " (code: " ++ debugCode code ++ ")"

/-- The `Debug` text, over the fields an error carries here; their texts need no escapes. -/
def ErrorDetection.debug (e : ErrorDetection) : String :=
  let field (name text : String) := name ++ ": \"" ++ text ++ "\""
  let record (name fields : String) := name ++ " \x7b " ++ fields ++ " \x7d"
  match e with
  | .validationError message txId =>
    record "ValidationError" (field "message" message ++ ", tx_id: " ++ debugOption txId)
  | .serializationError details => record "SerializationError" (field "details" details)
  | .storageError message => record "StorageError" (field "message" message)
  | .databaseError details => record "DatabaseError" (field "details" details)
  | .blockchainError details => record "BlockchainError" (field "details" details)
  | .notFound resource => record "NotFound" (field "resource" resource)
  | .doubleSpending txId => record "DoubleSpending" ("tx_id: " ++ debugOption txId)
  | .transactionError message txId =>
    record "TransactionError" (field "message" message ++ ", tx_id: " ++ debugOption txId)
  | .timestampError message => record "TimestampError" (field "message" message)
  | .cryptographicError message => record "CryptographicError" (field "message" message)
  | .invalidSignature reason => record "InvalidSignature" (field "reason" reason)
  | .invalidOperation operation => record "InvalidOperation" (field "operation" operation)
  | .merkleProofGenerationError reason =>
    record "MerkleProofGenerationError" (field "reason" reason)
  | .signatureVerificationFailed message =>
    record "SignatureVerificationFailed" (field "message" message)
  | .ioError message code =>
    record "IoError" (field "message" message ++ ", code: " ++ debugCode code)

abbrev Fallible := Except ErrorDetection

/-- A failure reported as text: a context, and the error it quotes if there is one. -/
structure Failure where
  context : String
  cause : Option ErrorDetection
  deriving DecidableEq, Repr

end Remzar
