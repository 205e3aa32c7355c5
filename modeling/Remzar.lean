import Remzar.Lib.Checked
import Remzar.Lib.Text
import Remzar.Lib.Postcard
import Remzar.Lib.Blake3
import Remzar.Lib.Fallible
import Remzar.Lib.Effects
import Remzar.Lib.Ledger
import Remzar.Lib.BigEndian
import Remzar.Lib.Keyed
import Remzar.Lib.Chunks
import Remzar.Configuration
import Remzar.Helper
import Remzar.Wallets
import Remzar.TxKind
import Remzar.TransactionBatch
import Remzar.Block
import Remzar.RockDB
import Remzar.Validators
import Remzar.AccountGuard
import Remzar.GuardSpec
import Remzar.Nft
import Remzar.AccountTree
import Remzar.TreeSpec
import Remzar.Supply
import Remzar.Chain
import Remzar.PendingBlocks
import Remzar.Duplicates
import Remzar.Halving
import Remzar.Issuance
import Remzar.Committed
import Remzar.Mempool
import Remzar.MempoolSpec
import Remzar.Accounting
import Remzar.Signing
import Remzar.Builder
import Remzar.BlockSpec
import Remzar.Production
import Remzar.ForkGraph
import Remzar.ForkChoice
import Remzar.ForkIngest
import Remzar.ForkSpec
import Remzar.Convergence
import Remzar.ReorgManager
import Remzar.Engine
import Remzar.Frames
import Remzar.Recovery
import Remzar.FailedMint
import Remzar.Reorganization
import Remzar.BranchSwitch
import Remzar.Binding
import Remzar.NftSpec
import Remzar.Atomicity
import Remzar.Replay
import Remzar.Rollback
import Remzar.Hydration
import Remzar.ProposalGate
import Remzar.P2pSync
import Remzar.HydrationRuns
import Remzar.SyncEvents
import Remzar.SyncTarget
import Remzar.LeaderSchedule
import Remzar.MintGate
import Remzar.Solvency
import Remzar.BlockSigning
import Remzar.ValidatorChain
import Remzar.Quarantine
import Remzar.PuzzleEngine
import Remzar.Emission
import Remzar.SendFile
import Remzar.FileTransfer
import Remzar.FileStore
import Remzar.ConnGuard
import Remzar.Connections
import Remzar.Lib.Merkle
import Remzar.Lifecycle
import Remzar.MerkleProof
import Remzar.InclusionProof
import Remzar.Lib.Runs
import Remzar.Lib.Tally
import Remzar.ConnCounters
import Remzar.PendingQueue
import Remzar.BalanceFlow
import Remzar.AccountColumn
import Remzar.BatchOrder
import Remzar.Lib.MapCodec
import Remzar.Snapshots
import Remzar.TipRepair
import Remzar.Genesis
import Remzar.HydrationQueue
import Remzar.Inflight
import Remzar.LastResort
import Remzar.Cooldown
import Remzar.Refill
import Remzar.AddressBudget
import Remzar.RegistrySpec
import Remzar.Heartbeats
import Remzar.JoinHeights
import Remzar.BlockRange
import Remzar.PuzzlePool
import Remzar.ProofBuffer
import Remzar.PuzzleOrder
import Remzar.BlockFormat
import Remzar.IndexRebuild
import Remzar.InvoiceRecords
import Remzar.ReplayWindow
import Remzar.PqRuns
import Remzar.Amounts
import Remzar.RwaTransfer
import Remzar.Chat
import Remzar.SlotMachine
import Remzar.PeerBookRuns
import Remzar.Janitor
import Remzar.LeaderElection
import Remzar.BatchBinding
import Remzar.SyncBooks
import Remzar.SyncProgress
