import Lytix.Chain.ActivateBestChain
import Lytix.Chain.ActiveChain
import Lytix.Chain.BaseUint
import Lytix.Chain.BlockFiles
import Lytix.Chain.BlockIndex
import Lytix.Chain.BlockTree
import Lytix.Chain.CandidateRuns
import Lytix.Chain.ChainInvariant
import Lytix.Chain.ChainState
import Lytix.Chain.ChainTrust
import Lytix.Chain.DarkGravity
import Lytix.Chain.DiskBlockIndex
import Lytix.Chain.FindMostWorkChain
import Lytix.Chain.GroundedIndex
import Lytix.Chain.IntegerEncodings
import Lytix.Chain.InvalidateBlock
import Lytix.Chain.LimbDivision
import Lytix.Chain.LoadBlockIndex
import Lytix.Chain.MostWorkSelection
import Lytix.Chain.NewBlocks
import Lytix.Chain.NextWork
import Lytix.Chain.ReceivedBlocks
import Lytix.Chain.SkipList
import Lytix.Chain.StakeRetarget
import Lytix.Chain.Targets
import Lytix.Chain.VectorChain
import Lytix.Coins.CacheRefinement
import Lytix.Coins.Coins
import Lytix.Coins.CompressionRoundTrip
import Lytix.Coins.Compressor
import Lytix.Coins.Disconnect
import Lytix.Coins.DiskFormat
import Lytix.Coins.SpentOnce
import Lytix.Coins.ViewCache
import Lytix.Crypto.Digests
import Lytix.Crypto.Hasher
import Lytix.Crypto.Sha2
import Lytix.Kernel.ModifierAgreement
import Lytix.Kernel.SelectedBlocks
import Lytix.Kernel.StakeAgreement
import Lytix.Kernel.StakeInput
import Lytix.Kernel.StakeModifier
import Lytix.Lib.Accesses
import Lytix.Lib.Binary64
import Lytix.Lib.BitGroups
import Lytix.Lib.BitTables
import Lytix.Lib.BlockChaining
import Lytix.Lib.BoundedLoops
import Lytix.Lib.Buffers
import Lytix.Lib.CheckedStacks
import Lytix.Lib.Checks
import Lytix.Lib.CoinSystems
import Lytix.Lib.CountEntries
import Lytix.Lib.Dependencies
import Lytix.Lib.Fields
import Lytix.Lib.FirstFit
import Lytix.Lib.FreeSpace
import Lytix.Lib.Heaps
import Lytix.Lib.LatestWins
import Lytix.Lib.Limbs
import Lytix.Lib.LittleEndian
import Lytix.Lib.Maps
import Lytix.Lib.Memo
import Lytix.Lib.MerkleTrees
import Lytix.Lib.Multimaps
import Lytix.Lib.OrderedMatching
import Lytix.Lib.OrderedTables
import Lytix.Lib.Picks
import Lytix.Lib.Radix
import Lytix.Lib.Readers
import Lytix.Lib.RecordTables
import Lytix.Lib.Runs
import Lytix.Lib.SecureHashes
import Lytix.Lib.SetIndex
import Lytix.Lib.SkipLists
import Lytix.Lib.SlotTables
import Lytix.Lib.SwapIndex
import Lytix.Lib.VarInts
import Lytix.Lib.Worklists
import Lytix.Lib.WriteBack
import Lytix.Masternodes.BroadcastMessage
import Lytix.Masternodes.CheckAndRemove
import Lytix.Masternodes.KeyChange
import Lytix.Masternodes.Pings
import Lytix.Masternodes.RandomChoice
import Lytix.Mempool.BlockConflicts
import Lytix.Mempool.ConnectedCoins
import Lytix.Mempool.PoolInvariant
import Lytix.Mempool.PoolRuns
import Lytix.Mempool.RecursiveRemoval
import Lytix.Mining.CollectedTransactions
import Lytix.Mining.CreateNewBlock
import Lytix.Mining.ScanPool
import Lytix.Mining.SelfConsistent
import Lytix.Net.AddrMan
import Lytix.Net.AddrManKept
import Lytix.Net.AddrManOperations
import Lytix.Net.AddrManRuns
import Lytix.Net.AddrManSteps
import Lytix.Net.BlocksInFlight
import Lytix.Net.BloomFilter
import Lytix.Net.FindNextBlocks
import Lytix.Net.LimitedMap
import Lytix.Net.MessageLink
import Lytix.Net.NetAddress
import Lytix.Net.NetMessage
import Lytix.Net.OrphanTransactions
import Lytix.Net.ReceiveMessages
import Lytix.Params.ChainParams
import Lytix.Payments.Allotments
import Lytix.Payments.BlockHash
import Lytix.Payments.Budget
import Lytix.Payments.BudgetHistory
import Lytix.Payments.BudgetPayer
import Lytix.Payments.BudgetVotes
import Lytix.Payments.ForgedBudgetVote
import Lytix.Payments.ForgedWinner
import Lytix.Payments.NodePayments
import Lytix.Payments.OrphanRun
import Lytix.Payments.OrphanVotes
import Lytix.Payments.PayeeRepeat
import Lytix.Payments.PayeeShares
import Lytix.Payments.Proposals
import Lytix.Payments.RankOrder
import Lytix.Payments.Subsidy
import Lytix.Payments.WinnerTally
import Lytix.Payments.WinnerVotes
import Lytix.Primitives.Base58
import Lytix.Primitives.Base64
import Lytix.Primitives.MerkleTree
import Lytix.Primitives.MoneyText
import Lytix.Primitives.PartialMerkleTree
import Lytix.Primitives.Transaction
import Lytix.Script.EvalSafety
import Lytix.Script.Interpreter
import Lytix.Script.Multisig
import Lytix.Script.Opcodes
import Lytix.Script.ScriptNum
import Lytix.Script.ScriptPushes
import Lytix.Script.SigOpCount
import Lytix.Sporks.ProcessSpork
import Lytix.Swifttx.CleanLocks
import Lytix.Swifttx.CompletedLocks
import Lytix.Swifttx.DistinctVoters
import Lytix.Swifttx.LockInvariant
import Lytix.Swifttx.LockOrder
import Lytix.Swifttx.LostVotes
import Lytix.Swifttx.ProcessMessage
import Lytix.Swifttx.TransactionLocks
import Lytix.Validation.AcceptBlock
import Lytix.Validation.CheckBlock
import Lytix.Validation.CheckQueue
import Lytix.Validation.ConnectBlock
import Lytix.Validation.Consensus
import Lytix.Validation.Conservation
import Lytix.Validation.DryRun
import Lytix.Validation.ForkSerials
import Lytix.Validation.ForkStake
import Lytix.Validation.KernelReads
import Lytix.Validation.MaxnodePayee
import Lytix.Validation.Recalculate
import Lytix.Validation.Reconnects
import Lytix.Validation.ScriptReads
import Lytix.Validation.StoresNothing
import Lytix.Validation.VtxAccess
import Lytix.Validation.WellScripted
import Lytix.Wallet.CoinSelection
import Lytix.Wallet.ConservedValue
import Lytix.Wallet.CreateCoinStake
import Lytix.Wallet.CreateTransaction
import Lytix.Wallet.ExactSpends
import Lytix.Wallet.MintSelection
import Lytix.Wallet.SelectMints
import Lytix.Wallet.Solver
import Lytix.Wallet.StakeReward
import Lytix.Zerocoin.Accumulators
import Lytix.Zerocoin.ChecksumHeight
import Lytix.Zerocoin.ClosestCheckpoint
import Lytix.Zerocoin.CoinRecords
import Lytix.Zerocoin.DistinctMints
import Lytix.Zerocoin.ErasedChecksums
import Lytix.Zerocoin.RecordMirror
import Lytix.Zerocoin.RecordRuns
import Lytix.Zerocoin.RecordsKept
import Lytix.Zerocoin.Reindex
import Lytix.Zerocoin.WitnessWalk
