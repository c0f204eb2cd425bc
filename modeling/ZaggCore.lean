import ZaggCore.Xdr.Types
import ZaggCore.Xdr.LedgerEntries
import ZaggCore.Foundations.SortedKeys
import ZaggCore.Foundations.LayeredLog
import ZaggCore.Transactions.SignatureChecker
import ZaggCore.Bucket.Bucket
import ZaggCore.Bucket.BucketList
import ZaggCore.Bucket.BucketApplicator
import ZaggCore.Bucket.LedgerRebuilt
import ZaggCore.Util.LruCache
import ZaggCore.Ledger.LedgerTxn
import ZaggCore.Ledger.BestOffer
import ZaggCore.Foundations.BestOf
import ZaggCore.Foundations.Ranking
import ZaggCore.Crypto.StrKey
import ZaggCore.Ledger.InflationWinners
import ZaggCore.Ledger.WinnersRanking
import ZaggCore.Ledger.LedgerState
import ZaggCore.Ledger.LedgerRuns
import ZaggCore.Foundations.Odometer
import ZaggCore.Foundations.BitMasks
import ZaggCore.Util.BitsetEnumerator
import ZaggCore.Util.SubsetEnumeration
import ZaggCore.Foundations.Checked
import ZaggCore.History.Checkpoints
import ZaggCore.Ledger.LedgerClose
import ZaggCore.Ledger.CatchupState
import ZaggCore.Ledger.CatchupRuns
import ZaggCore.Work.Work
import ZaggCore.Catchup.CatchupRange
import ZaggCore.Catchup.VerifyLedgerChain
import ZaggCore.Catchup.VerifiedChain
import ZaggCore.Catchup.ApplyLedgerChain
import ZaggCore.Catchup.TrustedCatchup
import ZaggCore.Xdr.Transactions
import ZaggCore.Util.Numeric
import ZaggCore.Util.Uint128
import ZaggCore.Util.WideDivision
import ZaggCore.Util.Timer
import ZaggCore.Util.TimerRuns
import ZaggCore.Util.TimerSteps
import ZaggCore.Foundations.Nested
import ZaggCore.Foundations.KeyedSum
import ZaggCore.Transactions.AbstractLedgerTxn
import ZaggCore.Transactions.TransactionUtils
import ZaggCore.Transactions.OperationFrame
import ZaggCore.Transactions.EntryChanges
import ZaggCore.Transactions.OfferExchange
import ZaggCore.Herder.Upgrades
import ZaggCore.Transactions.AccountOperations
import ZaggCore.Transactions.OfferOperations
import ZaggCore.Transactions.TransactionFrame
import ZaggCore.Ledger.LedgerManagerImpl
import ZaggCore.Transactions.Atomicity
import ZaggCore.Transactions.Accounting
import ZaggCore.Transactions.ExchangeBounds
import ZaggCore.Transactions.ExchangeEffects
import ZaggCore.Foundations.Runs
import ZaggCore.Overlay.ItemFetcher
import ZaggCore.Bucket.FutureBucket
import ZaggCore.Bucket.MergingList
import ZaggCore.Bucket.Restart
import ZaggCore.Bucket.LedgerRanges
import ZaggCore.Foundations.Replay
import ZaggCore.Transactions.CheckAgain
import ZaggCore.Xdr.Marshal
import ZaggCore.Herder.TxSetFrame
import ZaggCore.Herder.HerderSCPDriver
import ZaggCore.Herder.CombinedCandidate
import ZaggCore.Overlay.OverlayManager
import ZaggCore.Overlay.PeerRegistry
import ZaggCore.Foundations.Triples
import ZaggCore.Xdr.Scp
import ZaggCore.Scp.SCPDriver
import ZaggCore.Scp.LocalNode
import ZaggCore.Scp.NominationProtocol
import ZaggCore.Scp.NominationRuns
import ZaggCore.Scp.BallotProtocol
import ZaggCore.Scp.BallotOrder
import ZaggCore.Scp.BallotRecord
import ZaggCore.Scp.BallotPositions
import ZaggCore.Scp.BallotMessages
import ZaggCore.Scp.BallotRuns
import ZaggCore.Scp.BallotRestart
import ZaggCore.Scp.CounterBump
import ZaggCore.Herder.ExtractedValue
import ZaggCore.Foundations.Mirrored
import ZaggCore.Scp.NotedBallots
import ZaggCore.Scp.QuorumSets
import ZaggCore.Scp.Quorums
import ZaggCore.Scp.NormalForm
import ZaggCore.Scp.CommitIntervals
import ZaggCore.Scp.OwnStatement
import ZaggCore.Scp.PrepareCandidates
import ZaggCore.Scp.AdvancePotential
import ZaggCore.Scp.AdvanceSteps
import ZaggCore.Scp.AdvanceFrames
import ZaggCore.Scp.AttemptSpecs
import ZaggCore.Scp.SettledStates
import ZaggCore.Scp.AdvanceDepth
import ZaggCore.Scp.BoundedAdvance
import ZaggCore.Foundations.Cheapest
import ZaggCore.Scp.ClosestBlocking
import ZaggCore.Foundations.Rounds
import ZaggCore.Herder.ApplyOrder
import ZaggCore.Herder.PendingTransactions
import ZaggCore.Herder.PendingRuns
import ZaggCore.Foundations.SortedMap
import ZaggCore.Overlay.WaitingEnvelopes
import ZaggCore.Herder.PendingEnvelopes
import ZaggCore.Herder.SlotEnvelopes
import ZaggCore.Herder.WatchedEnvelopes
import ZaggCore.Herder.EnvelopeStaging
import ZaggCore.Bucket.BucketMerge
import ZaggCore.Bucket.SkipList
import ZaggCore.Transactions.VersionGate
import ZaggCore.Transactions.PaymentFailures
import ZaggCore.Transactions.Standings
import ZaggCore.Transactions.PartyUpdates
import ZaggCore.Transactions.OfferTrail
import ZaggCore.Transactions.BackedOffers
import ZaggCore.Transactions.BookFill
import ZaggCore.Transactions.NodeFrames
import ZaggCore.Transactions.NodeState
import ZaggCore.Invariant.LiabilitiesMatchOffers
import ZaggCore.Invariant.LiabilitiesCheck
import ZaggCore.Util.EnumeratorRuns
import ZaggCore.History.InferredQuorum
import ZaggCore.History.QuorumIntersection
import ZaggCore.Foundations.FederatedVoting
import ZaggCore.Scp.GroundedPositions
import ZaggCore.Scp.HonestNodes
import ZaggCore.Scp.MoveSpecs
import ZaggCore.Scp.HonestRuns
import ZaggCore.Scp.SlotNetwork
import ZaggCore.Transactions.CrossingEffects
import ZaggCore.Transactions.OperationEffects
import ZaggCore.Transactions.BookEffects
import ZaggCore.Transactions.TransactionEffects
import ZaggCore.Herder.UpgradeEffects
import ZaggCore.Foundations.Counters
import ZaggCore.Ledger.LedgerAccounting
import ZaggCore.Ledger.SequenceNumbers
import ZaggCore.Ledger.SqlTables
import ZaggCore.Ledger.FaithfulRuns
