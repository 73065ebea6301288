import TelosSystem.Table
import TelosSystem.Checked
import TelosSystem.Chain
import TelosSystem.RollingWindow
import TelosSystem.BlockInfo
import TelosSystem.Token
import TelosSystem.TokenConservation
import TelosSystem.Multisig
import TelosSystem.State
import TelosSystem.VoteTally
import TelosSystem.ResourceLimits
import TelosSystem.RexReturnPool
import TelosSystem.Ascending
import TelosSystem.RexReturnLedger
import TelosSystem.RexReturnRuns
import TelosSystem.RexMaturity
import TelosSystem.RexRows
import TelosSystem.RexAccount
import TelosSystem.RexMarket
import TelosSystem.RexActions
import TelosSystem.Bandwidth
import TelosSystem.RamMarket
import TelosSystem.PowerUp
import TelosSystem.NameBidding
import TelosSystem.Accounts
import TelosSystem.BigEndian
import TelosSystem.Rlp
import TelosSystem.EvmEncoding
import TelosSystem.Registration
import TelosSystem.Rotation
import TelosSystem.MissedBlocks
import TelosSystem.ProducerPay
import TelosSystem.VoteRecalculation
import TelosSystem.VotingSteps
import TelosSystem.BlockProduction
import TelosSystem.System
import TelosSystem.ProducerRows
import TelosSystem.ProducerEffects
import TelosSystem.Effects
import TelosSystem.RexEffects
import TelosSystem.ActionEffects
import TelosSystem.RexInvariant
import TelosSystem.RexPreservation
import TelosSystem.IdleActions
import TelosSystem.RexPurchase
import TelosSystem.RexSolvency
import TelosSystem.FeeBacking
import TelosSystem.TokenRuns
import TelosSystem.RexSharePrice
import TelosSystem.PurchaseLedger
import TelosSystem.RexLock
import TelosSystem.RexProgress
import TelosSystem.RexStructure
import TelosSystem.StakeCustody
import TelosSystem.PowerUpWeights
import TelosSystem.PowerUpMarket
import TelosSystem.BandwidthAccounting
import TelosSystem.ProducerSchedule
import TelosSystem.RoundRobin
import TelosSystem.RotationFairness
import TelosSystem.ApprovalLog
import TelosSystem.MultisigHistory
import TelosSystem.MultisigDelay
import TelosSystem.EvmVotes
import TelosSystem.ConstantProduct
import TelosSystem.RamAccounting
import TelosSystem.RamGrowth
import TelosSystem.NameCustody
import TelosSystem.PayLedger
import TelosSystem.PaySnapshot
import TelosSystem.MissedCharges
import TelosSystem.RecordedBlocks
import TelosSystem.ThresholdKicks
import TelosSystem.RexBounds
import TelosSystem.VoteChanges
import TelosSystem.VoteLedger
import TelosSystem.VoterStake
import TelosSystem.VoteWeights
import TelosSystem.EvmTransactions
import TelosSystem.AuctionHouse
import TelosSystem.NameAuctions
import TelosSystem.ProducerExclusion
import TelosSystem.Holdings
import TelosSystem.OrdinaryActions
import TelosSystem.AccountSafety
import TelosSystem.RefundPayouts
import TelosSystem.AccountLimits
import TelosSystem.LoanReceivers
import TelosSystem.RamSolvency
import TelosSystem.VoteUpdate
import TelosSystem.MissedLedger
import TelosSystem.LimitAuthChanges
