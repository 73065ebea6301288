import TelosSystem.BlockInfo
import TelosSystem.Token

/-! The tables of the system contract. Fields that always carry the core symbol (or the
REX symbol) are kept as amounts; row keys are not repeated inside the rows. Billing of RAM
to a payer is not part of the model. -/
namespace TelosSystem
open Ledger

structure RexPool where
  totalLent : ℤ
  totalUnlent : ℤ
  totalRent : ℤ
  totalLendable : ℤ
  totalRex : ℤ
  namebidProceeds : ℤ
  loanNum : ℕ := 0
  deriving DecidableEq, Repr

/-- The `rexretpool` row; times are in seconds. -/
structure RexReturnPool where
  lastDistTime : ℕ
  pendingBucketTime : ℕ := timeMax
  oldestBucketTime : ℕ := 0
  pendingBucketProceeds : ℤ := 0
  currentRateOfIncrease : ℤ := 0
  proceeds : ℤ := 0
  deriving DecidableEq, Repr

/-- `pair_time_point_sec_int64`. -/
structure Bucket where
  first : ℕ
  second : ℤ
  deriving DecidableEq, Repr

structure RexPools where
  rexpool : Option RexPool := none
  rexretpool : Option RexReturnPool := none
  retbuckets : Option (List Bucket) := none
  deriving DecidableEq, Repr

structure RexBalance where
  voteStake : ℤ
  rexBalance : ℤ
  maturedRex : ℤ := 0
  rexMaturities : List Bucket := []
  deriving DecidableEq, Repr

structure RexLoan where
  fromAccount : Name
  receiver : Name
  payment : ℤ
  balance : ℤ
  totalStaked : ℤ
  /-- microseconds -/
  expiration : ℕ
  deriving DecidableEq, Repr

structure RexOrder where
  rexRequested : ℤ
  proceeds : ℤ
  stakeChange : ℤ
  /-- microseconds -/
  orderTime : ℕ
  isOpen : Bool
  deriving DecidableEq, Repr

inductive LoanKind
  | cpu
  | net
  deriving DecidableEq, Repr

/-- REX bought by an owner; ghost data. -/
structure Acquisition where
  owner : Name
  time : BlockTimestamp
  amount : ℤ

/-- REX sold by an owner, at once or through the queue; ghost data. -/
structure Sale where
  owner : Name
  amount : ℤ

/-- The REX tables of the users. `acquired` and `sold` record every purchase and every
filled order; no modelled function reads them. -/
structure Rex where
  funds : Table Name ℤ
  balances : Table Name RexBalance
  orders : Table Name RexOrder
  loans : LoanKind → Table ℕ RexLoan
  acquired : List Acquisition
  sold : List Sale

structure DelegatedBandwidth where
  netWeight : ℤ
  cpuWeight : ℤ
  deriving DecidableEq, Repr

structure RefundRequest where
  /-- seconds -/
  requestTime : ℕ
  netAmount : ℤ
  cpuAmount : ℤ
  deriving DecidableEq, Repr

structure DeferredRefund where
  sentAt : ℕ
  delaySec : ℕ
  deriving DecidableEq, Repr

/-- `delband` under the delegating and the receiving account, `refunds` under the owner, and
the deferred transactions under their sender id. -/
structure Staking where
  delband : Table (Name × Name) DelegatedBandwidth
  refunds : Table Name RefundRequest
  deferred : Table Name DeferredRefund

structure UserResources where
  netWeight : ℤ
  cpuWeight : ℤ
  ramBytes : ℤ
  deriving DecidableEq, Repr

structure ResourceLimits where
  ramBytes : ℤ
  net : ℤ
  cpu : ℤ
  deriving DecidableEq, Repr

/-- `userres` and the limits the chain enforces. -/
structure Resources where
  userres : Table Name UserResources
  limits : Name → ResourceLimits

def powerupFrac : ℤ := 10 ^ 15

structure PowerupStateResource where
  weight : ℤ := 0
  weightRatio : ℤ := 0
  assumedStakeWeight : ℤ := 0
  initialWeightRatio : ℤ := powerupFrac
  targetWeightRatio : ℤ := powerupFrac / 100
  initialTimestamp : ℕ := 0
  targetTimestamp : ℕ := 0
  exponent : ℚ := 2
  decaySecs : ℕ := secondsPerDay
  minPrice : Asset := ⟨0, ⟨0, 0⟩⟩
  maxPrice : Asset := ⟨0, ⟨0, 0⟩⟩
  utilization : ℤ := 0
  adjustedUtilization : ℤ := 0
  utilizationTimestamp : ℕ := 0

structure PowerupState where
  net : PowerupStateResource := {}
  cpu : PowerupStateResource := {}
  powerupDays : ℕ := 30
  minPowerupFee : Asset := ⟨0, ⟨0, 0⟩⟩

structure PowerupOrder where
  owner : Name
  netWeight : ℤ
  cpuWeight : ℤ
  /-- seconds -/
  expires : ℕ
  deriving DecidableEq, Repr

structure Powerup where
  state : Option PowerupState
  orders : Table ℕ PowerupOrder

structure VoterInfo where
  proxy : Name := Name.empty
  producers : List Name := []
  staked : ℤ := 0
  lastStake : ℤ := 0
  lastVoteWeight : ℚ := 0
  proxiedVoteWeight : ℚ := 0
  isProxy : Bool := false
  flags1 : UInt32 := 0
  selfStakeBoost : Option ℕ := some 0

inductive KickType
  | reachedThreshold
  | bpsVoting
  deriving DecidableEq, Repr

/-- The missed blocks wrap as in the source; the other 32-bit counters go up by one a block or a
kick and are not wrapped. `register_producer` leaves `lifetime_missed_blocks` uninitialised: zero here. -/
structure ProducerInfo where
  totalVotes : ℚ := 0
  isActive : Bool := true
  location : ℕ := 0
  missedBlocksPerRotation : UInt32 := 0
  lifetimeMissedBlocks : UInt32 := 0
  timesKicked : ℕ := 0
  unpaidBlocks : ℕ := 0
  lifetimeProducedBlocks : ℕ := 0
  kickReason : Option KickType := none
  kickPenaltyHours : ℕ := 0
  lastTimeKicked : BlockTimestamp := BlockTimestamp.zero

/-- The zero address, for an EVM voting contract that is not set. -/
def noContract : Checksum160 := List.Vector.replicate 20 0

structure VotingConfig where
  evmVotingContract : Checksum160 := noContract
  decayStartEpoch : ℕ := 0
  decayIncreaseYearly : ℕ := 0
  selfStakeBoostMultiplier : ℕ := 0

structure Voting where
  voters : Table Name VoterInfo
  producers : Table Name ProducerInfo
  totalActivatedStake : ℤ
  totalProducerVoteWeight : ℚ
  config : VotingConfig

/-- The connector balances of the `rammarket` row. -/
structure ExchangeState where
  base : ℤ
  quote : ℤ
  deriving DecidableEq, Repr

structure Ram where
  market : ExchangeState
  maxRamSize : ℤ
  totalRamBytesReserved : ℤ
  totalRamStake : ℤ
  newRamPerBlock : ℕ
  lastRamIncrease : ℕ

structure NameBid where
  highBidder : Name
  highBid : ℤ
  /-- microseconds -/
  lastBidTime : ℕ
  deriving DecidableEq, Repr

structure Auctions where
  bids : Table Name NameBid
  refunds : Table (Name × Name) ℤ
  lastNameClose : ℕ

structure RotationState where
  bpCurrentlyOut : Name
  sbpCurrentlyIn : Name
  bpOutIndex : ℕ
  sbpInIndex : ℕ
  nextRotationTime : BlockTimestamp
  lastRotationTime : BlockTimestamp
  deriving DecidableEq

def RotationState.initial : RotationState :=
  ⟨Name.empty, Name.empty, 21, 75, BlockTimestamp.zero, BlockTimestamp.zero⟩

/-- `schedule_metrics_state`; a metric is a producer with its `missed_blocks_per_cycle`. The
counter of corrections moves by single blocks and is not wrapped. -/
structure ScheduleMetrics where
  lastOnblockCaller : Name := Name.empty
  blockCounterCorrection : ℤ := 0
  producersMetric : List (Name × ℕ) := []
  deriving DecidableEq, Repr

/-- What only block production and the pay of producers use. `proposed` records the schedules
given to the chain with their time; no modelled function reads it. -/
structure Production where
  rotation : RotationState := RotationState.initial
  metrics : ScheduleMetrics := {}
  lastProducerScheduleUpdate : BlockTimestamp := BlockTimestamp.zero
  lastProposedScheduleUpdate : BlockTimestamp := BlockTimestamp.zero
  lastProducerScheduleSize : ℕ := 0
  perblockBucket : ℤ := 0
  totalUnpaidBlocks : ℕ := 0
  /-- microseconds -/
  lastPervoteBucketFill : ℕ := 0
  lastClaimrewards : ℕ := 0
  payments : Table Name ℤ := ∅
  blockinfo : List BlockInfoRecord := []
  proposed : List (BlockTimestamp × List Name) := []

/-- The chain state the modelled actions read and write. -/
structure State where
  core : Symbol
  isAccount : Name → Bool
  token : Token
  pools : RexPools
  rex : Rex
  staking : Staking
  resources : Resources
  powerup : Powerup
  voting : Voting
  ram : Ram
  auctions : Auctions
  blockNum : ℕ
  /-- microseconds -/
  threshActivatedStakeTime : ℕ
  production : Production := {}

/-- The values the contract computes in floating-point arithmetic: the share of the stake
that counts when voting for a number of producers, the decayed part of a utilization
difference, the fee for an increase of the utilization, and the price of RAM bytes with
the fee. -/
class FloatOps where
  voteWeight : ℕ → ℚ
  decayedDifference : (difference : ℤ) → (elapsed decaySecs : ℕ) → ℤ
  powerupFee : PowerupStateResource → (utilizationIncrease : ℤ) → ℤ
  ramCost : (ramReserve eosReserve : ℤ) → (bytes : ℕ) → ℤ

namespace State

def setPool (s : State) (p : RexPool) : State :=
  { s with pools := { s.pools with rexpool := some p } }

def setBalance (s : State) (owner : Name) (rb : RexBalance) : State :=
  { s with rex := { s.rex with balances := s.rex.balances.insert owner rb } }

def setOrder (s : State) (owner : Name) (o : RexOrder) : State :=
  { s with rex := { s.rex with orders := s.rex.orders.insert owner o } }

def eraseOrder (s : State) (owner : Name) : State :=
  { s with rex := { s.rex with orders := s.rex.orders.erase owner } }

def setFund (s : State) (owner : Name) (balance : ℤ) : State :=
  { s with rex := { s.rex with funds := s.rex.funds.insert owner balance } }

def setLoan (s : State) (k : LoanKind) (num : ℕ) (loan : RexLoan) : State :=
  let loans := Function.update s.rex.loans k ((s.rex.loans k).insert num loan)
  { s with rex := { s.rex with loans } }

def eraseLoan (s : State) (k : LoanKind) (num : ℕ) : State :=
  let loans := Function.update s.rex.loans k ((s.rex.loans k).erase num)
  { s with rex := { s.rex with loans } }

/-- An inline `transfer` of `eosio.token`, authorised by the sending account. -/
def inlineTransfer (source dest : Name) (quantity : Asset) (memoSize : ℕ) (s : State) :
    Except String State := do
  let token ← s.token.transfer s.isAccount [source] source dest quantity memoSize
  pure { s with token }

def coreBalance (s : State) (owner : Name) : ℤ := s.token.balance owner s.core.code

end State
end TelosSystem
