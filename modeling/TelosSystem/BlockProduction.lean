import TelosSystem.Accounts
import TelosSystem.Bandwidth
import TelosSystem.MissedBlocks
import TelosSystem.NameBidding
import TelosSystem.ProducerPay
import TelosSystem.VoteRecalculation

/-! The `onblock` action. -/
namespace TelosSystem
open Ledger

/-- A block as `onblock` sees it: its header, the active schedule, the chain's answer to a
proposed schedule, and the amounts of a payment snapshot. -/
structure Block where
  header : BlockHeader
  activeProducers : List Name
  accepted : List ProducerLocationPair → Bool
  payroll : Payroll

def countBlock (producer : Name) (s : State) : State :=
  match s.voting.producers.lookup producer with
  | some p =>
    let s := s.setProducers (s.voting.producers.insert producer { p with
      unpaidBlocks := p.unpaidBlocks + 1
      lifetimeProducedBlocks := p.lifetimeProducedBlocks + 1 })
    s.setProduction { s.production with totalUnpaidBlocks := s.production.totalUnpaidBlocks + 1 }
  | none => s

def State.record (s : State) (blockinfo : List BlockInfoRecord) : State :=
  { s with
    production := { s.production with blockinfo }
    blockNum := s.blockNum + 1 }

def recordBlock (header : BlockHeader) (s : State) : Except String State := do
  let blockinfo ← addToBlockinfoTable wrappingSub header s.production.blockinfo
  pure (s.record blockinfo)

/-- Before the activation of the chain only this happens. -/
def activateNetwork (now : BlockTimestamp) (timestamp : BlockTimestamp) (s : State) : State :=
  if blockNumNetworkActivation ≤ s.blockNum ∧ 0 < s.voting.totalProducerVoteWeight then
    { s.setProduction { s.production with lastClaimrewards := timestamp.slot } with
      threshActivatedStakeTime := now.usec }
  else s

/-- Once a minute the producers are elected and the highest auction may close. -/
def electAndClose (now : BlockTimestamp) (b : Block) (s : State) : Except String State :=
  if 120 < subSec b.header.timestamp.slot s.production.lastProducerScheduleUpdate.slot then do
    let s ← electProducers now b.header.timestamp b.accepted s
    pure (closeAuction b.header.timestamp now s)
  else .ok s

def takeSnapshot (now : BlockTimestamp) (b : Block) (s : State) : Except String State :=
  if addSec s.production.lastClaimrewards 3600 ≤ b.header.timestamp.slot then do
    let s ← claimrewardsSnapshot now b.payroll s
    pure (s.setProduction { s.production with lastClaimrewards := b.header.timestamp.slot })
  else .ok s

/-- The first active block starts the time of the pay. -/
def State.startFill (s : State) (now : BlockTimestamp) : State :=
  let fill :=
    if s.production.lastPervoteBucketFill = 0 then now.usec else s.production.lastPervoteBucketFill
  s.setProduction { s.production with lastPervoteBucketFill := fill }

section
variable [FloatOps]

/-- The part of an active block before the snapshot of the pay. -/
def countAndElect (now : BlockTimestamp) (b : Block) (s : State) : Except String State := do
  let s ← countMissedBlocks now b.header.timestamp b.header.producer b.activeProducers b.accepted
    (s.startFill now)
  let s := countBlock b.header.producer s
  let voting ← s.voting.recalculateVotes now
  electAndClose now b { s with voting }

def onblock (ctx : Context) (b : Block) (s : State) : Except String State := do
  requireAuth ctx systemAccount
  let s ← recordBlock b.header s
  if s.threshActivatedStakeTime = 0 then pure (activateNetwork ctx.now b.header.timestamp s)
  else do
    let s ← countAndElect ctx.now b s
    takeSnapshot ctx.now b s

end
end TelosSystem
