import TelosSystem.RexActions

/-! Staking for bandwidth: `changebw` with the netting of a new self-stake against a pending
refund, and the payout of refunds. -/
namespace TelosSystem
open Ledger

def refundDelaySec : ℕ := 3 * secondsPerDay
def blockNumNetworkActivation : ℕ := 1000

def changeDelband (owner receiver : Name) (netDelta cpuDelta : ℤ) (s : State) :
    Except String State := do
  let d : DelegatedBandwidth :=
    match s.staking.delband.lookup (owner, receiver) with
    | none => ⟨netDelta, cpuDelta⟩
    | some d => ⟨d.netWeight + netDelta, d.cpuWeight + cpuDelta⟩
  check (0 ≤ d.netWeight) "insufficient staked net bandwidth"
  check (0 ≤ d.cpuWeight) "insufficient staked cpu bandwidth"
  pure (s.storeDelband (owner, receiver) d)

/-- A pending refund minus a stake change: what stays refundable, and what still has to be
paid for the stake. -/
def netted (refunded delta : ℤ) : ℤ × ℤ :=
  if refunded - delta < 0 then (0, -(refunded - delta)) else (refunded - delta, 0)

def State.setRefund (s : State) (owner : Name) (r : RefundRequest) : State :=
  { s with staking := { s.staking with refunds := s.staking.refunds.insert owner r } }

def State.eraseRefund (s : State) (owner : Name) : State :=
  { s with staking := { s.staking with refunds := s.staking.refunds.erase owner } }

/-- The refund row of an owner after a stake change. Returns what is still to be paid for
NET and CPU, and whether a refund has to be scheduled. -/
def updateRefund (now : BlockTimestamp) (owner : Name) (netDelta cpuDelta : ℤ) (s : State) :
    Except String (ℤ × ℤ × Bool × State) :=
  match s.staking.refunds.lookup owner with
  | some r => do
    let (netAmount, netBalance) := netted r.netAmount netDelta
    let (cpuAmount, cpuBalance) := netted r.cpuAmount cpuDelta
    let requestTime := if netDelta < 0 ∨ cpuDelta < 0 then now.sec else r.requestTime
    check (0 ≤ netAmount) "negative net refund amount"
    check (0 ≤ cpuAmount) "negative cpu refund amount"
    if netAmount = 0 ∧ cpuAmount = 0 then pure (netBalance, cpuBalance, false, s.eraseRefund owner)
    else pure (netBalance, cpuBalance, true, s.setRefund owner ⟨requestTime, netAmount, cpuAmount⟩)
  | none =>
    if netDelta < 0 ∨ cpuDelta < 0 then
      let r : RefundRequest :=
        ⟨now.sec, if netDelta < 0 then -netDelta else 0, if cpuDelta < 0 then -cpuDelta else 0⟩
      pure (if netDelta < 0 then 0 else netDelta, if cpuDelta < 0 then 0 else cpuDelta, true,
        s.setRefund owner r)
    else pure (netDelta, cpuDelta, false, s)

def State.scheduleRefund (s : State) (owner : Name) (now : BlockTimestamp)
    (needDeferredTrx : Bool) : State :=
  let deferred := if needDeferredTrx then s.staking.deferred.insert owner ⟨now.sec, refundDelaySec⟩
    else s.staking.deferred.erase owner
  { s with staking := { s.staking with deferred } }

/-- Only a stake to oneself or an unstake touches the refund of the owner. -/
def refundBalances (now : BlockTimestamp) (owner receiver : Name) (netDelta cpuDelta : ℤ)
    (transfer : Bool) (s : State) : Except String (ℤ × ℤ × Bool × State) :=
  let isUndelegating := netDelta + cpuDelta < 0
  let isDelegatingToSelf := transfer = false ∧ owner = receiver
  if isDelegatingToSelf ∨ isUndelegating then updateRefund now owner netDelta cpuDelta s
  else .ok (netDelta, cpuDelta, false, s)

/-- The refund part of `changebw`: `sourceStakeFrom` pays, `owner` holds the stake. -/
def settleRefund (now : BlockTimestamp) (sourceStakeFrom owner receiver : Name)
    (netDelta cpuDelta : ℤ) (transfer : Bool) (s : State) : Except String State := do
  let (netBalance, cpuBalance, needDeferredTrx, s) ←
    refundBalances now owner receiver netDelta cpuDelta transfer s
  let s := s.scheduleRefund owner now needDeferredTrx
  if 0 < netBalance + cpuBalance then
    s.inlineTransfer sourceStakeFrom stakeAccount ⟨netBalance + cpuBalance, s.core⟩ 15
  else pure s

section
variable [FloatOps]

/-- The rows and tokens a stake change moves. The totals are written as in
`adjust_resources`. -/
def moveStake (now : BlockTimestamp) (sourceStakeFrom owner receiver : Name) (netDelta cpuDelta : ℤ)
    (transfer : Bool) (s : State) : Except String State := do
  let s ← changeDelband owner receiver netDelta cpuDelta s
  let s ← adjustResources receiver netDelta cpuDelta false s
  if stakeAccount ≠ sourceStakeFrom then
    settleRefund now sourceStakeFrom owner receiver netDelta cpuDelta transfer s
  else pure s

def changebw (ctx : Context) (fromAccount receiver : Name) (netDelta cpuDelta : ℤ) (transfer : Bool)
    (s : State) : Except String State := do
  requireAuth ctx fromAccount
  check (netDelta ≠ 0 ∨ cpuDelta ≠ 0) "should stake non-zero amount"
  check (max |netDelta| |cpuDelta| ≤ |netDelta + cpuDelta|)
    "net and cpu deltas cannot be opposite signs"
  let owner := if transfer then receiver else fromAccount
  let s ← moveStake ctx.now fromAccount owner receiver netDelta cpuDelta transfer s
  let s := updateRexStake owner s
  let voting ← s.voting.updateVotingPower ctx.now owner (netDelta + cpuDelta)
  pure { s with voting }

def symbolMismatch : String := "comparison of assets with different symbols is not allowed"

def stakeAmounts (core : Symbol) (net cpu : Asset) (msg : String) : Except String Unit := do
  check (cpu.symbol = core) symbolMismatch
  check (0 ≤ cpu.amount) msg
  check (net.symbol = core) symbolMismatch
  check (0 ≤ net.amount) msg
  check (0 < net.amount + cpu.amount) msg

def delegatebw (ctx : Context) (fromAccount receiver : Name) (stakeNet stakeCpu : Asset)
    (transfer : Bool) (s : State) : Except String State := do
  stakeAmounts s.core stakeNet stakeCpu "must stake a positive amount"
  check (transfer = false ∨ fromAccount ≠ receiver) "cannot use transfer flag if delegating to self"
  changebw ctx fromAccount receiver stakeNet.amount stakeCpu.amount transfer s

def undelegatebw (ctx : Context) (fromAccount receiver : Name) (unstakeNet unstakeCpu : Asset)
    (s : State) : Except String State := do
  stakeAmounts s.core unstakeNet unstakeCpu "must unstake a positive amount"
  check (blockNumNetworkActivation < s.blockNum ∨ 0 < s.threshActivatedStakeTime)
    "cannot undelegate bandwidth until the chain is activated (1,000,000 blocks produced)"
  changebw ctx fromAccount receiver (-unstakeNet.amount) (-unstakeCpu.amount) false s

def refund (ctx : Context) (owner : Name) (s : State) : Except String State := do
  requireAuth ctx owner
  let r ← require (s.staking.refunds.lookup owner) "refund request not found"
  check ((r.requestTime + refundDelaySec) * 1000000 ≤ ctx.now.usec) "refund is not available yet"
  let s ← s.inlineTransfer stakeAccount owner ⟨r.netAmount + r.cpuAmount, s.core⟩ 7
  pure (s.eraseRefund owner)

def voteproducer (ctx : Context) (voter proxy : Name) (producers : List Name) (s : State) :
    Except String State := do
  requireAuth ctx voter
  let s := updateRexStake voter s
  let voting ← s.voting.updateVotes ctx.now voter proxy producers true
  pure { s with voting }

def voteupdate (ctx : Context) (voter : Name) (s : State) : Except String State := do
  check ((s.voting.voters.lookup voter).isSome) "no voter found"
  let s ← updaterex ctx voter s
  let rexStake :=
    match s.rex.balances.lookup voter with
    | some rb => if 0 < rb.rexBalance then rb.voteStake else 0
    | none => 0
  let newStaked := rexStake + s.staking.delband.total fun key d =>
    if key.1 = voter then d.netWeight + d.cpuWeight else 0
  let row ← require (s.voting.voters.lookup voter) "no voter found"
  let row := { row with staked := newStaked }
  let voting ← (s.voting.setVoter voter row).updateVotes ctx.now voter row.proxy row.producers true
  pure { s with voting }

end
end TelosSystem
