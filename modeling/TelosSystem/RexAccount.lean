import TelosSystem.VoteTally
import TelosSystem.RexRows

/-! REX funds, the collection of filled sell orders, and the channel that moves system fees
to the REX return pool. -/
namespace TelosSystem
open Ledger

def rexSystemInitialized (r : RexPools) : Bool := r.rexpool.isSome

def rexAvailable (r : RexPools) : Bool :=
  match r.rexpool with
  | some p => decide (0 < p.totalRex)
  | none => false

def transferFromFund (owner : Name) (amount : Asset) (s : State) : Except String State := do
  check (0 < amount.amount ∧ amount.symbol = s.core) "must transfer positive amount from REX fund"
  let balance ← require (s.rex.funds.lookup owner) "must deposit to REX fund first"
  check (amount.amount ≤ balance) "insufficient funds"
  pure (s.setFund owner (balance - amount.amount))

def transferToFund (owner : Name) (amount : Asset) (s : State) : Except String State := do
  check (0 < amount.amount ∧ amount.symbol = s.core) "must transfer positive amount to REX fund"
  match s.rex.funds.lookup owner with
  | none => pure (s.setFund owner amount.amount)
  | some balance => pure (s.setFund owner (balance + amount.amount))

def channelToRex (now : BlockTimestamp) (source : Name) (amount : Asset) (required : Bool)
    (s : State) : Except String State :=
  if rexAvailable s.pools then do
    let pools ← addToRexReturnPool now amount.amount s.pools
    State.inlineTransfer source rexAccount amount 40 { s with pools }
  else do
    check (required = false) "can't channel fees to rex"
    pure s

def channelNamebidToRex (highestBid : ℤ) (s : State) : State :=
  match s.pools.rexpool with
  | some p =>
    if 0 < p.totalRex then s.setPool { p with namebidProceeds := p.namebidProceeds + highestBid }
    else s
  | none => s

/-- The REX vote stake follows the value of the REX held; the votes are not updated here. -/
def updateRexStake (voter : Name) (s : State) : State :=
  match s.rex.balances.lookup voter, s.pools.rexpool with
  | some rb, some p =>
    if 0 < p.totalRex then
      let current := rb.rexBalance * p.totalLendable / p.totalRex
      let s := s.setBalance voter { rb with voteStake := current }
      let delta := current - rb.voteStake
      match s.voting.voters.lookup voter with
      | some row =>
        if delta ≠ 0 then
          { s with voting := s.voting.setVoter voter { row with staked := row.staked + delta } }
        else s
      | none => s
    else s
  | _, _ => s

/-- The order of an owner: the REX still to be sold, the proceeds and the vote stake of a
filled order, and the state without that filled order. -/
def takeOrder (owner : Name) (s : State) : ℤ × ℤ × ℤ × State :=
  match s.rex.orders.lookup owner with
  | some o =>
    if o.isOpen then (o.rexRequested, 0, 0, s)
    else (0, o.proceeds, o.stakeChange, s.eraseOrder owner)
  | none => (0, 0, 0, s)

def creditFund (owner : Name) (toFund : ℤ) (s : State) : Except String State :=
  if 0 < toFund then transferToFund owner ⟨toFund, s.core⟩ s else .ok s

def updateVoteStake [FloatOps] (now : BlockTimestamp) (owner : Name) (toStake : ℤ)
    (forceVoteUpdate : Bool) (s : State) : Except String State :=
  if forceVoteUpdate ∨ toStake ≠ 0 then do
    let voting ← s.voting.updateVotingPower now owner toStake
    pure { s with voting }
  else .ok s

/-- Returns the REX in the owner's open order. -/
def updateRexAccount [FloatOps] (now : BlockTimestamp) (owner : Name) (proceeds deltaStake : ℤ)
    (forceVoteUpdate : Bool) (s : State) : Except String (ℤ × State) := do
  let (rexInSellOrder, orderProceeds, stakeChange, s) := takeOrder owner s
  let s ← creditFund owner (proceeds + orderProceeds) s
  let s ← updateVoteStake now owner (deltaStake + stakeChange) forceVoteUpdate s
  pure (rexInSellOrder, s)

end TelosSystem
