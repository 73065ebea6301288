import TelosSystem.RexMarket

/-! The REX actions. Inline token transfers take part in the action: they commit with it or
abort it. The result actions, which only show up in traces, are left out. -/
namespace TelosSystem
open Ledger

section
variable [FloatOps]

def deposit (ctx : Context) (owner : Name) (amount : Asset) (s : State) : Except String State := do
  requireAuth ctx owner
  check (amount.symbol = s.core) "must deposit core token"
  check (0 < amount.amount) "must deposit a positive amount"
  let s ← s.inlineTransfer owner rexAccount amount 19
  transferToFund owner amount s

def withdraw (ctx : Context) (owner : Name) (amount : Asset) (s : State) : Except String State := do
  requireAuth ctx owner
  check (amount.symbol = s.core) "must withdraw core token"
  check (0 < amount.amount) "must withdraw a positive amount"
  let (_, s) ← updateRexAccount ctx.now owner 0 0 false s
  let s ← transferFromFund owner amount s
  s.inlineTransfer rexAccount owner amount 22

/-- The pool and the owner's row after a payment; returns the change of the vote stake. -/
def purchase (now : BlockTimestamp) (owner : Name) (payment : ℤ) (s : State) :
    Except String (ℤ × State) := do
  let (rexReceived, s) ← addToRexPool payment s
  addToRexBalance now owner payment rexReceived s

def buyrex (ctx : Context) (fromAccount : Name) (amount : Asset) (s : State) :
    Except String State := do
  requireAuth ctx fromAccount
  check (amount.symbol = s.core) "asset must be core token"
  check (0 < amount.amount) "must use positive amount"
  let s ← transferFromFund fromAccount amount s
  let (deltaRexStake, s) ← purchase ctx.now fromAccount amount.amount s
  let s ← runrex ctx.now 2 s
  let (_, s) ← updateRexAccount ctx.now fromAccount 0 deltaRexStake false s
  pure s

def DelegatedBandwidth.isEmpty (d : DelegatedBandwidth) : Bool :=
  d.netWeight == 0 && d.cpuWeight == 0

/-- Write a `delband` row, or erase it when nothing is left in it. -/
def State.storeDelband (s : State) (key : Name × Name) (d : DelegatedBandwidth) : State :=
  let delband := if d.isEmpty then s.staking.delband.erase key else s.staking.delband.insert key d
  { s with staking := { s.staking with delband } }

def unstakeBandwidth (owner receiver : Name) (fromNet fromCpu : ℤ) (s : State) :
    Except String State := do
  let d ← require (s.staking.delband.lookup (owner, receiver))
    "delegated bandwidth record does not exist"
  check (fromNet ≤ d.netWeight) "amount exceeds tokens staked for net"
  check (fromCpu ≤ d.cpuWeight) "amount exceeds tokens staked for cpu"
  let s := s.storeDelband (owner, receiver) ⟨d.netWeight - fromNet, d.cpuWeight - fromCpu⟩
  updateResourceLimits receiver (-fromNet) (-fromCpu) s

def unstaketorex (ctx : Context) (owner receiver : Name) (fromNet fromCpu : Asset) (s : State) :
    Except String State := do
  requireAuth ctx owner
  check (fromNet.symbol = s.core ∧ fromCpu.symbol = s.core) "asset must be core token"
  check (0 ≤ fromNet.amount ∧ 0 ≤ fromCpu.amount ∧ (0 < fromNet.amount ∨ 0 < fromCpu.amount))
    "must unstake a positive amount to buy rex"
  let s ← unstakeBandwidth owner receiver fromNet.amount fromCpu.amount s
  let payment := fromNet.amount + fromCpu.amount
  let s ← s.inlineTransfer stakeAccount rexAccount ⟨payment, s.core⟩ 26
  let (rexStakeDelta, s) ← purchase ctx.now owner payment s
  let s ← runrex ctx.now 2 s
  let (_, s) ← updateRexAccount ctx.now owner 0 (rexStakeDelta - payment) true s
  pure s

def queuedOrder (now : BlockTimestamp) (rex : ℤ) (old : Option RexOrder) : RexOrder :=
  match old with
  | none => ⟨rex, 0, 0, now.usec, true⟩
  | some o => { o with rexRequested := o.rexRequested + rex }

/-- Queue an order that could not be filled; returns the REX in the owner's open order. -/
def queueOrder (now : BlockTimestamp) (owner : Name) (rex : ℤ) (success : Bool) (pending : ℤ)
    (s : State) : Except String (ℤ × State) :=
  if success then .ok (pending, s)
  else do
    check (owner ≠ b1Account) "b1 sellrex orders should not be queued"
    let o := queuedOrder now rex (s.rex.orders.lookup owner)
    pure (o.rexRequested, s.setOrder owner o)

def sellMatured (now : BlockTimestamp) (owner : Name) (rex : ℤ) (rb : RexBalance) (s : State) :
    Except String State := do
  let rb := rb.processRexMaturities now
  let s := s.setBalance owner rb
  check (rex ≤ rb.maturedRex) "insufficient available rex"
  let (order, s) ← fillRexOrder owner rb rex s
  check (¬ (order.success ∧ order.proceeds = 0)) "proceeds are negligible"
  let (pending, s) ← updateRexAccount now owner order.proceeds order.stakeChange false s
  let (pending, s) ← queueOrder now owner rex order.success pending s
  let row ← require (s.rex.balances.lookup owner) missingRow
  check (pending ≤ row.maturedRex) "insufficient funds for current and scheduled orders"
  pure s

def positiveRex (rex : Asset) : Except String Unit :=
  check (0 < rex.amount ∧ rex.symbol = rexSymbol) "asset must be a positive amount of (REX, 4)"

def sellrex (ctx : Context) (fromAccount : Name) (rex : Asset) (s : State) :
    Except String State := do
  requireAuth ctx fromAccount
  let s ← runrex ctx.now 2 s
  let rb ← require (s.rex.balances.lookup fromAccount) "user must first buyrex"
  positiveRex rex
  sellMatured ctx.now fromAccount rex.amount rb s

def cnclrexorder (ctx : Context) (owner : Name) (s : State) : Except String State := do
  requireAuth ctx owner
  let o ← require (s.rex.orders.lookup owner) "no sellrex order is scheduled"
  check o.isOpen "sellrex order has been filled and cannot be canceled"
  pure (s.eraseOrder owner)

def uniqueKey : String :=
  "could not insert object, most likely a uniqueness constraint was violated"

/-- What renting does after the maintenance run and its checks. -/
def openLoan (now : BlockTimestamp) (k : LoanKind) (fromAccount receiver : Name) (payment fund : ℤ)
    (s : State) : Except String State := do
  let s ← transferFromFund fromAccount ⟨payment + fund, s.core⟩ s
  let p ← require s.pools.rexpool missingRow
  let rentedTokens := getBancorOutput p.totalRent p.totalUnlent payment
  check (payment < rentedTokens) "loan price does not favor renting"
  let pools ← addLoanToRexPool now payment rentedTokens true s.pools
  let p ← require pools.rexpool missingRow
  check ((s.rex.loans k).lookup p.loanNum = none) uniqueKey
  let loan : RexLoan :=
    { fromAccount
      receiver
      payment
      balance := fund
      totalStaked := rentedTokens
      expiration := now.usec + loanTerm }
  updateLoanLimits k receiver rentedTokens ({ s with pools }.setLoan k p.loanNum loan)

/-- `rentcpu` and `rentnet`. -/
def rent (k : LoanKind) (ctx : Context) (fromAccount receiver : Name) (payment fund : Asset)
    (s : State) : Except String State := do
  requireAuth ctx fromAccount
  let s ← runrex ctx.now 2 s
  check (rexLoansAvailable s) "rex loans are currently not available"
  check (payment.symbol = s.core ∧ fund.symbol = s.core) "must use core token"
  check (0 < payment.amount ∧ 0 ≤ fund.amount) "must use positive asset amount"
  openLoan ctx.now k fromAccount receiver payment.amount fund.amount s

def rentcpu := rent .cpu
def rentnet := rent .net

/-- `fundcpuloan` and `fundnetloan`. -/
def fundLoan (k : LoanKind) (ctx : Context) (fromAccount : Name) (loanNum : ℕ) (payment : Asset)
    (s : State) : Except String State := do
  requireAuth ctx fromAccount
  check (payment.symbol = s.core) "must use core token"
  let s ← transferFromFund fromAccount payment s
  let loan ← require ((s.rex.loans k).lookup loanNum) "loan not found"
  check (loan.fromAccount = fromAccount) "user must be loan creator"
  check (ctx.now.usec < loan.expiration) "loan has already expired"
  pure (s.setLoan k loanNum { loan with balance := loan.balance + payment.amount })

def fundcpuloan := fundLoan .cpu
def fundnetloan := fundLoan .net

/-- `defcpuloan` and `defnetloan`. -/
def defundLoan (k : LoanKind) (ctx : Context) (fromAccount : Name) (loanNum : ℕ) (amount : Asset)
    (s : State) : Except String State := do
  requireAuth ctx fromAccount
  check (amount.symbol = s.core) "must use core token"
  let loan ← require ((s.rex.loans k).lookup loanNum) "loan not found"
  check (loan.fromAccount = fromAccount) "user must be loan creator"
  check (ctx.now.usec < loan.expiration) "loan has already expired"
  check (amount.amount ≤ loan.balance) "insufficent loan balance"
  transferToFund fromAccount amount
    (s.setLoan k loanNum { loan with balance := loan.balance - amount.amount })

def defcpuloan := defundLoan .cpu
def defnetloan := defundLoan .net

def noRexBalance : String := "account has no REX balance"

def updaterex (ctx : Context) (owner : Name) (s : State) : Except String State := do
  requireAuth ctx owner
  let s ← runrex ctx.now 2 s
  let rb ← require (s.rex.balances.lookup owner) noRexBalance
  let p ← require s.pools.rexpool missingRow
  let currentStake := if 0 < p.totalRex then p.valueOf rb.rexBalance else 0
  let row := { rb with voteStake := currentStake }
  let (_, s) ← updateRexAccount ctx.now owner 0 (currentStake - rb.voteStake) true
    (s.setBalance owner row)
  pure (s.setBalance owner (row.processRexMaturities ctx.now))

def setrex (ctx : Context) (balance : Asset) (s : State) : Except String State := do
  requireAuth ctx systemAccount
  check (0 < balance.amount) "balance must be set to have a positive amount"
  check (balance.symbol = s.core) "balance symbol must be core symbol"
  let p ← require s.pools.rexpool "rex system is not initialized"
  pure (s.setPool { p with totalRent := balance.amount })

def rexexec (ctx : Context) (user : Name) (max : UInt16) (s : State) : Except String State := do
  requireAuth ctx user
  runrex ctx.now max.toNat s

def consolidate (ctx : Context) (owner : Name) (s : State) : Except String State := do
  requireAuth ctx owner
  let s ← runrex ctx.now 2 s
  let rb ← require (s.rex.balances.lookup owner) noRexBalance
  let (rexInSellOrder, s) ← updateRexAccount ctx.now owner 0 0 false s
  pure (s.setBalance owner (rb.consolidateRexBalance ctx.now rexInSellOrder))

/-- The sum in the balance check is taken in 64-bit arithmetic. -/
def mvtosavings (ctx : Context) (owner : Name) (rex : Asset) (s : State) : Except String State := do
  requireAuth ctx owner
  let s ← runrex ctx.now 2 s
  let rb ← require (s.rex.balances.lookup owner) noRexBalance
  positiveRex rex
  let (rexInSellOrder, s) ← updateRexAccount ctx.now owner 0 0 false s
  let (rexInSavings, row) := rb.readRexSavings
  check (wrapInt64 (rex.amount + rexInSellOrder + rexInSavings) ≤ rb.rexBalance)
    "insufficient REX balance"
  let row ← row.moveToSavings ctx.now rex.amount rexInSellOrder rexInSavings
  pure (s.setBalance owner row)

def mvfrsavings (ctx : Context) (owner : Name) (rex : Asset) (s : State) : Except String State := do
  requireAuth ctx owner
  let s ← runrex ctx.now 2 s
  let rb ← require (s.rex.balances.lookup owner) noRexBalance
  positiveRex rex
  let (rexInSavings, row) := rb.readRexSavings
  check (rex.amount ≤ rexInSavings) "insufficient REX in savings"
  let s := s.setBalance owner (row.moveFromSavings ctx.now rex.amount rexInSavings)
  let (_, s) ← updateRexAccount ctx.now owner 0 0 false s
  pure s

def hasLoan (owner : Name) (t : Table ℕ RexLoan) : Bool :=
  t.entries.any fun e => e.2.fromAccount = owner

/-- The fund row goes when it is empty and its owner has no loan. -/
def closeFund (owner : Name) (s : State) : State :=
  if s.rex.funds.lookup owner = some 0 ∧ hasLoan owner (s.rex.loans .cpu) = false ∧
      hasLoan owner (s.rex.loans .net) = false then
    { s with rex := { s.rex with funds := s.rex.funds.erase owner } }
  else s

def closeBalance (owner : Name) (s : State) : Except String State :=
  match s.rex.balances.lookup owner with
  | none => .ok s
  | some rb => do
    check (rb.rexBalance = 0) "account has remaining REX balance, must sell first"
    pure { s with rex := { s.rex with balances := s.rex.balances.erase owner } }

/-- The maintenance run, where there is a pool to maintain. -/
def runrexIfInitialized (now : BlockTimestamp) (s : State) : Except String State :=
  if rexSystemInitialized s.pools then runrex now 2 s else .ok s

def closerex (ctx : Context) (owner : Name) (s : State) : Except String State := do
  requireAuth ctx owner
  let s ← runrexIfInitialized ctx.now s
  let (_, s) ← updateRexAccount ctx.now owner 0 0 false s
  closeBalance owner (closeFund owner s)

end
end TelosSystem
