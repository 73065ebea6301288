import TelosSystem.ResourceLimits
import TelosSystem.RexAccount

/-! Trading with the REX pool: purchases, sales, loans, and the maintenance run that closes
or renews expired loans and fills queued sell orders. -/
namespace TelosSystem
open Ledger

def rexRatio : ℤ := 10000
def initTotalRent : ℤ := 200000000
/-- 30 days in microseconds. -/
def loanTerm : ℕ := 30 * usecondsPerDay

/-- The output of a constant-product market, rounded down. -/
def getBancorOutput (inpReserve outReserve inp : ℤ) : ℤ :=
  max 0 (inp * outReserve / (inpReserve + inp))

def divideByZero : String := "divide by zero"

def RexPool.valueOf (p : RexPool) (rex : ℤ) : ℤ := rex * p.totalLendable / p.totalRex

def RexPool.restart (payment : ℤ) (p : RexPool) : RexPool :=
  { p with
    totalLendable := payment
    totalLent := 0
    totalUnlent := payment - 0
    totalRent := initTotalRent
    totalRex := payment * rexRatio }

/-- Returns the REX bought. -/
def addToRexPool (payment : ℤ) (s : State) : Except String (ℤ × State) :=
  match s.pools.rexpool with
  | none =>
    let fresh : RexPool := ⟨0, 0, 0, 0, 0, 0, 0⟩
    .ok (payment * rexRatio, s.setPool (fresh.restart payment))
  | some p =>
    if ¬ 0 < p.totalRex then .ok (payment * rexRatio, s.setPool (p.restart payment))
    else do
      check (0 < p.totalLendable) "lendable REX pool is empty"
      let s1 := p.totalLendable + payment
      let r1 := s1 * p.totalRex / p.totalLendable
      check (0 ≤ s1 - p.totalLent) "programmer error, this should never go negative"
      pure (r1 - p.totalRex, s.setPool
        { p with totalLendable := s1, totalRex := r1, totalUnlent := s1 - p.totalLent })

def State.recordPurchase (s : State) (owner : Name) (time : BlockTimestamp) (amount : ℤ) : State :=
  { s with rex := { s.rex with acquired := s.rex.acquired ++ [⟨owner, time, amount⟩] } }

def State.recordSale (s : State) (owner : Name) (amount : ℤ) : State :=
  { s with rex := { s.rex with sold := s.rex.sold ++ [⟨owner, amount⟩] } }

/-- The row of a buyer with the REX received, and the change of its vote stake. -/
def raisedBalance (owner : Name) (payment rexReceived : ℤ) (s : State) :
    Except String (ℤ × RexBalance) :=
  match s.rex.balances.lookup owner with
  | none => .ok (payment, { voteStake := payment, rexBalance := rexReceived })
  | some rb => do
    let p ← require s.pools.rexpool missingRow
    check (p.totalRex ≠ 0) divideByZero
    let stake := p.valueOf (rb.rexBalance + rexReceived)
    pure (stake - rb.voteStake,
      { rb with rexBalance := rb.rexBalance + rexReceived, voteStake := stake })

def addToRexBalance (now : BlockTimestamp) (owner : Name) (payment rexReceived : ℤ) (s : State) :
    Except String (ℤ × State) := do
  let (delta, rb) ← raisedBalance owner payment rexReceived s
  let s := s.setBalance owner (rb.receive now rexReceived)
  pure (delta, s.recordPurchase owner now rexReceived)

structure RexOrderOutcome where
  success : Bool
  proceeds : ℤ
  stakeChange : ℤ

def RexPool.sell (p : RexPool) (rex proceeds : ℤ) : RexPool :=
  { p with
    totalRex := p.totalRex - rex
    totalLendable := p.totalLendable - proceeds
    totalUnlent := p.totalLendable - proceeds - p.totalLent }

/-- The unlent tokens above the reserve of a tenth of what is lent. -/
def RexPool.availableUnlent (p : RexPool) : ℤ := p.totalUnlent - p.totalLent.tdiv 10

def fillRexOrder (owner : Name) (rb : RexBalance) (rex : ℤ) (s : State) :
    Except String (RexOrderOutcome × State) := do
  let p ← require s.pools.rexpool missingRow
  check (p.totalRex ≠ 0) divideByZero
  let proceeds := p.valueOf rex
  if proceeds ≤ p.availableUnlent then
    let voteStake := p.valueOf rb.rexBalance - proceeds
    let row := { rb with
      voteStake := voteStake, rexBalance := rb.rexBalance - rex, maturedRex := rb.maturedRex - rex }
    let s := ((s.setPool (p.sell rex proceeds)).setBalance owner row).recordSale owner rex
    pure (⟨true, proceeds, voteStake - rb.voteStake⟩, s)
  else pure (⟨false, 0, 0⟩, s)

def RexOrder.byTime (o : RexOrder) : ℕ := if o.isOpen then o.orderTime else 2 ^ 64 - 1

def ordersByTime (t : Table Name RexOrder) : List (Name × RexOrder) :=
  t.indexed fun a b => a.2.byTime < b.2.byTime ∨ (a.2.byTime = b.2.byTime ∧ a.1.value ≤ b.1.value)

def loansByExpiration (t : Table ℕ RexLoan) : List (ℕ × RexLoan) :=
  t.indexed fun a b => a.2.expiration < b.2.expiration ∨
    (a.2.expiration = b.2.expiration ∧ a.1 ≤ b.1)

/-- There is a pool, and the first order in line is not open. -/
def rexLoansAvailable (s : State) : Bool :=
  rexAvailable s.pools &&
    match (ordersByTime s.rex.orders).head? with
    | none => true
    | some o => !o.2.isOpen

def RexPool.lend (p : RexPool) (payment rentedTokens : ℤ) (newLoan : Bool) : RexPool :=
  { p with
    totalRent := p.totalRent + payment
    totalUnlent := p.totalUnlent - rentedTokens
    totalLent := p.totalLent + rentedTokens
    loanNum := if newLoan then p.loanNum + 1 else p.loanNum }

def addLoanToRexPool (now : BlockTimestamp) (payment rentedTokens : ℤ) (newLoan : Bool)
    (r : RexPools) : Except String RexPools := do
  let r ← addToRexReturnPool now payment r
  let p ← require r.rexpool missingRow
  pure { r with rexpool := some (p.lend payment rentedTokens newLoan) }

def removeLoanFromRexPool (loan : RexLoan) (p : RexPool) : RexPool :=
  let deltaTotalRent := getBancorOutput p.totalUnlent p.totalRent loan.totalStaked
  { p with
    totalRent := p.totalRent - deltaTotalRent
    totalUnlent := p.totalUnlent + loan.totalStaked
    totalLent := p.totalLent - loan.totalStaked
    totalLendable := p.totalUnlent + loan.totalStaked + (p.totalLent - loan.totalStaked) }

def updateLoanLimits (k : LoanKind) (receiver : Name) (delta : ℤ) (s : State) :
    Except String State :=
  match k with
  | .cpu => updateResourceLimits receiver 0 delta s
  | .net => updateResourceLimits receiver delta 0 s

def updateRenewedLoan (rentedTokens : ℤ) (loan : RexLoan) : RexLoan :=
  { loan with
    totalStaked := rentedTokens
    expiration := loan.expiration + loanTerm
    balance := loan.balance - loan.payment }

def processExpiredLoan (now : BlockTimestamp) (k : LoanKind) (num : ℕ) (loan : RexLoan)
    (s : State) : Except String State := do
  let p ← require s.pools.rexpool missingRow
  let p := removeLoanFromRexPool loan p
  let s := s.setPool p
  let rentedTokens := getBancorOutput p.totalRent p.totalUnlent loan.payment
  if loan.payment ≤ loan.balance ∧ loan.payment < rentedTokens ∧ rexLoansAvailable s then
    let pools ← addLoanToRexPool now loan.payment rentedTokens false s.pools
    let s := { s with pools }.setLoan k num (updateRenewedLoan rentedTokens loan)
    updateLoanLimits k loan.receiver (rentedTokens - loan.totalStaked) s
  else
    let s ← creditFund loan.fromAccount loan.balance s
    let s ← updateLoanLimits k loan.receiver (-loan.totalStaked) s
    pure (s.eraseLoan k num)

def processLoans (now : BlockTimestamp) (k : LoanKind) : ℕ → State → Except String State
  | 0, s => .ok s
  | max + 1, s =>
    match (loansByExpiration (s.rex.loans k)).head? with
    | none => .ok s
    | some (num, loan) =>
      if now.usec < loan.expiration then .ok s
      else do
        let s ← processExpiredLoan now k num loan s
        processLoans now k max s

def processOrder (s : State) (entry : Name × RexOrder) : Except String State :=
  match s.rex.balances.lookup entry.1 with
  | none => .ok s
  | some rb => do
    let (outcome, s) ← fillRexOrder entry.1 rb entry.2.rexRequested s
    if outcome.success then
      pure (s.setOrder entry.1 { entry.2 with
        proceeds := outcome.proceeds, stakeChange := outcome.stakeChange, isOpen := false })
    else pure s

/-- A filled order moves to the end of the index, behind the orders still to be visited. -/
def processOrders (max : ℕ) (s : State) : Except String State :=
  (((ordersByTime s.rex.orders).take max).takeWhile fun e => e.2.isOpen).foldlM processOrder s

def channelNamebids (now : BlockTimestamp) (s : State) : Except String State := do
  let p ← require s.pools.rexpool missingRow
  if 0 < p.namebidProceeds then
    let s ← channelToRex now namesAccount ⟨p.namebidProceeds, s.core⟩ false s
    let p ← require s.pools.rexpool missingRow
    pure (s.setPool { p with namebidProceeds := 0 })
  else pure s

def runrex (now : BlockTimestamp) (max : ℕ) (s : State) : Except String State := do
  check (rexSystemInitialized s.pools) "rex system not initialized yet"
  let pools ← updateRexPool now s.pools
  let s ← channelNamebids now { s with pools }
  let s ← processLoans now .cpu max s
  let s ← processLoans now .net max s
  processOrders max s

end TelosSystem
