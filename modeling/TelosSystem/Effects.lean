import TelosSystem.System
import TelosSystem.VotingSteps

/-! The atomic effects of the actions. Every action is an optional REX purchase followed by
a chain of effects, each of which keeps the invariants of the system by itself. -/
namespace TelosSystem
open Ledger

/-- The accounts whose tokens stand for what others have staked, paid for RAM, bid for names or
earned with blocks. -/
inductive Custodian
  | stake
  | ram
  | names
  | bpay

def Custodian.account : Custodian → Name
  | .stake => stakeAccount
  | .ram => ramAccount
  | .names => namesAccount
  | .bpay => bpayAccount

/-- What an action promises: not to spend the tokens of `eosio.rex` outside REX, not to touch
the tokens of a custodian except through its own trade, to trade REX only for its actors, to
rewrite the rows of producers by a rule, and whether it casts a vote, configures the PowerUp
market or buys from it, changes voting stakes, trades RAM, changes name auctions, belongs to
block production or rents out resources. -/
structure Promise where
  safe : Prop
  quiet : Custodian → Prop
  actor : Name → Prop
  rows : RowRule
  ballots : Prop
  config : Prop
  power : Prop
  restake : Prop
  trade : Prop
  names : Prop
  produce : Prop
  rents : Prop

def Promise.maintenance : Promise :=
  ⟨True, fun _ => True, fun _ => False, fun _ _ _ => False, False, True, False, False, False,
    False, False, False⟩

def Promise.trading : Promise :=
  { Promise.maintenance with actor := fun _ => True, restake := True }

/-- The stake a voter votes with, zero without a row. -/
def Voting.stakedOf (v : Voting) (voter : Name) : ℤ :=
  ((v.voters.lookup voter).map VoterInfo.staked).getD 0

/-- A positive amount of one token went from `source` to `dest`. -/
structure Paid (code : UInt64) (source dest : Name) (amount : ℤ) (t t' : Token) : Prop where
  distinct : source ≠ dest
  positive : 0 < amount
  balance : ∀ a, t'.balance a code = t.balance a code +
    ((if a = dest then amount else 0) - if a = source then amount else 0)

lemma Paid.dest {code : UInt64} {source dest : Name} {amount : ℤ} {t t' : Token}
    (h : Paid code source dest amount t t') :
    t'.balance dest code = t.balance dest code + amount := by
  rw [h.balance dest, if_pos rfl, if_neg h.distinct.symm, sub_zero]

lemma Paid.source {code : UInt64} {source dest : Name} {amount : ℤ} {t t' : Token}
    (h : Paid code source dest amount t t') :
    t'.balance source code = t.balance source code - amount := by
  rw [h.balance source, if_neg h.distinct, if_pos rfl]
  omega

/-- An account that does not pay has at least what it had. -/
lemma Paid.le {code : UInt64} {source dest a : Name} {amount : ℤ} {t t' : Token}
    (h : Paid code source dest amount t t') (ha : a ≠ source) :
    t.balance a code ≤ t'.balance a code := by
  have := h.positive
  rw [h.balance a, if_neg ha]
  split_ifs <;> omega

/-- An account that takes no part in a payment keeps its balance. -/
lemma Paid.other {code : UInt64} {source dest a : Name} {amount : ℤ} {t t' : Token}
    (h : Paid code source dest amount t t') (hs : a ≠ source) (hd : a ≠ dest) :
    t'.balance a code = t.balance a code := by
  rw [h.balance a, if_neg hs, if_neg hd]
  omega

def fundTotal (f : Table Name ℤ) : ℤ := f.total fun _ b => b

def openRequest (owner : Name) (t : Table Name RexOrder) : ℤ :=
  match t.lookup owner with
  | some o => if o.isOpen then o.rexRequested else 0
  | none => 0

def closedProceeds (owner : Name) (t : Table Name RexOrder) : ℤ :=
  match t.lookup owner with
  | some o => if o.isOpen then 0 else o.proceeds
  | none => 0

def collectOrder (owner : Name) (t : Table Name RexOrder) : Table Name RexOrder :=
  match t.lookup owner with
  | some o => if o.isOpen then t else t.erase owner
  | none => t

def RexBalance.sell (rb : RexBalance) (rex voteStake : ℤ) : RexBalance :=
  { rb with voteStake, rexBalance := rb.rexBalance - rex, maturedRex := rb.maturedRex - rex }

/-- The state with another order table, pool and owner row, after a sale. -/
def State.afterSale (s : State) (owner : Name) (p : RexPool) (row : RexBalance) (rex : ℤ)
    (funds : Table Name ℤ) (orders : Table Name RexOrder) (voting : Voting) : State :=
  { s with
    pools := { s.pools with rexpool := some p }
    voting
    rex := { s.rex with
      funds
      orders
      balances := s.rex.balances.insert owner row
      sold := s.rex.sold ++ [⟨owner, rex⟩] } }

def State.withLoans (s : State) (k : LoanKind) (t : Table ℕ RexLoan) (funds : Table Name ℤ)
    (pools : RexPools) (resources : Resources) : State :=
  { s with pools, resources, rex := { s.rex with funds, loans := Function.update s.rex.loans k t } }

structure LoanMoved (k : LoanKind) (receiver : Name) (delta : ℤ) (r r' : Resources) : Prop where
  weight : ∀ j a, totalWeight r' j a = totalWeight r j a + if a = receiver ∧ j = k then delta else 0
  ram : RamKept r r'

/-- A row in which an order of `rex` can be filled at once. -/
structure Fillable (p : RexPool) (rex : ℤ) : Prop where
  nonzero : p.totalRex ≠ 0
  available : p.valueOf rex ≤ p.availableUnlent

/-- The vote stake of a row is kept, or becomes the value of its REX. -/
def Restaked (r : RexPools) (rb rb' : RexBalance) : Prop :=
  rb'.voteStake = rb.voteStake ∨
    ∃ p, r.rexpool = some p ∧ rb'.voteStake = if 0 < p.totalRex then p.valueOf rb.rexBalance else 0

section
variable [FloatOps]

/-- What an action does to the PowerUp market and the resources. -/
inductive MarketStep (now : BlockTimestamp) (config power : Prop) : State → State → Prop
  | config {s s' : State} {auth : List Name} {args : PowerupConfig} (allowed : config)
      (h : cfgpowerup ⟨now, auth⟩ args s = .ok s') : MarketStep now config power s s'
  | process {s s' : State} {auth : List Name} {user : Name} {max : UInt16}
      (h : powerupexec ⟨now, auth⟩ user max s = .ok s') : MarketStep now config power s s'
  | reserve {s s' : State} {receiver : Name} {days : ℕ} {netFrac cpuFrac fee : ℤ}
      {maxPayment : Asset}
      {st st' : PowerupState} (bought : power) (hst : s.powerup.state = some st) (hn : 0 ≤ netFrac)
        (hc : 0 ≤ cpuFrac)
      (h : reservePower now receiver days netFrac cpuFrac maxPayment st s = .ok (fee, st', s')) :
      MarketStep now config power s (s'.setPowerupState st')

inductive Effect (now : BlockTimestamp) (π : Promise) : State → State → Prop
  | distribute {s : State} {r : RexPools} (h : updateRexPool now s.pools = .ok r) :
      Effect now π s { s with pools := r }
  | channel {s : State} {r : RexPools} {t : Token} {source : Name} {amount : ℤ}
      (available : rexAvailable s.pools) (h : addToRexReturnPool now amount s.pools = .ok r)
      (paid : π.safe → Paid s.core.code source rexAccount amount s.token t)
      (kept : ∀ c, π.quiet c →
        t.balance c.account s.core.code = s.token.balance c.account s.core.code) :
      Effect now π s { s with pools := r, token := t }
  | marks {s : State} {p : RexPool} {rent : ℤ} (pool : s.pools.rexpool = some p)
      (nonneg : 0 ≤ p.totalRent → 0 ≤ rent) :
      Effect now π s (s.setPool { p with totalRent := rent })
  | channelBids {s : State} {p q : RexPool} {r : RexPools} {t : Token}
      (pool : s.pools.rexpool = some p)
      (available : rexAvailable s.pools)
        (h : addToRexReturnPool now p.namebidProceeds s.pools = .ok r)
      (after : r.rexpool = some q)
      (paid : Paid s.core.code namesAccount rexAccount p.namebidProceeds s.token t) :
      Effect now π s { s with pools := { r with
        rexpool := some { q with namebidProceeds := 0 } }, token := t }
  | dropBids {s : State} {p : RexPool} (pool : s.pools.rexpool = some p)
      (unavailable : ¬ rexAvailable s.pools) :
      Effect now π s (s.setPool { p with namebidProceeds := 0 })
  | closeLoan {s : State} {k : LoanKind} {num : ℕ} {loan : RexLoan} {p : RexPool}
      {funds : Table Name ℤ}
      {resources : Resources} (row : (s.rex.loans k).lookup num = some loan)
        (pool : s.pools.rexpool = some p)
      (refund : fundTotal funds = fundTotal s.rex.funds + max 0 loan.balance)
      (moved : LoanMoved k loan.receiver (-loan.totalStaked) s.resources resources) :
      Effect now π s (s.withLoans k ((s.rex.loans k).erase num) funds
        { s.pools with rexpool := some (removeLoanFromRexPool loan p) } resources)
  | renewLoan {s : State} {k : LoanKind} {num : ℕ} {loan : RexLoan} {p q : RexPool}
      {rented : ℤ} {r : RexPools}
      {resources : Resources} (row : (s.rex.loans k).lookup num = some loan)
        (pool : s.pools.rexpool = some p)
      (removed : q = removeLoanFromRexPool loan p)
      (price : rented = getBancorOutput q.totalRent q.totalUnlent loan.payment)
      (payable : loan.payment ≤ loan.balance) (gain : loan.payment < rented)
      (h : addLoanToRexPool now loan.payment rented false { s.pools with rexpool := some q } =
        .ok r)
      (moved : LoanMoved k loan.receiver (rented - loan.totalStaked) s.resources resources) :
      Effect now π s (s.withLoans k ((s.rex.loans k).insert num (updateRenewedLoan rented loan))
        s.rex.funds r resources)
  | openLoan {s : State} {k : LoanKind} {num : ℕ} {loan : RexLoan} {p : RexPool} {r : RexPools}
      {funds : Table Name ℤ} {resources : Resources} (fresh : (s.rex.loans k).lookup num = none)
      (available : rexAvailable s.pools) (pool : s.pools.rexpool = some p)
        (positive : 0 < loan.payment) (balance : 0 ≤ loan.balance)
      (price : loan.totalStaked = getBancorOutput p.totalRent p.totalUnlent loan.payment)
      (gain : loan.payment < loan.totalStaked)
      (h : addLoanToRexPool now loan.payment loan.totalStaked true s.pools = .ok r)
      (paid : fundTotal funds = fundTotal s.rex.funds - (loan.payment + loan.balance))
      (moved : LoanMoved k loan.receiver loan.totalStaked s.resources resources) (rents : π.rents) :
      Effect now π s (s.withLoans k ((s.rex.loans k).insert num loan) funds r resources)
  | loanBalance {s : State} {k : LoanKind} {num : ℕ} {loan : RexLoan} {delta : ℤ}
      {funds : Table Name ℤ}
      (row : (s.rex.loans k).lookup num = some loan)
        (nonneg : 0 ≤ loan.balance → 0 ≤ loan.balance + delta)
      (paid : fundTotal funds = fundTotal s.rex.funds - delta) :
      Effect now π s (s.withLoans k
        ((s.rex.loans k).insert num { loan with balance := loan.balance + delta }) funds
        s.pools s.resources)
  | fillOrder {s : State} {owner : Name} {o : RexOrder} {rb : RexBalance} {p : RexPool} {stake : ℤ}
      (order : s.rex.orders.lookup owner = some o) (isOpen : o.isOpen = true)
      (row : s.rex.balances.lookup owner = some rb) (pool : s.pools.rexpool = some p)
      (fillable : Fillable p o.rexRequested) (settled : p.namebidProceeds ≤ 0)
      (value : stake = p.valueOf rb.rexBalance - p.valueOf o.rexRequested) :
      Effect now π s (s.afterSale owner (p.sell o.rexRequested (p.valueOf o.rexRequested))
        (rb.sell o.rexRequested stake) o.rexRequested s.rex.funds
        (s.rex.orders.insert owner { o with
          proceeds := p.valueOf o.rexRequested, stakeChange := stake - rb.voteStake, isOpen :=
            false }) s.voting)
  | sell {s : State} {owner : Name} {rb : RexBalance} {p : RexPool} {rex stake : ℤ}
      {funds : Table Name ℤ}
      {voting : Voting} (restake : π.restake) (actor : π.actor owner)
      (row : s.rex.balances.lookup owner = some rb) (pool : s.pools.rexpool = some p)
        (positive : 0 < rex)
      (matured : rex ≤ rb.maturedRex) (fillable : Fillable p rex) (settled : p.namebidProceeds ≤ 0)
        (votes : VotingSteps now π.rows π.ballots s.voting voting)
      (credit : fundTotal funds = fundTotal s.rex.funds +
        max 0 (p.valueOf rex + closedProceeds owner s.rex.orders))
      (reserved : openRequest owner s.rex.orders ≤ rb.maturedRex - rex)
      (value : stake = p.valueOf rb.rexBalance - p.valueOf rex) :
      Effect now π s (s.afterSale owner (p.sell rex (p.valueOf rex)) (rb.sell rex stake) rex funds
        (collectOrder owner s.rex.orders) voting)
  | collect {s : State} {owner : Name} {funds : Table Name ℤ} {voting : Voting}
      (restake : π.restake)
      (actor : π.actor owner) (votes : VotingSteps now π.rows π.ballots s.voting voting)
      (credit : fundTotal funds = fundTotal s.rex.funds +
        max 0 (closedProceeds owner s.rex.orders)) :
      Effect now π s { s with
        voting, rex := { s.rex with funds, orders := collectOrder owner s.rex.orders } }
  | enqueue {s : State} {owner : Name} {rb : RexBalance} {rex : ℤ} (actor : π.actor owner)
      (row : s.rex.balances.lookup owner = some rb)
      (noFilled : ∀ o, s.rex.orders.lookup owner = some o → o.isOpen = true) (positive : 0 < rex)
      (matured : (queuedOrder now rex (s.rex.orders.lookup owner)).rexRequested ≤ rb.maturedRex) :
      Effect now π s (s.setOrder owner (queuedOrder now rex (s.rex.orders.lookup owner)))
  | reshape {s : State} {owner : Name} {rb rb' : RexBalance}
      (row : s.rex.balances.lookup owner = some rb)
      (h : rb.WellFormed now → 0 ≤ openRequest owner s.rex.orders →
        openRequest owner s.rex.orders ≤ rb.maturedRex →
        Reshaped now (openRequest owner s.rex.orders) rb rb')
      (others : ¬ π.actor owner → rb'.rexMaturities = rb.rexMaturities)
      (restake : ¬ π.restake → rb'.voteStake = rb.voteStake) (stakes : Restaked s.pools rb rb') :
      Effect now π s (s.setBalance owner rb')
  | cancel {s : State} {owner : Name} {o : RexOrder} (actor : π.actor owner)
      (order : s.rex.orders.lookup owner = some o) (isOpen : o.isOpen = true) :
      Effect now π s (s.eraseOrder owner)
  | deposit {s : State} {owner : Name} {amount : ℤ} {t : Token} {funds : Table Name ℤ}
      (paid : Paid s.core.code owner rexAccount amount s.token t)
      (credit : fundTotal funds = fundTotal s.rex.funds + amount)
        (other : ∀ c, π.quiet c → owner ≠ c.account) :
      Effect now π s { s with token := t, rex := { s.rex with funds } }
  | withdraw {s : State} {owner : Name} {amount : ℤ} {t : Token} {funds : Table Name ℤ}
      (paid : Paid s.core.code rexAccount owner amount s.token t)
      (debit : fundTotal funds = fundTotal s.rex.funds - amount)
        (other : ∀ c, π.quiet c → owner ≠ c.account) :
      Effect now π s { s with token := t, rex := { s.rex with funds } }
  | funds {s : State} {funds : Table Name ℤ} (same : fundTotal funds = fundTotal s.rex.funds) :
      Effect now π s { s with rex := { s.rex with funds } }
  | dropBalance {s : State} {owner : Name} {rb : RexBalance} (restake : π.restake)
      (actor : π.actor owner)
      (row : s.rex.balances.lookup owner = some rb) (empty : rb.rexBalance = 0) :
      Effect now π s { s with rex := { s.rex with balances := s.rex.balances.erase owner } }
  | voting {s : State} {voting : Voting} (restake : π.restake)
      (votes : VotingSteps now π.rows π.ballots s.voting voting) :
      Effect now π s { s with voting }
  | election {s : State} {voting : Voting} (kept : ∀ a, voting.stakedOf a = s.voting.stakedOf a)
      (votes : VotingSteps now π.rows π.ballots s.voting voting) : Effect now π s { s with voting }
  | tokens {s : State} {t : Token}
      (rex : π.safe → s.token.balance rexAccount s.core.code ≤ t.balance rexAccount s.core.code)
      (kept : ∀ c, π.quiet c →
        t.balance c.account s.core.code = s.token.balance c.account s.core.code) :
      Effect now π s { s with token := t }
  | stake {s s' : State} {source owner receiver : Name} {net cpu : ℤ} {transfer : Bool}
      (h : moveStake now source owner receiver net cpu transfer s = .ok s')
      (restake : π.restake) (rex : π.safe → source = rexAccount → net ≤ 0 ∧ cpu ≤ 0)
        (other : ∀ c, π.quiet c → source ≠ c.account) :
      Effect now π s s'
  | refund {s : State} {owner : Name} {r : RefundRequest} {t : Token}
      (row : s.staking.refunds.lookup owner = some r)
      (paid : Paid s.core.code stakeAccount owner (r.netAmount + r.cpuAmount) s.token t)
      (other : ∀ c, π.quiet c → owner ≠ c.account) :
        Effect now π s ({ s with token := t }.eraseRefund owner)
  | market {s s' : State} (h : MarketStep now π.config π.power s s') : Effect now π s s'
  | ram {s : State} {ram : Ram} {resources : Resources} (trade : π.trade)
      (weights : ∀ k a, totalWeight resources k a = totalWeight s.resources k a) :
      Effect now π s { s with ram, resources }
  | auctions {s : State} {auctions : Auctions} (names : π.names) :
      Effect now π s { s with auctions }
  | close {s : State} (timestamp : BlockTimestamp) (names : π.names) :
      Effect now π s (closeAuction timestamp now s)
  | produce {s : State} {production : Production} {blockNum threshActivatedStakeTime : ℕ}
      (produce : π.produce) :
      Effect now π s { s with production, blockNum, threshActivatedStakeTime }
  | accounts {s : State} {isAccount : Name → Bool} {resources : Resources}
      (weights : ∀ k a, totalWeight resources k a = totalWeight s.resources k a)
      (ram : RamKept s.resources resources)
        (grown : ∀ a, s.isAccount a = true → isAccount a = true) :
      Effect now π s { s with isAccount, resources }

def Effects (now : BlockTimestamp) (π : Promise) : State → State → Prop :=
  Relation.ReflTransGen (Effect now π)

/-- Where the payment of a purchase comes from: the owner's REX fund, or bandwidth staked to
a receiver. -/
inductive Funding (payment : ℤ) : State → State → Prop
  | fund {s : State} {funds : Table Name ℤ}
      (debit : fundTotal funds = fundTotal s.rex.funds - payment) :
      Funding payment s { s with rex := { s.rex with funds } }
  | stake {s s' : State} {owner receiver : Name} {fromNet fromCpu : ℤ} {t : Token}
      (net : 0 ≤ fromNet)
      (cpu : 0 ≤ fromCpu) (sum : fromNet + fromCpu = payment)
      (h : unstakeBandwidth owner receiver fromNet fromCpu s = .ok s')
      (paid : Paid s'.core.code stakeAccount rexAccount payment s'.token t) :
      Funding payment s { s' with token := t }

structure Purchase (now : BlockTimestamp) (π : Promise) (s s' : State) : Prop where
  parts : ∃ (owner : Name) (payment delta : ℤ) (mid : State), π.actor owner ∧ 0 < payment ∧
    Funding payment s mid ∧ purchase now owner payment mid = .ok (delta, s')
  restake : π.restake

/-- A state change by an optional purchase and a chain of effects. -/
def Decomposed (now : BlockTimestamp) (π : Promise) (s s' : State) : Prop :=
  ∃ mid, (mid = s ∨ Purchase now π s mid) ∧ Effects now π mid s'

end
end TelosSystem
