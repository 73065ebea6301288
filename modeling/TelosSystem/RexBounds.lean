import TelosSystem.IdleActions
import TelosSystem.RexSharePrice
import TelosSystem.RexSolvency
import TelosSystem.TokenRuns

/-! The arithmetic of REX fits. Since the price of REX never falls below its first value, and
the pool is covered by tokens that exist, every 128-bit quotient of the REX code can be
narrowed to 64 bits. -/
namespace TelosSystem
open Ledger

/-- A product of two amounts divided by a third, in 128-bit arithmetic. -/
structure WideQuotient where
  factor : ℤ
  other : ℤ
  divisor : ℤ
  deriving DecidableEq

def WideQuotient.value (q : WideQuotient) : ℤ := q.factor * q.other / q.divisor

/-- The product fits 128 bits, and the quotient is an amount of an asset. -/
structure WideQuotient.Lossless (q : WideQuotient) : Prop where
  product_nonneg : 0 ≤ q.factor * q.other
  product_lt : q.factor * q.other < 2 ^ 128
  nonneg : 0 ≤ q.value
  le : q.value ≤ maxAmount

/-- The largest maximum supply that the comment at `rex_ratio` allows. -/
def supplyBound : ℤ := 4 * 10 ^ 14

def RexPool.shareQuotient (p : RexPool) (rex : ℤ) : WideQuotient :=
  ⟨rex, p.totalLendable, p.totalRex⟩

lemma RexPool.shareQuotient_value (p : RexPool) (rex : ℤ) :
    (p.shareQuotient rex).value = p.valueOf rex := rfl

/-- The quotient of `add_to_rex_pool`, or the product with `rex_ratio`. -/
def poolQuotients (payment : ℤ) (r : RexPools) : List WideQuotient :=
  match r.rexpool with
  | none => [⟨payment, rexRatio, 1⟩]
  | some p =>
    if ¬ 0 < p.totalRex then [⟨payment, rexRatio, 1⟩]
    else if 0 < p.totalLendable then [⟨p.totalLendable + payment, p.totalRex, p.totalLendable⟩]
    else []

/-- The quotient of `add_to_rex_balance`. -/
def balanceQuotients (owner : Name) (received : ℤ) (s : State) : List WideQuotient :=
  match s.rex.balances.lookup owner, s.pools.rexpool with
  | some rb, some p => if p.totalRex = 0 then [] else [p.shareQuotient (rb.rexBalance + received)]
  | _, _ => []

def purchaseQuotients (owner : Name) (payment : ℤ) (s : State) : List WideQuotient :=
  poolQuotients payment s.pools ++
    listAfter (addToRexPool payment s) fun (received, s) => balanceQuotients owner received s

/-- The quotients of `fill_rex_order`; the second is taken where the order can be filled. -/
def fillQuotients (rb : RexBalance) (rex : ℤ) (s : State) : List WideQuotient :=
  match s.pools.rexpool with
  | some p =>
    if p.totalRex = 0 then []
    else if p.valueOf rex ≤ p.availableUnlent then [p.shareQuotient rex,
      p.shareQuotient rb.rexBalance]
    else [p.shareQuotient rex]
  | none => []

def orderQuotients (entry : Name × RexOrder) (s : State) : List WideQuotient :=
  match s.rex.balances.lookup entry.1 with
  | some rb => fillQuotients rb entry.2.rexRequested s
  | none => []

def ordersQuotients : List (Name × RexOrder) → State → List WideQuotient
  | [], _ => []
  | entry :: rest, s =>
    orderQuotients entry s ++ listAfter (processOrder s entry) (ordersQuotients rest)

def visitedOrders (max : ℕ) (s : State) : List (Name × RexOrder) :=
  ((ordersByTime s.rex.orders).take max).takeWhile fun e => e.2.isOpen

def runrexQuotients (now : BlockTimestamp) (max : ℕ) (s : State) : List WideQuotient :=
  listAfter (updateRexPool now s.pools) fun pools =>
    listAfter (channelNamebids now { s with pools }) fun s =>
      listAfter (processLoans now .cpu max s) fun s =>
        listAfter (processLoans now .net max s) fun s => ordersQuotients (visitedOrders max s) s

/-- The quotient of `updaterex` and `update_rex_stake`. -/
def stakeQuotients (owner : Name) (s : State) : List WideQuotient :=
  match s.rex.balances.lookup owner, s.pools.rexpool with
  | some rb, some p => if 0 < p.totalRex then [p.shareQuotient rb.rexBalance] else []
  | _, _ => []

def boughtQuotients (now : BlockTimestamp) (owner : Name) (payment : ℤ) (s : State) :
    List WideQuotient :=
  purchaseQuotients owner payment s ++
    listAfter (purchase now owner payment s) fun (_, s) => runrexQuotients now 2 s

def saleQuotients (now : BlockTimestamp) (owner : Name) (rex : ℤ) (s : State) : List WideQuotient :=
  match s.rex.balances.lookup owner with
  | some rb =>
    let row := rb.processRexMaturities now
    if 0 < rex ∧ rex ≤ row.maturedRex then fillQuotients row rex (s.setBalance owner row) else []
  | none => []

section
variable [FloatOps]

def stakingQuotients (now : BlockTimestamp) (source owner receiver : Name) (net cpu : ℤ)
    (giving : Bool) (s : State) : List WideQuotient :=
  listAfter (moveStake now source owner receiver net cpu giving s) (stakeQuotients owner)

/-- All quotients that an action takes in 128-bit arithmetic of REX amounts. -/
def Action.rexQuotients (ctx : Context) (s : State) : Action → List WideQuotient
  | .buyrex owner amount =>
    if 0 < amount.amount then
      listAfter (transferFromFund owner amount s) (boughtQuotients ctx.now owner amount.amount)
    else []
  | .unstaketorex owner receiver fromNet fromCpu =>
    let payment := fromNet.amount + fromCpu.amount
    if 0 ≤ fromNet.amount ∧ 0 ≤ fromCpu.amount then
      listAfter (unstakeBandwidth owner receiver fromNet.amount fromCpu.amount s) fun s =>
        listAfter (s.inlineTransfer stakeAccount rexAccount ⟨payment, s.core⟩ 26)
          (boughtQuotients ctx.now owner payment)
    else []
  | .sellrex owner rex =>
    runrexQuotients ctx.now 2 s ++ listAfter (runrex ctx.now 2 s)
      (saleQuotients ctx.now owner rex.amount)
  | .updaterex owner =>
    runrexQuotients ctx.now 2 s ++ listAfter (runrex ctx.now 2 s) (stakeQuotients owner)
  | .voteupdate voter =>
    runrexQuotients ctx.now 2 s ++ listAfter (runrex ctx.now 2 s) (stakeQuotients voter)
  | .rexexec _ max => runrexQuotients ctx.now max.toNat s
  | .rent .. | .consolidate _ | .mvtosavings .. | .mvfrsavings .. => runrexQuotients ctx.now 2 s
  | .closerex _ => if rexSystemInitialized s.pools then runrexQuotients ctx.now 2 s else []
  | .voteproducer voter .. => stakeQuotients voter s
  | .delegatebw source receiver net cpu giving =>
    stakingQuotients ctx.now source (if giving then receiver else source) receiver net.amount
      cpu.amount giving s
  | .undelegatebw source receiver net cpu =>
    stakingQuotients ctx.now source source receiver (-net.amount) (-cpu.amount) false s
  | _ => []

end

section
variable {s s' : State} {owner : Name} {payment received delta rex : ℤ}

/-- A purchase makes the supply of REX its quotient, and issues the difference. -/
theorem addToRexPool_quotient (h : addToRexPool payment s = .ok (received, s')) :
    ∃ q, poolQuotients payment s.pools = [q] ∧ s'.pools.pool.totalRex = q.value ∧
      received = q.value - max 0 s.pools.pool.totalRex := by
  have hfirst : WideQuotient.value ⟨payment, rexRatio, 1⟩ = payment * rexRatio := Int.ediv_one _
  unfold addToRexPool at h
  unfold poolQuotients
  cases hp : s.pools.rexpool with
  | none =>
    rw [hp] at h
    simp only [Except.ok.injEq, Prod.mk.injEq] at h
    obtain ⟨rfl, rfl⟩ := h
    refine ⟨_, rfl, hfirst.symm, ?_⟩
    simp [RexPools.pool, hp, emptyPool, hfirst]
  | some p =>
    rw [RexPools.pool_some hp]
    rw [hp] at h
    dsimp only at h ⊢
    by_cases hpos : 0 < p.totalRex
    · rw [if_neg (not_not.mpr hpos)] at h ⊢
      simp only [bind_ok, check_ok, exists_const, pure_ok, Prod.mk.injEq] at h
      obtain ⟨hlend, -, rfl, rfl⟩ := h
      rw [if_pos hlend, max_eq_right hpos.le]
      exact ⟨_, rfl, rfl, rfl⟩
    · rw [if_pos hpos] at h ⊢
      simp only [Except.ok.injEq, Prod.mk.injEq] at h
      obtain ⟨rfl, rfl⟩ := h
      rw [max_eq_left (not_lt.mp hpos)]
      exact ⟨_, rfl, hfirst.symm, by rw [hfirst, sub_zero]⟩

/-- The vote stake of a buyer is the quotient, or the payment where it has no row yet. -/
theorem raisedBalance_quotient {rb : RexBalance}
    (h : raisedBalance owner payment received s = .ok (delta, rb)) :
    balanceQuotients owner received s = [] ∧ rb.voteStake = payment ∨
      ∃ q, balanceQuotients owner received s = [q] ∧ rb.voteStake = q.value := by
  unfold raisedBalance at h
  unfold balanceQuotients
  cases hl : s.rex.balances.lookup owner with
  | none =>
    simp only [hl, Except.ok.injEq, Prod.mk.injEq] at h
    obtain ⟨-, rfl⟩ := h
    exact Or.inl ⟨rfl, rfl⟩
  | some row =>
    simp only [hl, bind_ok, require_ok, check_ok, exists_const, pure_ok, Prod.mk.injEq] at h
    obtain ⟨p, hp, hne, -, rfl⟩ := h
    simp only [hp, if_neg hne]
    exact Or.inr ⟨_, rfl, rfl⟩

/-- The proceeds of a sale are the first quotient, and what is left of the vote stake is the
difference to the second. -/
theorem fillRexOrder_quotients {rb : RexBalance} {outcome : RexOrderOutcome}
    (h : fillRexOrder owner rb rex s = .ok (outcome, s')) :
    (∃ q, fillQuotients rb rex s = [q] ∧ outcome.success = false) ∨
      ∃ q r, fillQuotients rb rex s = [q, r] ∧ outcome.success = true ∧ outcome.proceeds = q.value ∧
        outcome.stakeChange = r.value - q.value - rb.voteStake := by
  simp only [fillRexOrder, bind_ok, require_ok, check_ok, exists_const] at h
  obtain ⟨p, hp, hne, h⟩ := h
  simp only [fillQuotients, hp, if_neg hne]
  split_ifs at h ⊢
  · simp only [pure_ok, Prod.mk.injEq] at h
    obtain ⟨rfl, -⟩ := h
    exact Or.inr ⟨_, _, rfl, rfl, rfl, rfl⟩
  · simp only [pure_ok, Prod.mk.injEq] at h
    obtain ⟨rfl, -⟩ := h
    exact Or.inl ⟨_, rfl, rfl⟩

/-- A vote brings the stake of a row to the quotient. -/
theorem updateRexStake_quotient (owner : Name) (s : State) :
    stakeQuotients owner s = [] ∧ (updateRexStake owner s).rex = s.rex ∨
      ∃ q rb, stakeQuotients owner s = [q] ∧ s.rex.balances.lookup owner = some rb ∧
        (updateRexStake owner s).rex.balances = s.rex.balances.insert owner
          { rb with voteStake := q.value } := by
  unfold updateRexStake stakeQuotients
  cases hl : s.rex.balances.lookup owner with
  | none => exact Or.inl ⟨rfl, rfl⟩
  | some rb =>
    cases hp : s.pools.rexpool with
    | none => exact Or.inl ⟨rfl, rfl⟩
    | some p =>
      by_cases hpos : 0 < p.totalRex
      · simp only [if_pos hpos]
        refine Or.inr ⟨_, rb, rfl, rfl, ?_⟩
        split
        · split_ifs <;> rfl
        · rfl
      · exact Or.inl ⟨if_neg hpos, congrArg State.rex (if_neg hpos)⟩

/-- `updaterex` does the same after its maintenance run, with nothing for an empty pool. -/
theorem updaterex_quotient [FloatOps] {ctx : Context} (h : updaterex ctx owner s = .ok s') :
    ∃ s₁ row, runrex ctx.now 2 s = .ok s₁ ∧ s'.rex.balances.lookup owner = some row ∧
      (stakeQuotients owner s₁ = [] ∧ row.voteStake = 0 ∨ ∃ q, stakeQuotients owner s₁ = [q] ∧
        row.voteStake = q.value) := by
  simp only [updaterex, bind_ok, require_ok, pure_ok] at h
  obtain ⟨-, -, s₁, h₁, rb, hl, p, hp, ⟨sold, s₂⟩, -, rfl⟩ := h
  refine ⟨s₁, _, h₁, AList.lookup_insert _, ?_⟩
  simp only [stakeQuotients, hl, hp, RexBalance.processRexMaturities]
  split_ifs
  · exact Or.inr ⟨_, rfl, rfl⟩
  · exact Or.inl ⟨rfl, rfl⟩

end

/-- An action that neither runs the queue nor revalues a stake takes no quotient; it makes no REX
and leaves the rows of the owners alone. -/
theorem step.undivided [FloatOps] {now : BlockTimestamp} {l : Label} {s s' : State}
    (h : step now l s s') (hq : ¬ l.action.RunsQueue) (hs : ¬ l.action.RevaluesStake) :
    l.action.rexQuotients ⟨now, l.auth⟩ s = [] ∧ s'.pools.pool.totalRex = s.pools.pool.totalRex ∧
      s'.rex.balances = s.rex.balances := by
  have hidle := h.idle hq
  refine ⟨?_, hidle.total, hidle.rows hs⟩
  obtain ⟨auth, action⟩ := l
  cases action with
  | buyrex | unstaketorex | sellrex | rent | updaterex | rexexec | consolidate | mvtosavings | mvfrsavings | closerex |
    voteupdate => exact absurd trivial hq
  | voteproducer | delegatebw | undelegatebw => exact absurd trivial hs
  | _ => rfl

/-- A REX is worth at least its first price, and the pool is within the bound. -/
structure RexPool.Within (p : RexPool) : Prop where
  rex_nonneg : 0 ≤ p.totalRex
  lendable_nonneg : 0 ≤ p.totalLendable
  ratio : p.totalRex ≤ rexRatio * p.totalLendable
  lendable_le : p.totalLendable ≤ supplyBound

namespace RexPool.Within
variable {p : RexPool} {rex payment : ℤ}

lemma rex_le (h : p.Within) : p.totalRex ≤ 4 * 10 ^ 18 := by
  have h1 := h.ratio
  have h2 := h.lendable_le
  unfold rexRatio at h1
  unfold supplyBound at h2
  omega

/-- A part of the supply is worth at most the pool. -/
lemma share (h : p.Within) (h0 : 0 ≤ rex) (hle : rex ≤ p.totalRex) (hpos : 0 < p.totalRex) :
    (p.shareQuotient rex).Lossless := by
  have hl := h.lendable_nonneg
  have hbound := h.lendable_le
  have hrex := h.rex_le
  unfold supplyBound at hbound
  have hprod : rex * p.totalLendable ≤ 4 * 10 ^ 18 * (4 * 10 ^ 14) :=
    mul_le_mul (hle.trans hrex) hbound hl (by norm_num)
  have hnonneg : 0 ≤ rex * p.totalLendable := mul_nonneg h0 hl
  refine ⟨hnonneg, lt_of_le_of_lt hprod (by norm_num), Int.ediv_nonneg hnonneg hpos.le, ?_⟩
  have hvalue : p.valueOf rex ≤ p.totalLendable := by
    apply Int.ediv_le_of_le_mul hpos
    rw [mul_comm]
    exact mul_le_mul_of_nonneg_left hle hl
  rw [shareQuotient_value]
  unfold maxAmount
  omega

/-- A growing pool issues at most the first ratio for all it holds. -/
lemma growth (h : p.Within) (hpos : 0 < p.totalLendable) (h0 : 0 < payment)
    (hle : p.totalLendable + payment ≤ supplyBound) :
    WideQuotient.Lossless ⟨p.totalLendable + payment, p.totalRex, p.totalLendable⟩ := by
  have hrex := h.rex_nonneg
  have hmax := h.rex_le
  unfold supplyBound at hle
  have hprod : (p.totalLendable + payment) * p.totalRex ≤ 4 * 10 ^ 14 * (4 * 10 ^ 18) :=
    mul_le_mul hle hmax hrex (by norm_num)
  have hnonneg : 0 ≤ (p.totalLendable + payment) * p.totalRex := mul_nonneg (by omega) hrex
  refine ⟨hnonneg, lt_of_le_of_lt hprod (by norm_num), Int.ediv_nonneg hnonneg hpos.le, ?_⟩
  have hissued : (p.totalLendable + payment) * p.totalRex / p.totalLendable ≤
    (p.totalLendable + payment) * rexRatio := by
    apply Int.ediv_le_of_le_mul hpos
    rw [mul_assoc]
    exact mul_le_mul_of_nonneg_left h.ratio (by omega)
  unfold WideQuotient.value maxAmount
  unfold rexRatio at hissued
  dsimp only
  omega

/-- The first REX of a pool. -/
lemma restart (h0 : 0 < payment) (hle : payment ≤ supplyBound) :
    WideQuotient.Lossless ⟨payment, rexRatio, 1⟩ := by
  unfold supplyBound at hle
  have hnonneg : 0 ≤ payment * rexRatio := by
    unfold rexRatio
    omega
  refine ⟨hnonneg, ?_, ?_, ?_⟩
  · unfold rexRatio
    dsimp only
    omega
  · exact Int.ediv_nonneg hnonneg (by norm_num)
  · unfold WideQuotient.value rexRatio maxAmount
    dsimp only
    omega

end RexPool.Within

/-- The tables of REX are in order, `eosio.rex` covers all it owes, and the tokens are conserved
within the bound. -/
structure RexFunded (sym : Symbol) (now : BlockTimestamp) (s : State) : Prop where
  inv : RexInv now s.pools s.rex
  core : s.core = sym
  surplus : 0 ≤ rexSurplus s
  tokens : s.token.Conserved
  maxSupply : s.token.maxSupply sym.code ≤ supplyBound
  funds : FundsCovered s.rex.funds
  ratio : s.pools.pool.totalRex ≤ rexRatio * s.pools.pool.totalLendable

section
variable {sym : Symbol} {now : BlockTimestamp} {s s' : State} {owner : Name}

/-- The ratio of the first purchase is kept while the price does not fall. -/
lemma ratio_of_price {p p' : RexPool} (h : p.totalRex ≤ rexRatio * p.totalLendable)
    (hl : 0 ≤ p.totalLendable) (hl' : 0 ≤ p'.totalLendable)
    (hzero : p.totalLendable = 0 → p'.totalRex = 0)
    (hprice : p.totalLendable * p'.totalRex ≤ p'.totalLendable * p.totalRex) :
    p'.totalRex ≤ rexRatio * p'.totalLendable := by
  rcases eq_or_lt_of_le hl with hz | hpos
  · rw [hzero hz.symm]
    exact mul_nonneg (by decide) hl'
  · refine le_of_mul_le_mul_left ?_ hpos
    calc p.totalLendable * p'.totalRex ≤ p'.totalLendable * p.totalRex := hprice
      _ ≤ p'.totalLendable * (rexRatio * p.totalLendable) := mul_le_mul_of_nonneg_left h hl'
      _ = p.totalLendable * (rexRatio * p'.totalLendable) := by ring

lemma Bought.ratio {payment received : ℤ} {p p' : RexPool} (h : Bought payment p received p')
    (h0 : 0 < payment) (hp : p.totalRex ≤ rexRatio * p.totalLendable) :
    p'.totalRex ≤ rexRatio * p'.totalLendable := by
  cases h with
  | restart empty => exact (mul_comm payment rexRatio).le
  | grow rex lendable =>
    have hissued : (p.totalLendable + payment) * p.totalRex / p.totalLendable ≤
      (p.totalLendable + payment) * rexRatio := by
      apply Int.ediv_le_of_le_mul lendable
      rw [mul_assoc]
      exact mul_le_mul_of_nonneg_left hp (by omega)
    dsimp only
    rw [mul_comm rexRatio]
    exact hissued

lemma Bought.within {payment received : ℤ} {p p' : RexPool} (h : Bought payment p received p')
    (h0 : 0 < payment) (hw : p.Within) (hle : p.totalLendable + payment ≤ supplyBound) :
    p'.Within := by
  have hl := hw.lendable_nonneg
  have hbound := h.lendable_le hl
  refine ⟨?_, ?_, h.ratio h0 hw.ratio, hbound.trans hle⟩
  · cases h with
    | restart empty => exact mul_nonneg h0.le (by decide)
    | grow rex lendable => exact hw.rex_nonneg.trans (Bought.growth lendable rex h0)
  · cases h with
    | restart empty => exact h0.le
    | grow rex lendable =>
      dsimp only
      omega

lemma fundTotal_nonneg {f : Table Name ℤ} (h : FundsCovered f) : 0 ≤ fundTotal f :=
  Table.total_nonneg fun owner b hb => h owner b hb

lemma closedTotal_nonneg {r : RexPools} {x : Rex} (h : RexInv now r x) :
    0 ≤ closedTotal x.orders := by
  refine Table.total_nonneg fun owner o ho => ?_
  have hi := h.orders owner o ho
  unfold OrderInv at hi
  split_ifs at hi ⊢
  · exact le_refl _
  · exact hi

lemma returnProceeds_nonneg {r : RexPools} {x : Rex} (h : RexInv now r x) :
    0 ≤ r.returnProceeds := by
  unfold RexPools.returnProceeds
  cases hr : r.rexretpool with
  | none => exact le_refl _
  | some rp =>
    obtain ⟨p, bs, -, -, -, hl⟩ := h.ret rp hr
    exact hl.proceeds_nonneg

/-- The pool and the funds are covered by the tokens of `eosio.rex`. -/
lemma RexFunded.covered (h : RexFunded sym now s) :
    fundTotal s.rex.funds + s.pools.pool.totalLendable ≤ s.coreBalance rexAccount := by
  have hs := h.surplus
  have hc := closedTotal_nonneg h.inv
  have hr := returnProceeds_nonneg h.inv
  have hb : 0 ≤ loanTotal RexLoan.balance s.rex :=
    add_nonneg (Table.total_nonneg fun num l hl => (h.inv.loans .cpu num l hl).2.2)
      (Table.total_nonneg fun num l hl => (h.inv.loans .net num l hl).2.2)
  unfold rexSurplus rexLiabilities at hs
  omega

lemma RexFunded.balance_le (h : RexFunded sym now s) (owner : Name) :
    s.coreBalance owner ≤ supplyBound := by
  have hb := h.tokens.balance_le owner s.core.code
  have hs : s.token.supply s.core.code ≤ _ := h.tokens.supply_le_max
  have hm := h.maxSupply
  rw [← h.core] at hm
  unfold State.coreBalance
  omega

lemma RexFunded.within (h : RexFunded sym now s) : s.pools.pool.Within := by
  have hc := h.covered
  have hf := fundTotal_nonneg h.funds
  have hb := h.balance_le rexAccount
  exact ⟨h.inv.totalRex_nonneg, h.inv.lendable_nonneg, h.ratio, by omega⟩

end

section
variable [FloatOps] {sym : Symbol} {now : BlockTimestamp} {π : Promise}
    {s s' : State} {owner : Name}

omit [FloatOps] in
lemma RexFunded.later {t : BlockTimestamp} (h : RexFunded sym t s) (hle : t ≤ now) :
    RexFunded sym now s :=
  ⟨h.inv.later hle, h.core, h.surplus, h.tokens, h.maxSupply, h.funds, h.ratio⟩

lemma Effects.core (h : Effects now π s s') : s'.core = s.core := by
  induction h with
  | refl => rfl
  | tail _ hstep ih => exact hstep.core.trans ih

lemma Effects.ratio (h : Effects now π s s') (hi : RexInv now s.pools s.rex)
    (hr : s.pools.pool.totalRex ≤ rexRatio * s.pools.pool.totalLendable) :
    s'.pools.pool.totalRex ≤ rexRatio * s'.pools.pool.totalLendable := by
  have hinv := h.rexInv hi
  have hprice := h.priceKept hi
  refine ratio_of_price hr hi.lendable_nonneg hinv.lendable_nonneg (fun hz => ?_) hprice.price
  have h2 := hprice.rex
  have h3 := hinv.totalRex_nonneg
  rw [hz, mul_zero] at hr
  omega

omit [FloatOps] in
lemma Purchase.ratio (h : Purchase now π s s')
    (hr : s.pools.pool.totalRex ≤ rexRatio * s.pools.pool.totalLendable) :
    s'.pools.pool.totalRex ≤ rexRatio * s'.pools.pool.totalLendable := by
  obtain ⟨owner, payment, delta, mid, -, h0, hf, hpur⟩ := h.parts
  obtain ⟨funds, staking, resources, token, rfl⟩ := hf.frame
  obtain ⟨received, p', stake, hb, rfl⟩ := purchase_ok hpur
  rw [RexPools.pool_some (r := { s.pools with rexpool := some p' }) rfl]
  exact hb.ratio h0 hr

/-- Effects that spend no tokens of `eosio.rex`. -/
lemma RexFunded.effects (h : RexFunded sym now s) (he : Effects now π s s') (hsafe : π.safe)
    (hre : ¬ π.restake) (hc : CashMoved s s') : RexFunded sym now s' :=
  ⟨he.rexInv h.inv, he.core.trans h.core,
    le_trans h.surplus (he.surplus hsafe (absurd · hre) h.inv), hc.tokens.conserved h.tokens,
    hc.tokens.maxSupply.trans_le h.maxSupply, hc.funds h.funds, he.ratio h.inv h.ratio⟩

omit [FloatOps] in
/-- A payment that has left a fund or the staked tokens, and its bound. -/
lemma RexFunded.paying {payment : ℤ} (h : RexFunded sym now s) (hf : Funding payment s s')
    (h0 : 0 < payment) (hc : CashMoved s s') :
    RexFunded sym now s' ∧ s'.pools.pool.totalLendable + payment ≤ supplyBound := by
  have hcovered := h.covered
  have htokens := hc.tokens.conserved h.tokens
  have hmax := hc.tokens.maxSupply.trans_le h.maxSupply
  have hfunds := hc.funds h.funds
  have htotal := fundTotal_nonneg hfunds
  have hs := h.surplus
  unfold rexSurplus rexLiabilities at hs
  cases hf with
  | fund debit =>
    have hb := h.balance_le rexAccount
    dsimp only at htotal ⊢
    refine ⟨⟨h.inv.withFunds _, h.core, ?_, htokens, hmax, hfunds, h.ratio⟩, by omega⟩
    simp only [rexSurplus, rexLiabilities, State.coreBalance, loanTotal] at hs ⊢
    omega
  | stake net cpu sum hu paid =>
    obtain ⟨staking, resources, rfl⟩ := unstakeBandwidth_frame hu
    have hd := paid.dest
    refine (and_iff_left_of_imp fun h' => ?_).mpr
      ⟨h.inv, h.core, ?_, htokens, hmax, hfunds, h.ratio⟩
    · have hb := h'.balance_le rexAccount
      dsimp only at htotal
      simp only [State.coreBalance] at hcovered hb hd ⊢
      omega
    · simp only [rexSurplus, rexLiabilities, State.coreBalance, loanTotal] at hs hd ⊢
      omega

omit [FloatOps] in
lemma RexFunded.purchased {mid : State} {payment delta : ℤ} (h : RexFunded sym now s)
    (hf : Funding payment s mid) (h0 : 0 < payment) (hc : CashMoved s mid)
    (hpur : purchase now owner payment mid = .ok (delta, s')) : RexFunded sym now s' := by
  have hp : Purchase now .trading s s' :=
    ⟨⟨owner, payment, delta, mid, trivial, h0, hf, hpur⟩, trivial⟩
  have hcash := hc.trans (CashMoved.of_eq (purchase_cash hpur))
  have hcore : s'.core = s.core := by
    obtain ⟨funds, staking, resources, token, rfl⟩ := hf.frame
    obtain ⟨received, p', stake, -, rfl⟩ := purchase_ok hpur
    rfl
  exact ⟨hp.rexInv h.inv, hcore.trans h.core, le_trans h.surplus (hp.surplus h.inv),
    hcash.tokens.conserved h.tokens,
    hcash.tokens.maxSupply.trans_le h.maxSupply, hcash.funds h.funds, hp.ratio h.ratio⟩

/-- One action of a run keeps it. -/
lemma RexFunded.next {t : BlockTimestamp} {l : Label} (h : RexFunded sym t s) (hle : t ≤ now)
    (hsafe : l.action.RexSafe sym) (hst : StakeInv s.staking) (hs : step now l s s') :
    RexFunded sym now s' := by
  have hinv := h.inv.later hle
  have hcash := hs.cashMoved
  refine ⟨hs.rexInv hinv, hs.core.trans h.core, le_trans h.surplus ?_,
    hcash.tokens.conserved h.tokens,
    hcash.tokens.maxSupply.trans_le h.maxSupply, hcash.funds h.funds, ?_⟩
  · exact (exec_decomposed hs).surplus (h.core ▸ hsafe) hst hinv
  · obtain ⟨mid, hm, he⟩ := exec_decomposed hs
    rcases hm with rfl | hp
    · exact he.ratio hinv h.ratio
    · exact he.ratio (hp.rexInv hinv) (hp.ratio h.ratio)

omit [FloatOps] in
lemma Genesis.rexFunded {self : Name} (h : Genesis s) (t : BlockTimestamp)
    (htok : Token.Reachable self s.token) (hmax : s.token.maxSupply s.core.code ≤ supplyBound) :
    RexFunded s.core t s := by
  refine ⟨h.rexInv t, rfl, h.surplus, htok.conserved, hmax, ?_, ?_⟩
  · intro owner b hb
    rw [h.rex] at hb
    cases hb
  · rw [h.pools]
    exact le_refl 0

end

section
variable {now : BlockTimestamp} {s : State} {owner : Name} {payment : ℤ} {q : WideQuotient}

lemma poolQuotients_lossless {r : RexPools} (hw : r.pool.Within) (h0 : 0 < payment)
    (hle : r.pool.totalLendable + payment ≤ supplyBound) (hq : q ∈ poolQuotients payment r) :
    q.Lossless := by
  have hl := hw.lendable_nonneg
  have hfirst : WideQuotient.Lossless ⟨payment, rexRatio, 1⟩ := RexPool.Within.restart h0 (by omega)
  unfold poolQuotients at hq
  cases hp : r.rexpool with
  | none =>
    rw [hp] at hq
    exact List.mem_singleton.mp hq ▸ hfirst
  | some p =>
    rw [RexPools.pool_some hp] at hw hle
    rw [hp] at hq
    dsimp only at hq
    split_ifs at hq with hrex hlend
    · exact List.mem_singleton.mp hq ▸ hw.growth hlend h0 hle
    · exact absurd hq List.not_mem_nil
    · exact List.mem_singleton.mp hq ▸ hfirst

/-- The row of the buyer is worth part of the pool that its payment joined. -/
lemma balanceQuotients_lossless {received : ℤ} {p' : RexPool} (hi : RexInv now s.pools s.rex)
    (hb : Bought payment s.pools.pool received p') (h0 : 0 < payment) (hw : p'.Within)
    (hq : q ∈ balanceQuotients owner received (s.setPool p')) : q.Lossless := by
  have hbought : RexInv now { s.pools with rexpool := some p' } { s.rex with
      balances := s.rex.balances.insert owner (RexBalance.receive now received
        { rowOf s.rex owner with
        rexBalance := (rowOf s.rex owner).rexBalance + received, voteStake := 0 }) } :=
    hi.purchased hb h0 s.rex.acquired
  unfold balanceQuotients at hq
  rw [show (s.setPool p').rex.balances.lookup owner = s.rex.balances.lookup owner from rfl,
    show (s.setPool p').pools.rexpool = some p' from rfl] at hq
  cases hl : s.rex.balances.lookup owner with
  | none =>
    rw [hl] at hq
    exact absurd hq List.not_mem_nil
  | some rb =>
    rw [hl] at hq
    dsimp only at hq
    split_ifs at hq with hz
    · exact absurd hq List.not_mem_nil
    · have hreceived := hb.received_nonneg h0
      have hrow := (hi.rows owner rb hl).matured_le
      have hle := hbought.balance_le (AList.lookup_insert _)
      rw [(receive_received (hi.rowOf_wellFormed owner) hreceived 0).balance,
        RexPools.pool_some rfl,
        rowOf_some hl] at hle
      have hrex := hw.rex_nonneg
      exact List.mem_singleton.mp hq ▸ hw.share (by omega) hle (by omega)

lemma purchaseQuotients_lossless (hi : RexInv now s.pools s.rex) (hw : s.pools.pool.Within)
    (h0 : 0 < payment) (hle : s.pools.pool.totalLendable + payment ≤ supplyBound)
    (hq : q ∈ purchaseQuotients owner payment s) : q.Lossless := by
  rcases List.mem_append.mp hq with hpool | hbalance
  · exact poolQuotients_lossless hw h0 hle hpool
  · obtain ⟨⟨received, s₁⟩, h₁, hq⟩ := mem_listAfter.mp hbalance
    obtain ⟨p', rfl, hb⟩ := addToRexPool_ok h₁
    exact balanceQuotients_lossless hi hb h0 (hb.within h0 hw hle) hq

/-- A sale of part of a row. -/
lemma fillQuotients_lossless {rb : RexBalance} {rex : ℤ} (hw : s.pools.pool.Within) (h0 : 0 ≤ rex)
    (hle : rex ≤ rb.rexBalance) (hrow : rb.rexBalance ≤ s.pools.pool.totalRex)
    (hq : q ∈ fillQuotients rb rex s) : q.Lossless := by
  unfold fillQuotients at hq
  cases hp : s.pools.rexpool with
  | none =>
    rw [hp] at hq
    exact absurd hq List.not_mem_nil
  | some p =>
    rw [RexPools.pool_some hp] at hw hrow
    rw [hp] at hq
    dsimp only at hq
    have hrex := hw.rex_nonneg
    split_ifs at hq with hz hfill
    · exact absurd hq List.not_mem_nil
    · have hpos : 0 < p.totalRex := by omega
      rcases List.mem_cons.mp hq with rfl | hq
      · exact hw.share h0 (by omega) hpos
      · exact List.mem_singleton.mp hq ▸ hw.share (by omega) hrow hpos
    · exact List.mem_singleton.mp hq ▸ hw.share h0 (by omega) (by omega)

lemma stakeQuotients_lossless (hi : RexInv now s.pools s.rex) (hw : s.pools.pool.Within)
    (hq : q ∈ stakeQuotients owner s) : q.Lossless := by
  unfold stakeQuotients at hq
  cases hl : s.rex.balances.lookup owner with
  | none =>
    rw [hl] at hq
    exact absurd hq List.not_mem_nil
  | some rb =>
    cases hp : s.pools.rexpool with
    | none =>
      rw [hl, hp] at hq
      exact absurd hq List.not_mem_nil
    | some p =>
      have hle := hi.balance_le hl
      have hrow := (hi.rows owner rb hl).matured_le
      rw [RexPools.pool_some hp] at hw hle
      rw [hl, hp] at hq
      dsimp only at hq
      split_ifs at hq with hpos
      · exact List.mem_singleton.mp hq ▸ hw.share (by omega) hle hpos
      · exact absurd hq List.not_mem_nil

end

section
variable [FloatOps] {sym : Symbol} {now : BlockTimestamp} {s s' : State} {owner : Name}
    {payment : ℤ} {q : WideQuotient}

lemma RexFunded.maintained (h : RexFunded sym now s) (he : Effects now .maintenance s s')
    (hc : CashMoved s s') : RexFunded sym now s' := h.effects he trivial id hc

omit [FloatOps] in
lemma orderQuotients_lossless {entry : Name × RexOrder} (h : RexFunded sym now s)
    (ho : s.rex.orders.lookup entry.1 = some entry.2) (hopen : entry.2.isOpen = true)
    (hq : q ∈ orderQuotients entry s) : q.Lossless := by
  unfold orderQuotients at hq
  cases hb : s.rex.balances.lookup entry.1 with
  | none =>
    rw [hb] at hq
    exact absurd hq List.not_mem_nil
  | some rb =>
    rw [hb] at hq
    have hreq := h.inv.openRequest_bounds hb
    have hrow := (h.inv.rows _ rb hb).matured_le
    rw [openRequest_some ho hopen] at hreq
    exact fillQuotients_lossless h.within hreq.1 (hreq.2.trans hrow.2) (h.inv.balance_le hb) hq

/-- The orders are visited in states that the orders before them leave funded. -/
lemma ordersQuotients_lossless {l : List (Name × RexOrder)} (hnd : (l.map Prod.fst).Nodup)
    (h : RexFunded sym now s) (hs : s.pools.Settled)
    (ho : ∀ e ∈ l, s.rex.orders.lookup e.1 = some e.2 ∧ e.2.isOpen = true)
    (hq : q ∈ ordersQuotients l s) : q.Lossless := by
  induction l generalizing s with
  | nil => exact absurd hq List.not_mem_nil
  | cons e l ih =>
    rw [List.map_cons, List.nodup_cons] at hnd
    obtain ⟨he, hopen⟩ := ho e (by simp)
    rcases List.mem_append.mp hq with hfirst | hrest
    · exact orderQuotients_lossless h he hopen hfirst
    · obtain ⟨s₁, h₁, hq⟩ := mem_listAfter.mp hrest
      obtain ⟨heff, hsame⟩ : Effects now .maintenance s s₁ ∧
          ∀ a, a ≠ e.1 → s₁.rex.orders.lookup a = s.rex.orders.lookup a :=
          processOrder_effects he hopen hs h₁
      have hcash := processOrder_cash h₁
      refine ih hnd.2 (h.maintained heff (CashMoved.of_eq hcash))
        ((processOrder_bidsKept h₁).settled hs)
        (fun f hf => ?_) hq
      have hne : f.1 ≠ e.1 := fun heq => hnd.1 (heq ▸ List.mem_map_of_mem hf)
      rw [hsame f.1 hne]
      exact ho f (by simp [hf])

lemma runrexQuotients_lossless {max : ℕ} (h : RexFunded sym now s)
    (hq : q ∈ runrexQuotients now max s) : q.Lossless := by
  unfold runrexQuotients at hq
  simp only [mem_listAfter] at hq
  obtain ⟨r, hr, s₁, h₁, s₂, h₂, s₃, h₃, hq⟩ := hq
  have hpaid : RexFunded sym now { s with pools := r } :=
    h.maintained (Effect.distribute hr).single (CashMoved.of_eq rfl)
  obtain ⟨hbids, hs₁⟩ := channelNamebids_effects (π := .maintenance) h₁
  have hs₂ := (processLoans_bidsKept h₂).settled hs₁
  have hs₃ := (processLoans_bidsKept h₃).settled hs₂
  have hfirst := hpaid.maintained hbids (channelNamebids_moved h₁)
  have hsecond := hfirst.maintained (processLoans_effects h₂) (processLoans_moved h₂)
  have hthird := hsecond.maintained (processLoans_effects h₃) (processLoans_moved h₃)
  obtain ⟨hnd, hopen⟩ := visited_open max s₃
  exact ordersQuotients_lossless hnd hthird hs₃ hopen hq

lemma RexFunded.runrex {max : ℕ} (h : RexFunded sym now s) (hr : runrex now max s = .ok s') :
    RexFunded sym now s' :=
  h.maintained (runrex_effects hr).1 (runrex_moved hr)

lemma boughtQuotients_lossless {mid : State} (h : RexFunded sym now s) (hf : Funding payment s mid)
    (h0 : 0 < payment) (hc : CashMoved s mid) (hq : q ∈ boughtQuotients now owner payment mid) :
    q.Lossless := by
  obtain ⟨hpaying, hle⟩ := h.paying hf h0 hc
  rcases List.mem_append.mp hq with hbuy | hrun
  · exact purchaseQuotients_lossless hpaying.inv hpaying.within h0 hle hbuy
  · obtain ⟨⟨d, s'⟩, hpur, hq⟩ := mem_listAfter.mp hrun
    exact runrexQuotients_lossless (h.purchased hf h0 hc hpur) hq

lemma saleQuotients_lossless {rex : ℤ} (h : RexFunded sym now s)
    (hq : q ∈ saleQuotients now owner rex s) : q.Lossless := by
  unfold saleQuotients at hq
  cases hb : s.rex.balances.lookup owner with
  | none =>
    rw [hb] at hq
    exact absurd hq List.not_mem_nil
  | some rb =>
    rw [hb] at hq
    dsimp only at hq
    split_ifs at hq with hrex
    · have hmat : Effect now .trading s (s.setBalance owner (rb.processRexMaturities now)) :=
        Effect.reshape hb (fun hw _ hr => processRexMaturities_reshaped hw hr) (absurd trivial)
          (fun _ => rfl) (Or.inl rfl)
      have hinv := hmat.rexInv h.inv
      have hrow : (s.setBalance owner (rb.processRexMaturities now)).rex.balances.lookup owner =
          some (rb.processRexMaturities now) := AList.lookup_insert _
      have hle := (hinv.rows _ _ hrow).matured_le
      exact fillQuotients_lossless h.within hrex.1.le (hrex.2.trans hle.2) (hinv.balance_le hrow) hq
    · exact absurd hq List.not_mem_nil

lemma stakingQuotients_lossless {source receiver : Name} {net cpu : ℤ} {giving : Bool}
    (h : RexFunded sym now s)
    (hq : q ∈ stakingQuotients now source owner receiver net cpu giving s) : q.Lossless := by
  obtain ⟨s₁, h₁, hq⟩ := mem_listAfter.mp hq
  obtain ⟨staking, resources, token, rfl, -⟩ := moveStake_frame h₁
  exact stakeQuotients_lossless (s := { s with staking, resources, token }) h.inv h.within hq

/-- In a funded state every action computes without loss, whether it succeeds or not. -/
theorem RexFunded.lossless {l : Label} (h : RexFunded sym now s)
    (hq : q ∈ l.action.rexQuotients ⟨now, l.auth⟩ s) : q.Lossless := by
  obtain ⟨auth, action⟩ := l
  have hrun : ∀ {max}, q ∈ runrexQuotients now max s → q.Lossless := runrexQuotients_lossless h
  cases action with
  | buyrex owner amount =>
    dsimp only [Action.rexQuotients] at hq
    split_ifs at hq with hpos
    · obtain ⟨s₁, h₁, hq⟩ := mem_listAfter.mp hq
      have hcash := transferFromFund_moved h₁
      obtain ⟨-, funds, rfl, hf⟩ := transferFromFund_ok h₁
      exact boughtQuotients_lossless h (Funding.fund hf) hpos hcash hq
    · exact absurd hq List.not_mem_nil
  | unstaketorex owner receiver fromNet fromCpu =>
    dsimp only [Action.rexQuotients] at hq
    split_ifs at hq with hnonneg
    · obtain ⟨s₁, h₁, hq⟩ := mem_listAfter.mp hq
      obtain ⟨s₂, h₂, hq⟩ := mem_listAfter.mp hq
      have hcash : CashMoved s s₂ := by
        obtain ⟨staking, resources, rfl⟩ := unstakeBandwidth_frame h₁
        exact (inlineTransfer_moved h₂).congr rfl rfl
      obtain ⟨t, rfl, -, hpos, hpaid, -⟩ := inlineTransfer_ok h₂
      exact boughtQuotients_lossless h
        (Funding.stake hnonneg.1 hnonneg.2 rfl h₁ (hpaid rfl)) hpos hcash hq
    · exact absurd hq List.not_mem_nil
  | sellrex owner rex =>
    rcases List.mem_append.mp hq with hq | hq
    · exact hrun hq
    · obtain ⟨s₁, h₁, hq⟩ := mem_listAfter.mp hq
      exact saleQuotients_lossless (h.runrex h₁) hq
  | updaterex owner | voteupdate owner =>
    rcases List.mem_append.mp hq with hq | hq
    · exact hrun hq
    · obtain ⟨s₁, h₁, hq⟩ := mem_listAfter.mp hq
      have hnext := h.runrex h₁
      exact stakeQuotients_lossless hnext.inv hnext.within hq
  | rexexec user max => exact hrun hq
  | rent k owner receiver payment fund => exact hrun hq
  | consolidate owner => exact hrun hq
  | mvtosavings owner rex => exact hrun hq
  | mvfrsavings owner rex => exact hrun hq
  | closerex owner =>
    dsimp only [Action.rexQuotients] at hq
    split_ifs at hq
    · exact hrun hq
    · exact absurd hq List.not_mem_nil
  | voteproducer voter proxy producers => exact stakeQuotients_lossless h.inv h.within hq
  | delegatebw source receiver net cpu giving => exact stakingQuotients_lossless h hq
  | undelegatebw source receiver net cpu => exact stakingQuotients_lossless h hq
  | _ => exact absurd hq List.not_mem_nil

end

/-- The numbers of REX along every run from tokens within the bound. -/
theorem rex_arithmetic_fits [FloatOps] {t₀ t : BlockTimestamp} {s₀ s : State}
    {tr : List (BlockTimestamp × Label)} {self : Name} (h0 : Genesis s₀)
    (htok : Token.Reachable self s₀.token) (hmax : s₀.token.maxSupply s₀.core.code ≤ supplyBound)
    (hsafe : ∀ x ∈ tr, x.2.action.RexSafe s₀.core) (h : TimedRun step t₀ s₀ tr t s) :
    s.pools.pool.totalRex ≤ rexRatio * s.pools.pool.totalLendable ∧
      s.pools.pool.totalLendable ≤ s.token.supply s.core.code ∧
      ∀ now (l : Label) (q : WideQuotient), t ≤ now →
        q ∈ l.action.rexQuotients ⟨now, l.auth⟩ s → q.Lossless := by
  obtain ⟨hfunded, -⟩ : RexFunded s₀.core t s ∧ StakeInv s.staking :=
    h.invariant (fun _ t s => RexFunded s₀.core t s ∧ StakeInv s.staking)
      (fun l => l.action.RexSafe s₀.core)
      ⟨h0.rexFunded t₀ htok hmax, h0.stakeInv⟩
      (fun hi hle ha hs => ⟨hi.1.next hle ha hi.2 hs, hs.stakeInv hi.2⟩) hsafe
  refine ⟨hfunded.ratio, ?_, fun now l q hle hq => (hfunded.later hle).lossless hq⟩
  have hcovered := hfunded.covered
  have hfunds := fundTotal_nonneg hfunded.funds
  have hbalance := hfunded.tokens.balance_le rexAccount s.core.code
  unfold State.coreBalance at hcovered
  omega

def smallRun : List (Name × TokenAction) :=
  [(systemAccount, .create systemAccount ⟨15000, tlos⟩),
    (systemAccount, .issue systemAccount ⟨15000, tlos⟩ 0),
    (systemAccount, .transfer systemAccount alice ⟨15000, tlos⟩ 0)]

def smallToken : Token :=
  (smallRun.foldlM (fun t x => Token.exec systemAccount (fun _ => true) [x.1] t x.2)
    Token.empty).toOption.getD Token.empty

lemma smallToken_reachable : Token.Reachable systemAccount smallToken := by
  have hrun : smallRun.foldlM (fun t x => Token.exec systemAccount (fun _ => true) [x.1] t x.2)
    Token.empty =
      .ok smallToken := rfl
  exact Token.foldlM_reachable Relation.ReflTransGen.refl hrun

def smallState : State where
  __ := launchState
  token := smallToken

lemma smallState_genesis : Genesis smallState := by
  refine ⟨rfl, rfl, rfl, rfl, fun k a => ?_, rfl, by decide⟩
  cases k <;> rfl

def smallBuy : List (BlockTimestamp × Label) :=
  [(launchTime, ⟨[alice], .deposit alice ⟨10000, tlos⟩⟩),
    (launchTime, ⟨[alice], .buyrex alice ⟨10000, tlos⟩⟩)]

def smallEnd (tr : List (BlockTimestamp × Label)) : State :=
  stateAfter (fun now (l : Label) => @exec launchFloats ⟨now, l.auth⟩ l.action) tr smallState

theorem small_arithmetic_fits : (smallEnd smallBuy).pools.pool.totalRex = 100000000 ∧
    (smallEnd smallBuy).pools.pool.totalRex ≤ rexRatio *
      (smallEnd smallBuy).pools.pool.totalLendable ∧
    WideQuotient.Lossless ⟨100000000, 10000, 100000000⟩ := by
  let := launchFloats
  have hrun : TimedRun step launchTime smallState smallBuy launchTime (smallEnd smallBuy) :=
    timedRun_stateAfter (by decide) (by decide +kernel)
  obtain ⟨hratio, -, hfits⟩ :=
    rex_arithmetic_fits smallState_genesis smallToken_reachable (by decide)
    (by simp [smallBuy, Action.RexSafe]) hrun
  refine ⟨by decide +kernel, hratio,
    hfits launchTime ⟨[alice], .voteproducer alice ⟨0⟩ []⟩ _ (le_refl _) ?_⟩
  decide +kernel

/-- `eosio.rex` hands the tokens back, and Alice buys REX for them again. -/
def twiceBought : List (BlockTimestamp × Label) :=
  smallBuy ++ (launchTime, ⟨[rexAccount], .transfer rexAccount alice ⟨10000, tlos⟩ 0⟩) :: smallBuy

/-- Where `eosio.rex` spends its tokens the pool outgrows the supply. -/
theorem twice_bought_exceeds : @Reachable launchFloats launchTime (smallEnd twiceBought) ∧
    smallState.token.maxSupply smallState.core.code ≤ supplyBound ∧
    ¬ (smallEnd twiceBought).pools.pool.totalLendable ≤
      (smallEnd twiceBought).token.supply (smallEnd twiceBought).core.code := by
  let := launchFloats
  refine ⟨⟨launchTime, smallState, twiceBought, smallState_genesis,
    ?_⟩, by decide, by decide +kernel⟩
  exact timedRun_stateAfter (by decide) (by decide +kernel)

end TelosSystem
