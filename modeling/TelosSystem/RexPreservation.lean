import TelosSystem.RexInvariant

/-! Every effect and every purchase keeps the invariant of the REX tables. -/
namespace TelosSystem
open Ledger

section
variable {now : BlockTimestamp} {s s' : State}

lemma adjustResources_frame {account : Name} {net cpu : ℤ} {b : Bool}
    (h : adjustResources account net cpu b s = .ok s') : ∃ resources, s' = { s with resources } :=
  (adjustResources_moved h).only

lemma refundBalances_frame {owner receiver : Name} {net cpu n c : ℤ} {transfer d : Bool}
    (h : refundBalances now owner receiver net cpu transfer s = .ok (n, c, d, s')) :
    ∃ staking, s' = { s with staking } := by
  unfold refundBalances at h
  dsimp only at h
  split_ifs at h
  · unfold updateRefund at h
    split at h
    · simp only [bind_ok, check_ok, exists_const] at h
      obtain ⟨-, -, h⟩ := h
      split_ifs at h <;>
      · rw [pure_ok] at h
        cases h
        exact ⟨_, rfl⟩
    · split_ifs at h <;>
      · rw [pure_ok] at h
        cases h
        exact ⟨_, rfl⟩
  · cases h
    exact ⟨s.staking, rfl⟩

/-- Staking either moves no tokens or pays them into `eosio.stake`. -/
def StakePaid (code : UInt64) (source : Name) (t t' : Token) : Prop :=
  t' = t ∨ ∃ amount, Paid code source stakeAccount amount t t'

lemma settleRefund_frame {source owner receiver : Name} {net cpu : ℤ} {transfer : Bool}
    (h : settleRefund now source owner receiver net cpu transfer s = .ok s') :
    ∃ staking token, s' = { s with staking, token } ∧
      StakePaid s.core.code source s.token token := by
  simp only [settleRefund, bind_ok] at h
  obtain ⟨⟨n, c, d, s1⟩, h1, h⟩ := h
  obtain ⟨staking, rfl⟩ := refundBalances_frame h1
  split_ifs at h
  · obtain ⟨t, rfl, -, -, hpaid, -⟩ := inlineTransfer_ok h
    exact ⟨_, t, rfl, Or.inr ⟨_, hpaid rfl⟩⟩
  · rw [pure_ok] at h
    subst h
    exact ⟨_, s.token, rfl, Or.inl rfl⟩

lemma moveStake_frame [FloatOps] {source owner receiver : Name} {net cpu : ℤ} {transfer : Bool}
    (h : moveStake now source owner receiver net cpu transfer s = .ok s') :
    ∃ staking resources token, s' = { s with staking, resources, token } ∧
      StakePaid s.core.code source s.token token := by
  simp only [moveStake, changeDelband, bind_ok, check_ok, exists_const, pure_ok] at h
  obtain ⟨s1, ⟨-, -, rfl⟩, s2, h2, h⟩ := h
  obtain ⟨resources, rfl⟩ := adjustResources_frame h2
  split_ifs at h
  · obtain ⟨staking, t, rfl, hpaid⟩ := settleRefund_frame h
    exact ⟨staking, resources, t, rfl, hpaid⟩
  · rw [pure_ok] at h
    subst h
    exact ⟨_, resources, s.token, rfl, Or.inl rfl⟩

lemma expireOrders_frame {max : ℕ} {net cpu n c : ℤ}
    (h : expireOrders now max net cpu s = .ok (n, c, s')) :
    ∃ resources powerup, s' = { s with resources, powerup } := by
  induction max generalizing net cpu s with
  | zero =>
    rw [expireOrders] at h
    cases h
    exact ⟨_, _, rfl⟩
  | succ max ih =>
    rw [expireOrders] at h
    split at h
    · cases h
      exact ⟨_, _, rfl⟩
    · split_ifs at h
      · cases h
        exact ⟨_, _, rfl⟩
      · simp only [bind_ok] at h
        obtain ⟨s1, h1, h⟩ := h
        obtain ⟨resources, rfl⟩ := adjustResources_frame h1
        obtain ⟨resources', powerup, rfl⟩ := ih h
        exact ⟨resources', powerup, rfl⟩

lemma processPowerupQueue_frame [FloatOps] {max : ℕ} {st st' : PowerupState} {n c : ℤ}
    (h : processPowerupQueue now max st s = .ok (n, c, st', s')) :
    ∃ resources powerup, s' = { s with resources, powerup } := by
  simp only [processPowerupQueue, bind_ok, pure_ok, Prod.mk.injEq] at h
  obtain ⟨⟨n1, c1, s1⟩, h1, net, -, cpu, -, -, -, -, rfl⟩ := h
  exact expireOrders_frame h1

lemma MarketStep.frame [FloatOps] {cfg power : Prop} (h : MarketStep now cfg power s s') :
    ∃ resources powerup, s' = { s with resources, powerup } := by
  cases h with
  | config _ h =>
    simp only [cfgpowerup, requireAuth, bind_ok, check_ok, exists_const, pure_ok] at h
    obtain ⟨-, -, a, -, b, -, fee, -, -, -, -, net, -, cpu, -, x, -, y, -, s1, h1, rfl⟩ := h
    obtain ⟨resources, rfl⟩ := adjustResources_frame h1
    exact ⟨resources, _, rfl⟩
  | process h =>
    simp only [powerupexec, requireAuth, bind_ok, check_ok, exists_const, require_ok, pure_ok] at h
    obtain ⟨-, st, -, ⟨n, c, st', s1⟩, h1, s2, h2, rfl⟩ := h
    obtain ⟨resources, powerup, rfl⟩ := processPowerupQueue_frame h1
    obtain ⟨resources', rfl⟩ := adjustResources_frame h2
    exact ⟨resources', _, rfl⟩
  | reserve _ hst hn hc h =>
    simp only [reservePower, bind_ok, check_ok, exists_const, pure_ok, Prod.mk.injEq] at h
    obtain ⟨⟨n, c, st1, s1⟩, h1, net, -, cpu, -, -, -, s2, h2, s3, h3, -, -, rfl⟩ := h
    obtain ⟨resources, powerup, rfl⟩ := processPowerupQueue_frame h1
    obtain ⟨resources', rfl⟩ := adjustResources_frame h2
    obtain ⟨resources'', rfl⟩ := adjustResources_frame h3
    exact ⟨resources'', _, rfl⟩

end

section
variable {now : BlockTimestamp} {r r' : RexPools} {x : Rex} {p : RexPool} {k : LoanKind}
    {num : ℕ} {loan : RexLoan}

lemma loans_update {P : RexLoan → Prop} {t : Table ℕ RexLoan}
    (h : ∀ k num l, (x.loans k).lookup num = some l → P l)
    (ht : ∀ num l, t.lookup num = some l → P l) :
    ∀ j num l, (Function.update x.loans k t j).lookup num = some l → P l := by
  intro j num l hl
  by_cases hj : j = k
  · subst hj
    rw [Function.update_self] at hl
    exact ht num l hl
  · rw [Function.update_of_ne hj] at hl
    exact h j num l hl

lemma RexInv.pool_at (h : RexInv now r x) (hp : r.rexpool = some p) : PoolInv p x :=
  RexPools.pool_some hp ▸ h.pool

lemma RexInv.staked_le_lent (h : RexInv now r x) (hp : r.rexpool = some p)
    (hl : (x.loans k).lookup num = some loan) :
    0 < loan.totalStaked ∧ loan.totalStaked ≤ p.totalLent := by
  refine ⟨(h.loans k num loan hl).2.1, ?_⟩
  rw [(h.pool_at hp).lent]
  exact h.staked_le hl

/-- A pool that lends anything has REX. -/
lemma RexInv.lending_nonzero (h : RexInv now r x) (hp : r.rexpool = some p)
    (hl : (x.loans k).lookup num = some loan) : p.totalRex ≠ 0 := by
  intro hz
  have h1 := (h.pool_at hp).empty hz
  have h2 := h.staked_le_lent hp hl
  omega

/-- The pool after a loan is taken out of it, with the loan row gone. -/
lemma RexInv.removed (h : RexInv now r x) (hp : r.rexpool = some p)
    (hl : (x.loans k).lookup num = some loan) (funds : Table Name ℤ) :
    RexInv now { r with rexpool := some (removeLoanFromRexPool loan p) }
      { x with funds, loans := Function.update x.loans k ((x.loans k).erase num) } := by
  obtain ⟨hpos, hle⟩ := h.staked_le_lent hp hl
  have hpool : PoolInv (removeLoanFromRexPool loan p)
      { x with funds, loans := Function.update x.loans k ((x.loans k).erase num) } := by
    refine (h.pool_at hp).removeLoan hpos hle ?_ rfl
    rw [stakedTotal, loanTotal_update, Table.total_erase, Table.valueAt_some hl]
    omega
  exact ⟨h.ret.setPool hpool.balanced, hpool, loans_update h.loans (Table.forall_erase (h.loans k)),
    h.rows, h.orders⟩

lemma RexInv.lent {payment rented : ℤ} {new : Bool} (h : RexInv now r x) (hp : r.rexpool = some p)
    (hz : p.totalRex ≠ 0) (hle : rented ≤ p.totalUnlent) (hpay : 0 < payment)
    (ha : addLoanToRexPool now payment rented new r = .ok r') {y : Rex}
    (hs : stakedTotal y = stakedTotal x + rented) (hr : rexTotal y = rexTotal x) :
    r'.ReturnInv now ∧ PoolInv r'.pool y := by
  obtain ⟨hret, c, hc, hpool, -⟩ := addLoanToRexPool_returned h.ret hp (h.balanced hp) ha
  refine ⟨hret, ?_⟩
  rw [RexPools.pool_some hpool]
  refine ((h.pool_at hp).credit hc).lend hpay.le ?_ hz hs hr
  simp only [RexPool.credit]
  omega

lemma RexInv.openLoan (h : RexInv now r x) (hp : r.rexpool = some p) (hav : rexAvailable r)
    (hfresh : (x.loans k).lookup num = none) (hpay : 0 < loan.payment) (hbal : 0 ≤ loan.balance)
    (hprice : loan.totalStaked = getBancorOutput p.totalRent p.totalUnlent loan.payment)
    (hgain : loan.payment < loan.totalStaked)
    (ha : addLoanToRexPool now loan.payment loan.totalStaked true r = .ok r')
    (funds : Table Name ℤ) :
    RexInv now r' { x with funds, loans := Function.update x.loans k ((x.loans k).insert num loan) } := by
  have hz : p.totalRex ≠ 0 := by
    simp only [rexAvailable, hp, decide_eq_true_eq] at hav
    omega
  have hle : loan.totalStaked ≤ p.totalUnlent := by
    rw [hprice]
    exact getBancorOutput_le (h.pool_at hp).rent_nonneg (h.pool_at hp).unlent_nonneg hpay
  obtain ⟨hret, hpool⟩ := h.lent (y := { x with
      funds, loans := Function.update x.loans k ((x.loans k).insert num loan) }) hp hz hle hpay ha
        (by
    rw [stakedTotal, loanTotal_update, Table.total_insert_new _ _ hfresh]
    omega) rfl
  refine ⟨hret, hpool, loans_update h.loans (Table.forall_insert (h.loans k) ?_), h.rows, h.orders⟩
  exact ⟨hpay, by omega, hbal⟩

lemma RexInv.renewLoan {q : RexPool} {rented : ℤ} (h : RexInv now r x) (hp : r.rexpool = some p)
    (hl : (x.loans k).lookup num = some loan) (hq : q = removeLoanFromRexPool loan p)
    (hprice : rented = getBancorOutput q.totalRent q.totalUnlent loan.payment)
    (hpayable : loan.payment ≤ loan.balance) (hgain : loan.payment < rented)
    (ha : addLoanToRexPool now loan.payment rented false { r with rexpool := some q } = .ok r') :
    RexInv now r' { x with
      loans := Function.update x.loans k
        ((x.loans k).insert num (updateRenewedLoan rented loan)) } := by
  have hrem := h.removed hp hl x.funds
  rw [← hq] at hrem
  have hpay := (h.loans k num loan hl).1
  have hz : q.totalRex ≠ 0 := by
    subst hq
    intro hz
    exact h.lending_nonzero hp hl hz
  have hle : rented ≤ q.totalUnlent := by
    rw [hprice]
    exact getBancorOutput_le (hrem.pool_at rfl).rent_nonneg (hrem.pool_at rfl).unlent_nonneg hpay
  obtain ⟨hret, hpool⟩ := hrem.lent (y := { x with
      loans := Function.update x.loans k ((x.loans k).insert num (updateRenewedLoan rented loan)) })
    rfl hz hle hpay ha (by
      rw [stakedTotal, loanTotal_update, loanTotal_update, Table.total_insert_old _ _ hl,
      Table.total_erase,
        Table.valueAt_some hl]
      simp only [updateRenewedLoan]
      omega) rfl
  refine ⟨hret, hpool, loans_update h.loans (Table.forall_insert (h.loans k) ?_), h.rows, h.orders⟩
  exact ⟨hpay, by simp only [updateRenewedLoan]; omega, by simp only [updateRenewedLoan]; omega⟩

lemma RexInv.loanBalance {delta : ℤ} (h : RexInv now r x) (hl : (x.loans k).lookup num = some loan)
    (hnn : 0 ≤ loan.balance → 0 ≤ loan.balance + delta) (funds : Table Name ℤ) :
    RexInv now r { x with
      funds
      loans := Function.update x.loans k
        ((x.loans k).insert num { loan with balance := loan.balance + delta }) } := by
  obtain ⟨h1, h2, h3⟩ := h.loans k num loan hl
  refine ⟨h.ret, ⟨h.pool.balanced, h.pool.unlent_nonneg, h.pool.rent_nonneg, ?_,
    h.pool.rex, h.pool.empty⟩,
    loans_update h.loans (Table.forall_insert (h.loans k) ⟨h1, h2, hnn h3⟩), h.rows, h.orders⟩
  rw [stakedTotal, loanTotal_update, Table.total_insert_old _ _ hl, h.pool.lent, stakedTotal]
  dsimp only
  omega

end

section
variable {now : BlockTimestamp} {r : RexPools} {x : Rex} {p : RexPool} {owner : Name}
    {rb : RexBalance}
  {o : RexOrder} {rex : ℤ}

lemma collectOrder_lookup {t : Table Name RexOrder} {a : Name}
    (h : (collectOrder owner t).lookup a = some o) : t.lookup a = some o := by
  unfold collectOrder at h
  split at h
  · split_ifs at h
    · exact h
    · rw [Table.lookup_erase'] at h
      split_ifs at h
      exact h
  · exact h

lemma openRequest_some {t : Table Name RexOrder} (h : t.lookup owner = some o)
    (hopen : o.isOpen = true) : openRequest owner t = o.rexRequested := by
  simp [openRequest, h, hopen]

/-- Orders stay covered when a row keeps what its own order asks for. -/
lemma OrderInv.setRow {t : Table Name RexBalance} {a : Name} {row : RexBalance} (h : OrderInv t a o)
    (hrow : a = owner → o.isOpen = true → o.rexRequested ≤ row.maturedRex) :
    OrderInv (t.insert owner row) a o := by
  unfold OrderInv at h ⊢
  split_ifs at h ⊢ with hopen
  · obtain ⟨hpos, rb, hrb, hle⟩ := h
    refine ⟨hpos, ?_⟩
    rw [Table.lookup_insert']
    split_ifs with ha
    · exact ⟨row, rfl, hrow ha hopen⟩
    · exact ⟨rb, hrb, hle⟩
  · exact h

lemma RexBalance.WellFormed.sell (h : rb.WellFormed now) (hle : rex ≤ rb.maturedRex) (stake : ℤ) :
    (rb.sell rex stake).WellFormed now := by
  obtain ⟨bs, sv, hf⟩ := h
  have htot := hf.total
  exact ⟨bs, sv, hf.buckets, hf.maturing,
    hf.savings_nonneg, by simp only [RexBalance.sell]; omega, by
    simp only [RexBalance.sell]
    omega⟩

lemma RexInv.valueOf_nonneg (h : RexInv now r x) (hp : r.rexpool = some p) (h0 : 0 ≤ rex) :
    0 ≤ p.valueOf rex := by
  have hpool := h.pool_at hp
  have hl : 0 ≤ p.totalLent := RexPools.pool_some hp ▸ h.lent_nonneg
  have hr : 0 ≤ p.totalRex := by
    rw [hpool.rex]
    exact Table.total_nonneg fun owner rb hb => by
      have := (h.rows owner rb hb).matured_le
      omega
  exact Int.ediv_nonneg (mul_nonneg h0 (hpool.lendable_nonneg hl)) hr

lemma rexTotal_setRow {row : RexBalance} (hb : x.balances.lookup owner = some rb)
    (funds : Table Name ℤ) (orders : Table Name RexOrder) (sold : List Sale) :
    rexTotal { x with funds, orders, balances := x.balances.insert owner row, sold } =
      rexTotal x - rb.rexBalance + row.rexBalance := by
  unfold rexTotal
  rw [Table.total_insert_old _ _ hb]

lemma RexInv.sold {orders : Table Name RexOrder} {stake : ℤ} (h : RexInv now r x)
    (hp : r.rexpool = some p) (hb : x.balances.lookup owner = some rb) (hle : rex ≤ rb.maturedRex)
    (hf : Fillable p rex) (funds : Table Name ℤ) (sold : List Sale)
    (ho : ∀ a o, orders.lookup a = some o →
      OrderInv (x.balances.insert owner (rb.sell rex stake)) a o) :
    RexInv now { r with rexpool := some (p.sell rex (p.valueOf rex)) }
      { x with funds, orders, balances := x.balances.insert owner (rb.sell rex stake), sold } := by
  have hpool : PoolInv (p.sell rex (p.valueOf rex))
      { x with funds, orders, balances := x.balances.insert owner (rb.sell rex stake), sold } := by
    refine (h.pool_at hp).sell (RexPools.pool_some hp ▸ h.lent_nonneg) hf rfl ?_
    rw [rexTotal_setRow hb]
    simp only [RexBalance.sell]
    omega
  exact ⟨h.ret.setPool hpool.balanced, hpool, h.loans,
    Table.forall_insert h.rows ((h.rows owner rb hb).sell hle stake), ho⟩

lemma RexInv.filled {stake change : ℤ} (h : RexInv now r x) (ho : x.orders.lookup owner = some o)
    (hopen : o.isOpen = true) (hb : x.balances.lookup owner = some rb) (hp : r.rexpool = some p)
    (hf : Fillable p o.rexRequested) (sold : List Sale) :
    RexInv now { r with rexpool := some (p.sell o.rexRequested (p.valueOf o.rexRequested)) }
      { x with
        balances := x.balances.insert owner (rb.sell o.rexRequested stake)
        sold
        orders := x.orders.insert owner { o with
          proceeds := p.valueOf o.rexRequested, stakeChange := change, isOpen := false } } := by
  have hreq := h.openRequest_bounds hb
  rw [openRequest_some ho hopen] at hreq
  refine h.sold hp hb hreq.2 hf x.funds sold fun a o' ho' => ?_
  rw [Table.lookup_insert'] at ho'
  split_ifs at ho' with ha
  · cases ho'
    simpa [OrderInv] using h.valueOf_nonneg hp hreq.1
  · exact (h.orders a o' ho').setRow fun he => absurd he ha

lemma RexInv.soldNow {stake : ℤ} (h : RexInv now r x) (hb : x.balances.lookup owner = some rb)
    (hp : r.rexpool = some p) (hle : rex ≤ rb.maturedRex) (hf : Fillable p rex)
    (hres : openRequest owner x.orders ≤ rb.maturedRex - rex) (funds : Table Name ℤ)
    (sold : List Sale) :
    RexInv now { r with rexpool := some (p.sell rex (p.valueOf rex)) }
      { x with
        funds
        orders := collectOrder owner x.orders
        balances := x.balances.insert owner (rb.sell rex stake)
        sold } := by
  refine h.sold hp hb hle hf funds sold fun a o' ho' => ?_
  have hl := collectOrder_lookup ho'
  refine (h.orders a o' hl).setRow fun he hopen => ?_
  subst he
  rwa [openRequest_some hl hopen] at hres

lemma RexInv.withOrders {orders : Table Name RexOrder} (h : RexInv now r x) (funds : Table Name ℤ)
    (ho : ∀ a o, orders.lookup a = some o → OrderInv x.balances a o) :
    RexInv now r { x with funds, orders } :=
  ⟨h.ret, ⟨h.pool.balanced, h.pool.unlent_nonneg, h.pool.rent_nonneg, h.pool.lent,
    h.pool.rex, h.pool.empty⟩,
    h.loans, h.rows, ho⟩

lemma RexInv.enqueued (h : RexInv now r x) (hb : x.balances.lookup owner = some rb)
    (hno : ∀ o, x.orders.lookup owner = some o → o.isOpen = true) (h0 : 0 < rex)
    (hm : (queuedOrder now rex (x.orders.lookup owner)).rexRequested ≤ rb.maturedRex) :
    RexInv now r { x with orders := x.orders.insert owner (queuedOrder now rex (x.orders.lookup owner)) } := by
  refine h.withOrders x.funds (Table.forall_insert h.orders ?_)
  have hreq := (h.openRequest_bounds hb).1
  cases ho : x.orders.lookup owner with
  | none =>
    rw [ho] at hm
    simpa [OrderInv, queuedOrder] using ⟨h0, rb, hb, hm⟩
  | some o =>
    have hopen := hno o ho
    rw [ho] at hm
    rw [openRequest_some ho hopen] at hreq
    simp only [OrderInv, queuedOrder, hopen, if_true]
    exact ⟨by omega, rb, hb, hm⟩

lemma RexInv.reshaped {rb' : RexBalance} (h : RexInv now r x)
    (hb : x.balances.lookup owner = some rb)
    (hr : Reshaped now (openRequest owner x.orders) rb rb') :
    RexInv now r { x with balances := x.balances.insert owner rb' } := by
  refine ⟨h.ret, ⟨h.pool.balanced, h.pool.unlent_nonneg, h.pool.rent_nonneg, h.pool.lent,
    ?_, h.pool.empty⟩,
    h.loans, Table.forall_insert h.rows hr.wellFormed, fun a o ho => ?_⟩
  · rw [rexTotal_setRow hb, hr.balance, h.pool.rex]
    omega
  · refine (h.orders a o ho).setRow fun he hopen => ?_
    subst he
    have := hr.reserved
    rwa [openRequest_some ho hopen] at this

lemma RexInv.dropped (h : RexInv now r x) (hb : x.balances.lookup owner = some rb)
    (hz : rb.rexBalance = 0) : RexInv now r { x with balances := x.balances.erase owner } := by
  refine ⟨h.ret, ⟨h.pool.balanced, h.pool.unlent_nonneg, h.pool.rent_nonneg, h.pool.lent,
    ?_, h.pool.empty⟩,
    h.loans, Table.forall_erase h.rows, fun a o ho => ?_⟩
  · unfold rexTotal
    rw [Table.total_erase, Table.valueAt_some hb, hz, h.pool.rex, rexTotal, sub_zero]
  · have hi := h.orders a o ho
    unfold OrderInv at hi ⊢
    split_ifs at hi ⊢ with hopen
    · obtain ⟨hpos, rb', hrb', hle⟩ := hi
      refine ⟨hpos, rb', ?_, hle⟩
      rw [Table.lookup_erase']
      split_ifs with ha
      · subst ha
        cases hb.symm.trans hrb'
        have := (h.rows _ _ hb).matured_le
        omega
      · exact hrb'
    · exact hi

end
end TelosSystem
