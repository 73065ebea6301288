import TelosSystem.StakeCustody

/-! Solvency of `eosio.rex`. The tokens it holds above everything it owes never become fewer,
whatever the users, the queue and the return pool do. -/
namespace TelosSystem
open Ledger

def closedTotal (t : Table Name RexOrder) : ℤ :=
  t.total fun _ o => if o.isOpen then 0 else o.proceeds

/-- Everything `eosio.rex` owes. -/
def rexLiabilities (s : State) : ℤ :=
  fundTotal s.rex.funds + loanTotal RexLoan.balance s.rex + s.pools.pool.totalLendable +
    s.pools.returnProceeds + closedTotal s.rex.orders

def rexSurplus (s : State) : ℤ := s.coreBalance rexAccount - rexLiabilities s

section
variable {now : BlockTimestamp} {s : State} {p : RexPool} {r : RexPools}

lemma closedTotal_collect (owner : Name) (t : Table Name RexOrder) :
    closedTotal (collectOrder owner t) = closedTotal t - closedProceeds owner t := by
  unfold collectOrder closedProceeds closedTotal
  cases hl : t.lookup owner with
  | none => simp
  | some o =>
    dsimp only
    split_ifs with ho
    · simp
    · rw [Table.total_erase, Table.valueAt_some hl, if_neg ho]

lemma closedTotal_insert_open {owner : Name} {t : Table Name RexOrder} {o' : RexOrder}
    (hold : ∀ o, t.lookup owner = some o → o.isOpen = true) (ho : o'.isOpen = true) :
    closedTotal (t.insert owner o') = closedTotal t := by
  unfold closedTotal
  rw [Table.total_insert, if_pos ho]
  cases hl : t.lookup owner with
  | none => rw [Table.valueAt_none hl]; omega
  | some o => rw [Table.valueAt_some hl, if_pos (hold o hl)]; omega

lemma RexPool.credit_lendable {c : ℤ} (h : p.Balanced) :
    (p.credit c).totalLendable = p.totalLendable + c := by
  unfold RexPool.Balanced at h
  simp only [RexPool.credit]
  omega

lemma removeLoan_lendable (loan : RexLoan) (h : p.Balanced) :
    (removeLoanFromRexPool loan p).totalLendable = p.totalLendable := by
  unfold RexPool.Balanced at h
  simp only [removeLoanFromRexPool]
  omega

/-- What the return pool hands over arrives in the REX pool. -/
lemma Returned.lendable {amount : ℤ} {r' : RexPools} (h : Returned now amount r r')
    (hbal : ∀ p, r.rexpool = some p → p.Balanced) :
    r'.pool.totalLendable + r'.returnProceeds ≤ r.pool.totalLendable +
      r.returnProceeds + amount := by
  obtain ⟨c, hc, hpool, hpro⟩ := h.moved
  cases hp : r.rexpool with
  | none =>
    rw [hp, Option.map_none] at hpool
    have he : r'.pool = r.pool := by simp [RexPools.pool, hp, hpool]
    rw [he]
    omega
  | some p =>
    rw [hp, Option.map_some] at hpool
    rw [RexPools.pool_some hpool, RexPools.pool_some hp, RexPool.credit_lendable (hbal p hp)]
    omega

/-- Lending moves no tokens except the payment, which joins the return pool. -/
lemma addLoanToRexPool_lendable {payment rented : ℤ} {new : Bool} {r' : RexPools}
    (hi : r.ReturnInv now) (hp : r.rexpool = some p) (hbal : p.Balanced) (h0 : 0 < payment)
    (ha : addLoanToRexPool now payment rented new r = .ok r') :
    r'.pool.totalLendable + r'.returnProceeds = p.totalLendable + r.returnProceeds + payment := by
  obtain ⟨-, c, hc, hpool, hpro⟩ := addLoanToRexPool_returned hi hp hbal ha
  rw [RexPools.pool_some hpool, hpro, max_eq_right h0.le]
  have := RexPool.credit_lendable (c := c) hbal
  simp only [RexPool.lend]
  omega

variable {k : LoanKind} {num : ℕ} {loan : RexLoan} {funds : Table Name ℤ}
    {resources : Resources} {owner : Name}
  {rb : RexBalance} {o : RexOrder} {rex stake change : ℤ} {voting : Voting}

lemma surplus_closeLoan (hi : RexInv now s.pools s.rex)
    (row : (s.rex.loans k).lookup num = some loan) (pool : s.pools.rexpool = some p)
    (refund : fundTotal funds = fundTotal s.rex.funds + max 0 loan.balance) :
    rexSurplus s = rexSurplus (s.withLoans k ((s.rex.loans k).erase num) funds
      { s.pools with rexpool := some (removeLoanFromRexPool loan p) } resources) := by
  have hrem := removeLoan_lendable loan (hi.balanced pool)
  rw [max_eq_right (hi.loans _ _ _ row).2.2] at refund
  simp only [rexSurplus, rexLiabilities, State.coreBalance, State.withLoans, RexPools.pool, pool,
    Option.getD_some, RexPools.returnProceeds, loanTotal_update, Table.total_erase,
    Table.valueAt_some row]
  omega

lemma surplus_renewLoan {q : RexPool} {rented : ℤ} (hi : RexInv now s.pools s.rex)
    (row : (s.rex.loans k).lookup num = some loan) (pool : s.pools.rexpool = some p)
    (removed : q = removeLoanFromRexPool loan p)
    (h : addLoanToRexPool now loan.payment rented false { s.pools with rexpool := some q } =
      .ok r) :
    rexSurplus s = rexSurplus (s.withLoans k
      ((s.rex.loans k).insert num (updateRenewedLoan rented loan))
      s.rex.funds r resources) := by
  have hrem := removeLoan_lendable loan (hi.balanced pool)
  have hq := (hi.removed pool row s.rex.funds)
  rw [← removed] at hq hrem
  have hl := addLoanToRexPool_lendable hq.ret rfl (hq.balanced rfl) (hi.loans _ _ _ row).1 h
  have hp := RexPools.pool_some pool
  simp only [rexSurplus, rexLiabilities, State.coreBalance, State.withLoans, loanTotal_update,
    Table.total_insert_old _ _ row, updateRenewedLoan, RexPools.returnProceeds] at hl ⊢
  rw [hp]
  omega

lemma surplus_fillOrder (order : s.rex.orders.lookup owner = some o) (isOpen : o.isOpen = true)
    (pool : s.pools.rexpool = some p) :
    rexSurplus s = rexSurplus (s.afterSale owner (p.sell o.rexRequested (p.valueOf o.rexRequested))
      (rb.sell o.rexRequested stake) o.rexRequested s.rex.funds
      (s.rex.orders.insert owner { o with
        proceeds := p.valueOf o.rexRequested, stakeChange := change, isOpen := false })
          voting) := by
  have hp := RexPools.pool_some pool
  simp only [rexSurplus, rexLiabilities, State.coreBalance, State.afterSale,
    RexPools.returnProceeds, closedTotal,
    Table.total_insert_old _ _ order, isOpen, if_true, Bool.false_eq_true, if_false, loanTotal]
  rw [hp, RexPools.pool_some rfl]
  simp only [RexPool.sell]
  omega

lemma surplus_sell (hi : RexInv now s.pools s.rex) (pool : s.pools.rexpool = some p) (h0 : 0 ≤ rex)
    (credit : fundTotal funds = fundTotal s.rex.funds +
      max 0 (p.valueOf rex + closedProceeds owner s.rex.orders)) :
    rexSurplus s = rexSurplus (s.afterSale owner (p.sell rex (p.valueOf rex))
      (rb.sell rex stake) rex funds
      (collectOrder owner s.rex.orders) voting) := by
  have hp := RexPools.pool_some pool
  have hv := hi.valueOf_nonneg pool h0
  have hc := hi.closedProceeds_nonneg owner
  rw [max_eq_right (add_nonneg hv hc)] at credit
  simp only [rexSurplus, rexLiabilities, State.coreBalance, State.afterSale,
    RexPools.returnProceeds,
    closedTotal_collect, loanTotal]
  rw [hp, RexPools.pool_some rfl]
  simp only [RexPool.sell]
  omega

lemma surplus_collect (hi : RexInv now s.pools s.rex)
    (credit : fundTotal funds = fundTotal s.rex.funds + max 0 (closedProceeds owner s.rex.orders)) :
    rexSurplus s = rexSurplus { s with
      voting, rex := { s.rex with funds, orders := collectOrder owner s.rex.orders } } := by
  rw [max_eq_right (hi.closedProceeds_nonneg owner)] at credit
  simp only [rexSurplus, rexLiabilities, State.coreBalance, closedTotal_collect, loanTotal]
  omega

lemma surplus_enqueue (hold : ∀ o, s.rex.orders.lookup owner = some o → o.isOpen = true) :
    rexSurplus s = rexSurplus (s.setOrder owner
      (queuedOrder now rex (s.rex.orders.lookup owner))) := by
  have hopen : (queuedOrder now rex (s.rex.orders.lookup owner)).isOpen = true := by
    cases hl : s.rex.orders.lookup owner with
    | none => rfl
    | some o => exact hold o hl
  have hc := closedTotal_insert_open hold hopen
  simp only [rexSurplus, rexLiabilities, State.coreBalance, State.setOrder, loanTotal, hc]

lemma surplus_cancel (order : s.rex.orders.lookup owner = some o) (isOpen : o.isOpen = true) :
    rexSurplus s = rexSurplus (s.eraseOrder owner) := by
  simp only [rexSurplus, rexLiabilities, State.coreBalance, State.eraseOrder,
    loanTotal, closedTotal,
    Table.total_erase, Table.valueAt_some order, isOpen, if_true]
  omega

end

section
variable [FloatOps] {now : BlockTimestamp} {π : Promise} {s s' : State}

theorem Effect.surplus (h : Effect now π s s') (hsafe : π.safe)
    (hst : π.restake → StakeInv s.staking) (hi : RexInv now s.pools s.rex) :
    rexSurplus s ≤ rexSurplus s' := by
  have hbal : ∀ p, s.pools.rexpool = some p → p.Balanced := fun p hp => hi.balanced hp
  cases h with
  | distribute h =>
    have hl := (updateRexPool_returned hi.ret hbal h).lendable hbal
    simp only [rexSurplus, rexLiabilities, State.coreBalance]
    omega
  | channel available h paid kept =>
    cases hp : s.pools.rexpool with
    | none => simp [rexAvailable, hp] at available
    | some p =>
      have hl := (addToRexReturnPool_returned hi.ret hp (hbal p hp) h).lendable hbal
      have hpaid := paid hsafe
      have hb := hpaid.dest
      rw [max_eq_right hpaid.positive.le] at hl
      simp only [rexSurplus, rexLiabilities, State.coreBalance]
      omega
  | marks pool nonneg =>
    simp only [rexSurplus, rexLiabilities, State.coreBalance, State.setPool, RexPools.pool, pool,
      Option.getD_some, RexPools.returnProceeds]
    omega
  | @channelBids p q r t pool available h after paid =>
    have hl := (addToRexReturnPool_returned hi.ret pool (hbal _ pool) h).lendable hbal
    have hb := paid.dest
    rw [max_eq_right paid.positive.le] at hl
    rw [RexPools.pool_some after] at hl
    simp only [rexSurplus, rexLiabilities, State.coreBalance, RexPools.returnProceeds] at hl ⊢
    rw [RexPools.pool_some (r := { r with rexpool := some { q with namebidProceeds := 0 } }) rfl]
    dsimp only
    omega
  | dropBids pool unavailable =>
    simp only [rexSurplus, rexLiabilities, State.coreBalance, State.setPool, RexPools.pool, pool,
      Option.getD_some, RexPools.returnProceeds]
    omega
  | closeLoan row pool refund moved => exact (surplus_closeLoan hi row pool refund).le
  | renewLoan row pool removed price payable gain h moved =>
    exact (surplus_renewLoan hi row pool removed h).le
  | openLoan fresh available pool positive balance price gain h paid moved =>
    have hl := addLoanToRexPool_lendable hi.ret pool (hbal _ pool) positive h
    have hp := RexPools.pool_some pool
    simp only [rexSurplus, rexLiabilities, State.coreBalance, State.withLoans, loanTotal_update,
      Table.total_insert_new _ _ fresh]
    rw [hp]
    omega
  | loanBalance row nonneg paid =>
    simp only [rexSurplus, rexLiabilities, State.coreBalance, State.withLoans, loanTotal_update,
      Table.total_insert_old _ _ row]
    omega
  | fillOrder order isOpen row pool fillable settled =>
    exact (surplus_fillOrder order isOpen pool).le
  | sell restake actor row pool positive matured fillable settled votes credit reserved =>
    exact (surplus_sell hi pool positive.le credit).le
  | collect restake actor votes credit => exact (surplus_collect hi credit).le
  | enqueue actor row noFilled positive matured => exact (surplus_enqueue noFilled).le
  | reshape row h others restake => exact le_refl _
  | cancel actor order isOpen => exact (surplus_cancel order isOpen).le
  | deposit paid credit other =>
    have hb := paid.dest
    simp only [rexSurplus, rexLiabilities, State.coreBalance, loanTotal]
    omega
  | withdraw paid debit other =>
    have hb := paid.source
    simp only [rexSurplus, rexLiabilities, State.coreBalance, loanTotal]
    omega
  | funds same =>
    simp only [rexSurplus, rexLiabilities, State.coreBalance, loanTotal]
    omega
  | dropBalance restake actor row empty => exact le_refl _
  | voting restake votes => exact le_refl _
  | election same votes => exact le_refl _
  | tokens rex kept =>
    have hb := rex hsafe
    simp only [rexSurplus, rexLiabilities, State.coreBalance]
    omega
  | @stake _ source _ _ _ _ _ h restake rex other =>
    have hunstake := fun hn hc => moveStake_unstake (hst restake) hn hc h
    obtain ⟨staking, resources, token, rfl, hpaid⟩ := moveStake_frame h
    have hb : s.token.balance rexAccount s.core.code ≤ token.balance rexAccount s.core.code := by
      rcases hpaid with rfl | ⟨amount, hpaid⟩
      · exact le_refl _
      · by_cases hsource : source = rexAccount
        · obtain ⟨hn, hc⟩ := rex hsafe hsource
          exact (congrArg (fun t : Token => t.balance rexAccount s.core.code) (hunstake hn hc)).ge
        · exact hpaid.le (Ne.symm hsource)
    simp only [rexSurplus, rexLiabilities, State.coreBalance]
    omega
  | refund row paid other =>
    have hb := paid.le (show rexAccount ≠ stakeAccount by decide)
    simp only [rexSurplus, rexLiabilities, State.coreBalance, State.eraseRefund]
    omega
  | market h =>
    obtain ⟨resources, powerup, rfl⟩ := h.frame
    exact le_refl _
  | ram trade weights => exact le_refl _
  | auctions names => exact le_refl _
  | close timestamp names =>
    rcases closeAuction_frame timestamp now s with ⟨auctions, h⟩ | ⟨auctions, p, bid, hp, h⟩
    · rw [h]
      exact le_refl _
    · rw [h]
      simp only [rexSurplus, rexLiabilities, State.coreBalance, RexPools.pool, hp, Option.getD_some,
        RexPools.returnProceeds]
      omega
  | produce => exact le_refl _
  | accounts weights ram => exact le_refl _

theorem Effects.surplus (h : Effects now π s s') (hsafe : π.safe)
    (hst : π.restake → StakeInv s.staking) (hi : RexInv now s.pools s.rex) :
    rexSurplus s ≤ rexSurplus s' := by
  induction h with
  | refl => exact le_refl _
  | tail hprior hstep ih =>
    refine le_trans ih (hstep.surplus hsafe (fun hre => ?_) (Effects.rexInv hprior hi))
    exact Effects.stakeInv hprior (hst hre)

omit [FloatOps] in
/-- A purchase adds its payment to the pool; a restarted pool forgets what was left in it. -/
lemma Bought.lendable_le {payment received : ℤ} {p p' : RexPool} (h : Bought payment p received p')
    (hl : 0 ≤ p.totalLendable) : p'.totalLendable ≤ p.totalLendable + payment := by
  cases h with
  | restart empty =>
    simp only [RexPool.restart]
    omega
  | grow rex lendable => exact le_refl _

omit [FloatOps] in
theorem Purchase.surplus (h : Purchase now π s s') (hi : RexInv now s.pools s.rex) :
    rexSurplus s ≤ rexSurplus s' := by
  obtain ⟨owner, payment, delta, mid, -, h0, hf, hpur⟩ := h.parts
  have hl := hi.pool.lendable_nonneg hi.lent_nonneg
  cases hf with
  | fund debit =>
    obtain ⟨received, p', stake, hb, rfl⟩ := purchase_ok hpur
    have hle : p'.totalLendable ≤ s.pools.pool.totalLendable + payment := hb.lendable_le hl
    simp only [rexSurplus, rexLiabilities, State.coreBalance, loanTotal, RexPools.returnProceeds]
    rw [RexPools.pool_some (r := { s.pools with rexpool := some p' }) rfl]
    omega
  | stake net cpu sum hu paid =>
    obtain ⟨staking, resources, rfl⟩ := unstakeBandwidth_frame hu
    obtain ⟨received, p', stake, hb, rfl⟩ := purchase_ok hpur
    have hle : p'.totalLendable ≤ s.pools.pool.totalLendable + payment := hb.lendable_le hl
    have hd := paid.dest
    simp only [rexSurplus, rexLiabilities, State.coreBalance, loanTotal,
      RexPools.returnProceeds] at hd ⊢
    rw [RexPools.pool_some (r := { s.pools with rexpool := some p' }) rfl]
    omega

theorem Decomposed.surplus (h : Decomposed now π s s') (hsafe : π.safe) (hst : StakeInv s.staking)
    (hi : RexInv now s.pools s.rex) : rexSurplus s ≤ rexSurplus s' := by
  obtain ⟨mid, hm, he⟩ := h
  rcases hm with rfl | hp
  · exact he.surplus hsafe (fun _ => hst) hi
  · exact le_trans (hp.surplus hi) (he.surplus hsafe (fun _ => hp.custody.2 hst) (hp.rexInv hi))

theorem Effect.core (h : Effect now π s s') : s'.core = s.core := by
  cases h with
  | stake h restake rex other =>
    obtain ⟨staking, resources, token, rfl, -⟩ := moveStake_frame h
    rfl
  | market h =>
    obtain ⟨resources, powerup, rfl⟩ := h.frame
    rfl
  | close timestamp names =>
    obtain ⟨auctions, pools, h⟩ := closeAuction_eq timestamp now s
    rw [h]
  | _ => rfl

theorem step.core {l : Label} (h : step now l s s') : s'.core = s.core := by
  obtain ⟨mid, hm, he⟩ := exec_decomposed h
  clear h
  have hmid : mid.core = s.core := by
    rcases hm with rfl | hp
    · rfl
    · obtain ⟨owner, payment, delta, t, -, -, hf, hpur⟩ := hp.parts
      obtain ⟨funds, staking, resources, token, rfl⟩ := hf.frame
      obtain ⟨received, p', stake, -, rfl⟩ := purchase_ok hpur
      rfl
  induction he with
  | refl => exact hmid
  | tail _ hstep ih => exact hstep.core.trans ih

omit [FloatOps] in
lemma Genesis.surplus (h : Genesis s) : 0 ≤ rexSurplus s := by
  have hs := h.solvent
  unfold rexSurplus rexLiabilities
  rw [h.rex, h.pools]
  simpa [fundTotal, loanTotal, closedTotal, RexPools.pool, emptyPool,
    RexPools.returnProceeds] using hs

structure SolventRun (core : Symbol) (t : BlockTimestamp) (s : State) : Prop where
  inv : RexInv t s.pools s.rex
  core : s.core = core
  stakes : StakeInv s.staking
  surplus : 0 ≤ rexSurplus s

lemma SolventRun.next {core : Symbol} {t t' : BlockTimestamp} {l : Label} (h : SolventRun core t s)
    (hle : t ≤ t') (hsafe : l.action.RexSafe core) (hs : step t' l s s') :
    SolventRun core t' s' := by
  have hinv := h.inv.later hle
  refine ⟨hs.rexInv hinv, hs.core.trans h.core, hs.stakeInv h.stakes, le_trans h.surplus ?_⟩
  exact (exec_decomposed hs).surplus (h.core ▸ hsafe) h.stakes hinv

/-- The tokens of `eosio.rex` cover all it owes after every run in which nobody spends them
in its name. -/
theorem rex_solvent {t₀ t : BlockTimestamp} {s₀ : State} {tr : List (BlockTimestamp × Label)}
    (h0 : Genesis s₀) (hsafe : ∀ x ∈ tr, x.2.action.RexSafe s₀.core)
    (h : TimedRun step t₀ s₀ tr t s) : rexLiabilities s ≤ s.coreBalance rexAccount := by
  have hrun : SolventRun s₀.core t s :=
    h.invariant (fun _ => SolventRun s₀.core) (fun l => l.action.RexSafe s₀.core)
      ⟨h0.rexInv t₀, rfl, h0.stakeInv, h0.surplus⟩ (fun hi hle ha hs => hi.next hle ha hs) hsafe
  have := hrun.surplus
  unfold rexSurplus at this
  omega

omit [FloatOps] in
theorem launch_solvent :
    rexLiabilities launchEnd = 1100000 ∧
    rexLiabilities launchEnd ≤ launchEnd.coreBalance rexAccount := by
  refine ⟨by decide +kernel, ?_⟩
  refine @rex_solvent launchFloats launchEnd launchTime _ launchState launchTrace
    launchState_genesis ?_
    (launched_run launchTrace_launches launchTrace_chain)
  simp [launchTrace, Action.RexSafe]

/-- `eosio.rex` pays for RAM with the deposit of a user. -/
def rexPaysTrace : List (BlockTimestamp × Label) :=
  [(launchTime, ⟨[alice], .deposit alice ⟨10000, tlos⟩⟩),
    (launchTime, ⟨[rexAccount], .buyram rexAccount alice ⟨5000, tlos⟩⟩)]

omit [FloatOps] in
/-- Without the restriction on who pays for RAM the deposits are not covered. -/
theorem rex_pays_insolvent :
    @Reachable launchFloats launchTime (launched rexPaysTrace) ∧
      ¬ rexLiabilities (launched rexPaysTrace) ≤
        (launched rexPaysTrace).coreBalance rexAccount := by
  refine ⟨?_, by decide +kernel⟩
  have hl : launches rexPaysTrace = true := by decide +kernel
  have h := launched_reachable hl (by decide)
  rw [show (rexPaysTrace.getLast?.map Prod.fst).getD launchTime = launchTime by decide] at h
  exact h

end
end TelosSystem
