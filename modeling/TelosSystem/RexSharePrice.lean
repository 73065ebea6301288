import TelosSystem.RexPurchase

/-! The price of REX. Purchases, sales and returns all round in favour of the pool, so that
the core tokens behind one REX never become fewer. -/
namespace TelosSystem
open Ledger

/-- No REX is issued and the tokens behind one REX do not become fewer. -/
structure PriceKept (p p' : RexPool) : Prop where
  rex : p'.totalRex ≤ p.totalRex
  price : p.totalLendable * p'.totalRex ≤ p'.totalLendable * p.totalRex

section
variable {now : BlockTimestamp} {p p' q : RexPool} {r r' : RexPools} {x : Rex}

lemma PriceKept.refl (p : RexPool) : PriceKept p p := ⟨le_refl _, le_refl _⟩

/-- Prices compose as long as REX is left in between. -/
lemma price_trans (h : p.totalLendable * q.totalRex ≤ q.totalLendable * p.totalRex)
    (h' : q.totalLendable * p'.totalRex ≤ p'.totalLendable * q.totalRex) (hp : 0 ≤ p.totalRex)
    (hq : 0 < q.totalRex) (hp' : 0 ≤ p'.totalRex) :
    p.totalLendable * p'.totalRex ≤ p'.totalLendable * p.totalRex := by
  refine le_of_mul_le_mul_right ?_ hq
  calc p.totalLendable * p'.totalRex * q.totalRex
      = p.totalLendable * q.totalRex * p'.totalRex := by ring
    _ ≤ q.totalLendable * p.totalRex * p'.totalRex := mul_le_mul_of_nonneg_right h hp'
    _ = q.totalLendable * p'.totalRex * p.totalRex := by ring
    _ ≤ p'.totalLendable * q.totalRex * p.totalRex := mul_le_mul_of_nonneg_right h' hp
    _ = p'.totalLendable * p.totalRex * q.totalRex := by ring

lemma PriceKept.trans (h : PriceKept p q) (h' : PriceKept q p') (hp : 0 ≤ p.totalRex)
    (hp' : 0 ≤ p'.totalRex) (hl : 0 ≤ p'.totalLendable) : PriceKept p p' := by
  have h1 := h.rex
  have h2 := h'.rex
  refine ⟨by omega, ?_⟩
  rcases eq_or_lt_of_le (le_trans hp' h2) with hz | hq
  · have hz' : p'.totalRex = 0 := by omega
    rw [hz', mul_zero]
    exact mul_nonneg hl hp
  · exact price_trans h.price h'.price hp hq hp'

lemma PriceKept.credit {c : ℤ} (hbal : p.Balanced) (hp : 0 ≤ p.totalRex) (hc : 0 ≤ c) :
    PriceKept p (p.credit c) := by
  refine ⟨le_refl _, ?_⟩
  unfold RexPool.Balanced at hbal
  have hl : (p.credit c).totalLendable = p.totalLendable + c := by
    simp only [RexPool.credit]
    omega
  rw [hl]
  exact mul_le_mul_of_nonneg_right (by omega) hp

/-- The proceeds of a sale are rounded down. -/
lemma PriceKept.sell {rex : ℤ} (hp : 0 < p.totalRex) (h0 : 0 ≤ rex) :
    PriceKept p (p.sell rex (p.valueOf rex)) := by
  have hfloor : p.totalRex * p.valueOf rex ≤ rex * p.totalLendable := Int.mul_ediv_self_le hp.ne'
  refine ⟨by simp only [RexPool.sell]; omega, ?_⟩
  simp only [RexPool.sell]
  linarith

/-- So is the REX a payment buys. -/
lemma Bought.price {payment received : ℤ} (h : Bought payment p received p') (hp : 0 < p.totalRex) :
    p.totalLendable * p'.totalRex ≤ p'.totalLendable * p.totalRex := by
  cases h with
  | restart empty => exact absurd hp empty
  | grow rex lendable => exact Int.mul_ediv_self_le lendable.ne'

/-- A purchase resold at once returns at most the payment. -/
lemma Bought.resale_le {payment received : ℤ} (h : Bought payment p received p')
    (h0 : 0 < payment) : p'.valueOf received ≤ payment := by
  unfold RexPool.valueOf
  cases h with
  | restart empty =>
    simp only [RexPool.restart, rexRatio]
    rw [Int.mul_ediv_cancel_left _ (by omega)]
  | grow rex lendable =>
    have hgrow := Bought.growth lendable rex h0
    have hfloor : p.totalLendable * ((p.totalLendable + payment) * p.totalRex / p.totalLendable) ≤
        (p.totalLendable + payment) * p.totalRex := Int.mul_ediv_self_le lendable.ne'
    dsimp only
    generalize (p.totalLendable + payment) * p.totalRex / p.totalLendable = r1 at hgrow hfloor ⊢
    apply Int.ediv_le_of_le_mul (by omega)
    linarith

lemma RexInv.totalRex_nonneg (h : RexInv now r x) : 0 ≤ r.pool.totalRex :=
  h.pool.rex ▸ rexTotal_nonneg h

lemma RexInv.lendable_nonneg (h : RexInv now r x) : 0 ≤ r.pool.totalLendable :=
  h.pool.lendable_nonneg h.lent_nonneg

lemma Returned.priceKept {amount : ℤ} (h : Returned now amount r r') (hi : RexInv now r x) :
    PriceKept r.pool r'.pool := by
  obtain ⟨c, hc, hpool, -⟩ := h.moved
  cases hp : r.rexpool with
  | none =>
    rw [hp, Option.map_none] at hpool
    have he : r'.pool = r.pool := by simp [RexPools.pool, hp, hpool]
    rw [he]
    exact PriceKept.refl _
  | some p =>
    have hr := hi.totalRex_nonneg
    rw [hp, Option.map_some] at hpool
    rw [RexPools.pool_some hp] at hr ⊢
    rw [RexPools.pool_some hpool]
    exact PriceKept.credit (hi.balanced hp) hr hc

lemma addLoanToRexPool_priceKept {payment rented : ℤ} {new : Bool} (hi : RexInv now r x)
    (hp : r.rexpool = some p) (ha : addLoanToRexPool now payment rented new r = .ok r') :
    PriceKept p r'.pool := by
  obtain ⟨-, c, hc, hpool, -⟩ := addLoanToRexPool_returned hi.ret hp (hi.balanced hp) ha
  have hr := hi.totalRex_nonneg
  rw [RexPools.pool_some hp] at hr
  rw [RexPools.pool_some hpool]
  have hk := PriceKept.credit (hi.balanced hp) hr hc
  exact ⟨hk.rex, hk.price⟩

lemma removeLoan_priceKept (loan : RexLoan) (hbal : p.Balanced) :
    PriceKept p (removeLoanFromRexPool loan p) := by
  unfold RexPool.Balanced at hbal
  have hl : (removeLoanFromRexPool loan p).totalLendable = p.totalLendable := by
    simp only [removeLoanFromRexPool]
    omega
  exact ⟨le_refl _, by rw [hl]; exact le_refl _⟩

lemma RexInv.renewal_priceKept {k : LoanKind} {num : ℕ} {loan : RexLoan} {rented : ℤ}
    (hi : RexInv now r x) (hp : r.rexpool = some p) (hl : (x.loans k).lookup num = some loan)
    (hq : q = removeLoanFromRexPool loan p)
    (hprice : rented = getBancorOutput q.totalRent q.totalUnlent loan.payment)
    (hpayable : loan.payment ≤ loan.balance) (hgain : loan.payment < rented)
    (ha : addLoanToRexPool now loan.payment rented false { r with rexpool := some q } = .ok r') :
    PriceKept p r'.pool := by
  have hnew := hi.renewLoan hp hl hq hprice hpayable hgain ha
  have hrem := hi.removed hp hl x.funds
  have hclosed := removeLoan_priceKept loan (hi.balanced hp)
  have hr := hi.totalRex_nonneg
  rw [RexPools.pool_some hp] at hr
  rw [← hq] at hrem hclosed
  exact hclosed.trans (addLoanToRexPool_priceKept hrem rfl ha) hr hnew.totalRex_nonneg
    hnew.lendable_nonneg

/-- A sale of `rex` at the price of the pool. -/
lemma RexInv.sale_priceKept {rex : ℤ} (hi : RexInv now r x) (hp : r.rexpool = some p) (h0 : 0 ≤ rex)
    (hf : Fillable p rex) : PriceKept r.pool (p.sell rex (p.valueOf rex)) := by
  have hr := hi.totalRex_nonneg
  have hz := hf.nonzero
  rw [RexPools.pool_some hp] at hr ⊢
  exact PriceKept.sell (by omega) h0

end

section
variable [FloatOps] {now : BlockTimestamp} {π : Promise} {s s' : State}

theorem Effect.priceKept (h : Effect now π s s') (hi : RexInv now s.pools s.rex) :
    PriceKept s.pools.pool s'.pools.pool := by
  have hbal : ∀ p, s.pools.rexpool = some p → p.Balanced := fun p hp => hi.balanced hp
  cases h with
  | distribute h => exact (updateRexPool_returned hi.ret hbal h).priceKept hi
  | channel available h paid kept =>
    cases hp : s.pools.rexpool with
    | none => simp [rexAvailable, hp] at available
    | some p => exact (addToRexReturnPool_returned hi.ret hp (hbal p hp) h).priceKept hi
  | marks pool nonneg =>
    rw [RexPools.pool_some pool]
    exact ⟨le_refl _, le_refl _⟩
  | channelBids pool available h after paid =>
    have hk := (addToRexReturnPool_returned hi.ret pool (hbal _ pool) h).priceKept hi
    rw [RexPools.pool_some after] at hk
    exact ⟨hk.rex, hk.price⟩
  | dropBids pool unavailable =>
    rw [RexPools.pool_some pool]
    exact ⟨le_refl _, le_refl _⟩
  | closeLoan row pool refund moved =>
    rw [RexPools.pool_some pool]
    exact removeLoan_priceKept _ (hbal _ pool)
  | renewLoan row pool removed price payable gain h moved =>
    rw [RexPools.pool_some pool]
    exact hi.renewal_priceKept pool row removed price payable gain h
  | openLoan fresh available pool positive balance price gain h paid moved =>
    rw [RexPools.pool_some pool]
    exact addLoanToRexPool_priceKept hi pool h
  | fillOrder order isOpen row pool fillable settled =>
    have hreq := (hi.openRequest_bounds row).1
    rw [openRequest_some order isOpen] at hreq
    exact hi.sale_priceKept pool hreq fillable
  | sell restake actor row pool positive matured fillable settled votes credit reserved =>
    exact hi.sale_priceKept pool positive.le fillable
  | stake h restake rex other =>
    obtain ⟨staking, resources, token, rfl, -⟩ := moveStake_frame h
    exact PriceKept.refl _
  | market h =>
    obtain ⟨resources, powerup, rfl⟩ := h.frame
    exact PriceKept.refl _
  | close timestamp names =>
    rcases closeAuction_frame timestamp now s with ⟨auctions, h⟩ | ⟨auctions, p, bid, hp, h⟩
    · rw [h]
      exact PriceKept.refl _
    · rw [h, RexPools.pool_some hp]
      exact ⟨le_refl _, le_refl _⟩
  | _ => exact PriceKept.refl _

theorem Effects.priceKept (h : Effects now π s s') (hi : RexInv now s.pools s.rex) :
    PriceKept s.pools.pool s'.pools.pool := by
  induction h with
  | refl => exact PriceKept.refl _
  | tail hprior hstep ih =>
    have hmid := Effects.rexInv hprior hi
    have hlast := hstep.rexInv hmid
    exact ih.trans (hstep.priceKept hmid) hi.totalRex_nonneg hlast.totalRex_nonneg
      hlast.lendable_nonneg

omit [FloatOps] in
theorem Purchase.price (h : Purchase now π s s') (hr : 0 < s.pools.pool.totalRex) :
    s.pools.pool.totalLendable * s'.pools.pool.totalRex ≤ s'.pools.pool.totalLendable *
      s.pools.pool.totalRex := by
  obtain ⟨owner, payment, delta, mid, -, h0, hf, hpur⟩ := h.parts
  obtain ⟨funds, staking, resources, token, rfl⟩ := hf.frame
  obtain ⟨received, p', stake, hb, rfl⟩ := purchase_ok hpur
  rw [RexPools.pool_some (r := { s.pools with rexpool := some p' }) rfl]
  exact hb.price hr

theorem Decomposed.price (h : Decomposed now π s s') (hi : RexInv now s.pools s.rex)
    (hr : 0 < s.pools.pool.totalRex) (hr' : 0 < s'.pools.pool.totalRex) :
    s.pools.pool.totalLendable * s'.pools.pool.totalRex ≤ s'.pools.pool.totalLendable *
      s.pools.pool.totalRex := by
  obtain ⟨mid, hm, he⟩ := h
  rcases hm with rfl | hp
  · exact (he.priceKept hi).price
  · have hk := he.priceKept (hp.rexInv hi)
    exact price_trans (hp.price hr) hk.price hr.le (lt_of_lt_of_le hr' hk.rex) hr'.le

end

/-- What actions of others keep for a holder: outside an open order the REX stays the same,
in the same buckets, and an open order is either still there or filled. -/
structure HoldingKept (owner : Name) (x x' : Rex) : Prop where
  kept : (rowOf x' owner).rexBalance - openRequest owner x'.orders =
    (rowOf x owner).rexBalance - openRequest owner x.orders
  request : openRequest owner x'.orders = openRequest owner x.orders ∨
    openRequest owner x'.orders = 0
  buckets : (rowOf x' owner).rexMaturities = (rowOf x owner).rexMaturities

/-- What actions of others do to the order of a holder: they leave it, or fill it for at least
what it was worth. -/
structure OrderKept (owner : Name) (s s' : State) : Prop where
  waiting : openRequest owner s.rex.orders = 0 →
    closedProceeds owner s'.rex.orders = closedProceeds owner s.rex.orders
  filled : 0 < openRequest owner s.rex.orders → openRequest owner s'.rex.orders = 0 →
    s.pools.pool.valueOf (openRequest owner s.rex.orders) ≤ closedProceeds owner s'.rex.orders

section
variable {owner a : Name} {x y z : Rex} {now : BlockTimestamp} {r : RexPools}

lemma HoldingKept.refl (owner : Name) (x : Rex) : HoldingKept owner x x := ⟨rfl, Or.inl rfl, rfl⟩

lemma HoldingKept.trans (h : HoldingKept owner x y) (h' : HoldingKept owner y z) :
    HoldingKept owner x z := by
  refine ⟨h'.kept.trans h.kept, ?_, h'.buckets.trans h.buckets⟩
  rcases h'.request with he | hz
  · rw [he]
    exact h.request
  · exact Or.inr hz

lemma HoldingKept.of_same (hb : rowOf y owner = rowOf x owner)
    (ho : openRequest owner y.orders = openRequest owner x.orders) : HoldingKept owner x y :=
  ⟨by rw [hb, ho], Or.inl ho, by rw [hb]⟩

lemma openRequest_congr {t t' : Table Name RexOrder} (h : t'.lookup owner = t.lookup owner) :
    openRequest owner t' = openRequest owner t := by
  unfold openRequest
  rw [h]

lemma closedProceeds_congr {t t' : Table Name RexOrder} (h : t'.lookup owner = t.lookup owner) :
    closedProceeds owner t' = closedProceeds owner t := by
  unfold closedProceeds
  rw [h]

lemma collectOrder_other (ha : owner ≠ a) (t : Table Name RexOrder) :
    (collectOrder a t).lookup owner = t.lookup owner := by
  unfold collectOrder
  split
  · split_ifs
    · rfl
    · exact AList.lookup_erase_ne ha
  · rfl

lemma openRequest_collect (a owner : Name) (t : Table Name RexOrder) :
    openRequest owner (collectOrder a t) = openRequest owner t := by
  by_cases ha : owner = a
  · subst ha
    exact openRequest_collectOrder owner t
  · exact openRequest_congr (collectOrder_other ha t)

lemma rowOf_congr (h : y.balances.lookup owner = x.balances.lookup owner) :
    rowOf y owner = rowOf x owner := by
  unfold rowOf
  rw [h]

lemma rowOf_some {rb : RexBalance} (h : x.balances.lookup owner = some rb) :
    rowOf x owner = rb := by
  simp [rowOf, h]

lemma RexInv.openRequest_nonneg (h : RexInv now r x) (owner : Name) :
    0 ≤ openRequest owner x.orders := by
  unfold openRequest
  cases ho : x.orders.lookup owner with
  | none => exact le_refl _
  | some o =>
    have hi := h.orders owner o ho
    unfold OrderInv at hi
    dsimp only
    split_ifs at hi ⊢
    · exact hi.1.le
    · exact le_refl _

lemma HoldingKept.balance_le (h : HoldingKept owner x y) (hi : RexInv now r x) :
    (rowOf y owner).rexBalance ≤ (rowOf x owner).rexBalance := by
  have h0 := hi.openRequest_nonneg owner
  have hk := h.kept
  rcases h.request with he | hz <;> omega

/-- An open order is for REX that its owner holds. -/
lemma RexInv.row_pos_of_openRequest (h : RexInv now r x) (hopen : 0 < openRequest owner x.orders) :
    0 < (rowOf x owner).rexBalance := by
  unfold openRequest at hopen
  cases ho : x.orders.lookup owner with
  | none => simp [ho] at hopen
  | some o =>
    have hi := h.orders owner o ho
    simp only [ho] at hopen
    split_ifs at hopen with hisOpen
    · rw [OrderInv, if_pos hisOpen] at hi
      obtain ⟨-, rb, hl, hle⟩ := hi
      have hmatured := (h.rows owner rb hl).matured_le.2
      rw [rowOf_some hl]
      omega
    · omega

/-- A holder keeps the pool alive. -/
lemma RexInv.totalRex_pos_of_row (h : RexInv now r x) (hb : 0 < (rowOf x owner).rexBalance) :
    0 < r.pool.totalRex := by
  unfold rowOf at hb
  cases hl : x.balances.lookup owner with
  | none => simp [hl] at hb
  | some rb =>
    rw [hl, Option.getD_some] at hb
    have := h.balance_le hl
    omega

end

lemma valueOf_mono {p p' : RexPool} {n : ℤ} (hn : 0 ≤ n) (hp : 0 < p.totalRex)
    (hp' : 0 < p'.totalRex) (h : p.totalLendable * p'.totalRex ≤ p'.totalLendable * p.totalRex) :
    p.valueOf n ≤ p'.valueOf n := by
  have hfloor : p.totalRex * p.valueOf n ≤ n * p.totalLendable := Int.mul_ediv_self_le hp.ne'
  apply Int.le_ediv_of_mul_le hp'
  refine le_of_mul_le_mul_right ?_ hp
  calc p.valueOf n * p'.totalRex * p.totalRex
      = p.totalRex * p.valueOf n * p'.totalRex := by ring
    _ ≤ n * p.totalLendable * p'.totalRex := mul_le_mul_of_nonneg_right hfloor hp'.le
    _ = n * (p.totalLendable * p'.totalRex) := by ring
    _ ≤ n * (p'.totalLendable * p.totalRex) := mul_le_mul_of_nonneg_left h hn
    _ = n * p'.totalLendable * p.totalRex := by ring

section
variable {now t : BlockTimestamp} {s s₁ s₂ : State} {owner : Name}

lemma OrderKept.of_same (ho : s₁.rex.orders.lookup owner = s.rex.orders.lookup owner) :
    OrderKept owner s s₁ := by
  refine ⟨fun _ => closedProceeds_congr ho, fun hpos hz => ?_⟩
  rw [openRequest_congr ho] at hz
  omega

/-- The order is filled in one of the two parts, at the price found there. -/
lemma OrderKept.trans (h : OrderKept owner s s₁) (h' : OrderKept owner s₁ s₂)
    (hk : HoldingKept owner s.rex s₁.rex) (hi : RexInv t s.pools s.rex)
    (hi₁ : RexInv now s₁.pools s₁.rex)
    (hprice : 0 < openRequest owner s₁.rex.orders → s.pools.pool.totalLendable *
      s₁.pools.pool.totalRex ≤ s₁.pools.pool.totalLendable * s.pools.pool.totalRex) :
    OrderKept owner s s₂ := by
  refine ⟨fun hz => ?_, fun hpos hz => ?_⟩
  · have hz₁ : openRequest owner s₁.rex.orders = 0 := by
      rcases hk.request with he | he
      · rw [he, hz]
      · exact he
    rw [h'.waiting hz₁, h.waiting hz]
  · rcases eq_or_lt_of_le (hi₁.openRequest_nonneg owner) with hz₁ | hpos₁
    · rw [h'.waiting hz₁.symm]
      exact h.filled hpos hz₁.symm
    · have hsame : openRequest owner s₁.rex.orders = openRequest owner s.rex.orders :=
        hk.request.resolve_right hpos₁.ne'
      have hvalue := valueOf_mono hpos.le (hi.totalRex_pos_of_row (hi.row_pos_of_openRequest hpos))
        (hi₁.totalRex_pos_of_row (hi₁.row_pos_of_openRequest hpos₁)) (hprice hpos₁)
      have hfilled := h'.filled hpos₁ hz
      rw [hsame] at hfilled
      exact le_trans hvalue hfilled

end

section
variable [FloatOps] {now : BlockTimestamp} {π : Promise} {s s' : State} {owner : Name}

theorem Effect.holdingKept (h : Effect now π s s') (hi : RexInv now s.pools s.rex)
    (hother : ¬ π.actor owner) : HoldingKept owner s.rex s'.rex := by
  have hne : ∀ {a}, π.actor a → owner ≠ a := fun ha he => hother (he ▸ ha)
  cases h with
  | @fillOrder a o rb p stake order isOpen row pool fillable settled =>
    by_cases ha : owner = a
    · subst ha
      have hrow : rowOf (s.afterSale owner (p.sell o.rexRequested (p.valueOf o.rexRequested))
          (rb.sell o.rexRequested stake) o.rexRequested s.rex.funds
          (s.rex.orders.insert owner { o with
            proceeds := p.valueOf o.rexRequested, stakeChange := stake - rb.voteStake, isOpen :=
              false }) s.voting).rex owner =
          rb.sell o.rexRequested stake := rowOf_some (AList.lookup_insert _)
      have hz : openRequest owner (s.rex.orders.insert owner { o with
          proceeds := p.valueOf o.rexRequested, stakeChange := stake - rb.voteStake, isOpen :=
            false }) = 0 := by
        simp [openRequest]
      refine ⟨?_, Or.inr hz, by rw [hrow, rowOf_some row]; rfl⟩
      rw [hrow, rowOf_some row, openRequest_some order isOpen]
      simp only [State.afterSale, hz, RexBalance.sell]
      omega
    · exact HoldingKept.of_same (rowOf_congr (AList.lookup_insert_ne ha))
        (openRequest_congr (AList.lookup_insert_ne ha))
  | sell restake actor row pool positive matured fillable settled votes credit reserved =>
    exact HoldingKept.of_same (rowOf_congr (AList.lookup_insert_ne (hne actor)))
      (openRequest_collect _ _ _)
  | collect restake actor votes credit => exact HoldingKept.of_same rfl (openRequest_collect _ _ _)
  | enqueue actor row noFilled positive matured =>
    exact HoldingKept.of_same rfl (openRequest_congr (AList.lookup_insert_ne (hne actor)))
  | @reshape a rb rb' row h others restake =>
    obtain ⟨h0, hle⟩ := hi.openRequest_bounds row
    have hr := h (hi.rows _ _ row) h0 hle
    by_cases ha : owner = a
    · subst ha
      have hrow : rowOf (s.setBalance owner rb').rex owner = rb' :=
        rowOf_some (AList.lookup_insert _)
      exact ⟨by rw [hrow, rowOf_some row, hr.balance]; rfl, Or.inl rfl, by
        rw [hrow, rowOf_some row]
        exact others hother⟩
    · exact HoldingKept.of_same (rowOf_congr (AList.lookup_insert_ne ha)) rfl
  | cancel actor order isOpen =>
    exact HoldingKept.of_same rfl (openRequest_congr (AList.lookup_erase_ne (hne actor)))
  | dropBalance restake actor row empty =>
    exact HoldingKept.of_same (rowOf_congr (AList.lookup_erase_ne (hne actor))) rfl
  | stake h restake rex other =>
    obtain ⟨staking, resources, token, rfl, -⟩ := moveStake_frame h
    exact HoldingKept.refl _ _
  | market h =>
    obtain ⟨resources, powerup, rfl⟩ := h.frame
    exact HoldingKept.refl _ _
  | close timestamp names =>
    obtain ⟨auctions, pools, h⟩ := closeAuction_eq timestamp now s
    rw [h]
    exact HoldingKept.refl _ _
  | _ => exact HoldingKept.of_same rfl rfl

theorem Effects.holdingKept (h : Effects now π s s') (hi : RexInv now s.pools s.rex)
    (hother : ¬ π.actor owner) : HoldingKept owner s.rex s'.rex := by
  induction h with
  | refl => exact HoldingKept.refl _ _
  | tail hprior hstep ih => exact ih.trans (hstep.holdingKept (Effects.rexInv hprior hi) hother)

theorem Decomposed.holdingKept (h : Decomposed now π s s') (hi : RexInv now s.pools s.rex)
    (hother : ¬ π.actor owner) : HoldingKept owner s.rex s'.rex := by
  obtain ⟨mid, hm, he⟩ := h
  rcases hm with rfl | hp
  · exact he.holdingKept hi hother
  · refine HoldingKept.trans ?_ (he.holdingKept (hp.rexInv hi) hother)
    obtain ⟨a, payment, delta, mid', hact, -, hf, hpur⟩ := hp.parts
    obtain ⟨funds, staking, resources, token, rfl⟩ := hf.frame
    obtain ⟨received, p', stake, -, rfl⟩ := purchase_ok hpur
    have ha : owner ≠ a := fun he => hother (he ▸ hact)
    exact HoldingKept.of_same (rowOf_congr (AList.lookup_insert_ne ha)) rfl

theorem Effect.orderKept (h : Effect now π s s') (hi : RexInv now s.pools s.rex)
    (hother : ¬ π.actor owner) : OrderKept owner s s' := by
  have hne : ∀ {a}, π.actor a → owner ≠ a := fun ha he => hother (he ▸ ha)
  cases h with
  | @fillOrder a o rb p stake order isOpen row pool fillable settled =>
    by_cases ha : owner = a
    · subst ha
      have hreq : openRequest owner s.rex.orders = o.rexRequested := openRequest_some order isOpen
      have hpos : 0 < o.rexRequested := by
        have ho := hi.orders owner o order
        rw [OrderInv, if_pos isOpen] at ho
        exact ho.1
      refine ⟨fun hz => by omega, fun _ _ => ?_⟩
      rw [hreq, RexPools.pool_some pool]
      simp [State.afterSale, closedProceeds]
    · exact OrderKept.of_same (AList.lookup_insert_ne ha)
  | sell restake actor row pool positive matured fillable settled votes credit reserved =>
    exact OrderKept.of_same (collectOrder_other (hne actor) _)
  | collect restake actor votes credit => exact OrderKept.of_same (collectOrder_other (hne actor) _)
  | enqueue actor row noFilled positive matured =>
    exact OrderKept.of_same (AList.lookup_insert_ne (hne actor))
  | cancel actor order isOpen => exact OrderKept.of_same (AList.lookup_erase_ne (hne actor))
  | stake h restake rex other =>
    obtain ⟨staking, resources, token, rfl, -⟩ := moveStake_frame h
    exact OrderKept.of_same rfl
  | market h =>
    obtain ⟨resources, powerup, rfl⟩ := h.frame
    exact OrderKept.of_same rfl
  | close timestamp names =>
    obtain ⟨auctions, pools, h⟩ := closeAuction_eq timestamp now s
    rw [h]
    exact OrderKept.of_same rfl
  | _ => exact OrderKept.of_same rfl

theorem Effects.orderKept (h : Effects now π s s') (hi : RexInv now s.pools s.rex)
    (hother : ¬ π.actor owner) : OrderKept owner s s' := by
  induction h with
  | refl => exact OrderKept.of_same rfl
  | tail hprior hstep ih =>
    have hmid := Effects.rexInv hprior hi
    exact ih.trans (hstep.orderKept hmid hother) (Effects.holdingKept hprior hi hother) hi hmid
      fun _ => (Effects.priceKept hprior hi).price

theorem Decomposed.orderKept (h : Decomposed now π s s') (hi : RexInv now s.pools s.rex)
    (hother : ¬ π.actor owner) : OrderKept owner s s' := by
  obtain ⟨mid, hm, he⟩ := h
  rcases hm with rfl | hp
  · exact he.orderKept hi hother
  · have hmid := hp.rexInv hi
    have hbought : OrderKept owner s mid ∧ HoldingKept owner s.rex mid.rex := by
      obtain ⟨a, payment, delta, mid', hact, -, hf, hpur⟩ := hp.parts
      obtain ⟨funds, staking, resources, token, rfl⟩ := hf.frame
      obtain ⟨received, p', stake, -, rfl⟩ := purchase_ok hpur
      have ha : owner ≠ a := fun he => hother (he ▸ hact)
      exact ⟨OrderKept.of_same rfl,
        HoldingKept.of_same (rowOf_congr (AList.lookup_insert_ne ha)) rfl⟩
    refine hbought.1.trans (he.orderKept hmid hother) hbought.2 hi hmid fun hopen => hp.price ?_
    have hsame : openRequest owner mid.rex.orders = openRequest owner s.rex.orders :=
      hbought.2.request.resolve_right hopen.ne'
    exact hi.totalRex_pos_of_row (hi.row_pos_of_openRequest (hsame ▸ hopen))

structure HolderRun (owner : Name) (s : State) (t' : BlockTimestamp) (s' : State) : Prop where
  inv : RexInv t' s'.pools s'.rex
  kept : HoldingKept owner s.rex s'.rex
  order : OrderKept owner s s'
  price : 0 < (rowOf s'.rex owner).rexBalance →
    s.pools.pool.totalLendable * s'.pools.pool.totalRex ≤ s'.pools.pool.totalLendable *
    s.pools.pool.totalRex

lemma HolderRun.next {t t' t'' : BlockTimestamp} {s'' : State} {l : Label}
    (hi : RexInv t s.pools s.rex) (h : HolderRun owner s t' s') (hle : t' ≤ t'')
    (hother : owner ∉ l.auth) (hs : step t'' l s' s'') : HolderRun owner s t'' s'' := by
  have hinv := h.inv.later hle
  have hd := exec_decomposed hs
  have hk : HoldingKept owner s'.rex s''.rex := hd.holdingKept hinv hother
  have hinv' := hs.rexInv hinv
  have ho : OrderKept owner s s'' := h.order.trans (hd.orderKept hinv hother) h.kept hi h.inv
    fun hopen => h.price (h.inv.row_pos_of_openRequest hopen)
  refine ⟨hinv', h.kept.trans hk, ho, fun hpos => ?_⟩
  have hmid := lt_of_lt_of_le hpos (hk.balance_le hinv)
  have hr' := h.inv.totalRex_pos_of_row hmid
  have hr'' := hinv'.totalRex_pos_of_row hpos
  exact price_trans (h.price hmid) (hd.price hinv hr' hr'') hi.totalRex_nonneg hr' hr''.le

/-- The price of REX never falls in a step that leaves REX in the pool; runs of others take
nothing from a holder beyond filling its own order, for at least what it was worth; and REX
bought and sold again at once returns at most the payment. -/
theorem rex_price_never_falls {t : BlockTimestamp} (h : Reachable t s) :
    (∀ t' l s', t ≤ t' → step t' l s s' → 0 < s.pools.pool.totalRex → 0 < s'.pools.pool.totalRex →
      s.pools.pool.totalLendable * s'.pools.pool.totalRex ≤
        s'.pools.pool.totalLendable * s.pools.pool.totalRex) ∧
    (∀ owner tr t' s', TimedRun step t s tr t' s' → (∀ x ∈ tr, owner ∉ x.2.auth) →
      HoldingKept owner s.rex s'.rex ∧ OrderKept owner s s' ∧ (0 < (rowOf s'.rex owner).rexBalance →
        ∀ n, 0 ≤ n → s.pools.pool.valueOf n ≤ s'.pools.pool.valueOf n)) ∧
    ∀ payment received owner rb outcome s₁ s₂, 0 < payment →
      addToRexPool payment s = .ok (received, s₁) →
      fillRexOrder owner rb received s₁ = .ok (outcome, s₂) → outcome.proceeds ≤ payment := by
  have hi := h.rexInv
  refine ⟨fun t' l s' hle hs hr hr' => ?_, fun owner tr t' s' hrun hother => ?_, ?_⟩
  · exact (exec_decomposed hs).price (hi.later hle) hr hr'
  · have hh : HolderRun owner s t' s' :=
      hrun.invariant (fun _ => HolderRun owner s) (fun l => owner ∉ l.auth)
        ⟨hi, HoldingKept.refl _ _, OrderKept.of_same rfl, fun _ => le_refl _⟩
        (fun hp hle ho hs => hp.next hi hle ho hs) hother
    refine ⟨hh.kept, hh.order, fun hpos n hn => ?_⟩
    have hstart := lt_of_lt_of_le hpos (hh.kept.balance_le hi)
    exact valueOf_mono hn (hi.totalRex_pos_of_row hstart)
      (hh.inv.totalRex_pos_of_row hpos) (hh.price hpos)
  · intro payment received owner rb outcome s₁ s₂ h0 hadd hfill
    obtain ⟨p', rfl, hb⟩ := addToRexPool_ok hadd
    simp only [fillRexOrder, bind_ok, require_ok, check_ok, exists_const] at hfill
    obtain ⟨p, hp, -, hfill⟩ := hfill
    cases hp
    split_ifs at hfill
    · rw [pure_ok] at hfill
      cases hfill
      exact hb.resale_le h0
    · rw [pure_ok] at hfill
      cases hfill
      exact h0.le

omit [FloatOps] in
theorem launch_price_kept :
    let s' := launched (launchTrace ++ [(launchTime.after 600, ⟨[bob], .buyrex bob ⟨50000, tlos⟩⟩)])
    0 < launchEnd.pools.pool.totalRex ∧
      launchEnd.pools.pool.totalLendable * s'.pools.pool.totalRex ≤
        s'.pools.pool.totalLendable * launchEnd.pools.pool.totalRex := by
  refine ⟨by decide +kernel, ?_⟩
  refine (@rex_price_never_falls launchFloats launchEnd _ launchEnd_reachable).1
    (launchTime.after 600)
    ⟨[bob], .buyrex bob ⟨50000, tlos⟩⟩ _ (le_refl _) ?_ (by decide +kernel) (by decide +kernel)
  exact launched_step (by decide +kernel)

end
end TelosSystem
