import TelosSystem.RexPreservation

/-! A REX purchase keeps the invariant too, and with it every reachable state has it. -/
namespace TelosSystem
open Ledger

/-- What a payment does to the pool and how much REX it buys: an empty pool starts again at
the fixed ratio, and any other pool grows at its current price. -/
inductive Bought (payment : ℤ) (p : RexPool) : ℤ → RexPool → Prop
  | restart (empty : ¬ 0 < p.totalRex) : Bought payment p (payment * rexRatio) (p.restart payment)
  | grow (rex : 0 < p.totalRex) (lendable : 0 < p.totalLendable) :
      Bought payment p ((p.totalLendable + payment) * p.totalRex / p.totalLendable - p.totalRex)
        { p with
          totalLendable := p.totalLendable + payment
          totalRex := (p.totalLendable + payment) * p.totalRex / p.totalLendable
          totalUnlent := p.totalLendable + payment - p.totalLent }

/-- The row of an owner, empty when there is none. -/
def rowOf (x : Rex) (owner : Name) : RexBalance :=
  (x.balances.lookup owner).getD { voteStake := 0, rexBalance := 0 }

section
variable {now : BlockTimestamp} {owner : Name} {payment received : ℤ} {p p' : RexPool}
    {x : Rex} {r : RexPools}

lemma addToRexPool_ok {s s' : State} (h : addToRexPool payment s = .ok (received, s')) :
    ∃ p', s' = s.setPool p' ∧ Bought payment s.pools.pool received p' := by
  unfold addToRexPool at h
  cases hp : s.pools.rexpool with
  | none =>
    rw [hp] at h
    cases h
    refine ⟨_, rfl, ?_⟩
    have he : s.pools.pool = emptyPool := by simp [RexPools.pool, hp]
    rw [he]
    exact Bought.restart (by decide)
  | some p =>
    rw [hp] at h
    rw [RexPools.pool_some hp]
    dsimp only at h
    split_ifs at h with hz
    · simp only [bind_ok, check_ok, exists_const, pure_ok, Prod.mk.injEq] at h
      obtain ⟨hl, -, rfl, rfl⟩ := h
      exact ⟨_, rfl, Bought.grow hz hl⟩
    · cases h
      exact ⟨_, rfl, Bought.restart hz⟩

lemma Bought.growth (hl : 0 < p.totalLendable) (hr : 0 < p.totalRex) (h0 : 0 < payment) :
    p.totalRex ≤ (p.totalLendable + payment) * p.totalRex / p.totalLendable := by
  apply Int.le_ediv_of_mul_le hl
  nlinarith

lemma Bought.received_nonneg (h : Bought payment p received p') (h0 : 0 < payment) :
    0 ≤ received := by
  cases h with
  | restart hz =>
    unfold rexRatio
    omega
  | grow hr hl =>
    have := Bought.growth hl hr h0
    omega

lemma PoolInv.bought (h : PoolInv p x) (hb : Bought payment p received p') (h0 : 0 < payment)
    (hrex : 0 ≤ p.totalRex) {x' : Rex} (hs : stakedTotal x' = stakedTotal x)
    (hr : rexTotal x' = rexTotal x + received) : PoolInv p' x' := by
  have hl := h.lent
  have hrx := h.rex
  cases hb with
  | restart hz =>
    have hz' : p.totalRex = 0 := by omega
    have hlent := h.empty hz'
    refine ⟨?_, ?_, ?_, ?_, ?_, fun _ => rfl⟩ <;>
    · simp only [RexPool.Balanced, RexPool.restart, initTotalRent]
      omega
  | grow hpos hlend =>
    have hgrow := Bought.growth hlend hpos h0
    have hbal : p.totalLendable = p.totalUnlent + p.totalLent := h.balanced
    have hu := h.unlent_nonneg
    refine ⟨?_, ?_, h.rent_nonneg, hl.trans hs.symm, ?_, fun hz => ?_⟩
    · simp only [RexPool.Balanced]
      omega
    · dsimp only
      omega
    · dsimp only
      omega
    · dsimp only at hz
      omega

lemma rexTotal_nonneg (h : RexInv now r x) : 0 ≤ rexTotal x :=
  Table.total_nonneg fun owner rb hb => by
    have := (h.rows owner rb hb).matured_le
    omega

lemma RexInv.rowOf_wellFormed (h : RexInv now r x) (owner : Name) :
    (rowOf x owner).WellFormed now := by
  unfold rowOf
  cases hb : x.balances.lookup owner with
  | none => exact ⟨[], 0, rfl, Maturing.nil now, le_refl _, le_refl _, rfl⟩
  | some rb => exact h.rows owner rb hb

/-- A purchase: the pool, and the row of the buyer with the REX received. -/
lemma purchase_ok {delta : ℤ} {s s' : State} (h : purchase now owner payment s = .ok (delta, s')) :
    ∃ received p' stake, Bought payment s.pools.pool received p' ∧
      s' = { s with
        pools := { s.pools with rexpool := some p' }
        rex := { s.rex with
          balances := s.rex.balances.insert owner (RexBalance.receive now received
            { rowOf s.rex owner with
              rexBalance := (rowOf s.rex owner).rexBalance + received, voteStake := stake })
          acquired := s.rex.acquired ++ [⟨owner, now, received⟩] } } := by
  simp only [purchase, addToRexBalance, bind_ok, pure_ok, Prod.mk.injEq] at h
  obtain ⟨⟨received, s1⟩, h1, ⟨d, row⟩, h2, -, rfl⟩ := h
  obtain ⟨p', rfl, hb⟩ := addToRexPool_ok h1
  have hrow : ∃ stake, row = { rowOf s.rex owner with
      rexBalance := (rowOf s.rex owner).rexBalance + received, voteStake := stake } := by
    unfold raisedBalance at h2
    unfold rowOf
    cases hl : s.rex.balances.lookup owner with
    | none =>
      rw [show (s.setPool p').rex.balances.lookup owner = none from hl] at h2
      cases h2
      exact ⟨payment, by simp⟩
    | some rb =>
      rw [show (s.setPool p').rex.balances.lookup owner = some rb from hl] at h2
      simp only [bind_ok, require_ok, check_ok, exists_const, pure_ok, Prod.mk.injEq] at h2
      obtain ⟨q, -, -, -, rfl⟩ := h2
      exact ⟨_, rfl⟩
  obtain ⟨stake, rfl⟩ := hrow
  exact ⟨received, p', stake, hb, rfl⟩

lemma RexInv.purchased {stake : ℤ} (h : RexInv now r x) (hb : Bought payment r.pool received p')
    (h0 : 0 < payment) (acquired : List Acquisition) :
    RexInv now { r with rexpool := some p' } { x with
      balances := x.balances.insert owner (RexBalance.receive now received
        { rowOf x owner with rexBalance := (rowOf x owner).rexBalance + received, voteStake := stake })
      acquired } := by
  have hrec := receive_received (h.rowOf_wellFormed owner) (hb.received_nonneg h0) stake
  generalize RexBalance.receive now received { rowOf x owner with
    rexBalance := (rowOf x owner).rexBalance + received, voteStake := stake } = row at hrec ⊢
  have hpool : PoolInv p' { x with balances := x.balances.insert owner row, acquired } := by
    refine h.pool.bought hb h0 (h.pool.rex ▸ rexTotal_nonneg h) rfl ?_
    unfold rexTotal
    rw [Table.total_insert, hrec.balance]
    unfold rowOf Table.valueAt
    cases x.balances.lookup owner <;> simp; omega
  refine ⟨h.ret.setPool hpool.balanced, hpool, h.loans, Table.forall_insert h.rows hrec.wellFormed,
    fun a o ho => (h.orders a o ho).setRow fun he hopen => ?_⟩
  subst he
  have hi := h.orders a o ho
  simp only [OrderInv, hopen, if_true] at hi
  obtain ⟨-, rb, hrb, hle⟩ := hi
  have hm := hrec.matured
  simp only [rowOf, hrb, Option.getD_some] at hm
  omega

end

lemma unstakeBandwidth_frame {owner receiver : Name} {net cpu : ℤ} {s s' : State}
    (h : unstakeBandwidth owner receiver net cpu s = .ok s') :
    ∃ staking resources, s' = { s with staking, resources } := by
  simp only [unstakeBandwidth, bind_ok, require_ok, check_ok, exists_const] at h
  obtain ⟨d, -, -, -, h⟩ := h
  obtain ⟨⟨resources, rfl⟩, -⟩ := updateResourceLimits_moved h
  exact ⟨_, resources, rfl⟩

lemma Funding.frame {payment : ℤ} {s s' : State} (h : Funding payment s s') :
    ∃ funds staking resources token,
      s' = { s with staking, resources, token, rex := { s.rex with funds } } := by
  cases h with
  | fund => exact ⟨_, _, _, _, rfl⟩
  | stake net cpu sum h paid =>
    obtain ⟨staking, resources, rfl⟩ := unstakeBandwidth_frame h
    exact ⟨_, _, _, _, rfl⟩

section
variable [FloatOps] {now : BlockTimestamp} {π : Promise} {s s' : State}

omit [FloatOps] in
lemma RexInv.bidMarked {r : RexPools} {x : Rex} {p : RexPool} (h : RexInv now r x)
    (hp : r.rexpool = some p) (proceeds : ℤ) :
    RexInv now { r with rexpool := some { p with namebidProceeds := proceeds } } x := by
  have hpool := h.pool_at hp
  exact h.withPool ⟨hpool.balanced, hpool.unlent_nonneg, hpool.rent_nonneg, hpool.lent,
    hpool.rex, hpool.empty⟩

theorem Effect.rexInv (h : Effect now π s s') (hi : RexInv now s.pools s.rex) :
    RexInv now s'.pools s'.rex := by
  cases h with
  | distribute h => exact hi.returned (updateRexPool_returned hi.ret (fun p hp => hi.balanced hp) h)
  | channel available h paid kept =>
    cases hp : s.pools.rexpool with
    | none => simp [rexAvailable, hp] at available
    | some p => exact hi.returned (addToRexReturnPool_returned hi.ret hp (hi.balanced hp) h)
  | marks pool nonneg =>
    have hpool := hi.pool_at pool
    exact hi.withPool ⟨hpool.balanced, hpool.unlent_nonneg, nonneg hpool.rent_nonneg,
      hpool.lent, hpool.rex,
      hpool.empty⟩
  | channelBids pool available h after paid =>
    exact (hi.returned (addToRexReturnPool_returned hi.ret pool (hi.balanced pool) h)).bidMarked
      after 0
  | dropBids pool unavailable => exact hi.bidMarked pool 0
  | closeLoan row pool refund moved => exact hi.removed pool row _
  | renewLoan row pool removed price payable gain h moved =>
    exact hi.renewLoan pool row removed price payable gain h
  | openLoan fresh available pool positive balance price gain h paid moved =>
    exact hi.openLoan pool available fresh positive balance price gain h _
  | loanBalance row nonneg paid => exact hi.loanBalance row nonneg _
  | fillOrder order isOpen row pool fillable settled =>
    exact hi.filled order isOpen row pool fillable _
  | sell restake actor row pool positive matured fillable settled votes credit reserved =>
    exact hi.soldNow row pool matured fillable reserved _ _
  | collect restake actor votes credit =>
    exact hi.withOrders _ fun a o ho => hi.orders a o (collectOrder_lookup ho)
  | enqueue actor row noFilled positive matured => exact hi.enqueued row noFilled positive matured
  | reshape row h others restake =>
    obtain ⟨h0, hle⟩ := hi.openRequest_bounds row
    exact hi.reshaped row (h (hi.rows _ _ row) h0 hle)
  | cancel actor order isOpen => exact hi.withOrders s.rex.funds (Table.forall_erase hi.orders)
  | deposit paid credit other => exact hi.withFunds _
  | withdraw paid debit other => exact hi.withFunds _
  | funds same => exact hi.withFunds _
  | dropBalance restake actor row empty => exact hi.dropped row empty
  | voting restake votes => exact hi
  | election same votes => exact hi
  | tokens rex kept => exact hi
  | stake h restake rex other =>
    obtain ⟨staking, resources, token, rfl, -⟩ := moveStake_frame h
    exact hi
  | refund row paid other => exact hi
  | market h =>
    obtain ⟨resources, powerup, rfl⟩ := h.frame
    exact hi
  | ram trade weights => exact hi
  | auctions names => exact hi
  | close timestamp names =>
    rcases closeAuction_frame timestamp now s with ⟨auctions, h⟩ | ⟨auctions, p, bid, hp, h⟩
    · rw [h]
      exact hi
    · rw [h]
      exact hi.bidMarked hp _
  | produce => exact hi
  | accounts weights ram => exact hi

theorem Effects.rexInv (h : Effects now π s s') (hi : RexInv now s.pools s.rex) :
    RexInv now s'.pools s'.rex := by
  induction h with
  | refl => exact hi
  | tail _ hstep ih => exact hstep.rexInv ih

omit [FloatOps] in
theorem Purchase.rexInv (h : Purchase now π s s') (hi : RexInv now s.pools s.rex) :
    RexInv now s'.pools s'.rex := by
  obtain ⟨owner, payment, delta, mid, -, h0, hf, hpur⟩ := h.parts
  obtain ⟨funds, staking, resources, token, rfl⟩ := hf.frame
  obtain ⟨received, p', stake, hb, rfl⟩ := purchase_ok hpur
  exact (hi.withFunds funds).purchased hb h0 _

theorem Decomposed.rexInv (h : Decomposed now π s s') (hi : RexInv now s.pools s.rex) :
    RexInv now s'.pools s'.rex := by
  obtain ⟨mid, hm, he⟩ := h
  rcases hm with rfl | hp
  · exact he.rexInv hi
  · exact he.rexInv (hp.rexInv hi)

theorem step.rexInv {l : Label} (h : step now l s s') (hi : RexInv now s.pools s.rex) :
    RexInv now s'.pools s'.rex := (exec_decomposed h).rexInv hi

omit [FloatOps] in
lemma Genesis.rexInv (h : Genesis s) (now : BlockTimestamp) : RexInv now s.pools s.rex := by
  rw [h.pools, h.rex]
  refine ⟨?_, ⟨rfl, le_refl _, le_refl _, rfl, rfl, fun _ => rfl⟩, ?_, ?_, ?_⟩
  · intro rp hr
    cases hr
  · intro k num loan hl
    cases hl
  · intro owner rb hb
    cases hb
  · intro owner o ho
    cases ho

/-- Every run keeps the invariant of the REX tables. -/
theorem rexInv_of_run {t₀ t : BlockTimestamp} {s₀ : State} {tr : List (BlockTimestamp × Label)}
    (h0 : RexInv t₀ s₀.pools s₀.rex) (h : TimedRun step t₀ s₀ tr t s) : RexInv t s.pools s.rex :=
  h.stateInvariant (fun t s => RexInv t s.pools s.rex) h0 fun hi hle hs => hs.rexInv (hi.later hle)

theorem Reachable.rexInv {t : BlockTimestamp} (h : Reachable t s) : RexInv t s.pools s.rex := by
  obtain ⟨t₀, s₀, tr, hg, hrun⟩ := h
  exact rexInv_of_run (hg.rexInv t₀) hrun

end
end TelosSystem
