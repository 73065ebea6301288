import TelosSystem.StakeCustody
import TelosSystem.RexProgress
import TelosSystem.PowerUpMarket

/-! Bandwidth across staking, REX and PowerUp: the totals of an account are what is staked,
lent and powered up to it, and the reserve account holds what the PowerUp market has left. -/
namespace TelosSystem
open Ledger

def delbandTo (k : LoanKind) (a : Name) (x : Staking) : ℤ :=
  x.delband.total fun key d => if key.2 = a then pick k d.netWeight d.cpuWeight else 0

def loansTo (k : LoanKind) (a : Name) (x : Rex) : ℤ :=
  (x.loans k).total fun _ l => if l.receiver = a then l.totalStaked else 0

def ordersTo (k : LoanKind) (a : Name) (t : Table ℕ PowerupOrder) : ℤ :=
  t.total fun _ o => if o.owner = a then pick k o.netWeight o.cpuWeight else 0

/-- What the market leaves with the reserve account. -/
def reserveShare (p : Powerup) (k : LoanKind) (a : Name) : ℤ :=
  if a = reserveAccount then (p.state.map fun st => st.available k).getD 0 else 0

/-- The totals of an account above what was given to it. -/
def bandGap (s : State) (k : LoanKind) (a : Name) : ℤ :=
  totalWeight s.resources k a -
    (delbandTo k a s.staking + loansTo k a s.rex + ordersTo k a s.powerup.orders)

/-- Only the reserve account holds more than what was given to it. -/
def BandInv (s : State) : Prop := ∀ k a, bandGap s k a = reserveShare s.powerup k a

section
variable {now : BlockTimestamp} {s s' : State}

lemma Moved.gap {account : Name} {net cpu : ℤ} (h : Moved account net cpu s s') (k : LoanKind)
    (a : Name) : bandGap s' k a = bandGap s k a + if a = account then pick k net cpu else 0 := by
  have hw := h.weight k a
  obtain ⟨resources, rfl⟩ := h.only
  simp only [bandGap] at hw ⊢
  omega

lemma DelbandChanged.gap {owner receiver : Name} {net cpu : ℤ}
    (h : DelbandChanged owner receiver net cpu s s') (k : LoanKind) (a : Name) :
    bandGap s' k a = bandGap s k a - if a = receiver then pick k net cpu else 0 := by
  have ht := h.total
    (fun key d => if key.2 = a then pick k d.netWeight d.cpuWeight else 0) fun key _ _ _ _ => by
    dsimp only
    split_ifs
    · exact pick_add k _ _ _ _
    · rfl
  obtain ⟨delband, rfl⟩ := h.only
  simp only [bandGap, delbandTo] at ht ⊢
  by_cases ha : a = receiver
  · rw [if_pos ha.symm] at ht
    rw [if_pos ha]
    omega
  · rw [if_neg (Ne.symm ha)] at ht
    rw [if_neg ha]
    omega

/-- A stake change moves the delegated bandwidth and the totals by the same amount. -/
lemma moveStake_gap {source owner receiver : Name} {net cpu : ℤ} {transfer : Bool} [FloatOps]
    (h : moveStake now source owner receiver net cpu transfer s = .ok s') (k : LoanKind)
    (a : Name) : bandGap s' k a = bandGap s k a := by
  simp only [moveStake, bind_ok] at h
  obtain ⟨s₁, h₁, s₂, h₂, h⟩ := h
  have hd := (changeDelband_changed h₁).gap k a
  have hm := (adjustResources_moved h₂).gap k a
  have hs : bandGap s' k a = bandGap s₂ k a := by
    split_ifs at h
    · simp only [settleRefund, bind_ok] at h
      obtain ⟨⟨n, c, d, s₃⟩, h₃, h⟩ := h
      obtain ⟨refunds, rfl⟩ := (refundBalances_changed h₃).only
      dsimp only [State.scheduleRefund] at h
      by_cases hpos : 0 < n + c
      · rw [if_pos hpos] at h
        obtain ⟨t, rfl, -⟩ := inlineTransfer_ok h
        rfl
      · rw [if_neg hpos, pure_ok] at h
        subst h
        rfl
    · rw [pure_ok] at h
      rw [h]
  omega

/-- Expiry takes the weight of an order from its owner. -/
lemma expired_gap {id : ℕ} {o : PowerupOrder} (hl : s.powerup.orders.lookup id = some o)
    (h : adjustResources o.owner (-o.netWeight) (-o.cpuWeight) false s = .ok s') (k : LoanKind)
    (a : Name) :
    bandGap (s'.setPowerupOrders (s'.powerup.orders.erase id)) k a = bandGap s k a := by
  have hm := (adjustResources_moved h).gap k a
  obtain ⟨resources, rfl⟩ := (adjustResources_moved h).only
  simp only [bandGap, State.setPowerupOrders, ordersTo, Table.total_erase,
    Table.valueAt_some hl] at hm ⊢
  by_cases ha : a = o.owner
  · rw [if_pos ha] at hm
    rw [if_pos ha.symm]
    cases k <;> simp only [pick] at hm ⊢ <;> omega
  · rw [if_neg ha] at hm
    rw [if_neg (Ne.symm ha)]
    omega

lemma expireOrders_gap {max : ℕ} {net cpu n c : ℤ}
    (h : expireOrders now max net cpu s = .ok (n, c, s')) (k : LoanKind) (a : Name) :
    bandGap s' k a = bandGap s k a := by
  induction max generalizing net cpu s with
  | zero =>
    rw [expireOrders] at h
    cases h
    rfl
  | succ max ih =>
    rw [expireOrders] at h
    cases hh : (powerupOrdersByExpires s.powerup.orders).head? with
    | none =>
      rw [hh] at h
      cases h
      rfl
    | some entry =>
      obtain ⟨id, o⟩ := entry
      have hl : s.powerup.orders.lookup id = some o :=
        (Table.mem_indexed _).mp (List.mem_of_mem_head? hh)
      rw [hh] at h
      dsimp only at h
      split_ifs at h
      · cases h
        rfl
      · rw [bind_ok] at h
        obtain ⟨s₁, h₁, h⟩ := h
        rw [ih h, expired_gap hl h₁]

end

section
variable [FloatOps] {now : BlockTimestamp} {π : Promise} {s s' : State}

lemma processPowerupQueue_gap {max : ℕ} {st st' : PowerupState} {n c : ℤ}
    (h : processPowerupQueue now max st s = .ok (n, c, st', s')) (k : LoanKind) (a : Name) :
    bandGap s' k a = bandGap s k a := by
  simp only [processPowerupQueue, bind_ok, pure_ok, Prod.mk.injEq] at h
  obtain ⟨⟨nd, cd, s₁⟩, h₁, net, -, cpu, -, -, -, -, rfl⟩ := h
  exact expireOrders_gap h₁ k a

omit [FloatOps] in
/-- A new order claims its weight for the receiver. -/
lemma Reserved.gap {receiver : Name} {st st' : PowerupState} {n c : ℤ}
    {orders : Table ℕ PowerupOrder} (h : Reserved now receiver st n c st' s.powerup.orders orders)
    (k : LoanKind) (a : Name) :
    bandGap (s.setPowerupOrders orders) k a = bandGap s k a -
      if a = receiver then pick k n c else 0 := by
  obtain ⟨id, expires, hfresh, rfl⟩ := h.order
  simp only [bandGap, State.setPowerupOrders, ordersTo, Table.total_insert_new _ _ hfresh]
  by_cases ha : a = receiver
  · rw [if_pos ha.symm, if_pos ha]
    omega
  · rw [if_neg (Ne.symm ha), if_neg ha]
    omega

omit [FloatOps] in
/-- The reserve account gets what becomes available. -/
lemma BandInv.settle {st' : PowerupState} {n c : ℤ} (hb : BandInv s)
    (hgap : ∀ k a, bandGap s' k a = bandGap s k a + if a = reserveAccount then pick k n c else 0)
    (hfree : ∀ k, st'.available k = (s.powerup.state.map fun st => st.available k).getD 0 +
      pick k n c) :
    BandInv (s'.setPowerupState st') := by
  intro k a
  have h1 : bandGap (s'.setPowerupState st') k a = bandGap s' k a := rfl
  have h2 := hb k a
  rw [h1, hgap k a, h2]
  simp only [reserveShare, State.setPowerupState, Option.map_some, Option.getD_some]
  by_cases ha : a = reserveAccount
  · simp only [if_pos ha, hfree k]
  · simp only [if_neg ha, add_zero]

theorem MarketStep.bandInv {cfg power : Prop} (h : MarketStep now cfg power s s') (hno : ¬ power)
    (hi : MarketInv now s.powerup) (hb : BandInv s) : BandInv s' := by
  cases h with
  | config allowed h =>
    obtain ⟨n, c, st', mid, hmid, rfl, hr⟩ := cfgpowerup_reconfigured hi h
    exact hb.settle (adjustResources_moved hmid).gap hr.moved
  | process h =>
    simp only [powerupexec, requireAuth, bind_ok, check_ok, exists_const, require_ok, pure_ok] at h
    obtain ⟨-, st, hst, ⟨n, c, st', s₁⟩, h₁, s₂, h₂, rfl⟩ := h
    obtain ⟨hp, -⟩ := processPowerupQueue_processed hi hst h₁
    refine hb.settle (n := n) (c := c) (fun k a => ?_) fun k => ?_
    · rw [(adjustResources_moved h₂).gap k a, processPowerupQueue_gap h₁]
    · rw [hp.freed k, hst, Option.map_some, Option.getD_some]
  | reserve bought => exact absurd bought hno

/-- A purchase of PowerUp moves weight from the reserve account to its receiver. -/
lemma powerup_bandInv {auth : List Name} {payer receiver : Name} {days : ℕ} {netFrac cpuFrac : ℤ}
    {maxPayment : Asset} (hi : MarketInv now s.powerup)
    (hfit : PowerFits now .net netFrac s.powerup ∧ PowerFits now .cpu cpuFrac s.powerup)
    (h : powerup ⟨now, auth⟩ payer receiver days netFrac cpuFrac maxPayment s = .ok s')
    (hb : BandInv s) : BandInv s' := by
  obtain ⟨st, fee, st', s₀, pools, token, hst, hn, hc, hres, rfl⟩ := powerup_ok h
  obtain ⟨n, c, st₁, s₁, na, ca, orders, s₂, h₁, hp, hr, h₂, h₃⟩ :=
    reservePower_ok hi hst hn hc hfit hres
  have hsettled : BandInv (s₀.setPowerupState st') := by
    refine hb.settle (n := n - na) (c := c - ca) (fun k a => ?_) fun k => ?_
    · rw [(adjustResources_moved h₃).gap k a, (adjustResources_moved h₂).gap k a, hr.gap k a,
        processPowerupQueue_gap h₁ k a]
      omega
    · rw [hr.taken k, hp.freed k, hst, Option.map_some, Option.getD_some]
      cases k <;> simp only [pick] <;> omega
  exact hsettled

omit [FloatOps] in
/-- A loan table and the totals of a receiver change together. -/
lemma BandInv.withLoans {k : LoanKind} {t : Table ℕ RexLoan} {funds : Table Name ℤ}
    {pools : RexPools} {resources : Resources} {receiver : Name} {delta : ℤ} (hb : BandInv s)
    (hmoved : LoanMoved k receiver delta s.resources resources)
    (htotal : ∀ a, (t.total fun _ l => if l.receiver = a then l.totalStaked else 0) =
      loansTo k a s.rex + if a = receiver then delta else 0) :
    BandInv (s.withLoans k t funds pools resources) := by
  intro j a
  have h1 := hb j a
  have h2 := hmoved.weight j a
  simp only [bandGap, loansTo, State.withLoans] at h1 ⊢
  by_cases hj : j = k
  · subst hj
    have h3 := htotal a
    simp only [loansTo] at h3
    rw [Function.update_self, h2, h3]
    simp only [and_true]
    omega
  · rw [Function.update_of_ne hj, h2, if_neg (fun hc => hj hc.2)]
    omega

theorem Effect.bandInv (h : Effect now π s s') (hno : ¬ π.power) (hi : MarketInv now s.powerup)
    (hb : BandInv s) : BandInv s' := by
  cases h with
  | closeLoan row pool refund moved =>
    refine hb.withLoans moved fun a => ?_
    rw [Table.total_erase, Table.valueAt_some row, loansTo]
    simp only [eq_comm (a := a)]
    split_ifs <;> omega
  | @renewLoan k num loan p q rented r resources row pool removed price payable gain h moved =>
    refine hb.withLoans moved fun a => ?_
    rw [Table.total_insert_old _ _ row, loansTo]
    have hreceiver : (updateRenewedLoan rented loan).receiver = loan.receiver := rfl
    have hstaked : (updateRenewedLoan rented loan).totalStaked = rented := rfl
    rw [hreceiver, hstaked]
    by_cases ha : a = loan.receiver
    · rw [if_pos ha.symm, if_pos ha.symm, if_pos ha]
      omega
    · rw [if_neg (Ne.symm ha), if_neg (Ne.symm ha), if_neg ha]
      omega
  | openLoan fresh available pool positive balance price gain h paid moved =>
    refine hb.withLoans moved fun a => ?_
    rw [Table.total_insert_new _ _ fresh, loansTo]
    simp only [eq_comm (a := a)]
  | @loanBalance k num loan delta funds row nonneg paid =>
    have hsame : LoanMoved k loan.receiver 0 s.resources s.resources :=
      ⟨fun j a => by simp, RamKept.refl _⟩
    refine hb.withLoans hsame fun a => ?_
    rw [Table.total_insert_old _ _ row, loansTo]
    simp
  | stake h restake rex other =>
    intro k a
    have hgap := moveStake_gap h k a
    obtain ⟨staking, resources, token, rfl, -⟩ := moveStake_frame h
    exact hgap.trans (hb k a)
  | market h => exact h.bandInv hno hi hb
  | ram trade weights =>
    intro k a
    have h1 := hb k a
    have h2 := weights k a
    simp only [bandGap] at h1 ⊢
    omega
  | accounts weights ram =>
    intro k a
    have h1 := hb k a
    have h2 := weights k a
    simp only [bandGap] at h1 ⊢
    omega
  | close timestamp names =>
    obtain ⟨auctions, pools, h⟩ := closeAuction_eq timestamp now s
    rw [h]
    exact hb
  | _ => exact hb

theorem Effects.bandInv (h : Effects now π s s') (hno : ¬ π.power) (hi : MarketInv now s.powerup)
    (hb : BandInv s) : BandInv s' := by
  induction h with
  | refl => exact hb
  | tail hprior hstep ih => exact hstep.bandInv hno (Effects.marketInv hprior hno hi).1 ih

omit [FloatOps] in
/-- Unstaking into REX takes from the delegated bandwidth and the totals alike. -/
theorem Purchase.bandInv (h : Purchase now π s s') (hb : BandInv s) : BandInv s' := by
  obtain ⟨owner, payment, delta, mid, -, -, hf, hpur⟩ := h.parts
  obtain ⟨received, p', stake, -, rfl⟩ := purchase_ok hpur
  cases hf with
  | fund debit => exact hb
  | @stake m' unstaker receiver net cpu t hnet hcpu sum hu paid =>
    obtain ⟨m, hd, hm⟩ := unstakeBandwidth_changed hu
    intro k a
    change bandGap m' k a = reserveShare m'.powerup k a
    rw [hm.gap k a, hd.gap k a, hb k a]
    obtain ⟨delband, rfl⟩ := hd.only
    obtain ⟨resources, rfl⟩ := hm.only
    exact sub_add_cancel _ _

theorem step.bandInv {l : Label} (h : step now l s s') (hfit : PurchaseFits now l.action s)
    (hi : MarketInv now s.powerup) (hb : BandInv s) : BandInv s' := by
  by_cases hp : l.action.isPowerup
  · obtain ⟨auth, action⟩ := l
    cases action with
    | powerup payer receiver days netFrac cpuFrac maxPayment => exact powerup_bandInv hi hfit h hb
    | _ => exact absurd hp id
  · obtain ⟨mid, hm, he⟩ := exec_decomposed h
    rcases hm with rfl | hpur
    · exact he.bandInv hp hi hb
    · exact he.bandInv hp (hpur.powerup ▸ hi) (hpur.bandInv hb)

omit [FloatOps] in
lemma Genesis.bandInv (h : Genesis s) : BandInv s := by
  intro k a
  simp only [bandGap, reserveShare, delbandTo, loansTo, ordersTo, h.resources, h.delband,
    h.rex, h.powerup,
    Table.total_empty, Option.map_none, Option.getD_none, ite_self]
  rfl

lemma fitRun_bandInv {t₀ t : BlockTimestamp} {s₀ : State} {tr : List (BlockTimestamp × Label)}
    (h0 : Genesis s₀) (hrun : TimedRun fitStep t₀ s₀ tr t s) : BandInv s :=
  (hrun.stateInvariant (fun t s => MarketInv t s.powerup ∧ BandInv s) ⟨h0.marketInv t₀, h0.bandInv⟩
    fun hi hle hs => ⟨(hs.1.marketInv hs.2 (hi.1.later hle)).1,
    hs.1.bandInv hs.2 (hi.1.later hle) hi.2⟩).2

lemma fitRun_reachable {t₀ t : BlockTimestamp} {s₀ : State} {tr : List (BlockTimestamp × Label)}
    (h0 : Genesis s₀) (hrun : TimedRun fitStep t₀ s₀ tr t s) : Reachable t s :=
  ⟨t₀, s₀, tr, h0, hrun.mono fun hs => hs.1⟩

/-- Whoever has power to give back is an account: the purchase has set its limits. -/
def OwnersExist (s : State) : Prop :=
  ∀ id o, s.powerup.orders.lookup id = some o → (o.netWeight = 0 ∧ o.cpuWeight = 0) ∨
    s.isAccount o.owner = true

section
omit [FloatOps]

/-- Orders leave the table, and accounts stay. -/
lemma OwnersExist.of_orders (h : OwnersExist s)
    (ho : ∀ id o, s'.powerup.orders.lookup id = some o → s.powerup.orders.lookup id = some o)
    (ha : ∀ a, s.isAccount a = true → s'.isAccount a = true) : OwnersExist s' :=
  fun id o hl => (h id o (ho id o hl)).imp_right (ha o.owner)

lemma remainingOrders_lookup {max : ℕ} {t : Table ℕ PowerupOrder} {id : ℕ} {o : PowerupOrder}
    (h : (remainingOrders now max t).lookup id = some o) : t.lookup id = some o := by
  induction max generalizing t with
  | zero => exact h
  | succ max ih =>
    rw [remainingOrders] at h
    split at h
    · exact h
    · split_ifs at h
      · exact h
      · have hrest := ih h
        rw [Table.lookup_erase'] at hrest
        split_ifs at hrest
        exact hrest

lemma expireOrders_owners {max : ℕ} {net cpu n c : ℤ} (hi : OwnersExist s)
    (h : expireOrders now max net cpu s = .ok (n, c, s')) : OwnersExist s' := by
  have horders := expireOrders_orders h
  obtain ⟨resources, powerup, rfl⟩ := expireOrders_frame h
  refine hi.of_orders (fun id o hl => ?_) fun _ => id
  rw [horders] at hl
  exact remainingOrders_lookup hl

end

lemma processPowerupQueue_owners {max : ℕ} {st st' : PowerupState} {n c : ℤ} (hi : OwnersExist s)
    (h : processPowerupQueue now max st s = .ok (n, c, st', s')) : OwnersExist s' := by
  simp only [processPowerupQueue, bind_ok, pure_ok, Prod.mk.injEq] at h
  obtain ⟨⟨n₁, c₁, s₁⟩, h₁, net, -, cpu, -, -, -, -, rfl⟩ := h
  exact expireOrders_owners hi h₁

lemma MarketStep.ownersExist {cfg power : Prop} (h : MarketStep now cfg power s s')
    (hi : OwnersExist s) : OwnersExist s' := by
  cases h with
  | config allowed h =>
    simp only [cfgpowerup, requireAuth, bind_ok, check_ok, exists_const, pure_ok] at h
    obtain ⟨-, -, a, -, b, -, fee, -, -, -, -, net, -, cpu, -, x, -, y, -, s₁, h₁, rfl⟩ := h
    obtain ⟨resources, rfl⟩ := (adjustResources_moved h₁).only
    exact hi
  | process h =>
    simp only [powerupexec, requireAuth, bind_ok, check_ok, exists_const, require_ok, pure_ok] at h
    obtain ⟨-, st, -, ⟨n, c, st', s₁⟩, h₁, s₂, h₂, rfl⟩ := h
    have hi₁ := processPowerupQueue_owners hi h₁
    obtain ⟨resources, rfl⟩ := (adjustResources_moved h₂).only
    exact hi₁
  | reserve bought hst hn hc h =>
    simp only [reservePower, bind_ok, check_ok, exists_const, pure_ok, Prod.mk.injEq] at h
    obtain ⟨⟨n, c, st₁, s₁⟩, h₁, net, -, cpu, -, -, -, s₂, h₂, s₃, h₃, -, -, rfl⟩ := h
    have hi₁ := processPowerupQueue_owners hi h₁
    have hnew := or_iff_not_imp_left.mpr (adjustResources_isAccount h₂)
    obtain ⟨resources, rfl⟩ := (adjustResources_moved h₂).only
    obtain ⟨resources', rfl⟩ := (adjustResources_moved h₃).only
    exact Table.forall_insert hi₁ hnew

theorem Effect.ownersExist (h : Effect now π s s') (hi : OwnersExist s) : OwnersExist s' := by
  cases h with
  | stake h =>
    obtain ⟨staking, resources, token, rfl, -⟩ := moveStake_frame h
    exact hi
  | market h => exact h.ownersExist hi
  | close timestamp names =>
    obtain ⟨auctions, pools, h⟩ := closeAuction_eq timestamp now s
    rw [h]
    exact hi
  | accounts weights ram grown => exact hi.of_orders (fun _ _ => id) grown
  | _ => exact hi

omit [FloatOps] in
lemma Purchase.ownersExist (h : Purchase now π s s') (hi : OwnersExist s) : OwnersExist s' := by
  obtain ⟨owner, payment, delta, mid, -, -, hf, hpur⟩ := h.parts
  obtain ⟨funds, staking, resources, token, rfl⟩ := hf.frame
  obtain ⟨received, p', stake, -, rfl⟩ := purchase_ok hpur
  exact hi

lemma Effects.ownersExist (h : Effects now π s s') (hi : OwnersExist s) : OwnersExist s' := by
  induction h with
  | refl => exact hi
  | tail _ hstep ih => exact hstep.ownersExist ih

theorem step.ownersExist {l : Label} (h : step now l s s') (hi : OwnersExist s) :
    OwnersExist s' := by
  obtain ⟨mid, hm, he⟩ := exec_decomposed h
  rcases hm with rfl | hpur
  · exact he.ownersExist hi
  · exact he.ownersExist (hpur.ownersExist hi)

lemma Reachable.ownersExist {t : BlockTimestamp} (h : Reachable t s) : OwnersExist s := by
  obtain ⟨t₀, s₀, tr, h0, hrun⟩ := h
  refine hrun.stateInvariant (fun _ => OwnersExist) (fun id o ho => ?_) fun hi _ hs =>
    hs.ownersExist hi
  rw [h0.powerup] at ho
  cases ho

structure Covered (s : State) : Prop where
  delband : StakeInv s.staking
  loans : ∀ k num l, (s.rex.loans k).lookup num = some l → 0 < l.totalStaked
  orders : OrdersNonneg s.powerup.orders
  reserve : ∀ k a, 0 ≤ reserveShare s.powerup k a
  band : BandInv s

section
omit [FloatOps]

lemma Covered.delbandTo_nonneg (h : Covered s) (k : LoanKind) (a : Name) :
    0 ≤ delbandTo k a s.staking := by
  apply Table.total_nonneg
  intro key d hd
  have := h.delband.delband key d hd
  cases k <;> dsimp only [pick] <;> split_ifs <;> omega

lemma Covered.loan_nonneg (h : Covered s) (k : LoanKind) (a : Name) :
    ∀ num l, (s.rex.loans k).lookup num = some l → 0 ≤
      if l.receiver = a then l.totalStaked else 0 := by
  intro num l hl
  have := h.loans k num l hl
  split_ifs <;> omega

lemma Covered.order_nonneg (h : Covered s) (k : LoanKind) (a : Name) :
    ∀ id o, s.powerup.orders.lookup id = some o →
      0 ≤ if o.owner = a then pick k o.netWeight o.cpuWeight else 0 := by
  intro id o ho
  have := h.orders id o ho
  cases k <;> dsimp only [pick] <;> split_ifs <;> omega

/-- The totals of a receiver cover each of its loans. -/
lemma Covered.not_uncovered {e : String} (h : Covered s) : ¬ Uncovered s e := by
  rintro ⟨-, k, num, loan, j, hl, hneg⟩
  have hb := h.band j loan.receiver
  have hr := h.reserve j loan.receiver
  have hd := h.delbandTo_nonneg j loan.receiver
  have ho := Table.total_nonneg (h.order_nonneg j loan.receiver)
  have hloans : (if j = k then loan.totalStaked else 0) ≤ loansTo j loan.receiver s.rex := by
    split_ifs with hj
    · subst hj
      have := Table.le_total (h.loan_nonneg j loan.receiver) hl
      rwa [if_pos rfl] at this
    · exact Table.total_nonneg (h.loan_nonneg j loan.receiver)
  simp only [bandGap, ordersTo] at hb
  omega

/-- The totals of an owner cover each of its orders. -/
lemma Covered.order_le (h : Covered s) {id : ℕ} {o : PowerupOrder}
    (ho : s.powerup.orders.lookup id = some o) (k : LoanKind) :
    pick k o.netWeight o.cpuWeight ≤ totalWeight s.resources k o.owner := by
  have hb := h.band k o.owner
  have hr := h.reserve k o.owner
  have hd := h.delbandTo_nonneg k o.owner
  have hl := Table.total_nonneg (h.loan_nonneg k o.owner)
  have hle := Table.le_total (h.order_nonneg k o.owner) ho
  rw [if_pos rfl] at hle
  simp only [bandGap, ordersTo, loansTo] at hb
  omega

/-- Taking covered amounts from the totals of an account succeeds. -/
lemma adjustResources_total {account : Name} {net cpu : ℤ}
    (h : ∀ k, 0 ≤ totalWeight s.resources k account + pick k net cpu)
    (ha : (net = 0 ∧ cpu = 0) ∨ s.isAccount account = true) :
    ∃ s', adjustResources account net cpu false s = .ok s' := by
  have hn := movedTotals_weight s account net cpu .net
  have hc := movedTotals_weight s account net cpu .cpu
  have hn' := h .net
  have hc' := h .cpu
  simp only [pick] at hn hc hn' hc'
  unfold adjustResources
  by_cases h0 : net = 0 ∧ cpu = 0
  · exact ⟨s, if_pos h0⟩
  · rw [if_neg h0]
    obtain ⟨m, hm⟩ := limitsFor_total (movedTotals s account net cpu) (fun old =>
      if managed s.voting account ramManaged then old
      else max ((movedTotals s account net cpu).ramBytes + ramGiftBytes) old) (ha.resolve_left h0)
    simp only [bind_ok, check_ok, exists_const, pure_ok]
    exact ⟨_, by omega, by omega, Or.inl trivial, m, hm, rfl⟩

lemma Covered.expired {id : ℕ} {o : PowerupOrder} (h : Covered s)
    (hl : s.powerup.orders.lookup id = some o)
    (h₁ : adjustResources o.owner (-o.netWeight) (-o.cpuWeight) false s = .ok s') :
    Covered (s'.setPowerupOrders (s'.powerup.orders.erase id)) := by
  have hgap := expired_gap hl h₁
  obtain ⟨resources, rfl⟩ := (adjustResources_moved h₁).only
  exact ⟨h.delband, h.loans, Table.forall_erase h.orders, h.reserve,
    fun k a => (hgap k a).trans (h.band k a)⟩

/-- Expiring orders of a covered state never fails. -/
lemma expireOrders_total (h : Covered s) (he : OwnersExist s) (max : ℕ) (net cpu : ℤ) :
    ∃ out, expireOrders now max net cpu s = .ok out := by
  induction max generalizing net cpu s with
  | zero => exact ⟨_, rfl⟩
  | succ max ih =>
    rw [expireOrders]
    cases hh : (powerupOrdersByExpires s.powerup.orders).head? with
    | none => exact ⟨_, rfl⟩
    | some entry =>
      obtain ⟨id, o⟩ := entry
      have hl : s.powerup.orders.lookup id = some o :=
        (Table.mem_indexed _).mp (List.mem_of_mem_head? hh)
      dsimp only
      split_ifs
      · exact ⟨_, rfl⟩
      · have hcovered : ∀ k, 0 ≤ totalWeight s.resources k o.owner + pick k (-o.netWeight)
          (-o.cpuWeight) := by
          intro k
          have := h.order_le hl k
          cases k <;> simp only [pick] at this ⊢ <;> omega
        obtain ⟨s₁, h₁⟩ := adjustResources_total hcovered ((he id o hl).imp_left fun hz => by omega)
        have hleft : OwnersExist (s₁.setPowerupOrders (s₁.powerup.orders.erase id)) := by
          obtain ⟨resources, rfl⟩ := (adjustResources_moved h₁).only
          exact Table.forall_erase he
        obtain ⟨out, hout⟩ := ih (h.expired hl h₁) hleft (wrapInt64 (net + o.netWeight))
          (wrapInt64 (cpu + o.cpuWeight))
        exact ⟨out, by rw [bind_ok]; exact ⟨s₁, h₁, hout⟩⟩

end

/-- Processing the queue of a covered state never fails. -/
lemma processPowerupQueue_total {st : PowerupState} (h : Covered s) (he : OwnersExist s)
    (hi : MarketInv now s.powerup) (hst : s.powerup.state = some st) (max : ℕ) :
    ∃ out, processPowerupQueue now max st s = .ok out := by
  obtain ⟨⟨n, c, s₁⟩, h₁⟩ : ∃ out, expireOrders now max 0 0 s = .ok out :=
    expireOrders_total h he max 0 0
  obtain ⟨net, hen, -⟩ := expired_weight hi hst h₁ .net
  obtain ⟨cpu, hec, -⟩ := expired_weight hi hst h₁ .cpu
  simp only [PowerupState.resource, pick] at hen hec
  exact ⟨_, bind_ok.mpr ⟨_, h₁, bind_ok.mpr ⟨_, hen, bind_ok.mpr ⟨_, hec, rfl⟩⟩⟩⟩

omit [FloatOps] in
lemma MarketInv.covered (hi : MarketInv now s.powerup) (hr : RexInv now s.pools s.rex)
    (hd : StakeInv s.staking) (hb : BandInv s) : Covered s := by
  refine ⟨hd, fun k num l hl => (hr.loans k num l hl).2.1, hi.orders, fun k a => ?_, hb⟩
  unfold reserveShare
  split_ifs
  · cases hst : s.powerup.state with
    | none => exact le_refl _
    | some st =>
      have := (hi.settled st hst k).1.covered
      simp only [Option.map_some, Option.getD_some, PowerupState.available]
      omega
  · exact le_refl _

end
end TelosSystem
