import TelosSystem.ActionEffects
import TelosSystem.RexPurchase

/-! The tokens of `eosio.names` are the open bids, the refunds of bidders that were outbid, and the
proceeds of closed auctions that wait for the next maintenance of REX. -/
namespace TelosSystem
open Ledger

def openBids (a : Auctions) : ℤ := a.bids.total fun _ b => if 0 < b.highBid then b.highBid else 0

def bidRefundTotal (a : Auctions) : ℤ := a.refunds.total fun _ amount => amount

def bidProceeds (r : RexPools) : ℤ := (r.rexpool.map RexPool.namebidProceeds).getD 0

/-- What `eosio.names` holds beyond what it has to hold. -/
def namesSurplus (s : State) : ℤ :=
  s.coreBalance namesAccount -
    (openBids s.auctions + bidRefundTotal s.auctions + bidProceeds s.pools)

/-- The bids of auctions closed between two states, when there was no REX to pay the proceeds to. -/
def lostBids (s s' : State) : ℤ :=
  if rexAvailable s.pools then 0
  else s.auctions.bids.total fun newname b =>
    if 0 < b.highBid ∧ s'.auctions.bids.lookup newname =
      some { b with highBid := -b.highBid } then b.highBid else 0

/-- Proceeds wait only while there is REX. -/
def BidsInv (r : RexPools) : Prop :=
  ∀ p, r.rexpool = some p → 0 ≤ p.namebidProceeds ∧ (0 < p.namebidProceeds → 0 < p.totalRex)

lemma bidProceeds_some {r : RexPools} {p : RexPool} (h : r.rexpool = some p) :
    bidProceeds r = p.namebidProceeds := by
  rw [bidProceeds, h]
  rfl

lemma bidProceeds_of_marks {r r' : RexPools}
    (h : r'.rexpool.map RexPool.marks = r.rexpool.map RexPool.marks) :
    bidProceeds r' = bidProceeds r := by
  have hm := congrArg (fun o => (o.map Prod.fst).getD 0) h
  simp only [Option.map_map] at hm
  exact hm

lemma BidsInv.of_marks {r r' : RexPools} (hb : BidsInv r)
    (h : r'.rexpool.map RexPool.marks = r.rexpool.map RexPool.marks) : BidsInv r' := by
  intro q hq
  rw [hq, Option.map_some] at h
  obtain ⟨p, hp, hpq⟩ := Option.map_eq_some_iff.mp h.symm
  have := hb p hp
  simp only [RexPool.marks, Prod.mk.injEq] at hpq
  omega

lemma BidsInv.set {r : RexPools} {p : RexPool} (h0 : 0 ≤ p.namebidProceeds)
    (h1 : 0 < p.namebidProceeds → 0 < p.totalRex) : BidsInv { r with rexpool := some p } := by
  intro q hq
  cases hq
  exact ⟨h0, h1⟩

/-- Nothing is lost when no auction is closed. -/
lemma lostBids_eq_zero {s s' : State}
    (h : ∀ newname b, s.auctions.bids.lookup newname = some b → 0 < b.highBid →
      s'.auctions.bids.lookup newname ≠ some { b with highBid := -b.highBid }) :
    lostBids s s' = 0 := by
  unfold lostBids
  split_ifs
  · rfl
  · rw [Table.total_congr (g := fun _ _ => 0) fun newname b hb => if_neg fun hc =>
      h newname b hb hc.1 hc.2]
    simp [Table.total]

/-- A state with the same auctions has closed none. -/
lemma lostBids_of_same {s s' : State} (h : s'.auctions.bids = s.auctions.bids) :
    lostBids s s' = 0 := by
  refine lostBids_eq_zero fun newname b hb hpos heq => ?_
  rw [h, hb, Option.some.injEq] at heq
  have := congrArg NameBid.highBid heq
  dsimp only at this
  omega

section
variable [FloatOps] {now : BlockTimestamp} {π : Promise} {s s' : State}

omit [FloatOps] in
lemma AuctionClosed.bid {timestamp : BlockTimestamp} {newname : Name} {bid : NameBid}
    (h : AuctionClosed timestamp now newname bid s s') :
    s.auctions.bids.lookup newname = some bid :=
  (Table.mem_indexed _).mp (List.mem_of_find?_eq_some h.highest)

omit [FloatOps] in
lemma closeAuction_bidsInv (timestamp : BlockTimestamp) (hb : BidsInv s.pools) :
    BidsInv (closeAuction timestamp now s).pools := by
  rcases closeAuction_cases timestamp now s with h | ⟨newname, bid, h⟩
  · rw [h]
    exact hb
  · rw [h.result]
    rcases channelNamebidToRex_cases bid.highBid
      { s with auctions := s.auctions.close timestamp newname bid }
      with ⟨-, he⟩ | ⟨p, hp, hrex, he⟩
    · rw [he]
      exact hb
    · rw [he]
      have hpos := h.positive
      have := (hb p hp).1
      refine BidsInv.set ?_ fun _ => hrex
      dsimp only
      omega

theorem Effect.bidsInv (h : Effect now π s s') (hb : BidsInv s.pools) : BidsInv s'.pools := by
  cases h with
  | distribute h => exact hb.of_marks (updateRexPool_marks h)
  | channel available h paid kept => exact hb.of_marks (addToRexReturnPool_marks h)
  | marks pool nonneg => exact BidsInv.set (hb _ pool).1 (hb _ pool).2
  | channelBids pool available h after paid =>
    exact BidsInv.set (le_refl 0) fun h0 => absurd h0 (lt_irrefl 0)
  | dropBids pool unavailable => exact BidsInv.set (le_refl 0) fun h0 => absurd h0 (lt_irrefl 0)
  | closeLoan row pool refund moved => exact BidsInv.set (hb _ pool).1 (hb _ pool).2
  | renewLoan row pool removed price payable gain h moved =>
    refine BidsInv.of_marks ?_ (addLoanToRexPool_marks h)
    rw [removed]
    exact BidsInv.set (hb _ pool).1 (hb _ pool).2
  | openLoan fresh available pool positive balance price gain h paid moved =>
    exact hb.of_marks (addLoanToRexPool_marks h)
  | fillOrder order isOpen row pool fillable settled =>
    exact BidsInv.set (hb _ pool).1 fun h0 => absurd h0 (not_lt.mpr settled)
  | sell restake actor row pool positive matured fillable settled votes credit reserved =>
    exact BidsInv.set (hb _ pool).1 fun h0 => absurd h0 (not_lt.mpr settled)
  | stake h restake rex other =>
    obtain ⟨staking, resources, token, rfl, -⟩ := moveStake_frame h
    exact hb
  | market h =>
    obtain ⟨resources, powerup, rfl⟩ := h.frame
    exact hb
  | close timestamp names => exact closeAuction_bidsInv timestamp hb
  | _ => exact hb

theorem Effects.bidsInv (h : Effects now π s s') (hb : BidsInv s.pools) : BidsInv s'.pools := by
  induction h with
  | refl => exact hb
  | tail _ hstep ih => exact hstep.bidsInv ih

structure NamesKept (s s' : State) : Prop where
  auctions : s'.auctions = s.auctions
  surplus : namesSurplus s' = namesSurplus s

omit [FloatOps] in
/-- The auctions and the balance of `eosio.names` stay, and so do the proceeds in the pool. -/
lemma NamesKept.of_marks (ha : s'.auctions = s.auctions)
    (hb : s'.coreBalance namesAccount = s.coreBalance namesAccount)
    (hm : s'.pools.rexpool.map RexPool.marks = s.pools.rexpool.map RexPool.marks) :
    NamesKept s s' := by
  refine ⟨ha, ?_⟩
  rw [namesSurplus, namesSurplus, ha, hb, bidProceeds_of_marks hm]

omit [FloatOps] in
/-- A pool with the same proceeds takes the place of another. -/
lemma NamesKept.of_pool {p q : RexPool} (ha : s'.auctions = s.auctions)
    (hb : s'.coreBalance namesAccount = s.coreBalance namesAccount) (hp : s.pools.rexpool = some p)
    (hq : s'.pools.rexpool = some q) (hpq : q.namebidProceeds = p.namebidProceeds) :
    NamesKept s s' := by
  refine ⟨ha, ?_⟩
  rw [namesSurplus, namesSurplus, ha, hb, bidProceeds_some hp, bidProceeds_some hq, hpq]

omit [FloatOps] in
/-- The proceeds that are dropped without REX are none. -/
lemma BidsInv.unavailable {p : RexPool} (hb : BidsInv s.pools) (hp : s.pools.rexpool = some p)
    (hn : ¬ rexAvailable s.pools) : p.namebidProceeds = 0 := by
  obtain ⟨h0, h1⟩ := hb p hp
  rw [rexAvailable, hp] at hn
  simp only [decide_eq_true_eq] at hn
  omega

theorem Effect.namesKept (h : Effect now π s s') (hq : π.quiet .names) (hn : ¬ π.names)
    (hb : BidsInv s.pools) : NamesKept s s' := by
  cases h with
  | distribute h => exact NamesKept.of_marks rfl rfl (updateRexPool_marks h)
  | channel available h paid kept =>
    exact NamesKept.of_marks rfl (kept .names hq) (addToRexReturnPool_marks h)
  | marks pool nonneg => exact NamesKept.of_pool rfl rfl pool rfl rfl
  | channelBids pool available h after paid =>
    have hsource := paid.source
    refine ⟨rfl, ?_⟩
    rw [namesSurplus, namesSurplus, bidProceeds_some pool, bidProceeds_some rfl]
    simp only [State.coreBalance]
    omega
  | dropBids pool unavailable =>
    exact NamesKept.of_pool rfl rfl pool rfl (hb.unavailable pool unavailable).symm
  | closeLoan row pool refund moved => exact NamesKept.of_pool rfl rfl pool rfl rfl
  | @renewLoan k num loan p q rented r resources row pool removed price payable gain h moved =>
    refine NamesKept.of_marks rfl rfl ((addLoanToRexPool_marks h).trans ?_)
    rw [pool, removed]
    rfl
  | openLoan fresh available pool positive balance price gain h paid moved =>
    exact NamesKept.of_marks rfl rfl (addLoanToRexPool_marks h)
  | fillOrder order isOpen row pool fillable settled => exact NamesKept.of_pool rfl rfl pool rfl rfl
  | sell restake actor row pool positive matured fillable settled votes credit reserved =>
    exact NamesKept.of_pool rfl rfl pool rfl rfl
  | deposit paid credit other =>
    exact NamesKept.of_marks rfl (paid.other (other .names hq).symm (by decide)) rfl
  | withdraw paid debit other =>
    exact NamesKept.of_marks rfl (paid.other (by decide) (other .names hq).symm) rfl
  | tokens rex kept => exact NamesKept.of_marks rfl (kept .names hq) rfl
  | stake h restake rex other =>
    obtain ⟨staking, resources, token, rfl, hpaid⟩ := moveStake_frame h
    refine NamesKept.of_marks rfl ?_ rfl
    rcases hpaid with rfl | ⟨amount, hp⟩
    · rfl
    · exact hp.other (other .names hq).symm (by decide)
  | refund row paid other =>
    exact NamesKept.of_marks rfl (paid.other (by decide) (other .names hq).symm) rfl
  | market h =>
    obtain ⟨resources, powerup, rfl⟩ := h.frame
    exact ⟨rfl, rfl⟩
  | auctions names => exact absurd names hn
  | close timestamp names => exact absurd names hn
  | _ => exact ⟨rfl, rfl⟩

theorem Effects.namesKept (h : Effects now π s s') (hq : π.quiet .names) (hn : ¬ π.names)
    (hb : BidsInv s.pools) : NamesKept s s' := by
  induction h with
  | refl => exact ⟨rfl, rfl⟩
  | tail hprior hstep ih =>
    have hk := hstep.namesKept hq hn (Effects.bidsInv hprior hb)
    exact ⟨hk.auctions.trans ih.auctions, hk.surplus.trans ih.surplus⟩

omit [FloatOps] in
theorem Purchase.namesKept (h : Purchase now π s s') (hb : BidsInv s.pools) :
    NamesKept s s' ∧ BidsInv s'.pools := by
  obtain ⟨owner, payment, delta, mid, -, h0, hf, hpur⟩ := h.parts
  have hbought : ∀ {received p'}, Bought payment s.pools.pool received p' →
      p'.namebidProceeds = bidProceeds s.pools ∧ BidsInv { s.pools with rexpool := some p' } := by
    intro received p' hb'
    have hpool : 0 ≤ s.pools.pool.namebidProceeds ∧
      (0 < s.pools.pool.namebidProceeds → 0 < s.pools.pool.totalRex) ∧
        s.pools.pool.namebidProceeds = bidProceeds s.pools := by
      cases hp : s.pools.rexpool with
      | none =>
        rw [RexPools.pool, bidProceeds, hp]
        exact ⟨le_refl 0, fun h => absurd h (lt_irrefl 0), rfl⟩
      | some p =>
        rw [RexPools.pool_some hp, bidProceeds_some hp]
        exact ⟨(hb p hp).1, (hb p hp).2, rfl⟩
    cases hb' with
    | restart empty => exact ⟨hpool.2.2, BidsInv.set hpool.1 fun h => absurd (hpool.2.1 h) empty⟩
    | grow rex lendable =>
      refine ⟨hpool.2.2, BidsInv.set hpool.1 fun _ => ?_⟩
      exact lt_of_lt_of_le rex (by have := Bought.growth lendable rex h0; omega)
  cases hf with
  | fund debit =>
    obtain ⟨received, p', stake, hb', rfl⟩ := purchase_ok hpur
    obtain ⟨hpro, hinv⟩ := hbought hb'
    refine ⟨⟨rfl, ?_⟩, hinv⟩
    rw [namesSurplus, namesSurplus, bidProceeds_some rfl, hpro]
    rfl
  | stake net cpu sum hu paid =>
    obtain ⟨staking, resources, rfl⟩ := unstakeBandwidth_frame hu
    obtain ⟨received, p', stake, hb', rfl⟩ := purchase_ok hpur
    obtain ⟨hpro, hinv⟩ := hbought hb'
    have hother := paid.other (a := namesAccount) (by decide) (by decide)
    refine ⟨⟨rfl, ?_⟩, hinv⟩
    rw [namesSurplus, namesSurplus, bidProceeds_some rfl, hpro]
    simp only [State.coreBalance] at hother ⊢
    rw [hother]

omit [FloatOps] in
/-- The closing of an auction turns an open bid into proceeds, or into a bid that is lost. -/
lemma AuctionClosed.ledger {timestamp : BlockTimestamp} {newname : Name} {bid : NameBid}
    (h : AuctionClosed timestamp now newname bid s s') :
    namesSurplus s' = namesSurplus s + lostBids s s' := by
  have hbid := h.bid
  have hpos := h.positive
  have hopen : openBids (s.auctions.close timestamp newname bid) = openBids s.auctions -
    bid.highBid := by
    rw [openBids, openBids, Auctions.close, Table.total_insert_old _ _ hbid, if_pos hpos,
      if_neg (by dsimp only; omega)]
    omega
  have hrefunds : bidRefundTotal (s.auctions.close timestamp newname bid) =
    bidRefundTotal s.auctions := rfl
  have hlost : ∀ s'' : State, s''.auctions = s.auctions.close timestamp newname bid →
    ¬ rexAvailable s.pools →
      lostBids s s'' = bid.highBid := by
    intro s'' ha hn
    rw [lostBids, if_neg hn, ha]
    rw [Table.total_congr (g := fun n b => if n = newname then b.highBid else 0) fun n b hb => ?_]
    · exact (Table.total_single (fun _ (b : NameBid) => b.highBid) _ _).trans
        (Table.valueAt_some hbid)
    · simp only [Auctions.close, Table.lookup_insert']
      by_cases hne : n = newname
      · subst hne
        rw [hbid] at hb
        cases hb
        simp [hpos]
      · rw [if_neg hne, if_neg hne, if_neg]
        rintro ⟨hb0, heq⟩
        rw [hb, Option.some.injEq] at heq
        have := congrArg NameBid.highBid heq
        dsimp only at this
        omega
  rw [h.result]
  rcases channelNamebidToRex_cases bid.highBid
    { s with auctions := s.auctions.close timestamp newname bid }
    with ⟨hn, he⟩ | ⟨p, hp, hrex, he⟩
  · rw [he, hlost _ rfl hn]
    simp only [namesSurplus, State.coreBalance, hopen, hrefunds]
    omega
  · have hav : rexAvailable s.pools := by
      rw [rexAvailable, hp]
      exact decide_eq_true hrex
    rw [he, lostBids, if_pos hav]
    rw [namesSurplus, namesSurplus,
      bidProceeds_some (p := { p with namebidProceeds := p.namebidProceeds + bid.highBid }) rfl,
      bidProceeds_some hp]
    simp only [State.coreBalance, State.setPool, hopen, hrefunds]
    omega

/-- The action neither carries the authority of `eosio.names` nor transfers tokens to it. -/
def Label.NamesQuiet (l : Label) : Prop :=
  namesAccount ∉ l.auth ∧
    match l.action with
    | .transfer _ dest _ _ => dest ≠ namesAccount
    | _ => True

omit [FloatOps] in
lemma Label.NamesQuiet.quiet {l : Label} (h : l.NamesQuiet) (hm : ¬ l.action.MovesBids) :
    l.Quiet .names := by
  obtain ⟨auth, action⟩ := l
  cases action with
  | bidname => exact absurd trivial hm
  | bidrefund => exact absurd trivial hm
  | _ => exact ⟨h, hm⟩

theorem step.bidsInv {l : Label} (h : step now l s s') (hb : BidsInv s.pools) :
    BidsInv s'.pools := by
  obtain ⟨mid, hm, he⟩ := exec_decomposed h
  rcases hm with rfl | hp
  · exact he.bidsInv hb
  · exact he.bidsInv (hp.namesKept hb).2

omit [FloatOps] in
/-- A bid pays in what it raises the open bids and the refunds by. -/
lemma bidname_ledger {ctx : Context} {bidder newname : Name} {bid : Asset}
    (h : bidname ctx bidder newname bid s = .ok s') :
    namesSurplus s' = namesSurplus s + lostBids s s' := by
  simp only [bidname, requireAuth, bind_ok, check_ok, exists_const, pure_ok] at h
  obtain ⟨-, -, -, -, -, -, hsym, hpos, s1, h1, s2, h2, rfl⟩ := h
  obtain ⟨t, rfl, -, -, hpaid, -⟩ := inlineTransfer_ok h1
  have hbal := (hpaid (by rw [hsym])).dest
  have hlost : ∀ s'' : State, s''.auctions.bids = s.auctions.bids.insert newname
    ⟨bidder, bid.amount, ctx.now.usec⟩ →
      lostBids s s'' = 0 := by
    intro s'' hs
    refine lostBids_eq_zero fun n b hb hb0 heq => ?_
    rw [hs, Table.lookup_insert'] at heq
    split_ifs at heq with hn
    · have := congrArg NameBid.highBid (Option.some.inj heq)
      dsimp only at this
      omega
    · rw [hb] at heq
      have := congrArg NameBid.highBid (Option.some.inj heq)
      dsimp only at this
      omega
  unfold outbid at h2
  split at h2
  · rename_i hnone
    cases h2
    rw [hlost _ rfl, namesSurplus, namesSurplus]
    simp only [State.coreBalance, State.setBid, openBids, bidRefundTotal,
      Table.total_insert_new _ _ hnone, if_pos hpos]
    omega
  · rename_i current hsome
    simp only [bind_ok, check_ok, exists_const, pure_ok] at h2
    obtain ⟨hcur, -, -, rfl⟩ := h2
    rw [hlost _ rfl, namesSurplus, namesSurplus]
    simp only [State.coreBalance, State.setBid, State.setBidRefund, openBids, bidRefundTotal,
      Table.total_insert_old _ _ hsome, if_pos hpos, if_pos hcur, Table.total_insert]
    have howed : Table.valueAt (fun _ amount => amount) s.auctions.refunds
      (newname, current.highBidder) =
        (s.auctions.refunds.lookup (newname, current.highBidder)).getD 0 := by simp [Table.valueAt]
    rw [howed]
    omega

omit [FloatOps] in
lemma bidrefund_ledger {bidder newname : Name} (h : bidrefund bidder newname s = .ok s') :
    namesSurplus s' = namesSurplus s + lostBids s s' := by
  simp only [bidrefund, bind_ok, require_ok, pure_ok] at h
  obtain ⟨amount, hrow, s1, h1, rfl⟩ := h
  obtain ⟨t, rfl, -, -, hpaid, -⟩ := inlineTransfer_ok h1
  have hbal := (hpaid rfl).source
  dsimp only at hbal
  rw [lostBids_of_same (by rfl), namesSurplus, namesSurplus]
  simp only [State.coreBalance, openBids, bidRefundTotal, Table.total_erase,
    Table.valueAt_some hrow]
  omega

omit [FloatOps] in
/-- A claim removes a closed auction, which no longer counts. -/
lemma newaccount_ledger {ctx : Context} {creator newAccountName : Name}
    (h : newaccount ctx creator newAccountName s = .ok s') :
    namesSurplus s' = namesSurplus s + lostBids s s' := by
  simp only [newaccount, requireAuth, bind_ok, check_ok, exists_const, pure_ok] at h
  obtain ⟨-, -, -, -, s1, h1, -, rfl⟩ := h
  have hsame : ∀ {s'' : State}, s''.auctions.bids = s.auctions.bids →
    s''.auctions.refunds = s.auctions.refunds →
      s''.coreBalance namesAccount = s.coreBalance namesAccount → s''.pools = s.pools →
      namesSurplus s'' = namesSurplus s + lostBids s s'' := by
    intro s'' hb hr hc hp
    rw [lostBids_of_same hb, namesSurplus, namesSurplus, openBids, openBids, bidRefundTotal,
      bidRefundTotal, hb, hr, hc, hp]
    omega
  unfold claimName at h1
  split_ifs at h1
  · simp only [bind_ok, require_ok, check_ok, exists_const, pure_ok] at h1
    obtain ⟨current, hrow, -, hclosed, rfl⟩ := h1
    have hlost : ∀ s'' : State, s''.auctions.bids = s.auctions.bids.erase newAccountName →
      lostBids s s'' = 0 := by
      intro s'' hs
      refine lostBids_eq_zero fun n b hb hb0 heq => ?_
      rw [hs, Table.lookup_erase'] at heq
      split_ifs at heq
      rw [hb] at heq
      have := congrArg NameBid.highBid (Option.some.inj heq)
      dsimp only at this
      omega
    rw [hlost _ rfl, namesSurplus, namesSurplus]
    simp only [State.coreBalance, State.setLimits, openBids, bidRefundTotal, Table.total_erase,
      Table.valueAt_some hrow, if_neg (show ¬ 0 < current.highBid by omega)]
    omega
  · simp only [bind_ok, check_ok, exists_const, pure_ok] at h1
    obtain ⟨-, rfl⟩ := h1
    exact hsame rfl rfl rfl rfl
  · cases h1
    exact hsame rfl rfl rfl rfl

lemma BlockPart.namesKept (h : BlockPart now Promise.block s s') (hb : BidsInv s.pools) :
    NamesKept s s' ∧ s'.pools = s.pools := by
  refine ⟨h.effects.namesKept (by simp [Promise.block, Custodian.account, namesAccount, bpayAccount]) id hb, ?_⟩
  obtain ⟨t, v, p, n, a, rfl⟩ := h.frame
  rfl

lemma onblock_ledger {ctx : Context} {b : Block} (hb : BidsInv s.pools)
    (h : onblock ctx b s = .ok s') : namesSurplus s' = namesSurplus s + lostBids s s' := by
  obtain ⟨s₁, s₂, h₁, hclose, h₂⟩ :=
    onblock_parts (π := Promise.block) trivial (fun hq => hq rfl) (fun _ _ _ => id) h
  obtain ⟨hk₁, hp₁⟩ := h₁.namesKept hb
  have hb₁ := h₁.effects.bidsInv hb
  have hb₂ : BidsInv s₂.pools := by
    rcases hclose with rfl | rfl
    · exact hb₁
    · exact closeAuction_bidsInv _ hb₁
  obtain ⟨hk₂, hp₂⟩ := h₂.namesKept hb₂
  have hsame : lostBids s s' = lostBids s₁ s₂ := by
    rw [lostBids, lostBids, hp₁, hk₁.auctions, hk₂.auctions]
  rw [hk₂.surplus, hsame, ← hk₁.surplus]
  rcases hclose with rfl | rfl
  · rw [lostBids_of_same rfl, add_zero]
  · rcases closeAuction_cases b.header.timestamp ctx.now s₁ with hc | ⟨newname, bid, hc⟩
    · rw [hc, lostBids_of_same rfl, add_zero]
    · exact hc.ledger

/-- Every action keeps the custody of `eosio.names`, except for bids that are lost. -/
theorem step.namesLedger {l : Label} (h : step now l s s') (hq : l.NamesQuiet)
    (hb : BidsInv s.pools) : namesSurplus s' = namesSurplus s + lostBids s s' := by
  have hother : ¬ l.action.ChangesAuctions → ¬ l.action.MovesBids →
    namesSurplus s' = namesSurplus s + lostBids s s' := by
    intro hn hm
    obtain ⟨mid, hmid, he⟩ := exec_decomposed h
    have hkept : NamesKept s s' := by
      rcases hmid with rfl | hp
      · exact he.namesKept (hq.quiet hm) hn hb
      · obtain ⟨hk, hb'⟩ := hp.namesKept hb
        have hk' := he.namesKept (hq.quiet hm) hn hb'
        exact ⟨hk'.auctions.trans hk.auctions, hk'.surplus.trans hk.surplus⟩
    rw [hkept.surplus, lostBids_of_same (by rw [hkept.auctions]), add_zero]
  obtain ⟨auth, action⟩ := l
  cases action with
  | bidname bidder newname bid => exact bidname_ledger h
  | bidrefund bidder newname => exact bidrefund_ledger h
  | newaccount creator newAccountName => exact newaccount_ledger h
  | onblock b => exact onblock_ledger hb h
  | _ => exact hother id id

/-- What the maintenance run does with waiting proceeds: it moves them to `eosio.rex` and into the
return pool, and only then clears them. -/
structure ProceedsChanneled (now : BlockTimestamp) (s s' : State) : Prop where
  names : s'.coreBalance namesAccount = s.coreBalance namesAccount - bidProceeds s.pools
  rex : s'.coreBalance rexAccount = s.coreBalance rexAccount + bidProceeds s.pools
  credited : ∃ r r' s₁, updateRexPool now s.pools = .ok r ∧
    addToRexReturnPool now (bidProceeds s.pools) r = .ok r' ∧
    channelNamebids now { s with pools := r } = .ok s₁ ∧ s₁.pools.rexretpool = r'.rexretpool ∧
    s₁.pools.retbuckets = r'.retbuckets
  cleared : bidProceeds s'.pools = 0

omit [FloatOps] in
lemma runrex_channels {max : ℕ} (hb : BidsInv s.pools) (hpos : 0 < bidProceeds s.pools)
    (h : runrex now max s = .ok s') : ProceedsChanneled now s s' := by
  simp only [runrex, bind_ok, check_ok, exists_const] at h
  obtain ⟨-, r, hr, s1, h1, s2, h2, s3, h3, h4⟩ := h
  have hrest : BidsKept s1 s' :=
    (processLoans_bidsKept h2).trans ((processLoans_bidsKept h3).trans (processOrders_bidsKept h4))
  have hb' : BidsInv r := hb.of_marks (updateRexPool_marks hr)
  have hpro : bidProceeds r = bidProceeds s.pools := bidProceeds_of_marks (updateRexPool_marks hr)
  have hfull := h1
  simp only [channelNamebids, bind_ok, require_ok] at h1
  obtain ⟨p, hp, h1⟩ := h1
  have hpp : p.namebidProceeds = bidProceeds s.pools := (bidProceeds_some hp).symm.trans hpro
  have havail : rexAvailable r := by
    rw [rexAvailable, show r.rexpool = some p from hp]
    exact decide_eq_true ((hb' p hp).2 (by omega))
  rw [if_pos (by omega)] at h1
  simp only [bind_ok, require_ok, pure_ok] at h1
  obtain ⟨s₂, h₂, q, hq, rfl⟩ := h1
  unfold channelToRex at h₂
  rw [if_pos havail] at h₂
  simp only [bind_ok] at h₂
  obtain ⟨r', hr', h₂⟩ := h₂
  obtain ⟨t, rfl, -, -, hpaid, -⟩ := inlineTransfer_ok h₂
  have hp' := hpaid rfl
  have hsource := hp'.source
  have hdest := hp'.dest
  dsimp only at hsource hdest
  refine ⟨?_, ?_, ⟨r, r', _, hr, hpp ▸ hr', hfull, rfl, rfl⟩, ?_⟩
  · rw [State.coreBalance, State.coreBalance, hrest.token, hrest.core, ← hpp]
    exact hsource
  · rw [State.coreBalance, State.coreBalance, hrest.token, hrest.core, ← hpp]
    exact hdest
  · rw [bidProceeds, hrest.proceeds]
    rfl

/-- No auction is open and no refund waits. -/
def NoAuctions (a : Auctions) : Prop := a.bids = ∅ ∧ a.refunds = ∅

/-- Over whole runs, `eosio.names` holds exactly the open bids, the waiting refunds, the proceeds
in the pool and the bids that were lost. Proceeds wait only while there is REX, so that a
maintenance run that clears them has moved them. -/
theorem name_custody {t₀ t : BlockTimestamp} {s₀ : State} {tr : List (BlockTimestamp × Label)}
    (hg : Genesis s₀) (hempty : NoAuctions s₀.auctions) (hrun : TimedRun step t₀ s₀ tr t s) :
    ((∀ x ∈ tr, x.2.NamesQuiet) →
      ∃ lost, TimedRun (ledgerStep step fun _ _ s s' => lostBids s s') t₀ (s₀, 0) tr t (s, lost) ∧
        s.coreBalance namesAccount = s₀.coreBalance namesAccount +
          (openBids s.auctions + bidRefundTotal s.auctions + bidProceeds s.pools + lost)) ∧
    (0 < bidProceeds s.pools → ∃ p, s.pools.rexpool = some p ∧ 0 < p.totalRex) ∧
    ∀ u max s', 0 < bidProceeds s.pools → runrex u max s = .ok s' → ProceedsChanneled u s s' := by
  have hb₀ : BidsInv s₀.pools := by
    intro p hp
    rw [hg.pools] at hp
    cases hp
  have hb : BidsInv s.pools :=
    hrun.stateInvariant (fun _ s => BidsInv s.pools) hb₀ fun hi _ hs => hs.bidsInv hi
  refine ⟨fun hq => ?_, fun hpos => ?_, fun u max s' hpos h => runrex_channels hb hpos h⟩
  · obtain ⟨lost, hl⟩ := hrun.ledger (fun _ _ s s' => lostBids s s') 0
    refine ⟨lost, hl, ?_⟩
    have hinv : BidsInv s.pools ∧ namesSurplus s = namesSurplus s₀ + lost := by
      refine hl.invariant (fun _ _ x => BidsInv x.1.pools ∧
        namesSurplus x.1 = namesSurplus s₀ + x.2) Label.NamesQuiet
        ⟨hb₀, (add_zero _).symm⟩ (fun hi _ hquiet hs => ⟨hs.1.bidsInv hi.1, ?_⟩) hq
      have hentry := hs.2
      rw [hs.1.namesLedger hquiet hi.1, hi.2, hentry]
      exact add_assoc _ _ _
    have h0 : namesSurplus s₀ = s₀.coreBalance namesAccount := by
      simp [namesSurplus, openBids, bidRefundTotal, bidProceeds, hempty.1, hempty.2, hg.pools]
    have hsur := hinv.2
    rw [h0, namesSurplus] at hsur
    omega
  · cases hp : s.pools.rexpool with
    | none =>
      rw [bidProceeds, hp] at hpos
      exact absurd hpos (lt_irrefl 0)
    | some p =>
      rw [bidProceeds_some hp] at hpos
      exact ⟨p, rfl, (hb p hp).2 hpos⟩

omit [FloatOps]

def tea : Name := ⟨0xca8c000000000000⟩

def cat : Name := ⟨0x41b2000000000000⟩

def auctionState : State := { launchState with isAccount := fun n => n ≠ tea ∧ n ≠ cat }

/-- Bob outbids Alice and wins while there is no REX; two days later Alice wins after buying REX. -/
def auctionTrace : List (BlockTimestamp × Label) :=
  [(launchTime, ⟨[alice], .bidname alice tea ⟨10000, tlos⟩⟩),
    (launchTime, ⟨[bob], .bidname bob tea ⟨20000, tlos⟩⟩),
    (days 15, ⟨[systemAccount], .onblock (plainBlock 1 (days 15))⟩),
    (days 15, ⟨[alice], .bidname alice cat ⟨5000, tlos⟩⟩),
    (days 15, ⟨[alice], .deposit alice ⟨1000000, tlos⟩⟩),
    (days 15, ⟨[alice], .buyrex alice ⟨1000000, tlos⟩⟩),
    (days 17, ⟨[systemAccount], .onblock (plainBlock 2 (days 17))⟩)]

def auctionEnd : State :=
  stateAfter (fun now (l : Label) => @exec launchFloats ⟨now, l.auth⟩ l.action)
    auctionTrace auctionState

lemma auctionTrace_run : TimedRun (@step launchFloats) launchTime auctionState auctionTrace
    ((auctionTrace.getLast?.map Prod.fst).getD launchTime) auctionEnd :=
  letI := launchFloats
  timedRun_stateAfter (by decide) (by decide +kernel)

lemma auctionState_genesis : Genesis auctionState := by
  refine ⟨rfl, rfl, rfl, rfl, fun k a => ?_, rfl, by decide⟩
  cases k <;> rfl

theorem auctionTrace_custody :
    (∃ lost, auctionEnd.coreBalance namesAccount = auctionState.coreBalance namesAccount +
      (openBids auctionEnd.auctions + bidRefundTotal auctionEnd.auctions +
        bidProceeds auctionEnd.pools + lost)) ∧
    (∃ p, auctionEnd.pools.rexpool = some p ∧ 0 < p.totalRex) ∧
    ∃ s', runrex (days 17) 2 auctionEnd = .ok s' ∧ ProceedsChanneled (days 17) auctionEnd s' := by
  have hq : ∀ x ∈ auctionTrace, x.2.NamesQuiet := by
    simp [auctionTrace, Label.NamesQuiet, namesAccount, alice, bob, systemAccount]
  have hpos : 0 < bidProceeds auctionEnd.pools := by decide +kernel
  have hrun : (runrex (days 17) 2 auctionEnd).isOk = true := by decide +kernel
  let := launchFloats
  obtain ⟨hledger, hrex, hchannel⟩ := name_custody auctionState_genesis ⟨rfl, rfl⟩ auctionTrace_run
  obtain ⟨lost, -, hl⟩ := hledger hq
  obtain ⟨s', hs'⟩ := exists_ok hrun
  exact ⟨⟨lost, hl⟩, hrex hpos, s', hs', hchannel _ 2 _ hpos hs'⟩

end
end TelosSystem
