import TelosSystem.ProducerEffects

/-! Every action as an optional purchase and a chain of effects. -/
namespace TelosSystem
open Ledger

/-- The action does not spend the tokens of `eosio.rex` outside REX, and channels only core
tokens to REX. -/
def Action.RexSafe (core : Symbol) : Action → Prop
  | .buyram payer _ _ => payer ≠ rexAccount
  | .buyrambytes payer _ _ => payer ≠ rexAccount
  | .delegatebw fromAccount _ _ _ _ => fromAccount ≠ rexAccount
  | .bidname bidder _ _ => bidder ≠ rexAccount
  | .transfer source _ _ _ => source ≠ rexAccount
  | .distviarex _ amount => amount.symbol = core
  | _ => True

/-- The action neither carries the authority of `eosio.stake` nor sends tokens to it from
outside the staking actions. -/
def Label.StakeQuiet (l : Label) : Prop :=
  stakeAccount ∉ l.auth ∧
    match l.action with
    | .transfer _ dest _ _ => dest ≠ stakeAccount
    | .bidrefund bidder _ => bidder ≠ stakeAccount
    | _ => True

def Action.isConfig : Action → Prop
  | .cfgpowerup _ => True
  | _ => False

def Action.isPowerup : Action → Prop
  | .powerup .. => True
  | _ => False

/-- The action neither carries the authority of `eosio.ram` nor sends tokens to it from
outside the trades of RAM. -/
def Label.RamQuiet (l : Label) : Prop :=
  ramAccount ∉ l.auth ∧
    match l.action with
    | .transfer _ dest _ _ => dest ≠ ramAccount
    | .bidrefund bidder _ => bidder ≠ ramAccount
    | _ => True

def Action.Restakes : Action → Prop
  | .withdraw .. => True
  | .buyrex .. => True
  | .unstaketorex .. => True
  | .sellrex .. => True
  | .updaterex .. => True
  | .consolidate .. => True
  | .mvtosavings .. => True
  | .mvfrsavings .. => True
  | .closerex .. => True
  | .delegatebw .. => True
  | .undelegatebw .. => True
  | .voteproducer .. => True
  | .voteupdate .. => True
  | _ => False

def Action.CastsBallot : Action → Prop
  | .voteproducer .. => True
  | .voteupdate .. => True
  | _ => False

def Action.TradesRam : Action → Prop
  | .buyram .. => True
  | .buyrambytes .. => True
  | .sellram .. => True
  | .setram .. => True
  | .setramrate .. => True
  | _ => False

/-- The action neither carries the authority of `a` nor sends tokens to it as a transfer or a
refund of a bid. -/
def Label.Untouched (l : Label) (a : Name) : Prop :=
  a ∉ l.auth ∧
    match l.action with
    | .transfer _ dest _ _ => dest ≠ a
    | .bidrefund bidder _ => bidder ≠ a
    | _ => True

def Action.MovesBids : Action → Prop
  | .bidname .. => True
  | .bidrefund .. => True
  | _ => False

def Action.ChangesAuctions : Action → Prop
  | .newaccount .. => True
  | .onblock _ => True
  | a => a.MovesBids

def Action.Produces : Action → Prop
  | .claimrewards _ => True
  | .onblock _ => True
  | _ => False

def Action.Rents : Action → Prop
  | .rent .. => True
  | _ => False

/-- What the action may replace the row of a producer by. -/
def Action.Rewrites : Action → RowRule
  | .regproducer producer _ location, n, old, new => n = producer ∧ new = registered location old
  | .unregprod producer, n, old, new => n = producer ∧ ∃ p, old = some p ∧ new = p.deactivate
  | .unregreason producer _, n, old, new => n = producer ∧ ∃ p, old = some p ∧ new = p.deactivate
  | .rmvproducer producer, n, old, new => n = producer ∧ ∃ p, old = some p ∧ new = p.deactivate
  | .votebpout bp penaltyHours, n, old, new =>
    n = bp ∧ ∃ now p, old = some p ∧ new = p.kick now .bpsVoting penaltyHours.toNat
  | .onblock _, n, old, new => EditedRow RowEdit n old new
  | _, _, _, _ => False

def Label.Quiet (l : Label) : Custodian → Prop
  | .stake => l.StakeQuiet
  | .ram => l.RamQuiet ∧ ¬ l.action.TradesRam
  | .names => l.Untouched namesAccount ∧ ¬ l.action.MovesBids
  | .bpay => l.Untouched bpayAccount ∧ ¬ l.action.Produces

/-- What an action promises on a chain with the given core symbol. -/
def Label.promise (l : Label) (core : Symbol) : Promise :=
  ⟨l.action.RexSafe core, l.Quiet, (· ∈ l.auth), l.action.Rewrites, l.action.CastsBallot,
    l.action.isConfig, l.action.isPowerup, l.action.Restakes, l.action.TradesRam,
    l.action.ChangesAuctions, l.action.Produces,
    l.action.Rents⟩

lemma Label.Quiet.untouched {l : Label} {c : Custodian} (h : l.Quiet c) :
    l.Untouched c.account := by
  obtain ⟨auth, action⟩ := l
  cases c with
  | stake => cases action <;> exact h
  | ram => cases action <;> exact h.1
  | names => exact h.1
  | bpay => exact h.1

lemma Label.Quiet.unauthorized {l : Label} {c : Custodian} (h : l.Quiet c) : c.account ∉ l.auth :=
  h.untouched.1

lemma openRequest_collectOrder (owner : Name) (t : Table Name RexOrder) :
    openRequest owner (collectOrder owner t) = openRequest owner t := by
  unfold openRequest collectOrder
  cases hl : t.lookup owner with
  | none => simp [hl]
  | some o =>
    by_cases ho : o.isOpen
    · simp [ho, hl]
    · simp [ho]

lemma collectOrder_isOpen {owner : Name} {t : Table Name RexOrder} {o : RexOrder}
    (h : (collectOrder owner t).lookup owner = some o) : o.isOpen = true := by
  unfold collectOrder at h
  cases hl : t.lookup owner with
  | none => simp [hl] at h
  | some o' =>
    rw [hl] at h
    dsimp only at h
    split_ifs at h with ho
    · rw [hl] at h
      cases h
      exact ho
    · simp at h

lemma restaked_reshaped {now : BlockTimestamp} {rb : RexBalance} (h : rb.WellFormed now)
    {reserved : ℤ} (hr : reserved ≤ rb.maturedRex) (stake : ℤ) :
    Reshaped now reserved rb { rb with voteStake := stake } := by
  obtain ⟨bs, sv, hf⟩ := h
  exact ⟨⟨bs, sv, ⟨hf.buckets, hf.maturing, hf.savings_nonneg, hf.matured_nonneg, hf.total⟩⟩, rfl,
    hr,
    fun _ _ _ => le_refl _⟩

/-- The RAM limit of an account can be set: it exists, or its RAM is left alone. -/
def State.HasRamLimit (s : State) (account : Name) : Prop :=
  s.isAccount account = true ∨ managed s.voting account ramManaged = true

lemma setRamLimit_ok {s s' : State} {account : Name} {ramBytes : ℤ}
    (h : s.setRamLimit account ramBytes = .ok s') :
    s.HasRamLimit account ∧ ∃ limits, s' = { s with resources := { s.resources with limits } } := by
  unfold State.setRamLimit at h
  split_ifs at h with hm
  · cases h
    exact ⟨Or.inr hm, s.resources.limits, rfl⟩
  · simp only [getResourceLimits, bind_ok, check_ok, exists_const, pure_ok] at h
    obtain ⟨old, ⟨haccount, -⟩, rfl⟩ := h
    exact ⟨Or.inl haccount, _, rfl⟩

lemma setRamLimit_total {s : State} {account : Name} (ramBytes : ℤ) (h : s.HasRamLimit account) :
    ∃ s', s.setRamLimit account ramBytes = .ok s' := by
  unfold State.setRamLimit
  by_cases hm : managed s.voting account ramManaged = true
  · exact ⟨s, if_pos hm⟩
  · rw [if_neg hm]
    simp only [getResourceLimits, bind_ok, check_ok, exists_const, pure_ok]
    exact ⟨_, _, ⟨h.resolve_right hm, rfl⟩, rfl⟩

/-- Writing a row that differs only in its RAM bytes keeps the staked totals. -/
lemma setUserRam_weights {account : Name} {tot : UserResources} (s : State)
    (hn : tot.netWeight = totalWeight s.resources .net account)
    (hc : tot.cpuWeight = totalWeight s.resources .cpu account) (limits : Name → ResourceLimits)
    (k : LoanKind) (a : Name) :
    totalWeight { (s.setUserRam account tot).resources with limits } k a =
      totalWeight s.resources k a := by
  by_cases ha : a = account
  · subst ha
    cases k <;> simp [totalWeight, State.setUserRam, Table.valueAt] at hn hc ⊢ <;> assumption
  · simp [totalWeight, State.setUserRam, Table.valueAt, AList.lookup_insert_ne ha]

lemma ramFee_le {x : ℤ} (h : 1 < x) : ramFee x ≤ x := by
  unfold ramFee
  rw [Int.tdiv_eq_ediv_of_nonneg (by omega)]
  omega

lemma channelToRex_setPowerupState {now : BlockTimestamp} {payer : Name} {amount : Asset}
    {required : Bool} {s s' : State} (st : PowerupState)
    (h : channelToRex now payer amount required s = .ok s') :
    channelToRex now payer amount required (s.setPowerupState st) =
      .ok (s'.setPowerupState st) := by
  unfold channelToRex at h ⊢
  split_ifs at h with hav
  · rw [if_pos (show rexAvailable (s.setPowerupState st).pools = true from hav)]
    simp only [bind_ok, State.inlineTransfer, pure_ok] at h ⊢
    obtain ⟨r, hr, t, ht, rfl⟩ := h
    exact ⟨r, hr, t, ht, rfl⟩
  · rw [if_neg (show ¬ rexAvailable (s.setPowerupState st).pools = true from hav)]
    simp only [bind_ok, check_ok, exists_const, pure_ok] at h ⊢
    obtain ⟨hr, rfl⟩ := h
    exact ⟨hr, rfl⟩

section
variable [FloatOps] {π : Promise} {ctx : Context} {s s' : State}

lemma Effects.decomposed {now : BlockTimestamp} (h : Effects now π s s') :
    Decomposed now π s s' := ⟨s, Or.inl rfl, h⟩

lemma deposit_effects {owner : Name} {amount : Asset} (hq : ∀ c, π.quiet c → c.account ∉ ctx.auth)
    (h : deposit ctx owner amount s = .ok s') : Effects ctx.now π s s' := by
  simp only [deposit, requireAuth, bind_ok, check_ok, exists_const] at h
  obtain ⟨ha, hsym, -, s1, h1, h2⟩ := h
  obtain ⟨t, rfl, -, -, hpaid, -⟩ := inlineTransfer_ok h1
  obtain ⟨-, funds, rfl, hf⟩ := transferToFund_ok h2
  exact (Effect.deposit (hpaid (by rw [hsym])) hf fun c hc he => hq c hc (he ▸ ha)).single

lemma withdraw_effects {owner : Name} {amount : Asset} (hre : π.restake)
    (hact : ∀ a ∈ ctx.auth, π.actor a) (hq : ∀ c, π.quiet c → c.account ∉ ctx.auth)
    (h : withdraw ctx owner amount s = .ok s') : Effects ctx.now π s s' := by
  simp only [withdraw, requireAuth, bind_ok, check_ok, exists_const] at h
  obtain ⟨ha, hsym, -, ⟨q, s1⟩, h1, s2, h2, h3⟩ := h
  have hc : s1.core = s.core := by
    obtain ⟨-, funds, v, rfl, -⟩ := updateRexAccount_ok π.rows π.ballots h1
    rfl
  refine (updateRexAccount_effects hre (hact owner ha) h1).trans ?_
  obtain ⟨-, funds, rfl, hf⟩ := transferFromFund_ok h2
  obtain ⟨t, rfl, -, -, hpaid, -⟩ := inlineTransfer_ok h3
  have hp : Paid s1.core.code rexAccount owner amount.amount s1.token t :=
    hpaid (by rw [hsym]; exact (congrArg _ hc).symm)
  exact (Effect.withdraw hp hf fun c hc he => hq c hc (he ▸ ha)).single

lemma buyrex_decomposed {owner : Name} {amount : Asset} (hre : π.restake)
    (hact : ∀ a ∈ ctx.auth, π.actor a) (h : buyrex ctx owner amount s = .ok s') :
    Decomposed ctx.now π s s' := by
  simp only [buyrex, requireAuth, bind_ok, check_ok, exists_const, pure_ok] at h
  obtain ⟨ha, -, hpos, s1, h1, ⟨d, s2⟩, h2, s3, h3, ⟨q, s4⟩, h4, rfl⟩ := h
  obtain ⟨-, funds, rfl, hf⟩ := transferFromFund_ok h1
  refine ⟨s2, Or.inr ⟨⟨owner, amount.amount, d, _, hact owner ha, hpos, Funding.fund hf, h2⟩, hre⟩,
    ?_⟩
  exact (runrex_effects h3).1.trans (updateRexAccount_effects hre (hact owner ha) h4)

lemma unstaketorex_decomposed {owner receiver : Name} {fromNet fromCpu : Asset} (hre : π.restake)
    (hact : ∀ a ∈ ctx.auth, π.actor a)
    (h : unstaketorex ctx owner receiver fromNet fromCpu s = .ok s') :
    Decomposed ctx.now π s s' := by
  simp only [unstaketorex, requireAuth, bind_ok, check_ok, exists_const, pure_ok] at h
  obtain ⟨ha, -, hamt, s1, h1, s2, h2, ⟨d, s3⟩, h3, s4, h4, ⟨q, s5⟩, h5, rfl⟩ := h
  obtain ⟨t, rfl, -, hpos, hpaid, -⟩ := inlineTransfer_ok h2
  refine ⟨s3, Or.inr ⟨⟨owner, fromNet.amount + fromCpu.amount, d, _, hact owner ha, hpos,
    Funding.stake hamt.1 hamt.2.1 rfl h1 (hpaid rfl), h3⟩, hre⟩, ?_⟩
  exact (runrex_effects h4).1.trans (updateRexAccount_effects hre (hact owner ha) h5)

lemma sellMatured_effects {now : BlockTimestamp} {owner : Name} {rex : ℤ} {rb : RexBalance}
    (hre : π.restake) (hact : π.actor owner) (hs : s.pools.Settled)
    (hb : s.rex.balances.lookup owner = some rb) (hpos : 0 < rex)
    (h : sellMatured now owner rex rb s = .ok s') : Effects now π s s' := by
  simp only [sellMatured, bind_ok, check_ok, exists_const, require_ok, pure_ok] at h
  obtain ⟨hle, ⟨order, s1⟩, h1, -, ⟨pending, s2⟩, h2, ⟨pending', s3⟩, h3, row, hrow, hres, rfl⟩ := h
  have hmat : Effect now π s (s.setBalance owner (rb.processRexMaturities now)) :=
    Effect.reshape hb (fun hw _ hr => processRexMaturities_reshaped hw hr) (absurd hact)
      (fun _ => rfl) (Or.inl rfl)
  have hb1 : (s.setBalance owner (rb.processRexMaturities now)).rex.balances.lookup owner =
      some (rb.processRexMaturities now) := AList.lookup_insert _
  refine hmat.single.trans ?_
  simp only [fillRexOrder, bind_ok, require_ok, check_ok, exists_const] at h1
  obtain ⟨p, hp, hz, h1⟩ := h1
  obtain ⟨rfl, funds, v, rfl, hv, hf⟩ := updateRexAccount_ok π.rows π.ballots h2
  split_ifs at h1 with hfill
  · rw [pure_ok] at h1
    cases h1
    rw [queueOrder, if_pos rfl] at h3
    cases h3
    rw [State.recordSale, State.setBalance, AList.lookup_insert] at hrow
    cases hrow
    exact (Effect.sell hre hact hb1 hp hpos hle ⟨hz, hfill⟩ (hs p hp) hv hf hres rfl).single
  · rw [pure_ok] at h1
    cases h1
    simp only [queueOrder, Bool.false_eq_true, if_false, bind_ok, check_ok,
      exists_const, pure_ok] at h3
    obtain ⟨-, h3⟩ := h3
    cases h3
    rw [zero_add] at hf
    have hcol : Effect now π (s.setBalance owner (rb.processRexMaturities now)) _ :=
      Effect.collect hre hact hv hf
    have hsame : row = rb.processRexMaturities now := Option.some.inj (hrow.symm.trans hb1)
    rw [hsame] at hres
    refine hcol.single.trans (Effect.single ?_)
    have hb2 : ({ (s.setBalance owner (rb.processRexMaturities now)) with
        voting := v
        rex := { (s.setBalance owner (rb.processRexMaturities now)).rex with
          funds, orders := collectOrder owner s.rex.orders } } : State).rex.balances.lookup owner =
        some (rb.processRexMaturities now) := hb1
    exact Effect.enqueue hact hb2 (fun o ho => collectOrder_isOpen ho) hpos hres

lemma sellrex_effects {owner : Name} {rex : Asset} (hre : π.restake)
    (hact : ∀ a ∈ ctx.auth, π.actor a) (h : sellrex ctx owner rex s = .ok s') :
    Effects ctx.now π s s' := by
  simp only [sellrex, positiveRex, requireAuth, bind_ok, check_ok, exists_const, require_ok] at h
  obtain ⟨ha, s1, h1, rb, hb, ⟨hpos, -⟩, h2⟩ := h
  obtain ⟨hrun, hs⟩ : Effects ctx.now π s s1 ∧ s1.pools.Settled := runrex_effects h1
  exact hrun.trans (sellMatured_effects hre (hact owner ha) hs hb hpos h2)

lemma cnclrexorder_effects {owner : Name} (hact : ∀ a ∈ ctx.auth, π.actor a)
    (h : cnclrexorder ctx owner s = .ok s') : Effects ctx.now π s s' := by
  simp only [cnclrexorder, requireAuth, bind_ok, check_ok, exists_const, require_ok, pure_ok] at h
  obtain ⟨ha, o, ho, hopen, rfl⟩ := h
  exact (Effect.cancel (hact owner ha) ho hopen).single

lemma openLoan_effects {now : BlockTimestamp} {k : LoanKind} {owner receiver : Name}
    {payment fund : ℤ} (hrents : π.rents) (hav : rexAvailable s.pools) (hpos : 0 < payment)
    (hfund : 0 ≤ fund) (h : openLoan now k owner receiver payment fund s = .ok s') :
    Effects now π s s' := by
  simp only [openLoan, bind_ok, check_ok, exists_const, require_ok] at h
  obtain ⟨s1, h1, p, hp, hgain, r, hr, p', hp', hfresh, h2⟩ := h
  obtain ⟨-, funds, rfl, hf⟩ := transferFromFund_ok h1
  obtain ⟨resources, rfl, hm⟩ := updateLoanLimits_ok h2
  let loan : RexLoan :=
    ⟨owner, receiver, payment, fund, getBancorOutput p.totalRent p.totalUnlent payment,
      now.usec + loanTerm⟩
  have heff : Effect now π s (s.withLoans k ((s.rex.loans k).insert p'.loanNum loan)
    funds r resources) :=
    Effect.openLoan hfresh hav hp hpos hfund rfl hgain hr hf hm hrents
  exact heff.single

lemma rent_effects {k : LoanKind} {owner receiver : Name} {payment fund : Asset} (hrents : π.rents)
    (h : rent k ctx owner receiver payment fund s = .ok s') : Effects ctx.now π s s' := by
  simp only [rent, requireAuth, bind_ok, check_ok, exists_const] at h
  obtain ⟨-, s1, h1, hav, -, ⟨hpos, hfund⟩, h2⟩ := h
  have hav' : rexAvailable s1.pools := (Bool.and_eq_true _ _ ▸ hav).1
  exact (runrex_effects h1).1.trans (openLoan_effects hrents hav' hpos hfund h2)

lemma fundLoan_effects {k : LoanKind} {owner : Name} {num : ℕ} {payment : Asset}
    (h : fundLoan k ctx owner num payment s = .ok s') : Effects ctx.now π s s' := by
  simp only [fundLoan, requireAuth, bind_ok, check_ok, exists_const, require_ok, pure_ok] at h
  obtain ⟨-, -, s1, h1, loan, hl, -, -, rfl⟩ := h
  obtain ⟨hpos, funds, rfl, hf⟩ := transferFromFund_ok h1
  have heff : Effect ctx.now π s (s.withLoans k
      ((s.rex.loans k).insert num { loan with balance := loan.balance + payment.amount }) funds
      s.pools s.resources) :=
    Effect.loanBalance hl (fun h0 => by omega) hf
  exact heff.single

lemma defundLoan_effects {k : LoanKind} {owner : Name} {num : ℕ} {amount : Asset}
    (h : defundLoan k ctx owner num amount s = .ok s') : Effects ctx.now π s s' := by
  simp only [defundLoan, requireAuth, bind_ok, check_ok, exists_const, require_ok] at h
  obtain ⟨-, -, loan, hl, -, -, hle, h1⟩ := h
  obtain ⟨-, funds, rfl, hf⟩ := transferToFund_ok h1
  have heff : Effect ctx.now π s (s.withLoans k
      ((s.rex.loans k).insert num { loan with balance := loan.balance + -amount.amount }) funds
      s.pools s.resources) :=
    Effect.loanBalance hl (fun h0 => by omega) (by rw [hf, sub_neg_eq_add]; rfl)
  exact heff.single

lemma updaterex_effects {owner : Name} (hre : π.restake) (hact : ∀ a ∈ ctx.auth, π.actor a)
    (h : updaterex ctx owner s = .ok s') : Effects ctx.now π s s' := by
  simp only [updaterex, requireAuth, bind_ok, check_ok, exists_const, require_ok, pure_ok] at h
  obtain ⟨ha, s1, h1, rb, hb, p, hp, ⟨q, s2⟩, h2, rfl⟩ := h
  refine (runrex_effects h1).1.trans ?_
  have hstake : Effect ctx.now π s1 _ := Effect.reshape hb (fun hw _ hr =>
    restaked_reshaped hw hr (if 0 < p.totalRex then p.valueOf rb.rexBalance else 0))
      (fun _ => rfl) (absurd hre)
    (Or.inr ⟨p, hp, rfl⟩)
  refine hstake.single.trans ((updateRexAccount_effects hre (hact owner ha) h2).trans ?_)
  obtain ⟨-, funds, v, rfl, -, -⟩ := updateRexAccount_ok π.rows π.ballots h2
  exact Effect.single (Effect.reshape (AList.lookup_insert _)
    (fun hw _ hr => processRexMaturities_reshaped hw hr) (absurd (hact owner ha))
    (absurd hre) (Or.inl rfl))

lemma setrex_effects {balance : Asset} (h : setrex ctx balance s = .ok s') :
    Effects ctx.now π s s' := by
  simp only [setrex, requireAuth, bind_ok, check_ok, exists_const, require_ok, pure_ok] at h
  obtain ⟨-, hpos, -, p, hp, rfl⟩ := h
  have heff : Effect ctx.now π s (s.setPool
      { p with totalRent := balance.amount, namebidProceeds := p.namebidProceeds }) :=
    Effect.marks hp fun _ => hpos.le
  exact heff.single

lemma rexexec_effects {user : Name} {max : UInt16} (h : rexexec ctx user max s = .ok s') :
    Effects ctx.now π s s' := by
  simp only [rexexec, requireAuth, bind_ok, check_ok, exists_const] at h
  exact (runrex_effects h.2).1

lemma consolidate_effects {owner : Name} (hre : π.restake) (hact : ∀ a ∈ ctx.auth, π.actor a)
    (h : consolidate ctx owner s = .ok s') : Effects ctx.now π s s' := by
  simp only [consolidate, requireAuth, bind_ok, check_ok, exists_const, require_ok, pure_ok] at h
  obtain ⟨ha, s1, h1, rb, hb, ⟨q, s2⟩, h2, rfl⟩ := h
  refine (runrex_effects h1).1.trans ((updateRexAccount_effects hre (hact owner ha) h2).trans ?_)
  obtain ⟨rfl, funds, v, rfl, -, -⟩ := updateRexAccount_ok π.rows π.ballots h2
  refine Effect.single (Effect.reshape (show AList.lookup owner s1.rex.balances = some rb from hb)
    (fun hw h0 hr => ?_) (absurd (hact owner ha)) (absurd hre)
    (Or.inl (rb.consolidateRexBalance_voteStake _ _)))
  rw [openRequest_collectOrder] at h0 hr ⊢
  exact consolidateRexBalance_reshaped hw h0 hr

lemma mvtosavings_effects {owner : Name} {rex : Asset} (hre : π.restake)
    (hact : ∀ a ∈ ctx.auth, π.actor a) (h : mvtosavings ctx owner rex s = .ok s') :
    Effects ctx.now π s s' := by
  simp only [mvtosavings, positiveRex, requireAuth, bind_ok, check_ok, exists_const,
    require_ok, pure_ok] at h
  obtain ⟨ha, s1, h1, rb, hb, ⟨hpos, -⟩, ⟨q, s2⟩, h2, -, row, h3, rfl⟩ := h
  refine (runrex_effects h1).1.trans ((updateRexAccount_effects hre (hact owner ha) h2).trans ?_)
  obtain ⟨rfl, funds, v, rfl, -, -⟩ := updateRexAccount_ok π.rows π.ballots h2
  refine Effect.single (Effect.reshape (show AList.lookup owner s1.rex.balances = some rb from hb)
    (fun hw h0 hr => ?_) (absurd (hact owner ha)) (absurd hre) 
    (Or.inl ((RexBalance.moveToSavings_voteStake h3).trans rb.readRexSavings_voteStake)))
  rw [openRequest_collectOrder] at h0 hr ⊢
  obtain ⟨bs, sv, hform⟩ := hw
  rw [readRexSavings_eq hform.maturing hform.buckets] at h3
  dsimp only at h3
  by_cases hle : rex.amount + openRequest owner s1.rex.orders + sv ≤ rb.rexBalance
  · obtain ⟨rb', heq, hre⟩ := moveToSavings_reshaped hform hpos hr hle h0
    rw [heq] at h3
    cases h3
    exact hre
  · rw [moveToSavings_logic hform hpos hr (not_le.mp hle)] at h3
    cases h3

lemma mvfrsavings_effects {owner : Name} {rex : Asset} (hre : π.restake)
    (hact : ∀ a ∈ ctx.auth, π.actor a) (h : mvfrsavings ctx owner rex s = .ok s') :
    Effects ctx.now π s s' := by
  simp only [mvfrsavings, positiveRex, requireAuth, bind_ok, check_ok, exists_const,
    require_ok, pure_ok] at h
  obtain ⟨ha, s1, h1, rb, hb, ⟨hpos, -⟩, hle, ⟨q, s2⟩, h2, rfl⟩ := h
  refine (runrex_effects h1).1.trans
    (Relation.ReflTransGen.head ?_ (updateRexAccount_effects hre (hact owner ha) h2))
  refine Effect.reshape hb (fun hw h0 hr => ?_) (absurd (hact owner ha)) (absurd hre)
    (Or.inl ((RexBalance.moveFromSavings_voteStake ..).trans rb.readRexSavings_voteStake))
  obtain ⟨bs, sv, hform⟩ := hw
  rw [readRexSavings_eq hform.maturing hform.buckets] at hle ⊢
  exact moveFromSavings_reshaped hform hpos hle hr

lemma closeFund_effects {now : BlockTimestamp} (owner : Name) (s : State) :
    Effects now π s (closeFund owner s) := by
  unfold closeFund
  split_ifs with hc
  · refine (Effect.funds ?_).single
    rw [fundTotal, Table.total_erase, Table.valueAt_some hc.1, sub_zero, fundTotal]
  · exact Effects.refl s

lemma closerex_effects {owner : Name} (hre : π.restake) (hact : ∀ a ∈ ctx.auth, π.actor a)
    (h : closerex ctx owner s = .ok s') : Effects ctx.now π s s' := by
  simp only [closerex, requireAuth, bind_ok, check_ok, exists_const] at h
  obtain ⟨ha, s1, h1, ⟨q, s2⟩, h2, h3⟩ := h
  have hrun : Effects ctx.now π s s1 := by
    unfold runrexIfInitialized at h1
    split_ifs at h1
    · exact (runrex_effects h1).1
    · cases h1
      exact Effects.refl _
  refine hrun.trans ((updateRexAccount_effects hre (hact owner ha) h2).trans
    ((closeFund_effects owner s2).trans ?_))
  unfold closeBalance at h3
  cases hb : (closeFund owner s2).rex.balances.lookup owner with
  | none =>
    rw [hb] at h3
    cases h3
    exact Effects.refl _
  | some rb =>
    rw [hb] at h3
    simp only [bind_ok, check_ok, exists_const, pure_ok] at h3
    obtain ⟨hz, rfl⟩ := h3
    exact (Effect.dropBalance hre (hact owner ha) hb hz).single

lemma updateRexStake_effects {now : BlockTimestamp} (hre : π.restake) (voter : Name) (s : State) :
    Effects now π s (updateRexStake voter s) := by
  unfold updateRexStake
  cases hb : s.rex.balances.lookup voter with
  | none => exact Effects.refl s
  | some rb =>
    cases hp : s.pools.rexpool with
    | none => exact Effects.refl s
    | some p =>
      dsimp only
      by_cases hr : 0 < p.totalRex
      · rw [if_pos hr]
        have hstake : Effect now π s (s.setBalance voter
            { rb with voteStake := rb.rexBalance * p.totalLendable / p.totalRex }) :=
          Effect.reshape hb (fun hw _ hr => restaked_reshaped hw hr _) (fun _ => rfl) (absurd hre)
            (Or.inr ⟨p, hp, by rw [if_pos hr]; rfl⟩)
        refine hstake.single.trans ?_
        split
        · rename_i row hrow
          split_ifs
          · exact (Effect.voting hre (VotingStep.stake _ hrow).single).single
          · exact Effects.refl _
        · exact Effects.refl _
      · rw [if_neg hr]
        exact Effects.refl s

lemma changebw_effects {owner receiver : Name} {net cpu : ℤ} {transfer : Bool} (hre : π.restake)
    (hs : π.safe → owner = rexAccount → net ≤ 0 ∧ cpu ≤ 0)
    (hq : ∀ c, π.quiet c → c.account ∉ ctx.auth)
    (h : changebw ctx owner receiver net cpu transfer s = .ok s') : Effects ctx.now π s s' := by
  simp only [changebw, requireAuth, bind_ok, check_ok, exists_const, pure_ok] at h
  obtain ⟨ha, -, -, s1, h1, v, hv, rfl⟩ := h
  have hst : Effect ctx.now π s s1 := Effect.stake h1 hre hs fun c hc he => hq c hc (he ▸ ha)
  exact hst.single.trans ((updateRexStake_effects hre _ s1).trans
    (Effect.voting hre (updateVotingPower_steps hv)).single)

lemma delegatebw_effects {owner receiver : Name} {net cpu : Asset} {transfer : Bool}
    (hre : π.restake) (hs : π.safe → owner ≠ rexAccount)
    (hq : ∀ c, π.quiet c → c.account ∉ ctx.auth)
    (h : delegatebw ctx owner receiver net cpu transfer s = .ok s') : Effects ctx.now π s s' := by
  simp only [delegatebw, stakeAmounts, bind_ok, check_ok, exists_const] at h
  exact changebw_effects hre (fun hsafe he => absurd he (hs hsafe)) hq h.2.2

lemma undelegatebw_effects {owner receiver : Name} {net cpu : Asset} (hre : π.restake)
    (hq : ∀ c, π.quiet c → c.account ∉ ctx.auth)
    (h : undelegatebw ctx owner receiver net cpu s = .ok s') : Effects ctx.now π s s' := by
  simp only [undelegatebw, stakeAmounts, bind_ok, check_ok, exists_const] at h
  obtain ⟨⟨-, hcpu, -, hnet, -⟩, -, h⟩ := h
  exact changebw_effects hre (fun _ _ => by omega) hq h

lemma refund_effects {owner : Name} (hq : ∀ c, π.quiet c → c.account ∉ ctx.auth)
    (h : refund ctx owner s = .ok s') : Effects ctx.now π s s' := by
  simp only [refund, requireAuth, bind_ok, check_ok, exists_const, require_ok, pure_ok] at h
  obtain ⟨ha, r, hr, -, s1, h1, rfl⟩ := h
  obtain ⟨t, rfl, -, -, hpaid, -⟩ := inlineTransfer_ok h1
  exact (Effect.refund hr (hpaid rfl) fun c hc he => hq c hc (he ▸ ha)).single

lemma voteproducer_effects {voter proxy : Name} {producers : List Name} (hre : π.restake)
    (hb : π.ballots) (h : voteproducer ctx voter proxy producers s = .ok s') :
    Effects ctx.now π s s' := by
  simp only [voteproducer, requireAuth, bind_ok, check_ok, exists_const, pure_ok] at h
  obtain ⟨-, v, hv, rfl⟩ := h
  exact (updateRexStake_effects hre voter s).trans
    (Effect.voting hre (VotingStep.votes hv (fun _ => hb) fun hf => by cases hf).single).single

lemma voteupdate_effects {voter : Name} (hre : π.restake) (hb : π.ballots)
    (hact : ∀ a ∈ ctx.auth, π.actor a) (h : voteupdate ctx voter s = .ok s') :
    Effects ctx.now π s s' := by
  simp only [voteupdate, bind_ok, check_ok, exists_const, require_ok, pure_ok] at h
  obtain ⟨-, s1, h1, row, hrow, v, hv, rfl⟩ := h
  refine (updaterex_effects hre hact h1).trans (Effect.voting hre ?_).single
  exact (VotingStep.stake _ hrow).single.trans
    (VotingStep.votes hv (fun _ => hb) fun hf => by cases hf).single

lemma buyBytes_effects {now : BlockTimestamp} {bancor : ℤ → ℤ → ℤ → ℤ} {receiver : Name} {quant : ℤ}
    (htr : π.trade) (h : buyBytes bancor receiver quant s = .ok s') : Effects now π s s' := by
  simp only [buyBytes, bind_ok, check_ok, exists_const] at h
  obtain ⟨-, h⟩ := h
  unfold creditRam at h
  obtain ⟨-, limits, rfl⟩ := setRamLimit_ok h
  refine (Effect.ram htr fun k a => setUserRam_weights s ?_ ?_ limits k a).single <;>
  · unfold totalWeight Table.valueAt
    cases s.resources.userres.lookup receiver <;> simp

lemma sellBytes_effects {now : BlockTimestamp} {bancor : ℤ → ℤ → ℤ → ℤ} {account : Name}
    {bytes out : ℤ} {tot : UserResources} (htr : π.trade)
    (htot : s.resources.userres.lookup account = some tot)
    (h : sellBytes bancor account bytes tot s = .ok (out, s')) : 1 < out ∧ Effects now π s s' := by
  simp only [sellBytes, bind_ok, check_ok, exists_const, pure_ok, Prod.mk.injEq] at h
  obtain ⟨hout, -, m, hm, rfl, rfl⟩ := h
  refine ⟨hout, ?_⟩
  obtain ⟨-, limits, rfl⟩ := setRamLimit_ok hm
  refine (Effect.ram htr fun k a => setUserRam_weights s ?_ ?_ limits k a).single <;>
  · unfold totalWeight Table.valueAt
    simp [htot]

lemma chargeRamFee_effects {now : BlockTimestamp} {payer : Name} {fee : ℤ} {memoSize : ℕ}
    (hs : π.safe → payer ≠ rexAccount) (hq : ∀ c, π.quiet c → payer ≠ c.account)
    (h : chargeRamFee now payer fee memoSize s = .ok s') : Effects now π s s' := by
  unfold chargeRamFee at h
  split_ifs at h
  · simp only [bind_ok] at h
    obtain ⟨s1, h1, h2⟩ := h
    exact (inlineTransfer_effects hs hq (fun c _ => by cases c <;> decide) rfl h1).trans
      (channelToRex_effects h2 (fun _ => rfl) fun c _ => by cases c <;> decide)
  · cases h
    exact Effects.refl _

lemma buyram_effects {bancor : ℤ → ℤ → ℤ → ℤ} {payer receiver : Name} {quant : Asset}
    (htr : π.trade) (hram : ¬ π.quiet .ram) (hs : π.safe → payer ≠ rexAccount)
    (hq : ∀ c, π.quiet c → c.account ∉ ctx.auth)
    (h : buyram bancor ctx payer receiver quant s = .ok s') : Effects ctx.now π s s' := by
  simp only [buyram, requireAuth, bind_ok, check_ok, exists_const] at h
  obtain ⟨ha, -, -, s1, h1, s2, h2, h3⟩ := h
  have hqp : ∀ c, π.quiet c → payer ≠ c.account := fun c hc he => hq c hc (he ▸ ha)
  have hqd : ∀ c, π.quiet c → ramAccount ≠ c.account := fun c hc => by
    cases c with
    | ram => exact absurd hc hram
    | stake => decide
    | names => decide
    | bpay => decide
  have hsupply : Effect ctx.now π s { s with ram := s.ram.updateRamSupply ctx.now } :=
    Effect.ram htr fun _ _ => rfl
  exact hsupply.single.trans ((inlineTransfer_effects hs hqp hqd rfl h1).trans
    ((chargeRamFee_effects hs hqp h2).trans (buyBytes_effects htr h3)))

/-- The seller receives the tokens and pays the fee out of them. -/
lemma sellram_payout_effects {now : BlockTimestamp} {account : Name} {out : ℤ} {s1 : State}
    (hout : 1 < out) (hram : ¬ π.quiet .ram) (hq : ∀ c, π.quiet c → account ≠ c.account)
    (h1 : s.inlineTransfer ramAccount account ⟨out, s.core⟩ 8 = .ok s1)
    (h2 : chargeRamFee now account (ramFee out) 12 s1 = .ok s') : Effects now π s s' := by
  have hqs : ∀ c, π.quiet c → ramAccount ≠ c.account := fun c hc => by
    cases c with
    | ram => exact absurd hc hram
    | stake => decide
    | names => decide
    | bpay => decide
  obtain ⟨t, rfl, hne, hpos, hpaid, hother⟩ := inlineTransfer_ok h1
  have hp1 := hpaid rfl
  unfold chargeRamFee at h2
  split_ifs at h2 with hfee
  · simp only [bind_ok] at h2
    obtain ⟨s2, h2, h3⟩ := h2
    obtain ⟨t', rfl, -, -, hpaid', hother'⟩ := inlineTransfer_ok h2
    have hp2 := hpaid' rfl
    have hle := ramFee_le hout
    have htok : Effect now π s { s with token := t' } := by
      refine Effect.tokens (fun _ => ?_) fun c hqt => ?_
      · have e1 := hp1.balance rexAccount
        have e2 := hp2.balance rexAccount
        dsimp only at e1 e2
        rw [if_neg (show rexAccount ≠ ramfeeAccount by decide)] at e2
        rw [if_neg (show rexAccount ≠ ramAccount by decide)] at e1
        rw [e2, e1]
        split_ifs <;> omega
      · have e1 := hother c.account (hqs c hqt).symm (hq c hqt).symm
        have e2 := hother' c.account (hq c hqt).symm (by cases c <;> decide)
        exact e2.trans e1
    exact htok.single.trans (channelToRex_effects h3
      (fun _ => rfl) fun c _ => by cases c <;> decide)
  · cases h2
    exact inlineTransfer_effects (fun _ => by decide) hqs hq rfl h1

lemma sellram_effects {bancor : ℤ → ℤ → ℤ → ℤ} {account : Name} {bytes : ℤ} (htr : π.trade)
    (hram : ¬ π.quiet .ram) (hq : ∀ c, π.quiet c → c.account ∉ ctx.auth)
    (h : sellram bancor ctx account bytes s = .ok s') : Effects ctx.now π s s' := by
  simp only [sellram, requireAuth, bind_ok, check_ok, exists_const, require_ok] at h
  obtain ⟨ha, -, tot, htot, -, ⟨out, s1⟩, h1, s2, h2, h3⟩ := h
  have hsupply : Effect ctx.now π s { s with ram := s.ram.updateRamSupply ctx.now } :=
    Effect.ram htr fun _ _ => rfl
  obtain ⟨hout, hsell⟩ : 1 < out ∧
    Effects ctx.now π { s with ram := s.ram.updateRamSupply ctx.now } s1 :=
    sellBytes_effects htr htot h1
  exact hsupply.single.trans (hsell.trans
    (sellram_payout_effects hout hram (fun c hc he => hq c hc (he ▸ ha)) h2 h3))

lemma setram_effects {maxRamSize : UInt64} (htr : π.trade) (h : setram ctx maxRamSize s = .ok s') :
    Effects ctx.now π s s' := by
  simp only [setram, requireAuth, bind_ok, check_ok, exists_const, pure_ok] at h
  obtain ⟨-, -, -, -, rfl⟩ := h
  exact (Effect.ram htr fun _ _ => rfl).single

lemma setramrate_effects {bytesPerBlock : UInt16} (htr : π.trade)
    (h : setramrate ctx bytesPerBlock s = .ok s') : Effects ctx.now π s s' := by
  simp only [setramrate, requireAuth, bind_ok, check_ok, exists_const, pure_ok] at h
  obtain ⟨-, rfl⟩ := h
  exact (Effect.ram htr fun _ _ => rfl).single

lemma powerup_effects {payer receiver : Name} {days : ℕ} {netFrac cpuFrac : ℤ} {maxPayment : Asset}
    (hp : π.power) (hq : ∀ c, π.quiet c → c.account ∉ ctx.auth)
    (h : powerup ctx payer receiver days netFrac cpuFrac maxPayment s = .ok s') :
    Effects ctx.now π s s' := by
  simp only [powerup, requireAuth, bind_ok, check_ok, exists_const, require_ok, pure_ok] at h
  obtain ⟨ha, st, hst, -, -, hn, hc, -, -, ⟨fee, st', s1⟩, h1, s2, h2, rfl⟩ := h
  have hm : Effect ctx.now π s (s1.setPowerupState st') :=
    Effect.market (MarketStep.reserve hp hst hn hc h1)
  refine hm.single.trans (channelToRex_effects (channelToRex_setPowerupState st' h2)
    (fun _ => rfl) ?_)
  exact fun c hc he => hq c hc (he ▸ ha)

lemma distviarex_effects {source : Name} {amount : Asset} (hs : π.safe → amount.symbol = s.core)
    (hq : ∀ c, π.quiet c → c.account ∉ ctx.auth) (h : distviarex ctx source amount s = .ok s') :
    Effects ctx.now π s s' := by
  simp only [distviarex, requireAuth, bind_ok, check_ok, exists_const] at h
  obtain ⟨rfl, ha, h⟩ := h
  exact channelToRex_effects h (fun hsafe => by rw [hs hsafe]) fun c hc he => hq c hc (he ▸ ha)

omit [FloatOps] in
lemma namesAccount_ne (hqn : ¬ π.quiet .names) (c : Custodian) (hc : π.quiet c) :
    namesAccount ≠ c.account := by
  cases c with
  | names => exact absurd hc hqn
  | stake => decide
  | ram => decide
  | bpay => decide

lemma bidname_effects {bidder newname : Name} {bid : Asset} (hn : π.names) (hqn : ¬ π.quiet .names)
    (hs : π.safe → bidder ≠ rexAccount) (hq : ∀ c, π.quiet c → c.account ∉ ctx.auth)
    (h : bidname ctx bidder newname bid s = .ok s') : Effects ctx.now π s s' := by
  simp only [bidname, requireAuth, bind_ok, check_ok, exists_const, pure_ok] at h
  obtain ⟨ha, -, -, -, -, -, hsym, -, s1, h1, s2, h2, rfl⟩ := h
  have hout : ∃ auctions, s2 = { s1 with auctions } := by
    unfold outbid at h2
    split at h2
    · cases h2
      exact ⟨_, rfl⟩
    · simp only [bind_ok, check_ok, exists_const, pure_ok] at h2
      obtain ⟨-, -, -, rfl⟩ := h2
      exact ⟨_, rfl⟩
  obtain ⟨auctions, rfl⟩ := hout
  refine (inlineTransfer_effects hs (fun c hc he => hq c hc (he ▸ ha))
    (namesAccount_ne hqn) ?_ h1).trans
    (Effect.auctions hn).single
  rw [hsym]

lemma bidrefund_effects {now : BlockTimestamp} {bidder newname : Name} (hn : π.names)
    (hqn : ¬ π.quiet .names) (hq : ∀ c, π.quiet c → bidder ≠ c.account)
    (h : bidrefund bidder newname s = .ok s') : Effects now π s s' := by
  simp only [bidrefund, bind_ok, require_ok, pure_ok] at h
  obtain ⟨amount, -, s1, h1, rfl⟩ := h
  exact (inlineTransfer_effects (fun _ => by decide) (namesAccount_ne hqn) hq rfl h1).trans
    (Effect.auctions hn).single

lemma tokenTransfer_effects {source dest : Name} {quantity : Asset} {memoSize : ℕ}
    (hs : π.safe → source ≠ rexAccount) (hq : ∀ c, π.quiet c → c.account ∉ ctx.auth)
    (hqd : ∀ c, π.quiet c → dest ≠ c.account)
    (h : tokenTransfer ctx source dest quantity memoSize s = .ok s') : Effects ctx.now π s s' := by
  simp only [tokenTransfer, bind_ok, pure_ok] at h
  obtain ⟨t, ht, rfl⟩ := h
  have ha : source ∈ ctx.auth := by
    simp only [Token.transfer, bind_ok, check_ok, exists_const] at ht
    exact ht.2.1
  obtain ⟨-, hpos, hb⟩ := Token.transfer_spec ht
  refine (Effect.tokens (fun hsafe => ?_) fun c hqt => ?_).single
  · rw [hb, if_neg (hs hsafe).symm]
    split_ifs <;> omega
  · have hne : c.account ≠ source := fun he => hq c hqt (he ▸ ha)
    rw [hb, if_neg hne, if_neg (hqd c hqt).symm]
    simp

/-- Every action is an optional purchase and a chain of effects. -/
theorem exec_decomposed {l : Label} {now : BlockTimestamp} (h : step now l s s') :
    Decomposed now (l.promise s.core) s s' := by
  have hram : l.action.TradesRam → ¬ (l.promise s.core).quiet .ram := fun ht hr => hr.2 ht
  have hnames : l.action.MovesBids → ¬ (l.promise s.core).quiet .names := fun hm hn => hn.2 hm
  have hbpay : l.action.Produces → ¬ (l.promise s.core).quiet .bpay := fun hp hb => hb.2 hp
  have hrows : ∀ {n old new}, l.action.Rewrites n old new → (l.promise s.core).rows n old new := id
  obtain ⟨auth, action⟩ := l
  have hq : ∀ c, Label.Quiet ⟨auth, action⟩ c → c.account ∉ (⟨now, auth⟩ : Context).auth :=
    fun _ h => h.unauthorized
  unfold step at h
  cases action with
  | deposit owner amount => exact (deposit_effects hq h).decomposed
  | withdraw owner amount => exact (withdraw_effects trivial (fun _ => id) hq h).decomposed
  | buyrex owner amount => exact buyrex_decomposed trivial (fun _ => id) h
  | unstaketorex owner receiver net cpu => exact unstaketorex_decomposed trivial (fun _ => id) h
  | sellrex owner rex => exact (sellrex_effects trivial (fun _ => id) h).decomposed
  | cnclrexorder owner => exact (cnclrexorder_effects (fun _ => id) h).decomposed
  | rent k owner receiver payment fund => exact (rent_effects trivial h).decomposed
  | fundLoan k owner num payment => exact (fundLoan_effects h).decomposed
  | defundLoan k owner num amount => exact (defundLoan_effects h).decomposed
  | updaterex owner => exact (updaterex_effects trivial (fun _ => id) h).decomposed
  | setrex balance => exact (setrex_effects h).decomposed
  | rexexec user max => exact (rexexec_effects h).decomposed
  | consolidate owner => exact (consolidate_effects trivial (fun _ => id) h).decomposed
  | mvtosavings owner rex => exact (mvtosavings_effects trivial (fun _ => id) h).decomposed
  | mvfrsavings owner rex => exact (mvfrsavings_effects trivial (fun _ => id) h).decomposed
  | closerex owner => exact (closerex_effects trivial (fun _ => id) h).decomposed
  | delegatebw owner receiver net cpu transfer =>
    exact (delegatebw_effects trivial id hq h).decomposed
  | undelegatebw owner receiver net cpu => exact (undelegatebw_effects trivial hq h).decomposed
  | refund owner => exact (refund_effects hq h).decomposed
  | voteproducer voter proxy producers => exact (voteproducer_effects trivial trivial h).decomposed
  | voteupdate voter => exact (voteupdate_effects trivial trivial (fun _ => id) h).decomposed
  | regproducer producer urlSize location =>
    exact (regproducer_effects (fun _ => hrows ⟨rfl, rfl⟩) h).decomposed
  | unregprod producer => exact (unregprod_effects (fun p => hrows ⟨rfl, p, rfl, rfl⟩) h).decomposed
  | unregreason producer reasonSize =>
    exact (unregreason_effects (fun p => hrows ⟨rfl, p, rfl, rfl⟩) h).decomposed
  | rmvproducer producer =>
    exact (rmvproducer_effects (fun p => hrows ⟨rfl, p, rfl, rfl⟩) h).decomposed
  | votebpout bp penaltyHours =>
    exact (votebpout_effects (fun p => hrows ⟨rfl, now, p, rfl, rfl⟩) h).decomposed
  | setvotecontr contract => exact (setvotecontr_effects h).decomposed
  | setvotedecay start yearly nonce =>
    obtain ⟨raw, h⟩ := map_snd_ok h
    exact (setvotedecay_effects h).decomposed
  | setselfstake multiplier => exact (setselfstake_effects h).decomposed
  | buyram payer receiver quant => exact (buyram_effects trivial (hram trivial) id hq h).decomposed
  | buyrambytes payer receiver bytes =>
    exact (buyram_effects trivial (hram trivial) id hq h).decomposed
  | sellram account bytes => exact (sellram_effects trivial (hram trivial) hq h).decomposed
  | setram size => exact (setram_effects trivial h).decomposed
  | setramrate rate => exact (setramrate_effects trivial h).decomposed
  | cfgpowerup args => exact (Effect.market (MarketStep.config trivial h)).single.decomposed
  | powerupexec user max => exact (Effect.market (MarketStep.process h)).single.decomposed
  | powerup payer receiver days net cpu maxPayment =>
    exact (powerup_effects trivial hq h).decomposed
  | distviarex source amount => exact (distviarex_effects id hq h).decomposed
  | bidname bidder newname bid =>
    exact (bidname_effects trivial (hnames trivial) id hq h).decomposed
  | bidrefund bidder newname =>
    refine (bidrefund_effects trivial (hnames trivial) (fun c hc => ?_) h).decomposed
    exact hc.untouched.2
  | newaccount creator newAccountName => exact (newaccount_effects trivial h).decomposed
  | setalimits account ram net cpu => exact (setalimits_effects h).decomposed
  | setacctram account ramBytes => exact (setacctram_effects h).decomposed
  | setacctnet account netWeight => exact (setacctnet_effects h).decomposed
  | setacctcpu account cpuWeight => exact (setacctcpu_effects h).decomposed
  | claimrewards owner => exact (claimrewards_effects trivial (hbpay trivial) hq h).decomposed
  | onblock b =>
    exact (onblock_effects trivial trivial (hbpay trivial) (fun _ _ _ => hrows) h).decomposed
  | transfer source dest quantity memoSize =>
    refine (tokenTransfer_effects id hq (fun c hc => ?_) h).decomposed
    exact hc.untouched.2

end
end TelosSystem
