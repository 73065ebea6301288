import TelosSystem.IdleActions
import TelosSystem.RexSolvency

/-! Credits to the return pool. Every call of `channel_to_rex` credits what `eosio.rex`
receives of the core token, except where `distviarex` passes on another token. -/
namespace TelosSystem
open Ledger

/-- What the return pool and the REX pool hold together. -/
def State.rexAssets (s : State) : ℤ := s.pools.returnProceeds + s.pools.pool.totalLendable

/-- A call of `channel_to_rex`, with the state it finds. -/
structure ChannelCall where
  source : Name
  amount : Asset
  required : Bool
  before : State

def ChannelCall.run (now : BlockTimestamp) (c : ChannelCall) : Except String State :=
  channelToRex now c.source c.amount c.required c.before

def ramFeeCalls (payer : Name) (fee : ℤ) (memoSize : ℕ) (s : State) : List ChannelCall :=
  if 0 < fee then
    listAfter (s.inlineTransfer payer ramfeeAccount ⟨fee, s.core⟩ memoSize) fun s =>
      [⟨ramfeeAccount, ⟨fee, s.core⟩, false, s⟩]
  else []

/-- The call of `runrex`, where name auctions have left proceeds. -/
def bidCalls (now : BlockTimestamp) (s : State) : List ChannelCall :=
  listAfter (updateRexPool now s.pools) fun pools =>
    match pools.rexpool with
    | some p =>
      if 0 < p.namebidProceeds then [⟨namesAccount, ⟨p.namebidProceeds, s.core⟩, false,
        { s with pools }⟩] else []
    | none => []

def buyramCalls (ctx : Context) (payer : Name) (quant : ℤ) (s : State) : List ChannelCall :=
  let s := { s with ram := s.ram.updateRamSupply ctx.now }
  let fee := ramFee quant
  listAfter (s.inlineTransfer payer ramAccount ⟨quant - fee, s.core⟩ 7) (ramFeeCalls payer fee 7)

def sellramCalls (ctx : Context) (account : Name) (bytes : ℤ) (s : State) : List ChannelCall :=
  let s := { s with ram := s.ram.updateRamSupply ctx.now }
  match s.resources.userres.lookup account with
  | none => []
  | some tot =>
    listAfter (sellBytes getBancorOutput account bytes tot s) fun (tokensOut, s) =>
      listAfter (s.inlineTransfer ramAccount account ⟨tokensOut, s.core⟩ 8)
        (ramFeeCalls account (ramFee tokensOut) 12)

section
variable [FloatOps]

def powerupCalls (ctx : Context) (payer receiver : Name) (netFrac cpuFrac : ℤ) (maxPayment : Asset)
    (days : ℕ) (s : State) : List ChannelCall :=
  match s.powerup.state with
  | none => []
  | some st =>
    listAfter (reservePower ctx.now receiver days netFrac cpuFrac maxPayment st s)
      fun (fee, _, s) =>
      [⟨payer, ⟨fee, s.core⟩, true, s⟩]

/-- The calls of `channel_to_rex` that an action makes. -/
def Action.channelCalls (ctx : Context) (s : State) : Action → List ChannelCall
  | .buyram payer _ quant => buyramCalls ctx payer quant.amount s
  | .buyrambytes payer _ bytes =>
    buyramCalls ctx payer (FloatOps.ramCost s.ram.market.base s.ram.market.quote bytes.toNat) s
  | .sellram account bytes => sellramCalls ctx account bytes s
  | .powerup payer receiver days netFrac cpuFrac maxPayment =>
    powerupCalls ctx payer receiver netFrac cpuFrac maxPayment days s
  | .distviarex source amount => [⟨source, amount, false, s⟩]
  | .buyrex owner amount =>
    listAfter (transferFromFund owner amount s) fun s =>
      listAfter (purchase ctx.now owner amount.amount s) fun (_, s) => bidCalls ctx.now s
  | .unstaketorex owner receiver fromNet fromCpu =>
    let payment := fromNet.amount + fromCpu.amount
    listAfter (unstakeBandwidth owner receiver fromNet.amount fromCpu.amount s) fun s =>
      listAfter (s.inlineTransfer stakeAccount rexAccount ⟨payment, s.core⟩ 26) fun s =>
        listAfter (purchase ctx.now owner payment s) fun (_, s) => bidCalls ctx.now s
  | .sellrex .. | .rent .. | .updaterex _ | .rexexec .. | .consolidate _ | .mvtosavings
      .. | .mvfrsavings .. |
    .voteupdate _ => bidCalls ctx.now s
  | .closerex _ => if rexSystemInitialized s.pools then bidCalls ctx.now s else []
  | _ => []

end

/-- An action that only passes on the core token. -/
def Action.PaysCore (core : Symbol) : Action → Prop
  | .distviarex _ amount => amount.symbol.code = core.code
  | _ => True

lemma Action.paysCore_of_ne {core : Symbol} {a : Action}
    (h : ∀ source amount, a ≠ .distviarex source amount) : a.PaysCore core := by
  cases a with
  | distviarex source amount => exact absurd rfl (h source amount)
  | _ => trivial

section
variable {now : BlockTimestamp} {s s' : State} {c : ChannelCall}

/-- Proceeds that move from the return pool to the REX pool stay in the sum. -/
lemma Returned.assets {amount : ℤ} {r r' : RexPools} {p : RexPool} (h : Returned now amount r r')
    (hp : r.rexpool = some p) (hbal : p.Balanced) :
    r'.returnProceeds + r'.pool.totalLendable = r.returnProceeds +
      r.pool.totalLendable + amount := by
  obtain ⟨c, hc, hpool, hpro⟩ := h.moved
  rw [hp, Option.map_some] at hpool
  rw [RexPools.pool_some hpool, RexPools.pool_some hp, RexPool.credit_lendable hbal, hpro]
  omega

/-- The core tokens that the receiver of a transfer gets. -/
lemma inlineTransfer_received {source dest : Name} {quantity : Asset} {memoSize : ℕ}
    (h : s.inlineTransfer source dest quantity memoSize = .ok s') :
    s'.coreBalance dest = s.coreBalance dest +
      if quantity.symbol.code = s.core.code then quantity.amount else 0 := by
  simp only [State.inlineTransfer, bind_ok, pure_ok] at h
  obtain ⟨t, ht, rfl⟩ := h
  obtain ⟨hne, -, hb⟩ := Token.transfer_spec ht
  simp only [State.coreBalance]
  rw [hb, if_pos rfl, if_neg hne.symm, sub_zero]
  simp only [eq_comm]

/-- A call credits the amount, and `eosio.rex` receives it if it is in core tokens. -/
lemma channelToRex_backed {source : Name} {amount : Asset} {required : Bool}
    (hi : RexInv now s.pools s.rex) (h : channelToRex now source amount required s = .ok s') :
    s'.rexAssets - s.rexAssets = s'.coreBalance rexAccount - s.coreBalance rexAccount ↔
      (rexAvailable s.pools → amount.symbol.code = s.core.code) := by
  unfold channelToRex at h
  split_ifs at h with hav
  · simp only [bind_ok] at h
    obtain ⟨r, hr, h⟩ := h
    have hgot := inlineTransfer_received h
    obtain ⟨t, rfl, -, hpos, -, -⟩ := inlineTransfer_ok h
    cases hp : s.pools.rexpool with
    | none => simp [rexAvailable, hp] at hav
    | some p =>
      have hsum := (addToRexReturnPool_returned hi.ret hp (hi.balanced hp) hr).assets
        hp (hi.balanced hp)
      rw [max_eq_right hpos.le] at hsum
      simp only [State.rexAssets, State.coreBalance] at hgot ⊢
      simp only [hav, forall_const]
      split_ifs at hgot with hcore
      · simp only [hcore, iff_true]
        omega
      · simp only [hcore, iff_false]
        omega
  · simp only [bind_ok, check_ok, exists_const, pure_ok] at h
    obtain ⟨-, rfl⟩ := h
    simp [hav]

/-- A call that succeeds, at a state with the invariant, with an amount in core tokens. -/
structure CoreCall (now : BlockTimestamp) (c : ChannelCall) : Prop where
  runs : ∃ s', c.run now = .ok s'
  inv : RexInv now c.before.pools c.before.rex
  core : c.amount.symbol.code = c.before.core.code

/-- The calls account for what gets into the return pool between two states. -/
structure Channelled (now : BlockTimestamp) (calls : List ChannelCall) (r r' : RexPools) :
    Prop where
  kept : calls = [] → r'.returnTables = r.returnTables
  credited : ∀ c ∈ calls, calls = [c] ∧ c.before.pools.returnTables = r.returnTables ∧
    ∃ m, c.run now = .ok m ∧ m.pools.returnTables = r'.returnTables

section
variable {calls : List ChannelCall} {r r' : RexPools}

lemma Channelled.nil (h : r'.returnTables = r.returnTables) : Channelled now [] r r' :=
  ⟨fun _ => h, by simp⟩

lemma Channelled.single {m : State} (hbefore : c.before.pools.returnTables = r.returnTables)
    (hrun : c.run now = .ok m) (hafter : m.pools.returnTables = r'.returnTables) :
    Channelled now [c] r r' := by
  refine ⟨by simp, fun c' hc => ?_⟩
  rw [List.mem_singleton] at hc
  subst hc
  exact ⟨rfl, hbefore, m, hrun, hafter⟩

end

lemma chargeRamFee_channelled {payer : Name} {fee : ℤ} {memoSize : ℕ}
    (h : chargeRamFee now payer fee memoSize s = .ok s') :
    Channelled now (ramFeeCalls payer fee memoSize s) s.pools s'.pools := by
  unfold chargeRamFee at h
  unfold ramFeeCalls
  split_ifs at h ⊢
  · simp only [bind_ok] at h
    obtain ⟨s₁, h₁, h₂⟩ := h
    simp only [h₁, listAfter]
    obtain ⟨t, rfl, -⟩ := inlineTransfer_ok h₁
    exact Channelled.single rfl h₂ rfl
  · cases h
    exact Channelled.nil rfl

/-- The call of a maintenance run lies between the release of the buckets and the loans. -/
theorem runrex_channelled {max : ℕ} (h : runrex now max s = .ok s') :
    ∃ r m, updateRexPool now s.pools = .ok r ∧ channelNamebids now { s with pools := r } = .ok m ∧
      Channelled now (bidCalls now s) r m.pools := by
  simp only [runrex, bind_ok, check_ok, exists_const] at h
  obtain ⟨-, r, hr, m, hm, -⟩ := h
  refine ⟨r, m, hr, hm, ?_⟩
  simp only [channelNamebids, bind_ok, require_ok] at hm
  obtain ⟨p, hp, hm⟩ := hm
  simp only [bidCalls, hr, listAfter, hp]
  split_ifs at hm ⊢
  · simp only [bind_ok, require_ok, pure_ok] at hm
    obtain ⟨s₂, h₂, q, hq, rfl⟩ := hm
    exact Channelled.single rfl h₂ rfl
  · rw [pure_ok] at hm
    subst hm
    exact Channelled.nil rfl

lemma ramFeeCalls_core {payer : Name} {fee : ℤ} {memoSize : ℕ} (hi : RexInv now s.pools s.rex)
    (h : chargeRamFee now payer fee memoSize s = .ok s')
    (hc : c ∈ ramFeeCalls payer fee memoSize s) : CoreCall now c := by
  unfold chargeRamFee at h
  unfold ramFeeCalls at hc
  split_ifs at h hc
  · simp only [bind_ok] at h
    obtain ⟨s₁, h₁, h₂⟩ := h
    simp only [h₁, listAfter, List.mem_singleton] at hc
    subst hc
    obtain ⟨t, rfl, -⟩ := inlineTransfer_ok h₁
    exact ⟨⟨s', h₂⟩, hi, rfl⟩
  · cases hc

lemma bidCalls_core {max : ℕ} (hi : RexInv now s.pools s.rex) (h : runrex now max s = .ok s')
    (hc : c ∈ bidCalls now s) : CoreCall now c := by
  simp only [runrex, bind_ok, check_ok, exists_const] at h
  obtain ⟨-, r, hr, s₁, h₁, -⟩ := h
  have hi' : RexInv now r s.rex :=
    hi.returned (updateRexPool_returned hi.ret (fun p hp => hi.balanced hp) hr)
  simp only [channelNamebids, bind_ok, require_ok] at h₁
  obtain ⟨p, hp, h₁⟩ := h₁
  simp only [bidCalls, hr, listAfter, hp] at hc
  split_ifs at h₁ hc
  · simp only [bind_ok] at h₁
    obtain ⟨s₂, h₂, -⟩ := h₁
    rw [List.mem_singleton] at hc
    subst hc
    exact ⟨⟨s₂, h₂⟩, hi', rfl⟩
  · cases hc

lemma buyramCalls_core {bancor : ℤ → ℤ → ℤ → ℤ} {ctx : Context} {payer receiver : Name}
    {quant : Asset} (hi : RexInv ctx.now s.pools s.rex)
    (h : buyram bancor ctx payer receiver quant s = .ok s')
    (hc : c ∈ buyramCalls ctx payer quant.amount s) : CoreCall ctx.now c := by
  simp only [buyram, requireAuth, bind_ok, check_ok, exists_const] at h
  obtain ⟨-, -, -, s₁, h₁, s₂, h₂, -⟩ := h
  simp only [buyramCalls, h₁, listAfter] at hc
  obtain ⟨t, rfl, -⟩ := inlineTransfer_ok h₁
  exact ramFeeCalls_core (s := { s with ram := _, token := t }) hi h₂ hc

lemma buyram_channelled {bancor : ℤ → ℤ → ℤ → ℤ} {ctx : Context} {payer receiver : Name}
    {quant : Asset} (h : buyram bancor ctx payer receiver quant s = .ok s') :
    Channelled ctx.now (buyramCalls ctx payer quant.amount s) s.pools s'.pools := by
  simp only [buyram, requireAuth, bind_ok, check_ok, exists_const] at h
  obtain ⟨-, -, -, s₁, h₁, s₂, h₂, h₃⟩ := h
  simp only [buyramCalls, h₁, listAfter]
  obtain ⟨t, rfl, -⟩ := inlineTransfer_ok h₁
  simp only [buyBytes, creditRam, bind_ok] at h₃
  obtain ⟨-, -, h₃⟩ := h₃
  obtain ⟨-, limits, rfl⟩ := setRamLimit_ok h₃
  have hfee := chargeRamFee_channelled h₂
  exact hfee

lemma sellBytes_frame {bancor : ℤ → ℤ → ℤ → ℤ} {account : Name} {bytes out : ℤ}
    {tot : UserResources} (h : sellBytes bancor account bytes tot s = .ok (out, s')) :
    ∃ ram resources, s' = { s with ram, resources } := by
  simp only [sellBytes, bind_ok, check_ok, exists_const, pure_ok, Prod.mk.injEq] at h
  obtain ⟨-, -, m, hm, rfl, rfl⟩ := h
  obtain ⟨-, limits, rfl⟩ := setRamLimit_ok hm
  exact ⟨_, _, rfl⟩

lemma sellram_channelled {ctx : Context} {account : Name} {bytes : ℤ}
    (h : sellram getBancorOutput ctx account bytes s = .ok s') :
    Channelled ctx.now (sellramCalls ctx account bytes s) s.pools s'.pools := by
  simp only [sellram, requireAuth, bind_ok, check_ok, exists_const, require_ok] at h
  obtain ⟨-, -, tot, htot, -, ⟨out, s₁⟩, h₁, s₂, h₂, h₃⟩ := h
  simp only [sellramCalls, htot, h₁, h₂, listAfter]
  obtain ⟨ram, resources, rfl⟩ := sellBytes_frame h₁
  obtain ⟨t, rfl, -⟩ := inlineTransfer_ok h₂
  have hfee := chargeRamFee_channelled h₃
  exact hfee

lemma sellramCalls_core {ctx : Context} {account : Name} {bytes : ℤ}
    (hi : RexInv ctx.now s.pools s.rex) (h : sellram getBancorOutput ctx account bytes s = .ok s')
    (hc : c ∈ sellramCalls ctx account bytes s) : CoreCall ctx.now c := by
  simp only [sellram, requireAuth, bind_ok, check_ok, exists_const, require_ok] at h
  obtain ⟨-, -, tot, htot, -, ⟨out, s₁⟩, h₁, s₂, h₂, h₃⟩ := h
  simp only [sellramCalls, htot, h₁, h₂, listAfter] at hc
  obtain ⟨ram, resources, rfl⟩ := sellBytes_frame h₁
  obtain ⟨t, rfl, -⟩ := inlineTransfer_ok h₂
  exact ramFeeCalls_core (s := { s with ram, resources, token := t }) hi h₃ hc

end

section
variable [FloatOps] {t now : BlockTimestamp} {s s' : State} {c : ChannelCall}

lemma powerupCalls_core {ctx : Context} {payer receiver : Name} {days : ℕ} {netFrac cpuFrac : ℤ}
    {maxPayment : Asset} (hi : RexInv ctx.now s.pools s.rex)
    (h : powerup ctx payer receiver days netFrac cpuFrac maxPayment s = .ok s')
    (hc : c ∈ powerupCalls ctx payer receiver netFrac cpuFrac maxPayment days s) :
    CoreCall ctx.now c := by
  simp only [powerup, requireAuth, bind_ok, check_ok, exists_const, require_ok, pure_ok] at h
  obtain ⟨-, st, hst, -, -, hn, hcpu, -, -, ⟨fee, st', s₁⟩, h₁, s₂, h₂, -⟩ := h
  simp only [powerupCalls, hst, h₁, listAfter, List.mem_singleton] at hc
  subst hc
  have hmarket : MarketStep ctx.now True True s (s₁.setPowerupState st') :=
    MarketStep.reserve trivial hst hn hcpu h₁
  obtain ⟨resources, powerup, hframe⟩ := hmarket.frame
  have hpools : (s₁.setPowerupState st').pools = s.pools := by rw [hframe]
  have hrex : (s₁.setPowerupState st').rex = s.rex := by rw [hframe]
  rw [← hpools, ← hrex] at hi
  exact ⟨⟨s₂, h₂⟩, hi, rfl⟩

lemma powerup_channelled {ctx : Context} {payer receiver : Name} {days : ℕ} {netFrac cpuFrac : ℤ}
    {maxPayment : Asset}
    (h : powerup ctx payer receiver days netFrac cpuFrac maxPayment s = .ok s') :
    Channelled ctx.now (powerupCalls ctx payer receiver netFrac cpuFrac maxPayment days s)
      s.pools s'.pools := by
  simp only [powerup, requireAuth, bind_ok, check_ok, exists_const, require_ok, pure_ok] at h
  obtain ⟨-, st, hst, -, -, hn, hcpu, -, -, ⟨fee, st', s₁⟩, h₁, s₂, h₂, rfl⟩ := h
  simp only [powerupCalls, hst, h₁, listAfter]
  have hmarket : MarketStep ctx.now True True s (s₁.setPowerupState st') :=
    MarketStep.reserve trivial hst hn hcpu h₁
  obtain ⟨resources, powerup, hframe⟩ := hmarket.frame
  have hpools : (s₁.setPowerupState st').pools = s.pools := by rw [hframe]
  exact Channelled.single (congrArg RexPools.returnTables hpools) h₂ rfl

/-- Outside the queue of REX, nothing but the calls gets into the return pool. -/
theorem step.channelled {l : Label} (h : step now l s s') (hq : ¬ l.action.RunsQueue) :
    Channelled now (l.action.channelCalls ⟨now, l.auth⟩ s) s.pools s'.pools := by
  have hidle : Idle l.action.ChannelsFee l.action.RevaluesStake s s' := h.idle hq
  obtain ⟨auth, action⟩ := l
  unfold step at h
  cases action with
  | buyram payer receiver quant => exact buyram_channelled h
  | buyrambytes payer receiver bytes => exact buyram_channelled h
  | sellram account bytes => exact sellram_channelled h
  | powerup payer receiver days netFrac cpuFrac maxPayment => exact powerup_channelled h
  | distviarex source amount =>
    simp only [exec, distviarex, requireAuth, bind_ok, check_ok, exists_const] at h
    exact Channelled.single rfl h.2.2 rfl
  | buyrex | unstaketorex | sellrex | rent | updaterex | rexexec | consolidate | mvtosavings | mvfrsavings | closerex |
    voteupdate => exact absurd trivial hq
  | _ => exact Channelled.nil (hidle.returned id)

omit [FloatOps] in
/-- The payment of a purchase leaves the pools in order, and so does the purchase. -/
lemma purchase_rexInv {owner : Name} {payment delta : ℤ} (funds : Table Name ℤ)
    (hi : RexInv now s.pools s.rex) (h0 : 0 < payment)
    (h : purchase now owner payment { s with rex := { s.rex with funds } } = .ok (delta, s')) :
    RexInv now s'.pools s'.rex := by
  obtain ⟨received, p', stake, hb, rfl⟩ := purchase_ok h
  exact (hi.withFunds funds).purchased hb h0 _

/-- Except for `distviarex`, the calls of an action are in core tokens. -/
lemma channelCalls_core {l : Label} (hi : RexInv now s.pools s.rex) (h : step now l s s')
    (hd : ∀ source amount, l.action ≠ .distviarex source amount)
    (hc : c ∈ l.action.channelCalls ⟨now, l.auth⟩ s) : CoreCall now c := by
  obtain ⟨auth, action⟩ := l
  unfold step at h
  cases action with
  | buyram payer receiver quant => exact buyramCalls_core hi h hc
  | buyrambytes payer receiver bytes => exact buyramCalls_core hi h hc
  | sellram account bytes => exact sellramCalls_core hi h hc
  | powerup payer receiver days netFrac cpuFrac maxPayment => exact powerupCalls_core hi h hc
  | distviarex source amount => exact absurd rfl (hd source amount)
  | buyrex owner amount =>
    simp only [exec, buyrex, requireAuth, bind_ok, check_ok, exists_const, pure_ok] at h
    obtain ⟨-, -, hpos, s₁, h₁, ⟨d, s₂⟩, h₂, s₃, h₃, -⟩ := h
    simp only [Action.channelCalls, h₁, h₂, listAfter] at hc
    obtain ⟨-, funds, rfl, -⟩ := transferFromFund_ok h₁
    exact bidCalls_core (purchase_rexInv _ hi hpos h₂) h₃ hc
  | unstaketorex owner receiver fromNet fromCpu =>
    simp only [exec, unstaketorex, requireAuth, bind_ok, check_ok, exists_const, pure_ok] at h
    obtain ⟨-, -, -, s₁, h₁, s₂, h₂, ⟨d, s₃⟩, h₃, s₄, h₄, -⟩ := h
    simp only [Action.channelCalls, h₁, h₂, h₃, listAfter] at hc
    obtain ⟨t, rfl, -, hpos, -⟩ := inlineTransfer_ok h₂
    obtain ⟨staking, resources, rfl⟩ := unstakeBandwidth_frame h₁
    exact bidCalls_core
      (purchase_rexInv (s := { s with staking, resources, token := t }) s.rex.funds hi hpos h₃) h₄
      hc
  | sellrex owner rex =>
    simp only [exec, sellrex, bind_ok] at h
    obtain ⟨-, -, s₁, h₁, -⟩ := h
    exact bidCalls_core hi h₁ hc
  | rent k owner receiver payment fund =>
    simp only [exec, rent, bind_ok] at h
    obtain ⟨-, -, s₁, h₁, -⟩ := h
    exact bidCalls_core hi h₁ hc
  | updaterex owner =>
    simp only [exec, updaterex, bind_ok] at h
    obtain ⟨-, -, s₁, h₁, -⟩ := h
    exact bidCalls_core hi h₁ hc
  | rexexec user max =>
    simp only [exec, rexexec, bind_ok] at h
    obtain ⟨-, -, h₁⟩ := h
    exact bidCalls_core hi h₁ hc
  | consolidate owner =>
    simp only [exec, consolidate, bind_ok] at h
    obtain ⟨-, -, s₁, h₁, -⟩ := h
    exact bidCalls_core hi h₁ hc
  | mvtosavings owner rex =>
    simp only [exec, mvtosavings, bind_ok] at h
    obtain ⟨-, -, s₁, h₁, -⟩ := h
    exact bidCalls_core hi h₁ hc
  | mvfrsavings owner rex =>
    simp only [exec, mvfrsavings, bind_ok] at h
    obtain ⟨-, -, s₁, h₁, -⟩ := h
    exact bidCalls_core hi h₁ hc
  | voteupdate voter =>
    simp only [exec, voteupdate, updaterex, bind_ok] at h
    obtain ⟨-, -, s₂, ⟨-, -, s₁, h₁, -⟩, -⟩ := h
    exact bidCalls_core hi h₁ hc
  | closerex owner =>
    simp only [exec, closerex, runrexIfInitialized, bind_ok] at h
    obtain ⟨-, -, s₁, h₁, -⟩ := h
    simp only [Action.channelCalls] at hc
    split_ifs at h₁ hc
    · exact bidCalls_core hi h₁ hc
    · cases hc
  | _ => cases hc

end

def foo : Symbol := ⟨0x4f4f46, 4⟩

/-- The launch, with a second token of which the TEDP account holds some. -/
def foreignState : State where
  __ := launchState
  token :=
    { stats := launchToken.stats.insert foo.code ⟨⟨5000, foo⟩, ⟨maxAmount, foo⟩, systemAccount⟩
      accounts := launchToken.accounts.insert (tedpAccount, foo.code) ⟨5000, foo⟩ }

lemma foreignState_genesis : Genesis foreignState := by
  refine ⟨rfl, rfl, rfl, rfl, fun k a => ?_, rfl, by decide⟩
  cases k <;> rfl

def buyTrace : List (BlockTimestamp × Label) :=
  [(launchTime, ⟨[alice], .deposit alice ⟨1000, tlos⟩⟩),
    (launchTime, ⟨[alice], .buyrex alice ⟨1000, tlos⟩⟩)]

def foreignEnd : State :=
  stateAfter (fun now (l : Label) => @exec launchFloats ⟨now, l.auth⟩ l.action)
    buyTrace foreignState

lemma foreignEnd_reachable : @Reachable launchFloats launchTime foreignEnd := by
  let := launchFloats
  exact ⟨launchTime, foreignState, buyTrace, foreignState_genesis,
    timedRun_stateAfter (by decide) (by decide +kernel)⟩

def foreignFee : Label := ⟨[tedpAccount], .distviarex tedpAccount ⟨5000, foo⟩⟩

end TelosSystem
