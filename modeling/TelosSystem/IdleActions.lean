import TelosSystem.ActionEffects
import TelosSystem.RexPreservation

/-! The actions outside the queue of REX. They leave the return pool alone unless they channel a
fee, the supply of REX always, and the rows of the owners unless they revalue a stake. -/
namespace TelosSystem
open Ledger

def Action.RunsQueue : Action → Prop
  | .buyrex .. => True
  | .unstaketorex .. => True
  | .sellrex .. => True
  | .rent .. => True
  | .updaterex _ => True
  | .rexexec .. => True
  | .consolidate _ => True
  | .mvtosavings .. => True
  | .mvfrsavings .. => True
  | .closerex _ => True
  | .voteupdate _ => True
  | _ => False

def Action.ChannelsFee : Action → Prop
  | .buyram .. => True
  | .buyrambytes .. => True
  | .sellram .. => True
  | .powerup .. => True
  | .distviarex .. => True
  | _ => False

/-- The action brings the vote stake of an owner of REX up to its value. -/
def Action.RevaluesStake : Action → Prop
  | .voteproducer .. => True
  | .delegatebw .. => True
  | .undelegatebw .. => True
  | _ => False

def RexPools.returnTables (r : RexPools) : Option RexReturnPool × Option (List Bucket) :=
  (r.rexretpool, r.retbuckets)

/-- Only a fee gets into the return pool, no REX is made or destroyed, and no row changes unless
a stake is revalued. -/
structure Idle (fees stakes : Prop) (s s' : State) : Prop where
  returned : ¬ fees → s'.pools.returnTables = s.pools.returnTables
  total : s'.pools.pool.totalRex = s.pools.pool.totalRex
  rows : ¬ stakes → s'.rex.balances = s.rex.balances

section
variable {now : BlockTimestamp} {s s' s'' : State} {fees stakes : Prop}

lemma Idle.of_same (hp : s'.pools = s.pools) (hb : s'.rex.balances = s.rex.balances) :
    Idle fees stakes s s' :=
  ⟨fun _ => by rw [hp], by rw [hp], fun _ => hb⟩

lemma Idle.trans (h : Idle fees stakes s s') (h' : Idle fees stakes s' s'') :
    Idle fees stakes s s'' :=
  ⟨fun hf => (h'.returned hf).trans (h.returned hf), h'.total.trans h.total,
    fun hs => (h'.rows hs).trans (h.rows hs)⟩

lemma Idle.congr {m m' : State} (h : Idle fees stakes m m') (hp : m.pools = s.pools)
    (hb : m.rex.balances = s.rex.balances) (hp' : s'.pools = m'.pools)
    (hb' : s'.rex.balances = m'.rex.balances) : Idle fees stakes s s' :=
  (Idle.of_same hp hb).trans (h.trans (Idle.of_same hp' hb'))

lemma totalRex_of_marks {r r' : RexPools}
    (h : r'.rexpool.map RexPool.marks = r.rexpool.map RexPool.marks) :
    r'.pool.totalRex = r.pool.totalRex := by
  unfold RexPools.pool
  cases hr : r.rexpool <;> cases hr' : r'.rexpool <;>
    simp only [hr, hr', Option.map_none, Option.map_some] at h
  · rfl
  · cases h
  · cases h
  · exact congrArg Prod.snd (Option.some.inj h)

lemma channelToRex_idle {source : Name} {amount : Asset} {required : Bool}
    (h : channelToRex now source amount required s = .ok s') (hf : fees) :
    Idle fees stakes s s' := by
  unfold channelToRex at h
  split_ifs at h
  · simp only [bind_ok] at h
    obtain ⟨r, hr, h⟩ := h
    obtain ⟨t, rfl, -⟩ := inlineTransfer_ok h
    exact ⟨absurd hf, totalRex_of_marks (addToRexReturnPool_marks hr), fun _ => rfl⟩
  · simp only [bind_ok, check_ok, exists_const, pure_ok] at h
    obtain ⟨-, rfl⟩ := h
    exact Idle.of_same rfl rfl

lemma chargeRamFee_idle {payer : Name} {fee : ℤ} {memoSize : ℕ}
    (h : chargeRamFee now payer fee memoSize s = .ok s') (hf : fees) : Idle fees stakes s s' := by
  unfold chargeRamFee at h
  split_ifs at h
  · simp only [bind_ok] at h
    obtain ⟨s₁, h₁, h₂⟩ := h
    obtain ⟨t, rfl, -⟩ := inlineTransfer_ok h₁
    exact (channelToRex_idle h₂ hf).congr rfl rfl rfl rfl
  · cases h
    exact Idle.of_same rfl rfl

lemma buyram_idle {bancor : ℤ → ℤ → ℤ → ℤ} {ctx : Context} {payer receiver : Name} {quant : Asset}
    (h : buyram bancor ctx payer receiver quant s = .ok s') (hf : fees) :
    Idle fees stakes s s' := by
  simp only [buyram, bind_ok] at h
  obtain ⟨-, -, -, -, -, -, s₁, h₁, s₂, h₂, h₃⟩ := h
  obtain ⟨t, rfl, -⟩ := inlineTransfer_ok h₁
  simp only [buyBytes, creditRam, bind_ok] at h₃
  obtain ⟨-, -, h₃⟩ := h₃
  obtain ⟨-, limits, rfl⟩ := setRamLimit_ok h₃
  exact (chargeRamFee_idle h₂ hf).congr rfl rfl rfl rfl

lemma sellram_idle {bancor : ℤ → ℤ → ℤ → ℤ} {ctx : Context} {account : Name} {bytes : ℤ}
    (h : sellram bancor ctx account bytes s = .ok s') (hf : fees) : Idle fees stakes s s' := by
  simp only [sellram, bind_ok] at h
  obtain ⟨-, -, -, -, tot, -, -, -, ⟨out, s₁⟩, h₁, s₂, h₂, h₃⟩ := h
  simp only [sellBytes, bind_ok, pure_ok, Prod.mk.injEq] at h₁
  obtain ⟨-, -, -, -, m, hm, -, rfl⟩ := h₁
  obtain ⟨-, limits, rfl⟩ := setRamLimit_ok hm
  obtain ⟨t, rfl, -⟩ := inlineTransfer_ok h₂
  exact (chargeRamFee_idle h₃ hf).congr rfl rfl rfl rfl

lemma updateRexStake_idle (voter : Name) (s : State) (hs : stakes) :
    Idle fees stakes s (updateRexStake voter s) := by
  have hpools : (updateRexStake voter s).pools = s.pools := by
    unfold updateRexStake
    split
    · split_ifs
      · dsimp only
        split
        · split_ifs <;> rfl
        · rfl
      · rfl
    · rfl
  exact ⟨fun _ => by rw [hpools], by rw [hpools], absurd hs⟩

end

section
variable [FloatOps] {now : BlockTimestamp} {ctx : Context} {s s' : State} {fees stakes : Prop}

lemma changebw_idle {source receiver : Name} {net cpu : ℤ} {transfer : Bool}
    (h : changebw ctx source receiver net cpu transfer s = .ok s') (hs : stakes) :
    Idle fees stakes s s' := by
  simp only [changebw, bind_ok, pure_ok] at h
  obtain ⟨-, -, -, -, -, -, s₁, h₁, v, -, rfl⟩ := h
  obtain ⟨staking, resources, token, hframe, -⟩ := moveStake_frame h₁
  have hpools : s₁.pools = s.pools := by rw [hframe]
  have hrows : s₁.rex.balances = s.rex.balances := by rw [hframe]
  have hidle := @updateRexStake_idle fees _ (if transfer then receiver else source) s₁ hs
  exact hidle.congr hpools hrows rfl rfl

lemma powerup_idle {payer receiver : Name} {days : ℕ} {netFrac cpuFrac : ℤ} {maxPayment : Asset}
    (h : powerup ctx payer receiver days netFrac cpuFrac maxPayment s = .ok s') (hf : fees) :
    Idle fees stakes s s' := by
  simp only [powerup, requireAuth, bind_ok, check_ok, exists_const, require_ok, pure_ok] at h
  obtain ⟨-, st, hst, -, -, hn, hc, -, -, ⟨fee, st', s₁⟩, h₁, s₂, h₂, rfl⟩ := h
  have hmarket : MarketStep ctx.now True True s (s₁.setPowerupState st') :=
    MarketStep.reserve trivial hst hn hc h₁
  obtain ⟨resources, powerup, hframe⟩ := hmarket.frame
  have hpools : (s₁.setPowerupState st').pools = s.pools := by rw [hframe]
  have hrows : (s₁.setPowerupState st').rex.balances = s.rex.balances := by rw [hframe]
  exact (channelToRex_idle h₂ hf).congr hpools hrows rfl rfl

lemma BlockPart.idle {π : Promise} (h : BlockPart now π s s') : Idle fees stakes s s' := by
  obtain ⟨t, v, p, n, a, rfl⟩ := h.frame
  exact Idle.of_same rfl rfl

omit [FloatOps] in
lemma closeAuction_idle (timestamp now : BlockTimestamp) (s : State) :
    Idle fees stakes s (closeAuction timestamp now s) := by
  rcases closeAuction_frame timestamp now s with ⟨auctions, hsame⟩ | ⟨auctions, p, bid, hp, hsame⟩
  · rw [hsame]
    exact Idle.of_same rfl rfl
  · rw [hsame]
    refine ⟨fun _ => rfl, ?_, fun _ => rfl⟩
    rw [RexPools.pool_some rfl, RexPools.pool_some hp]

lemma onblock_idle {b : Block} (h : onblock ctx b s = .ok s') : Idle fees stakes s s' := by
  obtain ⟨s₁, s₂, h₁, hclose, h₂⟩ :=
    onblock_parts (π := Promise.block) trivial (fun hq => hq rfl) (fun _ _ _ => id) h
  have hmid : Idle fees stakes s₁ s₂ := by
    rcases hclose with rfl | rfl
    · exact Idle.of_same rfl rfl
    · exact closeAuction_idle b.header.timestamp ctx.now s₁
  exact h₁.idle.trans (hmid.trans h₂.idle)

omit [FloatOps] in
lemma manageResource_idle {account : Name} {field : UInt32} {value : Option ℤ} {lowest limit : ℤ}
    {alreadyUnmanaged invalid : String} {unmanaged : Option UserResources → ℤ}
    {current : ResourceLimits}
    (h : manageResource ctx account field value lowest alreadyUnmanaged invalid unmanaged s =
      .ok (current, limit, s')) :
    Idle fees stakes s s' := by
  simp only [manageResource, bind_ok] at h
  obtain ⟨-, -, l, -, h⟩ := h
  cases value <;>
  · simp only [bind_ok, pure_ok, Prod.mk.injEq] at h
    obtain ⟨-, -, -, -, rfl⟩ := h
    exact Idle.of_same rfl rfl

/-- What the actions outside the queue leave alone. -/
theorem step.idle {l : Label} (h : step now l s s') (hq : ¬ l.action.RunsQueue) :
    Idle l.action.ChannelsFee l.action.RevaluesStake s s' := by
  obtain ⟨auth, action⟩ := l
  unfold step at h
  cases action with
  | deposit owner amount =>
    simp only [exec, deposit, bind_ok] at h
    obtain ⟨-, -, -, -, -, -, s₁, h₁, h₂⟩ := h
    obtain ⟨t, rfl, -⟩ := inlineTransfer_ok h₁
    obtain ⟨-, funds, rfl, -⟩ := transferToFund_ok h₂
    exact Idle.of_same rfl rfl
  | withdraw owner amount =>
    simp only [exec, withdraw, bind_ok] at h
    obtain ⟨-, -, -, -, -, -, ⟨q, s₁⟩, h₁, s₂, h₂, h₃⟩ := h
    obtain ⟨-, funds, v, rfl, -⟩ := updateRexAccount_ok (fun _ _ _ => True) True h₁
    obtain ⟨-, funds', rfl, -⟩ := transferFromFund_ok h₂
    obtain ⟨t, rfl, -⟩ := inlineTransfer_ok h₃
    exact Idle.of_same rfl rfl
  | cnclrexorder owner =>
    simp only [exec, cnclrexorder, bind_ok, pure_ok] at h
    obtain ⟨-, -, o, -, -, -, rfl⟩ := h
    exact Idle.of_same rfl rfl
  | fundLoan k owner num payment =>
    simp only [exec, fundLoan, bind_ok, pure_ok] at h
    obtain ⟨-, -, -, -, s₁, h₁, loan, -, -, -, -, -, rfl⟩ := h
    obtain ⟨-, funds, rfl, -⟩ := transferFromFund_ok h₁
    exact Idle.of_same rfl rfl
  | defundLoan k owner num amount =>
    simp only [exec, defundLoan, bind_ok] at h
    obtain ⟨-, -, -, -, loan, -, -, -, -, -, -, -, h₁⟩ := h
    obtain ⟨-, funds, rfl, -⟩ := transferToFund_ok h₁
    exact Idle.of_same rfl rfl
  | setrex balance =>
    simp only [exec, setrex, bind_ok, require_ok, pure_ok] at h
    obtain ⟨-, -, -, -, -, -, p, hp, rfl⟩ := h
    refine ⟨fun _ => rfl, ?_, fun _ => rfl⟩
    rw [RexPools.pool_some rfl, RexPools.pool_some hp]
  | delegatebw owner receiver net cpu transfer =>
    simp only [exec, delegatebw, bind_ok] at h
    obtain ⟨-, -, -, -, h⟩ := h
    exact changebw_idle h trivial
  | undelegatebw owner receiver net cpu =>
    simp only [exec, undelegatebw, bind_ok] at h
    obtain ⟨-, -, -, -, h⟩ := h
    exact changebw_idle h trivial
  | voteproducer voter proxy producers =>
    simp only [exec, voteproducer, bind_ok, pure_ok] at h
    obtain ⟨-, -, v, -, rfl⟩ := h
    exact (updateRexStake_idle voter s trivial).congr rfl rfl rfl rfl
  | buyram payer receiver quant => exact buyram_idle h trivial
  | buyrambytes payer receiver bytes => exact buyram_idle h trivial
  | sellram account bytes => exact sellram_idle h trivial
  | powerup payer receiver days netFrac cpuFrac maxPayment => exact powerup_idle h trivial
  | distviarex source amount =>
    simp only [exec, distviarex, bind_ok] at h
    obtain ⟨-, -, -, -, h⟩ := h
    exact channelToRex_idle h trivial
  | refund owner =>
    simp only [exec, refund, bind_ok, pure_ok] at h
    obtain ⟨-, -, r, -, -, -, s₁, h₁, rfl⟩ := h
    obtain ⟨t, rfl, -⟩ := inlineTransfer_ok h₁
    exact Idle.of_same rfl rfl
  | cfgpowerup args =>
    have hmarket : MarketStep now True True s s' := MarketStep.config trivial h
    obtain ⟨resources, powerup, rfl⟩ := hmarket.frame
    exact Idle.of_same rfl rfl
  | powerupexec user max =>
    have hmarket : MarketStep now True True s s' := MarketStep.process h
    obtain ⟨resources, powerup, rfl⟩ := hmarket.frame
    exact Idle.of_same rfl rfl
  | bidname bidder newname bid =>
    simp only [exec, bidname, bind_ok, check_ok, exists_const, pure_ok] at h
    obtain ⟨-, -, -, -, -, -, -, -, -, s₁, h₁, s₂, h₂, rfl⟩ := h
    obtain ⟨t, rfl, -⟩ := inlineTransfer_ok h₁
    unfold outbid at h₂
    split at h₂
    · cases h₂
      exact Idle.of_same rfl rfl
    · simp only [bind_ok, check_ok, exists_const, pure_ok] at h₂
      obtain ⟨-, -, -, rfl⟩ := h₂
      exact Idle.of_same rfl rfl
  | bidrefund bidder newname =>
    simp only [exec, bidrefund, bind_ok, pure_ok] at h
    obtain ⟨amount, -, s₁, h₁, rfl⟩ := h
    obtain ⟨t, rfl, -⟩ := inlineTransfer_ok h₁
    exact Idle.of_same rfl rfl
  | claimrewards owner =>
    simp only [exec, claimrewards, bind_ok, pure_ok] at h
    obtain ⟨-, -, p, -, -, -, -, -, pay, -, s₁, h₁, rfl⟩ := h
    obtain ⟨t, rfl, -⟩ := inlineTransfer_ok h₁
    exact Idle.of_same rfl rfl
  | onblock b => exact onblock_idle h
  | transfer source dest quantity memoSize =>
    simp only [exec, tokenTransfer, bind_ok, pure_ok] at h
    obtain ⟨t, -, rfl⟩ := h
    exact Idle.of_same rfl rfl
  | newaccount creator newAccountName =>
    simp only [exec, newaccount, bind_ok, pure_ok] at h
    obtain ⟨-, -, -, -, -, -, -, -, s₁, h₁, -, -, rfl⟩ := h
    obtain ⟨auctions, rfl⟩ := claimName_ok h₁
    exact Idle.of_same rfl rfl
  | setacctram account ramBytes =>
    simp only [exec, setacctram, bind_ok, pure_ok] at h
    obtain ⟨⟨current, limit, s₁⟩, h₁, rfl⟩ := h
    exact (manageResource_idle h₁).congr rfl rfl rfl rfl
  | setacctnet account netWeight =>
    simp only [exec, setacctnet, bind_ok, pure_ok] at h
    obtain ⟨⟨current, limit, s₁⟩, h₁, rfl⟩ := h
    exact (manageResource_idle h₁).congr rfl rfl rfl rfl
  | setacctcpu account cpuWeight =>
    simp only [exec, setacctcpu, bind_ok, pure_ok] at h
    obtain ⟨⟨current, limit, s₁⟩, h₁, rfl⟩ := h
    exact (manageResource_idle h₁).congr rfl rfl rfl rfl
  | setalimits account ram net cpu =>
    simp only [exec, setalimits, bind_ok, pure_ok] at h
    obtain ⟨-, -, -, -, -, -, -, -, rfl⟩ := h
    exact Idle.of_same rfl rfl
  | regproducer producer urlSize location =>
    simp only [exec, regproducer, bind_ok, pure_ok] at h
    obtain ⟨-, -, -, -, rfl⟩ := h
    exact Idle.of_same rfl rfl
  | unregprod producer =>
    simp only [exec, unregprod, bind_ok, pure_ok] at h
    obtain ⟨-, -, v, -, rfl⟩ := h
    exact Idle.of_same rfl rfl
  | unregreason producer reasonSize =>
    simp only [exec, unregreason, bind_ok, pure_ok] at h
    obtain ⟨-, -, -, -, v, -, rfl⟩ := h
    exact Idle.of_same rfl rfl
  | rmvproducer producer =>
    simp only [exec, rmvproducer, bind_ok, pure_ok] at h
    obtain ⟨-, -, v, -, rfl⟩ := h
    exact Idle.of_same rfl rfl
  | votebpout bp penaltyHours =>
    simp only [exec, votebpout, bind_ok, pure_ok] at h
    obtain ⟨-, -, -, -, v, -, rfl⟩ := h
    exact Idle.of_same rfl rfl
  | setvotecontr contract =>
    simp only [exec, setvotecontr, bind_ok, pure_ok] at h
    obtain ⟨-, -, rfl⟩ := h
    exact Idle.of_same rfl rfl
  | setvotedecay start yearly nonce =>
    obtain ⟨raw, h⟩ := map_snd_ok h
    simp only [setvotedecay, bind_ok, pure_ok] at h
    obtain ⟨-, -, -, -, -, -, -, -, n, -, hsent⟩ := h
    cases hsent
    exact Idle.of_same rfl rfl
  | setselfstake multiplier =>
    simp only [exec, setselfstake, bind_ok, pure_ok] at h
    obtain ⟨-, -, -, -, rfl⟩ := h
    exact Idle.of_same rfl rfl
  | setram size =>
    simp only [exec, setram, bind_ok, pure_ok] at h
    obtain ⟨-, -, -, -, -, -, -, -, rfl⟩ := h
    exact Idle.of_same rfl rfl
  | setramrate rate =>
    simp only [exec, setramrate, bind_ok, pure_ok] at h
    obtain ⟨-, -, rfl⟩ := h
    exact Idle.of_same rfl rfl
  | _ => exact absurd trivial hq

end
end TelosSystem
