import TelosSystem.RexPurchase

/-! Custody of the staked tokens: `eosio.stake` holds what is delegated and what waits to be
refunded, and staking moves exactly the difference. -/
namespace TelosSystem
open Ledger

def delbandTotal (x : Staking) : ℤ := x.delband.total fun _ d => d.netWeight + d.cpuWeight

def refundTotal (x : Staking) : ℤ := x.refunds.total fun _ r => r.netAmount + r.cpuAmount

def custodySurplus (s : State) : ℤ :=
  s.coreBalance stakeAccount - (delbandTotal s.staking + refundTotal s.staking)

/-- No row holds a negative amount. -/
structure StakeInv (x : Staking) : Prop where
  delband : ∀ key d, x.delband.lookup key = some d → 0 ≤ d.netWeight ∧ 0 ≤ d.cpuWeight
  refunds : ∀ owner r, x.refunds.lookup owner = some r → 0 ≤ r.netAmount ∧ 0 ≤ r.cpuAmount

section
variable {now : BlockTimestamp} {s s' : State}

/-- A `delband` row is stored or, when empty, erased: the totals move by the difference. -/
lemma storeDelband_total (f : Name × Name → DelegatedBandwidth → ℤ) (key : Name × Name)
    {d : DelegatedBandwidth} (hz : d.isEmpty = true → f key d = 0) :
    (s.storeDelband key d).staking.delband.total f =
      s.staking.delband.total f - s.staking.delband.valueAt f key + f key d := by
  simp only [State.storeDelband]
  split_ifs with he
  · rw [Table.total_erase, hz he, add_zero]
  · rw [Table.total_insert]

lemma DelegatedBandwidth.isEmpty_iff {d : DelegatedBandwidth} :
    d.isEmpty = true ↔ d.netWeight = 0 ∧ d.cpuWeight = 0 := by
  simp [DelegatedBandwidth.isEmpty]

lemma storeDelband_stakeInv {key : Name × Name} {d : DelegatedBandwidth} (h : StakeInv s.staking)
    (hd : 0 ≤ d.netWeight ∧ 0 ≤ d.cpuWeight) : StakeInv (s.storeDelband key d).staking := by
  refine ⟨?_, h.refunds⟩
  simp only [State.storeDelband]
  split_ifs
  · exact Table.forall_erase h.delband
  · exact Table.forall_insert h.delband hd

structure DelbandChanged (owner receiver : Name) (net cpu : ℤ) (s s' : State) : Prop where
  only : ∃ delband, s' = { s with staking := { s.staking with delband } }
  total : ∀ (f : Name × Name → DelegatedBandwidth → ℤ),
    (∀ k a b c d, f k ⟨a + c, b + d⟩ = f k ⟨a, b⟩ + f k ⟨c, d⟩) →
    s'.staking.delband.total f = s.staking.delband.total f + f (owner, receiver) ⟨net, cpu⟩
  inv : StakeInv s.staking → StakeInv s'.staking

/-- A function of the weights that is additive vanishes on an empty row. -/
lemma additive_zero {f : Name × Name → DelegatedBandwidth → ℤ}
    (hf : ∀ k a b c d, f k ⟨a + c, b + d⟩ = f k ⟨a, b⟩ + f k ⟨c, d⟩) (key : Name × Name) :
    f key ⟨0, 0⟩ = 0 := by
  have := hf key 0 0 0 0
  simp only [add_zero] at this
  omega

lemma storeDelband_changed {owner receiver : Name} {net cpu : ℤ} {d : DelegatedBandwidth}
    (hd : d = ⟨((s.staking.delband.lookup (owner, receiver)).map DelegatedBandwidth.netWeight).getD
      0 + net, ((s.staking.delband.lookup (owner, receiver)).map DelegatedBandwidth.cpuWeight).getD
      0 + cpu⟩)
    (hnn : 0 ≤ d.netWeight ∧ 0 ≤ d.cpuWeight) :
    DelbandChanged owner receiver net cpu s (s.storeDelband (owner, receiver) d) := by
  refine ⟨⟨_, rfl⟩, fun f hf => ?_, fun h => storeDelband_stakeInv h hnn⟩
  rw [storeDelband_total f (owner, receiver) fun he => by
    obtain ⟨n, c⟩ := d
    obtain ⟨rfl, rfl⟩ := DelegatedBandwidth.isEmpty_iff.mp he
    exact additive_zero hf _]
  rw [hd, hf]
  unfold Table.valueAt
  cases s.staking.delband.lookup (owner, receiver) with
  | none =>
    have := additive_zero hf (owner, receiver)
    simp only [Option.map_none, Option.getD_none]
    omega
  | some d' =>
    obtain ⟨n', c'⟩ := d'
    simp only [Option.map_some, Option.getD_some]
    omega

lemma changeDelband_changed {owner receiver : Name} {net cpu : ℤ}
    (h : changeDelband owner receiver net cpu s = .ok s') :
    DelbandChanged owner receiver net cpu s s' := by
  simp only [changeDelband, bind_ok, check_ok, exists_const, pure_ok] at h
  obtain ⟨hn, hc, rfl⟩ := h
  refine storeDelband_changed ?_ ⟨hn, hc⟩
  cases s.staking.delband.lookup (owner, receiver) <;> simp

lemma unstakeBandwidth_changed {owner receiver : Name} {net cpu : ℤ}
    (h : unstakeBandwidth owner receiver net cpu s = .ok s') :
    ∃ mid, DelbandChanged owner receiver (-net) (-cpu) s mid ∧
      Moved receiver (-net) (-cpu) mid s' := by
  simp only [unstakeBandwidth, bind_ok, require_ok, check_ok, exists_const] at h
  obtain ⟨d, hd, hn, hc, h⟩ := h
  refine ⟨_, storeDelband_changed ?_ ?_, updateResourceLimits_moved h⟩
  · simp [hd, sub_eq_add_neg]
  · dsimp only
    omega

/-- What stays refundable and what is still to be paid differ by the netted stake. -/
lemma netted_spec (refunded delta : ℤ) :
    (netted refunded delta).1 - (netted refunded delta).2 = refunded - delta ∧
    0 ≤ (netted refunded delta).1 ∧ 0 ≤ (netted refunded delta).2 := by
  unfold netted
  split_ifs <;> dsimp only <;> omega

/-- An unstake leaves nothing to be paid. -/
lemma netted_unstake {refunded delta : ℤ} (h0 : 0 ≤ refunded) (hd : delta ≤ 0) :
    (netted refunded delta).2 = 0 := by
  unfold netted
  rw [if_neg (by omega)]

/-- The refund row of an owner after a stake change: what is still to be paid is what the
stakes and refunds grow by. -/
structure RefundChanged (net cpu n c : ℤ) (s s' : State) : Prop where
  only : ∃ refunds, s' = { s with staking := { s.staking with refunds } }
  total : refundTotal s'.staking + (net + cpu) = refundTotal s.staking + (n + c)
  payable : 0 ≤ n + c
  inv : StakeInv s.staking → StakeInv s'.staking

lemma updateRefund_changed {owner : Name} {net cpu n c : ℤ} {d : Bool}
    (h : updateRefund now owner net cpu s = .ok (n, c, d, s')) :
    RefundChanged net cpu n c s s' := by
  unfold updateRefund at h
  split at h
  · rename_i r hr
    simp only [bind_ok, check_ok, exists_const] at h
    obtain ⟨-, -, h⟩ := h
    have hn := netted_spec r.netAmount net
    have hc := netted_spec r.cpuAmount cpu
    by_cases hz : (netted r.netAmount net).1 = 0 ∧ (netted r.cpuAmount cpu).1 = 0
    · rw [if_pos hz, pure_ok] at h
      cases h
      refine ⟨⟨_, rfl⟩, ?_, by omega, fun hi => ⟨hi.delband, Table.forall_erase hi.refunds⟩⟩
      simp only [refundTotal, State.eraseRefund, Table.total_erase, Table.valueAt_some hr]
      omega
    · rw [if_neg hz, pure_ok] at h
      cases h
      refine ⟨⟨_, rfl⟩, ?_, by omega,
        fun hi => ⟨hi.delband, Table.forall_insert hi.refunds ⟨hn.2.1, hc.2.1⟩⟩⟩
      simp only [refundTotal, State.setRefund, Table.total_insert_old _ _ hr]
      omega
  · rename_i hr
    by_cases hneg : net < 0 ∨ cpu < 0
    · rw [if_pos hneg, pure_ok] at h
      cases h
      refine ⟨⟨_, rfl⟩, ?_, ?_, fun hi => ⟨hi.delband, Table.forall_insert hi.refunds ?_⟩⟩
      · simp only [refundTotal, State.setRefund, Table.total_insert_new _ _ hr]
        split_ifs <;> omega
      · split_ifs <;> omega
      · constructor <;> dsimp only <;> split_ifs <;> omega
    · rw [if_neg hneg, pure_ok] at h
      cases h
      exact ⟨⟨s.staking.refunds, rfl⟩, rfl, by omega, id⟩

lemma refundBalances_changed {owner receiver : Name} {net cpu n c : ℤ} {transfer d : Bool}
    (h : refundBalances now owner receiver net cpu transfer s = .ok (n, c, d, s')) :
    RefundChanged net cpu n c s s' := by
  unfold refundBalances at h
  dsimp only at h
  split_ifs at h with hc
  · exact updateRefund_changed h
  · cases h
    exact ⟨⟨s.staking.refunds, rfl⟩, rfl, by omega, id⟩

/-- The refund part of a stake change pays in what the stakes and refunds grow by. -/
lemma settleRefund_custody {source owner receiver : Name} {net cpu : ℤ} {transfer : Bool}
    (h : settleRefund now source owner receiver net cpu transfer s = .ok s') :
    custodySurplus s' = custodySurplus s + (net + cpu) ∧
    (StakeInv s.staking → StakeInv s'.staking) := by
  simp only [settleRefund, bind_ok] at h
  obtain ⟨⟨n, c, d, s1⟩, h1, h⟩ := h
  have hr := refundBalances_changed h1
  obtain ⟨refunds, rfl⟩ := hr.only
  have htot := hr.total
  have hpay := hr.payable
  dsimp only [State.scheduleRefund] at h htot
  by_cases hpos : 0 < n + c
  · rw [if_pos hpos] at h
    obtain ⟨t, rfl, -, -, hpaid, -⟩ := inlineTransfer_ok h
    have hb := (hpaid rfl).dest
    refine ⟨?_, fun hi => ⟨hi.delband, (hr.inv hi).refunds⟩⟩
    simp only [custodySurplus, State.coreBalance, delbandTotal, refundTotal] at hb htot ⊢
    omega
  · rw [if_neg hpos, pure_ok] at h
    subst h
    refine ⟨?_, fun hi => ⟨hi.delband, (hr.inv hi).refunds⟩⟩
    simp only [custodySurplus, State.coreBalance, delbandTotal, refundTotal] at htot ⊢
    omega

/-- The weights of a row are additive. -/
lemma delbandTotal_changed {owner receiver : Name} {net cpu : ℤ}
    (h : DelbandChanged owner receiver net cpu s s') :
    delbandTotal s'.staking = delbandTotal s.staking + (net + cpu) :=
  h.total (fun _ d => d.netWeight + d.cpuWeight) fun _ _ _ _ _ => by dsimp only; omega

lemma DelbandChanged.custody {owner receiver : Name} {net cpu : ℤ}
    (h : DelbandChanged owner receiver net cpu s s') :
    custodySurplus s' = custodySurplus s - (net + cpu) := by
  have ht := delbandTotal_changed h
  obtain ⟨delband, rfl⟩ := h.only
  simp only [custodySurplus, State.coreBalance, refundTotal] at ht ⊢
  omega

lemma Moved.custody {account : Name} {net cpu : ℤ} (h : Moved account net cpu s s') :
    custodySurplus s' = custodySurplus s ∧ s'.staking = s.staking := by
  obtain ⟨resources, rfl⟩ := h.only
  exact ⟨rfl, rfl⟩

theorem moveStake_custody {source owner receiver : Name} {net cpu : ℤ} {transfer : Bool}
    (hne : source ≠ stakeAccount)
    (h : moveStake now source owner receiver net cpu transfer s = .ok s') :
    custodySurplus s' = custodySurplus s := by
  simp only [moveStake, bind_ok] at h
  obtain ⟨s1, h1, s2, h2, h⟩ := h
  rw [if_pos hne.symm] at h
  have hd := (changeDelband_changed h1).custody
  have hm := (adjustResources_moved h2).custody.1
  have hs := (settleRefund_custody h).1
  omega

lemma refundBalances_unstake {owner receiver : Name} {net cpu n c : ℤ} {transfer d : Bool}
    (hi : StakeInv s.staking) (hn : net ≤ 0) (hc : cpu ≤ 0)
    (h : refundBalances now owner receiver net cpu transfer s = .ok (n, c, d, s')) : n + c = 0 := by
  unfold refundBalances at h
  dsimp only at h
  split_ifs at h with hr
  · unfold updateRefund at h
    split at h
    · rename_i r hl
      obtain ⟨hnet, hcpu⟩ := hi.refunds owner r hl
      simp only [bind_ok, check_ok, exists_const] at h
      obtain ⟨-, -, h⟩ := h
      rw [netted_unstake hnet hn, netted_unstake hcpu hc] at h
      split_ifs at h <;> cases h <;> rfl
    · split_ifs at h <;> cases h <;> omega
  · cases h
    omega

/-- An unstake pays nothing to `eosio.stake`. -/
lemma moveStake_unstake {source owner receiver : Name} {net cpu : ℤ} {transfer : Bool}
    (hi : StakeInv s.staking) (hn : net ≤ 0) (hc : cpu ≤ 0)
    (h : moveStake now source owner receiver net cpu transfer s = .ok s') : s'.token = s.token := by
  simp only [moveStake, bind_ok] at h
  obtain ⟨s1, h1, s2, h2, h⟩ := h
  have hd := changeDelband_changed h1
  have hm := adjustResources_moved h2
  have hi2 := hd.inv hi
  rw [← hm.custody.2] at hi2
  obtain ⟨delband, rfl⟩ := hd.only
  obtain ⟨resources, rfl⟩ := hm.only
  split_ifs at h
  · simp only [settleRefund, bind_ok] at h
    obtain ⟨⟨n, c, d, s3⟩, h3, h⟩ := h
    have hz := refundBalances_unstake hi2 hn hc h3
    obtain ⟨refunds, rfl⟩ := (refundBalances_changed h3).only
    dsimp only at h
    rw [if_neg (by omega), pure_ok] at h
    rw [← h]
    rfl
  · rw [pure_ok] at h
    rw [← h]

theorem moveStake_stakeInv {source owner receiver : Name} {net cpu : ℤ} {transfer : Bool}
    (h : moveStake now source owner receiver net cpu transfer s = .ok s')
    (hi : StakeInv s.staking) : StakeInv s'.staking := by
  simp only [moveStake, bind_ok] at h
  obtain ⟨s1, h1, s2, h2, h⟩ := h
  have hi1 := (changeDelband_changed h1).inv hi
  rw [← (adjustResources_moved h2).custody.2] at hi1
  split_ifs at h
  · exact (settleRefund_custody h).2 hi1
  · rw [pure_ok] at h
    exact h ▸ hi1

end

section
variable [FloatOps] {now : BlockTimestamp} {π : Promise} {s s' : State}

theorem Effect.custody (h : Effect now π s s') (hq : π.quiet .stake) :
    custodySurplus s' = custodySurplus s := by
  cases h with
  | channel available h paid kept =>
    have hb := kept .stake hq
    dsimp only [Custodian.account] at hb
    simp only [custodySurplus, State.coreBalance, hb]
  | deposit paid credit other =>
    have hb := paid.other (other .stake hq).symm (by decide)
    dsimp only [Custodian.account] at hb
    simp only [custodySurplus, State.coreBalance, hb]
  | withdraw paid debit other =>
    have hb := paid.other (by decide) (other .stake hq).symm
    dsimp only [Custodian.account] at hb
    simp only [custodySurplus, State.coreBalance, hb]
  | tokens rex kept =>
    have hb := kept .stake hq
    dsimp only [Custodian.account] at hb
    simp only [custodySurplus, State.coreBalance, hb]
  | stake h restake rex other => exact moveStake_custody (other .stake hq) h
  | refund row paid other =>
    have hb := paid.source
    simp only [custodySurplus, State.coreBalance, State.eraseRefund, refundTotal, delbandTotal,
      Table.total_erase,
      Table.valueAt_some row]
    omega
  | market h =>
    obtain ⟨resources, powerup, rfl⟩ := h.frame
    rfl
  | channelBids pool available h after paid =>
    have hb := paid.other (a := stakeAccount) (by decide) (by decide)
    simp only [custodySurplus, State.coreBalance, hb]
  | close timestamp names =>
    obtain ⟨auctions, pools, h⟩ := closeAuction_eq timestamp now s
    rw [h]
    rfl
  | _ => rfl

theorem Effect.stakeInv (h : Effect now π s s') (hi : StakeInv s.staking) :
    StakeInv s'.staking := by
  cases h with
  | stake h restake rex other => exact moveStake_stakeInv h hi
  | refund row paid other => exact ⟨hi.delband, Table.forall_erase hi.refunds⟩
  | market h =>
    obtain ⟨resources, powerup, rfl⟩ := h.frame
    exact hi
  | close timestamp names =>
    obtain ⟨auctions, pools, h⟩ := closeAuction_eq timestamp now s
    rw [h]
    exact hi
  | _ => exact hi

theorem Effects.custody (h : Effects now π s s') (hq : π.quiet .stake) :
    custodySurplus s' = custodySurplus s := by
  induction h with
  | refl => rfl
  | tail _ hstep ih => exact (hstep.custody hq).trans ih

theorem Effects.stakeInv (h : Effects now π s s') (hi : StakeInv s.staking) :
    StakeInv s'.staking := by
  induction h with
  | refl => exact hi
  | tail _ hstep ih => exact hstep.stakeInv ih

omit [FloatOps] in
/-- Unstaking into REX moves the tokens from `eosio.stake` to `eosio.rex`. -/
theorem Purchase.custody (h : Purchase now π s s') :
    custodySurplus s' = custodySurplus s ∧ (StakeInv s.staking → StakeInv s'.staking) := by
  obtain ⟨owner, payment, delta, mid, -, h0, hf, hpur⟩ := h.parts
  obtain ⟨received, p', stake, -, rfl⟩ := purchase_ok hpur
  cases hf with
  | fund debit => exact ⟨rfl, id⟩
  | stake net cpu sum hu paid =>
    obtain ⟨m, hd, hm⟩ := unstakeBandwidth_changed hu
    have h1 := hd.custody
    have h2 := hm.custody
    have hb := paid.source
    refine ⟨?_, fun hi => h2.2 ▸ hd.inv hi⟩
    simp only [custodySurplus, State.coreBalance] at h1 h2 hb ⊢
    omega

theorem step.custody {l : Label} (h : step now l s s') (hq : l.StakeQuiet) :
    custodySurplus s' = custodySurplus s := by
  obtain ⟨mid, hm, he⟩ := exec_decomposed h
  rcases hm with rfl | hp
  · exact he.custody hq
  · exact (he.custody hq).trans hp.custody.1

theorem step.stakeInv {l : Label} (h : step now l s s') (hi : StakeInv s.staking) :
    StakeInv s'.staking := by
  obtain ⟨mid, hm, he⟩ := exec_decomposed h
  rcases hm with rfl | hp
  · exact he.stakeInv hi
  · exact he.stakeInv (hp.custody.2 hi)

omit [FloatOps] in
lemma Genesis.stakeInv (h : Genesis s) : StakeInv s.staking := by
  constructor
  · intro key d hd
    rw [h.delband] at hd
    cases hd
  · intro owner r hr
    rw [h.refunds] at hr
    cases hr

theorem Reachable.stakeInv {t : BlockTimestamp} (h : Reachable t s) : StakeInv s.staking := by
  obtain ⟨t₀, s₀, tr, hg, hrun⟩ := h
  exact hrun.stateInvariant (fun _ s => StakeInv s.staking) hg.stakeInv fun hi _ hs =>
    hs.stakeInv hi

def Action.isStaking : Action → Prop
  | .delegatebw .. => True
  | .undelegatebw .. => True
  | .refund .. => True
  | .unstaketorex .. => True
  | _ => False

/-- A staking action that `eosio.stake` has not authorised moves its balance by exactly the
change of the stakes and refunds, none of which is ever negative. Over whole runs without
direct transfers into it, `eosio.stake` holds exactly what is staked or waits to be refunded. -/
theorem stake_custody {t : BlockTimestamp} (h : Reachable t s) :
    (∀ u l s', t ≤ u → step u l s s' → l.action.isStaking → stakeAccount ∉ l.auth →
      s'.coreBalance stakeAccount - s.coreBalance stakeAccount =
        delbandTotal s'.staking + refundTotal s'.staking -
          (delbandTotal s.staking + refundTotal s.staking)) ∧
    StakeInv s.staking ∧
    ∀ t₀ s₀ tr, Genesis s₀ → TimedRun step t₀ s₀ tr t s → (∀ x ∈ tr, x.2.StakeQuiet) →
      s.coreBalance stakeAccount =
        s₀.coreBalance stakeAccount + (delbandTotal s.staking + refundTotal s.staking) := by
  refine ⟨fun u l s' _ hs hstk hauth => ?_, h.stakeInv, fun t₀ s₀ tr hg hrun hq => ?_⟩
  · have hquiet : l.StakeQuiet := by
      refine ⟨hauth, ?_⟩
      revert hstk
      cases l.action <;> simp [Action.isStaking]
    have := hs.custody hquiet
    simp only [custodySurplus] at this
    omega
  · have hsame : custodySurplus s = custodySurplus s₀ :=
      hrun.invariant (fun _ _ s => custodySurplus s = custodySurplus s₀) Label.StakeQuiet rfl
        (fun hi _ hl hs => (hs.custody hl).trans hi) hq
    have h0 : custodySurplus s₀ = s₀.coreBalance stakeAccount := by
      simp [custodySurplus, delbandTotal, refundTotal, hg.delband, hg.refunds]
    simp only [custodySurplus] at hsame h0
    omega

def stakeTrace : List (BlockTimestamp × Label) :=
  [(launchTime, ⟨[alice], .delegatebw alice bob ⟨50000, tlos⟩ ⟨70000, tlos⟩ false⟩),
    (launchTime, ⟨[alice], .undelegatebw alice bob ⟨20000, tlos⟩ ⟨0, tlos⟩⟩)]

omit [FloatOps] in
theorem launch_stake_custody :
    (launched stakeTrace).coreBalance stakeAccount = launchState.coreBalance stakeAccount +
      (delbandTotal (launched stakeTrace).staking + refundTotal (launched stakeTrace).staking) ∧
      refundTotal (launched stakeTrace).staking = 20000 := by
  have hl : launches stakeTrace = true := by decide +kernel
  have hc : (launchTime :: stakeTrace.map Prod.fst).IsChain (· ≤ ·) := by decide
  refine ⟨?_, by decide +kernel⟩
  refine (@stake_custody launchFloats _ _ (launched_reachable hl hc)).2.2 launchTime
    launchState stakeTrace
    launchState_genesis (launched_run hl hc) ?_
  simp [stakeTrace, Label.StakeQuiet]
  decide

end
end TelosSystem
