import TelosSystem.BandwidthAccounting
import TelosSystem.RexPurchase
import TelosSystem.VoteLedger

/-! What backs the stake of a voter: the bandwidth it has delegated and the vote stake of its REX,
without the change of a filled order that it has not collected yet. Every action moves the stake
and its backing together, except `closerex` of a row that holds vote stake and no REX. -/
namespace TelosSystem
open Ledger

def delegatedBy (staking : Staking) (v : Name) : ℤ :=
  staking.delband.total fun key d => if key.1 = v then d.netWeight + d.cpuWeight else 0

lemma StakeInv.delegatedBy_nonneg {x : Staking} (h : StakeInv x) (v : Name) :
    0 ≤ delegatedBy x v := by
  refine Table.total_nonneg fun key d hl => ?_
  have hd := h.delband key d hl
  split_ifs <;> omega

def voteStakeOf (x : Rex) (v : Name) : ℤ := x.balances.valueAt (fun _ rb => rb.voteStake) v

/-- The stake change of a filled order that its owner has not collected yet. -/
def pendingStake (v : Name) (orders : Table Name RexOrder) : ℤ :=
  match orders.lookup v with
  | some o => if o.isOpen then 0 else o.stakeChange
  | none => 0

/-- The stake of a voter without its backing. -/
def stakeGap (s : State) (v : Name) : ℤ :=
  s.voting.stakedOf v - (delegatedBy s.staking v + voteStakeOf s.rex v -
    pendingStake v s.rex.orders)

section
variable {s s' : State} {v owner : Name}

lemma voteStakeOf_insert (x : Rex) (balances : Table Name RexBalance) (owner : Name)
    (rb : RexBalance) (v : Name) (h : balances = x.balances.insert owner rb) :
    balances.valueAt (fun _ rb => rb.voteStake) v = voteStakeOf x v +
      if v = owner then rb.voteStake - voteStakeOf x v else 0 := by
  subst h
  unfold voteStakeOf
  by_cases hv : v = owner
  · rw [if_pos hv, hv, Table.valueAt_some (AList.lookup_insert _)]
    omega
  · rw [if_neg hv, Table.valueAt, Table.lookup_insert', if_neg hv, add_zero, Table.valueAt]

lemma pendingStake_collect (owner v : Name) (orders : Table Name RexOrder) :
    pendingStake v (collectOrder owner orders) =
      if v = owner then 0 else pendingStake v orders := by
  unfold collectOrder
  cases hl : orders.lookup owner with
  | none =>
    dsimp only
    split_ifs with hv
    · rw [hv, pendingStake, hl]
    · rfl
  | some o =>
    dsimp only
    by_cases ho : o.isOpen = true
    · rw [if_pos ho]
      split_ifs with hv
      · rw [hv, pendingStake, hl]
        exact if_pos ho
      · rfl
    · rw [if_neg ho]
      split_ifs with hv
      · rw [hv, pendingStake, AList.lookup_erase]
      · rw [pendingStake, AList.lookup_erase_ne hv, pendingStake]

lemma takeOrder_pending (owner : Name) (s : State) : ∃ rex proceeds, takeOrder owner s =
    (rex, proceeds, pendingStake owner s.rex.orders,
      { s with rex := { s.rex with orders := collectOrder owner s.rex.orders } }) := by
  unfold takeOrder pendingStake collectOrder
  cases s.rex.orders.lookup owner with
  | none => exact ⟨_, _, rfl⟩
  | some o =>
    dsimp only
    split_ifs
    · exact ⟨_, _, rfl⟩
    · exact ⟨_, _, rfl⟩

end

section
variable [FloatOps] {now : BlockTimestamp} {s s' : State} {v owner : Name}

omit [FloatOps] in
lemma Voting.stakedOf_setVoter (w : Voting) (owner v : Name) (row : VoterInfo) :
    (w.setVoter owner row).stakedOf v = if v = owner then row.staked else w.stakedOf v := by
  unfold Voting.stakedOf Voting.setVoter
  rw [Table.lookup_insert']
  split_ifs <;> rfl

lemma updateVotingPower_stake {w w' : Voting} {delta : ℤ}
    (h : w.updateVotingPower now owner delta = .ok w') :
    (∀ v, w'.stakedOf v = w.stakedOf v + if v = owner then delta else 0) ∧
      (w'.voters.lookup owner).isSome := by
  have hwritten : ∀ row : VoterInfo, row.staked = w.stakedOf owner + delta →
      (if row.producers ≠ [] ∨ row.proxy ≠ Name.empty then
        (w.setVoter owner row).updateVotes now owner row.proxy row.producers false
        else pure (w.setVoter owner row)) = .ok w' →
      (∀ v, w'.stakedOf v = w.stakedOf v + if v = owner then delta else 0) ∧
        (w'.voters.lookup owner).isSome := by
    intro row hstaked h
    have hc : Voting.Counted (w.setVoter owner row) w' := by
      split_ifs at h
      · exact Voting.updateVotes_counted h
      · cases h
        exact Voting.Counted.refl _
    refine ⟨fun v => ?_, ?_⟩
    · rw [hc.stakedOf, Voting.stakedOf_setVoter, hstaked]
      split_ifs with hv
      · rw [hv]
      · rw [add_zero]
    · have hl := congrArg Option.isSome (hc.voters owner)
      rw [Option.isSome_map, Voting.setVoter, AList.lookup_insert] at hl
      exact hl
  unfold Voting.updateVotingPower at h
  cases hl : w.voters.lookup owner with
  | none =>
    simp only [hl, bind_ok, check_ok, exists_const] at h
    refine hwritten { staked := delta } ?_ h.2
    rw [Voting.stakedOf, hl]
    exact (zero_add delta).symm
  | some row =>
    simp only [hl, bind_ok, check_ok, exists_const] at h
    refine hwritten { row with staked := row.staked + delta } ?_ h.2
    rw [Voting.stakedOf, hl]
    rfl

/-- Collecting an order and a stake change: only the change is new. -/
lemma updateRexAccount_stake {proceeds delta q : ℤ} {force : Bool}
    (h : updateRexAccount now owner proceeds delta force s = .ok (q, s')) :
    (∀ v, stakeGap s' v = stakeGap s v + if v = owner then delta else 0) ∧
    (force = true ∨ delta + pendingStake owner s.rex.orders ≠ 0 →
      (s'.voting.voters.lookup owner).isSome) := by
  obtain ⟨rex, orderProceeds, ht⟩ := takeOrder_pending owner s
  unfold updateRexAccount at h
  rw [ht] at h
  simp only [bind_ok, pure_ok, Prod.mk.injEq] at h
  obtain ⟨s₁, h₁, s₂, h₂, -, rfl⟩ := h
  obtain ⟨funds, rfl, -⟩ := creditFund_ok h₁
  have hp := pendingStake_collect owner
  unfold updateVoteStake at h₂
  split_ifs at h₂ with hc
  · simp only [bind_ok, pure_ok] at h₂
    obtain ⟨w, hw, rfl⟩ := h₂
    obtain ⟨hstaked, hrow⟩ := updateVotingPower_stake hw
    refine ⟨fun v => ?_, fun _ => hrow⟩
    have hs := hstaked v
    have hpv := hp v s.rex.orders
    simp only [stakeGap, voteStakeOf] at hs ⊢
    rw [hs, hpv]
    split_ifs with hv
    · rw [hv]
      omega
    · omega
  · cases h₂
    refine ⟨fun v => ?_, fun hf => absurd hf hc⟩
    have hpv := hp v s.rex.orders
    have hzero : delta + pendingStake owner s.rex.orders = 0 := by
      by_contra hne
      exact hc (Or.inr hne)
    simp only [stakeGap, voteStakeOf]
    rw [hpv]
    split_ifs with hv
    · rw [hv]
      omega
    · omega

omit [FloatOps] in
/-- A purchase changes the vote stake of the buyer by what it returns. -/
lemma purchase_stake {payment delta : ℤ} (h : purchase now owner payment s = .ok (delta, s')) :
    s'.voting = s.voting ∧ s'.staking = s.staking ∧ s'.rex.orders = s.rex.orders ∧
    (∀ v, voteStakeOf s'.rex v = voteStakeOf s.rex v + if v = owner then delta else 0) ∧
    (∀ v, v ≠ owner → s'.rex.balances.lookup v = s.rex.balances.lookup v) ∧
    (s.rex.balances.lookup owner = none → delta = payment) ∧
    ∃ row, s'.rex.balances = s.rex.balances.insert owner row ∧ (row.voteStake = payment ∨
      ∃ p, s'.pools.rexpool = some p ∧ row.voteStake = p.valueOf row.rexBalance) := by
  simp only [purchase, addToRexBalance, bind_ok, pure_ok, Prod.mk.injEq] at h
  obtain ⟨⟨received, s₁⟩, h₁, ⟨d, row⟩, h₂, rfl, rfl⟩ := h
  obtain ⟨p', rfl, -⟩ := addToRexPool_ok h₁
  have hd : d = row.voteStake - voteStakeOf s.rex owner ∧
    (s.rex.balances.lookup owner = none → d = payment) ∧
      (row.voteStake = payment ∨ row.voteStake = p'.valueOf row.rexBalance) := by
    unfold raisedBalance at h₂
    unfold voteStakeOf
    cases hl : s.rex.balances.lookup owner with
    | none =>
      rw [show (s.setPool p').rex.balances.lookup owner = none from hl] at h₂
      cases h₂
      rw [Table.valueAt_none hl]
      exact ⟨(sub_zero payment).symm, fun _ => rfl, Or.inl rfl⟩
    | some rb =>
      rw [show (s.setPool p').rex.balances.lookup owner = some rb from hl] at h₂
      simp only [bind_ok, require_ok, check_ok, exists_const, pure_ok, Prod.mk.injEq] at h₂
      obtain ⟨q, hq, -, rfl, rfl⟩ := h₂
      cases hq
      rw [Table.valueAt_some hl]
      exact ⟨rfl, fun hn => (Option.some_ne_none rb hn).elim, Or.inr rfl⟩
  refine ⟨rfl, rfl, rfl, fun v => ?_, fun v hv => AList.lookup_insert_ne hv, hd.2.1,
    row.receive now received, rfl, ?_⟩
  swap
  · rw [RexBalance.receive_voteStake, RexBalance.receive_rexBalance]
    exact hd.2.2.imp_right fun hs => ⟨p', rfl, hs⟩
  have hv := voteStakeOf_insert s.rex _ owner (row.receive now received) v rfl
  rw [RexBalance.receive_voteStake] at hv
  refine hv.trans ?_
  split_ifs with hvo
  · rw [hvo, hd.1]
  · rfl

end

def heldBy (x : Rex) (v : Name) : Bool := (x.balances.lookup v).isSome || (x.orders.lookup v).isSome

/-- Whoever holds REX has a row as a voter. -/
def HoldersVote (s : State) : Prop := ∀ v, heldBy s.rex v = true → (s.voting.voters.lookup v).isSome

/-- The gap of one account moves by an amount, and voters stay voters. -/
structure Shifted (owner : Name) (delta : ℤ) (s s' : State) : Prop where
  gap : ∀ v, stakeGap s' v = stakeGap s v + if v = owner then delta else 0
  voters : ∀ v, (s.voting.voters.lookup v).isSome → (s'.voting.voters.lookup v).isSome
  held : ∀ v, heldBy s'.rex v = true → heldBy s.rex v = true ∨ (s'.voting.voters.lookup v).isSome

section
variable {s s' s'' : State} {v owner : Name} {delta delta' : ℤ}

lemma heldBy_iff {x : Rex} :
    heldBy x v = true ↔ (x.balances.lookup v).isSome ∨ (x.orders.lookup v).isSome := by
  simp [heldBy]

lemma Shifted.trans (h : Shifted owner delta s s') (h' : Shifted owner delta' s' s'') :
    Shifted owner (delta + delta') s s'' := by
  refine ⟨fun v => ?_, fun v hv => h'.voters v (h.voters v hv), fun v hv => ?_⟩
  · rw [h'.gap, h.gap]
    split_ifs <;> omega
  · rcases h'.held v hv with hh | hs
    · exact (h.held v hh).imp_right (h'.voters v)
    · exact Or.inr hs

lemma Shifted.same (owner : Name) (hvot : s'.voting = s.voting)
    (hdel : s'.staking.delband = s.staking.delband) (hbal : s'.rex.balances = s.rex.balances)
    (hord : s'.rex.orders = s.rex.orders) : Shifted owner 0 s s' := by
  refine ⟨fun v => ?_, fun v hv => ?_, fun v hv => Or.inl ?_⟩
  · simp [stakeGap, delegatedBy, voteStakeOf, hvot, hdel, hbal, hord]
  · rw [hvot]
    exact hv
  · rw [heldBy_iff, hbal, hord] at hv
    exact heldBy_iff.mpr hv

lemma Shifted.zero (h : Shifted v 0 s s') (owner : Name) : Shifted owner 0 s s' := by
  refine ⟨fun a => ?_, h.voters, h.held⟩
  rw [h.gap]
  split_ifs <;> rfl

/-- A row rewritten: the gap moves against its vote stake. -/
lemma Shifted.writeBalance {rb : RexBalance} (hl : s.rex.balances.lookup owner = some rb)
    (rb' : RexBalance) :
    Shifted owner (rb.voteStake - rb'.voteStake) s (s.setBalance owner rb') := by
  refine ⟨fun a => ?_, fun _ => id, fun a ha => Or.inl ?_⟩
  · have hrb : voteStakeOf s.rex owner = rb.voteStake := Table.valueAt_some hl
    have hv : voteStakeOf { s.rex with balances := s.rex.balances.insert owner rb' } a = _ :=
      voteStakeOf_insert s.rex _ owner rb' a rfl
    simp only [stakeGap, State.setBalance, hv]
    split_ifs with hao
    · rw [hao, hrb]
      omega
    · omega
  · rw [heldBy_iff] at ha ⊢
    refine ha.imp_left fun hb => ?_
    rw [State.setBalance, Table.lookup_insert'] at hb
    split_ifs at hb with hao
    · rw [hao, hl]
      rfl
    · exact hb

/-- A row that keeps its vote stake. -/
lemma Shifted.setBalance {rb rb' : RexBalance} (owner : Name)
    (hl : s.rex.balances.lookup v = some rb) (hstake : rb'.voteStake = rb.voteStake) :
    Shifted owner 0 s (s.setBalance v rb') := by
  have hw := Shifted.writeBalance hl rb'
  rw [hstake, sub_self] at hw
  exact hw.zero owner

/-- A row erased: its vote stake is not backed any more. -/
lemma Shifted.dropBalance {rb : RexBalance} (hl : s.rex.balances.lookup owner = some rb) :
    Shifted owner rb.voteStake s
      { s with rex := { s.rex with balances := s.rex.balances.erase owner } } := by
  refine ⟨fun a => ?_, fun _ => id, fun a ha => Or.inl ?_⟩
  · have hrb : voteStakeOf s.rex owner = rb.voteStake := Table.valueAt_some hl
    simp only [stakeGap, voteStakeOf] at hrb ⊢
    by_cases hao : a = owner
    · rw [if_pos hao, hao, Table.valueAt_none (AList.lookup_erase _ _), hrb]
      omega
    · rw [if_neg hao, Table.valueAt, AList.lookup_erase_ne hao, Table.valueAt]
      omega
  · rw [heldBy_iff] at ha ⊢
    refine ha.imp_left fun hb => ?_
    by_cases hao : a = owner
    · rw [hao, hl]
      rfl
    · rw [AList.lookup_erase_ne hao] at hb
      exact hb

/-- An order of an account that holds REX, with the same stake change. -/
lemma Shifted.setOrders {orders : Table Name RexOrder} (owner : Name)
    (hsame : ∀ a, pendingStake a orders = pendingStake a s.rex.orders)
    (hheld : ∀ a, (orders.lookup a).isSome → heldBy s.rex a = true) :
    Shifted owner 0 s { s with rex := { s.rex with orders } } := by
  refine ⟨fun a => ?_, fun _ => id, fun a ha => Or.inl ?_⟩
  · simp [stakeGap, voteStakeOf, hsame]
  · rcases heldBy_iff.mp ha with hb | ho
    · exact heldBy_iff.mpr (Or.inl hb)
    · exact hheld a ho

lemma pendingStake_insert {orders : Table Name RexOrder} {o : RexOrder} (a : Name) :
    pendingStake a (orders.insert v o) =
      if a = v then (if o.isOpen then 0 else o.stakeChange) else pendingStake a orders := by
  unfold pendingStake
  rw [Table.lookup_insert']
  split_ifs <;> simp_all

lemma Shifted.enqueue {now : BlockTimestamp} {rex : ℤ} (owner : Name)
    (hb : (s.rex.balances.lookup v).isSome)
    (hopen : ∀ o, s.rex.orders.lookup v = some o → o.isOpen = true) :
    Shifted owner 0 s (s.setOrder v (queuedOrder now rex (s.rex.orders.lookup v))) := by
  have hqueued : (queuedOrder now rex (s.rex.orders.lookup v)).isOpen = true := by
    unfold queuedOrder
    cases hl : s.rex.orders.lookup v with
    | none => rfl
    | some o => exact hopen o hl
  refine Shifted.setOrders owner (fun a => ?_) fun a ha => ?_
  · rw [pendingStake_insert, if_pos hqueued]
    split_ifs with hav
    · subst hav
      unfold pendingStake
      cases hl : s.rex.orders.lookup a with
      | none => rfl
      | some o => exact (if_pos (hopen o hl)).symm
    · rfl
  · rw [Table.lookup_insert'] at ha
    split_ifs at ha with hav
    · exact heldBy_iff.mpr (Or.inl (hav ▸ hb))
    · exact heldBy_iff.mpr (Or.inr ha)

lemma Shifted.holdersVote (h : Shifted owner delta s s') (hv : HoldersVote s) : HoldersVote s' :=
  fun v hh =>
  (h.held v hh).elim (fun hs => h.voters v (hv v hs)) id

end

section
variable [FloatOps] {now : BlockTimestamp} {π : Promise} {s s' : State} {v owner : Name}

lemma VotingStep.voters_kept {rows : RowRule} {ballots : Prop} {w w' : Voting}
    (h : VotingStep now rows ballots w w') (hv : (w.voters.lookup v).isSome) :
    (w'.voters.lookup v).isSome := by
  have hcount : ∀ {w'' : Voting}, Voting.Counted w w'' → (w''.voters.lookup v).isSome := by
    intro w'' hc
    have hl := congrArg Option.isSome (hc.voters v)
    rw [Option.isSome_map, Option.isSome_map] at hl
    exact hl.trans hv
  have hset : ∀ (a : Name) (row : VoterInfo), ((w.setVoter a row).voters.lookup v).isSome := by
    intro a row
    unfold Voting.setVoter
    rw [Table.lookup_insert']
    split_ifs
    · rfl
    · exact hv
  cases h with
  | votes h _ own => exact hcount (Voting.updateVotes_counted h)
  | stake staked h => exact hset _ _
  | enter staked h => exact hset _ _
  | flag account field value =>
    unfold Voting.setFlag
    split
    · exact hset _ _
    · exact hset _ _
  | register allowed h => exact hv
  | configure h => exact hv
  | recount broken h => exact hcount (Voting.recalculateVotes_counted h)

theorem VotingSteps.voters_kept {rows : RowRule} {ballots : Prop} {w w' : Voting}
    (h : VotingSteps now rows ballots w w') (hv : (w.voters.lookup v).isSome) :
    (w'.voters.lookup v).isSome := by
  induction h with
  | refl => exact hv
  | tail _ hstep ih => exact hstep.voters_kept ih

/-- An effect that does not restake moves the stake with its backing. -/
theorem Effect.shifted (h : Effect now π s s') (hr : ¬ π.restake) (owner : Name) :
    Shifted owner 0 s s' := by
  have hvoters : ∀ {w : Voting}, VotingSteps now π.rows π.ballots s.voting w →
    (∀ a, w.stakedOf a = s.voting.stakedOf a) →
      Shifted owner 0 s { s with voting := w } := by
    intro w hw hs
    refine ⟨fun a => ?_, fun a ha => hw.voters_kept ha, fun a ha => Or.inl ha⟩
    simp [stakeGap, hs]
  cases h with
  | @fillOrder a o rb p stake order isOpen row pool fillable settled value =>
    refine ⟨fun b => ?_, fun _ => id, fun b hb => Or.inl ?_⟩
    · have hv := voteStakeOf_insert s.rex _ a (rb.sell o.rexRequested stake) b rfl
      have hrb : voteStakeOf s.rex a = rb.voteStake := Table.valueAt_some row
      have hold : pendingStake a s.rex.orders = 0 := by
        rw [pendingStake, order]
        exact if_pos isOpen
      simp only [stakeGap, State.afterSale, voteStakeOf, pendingStake_insert] at hv hrb ⊢
      rw [hv]
      split_ifs with hba hbo hbo <;> simp_all [RexBalance.sell] <;> omega
    · rw [heldBy_iff] at hb ⊢
      simp only [State.afterSale, Table.lookup_insert'] at hb
      by_cases hba : b = a
      · rw [hba, row]
        exact Or.inl rfl
      · simpa [hba] using hb
  | sell restake => exact absurd restake hr
  | collect restake => exact absurd restake hr
  | enqueue actor row noFilled positive matured =>
    exact Shifted.enqueue owner (by rw [row]; rfl) noFilled
  | reshape row h others restake stakes => exact Shifted.setBalance owner row (restake hr)
  | @cancel a o actor order isOpen =>
    refine Shifted.setOrders owner (fun b => ?_) fun b hb => ?_
    · by_cases hba : b = a
      · rw [hba, pendingStake, AList.lookup_erase, pendingStake, order]
        exact (if_pos isOpen).symm
      · rw [pendingStake, AList.lookup_erase_ne hba, pendingStake]
    · by_cases hba : b = a
      · rw [hba, AList.lookup_erase] at hb
        cases hb
      · rw [AList.lookup_erase_ne hba] at hb
        exact heldBy_iff.mpr (Or.inr hb)
  | dropBalance restake => exact absurd restake hr
  | voting restake => exact absurd restake hr
  | election kept votes => exact hvoters votes kept
  | stake h restake => exact absurd restake hr
  | market h =>
    obtain ⟨resources, powerup, rfl⟩ := h.frame
    exact Shifted.same owner rfl rfl rfl rfl
  | close timestamp names =>
    obtain ⟨auctions, pools, h⟩ := closeAuction_eq timestamp now s
    rw [h]
    exact Shifted.same owner rfl rfl rfl rfl
  | _ => exact Shifted.same owner rfl rfl rfl rfl

theorem Effects.shifted (h : Effects now π s s') (hr : ¬ π.restake) (owner : Name) :
    Shifted owner 0 s s' := by
  induction h with
  | refl => exact Shifted.same owner rfl rfl rfl rfl
  | tail _ hstep ih => exact ih.trans (hstep.shifted hr owner)

end

section
variable [FloatOps] {now : BlockTimestamp} {ctx : Context} {s s' : State} {v owner : Name}

lemma runrex_shifted {max : ℕ} (owner : Name) (h : runrex now max s = .ok s') :
    Shifted owner 0 s s' :=
  (runrex_effects (π := Promise.maintenance) h).1.shifted id owner

omit [FloatOps] in
lemma Shifted.counted {w : Voting} (owner : Name) (h : Voting.Counted s.voting w) :
    Shifted owner 0 s { s with voting := w } := by
  refine ⟨fun a => ?_, fun a ha => ?_, fun a ha => Or.inl ha⟩
  · simp [stakeGap, h.stakedOf]
  · have hl := congrArg Option.isSome (h.voters a)
    rw [Option.isSome_map, Option.isSome_map] at hl
    exact hl.trans ha

lemma updateRexAccount_shifted {proceeds delta q : ℤ} {force : Bool}
    (h : updateRexAccount now owner proceeds delta force s = .ok (q, s')) :
    Shifted owner delta s s' := by
  obtain ⟨-, funds, w, rfl, hw, -⟩ := updateRexAccount_ok (fun _ _ _ => True) True h
  refine ⟨(updateRexAccount_stake h).1, fun a ha => hw.voters_kept ha, fun a ha => Or.inl ?_⟩
  rw [heldBy_iff] at ha ⊢
  refine ha.imp_right fun ho => ?_
  obtain ⟨o, ho⟩ := Option.isSome_iff_exists.mp ho
  rw [collectOrder_lookup ho]
  rfl

lemma updateVotingPower_shifted {w : Voting} {delta : ℤ}
    (h : s.voting.updateVotingPower now owner delta = .ok w) :
    Shifted owner delta s { s with voting := w } := by
  have hp := (updateVotingPower_stake h).1
  have hsteps : VotingSteps now (fun _ _ _ => True) True s.voting w := updateVotingPower_steps h
  refine ⟨fun a => ?_, fun a ha => hsteps.voters_kept ha, fun a ha => Or.inl ha⟩
  simp only [stakeGap, hp a]
  omega

omit [FloatOps] in
/-- Reading the value of the REX into the vote stake changes the stake alike. -/
lemma updateRexStake_shifted (owner : Name) (hv : HoldersVote s) :
    Shifted owner 0 s (updateRexStake owner s) := by
  unfold updateRexStake
  cases hb : s.rex.balances.lookup owner with
  | none => exact Shifted.same owner rfl rfl rfl rfl
  | some rb =>
    cases hp : s.pools.rexpool with
    | none => exact Shifted.same owner rfl rfl rfl rfl
    | some p =>
      dsimp only
      by_cases hr : 0 < p.totalRex
      · rw [if_pos hr]
        obtain ⟨row, hrow⟩ := Option.isSome_iff_exists.mp
          (hv owner (heldBy_iff.mpr (Or.inl (by rw [hb]; rfl))))
        have hrow' : (s.setBalance owner { rb with
            voteStake := rb.rexBalance * p.totalLendable / p.totalRex }).voting.voters.lookup
              owner = some row := hrow
        rw [hrow']
        dsimp only
        by_cases hd : rb.rexBalance * p.totalLendable / p.totalRex - rb.voteStake = 0
        · rw [if_neg (not_not.mpr hd)]
          exact Shifted.setBalance owner hb (sub_eq_zero.mp hd)
        · rw [if_pos hd]
          have hstaked : s.voting.stakedOf owner = row.staked := by rw [Voting.stakedOf, hrow]; rfl
          have hvs : voteStakeOf s.rex owner = rb.voteStake := Table.valueAt_some hb
          have hins := voteStakeOf_insert s.rex _ owner
            { rb with voteStake := rb.rexBalance * p.totalLendable / p.totalRex } (h := rfl)
          refine ⟨fun a => ?_, fun a ha => ?_, fun a ha => Or.inl ?_⟩
          · have ha := hins a
            simp only [stakeGap, State.setBalance, voteStakeOf, Voting.stakedOf_setVoter]
              at ha hvs ⊢
            rw [ha]
            split_ifs with hao
            · rw [hao, hstaked]
              omega
            · omega
          · simp only [State.setBalance, Voting.setVoter, Table.lookup_insert']
            split_ifs
            · rfl
            · exact ha
          · rw [heldBy_iff] at ha ⊢
            refine ha.imp_left fun hba => ?_
            rw [State.setBalance, Table.lookup_insert'] at hba
            split_ifs at hba with hao
            · rw [hao, hb]
              rfl
            · exact hba
      · rw [if_neg hr]
        exact Shifted.same owner rfl rfl rfl rfl

omit [FloatOps] in
lemma DelbandChanged.shifted {receiver : Name} {net cpu : ℤ}
    (h : DelbandChanged owner receiver net cpu s s') : Shifted owner (-(net + cpu)) s s' := by
  have ht := fun a => h.total
    (fun key d => if key.1 = a then d.netWeight + d.cpuWeight else 0) fun key _ _ _ _ => by
    dsimp only
    split_ifs <;> omega
  obtain ⟨delband, rfl⟩ := h.only
  refine ⟨fun a => ?_, fun _ => id, fun _ => Or.inl⟩
  have ha := ht a
  simp only [stakeGap, delegatedBy] at ha ⊢
  rw [ha]
  by_cases hao : a = owner
  · rw [if_pos hao.symm, if_pos hao]
    omega
  · rw [if_neg (Ne.symm hao), if_neg hao]
    omega

omit [FloatOps] in
lemma Moved.shifted {receiver : Name} {net cpu : ℤ} (owner : Name)
    (h : Moved receiver net cpu s s') : Shifted owner 0 s s' := by
  obtain ⟨resources, rfl⟩ := h.only
  exact Shifted.same owner rfl rfl rfl rfl

omit [FloatOps] in
/-- The stake that a stake change delegates. -/
lemma moveStake_shifted {source receiver : Name} {net cpu : ℤ} {transfer : Bool}
    (h : moveStake now source owner receiver net cpu transfer s = .ok s') :
    Shifted owner (-(net + cpu)) s s' := by
  simp only [moveStake, bind_ok] at h
  obtain ⟨s₁, h₁, s₂, h₂, h⟩ := h
  have hmoved := (changeDelband_changed h₁).shifted.trans ((adjustResources_moved h₂).shifted owner)
  have hrest : Shifted owner 0 s₂ s' := by
    split_ifs at h
    · simp only [settleRefund, bind_ok] at h
      obtain ⟨⟨n, c, d, s₃⟩, h₃, h⟩ := h
      obtain ⟨refunds, rfl⟩ := (refundBalances_changed h₃).only
      dsimp only [State.scheduleRefund] at h
      by_cases hpos : 0 < n + c
      · rw [if_pos hpos] at h
        obtain ⟨t, rfl, -⟩ := inlineTransfer_ok h
        exact Shifted.same owner rfl rfl rfl rfl
      · rw [if_neg hpos, pure_ok] at h
        subst h
        exact Shifted.same owner rfl rfl rfl rfl
    · rw [pure_ok] at h
      subst h
      exact Shifted.same owner rfl rfl rfl rfl
  have hall := hmoved.trans hrest
  rw [add_zero, add_zero] at hall
  exact hall

/-- Only an account itself puts REX up for sale. -/
lemma Effect.noOrder {π : Promise} (h : Effect now π s s') (ha : ¬ π.actor v)
    (hn : s.rex.orders.lookup v = none) : s'.rex.orders.lookup v = none := by
  have hcollect : ∀ a, (collectOrder a s.rex.orders).lookup v = none := by
    intro a
    by_contra hne
    obtain ⟨o, ho⟩ := Option.ne_none_iff_exists'.mp hne
    rw [collectOrder_lookup ho] at hn
    cases hn
  cases h with
  | @fillOrder a o rb p stake order =>
    have hne : v ≠ a := fun he => by rw [he, order] at hn; cases hn
    exact (AList.lookup_insert_ne hne).trans hn
  | sell => exact hcollect _
  | collect => exact hcollect _
  | @enqueue a rb rex actor =>
    have hne : v ≠ a := fun he => ha (he ▸ actor)
    exact (AList.lookup_insert_ne hne).trans hn
  | @cancel a o actor order isOpen =>
    have hne : v ≠ a := fun he => ha (he ▸ actor)
    exact (AList.lookup_erase_ne hne).trans hn
  | stake h =>
    obtain ⟨staking, resources, token, rfl, -⟩ := moveStake_frame h
    exact hn
  | market h =>
    obtain ⟨resources, powerup, rfl⟩ := h.frame
    exact hn
  | close timestamp names =>
    obtain ⟨auctions, pools, h⟩ := closeAuction_eq timestamp now s
    rw [h]
    exact hn
  | _ => exact hn

theorem Effects.noOrder {π : Promise} (h : Effects now π s s') (ha : ¬ π.actor v)
    (hn : s.rex.orders.lookup v = none) : s'.rex.orders.lookup v = none := by
  induction h with
  | refl => exact hn
  | tail _ hstep ih => exact hstep.noOrder ha ih

/-- A purchase with the maintenance run and the collection after it: the stake of the buyer moves
by a change besides what its REX gains. -/
lemma bought_shifted {payment delta change q : ℤ} {force : Bool} {s₁ s₂ : State} (h0 : 0 < payment)
    (hpur : purchase now owner payment s = .ok (delta, s₁)) (hrun : runrex now 2 s₁ = .ok s₂)
    (hcol : updateRexAccount now owner 0 (delta + change) force s₂ = .ok (q, s'))
    (hforce : force = true ∨ change = 0) : Shifted owner change s s' := by
  obtain ⟨hvoting, hstaking, horders, hstake, hothers, hnew, -⟩ := purchase_stake hpur
  have hr := runrex_shifted owner hrun
  have hc := updateRexAccount_shifted hcol
  refine ⟨fun a => ?_, fun a ha => hc.voters a (hr.voters a (hvoting ▸ ha)), fun a ha => ?_⟩
  · have hp : stakeGap s₁ a = stakeGap s a - if a = owner then delta else 0 := by
      simp only [stakeGap, hvoting, hstaking, horders, hstake a]
      omega
    rw [hc.gap, hr.gap, hp]
    split_ifs <;> omega
  · rcases (hr.trans hc).held a ha with hh | hs
    · by_cases hao : a = owner
      · by_cases hheld : heldBy s.rex a = true
        · exact Or.inl hheld
        · rw [heldBy_iff, not_or, Option.not_isSome_iff_eq_none,
            Option.not_isSome_iff_eq_none] at hheld
          subst hao
          have hnone : s₂.rex.orders.lookup a = none :=
            (runrex_effects (π := Promise.maintenance) hrun).1.noOrder id (horders ▸ hheld.2)
          have hpending : pendingStake a s₂.rex.orders = 0 := by rw [pendingStake, hnone]
          have hd := hnew hheld.1
          refine Or.inr ((updateRexAccount_stake hcol).2 ?_)
          rw [hpending]
          exact hforce.imp_right fun hz => by omega
      · rw [heldBy_iff, horders, hothers a hao] at hh
        exact Or.inl (heldBy_iff.mpr hh)
    · exact Or.inr hs

lemma buyrex_shifted {amount : Asset} (h : buyrex ctx owner amount s = .ok s') :
    Shifted owner 0 s s' := by
  simp only [buyrex, requireAuth, bind_ok, check_ok, exists_const, pure_ok] at h
  obtain ⟨-, -, hpos, s₁, h₁, ⟨d, s₂⟩, h₂, s₃, h₃, ⟨q, s₄⟩, h₄, rfl⟩ := h
  obtain ⟨-, funds, rfl, -⟩ := transferFromFund_ok h₁
  rw [show d = d + 0 from (add_zero d).symm] at h₄
  have hfund : Shifted owner 0 s { s with rex := { s.rex with funds } } :=
    Shifted.same owner rfl rfl rfl rfl
  have hbuy := bought_shifted hpos h₂ h₃ h₄ (Or.inr rfl)
  exact hfund.trans hbuy

lemma unstaketorex_shifted {receiver : Name} {fromNet fromCpu : Asset}
    (h : unstaketorex ctx owner receiver fromNet fromCpu s = .ok s') : Shifted owner 0 s s' := by
  simp only [unstaketorex, requireAuth, bind_ok, check_ok, exists_const, pure_ok] at h
  obtain ⟨-, -, -, s₁, h₁, s₂, h₂, ⟨d, s₃⟩, h₃, s₄, h₄, ⟨q, s₅⟩, h₅, rfl⟩ := h
  obtain ⟨m, hd, hm⟩ := unstakeBandwidth_changed h₁
  obtain ⟨t, rfl, -, hpos, -⟩ := inlineTransfer_ok h₂
  have hunstake := (hd.shifted.trans (hm.shifted owner)).trans
    (Shifted.same owner rfl rfl rfl rfl : Shifted owner 0 s₁ { s₁ with token := t })
  rw [sub_eq_add_neg] at h₅
  have hbuy := bought_shifted hpos h₃ h₄ h₅ (Or.inl rfl)
  have hall := hunstake.trans hbuy
  rw [show -(-fromNet.amount + -fromCpu.amount) + 0 + 0 + -(fromNet.amount + fromCpu.amount) =
    0 by ring] at hall
  exact hall

lemma withdraw_shifted {amount : Asset} (h : withdraw ctx owner amount s = .ok s') :
    Shifted owner 0 s s' := by
  simp only [withdraw, requireAuth, bind_ok, check_ok, exists_const] at h
  obtain ⟨-, -, -, ⟨q, s₁⟩, h₁, s₂, h₂, h₃⟩ := h
  obtain ⟨-, funds, rfl, -⟩ := transferFromFund_ok h₂
  obtain ⟨t, rfl, -⟩ := inlineTransfer_ok h₃
  have hcol := updateRexAccount_shifted h₁
  have hpaid : Shifted owner 0 s₁ { s₁ with token := t, rex := { s₁.rex with funds } } :=
    Shifted.same owner rfl rfl rfl rfl
  exact hcol.trans hpaid

omit [FloatOps] in
lemma queueOrder_shifted {rex pending pending' : ℤ} {success : Bool}
    (h : queueOrder now owner rex success pending s = .ok (pending', s'))
    (hb : (s.rex.balances.lookup owner).isSome)
    (hopen : ∀ o, s.rex.orders.lookup owner = some o → o.isOpen = true) : Shifted owner 0 s s' := by
  unfold queueOrder at h
  split_ifs at h
  · cases h
    exact Shifted.same owner rfl rfl rfl rfl
  · simp only [bind_ok, check_ok, exists_const, pure_ok] at h
    obtain ⟨-, h⟩ := h
    cases h
    exact Shifted.enqueue owner hb hopen

/-- A sale: the filled order hands out the stake that the row loses. -/
lemma sellMatured_shifted {rex : ℤ} {rb : RexBalance} (hb : s.rex.balances.lookup owner = some rb)
    (h : sellMatured now owner rex rb s = .ok s') : Shifted owner 0 s s' := by
  simp only [sellMatured, bind_ok, check_ok, exists_const, require_ok, pure_ok] at h
  obtain ⟨-, ⟨order, s₁⟩, h₁, -, ⟨pending, s₂⟩, h₂, ⟨pending', s₃⟩, h₃, row, hrow, -, rfl⟩ := h
  have hb₁ : (s.setBalance owner (rb.processRexMaturities now)).rex.balances.lookup owner =
      some (rb.processRexMaturities now) := AList.lookup_insert _
  have hmat : Shifted owner 0 s (s.setBalance owner (rb.processRexMaturities now)) :=
    Shifted.setBalance owner hb rfl
  have hfill : Shifted owner (-order.stakeChange)
    (s.setBalance owner (rb.processRexMaturities now)) s₁ ∧
      (s₁.rex.balances.lookup owner).isSome := by
    simp only [fillRexOrder, bind_ok, require_ok, check_ok, exists_const] at h₁
    obtain ⟨p, -, -, h₁⟩ := h₁
    split_ifs at h₁
    · rw [pure_ok] at h₁
      cases h₁
      have hw := Shifted.writeBalance hb₁ ((rb.processRexMaturities now).sell rex
        (p.valueOf (rb.processRexMaturities now).rexBalance - p.valueOf rex))
      refine ⟨⟨fun a => ?_, hw.voters, hw.held⟩, ?_⟩
      · refine (hw.gap a).trans ?_
        simp only [RexBalance.sell, neg_sub]
      · rw [State.recordSale, State.setBalance, AList.lookup_insert]
        rfl
    · rw [pure_ok] at h₁
      cases h₁
      refine ⟨Shifted.same owner rfl rfl rfl rfl, ?_⟩
      rw [hb₁]
      rfl
  have hcol := updateRexAccount_shifted h₂
  obtain ⟨-, funds, w, rfl, -, -⟩ := updateRexAccount_ok (fun _ _ _ => True) True h₂
  dsimp only at h₃ hcol
  have hqueue := queueOrder_shifted h₃ hfill.2 fun o ho => collectOrder_isOpen ho
  have hall := ((hmat.trans hfill.1).trans hcol).trans hqueue
  rw [show 0 + -order.stakeChange + order.stakeChange + 0 = 0 by ring] at hall
  exact hall

lemma sellrex_shifted {rex : Asset} (h : sellrex ctx owner rex s = .ok s') :
    Shifted owner 0 s s' := by
  simp only [sellrex, positiveRex, requireAuth, bind_ok, check_ok, exists_const, require_ok] at h
  obtain ⟨-, s₁, h₁, rb, hb, -, h₂⟩ := h
  exact (runrex_shifted owner h₁).trans (sellMatured_shifted hb h₂)

/-- An action that collects the order of an owner and rewrites its row. -/
lemma collected_shifted {q : ℤ} {max : ℕ} {s₁ s₂ : State} {rb row : RexBalance}
    (hrun : runrex now max s = .ok s₁) (hb : s₁.rex.balances.lookup owner = some rb)
    (hcol : updateRexAccount now owner 0 0 false s₁ = .ok (q, s₂))
    (hrow : row.voteStake = rb.voteStake) : Shifted owner 0 s (s₂.setBalance owner row) := by
  have hc := updateRexAccount_shifted hcol
  obtain ⟨-, funds, w, rfl, -, -⟩ := updateRexAccount_ok (fun _ _ _ => True) True hcol
  exact ((runrex_shifted owner hrun).trans hc).trans (Shifted.setBalance owner hb hrow)

lemma consolidate_shifted (h : consolidate ctx owner s = .ok s') : Shifted owner 0 s s' := by
  simp only [consolidate, requireAuth, bind_ok, check_ok, exists_const, require_ok, pure_ok] at h
  obtain ⟨-, s₁, h₁, rb, hb, ⟨q, s₂⟩, h₂, rfl⟩ := h
  exact collected_shifted h₁ hb h₂ (rb.consolidateRexBalance_voteStake _ _)

lemma mvtosavings_shifted {rex : Asset} (h : mvtosavings ctx owner rex s = .ok s') :
    Shifted owner 0 s s' := by
  simp only [mvtosavings, positiveRex, requireAuth, bind_ok, check_ok, exists_const,
    require_ok, pure_ok] at h
  obtain ⟨-, s₁, h₁, rb, hb, -, ⟨q, s₂⟩, h₂, -, row, h₃, rfl⟩ := h
  exact collected_shifted h₁ hb h₂
    ((RexBalance.moveToSavings_voteStake h₃).trans rb.readRexSavings_voteStake)

lemma mvfrsavings_shifted {rex : Asset} (h : mvfrsavings ctx owner rex s = .ok s') :
    Shifted owner 0 s s' := by
  simp only [mvfrsavings, positiveRex, requireAuth, bind_ok, check_ok, exists_const,
    require_ok, pure_ok] at h
  obtain ⟨-, s₁, h₁, rb, hb, -, -, ⟨q, s₂⟩, h₂, rfl⟩ := h
  have hrow := (RexBalance.moveFromSavings_voteStake ctx.now rex.amount rb.readRexSavings.1
    rb.readRexSavings.2).trans
    rb.readRexSavings_voteStake
  exact ((runrex_shifted owner h₁).trans (Shifted.setBalance owner hb hrow)).trans
    (updateRexAccount_shifted h₂)

lemma updaterex_shifted (h : updaterex ctx owner s = .ok s') : Shifted owner 0 s s' := by
  simp only [updaterex, requireAuth, bind_ok, check_ok, exists_const, require_ok, pure_ok] at h
  obtain ⟨-, s₁, h₁, rb, hb, p, hp, ⟨q, s₂⟩, h₂, rfl⟩ := h
  have hw := Shifted.writeBalance hb { rb with
    voteStake := if 0 < p.totalRex then p.valueOf rb.rexBalance else 0 }
  have hcol := updateRexAccount_shifted h₂
  obtain ⟨-, funds, w, rfl, -, -⟩ := updateRexAccount_ok (fun _ _ _ => True) True h₂
  have hall := (((runrex_shifted owner h₁).trans hw).trans hcol).trans
    (Shifted.writeBalance (AList.lookup_insert _) (RexBalance.processRexMaturities ctx.now { rb with
      voteStake := if 0 < p.totalRex then p.valueOf rb.rexBalance else 0 }))
  dsimp only [RexBalance.processRexMaturities] at hall
  rw [show ∀ a b : ℤ, 0 + (b - a) + (a - b) + (a - a) = 0 by intros; ring] at hall
  exact hall

lemma changebw_shifted {receiver : Name} {net cpu : ℤ} {transfer : Bool} (hv : HoldersVote s)
    (h : changebw ctx owner receiver net cpu transfer s = .ok s') : ∀ a, Shifted a 0 s s' := by
  simp only [changebw, requireAuth, bind_ok, check_ok, exists_const, pure_ok] at h
  obtain ⟨-, -, -, s₁, h₁, w, hw, rfl⟩ := h
  have hmoved := moveStake_shifted h₁
  have hstake := updateRexStake_shifted (if transfer then receiver else owner)
    (hmoved.holdersVote hv)
  have hall := (hmoved.trans hstake).trans (updateVotingPower_shifted hw)
  rw [show -(net + cpu) + 0 + (net + cpu) = 0 by ring] at hall
  exact fun a => hall.zero a

lemma voteproducer_shifted {voter proxy : Name} {producers : List Name} (hv : HoldersVote s)
    (h : voteproducer ctx voter proxy producers s = .ok s') : Shifted voter 0 s s' := by
  simp only [voteproducer, requireAuth, bind_ok, check_ok, exists_const, pure_ok] at h
  obtain ⟨-, w, hw, rfl⟩ := h
  exact (updateRexStake_shifted voter hv).trans
    (Shifted.counted voter (Voting.updateVotes_counted hw))

/-- The row of an owner after `updaterex`, with its order collected. -/
lemma updaterex_row (hi : RexInv ctx.now s.pools s.rex) (h : updaterex ctx owner s = .ok s') :
    pendingStake owner s'.rex.orders = 0 ∧ ∃ rb p, s'.rex.balances.lookup owner = some rb ∧
      s'.pools.rexpool = some p ∧ 0 ≤ rb.rexBalance ∧
      rb.voteStake = if 0 < p.totalRex then p.valueOf rb.rexBalance else 0 := by
  simp only [updaterex, requireAuth, bind_ok, check_ok, exists_const, require_ok, pure_ok] at h
  obtain ⟨-, s₁, h₁, rb, hb, p, hp, ⟨q, s₂⟩, h₂, rfl⟩ := h
  have hi₁ := (runrex_effects (π := Promise.maintenance) h₁).1.rexInv hi
  obtain ⟨-, funds, w, rfl, -, -⟩ := updateRexAccount_ok (fun _ _ _ => True) True h₂
  have hle := (hi₁.rows owner rb hb).matured_le
  refine ⟨?_, _, p, AList.lookup_insert _, hp, hle.1.trans hle.2, rfl⟩
  have hcol := pendingStake_collect owner owner s₁.rex.orders
  rw [if_pos rfl] at hcol
  exact hcol

/-- `voteupdate` sets the stake to what backs it. -/
lemma voteupdate_gap {voter : Name} (hi : RexInv ctx.now s.pools s.rex)
    (h : voteupdate ctx voter s = .ok s') : Shifted voter (-stakeGap s voter) s s' := by
  simp only [voteupdate, bind_ok, check_ok, exists_const, require_ok, pure_ok] at h
  obtain ⟨-, s₁, h₁, row, hrow, w, hw, rfl⟩ := h
  have hup := updaterex_shifted h₁
  obtain ⟨hpending, rb, p, hb, hp, hnn, hstake⟩ := updaterex_row hi h₁
  have hvs : voteStakeOf s₁.rex voter = if 0 < rb.rexBalance then rb.voteStake else 0 := by
    rw [voteStakeOf, Table.valueAt_some hb]
    split_ifs with hpos
    · rfl
    · have hz : rb.rexBalance = 0 := by omega
      rw [hstake, hz]
      split_ifs
      · simp [RexPool.valueOf]
      · rfl
  rw [hb] at hw
  dsimp only at hw
  rw [← hvs] at hw
  have hc := Voting.updateVotes_counted hw
  have hkept : ∀ a, (s₁.voting.voters.lookup a).isSome → (w.voters.lookup a).isSome := by
    intro a ha
    have hl := congrArg Option.isSome (hc.voters a)
    rw [Option.isSome_map, Option.isSome_map] at hl
    refine hl.trans ?_
    unfold Voting.setVoter
    rw [Table.lookup_insert']
    split_ifs
    · rfl
    · exact ha
  refine ⟨fun a => ?_, fun a ha => hkept a (hup.voters a ha),
    fun a ha => (hup.held a ha).imp_right (hkept a)⟩
  have hg := hup.gap a
  simp only [stakeGap, hc.stakedOf, Voting.stakedOf_setVoter, delegatedBy] at hg hpending ⊢
  split_ifs with hav
  · subst hav
    rw [hpending]
    omega
  · rw [if_neg hav] at hg
    omega

/-- A row without REX that carries vote stake has been so from the start. -/
lemma Effect.emptied {π : Promise} {rb' : RexBalance} (h : Effect now π s s') (hr : ¬ π.restake)
    (hi : RexInv now s.pools s.rex) (hl : s'.rex.balances.lookup v = some rb')
    (h0 : rb'.rexBalance = 0) :
    rb'.voteStake = 0 ∨ ∃ rb, s.rex.balances.lookup v = some rb ∧ rb.rexBalance = 0 ∧
      rb.voteStake = rb'.voteStake := by
  have hsame : s'.rex.balances = s.rex.balances → rb'.voteStake = 0 ∨
      ∃ rb, s.rex.balances.lookup v = some rb ∧ rb.rexBalance = 0 ∧ rb.voteStake = rb'.voteStake :=
    fun hs => Or.inr ⟨rb', hs ▸ hl, h0, rfl⟩
  cases h with
  | @fillOrder a o rb p stake order isOpen row pool fillable settled value =>
    simp only [State.afterSale, Table.lookup_insert'] at hl
    split_ifs at hl with hva
    · cases hl
      have hz : rb.rexBalance = o.rexRequested := by
        simp only [RexBalance.sell] at h0
        omega
      refine Or.inl ?_
      simp only [RexBalance.sell, value, hz, sub_self]
    · exact Or.inr ⟨rb', hl, h0, rfl⟩
  | sell restake => exact absurd restake hr
  | @reshape a rb rb'' row h others restake stakes =>
    simp only [State.setBalance, Table.lookup_insert'] at hl
    split_ifs at hl with hva
    · cases hl
      obtain ⟨hopen, hle⟩ := hi.openRequest_bounds row
      have hshape := h (hi.rows _ _ row) hopen hle
      exact Or.inr ⟨rb, hva ▸ row, hshape.balance ▸ h0, (restake hr).symm⟩
    · exact Or.inr ⟨rb', hl, h0, rfl⟩
  | dropBalance restake => exact absurd restake hr
  | stake h restake => exact absurd restake hr
  | market h =>
    obtain ⟨resources, powerup, rfl⟩ := h.frame
    exact hsame rfl
  | close timestamp names =>
    obtain ⟨auctions, pools, h⟩ := closeAuction_eq timestamp now s
    rw [h] at hl hsame
    exact hsame rfl
  | _ => exact hsame rfl

theorem Effects.emptied {π : Promise} {rb' : RexBalance} (h : Effects now π s s') (hr : ¬ π.restake)
    (hi : RexInv now s.pools s.rex) (hl : s'.rex.balances.lookup v = some rb')
    (h0 : rb'.rexBalance = 0) :
    rb'.voteStake = 0 ∨ ∃ rb, s.rex.balances.lookup v = some rb ∧ rb.rexBalance = 0 ∧
      rb.voteStake = rb'.voteStake := by
  induction h generalizing rb' with
  | refl => exact Or.inr ⟨rb', hl, h0, rfl⟩
  | tail hprior hstep ih =>
    rcases hstep.emptied hr (Effects.rexInv hprior hi) hl h0 with hz | ⟨rb, hrb, hz, hs⟩
    · exact Or.inl hz
    · exact hs ▸ ih hrb hz

omit [FloatOps] in
lemma closeFund_shifted (owner : Name) (s : State) : Shifted owner 0 s (closeFund owner s) := by
  unfold closeFund
  split_ifs
  · exact Shifted.same owner rfl rfl rfl rfl
  · exact Shifted.same owner rfl rfl rfl rfl

omit [FloatOps] in
lemma closeFund_balances (owner : Name) (s : State) :
    (closeFund owner s).rex.balances = s.rex.balances := by
  unfold closeFund
  split_ifs <;> rfl

omit [FloatOps] in
lemma closeBalance_shifted (h : closeBalance owner s = .ok s') :
    ∃ stake, Shifted owner stake s s' ∧ (stake = 0 ∨
    ∃ rb, s.rex.balances.lookup owner = some rb ∧ rb.rexBalance = 0 ∧ rb.voteStake = stake) := by
  unfold closeBalance at h
  cases hb : s.rex.balances.lookup owner with
  | none =>
    rw [hb] at h
    cases h
    exact ⟨0, Shifted.same owner rfl rfl rfl rfl, Or.inl rfl⟩
  | some rb =>
    rw [hb] at h
    simp only [bind_ok, check_ok, exists_const, pure_ok] at h
    obtain ⟨hz, rfl⟩ := h
    exact ⟨rb.voteStake, Shifted.dropBalance hb, Or.inr ⟨rb, rfl, hz, rfl⟩⟩

/-- Closing a row drops the vote stake that a row without REX carries. -/
lemma closerex_shifted (hi : RexInv ctx.now s.pools s.rex) (h : closerex ctx owner s = .ok s') :
    ∃ stake, Shifted owner stake s s' ∧ (stake = 0 ∨
      ∃ rb, s.rex.balances.lookup owner = some rb ∧ rb.rexBalance = 0 ∧ rb.voteStake = stake) := by
  simp only [closerex, requireAuth, bind_ok, check_ok, exists_const] at h
  obtain ⟨-, s₁, h₁, ⟨q, s₂⟩, h₂, h₃⟩ := h
  obtain ⟨hrun, hrows⟩ : Shifted owner 0 s s₁ ∧ ∀ rb', s₁.rex.balances.lookup owner = some rb' →
    rb'.rexBalance = 0 →
      rb'.voteStake = 0 ∨ ∃ rb, s.rex.balances.lookup owner = some rb ∧ rb.rexBalance = 0 ∧
        rb.voteStake = rb'.voteStake := by
    unfold runrexIfInitialized at h₁
    split_ifs at h₁
    · exact ⟨runrex_shifted owner h₁,
        fun rb' => (runrex_effects (π := Promise.maintenance) h₁).1.emptied id hi⟩
    · cases h₁
      exact ⟨Shifted.same owner rfl rfl rfl rfl, fun rb' hl h0 => Or.inr ⟨rb', hl, h0, rfl⟩⟩
  have hcol := updateRexAccount_shifted h₂
  obtain ⟨-, funds, w, hs₂, -, -⟩ := updateRexAccount_ok (fun _ _ _ => True) True h₂
  have hsofar := (hrun.trans hcol).trans (closeFund_shifted owner s₂)
  obtain ⟨stake, hclose, hstake⟩ := closeBalance_shifted h₃
  have hall := hsofar.trans hclose
  rw [show 0 + 0 + 0 + stake = stake by ring] at hall
  refine ⟨stake, hall, hstake.elim Or.inl ?_⟩
  rintro ⟨rb, hb, hz, rfl⟩
  rw [closeFund_balances, hs₂] at hb
  exact hrows rb hb hz

/-- How a step moves the gap of an account: not at all, or `voteupdate` closes it, or `closerex`
drops the vote stake of a row without REX. -/
inductive GapMoved (a : Action) (s s' : State) (v : Name) : Prop
  | same (gap : stakeGap s' v = stakeGap s v)
  | updated (action : a = .voteupdate v) (gap : stakeGap s' v = 0)
  | dropped {rb : RexBalance} (action : a = .closerex v) (row : s.rex.balances.lookup v = some rb)
      (empty : rb.rexBalance = 0) (gap : stakeGap s' v = stakeGap s v + rb.voteStake)

omit [FloatOps] in
lemma Shifted.gapMoved {a : Action} (h : Shifted owner 0 s s') : ∀ v, GapMoved a s s' v := by
  intro v
  have hg := h.gap v
  refine .same ?_
  split_ifs at hg <;> omega

theorem step.gapMoved {l : Label} (h : step now l s s') (hi : RexInv now s.pools s.rex)
    (hv : HoldersVote s) : HoldersVote s' ∧ ∀ v, GapMoved l.action s s' v := by
  have hshift : ∀ {owner : Name}, Shifted owner 0 s s' → HoldersVote s' ∧
    ∀ v, GapMoved l.action s s' v :=
    fun hs => ⟨hs.holdersVote hv, hs.gapMoved⟩
  have hdefault : ¬ l.action.Restakes → HoldersVote s' ∧ ∀ v, GapMoved l.action s s' v := by
    intro hr
    obtain ⟨mid, rfl | hp, he⟩ := exec_decomposed h
    · exact hshift (he.shifted hr systemAccount)
    · exact absurd hp.restake hr
  obtain ⟨auth, action⟩ := l
  unfold step at h
  cases action with
  | withdraw owner amount => exact hshift (withdraw_shifted h)
  | buyrex owner amount => exact hshift (buyrex_shifted h)
  | unstaketorex owner receiver net cpu => exact hshift (unstaketorex_shifted h)
  | sellrex owner rex => exact hshift (sellrex_shifted h)
  | updaterex owner => exact hshift (updaterex_shifted h)
  | consolidate owner => exact hshift (consolidate_shifted h)
  | mvtosavings owner rex => exact hshift (mvtosavings_shifted h)
  | mvfrsavings owner rex => exact hshift (mvfrsavings_shifted h)
  | delegatebw owner receiver net cpu transfer =>
    simp only [exec, delegatebw, stakeAmounts, bind_ok, check_ok, exists_const] at h
    exact hshift (changebw_shifted hv h.2.2 owner)
  | undelegatebw owner receiver net cpu =>
    simp only [exec, undelegatebw, stakeAmounts, bind_ok, check_ok, exists_const] at h
    exact hshift (changebw_shifted hv h.2.2 owner)
  | voteproducer voter proxy producers => exact hshift (voteproducer_shifted hv h)
  | voteupdate voter =>
    have hs := voteupdate_gap hi h
    refine ⟨hs.holdersVote hv, fun a => ?_⟩
    have hg := hs.gap a
    by_cases ha : a = voter
    · subst ha
      rw [if_pos rfl] at hg
      exact .updated rfl (by omega)
    · rw [if_neg ha, add_zero] at hg
      exact .same hg
  | closerex owner =>
    obtain ⟨stake, hs, hstake⟩ := closerex_shifted hi h
    refine ⟨hs.holdersVote hv, fun a => ?_⟩
    have hg := hs.gap a
    by_cases ha : a = owner
    · subst ha
      rw [if_pos rfl] at hg
      rcases hstake with rfl | ⟨rb, hrb, hz, rfl⟩
      · exact .same (hg.trans (add_zero _))
      · exact .dropped rfl hrb hz hg
    · rw [if_neg ha, add_zero] at hg
      exact .same hg
  | _ => exact hdefault id

def StakesNonneg (s : State) : Prop := ∀ v rb, s.rex.balances.lookup v = some rb → 0 ≤ rb.voteStake

omit [FloatOps] in
lemma RexInv.valueOf_mono {r : RexPools} {x : Rex} {p : RexPool} {a b : ℤ} (h : RexInv now r x)
    (hp : r.rexpool = some p) (hab : a ≤ b) : p.valueOf a ≤ p.valueOf b := by
  have hl : 0 ≤ p.totalLent := RexPools.pool_some hp ▸ h.lent_nonneg
  have hr : 0 ≤ p.totalRex := by
    rw [(h.pool_at hp).rex]
    exact rexTotal_nonneg h
  unfold RexPool.valueOf
  rcases hr.eq_or_lt with hz | hpos
  · rw [← hz, Int.ediv_zero, Int.ediv_zero]
  · exact Int.ediv_le_ediv hpos (mul_le_mul_of_nonneg_right hab ((h.pool_at hp).lendable_nonneg hl))

theorem Effect.stakesNonneg {π : Promise} (h : Effect now π s s') (hi : RexInv now s.pools s.rex)
    (hs : StakesNonneg s) : StakesNonneg s' := by
  cases h with
  | fillOrder order isOpen row pool fillable settled value =>
    refine Table.forall_insert hs ?_
    have hreq := hi.openRequest_bounds row
    rw [openRequest_some order isOpen] at hreq
    have hle := (hi.rows _ _ row).matured_le
    exact value ▸ sub_nonneg.mpr (hi.valueOf_mono pool (hreq.2.trans hle.2))
  | sell restake actor row pool positive matured fillable settled votes credit reserved value =>
    refine Table.forall_insert hs ?_
    have hle := (hi.rows _ _ row).matured_le
    exact value ▸ sub_nonneg.mpr (hi.valueOf_mono pool (matured.trans hle.2))
  | reshape row h others restake stakes =>
    refine Table.forall_insert hs ?_
    rcases stakes with hsame | ⟨p, hp, hvalue⟩
    · rw [hsame]
      exact hs _ _ row
    · rw [hvalue]
      split_ifs
      · have hle := (hi.rows _ _ row).matured_le
        exact hi.valueOf_nonneg hp (hle.1.trans hle.2)
      · exact le_refl 0
  | dropBalance restake actor row empty => exact Table.forall_erase hs
  | stake h =>
    obtain ⟨staking, resources, token, rfl, -⟩ := moveStake_frame h
    exact hs
  | market h =>
    obtain ⟨resources, powerup, rfl⟩ := h.frame
    exact hs
  | close timestamp names =>
    obtain ⟨auctions, pools, h⟩ := closeAuction_eq timestamp now s
    rw [h]
    exact hs
  | _ => exact hs

theorem Effects.stakesNonneg {π : Promise} (h : Effects now π s s') (hi : RexInv now s.pools s.rex)
    (hs : StakesNonneg s) : StakesNonneg s' := by
  induction h with
  | refl => exact hs
  | tail hprior hstep ih => exact hstep.stakesNonneg (Effects.rexInv hprior hi) ih

omit [FloatOps] in
theorem Purchase.stakesNonneg {π : Promise} (h : Purchase now π s s')
    (hi : RexInv now s.pools s.rex) (hs : StakesNonneg s) : StakesNonneg s' := by
  have hi' := h.rexInv hi
  obtain ⟨owner, payment, delta, mid, -, h0, hf, hpur⟩ := h.parts
  obtain ⟨funds, staking, resources, token, rfl⟩ := hf.frame
  obtain ⟨-, -, -, -, -, -, row, hrow, hstake⟩ := purchase_stake hpur
  have hlook : s'.rex.balances.lookup owner = some row := by
    rw [hrow]
    exact AList.lookup_insert _
  unfold StakesNonneg
  rw [hrow]
  refine Table.forall_insert hs ?_
  rcases hstake with hstake | ⟨p, hp, hstake⟩
  · exact hstake ▸ h0.le
  · have hle := (hi'.rows _ _ hlook).matured_le
    exact hstake ▸ hi'.valueOf_nonneg hp (hle.1.trans hle.2)

theorem step.stakesNonneg {l : Label} (h : step now l s s') (hi : RexInv now s.pools s.rex)
    (hs : StakesNonneg s) : StakesNonneg s' := by
  obtain ⟨mid, rfl | hp, he⟩ := exec_decomposed h
  · exact he.stakesNonneg hi hs
  · exact he.stakesNonneg (hp.rexInv hi) (hp.stakesNonneg hi hs)

/-- `closerex` is called for no row that carries vote stake and holds no REX. -/
def ClosesBacked (a : Action) (s : State) : Prop :=
  ∀ owner rb, a = .closerex owner → s.rex.balances.lookup owner = some rb →
    rb.rexBalance = 0 → rb.voteStake = 0

def Unstaked (s : State) : Prop := ∀ v, s.voting.stakedOf v = 0

omit [FloatOps] in
lemma Genesis.stakeGap_zero (h : Genesis s) (hu : Unstaked s) (v : Name) : stakeGap s v = 0 := by
  simp only [stakeGap, hu v, delegatedBy, voteStakeOf, pendingStake, h.delband, h.rex]
  rfl

omit [FloatOps] in
lemma Genesis.holdersVote (h : Genesis s) : HoldersVote s := by
  intro v hv
  rw [heldBy_iff, h.rex] at hv
  rcases hv with hv | hv <;> cases hv

structure StakeState (now : BlockTimestamp) (s : State) : Prop where
  rex : RexInv now s.pools s.rex
  holders : HoldersVote s
  nonneg : StakesNonneg s

omit [FloatOps] in
lemma Genesis.stakeState (h : Genesis s) (now : BlockTimestamp) : StakeState now s := by
  refine ⟨h.rexInv now, h.holdersVote, fun v rb hl => ?_⟩
  rw [h.rex] at hl
  cases hl

lemma StakeState.step {l : Label} {now' : BlockTimestamp} (h : StakeState now s) (hle : now ≤ now')
    (hs : TelosSystem.step now' l s s') : StakeState now' s' := by
  have hi := h.rex.later hle
  exact ⟨(exec_decomposed hs).rexInv hi, (step.gapMoved hs hi h.holders).1,
    step.stakesNonneg hs hi h.nonneg⟩

/-- Every voter's stake is its delegated bandwidth and the vote stake of its REX, less the stake
change of an order that has been filled and not collected. -/
theorem voter_stake_backed {t₀ t : BlockTimestamp} {s₀ s : State}
    {tr : List (BlockTimestamp × Label)} (h0 : Genesis s₀) (hu : Unstaked s₀)
    (hrun : TimedRun (fun t l s s' => step t l s s' ∧ ClosesBacked l.action s) t₀ s₀ tr t s) :
    ∀ v row, s.voting.voters.lookup v = some row →
      row.staked = delegatedBy s.staking v + voteStakeOf s.rex v - pendingStake v s.rex.orders := by
  have hgap : StakeState t s ∧ ∀ v, stakeGap s v = 0 := by
    refine TimedRun.stateInvariant (fun t s => StakeState t s ∧ ∀ v, stakeGap s v = 0)
      ⟨h0.stakeState t₀, h0.stakeGap_zero hu⟩ ?_ hrun
    rintro t t' l s s' ⟨hst, hz⟩ hle ⟨hstep, hclean⟩
    refine ⟨hst.step hle hstep, fun v => ?_⟩
    cases (step.gapMoved hstep (hst.rex.later hle) hst.holders).2 v with
    | same gap => exact gap.trans (hz v)
    | updated action gap => exact gap
    | dropped action row empty gap => rw [gap, hz v, hclean v _ action row empty, add_zero]
  intro v row hl
  have hz := hgap.2 v
  have hstaked : s.voting.stakedOf v = row.staked := by rw [Voting.stakedOf, hl]; rfl
  rw [stakeGap, hstaked] at hz
  omega

/-- In every run the stake is at least what backs it. -/
lemma stakeGap_nonneg {t₀ t : BlockTimestamp} {s₀ s : State} {tr : List (BlockTimestamp × Label)}
    (h0 : Genesis s₀) (hu : Unstaked s₀) (hrun : TimedRun step t₀ s₀ tr t s) :
    StakeState t s ∧ ∀ v, 0 ≤ stakeGap s v := by
  refine TimedRun.stateInvariant (fun t s => StakeState t s ∧ ∀ v, 0 ≤ stakeGap s v)
    ⟨h0.stakeState t₀, fun v => (h0.stakeGap_zero hu v).ge⟩ ?_ hrun
  rintro t t' l s s' ⟨hst, hz⟩ hle hstep
  refine ⟨hst.step hle hstep, fun v => ?_⟩
  cases (step.gapMoved hstep (hst.rex.later hle) hst.holders).2 v with
  | same gap => exact gap ▸ hz v
  | updated action gap => exact gap.ge
  | dropped action row empty gap =>
    have hrb := hst.nonneg v _ row
    have hv := hz v
    omega

end

lemma ClosesBacked.of_ne {a : Action} {s : State} (h : ∀ owner, a ≠ .closerex owner) :
    ClosesBacked a s :=
  fun owner _ ha => absurd ha (h owner)

lemma launchState_unstaked : Unstaked launchState := fun _ => rfl

/-- While the price of REX is high, Alice pays for less than one unit of it. -/
def crumbTrace : List (BlockTimestamp × Label) :=
  [(launchTime, ⟨[bob], .deposit bob ⟨10, tlos⟩⟩),
    (launchTime, ⟨[bob], .buyrex bob ⟨10, tlos⟩⟩),
    (launchTime, ⟨[bob], .transfer bob tedpAccount ⟨3600000, tlos⟩ 0⟩),
    (launchTime, ⟨[tedpAccount], .distviarex tedpAccount ⟨3600000, tlos⟩⟩),
    (days 31, ⟨[bob], .rexexec bob 2⟩),
    (days 31, ⟨[alice], .deposit alice ⟨10, tlos⟩⟩),
    (days 31, ⟨[alice], .buyrex alice ⟨10, tlos⟩⟩)]

def closedTrace : List (BlockTimestamp × Label) :=
  crumbTrace ++ [(days 31, ⟨[alice], .closerex alice⟩)]

/-- The stake stays with her. -/
theorem crumb_unbacked : Genesis launchState ∧ Unstaked launchState ∧
    @TimedRun _ _ _ _ (@step launchFloats) launchTime launchState closedTrace (days 31)
      (launched closedTrace) ∧
    ((launched crumbTrace).rex.balances.lookup alice).map
      (fun rb => (rb.rexBalance, rb.voteStake)) = some (0, 10) ∧
    (launched closedTrace).rex.balances.lookup alice = none ∧
    ((launched closedTrace).voting.voters.lookup alice).map VoterInfo.staked = some 10 ∧
    delegatedBy (launched closedTrace).staking alice +
      voteStakeOf (launched closedTrace).rex alice -
      pendingStake alice (launched closedTrace).rex.orders = 0 := by
  have hrun := launched_run (show launches closedTrace = true by decide +kernel) (by decide)
  rw [show (closedTrace.getLast?.map Prod.fst).getD launchTime = days 31 by decide] at hrun
  have hclosed : ((launched closedTrace).rex.balances.lookup alice).isNone = true := by
    decide +kernel
  exact ⟨launchState_genesis, launchState_unstaked, hrun, by decide +kernel,
    Option.isNone_iff_eq_none.mp hclosed,
    by decide +kernel, by decide +kernel⟩

/-- Alice's stake is the value of the REX that she has bought. -/
theorem vote_backed : ∃ row, (launched voteTrace).voting.voters.lookup alice = some row ∧
    row.staked = delegatedBy (launched voteTrace).staking alice +
      voteStakeOf (launched voteTrace).rex alice -
      pendingStake alice (launched voteTrace).rex.orders := by
  let := launchFloats
  have hrun := launched_run (show launches voteTrace = true by decide +kernel) (by decide)
  have hopen : ∀ x ∈ voteTrace, ∀ owner, x.2.action ≠ .closerex owner := by
    intro x hx owner
    simp only [voteTrace, List.mem_cons, List.not_mem_nil, or_false] at hx
    rcases hx with rfl | rfl | rfl | rfl <;> simp
  have hbacked : TimedRun (fun t l s s' => step t l s s' ∧ ClosesBacked l.action s) launchTime
    launchState voteTrace
      _ (launched voteTrace) :=
    TimedRun.mono_of (fun x hx s s' hs => ⟨hs, ClosesBacked.of_ne (hopen x hx)⟩) hrun
  obtain ⟨row, hl⟩ : ∃ row, (launched voteTrace).voting.voters.lookup alice = some row :=
    Option.isSome_iff_exists.mp (by decide +kernel)
  exact ⟨row, hl, voter_stake_backed launchState_genesis launchState_unstaked hbacked alice row hl⟩

end TelosSystem
