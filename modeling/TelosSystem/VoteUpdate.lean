import TelosSystem.LoanReceivers
import TelosSystem.VoterStake

/-! What `voteupdate` does, and when it can. It brings the stake of a voter and the votes for its
producers up to date, but it starts with `updaterex`, which only an owner of REX can call. -/
namespace TelosSystem
open Ledger

/-- The proceeds of name bids that wait in the pool can be paid into it, if REX is for sale. -/
def ProceedsPayable (s : State) : Prop :=
  ∀ p, s.pools.rexpool = some p → 0 < p.namebidProceeds → rexAvailable s.pools →
    ∃ s', State.inlineTransfer namesAccount rexAccount ⟨p.namebidProceeds, s.core⟩ 40 s = .ok s'

section
variable {now : BlockTimestamp} {s s' : State} {v : Name}

lemma inlineTransfer_pools {source dest : Name} {quantity : Asset} {memoSize : ℕ}
    (pools : RexPools) :
    (∃ s', State.inlineTransfer source dest quantity memoSize { s with pools } = .ok s') ↔
      ∃ s', State.inlineTransfer source dest quantity memoSize s = .ok s' := by
  simp only [State.inlineTransfer, bind_ok, pure_ok]
  constructor
  · rintro ⟨-, t, ht, -⟩
    exact ⟨_, t, ht, rfl⟩
  · rintro ⟨-, t, ht, -⟩
    exact ⟨_, t, ht, rfl⟩

lemma rexAvailable_some {r : RexPools} {p : RexPool} (h : r.rexpool = some p) :
    rexAvailable r = decide (0 < p.totalRex) := by
  rw [rexAvailable, h]

/-- The proceeds of the return pool change neither the REX of the pool nor its name bids. -/
lemma updateRexPool_payable {r : RexPools} (hi : RexInv now s.pools s.rex)
    (hr : updateRexPool now s.pools = .ok r) :
    r.rexpool.isSome = s.pools.rexpool.isSome ∧
    (ProceedsPayable { s with pools := r } ↔ ProceedsPayable s) := by
  obtain ⟨c, -, hpool, -⟩ := (updateRexPool_returned hi.ret (fun p hp => hi.balanced hp) hr).moved
  refine ⟨by rw [hpool, Option.isSome_map], ?_⟩
  cases hp : s.pools.rexpool with
  | none =>
    rw [hp, Option.map_none] at hpool
    exact iff_of_true (fun p h => by rw [hpool] at h; cases h) fun p h => by rw [hp] at h; cases h
  | some p =>
    rw [hp, Option.map_some] at hpool
    have hav : rexAvailable r = rexAvailable s.pools := by
      rw [rexAvailable_some hpool, rexAvailable_some hp]
      rfl
    constructor
    · intro h q hq hpos ha
      rw [hp] at hq
      cases hq
      exact (inlineTransfer_pools r).mp (h (p.credit c) hpool hpos (hav ▸ ha))
    · intro h q hq hpos ha
      rw [show ({ s with pools := r } : State).pools.rexpool = some (p.credit c) from hpool] at hq
      cases hq
      exact (inlineTransfer_pools r).mpr (h p hp hpos (hav ▸ ha))

lemma channelNamebids_iff (hi : RexInv now s.pools s.rex) {p : RexPool}
    (hp : s.pools.rexpool = some p) :
    (∃ s', channelNamebids now s = .ok s') ↔ ProceedsPayable s := by
  unfold channelNamebids
  constructor
  · rintro ⟨s', h⟩ q hq hpos ha
    rw [hp] at hq
    cases hq
    simp only [bind_ok, require_ok] at h
    obtain ⟨q, hq, h⟩ := h
    rw [hp] at hq
    cases hq
    rw [if_pos hpos] at h
    simp only [channelToRex, if_pos ha, bind_ok] at h
    obtain ⟨s₁, ⟨r, -, h₁⟩, -⟩ := h
    exact (inlineTransfer_pools r).mp ⟨s₁, h₁⟩
  · intro h
    rw [hp]
    by_cases hpos : 0 < p.namebidProceeds
    · have hchannel : ∃ s₁, channelToRex now namesAccount ⟨p.namebidProceeds, s.core⟩ false s =
        .ok s₁ := by
        unfold channelToRex
        by_cases ha : rexAvailable s.pools = true
        · obtain ⟨s₁, h₁⟩ := (inlineTransfer_pools _).mpr (h p hp hpos ha)
          exact ⟨s₁, by rw [if_pos ha, bind_ok]; exact ⟨_, addToRexReturnPool_eq hi.ret (le_refl now), h₁⟩⟩
        · exact ⟨s, by rw [if_neg ha]; rfl⟩
      obtain ⟨s₁, h₁⟩ := hchannel
      obtain ⟨q, hq⟩ := channelToRex_pool hi hp h₁
      refine ⟨s₁.setPool { q with namebidProceeds := 0 }, ?_⟩
      simp only [bind_ok, require_ok, Option.some.injEq, exists_eq_left', if_pos hpos]
      exact ⟨s₁, h₁, q, hq, rfl⟩
    · exact ⟨s, by simp only [bind_ok, require_ok, Option.some.injEq, exists_eq_left', if_neg hpos, pure_ok]⟩

end

section
variable [FloatOps] {now : BlockTimestamp} {s s' : State} {v : Name}

/-- What the maintenance run needs, in a state whose loans stay covered. -/
theorem runrex_ok_iff (max : ℕ) (hi : RexInv now s.pools s.rex) (hknown : LoansKnown s)
    (hcovered : ∀ s₁, Effects now Promise.maintenance s s₁ → Covered s₁) :
    (∃ s', runrex now max s = .ok s') ↔ s.pools.rexpool.isSome ∧ ProceedsPayable s := by
  constructor
  · rintro ⟨s', h⟩
    unfold runrex at h
    simp only [bind_ok, check_ok, exists_const] at h
    obtain ⟨hinit, r, hr, s₁, h₁, -⟩ := h
    obtain ⟨hsome, hpay⟩ := updateRexPool_payable hi hr
    have heff : Effect now Promise.maintenance s { s with pools := r } := Effect.distribute hr
    obtain ⟨p, hp⟩ := Option.isSome_iff_exists.mp (hsome.trans hinit)
    exact ⟨hinit, hpay.mp ((channelNamebids_iff (heff.rexInv hi) hp).mp ⟨s₁, h₁⟩)⟩
  · rintro ⟨hinit, hpay⟩
    obtain ⟨r, hr⟩ : ∃ r, updateRexPool now s.pools = .ok r :=
      ⟨_, updateRexPool_eq hi.ret (le_refl now)⟩
    have heff : Effect now Promise.maintenance s { s with pools := r } := Effect.distribute hr
    obtain ⟨hsome, hiff⟩ := updateRexPool_payable hi hr
    obtain ⟨p, hp⟩ := Option.isSome_iff_exists.mp (hsome.trans hinit)
    obtain ⟨s₁, h₁⟩ := (channelNamebids_iff (heff.rexInv hi) hp).mpr (hiff.mpr hpay)
    cases hrun : runrex now max s with
    | ok s' => exact ⟨s', rfl⟩
    | error e =>
      rcases runrex_stuck (π := Promise.maintenance) hi hrun with
        ⟨hno, -⟩ | ⟨r', -, hr', h⟩ | ⟨s₂, heff₂, ⟨hvoting, haccounts⟩, hun | hun⟩
      · exact absurd hinit hno
      · rw [hr] at hr'
        cases hr'
        rw [h₁] at h
        cases h
      · exact absurd hun (hcovered s₂ heff₂).not_uncovered
      · exact absurd hun (hknown.not_unlimited heff₂ hvoting haccounts)

end

section
variable [FloatOps] {now : BlockTimestamp} {ctx : Context} {s s' : State} {v owner : Name}

/-- Only an action that restakes opens or closes rows. -/
theorem Effect.rows_kept {π : Promise} (h : Effect now π s s') (hr : ¬ π.restake) (v : Name) :
    (s'.rex.balances.lookup v).isSome = (s.rex.balances.lookup v).isSome := by
  have hinsert : ∀ {a : Name} {rb rb' : RexBalance}, s.rex.balances.lookup a = some rb →
      ((s.rex.balances.insert a rb').lookup v).isSome = (s.rex.balances.lookup v).isSome := by
    intro a rb rb' hl
    rw [Table.lookup_insert']
    split_ifs with hva
    · rw [hva, hl]
      rfl
    · rfl
  cases h with
  | fillOrder order isOpen row => exact hinsert row
  | reshape row => exact hinsert row
  | sell restake => exact absurd restake hr
  | dropBalance restake => exact absurd restake hr
  | stake h restake => exact absurd restake hr
  | market h =>
    obtain ⟨resources, powerup, rfl⟩ := h.frame
    rfl
  | close timestamp names =>
    obtain ⟨auctions, pools, h⟩ := closeAuction_eq timestamp now s
    rw [h]
  | _ => rfl

theorem Effects.rows_kept {π : Promise} (h : Effects now π s s') (hr : ¬ π.restake) (v : Name) :
    (s'.rex.balances.lookup v).isSome = (s.rex.balances.lookup v).isSome := by
  induction h with
  | refl => rfl
  | tail _ hstep ih => exact (hstep.rows_kept hr v).trans ih

end

structure Recounted (owner : Name) (row row' : VoterInfo) (v v' : Voting) : Prop where
  tallied : v'.Tallied
  stored : v'.voters.lookup owner = some row'
  tallies : ∀ q, v'.tallyOf q = v.tallyOf q - row.counted owner q + row'.counted owner q
  producers : ∀ q, (v'.producers.lookup q).map ProducerInfo.untallied =
    (v.producers.lookup q).map ProducerInfo.untallied
  config : v'.config = v.config

section
variable [FloatOps] {now : BlockTimestamp} {v v' v'' : Voting} {owner : Name}
    {row row' row'' : VoterInfo}
  {producers : List Name} {voting : Bool}

omit [FloatOps] in
lemma Recounted.trans (h : Recounted owner row row' v v') (h' : Recounted owner row' row'' v' v'') :
    Recounted owner row row'' v v'' := by
  refine ⟨h'.tallied, h'.stored, fun q => ?_, fun q => (h'.producers q).trans (h.producers q),
    h'.config.trans h.config⟩
  rw [h'.tallies, h.tallies]
  ring

omit [FloatOps] in
lemma Voting.Tallied.restaked (ht : v.Tallied) (hl : v.voters.lookup owner = some row)
    (staked : ℤ) :
    Recounted owner row { row with staked } v (v.setVoter owner { row with staked }) := by
  have hd := ht.rows owner row hl
  refine ⟨ht.rewritten hl ⟨hd.noProxy, hd.notProxy, hd.sorted, hd.length_le, hd.boost_lt,
    hd.weight_nonneg⟩
    (fun _ => rfl) rfl, AList.lookup_insert _, fun q => ?_, fun _ => rfl, rfl⟩
  have hsame : ({ row with staked } : VoterInfo).counted owner q = row.counted owner q := rfl
  rw [hsame, sub_add_cancel]
  rfl

lemma Voting.Revoted.recounted (hw : ∀ n, 0 ≤ FloatOps.voteWeight n) (ht : v.Tallied)
    (hl : v.voters.lookup owner = some row)
    (h : Voting.Revoted now owner row producers voting v v') :
    Recounted owner row (v.recast now owner row producers voting) v v' := by
  have ht' := ht.revoted hw hl h
  refine ⟨ht', by rw [h.voters]; exact AList.lookup_insert _, fun q => ?_, fun q => ?_, h.config⟩
  · have hsum : v'.countedFor q = v.countedFor q - row.counted owner q +
        (v.recast now owner row producers voting).counted owner q := by
      unfold Voting.countedFor
      rw [h.voters, Table.sum_insert_old _ _ hl]
    rw [ht'.tallies, hsum, ht.tallies]
  · rw [h.tallies, Option.map_map]
    rfl

/-- A vote for registered producers, by a voter without a proxy. -/
lemma Voting.Tallied.cast (hw : ∀ n, 0 ≤ FloatOps.voteWeight n) (ht : v.Tallied)
    (now : BlockTimestamp) (voting : Bool) (hl : v.voters.lookup owner = some row)
    (hreg : ∀ q ∈ row.producers, ∃ p, v.producers.lookup q = some p ∧
      (voting = true → p.isActive = true)) :
    ∃ v', v.updateVotes now owner row.proxy row.producers voting = .ok v' ∧
      Recounted owner row (v.recast now owner row row.producers voting) v v' := by
  have hd := ht.rows owner row hl
  rw [hd.noProxy]
  obtain ⟨v', hv'⟩ := Voting.updateVotes_total hl hd hd.length_le hd.sorted hreg
  refine ⟨v', hv', Voting.Revoted.recounted hw ht hl ?_⟩
  exact Voting.updateVotes_revoted hw hl hd
    (fun q p hp => Voting.tallyOf_some hp ▸ ht.counted_le hl q) hv'

/-- A stake change of a voter of registered producers. -/
lemma Voting.Tallied.updateVotingPower (hw : ∀ n, 0 ≤ FloatOps.voteWeight n) (ht : v.Tallied)
    (now : BlockTimestamp) (hl : v.voters.lookup owner = some row) {delta : ℤ}
    (hnn : 0 ≤ row.staked + delta)
    (hreg : ∀ q ∈ row.producers, ∃ p, v.producers.lookup q = some p) :
    ∃ v' row', v.updateVotingPower now owner delta = .ok v' ∧ Recounted owner row row' v v' ∧
      row'.producers = row.producers := by
  have hd := ht.rows owner row hl
  have hset := ht.restaked hl (row.staked + delta)
  unfold Voting.updateVotingPower
  rw [hl]
  simp only [check, hnn, if_true, Bind.bind, Except.bind]
  by_cases hvoted : row.producers ≠ [] ∨ row.proxy ≠ Name.empty
  · rw [if_pos hvoted]
    obtain ⟨v', hv', hr⟩ := hset.tallied.cast hw now false hset.stored
      fun q hq => (hreg q hq).imp fun p hp => ⟨hp, fun hf => by cases hf⟩
    exact ⟨v', _, hv', hset.trans hr, rfl⟩
  · rw [if_neg hvoted]
    exact ⟨_, _, rfl, hset, rfl⟩

/-- The stake change of an owner of REX is counted. -/
lemma updateRexAccount_total (hw : ∀ n, 0 ≤ FloatOps.voteWeight n) {s : State}
    (ht : s.voting.Tallied) (now : BlockTimestamp) (delta : ℤ)
    (hl : s.voting.voters.lookup owner = some row)
    (hnn : 0 ≤ row.staked + (delta + pendingStake owner s.rex.orders))
    (hreg : ∀ q ∈ row.producers, ∃ p, s.voting.producers.lookup q = some p) :
    ∃ out s' row', updateRexAccount now owner 0 delta true s = .ok (out, s') ∧
      Recounted owner row row' s.voting s'.voting ∧ row'.producers = row.producers := by
  obtain ⟨request, proceeds, htake⟩ := takeOrder_pending owner s
  unfold updateRexAccount
  rw [htake]
  dsimp only
  obtain ⟨s₁, h₁⟩ := creditFund_total owner (0 + proceeds)
    { s with rex := { s.rex with orders := collectOrder owner s.rex.orders } }
  obtain ⟨funds, rfl, -⟩ := creditFund_ok h₁
  obtain ⟨v', row', hv', hr, hproducers⟩ := ht.updateVotingPower hw now hl hnn hreg
  refine ⟨request,
    { s with voting := v', rex := { s.rex with funds, orders := collectOrder owner s.rex.orders } },
    row',
    ?_, hr, hproducers⟩
  rw [bind_ok]
  refine ⟨_, h₁, ?_⟩
  rw [bind_ok]
  refine ⟨_, ?_, rfl⟩
  unfold updateVoteStake
  rw [if_pos (Or.inl rfl), bind_ok]
  exact ⟨v', hv', rfl⟩

end

def rexValue (s : State) (v : Name) : ℤ :=
  match s.rex.balances.lookup v, s.pools.rexpool with
  | some rb, some p => if 0 < p.totalRex then p.valueOf rb.rexBalance else 0
  | _, _ => 0

section
variable [FloatOps] {now : BlockTimestamp} {ctx : Context} {s s' : State} {owner voter : Name}
    {row : VoterInfo}

/-- What a state needs for the stake of a voter to be brought up to date. -/
structure Updatable (now : BlockTimestamp) (voter : Name) (row : VoterInfo) (s : State) : Prop where
  stake : StakeState now s
  gap : ∀ v, 0 ≤ stakeGap s v
  tallied : s.voting.Tallied
  stored : s.voting.voters.lookup voter = some row
  registered : ∀ q ∈ row.producers, ∃ p, s.voting.producers.lookup q = some p ∧ p.isActive = true
  delegated : StakeInv s.staking
  known : LoansKnown s
  covered : ∀ s₁, Effects now Promise.maintenance s s₁ → Covered s₁

omit [FloatOps] in
lemma RexInv.rexValue_nonneg {rb : RexBalance} {p : RexPool} (h : RexInv now s.pools s.rex)
    (hb : s.rex.balances.lookup owner = some rb) (hp : s.pools.rexpool = some p) :
    0 ≤ if 0 < p.totalRex then p.valueOf rb.rexBalance else 0 := by
  have hle := (h.rows owner rb hb).matured_le
  split_ifs
  · exact h.valueOf_nonneg hp (hle.1.trans hle.2)
  · exact le_refl 0

/-- An owner of REX can update it once the maintenance run is through. -/
lemma updaterex_total (ctx : Context) (hw : ∀ n, 0 ≤ FloatOps.voteWeight n)
    (hup : Updatable ctx.now owner row s) (hauth : owner ∈ ctx.auth)
    (hrow : (s.rex.balances.lookup owner).isSome) {s₁ : State} (h₁ : runrex ctx.now 2 s = .ok s₁) :
    ∃ s' row', updaterex ctx owner s = .ok s' ∧ Recounted owner row row' s.voting s'.voting ∧
      row'.producers = row.producers := by
  have heff := (runrex_effects (π := Promise.maintenance) h₁).1
  obtain ⟨hvoting, -, hpool₁⟩ := runrex_frame h₁
  obtain ⟨rb, hb⟩ := Option.isSome_iff_exists.mp ((heff.rows_kept id owner).trans hrow)
  obtain ⟨p, hp⟩ := Option.isSome_iff_exists.mp hpool₁
  have hi₁ := heff.rexInv hup.stake.rex
  have hvalue := hi₁.rexValue_nonneg hb hp
  have hdelegated := (heff.stakeInv hup.delegated).delegatedBy_nonneg owner
  have hgap : 0 ≤ stakeGap s₁ owner := by
    rw [(heff.shifted id owner).gap owner, if_pos rfl, add_zero]
    exact hup.gap owner
  have hl₁ : s₁.voting.voters.lookup owner = some row := by rw [hvoting]; exact hup.stored
  have hstaked : s₁.voting.stakedOf owner = row.staked := by rw [Voting.stakedOf, hl₁]; rfl
  have hvs : voteStakeOf s₁.rex owner = rb.voteStake := by rw [voteStakeOf, Table.valueAt_some hb]
  rw [stakeGap, hstaked, hvs] at hgap
  generalize hval : (if 0 < p.totalRex then p.valueOf rb.rexBalance else 0) = value at hvalue
  have hset : (s₁.setBalance owner { rb with voteStake := value }).voting = s.voting := hvoting
  have htallied : (s₁.setBalance owner { rb with voteStake := value }).voting.Tallied := by
    rw [hset]
    exact hup.tallied
  -- The stake change is the change of the value; the rest of the stake is delegated.
  have hnn : 0 ≤ row.staked + (value - rb.voteStake + pendingStake owner s₁.rex.orders) := by omega
  obtain ⟨out, s₂, row', h₂, hr, hproducers⟩ := updateRexAccount_total hw htallied ctx.now
    (value - rb.voteStake) hl₁ hnn fun q hq =>
    (hup.registered q hq).imp fun p hp => by rw [hset]; exact hp.1
  rw [hset] at hr
  refine ⟨s₂.setBalance owner (RexBalance.processRexMaturities ctx.now
    { rb with voteStake := value }), row',
    ?_, hr, hproducers⟩
  subst hval
  simp only [updaterex, requireAuth, bind_ok, check_ok, exists_const, require_ok]
  exact ⟨hauth, s₁, h₁, rb, hb, p, hp, _, h₂, rfl⟩

/-- When an owner can update its REX. -/
lemma updaterex_ok_iff (ctx : Context) (hw : ∀ n, 0 ≤ FloatOps.voteWeight n)
    (hup : Updatable ctx.now owner row s) (hauth : owner ∈ ctx.auth) :
    (∃ s', updaterex ctx owner s = .ok s') ↔
      (s.rex.balances.lookup owner).isSome ∧ s.pools.rexpool.isSome ∧ ProceedsPayable s := by
  have hiff := runrex_ok_iff 2 hup.stake.rex hup.known hup.covered
  constructor
  · rintro ⟨s', h⟩
    simp only [updaterex, requireAuth, bind_ok, check_ok, exists_const, require_ok] at h
    obtain ⟨-, s₁, h₁, rb, hb, -⟩ := h
    have heff := (runrex_effects (π := Promise.maintenance) h₁).1
    have hrow := heff.rows_kept id owner
    rw [hb] at hrow
    exact ⟨hrow.symm, hiff.mp ⟨s₁, h₁⟩⟩
  · rintro ⟨hrow, hpool⟩
    obtain ⟨s₁, h₁⟩ := hiff.mpr hpool
    obtain ⟨s', -, h, -⟩ := updaterex_total ctx hw hup hauth hrow h₁
    exact ⟨s', h⟩

/-- The row of a voter brought up to date: its stake is what backs it, and its producers count
just that stake. -/
structure Resynced (now : BlockTimestamp) (voter : Name) (row row' : VoterInfo) (s s' : State) :
    Prop where
  counted : Recounted voter row row' s.voting s'.voting
  staked : row'.staked = delegatedBy s'.staking voter + rexValue s' voter
  producers : row'.producers = row.producers
  lastStake : row'.lastStake = if row.producers = [] then 0 else row'.staked
  weight : row'.lastVoteWeight = s.voting.castWeight now row'.lastStake row.producers.length

lemma voteupdate_resynced (ctx : Context) (hw : ∀ n, 0 ≤ FloatOps.voteWeight n)
    (hup : Updatable ctx.now voter row s) (hauth : voter ∈ ctx.auth)
    (hrow : (s.rex.balances.lookup voter).isSome) {s₁ : State} (h₁ : runrex ctx.now 2 s = .ok s₁) :
    ∃ s' row', voteupdate ctx voter s = .ok s' ∧ Resynced ctx.now voter row row' s s' := by
  obtain ⟨s₂, row₂, h₂, hr₂, hproducers⟩ := updaterex_total ctx hw hup hauth hrow h₁
  obtain ⟨-, rb, p, hb, hp, hnn, hstake⟩ := updaterex_row hup.stake.rex h₂
  -- An account that has sold all its REX has a row whose value is zero.
  have hrex : rexValue s₂ voter = if 0 < rb.rexBalance then rb.voteStake else 0 := by
    rw [rexValue, hb, hp]
    dsimp only
    split_ifs with hpos hrb hrb
    · rw [hstake, if_pos hpos]
    · rw [show rb.rexBalance = 0 by omega, RexPool.valueOf, zero_mul, Int.zero_ediv]
    · rw [hstake, if_neg hpos]
    · rfl
  have hset := hr₂.tallied.restaked hr₂.stored (rexValue s₂ voter + delegatedBy s₂.staking voter)
  have hreg : ∀ q ∈ row₂.producers, ∃ p, (s₂.voting.setVoter voter { row₂ with
      staked := rexValue s₂ voter + delegatedBy s₂.staking voter }).producers.lookup q = some p ∧
      (true = true → p.isActive = true) := by
    intro q hq
    obtain ⟨p, hp, hactive⟩ := hup.registered q (hproducers ▸ hq)
    have hkept := (hset.producers q).trans (hr₂.producers q)
    rw [hp, Option.map_some, Option.map_eq_some_iff] at hkept
    obtain ⟨p', hp', hsame⟩ := hkept
    exact ⟨p', hp', fun _ => (congrArg ProducerInfo.isActive hsame).trans hactive⟩
  obtain ⟨v', hv', hcast⟩ := hset.tallied.cast hw ctx.now true hset.stored hreg
  refine ⟨{ s₂ with voting := v' }, _, ?_, (hr₂.trans hset).trans hcast, add_comm _ _,
    hproducers, ?_, ?_⟩
  · simp only [voteupdate, bind_ok, check_ok, exists_const, require_ok]
    refine ⟨by rw [hup.stored]; rfl, s₂, h₂, row₂, hr₂.stored, v', ?_, rfl⟩
    rw [hb]
    dsimp only
    rw [← hrex]
    exact hv'
  · simp only [Voting.recast, VoterInfo.castStake, hproducers, true_and]
  · simp only [Voting.recast, Voting.castWeight, VoterInfo.castStake, hproducers, true_and]
    rw [← hr₂.config]
    rfl

end

def stakedTrace : List (BlockTimestamp × Label) :=
  [(launchTime, ⟨[bob], .regproducer bob 0 0⟩),
    (launchTime, ⟨[alice], .delegatebw alice alice ⟨100, tlos⟩ ⟨100, tlos⟩ false⟩),
    (launchTime, ⟨[alice], .voteproducer alice Name.empty [bob]⟩)]

end TelosSystem
