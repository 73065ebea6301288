import TelosSystem.VoterStake

/-! What the rows of the voters remember of their votes is what the tallies count, as long as
nobody votes with a stake below zero. -/
namespace TelosSystem
open Ledger

namespace VoterInfo

def remembered (row : VoterInfo) (owner p : Name) : ℚ :=
  if p ∈ row.producers then
    row.lastVoteWeight * (1 + if p = owner then (row.selfStakeBoost.getD 0 : ℚ) / 100 else 0)
  else 0

/-- A vote without a stake has no weight. -/
def Weighed (row : VoterInfo) : Prop :=
  ¬ 0 < row.lastStake → row.producers = [] ∨ row.lastVoteWeight = 0

lemma Weighed.counted_eq {row : VoterInfo} (h : row.Weighed) (owner p : Name) :
    row.counted owner p = row.remembered owner p := by
  unfold counted remembered
  by_cases hlast : 0 < row.lastStake
  · simp only [hlast, and_true]
  · rcases h hlast with hp | hw
    · simp [hp]
    · simp [hw]

end VoterInfo

namespace Voting

def rememberedFor (v : Voting) (p : Name) : ℚ :=
  v.voters.sum fun owner row => row.remembered owner p

def Weighed (v : Voting) : Prop := ∀ owner row, v.voters.lookup owner = some row → row.Weighed

variable {v v' : Voting} {name : Name} {row : VoterInfo}

lemma Weighed.countedFor_eq (h : v.Weighed) (p : Name) : v.countedFor p = v.rememberedFor p :=
  Table.sum_congr fun owner row hl => (h owner row hl).counted_eq owner p

lemma Weighed.setVoter (h : v.Weighed) (hr : row.Weighed) : (v.setVoter name row).Weighed :=
  Table.forall_insert h hr

section
variable [FloatOps] {now : BlockTimestamp} {voting : Bool} {producers : List Name}

/-- A vote with a stake that is not negative weighs nothing only without a stake. -/
lemma recast_weighed (hw : ∀ n, 0 ≤ FloatOps.voteWeight n) (v : Voting)
    (h : producers ≠ [] → 0 ≤ row.staked) : (v.recast now name row producers voting).Weighed := by
  intro hpos
  by_cases hp : producers = []
  · exact Or.inl hp
  have hcast : 0 ≤ row.castStake producers voting := by
    unfold VoterInfo.castStake
    split_ifs
    · exact le_refl 0
    · exact h hp
  have hzero : row.castStake producers voting ≤ 0 := not_lt.mp hpos
  exact Or.inr (le_antisymm (castWeight_nonpos hw v now _ hzero)
    (castWeight_nonneg hw v now _ hcast))

lemma Weighed.revoted (hw : ∀ n, 0 ≤ FloatOps.voteWeight n) (h : v.Weighed)
    (hr : Revoted now name row producers voting v v') (hstaked : producers ≠ [] → 0 ≤ row.staked) :
    v'.Weighed := by
  unfold Weighed
  rw [hr.voters]
  exact Table.forall_insert h (recast_weighed hw v hstaked)

end
end Voting

section
variable [FloatOps] {now : BlockTimestamp} {rows : RowRule} {ballots : Prop} {v v' : Voting}

/-- Renewed votes have a stake that is not negative. -/
theorem VotingStep.weighed (hw : ∀ n, 0 ≤ FloatOps.voteWeight n)
    (h : VotingStep now rows ballots v v') (hno : ¬ ballots) (ht : v.Tallied) (hv : v.Weighed) :
    v'.Weighed := by
  cases h with
  | @votes _ voter proxy producers voting h ballot own =>
    cases voting with
    | true => exact absurd (ballot rfl) hno
    | false =>
      obtain ⟨row, hl, hr⟩ := ht.updateVotes hw h own
      obtain ⟨row', hl', -, -, hstaked⟩ := own rfl
      rw [hl] at hl'
      cases hl'
      exact hv.revoted hw hr fun _ => hstaked
  | @stake voter row staked h =>
    have hrow : VoterInfo.Weighed { row with staked } := hv voter row h
    exact hv.setVoter hrow
  | enter staked h => exact hv.setVoter fun _ => Or.inl rfl
  | flag account field value =>
    unfold Voting.setFlag
    split
    · rename_i row h
      have hrow : VoterInfo.Weighed { row with flags1 := setField row.flags1 field value } :=
        hv account row h
      exact hv.setVoter hrow
    · exact hv.setVoter fun _ => Or.inl rfl
  | register allowed h => exact hv
  | configure h => exact hv
  | recount broken h => exact absurd broken ht.not_broken

theorem VotingSteps.weighed (hw : ∀ n, 0 ≤ FloatOps.voteWeight n)
    (h : VotingSteps now rows ballots v v') (hno : ¬ ballots) (ht : v.Tallied) (hv : v.Weighed) :
    v'.Weighed := by
  induction h with
  | refl => exact hv
  | tail hprior hstep ih => exact hstep.weighed hw hno (VotingSteps.tallied hw hprior ht) ih

end

/-- The value of a voter's REX above the vote stake in its row. -/
def rexGain (s : State) (voter : Name) : ℤ :=
  match s.rex.balances.lookup voter, s.pools.rexpool with
  | some rb, some p => if 0 < p.totalRex then p.valueOf rb.rexBalance - rb.voteStake else 0
  | _, _ => 0

/-- Who votes for producers does not have a stake below zero with its REX at the current value. -/
def BallotBacked (a : Action) (s : State) : Prop :=
  match a with
  | .voteproducer voter _ producers =>
    producers ≠ [] → 0 ≤ s.voting.stakedOf voter + rexGain s voter
  | _ => True

lemma updateRexStake_staked {voter : Name} {s : State} {row : VoterInfo}
    (h : (updateRexStake voter s).voting.voters.lookup voter = some row) :
    row.staked = s.voting.stakedOf voter + rexGain s voter := by
  have hsame : s.voting.voters.lookup voter = some row → row.staked = s.voting.stakedOf voter :=
    fun hl => by
    rw [Voting.stakedOf, hl]
    rfl
  unfold updateRexStake at h
  unfold rexGain
  cases hb : s.rex.balances.lookup voter with
  | none =>
    rw [hb] at h
    rw [hsame h]
    exact (add_zero _).symm
  | some rb =>
    cases hp : s.pools.rexpool with
    | none =>
      rw [hb, hp] at h
      rw [hsame h]
      exact (add_zero _).symm
    | some p =>
      rw [hb, hp] at h
      dsimp only at h ⊢
      by_cases hpos : 0 < p.totalRex
      · rw [if_pos hpos] at h ⊢
        cases hl : s.voting.voters.lookup voter with
        | none =>
          simp only [State.setBalance, hl] at h
          cases h
        | some old =>
          simp only [State.setBalance, hl] at h
          rw [Voting.stakedOf, hl, Option.map_some, Option.getD_some, RexPool.valueOf]
          split_ifs at h with hdelta
          · simp only [Voting.setVoter, AList.lookup_insert, Option.some_inj] at h
            rw [← h]
          · dsimp only at h
            rw [hl] at h
            cases h
            omega
      · rw [if_neg hpos] at h ⊢
        rw [hsame h]
        exact (add_zero _).symm

/-- The steps of a run in which nobody votes for producers with a stake below zero. -/
def backedStep [FloatOps] (now : BlockTimestamp) (l : Label) (s s' : State) : Prop :=
  step now l s s' ∧ BallotBacked l.action s

section
variable [FloatOps] {ctx : Context} {s s' : State} {voter : Name}

lemma voteproducer_weighed {proxy : Name} {producers : List Name}
    (hw : ∀ n, 0 ≤ FloatOps.voteWeight n) (ht : s.voting.Tallied) (hv : s.voting.Weighed)
    (hback : producers ≠ [] → 0 ≤ s.voting.stakedOf voter + rexGain s voter)
    (h : voteproducer ctx voter proxy producers s = .ok s') : s'.voting.Weighed := by
  simp only [voteproducer, bind_ok, pure_ok] at h
  obtain ⟨-, -, v, hu, rfl⟩ := h
  have heff : Effects ctx.now Promise.trading s (updateRexStake voter s) :=
    updateRexStake_effects trivial voter s
  have hsteps := heff.votingSteps
  have ht₁ := VotingSteps.tallied hw hsteps ht
  have hv₁ := VotingSteps.weighed hw hsteps id ht hv
  obtain ⟨row, hl, hr⟩ := ht₁.updateVotes hw hu fun hf => by cases hf
  exact hv₁.revoted hw hr fun hp => updateRexStake_staked hl ▸ hback hp

/-- A vote with another stake that is not negative. -/
lemma restaked_weighed {now : BlockTimestamp} {v v' : Voting} {row : VoterInfo} {staked : ℤ}
    (hw : ∀ n, 0 ≤ FloatOps.voteWeight n) (ht : v.Tallied) (hv : v.Weighed)
    (hl : v.voters.lookup voter = some row)
    (hu : (v.setVoter voter { row with staked }).updateVotes now voter row.proxy
      row.producers true = .ok v')
    (h : 0 ≤ staked) : v'.Weighed := by
  have hstep : VotingStep now (fun _ _ _ => True) False v (v.setVoter voter { row with staked }) :=
    .stake staked hl
  obtain ⟨row', hl', hr⟩ := (hstep.tallied hw ht).updateVotes hw hu fun hf => by cases hf
  have hrow : (v.setVoter voter { row with staked }).voters.lookup voter =
    some { row with staked } :=
    AList.lookup_insert _
  rw [hrow] at hl'
  cases hl'
  exact (hstep.weighed hw id ht hv).revoted hw hr fun _ => h

/-- What `voteupdate` finds at stake is not negative. -/
lemma voteupdate_weighed (hw : ∀ n, 0 ≤ FloatOps.voteWeight n) (ht : s.voting.Tallied)
    (hv : s.voting.Weighed) (hi : RexInv ctx.now s.pools s.rex) (hn : StakesNonneg s)
    (hd : StakeInv s.staking) (h : voteupdate ctx voter s = .ok s') : s'.voting.Weighed := by
  simp only [voteupdate, bind_ok, check_ok, exists_const, require_ok, pure_ok] at h
  obtain ⟨-, s₁, h₁, row, hl, v, hu, rfl⟩ := h
  have heff := updaterex_effects (π := Promise.trading) trivial (fun _ _ => trivial) h₁
  have ht₁ := VotingSteps.tallied hw heff.votingSteps ht
  have hv₁ := VotingSteps.weighed hw heff.votingSteps id ht hv
  have hdelegated := (heff.stakeInv hd).delegatedBy_nonneg voter
  refine restaked_weighed hw ht₁ hv₁ hl hu (add_nonneg ?_ hdelegated)
  split
  · rename_i rb hb
    split_ifs
    · exact heff.stakesNonneg hi hn voter rb hb
    · exact le_refl 0
  · exact le_refl 0

theorem step.weighed {now : BlockTimestamp} {l : Label} (hw : ∀ n, 0 ≤ FloatOps.voteWeight n)
    (h : step now l s s') (hback : BallotBacked l.action s) (hs : StakeState now s)
    (hd : StakeInv s.staking) (ht : s.voting.Tallied) (hv : s.voting.Weighed) :
    s'.voting.Weighed := by
  by_cases hballot : l.action.CastsBallot
  · obtain ⟨auth, action⟩ := l
    cases action with
    | voteproducer voter proxy producers => exact voteproducer_weighed hw ht hv hback h
    | voteupdate voter => exact voteupdate_weighed hw ht hv hs.rex hs.nonneg hd h
    | _ => exact absurd hballot id
  · exact VotingSteps.weighed hw (step.votingSteps h) hballot ht hv

structure LedgerState (now : BlockTimestamp) (s : State) : Prop where
  stake : StakeState now s
  delegated : StakeInv s.staking
  tallied : s.voting.Tallied
  weighed : s.voting.Weighed

lemma LedgerState.step {now now' : BlockTimestamp} {l : Label} (hw : ∀ n, 0 ≤ FloatOps.voteWeight n)
    (h : LedgerState now s) (hle : now ≤ now') (hs : backedStep now' l s s') :
    LedgerState now' s' where
  stake := h.stake.step hle hs.1
  delegated := step.stakeInv hs.1 h.delegated
  tallied := VotingSteps.tallied hw (step.votingSteps hs.1) h.tallied
  weighed := step.weighed hw hs.1 hs.2 { h.stake with rex := h.stake.rex.later hle } h.delegated
    h.tallied h.weighed

omit [FloatOps] in
lemma NoVotes.weighed (h : NoVotes s) : s.voting.Weighed :=
  fun owner row hl _ => Or.inl (h.unvoted owner row hl).2.2.1

omit [FloatOps] in
lemma Genesis.ledgerState (h : Genesis s) (hn : NoVotes s) (now : BlockTimestamp) :
    LedgerState now s where
  stake := h.stakeState now
  delegated := h.stakeInv
  tallied := hn.tallied
  weighed := hn.weighed

/-- As long as nobody votes with a stake below zero, the tallies are the sums of what the rows of the
voters remember, and the two totals those of the rows. No tally is negative, and every vote changes
the tallies by what its row remembers afterwards less what it remembered before. -/
theorem vote_ledger {t₀ t : BlockTimestamp} {s₀ s : State} {tr : List (BlockTimestamp × Label)}
    (hw : ∀ n, 0 ≤ FloatOps.voteWeight n) (h0 : Genesis s₀) (hn : NoVotes s₀)
    (hrun : TimedRun backedStep t₀ s₀ tr t s) :
    (∀ p row, s.voting.producers.lookup p = some row → row.totalVotes = s.voting.rememberedFor p) ∧
    s.voting.totalProducerVoteWeight = s.voting.producers.sum (fun _ row => row.totalVotes) ∧
    s.voting.totalActivatedStake = s.voting.voters.total (fun _ row => row.lastStake) ∧
    (∀ p row, s.voting.producers.lookup p = some row → 0 ≤ row.totalVotes) ∧
    (∀ owner row, s.voting.voters.lookup owner = some row → ∀ p,
      row.counted owner p = row.remembered owner p) ∧
    ∀ t' l s', t ≤ t' → step t' l s s' →
      Relation.ReflTransGen (ExactStep t') s.voting s'.voting := by
  have h : LedgerState t s :=
    hrun.stateInvariant LedgerState (h0.ledgerState hn t₀) fun hs hle hstep => hs.step hw hle hstep
  have htally : ∀ p row, s.voting.producers.lookup p = some row →
    row.totalVotes = s.voting.countedFor p :=
    fun p row hp => (Voting.tallyOf_some hp).symm.trans (h.tallied.tallies p)
  refine ⟨fun p row hp => ?_, h.tallied.weight, h.tallied.activated, fun p row hp => ?_,
    fun owner row hl p => (h.weighed owner row hl).counted_eq owner p,
    fun t' l s' _ hstep => (step.votingSteps hstep).exact hw h.tallied⟩
  · rw [htally p row hp, h.weighed.countedFor_eq p]
  · exact Voting.tallyOf_some hp ▸ h.tallied.tallyOf_nonneg p

end

lemma BallotBacked.of_not {a : Action} {s : State}
    (h : ∀ voter proxy producers, a ≠ .voteproducer voter proxy producers) : BallotBacked a s := by
  cases a with
  | voteproducer voter proxy producers => exact absurd rfl (h voter proxy producers)
  | _ => trivial

def renewedTrace : List (BlockTimestamp × Label) :=
  voteTrace ++ [(launchTime.after 600,
    ⟨[alice], .delegatebw alice alice ⟨100, tlos⟩ ⟨100, tlos⟩ false⟩)]

lemma renewedTrace_backed :
    @TimedRun _ _ _ _ (@backedStep launchFloats) launchTime launchState renewedTrace
    (launchTime.after 600) (launched renewedTrace) := by
  let := launchFloats
  have hprior := launched_run (show launches (voteTrace.take 3) = true by decide +kernel)
    (by decide)
  rw [show ((voteTrace.take 3).getLast?.map Prod.fst).getD launchTime =
    launchTime by decide] at hprior
  have hbacked : TimedRun backedStep launchTime launchState (voteTrace.take 3) launchTime
    (launched (voteTrace.take 3)) :=
    TimedRun.mono_of (fun x hx s s' hs => ⟨hs, BallotBacked.of_not fun voter proxy producers => by
      simp only [voteTrace, List.take, List.mem_cons, List.not_mem_nil, or_false] at hx
      rcases hx with rfl | rfl | rfl <;> simp⟩) hprior
  have hvoted : backedStep launchTime ⟨[alice], .voteproducer alice Name.empty [bob]⟩
    (launched (voteTrace.take 3))
      (launched voteTrace) :=
    ⟨launched_step (show launches voteTrace = true by decide +kernel), fun _ => by decide +kernel⟩
  have hrenewed : backedStep (launchTime.after 600)
    ⟨[alice], .delegatebw alice alice ⟨100, tlos⟩ ⟨100, tlos⟩ false⟩
      (launched voteTrace) (launched renewedTrace) :=
    ⟨launched_step (show launches renewedTrace = true by decide +kernel), trivial⟩
  exact (hbacked.snoc le_rfl hvoted).snoc (by decide) hrenewed

theorem vote_counted : (launched renewedTrace).voting.tallyOf bob = 40 ∧
    (launched renewedTrace).voting.rememberedFor bob = 40 := by
  let := launchFloats
  have htally : (launched renewedTrace).voting.tallyOf bob = 40 := by decide +kernel
  cases hp : (launched renewedTrace).voting.producers.lookup bob with
  | none =>
    rw [Voting.tallyOf_none hp] at htally
    norm_num at htally
  | some row =>
    have hledger :=
      (vote_ledger launchFloats_weight launchState_genesis launchState_noVotes
        renewedTrace_backed).1 bob row hp
    exact ⟨htally, by rw [← hledger, ← Voting.tallyOf_some hp, htally]⟩

/-- The launch, with tokens for the REX distribution. -/
def fundedState : State where
  __ := launchState
  token :=
    { launchToken with
      accounts := launchToken.accounts.insert (tedpAccount, tlos.code) ⟨3600000, tlos⟩ }

/-- Alice sells most of her one unit's worth of REX, the rest is queued while the price rises, and
her stake falls below zero before she votes for Bob. -/
def debtTrace : List (BlockTimestamp × Label) :=
  [(launchTime, ⟨[bob], .regproducer bob 0 0⟩),
    (launchTime, ⟨[bob], .deposit bob ⟨200000, tlos⟩⟩),
    (launchTime, ⟨[bob], .buyrex bob ⟨100000, tlos⟩⟩),
    (launchTime, ⟨[alice], .deposit alice ⟨1, tlos⟩⟩),
    (launchTime, ⟨[alice], .buyrex alice ⟨1, tlos⟩⟩),
    (launchTime, ⟨[tedpAccount], .distviarex tedpAccount ⟨50000, tlos⟩⟩),
    (days 31, ⟨[alice], .sellrex alice ⟨6700, rexSymbol⟩⟩),
    (days 31, ⟨[systemAccount], .setrex ⟨1, tlos⟩⟩),
    (days 31, ⟨[bob], .rent .cpu bob bob ⟨1000, tlos⟩ ⟨0, tlos⟩⟩),
    (days 31, ⟨[alice], .sellrex alice ⟨1000, rexSymbol⟩⟩),
    (days 31, ⟨[tedpAccount], .distviarex tedpAccount ⟨3550000, tlos⟩⟩),
    (days 62, ⟨[bob], .rexexec bob 2⟩),
    (days 62, ⟨[alice], .voteproducer alice Name.empty [bob]⟩)]

def debtEnd : State :=
  stateAfter (fun now (l : Label) => @exec launchFloats ⟨now, l.auth⟩ l.action)
    debtTrace fundedState

/-- A vote with a negative stake is remembered and not counted. -/
theorem debt_uncounted : Genesis fundedState ∧ NoVotes fundedState ∧
    @TimedRun _ _ _ _ (@step launchFloats) launchTime fundedState debtTrace (days 62) debtEnd ∧
    debtEnd.voting.producers.lookup bob ≠ none ∧ debtEnd.voting.tallyOf bob = 0 ∧
    debtEnd.voting.rememberedFor bob = -1 / 30 := by
  have hrun := @timedRun_stateAfter launchFloats launchTime fundedState debtTrace (by decide)
    (by decide +kernel)
  rw [show (debtTrace.getLast?.map Prod.fst).getD launchTime = days 62 by decide] at hrun
  have hl := launchState_genesis
  have hgenesis : Genesis fundedState :=
    ⟨hl.pools, hl.rex, hl.delband, hl.refunds, hl.resources, hl.powerup, by decide⟩
  have hv := launchState_noVotes
  have hnone : NoVotes fundedState :=
    ⟨hv.unvoted, hv.untallied, hv.weight, hv.activated, hv.multiplier⟩
  exact ⟨hgenesis, hnone, hrun, by decide +kernel, by decide +kernel, by decide +kernel⟩

end TelosSystem
