import TelosSystem.ActionEffects
import TelosSystem.RexPurchase
import TelosSystem.VoteChanges

/-! The tallies of the votes. While nobody votes through a proxy, the tally of every producer is
the sum of what the rows of the voters remember of their last votes, so that taking a vote back
never makes a tally negative, and the recount of the votes never starts. -/
namespace TelosSystem
open Ledger

namespace Voting

def countedFor (v : Voting) (p : Name) : ℚ := v.voters.sum fun owner row => row.counted owner p

def tallyOf (v : Voting) (p : Name) : ℚ := v.producers.sumAt (fun _ row => row.totalVotes) p

/-- No voter has a proxy, and the three totals are those of the rows. -/
structure Tallied (v : Voting) : Prop where
  rows : ∀ owner row, v.voters.lookup owner = some row → row.Direct
  tallies : ∀ p, v.tallyOf p = v.countedFor p
  weight : v.totalProducerVoteWeight = v.tallySum
  activated : v.totalActivatedStake = v.voters.total fun _ row => row.lastStake
  multiplier : v.config.selfStakeBoostMultiplier ≤ 1000

variable {v v' : Voting} {name : Name} {row : VoterInfo} {q : Name}

lemma tallyOf_some {p : ProducerInfo} (h : v.producers.lookup q = some p) :
    v.tallyOf q = p.totalVotes :=
  Table.sumAt_some h

lemma tallyOf_none (h : v.producers.lookup q = none) : v.tallyOf q = 0 := Table.sumAt_none h

lemma tallyOf_setProducer {producer : Name} {p : ProducerInfo}
    (ht : p.totalVotes = v.tallyOf producer) (q : Name) :
    (v.setProducer producer p).tallyOf q = v.tallyOf q := by
  unfold tallyOf Table.sumAt Voting.setProducer
  rw [Table.lookup_insert']
  split_ifs with hq
  · subst hq
    exact ht
  · rfl

namespace Tallied

lemma counted_le (h : v.Tallied) (hl : v.voters.lookup name = some row) (q : Name) :
    row.counted name q ≤ v.tallyOf q := by
  rw [h.tallies]
  exact Table.le_sum (f := fun owner (row : VoterInfo) => row.counted owner q)
    (fun owner row hr => (h.rows owner row hr).counted_nonneg owner q) hl

lemma tallyOf_nonneg (h : v.Tallied) (q : Name) : 0 ≤ v.tallyOf q := by
  rw [h.tallies]
  exact Table.sum_nonneg fun owner row hr => (h.rows owner row hr).counted_nonneg owner q

lemma weight_nonneg (h : v.Tallied) : 0 ≤ v.totalProducerVoteWeight := by
  rw [h.weight]
  exact Table.sum_nonneg fun q p hp => tallyOf_some hp ▸ h.tallyOf_nonneg q

/-- The threshold of the recount is never reached. -/
lemma not_broken (h : v.Tallied) : ¬ v.tallyBroken := by
  have hw := h.weight_nonneg
  unfold tallyBroken
  linarith

/-- A change of rows that counts the same. -/
lemma congr (h : v.Tallied) (hrows : ∀ owner row, v'.voters.lookup owner = some row → row.Direct)
    (hcounted : ∀ q, v'.countedFor q = v.countedFor q) (htally : ∀ q, v'.tallyOf q = v.tallyOf q)
    (hsum : v'.tallySum = v.tallySum)
    (hlast : (v'.voters.total fun _ row => row.lastStake) = v.voters.total fun _ row =>
      row.lastStake)
    (htotals : v'.totalProducerVoteWeight = v.totalProducerVoteWeight ∧
      v'.totalActivatedStake = v.totalActivatedStake)
    (hmult : v'.config.selfStakeBoostMultiplier ≤ 1000) : v'.Tallied :=
  ⟨hrows, fun q => by rw [htally, hcounted, h.tallies], by rw [htotals.1, hsum, h.weight],
    by rw [htotals.2, hlast, h.activated], hmult⟩

/-- A row that remembers the same votes. -/
lemma setVoter (h : v.Tallied) {row' : VoterInfo} (hd : row'.Direct)
    (hold : ∀ q, row'.counted name q = v.voters.sumAt (fun owner r => r.counted owner q) name)
    (hlast : row'.lastStake = v.voters.valueAt (fun _ r => r.lastStake) name) :
    (v.setVoter name row').Tallied := by
  refine h.congr (Table.forall_insert h.rows hd) (fun q => ?_) (fun _ => rfl) rfl ?_
    ⟨rfl, rfl⟩ h.multiplier
  · unfold countedFor
    rw [Voting.setVoter, Table.sum_insert, hold]
    ring
  · rw [Voting.setVoter, Table.total_insert, hlast]
    ring

lemma rewritten (h : v.Tallied) {row' : VoterInfo} (hl : v.voters.lookup name = some row)
    (hd : row'.Direct) (hold : ∀ q, row'.counted name q = row.counted name q)
    (hlast : row'.lastStake = row.lastStake) : (v.setVoter name row').Tallied :=
  h.setVoter hd (fun q => by rw [Table.sumAt_some hl, hold]) (by rw [Table.valueAt_some hl, hlast])

lemma entered (h : v.Tallied) {row' : VoterInfo} (hl : v.voters.lookup name = none)
    (hd : row'.Direct) (hlast : row'.lastStake = 0) : (v.setVoter name row').Tallied :=
  h.setVoter hd (fun q => by rw [Table.sumAt_none hl]; simp [VoterInfo.counted, hlast])
    (by rw [Table.valueAt_none hl, hlast])

/-- A producer's row rewritten with its tally. -/
lemma setProducer (h : v.Tallied) {producer : Name} {p : ProducerInfo}
    (ht : p.totalVotes = v.tallyOf producer) : (v.setProducer producer p).Tallied := by
  refine h.congr h.rows (fun _ => rfl) (tallyOf_setProducer ht) ?_ rfl ⟨rfl, rfl⟩ h.multiplier
  · unfold tallySum Voting.setProducer
    rw [Table.sum_insert, ht]
    unfold tallyOf
    ring

end Tallied

section
variable [FloatOps] {now : BlockTimestamp} {producers : List Name} {voting : Bool}

lemma Tallied.revoted (hw : ∀ n, 0 ≤ FloatOps.voteWeight n) (h : v.Tallied)
    (hl : v.voters.lookup name = some row) (hr : Revoted now name row producers voting v v') :
    v'.Tallied := by
  have hrows := h.rows name row hl
  have hm : v.config.selfStakeBoostMultiplier < 2 ^ 32 := lt_of_le_of_lt h.multiplier (by norm_num)
  have hcounted : ∀ q, v'.countedFor q =
      v.countedFor q - row.counted name q +
      (v.recast now name row producers voting).counted name q := by
    intro q
    unfold countedFor
    rw [hr.voters, Table.sum_insert_old _ _ hl]
  refine ⟨?_, fun q => ?_, ?_, ?_, by rw [hr.config]; exact h.multiplier⟩
  · rw [hr.voters]
    exact Table.forall_insert h.rows (recast_direct hw hrows hm hr.length_le hr.sorted)
  · have ht := hr.tallies q
    rw [hcounted, ← h.tallies]
    cases hp : v.producers.lookup q with
    | none =>
      rw [hp, Option.map_none] at ht
      have hold : row.counted name q = 0 :=
        le_antisymm (tallyOf_none hp ▸ h.counted_le hl q) (hrows.counted_nonneg name q)
      have hnew : (v.recast now name row producers voting).counted name q = 0 := by
        unfold VoterInfo.counted
        refine if_neg fun hc => ?_
        obtain ⟨p, hp', -⟩ := hr.named q hc.1 hc.2
        rw [hp] at hp'
        cases hp'
      rw [tallyOf_none hp, tallyOf_none ht, hold, hnew]
      norm_num
    | some p =>
      rw [hp, Option.map_some] at ht
      rw [tallyOf_some hp, tallyOf_some ht]
  · have hsum := hr.weight
    rw [h.weight] at hsum
    linarith
  · rw [hr.activated, hr.voters, Table.total_insert_old _ _ hl, h.activated]
    have hlast : (v.recast now name row producers voting).lastStake =
      row.castStake producers voting := rfl
    rw [hlast]
    ring

/-- Without proxies a vote names producers. -/
lemma Tallied.no_proxy (h : v.Tallied) {proxy : Name}
    (hu : v.updateVotes now name proxy producers voting = .ok v')
    (hown : voting = false → ∃ row, v.voters.lookup name = some row ∧ row.proxy = proxy ∧
      row.producers = producers ∧ 0 ≤ row.staked) :
    proxy = Name.empty := by
  by_contra hproxy
  cases voting with
  | false =>
    obtain ⟨row, hl, hp, -⟩ := hown rfl
    exact hproxy (hp ▸ (h.rows name row hl).noProxy)
  | true =>
    simp only [updateVotes, hproxy, ne_eq, not_false_eq_true, if_true, bind_ok,
      require_ok, check_ok,
      exists_const] at hu
    obtain ⟨-, -, voter, hv, -, ⟨d, b, v₁⟩, h₁, target, ht, htarget, -⟩ := hu
    have hc : Counted v v₁ := (Counted.setActivated v _).trans (undoLastVote_counted h₁)
    obtain ⟨row, hl, hs⟩ := hc.symm.lookup ht
    have hproxies := (h.rows proxy row hl).notProxy
    have hsame : row.isProxy = target.isProxy := congrArg (fun x => x.2.2) hs
    simp only [Bool.true_eq_false, false_or] at htarget
    rw [hsame, htarget] at hproxies
    cases hproxies

/-- A vote of a voter. -/
lemma Tallied.updateVotes (hw : ∀ n, 0 ≤ FloatOps.voteWeight n) (h : v.Tallied) {proxy : Name}
    (hu : v.updateVotes now name proxy producers voting = .ok v')
    (hown : voting = false → ∃ row, v.voters.lookup name = some row ∧ row.proxy = proxy ∧
      row.producers = producers ∧ 0 ≤ row.staked) :
    ∃ row, v.voters.lookup name = some row ∧ Revoted now name row producers voting v v' := by
  obtain rfl := h.no_proxy hu hown
  cases hl : v.voters.lookup name with
  | none =>
    simp [Voting.updateVotes, hl, require, bind_ok] at hu
  | some row =>
    refine ⟨row, rfl, updateVotes_revoted hw hl (h.rows name row hl) (fun q p hp => ?_) hu⟩
    exact tallyOf_some hp ▸ h.counted_le hl q

end
end Voting

section
variable [FloatOps] {now : BlockTimestamp} {rows : RowRule} {ballots : Prop} {v v' : Voting}

theorem VotingStep.tallied (hw : ∀ n, 0 ≤ FloatOps.voteWeight n)
    (h : VotingStep now rows ballots v v') (ht : v.Tallied) : v'.Tallied := by
  cases h with
  | votes h _ own =>
    obtain ⟨row, hl, hr⟩ := ht.updateVotes hw h own
    exact ht.revoted hw hl hr
  | stake staked h =>
    have hd := ht.rows _ _ h
    exact ht.rewritten h ⟨hd.noProxy, hd.notProxy, hd.sorted, hd.length_le, hd.boost_lt,
      hd.weight_nonneg⟩
      (fun _ => rfl) rfl
  | enter staked h =>
    exact ht.entered h (VoterInfo.Direct.of_new rfl rfl rfl rfl rfl) rfl
  | flag account field value =>
    unfold Voting.setFlag
    split
    · rename_i row h
      have hd := ht.rows _ _ h
      exact ht.rewritten h ⟨hd.noProxy, hd.notProxy, hd.sorted, hd.length_le, hd.boost_lt,
        hd.weight_nonneg⟩
        (fun _ => rfl) rfl
    · rename_i h
      exact ht.entered h (VoterInfo.Direct.of_new rfl rfl rfl rfl rfl) rfl
  | register allowed h => exact ht.setProducer h
  | configure h =>
    have hm := ht.multiplier
    exact ht.congr ht.rows (fun _ => rfl) (fun _ => rfl) rfl rfl ⟨rfl, rfl⟩ (by dsimp only; omega)
  | recount broken h => exact absurd broken ht.not_broken

theorem VotingSteps.tallied (hw : ∀ n, 0 ≤ FloatOps.voteWeight n)
    (h : VotingSteps now rows ballots v v') (ht : v.Tallied) : v'.Tallied := by
  induction h with
  | refl => exact ht
  | tail _ hstep ih => exact hstep.tallied hw ih

end

section
variable [FloatOps] {now : BlockTimestamp} {π : Promise} {s s' : State}

/-- An effect changes the votes by steps. -/
theorem Effect.votingSteps (h : Effect now π s s') :
    VotingSteps now π.rows π.ballots s.voting s'.voting := by
  cases h with
  | stake h =>
    obtain ⟨staking, resources, token, rfl, -⟩ := moveStake_frame h
    exact VotingSteps.refl _
  | market h =>
    obtain ⟨resources, powerup, rfl⟩ := h.frame
    exact VotingSteps.refl _
  | close timestamp names =>
    obtain ⟨auctions, pools, h⟩ := closeAuction_eq timestamp now s
    rw [h]
    exact VotingSteps.refl _
  | sell _ _ _ _ _ _ _ _ votes => exact votes
  | collect restake actor votes => exact votes
  | voting restake votes => exact votes
  | election same votes => exact votes
  | _ => exact VotingSteps.refl _

theorem Effects.votingSteps (h : Effects now π s s') :
    VotingSteps now π.rows π.ballots s.voting s'.voting := by
  induction h with
  | refl => exact VotingSteps.refl _
  | tail _ hstep ih => exact Relation.ReflTransGen.trans ih hstep.votingSteps

omit [FloatOps] in
theorem Purchase.voting (h : Purchase now π s s') : s'.voting = s.voting := by
  obtain ⟨owner, payment, delta, mid, -, h0, hf, hpur⟩ := h.parts
  obtain ⟨funds, staking, resources, token, rfl⟩ := hf.frame
  obtain ⟨received, p', stake, -, rfl⟩ := purchase_ok hpur
  rfl

theorem step.votingSteps {l : Label} (h : step now l s s') :
    VotingSteps now l.action.Rewrites l.action.CastsBallot s.voting s'.voting := by
  obtain ⟨mid, hm, he⟩ := exec_decomposed h
  have hmid : mid.voting = s.voting := by
    rcases hm with rfl | hp
    · rfl
    · exact hp.voting
  exact hmid ▸ he.votingSteps

end

structure NoVotes (s : State) : Prop where
  unvoted : ∀ owner row, s.voting.voters.lookup owner = some row → row.proxy = Name.empty ∧
    row.isProxy = false ∧
    row.producers = [] ∧ row.selfStakeBoost.getD 0 = 0 ∧ row.lastStake = 0
  untallied : ∀ p row, s.voting.producers.lookup p = some row → row.totalVotes = 0
  weight : s.voting.totalProducerVoteWeight = 0
  activated : s.voting.totalActivatedStake = 0
  multiplier : s.voting.config.selfStakeBoostMultiplier ≤ 1000

lemma NoVotes.tallied {s : State} (h : NoVotes s) : s.voting.Tallied := by
  have hrow : ∀ owner row, s.voting.voters.lookup owner = some row → ∀ q,
    row.counted owner q = 0 := by
    intro owner row hl q
    obtain ⟨-, -, hp, -, -⟩ := h.unvoted owner row hl
    simp [VoterInfo.counted, hp]
  refine ⟨fun owner row hl => ?_, fun q => ?_, ?_, ?_, h.multiplier⟩
  · obtain ⟨h₁, h₂, h₃, h₄, h₅⟩ := h.unvoted owner row hl
    exact VoterInfo.Direct.of_new h₁ h₂ h₃ h₄ h₅
  · have hcounted : s.voting.countedFor q = 0 :=
      Table.sum_eq_zero fun owner row hl => hrow owner row hl q
    rw [hcounted]
    cases hp : s.voting.producers.lookup q with
    | none => exact Voting.tallyOf_none hp
    | some p => exact (Voting.tallyOf_some hp).trans (h.untallied q p hp)
  · rw [h.weight]
    exact (Table.sum_eq_zero fun p row hl => h.untallied p row hl).symm
  · rw [h.activated]
    exact (Table.sum_eq_zero fun owner row hl => (h.unvoted owner row hl).2.2.2.2).symm

/-- A vote changes the tallies by what it counts, less what the voter's row remembers; nothing else
changes a tally or what a row remembers. -/
inductive ExactStep [FloatOps] (now : BlockTimestamp) (v v' : Voting) : Prop
  | vote {name : Name} {row : VoterInfo} {producers : List Name} {voting : Bool}
      (hl : v.voters.lookup name = some row) (h : Voting.Revoted now name row producers voting v v')
  | other (remembered : ∀ owner q, v'.voters.sumAt (fun owner row => row.counted owner q) owner =
        v.voters.sumAt (fun owner row => row.counted owner q) owner)
      (tallies : ∀ q, v'.tallyOf q = v.tallyOf q)
      (weight : v'.totalProducerVoteWeight = v.totalProducerVoteWeight)
      (activated : v'.totalActivatedStake = v.totalActivatedStake)

section
variable [FloatOps] {now : BlockTimestamp} {rows : RowRule} {ballots : Prop} {v v' : Voting}

omit [FloatOps] in
lemma Voting.sumAt_setVoter (v : Voting) (name : Name) (row : VoterInfo) (q : Name)
    (h : row.counted name q = v.voters.sumAt (fun owner row => row.counted owner q) name)
    (owner : Name) :
    (v.setVoter name row).voters.sumAt (fun owner row => row.counted owner q) owner =
      v.voters.sumAt (fun owner row => row.counted owner q) owner := by
  by_cases ho : owner = name
  · subst ho
    rw [← h]
    exact Table.sumAt_some (AList.lookup_insert _)
  · unfold Voting.setVoter Table.sumAt
    rw [Table.lookup_insert', if_neg ho]

theorem VotingStep.exact (hw : ∀ n, 0 ≤ FloatOps.voteWeight n)
    (h : VotingStep now rows ballots v v') (ht : v.Tallied) : ExactStep now v v' := by
  cases h with
  | votes h _ own =>
    obtain ⟨row, hl, hr⟩ := ht.updateVotes hw h own
    exact .vote hl hr
  | stake staked h =>
    refine .other (fun owner q => Voting.sumAt_setVoter _ _ _ q ?_ owner) (fun _ => rfl) rfl rfl
    rw [Table.sumAt_some h]
    rfl
  | enter staked h =>
    refine .other (fun owner q => Voting.sumAt_setVoter _ _ _ q ?_ owner) (fun _ => rfl) rfl rfl
    rw [Table.sumAt_none h]
    simp [VoterInfo.counted]
  | flag account field value =>
    unfold Voting.setFlag
    split
    · rename_i row h
      refine .other (fun owner q => Voting.sumAt_setVoter _ _ _ q ?_ owner) (fun _ => rfl) rfl rfl
      rw [Table.sumAt_some h]
      rfl
    · rename_i h
      refine .other (fun owner q => Voting.sumAt_setVoter _ _ _ q ?_ owner) (fun _ => rfl) rfl rfl
      rw [Table.sumAt_none h]
      simp [VoterInfo.counted]
  | register allowed h =>
    exact .other (fun _ _ => rfl) (fun q => Voting.tallyOf_setProducer h q) rfl rfl
  | configure h => exact .other (fun _ _ => rfl) (fun _ => rfl) rfl rfl
  | recount broken h => exact absurd broken ht.not_broken

theorem VotingSteps.exact (hw : ∀ n, 0 ≤ FloatOps.voteWeight n)
    (h : VotingSteps now rows ballots v v') (ht : v.Tallied) :
    Relation.ReflTransGen (ExactStep now) v v' := by
  induction h with
  | refl => exact Relation.ReflTransGen.refl
  | tail hprior hstep ih => exact ih.tail (hstep.exact hw (VotingSteps.tallied hw hprior ht))

end

section
variable [FloatOps]

theorem tallied_run {t₀ t : BlockTimestamp} {s₀ s : State} {tr : List (BlockTimestamp × Label)}
    (hw : ∀ n, 0 ≤ FloatOps.voteWeight n) (h0 : NoVotes s₀) (hrun : TimedRun step t₀ s₀ tr t s) :
    s.voting.Tallied := by
  refine TimedRun.stateInvariant (fun _ s => s.voting.Tallied) h0.tallied ?_ hrun
  intro t t' a s s' h _ hstep
  exact (step.votingSteps hstep).tallied hw h

end

lemma launchFloats_weight : ∀ n, 0 ≤ launchFloats.voteWeight n := by
  intro n
  exact div_nonneg (Nat.cast_nonneg n) (by norm_num)

lemma launchState_noVotes : NoVotes launchState := by
  refine ⟨fun owner row h => ?_, fun p row h => ?_, rfl, rfl, by decide⟩
  · cases h
  · cases h

def voteTrace : List (BlockTimestamp × Label) :=
  [(launchTime, ⟨[bob], .regproducer bob 0 0⟩),
    (launchTime, ⟨[alice], .deposit alice ⟨1000, tlos⟩⟩),
    (launchTime, ⟨[alice], .buyrex alice ⟨1000, tlos⟩⟩),
    (launchTime, ⟨[alice], .voteproducer alice Name.empty [bob]⟩)]

end TelosSystem
