import TelosSystem.Accounts
import TelosSystem.Registration
import TelosSystem.VoteRecalculation

/-! How the voting tables change. A count of votes touches only what it computes: the weights of
the voters and the tallies of the producers. Every action changes the tables by small steps. -/
namespace TelosSystem
open Ledger

/-- What a voter row holds besides its votes. -/
def VoterInfo.standing (row : VoterInfo) : ℤ × UInt32 × Bool :=
  (row.staked, row.flags1, row.isProxy)

/-- A producer row without its tally. -/
def ProducerInfo.untallied (p : ProducerInfo) : ProducerInfo := { p with totalVotes := 0 }

namespace Voting

structure Counted (v v' : Voting) : Prop where
  voters : ∀ a, (v'.voters.lookup a).map VoterInfo.standing =
    (v.voters.lookup a).map VoterInfo.standing
  producers : ∀ a, (v'.producers.lookup a).map ProducerInfo.untallied =
    (v.producers.lookup a).map ProducerInfo.untallied
  config : v'.config = v.config

namespace Counted
variable {v v' v'' : Voting}

lemma refl (v : Voting) : Counted v v := ⟨fun _ => rfl, fun _ => rfl, rfl⟩

lemma trans (h : Counted v v') (h' : Counted v' v'') : Counted v v'' :=
  ⟨fun a => (h'.voters a).trans (h.voters a), fun a => (h'.producers a).trans (h.producers a),
    h'.config.trans h.config⟩

/-- A voter row rewritten in its votes only. -/
lemma setVoter {owner : Name} {row row' : VoterInfo} (hl : v.voters.lookup owner = some row)
    (hr : row'.standing = row.standing) : Counted v (v.setVoter owner row') where
  voters a := by
    unfold Voting.setVoter
    rw [Table.lookup_insert']
    split_ifs with ha
    · rw [ha, hl, Option.map_some, Option.map_some, hr]
    · rfl
  producers _ := rfl
  config := rfl

lemma setTally {owner : Name} {p : ProducerInfo} (hl : v.producers.lookup owner = some p)
    (totalVotes weight : ℚ) : Counted v { v with
      producers := v.producers.insert owner { p with totalVotes }, totalProducerVoteWeight :=
        weight } where
  voters _ := rfl
  producers a := by
    rw [Table.lookup_insert']
    split_ifs with ha
    · rw [ha, hl]
      rfl
    · rfl
  config := rfl

lemma setActivated (v : Voting) (stake : ℤ) : Counted v { v with totalActivatedStake := stake } :=
  ⟨fun _ => rfl, fun _ => rfl, rfl⟩

lemma lookup (h : Counted v v') {owner : Name} {row : VoterInfo}
    (hl : v.voters.lookup owner = some row) :
    ∃ row', v'.voters.lookup owner = some row' ∧ row'.standing = row.standing := by
  have ha := h.voters owner
  rw [hl] at ha
  exact Option.map_eq_some_iff.mp ha

/-- The row that is written back when it is still there. -/
lemma getD (h : Counted v v') {owner : Name} {row : VoterInfo}
    (hl : v.voters.lookup owner = some row) :
    v'.voters.lookup owner = some ((v'.voters.lookup owner).getD row) ∧
      ((v'.voters.lookup owner).getD row).standing = row.standing := by
  obtain ⟨row', hr, hs⟩ := h.lookup hl
  rw [hr]
  exact ⟨rfl, hs⟩

end Counted

/-- A fold whose rounds only count votes counts votes. -/
lemma foldlM_counted {α β : Type} (g : β → Voting) {f : β → α → Except String β}
    (hf : ∀ {b b' : β} {a : α}, f b a = .ok b' → Counted (g b) (g b')) {l : List α} {b b' : β}
    (h : l.foldlM f b = .ok b') : Counted (g b) (g b') := by
  induction l generalizing b with
  | nil =>
    rw [List.foldlM_nil, pure_ok] at h
    exact h ▸ Counted.refl _
  | cons a l ih =>
    rw [List.foldlM_cons, bind_ok] at h
    obtain ⟨b₁, h₁, h₂⟩ := h
    exact (hf h₁).trans (ih h₂)

lemma applyDelta_counted {voting : Bool} {v v' : Voting} {entry : Name × (ℚ × Bool)}
    (h : applyDelta voting v entry = .ok v') : Counted v v' := by
  unfold applyDelta at h
  split at h
  · rename_i p hp
    simp only [bind_ok, check_ok, exists_const, pure_ok] at h
    obtain ⟨-, rfl⟩ := h
    exact Counted.setTally hp _ _
  · simp only [bind_ok, check_ok, exists_const, pure_ok] at h
    obtain ⟨-, rfl⟩ := h
    exact Counted.refl v

section
variable [FloatOps]

lemma propagateWeightChange_counted {fuel : ℕ} {name : Name} {v v' : Voting}
    (h : propagateWeightChange fuel name v = .ok v') : Counted v v' := by
  induction fuel generalizing name v v' with
  | zero =>
    rw [propagateWeightChange] at h
    cases h
  | succ fuel ih =>
    simp only [propagateWeightChange, bind_ok, require_ok, check_ok, exists_const] at h
    obtain ⟨voter, hv, -, h⟩ := h
    have hwrite : ∀ {v₁ : Voting}, Counted v v₁ → Counted v (v₁.setVoter name
        { (v₁.voters.lookup name).getD voter with
          lastVoteWeight := inverseVoteWeight (stakeOf voter) voter.producers.length
          lastStake := stakeOf voter }) := by
      intro v₁ hc
      obtain ⟨hl, hs⟩ := hc.getD hv
      exact hc.trans (Counted.setVoter hl rfl)
    split_ifs at h with hproxy hstake
    · simp only [bind_ok, require_ok, pure_ok] at h
      obtain ⟨proxy, hp, v₁, h₁, rfl⟩ := h
      have hset : Counted v (v.setVoter voter.proxy { proxy with
          proxiedVoteWeight := proxy.proxiedVoteWeight + (stakeOf voter - voter.lastStake : ℤ) }) :=
        Counted.setVoter hp rfl
      exact hwrite (hset.trans (ih h₁))
    · simp only [bind_ok, pure_ok] at h
      obtain ⟨v₁, rfl, rfl⟩ := h
      exact hwrite (Counted.refl v)
    · simp only [bind_ok, pure_ok] at h
      obtain ⟨v₁, h₁, rfl⟩ := h
      refine hwrite (foldlM_counted id (fun {v v' a} hf => ?_) h₁)
      simp only [bind_ok, require_ok, pure_ok] at hf
      obtain ⟨p, hp, rfl⟩ := hf
      exact Counted.setTally hp _ _

lemma undoLastVote_counted {voterName proxy : Name} {voter : VoterInfo} {totalStaked : ℤ}
    {boost : ℕ} {v : Voting} {r : ProducerDeltas × ℕ × Voting}
    (h : undoLastVote voterName proxy voter totalStaked boost v = .ok r) : Counted v r.2.2 := by
  unfold undoLastVote at h
  split_ifs at h with hlast hproxy hsame
  · simp only [bind_ok, require_ok, pure_ok] at h
    obtain ⟨old, ho, v₁, h₁, rfl⟩ := h
    have hset : Counted v (v.setVoter voter.proxy
        { old with proxiedVoteWeight := old.proxiedVoteWeight - voter.lastStake }) :=
      Counted.setVoter ho rfl
    exact hset.trans ((Counted.setActivated _ _).trans (propagateWeightChange_counted h₁))
  · simp only [bind_ok, require_ok, pure_ok] at h
    obtain ⟨old, ho, v₁, rfl, rfl⟩ := h
    exact Counted.setVoter ho rfl
  all_goals
    rw [pure_ok] at h
    subst h
    exact Counted.refl v

omit [FloatOps] in
/-- The changes are applied and the voter's row is written last. -/
lemma castVotes_counted {voting : Bool} {voterName : Name} {voter : VoterInfo}
    {deltas : List (Name × (ℚ × Bool))} {v v₁ v₂ : Voting}
    (hv : v.voters.lookup voterName = some voter) (hc : Counted v v₁)
    (h : deltas.foldlM (applyDelta voting) v₁ = .ok v₂) (f : VoterInfo → VoterInfo)
    (hf : ∀ row, (f row).standing = row.standing) :
    Counted v (v₂.setVoter voterName (f ((v₂.voters.lookup voterName).getD voter))) := by
  have hcount : Counted v v₂ := hc.trans (foldlM_counted id applyDelta_counted h)
  obtain ⟨hl, hs⟩ := hcount.getD hv
  exact hcount.trans (Counted.setVoter hl (hf _))

theorem updateVotes_counted {now : BlockTimestamp} {voterName proxy : Name} {producers : List Name}
    {voting : Bool} {v v' : Voting}
    (h : updateVotes now voterName proxy producers voting v = .ok v') : Counted v v' := by
  by_cases hproxy : proxy = Name.empty
  · simp only [updateVotes, hproxy, ne_eq, not_true_eq_false, if_false, bind_ok,
      require_ok, check_ok,
      exists_const] at h
    obtain ⟨-, -, voter, hv, -, ⟨d, b, v₁⟩, h₁, h⟩ := h
    have hc : Counted v v₁ := (Counted.setActivated v _).trans (undoLastVote_counted h₁)
    split_ifs at h
    all_goals
      simp only [bind_ok, pure_ok, exists_eq_left'] at h
      obtain ⟨v₂, h₂, rfl⟩ := h
      exact castVotes_counted hv hc h₂ (fun row => { row with
        lastVoteWeight := _, lastStake := _, producers, proxy := _, selfStakeBoost := _ }) fun _ =>
          rfl
  · simp only [updateVotes, hproxy, ne_eq, not_false_eq_true, if_true, bind_ok,
      require_ok, check_ok,
      exists_const] at h
    obtain ⟨-, -, voter, hv, -, ⟨d, b, v₁⟩, h₁, target, ht, -, h⟩ := h
    have hc : Counted v v₁ := (Counted.setActivated v _).trans (undoLastVote_counted h₁)
    have hset : Counted v (v₁.setVoter proxy
        { target with proxiedVoteWeight := target.proxiedVoteWeight + voter.staked }) :=
      hc.trans (Counted.setVoter ht rfl)
    by_cases hweight : 0 < target.lastVoteWeight
    · rw [if_pos hweight] at h
      simp only [bind_ok, pure_ok, exists_eq_left'] at h
      obtain ⟨v₂, h₂, v₃, h₃, rfl⟩ := h
      have hp := hset.trans ((Counted.setActivated _ _).trans (propagateWeightChange_counted h₂))
      exact castVotes_counted hv hp h₃ (fun row => { row with
        lastVoteWeight := _, lastStake := _, producers, proxy := _, selfStakeBoost := _ }) fun _ =>
          rfl
    · rw [if_neg hweight] at h
      simp only [bind_ok, pure_ok, exists_eq_left'] at h
      obtain ⟨v₃, h₃, rfl⟩ := h
      exact castVotes_counted hv hset h₃ (fun row => { row with
        lastVoteWeight := _, lastStake := _, producers, proxy := _, selfStakeBoost := _ }) fun _ =>
          rfl

omit [FloatOps] in
lemma forgetVote_counted {owner : Name} {row : VoterInfo} {v : Voting}
    (hl : v.voters.lookup owner = some row) : Counted v (v.forgetVote owner row) :=
  Counted.setVoter hl rfl

lemma recalculateVoter_counted {now : BlockTimestamp} {acc acc' : List Name × Voting} {owner : Name}
    (h : recalculateVoter now acc owner = .ok acc') : Counted acc.2 acc'.2 := by
  obtain ⟨processed, v⟩ := acc
  simp only [recalculateVoter, bind_ok, require_ok] at h
  obtain ⟨voter, hv, h⟩ := h
  have hround : ∀ {processed₁ : List Name} {v₁ v₂ : Voting}, Counted v v₁ →
      updateVotes now owner ((v₁.voters.lookup owner).getD voter).proxy
        ((v₁.voters.lookup owner).getD voter).producers true
        (if ((v₁.voters.lookup owner).getD voter).isProxy = false ∨ owner ∉ processed₁ then
          (owner :: processed₁, v₁.forgetVote owner ((v₁.voters.lookup owner).getD voter))
        else (processed₁, v₁)).2 = .ok v₂ → Counted v v₂ := by
    intro processed₁ v₁ v₂ hc₁ hu
    obtain ⟨hl, -⟩ := hc₁.getD hv
    refine (hc₁.trans ?_).trans (updateVotes_counted hu)
    split_ifs
    · exact forgetVote_counted hl
    · exact Counted.refl v₁
  by_cases hproxy : voter.proxy ≠ Name.empty ∧ voter.proxy ∉ processed
  · rw [if_pos hproxy] at h
    simp only [bind_ok, require_ok, pure_ok] at h
    obtain ⟨proxy, hp, _, rfl, v₂, h₂, rfl⟩ := h
    exact hround (forgetVote_counted hp) h₂
  · rw [if_neg hproxy] at h
    simp only [bind_ok, pure_ok] at h
    obtain ⟨_, rfl, v₂, h₂, rfl⟩ := h
    exact hround (Counted.refl v) h₂

omit [FloatOps] in
lemma clearTallies_counted (v : Voting) : Counted v v.clearTallies where
  voters _ := rfl
  producers a := by
    unfold clearTallies
    rw [Table.lookup_mapRows, Option.map_map]
    rfl
  config := rfl

theorem recalculateVotes_counted {now : BlockTimestamp} {v v' : Voting}
    (h : v.recalculateVotes now = .ok v') : Counted v v' := by
  unfold recalculateVotes at h
  split_ifs at h
  · simp only [bind_ok, pure_ok] at h
    obtain ⟨⟨processed, v₁⟩, h₁, rfl⟩ := h
    exact (clearTallies_counted v).trans (foldlM_counted Prod.snd recalculateVoter_counted h₁)
  · cases h
    exact Counted.refl v

end
end Voting

/-- What a row of the producers table may be replaced by. -/
abbrev RowRule := Name → Option ProducerInfo → ProducerInfo → Prop

/-- One change of the voting tables: a vote (cast, or renewed with a stake that is not negative),
the stake of a voter, a new voter, a flag, the row of
a producer with its votes as they are, the parameters, or a recount. -/
inductive VotingStep [FloatOps] (now : BlockTimestamp) (rows : RowRule) (ballots : Prop) :
    Voting → Voting → Prop
  | votes {v v' : Voting} {voter proxy : Name} {producers : List Name} {voting : Bool}
      (h : v.updateVotes now voter proxy producers voting = .ok v')
      (ballot : voting = true → ballots)
      (own : voting = false → ∃ row, v.voters.lookup voter = some row ∧ row.proxy = proxy ∧
        row.producers = producers ∧
        0 ≤ row.staked) :
      VotingStep now rows ballots v v'
  | stake {v : Voting} {voter : Name} {row : VoterInfo} (staked : ℤ)
      (h : v.voters.lookup voter = some row) :
      VotingStep now rows ballots v (v.setVoter voter { row with staked })
  | enter {v : Voting} {voter : Name} (staked : ℤ) (h : v.voters.lookup voter = none) :
      VotingStep now rows ballots v (v.setVoter voter { staked })
  | flag {v : Voting} (account : Name) (field : UInt32) (value : Bool) :
      VotingStep now rows ballots v (v.setFlag account field value)
  | register {v : Voting} {producer : Name} {row : ProducerInfo}
      (allowed : rows producer (v.producers.lookup producer) row)
      (h : row.totalVotes = ((v.producers.lookup producer).map ProducerInfo.totalVotes).getD 0) :
      VotingStep now rows ballots v (v.setProducer producer row)
  | configure {v : Voting} {config : VotingConfig}
      (h : config.selfStakeBoostMultiplier = v.config.selfStakeBoostMultiplier ∨
        config.selfStakeBoostMultiplier ≤ 1000) : VotingStep now rows ballots v { v with config }
  | recount {v v' : Voting} (broken : v.tallyBroken) (h : v.recalculateVotes now = .ok v') :
      VotingStep now rows ballots v v'

def VotingSteps [FloatOps] (now : BlockTimestamp) (rows : RowRule) (ballots : Prop) :
    Voting → Voting → Prop :=
  Relation.ReflTransGen (VotingStep now rows ballots)

section
variable [FloatOps] {now : BlockTimestamp} {rows : RowRule} {ballots : Prop} {v v' : Voting}

lemma VotingSteps.refl (v : Voting) : VotingSteps now rows ballots v v := Relation.ReflTransGen.refl

lemma VotingStep.single (h : VotingStep now rows ballots v v') :
    VotingSteps now rows ballots v v' :=
  Relation.ReflTransGen.single h

lemma setStaked_steps (voter : Name) (delta : ℤ) : VotingSteps now rows ballots v (v.setVoter voter
    (match v.voters.lookup voter with
      | none => { staked := delta }
      | some row => { row with staked := row.staked + delta })) := by
  cases hl : v.voters.lookup voter with
  | none => exact (VotingStep.enter delta hl).single
  | some row => exact (VotingStep.stake _ hl).single

lemma updateVotingPower_steps {voter : Name} {delta : ℤ}
    (h : v.updateVotingPower now voter delta = .ok v') : VotingSteps now rows ballots v v' := by
  simp only [Voting.updateVotingPower, bind_ok, check_ok, exists_const] at h
  obtain ⟨hstake, h⟩ := h
  refine (setStaked_steps voter delta).trans ?_
  split_ifs at h
  · exact (VotingStep.votes h (fun hv => by cases hv) fun _ =>
      ⟨_, AList.lookup_insert _, rfl, rfl, hstake⟩).single
  · cases h
    exact VotingSteps.refl _

lemma recalculateVotes_steps (h : v.recalculateVotes now = .ok v') :
    VotingSteps now rows ballots v v' := by
  by_cases hb : v.tallyBroken
  · exact (VotingStep.recount hb h).single
  · rw [Voting.recalculateVotes, if_neg hb] at h
    cases h
    exact VotingSteps.refl v

def registered (location : UInt16) (old : Option ProducerInfo) : ProducerInfo :=
  { old.getD {} with isActive := true, location := location.toNat }

omit [FloatOps] in
lemma registerProducer_eq (producer : Name) (location : UInt16) (v : Voting) :
    v.registerProducer producer location =
      v.setProducer producer (registered location (v.producers.lookup producer)) := by
  unfold Voting.registerProducer registered
  cases v.producers.lookup producer <;> rfl

lemma registerProducer_step {producer : Name} {location : UInt16}
    (allowed : rows producer (v.producers.lookup producer)
      (registered location (v.producers.lookup producer))) :
    VotingStep now rows ballots v (v.registerProducer producer location) := by
  rw [registerProducer_eq]
  refine VotingStep.register allowed ?_
  cases v.producers.lookup producer <;> rfl

lemma modifyProducer_step {producer : Name} {f : ProducerInfo → ProducerInfo} {msg : String}
    (hf : ∀ p, (f p).totalVotes = p.totalVotes) (allowed : ∀ p, rows producer (some p) (f p))
    (h : v.modifyProducer producer f msg = .ok v') : VotingStep now rows ballots v v' := by
  simp only [Voting.modifyProducer, bind_ok, require_ok, pure_ok] at h
  obtain ⟨p, hp, rfl⟩ := h
  exact VotingStep.register (by rw [hp]; exact allowed p) (by rw [hf, hp]; rfl)

/-- A property of each producer's row that no count of votes touches, and that the rewritten rows
have too, survives. -/
theorem VotingStep.keepsRows {P : Name → Option ProducerInfo → Prop}
    (hcount : ∀ n p q, ProducerInfo.untallied q = ProducerInfo.untallied p →
      P n (some p) → P n (some q))
    (hrow : ∀ n old new, rows n old new → P n old → P n (some new))
    (h : VotingStep now rows ballots v v') (hp : ∀ n, P n (v.producers.lookup n)) :
    ∀ n, P n (v'.producers.lookup n) := by
  have hcounted : Voting.Counted v v' → ∀ n, P n (v'.producers.lookup n) := by
    intro hc n
    have hn := hc.producers n
    have hpn := hp n
    cases hl : v.producers.lookup n with
    | none =>
      rw [hl, Option.map_none, Option.map_eq_none_iff] at hn
      rw [hn, ← hl]
      exact hpn
    | some p =>
      rw [hl, Option.map_some] at hn
      obtain ⟨q, hq, hpq⟩ := Option.map_eq_some_iff.mp hn
      rw [hq]
      exact hcount n p q hpq (hl ▸ hpn)
  cases h with
  | votes h => exact hcounted (Voting.updateVotes_counted h)
  | stake staked h => exact hp
  | enter staked h => exact hp
  | flag account field value =>
    have hf : (v.setFlag account field value).producers = v.producers := by
      unfold Voting.setFlag
      split <;> rfl
    rw [hf]
    exact hp
  | @register producer row allowed h =>
    intro n
    unfold Voting.setProducer
    rw [Table.lookup_insert']
    split_ifs with hn
    · subst hn
      exact hrow n _ _ allowed (hp n)
    · exact hp n
  | configure h => exact hp
  | recount broken h => exact hcounted (Voting.recalculateVotes_counted h)

theorem VotingSteps.keepsRows {P : Name → Option ProducerInfo → Prop}
    (hcount : ∀ n p q, ProducerInfo.untallied q = ProducerInfo.untallied p →
      P n (some p) → P n (some q))
    (hrow : ∀ n old new, rows n old new → P n old → P n (some new))
    (h : VotingSteps now rows ballots v v') (hp : ∀ n, P n (v.producers.lookup n)) :
    ∀ n, P n (v'.producers.lookup n) := by
  induction h with
  | refl => exact hp
  | tail _ hstep ih => exact hstep.keepsRows hcount hrow ih

end
end TelosSystem
