import TelosSystem.State

/-! Voting power and vote tallies, with doubles taken as exact rationals. -/
namespace TelosSystem
open Ledger

/-- Conversion of a double to `int64_t`. -/
def truncate (q : ℚ) : ℤ := q.num.tdiv q.den

def namesSorted : List Name → Bool
  | a :: b :: rest => decide (a.value < b.value) && namesSorted (b :: rest)
  | _ => true

private lemma namesSorted_cons {a : Name} {l : List Name} (h : namesSorted (a :: l)) :
    (∀ b ∈ l, a.value < b.value) ∧ namesSorted l := by
  induction l generalizing a with
  | nil => simp [namesSorted]
  | cons b l ih =>
    simp only [namesSorted, Bool.and_eq_true, decide_eq_true_eq] at h
    obtain ⟨hab, hl⟩ := h
    refine ⟨fun c hc => ?_, hl⟩
    rcases List.mem_cons.mp hc with rfl | hc
    · exact hab
    · exact UInt64.lt_trans hab ((ih hl).1 c hc)

/-- A sorted list names nobody twice. -/
lemma namesSorted_nodup {l : List Name} (h : namesSorted l) : l.Nodup := by
  induction l with
  | nil => exact List.nodup_nil
  | cons a l ih =>
    obtain ⟨hlt, hl⟩ := namesSorted_cons h
    refine List.nodup_cons.mpr ⟨fun ha => ?_, ih hl⟩
    exact absurd (hlt a ha) (UInt64.lt_irrefl _)

/-- One half-open list of vote changes, keyed by producer: the weight and whether the
producer is in the new list. -/
abbrev ProducerDeltas := Table Name (ℚ × Bool)

def bump (d : ProducerDeltas) (p : Name) (weight : ℚ) (fromNew : Bool) : ProducerDeltas :=
  d.insert p (((d.lookup p).getD (0, false)).1 + weight, fromNew)

namespace Voting

def setVoter (v : Voting) (owner : Name) (row : VoterInfo) : Voting :=
  { v with voters := v.voters.insert owner row }

section
variable [FloatOps]

def inverseVoteWeight (staked : ℤ) (votedProducers : ℕ) : ℚ :=
  if votedProducers = 0 then 0 else FloatOps.voteWeight votedProducers * staked

def decayVoteWeightMultiplier (config : VotingConfig) (now : BlockTimestamp) (weight : ℚ) : ℚ :=
  if config.decayStartEpoch = 0 ∨ now.sec ≤ config.decayStartEpoch then weight
  else
    let yearlyRateScaled := config.decayIncreaseYearly * 10 ^ 18 / 100
    let increment := yearlyRateScaled * (now.sec - config.decayStartEpoch) / 31536000
    weight * (((10 ^ 18 + increment : ℕ) : ℚ) / 10 ^ 18)

/-- The stake a voter row carries, with what is proxied to it. -/
def stakeOf (row : VoterInfo) : ℤ :=
  if row.isProxy then truncate (row.staked + row.proxiedVoteWeight) else row.staked

/-- The recursion follows a chain of proxies, which has no more links than there are voters. -/
def propagateWeightChange : ℕ → Name → Voting → Except String Voting
  | 0, _, _ => .error "proxy chain does not end"
  | fuel + 1, name, v => do
    let voter ← require (v.voters.lookup name) "proxy not found"
    check (voter.proxy = Name.empty ∨ voter.isProxy = false)
      "account registered as a proxy is not allowed to use a proxy"
    let totalStake := stakeOf voter
    let newWeight := inverseVoteWeight totalStake voter.producers.length
    let delta := newWeight - voter.lastVoteWeight
    let v ←
      if voter.proxy ≠ Name.empty then
        if voter.lastStake ≠ totalStake then do
          let proxy ← require (v.voters.lookup voter.proxy) "proxy not found"
          let weight := proxy.proxiedVoteWeight + (totalStake - voter.lastStake : ℤ)
          propagateWeightChange fuel voter.proxy
            (v.setVoter voter.proxy { proxy with proxiedVoteWeight := weight })
        else pure v
      else voter.producers.foldlM (fun v acnt => do
        let p ← require (v.producers.lookup acnt) "producer not found"
        let producers := v.producers.insert acnt { p with totalVotes := p.totalVotes + delta }
        pure { v with producers, totalProducerVoteWeight := v.totalProducerVoteWeight + delta }) v
    let row := (v.voters.lookup name).getD voter
    pure (v.setVoter name { row with lastVoteWeight := newWeight, lastStake := totalStake })

def applyDelta (voting : Bool) (v : Voting) (entry : Name × (ℚ × Bool)) : Except String Voting :=
  match v.producers.lookup entry.1 with
  | some p => do
    check (¬ (voting ∧ p.isActive = false ∧ entry.2.2)) "producer is not currently registered"
    let votes := p.totalVotes + entry.2.1
    let row := { p with totalVotes := if votes < 0 then 0 else votes }
    let totalProducerVoteWeight := v.totalProducerVoteWeight + entry.2.1
    pure { v with producers := v.producers.insert entry.1 row, totalProducerVoteWeight }
  | none => do
    check (entry.2.2 = false) "producer is not registered"
    pure v

/-- Undo what the voter's last vote added: at its proxy, or as negative changes at its
producers. Returns the changes and the boost left to store. -/
def undoLastVote (voterName proxy : Name) (voter : VoterInfo) (totalStaked : ℤ) (boost : ℕ)
    (v : Voting) : Except String (ProducerDeltas × ℕ × Voting) :=
  if 0 < voter.lastStake then
    if voter.proxy ≠ Name.empty then do
      let old ← require (v.voters.lookup voter.proxy) "old proxy not found"
      let v := v.setVoter voter.proxy
        { old with proxiedVoteWeight := old.proxiedVoteWeight - voter.lastStake }
      let v ←
        if proxy ≠ voter.proxy then
          propagateWeightChange (v.voters.entries.length + 1) voter.proxy
            { v with totalActivatedStake := v.totalActivatedStake + (totalStaked - voter.lastStake) }
        else pure v
      pure (∅, boost, v)
    else
      let own := (boost : ℚ) / 100 * voter.lastVoteWeight
      let deltas := voter.producers.foldl (fun d p =>
        bump d p
          (if p = voterName then -voter.lastVoteWeight - own else -voter.lastVoteWeight) false) ∅
      pure (deltas, if voterName ∈ voter.producers then 0 else boost, v)
  else pure (∅, boost, v)

def updateVotes (now : BlockTimestamp) (voterName proxy : Name) (producers : List Name)
    (voting : Bool) (v : Voting) : Except String Voting := do
  if proxy ≠ Name.empty then
    check (producers = []) "cannot vote for producers and proxy at same time"
    check (voterName ≠ proxy) "cannot proxy to self"
  else
    check (producers.length ≤ 30) "attempt to vote for too many producers"
    check (namesSorted producers) "producer votes must be unique and sorted"
  let voter ← require (v.voters.lookup voterName) "user must stake before they can vote"
  check (proxy = Name.empty ∨ voter.isProxy = false)
    "account registered as a proxy is not allowed to use a proxy"
  let totalStaked :=
    if voting ∧ proxy = Name.empty ∧ producers = [] then 0 else stakeOf voter
  let activated :=
    if proxy = Name.empty ∧ voter.proxy = Name.empty then totalStaked - voter.lastStake else 0
  let v := { v with totalActivatedStake := v.totalActivatedStake + activated }
  let newVoteWeight :=
    decayVoteWeightMultiplier v.config now (inverseVoteWeight totalStaked producers.length)
  let boost := voter.selfStakeBoost.getD 0 % 2 ^ 32
  let (deltas, boost, v) ← undoLastVote voterName proxy voter totalStaked boost v
  let (deltas, boost, v) ←
    if proxy ≠ Name.empty then do
      let target ← require (v.voters.lookup proxy) "invalid proxy specified"
      check (voting = false ∨ target.isProxy) "proxy not found"
      let v := v.setVoter proxy
        { target with proxiedVoteWeight := target.proxiedVoteWeight + voter.staked }
      let v ←
        if 0 < target.lastVoteWeight then
          propagateWeightChange (v.voters.entries.length + 1) proxy
            { v with totalActivatedStake := v.totalActivatedStake + (totalStaked - voter.lastStake) }
        else pure v
      pure (deltas, boost, v)
    else if 0 ≤ newVoteWeight then
      let multiplier := v.config.selfStakeBoostMultiplier
      let own := (multiplier : ℚ) / 100 * newVoteWeight
      let deltas := producers.foldl (fun d p =>
        bump d p (if p = voterName then newVoteWeight + own else newVoteWeight) true) deltas
      pure (deltas, if voterName ∈ producers then multiplier else boost, v)
    else pure (deltas, boost, v)
  let v ← (deltas.indexed fun a b => a.1.value ≤ b.1.value).foldlM (applyDelta voting) v
  let row := (v.voters.lookup voterName).getD voter
  let selfStakeBoost := some boost
  let lastStake := totalStaked
  pure (v.setVoter voterName
    { row with lastVoteWeight := newVoteWeight, lastStake, producers, proxy, selfStakeBoost })

def updateVotingPower (now : BlockTimestamp) (voter : Name) (totalUpdate : ℤ) (v : Voting) :
    Except String Voting := do
  let row := match v.voters.lookup voter with
    | none => { staked := totalUpdate }
    | some row => { row with staked := row.staked + totalUpdate }
  let v := v.setVoter voter row
  check (0 ≤ row.staked) "stake for voting cannot be negative"
  if row.producers ≠ [] ∨ row.proxy ≠ Name.empty then
    updateVotes now voter row.proxy row.producers false v
  else pure v

end
end Voting

/-- The resources of an account that privileged actions manage, by bit of `flags1`. -/
def hasField (flags field : UInt32) : Bool := flags &&& field != 0

def managed (v : Voting) (account : Name) (field : UInt32) : Bool :=
  match v.voters.lookup account with
  | none => false
  | some row => hasField row.flags1 field

def ramManaged : UInt32 := 1
def netManaged : UInt32 := 2
def cpuManaged : UInt32 := 4

end TelosSystem
