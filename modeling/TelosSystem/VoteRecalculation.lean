import TelosSystem.VoteTally

/-! The recount of all votes, which `onblock` starts when the total weight has become negative. -/
namespace TelosSystem
open Ledger

namespace Voting

def forgetVote (v : Voting) (owner : Name) (row : VoterInfo) : Voting :=
  v.setVoter owner { row with lastVoteWeight := 0, lastStake := 0, proxiedVoteWeight := 0 }

/-- The total of all votes has fallen below the threshold of `recalculate_votes`. -/
def tallyBroken (v : Voting) : Prop := v.totalProducerVoteWeight ≤ -1 / 10

instance (v : Voting) : Decidable v.tallyBroken := inferInstanceAs (Decidable (_ ≤ _))

section
variable [FloatOps]

/-- One round of the loop over the voters; `processed` are the voters forgotten already. -/
def recalculateVoter (now : BlockTimestamp) (acc : List Name × Voting) (owner : Name) :
    Except String (List Name × Voting) := do
  let (processed, v) := acc
  let voter ← require (v.voters.lookup owner) "voter not found"
  let (processed, v) ←
    if voter.proxy ≠ Name.empty ∧ voter.proxy ∉ processed then do
      let proxy ← require (v.voters.lookup voter.proxy) "cannot pass end iterator to modify"
      pure (voter.proxy :: processed, v.forgetVote voter.proxy proxy)
    else pure (processed, v)
  let voter := (v.voters.lookup owner).getD voter
  let (processed, v) :=
    if voter.isProxy = false ∨ owner ∉ processed then (owner :: processed, v.forgetVote owner voter)
    else (processed, v)
  let v ← v.updateVotes now owner voter.proxy voter.producers true
  pure (processed, v)

def votersByName (v : Voting) : List Name :=
  (v.voters.indexed fun a b => a.1.value ≤ b.1.value).map Prod.fst

def clearTallies (v : Voting) : Voting :=
  { v with
    totalProducerVoteWeight := 0
    totalActivatedStake := 0
    producers := v.producers.mapRows fun _ p => { p with totalVotes := 0 } }

def recalculateVotes (now : BlockTimestamp) (v : Voting) : Except String Voting :=
  if v.tallyBroken then do
    let (_, v) ← v.votersByName.foldlM (recalculateVoter now) ([], v.clearTallies)
    pure v
  else .ok v

end
end Voting
end TelosSystem
