import TelosSystem.RexActions
import TelosSystem.Rotation

/-! The pay of producers: a daily snapshot fills the per-block bucket with new or donated tokens
and turns it into payments, which the producers claim. The amounts the contract computes in
floating-point arithmetic are inputs. -/
namespace TelosSystem
open Ledger

/-- The worker share, the producer share, and the pay of the producer at each rank. -/
structure Payroll where
  toWorkers : ℕ
  toProducers : ℕ
  payAmount : ℕ → ℤ

def State.setProduction (s : State) (production : Production) : State := { s with production }

def State.inlineIssue (s : State) (quantity : Asset) (memoSize : ℕ) : Except String State := do
  let token ← s.token.issue [systemAccount] systemAccount quantity memoSize
  pure { s with token }

/-- How much of the new tokens the fund `exrsrv.tf` pays; the rest is issued. -/
def transferTokens (tedpBalance newTokens : ℤ) : ℤ :=
  if 0 < tedpBalance then (if newTokens ≤ tedpBalance then newTokens else tedpBalance) else 0

def State.transferIfPositive (s : State) (source dest : Name) (amount : ℤ) (memoSize : ℕ) :
    Except String State :=
  if 0 < amount then s.inlineTransfer source dest ⟨amount, s.core⟩ memoSize else .ok s

def State.issueIfPositive (s : State) (amount : ℤ) (memoSize : ℕ) : Except String State :=
  if 0 < amount then s.inlineIssue ⟨amount, s.core⟩ memoSize else .ok s

def fillBucket (now : BlockTimestamp) (pay : Payroll) (s : State) : Except String State := do
  let newTokens : ℤ := pay.toWorkers + pay.toProducers
  let held ← require (s.token.accounts.lookup (tedpAccount, s.core.code)) "unable to find key"
  let transferred := transferTokens held.amount newTokens
  let s ← s.transferIfPositive tedpAccount systemAccount transferred 22
  let s ← s.issueIfPositive (newTokens - transferred) 21
  let s ← s.transferIfPositive systemAccount worksAccount pay.toWorkers 54
  let s ← s.transferIfPositive systemAccount bpayAccount pay.toProducers 43
  pure (s.setProduction { s.production with
    perblockBucket := s.production.perblockBucket + pay.toProducers
    lastPervoteBucketFill := now.usec })

def payProducer (amount : ℤ) (name : Name) (p : ProducerInfo) (s : State) : State :=
  let payments := s.production.payments.insert name
    ((s.production.payments.lookup name).getD 0 + amount)
  { s with
    voting := { s.voting with producers := s.voting.producers.insert name { p with
      unpaidBlocks := 0 } }
    production := { s.production with
      perblockBucket := s.production.perblockBucket - amount
      totalUnpaidBlocks := s.production.totalUnpaidBlocks - p.unpaidBlocks
      payments } }

/-- The active producers in the order of their votes, up to 35 of them. -/
def payProducers (payAmount : ℕ → ℤ) : ℕ → List (Name × ProducerInfo) → State → State
  | _, [], s => s
  | index, (name, p) :: rest, s =>
    if p.isActive = false then payProducers payAmount index rest s
    else if maxProducers < index + 1 then s
    else payProducers payAmount (index + 1) rest (payProducer (payAmount (index + 1)) name p s)

def claimrewardsSnapshot (now : BlockTimestamp) (pay : Payroll) (s : State) :
    Except String State := do
  check (0 < s.threshActivatedStakeTime) "cannot take snapshot until chain is activated"
  if s.production.totalUnpaidBlocks ≤ 0 then pure s
  else do
    let s ← if s.production.lastPervoteBucketFill < now.usec ∧
        0 < s.production.lastPervoteBucketFill then fillBucket now pay s
      else pure s
    pure (payProducers pay.payAmount 0 (producersByVotes s.voting.producers) s)

def claimrewards (ctx : Context) (owner : Name) (s : State) : Except String State := do
  requireAuth ctx owner
  let prod ← require (s.voting.producers.lookup owner) "unable to find key"
  check prod.isActive "producer does not have an active key"
  check (0 < s.threshActivatedStakeTime)
    "cannot claim rewards until the chain is activated (1,000,000 blocks produced)"
  let pay ← require (s.production.payments.lookup owner) "No payment exists for account"
  let s ← s.inlineTransfer bpayAccount owner ⟨pay, s.core⟩ 24
  pure (s.setProduction { s.production with payments := s.production.payments.erase owner })

end TelosSystem
