import TelosSystem.EvmEncoding
import TelosSystem.VoteTally

/-! The registration of producers and the parameters of the vote. Of a producer's row only
what elections and tallies read is kept. -/
namespace TelosSystem
open Ledger

def ProducerInfo.deactivate (p : ProducerInfo) : ProducerInfo := { p with isActive := false }

/-- The value of `uint32_t(std::pow(2, times_kicked))`, zero where it does not fit. -/
def kickPenalty (timesKicked : ℕ) : ℕ := if timesKicked < 32 then 2 ^ timesKicked else 0

def ProducerInfo.kick (now : BlockTimestamp) (kt : KickType) (penalty : ℕ) (p : ProducerInfo) :
    ProducerInfo :=
  let timesKicked := p.timesKicked + 1
  let kickPenaltyHours := if penalty = 0 then kickPenalty timesKicked else p.kickPenaltyHours
  { p with
    timesKicked
    lastTimeKicked := now
    kickReason := some kt
    kickPenaltyHours := match kt with
      | .reachedThreshold => kickPenaltyHours
      | .bpsVoting => penalty
    lifetimeMissedBlocks := p.lifetimeMissedBlocks + p.missedBlocksPerRotation
    missedBlocksPerRotation := 0 }.deactivate

namespace Voting

def setProducer (v : Voting) (producer : Name) (row : ProducerInfo) : Voting :=
  { v with producers := v.producers.insert producer row }

def registerProducer (producer : Name) (location : UInt16) (v : Voting) : Voting :=
  match v.producers.lookup producer with
  | some p => v.setProducer producer { p with isActive := true, location := location.toNat }
  | none => v.setProducer producer { totalVotes := 0, isActive := true, location := location.toNat }

def modifyProducer (producer : Name) (f : ProducerInfo → ProducerInfo) (msg : String) (v : Voting) :
    Except String Voting := do
  let p ← require (v.producers.lookup producer) msg
  pure (v.setProducer producer (f p))

end Voting

/-- `regproducer`; `regproducer2` differs in that it also checks the signing authority. -/
def regproducer (ctx : Context) (producer : Name) (urlSize : ℕ) (location : UInt16) (s : State) :
    Except String State := do
  requireAuth ctx producer
  check (urlSize < 512) "url too long"
  pure { s with voting := s.voting.registerProducer producer location }

def unregprod (ctx : Context) (producer : Name) (s : State) : Except String State := do
  requireAuth ctx producer
  let voting ← s.voting.modifyProducer producer ProducerInfo.deactivate "producer not found"
  pure { s with voting }

def unregreason (ctx : Context) (producer : Name) (reasonSize : ℕ) (s : State) :
    Except String State := do
  check (reasonSize < 255) "The reason is too long. Reason should not have more than 255 characters."
  requireAuth ctx producer
  let voting ← s.voting.modifyProducer producer ProducerInfo.deactivate "producer not found"
  pure { s with voting }

def rmvproducer (ctx : Context) (producer : Name) (s : State) : Except String State := do
  requireAuth ctx systemAccount
  let voting ← s.voting.modifyProducer producer ProducerInfo.deactivate "producer not found"
  pure { s with voting }

def votebpout (ctx : Context) (bp : Name) (penaltyHours : UInt32) (s : State) :
    Except String State := do
  requireAuth ctx systemAccount
  check (penaltyHours ≠ 0) "The penalty should be greater than zero."
  let voting ← s.voting.modifyProducer bp (ProducerInfo.kick ctx.now .bpsVoting penaltyHours.toNat)
    "Producer account was not found"
  pure { s with voting }

def State.setVotingConfig (s : State) (config : VotingConfig) : State :=
  { s with voting := { s.voting with config } }

def setvotecontr (ctx : Context) (contract : Checksum160) (s : State) : Except String State := do
  requireAuth ctx systemAccount
  pure (s.setVotingConfig { s.voting.config with evmVotingContract := contract })

/-- Returns what is sent to the EVM; `nonce` is that of the row of `eosio` in its accounts. -/
def setvotedecay (ctx : Context) (decayStartEpoch decayIncreaseYearly : UInt64)
    (nonce : Option UInt64) (s : State) : Except String (List UInt8 × State) := do
  requireAuth ctx systemAccount
  check (s.voting.config.evmVotingContract ≠ noContract) "EVM voting contract not set"
  check (decayIncreaseYearly ≤ 100) "decay_increase_yearly must be <= 100 (100%)"
  check (decayIncreaseYearly ≤ 0xffffffffffffffff / scaleFactor)
    "decay_increase_yearly too large, would cause overflow"
  let nonce ← require nonce "eosio EVM address not found"
  pure (rawTransaction nonce s.voting.config.evmVotingContract
    (setDecayData decayStartEpoch decayIncreaseYearly),
    s.setVotingConfig { s.voting.config with
      decayStartEpoch := decayStartEpoch.toNat, decayIncreaseYearly := decayIncreaseYearly.toNat })

def setselfstake (ctx : Context) (selfStakeBoostMultiplier : UInt64) (s : State) :
    Except String State := do
  requireAuth ctx systemAccount
  check (selfStakeBoostMultiplier ≤ 1000) "self_stake_boost_multiplier must be <= 1000"
  pure (s.setVotingConfig { s.voting.config with
    selfStakeBoostMultiplier := selfStakeBoostMultiplier.toNat })

end TelosSystem
