import TelosSystem.Registration
import TelosSystem.Rotation

/-! Missed blocks: `onblock` counts the blocks of each producer of the schedule down from twelve,
charges what is left when a round is complete, and kicks the producers that missed too many. -/
namespace TelosSystem
open Ledger

def maxBlockPerCycle : ℕ := 12

namespace State

def setMetrics (s : State) (metrics : ScheduleMetrics) : State :=
  { s with production := { s.production with metrics } }

def setProducers (s : State) (producers : Table Name ProducerInfo) : State :=
  { s with voting := { s.voting with producers } }

/-- What `update_elected_producers` reads and writes. -/
def schedule (s : State) : Schedule where
  rotation := s.production.rotation
  producers := s.voting.producers
  lastProducerScheduleUpdate := s.production.lastProducerScheduleUpdate
  lastProposedScheduleUpdate := s.production.lastProposedScheduleUpdate
  lastProducerScheduleSize := s.production.lastProducerScheduleSize
  producersMetric := s.production.metrics.producersMetric

def setSchedule (s : State) (sc : Schedule) : State :=
  { s with
    voting := { s.voting with producers := sc.producers }
    production := { s.production with
      rotation := sc.rotation
      lastProducerScheduleUpdate := sc.lastProducerScheduleUpdate
      lastProposedScheduleUpdate := sc.lastProposedScheduleUpdate
      lastProducerScheduleSize := sc.lastProducerScheduleSize
      metrics := { s.production.metrics with producersMetric := sc.producersMetric } } }

def recordProposal (s : State) (time : BlockTimestamp) (top : List Name) : State :=
  { s with production := { s.production with proposed := s.production.proposed ++ [(time, top)] } }

end State

/-- `update_elected_producers` with the chain's own check of a proposed schedule. -/
def electProducers (now blockTime : BlockTimestamp) (accepted : List ProducerLocationPair → Bool)
    (s : State) : Except String State := do
  let (proposed, sc) := updateElectedProducers blockTime accepted s.schedule
  match proposed with
  | none => pure (s.setSchedule sc)
  | some top =>
    let names := top.map (·.producerName)
    check names.Nodup "duplicate producer name in producer schedule"
    pure ((s.setSchedule sc).recordProposal now names)

namespace ScheduleMetrics

def resetScheduleMetrics (producer : Name) (m : ScheduleMetrics) : ScheduleMetrics :=
  let full (name : Name) :=
    if producer ≠ Name.empty ∧ name = producer then maxBlockPerCycle - 1 else maxBlockPerCycle
  { m with producersMetric := m.producersMetric.map fun pm => (pm.1, full pm.1) }

def modifyFirst (p : Name × ℕ → Prop) [DecidablePred p] (f : ℕ → ℕ) :
    List (Name × ℕ) → List (Name × ℕ)
  | [] => []
  | pm :: rest => if p pm then (pm.1, f pm.2) :: rest else pm :: modifyFirst p f rest

def updateProducerMissedBlocks (producer : Name) (m : ScheduleMetrics) : ScheduleMetrics :=
  { m with
    producersMetric := modifyFirst (fun pm => pm.1 = producer ∧ 0 < pm.2) (fun missed => missed - 1)
      m.producersMetric }

def sortedNames (names : List Name) : List Name := names.insertionSort fun a b => a.value ≤ b.value

/-- The comparison walks over the active schedule. -/
def isNewScheduleActivated (activeSchedule : List Name) (m : ScheduleMetrics) : Bool :=
  (sortedNames activeSchedule).isPrefixOf (sortedNames (m.producersMetric.map Prod.fst))

/-- The first metric of a producer shows that it has produced in this round. -/
def startsNextRound (producer : Name) (m : ScheduleMetrics) : Bool :=
  match m.producersMetric.find? fun pm => pm.1 = producer with
  | some pm => pm.2 ≠ maxBlockPerCycle
  | none => false

/-- After blocks of others the counts are corrected: by a 32-bit subtraction when `eosio` has
produced last, else by starting over three turns later. -/
def correct (producer : Name) (m : ScheduleMetrics) : ScheduleMetrics :=
  if 0 < m.blockCounterCorrection then
    let m :=
      if m.lastOnblockCaller = systemAccount then
        let correction := (m.blockCounterCorrection % 2 ^ 32).toNat
        { m with
          producersMetric := modifyFirst (fun pm => pm.1 = producer)
            (fun missed => subSec missed correction) m.producersMetric }
      else { m.resetScheduleMetrics Name.empty with blockCounterCorrection := -3 }
    { m with lastOnblockCaller := producer }
  else m

/-- While the counter is negative the turns are counted off. -/
def countTurn (producer : Name) (m : ScheduleMetrics) : ScheduleMetrics :=
  if m.blockCounterCorrection < 0 then
    { m with
      blockCounterCorrection := if m.lastOnblockCaller ≠ producer then m.blockCounterCorrection + 1
        else m.blockCounterCorrection
      lastOnblockCaller := producer }
  else m

end ScheduleMetrics

/-- The block of a producer while the proposed schedule is not active. -/
def ScheduleMetrics.await (producer : Name) (m : ScheduleMetrics) : ScheduleMetrics :=
  { m with
    blockCounterCorrection :=
      if m.lastOnblockCaller ≠ producer then 1 else m.blockCounterCorrection + 1
    lastOnblockCaller := producer }

def isInactive (producers : Table Name ProducerInfo) (producer : Name) : Bool :=
  match producers.lookup producer with
  | some p => !p.isActive
  | none => false

/-- What the block changes, and whether it starts a new round. -/
def checkMissedBlocks (now timestamp : BlockTimestamp) (producer : Name) (active : List Name)
    (accepted : List ProducerLocationPair → Bool) (s : State) : Except String (Bool × State) :=
  let m := s.production.metrics
  if producer = systemAccount then
    .ok (false, s.setMetrics
      { m with blockCounterCorrection := m.blockCounterCorrection + 1, lastOnblockCaller := producer })
  else if ¬ (s.production.lastProducerScheduleSize = active.length ∧
    m.isNewScheduleActivated active) then
    .ok (false, s.setMetrics (m.await producer))
  else
    let m := (m.correct producer).countTurn producer
    if m.blockCounterCorrection < 0 then .ok (false, s.setMetrics m)
    else if isInactive s.voting.producers producer then do
      let s ← electProducers now timestamp accepted
        (s.setMetrics (m.resetScheduleMetrics Name.empty))
      pure (false, s)
    else if m.lastOnblockCaller ≠ producer ∧ m.startsNextRound producer then
      .ok (true, s.setMetrics { m with lastOnblockCaller := producer })
    else
      .ok (false, s.setMetrics
        { m.updateProducerMissedBlocks producer with lastOnblockCaller := producer })

/-- The threshold is 15% of the blocks one producer can make between two rotations. -/
def crossedMissedBlocksThreshold (g : RotationState) (amountBlocksMissed scheduleSize : ℕ) : Bool :=
  if scheduleSize ≤ 1 then false
  else
    let timeframe : ℤ := ((g.nextRotationTime.usec : ℤ) - g.lastRotationTime.usec).tdiv 1000000
    let maxBlocksPerCycle : ℤ := (scheduleSize - 1 : ℕ) * maxBlockPerCycle
    let totalBlocksPerTimeframe := (maxBlocksPerCycle * timeframe).tdiv (maxBlocksPerCycle / 2)
    let maxBlocksPerProducer := (totalBlocksPerTimeframe * maxBlockPerCycle).tdiv maxBlocksPerCycle
    decide ((maxBlocksPerProducer : ℚ) * (15 / 100) < amountBlocksMissed)

/-- Charge one metric; a producer that has missed blocks in this rotation is remembered. -/
def chargeMetric (acc : Table Name ProducerInfo × List (Name × ProducerInfo)) (pm : Name × ℕ) :
    Table Name ProducerInfo × List (Name × ProducerInfo) :=
  match acc.1.lookup pm.1 with
  | none => acc
  | some p =>
    if p.isActive then
      let p := { p with missedBlocksPerRotation := p.missedBlocksPerRotation + UInt32.ofNat pm.2 }
      (if 0 < pm.2 then acc.1.insert pm.1 p else acc.1,
        if 0 < p.missedBlocksPerRotation then acc.2 ++ [(pm.1, p)] else acc.2)
    else acc

/-- Most missed blocks first, then fewest votes. -/
def worseProducer (a b : Name × ProducerInfo) : Prop :=
  b.2.missedBlocksPerRotation < a.2.missedBlocksPerRotation ∨
    (b.2.missedBlocksPerRotation = a.2.missedBlocksPerRotation ∧ a.2.totalVotes ≤ b.2.totalVotes)

instance : DecidableRel worseProducer := fun _ _ => inferInstanceAs (Decidable (_ ∨ _))

def thresholdKick (now : BlockTimestamp) (p : ProducerInfo) : ProducerInfo :=
  { p with lifetimeMissedBlocks := p.lifetimeMissedBlocks + p.missedBlocksPerRotation }.kick now
    .reachedThreshold 0

/-- Kick producers in their order, up to a maximum, until one has not crossed the threshold. -/
def kickProducers (now : BlockTimestamp) (g : RotationState) (scheduleSize : ℕ) :
    ℕ → List (Name × ProducerInfo) → Table Name ProducerInfo → Table Name ProducerInfo
  | _, [], t => t
  | maxKickBps, (name, _) :: rest, t =>
    match t.lookup name with
    | none => t
    | some p =>
      if crossedMissedBlocksThreshold g p.missedBlocksPerRotation.toNat scheduleSize ∧
        0 < maxKickBps then
        kickProducers now g scheduleSize (maxKickBps - 1) rest (t.insert name (thresholdKick now p))
      else t

/-- A seventh of the schedule, as a 16-bit number. -/
def maxKickBps (activeScheduleSize : ℕ) : ℕ := activeScheduleSize / 7 % 2 ^ 16

def updateMissedBlocksPerRotation (now : BlockTimestamp) (s : State) : State :=
  let metrics := s.production.metrics.producersMetric
  let (producers, prods) := metrics.foldl chargeMetric (s.voting.producers, [])
  s.setProducers (kickProducers now s.production.rotation metrics.length (maxKickBps metrics.length)
    (prods.insertionSort worseProducer) producers)

/-- The part of `onblock` that counts missed blocks. -/
def countMissedBlocks (now timestamp : BlockTimestamp) (producer : Name) (active : List Name)
    (accepted : List ProducerLocationPair → Bool) (s : State) : Except String State := do
  let (completed, s) ← checkMissedBlocks now timestamp producer active accepted s
  if completed then
    let s := updateMissedBlocksPerRotation now s
    pure (s.setMetrics (s.production.metrics.resetScheduleMetrics producer))
  else pure s

end TelosSystem
