import TelosSystem.State

/-! The producer schedule: the elected producers by votes, with one standby producer rotated
in for twelve hours in the place of a top producer. -/
namespace TelosSystem
open Ledger

def topProducers : ℕ := 21
def maxProducers : ℕ := 35
def twelveHourSlots : ℕ := 86400

/-- `producer_location_pair`, without the signing authority, which is passed on unread. -/
structure ProducerLocationPair where
  producerName : Name
  location : ℕ
  deriving DecidableEq, Repr

namespace RotationState

def setBpsRotation (g : RotationState) (bpOut sbpIn : Name) : RotationState :=
  { g with bpCurrentlyOut := bpOut, sbpCurrentlyIn := sbpIn }

def updateRotationTime (g : RotationState) (blockTime : BlockTimestamp) : RotationState :=
  { g with
    lastRotationTime := blockTime
    nextRotationTime := ⟨(blockTime.slot + twelveHourSlots) % 2 ^ 32, Nat.mod_lt _ (by decide)⟩ }

end RotationState

def restartMissedBlocks (p : ProducerInfo) : ProducerInfo :=
  { p with
    timesKicked :=
      if 0 < p.timesKicked ∧ p.missedBlocksPerRotation = 0 then p.timesKicked - 1 else p.timesKicked
    lifetimeMissedBlocks := p.lifetimeMissedBlocks + p.missedBlocksPerRotation
    missedBlocksPerRotation := 0 }

def restartMissedBlocksPerRotation (prods : List ProducerLocationPair)
    (t : Table Name ProducerInfo) : Table Name ProducerInfo :=
  prods.foldl (fun t pair =>
    match t.lookup pair.producerName with
    | some p => t.insert pair.producerName (restartMissedBlocks p)
    | none => t) t

def isInRange (index lowBound upBound : ℕ) : Bool := decide (lowBound ≤ index ∧ index < upBound)

def nameAt (prods : List ProducerLocationPair) (i : ℕ) : Name :=
  (prods[i]?.map (·.producerName)).getD Name.empty

/-- The next pair of positions to swap, chosen where there are standby producers. -/
def chooseRotation (prods : List ProducerLocationPair) (g : RotationState) :
    Option ℕ × Option ℕ × RotationState :=
  if topProducers < prods.length then
    let bpOutIndex := if topProducers - 1 ≤ g.bpOutIndex then 0 else g.bpOutIndex + 1
    let sbpInIndex := if prods.length - 1 ≤ g.sbpInIndex then topProducers else g.sbpInIndex + 1
    let g := { g with bpOutIndex, sbpInIndex }
    (some bpOutIndex, some sbpInIndex,
      g.setBpsRotation (nameAt prods bpOutIndex) (nameAt prods sbpInIndex))
  else (none, none, g)

def positionOf (prods : List ProducerLocationPair) (name : Name) : Option ℕ :=
  prods.findIdx? fun p => p.producerName = name

/-- The positions of the pair that is swapped already, or `none` (the end of the list). The
ranges are only looked at where there are standby producers. -/
def keepRotation (prods : List ProducerLocationPair) (g : RotationState) :
    Option ℕ × Option ℕ × RotationState :=
  if g.bpCurrentlyOut ≠ Name.empty ∧ g.sbpCurrentlyIn ≠ Name.empty then
    match positionOf prods g.bpCurrentlyOut, positionOf prods g.sbpCurrentlyIn with
    | some bp, some sbp =>
      if topProducers < prods.length ∧
          (isInRange bp 0 topProducers = false ∨
          isInRange sbp topProducers maxProducers = false) then
        (none, none, g.setBpsRotation Name.empty Name.empty)
      else (some bp, some sbp, g)
    | bp, sbp =>
      let g := g.setBpsRotation Name.empty Name.empty
      (bp, sbp, if prods.length < topProducers then
        { g with bpOutIndex := topProducers, sbpInIndex := maxProducers + 1 } else g)
  else (none, none, g)

def swapped (prods : List ProducerLocationPair) (bp sbp : Option ℕ) : List ProducerLocationPair :=
  match bp.bind (prods[·]?), sbp.bind (prods[·]?) with
  | some out, some sub =>
    (prods.take topProducers).map fun p => if p.producerName = out.producerName then sub else p
  | _, _ => prods.take topProducers

def rotationPositions (prods : List ProducerLocationPair) (blockTime : BlockTimestamp)
    (g : RotationState) : Option ℕ × Option ℕ × RotationState :=
  if g.nextRotationTime ≤ blockTime then
    let (bp, sbp, g) := chooseRotation prods g
    (bp, sbp, g.updateRotationTime blockTime)
  else keepRotation prods g

/-- Returns the producers of the schedule. -/
def checkRotationState (prods : List ProducerLocationPair) (blockTime : BlockTimestamp)
    (g : RotationState) (t : Table Name ProducerInfo) :
    List ProducerLocationPair × RotationState × Table Name ProducerInfo :=
  let (bp, sbp, g') := rotationPositions prods blockTime g
  let t := if g.nextRotationTime ≤ blockTime then restartMissedBlocksPerRotation prods t else t
  (swapped prods bp sbp, g', t)

/-- The rows the schedule is made from: rotation, the producers table, and what is known of the
last schedule. -/
structure Schedule where
  rotation : RotationState
  producers : Table Name ProducerInfo
  lastProducerScheduleUpdate : BlockTimestamp
  lastProposedScheduleUpdate : BlockTimestamp
  lastProducerScheduleSize : ℕ
  producersMetric : List (Name × ℕ)

def byVotes (p : ProducerInfo) : ℚ := if p.isActive then -p.totalVotes else p.totalVotes

/-- The index `prototalvote`. -/
def producersByVotes (t : Table Name ProducerInfo) : List (Name × ProducerInfo) :=
  t.indexed fun a b => byVotes a.2 < byVotes b.2 ∨
    (byVotes a.2 = byVotes b.2 ∧ a.1.value ≤ b.1.value)

def electedProducers (t : Table Name ProducerInfo) : List ProducerLocationPair :=
  (((producersByVotes t).takeWhile fun e => 0 < e.2.totalVotes ∧ e.2.isActive).take
    (min t.entries.length maxProducers)).map fun e => ⟨e.1, e.2.location⟩

/-- Returns the schedule given to the chain, if any; `accepted` is its answer. -/
def updateElectedProducers (blockTime : BlockTimestamp)
    (accepted : List ProducerLocationPair → Bool) (sc : Schedule) :
    Option (List ProducerLocationPair) × Schedule :=
  let sc := { sc with lastProducerScheduleUpdate := blockTime }
  let prods := electedProducers sc.producers
  if prods.length = 0 ∨ prods.length < sc.lastProducerScheduleSize then (none, sc)
  else
    let (top, rotation, producers) := checkRotationState prods blockTime sc.rotation sc.producers
    let sc := { sc with rotation, producers }
    let top := top.insertionSort fun a b => a.location ≤ b.location
    if accepted top then
      (some top, { sc with
        lastProposedScheduleUpdate := blockTime
        producersMetric := top.map fun p => (p.producerName, 12)
        lastProducerScheduleSize := top.length })
    else (some top, sc)

end TelosSystem
