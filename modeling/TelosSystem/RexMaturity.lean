import TelosSystem.Ascending
import TelosSystem.RexReturnPool

/-! The maturity buckets of a REX balance. Purchased REX matures four days after the end of
the day of the purchase; REX in savings is kept in a last bucket at the end of time. -/
namespace TelosSystem
open Ledger

def numOfMaturityBuckets : ℕ := 5

def getRexMaturity (now : BlockTimestamp) : ℕ :=
  now.sec - now.sec % secondsPerDay + numOfMaturityBuckets * secondsPerDay

namespace RexBalance

/-- Add to the last bucket when it has the given time, else append a bucket. -/
def addToBucket (time : ℕ) (rex : ℤ) (bs : List Bucket) : List Bucket :=
  match bs.getLast? with
  | some b =>
    if b.first = time then bs.dropLast ++ [⟨b.first, b.second + rex⟩] else bs ++ [⟨time, rex⟩]
  | none => [⟨time, rex⟩]

/-- The amount in the savings bucket, and the row without that bucket. -/
def readRexSavings (rb : RexBalance) : ℤ × RexBalance :=
  match rb.rexMaturities.getLast? with
  | some b =>
    if b.first = timeMax then (b.second, { rb with rexMaturities := rb.rexMaturities.dropLast })
    else (0, rb)
  | none => (0, rb)

def putRexSavings (rex : ℤ) (rb : RexBalance) : RexBalance :=
  if rex = 0 then rb else { rb with rexMaturities := addToBucket timeMax rex rb.rexMaturities }

def processRexMaturities (now : BlockTimestamp) (rb : RexBalance) : RexBalance :=
  let due := rb.rexMaturities.takeWhile fun b => b.first ≤ now.sec
  { rb with
    maturedRex := rb.maturedRex + (due.map Bucket.second).sum
    rexMaturities := rb.rexMaturities.dropWhile fun b => b.first ≤ now.sec }

def consolidateRexBalance (now : BlockTimestamp) (rexInSellOrder : ℤ) (rb : RexBalance) :
    RexBalance :=
  let (rexInSavings, rb) := rb.readRexSavings
  let total := rb.maturedRex - rexInSellOrder + (rb.rexMaturities.map Bucket.second).sum
  { rb with
    maturedRex := rexInSellOrder
    rexMaturities :=
      if 0 < total then [⟨getRexMaturity now, total⟩] else [] }.putRexSavings rexInSavings

def addMaturing (now : BlockTimestamp) (rex : ℤ) (rb : RexBalance) : RexBalance :=
  { rb with rexMaturities := addToBucket (getRexMaturity now) rex rb.rexMaturities }

/-- The maturity part of `add_to_rex_balance`. -/
def receive (now : BlockTimestamp) (rex : ℤ) (rb : RexBalance) : RexBalance :=
  let (rexInSavings, rb) := rb.readRexSavings
  ((rb.processRexMaturities now).addMaturing now rex).putRexSavings rexInSavings

/-- The loop of `mvtosavings` over the buckets from the back: the amount moved so far and
the buckets left, the last one first. -/
def drain (rex : ℤ) : ℤ → List Bucket → ℤ × List Bucket
  | moved, [] => (moved, [])
  | moved, b :: bs =>
    if moved < rex then
      let d := min (rex - moved) b.second
      if b.second - d = 0 then drain rex (moved + d) bs
      else (moved + d, ⟨b.first, b.second - d⟩ :: bs)
    else (moved, b :: bs)

def mvtosavingsLogic : String := "logic error in mvtosavings"
def mvtosavingsProgrammer : String := "programmer error in mvtosavings"

def moveToSavings (now : BlockTimestamp) (rex rexInSellOrder rexInSavings : ℤ) (rb : RexBalance) :
    Except String RexBalance := do
  let rb := rb.processRexMaturities now
  let (moved, rest) := drain rex 0 rb.rexMaturities.reverse
  let rb := { rb with rexMaturities := rest.reverse }
  let (moved, rb) ←
    if moved < rex then do
      let d := rex - moved
      let rb := { rb with maturedRex := rb.maturedRex - d }
      check (rexInSellOrder ≤ rb.maturedRex) mvtosavingsLogic
      pure (moved + d, rb)
    else pure (moved, rb)
  check (moved = rex) mvtosavingsProgrammer
  pure (rb.putRexSavings (rexInSavings + rex))

def moveFromSavings (now : BlockTimestamp) (rex rexInSavings : ℤ) (rb : RexBalance) : RexBalance :=
  ((rb.processRexMaturities now).addMaturing now rex).putRexSavings (rexInSavings - rex)

/-! The maturity buckets hold no vote stake, and a purchase does not change the balance. -/

@[simp] lemma readRexSavings_voteStake (rb : RexBalance) :
    rb.readRexSavings.2.voteStake = rb.voteStake := by
  unfold readRexSavings
  split
  · split_ifs <;> rfl
  · rfl

@[simp] lemma putRexSavings_voteStake (rex : ℤ) (rb : RexBalance) :
    (rb.putRexSavings rex).voteStake = rb.voteStake := by
  unfold putRexSavings
  split_ifs <;> rfl

@[simp] lemma receive_voteStake (now : BlockTimestamp) (rex : ℤ) (rb : RexBalance) :
    (rb.receive now rex).voteStake = rb.voteStake :=
  (putRexSavings_voteStake _ _).trans (readRexSavings_voteStake rb)

lemma readRexSavings_rexBalance (rb : RexBalance) :
    rb.readRexSavings.2.rexBalance = rb.rexBalance := by
  unfold readRexSavings
  split
  · split_ifs <;> rfl
  · rfl

lemma putRexSavings_rexBalance (rex : ℤ) (rb : RexBalance) :
    (rb.putRexSavings rex).rexBalance = rb.rexBalance := by
  unfold putRexSavings
  split_ifs <;> rfl

lemma receive_rexBalance (now : BlockTimestamp) (rex : ℤ) (rb : RexBalance) :
    (rb.receive now rex).rexBalance = rb.rexBalance :=
  (putRexSavings_rexBalance _ _).trans (readRexSavings_rexBalance rb)

lemma consolidateRexBalance_voteStake (now : BlockTimestamp) (rexInSellOrder : ℤ)
    (rb : RexBalance) : (rb.consolidateRexBalance now rexInSellOrder).voteStake = rb.voteStake :=
  (putRexSavings_voteStake _ _).trans (readRexSavings_voteStake rb)

lemma moveToSavings_voteStake {now : BlockTimestamp} {rex rexInSellOrder rexInSavings : ℤ}
    {rb row : RexBalance} (h : rb.moveToSavings now rex rexInSellOrder rexInSavings = .ok row) :
    row.voteStake = rb.voteStake := by
  unfold moveToSavings at h
  dsimp only at h
  split_ifs at h
  · simp only [bind_ok, check_ok, exists_const, pure_ok] at h
    obtain ⟨-, moved, hmoved, -, rfl⟩ := h
    cases hmoved
    exact putRexSavings_voteStake _ _
  · simp only [bind_ok, check_ok, exists_const, pure_ok] at h
    obtain ⟨moved, hmoved, -, rfl⟩ := h
    cases hmoved
    exact putRexSavings_voteStake _ _

lemma moveFromSavings_voteStake (now : BlockTimestamp) (rex rexInSavings : ℤ) (rb : RexBalance) :
    (rb.moveFromSavings now rex rexInSavings).voteStake = rb.voteStake :=
  putRexSavings_voteStake _ _

end RexBalance
end TelosSystem
