import TelosSystem.State

/-! The REX return pool: fees are collected in 12-hour buckets and paid into the REX pool
in 10-minute intervals over 30 days. -/
namespace TelosSystem
open Ledger

def totalIntervals : ℕ := 30 * 144
def distInterval : ℕ := 10 * 60
def hoursPerBucket : ℕ := 12

/-- The 30 days over which one bucket is paid out. -/
def distSpan : ℕ := totalIntervals * distInterval

def getElapsedIntervals (t1 t0 : ℕ) : ℕ := subSec t1 t0 / distInterval

structure Distribution where
  changeEstimate : ℤ
  ret : RexReturnPool
  buckets : List Bucket

/-- Insertion at the lower bound of `time`; an equal time is overwritten. -/
def insertBucket (time : ℕ) (rate : ℤ) : List Bucket → List Bucket
  | [] => [⟨time, rate⟩]
  | b :: bs =>
    if b.first < time then b :: insertBucket time rate bs
    else if b.first = time then ⟨b.first, rate⟩ :: bs
    else ⟨time, rate⟩ :: b :: bs

/-- Turn the pending bucket into a return bucket once its time has come, and take the
estimate out of the proceeds. -/
def foldPending (effectiveTime : ℕ) (d : Distribution) : Distribution :=
  let rp := d.ret
  if rp.pendingBucketTime ≤ effectiveTime then
    let remainder := rp.pendingBucketProceeds.tmod totalIntervals
    let newBucketRate := (rp.pendingBucketProceeds - remainder).tdiv totalIntervals
    let newBucketTime := rp.pendingBucketTime
    let changeEstimate := d.changeEstimate +
      (remainder + newBucketRate * getElapsedIntervals effectiveTime newBucketTime)
    let ret :=
      { lastDistTime := effectiveTime
        pendingBucketTime := timeMax
        oldestBucketTime :=
          if newBucketTime < rp.oldestBucketTime then newBucketTime else rp.oldestBucketTime
        pendingBucketProceeds := 0
        currentRateOfIncrease := rp.currentRateOfIncrease + newBucketRate
        proceeds := rp.proceeds - changeEstimate }
    ⟨changeEstimate, ret, insertBucket newBucketTime newBucketRate d.buckets⟩
  else
    { d with ret := { rp with
        proceeds := rp.proceeds - d.changeEstimate
        lastDistTime := effectiveTime } }

/-- Drop the buckets that have been paid for 30 days and give back what was estimated for
them beyond that. -/
def expireBuckets (effectiveTime : ℕ) (d : Distribution) : Distribution :=
  let timeThreshold := subSec effectiveTime distSpan
  if d.ret.oldestBucketTime ≤ timeThreshold then
    let expired := d.buckets.takeWhile fun b => b.first ≤ timeThreshold
    let rest := d.buckets.dropWhile fun b => b.first ≤ timeThreshold
    let expiredRate := (expired.map Bucket.second).sum
    let surplus : ℤ := (expired.map fun b =>
      b.second * (getElapsedIntervals effectiveTime (addSec b.first distSpan) : ℤ)).sum
    let ret := { d.ret with
      oldestBucketTime := (rest.head?.map Bucket.first).getD 0
      currentRateOfIncrease := if 0 < expiredRate then d.ret.currentRateOfIncrease - expiredRate
        else d.ret.currentRateOfIncrease
      proceeds := if 0 < surplus then d.ret.proceeds + surplus else d.ret.proceeds }
    ⟨if 0 < surplus then d.changeEstimate - surplus else d.changeEstimate, ret, rest⟩
  else d

/-- The condition of the final clamp of `update_rex_pool`. -/
def Distribution.Overdrawn (d : Distribution) : Prop := 0 < d.changeEstimate ∧ d.ret.proceeds < 0

instance (d : Distribution) :
    Decidable d.Overdrawn := by unfold Distribution.Overdrawn; infer_instance

def clampProceeds (d : Distribution) : Distribution :=
  if d.Overdrawn then
    { d with changeEstimate := d.changeEstimate + d.ret.proceeds, ret := { d.ret with
      proceeds := 0 } }
  else d

def RexPool.credit (change : ℤ) (p : RexPool) : RexPool :=
  { p with
    totalUnlent := p.totalUnlent + change
    totalLendable := p.totalUnlent + change + p.totalLent }

def missingRow : String := "cannot pass end iterator to modify"

/-- The last 10-minute boundary. -/
def effectiveTime (now : BlockTimestamp) : ℕ := now.sec - now.sec % distInterval

/-- What `update_rex_pool` distributes before the clamp. -/
def distribution (eff : ℕ) (rp : RexReturnPool) (bs : List Bucket) : Distribution :=
  let changeEstimate := rp.currentRateOfIncrease * getElapsedIntervals eff rp.lastDistTime
  expireBuckets eff (foldPending eff ⟨changeEstimate, rp, bs⟩)

def updateRexPool (now : BlockTimestamp) (r : RexPools) : Except String RexPools :=
  match r.rexretpool with
  | none => .ok r
  | some rp =>
    let eff := effectiveTime now
    if eff ≤ rp.lastDistTime then .ok r
    else do
      let bs ← require r.retbuckets missingRow
      let d := clampProceeds (distribution eff rp bs)
      let rexpool ←
        if 0 < d.changeEstimate then do
          let p ← require r.rexpool missingRow
          pure (some (p.credit d.changeEstimate))
        else pure r.rexpool
      pure ⟨rexpool, some d.ret, some d.buckets⟩

/-- The next 12-hour boundary. -/
def bucketTime (now : BlockTimestamp) : ℕ :=
  let bucketInterval := hoursPerBucket * secondsPerHour
  now.sec - now.sec % bucketInterval + bucketInterval

def addToRexReturnPool (now : BlockTimestamp) (fee : ℤ) (r : RexPools) :
    Except String RexPools := do
  let r ← updateRexPool now r
  if fee ≤ 0 then pure r
  else
    let eff := bucketTime now
    match r.rexretpool with
    | none =>
      let rp : RexReturnPool :=
        { lastDistTime := eff, pendingBucketProceeds := fee, pendingBucketTime := eff, proceeds := fee }
      pure { r with rexretpool := some rp, retbuckets := some [] }
    | some rp =>
      let rp := { rp with
        pendingBucketProceeds := rp.pendingBucketProceeds + fee
        proceeds := rp.proceeds + fee
        pendingBucketTime := if rp.pendingBucketTime = timeMax then eff else rp.pendingBucketTime }
      pure { r with rexretpool := some rp }

end TelosSystem
