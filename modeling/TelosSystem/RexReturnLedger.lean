import TelosSystem.Ascending
import TelosSystem.RexReturnPool

/-! The ledger of the return pool. `ReturnLedger` is the invariant of its rows; under it a
distribution has a closed form, from which the ledger after the distribution, the amount
paid and the independence of the call schedule are read off. -/
namespace TelosSystem
open Ledger

/-- What the buckets still have to pay after a distribution at `last`. -/
def outstanding (last : ℕ) (bs : List Bucket) : ℤ :=
  (bs.map fun b => b.second * ((totalIntervals : ℤ) - ((last - b.first) / distInterval : ℕ))).sum

def rateSum (bs : List Bucket) : ℤ := (bs.map Bucket.second).sum

/-- The bucket times precede `now` and the pending bucket, and the rows account for every
token of the proceeds. -/
structure ReturnLedger (now : BlockTimestamp) (rp : RexReturnPool) (bs : List Bucket) : Prop where
  ascending : Ascending Bucket.first bs
  rate : rp.currentRateOfIncrease = rateSum bs
  proceeds : rp.proceeds = rp.pendingBucketProceeds + outstanding rp.lastDistTime bs
  rate_nonneg : ∀ b ∈ bs, 0 ≤ b.second
  window : ∀ b ∈ bs, b.first ≤ rp.lastDistTime ∧ rp.lastDistTime < b.first + distSpan
  past : ∀ b ∈ bs, b.first ≤ now.sec
  aligned : ∀ b ∈ bs, b.first % distInterval = 0
  lastAligned : rp.lastDistTime % distInterval = 0
  last_le : rp.lastDistTime ≤ bucketTime now
  last_pending : rp.lastDistTime ≤ rp.pendingBucketTime
  oldest : rp.oldestBucketTime = (bs.head?.map Bucket.first).getD 0
  pending_nonneg : 0 ≤ rp.pendingBucketProceeds
  pending : rp.pendingBucketTime = timeMax ∧ rp.pendingBucketProceeds = 0 ∨
    rp.pendingBucketTime ≤ bucketTime now ∧ rp.pendingBucketTime % distInterval = 0 ∧
      ∀ b ∈ bs, b.first < rp.pendingBucketTime

lemma outstanding_append (last : ℕ) (bs cs : List Bucket) :
    outstanding last (bs ++ cs) = outstanding last bs + outstanding last cs := by
  simp [outstanding]

lemma rateSum_append (bs cs : List Bucket) : rateSum (bs ++ cs) = rateSum bs + rateSum cs := by
  simp [rateSum]

lemma elapsed_eq {t1 t0 : ℕ} (h : t0 ≤ t1) (h1 : t1 < 2 ^ 32) :
    getElapsedIntervals t1 t0 = (t1 - t0) / distInterval := by
  rw [getElapsedIntervals, subSec_of_le h h1]

lemma ReturnLedger.proceeds_nonneg {now : BlockTimestamp} {rp : RexReturnPool} {bs : List Bucket}
    (h : ReturnLedger now rp bs) : 0 ≤ rp.proceeds := by
  rw [h.proceeds]
  have ho : 0 ≤ outstanding rp.lastDistTime bs := by
    apply sum_map_nonneg
    intro b hb
    have hw := h.window b hb
    apply Int.mul_nonneg (h.rate_nonneg b hb)
    simp only [distSpan, totalIntervals, distInterval] at hw ⊢
    omega
  have := h.pending_nonneg
  omega

/-- The bucket that a distribution at `eff` makes out of the pending one. -/
def ripe (eff : ℕ) (rp : RexReturnPool) : List Bucket :=
  if rp.pendingBucketTime ≤ eff then
    [⟨rp.pendingBucketTime, rp.pendingBucketProceeds / totalIntervals⟩]
  else []

def live (eff : ℕ) (bs : List Bucket) : List Bucket := bs.filter fun b => eff < b.first + distSpan

def expired (eff : ℕ) (bs : List Bucket) : List Bucket :=
  bs.filter fun b => ¬ eff < b.first + distSpan

def settledBuckets (eff : ℕ) (rp : RexReturnPool) (bs : List Bucket) : List Bucket :=
  live eff (bs ++ ripe eff rp)

def settledPool (eff : ℕ) (rp : RexReturnPool) (bs : List Bucket) : RexReturnPool :=
  let rest := settledBuckets eff rp bs
  let pending := if rp.pendingBucketTime ≤ eff then 0 else rp.pendingBucketProceeds
  { lastDistTime := eff
    pendingBucketTime := if rp.pendingBucketTime ≤ eff then timeMax else rp.pendingBucketTime
    oldestBucketTime := (rest.head?.map Bucket.first).getD 0
    pendingBucketProceeds := pending
    currentRateOfIncrease := rateSum rest
    proceeds := pending + outstanding eff rest }

structure DistTime (eff : ℕ) : Prop where
  aligned : eff % distInterval = 0
  low : distSpan ≤ eff
  high : eff + distSpan < 2 ^ 32

lemma DistTime.not_max {eff : ℕ} (he : DistTime eff) : ¬ timeMax ≤ eff := by
  have hhigh := he.high
  simp only [timeMax, distSpan, totalIntervals, distInterval] at hhigh ⊢
  omega

lemma effectiveTime_dist (now : BlockTimestamp) : DistTime (effectiveTime now) := by
  have := now.sec_range
  constructor <;> simp only [effectiveTime, distInterval, distSpan, totalIntervals] <;> omega

lemma effectiveTime_le (now : BlockTimestamp) : effectiveTime now ≤ now.sec := by
  unfold effectiveTime
  omega

lemma effectiveTime_mono {a b : BlockTimestamp} (h : a ≤ b) :
    effectiveTime a ≤ effectiveTime b := by
  have := BlockTimestamp.sec_mono h
  simp only [effectiveTime, distInterval]
  omega

lemma bucketTime_spec (now : BlockTimestamp) :
    now.sec < bucketTime now ∧ bucketTime now ≤ now.sec + 43200 ∧
    bucketTime now % distInterval = 0 := by
  simp only [bucketTime, distInterval, hoursPerBucket, secondsPerHour]
  omega

lemma bucketTime_mono {a b : BlockTimestamp} (h : a ≤ b) : bucketTime a ≤ bucketTime b := by
  have := BlockTimestamp.sec_mono h
  simp only [bucketTime, hoursPerBucket, secondsPerHour]
  omega

lemma bucketTime_lt_max (now : BlockTimestamp) : bucketTime now < timeMax := by
  have := now.sec_range
  have := bucketTime_spec now
  simp only [timeMax]
  omega

/-- Between two distributions every bucket pays its rate once per interval. -/
lemma outstanding_advance {last eff : ℕ} {bs : List Bucket} (hle : last ≤ eff)
    (hlast : last % distInterval = 0) (heff : eff % distInterval = 0)
    (hw : ∀ b ∈ bs, b.first ≤ last) (ha : ∀ b ∈ bs, b.first % distInterval = 0) :
    outstanding last bs = outstanding eff bs + rateSum bs * ((eff - last) / distInterval : ℕ) := by
  induction bs with
  | nil => simp [outstanding, rateSum]
  | cons b bs ih =>
    have hi := ih (fun c hc => hw c (by simp [hc])) fun c hc => ha c (by simp [hc])
    have hb := hw b (by simp)
    have hba := ha b (by simp)
    have hf : ((last - b.first) / distInterval : ℕ) + ((eff - last) / distInterval : ℕ) =
        ((eff - b.first) / distInterval : ℕ) := by
      simp only [distInterval] at hlast heff hba ⊢
      omega
    simp only [outstanding, rateSum, List.map_cons, List.sum_cons] at hi ⊢
    rw [hi, ← hf]
    push_cast
    ring

/-- A fresh bucket pays its whole rate over the span; the pending remainder is paid at once. -/
lemma outstanding_ripe {eff : ℕ} {rp : RexReturnPool} (h : rp.pendingBucketTime ≤ eff) :
    rp.pendingBucketProceeds = rp.pendingBucketProceeds % totalIntervals +
      rp.pendingBucketProceeds / totalIntervals *
        ((eff - rp.pendingBucketTime) / distInterval : ℕ) +
      outstanding eff (ripe eff rp) := by
  have hd := Int.emod_add_mul_ediv rp.pendingBucketProceeds totalIntervals
  simp only [ripe, h, if_true, outstanding, List.map_cons, List.map_nil,
    List.sum_cons, List.sum_nil]
  linear_combination -hd

/-- What was estimated for buckets beyond their span. -/
def surplusOf (eff : ℕ) (bs : List Bucket) : ℤ :=
  ((expired eff bs).map fun b =>
    b.second * (((eff - (b.first + distSpan)) / distInterval : ℕ) : ℤ)).sum

lemma mem_live {eff : ℕ} {bs : List Bucket} {b : Bucket} :
    b ∈ live eff bs ↔ b ∈ bs ∧ eff < b.first + distSpan := by simp [live]

lemma mem_expired {eff : ℕ} {bs : List Bucket} {b : Bucket} :
    b ∈ expired eff bs ↔ b ∈ bs ∧ b.first + distSpan ≤ eff := by simp [expired]

lemma live_expired_sum (g : Bucket → ℤ) (eff : ℕ) (bs : List Bucket) :
    (bs.map g).sum = ((live eff bs).map g).sum + ((expired eff bs).map g).sum :=
  sum_filter_split g (fun b => eff < b.first + distSpan) bs

/-- The factors of expired buckets are exactly the negated overtime. -/
lemma outstanding_live {eff : ℕ} {bs : List Bucket} (heff : eff % distInterval = 0)
    (ha : ∀ b ∈ bs, b.first % distInterval = 0) :
    outstanding eff bs = outstanding eff (live eff bs) - surplusOf eff bs := by
  have hs : outstanding eff bs = outstanding eff (live eff bs) + outstanding eff (expired eff bs) :=
    live_expired_sum _ eff bs
  have hx : outstanding eff (expired eff bs) + surplusOf eff bs = 0 := by
    rw [outstanding, surplusOf, ← List.sum_map_add]
    apply List.sum_eq_zero
    intro x hx
    obtain ⟨b, hb, rfl⟩ := List.mem_map.mp hx
    obtain ⟨hm, hn⟩ := mem_expired.mp hb
    have hba := ha b hm
    have hf : ((eff - b.first) / distInterval : ℕ) =
        totalIntervals + ((eff - (b.first + distSpan)) / distInterval : ℕ) := by
      simp only [distSpan, totalIntervals, distInterval] at hn heff hba ⊢
      omega
    rw [hf]
    push_cast
    ring
  omega

lemma ripe_eq_nil {eff : ℕ} {rp : RexReturnPool} (h : ¬ rp.pendingBucketTime ≤ eff) :
    ripe eff rp = [] :=
  if_neg h

lemma rateSum_ripe {eff : ℕ} {rp : RexReturnPool} (h : rp.pendingBucketTime ≤ eff) :
    rateSum (ripe eff rp) = rp.pendingBucketProceeds / totalIntervals := by
  simp [rateSum, ripe, h]

lemma insertBucket_last {time : ℕ} {rate : ℤ} {bs : List Bucket} (h : ∀ b ∈ bs, b.first < time) :
    insertBucket time rate bs = bs ++ [⟨time, rate⟩] := by
  induction bs with
  | nil => rfl
  | cons b bs ih =>
    have hb := h b (by simp)
    rw [insertBucket, if_pos hb, ih fun c hc => h c (by simp [hc])]
    rfl

/-- The threshold of the expiry loop cuts where the span of a bucket ends. -/
lemma threshold_le {eff : ℕ} (he : DistTime eff) (b : Bucket) :
    b.first ≤ subSec eff distSpan ↔ ¬ eff < b.first + distSpan := by
  have hlow := he.low
  have hhigh := he.high
  rw [subSec_of_le hlow (by omega)]
  omega

lemma ite_pos_sub {x : ℤ} (h : 0 ≤ x) (e : ℤ) : (if 0 < x then e - x else e) = e - x := by
  split <;> omega

lemma ite_pos_add {x : ℤ} (h : 0 ≤ x) (e : ℤ) : (if 0 < x then e + x else e) = e + x := by
  split <;> omega

/-- Expiring keeps the buckets within their span and returns the surplus to the proceeds,
whether or not the cached oldest bucket time lets the loop run. -/
lemma expireBuckets_eq {eff : ℕ} {d : Distribution} (he : DistTime eff)
    (hasc : Ascending Bucket.first d.buckets) (hnn : ∀ b ∈ d.buckets, 0 ≤ b.second)
    (hle : ∀ b ∈ d.buckets, b.first ≤ eff)
    (hrate : d.ret.currentRateOfIncrease = rateSum d.buckets)
    (hold : d.ret.oldestBucketTime = 0 ∨
      d.ret.oldestBucketTime = (d.buckets.head?.map Bucket.first).getD 0) :
    expireBuckets eff d =
      ⟨d.changeEstimate - surplusOf eff d.buckets,
        { d.ret with
          oldestBucketTime := ((live eff d.buckets).head?.map Bucket.first).getD 0
          currentRateOfIncrease := rateSum (live eff d.buckets)
          proceeds := d.ret.proceeds + surplusOf eff d.buckets }, live eff d.buckets⟩ := by
  have hdrop : d.buckets.dropWhile (fun b => b.first ≤ subSec eff distSpan) =
    live eff d.buckets := by
    rw [hasc.dropWhile_eq, live]
    apply List.filter_congr
    intro b _
    have ht := threshold_le he b
    rw [decide_eq_decide]
    omega
  have htake : d.buckets.takeWhile (fun b => b.first ≤ subSec eff distSpan) =
    expired eff d.buckets := by
    rw [hasc.takeWhile_eq, expired]
    apply List.filter_congr
    intro b _
    rw [decide_eq_decide]
    exact threshold_le he b
  have hsur : ((expired eff d.buckets).map fun b =>
      b.second * (getElapsedIntervals eff (addSec b.first distSpan) : ℤ)).sum =
        surplusOf eff d.buckets := by
    apply congrArg List.sum
    apply List.map_congr_left
    intro b hb
    obtain ⟨hm, hn⟩ := mem_expired.mp hb
    have hb' := hle b hm
    have hhigh := he.high
    rw [addSec_of_lt (by omega), elapsed_eq hn (by omega)]
  have hsnn : 0 ≤ surplusOf eff d.buckets := by
    apply sum_map_nonneg
    intro b hb
    exact Int.mul_nonneg (hnn b (mem_expired.mp hb).1) (Int.natCast_nonneg _)
  have hrnn : 0 ≤ rateSum (expired eff d.buckets) :=
    sum_map_nonneg fun b hb => hnn b (mem_expired.mp hb).1
  have hsplit : rateSum d.buckets = rateSum (live eff d.buckets) +
    rateSum (expired eff d.buckets) :=
    live_expired_sum Bucket.second eff d.buckets
  by_cases ho : d.ret.oldestBucketTime ≤ subSec eff distSpan
  · unfold expireBuckets
    simp only [ho, if_true, htake, hdrop, hsur, ← rateSum.eq_1, ite_pos_sub hsnn, ite_pos_add hsnn,
      ite_pos_sub hrnn]
    simp only [hrate, hsplit, Int.add_sub_cancel]
  · obtain ⟨b, bs, hb⟩ : ∃ b bs, d.buckets = b :: bs := by
      cases hc : d.buckets with
      | nil => simp [hc] at hold; omega
      | cons b bs => exact ⟨b, bs, rfl⟩
    have hhead : d.ret.oldestBucketTime = b.first := by
      simp only [hb, List.head?_cons, Option.map_some, Option.getD_some] at hold
      omega
    have hfirst : ∀ c ∈ d.buckets, ¬ c.first ≤ subSec eff distSpan := by
      rw [hb] at hasc ⊢
      intro c hc
      rcases List.mem_cons.mp hc with rfl | hc
      · omega
      · have := (List.pairwise_cons.mp hasc).1 c hc
        omega
    have hlive : live eff d.buckets = d.buckets := by
      apply List.filter_eq_self.mpr
      intro c hc
      simpa [threshold_le he c] using hfirst c hc
    have hexp : expired eff d.buckets = [] := by
      apply List.filter_eq_nil_iff.mpr
      intro c hc
      simpa [threshold_le he c] using hfirst c hc
    have hzero : surplusOf eff d.buckets = 0 := by rw [surplusOf, hexp, List.map_nil, List.sum_nil]
    unfold expireBuckets
    have hcached : (d.buckets.head?.map Bucket.first).getD 0 = d.ret.oldestBucketTime := by
      rw [hb, hhead, List.head?_cons, Option.map_some, Option.getD_some]
    simp only [ho, if_false, hlive, hzero, Int.sub_zero, Int.add_zero, ← hrate, hcached]

lemma ReturnLedger.before_pending {now : BlockTimestamp} {rp : RexReturnPool} {bs : List Bucket}
    (h : ReturnLedger now rp bs) {eff : ℕ} (he : DistTime eff) (hp : rp.pendingBucketTime ≤ eff) :
    rp.pendingBucketTime ≤ bucketTime now ∧ rp.pendingBucketTime % distInterval = 0 ∧
      ∀ b ∈ bs, b.first < rp.pendingBucketTime := by
  rcases h.pending with ⟨hmax, -⟩ | hpend
  · rw [hmax] at hp
    exact absurd hp he.not_max
  · exact hpend

/-- The cached oldest time is the time of the head, or zero when the only bucket is fresh. -/
lemma ReturnLedger.cached {now : BlockTimestamp} {rp : RexReturnPool} {bs : List Bucket}
    (h : ReturnLedger now rp bs) (cs : List Bucket) : rp.oldestBucketTime = 0 ∨
      rp.oldestBucketTime = ((bs ++ cs).head?.map Bucket.first).getD 0 := by
  have ho := h.oldest
  cases bs with
  | nil => exact Or.inl (by simpa using ho)
  | cons b bs => exact Or.inr (by simpa using ho)

/-- The pending bucket joins the buckets at their end; its remainder is part of the estimate. -/
lemma foldPending_eq {now : BlockTimestamp} {rp : RexReturnPool} {bs : List Bucket} {eff : ℕ}
    (h : ReturnLedger now rp bs) (he : DistTime eff) (hlast : rp.lastDistTime < eff) :
    foldPending eff ⟨rp.currentRateOfIncrease * getElapsedIntervals eff rp.lastDistTime, rp, bs⟩ =
      ⟨rp.proceeds - ((settledPool eff rp bs).pendingBucketProceeds +
        outstanding eff (bs ++ ripe eff rp)),
        { lastDistTime := eff
          pendingBucketTime := (settledPool eff rp bs).pendingBucketTime
          oldestBucketTime := rp.oldestBucketTime
          pendingBucketProceeds := (settledPool eff rp bs).pendingBucketProceeds
          currentRateOfIncrease := rateSum (bs ++ ripe eff rp)
          proceeds := (settledPool eff rp bs).pendingBucketProceeds +
            outstanding eff (bs ++ ripe eff rp) }, bs ++ ripe eff rp⟩ := by
  have hhigh := he.high
  have hadv := outstanding_advance hlast.le h.lastAligned he.aligned
    (fun b hb => (h.window b hb).1) h.aligned
  have hproc := h.proceeds
  have hnn := h.pending_nonneg
  rw [elapsed_eq hlast.le (by omega), h.rate]
  by_cases hp : rp.pendingBucketTime ≤ eff
  · obtain ⟨-, -, hbefore⟩ := h.before_pending he hp
    have hfresh : ¬ rp.pendingBucketTime < rp.oldestBucketTime := by
      rw [h.oldest]
      cases bs with
      | nil => simp
      | cons b bs =>
        have := hbefore b (by simp)
        simp only [List.head?_cons, Option.map_some, Option.getD_some]
        omega
    have hrem : rp.pendingBucketProceeds.tmod totalIntervals =
      rp.pendingBucketProceeds % totalIntervals :=
      Int.tmod_eq_emod_of_nonneg hnn
    have hquot : (rp.pendingBucketProceeds - rp.pendingBucketProceeds % totalIntervals).tdiv
      totalIntervals =
        rp.pendingBucketProceeds / totalIntervals := by
      simp only [totalIntervals]
      rw [Int.tdiv_eq_ediv_of_nonneg (by omega)]
      omega
    have hripe := outstanding_ripe hp
    have hrate := rateSum_ripe hp
    have happ : bs ++ ripe eff rp =
        insertBucket rp.pendingBucketTime (rp.pendingBucketProceeds / totalIntervals) bs := by
      rw [insertBucket_last hbefore, ripe, if_pos hp]
    unfold foldPending
    simp only [hp, if_true, hrem, hquot, hfresh, if_false, settledPool]
    rw [elapsed_eq hp (by omega), ← happ, rateSum_append, outstanding_append, hrate, h.rate]
    congr 1
    · omega
    · congr 1
      omega
  · unfold foldPending
    simp only [hp, if_false, settledPool, ripe_eq_nil hp, List.append_nil, h.rate]
    congr 1
    · omega
    · congr 1
      omega

lemma ReturnLedger.mem_joined {now : BlockTimestamp} {rp : RexReturnPool} {bs : List Bucket}
    {eff : ℕ} (h : ReturnLedger now rp bs) (he : DistTime eff) (hlast : rp.lastDistTime < eff)
    {b : Bucket} (hb : b ∈ bs ++ ripe eff rp) :
    b.first ≤ eff ∧ 0 ≤ b.second ∧ b.first % distInterval = 0 := by
  rcases List.mem_append.mp hb with hb | hb
  · have := (h.window b hb).1
    exact ⟨by omega, h.rate_nonneg b hb, h.aligned b hb⟩
  · by_cases hp : rp.pendingBucketTime ≤ eff
    · obtain ⟨-, hal, -⟩ := h.before_pending he hp
      rw [ripe, if_pos hp, List.mem_singleton] at hb
      subst hb
      exact ⟨hp, Int.ediv_nonneg h.pending_nonneg (Int.natCast_nonneg _), hal⟩
    · simp [ripe_eq_nil hp] at hb

lemma ReturnLedger.ascending_joined {now : BlockTimestamp} {rp : RexReturnPool} {bs : List Bucket}
    {eff : ℕ} (h : ReturnLedger now rp bs) (he : DistTime eff) :
    Ascending Bucket.first (bs ++ ripe eff rp) := by
  by_cases hp : rp.pendingBucketTime ≤ eff
  · rw [ripe, if_pos hp]
    exact h.ascending.concat (h.before_pending he hp).2.2
  · rw [ripe_eq_nil hp, List.append_nil]
    exact h.ascending

/-- The closed form of a distribution. -/
theorem distribution_eq {now : BlockTimestamp} {rp : RexReturnPool} {bs : List Bucket} {eff : ℕ}
    (h : ReturnLedger now rp bs) (he : DistTime eff) (hlast : rp.lastDistTime < eff) :
    distribution eff rp bs =
      ⟨rp.proceeds - (settledPool eff rp bs).proceeds, settledPool eff rp bs,
        settledBuckets eff rp bs⟩ := by
  have hlive := outstanding_live he.aligned fun b hb => (h.mem_joined he hlast hb).2.2
  unfold distribution
  dsimp only
  rw [foldPending_eq h he hlast, expireBuckets_eq he (h.ascending_joined he)
    (fun b hb => (h.mem_joined he hlast hb).2.1) (fun b hb => (h.mem_joined he hlast hb).1)
    rfl (h.cached _)]
  simp only [settledPool, settledBuckets]
  congr 1
  · omega
  · congr 1
    omega

/-- The ledger after a distribution. -/
theorem ReturnLedger.settled {now later : BlockTimestamp} {rp : RexReturnPool} {bs : List Bucket}
    (h : ReturnLedger now rp bs) (hle : now ≤ later)
    (hlast : rp.lastDistTime < effectiveTime later) :
    ReturnLedger later (settledPool (effectiveTime later) rp bs)
      (settledBuckets (effectiveTime later) rp bs) := by
  have he := effectiveTime_dist later
  have hmem : ∀ b ∈ settledBuckets (effectiveTime later) rp bs,
      b ∈ bs ++ ripe (effectiveTime later) rp ∧ effectiveTime later < b.first + distSpan :=
    fun b hb => mem_live.mp hb
  have hj := fun b hb => h.mem_joined he hlast (hmem b hb).1
  have hsec := effectiveTime_le later
  refine
    { ascending := (h.ascending_joined he).filter _
      rate := rfl
      proceeds := rfl
      rate_nonneg := fun b hb => (hj b hb).2.1
      window := fun b hb => ⟨(hj b hb).1, (hmem b hb).2⟩
      past := fun b hb => le_trans (hj b hb).1 hsec
      aligned := fun b hb => (hj b hb).2.2
      lastAligned := he.aligned
      last_le := le_trans hsec (bucketTime_spec later).1.le
      last_pending := ?_
      oldest := rfl
      pending_nonneg := ?_
      pending := ?_ }
  · have hmax := he.not_max
    simp only [settledPool]
    split <;> omega
  · simp only [settledPool]
    split
    · exact le_refl _
    · exact h.pending_nonneg
  · by_cases hp : rp.pendingBucketTime ≤ effectiveTime later
    · exact Or.inl ⟨by simp [settledPool, hp], by simp [settledPool, hp]⟩
    · simp only [settledPool, hp, if_false]
      rcases h.pending with hmax | ⟨hb, ha, hlt⟩
      · exact Or.inl hmax
      · refine Or.inr ⟨le_trans hb (bucketTime_mono hle), ha, fun b hb => hlt b ?_⟩
        simpa [ripe_eq_nil hp] using (hmem b hb).1

lemma ReturnLedger.later {now later : BlockTimestamp} {rp : RexReturnPool} {bs : List Bucket}
    (h : ReturnLedger now rp bs) (hle : now ≤ later) : ReturnLedger later rp bs :=
  { h with
    past := fun b hb => le_trans (h.past b hb) (BlockTimestamp.sec_mono hle)
    last_le := le_trans h.last_le (bucketTime_mono hle)
    pending := h.pending.imp_right fun ⟨hb, hp⟩ => ⟨le_trans hb (bucketTime_mono hle), hp⟩ }

lemma outstanding_live_le {last eff : ℕ} {bs : List Bucket} (hle : last ≤ eff)
    (hnn : ∀ b ∈ bs, 0 ≤ b.second) (hw : ∀ b ∈ bs, b.first ≤ last ∧ last < b.first + distSpan) :
    outstanding eff (live eff bs) ≤ outstanding last bs := by
  induction bs with
  | nil => exact le_refl _
  | cons b bs ih =>
    have hi := ih (fun c hc => hnn c (by simp [hc])) fun c hc => hw c (by simp [hc])
    have hb := hnn b (by simp)
    have hwb := hw b (by simp)
    have hf : (((last - b.first) / distInterval : ℕ) : ℤ) ≤
      ((eff - b.first) / distInterval : ℕ) := by
      exact_mod_cast Nat.div_le_div_right (by omega)
    have h0 : (((last - b.first) / distInterval : ℕ) : ℤ) ≤ totalIntervals := by
      simp only [distSpan, totalIntervals, distInterval] at hwb ⊢
      omega
    unfold outstanding live at hi ⊢
    rw [List.map_cons, List.sum_cons, List.filter_cons]
    split
    · rw [List.map_cons, List.sum_cons]
      have := mul_le_mul_of_nonneg_left hf hb
      nlinarith
    · have := mul_nonneg hb (sub_nonneg.mpr h0)
      omega

/-- A distribution never takes tokens back from the pool. -/
theorem ReturnLedger.settled_le {now : BlockTimestamp} {rp : RexReturnPool} {bs : List Bucket}
    {eff : ℕ} (h : ReturnLedger now rp bs) (hlast : rp.lastDistTime < eff) :
    (settledPool eff rp bs).proceeds ≤ rp.proceeds := by
  have hold := outstanding_live_le hlast.le h.rate_nonneg h.window
  have hnn := h.pending_nonneg
  rw [h.proceeds]
  simp only [settledPool, settledBuckets]
  by_cases hp : rp.pendingBucketTime ≤ eff
  · have hnew : outstanding eff (live eff (ripe eff rp)) ≤ rp.pendingBucketProceeds := by
      have hr : 0 ≤ rp.pendingBucketProceeds / totalIntervals :=
        Int.ediv_nonneg hnn (Int.natCast_nonneg _)
      have hk : (0 : ℤ) ≤ ((eff - rp.pendingBucketTime) / distInterval : ℕ) := Int.natCast_nonneg _
      have hd := Int.mul_ediv_self_le (x := rp.pendingBucketProceeds)
        (k := totalIntervals) (by decide)
      simp only [ripe, hp, if_true, live, List.filter_cons, List.filter_nil]
      split
      · simp only [outstanding, List.map_cons, List.map_nil, List.sum_cons, List.sum_nil]
        nlinarith [mul_nonneg hr hk]
      · exact hnn
    rw [if_pos hp, live, List.filter_append, outstanding_append]
    unfold live at hold hnew
    omega
  · rw [if_neg hp, ripe_eq_nil hp, List.append_nil]
    omega

end TelosSystem
