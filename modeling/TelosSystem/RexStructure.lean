import TelosSystem.RexProgress
import TelosSystem.RexSharePrice

/-! The structure of the REX tables in every reachable state: the ledger of the return pool,
the pool against the loans and balances, and the bookkeeping of each owner. -/
namespace TelosSystem
open Ledger

/-- The factor of a bucket: the intervals it still has to pay. -/
def remainingIntervals (last : ℕ) (b : Bucket) : ℤ :=
  totalIntervals - ((last - b.first) / distInterval : ℕ)

structure LedgerFacts (rp : RexReturnPool) (bs : List Bucket) : Prop where
  ascending : Ascending Bucket.first bs
  rate : rp.currentRateOfIncrease = (bs.map Bucket.second).sum
  proceeds : rp.proceeds = rp.pendingBucketProceeds +
    (bs.map fun b => b.second * remainingIntervals rp.lastDistTime b).sum
  factors : ∀ b ∈ bs, b.first ≤ rp.lastDistTime ∧ 0 ≤ remainingIntervals rp.lastDistTime b ∧
    remainingIntervals rp.lastDistTime b ≤ totalIntervals
  nonneg : 0 ≤ rp.proceeds
  notOverwritten : ∀ b ∈ bs, b.first ≠ rp.pendingBucketTime

lemma ReturnLedger.facts {now : BlockTimestamp} {rp : RexReturnPool} {bs : List Bucket}
    (h : ReturnLedger now rp bs) : LedgerFacts rp bs := by
  refine ⟨h.ascending, h.rate, h.proceeds, fun b hb => ?_, h.proceeds_nonneg, fun b hb he => ?_⟩
  · have hw := h.window b hb
    refine ⟨hw.1, ?_, ?_⟩ <;>
    · simp only [remainingIntervals, distSpan, totalIntervals, distInterval] at hw ⊢
      omega
  · rcases h.pending with ⟨hmax, -⟩ | ⟨-, -, hlt⟩
    · have h1 := h.past b hb
      have h2 := now.sec_range
      rw [he, hmax] at h1
      unfold timeMax at h1
      omega
    · exact (hlt b hb).ne he

/-- What is due after a time past all buckets is nothing. -/
lemma RexPools.ReturnInv.dueAfter_nonpos {now : BlockTimestamp} {r : RexPools} (h : r.ReturnInv now)
    {θ : ℕ} (hθ : bucketTime now ≤ θ) : r.dueAfter θ ≤ 0 := by
  unfold RexPools.dueAfter
  cases hr : r.rexretpool with
  | none => exact le_refl _
  | some rp =>
    obtain ⟨p, bs, -, hb, -, hl⟩ := h rp hr
    have hnil : bs.filter (fun b => θ < b.first) = [] := by
      apply List.filter_eq_nil_iff.mpr
      intro b hb
      have h1 := hl.past b hb
      have h2 := bucketTime_spec now
      simp only [decide_eq_true_eq]
      omega
    simp only [hb, hnil, List.map_nil, List.sum_nil, add_zero]
    rcases hl.pending with ⟨-, hz⟩ | ⟨hle, -, -⟩
    · rw [hz, ite_self]
    · rw [if_neg (by omega)]

/-- The row of the return pool stays once it is there. -/
lemma poolStep_isSome {now later : BlockTimestamp} {c : PoolCall} {r r' : RexPools}
    (h : r.ReturnInv now) (hle : now ≤ later) (hsome : r.rexretpool.isSome)
    (hs : poolStep later c r r') : r'.rexretpool.isSome := by
  have hd : (r.distributed later).rexretpool.isSome := by
    obtain ⟨rp, hr⟩ := Option.isSome_iff_exists.mp hsome
    obtain ⟨p, bs, hp, hb, -, -⟩ := h rp hr
    simp only [RexPools.distributed, hr, hp, hb]
    split_ifs <;> simp [hr]
  unfold poolStep at hs
  cases c with
  | updateRexPool =>
    rw [PoolCall.run, updateRexPool_eq h hle] at hs
    cases hs
    exact hd
  | addToRexReturnPool fee =>
    rw [PoolCall.run, addToRexReturnPool_eq h hle] at hs
    cases hs
    split_ifs
    · exact hd
    · unfold RexPools.collected
      split <;> rfl

section
variable [FloatOps] {t₀ t : BlockTimestamp} {s : State}

/-- Two fees in two buckets. The second call folds the first bucket, the third one the second
bucket, and the last one drops the first bucket. -/
def callTrace : List (BlockTimestamp × PoolCall) :=
  [(launchTime.after 1200, .addToRexReturnPool 5000000),
    (launchTime.after 45000, .addToRexReturnPool 8640000),
    (launchTime.after 172800, .updateRexPool), (launchTime.after 2638800, .updateRexPool)]

def callEnd : RexPools := stateAfter PoolCall.run callTrace launchEnd.pools

/-- The bookkeeping of one row, in the terms of its fields. -/
structure RexBalance.Bookkept (rb : RexBalance) : Prop where
  total : rb.rexBalance = rb.maturedRex + bucketSum rb.rexMaturities
  matured : 0 ≤ rb.maturedRex
  amounts : ∀ b ∈ rb.rexMaturities, 0 ≤ b.second
  ascending : Ascending Bucket.first rb.rexMaturities
  savings : ∀ b ∈ rb.rexMaturities.dropLast, b.first ≠ timeMax

omit [FloatOps] in
lemma RexBalance.WellFormed.bookkept {now : BlockTimestamp} {rb : RexBalance}
    (h : rb.WellFormed now) : rb.Bookkept := by
  obtain ⟨bs, sv, hf⟩ := h
  have hmax : ∀ b ∈ bs, b.first ≠ timeMax := fun b hb he => by
    have h1 := hf.maturing.upTo b hb
    have h2 := (getRexMaturity_bounds now).2
    omega
  have htot := hf.total
  refine ⟨?_, hf.matured_nonneg, ?_, hf.ascending, ?_⟩
  · rw [hf.buckets]
    unfold withSavings
    split_ifs with hz
    · omega
    · rw [bucketSum_append, show bucketSum [⟨timeMax, sv⟩] = sv by simp [bucketSum]]
      omega
  · intro b hb
    rw [hf.buckets] at hb
    unfold withSavings at hb
    split_ifs at hb
    · exact hf.maturing.nonneg b hb
    · rcases List.mem_append.mp hb with hb | hb
      · exact hf.maturing.nonneg b hb
      · rw [List.mem_singleton.mp hb]
        exact hf.savings_nonneg
  · intro b hb
    rw [hf.buckets] at hb
    unfold withSavings at hb
    split_ifs at hb
    · exact hmax b (List.mem_of_mem_dropLast hb)
    · rw [List.dropLast_concat] at hb
      exact hmax b hb

/-- The sum that `mvtosavings` compares with the balance fits its 64-bit register. -/
def SumFits (owner : Name) (rex : Asset) (s : State) : Prop :=
  rex.amount + openRequest owner s.rex.orders + (rowOf s.rex owner).readRexSavings.1 < 2 ^ 63

end
end TelosSystem
