import TelosSystem.PowerUp

/-! The weight of a PowerUp resource. The ratio falls linearly to its target, so that the
weight computed from it only grows and always covers the utilization. -/
namespace TelosSystem
open Ledger

namespace PowerupStateResource

structure Configured (res : PowerupStateResource) : Prop where
  assumed_pos : 1 ≤ res.assumedStakeWeight
  target_pos : 0 < res.targetWeightRatio
  target_le : res.targetWeightRatio ≤ res.initialWeightRatio
  initial_le : res.initialWeightRatio ≤ powerupFrac
  ordered : res.initialTimestamp ≤ res.targetTimestamp
  bounded : res.targetTimestamp < 2 ^ 32
  fits : (res.assumedStakeWeight * powerupFrac).tdiv res.targetWeightRatio ≤ 2 ^ 63 - 1

/-- The configuration does not depend on the state of the market. -/
lemma Configured.withState {res : PowerupStateResource} (h : res.Configured)
    (weight weightRatio utilization adjustedUtilization : ℤ) (utilizationTimestamp : ℕ) :
    { res with weight, weightRatio, utilization, adjustedUtilization, utilizationTimestamp }.Configured :=
  ⟨h.assumed_pos, h.target_pos, h.target_le, h.initial_le, h.ordered, h.bounded, h.fits⟩

lemma Configured.release {res : PowerupStateResource} (h : res.Configured) (delta : ℤ) :
    (res.release delta).Configured := by
  unfold PowerupStateResource.release
  exact h.withState _ _ _ _ _

def ratioOf (res : PowerupStateResource) (sec : ℕ) : ℤ :=
  if res.targetTimestamp ≤ sec then res.targetWeightRatio
  else res.initialWeightRatio - (res.initialWeightRatio - res.targetWeightRatio) *
    (sec - res.initialTimestamp : ℕ) / (res.targetTimestamp - res.initialTimestamp : ℕ)

def weightFor (res : PowerupStateResource) (ratio : ℤ) : ℤ :=
  (res.assumedStakeWeight * powerupFrac).tdiv ratio - res.assumedStakeWeight

section
variable {res : PowerupStateResource} {now : BlockTimestamp} {a b : ℕ}

lemma ratioAt_eq (h : res.Configured) (hs : res.initialTimestamp ≤ now.sec) :
    res.ratioAt now = .ok (res.ratioOf now.sec) := by
  unfold ratioAt ratioOf
  split_ifs with ht
  · rfl
  · have hb := h.bounded
    have hspan : res.targetTimestamp - res.initialTimestamp ≠ 0 := by omega
    rw [subSec_of_le hs (by omega), subSec_of_le h.ordered hb]
    have hneg : (res.targetWeightRatio - res.initialWeightRatio) *
      ((now.sec - res.initialTimestamp : ℕ) : ℤ) =
        -((res.initialWeightRatio - res.targetWeightRatio) *
        ((now.sec - res.initialTimestamp : ℕ) : ℤ)) := by ring
    have hnn : 0 ≤ (res.initialWeightRatio - res.targetWeightRatio) *
      ((now.sec - res.initialTimestamp : ℕ) : ℤ) :=
      mul_nonneg (by linarith [h.target_le]) (Int.natCast_nonneg _)
    simp only [check, hspan, ne_eq, not_false_eq_true, if_true, Bind.bind, Except.bind,
      Pure.pure, Except.pure]
    rw [hneg, Int.neg_tdiv, Int.tdiv_eq_ediv_of_nonneg hnn, ← sub_eq_add_neg]

lemma drop_le (h : res.Configured) (ha : a < res.targetTimestamp) :
    (res.initialWeightRatio - res.targetWeightRatio) * (a - res.initialTimestamp : ℕ) /
      (res.targetTimestamp - res.initialTimestamp : ℕ) ≤ res.initialWeightRatio -
        res.targetWeightRatio := by
  by_cases hz : res.targetTimestamp - res.initialTimestamp = 0
  · rw [hz, Nat.cast_zero, Int.ediv_zero]
    linarith [h.target_le]
  · apply Int.ediv_le_of_le_mul (by omega)
    apply mul_le_mul_of_nonneg_left
    · omega
    · linarith [h.target_le]

lemma target_le_ratioOf (h : res.Configured) (a : ℕ) : res.targetWeightRatio ≤ res.ratioOf a := by
  unfold ratioOf
  split_ifs with ht
  · exact le_refl _
  · have := drop_le h (not_le.mp ht)
    omega

lemma ratioOf_le_initial (h : res.Configured) (a : ℕ) : res.ratioOf a ≤ res.initialWeightRatio := by
  unfold ratioOf
  split_ifs with ht
  · exact h.target_le
  · have : 0 ≤ (res.initialWeightRatio - res.targetWeightRatio) *
      ((a - res.initialTimestamp : ℕ) : ℤ) /
        ((res.targetTimestamp - res.initialTimestamp : ℕ) : ℤ) :=
      Int.ediv_nonneg (mul_nonneg (by linarith [h.target_le]) (Int.natCast_nonneg _))
        (Int.natCast_nonneg _)
    omega

lemma ratioOf_antitone (h : res.Configured) (ha : res.initialTimestamp ≤ a) (hab : a ≤ b) :
    res.ratioOf b ≤ res.ratioOf a := by
  by_cases hb : res.targetTimestamp ≤ b
  · have : res.ratioOf b = res.targetWeightRatio := if_pos hb
    rw [this]
    exact target_le_ratioOf h a
  · unfold ratioOf
    rw [if_neg hb, if_neg (by omega)]
    apply sub_le_sub_left
    apply Int.ediv_le_ediv (by omega)
    apply mul_le_mul_of_nonneg_left
    · omega
    · linarith [h.target_le]

lemma weightFor_mono (h : res.Configured) {r r' : ℤ} (hr : 0 < r') (hle : r' ≤ r) :
    res.weightFor r ≤ res.weightFor r' := by
  have hnn : 0 ≤ res.assumedStakeWeight * powerupFrac :=
    mul_nonneg (by linarith [h.assumed_pos]) (by decide)
  unfold weightFor
  rw [Int.tdiv_eq_ediv_of_nonneg hnn, Int.tdiv_eq_ediv_of_nonneg hnn]
  apply sub_le_sub_right
  apply Int.le_ediv_of_mul_le hr
  calc res.assumedStakeWeight * powerupFrac / r * r'
      ≤ res.assumedStakeWeight * powerupFrac / r * r :=
        mul_le_mul_of_nonneg_left hle (Int.ediv_nonneg hnn (by omega))
    _ ≤ res.assumedStakeWeight * powerupFrac := Int.ediv_mul_le _ (by omega)

lemma weightFor_nonneg (h : res.Configured) {r : ℤ} (hr : 0 < r) (hle : r ≤ powerupFrac) :
    0 ≤ res.weightFor r := by
  have hone : res.weightFor powerupFrac = 0 := by
    unfold weightFor
    rw [Int.mul_tdiv_cancel _ (by decide), sub_self]
  have := weightFor_mono h hr hle
  omega

lemma weightFor_fits (h : res.Configured) {r : ℤ} (hr : res.targetWeightRatio ≤ r) :
    res.weightFor r ≤ 2 ^ 63 - 1 := by
  have h1 := weightFor_mono h h.target_pos hr
  have h2 := h.fits
  have h3 := h.assumed_pos
  unfold weightFor at h1 ⊢
  omega

/-- The state of a configured resource: its weight was computed at some time before, and
covers both utilizations. -/
structure Settled (now : BlockTimestamp) (res : PowerupStateResource) : Prop where
  configured : res.Configured
  computed : ∃ u : ℕ, res.initialTimestamp ≤ u ∧ u ≤ now.sec ∧ res.weightRatio = res.ratioOf u ∧
    res.weight = res.weightFor (res.ratioOf u)
  nonneg : 0 ≤ res.utilization
  covered : res.utilization ≤ res.weight
  adjusted : 0 ≤ res.adjustedUtilization ∧ res.adjustedUtilization ≤ res.weight

lemma Settled.later {later : BlockTimestamp} (h : res.Settled now) (hle : now ≤ later) :
    res.Settled later := by
  obtain ⟨u, h1, h2, h3⟩ := h.computed
  exact ⟨h.configured, ⟨u, h1, le_trans h2 (BlockTimestamp.sec_mono hle), h3⟩, h.nonneg,
    h.covered, h.adjusted⟩

structure Bounded (res : PowerupStateResource) : Prop where
  utilization : 0 ≤ res.utilization ∧ res.utilization ≤ res.weight
  adjusted : 0 ≤ res.adjustedUtilization ∧ res.adjustedUtilization ≤ res.weight
  ratio_pos : 0 < res.weightRatio
  ratio : res.targetWeightRatio ≤ res.weightRatio ∧ res.weightRatio ≤ res.initialWeightRatio
  initial : res.initialWeightRatio ≤ powerupFrac
  weight : 0 ≤ res.weight ∧ res.weight ≤ 2 ^ 63 - 1

lemma Settled.bounded (h : res.Settled now) : res.Bounded := by
  obtain ⟨u, -, -, hr, hw⟩ := h.computed
  have hc := h.configured
  have h1 := target_le_ratioOf hc u
  have h2 := ratioOf_le_initial hc u
  refine ⟨⟨h.nonneg, h.covered⟩, h.adjusted, ?_, ?_, hc.initial_le, ?_⟩
  · rw [hr]
    exact lt_of_lt_of_le hc.target_pos h1
  · rw [hr]
    exact ⟨h1, h2⟩
  · rw [hw]
    exact ⟨weightFor_nonneg hc (lt_of_lt_of_le hc.target_pos h1) (le_trans h2 hc.initial_le),
      weightFor_fits hc h1⟩

/-- Dividing by the ratio never fails. -/
lemma updateWeight_eq (h : res.Configured) (hstart : res.initialTimestamp ≤ now.sec) :
    res.updateWeight now = .ok (res.weightFor (res.ratioOf now.sec) - res.weight,
      { res with weightRatio := res.ratioOf now.sec, weight := res.weightFor (res.ratioOf now.sec) }) := by
  have hpos := lt_of_lt_of_le h.target_pos (target_le_ratioOf h now.sec)
  unfold updateWeight
  rw [ratioAt_eq h hstart]
  simp only [check, hpos.ne', ne_eq, not_false_eq_true, if_true, Bind.bind, Except.bind,
    Pure.pure, Except.pure]
  rfl

/-- Bringing the weight up to date only makes it grow. -/
lemma Settled.updateWeight (h : res.Settled now) : ∃ res',
    res.updateWeight now = .ok (res'.weight - res.weight, res') ∧ res'.Settled now ∧
    res.weight ≤ res'.weight ∧
      res'.utilization = res.utilization ∧ res'.weight = res.weightFor (res.ratioOf now.sec) := by
  obtain ⟨u, h1, h2, hr, hw⟩ := h.computed
  have hc := h.configured
  have hgrow : res.weight ≤ res.weightFor (res.ratioOf now.sec) := by
    rw [hw]
    exact weightFor_mono hc (lt_of_lt_of_le hc.target_pos (target_le_ratioOf hc now.sec))
      (ratioOf_antitone hc h1 h2)
  refine ⟨{ res with weightRatio := res.ratioOf now.sec, weight := res.weightFor (res.ratioOf now.sec) },
    updateWeight_eq hc (le_trans h1 h2), ?_, hgrow, rfl, rfl⟩
  exact
    { configured := hc.withState _ _ _ _ _
      computed := ⟨now.sec, le_trans h1 h2, le_refl _, rfl, rfl⟩
      nonneg := h.nonneg
      covered := le_trans h.covered hgrow
      adjusted := ⟨h.adjusted.1, le_trans h.adjusted.2 hgrow⟩ }

/-- A utilization that is given back in part does not leave 64 bits. -/
lemma Settled.release_eq {delta : ℤ} (h : res.Settled now) (h0 : 0 ≤ delta)
    (hle : delta ≤ res.utilization) :
    res.release delta = { res with utilization := res.utilization - delta } := by
  have hw := h.bounded.weight.2
  have hc := h.covered
  unfold PowerupStateResource.release
  rw [wrapInt64_of_lt (by omega) (by omega)]

/-- A lower utilization keeps a resource settled. -/
lemma Settled.release {delta : ℤ} (h : res.Settled now) (h0 : 0 ≤ delta)
    (hle : delta ≤ res.utilization) : (res.release delta).Settled now := by
  have hc := h.configured
  rw [h.release_eq h0 hle]
  refine ⟨hc.withState _ _ _ _ _, h.computed,
    ?_, ?_, h.adjusted⟩
  · dsimp only
    omega
  · have := h.covered
    dsimp only
    omega

lemma clamp_le {v lo hi : ℤ} (h : lo ≤ hi) : lo ≤ clamp v lo hi ∧ clamp v lo hi ≤ hi := by
  unfold clamp
  split_ifs <;> omega

/-- Whatever the decay factor is, the adjusted utilization stays between the utilization and
its old value. -/
lemma Settled.updateUtilization [FloatOps] (h : res.Settled now) (u : BlockTimestamp) :
    (res.updateUtilization u).Settled now ∧
    (res.updateUtilization u).utilization = res.utilization ∧
      (res.updateUtilization u).weight = res.weight := by
  have hc := h.configured
  have h1 := h.nonneg
  have h2 := h.covered
  have h3 := h.adjusted
  have hw := h.bounded.weight.2
  unfold PowerupStateResource.updateUtilization
  by_cases ht : u.sec ≤ res.utilizationTimestamp
  · rw [if_pos ht]
    exact ⟨h, rfl, rfl⟩
  · rw [if_neg ht]
    refine ⟨⟨hc.withState _ _ _ _ _, h.computed, h1, h2, ?_⟩, rfl, rfl⟩
    dsimp only
    by_cases hle : res.adjustedUtilization ≤ res.utilization
    · rw [if_pos hle]
      exact ⟨h1, h2⟩
    · rw [if_neg hle, wrapInt64_of_lt (x := res.adjustedUtilization - res.utilization)
        (by omega) (by omega)]
      have hd := clamp_le (v :=
        FloatOps.decayedDifference (res.adjustedUtilization - res.utilization)
        (u.sec - res.utilizationTimestamp) res.decaySecs)
        (show 0 ≤ res.adjustedUtilization - res.utilization by omega)
      rw [wrapInt64_of_lt (by omega) (by omega)]
      omega

/-- The weight at a later time depends on the configuration only. -/
lemma weightFor_updateUtilization [FloatOps] (res : PowerupStateResource) (u : BlockTimestamp)
    (delta : ℤ) (sec : ℕ) :
    ((res.updateUtilization u).release delta).weightFor
      (((res.updateUtilization u).release delta).ratioOf sec) =
      res.weightFor (res.ratioOf sec) := by
  unfold PowerupStateResource.updateUtilization
  split_ifs <;> rfl

/-- A purchase takes a part of the weight that is not in use, as long as the new utilization
fits in 64 bits. -/
lemma Settled.buyPower [FloatOps] {frac amount fee : ℤ} {res' : PowerupStateResource}
    (h : res.Settled now) (h0 : 0 ≤ frac)
    (hfit : res.utilization + (frac * res.weight).tdiv powerupFrac < 2 ^ 63)
    (hb : buyPower frac res = .ok (amount, fee, res')) :
    res'.Settled now ∧ 0 ≤ amount ∧ res'.utilization = res.utilization + amount ∧
    res'.weight = res.weight := by
  unfold TelosSystem.buyPower at hb
  split_ifs at hb with hf
  · cases hb
    exact ⟨h, le_refl _, by omega, rfl⟩
  · have h1 := h.nonneg
    have hamount : 0 ≤ (frac * res.weight).tdiv powerupFrac :=
      Int.tdiv_nonneg (mul_nonneg h0 h.bounded.weight.1) (by decide)
    simp only [bind_ok, check_ok, exists_const, pure_ok, Prod.mk.injEq] at hb
    obtain ⟨-, hle, -, rfl, -, rfl⟩ := hb
    rw [wrapInt64_of_lt (by omega) hfit] at hle ⊢
    have hc := h.configured
    refine ⟨⟨hc.withState _ _ _ _ _,
      h.computed, ?_, hle, h.adjusted⟩, hamount, rfl, rfl⟩
    dsimp only
    omega

end
end PowerupStateResource
end TelosSystem
