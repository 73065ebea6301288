import TelosSystem.RexReturnLedger

/-! The return pool over whole runs: `update_rex_pool` is total and does not depend on the
call schedule, and every collected fee reaches the REX pool once and in full. -/
namespace TelosSystem
open Ledger

def RexPool.Balanced (p : RexPool) : Prop := p.totalLendable = p.totalUnlent + p.totalLent

/-- The rows of the return pool exist together and next to a REX pool. -/
def RexPools.ReturnInv (now : BlockTimestamp) (r : RexPools) : Prop :=
  ∀ rp, r.rexretpool = some rp → ∃ p bs, r.rexpool = some p ∧ r.retbuckets = some bs ∧
    p.Balanced ∧ ReturnLedger now rp bs

def RexPools.distributed (now : BlockTimestamp) (r : RexPools) : RexPools :=
  match r.rexretpool, r.rexpool, r.retbuckets with
  | some rp, some p, some bs =>
    if effectiveTime now ≤ rp.lastDistTime then r
    else
      let ret := settledPool (effectiveTime now) rp bs
      ⟨some (p.credit (rp.proceeds - ret.proceeds)), some ret,
        some (settledBuckets (effectiveTime now) rp bs)⟩
  | _, _, _ => r

lemma RexPool.credit_zero {p : RexPool} (h : p.Balanced) : p.credit 0 = p := by
  unfold RexPool.Balanced at h
  cases p
  simp_all [RexPool.credit]

lemma RexPool.credit_credit (p : RexPool) (a b : ℤ) : (p.credit a).credit b = p.credit (a + b) := by
  simp [RexPool.credit, Int.add_assoc]

lemma RexPool.credit_balanced (p : RexPool) (a : ℤ) : (p.credit a).Balanced := rfl

/-- The clamp at the end of `update_rex_pool` never fires. -/
lemma ReturnLedger.not_overdrawn {now later : BlockTimestamp} {rp : RexReturnPool}
    {bs : List Bucket} (h : ReturnLedger now rp bs) (hle : now ≤ later)
    (hlast : rp.lastDistTime < effectiveTime later) :
    ¬ (distribution (effectiveTime later) rp bs).Overdrawn := by
  rw [distribution_eq h (effectiveTime_dist later) hlast]
  rintro ⟨-, hneg⟩
  have := (h.settled hle hlast).proceeds_nonneg
  dsimp only at hneg
  omega

theorem updateRexPool_eq {now later : BlockTimestamp} {r : RexPools} (h : r.ReturnInv now)
    (hle : now ≤ later) : updateRexPool later r = .ok (r.distributed later) := by
  unfold updateRexPool RexPools.distributed
  cases hr : r.rexretpool with
  | none => rfl
  | some rp =>
    obtain ⟨p, bs, hp, hb, hbal, hl⟩ := h rp hr
    simp only [hp, hb]
    by_cases hlast : effectiveTime later ≤ rp.lastDistTime
    · rw [if_pos hlast, if_pos hlast]
    · rw [if_neg hlast, if_neg hlast]
      have hno := hl.not_overdrawn hle (not_le.mp hlast)
      have hnn := hl.settled_le (not_le.mp hlast)
      simp only [require, Bind.bind, Except.bind, Pure.pure, Except.pure, clampProceeds, if_neg hno]
      rw [distribution_eq hl (effectiveTime_dist later) (not_le.mp hlast)]
      dsimp only
      split_ifs with hc
      · rfl
      · have hz : rp.proceeds - (settledPool (effectiveTime later) rp bs).proceeds = 0 := by omega
        rw [hz, RexPool.credit_zero hbal]

theorem RexPools.ReturnInv.distributed {now later : BlockTimestamp} {r : RexPools}
    (h : r.ReturnInv now) (hle : now ≤ later) : (r.distributed later).ReturnInv later := by
  intro rp' hr'
  unfold RexPools.distributed at hr' ⊢
  cases hr : r.rexretpool with
  | none => simp [hr] at hr'
  | some rp =>
    obtain ⟨p, bs, hp, hb, hbal, hl⟩ := h rp hr
    simp only [hr, hp, hb] at hr' ⊢
    by_cases hlast : effectiveTime later ≤ rp.lastDistTime
    · rw [if_pos hlast] at hr' ⊢
      cases hr.symm.trans hr'
      exact ⟨p, bs, hp, hb, hbal, hl.later hle⟩
    · rw [if_neg hlast] at hr' ⊢
      cases hr'
      exact ⟨_, _, rfl, rfl, RexPool.credit_balanced p _, hl.settled hle (not_le.mp hlast)⟩

lemma settledBuckets_settled {eff eff' : ℕ} {rp : RexReturnPool} {bs : List Bucket}
    (he' : DistTime eff') (hle : eff ≤ eff') :
    settledBuckets eff' (settledPool eff rp bs) (settledBuckets eff rp bs) =
      settledBuckets eff' rp bs := by
  have hmax := he'.not_max
  have hlive : ∀ l : List Bucket, live eff' (live eff l) = live eff' l := by
    intro l
    rw [live, live, List.filter_filter]
    apply List.filter_congr
    intro b _
    by_cases hb : eff' < b.first + distSpan
    · simp [hb, lt_of_le_of_lt hle hb]
    · simp [hb]
  have happ : ∀ k l, live eff' (k ++ l) = live eff' k ++ live eff' l :=
    fun k l => List.filter_append k l
  have hnil : live eff' [] = [] := rfl
  simp only [settledBuckets, happ, hlive]
  by_cases hp : rp.pendingBucketTime ≤ eff
  · have h1 : ripe eff' (settledPool eff rp bs) = [] :=
      ripe_eq_nil (by simp [settledPool, hp, hmax])
    have h2 : ripe eff' rp = ripe eff rp := by simp [ripe, hp, le_trans hp hle]
    rw [h1, h2, hnil, List.append_nil]
  · have h1 : ripe eff' (settledPool eff rp bs) = ripe eff' rp := by simp [ripe, settledPool, hp]
    rw [h1, ripe_eq_nil hp, hnil, List.append_nil]

lemma settledPool_settled {eff eff' : ℕ} {rp : RexReturnPool} {bs : List Bucket}
    (he' : DistTime eff') (hle : eff ≤ eff') :
    settledPool eff' (settledPool eff rp bs) (settledBuckets eff rp bs) =
      settledPool eff' rp bs := by
  have hmax := he'.not_max
  have hb := @settledBuckets_settled eff eff' rp bs he' hle
  unfold settledPool at hb ⊢
  dsimp only at hb ⊢
  rw [hb]
  by_cases hp : rp.pendingBucketTime ≤ eff
  · simp [hp, le_trans hp hle, hmax]
  · simp [hp]

/-- Distributing twice is distributing once at the later time. -/
theorem distributed_distributed {now t1 t2 : BlockTimestamp} {r : RexPools} (h : r.ReturnInv now)
    (h2 : t1 ≤ t2) : (r.distributed t1).distributed t2 = r.distributed t2 := by
  cases hr : r.rexretpool with
  | none => simp [RexPools.distributed, hr]
  | some rp =>
    obtain ⟨p, bs, hp, hb, hbal, hl⟩ := h rp hr
    have hmono := effectiveTime_mono h2
    by_cases hlast : effectiveTime t1 ≤ rp.lastDistTime
    · have hsame : r.distributed t1 = r := by simp [RexPools.distributed, hr, hp, hb, hlast]
      rw [hsame]
    · have hlast2 : ¬ effectiveTime t2 ≤ rp.lastDistTime := by omega
      by_cases heq : effectiveTime t2 ≤ effectiveTime t1
      · have hsame : effectiveTime t2 = effectiveTime t1 := le_antisymm heq hmono
        simp only [RexPools.distributed, hr, hp, hb, hlast, if_false, settledPool, hsame,
          le_refl, if_true]
      · have hs := @settledPool_settled _ _ rp bs (effectiveTime_dist t2) hmono
        have hb2 := @settledBuckets_settled _ _ rp bs (effectiveTime_dist t2) hmono
        have hd : (settledPool (effectiveTime t1) rp bs).lastDistTime = effectiveTime t1 := rfl
        simp only [RexPools.distributed, hr, hp, hb, hlast, hlast2, if_false, hd, heq, hs, hb2,
          RexPool.credit_credit]
        congr 3
        omega

def RexPools.collected (now : BlockTimestamp) (fee : ℤ) (r : RexPools) : RexPools :=
  match r.rexretpool with
  | none =>
    { r with
      rexretpool := some
        { lastDistTime := bucketTime now
          pendingBucketProceeds := fee
          pendingBucketTime := bucketTime now
          proceeds := fee }
      retbuckets := some [] }
  | some rp =>
    { r with
      rexretpool := some { rp with
        pendingBucketProceeds := rp.pendingBucketProceeds + fee
        proceeds := rp.proceeds + fee
        pendingBucketTime :=
          if rp.pendingBucketTime = timeMax then bucketTime now else rp.pendingBucketTime } }

theorem addToRexReturnPool_eq {now later : BlockTimestamp} {r : RexPools} {fee : ℤ}
    (h : r.ReturnInv now) (hle : now ≤ later) : addToRexReturnPool later fee r =
      .ok (if fee ≤ 0 then r.distributed later else (r.distributed later).collected later fee) := by
  unfold addToRexReturnPool RexPools.collected
  rw [updateRexPool_eq h hle]
  simp only [Bind.bind, Except.bind, Pure.pure, Except.pure]
  split_ifs with hf
  · rfl
  · cases (r.distributed later).rexretpool <;> rfl

theorem RexPools.ReturnInv.collected {now : BlockTimestamp} {r : RexPools} {fee : ℤ} {p : RexPool}
    (h : r.ReturnInv now) (hp : r.rexpool = some p) (hbal : p.Balanced) (hfee : 0 < fee) :
    (r.collected now fee).ReturnInv now := by
  obtain ⟨hlt, -, hal⟩ := bucketTime_spec now
  intro rp' hr'
  unfold RexPools.collected at hr' ⊢
  cases hr : r.rexretpool with
  | none =>
    simp only [hr] at hr' ⊢
    cases hr'
    refine ⟨p, [], hp, rfl, hbal, ?_⟩
    constructor <;> simp [outstanding, rateSum, Ascending.nil, hal, hfee.le]
  | some rp =>
    simp only [hr] at hr' ⊢
    cases hr'
    obtain ⟨p', bs, hp', hb, -, hl⟩ := h rp hr
    refine ⟨p, bs, hp, hb, hbal, { hl with
      proceeds := ?_, last_pending := ?_, pending_nonneg := ?_, pending := ?_ }⟩
    · have := hl.proceeds
      dsimp only
      omega
    · dsimp only
      split_ifs
      · exact hl.last_le
      · exact hl.last_pending
    · have := hl.pending_nonneg
      dsimp only
      omega
    · right
      dsimp only
      split_ifs with hmax
      · exact ⟨le_refl _, hal, fun b hb => lt_of_le_of_lt (hl.past b hb) hlt⟩
      · rcases hl.pending with ⟨hm, -⟩ | hpend
        · exact absurd hm hmax
        · exact hpend

def RexPools.returnProceeds (r : RexPools) : ℤ := (r.rexretpool.map RexReturnPool.proceeds).getD 0

/-- What the rows can still pay out of buckets later than `θ`. -/
def RexPools.dueAfter (θ : ℕ) (r : RexPools) : ℤ :=
  match r.rexretpool, r.retbuckets with
  | some rp, some bs =>
    (if θ < rp.pendingBucketTime then rp.pendingBucketProceeds else 0) +
      ((bs.filter fun b => θ < b.first).map fun b => b.second * (totalIntervals : ℤ)).sum
  | _, _ => 0

/-- What leaves the return pool arrives in the REX pool. -/
lemma distributed_rexpool {now later : BlockTimestamp} {r : RexPools} {p : RexPool}
    (h : r.ReturnInv now) (hp : r.rexpool = some p) (hbal : p.Balanced) :
    (r.distributed later).rexpool =
      some (p.credit (r.returnProceeds - (r.distributed later).returnProceeds)) := by
  unfold RexPools.distributed RexPools.returnProceeds
  cases hr : r.rexretpool with
  | none => simp [hr, hp, RexPool.credit_zero hbal]
  | some rp =>
    obtain ⟨p', bs, hp', hb, -, hl⟩ := h rp hr
    cases hp.symm.trans hp'
    simp only [hp, hb]
    by_cases hlast : effectiveTime later ≤ rp.lastDistTime
    · simp [hlast, hr, hp, RexPool.credit_zero hbal]
    · simp [hlast]

lemma returnProceeds_le {now later : BlockTimestamp} {r : RexPools} (h : r.ReturnInv now) :
    (r.distributed later).returnProceeds ≤ r.returnProceeds := by
  unfold RexPools.distributed RexPools.returnProceeds
  cases hr : r.rexretpool with
  | none => simp [hr]
  | some rp =>
    obtain ⟨p', bs, hp, hb, -, hl⟩ := h rp hr
    simp only [hp, hb]
    by_cases hlast : effectiveTime later ≤ rp.lastDistTime
    · simp [hlast, hr]
    · simpa [hlast] using hl.settled_le (not_le.mp hlast)

lemma dueAfter_distributed {now later : BlockTimestamp} {r : RexPools} (h : r.ReturnInv now)
    (θ : ℕ) : (r.distributed later).dueAfter θ ≤ r.dueAfter θ := by
  cases hr : r.rexretpool with
  | none => simp [RexPools.distributed, hr]
  | some rp =>
    obtain ⟨p, bs, hp, hb, -, hl⟩ := h rp hr
    by_cases hlast : effectiveTime later ≤ rp.lastDistTime
    · simp [RexPools.distributed, hr, hp, hb, hlast]
    · have hsub : ∀ l : List Bucket, (∀ b ∈ l, 0 ≤ b.second) →
          (((live (effectiveTime later) l).filter fun b => θ < b.first).map fun b =>
            b.second * (totalIntervals : ℤ)).sum ≤
          ((l.filter fun b => θ < b.first).map fun b => b.second * (totalIntervals : ℤ)).sum := by
        intro l hnn
        apply List.Sublist.sum_le_sum
        · exact (List.filter_sublist.filter _).map _
        · intro x hx
          obtain ⟨b, hb, rfl⟩ := List.mem_map.mp hx
          exact Int.mul_nonneg (hnn b (List.mem_filter.mp hb).1) (Int.natCast_nonneg _)
      have hj := hsub (bs ++ ripe (effectiveTime later) rp) fun b hb =>
        (hl.mem_joined (effectiveTime_dist later) (not_le.mp hlast) hb).2.1
      simp only [RexPools.distributed, hr, hp, hb, hlast, if_false, RexPools.dueAfter]
      refine le_trans (add_le_add_right hj _) ?_
      rw [List.filter_append, List.map_append, List.sum_append]
      have hnn := hl.pending_nonneg
      simp only [settledPool]
      by_cases hpend : rp.pendingBucketTime ≤ effectiveTime later
      · have hd := Int.mul_ediv_self_le (x := rp.pendingBucketProceeds)
          (k := totalIntervals) (by decide)
        simp only [hpend, if_true, ripe, List.filter_cons, List.filter_nil]
        by_cases hθ : θ < rp.pendingBucketTime
        · have hm := Int.mul_comm (totalIntervals : ℤ) (rp.pendingBucketProceeds / totalIntervals)
          simp only [hθ, decide_true, if_true, List.map_cons, List.map_nil,
            List.sum_cons, List.sum_nil,
            ite_self]
          omega
        · simp [hθ]
      · simp [hpend, ripe_eq_nil hpend]

lemma dueAfter_collected {now : BlockTimestamp} {r : RexPools} {fee : ℤ} (h : r.ReturnInv now)
    (hfee : 0 < fee) (θ : ℕ) : (r.collected now fee).dueAfter θ ≤
      r.dueAfter θ + if θ < bucketTime now then fee else 0 := by
  cases hr : r.rexretpool with
  | none => simp [RexPools.collected, RexPools.dueAfter, hr]
  | some rp =>
    obtain ⟨p, bs, hp, hb, -, hl⟩ := h rp hr
    simp only [RexPools.collected, RexPools.dueAfter, hr, hb]
    rcases hl.pending with ⟨hmax, hz⟩ | ⟨hle, -, -⟩
    · simp only [hmax, hz, if_true, ite_self]
      split_ifs <;> omega
    · have hlt := bucketTime_lt_max now
      have hne : rp.pendingBucketTime ≠ timeMax := by omega
      simp only [hne, if_false]
      split_ifs <;> omega

lemma returnProceeds_collected (now : BlockTimestamp) (r : RexPools) (fee : ℤ) :
    (r.collected now fee).returnProceeds = r.returnProceeds + fee := by
  unfold RexPools.collected RexPools.returnProceeds
  cases r.rexretpool <;> simp

lemma collected_rexpool (now : BlockTimestamp) (r : RexPools) (fee : ℤ) :
    (r.collected now fee).rexpool = r.rexpool := by
  unfold RexPools.collected
  cases r.rexretpool <;> rfl

/-- A distribution leaves nothing behind of the buckets whose span is over. -/
lemma returnProceeds_le_due {now later : BlockTimestamp} {r : RexPools} {θ : ℕ}
    (h : r.ReturnInv now) (hle : now ≤ later) (hθ : θ + distSpan ≤ effectiveTime later) :
    (r.distributed later).returnProceeds ≤ (r.distributed later).dueAfter θ := by
  have hinv := h.distributed hle
  have hlast : ∀ rp, (r.distributed later).rexretpool = some rp →
    effectiveTime later ≤ rp.lastDistTime := by
    intro rp' hr'
    unfold RexPools.distributed at hr'
    cases hr : r.rexretpool with
    | none => simp [hr] at hr'
    | some rp =>
      obtain ⟨p, bs, hp, hb, -, hl⟩ := h rp hr
      simp only [hr, hp, hb] at hr'
      by_cases hlast : effectiveTime later ≤ rp.lastDistTime
      · rw [if_pos hlast] at hr'
        cases hr.symm.trans hr'
        exact hlast
      · rw [if_neg hlast] at hr'
        cases hr'
        exact le_refl _
  unfold RexPools.returnProceeds RexPools.dueAfter
  cases hr : (r.distributed later).rexretpool with
  | none => simp
  | some rp =>
    obtain ⟨p, bs, hp, hb, -, hl⟩ := hinv rp hr
    have hlr := hlast rp hr
    have hpend : θ < rp.pendingBucketTime := by
      have := hl.last_pending
      simp only [distSpan, totalIntervals, distInterval] at hθ
      omega
    have hall : bs.filter (fun b => θ < b.first) = bs := by
      apply List.filter_eq_self.mpr
      intro b hb
      have := (hl.window b hb).2
      simp only [decide_eq_true_eq]
      omega
    have hout : outstanding rp.lastDistTime bs ≤
      (bs.map fun b => b.second * (totalIntervals : ℤ)).sum := by
      apply List.sum_le_sum
      intro b hb
      have hk : (0 : ℤ) ≤ ((rp.lastDistTime - b.first) / distInterval : ℕ) := Int.natCast_nonneg _
      exact mul_le_mul_of_nonneg_left (by linarith) (hl.rate_nonneg b hb)
    simp only [hb, hpend, if_true, hall, Option.map_some, Option.getD_some, hl.proceeds]
    omega

inductive PoolCall
  | addToRexReturnPool (fee : ℤ)
  | updateRexPool

def PoolCall.run (now : BlockTimestamp) : PoolCall → RexPools → Except String RexPools
  | .addToRexReturnPool fee, r => TelosSystem.addToRexReturnPool now fee r
  | .updateRexPool, r => TelosSystem.updateRexPool now r

def PoolCall.fee : PoolCall → ℤ
  | .addToRexReturnPool fee => max fee 0
  | .updateRexPool => 0

def poolStep (now : BlockTimestamp) (c : PoolCall) (r r' : RexPools) : Prop := c.run now r = .ok r'

def feesWhere (q : BlockTimestamp → Prop) [DecidablePred q]
    (tr : List (BlockTimestamp × PoolCall)) : ℤ :=
  (tr.map fun x => if q x.1 then x.2.fee else 0).sum

structure PoolRun (t₀ : BlockTimestamp) (r₀ : RexPools) (p₀ : RexPool)
    (tr : List (BlockTimestamp × PoolCall)) (t : BlockTimestamp) (r : RexPools) : Prop where
  inv : r.ReturnInv t
  pool : r.rexpool = some (p₀.credit
    (r₀.returnProceeds + feesWhere (fun _ => True) tr - r.returnProceeds))
  due : ∀ θ, r.dueAfter θ ≤ r₀.dueAfter θ + feesWhere (fun u => θ < bucketTime u) tr

lemma feesWhere_snoc (q : BlockTimestamp → Prop) [DecidablePred q]
    (tr : List (BlockTimestamp × PoolCall)) (t : BlockTimestamp) (c : PoolCall) :
    feesWhere q (tr ++ [(t, c)]) = feesWhere q tr + if q t then c.fee else 0 := by
  simp [feesWhere]

lemma PoolRun.step {t₀ t t' : BlockTimestamp} {r₀ r r' : RexPools} {p₀ : RexPool} {c : PoolCall}
    {tr : List (BlockTimestamp × PoolCall)} (h : PoolRun t₀ r₀ p₀ tr t r) (hle : t ≤ t')
    (hs : poolStep t' c r r') : PoolRun t₀ r₀ p₀ (tr ++ [(t', c)]) t' r' := by
  have hd := h.inv.distributed hle
  have hpool : (r.distributed t').rexpool = some (p₀.credit
      (r₀.returnProceeds + feesWhere (fun _ => True) tr - (r.distributed t').returnProceeds)) := by
    rw [distributed_rexpool h.inv h.pool (RexPool.credit_balanced _ _), RexPool.credit_credit]
    congr 2
    omega
  have hidle : c.fee = 0 → PoolRun t₀ r₀ p₀ (tr ++ [(t', c)]) t' (r.distributed t') := by
    intro h0
    refine ⟨hd, ?_, fun θ => ?_⟩
    · rw [hpool, feesWhere_snoc, h0, ite_self, Int.add_zero]
    · rw [feesWhere_snoc, h0, ite_self, Int.add_zero]
      exact le_trans (dueAfter_distributed h.inv θ) (h.due θ)
  unfold poolStep at hs
  cases c with
  | updateRexPool =>
    rw [PoolCall.run, updateRexPool_eq h.inv hle] at hs
    cases hs
    exact hidle rfl
  | addToRexReturnPool fee =>
    rw [PoolCall.run, addToRexReturnPool_eq h.inv hle] at hs
    cases hs
    split_ifs with hf
    · exact hidle (max_eq_right hf)
    · have hfee : (PoolCall.addToRexReturnPool fee).fee = fee := max_eq_left (not_le.mp hf).le
      refine ⟨hd.collected hpool (RexPool.credit_balanced _ _) (not_le.mp hf), ?_, fun θ => ?_⟩
      · rw [collected_rexpool, hpool, feesWhere_snoc, hfee,
          returnProceeds_collected, if_pos trivial]
        congr 2
        omega
      · have h1 := dueAfter_collected hd (not_le.mp hf) θ
        have h2 := @dueAfter_distributed _ t' _ h.inv θ
        have h3 := h.due θ
        rw [feesWhere_snoc, hfee]
        omega

theorem poolRun {t₀ t : BlockTimestamp} {r₀ r : RexPools} {p₀ : RexPool}
    {tr : List (BlockTimestamp × PoolCall)} (h0 : r₀.ReturnInv t₀) (hp : r₀.rexpool = some p₀)
    (hbal : p₀.Balanced) (h : TimedRun poolStep t₀ r₀ tr t r) : PoolRun t₀ r₀ p₀ tr t r := by
  refine TimedRun.invariant (PoolRun t₀ r₀ p₀) (fun _ => True) ⟨h0, ?_, ?_⟩ ?_
    (fun _ _ => trivial) h
  · rw [hp, feesWhere, List.map_nil, List.sum_nil, Int.add_zero, Int.sub_self,
      RexPool.credit_zero hbal]
  · intro θ
    rw [feesWhere, List.map_nil, List.sum_nil, Int.add_zero]
  · intro tr t t' c r r' hi hle _ hs
    exact hi.step hle hs

end TelosSystem
