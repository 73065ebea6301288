import TelosSystem.ActionEffects
import TelosSystem.RexPurchase

/-! The charge for missed blocks. The metrics belong to the last proposed schedule, and a count
above twelve, which the correction can leave, is reset before a round is charged. -/
namespace TelosSystem
open Ledger

/-- What elections and the count of missed blocks read and write of the data of block production. -/
def Production.duties (p : Production) :
    RotationState × ScheduleMetrics × BlockTimestamp × ℕ × List (BlockTimestamp × List Name) :=
  (p.rotation, p.metrics, p.lastProducerScheduleUpdate, p.lastProducerScheduleSize, p.proposed)

def DutiesKept (s s' : State) : Prop := s'.production.duties = s.production.duties

namespace DutiesKept
variable {s s' s'' : State}

lemma refl (s : State) : DutiesKept s s := rfl

lemma trans (h : DutiesKept s s') (h' : DutiesKept s' s'') : DutiesKept s s'' := Eq.trans h' h

lemma metrics (h : DutiesKept s s') : s'.production.metrics = s.production.metrics :=
  congrArg (fun d => d.2.1) h

lemma size (h : DutiesKept s s') :
    s'.production.lastProducerScheduleSize = s.production.lastProducerScheduleSize :=
  congrArg (fun d => d.2.2.2.1) h

lemma proposed (h : DutiesKept s s') : s'.production.proposed = s.production.proposed :=
  congrArg (fun d => d.2.2.2.2) h

end DutiesKept

section
variable [FloatOps] {now : BlockTimestamp} {π : Promise} {s s' : State}

theorem Effect.production (h : Effect now π s s') (hn : ¬ π.produce) :
    s'.production = s.production := by
  cases h with
  | stake h =>
    obtain ⟨staking, resources, token, rfl, -⟩ := moveStake_frame h
    rfl
  | market h =>
    obtain ⟨resources, powerup, rfl⟩ := h.frame
    rfl
  | close timestamp names =>
    obtain ⟨auctions, pools, h⟩ := closeAuction_eq timestamp now s
    rw [h]
  | produce produce => exact absurd produce hn
  | _ => rfl

theorem Effects.production (h : Effects now π s s') (hn : ¬ π.produce) :
    s'.production = s.production := by
  induction h with
  | refl => rfl
  | tail _ hstep ih => exact (hstep.production hn).trans ih

omit [FloatOps] in
theorem Purchase.production (h : Purchase now π s s') : s'.production = s.production := by
  obtain ⟨owner, payment, delta, mid, -, h0, hf, hpur⟩ := h.parts
  cases hf with
  | fund debit =>
    obtain ⟨received, p', stake, -, rfl⟩ := purchase_ok hpur
    rfl
  | stake net cpu sum hu paid =>
    obtain ⟨staking, resources, rfl⟩ := unstakeBandwidth_frame hu
    obtain ⟨received, p', stake, -, rfl⟩ := purchase_ok hpur
    rfl

theorem step.production {l : Label} (h : step now l s s') (hp : ¬ l.action.Produces) :
    s'.production = s.production := by
  obtain ⟨mid, hm, he⟩ := exec_decomposed h
  have hk := he.production hp
  rcases hm with rfl | hpur
  · exact hk
  · exact hk.trans hpur.production

omit [FloatOps] in
lemma claimrewards_duties {ctx : Context} {owner : Name} (h : claimrewards ctx owner s = .ok s') :
    DutiesKept s s' := by
  simp only [claimrewards, requireAuth, bind_ok, check_ok, exists_const, require_ok, pure_ok] at h
  obtain ⟨-, p, -, -, -, pay, -, s1, h1, rfl⟩ := h
  obtain ⟨t, rfl, -⟩ := inlineTransfer_ok h1
  exact DutiesKept.refl s

omit [FloatOps] in
lemma transferIfPositive_production {source dest : Name} {amount : ℤ} {memoSize : ℕ}
    (h : s.transferIfPositive source dest amount memoSize = .ok s') :
    s'.production = s.production := by
  unfold State.transferIfPositive at h
  split_ifs at h
  · obtain ⟨t, rfl, -⟩ := inlineTransfer_ok h
    rfl
  · cases h
    rfl

omit [FloatOps] in
lemma issueIfPositive_production {amount : ℤ} {memoSize : ℕ}
    (h : s.issueIfPositive amount memoSize = .ok s') : s'.production = s.production := by
  unfold State.issueIfPositive at h
  split_ifs at h
  · simp only [State.inlineIssue, bind_ok, pure_ok] at h
    obtain ⟨t, -, rfl⟩ := h
    rfl
  · cases h
    rfl

omit [FloatOps] in
lemma fillBucket_production {pay : Payroll} (h : fillBucket now pay s = .ok s') : ∃ bucket fill,
    s'.production = { s.production with
      perblockBucket := bucket, lastPervoteBucketFill := fill } := by
  simp only [fillBucket, bind_ok, require_ok, pure_ok] at h
  obtain ⟨held, -, s1, h1, s2, h2, s3, h3, s4, h4, rfl⟩ := h
  have hp : s4.production = s.production :=
    (transferIfPositive_production h4).trans ((transferIfPositive_production h3).trans
      ((issueIfPositive_production h2).trans (transferIfPositive_production h1)))
  exact ⟨_, _, by rw [← hp]; rfl⟩

omit [FloatOps] in
lemma fillBucket_duties {pay : Payroll} (h : fillBucket now pay s = .ok s') : DutiesKept s s' := by
  obtain ⟨bucket, fill, hp⟩ := fillBucket_production h
  rw [DutiesKept, hp]
  rfl

omit [FloatOps] in
lemma payProducers_duties (pay : ℕ → ℤ) (index : ℕ) (l : List (Name × ProducerInfo)) (s : State) :
    DutiesKept s (payProducers pay index l s) := by
  induction l generalizing index s with
  | nil => exact DutiesKept.refl s
  | cons e l ih =>
    unfold payProducers
    split_ifs
    · exact ih index s
    · exact DutiesKept.refl s
    · exact DutiesKept.trans rfl (ih (index + 1) _)

omit [FloatOps] in
lemma takeSnapshot_duties {b : Block} (h : takeSnapshot now b s = .ok s') : DutiesKept s s' := by
  unfold takeSnapshot at h
  split_ifs at h
  · simp only [claimrewardsSnapshot, bind_ok, check_ok, exists_const, pure_ok] at h
    obtain ⟨s1, ⟨-, h⟩, rfl⟩ := h
    split_ifs at h
    · cases h
      rfl
    · simp only [bind_ok, pure_ok] at h
      obtain ⟨s2, h2, rfl⟩ := h
      exact (fillBucket_duties h2).trans (payProducers_duties _ _ _ s2)
    · simp only [bind_ok, pure_ok] at h
      obtain ⟨s2, rfl, rfl⟩ := h
      exact payProducers_duties _ _ _ s
  · cases h
    rfl

end

structure MetricsOf (size : ℕ) (l : List (Name × ℕ)) : Prop where
  size : l.length = size
  nodup : (l.map Prod.fst).Nodup

def Bounded (l : List (Name × ℕ)) : Prop := ∀ pm ∈ l, pm.2 ≤ maxBlockPerCycle

/-- The counts can be charged unless the correction counter is positive. -/
structure RoundInv (s : State) : Prop where
  metrics : MetricsOf s.production.lastProducerScheduleSize s.production.metrics.producersMetric
  bounded : s.production.metrics.blockCounterCorrection ≤ 0 →
    Bounded s.production.metrics.producersMetric

lemma MetricsOf.of_names {size : ℕ} {l l' : List (Name × ℕ)} (h : MetricsOf size l)
    (hn : l'.map Prod.fst = l.map Prod.fst) : MetricsOf size l' := by
  have hlen := congrArg List.length hn
  rw [List.length_map, List.length_map] at hlen
  exact ⟨hlen.trans h.size, hn ▸ h.nodup⟩

namespace ScheduleMetrics
variable (producer : Name) (m : ScheduleMetrics)

lemma resetScheduleMetrics_names :
    (m.resetScheduleMetrics producer).producersMetric.map Prod.fst =
      m.producersMetric.map Prod.fst := by
  simp [resetScheduleMetrics, Function.comp_def]

lemma resetScheduleMetrics_bounded : Bounded (m.resetScheduleMetrics producer).producersMetric := by
  intro pm h
  simp only [resetScheduleMetrics, List.mem_map] at h
  obtain ⟨pm', -, rfl⟩ := h
  dsimp only
  split_ifs
  · exact Nat.sub_le _ _
  · exact le_refl _

lemma modifyFirst_names (p : Name × ℕ → Prop) [DecidablePred p] (f : ℕ → ℕ) (l : List (Name × ℕ)) :
    (modifyFirst p f l).map Prod.fst = l.map Prod.fst := by
  induction l with
  | nil => rfl
  | cons pm rest ih =>
    unfold modifyFirst
    split_ifs
    · rfl
    · rw [List.map_cons, List.map_cons, ih]

lemma modifyFirst_bounded (p : Name × ℕ → Prop) [DecidablePred p] {f : ℕ → ℕ} (hf : ∀ n, f n ≤ n)
    {l : List (Name × ℕ)} (h : Bounded l) : Bounded (modifyFirst p f l) := by
  induction l with
  | nil => exact h
  | cons pm rest ih =>
    obtain ⟨hpm, hrest⟩ := List.forall_mem_cons.mp h
    unfold modifyFirst
    split_ifs
    · exact List.forall_mem_cons.mpr ⟨(hf pm.2).trans hpm, hrest⟩
    · exact List.forall_mem_cons.mpr ⟨hpm, ih hrest⟩

lemma correct_names :
    (m.correct producer).producersMetric.map Prod.fst = m.producersMetric.map Prod.fst := by
  unfold correct
  dsimp only
  split_ifs
  · exact modifyFirst_names _ _ _
  · exact resetScheduleMetrics_names Name.empty m
  · rfl

lemma countTurn_producersMetric : (m.countTurn producer).producersMetric = m.producersMetric := by
  unfold countTurn
  split_ifs <;> rfl

lemma correct_positive {producer : Name} {m : ScheduleMetrics} (h : 0 < m.blockCounterCorrection) :
    (m.correct producer).lastOnblockCaller = producer := by
  rw [correct, if_pos h]

lemma countTurn_turn {producer : Name} {m : ScheduleMetrics}
    (h : (m.countTurn producer).lastOnblockCaller ≠ producer) : m.countTurn producer = m := by
  by_cases hc : m.blockCounterCorrection < 0
  · rw [countTurn, if_pos hc] at h
    exact absurd rfl h
  · rw [countTurn, if_neg hc]

/-- Only with a correction counter of zero does the block of another producer start a round. -/
lemma corrected_turn {producer : Name} {m : ScheduleMetrics}
    (h : ((m.correct producer).countTurn producer).lastOnblockCaller ≠ producer) :
    m.blockCounterCorrection ≤ 0 ∧ (m.correct producer).countTurn producer = m := by
  have hturn := countTurn_turn h
  rw [hturn] at h ⊢
  rcases le_or_gt m.blockCounterCorrection 0 with hc | hc
  · exact ⟨hc, by rw [correct, if_neg (not_lt.mpr hc)]⟩
  · exact absurd (correct_positive hc) h

lemma correct_bounded {producer : Name} {m : ScheduleMetrics}
    (h : m.blockCounterCorrection ≤ 0 → Bounded m.producersMetric)
    (hc : ((m.correct producer).countTurn producer).blockCounterCorrection ≤ 0) :
    Bounded ((m.correct producer).countTurn producer).producersMetric := by
  rw [countTurn_producersMetric]
  rcases le_or_gt m.blockCounterCorrection 0 with hm | hm
  · rw [correct, if_neg (not_lt.mpr hm)]
    exact h hm
  · by_cases heosio : m.lastOnblockCaller = systemAccount
    · -- the counter is still positive
      have hpos : (m.correct producer).blockCounterCorrection = m.blockCounterCorrection := by
        rw [correct, if_pos hm, if_pos heosio]
      rw [countTurn, if_neg (by omega), hpos] at hc
      omega
    · simp only [correct, if_pos hm, if_neg heosio]
      exact resetScheduleMetrics_bounded Name.empty m

end ScheduleMetrics

section
variable {now timestamp blockTime : BlockTimestamp} {producer : Name} {active : List Name}
  {accepted : List ProducerLocationPair → Bool} {completed : Bool} {s s' : State}

lemma updateElectedProducers_metrics (blockTime : BlockTimestamp)
    (accepted : List ProducerLocationPair → Bool) (sc : Schedule)
    {r : Option (List ProducerLocationPair) × Schedule}
    (hr : updateElectedProducers blockTime accepted sc = r) :
    (r.2.producersMetric = sc.producersMetric ∧
      r.2.lastProducerScheduleSize = sc.lastProducerScheduleSize) ∨
      ∃ top, r.1 = some top ∧ accepted top = true ∧
        r.2.producersMetric = top.map (fun p => (p.producerName, 12)) ∧
        r.2.lastProducerScheduleSize = top.length := by
  subst hr
  unfold updateElectedProducers
  dsimp only
  split_ifs with hempty haccepted
  · exact .inl ⟨rfl, rfl⟩
  · exact .inr ⟨_, rfl, haccepted, rfl, rfl⟩
  · exact .inl ⟨rfl, rfl⟩

/-- What an election does to the metrics: nothing, or they start afresh for an accepted schedule. -/
inductive MetricsElected (s s' : State) : Prop
  | kept (metrics : s'.production.metrics = s.production.metrics)
      (size : s'.production.lastProducerScheduleSize = s.production.lastProducerScheduleSize)
  | proposed {names : List Name} (nodup : names.Nodup)
      (metrics : s'.production.metrics = { s.production.metrics with
        producersMetric := names.map fun name => (name, maxBlockPerCycle) })
      (size : s'.production.lastProducerScheduleSize = names.length)

lemma setSchedule_metrics {sc : Schedule} {l : List (Name × ℕ)} (h : sc.producersMetric = l) :
    (s.setSchedule sc).production.metrics = { s.production.metrics with producersMetric := l } := by
  subst h
  rfl

lemma electProducers_metrics (h : electProducers now blockTime accepted s = .ok s') :
    MetricsElected s s' := by
  unfold electProducers at h
  have hm := updateElectedProducers_metrics blockTime accepted s.schedule rfl
  generalize updateElectedProducers blockTime accepted s.schedule = r at h hm
  obtain ⟨proposed, sc⟩ := r
  cases proposed with
  | none =>
    cases h
    rcases hm with ⟨hm, hs⟩ | ⟨top, ht, -⟩
    · exact .kept (setSchedule_metrics hm) hs
    · cases ht
  | some top =>
    simp only [bind_ok, check_ok, exists_const, pure_ok] at h
    obtain ⟨hnd, rfl⟩ := h
    rcases hm with ⟨hm, hs⟩ | ⟨top, ht, -, hm, hs⟩
    · exact .kept (setSchedule_metrics hm) hs
    · cases ht
      refine .proposed hnd (setSchedule_metrics ?_) (hs.trans (List.length_map _).symm)
      rw [List.map_map]
      exact hm

lemma MetricsElected.roundInv (h : MetricsElected s s') (hi : RoundInv s) : RoundInv s' := by
  cases h with
  | kept hm hs => exact ⟨hs ▸ hm ▸ hi.metrics, hm ▸ hi.bounded⟩
  | @proposed names hnd hm hs =>
    refine ⟨⟨?_, ?_⟩, fun _ pm hpm => ?_⟩
    · rw [hm, hs]
      exact List.length_map _
    · rw [hm]
      simpa [Function.comp_def] using hnd
    · rw [hm] at hpm
      obtain ⟨name, -, rfl⟩ := List.mem_map.mp hpm
      exact le_refl _

lemma DutiesKept.roundInv (h : DutiesKept s s') (hi : RoundInv s) : RoundInv s' := by
  constructor
  · rw [h.metrics, h.size]
    exact hi.metrics
  · rw [h.metrics]
    exact hi.bounded

lemma setMetrics_roundInv {m : ScheduleMetrics} (hi : RoundInv s)
    (hn : m.producersMetric.map Prod.fst = s.production.metrics.producersMetric.map Prod.fst)
    (hb : m.blockCounterCorrection ≤ 0 → Bounded m.producersMetric) : RoundInv (s.setMetrics m) :=
  ⟨hi.metrics.of_names hn, hb⟩

/-- The count of missed blocks keeps the invariant, and a round is complete only when no count
exceeds twelve. -/
lemma checkMissedBlocks_roundInv (hi : RoundInv s)
    (h : checkMissedBlocks now timestamp producer active accepted s = .ok (completed, s')) :
    RoundInv s' ∧ (completed = true → Bounded s'.production.metrics.producersMetric) := by
  unfold checkMissedBlocks at h
  dsimp only at h
  generalize hm : s.production.metrics = m at h
  have hb : m.blockCounterCorrection ≤ 0 → Bounded m.producersMetric := hm ▸ hi.bounded
  have hcorrected : ((m.correct producer).countTurn producer).producersMetric.map Prod.fst =
      s.production.metrics.producersMetric.map Prod.fst := by
    rw [ScheduleMetrics.countTurn_producersMetric, ScheduleMetrics.correct_names, hm]
  have hbounded : ((m.correct producer).countTurn producer).blockCounterCorrection ≤ 0 → _ :=
    ScheduleMetrics.correct_bounded hb
  split_ifs at h with heosio hactive hturn hinactive hround
  · cases h
    refine ⟨setMetrics_roundInv hi (by rw [hm]) fun hc => hb ?_, fun hf => by cases hf⟩
    dsimp only at hc
    omega
  · cases h
    exact ⟨setMetrics_roundInv hi hcorrected hbounded, fun hf => by cases hf⟩
  · simp only [bind_ok, pure_ok, Prod.mk.injEq] at h
    obtain ⟨s1, h1, rfl, rfl⟩ := h
    have hreset := setMetrics_roundInv
      (m := ((m.correct producer).countTurn producer).resetScheduleMetrics Name.empty)
      hi ((ScheduleMetrics.resetScheduleMetrics_names _ _).trans hcorrected)
      fun _ => ScheduleMetrics.resetScheduleMetrics_bounded _ _
    exact ⟨(electProducers_metrics h1).roundInv hreset, fun hf => by cases hf⟩
  · cases h
    obtain ⟨hc, hkept⟩ := ScheduleMetrics.corrected_turn hround.1
    rw [hkept] at hcorrected ⊢
    exact ⟨setMetrics_roundInv hi hcorrected fun _ => hb hc, fun _ => hb hc⟩
  · cases h
    refine ⟨setMetrics_roundInv hi ?_ fun hc => ?_, fun hf => by cases hf⟩
    · exact (ScheduleMetrics.modifyFirst_names _ _ _).trans hcorrected
    · exact ScheduleMetrics.modifyFirst_bounded _ (fun n => Nat.sub_le n 1) (hbounded hc)
  · cases h
    refine ⟨setMetrics_roundInv hi (by rw [hm]; rfl) fun hc => ?_, fun hf => by cases hf⟩
    simp only [ScheduleMetrics.await] at hc ⊢
    split_ifs at hc
    · omega
    · exact hb (by omega)

lemma countMissedBlocks_roundInv (hi : RoundInv s)
    (h : countMissedBlocks now timestamp producer active accepted s = .ok s') : RoundInv s' := by
  simp only [countMissedBlocks, bind_ok] at h
  obtain ⟨⟨completed, s1⟩, h1, h⟩ := h
  obtain ⟨h1i, -⟩ := checkMissedBlocks_roundInv hi h1
  cases completed with
  | false =>
    cases h
    exact h1i
  | true =>
    cases h
    have hcharged : RoundInv (updateMissedBlocksPerRotation now s1) :=
      DutiesKept.roundInv (s := s1) rfl h1i
    exact setMetrics_roundInv hcharged (ScheduleMetrics.resetScheduleMetrics_names _ _)
      fun _ => ScheduleMetrics.resetScheduleMetrics_bounded _ _

lemma electAndClose_roundInv {b : Block} (hi : RoundInv s) (h : electAndClose now b s = .ok s') :
    RoundInv s' := by
  unfold electAndClose at h
  split_ifs at h
  · simp only [bind_ok, pure_ok] at h
    obtain ⟨s1, h1, rfl⟩ := h
    obtain ⟨auctions, pools, hc⟩ := closeAuction_eq b.header.timestamp now s1
    rw [hc]
    exact DutiesKept.roundInv (s := s1) rfl ((electProducers_metrics h1).roundInv hi)
  · cases h
    exact hi

lemma countBlock_duties (producer : Name) (s : State) : DutiesKept s (countBlock producer s) := by
  unfold countBlock
  split
  · rfl
  · rfl

end

section
variable [FloatOps] {now : BlockTimestamp} {s s' : State}

lemma onblock_roundInv {ctx : Context} {b : Block} (hi : RoundInv s)
    (h : onblock ctx b s = .ok s') : RoundInv s' := by
  obtain ⟨records, -, hstages⟩ := onblock_stages h
  cases hstages with
  | waiting inactive =>
    unfold activateNetwork
    split_ifs
    · exact DutiesKept.roundInv (s := s) rfl hi
    · exact DutiesKept.roundInv (s := s) rfl hi
  | @counted s₁ s₂ _ voting active missed votes elect snapshot =>
    have hstart : RoundInv ((s.record records).startFill ctx.now) :=
      DutiesKept.roundInv (s := s) rfl hi
    have hcount := (countBlock_duties b.header.producer s₁).roundInv
      (countMissedBlocks_roundInv hstart missed)
    have hvotes : RoundInv { countBlock b.header.producer s₁ with voting } :=
      DutiesKept.roundInv (s := countBlock b.header.producer s₁) rfl hcount
    have helect := electAndClose_roundInv hvotes elect
    exact (takeSnapshot_duties snapshot).roundInv helect

theorem step.roundInv {l : Label} (h : step now l s s') (hi : RoundInv s) : RoundInv s' := by
  obtain ⟨auth, action⟩ := l
  have hother : ¬ action.Produces → RoundInv s' := fun hp =>
    DutiesKept.roundInv (congrArg Production.duties (step.production h hp)) hi
  cases action with
  | claimrewards owner => exact (claimrewards_duties h).roundInv hi
  | onblock b => exact onblock_roundInv hi h
  | _ => exact hother id

/-- The state in which a block charges for a round, if it completes one. -/
def completedRound (now : BlockTimestamp) (b : Block) (s : State) : Option State :=
  match recordBlock b.header s with
  | .error _ => none
  | .ok s₁ =>
    match checkMissedBlocks now b.header.timestamp b.header.producer b.activeProducers b.accepted
      (s₁.startFill now) with
    | .ok (true, s₂) => if s.threshActivatedStakeTime = 0 then none else some s₂
    | _ => none

omit [FloatOps] in
lemma completedRound_some {b : Block} {s₁ : State} (h : completedRound now b s = some s₁) :
    ∃ records, addToBlockinfoTable wrappingSub b.header s.production.blockinfo = .ok records ∧
      s.threshActivatedStakeTime ≠ 0 ∧
      checkMissedBlocks now b.header.timestamp b.header.producer b.activeProducers b.accepted
        ((s.record records).startFill now) = .ok (true, s₁) := by
  unfold completedRound at h
  split at h
  · cases h
  · rename_i s₂ h₂
    simp only [recordBlock, bind_ok, pure_ok] at h₂
    obtain ⟨records, hr, rfl⟩ := h₂
    split at h
    · rename_i s₃ h₃
      split_ifs at h with hz
      cases h
      exact ⟨records, hr, hz, h₃⟩
    · cases h

def chargeOf (producers : Table Name ProducerInfo) (metrics : List (Name × ℕ)) (name : Name) : ℕ :=
  if (producers.lookup name).any
    (·.isActive) then ((metrics.filter fun pm => pm.1 = name).map Prod.snd).sum else 0

/-- The rows of the producers after the charge of a complete round. -/
def chargeRound (s : State) : Table Name ProducerInfo :=
  (s.production.metrics.producersMetric.foldl chargeMetric (s.voting.producers, [])).1

def ProducerInfo.charged (p : ProducerInfo) (missed : ℕ) : ProducerInfo :=
  { p with missedBlocksPerRotation := p.missedBlocksPerRotation + UInt32.ofNat missed }

omit [FloatOps] in
@[simp] lemma ProducerInfo.charged_zero (p : ProducerInfo) : p.charged 0 = p := by
  simp [charged]

omit [FloatOps] in
lemma ProducerInfo.charged_add (p : ProducerInfo) (m n : ℕ) :
    (p.charged m).charged n = p.charged (m + n) := by
  simp [charged, UInt32.ofNat_add, UInt32.add_assoc]

omit [FloatOps] in
lemma chargeMetric_other {acc : Table Name ProducerInfo × List (Name × ProducerInfo)}
    {pm : Name × ℕ} {name : Name} (h : name ≠ pm.1) :
    (chargeMetric acc pm).1.lookup name = acc.1.lookup name := by
  unfold chargeMetric
  split
  · rfl
  · dsimp only
    split_ifs
    · exact AList.lookup_insert_ne h
    · exact AList.lookup_insert_ne h
    all_goals rfl

omit [FloatOps] in
lemma chargeMetric_charged (acc : Table Name ProducerInfo × List (Name × ProducerInfo))
    (pm : Name × ℕ) :
    (chargeMetric acc pm).1.lookup pm.1 =
      (acc.1.lookup pm.1).map fun p => if p.isActive then p.charged pm.2 else p := by
  unfold chargeMetric
  cases hp : acc.1.lookup pm.1 with
  | none => exact hp
  | some p =>
    by_cases ha : p.isActive = true
    · by_cases hpos : 0 < pm.2
      · simp [ha, hpos, ProducerInfo.charged]
      · simp [ha, hp, Nat.eq_zero_of_not_pos hpos]
    · simp [ha, hp]

omit [FloatOps] in
lemma charge_lookup (metrics : List (Name × ℕ))
    (acc : Table Name ProducerInfo × List (Name × ProducerInfo)) (name : Name) :
    (metrics.foldl chargeMetric acc).1.lookup name =
      (acc.1.lookup name).map fun p => p.charged (chargeOf acc.1 metrics name) := by
  induction metrics generalizing acc with
  | nil => simp [chargeOf]
  | cons pm rest ih =>
    rw [List.foldl_cons, ih]
    by_cases hn : name = pm.1
    · subst hn
      rw [chargeMetric_charged, Option.map_map]
      cases hp : acc.1.lookup pm.1 with
      | none => rfl
      | some p =>
        by_cases ha : p.isActive = true
        · have hactive : (p.charged pm.2).isActive = true := ha
          simp [chargeOf, chargeMetric_charged, hp, ha, hactive, ProducerInfo.charged_add]
        · simp [chargeOf, chargeMetric_charged, hp, ha]
    · rw [chargeMetric_other hn]
      have hsame : chargeOf (chargeMetric acc pm).1 rest name =
        chargeOf acc.1 (pm :: rest) name := by
        simp [chargeOf, chargeMetric_other hn, Ne.symm hn]
      rw [hsame]

omit [FloatOps] in
/-- A name occurs once in the metrics, so that one count is charged. -/
lemma chargeOf_le {producers : Table Name ProducerInfo} {metrics : List (Name × ℕ)}
    (hb : Bounded metrics) (hn : (metrics.map Prod.fst).Nodup) (name : Name) :
    chargeOf producers metrics name ≤ maxBlockPerCycle := by
  unfold chargeOf
  split_ifs
  · induction metrics with
    | nil => exact Nat.zero_le _
    | cons pm rest ih =>
      rw [List.map_cons, List.nodup_cons] at hn
      obtain ⟨hpm, hrest⟩ := List.forall_mem_cons.mp hb
      by_cases heq : pm.1 = name
      · have hnone : rest.filter (fun pm => pm.1 = name) = [] :=
          List.filter_eq_nil_iff.mpr fun e he => by
            simpa using fun h => hn.1 (List.mem_map.mpr ⟨e, he, h.trans heq.symm⟩)
        simpa [heq, hnone] using hpm
      · simpa [heq] using ih hrest hn.2
  · exact Nat.zero_le _

/-- No schedule has been proposed and no block has been counted. -/
structure FreshMetrics (s : State) : Prop where
  metrics : s.production.metrics = {}
  size : s.production.lastProducerScheduleSize = 0

omit [FloatOps] in
lemma FreshMetrics.roundInv (h : FreshMetrics s) : RoundInv s := by
  refine ⟨⟨?_, ?_⟩, fun _ => ?_⟩
  · rw [h.metrics, h.size]
    rfl
  · rw [h.metrics]
    exact List.nodup_nil
  · rw [h.metrics]
    exact fun _ h => by cases h

/-- Over whole runs the metrics have the size of the last proposed schedule, and a block that
completes a round charges no producer more than twelve missed blocks. -/
theorem bounded_charge {t₀ t : BlockTimestamp} {s₀ : State} {tr : List (BlockTimestamp × Label)}
    (h0 : FreshMetrics s₀) (hrun : TimedRun step t₀ s₀ tr t s) :
    s.production.metrics.producersMetric.length = s.production.lastProducerScheduleSize ∧
    ∀ u b s₁, completedRound u b s = some s₁ →
      (∀ pm ∈ s₁.production.metrics.producersMetric, pm.2 ≤ maxBlockPerCycle) ∧
      ∀ name p, s₁.voting.producers.lookup name = some p →
        ∃ missed ≤ maxBlockPerCycle, (chargeRound s₁).lookup name = some (p.charged missed) := by
  have hi : RoundInv s := hrun.stateInvariant (fun _ s => RoundInv s) h0.roundInv fun hi _ hs =>
    hs.roundInv hi
  refine ⟨hi.metrics.size, fun u b s₁ h => ?_⟩
  obtain ⟨records, -, -, hcheck⟩ := completedRound_some h
  have hstart : RoundInv ((s.record records).startFill u) := DutiesKept.roundInv (s := s) rfl hi
  obtain ⟨h₁, hb⟩ := checkMissedBlocks_roundInv hstart hcheck
  refine ⟨hb rfl, fun name p hp => ?_⟩
  refine ⟨chargeOf s₁.voting.producers s₁.production.metrics.producersMetric name,
    chargeOf_le (hb rfl) h₁.metrics.nodup name, ?_⟩
  rw [chargeRound, charge_lookup, hp]
  rfl

omit [FloatOps]

def scheduledBlock (slots : ℕ) (producer : Name) (active : List Name) : Block where
  header := ⟨⟨(launchTime.slot + slots) % 2 ^ 32, Nat.mod_lt _ (by decide)⟩, producer,
    ⟨[0, 0, UInt8.ofNat (slots / 256), UInt8.ofNat slots] ++ List.replicate 28 0, by simp⟩⟩
  activeProducers := active
  accepted := fun _ => true
  payroll := ⟨0, 0, fun _ => 0⟩

def scheduled (slots : ℕ) (producer : Name) (active : List Name) : BlockTimestamp × Label :=
  let b := scheduledBlock slots producer active
  (b.header.timestamp, ⟨[systemAccount], .onblock b⟩)

/-- Alice and Bob are elected; each turn of theirs lasts one block. -/
def roundTrace : List (BlockTimestamp × Label) :=
  [(launchTime, ⟨[alice], .regproducer alice 0 0⟩),
    (launchTime, ⟨[bob], .regproducer bob 0 0⟩),
    (launchTime, ⟨[alice], .delegatebw alice alice ⟨100000, tlos⟩ ⟨100000, tlos⟩ false⟩),
    (launchTime, ⟨[alice], .voteproducer alice Name.empty [alice, bob]⟩),
    scheduled 200 bob [],
    scheduled 201 alice [],
    scheduled 202 bob [alice, bob],
    scheduled 203 alice [alice, bob],
    scheduled 204 bob [alice, bob],
    scheduled 205 alice [alice, bob],
    scheduled 206 bob [alice, bob]]

theorem roundTrace_charge :
    (launched roundTrace).production.metrics.producersMetric.length =
      (launched roundTrace).production.lastProducerScheduleSize ∧
    ∃ s₁, completedRound (scheduled 207 alice [alice, bob]).1
      (scheduledBlock 207 alice [alice, bob])
        (launched roundTrace) = some s₁ ∧
      ∀ pm ∈ s₁.production.metrics.producersMetric, pm.2 ≤ maxBlockPerCycle := by
  have hl : launches roundTrace = true := by decide +kernel
  have hc : (launchTime :: roundTrace.map Prod.fst).IsChain (· ≤ ·) := by decide
  have hround : (completedRound (scheduled 207 alice [alice, bob]).1
    (scheduledBlock 207 alice [alice, bob])
      (launched roundTrace)).isSome = true := by decide +kernel
  let := launchFloats
  have hfresh : FreshMetrics launchState := ⟨rfl, rfl⟩
  obtain ⟨hsize, hrounds⟩ := bounded_charge hfresh (launched_run hl hc)
  obtain ⟨s₁, hs⟩ := Option.isSome_iff_exists.mp hround
  exact ⟨hsize, s₁, hs, (hrounds _ _ _ hs).1⟩

end
end TelosSystem
