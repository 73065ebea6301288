import TelosSystem.PayLedger

/-! The amounts of a payment snapshot, with exact rationals for the contract's doubles. A first
pass over the index counts the producers that share the bucket, a second one pays them. -/
namespace TelosSystem
open Ledger

/-- `activecount`: the first pass counts active producers up to the first inactive one. -/
def activeCount : ℕ → List (Name × ProducerInfo) → ℕ
  | count, [] => count
  | count, e :: rest =>
    if activeRow e ∧ count < maxProducers then activeCount (count + 1) rest else count

def sumOfMultipliers (activecount : ℕ) : ℚ :=
  if activecount ≤ topProducers then activecount / 2 *
    (2 * (12 / 10) - (activecount - 1) * (2 / 100)) * 2
  else 42 + (activecount - 21) / 2 * (2 * (12 / 10) - (activecount - 22) * (2 / 100))

/-- The multiplier of a rank: producers of the schedule count twice. -/
def multiplier (index : ℕ) : ℚ :=
  if index ≤ topProducers then 2 * ((122 - 2 * index) / 100) else (164 - 2 * index) / 100

def payAmount (bucket : ℤ) (activecount index : ℕ) : ℤ :=
  truncate (bucket / sumOfMultipliers activecount * multiplier index)

lemma multiplier_pos {index : ℕ} (h : index ≤ maxProducers) : 0 < multiplier index := by
  have hq : (index : ℚ) ≤ 35 := by exact_mod_cast h
  unfold multiplier
  split_ifs <;> linarith

/-- The closed form is the sum of the multipliers, for every count. -/
lemma sumOfMultipliers_eq (n : ℕ) :
    sumOfMultipliers n = ∑ i ∈ Finset.range n, multiplier (i + 1) := by
  induction n with
  | zero => simp [sumOfMultipliers]
  | succ n ih =>
    rw [Finset.sum_range_succ, ← ih]
    unfold sumOfMultipliers multiplier topProducers
    rcases lt_trichotomy n 21 with h | rfl | h
    · rw [if_pos (by omega), if_pos (by omega), if_pos (by omega)]
      push_cast
      ring
    · norm_num
    · rw [if_neg (by omega), if_neg (by omega), if_neg (by omega)]
      push_cast
      ring

lemma sumOfMultipliers_pos {n : ℕ} (h : 0 < n) (hn : n ≤ maxProducers) :
    0 < sumOfMultipliers n := by
  rw [sumOfMultipliers_eq]
  refine Finset.sum_pos (fun i hi => multiplier_pos ?_) ⟨0, Finset.mem_range.mpr h⟩
  have := Finset.mem_range.mp hi
  omega

lemma truncate_eq_floor {x : ℚ} (h : 0 ≤ x) : truncate x = ⌊x⌋ := by
  rw [truncate, Int.tdiv_eq_ediv_of_nonneg (Rat.num_nonneg.mpr h)]
  exact Rat.floor_def'.symm

lemma payAmount_nonneg {bucket : ℤ} (hb : 0 ≤ bucket) {n index : ℕ} (hn : n ≤ maxProducers)
    (hi : index ≤ maxProducers) : 0 ≤ payAmount bucket n index := by
  have hsum : 0 ≤ sumOfMultipliers n := by
    rcases Nat.eq_zero_or_pos n with rfl | hpos
    · exact (sumOfMultipliers_eq 0).ge
    · exact (sumOfMultipliers_pos hpos hn).le
  have hshare : 0 ≤ (bucket : ℚ) / sumOfMultipliers n * multiplier index :=
    mul_nonneg (div_nonneg (by exact_mod_cast hb) hsum) (multiplier_pos hi).le
  rw [payAmount, truncate_eq_floor hshare]
  exact Int.floor_nonneg.mpr hshare

/-- Shares of the whole sum come to no more than the bucket. -/
lemma sum_payAmount_le {bucket : ℤ} (hb : 0 ≤ bucket) {n : ℕ} (hn : n ≤ maxProducers) :
    ∑ i ∈ Finset.range n, payAmount bucket n (i + 1) ≤ bucket := by
  rcases Nat.eq_zero_or_pos n with rfl | hpos
  · simpa using hb
  · have hsum := sumOfMultipliers_pos hpos hn
    have hle : ∀ i ∈ Finset.range n, ((payAmount bucket n (i + 1) : ℤ) : ℚ) ≤
        bucket / sumOfMultipliers n * multiplier (i + 1) := fun i hi => by
      have hi' := Finset.mem_range.mp hi
      have hshare : 0 ≤ (bucket : ℚ) / sumOfMultipliers n * multiplier (i + 1) :=
        mul_nonneg (div_nonneg (by exact_mod_cast hb) hsum.le) (multiplier_pos (by omega)).le
      rw [payAmount, truncate_eq_floor hshare]
      exact Int.floor_le _
    have hq : ((∑ i ∈ Finset.range n, payAmount bucket n (i + 1) : ℤ) : ℚ) ≤ bucket := by
      push_cast
      calc ∑ i ∈ Finset.range n, (payAmount bucket n (i + 1) : ℚ)
          ≤ ∑ i ∈ Finset.range n, bucket / sumOfMultipliers n * multiplier (i + 1) :=
          Finset.sum_le_sum hle
        _ = bucket / sumOfMultipliers n * sumOfMultipliers n := by
            rw [← Finset.mul_sum, ← sumOfMultipliers_eq]
        _ = bucket := div_mul_cancel₀ _ hsum.ne'
    exact_mod_cast hq

lemma activeCount_eq (count : ℕ) (l : List (Name × ProducerInfo)) (h : count ≤ maxProducers) :
    activeCount count l = min maxProducers (count + (l.takeWhile activeRow).length) := by
  induction l generalizing count with
  | nil => simp [activeCount, h]
  | cons e rest ih =>
    unfold activeCount
    by_cases ha : activeRow e = true
    · rw [List.takeWhile_cons_of_pos ha, List.length_cons]
      by_cases hc : count < maxProducers
      · rw [if_pos ⟨ha, hc⟩, ih (count + 1) hc]
        congr 1
        omega
      · rw [if_neg fun h => hc h.2]
        omega
    · rw [if_neg fun h => ha h.1, List.takeWhile_cons_of_neg ha, List.length_nil]
      omega

/-- The second pass pays the paid producers by their ranks. -/
lemma payProducers_eq (pay : ℕ → ℤ) (index : ℕ) (l : List (Name × ProducerInfo)) (s : State) :
    payProducers pay index l s =
      (((l.filter activeRow).take (maxProducers - index)).zipIdx (index + 1)).foldl
        (fun s e => payProducer (pay e.2) e.1.1 e.1.2 s) s := by
  induction l generalizing index s with
  | nil => simp [payProducers]
  | cons e rest ih =>
    obtain ⟨name, p⟩ := e
    unfold payProducers
    by_cases ha : activeRow (name, p) = true
    · have hp : p.isActive = true := ha
      rw [if_neg (by simp [hp]), List.filter_cons_of_pos ha]
      by_cases hi : maxProducers < index + 1
      · rw [if_pos hi, Nat.sub_eq_zero_of_le (by omega)]
        rfl
      · obtain ⟨m, hm⟩ : ∃ m, maxProducers - index = m + 1 := ⟨maxProducers - (index + 1), by omega⟩
        rw [if_neg hi, ih, hm, List.take_succ_cons, List.zipIdx_cons, List.foldl_cons]
        rw [show maxProducers - (index + 1) = m by omega]
    · have hp : p.isActive = false := by simpa [activeRow] using ha
      rw [if_pos hp, List.filter_cons_of_neg ha]
      exact ih index s

lemma payProducers_bucket (pay : ℕ → ℤ) (index : ℕ) (l : List (Name × ProducerInfo)) (s : State) :
    ((l.zipIdx (index + 1)).foldl (fun s e => payProducer (pay e.2) e.1.1 e.1.2 s)
      s).production.perblockBucket =
      s.production.perblockBucket - ∑ i ∈ Finset.range l.length, pay (index + i + 1) := by
  induction l generalizing index s with
  | nil => simp
  | cons e l ih =>
    rw [List.zipIdx_cons, List.foldl_cons, ih, List.length_cons, Finset.sum_range_succ']
    have hshift : ∀ i, pay (index + 1 + i + 1) = pay (index + (i + 1) + 1) := fun i => by
      congr 1
      omega
    simp only [hshift, payProducer, add_zero]
    omega

lemma filter_activeRow (l : List (Name × ProducerInfo)) :
    l.filter activeRow = l.takeWhile activeRow ++ (l.dropWhile activeRow).filter activeRow := by
  have hall : (l.takeWhile activeRow).filter activeRow = l.takeWhile activeRow :=
    List.filter_eq_self.mpr fun e he => List.all_eq_true.mp List.all_takeWhile e he
  conv_lhs => rw [← List.takeWhile_append_dropWhile (p := activeRow) (l := l),
    List.filter_append, hall]

/-- The first pass counts whom the second pays exactly when these stand at the front. -/
lemma paidProducers_length_iff (l : List (Name × ProducerInfo)) :
    (paidProducers l).length = activeCount 0 l ↔ paidProducers l <+: l := by
  rw [activeCount_eq 0 l (Nat.zero_le _), zero_add]
  have hfilter := filter_activeRow l
  have hlen : (paidProducers l).length = min maxProducers (l.filter activeRow).length :=
    List.length_take
  have hfront : (l.takeWhile activeRow).length ≤ (l.filter activeRow).length := by
    rw [hfilter, List.length_append]
    omega
  constructor
  · intro h
    have hpaid : paidProducers l = (l.takeWhile activeRow).take maxProducers := by
      rw [paidProducers, hfilter]
      by_cases hfull : maxProducers ≤ (l.takeWhile activeRow).length
      · exact List.take_append_of_le_length hfull
      · have hnone : (l.dropWhile activeRow).filter activeRow = [] := by
          rw [hlen, hfilter, List.length_append] at h
          exact List.length_eq_zero_iff.mp (by omega)
        rw [hnone, List.append_nil]
    rw [hpaid]
    exact (List.take_prefix _ _).trans (List.takeWhile_prefix _)
  · rintro ⟨rest, hrest⟩
    have hactive : ∀ e ∈ paidProducers l, activeRow e = true := fun e he =>
      List.of_mem_filter ((List.take_sublist _ _).subset he)
    have hcount : (l.takeWhile activeRow).length = (paidProducers l).length +
      (rest.takeWhile activeRow).length := by
      rw [← List.length_append, ← List.takeWhile_append_of_pos hactive, hrest]
    omega

/-- What a payment snapshot is to do with the bucket: pay as many producers as it has counted,
by multipliers that add up to its divisor, and no more than it holds. -/
structure SoundSnapshot (bucket : ℤ) (l : List (Name × ProducerInfo)) (s' : State) : Prop where
  count : (paidProducers l).length = activeCount 0 l
  divisor : sumOfMultipliers (activeCount 0 l) = ∑ i ∈ Finset.range (paidProducers l).length,
    multiplier (i + 1)
  nonzero : paidProducers l ≠ [] → sumOfMultipliers (activeCount 0 l) ≠ 0
  nonneg : ∀ i < (paidProducers l).length, 0 ≤ payAmount bucket (activeCount 0 l) (i + 1)
  total : ∑ i ∈ Finset.range (paidProducers l).length,
    payAmount bucket (activeCount 0 l) (i + 1) ≤ bucket
  left : 0 ≤ s'.production.perblockBucket

/-- The second pass pays the first 35 active producers by their ranks; the snapshot is sound
exactly when these stand at the front of the index by votes. -/
theorem pay_snapshot (s : State) (hb : 0 ≤ s.production.perblockBucket) :
    let l := producersByVotes s.voting.producers
    let pay := payAmount s.production.perblockBucket (activeCount 0 l)
    payProducers pay 0 l s =
        ((paidProducers l).zipIdx 1).foldl (fun s e => payProducer (pay e.2) e.1.1 e.1.2 s) s ∧
      (payProducers pay 0 l s).production.perblockBucket =
        s.production.perblockBucket - ∑ i ∈ Finset.range (paidProducers l).length, pay (i + 1) ∧
      (SoundSnapshot s.production.perblockBucket l (payProducers pay 0 l s) ↔
        paidProducers l <+: l) := by
  intro l pay
  have hpays : payProducers pay 0 l s =
      ((paidProducers l).zipIdx 1).foldl (fun s e => payProducer (pay e.2) e.1.1 e.1.2 s) s :=
    payProducers_eq pay 0 l s
  have hbucket : (payProducers pay 0 l s).production.perblockBucket =
      s.production.perblockBucket - ∑ i ∈ Finset.range (paidProducers l).length, pay (i + 1) := by
    have h := payProducers_bucket pay 0 (paidProducers l) s
    simp only [zero_add] at h
    rw [hpays, h]
  refine ⟨hpays, hbucket, fun h => (paidProducers_length_iff l).mp h.count, fun hfront => ?_⟩
  have hcount := (paidProducers_length_iff l).mpr hfront
  have hmax : (paidProducers l).length ≤ maxProducers := List.length_take_le _ _
  have htotal : ∑ i ∈ Finset.range (paidProducers l).length,
    pay (i + 1) ≤ s.production.perblockBucket := by
    have h := sum_payAmount_le hb hmax
    rw [hcount] at h ⊢
    exact h
  refine ⟨hcount, ?_, fun hne => ?_, fun i hi => ?_, htotal, ?_⟩
  · rw [hcount, sumOfMultipliers_eq]
  · rw [← hcount]
    exact (sumOfMultipliers_pos (List.length_pos_iff.mpr hne) hmax).ne'
  · exact payAmount_nonneg hb (hcount ▸ hmax) (by omega)
  · rw [hbucket]
    omega

def carol : Name := ⟨0x41af488000000000⟩

/-- Two producers with votes share the bucket. -/
def votedState : State where
  __ := launchState
  voting :=
    { launchState.voting with
      producers := ((∅ : Table Name ProducerInfo).insert alice
        { totalVotes := 1000, isActive := true, location := 0 }).insert
        bob { totalVotes := 500, isActive := true, location := 0 } }
  production := { perblockBucket := 2400000 }

theorem votedState_sound : SoundSnapshot 2400000 (producersByVotes votedState.voting.producers)
    (payProducers (payAmount 2400000 (activeCount 0 (producersByVotes votedState.voting.producers)))
      0
      (producersByVotes votedState.voting.producers) votedState) := by
  have hactive : ∀ e ∈ producersByVotes votedState.voting.producers,
    activeRow e = true := by decide +kernel
  obtain ⟨-, -, hsound⟩ := pay_snapshot votedState (by decide)
  refine hsound.mpr ?_
  rw [paidProducers, List.filter_eq_self.mpr hactive]
  exact List.take_prefix _ _

/-- In the order of the index: Alice with votes, Bob who has left, and Carol who waits for votes. -/
def mixedState : State where
  __ := launchState
  voting :=
    { launchState.voting with
      producers := (((∅ : Table Name ProducerInfo).insert alice
        { totalVotes := 1000, isActive := true, location := 0 }).insert
        bob { totalVotes := 0, isActive := false, location := 0 }).insert
        carol { totalVotes := 0, isActive := true, location := 0 } }
  production := { perblockBucket := 2400000 }

/-- Carol is not counted but paid, out of what the bucket does not hold. -/
theorem mixed_overpaid : ¬ SoundSnapshot 2400000 (producersByVotes mixedState.voting.producers)
    (payProducers (payAmount 2400000 (activeCount 0 (producersByVotes mixedState.voting.producers)))
      0
      (producersByVotes mixedState.voting.producers) mixedState) := by
  have hspent : ¬ 0 ≤ (payProducers
    (payAmount 2400000 (activeCount 0 (producersByVotes mixedState.voting.producers))) 0
      (producersByVotes mixedState.voting.producers) mixedState).production.perblockBucket := by
      decide +kernel
  exact fun h => hspent h.left

end TelosSystem
