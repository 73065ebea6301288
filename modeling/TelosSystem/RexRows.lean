import TelosSystem.RexMaturity

/-! The rows of `rexbal`. A well-formed row is its regular buckets followed by at most one
savings bucket; every function that rewrites the buckets keeps this form, and none of them
makes a unit mature earlier than a purchase made now. -/
namespace TelosSystem
open Ledger

def bucketSum (bs : List Bucket) : ℤ := (bs.map Bucket.second).sum

def dueBy (T : ℕ) (bs : List Bucket) : ℤ := bucketSum (bs.filter fun b => b.first ≤ T)

/-- The regular buckets at a time: in order, non-negative, none later than a purchase now. -/
structure Maturing (now : BlockTimestamp) (bs : List Bucket) : Prop where
  ascending : Ascending Bucket.first bs
  nonneg : ∀ b ∈ bs, 0 ≤ b.second
  upTo : ∀ b ∈ bs, b.first ≤ getRexMaturity now

def withSavings (bs : List Bucket) (savings : ℤ) : List Bucket :=
  if savings = 0 then bs else bs ++ [⟨timeMax, savings⟩]

structure RowForm (now : BlockTimestamp) (rb : RexBalance) (bs : List Bucket) (savings : ℤ) :
    Prop where
  buckets : rb.rexMaturities = withSavings bs savings
  maturing : Maturing now bs
  savings_nonneg : 0 ≤ savings
  matured_nonneg : 0 ≤ rb.maturedRex
  total : rb.rexBalance = rb.maturedRex + bucketSum bs + savings

def RexBalance.WellFormed (now : BlockTimestamp) (rb : RexBalance) : Prop :=
  ∃ bs savings, RowForm now rb bs savings

lemma getRexMaturity_mono {a b : BlockTimestamp} (h : a ≤ b) :
    getRexMaturity a ≤ getRexMaturity b := by
  have := BlockTimestamp.sec_mono h
  simp only [getRexMaturity, secondsPerDay, numOfMaturityBuckets]
  omega

lemma getRexMaturity_bounds (now : BlockTimestamp) :
    now.sec + 4 * secondsPerDay < getRexMaturity now ∧ getRexMaturity now < timeMax := by
  have := now.sec_range
  simp only [getRexMaturity, secondsPerDay, numOfMaturityBuckets, timeMax]
  omega

lemma Maturing.later {now later : BlockTimestamp} {bs : List Bucket} (h : Maturing now bs)
    (hle : now ≤ later) : Maturing later bs :=
  ⟨h.ascending, h.nonneg, fun b hb => le_trans (h.upTo b hb) (getRexMaturity_mono hle)⟩

lemma Maturing.nil (now : BlockTimestamp) : Maturing now [] :=
  ⟨Ascending.nil, by simp, by simp⟩

lemma Maturing.filter {now : BlockTimestamp} {bs : List Bucket} (h : Maturing now bs)
    (q : Bucket → Bool) : Maturing now (bs.filter q) :=
  ⟨h.ascending.filter q, fun b hb => h.nonneg b (List.mem_filter.mp hb).1,
    fun b hb => h.upTo b (List.mem_filter.mp hb).1⟩

lemma RexBalance.WellFormed.later {now later : BlockTimestamp} {rb : RexBalance}
    (h : rb.WellFormed now) (hle : now ≤ later) : rb.WellFormed later := by
  obtain ⟨bs, sv, hf⟩ := h
  exact ⟨bs, sv, { hf with maturing := hf.maturing.later hle }⟩

lemma bucketSum_append (bs cs : List Bucket) :
    bucketSum (bs ++ cs) = bucketSum bs + bucketSum cs := by
  simp [bucketSum]

lemma bucketSum_nonneg {bs : List Bucket} (h : ∀ b ∈ bs, 0 ≤ b.second) : 0 ≤ bucketSum bs :=
  sum_map_nonneg h

lemma dueBy_append (T : ℕ) (bs cs : List Bucket) :
    dueBy T (bs ++ cs) = dueBy T bs + dueBy T cs := by
  simp [dueBy, bucketSum_append]

lemma dueBy_singleton (T : ℕ) (b : Bucket) : dueBy T [b] = if b.first ≤ T then b.second else 0 := by
  unfold dueBy bucketSum
  split_ifs with h <;> simp [h]

lemma dueBy_nonneg {bs : List Bucket} (h : ∀ b ∈ bs, 0 ≤ b.second) (T : ℕ) : 0 ≤ dueBy T bs :=
  bucketSum_nonneg fun b hb => h b (List.mem_filter.mp hb).1

lemma bucketSum_split (T : ℕ) (bs : List Bucket) :
    bucketSum bs = dueBy T bs + bucketSum (bs.filter fun b => T < b.first) := by
  have h := sum_filter_split Bucket.second (fun b => b.first ≤ T) bs
  simp only [not_le] at h
  exact h

lemma dueBy_le {bs : List Bucket} (h : ∀ b ∈ bs, 0 ≤ b.second) (T : ℕ) :
    dueBy T bs ≤ bucketSum bs := by
  have h1 := bucketSum_split T bs
  have h2 : 0 ≤ bucketSum (bs.filter fun b => T < b.first) :=
    bucketSum_nonneg fun b hb => h b (List.mem_filter.mp hb).1
  omega

lemma dueBy_withSavings {T : ℕ} (hT : T < timeMax) (bs : List Bucket) (savings : ℤ) :
    dueBy T (withSavings bs savings) = dueBy T bs := by
  unfold withSavings
  split_ifs with h
  · rfl
  · rw [dueBy_append, dueBy_singleton, if_neg (not_le.mpr hT), add_zero]

lemma dueBy_later {now : BlockTimestamp} {T : ℕ} (hT : now.sec ≤ T) (bs : List Bucket) :
    dueBy T bs = dueBy now.sec bs + dueBy T (bs.filter fun b => now.sec < b.first) := by
  induction bs with
  | nil => rfl
  | cons b bs ih =>
    unfold dueBy bucketSum at ih ⊢
    simp only [List.filter_cons]
    by_cases hb : b.first ≤ now.sec
    · have hbT : b.first ≤ T := le_trans hb hT
      simp only [hb, hbT, not_lt.mpr hb, decide_true, decide_false, if_true,
        if_neg Bool.false_ne_true,
        List.map_cons, List.sum_cons]
      omega
    · have hlt := not_le.mp hb
      simp only [hb, hlt, decide_true, decide_false, if_true, if_neg Bool.false_ne_true,
        List.filter_cons]
      by_cases hbT : b.first ≤ T
      · simp only [hbT, decide_true, if_true, List.map_cons, List.sum_cons]
        omega
      · simp only [hbT, decide_false, if_neg Bool.false_ne_true]
        exact ih

lemma getLast_regular {now : BlockTimestamp} {bs : List Bucket} (h : Maturing now bs) {b : Bucket}
    (hb : bs.getLast? = some b) : b.first ≠ timeMax := by
  have hle := h.upTo b (List.mem_of_getLast? hb)
  have := (getRexMaturity_bounds now).2
  omega

lemma readRexSavings_eq {now : BlockTimestamp} {r : RexBalance} {bs : List Bucket} {sv : ℤ}
    (hm : Maturing now bs) (hb : r.rexMaturities = withSavings bs sv) :
    r.readRexSavings = (sv, { r with rexMaturities := bs }) := by
  unfold RexBalance.readRexSavings
  unfold withSavings at hb
  split_ifs at hb with hz
  · rw [hb]
    cases hl : bs.getLast? with
    | none =>
      rw [hz, ← hb]
    | some b =>
      simp only [getLast_regular hm hl, if_false, hz, ← hb]
  · simp [hb]

lemma putRexSavings_eq {now : BlockTimestamp} {rb : RexBalance} {bs : List Bucket}
    (h : Maturing now bs) (hb : rb.rexMaturities = bs) (sv : ℤ) :
    rb.putRexSavings sv = { rb with rexMaturities := withSavings bs sv } := by
  unfold RexBalance.putRexSavings withSavings
  split_ifs with hz
  · rw [← hb]
  · unfold RexBalance.addToBucket
    rw [hb]
    cases hl : bs.getLast? with
    | none => simp [List.getLast?_eq_none_iff.mp hl]
    | some b => simp [getLast_regular h hl]

lemma processRexMaturities_eq {now : BlockTimestamp} {rb : RexBalance}
    (h : Ascending Bucket.first rb.rexMaturities) : rb.processRexMaturities now =
      { rb with
        maturedRex := rb.maturedRex + dueBy now.sec rb.rexMaturities
        rexMaturities := rb.rexMaturities.filter fun b => now.sec < b.first } := by
  unfold RexBalance.processRexMaturities dueBy bucketSum
  rw [h.takeWhile_eq, h.dropWhile_eq]

/-- Adding to the bucket of a purchase made now. -/
lemma addToBucket_spec {now : BlockTimestamp} {bs : List Bucket} (h : Maturing now bs) {rex : ℤ}
    (hrex : 0 ≤ rex) :
    Maturing now (RexBalance.addToBucket (getRexMaturity now) rex bs) ∧
      bucketSum (RexBalance.addToBucket (getRexMaturity now) rex bs) = bucketSum bs + rex ∧
      ∀ T < getRexMaturity now,
        dueBy T (RexBalance.addToBucket (getRexMaturity now) rex bs) = dueBy T bs := by
  have happ : ∀ cs : List Bucket, (∀ b ∈ cs, b.first < getRexMaturity now) →
    Maturing now cs → ∀ x : ℤ, 0 ≤ x →
      Maturing now (cs ++ [⟨getRexMaturity now, x⟩]) := by
    intro cs hlt hcs x hx
    refine ⟨hcs.ascending.concat hlt, ?_, ?_⟩ <;> intro b hb <;>
      rcases List.mem_append.mp hb with hb | hb
    · exact hcs.nonneg b hb
    · rw [List.mem_singleton.mp hb]
      exact hx
    · exact hcs.upTo b hb
    · rw [List.mem_singleton.mp hb]
  have hdue : ∀ T < getRexMaturity now, ∀ x : ℤ,
    dueBy T [(⟨getRexMaturity now, x⟩ : Bucket)] = 0 := by
    intro T hT x
    rw [dueBy_singleton, if_neg (not_le.mpr hT)]
  unfold RexBalance.addToBucket
  cases hl : bs.getLast? with
  | none =>
    rw [List.getLast?_eq_none_iff.mp hl]
    refine ⟨happ [] (by simp) (Maturing.nil now) rex hrex, ?_, fun T hT => ?_⟩
    · simp [bucketSum]
    · exact hdue T hT rex
  | some b =>
    obtain ⟨cs, rfl⟩ : ∃ cs, bs = cs ++ [b] :=
      ⟨bs.dropLast, (List.dropLast_append_getLast? b hl).symm⟩
    have hsplit := h.ascending.of_concat
    have hcs : Maturing now cs :=
      ⟨hsplit.1, fun c hc => h.nonneg c (by simp [hc]), fun c hc => h.upTo c (by simp [hc])⟩
    have hb0 := h.nonneg b (by simp)
    dsimp only
    split_ifs with hb
    · rw [List.dropLast_concat, hb]
      refine ⟨happ cs (fun c hc => hb ▸ hsplit.2 c hc) hcs _ (by omega), ?_, fun T hT => ?_⟩
      · simp [bucketSum]
        omega
      · rw [dueBy_append, dueBy_append, hdue T hT, dueBy_singleton, if_neg (by omega)]
    · have hle := h.upTo b (by simp)
      refine ⟨happ (cs ++ [b]) ?_ h rex hrex, ?_, fun T hT => ?_⟩
      · intro c hc
        rcases List.mem_append.mp hc with hc | hc
        · have := hsplit.2 c hc
          omega
        · rw [List.mem_singleton.mp hc]
          omega
      · rw [bucketSum_append]
        simp [bucketSum]
      · rw [dueBy_append, hdue T hT, add_zero]

/-- `rb'` holds the REX of `rb` in other buckets: none of it matures earlier than before,
unless not before a purchase made now. -/
structure Reshaped (now : BlockTimestamp) (reserved : ℤ) (rb rb' : RexBalance) : Prop where
  wellFormed : rb'.WellFormed now
  balance : rb'.rexBalance = rb.rexBalance
  reserved : reserved ≤ rb'.maturedRex
  locked : ∀ T, now.sec ≤ T → T < getRexMaturity now →
    rb'.maturedRex + dueBy T rb'.rexMaturities ≤ rb.maturedRex + dueBy T rb.rexMaturities

section
variable {now : BlockTimestamp} {rb : RexBalance} {bs : List Bucket} {sv : ℤ}

lemma RowForm.ascending (h : RowForm now rb bs sv) : Ascending Bucket.first rb.rexMaturities := by
  rw [h.buckets]
  unfold withSavings
  split_ifs
  · exact h.maturing.ascending
  · apply h.maturing.ascending.concat
    intro b hb
    have := h.maturing.upTo b hb
    have := (getRexMaturity_bounds now).2
    dsimp only
    omega

lemma RowForm.due (h : RowForm now rb bs sv) {T : ℕ} (hT : T < getRexMaturity now) :
    dueBy T rb.rexMaturities = dueBy T bs := by
  have := (getRexMaturity_bounds now).2
  rw [h.buckets, dueBy_withSavings (by omega)]

lemma sec_lt_maturity (now : BlockTimestamp) : now.sec < getRexMaturity now := by
  have := (getRexMaturity_bounds now).1
  omega

/-- Maturing what is due now. -/
lemma RowForm.process (h : RowForm now rb bs sv) : RowForm now (rb.processRexMaturities now)
    (bs.filter fun b => now.sec < b.first) sv := by
  have hmax := (getRexMaturity_bounds now).2
  have hlt := sec_lt_maturity now
  have hsplit := bucketSum_split now.sec bs
  have hdue := dueBy_nonneg h.maturing.nonneg now.sec
  have hm := h.matured_nonneg
  have ht := h.total
  rw [processRexMaturities_eq h.ascending]
  refine ⟨?_, h.maturing.filter _, h.savings_nonneg, ?_, ?_⟩
  · dsimp only
    rw [h.buckets]
    unfold withSavings
    split_ifs
    · rfl
    · rw [List.filter_append]
      simp [show now.sec < timeMax by omega]
  · dsimp only
    rw [h.due hlt]
    omega
  · dsimp only
    rw [h.due hlt]
    omega

lemma RowForm.process_locked (h : RowForm now rb bs sv) {T : ℕ} (hT : now.sec ≤ T)
    (hm : T < getRexMaturity now) :
    (rb.processRexMaturities now).maturedRex + dueBy T (bs.filter fun b => now.sec < b.first) =
      rb.maturedRex + dueBy T rb.rexMaturities := by
  have hlater := dueBy_later hT bs
  rw [h.due hm, processRexMaturities_eq h.ascending]
  dsimp only
  rw [h.due (sec_lt_maturity now)]
  omega

lemma RowForm.process_matured (h : RowForm now rb bs sv) :
    rb.maturedRex ≤ (rb.processRexMaturities now).maturedRex := by
  have hdue := dueBy_nonneg h.maturing.nonneg now.sec
  rw [processRexMaturities_eq h.ascending]
  dsimp only
  rw [h.due (sec_lt_maturity now)]
  omega

lemma RowForm.wellFormed (h : RowForm now rb bs sv) : rb.WellFormed now := ⟨bs, sv, h⟩

theorem processRexMaturities_reshaped (h : rb.WellFormed now) {reserved : ℤ}
    (hr : reserved ≤ rb.maturedRex) : Reshaped now reserved rb (rb.processRexMaturities now) := by
  obtain ⟨bs, sv, h⟩ := h
  refine ⟨h.process.wellFormed, rfl, le_trans hr h.process_matured, fun T hT hm => ?_⟩
  rw [h.process.due hm]
  exact (h.process_locked hT hm).le

theorem consolidateRexBalance_reshaped (h : rb.WellFormed now) {reserved : ℤ} (h0 : 0 ≤ reserved)
    (hr : reserved ≤ rb.maturedRex) :
    Reshaped now reserved rb (rb.consolidateRexBalance now reserved) := by
  obtain ⟨bs, sv, h⟩ := h
  have hsum := bucketSum_nonneg h.maturing.nonneg
  have htot := h.total
  set total := rb.maturedRex - reserved + bucketSum bs with htotal
  let cs : List Bucket := if 0 < total then [⟨getRexMaturity now, total⟩] else []
  have hcs : Maturing now cs := by
    dsimp only [cs]
    split_ifs with hp
    · refine ⟨List.pairwise_singleton _ _, ?_, ?_⟩ <;> simp [hp.le]
    · exact Maturing.nil now
  have hcsum : bucketSum cs = total := by
    dsimp only [cs]
    split_ifs with hp
    · simp [bucketSum]
    · rw [bucketSum, List.map_nil, List.sum_nil]
      omega
  have heq : rb.consolidateRexBalance now reserved =
      { rb with maturedRex := reserved, rexMaturities := withSavings cs sv } := by
    unfold RexBalance.consolidateRexBalance
    rw [readRexSavings_eq h.maturing h.buckets]
    dsimp only
    rw [putRexSavings_eq hcs rfl]
  rw [heq]
  have hform : RowForm now { rb with maturedRex := reserved, rexMaturities := withSavings cs sv } cs
    sv :=
    ⟨rfl, hcs, h.savings_nonneg, h0, by rw [hcsum]; dsimp only; omega⟩
  refine ⟨hform.wellFormed, rfl, le_refl _, fun T hT hm => ?_⟩
  have hz : dueBy T cs = 0 := by
    dsimp only [cs]
    split_ifs
    · rw [dueBy_singleton, if_neg (not_le.mpr hm)]
    · rfl
  have hdue := dueBy_nonneg h.maturing.nonneg T
  rw [hform.due hm, hz, h.due hm]
  dsimp only
  omega

/-- Putting an amount into the newest regular bucket, with what is due matured first. -/
lemma addMaturing_spec (h : Maturing now bs) (rb : RexBalance) {rex : ℤ} (hrex : 0 ≤ rex) (sv : ℤ) :
    ∃ cs, ((({ rb with rexMaturities := bs }.processRexMaturities now).addMaturing now
      rex).putRexSavings sv) =
      { rb with maturedRex := rb.maturedRex + dueBy now.sec bs, rexMaturities := withSavings cs sv } ∧
      Maturing now cs ∧ bucketSum cs = bucketSum bs - dueBy now.sec bs + rex ∧
      ∀ T, now.sec ≤ T → T < getRexMaturity now → dueBy now.sec bs + dueBy T cs = dueBy T bs := by
  have hf := h.filter fun b => now.sec < b.first
  obtain ⟨hm, hs, hd⟩ := addToBucket_spec hf hrex
  refine ⟨_, ?_, hm, ?_, fun T hT hmT => ?_⟩
  · rw [processRexMaturities_eq (by exact h.ascending), RexBalance.addMaturing,
      putRexSavings_eq hm rfl]
  · have := bucketSum_split now.sec bs
    rw [hs]
    omega
  · rw [hd T hmT]
    exact (dueBy_later hT bs).symm

theorem moveFromSavings_reshaped (h : RowForm now rb bs sv) {rex reserved : ℤ} (h0 : 0 < rex)
    (hle : rex ≤ sv) (hr : reserved ≤ rb.maturedRex) :
    Reshaped now reserved rb
      (RexBalance.moveFromSavings now rex sv { rb with rexMaturities := bs }) := by
  obtain ⟨cs, heq, hm, hs, hd⟩ := addMaturing_spec h.maturing rb h0.le (sv - rex)
  have htot := h.total
  have hnn := h.matured_nonneg
  have hdue := dueBy_nonneg h.maturing.nonneg now.sec
  unfold RexBalance.moveFromSavings
  rw [heq]
  have hform : RowForm now { rb with
      maturedRex := rb.maturedRex + dueBy now.sec bs
      rexMaturities := withSavings cs (sv - rex) } cs (sv - rex) :=
    ⟨rfl, hm, by omega, by dsimp only; omega, by dsimp only; omega⟩
  refine ⟨hform.wellFormed, rfl, by dsimp only; omega, fun T hT hmT => ?_⟩
  have := hd T hT hmT
  rw [hform.due hmT, h.due hmT]
  dsimp only
  omega

/-- The row after receiving newly bought REX, its balance already raised. -/
structure Received (now : BlockTimestamp) (rex : ℤ) (rb rb' : RexBalance) : Prop where
  wellFormed : rb'.WellFormed now
  balance : rb'.rexBalance = rb.rexBalance + rex
  matured : rb.maturedRex ≤ rb'.maturedRex
  locked : ∀ T, now.sec ≤ T → T < getRexMaturity now →
    rb'.maturedRex + dueBy T rb'.rexMaturities = rb.maturedRex + dueBy T rb.rexMaturities

theorem receive_received (h : rb.WellFormed now) {rex : ℤ} (h0 : 0 ≤ rex) (stake : ℤ) :
    Received now rex rb
      ({ rb with rexBalance := rb.rexBalance + rex, voteStake := stake }.receive now rex) := by
  obtain ⟨bs, sv, h⟩ := h
  obtain ⟨cs, heq, hm, hs, hd⟩ := addMaturing_spec h.maturing
    { rb with rexBalance := rb.rexBalance + rex, voteStake := stake } h0 sv
  have htot := h.total
  have hnn := h.matured_nonneg
  have hdue := dueBy_nonneg h.maturing.nonneg now.sec
  unfold RexBalance.receive
  rw [readRexSavings_eq (r := { rb with rexBalance := rb.rexBalance + rex, voteStake := stake })
    h.maturing h.buckets]
  dsimp only at heq ⊢
  rw [heq]
  have hform : RowForm now { rb with
      voteStake := stake
      rexBalance := rb.rexBalance + rex
      maturedRex := rb.maturedRex + dueBy now.sec bs
      rexMaturities := withSavings cs sv } cs sv :=
    ⟨rfl, hm, h.savings_nonneg, by dsimp only; omega, by dsimp only; omega⟩
  refine ⟨hform.wellFormed, rfl, by dsimp only; omega, fun T hT hmT => ?_⟩
  have := hd T hT hmT
  rw [hform.due hmT, h.due hmT]
  dsimp only
  omega

end

/-- What the loop of `mvtosavings` leaves: the sum is kept, and the loop stops short of the
amount only when no bucket is left. -/
structure Drained (rex moved : ℤ) (bs : List Bucket) (out : ℤ × List Bucket) : Prop where
  sum : out.1 + bucketSum out.2 = moved + bucketSum bs
  le : out.1 ≤ rex
  short : out.1 < rex → out.2 = []
  nonneg : ∀ b ∈ out.2, 0 ≤ b.second
  times : out.2.map Bucket.first <:+ bs.map Bucket.first
  due : ∀ T, dueBy T out.2 ≤ dueBy T bs

lemma dueBy_cons (T : ℕ) (b : Bucket) (bs : List Bucket) :
    dueBy T (b :: bs) = (if b.first ≤ T then b.second else 0) + dueBy T bs := by
  rw [← List.singleton_append, dueBy_append, dueBy_singleton]

lemma bucketSum_cons (b : Bucket) (bs : List Bucket) :
    bucketSum (b :: bs) = b.second + bucketSum bs := by
  simp [bucketSum]

theorem drain_drained {rex : ℤ} {bs : List Bucket} (hnn : ∀ b ∈ bs, 0 ≤ b.second) {moved : ℤ}
    (hle : moved ≤ rex) : Drained rex moved bs (RexBalance.drain rex moved bs) := by
  induction bs generalizing moved with
  | nil =>
    exact ⟨rfl, hle, fun _ => rfl, by simp [RexBalance.drain], List.suffix_refl _,
      fun _ => le_refl _⟩
  | cons b bs ih =>
    have hb := hnn b (by simp)
    have hrest : ∀ c ∈ bs, 0 ≤ c.second := fun c hc => hnn c (by simp [hc])
    rw [RexBalance.drain]
    dsimp only
    by_cases hlt : moved < rex
    · rw [if_pos hlt]
      by_cases hz : b.second - min (rex - moved) b.second = 0
      · rw [if_pos hz]
        have hmoved : moved + min (rex - moved) b.second ≤ rex := by omega
        obtain ⟨hsum, hle', hshort, hnn', htimes, hdue⟩ := ih hrest hmoved
        refine ⟨?_, hle', hshort, hnn', htimes.trans (List.suffix_cons _ _), fun T => ?_⟩
        · rw [hsum, bucketSum_cons]
          omega
        · have := hdue T
          rw [dueBy_cons]
          split_ifs <;> omega
      · rw [if_neg hz]
        refine ⟨?_, by dsimp only; omega, fun h => ?_, ?_, List.suffix_refl _, fun T => ?_⟩
        · rw [bucketSum_cons, bucketSum_cons]
          dsimp only
          omega
        · dsimp only at h
          omega
        · intro c hc
          rcases List.mem_cons.mp hc with rfl | hc
          · dsimp only
            omega
          · exact hrest c hc
        · rw [dueBy_cons, dueBy_cons]
          dsimp only
          split_ifs <;> omega
    · rw [if_neg hlt]
      exact ⟨rfl, hle, fun h => absurd h hlt, hnn, List.suffix_refl _, fun _ => le_refl _⟩

lemma bucketSum_reverse (bs : List Bucket) : bucketSum bs.reverse = bucketSum bs := by
  simp [bucketSum, List.map_reverse, List.sum_reverse]

lemma dueBy_reverse (T : ℕ) (bs : List Bucket) : dueBy T bs.reverse = dueBy T bs := by
  simp [dueBy, List.filter_reverse, bucketSum_reverse]

/-- Draining keeps the buckets in order. -/
lemma Drained.maturing {now : BlockTimestamp} {rex moved : ℤ} {bs : List Bucket}
    {out : ℤ × List Bucket} (h : Drained rex moved bs.reverse out) (hm : Maturing now bs) :
    Maturing now out.2.reverse := by
  have hpre : (out.2.reverse.map Bucket.first) <+: (bs.map Bucket.first) := by
    have := h.times
    rw [List.map_reverse] at this ⊢
    simpa using List.reverse_prefix.mpr this
  refine ⟨?_, fun b hb => h.nonneg b (List.mem_reverse.mp hb), fun b hb => ?_⟩
  · have hasc : (bs.map Bucket.first).Pairwise (· < ·) := List.pairwise_map.mpr hm.ascending
    exact List.pairwise_map.mp (hasc.sublist hpre.sublist)
  · have hmem : b.first ∈ bs.map Bucket.first := hpre.subset (List.mem_map_of_mem hb)
    obtain ⟨c, hc, he⟩ := List.mem_map.mp hmem
    exact he ▸ hm.upTo c hc

section
variable {now : BlockTimestamp} {rb : RexBalance} {bs : List Bucket} {sv rex reserved : ℤ}

lemma drain_of_maturing (h : Maturing now bs) (h0 : 0 < rex) :
    Drained rex 0 (bs.filter fun b => now.sec < b.first).reverse
    (RexBalance.drain rex 0 (bs.filter fun b => now.sec < b.first).reverse) :=
  drain_drained (fun b hb => (h.filter _).nonneg b (List.mem_reverse.mp hb)) h0.le

/-- After an exact balance check the move succeeds. -/
theorem moveToSavings_reshaped (h : RowForm now rb bs sv) (h0 : 0 < rex)
    (hr : reserved ≤ rb.maturedRex) (hle : rex + reserved + sv ≤ rb.rexBalance)
    (hres : 0 ≤ reserved) :
    ∃ rb', RexBalance.moveToSavings now rex reserved sv { rb with rexMaturities := bs } = .ok rb' ∧
      Reshaped now reserved rb rb' := by
  have hd := drain_of_maturing h.maturing h0
  have hm := hd.maturing (h.maturing.filter _)
  have hdue := dueBy_nonneg h.maturing.nonneg now.sec
  have hsplit := bucketSum_split now.sec bs
  have htot := h.total
  have hsv := h.savings_nonneg
  have hnn := h.matured_nonneg
  have hproc : RexBalance.processRexMaturities now { rb with rexMaturities := bs } = _ :=
    processRexMaturities_eq h.maturing.ascending
  unfold RexBalance.moveToSavings
  rw [hproc]
  dsimp only
  generalize RexBalance.drain rex 0 (bs.filter fun b => now.sec < b.first).reverse = out at hd hm ⊢
  obtain ⟨moved, rest⟩ := out
  have hsum := hd.sum
  have hmr := hd.le
  rw [bucketSum_reverse] at hsum
  dsimp only at hsum hmr hm ⊢
  have hlocked : ∀ T, now.sec ≤ T → dueBy now.sec bs + dueBy T rest.reverse ≤ dueBy T bs := by
    intro T hT
    have h1 := dueBy_later hT bs
    have h2 := hd.due T
    rw [dueBy_reverse] at h2 ⊢
    dsimp only at h2
    omega
  by_cases hlt : moved < rex
  · have hnil : rest = [] := hd.short hlt
    subst hnil
    have hz : bucketSum [] = 0 := rfl
    rw [hz] at hsum
    have hchk : reserved ≤ rb.maturedRex + dueBy now.sec bs - (rex - moved) := by omega
    refine ⟨{ rb with
      maturedRex := rb.maturedRex + dueBy now.sec bs - (rex - moved)
      rexMaturities := withSavings [].reverse (sv + rex) }, ?_, ?_⟩
    · simp only [if_pos hlt, check, if_pos hchk, Bind.bind, Except.bind, Pure.pure, Except.pure,
        add_sub_cancel, if_true]
      rw [putRexSavings_eq hm rfl]
    have hform : RowForm now { rb with
        maturedRex := rb.maturedRex + dueBy now.sec bs - (rex - moved)
        rexMaturities := withSavings [].reverse (sv + rex) } [].reverse (sv + rex) :=
      ⟨rfl, hm, by omega, by dsimp only; omega, by
        rw [List.reverse_nil, hz]
        dsimp only
        omega⟩
    refine ⟨hform.wellFormed, rfl, hchk, fun T hT hmT => ?_⟩
    have := hlocked T hT
    rw [hform.due hmT, h.due hmT]
    dsimp only
    omega
  · have heq : moved = rex := by omega
    refine ⟨{ rb with
      maturedRex := rb.maturedRex + dueBy now.sec bs
      rexMaturities := withSavings rest.reverse (sv + rex) }, ?_, ?_⟩
    · simp only [if_neg hlt, check, if_pos heq, Bind.bind, Except.bind, Pure.pure, Except.pure]
      rw [putRexSavings_eq hm rfl]
    have hform : RowForm now { rb with
        maturedRex := rb.maturedRex + dueBy now.sec bs
        rexMaturities := withSavings rest.reverse (sv + rex) } rest.reverse (sv + rex) :=
      ⟨rfl, hm, by omega, by dsimp only; omega, by
        rw [bucketSum_reverse]
        dsimp only
        omega⟩
    refine ⟨hform.wellFormed, rfl, by dsimp only; omega, fun T hT hmT => ?_⟩
    have := hlocked T hT
    rw [hform.due hmT, h.due hmT]
    dsimp only
    omega

/-- Without it, the move fails in the loop's own check. -/
theorem moveToSavings_logic (h : RowForm now rb bs sv) (h0 : 0 < rex)
    (hr : reserved ≤ rb.maturedRex) (hlt : rb.rexBalance < rex + reserved + sv) :
    RexBalance.moveToSavings now rex reserved sv { rb with rexMaturities := bs } =
      .error RexBalance.mvtosavingsLogic := by
  have hd := drain_of_maturing h.maturing h0
  have hdue := dueBy_nonneg h.maturing.nonneg now.sec
  have hsplit := bucketSum_split now.sec bs
  have htot := h.total
  have hproc : RexBalance.processRexMaturities now { rb with rexMaturities := bs } = _ :=
    processRexMaturities_eq h.maturing.ascending
  unfold RexBalance.moveToSavings
  rw [hproc]
  dsimp only
  generalize RexBalance.drain rex 0 (bs.filter fun b => now.sec < b.first).reverse = out at hd ⊢
  obtain ⟨moved, rest⟩ := out
  have hsum := hd.sum
  have hrest := bucketSum_nonneg hd.nonneg
  rw [bucketSum_reverse] at hsum
  dsimp only at hsum hrest ⊢
  have hm : moved < rex := by omega
  have hnil : rest = [] := hd.short hm
  have hz : bucketSum [] = 0 := rfl
  rw [hnil, hz] at hsum
  have hchk : ¬ reserved ≤ rb.maturedRex + dueBy now.sec bs - (rex - moved) := by omega
  simp only [if_pos hm, check, if_neg hchk, Bind.bind, Except.bind]

end
end TelosSystem
