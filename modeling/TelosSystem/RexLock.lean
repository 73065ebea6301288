import TelosSystem.RexSharePrice

/-! The maturity lock. Units of REX are fungible, so the lock is an inequality for every time
`T`: what an owner has sold, has matured or has due by `T` is covered by purchases that
mature by `T`. -/
namespace TelosSystem
open Ledger

def soldBy (owner : Name) (x : Rex) : ℤ :=
  (x.sold.map fun e => if e.owner = owner then e.amount else 0).sum

def acquiredWhen (owner : Name) (q : BlockTimestamp → Prop) [DecidablePred q] (x : Rex) : ℤ :=
  (x.acquired.map fun e => if e.owner = owner ∧ q e.time then e.amount else 0).sum

/-- The REX an owner has bought that matures by `T`. -/
def acquiredBy (owner : Name) (T : ℕ) (x : Rex) : ℤ :=
  acquiredWhen owner (fun u => getRexMaturity u ≤ T) x

/-- What an owner has sold or could sell at `T` without another purchase. -/
def unlockedBy (owner : Name) (T : ℕ) (x : Rex) : ℤ :=
  soldBy owner x + (rowOf x owner).maturedRex + dueBy T (rowOf x owner).rexMaturities

structure LockInv (now : BlockTimestamp) (owner : Name) (x : Rex) : Prop where
  past : ∀ e ∈ x.acquired, e.time ≤ now
  amounts : ∀ e ∈ x.acquired, 0 ≤ e.amount
  conserved : soldBy owner x + (rowOf x owner).rexBalance = acquiredWhen owner (fun _ => True) x
  locked : ∀ T, now.sec ≤ T → T < timeMax → unlockedBy owner T x ≤ acquiredBy owner T x

section
variable {now : BlockTimestamp} {owner : Name} {x x' : Rex} {rb : RexBalance} {T : ℕ}

lemma RowForm.due_le {bs : List Bucket} {sv : ℤ} (h : RowForm now rb bs sv) (hT : T < timeMax) :
    rb.maturedRex + dueBy T rb.rexMaturities ≤ rb.rexBalance := by
  have hd := dueBy_le h.maturing.nonneg T
  have hs := h.savings_nonneg
  have ht := h.total
  rw [h.buckets, dueBy_withSavings hT]
  omega

/-- All purchases so far mature by the maturity of a purchase now. -/
lemma acquiredBy_all (hpast : ∀ e ∈ x.acquired, e.time ≤ now) (hT : getRexMaturity now ≤ T) :
    acquiredBy owner T x = acquiredWhen owner (fun _ => True) x := by
  unfold acquiredBy acquiredWhen
  congr 1
  apply List.map_congr_left
  intro e he
  have := getRexMaturity_mono (hpast e he)
  simp only [show getRexMaturity e.time ≤ T by omega, and_true]

/-- It is enough to show the lock for times before a purchase made now would mature. -/
lemma LockInv.of_below (hrow : (rowOf x owner).WellFormed now)
    (hpast : ∀ e ∈ x.acquired, e.time ≤ now) (hamt : ∀ e ∈ x.acquired, 0 ≤ e.amount)
    (hcons : soldBy owner x + (rowOf x owner).rexBalance = acquiredWhen owner (fun _ => True) x)
    (hlock : ∀ T, now.sec ≤ T → T < getRexMaturity now →
      unlockedBy owner T x ≤ acquiredBy owner T x) :
    LockInv now owner x := by
  refine ⟨hpast, hamt, hcons, fun T hT hmax => ?_⟩
  by_cases hm : T < getRexMaturity now
  · exact hlock T hT hm
  · obtain ⟨bs, sv, hf⟩ := hrow
    have := hf.due_le hmax
    rw [acquiredBy_all hpast (not_lt.mp hm), ← hcons, unlockedBy]
    omega

lemma LockInv.later {later : BlockTimestamp} (h : LockInv now owner x) (hle : now ≤ later) :
    LockInv later owner x :=
  ⟨fun e he => le_trans (h.past e he) hle, h.amounts, h.conserved,
    fun T hT hmax => h.locked T (le_trans (BlockTimestamp.sec_mono hle) hT) hmax⟩

/-- The lock only looks at the owner's row, sales and purchases. -/
lemma LockInv.congr (h : LockInv now owner x) (ha : x'.acquired = x.acquired)
    (hs : soldBy owner x' = soldBy owner x) (hr : rowOf x' owner = rowOf x owner) :
    LockInv now owner x' := by
  have hacq : ∀ (q : BlockTimestamp → Prop) [DecidablePred q],
    acquiredWhen owner q x' = acquiredWhen owner q x := by
    intro q _
    unfold acquiredWhen
    rw [ha]
  refine ⟨ha ▸ h.past, ha ▸ h.amounts, ?_, fun T hT hmax => ?_⟩
  · rw [hs, hr, hacq]
    exact h.conserved
  · have := h.locked T hT hmax
    unfold unlockedBy acquiredBy at this ⊢
    rw [hs, hr, hacq]
    exact this

lemma soldBy_snoc {a : Name} {rex : ℤ} (hs : x'.sold = x.sold ++ [⟨a, rex⟩]) :
    soldBy owner x' = soldBy owner x + if a = owner then rex else 0 := by
  unfold soldBy
  rw [hs, List.map_append, List.sum_append]
  simp

lemma LockInv.sold {a : Name} {rex stake : ℤ} (h : LockInv now owner x)
    (hb : x.balances.lookup a = some rb) (ha : x'.acquired = x.acquired)
    (hs : x'.sold = x.sold ++ [⟨a, rex⟩])
    (hr : x'.balances = x.balances.insert a (rb.sell rex stake)) : LockInv now owner x' := by
  have hsold : soldBy owner x' = soldBy owner x + if a = owner then rex else 0 := soldBy_snoc hs
  by_cases hown : owner = a
  · subst hown
    have hold := rowOf_some hb
    have hnew : rowOf x' owner = rb.sell rex stake :=
      rowOf_some (by rw [hr]; exact AList.lookup_insert _)
    rw [if_pos rfl] at hsold
    refine ⟨ha ▸ h.past, ha ▸ h.amounts, ?_, fun T hT hmax => ?_⟩
    · have := h.conserved
      rw [hold] at this
      rw [hsold, hnew]
      simp only [RexBalance.sell, acquiredWhen, ha] at this ⊢
      omega
    · have := h.locked T hT hmax
      simp only [unlockedBy, acquiredBy, acquiredWhen, hold, hsold, hnew, ha,
        RexBalance.sell] at this ⊢
      omega
  · rw [if_neg (Ne.symm hown), add_zero] at hsold
    exact h.congr ha hsold (rowOf_congr (by rw [hr]; exact AList.lookup_insert_ne hown))

lemma LockInv.reshaped {a : Name} {rb' : RexBalance} {reserved : ℤ} (h : LockInv now owner x)
    (hb : x.balances.lookup a = some rb) (hre : Reshaped now reserved rb rb')
    (ha : x'.acquired = x.acquired) (hs : x'.sold = x.sold)
    (hr : x'.balances = x.balances.insert a rb') : LockInv now owner x' := by
  have hsold : soldBy owner x' = soldBy owner x := by simp only [soldBy, hs]
  by_cases hown : owner = a
  · subst hown
    have hold := rowOf_some hb
    have hnew : rowOf x' owner = rb' := rowOf_some (by rw [hr]; exact AList.lookup_insert _)
    refine LockInv.of_below (hnew ▸ hre.wellFormed) (ha ▸ h.past) (ha ▸ h.amounts) ?_ fun T hT hm =>
      ?_
    · have := h.conserved
      simp only [acquiredWhen, hsold, hnew, hold, hre.balance, ha] at this ⊢
      exact this
    · have hlt := (getRexMaturity_bounds now).2
      have h1 := h.locked T hT (by omega)
      have h2 := hre.locked T hT hm
      simp only [unlockedBy, acquiredBy, acquiredWhen, hold, hsold, hnew, ha] at h1 ⊢
      omega
  · exact h.congr ha hsold (rowOf_congr (by rw [hr]; exact AList.lookup_insert_ne hown))

/-- Only an empty row is dropped. -/
lemma LockInv.dropped {a : Name} (h : LockInv now owner x) (hb : x.balances.lookup a = some rb)
    (hw : rb.WellFormed now) (hz : rb.rexBalance = 0) (ha : x'.acquired = x.acquired)
    (hs : x'.sold = x.sold) (hr : x'.balances = x.balances.erase a) : LockInv now owner x' := by
  have hsold : soldBy owner x' = soldBy owner x := by simp only [soldBy, hs]
  by_cases hown : owner = a
  · subst hown
    have hnew : rowOf x' owner = { voteStake := 0, rexBalance := 0 } := by simp [rowOf, hr]
    have hold := rowOf_some hb
    refine ⟨ha ▸ h.past, ha ▸ h.amounts, ?_, fun T hT hmax => ?_⟩
    · have := h.conserved
      simp only [acquiredWhen, hsold, hnew, hold, hz, ha] at this ⊢
      exact this
    · obtain ⟨bs, sv, hf⟩ := hw
      have h1 := h.locked T hT hmax
      have h2 := dueBy_nonneg hf.maturing.nonneg T
      have h3 := hf.matured_nonneg
      simp only [unlockedBy, acquiredBy, acquiredWhen, hold, hsold, hnew, ha, hf.buckets,
        dueBy_withSavings hmax] at h1 ⊢
      have h4 : dueBy T [] = 0 := rfl
      omega
  · exact h.congr ha hsold (rowOf_congr (by rw [hr]; exact AList.lookup_erase_ne hown))

lemma acquiredWhen_snoc (q : BlockTimestamp → Prop) [DecidablePred q] {a : Name} {rex : ℤ}
    (ha : x'.acquired = x.acquired ++ [⟨a, now, rex⟩]) :
    acquiredWhen owner q x' = acquiredWhen owner q x + if a = owner ∧ q now then rex else 0 := by
  unfold acquiredWhen
  rw [ha, List.map_append, List.sum_append]
  simp

lemma LockInv.purchased {a : Name} {rex stake : ℤ} (h : LockInv now owner x)
    (hw : (rowOf x a).WellFormed now) (h0 : 0 ≤ rex)
    (ha : x'.acquired = x.acquired ++ [⟨a, now, rex⟩]) (hs : x'.sold = x.sold)
    (hr : x'.balances = x.balances.insert a
      (RexBalance.receive now rex
      { rowOf x a with rexBalance := (rowOf x a).rexBalance + rex, voteStake := stake })) :
    LockInv now owner x' := by
  have hsold : soldBy owner x' = soldBy owner x := by simp only [soldBy, hs]
  have hrec := receive_received hw h0 stake
  generalize RexBalance.receive now rex { rowOf x a with
    rexBalance := (rowOf x a).rexBalance + rex, voteStake := stake } = row at hrec hr
  have hpast : ∀ e ∈ x'.acquired, e.time ≤ now := by
    rw [ha]
    intro e he
    rcases List.mem_append.mp he with he | he
    · exact h.past e he
    · rw [List.mem_singleton.mp he]
  have hamt : ∀ e ∈ x'.acquired, 0 ≤ e.amount := by
    rw [ha]
    intro e he
    rcases List.mem_append.mp he with he | he
    · exact h.amounts e he
    · rw [List.mem_singleton.mp he]
      exact h0
  by_cases hown : owner = a
  · subst hown
    have hnew : rowOf x' owner = row := rowOf_some (by rw [hr]; exact AList.lookup_insert _)
    refine LockInv.of_below (hnew ▸ hrec.wellFormed) hpast hamt ?_ fun T hT hm => ?_
    · have := h.conserved
      rw [hsold, hnew, hrec.balance, acquiredWhen_snoc _ ha, if_pos ⟨rfl, trivial⟩]
      omega
    · have hlt := (getRexMaturity_bounds now).2
      have h1 := h.locked T hT (by omega)
      have h2 := hrec.locked T hT hm
      unfold unlockedBy acquiredBy at h1 ⊢
      rw [hsold, hnew, acquiredWhen_snoc _ ha, if_neg (by omega)]
      omega
  · have hrow : rowOf x' owner = rowOf x owner :=
      rowOf_congr (by rw [hr]; exact AList.lookup_insert_ne hown)
    refine ⟨hpast, hamt, ?_, fun T hT hmax => ?_⟩
    · rw [hsold, hrow, acquiredWhen_snoc _ ha, if_neg fun he => hown he.1.symm, add_zero]
      exact h.conserved
    · have := h.locked T hT hmax
      unfold unlockedBy acquiredBy at this ⊢
      rw [hsold, hrow, acquiredWhen_snoc _ ha, if_neg fun he => hown he.1.symm, add_zero]
      exact this

/-- A purchase that has matured was made more than four days ago. -/
lemma acquiredBy_le (hamt : ∀ e ∈ x.acquired, 0 ≤ e.amount) :
    acquiredBy owner T x ≤ acquiredWhen owner (fun u => u.sec + 4 * secondsPerDay < T) x := by
  unfold acquiredBy acquiredWhen
  apply List.sum_le_sum
  intro e he
  have h0 := hamt e he
  have hb := (getRexMaturity_bounds e.time).1
  by_cases hm : e.owner = owner ∧ getRexMaturity e.time ≤ T
  · rw [if_pos hm, if_pos ⟨hm.1, by omega⟩]
  · rw [if_neg hm]
    split_ifs
    · exact h0
    · exact le_refl _

end

section
variable [FloatOps] {now : BlockTimestamp} {π : Promise} {s s' : State} {owner : Name}

theorem Effect.lockInv (h : Effect now π s s') (hi : RexInv now s.pools s.rex)
    (hl : LockInv now owner s.rex) : LockInv now owner s'.rex := by
  cases h with
  | fillOrder order isOpen row pool fillable settled => exact hl.sold row rfl rfl rfl
  | sell restake actor row pool positive matured fillable settled votes credit reserved =>
    exact hl.sold row rfl rfl rfl
  | reshape row h others restake =>
    obtain ⟨h0, hle⟩ := hi.openRequest_bounds row
    exact hl.reshaped row (h (hi.rows _ _ row) h0 hle) rfl rfl rfl
  | dropBalance restake actor row empty => exact hl.dropped row (hi.rows _ _ row) empty rfl rfl rfl
  | stake h restake rex other =>
    obtain ⟨staking, resources, token, rfl, -⟩ := moveStake_frame h
    exact hl
  | market h =>
    obtain ⟨resources, powerup, rfl⟩ := h.frame
    exact hl
  | close timestamp names =>
    obtain ⟨auctions, pools, h⟩ := closeAuction_eq timestamp now s
    rw [h]
    exact hl
  | _ => exact hl.congr rfl rfl rfl

theorem Effects.lockInv (h : Effects now π s s') (hi : RexInv now s.pools s.rex)
    (hl : LockInv now owner s.rex) : LockInv now owner s'.rex := by
  induction h with
  | refl => exact hl
  | tail hprior hstep ih => exact hstep.lockInv (Effects.rexInv hprior hi) ih

omit [FloatOps] in
theorem Purchase.lockInv (h : Purchase now π s s') (hi : RexInv now s.pools s.rex)
    (hl : LockInv now owner s.rex) : LockInv now owner s'.rex := by
  obtain ⟨a, payment, delta, mid, -, h0, hf, hpur⟩ := h.parts
  obtain ⟨funds, staking, resources, token, rfl⟩ := hf.frame
  obtain ⟨received, p', stake, hb, rfl⟩ := purchase_ok hpur
  exact hl.purchased (hi.rowOf_wellFormed a) (hb.received_nonneg h0) rfl rfl rfl

theorem step.lockInv {l : Label} (h : step now l s s') (hi : RexInv now s.pools s.rex)
    (hl : LockInv now owner s.rex) : LockInv now owner s'.rex := by
  obtain ⟨mid, hm, he⟩ := exec_decomposed h
  rcases hm with rfl | hp
  · exact he.lockInv hi hl
  · exact he.lockInv (hp.rexInv hi) (hp.lockInv hi hl)

omit [FloatOps] in
lemma Genesis.lockInv (h : Genesis s) (now : BlockTimestamp) : LockInv now owner s.rex := by
  rw [h.rex]
  exact ⟨by simp, by simp, rfl, fun T _ _ => le_refl _⟩

theorem Reachable.lockInv {t : BlockTimestamp} (h : Reachable t s) (owner : Name) :
    LockInv t owner s.rex := by
  obtain ⟨t₀, s₀, tr, hg, hrun⟩ := h
  have hboth : RexInv t s.pools s.rex ∧ LockInv t owner s.rex :=
    hrun.stateInvariant (fun t s => RexInv t s.pools s.rex ∧ LockInv t owner s.rex)
      ⟨hg.rexInv t₀, hg.lockInv t₀⟩ fun hi hle hs =>
        ⟨hs.rexInv (hi.1.later hle), hs.lockInv (hi.1.later hle) (hi.2.later hle)⟩
  exact hboth.2

/-- What an owner has sold, has matured or has due at `T` was bought early enough to mature
by `T`; in particular nothing is sold within four days of its purchase. -/
theorem rex_maturity_lock {t : BlockTimestamp} (h : Reachable t s) (owner : Name) :
    (∀ T, t.sec ≤ T → T < timeMax →
      soldBy owner s.rex + (rowOf s.rex owner).maturedRex +
        dueBy T (rowOf s.rex owner).rexMaturities ≤
        acquiredWhen owner (fun u => getRexMaturity u ≤ T) s.rex) ∧
    soldBy owner s.rex ≤ acquiredWhen owner (fun u => u.sec + 4 * secondsPerDay < t.sec) s.rex := by
  have hl := h.lockInv owner
  refine ⟨hl.locked, ?_⟩
  have hlt : t.sec < timeMax := by
    have := t.sec_range
    unfold timeMax
    omega
  obtain ⟨bs, sv, hf⟩ := h.rexInv.rowOf_wellFormed owner
  have h1 := hl.locked t.sec (le_refl _) hlt
  have h2 : acquiredBy owner t.sec s.rex ≤ _ := acquiredBy_le hl.amounts
  have h3 := hf.matured_nonneg
  have h4 := dueBy_nonneg hf.maturing.nonneg t.sec
  rw [unlockedBy, hf.buckets, dueBy_withSavings hlt] at h1
  omega

omit [FloatOps] in
theorem launch_maturity_lock :
    (rowOf launchEnd.rex alice).rexBalance = 10000000000 ∧
    soldBy alice launchEnd.rex + (rowOf launchEnd.rex alice).maturedRex +
      dueBy (launchTime.sec + 6 * secondsPerDay) (rowOf launchEnd.rex alice).rexMaturities ≤
        acquiredWhen alice (fun u => getRexMaturity u ≤ launchTime.sec + 6 * secondsPerDay)
          launchEnd.rex :=
  ⟨by decide +kernel, (@rex_maturity_lock launchFloats launchEnd _ launchEnd_reachable alice).1
    _ (by decide +kernel)
    (by decide +kernel)⟩

end
end TelosSystem
