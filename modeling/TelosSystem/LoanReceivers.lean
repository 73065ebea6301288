import TelosSystem.AccountLimits
import TelosSystem.RexProgress

/-! The receivers of loans. Resources are rented only to receivers whose limits can be set, and
that stays so until the loan expires, so that the expiry does not fail on a missing account. -/
namespace TelosSystem
open Ledger

/-- The limits of every receiver of a loan can be set. -/
def LoansKnown (s : State) : Prop :=
  ∀ k num loan, (s.rex.loans k).lookup num = some loan → s.HasLimits loan.receiver

def ReceiversKept (s s' : State) : Prop :=
  ∀ k num loan, (s'.rex.loans k).lookup num = some loan →
    ∃ num' loan', (s.rex.loans k).lookup num' = some loan' ∧ loan'.receiver = loan.receiver

section
variable {now : BlockTimestamp} {s s' s'' : State}

lemma ReceiversKept.refl (s : State) : ReceiversKept s s :=
  fun _ num loan hl => ⟨num, loan, hl, rfl⟩

lemma ReceiversKept.trans (h : ReceiversKept s s') (h' : ReceiversKept s' s'') :
    ReceiversKept s s'' := by
  intro k num loan hl
  obtain ⟨num', loan', hl', hr'⟩ := h' k num loan hl
  obtain ⟨num₀, loan₀, hl₀, hr₀⟩ := h k num' loan' hl'
  exact ⟨num₀, loan₀, hl₀, hr₀.trans hr'⟩

/-- One loan table replaced. -/
lemma withLoans_receivers {k : LoanKind} {t : Table ℕ RexLoan} {funds : Table Name ℤ}
    {pools : RexPools} {resources : Resources}
    (ht : ∀ num loan, t.lookup num = some loan → ∃ num' loan',
      (s.rex.loans k).lookup num' = some loan' ∧ loan'.receiver = loan.receiver) :
    ReceiversKept s (s.withLoans k t funds pools resources) := by
  intro j num loan hl
  dsimp only [State.withLoans] at hl
  rw [Function.update_apply] at hl
  split_ifs at hl with hj
  · subst hj
    exact ht num loan hl
  · exact ⟨num, loan, hl, rfl⟩

lemma LoansKnown.kept (h : LoansKnown s) (hr : ReceiversKept s s')
    (hl : ∀ a, s.HasLimits a → s'.HasLimits a) : LoansKnown s' := by
  intro k num loan hloan
  obtain ⟨num', loan', hloan', heq⟩ := hr k num loan hloan
  exact heq ▸ hl _ (h k num' loan' hloan')

lemma hasLimits_congr {a : Name} (hv : s'.voting = s.voting) (ha : s'.isAccount = s.isAccount) :
    s'.HasLimits a ↔ s.HasLimits a := by
  unfold State.HasLimits
  rw [hv, ha]

end

section
variable [FloatOps] {now : BlockTimestamp} {π : Promise} {s s' : State}

lemma Effect.receiversKept (h : Effect now π s s') (hr : ¬ π.rents) : ReceiversKept s s' := by
  cases h with
  | closeLoan row =>
    exact withLoans_receivers (Table.forall_erase fun num loan hl => ⟨num, loan, hl, rfl⟩)
  | renewLoan row =>
    exact withLoans_receivers (Table.forall_insert (fun num loan hl => ⟨num, loan, hl, rfl⟩)
      ⟨_, _, row, rfl⟩)
  | openLoan fresh available pool positive balance price gain h paid moved rents =>
    exact absurd rents hr
  | loanBalance row =>
    exact withLoans_receivers (Table.forall_insert (fun num loan hl => ⟨num, loan, hl, rfl⟩)
      ⟨_, _, row, rfl⟩)
  | stake h =>
    obtain ⟨staking, resources, token, rfl, -⟩ := moveStake_frame h
    exact ReceiversKept.refl s
  | market h =>
    obtain ⟨resources, powerup, rfl⟩ := h.frame
    exact ReceiversKept.refl s
  | close timestamp names =>
    obtain ⟨auctions, pools, h⟩ := closeAuction_eq timestamp now s
    rw [h]
    exact ReceiversKept.refl s
  | _ => exact ReceiversKept.refl s

lemma Effects.receiversKept (h : Effects now π s s') (hr : ¬ π.rents) : ReceiversKept s s' := by
  induction h with
  | refl => exact ReceiversKept.refl s
  | tail _ hstep ih => exact ih.trans (hstep.receiversKept hr)

omit [FloatOps] in
lemma Purchase.receiversKept (h : Purchase now π s s') : ReceiversKept s s' := by
  obtain ⟨owner, payment, delta, mid, -, -, hf, hpur⟩ := h.parts
  obtain ⟨funds, staking, resources, token, rfl⟩ := hf.frame
  obtain ⟨received, p', stake, -, rfl⟩ := purchase_ok hpur
  exact ReceiversKept.refl s

omit [FloatOps] in
lemma updateLoanLimits_hasLimits {k : LoanKind} {receiver : Name} {delta : ℤ}
    (h : updateLoanLimits k receiver delta s = .ok s') (hd : delta ≠ 0) : s.HasLimits receiver := by
  cases k with
  | cpu => exact updateResourceLimits_hasLimits h fun h0 => hd h0.1
  | net => exact updateResourceLimits_hasLimits h fun h0 => hd h0.2

omit [FloatOps] in
/-- A loan is opened for a receiver whose limits have just been set. -/
lemma openLoan_known {k : LoanKind} {owner receiver : Name} {payment fund : ℤ} (hpos : 0 < payment)
    (hk : LoansKnown s) (h : openLoan now k owner receiver payment fund s = .ok s') :
    LoansKnown s' := by
  simp only [openLoan, bind_ok, check_ok, exists_const, require_ok] at h
  obtain ⟨s₁, h₁, p, hp, hgain, r, hr, p', hp', hfresh, h₂⟩ := h
  obtain ⟨-, funds, rfl, -⟩ := transferFromFund_ok h₁
  have hreceiver := updateLoanLimits_hasLimits h₂ (lt_trans hpos hgain).ne'
  obtain ⟨resources, rfl, -⟩ := updateLoanLimits_ok h₂
  intro j num loan hl
  dsimp only [State.setLoan] at hl
  rw [Function.update_apply] at hl
  split_ifs at hl with hj
  · subst hj
    rw [Table.lookup_insert'] at hl
    split_ifs at hl
    · cases hl
      exact hreceiver
    · exact hk j num loan hl
  · exact hk j num loan hl

theorem step.loansKnown {l : Label} (h : step now l s s') (hk : LoansKnown s) : LoansKnown s' := by
  by_cases hr : l.action.Rents
  · obtain ⟨auth, action⟩ := l
    cases action with
    | rent k owner receiver payment fund =>
      unfold step at h
      simp only [exec, rent, requireAuth, bind_ok, check_ok, exists_const] at h
      obtain ⟨-, s₁, h₁, -, -, ⟨hpos, -⟩, h₂⟩ := h
      have hrun := (runrex_effects (π := Promise.maintenance) h₁).1.receiversKept id
      obtain ⟨hvoting, haccounts, -⟩ := runrex_frame h₁
      exact openLoan_known hpos (hk.kept hrun fun a => (hasLimits_congr hvoting haccounts).mpr) h₂
    | _ => exact hr.elim
  · obtain ⟨mid, hm, he⟩ := exec_decomposed h
    have hmid : ReceiversKept s mid := by
      rcases hm with rfl | hpur
      · exact ReceiversKept.refl _
      · exact hpur.receiversKept
    exact hk.kept (hmid.trans (he.receiversKept hr)) fun a => h.hasLimits

lemma Reachable.loansKnown {t : BlockTimestamp} (h : Reachable t s) : LoansKnown s := by
  obtain ⟨t₀, s₀, tr, h0, hrun⟩ := h
  refine hrun.stateInvariant (fun _ => LoansKnown) (fun k num loan hl => ?_) fun hi _ hs =>
    hs.loansKnown hi
  rw [h0.rex] at hl
  cases hl

/-- A loan of the maintenance run cannot be stuck on its receiver. -/
lemma LoansKnown.not_unlimited {s₁ : State} {e : String} (h : LoansKnown s)
    (heff : Effects now Promise.maintenance s s₁) (hv : s₁.voting = s.voting)
    (ha : s₁.isAccount = s.isAccount) : ¬ Unlimited s₁ e := by
  rintro ⟨-, k, num, loan, hl, hno⟩
  have hknown : LoansKnown s₁ := h.kept (heff.receiversKept id) fun a => (hasLimits_congr hv ha).mpr
  exact hno (hknown k num loan hl)

end
end TelosSystem
