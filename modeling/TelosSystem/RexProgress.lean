import TelosSystem.RexPurchase

/-! The maintenance run does not get stuck. Under the invariant of the REX tables it can only
fail in the token transfer of name auction proceeds, or where the resources of a loan's
receiver do not cover the loan; in particular it never divides by zero. -/
namespace TelosSystem
open Ledger

/-- The messages of `update_resource_limits`. -/
def limitErrors : List String := ["logic error, should not occur", insufficientNet, insufficientCpu]

/-- The messages of a token transfer. -/
def Token.transferErrors : List String :=
  ["cannot transfer to self", "missing required authority", "to account does not exist",
    "unable to find key",
    "invalid quantity", "must transfer positive quantity", "symbol precision mismatch",
    "memo has more than 256 bytes", "no balance object found", "overdrawn balance",
    "attempt to subtract asset with different symbol", "attempt to add asset with different symbol"]

def rexNotInitialized : String := "rex system not initialized yet"

section
variable {now : BlockTimestamp} {s : State} {e : String}

lemma Token.transfer_raises (isAccount : Name → Bool) (auth : List Name) (source dest : Name)
    (quantity : Asset) (memoSize : ℕ) (t : Token) :
    Raises (· ∈ Token.transferErrors)
      (t.transfer isAccount auth source dest quantity memoSize) := by
  unfold Token.transfer Token.subBalance
  refine .bind (.check (by decide)) fun _ _ => .bind (.check (by decide)) fun _ _ =>
    .bind (.check (by decide)) fun _ _ => .bind (.require (by decide)) fun _ _ =>
    .bind (.check (by decide)) fun _ _ => .bind (.check (by decide)) fun _ _ =>
    .bind (.check (by decide)) fun _ _ => .bind (.check (by decide)) fun _ _ =>
      .bind ?_ fun t' _ => ?_
  · exact .bind (.require (by decide)) fun _ _ => .bind (.check (by decide)) fun _ _ =>
      .bind (.check (by decide)) fun _ _ => .ok _
  · unfold Token.addBalance
    split
    · exact .ok _
    · exact .bind (.check (by decide)) fun _ _ => .ok _

lemma updateLoanLimits_error {k : LoanKind} {receiver : Name} {delta : ℤ}
    (h : updateLoanLimits k receiver delta s = .error e) :
    (e ∈ limitErrors ∧ ∃ j, totalWeight s.resources j receiver + (if j = k then delta else 0) < 0) ∨
      (e = unknownKey ∧ ¬ s.HasLimits receiver) := by
  have hw : ∀ net cpu, updateResourceLimits receiver net cpu s = .error e →
      (e ∈ limitErrors ∧ ∃ j, totalWeight s.resources j receiver + pick j net cpu < 0) ∨
        (e = unknownKey ∧ ¬ s.HasLimits receiver) := by
    intro net cpu h
    unfold updateResourceLimits at h
    split_ifs at h
    have hn := movedTotals_weight s receiver net cpu .net
    have hc := movedTotals_weight s receiver net cpu .cpu
    simp only [pick] at hn hc
    simp only [bind_error, check_error, check_ok, exists_const, pure_error, and_false] at h
    rcases h with ⟨hno, rfl⟩ | ⟨-, ⟨hneg, rfl⟩ | ⟨-, ⟨hneg, rfl⟩ | ⟨-, hlimits⟩⟩⟩
    · refine Or.inl ⟨by simp [limitErrors], ?_⟩
      rw [not_or, Bool.not_eq_true, Option.isSome_eq_false_iff, Option.isNone_iff_eq_none] at hno
      have hz : ∀ j, totalWeight s.resources j receiver = 0 := fun j => Table.valueAt_none hno.1
      by_cases hnet : 0 ≤ net
      · exact ⟨.cpu, by rw [hz]; simp only [pick]; omega⟩
      · exact ⟨.net, by rw [hz]; simp only [pick]; omega⟩
    · exact Or.inl ⟨by simp [limitErrors], .net, by simp only [pick]; omega⟩
    · exact Or.inl ⟨by simp [limitErrors], .cpu, by simp only [pick]; omega⟩
    · exact Or.inr (limitsFor_error (by simpa using hlimits))
  unfold updateLoanLimits at h
  cases k with
  | cpu =>
    rcases hw 0 delta h with ⟨he, j, hj⟩ | hno
    · refine Or.inl ⟨he, j, ?_⟩
      cases j <;> simpa [pick] using hj
    · exact Or.inr hno
  | net =>
    rcases hw delta 0 h with ⟨he, j, hj⟩ | hno
    · refine Or.inl ⟨he, j, ?_⟩
      cases j <;> simpa [pick] using hj
    · exact Or.inr hno

lemma creditFund_total (owner : Name) (amount : ℤ) (s : State) :
    ∃ s', creditFund owner amount s = .ok s' := by
  unfold creditFund
  split_ifs with h
  · unfold transferToFund
    simp only [check, h, and_self, if_true, Bind.bind, Except.bind]
    cases s.rex.funds.lookup owner <;> exact ⟨_, rfl⟩
  · exact ⟨s, rfl⟩

lemma addLoanToRexPool_total {r : RexPools} {p : RexPool} (h : r.ReturnInv now)
    (hp : r.rexpool = some p) (hbal : p.Balanced) (payment rented : ℤ) (new : Bool) :
    ∃ r', addLoanToRexPool now payment rented new r = .ok r' := by
  have ha : addToRexReturnPool now payment r = _ := addToRexReturnPool_eq h (le_refl now)
  have hr := addToRexReturnPool_returned h hp hbal ha
  obtain ⟨c, -, hpool, -⟩ := hr.moved
  rw [hp, Option.map_some] at hpool
  unfold addLoanToRexPool
  rw [ha]
  simp only [Bind.bind, Except.bind, require, hpool]
  exact ⟨_, rfl⟩

/-- A receiver whose resources do not cover a loan of the state. -/
def Uncovered (s : State) (e : String) : Prop :=
  e ∈ limitErrors ∧ ∃ k num loan j, (s.rex.loans k).lookup num = some loan ∧
    totalWeight s.resources j loan.receiver - (if j = k then loan.totalStaked else 0) < 0

/-- A receiver of a loan of the state whose limits cannot be set. -/
def Unlimited (s : State) (e : String) : Prop :=
  e = unknownKey ∧ ∃ k num loan, (s.rex.loans k).lookup num = some loan ∧
    ¬ s.HasLimits loan.receiver

/-- A loan of the state cannot be expired or renewed. -/
def LoanStuck (s : State) (e : String) : Prop := Uncovered s e ∨ Unlimited s e

/-- A loan needs a pool. -/
lemma RexInv.pool_of_loan {k : LoanKind} {num : ℕ} {loan : RexLoan} (hi : RexInv now s.pools s.rex)
    (hl : (s.rex.loans k).lookup num = some loan) : ∃ p, s.pools.rexpool = some p := by
  cases hp : s.pools.rexpool with
  | some p => exact ⟨p, rfl⟩
  | none =>
    have h1 := hi.staked_le hl
    have h2 := (hi.loans k num loan hl).2.1
    rw [← hi.pool.lent] at h1
    simp only [RexPools.pool, hp, Option.getD_none, emptyPool] at h1
    omega

lemma processExpiredLoan_error {k : LoanKind} {num : ℕ} {loan : RexLoan}
    (hi : RexInv now s.pools s.rex) (hl : (s.rex.loans k).lookup num = some loan)
    (h : processExpiredLoan now k num loan s = .error e) : LoanStuck s e := by
  obtain ⟨p, hp⟩ := hi.pool_of_loan hl
  have hpos := (hi.loans k num loan hl).2.1
  have hrem := hi.removed hp hl s.rex.funds
  unfold processExpiredLoan at h
  simp only [hp, require, Bind.bind, Except.bind] at h
  split_ifs at h with hc
  · obtain ⟨r', hr'⟩ := addLoanToRexPool_total hrem.ret rfl (hrem.balanced rfl) loan.payment
      (getBancorOutput (removeLoanFromRexPool loan p).totalRent
      (removeLoanFromRexPool loan p).totalUnlent loan.payment)
      false
    rw [show addLoanToRexPool now loan.payment _ false
      (s.setPool (removeLoanFromRexPool loan p)).pools = _ from hr'] at h
    dsimp only at h
    rcases updateLoanLimits_error h with ⟨he, j, hj⟩ | ⟨he, hno⟩
    · refine Or.inl ⟨he, k, num, loan, j, hl, lt_of_le_of_lt ?_ hj⟩
      simp only [State.setLoan, State.setPool]
      split_ifs
      · have := hc.2.1
        have := (hi.loans k num loan hl).1
        omega
      · omega
    · exact Or.inr ⟨he, k, num, loan, hl, hno⟩
  · obtain ⟨s1, h1⟩ := creditFund_total loan.fromAccount loan.balance
      (s.setPool (removeLoanFromRexPool loan p))
    obtain ⟨funds, hs1, -⟩ := creditFund_ok h1
    rw [h1] at h
    dsimp only at h
    split at h
    · rename_i herr
      cases h
      rw [hs1] at herr
      rcases updateLoanLimits_error herr with ⟨he, j, hj⟩ | ⟨he, hno⟩
      · refine Or.inl ⟨he, k, num, loan, j, hl, lt_of_le_of_lt ?_ hj⟩
        simp only [State.setPool]
        split_ifs <;> omega
      · exact Or.inr ⟨he, k, num, loan, hl, hno⟩
    · cases h

/-- An open order can be looked at: there is REX in the pool. -/
lemma processOrder_total {entry : Name × RexOrder} (hi : RexInv now s.pools s.rex)
    (ho : s.rex.orders.lookup entry.1 = some entry.2) (hopen : entry.2.isOpen = true) :
    ∃ s', processOrder s entry = .ok s' := by
  have hord := hi.orders _ _ ho
  simp only [OrderInv, hopen, if_true] at hord
  obtain ⟨hpos, rb, hb, hle⟩ := hord
  have hrex := hi.totalRex_pos hb hpos hle
  unfold processOrder fillRexOrder
  rw [hb]
  cases hp : s.pools.rexpool with
  | none => simp [RexPools.pool, hp, emptyPool] at hrex
  | some p =>
    rw [RexPools.pool_some hp] at hrex
    simp only [require, check, hrex.ne', ne_eq, not_false_eq_true, if_true, Bind.bind, Except.bind]
    split_ifs <;> exact ⟨_, rfl⟩

end

section
variable [FloatOps] {now : BlockTimestamp} {π : Promise} {s s' : State} {e : String}

/-- Where the loop over the expired loans stops, the loan at hand is stuck. -/
lemma processLoans_error {k : LoanKind} {max : ℕ} (hi : RexInv now s.pools s.rex)
    (h : processLoans now k max s = .error e) :
    ∃ s₁, Effects now π s s₁ ∧ BidsKept s s₁ ∧ LoanStuck s₁ e := by
  induction max generalizing s with
  | zero =>
    rw [processLoans] at h
    cases h
  | succ max ih =>
    rw [processLoans] at h
    cases hh : (loansByExpiration (s.rex.loans k)).head? with
    | none =>
      rw [hh] at h
      cases h
    | some entry =>
      obtain ⟨num, loan⟩ := entry
      rw [hh] at h
      dsimp only at h
      have hl : (s.rex.loans k).lookup num = some loan :=
        (Table.mem_indexed _).mp (List.mem_of_mem_head? hh)
      split_ifs at h
      rw [bind_error] at h
      rcases h with h | ⟨s₁, h₁, h⟩
      · exact ⟨s, Effects.refl s, BidsKept.refl s, processExpiredLoan_error hi hl h⟩
      · have heff : Effects now π s s₁ := processExpiredLoan_effects hl h₁
        obtain ⟨s₂, h₂, hkept, hu⟩ := ih (heff.rexInv hi) h
        exact ⟨s₂, heff.trans h₂, (processExpiredLoan_bidsKept h₁).trans hkept, hu⟩

lemma foldlM_processOrder_total {l : List (Name × RexOrder)} (hnd : (l.map Prod.fst).Nodup)
    (hi : RexInv now s.pools s.rex) (hs : s.pools.Settled)
    (ho : ∀ e ∈ l, s.rex.orders.lookup e.1 = some e.2 ∧ e.2.isOpen = true) :
    ∃ s', l.foldlM processOrder s = .ok s' := by
  induction l generalizing s with
  | nil => exact ⟨s, rfl⟩
  | cons entry l ih =>
    rw [List.map_cons, List.nodup_cons] at hnd
    obtain ⟨he, hopen⟩ := ho entry (by simp)
    obtain ⟨s₁, h₁⟩ := processOrder_total hi he hopen
    obtain ⟨heff, hsame⟩ : Effects now Promise.maintenance s s₁ ∧
        ∀ a, a ≠ entry.1 → s₁.rex.orders.lookup a = s.rex.orders.lookup a :=
        processOrder_effects he hopen hs h₁
    obtain ⟨s₂, h₂⟩ := ih hnd.2 (heff.rexInv hi)
      ((processOrder_bidsKept h₁).settled hs) fun f hf => by
      have hne : f.1 ≠ entry.1 := fun heq => hnd.1 (heq ▸ List.mem_map_of_mem hf)
      rw [hsame f.1 hne]
      exact ho f (by simp [hf])
    exact ⟨s₂, by rw [List.foldlM_cons, bind_ok]; exact ⟨s₁, h₁, h₂⟩⟩

lemma processOrders_total {max : ℕ} (hi : RexInv now s.pools s.rex) (hs : s.pools.Settled) :
    ∃ s', processOrders max s = .ok s' := by
  have hsub : List.Sublist (((ordersByTime s.rex.orders).take max).takeWhile fun e => e.2.isOpen)
      (ordersByTime s.rex.orders) :=
    (List.takeWhile_sublist _).trans (List.take_sublist _ _)
  refine foldlM_processOrder_total ?_ hi hs fun entry he => ?_
  · exact (hsub.map Prod.fst).nodup (Table.nodup_indexed _ _)
  · exact ⟨(Table.mem_indexed _).mp (hsub.subset he),
      List.mem_takeWhile_imp (p := fun e : Name × RexOrder => e.2.isOpen) he⟩

omit [FloatOps] in
lemma channelToRex_pool {source : Name} {amount : Asset} {required : Bool} {p : RexPool}
    (hi : RexInv now s.pools s.rex) (hp : s.pools.rexpool = some p)
    (h : channelToRex now source amount required s = .ok s') : ∃ q, s'.pools.rexpool = some q := by
  unfold channelToRex at h
  split_ifs at h
  · simp only [bind_ok] at h
    obtain ⟨r, hr, h⟩ := h
    obtain ⟨t, rfl, -⟩ := inlineTransfer_ok h
    obtain ⟨c, -, hpool, -⟩ := (addToRexReturnPool_returned hi.ret hp (hi.balanced hp) hr).moved
    rw [hp, Option.map_some] at hpool
    exact ⟨_, hpool⟩
  · simp only [bind_ok, check_ok, exists_const, pure_ok] at h
    rw [← h.2]
    exact ⟨p, hp⟩

omit [FloatOps] in
lemma channelNamebids_raises {p : RexPool} (hi : RexInv now s.pools s.rex)
    (hp : s.pools.rexpool = some p) :
    Raises (· ∈ Token.transferErrors) (channelNamebids now s) := by
  unfold channelNamebids
  rw [hp]
  refine .bind (fun e h => by cases h) fun q hq => ?_
  split_ifs
  · refine .bind ?_ fun s₁ h₁ => ?_
    · unfold channelToRex
      split_ifs
      · rw [addToRexReturnPool_eq hi.ret (le_refl now)]
        refine .bind (.ok _) fun r _ => .bind (Token.transfer_raises _ _ _ _ _ _ _) fun t _ => .ok _
      · intro e he
        simp [check, Bind.bind, Except.bind, Pure.pure, Except.pure] at he
    · obtain ⟨q', hq'⟩ := channelToRex_pool hi hp h₁
      rw [hq']
      exact .bind (fun e h => by cases h) fun _ _ => .ok _
  · exact .ok s

/-- Where the maintenance run can stop. -/
theorem runrex_stuck {max : ℕ} (hi : RexInv now s.pools s.rex) (h : runrex now max s = .error e) :
    (¬ rexSystemInitialized s.pools ∧ e = rexNotInitialized) ∨
      (∃ r, rexSystemInitialized s.pools ∧ updateRexPool now s.pools = .ok r ∧
        channelNamebids now { s with pools := r } = .error e) ∨
      ∃ s₁, Effects now π s s₁ ∧ (s₁.voting = s.voting ∧ s₁.isAccount = s.isAccount) ∧
        LoanStuck s₁ e := by
  unfold runrex at h
  simp only [bind_error, check_error, check_ok, exists_const] at h
  rcases h with ⟨hno, rfl⟩ | ⟨hinit, h | ⟨r, hr, h | ⟨s₁, h₁, h | ⟨s₂, h₂, h | ⟨s₃, h₃, h⟩⟩⟩⟩⟩
  · exact Or.inl ⟨hno, rfl⟩
  · rw [updateRexPool_eq hi.ret (le_refl now)] at h
    cases h
  · exact Or.inr (Or.inl ⟨r, hinit, hr, h⟩)
  · have heff : Effects now π s s₁ :=
      (Effect.distribute hr).single.trans (channelNamebids_effects h₁).1
    obtain ⟨hvoting, haccounts, -⟩ := channelNamebids_frame h₁
    obtain ⟨s', hs', hkept, hu⟩ := processLoans_error (π := π) (heff.rexInv hi) h
    exact Or.inr (Or.inr ⟨s', heff.trans hs',
      ⟨hkept.voting.trans hvoting, hkept.accounts.trans haccounts⟩, hu⟩)
  · have heff : Effects now π s s₂ :=
      (Effect.distribute hr).single.trans
        ((channelNamebids_effects h₁).1.trans (processLoans_effects h₂))
    obtain ⟨hvoting, haccounts, -⟩ := channelNamebids_frame h₁
    obtain ⟨s', hs', hkept, hu⟩ := processLoans_error (π := π) (heff.rexInv hi) h
    have hall := (processLoans_bidsKept h₂).trans hkept
    exact Or.inr (Or.inr ⟨s', heff.trans hs',
      ⟨hall.voting.trans hvoting, hall.accounts.trans haccounts⟩, hu⟩)
  · have heff : Effects now π s s₃ := (Effect.distribute hr).single.trans
      ((channelNamebids_effects h₁).1.trans
      ((processLoans_effects h₂).trans (processLoans_effects h₃)))
    have hset : s₁.pools.Settled := (channelNamebids_effects (π := π) h₁).2
    obtain ⟨s', hs'⟩ : ∃ s', processOrders max s₃ = .ok s' :=
      processOrders_total (heff.rexInv hi)
        ((processLoans_bidsKept h₃).settled ((processLoans_bidsKept h₂).settled hset))
    rw [hs'] at h
    cases h

/-- The messages of a maintenance run. -/
theorem runrex_error {max : ℕ} (hi : RexInv now s.pools s.rex) (h : runrex now max s = .error e) :
    e = rexNotInitialized ∨ e ∈ Token.transferErrors ∨ ∃ s₁, Effects now π s s₁ ∧
      LoanStuck s₁ e := by
  rcases runrex_stuck hi h with ⟨-, he⟩ | ⟨r, hinit, hr, h⟩ | ⟨s₁, heff, -, hstuck⟩
  · exact Or.inl he
  · have heff : Effect now π s { s with pools := r } := Effect.distribute hr
    obtain ⟨p, hp⟩ := Option.isSome_iff_exists.mp hinit
    obtain ⟨c, -, hpool, -⟩ := (updateRexPool_returned hi.ret (fun p hp => hi.balanced hp) hr).moved
    rw [hp, Option.map_some] at hpool
    exact Or.inr (Or.inl (channelNamebids_raises (heff.rexInv hi) hpool e h))
  · exact Or.inr (Or.inr ⟨s₁, heff, hstuck⟩)

end
end TelosSystem
