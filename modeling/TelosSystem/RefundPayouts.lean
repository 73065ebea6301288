import TelosSystem.AccountSafety
import TelosSystem.RexBounds

/-! The payouts of refunds. Every stake change of an account replaces or cancels the transaction that is
scheduled to pay its refund; a payout that is scheduled when a refund is pending succeeds once it is due. -/
namespace TelosSystem
open Ledger

/-- A stake that `a` is the owner of and that leaves the refunds alone: for another account, or given
to `a` by another one. -/
def Action.CancelsPayout (a : Name) : Action → Prop
  | .delegatebw source receiver _ _ given =>
    source ≠ stakeAccount ∧ (if given then receiver else source) = a ∧
      (given = true ∨ receiver ≠ a)
  | _ => False

/-- A refund is pending, and no transaction is scheduled to pay it. -/
def State.Unscheduled (s : State) (a : Name) : Prop :=
  (s.staking.refunds.lookup a).isSome ∧ s.staking.deferred.lookup a = none

inductive RefundMove (now : BlockTimestamp) (a : Name) (action : Action) (s s' : State) : Prop
  | kept (refunds : s'.staking.refunds.lookup a = s.staking.refunds.lookup a)
      (deferred : s'.staking.deferred.lookup a = s.staking.deferred.lookup a)
  | collected (gone : s'.staking.refunds.lookup a = none)
  | settled (other : a ≠ stakeAccount) (row : ∀ r, s'.staking.refunds.lookup a = some r →
      0 < r.netAmount + r.cpuAmount ∧
        (r.requestTime = now.sec ∨ ∃ r₀, s.staking.refunds.lookup a = some r₀ ∧
        r.requestTime = r₀.requestTime))
      (deferred : s'.staking.deferred.lookup a =
        if (s'.staking.refunds.lookup a).isSome then some ⟨now.sec, refundDelaySec⟩ else none)
  | cancelled (cancels : action.CancelsPayout a)
      (refunds : s'.staking.refunds.lookup a = s.staking.refunds.lookup a)
      (deferred : s'.staking.deferred.lookup a = none)

section
variable {now : BlockTimestamp} {s s' : State}

/-- The refund of the owner is scheduled exactly when one is left. -/
lemma updateRefund_settled {owner : Name} {net cpu n c : ℤ} {scheduled : Bool}
    (h : updateRefund now owner net cpu s = .ok (n, c, scheduled, s')) :
    scheduled = (s'.staking.refunds.lookup owner).isSome ∧
    s'.staking.deferred = s.staking.deferred ∧
      ∀ r, s'.staking.refunds.lookup owner = some r → 0 < r.netAmount + r.cpuAmount ∧
        (r.requestTime = now.sec ∨ ∃ r₀, s.staking.refunds.lookup owner = some r₀ ∧
          r.requestTime = r₀.requestTime) := by
  unfold updateRefund at h
  split at h
  · rename_i r hr
    simp only [bind_ok, check_ok, exists_const] at h
    obtain ⟨-, -, h⟩ := h
    by_cases hz : (netted r.netAmount net).1 = 0 ∧ (netted r.cpuAmount cpu).1 = 0
    · rw [if_pos hz, pure_ok] at h
      cases h
      have hgone : (s.eraseRefund owner).staking.refunds.lookup owner = none :=
        AList.lookup_erase _ _
      rw [hgone]
      exact ⟨rfl, rfl, fun _ h => absurd h (by simp)⟩
    · rw [if_neg hz, pure_ok] at h
      cases h
      unfold State.setRefund
      dsimp only
      rw [AList.lookup_insert]
      refine ⟨rfl, rfl, fun r' hr' => ?_⟩
      cases hr'
      have hn := (netted_spec r.netAmount net).2.1
      have hc := (netted_spec r.cpuAmount cpu).2.1
      dsimp only
      refine ⟨by omega, ?_⟩
      split_ifs
      · exact Or.inl rfl
      · exact Or.inr ⟨r, hr, rfl⟩
  · rename_i hr
    by_cases hneg : net < 0 ∨ cpu < 0
    · rw [if_pos hneg, pure_ok] at h
      cases h
      unfold State.setRefund
      dsimp only
      rw [AList.lookup_insert]
      refine ⟨rfl, rfl, fun r' hr' => ?_⟩
      cases hr'
      refine ⟨?_, Or.inl rfl⟩
      dsimp only
      split_ifs <;> omega
    · rw [if_neg hneg, pure_ok] at h
      cases h
      rw [hr]
      exact ⟨rfl, rfl, fun _ h => absurd h (by simp)⟩

lemma scheduleRefund_lookup (s : State) (owner a : Name) (scheduled : Bool) :
    (s.scheduleRefund owner now scheduled).staking.deferred.lookup a =
      if a = owner then (if scheduled then some ⟨now.sec, refundDelaySec⟩ else none)
      else s.staking.deferred.lookup a := by
  unfold State.scheduleRefund
  dsimp only
  cases scheduled with
  | false => simp only [Bool.false_eq_true, if_false, Table.lookup_erase']
  | true => simp only [if_true, Table.lookup_insert']

variable [FloatOps]

/-- A stake change settles or cancels the payout of its owner, and leaves those of others. -/
lemma changebw_refundMove {auth : List Name} {source receiver owner : Name} {net cpu : ℤ}
    {transfer : Bool} {action : Action} (ho : owner = if transfer then receiver else source)
    (hcancel : source ≠ stakeAccount → ¬ (transfer = false ∧ owner = receiver) → 0 ≤ net + cpu →
      action.CancelsPayout owner)
    (hgiven : transfer = true → 0 ≤ net + cpu)
    (h : changebw ⟨now, auth⟩ source receiver net cpu transfer s = .ok s') (a : Name) :
    RefundMove now a action s s' := by
  by_cases hs : source = stakeAccount
  · subst hs
    obtain ⟨hr, hd⟩ := changebw_unsettled h
    exact RefundMove.kept (by rw [hr]) (by rw [hd])
  · obtain ⟨n, c, scheduled, m, m', hsettled⟩ := changebw_settled hs h
    rw [← ho] at hsettled
    obtain ⟨hb, ⟨hbr, hbd⟩, hrefunds, hdeferred⟩ := hsettled
    have hlookup : s'.staking.deferred.lookup a =
      if a = owner then (if scheduled then some ⟨now.sec, refundDelaySec⟩ else none)
        else m'.staking.deferred.lookup a := by
      rw [hdeferred, scheduleRefund_lookup]
    unfold refundBalances at hb
    dsimp only at hb
    by_cases hsettles : (transfer = false ∧ owner = receiver) ∨ net + cpu < 0
    · rw [if_pos hsettles] at hb
      obtain ⟨hscheduled, hd, hrow⟩ := updateRefund_settled hb
      by_cases hao : a = owner
      · subst hao
        rw [if_pos rfl, hscheduled, ← hrefunds] at hlookup
        have hother : a ≠ stakeAccount := by
          cases transfer with
          | false => exact ho ▸ hs
          | true =>
            have hsum := hgiven rfl
            rcases hsettles with ⟨ht, -⟩ | hneg
            · cases ht
            · omega
        refine RefundMove.settled hother (fun r hr => ?_) hlookup
        rw [← hbr]
        exact hrow r (by rw [← hrefunds]; exact hr)
      · rw [if_neg hao, hd, hbd] at hlookup
        exact RefundMove.kept (by rw [hrefunds, updateRefund_other hao hb, hbr]) hlookup
    · rw [if_neg hsettles] at hb
      cases hb
      rw [not_or, not_lt] at hsettles
      by_cases hao : a = owner
      · subst hao
        rw [if_pos rfl] at hlookup
        exact RefundMove.cancelled (hcancel hs hsettles.1 hsettles.2)
          (by rw [hrefunds, hbr]) hlookup
      · rw [if_neg hao, hbd] at hlookup
        exact RefundMove.kept (by rw [hrefunds, hbr]) hlookup

theorem step.refundMove {l : Label} (h : step now l s s') (a : Name) :
    RefundMove now a l.action s s' := by
  by_cases hu : l.action.Unstakes
  · obtain ⟨auth, action⟩ := l
    unfold step at h
    cases action with
    | delegatebw source receiver net cpu transfer =>
      simp only [exec, delegatebw, stakeAmounts, bind_ok, check_ok, exists_const] at h
      obtain ⟨⟨-, -, -, -, hpos⟩, -, h⟩ := h
      have hcancel : source ≠ stakeAccount →
        ¬ (transfer = false ∧ (if transfer then receiver else source) = receiver) →
          0 ≤ net.amount + cpu.amount →
          (Action.delegatebw source receiver net cpu transfer).CancelsPayout
            (if transfer then receiver else source) := by
        intro hs hself _
        refine ⟨hs, rfl, ?_⟩
        cases transfer with
        | true => exact Or.inl rfl
        | false => exact Or.inr fun he => hself ⟨rfl, he.symm⟩
      exact changebw_refundMove rfl hcancel (fun _ => hpos.le) h a
    | undelegatebw source receiver net cpu =>
      simp only [exec, undelegatebw, stakeAmounts, bind_ok, check_ok, exists_const] at h
      obtain ⟨⟨-, -, -, -, hpos⟩, -, h⟩ := h
      refine changebw_refundMove rfl (fun _ _ hsum => ?_) (fun ht => by cases ht) h a
      omega
    | refund owner =>
      simp only [exec, refund, bind_ok, pure_ok] at h
      obtain ⟨-, -, r, hr, -, -, s₁, h₁, rfl⟩ := h
      have hstaking := inlineTransfer_staking h₁
      by_cases hao : a = owner
      · subst hao
        exact RefundMove.collected (AList.lookup_erase _ _)
      · refine RefundMove.kept ?_ ?_
        · rw [← hstaking]
          exact AList.lookup_erase_ne hao
        · rw [← hstaking]
          rfl
    | _ => exact hu.elim
  · by_cases had : l.action.Administers
    · have htables := h.administered had
      simp only [State.heldTables, Prod.mk.injEq] at htables
      obtain ⟨-, -, -, hstaking⟩ := htables
      exact RefundMove.kept (by rw [hstaking]) (by rw [hstaking])
    · have hord := h.ordinary hu had
      exact RefundMove.kept (by rw [hord.refunds]) (by rw [hord.deferred])

/-- A pending refund without a scheduled payout has been so since a stake that cancelled it. -/
theorem unscheduled_since {t₀ t : BlockTimestamp} {s₀ : State} {tr : List (BlockTimestamp × Label)}
    {a : Name} (h0 : ¬ s₀.Unscheduled a) (hrun : TimedRun step t₀ s₀ tr t s) (h : s.Unscheduled a) :
    HeldSince step (fun _ l _ _ => l.action.CancelsPayout a)
      (fun s => s.Unscheduled a) t₀ s₀ tr t s := by
  refine TimedRun.heldSince (I := fun _ => True) (fun _ _ => trivial)
    (fun {now l s s'} _ hstep hnot hnow => ?_) trivial
    h0 hrun h
  obtain ⟨hrow, hnone⟩ := hnow
  cases hstep.refundMove a with
  | kept refunds deferred =>
    refine absurd ⟨?_, ?_⟩ hnot
    · rw [← refunds]
      exact hrow
    · rw [← deferred]
      exact hnone
  | collected gone => rw [gone] at hrow; cases hrow
  | settled other row deferred =>
    rw [if_pos hrow, hnone] at deferred
    cases deferred
  | cancelled cancels => exact cancels

/-- Alice unstakes, and Bob then stakes for her in her name. -/
def cancelTrace : List (BlockTimestamp × Label) :=
  [(launchTime, ⟨[alice], .delegatebw alice alice ⟨50000, tlos⟩ ⟨70000, tlos⟩ false⟩),
    (launchTime, ⟨[alice], .undelegatebw alice alice ⟨20000, tlos⟩ ⟨0, tlos⟩⟩),
    (days 1, ⟨[bob], .delegatebw bob alice ⟨10, tlos⟩ ⟨0, tlos⟩ true⟩)]

omit [FloatOps] in
theorem bob_cancels :
    (launched (cancelTrace.take 2)).staking.deferred.lookup alice =
      some ⟨launchTime.sec, refundDelaySec⟩ ∧
    HeldSince (@step launchFloats) (fun _ l _ _ => l.action.CancelsPayout alice)
      (fun s => s.Unscheduled alice)
      launchTime launchState cancelTrace (days 1) (launched cancelTrace) := by
  let := launchFloats
  have hrun : TimedRun step launchTime launchState cancelTrace (days 1) (launched cancelTrace) :=
    launched_run (by decide +kernel) (by decide)
  have h0 : ¬ launchState.Unscheduled alice := fun h => absurd h.1 (by decide)
  refine ⟨by decide +kernel, unscheduled_since h0 hrun ⟨?_, ?_⟩⟩
  · decide +kernel
  · decide +kernel

/-- The refund of `a` was not asked for after its payout was scheduled, nor later than `t`; the
staked tokens themselves are never refunded. -/
structure PayoutInv (a : Name) (t : BlockTimestamp) (s : State) : Prop where
  asked : ∀ r, s.staking.refunds.lookup a = some r → r.requestTime ≤ t.sec ∧
    0 < r.netAmount + r.cpuAmount
  scheduled : ∀ r d, s.staking.refunds.lookup a = some r → s.staking.deferred.lookup a = some d →
    r.requestTime ≤ d.sentAt ∧ d.delaySec = refundDelaySec
  other : (s.staking.refunds.lookup a).isSome → a ≠ stakeAccount

lemma step.payoutInv {a : Name} {t : BlockTimestamp} {l : Label} (hi : PayoutInv a t s)
    (hle : t ≤ now) (h : step now l s s') : PayoutInv a now s' := by
  have hlater : ∀ r, s.staking.refunds.lookup a = some r → r.requestTime ≤ now.sec ∧
    0 < r.netAmount + r.cpuAmount := by
    intro r hr
    obtain ⟨hasked, hpos⟩ := hi.asked r hr
    exact ⟨hasked.trans (BlockTimestamp.sec_mono hle), hpos⟩
  cases h.refundMove a with
  | kept refunds deferred =>
    constructor
    · rw [refunds]
      exact hlater
    · rw [refunds, deferred]
      exact hi.scheduled
    · rw [refunds]
      exact hi.other
  | collected gone =>
    constructor
    · rw [gone]
      exact fun r hr => absurd hr (by simp)
    · rw [gone]
      exact fun r d hr => absurd hr (by simp)
    · rw [gone]
      exact fun h => by cases h
  | settled other row deferred =>
    have hasked : ∀ r, s'.staking.refunds.lookup a = some r → r.requestTime ≤ now.sec ∧
      0 < r.netAmount + r.cpuAmount := by
      intro r hr
      obtain ⟨hpos, heq | ⟨r₀, hr₀, heq⟩⟩ := row r hr
      · exact ⟨heq.le, hpos⟩
      · exact ⟨heq.le.trans (hlater r₀ hr₀).1, hpos⟩
    refine ⟨hasked, fun r d hr hd => ?_, fun _ => other⟩
    rw [hr, Option.isSome_some, if_pos rfl, hd] at deferred
    cases deferred
    exact ⟨(hasked r hr).1, rfl⟩
  | cancelled cancels refunds deferred =>
    constructor
    · rw [refunds]
      exact hlater
    · rw [deferred]
      exact fun r d _ hd => absurd hd (by simp)
    · rw [refunds]
      exact hi.other

lemma Genesis.payoutInv {t₀ t : BlockTimestamp} {s₀ : State} {tr : List (BlockTimestamp × Label)}
    (hg : Genesis s₀) (hrun : TimedRun step t₀ s₀ tr t s) (a : Name) : PayoutInv a t s := by
  refine hrun.stateInvariant (PayoutInv a) ⟨fun r hr => ?_, fun r d hr _ => ?_, fun h => ?_⟩ fun hi
    hle hs => hs.payoutInv hi hle
  · rw [hg.refunds] at hr
    cases hr
  · rw [hg.refunds] at hr
    cases hr
  · rw [hg.refunds] at h
    cases h

def Token.symbolOf (t : Token) (code : UInt64) : Option Symbol :=
  (t.stats.lookup code).map fun st => st.supply.symbol

/-- Core tokens can be transferred: their row is in order and what there is of them is conserved. -/
structure CoreIssued (s : State) : Prop where
  conserved : s.token.Conserved
  symbol : s.token.symbolOf s.core.code = some s.core
  valid : s.core.isValid = true

omit [FloatOps] in
lemma Token.addBalance_stats {owner : Name} {value : Asset} {t t' : Token}
    (h : Token.addBalance owner value t = .ok t') : t'.stats = t.stats := by
  unfold Token.addBalance at h
  split at h
  · cases h
    rfl
  · simp only [bind_ok, check_ok, exists_const, pure_ok] at h
    obtain ⟨-, rfl⟩ := h
    rfl

omit [FloatOps] in
lemma Token.Move.symbolOf {t t' : Token} (h : Token.Move t t') (code : UInt64) :
    t'.symbolOf code = t.symbolOf code := by
  cases h with
  | transfer h =>
    simp only [Token.transfer, bind_ok, require_ok, check_ok, exists_const] at h
    obtain ⟨-, -, -, st, -, -, -, -, -, t₁, h₁, h₂⟩ := h
    rw [Token.symbolOf, Token.symbolOf, Token.addBalance_stats h₂]
    simp only [Token.subBalance, bind_ok, require_ok, check_ok, exists_const, pure_ok] at h₁
    obtain ⟨held, -, -, -, rfl⟩ := h₁
    rfl
  | @issue _ _ quantity _ _ _ h =>
    simp only [Token.issue, bind_ok, check_ok, exists_const, require_ok] at h
    obtain ⟨-, -, st, hst, -, -, -, -, -, -, h⟩ := h
    rw [Token.symbolOf, Token.symbolOf, Token.addBalance_stats h]
    by_cases hc : code = quantity.symbol.code
    · subst hc
      simp [Token.setStats, hst]
    · simp [Token.setStats, AList.lookup_insert_ne hc]

omit [FloatOps] in
lemma Token.Moves.symbolOf {t t' : Token} (h : Token.Moves t t') (code : UInt64) :
    t'.symbolOf code = t.symbolOf code := by
  induction h with
  | refl => rfl
  | tail _ hstep ih => exact (hstep.symbolOf code).trans ih

omit [FloatOps] in
/-- What a transfer needs. -/
lemma Token.transfer_total {isAccount : Name → Bool} {auth : List Name} {source dest : Name}
    {quantity : Asset} {memoSize : ℕ} {t : Token} (hc : t.Conserved)
    (hsym : t.symbolOf quantity.symbol.code = some quantity.symbol)
    (hvalid : quantity.symbol.isValid = true) (hne : source ≠ dest) (hauth : source ∈ auth)
    (hdest : isAccount dest = true) (hmemo : memoSize ≤ 256) (hpos : 0 < quantity.amount)
    (hle : quantity.amount ≤ t.balance source quantity.symbol.code) :
    ∃ t', t.transfer isAccount auth source dest quantity memoSize = .ok t' := by
  obtain ⟨st, hst, hsym⟩ := Option.map_eq_some_iff.mp hsym
  have hrow : ∀ owner held, t.accounts.lookup (owner, quantity.symbol.code) = some held →
    held.symbol = quantity.symbol := by
    intro owner held hl
    obtain ⟨-, st', hst', hs⟩ := hc.accounts _ held hl
    rw [hst] at hst'
    cases hst'
    exact hs.trans hsym
  have hquantity : quantity.isValid = true := by
    have h₁ := hc.balance_le source quantity.symbol.code
    have h₂ := hc.supply_le quantity.symbol.code
    have hmax : -maxAmount ≤ 0 := by decide
    simp only [Asset.isValid, hvalid, Bool.and_true, decide_eq_true_eq]
    omega
  have hheld : ∃ held, t.accounts.lookup (source, quantity.symbol.code) = some held ∧
    quantity.amount ≤ held.amount := by
    unfold Token.balance at hle
    cases hl : t.accounts.lookup (source, quantity.symbol.code) with
    | none =>
      rw [Table.valueAt_none hl] at hle
      omega
    | some held =>
      rw [Table.valueAt_some hl] at hle
      exact ⟨held, rfl, hle⟩
  obtain ⟨held, hl, hcovered⟩ := hheld
  have hsub : Token.subBalance source quantity t = .ok
      (t.setAccount source quantity.symbol.code
      { held with amount := held.amount - quantity.amount }) := by
    simp only [Token.subBalance, bind_ok, require_ok, check_ok, exists_const, pure_ok]
    exact ⟨held, hl, hcovered, hrow _ _ hl, rfl⟩
  have hadd : ∃ t', Token.addBalance dest quantity
      (t.setAccount source quantity.symbol.code
      { held with amount := held.amount - quantity.amount }) = .ok t' := by
    unfold Token.addBalance
    have hother : (dest, quantity.symbol.code) ≠ (source, quantity.symbol.code) :=
      fun he => hne (Prod.mk.inj he).1.symm
    rw [Token.setAccount]
    dsimp only
    rw [AList.lookup_insert_ne hother]
    cases hd : t.accounts.lookup (dest, quantity.symbol.code) with
    | none => exact ⟨_, rfl⟩
    | some row =>
      simp only [bind_ok, check_ok, exists_const, pure_ok]
      exact ⟨_, hrow _ _ hd, rfl⟩
  obtain ⟨t', hadd⟩ := hadd
  refine ⟨t', ?_⟩
  simp only [Token.transfer, bind_ok, require_ok, check_ok, exists_const]
  exact ⟨hne, hauth, hdest, st, hst, hquantity, hpos, hsym.symm, hmemo, _, hsub, hadd⟩

/-- Nothing leaves `eosio.stake` but what is unstaked. -/
lemma step.custody_le {l : Label} (h : step now l s s') (hl : stakeAccount ∉ l.auth) :
    custodySurplus s ≤ custodySurplus s' := by
  by_cases hq : l.StakeQuiet
  · exact (h.custody hq).ge
  · have hraised : ∀ s', NotLess stakeAccount s s' → s'.staking = s.staking →
      custodySurplus s ≤ custodySurplus s' := by
      intro s' hless hstaking
      rw [custodySurplus, custodySurplus, hstaking]
      exact sub_le_sub_right hless.tokens _
    obtain ⟨auth, action⟩ := l
    unfold step at h
    cases action with
    | transfer source dest quantity memoSize =>
      simp only [exec, tokenTransfer, bind_ok, pure_ok] at h
      obtain ⟨t, ht, rfl⟩ := h
      have hs : source ∈ auth := by
        simp only [Token.transfer, bind_ok, check_ok] at ht
        obtain ⟨-, -, -, hs, -⟩ := ht
        exact hs
      have hord : Ordinary (· ∈ auth) s { s with token := t } := transfer_ordinary hs ht
      exact hraised _ (hord.holdings _ hl) rfl
    | bidrefund bidder newname =>
      have hord : Ordinary (namesAccount = ·) s s' := bidrefund_ordinary rfl h
      refine hraised s' (hord.holdings stakeAccount (by decide)) ?_
      simp only [exec, bidrefund, bind_ok, require_ok, pure_ok] at h
      obtain ⟨amount, -, s₁, h₁, rfl⟩ := h
      have hstaking := inlineTransfer_staking h₁
      exact hstaking
    | _ => exact absurd ⟨hl, trivial⟩ hq

omit [FloatOps] in
lemma Token.Conserved.balance_nonneg {t : Token} (h : t.Conserved) (owner : Name) (code : UInt64) :
    0 ≤ t.balance owner code := by
  unfold Token.balance
  cases hl : t.accounts.lookup (owner, code) with
  | none => rw [Table.valueAt_none hl]
  | some held =>
    rw [Table.valueAt_some hl]
    exact (h.accounts _ held hl).1

/-- `eosio.stake` can pay every refund. -/
lemma refund_covered {t₀ t : BlockTimestamp} {s₀ : State} {tr : List (BlockTimestamp × Label)}
    {a : Name} {r : RefundRequest} (hg : Genesis s₀) (hcore : CoreIssued s₀)
    (hstake : ∀ x ∈ tr, stakeAccount ∉ x.2.auth) (hrun : TimedRun step t₀ s₀ tr t s)
    (hr : s.staking.refunds.lookup a = some r) :
    r.netAmount + r.cpuAmount ≤ s.coreBalance stakeAccount := by
  have hsurplus : custodySurplus s₀ ≤ custodySurplus s :=
    hrun.invariant (fun _ _ s => custodySurplus s₀ ≤ custodySurplus s)
      (fun l => stakeAccount ∉ l.auth) (le_refl _)
      (fun hi _ hl hs => hi.trans (hs.custody_le hl)) hstake
  have hstart : 0 ≤ custodySurplus s₀ := by
    have hbalance : 0 ≤ s₀.coreBalance stakeAccount := hcore.conserved.balance_nonneg _ _
    simpa [custodySurplus, delbandTotal, refundTotal, hg.delband, hg.refunds] using hbalance
  have hinv : StakeInv s.staking := Reachable.stakeInv ⟨t₀, s₀, tr, hg, hrun⟩
  have hdelband : 0 ≤ delbandTotal s.staking :=
    Table.total_nonneg fun key d hd =>
      add_nonneg (hinv.delband key d hd).1 (hinv.delband key d hd).2
  have hrow : r.netAmount + r.cpuAmount ≤ refundTotal s.staking :=
    Table.le_total (fun owner r hr =>
      add_nonneg (hinv.refunds owner r hr).1 (hinv.refunds owner r hr).2) hr
  have hheld : 0 ≤ s.coreBalance stakeAccount - (delbandTotal s.staking + refundTotal s.staking) :=
    hstart.trans hsurplus
  omega

/-- A pending refund can be collected as soon as it is old enough. -/
theorem refund_collectable {t₀ t : BlockTimestamp} {s₀ : State} {tr : List (BlockTimestamp × Label)}
    {a : Name} {r : RefundRequest} (hg : Genesis s₀) (hcore : CoreIssued s₀)
    (hstake : ∀ x ∈ tr, stakeAccount ∉ x.2.auth) (hrun : TimedRun step t₀ s₀ tr t s)
    (hacc : s.isAccount a = true) (hr : s.staking.refunds.lookup a = some r)
    (hdue : (r.requestTime + refundDelaySec) * 1000000 ≤ now.usec) :
    ∃ s', step now ⟨[a], .refund a⟩ s s' ∧
      s'.coreBalance a = s.coreBalance a + (r.netAmount + r.cpuAmount) ∧
      s'.staking.refunds.lookup a = none := by
  have ha : a ≠ stakeAccount := (hg.payoutInv hrun a).other (by rw [hr]; rfl)
  have hmoves : CashMoved s₀ s := tokens_of_run hrun
  have hcored : s.core = s₀.core :=
    hrun.stateInvariant (fun _ s => s.core = s₀.core) rfl fun hi _ hs => hs.core.trans hi
  have hsymbol : s.token.symbolOf s.core.code = some s.core := by
    rw [hmoves.tokens.symbolOf, hcored]
    exact hcore.symbol
  have htotal : ∃ token, s.token.transfer s.isAccount [stakeAccount] stakeAccount a
      ⟨r.netAmount + r.cpuAmount, s.core⟩ 7 = .ok token :=
    Token.transfer_total (hmoves.tokens.conserved hcore.conserved) hsymbol
      (hcored ▸ hcore.valid) (Ne.symm ha)
      (List.mem_singleton.mpr rfl) hacc (by decide) ((hg.payoutInv hrun a).asked r hr).2
        (refund_covered hg hcore hstake hrun hr)
  obtain ⟨token, ht⟩ := htotal
  have hbalance := (Token.transfer_spec ht).2.2 a s.core.code
  rw [if_pos rfl, if_pos rfl, if_neg ha, sub_zero] at hbalance
  refine ⟨({ s with token } : State).eraseRefund a, ?_, hbalance, AList.lookup_erase _ _⟩
  simp only [step, exec, refund, State.inlineTransfer, bind_ok, requireAuth_ok, require_ok,
    check_ok, exists_const, pure_ok]
  exact ⟨List.mem_singleton.mpr rfl, r, hr, hdue, { s with token }, ⟨token, ht, rfl⟩, rfl⟩

/-- A payout that is scheduled when a refund is pending succeeds whenever it runs after its delay: the
owner of the refund receives all of it, and nothing stays pending. -/
theorem payout_succeeds {t₀ t : BlockTimestamp} {s₀ : State} {tr : List (BlockTimestamp × Label)}
    {a : Name} {r : RefundRequest} {d : DeferredRefund} (hg : Genesis s₀) (hcore : CoreIssued s₀)
    (hstake : ∀ x ∈ tr, stakeAccount ∉ x.2.auth) (hrun : TimedRun step t₀ s₀ tr t s)
    (hacc : s.isAccount a = true) (hr : s.staking.refunds.lookup a = some r)
    (hd : s.staking.deferred.lookup a = some d) (hdue : d.sentAt + d.delaySec ≤ now.sec) :
    ∃ s', step now ⟨[a], .refund a⟩ s s' ∧
      s'.coreBalance a = s.coreBalance a + (r.netAmount + r.cpuAmount) ∧
      s'.staking.refunds.lookup a = none := by
  obtain ⟨hasked, hdelay⟩ := (hg.payoutInv hrun a).scheduled r d hr hd
  refine refund_collectable hg hcore hstake hrun hacc hr ?_
  have hsec : now.sec * 1000000 ≤ now.usec := Nat.div_mul_le_self _ _
  rw [hdelay] at hdue
  have hold : (r.requestTime + refundDelaySec) * 1000000 ≤ now.sec * 1000000 :=
    Nat.mul_le_mul_right _ ((Nat.add_le_add_right hasked _).trans hdue)
  exact hold.trans hsec

def payoutTrace : List (BlockTimestamp × Label) :=
  [(launchTime, ⟨[alice], .delegatebw alice alice ⟨5000, tlos⟩ ⟨5000, tlos⟩ false⟩),
    (launchTime, ⟨[alice], .undelegatebw alice alice ⟨1000, tlos⟩ ⟨0, tlos⟩⟩),
    (days 1, ⟨[alice], .undelegatebw alice alice ⟨0, tlos⟩ ⟨2000, tlos⟩⟩)]

omit [FloatOps] in
theorem alice_paid_out : (smallEnd payoutTrace).coreBalance alice = 5000 ∧
    ∃ s', @step launchFloats (days 4) ⟨[alice], .refund alice⟩ (smallEnd payoutTrace) s' ∧
      s'.coreBalance alice = (smallEnd payoutTrace).coreBalance alice + (1000 + 2000) ∧
      s'.staking.refunds.lookup alice = none := by
  let := launchFloats
  have hrun : TimedRun step launchTime smallState payoutTrace (days 1) (smallEnd payoutTrace) :=
    timedRun_stateAfter (by decide) (by decide +kernel)
  have hcore : CoreIssued smallState :=
    ⟨smallToken_reachable.conserved, by decide +kernel, by decide⟩
  refine ⟨by decide +kernel, ?_⟩
  exact payout_succeeds (r := ⟨(days 1).sec, 1000, 2000⟩) (d := ⟨(days 1).sec, refundDelaySec⟩)
    smallState_genesis
    hcore (by decide) hrun (by decide +kernel) (by decide +kernel) (by decide +kernel) (by decide)

end
end TelosSystem
