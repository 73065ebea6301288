import TelosSystem.Effects

/-! The helper functions of the REX actions as effects, up to the maintenance run. -/
namespace TelosSystem
open Ledger

lemma fundTotal_insert (f : Table Name ℤ) (owner : Name) (b : ℤ) :
    fundTotal (f.insert owner b) = fundTotal f - (f.lookup owner).getD 0 + b := by
  rw [fundTotal, Table.total_insert]
  simp [Table.valueAt, fundTotal]

lemma transferToFund_ok {owner : Name} {amount : Asset} {s s' : State}
    (h : transferToFund owner amount s = .ok s') : 0 < amount.amount ∧
      ∃ funds, s' = { s with rex := { s.rex with funds } } ∧
        fundTotal funds = fundTotal s.rex.funds + amount.amount := by
  simp only [transferToFund, bind_ok, check_ok, exists_const] at h
  obtain ⟨⟨hpos, -⟩, h⟩ := h
  refine ⟨hpos, ?_⟩
  cases hl : s.rex.funds.lookup owner with
  | none =>
    simp only [hl, pure_ok] at h
    subst h
    exact ⟨_, rfl, by rw [fundTotal_insert, hl, Option.getD_none]; omega⟩
  | some b =>
    simp only [hl, pure_ok] at h
    subst h
    exact ⟨_, rfl, by rw [fundTotal_insert, hl, Option.getD_some]; omega⟩

lemma transferFromFund_ok {owner : Name} {amount : Asset} {s s' : State}
    (h : transferFromFund owner amount s = .ok s') : 0 < amount.amount ∧
      ∃ funds, s' = { s with rex := { s.rex with funds } } ∧
        fundTotal funds = fundTotal s.rex.funds - amount.amount := by
  simp only [transferFromFund, bind_ok, check_ok, exists_const, require_ok, pure_ok] at h
  obtain ⟨⟨hpos, -⟩, b, hl, -, rfl⟩ := h
  exact ⟨hpos, _, rfl, by rw [fundTotal_insert, hl, Option.getD_some]; omega⟩

lemma inlineTransfer_ok {source dest : Name} {quantity : Asset} {memoSize : ℕ} {s s' : State}
    (h : s.inlineTransfer source dest quantity memoSize = .ok s') :
    ∃ t, s' = { s with token := t } ∧ source ≠ dest ∧ 0 < quantity.amount ∧
      (quantity.symbol.code = s.core.code →
        Paid s.core.code source dest quantity.amount s.token t) ∧
      ∀ a, a ≠ source → a ≠ dest → t.balance a s.core.code = s.token.balance a s.core.code := by
  simp only [State.inlineTransfer, bind_ok, pure_ok] at h
  obtain ⟨t, ht, rfl⟩ := h
  obtain ⟨hne, hpos, hb⟩ := Token.transfer_spec ht
  refine ⟨t, rfl, hne, hpos, fun hc => ⟨hne, hpos, fun a => ?_⟩, fun a hs hd => ?_⟩
  · rw [hb a, if_pos hc.symm]
  · rw [hb a, if_neg hd, if_neg hs]
    simp

lemma creditFund_ok {owner : Name} {amount : ℤ} {s s' : State}
    (h : creditFund owner amount s = .ok s') :
    ∃ funds, s' = { s with rex := { s.rex with funds } } ∧
      fundTotal funds = fundTotal s.rex.funds + max 0 amount := by
  unfold creditFund at h
  split_ifs at h with hp
  · obtain ⟨-, funds, rfl, hf⟩ := transferToFund_ok h
    exact ⟨funds, rfl, by rw [hf, max_eq_right hp.le]⟩
  · cases h
    exact ⟨_, rfl, by rw [max_eq_left (not_lt.mp hp), add_zero]⟩

lemma takeOrder_eq (owner : Name) (s : State) : ∃ stakeChange, takeOrder owner s =
    (openRequest owner s.rex.orders, closedProceeds owner s.rex.orders, stakeChange,
      { s with rex := { s.rex with orders := collectOrder owner s.rex.orders } }) := by
  unfold takeOrder openRequest closedProceeds collectOrder
  cases s.rex.orders.lookup owner with
  | none => exact ⟨0, rfl⟩
  | some o =>
    by_cases ho : o.isOpen
    · simp only [ho, if_true]
      exact ⟨0, rfl⟩
    · simp only [ho, Bool.false_eq_true, if_false]
      exact ⟨_, rfl⟩

lemma updateLoanLimits_ok {k : LoanKind} {receiver : Name} {delta : ℤ} {s s' : State}
    (h : updateLoanLimits k receiver delta s = .ok s') :
    ∃ resources, s' = { s with resources } ∧ LoanMoved k receiver delta s.resources resources := by
  unfold updateLoanLimits at h
  cases k <;>
  · obtain ⟨⟨resources, rfl⟩, hw, hram⟩ := updateResourceLimits_moved h
    refine ⟨resources, rfl, fun j a => ?_, hram⟩
    rw [show totalWeight resources j a = _ from hw j a]
    cases j <;> simp [pick]

/-! What name bids have brought in, and whether REX is available, change in few places. -/

def RexPool.marks (p : RexPool) : ℤ × ℤ := (p.namebidProceeds, p.totalRex)

/-- The proceeds of name bids have been handed on. -/
def RexPools.Settled (r : RexPools) : Prop := ∀ p, r.rexpool = some p → p.namebidProceeds ≤ 0

structure BidsKept (s s' : State) : Prop where
  token : s'.token = s.token
  core : s'.core = s.core
  proceeds : s'.pools.rexpool.map RexPool.namebidProceeds =
    s.pools.rexpool.map RexPool.namebidProceeds
  voting : s'.voting = s.voting
  accounts : s'.isAccount = s.isAccount

namespace BidsKept
variable {s s' s'' : State}

lemma refl (s : State) : BidsKept s s := ⟨rfl, rfl, rfl, rfl, rfl⟩

lemma trans (h : BidsKept s s') (h' : BidsKept s' s'') : BidsKept s s'' :=
  ⟨h'.token.trans h.token, h'.core.trans h.core, h'.proceeds.trans h.proceeds,
    h'.voting.trans h.voting,
    h'.accounts.trans h.accounts⟩

lemma settled (h : BidsKept s s') (hs : s.pools.Settled) : s'.pools.Settled := by
  intro q hq
  have hp := h.proceeds
  rw [hq, Option.map_some] at hp
  obtain ⟨p, hp, hpq⟩ := Option.map_eq_some_iff.mp hp.symm
  exact hpq ▸ hs p hp

end BidsKept

lemma proceeds_of_marks {r r' : RexPools}
    (h : r'.rexpool.map RexPool.marks = r.rexpool.map RexPool.marks) :
    r'.rexpool.map RexPool.namebidProceeds = r.rexpool.map RexPool.namebidProceeds := by
  have hm := congrArg (Option.map Prod.fst) h
  simp only [Option.map_map] at hm
  exact hm

lemma updateRexPool_marks {now : BlockTimestamp} {r r' : RexPools}
    (h : updateRexPool now r = .ok r') :
    r'.rexpool.map RexPool.marks = r.rexpool.map RexPool.marks := by
  unfold updateRexPool at h
  split at h
  · cases h
    rfl
  · rename_i rp hrp
    dsimp only at h
    split_ifs at h
    · cases h
      rfl
    · simp only [bind_ok, require_ok] at h
      obtain ⟨bs, -, h⟩ := h
      by_cases hd : 0 < (clampProceeds (distribution (effectiveTime now) rp bs)).changeEstimate
      · rw [if_pos hd] at h
        simp only [bind_ok, require_ok, pure_ok] at h
        obtain ⟨p, hp, _, rfl, rfl⟩ := h
        rw [hp]
        rfl
      · rw [if_neg hd] at h
        simp only [bind_ok, pure_ok] at h
        obtain ⟨_, rfl, rfl⟩ := h
        rfl

lemma addToRexReturnPool_marks {now : BlockTimestamp} {fee : ℤ} {r r' : RexPools}
    (h : addToRexReturnPool now fee r = .ok r') :
    r'.rexpool.map RexPool.marks = r.rexpool.map RexPool.marks := by
  simp only [addToRexReturnPool, bind_ok] at h
  obtain ⟨r₁, h₁, h⟩ := h
  rw [← updateRexPool_marks h₁]
  split_ifs at h
  · cases h
    rfl
  · split at h
    · cases h
      rfl
    · cases h
      rfl

lemma addLoanToRexPool_marks {now : BlockTimestamp} {payment rented : ℤ} {new : Bool}
    {r r' : RexPools} (h : addLoanToRexPool now payment rented new r = .ok r') :
    r'.rexpool.map RexPool.marks = r.rexpool.map RexPool.marks := by
  simp only [addLoanToRexPool, bind_ok, require_ok, pure_ok] at h
  obtain ⟨r₁, h₁, p, hp, rfl⟩ := h
  rw [← addToRexReturnPool_marks h₁, hp]
  rfl

lemma processExpiredLoan_bidsKept {now : BlockTimestamp} {k : LoanKind} {num : ℕ} {loan : RexLoan}
    {s s' : State} (h : processExpiredLoan now k num loan s = .ok s') : BidsKept s s' := by
  simp only [processExpiredLoan, bind_ok, require_ok] at h
  obtain ⟨p, hp, h⟩ := h
  have hrem : BidsKept s (s.setPool (removeLoanFromRexPool loan p)) :=
    ⟨rfl, rfl, by rw [hp]; rfl, rfl, rfl⟩
  split_ifs at h with hc
  · simp only [bind_ok] at h
    obtain ⟨r, hr, h⟩ := h
    obtain ⟨resources, rfl, -⟩ := updateLoanLimits_ok h
    exact hrem.trans ⟨rfl, rfl, proceeds_of_marks (addLoanToRexPool_marks hr), rfl, rfl⟩
  · simp only [bind_ok, pure_ok] at h
    obtain ⟨s1, h1, s2, h2, rfl⟩ := h
    obtain ⟨funds, rfl, -⟩ := creditFund_ok h1
    obtain ⟨resources, rfl, -⟩ := updateLoanLimits_ok h2
    exact hrem.trans ⟨rfl, rfl, rfl, rfl, rfl⟩

lemma processLoans_bidsKept {now : BlockTimestamp} {k : LoanKind} {max : ℕ} {s s' : State}
    (h : processLoans now k max s = .ok s') : BidsKept s s' := by
  induction max generalizing s with
  | zero =>
    rw [processLoans] at h
    cases h
    exact BidsKept.refl _
  | succ n ih =>
    rw [processLoans] at h
    split at h
    · cases h
      exact BidsKept.refl _
    · split_ifs at h
      · cases h
        exact BidsKept.refl _
      · simp only [bind_ok] at h
        obtain ⟨s1, h1, h2⟩ := h
        exact (processExpiredLoan_bidsKept h1).trans (ih h2)

lemma processOrder_bidsKept {s s' : State} {entry : Name × RexOrder}
    (h : processOrder s entry = .ok s') : BidsKept s s' := by
  unfold processOrder at h
  split at h
  · cases h
    exact BidsKept.refl s
  · simp only [fillRexOrder, bind_ok, require_ok, check_ok, exists_const] at h
    obtain ⟨⟨outcome, s1⟩, ⟨p, hp, hz, h1⟩, h2⟩ := h
    split_ifs at h1 with hf
    · rw [pure_ok] at h1
      cases h1
      simp only [if_true, pure_ok] at h2
      subst h2
      exact ⟨rfl, rfl, by rw [hp]; rfl, rfl, rfl⟩
    · rw [pure_ok] at h1
      cases h1
      simp only [Bool.false_eq_true, if_false, pure_ok] at h2
      subst h2
      exact BidsKept.refl s

lemma processOrders_bidsKept {max : ℕ} {s s' : State} (h : processOrders max s = .ok s') :
    BidsKept s s' := by
  unfold processOrders at h
  generalize ((ordersByTime s.rex.orders).take max).takeWhile (fun e => e.2.isOpen) = l at h
  induction l generalizing s with
  | nil =>
    rw [List.foldlM_nil, pure_ok] at h
    exact h ▸ BidsKept.refl s
  | cons e l ih =>
    rw [List.foldlM_cons, bind_ok] at h
    obtain ⟨s1, h1, h2⟩ := h
    exact (processOrder_bidsKept h1).trans (ih h2)

section
variable [FloatOps]

lemma updateVoteStake_ok {now : BlockTimestamp} {rows : RowRule} {ballots : Prop} {owner : Name}
    {toStake : ℤ} {force : Bool} {s s' : State}
    (h : updateVoteStake now owner toStake force s = .ok s') :
    ∃ voting, s' = { s with voting } ∧ VotingSteps now rows ballots s.voting voting := by
  unfold updateVoteStake at h
  split_ifs at h
  · simp only [bind_ok, pure_ok] at h
    obtain ⟨v, hv, rfl⟩ := h
    exact ⟨v, rfl, updateVotingPower_steps hv⟩
  · cases h
    exact ⟨s.voting, rfl, VotingSteps.refl _⟩

lemma updateRexAccount_ok {now : BlockTimestamp} (rows : RowRule) (ballots : Prop) {owner : Name}
    {proceeds delta q : ℤ} {force : Bool} {s s' : State}
    (h : updateRexAccount now owner proceeds delta force s = .ok (q, s')) :
    q = openRequest owner s.rex.orders ∧ ∃ funds voting,
      s' = { s with voting, rex := { s.rex with
        funds, orders := collectOrder owner s.rex.orders } } ∧
      VotingSteps now rows ballots s.voting voting ∧ fundTotal funds = fundTotal s.rex.funds +
        max 0 (proceeds + closedProceeds owner s.rex.orders) := by
  obtain ⟨change, ht⟩ := takeOrder_eq owner s
  unfold updateRexAccount at h
  rw [ht] at h
  simp only [bind_ok, pure_ok, Prod.mk.injEq] at h
  obtain ⟨s1, h1, s2, h2, rfl, rfl⟩ := h
  obtain ⟨funds, rfl, hf⟩ := creditFund_ok h1
  obtain ⟨v, rfl, hv⟩ := updateVoteStake_ok h2
  exact ⟨rfl, funds, v, rfl, hv, hf⟩

variable {now : BlockTimestamp} {π : Promise}

lemma Effects.refl (s : State) : Effects now π s s := Relation.ReflTransGen.refl

lemma Effect.single {s s' : State} (h : Effect now π s s') : Effects now π s s' :=
  Relation.ReflTransGen.single h

lemma Effects.trans {s s' s'' : State} (h : Effects now π s s') (h' : Effects now π s' s'') :
    Effects now π s s'' :=
  Relation.ReflTransGen.trans h h'

lemma updateRexAccount_effects {owner : Name} {delta q : ℤ} {force : Bool} {s s' : State}
    (hre : π.restake) (hact : π.actor owner)
    (h : updateRexAccount now owner 0 delta force s = .ok (q, s')) : Effects now π s s' := by
  obtain ⟨-, funds, v, rfl, hv, hf⟩ := updateRexAccount_ok π.rows π.ballots h
  rw [zero_add] at hf
  exact (Effect.collect hre hact hv hf).single

omit [FloatOps] in
lemma channelToRex_ok {source : Name} {amount : Asset} {required : Bool} {s s' : State}
    (h : channelToRex now source amount required s = .ok s') :
    ∃ pools token, s' = { s with pools, token } ∧
      ∀ a, a ≠ source → a ≠ rexAccount →
        token.balance a s.core.code = s.token.balance a s.core.code := by
  unfold channelToRex at h
  split_ifs at h
  · simp only [bind_ok] at h
    obtain ⟨r, -, h⟩ := h
    obtain ⟨t, rfl, -, -, -, hother⟩ := inlineTransfer_ok h
    exact ⟨r, t, rfl, hother⟩
  · simp only [bind_ok, check_ok, exists_const, pure_ok] at h
    obtain ⟨-, rfl⟩ := h
    exact ⟨s.pools, s.token, rfl, fun _ _ _ => rfl⟩

lemma channelToRex_effects {source : Name} {amount : Asset} {required : Bool} {s s' : State}
    (h : channelToRex now source amount required s = .ok s')
    (hsafe : π.safe → amount.symbol.code = s.core.code)
    (hquiet : ∀ c, π.quiet c → source ≠ c.account) : Effects now π s s' := by
  unfold channelToRex at h
  split_ifs at h with hav
  · simp only [bind_ok] at h
    obtain ⟨r, hr, h⟩ := h
    obtain ⟨t, rfl, -, -, hpaid, hother⟩ := inlineTransfer_ok h
    refine (Effect.channel hav hr (fun hs => hpaid (hsafe hs)) fun c hc => ?_).single
    exact hother c.account (hquiet c hc).symm (by cases c <;> decide)
  · simp only [bind_ok, check_ok, exists_const, pure_ok] at h
    obtain ⟨-, rfl⟩ := h
    exact Effects.refl s

lemma processExpiredLoan_effects {k : LoanKind} {num : ℕ} {loan : RexLoan} {s s' : State}
    (hl : (s.rex.loans k).lookup num = some loan)
    (h : processExpiredLoan now k num loan s = .ok s') : Effects now π s s' := by
  simp only [processExpiredLoan, bind_ok, require_ok] at h
  obtain ⟨p, hp, h⟩ := h
  split_ifs at h with hc
  · simp only [bind_ok] at h
    obtain ⟨r, hr, h⟩ := h
    obtain ⟨resources, rfl, hm⟩ := updateLoanLimits_ok h
    exact (Effect.renewLoan hl hp rfl rfl hc.1 hc.2.1 hr hm).single
  · simp only [bind_ok, pure_ok] at h
    obtain ⟨s1, h1, s2, h2, rfl⟩ := h
    obtain ⟨funds, rfl, hf⟩ := creditFund_ok h1
    obtain ⟨resources, rfl, hm⟩ := updateLoanLimits_ok h2
    exact (Effect.closeLoan hl hp hf hm).single

lemma processLoans_effects {k : LoanKind} {max : ℕ} {s s' : State}
    (h : processLoans now k max s = .ok s') : Effects now π s s' := by
  induction max generalizing s with
  | zero =>
    rw [processLoans] at h
    cases h
    exact Effects.refl _
  | succ n ih =>
    rw [processLoans] at h
    cases hh : (loansByExpiration (s.rex.loans k)).head? with
    | none =>
      rw [hh] at h
      cases h
      exact Effects.refl _
    | some e =>
      obtain ⟨num, loan⟩ := e
      rw [hh] at h
      dsimp only at h
      have hl : (s.rex.loans k).lookup num = some loan :=
        (Table.mem_indexed _).mp (List.mem_of_mem_head? hh)
      split_ifs at h
      · cases h
        exact Effects.refl _
      · simp only [bind_ok] at h
        obtain ⟨s1, h1, h2⟩ := h
        exact (processExpiredLoan_effects hl h1).trans (ih h2)

lemma processOrder_effects {s s' : State} {entry : Name × RexOrder}
    (ho : s.rex.orders.lookup entry.1 = some entry.2) (hopen : entry.2.isOpen = true)
    (hs : s.pools.Settled) (h : processOrder s entry = .ok s') : Effects now π s s' ∧
      ∀ a, a ≠ entry.1 → s'.rex.orders.lookup a = s.rex.orders.lookup a := by
  unfold processOrder at h
  cases hb : s.rex.balances.lookup entry.1 with
  | none =>
    rw [hb] at h
    cases h
    exact ⟨Effects.refl _, fun _ _ => rfl⟩
  | some rb =>
    rw [hb] at h
    simp only [fillRexOrder, bind_ok, require_ok, check_ok, exists_const] at h
    obtain ⟨⟨outcome, s1⟩, ⟨p, hp, hz, h1⟩, h2⟩ := h
    split_ifs at h1 with hf
    · rw [pure_ok] at h1
      cases h1
      simp only [if_true, pure_ok] at h2
      subst h2
      refine ⟨(Effect.fillOrder ho hopen hb hp ⟨hz, hf⟩ (hs p hp) rfl).single, fun a ha => ?_⟩
      exact AList.lookup_insert_ne ha
    · rw [pure_ok] at h1
      cases h1
      simp only [Bool.false_eq_true, if_false, pure_ok] at h2
      subst h2
      exact ⟨Effects.refl s, fun _ _ => rfl⟩

/-- The orders still to be visited are not touched by the fills before them. -/
lemma foldlM_processOrder_effects {l : List (Name × RexOrder)} (hnd : (l.map Prod.fst).Nodup)
    {s s' : State} (ho : ∀ e ∈ l, s.rex.orders.lookup e.1 = some e.2 ∧ e.2.isOpen = true)
    (hs : s.pools.Settled) (h : l.foldlM processOrder s = .ok s') : Effects now π s s' := by
  induction l generalizing s with
  | nil =>
    rw [List.foldlM_nil, pure_ok] at h
    subst h
    exact Effects.refl s
  | cons e l ih =>
    rw [List.foldlM_cons, bind_ok] at h
    obtain ⟨s1, h1, h2⟩ := h
    rw [List.map_cons, List.nodup_cons] at hnd
    obtain ⟨he, hopen⟩ := ho e (by simp)
    obtain ⟨heff, hsame⟩ : Effects now π s s1 ∧ ∀ a, a ≠ e.1 →
      s1.rex.orders.lookup a = s.rex.orders.lookup a :=
      processOrder_effects he hopen hs h1
    refine heff.trans (ih hnd.2 (fun f hf => ?_) ((processOrder_bidsKept h1).settled hs) h2)
    have hne : f.1 ≠ e.1 := fun heq => hnd.1 (heq ▸ List.mem_map_of_mem hf)
    rw [hsame f.1 hne]
    exact ho f (by simp [hf])

omit [FloatOps] in
/-- The orders a maintenance run visits are open, and of different owners. -/
lemma visited_open (max : ℕ) (s : State) :
    ((((ordersByTime s.rex.orders).take max).takeWhile fun e => e.2.isOpen).map Prod.fst).Nodup ∧
      ∀ e ∈ ((ordersByTime s.rex.orders).take max).takeWhile fun e => e.2.isOpen,
        s.rex.orders.lookup e.1 = some e.2 ∧ e.2.isOpen = true := by
  have hsub : List.Sublist (((ordersByTime s.rex.orders).take max).takeWhile fun e => e.2.isOpen)
      (ordersByTime s.rex.orders) :=
    (List.takeWhile_sublist _).trans (List.take_sublist _ _)
  refine ⟨(hsub.map Prod.fst).nodup (Table.nodup_indexed _ _), fun e he => ?_⟩
  exact ⟨(Table.mem_indexed _).mp (hsub.subset he),
    List.mem_takeWhile_imp (p := fun e : Name × RexOrder => e.2.isOpen) he⟩

lemma processOrders_effects {max : ℕ} {s s' : State} (hs : s.pools.Settled)
    (h : processOrders max s = .ok s') : Effects now π s s' := by
  obtain ⟨hnd, hopen⟩ := visited_open max s
  exact foldlM_processOrder_effects hnd hopen hs h

omit [FloatOps] in
/-- Handing on the proceeds of name bids changes pools and tokens only. -/
lemma channelNamebids_frame {s s' : State} (h : channelNamebids now s = .ok s') :
    s'.voting = s.voting ∧ s'.isAccount = s.isAccount ∧ s'.pools.rexpool.isSome := by
  simp only [channelNamebids, bind_ok, require_ok] at h
  obtain ⟨p, hp, h⟩ := h
  split_ifs at h
  · simp only [bind_ok, require_ok, pure_ok] at h
    obtain ⟨s₁, h₁, q, hq, rfl⟩ := h
    obtain ⟨pools, token, rfl, -⟩ := channelToRex_ok h₁
    exact ⟨rfl, rfl, rfl⟩
  · rw [pure_ok] at h
    subst h
    exact ⟨rfl, rfl, by rw [hp]; rfl⟩

lemma channelNamebids_effects {s s' : State} (h : channelNamebids now s = .ok s') :
    Effects now π s s' ∧ s'.pools.Settled := by
  simp only [channelNamebids, bind_ok, require_ok] at h
  obtain ⟨p, hp, h⟩ := h
  split_ifs at h with hpos
  · simp only [bind_ok, require_ok, pure_ok] at h
    obtain ⟨s1, h1, p1, hp1, rfl⟩ := h
    have hset : (s1.setPool { p1 with namebidProceeds := 0 }).pools.Settled := by
      intro q hq
      cases hq
      exact le_refl 0
    refine ⟨?_, hset⟩
    unfold channelToRex at h1
    split_ifs at h1 with hav
    · simp only [bind_ok] at h1
      obtain ⟨r, hr, h1⟩ := h1
      obtain ⟨t, rfl, -, -, hpaid, -⟩ := inlineTransfer_ok h1
      exact (Effect.channelBids hp hav hr hp1 (hpaid rfl)).single
    · simp only [bind_ok, check_ok, exists_const, pure_ok] at h1
      obtain ⟨-, rfl⟩ := h1
      exact (Effect.dropBids hp1 hav).single
  · rw [pure_ok] at h
    subst h
    refine ⟨Effects.refl s, fun q hq => ?_⟩
    rw [hp] at hq
    cases hq
    exact not_lt.mp hpos

omit [FloatOps] in
/-- The maintenance run neither votes nor makes accounts, and leaves the pool where it is. -/
lemma runrex_frame {max : ℕ} {s s' : State} (h : runrex now max s = .ok s') :
    s'.voting = s.voting ∧ s'.isAccount = s.isAccount ∧ s'.pools.rexpool.isSome := by
  unfold runrex at h
  simp only [bind_ok, check_ok, exists_const] at h
  obtain ⟨-, r, -, s₁, h₁, s₂, h₂, s₃, h₃, h⟩ := h
  obtain ⟨hvoting, haccounts, hpool⟩ := channelNamebids_frame h₁
  have hkept := ((processLoans_bidsKept h₂).trans (processLoans_bidsKept h₃)).trans
    (processOrders_bidsKept h)
  have hproceeds := congrArg Option.isSome hkept.proceeds
  rw [Option.isSome_map, Option.isSome_map] at hproceeds
  exact ⟨hkept.voting.trans hvoting, hkept.accounts.trans haccounts, hproceeds.trans hpool⟩

theorem runrex_effects {max : ℕ} {s s' : State} (h : runrex now max s = .ok s') :
    Effects now π s s' ∧ s'.pools.Settled := by
  simp only [runrex, bind_ok, check_ok, exists_const] at h
  obtain ⟨-, r, hr, s1, h1, s2, h2, s3, h3, h4⟩ := h
  obtain ⟨hbids, hs1⟩ : Effects now π { s with pools := r } s1 ∧ s1.pools.Settled :=
    channelNamebids_effects h1
  have hs2 := (processLoans_bidsKept h2).settled hs1
  have hs3 := (processLoans_bidsKept h3).settled hs2
  have hloans : Effects now π s1 s3 := (processLoans_effects h2).trans (processLoans_effects h3)
  refine ⟨(Effect.distribute hr).single.trans
    (hbids.trans (hloans.trans (processOrders_effects hs3 h4))), ?_⟩
  exact (processOrders_bidsKept h4).settled hs3

end
end TelosSystem
