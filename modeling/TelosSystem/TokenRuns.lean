import TelosSystem.TokenConservation
import TelosSystem.ActionEffects
import TelosSystem.RexPurchase

/-! Tokens and REX funds under the system contract. Every action moves tokens by transfers and
issues of the token contract alone, so that what the token contract keeps is kept by every
run, and no action overdraws a fund. -/
namespace TelosSystem
open Ledger

inductive Token.Move : Token → Token → Prop
  | transfer {isAccount : Name → Bool} {auth : List Name} {source dest : Name}
      {quantity : Asset} {memoSize : ℕ}
      {t t' : Token} (h : t.transfer isAccount auth source dest quantity memoSize = .ok t') :
        Move t t'
  | issue {auth : List Name} {dest : Name} {quantity : Asset} {memoSize : ℕ} {t t' : Token}
      (h : t.issue auth dest quantity memoSize = .ok t') : Move t t'

def Token.Moves : Token → Token → Prop := Relation.ReflTransGen Token.Move

namespace Token
variable {t t' t'' : Token} {code : UInt64}

lemma Moves.refl (t : Token) : Moves t t := Relation.ReflTransGen.refl

lemma Moves.trans (h : Moves t t') (h' : Moves t' t'') : Moves t t'' :=
  Relation.ReflTransGen.trans h h'

lemma Moves.of_eq (h : t' = t) : Moves t t' := h ▸ Moves.refl t

lemma Moves.conserved (h : Moves t t') (hc : Conserved t) : Conserved t' := by
  induction h with
  | refl => exact hc
  | tail _ hstep ih =>
    cases hstep with
    | transfer h => exact ih.transfer h
    | issue h => exact ih.issue h

def maxSupply (t : Token) (code : UInt64) : ℤ :=
  t.stats.valueAt (fun _ st => st.maxSupply.amount) code

lemma addBalance_maxSupply {owner : Name} {value : Asset} (h : addBalance owner value t = .ok t') :
    t'.maxSupply code = t.maxSupply code := by
  unfold addBalance at h
  split at h
  · cases h
    rfl
  · simp only [bind_ok, check_ok, exists_const, pure_ok] at h
    obtain ⟨-, rfl⟩ := h
    rfl

lemma Move.maxSupply (h : Move t t') : t'.maxSupply code = t.maxSupply code := by
  cases h with
  | transfer h =>
    simp only [Token.transfer, bind_ok, require_ok, check_ok, exists_const] at h
    obtain ⟨-, -, -, st, -, -, -, -, -, t₁, h₁, h₂⟩ := h
    rw [addBalance_maxSupply h₂]
    simp only [subBalance, bind_ok, require_ok, check_ok, exists_const, pure_ok] at h₁
    obtain ⟨held, -, -, -, rfl⟩ := h₁
    rfl
  | @issue _ _ quantity _ _ _ h =>
    simp only [Token.issue, bind_ok, check_ok, exists_const, require_ok] at h
    obtain ⟨-, -, st, hst, -, -, -, -, -, -, h⟩ := h
    rw [addBalance_maxSupply h]
    unfold Token.maxSupply Table.valueAt
    by_cases hc : code = quantity.symbol.code
    · subst hc
      simp [setStats, hst]
    · simp [setStats, AList.lookup_insert_ne hc]

lemma Moves.maxSupply (h : Moves t t') : t'.maxSupply code = t.maxSupply code := by
  induction h with
  | refl => rfl
  | tail _ hstep ih => exact hstep.maxSupply.trans ih

/-- One balance is part of the supply, and the supply of what may be issued. -/
lemma Conserved.supply_le_max (h : Conserved t) : t.supply code ≤ t.maxSupply code := by
  unfold supply Token.maxSupply Table.valueAt
  cases hst : t.stats.lookup code with
  | none => exact le_refl _
  | some st => exact (h.stats code st hst).2.1

end Token

/-- The tables that hold core tokens for their owners. -/
def State.cash (s : State) : Token × Table Name ℤ := (s.token, s.rex.funds)

def FundsCovered (funds : Table Name ℤ) : Prop := ∀ owner b, funds.lookup owner = some b → 0 ≤ b

/-- The tokens move by actions of the token contract, and no fund is overdrawn. -/
structure CashMoved (s s' : State) : Prop where
  tokens : Token.Moves s.token s'.token
  funds : FundsCovered s.rex.funds → FundsCovered s'.rex.funds

section
variable {now : BlockTimestamp} {s s' s'' : State}

lemma CashMoved.trans (h : CashMoved s s') (h' : CashMoved s' s'') : CashMoved s s'' :=
  ⟨h.tokens.trans h'.tokens, fun hf => h'.funds (h.funds hf)⟩

lemma CashMoved.of_eq (h : s'.cash = s.cash) : CashMoved s s' := by
  obtain ⟨ht, hf⟩ := Prod.mk.inj h
  exact ⟨Token.Moves.of_eq ht, fun h => hf ▸ h⟩

/-- Only the tables that hold tokens matter. -/
lemma CashMoved.congr {m m' : State} (h : CashMoved m m') (h₁ : m.cash = s.cash)
    (h₂ : s'.cash = m'.cash) : CashMoved s s' :=
  (CashMoved.of_eq h₁).trans (h.trans (CashMoved.of_eq h₂))

lemma inlineTransfer_moved {source dest : Name} {quantity : Asset} {memoSize : ℕ}
    (h : s.inlineTransfer source dest quantity memoSize = .ok s') : CashMoved s s' := by
  simp only [State.inlineTransfer, bind_ok, pure_ok] at h
  obtain ⟨t, ht, rfl⟩ := h
  exact ⟨Relation.ReflTransGen.single (Token.Move.transfer ht), id⟩

lemma transferFromFund_moved {owner : Name} {amount : Asset}
    (h : transferFromFund owner amount s = .ok s') : CashMoved s s' := by
  simp only [transferFromFund, bind_ok, check_ok, exists_const, require_ok, pure_ok] at h
  obtain ⟨-, b, -, hle, rfl⟩ := h
  exact ⟨Token.Moves.refl _, fun hf => Table.forall_insert hf (by omega)⟩

lemma transferToFund_moved {owner : Name} {amount : Asset}
    (h : transferToFund owner amount s = .ok s') : CashMoved s s' := by
  simp only [transferToFund, bind_ok, check_ok, exists_const] at h
  obtain ⟨⟨hpos, -⟩, h⟩ := h
  refine ⟨?_, fun hf => ?_⟩
  · split at h <;>
    · rw [pure_ok] at h
      exact Token.Moves.of_eq (by rw [← h]; rfl)
  · split at h
    · rw [pure_ok] at h
      rw [← h]
      exact Table.forall_insert hf hpos.le
    · rename_i b hb
      rw [pure_ok] at h
      rw [← h]
      have := hf owner b hb
      exact Table.forall_insert hf (by omega)

lemma creditFund_moved {owner : Name} {amount : ℤ} (h : creditFund owner amount s = .ok s') :
    CashMoved s s' := by
  unfold creditFund at h
  split_ifs at h
  · exact transferToFund_moved h
  · cases h
    exact CashMoved.of_eq rfl

lemma channelToRex_moved {source : Name} {amount : Asset} {required : Bool}
    (h : channelToRex now source amount required s = .ok s') : CashMoved s s' := by
  unfold channelToRex at h
  split_ifs at h
  · simp only [bind_ok] at h
    obtain ⟨r, -, h⟩ := h
    exact (inlineTransfer_moved h).congr rfl rfl
  · simp only [bind_ok, check_ok, exists_const, pure_ok] at h
    obtain ⟨-, rfl⟩ := h
    exact CashMoved.of_eq rfl

lemma updateLoanLimits_cash {k : LoanKind} {receiver : Name} {delta : ℤ}
    (h : updateLoanLimits k receiver delta s = .ok s') : s'.cash = s.cash := by
  obtain ⟨resources, rfl, -⟩ := updateLoanLimits_ok h
  rfl

lemma processExpiredLoan_moved {k : LoanKind} {num : ℕ} {loan : RexLoan}
    (h : processExpiredLoan now k num loan s = .ok s') : CashMoved s s' := by
  simp only [processExpiredLoan, bind_ok, require_ok] at h
  obtain ⟨p, -, h⟩ := h
  split_ifs at h
  · simp only [bind_ok] at h
    obtain ⟨r, -, h⟩ := h
    have hmoved := updateLoanLimits_cash h
    exact CashMoved.of_eq hmoved
  · simp only [bind_ok, pure_ok] at h
    obtain ⟨s₁, h₁, s₂, h₂, rfl⟩ := h
    have hlimits := updateLoanLimits_cash h₂
    exact (creditFund_moved h₁).congr rfl hlimits

lemma processLoans_moved {k : LoanKind} {max : ℕ} (h : processLoans now k max s = .ok s') :
    CashMoved s s' := by
  induction max generalizing s with
  | zero =>
    rw [processLoans] at h
    cases h
    exact CashMoved.of_eq rfl
  | succ n ih =>
    rw [processLoans] at h
    split at h
    · cases h
      exact CashMoved.of_eq rfl
    · split_ifs at h
      · cases h
        exact CashMoved.of_eq rfl
      · simp only [bind_ok] at h
        obtain ⟨s₁, h₁, h₂⟩ := h
        exact (processExpiredLoan_moved h₁).trans (ih h₂)

lemma fillRexOrder_cash {owner : Name} {rb : RexBalance} {rex : ℤ} {outcome : RexOrderOutcome}
    (h : fillRexOrder owner rb rex s = .ok (outcome, s')) : s'.cash = s.cash := by
  simp only [fillRexOrder, bind_ok, require_ok, check_ok, exists_const] at h
  obtain ⟨p, -, -, h⟩ := h
  split_ifs at h <;>
  · rw [pure_ok] at h
    cases h
    rfl

lemma processOrder_cash {entry : Name × RexOrder} (h : processOrder s entry = .ok s') :
    s'.cash = s.cash := by
  unfold processOrder at h
  split at h
  · cases h
    rfl
  · simp only [bind_ok] at h
    obtain ⟨⟨outcome, s₁⟩, h₁, h₂⟩ := h
    have hfill := fillRexOrder_cash h₁
    split_ifs at h₂ <;>
    · rw [pure_ok] at h₂
      subst h₂
      exact hfill

lemma processOrders_cash {max : ℕ} (h : processOrders max s = .ok s') : s'.cash = s.cash := by
  unfold processOrders at h
  generalize ((ordersByTime s.rex.orders).take max).takeWhile (fun e => e.2.isOpen) = l at h
  induction l generalizing s with
  | nil =>
    rw [List.foldlM_nil, pure_ok] at h
    rw [h]
  | cons e l ih =>
    rw [List.foldlM_cons, bind_ok] at h
    obtain ⟨s₁, h₁, h₂⟩ := h
    exact (ih h₂).trans (processOrder_cash h₁)

lemma channelNamebids_moved (h : channelNamebids now s = .ok s') : CashMoved s s' := by
  simp only [channelNamebids, bind_ok, require_ok] at h
  obtain ⟨p, -, h⟩ := h
  split_ifs at h
  · simp only [bind_ok, require_ok, pure_ok] at h
    obtain ⟨s₁, h₁, q, -, rfl⟩ := h
    exact (channelToRex_moved h₁).congr rfl rfl
  · rw [pure_ok] at h
    subst h
    exact CashMoved.of_eq rfl

lemma runrex_moved {max : ℕ} (h : runrex now max s = .ok s') : CashMoved s s' := by
  simp only [runrex, bind_ok, check_ok, exists_const] at h
  obtain ⟨-, r, -, s₁, h₁, s₂, h₂, s₃, h₃, h₄⟩ := h
  have hbids : CashMoved s s₁ := (channelNamebids_moved h₁).congr rfl rfl
  exact hbids.trans ((processLoans_moved h₂).trans
    ((processLoans_moved h₃).trans (CashMoved.of_eq (processOrders_cash h₄))))

lemma purchase_cash {owner : Name} {payment delta : ℤ}
    (h : purchase now owner payment s = .ok (delta, s')) : s'.cash = s.cash := by
  obtain ⟨received, p', stake, -, rfl⟩ := purchase_ok h
  rfl

lemma queueOrder_cash {owner : Name} {rex q q' : ℤ} {success : Bool}
    (h : queueOrder now owner rex success q s = .ok (q', s')) : s'.cash = s.cash := by
  unfold queueOrder at h
  split_ifs at h
  · cases h
    rfl
  · simp only [bind_ok, check_ok, exists_const, pure_ok, Prod.mk.injEq] at h
    obtain ⟨-, -, rfl⟩ := h
    rfl

lemma chargeRamFee_moved {payer : Name} {fee : ℤ} {memoSize : ℕ}
    (h : chargeRamFee now payer fee memoSize s = .ok s') : CashMoved s s' := by
  unfold chargeRamFee at h
  split_ifs at h
  · simp only [bind_ok] at h
    obtain ⟨s₁, h₁, h₂⟩ := h
    exact (inlineTransfer_moved h₁).trans (channelToRex_moved h₂)
  · cases h
    exact CashMoved.of_eq rfl

lemma settleRefund_moved {source owner receiver : Name} {net cpu : ℤ} {transfer : Bool}
    (h : settleRefund now source owner receiver net cpu transfer s = .ok s') : CashMoved s s' := by
  simp only [settleRefund, bind_ok] at h
  obtain ⟨⟨n, c, d, s₁⟩, h₁, h⟩ := h
  obtain ⟨staking, rfl⟩ := refundBalances_frame h₁
  split_ifs at h
  · exact (inlineTransfer_moved h).congr rfl rfl
  · rw [pure_ok] at h
    subst h
    exact CashMoved.of_eq rfl

lemma updateRexStake_cash (voter : Name) (s : State) : (updateRexStake voter s).cash = s.cash := by
  unfold updateRexStake
  split
  · split_ifs
    · dsimp only
      split
      · split_ifs <;> rfl
      · rfl
    · rfl
  · rfl

end

section
variable [FloatOps] {now : BlockTimestamp} {ctx : Context} {s s' : State}

lemma updateRexAccount_moved {owner : Name} {proceeds delta q : ℤ} {force : Bool}
    (h : updateRexAccount now owner proceeds delta force s = .ok (q, s')) : CashMoved s s' := by
  obtain ⟨change, ht⟩ := takeOrder_eq owner s
  unfold updateRexAccount at h
  rw [ht] at h
  simp only [bind_ok, pure_ok, Prod.mk.injEq] at h
  obtain ⟨s₁, h₁, s₂, h₂, -, rfl⟩ := h
  obtain ⟨v, rfl, -⟩ : ∃ voting, s₂ = { s₁ with voting } ∧
    VotingSteps now (fun _ _ _ => True) True s₁.voting voting :=
    updateVoteStake_ok h₂
  exact (creditFund_moved h₁).congr rfl rfl

lemma buyrex_moved {owner : Name} {amount : Asset} (h : buyrex ctx owner amount s = .ok s') :
    CashMoved s s' := by
  simp only [buyrex, bind_ok, pure_ok] at h
  obtain ⟨-, -, -, -, -, -, s₁, h₁, ⟨d, s₂⟩, h₂, s₃, h₃, ⟨q, s₄⟩, h₄, rfl⟩ := h
  have hbought := CashMoved.of_eq (purchase_cash h₂)
  exact (transferFromFund_moved h₁).trans
    (hbought.trans ((runrex_moved h₃).trans (updateRexAccount_moved h₄)))

lemma unstaketorex_moved {owner receiver : Name} {net cpu : Asset}
    (h : unstaketorex ctx owner receiver net cpu s = .ok s') : CashMoved s s' := by
  simp only [unstaketorex, bind_ok, pure_ok] at h
  obtain ⟨-, -, -, -, -, -, s₁, h₁, s₂, h₂, ⟨d, s₃⟩, h₃, s₄, h₄, ⟨q, s₅⟩, h₅, rfl⟩ := h
  obtain ⟨staking, resources, rfl⟩ := unstakeBandwidth_frame h₁
  have hpaid : CashMoved s s₂ := (inlineTransfer_moved h₂).congr rfl rfl
  have hbought := CashMoved.of_eq (purchase_cash h₃)
  exact hpaid.trans (hbought.trans ((runrex_moved h₄).trans (updateRexAccount_moved h₅)))

lemma sellMatured_moved {owner : Name} {rex : ℤ} {rb : RexBalance}
    (h : sellMatured now owner rex rb s = .ok s') : CashMoved s s' := by
  simp only [sellMatured, bind_ok, check_ok, exists_const, require_ok, pure_ok] at h
  obtain ⟨-, ⟨outcome, s₁⟩, h₁, -, ⟨q, s₂⟩, h₂, ⟨q', s₃⟩, h₃, row, -, -, rfl⟩ := h
  have hfill := fillRexOrder_cash h₁
  exact (updateRexAccount_moved h₂).congr hfill (queueOrder_cash h₃)

omit [FloatOps] in
lemma openLoan_moved {k : LoanKind} {owner receiver : Name} {payment fund : ℤ}
    (h : openLoan now k owner receiver payment fund s = .ok s') : CashMoved s s' := by
  simp only [openLoan, bind_ok, check_ok, exists_const, require_ok] at h
  obtain ⟨s₁, h₁, p, -, -, r, -, q, -, -, h₂⟩ := h
  have hlimits := updateLoanLimits_cash h₂
  exact (transferFromFund_moved h₁).congr rfl hlimits

lemma updaterex_moved {owner : Name} (h : updaterex ctx owner s = .ok s') : CashMoved s s' := by
  simp only [updaterex, bind_ok, require_ok, pure_ok] at h
  obtain ⟨-, -, s₁, h₁, rb, -, p, -, ⟨q, s₂⟩, h₂, rfl⟩ := h
  exact (runrex_moved h₁).trans ((updateRexAccount_moved h₂).congr rfl rfl)

omit [FloatOps] in
lemma moveStake_moved {source owner receiver : Name} {net cpu : ℤ} {transfer : Bool}
    (h : moveStake now source owner receiver net cpu transfer s = .ok s') : CashMoved s s' := by
  simp only [moveStake, changeDelband, bind_ok, check_ok, exists_const, pure_ok] at h
  obtain ⟨s₁, ⟨-, -, rfl⟩, s₂, h₂, h₃⟩ := h
  obtain ⟨resources, rfl⟩ := adjustResources_frame h₂
  split_ifs at h₃
  · exact (settleRefund_moved h₃).congr rfl rfl
  · rw [pure_ok] at h₃
    subst h₃
    exact CashMoved.of_eq rfl

lemma changebw_moved {owner receiver : Name} {net cpu : ℤ} {transfer : Bool}
    (h : changebw ctx owner receiver net cpu transfer s = .ok s') : CashMoved s s' := by
  simp only [changebw, bind_ok, check_ok, exists_const, pure_ok] at h
  obtain ⟨-, -, -, -, s₁, h₁, v, -, rfl⟩ := h
  exact (moveStake_moved h₁).trans (CashMoved.of_eq (updateRexStake_cash _ s₁))

omit [FloatOps] in
lemma buyram_moved {bancor : ℤ → ℤ → ℤ → ℤ} {payer receiver : Name} {quant : Asset}
    (h : buyram bancor ctx payer receiver quant s = .ok s') : CashMoved s s' := by
  simp only [buyram, bind_ok, check_ok, exists_const] at h
  obtain ⟨-, -, -, -, s₁, h₁, s₂, h₂, h₃⟩ := h
  have hpaid : CashMoved s s₁ := (inlineTransfer_moved h₁).congr rfl rfl
  refine hpaid.trans ((chargeRamFee_moved h₂).trans (CashMoved.of_eq ?_))
  simp only [buyBytes, creditRam, bind_ok, check_ok, exists_const] at h₃
  obtain ⟨-, h₃⟩ := h₃
  obtain ⟨-, limits, rfl⟩ := setRamLimit_ok h₃
  rfl

omit [FloatOps] in
lemma sellram_moved {bancor : ℤ → ℤ → ℤ → ℤ} {account : Name} {bytes : ℤ}
    (h : sellram bancor ctx account bytes s = .ok s') : CashMoved s s' := by
  simp only [sellram, bind_ok, check_ok, exists_const, require_ok] at h
  obtain ⟨-, -, -, tot, -, -, ⟨out, s₁⟩, h₁, s₂, h₂, h₃⟩ := h
  have hsold : s₁.cash = s.cash := by
    simp only [sellBytes, bind_ok, check_ok, exists_const, pure_ok, Prod.mk.injEq] at h₁
    obtain ⟨-, -, m, hm, -, rfl⟩ := h₁
    obtain ⟨-, limits, rfl⟩ := setRamLimit_ok hm
    rfl
  exact (CashMoved.of_eq hsold).trans ((inlineTransfer_moved h₂).trans (chargeRamFee_moved h₃))

lemma powerup_moved {payer receiver : Name} {days : ℕ} {netFrac cpuFrac : ℤ} {maxPayment : Asset}
    (h : powerup ctx payer receiver days netFrac cpuFrac maxPayment s = .ok s') :
    CashMoved s s' := by
  simp only [powerup, requireAuth, bind_ok, check_ok, exists_const, require_ok, pure_ok] at h
  obtain ⟨-, st, hst, -, -, hn, hc, -, -, ⟨fee, st', s₁⟩, h₁, s₂, h₂, rfl⟩ := h
  have hmarket : MarketStep ctx.now True True s (s₁.setPowerupState st') :=
    MarketStep.reserve trivial hst hn hc h₁
  obtain ⟨resources, powerup, hframe⟩ := hmarket.frame
  have hreserved : (s₁.setPowerupState st').cash = s.cash := by
    rw [hframe]
    rfl
  exact (channelToRex_moved h₂).congr hreserved rfl

omit [FloatOps] in
lemma bidname_moved {bidder newname : Name} {bid : Asset}
    (h : bidname ctx bidder newname bid s = .ok s') : CashMoved s s' := by
  simp only [bidname, bind_ok, check_ok, exists_const, pure_ok] at h
  obtain ⟨-, -, -, -, -, -, -, -, -, s₁, h₁, s₂, h₂, rfl⟩ := h
  refine (inlineTransfer_moved h₁).trans (CashMoved.of_eq ?_)
  unfold outbid at h₂
  split at h₂
  · cases h₂
    rfl
  · simp only [bind_ok, check_ok, exists_const, pure_ok] at h₂
    obtain ⟨-, -, -, rfl⟩ := h₂
    rfl

omit [FloatOps] in
lemma ProducersEdited.cash (h : ProducersEdited s s') : s'.cash = s.cash := by
  obtain ⟨producers, production, rfl, -⟩ := h
  rfl

omit [FloatOps] in
lemma transferIfPositive_moved {source dest : Name} {amount : ℤ} {memoSize : ℕ}
    (h : s.transferIfPositive source dest amount memoSize = .ok s') : CashMoved s s' := by
  unfold State.transferIfPositive at h
  split_ifs at h
  · exact inlineTransfer_moved h
  · cases h
    exact CashMoved.of_eq rfl

omit [FloatOps] in
lemma issueIfPositive_moved {amount : ℤ} {memoSize : ℕ}
    (h : s.issueIfPositive amount memoSize = .ok s') : CashMoved s s' := by
  unfold State.issueIfPositive at h
  split_ifs at h
  · simp only [State.inlineIssue, bind_ok, pure_ok] at h
    obtain ⟨t, ht, rfl⟩ := h
    exact ⟨Relation.ReflTransGen.single (Token.Move.issue ht), id⟩
  · cases h
    exact CashMoved.of_eq rfl

omit [FloatOps] in
lemma takeSnapshot_moved {b : Block} (h : takeSnapshot now b s = .ok s') : CashMoved s s' := by
  unfold takeSnapshot at h
  split_ifs at h
  · simp only [claimrewardsSnapshot, bind_ok, check_ok, exists_const, pure_ok] at h
    obtain ⟨s₁, ⟨-, h⟩, rfl⟩ := h
    split_ifs at h
    · cases h
      exact CashMoved.of_eq rfl
    · simp only [fillBucket, bind_ok, require_ok, pure_ok] at h
      obtain ⟨s₂, ⟨held, -, m₁, h₁, m₂, h₂, m₃, h₃, m₄, h₄, rfl⟩, rfl⟩ := h
      have hfill : CashMoved s m₄ := (transferIfPositive_moved h₁).trans
        ((issueIfPositive_moved h₂).trans
        ((transferIfPositive_moved h₃).trans (transferIfPositive_moved h₄)))
      exact hfill.trans (CashMoved.of_eq (payProducersByVotes_edited _ _).cash)
    · simp only [bind_ok, pure_ok] at h
      obtain ⟨s₂, rfl, rfl⟩ := h
      exact CashMoved.of_eq (payProducersByVotes_edited _ s).cash
  · cases h
    exact CashMoved.of_eq rfl

omit [FloatOps] in
lemma electAndClose_cash {b : Block} (h : electAndClose now b s = .ok s') : s'.cash = s.cash := by
  unfold electAndClose at h
  split_ifs at h
  · simp only [bind_ok, pure_ok] at h
    obtain ⟨s₁, h₁, rfl⟩ := h
    obtain ⟨auctions, pools, hclose⟩ := closeAuction_eq b.header.timestamp now s₁
    rw [hclose]
    exact (electProducers_counted h₁).edited.cash
  · cases h
    rfl

lemma onblock_moved {b : Block} (h : onblock ctx b s = .ok s') : CashMoved s s' := by
  obtain ⟨records, -, hstages⟩ := onblock_stages h
  cases hstages with
  | waiting inactive =>
    unfold activateNetwork
    split_ifs <;> exact CashMoved.of_eq rfl
  | @counted s₂ s₃ _ v active missed votes elect snapshot =>
    have hcount : (countBlock b.header.producer s₂).cash = s.cash :=
      (countBlock_edited _ s₂).cash.trans (countMissedBlocks_counted missed).edited.cash
    have helect : s₃.cash = s.cash := (electAndClose_cash elect).trans hcount
    exact (CashMoved.of_eq helect).trans (takeSnapshot_moved snapshot)

omit [FloatOps] in
lemma manageResource_cash {account : Name} {field : UInt32} {value : Option ℤ} {lowest limit : ℤ}
    {alreadyUnmanaged invalid : String} {unmanaged : Option UserResources → ℤ}
    {current : ResourceLimits}
    (h : manageResource ctx account field value lowest alreadyUnmanaged invalid unmanaged s =
      .ok (current, limit, s')) :
    s'.cash = s.cash := by
  simp only [manageResource, bind_ok] at h
  obtain ⟨-, -, l, -, h⟩ := h
  cases value <;>
  · simp only [bind_ok, pure_ok, Prod.mk.injEq] at h
    obtain ⟨-, -, -, -, rfl⟩ := h
    rfl

/-- Every action moves tokens by actions of the token contract. -/
theorem step.cashMoved {l : Label} (h : step now l s s') : CashMoved s s' := by
  obtain ⟨auth, action⟩ := l
  unfold step at h
  cases action with
  | deposit owner amount =>
    simp only [exec, deposit, bind_ok] at h
    obtain ⟨-, -, -, -, -, -, s₁, h₁, h₂⟩ := h
    exact (inlineTransfer_moved h₁).trans (transferToFund_moved h₂)
  | withdraw owner amount =>
    simp only [exec, withdraw, bind_ok] at h
    obtain ⟨-, -, -, -, -, -, ⟨q, s₁⟩, h₁, s₂, h₂, h₃⟩ := h
    exact (updateRexAccount_moved h₁).trans
      ((transferFromFund_moved h₂).trans (inlineTransfer_moved h₃))
  | buyrex owner amount => exact buyrex_moved h
  | unstaketorex owner receiver net cpu => exact unstaketorex_moved h
  | sellrex owner rex =>
    simp only [exec, sellrex, bind_ok] at h
    obtain ⟨-, -, s₁, h₁, rb, -, -, -, h₂⟩ := h
    exact (runrex_moved h₁).trans (sellMatured_moved h₂)
  | cnclrexorder owner =>
    simp only [exec, cnclrexorder, bind_ok, pure_ok] at h
    obtain ⟨-, -, o, -, -, -, rfl⟩ := h
    exact CashMoved.of_eq rfl
  | rent k owner receiver payment fund =>
    simp only [exec, rent, bind_ok] at h
    obtain ⟨-, -, s₁, h₁, -, -, -, -, -, -, h₂⟩ := h
    exact (runrex_moved h₁).trans (openLoan_moved h₂)
  | fundLoan k owner num payment =>
    simp only [exec, fundLoan, bind_ok, pure_ok] at h
    obtain ⟨-, -, -, -, s₁, h₁, loan, -, -, -, -, -, rfl⟩ := h
    exact (transferFromFund_moved h₁).congr rfl rfl
  | defundLoan k owner num amount =>
    simp only [exec, defundLoan, bind_ok] at h
    obtain ⟨-, -, -, -, loan, -, -, -, -, -, -, -, h₁⟩ := h
    exact (transferToFund_moved h₁).congr rfl rfl
  | updaterex owner => exact updaterex_moved h
  | setrex balance =>
    simp only [exec, setrex, bind_ok, pure_ok] at h
    obtain ⟨-, -, -, -, -, -, p, -, rfl⟩ := h
    exact CashMoved.of_eq rfl
  | rexexec user max =>
    simp only [exec, rexexec, bind_ok] at h
    obtain ⟨-, -, h⟩ := h
    exact runrex_moved h
  | consolidate owner =>
    simp only [exec, consolidate, bind_ok, pure_ok] at h
    obtain ⟨-, -, s₁, h₁, rb, -, ⟨q, s₂⟩, h₂, rfl⟩ := h
    exact (runrex_moved h₁).trans ((updateRexAccount_moved h₂).congr rfl rfl)
  | mvtosavings owner rex =>
    simp only [exec, mvtosavings, bind_ok, pure_ok] at h
    obtain ⟨-, -, s₁, h₁, rb, -, -, -, ⟨q, s₂⟩, h₂, -, -, row, -, rfl⟩ := h
    exact (runrex_moved h₁).trans ((updateRexAccount_moved h₂).congr rfl rfl)
  | mvfrsavings owner rex =>
    simp only [exec, mvfrsavings, bind_ok, pure_ok] at h
    obtain ⟨-, -, s₁, h₁, rb, -, -, -, -, -, ⟨q, s₂⟩, h₂, rfl⟩ := h
    exact (runrex_moved h₁).trans ((updateRexAccount_moved h₂).congr rfl rfl)
  | closerex owner =>
    simp only [exec, closerex, runrexIfInitialized, bind_ok] at h
    obtain ⟨-, -, s₁, h₁, ⟨q, s₂⟩, h₂, h₃⟩ := h
    have hfirst : CashMoved s s₁ := by
      split_ifs at h₁
      · exact runrex_moved h₁
      · cases h₁
        exact CashMoved.of_eq rfl
    have hfund : CashMoved s₂ (closeFund owner s₂) := by
      unfold closeFund
      split_ifs
      · exact ⟨Token.Moves.refl _, fun hf => Table.forall_erase hf⟩
      · exact CashMoved.of_eq rfl
    have hlast : s'.cash = (closeFund owner s₂).cash := by
      unfold closeBalance at h₃
      split at h₃
      · cases h₃
        rfl
      · simp only [bind_ok, pure_ok] at h₃
        obtain ⟨-, -, rfl⟩ := h₃
        rfl
    exact hfirst.trans ((updateRexAccount_moved h₂).trans (hfund.trans (CashMoved.of_eq hlast)))
  | delegatebw owner receiver net cpu transfer =>
    simp only [exec, delegatebw, bind_ok] at h
    obtain ⟨-, -, -, -, h⟩ := h
    exact changebw_moved h
  | undelegatebw owner receiver net cpu =>
    simp only [exec, undelegatebw, bind_ok] at h
    obtain ⟨-, -, -, -, h⟩ := h
    exact changebw_moved h
  | refund owner =>
    simp only [exec, refund, bind_ok, pure_ok] at h
    obtain ⟨-, -, r, -, -, -, s₁, h₁, rfl⟩ := h
    exact (inlineTransfer_moved h₁).congr rfl rfl
  | voteproducer voter proxy producers =>
    simp only [exec, voteproducer, bind_ok, pure_ok] at h
    obtain ⟨-, -, v, -, rfl⟩ := h
    exact CashMoved.of_eq (updateRexStake_cash voter s)
  | voteupdate voter =>
    simp only [exec, voteupdate, bind_ok, pure_ok] at h
    obtain ⟨-, -, s₁, h₁, row, -, v, -, rfl⟩ := h
    exact (updaterex_moved h₁).congr rfl rfl
  | buyram payer receiver quant => exact buyram_moved h
  | buyrambytes payer receiver bytes => exact buyram_moved h
  | sellram account bytes => exact sellram_moved h
  | cfgpowerup args =>
    have hmarket : MarketStep now True True s s' := MarketStep.config trivial h
    obtain ⟨resources, powerup, rfl⟩ := hmarket.frame
    exact CashMoved.of_eq rfl
  | powerupexec user max =>
    have hmarket : MarketStep now True True s s' := MarketStep.process h
    obtain ⟨resources, powerup, rfl⟩ := hmarket.frame
    exact CashMoved.of_eq rfl
  | powerup payer receiver days netFrac cpuFrac maxPayment => exact powerup_moved h
  | distviarex source amount =>
    simp only [exec, distviarex, bind_ok] at h
    obtain ⟨-, -, -, -, h⟩ := h
    exact channelToRex_moved h
  | bidname bidder newname bid => exact bidname_moved h
  | bidrefund bidder newname =>
    simp only [exec, bidrefund, bind_ok, pure_ok] at h
    obtain ⟨amount, -, s₁, h₁, rfl⟩ := h
    exact (inlineTransfer_moved h₁).congr rfl rfl
  | claimrewards owner =>
    simp only [exec, claimrewards, bind_ok, pure_ok] at h
    obtain ⟨-, -, p, -, -, -, -, -, pay, -, s₁, h₁, rfl⟩ := h
    exact (inlineTransfer_moved h₁).congr rfl rfl
  | onblock b => exact onblock_moved h
  | transfer source dest quantity memoSize =>
    simp only [exec, tokenTransfer, bind_ok, pure_ok] at h
    obtain ⟨t, ht, rfl⟩ := h
    exact ⟨Relation.ReflTransGen.single (Token.Move.transfer ht), id⟩
  | newaccount creator newAccountName =>
    simp only [exec, newaccount, bind_ok, pure_ok] at h
    obtain ⟨-, -, -, -, -, -, -, -, s₁, h₁, -, -, rfl⟩ := h
    obtain ⟨auctions, rfl⟩ := claimName_ok h₁
    exact CashMoved.of_eq rfl
  | setacctram account ramBytes =>
    simp only [exec, setacctram, bind_ok, pure_ok] at h
    obtain ⟨⟨current, limit, s₁⟩, h₁, rfl⟩ := h
    have ht := manageResource_cash h₁
    exact CashMoved.of_eq ht
  | setacctnet account netWeight =>
    simp only [exec, setacctnet, bind_ok, pure_ok] at h
    obtain ⟨⟨current, limit, s₁⟩, h₁, rfl⟩ := h
    have ht := manageResource_cash h₁
    exact CashMoved.of_eq ht
  | setacctcpu account cpuWeight =>
    simp only [exec, setacctcpu, bind_ok, pure_ok] at h
    obtain ⟨⟨current, limit, s₁⟩, h₁, rfl⟩ := h
    have ht := manageResource_cash h₁
    exact CashMoved.of_eq ht
  | setalimits account ram net cpu =>
    simp only [exec, setalimits, bind_ok, pure_ok] at h
    obtain ⟨-, -, -, -, -, -, -, -, rfl⟩ := h
    exact CashMoved.of_eq rfl
  | regproducer producer urlSize location =>
    simp only [exec, regproducer, bind_ok, pure_ok] at h
    obtain ⟨-, -, -, -, rfl⟩ := h
    exact CashMoved.of_eq rfl
  | unregprod producer =>
    simp only [exec, unregprod, bind_ok, pure_ok] at h
    obtain ⟨-, -, v, -, rfl⟩ := h
    exact CashMoved.of_eq rfl
  | unregreason producer reasonSize =>
    simp only [exec, unregreason, bind_ok, pure_ok] at h
    obtain ⟨-, -, -, -, v, -, rfl⟩ := h
    exact CashMoved.of_eq rfl
  | rmvproducer producer =>
    simp only [exec, rmvproducer, bind_ok, pure_ok] at h
    obtain ⟨-, -, v, -, rfl⟩ := h
    exact CashMoved.of_eq rfl
  | votebpout bp penaltyHours =>
    simp only [exec, votebpout, bind_ok, pure_ok] at h
    obtain ⟨-, -, -, -, v, -, rfl⟩ := h
    exact CashMoved.of_eq rfl
  | setvotecontr contract =>
    simp only [exec, setvotecontr, bind_ok, pure_ok] at h
    obtain ⟨-, -, rfl⟩ := h
    exact CashMoved.of_eq rfl
  | setvotedecay start yearly nonce =>
    obtain ⟨raw, h⟩ := map_snd_ok h
    simp only [setvotedecay, bind_ok, pure_ok] at h
    obtain ⟨-, -, -, -, -, -, -, -, n, -, hsent⟩ := h
    cases hsent
    exact CashMoved.of_eq rfl
  | setselfstake multiplier =>
    simp only [exec, setselfstake, bind_ok, pure_ok] at h
    obtain ⟨-, -, -, -, rfl⟩ := h
    exact CashMoved.of_eq rfl
  | setram size =>
    simp only [exec, setram, bind_ok, pure_ok] at h
    obtain ⟨-, -, -, -, -, -, -, -, rfl⟩ := h
    exact CashMoved.of_eq rfl
  | setramrate rate =>
    simp only [exec, setramrate, bind_ok, pure_ok] at h
    obtain ⟨-, -, rfl⟩ := h
    exact CashMoved.of_eq rfl

/-- Every run keeps the token conserved and its maximum supplies. -/
theorem tokens_of_run {t₀ t : BlockTimestamp} {s₀ : State} {tr : List (BlockTimestamp × Label)}
    (h : TimedRun step t₀ s₀ tr t s) : CashMoved s₀ s :=
  h.stateInvariant (fun _ s => CashMoved s₀ s) (CashMoved.of_eq rfl) fun hm _ hs =>
    hm.trans hs.cashMoved

end
end TelosSystem
