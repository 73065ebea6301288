import TelosSystem.ActionEffects
import TelosSystem.RexPurchase
import TelosSystem.TokenConservation

/-! The pay of producers. `eosio.bpay` holds the bucket and the payments that wait to be claimed,
and the unpaid blocks of the producers add up to their total. -/
namespace TelosSystem
open Ledger

def unpaidTotal (t : Table Name ProducerInfo) : ℤ := t.total fun _ p => p.unpaidBlocks

def paymentTotal (p : Production) : ℤ := p.payments.total fun _ pay => pay

/-- The counter agrees with the rows of the producers. -/
def UnpaidInv (s : State) : Prop :=
  (s.production.totalUnpaidBlocks : ℤ) = unpaidTotal s.voting.producers

/-- What `eosio.bpay` holds beyond the bucket and the payments. -/
def bpaySurplus (s : State) : ℤ :=
  s.coreBalance bpayAccount - (s.production.perblockBucket + paymentTotal s.production)

structure PayKept (quiet : Prop) (s s' : State) : Prop where
  accounts : s'.production.accounts = s.production.accounts
  unpaid : unpaidTotal s'.voting.producers = unpaidTotal s.voting.producers
  balance : quiet → s'.coreBalance bpayAccount = s.coreBalance bpayAccount

/-- The counter agrees with the rows, and where `eosio.bpay` is `quiet` it holds `surplus` beyond
what it has to hold. -/
structure PayInv (quiet : Prop) (surplus : ℤ) (s : State) : Prop where
  unpaid : UnpaidInv s
  surplus : quiet → bpaySurplus s = surplus

namespace PayKept
variable {quiet : Prop} {s s' s'' : State}

lemma refl (s : State) : PayKept quiet s s := ⟨rfl, rfl, fun _ => rfl⟩

lemma trans (h : PayKept quiet s s') (h' : PayKept quiet s' s'') : PayKept quiet s s'' :=
  ⟨h'.accounts.trans h.accounts, h'.unpaid.trans h.unpaid,
    fun hq => (h'.balance hq).trans (h.balance hq)⟩

lemma payInv {surplus : ℤ} (h : PayKept quiet s s') (hi : PayInv quiet surplus s) :
    PayInv quiet surplus s' := by
  have ha := h.accounts
  simp only [Production.accounts, Prod.mk.injEq] at ha
  refine ⟨?_, fun hq => ?_⟩
  · rw [UnpaidInv, ha.2.1, h.unpaid]
    exact hi.unpaid
  · rw [← hi.surplus hq, bpaySurplus, bpaySurplus, h.balance hq, ha.1, paymentTotal,
      paymentTotal, ha.2.2]

end PayKept

lemma Voting.Counted.unpaid {v v' : Voting} (h : v.Counted v') :
    unpaidTotal v'.producers = unpaidTotal v.producers := by
  refine Table.total_of_lookup _ _ fun n => ?_
  have hn := congrArg (Option.map fun p : ProducerInfo => (p.unpaidBlocks : ℤ)) (h.producers n)
  simp only [Option.map_map] at hn
  exact hn

lemma setProducer_unpaid {t : Table Name ProducerInfo} {name : Name} {row : ProducerInfo}
    (h : row.unpaidBlocks = ((t.lookup name).map ProducerInfo.unpaidBlocks).getD 0) :
    unpaidTotal (t.insert name row) = unpaidTotal t := by
  rw [unpaidTotal, Table.total_insert, h, Table.valueAt]
  cases t.lookup name <;> simp [unpaidTotal]

lemma MissedBlocksCounted.payKept {quiet : Prop} {s s' : State} (h : MissedBlocksCounted s s') :
    PayKept quiet s s' := by
  obtain ⟨t, production, rfl, hp, ht⟩ := h
  refine ⟨hp, ?_, fun _ => rfl⟩
  induction ht with
  | refl => rfl
  | tail _ hstep ih =>
    obtain ⟨name, q, ⟨p, hp, hpq⟩, rfl⟩ := hstep
    refine (setProducer_unpaid ?_).trans ih
    rw [hp, hpq.unpaidBlocks]
    rfl

section
variable [FloatOps] {now : BlockTimestamp} {π : Promise} {s s' : State}

/-- A rule by which rows are replaced without their unpaid blocks. -/
def RowRule.KeepsUnpaid (rows : RowRule) : Prop :=
  ∀ n old new, rows n old new → new.unpaidBlocks = (old.map ProducerInfo.unpaidBlocks).getD 0

lemma VotingStep.unpaid {rows : RowRule} {ballots : Prop} {v v' : Voting} (hr : rows.KeepsUnpaid)
    (h : VotingStep now rows ballots v v') :
    unpaidTotal v'.producers = unpaidTotal v.producers := by
  cases h with
  | votes h => exact (Voting.updateVotes_counted h).unpaid
  | stake staked h => rfl
  | enter staked h => rfl
  | flag account field value =>
    unfold Voting.setFlag
    split <;> rfl
  | register allowed h => exact setProducer_unpaid (hr _ _ _ allowed)
  | configure h => rfl
  | recount broken h => exact (Voting.recalculateVotes_counted h).unpaid

lemma VotingSteps.unpaid {rows : RowRule} {ballots : Prop} {v v' : Voting} (hr : rows.KeepsUnpaid)
    (h : VotingSteps now rows ballots v v') :
    unpaidTotal v'.producers = unpaidTotal v.producers := by
  induction h with
  | refl => rfl
  | tail _ hstep ih => exact (hstep.unpaid hr).trans ih

theorem Effect.payKept (h : Effect now π s s') (hn : ¬ π.produce) (hr : π.rows.KeepsUnpaid) :
    PayKept (π.quiet .bpay) s s' := by
  cases h with
  | channel available h paid kept => exact ⟨rfl, rfl, kept .bpay⟩
  | channelBids pool available h after paid =>
    exact ⟨rfl, rfl, fun _ => paid.other (by decide) (by decide)⟩
  | sell restake actor row pool positive matured fillable settled votes credit reserved =>
    exact ⟨rfl, votes.unpaid hr, fun _ => rfl⟩
  | collect restake actor votes credit => exact ⟨rfl, votes.unpaid hr, fun _ => rfl⟩
  | deposit paid credit other =>
    exact ⟨rfl, rfl, fun hq => paid.other (other .bpay hq).symm (by decide)⟩
  | withdraw paid debit other =>
    exact ⟨rfl, rfl, fun hq => paid.other (by decide) (other .bpay hq).symm⟩
  | voting restake votes => exact ⟨rfl, votes.unpaid hr, fun _ => rfl⟩
  | election kept votes => exact ⟨rfl, votes.unpaid hr, fun _ => rfl⟩
  | tokens rex kept => exact ⟨rfl, rfl, kept .bpay⟩
  | stake h restake rex other =>
    obtain ⟨staking, resources, token, rfl, hpaid⟩ := moveStake_frame h
    refine ⟨rfl, rfl, fun hq => ?_⟩
    rcases hpaid with rfl | ⟨amount, hp⟩
    · rfl
    · exact hp.other (other .bpay hq).symm (by decide)
  | refund row paid other =>
    exact ⟨rfl, rfl, fun hq => paid.other (by decide) (other .bpay hq).symm⟩
  | market h =>
    obtain ⟨resources, powerup, rfl⟩ := h.frame
    exact ⟨rfl, rfl, fun _ => rfl⟩
  | close timestamp names =>
    obtain ⟨auctions, pools, h⟩ := closeAuction_eq timestamp now s
    rw [h]
    exact ⟨rfl, rfl, fun _ => rfl⟩
  | produce produce => exact absurd produce hn
  | _ => exact ⟨rfl, rfl, fun _ => rfl⟩

theorem Effects.payKept (h : Effects now π s s') (hn : ¬ π.produce) (hr : π.rows.KeepsUnpaid) :
    PayKept (π.quiet .bpay) s s' := by
  induction h with
  | refl => exact PayKept.refl s
  | tail _ hstep ih => exact ih.trans (hstep.payKept hn hr)

omit [FloatOps] in
theorem Purchase.payKept (h : Purchase now π s s') (quiet : Prop) : PayKept quiet s s' := by
  obtain ⟨owner, payment, delta, mid, -, h0, hf, hpur⟩ := h.parts
  cases hf with
  | fund debit =>
    obtain ⟨received, p', stake, -, rfl⟩ := purchase_ok hpur
    exact ⟨rfl, rfl, fun _ => rfl⟩
  | stake net cpu sum hu paid =>
    obtain ⟨staking, resources, rfl⟩ := unstakeBandwidth_frame hu
    obtain ⟨received, p', stake, -, rfl⟩ := purchase_ok hpur
    exact ⟨rfl, rfl, fun _ => paid.other (by decide) (by decide)⟩

omit [FloatOps] in
lemma Action.Rewrites.keepsUnpaid {a : Action} (ha : ¬ a.Produces) :
    RowRule.KeepsUnpaid a.Rewrites := by
  intro n old new h
  cases a with
  | regproducer producer urlSize location =>
    obtain ⟨-, rfl⟩ := h
    cases old <;> rfl
  | unregprod producer =>
    obtain ⟨-, p, rfl, rfl⟩ := h
    rfl
  | unregreason producer reasonSize =>
    obtain ⟨-, p, rfl, rfl⟩ := h
    rfl
  | rmvproducer producer =>
    obtain ⟨-, p, rfl, rfl⟩ := h
    rfl
  | votebpout bp penaltyHours =>
    obtain ⟨-, now, p, rfl, rfl⟩ := h
    rfl
  | onblock b => exact absurd trivial ha
  | _ => exact h.elim

/-- Everything but block production and its claims leaves the pay as it is. -/
theorem step.payKept {l : Label} (h : step now l s s') (hp : ¬ l.action.Produces) :
    PayKept (l.Untouched bpayAccount) s s' := by
  obtain ⟨mid, hm, he⟩ := exec_decomposed h
  have hk := he.payKept hp (Action.Rewrites.keepsUnpaid hp)
  have hquiet : PayKept (l.Untouched bpayAccount) mid s' :=
    ⟨hk.accounts, hk.unpaid, fun hq => hk.balance ⟨hq, hp⟩⟩
  rcases hm with rfl | hpur
  · exact hquiet
  · exact (hpur.payKept _).trans hquiet

omit [FloatOps] in
lemma Token.addBalance_supply {owner : Name} {value : Asset} {t t' : Token}
    (h : Token.addBalance owner value t = .ok t') (code : UInt64) :
    t'.supply code = t.supply code := by
  unfold Token.addBalance at h
  split at h
  · cases h
    rfl
  · simp only [bind_ok, check_ok, exists_const, pure_ok] at h
    obtain ⟨-, rfl⟩ := h
    rfl

omit [FloatOps] in
lemma Token.transfer_supply {isAccount : Name → Bool} {auth : List Name} {source dest : Name}
    {quantity : Asset} {memoSize : ℕ} {t t' : Token}
    (h : t.transfer isAccount auth source dest quantity memoSize = .ok t') (code : UInt64) :
    t'.supply code = t.supply code := by
  simp only [Token.transfer, bind_ok, require_ok, check_ok, exists_const] at h
  obtain ⟨-, -, -, st, -, -, -, -, -, t₁, h₁, h₂⟩ := h
  rw [Token.addBalance_supply h₂]
  simp only [Token.subBalance, bind_ok, require_ok, check_ok, exists_const, pure_ok] at h₁
  obtain ⟨held, -, -, -, rfl⟩ := h₁
  rfl

omit [FloatOps] in
lemma Token.issue_supply {auth : List Name} {dest : Name} {quantity : Asset} {memoSize : ℕ}
    {t t' : Token} (h : t.issue auth dest quantity memoSize = .ok t') :
    t'.supply quantity.symbol.code = t.supply quantity.symbol.code + quantity.amount := by
  simp only [Token.issue, bind_ok, check_ok, exists_const, require_ok] at h
  obtain ⟨-, -, st, hst, -, -, -, -, -, -, h⟩ := h
  rw [Token.addBalance_supply h, Token.supply_setStats, if_pos rfl, Token.supply,
    Table.valueAt_some hst]

/-- An amount of core tokens went from `source` to `dest`, nothing if it is not positive. -/
structure Sent (source dest : Name) (amount : ℤ) (s s' : State) : Prop where
  only : ∃ token, s' = { s with token }
  balance : ∀ a, s'.coreBalance a = s.coreBalance a +
    ((if a = dest then max 0 amount else 0) - if a = source then max 0 amount else 0)
  supply : s'.token.supply s.core.code = s.token.supply s.core.code

omit [FloatOps] in
lemma transferIfPositive_sent {source dest : Name} {amount : ℤ} {memoSize : ℕ}
    (h : s.transferIfPositive source dest amount memoSize = .ok s') :
    Sent source dest amount s s' := by
  unfold State.transferIfPositive at h
  split_ifs at h with hpos
  · have htransfer := h
    obtain ⟨t, rfl, -, -, hpaid, -⟩ := inlineTransfer_ok h
    simp only [State.inlineTransfer, bind_ok, pure_ok] at htransfer
    obtain ⟨t', ht, he⟩ := htransfer
    cases he
    refine ⟨⟨t, rfl⟩, fun a => ?_, Token.transfer_supply ht _⟩
    rw [max_eq_right hpos.le]
    exact (hpaid rfl).balance a
  · cases h
    refine ⟨⟨s.token, rfl⟩, fun a => ?_, rfl⟩
    rw [max_eq_left (not_lt.mp hpos)]
    simp

/-- What a snapshot obtains and passes on: tokens of `exrsrv.tf` up to its balance, and new ones. -/
def ObtainedAndPassed (pay : Payroll) (s s' : State) : Prop :=
  ∃ transferred issued : ℤ, 0 ≤ transferred ∧ 0 ≤ issued ∧
    transferred + issued = pay.toWorkers + pay.toProducers ∧
    transferred = min (pay.toWorkers + pay.toProducers : ℤ) (max 0 (s.coreBalance tedpAccount)) ∧
    s'.token.supply s.core.code = s.token.supply s.core.code + issued ∧
    ∀ a, s'.coreBalance a = s.coreBalance a +
      (if a = worksAccount then (pay.toWorkers : ℤ) else 0) +
      (if a = bpayAccount then (pay.toProducers : ℤ) else 0) -
        if a = tedpAccount then transferred else 0

structure BucketFilled (pay : Payroll) (s s' : State) : Prop where
  obtained : ObtainedAndPassed pay s s'
  bucket : s'.production.perblockBucket = s.production.perblockBucket + pay.toProducers
  voting : s'.voting = s.voting
  unpaid : s'.production.totalUnpaidBlocks = s.production.totalUnpaidBlocks
  payments : s'.production.payments = s.production.payments

omit [FloatOps] in
lemma fillBucket_filled {pay : Payroll} (h : fillBucket now pay s = .ok s') :
    BucketFilled pay s s' := by
  simp only [fillBucket, bind_ok, require_ok, pure_ok] at h
  obtain ⟨held, hheld, s1, h1, s2, h2, s3, h3, s4, h4, rfl⟩ := h
  have hbal : s.coreBalance tedpAccount = held.amount := by
    rw [State.coreBalance, Token.balance, Table.valueAt_some hheld]
  have e1 := transferIfPositive_sent h1
  have e3 := transferIfPositive_sent h3
  have e4 := transferIfPositive_sent h4
  have hsplit : transferTokens held.amount (pay.toWorkers + pay.toProducers) =
      min (pay.toWorkers + pay.toProducers : ℤ) (max 0 held.amount) := by
    unfold transferTokens
    split_ifs <;> omega
  have hissue : (∃ token, s2 = { s1 with token }) ∧ (∀ a, s2.coreBalance a = s1.coreBalance a +
      if a = systemAccount then
        (pay.toWorkers + pay.toProducers : ℤ) - transferTokens held.amount
          (pay.toWorkers + pay.toProducers) else 0) ∧
      s2.token.supply s1.core.code = s1.token.supply s1.core.code +
        ((pay.toWorkers + pay.toProducers : ℤ) - transferTokens held.amount
        (pay.toWorkers + pay.toProducers)) := by
    unfold State.issueIfPositive at h2
    split_ifs at h2 with hpos
    · simp only [State.inlineIssue, bind_ok, pure_ok] at h2
      obtain ⟨t, ht, rfl⟩ := h2
      refine ⟨⟨t, rfl⟩, fun a => ?_, Token.issue_supply ht⟩
      rw [State.coreBalance, (Token.issue_spec ht).2, State.coreBalance]
      simp
    · cases h2
      have hz : (pay.toWorkers + pay.toProducers : ℤ) -
          transferTokens held.amount (pay.toWorkers + pay.toProducers) = 0 := by omega
      rw [hz]
      exact ⟨⟨s1.token, rfl⟩, fun a => by simp, by omega⟩
  obtain ⟨t1, rfl⟩ := e1.only
  obtain ⟨⟨t2, rfl⟩, hi2, hsupply⟩ := hissue
  obtain ⟨t3, rfl⟩ := e3.only
  obtain ⟨t4, rfl⟩ := e4.only
  refine ⟨⟨transferTokens held.amount (pay.toWorkers + pay.toProducers),
    (pay.toWorkers + pay.toProducers : ℤ) -
    transferTokens held.amount (pay.toWorkers + pay.toProducers), by
      omega, by omega, by omega, by omega, ?_,
    fun a => ?_⟩, rfl, rfl, rfl, rfl⟩
  · have s1 := e1.supply
    have s3 := e3.supply
    have s4 := e4.supply
    dsimp only [State.setProduction] at s1 hsupply s3 s4 ⊢
    omega
  · have b1 := e1.balance a
    have b2 := hi2 a
    have b3 := e3.balance a
    have b4 := e4.balance a
    have hd : tedpAccount ≠ systemAccount ∧ tedpAccount ≠ worksAccount ∧ tedpAccount ≠ bpayAccount ∧
        systemAccount ≠ worksAccount ∧ systemAccount ≠ bpayAccount ∧
        worksAccount ≠ bpayAccount := by decide
    obtain ⟨d1, d2, d3, d4, d5, d6⟩ := hd
    have hnew : transferTokens held.amount (pay.toWorkers + pay.toProducers) ≤ pay.toWorkers +
      pay.toProducers ∧
      0 ≤ transferTokens held.amount (pay.toWorkers + pay.toProducers) := by omega
    simp only [State.coreBalance, State.setProduction] at b1 b2 b3 b4 ⊢
    generalize transferTokens held.amount (pay.toWorkers + pay.toProducers) =
      transferred at b1 b2 hnew ⊢
    by_cases h1 : a = tedpAccount
    · subst h1
      simp only [if_true, if_neg d1, if_neg d2, if_neg d3] at b1 b2 b3 b4 ⊢
      omega
    · by_cases h2 : a = systemAccount
      · subst h2
        simp only [if_true, if_neg d4, if_neg d5, if_neg h1] at b1 b2 b3 b4 ⊢
        omega
      · simp only [if_neg h1, if_neg h2] at b1 b2 b3 b4 ⊢
        split_ifs at b3 b4 ⊢ <;> omega

def activeRow (e : Name × ProducerInfo) : Bool := e.2.isActive

/-- The producers the second pass pays, in the order of their ranks: inactive ones are skipped. -/
def paidProducers (l : List (Name × ProducerInfo)) : List (Name × ProducerInfo) :=
  (l.filter activeRow).take maxProducers

variable {quiet : Prop} {surplus : ℤ}

omit [FloatOps] in
lemma countBlock_payInv (producer : Name) (hi : PayInv quiet surplus s) :
    PayInv quiet surplus (countBlock producer s) := by
  unfold countBlock
  cases hp : s.voting.producers.lookup producer with
  | none => exact hi
  | some p =>
    have hu : (s.production.totalUnpaidBlocks : ℤ) = unpaidTotal s.voting.producers := hi.unpaid
    refine ⟨?_, hi.surplus⟩
    simp only [UnpaidInv, State.setProduction, State.setProducers, unpaidTotal,
      Table.total_insert_old _ _ hp]
    simp only [unpaidTotal] at hu
    omega

omit [FloatOps] in
/-- The unpaid blocks of a producer are part of the total. -/
lemma UnpaidInv.covers {name : Name} {p : ProducerInfo} (h : UnpaidInv s)
    (hp : s.voting.producers.lookup name = some p) :
    p.unpaidBlocks ≤ s.production.totalUnpaidBlocks := by
  have hle : (p.unpaidBlocks : ℤ) ≤ unpaidTotal s.voting.producers :=
    Table.le_total (f := fun _ (p : ProducerInfo) => (p.unpaidBlocks : ℤ))
      (fun _ _ _ => Int.natCast_nonneg _) hp
  have hu : (s.production.totalUnpaidBlocks : ℤ) = unpaidTotal s.voting.producers := h
  omega

omit [FloatOps] in
lemma payProducer_payInv {name : Name} {p : ProducerInfo} (amount : ℤ)
    (hp : s.voting.producers.lookup name = some p) (hi : PayInv quiet surplus s) :
    PayInv quiet surplus (payProducer amount name p s) := by
  have hc := hi.unpaid.covers hp
  have hu : (s.production.totalUnpaidBlocks : ℤ) = unpaidTotal s.voting.producers := hi.unpaid
  constructor
  · simp only [UnpaidInv, payProducer, unpaidTotal, Table.total_insert_old _ _ hp]
    simp only [unpaidTotal] at hu
    omega
  · intro hq
    have hpay : Table.valueAt (fun _ (pay : ℤ) => pay) s.production.payments name =
        (s.production.payments.lookup name).getD 0 := by simp [Table.valueAt]
    have hs := hi.surplus hq
    simp only [bpaySurplus, paymentTotal, payProducer, State.coreBalance,
      Table.total_insert, hpay] at hs ⊢
    omega

omit [FloatOps] in
/-- The rows still to be paid are those of the table. -/
lemma payProducers_payInv {pay : ℕ → ℤ} {index : ℕ} {l : List (Name × ProducerInfo)}
    (hi : PayInv quiet surplus s) (hnd : (l.map Prod.fst).Nodup)
    (hl : ∀ e ∈ l, s.voting.producers.lookup e.1 = some e.2) :
    PayInv quiet surplus (payProducers pay index l s) := by
  induction l generalizing index s with
  | nil => exact hi
  | cons e l ih =>
    obtain ⟨name, p⟩ := e
    rw [List.map_cons, List.nodup_cons] at hnd
    unfold payProducers
    split_ifs
    · exact ih hi hnd.2 fun e he => hl e (List.mem_cons_of_mem _ he)
    · exact hi
    · refine ih (payProducer_payInv _ (hl _ List.mem_cons_self) hi) hnd.2 fun e he => ?_
      have hne : e.1 ≠ name := fun heq => hnd.1 (List.mem_map.mpr ⟨e, he, heq⟩)
      exact (AList.lookup_insert_ne hne).trans (hl e (List.mem_cons_of_mem _ he))

omit [FloatOps] in
/-- The blocks of a producer are still in the total when its turn comes. -/
lemma payProducers_unpaid {pay : ℕ → ℤ} {index : ℕ} {l : List (Name × ProducerInfo)}
    (hi : UnpaidInv s) (hnd : (l.map Prod.fst).Nodup)
    (hl : ∀ e ∈ l, s.voting.producers.lookup e.1 = some e.2) :
    (payProducers pay index l s).production.totalUnpaidBlocks +
      (((l.filter activeRow).take (maxProducers - index)).map fun e => e.2.unpaidBlocks).sum =
        s.production.totalUnpaidBlocks := by
  induction l generalizing index s with
  | nil => simp [payProducers]
  | cons e l ih =>
    obtain ⟨name, p⟩ := e
    rw [List.map_cons, List.nodup_cons] at hnd
    unfold payProducers
    split_ifs with ha hm
    · rw [List.filter_cons_of_neg (by simpa [activeRow] using ha)]
      exact ih hi hnd.2 fun e he => hl e (List.mem_cons_of_mem _ he)
    · rw [Nat.sub_eq_zero_of_le (by omega)]
      rfl
    · have hp : s.voting.producers.lookup name = some p := hl _ List.mem_cons_self
      have hinv : PayInv False 0 (payProducer (pay (index + 1)) name p s) :=
        payProducer_payInv _ hp ⟨hi, False.elim⟩
      have hrows : ∀ e ∈ l, (payProducer (pay (index + 1)) name p s).voting.producers.lookup e.1 =
        some e.2 := by
        intro e he
        have hne : e.1 ≠ name := fun heq => hnd.1 (List.mem_map.mpr ⟨e, he, heq⟩)
        exact (AList.lookup_insert_ne hne).trans (hl e (List.mem_cons_of_mem _ he))
      have hrest := @ih _ (index + 1) hinv.unpaid hnd.2 hrows
      have hcover := hi.covers hp
      have htaken : (payProducer (pay (index + 1)) name p s).production.totalUnpaidBlocks =
        s.production.totalUnpaidBlocks - p.unpaidBlocks := rfl
      obtain ⟨m, hm'⟩ : ∃ m, maxProducers - index = m + 1 := ⟨maxProducers - (index + 1), by omega⟩
      rw [List.filter_cons_of_pos (by simpa [activeRow] using ha), hm', List.take_succ_cons,
        List.map_cons, List.sum_cons]
      rw [show maxProducers - (index + 1) = m by omega] at hrest
      dsimp only
      omega

def FillDue (now : BlockTimestamp) (s : State) : Prop :=
  0 < s.production.totalUnpaidBlocks ∧ s.production.lastPervoteBucketFill < now.usec ∧
    0 < s.production.lastPervoteBucketFill

instance (now : BlockTimestamp) (s : State) : Decidable (FillDue now s) := by
  unfold FillDue
  infer_instance

def settledProducers (s : State) : List (Name × ProducerInfo) :=
  if 0 < s.production.totalUnpaidBlocks then paidProducers (producersByVotes s.voting.producers)
  else []

structure SnapshotTaken (now : BlockTimestamp) (pay : Payroll) (s s' : State) : Prop where
  obtained : FillDue now s → ObtainedAndPassed pay s s'
  idle : ¬ FillDue now s → s'.token = s.token ∧ s'.core = s.core
  owed : FillDue now s → s'.production.perblockBucket + paymentTotal s'.production =
    s.production.perblockBucket + paymentTotal s.production + pay.toProducers
  kept : ¬ FillDue now s → s'.production.perblockBucket + paymentTotal s'.production =
    s.production.perblockBucket + paymentTotal s.production
  settled : s'.production.totalUnpaidBlocks +
    ((settledProducers s).map fun e => e.2.unpaidBlocks).sum =
    s.production.totalUnpaidBlocks
  unpaid : UnpaidInv s'

omit [FloatOps] in
/-- The second pass turns the bucket into payments. -/
lemma payProducers_settles {pay : ℕ → ℤ} (hi : UnpaidInv s) :
    let s' := payProducers pay 0 (producersByVotes s.voting.producers) s
    s'.token = s.token ∧ s'.core = s.core ∧
      s'.production.perblockBucket + paymentTotal s'.production =
        s.production.perblockBucket + paymentTotal s.production ∧
      s'.production.totalUnpaidBlocks +
        ((paidProducers (producersByVotes s.voting.producers)).map fun e => e.2.unpaidBlocks).sum =
          s.production.totalUnpaidBlocks ∧ UnpaidInv s' := by
  have hnd : ((producersByVotes s.voting.producers).map Prod.fst).Nodup := Table.nodup_indexed _ _
  have hrows : ∀ e ∈ producersByVotes s.voting.producers,
    s.voting.producers.lookup e.1 = some e.2 := fun _ he =>
    (Table.mem_indexed _).mp he
  have hsame : (payProducers pay 0 (producersByVotes s.voting.producers) s).token = s.token ∧
      (payProducers pay 0 (producersByVotes s.voting.producers) s).core = s.core := by
    obtain ⟨producers, production, heq, -⟩ := payProducersByVotes_edited pay s
    rw [heq]
    exact ⟨rfl, rfl⟩
  have hinv : PayInv True (bpaySurplus s)
    (payProducers pay 0 (producersByVotes s.voting.producers) s) :=
    payProducers_payInv ⟨hi, fun _ => rfl⟩ hnd hrows
  have hsurplus := hinv.surplus trivial
  simp only [bpaySurplus, State.coreBalance, hsame] at hsurplus
  exact ⟨hsame.1, hsame.2, by omega, payProducers_unpaid hi hnd hrows, hinv.unpaid⟩

omit [FloatOps] in
lemma claimrewardsSnapshot_taken {pay : Payroll} (hi : UnpaidInv s)
    (h : claimrewardsSnapshot now pay s = .ok s') : SnapshotTaken now pay s s' := by
  simp only [claimrewardsSnapshot, bind_ok, check_ok, exists_const] at h
  obtain ⟨-, h⟩ := h
  by_cases hz : s.production.totalUnpaidBlocks ≤ 0
  · rw [if_pos hz] at h
    cases h
    have hidle : ¬ FillDue now s := fun hd => absurd hd.1 (not_lt.mpr hz)
    have hnone : settledProducers s = [] := if_neg (not_lt.mpr hz)
    exact ⟨fun hd => absurd hd hidle, fun _ => ⟨rfl, rfl⟩, fun hd => absurd hd hidle,
      fun _ => rfl, by simp [hnone], hi⟩
  · have hpays : settledProducers s = paidProducers (producersByVotes s.voting.producers) :=
      if_pos (not_le.mp hz)
    rw [if_neg hz] at h
    by_cases hf : s.production.lastPervoteBucketFill < now.usec ∧
      0 < s.production.lastPervoteBucketFill
    · have hdue : FillDue now s := ⟨not_le.mp hz, hf⟩
      rw [if_pos hf] at h
      simp only [bind_ok, pure_ok] at h
      obtain ⟨s₁, h₁, rfl⟩ := h
      have hfill := fillBucket_filled h₁
      have hi₁ : UnpaidInv s₁ := by
        rw [UnpaidInv, hfill.unpaid, hfill.voting]
        exact hi
      obtain ⟨htoken, hcore, howed, hsettled, hunpaid⟩ := @payProducers_settles s₁ pay.payAmount hi₁
      refine ⟨fun _ => ?_, fun hn => absurd hdue hn, fun _ => ?_,
        fun hn => absurd hdue hn, ?_, hunpaid⟩
      · obtain ⟨transferred, issued, h0, h0', hsum, hmin, hsupply, hbal⟩ := hfill.obtained
        refine ⟨transferred, issued, h0, h0', hsum, hmin, htoken ▸ hsupply, fun a => ?_⟩
        rw [State.coreBalance, htoken, hcore]
        exact hbal a
      · rw [howed, hfill.bucket, paymentTotal, hfill.payments, ← paymentTotal]
        omega
      · rw [hpays, ← hfill.unpaid, ← hfill.voting]
        exact hsettled
    · have hidle : ¬ FillDue now s := fun hd => hf hd.2
      rw [if_neg hf] at h
      cases h
      obtain ⟨htoken, hcore, howed, hsettled, hunpaid⟩ := @payProducers_settles s pay.payAmount hi
      exact ⟨fun hd => absurd hd hidle, fun _ => ⟨htoken, hcore⟩,
        fun hd => absurd hd hidle, fun _ => howed,
        hpays ▸ hsettled, hunpaid⟩

omit [FloatOps] in
lemma SnapshotTaken.payInv {pay : Payroll} (h : SnapshotTaken now pay s s')
    (hi : PayInv quiet surplus s) : PayInv quiet surplus s' := by
  refine ⟨h.unpaid, fun hq => ?_⟩
  rw [← hi.surplus hq, bpaySurplus, bpaySurplus]
  by_cases hd : FillDue now s
  · have hbal : s'.coreBalance bpayAccount = s.coreBalance bpayAccount + pay.toProducers := by
      obtain ⟨transferred, issued, -, -, -, -, -, hbal⟩ := h.obtained hd
      have hb := hbal bpayAccount
      rw [if_neg (by decide), if_pos rfl, if_neg (by decide)] at hb
      omega
    have howed := h.owed hd
    omega
  · have hkept := h.kept hd
    obtain ⟨htoken, hcore⟩ := h.idle hd
    rw [State.coreBalance, htoken, hcore, ← State.coreBalance]
    omega

def SnapshotDue (b : Block) (s : State) : Prop :=
  addSec s.production.lastClaimrewards 3600 ≤ b.header.timestamp.slot

instance (b : Block) (s : State) : Decidable (SnapshotDue b s) := by
  unfold SnapshotDue
  infer_instance

omit [FloatOps] in
lemma takeSnapshot_taken {b : Block} (hi : UnpaidInv s) (h : takeSnapshot now b s = .ok s') :
    (SnapshotDue b s → ∃ s₁, claimrewardsSnapshot now b.payroll s = .ok s₁ ∧
      SnapshotTaken now b.payroll s s₁ ∧
      s' = s₁.setProduction { s₁.production with lastClaimrewards := b.header.timestamp.slot }) ∧
    (¬ SnapshotDue b s → s' = s) := by
  unfold takeSnapshot at h
  split_ifs at h with hd
  · simp only [bind_ok, pure_ok] at h
    obtain ⟨s₁, h₁, rfl⟩ := h
    exact ⟨fun _ => ⟨s₁, h₁, claimrewardsSnapshot_taken hi h₁, rfl⟩, fun hn => absurd hd hn⟩
  · cases h
    exact ⟨fun h => absurd h hd, fun _ => rfl⟩

omit [FloatOps] in
lemma takeSnapshot_payInv {b : Block} (hi : PayInv quiet surplus s)
    (h : takeSnapshot now b s = .ok s') : PayInv quiet surplus s' := by
  obtain ⟨htaken, hkept⟩ := takeSnapshot_taken hi.unpaid h
  by_cases hd : SnapshotDue b s
  · obtain ⟨s₁, -, ht, rfl⟩ := htaken hd
    exact PayKept.payInv (s := s₁) ⟨rfl, rfl, fun _ => rfl⟩ (ht.payInv hi)
  · rw [hkept hd]
    exact hi

omit [FloatOps] in
lemma electAndClose_payKept {b : Block} (h : electAndClose now b s = .ok s') :
    PayKept quiet s s' := by
  unfold electAndClose at h
  split_ifs at h
  · simp only [bind_ok, pure_ok] at h
    obtain ⟨s1, h1, rfl⟩ := h
    refine (electProducers_counted h1).payKept.trans ?_
    obtain ⟨auctions, pools, hc⟩ := closeAuction_eq b.header.timestamp now s1
    rw [hc]
    exact ⟨rfl, rfl, fun _ => rfl⟩
  · cases h
    exact PayKept.refl s

/-- The state in which a block comes to its snapshot. -/
def beforeSnapshot (now : BlockTimestamp) (b : Block) (s : State) : Except String State :=
  recordBlock b.header s >>= countAndElect now b

lemma beforeSnapshot_payInv {b : Block} (h : beforeSnapshot now b s = .ok s')
    (hi : PayInv quiet surplus s) : PayInv quiet surplus s' := by
  simp only [beforeSnapshot, recordBlock, countAndElect, bind_ok, pure_ok] at h
  obtain ⟨s₀, ⟨records, -, rfl⟩, s₁, h₁, voting, hv, h₂⟩ := h
  have hstart : PayKept quiet s ((s.record records).startFill now) := ⟨rfl, rfl, fun _ => rfl⟩
  have hmissed := ((countMissedBlocks_counted h₁).payKept.payInv (hstart.payInv hi))
  have hcount := countBlock_payInv b.header.producer hmissed
  have hvotes : PayKept quiet (countBlock b.header.producer s₁)
    { countBlock b.header.producer s₁ with voting } :=
    ⟨rfl, (Voting.recalculateVotes_counted hv).unpaid, fun _ => rfl⟩
  exact (electAndClose_payKept h₂).payInv (hvotes.payInv hcount)

/-- An active block comes to its snapshot. -/
lemma onblock_snapshot {ctx : Context} {b : Block} (h : onblock ctx b s = .ok s')
    (ha : s.threshActivatedStakeTime ≠ 0) :
    ∃ s₁, beforeSnapshot ctx.now b s = .ok s₁ ∧ takeSnapshot ctx.now b s₁ = .ok s' := by
  obtain ⟨records, hrecords, hstages⟩ := onblock_stages h
  cases hstages with
  | waiting inactive => exact absurd inactive ha
  | @counted s₁ s₂ _ voting active missed votes elect snapshot =>
    refine ⟨s₂, ?_, snapshot⟩
    simp only [beforeSnapshot, recordBlock, countAndElect, bind_ok, pure_ok]
    exact ⟨_, ⟨records, hrecords, rfl⟩, _, missed, voting, votes, elect⟩

lemma onblock_payInv {ctx : Context} {b : Block} (hi : PayInv quiet surplus s)
    (h : onblock ctx b s = .ok s') : PayInv quiet surplus s' := by
  by_cases ha : s.threshActivatedStakeTime = 0
  · obtain ⟨records, -, hstages⟩ := onblock_stages h
    cases hstages with
    | waiting inactive =>
      unfold activateNetwork
      split_ifs
      · exact PayKept.payInv (s := s) ⟨rfl, rfl, fun _ => rfl⟩ hi
      · exact PayKept.payInv (s := s) ⟨rfl, rfl, fun _ => rfl⟩ hi
    | counted active missed votes elect snapshot => exact absurd ha active
  · obtain ⟨s₁, hbefore, hsnapshot⟩ := onblock_snapshot h ha
    exact takeSnapshot_payInv (beforeSnapshot_payInv hbefore hi) hsnapshot

omit [FloatOps] in
lemma claimrewards_payInv {ctx : Context} {owner : Name} (hi : PayInv quiet surplus s)
    (h : claimrewards ctx owner s = .ok s') : PayInv quiet surplus s' := by
  simp only [claimrewards, requireAuth, bind_ok, check_ok, exists_const, require_ok, pure_ok] at h
  obtain ⟨-, p, -, -, -, pay, hpay, s1, h1, rfl⟩ := h
  obtain ⟨t, rfl, -, -, hpaid, -⟩ := inlineTransfer_ok h1
  have hsource := (hpaid rfl).source
  refine ⟨hi.unpaid, fun hq => ?_⟩
  have hs := hi.surplus hq
  simp only [bpaySurplus, paymentTotal, State.setProduction, State.coreBalance, Table.total_erase,
    Table.valueAt_some hpay] at hs hsource ⊢
  omega

theorem step.payInv {l : Label} (h : step now l s s') (hq : quiet → l.Untouched bpayAccount)
    (hi : PayInv quiet surplus s) : PayInv quiet surplus s' := by
  obtain ⟨auth, action⟩ := l
  have hother : ¬ action.Produces → PayInv quiet surplus s' := by
    intro hp
    have hk := step.payKept h hp
    exact PayKept.payInv ⟨hk.accounts, hk.unpaid, fun h => hk.balance (hq h)⟩ hi
  cases action with
  | claimrewards owner => exact claimrewards_payInv hi h
  | onblock b => exact onblock_payInv hi h
  | _ => exact hother id

/-- No block has been counted and no pay is owed. -/
structure NoPay (s : State) : Prop where
  bucket : s.production.perblockBucket = 0
  payments : s.production.payments = ∅
  unpaid : s.production.totalUnpaidBlocks = 0
  rows : ∀ n p, s.voting.producers.lookup n = some p → p.unpaidBlocks = 0

/-- Over whole runs `eosio.bpay` holds the bucket and the payments, and the unpaid blocks add up
to their counter. A snapshot takes exactly the blocks of the producers it pays out of the counter;
where it fills the bucket, it obtains exactly what it passes on. -/
theorem pay_ledger {t₀ t : BlockTimestamp} {s₀ : State} {tr : List (BlockTimestamp × Label)}
    (h0 : NoPay s₀) (hrun : TimedRun step t₀ s₀ tr t s) :
    ((∀ x ∈ tr, x.2.Untouched bpayAccount) → s.coreBalance bpayAccount =
      s₀.coreBalance bpayAccount + (s.production.perblockBucket + paymentTotal s.production)) ∧
    (s.production.totalUnpaidBlocks : ℤ) = unpaidTotal s.voting.producers ∧
    ∀ ctx b s', onblock ctx b s = .ok s' → s.threshActivatedStakeTime ≠ 0 →
      ∃ s₁, beforeSnapshot ctx.now b s = .ok s₁ ∧
        (SnapshotDue b s₁ → ∃ s₂, claimrewardsSnapshot ctx.now b.payroll s₁ = .ok s₂ ∧
          SnapshotTaken ctx.now b.payroll s₁ s₂ ∧
          s' = s₂.setProduction
            { s₂.production with lastClaimrewards := b.header.timestamp.slot }) ∧
        (¬ SnapshotDue b s₁ → s' = s₁) := by
  have hu₀ : UnpaidInv s₀ := by
    rw [UnpaidInv, h0.unpaid, unpaidTotal,
      Table.total_congr (g := fun _ _ => 0) fun n p hp => by rw [h0.rows n p hp]; rfl]
    simp [Table.total]
  have hb₀ : bpaySurplus s₀ = s₀.coreBalance bpayAccount := by
    simp [bpaySurplus, paymentTotal, h0.bucket, h0.payments]
  have hrunInv : ∀ {quiet : Prop}, (quiet → ∀ x ∈ tr, x.2.Untouched bpayAccount) →
      PayInv quiet (s₀.coreBalance bpayAccount) s := fun hq =>
    hrun.invariant (fun _ _ => PayInv _ (s₀.coreBalance bpayAccount))
      (fun l => _ → l.Untouched bpayAccount)
      ⟨hu₀, fun _ => hb₀⟩ (fun hi _ hl hs => hs.payInv hl hi) fun x hx h => hq h x hx
  have hany : PayInv False (s₀.coreBalance bpayAccount) s := hrunInv False.elim
  have hu : UnpaidInv s := hany.unpaid
  refine ⟨fun hq => ?_, hu, fun ctx b s' h ha => ?_⟩
  · have hs := (hrunInv fun _ : True => hq).surplus trivial
    rw [bpaySurplus] at hs
    omega
  · obtain ⟨s₁, hbefore, hsnapshot⟩ := onblock_snapshot h ha
    have hi₁ : PayInv False 0 s₁ := beforeSnapshot_payInv hbefore ⟨hu, False.elim⟩
    exact ⟨s₁, hbefore, takeSnapshot_taken hi₁.unpaid hsnapshot⟩

omit [FloatOps]

/-- A block of Bob on which the workers are to obtain 3000 and the producers 5000. -/
def payBlock (parent : UInt8) (timestamp : BlockTimestamp) : Block :=
  { plainBlock parent timestamp with payroll := ⟨3000, 5000, fun _ => 4000⟩ }

/-- Bob produces two blocks and claims his pay; the fund covers an eighth of it. -/
def payTrace : List (BlockTimestamp × Label) :=
  [(launchTime, ⟨[alice], .transfer alice tedpAccount ⟨1000, tlos⟩ 0⟩),
    (launchTime, ⟨[bob], .regproducer bob 0 0⟩),
    (launchTime, ⟨[systemAccount], .onblock (plainBlock 1 launchTime)⟩),
    (days 1, ⟨[systemAccount], .onblock (payBlock 2 (days 1))⟩),
    (days 1, ⟨[bob], .claimrewards bob⟩)]

theorem payTrace_ledger :
    (launched payTrace).coreBalance bpayAccount = launchState.coreBalance bpayAccount +
      ((launched payTrace).production.perblockBucket +
        paymentTotal (launched payTrace).production) ∧
    ∃ s₁ s₂, @beforeSnapshot launchFloats (days 1) (payBlock 2 (days 1))
      (launched (payTrace.take 3)) = .ok s₁ ∧
      claimrewardsSnapshot (days 1) (payBlock 2 (days 1)).payroll s₁ = .ok s₂ ∧
      FillDue (days 1) s₁ ∧
      SnapshotTaken (days 1) (payBlock 2 (days 1)).payroll s₁ s₂ := by
  have hl : launches payTrace = true := by decide +kernel
  have hc : (launchTime :: payTrace.map Prod.fst).IsChain (· ≤ ·) := by decide
  have hl' : launches (payTrace.take 3) = true := by decide +kernel
  have hc' : (launchTime :: (payTrace.take 3).map Prod.fst).IsChain (· ≤ ·) := by decide
  have hq : ∀ x ∈ payTrace, x.2.Untouched bpayAccount := by
    simp [payTrace, Label.Untouched, bpayAccount, alice, bob, systemAccount, tedpAccount]
  have h0 : NoPay launchState := ⟨rfl, rfl, rfl, fun n p hp => by cases hp⟩
  let := launchFloats
  have hdue : ((beforeSnapshot (days 1) (payBlock 2 (days 1))
    (launched (payTrace.take 3))).toOption.map fun s =>
      decide (SnapshotDue (payBlock 2 (days 1)) s ∧ FillDue (days 1) s)) = some true := by
        decide +kernel
  refine ⟨(pay_ledger h0 (launched_run hl hc)).1 hq, ?_⟩
  have hstep := @launched_step (payTrace.take 3) (days 1)
    ⟨[systemAccount], .onblock (payBlock 2 (days 1))⟩
    (by decide +kernel)
  obtain ⟨s₁, h₁, hsnapshot, -⟩ :=
    (pay_ledger h0 (launched_run hl' hc')).2.2 _ _ _ hstep (by decide +kernel)
  rw [h₁] at hdue
  obtain ⟨hd, hf⟩ : SnapshotDue (payBlock 2 (days 1)) s₁ ∧ FillDue (days 1) s₁ := by
    simpa [Except.toOption] using hdue
  obtain ⟨s₂, h₂, ht, -⟩ := hsnapshot hd
  exact ⟨s₁, s₂, h₁, h₂, hf, ht⟩

end
end TelosSystem
