import TelosSystem.RexSharePrice

/-! What a REX purchase adds to the pool and what it buys. A pool that has sold all its REX
starts again with the payment alone, whatever it holds, and a payment worth less than one
unit of REX buys none. -/
namespace TelosSystem
open Ledger

/-- The core tokens of the pool, all of them and those not lent. -/
def RexPool.assets (p : RexPool) : ℤ × ℤ := (p.totalLendable, p.totalUnlent)

def Collects (payment : ℤ) (p p' : RexPool) : Prop := p'.assets = p.assets + (payment, payment)

section
variable {payment received : ℤ} {p p' : RexPool}

lemma collects_iff : Collects payment p p' ↔
    p'.totalLendable = p.totalLendable + payment ∧ p'.totalUnlent = p.totalUnlent + payment := by
  simp [Collects, RexPool.assets, Prod.ext_iff]

/-- A purchase keeps what the pool holds unless the pool starts again. -/
lemma Bought.collects_iff (h : Bought payment p received p') (hbal : p.Balanced)
    (hlent : p.totalRex = 0 → p.totalLent = 0) (hrex : 0 ≤ p.totalRex) :
    Collects payment p p' ↔ 0 < p.totalRex ∨ p.totalLendable = 0 := by
  unfold RexPool.Balanced at hbal
  rw [TelosSystem.collects_iff]
  cases h with
  | restart empty =>
    have hz := hlent (by omega)
    simp only [RexPool.restart]
    omega
  | grow rex lendable =>
    dsimp only
    constructor
    · exact fun _ => Or.inl rex
    · intro _
      exact ⟨rfl, by omega⟩

/-- The REX a growing pool gives for a payment. -/
lemma received_eq (hl : 0 < p.totalLendable) :
    (p.totalLendable + payment) * p.totalRex / p.totalLendable - p.totalRex =
      payment * p.totalRex / p.totalLendable := by
  have hsplit : (p.totalLendable + payment) * p.totalRex = payment * p.totalRex + p.totalRex *
    p.totalLendable := by
    ring
  rw [hsplit, Int.add_mul_ediv_right _ _ hl.ne', add_sub_cancel_right]

/-- A payment buys REX when it is worth one unit. -/
lemma Bought.received_pos_iff (h : Bought payment p received p') (h0 : 0 < payment) :
    1 ≤ received ↔ ¬ 0 < p.totalRex ∨ p.totalLendable ≤ payment * p.totalRex := by
  cases h with
  | restart empty =>
    simp only [rexRatio]
    constructor
    · exact fun _ => Or.inl empty
    · intro _
      omega
  | grow rex lendable =>
    rw [received_eq lendable, Int.le_ediv_iff_mul_le lendable, one_mul]
    constructor
    · exact Or.inr
    · rintro (hz | hle)
      · exact absurd rex hz
      · exact hle

end

def Action.rexPayment : Action → Option (Name × ℤ)
  | .buyrex owner amount => some (owner, amount.amount)
  | .unstaketorex owner _ fromNet fromCpu => some (owner, fromNet.amount + fromCpu.amount)
  | _ => none

section
variable [FloatOps] {now t : BlockTimestamp} {π : Promise} {s s' : State}
    {owner : Name} {payment : ℤ}

lemma Effect.acquired (h : Effect now π s s') : s'.rex.acquired = s.rex.acquired := by
  cases h with
  | stake h restake rex other =>
    obtain ⟨staking, resources, token, rfl, -⟩ := moveStake_frame h
    rfl
  | market h =>
    obtain ⟨resources, powerup, rfl⟩ := h.frame
    rfl
  | close timestamp names =>
    obtain ⟨auctions, pools, h⟩ := closeAuction_eq timestamp now s
    rw [h]
  | _ => rfl

lemma Effects.acquired (h : Effects now π s s') : s'.rex.acquired = s.rex.acquired := by
  induction h with
  | refl => rfl
  | tail _ hstep ih => exact hstep.acquired.trans ih

omit [FloatOps] in
/-- A purchase is recorded with the REX it buys. -/
lemma purchase_recorded {delta : ℤ} (h : purchase now owner payment s = .ok (delta, s')) :
    ∃ received p', Bought payment s.pools.pool received p' ∧
      s'.rex.acquired = s.rex.acquired ++ [⟨owner, now, received⟩] := by
  obtain ⟨received, p', stake, hb, rfl⟩ := purchase_ok h
  exact ⟨received, p', hb, rfl⟩

/-- The two actions that buy REX buy from the pool they find. -/
lemma step.recorded {l : Label} (h : step now l s s')
    (hl : l.action.rexPayment = some (owner, payment)) :
    0 < payment ∧ ∃ received p', Bought payment s.pools.pool received p' ∧
      s'.rex.acquired = s.rex.acquired ++ [⟨owner, now, received⟩] := by
  obtain ⟨auth, action⟩ := l
  have hre : action.rexPayment = some (owner, payment) → action.Restakes := by
    cases action <;> simp [Action.rexPayment, Action.Restakes]
  have hrestake : ((⟨auth, action⟩ : Label).promise s.core).restake := hre hl
  unfold step at h
  cases action with
  | buyrex a amount =>
    cases hl
    simp only [exec, buyrex, requireAuth, bind_ok, check_ok, exists_const, pure_ok] at h
    obtain ⟨ha, -, hpos, s1, h1, ⟨d, s2⟩, h2, s3, h3, ⟨q, s4⟩, h4, rfl⟩ := h
    obtain ⟨-, funds, rfl, -⟩ := transferFromFund_ok h1
    obtain ⟨received, p', hb, hacq⟩ := purchase_recorded h2
    refine ⟨hpos, received, p', hb, ?_⟩
    have hafter := (runrex_effects h3).1.trans (updateRexAccount_effects hrestake ha h4)
    exact hafter.acquired.trans hacq
  | unstaketorex a receiver net cpu =>
    cases hl
    simp only [exec, unstaketorex, requireAuth, bind_ok, check_ok, exists_const, pure_ok] at h
    obtain ⟨ha, -, -, s1, h1, s2, h2, ⟨d, s3⟩, h3, s4, h4, ⟨q, s5⟩, h5, rfl⟩ := h
    obtain ⟨t, rfl, -, hpos, -⟩ := inlineTransfer_ok h2
    obtain ⟨staking, resources, rfl⟩ := unstakeBandwidth_frame h1
    obtain ⟨received, p', hb, hacq⟩ := purchase_recorded h3
    refine ⟨hpos, received, p', hb, ?_⟩
    have hafter := (runrex_effects h4).1.trans (updateRexAccount_effects hrestake ha h5)
    exact hafter.acquired.trans hacq
  | _ => cases hl

/-- A purchase at a reachable state adds its payment to what the pool holds exactly when REX
is left in the pool or nothing else is. -/
theorem purchase_collects (h : Reachable t s) {p : RexPool} (hp : s.pools.rexpool = some p)
    {received : ℤ} (hb : addToRexPool payment s = .ok (received, s')) :
    ∃ p', s'.pools.rexpool = some p' ∧
      ((p'.totalLendable = p.totalLendable + payment ∧ p'.totalUnlent = p.totalUnlent + payment) ↔
        0 < p.totalRex ∨ p.totalLendable = 0) := by
  have hi := h.rexInv.pool_at hp
  obtain ⟨p', rfl, hbought⟩ := addToRexPool_ok hb
  rw [RexPools.pool_some hp] at hbought
  have hrex : 0 ≤ p.totalRex := by
    rw [hi.rex]
    exact rexTotal_nonneg h.rexInv
  refine ⟨p', rfl, ?_⟩
  rw [← collects_iff]
  exact hbought.collects_iff hi.balanced hi.empty hrex

end

/-- Alice buys REX for some core tokens, and the TEDP account hands out a fee that is worth
far more. -/
def feeTrace (payment : ℤ) : List (BlockTimestamp × Label) :=
  [(launchTime, ⟨[alice], .deposit alice ⟨1000, tlos⟩⟩),
    (launchTime, ⟨[alice], .buyrex alice ⟨payment, tlos⟩⟩),
    (launchTime, ⟨[bob], .transfer bob tedpAccount ⟨432000, tlos⟩ 0⟩),
    (launchTime, ⟨[tedpAccount], .distviarex tedpAccount ⟨432000, tlos⟩⟩)]

/-- Alice sells all of it before the fee is paid out, and someone runs the queue the day after. -/
def soldOutTrace : List (BlockTimestamp × Label) :=
  feeTrace 100 ++ [(days 6, ⟨[alice], .sellrex alice ⟨1000000, rexSymbol⟩⟩),
    (days 7, ⟨[bob], .rexexec bob 2⟩)]

lemma soldOut_reachable : @Reachable launchFloats (days 7) (launched soldOutTrace) := by
  have hl : launches soldOutTrace = true := by decide +kernel
  have h := launched_reachable hl (by decide)
  rw [show (soldOutTrace.getLast?.map Prod.fst).getD launchTime = days 7 by decide] at h
  exact h

/-- The next payment replaces the fees in the pool. -/
theorem soldOut_discards : @Reachable launchFloats (days 7) (launched soldOutTrace) ∧
    ∃ p received s' p', (launched soldOutTrace).pools.rexpool = some p ∧ p.totalLendable = 14400 ∧
      addToRexPool 100 (launched soldOutTrace) = .ok (received, s') ∧ s'.pools.rexpool = some p' ∧
      p'.totalLendable = 100 := by
  refine ⟨soldOut_reachable, ?_⟩
  obtain ⟨p, hp⟩ := Option.isSome_iff_exists.mp
    (show (launched soldOutTrace).pools.rexpool.isSome by decide +kernel)
  have hlend : (launched soldOutTrace).pools.pool.totalLendable = 14400 := by decide +kernel
  have hrex : ¬ 0 < (launched soldOutTrace).pools.pool.totalRex := by decide +kernel
  rw [RexPools.pool_some hp] at hlend hrex
  refine ⟨p, 100 * rexRatio, (launched soldOutTrace).setPool (p.restart 100), p.restart 100, hp,
    hlend, ?_, rfl, rfl⟩
  simp only [addToRexPool, hp]
  rw [if_pos hrex]

/-- With REX left in the pool a payment joins it. -/
theorem fee_collects :
    ∃ p p' : RexPool, (launched (feeTrace 100)).pools.rexpool = some p ∧ 0 < p.totalRex ∧
    p'.totalLendable = p.totalLendable + 100 ∧ p'.totalUnlent = p.totalUnlent + 100 := by
  have hreach : @Reachable launchFloats launchTime (launched (feeTrace 100)) := by
    have hl : launches (feeTrace 100) = true := by decide +kernel
    have h := launched_reachable hl (by decide)
    rw [show ((feeTrace 100).getLast?.map Prod.fst).getD launchTime = launchTime by decide] at h
    exact h
  obtain ⟨p, hp⟩ := Option.isSome_iff_exists.mp
    (show (launched (feeTrace 100)).pools.rexpool.isSome by decide +kernel)
  have hrex : 0 < (launched (feeTrace 100)).pools.pool.totalRex := by decide +kernel
  rw [RexPools.pool_some hp] at hrex
  obtain ⟨⟨received, s'⟩, hb⟩ :=
    exists_ok (show (addToRexPool 100 (launched (feeTrace 100))).isOk = true by decide +kernel)
  obtain ⟨p', -, hiff⟩ := @purchase_collects launchFloats _ _ _ _ hreach p hp received hb
  obtain ⟨hl, hu⟩ := hiff.mpr (Or.inl hrex)
  exact ⟨p, p', hp, hrex, hl, hu⟩

def thinTrace : List (BlockTimestamp × Label) := feeTrace 1 ++ [(days 31, ⟨[bob], .rexexec bob 2⟩)]

lemma thin_reachable : @Reachable launchFloats (days 31) (launched thinTrace) := by
  have hl : launches thinTrace = true := by decide +kernel
  have h := launched_reachable hl (by decide)
  rw [show (thinTrace.getLast?.map Prod.fst).getD launchTime = days 31 by decide] at h
  exact h

end TelosSystem
