import TelosSystem.ActionEffects
import TelosSystem.RexReturnRuns

/-! The invariant of the REX tables: the pool matches the loans and the balances of the
owners, every owner row is well formed and covers its open order, and the return pool is in
order. It is stated over the pools and the user tables alone. -/
namespace TelosSystem
open Ledger

def emptyPool : RexPool := ⟨0, 0, 0, 0, 0, 0, 0⟩

/-- The pool row, with an empty pool in place of a missing row. -/
def RexPools.pool (r : RexPools) : RexPool := r.rexpool.getD emptyPool

def loanTotal (f : RexLoan → ℤ) (x : Rex) : ℤ :=
  (x.loans .cpu).total (fun _ l => f l) + (x.loans .net).total fun _ l => f l

def stakedTotal : Rex → ℤ := loanTotal RexLoan.totalStaked

def rexTotal (x : Rex) : ℤ := x.balances.total fun _ rb => rb.rexBalance

structure PoolInv (p : RexPool) (x : Rex) : Prop where
  balanced : p.Balanced
  unlent_nonneg : 0 ≤ p.totalUnlent
  rent_nonneg : 0 ≤ p.totalRent
  lent : p.totalLent = stakedTotal x
  rex : p.totalRex = rexTotal x
  empty : p.totalRex = 0 → p.totalLent = 0

/-- What holds for the order of an owner: an open one is covered by matured REX. -/
def OrderInv (balances : Table Name RexBalance) (owner : Name) (o : RexOrder) : Prop :=
  if o.isOpen then 0 < o.rexRequested ∧ ∃ rb, balances.lookup owner = some rb ∧
    o.rexRequested ≤ rb.maturedRex
  else 0 ≤ o.proceeds

structure RexInv (now : BlockTimestamp) (r : RexPools) (x : Rex) : Prop where
  ret : r.ReturnInv now
  pool : PoolInv r.pool x
  loans : ∀ k num loan, (x.loans k).lookup num = some loan →
    0 < loan.payment ∧ 0 < loan.totalStaked ∧ 0 ≤ loan.balance
  rows : ∀ owner rb, x.balances.lookup owner = some rb → rb.WellFormed now
  orders : ∀ owner o, x.orders.lookup owner = some o → OrderInv x.balances owner o

/-- What the return pool functions do to the pools: some proceeds move to the REX pool, and
an amount joins the proceeds. -/
structure Returned (now : BlockTimestamp) (amount : ℤ) (r r' : RexPools) : Prop where
  inv : r'.ReturnInv now
  moved : ∃ c, 0 ≤ c ∧ r'.rexpool = r.rexpool.map (RexPool.credit c) ∧
    r'.returnProceeds = r.returnProceeds - c + amount

section
variable {now : BlockTimestamp} {r r' : RexPools}

lemma RexPools.pool_some {p : RexPool} (h : r.rexpool = some p) :
    r.pool = p := by simp [RexPools.pool, h]

lemma distributed_returned (h : r.ReturnInv now) (hbal : ∀ p, r.rexpool = some p → p.Balanced) :
    Returned now 0 r (r.distributed now) := by
  refine ⟨h.distributed (le_refl now), r.returnProceeds - (r.distributed now).returnProceeds,
    ?_, ?_, by omega⟩
  · have hle : (r.distributed now).returnProceeds ≤ r.returnProceeds := returnProceeds_le h
    omega
  · cases hp : r.rexpool with
    | some p => rw [distributed_rexpool h hp (hbal p hp), Option.map_some]
    | none =>
      have hr : r.rexretpool = none := by
        cases hr : r.rexretpool with
        | none => rfl
        | some rp =>
          obtain ⟨p, -, hp', -⟩ := h rp hr
          rw [hp] at hp'
          cases hp'
      simp [RexPools.distributed, hr, hp]

lemma updateRexPool_returned (h : r.ReturnInv now) (hbal : ∀ p, r.rexpool = some p → p.Balanced)
    (hu : updateRexPool now r = .ok r') : Returned now 0 r r' := by
  rw [updateRexPool_eq h (le_refl now)] at hu
  cases hu
  exact distributed_returned h hbal

lemma addToRexReturnPool_returned {amount : ℤ} {p : RexPool} (h : r.ReturnInv now)
    (hp : r.rexpool = some p) (hbal : p.Balanced) (ha : addToRexReturnPool now amount r = .ok r') :
    Returned now (max 0 amount) r r' := by
  have hd : Returned now 0 r (r.distributed now) := distributed_returned h fun q hq => by
    cases hp.symm.trans hq
    exact hbal
  rw [addToRexReturnPool_eq h (le_refl now)] at ha
  split_ifs at ha with hle
  · cases ha
    rwa [max_eq_left hle]
  · cases ha
    obtain ⟨c, hc, hpool, hpro⟩ := hd.moved
    rw [hp, Option.map_some] at hpool
    refine ⟨hd.inv.collected hpool (RexPool.credit_balanced _ _) (not_le.mp hle), c, hc, ?_, ?_⟩
    · rw [collected_rexpool, hpool, hp, Option.map_some]
    · rw [returnProceeds_collected, hpro, max_eq_right (not_le.mp hle).le]
      omega

lemma RexPools.ReturnInv.setPool (h : r.ReturnInv now) {p : RexPool} (hbal : p.Balanced) :
    RexPools.ReturnInv now { r with rexpool := some p } := by
  intro rp hr
  obtain ⟨-, bs, -, hb, -, hl⟩ := h rp hr
  exact ⟨p, bs, rfl, hb, hbal, hl⟩

lemma addLoanToRexPool_returned {payment rented : ℤ} {new : Bool} {p : RexPool}
    (h : r.ReturnInv now) (hp : r.rexpool = some p) (hbal : p.Balanced)
    (ha : addLoanToRexPool now payment rented new r = .ok r') :
    r'.ReturnInv now ∧ ∃ c, 0 ≤ c ∧ r'.rexpool = some ((p.credit c).lend payment rented new) ∧
      r'.returnProceeds = r.returnProceeds - c + max 0 payment := by
  simp only [addLoanToRexPool, bind_ok, require_ok, pure_ok] at ha
  obtain ⟨r1, h1, p1, hp1, rfl⟩ := ha
  have hr := addToRexReturnPool_returned h hp hbal h1
  obtain ⟨c, hc, hpool, hpro⟩ := hr.moved
  rw [hp, Option.map_some, hp1] at hpool
  cases hpool
  refine ⟨hr.inv.setPool ?_, c, hc, rfl, hpro⟩
  have hc := RexPool.credit_balanced p c
  unfold RexPool.Balanced at hc ⊢
  simp only [RexPool.lend]
  omega

end

lemma getBancorOutput_le {inpReserve outReserve inp : ℤ} (hi : 0 ≤ inpReserve) (ho : 0 ≤ outReserve)
    (h : 0 < inp) : getBancorOutput inpReserve outReserve inp ≤ outReserve := by
  unfold getBancorOutput
  apply max_le ho
  apply Int.ediv_le_of_le_mul (by omega)
  nlinarith

section
variable {p : RexPool} {x : Rex}

lemma PoolInv.credit (h : PoolInv p x) {c : ℤ} (hc : 0 ≤ c) : PoolInv (p.credit c) x := by
  have := h.unlent_nonneg
  exact ⟨RexPool.credit_balanced p c, by simp only [RexPool.credit]; omega, h.rent_nonneg,
    h.lent, h.rex, h.empty⟩

lemma PoolInv.removeLoan (h : PoolInv p x) {loan : RexLoan} {x' : Rex} (h0 : 0 < loan.totalStaked)
    (hle : loan.totalStaked ≤ p.totalLent) (hs : stakedTotal x' = stakedTotal x - loan.totalStaked)
    (hr : rexTotal x' = rexTotal x) : PoolInv (removeLoanFromRexPool loan p) x' := by
  have hu := h.unlent_nonneg
  have hrent := h.rent_nonneg
  have hdelta := getBancorOutput_le hu hrent h0
  have hl := h.lent
  refine ⟨rfl, ?_, ?_, ?_, h.rex.trans hr.symm, fun hz => ?_⟩ <;>
    simp only [removeLoanFromRexPool] at *
  · omega
  · omega
  · omega
  · have := h.empty hz
    omega

lemma PoolInv.lend (h : PoolInv p x) {payment rented : ℤ} {new : Bool} {x' : Rex} (h0 : 0 ≤ payment)
    (hle : rented ≤ p.totalUnlent) (hz : p.totalRex ≠ 0)
    (hs : stakedTotal x' = stakedTotal x + rented) (hr : rexTotal x' = rexTotal x) :
    PoolInv (p.lend payment rented new) x' := by
  have hb : p.totalLendable = p.totalUnlent + p.totalLent := h.balanced
  have hrent := h.rent_nonneg
  have hl := h.lent
  refine ⟨?_, ?_, ?_, ?_, h.rex.trans hr.symm, fun he => absurd he hz⟩ <;>
  · simp only [RexPool.Balanced, RexPool.lend]
    omega

/-- The whole supply is worth the whole pool, so that it can only be sold when nothing is lent. -/
lemma PoolInv.sell (h : PoolInv p x) {rex : ℤ} {x' : Rex} (hlent : 0 ≤ p.totalLent)
    (hf : Fillable p rex) (hs : stakedTotal x' = stakedTotal x)
    (hr : rexTotal x' = rexTotal x - rex) : PoolInv (p.sell rex (p.valueOf rex)) x' := by
  have hb : p.totalLendable = p.totalUnlent + p.totalLent := h.balanced
  have hav := hf.available
  unfold RexPool.availableUnlent at hav
  rw [Int.tdiv_eq_ediv_of_nonneg hlent] at hav
  have hrex := h.rex
  refine ⟨?_, ?_, h.rent_nonneg, h.lent.trans hs.symm, ?_, fun hz => ?_⟩
  · simp only [RexPool.Balanced, RexPool.sell]
    omega
  · simp only [RexPool.sell]
    omega
  · simp only [RexPool.sell]
    omega
  · simp only [RexPool.sell] at hz ⊢
    have hall : p.valueOf rex = p.totalLendable := by
      unfold RexPool.valueOf
      rw [show rex = p.totalRex by omega]
      exact Int.mul_ediv_cancel_left _ hf.nonzero
    omega

lemma PoolInv.lendable_nonneg (h : PoolInv p x) (hl : 0 ≤ p.totalLent) : 0 ≤ p.totalLendable := by
  have h1 : p.totalLendable = p.totalUnlent + p.totalLent := h.balanced
  have h2 := h.unlent_nonneg
  omega

end

/-- The loans table of one kind replaced. -/
lemma loanTotal_update (f : RexLoan → ℤ) {x : Rex} (k : LoanKind) (t : Table ℕ RexLoan)
    (funds : Table Name ℤ) :
    loanTotal f { x with funds, loans := Function.update x.loans k t } =
      loanTotal f x - (x.loans k).total (fun _ l => f l) + t.total fun _ l => f l := by
  cases k <;> simp [loanTotal, Function.update, add_comm]

section
variable {now : BlockTimestamp} {r : RexPools} {x : Rex}

lemma RexInv.later {later : BlockTimestamp} (h : RexInv now r x) (hle : now ≤ later) :
    RexInv later r x := by
  refine ⟨fun rp hr => ?_, h.pool, h.loans, fun owner rb hb => (h.rows owner rb hb).later hle,
    h.orders⟩
  obtain ⟨p, bs, hp, hb, hbal, hl⟩ := h.ret rp hr
  exact ⟨p, bs, hp, hb, hbal, hl.later hle⟩

lemma stakedTotal_nonneg (h : ∀ k num loan, (x.loans k).lookup num = some loan →
    0 < loan.payment ∧ 0 < loan.totalStaked ∧ 0 ≤ loan.balance) : 0 ≤ stakedTotal x :=
  add_nonneg (Table.total_nonneg fun num l hl => (h .cpu num l hl).2.1.le)
    (Table.total_nonneg fun num l hl => (h .net num l hl).2.1.le)

/-- One loan is part of what is lent. -/
lemma RexInv.staked_le (h : RexInv now r x) {k : LoanKind} {num : ℕ} {loan : RexLoan}
    (hl : (x.loans k).lookup num = some loan) : loan.totalStaked ≤ stakedTotal x := by
  have hc : 0 ≤ (x.loans .cpu).total fun _ l => l.totalStaked :=
    Table.total_nonneg fun num l hl => (h.loans .cpu num l hl).2.1.le
  have hn : 0 ≤ (x.loans .net).total fun _ l => l.totalStaked :=
    Table.total_nonneg fun num l hl => (h.loans .net num l hl).2.1.le
  have hk := Table.le_total (f := fun _ (l : RexLoan) => l.totalStaked)
    (fun num l hl => (h.loans k num l hl).2.1.le) hl
  unfold stakedTotal loanTotal
  cases k <;> omega

lemma RexInv.lent_nonneg (h : RexInv now r x) : 0 ≤ r.pool.totalLent := by
  rw [h.pool.lent]
  exact stakedTotal_nonneg h.loans

lemma RexBalance.WellFormed.matured_le {rb : RexBalance} (h : rb.WellFormed now) :
    0 ≤ rb.maturedRex ∧ rb.maturedRex ≤ rb.rexBalance := by
  obtain ⟨bs, sv, hf⟩ := h
  have h1 := bucketSum_nonneg hf.maturing.nonneg
  have h2 := hf.savings_nonneg
  have h3 := hf.total
  exact ⟨hf.matured_nonneg, by omega⟩

/-- One owner holds at most the whole supply. -/
lemma RexInv.balance_le (h : RexInv now r x) {owner : Name} {rb : RexBalance}
    (hb : x.balances.lookup owner = some rb) : rb.rexBalance ≤ r.pool.totalRex := by
  rw [h.pool.rex]
  refine Table.le_total (f := fun _ (rb : RexBalance) => rb.rexBalance) (fun owner rb hb => ?_) hb
  have := (h.rows owner rb hb).matured_le
  omega

lemma RexInv.openRequest_bounds (h : RexInv now r x) {owner : Name} {rb : RexBalance}
    (hb : x.balances.lookup owner = some rb) :
    0 ≤ openRequest owner x.orders ∧ openRequest owner x.orders ≤ rb.maturedRex := by
  have hm := ((h.rows owner rb hb).matured_le).1
  unfold openRequest
  cases ho : x.orders.lookup owner with
  | none => exact ⟨le_refl _, hm⟩
  | some o =>
    have hi := h.orders owner o ho
    unfold OrderInv at hi
    dsimp only
    split_ifs at hi ⊢ with hopen
    · obtain ⟨hpos, rb', hb', hle⟩ := hi
      cases hb.symm.trans hb'
      exact ⟨hpos.le, hle⟩
    · exact ⟨le_refl _, hm⟩

lemma RexInv.closedProceeds_nonneg (h : RexInv now r x) (owner : Name) :
    0 ≤ closedProceeds owner x.orders := by
  unfold closedProceeds
  cases ho : x.orders.lookup owner with
  | none => exact le_refl _
  | some o =>
    have hi := h.orders owner o ho
    unfold OrderInv at hi
    dsimp only
    split_ifs at hi ⊢
    · exact le_refl _
    · exact hi

/-- An open order, like any matured REX, keeps the pool alive. -/
lemma RexInv.totalRex_pos (h : RexInv now r x) {owner : Name} {rb : RexBalance} {rex : ℤ}
    (hb : x.balances.lookup owner = some rb) (h0 : 0 < rex) (hle : rex ≤ rb.maturedRex) :
    0 < r.pool.totalRex := by
  have h1 := h.balance_le hb
  have h2 := (h.rows owner rb hb).matured_le
  omega

lemma RexInv.withFunds (h : RexInv now r x) (funds : Table Name ℤ) :
    RexInv now r { x with funds } :=
  ⟨h.ret, ⟨h.pool.balanced, h.pool.unlent_nonneg, h.pool.rent_nonneg, h.pool.lent,
    h.pool.rex, h.pool.empty⟩,
    h.loans, h.rows, h.orders⟩

lemma RexInv.withPool (h : RexInv now r x) {p : RexPool} (hp : PoolInv p x) :
    RexInv now { r with rexpool := some p } x :=
  ⟨h.ret.setPool hp.balanced, hp, h.loans, h.rows, h.orders⟩

lemma RexInv.balanced (h : RexInv now r x) {p : RexPool} (hp : r.rexpool = some p) : p.Balanced :=
  RexPools.pool_some hp ▸ h.pool.balanced

lemma RexInv.returned (h : RexInv now r x) {amount : ℤ} {r' : RexPools}
    (hr : Returned now amount r r') : RexInv now r' x := by
  obtain ⟨c, hc, hpool, -⟩ := hr.moved
  refine ⟨hr.inv, ?_, h.loans, h.rows, h.orders⟩
  cases hp : r.rexpool with
  | none =>
    rw [hp, Option.map_none] at hpool
    have he : r'.pool = r.pool := by simp [RexPools.pool, hp, hpool]
    rw [he]
    exact h.pool
  | some p =>
    rw [hp, Option.map_some] at hpool
    have hi := h.pool
    rw [RexPools.pool_some hp] at hi
    rw [RexPools.pool_some hpool]
    exact hi.credit hc

end
end TelosSystem
