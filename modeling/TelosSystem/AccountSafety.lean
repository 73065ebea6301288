import TelosSystem.OrdinaryActions
import TelosSystem.RamAccounting

/-! No account loses anything by what others sign. Every action but those on stakes, on refunds, on
new accounts and on limits set by hand is ordinary. -/
namespace TelosSystem
open Ledger

/-- The accounts that the contract moves tokens from on its own authority. -/
def systemAccounts : List Name :=
  [rexAccount, stakeAccount, ramAccount, ramfeeAccount, namesAccount, tedpAccount,
    worksAccount, bpayAccount,
    systemAccount]

def Label.Pays (l : Label) (a : Name) : Prop := a ∈ l.auth ∨ a ∈ systemAccounts

def Action.Unstakes : Action → Prop
  | .delegatebw .. => True
  | .undelegatebw .. => True
  | .refund _ => True
  | _ => False

def Action.Administers : Action → Prop
  | .newaccount .. => True
  | .setalimits .. => True
  | .setacctram .. => True
  | .setacctnet .. => True
  | .setacctcpu .. => True
  | _ => False

section
variable [FloatOps] {now : BlockTimestamp} {s s' : State}

omit [FloatOps] in
lemma requireAuth_ok {ctx : Context} {a : Name} {u : Unit} :
    requireAuth ctx a = .ok u ↔ a ∈ ctx.auth := by
  cases u
  exact check_ok

omit [FloatOps] in
/-- A step of the voting tables that rewrites rows of producers only. -/
lemma modifyProducer_ordinary {pays : Name → Prop} {producer : Name}
    {f : ProducerInfo → ProducerInfo} {msg : String} {v : Voting}
    (h : s.voting.modifyProducer producer f msg = .ok v) :
    Ordinary pays s { s with voting := v } := by
  simp only [Voting.modifyProducer, bind_ok, require_ok, pure_ok] at h
  obtain ⟨p, -, rfl⟩ := h
  exact Ordinary.idle rfl

lemma updaterex_ordinary {pays : Name → Prop} {ctx : Context} {owner : Name}
    (hauth : ∀ a ∈ ctx.auth, pays a) (hnames : pays namesAccount)
    (h : updaterex ctx owner s = .ok s') : Ordinary pays s s' := by
  simp only [updaterex, bind_ok, pure_ok, requireAuth_ok] at h
  obtain ⟨-, ho, s₁, h₁, rb, -, p, -, ⟨q, s₂⟩, h₂, rfl⟩ := h
  have hrow : ∀ s row, Ordinary pays s (s.setBalance owner row) :=
    fun s row => setBalance_ordinary fun hn => absurd (hauth _ ho) hn
  exact (runrex_ordinary hnames h₁).trans
    ((hrow s₁ _).trans ((updateRexAccount_ordinary h₂).trans (hrow s₂ _)))

theorem step.ordinary {l : Label} (h : step now l s s') (hu : ¬ l.action.Unstakes)
    (ha : ¬ l.action.Administers) : Ordinary l.Pays s s' := by
  obtain ⟨auth, action⟩ := l
  have hauth : ∀ a ∈ auth, Label.Pays ⟨auth, action⟩ a := fun a h => Or.inl h
  have hrex : Label.Pays ⟨auth, action⟩ rexAccount := Or.inr (by decide)
  have hnames : Label.Pays ⟨auth, action⟩ namesAccount := Or.inr (by decide)
  have hstake : Label.Pays ⟨auth, action⟩ stakeAccount := Or.inr (by decide)
  have hram : Label.Pays ⟨auth, action⟩ ramAccount := Or.inr (by decide)
  have hramfee : Label.Pays ⟨auth, action⟩ ramfeeAccount := Or.inr (by decide)
  have htedp : Label.Pays ⟨auth, action⟩ tedpAccount := Or.inr (by decide)
  have hbpay : Label.Pays ⟨auth, action⟩ bpayAccount := Or.inr (by decide)
  have hsystem : Label.Pays ⟨auth, action⟩ systemAccount := Or.inr (by decide)
  generalize Label.Pays ⟨auth, action⟩ = pays at *
  unfold step at h
  cases action with
  | deposit owner amount =>
    simp only [exec, deposit, bind_ok, requireAuth_ok] at h
    obtain ⟨-, ho, -, -, -, -, s₁, h₁, h₂⟩ := h
    exact (inlineTransfer_ordinary (hauth _ ho) h₁).trans (transferToFund_ordinary h₂)
  | withdraw owner amount =>
    simp only [exec, withdraw, bind_ok, requireAuth_ok] at h
    obtain ⟨-, ho, -, -, -, -, ⟨q, s₁⟩, h₁, s₂, h₂, h₃⟩ := h
    exact (updateRexAccount_ordinary h₁).trans
      ((transferFromFund_ordinary (hauth _ ho) h₂).trans (inlineTransfer_ordinary hrex h₃))
  | buyrex owner amount =>
    simp only [exec, buyrex, bind_ok, pure_ok, requireAuth_ok] at h
    obtain ⟨-, ho, -, -, -, -, s₁, h₁, ⟨d, s₂⟩, h₂, s₃, h₃, ⟨q, s₄⟩, h₄, rfl⟩ := h
    exact (transferFromFund_ordinary (hauth _ ho) h₁).trans
      ((purchase_ordinary (hauth _ ho) h₂).trans
      ((runrex_ordinary hnames h₃).trans (updateRexAccount_ordinary h₄)))
  | unstaketorex owner receiver net cpu =>
    simp only [exec, unstaketorex, bind_ok, pure_ok, requireAuth_ok] at h
    obtain ⟨-, ho, -, -, -, -, s₁, h₁, s₂, h₂, ⟨d, s₃⟩, h₃, s₄, h₄, ⟨q, s₅⟩, h₅, rfl⟩ := h
    have hunstaked : Ordinary pays s s₂ :=
      (unstakeBandwidth_ordinary (hauth _ ho) h₁).trans (inlineTransfer_ordinary hstake h₂)
    exact hunstaked.trans ((purchase_ordinary (hauth _ ho) h₃).trans
      ((runrex_ordinary hnames h₄).trans (updateRexAccount_ordinary h₅)))
  | sellrex owner rex =>
    simp only [exec, sellrex, bind_ok, requireAuth_ok] at h
    obtain ⟨-, ho, s₁, h₁, rb, -, -, -, h₂⟩ := h
    exact (runrex_ordinary hnames h₁).trans (sellMatured_ordinary (hauth _ ho) h₂)
  | cnclrexorder owner =>
    simp only [exec, cnclrexorder, bind_ok, pure_ok, requireAuth_ok] at h
    obtain ⟨-, ho, o, -, -, -, rfl⟩ := h
    exact eraseOrder_ordinary (hauth _ ho)
  | rent k owner receiver payment fund =>
    simp only [exec, rent, bind_ok, requireAuth_ok] at h
    obtain ⟨-, ho, s₁, h₁, -, -, -, -, -, -, h₂⟩ := h
    exact (runrex_ordinary hnames h₁).trans (openLoan_ordinary (hauth _ ho) h₂)
  | fundLoan k owner num payment =>
    simp only [exec, fundLoan, bind_ok, pure_ok, requireAuth_ok] at h
    obtain ⟨-, ho, -, -, s₁, h₁, loan, -, -, -, -, -, rfl⟩ := h
    exact (transferFromFund_ordinary (hauth _ ho) h₁).trans (Ordinary.idle rfl)
  | defundLoan k owner num amount =>
    simp only [exec, defundLoan, bind_ok] at h
    obtain ⟨-, -, -, -, loan, -, -, -, -, -, -, -, h₁⟩ := h
    have hloan : ∀ row, Ordinary pays s (s.setLoan k num row) := fun row => Ordinary.idle rfl
    exact (hloan _).trans (transferToFund_ordinary h₁)
  | updaterex owner => exact updaterex_ordinary hauth hnames h
  | setrex balance =>
    simp only [exec, setrex, bind_ok, pure_ok] at h
    obtain ⟨-, -, -, -, -, -, p, -, rfl⟩ := h
    exact Ordinary.idle rfl
  | rexexec user max =>
    simp only [exec, rexexec, bind_ok] at h
    obtain ⟨-, -, h⟩ := h
    exact runrex_ordinary hnames h
  | consolidate owner =>
    simp only [exec, consolidate, bind_ok, pure_ok, requireAuth_ok] at h
    obtain ⟨-, ho, s₁, h₁, rb, -, ⟨q, s₂⟩, h₂, rfl⟩ := h
    exact (runrex_ordinary hnames h₁).trans ((updateRexAccount_ordinary h₂).trans
      (setBalance_ordinary fun hn => absurd (hauth _ ho) hn))
  | mvtosavings owner rex =>
    simp only [exec, mvtosavings, bind_ok, pure_ok, requireAuth_ok] at h
    obtain ⟨-, ho, s₁, h₁, rb, -, -, -, ⟨q, s₂⟩, h₂, -, -, row, -, rfl⟩ := h
    exact (runrex_ordinary hnames h₁).trans ((updateRexAccount_ordinary h₂).trans
      (setBalance_ordinary fun hn => absurd (hauth _ ho) hn))
  | mvfrsavings owner rex =>
    simp only [exec, mvfrsavings, bind_ok, pure_ok, requireAuth_ok] at h
    obtain ⟨-, ho, s₁, h₁, rb, -, -, -, -, -, ⟨q, s₂⟩, h₂, rfl⟩ := h
    have hmoved : ∀ row, Ordinary pays s₁ (s₁.setBalance owner row) :=
      fun row => setBalance_ordinary fun hn => absurd (hauth _ ho) hn
    exact (runrex_ordinary hnames h₁).trans ((hmoved _).trans (updateRexAccount_ordinary h₂))
  | closerex owner =>
    simp only [exec, closerex, runrexIfInitialized, bind_ok] at h
    obtain ⟨-, -, s₁, h₁, ⟨q, s₂⟩, h₂, h₃⟩ := h
    have hfirst : Ordinary pays s s₁ := by
      split_ifs at h₁
      · exact runrex_ordinary hnames h₁
      · cases h₁
        exact Ordinary.refl pays s
    exact hfirst.trans ((updateRexAccount_ordinary h₂).trans
      ((closeFund_ordinary owner s₂).trans (closeBalance_ordinary h₃)))
  | delegatebw owner receiver net cpu transfer => exact absurd trivial hu
  | undelegatebw owner receiver net cpu => exact absurd trivial hu
  | refund owner => exact absurd trivial hu
  | voteproducer voter proxy producers =>
    simp only [exec, voteproducer, bind_ok, pure_ok] at h
    obtain ⟨-, -, v, hv, rfl⟩ := h
    have hvotes : Ordinary pays (updateRexStake voter s) _ :=
      Ordinary.voting (Voting.updateVotes_counted hv).flags
    exact (updateRexStake_ordinary voter s).trans hvotes
  | voteupdate voter =>
    simp only [exec, voteupdate, bind_ok, pure_ok] at h
    obtain ⟨-, -, s₁, h₁, row, hrow, v, hv, rfl⟩ := h
    refine (updaterex_ordinary hauth hnames h₁).trans (Ordinary.voting (Voting.FlagsKept.trans ?_
      (Voting.updateVotes_counted hv).flags))
    apply setVoter_flags
    rw [require_ok.mp hrow]
    rfl
  | buyram payer receiver quant =>
    have hp : payer ∈ auth := by
      simp only [exec, buyram, bind_ok, requireAuth_ok] at h
      obtain ⟨-, ho, -⟩ := h
      exact ho
    exact buyram_ordinary (hauth _ hp) hramfee h
  | buyrambytes payer receiver bytes =>
    have hp : payer ∈ auth := by
      simp only [exec, buyrambytes, buyram, bind_ok, requireAuth_ok] at h
      obtain ⟨-, ho, -⟩ := h
      exact ho
    exact buyram_ordinary (hauth _ hp) hramfee h
  | sellram account bytes =>
    have hp : account ∈ auth := by
      simp only [exec, sellram, bind_ok, requireAuth_ok] at h
      obtain ⟨-, ho, -⟩ := h
      exact ho
    exact sellram_ordinary (hauth _ hp) hram hramfee h
  | cfgpowerup args => exact cfgpowerup_ordinary h
  | powerupexec user max => exact powerupexec_ordinary h
  | powerup payer receiver days netFrac cpuFrac maxPayment =>
    have hp : payer ∈ auth := by
      simp only [exec, powerup, bind_ok, requireAuth_ok] at h
      obtain ⟨-, ho, -⟩ := h
      exact ho
    exact powerup_ordinary (hauth _ hp) h
  | distviarex source amount =>
    simp only [exec, distviarex, bind_ok, check_ok] at h
    obtain ⟨-, rfl, -, -, h⟩ := h
    exact channelToRex_ordinary htedp h
  | bidname bidder newname bid =>
    have hp : bidder ∈ auth := by
      simp only [exec, bidname, bind_ok, requireAuth_ok] at h
      obtain ⟨-, ho, -⟩ := h
      exact ho
    exact bidname_ordinary (hauth _ hp) h
  | bidrefund bidder newname => exact bidrefund_ordinary hnames h
  | claimrewards owner =>
    simp only [exec, claimrewards, bind_ok, pure_ok] at h
    obtain ⟨-, -, p, -, -, -, -, -, pay, -, s₁, h₁, rfl⟩ := h
    exact (inlineTransfer_ordinary hbpay h₁).trans (setProduction_ordinary s₁ _)
  | onblock b => exact onblock_ordinary htedp hsystem h
  | transfer source dest quantity memoSize =>
    simp only [exec, tokenTransfer, bind_ok, pure_ok] at h
    obtain ⟨t, ht, rfl⟩ := h
    have ho : source ∈ auth := by
      simp only [Token.transfer, bind_ok, check_ok] at ht
      obtain ⟨-, -, -, ho, -⟩ := ht
      exact ho
    exact transfer_ordinary (hauth _ ho) ht
  | newaccount creator newAccountName => exact absurd trivial ha
  | setacctram account ramBytes => exact absurd trivial ha
  | setacctnet account netWeight => exact absurd trivial ha
  | setacctcpu account cpuWeight => exact absurd trivial ha
  | setalimits account ram net cpu => exact absurd trivial ha
  | regproducer producer urlSize location =>
    simp only [exec, regproducer, bind_ok, pure_ok] at h
    obtain ⟨-, -, -, -, rfl⟩ := h
    refine Ordinary.voting (Voting.FlagsKept.of_voters ?_)
    unfold Voting.registerProducer
    split <;> rfl
  | unregprod producer =>
    simp only [exec, unregprod, bind_ok, pure_ok] at h
    obtain ⟨-, -, v, hv, rfl⟩ := h
    exact modifyProducer_ordinary hv
  | unregreason producer reasonSize =>
    simp only [exec, unregreason, bind_ok, pure_ok] at h
    obtain ⟨-, -, -, -, v, hv, rfl⟩ := h
    exact modifyProducer_ordinary hv
  | rmvproducer producer =>
    simp only [exec, rmvproducer, bind_ok, pure_ok] at h
    obtain ⟨-, -, v, hv, rfl⟩ := h
    exact modifyProducer_ordinary hv
  | votebpout bp penaltyHours =>
    simp only [exec, votebpout, bind_ok, pure_ok] at h
    obtain ⟨-, -, -, -, v, hv, rfl⟩ := h
    exact modifyProducer_ordinary hv
  | setvotecontr contract =>
    simp only [exec, setvotecontr, bind_ok, pure_ok] at h
    obtain ⟨-, -, rfl⟩ := h
    exact Ordinary.idle rfl
  | setvotedecay start yearly nonce =>
    obtain ⟨raw, h⟩ := map_snd_ok h
    simp only [setvotedecay, bind_ok, pure_ok] at h
    obtain ⟨-, -, -, -, -, -, -, -, n, -, hsent⟩ := h
    cases hsent
    exact Ordinary.idle rfl
  | setselfstake multiplier =>
    simp only [exec, setselfstake, bind_ok, pure_ok] at h
    obtain ⟨-, -, -, -, rfl⟩ := h
    exact Ordinary.idle rfl
  | setram size =>
    simp only [exec, setram, bind_ok, pure_ok] at h
    obtain ⟨-, -, -, -, -, -, -, -, rfl⟩ := h
    exact Ordinary.idle rfl
  | setramrate rate =>
    simp only [exec, setramrate, bind_ok, pure_ok] at h
    obtain ⟨-, -, rfl⟩ := h
    exact Ordinary.idle rfl

def State.refundOf (s : State) (a : Name) : ℤ :=
  s.staking.refunds.valueAt (fun _ r => r.netAmount + r.cpuAmount) a

omit [FloatOps] in
lemma refundOf_of_lookup {a : Name} (h : s'.staking.refunds.lookup a = s.staking.refunds.lookup a) :
    s'.refundOf a = s.refundOf a := by
  rw [State.refundOf, State.refundOf, Table.valueAt, Table.valueAt, h]

omit [FloatOps] in
lemma inlineTransfer_staking {source dest : Name} {quantity : Asset} {memoSize : ℕ}
    (h : s.inlineTransfer source dest quantity memoSize = .ok s') : s'.staking = s.staking := by
  simp only [State.inlineTransfer, bind_ok, pure_ok] at h
  obtain ⟨t, -, rfl⟩ := h
  rfl

/-- The refund part of a stake change, with the refunds before and after it. -/
structure Settled (now : BlockTimestamp) (owner receiver : Name) (net cpu : ℤ)
    (transfer : Bool) (n c : ℤ)
    (scheduled : Bool) (m m' s s' : State) : Prop where
  balances : refundBalances now owner receiver net cpu transfer m = .ok (n, c, scheduled, m')
  before : m.staking.refunds = s.staking.refunds ∧ m.staking.deferred = s.staking.deferred
  refunds : s'.staking.refunds = m'.staking.refunds
  deferred : s'.staking.deferred = (m'.scheduleRefund owner now scheduled).staking.deferred

lemma changebw_settled {ctx : Context} {source receiver : Name} {net cpu : ℤ} {transfer : Bool}
    (hne : source ≠ stakeAccount) (h : changebw ctx source receiver net cpu transfer s = .ok s') :
    ∃ n c scheduled m m', Settled ctx.now (if transfer then receiver else source) receiver
      net cpu transfer n c
      scheduled m m' s s' := by
  simp only [changebw, moveStake, bind_ok, check_ok, exists_const, pure_ok] at h
  obtain ⟨-, -, -, -, s₁, ⟨s₂, h₂, s₃, h₃, h₄⟩, v, -, rfl⟩ := h
  have hdelband : Ordinary (fun _ => True) s s₂ :=
    changeDelband_ordinary (fun hn => absurd trivial hn) h₂
  have hstaked : Ordinary (fun _ => True) s s₃ := hdelband.trans (adjustResources_ordinary h₃)
  have hlast : Ordinary (fun _ => True) s₁
    (updateRexStake (if transfer then receiver else source) s₁) :=
    updateRexStake_ordinary _ s₁
  rw [if_pos (Ne.symm hne)] at h₄
  simp only [settleRefund, bind_ok] at h₄
  obtain ⟨⟨n, c, scheduled, m'⟩, hb, h₄⟩ := h₄
  have hpaid : s₁.staking = (m'.scheduleRefund (if transfer then receiver else source) ctx.now
    scheduled).staking := by
    by_cases hpos : 0 < n + c
    · rw [if_pos hpos] at h₄
      exact inlineTransfer_staking h₄
    · rw [if_neg hpos, pure_ok] at h₄
      rw [← h₄]
  refine ⟨n, c, scheduled, s₃, m', hb, ⟨hstaked.refunds, hstaked.deferred⟩, ?_, ?_⟩
  · exact hlast.refunds.trans (by rw [hpaid]; rfl)
  · exact hlast.deferred.trans (by rw [hpaid])

/-- The account that pays the stakes changes no refund. -/
lemma changebw_unsettled {ctx : Context} {receiver : Name} {net cpu : ℤ} {transfer : Bool}
    (h : changebw ctx stakeAccount receiver net cpu transfer s = .ok s') :
    s'.staking.refunds = s.staking.refunds ∧ s'.staking.deferred = s.staking.deferred := by
  simp only [changebw, moveStake, bind_ok, check_ok, exists_const, pure_ok] at h
  obtain ⟨-, -, -, -, s₁, ⟨s₂, h₂, s₃, h₃, h₄⟩, v, -, rfl⟩ := h
  have hdelband : Ordinary (fun _ => True) s s₂ :=
    changeDelband_ordinary (fun hn => absurd trivial hn) h₂
  rw [if_neg (not_not.mpr rfl), pure_ok] at h₄
  subst h₄
  have hlast := (hdelband.trans (adjustResources_ordinary h₃)).trans
    (updateRexStake_ordinary (if transfer then receiver else stakeAccount) s₃)
  exact ⟨hlast.refunds, hlast.deferred⟩

omit [FloatOps] in
lemma updateRefund_other {a owner : Name} {net cpu n c : ℤ} {scheduled : Bool} (hne : a ≠ owner)
    (h : updateRefund now owner net cpu s = .ok (n, c, scheduled, s')) :
    s'.staking.refunds.lookup a = s.staking.refunds.lookup a := by
  unfold updateRefund at h
  split at h
  · rename_i r hr
    simp only [bind_ok, check_ok, exists_const] at h
    obtain ⟨-, -, h⟩ := h
    by_cases hz : (netted r.netAmount net).1 = 0 ∧ (netted r.cpuAmount cpu).1 = 0
    · rw [if_pos hz, pure_ok] at h
      cases h
      exact AList.lookup_erase_ne hne
    · rw [if_neg hz, pure_ok] at h
      cases h
      exact AList.lookup_insert_ne hne
  · by_cases hneg : net < 0 ∨ cpu < 0
    · rw [if_pos hneg, pure_ok] at h
      cases h
      exact AList.lookup_insert_ne hne
    · rw [if_neg hneg, pure_ok] at h
      cases h
      rfl

/-- A stake change leaves the refunds of the accounts that did not sign it. -/
lemma changebw_refund_kept {ctx : Context} {a source receiver : Name} {net cpu : ℤ}
    {transfer : Bool} (hne : a ≠ source) (hsum : transfer = true → 0 ≤ net + cpu)
    (h : changebw ctx source receiver net cpu transfer s = .ok s') :
    s'.staking.refunds.lookup a = s.staking.refunds.lookup a := by
  by_cases hs : source = stakeAccount
  · subst hs
    rw [(changebw_unsettled h).1]
  · obtain ⟨n, c, scheduled, m, m', hsettled⟩ := changebw_settled hs h
    rw [hsettled.refunds, ← hsettled.before.1]
    have hb := hsettled.balances
    cases transfer with
    | false =>
      unfold refundBalances at hb
      simp only [Bool.false_eq_true, if_false] at hb
      split_ifs at hb
      · exact updateRefund_other hne hb
      · cases hb
        rfl
    | true =>
      have hsum := hsum rfl
      unfold refundBalances at hb
      dsimp only at hb
      rw [if_neg (by simp; omega)] at hb
      cases hb
      rfl

/-- The tables in which accounts hold something, RAM apart. -/
def State.heldTables (s : State) := (s.core, s.token, s.rex, s.staking)

/-- An account has lost nothing: its holdings are no less, its RAM is no less, and what it could
collect by a refund it can still collect or has collected. -/
structure Kept (a : Name) (s s' : State) : Prop extends NotLess a s s' where
  ram : ramBytesOf s.resources a ≤ ramBytesOf s'.resources a
  refund : s.coreBalance a + s.refundOf a ≤ s'.coreBalance a + s'.refundOf a

omit [FloatOps] in
lemma Kept.refl (a : Name) (s : State) : Kept a s s := ⟨NotLess.refl a s, le_refl _, le_refl _⟩

omit [FloatOps] in
lemma Kept.trans {a : Name} {s'' : State} (h : Kept a s s') (h' : Kept a s' s'') : Kept a s s'' :=
  ⟨h.toNotLess.trans h'.toNotLess, h.ram.trans h'.ram, h.refund.trans h'.refund⟩

omit [FloatOps] in
lemma NotLess.of_tables {a : Name} (h : s'.heldTables = s.heldTables) : NotLess a s s' := by
  simp only [State.heldTables, Prod.mk.injEq] at h
  obtain ⟨hcore, htoken, hrex, hstaking⟩ := h
  refine ⟨?_, ?_, ?_, fun k r => ?_⟩
  · rw [State.coreBalance, State.coreBalance, hcore, htoken]
  · rw [State.fundOf, State.fundOf, hrex]
  · rw [State.keptRex, State.keptRex, hrex]
  · rw [hstaking]

omit [FloatOps] in
lemma manageResource_tables {ctx : Context} {account : Name} {field : UInt32} {value : Option ℤ}
    {lowest limit : ℤ} {alreadyUnmanaged invalid : String} {unmanaged : Option UserResources → ℤ}
    {current : ResourceLimits}
    (h : manageResource ctx account field value lowest alreadyUnmanaged invalid unmanaged s =
      .ok (current, limit, s')) :
    ∃ b, s' = { s with voting := s.voting.setFlag account field b } := by
  simp only [manageResource, bind_ok] at h
  obtain ⟨-, -, l, -, h⟩ := h
  cases value <;>
  · simp only [bind_ok, pure_ok, Prod.mk.injEq] at h
    obtain ⟨-, -, -, -, rfl⟩ := h
    exact ⟨_, rfl⟩

theorem step.administered {l : Label} (h : step now l s s') (ha : l.action.Administers) :
    s'.heldTables = s.heldTables := by
  obtain ⟨auth, action⟩ := l
  unfold step at h
  cases action with
  | newaccount creator newAccountName =>
    simp only [exec, newaccount, bind_ok, pure_ok] at h
    obtain ⟨-, -, -, -, -, -, -, -, s₁, h₁, -, -, rfl⟩ := h
    obtain ⟨auctions, rfl⟩ := claimName_ok h₁
    rfl
  | setacctram account ramBytes =>
    simp only [exec, setacctram, bind_ok, pure_ok] at h
    obtain ⟨⟨current, limit, s₁⟩, h₁, rfl⟩ := h
    obtain ⟨b, rfl⟩ := manageResource_tables h₁
    rfl
  | setacctnet account netWeight =>
    simp only [exec, setacctnet, bind_ok, pure_ok] at h
    obtain ⟨⟨current, limit, s₁⟩, h₁, rfl⟩ := h
    obtain ⟨b, rfl⟩ := manageResource_tables h₁
    rfl
  | setacctcpu account cpuWeight =>
    simp only [exec, setacctcpu, bind_ok, pure_ok] at h
    obtain ⟨⟨current, limit, s₁⟩, h₁, rfl⟩ := h
    obtain ⟨b, rfl⟩ := manageResource_tables h₁
    rfl
  | setalimits account ram net cpu =>
    simp only [exec, setalimits, bind_ok, pure_ok] at h
    obtain ⟨-, -, -, -, -, -, -, -, rfl⟩ := h
    rfl
  | _ => exact ha.elim

omit [FloatOps] in
lemma Kept.of_refund {a : Name} (h : NotLess a s s')
    (hram : ramBytesOf s.resources a ≤ ramBytesOf s'.resources a)
    (hrefund : s'.refundOf a = s.refundOf a) : Kept a s s' :=
  ⟨h, hram, by rw [hrefund]; exact add_le_add_left h.tokens _⟩

lemma changebw_auth {ctx : Context} {source receiver : Name} {net cpu : ℤ} {transfer : Bool}
    (h : changebw ctx source receiver net cpu transfer s = .ok s') : source ∈ ctx.auth := by
  simp only [changebw, bind_ok, requireAuth_ok] at h
  obtain ⟨-, ho, -⟩ := h
  exact ho

/-- An account that does not sign loses nothing by a stake change. -/
lemma changebw_kept {auth : List Name} {a source receiver : Name} {net cpu : ℤ} {transfer : Bool}
    (ha : a ∉ auth) (hs : source ∈ auth) (hn : transfer = true → 0 ≤ net ∧ 0 ≤ cpu)
    (h : changebw ⟨now, auth⟩ source receiver net cpu transfer s = .ok s') :
    NotLess a s s' ∧ s'.refundOf a = s.refundOf a := by
  have hprotected : Protected (· ∈ auth) s s' := changebw_protected hs hn h
  have hne : a ≠ source := fun he => ha (he ▸ hs)
  refine ⟨hprotected.holdings a ha, refundOf_of_lookup (changebw_refund_kept hne (fun ht => ?_) h)⟩
  obtain ⟨h₁, h₂⟩ := hn ht
  exact add_nonneg h₁ h₂

/-- The RAM of an account that does not sign is no less. -/
lemma step.ramKept {l : Label} {a : Name} (h : step now l s s')
    (ha : a ∈ l.auth → ¬ l.action.TradesRam) :
    ramBytesOf s.resources a ≤ ramBytesOf s'.resources a := by
  by_cases htr : l.action.TradesRam
  · have hne : a ∉ l.auth := fun hm => ha hm htr
    cases h.ramStep.move with
    | same h => exact (h.kept.bytes a).ge
    | grown h resources => rw [resources]
    | bought payer_auth grown h =>
      rw [h.traded.held a]
      have hout := h.out
      split_ifs <;> omega
    | @sold account bytes tokens r account_auth grown h =>
      have hna : a ≠ account := fun he => hne (by rw [he]; exact account_auth)
      rw [h.traded.held a, if_neg hna, add_zero]
  · exact ((h.ramSame htr).kept.bytes a).ge

/-- An account that signs no action but the collection of its refund loses nothing. -/
theorem step.kept {l : Label} {a : Name} (h : step now l s s') (hsys : a ∉ systemAccounts)
    (ha : a ∈ l.auth → l.action = .refund a) : Kept a s s' := by
  have hram : ramBytesOf s.resources a ≤ ramBytesOf s'.resources a := by
    refine h.ramKept fun hm => ?_
    rw [ha hm]
    exact id
  by_cases hu : l.action.Unstakes
  · obtain ⟨auth, action⟩ := l
    have hout : action ≠ .refund a → a ∉ auth := fun hne hm => hne (ha hm)
    unfold step at h
    cases action with
    | delegatebw source receiver net cpu transfer =>
      have hkept : NotLess a s s' ∧ s'.refundOf a = s.refundOf a := by
        simp only [exec, delegatebw, stakeAmounts, bind_ok, check_ok, exists_const] at h
        obtain ⟨⟨-, hcpu, -, hnet, -⟩, -, h⟩ := h
        exact changebw_kept (hout (by simp)) (changebw_auth h) (fun _ => ⟨hnet, hcpu⟩) h
      exact Kept.of_refund hkept.1 hram hkept.2
    | undelegatebw source receiver net cpu =>
      have hkept : NotLess a s s' ∧ s'.refundOf a = s.refundOf a := by
        simp only [exec, undelegatebw, bind_ok, check_ok, exists_const] at h
        obtain ⟨-, -, -, h⟩ := h
        exact changebw_kept (hout (by simp)) (changebw_auth h)
          (fun ht => absurd ht Bool.false_ne_true) h
      exact Kept.of_refund hkept.1 hram hkept.2
    | refund owner =>
      simp only [exec, refund, bind_ok, pure_ok] at h
      obtain ⟨-, -, r, hr, -, -, s₁, h₁, rfl⟩ := h
      rw [require_ok] at hr
      have hpaid : Protected (stakeAccount = ·) s s₁ := (inlineTransfer_ordinary rfl h₁).toProtected
      have herased : Protected (stakeAccount = ·) s₁ (s₁.eraseRefund owner) :=
        Protected.refunds _ s₁ _ _
      have hstake : a ≠ stakeAccount := fun he => hsys (by rw [he]; decide)
      have hless := (hpaid.trans herased).holdings a (Ne.symm hstake)
      by_cases hao : a = owner
      · subst hao
        refine ⟨hless, hram, ?_⟩
        have hgone : (s₁.eraseRefund a).refundOf a = 0 :=
          Table.valueAt_none (AList.lookup_erase _ _)
        have hheld : s.refundOf a = r.netAmount + r.cpuAmount := Table.valueAt_some hr
        rw [hgone, hheld, add_zero]
        simp only [State.inlineTransfer, bind_ok, pure_ok] at h₁
        obtain ⟨t, ht, rfl⟩ := h₁
        have hbalance := (Token.transfer_spec ht).2.2 a s.core.code
        rw [if_pos rfl, if_pos rfl, if_neg hstake, sub_zero] at hbalance
        exact hbalance.ge
      · refine Kept.of_refund hless hram (refundOf_of_lookup ?_)
        rw [← inlineTransfer_staking h₁]
        exact AList.lookup_erase_ne hao
    | _ => exact hu.elim
  · have hout : a ∉ l.auth := by
      intro hm
      rw [ha hm] at hu
      exact hu trivial
    by_cases had : l.action.Administers
    · have htables := h.administered had
      refine Kept.of_refund (NotLess.of_tables htables) hram (refundOf_of_lookup ?_)
      simp only [State.heldTables, Prod.mk.injEq] at htables
      rw [htables.2.2.2]
    · have hord := h.ordinary hu had
      refine Kept.of_refund (hord.holdings a ?_) hram (refundOf_of_lookup (by rw [hord.refunds]))
      rintro (hm | hm)
      · exact hout hm
      · exact hsys hm

/-- Over every run an account keeps what it holds, whatever others do, as long as it signs nothing but
the collection of its refund. -/
theorem run_kept {t₀ t : BlockTimestamp} {s₀ : State} {tr : List (BlockTimestamp × Label)}
    {a : Name} (hsys : a ∉ systemAccounts) (ha : ∀ x ∈ tr, a ∈ x.2.auth → x.2.action = .refund a)
    (h : TimedRun step t₀ s₀ tr t s) : Kept a s₀ s :=
  h.invariant (fun _ _ s => Kept a s₀ s)
    (fun l => a ∈ l.auth → l.action = .refund a) (Kept.refl a s₀)
    (fun hi _ hl hs => hi.trans (hs.kept hsys hl)) ha

def pendingTrace : List (BlockTimestamp × Label) :=
  [(launchTime, ⟨[alice], .delegatebw alice alice ⟨50000, tlos⟩ ⟨70000, tlos⟩ false⟩),
    (launchTime, ⟨[alice], .undelegatebw alice alice ⟨20000, tlos⟩ ⟨0, tlos⟩⟩)]

/-- Bob gives her tokens and a stake, and she collects her refund. -/
def othersTrace : List (BlockTimestamp × Label) :=
  [(launchTime, ⟨[bob], .transfer bob alice ⟨100, tlos⟩ 0⟩),
    (launchTime, ⟨[bob], .delegatebw bob alice ⟨10, tlos⟩ ⟨0, tlos⟩ true⟩),
    (launchTime, ⟨[bob], .delegatebw bob bob ⟨10, tlos⟩ ⟨0, tlos⟩ false⟩),
    (days 3, ⟨[alice], .refund alice⟩)]

def othersEnd : State :=
  stateAfter (fun now (l : Label) => @exec launchFloats ⟨now, l.auth⟩ l.action) othersTrace
    (launched pendingTrace)

omit [FloatOps] in
theorem alice_kept : Kept alice (launched pendingTrace) othersEnd ∧
    othersEnd.coreBalance alice = (launched pendingTrace).coreBalance alice + (100 + 20000) := by
  let := launchFloats
  have hrun : TimedRun step launchTime (launched pendingTrace) othersTrace (days 3) othersEnd :=
    timedRun_stateAfter (by decide) (by decide +kernel)
  refine ⟨run_kept (by decide) ?_ hrun, by decide +kernel⟩
  simp [othersTrace, alice, bob]

end
end TelosSystem
