import TelosSystem.RexPurchase
import TelosSystem.TokenRuns

/-! What accounts hold, and what the chain enforces for them. Most of what the actions do is ordinary:
it takes nothing from an account that does not pay for it, it makes no account and touches no refund,
and it changes the limits of an account only along with what the account has staked or its RAM. -/
namespace TelosSystem
open Ledger

def State.fundOf (s : State) (a : Name) : ℤ := (s.rex.funds.lookup a).getD 0

def rexHeld (t : Table Name RexBalance) (a : Name) : ℤ :=
  ((t.lookup a).map RexBalance.rexBalance).getD 0

/-- The REX of an account that is not in its open order. -/
def State.keptRex (s : State) (a : Name) : ℤ :=
  rexHeld s.rex.balances a - openRequest a s.rex.orders

def delegatedTo (k : LoanKind) (t : Table (Name × Name) DelegatedBandwidth)
    (owner receiver : Name) : ℤ :=
  t.valueAt (fun _ d => pick k d.netWeight d.cpuWeight) (owner, receiver)

/-- An account holds no less than it did, of anything. -/
structure NotLess (a : Name) (s s' : State) : Prop where
  tokens : s.coreBalance a ≤ s'.coreBalance a
  fund : s.fundOf a ≤ s'.fundOf a
  rex : s.keptRex a ≤ s'.keptRex a
  staked : ∀ k r, delegatedTo k s.staking.delband a r ≤ delegatedTo k s'.staking.delband a r

namespace NotLess
variable {a : Name} {s s' s'' : State}

lemma refl (a : Name) (s : State) : NotLess a s s :=
  ⟨le_refl _, le_refl _, le_refl _, fun _ _ => le_refl _⟩

lemma trans (h : NotLess a s s') (h' : NotLess a s' s'') : NotLess a s s'' :=
  ⟨h.tokens.trans h'.tokens, h.fund.trans h'.fund, h.rex.trans h'.rex,
    fun k r => (h.staked k r).trans (h'.staked k r)⟩

end NotLess

/-- What the limits of an account depend on: which of them are managed by hand, the limits, and the
totals of the account. -/
structure AccountView where
  netManaged : Bool
  cpuManaged : Bool
  ramManaged : Bool
  limits : ResourceLimits
  net : ℤ
  cpu : ℤ
  ram : ℤ

def State.view (s : State) (a : Name) : AccountView where
  netManaged := managed s.voting a netManaged
  cpuManaged := managed s.voting a cpuManaged
  ramManaged := managed s.voting a ramManaged
  limits := s.resources.limits a
  net := totalWeight s.resources .net a
  cpu := totalWeight s.resources .cpu a
  ram := ramBytesOf s.resources a

namespace AccountView

/-- Other totals, and limits that follow them where they are not managed. -/
def restaked (v : AccountView) (net cpu ramLimit : ℤ) : AccountView := { v with
  net
  cpu
  limits :=
    if v.netManaged && v.cpuManaged then v.limits
    else ⟨ramLimit, if v.netManaged then v.limits.net else net,
      if v.cpuManaged then v.limits.cpu else cpu⟩ }

/-- The RAM limit when bandwidth is staked: at least what the account has bought. -/
def stakedRam (v : AccountView) : ℤ :=
  if v.ramManaged then v.limits.ramBytes else max (v.ram + ramGiftBytes) v.limits.ramBytes

/-- Other RAM bytes, and a limit that follows them where it is not managed. -/
def traded (v : AccountView) (ram : ℤ) : AccountView := { v with
  ram
  limits := if v.ramManaged then v.limits else { v.limits with ramBytes := ram + ramGiftBytes } }

end AccountView

/-- What REX, staking and trades of RAM do to the view of an account. -/
inductive ViewMove (v : AccountView) : AccountView → Prop
  | rent (net cpu : ℤ) : ViewMove v (v.restaked net cpu v.limits.ramBytes)
  | stake (net cpu : ℤ) : ViewMove v (v.restaked net cpu v.stakedRam)
  | trade (ram : ℤ) (nonneg : 0 ≤ v.ram → 0 ≤ ram) : ViewMove v (v.traded ram)

def ViewMoves : AccountView → AccountView → Prop := Relation.ReflTransGen ViewMove

lemma ViewMoves.of_eq {v v' : AccountView} (h : v' = v) : ViewMoves v v' :=
  h ▸ Relation.ReflTransGen.refl

/-- Accounts that do not pay lose nothing, and limits change only by these moves. -/
structure Protected (pays : Name → Prop) (s s' : State) : Prop where
  core : s'.core = s.core
  isAccount : s'.isAccount = s.isAccount
  holdings : ∀ a, ¬ pays a → NotLess a s s'
  views : ∀ a, ViewMoves (s.view a) (s'.view a)

structure Ordinary (pays : Name → Prop) (s s' : State) : Prop extends Protected pays s s' where
  refunds : s'.staking.refunds = s.staking.refunds
  deferred : s'.staking.deferred = s.staking.deferred

def Voting.FlagsKept (v v' : Voting) : Prop := ∀ a field, managed v' a field = managed v a field

namespace Voting.FlagsKept
variable {v v' v'' : Voting}

lemma trans (h : FlagsKept v v') (h' : FlagsKept v' v'') : FlagsKept v v'' :=
  fun a field => (h' a field).trans (h a field)

lemma of_voters (h : v'.voters = v.voters) : FlagsKept v v' := by
  intro a field
  rw [managed, managed, h]

end Voting.FlagsKept

lemma managed_eq (v : Voting) (a : Name) (field : UInt32) :
    managed v a field = ((v.voters.lookup a).map fun row => hasField row.flags1 field).getD
      false := by
  unfold managed
  cases v.voters.lookup a <;> rfl

lemma Voting.Counted.flags {v v' : Voting} (h : v.Counted v') : v.FlagsKept v' := by
  intro a field
  have hrow := congrArg (fun o => (o.map fun row => hasField row.2.1 field).getD false) (h.voters a)
  simp only [Option.map_map] at hrow
  rw [managed_eq, managed_eq]
  exact hrow

/-- A row rewritten with the flags it had, or a new row without flags. -/
lemma setVoter_flags {v : Voting} {voter : Name} {row : VoterInfo}
    (h : row.flags1 = ((v.voters.lookup voter).map VoterInfo.flags1).getD 0) :
    v.FlagsKept (v.setVoter voter row) := by
  intro a field
  rw [managed_eq, managed_eq]
  unfold Voting.setVoter
  rw [Table.lookup_insert']
  split_ifs with ha
  · subst ha
    cases hl : v.voters.lookup a with
    | none =>
      rw [hl] at h
      simp only [Option.map_some, Option.getD_some, Option.map_none, Option.getD_none] at h ⊢
      rw [h]
      exact bne_eq_false_iff_eq.mpr (UInt32.zero_and)
    | some old =>
      rw [hl] at h
      simp only [Option.map_some, Option.getD_some] at h ⊢
      rw [h]
  · rfl

lemma updateVotingPower_flags [FloatOps] {now : BlockTimestamp} {voter : Name} {delta : ℤ}
    {v v' : Voting} (h : v.updateVotingPower now voter delta = .ok v') : v.FlagsKept v' := by
  simp only [Voting.updateVotingPower, bind_ok, check_ok, exists_const] at h
  obtain ⟨-, h⟩ := h
  split_ifs at h
  · refine Voting.FlagsKept.trans (setVoter_flags ?_) (Voting.updateVotes_counted h).flags
    cases v.voters.lookup voter <;> rfl
  · cases h
    apply setVoter_flags
    cases v.voters.lookup voter <;> rfl

namespace Protected
variable {pays : Name → Prop} {s s' s'' : State}

lemma trans (h : Protected pays s s') (h' : Protected pays s' s'') : Protected pays s s'' where
  core := h'.core.trans h.core
  isAccount := h'.isAccount.trans h.isAccount
  holdings a ha := (h.holdings a ha).trans (h'.holdings a ha)
  views a := Relation.ReflTransGen.trans (h.views a) (h'.views a)

end Protected

namespace Ordinary
variable {pays : Name → Prop} {s s' s'' : State}

lemma trans (h : Ordinary pays s s') (h' : Ordinary pays s' s'') : Ordinary pays s s'' where
  toProtected := h.toProtected.trans h'.toProtected
  refunds := h'.refunds.trans h.refunds
  deferred := h'.deferred.trans h.deferred

lemma refl (pays : Name → Prop) (s : State) : Ordinary pays s s :=
  ⟨⟨rfl, rfl, fun a _ => NotLess.refl a s, fun _ => .refl⟩, rfl, rfl⟩

end Ordinary

/-- What the fields of an ordinary change are about. -/
def State.parts (s : State) :=
  (s.core, s.isAccount, s.token, s.staking, s.rex.funds, s.rex.balances, s.rex.orders,
    s.resources, s.voting.voters)

namespace Ordinary
variable {pays : Name → Prop} {s s' : State}

/-- A change of other data. -/
lemma idle (h : s'.parts = s.parts) : Ordinary pays s s' := by
  simp only [State.parts, Prod.mk.injEq] at h
  obtain ⟨hcore, hacc, htoken, hstaking, hfunds, hbalances, horders, hresources, hvoters⟩ := h
  have hview : ∀ a, s'.view a = s.view a := by
    intro a
    have hflags := Voting.FlagsKept.of_voters hvoters
    rw [State.view, State.view, hresources, hflags, hflags, hflags]
  refine ⟨⟨hcore, hacc, fun a _ => ⟨?_, ?_, ?_, fun k r => ?_⟩,
    fun a => ?_⟩, by rw [hstaking], by rw [hstaking]⟩
  · rw [State.coreBalance, State.coreBalance, htoken, hcore]
  · rw [State.fundOf, State.fundOf, hfunds]
  · rw [State.keptRex, State.keptRex, hbalances, horders]
  · rw [hstaking]
  · exact .of_eq (hview a)

/-- Other data has changed before. -/
lemma after {s₀ : State} (h : Ordinary pays s s') (hp : s.parts = s₀.parts) : Ordinary pays s₀ s' :=
  (idle hp).trans h

lemma voting {v : Voting} (h : s.voting.FlagsKept v) : Ordinary pays s { s with voting := v } where
  core := rfl
  isAccount := rfl
  refunds := rfl
  deferred := rfl
  holdings _ _ := ⟨le_refl _, le_refl _, le_refl _, fun _ _ => le_refl _⟩
  views a := by
    apply ViewMoves.of_eq
    unfold State.view
    dsimp only
    rw [h, h, h]

lemma token {t : Token}
    (h : ∀ a, ¬ pays a → s.token.balance a s.core.code ≤ t.balance a s.core.code) :
    Ordinary pays s { s with token := t } where
  core := rfl
  isAccount := rfl
  refunds := rfl
  deferred := rfl
  holdings a ha := ⟨h a ha, le_refl _, le_refl _, fun _ _ => le_refl _⟩
  views _ := .refl

lemma rex {r : Rex} (hfund : ∀ a, ¬ pays a → s.fundOf a ≤ (r.funds.lookup a).getD 0)
    (hrex : ∀ a, ¬ pays a → s.keptRex a ≤ rexHeld r.balances a - openRequest a r.orders) :
    Ordinary pays s { s with rex := r } where
  core := rfl
  isAccount := rfl
  refunds := rfl
  deferred := rfl
  holdings a ha := ⟨le_refl _, hfund a ha, hrex a ha, fun _ _ => le_refl _⟩
  views _ := .refl

lemma delband {t : Table (Name × Name) DelegatedBandwidth}
    (h : ∀ a, ¬ pays a → ∀ k r, delegatedTo k s.staking.delband a r ≤ delegatedTo k t a r) :
    Ordinary pays s { s with staking := { s.staking with delband := t } } where
  core := rfl
  isAccount := rfl
  refunds := rfl
  deferred := rfl
  holdings a ha := ⟨le_refl _, le_refl _, le_refl _, h a ha⟩
  views _ := .refl

lemma resources {r : Resources}
    (h : ∀ a, ViewMoves (s.view a) (({ s with resources := r } : State).view a)) :
    Ordinary pays s { s with resources := r } where
  core := rfl
  isAccount := rfl
  refunds := rfl
  deferred := rfl
  holdings _ _ := ⟨le_refl _, le_refl _, le_refl _, fun _ _ => le_refl _⟩
  views := h

end Ordinary


section
variable {pays : Name → Prop} {s s' : State}

lemma transfer_ordinary {isAccount : Name → Bool} {auth : List Name} {source dest : Name}
    {quantity : Asset} {memoSize : ℕ} {t : Token} (hp : pays source)
    (h : s.token.transfer isAccount auth source dest quantity memoSize = .ok t) :
    Ordinary pays s { s with token := t } := by
  obtain ⟨-, hpos, hb⟩ := Token.transfer_spec h
  refine Ordinary.token fun a ha => ?_
  have hne : a ≠ source := fun he => ha (he ▸ hp)
  rw [hb, if_neg hne]
  split_ifs <;> omega

lemma inlineTransfer_ordinary {source dest : Name} {quantity : Asset} {memoSize : ℕ}
    (hp : pays source) (h : s.inlineTransfer source dest quantity memoSize = .ok s') :
    Ordinary pays s s' := by
  simp only [State.inlineTransfer, bind_ok, pure_ok] at h
  obtain ⟨t, ht, rfl⟩ := h
  exact transfer_ordinary hp ht

lemma setFund_ordinary {owner : Name} {balance : ℤ} (h : ¬ pays owner → s.fundOf owner ≤ balance) :
    Ordinary pays s (s.setFund owner balance) := by
  refine Ordinary.rex (fun a ha => ?_) fun a _ => le_refl _
  rw [Table.lookup_insert']
  split_ifs with hao
  · subst hao
    exact h ha
  · exact le_refl _

lemma transferToFund_ordinary {owner : Name} {amount : Asset}
    (h : transferToFund owner amount s = .ok s') : Ordinary pays s s' := by
  simp only [transferToFund, bind_ok, check_ok, exists_const] at h
  obtain ⟨⟨hpos, -⟩, h⟩ := h
  cases hl : s.rex.funds.lookup owner with
  | none =>
    simp only [hl, pure_ok] at h
    subst h
    refine setFund_ordinary fun _ => ?_
    rw [State.fundOf, hl]
    exact hpos.le
  | some b =>
    simp only [hl, pure_ok] at h
    subst h
    refine setFund_ordinary fun _ => ?_
    rw [State.fundOf, hl]
    dsimp only [Option.getD_some]
    omega

lemma transferFromFund_ordinary {owner : Name} {amount : Asset} (hp : pays owner)
    (h : transferFromFund owner amount s = .ok s') : Ordinary pays s s' := by
  simp only [transferFromFund, bind_ok, check_ok, exists_const, require_ok, pure_ok] at h
  obtain ⟨-, b, -, -, rfl⟩ := h
  exact setFund_ordinary fun hn => absurd hp hn

lemma creditFund_ordinary {owner : Name} {amount : ℤ} (h : creditFund owner amount s = .ok s') :
    Ordinary pays s s' := by
  unfold creditFund at h
  split_ifs at h
  · exact transferToFund_ordinary h
  · cases h
    exact Ordinary.refl pays s

lemma channelToRex_ordinary {now : BlockTimestamp} {source : Name} {amount : Asset}
    {required : Bool} (hp : pays source) (h : channelToRex now source amount required s = .ok s') :
    Ordinary pays s s' := by
  unfold channelToRex at h
  split_ifs at h
  · simp only [bind_ok] at h
    obtain ⟨r, -, h⟩ := h
    have hpools : Ordinary pays s { s with pools := r } := Ordinary.idle rfl
    exact hpools.trans (inlineTransfer_ordinary hp h)
  · simp only [bind_ok, check_ok, exists_const, pure_ok] at h
    obtain ⟨-, rfl⟩ := h
    exact Ordinary.refl pays s

lemma limitsFor_limits {account : Name} {tot : UserResources} {ramLimit : ℤ → ℤ}
    (h : limitsFor account tot ramLimit s = .ok s') (a : Name) : s'.resources.limits a =
      if a = account then
        ((s.view a).restaked tot.netWeight tot.cpuWeight
          (ramLimit (s.resources.limits a).ramBytes)).limits
      else s.resources.limits a := by
  unfold AccountView.restaked State.view
  unfold limitsFor at h
  dsimp only at h ⊢
  by_cases hboth : (managed s.voting account netManaged && managed s.voting account cpuManaged) =
    true
  · rw [if_pos hboth] at h
    cases h
    by_cases ha : a = account
    · subst ha
      rw [if_pos rfl, if_pos hboth]
    · rw [if_neg ha]
  · rw [if_neg hboth] at h
    simp only [getResourceLimits, bind_ok, check_ok, exists_const, pure_ok] at h
    obtain ⟨old, ⟨-, rfl⟩, rfl⟩ := h
    by_cases ha : a = account
    · subst ha
      rw [if_pos rfl, if_neg hboth]
      simp [State.setLimits]
    · rw [if_neg ha]
      exact Function.update_of_ne ha _ _

/-- The totals of an account are replaced, and its limits follow. -/
lemma storeTotals_view {account : Name} {tot : UserResources} {ramLimit : ℤ → ℤ} {m : State}
    (hram : tot.ramBytes = ramBytesOf s.resources account)
    (h : limitsFor account tot ramLimit s = .ok m) (a : Name) :
    (m.storeTotals account tot).view a =
      if a = account then (s.view a).restaked tot.netWeight tot.cpuWeight
        (ramLimit (s.resources.limits a).ramBytes)
      else s.view a := by
  have hlimits := limitsFor_limits h a
  obtain ⟨-, limits, rfl⟩ := limitsFor_ok h
  have hkept := (ramKept_store { s with resources := { s.resources with limits } } hram).bytes a
  unfold State.view AccountView.restaked
  rw [totalWeight_store, totalWeight_store, hkept]
  by_cases ha : a = account
  · subst ha
    rw [if_pos rfl] at hlimits
    simp only [if_true]
    exact congrArg (AccountView.mk _ _ _ · _ _ _) hlimits
  · rw [if_neg ha] at hlimits
    simp only [if_neg ha]
    exact congrArg (AccountView.mk _ _ _ · _ _ _) hlimits

lemma updateResourceLimits_ordinary {receiver : Name} {deltaNet deltaCpu : ℤ}
    (h : updateResourceLimits receiver deltaNet deltaCpu s = .ok s') : Ordinary pays s s' := by
  obtain ⟨resources, hs⟩ := (updateResourceLimits_moved h).only
  unfold updateResourceLimits at h
  by_cases h0 : deltaCpu = 0 ∧ deltaNet = 0
  · rw [if_pos h0] at h
    cases h
    exact Ordinary.refl pays s
  · rw [if_neg h0] at h
    simp only [bind_ok, check_ok, exists_const, pure_ok] at h
    obtain ⟨-, -, -, m, hm, h⟩ := h
    subst hs
    refine Ordinary.resources fun a => ?_
    rw [← h, storeTotals_view (movedTotals_ram s receiver deltaNet deltaCpu) hm]
    by_cases ha : a = receiver
    · subst ha
      rw [if_pos rfl]
      exact .single (ViewMove.rent _ _)
    · rw [if_neg ha]
      exact .refl

lemma adjustResources_ordinary {account : Name} {netDelta cpuDelta : ℤ} {b : Bool}
    (h : adjustResources account netDelta cpuDelta b s = .ok s') : Ordinary pays s s' := by
  obtain ⟨resources, hs⟩ := (adjustResources_moved h).only
  unfold adjustResources at h
  by_cases h0 : netDelta = 0 ∧ cpuDelta = 0
  · rw [if_pos h0] at h
    cases h
    exact Ordinary.refl pays s
  · rw [if_neg h0] at h
    simp only [bind_ok, check_ok, exists_const, pure_ok] at h
    obtain ⟨-, -, -, m, hm, h⟩ := h
    subst hs
    refine Ordinary.resources fun a => ?_
    rw [← h, storeTotals_view (movedTotals_ram s account netDelta cpuDelta) hm]
    by_cases ha : a = account
    · subst ha
      rw [if_pos rfl, movedTotals_ram]
      exact .single (ViewMove.stake _ _)
    · rw [if_neg ha]
      exact .refl

lemma setRamLimit_limits {account : Name} {bytes : ℤ} (h : s.setRamLimit account bytes = .ok s')
    (a : Name) :
    s'.resources.limits a =
      if a = account then ((s.view a).traded bytes).limits else s.resources.limits a := by
  unfold AccountView.traded State.view
  unfold State.setRamLimit at h
  dsimp only
  by_cases hm : managed s.voting account ramManaged = true
  · rw [if_pos hm] at h
    cases h
    by_cases ha : a = account
    · subst ha
      rw [if_pos rfl, if_pos hm]
    · rw [if_neg ha]
  · rw [if_neg hm] at h
    simp only [getResourceLimits, bind_ok, check_ok, exists_const, pure_ok] at h
    obtain ⟨old, ⟨-, rfl⟩, rfl⟩ := h
    by_cases ha : a = account
    · subst ha
      rw [if_pos rfl, if_neg hm]
      simp [State.setLimits]
    · rw [if_neg ha]
      exact Function.update_of_ne ha _ _

/-- The row of an account with other RAM bytes, and the limit that goes with it. -/
lemma setUserRam_ordinary {account : Name} {tot : UserResources}
    (hn : tot.netWeight = totalWeight s.resources .net account)
    (hc : tot.cpuWeight = totalWeight s.resources .cpu account)
    (hr : 0 ≤ ramBytesOf s.resources account → 0 ≤ tot.ramBytes)
    (h : (s.setUserRam account tot).setRamLimit account tot.ramBytes = .ok s') :
    Ordinary pays s s' := by
  obtain ⟨-, limits, rfl⟩ := setRamLimit_ok h
  have hweights := setUserRam_weights s hn hc limits
  have hlimits : ∀ a, limits a = if a = account then ((s.view a).traded tot.ramBytes).limits
      else s.resources.limits a := setRamLimit_limits h
  refine Ordinary.resources (r := { (s.setUserRam account tot).resources with limits }) fun a => ?_
  by_cases ha : a = account
  · subst ha
    have hview : ({ s with resources := { (s.setUserRam a tot).resources with limits } } :
      State).view a =
        (s.view a).traded tot.ramBytes := by
      unfold State.view AccountView.traded
      rw [hweights, hweights]
      have hram : ramBytesOf { (s.setUserRam a tot).resources with limits } a = tot.ramBytes := by
        simp [ramBytesOf, State.setUserRam, Table.valueAt]
      rw [hram]
      have hla := hlimits a
      rw [if_pos rfl] at hla
      exact congrArg (AccountView.mk _ _ _ · _ _ _) hla
    rw [hview]
    exact .single (ViewMove.trade _ hr)
  · have hview : ({ s with resources := { (s.setUserRam account tot).resources with limits } } :
      State).view a =
        s.view a := by
      unfold State.view
      rw [hweights, hweights]
      have hram : ramBytesOf { (s.setUserRam account tot).resources with limits } a =
        ramBytesOf s.resources a := by
        simp [ramBytesOf, State.setUserRam, Table.valueAt, AList.lookup_insert_ne ha]
      rw [hram]
      have hla := hlimits a
      rw [if_neg ha] at hla
      exact congrArg (AccountView.mk _ _ _ · _ _ _) hla
    exact .of_eq hview

end
end TelosSystem
