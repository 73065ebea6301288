import TelosSystem.Holdings
import TelosSystem.StakeCustody
import TelosSystem.VoteLedger

/-! The actions of the system contract take nothing from an account that has not signed them and is not
one of the accounts of the system itself. -/
namespace TelosSystem
open Ledger

section
variable {pays : Name → Prop} {now : BlockTimestamp} {s s' : State}

lemma setBalance_ordinary {owner : Name} {rb : RexBalance}
    (h : ¬ pays owner → rexHeld s.rex.balances owner ≤ rb.rexBalance) :
    Ordinary pays s (s.setBalance owner rb) := by
  refine Ordinary.rex (fun _ _ => le_refl _) fun a ha => ?_
  unfold State.keptRex rexHeld
  rw [Table.lookup_insert']
  split_ifs with hao
  · subst hao
    exact sub_le_sub_right (h ha) _
  · exact le_refl _

lemma openRequest_of_lookup {a : Name} {t t' : Table Name RexOrder} (h : t'.lookup a = t.lookup a) :
    openRequest a t' = openRequest a t := by
  rw [openRequest, openRequest, h]

lemma setOrder_ordinary {owner : Name} {o : RexOrder} (hp : pays owner) :
    Ordinary pays s (s.setOrder owner o) := by
  refine Ordinary.rex (fun _ _ => le_refl _) fun a ha => ?_
  have hne : a ≠ owner := fun he => ha (he ▸ hp)
  rw [State.keptRex, openRequest_of_lookup (AList.lookup_insert_ne hne)]

lemma eraseOrder_ordinary {owner : Name} (hp : pays owner) :
    Ordinary pays s (s.eraseOrder owner) := by
  refine Ordinary.rex (fun _ _ => le_refl _) fun a ha => ?_
  have hne : a ≠ owner := fun he => ha (he ▸ hp)
  rw [State.keptRex, openRequest_of_lookup (AList.lookup_erase_ne hne)]

lemma openRequest_collected (owner a : Name) (t : Table Name RexOrder) :
    openRequest a (collectOrder owner t) = openRequest a t := by
  by_cases ha : a = owner
  · subst ha
    exact openRequest_collectOrder a t
  · apply openRequest_of_lookup
    unfold collectOrder
    split
    · split_ifs
      · rfl
      · exact AList.lookup_erase_ne ha
    · rfl

lemma updateVoteStake_ordinary [FloatOps] {owner : Name} {toStake : ℤ} {force : Bool}
    (h : updateVoteStake now owner toStake force s = .ok s') : Ordinary pays s s' := by
  unfold updateVoteStake at h
  split_ifs at h
  · simp only [bind_ok, pure_ok] at h
    obtain ⟨v, hv, rfl⟩ := h
    exact Ordinary.voting (updateVotingPower_flags hv)
  · cases h
    exact Ordinary.refl pays s

lemma updateRexAccount_ordinary [FloatOps] {owner : Name} {proceeds delta q : ℤ} {force : Bool}
    (h : updateRexAccount now owner proceeds delta force s = .ok (q, s')) : Ordinary pays s s' := by
  obtain ⟨change, ht⟩ := takeOrder_eq owner s
  unfold updateRexAccount at h
  rw [ht] at h
  simp only [bind_ok, pure_ok, Prod.mk.injEq] at h
  obtain ⟨s₁, h₁, s₂, h₂, -, rfl⟩ := h
  have hcollect : Ordinary pays s
    { s with rex := { s.rex with orders := collectOrder owner s.rex.orders } } := by
    refine Ordinary.rex (fun _ _ => le_refl _) fun a _ => ?_
    rw [State.keptRex, openRequest_collected]
  exact hcollect.trans ((creditFund_ordinary h₁).trans (updateVoteStake_ordinary h₂))

lemma updateLoanLimits_ordinary {k : LoanKind} {receiver : Name} {delta : ℤ}
    (h : updateLoanLimits k receiver delta s = .ok s') : Ordinary pays s s' := by
  unfold updateLoanLimits at h
  cases k with
  | net => exact updateResourceLimits_ordinary h
  | cpu => exact updateResourceLimits_ordinary h

lemma processExpiredLoan_ordinary {k : LoanKind} {num : ℕ} {loan : RexLoan}
    (h : processExpiredLoan now k num loan s = .ok s') : Ordinary pays s s' := by
  simp only [processExpiredLoan, bind_ok, require_ok] at h
  obtain ⟨p, -, h⟩ := h
  have hpool : ∀ q, Ordinary pays s (s.setPool q) := fun q => Ordinary.idle rfl
  split_ifs at h
  · simp only [bind_ok] at h
    obtain ⟨r, -, h⟩ := h
    have hlimits : Ordinary pays _ s' := updateLoanLimits_ordinary h
    exact hlimits.after rfl
  · simp only [bind_ok, pure_ok] at h
    obtain ⟨s1, h1, s2, h2, rfl⟩ := h
    have herase : Ordinary pays s2 (s2.eraseLoan k num) := Ordinary.idle rfl
    exact (hpool _).trans ((creditFund_ordinary h1).trans
      ((updateLoanLimits_ordinary h2).trans herase))

lemma processLoans_ordinary {k : LoanKind} {max : ℕ} (h : processLoans now k max s = .ok s') :
    Ordinary pays s s' := by
  induction max generalizing s with
  | zero =>
    rw [processLoans] at h
    cases h
    exact Ordinary.refl pays _
  | succ n ih =>
    rw [processLoans] at h
    split at h
    · cases h
      exact Ordinary.refl pays _
    · split_ifs at h
      · cases h
        exact Ordinary.refl pays _
      · simp only [bind_ok] at h
        obtain ⟨s1, h1, h2⟩ := h
        exact (processExpiredLoan_ordinary h1).trans (ih h2)

/-- A filled order gives up the REX that was offered, and no more. -/
lemma processOrder_ordinary {entry : Name × RexOrder}
    (ho : s.rex.orders.lookup entry.1 = some entry.2) (hopen : entry.2.isOpen = true)
    (h : processOrder s entry = .ok s') :
    Ordinary pays s s' ∧ ∀ a, a ≠ entry.1 → s'.rex.orders.lookup a = s.rex.orders.lookup a := by
  unfold processOrder at h
  cases hb : s.rex.balances.lookup entry.1 with
  | none =>
    rw [hb] at h
    cases h
    exact ⟨Ordinary.refl pays s, fun _ _ => rfl⟩
  | some rb =>
    rw [hb] at h
    simp only [fillRexOrder, bind_ok, require_ok, check_ok, exists_const] at h
    obtain ⟨⟨outcome, s1⟩, ⟨p, -, -, h1⟩, h2⟩ := h
    split_ifs at h1
    · rw [pure_ok] at h1
      cases h1
      simp only [if_true, pure_ok] at h2
      subst h2
      have hpool : Ordinary pays s
        (s.setPool (p.sell entry.2.rexRequested (p.valueOf entry.2.rexRequested))) :=
        Ordinary.idle rfl
      refine ⟨hpool.trans (Ordinary.rex (fun _ _ => le_refl _) fun a _ => ?_),
        fun a ha => AList.lookup_insert_ne ha⟩
      by_cases ha : a = entry.1
      · subst ha
        simp [State.keptRex, rexHeld, openRequest, State.setPool, State.setBalance,
          State.recordSale, hb, ho, hopen]
      · rw [openRequest_of_lookup (AList.lookup_insert_ne ha)]
        simp [State.keptRex, rexHeld, State.setPool, State.setBalance, State.recordSale,
          AList.lookup_insert_ne ha]
    · rw [pure_ok] at h1
      cases h1
      simp only [Bool.false_eq_true, if_false, pure_ok] at h2
      subst h2
      exact ⟨Ordinary.refl pays s, fun _ _ => rfl⟩

lemma foldlM_processOrder_ordinary {l : List (Name × RexOrder)} (hnd : (l.map Prod.fst).Nodup)
    (ho : ∀ e ∈ l, s.rex.orders.lookup e.1 = some e.2 ∧ e.2.isOpen = true)
    (h : l.foldlM processOrder s = .ok s') : Ordinary pays s s' := by
  induction l generalizing s with
  | nil =>
    rw [List.foldlM_nil, pure_ok] at h
    subst h
    exact Ordinary.refl pays s
  | cons e l ih =>
    rw [List.foldlM_cons, bind_ok] at h
    obtain ⟨s1, h1, h2⟩ := h
    rw [List.map_cons, List.nodup_cons] at hnd
    obtain ⟨he, hopen⟩ := ho e List.mem_cons_self
    obtain ⟨hfill, hsame⟩ := @processOrder_ordinary pays _ _ e he hopen h1
    refine hfill.trans (ih hnd.2 (fun f hf => ?_) h2)
    have hne : f.1 ≠ e.1 := fun heq => hnd.1 (heq ▸ List.mem_map_of_mem hf)
    rw [hsame f.1 hne]
    exact ho f (List.mem_cons_of_mem _ hf)

lemma processOrders_ordinary {max : ℕ} (h : processOrders max s = .ok s') : Ordinary pays s s' := by
  obtain ⟨hnd, hopen⟩ := visited_open max s
  exact foldlM_processOrder_ordinary hnd hopen h

lemma channelNamebids_ordinary (hp : pays namesAccount) (h : channelNamebids now s = .ok s') :
    Ordinary pays s s' := by
  simp only [channelNamebids, bind_ok, require_ok] at h
  obtain ⟨p, -, h⟩ := h
  split_ifs at h
  · simp only [bind_ok, require_ok, pure_ok] at h
    obtain ⟨s1, h1, q, -, rfl⟩ := h
    have hpool : Ordinary pays s1 (s1.setPool { q with namebidProceeds := 0 }) := Ordinary.idle rfl
    exact (channelToRex_ordinary hp h1).trans hpool
  · rw [pure_ok] at h
    subst h
    exact Ordinary.idle rfl

lemma runrex_ordinary {max : ℕ} (hp : pays namesAccount) (h : runrex now max s = .ok s') :
    Ordinary pays s s' := by
  simp only [runrex, bind_ok, check_ok, exists_const] at h
  obtain ⟨-, r, -, s₁, h₁, s₂, h₂, s₃, h₃, h₄⟩ := h
  have hpools : Ordinary pays s { s with pools := r } := Ordinary.idle rfl
  exact hpools.trans ((channelNamebids_ordinary hp h₁).trans ((processLoans_ordinary h₂).trans
    ((processLoans_ordinary h₃).trans (processOrders_ordinary h₄))))

lemma purchase_ordinary {owner : Name} {payment delta : ℤ} (hp : pays owner)
    (h : purchase now owner payment s = .ok (delta, s')) : Ordinary pays s s' := by
  obtain ⟨received, p', stake, -, rfl⟩ := purchase_ok h
  have hpool : Ordinary pays s { s with pools := { s.pools with rexpool := some p' } } :=
    Ordinary.idle rfl
  refine hpool.trans (Ordinary.rex (fun _ _ => le_refl _) fun a ha => ?_)
  have hne : a ≠ owner := fun he => ha (he ▸ hp)
  simp [State.keptRex, rexHeld, AList.lookup_insert_ne hne]

lemma updateRexStake_ordinary (voter : Name) (s : State) :
    Ordinary pays s (updateRexStake voter s) := by
  unfold updateRexStake
  split
  · rename_i rb p hb hp
    split_ifs
    · have hrow : ∀ stake, Ordinary pays s (s.setBalance voter { rb with voteStake := stake }) := by
        intro stake
        refine setBalance_ordinary fun _ => ?_
        rw [rexHeld, hb]
        exact le_refl _
      dsimp only
      split
      · rename_i row hl
        split_ifs
        · refine (hrow _).trans (Ordinary.voting (setVoter_flags ?_))
          rw [show (s.setBalance voter _).voting.voters.lookup voter = some row from hl]
          rfl
        · exact hrow _
      · exact hrow _
    · exact Ordinary.refl pays s
  · exact Ordinary.refl pays s

lemma fillRexOrder_ordinary {owner : Name} {rb : RexBalance} {rex : ℤ} {outcome : RexOrderOutcome}
    (hp : pays owner) (h : fillRexOrder owner rb rex s = .ok (outcome, s')) :
    Ordinary pays s s' := by
  simp only [fillRexOrder, bind_ok, require_ok, check_ok, exists_const] at h
  obtain ⟨p, -, -, h⟩ := h
  split_ifs at h
  · rw [pure_ok, Prod.mk.injEq] at h
    obtain ⟨-, rfl⟩ := h
    have hpool : Ordinary pays s (s.setPool (p.sell rex (p.valueOf rex))) := Ordinary.idle rfl
    have hrow : ∀ row, Ordinary pays (s.setPool (p.sell rex (p.valueOf rex)))
        ((s.setPool (p.sell rex (p.valueOf rex))).setBalance owner row) :=
      fun row => setBalance_ordinary fun hn => absurd hp hn
    exact hpool.trans ((hrow _).trans (Ordinary.idle rfl))
  · rw [pure_ok, Prod.mk.injEq] at h
    obtain ⟨-, rfl⟩ := h
    exact Ordinary.refl pays s

lemma queueOrder_ordinary {owner : Name} {rex q q' : ℤ} {success : Bool} (hp : pays owner)
    (h : queueOrder now owner rex success q s = .ok (q', s')) : Ordinary pays s s' := by
  unfold queueOrder at h
  split_ifs at h
  · cases h
    exact Ordinary.refl pays s
  · simp only [bind_ok, check_ok, exists_const, pure_ok, Prod.mk.injEq] at h
    obtain ⟨-, -, rfl⟩ := h
    exact setOrder_ordinary hp

lemma sellMatured_ordinary [FloatOps] {owner : Name} {rex : ℤ} {rb : RexBalance} (hp : pays owner)
    (h : sellMatured now owner rex rb s = .ok s') : Ordinary pays s s' := by
  simp only [sellMatured, bind_ok, check_ok, exists_const, require_ok, pure_ok] at h
  obtain ⟨-, ⟨order, s1⟩, h1, -, ⟨pending, s2⟩, h2, ⟨pending', s3⟩, h3, row, -, -, rfl⟩ := h
  have hrow : Ordinary pays s (s.setBalance owner (rb.processRexMaturities now)) :=
    setBalance_ordinary fun hn => absurd hp hn
  exact hrow.trans ((fillRexOrder_ordinary hp h1).trans ((updateRexAccount_ordinary h2).trans
    (queueOrder_ordinary hp h3)))

lemma openLoan_ordinary {k : LoanKind} {owner receiver : Name} {payment fund : ℤ} (hp : pays owner)
    (h : openLoan now k owner receiver payment fund s = .ok s') : Ordinary pays s s' := by
  simp only [openLoan, bind_ok, check_ok, exists_const, require_ok] at h
  obtain ⟨s1, h1, p, -, -, r, -, p', -, -, h2⟩ := h
  have hlimits : Ordinary pays _ s' := updateLoanLimits_ordinary h2
  exact (transferFromFund_ordinary hp h1).trans (hlimits.after rfl)

lemma closeFund_ordinary (owner : Name) (s : State) : Ordinary pays s (closeFund owner s) := by
  unfold closeFund
  split_ifs with h
  · refine Ordinary.rex (fun a _ => ?_) fun _ _ => le_refl _
    rw [Table.lookup_erase']
    split_ifs with ha
    · subst ha
      rw [State.fundOf, h.1]
      exact le_refl _
    · exact le_refl _
  · exact Ordinary.refl pays s

lemma closeBalance_ordinary {owner : Name} (h : closeBalance owner s = .ok s') :
    Ordinary pays s s' := by
  unfold closeBalance at h
  split at h
  · cases h
    exact Ordinary.refl pays s
  · rename_i rb hb
    simp only [bind_ok, check_ok, exists_const, pure_ok] at h
    obtain ⟨hz, rfl⟩ := h
    refine Ordinary.rex (fun _ _ => le_refl _) fun a _ => ?_
    unfold State.keptRex rexHeld
    rw [Table.lookup_erase']
    split_ifs with ha
    · subst ha
      rw [hb, Option.map_some, Option.getD_some, hz]
      exact le_refl _
    · exact le_refl _

end

section
variable {pays : Name → Prop} {now : BlockTimestamp} {s s' : State}

lemma storeDelband_delegated (key : Name × Name) (d : DelegatedBandwidth) (s : State) (k : LoanKind)
    (a r : Name) :
    delegatedTo k (s.storeDelband key d).staking.delband a r =
      if (a, r) = key then pick k d.netWeight d.cpuWeight
      else delegatedTo k s.staking.delband a r := by
  unfold delegatedTo State.storeDelband Table.valueAt
  dsimp only
  split_ifs with he hk hk
  · subst hk
    rw [DelegatedBandwidth.isEmpty_iff] at he
    rw [AList.lookup_erase]
    cases k <;> simp [pick, he]
  · rw [AList.lookup_erase_ne hk]
  · subst hk
    rw [AList.lookup_insert]
    rfl
  · rw [AList.lookup_insert_ne hk]

lemma storeDelband_ordinary {owner receiver : Name} {d : DelegatedBandwidth}
    (h : ¬ pays owner → ∀ k, delegatedTo k s.staking.delband owner receiver ≤
      pick k d.netWeight d.cpuWeight) :
    Ordinary pays s (s.storeDelband (owner, receiver) d) := by
  refine Ordinary.delband (t := (s.storeDelband (owner, receiver) d).staking.delband)
    fun a ha k r => ?_
  rw [storeDelband_delegated]
  split_ifs with he
  · cases he
    exact h ha k
  · exact le_refl _

lemma changeDelband_ordinary {owner receiver : Name} {net cpu : ℤ}
    (hn : ¬ pays owner → 0 ≤ net ∧ 0 ≤ cpu) (h : changeDelband owner receiver net cpu s = .ok s') :
    Ordinary pays s s' := by
  simp only [changeDelband, bind_ok, check_ok, exists_const, pure_ok] at h
  obtain ⟨-, -, rfl⟩ := h
  apply storeDelband_ordinary
  intro ha k
  obtain ⟨hnet, hcpu⟩ := hn ha
  unfold delegatedTo Table.valueAt
  cases hl : s.staking.delband.lookup (owner, receiver) <;> cases k <;> simp [pick, hnet, hcpu]

lemma unstakeBandwidth_ordinary {owner receiver : Name} {net cpu : ℤ} (hp : pays owner)
    (h : unstakeBandwidth owner receiver net cpu s = .ok s') : Ordinary pays s s' := by
  simp only [unstakeBandwidth, bind_ok, require_ok, check_ok, exists_const] at h
  obtain ⟨d, -, -, -, h⟩ := h
  exact (storeDelband_ordinary fun hn => absurd hp hn).trans (updateResourceLimits_ordinary h)

/-- A change of refunds and of their schedule. -/
lemma Protected.refunds (pays : Name → Prop) (s : State) (refunds : Table Name RefundRequest)
    (deferred : Table Name DeferredRefund) :
    Protected pays s { s with staking := { s.staking with refunds, deferred } } where
  core := rfl
  isAccount := rfl
  holdings _ _ := ⟨le_refl _, le_refl _, le_refl _, fun _ _ => le_refl _⟩
  views _ := .refl

lemma settleRefund_protected {source owner receiver : Name} {net cpu : ℤ} {transfer : Bool}
    (hp : pays source) (h : settleRefund now source owner receiver net cpu transfer s = .ok s') :
    Protected pays s s' := by
  simp only [settleRefund, bind_ok] at h
  obtain ⟨⟨n, c, d, s₁⟩, h₁, h⟩ := h
  obtain ⟨refunds, rfl⟩ := (refundBalances_changed h₁).only
  have hmoved : Protected pays s
    ({ s with staking := { s.staking with refunds } }.scheduleRefund owner now d) :=
    Protected.refunds pays s refunds _
  split_ifs at h
  · exact hmoved.trans (inlineTransfer_ordinary hp h).toProtected
  · rw [pure_ok] at h
    subst h
    exact hmoved

lemma moveStake_protected {source owner receiver : Name} {net cpu : ℤ} {transfer : Bool}
    (hp : pays source) (hn : ¬ pays owner → 0 ≤ net ∧ 0 ≤ cpu)
    (h : moveStake now source owner receiver net cpu transfer s = .ok s') :
    Protected pays s s' := by
  simp only [moveStake, bind_ok] at h
  obtain ⟨s₁, h₁, s₂, h₂, h₃⟩ := h
  have hstaked : Ordinary pays s s₂ :=
    (changeDelband_ordinary hn h₁).trans (adjustResources_ordinary h₂)
  split_ifs at h₃
  · exact hstaked.toProtected.trans (settleRefund_protected hp h₃)
  · rw [pure_ok] at h₃
    subst h₃
    exact hstaked.toProtected

lemma changebw_protected [FloatOps] {ctx : Context} {source receiver : Name} {net cpu : ℤ}
    {transfer : Bool} (hp : pays source) (hn : transfer = true → 0 ≤ net ∧ 0 ≤ cpu)
    (h : changebw ctx source receiver net cpu transfer s = .ok s') : Protected pays s s' := by
  simp only [changebw, bind_ok, check_ok, exists_const, pure_ok] at h
  obtain ⟨-, -, -, -, s₁, h₁, v, hv, rfl⟩ := h
  have howner : ¬ pays (if transfer then receiver else source) → 0 ≤ net ∧ 0 ≤ cpu := by
    cases transfer with
    | false => exact fun hno => absurd hp hno
    | true => exact fun _ => hn rfl
  have hvotes : Ordinary pays (updateRexStake _ s₁) _ :=
    Ordinary.voting (updateVotingPower_flags hv)
  exact (moveStake_protected hp howner h₁).trans
    ((updateRexStake_ordinary _ s₁).trans hvotes).toProtected

lemma chargeRamFee_ordinary {payer : Name} {fee : ℤ} {memoSize : ℕ} (hp : pays payer)
    (hf : pays ramfeeAccount) (h : chargeRamFee now payer fee memoSize s = .ok s') :
    Ordinary pays s s' := by
  unfold chargeRamFee at h
  split_ifs at h
  · simp only [bind_ok] at h
    obtain ⟨s₁, h₁, h₂⟩ := h
    exact (inlineTransfer_ordinary hp h₁).trans (channelToRex_ordinary hf h₂)
  · cases h
    exact Ordinary.refl pays s

lemma creditRam_ordinary {receiver : Name} {bytes : ℤ} (hb : 0 ≤ bytes)
    (h : creditRam receiver bytes s = .ok s') : Ordinary pays s s' := by
  have hrow : ∀ tot : UserResources, tot.netWeight = totalWeight s.resources .net receiver →
      tot.cpuWeight = totalWeight s.resources .cpu receiver →
      tot.ramBytes = ramBytesOf s.resources receiver + bytes →
      (s.setUserRam receiver tot).setRamLimit receiver tot.ramBytes = .ok s' →
        Ordinary pays s s' := by
    intro tot hn hc hr
    exact setUserRam_ordinary hn hc (by omega)
  unfold creditRam at h
  cases hl : s.resources.userres.lookup receiver with
  | none =>
    rw [hl] at h
    refine hrow _ ?_ ?_ ?_ h <;> simp [totalWeight, ramBytesOf, Table.valueAt, hl]
  | some tot =>
    rw [hl] at h
    refine hrow _ ?_ ?_ ?_ h <;> simp [totalWeight, ramBytesOf, Table.valueAt, hl]

lemma buyBytes_ordinary {bancor : ℤ → ℤ → ℤ → ℤ} {receiver : Name} {quant : ℤ}
    (h : buyBytes bancor receiver quant s = .ok s') : Ordinary pays s s' := by
  simp only [buyBytes, bind_ok, check_ok, exists_const] at h
  obtain ⟨hpos, h⟩ := h
  exact (creditRam_ordinary hpos.le h).after rfl

lemma sellBytes_ordinary {bancor : ℤ → ℤ → ℤ → ℤ} {account : Name} {bytes out : ℤ}
    {tot : UserResources} (hl : s.resources.userres.lookup account = some tot)
    (hle : bytes ≤ tot.ramBytes) (h : sellBytes bancor account bytes tot s = .ok (out, s')) :
    Ordinary pays s s' := by
  simp only [sellBytes, bind_ok, check_ok, exists_const, pure_ok, Prod.mk.injEq] at h
  obtain ⟨-, -, m, hm, -, rfl⟩ := h
  have hrow : ∀ (ram : Ram) (row : UserResources),
    row = { tot with ramBytes := tot.ramBytes - bytes } →
      ({ s with ram }.setUserRam account row).setRamLimit account row.ramBytes = .ok m →
      Ordinary pays s m := by
    rintro ram row rfl hm
    have hmarket : Ordinary pays s { s with ram } := Ordinary.idle rfl
    refine hmarket.trans (setUserRam_ordinary ?_ ?_ ?_ hm)
    · simp [totalWeight, Table.valueAt, hl]
    · simp [totalWeight, Table.valueAt, hl]
    · exact fun _ => sub_nonneg.mpr hle
  exact hrow _ _ rfl hm

lemma buyram_ordinary {bancor : ℤ → ℤ → ℤ → ℤ} {ctx : Context} {payer receiver : Name}
    {quant : Asset} (hp : pays payer) (hf : pays ramfeeAccount)
    (h : buyram bancor ctx payer receiver quant s = .ok s') : Ordinary pays s s' := by
  simp only [buyram, bind_ok, check_ok, exists_const] at h
  obtain ⟨-, -, -, -, s₁, h₁, s₂, h₂, h₃⟩ := h
  have hpaid : Ordinary pays s s₁ := (inlineTransfer_ordinary hp h₁).after rfl
  exact hpaid.trans ((chargeRamFee_ordinary hp hf h₂).trans (buyBytes_ordinary h₃))

lemma sellram_ordinary {bancor : ℤ → ℤ → ℤ → ℤ} {ctx : Context} {account : Name} {bytes : ℤ}
    (hp : pays account) (hr : pays ramAccount) (hf : pays ramfeeAccount)
    (h : sellram bancor ctx account bytes s = .ok s') : Ordinary pays s s' := by
  simp only [sellram, bind_ok, check_ok, exists_const, require_ok] at h
  obtain ⟨-, -, -, tot, hl, hle, ⟨out, s₁⟩, h₁, s₂, h₂, h₃⟩ := h
  have hmarket : Ordinary pays s { s with ram := s.ram.updateRamSupply ctx.now } :=
    Ordinary.idle rfl
  have hsold := hmarket.trans (sellBytes_ordinary hl hle h₁)
  exact hsold.trans ((inlineTransfer_ordinary hr h₂).trans (chargeRamFee_ordinary hp hf h₃))

lemma expireOrders_ordinary {max : ℕ} {net cpu n c : ℤ}
    (h : expireOrders now max net cpu s = .ok (n, c, s')) : Ordinary pays s s' := by
  induction max generalizing s net cpu with
  | zero =>
    cases h
    exact Ordinary.refl pays _
  | succ max ih =>
    rw [expireOrders] at h
    split at h
    · cases h
      exact Ordinary.refl pays _
    · split_ifs at h
      · cases h
        exact Ordinary.refl pays _
      · simp only [bind_ok] at h
        obtain ⟨s₁, h₁, h₂⟩ := h
        have hrest : Ordinary pays (s₁.setPowerupOrders _) s' := ih h₂
        exact (adjustResources_ordinary h₁).trans (hrest.after rfl)

lemma setPowerupState_ordinary (s : State) (st : PowerupState) :
    Ordinary pays s (s.setPowerupState st) :=
  Ordinary.idle rfl

lemma powerupexec_ordinary [FloatOps] {ctx : Context} {user : Name} {max : UInt16}
    (h : powerupexec ctx user max s = .ok s') : Ordinary pays s s' := by
  simp only [powerupexec, processPowerupQueue, bind_ok, require_ok, pure_ok] at h
  obtain ⟨-, -, st, -, ⟨nd, cd, st', s₁⟩, ⟨⟨n, c, s₂⟩, h₁, ⟨ng, nw⟩, -, ⟨cg, cw⟩, -, heq⟩,
    s₃, h₂, rfl⟩ := h
  cases heq
  exact (expireOrders_ordinary h₁).trans
    ((adjustResources_ordinary h₂).trans (setPowerupState_ordinary s₃ _))

lemma reservePower_ordinary [FloatOps] {receiver : Name} {days : ℕ} {netFrac cpuFrac fee : ℤ}
    {maxPayment : Asset} {st st' : PowerupState}
    (h : reservePower now receiver days netFrac cpuFrac maxPayment st s = .ok (fee, st', s')) :
    Ordinary pays s s' := by
  simp only [reservePower, processPowerupQueue, bind_ok, check_ok, exists_const, pure_ok,
    Prod.mk.injEq] at h
  obtain ⟨⟨nd, cd, st₁, s₁⟩, ⟨⟨n, c, s₂⟩, h₁, ⟨ng, nw⟩, -, ⟨cg, cw⟩, -, heq⟩, ⟨na, nf, net⟩, -,
    ⟨ca, cf, cpu⟩, -,
    -, -, s₃, h₃, s₄, h₄, -, -, rfl⟩ := h
  cases heq
  have hreceived : Ordinary pays s₂ s₃ := (adjustResources_ordinary h₃).after rfl
  exact (expireOrders_ordinary h₁).trans (hreceived.trans (adjustResources_ordinary h₄))

lemma powerup_ordinary [FloatOps] {ctx : Context} {payer receiver : Name} {days : ℕ}
    {netFrac cpuFrac : ℤ} {maxPayment : Asset} (hp : pays payer)
    (h : powerup ctx payer receiver days netFrac cpuFrac maxPayment s = .ok s') :
    Ordinary pays s s' := by
  simp only [powerup, bind_ok, check_ok, exists_const, require_ok, pure_ok] at h
  obtain ⟨-, -, st, -, -, -, -, -, -, -, ⟨fee, st', s₁⟩, h₁, s₂, h₂, rfl⟩ := h
  exact (reservePower_ordinary h₁).trans
    ((channelToRex_ordinary hp h₂).trans (setPowerupState_ordinary s₂ st'))

lemma cfgpowerup_ordinary [FloatOps] {ctx : Context} {args : PowerupConfig}
    (h : cfgpowerup ctx args s = .ok s') : Ordinary pays s s' := by
  simp only [cfgpowerup, bind_ok, check_ok, exists_const, pure_ok] at h
  obtain ⟨-, -, -, ⟨n₀, r₀⟩, -, ⟨n₁, r₁⟩, -, fee, -, -, -, -, net, -, cpu, -, ⟨n₂, net'⟩,
    -, ⟨n₃, cpu'⟩, -,
    s₁, h₁, rfl⟩ := h
  exact (adjustResources_ordinary h₁).trans (setPowerupState_ordinary s₁ _)

lemma bidname_ordinary {ctx : Context} {bidder newname : Name} {bid : Asset} (hp : pays bidder)
    (h : bidname ctx bidder newname bid s = .ok s') : Ordinary pays s s' := by
  simp only [bidname, bind_ok, check_ok, exists_const, pure_ok] at h
  obtain ⟨-, -, -, -, -, -, -, -, -, s₁, h₁, s₂, h₂, rfl⟩ := h
  have houtbid : Ordinary pays s₁ s₂ := by
    unfold outbid at h₂
    split at h₂
    · cases h₂
      exact Ordinary.refl pays s₁
    · simp only [bind_ok, check_ok, exists_const, pure_ok] at h₂
      obtain ⟨-, -, -, rfl⟩ := h₂
      exact Ordinary.idle rfl
  have hbid : ∀ b, Ordinary pays s₂ (s₂.setBid newname b) := fun b => Ordinary.idle rfl
  exact (inlineTransfer_ordinary hp h₁).trans (houtbid.trans (hbid _))

lemma bidrefund_ordinary {bidder newname : Name} (hn : pays namesAccount)
    (h : bidrefund bidder newname s = .ok s') : Ordinary pays s s' := by
  simp only [bidrefund, bind_ok, require_ok, pure_ok] at h
  obtain ⟨amount, -, s₁, h₁, rfl⟩ := h
  exact (inlineTransfer_ordinary hn h₁).trans (Ordinary.idle rfl)

lemma ProducersEdited.ordinary (h : ProducersEdited s s') : Ordinary pays s s' := by
  obtain ⟨producers, production, rfl, -⟩ := h
  exact Ordinary.idle rfl

lemma transferIfPositive_ordinary {source dest : Name} {amount : ℤ} {memoSize : ℕ}
    (hp : pays source) (h : s.transferIfPositive source dest amount memoSize = .ok s') :
    Ordinary pays s s' := by
  unfold State.transferIfPositive at h
  split_ifs at h
  · exact inlineTransfer_ordinary hp h
  · cases h
    exact Ordinary.refl pays s

lemma issueIfPositive_ordinary {amount : ℤ} {memoSize : ℕ}
    (h : s.issueIfPositive amount memoSize = .ok s') : Ordinary pays s s' := by
  unfold State.issueIfPositive at h
  split_ifs at h
  · simp only [State.inlineIssue, bind_ok, pure_ok] at h
    obtain ⟨t, ht, rfl⟩ := h
    obtain ⟨hpos, hb⟩ := Token.issue_spec ht
    refine Ordinary.token fun a _ => ?_
    rw [hb]
    split_ifs <;> omega
  · cases h
    exact Ordinary.refl pays s

lemma setProduction_ordinary (s : State) (production : Production) :
    Ordinary pays s (s.setProduction production) :=
  Ordinary.idle rfl

lemma fillBucket_ordinary {pay : Payroll} (htedp : pays tedpAccount) (hsystem : pays systemAccount)
    (h : fillBucket now pay s = .ok s') : Ordinary pays s s' := by
  simp only [fillBucket, bind_ok, pure_ok] at h
  obtain ⟨held, -, s₁, h₁, s₂, h₂, s₃, h₃, s₄, h₄, rfl⟩ := h
  have hpaid : Ordinary pays s s₂ :=
    (transferIfPositive_ordinary htedp h₁).trans (issueIfPositive_ordinary h₂)
  have hshared : Ordinary pays s₂ s₄ :=
    (transferIfPositive_ordinary hsystem h₃).trans (transferIfPositive_ordinary hsystem h₄)
  exact hpaid.trans (hshared.trans (setProduction_ordinary s₄ _))

lemma claimrewardsSnapshot_ordinary {pay : Payroll} (htedp : pays tedpAccount)
    (hsystem : pays systemAccount) (h : claimrewardsSnapshot now pay s = .ok s') :
    Ordinary pays s s' := by
  simp only [claimrewardsSnapshot, bind_ok, check_ok, exists_const] at h
  obtain ⟨-, h⟩ := h
  split_ifs at h
  · rw [pure_ok] at h
    subst h
    exact Ordinary.refl pays s
  · simp only [bind_ok, pure_ok] at h
    obtain ⟨s₁, h₁, rfl⟩ := h
    exact (fillBucket_ordinary htedp hsystem h₁).trans
      (payProducersByVotes_edited pay.payAmount s₁).ordinary
  · simp only [bind_ok, pure_ok] at h
    obtain ⟨s₁, rfl, rfl⟩ := h
    exact (payProducersByVotes_edited pay.payAmount s).ordinary

lemma takeSnapshot_ordinary {b : Block} (htedp : pays tedpAccount) (hsystem : pays systemAccount)
    (h : takeSnapshot now b s = .ok s') : Ordinary pays s s' := by
  unfold takeSnapshot at h
  split_ifs at h
  · simp only [bind_ok, pure_ok] at h
    obtain ⟨s₁, h₁, rfl⟩ := h
    exact (claimrewardsSnapshot_ordinary htedp hsystem h₁).trans (setProduction_ordinary s₁ _)
  · cases h
    exact Ordinary.refl pays s

lemma electAndClose_ordinary {b : Block} (h : electAndClose now b s = .ok s') :
    Ordinary pays s s' := by
  unfold electAndClose at h
  split_ifs at h
  · simp only [bind_ok, pure_ok] at h
    obtain ⟨s₁, h₁, rfl⟩ := h
    obtain ⟨auctions, pools, hclose⟩ := closeAuction_eq b.header.timestamp now s₁
    rw [hclose]
    exact (electProducers_counted h₁).edited.ordinary.trans (Ordinary.idle rfl)
  · cases h
    exact Ordinary.refl pays s

lemma onblock_ordinary [FloatOps] {ctx : Context} {b : Block} (htedp : pays tedpAccount)
    (hsystem : pays systemAccount) (h : onblock ctx b s = .ok s') : Ordinary pays s s' := by
  obtain ⟨records, -, hstages⟩ := onblock_stages h
  have hrecord : Ordinary pays s (s.record records) := Ordinary.idle rfl
  generalize s.record records = s₁ at hstages hrecord
  refine hrecord.trans ?_
  cases hstages with
  | waiting inactive =>
    unfold activateNetwork
    split_ifs
    · exact Ordinary.idle (by simp only [State.parts, State.setProduction])
    · exact Ordinary.refl pays s₁
  | @counted s₂ s₃ _ v active missed votes elect snapshot =>
    have hfill : Ordinary pays s₁ (s₁.startFill ctx.now) := setProduction_ordinary _ _
    have hcount : Ordinary pays s₁ (countBlock b.header.producer s₂) :=
      hfill.trans ((countMissedBlocks_counted missed).edited.ordinary.trans
        (countBlock_edited _ s₂).ordinary)
    have hrecount : Ordinary pays (countBlock b.header.producer s₂)
      { countBlock b.header.producer s₂ with voting := v } :=
      Ordinary.voting (Voting.recalculateVotes_counted votes).flags
    exact hcount.trans (hrecount.trans
      ((electAndClose_ordinary elect).trans (takeSnapshot_ordinary htedp hsystem snapshot)))

end
end TelosSystem
