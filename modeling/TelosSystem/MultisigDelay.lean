import TelosSystem.MultisigHistory

/-! The delay of a proposed transaction. The earliest execution time is set when the approvals
begin to authorise the transaction; an execution is safe when they have authorised it since. -/
namespace TelosSystem
open Ledger

variable {α Hash : Type}

/-- More levels never authorise less. -/
def MultisigHost.Monotone (host : MultisigHost α Hash) : Prop :=
  ∀ trx levels levels', levels ⊆ levels' → host.authorizes trx levels = true →
    host.authorizes trx levels' = true

namespace Multisig

/-- The proposal of the key is `trx`, authorised by its provided and not invalidated approvals. -/
def Authorised (host : MultisigHost α Hash) (key : ProposalKey) (trx : Transaction α)
    (s : Multisig α) : Prop :=
  (s.proposals.lookup key).map Proposal.packedTransaction = some trx ∧
    ∃ approvals, getApprovals key s = .ok approvals ∧ host.authorizes trx approvals = true

def Cached (s : Multisig α) (key : ProposalKey) (prop : Proposal α) (earliest : ℕ) : Prop :=
  s.proposals.lookup key = some prop ∧ prop.earliestExecTime = some (some earliest)

/-- An `invalidate` that takes the authorization from no proposal with an earliest execution time. -/
def KeepsAuthorised (host : MultisigHost α Hash) (now : BlockTimestamp)
    (l : List PermissionLevel × MultisigAction α Hash) (s : Multisig α) : Prop :=
  ∀ account, l.2 = .invalidate account → ∀ key prop earliest, s.Cached key prop earliest →
    Authorised host key prop.packedTransaction
      { s with invalidations := s.invalidations.insert account now.usec }

def CarefulStep (host : MultisigHost α Hash) [DecidableEq Hash] (now : BlockTimestamp)
    (l : List PermissionLevel × MultisigAction α Hash) (s s' : Multisig α) : Prop :=
  KeepsAuthorised host now l s ∧ Step host now l s s'

/-- In the run of `tr` from `s₀`, every state from the time `t₁` on has `trx` authorised. -/
def HeldSince (host : MultisigHost α Hash) [DecidableEq Hash] (t₀ : BlockTimestamp)
    (s₀ : Multisig α) (key : ProposalKey) (trx : Transaction α)
    (tr : List (BlockTimestamp × List PermissionLevel × MultisigAction α Hash))
    (t₁ : BlockTimestamp) : Prop :=
  ∃ tr₁ tr₂ s₁, tr = tr₁ ++ tr₂ ∧ TimedRun (Step host) t₀ s₀ tr₁ t₁ s₁ ∧
    ∀ part t s, part <+: tr₂ → TimedRun (Step host) t₀ s₀ (tr₁ ++ part) t s →
    Authorised host key trx s

lemma getApprovals_congr {key : ProposalKey} {s s' : Multisig α}
    (ha : s'.approvals.lookup key = s.approvals.lookup key)
    (ho : s'.oldApprovals.lookup key = s.oldApprovals.lookup key)
    (hi : s'.invalidations = s.invalidations) : getApprovals key s' = getApprovals key s := by
  simp only [getApprovals, ha, ho, hi]

lemma getApprovals_of_provide_ne {time : ℕ} {key k : ProposalKey} {level : PermissionLevel}
    {s s' : Multisig α} (hk : key ≠ k) (h : provide time k level s = .ok s') :
    getApprovals key s' = getApprovals key s := by
  obtain ⟨apps, -, -, rfl⟩ | ⟨apps, -, -, -, rfl⟩ := provide_ok h
  · exact getApprovals_congr (AList.lookup_insert_ne hk) rfl rfl
  · exact getApprovals_congr rfl (AList.lookup_insert_ne hk) rfl

lemma getApprovals_of_withdraw_ne {time : ℕ} {key k : ProposalKey} {level : PermissionLevel}
    {s s' : Multisig α} (hk : key ≠ k) (h : withdraw time k level s = .ok s') :
    getApprovals key s' = getApprovals key s := by
  obtain ⟨apps, -, -, rfl⟩ | ⟨apps, -, -, -, rfl⟩ := withdraw_ok h
  · exact getApprovals_congr (AList.lookup_insert_ne hk) rfl rfl
  · exact getApprovals_congr rfl (AList.lookup_insert_ne hk) rfl

lemma getApprovals_eraseApprovals_ne {key k : ProposalKey} {s : Multisig α} (hk : key ≠ k) :
    getApprovals key { s.eraseApprovals k with proposals := s.proposals.erase k } =
      getApprovals key s := by
  unfold eraseApprovals
  split
  · exact getApprovals_congr (AList.lookup_erase_ne hk) rfl rfl
  · exact getApprovals_congr rfl (AList.lookup_erase_ne hk) rfl

/-- An approval only adds to the approvals that count. -/
lemma getApprovals_provide {time : ℕ} {key : ProposalKey} {level : PermissionLevel}
    {s s' : Multisig α} {approvals : List PermissionLevel} (h : provide time key level s = .ok s')
    (hg : getApprovals key s = .ok approvals) :
    ∃ approvals', getApprovals key s' = .ok approvals' ∧ approvals ⊆ approvals' := by
  unfold getApprovals at hg
  obtain ⟨apps, ha, -, rfl⟩ | ⟨apps, ha, ho, -, rfl⟩ := provide_ok h
  · rw [ha] at hg
    cases hg
    rw [getApprovals, AList.lookup_insert]
    refine ⟨_, rfl, List.map_subset _ ?_⟩
    rw [List.filter_append]
    exact List.subset_append_left _ _
  · rw [ha] at hg
    simp only [bind_ok, require_ok, pure_ok] at hg
    obtain ⟨apps', ho', rfl⟩ := hg
    rw [ho] at ho'
    cases ho'
    simp only [getApprovals, ha, AList.lookup_insert]
    refine ⟨_, rfl, ?_⟩
    rw [List.filter_append]
    exact List.subset_append_left _ _

/-- The proposal and the approvals of a key decide whether it is authorised. -/
lemma Authorised.congr {host : MultisigHost α Hash} {key : ProposalKey} {trx : Transaction α}
    {s s' : Multisig α} (h : Authorised host key trx s)
    (hp : s'.proposals.lookup key = s.proposals.lookup key)
    (hg : getApprovals key s' = getApprovals key s) : Authorised host key trx s' := by
  rw [Authorised, hp, hg]
  exact h

section
variable {host : MultisigHost α Hash} [DecidableEq Hash] {now : BlockTimestamp}
  {l : List PermissionLevel × MultisigAction α Hash} {s s' : Multisig α} {key : ProposalKey}
  {prop : Proposal α} {earliest : ℕ}

/-- A row with an earliest execution time got it in this step, at this time and authorised, or
had it before and has not lost its authorization. -/
lemma CarefulStep.cached (hmono : host.Monotone) (h : CarefulStep host now l s s')
    (hc : s'.Cached key prop earliest) :
    (earliest = now.usec + prop.packedTransaction.delaySec * 1000000 ∧
      Authorised host key prop.packedTransaction s') ∨
    (s.Cached key prop earliest ∧
      (Authorised host key prop.packedTransaction s →
        Authorised host key prop.packedTransaction s')) := by
  obtain ⟨hkeep, hs⟩ := h
  obtain ⟨hp, he⟩ := hc
  obtain ⟨signers, a⟩ := l
  have hframe (hps : s'.proposals.lookup key = s.proposals.lookup key)
      (hg : getApprovals key s' = getApprovals key s) : s.Cached key prop earliest ∧
        (Authorised host key prop.packedTransaction s →
        Authorised host key prop.packedTransaction s') :=
    ⟨⟨hps ▸ hp, he⟩, fun ha => ha.congr hps hg⟩
  cases a with
  | propose k requested trx =>
    obtain ⟨-, -, rfl⟩ := propose_ok hs
    by_cases hk : key = k
    · subst hk
      rw [AList.lookup_insert] at hp
      cases hp
      cases he
    · exact .inr (hframe (AList.lookup_insert_ne hk)
        (getApprovals_congr (AList.lookup_insert_ne hk) rfl rfl))
  | approve k level proposalHash =>
    obtain ⟨-, old, s₁, hold, hs₁, hout⟩ := approve_ok hs
    have hps := (provide_proposals hs₁).1
    by_cases hk : key = k
    · subst hk
      rcases hout with rfl | ⟨approvals, hg, hauth, rfl⟩
      · refine .inr ⟨⟨hps ▸ hp, he⟩, fun ⟨htrx, approvals, hg, hauth⟩ => ?_⟩
        obtain ⟨approvals', hg', hsub⟩ := getApprovals_provide hs₁ hg
        exact ⟨by rw [hps]; exact htrx, approvals', hg', hmono _ _ _ hsub hauth⟩
      · rw [setProposal, AList.lookup_insert] at hp
        cases hp
        cases he
        refine .inl ⟨rfl, ?_, approvals, hg, hauth⟩
        rw [setProposal, AList.lookup_insert]
        rfl
    · have hg₁ := getApprovals_of_provide_ne hk hs₁
      rcases hout with rfl | ⟨-, -, -, rfl⟩
      · exact .inr (hframe (by rw [hps]) hg₁)
      · refine .inr (hframe ?_ hg₁)
        rw [setProposal, AList.lookup_insert_ne hk, hps]
  | unapprove k level =>
    obtain ⟨-, old, s₁, hold, hs₁, hout⟩ := unapprove_ok hs
    have hps := (withdraw_proposals hs₁).1
    by_cases hk : key = k
    · subst hk
      rcases hout with ⟨rfl, hauth⟩ | rfl
      · rw [hps] at hp
        refine .inr ⟨⟨hp, he⟩, fun _ => ?_⟩
        rw [hp] at hold
        cases hold
        exact ⟨by rw [hps, hp]; rfl, hauth earliest he⟩
      · rw [setProposal, AList.lookup_insert] at hp
        cases hp
        cases he
    · have hg₁ := getApprovals_of_withdraw_ne hk hs₁
      rcases hout with ⟨rfl, -⟩ | rfl
      · exact .inr (hframe (by rw [hps]) hg₁)
      · refine .inr (hframe ?_ hg₁)
        rw [setProposal, AList.lookup_insert_ne hk, hps]
  | cancel k canceler =>
    obtain ⟨-, rfl⟩ := cancel_ok hs
    by_cases hk : key = k
    · subst hk
      simp at hp
    · exact .inr (hframe (AList.lookup_erase_ne hk) (getApprovals_eraseApprovals_ne hk))
  | exec k executer =>
    obtain ⟨sent, hx⟩ := apply_exec_ok hs
    obtain ⟨_, _, -, -, -, -, hr⟩ := exec_ok hx
    cases hr
    by_cases hk : key = k
    · subst hk
      simp at hp
    · exact .inr (hframe (AList.lookup_erase_ne hk) (getApprovals_eraseApprovals_ne hk))
  | invalidate account =>
    obtain ⟨-, rfl⟩ := invalidate_ok hs
    exact .inr ⟨⟨hp, he⟩, fun _ => hkeep account rfl key prop earliest ⟨hp, he⟩⟩

end

section
variable {host : MultisigHost α Hash} [DecidableEq Hash] {t₀ t : BlockTimestamp} {s₀ s : Multisig α}
  {key : ProposalKey} {trx : Transaction α}
  {tr : List (BlockTimestamp × List PermissionLevel × MultisigAction α Hash)}

lemma step_unique {now : BlockTimestamp} {l : List PermissionLevel × MultisigAction α Hash}
    {s s₁ s₂ : Multisig α} (h₁ : Step host now l s s₁) (h₂ : Step host now l s s₂) : s₁ = s₂ := by
  rw [Step, h₁] at h₂
  exact Except.ok.inj h₂

lemma run_unique {t' : BlockTimestamp} {s' : Multisig α} (h : TimedRun (Step host) t₀ s₀ tr t s)
    (h' : TimedRun (Step host) t₀ s₀ tr t' s') : t = t' ∧ s = s' := by
  refine h.unique ?_ h'
  exact step_unique

/-- Authorised in the last state is authorised since the last step. -/
lemma heldSince_last (h : TimedRun (Step host) t₀ s₀ tr t s) (ha : Authorised host key trx s) :
    HeldSince host t₀ s₀ key trx tr t := by
  refine ⟨tr, [], s, (List.append_nil tr).symm, h, fun part t' s' hpart hrun => ?_⟩
  rw [List.prefix_nil.mp hpart, List.append_nil] at hrun
  obtain ⟨-, rfl⟩ := run_unique h hrun
  exact ha

/-- One more state with the transaction authorised. -/
lemma HeldSince.snoc {t₁ : BlockTimestamp}
    {x : BlockTimestamp × List PermissionLevel × MultisigAction α Hash}
    (h : HeldSince host t₀ s₀ key trx tr t₁) (hrun : TimedRun (Step host) t₀ s₀ (tr ++ [x]) t s)
    (ha : Authorised host key trx s) : HeldSince host t₀ s₀ key trx (tr ++ [x]) t₁ := by
  obtain ⟨tr₁, tr₂, s₁, rfl, h₁, hheld⟩ := h
  refine ⟨tr₁, tr₂ ++ [x], s₁, List.append_assoc .., h₁, fun part t' s' hpart hrun' => ?_⟩
  rcases List.prefix_concat_iff.mp hpart with rfl | hpart
  · rw [← List.append_assoc] at hrun'
    obtain ⟨-, rfl⟩ := run_unique hrun hrun'
    exact ha
  · exact hheld part t' s' hpart hrun'

/-- Every earliest execution time lies the delay after a time since which the transaction has
been authorised. -/
lemma cached_heldSince (hmono : host.Monotone)
    (h0 : ∀ key prop earliest, ¬ s₀.Cached key prop earliest)
    (h : TimedRun (CarefulStep host) t₀ s₀ tr t s) {key : ProposalKey} {prop : Proposal α}
    {earliest : ℕ} (hc : s.Cached key prop earliest) :
    Authorised host key prop.packedTransaction s ∧
      ∃ t₁, earliest = t₁.usec + prop.packedTransaction.delaySec * 1000000 ∧
        HeldSince host t₀ s₀ key prop.packedTransaction tr t₁ := by
  induction h generalizing key prop earliest with
  | nil => exact (h0 _ _ _ hc).elim
  | @snoc tr t t' a s s' prior later next ih =>
    have hrun : TimedRun (Step host) t₀ s₀ (tr ++ [(t', a)]) t' s' :=
      (prior.snoc later next).mono fun hs => hs.2
    rcases next.cached hmono hc with ⟨he, ha⟩ | ⟨hc', hkeep⟩
    · exact ⟨ha, t', he, heldSince_last hrun ha⟩
    · obtain ⟨ha, t₁, he, hheld⟩ := ih hc'
      exact ⟨hkeep ha, t₁, he, hheld.snoc hrun (hkeep ha)⟩

/-- In a run in which no `invalidate` takes the authorization from a proposal with an earliest
execution time, an executed transaction has been authorised without a break for its delay. -/
theorem exec_after_delay (hmono : host.Monotone)
    (h0 : ∀ key prop earliest, ¬ s₀.Cached key prop earliest)
    (h : TimedRun (CarefulStep host) t₀ s₀ tr t s) {now : BlockTimestamp} (later : t ≤ now)
    {signers : List PermissionLevel} {executer : Name} {r : Multisig α × List α}
    (hexec : exec host ⟨now, signers⟩ key executer s = .ok r) :
    ∃ prop, s.proposals.lookup key = some prop ∧
      ∃ t₁, t₁.usec + prop.packedTransaction.delaySec * 1000000 ≤ now.usec ∧
        HeldSince host t₀ s₀ key prop.packedTransaction tr t₁ := by
  obtain ⟨prop, approvals, hp, hg, hauth, hdelay, -⟩ := exec_ok hexec
  refine ⟨prop, hp, ?_⟩
  have ha : Authorised host key prop.packedTransaction s := ⟨by rw [hp]; rfl, approvals, hg, hauth⟩
  rcases hdelay with ⟨earliest, he, hle⟩ | hzero
  · obtain ⟨-, t₁, rfl, hheld⟩ := cached_heldSince hmono h0 h ⟨hp, he⟩
    exact ⟨t₁, hle, hheld⟩
  · refine ⟨t, ?_, heldSince_last (h.mono fun hs => hs.2) ha⟩
    rw [hzero, Nat.zero_mul, Nat.add_zero]
    exact BlockTimestamp.usec_mono later

/-- A run without `invalidate` is careful. -/
lemma careful_of_run (hall : ∀ x ∈ tr, ∀ account, x.2.2 ≠ .invalidate account)
    (h : TimedRun (Step host) t₀ s₀ tr t s) : TimedRun (CarefulStep host) t₀ s₀ tr t s := by
  induction h with
  | nil => exact .nil
  | snoc prior later next ih =>
    refine (ih fun x hx => hall x (by simp [hx])).snoc later ⟨fun account he => ?_, next⟩
    exact (hall _ (List.mem_append_right _ (List.mem_singleton.mpr rfl)) account he).elim

end

/-! A fixed host under which one approval authorises, and two levels. -/

def firstLevel : PermissionLevel := ⟨systemAccount, systemAccount⟩

def secondLevel : PermissionLevel := ⟨ramAccount, systemAccount⟩

def delayedTrx : Transaction Unit := ⟨2 ^ 32 - 1, 10, [], [()]⟩

def approvedTrace : List (BlockTimestamp × List PermissionLevel × MultisigAction Unit Unit) :=
  [(.ofSlot 1, [firstLevel], .propose sampleKey [firstLevel, secondLevel] delayedTrx),
    (.ofSlot 2, [firstLevel], .approve sampleKey firstLevel none)]

def executionTime : BlockTimestamp := ⟨22, by decide⟩

/-- The first approval is invalidated, the second given ten seconds after the first. -/
def breakTrace : List (BlockTimestamp × List PermissionLevel × MultisigAction Unit Unit) :=
  approvedTrace ++ [(.ofSlot 4, [firstLevel], .invalidate systemAccount)]

def regainedTrace : List (BlockTimestamp × List PermissionLevel × MultisigAction Unit Unit) :=
  breakTrace ++ [(executionTime, [secondLevel], .approve sampleKey secondLevel none)]

lemma sampleHost_monotone : sampleHost.Monotone := by
  intro trx levels levels' hsub h
  cases levels' with
  | cons a l => rfl
  | nil =>
    rw [List.subset_nil.mp hsub] at h
    exact h

lemma noTables_not_cached (key : ProposalKey) (prop : Proposal Unit) (earliest : ℕ) :
    ¬ noTables.Cached key prop earliest := by
  rintro ⟨h, -⟩
  cases h

lemma sampleExec_run (tr : List (BlockTimestamp × List PermissionLevel × MultisigAction Unit Unit))
    (hok : (runAll sampleExec tr noTables).isOk = true)
    (hchain : (sampleStart :: tr.map Prod.fst).IsChain (· ≤ ·)) :
    TimedRun (Step sampleHost) sampleStart noTables tr ((tr.getLast?.map Prod.fst).getD sampleStart)
      (stateAfter sampleExec tr noTables) :=
  timedRun_of_runAll tr hchain (runAll_stateAfter hok)

/-- The execution succeeds at the end of the run, but the transaction has not been authorised
for its delay: after the invalidation no approval counted. -/
theorem exec_after_break :
    (exec sampleHost ⟨executionTime, [firstLevel]⟩ sampleKey systemAccount
      (stateAfter sampleExec regainedTrace noTables)).isOk = true ∧
    TimedRun (Step sampleHost) sampleStart noTables regainedTrace executionTime
      (stateAfter sampleExec regainedTrace noTables) ∧
    ¬ ∃ t₁, t₁.usec + delayedTrx.delaySec * 1000000 ≤ executionTime.usec ∧
      HeldSince sampleHost sampleStart noTables sampleKey delayedTrx regainedTrace t₁ := by
  have hrun := sampleExec_run regainedTrace (by decide +kernel) (by decide)
  have hbreak := sampleExec_run breakTrace (by decide +kernel) (by decide)
  refine ⟨by decide +kernel, hrun, ?_⟩
  rintro ⟨t₁, hle, tr₁, tr₂, s₁, htr, h₁, hheld⟩
  have hpre : tr₁ <+: regainedTrace := htr ▸ List.prefix_append tr₁ tr₂
  rcases List.prefix_concat_iff.mp hpre with rfl | hpre
  · -- the run from the last approval on is shorter than the delay
    obtain ⟨rfl, -⟩ := run_unique h₁ hrun
    revert hle
    decide
  · -- the state after the invalidation comes later, and it is not authorised
    obtain ⟨part, hpart⟩ := hpre
    have hin : part <+: tr₂ := by
      have hsame : tr₁ ++ tr₂ =
          tr₁ ++ (part ++ [(executionTime, [secondLevel],
          .approve sampleKey secondLevel none)]) := by
        rw [← htr, ← List.append_assoc, hpart]
        rfl
      rw [List.append_cancel_left hsame]
      exact List.prefix_append _ _
    rw [← hpart] at hbreak
    obtain ⟨-, approvals, hg, hauth⟩ := hheld part _ _ hin hbreak
    have hempty : (getApprovals sampleKey (stateAfter sampleExec breakTrace noTables)).toOption =
      some [] := by
      decide +kernel
    rw [hpart] at hg
    rw [hg] at hempty
    cases hempty
    cases hauth

def bothTrace : List (BlockTimestamp × List PermissionLevel × MultisigAction Unit Unit) :=
  approvedTrace ++ [(.ofSlot 4, [secondLevel], .approve sampleKey secondLevel none)]

/-- The second approval is invalidated, the first one still authorises. -/
def keptTrace : List (BlockTimestamp × List PermissionLevel × MultisigAction Unit Unit) :=
  bothTrace ++ [(.ofSlot 6, [secondLevel], .invalidate ramAccount)]

lemma keptTrace_careful :
    TimedRun (CarefulStep sampleHost) sampleStart noTables keptTrace (.ofSlot 6)
      (stateAfter sampleExec keptTrace noTables) := by
  have hboth := sampleExec_run bothTrace (by decide +kernel) (by decide)
  have hkept := sampleExec_run keptTrace (by decide +kernel) (by decide)
  obtain ⟨-, t, s, hprior, hle, hstep⟩ := hkept.snoc_inv
  obtain ⟨rfl, rfl⟩ := run_unique hprior hboth
  have hcareful := careful_of_run
    (fun x hx account => by revert x; simp [bothTrace, approvedTrace]) hboth
  refine hcareful.snoc hle ⟨fun account he key prop earliest hc => ?_, hstep⟩
  cases he
  have hkeys : (stateAfter sampleExec bothTrace noTables).proposals.keys = [sampleKey] := by
    decide +kernel
  have hkey : key ∈ (stateAfter sampleExec bothTrace noTables).proposals :=
    AList.lookup_isSome.mp (by rw [hc.1]; rfl)
  rw [AList.mem_keys, hkeys] at hkey
  obtain rfl := List.mem_singleton.mp hkey
  refine ⟨by rw [hc.1]; rfl, [firstLevel], ok_of_toOption ?_, rfl⟩
  decide +kernel

theorem approved_exec_after_delay :
    ∃ prop, (stateAfter sampleExec keptTrace noTables).proposals.lookup sampleKey = some prop ∧
      ∃ t₁, t₁.usec + prop.packedTransaction.delaySec * 1000000 ≤ executionTime.usec ∧
        HeldSince sampleHost sampleStart noTables sampleKey prop.packedTransaction
          keptTrace t₁ := by
  have hok : (exec sampleHost ⟨executionTime, [firstLevel]⟩ sampleKey systemAccount
      (stateAfter sampleExec keptTrace noTables)).isOk = true := by decide +kernel
  cases hexec : exec sampleHost ⟨executionTime, [firstLevel]⟩ sampleKey systemAccount
      (stateAfter sampleExec keptTrace noTables) with
  | error e =>
    rw [hexec] at hok
    cases hok
  | ok r =>
    exact exec_after_delay sampleHost_monotone noTables_not_cached keptTrace_careful
      (by decide) hexec

end Multisig
end TelosSystem
