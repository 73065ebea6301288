import TelosSystem.Multisig
import TelosSystem.ApprovalLog

/-! The approval tables of `eosio.msig` refine the history of their proposals: the rows of a
key hold what the calls on the standing proposal instance say. -/
namespace TelosSystem
open Ledger

namespace Multisig
variable {α Hash : Type}

/-- The number of approvals rows of a key, over both tables. -/
def approvalRows (s : Multisig α) (key : ProposalKey) : ℕ :=
  (s.approvals.lookup key).isSome.toNat + (s.oldApprovals.lookup key).isSome.toNat

/-- Every proposal row has one approvals row, and no other approvals row exists. -/
def Consistent (s : Multisig α) : Prop :=
  ∀ key, s.approvalRows key = (s.proposals.lookup key).isSome.toNat

/-- The levels of the approvals row of a key: requested, then provided. -/
def levels (s : Multisig α) (key : ProposalKey) : List PermissionLevel :=
  match s.approvals.lookup key with
  | some apps =>
    apps.requestedApprovals.map Approval.level ++ apps.providedApprovals.map Approval.level
  | none =>
    match s.oldApprovals.lookup key with
    | some apps => apps.requestedApprovals ++ apps.providedApprovals
    | none => []

/-- One instance of a proposal: the list given to `propose` and the calls of `approve` and
`unapprove` since then. -/
structure Instance where
  given : List PermissionLevel
  calls : List (Call PermissionLevel)

def Instance.note (c : Call PermissionLevel) (i : Instance) : Instance :=
  { i with calls := i.calls ++ [c] }

/-- What a successful action makes of the instance standing under a key. -/
def noteAction (key : ProposalKey) (i : Option Instance)
    (e : BlockTimestamp × List PermissionLevel × MultisigAction α Hash) : Option Instance :=
  match e.2.2 with
  | .propose k requested _ => if k = key then some ⟨requested, []⟩ else i
  | .approve k level _ =>
    if k = key ∧ level ∈ e.2.1 then i.map (Instance.note ⟨e.1.usec, level, true⟩) else i
  | .unapprove k level =>
    if k = key ∧ level ∈ e.2.1 then i.map (Instance.note ⟨e.1.usec, level, false⟩) else i
  | .cancel k _ => if k = key then none else i
  | .exec k _ => if k = key then none else i
  | .invalidate _ => i

/-- The instance of a row that stood before the run; its provided approvals count as calls. -/
def found (s₀ : Multisig α) (key : ProposalKey) : Option Instance :=
  if (s₀.proposals.lookup key).isSome then
    match s₀.approvals.lookup key with
    | some apps => some ⟨s₀.levels key, apps.providedApprovals.map fun a => ⟨a.time, a.level, true⟩⟩
    | none =>
      match s₀.oldApprovals.lookup key with
      | some apps => some ⟨s₀.levels key, apps.providedApprovals.map fun level => ⟨0, level, true⟩⟩
      | none => none
  else none

/-- The instance standing under a key after a run from `s₀`. -/
def history (s₀ : Multisig α) (key : ProposalKey)
    (tr : List (BlockTimestamp × List PermissionLevel × MultisigAction α Hash)) : Option Instance :=
  tr.foldl (noteAction key) (found s₀ key)

def noteInvalidation (actor : Name) (last : Option ℕ)
    (e : BlockTimestamp × List PermissionLevel × MultisigAction α Hash) : Option ℕ :=
  match e.2.2 with
  | .invalidate account =>
    if account = actor ∧ actor ∈ e.2.1.map PermissionLevel.actor then some e.1.usec else last
  | _ => last

def lastInvalidate (s₀ : Multisig α) (actor : Name)
    (tr : List (BlockTimestamp × List PermissionLevel × MultisigAction α Hash)) : Option ℕ :=
  tr.foldl (noteInvalidation actor) (s₀.invalidations.lookup actor)

/-- The provided approvals of a new row as pairs of the level and the time. -/
def ApprovalsInfo.provided (apps : ApprovalsInfo) : List (PermissionLevel × ℕ) :=
  apps.providedApprovals.map fun a => (a.level, a.time)

/-- The rows of a key keep the calls of an instance. -/
inductive Refines (s : Multisig α) (key : ProposalKey) : Option Instance → Prop
  | absent (hp : (s.proposals.lookup key).isSome = false) (ha : s.approvals.lookup key = none)
      (ho : s.oldApprovals.lookup key = none) : Refines s key none
  | current {i : Instance} {apps : ApprovalsInfo} (hp : (s.proposals.lookup key).isSome = true)
      (ha : s.approvals.lookup key = some apps) (ho : s.oldApprovals.lookup key = none)
      (ht : Tracks i.given i.calls (apps.requestedApprovals.map Approval.level)
        (ApprovalsInfo.provided apps)) : Refines s key (some i)
  | old {i : Instance} {apps : OldApprovalsInfo} {provided : List (PermissionLevel × ℕ)}
      (hp : (s.proposals.lookup key).isSome = true) (ha : s.approvals.lookup key = none)
      (ho : s.oldApprovals.lookup key = some apps)
        (hl : provided.map Prod.fst = apps.providedApprovals)
      (ht : Tracks i.given i.calls apps.requestedApprovals provided) : Refines s key (some i)

lemma Refines.congr {s s' : Multisig α} {key : ProposalKey} {i : Option Instance}
    (h : Refines s key i) (hp : (s'.proposals.lookup key).isSome = (s.proposals.lookup key).isSome)
    (ha : s'.approvals.lookup key = s.approvals.lookup key)
    (ho : s'.oldApprovals.lookup key = s.oldApprovals.lookup key) : Refines s' key i := by
  cases h with
  | absent hp₀ ha₀ ho₀ => exact .absent (hp.trans hp₀) (ha.trans ha₀) (ho.trans ho₀)
  | current hp₀ ha₀ ho₀ ht => exact .current (hp.trans hp₀) (ha.trans ha₀) (ho.trans ho₀) ht
  | old hp₀ ha₀ ho₀ hl ht => exact .old (hp.trans hp₀) (ha.trans ha₀) (ho.trans ho₀) hl ht

lemma found_refines {s₀ : Multisig α} (h : Consistent s₀) (key : ProposalKey) :
    Refines s₀ key (found s₀ key) := by
  have hk := h key
  unfold approvalRows at hk
  cases hp : (s₀.proposals.lookup key).isSome with
  | false =>
    rw [hp] at hk
    cases ha : s₀.approvals.lookup key with
    | some apps => simp [ha] at hk
    | none =>
      cases ho : s₀.oldApprovals.lookup key with
      | some apps => simp [ho] at hk
      | none =>
        simp only [found, hp]
        exact .absent hp ha ho
  | true =>
    rw [hp] at hk
    cases ha : s₀.approvals.lookup key with
    | some apps =>
      cases ho : s₀.oldApprovals.lookup key with
      | some old => simp [ha, ho] at hk
      | none =>
        simp only [found, hp, ha, if_true, levels]
        refine .current hp ha ho ?_
        have ht := Tracks.start (apps.requestedApprovals.map Approval.level)
          (ApprovalsInfo.provided apps)
        simpa only [ApprovalsInfo.provided, List.map_map, Function.comp_def] using ht
    | none =>
      cases ho : s₀.oldApprovals.lookup key with
      | none => simp [ha, ho] at hk
      | some apps =>
        simp only [found, hp, ha, ho, if_true, levels]
        have ht := Tracks.start apps.requestedApprovals
          (apps.providedApprovals.map fun level => (level, 0))
        simp only [List.map_map, Function.comp_def, List.map_id_fun'] at ht
        exact .old hp ha ho (by simp [Function.comp_def]) ht

/-! What each function writes. -/

lemma provide_ok {time : ℕ} {key : ProposalKey} {level : PermissionLevel} {s s' : Multisig α}
    (h : provide time key level s = .ok s') :
    (∃ apps, s.approvals.lookup key = some apps ∧
      level ∈ apps.requestedApprovals.map Approval.level ∧
      s' = { s with
        approvals := s.approvals.insert key
          ⟨apps.requestedApprovals.eraseP fun a => a.level = level,
            apps.providedApprovals ++ [⟨level, time⟩]⟩ }) ∨
    ∃ apps, s.approvals.lookup key = none ∧ s.oldApprovals.lookup key = some apps ∧
      level ∈ apps.requestedApprovals ∧
      s' = { s with
        oldApprovals := s.oldApprovals.insert key
          ⟨apps.requestedApprovals.erase level, apps.providedApprovals ++ [level]⟩ } := by
  unfold provide at h
  cases ha : s.approvals.lookup key with
  | some apps =>
    rw [ha] at h
    simp only [bind_ok, check_ok, exists_const, pure_ok] at h
    exact .inl ⟨apps, rfl, h.1, h.2.symm⟩
  | none =>
    rw [ha] at h
    simp only [bind_ok, require_ok, check_ok, exists_const, pure_ok] at h
    obtain ⟨apps, ho, hm, rfl⟩ := h
    exact .inr ⟨apps, rfl, ho, hm, rfl⟩

lemma withdraw_ok {time : ℕ} {key : ProposalKey} {level : PermissionLevel} {s s' : Multisig α}
    (h : withdraw time key level s = .ok s') :
    (∃ apps, s.approvals.lookup key = some apps ∧
      level ∈ apps.providedApprovals.map Approval.level ∧
      s' = { s with
        approvals := s.approvals.insert key
          ⟨apps.requestedApprovals ++ [⟨level, time⟩],
            apps.providedApprovals.eraseP fun a => a.level = level⟩ }) ∨
    ∃ apps, s.approvals.lookup key = none ∧ s.oldApprovals.lookup key = some apps ∧
      level ∈ apps.providedApprovals ∧
      s' = { s with
        oldApprovals := s.oldApprovals.insert key
          ⟨apps.requestedApprovals ++ [level], apps.providedApprovals.erase level⟩ } := by
  unfold withdraw at h
  cases ha : s.approvals.lookup key with
  | some apps =>
    rw [ha] at h
    simp only [bind_ok, check_ok, exists_const, pure_ok] at h
    exact .inl ⟨apps, rfl, h.1, h.2.symm⟩
  | none =>
    rw [ha] at h
    simp only [bind_ok, require_ok, check_ok, exists_const, pure_ok] at h
    obtain ⟨apps, ho, hm, rfl⟩ := h
    exact .inr ⟨apps, rfl, ho, hm, rfl⟩

lemma provide_proposals {time : ℕ} {key : ProposalKey} {level : PermissionLevel} {s s' : Multisig α}
    (h : provide time key level s = .ok s') :
    s'.proposals = s.proposals ∧ s'.invalidations = s.invalidations := by
  obtain ⟨apps, -, -, rfl⟩ | ⟨apps, -, -, -, rfl⟩ := provide_ok h
  · exact ⟨rfl, rfl⟩
  · exact ⟨rfl, rfl⟩

lemma withdraw_proposals {time : ℕ} {key : ProposalKey} {level : PermissionLevel}
    {s s' : Multisig α} (h : withdraw time key level s = .ok s') :
    s'.proposals = s.proposals ∧ s'.invalidations = s.invalidations := by
  obtain ⟨apps, -, -, rfl⟩ | ⟨apps, -, -, -, rfl⟩ := withdraw_ok h
  · exact ⟨rfl, rfl⟩
  · exact ⟨rfl, rfl⟩

lemma propose_ok {host : MultisigHost α Hash} {ctx : MultisigContext} {key : ProposalKey}
    {requested : List PermissionLevel} {trx : Transaction α} {s s' : Multisig α}
    (h : propose host ctx key requested trx s = .ok s') :
    s.proposals.lookup key = none ∧ s.approvals.lookup key = none ∧
      s' = { s with
        proposals := s.proposals.insert key ⟨trx, some none⟩
        approvals := s.approvals.insert key ⟨requested.map fun level => ⟨level, 0⟩, []⟩ } := by
  simp only [propose, MultisigContext.requireName, bind_ok, check_ok, exists_const, pure_ok] at h
  obtain ⟨-, -, -, hp, -, ha, rfl⟩ := h
  exact ⟨hp, ha, rfl⟩

/-- After the lists are changed `approve` may set the earliest execution time, once the
approvals authorise the transaction. -/
lemma approve_ok {host : MultisigHost α Hash} [DecidableEq Hash] {ctx : MultisigContext}
    {key : ProposalKey} {level : PermissionLevel} {proposalHash : Option Hash} {s s' : Multisig α}
    (h : approve host ctx key level proposalHash s = .ok s') :
    level ∈ ctx.signers ∧ ∃ prop s₁, s.proposals.lookup key = some prop ∧
      provide ctx.now.usec key level s = .ok s₁ ∧
      (s' = s₁ ∨ ∃ approvals, getApprovals key s₁ = .ok approvals ∧
        host.authorizes prop.packedTransaction approvals = true ∧
        s' = s₁.setProposal key { prop with
          earliestExecTime := some (some (ctx.now.usec + prop.packedTransaction.delaySec * 1000000))
            }) := by
  simp only [approve, MultisigContext.requireLevel, bind_ok, check_ok, require_ok,
    exists_const] at h
  obtain ⟨hm, prop, hp, -, s₁, hs₁, h⟩ := h
  refine ⟨hm, prop, s₁, hp, hs₁, ?_⟩
  rcases he : prop.earliestExecTime with _ | _ | e
  · rw [he] at h
    simp only [bind_ok, check_ok, exists_const, pure_ok] at h
    exact .inl h.2.symm
  · rw [he] at h
    simp only [bind_ok] at h
    obtain ⟨approvals, hg, h⟩ := h
    split at h
    · cases h
      exact .inr ⟨approvals, hg, by assumption, rfl⟩
    · cases h
      exact .inl rfl
  · rw [he] at h
    cases h
    exact .inl rfl

/-- `unapprove` leaves the earliest execution time only while the approvals authorise. -/
lemma unapprove_ok {host : MultisigHost α Hash} {ctx : MultisigContext} {key : ProposalKey}
    {level : PermissionLevel} {s s' : Multisig α} (h : unapprove host ctx key level s = .ok s') :
    level ∈ ctx.signers ∧ ∃ prop s₁, s.proposals.lookup key = some prop ∧
      withdraw ctx.now.usec key level s = .ok s₁ ∧
      ((s' = s₁ ∧ ∀ e, prop.earliestExecTime = some (some e) → ∃ approvals,
        getApprovals key s₁ = .ok approvals ∧
        host.authorizes prop.packedTransaction approvals = true) ∨
      s' = s₁.setProposal key { prop with earliestExecTime := some none }) := by
  simp only [unapprove, MultisigContext.requireLevel, bind_ok, check_ok, require_ok,
    exists_const] at h
  obtain ⟨hm, s₁, hs₁, prop, hp, h⟩ := h
  rw [(withdraw_proposals hs₁).1] at hp
  refine ⟨hm, prop, s₁, hp, hs₁, ?_⟩
  rcases he : prop.earliestExecTime with _ | _ | e
  · rw [he] at h
    simp only [bind_ok, check_ok, exists_const, pure_ok] at h
    refine .inl ⟨h.2.symm, fun e he' => ?_⟩
    cases he'
  · rw [he] at h
    cases h
    refine .inl ⟨rfl, fun e he' => ?_⟩
    cases he'
  · rw [he] at h
    simp only [bind_ok] at h
    obtain ⟨approvals, hg, h⟩ := h
    split at h
    · cases h
      exact .inl ⟨rfl, fun _ _ => ⟨approvals, hg, by assumption⟩⟩
    · cases h
      exact .inr rfl

lemma cancel_ok {ctx : MultisigContext} {key : ProposalKey} {canceler : Name} {s s' : Multisig α}
    (h : cancel ctx key canceler s = .ok s') : (s.proposals.lookup key).isSome ∧
      s' = { s.eraseApprovals key with proposals := s.proposals.erase key } := by
  simp only [cancel, MultisigContext.requireName, bind_ok, check_ok, require_ok, exists_const] at h
  obtain ⟨-, prop, hp, -, h⟩ := h
  refine ⟨by rw [hp]; rfl, ?_⟩
  cases ha : s.approvals.lookup key with
  | some apps =>
    rw [ha] at h
    cases h
    simp [eraseApprovals, ha]
  | none =>
    rw [ha] at h
    simp only [bind_ok, require_ok, pure_ok] at h
    obtain ⟨apps, ho, rfl⟩ := h
    simp [eraseApprovals, ha]

/-- An execution was authorised by the approvals it read and is not before its time. -/
lemma exec_ok {host : MultisigHost α Hash} {ctx : MultisigContext} {key : ProposalKey}
    {executer : Name} {s : Multisig α} {r : Multisig α × List α}
    (h : exec host ctx key executer s = .ok r) :
    ∃ prop approvals, s.proposals.lookup key = some prop ∧ getApprovals key s = .ok approvals ∧
      host.authorizes prop.packedTransaction approvals = true ∧
      ((∃ e, prop.earliestExecTime = some (some e) ∧ e ≤ ctx.now.usec) ∨
        prop.packedTransaction.delaySec = 0) ∧
      r = ({ s.eraseApprovals key with proposals := s.proposals.erase key },
        prop.packedTransaction.actions) := by
  have herase : (s.eraseApprovals key).proposals = s.proposals := by
    unfold eraseApprovals
    split <;> rfl
  simp only [exec, MultisigContext.requireName, bind_ok, check_ok, require_ok, exists_const] at h
  obtain ⟨-, prop, hp, -, -, approvals, hg, hauth, h⟩ := h
  refine ⟨prop, approvals, hp, hg, hauth, ?_⟩
  rw [herase] at h
  rcases he : prop.earliestExecTime with _ | _ | e
  · rw [he] at h
    simp only [bind_ok, check_ok, exists_const, pure_ok] at h
    exact ⟨.inr h.1, h.2.symm⟩
  · rw [he] at h
    simp only [bind_ok, check_ok, exists_const, pure_ok] at h
    exact ⟨.inr h.1, h.2.symm⟩
  · rw [he] at h
    simp only [bind_ok, check_ok, exists_const, pure_ok] at h
    exact ⟨.inl ⟨e, rfl, h.1⟩, h.2.symm⟩

lemma invalidate_ok {ctx : MultisigContext} {account : Name} {s s' : Multisig α}
    (h : invalidate ctx account s = .ok s') : account ∈ ctx.signers.map PermissionLevel.actor ∧
      s' = { s with invalidations := s.invalidations.insert account ctx.now.usec } := by
  simp only [invalidate, MultisigContext.requireName, bind_ok, check_ok, exists_const, pure_ok] at h
  exact ⟨h.1, h.2.symm⟩

lemma apply_exec_ok {host : MultisigHost α Hash} [DecidableEq Hash] {ctx : MultisigContext}
    {key : ProposalKey} {executer : Name} {s s' : Multisig α}
    (h : apply host ctx s (.exec key executer) = .ok s') :
    ∃ sent, exec host ctx key executer s = .ok (s', sent) := by
  change Prod.fst <$> exec host ctx key executer s = .ok s' at h
  cases he : exec host ctx key executer s with
  | error e =>
    rw [he] at h
    cases h
  | ok r =>
    rw [he] at h
    cases h
    exact ⟨r.2, rfl⟩

/-! The rows of other keys are untouched. -/

lemma Refines.of_provide_ne {time : ℕ} {key k : ProposalKey} {level : PermissionLevel}
    {s s' : Multisig α} {i : Option Instance} (h : Refines s key i) (hk : key ≠ k)
    (hp : provide time k level s = .ok s') : Refines s' key i := by
  obtain ⟨apps, -, -, rfl⟩ | ⟨apps, -, -, -, rfl⟩ := provide_ok hp
  · exact h.congr rfl (AList.lookup_insert_ne hk) rfl
  · exact h.congr rfl rfl (AList.lookup_insert_ne hk)

lemma Refines.of_withdraw_ne {time : ℕ} {key k : ProposalKey} {level : PermissionLevel}
    {s s' : Multisig α} {i : Option Instance} (h : Refines s key i) (hk : key ≠ k)
    (hp : withdraw time k level s = .ok s') : Refines s' key i := by
  obtain ⟨apps, -, -, rfl⟩ | ⟨apps, -, -, -, rfl⟩ := withdraw_ok hp
  · exact h.congr rfl (AList.lookup_insert_ne hk) rfl
  · exact h.congr rfl rfl (AList.lookup_insert_ne hk)

lemma Refines.setProposal_ne {key k : ProposalKey} {prop : Proposal α} {s : Multisig α}
    {i : Option Instance} (h : Refines s key i) (hk : key ≠ k) :
    Refines (s.setProposal k prop) key i := by
  refine h.congr ?_ rfl rfl
  rw [setProposal, AList.lookup_insert_ne hk]

lemma Refines.setProposal {key : ProposalKey} {prop : Proposal α} {s : Multisig α} {i : Instance}
    (h : Refines s key (some i)) : Refines (s.setProposal key prop) key (some i) := by
  have hp : (s.proposals.lookup key).isSome = true := by
    cases h with
    | current hp => exact hp
    | old hp => exact hp
  refine h.congr ?_ rfl rfl
  rw [hp, Multisig.setProposal, AList.lookup_insert]
  rfl

lemma Refines.erase_ne {key k : ProposalKey} {s : Multisig α} {i : Option Instance}
    (h : Refines s key i) (hk : key ≠ k) :
    Refines { s.eraseApprovals k with proposals := s.proposals.erase k } key i := by
  unfold eraseApprovals
  cases s.approvals.lookup k with
  | some apps =>
    exact h.congr (by rw [AList.lookup_erase_ne hk]) (AList.lookup_erase_ne hk) rfl
  | none =>
    exact h.congr (by rw [AList.lookup_erase_ne hk]) rfl (AList.lookup_erase_ne hk)

lemma Refines.erase {key : ProposalKey} {s : Multisig α} {i : Option Instance}
    (h : Refines s key i) :
    Refines { s.eraseApprovals key with proposals := s.proposals.erase key } key none := by
  unfold eraseApprovals
  cases h with
  | absent hp ha ho =>
    rw [ha]
    exact .absent (by simp) ha (AList.lookup_erase key _)
  | current hp ha ho =>
    rw [ha]
    exact .absent (by simp) (AList.lookup_erase key _) ho
  | old hp ha ho =>
    rw [ha]
    exact .absent (by simp) ha (AList.lookup_erase key _)

/-! One call on the standing instance. -/

lemma Refines.provide {time : ℕ} {key : ProposalKey} {level : PermissionLevel} {s s' : Multisig α}
    {i : Instance} (h : Refines s key (some i)) (hp : provide time key level s = .ok s') :
    Refines s' key (some (i.note ⟨time, level, true⟩)) := by
  obtain ⟨apps, hl, hm, rfl⟩ | ⟨apps, ha, hl, hm, rfl⟩ := provide_ok hp
  · cases h with
    | old hp₀ ha =>
      rw [ha] at hl
      cases hl
    | current hp₀ ha ho ht =>
      rw [ha] at hl
      cases hl
      refine .current hp₀ (AList.lookup_insert _) ho ?_
      have htr := ht.grant time hm
      rw [← map_eraseP] at htr
      simpa only [ApprovalsInfo.provided, List.map_append, List.map_cons, List.map_nil,
        Instance.note] using htr
  · cases h with
    | current hp₀ ha₀ =>
      rw [ha₀] at ha
      cases ha
    | old hp₀ ha₀ ho hmap ht =>
      rw [ho] at hl
      cases hl
      refine .old hp₀ ha₀ (AList.lookup_insert _) ?_ (ht.grant time hm)
      simp [hmap]

lemma Refines.withdraw {time : ℕ} {key : ProposalKey} {level : PermissionLevel} {s s' : Multisig α}
    {i : Instance} (h : Refines s key (some i)) (hp : withdraw time key level s = .ok s') :
    Refines s' key (some (i.note ⟨time, level, false⟩)) := by
  obtain ⟨apps, hl, hm, rfl⟩ | ⟨apps, ha, hl, hm, rfl⟩ := withdraw_ok hp
  · cases h with
    | old hp₀ ha =>
      rw [ha] at hl
      cases hl
    | current hp₀ ha ho ht =>
      rw [ha] at hl
      cases hl
      refine .current hp₀ (AList.lookup_insert _) ho ?_
      have hm' : level ∈ (ApprovalsInfo.provided apps).map Prod.fst := by
        simpa only [ApprovalsInfo.provided, List.map_map, Function.comp_def] using hm
      have htr := ht.revoke time hm'
      rw [ApprovalsInfo.provided, List.eraseP_map] at htr
      simp only [ApprovalsInfo.provided, List.map_append, List.map_cons,
        List.map_nil, Instance.note]
      exact htr
  · cases h with
    | current hp₀ ha₀ =>
      rw [ha₀] at ha
      cases ha
    | @old _ _ provided hp₀ ha₀ ho hmap ht =>
      rw [ho] at hl
      cases hl
      rw [← hmap] at hm
      refine .old hp₀ ha₀ (AList.lookup_insert _) ?_ (ht.revoke time hm)
      rw [map_eraseP, hmap]

lemma Refines.exists_of_lookup {key : ProposalKey} {s : Multisig α} {i : Option Instance}
    {prop : Proposal α} (h : Refines s key i) (hp : s.proposals.lookup key = some prop) :
    ∃ j, i = some j := by
  cases h with
  | absent hp₀ =>
    rw [hp] at hp₀
    cases hp₀
  | current => exact ⟨_, rfl⟩
  | old => exact ⟨_, rfl⟩

/-- A step does to the rows of a key what it does to the history of the key. -/
lemma Refines.step {host : MultisigHost α Hash} [DecidableEq Hash] {now : BlockTimestamp}
    {l : List PermissionLevel × MultisigAction α Hash} {s s' : Multisig α} {key : ProposalKey}
    {i : Option Instance} (h : Refines s key i) (hs : Step host now l s s') :
    Refines s' key (noteAction key i (now, l)) := by
  obtain ⟨signers, a⟩ := l
  cases a with
  | propose k requested trx =>
    obtain ⟨hp, ha, rfl⟩ := propose_ok hs
    by_cases hk : k = key
    · subst hk
      cases h with
      | current hp₀ =>
        rw [hp] at hp₀
        cases hp₀
      | old hp₀ =>
        rw [hp] at hp₀
        cases hp₀
      | absent hp₀ ha₀ ho₀ =>
        simp only [noteAction, if_true]
        refine .current (by rw [AList.lookup_insert]; rfl) (AList.lookup_insert _) ho₀ ?_
        simpa only [List.map_map, Function.comp_def, List.map_id_fun', id_eq,
          ApprovalsInfo.provided,
          List.map_nil] using Tracks.nil requested
    · have hne : key ≠ k := fun he => hk he.symm
      simp only [noteAction, if_neg hk]
      exact h.congr (by rw [AList.lookup_insert_ne hne]) (AList.lookup_insert_ne hne) rfl
  | approve k level proposalHash =>
    obtain ⟨hm, prop, s₁, hp, hs₁, hout⟩ := approve_ok hs
    by_cases hk : k = key
    · subst hk
      obtain ⟨j, rfl⟩ := h.exists_of_lookup hp
      have h₁ := h.provide hs₁
      simp only [noteAction]
      rw [if_pos ⟨trivial, hm⟩]
      rcases hout with rfl | ⟨-, -, -, rfl⟩
      · exact h₁
      · exact h₁.setProposal
    · have hne : key ≠ k := fun he => hk he.symm
      have h₁ := h.of_provide_ne hne hs₁
      simp only [noteAction, hk, false_and, if_false]
      rcases hout with rfl | ⟨-, -, -, rfl⟩
      · exact h₁
      · exact h₁.setProposal_ne hne
  | unapprove k level =>
    obtain ⟨hm, prop, s₁, hp, hs₁, hout⟩ := unapprove_ok hs
    by_cases hk : k = key
    · subst hk
      obtain ⟨j, rfl⟩ := h.exists_of_lookup hp
      have h₁ := h.withdraw hs₁
      simp only [noteAction]
      rw [if_pos ⟨trivial, hm⟩]
      rcases hout with ⟨rfl, -⟩ | rfl
      · exact h₁
      · exact h₁.setProposal
    · have hne : key ≠ k := fun he => hk he.symm
      have h₁ := h.of_withdraw_ne hne hs₁
      simp only [noteAction, hk, false_and, if_false]
      rcases hout with ⟨rfl, -⟩ | rfl
      · exact h₁
      · exact h₁.setProposal_ne hne
  | cancel k canceler =>
    obtain ⟨-, rfl⟩ := cancel_ok hs
    by_cases hk : k = key
    · subst hk
      simp only [noteAction, if_true]
      exact h.erase
    · simp only [noteAction, if_neg hk]
      exact h.erase_ne fun he => hk he.symm
  | exec k executer =>
    obtain ⟨sent, he⟩ := apply_exec_ok hs
    obtain ⟨prop, approvals, -, -, -, -, hr⟩ := exec_ok he
    cases hr
    by_cases hk : k = key
    · subst hk
      simp only [noteAction, if_true]
      exact h.erase
    · simp only [noteAction, if_neg hk]
      exact h.erase_ne fun he => hk he.symm
  | invalidate account =>
    obtain ⟨-, rfl⟩ := invalidate_ok hs
    exact h.congr rfl rfl rfl

/-! Runs. The authorization predicate of the chain may change from step to step. -/

def AnyStep [DecidableEq Hash] (now : BlockTimestamp)
    (l : List PermissionLevel × MultisigAction α Hash) (s s' : Multisig α) : Prop :=
  ∃ host : MultisigHost α Hash, Step host now l s s'

section
variable [DecidableEq Hash] {t₀ t : BlockTimestamp} {s₀ s : Multisig α}
  {tr : List (BlockTimestamp × List PermissionLevel × MultisigAction α Hash)}

omit [DecidableEq Hash] in
lemma history_append (key : ProposalKey)
    (e : BlockTimestamp × List PermissionLevel × MultisigAction α Hash) :
    history s₀ key (tr ++ [e]) = noteAction key (history s₀ key tr) e := by
  simp only [history, List.foldl_append, List.foldl_cons, List.foldl_nil]

lemma run_refines (hc : s₀.Consistent) (h : TimedRun AnyStep t₀ s₀ tr t s) (key : ProposalKey) :
    Refines s key (history s₀ key tr) := by
  induction h with
  | nil => exact found_refines hc key
  | snoc prior later next ih =>
    obtain ⟨host, hs⟩ := next
    rw [history_append]
    exact ih.step hs

lemma step_invalidations {host : MultisigHost α Hash} {now : BlockTimestamp}
    {l : List PermissionLevel × MultisigAction α Hash} {s s' : Multisig α}
    (hs : Step host now l s s') (actor : Name) :
    s'.invalidations.lookup actor =
      noteInvalidation actor (s.invalidations.lookup actor) (now, l) := by
  obtain ⟨signers, a⟩ := l
  cases a with
  | propose k requested trx =>
    obtain ⟨-, -, rfl⟩ := propose_ok hs
    rfl
  | approve k level proposalHash =>
    obtain ⟨-, prop, s₁, -, hs₁, hout⟩ := approve_ok hs
    have hi := (provide_proposals hs₁).2
    rcases hout with rfl | ⟨-, -, -, rfl⟩
    · rw [hi]
      rfl
    · rw [setProposal, hi]
      rfl
  | unapprove k level =>
    obtain ⟨-, prop, s₁, -, hs₁, hout⟩ := unapprove_ok hs
    have hi := (withdraw_proposals hs₁).2
    rcases hout with ⟨rfl, -⟩ | rfl
    · rw [hi]
      rfl
    · rw [setProposal, hi]
      rfl
  | cancel k canceler =>
    obtain ⟨-, rfl⟩ := cancel_ok hs
    unfold eraseApprovals
    split <;> rfl
  | exec k executer =>
    obtain ⟨sent, he⟩ := apply_exec_ok hs
    obtain ⟨prop, approvals, -, -, -, -, hr⟩ := exec_ok he
    cases hr
    unfold eraseApprovals
    split <;> rfl
  | invalidate account =>
    obtain ⟨hm, rfl⟩ := invalidate_ok hs
    rw [Table.lookup_insert']
    simp only [noteInvalidation]
    by_cases ha : account = actor
    · subst ha
      rw [if_pos rfl, if_pos ⟨rfl, hm⟩]
    · rw [if_neg fun he => ha he.symm, if_neg fun he => ha he.1]

lemma run_invalidations (h : TimedRun AnyStep t₀ s₀ tr t s) (actor : Name) :
    s.invalidations.lookup actor = lastInvalidate s₀ actor tr := by
  induction h with
  | nil => rfl
  | snoc prior later next ih =>
    obtain ⟨host, hs⟩ := next
    rw [step_invalidations hs, ih, lastInvalidate, lastInvalidate, List.foldl_append]
    rfl

/-- A level that counts for a proposal was granted on its standing instance more often than
taken back, and after the last invalidation of its actor. -/
def Granted (s₀ s : Multisig α) (key : ProposalKey)
    (tr : List (BlockTimestamp × List PermissionLevel × MultisigAction α Hash)) (i : Instance)
    (level : PermissionLevel) : Prop :=
  ∃ time ∈ (grantTimes level i.calls).drop (revocations level i.calls),
    (i.given.count level ≤ 1 → lastCall level i.calls = some ⟨time, level, true⟩) ∧
    if (s.approvals.lookup key).isSome then
      ∀ last, lastInvalidate s₀ level.actor tr = some last → last < time
    else lastInvalidate s₀ level.actor tr = none

lemma Refines.granted {key : ProposalKey} {i : Instance} (h : Refines s key (some i))
    (hrun : TimedRun AnyStep t₀ s₀ tr t s) {handed : List PermissionLevel}
    (hg : getApprovals key s = .ok handed) {level : PermissionLevel} (hm : level ∈ handed) :
    Granted s₀ s key tr i level := by
  have hlast := run_invalidations hrun level.actor
  unfold getApprovals at hg
  cases h with
  | current hp ha ho ht =>
    rw [ha] at hg
    cases hg
    obtain ⟨a, ha', rfl⟩ := List.mem_map.mp hm
    obtain ⟨hin, hvalid⟩ := List.mem_filter.mp ha'
    have hpair : (a.level, a.time) ∈ ApprovalsInfo.provided _ := List.mem_map.mpr ⟨a, hin, rfl⟩
    refine ⟨a.time, ht.of_mem hpair, fun hc => ht.last _ _ hc hpair, ?_⟩
    rw [ha, Option.isSome_some, if_pos rfl]
    intro last hl
    rw [← hlast] at hl
    simpa only [hl, decide_eq_true_eq] using hvalid
  | @old _ _ provided hp ha ho hmap ht =>
    rw [ha] at hg
    simp only [bind_ok, require_ok, pure_ok] at hg
    obtain ⟨apps, ho', rfl⟩ := hg
    rw [ho] at ho'
    cases ho'
    obtain ⟨hin, hvalid⟩ := List.mem_filter.mp hm
    rw [← hmap] at hin
    obtain ⟨⟨l, time⟩, hpair, rfl⟩ := List.mem_map.mp hin
    refine ⟨time, ht.of_mem hpair, fun hc => ht.last _ _ hc hpair, ?_⟩
    rw [ha, Option.isSome_none, if_neg (by simp), ← hlast]
    exact Option.isNone_iff_eq_none.mp hvalid

/-! One execution for each instance. -/

def Executes (key : ProposalKey) (l : List PermissionLevel × MultisigAction α Hash) : Prop :=
  ∃ executer, l.2 = .exec key executer

def Proposes (key : ProposalKey) (l : List PermissionLevel × MultisigAction α Hash) : Prop :=
  ∃ requested trx, l.2 = .propose key requested trx

omit [DecidableEq Hash] in
lemma noteAction_none {key : ProposalKey}
    {e : BlockTimestamp × List PermissionLevel × MultisigAction α Hash} (h : ¬ Proposes key e.2) :
    noteAction key none e = none := by
  obtain ⟨now, signers, a⟩ := e
  cases a with
  | propose k requested trx =>
    have hk : k ≠ key := by
      rintro rfl
      exact h ⟨requested, trx, rfl⟩
    simp only [noteAction, if_neg hk]
  | approve k level proposalHash => simp [noteAction]
  | unapprove k level => simp [noteAction]
  | cancel k canceler => simp [noteAction]
  | exec k executer => simp [noteAction]
  | invalidate account => rfl

/-- Between two executions of a proposal it has been proposed again. -/
lemma proposed_between (hc : s₀.Consistent) {key : ProposalKey}
    {tr₁ tr₂ tr₃ : List (BlockTimestamp × List PermissionLevel × MultisigAction α Hash)}
    {e₁ e₂ : BlockTimestamp × List PermissionLevel × MultisigAction α Hash}
    (h : TimedRun AnyStep t₀ s₀ (tr₁ ++ [e₁] ++ tr₂ ++ [e₂] ++ tr₃) t s)
    (h₁ : Executes key e₁.2) (h₂ : Executes key e₂.2) : ∃ e ∈ tr₂, Proposes key e.2 := by
  by_contra hno
  push Not at hno
  obtain ⟨t₂, s₂, hrun, -⟩ := h.split
  obtain ⟨-, t₁, s₁, hprior, -, host, hs⟩ := hrun.snoc_inv
  have hr := run_refines hc hprior key
  have hnone : history s₀ key (tr₁ ++ [e₁] ++ tr₂) = none := by
    rw [history, List.foldl_append]
    have h0 : (tr₁ ++ [e₁]).foldl (noteAction key) (found s₀ key) = none := by
      obtain ⟨x, hx⟩ := h₁
      simp [noteAction, hx]
    rw [h0]
    clear hprior hrun h hr
    induction tr₂ with
    | nil => rfl
    | cons e tr₂ ih =>
      rw [List.foldl_cons, noteAction_none (hno e (by simp))]
      exact ih fun e he => hno e (by simp [he])
  obtain ⟨now, signers, a⟩ := e₂
  obtain ⟨executer, rfl⟩ := h₂
  obtain ⟨sent, he⟩ := apply_exec_ok hs
  obtain ⟨prop, -, hp, -⟩ := exec_ok he
  obtain ⟨i, hi⟩ := hr.exists_of_lookup hp
  rw [hnone] at hi
  cases hi

/-- The tables of the contract refine the history of their proposals, in every run from
consistent tables. -/
theorem approvals_refine_history (hc : s₀.Consistent) (h : TimedRun AnyStep t₀ s₀ tr t s)
    (key : ProposalKey) :
    (s.approvalRows key ≤ 1 ∧ ((s.proposals.lookup key).isSome ↔ s.approvalRows key = 1) ∧
      ((s.proposals.lookup key).isSome ↔ (history s₀ key tr).isSome)) ∧
    (∀ i, history s₀ key tr = some i → (s.levels key).Perm i.given ∧
      ∀ handed, getApprovals key s = .ok handed → ∀ level ∈ handed, Granted s₀ s key tr i level) ∧
    ∀ tr₁ tr₂ tr₃ e₁ e₂, tr = tr₁ ++ [e₁] ++ tr₂ ++ [e₂] ++ tr₃ → Executes key e₁.2 →
      Executes key e₂.2 →
      ∃ e ∈ tr₂, Proposes key e.2 := by
  have hr := run_refines hc h key
  refine ⟨?_, fun i hi => ⟨?_, fun handed hg level hm => ?_⟩, fun tr₁ tr₂ tr₃ e₁ e₂ htr h₁ h₂ => ?_⟩
  · generalize history s₀ key tr = i at hr ⊢
    cases hr with
    | absent hp ha ho => simp [approvalRows, hp, ha, ho]
    | current hp ha ho => simp [approvalRows, hp, ha, ho]
    | old hp ha ho => simp [approvalRows, hp, ha, ho]
  · rw [hi] at hr
    cases hr with
    | current hp ha ho ht =>
      have hl := ht.lists
      simp only [ApprovalsInfo.provided, List.map_map, Function.comp_def] at hl
      simpa only [levels, ha] using hl
    | old hp ha ho hmap ht =>
      simp only [levels, ha, ho]
      rw [← hmap]
      exact ht.lists
  · rw [hi] at hr
    exact hr.granted h hg hm
  · rw [htr] at h
    exact proposed_between hc h h₁ h₂

end

/-- One level, named twice in the list given to `propose`, grants twice and takes one grant back. -/
def sampleLevel : PermissionLevel := ⟨systemAccount, systemAccount⟩

def sampleKey : ProposalKey := (systemAccount, systemAccount)

def sampleStart : BlockTimestamp := .zero

def sampleEnd : BlockTimestamp := ⟨4, by decide⟩

def sampleTrace : List (BlockTimestamp × List PermissionLevel × MultisigAction Unit Unit) :=
  [(⟨1, by decide⟩, [sampleLevel],
      .propose sampleKey [sampleLevel, sampleLevel] ⟨2 ^ 32 - 1, 0, [], [()]⟩),
    (⟨2, by decide⟩, [sampleLevel], .approve sampleKey sampleLevel none),
    (⟨3, by decide⟩, [sampleLevel], .approve sampleKey sampleLevel none),
    (sampleEnd, [sampleLevel], .unapprove sampleKey sampleLevel)]

def sampleHost : MultisigHost Unit Unit := ⟨fun _ levels => !levels.isEmpty, fun _ => ()⟩

def sampleExec (now : BlockTimestamp)
    (l : List PermissionLevel × MultisigAction Unit Unit) (s : Multisig Unit) :
    Except String (Multisig Unit) := apply sampleHost ⟨now, l.1⟩ s l.2

def noTables : Multisig Unit := ⟨∅, ∅, ∅, ∅⟩

def sampleState : Multisig Unit := stateAfter sampleExec sampleTrace noTables

lemma sample_run : TimedRun AnyStep sampleStart noTables sampleTrace sampleEnd sampleState := by
  have hok : (runAll sampleExec sampleTrace noTables).isOk = true := by decide +kernel
  have hchain : (sampleStart :: sampleTrace.map Prod.fst).IsChain (· ≤ ·) := by decide
  exact (timedRun_of_runAll sampleTrace hchain (runAll_stateAfter hok)).mono fun hs =>
    ⟨sampleHost, hs⟩

lemma noTables_consistent : noTables.Consistent := fun _ => rfl

/-- The level still counts for the proposal, which can be executed, although its last call
took a grant back. -/
theorem revoked_level_counts :
    TimedRun AnyStep sampleStart noTables sampleTrace sampleEnd sampleState ∧
    (getApprovals sampleKey sampleState).toOption = some [sampleLevel] ∧
    (exec sampleHost ⟨sampleEnd, [sampleLevel]⟩ sampleKey systemAccount sampleState).isOk = true ∧
    ((history noTables sampleKey sampleTrace).bind fun i => lastCall sampleLevel i.calls) =
      some ⟨sampleEnd.usec, sampleLevel, false⟩ :=
  ⟨sample_run, by decide +kernel, by decide +kernel, by decide +kernel⟩

/-- The proposal is executed, proposed and approved again, and executed again. -/
def againTrace : List (BlockTimestamp × List PermissionLevel × MultisigAction Unit Unit) :=
  [(⟨6, by decide⟩, [sampleLevel], .propose sampleKey [sampleLevel] ⟨2 ^ 32 - 1, 0, [], [()]⟩),
    (⟨7, by decide⟩, [sampleLevel], .approve sampleKey sampleLevel none)]

def executions : List (BlockTimestamp × List PermissionLevel × MultisigAction Unit Unit) :=
  sampleTrace ++ [(⟨5, by decide⟩, [sampleLevel], .exec sampleKey systemAccount)] ++ againTrace ++
    [(⟨8, by decide⟩, [sampleLevel], .exec sampleKey systemAccount)] ++ []

theorem sample_refines_history :
    (∃ i, history noTables sampleKey sampleTrace = some i ∧ sampleState.approvalRows sampleKey = 1 ∧
      (sampleState.levels sampleKey).Perm i.given ∧
      getApprovals sampleKey sampleState = .ok [sampleLevel] ∧
      Granted noTables sampleState sampleKey sampleTrace i sampleLevel) ∧
    ∃ e ∈ againTrace, Proposes sampleKey e.2 := by
  obtain ⟨⟨-, hrow, hhist⟩, hinst, -⟩ :=
    approvals_refine_history noTables_consistent sample_run sampleKey
  have hsome : (sampleState.proposals.lookup sampleKey).isSome = true := by decide +kernel
  obtain ⟨i, hi⟩ := Option.isSome_iff_exists.mp (hhist.mp hsome)
  obtain ⟨hperm, hgranted⟩ := hinst i hi
  have hg : getApprovals sampleKey sampleState = .ok [sampleLevel] :=
    ok_of_toOption (by decide +kernel)
  have hok : (runAll sampleExec executions noTables).isOk = true := by decide +kernel
  have hchain : (sampleStart :: executions.map Prod.fst).IsChain (· ≤ ·) := by decide
  have hrun : TimedRun AnyStep sampleStart noTables executions ⟨8, by decide⟩
    (stateAfter sampleExec executions noTables) :=
    (timedRun_of_runAll executions hchain (runAll_stateAfter hok)).mono fun hs => ⟨sampleHost, hs⟩
  refine ⟨⟨i, hi, hrow.mp hsome, hperm, hg, hgranted _ hg _ (List.mem_singleton_self _)⟩, ?_⟩
  exact (approvals_refine_history noTables_consistent hrun sampleKey).2.2 _ _ _ _ _ rfl ⟨_, rfl⟩
    ⟨_, rfl⟩

end Multisig
end TelosSystem
