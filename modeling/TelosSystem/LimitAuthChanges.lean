import TelosSystem.Multisig
import TelosSystem.System

/-! Restrictions on the changes of an account's authorities. With `limitauthchg` an account says which of
its permissions may change its authorities; the native actions on authorities check it. -/
namespace TelosSystem
open Ledger

def ownerPermission : Name := ⟨0xa726ab8000000000⟩

structure LimitAuthChange where
  allowPerms : List Name
  disallowPerms : List Name

abbrev AuthLimits := Table Name LimitAuthChange

def limitauthchg (ctx : MultisigContext) (account : Name) (allowPerms disallowPerms : List Name)
    (t : AuthLimits) : Except String AuthLimits := do
  ctx.requireName account
  check (allowPerms = [] ∨ disallowPerms = []) "either allow_perms or disallow_perms must be empty"
  check (allowPerms = [] ∨ ownerPermission ∈ allowPerms) "allow_perms does not contain owner"
  check (disallowPerms = [] ∨ ownerPermission ∉ disallowPerms) "disallow_perms contains owner"
  if allowPerms ≠ [] ∨ disallowPerms ≠ [] then pure (t.insert account ⟨allowPerms, disallowPerms⟩)
  else pure (t.erase account)

def requireAuthorizer (ctx : MultisigContext) (account authorizer : Name) : Except String Unit :=
  if authorizer ≠ Name.empty then ctx.requireLevel ⟨account, authorizer⟩ else .ok ()

/-- An absent `authorized_by` reads as the empty name. -/
def checkAuthChange (ctx : MultisigContext) (account : Name) (authorizedBy : Option Name)
    (t : AuthLimits) : Except String Unit := do
  let authorizer := authorizedBy.getD Name.empty
  requireAuthorizer ctx account authorizer
  match t.lookup account with
  | none => pure ()
  | some row => do
    check (authorizer ≠ Name.empty) "authorized_by is required for this account"
    if row.allowPerms ≠ [] then
      check (authorizer ∈ row.allowPerms) "authorized_by does not appear in allow_perms"
    else
      check (authorizer ∉ row.disallowPerms) "authorized_by appears in disallow_perms"

/-- The contract's part of a change that the chain carries out. -/
def changeAuth (ctx : MultisigContext) (account : Name) (authorizedBy : Option Name)
    (t : AuthLimits) : Except String AuthLimits := do
  checkAuthChange ctx account authorizedBy t
  pure t

def updateauth := changeAuth
def deleteauth := changeAuth
def linkauth := changeAuth
def unlinkauth := changeAuth

inductive AuthAction
  | limitauthchg (account : Name) (allowPerms disallowPerms : List Name)
  | updateauth (account : Name) (authorizedBy : Option Name)
  | deleteauth (account : Name) (authorizedBy : Option Name)
  | linkauth (account : Name) (authorizedBy : Option Name)
  | unlinkauth (account : Name) (authorizedBy : Option Name)

def AuthAction.exec (ctx : MultisigContext) : AuthAction → AuthLimits → Except String AuthLimits
  | .limitauthchg account allowPerms disallowPerms =>
    TelosSystem.limitauthchg ctx account allowPerms disallowPerms
  | .updateauth account authorizedBy => TelosSystem.updateauth ctx account authorizedBy
  | .deleteauth account authorizedBy => TelosSystem.deleteauth ctx account authorizedBy
  | .linkauth account authorizedBy => TelosSystem.linkauth ctx account authorizedBy
  | .unlinkauth account authorizedBy => TelosSystem.unlinkauth ctx account authorizedBy

/-- A change of authorities: the account, and the permission that is said to authorize it. -/
def AuthAction.change : AuthAction → Option (Name × Option Name)
  | .limitauthchg .. => none
  | .updateauth account authorizedBy => some (account, authorizedBy)
  | .deleteauth account authorizedBy => some (account, authorizedBy)
  | .linkauth account authorizedBy => some (account, authorizedBy)
  | .unlinkauth account authorizedBy => some (account, authorizedBy)

def authStep (now : BlockTimestamp) (l : List PermissionLevel × AuthAction) (t t' : AuthLimits) :
    Prop :=
  l.2.exec ⟨now, l.1⟩ t = .ok t'

/-- What an account can say: the permissions that may change its authorities, the owner among them. -/
structure Restriction where
  permits : Set Name
  owner : ownerPermission ∈ permits

/-- The permissions that two lists permit, if they restrict anything. -/
def permitted (allowPerms disallowPerms : List Name) : Option (Set Name) :=
  if allowPerms ≠ [] then some {p | p ∈ allowPerms}
  else if disallowPerms ≠ [] then some {p | p ∉ disallowPerms} else none

/-- A change is in order: its authorizer has signed, and the restriction, if there is one, permits it. -/
def InOrder (restriction : Option (Set Name)) (signers : List PermissionLevel)
    (account authorizer : Name) : Prop :=
  (authorizer ≠ Name.empty → ⟨account, authorizer⟩ ∈ signers) ∧
    ∀ permits ∈ restriction, authorizer ≠ Name.empty ∧ authorizer ∈ permits

def AuthLimits.restriction (t : AuthLimits) (account : Name) : Option (Set Name) :=
  (t.lookup account).bind fun row => permitted row.allowPerms row.disallowPerms

def AuthAction.chosen (account : Name) : AuthAction → Option (Option (Set Name))
  | .limitauthchg a allowPerms disallowPerms =>
    if a = account then some (permitted allowPerms disallowPerms) else none
  | _ => none

def lastChosen (account : Name) (tr : List (BlockTimestamp × List PermissionLevel × AuthAction)) :
    Option (Set Name) :=
  (tr.filterMap fun x => x.2.2.chosen account).getLast?.join

/-- The table holds rows that restrict something and that leave the owner in. -/
def AuthLimits.WellFormed (t : AuthLimits) : Prop :=
  ∀ account row, t.lookup account = some row →
    ∃ r : Restriction, permitted row.allowPerms row.disallowPerms = some r.permits

lemma AuthLimits.wellFormed_empty : AuthLimits.WellFormed ∅ := by
  intro account row hrow
  rw [AList.lookup_empty] at hrow
  cases hrow

section
variable {now : BlockTimestamp} {signers : List PermissionLevel} {account : Name}
    {t t' : AuthLimits}

lemma limitauthchg_ok {ctx : MultisigContext} {allowPerms disallowPerms : List Name} :
    limitauthchg ctx account allowPerms disallowPerms t = .ok t' ↔
      account ∈ ctx.signers.map PermissionLevel.actor ∧ (allowPerms = [] ∨ disallowPerms = []) ∧
      (allowPerms = [] ∨ ownerPermission ∈ allowPerms) ∧
      (disallowPerms = [] ∨ ownerPermission ∉ disallowPerms) ∧
      t' = if allowPerms ≠ [] ∨ disallowPerms ≠ [] then t.insert account ⟨allowPerms, disallowPerms⟩
        else t.erase account := by
  simp only [limitauthchg, MultisigContext.requireName, bind_ok, check_ok, exists_const]
  split_ifs <;> simp only [pure_ok, eq_comm (a := t')]

/-- Lists that `limitauthchg` accepts leave the owner in. -/
lemma permitted_owner {allowPerms disallowPerms : List Name}
    (hallow : allowPerms = [] ∨ ownerPermission ∈ allowPerms)
    (hdisallow : disallowPerms = [] ∨ ownerPermission ∉ disallowPerms)
    (hsome : allowPerms ≠ [] ∨ disallowPerms ≠ []) :
    ∃ r : Restriction, permitted allowPerms disallowPerms = some r.permits := by
  unfold permitted
  by_cases ha : allowPerms = []
  · have hd : disallowPerms ≠ [] := hsome.resolve_left (not_not.mpr ha)
    rw [if_neg (not_not.mpr ha), if_pos hd]
    exact ⟨⟨_, hdisallow.resolve_left hd⟩, rfl⟩
  · rw [if_pos ha]
    exact ⟨⟨_, hallow.resolve_left ha⟩, rfl⟩

lemma permitted_none {allowPerms disallowPerms : List Name}
    (h : ¬ (allowPerms ≠ [] ∨ disallowPerms ≠ [])) : permitted allowPerms disallowPerms = none := by
  rw [not_or] at h
  unfold permitted
  rw [if_neg h.1, if_neg h.2]

lemma limitauthchg_restriction {ctx : MultisigContext} {allowPerms disallowPerms : List Name}
    (h : limitauthchg ctx account allowPerms disallowPerms t = .ok t') (a : Name) :
    t'.restriction a =
      if a = account then permitted allowPerms disallowPerms else t.restriction a := by
  obtain ⟨-, -, -, -, rfl⟩ := limitauthchg_ok.1 h
  unfold AuthLimits.restriction
  by_cases hsome : allowPerms ≠ [] ∨ disallowPerms ≠ []
  · rw [if_pos hsome, Table.lookup_insert']
    split_ifs
    · rfl
    · rfl
  · rw [if_neg hsome, Table.lookup_erase', permitted_none hsome]
    split_ifs
    · rfl
    · rfl

lemma limitauthchg_wellFormed {ctx : MultisigContext} {allowPerms disallowPerms : List Name}
    (hw : t.WellFormed) (h : limitauthchg ctx account allowPerms disallowPerms t = .ok t') :
    t'.WellFormed := by
  obtain ⟨-, -, hallow, hdisallow, rfl⟩ := limitauthchg_ok.1 h
  intro a row hrow
  split_ifs at hrow with hsome
  · rw [Table.lookup_insert'] at hrow
    split_ifs at hrow
    · cases hrow
      exact permitted_owner hallow hdisallow hsome
    · exact hw a row hrow
  · rw [Table.lookup_erase'] at hrow
    split_ifs at hrow
    exact hw a row hrow

lemma requireAuthorizer_ok {ctx : MultisigContext} {authorizer : Name} {u : Unit} :
    requireAuthorizer ctx account authorizer = .ok u ↔
      (authorizer ≠ Name.empty → ⟨account, authorizer⟩ ∈ ctx.signers) := by
  unfold requireAuthorizer
  by_cases he : authorizer ≠ Name.empty
  · rw [if_pos he, MultisigContext.requireLevel, check_ok]
    exact ⟨fun h _ => h, fun h => h he⟩
  · rw [if_neg he]
    exact ⟨fun _ h => absurd h he, fun _ => rfl⟩

/-- The check accepts exactly what is in order. -/
lemma checkAuthChange_ok {authorizedBy : Option Name} {u : Unit} (hw : t.WellFormed) :
    checkAuthChange ⟨now, signers⟩ account authorizedBy t = .ok u ↔
      InOrder (t.restriction account) signers account (authorizedBy.getD Name.empty) := by
  unfold checkAuthChange InOrder AuthLimits.restriction
  generalize authorizedBy.getD Name.empty = authorizer
  simp only [bind_ok, requireAuthorizer_ok, exists_const]
  refine and_congr_right fun _ => ?_
  cases hl : t.lookup account with
  | none => simp
  | some row =>
    obtain ⟨r, hr⟩ := hw account row hl
    rw [Option.bind_some]
    unfold permitted at hr ⊢
    by_cases ha : row.allowPerms ≠ []
    · simp [ha, bind_ok]
    · by_cases hd : row.disallowPerms ≠ []
      · simp [ha, hd, bind_ok]
      · rw [if_neg ha, if_neg hd] at hr
        cases hr

/-- The four actions accept exactly what is in order. -/
lemma change_accepted (hw : t.WellFormed) {action : AuthAction} {authorizedBy : Option Name}
    (hc : action.change = some (account, authorizedBy)) :
    (∃ t', action.exec ⟨now, signers⟩ t = .ok t') ↔
      InOrder (t.restriction account) signers account (authorizedBy.getD Name.empty) := by
  have hchange : (∃ t', changeAuth ⟨now, signers⟩ account authorizedBy t = .ok t') ↔
      InOrder (t.restriction account) signers account (authorizedBy.getD Name.empty) := by
    simp only [changeAuth, bind_ok, checkAuthChange_ok hw, pure_ok, exists_const]
    constructor
    · rintro ⟨_, ha, -⟩
      exact ha
    · intro ha
      exact ⟨t, ha, rfl⟩
  cases action with
  | limitauthchg => cases hc
  | updateauth =>
    cases hc
    exact hchange
  | deleteauth =>
    cases hc
    exact hchange
  | linkauth =>
    cases hc
    exact hchange
  | unlinkauth =>
    cases hc
    exact hchange

/-- A step changes authorities, or is an account's word on its restriction. -/
lemma authStep_cases {l : List PermissionLevel × AuthAction} (h : authStep now l t t') :
    (t' = t ∧ ∀ a, l.2.chosen a = none) ∨
    ∃ a allowPerms disallowPerms, l.2 = .limitauthchg a allowPerms disallowPerms ∧
      limitauthchg ⟨now, l.1⟩ a allowPerms disallowPerms t = .ok t' := by
  obtain ⟨signers, action⟩ := l
  have hchange : ∀ a authorizedBy, changeAuth ⟨now, signers⟩ a authorizedBy t = .ok t' →
    t' = t := by
    intro a authorizedBy h
    simp only [changeAuth, bind_ok, pure_ok] at h
    obtain ⟨-, -, rfl⟩ := h
    rfl
  cases action with
  | limitauthchg a allowPerms disallowPerms => exact Or.inr ⟨a, allowPerms, disallowPerms, rfl, h⟩
  | updateauth a authorizedBy => exact Or.inl ⟨hchange a authorizedBy h, fun _ => rfl⟩
  | deleteauth a authorizedBy => exact Or.inl ⟨hchange a authorizedBy h, fun _ => rfl⟩
  | linkauth a authorizedBy => exact Or.inl ⟨hchange a authorizedBy h, fun _ => rfl⟩
  | unlinkauth a authorizedBy => exact Or.inl ⟨hchange a authorizedBy h, fun _ => rfl⟩

lemma lastChosen_snoc (account : Name)
    (tr : List (BlockTimestamp × List PermissionLevel × AuthAction))
    (x : BlockTimestamp × List PermissionLevel × AuthAction) :
    lastChosen account (tr ++ [x]) = (x.2.2.chosen account).getD (lastChosen account tr) := by
  unfold lastChosen
  rw [List.filterMap_append]
  cases hc : x.2.2.chosen account <;> simp [hc]

variable {t₀ time : BlockTimestamp} {tr : List (BlockTimestamp × List PermissionLevel × AuthAction)}
    {limits : AuthLimits}

/-- The table says what the accounts have said last. -/
theorem restriction_lastChosen (h : TimedRun authStep t₀ ∅ tr time limits) :
    limits.WellFormed ∧ ∀ a, limits.restriction a = lastChosen a tr := by
  refine h.invariant (fun tr _ limits => limits.WellFormed ∧
    ∀ a, limits.restriction a = lastChosen a tr)
    (fun _ => True) ⟨AuthLimits.wellFormed_empty, fun _ => rfl⟩ (fun hi _ _ hs => ?_) fun _ _ =>
      trivial
  obtain ⟨hw, hr⟩ := hi
  rcases authStep_cases hs with ⟨rfl, hnone⟩ | ⟨a, allowPerms, disallowPerms, hl, hlimit⟩
  · refine ⟨hw, fun a => ?_⟩
    rw [lastChosen_snoc, hnone a, Option.getD_none, hr a]
  · refine ⟨limitauthchg_wellFormed hw hlimit, fun b => ?_⟩
    rw [lastChosen_snoc, limitauthchg_restriction hlimit, hl, AuthAction.chosen, hr b]
    by_cases hb : b = a
    · rw [if_pos hb, if_pos hb.symm, Option.getD_some]
    · rw [if_neg hb, if_neg (Ne.symm hb), Option.getD_none]

/-- After every run a change of an account's authorities is accepted exactly if its authorizer has
signed it and belongs to the permissions that the account named last. -/
theorem auth_change_accepted (h : TimedRun authStep t₀ ∅ tr time limits) {action : AuthAction}
    {authorizedBy : Option Name} (hc : action.change = some (account, authorizedBy)) :
    (∃ limits', action.exec ⟨now, signers⟩ limits = .ok limits') ↔
      InOrder (lastChosen account tr) signers account (authorizedBy.getD Name.empty) := by
  obtain ⟨hw, hr⟩ := restriction_lastChosen h
  rw [← hr account]
  exact change_accepted hw hc

/-- No account locks itself out: its owner permission can always change its authorities and lift the
restriction. -/
theorem owner_not_locked_out (h : TimedRun authStep t₀ ∅ tr time limits)
    (hs : ⟨account, ownerPermission⟩ ∈ signers) :
    (∀ action : AuthAction, action.change = some (account, some ownerPermission) →
      ∃ limits', action.exec ⟨now, signers⟩ limits = .ok limits') ∧
    ∃ limits', limitauthchg ⟨now, signers⟩ account [] [] limits = .ok limits' ∧
      AuthLimits.restriction limits' account = none := by
  obtain ⟨hw, -⟩ := restriction_lastChosen h
  have horder : InOrder (limits.restriction account) signers account ownerPermission := by
    refine ⟨fun _ => hs, fun permits hp => ⟨by decide, ?_⟩⟩
    obtain ⟨row, hrow, hpermits⟩ := Option.bind_eq_some_iff.1 hp
    obtain ⟨r, hr⟩ := hw account row hrow
    rw [hr] at hpermits
    cases hpermits
    exact r.owner
  have hlift : limitauthchg ⟨now, signers⟩ account [] [] limits = .ok (limits.erase account) :=
    limitauthchg_ok.2 ⟨List.mem_map.2 ⟨_, hs, rfl⟩, Or.inl rfl, Or.inl rfl, Or.inl rfl, rfl⟩
  refine ⟨fun action hc => (change_accepted hw hc).2 horder, _, hlift, ?_⟩
  rw [limitauthchg_restriction hlift, if_pos rfl]
  rfl

/-- A restriction has been in force since the account itself named it. -/
theorem restricted_since (h : TimedRun authStep t₀ ∅ tr time limits) {permits : Set Name}
    (hp : limits.restriction account = some permits) :
    HeldSince authStep (fun _ l _ _ => account ∈ l.1.map PermissionLevel.actor ∧
      l.2.chosen account = some (some permits))
      (fun limits => AuthLimits.restriction limits account = some permits) t₀ ∅ tr time limits := by
  refine h.heldSince (I := AuthLimits.WellFormed) (fun hw hs => ?_) (fun hw hs hno hyes => ?_)
    AuthLimits.wellFormed_empty
    (by simp [AuthLimits.restriction]) hp
  · rcases authStep_cases hs with ⟨rfl, -⟩ | ⟨a, allowPerms, disallowPerms, -, hlimit⟩
    · exact hw
    · exact limitauthchg_wellFormed hw hlimit
  · rcases authStep_cases hs with ⟨rfl, -⟩ | ⟨a, allowPerms, disallowPerms, hl, hlimit⟩
    · exact absurd hyes hno
    · rw [limitauthchg_restriction hlimit] at hyes
      by_cases ha : account = a
      · rw [if_pos ha] at hyes
        subst ha
        rw [hl, AuthAction.chosen, if_pos rfl, hyes]
        exact ⟨(limitauthchg_ok.1 hlimit).1, rfl⟩
      · rw [if_neg ha] at hyes
        exact absurd hyes hno

end

def activePermission : Name := ⟨0x3232eda800000000⟩

def freebiePermission : Name := ⟨0x5dd4a3b940000000⟩

/-- Alice keeps her changes to two permissions. -/
def guardedTrace : List (BlockTimestamp × List PermissionLevel × AuthAction) :=
  [(launchTime, [⟨alice, activePermission⟩],
    .limitauthchg alice [ownerPermission, activePermission] []),
    (launchTime, [⟨alice, activePermission⟩], .updateauth alice (some activePermission))]

def guardedLimits : AuthLimits :=
  stateAfter (fun now (l : List PermissionLevel × AuthAction) => l.2.exec ⟨now, l.1⟩) guardedTrace ∅

lemma guardedTrace_run : TimedRun authStep launchTime ∅ guardedTrace launchTime guardedLimits :=
  timedRun_of_runAll guardedTrace (by decide) (runAll_stateAfter (by decide))

theorem alice_guarded :
    (∃ limits', (AuthAction.updateauth alice (some activePermission)).exec
      ⟨launchTime, [⟨alice, activePermission⟩]⟩
      guardedLimits = .ok limits') ∧
    ¬ ∃ limits', (AuthAction.updateauth alice (some freebiePermission)).exec
      ⟨launchTime, [⟨alice, freebiePermission⟩]⟩
      guardedLimits = .ok limits' := by
  have hlast : lastChosen alice guardedTrace = some {p | p ∈ [ownerPermission, activePermission]} :=
    rfl
  constructor
  · apply (auth_change_accepted guardedTrace_run rfl).2
    rw [hlast]
    refine ⟨fun _ => List.mem_singleton.2 rfl, fun permits hp => ?_⟩
    cases hp
    exact ⟨by decide, by simp⟩
  · intro h
    have horder := (auth_change_accepted guardedTrace_run rfl).1 h
    rw [hlast] at horder
    have hmem : freebiePermission ∈ [ownerPermission, activePermission] := (horder.2 _ rfl).2
    exact absurd hmem (by decide)

theorem alice_not_locked_out :
    (∀ action : AuthAction, action.change = some (alice, some ownerPermission) →
      ∃ limits', action.exec ⟨launchTime, [⟨alice, ownerPermission⟩]⟩ guardedLimits = .ok limits') ∧
    ∃ limits', limitauthchg ⟨launchTime, [⟨alice, ownerPermission⟩]⟩ alice [] [] guardedLimits =
      .ok limits' ∧
      AuthLimits.restriction limits' alice = none :=
  owner_not_locked_out guardedTrace_run (List.mem_singleton.2 rfl)

theorem alice_restricted : HeldSince authStep
    (fun _ l _ _ => alice ∈ l.1.map PermissionLevel.actor ∧
      l.2.chosen alice = some (some {p | p ∈ [ownerPermission, activePermission]}))
    (fun limits => AuthLimits.restriction limits alice =
      some {p | p ∈ [ownerPermission, activePermission]})
    launchTime ∅ guardedTrace launchTime guardedLimits :=
  restricted_since guardedTrace_run rfl

end TelosSystem
