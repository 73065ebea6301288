import TelosSystem.AccountSafety

/-! The limits of an account. Of the three resources of an account some are managed by hand; for the
others the chain enforces what the account has staked, rented and bought. -/
namespace TelosSystem
open Ledger

inductive Resource
  | ram
  | net
  | cpu
  deriving DecidableEq

namespace Resource

def field : Resource → UInt32
  | ram => ramManaged
  | net => netManaged
  | cpu => cpuManaged

def limit (l : ResourceLimits) : Resource → ℤ
  | ram => l.ramBytes
  | net => l.net
  | cpu => l.cpu

def setter (account : Name) (value : Option ℤ) : Resource → Action
  | ram => .setacctram account value
  | net => .setacctnet account value
  | cpu => .setacctcpu account value

end Resource

namespace AccountView

def managed (v : AccountView) : Resource → Bool
  | .ram => v.ramManaged
  | .net => v.netManaged
  | .cpu => v.cpuManaged

/-- Limits that are not managed are those of the totals. The RAM limit stays zero until something is
bought or staked. -/
structure Coherent (v : AccountView) : Prop where
  net : v.netManaged = false → v.limits.net = v.net
  cpu : v.cpuManaged = false → v.limits.cpu = v.cpu
  ram : v.ramManaged = false → v.limits.ramBytes = v.ram + ramGiftBytes ∨ v.ram = 0 ∧
    v.limits.ramBytes = 0

variable {v v' : AccountView}

lemma Coherent.move (h : v.Coherent) (hm : ViewMove v v') : v'.Coherent := by
  cases hm with
  | rent net cpu =>
    unfold restaked
    constructor <;> dsimp only <;> intro hf
    · simp [hf]
    · simp [hf]
    · split_ifs <;> exact h.ram hf
  | stake net cpu =>
    have hram : v.ramManaged = false → v.stakedRam = v.ram + ramGiftBytes := by
      intro hf
      unfold stakedRam
      rw [hf, if_neg Bool.false_ne_true]
      rcases h.ram hf with hr | ⟨hz, hr⟩
      · rw [hr, max_self]
      · rw [hz, hr]
        rfl
    unfold restaked
    constructor <;> dsimp only <;> intro hf
    · simp [hf]
    · simp [hf]
    · by_cases hboth : (v.netManaged && v.cpuManaged) = true
      · rw [if_pos hboth]
        exact h.ram hf
      · rw [if_neg hboth]
        exact Or.inl (hram hf)
  | trade ram nonneg =>
    unfold traded
    constructor <;> dsimp only <;> intro hf
    · split_ifs <;> exact h.net hf
    · split_ifs <;> exact h.cpu hf
    · rw [if_neg (by simp [hf])]
      exact Or.inl rfl

lemma Coherent.moves (h : v.Coherent) (hm : ViewMoves v v') : v'.Coherent := by
  induction hm with
  | refl => exact h
  | tail _ hstep ih => exact ih.move hstep

structure Steady (v v' : AccountView) : Prop where
  managed : ∀ r, v'.managed r = v.managed r
  limit : ∀ r, v.managed r = true → r.limit v'.limits = r.limit v.limits

lemma Steady.refl (v : AccountView) : Steady v v := ⟨fun _ => rfl, fun _ _ => rfl⟩

lemma Steady.trans {v'' : AccountView} (h : Steady v v') (h' : Steady v' v'') : Steady v v'' :=
  ⟨fun r => (h'.managed r).trans (h.managed r),
    fun r hr => (h'.limit r ((h.managed r).trans hr)).trans (h.limit r hr)⟩

lemma Steady.of_move (hm : ViewMove v v') : Steady v v' := by
  cases hm with
  | rent net cpu =>
    constructor
    · intro r
      cases r <;> rfl
    · intro r hr
      unfold restaked
      cases r <;> simp only [AccountView.managed] at hr <;> simp only [Resource.limit] <;>
        split_ifs <;> simp_all
  | stake net cpu =>
    constructor
    · intro r
      cases r <;> rfl
    · intro r hr
      unfold restaked stakedRam
      cases r <;> simp only [AccountView.managed] at hr <;> simp only [Resource.limit] <;>
        split_ifs <;> simp_all
  | trade ram nonneg =>
    constructor
    · intro r
      cases r <;> rfl
    · intro r hr
      unfold traded
      cases r <;> simp only [AccountView.managed] at hr <;> simp only [Resource.limit] <;>
        split_ifs <;> simp_all

lemma Steady.of_moves (hm : ViewMoves v v') : Steady v v' := by
  induction hm with
  | refl => exact Steady.refl v
  | tail _ hstep ih => exact ih.trans (Steady.of_move hstep)

end AccountView

lemma or_and_of_disjoint (a : UInt32) {b c : UInt32} (h : b &&& c = 0) :
    (a ||| b) &&& c = a &&& c := by
  have hdistrib : (a ||| b) &&& c = (a &&& c) ||| (b &&& c) := by
    apply UInt32.toBitVec_inj.1
    ext i hi
    simp [Bool.and_or_distrib_right]
  rw [hdistrib, h, UInt32.or_zero]

lemma or_and_right (a b : UInt32) : (a ||| b) &&& b = b := by
  apply UInt32.toBitVec_inj.1
  ext i hi
  simpa using Or.inr

lemma hasField_setField (flags : UInt32) (r r' : Resource) (b : Bool) :
    hasField (setField flags r.field b) r'.field =
      if r' = r then b else hasField flags r'.field := by
  unfold hasField setField
  by_cases hr : r' = r
  · subst hr
    rw [if_pos rfl]
    cases b with
    | true =>
      rw [if_pos rfl, or_and_right]
      cases r' <;> rfl
    | false =>
      have hclear : ~~~ r'.field &&& r'.field = 0 := by cases r' <;> decide
      rw [if_neg Bool.false_ne_true, UInt32.and_assoc, hclear, UInt32.and_zero]
      rfl
  · rw [if_neg hr]
    cases b with
    | true =>
      have hdisjoint : r.field &&& r'.field =
        0 := by cases r <;> cases r' <;> first | decide | exact absurd rfl hr
      rw [if_pos rfl, or_and_of_disjoint flags hdisjoint]
    | false =>
      have hother : ~~~ r.field &&& r'.field = r'.field := by
        cases r <;> cases r' <;> first | decide | exact absurd rfl hr
      rw [if_neg Bool.false_ne_true, UInt32.and_assoc, hother]

lemma setFlag_managed (v : Voting) (account a : Name) (r r' : Resource) (b : Bool) :
    managed (v.setFlag account r.field b) a r'.field =
      if a = account ∧ r' = r then b else managed v a r'.field := by
  have hrow : ∀ row : VoterInfo, hasField row.flags1 r'.field = managed v account r'.field →
      managed (v.setVoter account { row with flags1 := setField row.flags1 r.field b }) a r'.field =
        if a = account ∧ r' = r then b else managed v a r'.field := by
    intro row hsame
    rw [managed_eq]
    unfold Voting.setVoter
    rw [Table.lookup_insert']
    by_cases ha : a = account
    · subst ha
      rw [if_pos rfl, Option.map_some, Option.getD_some]
      dsimp only
      rw [hasField_setField, hsame]
      simp only [true_and]
    · rw [if_neg ha, if_neg fun h => ha h.1, managed_eq]
  unfold Voting.setFlag
  cases hl : v.voters.lookup account with
  | none =>
    refine hrow {} ?_
    rw [managed_eq, hl]
    cases r' <;> decide
  | some row =>
    refine hrow row ?_
    rw [managed_eq, hl]
    rfl

namespace AccountView

def total (v : AccountView) : Resource → ℤ
  | .ram => ramGiftBytes + v.ram
  | .net => v.net
  | .cpu => v.cpu

/-- One resource taken into management or given back, at a limit. -/
def assigned (v : AccountView) (b : Bool) (x : ℤ) : Resource → AccountView
  | .ram => { v with ramManaged := b, limits := { v.limits with ramBytes := x } }
  | .net => { v with netManaged := b, limits := { v.limits with net := x } }
  | .cpu => { v with cpuManaged := b, limits := { v.limits with cpu := x } }

def created (v : AccountView) : AccountView :=
  { v with limits := ⟨0, 0, 0⟩, net := 0, cpu := 0, ram := 0 }

variable (v : AccountView) (b : Bool) (x : ℤ)

lemma assigned_managed (r r' : Resource) :
    (v.assigned b x r).managed r' = if r' = r then b else v.managed r' := by
  cases r <;> cases r' <;> rfl

lemma assigned_limit (r r' : Resource) :
    r'.limit (v.assigned b x r).limits = if r' = r then x else r'.limit v.limits := by
  cases r <;> cases r' <;> rfl

variable {v b x}

lemma Coherent.assigned (h : v.Coherent) {r : Resource} (hx : b = false → x = v.total r) :
    (v.assigned b x r).Coherent := by
  cases r with
  | ram => exact ⟨h.net, h.cpu, fun hb => Or.inl ((hx hb).trans (add_comm _ _))⟩
  | net => exact ⟨fun hb => hx hb, h.cpu, h.ram⟩
  | cpu => exact ⟨h.net, fun hb => hx hb, h.ram⟩

lemma created_coherent (v : AccountView) : v.created.Coherent :=
  ⟨fun _ => rfl, fun _ => rfl, fun _ => Or.inr ⟨rfl, rfl⟩⟩

end AccountView

inductive AdminMove (l : Label) (s s' : State) : Prop
  | created (creator name : Name) (action : l.action = .newaccount creator name)
      (unused : s.isAccount name = false)
      (accounts : s'.isAccount = Function.update s.isAccount name true)
      (views : ∀ a, s'.view a = if a = name then (s.view a).created else s.view a)
  | limited (account : Name) (ram net cpu : ℤ) (action : l.action = .setalimits account ram net cpu)
      (accounts : s'.isAccount = s.isAccount) (unmanaged : ∀ r, (s.view account).managed r = false)
      (views : ∀ a, s'.view a =
        if a = account then { s.view a with limits := ⟨ram, net, cpu⟩ } else s.view a)
  | assigned (r : Resource) (account : Name) (value : Option ℤ)
      (action : l.action = r.setter account value)
      (auth : systemAccount ∈ l.auth) (accounts : s'.isAccount = s.isAccount)
        (exists_ : s.isAccount account = true)
      (views : ∀ a, s'.view a = if a = account then (s.view a).assigned value.isSome
        (value.getD ((s.view account).total r)) r else s.view a)

section
variable {now : BlockTimestamp} {s s' : State}

lemma view_managed (s : State) (a : Name) (r : Resource) :
    (s.view a).managed r = managed s.voting a r.field := by
  cases r <;> rfl

/-- A flag and the limits of one account. -/
lemma setLimits_view (s : State) (account : Name) (r : Resource) (b : Bool) (x : ℤ)
    (limits : ResourceLimits) (hl : limits = ((s.view account).assigned b x r).limits) (a : Name) :
    (({ s with voting := s.voting.setFlag account r.field b } : State).setLimits
      account limits).view a =
      if a = account then (s.view a).assigned b x r else s.view a := by
  have hram : managed (s.voting.setFlag account r.field b) a ramManaged =
      if a = account ∧ Resource.ram = r then b else managed s.voting a ramManaged :=
      setFlag_managed _ _ _ _ .ram _
  have hnet : managed (s.voting.setFlag account r.field b) a netManaged =
      if a = account ∧ Resource.net = r then b else managed s.voting a netManaged :=
      setFlag_managed _ _ _ _ .net _
  have hcpu : managed (s.voting.setFlag account r.field b) a cpuManaged =
      if a = account ∧ Resource.cpu = r then b else managed s.voting a cpuManaged :=
      setFlag_managed _ _ _ _ .cpu _
  subst hl
  unfold State.view State.setLimits
  dsimp only
  rw [hram, hnet, hcpu]
  by_cases ha : a = account
  · subst ha
    cases r <;> simp [AccountView.assigned, totalWeight, ramBytesOf]
  · simp [ha, totalWeight, ramBytesOf]

lemma manageResource_assigned {ctx : Context} {account : Name} {field : UInt32} {value : Option ℤ}
    {lowest limit : ℤ} {alreadyUnmanaged invalid : String} {unmanaged : Option UserResources → ℤ}
    {current : ResourceLimits}
    (h : manageResource ctx account field value lowest alreadyUnmanaged invalid unmanaged s =
      .ok (current, limit, s')) :
    systemAccount ∈ ctx.auth ∧ s.isAccount account = true ∧ current = s.resources.limits account ∧
      limit = value.getD (unmanaged (s.resources.userres.lookup account)) ∧
      s' = { s with voting := s.voting.setFlag account field value.isSome } := by
  simp only [manageResource, getResourceLimits, bind_ok, requireAuth_ok, check_ok,
    exists_const, pure_ok] at h
  obtain ⟨ha, l, ⟨hacc, hl⟩, h⟩ := h
  subst hl
  cases value <;>
  · simp only [bind_ok, check_ok, exists_const, pure_ok, Prod.mk.injEq] at h
    obtain ⟨-, rfl, rfl, rfl⟩ := h
    exact ⟨ha, hacc, rfl, rfl, rfl⟩

variable [FloatOps]

theorem step.adminMove {l : Label} (h : step now l s s') (ha : l.action.Administers) :
    AdminMove l s s' := by
  obtain ⟨auth, action⟩ := l
  unfold step at h
  cases action with
  | newaccount creator newAccountName =>
    simp only [exec, newaccount, bind_ok, check_ok, exists_const, pure_ok] at h
    obtain ⟨-, -, -, -, hunused, s₁, h₁, hrow, rfl⟩ := h
    obtain ⟨auctions, rfl⟩ := claimName_ok h₁
    refine AdminMove.created creator newAccountName rfl hunused rfl fun a => ?_
    unfold State.view State.setLimits
    dsimp only
    by_cases hn : a = newAccountName
    · subst hn
      simp [AccountView.created, totalWeight, ramBytesOf, Table.valueAt]
    · simp [totalWeight, ramBytesOf, Table.valueAt, AList.lookup_insert_ne hn, hn]
  | setalimits account ram net cpu =>
    simp only [exec, setalimits, bind_ok, check_ok, exists_const, pure_ok] at h
    obtain ⟨-, -, -, ⟨hr, hn, hc⟩, -, rfl⟩ := h
    refine AdminMove.limited account ram net cpu rfl rfl (fun r => ?_) fun a => ?_
    · cases r
      · exact hr
      · exact hn
      · exact hc
    · unfold State.view State.setLimits
      by_cases hn : a = account
      · subst hn
        simp [totalWeight, ramBytesOf]
      · simp [hn, totalWeight, ramBytesOf]
  | setacctram account ramBytes =>
    simp only [exec, setacctram, bind_ok, pure_ok] at h
    obtain ⟨⟨current, limit, s₁⟩, h₁, rfl⟩ := h
    obtain ⟨hauth, hacc, rfl, rfl, rfl⟩ := manageResource_assigned h₁
    have htotal : ramGiftBytes +
      ((s.resources.userres.lookup account).map UserResources.ramBytes).getD 0 =
        (s.view account).total .ram := by
      unfold AccountView.total State.view ramBytesOf Table.valueAt
      cases hl : s.resources.userres.lookup account <;> simp
    rw [htotal]
    exact AdminMove.assigned .ram account ramBytes rfl hauth rfl hacc
      (setLimits_view s account .ram _ _ _ rfl)
  | setacctnet account netWeight =>
    simp only [exec, setacctnet, bind_ok, pure_ok] at h
    obtain ⟨⟨current, limit, s₁⟩, h₁, rfl⟩ := h
    obtain ⟨hauth, hacc, rfl, rfl, rfl⟩ := manageResource_assigned h₁
    have htotal : ((s.resources.userres.lookup account).map UserResources.netWeight).getD 0 =
        (s.view account).total .net := by
      unfold AccountView.total State.view totalWeight Table.valueAt
      cases hl : s.resources.userres.lookup account <;> simp
    rw [htotal]
    exact AdminMove.assigned .net account netWeight rfl hauth rfl hacc
      (setLimits_view s account .net _ _ _ rfl)
  | setacctcpu account cpuWeight =>
    simp only [exec, setacctcpu, bind_ok, pure_ok] at h
    obtain ⟨⟨current, limit, s₁⟩, h₁, rfl⟩ := h
    obtain ⟨hauth, hacc, rfl, rfl, rfl⟩ := manageResource_assigned h₁
    have htotal : ((s.resources.userres.lookup account).map UserResources.cpuWeight).getD 0 =
        (s.view account).total .cpu := by
      unfold AccountView.total State.view totalWeight Table.valueAt
      cases hl : s.resources.userres.lookup account <;> simp
    rw [htotal]
    exact AdminMove.assigned .cpu account cpuWeight rfl hauth rfl hacc
      (setLimits_view s account .cpu _ _ _ rfl)
  | _ => exact ha.elim

theorem step.protected {l : Label} (h : step now l s s') (ha : ¬ l.action.Administers) :
    ∃ pays, Protected pays s s' := by
  by_cases hu : l.action.Unstakes
  · obtain ⟨auth, action⟩ := l
    unfold step at h
    cases action with
    | delegatebw source receiver net cpu transfer =>
      simp only [exec, delegatebw, stakeAmounts, bind_ok, check_ok, exists_const] at h
      obtain ⟨⟨-, hcpu, -, hnet, -⟩, -, h⟩ := h
      exact ⟨_, changebw_protected (changebw_auth h) (fun _ => ⟨hnet, hcpu⟩) h⟩
    | undelegatebw source receiver net cpu =>
      simp only [exec, undelegatebw, bind_ok, check_ok, exists_const] at h
      obtain ⟨-, -, -, h⟩ := h
      exact ⟨_, changebw_protected (changebw_auth h) (fun ht => absurd ht Bool.false_ne_true) h⟩
    | refund owner =>
      simp only [exec, refund, bind_ok, pure_ok] at h
      obtain ⟨-, -, r, -, -, -, s₁, h₁, rfl⟩ := h
      have hpaid : Protected (stakeAccount = ·) s s₁ := (inlineTransfer_ordinary rfl h₁).toProtected
      exact ⟨_, hpaid.trans (Protected.refunds _ s₁ _ _)⟩
    | _ => exact hu.elim
  · exact ⟨_, (h.ordinary hu ha).toProtected⟩

omit [FloatOps] in
/-- What an action gives for a resource of an account: a value, or the end of its management. -/
def Resource.given (a : Name) : Resource → Action → Option (Option ℤ)
  | .ram, .setacctram account value => if account = a then some value else none
  | .net, .setacctnet account value => if account = a then some value else none
  | .cpu, .setacctcpu account value => if account = a then some value else none
  | _, _ => none

/-- The value that a trace gave last, unless it ended the management since. -/
def Resource.lastGiven (r : Resource) (a : Name) (tr : List (BlockTimestamp × Label)) : Option ℤ :=
  (tr.filterMap fun x => r.given a x.2.action).getLast?.join

omit [FloatOps] in
lemma Resource.lastGiven_snoc (r : Resource) (a : Name) (tr : List (BlockTimestamp × Label))
    (t : BlockTimestamp) (l : Label) :
    r.lastGiven a (tr ++ [(t, l)]) = (r.given a l.action).getD (r.lastGiven a tr) := by
  unfold Resource.lastGiven
  rw [List.filterMap_append]
  cases hg : r.given a l.action <;> simp [hg]

omit [FloatOps] in
lemma Resource.given_setter (r r' : Resource) (a account : Name) (value : Option ℤ) :
    r'.given a (r.setter account value) = if a = account ∧ r' = r then some value else none := by
  cases r <;> cases r' <;> simp [Resource.given, Resource.setter, eq_comm]

omit [FloatOps] in
lemma Resource.given_none (r : Resource) (a : Name) {action : Action} (h : ¬ action.Administers) :
    r.given a action = none := by
  cases action <;> first | exact absurd trivial h | (cases r <;> rfl)

/-- The limits of an account, as a trace gave them or as the totals say. -/
structure Accounted (a : Name) (tr : List (BlockTimestamp × Label)) (s : State) : Prop where
  unmanaged : s.isAccount a = false → ∀ r, (s.view a).managed r = false
  coherent : s.isAccount a = true → (s.view a).Coherent
  managed : ∀ r, (s.view a).managed r = (r.lastGiven a tr).isSome
  limit : ∀ (r : Resource) (x : ℤ), r.lastGiven a tr = some x → r.limit (s.view a).limits = x

omit [FloatOps] in
/-- A step that gives nothing, keeps the flags, and keeps the limits that are managed. -/
lemma Accounted.steady {a : Name} {tr : List (BlockTimestamp × Label)} {t : BlockTimestamp}
    {l : Label} (h : Accounted a tr s) (hacc : s'.isAccount a = s.isAccount a)
    (hsteady : (s.view a).Steady (s'.view a))
    (hcoherent : (s.view a).Coherent → (s'.view a).Coherent)
    (hnone : ∀ r : Resource, r.given a l.action = none) : Accounted a (tr ++ [(t, l)]) s' where
  unmanaged hn r := (hsteady.managed r).trans (h.unmanaged (hacc ▸ hn) r)
  coherent hy := hcoherent (h.coherent (hacc ▸ hy))
  managed r := by
    rw [hsteady.managed r, h.managed r, Resource.lastGiven_snoc, hnone r, Option.getD_none]
  limit r x hx := by
    rw [Resource.lastGiven_snoc, hnone r, Option.getD_none] at hx
    have hm : (s.view a).managed r = true := by rw [h.managed r, hx, Option.isSome_some]
    exact (hsteady.limit r hm).trans (h.limit r x hx)

lemma Accounted.step {a : Name} {tr : List (BlockTimestamp × Label)} {l : Label}
    (h : Accounted a tr s) (hl : ∀ ram net cpu, l.action ≠ .setalimits a ram net cpu)
    (hs : TelosSystem.step now l s s') : Accounted a (tr ++ [(now, l)]) s' := by
  by_cases had : l.action.Administers
  · cases hs.adminMove had with
    | created creator name action unused accounts views =>
      have hnone : ∀ r : Resource, r.given a l.action = none := by
        intro r
        rw [action]
        cases r <;> rfl
      have hview := views a
      by_cases hn : a = name
      · subst hn
        rw [if_pos rfl] at hview
        have hfree := h.unmanaged unused
        have hlast : ∀ r : Resource, r.lastGiven a (tr ++ [(now, l)]) = none := by
          intro r
          rw [Resource.lastGiven_snoc, hnone r,
            Option.getD_none, ← Option.not_isSome_iff_eq_none, ← h.managed r,
            hfree r]
          exact Bool.false_ne_true
        have hmanaged : ∀ r, (s'.view a).managed r = false := by
          intro r
          rw [hview, ← hfree r]
          cases r <;> rfl
        refine ⟨fun _ => hmanaged, fun _ => ?_, fun r => ?_, fun r x hx => ?_⟩
        · rw [hview]
          exact AccountView.created_coherent _
        · rw [hmanaged r, hlast r, Option.isSome_none]
        · rw [hlast r] at hx
          exact absurd hx (by simp)
      · rw [if_neg hn] at hview
        refine h.steady ?_ (by rw [hview]; exact AccountView.Steady.refl _)
          (by rw [hview]; exact id) hnone
        rw [accounts, Function.update_of_ne hn]
    | limited account ram net cpu action accounts unmanaged views =>
      have hn : a ≠ account := fun he => hl ram net cpu (by rw [action, he])
      have hview := views a
      rw [if_neg hn] at hview
      refine h.steady (by rw [accounts]) (by rw [hview]; exact AccountView.Steady.refl _)
        (by rw [hview]; exact id) ?_
      intro r
      rw [action]
      cases r <;> rfl
    | assigned r account value action auth accounts exists_ views =>
      have hview := views a
      by_cases hn : a = account
      · subst hn
        rw [if_pos rfl] at hview
        have hlast : ∀ r' : Resource,
            r'.lastGiven a (tr ++ [(now, l)]) = if r' = r then value else r'.lastGiven a tr := by
          intro r'
          rw [Resource.lastGiven_snoc, action, Resource.given_setter]
          by_cases hr : r' = r
          · rw [if_pos ⟨rfl, hr⟩, if_pos hr, Option.getD_some]
          · rw [if_neg fun h => hr h.2, if_neg hr, Option.getD_none]
        refine ⟨fun hno => ?_, fun _ => ?_, fun r' => ?_, fun r' x hx => ?_⟩
        · rw [accounts, exists_] at hno
          exact absurd hno (by simp)
        · rw [hview]
          refine (h.coherent exists_).assigned fun hv => ?_
          rw [Option.isSome_eq_false_iff, Option.isNone_iff_eq_none] at hv
          rw [hv, Option.getD_none]
        · rw [hview, AccountView.assigned_managed, hlast r', h.managed r']
          split_ifs <;> rfl
        · rw [hlast r'] at hx
          rw [hview, AccountView.assigned_limit]
          by_cases hr : r' = r
          · rw [if_pos hr] at hx ⊢
            rw [hx, Option.getD_some]
          · rw [if_neg hr] at hx ⊢
            exact h.limit r' x hx
      · rw [if_neg hn] at hview
        refine h.steady (by rw [accounts]) (by rw [hview]; exact AccountView.Steady.refl _)
          (by rw [hview]; exact id) ?_
        intro r'
        rw [action, Resource.given_setter, if_neg fun h => hn h.1]
  · obtain ⟨pays, hp⟩ := hs.protected had
    exact h.steady (by rw [hp.isAccount]) (AccountView.Steady.of_moves (hp.views a))
      (fun hc => hc.moves (hp.views a))
      fun r => r.given_none a had

/-- The limits of every account that is created in a run and that `setalimits` is not called for. Where a resource is
managed its limit is the value given last; the others follow the totals of the account. -/
theorem limits_coherent {t₀ t : BlockTimestamp} {s₀ : State} {tr : List (BlockTimestamp × Label)}
    {a : Name} (hnew : s₀.isAccount a = false) (h0 : s₀.voting.voters.lookup a = none)
    (ha : ∀ x ∈ tr, ∀ ram net cpu, x.2.action ≠ .setalimits a ram net cpu)
    (h : TimedRun TelosSystem.step t₀ s₀ tr t s) (hacc : s.isAccount a = true) :
    (managed s.voting a netManaged = false →
      (s.resources.limits a).net = totalWeight s.resources .net a) ∧
    (managed s.voting a cpuManaged = false →
      (s.resources.limits a).cpu = totalWeight s.resources .cpu a) ∧
    (managed s.voting a ramManaged = false →
      (s.resources.limits a).ramBytes = ramBytesOf s.resources a + ramGiftBytes ∨
        ramBytesOf s.resources a = 0 ∧ (s.resources.limits a).ramBytes = 0) ∧
    ∀ r : Resource, managed s.voting a r.field = (r.lastGiven a tr).isSome ∧
      ∀ x, r.lastGiven a tr = some x → r.limit (s.resources.limits a) = x := by
  have hstart : ∀ r, (s₀.view a).managed r = false := by
    intro r
    rw [view_managed, managed_eq, h0, Option.map_none, Option.getD_none]
  have hinit : Accounted a [] s₀ :=
    ⟨fun _ => hstart, fun hy => absurd (hnew.symm.trans hy) Bool.false_ne_true, hstart,
      fun _ _ hx => absurd hx (by simp [Resource.lastGiven])⟩
  have hend : Accounted a tr s := h.invariant (fun tr _ s => Accounted a tr s)
    (fun l => ∀ ram net cpu, l.action ≠ .setalimits a ram net cpu) hinit
    (fun hi _ hl hs => hi.step hl hs) ha
  have hcoherent := hend.coherent hacc
  refine ⟨hcoherent.net, hcoherent.cpu, hcoherent.ram, fun r => ⟨?_, hend.limit r⟩⟩
  rw [← view_managed]
  exact hend.managed r

def dave : Name := ⟨0x49b6a00000000000⟩

def newcomerState : State := { launchState with isAccount := fun n => n ≠ dave }

/-- Dave gets an account and stakes. His NET and his RAM are managed for a while, and he loses some stake meanwhile. -/
def newcomerTrace : List (BlockTimestamp × Label) :=
  [(launchTime, ⟨[systemAccount], .newaccount systemAccount dave⟩),
    (launchTime, ⟨[systemAccount], .setacctram dave (some 3000)⟩),
    (launchTime, ⟨[alice], .delegatebw alice dave ⟨50000, tlos⟩ ⟨70000, tlos⟩ false⟩),
    (launchTime, ⟨[systemAccount], .setacctnet dave (some 7)⟩),
    (launchTime, ⟨[alice], .undelegatebw alice dave ⟨20000, tlos⟩ ⟨10000, tlos⟩⟩),
    (launchTime, ⟨[systemAccount], .setacctram dave none⟩)]

def newcomerEnd : State :=
  stateAfter (fun now (l : Label) => @exec launchFloats ⟨now, l.auth⟩ l.action)
    newcomerTrace newcomerState

omit [FloatOps] in
lemma newcomerTrace_run :
    TimedRun (@step launchFloats) launchTime newcomerState newcomerTrace launchTime newcomerEnd :=
  letI := launchFloats
  timedRun_stateAfter (by decide) (by decide +kernel)

omit [FloatOps] in
theorem dave_limits : newcomerEnd.resources.limits dave = ⟨ramGiftBytes, 7, 60000⟩ ∧
    Resource.net.limit (newcomerEnd.resources.limits dave) = 7 ∧
    (newcomerEnd.resources.limits dave).cpu = totalWeight newcomerEnd.resources .cpu dave := by
  let := launchFloats
  obtain ⟨-, hcpu, -, hgiven⟩ :=
    limits_coherent (a := dave) (by decide) rfl (by simp [newcomerTrace]) newcomerTrace_run
    (by decide +kernel)
  exact ⟨by decide +kernel, (hgiven .net).2 7 (by decide +kernel), hcpu (by decide +kernel)⟩

def State.Manages (s : State) (a : Name) (r : Resource) (x : ℤ) : Prop :=
  managed s.voting a r.field = true ∧ r.limit (s.resources.limits a) = x

instance (s : State) (a : Name) (r : Resource) (x : ℤ) : Decidable (s.Manages a r x) :=
  inferInstanceAs (Decidable (_ ∧ _))

omit [FloatOps] in
lemma Manages.view (s : State) (a : Name) (r : Resource) (x : ℤ) :
    s.Manages a r x ↔ (s.view a).managed r = true ∧ r.limit (s.view a).limits = x := by
  rw [view_managed]
  rfl

/-- A resource is managed at a limit by the system account only, and only if the account exists. -/
lemma step.manages {l : Label} {a : Name} {r : Resource} {x : ℤ}
    (hfree : s.isAccount a = false → managed s.voting a r.field = false) (hs : step now l s s')
    (hm : s'.Manages a r x) :
    s.Manages a r x ∨ s.isAccount a = true ∧ systemAccount ∈ l.auth ∧
    l.action = r.setter a (some x) := by
  rw [Manages.view] at hm ⊢
  by_cases had : l.action.Administers
  · cases hs.adminMove had with
    | created creator name action unused accounts views =>
      have hview := views a
      by_cases hn : a = name
      · subst hn
        rw [if_pos rfl] at hview
        have hkept : (s'.view a).managed r = (s.view a).managed r := by
          rw [hview]
          cases r <;> rfl
        have hoff := hfree unused
        rw [← view_managed, ← hkept, hm.1] at hoff
        exact absurd hoff.symm Bool.false_ne_true
      · rw [if_neg hn] at hview
        rw [hview] at hm
        exact Or.inl hm
    | limited account ram net cpu action accounts unmanaged views =>
      have hview := views a
      by_cases hn : a = account
      · subst hn
        rw [if_pos rfl] at hview
        have hkept : (s'.view a).managed r = (s.view a).managed r := by
          rw [hview]
          cases r <;> rfl
        rw [hkept, unmanaged r] at hm
        exact absurd hm.1 Bool.false_ne_true
      · rw [if_neg hn] at hview
        rw [hview] at hm
        exact Or.inl hm
    | assigned r' account value action auth accounts exists_ views =>
      have hview := views a
      by_cases hn : a = account
      · subst hn
        rw [if_pos rfl] at hview
        rw [hview, AccountView.assigned_managed, AccountView.assigned_limit] at hm
        by_cases hr : r = r'
        · subst hr
          rw [if_pos rfl, if_pos rfl] at hm
          obtain ⟨y, rfl⟩ := Option.isSome_iff_exists.1 hm.1
          rw [Option.getD_some] at hm
          exact Or.inr ⟨exists_, auth, by rw [action, hm.2]⟩
        · rw [if_neg hr, if_neg hr] at hm
          exact Or.inl hm
      · rw [if_neg hn] at hview
        rw [hview] at hm
        exact Or.inl hm
  · obtain ⟨pays, hp⟩ := hs.protected had
    have hsteady := AccountView.Steady.of_moves (hp.views a)
    have hbefore : (s.view a).managed r = true := (hsteady.managed r).symm.trans hm.1
    exact Or.inl ⟨hbefore, (hsteady.limit r hbefore).symm.trans hm.2⟩

lemma step.accounts {l : Label} {a : Name} (hs : step now l s s') (h : s.isAccount a = true) :
    s'.isAccount a = true := by
  by_cases had : l.action.Administers
  · cases hs.adminMove had with
    | created creator name action unused accounts views =>
      rw [accounts, Function.update_apply]
      split_ifs
      · rfl
      · exact h
    | limited account ram net cpu action accounts unmanaged views => rw [accounts, h]
    | assigned r account value action auth accounts exists_ views => rw [accounts, h]
  · obtain ⟨pays, hp⟩ := hs.protected had
    rw [hp.isAccount, h]

/-- A managed resource stays managed, unless its account exists. -/
lemma step.managed_kept {l : Label} {a : Name} {r : Resource} (hs : step now l s s')
    (hm : managed s.voting a r.field = true) :
    s'.isAccount a = true ∨ managed s'.voting a r.field = true := by
  rw [← view_managed] at hm ⊢
  by_cases had : l.action.Administers
  · cases hs.adminMove had with
    | created creator name action unused accounts views =>
      have hview := views a
      by_cases hn : a = name
      · exact Or.inl (by rw [accounts, hn, Function.update_self])
      · rw [if_neg hn] at hview
        exact Or.inr (hview ▸ hm)
    | limited account ram net cpu action accounts unmanaged views =>
      have hview := views a
      by_cases hn : a = account
      · rw [hn, unmanaged r] at hm
        exact absurd hm Bool.false_ne_true
      · rw [if_neg hn] at hview
        exact Or.inr (hview ▸ hm)
    | assigned r' account value action auth accounts exists_ views =>
      have hview := views a
      by_cases hn : a = account
      · exact Or.inl (by rw [accounts, hn, exists_])
      · rw [if_neg hn] at hview
        exact Or.inr (hview ▸ hm)
  · obtain ⟨pays, hp⟩ := hs.protected had
    exact Or.inr (((AccountView.Steady.of_moves (hp.views a)).managed r).trans hm)

/-- Limits that can be set can be set from then on. -/
lemma step.hasLimits {l : Label} {a : Name} (hs : step now l s s') (h : s.HasLimits a) :
    s'.HasLimits a := by
  rcases h with haccount | ⟨hnet, hcpu⟩
  · exact Or.inl (hs.accounts haccount)
  · rcases hs.managed_kept (r := .net) hnet with haccount | hnet'
    · exact Or.inl haccount
    · exact (hs.managed_kept (r := .cpu) hcpu).imp_right fun hcpu' => ⟨hnet', hcpu'⟩

lemma step.hasRamLimit {l : Label} {a : Name} (hs : step now l s s') (h : s.HasRamLimit a) :
    s'.HasRamLimit a := by
  rcases h with haccount | hram
  · exact Or.inl (hs.accounts haccount)
  · exact hs.managed_kept (r := .ram) hram

/-- A managed limit has been in force since the system account set it, for an account that existed then. -/
theorem managed_since {t₀ t : BlockTimestamp} {s₀ : State} {tr : List (BlockTimestamp × Label)}
    {a : Name} {r : Resource} {x : ℤ}
    (hfree : s₀.isAccount a = false → managed s₀.voting a r.field = false) (h0 : ¬ s₀.Manages a r x)
    (h : TimedRun step t₀ s₀ tr t s) (hm : s.Manages a r x) :
    HeldSince step (fun _ l s _ => s.isAccount a = true ∧ systemAccount ∈ l.auth ∧
      l.action = r.setter a (some x))
      (fun s => s.Manages a r x) t₀ s₀ tr t s := by
  refine h.heldSince (I := fun s => s.isAccount a = false → managed s.voting a r.field = false)
    ?_ ?_ hfree h0 hm
  · intro t l s s' hi hs hn
    by_contra hy
    rw [Bool.not_eq_false] at hy
    have haccount : s.isAccount a = true := by
      rcases hs.manages hi ⟨hy, rfl⟩ with hbefore | hset
      · by_contra hno
        rw [Bool.not_eq_true] at hno
        exact absurd (hbefore.1.symm.trans (hi hno)) (by simp)
      · exact hset.1
    exact absurd (hn.symm.trans (hs.accounts haccount)) Bool.false_ne_true
  · intro t l s s' hi hs hno hyes
    exact (hs.manages hi hyes).resolve_left hno

omit [FloatOps] in
theorem dave_managed : HeldSince (@step launchFloats)
    (fun _ l s _ => s.isAccount dave = true ∧ systemAccount ∈ l.auth ∧
      l.action = Resource.net.setter dave (some 7))
    (fun s => s.Manages dave .net 7) launchTime newcomerState newcomerTrace launchTime
      newcomerEnd := by
  let := launchFloats
  exact managed_since (by decide) (by decide) newcomerTrace_run (by decide +kernel)

end
end TelosSystem
