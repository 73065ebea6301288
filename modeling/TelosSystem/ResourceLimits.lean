import TelosSystem.VoteTally

/-! `update_resource_limits` and `adjust_resources`: the two functions that move the staked
totals of an account by a difference. -/
namespace TelosSystem
open Ledger

def ramGiftBytes : ℤ := 1400

namespace UserResources

def isEmpty (r : UserResources) : Bool :=
  r.netWeight == 0 && r.cpuWeight == 0 && r.ramBytes == 0

end UserResources

namespace State

def setLimits (s : State) (account : Name) (l : ResourceLimits) : State :=
  { s with resources := { s.resources with
    limits := Function.update s.resources.limits account l } }

/-- Write a totals row back, or erase it when nothing is left in it. -/
def storeTotals (s : State) (account : Name) (tot : UserResources) : State :=
  let userres := if tot.isEmpty then s.resources.userres.erase account
    else s.resources.userres.insert account tot
  { s with resources := { s.resources with userres } }

end State

/-- The totals row of an account moved by a difference, or a new row that holds just it. -/
def movedTotals (s : State) (account : Name) (deltaNet deltaCpu : ℤ) : UserResources :=
  match s.resources.userres.lookup account with
  | none => ⟨deltaNet, deltaCpu, 0⟩
  | some tot => { tot with
      netWeight := tot.netWeight + deltaNet
      cpuWeight := tot.cpuWeight + deltaCpu }

def insufficientNet : String := "insufficient staked total net bandwidth"
def insufficientCpu : String := "insufficient staked total cpu bandwidth"

def unknownKey : String := "unknown key"

/-- `get_resource_limits`: the chain has limits for existing accounts only. -/
def getResourceLimits (account : Name) (s : State) : Except String ResourceLimits := do
  check (s.isAccount account) unknownKey
  pure (s.resources.limits account)

/-- Set the NET and CPU limits of an account to its totals where they are not managed, and the
RAM limit to what `ramLimit` makes of the old one. -/
def limitsFor (account : Name) (tot : UserResources) (ramLimit : ℤ → ℤ) (s : State) :
    Except String State :=
  let net := managed s.voting account netManaged
  let cpu := managed s.voting account cpuManaged
  if net && cpu then .ok s
  else do
    let old ← getResourceLimits account s
    pure (s.setLimits account ⟨ramLimit old.ramBytes, if net then old.net else tot.netWeight,
      if cpu then old.cpu else tot.cpuWeight⟩)

def updateResourceLimits (receiver : Name) (deltaNet deltaCpu : ℤ) (s : State) :
    Except String State :=
  if deltaCpu = 0 ∧ deltaNet = 0 then .ok s
  else do
    check ((s.resources.userres.lookup receiver).isSome ∨ (0 ≤ deltaNet ∧ 0 ≤ deltaCpu))
      "logic error, should not occur"
    let tot := movedTotals s receiver deltaNet deltaCpu
    check (0 ≤ tot.netWeight) insufficientNet
    check (0 ≤ tot.cpuWeight) insufficientCpu
    let s ← limitsFor receiver tot id s
    pure (s.storeTotals receiver tot)

def adjustResources (account : Name) (netDelta cpuDelta : ℤ) (mustNotBeManaged : Bool) (s : State) :
    Except String State :=
  if netDelta = 0 ∧ cpuDelta = 0 then .ok s
  else do
    let tot := movedTotals s account netDelta cpuDelta
    check (0 ≤ tot.netWeight) insufficientNet
    check (0 ≤ tot.cpuWeight) insufficientCpu
    check (mustNotBeManaged = false ∨
        (managed s.voting account netManaged = false ∧ managed s.voting account cpuManaged = false))
      "something is managed which shouldn't be"
    let ramLimit := fun old => if managed s.voting account ramManaged then old
      else max (tot.ramBytes + ramGiftBytes) old
    let s ← limitsFor account tot ramLimit s
    pure (s.storeTotals account tot)

def totalWeight (r : Resources) (k : LoanKind) (account : Name) : ℤ :=
  r.userres.valueAt (fun _ tot => match k with | .net => tot.netWeight | .cpu => tot.cpuWeight)
    account

def pick (k : LoanKind) (net cpu : ℤ) : ℤ :=
  match k with
  | .net => net
  | .cpu => cpu

/-- The limits of an account can be set: it exists, or its NET and CPU are both left alone. -/
def State.HasLimits (s : State) (account : Name) : Prop :=
  s.isAccount account = true ∨
    (managed s.voting account netManaged = true ∧ managed s.voting account cpuManaged = true)

lemma limitsFor_ok {account : Name} {tot : UserResources} {ramLimit : ℤ → ℤ} {s s' : State}
    (h : limitsFor account tot ramLimit s = .ok s') :
    s.HasLimits account ∧ ∃ limits, s' = { s with resources := { s.resources with limits } } := by
  unfold limitsFor at h
  dsimp only at h
  by_cases hboth : (managed s.voting account netManaged && managed s.voting account cpuManaged) =
    true
  · rw [if_pos hboth] at h
    cases h
    rw [Bool.and_eq_true] at hboth
    exact ⟨Or.inr hboth, s.resources.limits, rfl⟩
  · rw [if_neg hboth] at h
    simp only [getResourceLimits, bind_ok, check_ok, exists_const, pure_ok] at h
    obtain ⟨old, ⟨haccount, -⟩, rfl⟩ := h
    exact ⟨Or.inl haccount, _, rfl⟩

lemma limitsFor_error {account : Name} {tot : UserResources} {ramLimit : ℤ → ℤ} {s : State}
    {e : String} (h : limitsFor account tot ramLimit s = .error e) :
    e = unknownKey ∧ ¬ s.HasLimits account := by
  unfold limitsFor at h
  dsimp only at h
  by_cases hboth : (managed s.voting account netManaged && managed s.voting account cpuManaged) =
    true
  · rw [if_pos hboth] at h
    cases h
  · rw [if_neg hboth] at h
    rw [Bool.and_eq_true] at hboth
    simp only [getResourceLimits, bind_error, check_error, pure_error, and_false,
      exists_false, or_false] at h
    exact ⟨h.2.symm, not_or.mpr ⟨h.1, hboth⟩⟩

lemma totalWeight_store (s : State) (account : Name) (tot : UserResources) (k : LoanKind)
    (a : Name) : totalWeight (s.storeTotals account tot).resources k a =
      if a = account then pick k tot.netWeight tot.cpuWeight else totalWeight s.resources k a := by
  unfold totalWeight State.storeTotals Table.valueAt
  by_cases he : tot.isEmpty
  · simp only [he, if_true, Table.lookup_erase']
    split_ifs with ha
    · simp only [UserResources.isEmpty, Bool.and_eq_true, beq_iff_eq] at he
      cases k <;> simp [pick, he]
    · rfl
  · rw [if_neg he]
    simp only [Table.lookup_insert']
    split_ifs with ha
    · cases k <;> simp [pick]
    · rfl

lemma movedTotals_weight (s : State) (account : Name) (deltaNet deltaCpu : ℤ) (k : LoanKind) :
    pick k (movedTotals s account deltaNet deltaCpu).netWeight
        (movedTotals s account deltaNet deltaCpu).cpuWeight =
      totalWeight s.resources k account + pick k deltaNet deltaCpu := by
  unfold movedTotals totalWeight Table.valueAt
  cases s.resources.userres.lookup account <;> cases k <;> simp [pick]

def ramBytesOf (r : Resources) (account : Name) : ℤ :=
  r.userres.valueAt (fun _ tot => tot.ramBytes) account

def ramTotal (r : Resources) : ℤ := r.userres.total fun _ tot => tot.ramBytes

structure RamKept (r r' : Resources) : Prop where
  bytes : ∀ a, ramBytesOf r' a = ramBytesOf r a
  total : ramTotal r' = ramTotal r

lemma RamKept.refl (r : Resources) : RamKept r r := ⟨fun _ => rfl, rfl⟩

lemma RamKept.trans {r r' r'' : Resources} (h : RamKept r r') (h' : RamKept r' r'') :
    RamKept r r'' :=
  ⟨fun a => (h'.bytes a).trans (h.bytes a), h'.total.trans h.total⟩

/-- A row that is written back or erased with the RAM bytes it had. -/
lemma ramKept_store (s : State) {account : Name} {tot : UserResources}
    (hr : tot.ramBytes = ramBytesOf s.resources account) :
    RamKept s.resources (s.storeTotals account tot).resources := by
  unfold ramBytesOf at hr
  unfold State.storeTotals
  by_cases he : tot.isEmpty
  · have h0 : tot.ramBytes = 0 := by
      simp only [UserResources.isEmpty, Bool.and_eq_true, beq_iff_eq] at he
      exact he.2
    rw [if_pos he]
    refine ⟨fun a => ?_, ?_⟩
    · by_cases ha : a = account
      · subst ha
        simp only [ramBytesOf, Table.valueAt, Table.lookup_erase', if_true] at hr ⊢
        rw [← hr, h0]
        rfl
      · simp [ramBytesOf, Table.valueAt, ha]
    · rw [ramTotal, Table.total_erase, ← hr, h0, sub_zero, ramTotal]
  · rw [if_neg he]
    refine ⟨fun a => ?_, ?_⟩
    · by_cases ha : a = account
      · subst ha
        simp only [ramBytesOf, Table.valueAt, AList.lookup_insert] at hr ⊢
        exact hr
      · simp [ramBytesOf, Table.valueAt, ha]
    · rw [ramTotal, Table.total_insert, hr, sub_add_cancel, ramTotal]

lemma movedTotals_ram (s : State) (account : Name) (deltaNet deltaCpu : ℤ) :
    (movedTotals s account deltaNet deltaCpu).ramBytes = ramBytesOf s.resources account := by
  unfold movedTotals ramBytesOf Table.valueAt
  cases s.resources.userres.lookup account <;> rfl

/-- What a successful move of the totals does: only the resources change, and there only
the totals of one account, by the difference, to non-negative values. -/
structure Moved (account : Name) (deltaNet deltaCpu : ℤ) (s s' : State) : Prop where
  only : ∃ resources, s' = { s with resources }
  weight : ∀ k a, totalWeight s'.resources k a =
    totalWeight s.resources k a + if a = account then pick k deltaNet deltaCpu else 0
  ram : RamKept s.resources s'.resources

lemma limitsFor_total {account : Name} {s : State} (tot : UserResources) (ramLimit : ℤ → ℤ)
    (h : s.isAccount account = true) : ∃ s', limitsFor account tot ramLimit s = .ok s' := by
  cases hl : limitsFor account tot ramLimit s with
  | ok s' => exact ⟨s', rfl⟩
  | error e => exact absurd (Or.inl h) (limitsFor_error hl).2

private lemma moved_store {s s' : State} {account : Name} {deltaNet deltaCpu : ℤ} {ramLimit : ℤ → ℤ}
    (h : limitsFor account (movedTotals s account deltaNet deltaCpu) ramLimit s = .ok s') :
    Moved account deltaNet deltaCpu s
      (s'.storeTotals account (movedTotals s account deltaNet deltaCpu)) := by
  obtain ⟨-, limits, rfl⟩ := limitsFor_ok h
  refine ⟨⟨_, rfl⟩, fun k a => ?_, ?_⟩
  · rw [totalWeight_store]
    split_ifs with ha
    · rw [movedTotals_weight, ha]
    · simp [totalWeight]
  · obtain ⟨hbytes, htotal⟩ := ramKept_store { s with resources := { s.resources with limits } }
      (movedTotals_ram s account deltaNet deltaCpu)
    exact ⟨hbytes, htotal⟩

lemma moved_zero (account : Name) (s : State) : Moved account 0 0 s s :=
  ⟨⟨_, rfl⟩, fun k a => by cases k <;> simp [pick], RamKept.refl _⟩

theorem updateResourceLimits_moved {receiver : Name} {deltaNet deltaCpu : ℤ} {s s' : State}
    (h : updateResourceLimits receiver deltaNet deltaCpu s = .ok s') :
    Moved receiver deltaNet deltaCpu s s' := by
  unfold updateResourceLimits at h
  by_cases h0 : deltaCpu = 0 ∧ deltaNet = 0
  · rw [if_pos h0] at h
    cases h
    rw [h0.1, h0.2]
    exact moved_zero receiver s
  · rw [if_neg h0] at h
    simp only [bind_ok, check_ok, exists_const, pure_ok] at h
    obtain ⟨-, -, -, m, hm, rfl⟩ := h
    exact moved_store hm

/-- Totals move only where the limits can follow. -/
lemma updateResourceLimits_hasLimits {receiver : Name} {deltaNet deltaCpu : ℤ} {s s' : State}
    (h : updateResourceLimits receiver deltaNet deltaCpu s = .ok s')
    (h0 : ¬ (deltaCpu = 0 ∧ deltaNet = 0)) : s.HasLimits receiver := by
  unfold updateResourceLimits at h
  rw [if_neg h0] at h
  simp only [bind_ok, check_ok, exists_const, pure_ok] at h
  obtain ⟨-, -, -, m, hm, -⟩ := h
  exact (limitsFor_ok hm).1

/-- Where nothing may be managed, only an account gets totals. -/
lemma adjustResources_isAccount {account : Name} {netDelta cpuDelta : ℤ} {s s' : State}
    (h : adjustResources account netDelta cpuDelta true s = .ok s')
    (h0 : ¬ (netDelta = 0 ∧ cpuDelta = 0)) : s.isAccount account = true := by
  unfold adjustResources at h
  rw [if_neg h0] at h
  simp only [bind_ok, check_ok, exists_const, pure_ok] at h
  obtain ⟨-, -, hfree, m, hm, -⟩ := h
  rcases (limitsFor_ok hm).1 with haccount | ⟨hnet, -⟩
  · exact haccount
  · rcases hfree with hfalse | ⟨hno, -⟩
    · cases hfalse
    · rw [hno] at hnet
      cases hnet

theorem adjustResources_moved {account : Name} {netDelta cpuDelta : ℤ} {b : Bool} {s s' : State}
    (h : adjustResources account netDelta cpuDelta b s = .ok s') :
    Moved account netDelta cpuDelta s s' := by
  unfold adjustResources at h
  by_cases h0 : netDelta = 0 ∧ cpuDelta = 0
  · rw [if_pos h0] at h
    cases h
    rw [h0.1, h0.2]
    exact moved_zero account s
  · rw [if_neg h0] at h
    simp only [bind_ok, check_ok, exists_const, pure_ok] at h
    obtain ⟨-, -, -, m, hm, rfl⟩ := h
    exact moved_store hm

end TelosSystem
