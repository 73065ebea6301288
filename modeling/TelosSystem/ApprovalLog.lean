import Mathlib

/-! Approvals with a history. Voters on a list grant and take back their approval; a log keeps
every call, two lists keep who may still grant and who has granted. The lists track the log:
what a voter has granted is what the log says, its oldest grants taken back first. -/
namespace Ledger

/-- A call of a voter: a grant, or a revocation when `grants` is false. -/
structure Call (κ : Type) where
  time : ℕ
  voter : κ
  grants : Bool
  deriving DecidableEq

section
variable {κ : Type} [DecidableEq κ]

def grantTimes (v : κ) (calls : List (Call κ)) : List ℕ :=
  (calls.filter fun c => c.voter = v ∧ c.grants).map Call.time

def revocations (v : κ) (calls : List (Call κ)) : ℕ :=
  calls.countP fun c => c.voter = v ∧ ¬ c.grants

def lastCall (v : κ) (calls : List (Call κ)) : Option (Call κ) :=
  (calls.filter fun c => c.voter = v).getLast?

@[simp] lemma grantTimes_append (v : κ) (calls : List (Call κ)) (c : Call κ) :
    grantTimes v (calls ++ [c]) = grantTimes v calls ++
      if c.voter = v ∧ c.grants then [c.time] else [] := by
  unfold grantTimes
  rw [List.filter_append, List.map_append]
  by_cases h : c.voter = v ∧ c.grants
  · simp [h]
  · simp [h]

@[simp] lemma revocations_append (v : κ) (calls : List (Call κ)) (c : Call κ) :
    revocations v (calls ++ [c]) = revocations v calls +
      if c.voter = v ∧ ¬ c.grants then 1 else 0 := by
  unfold revocations
  rw [List.countP_append, List.countP_singleton]
  simp

lemma lastCall_append_self (calls : List (Call κ)) (c : Call κ) :
    lastCall c.voter (calls ++ [c]) = some c := by
  simp [lastCall]

lemma lastCall_append_ne {v : κ} (calls : List (Call κ)) {c : Call κ} (h : c.voter ≠ v) :
    lastCall v (calls ++ [c]) = lastCall v calls := by
  simp [lastCall, h]

/-- The lists are `given` in two parts, and the provided part is the log with the oldest
grants of each voter taken back. -/
structure Tracks (given : List κ) (calls : List (Call κ)) (requested : List κ)
    (provided : List (κ × ℕ)) : Prop where
  lists : (requested ++ provided.map Prod.fst).Perm given
  covered : ∀ v, revocations v calls ≤ (grantTimes v calls).length
  times : ∀ v, (provided.filter fun p => p.1 = v).map Prod.snd =
    (grantTimes v calls).drop (revocations v calls)
  last : ∀ v t, given.count v ≤ 1 → (v, t) ∈ provided → lastCall v calls = some ⟨t, v, true⟩

lemma filter_eraseP_self {β : Type} (p : β → Bool) (l : List β) :
    (l.eraseP p).filter p = (l.filter p).tail := by
  induction l with
  | nil => rfl
  | cons a l ih =>
    cases h : p a with
    | true => simp [h]
    | false => simp [h, ih]

lemma filter_eraseP_of_disjoint {β : Type} {p q : β → Bool} (hpq : ∀ a, p a = true → q a = false)
    (l : List β) : (l.eraseP p).filter q = l.filter q := by
  induction l with
  | nil => rfl
  | cons a l ih =>
    cases h : p a with
    | true => simp [h, hpq a h]
    | false => simp [h, List.filter_cons, ih]

lemma map_eraseP {β : Type} (f : β → κ) (v : κ) (l : List β) :
    (l.eraseP fun p => f p = v).map f = (l.map f).erase v := by
  rw [List.erase_eq_eraseP, List.eraseP_map]
  congr 2
  funext p
  simp [Function.comp, eq_comm, BEq.beq]

namespace Tracks
variable {given requested : List κ} {calls : List (Call κ)} {provided : List (κ × ℕ)}

/-- Before any call nothing is provided. -/
lemma nil (given : List κ) : Tracks given [] given [] where
  lists := by simp
  covered _ := le_rfl
  times _ := rfl
  last _ _ _ h := by cases h

lemma count_provided (h : Tracks given calls requested provided) (v : κ) :
    requested.count v + (provided.map Prod.fst).count v = given.count v := by
  rw [← List.count_append]
  exact h.lists.count_eq v

lemma grant (h : Tracks given calls requested provided) {v : κ} (t : ℕ) (hm : v ∈ requested) :
    Tracks given (calls ++ [⟨t, v, true⟩]) (requested.erase v) (provided ++ [(v, t)]) where
  lists := by
    refine List.Perm.trans ?_ h.lists
    rw [List.map_append, ← List.append_assoc]
    refine (List.perm_append_singleton v _).trans ?_
    rw [← List.cons_append]
    exact (List.perm_cons_erase hm).symm.append_right _
  covered := by
    intro w
    have hw := h.covered w
    rw [grantTimes_append, revocations_append, List.length_append]
    simp only [not_true_eq_false, and_false, if_false]
    omega
  times := by
    intro w
    rw [List.filter_append, List.map_append, h.times w, grantTimes_append, revocations_append]
    by_cases hw : v = w
    · simp [hw, List.drop_append_of_le_length (h.covered w)]
    · simp [hw]
  last := by
    intro w t' hc hp
    have hone := h.count_provided w
    rcases List.mem_append.mp hp with hp | hp
    · have hpos : 0 < (provided.map Prod.fst).count w :=
        List.count_pos_iff.mpr (List.mem_map.mpr ⟨_, hp, rfl⟩)
      by_cases hw : v = w
      · subst hw
        have := List.count_pos_iff.mpr hm
        omega
      · rw [lastCall_append_ne _ hw]
        exact h.last w t' hc hp
    · obtain ⟨rfl, rfl⟩ := Prod.mk.injEq .. ▸ List.mem_singleton.mp hp
      exact lastCall_append_self calls ⟨t', w, true⟩

lemma revoke (h : Tracks given calls requested provided) {v : κ} (t : ℕ)
    (hm : v ∈ provided.map Prod.fst) :
    Tracks given (calls ++ [⟨t, v, false⟩]) (requested ++ [v])
      (provided.eraseP fun p => p.1 = v) where
  lists := by
    refine List.Perm.trans ?_ h.lists
    rw [map_eraseP, List.append_assoc]
    exact (List.perm_cons_erase hm).symm.append_left _
  covered := by
    intro w
    have hw := h.covered w
    rw [grantTimes_append, revocations_append]
    by_cases hv : v = w
    · subst hv
      -- a provided approval is a grant that has not been taken back yet
      have hlen := congrArg List.length (h.times v)
      obtain ⟨⟨x, t'⟩, hp, rfl⟩ := List.mem_map.mp hm
      have hpos : 0 < (provided.filter fun p => p.1 = x).length :=
        List.length_pos_of_mem (List.mem_filter.mpr ⟨hp, by simp⟩)
      rw [List.length_map, List.length_drop] at hlen
      simp only [Bool.false_eq_true, not_false_eq_true, and_self, and_false, if_true, if_false,
        List.append_nil] at hlen ⊢
      omega
    · simp [hv, hw]
  times := by
    intro w
    rw [grantTimes_append, revocations_append]
    by_cases hv : v = w
    · subst hv
      rw [filter_eraseP_self, List.map_tail, h.times v]
      simp
    · rw [filter_eraseP_of_disjoint (fun a ha => by simp at ha ⊢; rw [ha]; exact hv), h.times w]
      simp [hv]
  last := by
    intro w t' hc hp
    have hone := h.count_provided w
    have hp' := List.mem_of_mem_eraseP hp
    by_cases hv : v = w
    · subst hv
      -- one grant at most stood on the list, and it has just been erased
      have hpos : 0 < ((provided.map Prod.fst).erase v).count v := by
        rw [← map_eraseP]
        exact List.count_pos_iff.mpr (List.mem_map.mpr ⟨_, hp, rfl⟩)
      rw [List.count_erase_self] at hpos
      omega
    · rw [lastCall_append_ne _ hv]
      exact h.last w t' hc hp'

/-- What is provided was granted more often than it was taken back. -/
lemma of_mem (h : Tracks given calls requested provided) {v : κ} {t : ℕ} (hp : (v, t) ∈ provided) :
    t ∈ (grantTimes v calls).drop (revocations v calls) := by
  rw [← h.times v]
  exact List.mem_map.mpr ⟨(v, t), List.mem_filter.mpr ⟨hp, by simp⟩, rfl⟩

/-- Lists found without a log are tracked by a log in which every provided approval was granted. -/
lemma start (requested : List κ) (provided : List (κ × ℕ)) :
    Tracks (requested ++ provided.map Prod.fst) (provided.map fun p => ⟨p.2, p.1, true⟩)
      requested provided where
  lists := List.Perm.refl _
  covered := by
    intro v
    simp [revocations, List.countP_map, Function.comp_def]
  times := by
    intro v
    simp [grantTimes, revocations, List.countP_map, List.filter_map, Function.comp_def]
  last := by
    intro v t hc hp
    have hle : (provided.map Prod.fst).count v ≤ 1 := by
      rw [List.count_append] at hc
      omega
    have hl : (provided.filter fun p => p.1 = v).length ≤ 1 := by
      rw [← List.countP_eq_length_filter]
      rw [List.count, List.countP_map] at hle
      convert hle using 2
      funext p
      simp [Function.comp, BEq.beq]
    have hm : (v, t) ∈ provided.filter fun p => p.1 = v := List.mem_filter.mpr ⟨hp, by simp⟩
    have hs : (provided.filter fun p => p.1 = v) = [(v, t)] := by
      cases hf : provided.filter fun p => p.1 = v with
      | nil =>
        rw [hf] at hm
        cases hm
      | cons a l =>
        rw [hf] at hm hl
        cases l with
        | nil => rw [List.mem_singleton.mp hm]
        | cons b l =>
          simp at hl
    simp [lastCall, List.filter_map, Function.comp_def, hs]

end Tracks
end
end Ledger
