import Mathlib

/-! A pointer that goes round the positions of an interval, one after another. -/
namespace Ledger

/-- The position after `i` in the round from `lo` to `hi - 1`; past its end the round starts again. -/
def nextPosition (lo hi i : ℕ) : ℕ := if hi - 1 ≤ i then lo else i + 1

/-- The positions of a pointer that goes round. -/
structure RoundRobin (lo hi : ℕ) (l : List ℕ) : Prop where
  next : l.IsChain fun i j => j = nextPosition lo hi i
  bounds : ∀ i ∈ l, lo ≤ i ∧ i < hi

variable {lo hi i : ℕ} {l w : List ℕ}

lemma nextPosition_bounds (h : lo < hi) (hi' : lo ≤ i) :
    lo ≤ nextPosition lo hi i ∧ nextPosition lo hi i < hi := by
  unfold nextPosition
  split_ifs <;> omega

lemma nextPosition_mod (h : lo ≤ i) (hi' : i < hi) {a : ℕ} (ha : i = lo + a % (hi - lo)) :
    nextPosition lo hi i = lo + (a + 1) % (hi - lo) := by
  have hstep : (a + 1) % (hi - lo) = (a % (hi - lo) + 1) % (hi - lo) :=
    (Nat.mod_add_mod a (hi - lo) 1).symm
  rw [hstep]
  unfold nextPosition
  split_ifs with hlast
  · have hfull : a % (hi - lo) + 1 = hi - lo := by omega
    rw [hfull, Nat.mod_self, add_zero]
  · rw [Nat.mod_eq_of_lt (by omega)]
    omega

namespace RoundRobin

/-- A chain of next positions stays in the round once it has entered it. -/
lemma of_chain (h : lo < hi) (hi' : lo ≤ i)
    (hl : (i :: l).IsChain fun i j => j = nextPosition lo hi i) : RoundRobin lo hi l := by
  induction l generalizing i with
  | nil => exact ⟨List.isChain_nil, fun _ hj => by cases hj⟩
  | cons j l ih =>
    obtain ⟨rfl, htail⟩ := List.isChain_cons_cons.mp hl
    have hb := nextPosition_bounds h hi'
    obtain ⟨-, hbounds⟩ := ih hb.1 htail
    exact ⟨htail, List.forall_mem_cons.mpr ⟨hb, hbounds⟩⟩

lemma window (h : RoundRobin lo hi l) (hw : w <:+: l) : RoundRobin lo hi w := by
  have hnext := List.IsChain.infix h.next hw
  exact ⟨hnext, fun i hi => h.bounds i (hw.mem hi)⟩

/-- The positions count on from the first. -/
lemma getElem_eq (h : RoundRobin lo hi l) (k : ℕ) (hk : k < l.length) :
    l[k] = lo + (l[0] - lo + k) % (hi - lo) := by
  induction k with
  | zero =>
    have hb := h.bounds l[0] (List.getElem_mem hk)
    rw [add_zero, Nat.mod_eq_of_lt (by omega)]
    omega
  | succ k ih =>
    have hk' : k < l.length := by omega
    have hb := h.bounds l[k] (List.getElem_mem hk')
    have hnext : l[k + 1] = nextPosition lo hi l[k] := List.isChain_iff_getElem.mp h.next k hk
    rw [hnext]
    exact nextPosition_mod hb.1 hb.2 (ih hk')

/-- In a whole round every position comes exactly once. -/
theorem once (h : RoundRobin lo hi l) (hlen : l.length = hi - lo) {j : ℕ} (hj : lo ≤ j)
    (hj' : j < hi) : l.count j = 1 := by
  have hnodup : l.Nodup := by
    rw [List.nodup_iff_injective_get]
    rintro ⟨a, ha⟩ ⟨b, hb⟩ hab
    simp only [List.get_eq_getElem] at hab
    rw [h.getElem_eq a ha, h.getElem_eq b hb] at hab
    have hmod : (l[0] - lo + a) % (hi - lo) = (l[0] - lo + b) % (hi - lo) := by omega
    have hcancel : a ≡ b [MOD hi - lo] := Nat.ModEq.add_left_cancel' (l[0] - lo) hmod
    exact Fin.ext (hcancel.eq_of_lt_of_lt (hlen ▸ ha) (hlen ▸ hb))
  have hsubset : l.toFinset ⊆ Finset.Ico lo hi := fun i hi => by
    rw [Finset.mem_Ico]
    exact h.bounds i (List.mem_toFinset.mp hi)
  have hall : l.toFinset = Finset.Ico lo hi := by
    refine Finset.eq_of_subset_of_card_le hsubset ?_
    rw [Nat.card_Ico, List.toFinset_card_of_nodup hnodup, hlen]
  have hmem : j ∈ l := by
    rw [← List.mem_toFinset, hall, Finset.mem_Ico]
    exact ⟨hj, hj'⟩
  exact List.count_eq_one_of_mem hnodup hmem

end RoundRobin

end Ledger
