import Mathlib

/-! Lists in strictly ascending order of a key: cutting off a prefix by a bound on the key
is a filter, and sums over the list split along it. -/
namespace Ledger

variable {α : Type*}

def Ascending (f : α → ℕ) (l : List α) : Prop := l.Pairwise fun a b => f a < f b

namespace Ascending
variable {f : α → ℕ} {l : List α}

lemma nil : Ascending f ([] : List α) := List.Pairwise.nil

lemma filter (h : Ascending f l) (p : α → Bool) : Ascending f (l.filter p) :=
  List.Pairwise.filter p h

lemma concat (h : Ascending f l) {b : α} (hb : ∀ a ∈ l, f a < f b) : Ascending f (l ++ [b]) := by
  refine List.pairwise_append.mpr ⟨h, List.pairwise_singleton _ _, ?_⟩
  intro a ha c hc
  rw [List.mem_singleton.mp hc]
  exact hb a ha

lemma of_concat {b : α} (h : Ascending f (l ++ [b])) : Ascending f l ∧ ∀ a ∈ l, f a < f b := by
  obtain ⟨hl, -, hb⟩ := List.pairwise_append.mp h
  exact ⟨hl, fun a ha => hb a ha b (by simp)⟩

lemma takeWhile_eq (h : Ascending f l) (c : ℕ) :
    l.takeWhile (fun a => f a ≤ c) = l.filter fun a => f a ≤ c := by
  induction l with
  | nil => rfl
  | cons a l ih =>
    obtain ⟨ha, hl⟩ := List.pairwise_cons.mp h
    by_cases hc : f a ≤ c
    · simp [hc, ih hl]
    · have hn : ∀ b ∈ l, ¬ f b ≤ c := fun b hb => by have := ha b hb; omega
      simp only [List.takeWhile_cons, List.filter_cons, hc, decide_false, if_neg Bool.false_ne_true]
      exact (List.filter_eq_nil_iff.mpr (by simpa using hn)).symm

lemma dropWhile_eq (h : Ascending f l) (c : ℕ) :
    l.dropWhile (fun a => f a ≤ c) = l.filter fun a => c < f a := by
  induction l with
  | nil => rfl
  | cons a l ih =>
    obtain ⟨ha, hl⟩ := List.pairwise_cons.mp h
    by_cases hc : f a ≤ c
    · simp [hc, ih hl, not_lt.mpr hc]
    · have hn : ∀ b ∈ l, c < f b := fun b hb => by have := ha b hb; omega
      simp only [List.dropWhile_cons, hc, decide_false, if_neg Bool.false_ne_true]
      exact (List.filter_eq_self.mpr (by simpa [not_le.mp hc] using hn)).symm

end Ascending

lemma sum_filter_split (g : α → ℤ) (p : α → Prop) [DecidablePred p] (l : List α) :
    (l.map g).sum = ((l.filter (fun a => p a)).map g).sum +
      ((l.filter (fun a => ¬ p a)).map g).sum := by
  induction l with
  | nil => simp
  | cons a l ih =>
    by_cases hp : p a
    · simp only [List.map_cons, List.sum_cons, hp, decide_true, List.filter_cons_of_pos, ih]
      simp only [hp, not_true_eq_false, decide_false, Bool.false_eq_true, not_false_eq_true,
        List.filter_cons_of_neg]
      ring
    · simp only [List.map_cons, List.sum_cons, hp, decide_false, Bool.false_eq_true,
        not_false_eq_true, List.filter_cons_of_neg, decide_true, List.filter_cons_of_pos, ih]
      ring

lemma sum_map_nonneg {g : α → ℤ} {l : List α} (h : ∀ a ∈ l, 0 ≤ g a) : 0 ≤ (l.map g).sum := by
  apply List.sum_nonneg
  intro x hx
  obtain ⟨a, ha, rfl⟩ := List.mem_map.mp hx
  exact h a ha

end Ledger
