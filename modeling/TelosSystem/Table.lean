import Mathlib

/-! Keyed tables with integer totals. A table is an association list without duplicate
keys; the totals below are what a ledger proof needs: one row can be replaced, added or
removed and the total moves by exactly the difference of that row. -/
namespace Ledger

/-- Rows of type `α` under unique keys of type `κ`. -/
abbrev Table (κ α : Type*) := AList (fun _ : κ => α)

namespace Table
variable {κ α : Type*}

section
variable {M : Type*} [AddCommGroup M]

def sum (f : κ → α → M) (t : Table κ α) : M := (t.entries.map fun r => f r.1 r.2).sum

@[simp] lemma sum_empty (f : κ → α → M) : sum f (∅ : Table κ α) = 0 := rfl

variable [DecidableEq κ]

/-- The value of `f` at the row of `k`, zero when there is no such row. -/
def sumAt (f : κ → α → M) (t : Table κ α) (k : κ) : M := ((t.lookup k).map (f k)).getD 0

lemma sumAt_none {f : κ → α → M} {t : Table κ α} {k : κ} (h : t.lookup k = none) :
    sumAt f t k = 0 := by
  simp [sumAt, h]

lemma sumAt_some {f : κ → α → M} {t : Table κ α} {k : κ} {v : α} (h : t.lookup k = some v) :
    sumAt f t k = f k v := by
  simp [sumAt, h]

lemma mem_entries_iff {t : Table κ α} {k : κ} {v : α} :
    (⟨k, v⟩ : Sigma fun _ : κ => α) ∈ t.entries ↔ t.lookup k = some v :=
  (AList.mem_lookup_iff (s := t)).symm

private lemma sum_kerase (f : κ → α → M) (k : κ) (l : List (Sigma fun _ : κ => α))
    (hn : l.NodupKeys) :
    ((l.kerase k).map fun r => f r.1 r.2).sum =
      (l.map fun r => f r.1 r.2).sum - ((l.dlookup k).map (f k)).getD 0 := by
  induction l with
  | nil => simp
  | cons r l ih =>
    obtain ⟨j, v⟩ := r
    have hl := (List.nodupKeys_cons.mp hn).2
    by_cases hj : k = j
    · subst hj
      simp
    · rw [List.kerase_cons_ne hj, List.dlookup_cons_ne _ _ hj]
      simp only [List.map_cons, List.sum_cons, ih hl]
      abel

lemma sum_erase (f : κ → α → M) (t : Table κ α) (k : κ) :
    sum f (t.erase k) = sum f t - sumAt f t k :=
  sum_kerase f k t.entries t.nodupKeys

lemma sum_insert (f : κ → α → M) (t : Table κ α) (k : κ) (v : α) :
    sum f (t.insert k v) = sum f t - sumAt f t k + f k v := by
  have h := sum_erase f t k
  simp only [sum, AList.entries_insert, List.map_cons, List.sum_cons] at h ⊢
  change f k v + (((t.entries.kerase k).map fun r => f r.1 r.2).sum) = _
  change (((t.entries.kerase k).map fun r => f r.1 r.2).sum) = _ at h
  rw [h]
  abel

lemma sum_insert_old (f : κ → α → M) {t : Table κ α} {k : κ} {u : α} (v : α)
    (h : t.lookup k = some u) : sum f (t.insert k v) = sum f t - f k u + f k v := by
  rw [sum_insert, sumAt_some h]

lemma sum_insert_new (f : κ → α → M) {t : Table κ α} {k : κ} (v : α) (h : t.lookup k = none) :
    sum f (t.insert k v) = sum f t + f k v := by
  rw [sum_insert, sumAt_none h, sub_zero]

lemma sum_congr {f g : κ → α → M} {t : Table κ α} (h : ∀ k v, t.lookup k = some v → f k v = g k v) :
    sum f t = sum g t := by
  unfold sum
  congr 1
  apply List.map_congr_left
  rintro ⟨k, v⟩ hr
  exact h k v (mem_entries_iff.mp hr)

lemma sum_eq_zero {f : κ → α → M} {t : Table κ α} (h : ∀ k v, t.lookup k = some v → f k v = 0) :
    sum f t = 0 := by
  rw [sum_congr (g := fun _ _ => (0 : M)) h]
  simp [sum]

/-- A sum in which only one key counts. -/
lemma sum_single (f : κ → α → M) (t : Table κ α) (j : κ) :
    sum (fun k v => if k = j then f k v else 0) t = sumAt f t j := by
  have hz : sum (fun k v => if k = j then f k v else 0) (t.erase j) = 0 := by
    refine sum_eq_zero fun k v hk => ?_
    by_cases hkj : k = j
    · subst hkj
      simp at hk
    · rw [if_neg hkj]
  have he := sum_erase (fun k v => if k = j then f k v else 0) t j
  have hv : sumAt (fun k v => if k = j then f k v else 0) t j = sumAt f t j := by simp [sumAt]
  rw [hz, hv] at he
  exact (sub_eq_zero.mp he.symm)

variable [PartialOrder M] [IsOrderedAddMonoid M]

lemma sum_nonneg {f : κ → α → M} {t : Table κ α} (h : ∀ k v, t.lookup k = some v → 0 ≤ f k v) :
    0 ≤ sum f t := by
  apply List.sum_nonneg
  intro x hx
  obtain ⟨⟨k, v⟩, hr, rfl⟩ := List.mem_map.mp hx
  exact h k v (mem_entries_iff.mp hr)

/-- One row never exceeds the sum of non-negative rows. -/
lemma le_sum {f : κ → α → M} {t : Table κ α} {k : κ} {v : α}
    (h : ∀ k v, t.lookup k = some v → 0 ≤ f k v) (hk : t.lookup k = some v) : f k v ≤ sum f t := by
  have he := sum_erase f t k
  have hn : 0 ≤ sum f (t.erase k) := by
    apply sum_nonneg
    intro j w hj
    by_cases hkj : j = k
    · subst hkj
      simp at hj
    · rw [AList.lookup_erase_ne hkj] at hj
      exact h j w hj
  rw [sumAt_some hk] at he
  rw [he] at hn
  exact sub_nonneg.mp hn

end

def total (f : κ → α → ℤ) (t : Table κ α) : ℤ := (t.entries.map fun r => f r.1 r.2).sum

@[simp] lemma total_empty (f : κ → α → ℤ) : total f (∅ : Table κ α) = 0 := rfl

variable [DecidableEq κ]

/-- The value of `f` at the row of `k`, zero when there is no such row. -/
def valueAt (f : κ → α → ℤ) (t : Table κ α) (k : κ) : ℤ := ((t.lookup k).map (f k)).getD 0

lemma valueAt_none {f : κ → α → ℤ} {t : Table κ α} {k : κ} (h : t.lookup k = none) :
    valueAt f t k = 0 :=
  sumAt_none h

lemma valueAt_some {f : κ → α → ℤ} {t : Table κ α} {k : κ} {v : α} (h : t.lookup k = some v) :
    valueAt f t k = f k v := sumAt_some h

lemma total_erase (f : κ → α → ℤ) (t : Table κ α) (k : κ) :
    total f (t.erase k) = total f t - valueAt f t k := sum_erase f t k

lemma total_insert (f : κ → α → ℤ) (t : Table κ α) (k : κ) (v : α) :
    total f (t.insert k v) = total f t - valueAt f t k + f k v := sum_insert f t k v

lemma total_insert_new (f : κ → α → ℤ) {t : Table κ α} {k : κ} (v : α) (h : t.lookup k = none) :
    total f (t.insert k v) = total f t + f k v := sum_insert_new f v h

lemma total_insert_old (f : κ → α → ℤ) {t : Table κ α} {k : κ} {u : α} (v : α)
    (h : t.lookup k = some u) : total f (t.insert k v) = total f t - f k u + f k v :=
  sum_insert_old f v h

lemma total_congr {f g : κ → α → ℤ} {t : Table κ α}
    (h : ∀ k v, t.lookup k = some v → f k v = g k v) : total f t = total g t := sum_congr h

lemma total_nonneg {f : κ → α → ℤ} {t : Table κ α}
    (h : ∀ k v, t.lookup k = some v → 0 ≤ f k v) : 0 ≤ total f t := sum_nonneg h

/-- One row never exceeds the total of non-negative rows. -/
lemma le_total {f : κ → α → ℤ} {t : Table κ α} {k : κ} {v : α}
    (h : ∀ k v, t.lookup k = some v → 0 ≤ f k v) (hk : t.lookup k = some v) :
    f k v ≤ total f t := le_sum h hk

/-- A total in which only one key counts. -/
lemma total_single (f : κ → α → ℤ) (t : Table κ α) (j : κ) :
    total (fun k v => if k = j then f k v else 0) t = valueAt f t j := sum_single f t j

lemma lookup_insert' (t : Table κ α) (j k : κ) (v : α) :
    (t.insert k v).lookup j = if j = k then some v else t.lookup j := by
  split_ifs with h
  · subst h
    exact AList.lookup_insert t
  · exact AList.lookup_insert_ne h

lemma lookup_erase' (t : Table κ α) (j k : κ) :
    (t.erase k).lookup j = if j = k then none else t.lookup j := by
  split_ifs with h
  · subst h
    exact AList.lookup_erase j t
  · exact AList.lookup_erase_ne h

/-- Two tables whose rows count the same under every key have the same total. -/
lemma total_of_lookup {β : Type*} {f : κ → α → ℤ} {g : κ → β → ℤ} (t : Table κ α) (t' : Table κ β)
    (h : ∀ k, (t.lookup k).map (f k) = (t'.lookup k).map (g k)) : total f t = total g t' := by
  induction t using AList.insertRec generalizing t' with
  | H0 =>
    have hz : total g t' = total (fun _ _ => 0) t' := total_congr fun k v hk => by
      have hk' := h k
      rw [hk] at hk'
      cases hk'
    rw [hz]
    simp [total]
  | IH k v t hk ih =>
    have hnone : t.lookup k = none := AList.lookup_eq_none.mpr hk
    have hrow : valueAt g t' k = f k v := by
      have hk' := h k
      rw [AList.lookup_insert, Option.map_some] at hk'
      rw [valueAt, ← hk', Option.getD_some]
    have hrest := ih (t'.erase k) fun j => by
      rw [lookup_erase']
      split_ifs with hj
      · rw [hj, hnone]
        rfl
      · rw [← h j, AList.lookup_insert_ne hj]
    rw [total_insert_new _ _ hnone, hrest, total_erase, hrow]
    omega

/-- A property of every row survives the replacement of one row. -/
lemma forall_insert {P : κ → α → Prop} {t : Table κ α} {k : κ} {v : α}
    (h : ∀ j w, t.lookup j = some w → P j w) (hv : P k v) :
    ∀ j w, (t.insert k v).lookup j = some w → P j w := by
  intro j w hj
  rw [lookup_insert'] at hj
  split_ifs at hj with he
  · subst he
    cases hj
    exact hv
  · exact h j w hj

/-- A property of every row survives the removal of one row. -/
lemma forall_erase {P : κ → α → Prop} {t : Table κ α} {k : κ}
    (h : ∀ j w, t.lookup j = some w → P j w) :
    ∀ j w, (t.erase k).lookup j = some w → P j w := by
  intro j w hj
  rw [lookup_erase'] at hj
  split_ifs at hj
  exact h j w hj

omit [DecidableEq κ] in
def mapRows (f : κ → α → α) (t : Table κ α) : Table κ α where
  entries := t.entries.map (Sigma.map id f)
  nodupKeys := t.nodupKeys.map₂ f

lemma lookup_mapRows (f : κ → α → α) (t : Table κ α) (k : κ) :
    (t.mapRows f).lookup k = (t.lookup k).map (f k) :=
  List.dlookup_map₂ k

/-- Rows inserted one after the other; `R` says what a row may be replaced by. -/
def Rewrites (R : κ → Option α → α → Prop) : Table κ α → Table κ α → Prop :=
  Relation.ReflTransGen fun t t' => ∃ k v, R k (t.lookup k) v ∧ t' = t.insert k v

namespace Rewrites
variable {R : κ → Option α → α → Prop} {t t' t'' : Table κ α}

lemma refl (t : Table κ α) : Rewrites R t t := Relation.ReflTransGen.refl

lemma trans (h : Rewrites R t t') (h' : Rewrites R t' t'') : Rewrites R t t'' :=
  Relation.ReflTransGen.trans h h'

lemma insert {k : κ} {v : α} (h : R k (t.lookup k) v) : Rewrites R t (t.insert k v) :=
  Relation.ReflTransGen.single ⟨k, v, h, rfl⟩

lemma mono {R' : κ → Option α → α → Prop} (hR : ∀ k old new, R k old new → R' k old new)
    (h : Rewrites R t t') : Rewrites R' t t' :=
  Relation.ReflTransGen.mono (fun _ _ ⟨k, v, hv, he⟩ => ⟨k, v, hR _ _ _ hv, he⟩) _ _ h

/-- A fold whose rounds rewrite rows rewrites rows. -/
lemma foldl {β γ : Type*} (g : β → Table κ α) {f : β → γ → β}
    (hf : ∀ b c, Rewrites R (g b) (g (f b c))) (l : List γ) (b : β) :
    Rewrites R (g b) (g (l.foldl f b)) := by
  induction l generalizing b with
  | nil => exact refl _
  | cons c l ih => exact (hf b c).trans (ih (f b c))

end Rewrites

/-- The rows in the order of a secondary index. -/
def indexed (r : κ × α → κ × α → Prop) [DecidableRel r] (t : Table κ α) : List (κ × α) :=
  (t.entries.map fun e => (e.1, e.2)).insertionSort r

lemma mem_indexed (r : κ × α → κ × α → Prop) [DecidableRel r] {t : Table κ α} {k : κ} {v : α} :
    (k, v) ∈ indexed r t ↔ t.lookup k = some v := by
  rw [indexed, List.mem_insertionSort, ← mem_entries_iff, List.mem_map]
  constructor
  · rintro ⟨⟨j, w⟩, hm, he⟩
    cases he
    exact hm
  · exact fun hm => ⟨⟨k, v⟩, hm, rfl⟩

omit [DecidableEq κ] in
lemma nodup_indexed (r : κ × α → κ × α → Prop) [DecidableRel r] (t : Table κ α) :
    ((indexed r t).map Prod.fst).Nodup := by
  unfold indexed
  rw [((List.perm_insertionSort r _).map Prod.fst).nodup_iff, List.map_map]
  exact t.nodupKeys

omit [DecidableEq κ] in
/-- The rows in the order of an index have the same sum. -/
lemma sum_indexed {M : Type*} [AddCommGroup M] (r : κ × α → κ × α → Prop) [DecidableRel r]
    (f : κ → α → M) (t : Table κ α) : ((indexed r t).map fun e => f e.1 e.2).sum = sum f t := by
  unfold indexed sum
  rw [((List.perm_insertionSort r _).map fun e : κ × α => f e.1 e.2).sum_eq, List.map_map]
  rfl

end Table
end Ledger
