import TelosSystem.Checked

/-! A log kept in a table of bounded size. Records come in increasing order of their key; each
new record is put at its place, and then a bounded number of old ones is removed at the front.
The table is a suffix of the log that keeps every recent record. -/
namespace Ledger

section
variable {α : Type} (key : α → ℕ)

/-- Add a row at the place of its key; a key is used once. -/
def emplaceRow (r : α) (rows : List α) : Except String (List α) :=
  if ∀ x ∈ rows, key x ≠ key r then
    .ok (rows.takeWhile (fun x => key x < key r) ++ r :: rows.dropWhile fun x => key x < key r)
  else .error "could not insert object, most likely a uniqueness constraint was violated"

/-- Remove up to `count` leading rows whose key is at most `bound`. -/
def eraseFront (bound : ℕ) : ℕ → List α → List α
  | 0, rows => rows
  | _ + 1, [] => []
  | count + 1, r :: rows => if key r ≤ bound then eraseFront bound count rows else r :: rows

variable {key}

lemma emplaceRow_last {r : α} {rows : List α} (h : ∀ x ∈ rows, key x < key r) :
    emplaceRow key r rows = .ok (rows ++ [r]) := by
  have hd : ∀ x ∈ rows, (decide (key x < key r)) = true := fun x hx => decide_eq_true (h x hx)
  unfold emplaceRow
  rw [if_pos fun x hx => (h x hx).ne, List.takeWhile_eq_self_iff.mpr hd,
    List.dropWhile_eq_nil_iff.mpr hd]

/-- What is removed is a prefix of rows within the bound. -/
lemma eraseFront_prefix (bound count : ℕ) (rows : List α) :
    ∃ old, rows = old ++ eraseFront key bound count rows ∧ ∀ r ∈ old, key r ≤ bound := by
  induction count generalizing rows with
  | zero => exact ⟨[], rfl, by simp⟩
  | succ count ih =>
    cases rows with
    | nil => exact ⟨[], rfl, by simp⟩
    | cons r rows =>
      unfold eraseFront
      split_ifs with hr
      · obtain ⟨old, hold, hle⟩ := ih rows
        refine ⟨r :: old, by rw [List.cons_append, ← hold], ?_⟩
        intro x hx
        rcases List.mem_cons.mp hx with rfl | hx
        · exact hr
        · exact hle x hx
      · exact ⟨[], rfl, by simp⟩

lemma eraseFront_length_lt {bound count : ℕ} {r : α} (rows : List α) (hc : 0 < count)
    (hr : key r ≤ bound) : (eraseFront key bound count (r :: rows)).length ≤ rows.length := by
  obtain ⟨n, rfl⟩ : ∃ n, count = n + 1 := ⟨count - 1, by omega⟩
  rw [eraseFront, if_pos hr]
  obtain ⟨old, hold, -⟩ : ∃ old, rows = old ++ eraseFront key bound n rows ∧
    ∀ r ∈ old, key r ≤ bound :=
    eraseFront_prefix bound n rows
  have h := congrArg List.length hold
  rw [List.length_append] at h
  omega

/-- Increasing keys spread out at least as far as there are rows. -/
lemma key_spread {r : α} {rows : List α} (h : (r :: rows).Pairwise fun x y => key x < key y)
    (last : α) (hlast : last ∈ (r :: rows).getLast?) : key r + rows.length ≤ key last := by
  induction rows generalizing r with
  | nil =>
    cases hlast
    simp
  | cons r' rows ih =>
    rw [List.getLast?_cons_cons] at hlast
    have hr : key r < key r' := List.rel_of_pairwise_cons h (by simp)
    have := ih h.of_cons hlast
    rw [List.length_cons]
    omega

variable (key) in
/-- The rows are the end of the log, at most `w` of them, and none of the log's records with a
key within `w` of the newest is missing. -/
structure RollingWindow (w : ℕ) (log rows : List α) : Prop where
  suffix : ∃ old, log = old ++ rows ∧ ∀ r ∈ old, ∃ x ∈ log, key r + w ≤ key x
  length_le : rows.length ≤ w

namespace RollingWindow
variable {w : ℕ} {log rows : List α}

lemma nil (w : ℕ) : RollingWindow key w [] [] where
  suffix := ⟨[], rfl, by simp⟩
  length_le := by simp

lemma isSuffix (h : RollingWindow key w log rows) : rows <:+ log := by
  obtain ⟨old, rfl, -⟩ := h.suffix
  exact List.suffix_append old rows

lemma mem_of_recent (h : RollingWindow key w log rows) {r : α} (hr : r ∈ log)
    (hrecent : ∀ x ∈ log, key x < key r + w) : r ∈ rows := by
  obtain ⟨old, rfl, hold⟩ := h.suffix
  rcases List.mem_append.mp hr with hr | hr
  · obtain ⟨x, hx, hle⟩ := hold r hr
    have := hrecent x hx
    omega
  · exact hr

lemma pairwise {R : α → α → Prop} (h : RollingWindow key w log rows) (hsort : log.Pairwise R) :
    rows.Pairwise R := hsort.sublist h.isSuffix.sublist

/-- After a new record and the removal of the rows that left the window it is a window again:
a full one loses its first row at least. -/
lemma push (h : RollingWindow key w log rows) {r : α} {count : ℕ} (hc : 0 < count)
    (hsort : (log ++ [r]).Pairwise fun x y => key x < key y) (hpos : ∀ x ∈ log ++ [r], 0 < key x) :
    RollingWindow key w (log ++ [r]) (eraseFront key (max (key r) w - w) count (rows ++ [r])) := by
  obtain ⟨old, hlog, hold⟩ := h.suffix
  obtain ⟨gone, hrows, hgone⟩ :
    ∃ gone, rows ++ [r] = gone ++ eraseFront key (max (key r) w - w) count (rows ++ [r]) ∧
      ∀ x ∈ gone, key x ≤ max (key r) w - w := eraseFront_prefix _ count (rows ++ [r])
  have hsplit : log ++ [r] = old ++ (rows ++ [r]) := by rw [hlog, List.append_assoc]
  have hmem : ∀ x ∈ rows ++ [r], x ∈ log ++ [r] := by
    rw [hsplit]
    exact fun x hx => List.mem_append_right _ hx
  constructor
  · refine ⟨old ++ gone, by rw [hsplit, List.append_assoc, ← hrows], ?_⟩
    intro x hx
    rcases List.mem_append.mp hx with hx | hx
    · obtain ⟨y, hy, hle⟩ := hold x hx
      exact ⟨y, List.mem_append_left _ hy, hle⟩
    · have hx0 := hpos x (hmem x (hrows ▸ List.mem_append_left _ hx))
      have := hgone x hx
      exact ⟨r, by simp, by omega⟩
  · have hs : (rows ++ [r]).Pairwise fun x y => key x < key y := by
      rw [hsplit] at hsort
      exact (List.pairwise_append.mp hsort).2.1
    cases rows with
    | nil =>
      have hlen := congrArg List.length hrows
      have := hpos r (by simp)
      cases w with
      | zero => exact eraseFront_length_lt [] hc (by omega)
      | succ w =>
        rw [List.nil_append, List.length_singleton, List.length_append] at hlen
        rw [List.nil_append]
        omega
    | cons x rows =>
      rw [List.cons_append] at hs hrows ⊢
      have hspread := key_spread hs r (by rw [← List.cons_append]; exact List.getLast?_concat)
      have hx := hpos x (hmem x (by simp))
      have hle := h.length_le
      rw [List.length_append, List.length_singleton] at hspread
      rw [List.length_cons] at hle
      by_cases hfull : rows.length + 1 = w
      · have := eraseFront_length_lt (rows ++ [r]) hc (show key x ≤ max (key r) w - w by omega)
        rw [List.length_append, List.length_singleton] at this
        omega
      · have hlen := congrArg List.length hrows
        rw [List.length_cons, List.length_append, List.length_append, List.length_singleton] at hlen
        omega

/-- When the last `w` records have consecutive keys they are the window. -/
lemma eq_of_consecutive (h : RollingWindow key w log rows) {old news : List α} {k : ℕ}
    (hlog : log = old ++ news) (hsort : log.Pairwise fun x y => key x < key y)
    (hnews : news.map key = List.range' k w) : rows = news := by
  have hlen : news.length = w := by simpa using congrArg List.length hnews
  have hsub : ∀ r ∈ news, r ∈ rows := by
    intro r hr
    refine h.mem_of_recent (hlog ▸ List.mem_append_right _ hr) ?_
    have hk := List.mem_range'_1.mp (hnews ▸ List.mem_map_of_mem (f := key) hr)
    intro x hx
    rw [hlog] at hx hsort
    rcases List.mem_append.mp hx with hx | hx
    · have := (List.pairwise_append.mp hsort).2.2 x hx r hr
      omega
    · have := List.mem_range'_1.mp (hnews ▸ List.mem_map_of_mem (f := key) hx)
      omega
  have hnodup : news.Nodup := by
    refine List.Nodup.of_map key ?_
    rw [hnews]
    exact List.nodup_range'
  have hle : news.length ≤ rows.length := (hnodup.subperm hsub).length_le
  have := h.length_le
  obtain ⟨_, hs⟩ := h.isSuffix
  rw [hlog] at hs
  exact (List.append_inj' hs (by omega)).2

end RollingWindow
end
end Ledger
