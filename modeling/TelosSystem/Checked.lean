import Mathlib

/-! Transactions that either commit or abort with a message, and timed runs of a system.
A run applies steps at non-decreasing times; the invariant rules are what a safety proof
of such a system needs. -/
namespace Ledger

/-- Abort with `msg` unless `p` holds. -/
def check (p : Prop) [Decidable p] (msg : String) : Except String Unit :=
  if p then .ok () else .error msg

/-- The value of an optional row, or an abort. -/
def require {α : Type} (o : Option α) (msg : String) : Except String α :=
  match o with
  | some a => .ok a
  | none => .error msg

section
variable {ε α β : Type}

lemma bind_ok {x : Except ε α} {f : α → Except ε β} {b : β} :
    (x >>= f) = .ok b ↔ ∃ a, x = .ok a ∧ f a = .ok b := by
  cases x <;> simp [bind, Except.bind]

lemma bind_error {x : Except ε α} {f : α → Except ε β} {e : ε} :
    (x >>= f) = .error e ↔ x = .error e ∨ ∃ a, x = .ok a ∧ f a = .error e := by
  cases x <;> simp [bind, Except.bind]

@[simp] lemma pure_ok {a b : α} : (pure a : Except ε α) = .ok b ↔ a = b := by
  simp [pure, Except.pure]

@[simp] lemma pure_error {a : α} {e : ε} : (pure a : Except ε α) = .error e ↔ False := by
  simp [pure, Except.pure]

@[simp] lemma check_ok {p : Prop} [Decidable p] {msg : String} {u : Unit} :
    check p msg = .ok u ↔ p := by
  unfold check
  split_ifs with h <;> simp [h]

@[simp] lemma check_error {p : Prop} [Decidable p] {msg e : String} :
    check p msg = .error e ↔ ¬ p ∧ msg = e := by
  unfold check
  split_ifs with h <;> simp [h]

@[simp] lemma require_ok {o : Option α} {msg : String} {a : α} :
    require o msg = .ok a ↔ o = some a := by
  cases o <;> simp [require]

@[simp] lemma require_error {o : Option α} {msg e : String} :
    require o msg = .error e ↔ o = none ∧ msg = e := by
  cases o <;> simp [require]

end

/-- The message with which a computation aborts. -/
def abortOf {ε α : Type} : Except ε α → Option ε
  | .ok _ => none
  | .error e => some e

lemma map_snd_ok {ε α β : Type} {x : Except ε (α × β)} {b : β} (h : Prod.snd <$> x = .ok b) :
    ∃ a, x = .ok (a, b) := by
  cases x with
  | ok p =>
    cases h
    exact ⟨p.1, rfl⟩
  | error e => cases h

lemma ok_of_toOption {ε α : Type} {x : Except ε α} {a : α} (h : x.toOption = some a) :
    x = .ok a := by
  cases x with
  | ok b =>
    cases h
    rfl
  | error e => cases h

lemma exists_ok {ε α : Type} {x : Except ε α} (h : x.isOk = true) : ∃ a, x = .ok a := by
  cases x with
  | ok a => exact ⟨a, rfl⟩
  | error e => cases h

/-- The entries that what follows a computation adds where it succeeds. -/
def listAfter {ε α β : Type} (x : Except ε α) (next : α → List β) : List β :=
  match x with
  | .ok a => next a
  | .error _ => []

lemma mem_listAfter {ε α β : Type} {x : Except ε α} {next : α → List β} {b : β} :
    b ∈ listAfter x next ↔ ∃ a, x = .ok a ∧ b ∈ next a := by
  cases x <;> simp [listAfter]

/-- A transaction that aborts only with some messages. -/
def Raises {α : Type} (msgs : String → Prop) (x : Except String α) : Prop :=
  ∀ e, x = .error e → msgs e

namespace Raises
variable {α β : Type} {msgs : String → Prop}

lemma ok (a : α) : Raises msgs (.ok a : Except String α) := by
  intro e h
  cases h

lemma check {p : Prop} [Decidable p] {msg : String} (h : msgs msg) :
    Raises msgs (Ledger.check p msg) := by
  intro e he
  rw [check_error] at he
  exact he.2 ▸ h

lemma require {o : Option α} {msg : String} (h : msgs msg) :
    Raises msgs (Ledger.require o msg) := by
  intro e he
  rw [require_error] at he
  exact he.2 ▸ h

lemma bind {x : Except String α} {f : α → Except String β} (hx : Raises msgs x)
    (hf : ∀ a, x = .ok a → Raises msgs (f a)) : Raises msgs (x >>= f) := by
  intro e he
  rcases bind_error.mp he with he | ⟨a, ha, he⟩
  · exact hx e he
  · exact hf a ha e he

end Raises

/-- `TimedRun step t₀ s₀ tr t s`: from `s₀` at time `t₀` the labelled steps `tr`, at
non-decreasing times, lead to `s`; the last of them happened at `t`. -/
inductive TimedRun {τ ℓ σ : Type*} [LE τ] (step : τ → ℓ → σ → σ → Prop) (t₀ : τ) (s₀ : σ) :
    List (τ × ℓ) → τ → σ → Prop
  | nil : TimedRun step t₀ s₀ [] t₀ s₀
  | snoc {tr : List (τ × ℓ)} {t t' : τ} {a : ℓ} {s s' : σ}
      (prior : TimedRun step t₀ s₀ tr t s) (later : t ≤ t') (next : step t' a s s') :
      TimedRun step t₀ s₀ (tr ++ [(t', a)]) t' s'

namespace TimedRun
variable {τ ℓ σ : Type*} [LE τ] {step : τ → ℓ → σ → σ → Prop} {t₀ t : τ} {s₀ s : σ}
  {tr : List (τ × ℓ)}

/-- An invariant of the trace, the time and the state, kept by every step whose label is
allowed, holds after every run of allowed labels. -/
theorem invariant (I : List (τ × ℓ) → τ → σ → Prop) (allowed : ℓ → Prop) (h0 : I [] t₀ s₀)
    (hstep : ∀ {tr t t' a s s'}, I tr t s → t ≤ t' → allowed a → step t' a s s' →
      I (tr ++ [(t', a)]) t' s')
    (hall : ∀ x ∈ tr, allowed x.2) (h : TimedRun step t₀ s₀ tr t s) : I tr t s := by
  induction h with
  | nil => exact h0
  | snoc prior later next ih =>
    refine hstep (ih fun x hx => hall x (by simp [hx])) later ?_ next
    exact hall _ (List.mem_append_right _ (List.mem_singleton.mpr rfl))

/-- An invariant of the time and the state, kept by every step, holds after every run. -/
theorem stateInvariant (I : τ → σ → Prop) (h0 : I t₀ s₀)
    (hstep : ∀ {t t' a s s'}, I t s → t ≤ t' → step t' a s s' → I t' s')
    (h : TimedRun step t₀ s₀ tr t s) : I t s :=
  invariant (fun _ => I) (fun _ => True) h0 (fun hi hl _ hs => hstep hi hl hs)
    (fun _ _ => trivial) h

/-- A run of fewer steps is a run of more. -/
lemma mono {step' : τ → ℓ → σ → σ → Prop} (hle : ∀ {t a s s'}, step t a s s' → step' t a s s')
    (h : TimedRun step t₀ s₀ tr t s) : TimedRun step' t₀ s₀ tr t s := by
  induction h with
  | nil => exact .nil
  | snoc prior later next ih => exact ih.snoc later (hle next)

/-- A run of steps is a run of other steps that its labels allow. -/
lemma mono_of {step' : τ → ℓ → σ → σ → Prop}
    (hle : ∀ x ∈ tr, ∀ s s', step x.1 x.2 s s' → step' x.1 x.2 s s')
    (h : TimedRun step t₀ s₀ tr t s) : TimedRun step' t₀ s₀ tr t s := by
  induction h with
  | nil => exact .nil
  | snoc prior later next ih =>
    exact .snoc (ih fun x hx => hle x (List.mem_append_left _ hx)) later
      (hle _ (List.mem_append_right _ (List.mem_singleton_self _)) _ _ next)

/-- A run of a trace in two parts is a run of the first part and one of the second. -/
lemma split {tr₁ tr₂ : List (τ × ℓ)} (h : TimedRun step t₀ s₀ (tr₁ ++ tr₂) t s) :
    ∃ t₁ s₁, TimedRun step t₀ s₀ tr₁ t₁ s₁ ∧ TimedRun step t₁ s₁ tr₂ t s := by
  induction tr₂ using List.reverseRecOn generalizing t s with
  | nil =>
    rw [List.append_nil] at h
    exact ⟨t, s, h, .nil⟩
  | append_singleton tr₂ x ih =>
    rw [← List.append_assoc] at h
    generalize he : tr₁ ++ tr₂ ++ [x] = tr at h
    cases h with
    | nil => simp at he
    | snoc prior later next =>
      obtain ⟨rfl, hx⟩ := List.append_inj' he rfl
      cases hx
      obtain ⟨t₁, s₁, h₁, h₂⟩ := ih prior
      exact ⟨t₁, s₁, h₁, h₂.snoc later next⟩

lemma snoc_inv {x : τ × ℓ} (h : TimedRun step t₀ s₀ (tr ++ [x]) t s) :
    t = x.1 ∧ ∃ t₁ s₁, TimedRun step t₀ s₀ tr t₁ s₁ ∧ t₁ ≤ x.1 ∧ step x.1 x.2 s₁ s := by
  generalize he : tr ++ [x] = l at h
  cases h with
  | nil => simp at he
  | snoc prior later next =>
    obtain ⟨rfl, hx⟩ := List.append_inj' he rfl
    cases hx
    exact ⟨rfl, _, _, prior, later, next⟩

/-- Where a step has one outcome, so has a run. -/
lemma unique (hdet : ∀ {t a s s₁ s₂}, step t a s s₁ → step t a s s₂ → s₁ = s₂) {t' : τ} {s' : σ}
    (h : TimedRun step t₀ s₀ tr t s) (h' : TimedRun step t₀ s₀ tr t' s') : t = t' ∧ s = s' := by
  induction h generalizing t' s' with
  | nil =>
    generalize he : ([] : List (τ × ℓ)) = l at h'
    cases h' with
    | nil => exact ⟨rfl, rfl⟩
    | snoc => simp at he
  | snoc prior later next ih =>
    obtain ⟨rfl, t₁, s₁, h₁, -, h₂⟩ := h'.snoc_inv
    obtain ⟨-, rfl⟩ := ih h₁
    exact ⟨rfl, hdet next h₂⟩

end TimedRun

/-- The run has a step that `turn` describes, and `P` has held since. -/
def HeldSince {τ ℓ σ : Type*} [LE τ] (step turn : τ → ℓ → σ → σ → Prop) (P : σ → Prop) (t₀ : τ)
    (s₀ : σ) (tr : List (τ × ℓ)) (t : τ) (s : σ) : Prop :=
  ∃ tr₁ t₁ s₁ t₂ l s₂ tr₂, tr = tr₁ ++ (t₂, l) :: tr₂ ∧ TimedRun step t₀ s₀ tr₁ t₁ s₁ ∧ t₁ ≤ t₂ ∧
    step t₂ l s₁ s₂ ∧ turn t₂ l s₁ s₂ ∧ P s₂ ∧
    TimedRun (fun t l s s' => step t l s s' ∧ P s') t₂ s₂ tr₂ t s

lemma HeldSince.imp {τ ℓ σ : Type*} [LE τ] {step turn turn' : τ → ℓ → σ → σ → Prop} {P : σ → Prop}
    {t₀ t : τ} {s₀ s : σ} {tr : List (τ × ℓ)} (h : HeldSince step turn P t₀ s₀ tr t s)
    (himp : ∀ {t l s s'}, turn t l s s' → turn' t l s s') :
    HeldSince step turn' P t₀ s₀ tr t s := by
  obtain ⟨tr₁, t₁, s₁, t₂, l, s₂, tr₂, htr, h₁, hle, h₂, hturn, hrest⟩ := h
  exact ⟨tr₁, t₁, s₁, t₂, l, s₂, tr₂, htr, h₁, hle, h₂, himp hturn, hrest⟩

namespace TimedRun
variable {τ ℓ σ : Type*} [LE τ] {step turn : τ → ℓ → σ → σ → Prop} {t₀ t : τ} {s₀ s : σ}
    {tr : List (τ × ℓ)}

/-- What holds after a run but not before it has held since one of its steps. -/
theorem heldSince {I P : σ → Prop} (hinv : ∀ {t l s s'}, I s → step t l s s' → I s')
    (hturn : ∀ {t l s s'}, I s → step t l s s' → ¬ P s → P s' → turn t l s s')
    (hI : I s₀) (h0 : ¬ P s₀) (h : TimedRun step t₀ s₀ tr t s) (hP : P s) :
    HeldSince step turn P t₀ s₀ tr t s := by
  induction h with
  | nil => exact absurd hP h0
  | @snoc tr t t' l s s' prior later next ih =>
    have hs : I s := stateInvariant (fun _ => I) hI (fun hi _ hstep => hinv hi hstep) prior
    by_cases hprior : P s
    · obtain ⟨tr₁, t₁, s₁, t₂, l', s₂, tr₂, rfl, h₁, hle, h₂, ht, hP₂, hrest⟩ := ih hprior
      refine ⟨tr₁, t₁, s₁, t₂, l', s₂, tr₂ ++ [(t', l)], ?_, h₁, hle, h₂, ht, hP₂,
        hrest.snoc later ⟨next, hP⟩⟩
      rw [List.append_assoc, List.cons_append]
    · exact ⟨tr, t, s, t', l, s', [], rfl, prior, later, next, hturn hs next hprior hP, hP, .nil⟩

end TimedRun

/-- The steps of a system with a ledger, to which every step adds an entry. -/
def ledgerStep {τ ℓ σ : Type*} (step : τ → ℓ → σ → σ → Prop) (entry : τ → ℓ → σ → σ → ℤ) (t : τ)
    (a : ℓ) (x y : σ × ℤ) : Prop :=
  step t a x.1 y.1 ∧ y.2 = x.2 + entry t a x.1 y.1

/-- A ledger can be kept along every run. -/
lemma TimedRun.ledger {τ ℓ σ : Type*} [LE τ] {step : τ → ℓ → σ → σ → Prop} {t₀ t : τ} {s₀ s : σ}
    {tr : List (τ × ℓ)} (entry : τ → ℓ → σ → σ → ℤ) (n : ℤ) (h : TimedRun step t₀ s₀ tr t s) :
    ∃ m, TimedRun (ledgerStep step entry) t₀ (s₀, n) tr t (s, m) := by
  induction h with
  | nil => exact ⟨n, .nil⟩
  | @snoc tr t t' a s s' prior later next ih =>
    obtain ⟨m, hm⟩ := ih
    exact ⟨m + entry t' a s s', hm.snoc later ⟨next, rfl⟩⟩

/-- A run that keeps a ledger is a run. -/
lemma TimedRun.ofLedger {τ ℓ σ : Type*} [LE τ] {step : τ → ℓ → σ → σ → Prop} {t₀ t : τ}
    {x₀ x : σ × ℤ} {tr : List (τ × ℓ)} {entry : τ → ℓ → σ → σ → ℤ}
    (h : TimedRun (ledgerStep step entry) t₀ x₀ tr t x) : TimedRun step t₀ x₀.1 tr t x.1 := by
  induction h with
  | nil => exact .nil
  | snoc prior later next ih => exact ih.snoc later next.1

/-! Runs of an executable system: a trace is executed from left to right. -/

section
variable {τ ℓ σ : Type}

def runAll (exec : τ → ℓ → σ → Except String σ) (tr : List (τ × ℓ)) (s : σ) : Except String σ :=
  tr.foldlM (fun s x => exec x.1 x.2 s) s

/-- The state a trace leads to, for a trace that does not abort. -/
def stateAfter (exec : τ → ℓ → σ → Except String σ) (tr : List (τ × ℓ)) (s : σ) : σ :=
  match runAll exec tr s with
  | .ok s' => s'
  | .error _ => s

lemma runAll_stateAfter {exec : τ → ℓ → σ → Except String σ} {tr : List (τ × ℓ)} {s : σ}
    (h : (runAll exec tr s).isOk = true) : runAll exec tr s = .ok (stateAfter exec tr s) := by
  unfold stateAfter
  cases hr : runAll exec tr s with
  | ok s' => rfl
  | error e => simp [hr, Except.isOk, Except.toBool] at h

/-- One action that does not abort. -/
lemma exec_stateAfter {exec : τ → ℓ → σ → Except String σ} {t : τ} {l : ℓ} {s : σ}
    (h : (exec t l s).isOk = true) : exec t l s = .ok (stateAfter exec [(t, l)] s) := by
  obtain ⟨s', hs⟩ := exists_ok h
  have hrun : runAll exec [(t, l)] s = .ok s' := by
    rw [runAll, List.foldlM_cons, bind_ok]
    exact ⟨s', hs, rfl⟩
  rw [hs, stateAfter, hrun]

lemma timedRun_of_runAll [LE τ] {exec : τ → ℓ → σ → Except String σ} {t₀ : τ} {s s' : σ}
    (tr : List (τ × ℓ)) (hchain : (t₀ :: tr.map Prod.fst).IsChain (· ≤ ·))
    (h : runAll exec tr s = .ok s') :
    TimedRun (fun t l s s' => exec t l s = .ok s') t₀ s tr
      ((tr.getLast?.map Prod.fst).getD t₀) s' := by
  induction tr using List.reverseRecOn generalizing s' with
  | nil =>
    cases h
    exact TimedRun.nil
  | append_singleton tr x ih =>
    rw [runAll, List.foldlM_append, bind_ok] at h
    obtain ⟨s₁, h₁, h₂⟩ := h
    rw [List.foldlM_cons, bind_ok] at h₂
    obtain ⟨s₂, h₂, h₃⟩ := h₂
    cases h₃
    rw [List.map_append, ← List.cons_append] at hchain
    obtain ⟨hc, -, hl⟩ := List.isChain_append.mp hchain
    rw [List.getLast?_concat, Option.map_some, Option.getD_some]
    refine TimedRun.snoc (ih hc h₁) ?_ h₂
    refine hl _ ?_ x.1 (by simp)
    cases tr using List.reverseRecOn with
    | nil => simp
    | append_singleton tr y =>
      rw [List.map_append, ← List.cons_append]
      simp only [List.map_cons, List.map_nil, List.getLast?_concat, Option.map_some,
        Option.getD_some]
      exact rfl

end
end Ledger
