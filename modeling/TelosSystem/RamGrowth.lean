import TelosSystem.RamAccounting

/-! The growth of the RAM supply. It is applied whenever RAM is traded or the rate changes, with
a 32-bit product of the rate and the slots since the last time. -/
namespace TelosSystem
open Ledger

/-- The growth up to a slot fits 32 bits. -/
def Ram.Fits (now : BlockTimestamp) (r : Ram) : Prop :=
  (now.slot - r.lastRamIncrease) * r.newRamPerBlock < 2 ^ 32

instance (now : BlockTimestamp) (r : Ram) : Decidable (r.Fits now) := by
  unfold Ram.Fits
  infer_instance

/-- What the growth of the supply reads and writes, with the market net of trades. -/
def Ram.clock (r : Ram) : ℤ × ℕ × ℕ × ℤ :=
  (r.maxRamSize, r.newRamPerBlock, r.lastRamIncrease, r.market.base + r.totalRamBytesReserved)

def Action.UpdatesRamSupply : Action → Prop
  | .buyram .. => True
  | .buyrambytes .. => True
  | .sellram .. => True
  | .setramrate _ => True
  | _ => False

def Action.SetsRamRate : Action → Prop
  | .setramrate _ => True
  | _ => False

def Action.ramRate (rate : ℕ) : Action → ℕ
  | .setramrate bytesPerBlock => bytesPerBlock.toNat
  | _ => rate

def ramRaised (a : Action) (s s' : State) : ℤ :=
  match a with
  | .setram _ => s'.ram.maxRamSize - s.ram.maxRamSize
  | _ => 0

namespace Ram
variable {now : BlockTimestamp} {r : Ram}

def elapsed (now : BlockTimestamp) (r : Ram) : ℕ := now.slot - r.lastRamIncrease

lemma updateRamSupply_eq (now : BlockTimestamp) (r : Ram) :
    r.updateRamSupply now = { r with
      maxRamSize := r.maxRamSize + (r.elapsed now * r.newRamPerBlock % 2 ^ 32 : ℕ)
      market := { r.market with
        base := r.market.base + (r.elapsed now * r.newRamPerBlock % 2 ^ 32 : ℕ) }
      lastRamIncrease := r.lastRamIncrease + r.elapsed now } := by
  unfold updateRamSupply elapsed
  split_ifs with h
  · simp [Nat.sub_eq_zero_of_le h]
  · have hlast : r.lastRamIncrease + (now.slot - r.lastRamIncrease) = now.slot := by omega
    dsimp only
    rw [hlast]

/-- One call lets the supply grow exactly when the product fits. -/
lemma updateRamSupply_exact (r : Ram) (now : BlockTimestamp) :
    (r.updateRamSupply now).maxRamSize = r.maxRamSize + r.newRamPerBlock * r.elapsed now ↔
      r.Fits now := by
  rw [updateRamSupply_eq, Fits, ← elapsed]
  generalize r.elapsed now = n
  rw [mul_comm (r.newRamPerBlock : ℤ), ← Nat.cast_mul]
  generalize n * r.newRamPerBlock = due
  dsimp only
  omega

/-- An intermediate call makes no difference exactly when the two products do not carry. -/
lemma updateRamSupply_twice {s₁ s₂ : BlockTimestamp} (h : s₁ ≤ s₂) (r : Ram) :
    (r.updateRamSupply s₁).updateRamSupply s₂ = r.updateRamSupply s₂ ↔
      r.elapsed s₁ * r.newRamPerBlock % 2 ^ 32 +
        (r.elapsed s₂ - r.elapsed s₁) * r.newRamPerBlock % 2 ^ 32 < 2 ^ 32 := by
  have hle : s₁.slot ≤ s₂.slot := h
  have hsum : r.elapsed s₁ + (r.elapsed s₂ - r.elapsed s₁) = r.elapsed s₂ := by
    unfold elapsed
    omega
  have hrest : (r.updateRamSupply s₁).elapsed s₂ = r.elapsed s₂ - r.elapsed s₁ := by
    rw [updateRamSupply_eq]
    unfold elapsed
    dsimp only
    omega
  rw [updateRamSupply_eq s₂ (r.updateRamSupply s₁), hrest, updateRamSupply_eq s₁,
    updateRamSupply_eq s₂]
  generalize r.elapsed s₂ - r.elapsed s₁ = n at hsum ⊢
  rw [← hsum, Nat.add_mul]
  generalize r.elapsed s₁ * r.newRamPerBlock = a
  generalize n * r.newRamPerBlock = b
  constructor
  · intro heq
    have hmax := congrArg maxRamSize heq
    dsimp only at hmax
    omega
  · intro hcarry
    have hmod : (a + b) % 2 ^ 32 = a % 2 ^ 32 + b % 2 ^ 32 := by omega
    dsimp only
    rw [hmod]
    push_cast
    simp only [add_assoc]

end Ram

section
variable {now : BlockTimestamp} {s s' : State}

lemma setUserRam_ram {account : Name} {tot : UserResources} {bytes : ℤ}
    (h : (s.setUserRam account tot).setRamLimit account bytes = .ok s') : s'.ram = s.ram := by
  obtain ⟨-, limits, rfl⟩ := setRamLimit_ok h
  rfl

/-- A trade applies the growth and moves bytes between the market and the reserve. -/
lemma buyram_clock {bancor : ℤ → ℤ → ℤ → ℤ} {ctx : Context} {payer receiver : Name} {quant : Asset}
    (h : buyram bancor ctx payer receiver quant s = .ok s') :
    s'.ram.clock = (s.ram.updateRamSupply ctx.now).clock := by
  simp only [buyram, bind_ok, buyBytes, creditRam] at h
  obtain ⟨-, -, -, -, -, -, s₁, h₁, s₂, h₂, -, -, h₃⟩ := h
  obtain ⟨t, rfl, -⟩ := inlineTransfer_ok h₁
  obtain ⟨pools, token, rfl, -⟩ := chargeRamFee_ok h₂
  rw [Ram.clock, setUserRam_ram h₃]
  simp only [Ram.clock, Prod.mk.injEq, true_and]
  omega

lemma sellram_clock {bancor : ℤ → ℤ → ℤ → ℤ} {ctx : Context} {account : Name} {bytes : ℤ}
    (h : sellram bancor ctx account bytes s = .ok s') :
    s'.ram.clock = (s.ram.updateRamSupply ctx.now).clock := by
  simp only [sellram, bind_ok] at h
  obtain ⟨-, -, -, -, tot, -, -, -, ⟨out, s₁⟩, h₁, s₂, h₂, h₃⟩ := h
  simp only [sellBytes, bind_ok, pure_ok, Prod.mk.injEq] at h₁
  obtain ⟨-, -, -, -, m, hm, rfl, rfl⟩ := h₁
  obtain ⟨t, rfl, -⟩ := inlineTransfer_ok h₂
  obtain ⟨pools, token, rfl, -⟩ := chargeRamFee_ok h₃
  dsimp only
  rw [Ram.clock, setUserRam_ram hm]
  simp only [Ram.clock, Prod.mk.injEq, true_and]
  omega

/-- The old rate applies up to the slot of the change. -/
lemma setramrate_clock {ctx : Context} {rate : UInt16} (h : setramrate ctx rate s = .ok s') :
    s'.ram.clock = { s.ram.updateRamSupply ctx.now with newRamPerBlock := rate.toNat }.clock := by
  simp only [setramrate, bind_ok, pure_ok] at h
  obtain ⟨-, -, rfl⟩ := h
  rfl

/-- An action that applies the growth is not `setram`. -/
lemma ramRaised_eq_zero {a : Action} (h : a.UpdatesRamSupply) (s s' : State) :
    ramRaised a s s' = 0 := by
  cases a
  case setram => exact h.elim
  all_goals rfl

/-- What an action does to the clock of the supply. -/
structure Clocked (now : BlockTimestamp) (a : Action) (s s' : State) : Prop where
  updates : a.UpdatesRamSupply → s'.ram.clock =
    { s.ram.updateRamSupply now with newRamPerBlock := a.ramRate s.ram.newRamPerBlock }.clock
  others : ¬ a.UpdatesRamSupply → s'.ram.clock =
    (s.ram.maxRamSize + ramRaised a s s', s.ram.newRamPerBlock, s.ram.lastRamIncrease,
      s.ram.market.base + s.ram.totalRamBytesReserved + ramRaised a s s')

lemma Clocked.of_ram {a : Action} (h : s'.ram = s.ram) (hu : ¬ a.UpdatesRamSupply) :
    Clocked now a s s' := by
  refine ⟨fun h => absurd h hu, fun _ => ?_⟩
  have hraised : ramRaised a s s' = 0 := by
    cases a
    case setram => simp [ramRaised, h]
    all_goals rfl
  rw [hraised, h, Ram.clock, add_zero, add_zero]

/-- A trade leaves the rate as it is. -/
lemma Clocked.of_trade {a : Action} (h : s'.ram.clock = (s.ram.updateRamSupply now).clock)
    (hu : a.UpdatesRamSupply) (hr : a.ramRate s.ram.newRamPerBlock = s.ram.newRamPerBlock) :
    Clocked now a s s' := by
  refine ⟨fun _ => ?_, fun h => absurd hu h⟩
  rw [h, hr, Ram.updateRamSupply_eq]

theorem ramStep.clocked [FloatOps] {l : RamLabel} (h : ramStep now l s s') :
    Clocked now l.label.action s s' := by
  obtain ⟨bancor, auth, action⟩ := l
  have hother : step now ⟨auth, action⟩ s s' → ¬ action.TradesRam → ¬ action.UpdatesRamSupply →
    Clocked now action s s' :=
    fun hs htr hu => Clocked.of_ram (hs.ramSame htr).ram hu
  unfold ramStep at h
  cases action with
  | buyram payer receiver quant => exact .of_trade (buyram_clock h) trivial rfl
  | buyrambytes payer receiver bytes => exact .of_trade (buyram_clock h) trivial rfl
  | sellram account bytes => exact .of_trade (sellram_clock h) trivial rfl
  | setramrate rate => exact ⟨fun _ => setramrate_clock h, fun hu => absurd trivial hu⟩
  | setram size =>
    refine ⟨fun hu => hu.elim, fun _ => ?_⟩
    simp only [ramExec, exec, setram, bind_ok, pure_ok] at h
    obtain ⟨-, -, -, -, -, -, -, -, rfl⟩ := h
    simp only [Ram.clock, ramRaised, Prod.mk.injEq, true_and]
    omega
  | _ => exact hother h id id

end

/-- The supply as it should be: it grows with every slot, at the rate in force. -/
structure RamClock where
  rate : ℕ
  slot : ℕ
  grown : ℕ

/-- The time passes up to an action, which may change the rate. -/
def RamClock.tick (c : RamClock) (x : BlockTimestamp × RamLabel) : RamClock :=
  { rate := x.2.label.action.ramRate c.rate
    slot := max c.slot x.1.slot
    grown := c.grown + c.rate * (x.1.slot - c.slot) }

/-- The clock at the start of a run, up to the later of the time and the last growth. -/
def Ram.startClock (t₀ : BlockTimestamp) (r : Ram) : RamClock :=
  ⟨r.newRamPerBlock, max r.lastRamIncrease t₀.slot, 0⟩

namespace Ram

/-- The supply with the growth that has not been applied yet. -/
def sizeAt (now : BlockTimestamp) (r : Ram) : ℤ := r.maxRamSize + r.newRamPerBlock * r.elapsed now

/-- The market net of trades with the growth that has not been applied yet. -/
def marketAt (now : BlockTimestamp) (r : Ram) : ℤ :=
  r.market.base + r.totalRamBytesReserved + r.newRamPerBlock * r.elapsed now

lemma elapsed_later {t t' : BlockTimestamp} (h : t ≤ t') (r : Ram) :
    r.elapsed t' = r.elapsed t + (t'.slot - max r.lastRamIncrease t.slot) := by
  have hle : t.slot ≤ t'.slot := h
  unfold elapsed
  omega

end Ram

section
variable [FloatOps] {t₀ t : BlockTimestamp} {s₀ s : State} {tr : List (BlockTimestamp × RamLabel)}

/-- A step that applies the growth only while it fits. -/
def fittingStep (now : BlockTimestamp) (l : RamLabel) (s s' : State) : Prop :=
  ramStep now l s s' ∧ (l.label.action.UpdatesRamSupply → s.ram.Fits now)

/-- Since `s₀` the supply has grown by the bytes of `setram` and those of the clock, and so has the
market net of trades. -/
structure GrewBy (grown raised : ℤ) (t₀ : BlockTimestamp) (s₀ : State) (t : BlockTimestamp)
    (s : State) : Prop where
  size : s.ram.sizeAt t = s₀.ram.sizeAt t₀ + raised + grown
  market : s.ram.marketAt t = s₀.ram.marketAt t₀ + raised + grown

def arrears (t₀ : BlockTimestamp) (s₀ : State) (c : RamClock) (t : BlockTimestamp) (x : State × ℤ) :
    ℤ :=
  s₀.ram.sizeAt t₀ + x.2 + c.grown - x.1.ram.sizeAt t

/-- The rate and the slot are those of the clock, and the market net of trades is behind as far as
the supply. -/
structure ClockInv (t₀ : BlockTimestamp) (s₀ : State) (c : RamClock) (t : BlockTimestamp)
    (x : State × ℤ) : Prop where
  rate : c.rate = x.1.ram.newRamPerBlock
  slot : c.slot = max x.1.ram.lastRamIncrease t.slot
  unsold : x.1.ram.market.base + x.1.ram.totalRamBytesReserved - x.1.ram.maxRamSize =
    s₀.ram.market.base + s₀.ram.totalRamBytesReserved - s₀.ram.maxRamSize
  behind : 0 ≤ arrears t₀ s₀ c t x

omit [FloatOps] in
lemma ClockInv.start (t₀ : BlockTimestamp) (s₀ : State) :
    ClockInv t₀ s₀ (s₀.ram.startClock t₀) t₀ (s₀, 0) ∧
    arrears t₀ s₀ (s₀.ram.startClock t₀) t₀ (s₀, 0) = 0 := by
  have hzero : arrears t₀ s₀ (s₀.ram.startClock t₀) t₀ (s₀, 0) = 0 := by
    simp [arrears, Ram.startClock]
  exact ⟨⟨rfl, rfl, rfl, hzero.ge⟩, hzero⟩

omit [FloatOps] in
lemma ClockInv.grewBy_iff {c : RamClock} {raised : ℤ} (h : ClockInv t₀ s₀ c t (s, raised)) :
    GrewBy c.grown raised t₀ s₀ t s ↔ arrears t₀ s₀ c t (s, raised) = 0 := by
  have hu := h.unsold
  simp only [arrears] at hu ⊢
  constructor
  · intro hg
    have hs := hg.size
    omega
  · intro ha
    refine ⟨by omega, ?_⟩
    simp only [Ram.sizeAt, Ram.marketAt] at ha ⊢
    omega

omit [FloatOps] in
/-- Until the next action the growth of the clock is what the supply has not applied. -/
lemma ClockInv.tick_grown {c : RamClock} {t' : BlockTimestamp} {m : ℤ} {l : RamLabel}
    (h : ClockInv t₀ s₀ c t (s, m)) (hle : t ≤ t') :
    s₀.ram.sizeAt t₀ + m + (c.tick (t', l)).grown =
      arrears t₀ s₀ c t (s, m) + s.ram.maxRamSize +
        (s.ram.elapsed t' * s.ram.newRamPerBlock : ℕ) := by
  have hrate := h.rate
  have hslot := h.slot
  simp only at hrate hslot
  simp only [RamClock.tick, arrears, Ram.sizeAt, hrate, hslot, s.ram.elapsed_later hle]
  push_cast
  ring

/-- A step adds to the arrears unless the growth it applies fits. -/
lemma ramStep.arrears {c : RamClock} {t' : BlockTimestamp} {l : RamLabel} {s' : State} {m : ℤ}
    (h : ramStep t' l s s') (hle : t ≤ t') (hi : ClockInv t₀ s₀ c t (s, m)) :
    ClockInv t₀ s₀ (c.tick (t', l)) t' (s', m + ramRaised l.label.action s s') ∧
      (TelosSystem.arrears t₀ s₀ (c.tick (t', l)) t' (s', m + ramRaised l.label.action s s') = 0 ↔
        TelosSystem.arrears t₀ s₀ c t (s, m) = 0 ∧
        (l.label.action.UpdatesRamSupply → s.ram.Fits t')) := by
  have hc := h.clocked
  have hirate := hi.rate
  have hislot := hi.slot
  have hunsold := hi.unsold
  have hbehind := hi.behind
  have hgrown := @ClockInv.tick_grown t₀ t s₀ s c t' m l hi hle
  have hslots : t.slot ≤ t'.slot := hle
  dsimp only at hirate hislot hunsold
  by_cases hu : l.label.action.UpdatesRamSupply
  · have hraised : ramRaised l.label.action s s' = 0 := by
      generalize l.label.action = a at hu
      cases a
      case setram => exact hu.elim
      all_goals rfl
    have hclock := hc.updates hu
    rw [Ram.updateRamSupply_eq] at hclock
    simp only [Ram.clock, Prod.mk.injEq] at hclock
    obtain ⟨hsize, hrate, hlast, hmarket⟩ := hclock
    have hnone : s'.ram.elapsed t' = 0 := by
      unfold Ram.elapsed at hlast ⊢
      omega
    have hfits : s.ram.Fits t' ↔ s.ram.elapsed t' * s.ram.newRamPerBlock % 2 ^ 32 =
        s.ram.elapsed t' * s.ram.newRamPerBlock := by
      rw [Ram.Fits, ← Ram.elapsed]
      omega
    have hmod := Nat.mod_le (s.ram.elapsed t' * s.ram.newRamPerBlock) (2 ^ 32)
    have harrears : TelosSystem.arrears t₀ s₀ (c.tick (t', l)) t'
      (s', m + ramRaised l.label.action s s') =
        TelosSystem.arrears t₀ s₀ c t (s, m) + ((s.ram.elapsed t' * s.ram.newRamPerBlock : ℕ) -
          (s.ram.elapsed t' * s.ram.newRamPerBlock % 2 ^ 32 : ℕ)) := by
      rw [TelosSystem.arrears, hraised, add_zero, hgrown, Ram.sizeAt, hnone, hsize]
      ring
    refine ⟨⟨?_, ?_, ?_, ?_⟩, ?_⟩
    · simp only [RamClock.tick]
      rw [hrate, hirate]
    · simp only [RamClock.tick, hislot]
      unfold Ram.elapsed at hlast
      omega
    · dsimp only
      omega
    · rw [harrears]
      omega
    · rw [harrears, hfits, forall_prop_of_true hu]
      omega
  · have hclock := hc.others hu
    simp only [Ram.clock, Prod.mk.injEq] at hclock
    obtain ⟨hsize, hrate, hlast, hmarket⟩ := hclock
    have hkept : l.label.action.ramRate c.rate = c.rate := by
      generalize l.label.action = a at hu
      cases a
      case setramrate => exact absurd trivial hu
      all_goals rfl
    have harrears : TelosSystem.arrears t₀ s₀ (c.tick (t', l)) t'
      (s', m + ramRaised l.label.action s s') =
        TelosSystem.arrears t₀ s₀ c t (s, m) := by
      have hpending : s'.ram.elapsed t' = s.ram.elapsed t' := by
        rw [Ram.elapsed, hlast, Ram.elapsed]
      simp only [TelosSystem.arrears, Ram.sizeAt, hpending, hsize, hrate] at hgrown ⊢
      push_cast at hgrown
      linarith
    refine ⟨⟨?_, ?_, ?_, harrears ▸ hbehind⟩, ?_⟩
    · simp only [RamClock.tick]
      rw [hkept, hrate, hirate]
    · simp only [RamClock.tick, hislot, hlast]
      omega
    · dsimp only
      omega
    · rw [harrears]
      exact (and_iff_left fun h => absurd h hu).symm

lemma ramStep.unique {now : BlockTimestamp} {l : RamLabel} {s s₁ s₂ : State}
    (h₁ : ramStep now l s s₁) (h₂ : ramStep now l s s₂) : s₁ = s₂ := by
  unfold ramStep at h₁ h₂
  rw [h₁] at h₂
  exact Except.ok.inj h₂

/-- The arrears of a run are zero exactly when each growth fits. -/
lemma arrears_run {x : State × ℤ}
    (hrun : TimedRun (ledgerStep ramStep fun _ l => ramRaised l.label.action) t₀ (s₀, 0) tr t x) :
    ClockInv t₀ s₀ (tr.foldl RamClock.tick (s₀.ram.startClock t₀)) t x ∧
      (arrears t₀ s₀ (tr.foldl RamClock.tick (s₀.ram.startClock t₀)) t x = 0 ↔
        TimedRun fittingStep t₀ s₀ tr t x.1) := by
  induction hrun with
  | nil =>
    obtain ⟨hi, hzero⟩ := ClockInv.start t₀ s₀
    exact ⟨hi, iff_of_true hzero .nil⟩
  | @snoc tr t t' l x y prior later next ih =>
    obtain ⟨s₁, n⟩ := x
    obtain ⟨s₂, n'⟩ := y
    obtain ⟨hstep, hn⟩ := next
    dsimp only at hstep hn
    subst hn
    obtain ⟨hi, hiff⟩ := ih
    obtain ⟨hi', hiff'⟩ := hstep.arrears later hi
    rw [List.foldl_append, List.foldl_cons, List.foldl_nil]
    refine ⟨hi', hiff'.trans ?_⟩
    rw [hiff]
    constructor
    · rintro ⟨hrun, hfits⟩
      exact hrun.snoc later ⟨hstep, hfits⟩
    · intro hrun
      obtain ⟨-, t₁, s₃, hprior, -, hlast, hfits⟩ := hrun.snoc_inv
      have hprior' : TimedRun ramStep t₀ s₀ tr t₁ s₃ := hprior.mono fun h => h.1
      have hsame : t = t₁ ∧ s₁ = s₃ := by
        refine prior.ofLedger.unique ?_ hprior'
        exact ramStep.unique
      obtain ⟨rfl, rfl⟩ := hsame
      exact ⟨hprior, hfits⟩

/-- In `slots` slots the supply has grown at the rate of `s₀`, and so has the market net of trades. -/
structure GrewAtRate (slots : ℕ) (raised : ℤ) (s₀ s : State) : Prop where
  size : s.ram.maxRamSize = s₀.ram.maxRamSize + raised + s₀.ram.newRamPerBlock * slots
  market : s.ram.market.base + s.ram.totalRamBytesReserved =
    s₀.ram.market.base + s₀.ram.totalRamBytesReserved + raised + s₀.ram.newRamPerBlock * slots

/-- An action that applies the growth applies it up to its own slot. -/
lemma ramStep.applied {now : BlockTimestamp} {l : RamLabel} {s' : State} (h : ramStep now l s s')
    (hu : l.label.action.UpdatesRamSupply) :
    s'.ram.lastRamIncrease = max s.ram.lastRamIncrease now.slot := by
  have hclock := h.clocked.updates hu
  rw [Ram.updateRamSupply_eq] at hclock
  simp only [Ram.clock, Ram.elapsed, Prod.mk.injEq] at hclock
  omega

omit [FloatOps] in
/-- The clock shows the time of the last action. -/
lemma tick_slot {σ : Type*} {step : BlockTimestamp → RamLabel → σ → σ → Prop} {x₀ x : σ}
    {c : RamClock} (hrun : TimedRun step t₀ x₀ tr t x) (h : t₀.slot ≤ c.slot) :
    (tr.foldl RamClock.tick c).slot = max c.slot t.slot := by
  induction hrun with
  | nil => exact (max_eq_left h).symm
  | @snoc tr t t' l x y prior later next ih =>
    have hle : t.slot ≤ t'.slot := later
    rw [List.foldl_append, List.foldl_cons, List.foldl_nil, RamClock.tick, ih, max_assoc,
      max_eq_right hle]

omit [FloatOps] in
/-- The clock over a time without a change of the rate. -/
lemma tick_constant {c : RamClock} (hrates : ∀ x ∈ tr, ¬ x.2.label.action.SetsRamRate) :
    (tr.foldl RamClock.tick c).rate = c.rate ∧ c.slot ≤ (tr.foldl RamClock.tick c).slot ∧
      (tr.foldl RamClock.tick c).grown = c.grown + c.rate *
        ((tr.foldl RamClock.tick c).slot - c.slot) := by
  induction tr generalizing c with
  | nil => simp
  | cons x tr ih =>
    have hkept : x.2.label.action.ramRate c.rate = c.rate := by
      have hx := hrates x List.mem_cons_self
      generalize x.2.label.action = a at hx
      cases a
      case setramrate => exact absurd trivial hx
      all_goals rfl
    obtain ⟨hrate, hslot, hgrown⟩ := @ih (c.tick x) fun y hy => hrates y (List.mem_cons_of_mem _ hy)
    have hx : (c.tick x).slot = max c.slot x.1.slot := rfl
    have hgx : (c.tick x).grown = c.grown + c.rate * (x.1.slot - c.slot) := rfl
    have hrx : (c.tick x).rate = c.rate := hkept
    rw [List.foldl_cons]
    refine ⟨hrate.trans hrx, by omega, ?_⟩
    rw [hgrown, hgx, hrx, add_assoc, ← Nat.mul_add]
    congr 2
    omega

/-- From the slot of a growth to the slot of a later one, without a change of the rate in between. -/
lemma grewAtRate_run {m : ℤ} {t' : BlockTimestamp} {l : RamLabel} {s' : State}
    (hrun : TimedRun (ledgerStep ramStep fun _ l => ramRaised l.label.action) t₀
      (s₀, 0) tr t (s, m))
    (hrates : ∀ x ∈ tr, ¬ x.2.label.action.SetsRamRate) (hlast : s₀.ram.lastRamIncrease = t₀.slot)
    (hle : t ≤ t') (hs : ramStep t' l s s') (hu : l.label.action.UpdatesRamSupply) :
    GrewAtRate (t'.slot - t₀.slot) m s₀ s' ↔
      TimedRun fittingStep t₀ s₀ (tr ++ [(t', l)]) t' s' := by
  have hstep : ledgerStep ramStep (fun _ l => ramRaised l.label.action) t' l (s, m) (s', m) :=
    ⟨hs, by simp [ramRaised_eq_zero hu]⟩
  have hrun' := hrun.snoc hle hstep
  obtain ⟨hi, hiff⟩ := arrears_run hrun'
  rw [← hiff, ← hi.grewBy_iff]
  -- the time of the clock on both parts of the run, at the one rate
  have hslot := tick_slot hrun (c := s₀.ram.startClock t₀) (le_max_right _ _)
  have hlater : t₀ ≤ t := hrun.stateInvariant (fun t _ => t₀ ≤ t) le_rfl fun hi hle _ =>
    le_trans hi hle
  have hlater' : t₀.slot ≤ t.slot := hlater
  have hle' : t.slot ≤ t'.slot := hle
  have hstart : (s₀.ram.startClock t₀).slot = t₀.slot := by simp [Ram.startClock, hlast]
  obtain ⟨hrate, -, hgrown⟩ := @tick_constant tr (s₀.ram.startClock t₀) hrates
  have hclock : ((tr ++ [(t', l)]).foldl RamClock.tick (s₀.ram.startClock t₀)).grown =
      s₀.ram.newRamPerBlock * (t'.slot - t₀.slot) := by
    rw [List.foldl_append, List.foldl_cons, List.foldl_nil, RamClock.tick, hgrown,
      hrate, hslot, hstart]
    simp only [Ram.startClock, Nat.zero_add, ← Nat.mul_add]
    congr 1
    omega
  rw [hclock]
  -- neither end has growth that is still to be applied
  have hend : s'.ram.elapsed t' = 0 := by
    rw [Ram.elapsed, hs.applied hu]
    omega
  have hbegin : s₀.ram.elapsed t₀ = 0 := by rw [Ram.elapsed, hlast, Nat.sub_self]
  constructor
  · intro h
    refine ⟨?_, ?_⟩
    · rw [Ram.sizeAt, Ram.sizeAt, hend, hbegin, h.size]
      push_cast
      ring
    · rw [Ram.marketAt, Ram.marketAt, hend, hbegin, h.market]
      push_cast
      ring
  · intro h
    have hsize := h.size
    have hmarket := h.market
    rw [Ram.sizeAt, Ram.sizeAt, hend, hbegin] at hsize
    rw [Ram.marketAt, Ram.marketAt, hend, hbegin] at hmarket
    push_cast at hsize hmarket
    exact ⟨by linarith, by linarith⟩

/-- Over whole runs the supply and the market net of trades keep pace with the clock if and only if
each growth fits 32 bits. From one change of the rate to the next, the second one included, they grow
by the rate times the slots between the two. An intermediate call makes no difference if and only if
the products do not carry. -/
theorem ram_growth {m : ℤ}
    (hrun : TimedRun (ledgerStep ramStep fun _ l => ramRaised l.label.action) t₀
      (s₀, 0) tr t (s, m)) :
    (GrewBy (tr.foldl RamClock.tick (s₀.ram.startClock t₀)).grown m t₀ s₀ t s ↔
      TimedRun fittingStep t₀ s₀ tr t s) ∧
    (∀ t' l s', t ≤ t' → ramStep t' l s s' → l.label.action.UpdatesRamSupply →
      (s.ram.lastRamIncrease ≤ t'.slot → s'.ram.lastRamIncrease = t'.slot) ∧
      ((∀ x ∈ tr, ¬ x.2.label.action.SetsRamRate) → s₀.ram.lastRamIncrease = t₀.slot →
        (GrewAtRate (t'.slot - t₀.slot) m s₀ s' ↔
          TimedRun fittingStep t₀ s₀ (tr ++ [(t', l)]) t' s'))) ∧
    ∀ (r : Ram) (s₁ s₂ : BlockTimestamp), s₁ ≤ s₂ →
      ((r.updateRamSupply s₂).maxRamSize = r.maxRamSize + r.newRamPerBlock * r.elapsed s₂ ↔
        r.Fits s₂) ∧
      ((r.updateRamSupply s₁).updateRamSupply s₂ = r.updateRamSupply s₂ ↔
        r.elapsed s₁ * r.newRamPerBlock % 2 ^ 32 +
          (r.elapsed s₂ - r.elapsed s₁) * r.newRamPerBlock % 2 ^ 32 < 2 ^ 32) := by
  obtain ⟨hi, hiff⟩ := arrears_run hrun
  refine ⟨hi.grewBy_iff.trans hiff, fun t' l s' hle hs hu =>
    ⟨fun hpast => ?_, fun hrates hlast => ?_⟩,
    fun r s₁ s₂ h => ⟨r.updateRamSupply_exact s₂, r.updateRamSupply_twice h⟩⟩
  · rw [hs.applied hu, max_eq_right hpast]
  · exact grewAtRate_run hrun hrates hlast hle hs hu

omit [FloatOps]

/-- The rate is set to its maximum, and some time later to a lower one. -/
def ratedTrace (seconds : ℕ) : List (BlockTimestamp × Label) :=
  [(launchTime, ⟨[systemAccount], .setramrate 65535⟩),
    (launchTime.after seconds, ⟨[systemAccount], .setramrate 100⟩)]

/-- After half a day at the maximal rate the supply has not grown by what was due. -/
theorem growth_wraps : launches (ratedTrace 43200) = true ∧
    ¬ GrewAtRate 86400 0 (launched ((ratedTrace 43200).take 1)) (launched (ratedTrace 43200)) := by
  refine ⟨by decide +kernel, fun h => ?_⟩
  have hsize := h.size
  revert hsize
  decide +kernel

/-- A minute at the maximal rate with a trade in it, and a trade at the lower rate after it. -/
def minuteTrace : List (BlockTimestamp × Label) :=
  [(launchTime, ⟨[systemAccount], .setramrate 65535⟩),
    (launchTime.after 30, ⟨[alice], .buyram alice alice ⟨20000, tlos⟩⟩),
    (launchTime.after 60, ⟨[systemAccount], .setramrate 100⟩),
    (launchTime.after 90, ⟨[alice], .buyram alice alice ⟨20000, tlos⟩⟩)]

theorem minute_growth :
    GrewBy (120 * 65535 + 60 * 100) 0 launchTime launchState (launchTime.after 90)
      (launched minuteTrace) ∧
    GrewAtRate 120 0 (launched (minuteTrace.take 1)) (launched (minuteTrace.take 3)) ∧
    (launched (minuteTrace.take 1)).ram.newRamPerBlock = 65535 := by
  let := launchFloats
  have hfitting : ∀ {tr now l}, launches (tr ++ [(now, l)]) = true → (launched tr).ram.Fits now →
      fittingStep now ⟨getBancorOutput, l⟩ (launched tr) (launched (tr ++ [(now, l)])) :=
    fun hl hf => ⟨(launched_step hl).ramStep, fun _ => hf⟩
  have h₁ := @hfitting [] _ _ (show launches (minuteTrace.take 1) = true by decide +kernel)
    (by decide +kernel)
  have h₂ := @hfitting (minuteTrace.take 1)
    _ _ (show launches (minuteTrace.take 2) = true by decide +kernel)
    (by decide +kernel)
  have h₃ := @hfitting (minuteTrace.take 2)
    _ _ (show launches (minuteTrace.take 3) = true by decide +kernel)
    (by decide +kernel)
  have h₄ := @hfitting (minuteTrace.take 3) _ _ (show launches minuteTrace = true by decide +kernel)
    (by decide +kernel)
  have hledger : ∀ {now l s s'}, fittingStep now l s s' → l.label.action.UpdatesRamSupply →
      ledgerStep ramStep (fun _ l => ramRaised l.label.action) now l (s, 0) (s', 0) :=
    fun h hu => ⟨h.1, by simp [ramRaised_eq_zero hu]⟩
  have hchain : launchTime ≤ launchTime.after 30 ∧ launchTime.after 30 ≤ launchTime.after 60 ∧
      launchTime.after 60 ≤ launchTime.after 90 := by decide
  obtain ⟨hle₁, hle₂, hle₃⟩ := hchain
  -- the whole run
  have hfit := (((TimedRun.nil.snoc le_rfl h₁).snoc hle₁ h₂).snoc hle₂ h₃).snoc hle₃ h₄
  have hrun : TimedRun (ledgerStep ramStep fun _ l => ramRaised l.label.action) launchTime
    (launchState, 0)
      (floorTrades minuteTrace) (launchTime.after 90) (launched minuteTrace, 0) :=
    (((TimedRun.nil.snoc le_rfl (hledger h₁ trivial)).snoc hle₁ (hledger h₂ trivial)).snoc hle₂
      (hledger h₃ trivial)).snoc hle₃ (hledger h₄ trivial)
  -- the minute between the two changes
  have hfit' := (TimedRun.nil.snoc hle₁ h₂).snoc hle₂ h₃
  have hrun' : TimedRun (ledgerStep ramStep fun _ l => ramRaised l.label.action) launchTime
      (launched (minuteTrace.take 1), 0) (floorTrades ((minuteTrace.take 2).drop 1))
      (launchTime.after 30)
      (launched (minuteTrace.take 2), 0) :=
    TimedRun.nil.snoc hle₁ (hledger h₂ trivial)
  have hrates : ∀ x ∈ floorTrades ((minuteTrace.take 2).drop 1),
    ¬ x.2.label.action.SetsRamRate := by
    simp [floorTrades, minuteTrace, Action.SetsRamRate]
  refine ⟨(ram_growth hrun).1.mpr hfit, ?_, by decide +kernel⟩
  exact (((ram_growth hrun').2.1 _ _ _ hle₂ h₃.1 trivial).2 hrates (by decide +kernel)).mpr hfit'

end
end TelosSystem
