import TelosSystem.Checked

/-! Auctions of many items at once. Offers are taken for every item; now and then the house closes
one auction, that of the highest offer, and the winner may claim the item. -/
namespace AuctionHouse
open Ledger

inductive Stage (β : Type*)
  | unsold
  | offered (bidder : β) (amount : ℤ) (placed : ℕ)
  | won (bidder : β) (amount : ℤ)
  deriving DecidableEq

/-- The stage of every auction, and the clock at the last closing. -/
structure House (ι β : Type*) where
  stage : ι → Stage β
  lastClose : ℕ

/-- Which offers replace an amount, how long an offer rests before it wins, and how far apart two
closings are. -/
structure Rules where
  raises : ℤ → ℤ → Prop
  rests : ℕ → ℕ → Prop
  apart : ℕ → ℕ → Prop

inductive Move (ι β : Type*)
  | bid (item : ι) (bidder : β) (amount : ℤ)
  | close (item : ι) (clock : ℕ)
  | claim (item : ι) (bidder : β)
  | idle

variable {ι β : Type*}

def House.set [DecidableEq ι] (x : House ι β) (item : ι) (stage : Stage β) : House ι β :=
  { x with stage := Function.update x.stage item stage }

def Rules.Beats (R : Rules) (bidder : β) (amount : ℤ) : Stage β → Prop
  | .unsold => True
  | .offered current currentAmount _ => current ≠ bidder ∧ R.raises currentAmount amount
  | .won _ _ => False

def House.Highest (x : House ι β) (amount : ℤ) : Prop :=
  ∀ item bidder other placed, x.stage item = .offered bidder other placed → other ≤ amount

/-- The auction of the item is closed at an offer that has rested, which no other is above. -/
structure Rules.Closes (R : Rules) (now : ℕ) (item : ι) (clock : ℕ) (bidder : β) (amount : ℤ)
    (x : House ι β) :
    Prop where
  offer : ∃ placed, x.stage item = .offered bidder amount placed ∧ R.rests placed now
  highest : x.Highest amount
  apart : R.apart clock x.lastClose

variable [DecidableEq ι]

inductive Moves (R : Rules) (now : ℕ) (x : House ι β) : Move ι β → House ι β → Prop
  | bid {item : ι} {bidder : β} {amount : ℤ} (beats : R.Beats bidder amount (x.stage item)) :
      Moves R now x (.bid item bidder amount) (x.set item (.offered bidder amount now))
  | close {item : ι} {clock : ℕ} {bidder : β} {amount : ℤ}
      (closes : R.Closes now item clock bidder amount x) :
      Moves R now x (.close item clock) { x.set item (.won bidder amount) with lastClose := clock }
  | claim {item : ι} {bidder : β} {amount : ℤ} (won : x.stage item = .won bidder amount) :
      Moves R now x (.claim item bidder) (x.set item .unsold)
  | idle : Moves R now x .idle x

namespace House

@[simp] lemma set_self (x : House ι β) (item : ι) (stage : Stage β) :
    (x.set item stage).stage item = stage :=
  Function.update_self ..

lemma set_other (x : House ι β) {item other : ι} (stage : Stage β) (h : other ≠ item) :
    (x.set item stage).stage other = x.stage other :=
  Function.update_of_ne h ..

@[simp] lemma set_lastClose (x : House ι β) (item : ι) (stage : Stage β) :
    (x.set item stage).lastClose = x.lastClose :=
  rfl

end House

namespace Moves
variable {R : Rules} {now : ℕ} {x y : House ι β} {m : Move ι β} {item : ι} {bidder : β} {amount : ℤ}

/-- An item is won by a closing only. -/
theorem closes (h : Moves R now x m y) (hx : x.stage item ≠ .won bidder amount)
    (hy : y.stage item = .won bidder amount) :
    ∃ clock, m = .close item clock ∧ R.Closes now item clock bidder amount x := by
  cases h with
  | @bid other =>
    by_cases hi : item = other
    · rw [hi, House.set_self] at hy
      cases hy
    · rw [House.set_other x _ hi] at hy
      exact absurd hy hx
  | @close other clock _ _ closes =>
    by_cases hi : item = other
    · subst hi
      have hw := (House.set_self x item _).symm.trans hy
      cases hw
      exact ⟨clock, rfl, closes⟩
    · exact absurd ((House.set_other x _ hi).symm.trans hy) hx
  | @claim other =>
    by_cases hi : item = other
    · rw [hi, House.set_self] at hy
      cases hy
    · rw [House.set_other x _ hi] at hy
      exact absurd hy hx
  | idle => exact absurd hy hx

/-- A won item stays won, to its bidder and at its amount, until the bidder claims it. -/
theorem won_or_claimed (h : Moves R now x m y) (hx : x.stage item = .won bidder amount) :
    (y.stage item = .won bidder amount ∧ ∀ other offer, m ≠ .bid item other offer) ∨
      m = .claim item bidder := by
  cases h with
  | @bid other _ _ beats =>
    by_cases hi : item = other
    · subst hi
      rw [hx] at beats
      cases beats
    · refine Or.inl ⟨(House.set_other x _ hi).trans hx, ?_⟩
      intro b offer hm
      cases hm
      exact hi rfl
  | @close other _ _ _ closes =>
    by_cases hi : item = other
    · subst hi
      obtain ⟨placed, hoffer, -⟩ := closes.offer
      rw [hx] at hoffer
      cases hoffer
    · refine Or.inl ⟨(House.set_other x _ hi).trans hx, ?_⟩
      intro b offer hm
      cases hm
  | @claim other _ _ won =>
    by_cases hi : item = other
    · subst hi
      rw [hx] at won
      cases won
      exact Or.inr rfl
    · refine Or.inl ⟨(House.set_other x _ hi).trans hx, ?_⟩
      intro b offer hm
      cases hm
  | idle =>
    refine Or.inl ⟨hx, ?_⟩
    intro b offer hm
    cases hm

/-- A closing sets the clock, to a reading apart from that of the closing before. -/
theorem lastClose (h : Moves R now x m y) :
    y.lastClose = x.lastClose ∨ ∃ item clock, m = .close item clock ∧ y.lastClose = clock := by
  cases h with
  | @close item clock => exact Or.inr ⟨item, clock, rfl, rfl⟩
  | bid => exact Or.inl rfl
  | claim => exact Or.inl rfl
  | idle => exact Or.inl rfl

end Moves

section
variable {τ ℓ σ : Type*} [LE τ]

/-- Every step of a system with an invariant is a move of the house that its label shows. -/
structure Holds (R : Rules) (clock : τ → ℕ) (house : σ → House ι β)
    (shows : ℓ → Move ι β → Prop) (I : σ → Prop)
    (step : τ → ℓ → σ → σ → Prop) : Prop where
  keep : ∀ {t l s s'}, I s → step t l s s' → I s'
  moves : ∀ {t l s s'}, I s → step t l s s' → ∃ m, shows l m ∧
    Moves R (clock t) (house s) m (house s')

namespace Holds
variable {R : Rules} {clock : τ → ℕ} {house : σ → House ι β}
    {shows : ℓ → Move ι β → Prop} {I : σ → Prop}
  {step : τ → ℓ → σ → σ → Prop} {t₀ t : τ} {s₀ s : σ} {tr : List (τ × ℓ)} {item : ι}
  {bidder : β} {amount : ℤ}

/-- An item that is won was won by the closing of its auction, and has been won since. -/
theorem won_since (h : Holds R clock house shows I step) (hI : I s₀)
    (h0 : (house s₀).stage item ≠ .won bidder amount) (hrun : TimedRun step t₀ s₀ tr t s)
    (hwon : (house s).stage item = .won bidder amount) :
    HeldSince step (fun t l s _ => ∃ reading, shows l (.close item reading) ∧
        R.Closes (clock t) item reading bidder amount (house s))
      (fun s => (house s).stage item = .won bidder amount) t₀ s₀ tr t s := by
  refine TimedRun.heldSince h.keep (fun {t l s s'} hi hstep hnot hnow => ?_) hI h0 hrun hwon
  obtain ⟨m, hm, hmove⟩ := h.moves hi hstep
  obtain ⟨reading, rfl, hcloses⟩ := hmove.closes hnot hnow
  exact ⟨reading, hm, hcloses⟩

/-- A won item is claimed by its bidder or stays won. -/
theorem won_until_claimed (h : Holds R clock house shows I step) (hI : I s₀)
    (h0 : (house s₀).stage item = .won bidder amount) (hrun : TimedRun step t₀ s₀ tr t s)
    (hclaim : ∀ x ∈ tr, ¬ shows x.2 (.claim item bidder)) :
    (house s).stage item = .won bidder amount := by
  have hboth := TimedRun.invariant (fun _ _ s => I s ∧ (house s).stage item = .won bidder amount)
    (fun l => ¬ shows l (.claim item bidder)) ⟨hI, h0⟩
    (fun {_ _ _ _ _ _} hi _ hl hstep => by
      obtain ⟨m, hm, hmove⟩ := h.moves hi.1 hstep
      rcases hmove.won_or_claimed hi.2 with ⟨hstage, -⟩ | rfl
      · exact ⟨h.keep hi.1 hstep, hstage⟩
      · exact absurd hm hl)
    hclaim hrun
  exact hboth.2

/-- Where the clock is read in order, it never runs ahead of the last closing, nor the last closing
ahead of it. -/
theorem lastClose_between (h : Holds R clock house shows I step) (hI : I s₀)
    (hrun : TimedRun step t₀ s₀ tr t s) {first last : ℕ} (hfirst : first ≤ (house s₀).lastClose)
    (hlast : (house s₀).lastClose ≤ last)
    (hread : ∀ x ∈ tr, ∀ item reading, shows x.2 (.close item reading) → first ≤ reading ∧
      reading ≤ last) :
    I s ∧ first ≤ (house s).lastClose ∧ (house s).lastClose ≤ last := by
  refine TimedRun.invariant (fun _ _ s => I s ∧ first ≤ (house s).lastClose ∧
    (house s).lastClose ≤ last)
    (fun l => ∀ item reading, shows l (.close item reading) → first ≤ reading ∧ reading ≤ last)
    ⟨hI, hfirst, hlast⟩ (fun {_ _ _ _ _ _} hi _ hl hstep => ?_) hread hrun
  obtain ⟨m, hm, hmove⟩ := h.moves hi.1 hstep
  refine ⟨h.keep hi.1 hstep, ?_⟩
  rcases hmove.lastClose with hsame | ⟨item, reading, rfl, hreading⟩
  · rw [hsame]
    exact hi.2
  · rw [hreading]
    exact hl item reading hm

end Holds
end
end AuctionHouse
