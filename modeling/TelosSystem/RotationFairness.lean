import TelosSystem.ProducerSchedule
import TelosSystem.RoundRobin

/-! The two indices of the rotation go round the top and the standby positions. -/
namespace TelosSystem
open Ledger

abbrev Election := BlockTimestamp × List ProducerLocationPair

structure Rotated where
  candidates : ℕ
  out : ℕ
  sub : ℕ
  deriving DecidableEq, Repr

def electionStep (g : RotationState) (e : Election) : RotationState :=
  (rotationPositions e.2 e.1 g).2.2

/-- The election swaps a new pair: it is time, and there are standby producers. -/
def Rotates (g : RotationState) (e : Election) : Prop :=
  g.nextRotationTime ≤ e.1 ∧ topProducers < e.2.length

instance (g : RotationState) (e : Election) : Decidable (Rotates g e) :=
  inferInstanceAs (Decidable (_ ∧ _))

def rotationLog : List Election → RotationState → List Rotated
  | [], _ => []
  | e :: rest, g =>
    let g' := electionStep g e
    if Rotates g e then ⟨e.2.length, g'.bpOutIndex, g'.sbpInIndex⟩ :: rotationLog rest g'
    else rotationLog rest g'

section
variable {g : RotationState} {e : Election}

lemma electionStep_rotates (h : Rotates g e) :
    (electionStep g e).bpOutIndex = nextPosition 0 topProducers g.bpOutIndex ∧
      (electionStep g e).sbpInIndex = nextPosition topProducers e.2.length g.sbpInIndex := by
  unfold electionStep rotationPositions
  rw [if_pos h.1, chooseRotation, if_pos h.2]
  exact ⟨rfl, rfl⟩

/-- Without a rotation the indices stay, unless there are fewer candidates than top positions. -/
lemma electionStep_keeps (h : ¬ Rotates g e) :
    ((electionStep g e).bpOutIndex = g.bpOutIndex ∧ (electionStep g e).sbpInIndex = g.sbpInIndex) ∨
      (e.2.length < topProducers ∧ (electionStep g e).sbpInIndex = maxProducers + 1) := by
  unfold electionStep rotationPositions
  by_cases ht : g.nextRotationTime ≤ e.1
  · have hlen : ¬ topProducers < e.2.length := fun hl => h ⟨ht, hl⟩
    rw [if_pos ht, chooseRotation, if_neg hlen]
    left
    dsimp only [RotationState.updateRotationTime]
    exact ⟨rfl, rfl⟩
  · rw [if_neg ht, keepRotation]
    split
    · split
      · split_ifs
        · exact .inl ⟨rfl, rfl⟩
        · exact .inl ⟨rfl, rfl⟩
      · dsimp only
        split_ifs with hlen
        · exact .inr ⟨hlen, rfl⟩
        · exact .inl ⟨rfl, rfl⟩
    · exact .inl ⟨rfl, rfl⟩

lemma electionStep_sub (h : topProducers ≤ g.sbpInIndex) :
    topProducers ≤ (electionStep g e).sbpInIndex := by
  by_cases hr : Rotates g e
  · rw [(electionStep_rotates hr).2]
    exact (nextPosition_bounds hr.2 h).1
  · rcases electionStep_keeps hr with ⟨-, hs⟩ | ⟨-, hs⟩
    · exact hs ▸ h
    · rw [hs]
      decide

end

section
variable {g : RotationState} {elections : List Election}

lemma afterElections_sub (h : topProducers ≤ g.sbpInIndex) :
    topProducers ≤ (elections.foldl electionStep g).sbpInIndex := by
  induction elections generalizing g with
  | nil => exact h
  | cons e rest ih => exact ih (electionStep_sub h)

lemma rotationLog_bounds (h : topProducers ≤ g.sbpInIndex) :
    ∀ r ∈ rotationLog elections g, r.out < topProducers ∧ topProducers ≤ r.sub ∧
      r.sub < r.candidates := by
  induction elections generalizing g with
  | nil => exact fun r hr => by cases hr
  | cons e rest ih =>
    have hrest := ih (electionStep_sub (e := e) h)
    unfold rotationLog
    dsimp only
    split_ifs with hr
    · refine List.forall_mem_cons.mpr ⟨?_, hrest⟩
      obtain ⟨hout, hsub⟩ := electionStep_rotates hr
      dsimp only
      rw [hout, hsub]
      exact ⟨(nextPosition_bounds (by decide) (Nat.zero_le _)).2, nextPosition_bounds hr.2 h⟩
    · exact hrest

/-- From one rotation to the next the positions move on by one. -/
lemma rotationLog_chain {n : ℕ} (hfull : ∀ e ∈ elections, topProducers ≤ e.2.length)
    (hn : ∀ r ∈ rotationLog elections g, r.candidates = n) :
    (g.bpOutIndex :: (rotationLog elections g).map Rotated.out).IsChain
      (fun i j => j = nextPosition 0 topProducers i) ∧
      (g.sbpInIndex :: (rotationLog elections g).map Rotated.sub).IsChain
        (fun i j => j = nextPosition topProducers n i) := by
  induction elections generalizing g with
  | nil => exact ⟨List.isChain_singleton _, List.isChain_singleton _⟩
  | cons e rest ih =>
    obtain ⟨he, hrest⟩ := List.forall_mem_cons.mp hfull
    unfold rotationLog at hn ⊢
    dsimp only at hn ⊢
    split_ifs at hn ⊢ with hr
    · obtain ⟨hlen, hn⟩ := List.forall_mem_cons.mp hn
      obtain ⟨hout, hsub⟩ := electionStep_rotates hr
      dsimp only at hlen
      obtain ⟨ihout, ihsub⟩ := ih hrest hn
      rw [hlen] at hsub
      exact ⟨List.isChain_cons_cons.mpr ⟨hout, ihout⟩, List.isChain_cons_cons.mpr ⟨hsub, ihsub⟩⟩
    · have hih := ih hrest hn
      rcases electionStep_keeps hr with ⟨hout, hsub⟩ | ⟨hshort, -⟩
      · rw [hout, hsub] at hih
        exact hih
      · omega

end

/-- Elections every twelve hours with the same 23 candidates. -/
def dailyElections (n : ℕ) : List Election :=
  (List.range n).map fun k => ((⟨(1262304000 + k * twelveHourSlots) % 2 ^ 32,
    Nat.mod_lt _ (by decide)⟩ : BlockTimestamp), numbered 23)

end TelosSystem
