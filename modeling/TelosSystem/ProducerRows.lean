import TelosSystem.BlockProduction
import TelosSystem.VotingSteps

/-! What `onblock` does to the rows of the producers besides counting votes. -/
namespace TelosSystem
open Ledger

/-- A row is changed by the count of missed blocks: a rotation, a charge or a kick. -/
inductive MissedEdit : ProducerInfo → ProducerInfo → Prop
  | restart (p : ProducerInfo) : MissedEdit p (restartMissedBlocks p)
  | charge (p : ProducerInfo) (missed : UInt32) (active : p.isActive = true) :
      MissedEdit p { p with missedBlocksPerRotation := p.missedBlocksPerRotation + missed }
  | kick (now : BlockTimestamp) (p : ProducerInfo) : MissedEdit p (thresholdKick now p)

inductive RowEdit : ProducerInfo → ProducerInfo → Prop
  | missed {p q : ProducerInfo} (h : MissedEdit p q) : RowEdit p q
  | count (p : ProducerInfo) : RowEdit p { p with
      unpaidBlocks := p.unpaidBlocks + 1
      lifetimeProducedBlocks := p.lifetimeProducedBlocks + 1 }
  | pay (p : ProducerInfo) : RowEdit p { p with unpaidBlocks := 0 }

lemma MissedEdit.totalVotes {p q : ProducerInfo} (h : MissedEdit p q) :
    q.totalVotes = p.totalVotes := by
  cases h <;> rfl

lemma MissedEdit.unpaidBlocks {p q : ProducerInfo} (h : MissedEdit p q) :
    q.unpaidBlocks = p.unpaidBlocks := by
  cases h <;> rfl

lemma RowEdit.totalVotes {p q : ProducerInfo} (h : RowEdit p q) : q.totalVotes = p.totalVotes := by
  cases h with
  | missed h => exact h.totalVotes
  | count => rfl
  | pay => rfl

def EditedRow (E : ProducerInfo → ProducerInfo → Prop) : RowRule :=
  fun _ old new => ∃ p, old = some p ∧ E p new

/-- What the pay of producers reads and writes. -/
def Production.accounts (p : Production) : ℤ × ℕ × Table Name ℤ :=
  (p.perblockBucket, p.totalUnpaidBlocks, p.payments)

/-- The rows of producers are edited, along with the data of block production. -/
def ProducersEdited (s s' : State) : Prop :=
  ∃ producers production, s' = { s with voting := { s.voting with producers }, production } ∧
    Table.Rewrites (EditedRow RowEdit) s.voting.producers producers

/-- The rows of producers are edited by the count of missed blocks, which does not touch the pay. -/
def MissedBlocksCounted (s s' : State) : Prop :=
  ∃ producers production, s' = { s with voting := { s.voting with producers }, production } ∧
    production.accounts = s.production.accounts ∧
    Table.Rewrites (EditedRow MissedEdit) s.voting.producers producers

lemma ProducersEdited.refl (s : State) : ProducersEdited s s :=
  ⟨s.voting.producers, s.production, rfl, Table.Rewrites.refl _⟩

namespace MissedBlocksCounted
variable {s s' s'' : State}

lemma trans (h : MissedBlocksCounted s s') (h' : MissedBlocksCounted s' s'') :
    MissedBlocksCounted s s'' := by
  obtain ⟨t, production, rfl, hp, ht⟩ := h
  obtain ⟨t', production', rfl, hp', ht'⟩ := h'
  exact ⟨t', production', rfl, hp'.trans hp, ht.trans ht'⟩

/-- Only the metrics change. -/
lemma metrics (s : State) (m : ScheduleMetrics) : MissedBlocksCounted s (s.setMetrics m) :=
  ⟨s.voting.producers, _, rfl, rfl, Table.Rewrites.refl _⟩

lemma edited (h : MissedBlocksCounted s s') : ProducersEdited s s' := by
  obtain ⟨t, production, rfl, -, ht⟩ := h
  exact ⟨t, production, rfl, ht.mono fun _ _ _ ⟨p, hp, he⟩ => ⟨p, hp, RowEdit.missed he⟩⟩

end MissedBlocksCounted

lemma edit_rewrites {E : ProducerInfo → ProducerInfo → Prop} {t : Table Name ProducerInfo}
    {name : Name} {p q : ProducerInfo} (hp : t.lookup name = some p) (h : E p q) :
    Table.Rewrites (EditedRow E) t (t.insert name q) :=
  Table.Rewrites.insert ⟨p, hp, h⟩

lemma restartMissedBlocksPerRotation_rewrites {E : ProducerInfo → ProducerInfo → Prop}
    (hE : ∀ p, E p (restartMissedBlocks p)) (prods : List ProducerLocationPair)
    (t : Table Name ProducerInfo) :
    Table.Rewrites (EditedRow E) t (restartMissedBlocksPerRotation prods t) := by
  refine Table.Rewrites.foldl id (fun t pair => ?_) prods t
  cases hp : t.lookup pair.producerName with
  | none => exact Table.Rewrites.refl t
  | some p => exact edit_rewrites hp (hE p)

lemma updateElectedProducers_rewrites {E : ProducerInfo → ProducerInfo → Prop}
    (hE : ∀ p, E p (restartMissedBlocks p)) (blockTime : BlockTimestamp)
    (accepted : List ProducerLocationPair → Bool) (sc : Schedule) :
    Table.Rewrites (EditedRow E) sc.producers
      (updateElectedProducers blockTime accepted sc).2.producers := by
  have hrotate : Table.Rewrites (EditedRow E) sc.producers
      (checkRotationState (electedProducers sc.producers) blockTime sc.rotation
      sc.producers).2.2 := by
    unfold checkRotationState
    dsimp only
    split_ifs
    · exact restartMissedBlocksPerRotation_rewrites hE _ _
    · exact Table.Rewrites.refl _
  unfold updateElectedProducers
  dsimp only
  split_ifs
  · exact Table.Rewrites.refl _
  · exact hrotate
  · exact hrotate

/-- An election restarts rows and does nothing else to them. -/
lemma electProducers_rows {E : ProducerInfo → ProducerInfo → Prop}
    (hE : ∀ p, E p (restartMissedBlocks p)) {now blockTime : BlockTimestamp}
    {accepted : List ProducerLocationPair → Bool} {s s' : State}
    (h : electProducers now blockTime accepted s = .ok s') :
    ∃ producers production, s' = { s with voting := { s.voting with producers }, production } ∧
      production.accounts = s.production.accounts ∧
      Table.Rewrites (EditedRow E) s.voting.producers producers := by
  have hrows := updateElectedProducers_rewrites hE blockTime accepted s.schedule
  unfold electProducers at h
  dsimp only at h
  split at h
  · cases h
    exact ⟨_, _, rfl, rfl, hrows⟩
  · simp only [bind_ok, check_ok, exists_const, pure_ok] at h
    obtain ⟨-, rfl⟩ := h
    exact ⟨_, _, rfl, rfl, hrows⟩

lemma electProducers_counted {now blockTime : BlockTimestamp}
    {accepted : List ProducerLocationPair → Bool} {s s' : State}
    (h : electProducers now blockTime accepted s = .ok s') : MissedBlocksCounted s s' :=
  electProducers_rows MissedEdit.restart h

lemma checkMissedBlocks_counted {now timestamp : BlockTimestamp} {producer : Name}
    {active : List Name} {accepted : List ProducerLocationPair → Bool} {completed : Bool}
    {s s' : State}
    (h : checkMissedBlocks now timestamp producer active accepted s = .ok (completed, s')) :
    MissedBlocksCounted s s' := by
  unfold checkMissedBlocks at h
  dsimp only at h
  split_ifs at h
  all_goals first
    | cases h
      exact MissedBlocksCounted.metrics s _
    | skip
  simp only [bind_ok, pure_ok, Prod.mk.injEq] at h
  obtain ⟨s1, h1, -, rfl⟩ := h
  exact (MissedBlocksCounted.metrics s _).trans (electProducers_counted h1)

lemma chargeMetric_rewrites (acc : Table Name ProducerInfo × List (Name × ProducerInfo))
    (pm : Name × ℕ) : Table.Rewrites (EditedRow MissedEdit) acc.1 (chargeMetric acc pm).1 := by
  unfold chargeMetric
  cases hp : acc.1.lookup pm.1 with
  | none => exact Table.Rewrites.refl _
  | some p =>
    dsimp only
    split_ifs
    all_goals first
      | exact edit_rewrites hp (MissedEdit.charge p (UInt32.ofNat pm.2) ‹_›)
      | exact Table.Rewrites.refl _

lemma kickProducers_rewrites (now : BlockTimestamp) (g : RotationState) (size max : ℕ)
    (l : List (Name × ProducerInfo)) (t : Table Name ProducerInfo) :
    Table.Rewrites (EditedRow MissedEdit) t (kickProducers now g size max l t) := by
  induction l generalizing max t with
  | nil => exact Table.Rewrites.refl t
  | cons e l ih =>
    obtain ⟨name, row⟩ := e
    unfold kickProducers
    cases hp : t.lookup name with
    | none => exact Table.Rewrites.refl t
    | some p =>
      dsimp only
      split_ifs
      · exact (edit_rewrites hp (MissedEdit.kick now p)).trans (ih (max - 1) _)
      · exact Table.Rewrites.refl t

lemma countMissedBlocks_counted {now timestamp : BlockTimestamp} {producer : Name}
    {active : List Name} {accepted : List ProducerLocationPair → Bool} {s s' : State}
    (h : countMissedBlocks now timestamp producer active accepted s = .ok s') :
    MissedBlocksCounted s s' := by
  simp only [countMissedBlocks, bind_ok] at h
  obtain ⟨⟨completed, s1⟩, h1, h⟩ := h
  have hcheck := checkMissedBlocks_counted h1
  cases completed with
  | false =>
    cases h
    exact hcheck
  | true =>
    cases h
    have hcharge := Table.Rewrites.foldl Prod.fst chargeMetric_rewrites
      s1.production.metrics.producersMetric (s1.voting.producers, [])
    exact hcheck.trans ⟨_, _, rfl, rfl, hcharge.trans (kickProducers_rewrites _ _ _ _ _ _)⟩

lemma countBlock_edited (producer : Name) (s : State) :
    ProducersEdited s (countBlock producer s) := by
  unfold countBlock
  cases hp : s.voting.producers.lookup producer with
  | none => exact ProducersEdited.refl s
  | some p => exact ⟨_, _, rfl, edit_rewrites hp (RowEdit.count p)⟩

/-- The pay resets counts of unpaid blocks and does nothing else to the rows. -/
lemma payProducers_rows {E : ProducerInfo → ProducerInfo → Prop}
    (hE : ∀ p, E p { p with unpaidBlocks := 0 }) {pay : ℕ → ℤ} {index : ℕ}
    {l : List (Name × ProducerInfo)} {s : State} (hnd : (l.map Prod.fst).Nodup)
    (hl : ∀ e ∈ l, s.voting.producers.lookup e.1 = some e.2) :
    ∃ producers production, payProducers pay index l s =
      { s with voting := { s.voting with producers }, production } ∧
      Table.Rewrites (EditedRow E) s.voting.producers producers := by
  induction l generalizing index s with
  | nil => exact ⟨s.voting.producers, s.production, rfl, Table.Rewrites.refl _⟩
  | cons e l ih =>
    obtain ⟨name, p⟩ := e
    rw [List.map_cons, List.nodup_cons] at hnd
    unfold payProducers
    split_ifs
    · exact ih hnd.2 fun e he => hl e (List.mem_cons_of_mem _ he)
    · exact ⟨s.voting.producers, s.production, rfl, Table.Rewrites.refl _⟩
    · have hp : s.voting.producers.lookup name = some p := hl _ List.mem_cons_self
      have hrest : ∀ e ∈ l, (payProducer (pay (index + 1)) name p s).voting.producers.lookup e.1 =
        some e.2 := by
        intro e he
        have hne : e.1 ≠ name := fun heq => hnd.1 (List.mem_map.mpr ⟨e, he, heq⟩)
        exact (AList.lookup_insert_ne hne).trans (hl e (List.mem_cons_of_mem _ he))
      obtain ⟨producers, production, hs, hrows⟩ := @ih (index + 1) _ hnd.2 hrest
      exact ⟨producers, production, hs.trans rfl, (edit_rewrites hp (hE p)).trans hrows⟩

/-- The rows of the index by votes are those of the table. -/
lemma payProducersByVotes_rows {E : ProducerInfo → ProducerInfo → Prop}
    (hE : ∀ p, E p { p with unpaidBlocks := 0 }) (pay : ℕ → ℤ) (s : State) :
    ∃ producers production, payProducers pay 0 (producersByVotes s.voting.producers) s =
        { s with voting := { s.voting with producers }, production } ∧
      Table.Rewrites (EditedRow E) s.voting.producers producers :=
  payProducers_rows hE (Table.nodup_indexed _ _) fun _ he => (Table.mem_indexed _).mp he

lemma payProducersByVotes_edited (pay : ℕ → ℤ) (s : State) :
    ProducersEdited s (payProducers pay 0 (producersByVotes s.voting.producers) s) :=
  payProducersByVotes_rows RowEdit.pay pay s

section
variable [FloatOps] {now : BlockTimestamp} {rows : RowRule} {ballots : Prop}

/-- The stages of a block after its record. -/
inductive BlockStages (now : BlockTimestamp) (b : Block) (s : State) : State → Prop
  | waiting (inactive : s.threshActivatedStakeTime = 0) :
      BlockStages now b s (activateNetwork now b.header.timestamp s)
  | counted {s₁ s₂ s' : State} {voting : Voting} (active : s.threshActivatedStakeTime ≠ 0)
      (missed : countMissedBlocks now b.header.timestamp b.header.producer
      b.activeProducers b.accepted
        (s.startFill now) = .ok s₁)
      (votes : (countBlock b.header.producer s₁).voting.recalculateVotes now = .ok voting)
      (elect : electAndClose now b { countBlock b.header.producer s₁ with voting } = .ok s₂)
      (snapshot : takeSnapshot now b s₂ = .ok s') : BlockStages now b s s'

lemma onblock_stages {ctx : Context} {b : Block} {s s' : State} (h : onblock ctx b s = .ok s') :
    ∃ records, addToBlockinfoTable wrappingSub b.header s.production.blockinfo = .ok records ∧
      BlockStages ctx.now b (s.record records) s' := by
  simp only [onblock, requireAuth, recordBlock, countAndElect, bind_ok, check_ok,
    exists_const, pure_ok] at h
  obtain ⟨-, s₁, ⟨records, hr, rfl⟩, h⟩ := h
  refine ⟨records, hr, ?_⟩
  split_ifs at h with hz
  · cases h
    exact BlockStages.waiting hz
  · simp only [bind_ok] at h
    obtain ⟨s₃, ⟨s₂, h₂, v, hv, h₃⟩, h₄⟩ := h
    exact BlockStages.counted hz h₂ hv h₃ h₄

/-- Edited rows are steps of the voting tables. -/
lemma rewrites_steps (hrule : ∀ n old new, EditedRow RowEdit n old new → rows n old new)
    {t : Table Name ProducerInfo} {v : Voting}
    (h : Table.Rewrites (EditedRow RowEdit) v.producers t) :
    VotingSteps now rows ballots v { v with producers := t } := by
  induction h with
  | refl => exact VotingSteps.refl v
  | @tail t₁ t₂ _ hstep ih =>
    obtain ⟨name, q, hq, rfl⟩ := hstep
    refine ih.trans (VotingStep.single ?_)
    obtain ⟨p, hp, hpq⟩ := id hq
    refine VotingStep.register (v := { v with producers := t₁ }) (hrule _ _ _ hq) ?_
    dsimp only
    rw [hp, hpq.totalVotes]
    rfl

end
end TelosSystem
