import TelosSystem.Rotation

/-! Schedules without duplicates. A swap is sound where it takes a standby producer for a top
producer; where a pair chosen earlier is still swapped although the list has shrunk to the
top producers, the standby producer is scheduled twice. -/
namespace TelosSystem
open Ledger

/-- A list of candidates: no producer twice, at most 35. -/
structure Candidates where
  prods : List ProducerLocationPair
  nodup : (prods.map (·.producerName)).Nodup
  bounded : prods.length ≤ maxProducers

/-- What a schedule made from candidates has to be. -/
structure WellFormedSchedule (prods top : List ProducerLocationPair) : Prop where
  length : top.length = min prods.length topProducers
  nodup : (top.map (·.producerName)).Nodup
  members : ∀ p ∈ top, p ∈ prods
  oneSwap : top = prods.take topProducers ∨ ∃ i j sub, i < topProducers ∧ topProducers ≤ j ∧
    j < maxProducers ∧
    prods[j]? = some sub ∧ top = (prods.take topProducers).set i sub

/-- The stored pair is still swapped in a list that has no standby producers. -/
structure RotationState.SwapsWithin (g : RotationState) (prods : List ProducerLocationPair)
    (blockTime : BlockTimestamp) : Prop where
  short : prods.length ≤ topProducers
  kept : ¬ g.nextRotationTime ≤ blockTime
  stored : g.bpCurrentlyOut ≠ Name.empty ∧ g.sbpCurrentlyIn ≠ Name.empty
  out : g.bpCurrentlyOut ∈ prods.map (·.producerName)
  sub : g.sbpCurrentlyIn ∈ prods.map (·.producerName)

/-- The stored pair is empty or of two different producers, and the index of the standby
producer is past the top producers. -/
structure RotationState.Sound (g : RotationState) : Prop where
  pair : (g.bpCurrentlyOut = Name.empty ∧ g.sbpCurrentlyIn = Name.empty) ∨
    g.bpCurrentlyOut ≠ g.sbpCurrentlyIn
  index : topProducers ≤ g.sbpInIndex

section
variable {prods : List ProducerLocationPair}

lemma name_inj (hn : (prods.map (·.producerName)).Nodup) {i j : ℕ} (hi : i < prods.length)
    (hj : j < prods.length) (h : prods[i].producerName = prods[j].producerName) : i = j := by
  have hi' : i < (prods.map (·.producerName)).length := by simpa using hi
  have hj' : j < (prods.map (·.producerName)).length := by simpa using hj
  apply (@List.Nodup.getElem_inj_iff _ _ hn i hi' j hj').mp
  simpa using h

lemma positionOf_eq_some {name : Name} {i : ℕ} (h : positionOf prods name = some i) :
    ∃ hi : i < prods.length, prods[i].producerName = name := by
  obtain ⟨hi, hp, -⟩ := List.findIdx?_eq_some_iff_getElem.mp h
  exact ⟨hi, by simpa using hp⟩

lemma positionOf_of_mem {name : Name} (h : name ∈ prods.map (·.producerName)) :
    ∃ i, positionOf prods name = some i := by
  apply Option.isSome_iff_exists.mp
  rw [positionOf, List.findIdx?_isSome, List.any_eq_true]
  obtain ⟨p, hp, rfl⟩ := List.mem_map.mp h
  exact ⟨p, hp, by simp⟩

lemma mem_of_positionOf {name : Name} {i : ℕ} (h : positionOf prods name = some i) :
    name ∈ prods.map (·.producerName) := by
  obtain ⟨hi, rfl⟩ := positionOf_eq_some h
  exact List.mem_map_of_mem (List.getElem_mem hi)

/-- Without two positions the schedule is the beginning of the list. -/
lemma swapped_none {bp sbp : Option ℕ} (h : bp = none ∨ sbp = none) :
    swapped prods bp sbp = prods.take topProducers := by
  unfold swapped
  rcases h with rfl | rfl
  · rfl
  · cases bp.bind (prods[·]?) <;> rfl

/-- A swap replaces one producer of the beginning of the list. -/
lemma swapped_some (hn : (prods.map (·.producerName)).Nodup) {i j : ℕ} (hi : i < prods.length)
    (hj : j < prods.length) :
    swapped prods (some i) (some j) = (prods.take topProducers).set i prods[j] := by
  unfold swapped
  simp only [Option.bind_some, List.getElem?_eq_getElem hi, List.getElem?_eq_getElem hj]
  apply List.ext_getElem (by simp)
  intro k hk hk'
  have hkn : k < prods.length := by simp at hk; omega
  rw [List.getElem_map, List.getElem_take, List.getElem_set]
  by_cases hik : i = k
  · subst hik
    simp
  · rw [if_neg fun h => hik (name_inj hn hi hkn h.symm), if_neg hik, List.getElem_take]

lemma take_wellFormed (hn : (prods.map (·.producerName)).Nodup) :
    WellFormedSchedule prods (prods.take topProducers) := by
  refine ⟨by rw [List.length_take, Nat.min_comm], ?_,
    fun p hp => List.mem_of_mem_take hp, Or.inl rfl⟩
  rw [List.map_take]
  exact hn.sublist (List.take_sublist _ _)

lemma set_wellFormed (hn : (prods.map (·.producerName)).Nodup) (hb : prods.length ≤ maxProducers)
    {i j : ℕ} (hi : i < topProducers) (hj : topProducers ≤ j) (hjn : j < prods.length) :
    WellFormedSchedule prods ((prods.take topProducers).set i prods[j]) := by
  refine ⟨by rw [List.length_set, List.length_take, Nat.min_comm], ?_, fun p hp => ?_,
    Or.inr ⟨i, j, prods[j], hi, hj, by omega, List.getElem?_eq_getElem hjn, rfl⟩⟩
  · rw [List.map_set, List.map_take]
    refine (hn.sublist (List.take_sublist _ _)).set fun hmem => ?_
    rw [← List.map_take] at hmem
    obtain ⟨p, hp, he⟩ := List.mem_map.mp hmem
    obtain ⟨k, hk, rfl⟩ := List.mem_iff_getElem.mp hp
    rw [List.length_take] at hk
    rw [List.getElem_take] at he
    have := name_inj hn (by omega) hjn he
    omega
  · rcases List.mem_or_eq_of_mem_set hp with hp | rfl
    · exact List.mem_of_mem_take hp
    · exact List.getElem_mem hjn

/-- A swap of two producers that both stay schedules one of them twice. -/
lemma set_duplicate {i j : ℕ} (hij : i ≠ j) (hi : i < prods.length) (hj : j < prods.length)
    (hshort : prods.length ≤ topProducers) :
    ¬ (((prods.take topProducers).set i prods[j]).map (·.producerName)).Nodup := by
  intro hnd
  rw [List.take_of_length_le hshort] at hnd
  have hlen : ((prods.set i prods[j]).map (·.producerName)).length = prods.length := by simp
  have hsame := (@List.Nodup.getElem_inj_iff _ _ hnd i (hlen ▸ hi) j (hlen ▸ hj)).mp (by
    rw [List.getElem_map, List.getElem_map, List.getElem_set_self, List.getElem_set_ne hij])
  exact hij hsame

end

/-- What the rotation decides: no swap, a sound one, or one within a short list. -/
inductive Outcome (prods : List ProducerLocationPair) (within : Prop) : Option ℕ → Option ℕ → Prop
  | plain {bp sbp : Option ℕ} (h : bp = none ∨ sbp = none) (sound : ¬ within) :
      Outcome prods within bp sbp
  | swap {i j : ℕ} (hi : i < topProducers) (hj : topProducers ≤ j) (hn : j < prods.length)
      (sound : ¬ within) :
      Outcome prods within (some i) (some j)
  | within {i j : ℕ} (hij : i ≠ j) (hi : i < prods.length) (hj : j < prods.length)
      (short : prods.length ≤ topProducers) (h : within) : Outcome prods within (some i) (some j)

section
variable {prods : List ProducerLocationPair} {blockTime : BlockTimestamp} {g : RotationState}

lemma Sound.empty {g : RotationState} (h : g.Sound) :
    (g.setBpsRotation Name.empty Name.empty).Sound :=
  ⟨Or.inl ⟨rfl, rfl⟩, h.index⟩

lemma Sound.updated {g : RotationState} (h : g.Sound) (blockTime : BlockTimestamp) :
    (g.updateRotationTime blockTime).Sound := by
  unfold RotationState.updateRotationTime
  exact ⟨h.pair, h.index⟩

/-- A new pair is taken from the top and from the standby producers. -/
lemma chooseRotation_outcome (hn : (prods.map (·.producerName)).Nodup) (hs : g.Sound)
    {within : Prop} (hno : ¬ within) :
    Outcome prods within (chooseRotation prods g).1 (chooseRotation prods g).2.1 ∧
      (chooseRotation prods g).2.2.Sound := by
  have hindex := hs.index
  unfold chooseRotation
  by_cases hl : topProducers < prods.length
  · have hbp : (if topProducers - 1 ≤ g.bpOutIndex then 0 else g.bpOutIndex + 1) <
      topProducers := by
      unfold topProducers
      split_ifs <;> omega
    have hsbp : topProducers ≤
      (if prods.length - 1 ≤ g.sbpInIndex then topProducers else g.sbpInIndex + 1) ∧
        (if prods.length - 1 ≤ g.sbpInIndex then topProducers else g.sbpInIndex + 1) <
        prods.length := by
      split_ifs <;> omega
    rw [if_pos hl]
    dsimp only
    generalize (if topProducers - 1 ≤ g.bpOutIndex then 0 else g.bpOutIndex + 1) = i at hbp ⊢
    generalize (if prods.length - 1 ≤ g.sbpInIndex then topProducers else g.sbpInIndex + 1) =
      j at hsbp ⊢
    refine ⟨Outcome.swap hbp hsbp.1 hsbp.2 hno, ⟨Or.inr fun he => ?_, hsbp.1⟩⟩
    have hi : i < prods.length := by omega
    simp only [RotationState.setBpsRotation, nameAt, List.getElem?_eq_getElem hi,
      List.getElem?_eq_getElem hsbp.2,
      Option.map_some, Option.getD_some] at he
    have := name_inj hn hi hsbp.2 he
    omega
  · rw [if_neg hl]
    exact ⟨Outcome.plain (Or.inl rfl) hno, hs⟩

lemma keepRotation_outcome (hs : g.Sound) (hkept : ¬ g.nextRotationTime ≤ blockTime) :
    Outcome prods (g.SwapsWithin prods blockTime) (keepRotation prods g).1
      (keepRotation prods g).2.1 ∧
      (keepRotation prods g).2.2.Sound := by
  unfold keepRotation
  by_cases hst : g.bpCurrentlyOut ≠ Name.empty ∧ g.sbpCurrentlyIn ≠ Name.empty
  · rw [if_pos hst]
    have hne : g.bpCurrentlyOut ≠ g.sbpCurrentlyIn := by
      rcases hs.pair with he | hne
      · exact absurd he.1 hst.1
      · exact hne
    have hmissing : (positionOf prods g.bpCurrentlyOut = none ∨
      positionOf prods g.sbpCurrentlyIn = none) →
        ¬ g.SwapsWithin prods blockTime := by
      rintro hnone ⟨-, -, -, hout, hsub⟩
      obtain ⟨i, hi⟩ := positionOf_of_mem hout
      obtain ⟨j, hj⟩ := positionOf_of_mem hsub
      rw [hi, hj] at hnone
      simp at hnone
    have hdropped : ((if prods.length < topProducers then
        { g.setBpsRotation Name.empty Name.empty with
          bpOutIndex := topProducers, sbpInIndex := maxProducers + 1 }
        else g.setBpsRotation Name.empty Name.empty) : RotationState).Sound := by
      split_ifs
      · exact ⟨Or.inl ⟨rfl, rfl⟩, (by decide : topProducers ≤ maxProducers + 1)⟩
      · exact Sound.empty hs
    cases hi : positionOf prods g.bpCurrentlyOut with
    | none => exact ⟨Outcome.plain (Or.inl rfl) (hmissing (Or.inl hi)), hdropped⟩
    | some i =>
      cases hj : positionOf prods g.sbpCurrentlyIn with
      | none => exact ⟨Outcome.plain (Or.inr rfl) (hmissing (Or.inr hj)), hdropped⟩
      | some j =>
        obtain ⟨hin, hiname⟩ := positionOf_eq_some hi
        obtain ⟨hjn, hjname⟩ := positionOf_eq_some hj
        dsimp only
        by_cases hl : topProducers < prods.length
        · have hno : ¬ g.SwapsWithin prods blockTime := fun h => by
            have := h.short
            omega
          by_cases hr : isInRange i 0 topProducers = false ∨
            isInRange j topProducers maxProducers = false
          · rw [if_pos ⟨hl, hr⟩]
            exact ⟨Outcome.plain (Or.inl rfl) hno, Sound.empty hs⟩
          · rw [if_neg fun hc => hr hc.2]
            simp only [isInRange, decide_eq_false_iff_not, not_or, not_not] at hr
            exact ⟨Outcome.swap hr.1.2 hr.2.1 hjn hno, hs⟩
        · rw [if_neg fun hc => hl hc.1]
          refine ⟨Outcome.within (fun hij => ?_) hin hjn (not_lt.mp hl) ⟨not_lt.mp hl, hkept, hst,
            mem_of_positionOf hi, mem_of_positionOf hj⟩, hs⟩
          subst hij
          exact hne (hiname.symm.trans hjname)
  · rw [if_neg hst]
    exact ⟨Outcome.plain (Or.inl rfl) fun h => hst h.stored, hs⟩

lemma rotationPositions_outcome (hn : (prods.map (·.producerName)).Nodup) (hs : g.Sound) :
    Outcome prods (g.SwapsWithin prods blockTime) (rotationPositions prods blockTime g).1
      (rotationPositions prods blockTime g).2.1 ∧
      (rotationPositions prods blockTime g).2.2.Sound := by
  unfold rotationPositions
  by_cases ht : g.nextRotationTime ≤ blockTime
  · rw [if_pos ht]
    have hno : ¬ g.SwapsWithin prods blockTime := fun h => h.kept ht
    obtain ⟨ho, hs'⟩ := chooseRotation_outcome hn hs hno
    generalize chooseRotation prods g = choice at ho hs' ⊢
    obtain ⟨bp, sbp, g'⟩ := choice
    exact ⟨ho, Sound.updated hs' blockTime⟩
  · rw [if_neg ht]
    exact keepRotation_outcome hs ht

/-- The schedule is well formed, and has no duplicates, unless the swap stays within the list. -/
lemma Outcome.schedule {within : Prop} {bp sbp : Option ℕ} (h : Outcome prods within bp sbp)
    (hn : (prods.map (·.producerName)).Nodup) (hb : prods.length ≤ maxProducers) :
    (¬ within → WellFormedSchedule prods (swapped prods bp sbp)) ∧
      (within → ¬ ((swapped prods bp sbp).map (·.producerName)).Nodup) := by
  cases h with
  | plain hnone sound =>
    rw [swapped_none hnone]
    exact ⟨fun _ => take_wellFormed hn, fun hw => absurd hw sound⟩
  | swap hi hj hjn sound =>
    rw [swapped_some hn (by omega) hjn]
    exact ⟨fun _ => set_wellFormed hn hb hi hj hjn, fun hw => absurd hw sound⟩
  | within hij hi hj short hw =>
    rw [swapped_some hn hi hj]
    exact ⟨fun hno => absurd hw hno, fun _ => set_duplicate hij hi hj short⟩

end

def rotationStep (blockTime : BlockTimestamp) (c : Candidates) (g g' : RotationState) : Prop :=
  ∃ t, (checkRotationState c.prods blockTime g t).2.1 = g'

lemma RotationState.initial_sound : RotationState.initial.Sound := ⟨Or.inl ⟨rfl, rfl⟩, by decide⟩

lemma rotationStep.sound {blockTime : BlockTimestamp} {c : Candidates} {g g' : RotationState}
    (h : rotationStep blockTime c g g') (hs : g.Sound) : g'.Sound := by
  obtain ⟨t, rfl⟩ := h
  exact (rotationPositions_outcome c.nodup hs).2

section
variable {t₀ t : BlockTimestamp} {g : RotationState} {tr : List (BlockTimestamp × Candidates)}

theorem sound_of_run (h : TimedRun rotationStep t₀ RotationState.initial tr t g) : g.Sound :=
  h.stateInvariant (fun _ g => g.Sound) RotationState.initial_sound fun hs _ hstep => hstep.sound hs

lemma electedProducers_length (p : Table Name ProducerInfo) :
    (electedProducers p).length ≤ maxProducers := by
  rw [electedProducers, List.length_map, List.length_take]
  omega

lemma electedProducers_nodup (p : Table Name ProducerInfo) :
    ((electedProducers p).map (·.producerName)).Nodup := by
  have hsub : List.Sublist ((((producersByVotes p).takeWhile fun e => 0 < e.2.totalVotes ∧
    e.2.isActive).take
      (min p.entries.length maxProducers))) (producersByVotes p) :=
    (List.take_sublist _ _).trans (List.takeWhile_sublist _)
  rw [electedProducers, List.map_map]
  exact (hsub.map Prod.fst).nodup (Table.nodup_indexed _ _)

def elected (p : Table Name ProducerInfo) : Candidates :=
  ⟨electedProducers p, electedProducers_nodup p, electedProducers_length p⟩

/-- After every run of the rotation a schedule is well formed exactly where the stored pair is
not swapped within a list that has no standby producers; only there can the chain be given a
schedule that names a producer twice. -/
theorem producer_schedule (h : TimedRun rotationStep t₀ RotationState.initial tr t g) :
    (∀ blockTime (c : Candidates) p, t ≤ blockTime →
      (WellFormedSchedule c.prods (checkRotationState c.prods blockTime g p).1 ↔
        ¬ g.SwapsWithin c.prods blockTime)) ∧
    ∀ blockTime accepted sc top, t ≤ blockTime → sc.rotation = g →
      (updateElectedProducers blockTime accepted sc).1 = some top →
      ((top.map (·.producerName)).Nodup ↔
        ¬ g.SwapsWithin (electedProducers sc.producers) blockTime) := by
  have hs := sound_of_run h
  have hboth : ∀ blockTime (c : Candidates), (¬ g.SwapsWithin c.prods blockTime →
      WellFormedSchedule c.prods (checkRotationState c.prods blockTime g ∅).1) ∧
      (g.SwapsWithin c.prods blockTime →
        ¬ ((checkRotationState c.prods blockTime g ∅).1.map (·.producerName)).Nodup) :=
    fun blockTime c => (rotationPositions_outcome c.nodup hs).1.schedule c.nodup c.bounded
  refine ⟨fun blockTime c p _ => ⟨fun hw hbad => ?_, fun hno => ?_⟩,
    fun blockTime accepted sc top _ hg htop => ?_⟩
  · exact (hboth blockTime c).2 hbad hw.nodup
  · exact (hboth blockTime c).1 hno
  · obtain ⟨hgood, hbad⟩ := hboth blockTime (elected sc.producers)
    subst hg
    have hperm : List.Perm top
      (checkRotationState (electedProducers sc.producers) blockTime sc.rotation ∅).1 := by
      unfold updateElectedProducers at htop
      dsimp only at htop
      split_ifs at htop
      · cases htop
        exact List.perm_insertionSort _ _
      · cases htop
        exact List.perm_insertionSort _ _
    rw [(hperm.map (·.producerName)).nodup_iff]
    exact ⟨fun hnd hw => hbad hw hnd, fun hno => (hgood hno).nodup⟩

end

/-- Producers named 1, 2, … in the order of their votes. -/
def numbered (n : ℕ) : List ProducerLocationPair :=
  (List.range n).map fun i => ⟨⟨UInt64.ofNat (i + 1)⟩, i⟩

def fullList : Candidates := ⟨numbered 22, by decide +kernel, by decide⟩

def shrunkList : Candidates := ⟨(numbered 22).eraseIdx 5, by decide +kernel, by decide⟩

def firstRotation : BlockTimestamp := .ofSlot 1262304000

def oneMinuteLater : BlockTimestamp := ⟨1262304120, by decide⟩

/-- Producer 22 stays swapped in for producer 1 while the list is full. -/
theorem full_schedule :
    ∃ g, TimedRun rotationStep firstRotation RotationState.initial
      [(firstRotation, fullList)] firstRotation g ∧
      g.bpCurrentlyOut = ⟨1⟩ ∧ g.sbpCurrentlyIn = ⟨22⟩ ∧ ¬ g.nextRotationTime ≤ oneMinuteLater ∧
      WellFormedSchedule fullList.prods
        (checkRotationState fullList.prods oneMinuteLater g ∅).1 := by
  have hrun : TimedRun rotationStep firstRotation RotationState.initial
    [(firstRotation, fullList)] firstRotation
      (checkRotationState fullList.prods firstRotation RotationState.initial ∅).2.1 :=
    TimedRun.snoc TimedRun.nil (le_refl _) ⟨∅, rfl⟩
  refine ⟨_, hrun, by decide +kernel, by decide +kernel, by decide +kernel, ?_⟩
  refine ((producer_schedule hrun).1 oneMinuteLater fullList ∅ (by decide)).mpr ?_
  exact fun h => absurd h.short (by decide)

/-- The standby producer chosen from the full list stays swapped in when a top producer leaves,
and is scheduled twice. -/
theorem shrunk_schedule_duplicate :
    ∃ g, TimedRun rotationStep firstRotation RotationState.initial
      [(firstRotation, fullList)] firstRotation g ∧
      ¬ ((checkRotationState shrunkList.prods oneMinuteLater g ∅).1.map (·.producerName)).Nodup ∧
      ¬ WellFormedSchedule shrunkList.prods
        (checkRotationState shrunkList.prods oneMinuteLater g ∅).1 := by
  refine ⟨(checkRotationState fullList.prods firstRotation RotationState.initial ∅).2.1,
    TimedRun.snoc TimedRun.nil (le_refl _) ⟨∅, rfl⟩, ?_, fun h => ?_⟩
  · decide +kernel
  · have hnd := h.nodup
    revert hnd
    decide +kernel

end TelosSystem
