import TelosSystem.MissedCharges

/-! Kicks for missed blocks. After the charge of a round the producers are ranked by the blocks
they have missed, and the first ones over the threshold are kicked, at most a seventh of them. -/
namespace TelosSystem
open Ledger

/-- On a list where `p` passes from later to earlier elements, those with `p` are the first. -/
lemma takeWhile_eq_take {α : Type*} {p : α → Bool} {l : List α}
    (h : l.Pairwise fun a b => p b = true → p a = true) : l.takeWhile p = l.take (l.countP p) := by
  induction l with
  | nil => rfl
  | cons a l ih =>
    obtain ⟨hhead, htail⟩ := List.pairwise_cons.mp h
    by_cases ha : p a = true
    · rw [List.takeWhile_cons_of_pos ha, ih htail, List.countP_cons_of_pos ha, List.take_succ_cons]
    · have hnone : l.countP p = 0 := List.countP_eq_zero.mpr fun b hb hpb => ha (hhead b hb hpb)
      rw [List.takeWhile_cons_of_neg ha, List.countP_cons_of_neg ha, hnone, List.take_zero]

/-- The active producers of the metrics that have missed blocks in this rotation, with the charge. -/
def chargedProducers (producers : Table Name ProducerInfo) (metrics : List (Name × ℕ)) :
    List (Name × ProducerInfo) :=
  metrics.filterMap fun pm => (producers.lookup pm.1).bind fun p =>
    if p.isActive ∧ 0 < (p.charged pm.2).missedBlocksPerRotation then some (pm.1, p.charged pm.2)
    else none

/-- The same, with the most missed blocks first and then the fewest votes. -/
def rankedProducers (s : State) : List (Name × ProducerInfo) :=
  (chargedProducers s.voting.producers s.production.metrics.producersMetric).insertionSort
    worseProducer

def overThreshold (s : State) (e : Name × ProducerInfo) : Bool :=
  crossedMissedBlocksThreshold s.production.rotation e.2.missedBlocksPerRotation.toNat
    s.production.metrics.producersMetric.length

/-- As many as are over the threshold, at most a seventh of the schedule. -/
def kickCount (s : State) : ℕ :=
  min (maxKickBps s.production.metrics.producersMetric.length)
    ((rankedProducers s).countP (overThreshold s))

def kickedProducers (s : State) : List (Name × ProducerInfo) :=
  (rankedProducers s).take (kickCount s)

section
variable {s : State} {producers t : Table Name ProducerInfo} {metrics : List (Name × ℕ)}

lemma worseProducer_iff {a b : Name × ProducerInfo} : worseProducer a b ↔
    b.2.missedBlocksPerRotation.toNat < a.2.missedBlocksPerRotation.toNat ∨
      (b.2.missedBlocksPerRotation.toNat = a.2.missedBlocksPerRotation.toNat ∧
        a.2.totalVotes ≤ b.2.totalVotes) := by
  rw [worseProducer, UInt32.lt_iff_toNat_lt, UInt32.toNat_inj]

instance : Std.Total worseProducer where
  total a b := by
    rw [worseProducer_iff, worseProducer_iff]
    rcases lt_trichotomy a.2.missedBlocksPerRotation.toNat
      b.2.missedBlocksPerRotation.toNat with h | h | h
    · exact .inr (.inl h)
    · rcases le_total a.2.totalVotes b.2.totalVotes with hv | hv
      · exact .inl (.inr ⟨h.symm, hv⟩)
      · exact .inr (.inr ⟨h, hv⟩)
    · exact .inl (.inl h)

instance : IsTrans (Name × ProducerInfo) worseProducer where
  trans a b c hab hbc := by
    rw [worseProducer_iff] at hab hbc ⊢
    rcases hab with hab | ⟨hab, hv⟩
    · rcases hbc with hbc | ⟨hbc, -⟩
      · exact .inl (by omega)
      · exact .inl (by omega)
    · rcases hbc with hbc | ⟨hbc, hv'⟩
      · exact .inl (by omega)
      · exact .inr ⟨by omega, hv.trans hv'⟩

lemma rankedProducers_sorted (s : State) : (rankedProducers s).Pairwise worseProducer :=
  List.pairwise_insertionSort _ _

lemma mem_chargedProducers {e : Name × ProducerInfo} :
    e ∈ chargedProducers producers metrics ↔ ∃ missed p, (e.1, missed) ∈ metrics ∧
      producers.lookup e.1 = some p ∧
      p.isActive = true ∧ 0 < (p.charged missed).missedBlocksPerRotation ∧
      e.2 = p.charged missed := by
  simp only [chargedProducers, List.mem_filterMap, Option.bind_eq_some_iff]
  constructor
  · rintro ⟨⟨name, missed⟩, hm, p, hp, he⟩
    split_ifs at he with h
    cases he
    exact ⟨missed, p, hm, hp, h.1, h.2, rfl⟩
  · rintro ⟨missed, p, hm, hp, ha, hpos, he⟩
    refine ⟨(e.1, missed), hm, p, hp, ?_⟩
    rw [if_pos ⟨ha, hpos⟩, ← he]

lemma chargedProducers_names (producers : Table Name ProducerInfo) (metrics : List (Name × ℕ)) :
    ((chargedProducers producers metrics).map Prod.fst).Sublist (metrics.map Prod.fst) := by
  induction metrics with
  | nil => exact List.Sublist.refl _
  | cons pm rest ih =>
    unfold chargedProducers at ih ⊢
    rw [List.filterMap_cons]
    split
    · exact ih.cons _
    · rename_i e he
      obtain ⟨p, -, he⟩ := Option.bind_eq_some_iff.mp he
      split_ifs at he
      cases he
      exact ih.cons_cons _

/-- Along with the rows, the charge collects the producers that have missed blocks. -/
lemma charge_collects (hn : (metrics.map Prod.fst).Nodup)
    (acc : Table Name ProducerInfo × List (Name × ProducerInfo)) :
    (metrics.foldl chargeMetric acc).2 = acc.2 ++ chargedProducers acc.1 metrics := by
  induction metrics generalizing acc with
  | nil => simp [chargedProducers]
  | cons pm rest ih =>
    rw [List.map_cons, List.nodup_cons] at hn
    have hrest : chargedProducers (chargeMetric acc pm).1 rest = chargedProducers acc.1 rest := by
      refine List.filterMap_congr fun e he => ?_
      have hne : e.1 ≠ pm.1 := fun heq => hn.1 (List.mem_map.mpr ⟨e, he, heq⟩)
      rw [chargeMetric_other hne]
    have hhead : (chargeMetric acc pm).2 = acc.2 ++ chargedProducers acc.1 [pm] := by
      rw [chargedProducers, List.filterMap_cons, List.filterMap_nil, chargeMetric]
      cases hp : acc.1.lookup pm.1 with
      | none => simp
      | some p =>
        rw [Option.bind_some]
        by_cases ha : p.isActive = true
        · by_cases hpos : 0 < (p.charged pm.2).missedBlocksPerRotation
          · rw [if_pos ⟨ha, hpos⟩]
            dsimp only
            rw [if_pos ha]
            exact if_pos hpos
          · rw [if_neg fun h => hpos h.2]
            dsimp only
            rw [if_pos ha]
            exact (if_neg hpos).trans (List.append_nil _).symm
        · rw [if_neg fun h => ha h.1]
          dsimp only
          rw [if_neg ha, List.append_nil]
    have hcons : chargedProducers acc.1 (pm :: rest) = chargedProducers acc.1 [pm] ++
      chargedProducers acc.1 rest := by
      rw [chargedProducers, chargedProducers, chargedProducers, ← List.filterMap_append]
      rfl
    rw [List.foldl_cons, ih hn.2, hrest, hhead, hcons, List.append_assoc]

/-- Kicks go down a list whose entries are the rows, while they are over the threshold. -/
lemma kickProducers_lookup {now : BlockTimestamp} {g : RotationState} {size max : ℕ}
    {l : List (Name × ProducerInfo)} (hn : (l.map Prod.fst).Nodup)
    (hl : ∀ e ∈ l, t.lookup e.1 = some e.2) (name : Name) :
    (kickProducers now g size max l t).lookup name =
      if name ∈ ((l.take max).takeWhile fun e =>
        crossedMissedBlocksThreshold g e.2.missedBlocksPerRotation.toNat size).map Prod.fst
      then (t.lookup name).map (thresholdKick now) else t.lookup name := by
  induction l generalizing max t with
  | nil => simp [kickProducers]
  | cons e l ih =>
    obtain ⟨owner, row⟩ := e
    rw [List.map_cons, List.nodup_cons] at hn
    obtain ⟨howner, hrest⟩ := List.forall_mem_cons.mp hl
    dsimp only at howner hn
    unfold kickProducers
    rw [howner]
    dsimp only
    by_cases hkick : crossedMissedBlocksThreshold g row.missedBlocksPerRotation.toNat size = true ∧
      0 < max
    · obtain ⟨m, rfl⟩ := Nat.exists_eq_succ_of_ne_zero hkick.2.ne'
      have hrest' : ∀ e ∈ l, (t.insert owner (thresholdKick now row)).lookup e.1 = some e.2 :=
        fun e he => by
        have hne : e.1 ≠ owner := fun heq => hn.1 (List.mem_map.mpr ⟨e, he, heq⟩)
        exact (AList.lookup_insert_ne hne).trans (hrest e he)
      have htake : ((((owner, row) :: l).take (m + 1)).takeWhile fun e =>
          crossedMissedBlocksThreshold g e.2.missedBlocksPerRotation.toNat size) = (owner, row) ::
            (l.take m).takeWhile fun e =>
            crossedMissedBlocksThreshold g e.2.missedBlocksPerRotation.toNat size :=
              List.takeWhile_cons_of_pos hkick.1
      rw [if_pos hkick, Nat.succ_sub_one, ih hn.2 hrest', htake, List.map_cons]
      by_cases hname : name = owner
      · subst hname
        have hnot : name ∉ ((l.take m).takeWhile fun e =>
            crossedMissedBlocksThreshold g e.2.missedBlocksPerRotation.toNat size).map Prod.fst :=
              fun h =>
          hn.1 ((((List.takeWhile_sublist _).trans (List.take_sublist m l)).map Prod.fst).subset h)
        rw [if_neg hnot, if_pos List.mem_cons_self, AList.lookup_insert, howner]
        rfl
      · simp only [List.mem_cons, hname, false_or, AList.lookup_insert_ne hname]
    · have hnone : ((((owner, row) :: l).take max).takeWhile fun e =>
          crossedMissedBlocksThreshold g e.2.missedBlocksPerRotation.toNat size) = [] := by
        cases max with
        | zero => rfl
        | succ m =>
          rw [List.take_succ_cons]
          exact List.takeWhile_cons_of_neg fun h => hkick ⟨h, Nat.succ_pos m⟩
      rw [if_neg hkick, hnone, List.map_nil, if_neg List.not_mem_nil]

lemma crossedMissedBlocksThreshold_mono {g : RotationState} {size m n : ℕ} (hmn : m ≤ n)
    (h : crossedMissedBlocksThreshold g m size = true) :
    crossedMissedBlocksThreshold g n size = true := by
  unfold crossedMissedBlocksThreshold at h ⊢
  split_ifs at h ⊢
  simp only [decide_eq_true_eq] at h ⊢
  exact h.trans_le (by exact_mod_cast hmn)

/-- The producers kicked are those of the ranks below the count. -/
lemma takeWhile_ranked (s : State) :
    ((rankedProducers s).take (maxKickBps s.production.metrics.producersMetric.length)).takeWhile
      (overThreshold s) =
      kickedProducers s := by
  have hmono : (rankedProducers s).Pairwise fun a b => overThreshold s b = true →
    overThreshold s a = true :=
    (rankedProducers_sorted s).imp fun hab hb => by
      refine crossedMissedBlocksThreshold_mono ?_ hb
      rcases worseProducer_iff.mp hab with hab | ⟨hab, -⟩
      · exact hab.le
      · exact hab.le
  rw [← List.take_takeWhile, takeWhile_eq_take hmono, List.take_take]
  rfl

lemma mem_rankedProducers {e : Name × ProducerInfo} :
    e ∈ rankedProducers s ↔ ∃ missed p, (e.1, missed) ∈ s.production.metrics.producersMetric ∧
      s.voting.producers.lookup e.1 = some p ∧ p.isActive = true ∧
      0 < (p.charged missed).missedBlocksPerRotation ∧
      e.2 = p.charged missed :=
  (List.mem_insertionSort _).trans mem_chargedProducers

/-- With distinct names the charge of an active producer is its count. -/
lemma chargeOf_listed (hn : (metrics.map Prod.fst).Nodup) {name : Name} {missed : ℕ}
    {p : ProducerInfo} (hm : (name, missed) ∈ metrics) (hp : producers.lookup name = some p)
    (ha : p.isActive = true) : chargeOf producers metrics name = missed := by
  have hsum : ((metrics.filter fun pm => pm.1 = name).map Prod.snd).sum = missed := by
    induction metrics with
    | nil => cases hm
    | cons pm rest ih =>
      rw [List.map_cons, List.nodup_cons] at hn
      by_cases heq : pm.1 = name
      · have hnone : rest.filter (fun pm => pm.1 = name) = [] :=
          List.filter_eq_nil_iff.mpr fun e he => by
            simpa using fun h => hn.1 (List.mem_map.mpr ⟨e, he, h.trans heq.symm⟩)
        rcases List.mem_cons.mp hm with rfl | hrest
        · simp [hnone]
        · exact absurd (List.mem_map.mpr ⟨_, hrest, heq.symm⟩) hn.1
      · have hrest : (name, missed) ∈ rest := by
          rcases List.mem_cons.mp hm with rfl | hrest
          · exact absurd rfl heq
          · exact hrest
        simpa [heq] using ih hn.2 hrest
  simp [chargeOf, hp, ha, hsum]

/-- Other producers are charged nothing. -/
lemma chargeOf_other {name : Name}
    (h : name ∉ metrics.map Prod.fst ∨ ∀ p, producers.lookup name = some p → p.isActive = false) :
    chargeOf producers metrics name = 0 := by
  unfold chargeOf
  cases hp : producers.lookup name with
  | none => rfl
  | some p =>
    rcases h with hunlisted | hinactive
    · have hnone : metrics.filter (fun pm => pm.1 = name) = [] :=
        List.filter_eq_nil_iff.mpr fun e he => by
          simpa using fun heq => hunlisted (List.mem_map.mpr ⟨e, he, heq⟩)
      simp [hnone]
    · simp [hinactive p hp]

lemma chargeRound_lookup (s : State) (name : Name) : (chargeRound s).lookup name =
    (s.voting.producers.lookup name).map fun p =>
      p.charged (chargeOf s.voting.producers s.production.metrics.producersMetric name) :=
  charge_lookup _ _ name

lemma updateMissedBlocksPerRotation_lookup (now : BlockTimestamp)
    (hn : (s.production.metrics.producersMetric.map Prod.fst).Nodup) (name : Name) :
    (updateMissedBlocksPerRotation now s).voting.producers.lookup name =
      if name ∈ (kickedProducers s).map Prod.fst then ((chargeRound s).lookup name).map
        (thresholdKick now)
      else (chargeRound s).lookup name := by
  have hcollected : (s.production.metrics.producersMetric.foldl chargeMetric
    (s.voting.producers, [])).2.insertionSort
      worseProducer = rankedProducers s := by
    rw [charge_collects hn, List.nil_append, rankedProducers]
  have hnames : ((rankedProducers s).map Prod.fst).Nodup := by
    have hperm := (List.perm_insertionSort worseProducer
      (chargedProducers s.voting.producers s.production.metrics.producersMetric)).map Prod.fst
    exact hperm.nodup_iff.mpr ((chargedProducers_names _ _).nodup hn)
  have hrows : ∀ e ∈ rankedProducers s, (chargeRound s).lookup e.1 = some e.2 := fun e he => by
    obtain ⟨missed, p, hm, hp, ha, -, hrow⟩ := mem_rankedProducers.mp he
    rw [chargeRound_lookup, hp, chargeOf_listed hn hm hp ha, hrow]
    rfl
  rw [← takeWhile_ranked, updateMissedBlocksPerRotation]
  dsimp only
  rw [hcollected]
  exact kickProducers_lookup hnames hrows name

lemma kickedProducers_length (s : State) : (kickedProducers s).length = kickCount s := by
  rw [kickedProducers, List.length_take]
  have hle := List.countP_le_length (p := overThreshold s) (l := rankedProducers s)
  unfold kickCount
  omega

lemma kicked_over : ∀ e ∈ kickedProducers s, overThreshold s e = true := by
  rw [← takeWhile_ranked]
  exact fun e he => List.all_eq_true.mp List.all_takeWhile e he

/-- Those who are kept are not worse. -/
lemma kicked_first {e e' : Name × ProducerInfo} (he : e ∈ kickedProducers s)
    (he' : e' ∈ rankedProducers s) (hkept : e' ∉ kickedProducers s) : worseProducer e e' := by
  have hsorted := rankedProducers_sorted s
  rw [← List.take_append_drop (kickCount s) (rankedProducers s)] at hsorted he'
  have hdrop : e' ∈ (rankedProducers s).drop (kickCount s) :=
    (List.mem_append.mp he').resolve_left hkept
  exact (List.pairwise_append.mp hsorted).2.2 e he e' hdrop

/-- One over the threshold is kept only when the quota is spent. -/
lemma quota_spent {e' : Name × ProducerInfo} (he' : e' ∈ rankedProducers s)
    (hkept : e' ∉ kickedProducers s) (hover : overThreshold s e' = true) :
    (kickedProducers s).length = maxKickBps s.production.metrics.producersMetric.length := by
  have hcount : (rankedProducers s).countP (overThreshold s) =
      (kickedProducers s).countP (overThreshold s) + ((rankedProducers s).drop (kickCount s)).countP
      (overThreshold s) := by
    rw [← List.countP_append, kickedProducers, List.take_append_drop]
  have hall : (kickedProducers s).countP (overThreshold s) = (kickedProducers s).length :=
    List.countP_eq_length.mpr kicked_over
  have hdrop : e' ∈ (rankedProducers s).drop (kickCount s) := by
    rw [← List.take_append_drop (kickCount s) (rankedProducers s)] at he'
    exact (List.mem_append.mp he').resolve_left hkept
  have hpos : 0 < ((rankedProducers s).drop (kickCount s)).countP (overThreshold s) :=
    List.countP_pos_iff.mpr ⟨e', hdrop, hover⟩
  have hlen := kickedProducers_length s
  rw [kickCount] at hlen
  omega

/-- After a complete round every active producer of the metrics is charged its count in 32 bits, and
exactly the first ranks are kicked: as many as are over the threshold, at most a seventh of the
schedule in 16 bits. No other producer changes. -/
theorem threshold_kicks (now : BlockTimestamp) (s : State)
    (hn : (s.production.metrics.producersMetric.map Prod.fst).Nodup) :
    (∀ name missed p, (name, missed) ∈ s.production.metrics.producersMetric →
      s.voting.producers.lookup name = some p →
      p.isActive = true → (updateMissedBlocksPerRotation now s).voting.producers.lookup name =
        some (if name ∈ (kickedProducers s).map Prod.fst then thresholdKick now (p.charged missed)
          else p.charged missed)) ∧
    (∀ name, name ∉ s.production.metrics.producersMetric.map Prod.fst ∨
        (∀ p, s.voting.producers.lookup name = some p → p.isActive = false) →
      (updateMissedBlocksPerRotation now s).voting.producers.lookup name =
        s.voting.producers.lookup name) ∧
    (∀ e, e ∈ rankedProducers s ↔ ∃ missed p, (e.1, missed) ∈ s.production.metrics.producersMetric ∧
      s.voting.producers.lookup e.1 = some p ∧ p.isActive = true ∧
      0 < (p.charged missed).missedBlocksPerRotation ∧
      e.2 = p.charged missed) ∧
    (rankedProducers s).Pairwise worseProducer ∧
    kickedProducers s = (rankedProducers s).take
      (min (s.production.metrics.producersMetric.length / 7 % 2 ^ 16)
        ((rankedProducers s).countP (overThreshold s))) ∧
    (kickedProducers s).length ≤ s.production.metrics.producersMetric.length / 7 ∧
    (∀ e ∈ kickedProducers s, overThreshold s e = true) ∧
    ∀ e' ∈ rankedProducers s, e' ∉ kickedProducers s →
      (∀ e ∈ kickedProducers s, worseProducer e e') ∧
      (overThreshold s e' = true →
        (kickedProducers s).length = s.production.metrics.producersMetric.length / 7 % 2 ^ 16) := by
  refine ⟨fun name missed p hm hp ha => ?_, fun name hother => ?_, fun e => mem_rankedProducers,
    rankedProducers_sorted s, rfl, ?_, kicked_over,
    fun e' he' hkept => ⟨fun e he => ?_, fun hover => ?_⟩⟩
  · rw [updateMissedBlocksPerRotation_lookup now hn, chargeRound_lookup, hp,
      chargeOf_listed hn hm hp ha]
    split_ifs <;> rfl
  · have hnot : name ∉ (kickedProducers s).map Prod.fst := fun h => by
      obtain ⟨e, he, rfl⟩ := List.mem_map.mp h
      obtain ⟨missed, p, hm, hp, ha, -⟩ :=
        mem_rankedProducers.mp ((List.take_sublist _ _).subset he)
      rcases hother with hunlisted | hinactive
      · exact hunlisted (List.mem_map.mpr ⟨_, hm, rfl⟩)
      · rw [hinactive p hp] at ha
        cases ha
    rw [updateMissedBlocksPerRotation_lookup now hn, if_neg hnot, chargeRound_lookup,
      chargeOf_other hother]
    cases s.voting.producers.lookup name <;> simp
  · rw [kickedProducers_length]
    exact (Nat.min_le_left _ _).trans (Nat.mod_le _ _)
  · exact kicked_first he he' hkept
  · exact quota_spent he' hkept hover

end

def producerNo (n : ℕ) : Name := ⟨UInt64.ofNat (n + 1)⟩

def lateProducer (missed : UInt32) : ProducerInfo :=
  { totalVotes := 1000, isActive := true, location := 0, missedBlocksPerRotation := missed }

/-- Seven producers late in a rotation; each has missed more blocks than the one before it. -/
def lateState : State where
  __ := launchState
  voting :=
    { launchState.voting with
      producers := (List.range 7).foldl
        (fun t n => t.insert (producerNo n) (lateProducer (UInt32.ofNat (2145 + n)))) ∅ }
  production :=
    { rotation := RotationState.initial.updateRotationTime launchTime
      metrics := { producersMetric := (List.range 7).map fun n => (producerNo n, 12) } }

/-- The first of seven producers has the largest count there is. -/
def fullState : State :=
  { lateState with voting := { lateState.voting with
      producers := lateState.voting.producers.insert (producerNo 0) (lateProducer 4294967295) } }

/-- A schedule of `2 ^ 16` quotas, of which one producer has a row and has missed many blocks. -/
def wideState : State :=
  { lateState with
    voting := { lateState.voting with
      producers := (∅ : Table Name ProducerInfo).insert (producerNo 0) (lateProducer 4000) }
    production := { lateState.production with
      metrics := { producersMetric := (List.range 458752).map fun n => (producerNo n, 12) } } }

lemma producerNo_injOn : ∀ m < 458752, ∀ n < 458752, producerNo m = producerNo n → m = n := by
  intro m hm n hn h
  have hvalue : (UInt64.ofNat (m + 1)).toNat = (UInt64.ofNat (n + 1)).toNat :=
    congrArg (fun name => name.value.toNat) h
  rw [UInt64.toNat_ofNat', UInt64.toNat_ofNat'] at hvalue
  omega

/-- A full count starts over when it is charged, and a quota of `2 ^ 16` kicks nobody. -/
theorem wide_counts_wrap :
    ((updateMissedBlocksPerRotation launchTime fullState).voting.producers.lookup
      (producerNo 0)).map
      (fun p => (p.isActive, p.missedBlocksPerRotation.toNat)) = some (true, 11) ∧
    (wideState.production.metrics.producersMetric.map Prod.fst).Nodup ∧
    0 < (rankedProducers wideState).countP (overThreshold wideState) ∧
    kickedProducers wideState = [] := by
  have hlen : wideState.production.metrics.producersMetric.length = 458752 := by
    simp only [wideState, List.length_map, List.length_range]
  refine ⟨by decide +kernel, ?_, ?_, ?_⟩
  · have hnames : wideState.production.metrics.producersMetric.map Prod.fst =
      (List.range 458752).map producerNo := by
      rw [wideState, List.map_map]
      rfl
    rw [hnames]
    refine List.Nodup.map_on (fun m hm n hn => ?_) List.nodup_range
    exact producerNo_injOn m (List.mem_range.mp hm) n (List.mem_range.mp hn)
  · have hover : crossedMissedBlocksThreshold (RotationState.initial.updateRotationTime launchTime)
      4012 458752 = true := by
      decide +kernel
    have hlisted : (producerNo 0, 12) ∈ wideState.production.metrics.producersMetric := by
      simp only [wideState]
      exact List.mem_map_of_mem (List.mem_range.mpr (by decide))
    refine List.countP_pos_iff.mpr
      ⟨(producerNo 0, (lateProducer 4000).charged 12), mem_rankedProducers.mpr ?_, ?_⟩
    · exact ⟨12, lateProducer 4000, hlisted, AList.lookup_insert _, rfl, by decide, rfl⟩
    · rw [overThreshold, hlen]
      exact hover
  · have hquota : maxKickBps 458752 = 0 := rfl
    rw [kickedProducers, kickCount, hlen, hquota, Nat.zero_min, List.take_zero]

theorem lateState_kicks :
    (updateMissedBlocksPerRotation launchTime lateState).voting.producers.lookup (producerNo 6) =
      some (thresholdKick launchTime (lateProducer 2163)) ∧
    (kickedProducers lateState).length =
      lateState.production.metrics.producersMetric.length / 7 := by
  have hn : (lateState.production.metrics.producersMetric.map Prod.fst).Nodup := by decide +kernel
  obtain ⟨hlisted, -, -, -, -, -, -, hkept⟩ := threshold_kicks launchTime lateState hn
  refine ⟨(hlisted (producerNo 6) 12 _ (by decide +kernel) rfl rfl).trans ?_, ?_⟩
  · rw [if_pos (by decide +kernel)]
    rfl
  · have hranked : (producerNo 5, lateProducer 2162) ∈ rankedProducers lateState :=
      mem_rankedProducers.mpr ⟨12, lateProducer 2150, by decide +kernel, rfl, rfl, by decide, rfl⟩
    have hname : producerNo 5 ∉ (kickedProducers lateState).map Prod.fst := by decide +kernel
    exact (hkept _ hranked fun h => hname (List.mem_map.mpr ⟨_, h, rfl⟩)).2 (by decide +kernel)

end TelosSystem
