import TelosSystem.VotingSteps

/-! What a vote changes. For a voter without a proxy `update_votes` takes back what the voter's
row remembers of its last vote, and adds the new vote, producer by producer. -/
namespace TelosSystem
open Ledger

namespace VoterInfo

/-- What the last vote of a row counts for a producer. -/
def counted (row : VoterInfo) (owner p : Name) : ℚ :=
  if p ∈ row.producers ∧ 0 < row.lastStake then
    row.lastVoteWeight * (1 + if p = owner then (row.selfStakeBoost.getD 0 : ℚ) / 100 else 0)
  else 0

/-- A row as it is while nobody is registered as a proxy. -/
structure Direct (row : VoterInfo) : Prop where
  noProxy : row.proxy = Name.empty
  notProxy : row.isProxy = false
  sorted : namesSorted row.producers = true
  length_le : row.producers.length ≤ 30
  boost_lt : row.selfStakeBoost.getD 0 < 2 ^ 32
  weight_nonneg : 0 < row.lastStake → 0 ≤ row.lastVoteWeight

lemma Direct.counted_nonneg {row : VoterInfo} (h : row.Direct) (owner p : Name) :
    0 ≤ row.counted owner p := by
  unfold counted
  split_ifs with hc hp
  · exact mul_nonneg (h.weight_nonneg hc.2) (by positivity)
  · exact mul_nonneg (h.weight_nonneg hc.2) (by norm_num)
  · exact le_refl 0

/-- A row without votes. -/
lemma Direct.of_new {row : VoterInfo} (hproxy : row.proxy = Name.empty) (hnot : row.isProxy = false)
    (hprod : row.producers = []) (hboost : row.selfStakeBoost.getD 0 = 0)
    (hlast : row.lastStake = 0) : row.Direct := by
  refine ⟨hproxy, hnot, by rw [hprod]; rfl, by simp [hprod], by simp [hboost], fun h => ?_⟩
  rw [hlast] at h
  exact absurd h (lt_irrefl 0)

/-- The stake that a vote counts; without producers a vote takes the stake back. -/
def castStake (row : VoterInfo) (producers : List Name) (voting : Bool) : ℤ :=
  if voting ∧ producers = [] then 0 else row.staked

end VoterInfo

def bumpAll (w : Name → ℚ) (flag : Bool) (l : List Name) (d : ProducerDeltas) : ProducerDeltas :=
  l.foldl (fun d p => bump d p (w p) flag) d

lemma bumpAll_lookup {w : Name → ℚ} {flag : Bool} {l : List Name} (hnd : l.Nodup)
    (d : ProducerDeltas) (q : Name) :
    (bumpAll w flag l d).lookup q =
      if q ∈ l then some (((d.lookup q).getD (0, false)).1 + w q, flag) else d.lookup q := by
  induction l generalizing d with
  | nil => simp [bumpAll]
  | cons p l ih =>
    obtain ⟨hp, hl⟩ := List.nodup_cons.mp hnd
    have hstep := ih hl (bump d p (w p) flag)
    unfold bumpAll at hstep ⊢
    rw [List.foldl_cons, hstep]
    by_cases hq : q = p
    · subst hq
      simp [hp, bump]
    · simp [hq, bump, AList.lookup_insert_ne hq]

def changeOf (l : List (Name × (ℚ × Bool))) (q : Name) : ℚ :=
  (l.map fun e => if e.1 = q then e.2.1 else 0).sum

lemma changeOf_cons (e : Name × (ℚ × Bool)) (l : List (Name × (ℚ × Bool))) (q : Name) :
    changeOf (e :: l) q = (if e.1 = q then e.2.1 else 0) + changeOf l q := by
  simp [changeOf]

lemma changeOf_indexed (d : ProducerDeltas) (r : Name × (ℚ × Bool) → Name × (ℚ × Bool) → Prop)
    [DecidableRel r] (q : Name) : changeOf (d.indexed r) q = ((d.lookup q).getD (0, false)).1 := by
  have hsum := Table.sum_indexed r (fun k (e : ℚ × Bool) => if k = q then e.1 else 0) d
  unfold changeOf
  rw [hsum, Table.sum_single (fun _ (e : ℚ × Bool) => e.1) d q]
  unfold Table.sumAt
  cases d.lookup q <;> rfl

namespace Voting
variable {v v' : Voting} {voting : Bool} {l : List (Name × (ℚ × Bool))}

lemma Counted.symm (h : Counted v v') : Counted v' v :=
  ⟨fun a => (h.voters a).symm, fun a => (h.producers a).symm, h.config.symm⟩

def tallySum (v : Voting) : ℚ := v.producers.sum fun _ p => p.totalVotes

structure TalliesMoved (change : Name → ℚ) (v v' : Voting) : Prop where
  voters : v'.voters = v.voters
  activated : v'.totalActivatedStake = v.totalActivatedStake
  config : v'.config = v.config
  tallies : ∀ q, v'.producers.lookup q =
    (v.producers.lookup q).map fun p => { p with totalVotes := p.totalVotes + change q }
  weight : v'.totalProducerVoteWeight - v'.tallySum = v.totalProducerVoteWeight - v.tallySum

lemma applyDelta_moved {e : Name × (ℚ × Bool)} (h : applyDelta voting v e = .ok v')
    (hnn : ∀ p, v.producers.lookup e.1 = some p → 0 ≤ p.totalVotes + e.2.1) :
    TalliesMoved (fun q => if e.1 = q then e.2.1 else 0) v v' := by
  unfold applyDelta at h
  cases hl : v.producers.lookup e.1 with
  | none =>
    rw [hl] at h
    simp only [bind_ok, check_ok, exists_const, pure_ok] at h
    obtain ⟨-, rfl⟩ := h
    refine ⟨rfl, rfl, rfl, fun q => ?_, rfl⟩
    by_cases hq : e.1 = q
    · rw [← hq, hl]
      rfl
    · simp [hq]
  | some p =>
    rw [hl] at h
    simp only [bind_ok, check_ok, exists_const, pure_ok] at h
    obtain ⟨-, rfl⟩ := h
    rw [if_neg (not_lt.mpr (hnn p hl))]
    refine ⟨rfl, rfl, rfl, fun q => ?_, ?_⟩
    · rw [Table.lookup_insert']
      by_cases hq : q = e.1
      · rw [if_pos hq, hq, hl]
        simp
      · rw [if_neg hq]
        simp [Ne.symm hq]
    · unfold tallySum
      rw [Table.sum_insert_old _ _ hl]
      ring

lemma TalliesMoved.trans {v'' : Voting} {f g : Name → ℚ} (h : TalliesMoved f v v')
    (h' : TalliesMoved g v' v'') : TalliesMoved (fun q => f q + g q) v v'' := by
  refine ⟨h'.voters.trans h.voters, h'.activated.trans h.activated,
    h'.config.trans h.config, fun q => ?_,
    h'.weight.trans h.weight⟩
  rw [h'.tallies, h.tallies, Option.map_map]
  congr 1
  funext p
  simp [add_assoc]

/-- Changes of different producers, none of which makes a tally negative. -/
lemma applyDeltas_moved (hnd : (l.map Prod.fst).Nodup) (h : l.foldlM (applyDelta voting) v = .ok v')
    (hnn : ∀ e ∈ l, ∀ p, v.producers.lookup e.1 = some p → 0 ≤ p.totalVotes + e.2.1) :
    TalliesMoved (changeOf l) v v' := by
  induction l generalizing v with
  | nil =>
    rw [List.foldlM_nil, pure_ok] at h
    subst h
    refine ⟨rfl, rfl, rfl, fun q => ?_, rfl⟩
    simp [changeOf]
  | cons e l ih =>
    obtain ⟨he, hl⟩ := List.nodup_cons.mp hnd
    rw [List.foldlM_cons, bind_ok] at h
    obtain ⟨v₁, h₁, h₂⟩ := h
    have hfirst := applyDelta_moved h₁ (hnn e (by simp))
    have hrest := ih hl h₂ fun f hf p hp => by
      have hne : e.1 ≠ f.1 := fun heq => he (heq ▸ List.mem_map_of_mem hf)
      rw [hfirst.tallies] at hp
      obtain ⟨p₀, hp₀, rfl⟩ := Option.map_eq_some_iff.mp hp
      simpa [hne] using hnn f (by simp [hf]) p₀ hp₀
    have hall := hfirst.trans hrest
    simp only [← changeOf_cons] at hall
    exact hall

/-- A change of the new vote needs a registered producer. -/
def Applicable (voting : Bool) (v : Voting) (e : Name × (ℚ × Bool)) : Prop :=
  e.2.2 = true → ∃ p, v.producers.lookup e.1 = some p ∧ (voting = true → p.isActive = true)

lemma applyDelta_total {e : Name × (ℚ × Bool)} (h : Applicable voting v e) :
    ∃ v', applyDelta voting v e = .ok v' := by
  unfold Applicable at h
  unfold applyDelta
  cases hl : v.producers.lookup e.1 with
  | none =>
    have hflag : e.2.2 = false := by
      by_contra hf
      obtain ⟨p, hp, -⟩ := h (by simpa using hf)
      rw [hl] at hp
      cases hp
    simp only [check, hflag, if_true, Bind.bind, Except.bind]
    exact ⟨_, rfl⟩
  | some p =>
    have hactive : ¬ (voting = true ∧ p.isActive = false ∧ e.2.2 = true) := by
      rintro ⟨hv, ha, hf⟩
      obtain ⟨p', hp', hreg⟩ := h hf
      rw [hl] at hp'
      cases hp'
      rw [hreg hv] at ha
      cases ha
    simp only [check, hactive, not_false_eq_true, if_true, Bind.bind, Except.bind]
    exact ⟨_, rfl⟩

lemma Applicable.counted {e : Name × (ℚ × Bool)} (h : Applicable voting v e) (hc : Counted v v') :
    Applicable voting v' e := by
  intro hf
  obtain ⟨p, hp, hreg⟩ := h hf
  have hq := hc.producers e.1
  rw [hp, Option.map_some] at hq
  obtain ⟨q, hq, hpq⟩ := Option.map_eq_some_iff.mp hq
  exact ⟨q, hq, fun hv => (congrArg ProducerInfo.isActive hpq).trans (hreg hv)⟩

lemma applyDeltas_total (h : ∀ e ∈ l, Applicable voting v e) :
    ∃ v', l.foldlM (applyDelta voting) v = .ok v' := by
  induction l generalizing v with
  | nil => exact ⟨v, rfl⟩
  | cons e l ih =>
    obtain ⟨v₁, h₁⟩ := applyDelta_total (h e (by simp))
    obtain ⟨v₂, h₂⟩ := ih fun f hf => (h f (by simp [hf])).counted (applyDelta_counted h₁)
    exact ⟨v₂, by rw [List.foldlM_cons, bind_ok]; exact ⟨v₁, h₁, h₂⟩⟩

lemma applyDelta_applicable {e : Name × (ℚ × Bool)} (h : applyDelta voting v e = .ok v') :
    Applicable voting v e := by
  intro hf
  unfold applyDelta at h
  cases hl : v.producers.lookup e.1 with
  | none =>
    rw [hl] at h
    simp [hf, check, Bind.bind, Except.bind] at h
  | some p =>
    rw [hl] at h
    simp only [bind_ok, check_ok, exists_const] at h
    obtain ⟨hno, -⟩ := h
    refine ⟨p, rfl, fun hv => ?_⟩
    cases ha : p.isActive with
    | true => rfl
    | false => exact absurd ⟨hv, ha, hf⟩ hno

lemma applyDeltas_applicable (h : l.foldlM (applyDelta voting) v = .ok v') :
    ∀ e ∈ l, Applicable voting v e := by
  induction l generalizing v with
  | nil => simp
  | cons e l ih =>
    rw [List.foldlM_cons, bind_ok] at h
    obtain ⟨v₁, h₁, h₂⟩ := h
    intro f hf
    rcases List.mem_cons.mp hf with rfl | hf
    · exact applyDelta_applicable h₁
    · exact (ih h₂ f hf).counted (applyDelta_counted h₁).symm

end Voting

namespace Voting
variable [FloatOps] {now : BlockTimestamp} {name : Name} {row : VoterInfo}
    {producers : List Name} {voting : Bool}
  {v v' : Voting}

def castWeight (v : Voting) (now : BlockTimestamp) (stake : ℤ) (n : ℕ) : ℚ :=
  decayVoteWeightMultiplier v.config now (inverseVoteWeight stake n)

omit [FloatOps] in
lemma decay_factor (config : VotingConfig) (now : BlockTimestamp) (w : ℚ) :
    ∃ c, 0 ≤ c ∧ decayVoteWeightMultiplier config now w = w * c := by
  unfold decayVoteWeightMultiplier
  split_ifs
  · exact ⟨1, by norm_num, (mul_one w).symm⟩
  · exact ⟨_, by positivity, rfl⟩

lemma castWeight_nonneg (hw : ∀ n, 0 ≤ FloatOps.voteWeight n) (v : Voting) (now : BlockTimestamp)
    (n : ℕ) {stake : ℤ} (h : 0 ≤ stake) : 0 ≤ v.castWeight now stake n := by
  obtain ⟨c, hc, he⟩ := decay_factor v.config now (inverseVoteWeight stake n)
  unfold castWeight
  rw [he]
  refine mul_nonneg ?_ hc
  unfold inverseVoteWeight
  split_ifs
  · exact le_refl 0
  · exact mul_nonneg (hw n) (by exact_mod_cast h)

lemma castWeight_nonpos (hw : ∀ n, 0 ≤ FloatOps.voteWeight n) (v : Voting) (now : BlockTimestamp)
    (n : ℕ) {stake : ℤ} (h : stake ≤ 0) : v.castWeight now stake n ≤ 0 := by
  obtain ⟨c, hc, he⟩ := decay_factor v.config now (inverseVoteWeight stake n)
  unfold castWeight
  rw [he]
  refine mul_nonpos_of_nonpos_of_nonneg ?_ hc
  unfold inverseVoteWeight
  split_ifs
  · exact le_refl 0
  · exact mul_nonpos_of_nonneg_of_nonpos (hw n) (by exact_mod_cast h)

def castBoost (v : Voting) (name : Name) (row : VoterInfo) (producers : List Name) (w : ℚ) : ℕ :=
  if 0 ≤ w ∧ name ∈ producers then v.config.selfStakeBoostMultiplier
  else if 0 < row.lastStake ∧ name ∈ row.producers then 0
  else row.selfStakeBoost.getD 0 % 2 ^ 32

def recast (v : Voting) (now : BlockTimestamp) (name : Name) (row : VoterInfo)
    (producers : List Name) (voting : Bool) : VoterInfo :=
  let stake := row.castStake producers voting
  let w := v.castWeight now stake producers.length
  { row with
    lastVoteWeight := w
    lastStake := stake
    producers
    proxy := Name.empty
    selfStakeBoost := some (v.castBoost name row producers w) }

/-- The changes of the tallies: the last vote back, and the new one. -/
def voteChanges (v : Voting) (now : BlockTimestamp) (name : Name) (row : VoterInfo)
    (producers : List Name) (voting : Bool) : ProducerDeltas :=
  let w := v.castWeight now (row.castStake producers voting) producers.length
  let back := (row.selfStakeBoost.getD 0 % 2 ^ 32 : ℕ) / 100 * row.lastVoteWeight
  let own := (v.config.selfStakeBoostMultiplier : ℚ) / 100 * w
  let undone :=
    if 0 < row.lastStake then
      bumpAll (fun p => if p = name then -row.lastVoteWeight - back else -row.lastVoteWeight)
        false row.producers ∅
    else ∅
  if 0 ≤ w then bumpAll (fun p => if p = name then w + own else w) true producers undone else undone

lemma updateVotes_eq (hl : v.voters.lookup name = some row) (hp : row.proxy = Name.empty)
    (hi : row.isProxy = false) :
    v.updateVotes now name Name.empty producers voting = (do
      check (producers.length ≤ 30) "attempt to vote for too many producers"
      check (namesSorted producers) "producer votes must be unique and sorted"
      let v₂ ← ((v.voteChanges now name row producers voting).indexed fun a b =>
        a.1.value ≤ b.1.value).foldlM
        (applyDelta voting) { v with
          totalActivatedStake :=
            v.totalActivatedStake + (row.castStake producers voting - row.lastStake) }
      let old := (v₂.voters.lookup name).getD row
      let cast := v.recast now name row producers voting
      pure (v₂.setVoter name { old with
        lastVoteWeight := cast.lastVoteWeight, lastStake :=
          cast.lastStake, producers, proxy := Name.empty,
        selfStakeBoost := cast.selfStakeBoost })) := by
  have hstake : (if voting = true ∧ producers = [] then 0 else stakeOf row) =
    row.castStake producers voting := by
    unfold VoterInfo.castStake stakeOf
    rw [hi]
    rfl
  unfold updateVotes undoLastVote
  simp only [hl, hp, hi, require, ne_eq, not_true_eq_false, if_false, true_or, true_and, hstake,
    if_true, Bind.bind,
    Except.bind]
  by_cases hlen : producers.length ≤ 30
  · by_cases hsort : namesSorted producers = true
    · by_cases hlast : 0 < row.lastStake <;>
      by_cases hpos : 0 ≤ decayVoteWeightMultiplier v.config now
        (inverseVoteWeight (row.castStake producers voting) producers.length) <;>
      simp only [hlen, hsort, hlast, hpos, check, Pure.pure, Except.pure, if_true, if_false,
        voteChanges, recast,
        castBoost, bumpAll, castWeight, true_and, false_and]
    · simp only [hsort, check]
      rfl
  · simp only [hlen, check, if_false]

omit [FloatOps] in
/-- The changes that take back the last vote. -/
lemma undone_lookup (hd : row.Direct) (name q : Name) :
    (((if 0 < row.lastStake then
        bumpAll (fun p => if p = name then
            -row.lastVoteWeight - (row.selfStakeBoost.getD 0 % 2 ^ 32 : ℕ) / 100 *
              row.lastVoteWeight
          else -row.lastVoteWeight) false row.producers ∅
      else ∅ : ProducerDeltas).lookup q).getD (0, false)).1 = -row.counted name q := by
  unfold VoterInfo.counted
  rw [Nat.mod_eq_of_lt hd.boost_lt]
  by_cases hlast : 0 < row.lastStake
  · rw [if_pos hlast, bumpAll_lookup (namesSorted_nodup hd.sorted)]
    by_cases hq : q ∈ row.producers
    · by_cases hn : q = name
      · subst hn
        simp only [hq, hlast, if_true, and_self, AList.lookup_empty, Option.getD_some,
          Option.getD_none]
        ring
      · simp [hq, hn, hlast]
    · simp [hq]
  · simp [hlast]

/-- A new vote that counts replaces the last one. -/
lemma voteChanges_lookup (v : Voting) (now : BlockTimestamp) (name : Name) (voting : Bool)
    (hd : row.Direct) (hs : namesSorted producers = true) (hw : ∀ n, 0 ≤ FloatOps.voteWeight n)
    (q : Name) :
    (((v.voteChanges now name row producers voting).lookup q).getD (0, false)).1 =
      (v.recast now name row producers voting).counted name q - row.counted name q := by
  have hundone := undone_lookup hd name q
  have hpos : 0 ≤ row.castStake producers voting → _ := castWeight_nonneg hw v now producers.length
  have hneg : row.castStake producers voting ≤ 0 → _ := castWeight_nonpos hw v now producers.length
  unfold voteChanges VoterInfo.counted
  simp only [recast]
  generalize (if 0 < row.lastStake then bumpAll _ false row.producers ∅ else ∅ : ProducerDeltas) =
    undone at hundone ⊢
  generalize v.castWeight now (row.castStake producers voting) producers.length = w at hpos hneg ⊢
  unfold VoterInfo.counted at hundone
  by_cases hw0 : 0 ≤ w
  · rw [if_pos hw0, bumpAll_lookup (namesSorted_nodup hs)]
    by_cases hq : q ∈ producers
    · have hzero : ¬ 0 < row.castStake producers voting → w = 0 :=
        fun h => le_antisymm (hneg (not_lt.mp h)) hw0
      rw [if_pos hq, Option.getD_some, hundone]
      by_cases hn : q = name
      · subst hn
        have hboost : castBoost v q row producers w = v.config.selfStakeBoostMultiplier :=
          if_pos ⟨hw0, hq⟩
        by_cases hst : 0 < row.castStake producers voting
        · simp only [hq, hst, hboost, if_true, true_and, Option.getD_some]
          ring
        · simp only [hst, hzero hst, and_false, if_true, if_false]
          ring
      · by_cases hst : 0 < row.castStake producers voting
        · simp only [hn, hq, hst, if_true, if_false, and_self]
          ring
        · simp only [hn, hst, hzero hst, and_false, if_false]
          ring
    · rw [if_neg hq, hundone]
      simp [hq]
  · have hst : ¬ 0 < row.castStake producers voting := fun h => hw0 (hpos h.le)
    rw [if_neg hw0, hundone]
    simp [hst]

/-- The producers of a new vote are those of the list. -/
lemma voteChanges_new (v : Voting) (now : BlockTimestamp) (name : Name) (voting : Bool)
    (hd : row.Direct) (hs : namesSorted producers = true) (q : Name) :
    (((v.voteChanges now name row producers voting).lookup q).getD (0, false)).2 =
      decide (0 ≤ v.castWeight now (row.castStake producers voting) producers.length ∧
        q ∈ producers) := by
  have hold : ∀ w, (((if 0 < row.lastStake then bumpAll w false row.producers ∅ else ∅ :
    ProducerDeltas).lookup
      q).getD (0, false)).2 = false := by
    intro w
    by_cases hlast : 0 < row.lastStake
    · rw [if_pos hlast, bumpAll_lookup (namesSorted_nodup hd.sorted)]
      by_cases hq : q ∈ row.producers <;> simp [hq]
    · simp [hlast]
  unfold voteChanges
  dsimp only
  by_cases hw0 : 0 ≤ v.castWeight now (row.castStake producers voting) producers.length
  · rw [if_pos hw0, bumpAll_lookup (namesSorted_nodup hs)]
    by_cases hq : q ∈ producers
    · simp [hq, hw0]
    · rw [if_neg hq, hold]
      simp [hq]
  · rw [if_neg hw0, hold]
    simp [hw0]

/-- The voter's row is the new one, and the tallies have moved by what the two rows count. -/
structure Revoted (now : BlockTimestamp) (name : Name) (row : VoterInfo)
    (producers : List Name) (voting : Bool)
    (v v' : Voting) : Prop where
  length_le : producers.length ≤ 30
  sorted : namesSorted producers = true
  voters : v'.voters = v.voters.insert name (v.recast now name row producers voting)
  tallies : ∀ q, v'.producers.lookup q = (v.producers.lookup q).map fun p =>
    { p with totalVotes := p.totalVotes - row.counted name q + (v.recast now name row producers voting).counted name q }
  weight : v'.totalProducerVoteWeight - v'.tallySum = v.totalProducerVoteWeight - v.tallySum
  activated : v'.totalActivatedStake = v.totalActivatedStake +
    (row.castStake producers voting - row.lastStake)
  config : v'.config = v.config
  named : ∀ q ∈ producers, 0 < row.castStake producers voting →
    ∃ p, v.producers.lookup q = some p ∧ (voting = true → p.isActive = true)

lemma recast_counted_nonneg (hw : ∀ n, 0 ≤ FloatOps.voteWeight n) (v : Voting)
    (now : BlockTimestamp) (name : Name) (row : VoterInfo) (producers : List Name) (voting : Bool)
    (q : Name) : 0 ≤ (v.recast now name row producers voting).counted name q := by
  unfold VoterInfo.counted
  split_ifs with hc hq
  · exact mul_nonneg (castWeight_nonneg hw v now _ hc.2.le) (by positivity)
  · exact mul_nonneg (castWeight_nonneg hw v now _ hc.2.le) (by norm_num)
  · exact le_refl 0

lemma recast_direct (hw : ∀ n, 0 ≤ FloatOps.voteWeight n) (hd : row.Direct)
    (hm : v.config.selfStakeBoostMultiplier < 2 ^ 32) (hlen : producers.length ≤ 30)
    (hs : namesSorted producers = true) : (v.recast now name row producers voting).Direct := by
  refine ⟨rfl, hd.notProxy, hs, hlen, ?_, fun h => castWeight_nonneg hw v now _ h.le⟩
  simp only [recast, Option.getD_some, castBoost]
  split_ifs
  · exact hm
  · norm_num
  · exact Nat.mod_lt _ (by norm_num)

/-- A vote for registered producers succeeds. -/
lemma updateVotes_total (hl : v.voters.lookup name = some row) (hd : row.Direct)
    (hlen : producers.length ≤ 30) (hs : namesSorted producers = true)
    (hreg : ∀ q ∈ producers, ∃ p, v.producers.lookup q = some p ∧
      (voting = true → p.isActive = true)) :
    ∃ v', v.updateVotes now name Name.empty producers voting = .ok v' := by
  rw [updateVotes_eq hl hd.noProxy hd.notProxy]
  simp only [check, hlen, hs, if_true, Bind.bind, Except.bind]
  have happ : ∀ e ∈ (v.voteChanges now name row producers voting).indexed fun a b => a.1.value ≤ b.1.value,
      Applicable voting { v with
        totalActivatedStake :=
          v.totalActivatedStake + (row.castStake producers voting - row.lastStake) } e := by
    intro e he hf
    have hflag := voteChanges_new v now name voting hd hs e.1
    rw [(Table.mem_indexed _).mp he, Option.getD_some, hf] at hflag
    exact hreg e.1 (of_decide_eq_true hflag.symm).2
  obtain ⟨v₂, h₂⟩ := applyDeltas_total happ
  rw [h₂]
  exact ⟨_, rfl⟩

/-- A vote in a state whose tallies cover the voter's last vote. -/
theorem updateVotes_revoted (hw : ∀ n, 0 ≤ FloatOps.voteWeight n)
    (hl : v.voters.lookup name = some row) (hd : row.Direct)
    (hcover : ∀ q p, v.producers.lookup q = some p → row.counted name q ≤ p.totalVotes)
    (h : v.updateVotes now name Name.empty producers voting = .ok v') :
    Revoted now name row producers voting v v' := by
  rw [updateVotes_eq hl hd.noProxy hd.notProxy] at h
  simp only [bind_ok, check_ok, exists_const, pure_ok] at h
  obtain ⟨hlen, hs, v₂, h₂, rfl⟩ := h
  have hchange : ∀ q, changeOf ((v.voteChanges now name row producers voting).indexed
      fun a b => a.1.value ≤ b.1.value) q =
      (v.recast now name row producers voting).counted name q - row.counted name q :=
    fun q => (changeOf_indexed _ _ q).trans (voteChanges_lookup v now name voting hd hs hw q)
  have hentry : ∀ e ∈ (v.voteChanges now name row producers voting).indexed fun a b => a.1.value ≤ b.1.value,
      ((v.voteChanges now name row producers voting).lookup e.1) = some e.2 :=
      fun e he => (Table.mem_indexed _).mp he
  have hmoved := applyDeltas_moved (Table.nodup_indexed _ _) h₂ fun e he p hp => by
    have hlook := voteChanges_lookup v now name voting hd hs hw e.1
    rw [hentry e he, Option.getD_some] at hlook
    have hc := hcover e.1 p hp
    have hn := recast_counted_nonneg hw v now name row producers voting e.1
    rw [hlook]
    linarith
  have hrow : v₂.voters.lookup name = some row := by rw [hmoved.voters]; exact hl
  refine ⟨hlen, hs, ?_, fun q => ?_, hmoved.weight, hmoved.activated, hmoved.config,
    fun q hq hst => ?_⟩
  · rw [hrow]
    simp only [setVoter, hmoved.voters, Option.getD_some]
    rfl
  · have ht := hmoved.tallies q
    rw [hchange] at ht
    simp only [setVoter, ht]
    congr 1
    funext p
    congr 1
    ring
  · have hflag := voteChanges_new v now name voting hd hs q
    have hpos := castWeight_nonneg hw v now producers.length hst.le
    rw [decide_eq_true ⟨hpos, hq⟩] at hflag
    cases hl : (v.voteChanges now name row producers voting).lookup q with
    | none => simp [hl] at hflag
    | some e =>
      rw [hl, Option.getD_some] at hflag
      exact applyDeltas_applicable h₂ (q, e) ((Table.mem_indexed _).mpr hl) hflag

end Voting

end TelosSystem
