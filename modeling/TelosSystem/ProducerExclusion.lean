import TelosSystem.MissedCharges
import TelosSystem.NameCustody
import TelosSystem.ProducerSchedule
import TelosSystem.VoteLedger

/-! A producer that was kicked, that was removed or that has left is out: it is in no schedule that is
proposed, until it registers again. -/
namespace TelosSystem
open Ledger

/-- The producer has no row, or an inactive one. -/
def Voting.Out (v : Voting) (producer : Name) : Prop :=
  ∀ p, v.producers.lookup producer = some p → p.isActive = false

lemma MissedEdit.inactive {p q : ProducerInfo} (h : MissedEdit p q) (hp : p.isActive = false) :
    q.isActive = false := by
  cases h with
  | restart => exact hp
  | charge missed active => exact hp
  | kick now => rfl

lemma RowEdit.inactive {p q : ProducerInfo} (h : RowEdit p q) (hp : p.isActive = false) :
    q.isActive = false := by
  cases h with
  | missed h => exact h.inactive hp
  | count => exact hp
  | pay => exact hp

lemma mem_of_mem_swapped {prods : List ProducerLocationPair} {bp sbp : Option ℕ}
    {pair : ProducerLocationPair} (h : pair ∈ swapped prods bp sbp) : pair ∈ prods := by
  unfold swapped at h
  split at h
  · rename_i out sub ho hs
    obtain ⟨j, -, hj⟩ := Option.bind_eq_some_iff.mp hs
    obtain ⟨q, hq, rfl⟩ := List.mem_map.mp h
    split_ifs
    · exact List.mem_of_getElem? hj
    · exact List.mem_of_mem_take hq
  · exact List.mem_of_mem_take h

lemma electedProducers_active {t : Table Name ProducerInfo} {pair : ProducerLocationPair}
    (h : pair ∈ electedProducers t) :
    ∃ p, t.lookup pair.producerName = some p ∧ p.isActive = true := by
  unfold electedProducers at h
  obtain ⟨e, he, rfl⟩ := List.mem_map.mp h
  have htake := List.mem_of_mem_take he
  have hvoted := List.mem_takeWhile_imp htake
  simp only [decide_eq_true_eq] at hvoted
  have hrow : e ∈ producersByVotes t := (List.takeWhile_sublist _).subset htake
  exact ⟨e.2, (Table.mem_indexed _).mp hrow, hvoted.2⟩

lemma updateElectedProducers_active {blockTime : BlockTimestamp}
    {accepted : List ProducerLocationPair → Bool} {sc sc' : Schedule}
    {top : List ProducerLocationPair}
    (h : updateElectedProducers blockTime accepted sc = (some top, sc')) :
    ∀ pair ∈ top, ∃ p, sc.producers.lookup pair.producerName = some p ∧ p.isActive = true := by
  intro pair hpair
  have hmem : pair ∈ (checkRotationState (electedProducers sc.producers) blockTime sc.rotation
    sc.producers).1 := by
    unfold updateElectedProducers at h
    dsimp only at h
    split_ifs at h
    · cases h
    · cases h
      exact (List.mem_insertionSort _).mp hpair
    · cases h
      exact (List.mem_insertionSort _).mp hpair
  exact electedProducers_active (mem_of_mem_swapped hmem)

/-- Between the two states no producer comes back in, and the schedules that are proposed have only
producers that were in at first. -/
structure Excludes (s s' : State) : Prop where
  out : ∀ name, s.voting.Out name → s'.voting.Out name
  proposed : ∃ new, s'.production.proposed = s.production.proposed ++ new ∧
    ∀ e ∈ new, ∀ name ∈ e.2, ¬ s.voting.Out name

namespace Excludes
variable {s s' s'' : State}

/-- Nothing is proposed. -/
lemma quiet (hout : ∀ name, s.voting.Out name → s'.voting.Out name)
    (hp : s'.production.proposed = s.production.proposed) : Excludes s s' :=
  ⟨hout, [], by rw [hp, List.append_nil], fun e he => absurd he List.not_mem_nil⟩

lemma refl (s : State) : Excludes s s := quiet (fun _ => id) rfl

lemma trans (h : Excludes s s') (h' : Excludes s' s'') : Excludes s s'' := by
  obtain ⟨new, hnew, hin⟩ := h.proposed
  obtain ⟨new', hnew', hin'⟩ := h'.proposed
  refine ⟨fun name hn => h'.out name (h.out name hn), new ++ new', ?_, fun e he name hname => ?_⟩
  · rw [hnew', hnew, List.append_assoc]
  · rcases List.mem_append.mp he with he | he
    · exact hin e he name hname
    · exact fun hout => hin' e he name hname (h.out name hout)

end Excludes

lemma rewrites_out {t t' : Table Name ProducerInfo} {E : ProducerInfo → ProducerInfo → Prop}
    (hE : ∀ {p q}, E p q → p.isActive = false → q.isActive = false)
    (h : Table.Rewrites (EditedRow E) t t') {name : Name}
    (hout : ∀ p, t.lookup name = some p → p.isActive = false) :
    ∀ p, t'.lookup name = some p → p.isActive = false := by
  induction h with
  | refl => exact hout
  | @tail t₁ t₂ _ hstep ih =>
    obtain ⟨other, q, ⟨p, hp, hpq⟩, rfl⟩ := hstep
    intro r hr
    rw [Table.lookup_insert'] at hr
    split_ifs at hr with hn
    · cases hr
      subst hn
      exact hE hpq (ih p hp)
    · exact ih r hr

lemma ProducersEdited.out {s s' : State} (h : ProducersEdited s s') (name : Name)
    (hout : s.voting.Out name) : s'.voting.Out name := by
  obtain ⟨t, production, rfl, ht⟩ := h
  exact rewrites_out RowEdit.inactive ht hout

lemma Voting.Counted.out {v v' : Voting} (h : v.Counted v') (name : Name) (hout : v.Out name) :
    v'.Out name := by
  intro q hq
  have hn := h.producers name
  rw [hq, Option.map_some] at hn
  obtain ⟨p, hp, hpq⟩ := Option.map_eq_some_iff.mp hn.symm
  have hsame : p.isActive = q.isActive := (congrArg ProducerInfo.isActive hpq :)
  rw [← hsame]
  exact hout p hp

/-- A producer that no rewritten row brings in stays out while votes are counted. -/
lemma VotingSteps.out [FloatOps] {now : BlockTimestamp} {rows : RowRule} {ballots : Prop}
    {v v' : Voting} {name : Name}
    (hrow : ∀ old new, rows name old new → (∀ p, old = some p → p.isActive = false) →
      new.isActive = false)
    (h : VotingSteps now rows ballots v v') (hout : v.Out name) : v'.Out name := by
  have hkept := h.keepsRows (P := fun n old => n = name → ∀ p, old = some p → p.isActive = false)
    (fun n p q hpq hp hn r hr => ?_) (fun n old new hnew hold hn r hr => ?_) (fun n hn => hn ▸ hout)
  · exact hkept name rfl
  · cases hr
    have hsame : q.isActive = p.isActive := (congrArg ProducerInfo.isActive hpq :)
    rw [hsame]
    exact hp hn p rfl
  · cases hr
    subst hn
    exact hrow old new hnew (hold rfl)

lemma editedRow_inactive (name : Name) (old : Option ProducerInfo) (new : ProducerInfo)
    (h : EditedRow RowEdit name old new) (hold : ∀ p, old = some p → p.isActive = false) :
    new.isActive = false := by
  obtain ⟨p, hp, hpq⟩ := h
  exact hpq.inactive (hold p hp)

section
variable [FloatOps] {now timestamp : BlockTimestamp} {producer : Name} {active : List Name}
  {accepted : List ProducerLocationPair → Bool} {s s' : State}

omit [FloatOps] in
lemma electProducers_excludes {blockTime : BlockTimestamp}
    (h : electProducers now blockTime accepted s = .ok s') : Excludes s s' := by
  have hout := (electProducers_counted h).edited.out
  unfold electProducers at h
  generalize hr : updateElectedProducers blockTime accepted s.schedule = r at h
  obtain ⟨proposed, sc⟩ := r
  cases proposed with
  | none =>
    cases h
    exact Excludes.quiet hout rfl
  | some top =>
    simp only [bind_ok, check_ok, exists_const, pure_ok] at h
    obtain ⟨-, rfl⟩ := h
    refine ⟨hout, [(now, top.map (·.producerName))], rfl, fun e he name hname hin => ?_⟩
    obtain rfl := List.mem_singleton.mp he
    obtain ⟨pair, hpair, rfl⟩ := List.mem_map.mp hname
    obtain ⟨p, hp, hactive⟩ := updateElectedProducers_active hr pair hpair
    have hinactive : p.isActive = false := hin p hp
    rw [hinactive] at hactive
    cases hactive

omit [FloatOps] in
lemma setMetrics_excludes (s : State) (m : ScheduleMetrics) : Excludes s (s.setMetrics m) :=
  Excludes.quiet (fun _ => id) rfl

omit [FloatOps] in
lemma checkMissedBlocks_excludes {completed : Bool}
    (h : checkMissedBlocks now timestamp producer active accepted s = .ok (completed, s')) :
    Excludes s s' := by
  unfold checkMissedBlocks at h
  dsimp only at h
  split_ifs at h
  all_goals first
    | cases h
      exact setMetrics_excludes s _
    | skip
  simp only [bind_ok, pure_ok, Prod.mk.injEq] at h
  obtain ⟨s1, h1, -, rfl⟩ := h
  exact (setMetrics_excludes s _).trans (electProducers_excludes h1)

omit [FloatOps] in
lemma countMissedBlocks_excludes
    (h : countMissedBlocks now timestamp producer active accepted s = .ok s') : Excludes s s' := by
  simp only [countMissedBlocks, bind_ok] at h
  obtain ⟨⟨completed, s1⟩, h1, h⟩ := h
  have hcheck := checkMissedBlocks_excludes h1
  cases completed with
  | false =>
    cases h
    exact hcheck
  | true =>
    cases h
    have hcharge := Table.Rewrites.foldl Prod.fst chargeMetric_rewrites
      s1.production.metrics.producersMetric (s1.voting.producers, [])
    refine hcheck.trans (Excludes.quiet (fun name hout => ?_) rfl)
    exact rewrites_out MissedEdit.inactive (hcharge.trans (kickProducers_rewrites _ _ _ _ _ _)) hout

omit [FloatOps] in
lemma electAndClose_excludes {b : Block} (h : electAndClose now b s = .ok s') : Excludes s s' := by
  unfold electAndClose at h
  split_ifs at h
  · simp only [bind_ok, pure_ok] at h
    obtain ⟨s1, h1, rfl⟩ := h
    obtain ⟨auctions, pools, hc⟩ := closeAuction_eq b.header.timestamp now s1
    rw [hc]
    exact (electProducers_excludes h1).trans (Excludes.quiet (fun _ => id) rfl)
  · cases h
    exact Excludes.refl s

lemma onblock_excludes {ctx : Context} {b : Block} (h : onblock ctx b s = .ok s') :
    Excludes s s' := by
  obtain ⟨records, -, hstages⟩ := onblock_stages h
  have hrecord : Excludes s (s.record records) := Excludes.quiet (fun _ => id) rfl
  refine hrecord.trans ?_
  generalize s.record records = s1 at hstages
  cases hstages with
  | waiting inactive =>
    unfold activateNetwork
    split_ifs
    · exact Excludes.quiet (fun _ => id) rfl
    · exact Excludes.refl s1
  | @counted s2 s3 _ v active missed votes elect snapshot =>
    have hcount : Excludes s2 (countBlock b.header.producer s2) :=
      Excludes.quiet (countBlock_edited _ s2).out (countBlock_duties _ s2).proposed
    have hvotes : Excludes (countBlock b.header.producer s2)
      { countBlock b.header.producer s2 with voting := v } :=
      Excludes.quiet (Voting.recalculateVotes_counted votes).out rfl
    have hpart : BlockPart ctx.now Promise.block s3 s' :=
      takeSnapshot_part trivial (fun hq => hq rfl) (fun _ _ _ => id) snapshot
    have hsnap : Excludes s3 s' := Excludes.quiet
      (fun name hout => hpart.effects.votingSteps.out (editedRow_inactive name) hout)
      (takeSnapshot_duties snapshot).proposed
    have hstart : Excludes s1 (s1.startFill ctx.now) := Excludes.quiet (fun _ => id) rfl
    exact hstart.trans ((countMissedBlocks_excludes missed).trans
      (hcount.trans (hvotes.trans ((electAndClose_excludes elect).trans hsnap))))

omit [FloatOps] in
/-- Only its registration brings a producer in. -/
lemma Action.Rewrites.inactive {a : Action} {name : Name} {old : Option ProducerInfo}
    {new : ProducerInfo} (h : a.Rewrites name old new)
    (hreg : ∀ urlSize location, a ≠ .regproducer name urlSize location)
    (hold : ∀ p, old = some p → p.isActive = false) : new.isActive = false := by
  cases a with
  | regproducer producer urlSize location =>
    obtain ⟨rfl, -⟩ := h
    exact absurd rfl (hreg urlSize location)
  | unregprod =>
    obtain ⟨-, p, -, rfl⟩ := h
    rfl
  | unregreason =>
    obtain ⟨-, p, -, rfl⟩ := h
    rfl
  | rmvproducer =>
    obtain ⟨-, p, -, rfl⟩ := h
    rfl
  | votebpout =>
    obtain ⟨-, kicked, p, -, rfl⟩ := h
    rfl
  | onblock => exact editedRow_inactive name old new h hold
  | _ => cases h

def ProposedWithout (producer : Name) (s s' : State) : Prop :=
  ∃ new, s'.production.proposed = s.production.proposed ++ new ∧ ∀ e ∈ new, producer ∉ e.2

omit [FloatOps] in
lemma ProposedWithout.trans {p : Name} {s₁ s₂ s₃ : State} (h : ProposedWithout p s₁ s₂)
    (h' : ProposedWithout p s₂ s₃) : ProposedWithout p s₁ s₃ := by
  obtain ⟨new, hnew, hwithout⟩ := h
  obtain ⟨new', hnew', hwithout'⟩ := h'
  refine ⟨new ++ new', by rw [hnew', hnew, List.append_assoc], fun e he => ?_⟩
  rcases List.mem_append.mp he with he | he
  · exact hwithout e he
  · exact hwithout' e he

omit [FloatOps] in
lemma ProposedWithout.of_eq {p : Name} (h : s'.production.proposed = s.production.proposed) :
    ProposedWithout p s s' :=
  ⟨[], by rw [h, List.append_nil], fun e he => absurd he List.not_mem_nil⟩

theorem step.keepsOut {l : Label} {name : Name} (h : step now l s s') (hout : s.voting.Out name)
    (hreg : ∀ urlSize location, l.action ≠ .regproducer name urlSize location) :
    s'.voting.Out name ∧ ProposedWithout name s s' := by
  refine ⟨h.votingSteps.out (fun old new hnew hold => hnew.inactive hreg hold) hout, ?_⟩
  have hother : ¬ l.action.Produces → ProposedWithout name s s' := fun hn =>
    ProposedWithout.of_eq (congrArg Production.proposed (h.production hn))
  obtain ⟨auth, action⟩ := l
  cases action with
  | claimrewards owner => exact ProposedWithout.of_eq (claimrewards_duties h).proposed
  | onblock b =>
    obtain ⟨new, hnew, hin⟩ := (onblock_excludes h).proposed
    exact ⟨new, hnew, fun e he hname => hin e he name hname hout⟩
  | _ => exact hother id

/-- A producer that is out, by a kick or otherwise, stays out and is in no schedule that is proposed, for
as long as it does not register. -/
theorem kicked_stays_out {t t' : BlockTimestamp} {tr : List (BlockTimestamp × Label)} {name : Name}
    (hout : s.voting.Out name) (hrun : TimedRun step t s tr t' s')
    (hreg : ∀ x ∈ tr, ∀ urlSize location, x.2.action ≠ .regproducer name urlSize location) :
    s'.voting.Out name ∧ ProposedWithout name s s' := by
  refine TimedRun.invariant (fun _ _ s' => s'.voting.Out name ∧ ProposedWithout name s s')
    (fun l => ∀ urlSize location, l.action ≠ .regproducer name urlSize location)
    ⟨hout, ProposedWithout.of_eq rfl⟩ (fun {_ _ _ _ _ _} hi _ hl hstep => ?_) hreg hrun
  obtain ⟨hnext, hwithout⟩ := hstep.keepsOut hi.1 hl
  exact ⟨hnext, hi.2.trans hwithout⟩

/-- A producer that was out and is in has signed a registration, and has been in since. -/
theorem in_since_registration {t₀ t : BlockTimestamp} {s₀ : State}
    {tr : List (BlockTimestamp × Label)} {name : Name} (hout : s₀.voting.Out name)
    (hrun : TimedRun step t₀ s₀ tr t s) (hin : ¬ s.voting.Out name) :
    HeldSince step (fun _ l _ _ => name ∈ l.auth ∧ ∃ urlSize location,
      l.action = .regproducer name urlSize location)
      (fun s => ¬ s.voting.Out name) t₀ s₀ tr t s := by
  refine TimedRun.heldSince (I := fun _ => True) (fun _ _ => trivial)
    (fun {now l s s'} _ hstep hnot hnow => ?_) trivial
    (not_not.mpr hout) hrun hin
  by_contra hother
  refine hnow (hstep.keepsOut (not_not.mp hnot) fun urlSize location hl => hother ?_).1
  obtain ⟨auth, action⟩ := l
  subst hl
  refine ⟨?_, urlSize, location, rfl⟩
  simp only [step, exec, regproducer, requireAuth, bind_ok, check_ok, exists_const] at hstep
  exact hstep.1

end

/-- Alice votes for herself and for Bob, who is then voted out. -/
def outTrace : List (BlockTimestamp × Label) :=
  [(launchTime, ⟨[alice], .regproducer alice 10 1⟩),
    (launchTime, ⟨[bob], .regproducer bob 10 2⟩),
    (launchTime, ⟨[alice], .delegatebw alice alice ⟨100000, tlos⟩ ⟨100000, tlos⟩ false⟩),
    (launchTime, ⟨[alice], .voteproducer alice Name.empty [alice, bob]⟩),
    (days 1, ⟨[systemAccount], .votebpout bob 24⟩)]

def returnTrace : List (BlockTimestamp × Label) :=
  [(days 1, ⟨[systemAccount], .onblock (plainBlock 1 (days 1))⟩),
    (days 2, ⟨[bob], .regproducer bob 10 2⟩)]

def returnAfter (n : ℕ) : State :=
  stateAfter (fun now (l : Label) => @exec launchFloats ⟨now, l.auth⟩ l.action) (returnTrace.take n)
    (launched outTrace)

lemma bob_out : (launched outTrace).voting.Out bob := by
  have hrow : ((launched outTrace).voting.producers.lookup bob).map ProducerInfo.isActive =
    some false := by
    decide +kernel
  intro p hp
  rw [hp, Option.map_some] at hrow
  exact Option.some.inj hrow

/-- Alice is elected without Bob. -/
theorem elected_without :
    (returnAfter 1).voting.Out bob ∧ ProposedWithout bob (launched outTrace) (returnAfter 1) := by
  have hrun : TimedRun (@step launchFloats) (days 1) (launched outTrace) (returnTrace.take 1)
    (days 1) (returnAfter 1) :=
    letI := launchFloats
    timedRun_stateAfter (by decide) (by decide +kernel)
  have hreg : ∀ x ∈ returnTrace.take 1, ∀ urlSize location,
    x.2.action ≠ .regproducer bob urlSize location := by
    simp [returnTrace]
  let := launchFloats
  exact kicked_stays_out bob_out hrun hreg

theorem bob_returned : HeldSince (@step launchFloats)
    (fun _ l _ _ => bob ∈ l.auth ∧ ∃ urlSize location, l.action = .regproducer bob urlSize location)
    (fun s => ¬ s.voting.Out bob) (days 1) (launched outTrace) (returnTrace.take 2) (days 2)
      (returnAfter 2) := by
  have hrun : TimedRun (@step launchFloats) (days 1) (launched outTrace) (returnTrace.take 2)
    (days 2) (returnAfter 2) :=
    letI := launchFloats
    timedRun_stateAfter (by decide) (by decide +kernel)
  have hrow : ((returnAfter 2).voting.producers.lookup bob).map ProducerInfo.isActive =
    some true := by
    decide +kernel
  have hin : ¬ (returnAfter 2).voting.Out bob := by
    intro hout
    obtain ⟨p, hp, hactive⟩ := Option.map_eq_some_iff.mp hrow
    rw [hout p hp] at hactive
    cases hactive
  let := launchFloats
  exact in_since_registration bob_out hrun hin

end TelosSystem
