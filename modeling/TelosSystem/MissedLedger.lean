import TelosSystem.PayLedger
import TelosSystem.ThresholdKicks
import TelosSystem.VoteLedger

/-! The ledger of missed blocks: those of this rotation and of the rotations before it. A block that
completes a round adds its charges; a kick for crossing the threshold adds the blocks of the rotation
a second time, and nothing else changes the total. The counters are of 32 bits, so that a total that
does not fit them is kept up to a multiple of `2 ^ 32`. -/
namespace TelosSystem
open Ledger

/-- All blocks that a producer has missed, as its row counts them. -/
def ProducerInfo.missedBlocks (p : ProducerInfo) : ℕ :=
  p.lifetimeMissedBlocks.toNat + p.missedBlocksPerRotation.toNat

def missedBlocksOf (producers : Table Name ProducerInfo) (name : Name) : ℕ :=
  ((producers.lookup name).map ProducerInfo.missedBlocks).getD 0

/-- What a complete round charges to a producer, and the blocks of this rotation once more if the
round kicks it. -/
def roundEntry (s : State) (name : Name) : ℕ :=
  chargeOf s.voting.producers s.production.metrics.producersMetric name +
    if name ∈ (kickedProducers s).map Prod.fst
    then (((chargeRound s).lookup name).map fun p => p.missedBlocksPerRotation.toNat).getD 0 else 0

def missedIn (name : Name) (now : BlockTimestamp) (l : Label) (s : State) : ℕ :=
  match l.action with
  | .onblock b => ((completedRound now b s).map fun s₁ => roundEntry s₁ name).getD 0
  | _ => 0

def missedEntry (name : Name) (now : BlockTimestamp) (l : Label) (s _ : State) : ℤ :=
  missedIn name now l s

/-- What 32-bit counters show of a total. -/
def Wrapped (total shown : ℕ) : Prop := shown ≤ total ∧ shown ≡ total [MOD 2 ^ 32]

namespace Wrapped
variable {total shown rest : ℕ}

lemma refl (total : ℕ) : Wrapped total total := ⟨le_rfl, rfl⟩

lemma of_eq (h : shown = total) : Wrapped total shown := h ▸ refl total

lemma trans (h : Wrapped total shown) (h' : Wrapped shown rest) : Wrapped total rest :=
  ⟨h'.1.trans h.1, h'.2.trans h.2⟩

lemma add (h : Wrapped total shown) (n : ℕ) : Wrapped (total + n) (shown + n) :=
  ⟨Nat.add_le_add_right h.1 n, h.2.add_right n⟩

/-- A total that fits is shown. -/
lemma exact (h : Wrapped total shown) (hfits : total < 2 ^ 32) : total = shown := by
  have hle := h.1
  have hmod : shown % 2 ^ 32 = total % 2 ^ 32 := h.2
  omega

end Wrapped

/-- A row with the same total, up to wraps. -/
def SameMissed (p q : ProducerInfo) : Prop := Wrapped p.missedBlocks q.missedBlocks

lemma restartMissedBlocks_same (p : ProducerInfo) : SameMissed p (restartMissedBlocks p) := by
  simp only [SameMissed, Wrapped, Nat.ModEq, ProducerInfo.missedBlocks, restartMissedBlocks,
    UInt32.toNat_add]
  have hzero : (0 : UInt32).toNat = 0 := rfl
  omega

lemma rewrites_missed {t t' : Table Name ProducerInfo}
    (h : Table.Rewrites (EditedRow SameMissed) t t') (name : Name) :
    Wrapped (missedBlocksOf t name) (missedBlocksOf t' name) := by
  induction h with
  | refl => exact Wrapped.refl _
  | @tail t₁ t₂ _ hstep ih =>
    obtain ⟨n, q, ⟨p, hp, hpq⟩, rfl⟩ := hstep
    refine ih.trans ?_
    unfold missedBlocksOf
    rw [Table.lookup_insert']
    split_ifs with hn
    · subst hn
      rw [hp]
      exact hpq
    · exact Wrapped.refl _

lemma Voting.Counted.missed {v v' : Voting} (h : v.Counted v') (name : Name) :
    missedBlocksOf v'.producers name = missedBlocksOf v.producers name := by
  have hrow := congrArg (fun o => (o.map ProducerInfo.missedBlocks).getD 0) (h.producers name)
  simp only [Option.map_map] at hrow
  exact hrow

/-- What a round does to the totals of the producers. -/
lemma updateMissedBlocksPerRotation_missed (now : BlockTimestamp) {s : State}
    (hn : (s.production.metrics.producersMetric.map Prod.fst).Nodup) (name : Name) :
    Wrapped (missedBlocksOf s.voting.producers name + roundEntry s name)
      (missedBlocksOf (updateMissedBlocksPerRotation now s).voting.producers name) := by
  unfold missedBlocksOf roundEntry
  rw [updateMissedBlocksPerRotation_lookup now hn, chargeRound_lookup]
  cases hp : s.voting.producers.lookup name with
  | none =>
    have hnone : chargeOf s.voting.producers s.production.metrics.producersMetric name = 0 :=
      chargeOf_other (Or.inr fun p h => absurd (hp.symm.trans h) (by simp))
    simp [hnone, Wrapped.refl]
  | some p =>
    generalize chargeOf s.voting.producers s.production.metrics.producersMetric name = missed
    split_ifs
    -- `thresholdKick` adds the rotation's blocks to those of its life, and `kick` adds them again
    · simp only [Option.map_some, Option.getD_some, ProducerInfo.missedBlocks, thresholdKick,
        ProducerInfo.kick,
        ProducerInfo.deactivate, ProducerInfo.charged, Wrapped, Nat.ModEq, UInt32.toNat_add,
          UInt32.toNat_ofNat']
      have hzero : (0 : UInt32).toNat = 0 := rfl
      omega
    · simp only [Option.map_some, Option.getD_some, ProducerInfo.missedBlocks,
        ProducerInfo.charged, Wrapped,
        Nat.ModEq, UInt32.toNat_add, UInt32.toNat_ofNat']
      omega

section
variable {now timestamp : BlockTimestamp} {producer : Name} {active : List Name}
  {accepted : List ProducerLocationPair → Bool} {s s' : State}

lemma electProducers_missed {blockTime : BlockTimestamp}
    (h : electProducers now blockTime accepted s = .ok s') (name : Name) :
    Wrapped (missedBlocksOf s.voting.producers name) (missedBlocksOf s'.voting.producers name) := by
  obtain ⟨producers, production, rfl, -, hrows⟩ := electProducers_rows restartMissedBlocks_same h
  exact rewrites_missed hrows name

lemma checkMissedBlocks_missed {completed : Bool}
    (h : checkMissedBlocks now timestamp producer active accepted s = .ok (completed, s'))
    (name : Name) :
    Wrapped (missedBlocksOf s.voting.producers name) (missedBlocksOf s'.voting.producers name) := by
  unfold checkMissedBlocks at h
  dsimp only at h
  split_ifs at h
  all_goals first
    | cases h
      exact Wrapped.refl _
    | skip
  simp only [bind_ok, pure_ok, Prod.mk.injEq] at h
  obtain ⟨s₁, h₁, -, rfl⟩ := h
  exact electProducers_missed h₁ name

lemma countBlock_missed (producer : Name) (s : State) (name : Name) :
    Wrapped (missedBlocksOf s.voting.producers name)
      (missedBlocksOf (countBlock producer s).voting.producers name) := by
  unfold countBlock
  cases hp : s.voting.producers.lookup producer with
  | none => exact Wrapped.refl _
  | some p =>
    have hrows : Table.Rewrites (EditedRow SameMissed) s.voting.producers
      (s.voting.producers.insert producer { p with
        unpaidBlocks := p.unpaidBlocks + 1
        lifetimeProducedBlocks := p.lifetimeProducedBlocks + 1 }) :=
          edit_rewrites hp (Wrapped.refl _)
    exact rewrites_missed hrows name

lemma electAndClose_missed {b : Block} (h : electAndClose now b s = .ok s') (name : Name) :
    Wrapped (missedBlocksOf s.voting.producers name) (missedBlocksOf s'.voting.producers name) := by
  unfold electAndClose at h
  split_ifs at h
  · simp only [bind_ok, pure_ok] at h
    obtain ⟨s₁, h₁, rfl⟩ := h
    obtain ⟨auctions, pools, hc⟩ := closeAuction_eq b.header.timestamp now s₁
    rw [hc]
    exact electProducers_missed h₁ name
  · cases h
    exact Wrapped.refl _

lemma claimrewardsSnapshot_missed {pay : Payroll} (h : claimrewardsSnapshot now pay s = .ok s')
    (name : Name) :
    Wrapped (missedBlocksOf s.voting.producers name) (missedBlocksOf s'.voting.producers name) := by
  have hpaid : ∀ s, Wrapped (missedBlocksOf s.voting.producers name) (missedBlocksOf
      (payProducers pay.payAmount 0 (producersByVotes s.voting.producers) s).voting.producers
      name) := by
    intro s
    obtain ⟨producers, production, hs, hrows⟩ :=
      payProducersByVotes_rows (E := SameMissed) (fun _ => Wrapped.refl _) pay.payAmount s
    rw [hs]
    exact rewrites_missed hrows name
  simp only [claimrewardsSnapshot, bind_ok, check_ok, exists_const] at h
  obtain ⟨-, h⟩ := h
  split_ifs at h
  · cases h
    exact Wrapped.refl _
  · simp only [bind_ok, pure_ok] at h
    obtain ⟨s₁, h₁, rfl⟩ := h
    rw [← (fillBucket_filled h₁).voting]
    exact hpaid s₁
  · simp only [bind_ok, pure_ok] at h
    obtain ⟨s₁, rfl, rfl⟩ := h
    exact hpaid s

lemma takeSnapshot_missed {b : Block} (h : takeSnapshot now b s = .ok s') (name : Name) :
    Wrapped (missedBlocksOf s.voting.producers name) (missedBlocksOf s'.voting.producers name) := by
  unfold takeSnapshot at h
  split_ifs at h
  · simp only [bind_ok, pure_ok] at h
    obtain ⟨s₁, h₁, rfl⟩ := h
    exact claimrewardsSnapshot_missed h₁ name
  · cases h
    exact Wrapped.refl _

/-- A block that does not abort completes a round exactly if its count says so. -/
lemma completedRound_eq {b : Block} {records : List BlockInfoRecord} {completed : Bool}
    (hr : addToBlockinfoTable wrappingSub b.header s.production.blockinfo = .ok records)
    (ha : s.threshActivatedStakeTime ≠ 0)
    (h : checkMissedBlocks now b.header.timestamp b.header.producer b.activeProducers b.accepted
      ((s.record records).startFill now) = .ok (completed, s')) :
    completedRound now b s = if completed then some s' else none := by
  have hrecord : recordBlock b.header s = .ok (s.record records) := by
    simp only [recordBlock, bind_ok, pure_ok]
    exact ⟨records, hr, rfl⟩
  unfold completedRound
  rw [hrecord]
  dsimp only
  rw [h]
  cases completed with
  | false => rfl
  | true => exact if_neg ha

lemma completedRound_inactive {b : Block} (h : s.threshActivatedStakeTime = 0) :
    completedRound now b s = none := by
  unfold completedRound
  split
  · rfl
  · split
    · exact if_pos h
    · rfl

variable [FloatOps]

lemma onblock_missed {auth : List Name} {b : Block} (hi : RoundInv s)
    (h : onblock ⟨now, auth⟩ b s = .ok s') (name : Name) :
    Wrapped (missedBlocksOf s.voting.producers name + missedIn name now ⟨auth, .onblock b⟩ s)
      (missedBlocksOf s'.voting.producers name) := by
  obtain ⟨records, hr, hstages⟩ := onblock_stages h
  unfold missedIn
  dsimp only
  cases hstages with
  | waiting inactive =>
    have hinactive : s.threshActivatedStakeTime = 0 := inactive
    rw [completedRound_inactive hinactive, Option.map_none, Option.getD_none, add_zero]
    unfold activateNetwork
    split_ifs
    · exact Wrapped.refl _
    · exact Wrapped.refl _
  | @counted s₁ s₂ _ voting active missed votes elect snapshot =>
    have hvotes : Wrapped (missedBlocksOf (countBlock b.header.producer s₁).voting.producers name)
        (missedBlocksOf voting.producers name) :=
        .of_eq ((Voting.recalculateVotes_counted votes).missed name)
    have hend : Wrapped (missedBlocksOf s₁.voting.producers name)
      (missedBlocksOf s'.voting.producers name) :=
      (countBlock_missed b.header.producer s₁ name).trans
        (hvotes.trans ((electAndClose_missed elect name).trans (takeSnapshot_missed snapshot name)))
    simp only [countMissedBlocks, bind_ok] at missed
    obtain ⟨⟨completed, s₀⟩, h₀, hround⟩ := missed
    have hstart : RoundInv ((s.record records).startFill now) := DutiesKept.roundInv (s := s) rfl hi
    have hcheck : Wrapped (missedBlocksOf s.voting.producers name)
      (missedBlocksOf s₀.voting.producers name) :=
      checkMissedBlocks_missed h₀ name
    rw [completedRound_eq hr active h₀]
    cases completed with
    | false =>
      cases hround
      exact hcheck.trans hend
    | true =>
      cases hround
      have hround := (checkMissedBlocks_roundInv hstart h₀).1
      have hupdate := updateMissedBlocksPerRotation_missed now hround.metrics.nodup name
      exact (hcheck.add (roundEntry s₀ name)).trans (hupdate.trans hend)

omit [FloatOps] in
/-- Registrations and kicks by vote keep the total. -/
lemma Action.Rewrites.missed {a : Action} {name : Name} {old : Option ProducerInfo}
    {new : ProducerInfo} (h : a.Rewrites name old new) (hb : ∀ b, a ≠ .onblock b) :
    Wrapped ((old.map ProducerInfo.missedBlocks).getD 0) new.missedBlocks := by
  cases a with
  | regproducer producer urlSize location =>
    obtain ⟨-, rfl⟩ := h
    cases old <;> exact Wrapped.refl _
  | unregprod =>
    obtain ⟨-, p, rfl, rfl⟩ := h
    exact Wrapped.refl _
  | unregreason =>
    obtain ⟨-, p, rfl, rfl⟩ := h
    exact Wrapped.refl _
  | rmvproducer =>
    obtain ⟨-, p, rfl, rfl⟩ := h
    exact Wrapped.refl _
  | votebpout =>
    obtain ⟨-, kicked, p, rfl, rfl⟩ := h
    exact restartMissedBlocks_same p
  | onblock b => exact absurd rfl (hb b)
  | _ => cases h

lemma step.missed_same {l : Label} (h : step now l s s') (hb : ∀ b, l.action ≠ .onblock b)
    (name : Name) :
    Wrapped (missedBlocksOf s.voting.producers name) (missedBlocksOf s'.voting.producers name) := by
  have hkept := h.votingSteps.keepsRows
    (P := fun n old => n = name →
      Wrapped (missedBlocksOf s.voting.producers name) ((old.map ProducerInfo.missedBlocks).getD 0))
    (fun n p q hpq hp hn => ?_) (fun n old new hnew hold hn => ?_) (fun n hn => ?_)
  · exact hkept name rfl
  · have hsame : q.missedBlocks = p.missedBlocks := (congrArg ProducerInfo.missedBlocks hpq :)
    rw [Option.map_some, Option.getD_some, hsame]
    exact hp hn
  · exact (hold hn).trans (hnew.missed hb)
  · rw [hn]
    exact Wrapped.refl _

theorem step.missed {l : Label} (h : step now l s s') (hi : RoundInv s) (name : Name) :
    Wrapped (missedBlocksOf s.voting.producers name + missedIn name now l s)
      (missedBlocksOf s'.voting.producers name) := by
  obtain ⟨auth, action⟩ := l
  have hother : (∀ b, action ≠ .onblock b) → Wrapped (missedBlocksOf s.voting.producers name)
      (missedBlocksOf s'.voting.producers name) := fun hb => h.missed_same hb name
  cases action with
  | onblock b => exact onblock_missed hi h name
  | _ => exact hother (by simp)

/-- Over every run the blocks that a producer has missed are those that the completed rounds charged
to it, and for each threshold kick those of its rotation once more: exactly while they fit 32 bits,
and else up to a multiple of `2 ^ 32`. -/
theorem missed_ledger {t₀ t : BlockTimestamp} {s₀ : State} {tr : List (BlockTimestamp × Label)}
    {name : Name} {m : ℤ} (h0 : FreshMetrics s₀)
    (h : TimedRun (ledgerStep step (missedEntry name)) t₀
      (s₀, (missedBlocksOf s₀.voting.producers name : ℤ)) tr t (s, m)) :
    (m < 2 ^ 32 → m = missedBlocksOf s.voting.producers name) ∧
      ∃ total : ℕ, m = total ∧ Wrapped total (missedBlocksOf s.voting.producers name) := by
  have hi := h.stateInvariant
    (fun _ (x : State × ℤ) => RoundInv x.1 ∧ ∃ total : ℕ, x.2 = total ∧
      Wrapped total (missedBlocksOf x.1.voting.producers name))
      ⟨h0.roundInv, _, rfl, Wrapped.refl _⟩
    fun {_ _ l x _} hi _ hs => by
      obtain ⟨hround, total, hm, hw⟩ := hi
      refine ⟨hs.1.roundInv hround, total + missedIn name _ l x.1, ?_,
        (hw.add _).trans (hs.1.missed hround name)⟩
      rw [hs.2, hm, missedEntry, Nat.cast_add]
  obtain ⟨-, total, hm, hw⟩ := hi
  dsimp only at hm
  refine ⟨fun hfits => ?_, total, hm, hw⟩
  rw [hm, hw.exact (by omega)]

omit [FloatOps]

/-- Seven producers late in a rotation, each with 2150 missed blocks, before an election. -/
def lateStart : State where
  __ := launchState
  voting :=
    { launchState.voting with
      producers := (List.range 7).foldl (fun t n => t.insert (producerNo n) (lateProducer 2150)) ∅ }
  production := { rotation := RotationState.initial.updateRotationTime launchTime }

/-- Two of them make one block a turn; the round that this completes kicks a third. -/
def kickTrace : List (BlockTimestamp × Label) :=
  let names := (List.range 7).map producerNo
  scheduled 200 (producerNo 0) [] :: scheduled 201 (producerNo 1) [] ::
    (List.range 6).map fun n => scheduled (202 + n) (producerNo (n % 2)) names

/-- An action with its entry in the ledger of the third producer. -/
def chargedExec (now : BlockTimestamp) (l : Label) (x : State × ℤ) : Except String (State × ℤ) :=
  (@exec launchFloats ⟨now, l.auth⟩ l.action x.1).map fun s' =>
    (s', x.2 + missedEntry (producerNo 2) now l x.1 s')

lemma chargedExec_ok {now : BlockTimestamp} {l : Label} {x y : State × ℤ}
    (h : chargedExec now l x = .ok y) :
    ledgerStep (@step launchFloats) (missedEntry (producerNo 2)) now l x y := by
  unfold chargedExec at h
  cases hx : @exec launchFloats ⟨now, l.auth⟩ l.action x.1 with
  | error e =>
    rw [hx] at h
    cases h
  | ok s' =>
    rw [hx] at h
    cases h
    exact ⟨hx, rfl⟩

def kickEnd : State × ℤ := stateAfter chargedExec kickTrace (lateStart, 2150)

/-- The blocks of the rotation count twice. -/
theorem third_charged : kickEnd.2 = 2150 + 12 + (2150 + 12) ∧
    kickEnd.2 = missedBlocksOf kickEnd.1.voting.producers (producerNo 2) := by
  have hchain : (launchTime :: kickTrace.map Prod.fst).IsChain (· ≤ ·) := by decide
  have hok : (runAll chargedExec kickTrace (lateStart, 2150)).isOk = true := by decide +kernel
  have hrun : TimedRun (ledgerStep (@step launchFloats) (missedEntry (producerNo 2))) launchTime
    (lateStart, 2150)
      kickTrace ((kickTrace.getLast?.map Prod.fst).getD launchTime) (kickEnd.1, kickEnd.2) :=
    (timedRun_of_runAll kickTrace hchain (runAll_stateAfter hok)).mono chargedExec_ok
  have htotal : kickEnd.2 = 2150 + 12 + (2150 + 12) := by decide +kernel
  let := launchFloats
  refine ⟨htotal, (missed_ledger ⟨rfl, rfl⟩ hrun).1 ?_⟩
  rw [htotal]
  decide

end
end TelosSystem
