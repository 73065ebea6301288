import TelosSystem.MissedCharges

/-! The `blockinfo` table along the runs of the system. Only `onblock` writes it, once for each block
that it does not abort. -/
namespace TelosSystem
open Ledger

def Action.header : Action → Option BlockHeader
  | .onblock b => some b.header
  | _ => none

def recordedBlocks (tr : List (BlockTimestamp × Label)) : List BlockHeader :=
  tr.filterMap fun x => x.2.action.header

section
variable {now : BlockTimestamp} {s s' : State}

lemma electProducers_blockinfo {blockTime : BlockTimestamp}
    {accepted : List ProducerLocationPair → Bool}
    (h : electProducers now blockTime accepted s = .ok s') :
    s'.production.blockinfo = s.production.blockinfo := by
  unfold electProducers at h
  generalize updateElectedProducers blockTime accepted s.schedule = r at h
  obtain ⟨proposed, sc⟩ := r
  cases proposed with
  | none =>
    cases h
    rfl
  | some top =>
    simp only [bind_ok, check_ok, exists_const, pure_ok] at h
    obtain ⟨-, rfl⟩ := h
    rfl

lemma checkMissedBlocks_blockinfo {timestamp : BlockTimestamp} {producer : Name}
    {active : List Name} {accepted : List ProducerLocationPair → Bool} {completed : Bool}
    (h : checkMissedBlocks now timestamp producer active accepted s = .ok (completed, s')) :
    s'.production.blockinfo = s.production.blockinfo := by
  unfold checkMissedBlocks at h
  dsimp only at h
  split_ifs at h
  · cases h
    rfl
  · cases h
    rfl
  · simp only [bind_ok, pure_ok] at h
    obtain ⟨s₁, h₁, h⟩ := h
    cases h
    have helect := electProducers_blockinfo h₁
    exact helect
  · cases h
    rfl
  · cases h
    rfl
  · cases h
    rfl

lemma countMissedBlocks_blockinfo {timestamp : BlockTimestamp} {producer : Name}
    {active : List Name} {accepted : List ProducerLocationPair → Bool}
    (h : countMissedBlocks now timestamp producer active accepted s = .ok s') :
    s'.production.blockinfo = s.production.blockinfo := by
  simp only [countMissedBlocks, bind_ok] at h
  obtain ⟨⟨completed, s₁⟩, h₁, h⟩ := h
  have hcheck := checkMissedBlocks_blockinfo h₁
  cases completed with
  | false =>
    cases h
    exact hcheck
  | true =>
    cases h
    exact hcheck

lemma countBlock_blockinfo (producer : Name) (s : State) :
    (countBlock producer s).production.blockinfo = s.production.blockinfo := by
  unfold countBlock
  split
  · rfl
  · rfl

lemma payProducers_blockinfo (pay : ℕ → ℤ) (index : ℕ) (l : List (Name × ProducerInfo))
    (s : State) : (payProducers pay index l s).production.blockinfo = s.production.blockinfo := by
  induction l generalizing index s with
  | nil => rfl
  | cons e l ih =>
    unfold payProducers
    split_ifs
    · exact ih index s
    · rfl
    · exact ih (index + 1) _

lemma takeSnapshot_blockinfo {b : Block} (h : takeSnapshot now b s = .ok s') :
    s'.production.blockinfo = s.production.blockinfo := by
  unfold takeSnapshot at h
  split_ifs at h
  · simp only [claimrewardsSnapshot, bind_ok, check_ok, exists_const, pure_ok] at h
    obtain ⟨s₁, ⟨-, h⟩, rfl⟩ := h
    split_ifs at h
    · cases h
      rfl
    · simp only [bind_ok, pure_ok] at h
      obtain ⟨s₂, h₂, rfl⟩ := h
      obtain ⟨bucket, fill, hp⟩ := fillBucket_production h₂
      have hpaid := payProducers_blockinfo b.payroll.payAmount 0
        (producersByVotes s₂.voting.producers) s₂
      rw [hp] at hpaid
      exact hpaid
    · simp only [bind_ok, pure_ok] at h
      obtain ⟨s₂, rfl, rfl⟩ := h
      exact payProducers_blockinfo _ _ _ s
  · cases h
    rfl

lemma electAndClose_blockinfo {b : Block} (h : electAndClose now b s = .ok s') :
    s'.production.blockinfo = s.production.blockinfo := by
  unfold electAndClose at h
  split_ifs at h
  · simp only [bind_ok, pure_ok] at h
    obtain ⟨s₁, h₁, rfl⟩ := h
    obtain ⟨auctions, pools, hc⟩ := closeAuction_eq b.header.timestamp now s₁
    have helect := electProducers_blockinfo h₁
    rw [hc]
    exact helect
  · cases h
    rfl

variable [FloatOps]

lemma onblock_blockinfo {ctx : Context} {b : Block} (h : onblock ctx b s = .ok s') :
    addToBlockinfoTable wrappingSub b.header s.production.blockinfo =
      .ok s'.production.blockinfo := by
  obtain ⟨records, hr, hstages⟩ := onblock_stages h
  have hrecords : s'.production.blockinfo = records := by
    cases hstages with
    | waiting inactive =>
      unfold activateNetwork
      split_ifs
      · rfl
      · rfl
    | @counted s₁ s₂ _ voting active missed votes elect snapshot =>
      have hmissed := countMissedBlocks_blockinfo missed
      have hcount := countBlock_blockinfo b.header.producer s₁
      have helect := electAndClose_blockinfo elect
      have hsnapshot := takeSnapshot_blockinfo snapshot
      have hstart : ((s.record records).startFill ctx.now).production.blockinfo = records := rfl
      exact hsnapshot.trans (helect.trans (hcount.trans (hmissed.trans hstart)))
  rw [hr, hrecords]

lemma step.blockinfo_kept {l : Label} (h : step now l s s') (hn : l.action.header = none) :
    s'.production.blockinfo = s.production.blockinfo := by
  obtain ⟨auth, action⟩ := l
  cases action with
  | claimrewards owner =>
    simp only [step, exec, claimrewards, bind_ok, pure_ok] at h
    obtain ⟨-, -, p, -, -, -, -, -, pay, -, s₁, h₁, rfl⟩ := h
    obtain ⟨t, rfl, -⟩ := inlineTransfer_ok h₁
    rfl
  | onblock b => cases hn
  | _ => exact congrArg Production.blockinfo (step.production h id)

/-- The table after a run is what the recorded blocks make of an empty one. -/
theorem blockinfo_of_run {t₀ t : BlockTimestamp} {s₀ : State} {tr : List (BlockTimestamp × Label)}
    (h0 : s₀.production.blockinfo = []) (h : TimedRun step t₀ s₀ tr t s) :
    blockinfoAfter wrappingSub (recordedBlocks tr) = .ok s.production.blockinfo := by
  induction h with
  | nil =>
    rw [h0]
    rfl
  | @snoc tr t t' l s s' prior later next ih =>
    have hsplit : recordedBlocks (tr ++ [(t', l)]) = recordedBlocks tr ++
      l.action.header.toList := by
      simp only [recordedBlocks, List.filterMap_append, List.filterMap_cons, List.filterMap_nil]
      cases l.action.header <;> rfl
    rw [hsplit, blockinfoAfter, List.foldlM_append, bind_ok]
    refine ⟨s.production.blockinfo, ih, ?_⟩
    cases hl : l.action.header with
    | none => exact congrArg Except.ok (next.blockinfo_kept hl).symm
    | some b =>
      obtain ⟨auth, action⟩ := l
      cases action with
      | onblock b' =>
        cases hl
        rw [Option.toList_some, List.foldlM_cons, bind_ok]
        exact ⟨_, onblock_blockinfo next, rfl⟩
      | _ => cases hl

/-- In every run over increasing heights the table is the window of the recorded blocks. -/
theorem blockinfoTable_of_run {t₀ t : BlockTimestamp} {s₀ : State}
    {tr : List (BlockTimestamp × Label)} (h0 : s₀.production.blockinfo = [])
    (hheights : Heights (recordedBlocks tr)) (h : TimedRun step t₀ s₀ tr t s) :
    BlockinfoTable (recordedBlocks tr) s.production.blockinfo := by
  obtain ⟨records, hrecords, hwindow⟩ := blockinfoAfter_spec hheights
  have hrun := hrecords wrappingSub subtracts_wrappingSub
  rw [blockinfo_of_run h0 h] at hrun
  cases hrun
  exact ⟨hwindow, hheights⟩

end
end TelosSystem
