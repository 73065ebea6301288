import TelosSystem.VoteTally

/-! Votes cast in the EVM. `getevmvote` reads the votes of some producers from the state of the
EVM voting contract and adds what has changed to the tallies. The tables of the EVM and the
hash of the storage keys are inputs. -/
namespace TelosSystem
open Ledger

def checksum256ToValue (input : Checksum256) : ℕ :=
  input.toList.foldl (fun value byte => 256 * value + byte.toNat) 0

def pad160 (address : Checksum160) : Checksum256 := ⟨List.replicate 12 0 ++ address.toList, by simp⟩

/-- The indices `byaddress` and `bykey` of the EVM tables: the primary key of an account, and
the value under an account and a storage key. -/
structure EvmTables where
  byAddress : Checksum256 → Option UInt64
  byKey : UInt64 → Checksum256 → Option Checksum256

structure EvmVoting where
  producers : Table Name ProducerInfo
  totalProducerVoteWeight : ℚ
  evmVotingContract : Checksum160
  evmVotes : Table Name Checksum256

def voteStorageSlot : UInt8 := 3

/-- The name right-aligned in 32 bytes, then the storage slot in 32 bytes. -/
def voteMemoryLocation (bp : Name) : List UInt8 :=
  List.replicate 24 (0 : UInt8) ++ (List.range 8).map
    (fun i => (bp.value >>> (8 * (7 - i)).toUInt64).toUInt8) ++
    List.replicate 31 0 ++ [voteStorageSlot]

def tenPower14 : ℕ := 0x5af3107a4000

/-- The low 64 bits of the normalized vote. -/
def normalizedVote (total : Checksum256) : UInt64 :=
  UInt64.ofNat (checksum256ToValue total / tenPower14)

/-- A tally after the vote of a producer has changed in the EVM. The first vote is added; later
the difference is taken in 64-bit arithmetic and the tally kept from falling below zero. -/
def applyEvmVote (previous : Option Checksum256) (current : Checksum256) (votes : ℚ) : ℚ :=
  match previous with
  | none => votes + (normalizedVote current).toNat
  | some previous =>
    let votes := votes + (normalizedVote current - normalizedVote previous).toNat
    if votes < 0 then 0 else votes

section
variable (keccak : List UInt8 → Checksum256) (evm : EvmTables)

/-- One round of the loop over the producers, with the flag that some vote has changed. -/
def updateEvmVote (account : UInt64) (acc : Bool × EvmVoting) (bp : Name) :
    Except String (Bool × EvmVoting) := do
  let total ← require (evm.byKey account (keccak (voteMemoryLocation bp)))
    "BP vote not found in EVM state"
  let previous := acc.2.evmVotes.lookup bp
  let isChanged := match previous with
    | none => true
    | some previous => acc.1 || previous != total
  let p ← require (acc.2.producers.lookup bp) "BP not found"
  pure (isChanged, { acc.2 with
    producers := acc.2.producers.insert bp
      { p with totalVotes := applyEvmVote previous total p.totalVotes }
    totalProducerVoteWeight := applyEvmVote previous total acc.2.totalProducerVoteWeight
    evmVotes := acc.2.evmVotes.insert bp total })

def getevmvote (bps : List Name) (s : EvmVoting) : Except String EvmVoting := do
  check (s.evmVotingContract ≠ noContract) "EVM voting contract not set"
  check (bps.length ≤ 30) "attempt to update EVM vote for too many BPs"
  check (namesSorted bps) "list of BPs that need to be updated must be unique and sorted"
  let account ← require (evm.byAddress (pad160 s.evmVotingContract)) "EVM voting contract not found"
  let (isChanged, s) ← bps.foldlM (updateEvmVote keccak evm account) (false, s)
  check isChanged "None of the BPs EVM votes has been changed"
  pure s

end

/-! The votes the tallies should contain. -/

def evmVoteOf (total : Checksum256) : ℤ := (checksum256ToValue total / 10 ^ 14 : ℕ)

namespace EvmVoting

def evmVote (s : EvmVoting) (bp : Name) : ℤ :=
  s.evmVotes.valueAt (fun _ total => evmVoteOf total) bp

def evmTotal (s : EvmVoting) : ℤ := s.evmVotes.total fun _ total => evmVoteOf total

def totalVotes (s : EvmVoting) (bp : Name) : ℚ :=
  ((s.producers.lookup bp).map ProducerInfo.totalVotes).getD 0

/-- The values the vote of a producer may have in the EVM state. -/
def Small (total : Checksum256) : Prop := checksum256ToValue total < 2 ^ 64 * 10 ^ 14

def evmCurrent (keccak : List UInt8 → Checksum256) (evm : EvmTables) (s : EvmVoting) (bp : Name) :
    Option Checksum256 :=
  (evm.byAddress (pad160 s.evmVotingContract)).bind fun account =>
    evm.byKey account (keccak (voteMemoryLocation bp))

/-- The change of a producer's vote in the EVM since the last call. -/
def evmChange (keccak : List UInt8 → Checksum256) (evm : EvmTables) (s : EvmVoting) (bp : Name) :
    ℤ :=
  ((s.evmCurrent keccak evm bp).map evmVoteOf).getD 0 - s.evmVote bp

/-- A call adds to each tally exactly what has changed in the EVM, and stores the new votes. -/
structure Exact (keccak : List UInt8 → Checksum256) (evm : EvmTables) (bps : List Name)
    (s s' : EvmVoting) : Prop where
  listed : ∀ bp ∈ bps, s'.totalVotes bp = s.totalVotes bp + s.evmChange keccak evm bp ∧
    s'.evmVotes.lookup bp = s.evmCurrent keccak evm bp
  others : ∀ bp, bp ∉ bps → s'.totalVotes bp = s.totalVotes bp ∧
    s'.evmVotes.lookup bp = s.evmVotes.lookup bp
  weight : s'.totalProducerVoteWeight =
    s.totalProducerVoteWeight + (bps.map fun bp => s.evmChange keccak evm bp).sum

/-- The total weight stays out of the clamp while the changes are added in the order of the list. -/
def WeightKept (keccak : List UInt8 → Checksum256) (evm : EvmTables) (s : EvmVoting) :
    ℚ → List Name → Prop
  | _, [] => True
  | weight, bp :: bps =>
    ((s.evmVotes.lookup bp).isSome → 0 ≤ weight + s.evmChange keccak evm bp) ∧
      WeightKept keccak evm s (weight + s.evmChange keccak evm bp) bps

/-- No listed vote has fallen since the last call, and no tally is negative where it is clamped. -/
def Rising (keccak : List UInt8 → Checksum256) (evm : EvmTables) (bps : List Name) (s : EvmVoting) :
    Prop :=
  (∀ bp ∈ bps, (s.evmVotes.lookup bp).isSome →
    0 ≤ s.evmChange keccak evm bp ∧ 0 ≤ s.totalVotes bp + s.evmChange keccak evm bp) ∧
  WeightKept keccak evm s s.totalProducerVoteWeight bps

end EvmVoting

lemma normalizedVote_toNat {total : Checksum256} (h : EvmVoting.Small total) :
    ((normalizedVote total).toNat : ℤ) = evmVoteOf total := by
  have hlt : checksum256ToValue total / 10 ^ 14 < 2 ^ 64 :=
    Nat.div_lt_of_lt_mul (by rw [mul_comm]; exact h)
  rw [normalizedVote, UInt64.toNat_ofNat', evmVoteOf, show tenPower14 = 10 ^ 14 by rfl]
  rw [Nat.mod_eq_of_lt hlt]

lemma applyEvmVote_none {current : Checksum256} (h : EvmVoting.Small current) (votes : ℚ) :
    applyEvmVote none current votes = votes + evmVoteOf current := by
  rw [applyEvmVote, ← normalizedVote_toNat h]
  push_cast
  ring

/-- The 64-bit difference of two votes, one less by 2^64 when the vote has fallen. -/
lemma vote_difference {previous current : Checksum256} (hp : EvmVoting.Small previous)
    (hc : EvmVoting.Small current) :
    ((normalizedVote current - normalizedVote previous).toNat : ℤ) =
      if evmVoteOf previous ≤ evmVoteOf current then evmVoteOf current - evmVoteOf previous
      else evmVoteOf current - evmVoteOf previous + 2 ^ 64 := by
  have h₁ := normalizedVote_toNat hp
  have h₂ := normalizedVote_toNat hc
  have hlt₁ := (normalizedVote previous).toNat_lt
  have hlt₂ := (normalizedVote current).toNat_lt
  rw [UInt64.toNat_sub]
  split_ifs with hle
  · omega
  · omega

/-- A later vote is added exactly when it has not fallen and the tally stays out of the clamp. -/
lemma applyEvmVote_some_iff {previous current : Checksum256} (hp : EvmVoting.Small previous)
    (hc : EvmVoting.Small current) (votes : ℚ) :
    applyEvmVote (some previous) current votes =
      votes + (evmVoteOf current - evmVoteOf previous : ℤ) ↔
      0 ≤ evmVoteOf current - evmVoteOf previous ∧
        0 ≤ votes + (evmVoteOf current - evmVoteOf previous : ℤ) := by
  have hd := vote_difference hp hc
  have hq : ((normalizedVote current - normalizedVote previous).toNat : ℚ) =
      ((normalizedVote current - normalizedVote previous).toNat : ℤ) := by norm_cast
  simp only [applyEvmVote]
  rw [hq, hd]
  generalize evmVoteOf current = c
  generalize evmVoteOf previous = p
  by_cases hle : p ≤ c
  · rw [if_pos hle]
    split_ifs with hneg
    · constructor
      · intro h
        exact (lt_irrefl _ (h ▸ hneg)).elim
      · rintro ⟨-, h⟩
        exact (not_le.mpr hneg h).elim
    · exact ⟨fun _ => ⟨by omega, not_lt.mp hneg⟩, fun _ => rfl⟩
  · rw [if_neg hle]
    refine ⟨fun h => ?_, fun h => by omega⟩
    push_cast at h
    split_ifs at h with hneg
    · linarith
    · linarith

/-- The clamp only raises a tally. -/
lemma le_applyEvmVote {previous current : Checksum256} (hp : EvmVoting.Small previous)
    (hc : EvmVoting.Small current) (votes : ℚ) (hle : 0 ≤ evmVoteOf current - evmVoteOf previous) :
    votes + (evmVoteOf current - evmVoteOf previous : ℤ) ≤
      applyEvmVote (some previous) current votes := by
  by_cases h : 0 ≤ votes + (evmVoteOf current - evmVoteOf previous : ℤ)
  · rw [(applyEvmVote_some_iff hp hc votes).mpr ⟨hle, h⟩]
  · rw [not_le] at h
    refine h.le.trans ?_
    simp only [applyEvmVote]
    split_ifs with hneg
    · exact le_rfl
    · exact not_lt.mp hneg

/-! One call, producer by producer. -/

section
variable {keccak : List UInt8 → Checksum256} {evm : EvmTables} {account : UInt64}

lemma updateEvmVote_ok {acc acc' : Bool × EvmVoting} {bp : Name}
    (h : updateEvmVote keccak evm account acc bp = .ok acc') :
    ∃ total p, evm.byKey account (keccak (voteMemoryLocation bp)) = some total ∧
      acc.2.producers.lookup bp = some p ∧
      acc'.2 = { acc.2 with
        producers := acc.2.producers.insert bp
          { p with totalVotes := applyEvmVote (acc.2.evmVotes.lookup bp) total p.totalVotes }
        totalProducerVoteWeight :=
          applyEvmVote (acc.2.evmVotes.lookup bp) total acc.2.totalProducerVoteWeight
        evmVotes := acc.2.evmVotes.insert bp total } := by
  simp only [updateEvmVote, bind_ok, require_ok, pure_ok] at h
  obtain ⟨total, htotal, p, hp, rfl⟩ := h
  exact ⟨total, p, htotal, hp, rfl⟩

/-- The total weight after the votes of a list have been applied to it. -/
def weightAfter (keccak : List UInt8 → Checksum256) (evm : EvmTables) (account : UInt64)
    (stored : Name → Option Checksum256) (weight : ℚ) (bps : List Name) : ℚ :=
  bps.foldl (fun weight bp =>
    match evm.byKey account (keccak (voteMemoryLocation bp)) with
    | some total => applyEvmVote (stored bp) total weight
    | none => weight) weight

lemma weightAfter_congr {stored stored' : Name → Option Checksum256} (weight : ℚ) {bps : List Name}
    (h : ∀ bp ∈ bps, stored bp = stored' bp) :
    weightAfter keccak evm account stored weight bps =
      weightAfter keccak evm account stored' weight bps := by
  apply List.foldl_ext
  intro w bp hbp
  rw [h bp hbp]

/-- What the loop leaves: each listed tally has been changed once, from the vote stored before
the call, the others not at all. -/
structure LoopResult (keccak : List UInt8 → Checksum256) (evm : EvmTables) (account : UInt64)
    (bps : List Name) (s s' : EvmVoting) : Prop where
  contract : s'.evmVotingContract = s.evmVotingContract
  listed : ∀ bp ∈ bps, ∃ total, evm.byKey account (keccak (voteMemoryLocation bp)) = some total ∧
    s'.evmVotes.lookup bp = some total ∧
    s'.totalVotes bp = applyEvmVote (s.evmVotes.lookup bp) total (s.totalVotes bp)
  others : ∀ bp, bp ∉ bps → s'.totalVotes bp = s.totalVotes bp ∧
    s'.evmVotes.lookup bp = s.evmVotes.lookup bp
  weight : s'.totalProducerVoteWeight =
    weightAfter keccak evm account s.evmVotes.lookup s.totalProducerVoteWeight bps
  stored : s'.evmTotal = s.evmTotal + (bps.map fun bp =>
    ((evm.byKey account (keccak (voteMemoryLocation bp))).map evmVoteOf).getD 0 - s.evmVote bp).sum

lemma evmVote_congr {s s' : EvmVoting} {bp : Name}
    (h : s'.evmVotes.lookup bp = s.evmVotes.lookup bp) : s'.evmVote bp = s.evmVote bp := by
  simp only [EvmVoting.evmVote, Table.valueAt, h]

lemma loop_result {bps : List Name} (hn : bps.Nodup) {acc acc' : Bool × EvmVoting}
    (h : bps.foldlM (updateEvmVote keccak evm account) acc = .ok acc') :
    LoopResult keccak evm account bps acc.2 acc'.2 := by
  induction bps generalizing acc with
  | nil =>
    cases h
    exact ⟨rfl, by simp, fun _ _ => ⟨rfl, rfl⟩, rfl, by simp⟩
  | cons bp bps ih =>
    rw [List.foldlM_cons, bind_ok] at h
    obtain ⟨acc₁, h₁, h₂⟩ := h
    obtain ⟨hbp, hn'⟩ := List.nodup_cons.mp hn
    have ih := ih hn' h₂
    obtain ⟨total, p, htotal, hp, hacc₁⟩ := updateEvmVote_ok h₁
    have hself : acc₁.2.totalVotes bp =
        applyEvmVote (acc.2.evmVotes.lookup bp) total (acc.2.totalVotes bp) := by
      rw [EvmVoting.totalVotes, hacc₁, AList.lookup_insert, EvmVoting.totalVotes, hp]
      rfl
    have hne : ∀ q, q ≠ bp → acc₁.2.totalVotes q = acc.2.totalVotes q ∧
        acc₁.2.evmVotes.lookup q = acc.2.evmVotes.lookup q := by
      intro q hq
      rw [EvmVoting.totalVotes, hacc₁, AList.lookup_insert_ne hq]
      exact ⟨rfl, AList.lookup_insert_ne hq⟩
    have htail : ∀ q ∈ bps, q ≠ bp := fun q hq he => hbp (he ▸ hq)
    refine ⟨ih.contract.trans (by rw [hacc₁]), ?_, ?_, ?_, ?_⟩
    · intro q hq
      rcases List.mem_cons.mp hq with rfl | hq
      · obtain ⟨hv, hl⟩ := ih.others q hbp
        refine ⟨total, htotal, ?_, hv.trans hself⟩
        rw [hl, hacc₁, AList.lookup_insert]
      · obtain ⟨total', ht', hl, hv⟩ := ih.listed q hq
        obtain ⟨hv₁, hl₁⟩ := hne q (htail q hq)
        exact ⟨total', ht', hl, by rw [hv, hv₁, hl₁]⟩
    · intro q hq
      rw [List.mem_cons, not_or] at hq
      obtain ⟨hv, hl⟩ := ih.others q hq.2
      obtain ⟨hv₁, hl₁⟩ := hne q hq.1
      exact ⟨hv.trans hv₁, hl.trans hl₁⟩
    · rw [ih.weight, weightAfter_congr _ fun q hq => (hne q (htail q hq)).2, hacc₁]
      simp only [weightAfter, List.foldl_cons, htotal]
    · have hinsert : acc₁.2.evmTotal = acc.2.evmTotal - acc.2.evmVote bp + evmVoteOf total := by
        rw [EvmVoting.evmTotal, hacc₁, Table.total_insert]
        rfl
      have hmap : (bps.map fun q =>
        ((evm.byKey account (keccak (voteMemoryLocation q))).map evmVoteOf).getD 0 -
          acc₁.2.evmVote q) = bps.map fun q =>
            ((evm.byKey account (keccak (voteMemoryLocation q))).map evmVoteOf).getD 0 -
              acc.2.evmVote q := by
        apply List.map_congr_left
        intro q hq
        rw [evmVote_congr (hne q (htail q hq)).2]
      rw [ih.stored, hmap, hinsert, List.map_cons, List.sum_cons, htotal]
      simp only [Option.map_some, Option.getD_some]
      ring

end

namespace EvmVoting

section
variable {keccak : List UInt8 → Checksum256} {evm : EvmTables} {bps : List Name} {s s' : EvmVoting}

lemma getevmvote_ok (h : getevmvote keccak evm bps s = .ok s') :
    ∃ account, evm.byAddress (pad160 s.evmVotingContract) = some account ∧
      LoopResult keccak evm account bps s s' := by
  simp only [getevmvote, bind_ok, check_ok, require_ok, exists_const] at h
  obtain ⟨-, -, hsorted, account, haccount, acc, hfold, h⟩ := h
  obtain ⟨-, h⟩ := h
  cases h
  exact ⟨account, haccount, loop_result (namesSorted_nodup hsorted) hfold⟩

def Bounded (s : EvmVoting) : Prop := ∀ bp total, s.evmVotes.lookup bp = some total → Small total

lemma evmVote_some {bp : Name} {previous : Checksum256} (h : s.evmVotes.lookup bp = some previous) :
    s.evmVote bp = evmVoteOf previous := Table.valueAt_some h

lemma evmVote_none {bp : Name} (h : s.evmVotes.lookup bp = none) : s.evmVote bp = 0 :=
  Table.valueAt_none h

/-- A tally receives the change of a producer's vote exactly when, after the first time, the
vote has not fallen and the clamp does not act. -/
lemma applyEvmVote_iff (hs : s.Bounded) {bp : Name} {total : Checksum256} (hc : Small total)
    (votes : ℚ) :
    applyEvmVote (s.evmVotes.lookup bp) total votes = votes + (evmVoteOf total - s.evmVote bp : ℤ) ↔
      ((s.evmVotes.lookup bp).isSome →
        0 ≤ evmVoteOf total - s.evmVote bp ∧ 0 ≤ votes + (evmVoteOf total - s.evmVote bp : ℤ)) := by
  cases hl : s.evmVotes.lookup bp with
  | none => simp [applyEvmVote_none hc, evmVote_none hl]
  | some previous =>
    rw [evmVote_some hl, applyEvmVote_some_iff (hs bp previous hl) hc]
    simp

lemma le_applyEvmVote (hs : s.Bounded) {bp : Name} {total : Checksum256} (hc : Small total)
    (votes : ℚ) (hle : (s.evmVotes.lookup bp).isSome → 0 ≤ evmVoteOf total - s.evmVote bp) :
    votes + (evmVoteOf total - s.evmVote bp : ℤ) ≤
      applyEvmVote (s.evmVotes.lookup bp) total votes := by
  cases hl : s.evmVotes.lookup bp with
  | none => simp [applyEvmVote_none hc, evmVote_none hl]
  | some previous =>
    rw [hl] at hle
    rw [evmVote_some hl] at hle ⊢
    exact TelosSystem.le_applyEvmVote (hs bp previous hl) hc votes (hle rfl)

end

section
variable {keccak : List UInt8 → Checksum256} {evm : EvmTables} {account : UInt64} {s : EvmVoting}

/-- What a listed producer's vote in the EVM is, from the account that was found. -/
lemma evmChange_eq (ha : evm.byAddress (pad160 s.evmVotingContract) = some account) {bp : Name}
    {total : Checksum256} (ht : evm.byKey account (keccak (voteMemoryLocation bp)) = some total) :
    s.evmChange keccak evm bp = evmVoteOf total - s.evmVote bp := by
  simp only [evmChange, evmCurrent, ha, Option.bind_some, ht, Option.map_some, Option.getD_some]

/-- The total weight when no listed vote has fallen: it gets at least the sum of the changes, and
exactly the sum when it is never clamped. -/
lemma weightAfter_spec (hs : s.Bounded) (hb : ∀ a k total, evm.byKey a k = some total → Small total)
    (ha : evm.byAddress (pad160 s.evmVotingContract) = some account) {bps : List Name}
    (hl : ∀ bp ∈ bps, ∃ total, evm.byKey account (keccak (voteMemoryLocation bp)) = some total)
    (hr : ∀ bp ∈ bps, (s.evmVotes.lookup bp).isSome → 0 ≤ s.evmChange keccak evm bp) (weight : ℚ) :
    weight + ((bps.map fun bp => s.evmChange keccak evm bp).sum : ℤ) ≤
        weightAfter keccak evm account s.evmVotes.lookup weight bps ∧
      (weightAfter keccak evm account s.evmVotes.lookup weight bps =
        weight + ((bps.map fun bp => s.evmChange keccak evm bp).sum : ℤ) ↔
          WeightKept keccak evm s weight bps) := by
  induction bps generalizing weight with
  | nil => simp [weightAfter, WeightKept]
  | cons bp bps ih =>
    obtain ⟨total, ht⟩ := hl bp (by simp)
    have hd := evmChange_eq ha ht
    have hc := hb _ _ _ ht
    have hrise := hr bp (by simp)
    rw [hd] at hrise
    have hstep : weightAfter keccak evm account s.evmVotes.lookup weight (bp :: bps) =
        weightAfter keccak evm account s.evmVotes.lookup
          (applyEvmVote (s.evmVotes.lookup bp) total weight) bps := by
      simp only [weightAfter, List.foldl_cons, ht]
    have ih := ih (fun q hq => hl q (by simp [hq])) (fun q hq => hr q (by simp [hq]))
    have hle := EvmVoting.le_applyEvmVote hs hc weight hrise
    have hiff : applyEvmVote (s.evmVotes.lookup bp) total weight = _ ↔ _ :=
      applyEvmVote_iff hs hc weight
    rw [hstep, WeightKept, List.map_cons, List.sum_cons, hd]
    obtain ⟨hge, -⟩ := ih (applyEvmVote (s.evmVotes.lookup bp) total weight)
    push_cast at hge hle hiff ⊢
    refine ⟨by linarith, ⟨fun he => ?_, fun ⟨h₁, h₂⟩ => ?_⟩⟩
    · -- equality in the end leaves no room for a clamp in the first round
      have heq : applyEvmVote (s.evmVotes.lookup bp) total weight =
          weight + ((evmVoteOf total : ℚ) - s.evmVote bp) := by linarith
      refine ⟨fun hsome => (hiff.mp heq hsome).2, ?_⟩
      have h₂ := (ih (applyEvmVote (s.evmVotes.lookup bp) total weight)).2.mp
        (by push_cast; linarith)
      rwa [heq] at h₂
    · have heq := hiff.mpr fun hsome => ⟨hrise hsome, h₁ hsome⟩
      have h₃ := (ih (weight + ((evmVoteOf total : ℚ) - s.evmVote bp))).2.mpr h₂
      push_cast at h₃
      rw [heq, h₃]
      ring

end

def SmallVotes (evm : EvmTables) : Prop :=
  ∀ account key total, evm.byKey account key = some total → Small total

/-- A successful call, whatever the EVM state has become. -/
def Step (keccak : List UInt8 → Checksum256) (s s' : EvmVoting) : Prop :=
  ∃ evm bps, SmallVotes evm ∧ getevmvote keccak evm bps s = .ok s'

def RisingStep (keccak : List UInt8 → Checksum256) (s s' : EvmVoting) : Prop :=
  ∃ evm bps, SmallVotes evm ∧ Rising keccak evm bps s ∧ getevmvote keccak evm bps s = .ok s'

section
variable {keccak : List UInt8 → Checksum256} {evm : EvmTables} {bps : List Name}
    {s₀ s s' : EvmVoting}

lemma Bounded.getevmvote (hs : s.Bounded) (hb : SmallVotes evm)
    (h : getevmvote keccak evm bps s = .ok s') : s'.Bounded := by
  obtain ⟨account, -, hr⟩ := getevmvote_ok h
  intro bp total hl
  by_cases hbp : bp ∈ bps
  · obtain ⟨total', ht, hl', -⟩ := hr.listed bp hbp
    rw [hl'] at hl
    cases hl
    exact hb _ _ _ ht
  · rw [(hr.others bp hbp).2] at hl
    exact hs bp total hl

/-- A call is exact if and only if no listed vote has fallen and no clamp acts. -/
lemma exact_iff (hs : s.Bounded) (hb : SmallVotes evm) (h : getevmvote keccak evm bps s = .ok s') :
    Exact keccak evm bps s s' ↔ Rising keccak evm bps s := by
  obtain ⟨account, ha, hr⟩ := getevmvote_ok h
  have hlisted : ∀ bp ∈ bps, ∃ total,
    evm.byKey account (keccak (voteMemoryLocation bp)) = some total :=
    fun bp hbp => (hr.listed bp hbp).imp fun _ hx => hx.1
  have htotal : ∀ bp ∈ bps, s'.totalVotes bp = s.totalVotes bp + s.evmChange keccak evm bp ↔
      ((s.evmVotes.lookup bp).isSome →
        0 ≤ s.evmChange keccak evm bp ∧ 0 ≤ s.totalVotes bp + s.evmChange keccak evm bp) := by
    intro bp hbp
    obtain ⟨total, ht, -, hv⟩ := hr.listed bp hbp
    rw [hv, evmChange_eq ha ht]
    exact applyEvmVote_iff hs (hb _ _ _ ht) _
  constructor
  · intro he
    have hrise := fun bp hbp => (htotal bp hbp).mp (he.listed bp hbp).1
    refine ⟨hrise, ?_⟩
    refine (weightAfter_spec hs hb ha hlisted (fun bp hbp hsome => (hrise bp hbp hsome).1) _).2.mp
      ?_
    rw [← hr.weight]
    exact he.weight
  · rintro ⟨hrise, hweight⟩
    refine ⟨fun bp hbp => ⟨(htotal bp hbp).mpr (hrise bp hbp), ?_⟩, hr.others, ?_⟩
    · obtain ⟨total, ht, hl, -⟩ := hr.listed bp hbp
      rw [hl, evmCurrent, ha, Option.bind_some, ht]
    · rw [hr.weight]
      exact (weightAfter_spec hs hb ha hlisted (fun bp hbp hsome => (hrise bp hbp hsome).1) _).2.mpr
        hweight

/-- What a tally holds beyond the stored EVM votes is not touched by an exact call. -/
lemma Exact.base (h : getevmvote keccak evm bps s = .ok s') (he : Exact keccak evm bps s s') :
    (∀ bp, s'.totalVotes bp - s'.evmVote bp = s.totalVotes bp - s.evmVote bp) ∧
      s'.totalProducerVoteWeight - s'.evmTotal = s.totalProducerVoteWeight - s.evmTotal := by
  obtain ⟨account, ha, hr⟩ := getevmvote_ok h
  constructor
  · intro bp
    by_cases hbp : bp ∈ bps
    · obtain ⟨total, ht, hl, -⟩ := hr.listed bp hbp
      rw [(he.listed bp hbp).1, evmChange_eq ha ht, evmVote_some hl]
      push_cast
      ring
    · rw [(hr.others bp hbp).1, evmVote_congr (hr.others bp hbp).2]
  · have hsum : (bps.map fun bp =>
      ((evm.byKey account (keccak (voteMemoryLocation bp))).map evmVoteOf).getD 0 -
        s.evmVote bp) = bps.map fun bp => s.evmChange keccak evm bp := by
      simp only [evmChange, evmCurrent, ha, Option.bind_some]
    rw [he.weight, hr.stored, hsum]
    push_cast
    ring

lemma risingStep_le : RisingStep keccak ≤ Step keccak := by
  rintro s s' ⟨evm, bps, hb, -, hok⟩
  exact ⟨evm, bps, hb, hok⟩

/-- In every run of `getevmvote` over changing EVM states, a call adds the change of the votes
to the tallies if and only if no listed vote has fallen (and no clamp acts); a run of such
calls leaves in each tally exactly the stored votes, on top of what it held before. -/
theorem evm_vote_ledger (hs : s₀.Bounded) (h : Relation.ReflTransGen (Step keccak) s₀ s) :
    (∀ evm bps s', SmallVotes evm → TelosSystem.getevmvote keccak evm bps s = .ok s' →
      (Exact keccak evm bps s s' ↔ Rising keccak evm bps s)) ∧
    (Relation.ReflTransGen (RisingStep keccak) s₀ s →
      (∀ bp, s.totalVotes bp - s.evmVote bp = s₀.totalVotes bp - s₀.evmVote bp) ∧
        s.totalProducerVoteWeight - s.evmTotal = s₀.totalProducerVoteWeight - s₀.evmTotal) := by
  have hbounded {s} (h : Relation.ReflTransGen (Step keccak) s₀ s) : s.Bounded := by
    induction h with
    | refl => exact hs
    | tail prior next ih =>
      obtain ⟨evm, bps, hb, hok⟩ := next
      exact ih.getevmvote hb hok
  refine ⟨fun evm bps s' hb hok => exact_iff (hbounded h) hb hok, fun hrun => ?_⟩
  clear h
  induction hrun with
  | refl => exact ⟨fun _ => rfl, rfl⟩
  | tail prior next ih =>
    obtain ⟨evm, bps, hb, hrise, hok⟩ := next
    have hb₁ := hbounded (Relation.ReflTransGen.mono risingStep_le _ _ prior)
    obtain ⟨hv, hw⟩ := ((exact_iff hb₁ hb hok).mpr hrise).base hok
    exact ⟨fun bp => (hv bp).trans (ih.1 bp), hw.trans ih.2⟩

end

/-! A producer with two votes in the EVM that loses one of them. -/

def evmWith (votes : ℕ) : EvmTables :=
  ⟨fun _ => some 0, fun _ _ =>
    some (List.Vector.ofFn fun i : Fin 32 => (votes * 10 ^ 14 / 256 ^ (31 - i.val)).toUInt8)⟩

def zeroHash : List UInt8 → Checksum256 := fun _ => List.Vector.replicate 32 0

def beforeVotes : EvmVoting :=
  ⟨AList.insert systemAccount {} ∅, 0, List.Vector.replicate 20 1, ∅⟩

def afterFirstVote : EvmVoting :=
  (TelosSystem.getevmvote zeroHash (evmWith 2) [systemAccount] beforeVotes).toOption.getD
    beforeVotes

def afterFallenVote : EvmVoting :=
  (TelosSystem.getevmvote zeroHash (evmWith 1) [systemAccount] afterFirstVote).toOption.getD
    afterFirstVote

lemma evmWith_small {votes : ℕ} (h : Small (List.Vector.ofFn fun i : Fin 32 =>
    (votes * 10 ^ 14 / 256 ^ (31 - i.val)).toUInt8)) : SmallVotes (evmWith votes) := by
  intro account key total ht
  cases ht
  exact h

lemma getD_of_isOk {x : Except String EvmVoting} {d : EvmVoting} (h : x.isOk = true) :
    x = .ok (x.toOption.getD d) := by
  cases x with
  | ok a => rfl
  | error e => cases h

lemma firstVote_ok :
    TelosSystem.getevmvote zeroHash (evmWith 2) [systemAccount] beforeVotes = .ok afterFirstVote :=
  getD_of_isOk (by decide +kernel)

lemma fallenVote_ok :
    TelosSystem.getevmvote zeroHash (evmWith 1) [systemAccount] afterFirstVote =
      .ok afterFallenVote :=
  getD_of_isOk (by decide +kernel)

lemma beforeVotes_bounded : beforeVotes.Bounded := by
  intro bp total h
  cases h

/-- The second call leaves 2^64 + 1 votes instead of one. -/
theorem fallen_vote_adds :
    TelosSystem.getevmvote zeroHash (evmWith 2) [systemAccount] beforeVotes = .ok afterFirstVote ∧
    TelosSystem.getevmvote zeroHash (evmWith 1) [systemAccount] afterFirstVote =
      .ok afterFallenVote ∧
    afterFallenVote.totalVotes systemAccount = 2 ^ 64 + 1 ∧
    ¬ Exact zeroHash (evmWith 1) [systemAccount] afterFirstVote afterFallenVote := by
  refine ⟨firstVote_ok, fallenVote_ok, by decide +kernel, fun h => ?_⟩
  have hv := (h.listed systemAccount (by simp)).1
  have hne : ¬ afterFallenVote.totalVotes systemAccount =
      afterFirstVote.totalVotes systemAccount + afterFirstVote.evmChange zeroHash
      (evmWith 1) systemAccount := by
    decide +kernel
  exact hne hv

/-- The first two votes, and then a third one. -/
theorem first_vote_ledger :
    let s := (TelosSystem.getevmvote zeroHash (evmWith 3) [systemAccount]
      afterFirstVote).toOption.getD afterFirstVote
    s.evmVote systemAccount = 3 ∧
    s.totalVotes systemAccount - s.evmVote systemAccount =
      beforeVotes.totalVotes systemAccount - beforeVotes.evmVote systemAccount := by
  have hok : TelosSystem.getevmvote zeroHash (evmWith 3) [systemAccount] afterFirstVote = .ok
      ((TelosSystem.getevmvote zeroHash (evmWith 3) [systemAccount] afterFirstVote).toOption.getD
      afterFirstVote) :=
    getD_of_isOk (by decide +kernel)
  have hsmall₁ : SmallVotes (evmWith 2) := evmWith_small (by unfold Small; decide +kernel)
  have hsmall₂ : SmallVotes (evmWith 3) := evmWith_small (by unfold Small; decide +kernel)
  have hrise₁ : Rising zeroHash (evmWith 2) [systemAccount] beforeVotes :=
    ⟨fun bp _ hsome => (by cases hsome), fun hsome => (by cases hsome), trivial⟩
  have hrise₂ : Rising zeroHash (evmWith 3) [systemAccount] afterFirstVote := by
    refine ⟨fun bp hbp _ => ?_, fun _ => (by decide +kernel), trivial⟩
    rw [List.mem_singleton.mp hbp]
    exact ⟨by decide +kernel, by decide +kernel⟩
  refine ⟨by decide +kernel, ?_⟩
  exact ((evm_vote_ledger beforeVotes_bounded
    (.tail (.single ⟨_, _, hsmall₁, firstVote_ok⟩) ⟨_, _, hsmall₂, hok⟩)).2
    (.tail (.single ⟨_, _, hsmall₁, hrise₁, firstVote_ok⟩) ⟨_, _, hsmall₂, hrise₂, hok⟩)).1
      systemAccount

end EvmVoting
end TelosSystem
