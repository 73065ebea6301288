import TelosSystem.Chain
import TelosSystem.RollingWindow

/-! The `blockinfo` table: `onblock` records the height and the time of each block and keeps the
records of the last ten heights; other contracts ask for the latest batch of blocks. The 32-bit
subtractions of both functions are a parameter: the code's own wraps around, the exact one aborts
where it would. -/
namespace TelosSystem
open Ledger

def wrappingSub (a b : ℕ) : Except String ℕ := .ok (subSec a b)

def exactSub (a b : ℕ) : Except String ℕ :=
  if b ≤ a then .ok (a - b) else .error "uint32 underflow"

def rollingWindowSize : ℕ := 10

structure BlockInfoRecord where
  version : ℕ := 0
  blockHeight : ℕ
  blockTimestamp : ℕ
  deriving DecidableEq, Repr

/-- The height is the first four bytes, the most significant one first. -/
def blockHeightFromId (blockId : Checksum256) : ℕ :=
  (blockId.get 0).toNat <<< 0x18 ||| (blockId.get 1).toNat <<< 0x10 |||
    (blockId.get 2).toNat <<< 0x08 ||| (blockId.get 3).toNat

/-- What `onblock` reads of the header of a block. -/
structure BlockHeader where
  timestamp : BlockTimestamp
  producer : Name
  previous : Checksum256

def BlockHeader.height (b : BlockHeader) : ℕ := addSec (blockHeightFromId b.previous) 1

def BlockHeader.record (b : BlockHeader) : BlockInfoRecord :=
  ⟨0, b.height, b.timestamp.usec⟩

@[simp] lemma BlockHeader.record_version (b : BlockHeader) : b.record.version = 0 := rfl
@[simp] lemma BlockHeader.record_blockHeight (b : BlockHeader) : b.record.blockHeight = b.height :=
  rfl

def addToBlockinfoTable (sub : ℕ → ℕ → Except String ℕ) (b : BlockHeader)
    (t : List BlockInfoRecord) : Except String (List BlockInfoRecord) := do
  let newBlockHeight := addSec (blockHeightFromId b.previous) 1
  let newBlockTimestamp := b.timestamp.usec
  let t ← if 0 < rollingWindowSize then
      emplaceRow BlockInfoRecord.blockHeight
        { blockHeight := newBlockHeight, blockTimestamp := newBlockTimestamp } t
    else pure t
  let lastPrunableBlockHeight ← sub (max newBlockHeight rollingWindowSize) rollingWindowSize
  pure (eraseFront BlockInfoRecord.blockHeight lastPrunableBlockHeight 2 t)

/-- The table after the blocks whose `onblock` succeeded, from an empty table. -/
def blockinfoAfter (sub : ℕ → ℕ → Except String ℕ) (bs : List BlockHeader) :
    Except String (List BlockInfoRecord) :=
  bs.foldlM (fun t b => addToBlockinfoTable sub b t) []

structure BlockBatchInfo where
  batchStartHeight : ℕ
  batchStartTimestamp : ℕ
  batchCurrentEndHeight : ℕ
  batchCurrentEndTimestamp : ℕ
  deriving DecidableEq, Repr

def batchInfo (startHeight startTimestamp : ℕ) (latest : BlockInfoRecord) : BlockBatchInfo where
  batchStartHeight := startHeight
  batchStartTimestamp := startTimestamp
  batchCurrentEndHeight := latest.blockHeight
  batchCurrentEndTimestamp := latest.blockTimestamp

inductive BatchErrorCode
  | noError
  | invalidInput
  | unsupportedVersion
  | insufficientData
  deriving DecidableEq, Repr

structure LatestBlockBatchInfoResult where
  result : Option BlockBatchInfo := none
  errorCode : BatchErrorCode := .noError
  deriving DecidableEq, Repr

def getLatestBlockBatchInfo (sub : ℕ → ℕ → Except String ℕ) (batchStartHeightOffset batchSize : ℕ)
    (t : List BlockInfoRecord) : Except String LatestBlockBatchInfoResult :=
  if batchSize = 0 then .ok { errorCode := .invalidInput }
  else match t.getLast? with
    | none => .ok { errorCode := .insufficientData }
    | some latest =>
      if latest.version ≠ 0 then .ok { errorCode := .unsupportedVersion }
      else if latest.blockHeight < batchStartHeightOffset then
        .ok { errorCode := .insufficientData }
      else do
        let behind ← sub latest.blockHeight batchStartHeightOffset
        let startHeight ← sub latest.blockHeight (behind % batchSize)
        if startHeight = latest.blockHeight then
          .ok { result := some (batchInfo startHeight latest.blockTimestamp latest) }
        else match t.find? fun r => r.blockHeight = startHeight with
          | none => .ok { errorCode := .insufficientData }
          | some start =>
            if start.version ≠ 0 then .ok { errorCode := .unsupportedVersion }
            else .ok { result := some (batchInfo startHeight start.blockTimestamp latest) }

/-- Blocks of one chain in the order of their height: a block stands above its previous one, so
its 32-bit height did not wrap. -/
structure Heights (bs : List BlockHeader) : Prop where
  above : ∀ b ∈ bs, blockHeightFromId b.previous < b.height
  increasing : bs.Pairwise fun b c => b.height < c.height

lemma BlockHeader.height_lt (b : BlockHeader) : b.height < 2 ^ 32 := Nat.mod_lt _ (by norm_num)

/-- A subtraction that agrees with the integers wherever these do not leave the range. -/
def Subtracts (sub : ℕ → ℕ → Except String ℕ) : Prop :=
  ∀ a b, b ≤ a → a < 2 ^ 32 → sub a b = .ok (a - b)

lemma subtracts_wrappingSub : Subtracts wrappingSub := by
  intro a b hab ha
  rw [wrappingSub, subSec_of_le hab ha]

lemma subtracts_exactSub : Subtracts exactSub := by
  intro a b hab _
  rw [exactSub, if_pos hab]

/-- The blocks leave the table a rolling window of their records. -/
lemma blockinfoAfter_spec {bs : List BlockHeader} (h : Heights bs) :
    ∃ t, (∀ sub, Subtracts sub → blockinfoAfter sub bs = .ok t) ∧
      RollingWindow BlockInfoRecord.blockHeight rollingWindowSize
        (bs.map BlockHeader.record) t := by
  induction bs using List.reverseRecOn with
  | nil => exact ⟨[], fun _ _ => rfl, .nil _⟩
  | append_singleton bs b ih =>
    obtain ⟨hinc, -, hlast⟩ := List.pairwise_append.mp h.increasing
    obtain ⟨t, ht, hwin⟩ := ih ⟨fun c hc => h.above c (List.mem_append_left _ hc), hinc⟩
    have hbelow : ∀ r ∈ t, r.blockHeight < b.record.blockHeight := by
      intro r hr
      obtain ⟨c, hc, rfl⟩ := List.mem_map.mp (hwin.isSuffix.subset hr)
      exact hlast c hc b (by simp)
    have hmax : max b.height rollingWindowSize < 2 ^ 32 :=
      max_lt b.height_lt (by norm_num [rollingWindowSize])
    have hadd : ∀ sub, Subtracts sub →
      addToBlockinfoTable sub b t = .ok (eraseFront BlockInfoRecord.blockHeight
        (max b.height rollingWindowSize - rollingWindowSize) 2 (t ++ [b.record])) := by
      intro sub hsub
      have he : emplaceRow BlockInfoRecord.blockHeight b.record t = .ok (t ++ [b.record]) :=
        emplaceRow_last hbelow
      unfold addToBlockinfoTable
      rw [if_pos (by norm_num [rollingWindowSize])]
      change (emplaceRow BlockInfoRecord.blockHeight b.record t >>= _) = _
      rw [he]
      change (sub (max b.height rollingWindowSize) rollingWindowSize >>= _) = _
      rw [hsub _ _ (le_max_right _ _) hmax]
      rfl
    refine ⟨eraseFront BlockInfoRecord.blockHeight
      (max b.height rollingWindowSize - rollingWindowSize) 2
      (t ++ [b.record]), ?_, ?_⟩
    · intro sub hsub
      rw [blockinfoAfter, List.foldlM_append, bind_ok]
      refine ⟨t, ht sub hsub, ?_⟩
      rw [List.foldlM_cons, hadd sub hsub]
      rfl
    · rw [List.map_append, List.map_singleton]
      refine hwin.push (by norm_num) ?_ ?_
      · rw [← List.map_singleton, ← List.map_append, List.pairwise_map]
        exact h.increasing
      · intro r hr
        rw [← List.map_singleton, ← List.map_append] at hr
        obtain ⟨c, hc, rfl⟩ := List.mem_map.mp hr
        exact Nat.zero_lt_of_lt (h.above c hc)

/-- The batch start is the last height up to the latest that is the offset modulo the batch size. -/
lemma isGreatest_batchStart {latest offset size : ℕ} (hs : 0 < size) (ho : offset ≤ latest) :
    IsGreatest {s | s ≤ latest ∧ s ≡ offset [MOD size]} (latest - (latest - offset) % size) := by
  have hmod := Nat.mod_add_div (latest - offset) size
  have hlt := Nat.mod_lt (latest - offset) hs
  constructor
  · refine ⟨Nat.sub_le _ _, ?_⟩
    have he : latest - (latest - offset) % size = offset + size * ((latest - offset) / size) := by
      omega
    rw [he]
    simp [Nat.ModEq]
  · rintro s ⟨hle, hcong⟩
    by_contra hgt
    -- two numbers of one class lie a whole batch apart
    have hbig : latest - (latest - offset) % size ≡ s [MOD size] := by
      refine Nat.ModEq.trans ?_ hcong.symm
      have he : latest - (latest - offset) % size = offset + size * ((latest - offset) / size) := by
        omega
      rw [he]
      simp [Nat.ModEq]
    have hdvd := (Nat.modEq_iff_dvd' (by omega)).mp hbig
    have := Nat.le_of_dvd (by omega) hdvd
    omega

section
variable {bs : List BlockHeader} {t : List BlockInfoRecord} {offset size : ℕ}

def LastConsecutive (k : ℕ) (bs : List BlockHeader) : Prop :=
  (bs.drop (bs.length - rollingWindowSize)).map BlockHeader.height = List.range' k rollingWindowSize

/-- The table of a run, as the query meets it. -/
structure BlockinfoTable (bs : List BlockHeader) (t : List BlockInfoRecord) : Prop where
  window : RollingWindow BlockInfoRecord.blockHeight rollingWindowSize (bs.map BlockHeader.record) t
  heights : Heights bs

namespace BlockinfoTable

lemma record (h : BlockinfoTable bs t) {r : BlockInfoRecord} (hr : r ∈ t) :
    ∃ b ∈ bs, r = b.record := by
  obtain ⟨b, hb, rfl⟩ := List.mem_map.mp (h.window.isSuffix.subset hr)
  exact ⟨b, hb, rfl⟩

lemma increasing (h : BlockinfoTable bs t) :
    t.Pairwise fun r r' => r.blockHeight < r'.blockHeight := by
  refine h.window.pairwise ?_
  rw [List.pairwise_map]
  exact h.heights.increasing

lemma recent (h : BlockinfoTable bs t) {b : BlockHeader} (hb : b ∈ bs)
    (hr : ∀ c ∈ bs, c.height < b.height + rollingWindowSize) : b.record ∈ t := by
  refine h.window.mem_of_recent (List.mem_map_of_mem hb) ?_
  intro x hx
  obtain ⟨c, hc, rfl⟩ := List.mem_map.mp hx
  exact hr c hc

lemma latest (h : BlockinfoTable bs t) {b : BlockHeader} (hb : bs.getLast? = some b) :
    t.getLast? = some b.record := by
  have hmem : b ∈ bs := List.mem_of_getLast? hb
  obtain ⟨old, rfl⟩ : ∃ old, bs = old ++ [b] := by
    obtain ⟨old, hold⟩ := List.getLast?_eq_some_iff.mp hb
    exact ⟨old, hold⟩
  have hbelow := (List.pairwise_append.mp h.heights.increasing).2.2
  have ht : b.record ∈ t := by
    refine h.recent hmem ?_
    intro c hc
    rcases List.mem_append.mp hc with hc | hc
    · exact (hbelow c hc b (by simp)).trans
        (Nat.lt_add_of_pos_right (by norm_num [rollingWindowSize]))
    · rw [List.mem_singleton.mp hc]
      exact Nat.lt_add_of_pos_right (by norm_num [rollingWindowSize])
  obtain ⟨gone, hgone⟩ := h.window.isSuffix
  have hlast := congrArg List.getLast? hgone
  rw [List.getLast?_append_of_ne_nil _ (List.ne_nil_of_mem ht), List.map_append, List.map_singleton,
    List.getLast?_concat] at hlast
  exact hlast

lemma consecutive (h : BlockinfoTable bs t) {k : ℕ} (hk : LastConsecutive k bs) :
    t = (bs.drop (bs.length - rollingWindowSize)).map BlockHeader.record := by
  have hsplit : bs.map BlockHeader.record =
    (bs.take (bs.length - rollingWindowSize)).map BlockHeader.record ++
      (bs.drop (bs.length - rollingWindowSize)).map BlockHeader.record := by
    rw [← List.map_append, List.take_append_drop]
  refine h.window.eq_of_consecutive (k := k) hsplit ?_ ?_
  · rw [List.pairwise_map]
    exact h.heights.increasing
  · rw [List.map_map]
    exact hk

end BlockinfoTable

/-- What the query computes, with the subtraction worked out. -/
def batchAnswer (offset size : ℕ) (latest : BlockInfoRecord) (t : List BlockInfoRecord) :
    LatestBlockBatchInfoResult :=
  match t.find? fun r => r.blockHeight = latest.blockHeight -
    (latest.blockHeight - offset) % size with
  | none => { errorCode := .insufficientData }
  | some start => { result := some (batchInfo start.blockHeight start.blockTimestamp latest) }

lemma getLatestBlockBatchInfo_eq {sub : ℕ → ℕ → Except String ℕ} (hsub : Subtracts sub)
    {latest : BlockInfoRecord} (hlast : t.getLast? = some latest) (hver : ∀ r ∈ t, r.version = 0)
    (hsort : t.Pairwise fun r r' => r.blockHeight < r'.blockHeight)
    (hlt : latest.blockHeight < 2 ^ 32) (hs : 0 < size) (ho : offset ≤ latest.blockHeight) :
    getLatestBlockBatchInfo sub offset size t = .ok (batchAnswer offset size latest t) := by
  have hmem : latest ∈ t := List.mem_of_getLast? hlast
  have hle : (latest.blockHeight - offset) % size ≤ latest.blockHeight :=
    (Nat.mod_le _ _).trans (Nat.sub_le _ _)
  unfold getLatestBlockBatchInfo
  rw [if_neg hs.ne', hlast]
  dsimp only
  rw [if_neg (not_not.mpr (hver latest hmem)), if_neg (not_lt.mpr ho), hsub _ _ ho hlt]
  change (sub latest.blockHeight ((latest.blockHeight - offset) % size) >>= _) = _
  rw [hsub _ _ hle hlt]
  change (if _ then _ else _) = _
  unfold batchAnswer
  cases hf : t.find? fun r => r.blockHeight = latest.blockHeight -
    (latest.blockHeight - offset) % size with
  | none =>
    have hne := List.find?_eq_none.mp hf latest hmem
    rw [if_neg fun he => hne (by simpa using he.symm)]
  | some start =>
    have hstart : start.blockHeight = latest.blockHeight -
      (latest.blockHeight - offset) % size := by
      simpa using List.find?_some hf
    have hsm := List.mem_of_find?_eq_some hf
    rw [← hstart]
    by_cases he : start.blockHeight = latest.blockHeight
    · -- heights are keys, so the start is the latest record itself
      rw [if_pos he]
      have hinj : start = latest :=
        List.inj_on_of_nodup_map (f := BlockInfoRecord.blockHeight)
          (List.pairwise_map.mpr (hsort.imp ne_of_lt))
          hsm hmem he
      rw [hinj]
    · rw [if_neg he]
      exact if_neg (not_not.mpr (hver start hsm))

/-- The record of the batch start decides the answer. -/
lemma batchAnswer_found (hsort : t.Pairwise fun r r' => r.blockHeight < r'.blockHeight)
    {latest r : BlockInfoRecord} (hr : r ∈ t)
    (hstart : r.blockHeight = latest.blockHeight - (latest.blockHeight - offset) % size) :
    batchAnswer offset size latest t =
      ⟨some (batchInfo r.blockHeight r.blockTimestamp latest), .noError⟩ := by
  unfold batchAnswer
  cases hf : t.find? fun r => r.blockHeight = latest.blockHeight -
    (latest.blockHeight - offset) % size with
  | none =>
    have hne := List.find?_eq_none.mp hf r hr
    simp [hstart] at hne
  | some start =>
    have hs : start.blockHeight = latest.blockHeight - (latest.blockHeight - offset) % size := by
      simpa using List.find?_some hf
    have hinj : start = r :=
      List.inj_on_of_nodup_map (f := BlockInfoRecord.blockHeight)
        (List.pairwise_map.mpr (hsort.imp ne_of_lt))
        (List.mem_of_find?_eq_some hf) hr (hs.trans hstart.symm)
    rw [hinj]

lemma batchAnswer_missing {latest : BlockInfoRecord}
    (hr : ∀ r ∈ t, r.blockHeight ≠ latest.blockHeight - (latest.blockHeight - offset) % size) :
    batchAnswer offset size latest t = ⟨none, .insufficientData⟩ := by
  have hf : (t.find? fun r => r.blockHeight = latest.blockHeight -
    (latest.blockHeight - offset) % size) = none := by
    rw [List.find?_eq_none]
    intro r hm
    simpa using hr r hm
  unfold batchAnswer
  rw [hf]

namespace BlockinfoTable

/-- A query that reaches the subtractions computes the latest batch. -/
lemma query (h : BlockinfoTable bs t) {b : BlockHeader} (hb : bs.getLast? = some b) (hs : 0 < size)
    (ho : offset ≤ b.height) {sub : ℕ → ℕ → Except String ℕ} (hsub : Subtracts sub) :
    getLatestBlockBatchInfo sub offset size t = .ok (batchAnswer offset size b.record t) := by
  refine getLatestBlockBatchInfo_eq hsub (h.latest hb) ?_ h.increasing b.height_lt hs ho
  intro r hr
  obtain ⟨c, -, rfl⟩ := h.record hr
  rfl

/-- Whatever is asked, the code's subtractions are exact. -/
lemma query_exact (h : BlockinfoTable bs t) (offset size : ℕ) :
    ∃ answer, ∀ sub, Subtracts sub → getLatestBlockBatchInfo sub offset size t = .ok answer := by
  by_cases hs : size = 0
  · exact ⟨_, fun _ _ => if_pos hs⟩
  cases hb : bs.getLast? with
  | none =>
    have ht : t = [] := by
      have hsuf := h.window.isSuffix
      rw [List.getLast?_eq_none_iff.mp hb] at hsuf
      exact List.suffix_nil.mp hsuf
    subst ht
    exact ⟨_, fun _ _ => if_neg hs⟩
  | some b =>
    by_cases ho : offset ≤ b.height
    · exact ⟨_, fun _ hsub => h.query hb (Nat.pos_of_ne_zero hs) ho hsub⟩
    · refine ⟨{ errorCode := .insufficientData }, fun _ _ => ?_⟩
      unfold getLatestBlockBatchInfo
      rw [if_neg hs, h.latest hb]
      dsimp only
      rw [if_neg (show ¬ b.record.version ≠ 0 from not_not.mpr rfl),
        if_pos (show b.record.blockHeight < offset from not_le.mp ho)]

/-- After ten blocks without a gap the start of a batch of at most ten blocks is recorded. -/
lemma start_recorded (h : BlockinfoTable bs t) {k : ℕ} (hk : LastConsecutive k bs) {b : BlockHeader}
    (hb : bs.getLast? = some b) (hs : 0 < size) (hle : size ≤ rollingWindowSize) :
    ∃ r ∈ t, r.blockHeight = b.height - (b.height - offset) % size := by
  have hkeys : t.map BlockInfoRecord.blockHeight = List.range' k rollingWindowSize := by
    rw [h.consecutive hk, List.map_map]
    exact hk
  have hlast : b.height = k + 9 := by
    have hl := congrArg List.getLast? hkeys
    rw [List.getLast?_map, h.latest hb] at hl
    simpa [rollingWindowSize, List.getLast?_range'] using hl
  have hmod := Nat.mod_lt (b.height - offset) hs
  have hmem : b.height - (b.height - offset) % size ∈ List.range' k rollingWindowSize := by
    rw [List.mem_range'_1]
    unfold rollingWindowSize at *
    omega
  rw [← hkeys] at hmem
  obtain ⟨r, hr, he⟩ := List.mem_map.mp hmem
  exact ⟨r, hr, he⟩

end BlockinfoTable
end

/-- After every run of blocks the table is a window of the last ten heights, the latest batch is
found whenever its start is still there, and no subtraction has wrapped around. -/
theorem blockinfo_window (bs : List BlockHeader) (h : Heights bs) :
    ∃ t, blockinfoAfter wrappingSub bs = .ok t ∧ blockinfoAfter exactSub bs = .ok t ∧
      t.length ≤ rollingWindowSize ∧
      (∀ b ∈ bs, (∀ c ∈ bs, c.height < b.height + rollingWindowSize) → b.record ∈ t) ∧
      (∀ k, LastConsecutive k bs →
        t.map BlockInfoRecord.blockHeight = List.range' k rollingWindowSize) ∧
      (∀ offset size, ∃ answer, getLatestBlockBatchInfo wrappingSub offset size t = .ok answer ∧
        getLatestBlockBatchInfo exactSub offset size t = .ok answer) ∧
      ∀ latest ∈ bs.getLast?, ∀ offset size, 0 < size → offset ≤ latest.height →
        ∃ start answer, IsGreatest {s | s ≤ latest.height ∧ s ≡ offset [MOD size]} start ∧
          getLatestBlockBatchInfo wrappingSub offset size t = .ok answer ∧
          (∀ r ∈ t, r.blockHeight = start → ∃ b ∈ bs, r = b.record ∧
            answer = ⟨some ⟨start, b.timestamp.usec, latest.height, latest.timestamp.usec⟩,
              .noError⟩) ∧
          ((∀ r ∈ t, r.blockHeight ≠ start) → answer = ⟨none, .insufficientData⟩) ∧
          (∀ k, size ≤ rollingWindowSize → LastConsecutive k bs → answer.errorCode = .noError) := by
  obtain ⟨t, ht, hwin⟩ := blockinfoAfter_spec h
  have htab : BlockinfoTable bs t := ⟨hwin, h⟩
  refine ⟨t, ht _ subtracts_wrappingSub, ht _ subtracts_exactSub, hwin.length_le, ?_, ?_, ?_, ?_⟩
  · intro b hb hr
    exact htab.recent hb hr
  · intro k hk
    rw [htab.consecutive hk, List.map_map]
    exact hk
  · intro offset size
    obtain ⟨answer, ha⟩ := htab.query_exact offset size
    exact ⟨answer, ha _ subtracts_wrappingSub, ha _ subtracts_exactSub⟩
  · intro latest hl offset size hs ho
    have hl : bs.getLast? = some latest := hl
    refine ⟨_, _, isGreatest_batchStart hs ho, htab.query hl hs ho subtracts_wrappingSub, ?_, ?_,
      ?_⟩
    · intro r hr hstart
      obtain ⟨b, hb, rfl⟩ := htab.record hr
      refine ⟨b, hb, rfl, ?_⟩
      rw [batchAnswer_found htab.increasing hr hstart, ← hstart]
      rfl
    · intro hr
      exact batchAnswer_missing hr
    · intro k hle hk
      obtain ⟨r, hr, hstart⟩ :
        ∃ r ∈ t, r.blockHeight = latest.height - (latest.height - offset) % size :=
        htab.start_recorded hk hl hs hle
      rw [batchAnswer_found htab.increasing hr hstart]

/-- Heights 2, 3 and, after a gap, 15. -/
def gappedChain : List BlockHeader :=
  [(1, 100), (2, 101), (14, 113)].map fun p : UInt8 × Fin 1000 =>
    { timestamp := ⟨p.2, by omega⟩
      producer := systemAccount
      previous := ⟨[0, 0, 0, p.1] ++ List.replicate 28 0, by simp⟩ }

theorem gappedChain_window : ∃ t, blockinfoAfter wrappingSub gappedChain = .ok t ∧
    t.length ≤ rollingWindowSize ∧
    ∃ answer, getLatestBlockBatchInfo wrappingSub 3 6 t = .ok answer := by
  obtain ⟨t, ht, -, hlen, -, -, hq, -⟩ := blockinfo_window gappedChain ⟨by decide, by decide⟩
  obtain ⟨answer, ha, -⟩ := hq 3 6
  exact ⟨t, ht, hlen, answer, ha⟩

end TelosSystem
