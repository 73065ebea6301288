import TelosSystem.Chain
import TelosSystem.Rlp

/-! The bytes of the transactions for the EVM: numbers in big-endian form, calls of the vote
contract, and RLP lists of nine items. -/
namespace TelosSystem
open BigEndian Ledger Rlp

/-- A number in big-endian form with leading zeroes. -/
def storeBe (len n : ℕ) : List UInt8 :=
  (List.range len).map fun i => UInt8.ofNat (n / 256 ^ (len - 1 - i) % 256)

/-- Significant bytes of a number of `2 ^ k` bytes, from those of its halves. -/
def countSignificantBytes : ℕ → ℕ → ℕ
  | 0, n => if n ≠ 0 then 1 else 0
  | k + 1, n =>
    let h := countSignificantBytes k (n / 256 ^ 2 ^ k)
    let l := countSignificantBytes k (n % 256 ^ 2 ^ k)
    if h ≠ 0 then h + 2 ^ k else l

def toByteString256 (n : ℕ) : List UInt8 :=
  if n ≠ 0 then (storeBe 32 n).drop (32 - countSignificantBytes 5 n) else []

def bytes64 (n : UInt64) : List UInt8 :=
  (List.range 8).map fun i => (n >>> (8 * (7 - i)).toUInt64).toUInt8

/-- Bytes are kept once one of them is not zero. -/
def pushByte (acc : List UInt8 × Bool) (currentByte : UInt8) : List UInt8 × Bool :=
  if acc.2 || currentByte != 0 then (acc.1 ++ [currentByte], true) else acc

def toByteString64 (n : UInt64) : List UInt8 := ((bytes64 n).foldl pushByte ([], false)).1

lemma storeBe_succ (len n : ℕ) :
    storeBe (len + 1) n = storeBe len (n / 256) ++ [UInt8.ofNat (n % 256)] := by
  unfold storeBe
  rw [List.range_succ, List.map_append]
  congr 1
  · refine List.map_congr_left fun i hi => ?_
    have hlt := List.mem_range.mp hi
    rw [show len + 1 - 1 - i = len - 1 - i + 1 by omega, pow_succ', Nat.div_div_eq_div_mul]
  · simp

lemma storeBe_eq {len n : ℕ} (h : n < 256 ^ len) :
    storeBe len n = List.replicate (len - (digits n).length) 0 ++ digits n := by
  induction len generalizing n with
  | zero =>
    have hz : n = 0 := by simpa using h
    subst hz
    simp [storeBe]
  | succ len ih =>
    have hdiv : n / 256 < 256 ^ len := by
      rw [Nat.div_lt_iff_lt_mul (by norm_num), ← pow_succ]
      exact h
    rw [storeBe_succ, ih hdiv]
    rcases n.eq_zero_or_pos with rfl | hpos
    · rw [Nat.zero_div, digits_zero, List.length_nil, Nat.sub_zero, Nat.sub_zero,
        List.append_nil, List.append_nil,
        List.replicate_succ']
      rfl
    · rw [digits_pos hpos, List.length_append, List.length_singleton, Nat.add_sub_add_right,
        List.append_assoc]

lemma digits_div_length (n j : ℕ) : (digits (n / 256 ^ j)).length = (digits n).length - j := by
  have hiff : ∀ m, (digits (n / 256 ^ j)).length ≤ m ↔ (digits n).length ≤ m + j := by
    intro m
    rw [digits_length_le_iff, digits_length_le_iff, Nat.div_lt_iff_lt_mul (by positivity), pow_add]
  have hle := (hiff _).mp (le_refl _)
  have hge := (hiff ((digits n).length - j)).mpr (by omega)
  omega

lemma countSignificantBytes_eq (k : ℕ) :
    ∀ {n : ℕ}, n < 256 ^ 2 ^ k → countSignificantBytes k n = (digits n).length := by
  induction k with
  | zero =>
    intro n h
    rw [countSignificantBytes]
    split_ifs with hn
    · rw [digits_pos (Nat.pos_of_ne_zero hn), Nat.div_eq_of_lt (by simpa using h), digits_zero]
      rfl
    · rw [not_not.mp hn, digits_zero]
      rfl
  | succ k ih =>
    intro n h
    have hbase : (0 : ℕ) < 256 ^ 2 ^ k := by positivity
    have hhi : n / 256 ^ 2 ^ k < 256 ^ 2 ^ k := by
      rw [Nat.div_lt_iff_lt_mul hbase, ← pow_add, ← two_mul, ← pow_succ']
      exact h
    rw [countSignificantBytes, ih hhi, ih (Nat.mod_lt _ hbase), digits_div_length]
    split_ifs with hzero
    · omega
    · have hle : (digits n).length ≤ 2 ^ k := by omega
      rw [Nat.mod_eq_of_lt ((digits_length_le_iff _ _).mp hle)]

/-- The integers of a transaction are written in as few bytes as they need. -/
lemma toByteString256_eq {n : ℕ} (h : n < 2 ^ 256) : toByteString256 n = digits n := by
  unfold toByteString256
  split_ifs with hn
  · have hlt : n < 256 ^ 32 := by rw [show (256 : ℕ) ^ 32 = 2 ^ 256 by norm_num]; exact h
    rw [countSignificantBytes_eq 5 hlt, storeBe_eq hlt, List.drop_left']
    exact List.length_replicate
  · rw [not_not.mp hn, digits_zero]

lemma bytes64_eq (n : UInt64) : bytes64 n = storeBe 8 n.toNat := by
  refine List.map_congr_left fun i hi => ?_
  have hlt := List.mem_range.mp hi
  rw [← UInt8.toNat_inj, UInt64.toNat_toUInt8, UInt64.toNat_shiftRight,
    Nat.shiftRight_eq_div_pow, toNat_digit]
  have hshift : (8 * (7 - i)).toUInt64.toNat % 64 = 8 * (8 - 1 - i) := by
    interval_cases i <;> rfl
  rw [hshift, pow_mul]
  rfl

lemma foldl_pushByte (l bs : List UInt8) :
    l.foldl pushByte (bs, true) = (bs ++ l, true) ∧
      (l.foldl pushByte (bs, false)).1 = bs ++ l.dropWhile (· = 0) := by
  induction l generalizing bs with
  | nil => simp
  | cons b l ih =>
    rw [List.foldl_cons, List.foldl_cons]
    refine ⟨?_, ?_⟩
    · rw [pushByte, if_pos (Bool.true_or _), (ih _).1, List.append_assoc]
      rfl
    · by_cases hb : b = 0
      · rw [pushByte, if_neg (by simp [hb]), (ih bs).2, List.dropWhile_cons_of_pos (by simp [hb])]
      · rw [pushByte, if_pos (by simp [hb]), (ih _).1, List.dropWhile_cons_of_neg (by simp [hb]),
          List.append_assoc]
        rfl

lemma value_replicate (k : ℕ) (l : List UInt8) : value (List.replicate k 0 ++ l) = value l := by
  induction k with
  | zero => rfl
  | succ k ih => rw [List.replicate_succ, List.cons_append, value_zero_cons, ih]

lemma value_bytes64 (n : UInt64) : value (bytes64 n) = n.toNat := by
  rw [bytes64_eq, storeBe_eq n.toNat_lt, value_replicate, value_digits]

lemma toByteString64_eq (n : UInt64) : toByteString64 n = digits n.toNat := by
  rw [toByteString64, (foldl_pushByte _ _).2,
    List.nil_append, ← digits_value_dropWhile, value_bytes64]

/-- `rlp::encode` of items given as byte strings: only two or more of them become an array, and
without an array only an empty buffer is written. -/
def encode (items : List (List UInt8)) : List UInt8 :=
  if 1 < items.length then write (.arr (items.map .buf)) else write (.buf [])

def defaultGasLimit : ℕ := 100000

def rawTransaction (nonce : UInt64) (contract : Checksum160) (txData : List UInt8) : List UInt8 :=
  encode [toByteString256 nonce.toNat, toByteString256 0,
    toByteString256 defaultGasLimit, contract.toList,
    toByteString256 0, txData, toByteString64 0, toByteString256 0, toByteString256 0]

def setDecayParamsSelector : List UInt8 := [0x5d, 0x32, 0xff, 0x31]
def registerBpSelector : List UInt8 := [21, 144, 113, 236]
def unregisterBpSelector : List UInt8 := [171, 46, 42, 196]

def scaleFactor : UInt64 := 10000000000000000

/-- A number in the last eight bytes of a word of 32. -/
def word (n : UInt64) : List UInt8 := List.replicate 24 0 ++ bytes64 n

def setDecayData (decayStartEpoch decayIncreaseYearly : UInt64) : List UInt8 :=
  setDecayParamsSelector ++ word decayStartEpoch ++ word (decayIncreaseYearly * scaleFactor)

def bpStatusData (active : Bool) (bp : Name) : List UInt8 :=
  (if active then registerBpSelector else unregisterBpSelector) ++ word bp.value

def statusStorageSlot : UInt8 := 4

def bpStatusLocation (bp : Name) : List UInt8 :=
  word bp.value ++ List.replicate 31 0 ++ [statusStorageSlot]

end TelosSystem
