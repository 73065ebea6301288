import Mathlib

/-! Numbers as bytes, the most significant first and none of them zero at the front. -/
namespace BigEndian

def value (bytes : List UInt8) : ℕ := bytes.foldl (fun n b => n * 256 + b.toNat) 0

/-- The bytes of a number, none for zero. -/
def digits (n : ℕ) : List UInt8 :=
  if n = 0 then [] else digits (n / 256) ++ [UInt8.ofNat (n % 256)]

@[simp] lemma value_nil : value [] = 0 := rfl

@[simp] lemma value_concat (bytes : List UInt8) (b : UInt8) :
    value (bytes ++ [b]) = value bytes * 256 + b.toNat := by
  rw [value, List.foldl_append]
  rfl

@[simp] lemma digits_zero : digits 0 = [] := by
  rw [digits, if_pos rfl]

lemma digits_pos {n : ℕ} (h : 0 < n) : digits n = digits (n / 256) ++ [UInt8.ofNat (n % 256)] := by
  rw [digits, if_neg h.ne']

lemma toNat_digit (n : ℕ) : (UInt8.ofNat (n % 256)).toNat = n % 256 := by
  rw [UInt8.toNat_ofNat']
  omega

@[simp] theorem value_digits (n : ℕ) : value (digits n) = n := by
  induction n using Nat.strong_induction_on with
  | _ n ih =>
    rcases n.eq_zero_or_pos with rfl | hpos
    · simp
    · rw [digits_pos hpos, value_concat, ih _ (Nat.div_lt_self hpos (by norm_num)), toNat_digit]
      omega

def Minimal (bytes : List UInt8) : Prop := bytes.head? ≠ some 0

lemma digits_ne_nil {n : ℕ} (h : 0 < n) : digits n ≠ [] := by
  rw [digits_pos h]
  simp

theorem digits_minimal (n : ℕ) : Minimal (digits n) := by
  induction n using Nat.strong_induction_on with
  | _ n ih =>
    rcases n.eq_zero_or_pos with rfl | hpos
    · simp [Minimal]
    · rw [digits_pos hpos, Minimal]
      rcases (n / 256).eq_zero_or_pos with hz | hdiv
      · rw [hz, digits_zero]
        intro h
        have hb := congrArg (Option.map UInt8.toNat) h
        simp only [List.nil_append, List.head?_cons, Option.map_some, Option.some.injEq,
          toNat_digit] at hb
        have h0 : (0 : UInt8).toNat = 0 := rfl
        omega
      · rw [List.head?_append_of_ne_nil _ (digits_ne_nil hdiv)]
        exact ih _ (Nat.div_lt_self hpos (by norm_num))

lemma Minimal.of_append {bytes more : List UInt8} (h : Minimal (bytes ++ more)) :
    Minimal bytes := by
  cases bytes with
  | nil => simp [Minimal]
  | cons b bytes => exact h

lemma Minimal.value_pos {bytes : List UInt8} (h : Minimal bytes) (hne : bytes ≠ []) :
    0 < value bytes := by
  induction bytes using List.reverseRecOn with
  | nil => exact absurd rfl hne
  | append_singleton bytes b ih =>
    rw [value_concat]
    cases bytes with
    | nil =>
      have hb : b.toNat ≠ 0 := fun hz => h (congrArg some (UInt8.toNat_inj.mp hz))
      rw [value_nil]
      omega
    | cons c bytes =>
      have := ih h.of_append (List.cons_ne_nil c bytes)
      omega

/-- Minimal bytes are those of their number. -/
theorem digits_value {bytes : List UInt8} (h : Minimal bytes) : digits (value bytes) = bytes := by
  induction bytes using List.reverseRecOn with
  | nil => simp
  | append_singleton bytes b ih =>
    have hb := b.toNat_lt
    have hpos := h.value_pos (by simp)
    rw [digits_pos hpos, value_concat, show (value bytes * 256 + b.toNat) / 256 =
      value bytes by omega,
      show (value bytes * 256 + b.toNat) % 256 = b.toNat by
        omega, ih h.of_append, UInt8.ofNat_toNat]

lemma digits_length_mono {m n : ℕ} (h : m ≤ n) : (digits m).length ≤ (digits n).length := by
  induction n using Nat.strong_induction_on generalizing m with
  | _ n ih =>
    rcases m.eq_zero_or_pos with rfl | hm
    · simp
    · have hn : 0 < n := hm.trans_le h
      rw [digits_pos hm, digits_pos hn, List.length_append, List.length_append]
      exact Nat.add_le_add_right
        (ih _ (Nat.div_lt_self hn (by norm_num)) (Nat.div_le_div_right h)) 1

/-- A number has at most as many bytes as it needs. -/
theorem digits_length_le_iff (n k : ℕ) : (digits n).length ≤ k ↔ n < 256 ^ k := by
  induction k generalizing n with
  | zero =>
    rcases n.eq_zero_or_pos with rfl | hpos
    · simp
    · simp [digits_pos hpos, hpos.ne']
  | succ k ih =>
    rcases n.eq_zero_or_pos with rfl | hpos
    · simp
    · rw [digits_pos hpos, List.length_append, List.length_singleton,
        Nat.add_le_add_iff_right, ih, pow_succ,
        Nat.div_lt_iff_lt_mul (by norm_num)]

lemma value_lt (bytes : List UInt8) : value bytes < 256 ^ bytes.length := by
  induction bytes using List.reverseRecOn with
  | nil => simp
  | append_singleton bytes b ih =>
    have hb := b.toNat_lt
    rw [value_concat, List.length_append, List.length_singleton, pow_succ]
    omega

lemma value_zero_cons (bytes : List UInt8) : value (0 :: bytes) = value bytes := rfl

/-- Zeros in front do not count. -/
theorem digits_value_dropWhile (bytes : List UInt8) :
    digits (value bytes) = bytes.dropWhile (· = 0) := by
  induction bytes with
  | nil => simp
  | cons b bytes ih =>
    by_cases hb : b = 0
    · rw [hb, value_zero_cons, ih, List.dropWhile_cons_of_pos (by simp)]
    · rw [List.dropWhile_cons_of_neg (by simpa using hb)]
      exact digits_value fun h => hb (by simpa using h)

end BigEndian
