import TelosSystem.BigEndian
import TelosSystem.Checked

/-! The RLP format of the transactions that are sent to the EVM: byte strings and lists of them,
each behind a prefix that gives the length. -/
namespace TelosSystem
namespace Rlp
open BigEndian Ledger

inductive RLPValue
  | buf (value : List UInt8)
  | arr (values : List RLPValue)

def encodeBinary (n : ℕ) : List UInt8 :=
  if n = 0 then [] else encodeBinary (n / 256) ++ [UInt8.ofNat (n % 256)]

def encodeLength (n offset : ℕ) : List UInt8 :=
  if n < 56 then [UInt8.ofNat (n + offset)]
  else
    let binlen := encodeBinary n
    UInt8.ofNat (binlen.length + offset + 55) :: binlen

def writeBuffer (value : List UInt8) : List UInt8 :=
  if value.length = 1 ∧ (value.getD 0 0).toNat < 0x80 then value
  else encodeLength value.length 0x80 ++ value

mutual

def write : RLPValue → List UInt8
  | .buf value => writeBuffer value
  | .arr values =>
    let tmp := writeValues values
    encodeLength tmp.length 0xc0 ++ tmp

def writeValues : List RLPValue → List UInt8
  | [] => []
  | value :: values => write value ++ writeValues values

end

def maxUintLen : ℕ := 8

/-- A buffer in the 32-bit address space. -/
structure Buffer where
  bytes : List UInt8
  fits : bytes.length + 9 < 2 ^ 32

namespace Buffer

def size (raw : Buffer) : ℕ := raw.bytes.length

/-- The bytes from a position on, at most `len` of them. -/
def slice (raw : Buffer) (start len : ℕ) : Buffer where
  bytes := (raw.bytes.drop start).take len
  fits := by
    have h := raw.fits
    rw [List.length_take, List.length_drop]
    omega

lemma bytes_slice (raw : Buffer) (start len : ℕ) :
    (raw.slice start len).bytes = (raw.bytes.drop start).take len := rfl

lemma size_slice (raw : Buffer) (start len : ℕ) :
    (raw.slice start len).size = min len (raw.size - start) := by
  simp only [size, slice, List.length_take, List.length_drop]

end Buffer

structure Parsed (len : ℕ) where
  value : RLPValue
  consumed : ℕ
  pos : 0 < consumed
  le : consumed ≤ len

def toInteger (raw : List UInt8) : ℕ → ℕ
  | 0 => 0
  | 1 => (raw.getD 0 0).toNat
  | len + 2 => (raw.getD (len + 1) 0).toNat + toInteger raw (len + 1) * 256

/-- Arithmetic on `size_t`. -/
@[irreducible] def sizeT (n : ℕ) : ℕ := n % 2 ^ 32

/-- The length behind a prefix that says how many bytes the length has. -/
def readLength (raw : Buffer) (uintlen : ℕ) : Except ℕ ℕ :=
  if raw.size < 1 + uintlen then .error (1 + uintlen)
  else if uintlen = 0 ∨ maxUintLen < uintlen then .error 0
  else if 1 < uintlen ∧ raw.bytes.getD 1 0 = 0 then .error 0
  else .ok (toInteger (raw.bytes.drop 1) uintlen)

lemma sizeT_of_le (raw : Buffer) {uintlen n : ℕ} (hu : uintlen ≤ maxUintLen) (hn : n ≤ raw.size) :
    sizeT (1 + uintlen + n) = 1 + uintlen + n := by
  have hfits := raw.fits
  have hmax : maxUintLen = 8 := rfl
  have hsize : raw.size = raw.bytes.length := rfl
  rw [sizeT, Nat.mod_eq_of_lt (by omega)]

lemma readLength_le {raw : Buffer} {uintlen n : ℕ} (h : readLength raw uintlen = .ok n) :
    uintlen ≤ maxUintLen := by
  unfold readLength at h
  split_ifs at h with h1 h2 h3
  omega

/-- What has been read of an array, within the buffer. -/
structure ReadArray (raw : Buffer) (uintlen payloadlen : ℕ) where
  values : List RLPValue
  consumed : ℕ
  le : 1 + uintlen + payloadlen ≤ raw.size

/-- A byte string: the byte itself, or behind its length. -/
def readBuffer (raw : Buffer) (hpos : 0 < raw.size) : Except ℕ (Parsed raw.size) :=
  let ch := raw.bytes.getD 0 0
  have hch : ch.toNat < 256 := ch.toNat_lt
  if ch.toNat ≤ 0x7f then
    .ok ⟨.buf (raw.bytes.take 1), 1, Nat.one_pos, hpos⟩
  else if ch.toNat ≤ 0xb7 then
    let blen := ch.toNat - 0x80
    if h : raw.size < 1 + blen then .error (1 + blen)
    else if blen = 1 ∧ (raw.bytes.getD 1 0).toNat ≤ 0x7f then .error 0
    else .ok ⟨.buf ((raw.bytes.drop 1).take blen), 1 + blen, by omega, by omega⟩
  else
    let uintlen := ch.toNat - 0xb7
    match hl : readLength raw uintlen with
    | .error wanted => .error wanted
    | .ok slen =>
      let expected := sizeT (1 + uintlen + slen)
      if h : slen < 56 ∨ raw.size < expected ∨ raw.size < slen then .error
        (sizeT (max slen expected))
      else
        have hexp : expected = 1 + uintlen + slen := sizeT_of_le raw (readLength_le hl) (by omega)
        .ok ⟨.buf ((raw.bytes.drop (1 + uintlen)).take slen), expected, by omega, by omega⟩

set_option maxRecDepth 1200 in
mutual

/-- The first value of a buffer, or the number of bytes wanted to say more, zero if there is no
such number. -/
def read (raw : Buffer) : Except ℕ (Parsed raw.size) :=
  let ch := raw.bytes.getD 0 0
  if h : raw.size < 1 then .error 1
  else if ch.toNat ≤ 0xbf then readBuffer raw (Nat.not_lt.mp h)
  else if ch.toNat ≤ 0xf7 then
    let payloadlen := ch.toNat - 0xc0
    match readArray raw 0 payloadlen (Nat.zero_le _) with
    | .error wanted => .error wanted
    | .ok list =>
      if list.consumed ≠ payloadlen then .error 0
      else .ok ⟨.arr list.values, 1 + payloadlen, by omega, list.le⟩
  else
    let uintlen := ch.toNat - 0xf7
    match hl : readLength raw uintlen with
    | .error wanted => .error wanted
    | .ok n =>
      let payloadlen := sizeT n
      if payloadlen < 56 then .error 0
      else
        match readArray raw uintlen payloadlen (readLength_le hl) with
        | .error wanted => .error wanted
        | .ok list =>
          if list.consumed ≠ payloadlen then .error 0
          else .ok ⟨.arr list.values, 1 + uintlen + payloadlen, by omega, list.le⟩
termination_by 3 * raw.size + 1

def readArray (raw : Buffer) (uintlen payloadlen : ℕ) (hu : uintlen ≤ maxUintLen) :
    Except ℕ (ReadArray raw uintlen payloadlen) :=
  let expected := sizeT (1 + uintlen + payloadlen)
  if h : raw.size < expected ∨ raw.size < payloadlen then .error (max expected payloadlen)
  else
    have hexp : expected = 1 + uintlen + payloadlen := sizeT_of_le raw hu (by omega)
    match readValues (raw.slice (1 + uintlen) payloadlen) with
    | .error wanted => .error wanted
    | .ok (values, consumed) => .ok ⟨values, consumed, by omega⟩
termination_by 3 * raw.size
decreasing_by
  rw [Buffer.size_slice]
  omega

/-- The values that fill a payload, and the bytes they take. -/
def readValues (payload : Buffer) : Except ℕ (List RLPValue × ℕ) :=
  if payload.size = 0 then .ok ([], 0)
  else
    match read payload with
    | .error _ => .error 0
    | .ok child =>
      match readValues (payload.slice child.consumed payload.size) with
      | .error wanted => .error wanted
      | .ok (values, consumed) => .ok (child.value :: values, child.consumed + consumed)
termination_by 3 * payload.size + 2
decreasing_by
  · omega
  · have hpos := child.pos
    rw [Buffer.size_slice]
    omega

end

/-- The first value of the bytes; what follows it is ignored. -/
def decode (bytes : Buffer) : Except String RLPValue := do
  check (0 < bytes.size) "Invalid Transaction: RLP nothing to decode"
  match read bytes with
  | .ok rlp => pure rlp.value
  | .error _ => .error "Invalid Transaction: RLP could not be decoded"

lemma encodeBinary_eq (n : ℕ) : encodeBinary n = digits n := by
  induction n using Nat.strong_induction_on with
  | _ n ih =>
    rw [encodeBinary, digits]
    split_ifs with h
    · rfl
    · rw [ih _ (Nat.div_lt_self (Nat.pos_of_ne_zero h) (by norm_num))]

lemma toInteger_eq {raw : List UInt8} {len : ℕ} (h : len ≤ raw.length) :
    toInteger raw len = value (raw.take len) := by
  induction len with
  | zero => simp [toInteger]
  | succ len ih =>
    have hlast : raw.take (len + 1) = raw.take len ++ [raw.getD len 0] := by
      rw [List.take_add_one, List.getElem?_eq_getElem h, List.getD_eq_getElem _ _ h]
      rfl
    rw [hlast, value_concat]
    cases len with
    | zero => simp [toInteger]
    | succ len =>
      rw [toInteger, ih (by omega)]
      omega

lemma readLength_ok_iff {raw : Buffer} {uintlen n : ℕ} : readLength raw uintlen = .ok n ↔
    (1 + uintlen ≤ raw.size ∧ 0 < uintlen ∧ uintlen ≤ maxUintLen) ∧
      ¬ (1 < uintlen ∧ raw.bytes.getD 1 0 = 0) ∧ toInteger (raw.bytes.drop 1) uintlen = n := by
  unfold readLength
  constructor
  · intro h
    split_ifs at h with h1 h2 h3
    cases h
    exact ⟨⟨by omega, by omega, by omega⟩, h3, rfl⟩
  · rintro ⟨⟨h1, h2, h3⟩, h4, rfl⟩
    rw [if_neg (by omega), if_neg (by omega), if_neg h4]

/-- The bytes of a length are read back. -/
lemma readLength_digits {raw : Buffer} {b : UInt8} {n : ℕ} {rest : List UInt8} (h0 : 0 < n)
    (hn : n < 2 ^ 64) (h : raw.bytes = b :: (digits n ++ rest)) :
    readLength raw (digits n).length = .ok n := by
  have hsize : raw.size = 1 + (digits n).length + rest.length := by
    rw [Buffer.size, h, List.length_cons, List.length_append]
    omega
  have hle : (digits n).length ≤ 8 := (digits_length_le_iff n 8).mpr (by omega)
  have hpos : 0 < (digits n).length := List.length_pos_iff.mpr (digits_ne_nil h0)
  refine readLength_ok_iff.mpr ⟨⟨by omega, hpos, hle⟩, ?_, ?_⟩
  · rintro ⟨-, hz⟩
    apply digits_minimal n
    rw [h, List.getD_cons_succ] at hz
    cases hd : digits n with
    | nil => exact absurd hd (digits_ne_nil h0)
    | cons c more =>
      rw [hd] at hz
      exact congrArg some hz
  · rw [h, List.drop_one, List.tail_cons, toInteger_eq (by rw [List.length_append]; omega),
      List.take_left',
      value_digits]
    rfl

/-- A length that is read stands there in as few bytes as it needs. -/
lemma readLength_bytes {raw : Buffer} {uintlen n : ℕ} (h0 : 0 < n)
    (h : readLength raw uintlen = .ok n) :
    (digits n).length = uintlen ∧ n < 2 ^ 64 ∧
      raw.bytes.take (1 + uintlen) = raw.bytes.getD 0 0 :: digits n := by
  obtain ⟨⟨hsize, hpos, hmax⟩, hfront, hn⟩ := readLength_ok_iff.mp h
  cases hb : raw.bytes with
  | nil =>
    rw [Buffer.size, hb, List.length_nil] at hsize
    omega
  | cons b tail =>
    have htail : uintlen ≤ tail.length := by
      rw [Buffer.size, hb, List.length_cons] at hsize
      omega
    rw [hb, List.drop_one, List.tail_cons, toInteger_eq htail] at hn
    rw [hb, List.getD_cons_succ] at hfront
    have hlen : (tail.take uintlen).length = uintlen := List.length_take_of_le htail
    have hmin : Minimal (tail.take uintlen) := by
      intro hz
      rw [List.head?_take, if_neg hpos.ne'] at hz
      obtain ⟨more, rfl⟩ : ∃ more, tail = 0 :: more := List.head?_eq_some_iff.mp hz
      have hone : uintlen = 1 := by
        by_contra hne
        exact hfront ⟨by omega, rfl⟩
      rw [hone] at hn
      exact h0.ne' hn.symm
    have hdigits : digits n = tail.take uintlen := by rw [← hn, digits_value hmin]
    refine ⟨hdigits ▸ hlen, ?_, ?_⟩
    · have hlt := value_lt (tail.take uintlen)
      rw [hlen, hn] at hlt
      have h8 : (256 : ℕ) ^ uintlen ≤ 256 ^ 8 := Nat.pow_le_pow_right (by norm_num) hmax
      omega
    · rw [Nat.add_comm, List.take_succ_cons, List.getD_cons_zero, hdigits]

mutual

/-- The bytes that are read as a value: those that are written, but only the low bits of the length
of an array have to be right. -/
def Encodes : RLPValue → List UInt8 → Prop
  | .buf value, p => p = writeBuffer value
  | .arr values, p => ∃ payload n, EncodesAll values payload ∧ p = encodeLength n 0xc0 ++ payload ∧
      sizeT n = payload.length ∧ n < 2 ^ 64 ∧ (n < 56 ∨ 56 ≤ payload.length)

def EncodesAll : List RLPValue → List UInt8 → Prop
  | [], payload => payload = []
  | value :: values, payload =>
    ∃ p rest, Encodes value p ∧ EncodesAll values rest ∧ payload = p ++ rest

end

def Reads (raw : Buffer) (v : RLPValue) (n : ℕ) : Prop :=
  ∃ r, read raw = .ok r ∧ r.value = v ∧ r.consumed = n

section
variable {raw : Buffer} {v : RLPValue} {value p payload rest : List UInt8} {n uintlen offset : ℕ}

lemma toNat_byte (h : n < 256) : (UInt8.ofNat n).toNat = n := by
  rw [UInt8.toNat_ofNat']
  exact Nat.mod_eq_of_lt h

lemma encodeLength_short (h : n < 56) : encodeLength n offset = [UInt8.ofNat (n + offset)] := by
  rw [encodeLength, if_pos h]

lemma encodeLength_long (h : 56 ≤ n) :
    encodeLength n offset = UInt8.ofNat ((digits n).length + offset + 55) :: digits n := by
  rw [encodeLength, if_neg (Nat.not_lt.mpr h), encodeBinary_eq]

lemma digits_length_le (h : n < 2 ^ 64) : (digits n).length ≤ 8 :=
  (digits_length_le_iff n 8).mpr (by omega)

lemma read_buffer (hpos : 0 < raw.size) (h : (raw.bytes.getD 0 0).toNat ≤ 0xbf) :
    read raw = readBuffer raw hpos := by
  rw [read, dif_neg (by omega), if_pos h]

/-- A byte by itself. -/
lemma reads_byte (hpos : 0 < raw.size) (h : (raw.bytes.getD 0 0).toNat ≤ 0x7f) :
    Reads raw (.buf (raw.bytes.take 1)) 1 := by
  refine ⟨⟨.buf (raw.bytes.take 1), 1, Nat.one_pos, hpos⟩, ?_, rfl, rfl⟩
  rw [read_buffer hpos (h.trans (by norm_num)), readBuffer, if_pos h]

/-- A short byte string. -/
lemma reads_short {blen : ℕ} (hch : (raw.bytes.getD 0 0).toNat = 0x80 + blen) (hshort : blen < 56)
    (hsize : 1 + blen ≤ raw.size) (hmin : ¬ (blen = 1 ∧ (raw.bytes.getD 1 0).toNat ≤ 0x7f)) :
    Reads raw (.buf ((raw.bytes.drop 1).take blen)) (1 + blen) := by
  have hblen : (raw.bytes.getD 0 0).toNat - 0x80 = blen := by omega
  refine ⟨⟨_, _, by omega, hsize⟩, ?_, rfl, rfl⟩
  rw [read_buffer (by omega) (by omega), readBuffer, if_neg (by omega), if_pos (by omega)]
  simp only [hblen]
  rw [dif_neg (by omega), if_neg hmin]

/-- A long byte string. -/
lemma reads_long (hch : (raw.bytes.getD 0 0).toNat = 0xb7 + uintlen)
    (hl : readLength raw uintlen = .ok n) (hlong : 56 ≤ n) (hsize : 1 + uintlen + n ≤ raw.size) :
    Reads raw (.buf ((raw.bytes.drop (1 + uintlen)).take n)) (1 + uintlen + n) := by
  have hu : 0 < uintlen ∧ uintlen ≤ 8 := (readLength_ok_iff.mp hl).1.2
  have hexp : sizeT (1 + uintlen + n) = 1 + uintlen + n := sizeT_of_le raw hu.2 (by omega)
  have hulen : (raw.bytes.getD 0 0).toNat - 0xb7 = uintlen := by omega
  refine ⟨⟨_, sizeT (1 + uintlen + n), by omega, by omega⟩, ?_, rfl, hexp⟩
  rw [read_buffer (by omega) (by omega), readBuffer, if_neg (by omega), if_neg (by omega)]
  simp only [hulen]
  split
  · next h =>
    rw [hulen, hl] at h
    cases h
  · next slen h =>
    rw [hulen, hl] at h
    cases h
    rw [dif_neg (by omega)]

lemma reads_buffer (h : raw.bytes = writeBuffer value ++ rest) :
    Reads raw (.buf value) (writeBuffer value).length := by
  have hfits := raw.fits
  have hsize : raw.size = raw.bytes.length := rfl
  unfold writeBuffer at h ⊢
  split_ifs at h ⊢ with hbyte
  · obtain ⟨b, rfl⟩ := List.length_eq_one_iff.mp hbyte.1
    have hch : raw.bytes.getD 0 0 = b := by rw [h]; rfl
    have hread := reads_byte (by rw [hsize, h]; exact Nat.succ_pos _)
      (by rw [hch]; exact Nat.lt_succ_iff.mp hbyte.2)
    rw [h] at hread
    exact hread
  rcases Nat.lt_or_ge value.length 56 with hshort | hlong
  · rw [encodeLength_short hshort] at h ⊢
    have hch : (raw.bytes.getD 0 0).toNat = 0x80 + value.length := by
      rw [h, List.append_assoc, List.cons_append, List.getD_cons_zero,
        toNat_byte (by omega), Nat.add_comm]
    have hlen : raw.size = 1 + value.length + rest.length := by
      rw [hsize, h]
      simp only [List.length_append, List.length_cons, List.length_nil]
    have htail : (raw.bytes.drop 1).take value.length = value := by
      rw [h, List.append_assoc, List.cons_append, List.drop_one, List.tail_cons,
        List.nil_append, List.take_left']
      rfl
    have hread := reads_short hch hshort (by omega) fun hmin => by
      obtain ⟨b, rfl⟩ := List.length_eq_one_iff.mp hmin.1
      have hb : raw.bytes.getD 1 0 = b := by rw [h]; rfl
      exact hbyte ⟨rfl, Nat.lt_succ_of_le (hb ▸ hmin.2)⟩
    rw [htail] at hread
    rw [List.length_append]
    exact hread
  · rw [encodeLength_long hlong] at h ⊢
    have hle : (digits value.length).length ≤ 8 :=
      digits_length_le (by rw [h] at hfits; simp at hfits; omega)
    have hlen : raw.size = 1 + (digits value.length).length + value.length + rest.length := by
      rw [hsize, h]
      simp only [List.length_append, List.length_cons]
      omega
    have hch : (raw.bytes.getD 0 0).toNat = 0xb7 + (digits value.length).length := by
      rw [h, List.cons_append, List.cons_append, List.getD_cons_zero, toNat_byte (by omega)]
      omega
    have hl : readLength raw (digits value.length).length = .ok value.length :=
      readLength_digits (by omega) (by omega)
        (by rw [h, List.cons_append, List.cons_append, List.append_assoc])
    have htail : (raw.bytes.drop (1 + (digits value.length).length)).take value.length = value := by
      rw [h, Nat.add_comm, List.cons_append, List.cons_append, List.drop_succ_cons,
        List.append_assoc,
        List.drop_left', List.take_left']
      · rfl
      · rfl
    have hread := reads_long hch hl hlong (by omega)
    rw [htail] at hread
    rw [List.length_append, List.length_cons, Nat.add_comm (digits value.length).length]
    exact hread

/-- An array whose payload has been read to its end. -/
lemma readArray_reads {values : List RLPValue} (hu : uintlen ≤ maxUintLen)
    (hsize : 1 + uintlen + n ≤ raw.size)
    (h : readValues (raw.slice (1 + uintlen) n) = .ok (values, n)) :
    ∃ list, readArray raw uintlen n hu = .ok list ∧ list.values = values ∧ list.consumed = n := by
  have hexp : sizeT (1 + uintlen + n) = 1 + uintlen + n := sizeT_of_le raw hu (by omega)
  refine ⟨⟨values, n, hsize⟩, ?_, rfl, rfl⟩
  rw [readArray, dif_neg (by omega), h]

lemma reads_array_short {values : List RLPValue} {ch : ℕ} (hch : (raw.bytes.getD 0 0).toNat = ch)
    (h0 : 0xc0 ≤ ch) (hshort : ch - 0xc0 < 56) (hsize : 1 + (ch - 0xc0) ≤ raw.size)
    (h : readValues (raw.slice 1 (ch - 0xc0)) = .ok (values, ch - 0xc0)) :
    Reads raw (.arr values) (1 + (ch - 0xc0)) := by
  subst hch
  obtain ⟨list, hlist, rfl, hconsumed⟩ := readArray_reads (Nat.zero_le _) (by omega) h
  refine ⟨⟨.arr list.values, _, by omega, hsize⟩, ?_, rfl, rfl⟩
  rw [read, dif_neg (by omega), if_neg (by omega), if_pos (by omega)]
  simp only [hlist]
  rw [if_neg (by omega)]

lemma reads_array_long {values : List RLPValue} {m ch : ℕ} (hch : (raw.bytes.getD 0 0).toNat = ch)
    (h0 : 0xf7 < ch) (hl : readLength raw (ch - 0xf7) = .ok m) (hlong : 56 ≤ sizeT m)
    (hsize : 1 + (ch - 0xf7) + sizeT m ≤ raw.size)
    (h : readValues (raw.slice (1 + (ch - 0xf7)) (sizeT m)) = .ok (values, sizeT m)) :
    Reads raw (.arr values) (1 + (ch - 0xf7) + sizeT m) := by
  subst hch
  have hu := (readLength_ok_iff.mp hl).1.2.2
  obtain ⟨list, hlist, rfl, hconsumed⟩ := readArray_reads hu hsize h
  refine ⟨⟨.arr list.values, _, by omega, hsize⟩, ?_, rfl, rfl⟩
  rw [read, dif_neg (by omega), if_neg (by omega), if_neg (by omega)]
  dsimp only
  split
  · next hl' =>
    rw [hl] at hl'
    cases hl'
  · next k hl' =>
    rw [hl] at hl'
    cases hl'
    simp only [hlist]
    rw [if_neg (by omega), if_neg (by omega)]

lemma sizeT_of_lt (h : n < 2 ^ 32) : sizeT n = n := by
  rw [sizeT, Nat.mod_eq_of_lt h]

lemma slice_bytes {front : List UInt8} (h : raw.bytes = front ++ (payload ++ rest)) :
    (raw.slice front.length payload.length).bytes = payload := by
  change (raw.bytes.drop front.length).take payload.length = payload
  rw [h, List.drop_left', List.take_left']
  · rfl
  · rfl

mutual

/-- The bytes of a value are read as that value, whatever follows them. -/
theorem reads_encoded :
    ∀ (v : RLPValue) {p rest : List UInt8} {raw : Buffer}, Encodes v p → raw.bytes = p ++ rest →
    Reads raw v p.length
  | .buf value, p, rest, raw, henc, h => by
    rw [Encodes] at henc
    subst henc
    exact reads_buffer h
  | .arr values, p, rest, raw, henc, h => by
    rw [Encodes] at henc
    obtain ⟨payload, n, hall, rfl, hsize, hn, hclass⟩ := henc
    have hlen : raw.size = (encodeLength n 0xc0).length + payload.length + rest.length := by
      rw [Buffer.size, h, List.length_append, List.length_append]
    rw [List.append_assoc] at h
    have hvalues := readValues_encoded values hall (slice_bytes h)
    rcases Nat.lt_or_ge n 56 with hshort | hlong
    · rw [sizeT_of_lt (by omega)] at hsize
      rw [encodeLength_short hshort] at h hlen hvalues ⊢
      have hch : (raw.bytes.getD 0 0).toNat = n + 0xc0 := by
        rw [h, List.cons_append, List.getD_cons_zero, toNat_byte (by omega)]
      have hn : n + 0xc0 - 0xc0 = payload.length := by omega
      have hread := reads_array_short hch (by omega) (by omega) (by rw [hn, hlen]; simp)
        (by rw [hn]; exact hvalues)
      rw [hn] at hread
      rw [List.length_append]
      exact hread
    · rw [encodeLength_long hlong] at h hlen hvalues ⊢
      have hle := digits_length_le hn
      have hpos : 0 < (digits n).length := List.length_pos_iff.mpr (digits_ne_nil (by omega))
      have hch : (raw.bytes.getD 0 0).toNat = (digits n).length + 0xc0 + 55 := by
        rw [h, List.cons_append, List.getD_cons_zero, toNat_byte (by omega)]
      have hu : (digits n).length + 0xc0 + 55 - 0xf7 = (digits n).length := by omega
      rw [List.length_cons] at hlen hvalues
      have hread := reads_array_long hch (by omega)
        (by rw [hu]; exact readLength_digits (by omega) hn h)
        (by omega) (by omega) (by rw [hu, hsize, Nat.add_comm]; exact hvalues)
      rw [hu, hsize, Nat.add_comm 1] at hread
      rw [List.length_append, List.length_cons]
      exact hread

theorem readValues_encoded : ∀ (values : List RLPValue) {payload : List UInt8} {raw : Buffer},
    EncodesAll values payload → raw.bytes = payload → readValues raw = .ok (values, payload.length)
  | [], payload, raw, henc, h => by
    rw [EncodesAll] at henc
    have hsize : raw.size = 0 := by rw [Buffer.size, h, henc]; rfl
    rw [readValues, if_pos hsize, henc]
    rfl
  | value :: values, payload, raw, henc, h => by
    rw [EncodesAll] at henc
    obtain ⟨p, rest, hp, hrest, rfl⟩ := henc
    obtain ⟨child, hchild, rfl, hconsumed⟩ := reads_encoded value hp h
    have hpos := child.pos
    have hle := child.le
    have hbytes : (raw.slice child.consumed raw.size).bytes = rest := by
      change (raw.bytes.drop child.consumed).take raw.size = rest
      rw [hconsumed, h, List.drop_left, List.take_of_length_le]
      rw [Buffer.size, h, List.length_append]
      exact Nat.le_add_left _ _
    rw [readValues, if_neg (by omega), hchild]
    dsimp only
    rw [readValues_encoded values hrest hbytes, hconsumed, List.length_append]

end

lemma byte_eq {b : UInt8} (h : b.toNat = n) : b = UInt8.ofNat n := by
  rw [← h, UInt8.ofNat_toNat]

lemma take_succ_bytes (hpos : 0 < raw.size) (n : ℕ) :
    raw.bytes.take (1 + n) = raw.bytes.getD 0 0 :: (raw.bytes.drop 1).take n := by
  cases hb : raw.bytes with
  | nil =>
    rw [Buffer.size, hb] at hpos
    cases hpos
  | cons b tail =>
    rw [Nat.add_comm, List.take_succ_cons, List.getD_cons_zero, List.drop_one, List.tail_cons]

lemma readBuffer_writes {hpos : 0 < raw.size} {r : Parsed raw.size}
    (hch : (raw.bytes.getD 0 0).toNat ≤ 0xbf) (h : readBuffer raw hpos = .ok r) :
    ∃ value, r.value = .buf value ∧ raw.bytes.take r.consumed = writeBuffer value := by
  have hsize : raw.size = raw.bytes.length := rfl
  have hfits := raw.fits
  rw [readBuffer] at h
  dsimp only at h
  split_ifs at h with h1 h2 h3 h4
  · cases h
    refine ⟨_, rfl, ?_⟩
    have htake := take_succ_bytes hpos 0
    rw [List.take_zero] at htake
    change raw.bytes.take (1 + 0) = writeBuffer (raw.bytes.take (1 + 0))
    rw [htake, writeBuffer, if_pos ⟨rfl, Nat.lt_succ_of_le h1⟩]
  · cases h
    refine ⟨_, rfl, ?_⟩
    dsimp only
    have hlen : ((raw.bytes.drop 1).take ((raw.bytes.getD 0 0).toNat - 0x80)).length =
        (raw.bytes.getD 0 0).toNat - 0x80 :=
        List.length_take_of_le (by rw [List.length_drop]; omega)
    rw [take_succ_bytes hpos, writeBuffer, if_neg, hlen, encodeLength_short (by omega)]
    · rw [List.cons_append, List.nil_append, ← byte_eq (b := raw.bytes.getD 0 0) (by omega)]
    · rintro ⟨hone, hsmall⟩
      rw [hlen] at hone
      have hfirst : ((raw.bytes.drop 1).take 1).getD 0 0 = raw.bytes.getD 1 0 := by
        simp [List.getD_eq_getElem?_getD]
      rw [hone, hfirst] at hsmall
      exact h4 ⟨hone, Nat.le_of_lt_succ hsmall⟩
  · split at h
    · cases h
    · next slen hl =>
      split_ifs at h with h5
      cases h
      have hu := (readLength_ok_iff.mp hl).1
      obtain ⟨hdigits, hlt, htake⟩ := readLength_bytes (by omega) hl
      have hexp : sizeT (1 + ((raw.bytes.getD 0 0).toNat - 0xb7) + slen) =
          1 + ((raw.bytes.getD 0 0).toNat - 0xb7) + slen := sizeT_of_le raw hu.2.2 (by omega)
      refine ⟨_, rfl, ?_⟩
      dsimp only
      have hlen : ((raw.bytes.drop (1 + ((raw.bytes.getD 0 0).toNat - 0xb7))).take slen).length =
        slen :=
        List.length_take_of_le (by rw [List.length_drop]; omega)
      rw [hexp, List.take_add, htake, writeBuffer, if_neg (by rw [hlen]; omega), hlen,
        encodeLength_long (by omega),
        ← byte_eq (b := raw.bytes.getD 0 0) (by omega)]

lemma readArray_values {hu : uintlen ≤ maxUintLen} {list : ReadArray raw uintlen n}
    (h : readArray raw uintlen n hu = .ok list) :
    readValues (raw.slice (1 + uintlen) n) = .ok (list.values, list.consumed) := by
  rw [readArray] at h
  dsimp only at h
  split_ifs at h with h1
  split at h
  · cases h
  · next values consumed hv =>
    cases h
    exact hv

/-- An array that is read has its payload behind a length whose low bits are right. -/
lemma read_array_payload {r : Parsed raw.size} (hch : 0xbf < (raw.bytes.getD 0 0).toNat)
    (h : read raw = .ok r) :
    ∃ values n k, r.value = .arr values ∧
      readValues (raw.slice k (sizeT n)) = .ok (values, sizeT n) ∧
      0 < k ∧ k + sizeT n ≤ raw.size ∧
      raw.bytes.take r.consumed = encodeLength n 0xc0 ++ (raw.slice k (sizeT n)).bytes ∧
      n < 2 ^ 64 ∧ (n < 56 ∨ 56 ≤ sizeT n) := by
  have hlt : (raw.bytes.getD 0 0).toNat < 256 := UInt8.toNat_lt _
  rw [read] at h
  dsimp only at h
  split_ifs at h with h1 h2 h3
  · omega
  · split at h
    · cases h
    · next list hlist =>
      split_ifs at h with h4
      have hr := Except.ok.inj h
      subst hr
      have hle := list.le
      have hn : sizeT ((raw.bytes.getD 0 0).toNat - 0xc0) = (raw.bytes.getD 0 0).toNat - 0xc0 :=
        sizeT_of_lt (by omega)
      have hconsumed : list.consumed = (raw.bytes.getD 0 0).toNat - 0xc0 := by omega
      have hvalues := readArray_values hlist
      rw [hconsumed] at hvalues
      refine ⟨list.values, (raw.bytes.getD 0 0).toNat - 0xc0, 1,
        rfl, by rw [hn]; exact hvalues, Nat.one_pos,
        by omega, ?_, by omega, Or.inl (by omega)⟩
      dsimp only
      rw [take_succ_bytes (by omega), encodeLength_short (by omega), hn, Buffer.bytes_slice,
        List.cons_append,
        List.nil_append, ← byte_eq (b := raw.bytes.getD 0 0) (by omega)]
  · split at h
    · cases h
    · next n hl =>
      split_ifs at h with h4
      split at h
      · cases h
      · next list hlist =>
        split_ifs at h with h5
        have hr := Except.ok.inj h
        subst hr
        have hle := list.le
        have hconsumed : list.consumed = sizeT n := by omega
        have hvalues := readArray_values hlist
        rw [hconsumed] at hvalues
        have hn : 56 ≤ n := by
          by_contra hlow
          rw [sizeT_of_lt (by omega)] at h4
          omega
        obtain ⟨hdigits, hbound, htake⟩ := readLength_bytes (by omega) hl
        refine ⟨list.values, n, 1 + ((raw.bytes.getD 0 0).toNat - 0xf7), rfl,
          hvalues, by omega, by omega, ?_,
          hbound, Or.inr (by omega)⟩
        dsimp only
        rw [List.take_add, htake,
          encodeLength_long hn, ← byte_eq (b := raw.bytes.getD 0 0) (by omega)]
        rfl

/-- What is read from the front of a buffer is encoded there, and a payload that is read is the
encoding of its values. -/
lemma encodes_read : ∀ size raw, raw.size = size →
    (∀ r, read raw = .ok r → Encodes r.value (raw.bytes.take r.consumed)) ∧
    ∀ values consumed, readValues raw = .ok (values, consumed) →
      EncodesAll values raw.bytes ∧ consumed = raw.size := by
  intro size
  induction size using Nat.strong_induction_on with
  | _ size ih =>
    rintro raw rfl
    have hread : ∀ r, read raw = .ok r → Encodes r.value (raw.bytes.take r.consumed) := by
      intro r h
      rcases Nat.lt_or_ge 0xbf (raw.bytes.getD 0 0).toNat with hch | hch
      · obtain ⟨values, n, k, hvalue, hvalues, hk, hsize, hbytes, hn, hclass⟩ :=
          read_array_payload hch h
        have hpayload : (raw.slice k (sizeT n)).size = sizeT n := by rw [Buffer.size_slice]; omega
        obtain ⟨hall, -⟩ := (ih (sizeT n) (by omega) _ hpayload).2 _ _ hvalues
        rw [hvalue, Encodes]
        exact ⟨_, n, hall, hbytes, hpayload.symm, hn, hclass.imp_right fun h => h.trans hpayload.ge⟩
      · have hpos : 0 < raw.size := Nat.lt_of_lt_of_le r.pos r.le
        rw [read_buffer hpos hch] at h
        obtain ⟨value, hvalue, hbytes⟩ := readBuffer_writes hch h
        rw [hvalue, Encodes]
        exact hbytes
    refine ⟨hread, fun values consumed h => ?_⟩
    rw [readValues] at h
    split_ifs at h with h0
    · cases h
      rw [EncodesAll]
      exact ⟨List.length_eq_zero_iff.mp h0, h0.symm⟩
    · split at h
      · cases h
      · next child hchild =>
        split at h
        · cases h
        · next rest more hrest =>
          cases h
          have hpos := child.pos
          have hle := child.le
          have hsize : (raw.slice child.consumed raw.size).size = raw.size - child.consumed := by
            rw [Buffer.size_slice]
            omega
          obtain ⟨hall, hmore⟩ := (ih _ (by omega) _ hsize).2 _ _ hrest
          have hbytes : (raw.slice child.consumed raw.size).bytes =
            raw.bytes.drop child.consumed := by
            refine List.take_of_length_le ?_
            rw [List.length_drop]
            exact Nat.sub_le _ _
          rw [EncodesAll]
          rw [hbytes] at hall
          exact ⟨⟨_, _, hread child hchild, hall, (List.take_append_drop _ _).symm⟩, by omega⟩

/-- What can be read at the front of a buffer is what is encoded there. -/
lemma reads_iff : Reads raw v n ↔ n ≤ raw.size ∧ Encodes v (raw.bytes.take n) := by
  constructor
  · rintro ⟨r, hr, rfl, rfl⟩
    exact ⟨r.le, (encodes_read raw.size raw rfl).1 r hr⟩
  · rintro ⟨hn, henc⟩
    have hread := reads_encoded v henc (List.take_append_drop n raw.bytes).symm
    rw [List.length_take_of_le hn] at hread
    exact hread

lemma sizeT_le (n : ℕ) : sizeT n ≤ n := by
  rw [sizeT]
  exact Nat.mod_le _ _

lemma sizeT_lt (n : ℕ) : sizeT n < 2 ^ 32 := by
  rw [sizeT]
  exact Nat.mod_lt _ (by norm_num)

lemma encodeLength_mono {m : ℕ} (h : m ≤ n) :
    (encodeLength m offset).length ≤ (encodeLength n offset).length := by
  rcases Nat.lt_or_ge m 56 with hm | hm
  · rw [encodeLength_short hm]
    unfold encodeLength
    split_ifs <;> simp
  · rw [encodeLength_long hm, encodeLength_long (hm.trans h), List.length_cons, List.length_cons]
    exact Nat.succ_le_succ (digits_length_mono h)

/-- A length that needs no more bytes than its low bits has no others. -/
lemma sizeT_of_encodeLength (offset : ℕ) (hn : n < 56 ∨ 56 ≤ sizeT n)
    (h : (encodeLength n offset).length ≤ (encodeLength (sizeT n) offset).length) :
    sizeT n = n := by
  rcases hn with hn | hn
  · exact sizeT_of_lt (by omega)
  · rw [encodeLength_long hn, encodeLength_long (hn.trans (sizeT_le n)), List.length_cons,
      List.length_cons] at h
    have hlow : (digits (sizeT n)).length ≤ 4 := (digits_length_le_iff _ 4).mpr (sizeT_lt n)
    exact sizeT_of_lt ((digits_length_le_iff n 4).mp (by omega))

mutual

/-- The encoding that is written is the shortest, and the only one of its length. -/
theorem write_shortest : ∀ (v : RLPValue) {p : List UInt8}, Encodes v p →
    (write v).length ≤ p.length ∧ (p.length = (write v).length → p = write v)
  | .buf value, p, henc => by
    rw [Encodes] at henc
    subst henc
    exact ⟨le_refl _, fun _ => rfl⟩
  | .arr values, p, henc => by
    rw [Encodes] at henc
    obtain ⟨payload, n, hall, rfl, hsize, -, hclass⟩ := henc
    obtain ⟨hle, heq⟩ := writeValues_shortest values hall
    have hmono : (encodeLength (writeValues values).length 0xc0).length ≤
      (encodeLength n 0xc0).length :=
      encodeLength_mono (hle.trans (hsize.ge.trans (sizeT_le n)))
    rw [write, List.length_append, List.length_append]
    refine ⟨Nat.add_le_add hmono hle, fun h => ?_⟩
    have hpayload : payload = writeValues values := heq (by omega)
    have hn : sizeT n = n := by
      refine sizeT_of_encodeLength 0xc0 (hsize.symm ▸ hclass) ?_
      rw [hsize, hpayload]
      omega
    rw [← hpayload, ← hsize, hn]

theorem writeValues_shortest :
    ∀ (values : List RLPValue) {payload : List UInt8}, EncodesAll values payload →
    (writeValues values).length ≤ payload.length ∧
      (payload.length = (writeValues values).length → payload = writeValues values)
  | [], payload, henc => by
    rw [EncodesAll] at henc
    subst henc
    exact ⟨le_refl _, fun _ => rfl⟩
  | value :: values, payload, henc => by
    rw [EncodesAll] at henc
    obtain ⟨p, rest, hp, hrest, rfl⟩ := henc
    obtain ⟨hle, heq⟩ := write_shortest value hp
    obtain ⟨hles, heqs⟩ := writeValues_shortest values hrest
    rw [writeValues, List.length_append, List.length_append]
    refine ⟨Nat.add_le_add hle hles, fun h => ?_⟩
    rw [heq (by omega), heqs (by omega)]

end

mutual

lemma encodes_write : ∀ v : RLPValue, (write v).length < 2 ^ 32 → Encodes v (write v)
  | .buf value, _ => by rw [Encodes, write]
  | .arr values, h => by
    rw [write] at h ⊢
    have hlt : (writeValues values).length < 2 ^ 32 := by
      rw [List.length_append] at h
      exact (Nat.le_add_left _ _).trans_lt h
    rw [Encodes]
    exact ⟨_, _, encodesAll_writeValues values hlt, rfl, sizeT_of_lt hlt, by omega,
      Nat.lt_or_ge _ _⟩

lemma encodesAll_writeValues : ∀ values : List RLPValue, (writeValues values).length < 2 ^ 32 →
    EncodesAll values (writeValues values)
  | [], _ => by rw [EncodesAll, writeValues]
  | value :: values, h => by
    rw [writeValues] at h ⊢
    rw [List.length_append] at h
    rw [EncodesAll]
    exact ⟨_, _, encodes_write value (by omega), encodesAll_writeValues values (by omega), rfl⟩

end

lemma decode_ok_iff : decode raw = .ok v ↔ ∃ n, Reads raw v n := by
  simp only [decode, bind_ok, check_ok, exists_const]
  constructor
  · rintro ⟨-, h⟩
    split at h
    · next r hr =>
      rw [pure_ok] at h
      exact ⟨r.consumed, r, hr, h, rfl⟩
    · cases h
  · rintro ⟨n, r, hr, rfl, rfl⟩
    refine ⟨Nat.lt_of_lt_of_le r.pos r.le, ?_⟩
    rw [hr]
    rfl

/-- Every value is decoded from its encoding, whatever follows it, and encodings are prefix-free. -/
theorem decode_write (h : raw.bytes = write v ++ rest) : decode raw = .ok v ∧
    ∀ v' rest', raw.bytes = write v' ++ rest' → v' = v ∧ rest' = rest := by
  have hreads : ∀ v rest, raw.bytes = write v ++ rest → Reads raw v (write v).length := by
    intro v rest h
    have hfits := raw.fits
    rw [h, List.length_append] at hfits
    exact reads_encoded v (encodes_write v (by omega)) h
  refine ⟨decode_ok_iff.mpr ⟨_, hreads v rest h⟩, fun v' rest' h' => ?_⟩
  obtain ⟨r, hr, rfl, hn⟩ := hreads v rest h
  obtain ⟨r', hr', rfl, hn'⟩ := hreads v' rest' h'
  rw [hr] at hr'
  cases hr'
  exact ⟨rfl, (List.append_cancel_left (h.symm.trans h')).symm⟩

/-- Bytes behind an array do not matter. -/
theorem array_decoded :
    decode ⟨write (.arr [.buf [1], .arr [.buf [2, 3]]]) ++ [9], by decide +kernel⟩ =
    .ok (.arr [.buf [1], .arr [.buf [2, 3]]]) :=
  (decode_write rfl).1

/-- What is accepted: an encoding, of which the one that is written is the shortest. -/
theorem read_language (raw : Buffer) (v : RLPValue) (n : ℕ) :
    (Reads raw v n ↔ n ≤ raw.size ∧ Encodes v (raw.bytes.take n)) ∧
    (Reads raw v n → (write v).length ≤ n ∧
      ((write v).length = n ↔ raw.bytes.take n = write v)) := by
  refine ⟨reads_iff, fun h => ?_⟩
  obtain ⟨hn, henc⟩ := reads_iff.mp h
  obtain ⟨hle, heq⟩ := write_shortest v henc
  rw [List.length_take_of_le hn] at hle heq
  refine ⟨hle, fun hlen => heq hlen.symm, fun hbytes => ?_⟩
  rw [← hbytes, List.length_take_of_le hn]

lemma cut_prefix {front more : List UInt8} (h : raw.bytes ++ more = front ++ payload)
    (hle : front.length ≤ raw.size) :
    ∃ part, raw.bytes = front ++ part ∧ payload = part ++ more := by
  rcases List.append_eq_append_iff.mp h with ⟨part, rfl, hmore⟩ | ⟨part, hraw, hpayload⟩
  · rw [List.length_append] at hle
    have hpart : part = [] := List.length_eq_zero_iff.mp
      (by change _ ≤ raw.bytes.length at hle; omega)
    subst hpart
    exact ⟨[], by simp, by simpa using hmore.symm⟩
  · exact ⟨part, hraw, hpayload⟩

/-- A length cut short is wanted whole. -/
lemma readLength_cut {b : UInt8} {more : List UInt8}
    (h : raw.bytes ++ more = b :: digits n ++ payload) (h0 : 0 < n) (hn : n < 2 ^ 64) :
    (raw.size < 1 + (digits n).length ∧
      readLength raw (digits n).length = .error (1 + (digits n).length)) ∨
    (1 + (digits n).length ≤ raw.size ∧ readLength raw (digits n).length = .ok n) := by
  rcases Nat.lt_or_ge raw.size (1 + (digits n).length) with hcut | hwhole
  · exact Or.inl ⟨hcut, by rw [readLength, if_pos hcut]⟩
  · obtain ⟨part, hraw, -⟩ := cut_prefix h (by rw [List.length_cons, Nat.add_comm]; exact hwhole)
    exact Or.inr ⟨hwhole, readLength_digits h0 hn hraw⟩

section
variable {more : List UInt8}

lemma first_byte {b : UInt8} {p : List UInt8} (hpos : 0 < raw.size)
    (h : raw.bytes ++ more = b :: p) : raw.bytes.getD 0 0 = b := by
  cases hb : raw.bytes with
  | nil =>
    rw [Buffer.size, hb] at hpos
    cases hpos
  | cons c tail =>
    rw [hb, List.cons_append] at h
    exact (List.cons.inj h).1

lemma readBuffer_wanted (hpos : 0 < raw.size) (h : raw.bytes ++ more = writeBuffer value)
    (hmore : more ≠ []) (hfits : (raw.bytes ++ more).length < 2 ^ 32) :
    ∃ wanted, read raw = .error wanted ∧ raw.size < wanted ∧
      wanted ≤ (raw.bytes ++ more).length := by
  have hcut : raw.size < (raw.bytes ++ more).length := by
    rw [List.length_append]
    exact Nat.lt_add_of_pos_right (List.length_pos_iff.mpr hmore)
  unfold writeBuffer at h
  split_ifs at h with hbyte
  · rw [h, hbyte.1] at hcut
    omega
  rcases Nat.lt_or_ge value.length 56 with hshort | hlong
  · rw [encodeLength_short hshort] at h
    have hch : (raw.bytes.getD 0 0).toNat = value.length + 0x80 := by
      rw [first_byte hpos h, toNat_byte (by omega)]
    have hlen : (raw.bytes ++ more).length = 1 + value.length := by rw [h]; simp [Nat.add_comm]
    refine ⟨1 + ((raw.bytes.getD 0 0).toNat - 0x80), ?_, by omega, by omega⟩
    rw [read_buffer hpos (by omega), readBuffer, if_neg (by omega), if_pos (by omega)]
    dsimp only
    rw [dif_pos (by omega)]
  · rw [encodeLength_long hlong] at h
    have hlen : (raw.bytes ++ more).length = 1 + (digits value.length).length + value.length := by
      rw [h, List.length_append, List.length_cons]
      omega
    have hle : (digits value.length).length ≤ 8 := digits_length_le (by omega)
    have hch : (raw.bytes.getD 0 0).toNat = (digits value.length).length + 0x80 + 55 := by
      rw [first_byte hpos h, toNat_byte (by omega)]
    have hd : 0 < (digits value.length).length := List.length_pos_iff.mpr (digits_ne_nil (by omega))
    have hu : (raw.bytes.getD 0 0).toNat - 0xb7 = (digits value.length).length := by omega
    rw [read_buffer hpos (by omega), readBuffer, if_neg (by omega), if_neg (by omega)]
    simp only [hu]
    rcases readLength_cut h (by omega) (by omega) with ⟨hsize, hl⟩ | ⟨hsize, hl⟩
    · refine ⟨_, ?_, hsize, by omega⟩
      split
      · next hl' =>
        rw [hu, hl] at hl'
        cases hl'
        rfl
      · next hl' =>
        rw [hu, hl] at hl'
        cases hl'
    · have hexp : sizeT (1 + (digits value.length).length + value.length) =
          1 + (digits value.length).length + value.length := sizeT_of_lt (by omega)
      refine ⟨1 + (digits value.length).length + value.length, ?_, by omega, by omega⟩
      split
      · next hl' =>
        rw [hu, hl] at hl'
        cases hl'
      · next hl' =>
        rw [hu, hl] at hl'
        cases hl'
        rw [dif_pos (by omega), hexp, max_eq_right (by omega), hexp]

lemma readArray_cut (hu : uintlen ≤ maxUintLen) (hfits : 1 + uintlen + n < 2 ^ 32)
    (h : raw.size < 1 + uintlen + n) :
    readArray raw uintlen n hu = .error (1 + uintlen + n) := by
  have hexp := sizeT_of_lt hfits
  rw [readArray, dif_pos (Or.inl (hexp.symm ▸ h)), hexp, max_eq_left (Nat.le_add_left _ _)]

lemma readArray_wanted (hpos : 0 < raw.size)
    (h : raw.bytes ++ more = encodeLength n 0xc0 ++ payload) (hsize : sizeT n = payload.length)
    (hn : n < 2 ^ 64) (hclass : n < 56 ∨ 56 ≤ payload.length) (hmore : more ≠ [])
    (hfits : (raw.bytes ++ more).length < 2 ^ 32) :
    ∃ wanted, read raw = .error wanted ∧ raw.size < wanted ∧
      wanted ≤ (raw.bytes ++ more).length := by
  have hcut : raw.size < (raw.bytes ++ more).length := by
    rw [List.length_append]
    exact Nat.lt_add_of_pos_right (List.length_pos_iff.mpr hmore)
  rcases Nat.lt_or_ge n 56 with hshort | hlong
  · rw [sizeT_of_lt (by omega)] at hsize
    rw [encodeLength_short hshort] at h
    have hch : (raw.bytes.getD 0 0).toNat = n + 0xc0 := by
      rw [first_byte hpos h, toNat_byte (by omega)]
    have hlen : (raw.bytes ++ more).length = 1 + payload.length := by rw [h]; simp [Nat.add_comm]
    refine ⟨1 + 0 + ((raw.bytes.getD 0 0).toNat - 0xc0), ?_, by omega, by omega⟩
    rw [read, dif_neg (by omega), if_neg (by omega), if_pos (by omega)]
    dsimp only
    rw [readArray_cut _ (by omega) (by omega)]
  · rw [encodeLength_long hlong] at h
    have hlen : (raw.bytes ++ more).length = 1 + (digits n).length + payload.length := by
      rw [h, List.length_append, List.length_cons]
      omega
    have hle : (digits n).length ≤ 8 := digits_length_le hn
    have hd : 0 < (digits n).length := List.length_pos_iff.mpr (digits_ne_nil (by omega))
    have hch : (raw.bytes.getD 0 0).toNat = (digits n).length + 0xc0 + 55 := by
      rw [first_byte hpos h, toNat_byte (by omega)]
    have hu : (raw.bytes.getD 0 0).toNat - 0xf7 = (digits n).length := by omega
    rw [read, dif_neg (by omega), if_neg (by omega), if_neg (by omega)]
    dsimp only
    rcases readLength_cut h (by omega) hn with ⟨hheader, hl⟩ | ⟨hheader, hl⟩
    · refine ⟨_, ?_, hheader, by omega⟩
      split
      · next hl' =>
        rw [hu, hl] at hl'
        cases hl'
        rfl
      · next hl' =>
        rw [hu, hl] at hl'
        cases hl'
    · refine ⟨1 + ((raw.bytes.getD 0 0).toNat - 0xf7) + sizeT n, ?_, by omega, by omega⟩
      split
      · next hl' =>
        rw [hu, hl] at hl'
        cases hl'
      · next m hl' =>
        rw [hu, hl] at hl'
        cases hl'
        rw [if_neg (by omega), readArray_cut _ (by omega) (by omega)]

end

/-- The bytes of a value cut short: the reader asks for more than there is, and never for more than
the value has. -/
theorem read_wanted {more : List UInt8} (henc : Encodes v (raw.bytes ++ more)) (hmore : more ≠ [])
    (hfits : (raw.bytes ++ more).length < 2 ^ 32) :
    ∃ wanted, read raw = .error wanted ∧ raw.size < wanted ∧
      wanted ≤ (raw.bytes ++ more).length := by
  have hcut : raw.size < (raw.bytes ++ more).length := by
    rw [List.length_append]
    exact Nat.lt_add_of_pos_right (List.length_pos_iff.mpr hmore)
  rcases raw.size.eq_zero_or_pos with hzero | hpos
  · refine ⟨1, ?_, by omega, by omega⟩
    rw [read, dif_pos (by omega)]
  cases v with
  | buf value =>
    rw [Encodes] at henc
    exact readBuffer_wanted hpos henc hmore hfits
  | arr values =>
    rw [Encodes] at henc
    obtain ⟨payload, n, -, h, hsize, hn, hclass⟩ := henc
    exact readArray_wanted hpos h hsize hn hclass hmore hfits

/-- One byte of three asks for all of them. -/
theorem first_byte_wanted :
    ∃ wanted, read ⟨[0x82], by decide⟩ = .error wanted ∧ 1 < wanted ∧ wanted ≤ 3 := by
  have henc : Encodes (.buf [5, 6]) ([0x82] ++ [5, 6]) := by
    rw [Encodes]
    rfl
  exact @read_wanted ⟨[0x82], by decide⟩ _ _ henc (List.cons_ne_nil _ _) (by decide)

end

end Rlp
end TelosSystem
