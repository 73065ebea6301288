import TelosSystem.Checked
import TelosSystem.Table

/-! What the chain gives a contract: account names, symbols, assets, the block time and
the authorisations of the running action. Amounts are unbounded integers; times of type
`time_point_sec` are natural numbers of seconds with 32-bit arithmetic. -/
namespace TelosSystem
open Ledger

structure Name where
  value : UInt64
  deriving DecidableEq, Repr

namespace Name

def empty : Name := ⟨0⟩

private def charValue (c : Char) : UInt64 :=
  if 'a' ≤ c ∧ c ≤ 'z' then c.toNat.toUInt64 - 97 + 6
  else if '1' ≤ c ∧ c ≤ '5' then c.toNat.toUInt64 - 49 + 1
  else 0

/-- The base-32 encoding of a name of at most twelve characters. -/
def ofChars (cs : List Char) : Name :=
  ⟨(cs ++ List.replicate (12 - cs.length) '.').foldl (fun v c => v * 32 + charValue c) 0 * 16⟩

end Name

/-- "eosio" -/
def systemAccount : Name := ⟨0x5530ea0000000000⟩
/-- "eosio.ram" -/
def ramAccount : Name := ⟨0x5530ea02e6900000⟩
/-- "eosio.ramfee" -/
def ramfeeAccount : Name := ⟨0x5530ea02e692d4a0⟩
/-- "eosio.stake" -/
def stakeAccount : Name := ⟨0x5530ea0319341400⟩
/-- "eosio.names" -/
def namesAccount : Name := ⟨0x5530ea026692b000⟩
/-- "eosio.rex" -/
def rexAccount : Name := ⟨0x5530ea02eae80000⟩
/-- "eosio.reserv" -/
def reserveAccount : Name := ⟨0x5530ea02eac2afb0⟩
/-- "exrsrv.tf" -/
def tedpAccount : Name := ⟨0x576f8bec19580000⟩
/-- "eosio.bpay" -/
def bpayAccount : Name := ⟨0x5530ea00f5378000⟩
/-- "works.decide" -/
def worksAccount : Name := ⟨0xe52f0c012a4392a0⟩
/-- "b1" -/
def b1Account : Name := ⟨0x3840000000000000⟩

example : Name.ofChars ['e', 'o', 's', 'i', 'o', '.', 'r', 'e', 'x'] = rexAccount := by decide

structure Symbol where
  code : UInt64
  precision : UInt8
  deriving DecidableEq, Repr

private def Symbol.validFrom : ℕ → ℕ → Bool
  | 0, code => code == 0
  | n + 1, code =>
    if code == 0 then true
    else 65 ≤ code % 256 && code % 256 ≤ 90 && Symbol.validFrom n (code / 256)

/-- One to seven upper-case letters, the first in the lowest byte. -/
def Symbol.isValid (s : Symbol) : Bool := s.code != 0 && Symbol.validFrom 7 s.code.toNat

/-- `REX` with four decimals. -/
def rexSymbol : Symbol := ⟨0x584552, 4⟩

structure Asset where
  amount : ℤ
  symbol : Symbol
  deriving DecidableEq, Repr

/-- `asset::max_amount`. -/
def maxAmount : ℤ := 2 ^ 62 - 1

def Asset.isValid (a : Asset) : Bool :=
  decide (-maxAmount ≤ a.amount ∧ a.amount ≤ maxAmount) && a.symbol.isValid

/-- 32 bytes, the most significant one first. -/
abbrev Checksum256 := List.Vector UInt8 32

abbrev Checksum160 := List.Vector UInt8 20

def secondsPerHour : ℕ := 3600
def secondsPerDay : ℕ := 24 * 3600
def usecondsPerDay : ℕ := secondsPerDay * 1000000
def blocksPerDay : ℕ := 2 * secondsPerDay

/-- `time_point_sec::maximum()`. -/
def timeMax : ℕ := 2 ^ 32 - 1

def subSec (a b : ℕ) : ℕ := (a + 2 ^ 32 - b) % 2 ^ 32

def addSec (a b : ℕ) : ℕ := (a + b) % 2 ^ 32

lemma subSec_of_le {a b : ℕ} (h : b ≤ a) (ha : a < 2 ^ 32) : subSec a b = a - b := by
  unfold subSec
  rw [show a + 2 ^ 32 - b = a - b + 2 ^ 32 by omega, Nat.add_mod_right]
  exact Nat.mod_eq_of_lt (by omega)

lemma addSec_of_lt {a b : ℕ} (h : a + b < 2 ^ 32) : addSec a b = a + b := Nat.mod_eq_of_lt h

/-- The value a 64-bit signed register holds after a wrapping operation. -/
def wrapInt64 (x : ℤ) : ℤ := (x + 2 ^ 63) % 2 ^ 64 - 2 ^ 63

lemma wrapInt64_of_lt {x : ℤ} (h0 : -2 ^ 63 ≤ x) (h : x < 2 ^ 63) : wrapInt64 x = x := by
  unfold wrapInt64
  omega

/-- A block time: half-second slots since the year 2000, as a 32-bit count. -/
structure BlockTimestamp where
  slot : ℕ
  slot_lt : slot < 2 ^ 32
  deriving DecidableEq

namespace BlockTimestamp

def zero : BlockTimestamp := ⟨0, by decide⟩

def ofSlot (slot : ℕ) : BlockTimestamp := ⟨slot % 2 ^ 32, Nat.mod_lt _ (Nat.two_pow_pos 32)⟩

instance : Preorder BlockTimestamp := Preorder.lift slot

lemma le_def {a b : BlockTimestamp} : a ≤ b ↔ a.slot ≤ b.slot := Iff.rfl

/-- Microseconds since the Unix epoch, the value of `current_time_point()`. -/
def usec (t : BlockTimestamp) : ℕ := (t.slot * 500 + 946684800000) * 1000

/-- The same time in seconds. -/
def sec (t : BlockTimestamp) : ℕ := t.usec / 1000000

lemma sec_mono {a b : BlockTimestamp} (h : a ≤ b) : a.sec ≤ b.sec := by
  unfold sec usec
  rw [le_def] at h
  omega

lemma usec_mono {a b : BlockTimestamp} (h : a ≤ b) : a.usec ≤ b.usec := by
  unfold usec
  rw [le_def] at h
  omega

/-- Block times lie far inside the range of `time_point_sec`. -/
lemma sec_range (t : BlockTimestamp) : 946684800 ≤ t.sec ∧ t.sec ≤ 3094168447 := by
  have := t.slot_lt
  unfold sec usec
  omega

end BlockTimestamp

/-- The block time and the accounts whose authority the action carries. -/
structure Context where
  now : BlockTimestamp
  auth : List Name

def requireAuth (ctx : Context) (n : Name) : Except String Unit :=
  check (n ∈ ctx.auth) "missing required authority"

end TelosSystem
