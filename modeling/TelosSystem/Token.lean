import TelosSystem.Chain

/-! The `eosio.token` contract. Balances are rows under the owner and the symbol code, as
in the scoped `accounts` table; `isAccount` is the chain's account predicate. -/
namespace TelosSystem
open Ledger

structure CurrencyStats where
  supply : Asset
  maxSupply : Asset
  issuer : Name

structure Token where
  stats : Table UInt64 CurrencyStats
  accounts : Table (Name × UInt64) Asset

namespace Token

def setAccount (t : Token) (owner : Name) (code : UInt64) (held : Asset) : Token :=
  { t with accounts := t.accounts.insert (owner, code) held }

def setStats (t : Token) (code : UInt64) (st : CurrencyStats) : Token :=
  { t with stats := t.stats.insert code st }

def balance (t : Token) (owner : Name) (code : UInt64) : ℤ :=
  t.accounts.valueAt (fun _ a => a.amount) (owner, code)

def subBalance (owner : Name) (value : Asset) (t : Token) : Except String Token := do
  let held ← require (t.accounts.lookup (owner, value.symbol.code)) "no balance object found"
  check (value.amount ≤ held.amount) "overdrawn balance"
  check (held.symbol = value.symbol) "attempt to subtract asset with different symbol"
  pure (t.setAccount owner value.symbol.code { held with amount := held.amount - value.amount })

def addBalance (owner : Name) (value : Asset) (t : Token) : Except String Token :=
  match t.accounts.lookup (owner, value.symbol.code) with
  | none => .ok (t.setAccount owner value.symbol.code value)
  | some held => do
    check (held.symbol = value.symbol) "attempt to add asset with different symbol"
    pure (t.setAccount owner value.symbol.code { held with amount := held.amount + value.amount })

def create (self : Name) (auth : List Name) (issuer : Name) (maximumSupply : Asset) (t : Token) :
    Except String Token := do
  check (self ∈ auth) "missing required authority"
  check maximumSupply.isValid "invalid supply"
  check (0 < maximumSupply.amount) "max-supply must be positive"
  check (t.stats.lookup maximumSupply.symbol.code = none) "token with symbol already exists"
  pure (t.setStats maximumSupply.symbol.code ⟨⟨0, maximumSupply.symbol⟩, maximumSupply, issuer⟩)

def issue (auth : List Name) (dest : Name) (quantity : Asset) (memoSize : ℕ) (t : Token) :
    Except String Token := do
  check quantity.symbol.isValid "invalid symbol name"
  check (memoSize ≤ 256) "memo has more than 256 bytes"
  let st ← require (t.stats.lookup quantity.symbol.code)
    "token with symbol does not exist, create token before issue"
  check (dest = st.issuer) "tokens can only be issued to issuer account"
  check (st.issuer ∈ auth) "missing required authority"
  check quantity.isValid "invalid quantity"
  check (0 < quantity.amount) "must issue positive quantity"
  check (quantity.symbol = st.supply.symbol) "symbol precision mismatch"
  check (quantity.amount ≤ st.maxSupply.amount - st.supply.amount)
    "quantity exceeds available supply"
  addBalance st.issuer quantity (t.setStats quantity.symbol.code
    { st with supply := { st.supply with amount := st.supply.amount + quantity.amount } })

def retire (auth : List Name) (quantity : Asset) (memoSize : ℕ) (t : Token) :
    Except String Token := do
  check quantity.symbol.isValid "invalid symbol name"
  check (memoSize ≤ 256) "memo has more than 256 bytes"
  let st ← require (t.stats.lookup quantity.symbol.code) "token with symbol does not exist"
  check (st.issuer ∈ auth) "missing required authority"
  check quantity.isValid "invalid quantity"
  check (0 < quantity.amount) "must retire positive quantity"
  check (quantity.symbol = st.supply.symbol) "symbol precision mismatch"
  subBalance st.issuer quantity (t.setStats quantity.symbol.code
    { st with supply := { st.supply with amount := st.supply.amount - quantity.amount } })

def transfer (isAccount : Name → Bool) (auth : List Name) (source dest : Name) (quantity : Asset)
    (memoSize : ℕ) (t : Token) : Except String Token := do
  check (source ≠ dest) "cannot transfer to self"
  check (source ∈ auth) "missing required authority"
  check (isAccount dest) "to account does not exist"
  let st ← require (t.stats.lookup quantity.symbol.code) "unable to find key"
  check quantity.isValid "invalid quantity"
  check (0 < quantity.amount) "must transfer positive quantity"
  check (quantity.symbol = st.supply.symbol) "symbol precision mismatch"
  check (memoSize ≤ 256) "memo has more than 256 bytes"
  let t ← subBalance source quantity t
  addBalance dest quantity t

def open_ (isAccount : Name → Bool) (auth : List Name) (owner : Name) (symbol : Symbol)
    (ramPayer : Name) (t : Token) : Except String Token := do
  check (ramPayer ∈ auth) "missing required authority"
  check (isAccount owner) "owner account does not exist"
  let st ← require (t.stats.lookup symbol.code) "symbol does not exist"
  check (st.supply.symbol = symbol) "symbol precision mismatch"
  match t.accounts.lookup (owner, symbol.code) with
  | none => pure (t.setAccount owner symbol.code ⟨0, symbol⟩)
  | some _ => pure t

def close (auth : List Name) (owner : Name) (symbol : Symbol) (t : Token) :
    Except String Token := do
  check (owner ∈ auth) "missing required authority"
  let held ← require (t.accounts.lookup (owner, symbol.code))
    "Balance row already deleted or never existed. Action won't have any effect."
  check (held.amount = 0) "Cannot close because the balance is not zero."
  pure { t with accounts := t.accounts.erase (owner, symbol.code) }

lemma subBalance_spec {owner : Name} {value : Asset} {t t' : Token}
    (h : subBalance owner value t = .ok t') (a : Name) (c : UInt64) :
    value.amount ≤ t.balance owner value.symbol.code ∧
      t'.balance a c = t.balance a c -
        (if a = owner ∧ c = value.symbol.code then value.amount else 0) := by
  simp only [subBalance, bind_ok, require_ok, check_ok, exists_const, pure_ok] at h
  obtain ⟨held, hl, ho, -, rfl⟩ := h
  refine ⟨by rw [balance, Table.valueAt_some hl]; exact ho, ?_⟩
  by_cases hk : (a, c) = (owner, value.symbol.code)
  · cases hk
    simp [balance, setAccount, Table.valueAt, hl]
  · have hne : ¬ (a = owner ∧ c = value.symbol.code) := by simpa [Prod.ext_iff] using hk
    simp [balance, setAccount, Table.valueAt, AList.lookup_insert_ne hk, hne]

lemma addBalance_spec {owner : Name} {value : Asset} {t t' : Token}
    (h : addBalance owner value t = .ok t') (a : Name) (c : UInt64) :
    t'.balance a c = t.balance a c +
      (if a = owner ∧ c = value.symbol.code then value.amount else 0) := by
  unfold addBalance at h
  by_cases hk : (a, c) = (owner, value.symbol.code)
  · cases hk
    split at h
    · cases h
      simp_all [balance, setAccount, Table.valueAt]
    · simp only [bind_ok, check_ok, exists_const, pure_ok] at h
      obtain ⟨-, rfl⟩ := h
      simp_all [balance, setAccount, Table.valueAt]
  · have hne : ¬ (a = owner ∧ c = value.symbol.code) := by simpa [Prod.ext_iff] using hk
    split at h
    · cases h
      simp [balance, setAccount, Table.valueAt, AList.lookup_insert_ne hk, hne]
    · simp only [bind_ok, check_ok, exists_const, pure_ok] at h
      obtain ⟨-, rfl⟩ := h
      simp [balance, setAccount, Table.valueAt, AList.lookup_insert_ne hk, hne]

/-- A transfer moves a positive amount between two different accounts and nothing else. -/
theorem transfer_spec {isAccount : Name → Bool} {auth : List Name} {source dest : Name}
    {quantity : Asset} {memoSize : ℕ} {t t' : Token}
    (h : transfer isAccount auth source dest quantity memoSize t = .ok t') :
    source ≠ dest ∧ 0 < quantity.amount ∧ ∀ a c, t'.balance a c = t.balance a c +
      (if c = quantity.symbol.code then
        (if a = dest then quantity.amount else 0) - (if a = source then quantity.amount else 0)
      else 0) := by
  simp only [transfer, bind_ok, require_ok, check_ok, exists_const] at h
  obtain ⟨hne, -, -, st, -, -, hpos, -, -, t₁, h₁, h₂⟩ := h
  refine ⟨hne, hpos, fun a c => ?_⟩
  rw [addBalance_spec h₂ a c, (subBalance_spec h₁ a c).2]
  by_cases hc : c = quantity.symbol.code
  · simp only [hc, and_true, if_true]
    ring
  · simp [hc]

end Token
end TelosSystem
