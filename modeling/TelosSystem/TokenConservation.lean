import TelosSystem.Token

/-! Conservation of the token. Whatever actions are sent with whatever arguments and
authorisations, the supply of a symbol code is the sum of the balances kept under it. -/
namespace TelosSystem
open Ledger

inductive TokenAction
  | create (issuer : Name) (maximumSupply : Asset)
  | issue (dest : Name) (quantity : Asset) (memoSize : ℕ)
  | retire (quantity : Asset) (memoSize : ℕ)
  | transfer (source dest : Name) (quantity : Asset) (memoSize : ℕ)
  | open_ (owner : Name) (symbol : Symbol) (ramPayer : Name)
  | close (owner : Name) (symbol : Symbol)

/-- The account and the amount that `add_balance` is called with. -/
def TokenAction.added : TokenAction → Option (Name × Asset)
  | .issue dest quantity _ => some (dest, quantity)
  | .transfer _ dest quantity _ => some (dest, quantity)
  | _ => none

namespace Token

def empty : Token := ⟨∅, ∅⟩

def exec (self : Name) (isAccount : Name → Bool) (auth : List Name) (t : Token) :
    TokenAction → Except String Token
  | .create issuer maximumSupply => create self auth issuer maximumSupply t
  | .issue dest quantity memoSize => issue auth dest quantity memoSize t
  | .retire quantity memoSize => retire auth quantity memoSize t
  | .transfer source dest quantity memoSize =>
    transfer isAccount auth source dest quantity memoSize t
  | .open_ owner symbol ramPayer => open_ isAccount auth owner symbol ramPayer t
  | .close owner symbol => close auth owner symbol t

def Step (self : Name) (t t' : Token) : Prop :=
  ∃ isAccount auth a, exec self isAccount auth t a = .ok t'

def Reachable (self : Name) (t : Token) : Prop := Relation.ReflTransGen (Step self) empty t

def supply (t : Token) (code : UInt64) : ℤ := t.stats.valueAt (fun _ st => st.supply.amount) code

def circulating (t : Token) (code : UInt64) : ℤ :=
  t.accounts.total fun k held => if k.2 = code then held.amount else 0

/-- Stat rows stand under their own code and in range; balances are non-negative and carry
the symbol of a stat row. -/
structure Rows (t : Token) : Prop where
  stats : ∀ code st, t.stats.lookup code = some st →
    st.supply.symbol.code = code ∧ st.supply.amount ≤ st.maxSupply.amount ∧
    st.maxSupply.amount ≤ maxAmount
  accounts : ∀ k held, t.accounts.lookup k = some held →
    0 ≤ held.amount ∧ ∃ st, t.stats.lookup k.2 = some st ∧ held.symbol = st.supply.symbol

structure Conserved (t : Token) : Prop extends Rows t where
  backed : ∀ code, t.supply code = t.circulating code

lemma supply_setAccount (t : Token) (owner : Name) (code c : UInt64) (held : Asset) :
    (t.setAccount owner code held).supply c = t.supply c := rfl

lemma circulating_setStats (t : Token) (code c : UInt64) (st : CurrencyStats) :
    (t.setStats code st).circulating c = t.circulating c := rfl

lemma supply_setStats (t : Token) (code c : UInt64) (st : CurrencyStats) :
    (t.setStats code st).supply c = if c = code then st.supply.amount else t.supply c := by
  simp only [supply, setStats, Table.valueAt, Table.lookup_insert']
  split_ifs <;> rfl

lemma circulating_setAccount (t : Token) (owner : Name) (code c : UInt64) (held : Asset) :
    (t.setAccount owner code held).circulating c =
      t.circulating c + if c = code then held.amount - t.balance owner code else 0 := by
  simp only [circulating, setAccount, balance]
  rw [Table.total_insert]
  by_cases hc : c = code
  · subst hc
    cases hl : t.accounts.lookup (owner, c) with
    | none =>
      rw [Table.valueAt_none hl, Table.valueAt_none hl]
      simp
    | some old =>
      rw [Table.valueAt_some hl, Table.valueAt_some hl]
      simp
      ring
  · have hne : ¬ code = c := fun h => hc h.symm
    cases hl : t.accounts.lookup (owner, code) with
    | none => simp [Table.valueAt_none hl, hc, hne]
    | some old => simp [Table.valueAt_some hl, hc, hne]

lemma Rows.setAccount {t : Token} (h : Rows t) {owner : Name} {code : UInt64} {held : Asset}
    {st : CurrencyStats} (hst : t.stats.lookup code = some st) (hs : held.symbol = st.supply.symbol)
    (h0 : 0 ≤ held.amount) : Rows (t.setAccount owner code held) where
  stats := h.stats
  accounts := Table.forall_insert h.accounts ⟨h0, st, hst, hs⟩

/-- A stat row is written under its own code with the symbol it had. -/
lemma Rows.setStats {t : Token} (h : Rows t) {code : UInt64} {st : CurrencyStats}
    (hc : st.supply.symbol.code = code) (hle : st.supply.amount ≤ st.maxSupply.amount)
    (hmax : st.maxSupply.amount ≤ maxAmount)
    (hsame : ∀ old, t.stats.lookup code = some old → st.supply.symbol = old.supply.symbol) :
    Rows (t.setStats code st) where
  stats := Table.forall_insert h.stats ⟨hc, hle, hmax⟩
  accounts := by
    intro k held hk
    obtain ⟨h0, old, hold, hs⟩ := h.accounts k held hk
    refine ⟨h0, ?_⟩
    by_cases hkc : k.2 = code
    · subst hkc
      exact ⟨st, AList.lookup_insert _, hs.trans (hsame old hold).symm⟩
    · exact ⟨old, by rw [Token.setStats, AList.lookup_insert_ne hkc, hold], hs⟩

lemma Rows.subBalance {t t' : Token} (h : Rows t) {owner : Name} {value : Asset}
    (hsub : subBalance owner value t = .ok t') :
    Rows t' ∧ t'.stats = t.stats ∧ ∀ c, t'.circulating c =
      t.circulating c - if c = value.symbol.code then value.amount else 0 := by
  simp only [Token.subBalance, bind_ok, require_ok, check_ok, exists_const, pure_ok] at hsub
  obtain ⟨held, hl, hle, -, rfl⟩ := hsub
  obtain ⟨-, st, hst, hs⟩ := h.accounts _ held hl
  refine ⟨h.setAccount hst hs (sub_nonneg.mpr hle), rfl, fun c => ?_⟩
  rw [circulating_setAccount, balance, Table.valueAt_some hl]
  split_ifs
  · ring
  · ring

lemma Rows.addBalance {t t' : Token} (h : Rows t) {owner : Name} {value : Asset}
    {st : CurrencyStats} (hst : t.stats.lookup value.symbol.code = some st)
    (hs : value.symbol = st.supply.symbol) (h0 : 0 ≤ value.amount)
    (hadd : addBalance owner value t = .ok t') :
    Rows t' ∧ t'.stats = t.stats ∧ ∀ c, t'.circulating c =
      t.circulating c + if c = value.symbol.code then value.amount else 0 := by
  unfold Token.addBalance at hadd
  cases hl : t.accounts.lookup (owner, value.symbol.code) with
  | none =>
    rw [hl] at hadd
    cases hadd
    refine ⟨h.setAccount hst hs h0, rfl, fun c => ?_⟩
    rw [circulating_setAccount, balance, Table.valueAt_none hl, sub_zero]
  | some held =>
    rw [hl] at hadd
    simp only [bind_ok, check_ok, exists_const, pure_ok] at hadd
    obtain ⟨hsym, rfl⟩ := hadd
    refine ⟨h.setAccount hst (hsym.trans hs) (add_nonneg (h.accounts _ held hl).1 h0),
      rfl, fun c => ?_⟩
    rw [circulating_setAccount, balance, Table.valueAt_some hl]
    split_ifs <;> simp

lemma Conserved.create {t t' : Token} (h : Conserved t) {self : Name} {auth : List Name}
    {issuer : Name} {maximumSupply : Asset}
    (hc : create self auth issuer maximumSupply t = .ok t') : Conserved t' := by
  simp only [Token.create, bind_ok, check_ok, exists_const, pure_ok] at hc
  obtain ⟨-, hvalid, hpos, hnone, rfl⟩ := hc
  have hmax : maximumSupply.amount ≤ maxAmount := by
    simp only [Asset.isValid, Bool.and_eq_true, decide_eq_true_eq] at hvalid
    exact hvalid.1.2
  refine ⟨h.toRows.setStats rfl hpos.le hmax fun old hold => ?_, fun c => ?_⟩
  · rw [hnone] at hold
    cases hold
  · rw [supply_setStats, circulating_setStats, ← h.backed]
    split_ifs with he
    · subst he
      rw [supply, Table.valueAt_none hnone]
    · rfl

lemma Conserved.issue {t t' : Token} (h : Conserved t) {auth : List Name} {dest : Name}
    {quantity : Asset} {memoSize : ℕ} (hi : issue auth dest quantity memoSize t = .ok t') :
    Conserved t' := by
  simp only [Token.issue, bind_ok, check_ok, require_ok, exists_const] at hi
  obtain ⟨-, -, st, hst, -, -, -, hpos, hsym, hle, hadd⟩ := hi
  obtain ⟨hcode, -, hmax⟩ := h.stats _ st hst
  have hr : Rows (t.setStats quantity.symbol.code
      { st with supply := { st.supply with amount := st.supply.amount + quantity.amount } }) := by
    refine h.toRows.setStats hcode (by dsimp only; omega) hmax fun old hold => ?_
    rw [hst] at hold
    cases hold
    rfl
  obtain ⟨hr', hstats, hcirc⟩ := hr.addBalance (AList.lookup_insert _) hsym hpos.le hadd
  refine ⟨hr', fun c => ?_⟩
  rw [hcirc, circulating_setStats, ← h.backed, supply, hstats]
  change (t.setStats _ _).supply c = _
  rw [supply_setStats]
  split_ifs with he
  · subst he
    rw [supply, Table.valueAt_some hst]
  · simp

lemma Conserved.retire {t t' : Token} (h : Conserved t) {auth : List Name} {quantity : Asset}
    {memoSize : ℕ} (hi : retire auth quantity memoSize t = .ok t') : Conserved t' := by
  simp only [Token.retire, bind_ok, check_ok, require_ok, exists_const] at hi
  obtain ⟨-, -, st, hst, -, -, hpos, -, hsub⟩ := hi
  obtain ⟨hcode, hle, hmax⟩ := h.stats _ st hst
  have hr : Rows (t.setStats quantity.symbol.code
      { st with supply := { st.supply with amount := st.supply.amount - quantity.amount } }) := by
    refine h.toRows.setStats hcode (by dsimp only; omega) hmax fun old hold => ?_
    rw [hst] at hold
    cases hold
    rfl
  obtain ⟨hr', hstats, hcirc⟩ := hr.subBalance hsub
  refine ⟨hr', fun c => ?_⟩
  rw [hcirc, circulating_setStats, ← h.backed, supply, hstats]
  change (t.setStats _ _).supply c = _
  rw [supply_setStats]
  split_ifs with he
  · subst he
    rw [supply, Table.valueAt_some hst]
  · simp

lemma Conserved.transfer {t t' : Token} (h : Conserved t) {isAccount : Name → Bool}
    {auth : List Name} {source dest : Name} {quantity : Asset} {memoSize : ℕ}
    (ht : transfer isAccount auth source dest quantity memoSize t = .ok t') : Conserved t' := by
  simp only [Token.transfer, bind_ok, check_ok, require_ok, exists_const] at ht
  obtain ⟨-, -, -, st, hst, -, hpos, hsym, -, t₁, hsub, hadd⟩ := ht
  obtain ⟨hr₁, hs₁, hc₁⟩ := h.toRows.subBalance hsub
  rw [← hs₁] at hst
  obtain ⟨hr₂, hs₂, hc₂⟩ := hr₁.addBalance hst hsym hpos.le hadd
  refine ⟨hr₂, fun c => ?_⟩
  rw [hc₂, hc₁, sub_add_cancel, ← h.backed, supply, supply, hs₂, hs₁]

lemma Conserved.open_ {t t' : Token} (h : Conserved t) {isAccount : Name → Bool} {auth : List Name}
    {owner : Name} {symbol : Symbol} {ramPayer : Name}
    (ho : open_ isAccount auth owner symbol ramPayer t = .ok t') : Conserved t' := by
  simp only [Token.open_, bind_ok, check_ok, require_ok, exists_const] at ho
  obtain ⟨-, -, st, hst, hsym, ho⟩ := ho
  cases hl : t.accounts.lookup (owner, symbol.code) with
  | none =>
    rw [hl] at ho
    cases ho
    refine ⟨h.toRows.setAccount hst hsym.symm le_rfl, fun c => ?_⟩
    rw [circulating_setAccount, supply_setAccount, h.backed, balance, Table.valueAt_none hl]
    simp
  | some held =>
    rw [hl] at ho
    cases ho
    exact h

lemma Conserved.close {t t' : Token} (h : Conserved t) {auth : List Name} {owner : Name}
    {symbol : Symbol} (hc : close auth owner symbol t = .ok t') : Conserved t' := by
  simp only [Token.close, bind_ok, check_ok, require_ok, exists_const, pure_ok] at hc
  obtain ⟨-, held, hl, h0, rfl⟩ := hc
  refine ⟨⟨h.stats, Table.forall_erase h.accounts⟩, fun c => ?_⟩
  have hb := h.backed c
  rw [circulating, Table.total_erase, Table.valueAt_some hl]
  rw [h0, ite_self, sub_zero]
  exact hb

/-- Every successful action keeps the token conserved. -/
lemma Conserved.exec {t t' : Token} (h : Conserved t) {self : Name} {isAccount : Name → Bool}
    {auth : List Name} {a : TokenAction} (he : exec self isAccount auth t a = .ok t') :
    Conserved t' := by
  cases a with
  | create issuer maximumSupply => exact h.create he
  | issue dest quantity memoSize => exact h.issue he
  | retire quantity memoSize => exact h.retire he
  | transfer source dest quantity memoSize => exact h.transfer he
  | open_ owner symbol ramPayer => exact h.open_ he
  | close owner symbol => exact h.close he

lemma empty_conserved : Conserved empty where
  stats _ _ h := by cases h
  accounts _ _ h := by cases h
  backed _ := rfl

lemma Reachable.conserved {self : Name} {t : Token} (h : Reachable self t) : Conserved t := by
  induction h with
  | refl => exact empty_conserved
  | tail prior next ih =>
    obtain ⟨isAccount, auth, a, he⟩ := next
    exact ih.exec he

lemma Rows.row_nonneg {t : Token} (h : Rows t) (code : UInt64) (k : Name × UInt64) (held : Asset)
    (hk : t.accounts.lookup k = some held) : 0 ≤ if k.2 = code then held.amount else 0 := by
  split_ifs
  · exact (h.accounts k held hk).1
  · exact le_rfl

lemma Rows.circulating_nonneg {t : Token} (h : Rows t) (code : UInt64) : 0 ≤ t.circulating code :=
  Table.total_nonneg (h.row_nonneg code)

/-- A balance is a part of the supply. -/
lemma Conserved.balance_le {t : Token} (h : Conserved t) (owner : Name) (code : UInt64) :
    t.balance owner code ≤ t.supply code := by
  rw [h.backed, balance]
  cases hl : t.accounts.lookup (owner, code) with
  | none =>
    rw [Table.valueAt_none hl]
    exact h.circulating_nonneg code
  | some held =>
    rw [Table.valueAt_some hl]
    have hle := Table.le_total (h.row_nonneg code) hl
    rw [if_pos rfl] at hle
    exact hle

lemma Conserved.supply_le {t : Token} (h : Conserved t) (code : UInt64) :
    t.supply code ≤ maxAmount := by
  rw [supply]
  cases hl : t.stats.lookup code with
  | none =>
    rw [Table.valueAt_none hl]
    decide
  | some st =>
    rw [Table.valueAt_some hl]
    exact (h.stats code st hl).2.1.trans (h.stats code st hl).2.2

/-- What is added to a balance is on the balance afterwards, as the exact sum. -/
lemma exec_added {self : Name} {isAccount : Name → Bool} {auth : List Name} {t t' : Token}
    {a : TokenAction} {owner : Name} {quantity : Asset} (he : exec self isAccount auth t a = .ok t')
    (ha : a.added = some (owner, quantity)) :
    t'.balance owner quantity.symbol.code = t.balance owner quantity.symbol.code +
      quantity.amount := by
  cases a with
  | create issuer maximumSupply => cases ha
  | issue dest q memoSize =>
    cases ha
    simp only [exec, Token.issue, bind_ok, check_ok, require_ok, exists_const] at he
    obtain ⟨-, -, st, hst, rfl, -, -, -, -, -, hadd⟩ := he
    rw [addBalance_spec hadd, if_pos ⟨rfl, rfl⟩]
    rfl
  | retire q memoSize => cases ha
  | transfer source dest q memoSize =>
    cases ha
    obtain ⟨hne, -, hb⟩ := transfer_spec he
    rw [hb, if_pos rfl, if_pos rfl, if_neg hne.symm, sub_zero]
  | open_ o symbol ramPayer => cases ha
  | close o symbol => cases ha

/-- In every run of the token contract the supply of a code is the sum of its balances, the
supply stays in the range of its stat row, balances are non-negative with the symbol of the
stat row, and no action adds beyond the range of an asset. -/
theorem token_conservation {self : Name} {t : Token} (h : Reachable self t) (code : UInt64) :
    t.supply code = t.circulating code ∧
    (∀ st, t.stats.lookup code = some st → st.supply.symbol.code = code ∧
      0 ≤ st.supply.amount ∧ st.supply.amount ≤ st.maxSupply.amount ∧
      st.maxSupply.amount ≤ 2 ^ 62 - 1) ∧
    (∀ owner held, t.accounts.lookup (owner, code) = some held →
      0 ≤ held.amount ∧ ∃ st, t.stats.lookup code = some st ∧ held.symbol = st.supply.symbol) ∧
    ∀ isAccount auth a t' owner quantity, exec self isAccount auth t a = .ok t' →
      a.added = some (owner, quantity) →
        t.balance owner quantity.symbol.code + quantity.amount ≤ 2 ^ 62 - 1 := by
  have hc := h.conserved
  refine ⟨hc.backed code, fun st hst => ?_, fun owner held hl => hc.accounts _ held hl, ?_⟩
  · obtain ⟨hcode, hle, hmax⟩ := hc.stats code st hst
    have hs : st.supply.amount = t.circulating code := by
      rw [← hc.backed, supply, Table.valueAt_some hst]
    exact ⟨hcode, hs ▸ hc.circulating_nonneg code, hle, hmax⟩
  · intro isAccount auth a t' owner quantity he ha
    have hc' := hc.exec he
    rw [← exec_added he ha]
    exact (hc'.balance_le _ _).trans (hc'.supply_le _)

/-- Ten units created and issued, four of them transferred to an account without a row. -/
def sampleRun : List (Name × TokenAction) :=
  [(systemAccount, .create rexAccount ⟨10, rexSymbol⟩),
    (rexAccount, .issue rexAccount ⟨10, rexSymbol⟩ 0),
    (rexAccount, .transfer rexAccount ramAccount ⟨4, rexSymbol⟩ 0)]

def sample : Token :=
  (sampleRun.foldlM (fun t x => exec systemAccount (fun _ => true) [x.1] t x.2) empty).toOption.getD
    empty

lemma foldlM_reachable {self : Name} {isAccount : Name → Bool} {l : List (Name × TokenAction)}
    {t t' : Token} (h : Reachable self t)
    (hl : l.foldlM (fun t x => exec self isAccount [x.1] t x.2) t = .ok t') :
    Reachable self t' := by
  induction l generalizing t with
  | nil =>
    cases hl
    exact h
  | cons x l ih =>
    rw [List.foldlM_cons, bind_ok] at hl
    obtain ⟨t₁, he, hl⟩ := hl
    exact ih (h.tail ⟨isAccount, [x.1], x.2, he⟩) hl

lemma sample_reachable : Reachable systemAccount sample := by
  have hrun : sampleRun.foldlM (fun t x => exec systemAccount (fun _ => true) [x.1] t x.2) empty =
    .ok sample := rfl
  exact foldlM_reachable Relation.ReflTransGen.refl hrun

theorem sample_conservation : sample.balance ramAccount rexSymbol.code = 4 ∧
    sample.supply rexSymbol.code = sample.circulating rexSymbol.code :=
  ⟨rfl, (token_conservation sample_reachable rexSymbol.code).1⟩

end Token
end TelosSystem
