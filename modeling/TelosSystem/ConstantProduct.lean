import Mathlib

/-! A market between two reserves with the constant-product price, rounded down against the
trader. The supply is the largest value the base reserve can have; it may only grow. -/
namespace Ledger

/-- What a market with the given reserves pays out for an amount paid in. -/
def productOutput (inReserve outReserve amount : ℤ) : ℤ :=
  amount * outReserve / (inReserve + amount)

section
variable {x y n : ℤ}

lemma productOutput_nonneg (hx : 0 ≤ x) (hy : 0 ≤ y) (hn : 0 < n) : 0 ≤ productOutput x y n :=
  Int.ediv_nonneg (by positivity) (by omega)

/-- The rounded price never exceeds the exact one. -/
lemma productOutput_mul_le (hx : 0 ≤ x) (hn : 0 < n) : productOutput x y n * (x + n) ≤ n * y :=
  Int.ediv_mul_le _ (by omega)

lemma productOutput_le (hx : 0 ≤ x) (hy : 0 ≤ y) (hn : 0 < n) : productOutput x y n ≤ y := by
  have h := productOutput_mul_le (y := y) hx hn
  have hxy : 0 ≤ x * y := mul_nonneg hx hy
  nlinarith

/-- The product of the reserves does not fall in a trade. -/
lemma product_le_trade (hx : 0 ≤ x) (hn : 0 < n) : x * y ≤ (x + n) * (y - productOutput x y n) := by
  have h := productOutput_mul_le (y := y) hx hn
  calc x * y = (x + n) * y - n * y := by ring
    _ ≤ (x + n) * y - productOutput x y n * (x + n) := by omega
    _ = (x + n) * (y - productOutput x y n) := by ring

end

structure ProductMarket where
  base : ℤ
  quote : ℤ
  supply : ℤ

namespace ProductMarket

/-- A purchase out of the base reserve or a sale back into it, of no more than was bought. -/
inductive Trade : ProductMarket → ProductMarket → Prop
  | buy {m : ProductMarket} {n : ℤ} (positive : 0 < n) :
      Trade m { m with base := m.base - productOutput m.quote m.base n, quote := m.quote + n }
  | sell {m : ProductMarket} {n : ℤ} (positive : 0 < n) (bought : m.base + n ≤ m.supply) :
      Trade m { m with base := m.base + n, quote := m.quote - productOutput m.base m.quote n }

inductive Step : ProductMarket → ProductMarket → Prop
  | trade {m m' : ProductMarket} (h : Trade m m') : Step m m'
  | grow {m : ProductMarket} {n : ℤ} (nonneg : 0 ≤ n) :
      Step m { m with base := m.base + n, supply := m.supply + n }

/-- The reserves are worth at least the whole supply against the first quote. -/
structure Backed (quote₀ : ℤ) (m : ProductMarket) : Prop where
  base_nonneg : 0 ≤ m.base
  base_le : m.base ≤ m.supply
  quote₀_le : quote₀ ≤ m.quote
  product : m.supply * quote₀ ≤ m.base * m.quote

variable {m m' : ProductMarket} {q : ℤ}

lemma Trade.supply (h : Trade m m') : m'.supply = m.supply := by cases h <;> rfl

/-- The product is in the market's favour, whichever way the trade goes. -/
lemma Trade.product (h : Trade m m') (hb : 0 ≤ m.base) (hq : 0 ≤ m.quote) :
    m.base * m.quote ≤ m'.base * m'.quote := by
  cases h with
  | @buy n positive =>
    rw [mul_comm m.base, mul_comm (m.base - _)]
    exact product_le_trade hq positive
  | sell positive bought => exact product_le_trade hb positive

theorem Trade.backed (h : Trade m m') (hq : 0 ≤ q) (hm : m.Backed q) : m'.Backed q := by
  have hquote : 0 ≤ m.quote := hq.trans hm.quote₀_le
  have hp : m'.supply * q ≤ m'.base * m'.quote :=
    h.supply ▸ hm.product.trans (h.product hm.base_nonneg hquote)
  cases h with
  | @buy n positive =>
    have h0 := productOutput_nonneg hquote hm.base_nonneg positive
    have h1 := productOutput_le hquote hm.base_nonneg positive
    exact ⟨sub_nonneg.mpr h1, (sub_le_self _ h0).trans hm.base_le, by linarith [hm.quote₀_le], hp⟩
  | @sell n positive bought =>
    have hpos : 0 < m.base + n := by linarith [hm.base_nonneg]
    have hle : (m.base + n) * q ≤ m.supply * q := mul_le_mul_of_nonneg_right bought hq
    exact ⟨hpos.le, bought, le_of_mul_le_mul_left (hle.trans hp) hpos, hp⟩

theorem Step.backed (h : Step m m') (hq : 0 ≤ q) (hm : m.Backed q) : m'.Backed q := by
  cases h with
  | trade h => exact h.backed hq hm
  | @grow n nonneg =>
    refine ⟨by linarith [hm.base_nonneg], by linarith [hm.base_le], hm.quote₀_le, ?_⟩
    calc (m.supply + n) * q = m.supply * q + n * q := by ring
      _ ≤ m.base * m.quote + n * m.quote :=
        add_le_add hm.product (mul_le_mul_of_nonneg_left hm.quote₀_le nonneg)
      _ = (m.base + n) * m.quote := by ring

theorem steps_backed (h : Relation.ReflTransGen Step m m') (hq : 0 ≤ q) (hm : m.Backed q) :
    m'.Backed q := by
  induction h with
  | refl => exact hm
  | tail _ hstep ih => exact hstep.backed hq ih

/-- A market that opens with its whole supply is backed. -/
lemma backed_opening (hs : 0 ≤ m.supply) (h : m.base = m.supply) : m.Backed m.quote :=
  ⟨h ▸ hs, h.le, le_refl _, by rw [h]⟩

/-- No sale can empty a market that opened with something in its quote. -/
lemma Backed.base_pos (hm : m.Backed q) (hq : 0 < q) (hs : 0 < m.supply) : 0 < m.base := by
  have hp : 0 < m.base * m.quote := (mul_pos hs hq).trans_le hm.product
  exact (pos_iff_pos_of_mul_pos hp).mpr (hq.trans_le hm.quote₀_le)

/-- Trades that restore the base reserve leave at least as much in the quote. -/
theorem trades_quote_le (h : Relation.ReflTransGen Trade m m') (hq : 0 ≤ q) (hm : m.Backed q)
    (hb : 0 < m.base) (hsame : m'.base = m.base) : m.quote ≤ m'.quote := by
  have hp : m'.Backed q ∧ m.base * m.quote ≤ m'.base * m'.quote := by
    clear hsame
    induction h with
    | refl => exact ⟨hm, le_refl _⟩
    | tail _ hstep ih =>
      exact ⟨hstep.backed hq ih.1,
        ih.2.trans (hstep.product ih.1.base_nonneg (hq.trans ih.1.quote₀_le))⟩
  rw [hsame] at hp
  exact le_of_mul_le_mul_left hp.2 hb

end ProductMarket
end Ledger
