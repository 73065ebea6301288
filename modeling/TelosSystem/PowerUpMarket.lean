import TelosSystem.PowerUpWeights
import TelosSystem.RexPurchase

/-! The PowerUp market over whole runs: the utilization of a resource is the weight of its
orders and stays within the weight of the market. -/
namespace TelosSystem
open Ledger

namespace PowerupState

def resource (st : PowerupState) : LoanKind → PowerupStateResource
  | .net => st.net
  | .cpu => st.cpu

def available (st : PowerupState) (k : LoanKind) : ℤ :=
  (st.resource k).weight - (st.resource k).utilization

end PowerupState

def orderTotal (k : LoanKind) (t : Table ℕ PowerupOrder) : ℤ :=
  t.total fun _ o => pick k o.netWeight o.cpuWeight

def OrdersNonneg (t : Table ℕ PowerupOrder) : Prop :=
  ∀ id o, t.lookup id = some o → 0 ≤ o.netWeight ∧ 0 ≤ o.cpuWeight

/-- The rows of the market agree with each other. -/
structure MarketInv (now : BlockTimestamp) (p : Powerup) : Prop where
  orders : OrdersNonneg p.orders
  unconfigured : p.state = none → ∀ k, orderTotal k p.orders = 0
  settled : ∀ st, p.state = some st → ∀ k, (st.resource k).Settled now ∧
    (st.resource k).utilization = orderTotal k p.orders

/-- The orders that are left when at most `max` expired ones are gone. -/
def remainingOrders (now : BlockTimestamp) : ℕ → Table ℕ PowerupOrder → Table ℕ PowerupOrder
  | 0, t => t
  | max + 1, t =>
    match (powerupOrdersByExpires t).head? with
    | none => t
    | some (id, o) => if now.sec < o.expires then t else remainingOrders now max (t.erase id)

section
variable {now : BlockTimestamp} {s s' : State}

lemma MarketInv.later {p : Powerup} {later : BlockTimestamp} (h : MarketInv now p)
    (hle : now ≤ later) : MarketInv later p :=
  ⟨h.orders, h.unconfigured, fun st hst k =>
    ⟨(h.settled st hst k).1.later hle, (h.settled st hst k).2⟩⟩

lemma orderTotal_nonneg {t : Table ℕ PowerupOrder} (h : OrdersNonneg t) (k : LoanKind) :
    0 ≤ orderTotal k t := by
  apply Table.total_nonneg
  intro id o ho
  cases k with
  | net => exact (h id o ho).1
  | cpu => exact (h id o ho).2

lemma orderTotal_erase {t : Table ℕ PowerupOrder} {id : ℕ} {o : PowerupOrder}
    (h : t.lookup id = some o) (k : LoanKind) :
    orderTotal k (t.erase id) = orderTotal k t - pick k o.netWeight o.cpuWeight := by
  rw [orderTotal, Table.total_erase, Table.valueAt_some h, orderTotal]

lemma pick_add (k : LoanKind) (a b c d : ℤ) : pick k (a + c) (b + d) = pick k a b + pick k c d := by
  cases k <;> rfl

lemma OrdersNonneg.pick_nonneg {t : Table ℕ PowerupOrder} {id : ℕ} {o : PowerupOrder}
    (h : OrdersNonneg t) (hl : t.lookup id = some o) (k : LoanKind) :
    0 ≤ pick k o.netWeight o.cpuWeight := by
  cases k with
  | net => exact (h id o hl).1
  | cpu => exact (h id o hl).2

lemma remainingOrders_spec {t : Table ℕ PowerupOrder} (h : OrdersNonneg t) (max : ℕ) :
    OrdersNonneg (remainingOrders now max t) ∧
    ∀ k, orderTotal k (remainingOrders now max t) ≤ orderTotal k t := by
  induction max generalizing t with
  | zero => exact ⟨h, fun _ => le_refl _⟩
  | succ max ih =>
    rw [remainingOrders]
    cases hh : (powerupOrdersByExpires t).head? with
    | none => exact ⟨h, fun _ => le_refl _⟩
    | some entry =>
      obtain ⟨id, o⟩ := entry
      have hl : t.lookup id = some o := (Table.mem_indexed _).mp (List.mem_of_mem_head? hh)
      dsimp only
      split_ifs
      · exact ⟨h, fun _ => le_refl _⟩
      · obtain ⟨h1, h2⟩ := ih (Table.forall_erase (k := id) h)
        refine ⟨h1, fun k => ?_⟩
        have hle := h2 k
        rw [orderTotal_erase hl] at hle
        have := h.pick_nonneg hl k
        omega

/-- Expired orders leave the table and nothing else happens in the market. -/
lemma expireOrders_orders {max : ℕ} {net cpu n c : ℤ}
    (h : expireOrders now max net cpu s = .ok (n, c, s')) :
    s'.powerup = { s.powerup with orders := remainingOrders now max s.powerup.orders } := by
  induction max generalizing net cpu s with
  | zero =>
    rw [expireOrders] at h
    cases h
    rfl
  | succ max ih =>
    rw [expireOrders] at h
    rw [remainingOrders]
    cases hh : (powerupOrdersByExpires s.powerup.orders).head? with
    | none =>
      rw [hh] at h
      cases h
      rfl
    | some entry =>
      obtain ⟨id, o⟩ := entry
      rw [hh] at h
      dsimp only at h ⊢
      split_ifs at h ⊢
      · cases h
        rfl
      · rw [bind_ok] at h
        obtain ⟨s₁, h₁, h⟩ := h
        obtain ⟨resources, rfl⟩ := (adjustResources_moved h₁).only
        exact ih h

/-- The weights that expired orders give back, as long as they fit in 64 bits. -/
lemma expireOrders_weights {max : ℕ} {net cpu n c : ℤ} (ho : OrdersNonneg s.powerup.orders)
    (h0 : ∀ k, 0 ≤ pick k net cpu)
    (hfit : ∀ k, pick k net cpu + orderTotal k s.powerup.orders < 2 ^ 63)
    (h : expireOrders now max net cpu s = .ok (n, c, s')) (k : LoanKind) :
    orderTotal k s'.powerup.orders + pick k n c = orderTotal k s.powerup.orders +
      pick k net cpu := by
  induction max generalizing net cpu s with
  | zero =>
    rw [expireOrders] at h
    cases h
    rfl
  | succ max ih =>
    rw [expireOrders] at h
    cases hh : (powerupOrdersByExpires s.powerup.orders).head? with
    | none =>
      rw [hh] at h
      cases h
      rfl
    | some entry =>
      obtain ⟨id, o⟩ := entry
      have hl : s.powerup.orders.lookup id = some o :=
        (Table.mem_indexed _).mp (List.mem_of_mem_head? hh)
      rw [hh] at h
      dsimp only at h
      split_ifs at h
      · cases h
        rfl
      · rw [bind_ok] at h
        obtain ⟨s₁, h₁, h⟩ := h
        obtain ⟨resources, rfl⟩ := (adjustResources_moved h₁).only
        have hrest := orderTotal_nonneg (Table.forall_erase (k := id) ho)
        have hnn := ho.pick_nonneg hl
        -- neither sum leaves 64 bits
        have hsum : ∀ j, pick j net cpu + pick j o.netWeight o.cpuWeight +
            orderTotal j (s.powerup.orders.erase id) < 2 ^ 63 := by
          intro j
          have := hfit j
          rw [orderTotal_erase hl]
          omega
        have hn := hsum .net
        have hc := hsum .cpu
        have hrn := hrest .net
        have hrc := hrest .cpu
        have hpn := h0 .net
        have hpc := h0 .cpu
        have hon := hnn .net
        have hoc := hnn .cpu
        simp only [pick] at hn hc hpn hpc hon hoc
        rw [wrapInt64_of_lt (by omega) (by omega), wrapInt64_of_lt (by omega) (by omega)] at h
        have hnonneg : ∀ j, 0 ≤ pick j (net + o.netWeight) (cpu + o.cpuWeight) := fun j => by
          rw [pick_add]
          exact add_nonneg (h0 j) (hnn j)
        have hfits : ∀ j, pick j (net + o.netWeight) (cpu + o.cpuWeight) +
            orderTotal j (s.powerup.orders.erase id) < 2 ^ 63 := fun j => by
          rw [pick_add]
          exact hsum j
        have hnext := ih (s :=
          { s with resources, powerup := ⟨s.powerup.state, s.powerup.orders.erase id⟩ })
          (Table.forall_erase (k := id) ho) hnonneg hfits h
        simp only [orderTotal_erase hl, pick_add] at hnext
        omega

/-- What has expired was in use. -/
lemma expireOrders_bounds {max : ℕ} {n c : ℤ} (ho : OrdersNonneg s.powerup.orders)
    (hfit : ∀ k, orderTotal k s.powerup.orders < 2 ^ 63)
    (h : expireOrders now max 0 0 s = .ok (n, c, s')) (k : LoanKind) :
    orderTotal k s'.powerup.orders = orderTotal k s.powerup.orders - pick k n c ∧
      0 ≤ pick k n c ∧ pick k n c ≤ orderTotal k s.powerup.orders := by
  have hz : ∀ j, pick j 0 0 = 0 := fun j => by cases j <;> rfl
  have h1 := expireOrders_weights ho (fun j => (hz j).ge)
    (fun j => by rw [hz j, zero_add]; exact hfit j) h k
  obtain ⟨hnn, hle⟩ := @remainingOrders_spec now _ ho max
  have h2 := hle k
  have h3 := orderTotal_nonneg hnn k
  rw [expireOrders_orders h] at h1 ⊢
  dsimp only at h1 ⊢
  rw [hz k] at h1
  omega

lemma MarketInv.total_lt {st : PowerupState} {p : Powerup} (hi : MarketInv now p)
    (hst : p.state = some st) (k : LoanKind) : orderTotal k p.orders < 2 ^ 63 := by
  obtain ⟨hs, hu⟩ := hi.settled st hst k
  have h1 := hs.covered
  have h2 := hs.bounded.weight.2
  omega

end

section
variable [FloatOps] {now : BlockTimestamp} {s s' : State} {st st' : PowerupState}

/-- One resource brought up to date after some of its orders have expired. -/
lemma settled_processed {res r : PowerupStateResource} {delta : ℤ} (h : res.Settled now)
    (hr : res.updateUtilization now = r) (h0 : 0 ≤ delta) (hle : delta ≤ res.utilization) : ∃ res',
      (r.release delta).updateWeight now = .ok (res'.weight - res.weight, res') ∧ res'.Settled now ∧
      res'.utilization = res.utilization - delta ∧ res.weight ≤ res'.weight ∧
      res'.weight = res.weightFor (res.ratioOf now.sec) := by
  obtain ⟨hs, hu, hw⟩ := h.updateUtilization now
  have hlater := PowerupStateResource.weightFor_updateUtilization res now delta now.sec
  rw [hr] at hs hu hw hlater
  rw [← hu] at hle ⊢
  rw [← hw]
  obtain ⟨res', he, hs', hgrow, hutil, hweight⟩ := (hs.release h0 hle).updateWeight
  rw [hs.release_eq h0 hle] at he hgrow hutil
  rw [hs.release_eq h0 hle]
  exact ⟨res', he, hs', hutil, hgrow, hweight.trans hlater⟩

/-- The weights can be brought up to date after the expiry of orders. -/
lemma expired_weight {max : ℕ} {n c : ℤ} (hi : MarketInv now s.powerup)
    (hst : s.powerup.state = some st) (h : expireOrders now max 0 0 s = .ok (n, c, s'))
    (k : LoanKind) : ∃ res',
      (((st.resource k).updateUtilization now).release (pick k n c)).updateWeight now =
          .ok (res'.weight - (st.resource k).weight, res') ∧
      res'.Settled now ∧ res'.utilization = (st.resource k).utilization - pick k n c ∧
        (st.resource k).weight ≤ res'.weight ∧
        res'.weight = (st.resource k).weightFor ((st.resource k).ratioOf now.sec) := by
  obtain ⟨hs, hu⟩ := hi.settled st hst k
  obtain ⟨-, h0, hle⟩ := expireOrders_bounds hi.orders (hi.total_lt hst) h k
  exact settled_processed hs rfl h0 (hu ▸ hle)

/-- A market after its queue has been processed: the weights have grown, and what became
available is handed out. -/
structure Processed (now : BlockTimestamp) (st : PowerupState) (n c : ℤ) (st' : PowerupState)
    (orders : Table ℕ PowerupOrder) : Prop where
  inv : MarketInv now ⟨some st', orders⟩
  weight : ∀ k, (st'.resource k).weight =
    (st.resource k).weightFor ((st.resource k).ratioOf now.sec)
  grown : ∀ k, (st.resource k).weight ≤ (st'.resource k).weight
  freed : ∀ k, st'.available k = st.available k + pick k n c
  fits : ∀ k, 0 ≤ pick k n c ∧ pick k n c < 2 ^ 63

omit [FloatOps] in
/-- What becomes available by expiry and growth fits in 64 bits. -/
lemma freed_fits {res res' : PowerupStateResource} {delta : ℤ} (h : res.Settled now)
    (h' : res'.Settled now) (h0 : 0 ≤ delta) (hle : delta ≤ res.utilization)
    (hgrow : res.weight ≤ res'.weight) :
    wrapInt64 (delta + (res'.weight - res.weight)) = delta + (res'.weight - res.weight) ∧
      0 ≤ delta + (res'.weight - res.weight) ∧ delta + (res'.weight - res.weight) < 2 ^ 63 := by
  have h1 := h.covered
  have h2 := h'.bounded.weight.2
  exact ⟨wrapInt64_of_lt (by omega) (by omega), by omega, by omega⟩

lemma processPowerupQueue_processed {max : ℕ} {n c : ℤ} (hi : MarketInv now s.powerup)
    (hst : s.powerup.state = some st) (h : processPowerupQueue now max st s = .ok (n, c, st', s')) :
    Processed now st n c st' s'.powerup.orders ∧ s'.powerup.state = some st ∧
      s'.powerup.orders = remainingOrders now max s.powerup.orders := by
  simp only [processPowerupQueue, bind_ok, pure_ok, Prod.mk.injEq] at h
  obtain ⟨⟨nd, cd, s₁⟩, h₁, ⟨ng, net⟩, h₂, ⟨cg, cpu⟩, h₃, rfl, rfl, rfl, rfl⟩ := h
  have horders := expireOrders_orders h₁
  have hb := expireOrders_bounds hi.orders (hi.total_lt hst) h₁
  obtain ⟨hsn, hun⟩ := hi.settled st hst .net
  obtain ⟨hsc, huc⟩ := hi.settled st hst .cpu
  obtain ⟨net', hen, hsn', hun', hgn, hwn⟩ := expired_weight hi hst h₁ .net
  obtain ⟨cpu', hec, hsc', huc', hgc, hwc⟩ := expired_weight hi hst h₁ .cpu
  obtain ⟨htn, hn0, hnle⟩ := hb .net
  obtain ⟨htc, hc0, hcle⟩ := hb .cpu
  simp only [PowerupState.resource, pick]
    at hen hec hun' huc' hgn hgc hun huc hsn hsc htn htc hn0 hnle hc0 hcle hwn hwc
  rw [h₂] at hen
  cases hen
  rw [h₃] at hec
  cases hec
  obtain ⟨hfn, hfn0, hfnl⟩ := freed_fits hsn hsn' hn0 (hun ▸ hnle) hgn
  obtain ⟨hfc, hfc0, hfcl⟩ := freed_fits hsc hsc' hc0 (huc ▸ hcle) hgc
  rw [hfn, hfc]
  refine ⟨⟨⟨?_, fun hno => (by cases hno), ?_⟩, ?_, ?_, ?_, ?_⟩, ?_, by rw [horders]⟩
  · rw [horders]
    exact (remainingOrders_spec hi.orders max).1
  · intro st'' hst'' k
    cases hst''
    cases k with
    | net =>
      refine ⟨hsn', ?_⟩
      simp only [PowerupState.resource]
      omega
    | cpu =>
      refine ⟨hsc', ?_⟩
      simp only [PowerupState.resource]
      omega
  · intro k
    cases k
    · exact hwc
    · exact hwn
  · intro k
    cases k
    · exact hgc
    · exact hgn
  · intro k
    cases k <;> simp only [PowerupState.available, PowerupState.resource, pick] <;> omega
  · intro k
    cases k
    · exact ⟨hfc0, hfcl⟩
    · exact ⟨hfn0, hfnl⟩
  · rw [horders]
    exact hst

/-- A purchase of one resource whose utilization stays in 64 bits: the orders that are left
when it is made, and the part that it takes of the weight of that time. -/
def PowerFits (now : BlockTimestamp) (k : LoanKind) (frac : ℤ) (p : Powerup) : Prop :=
  ∀ st ∈ p.state, orderTotal k (remainingOrders now 2 p.orders) +
    (frac * (st.resource k).weightFor ((st.resource k).ratioOf now.sec)).tdiv powerupFrac < 2 ^ 63

instance (now : BlockTimestamp) (k : LoanKind) (frac : ℤ) (p : Powerup) :
    Decidable (PowerFits now k frac p) :=
  inferInstanceAs (Decidable (∀ st ∈ p.state, _))

/-- The purchases that the action makes stay in 64 bits. -/
def PurchaseFits (now : BlockTimestamp) (a : Action) (s : State) : Prop :=
  match a with
  | .powerup _ _ _ netFrac cpuFrac _ =>
    PowerFits now .net netFrac s.powerup ∧ PowerFits now .cpu cpuFrac s.powerup
  | _ => True

omit [FloatOps] in
lemma PurchaseFits.of_not {a : Action} (h : ¬ a.isPowerup) : PurchaseFits now a s := by
  cases a with
  | powerup => exact absurd trivial h
  | _ => trivial

omit [FloatOps] in
lemma nextOrderId_fresh (t : Table ℕ PowerupOrder) : t.lookup (nextOrderId t) = none := by
  have hle : ∀ (l : List ℕ) (a : ℕ), a ≤ l.foldl max a ∧ ∀ x ∈ l, x ≤ l.foldl max a := by
    intro l
    induction l with
    | nil => simp
    | cons y l ih =>
      intro a
      obtain ⟨h1, h2⟩ := ih (max a y)
      refine ⟨le_trans (le_max_left a y) h1, fun x hx => ?_⟩
      rcases List.mem_cons.mp hx with rfl | hx
      · exact le_trans (le_max_right a x) h1
      · exact h2 x hx
  cases h : t.lookup (nextOrderId t) with
  | none => rfl
  | some o =>
    have hmem := Table.mem_entries_iff.mpr h
    have := (hle (t.entries.map fun e => e.1 + 1) 0).2 _ (List.mem_map.mpr ⟨_, hmem, rfl⟩)
    unfold nextOrderId at this
    dsimp only at this
    omega

/-- What a purchase does to the market: a new order takes a part of what is available. -/
structure Reserved (now : BlockTimestamp) (receiver : Name) (st : PowerupState) (n c : ℤ)
    (st' : PowerupState)
    (orders orders' : Table ℕ PowerupOrder) : Prop where
  inv : MarketInv now ⟨some st', orders'⟩
  grown : ∀ k, (st.resource k).weight ≤ (st'.resource k).weight
  fits : ∀ k, 0 ≤ pick k n c ∧ pick k n c < 2 ^ 63
  order : ∃ id expires, orders.lookup id = none ∧
    orders' = orders.insert id ⟨receiver, n, c, expires⟩
  taken : ∀ k, st'.available k = st.available k - pick k n c

/-- A purchase reserves what it pays for. -/
lemma reserve_reserved {receiver : Name} {netFrac cpuFrac netFee cpuFee n c : ℤ} {expires : ℕ}
    {orders : Table ℕ PowerupOrder} {net cpu : PowerupStateResource}
    (hi : MarketInv now ⟨some st, orders⟩) (hn : 0 ≤ netFrac) (hc : 0 ≤ cpuFrac)
    (hfit : ∀ k, orderTotal k orders + (pick k netFrac cpuFrac * (st.resource k).weight).tdiv
      powerupFrac < 2 ^ 63)
    (h₁ : buyPower netFrac st.net = .ok (n, netFee, net))
    (h₂ : buyPower cpuFrac st.cpu = .ok (c, cpuFee, cpu)) :
    Reserved now receiver st n c { st with net, cpu } orders
      (orders.insert (nextOrderId orders) ⟨receiver, n, c, expires⟩) := by
  obtain ⟨hsn, hun⟩ := hi.settled st rfl .net
  obtain ⟨hsc, huc⟩ := hi.settled st rfl .cpu
  have hfn := hfit .net
  have hfc := hfit .cpu
  dsimp only at hun huc
  rw [← hun] at hfn
  rw [← huc] at hfc
  obtain ⟨hsn', hn0, hun', hwn⟩ := hsn.buyPower hn hfn h₁
  obtain ⟨hsc', hc0, huc', hwc⟩ := hsc.buyPower hc hfc h₂
  simp only [PowerupState.resource] at hun huc hun' huc' hwn hwc
  have hnl := hsn'.bounded
  have hcl := hsc'.bounded
  refine ⟨⟨Table.forall_insert hi.orders ⟨hn0, hc0⟩, fun hno => (by cases hno), ?_⟩, ?_, ?_,
    ⟨_, expires, nextOrderId_fresh orders, rfl⟩, ?_⟩
  · intro st' hst' k
    cases hst'
    rw [orderTotal, Table.total_insert_new _ _ (nextOrderId_fresh orders), ← orderTotal]
    cases k with
    | net => exact ⟨hsn', by simp only [PowerupState.resource, pick]; omega⟩
    | cpu => exact ⟨hsc', by simp only [PowerupState.resource, pick]; omega⟩
  · intro k
    cases k <;> simp only [PowerupState.resource] <;> omega
  · intro k
    have h1 := hsn.nonneg
    have h2 := hsc.nonneg
    have h3 := hnl.utilization.2
    have h4 := hnl.weight.2
    have h5 := hcl.utilization.2
    have h6 := hcl.weight.2
    simp only [PowerupState.resource] at h1 h2
    cases k <;> simp only [pick] <;> omega
  · intro k
    cases k <;> simp only [PowerupState.available, PowerupState.resource, pick] <;> omega

/-- A purchase that fits processes the queue and then takes its part; the reserve gets the
difference. -/
lemma reservePower_ok {receiver : Name} {days : ℕ} {netFrac cpuFrac fee : ℤ} {maxPayment : Asset}
    (hi : MarketInv now s.powerup) (hst : s.powerup.state = some st) (hn : 0 ≤ netFrac)
    (hc : 0 ≤ cpuFrac)
    (hfit : PowerFits now .net netFrac s.powerup ∧ PowerFits now .cpu cpuFrac s.powerup)
    (h : reservePower now receiver days netFrac cpuFrac maxPayment st s = .ok (fee, st', s')) :
    ∃ n c st₁ s₁ na ca orders s₂, processPowerupQueue now 2 st s = .ok (n, c, st₁, s₁) ∧
      Processed now st n c st₁ s₁.powerup.orders ∧
      Reserved now receiver st₁ na ca st' s₁.powerup.orders orders ∧
      adjustResources receiver na ca true (s₁.setPowerupOrders orders) = .ok s₂ ∧
      adjustResources reserveAccount (n - na) (c - ca) true s₂ = .ok s' := by
  simp only [reservePower, bind_ok, check_ok, exists_const, pure_ok, Prod.mk.injEq] at h
  obtain ⟨⟨n, c, st₁, s₁⟩, h₁, ⟨na, nf, net⟩, hnet, ⟨ca, cf, cpu⟩, hcpu, -, -, s₂, h₂, s₃, h₃,
    -, rfl, rfl⟩ := h
  obtain ⟨hp, -, horders⟩ := processPowerupQueue_processed hi hst h₁
  have hfit₁ : ∀ k, orderTotal k s₁.powerup.orders +
      (pick k netFrac cpuFrac * (st₁.resource k).weight).tdiv powerupFrac < 2 ^ 63 := by
    intro k
    rw [horders, hp.weight k]
    cases k with
    | net => exact hfit.1 st hst
    | cpu => exact hfit.2 st hst
  have hr : Reserved now receiver st₁ na ca { st₁ with net, cpu } s₁.powerup.orders
      (s₁.powerup.orders.insert (nextOrderId s₁.powerup.orders)
        ⟨receiver, na, ca, addSec now.sec (days * secondsPerDay)⟩) :=
    reserve_reserved hp.inv hn hc hfit₁ hnet hcpu
  have hpn := hp.fits .net
  have hpc := hp.fits .cpu
  have hrn := hr.fits .net
  have hrc := hr.fits .cpu
  simp only [pick] at hpn hpc hrn hrc
  dsimp only at h₃
  rw [wrapInt64_of_lt (by omega) (by omega), wrapInt64_of_lt (by omega) (by omega)] at h₃
  exact ⟨n, c, st₁, s₁, na, ca, _, s₂, h₁, hp, hr, h₂, h₃⟩

/-- What a checked configuration starts from: the state of the market is kept. -/
structure Restarted (now : BlockTimestamp) (old res : PowerupStateResource) : Prop where
  configured : res.Configured
  start : res.initialTimestamp = now.sec
  weight : res.weight = old.weight
  utilization : res.utilization = old.utilization
  adjusted : res.adjustedUtilization = old.adjustedUtilization

omit [FloatOps] in
lemma configTarget_ok {current target : ℤ} {given : Option UInt32} {old : PowerupStateResource}
    {t : ℕ} (hold : old.targetTimestamp < 2 ^ 32)
    (h : configTarget now current target (given.map UInt32.toNat) old = .ok t) :
    now.sec ≤ t ∧ t < 2 ^ 32 := by
  unfold configTarget at h
  split_ifs at h
  · rw [pure_ok] at h
    have := now.sec_range
    omega
  · simp only [bind_ok, check_ok, exists_const, pure_ok] at h
    obtain ⟨t', hg, hlt, rfl⟩ := h
    refine ⟨hlt.le, ?_⟩
    cases given with
    | none =>
      simp only [givenOr, Option.map_none, bind_ok, check_ok, exists_const, pure_ok] at hg
      rw [← hg.2]
      exact hold
    | some g =>
      simp only [givenOr, Option.map_some] at hg
      cases hg
      exact g.toNat_lt

omit [FloatOps] in
lemma configResource_restarted {core : Symbol} {args : PowerupConfigResource}
    {old res : PowerupStateResource} (hold : old.targetTimestamp < 2 ^ 32)
    (h : configResource now core args old = .ok res) : Restarted now old res := by
  simp only [configResource, bind_ok, check_ok, exists_const, pure_ok] at h
  obtain ⟨assumed, -, target, ht, prices, -, h1, h2, h3, h4, h5, h6, -, -, -, -, -, -, -, -, rfl⟩ :=
    h
  obtain ⟨hle, hlt⟩ := configTarget_ok hold ht
  exact ⟨⟨h5, h3, h4, h2, hle, hlt, h6⟩, rfl, rfl, rfl, rfl⟩

omit [FloatOps] in
/-- The weight of a new configuration covers the utilization, or the configuration fails. -/
lemma settleResource_settled {old res res' : PowerupStateResource} {delta d : ℤ}
    (hr : Restarted now old res) (hu : 0 ≤ old.utilization) (ha : 0 ≤ old.adjustedUtilization)
    (h : settleResource now delta res = .ok (d, res')) :
    res'.Settled now ∧ res'.utilization = old.utilization ∧
    d = delta + (res'.weight - old.weight) := by
  have hc := hr.configured
  have hstart : res.initialTimestamp ≤ now.sec := by rw [hr.start]
  simp only [settleResource, PowerupStateResource.updateWeight_eq hc hstart, bind_ok,
    check_ok, exists_const,
    pure_ok, Prod.mk.injEq] at h
  obtain ⟨⟨growth, r⟩, hr', hcov, rfl, rfl⟩ := h
  cases hr'
  dsimp only at hcov
  have hw : 0 ≤ res.weightFor (res.ratioOf now.sec) := le_trans (hr.utilization ▸ hu) hcov
  refine ⟨⟨hc.withState _ _ _ _ _, ⟨now.sec, hstart, le_refl _, rfl, rfl⟩, ?_, hcov, ?_⟩,
    hr.utilization, ?_⟩
  · rw [← hr.utilization] at hu
    exact hu
  · rw [← hr.adjusted] at ha
    exact ⟨le_min ha hw, min_le_right _ _⟩
  · rw [hr.weight]

/-- A configuration brings the market up to date and gives the difference to the reserve. -/
structure Reconfigured (now : BlockTimestamp) (p : Powerup) (n c : ℤ) (st' : PowerupState) :
    Prop where
  inv : MarketInv now ⟨some st', p.orders⟩
  moved : ∀ k, st'.available k = (p.state.map fun st => st.available k).getD 0 + pick k n c

lemma refreshResource_ok {b : Bool} {res res' : PowerupStateResource} {delta : ℤ}
    (hsettled : b = true → res.Settled now) (hfresh : b = false → res = {})
    (h : refreshResource now b res = .ok (delta, res')) :
    res'.targetTimestamp < 2 ^ 32 ∧ 0 ≤ res'.utilization ∧ 0 ≤ res'.adjustedUtilization ∧
      res'.utilization = res.utilization ∧ delta = res'.weight - res.weight := by
  unfold refreshResource at h
  cases b with
  | true =>
    have hs := hsettled rfl
    obtain ⟨hs', hu, hw⟩ := hs.updateUtilization now
    obtain ⟨r, he, hsr, -, hutil, -⟩ := hs'.updateWeight
    rw [if_pos rfl, he] at h
    cases h
    exact ⟨hsr.configured.bounded, hsr.nonneg, hsr.adjusted.1, hutil.trans hu, by rw [hw]⟩
  | false =>
    rw [if_neg (by decide)] at h
    cases h
    rw [hfresh rfl]
    exact ⟨by norm_num, le_refl _, le_refl _, rfl, rfl⟩

omit [FloatOps] in
/-- The stored resources of a market, which are the default ones before a configuration. -/
lemma MarketInv.stored (hi : MarketInv now s.powerup) (k : LoanKind) :
    (s.powerup.state.isSome = true → ((s.powerup.state.getD {}).resource k).Settled now) ∧
      (s.powerup.state.isSome = false → (s.powerup.state.getD {}).resource k = {}) ∧
      ((s.powerup.state.getD {}).resource k).utilization = orderTotal k s.powerup.orders := by
  cases hst : s.powerup.state with
  | none =>
    refine ⟨fun h => (by cases h), fun _ => (by cases k <;> rfl), ?_⟩
    rw [hi.unconfigured hst k]
    cases k <;> rfl
  | some st =>
    exact ⟨fun _ => (hi.settled st hst k).1, fun h => (by cases h), (hi.settled st hst k).2⟩

lemma cfgpowerup_reconfigured {ctx : Context} {args : PowerupConfig}
    (hi : MarketInv ctx.now s.powerup) (h : cfgpowerup ctx args s = .ok s') :
    ∃ n c st' mid, adjustResources reserveAccount n c true s = .ok mid ∧
      s' = mid.setPowerupState st' ∧
      Reconfigured ctx.now s.powerup n c st' := by
  simp only [cfgpowerup, requireAuth, bind_ok, check_ok, exists_const, pure_ok] at h
  obtain ⟨-, -, ⟨nd, net⟩, hn, ⟨cd, cpu⟩, hc, fee, -, -, -, -, net₁, hn₁, cpu₁, hc₁, ⟨nd₂, net₂⟩,
    hn₂, ⟨cd₂, cpu₂⟩, hc₂,
    mid, hmid, rfl⟩ := h
  refine ⟨nd₂, cd₂, _, mid, hmid, rfl, ?_⟩
  have hstored := hi.stored
  obtain ⟨hnt, hnu, hna, hnu', hnw⟩ := refreshResource_ok (hstored .net).1 (hstored .net).2.1 hn
  obtain ⟨hct, hcu, hca, hcu', hcw⟩ := refreshResource_ok (hstored .cpu).1 (hstored .cpu).2.1 hc
  obtain ⟨hns, hnu₂, hnd⟩ := settleResource_settled (configResource_restarted hnt hn₁) hnu hna hn₂
  obtain ⟨hcs, hcu₂, hcd⟩ := settleResource_settled (configResource_restarted hct hc₁) hcu hca hc₂
  have hfree : ∀ k, (s.powerup.state.map fun st => st.available k).getD 0 =
      ((s.powerup.state.getD {}).resource k).weight -
      ((s.powerup.state.getD {}).resource k).utilization := by
    intro k
    cases s.powerup.state with
    | none => cases k <;> rfl
    | some st => rfl
  have hun := (hstored .net).2.2
  have huc := (hstored .cpu).2.2
  refine ⟨⟨hi.orders, fun hno => (by cases hno), fun st' hst' k => ?_⟩, fun k => ?_⟩
  · cases hst'
    cases k with
    | net => exact ⟨hns, hnu₂.trans (hnu'.trans hun)⟩
    | cpu => exact ⟨hcs, hcu₂.trans (hcu'.trans huc)⟩
  · rw [hfree k]
    cases k <;> simp only [PowerupState.available, PowerupState.resource, pick] at * <;> omega

end

def WeightsKept (p p' : Powerup) : Prop :=
  ∀ st, p.state = some st → ∃ st', p'.state = some st' ∧
    ∀ k, (st.resource k).weight ≤ (st'.resource k).weight

lemma WeightsKept.refl (p : Powerup) : WeightsKept p p :=
  fun st hst => ⟨st, hst, fun _ => le_refl _⟩

lemma WeightsKept.trans {p q r : Powerup} (h₁ : WeightsKept p q) (h₂ : WeightsKept q r) :
    WeightsKept p r := by
  intro st hst
  obtain ⟨st₁, hst₁, hle₁⟩ := h₁ st hst
  obtain ⟨st₂, hst₂, hle₂⟩ := h₂ st₁ hst₁
  exact ⟨st₂, hst₂, fun k => le_trans (hle₁ k) (hle₂ k)⟩

section
variable [FloatOps] {now : BlockTimestamp} {π : Promise} {s s' : State}

theorem MarketStep.marketInv {cfg power : Prop} (h : MarketStep now cfg power s s') (hno : ¬ power)
    (hi : MarketInv now s.powerup) :
    MarketInv now s'.powerup ∧ (¬ cfg → WeightsKept s.powerup s'.powerup) := by
  cases h with
  | config allowed h =>
    obtain ⟨n, c, st', mid, hmid, rfl, hr⟩ := cfgpowerup_reconfigured hi h
    obtain ⟨resources, rfl⟩ := (adjustResources_moved hmid).only
    exact ⟨hr.inv, fun hno => absurd allowed hno⟩
  | process h =>
    simp only [powerupexec, requireAuth, bind_ok, check_ok, exists_const, require_ok, pure_ok] at h
    obtain ⟨-, st, hst, ⟨n, c, st', s₁⟩, h₁, s₂, h₂, rfl⟩ := h
    obtain ⟨hp, -⟩ := processPowerupQueue_processed hi hst h₁
    obtain ⟨resources, rfl⟩ := (adjustResources_moved h₂).only
    refine ⟨hp.inv, fun _ st₀ hst₀ => ⟨st', rfl, ?_⟩⟩
    rw [hst] at hst₀
    cases hst₀
    exact hp.grown
  | reserve bought => exact absurd bought hno

theorem Effect.marketInv (h : Effect now π s s') (hno : ¬ π.power) (hi : MarketInv now s.powerup) :
    MarketInv now s'.powerup ∧ (¬ π.config → WeightsKept s.powerup s'.powerup) := by
  cases h with
  | stake h =>
    obtain ⟨staking, resources, token, rfl, -⟩ := moveStake_frame h
    exact ⟨hi, fun _ => WeightsKept.refl _⟩
  | market h => exact h.marketInv hno hi
  | close timestamp names =>
    obtain ⟨auctions, pools, h⟩ := closeAuction_eq timestamp now s
    rw [h]
    exact ⟨hi, fun _ => WeightsKept.refl _⟩
  | _ => exact ⟨hi, fun _ => WeightsKept.refl _⟩

theorem Effects.marketInv (h : Effects now π s s') (hno : ¬ π.power)
    (hi : MarketInv now s.powerup) :
    MarketInv now s'.powerup ∧ (¬ π.config → WeightsKept s.powerup s'.powerup) := by
  induction h with
  | refl => exact ⟨hi, fun _ => WeightsKept.refl _⟩
  | tail _ hstep ih =>
    have hnext := hstep.marketInv hno ih.1
    exact ⟨hnext.1, fun hc => (ih.2 hc).trans (hnext.2 hc)⟩

omit [FloatOps] in
lemma Purchase.powerup (h : Purchase now π s s') : s'.powerup = s.powerup := by
  obtain ⟨owner, payment, delta, mid, -, -, hf, hpur⟩ := h.parts
  obtain ⟨funds, staking, resources, token, rfl⟩ := hf.frame
  obtain ⟨received, p', stake, -, rfl⟩ := purchase_ok hpur
  rfl

/-- A purchase of PowerUp reserves its part and pays the fee. -/
lemma powerup_ok {ctx : Context} {payer receiver : Name} {days : ℕ} {netFrac cpuFrac : ℤ}
    {maxPayment : Asset}
    (h : powerup ctx payer receiver days netFrac cpuFrac maxPayment s = .ok s') :
    ∃ st fee st' s₁ pools token, s.powerup.state = some st ∧ 0 ≤ netFrac ∧ 0 ≤ cpuFrac ∧
      reservePower ctx.now receiver days netFrac cpuFrac maxPayment st s = .ok (fee, st', s₁) ∧
      s' = { s₁.setPowerupState st' with pools, token } := by
  simp only [powerup, requireAuth, bind_ok, check_ok, exists_const, require_ok, pure_ok] at h
  obtain ⟨-, st, hst, -, -, hn, hc, -, -, ⟨fee, st', s₁⟩, h₁, s₂, h₂, rfl⟩ := h
  obtain ⟨pools, token, rfl, -⟩ := channelToRex_ok h₂
  exact ⟨st, fee, st', s₁, pools, token, hst, hn, hc, h₁, rfl⟩

lemma powerup_marketInv {auth : List Name} {payer receiver : Name} {days : ℕ} {netFrac cpuFrac : ℤ}
    {maxPayment : Asset} (hi : MarketInv now s.powerup)
    (hfit : PowerFits now .net netFrac s.powerup ∧ PowerFits now .cpu cpuFrac s.powerup)
    (h : powerup ⟨now, auth⟩ payer receiver days netFrac cpuFrac maxPayment s = .ok s') :
    MarketInv now s'.powerup ∧ WeightsKept s.powerup s'.powerup := by
  obtain ⟨st, fee, st', s₀, pools, token, hst, hn, hc, hres, rfl⟩ := powerup_ok h
  obtain ⟨n, c, st₁, s₁, na, ca, orders, s₂, h₁, hp, hr, h₂, h₃⟩ :=
    reservePower_ok hi hst hn hc hfit hres
  obtain ⟨resources₂, rfl⟩ := (adjustResources_moved h₂).only
  obtain ⟨resources₃, rfl⟩ := (adjustResources_moved h₃).only
  refine ⟨hr.inv, fun st₀ hst₀ => ⟨_, rfl, fun k => ?_⟩⟩
  rw [hst] at hst₀
  cases hst₀
  exact le_trans (hp.grown k) (hr.grown k)

theorem step.marketInv {l : Label} (h : step now l s s') (hfit : PurchaseFits now l.action s)
    (hi : MarketInv now s.powerup) :
    MarketInv now s'.powerup ∧ (¬ l.action.isConfig → WeightsKept s.powerup s'.powerup) := by
  by_cases hp : l.action.isPowerup
  · obtain ⟨auth, action⟩ := l
    cases action with
    | powerup payer receiver days netFrac cpuFrac maxPayment =>
      obtain ⟨hi', hkept⟩ := powerup_marketInv hi hfit h
      exact ⟨hi', fun _ => hkept⟩
    | _ => exact absurd hp id
  · obtain ⟨mid, hm, he⟩ := exec_decomposed h
    rcases hm with rfl | hpur
    · exact he.marketInv hp hi
    · rw [← hpur.powerup] at hi ⊢
      exact he.marketInv hp hi

omit [FloatOps] in
lemma Genesis.marketInv (h : Genesis s) (now : BlockTimestamp) : MarketInv now s.powerup := by
  rw [h.powerup]
  exact ⟨fun id o ho => (by cases ho), fun _ _ => rfl, fun st hst => (by cases hst)⟩

def fitStep (now : BlockTimestamp) (l : Label) (s s' : State) : Prop :=
  step now l s s' ∧ PurchaseFits now l.action s

lemma fitRun_marketInv {t₀ t : BlockTimestamp} {s₀ : State} {tr : List (BlockTimestamp × Label)}
    (h0 : Genesis s₀) (hrun : TimedRun fitStep t₀ s₀ tr t s) : MarketInv t s.powerup :=
  hrun.stateInvariant (fun t s => MarketInv t s.powerup) (h0.marketInv t₀)
    fun hi hle hs => (hs.1.marketInv hs.2 (hi.later hle)).1

/-- A message that is not about a division by zero. -/
abbrev NoDivision (e : String) : Prop := e ≠ divideByZero

omit [FloatOps] in
lemma limitsFor_raises (account : Name) (tot : UserResources) (ramLimit : ℤ → ℤ) (s : State) :
    Raises NoDivision (limitsFor account tot ramLimit s) := by
  intro e he
  rw [(limitsFor_error he).1]
  decide

omit [FloatOps] in
lemma adjustResources_raises (account : Name) (net cpu : ℤ) (b : Bool) (s : State) :
    Raises NoDivision (adjustResources account net cpu b s) := by
  unfold adjustResources
  by_cases h0 : net = 0 ∧ cpu = 0
  · rw [if_pos h0]
    exact .ok s
  · rw [if_neg h0]
    exact .bind (.check (by decide)) fun _ _ => .bind (.check (by decide)) fun _ _ =>
      .bind (.check (by decide)) fun _ _ => .bind (limitsFor_raises _ _ _ _) fun _ _ => .ok _

omit [FloatOps] in
lemma expireOrders_raises (max : ℕ) (net cpu : ℤ) (s : State) :
    Raises NoDivision (expireOrders now max net cpu s) := by
  induction max generalizing net cpu s with
  | zero => exact .ok _
  | succ max ih =>
    rw [expireOrders]
    split
    · exact .ok _
    · split_ifs
      · exact .ok _
      · exact .bind (adjustResources_raises _ _ _ _ _) fun s₁ _ => ih _ _ _

lemma processPowerupQueue_raises {st : PowerupState} (hi : MarketInv now s.powerup)
    (hst : s.powerup.state = some st) (max : ℕ) :
    Raises NoDivision (processPowerupQueue now max st s) := by
  unfold processPowerupQueue
  refine .bind (expireOrders_raises _ _ _ _) fun ⟨n, c, s₁⟩ h₁ => ?_
  obtain ⟨net, hen, -⟩ := expired_weight hi hst h₁ .net
  obtain ⟨cpu, hec, -⟩ := expired_weight hi hst h₁ .cpu
  simp only [PowerupState.resource, pick] at hen hec
  refine .bind (fun e he => ?_) fun _ _ => .bind (fun e he => ?_) fun _ _ => .ok _
  · rw [hen] at he
    cases he
  · rw [hec] at he
    cases he

omit [FloatOps] in
lemma givenOr_raises {α : Type} (given : Option α) (stored : α) (b : Bool) {msg : String}
    (h : NoDivision msg) : Raises NoDivision (givenOr given stored b msg) := by
  cases given with
  | none => exact .bind (.check h) fun _ _ => .ok _
  | some a => exact .ok a

omit [FloatOps] in
lemma configTarget_raises (current target : ℤ) (given : Option ℕ) (old : PowerupStateResource) :
    Raises NoDivision (configTarget now current target given old) := by
  unfold configTarget
  split_ifs
  · exact .ok _
  · exact .bind (givenOr_raises _ _ _ (by decide)) fun _ _ =>
      .bind (.check (by decide)) fun _ _ => .ok _

omit [FloatOps] in
lemma configResource_raises (core : Symbol) (args : PowerupConfigResource)
    (old : PowerupStateResource) : Raises NoDivision (configResource now core args old) := by
  unfold configResource configPrices
  refine .bind (givenOr_raises _ _ _ (by decide)) fun _ _ => ?_
  refine .bind (configTarget_raises _ _ _ _) fun _ _ => ?_
  refine .bind (.bind (givenOr_raises _ _ _ (by decide)) fun _ _ => .ok _) fun _ _ => ?_
  iterate 14 refine .bind (.check (by decide)) fun _ _ => ?_
  exact .ok _

lemma refreshResource_raises {b : Bool} {res : PowerupStateResource}
    (h : b = true → res.Settled now) : Raises NoDivision (refreshResource now b res) := by
  unfold refreshResource
  cases b with
  | false => exact .ok _
  | true =>
    obtain ⟨r, he, -⟩ := ((h rfl).updateUtilization now).1.updateWeight
    rw [if_pos rfl, he]
    exact .ok _

omit [FloatOps] in
lemma settleResource_raises {old res : PowerupStateResource} (hr : Restarted now old res)
    (delta : ℤ) : Raises NoDivision (settleResource now delta res) := by
  unfold settleResource
  rw [PowerupStateResource.updateWeight_eq hr.configured (by rw [hr.start])]
  exact .bind (.ok _) fun _ _ => .bind (.check (by decide)) fun _ _ => .ok _

lemma cfgpowerup_raises {auth : List Name} {args : PowerupConfig} (hi : MarketInv now s.powerup) :
    Raises NoDivision (cfgpowerup ⟨now, auth⟩ args s) := by
  have hn := hi.stored .net
  have hc := hi.stored .cpu
  unfold cfgpowerup requireAuth
  refine .bind (.check (by decide)) fun _ _ => .bind (.check (by decide)) fun _ _ =>
    .bind (refreshResource_raises hn.1) fun ⟨nd, net⟩ h₁ =>
      .bind (refreshResource_raises hc.1) fun ⟨cd, cpu⟩ h₂ =>
    .bind (givenOr_raises _ _ _ (by decide)) fun _ _ => .bind (.check (by decide)) fun _ _ =>
    .bind (.check (by decide)) fun _ _ => .bind (.check (by decide)) fun _ _ =>
    .bind (configResource_raises _ _ _) fun net₁ h₃ =>
      .bind (configResource_raises _ _ _) fun cpu₁ h₄ => ?_
  obtain ⟨hnt, -⟩ := refreshResource_ok hn.1 hn.2.1 h₁
  obtain ⟨hct, -⟩ := refreshResource_ok hc.1 hc.2.1 h₂
  exact .bind (settleResource_raises (configResource_restarted hnt h₃) _) fun _ _ =>
    .bind (settleResource_raises (configResource_restarted hct h₄) _) fun _ _ =>
    .bind (adjustResources_raises _ _ _ _ _) fun _ _ => .ok _

/-- Bringing the weight up to date neither divides by zero nor leaves 64 bits. -/
def WeightComputes (u : BlockTimestamp) (res : PowerupStateResource) : Prop :=
  ∃ growth res', res.updateWeight u = .ok (growth, res') ∧ 0 ≤ res'.weight ∧
    res'.weight ≤ 2 ^ 63 - 1

omit [FloatOps] in
lemma PowerupStateResource.Configured.weightComputes {res : PowerupStateResource}
    (hc : res.Configured) (hstart : res.initialTimestamp ≤ now.sec) : WeightComputes now res := by
  have htarget := PowerupStateResource.target_le_ratioOf hc now.sec
  have hinitial := PowerupStateResource.ratioOf_le_initial hc now.sec
  have hpos := lt_of_lt_of_le hc.target_pos htarget
  refine ⟨_, _, PowerupStateResource.updateWeight_eq hc hstart, ?_⟩
  exact ⟨PowerupStateResource.weightFor_nonneg hc hpos (le_trans hinitial hc.initial_le),
    PowerupStateResource.weightFor_fits hc htarget⟩

omit [FloatOps] in
/-- The weight can be brought up to date whatever the utilization is. -/
lemma PowerupStateResource.Settled.weightComputes {res : PowerupStateResource}
    (h : res.Settled now) :
    WeightComputes now res ∧ ∀ delta, WeightComputes now (res.release delta) := by
  obtain ⟨u, h1, h2, -⟩ := h.computed
  have hstart : res.initialTimestamp ≤ now.sec := le_trans h1 h2
  exact ⟨h.configured.weightComputes hstart,
    fun delta => (h.configured.release delta).weightComputes hstart⟩

/-- As long as the purchases of a run stay in 64 bits, the utilization of a configured market is
the weight of the orders and all its quantities are within their bounds; the weight never falls
between two configurations. Bringing it up to date neither divides by zero nor leaves 64 bits: not
when the queue is processed, and not in a configuration, before or after its parameters are set. -/
theorem powerup_market {t₀ t : BlockTimestamp} {s₀ : State} {tr : List (BlockTimestamp × Label)}
    (h0 : Genesis s₀) (hrun : TimedRun fitStep t₀ s₀ tr t s) :
    (∀ st, s.powerup.state = some st → ∀ k,
      (st.resource k).utilization = orderTotal k s.powerup.orders ∧
      (st.resource k).Bounded) ∧
    (∀ tr t' s', TimedRun fitStep t s tr t' s' → (∀ x ∈ tr, ¬ x.2.action.isConfig) →
      WeightsKept s.powerup s'.powerup) ∧
    ∀ u, t ≤ u →
      (∀ st, s.powerup.state = some st →
        (∀ k, WeightComputes u ((st.resource k).updateUtilization u) ∧
          ∀ delta, WeightComputes u (((st.resource k).updateUtilization u).release delta)) ∧
        ∀ max, processPowerupQueue u max st s ≠ .error divideByZero) ∧
      (∀ k core args delta old res,
        refreshResource u s.powerup.state.isSome ((s.powerup.state.getD {}).resource k) =
          .ok (delta, old) →
        configResource u core args old = .ok res → WeightComputes u res) ∧
      ∀ auth args, cfgpowerup ⟨u, auth⟩ args s ≠ .error divideByZero := by
  have hi := fitRun_marketInv h0 hrun
  refine ⟨fun st hst k => ?_, fun tr t' s' hlater hcfg => ?_,
    fun u hu => ⟨fun st hst => ⟨fun k => ?_, fun max he => ?_⟩, ?_, fun auth args he => ?_⟩⟩
  · exact ⟨(hi.settled st hst k).2, (hi.settled st hst k).1.bounded⟩
  · have hkept : MarketInv t' s'.powerup ∧ WeightsKept s.powerup s'.powerup :=
      hlater.invariant (fun _ t' s' => MarketInv t' s'.powerup ∧ WeightsKept s.powerup s'.powerup)
        (fun l => ¬ l.action.isConfig) ⟨hi, WeightsKept.refl _⟩
        (fun hp hle hno hs => by
          have hnext := hs.1.marketInv hs.2 (hp.1.later hle)
          exact ⟨hnext.1, hp.2.trans (hnext.2 hno)⟩) hcfg
    exact hkept.2
  · exact (((hi.settled st hst k).1.later hu).updateUtilization u).1.weightComputes
  · exact processPowerupQueue_raises (hi.later hu) hst max _ he rfl
  · intro k core args delta old res hold hres
    obtain ⟨hsettled, hfresh, -⟩ := (hi.later hu).stored k
    obtain ⟨ht, -⟩ := refreshResource_ok hsettled hfresh hold
    have hr := configResource_restarted ht hres
    exact hr.configured.weightComputes (by rw [hr.start])
  · exact cfgpowerup_raises (hi.later hu) _ he rfl

def launchConfig : PowerupConfigResource :=
  { currentWeightRatio := some (10 ^ 15)
    targetWeightRatio := some (10 ^ 13)
    assumedStakeWeight := some 1000000
    targetTimestamp := some 1893456000
    exponent := some 2
    decaySecs := none
    minPrice := none
    maxPrice := some ⟨1000000, tlos⟩ }

def configTrace : List (BlockTimestamp × Label) :=
  launchTrace ++
    [(launchTime.after 600, ⟨[systemAccount],
    .cfgpowerup ⟨launchConfig, launchConfig, some 1, some ⟨1, tlos⟩⟩⟩)]

def powerupTrace : List (BlockTimestamp × Label) :=
  configTrace ++
    [(launchTime.after 87000, ⟨[alice], .powerup alice bob 1 (10 ^ 14) (10 ^ 14) ⟨1000000, tlos⟩⟩)]

omit [FloatOps] in
lemma configTrace_run : @TimedRun _ _ _ _ (@step launchFloats) launchTime launchState configTrace
    (launchTime.after 600) (launched configTrace) := by
  have h := launched_run (show launches configTrace = true by decide +kernel) (by decide)
  rw [show (configTrace.getLast?.map Prod.fst).getD launchTime =
    launchTime.after 600 by decide] at h
  exact h

omit [FloatOps] in
lemma configTrace_buys_nothing : ∀ x ∈ configTrace, ¬ x.2.action.isPowerup := by
  intro x hx
  simp only [configTrace, launchTrace, List.mem_append, List.mem_cons,
    List.not_mem_nil, or_false] at hx
  rcases hx with (rfl | rfl | rfl | rfl | rfl | rfl) | rfl <;> exact id

omit [FloatOps] in
/-- Her purchase stays in 64 bits. -/
lemma powerupTrace_fits :
    @TimedRun _ _ _ _ (@fitStep launchFloats) launchTime launchState powerupTrace
    (launchTime.after 87000) (launched powerupTrace) := by
  let := launchFloats
  have hprior : TimedRun fitStep launchTime launchState configTrace (launchTime.after 600)
    (launched configTrace) :=
    TimedRun.mono_of (fun x hx s s' hs => ⟨hs, PurchaseFits.of_not (configTrace_buys_nothing x hx)⟩)
      configTrace_run
  have hfits : PowerFits (launchTime.after 87000) .net (10 ^ 14) (launched configTrace).powerup ∧
      PowerFits (launchTime.after 87000) .cpu (10 ^ 14) (launched configTrace).powerup :=
    ⟨by decide +kernel, by decide +kernel⟩
  exact hprior.snoc (by decide)
    ⟨launched_step (show launches powerupTrace = true by decide +kernel), hfits⟩

omit [FloatOps] in
theorem launch_powerup_market :
    ∃ st, (launched powerupTrace).powerup.state = some st ∧ 0 < st.net.utilization ∧
    st.net.utilization = orderTotal .net (launched powerupTrace).powerup.orders ∧
    st.net.Bounded := by
  obtain ⟨st, hst⟩ : ∃ st, (launched powerupTrace).powerup.state = some st :=
    Option.isSome_iff_exists.mp (by decide +kernel)
  have hused : 0 < ((launched powerupTrace).powerup.state.map fun st => st.net.utilization).getD
    0 := by decide +kernel
  rw [hst] at hused
  exact ⟨st, hst, hused, (@powerup_market launchFloats _ _ _ _ _ launchState_genesis
    powerupTrace_fits).1 st hst .net⟩

/-- A weight close to the largest that a configuration admits. -/
def wideConfig : PowerupConfigResource :=
  { currentWeightRatio := some (10 ^ 13)
    targetWeightRatio := some (10 ^ 13)
    assumedStakeWeight := some (92 * 10 ^ 15)
    targetTimestamp := none
    exponent := some 2
    decaySecs := none
    minPrice := none
    maxPrice := some ⟨1000000, tlos⟩ }

/-- Alice powers up a receiver with a percentage of the NET weight. -/
def netPowerup (receiver : Name) (percent : ℤ) : Label :=
  ⟨[alice], .powerup alice receiver 1 (percent * 10 ^ 13) 0 ⟨1000000, tlos⟩⟩

def halfDays (n : ℕ) : BlockTimestamp := launchTime.after (n * 43200)

/-- The reserve account is powered up itself, so that its totals cover a sale of more than is left. -/
def oversoldTrace : List (BlockTimestamp × Label) :=
  [(launchTime, ⟨[alice], .deposit alice ⟨1000000, tlos⟩⟩),
    (launchTime, ⟨[alice], .buyrex alice ⟨1000000, tlos⟩⟩),
    (launchTime, ⟨[alice], .delegatebw alice reserveAccount ⟨100, tlos⟩ ⟨100, tlos⟩ false⟩),
    (launchTime, ⟨[systemAccount], .cfgpowerup ⟨wideConfig, wideConfig, some 1, some ⟨1, tlos⟩⟩⟩),
    (launchTime, netPowerup bob 30),
    (halfDays 1, netPowerup namesAccount 30),
    (halfDays 1, netPowerup reserveAccount 35),
    (halfDays 2, netPowerup alice 40)]

omit [FloatOps] in
/-- 65% and 40% of the weight are more than 2^63, so that the sum passes as a negative number. -/
theorem oversold_market : Genesis launchState ∧
    @TimedRun _ _ _ _ (@step launchFloats) launchTime launchState oversoldTrace (halfDays 2)
      (launched oversoldTrace) ∧
    ((launched oversoldTrace).powerup.state.map fun st => (st.net.weight, st.net.utilization)) =
      some (9108000000000000000, -8883344073709551616) ∧
    orderTotal .net (launched oversoldTrace).powerup.orders = 9563400000000000000 := by
  have hrun := launched_run (show launches oversoldTrace = true by decide +kernel) (by decide)
  rw [show (oversoldTrace.getLast?.map Prod.fst).getD launchTime = halfDays 2 by decide] at hrun
  exact ⟨launchState_genesis, hrun, by decide +kernel, by decide +kernel⟩

end
end TelosSystem
