import TelosSystem.RexActions

/-! The PowerUp market: weights that shrink over time, utilization, and orders that expire. -/
namespace TelosSystem
open Ledger

/-- `std::clamp`, which compares with the lower bound first. -/
def clamp (v lo hi : ℤ) : ℤ := if v < lo then lo else if hi < v then hi else v

namespace PowerupStateResource

/-- The ratio moves linearly from its initial to its target value. -/
def ratioAt (now : BlockTimestamp) (res : PowerupStateResource) : Except String ℤ :=
  if res.targetTimestamp ≤ now.sec then .ok res.targetWeightRatio
  else do
    let elapsed := subSec now.sec res.initialTimestamp
    let span := subSec res.targetTimestamp res.initialTimestamp
    check (span ≠ 0) divideByZero
    pure (res.initialWeightRatio +
      ((res.targetWeightRatio - res.initialWeightRatio) * elapsed).tdiv span)

/-- Returns the change of the weight. Integer division by zero aborts. -/
def updateWeight (now : BlockTimestamp) (res : PowerupStateResource) :
    Except String (ℤ × PowerupStateResource) := do
  let weightRatio ← res.ratioAt now
  check (weightRatio ≠ 0) divideByZero
  let newWeight := (res.assumedStakeWeight * powerupFrac).tdiv weightRatio - res.assumedStakeWeight
  pure (newWeight - res.weight, { res with weightRatio, weight := newWeight })

def updateUtilization [FloatOps] (now : BlockTimestamp) (res : PowerupStateResource) :
    PowerupStateResource :=
  if now.sec ≤ res.utilizationTimestamp then res
  else
    let adjusted :=
      if res.adjustedUtilization ≤ res.utilization then res.utilization
      else
        let diff := wrapInt64 (res.adjustedUtilization - res.utilization)
        let delta := FloatOps.decayedDifference diff
          (now.sec - res.utilizationTimestamp) res.decaySecs
        wrapInt64 (res.utilization + clamp delta 0 diff)
    { res with adjustedUtilization := adjusted, utilizationTimestamp := now.sec }

/-- `state.utilization -= delta`. -/
def release (res : PowerupStateResource) (delta : ℤ) : PowerupStateResource :=
  { res with utilization := wrapInt64 (res.utilization - delta) }

end PowerupStateResource

def powerupOrdersByExpires (t : Table ℕ PowerupOrder) : List (ℕ × PowerupOrder) :=
  t.indexed fun a b => a.2.expires < b.2.expires ∨ (a.2.expires = b.2.expires ∧ a.1 ≤ b.1)

def State.setPowerupOrders (s : State) (orders : Table ℕ PowerupOrder) : State :=
  { s with powerup := { s.powerup with orders } }

/-- Expire at most `max` orders; returns the weights they give back. -/
def expireOrders (now : BlockTimestamp) : ℕ → ℤ → ℤ → State → Except String (ℤ × ℤ × State)
  | 0, net, cpu, s => .ok (net, cpu, s)
  | max + 1, net, cpu, s =>
    match (powerupOrdersByExpires s.powerup.orders).head? with
    | none => .ok (net, cpu, s)
    | some (id, o) =>
      if now.sec < o.expires then .ok (net, cpu, s)
      else do
        let s ← adjustResources o.owner (-o.netWeight) (-o.cpuWeight) false s
        expireOrders now max (wrapInt64 (net + o.netWeight)) (wrapInt64 (cpu + o.cpuWeight))
          (s.setPowerupOrders (s.powerup.orders.erase id))

section
variable [FloatOps]

def processPowerupQueue (now : BlockTimestamp) (maxItems : ℕ) (st : PowerupState) (s : State) :
    Except String (ℤ × ℤ × PowerupState × State) := do
  let net := st.net.updateUtilization now
  let cpu := st.cpu.updateUtilization now
  let (netDelta, cpuDelta, s) ← expireOrders now maxItems 0 0 s
  let (netGrowth, net) ← (net.release netDelta).updateWeight now
  let (cpuGrowth, cpu) ← (cpu.release cpuDelta).updateWeight now
  pure (wrapInt64 (netDelta + netGrowth), wrapInt64 (cpuDelta + cpuGrowth), { st with net, cpu }, s)

def State.setPowerupState (s : State) (st : PowerupState) : State :=
  { s with powerup := { s.powerup with state := some st } }

def powerupNotInitialized : String := "powerup hasn't been initialized"

def powerupexec (ctx : Context) (user : Name) (max : UInt16) (s : State) : Except String State := do
  requireAuth ctx user
  let st ← require s.powerup.state powerupNotInitialized
  let (netDelta, cpuDelta, st, s) ← processPowerupQueue ctx.now max.toNat st s
  let s ← adjustResources reserveAccount netDelta cpuDelta true s
  pure (s.setPowerupState st)

def calcPowerupFee (res : PowerupStateResource) (utilizationIncrease : ℤ) : ℤ :=
  if utilizationIncrease ≤ 0 then 0 else FloatOps.powerupFee res utilizationIncrease

/-- One resource of a purchase: the amount, its fee and the resource after it. -/
def buyPower (frac : ℤ) (res : PowerupStateResource) :
    Except String (ℤ × ℤ × PowerupStateResource) :=
  if frac = 0 then .ok (0, 0, res)
  else do
    let amount := (frac * res.weight).tdiv powerupFrac
    check (res.weight ≠ 0) "market doesn't have resources available"
    -- The sum is formed in 64 bits, in the check as in the assignment.
    let utilization := wrapInt64 (res.utilization + amount)
    check (utilization ≤ res.weight) "market doesn't have enough resources available"
    let f := calcPowerupFee res amount
    check (0 < f) "calculated fee is below minimum; try powering up with more resources"
    pure (amount, f, { res with utilization })

/-- `available_primary_key`. -/
def nextOrderId (t : Table ℕ PowerupOrder) : ℕ := (t.entries.map fun e => e.1 + 1).foldl max 0

/-- The market part of a purchase; returns the fee and the market after it. -/
def reservePower (now : BlockTimestamp) (receiver : Name) (days : ℕ) (netFrac cpuFrac : ℤ)
    (maxPayment : Asset) (st : PowerupState) (s : State) :
    Except String (ℤ × PowerupState × State) := do
  let (netDelta, cpuDelta, st, s) ← processPowerupQueue now 2 st s
  let (netAmount, netFee, net) ← buyPower netFrac st.net
  let (cpuAmount, cpuFee, cpu) ← buyPower cpuFrac st.cpu
  let fee := netFee + cpuFee
  check (fee ≤ maxPayment.amount) "max_payment is less than calculated fee: "
  check (st.minPowerupFee.amount ≤ fee)
    "calculated fee is below minimum; try powering up with more resources"
  let order : PowerupOrder := ⟨receiver, netAmount, cpuAmount,
    addSec now.sec (days * secondsPerDay)⟩
  let s := s.setPowerupOrders (s.powerup.orders.insert (nextOrderId s.powerup.orders) order)
  let s ← adjustResources receiver netAmount cpuAmount true s
  let netLeft := wrapInt64 (netDelta - netAmount)
  let cpuLeft := wrapInt64 (cpuDelta - cpuAmount)
  let s ← adjustResources reserveAccount netLeft cpuLeft true s
  pure (fee, { st with net, cpu }, s)

def powerup (ctx : Context) (payer receiver : Name) (days : ℕ) (netFrac cpuFrac : ℤ)
    (maxPayment : Asset) (s : State) : Except String State := do
  requireAuth ctx payer
  let st ← require s.powerup.state powerupNotInitialized
  check (maxPayment.symbol = s.core) "max_payment doesn't match core symbol"
  check (days = st.powerupDays) "days doesn't match configuration"
  check (0 ≤ netFrac) "net_frac can't be negative"
  check (0 ≤ cpuFrac) "cpu_frac can't be negative"
  check (netFrac ≤ powerupFrac) "net can't be more than 100%"
  check (cpuFrac ≤ powerupFrac) "cpu can't be more than 100%"
  let (fee, st, s) ← reservePower ctx.now receiver days netFrac cpuFrac maxPayment st s
  let s ← channelToRex ctx.now payer ⟨fee, s.core⟩ true s
  pure (s.setPowerupState st)

structure PowerupConfigResource where
  currentWeightRatio : Option ℤ
  targetWeightRatio : Option ℤ
  assumedStakeWeight : Option ℤ
  targetTimestamp : Option UInt32
  exponent : Option ℚ
  decaySecs : Option ℕ
  minPrice : Option Asset
  maxPrice : Option Asset

structure PowerupConfig where
  net : PowerupConfigResource
  cpu : PowerupConfigResource
  powerupDays : Option ℕ
  minPowerupFee : Option Asset

def isDefaultAsset (a : Asset) : Bool := a.amount == 0 && a.symbol == ⟨0, 0⟩

/-- A given value, or the stored one unless that has no default. -/
def givenOr {α : Type} (given : Option α) (stored : α) (hasDefault : Bool) (msg : String) :
    Except String α :=
  match given with
  | some a => .ok a
  | none => do
    check (hasDefault = true) msg
    pure stored

def configTarget (now : BlockTimestamp) (current target : ℤ) (given : Option ℕ)
    (st : PowerupStateResource) : Except String ℕ :=
  if current = target then pure now.sec
  else do
    let t ← givenOr given st.targetTimestamp (st.targetTimestamp ≠ 0)
      "target_timestamp does not have a default value"
    check (now.sec < t) "target_timestamp must be in the future"
    pure t

/-- The prices, where the minimum defaults to zero. -/
def configPrices (args : PowerupConfigResource) (st : PowerupStateResource) :
    Except String (Asset × Asset) := do
  let maxPrice ← givenOr args.maxPrice st.maxPrice (!isDefaultAsset st.maxPrice)
    "max_price does not have a default value"
  let minPrice := match args.minPrice with
    | some a => a
    | none => if isDefaultAsset st.minPrice then { maxPrice with amount := 0 } else st.minPrice
  pure (minPrice, maxPrice)

def configResource (now : BlockTimestamp) (core : Symbol) (args : PowerupConfigResource)
    (st : PowerupStateResource) : Except String PowerupStateResource := do
  let current := args.currentWeightRatio.getD
    (if st.weightRatio ≠ 0 then st.weightRatio else st.initialWeightRatio)
  let target := args.targetWeightRatio.getD st.targetWeightRatio
  let assumed ← givenOr args.assumedStakeWeight st.assumedStakeWeight (st.assumedStakeWeight ≠ 0)
    "assumed_stake_weight does not have a default value"
  let targetTimestamp ← configTarget now current target (args.targetTimestamp.map UInt32.toNat) st
  let exponent := args.exponent.getD st.exponent
  let decaySecs := args.decaySecs.getD st.decaySecs
  let (minPrice, maxPrice) ← configPrices args st
  check (0 < current) "current_weight_ratio is too small"
  check (current ≤ powerupFrac) "current_weight_ratio is too large"
  check (0 < target) "target_weight_ratio is too small"
  check (target ≤ current) "weight can't grow over time"
  check (1 ≤ assumed) "assumed_stake_weight must be at least 1; a much larger value is recommended"
  check ((assumed * powerupFrac).tdiv target ≤ 2 ^ 63 - 1)
    "assumed_stake_weight/target_weight_ratio is too large"
  check (1 ≤ exponent) "exponent must be >= 1"
  check (1 ≤ decaySecs) "decay_secs must be >= 1"
  check (maxPrice.symbol = core) "max_price doesn't match core symbol"
  check (0 < maxPrice.amount) "max_price must be positive"
  check (minPrice.symbol = core) "min_price doesn't match core symbol"
  check (0 ≤ minPrice.amount) "min_price must be non-negative"
  check (minPrice.amount ≤ maxPrice.amount) "min_price cannot exceed max_price"
  check (exponent ≠ 1 ∨ minPrice.amount = maxPrice.amount)
    "min_price and max_price must be the same if the exponent is 1"
  pure { st with
    assumedStakeWeight := assumed
    initialWeightRatio := current
    targetWeightRatio := target
    initialTimestamp := now.sec
    targetTimestamp
    exponent
    decaySecs
    minPrice
    maxPrice }

/-- One resource brought up to date before it is configured. -/
def refreshResource (now : BlockTimestamp) (configured : Bool) (res : PowerupStateResource) :
    Except String (ℤ × PowerupStateResource) :=
  if configured then (res.updateUtilization now).updateWeight now
  else .ok (0, { res with utilizationTimestamp := now.sec })

/-- The configured weight has to cover the utilization. -/
def settleResource (now : BlockTimestamp) (delta : ℤ) (res : PowerupStateResource) :
    Except String (ℤ × PowerupStateResource) := do
  let (growth, res) ← res.updateWeight now
  check (res.utilization ≤ res.weight) "weight can't shrink below utilization"
  pure (delta + growth, { res with adjustedUtilization := min res.adjustedUtilization res.weight })

def cfgpowerup (ctx : Context) (args : PowerupConfig) (s : State) : Except String State := do
  requireAuth ctx systemAccount
  let st := s.powerup.state.getD {}
  check (s.isAccount reserveAccount) "eosio.reserv account must first be created"
  let configured := s.powerup.state.isSome
  let (netDelta, net) ← refreshResource ctx.now configured st.net
  let (cpuDelta, cpu) ← refreshResource ctx.now configured st.cpu
  let powerupDays := args.powerupDays.getD st.powerupDays
  let minPowerupFee ← givenOr args.minPowerupFee st.minPowerupFee (!isDefaultAsset st.minPowerupFee)
    "min_powerup_fee does not have a default value"
  check (0 < powerupDays) "powerup_days must be > 0"
  check (minPowerupFee.symbol = s.core) "min_powerup_fee doesn't match core symbol"
  check (0 < minPowerupFee.amount) "min_powerup_fee must be positive"
  let net ← configResource ctx.now s.core args.net net
  let cpu ← configResource ctx.now s.core args.cpu cpu
  let (netDelta, net) ← settleResource ctx.now netDelta net
  let (cpuDelta, cpu) ← settleResource ctx.now cpuDelta cpu
  let s ← adjustResources reserveAccount netDelta cpuDelta true s
  pure (s.setPowerupState ⟨net, cpu, powerupDays, minPowerupFee⟩)

end
end TelosSystem
