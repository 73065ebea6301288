import TelosSystem.RexActions

/-! The RAM market. The conversion function is a parameter of the trades. -/
namespace TelosSystem
open Ledger

namespace Ram

/-- The supply grows by a fixed number of bytes per slot; the product is a 32-bit one. -/
def updateRamSupply (now : BlockTimestamp) (r : Ram) : Ram :=
  if now.slot ≤ r.lastRamIncrease then r
  else
    let newRam : ℕ := (now.slot - r.lastRamIncrease) * r.newRamPerBlock % 2 ^ 32
    { r with
      maxRamSize := r.maxRamSize + newRam
      market := { r.market with base := r.market.base + newRam }
      lastRamIncrease := now.slot }

end Ram

/-- The .5% fee, rounded up. -/
def ramFee (amount : ℤ) : ℤ := (amount + 199).tdiv 200

/-- The RAM limit follows the bytes of the row, unless it is managed. -/
def State.setRamLimit (s : State) (account : Name) (ramBytes : ℤ) : Except String State :=
  if managed s.voting account ramManaged then .ok s
  else do
    let old ← getResourceLimits account s
    pure (s.setLimits account { old with ramBytes := ramBytes + ramGiftBytes })

def State.setUserRam (s : State) (account : Name) (tot : UserResources) : State :=
  { s with resources := { s.resources with userres := s.resources.userres.insert account tot } }

def creditRam (receiver : Name) (bytes : ℤ) (s : State) : Except String State :=
  let tot : UserResources :=
    match s.resources.userres.lookup receiver with
    | none => ⟨0, 0, bytes⟩
    | some tot => { tot with ramBytes := tot.ramBytes + bytes }
  (s.setUserRam receiver tot).setRamLimit receiver tot.ramBytes

/-- The fee of a trade goes through `eosio.ramfee` to the return pool. -/
def chargeRamFee (now : BlockTimestamp) (payer : Name) (fee : ℤ) (memoSize : ℕ) (s : State) :
    Except String State :=
  if 0 < fee then do
    let s ← s.inlineTransfer payer ramfeeAccount ⟨fee, s.core⟩ memoSize
    channelToRex now ramfeeAccount ⟨fee, s.core⟩ false s
  else .ok s

section
variable (bancor : ℤ → ℤ → ℤ → ℤ)

/-- The trade of `buyram`: tokens into the quote connector, bytes out of the base. -/
def buyBytes (receiver : Name) (quantAfterFee : ℤ) (s : State) : Except String State := do
  let m := s.ram.market
  let bytesOut := bancor m.quote m.base quantAfterFee
  check (0 < bytesOut) "must reserve a positive amount"
  let ram : Ram := { s.ram with
    market := ⟨m.base - bytesOut, m.quote + quantAfterFee⟩
    totalRamBytesReserved := s.ram.totalRamBytesReserved + bytesOut
    totalRamStake := s.ram.totalRamStake + quantAfterFee }
  creditRam receiver bytesOut { s with ram }

def buyram (ctx : Context) (payer receiver : Name) (quant : Asset) (s : State) :
    Except String State := do
  requireAuth ctx payer
  let s := { s with ram := s.ram.updateRamSupply ctx.now }
  check (quant.symbol = s.core) "must buy ram with core token"
  check (0 < quant.amount) "must purchase a positive amount"
  let fee := ramFee quant.amount
  let quantAfterFee := quant.amount - fee
  let s ← s.inlineTransfer payer ramAccount ⟨quantAfterFee, s.core⟩ 7
  let s ← chargeRamFee ctx.now payer fee 7 s
  buyBytes bancor receiver quantAfterFee s

/-- The trade of `sellram`: bytes back into the base connector, tokens out of the quote. -/
def sellBytes (account : Name) (bytes : ℤ) (tot : UserResources) (s : State) :
    Except String (ℤ × State) := do
  let m := s.ram.market
  let tokensOut := bancor m.base m.quote bytes
  check (1 < tokensOut) "token amount received from selling ram is too low"
  let ram : Ram := { s.ram with
    market := ⟨m.base + bytes, m.quote - tokensOut⟩
    totalRamBytesReserved := s.ram.totalRamBytesReserved - bytes
    totalRamStake := s.ram.totalRamStake - tokensOut }
  check (0 ≤ ram.totalRamStake) "error, attempt to unstake more tokens than previously staked"
  let tot := { tot with ramBytes := tot.ramBytes - bytes }
  let s ← ({ s with ram }.setUserRam account tot).setRamLimit account tot.ramBytes
  pure (tokensOut, s)

def sellram (ctx : Context) (account : Name) (bytes : ℤ) (s : State) : Except String State := do
  requireAuth ctx account
  let s := { s with ram := s.ram.updateRamSupply ctx.now }
  check (0 < bytes) "cannot sell negative byte"
  let tot ← require (s.resources.userres.lookup account) "no resource row"
  check (bytes ≤ tot.ramBytes) "insufficient quota"
  let (tokensOut, s) ← sellBytes bancor account bytes tot s
  let s ← s.inlineTransfer ramAccount account ⟨tokensOut, s.core⟩ 8
  chargeRamFee ctx.now account (ramFee tokensOut) 12 s

end

/-- The cost comes out of floating-point arithmetic. -/
def buyrambytes [FloatOps] (bancor : ℤ → ℤ → ℤ → ℤ) (ctx : Context) (payer receiver : Name)
    (bytes : UInt32) (s : State) : Except String State :=
  let costPlusFee := FloatOps.ramCost s.ram.market.base s.ram.market.quote bytes.toNat
  buyram bancor ctx payer receiver ⟨costPlusFee, s.core⟩ s

/-- `init` on a chain that has no RAM market yet: the market opens with the free RAM and a
thousandth of the core-token supply. -/
def init (ctx : Context) (version : ℕ) (core : Symbol) (s : State) : Except String State := do
  requireAuth ctx systemAccount
  check (version = 0) "unsupported version for init action"
  let st ← require (s.token.stats.lookup core.code) "invalid supply symbol code"
  check (st.supply.symbol = core) "specified core symbol does not exist (precision mismatch)"
  check (0 < st.supply.amount) "system token supply must be greater than 0"
  let market := ⟨s.ram.maxRamSize - s.ram.totalRamBytesReserved, st.supply.amount.tdiv 1000⟩
  let token ← s.token.open_ s.isAccount [systemAccount] rexAccount core systemAccount
  pure { s with core, token, ram := { s.ram with market } }

def setram (ctx : Context) (maxRamSize : UInt64) (s : State) : Except String State := do
  requireAuth ctx systemAccount
  let size : ℤ := maxRamSize.toNat
  check (s.ram.maxRamSize < size) "ram may only be increased"
  check (size < 1024 * 1024 * 1024 * 1024 * 1024) "ram size is unrealistic"
  check (s.ram.totalRamBytesReserved < size) "attempt to set max below reserved"
  let m := s.ram.market
  let ram : Ram := { s.ram with
    market := { m with base := m.base + (size - s.ram.maxRamSize) }
    maxRamSize := size }
  pure { s with ram }

def setramrate (ctx : Context) (bytesPerBlock : UInt16) (s : State) : Except String State := do
  requireAuth ctx systemAccount
  let ram : Ram := { s.ram.updateRamSupply ctx.now with newRamPerBlock := bytesPerBlock.toNat }
  pure { s with ram }

end TelosSystem
