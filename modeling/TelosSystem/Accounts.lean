import TelosSystem.NameBidding

/-! New accounts, and the resource limits that the system account sets by hand. The chain answers
for the limits of existing accounts only; of a new account it checks the name. -/
namespace TelosSystem
open Ledger

namespace Name

/-- One of the first twelve characters is a dot, or the name is shorter. -/
def hasDot (n : Name) : Bool :=
  (List.range 12).any fun i => (n.value >>> (4 + 5 * i).toUInt64) &&& 0x1f == 0

end Name

/-- The creator may use the name. A claim consumes the auction. -/
def claimName (creator newAccountName : Name) (s : State) : Except String State :=
  if creator ≠ systemAccount ∧ newAccountName.hasDot then
    if newAccountName.suffix = newAccountName then do
      let current ← require (s.auctions.bids.lookup newAccountName) "no active bid for name"
      check (current.highBidder = creator) "only highest bidder can claim"
      check (current.highBid < 0) "auction for name is not closed yet"
      pure { s with auctions := { s.auctions with bids := s.auctions.bids.erase newAccountName } }
    else do
      check (creator = newAccountName.suffix) "only suffix may create this account"
      pure s
  else .ok s

def newaccount (ctx : Context) (creator newAccountName : Name) (s : State) :
    Except String State := do
  requireAuth ctx creator
  check (newAccountName ≠ Name.empty) "account name cannot be empty"
  check (newAccountName.value &&& 0xF = 0) "account names can only be 12 chars long"
  check (s.isAccount newAccountName = false) "account name is already taken"
  let s := { s with isAccount := Function.update s.isAccount newAccountName true }
  let s ← claimName creator newAccountName s
  check (s.resources.userres.lookup newAccountName = none) uniqueKey
  let userres := s.resources.userres.insert newAccountName ⟨0, 0, 0⟩
  pure ({ s with resources := { s.resources with userres } }.setLimits newAccountName ⟨0, 0, 0⟩)

def setField (flags field : UInt32) (value : Bool) : UInt32 :=
  if value then flags ||| field else flags &&& ~~~ field

def Voting.setFlag (v : Voting) (account : Name) (field : UInt32) (value : Bool) : Voting :=
  match v.voters.lookup account with
  | some row => v.setVoter account { row with flags1 := setField row.flags1 field value }
  | none => v.setVoter account { flags1 := setField 0 field value }

def setalimits (ctx : Context) (account : Name) (ram net cpu : ℤ) (s : State) :
    Except String State := do
  requireAuth ctx systemAccount
  check (s.resources.userres.lookup account = none) "only supports unlimited accounts"
  check (managed s.voting account ramManaged = false ∧ managed s.voting account netManaged = false ∧
      managed s.voting account cpuManaged = false)
      "cannot use setalimits on an account with managed resources"
  -- `set_resource_limits` fails like `get_resource_limits`.
  check (s.isAccount account) unknownKey
  pure (s.setLimits account ⟨ram, net, cpu⟩)

/-- What `setacctram`, `setacctnet` and `setacctcpu` share: a value takes the resource of the
account into management, no value gives it back at `unmanagedLimit`. Returns the new limit. -/
def manageResource (ctx : Context) (account : Name) (field : UInt32) (value : Option ℤ) (lowest : ℤ)
    (alreadyUnmanaged invalid : String) (unmanagedLimit : Option UserResources → ℤ) (s : State) :
    Except String (ResourceLimits × ℤ × State) := do
  requireAuth ctx systemAccount
  let current ← getResourceLimits account s
  match value with
  | none => do
    check (managed s.voting account field) alreadyUnmanaged
    let limit := unmanagedLimit (s.resources.userres.lookup account)
    pure (current, limit, { s with voting := s.voting.setFlag account field false })
  | some limit => do
    check (lowest ≤ limit) invalid
    pure (current, limit, { s with voting := s.voting.setFlag account field true })

def setacctram (ctx : Context) (account : Name) (ramBytes : Option ℤ) (s : State) :
    Except String State := do
  let (current, ram, s) ← manageResource ctx account ramManaged ramBytes 0
    "RAM of account is already unmanaged"
    "not allowed to set RAM limit to unlimited"
    (fun row => ramGiftBytes + (row.map UserResources.ramBytes).getD 0) s
  pure (s.setLimits account { current with ramBytes := ram })

def setacctnet (ctx : Context) (account : Name) (netWeight : Option ℤ) (s : State) :
    Except String State := do
  let (current, net, s) ← manageResource ctx account netManaged netWeight (-1)
    "Network bandwidth of account is already unmanaged" "invalid value for net_weight"
    (fun row => (row.map UserResources.netWeight).getD 0) s
  pure (s.setLimits account { current with net })

def setacctcpu (ctx : Context) (account : Name) (cpuWeight : Option ℤ) (s : State) :
    Except String State := do
  let (current, cpu, s) ← manageResource ctx account cpuManaged cpuWeight (-1)
    "CPU bandwidth of account is already unmanaged" "invalid value for cpu_weight"
    (fun row => (row.map UserResources.cpuWeight).getD 0) s
  pure (s.setLimits account { current with cpu })

end TelosSystem
