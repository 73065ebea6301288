import TelosSystem.Chain

/-! The `eosio.msig` contract. The tables scoped by the proposer have rows under the proposer
and the proposal name; what the chain computes from a packed transaction is a parameter. -/
namespace TelosSystem
open Ledger

structure PermissionLevel where
  actor : Name
  permission : Name
  deriving DecidableEq

/-- An unpacked transaction with actions of type `α`. -/
structure Transaction (α : Type) where
  expiration : ℕ
  delaySec : ℕ
  contextFreeActions : List α
  actions : List α

/-- `check_transaction_authorization` as a predicate of the transaction and the levels handed
to it, and the digest that `assert_sha256` compares. -/
structure MultisigHost (α Hash : Type) where
  authorizes : Transaction α → List PermissionLevel → Bool
  sha256 : Transaction α → Hash

/-- The outer option is the binary extension: a row written before the field existed has none. -/
structure Proposal (α : Type) where
  packedTransaction : Transaction α
  earliestExecTime : Option (Option ℕ)

structure Approval where
  level : PermissionLevel
  time : ℕ
  deriving DecidableEq

structure ApprovalsInfo where
  requestedApprovals : List Approval
  providedApprovals : List Approval

structure OldApprovalsInfo where
  requestedApprovals : List PermissionLevel
  providedApprovals : List PermissionLevel

abbrev ProposalKey := Name × Name

structure Multisig (α : Type) where
  proposals : Table ProposalKey (Proposal α)
  approvals : Table ProposalKey ApprovalsInfo
  oldApprovals : Table ProposalKey OldApprovalsInfo
  invalidations : Table Name ℕ

structure MultisigContext where
  now : BlockTimestamp
  signers : List PermissionLevel

inductive MultisigAction (α Hash : Type)
  | propose (key : ProposalKey) (requested : List PermissionLevel) (trx : Transaction α)
  | approve (key : ProposalKey) (level : PermissionLevel) (proposalHash : Option Hash)
  | unapprove (key : ProposalKey) (level : PermissionLevel)
  | cancel (key : ProposalKey) (canceler : Name)
  | exec (key : ProposalKey) (executer : Name)
  | invalidate (account : Name)

def MultisigContext.requireName (ctx : MultisigContext) (n : Name) : Except String Unit :=
  check (n ∈ ctx.signers.map PermissionLevel.actor) "missing required authority"

def MultisigContext.requireLevel (ctx : MultisigContext) (level : PermissionLevel) :
    Except String Unit :=
  check (level ∈ ctx.signers) "missing required authority"

def oldDelayMessage : String :=
  "old proposals are not allowed to have non-zero `delay_sec`; cancel and retry"

namespace Multisig
variable {α Hash : Type}

/-- The approvals of a proposal whose actors have not invalidated them, from either table. -/
def getApprovals (key : ProposalKey) (s : Multisig α) : Except String (List PermissionLevel) :=
  match s.approvals.lookup key with
  | some apps =>
    .ok ((apps.providedApprovals.filter fun p =>
      match s.invalidations.lookup p.level.actor with
      | none => true
      | some lastInvalidationTime => lastInvalidationTime < p.time).map Approval.level)
  | none => do
    let apps ← require (s.oldApprovals.lookup key) "proposal not found"
    pure (apps.providedApprovals.filter fun p => (s.invalidations.lookup p.actor).isNone)

/-- The table operation of `exec`: the row that `getApprovals` read is erased. -/
def eraseApprovals (key : ProposalKey) (s : Multisig α) : Multisig α :=
  match s.approvals.lookup key with
  | some _ => { s with approvals := s.approvals.erase key }
  | none => { s with oldApprovals := s.oldApprovals.erase key }

def setProposal (key : ProposalKey) (prop : Proposal α) (s : Multisig α) : Multisig α :=
  { s with proposals := s.proposals.insert key prop }

def propose (host : MultisigHost α Hash) (ctx : MultisigContext) (key : ProposalKey)
    (requested : List PermissionLevel) (trx : Transaction α) (s : Multisig α) :
    Except String (Multisig α) := do
  ctx.requireName key.1
  check (ctx.now.sec ≤ trx.expiration) "transaction expired"
  check trx.contextFreeActions.isEmpty
    "not allowed to `propose` a transaction with context-free actions"
  check (s.proposals.lookup key = none) "proposal with the same name exists"
  check (host.authorizes trx requested) "transaction authorization failed"
  check (s.approvals.lookup key = none)
    "could not insert object, most likely a uniqueness constraint was violated"
  pure { s with
    proposals := s.proposals.insert key ⟨trx, some none⟩
    approvals := s.approvals.insert key ⟨requested.map fun level => ⟨level, 0⟩, []⟩ }

def provide (time : ℕ) (key : ProposalKey) (level : PermissionLevel) (s : Multisig α) :
    Except String (Multisig α) :=
  match s.approvals.lookup key with
  | some apps => do
    check (level ∈ apps.requestedApprovals.map Approval.level)
      "approval is not on the list of requested approvals"
    pure { s with
      approvals := s.approvals.insert key
        { requestedApprovals := apps.requestedApprovals.eraseP fun a => a.level = level
          providedApprovals := apps.providedApprovals ++ [⟨level, time⟩] } }
  | none => do
    let apps ← require (s.oldApprovals.lookup key) "proposal not found"
    check (level ∈ apps.requestedApprovals) "approval is not on the list of requested approvals"
    pure { s with
      oldApprovals := s.oldApprovals.insert key
        { requestedApprovals := apps.requestedApprovals.erase level
          providedApprovals := apps.providedApprovals ++ [level] } }

def withdraw (time : ℕ) (key : ProposalKey) (level : PermissionLevel) (s : Multisig α) :
    Except String (Multisig α) :=
  match s.approvals.lookup key with
  | some apps => do
    check (level ∈ apps.providedApprovals.map Approval.level) "no approval previously granted"
    pure { s with
      approvals := s.approvals.insert key
        { requestedApprovals := apps.requestedApprovals ++ [⟨level, time⟩]
          providedApprovals := apps.providedApprovals.eraseP fun a => a.level = level } }
  | none => do
    let apps ← require (s.oldApprovals.lookup key) "proposal not found"
    check (level ∈ apps.providedApprovals) "no approval previously granted"
    pure { s with
      oldApprovals := s.oldApprovals.insert key
        { requestedApprovals := apps.requestedApprovals ++ [level]
          providedApprovals := apps.providedApprovals.erase level } }

def approve (host : MultisigHost α Hash) [DecidableEq Hash] (ctx : MultisigContext)
    (key : ProposalKey) (level : PermissionLevel) (proposalHash : Option Hash) (s : Multisig α) :
    Except String (Multisig α) := do
  ctx.requireLevel level
  let prop ← require (s.proposals.lookup key) "proposal not found"
  check (∀ h ∈ proposalHash, host.sha256 prop.packedTransaction = h) "hash mismatch"
  let s ← provide ctx.now.usec key level s
  match prop.earliestExecTime with
  | some none =>
    let approvals ← getApprovals key s
    if host.authorizes prop.packedTransaction approvals then
      pure (s.setProposal key { prop with
        earliestExecTime :=
          some (some (ctx.now.usec + prop.packedTransaction.delaySec * 1000000)) })
    else pure s
  | some (some _) => pure s
  | none =>
    check (prop.packedTransaction.delaySec = 0) oldDelayMessage
    pure s

def unapprove (host : MultisigHost α Hash) (ctx : MultisigContext) (key : ProposalKey)
    (level : PermissionLevel) (s : Multisig α) : Except String (Multisig α) := do
  ctx.requireLevel level
  let s ← withdraw ctx.now.usec key level s
  let prop ← require (s.proposals.lookup key) "proposal not found"
  match prop.earliestExecTime with
  | some (some _) =>
    let approvals ← getApprovals key s
    if host.authorizes prop.packedTransaction approvals then pure s
    else pure (s.setProposal key { prop with earliestExecTime := some none })
  | some none => pure s
  | none =>
    check (prop.packedTransaction.delaySec = 0) oldDelayMessage
    pure s

def cancel (ctx : MultisigContext) (key : ProposalKey) (canceler : Name) (s : Multisig α) :
    Except String (Multisig α) := do
  ctx.requireName canceler
  let prop ← require (s.proposals.lookup key) "proposal not found"
  check (canceler = key.1 ∨ prop.packedTransaction.expiration < ctx.now.sec)
    "cannot cancel until expiration"
  let s := { s with proposals := s.proposals.erase key }
  match s.approvals.lookup key with
  | some _ => pure { s with approvals := s.approvals.erase key }
  | none =>
    let _ ← require (s.oldApprovals.lookup key) "proposal not found"
    pure { s with oldApprovals := s.oldApprovals.erase key }

/-- The tables after the execution and the actions that are sent. -/
def exec (host : MultisigHost α Hash) (ctx : MultisigContext) (key : ProposalKey) (executer : Name)
    (s : Multisig α) : Except String (Multisig α × List α) := do
  ctx.requireName executer
  let prop ← require (s.proposals.lookup key) "proposal not found"
  check (ctx.now.sec ≤ prop.packedTransaction.expiration) "transaction expired"
  check prop.packedTransaction.contextFreeActions.isEmpty
    "not allowed to `exec` a transaction with context-free actions"
  let approvals ← getApprovals key s
  let s := s.eraseApprovals key
  check (host.authorizes prop.packedTransaction approvals) "transaction authorization failed"
  match prop.earliestExecTime with
  | some (some earliest) => check (earliest ≤ ctx.now.usec) "too early to execute"
  | _ => check (prop.packedTransaction.delaySec = 0) oldDelayMessage
  pure ({ s with proposals := s.proposals.erase key }, prop.packedTransaction.actions)

def invalidate (ctx : MultisigContext) (account : Name) (s : Multisig α) :
    Except String (Multisig α) := do
  ctx.requireName account
  pure { s with invalidations := s.invalidations.insert account ctx.now.usec }

/-- One action of the contract; the actions sent by `exec` run on other contracts or as later
steps. -/
def apply (host : MultisigHost α Hash) [DecidableEq Hash] (ctx : MultisigContext) (s : Multisig α) :
    MultisigAction α Hash → Except String (Multisig α)
  | .propose key requested trx => propose host ctx key requested trx s
  | .approve key level proposalHash => approve host ctx key level proposalHash s
  | .unapprove key level => unapprove host ctx key level s
  | .cancel key canceler => cancel ctx key canceler s
  | .exec key executer => Prod.fst <$> exec host ctx key executer s
  | .invalidate account => invalidate ctx account s

def Step (host : MultisigHost α Hash) [DecidableEq Hash] (now : BlockTimestamp)
    (l : List PermissionLevel × MultisigAction α Hash) (s s' : Multisig α) : Prop :=
  apply host ⟨now, l.1⟩ s l.2 = .ok s'

end Multisig
end TelosSystem
