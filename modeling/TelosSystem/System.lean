import TelosSystem.BlockProduction
import TelosSystem.PowerUp
import TelosSystem.RamMarket

/-! The system as a whole: its actions, and the states they reach at non-decreasing block
times. -/
namespace TelosSystem
open Ledger

inductive Action
  | deposit (owner : Name) (amount : Asset)
  | withdraw (owner : Name) (amount : Asset)
  | buyrex (fromAccount : Name) (amount : Asset)
  | unstaketorex (owner receiver : Name) (fromNet fromCpu : Asset)
  | sellrex (fromAccount : Name) (rex : Asset)
  | cnclrexorder (owner : Name)
  | rent (k : LoanKind) (fromAccount receiver : Name) (loanPayment loanFund : Asset)
  | fundLoan (k : LoanKind) (fromAccount : Name) (loanNum : ℕ) (payment : Asset)
  | defundLoan (k : LoanKind) (fromAccount : Name) (loanNum : ℕ) (amount : Asset)
  | updaterex (owner : Name)
  | setrex (balance : Asset)
  | rexexec (user : Name) (max : UInt16)
  | consolidate (owner : Name)
  | mvtosavings (owner : Name) (rex : Asset)
  | mvfrsavings (owner : Name) (rex : Asset)
  | closerex (owner : Name)
  | delegatebw (fromAccount receiver : Name) (stakeNet stakeCpu : Asset) (transfer : Bool)
  | undelegatebw (fromAccount receiver : Name) (unstakeNet unstakeCpu : Asset)
  | refund (owner : Name)
  | voteproducer (voter proxy : Name) (producers : List Name)
  | voteupdate (voter : Name)
  | regproducer (producer : Name) (urlSize : ℕ) (location : UInt16)
  | unregprod (producer : Name)
  | unregreason (producer : Name) (reasonSize : ℕ)
  | rmvproducer (producer : Name)
  | votebpout (bp : Name) (penaltyHours : UInt32)
  | setvotecontr (contract : Checksum160)
  | setvotedecay (decayStartEpoch decayIncreaseYearly : UInt64) (nonce : Option UInt64)
  | setselfstake (selfStakeBoostMultiplier : UInt64)
  | buyram (payer receiver : Name) (quant : Asset)
  | buyrambytes (payer receiver : Name) (bytes : UInt32)
  | sellram (account : Name) (bytes : ℤ)
  | setram (maxRamSize : UInt64)
  | setramrate (bytesPerBlock : UInt16)
  | cfgpowerup (args : PowerupConfig)
  | powerupexec (user : Name) (max : UInt16)
  | powerup (payer receiver : Name) (days : ℕ) (netFrac cpuFrac : ℤ) (maxPayment : Asset)
  | distviarex (fromAccount : Name) (amount : Asset)
  | bidname (bidder newname : Name) (bid : Asset)
  | bidrefund (bidder newname : Name)
  | newaccount (creator newAccountName : Name)
  | setalimits (account : Name) (ram net cpu : ℤ)
  | setacctram (account : Name) (ramBytes : Option ℤ)
  | setacctnet (account : Name) (netWeight : Option ℤ)
  | setacctcpu (account : Name) (cpuWeight : Option ℤ)
  | claimrewards (owner : Name)
  | onblock (b : Block)
  | transfer (source dest : Name) (quantity : Asset) (memoSize : ℕ)

def distviarex (ctx : Context) (fromAccount : Name) (amount : Asset) (s : State) :
    Except String State := do
  check (fromAccount = tedpAccount) "distviarex may only distribute TEDP funds"
  requireAuth ctx tedpAccount
  channelToRex ctx.now fromAccount amount false s

def tokenTransfer (ctx : Context) (source dest : Name) (quantity : Asset) (memoSize : ℕ)
    (s : State) : Except String State := do
  let token ← s.token.transfer s.isAccount ctx.auth source dest quantity memoSize
  pure { s with token }

section
variable [FloatOps]

def exec (ctx : Context) : Action → State → Except String State
  | .deposit owner amount => deposit ctx owner amount
  | .withdraw owner amount => withdraw ctx owner amount
  | .buyrex fromAccount amount => buyrex ctx fromAccount amount
  | .unstaketorex owner receiver fromNet fromCpu => unstaketorex ctx owner receiver fromNet fromCpu
  | .sellrex fromAccount rex => sellrex ctx fromAccount rex
  | .cnclrexorder owner => cnclrexorder ctx owner
  | .rent k fromAccount receiver payment fund => rent k ctx fromAccount receiver payment fund
  | .fundLoan k fromAccount loanNum payment => fundLoan k ctx fromAccount loanNum payment
  | .defundLoan k fromAccount loanNum amount => defundLoan k ctx fromAccount loanNum amount
  | .updaterex owner => updaterex ctx owner
  | .setrex balance => setrex ctx balance
  | .rexexec user max => rexexec ctx user max
  | .consolidate owner => consolidate ctx owner
  | .mvtosavings owner rex => mvtosavings ctx owner rex
  | .mvfrsavings owner rex => mvfrsavings ctx owner rex
  | .closerex owner => closerex ctx owner
  | .delegatebw fromAccount receiver net cpu transfer =>
    delegatebw ctx fromAccount receiver net cpu transfer
  | .undelegatebw fromAccount receiver net cpu => undelegatebw ctx fromAccount receiver net cpu
  | .refund owner => refund ctx owner
  | .voteproducer voter proxy producers => voteproducer ctx voter proxy producers
  | .voteupdate voter => voteupdate ctx voter
  | .regproducer producer urlSize location => regproducer ctx producer urlSize location
  | .unregprod producer => unregprod ctx producer
  | .unregreason producer reasonSize => unregreason ctx producer reasonSize
  | .rmvproducer producer => rmvproducer ctx producer
  | .votebpout bp penaltyHours => votebpout ctx bp penaltyHours
  | .setvotecontr contract => setvotecontr ctx contract
  | .setvotedecay start yearly nonce => fun s => Prod.snd <$> setvotedecay ctx start yearly nonce s
  | .setselfstake multiplier => setselfstake ctx multiplier
  | .buyram payer receiver quant => buyram getBancorOutput ctx payer receiver quant
  | .buyrambytes payer receiver bytes => buyrambytes getBancorOutput ctx payer receiver bytes
  | .sellram account bytes => sellram getBancorOutput ctx account bytes
  | .setram maxRamSize => setram ctx maxRamSize
  | .setramrate bytesPerBlock => setramrate ctx bytesPerBlock
  | .cfgpowerup args => cfgpowerup ctx args
  | .powerupexec user max => powerupexec ctx user max
  | .powerup payer receiver days net cpu maxPayment =>
    powerup ctx payer receiver days net cpu maxPayment
  | .distviarex fromAccount amount => distviarex ctx fromAccount amount
  | .bidname bidder newname bid => bidname ctx bidder newname bid
  | .bidrefund bidder newname => bidrefund bidder newname
  | .newaccount creator newAccountName => newaccount ctx creator newAccountName
  | .setalimits account ram net cpu => setalimits ctx account ram net cpu
  | .setacctram account ramBytes => setacctram ctx account ramBytes
  | .setacctnet account netWeight => setacctnet ctx account netWeight
  | .setacctcpu account cpuWeight => setacctcpu ctx account cpuWeight
  | .claimrewards owner => claimrewards ctx owner
  | .onblock b => onblock ctx b
  | .transfer source dest quantity memoSize => tokenTransfer ctx source dest quantity memoSize

structure Label where
  auth : List Name
  action : Action

/-- A successful action; a failed one leaves the state as it was. -/
def step (now : BlockTimestamp) (l : Label) (s s' : State) : Prop :=
  exec ⟨now, l.auth⟩ l.action s = .ok s'

/-- A state in which nothing has happened yet in REX, staking and PowerUp. -/
structure Genesis (s : State) : Prop where
  pools : s.pools = {}
  rex : s.rex = ⟨∅, ∅, ∅, fun _ => ∅, [], []⟩
  delband : s.staking.delband = ∅
  refunds : s.staking.refunds = ∅
  resources : ∀ k a, totalWeight s.resources k a = 0
  powerup : s.powerup = ⟨none, ∅⟩
  solvent : 0 ≤ s.coreBalance rexAccount

def Reachable (t : BlockTimestamp) (s : State) : Prop :=
  ∃ t₀ s₀ tr, Genesis s₀ ∧ TimedRun step t₀ s₀ tr t s

/-- Executed traces are runs. -/
lemma timedRun_stateAfter {t₀ : BlockTimestamp} {s : State} {tr : List (BlockTimestamp × Label)}
    (hchain : (t₀ :: tr.map Prod.fst).IsChain (· ≤ ·))
    (h : (runAll (fun now (l : Label) => exec ⟨now, l.auth⟩ l.action) tr s).isOk = true) :
    TimedRun step t₀ s tr ((tr.getLast?.map Prod.fst).getD t₀)
      (stateAfter (fun now (l : Label) => exec ⟨now, l.auth⟩ l.action) tr s) :=
  timedRun_of_runAll tr hchain (runAll_stateAfter h)

end

/-- Values of the floating-point functions that are exact where they are used below: the
vote weight for half or all of the producers, no decay within a block, and a constant price. -/
@[reducible] def launchFloats : FloatOps where
  voteWeight n := n / 30
  decayedDifference difference elapsed _ := if elapsed = 0 then difference else 0
  powerupFee res increase := -(-(res.maxPrice.amount * increase) / res.weight)
  ramCost ramReserve eosReserve bytes := bytes * eosReserve / (ramReserve - bytes)

def tlos : Symbol := ⟨0x534f4c54, 4⟩

def alice : Name := ⟨0x345c850000000000⟩

def bob : Name := ⟨0x3d0e000000000000⟩

/-- The first slot of the year 2020. -/
def launchTime : BlockTimestamp := ⟨1262304000, by decide⟩

/-- A block some seconds after another. -/
def BlockTimestamp.after (t : BlockTimestamp) (seconds : ℕ) : BlockTimestamp :=
  ⟨(t.slot + 2 * seconds) % 2 ^ 32, Nat.mod_lt _ (by decide)⟩

def launchToken : Token :=
  { stats := (∅ : Table UInt64 CurrencyStats).insert tlos.code ⟨⟨30000000, tlos⟩, ⟨maxAmount, tlos⟩, systemAccount⟩
    accounts := (((∅ : Table (Name × UInt64) Asset).insert (alice, tlos.code)
    ⟨10000000, tlos⟩).insert
      (bob, tlos.code) ⟨10000000, tlos⟩).insert (systemAccount, tlos.code) ⟨10000000, tlos⟩ }

/-- Nothing has happened yet; two users hold core tokens. -/
def launchState : State :=
  { core := tlos
    isAccount := fun _ => true
    token := launchToken
    pools := {}
    rex := ⟨∅, ∅, ∅, fun _ => ∅, [], []⟩
    staking := ⟨∅, ∅, ∅⟩
    resources := ⟨∅, fun _ => ⟨ramGiftBytes, 0, 0⟩⟩
    powerup := ⟨none, ∅⟩
    voting := ⟨∅, ∅, 0, 0, {}⟩
    ram := ⟨⟨68719476736, 30000⟩, 68719476736, 0, 0, 0, launchTime.slot⟩
    auctions := ⟨∅, ∅, launchTime.slot⟩
    blockNum := 2000
    threshActivatedStakeTime := launchTime.usec }

lemma launchState_genesis : Genesis launchState := by
  refine ⟨rfl, rfl, rfl, rfl, fun k a => ?_, rfl, by decide⟩
  cases k <;> rfl

def launched (tr : List (BlockTimestamp × Label)) : State :=
  stateAfter (fun now (l : Label) => @exec launchFloats ⟨now, l.auth⟩ l.action) tr launchState

/-- A trace that does not abort at the launch. -/
def launches (tr : List (BlockTimestamp × Label)) : Bool :=
  (runAll (fun now (l : Label) => @exec launchFloats ⟨now, l.auth⟩ l.action) tr launchState).isOk

lemma launched_run {tr : List (BlockTimestamp × Label)} (h : launches tr = true)
    (hchain : (launchTime :: tr.map Prod.fst).IsChain (· ≤ ·)) :
    TimedRun (@step launchFloats) launchTime launchState tr
      ((tr.getLast?.map Prod.fst).getD launchTime)
      (launched tr) :=
  letI := launchFloats
  timedRun_stateAfter hchain h

lemma launched_reachable {tr : List (BlockTimestamp × Label)} (h : launches tr = true)
    (hchain : (launchTime :: tr.map Prod.fst).IsChain (· ≤ ·)) :
    @Reachable launchFloats ((tr.getLast?.map Prod.fst).getD launchTime) (launched tr) :=
  ⟨launchTime, launchState, tr, launchState_genesis, launched_run h hchain⟩

lemma launched_step {tr : List (BlockTimestamp × Label)} {now : BlockTimestamp} {l : Label}
    (h : launches (tr ++ [(now, l)]) = true) :
    @step launchFloats now l (launched tr) (launched (tr ++ [(now, l)])) := by
  have hr := runAll_stateAfter h
  rw [runAll, List.foldlM_append, bind_ok] at hr
  obtain ⟨s₁, h₁, h₂⟩ := hr
  rw [List.foldlM_cons, bind_ok] at h₂
  obtain ⟨s₂, h₂, h₃⟩ := h₂
  cases h₃
  have hs : launched tr = s₁ := by
    unfold launched stateAfter runAll
    rw [h₁]
  rw [hs]
  exact h₂

def days (n : ℕ) : BlockTimestamp := launchTime.after (n * 86400)

def plainBlock (parent : UInt8) (timestamp : BlockTimestamp) : Block where
  header := ⟨timestamp, bob, ⟨[0, 0, 0, parent] ++ List.replicate 28 0, by simp⟩⟩
  activeProducers := []
  accepted := fun _ => false
  payroll := ⟨0, 0, fun _ => 0⟩

/-- Alice buys REX and saves some of it, and Bob rents CPU. -/
def launchTrace : List (BlockTimestamp × Label) :=
  [(launchTime, ⟨[alice], .deposit alice ⟨1000000, tlos⟩⟩),
    (launchTime, ⟨[alice], .buyrex alice ⟨1000000, tlos⟩⟩),
    (launchTime, ⟨[alice], .mvtosavings alice ⟨1000, rexSymbol⟩⟩),
    (launchTime, ⟨[systemAccount], .setrex ⟨20000, tlos⟩⟩),
    (launchTime, ⟨[bob], .deposit bob ⟨100000, tlos⟩⟩),
    (launchTime.after 600, ⟨[bob], .rent .cpu bob bob ⟨10000, tlos⟩ ⟨10000, tlos⟩⟩)]

lemma launchTrace_launches : launches launchTrace = true := by decide +kernel

lemma launchTrace_chain : (launchTime :: launchTrace.map Prod.fst).IsChain (· ≤ ·) := by decide

def launchEnd : State := launched launchTrace

lemma launchEnd_reachable : @Reachable launchFloats (launchTime.after 600) launchEnd := by
  have h := launched_reachable launchTrace_launches launchTrace_chain
  rw [show (launchTrace.getLast?.map Prod.fst).getD launchTime =
    launchTime.after 600 by decide] at h
  exact h

end TelosSystem
