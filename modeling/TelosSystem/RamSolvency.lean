import TelosSystem.AccountLimits
import TelosSystem.ConstantProduct

/-! The RAM market as a constant-product market: it can buy back all the RAM it has sold, and
nobody gains by trading with it alone. -/
namespace TelosSystem
open Ledger

def Ram.productMarket (r : Ram) : ProductMarket := ⟨r.market.base, r.market.quote, r.maxRamSize⟩

lemma getBancorOutput_pos {x y n : ℤ} (h : 0 < getBancorOutput x y n) :
    getBancorOutput x y n = productOutput x y n := by
  unfold getBancorOutput at h ⊢
  rw [productOutput]
  omega

section
variable {s s' : State} {quote₀ : ℤ}

lemma ramBytesOf_le_total {r : Resources} (h : ∀ a, 0 ≤ ramBytesOf r a) (a : Name) :
    ramBytesOf r a ≤ ramTotal r := by
  have hrows : ∀ a tot, r.userres.lookup a = some tot → 0 ≤ tot.ramBytes := by
    intro a tot ha
    have := h a
    rwa [ramBytesOf, Table.valueAt_some ha] at this
  cases hl : r.userres.lookup a with
  | none =>
    rw [ramBytesOf, Table.valueAt_none hl]
    exact Table.total_nonneg hrows
  | some tot =>
    rw [ramBytesOf, Table.valueAt_some hl]
    exact Table.le_total (f := fun _ tot => tot.ramBytes) hrows hl

lemma RamGrown.step {r r' : Ram} (h : RamGrown r r') :
    ProductMarket.Step r.productMarket r'.productMarket := by
  have hm : r'.productMarket = ⟨r.market.base + (r'.maxRamSize - r.maxRamSize), r.market.quote,
      r.maxRamSize + (r'.maxRamSize - r.maxRamSize)⟩ := by
    rw [Ram.productMarket, h.market, add_sub_cancel]
  rw [hm]
  exact ProductMarket.Step.grow (m := r.productMarket) (sub_nonneg.mpr h.size)

/-- A grown supply leaves what is not in the market as it was. -/
lemma RamGrown.unsold {r r' : Ram} (h : RamGrown r r') :
    r'.maxRamSize - r'.market.base = r.maxRamSize - r.market.base := by
  rw [h.market]
  dsimp only
  omega

lemma RamBought.trade {payer receiver : Name} {tokens bytes : ℤ} {r : Ram}
    (h : RamBought getBancorOutput payer receiver tokens bytes r s s') :
    ProductMarket.Trade r.productMarket s'.ram.productMarket := by
  have hout := h.out
  rw [h.price] at hout
  have hprice := h.price.trans (getBancorOutput_pos hout)
  rw [Ram.productMarket, Ram.productMarket, h.traded.market, h.traded.size, hprice]
  exact ProductMarket.Trade.buy h.positive

lemma RamSold.trade {account : Name} {bytes tokens : ℤ} {r : Ram} (hl : RamLedger quote₀ s)
    (hg : RamGrown s.ram r) (h : RamSold getBancorOutput account bytes tokens r s s') :
    ProductMarket.Trade r.productMarket s'.ram.productMarket := by
  have hout : 0 < tokens := by linarith [h.out]
  rw [h.price] at hout
  have hprice := h.price.trans (getBancorOutput_pos hout)
  have hle : r.market.base + bytes ≤ r.maxRamSize := by
    have h1 := ramBytesOf_le_total hl.held account
    have h2 := h.held
    have h3 := hg.unsold
    have h4 := hl.supply
    have h5 := hl.reserved
    omega
  rw [Ram.productMarket, Ram.productMarket, h.traded.market, h.traded.size, hprice,
    sub_neg_eq_add, ← sub_eq_add_neg]
  exact ProductMarket.Trade.sell h.positive hle

/-- Every action takes the market through steps of the abstract one. -/
theorem RamMove.marketSteps {l : Label} (h : RamMove getBancorOutput l s s')
    (hl : RamLedger quote₀ s) :
    Relation.ReflTransGen ProductMarket.Step s.ram.productMarket s'.ram.productMarket := by
  cases h with
  | same h =>
    rw [h.ram]
  | grown h resources core token => exact Relation.ReflTransGen.single h.step
  | bought payer_auth grown h =>
    exact (Relation.ReflTransGen.single grown.step).tail (ProductMarket.Step.trade h.trade)
  | sold account_auth grown h =>
    exact (Relation.ReflTransGen.single grown.step).tail
      (ProductMarket.Step.trade (h.trade hl grown))

theorem RamMove.backed {l : Label} (h : RamMove getBancorOutput l s s') (hl : RamLedger quote₀ s)
    (hq : 0 ≤ quote₀) (hb : s.ram.productMarket.Backed quote₀) :
    s'.ram.productMarket.Backed quote₀ :=
  ProductMarket.steps_backed (h.marketSteps hl) hq hb

/-- Selling back is never refused for want of stake: the market pays at most what it holds
above its first quote. -/
theorem RamLedger.sellBytes_ok {now : BlockTimestamp} {account : Name} {tot : UserResources}
    {bytes : ℤ} (hl : RamLedger quote₀ s) (hq : 0 ≤ quote₀) (hb : s.ram.productMarket.Backed quote₀)
    (hlimited : s.HasRamLimit account) (htot : s.resources.userres.lookup account = some tot)
    (hpos : 0 < bytes) (hle : bytes ≤ tot.ramBytes)
    (hout : 1 < getBancorOutput (s.ram.updateRamSupply now).market.base
      (s.ram.updateRamSupply now).market.quote bytes) :
    getBancorOutput (s.ram.updateRamSupply now).market.base
      (s.ram.updateRamSupply now).market.quote bytes ≤
      s.ram.totalRamStake ∧
    ∃ s', sellBytes getBancorOutput account bytes tot { s with ram := s.ram.updateRamSupply now } =
      .ok (getBancorOutput (s.ram.updateRamSupply now).market.base
        (s.ram.updateRamSupply now).market.quote bytes, s') := by
  have hg := updateRamSupply_grown now s.ram
  generalize hr : s.ram.updateRamSupply now = r at hg hout ⊢
  have hprice := getBancorOutput_pos (zero_lt_one.trans hout)
  have hheld : tot.ramBytes ≤ ramTotal s.resources := by
    have h := ramBytesOf_le_total hl.held account
    rwa [ramBytesOf, Table.valueAt_some htot] at h
  have hbought : r.productMarket.base + bytes ≤ r.productMarket.supply := by
    have h1 := hg.unsold
    have h2 := hl.supply
    have h3 := hl.reserved
    dsimp only [Ram.productMarket]
    omega
  have hback := (ProductMarket.Step.trade (ProductMarket.Trade.sell hpos hbought)).backed hq
    (hg.step.backed hq hb)
  have hstake : getBancorOutput r.market.base r.market.quote bytes ≤ s.ram.totalRamStake := by
    have h1 := hback.quote₀_le
    have h2 := hl.stake
    have h3 := congrArg ExchangeState.quote hg.market
    dsimp only [Ram.productMarket] at h1 h3
    rw [hprice]
    omega
  refine ⟨hstake, ?_⟩
  simp only [sellBytes, bind_ok, check_ok, exists_const, pure_ok, Prod.mk.injEq, true_and]
  obtain ⟨m, hm⟩ := setRamLimit_total (s := State.setUserRam { s with ram := _ } account _)
    (tot.ramBytes - bytes) hlimited
  exact ⟨_, hout, by rw [hg.stake]; omega, m, hm, rfl⟩

end

/-- Whoever holds RAM has bought it, and its limit could be set then. -/
def RamHoldersKnown (s : State) : Prop := ∀ a, ramBytesOf s.resources a ≠ 0 → s.HasRamLimit a

theorem step.ramHoldersKnown [FloatOps] {now : BlockTimestamp} {l : Label} {s s' : State}
    (h : step now l s s') (hk : RamHoldersKnown s) : RamHoldersKnown s' := by
  intro a ha
  refine h.hasRamLimit ?_
  cases h.ramStep.move with
  | same hsame => exact hk a (hsame.kept.bytes a ▸ ha)
  | grown hg resources core token => exact hk a (resources ▸ ha)
  | @bought payer receiver tokens bytes r payer_auth grown hb =>
    by_cases hr : a = receiver
    · exact hr ▸ hb.traded.limited
    · rw [hb.traded.held a, if_neg hr, add_zero] at ha
      exact hk a ha
  | @sold account bytes tokens r account_auth grown hs =>
    by_cases hr : a = account
    · exact hr ▸ hs.traded.limited
    · rw [hs.traded.held a, if_neg hr, add_zero] at ha
      exact hk a ha

def Action.TradesRamOf (a : Name) : Action → Prop
  | .buyram payer receiver _ => payer = a ∧ receiver = a
  | .buyrambytes payer receiver _ => payer = a ∧ receiver = a
  | .sellram account _ => account = a
  | _ => False

/-- What a trade of an account with itself as the only trader leaves in its favour: nothing. -/
structure TradedAlone (a : Name) (s s' : State) : Prop where
  trades : Relation.ReflTransGen ProductMarket.Trade s.ram.productMarket s'.ram.productMarket
  others : ramTotal s'.resources - ramBytesOf s'.resources a = ramTotal s.resources -
    ramBytesOf s.resources a
  wealth : a ≠ ramAccount → a ≠ ramfeeAccount → a ≠ rexAccount →
    s'.coreBalance a + s'.ram.totalRamStake ≤ s.coreBalance a + s.ram.totalRamStake

section
variable [FloatOps] {now : BlockTimestamp} {s s' : State} {a : Name} {quote₀ : ℤ}

omit [FloatOps] in
lemma TradedAlone.refl (a : Name) (s : State) : TradedAlone a s s :=
  ⟨Relation.ReflTransGen.refl, rfl, fun _ _ _ => le_refl _⟩

omit [FloatOps] in
lemma RamGrown.eq_market {r r' : Ram} (h : RamGrown r r') (hs : r'.maxRamSize = r.maxRamSize) :
    r'.productMarket = r.productMarket := by
  rw [Ram.productMarket, Ram.productMarket, h.market, hs, sub_self, add_zero]

theorem step.tradedAlone {l : Label} (h : step now l s s') (hl : RamLedger quote₀ s)
    (ha : l.action.TradesRamOf a) :
    s.ram.maxRamSize ≤ s'.ram.maxRamSize ∧
    (s'.ram.maxRamSize = s.ram.maxRamSize → TradedAlone a s s') := by
  obtain ⟨auth, action⟩ := l
  have hbuy : ∀ {quant : Asset}, buyram getBancorOutput ⟨now, auth⟩ a a quant s = .ok s' →
      s.ram.maxRamSize ≤ s'.ram.maxRamSize ∧
      (s'.ram.maxRamSize = s.ram.maxRamSize → TradedAlone a s s') := by
    intro quant hb
    obtain ⟨r, tokens, bytes, hg, hb, -⟩ := buyram_bought hb
    refine ⟨hb.traded.size ▸ hg.size, fun hs => ⟨?_, ?_, fun h1 h2 h3 => ?_⟩⟩
    · rw [← hg.eq_market (hb.traded.size ▸ hs)]
      exact Relation.ReflTransGen.single hb.trade
    · rw [hb.traded.total, hb.traded.held a, if_pos rfl]
      omega
    · have h4 := hb.paid.trader h1 h2 h3
      rw [hb.traded.stake, hg.stake]
      omega
  unfold step at h
  cases action with
  | buyram payer receiver quant =>
    obtain ⟨rfl, rfl⟩ := ha
    exact hbuy h
  | buyrambytes payer receiver bytes =>
    obtain ⟨rfl, rfl⟩ := ha
    exact hbuy h
  | sellram account bytes =>
    cases ha
    obtain ⟨r, tokens, hg, hs, -⟩ := sellram_sold h
    refine ⟨hs.traded.size ▸ hg.size, fun hsize => ⟨?_, ?_, fun h1 h2 h3 => ?_⟩⟩
    · rw [← hg.eq_market (hs.traded.size ▸ hsize)]
      exact Relation.ReflTransGen.single (hs.trade hl hg)
    · rw [hs.traded.total, hs.traded.held, if_pos rfl]
      omega
    · have h4 := hs.paid.trader h1 h2 h3
      rw [hs.traded.stake, hg.stake]
      omega
  | _ => exact ha.elim

theorem tradedAlone_run {t₀ t : BlockTimestamp} {tr : List (BlockTimestamp × Label)}
    (hl : RamLedger quote₀ s) (hrun : TimedRun step t₀ s tr t s')
    (ha : ∀ x ∈ tr, x.2.action.TradesRamOf a) :
    RamLedger quote₀ s' ∧ s.ram.maxRamSize ≤ s'.ram.maxRamSize ∧
      (s'.ram.maxRamSize = s.ram.maxRamSize → TradedAlone a s s') := by
  refine hrun.invariant (fun _ _ s' => RamLedger quote₀ s' ∧ s.ram.maxRamSize ≤ s'.ram.maxRamSize ∧
    (s'.ram.maxRamSize = s.ram.maxRamSize → TradedAlone a s s')) (fun l => l.action.TradesRamOf a)
    ⟨hl, le_refl _, fun _ => TradedAlone.refl a s⟩ (fun {tr t t' l s₁ s₂} hi _ hal hs => ?_) ha
  obtain ⟨hl₁, hle₁, hsame₁⟩ := hi
  obtain ⟨hle₂, hsame₂⟩ := hs.tradedAlone hl₁ hal
  refine ⟨hs.ramStep.move.ledger hl₁, hle₁.trans hle₂, fun hsize => ?_⟩
  have h1 := hsame₁ (by omega)
  have h2 := hsame₂ (by omega)
  exact ⟨h1.trades.trans h2.trades, h2.others.trans h1.others, fun ha₁ ha₂ ha₃ =>
    (h2.wealth ha₁ ha₂ ha₃).trans (h1.wealth ha₁ ha₂ ha₃)⟩

/-- After every run since `init`, the market is worth its supply at the first quote, every
sale can be paid, and an account that trades alone and ends with the RAM it had has gained
nothing, when the first quote is not zero. -/
theorem ram_market_solvent {t₀ t : BlockTimestamp} {auth : List Name} {version : ℕ} {core : Symbol}
    {s₀ s₁ : State} {tr : List (BlockTimestamp × Label)} (h0 : BeforeInit s₀)
    (hinit : init ⟨t₀, auth⟩ version core s₀ = .ok s₁) (hrun : TimedRun step t₀ s₁ tr t s) :
    s.ram.maxRamSize * s₁.ram.market.quote ≤ s.ram.market.base * s.ram.market.quote ∧
    0 ≤ s.ram.totalRamStake ∧
    (∀ u account tot bytes, s.resources.userres.lookup account = some tot → 0 < bytes →
      bytes ≤ tot.ramBytes →
      let r := s.ram.updateRamSupply u
      let tokens := getBancorOutput r.market.base r.market.quote bytes
      1 < tokens →
        (∃ s', sellBytes getBancorOutput account bytes tot { s with ram := r } = .ok (tokens, s')) ∧
        ((∀ x ∈ tr, x.2.RamQuiet) → 0 ≤ s₁.coreBalance ramAccount →
          tokens ≤ s.coreBalance ramAccount)) ∧
    (0 < s₁.ram.market.quote → ∀ a u s' tr', TimedRun step t s tr' u s' →
      (∀ x ∈ tr', x.2.action.TradesRamOf a) →
      s'.ram.maxRamSize = s.ram.maxRamSize → ramBytesOf s'.resources a = ramBytesOf s.resources a →
        s.ram.totalRamStake ≤ s'.ram.totalRamStake ∧
        (a ≠ ramAccount → a ≠ ramfeeAccount → a ≠ rexAccount →
          s'.coreBalance a ≤ s.coreBalance a)) := by
  obtain ⟨hledger, hbase, hstake, hquote⟩ := init_ledger h0 hinit
  obtain ⟨hl, hb⟩ : RamLedger s₁.ram.market.quote s ∧
    s.ram.productMarket.Backed s₁.ram.market.quote := by
    refine hrun.stateInvariant (fun _ s => RamLedger s₁.ram.market.quote s ∧
      s.ram.productMarket.Backed s₁.ram.market.quote) ⟨hledger, ?_⟩ fun hi _ hs => ?_
    · exact ProductMarket.backed_opening (m := s₁.ram.productMarket) hledger.size.le hbase
    · exact ⟨hs.ramStep.move.ledger hi.1, hs.ramStep.move.backed hi.1 hquote hi.2⟩
  have hknown : RamHoldersKnown s := by
    refine hrun.stateInvariant (fun _ => RamHoldersKnown) (fun a ha => absurd ?_ ha) fun hi _ hs =>
      hs.ramHoldersKnown hi
    rw [init_resources hinit, h0.bytes_eq_zero]
  refine ⟨hb.product, ?_, fun u account tot bytes htot hpos hle hout => ?_,
    fun hq a u s' tr' hrun' ha hsize hheld => ?_⟩
  · have h1 := hl.stake
    have h2 := hb.quote₀_le
    dsimp only [Ram.productMarket] at h2
    omega
  · have hholds : ramBytesOf s.resources account ≠ 0 := by
      rw [ramBytesOf, Table.valueAt_some htot]
      omega
    obtain ⟨hpay, hsell⟩ := hl.sellBytes_ok hquote hb (hknown account hholds) htot hpos hle hout
    refine ⟨hsell, fun hquiet hbal => hpay.trans ?_⟩
    have hsame : ramSurplus s = ramSurplus s₁ :=
      hrun.invariant (fun _ _ s => ramSurplus s = ramSurplus s₁) Label.RamQuiet rfl
        (fun hi _ hq hs => (hs.ramStep.move.surplus hq).trans hi) hquiet
    unfold ramSurplus at hsame
    omega
  · obtain ⟨hl', -, hsame⟩ := tradedAlone_run hl hrun' ha
    have ht := hsame hsize
    have hquote' := ProductMarket.trades_quote_le ht.trades hquote hb (hb.base_pos hq hl.size) (by
      have h1 := hl.supply
      have h2 := hl'.supply
      have h3 := hl.reserved
      have h4 := hl'.reserved
      have h5 := ht.others
      dsimp only [Ram.productMarket]
      omega)
    have hle : s.ram.totalRamStake ≤ s'.ram.totalRamStake := by
      have h1 := hl.stake
      have h2 := hl'.stake
      dsimp only [Ram.productMarket] at hquote'
      omega
    exact ⟨hle, fun h1 h2 h3 => by linarith [ht.wealth h1 h2 h3]⟩

end

def bobsRam : List (BlockTimestamp × Label) :=
  [(launchTime, ⟨[alice], .buyram alice bob ⟨5000, tlos⟩⟩)]

def alicesTrades : List (BlockTimestamp × Label) :=
  [(launchTime, ⟨[alice], .buyram alice alice ⟨20000, tlos⟩⟩),
    (launchTime.after 60, ⟨[alice], .sellram alice 21375777419⟩)]

/-- Traces without an abort are runs from the state after `init`. -/
def runsFrom (s : State) (tr : List (BlockTimestamp × Label)) : Bool :=
  (runAll (fun now (l : Label) => @exec launchFloats ⟨now, l.auth⟩ l.action) tr s).isOk

def ranFrom (s : State) (tr : List (BlockTimestamp × Label)) : State :=
  stateAfter (fun now (l : Label) => @exec launchFloats ⟨now, l.auth⟩ l.action) tr s

lemma ranFrom_run {t₀ : BlockTimestamp} {s : State} {tr : List (BlockTimestamp × Label)}
    (hchain : (t₀ :: tr.map Prod.fst).IsChain (· ≤ ·)) (h : runsFrom s tr = true) :
    TimedRun (@step launchFloats) t₀ s tr ((tr.getLast?.map Prod.fst).getD t₀) (ranFrom s tr) :=
  letI := launchFloats
  timedRun_stateAfter hchain h

theorem launch_ram_solvent :
    (ranFrom (opened unopenedState) bobsRam).ram.totalRamStake ≤
        (ranFrom (ranFrom (opened unopenedState) bobsRam) alicesTrades).ram.totalRamStake ∧
      (ranFrom (ranFrom (opened unopenedState) bobsRam) alicesTrades).coreBalance alice <
        (ranFrom (opened unopenedState) bobsRam).coreBalance alice := by
  have hinit := opened_ok (s := unopenedState) (by decide +kernel)
  have hc : (launchTime :: bobsRam.map Prod.fst).IsChain (· ≤ ·) := by decide
  have hc' : (launchTime :: alicesTrades.map Prod.fst).IsChain (· ≤ ·) := by decide
  have hrun := ranFrom_run hc (s := opened unopenedState) (by decide +kernel)
  have hrun' := ranFrom_run hc' (s := ranFrom (opened unopenedState) bobsRam) (by decide +kernel)
  obtain ⟨-, -, -, halone⟩ :=
    @ram_market_solvent launchFloats _ _ _ _ _ _ _ _ _ unopenedState_beforeInit hinit hrun
  refine ⟨(halone (by decide +kernel) alice _ _ _ hrun' ?_ (by decide +kernel)
    (by decide +kernel)).1, by decide +kernel⟩
  intro x hx
  simp only [alicesTrades, List.mem_cons, List.not_mem_nil, or_false] at hx
  rcases hx with rfl | rfl
  · exact ⟨rfl, rfl⟩
  · rfl

/-- A chain whose core token has 999 units when the market opens. -/
def scarceState : State :=
  { unopenedState with token :=
      { stats := (∅ : Table UInt64 CurrencyStats).insert tlos.code ⟨⟨999, tlos⟩, ⟨maxAmount, tlos⟩, systemAccount⟩
        accounts := (∅ : Table (Name × UInt64) Asset).insert (alice, tlos.code) ⟨999, tlos⟩ } }

def buyAll : List (BlockTimestamp × Label) :=
  [(launchTime, ⟨[alice], .buyram alice alice ⟨800, tlos⟩⟩)]

def sellAndRebuy : List (BlockTimestamp × Label) :=
  [(launchTime, ⟨[alice], .sellram alice 68719476736⟩),
    (launchTime, ⟨[alice], .buyram alice alice ⟨2, tlos⟩⟩)]

/-- A market that opens without tokens sells everything at any price, and later buys it back
for all it holds: selling and buying back then ends with the same RAM and more tokens. -/
theorem empty_quote_gains :
    ∃ s₁ s s', BeforeInit scarceState ∧
      init ⟨launchTime, [systemAccount]⟩ 0 scarceState.core scarceState = .ok s₁ ∧
      TimedRun (@step launchFloats) launchTime s₁ buyAll launchTime s ∧
      TimedRun (@step launchFloats) launchTime s sellAndRebuy launchTime s' ∧
      (∀ x ∈ sellAndRebuy, x.2.action.TradesRamOf alice) ∧ s'.ram.maxRamSize = s.ram.maxRamSize ∧
      ramBytesOf s'.resources alice = ramBytesOf s.resources alice ∧
      s.coreBalance alice < s'.coreBalance alice := by
  have hinit := opened_ok (s := scarceState) (by decide +kernel)
  have hbefore : BeforeInit scarceState := ⟨by decide, rfl, rfl, fun a tot ha => by cases ha⟩
  have hc : (launchTime :: buyAll.map Prod.fst).IsChain (· ≤ ·) := by decide
  have hc' : (launchTime :: sellAndRebuy.map Prod.fst).IsChain (· ≤ ·) := by decide
  have hrun := ranFrom_run hc (s := opened scarceState) (by decide +kernel)
  have hrun' := ranFrom_run hc' (s := ranFrom (opened scarceState) buyAll) (by decide +kernel)
  refine ⟨_, _, _, hbefore, hinit, hrun, hrun',
    ?_, by decide +kernel, by decide +kernel, by decide +kernel⟩
  intro x hx
  simp only [sellAndRebuy, List.mem_cons, List.not_mem_nil, or_false] at hx
  rcases hx with rfl | rfl
  · rfl
  · exact ⟨rfl, rfl⟩

end TelosSystem
