import TelosSystem.StakeCustody

/-! The RAM ledger: the market row, the two global counters, the rows of the users and the
tokens of `eosio.ram` agree after every run, whatever the conversion function returns. -/
namespace TelosSystem
open Ledger

/-- The conversion function a trade is made with, and the action. -/
structure RamLabel where
  conversion : ℤ → ℤ → ℤ → ℤ
  label : Label

section
variable [FloatOps]

/-- The actions, with RAM traded at any conversion function. -/
def ramExec (bancor : ℤ → ℤ → ℤ → ℤ) (ctx : Context) : Action → State → Except String State
  | .buyram payer receiver quant => buyram bancor ctx payer receiver quant
  | .buyrambytes payer receiver bytes => buyrambytes bancor ctx payer receiver bytes
  | .sellram account bytes => sellram bancor ctx account bytes
  | action => exec ctx action

def ramStep (now : BlockTimestamp) (l : RamLabel) (s s' : State) : Prop :=
  ramExec l.conversion ⟨now, l.label.auth⟩ l.label.action s = .ok s'

lemma step.ramStep {now : BlockTimestamp} {l : Label} {s s' : State} (h : step now l s s') :
    ramStep now ⟨getBancorOutput, l⟩ s s' := by
  obtain ⟨auth, action⟩ := l
  cases action <;> exact h

end

structure BeforeInit (s : State) : Prop where
  size : 0 < s.ram.maxRamSize
  reserved : s.ram.totalRamBytesReserved = 0
  stake : s.ram.totalRamStake = 0
  bytes : ∀ a tot, s.resources.userres.lookup a = some tot → tot.ramBytes = 0

/-- The supply grew by some bytes, all of which went into the market. -/
structure RamGrown (r r' : Ram) : Prop where
  size : r.maxRamSize ≤ r'.maxRamSize
  market : r'.market = ⟨r.market.base + (r'.maxRamSize - r.maxRamSize), r.market.quote⟩
  reserved : r'.totalRamBytesReserved = r.totalRamBytesReserved
  stake : r'.totalRamStake = r.totalRamStake

structure RamTraded (account : Name) (bytes tokens : ℤ) (r : Ram) (s s' : State) : Prop where
  size : s'.ram.maxRamSize = r.maxRamSize
  market : s'.ram.market = ⟨r.market.base - bytes, r.market.quote + tokens⟩
  reserved : s'.ram.totalRamBytesReserved = r.totalRamBytesReserved + bytes
  stake : s'.ram.totalRamStake = r.totalRamStake + tokens
  held : ∀ a, ramBytesOf s'.resources a = ramBytesOf s.resources a +
    if a = account then bytes else 0
  total : ramTotal s'.resources = ramTotal s.resources + bytes
  rows : ∀ a, (s.resources.userres.lookup a).isSome → (s'.resources.userres.lookup a).isSome
  limited : s.HasRamLimit account

section
variable {now : BlockTimestamp} {s s' : State}

lemma RamGrown.refl (r : Ram) : RamGrown r r := ⟨le_refl _, by simp, rfl, rfl⟩

lemma updateRamSupply_grown (now : BlockTimestamp) (r : Ram) :
    RamGrown r (r.updateRamSupply now) := by
  unfold Ram.updateRamSupply
  split_ifs
  · exact RamGrown.refl r
  · refine ⟨?_, ?_, rfl, rfl⟩
    · dsimp only
      omega
    · dsimp only
      congr 1
      omega

/-- Writing the row of an account with other RAM bytes, and its limit. -/
lemma setRam_traded {account : Name} {bytes tokens : ℤ} {r ram : Ram} {tot : UserResources}
    (h : (State.setUserRam { s with ram } account tot).setRamLimit account tot.ramBytes = .ok s')
    (hsize : ram.maxRamSize = r.maxRamSize)
    (hmarket : ram.market = ⟨r.market.base - bytes, r.market.quote + tokens⟩)
    (hreserved : ram.totalRamBytesReserved = r.totalRamBytesReserved + bytes)
    (hstake : ram.totalRamStake = r.totalRamStake + tokens)
    (hr : tot.ramBytes = ramBytesOf s.resources account + bytes) :
    RamTraded account bytes tokens r s s' ∧ s'.token = s.token ∧ s'.core = s.core := by
  obtain ⟨hlimited, limits, rfl⟩ := setRamLimit_ok h
  refine ⟨⟨hsize, hmarket, hreserved, hstake, fun a => ?_, ?_, fun a ha => ?_, hlimited⟩, rfl, rfl⟩
  · by_cases ha : a = account
    · subst ha
      rw [if_pos rfl, ← hr]
      simp [ramBytesOf, Table.valueAt, State.setUserRam]
    · simp [ramBytesOf, Table.valueAt, State.setUserRam, AList.lookup_insert_ne ha, ha]
  · have ht := Table.total_insert (fun _ (tot : UserResources) => tot.ramBytes)
      s.resources.userres account tot
    simp only [ramTotal, State.setUserRam, ramBytesOf] at ht hr ⊢
    omega
  · simp only [State.setUserRam, Table.lookup_insert']
    split_ifs
    · rfl
    · exact ha

lemma buyBytes_traded {bancor : ℤ → ℤ → ℤ → ℤ} {receiver : Name} {quant : ℤ}
    (h : buyBytes bancor receiver quant s = .ok s') :
    ∃ bytes, bytes = bancor s.ram.market.quote s.ram.market.base quant ∧ 0 < bytes ∧
      RamTraded receiver bytes quant s.ram s s' ∧ s'.token = s.token ∧ s'.core = s.core := by
  simp only [buyBytes, creditRam, bind_ok, check_ok, exists_const] at h
  obtain ⟨hpos, h⟩ := h
  refine ⟨_, rfl, hpos, setRam_traded h rfl rfl rfl rfl ?_⟩
  unfold ramBytesOf Table.valueAt
  cases s.resources.userres.lookup receiver <;> simp

lemma sellBytes_traded {bancor : ℤ → ℤ → ℤ → ℤ} {account : Name} {bytes out : ℤ}
    {tot : UserResources} (htot : s.resources.userres.lookup account = some tot)
    (h : sellBytes bancor account bytes tot s = .ok (out, s')) :
    out = bancor s.ram.market.base s.ram.market.quote bytes ∧ 1 < out ∧
      RamTraded account (-bytes) (-out) s.ram s s' ∧ s'.token = s.token ∧ s'.core = s.core := by
  simp only [sellBytes, bind_ok, check_ok, exists_const, pure_ok, Prod.mk.injEq] at h
  obtain ⟨hout, -, m, hm, rfl, rfl⟩ := h
  refine ⟨rfl, hout, setRam_traded hm rfl ?_ rfl rfl ?_⟩
  · rw [sub_neg_eq_add, ← sub_eq_add_neg]
  · rw [ramBytesOf, Table.valueAt_some htot, sub_eq_add_neg]

/-- The fee comes out of the balance of the payer. -/
lemma chargeRamFee_ok {payer : Name} {fee : ℤ} {memoSize : ℕ}
    (h : chargeRamFee now payer fee memoSize s = .ok s') :
    ∃ pools token, s' = { s with pools, token } ∧ ∀ a, a ≠ ramfeeAccount → a ≠ rexAccount →
      token.balance a s.core.code = s.token.balance a s.core.code -
        if a = payer then max 0 fee else 0 := by
  unfold chargeRamFee at h
  split_ifs at h with hpos
  · simp only [bind_ok] at h
    obtain ⟨s₁, h₁, h₂⟩ := h
    obtain ⟨t, rfl, -, -, hpaid, -⟩ := inlineTransfer_ok h₁
    obtain ⟨pools, token, rfl, hother⟩ := channelToRex_ok h₂
    refine ⟨pools, token, rfl, fun a hfee hrex => ?_⟩
    have h1 := (hpaid rfl).balance a
    have h2 := hother a hfee hrex
    dsimp only at h1 h2
    rw [h2, h1, if_neg hfee, max_eq_right hpos.le]
    omega
  · cases h
    refine ⟨s.pools, s.token, rfl, fun a _ _ => ?_⟩
    rw [max_eq_left (not_lt.mp hpos)]
    simp

/-- What a trade of RAM does to the tokens: the trader pays the price, or receives it, and a
fee in either case. -/
structure RamPaid (trader : Name) (tokens : ℤ) (s s' : State) : Prop where
  core : s'.core = s.core
  market : trader ≠ ramAccount → s'.coreBalance ramAccount = s.coreBalance ramAccount + tokens
  trader : trader ≠ ramAccount → trader ≠ ramfeeAccount → trader ≠ rexAccount →
    s'.coreBalance trader ≤ s.coreBalance trader - tokens

/-- A purchase: the tokens after the fee buy what the conversion function returns. -/
structure RamBought (bancor : ℤ → ℤ → ℤ → ℤ) (payer receiver : Name) (tokens bytes : ℤ)
    (r : Ram) (s s' : State) :
    Prop where
  positive : 0 < tokens
  price : bytes = bancor r.market.quote r.market.base tokens
  out : 0 < bytes
  traded : RamTraded receiver bytes tokens r s s'
  paid : RamPaid payer tokens s s'

theorem buyram_bought {bancor : ℤ → ℤ → ℤ → ℤ} {ctx : Context} {payer receiver : Name}
    {quant : Asset} (h : buyram bancor ctx payer receiver quant s = .ok s') :
    ∃ r tokens bytes, RamGrown s.ram r ∧
      RamBought bancor payer receiver tokens bytes r s s' ∧ payer ∈ ctx.auth := by
  simp only [buyram, requireAuth, bind_ok, check_ok, exists_const] at h
  obtain ⟨ha, -, -, s₁, h₁, s₂, h₂, h₃⟩ := h
  obtain ⟨t, rfl, hne, hpos, hpaid, -⟩ := inlineTransfer_ok h₁
  obtain ⟨pools, token, rfl, hfee⟩ := chargeRamFee_ok h₂
  obtain ⟨bytes, hprice, hout, htr, htok, hcore⟩ := buyBytes_traded h₃
  refine ⟨_, _, bytes, updateRamSupply_grown ctx.now s.ram,
    ⟨hpos, hprice, hout, ?_, hcore, fun hp => ?_, fun h1 h2 h3 => ?_⟩, ha⟩
  · exact ⟨htr.size, htr.market, htr.reserved, htr.stake, htr.held, htr.total,
      htr.rows, htr.limited⟩
  · have h1 := (hpaid rfl).dest
    have h2 := hfee ramAccount (by decide) (by decide)
    rw [if_neg hp.symm, sub_zero] at h2
    rw [State.coreBalance, htok, hcore]
    exact h2.trans h1
  · have h4 := (hpaid rfl).source
    have h5 := hfee payer h2 h3
    rw [if_pos rfl] at h5
    rw [State.coreBalance, htok, hcore]
    dsimp only at h4 h5 ⊢
    rw [h5, h4, State.coreBalance]
    omega

/-- A sale: bytes of the account go back for what the conversion function returns. -/
structure RamSold (bancor : ℤ → ℤ → ℤ → ℤ) (account : Name) (bytes tokens : ℤ) (r : Ram)
    (s s' : State) : Prop where
  positive : 0 < bytes
  held : bytes ≤ ramBytesOf s.resources account
  price : tokens = bancor r.market.base r.market.quote bytes
  out : 1 < tokens
  traded : RamTraded account (-bytes) (-tokens) r s s'
  paid : RamPaid account (-tokens) s s'

theorem sellram_sold {bancor : ℤ → ℤ → ℤ → ℤ} {ctx : Context} {account : Name} {bytes : ℤ}
    (h : sellram bancor ctx account bytes s = .ok s') : ∃ r tokens, RamGrown s.ram r ∧
      RamSold bancor account bytes tokens r s s' ∧ account ∈ ctx.auth := by
  simp only [sellram, requireAuth, bind_ok, check_ok, exists_const, require_ok] at h
  obtain ⟨ha, hpos, tot, htot, hle, ⟨out, s₁⟩, h₁, s₂, h₂, h₃⟩ := h
  have hheld : tot.ramBytes = ramBytesOf s.resources account := by
    rw [ramBytesOf, Table.valueAt_some htot]
  obtain ⟨hprice, hout, htr, htok, hcore⟩ :=
    sellBytes_traded (s := { s with ram := s.ram.updateRamSupply ctx.now }) htot h₁
  obtain ⟨t, rfl, hne, -, hpaid, -⟩ := inlineTransfer_ok h₂
  obtain ⟨pools, token, rfl, hfee⟩ := chargeRamFee_ok h₃
  refine ⟨_, out, updateRamSupply_grown ctx.now s.ram,
    ⟨hpos, hheld ▸ hle, hprice, hout, ?_, hcore, fun hp => ?_, fun h1 h2 h3 => ?_⟩, ha⟩
  · exact ⟨htr.size, htr.market, htr.reserved, htr.stake, htr.held, htr.total,
      htr.rows, htr.limited⟩
  · have h1 := (hpaid rfl).source
    have h2 := hfee ramAccount (by decide) (by decide)
    rw [if_neg hp.symm, sub_zero] at h2
    dsimp only [State.coreBalance] at h1 h2 ⊢
    rw [h2, h1, htok, hcore, sub_eq_add_neg]
  · have h4 := (hpaid rfl).dest
    have h5 := hfee account h2 h3
    rw [if_pos rfl] at h5
    dsimp only [State.coreBalance] at h4 h5 ⊢
    rw [h5, h4, htok, hcore]
    dsimp only
    omega

end

section
variable {now : BlockTimestamp} {s s' : State}

lemma adjustResources_ramKept {account : Name} {net cpu : ℤ} {b : Bool}
    (h : adjustResources account net cpu b s = .ok s') : RamKept s.resources s'.resources :=
  (adjustResources_moved h).ram

lemma moveStake_ramKept [FloatOps] {source owner receiver : Name} {net cpu : ℤ} {transfer : Bool}
    (h : moveStake now source owner receiver net cpu transfer s = .ok s') :
    RamKept s.resources s'.resources := by
  simp only [moveStake, changeDelband, bind_ok, check_ok, exists_const, pure_ok] at h
  obtain ⟨s₁, ⟨-, -, rfl⟩, s₂, h₂, h⟩ := h
  have hk := adjustResources_ramKept h₂
  have hs : s'.resources = s₂.resources := by
    split_ifs at h
    · obtain ⟨staking, t, rfl, -⟩ := settleRefund_frame h
      rfl
    · rw [pure_ok] at h
      rw [h]
  rw [hs]
  exact ⟨hk.bytes, hk.total⟩

lemma expireOrders_ramKept {max : ℕ} {net cpu n c : ℤ}
    (h : expireOrders now max net cpu s = .ok (n, c, s')) : RamKept s.resources s'.resources := by
  induction max generalizing net cpu s with
  | zero =>
    rw [expireOrders] at h
    cases h
    exact RamKept.refl _
  | succ max ih =>
    rw [expireOrders] at h
    split at h
    · cases h
      exact RamKept.refl _
    · split_ifs at h
      · cases h
        exact RamKept.refl _
      · simp only [bind_ok] at h
        obtain ⟨s₁, h₁, h⟩ := h
        have hk := adjustResources_ramKept h₁
        have hk' := ih h
        exact hk.trans hk'

lemma processPowerupQueue_ramKept [FloatOps] {max : ℕ} {st st' : PowerupState} {n c : ℤ}
    (h : processPowerupQueue now max st s = .ok (n, c, st', s')) :
    RamKept s.resources s'.resources := by
  simp only [processPowerupQueue, bind_ok, pure_ok, Prod.mk.injEq] at h
  obtain ⟨⟨n₁, c₁, s₁⟩, h₁, net, -, cpu, -, -, -, -, rfl⟩ := h
  exact expireOrders_ramKept h₁

lemma MarketStep.ramKept [FloatOps] {cfg power : Prop} (h : MarketStep now cfg power s s') :
    RamKept s.resources s'.resources := by
  cases h with
  | config _ h =>
    simp only [cfgpowerup, requireAuth, bind_ok, check_ok, exists_const, pure_ok] at h
    obtain ⟨-, -, a, -, b, -, fee, -, -, -, -, net, -, cpu, -, x, -, y, -, s₁, h₁, rfl⟩ := h
    have hk := adjustResources_ramKept h₁
    exact hk
  | process h =>
    simp only [powerupexec, requireAuth, bind_ok, check_ok, exists_const, require_ok, pure_ok] at h
    obtain ⟨-, st, -, ⟨n, c, st', s₁⟩, h₁, s₂, h₂, rfl⟩ := h
    have hk := adjustResources_ramKept h₂
    exact (processPowerupQueue_ramKept h₁).trans hk
  | reserve _ hst hn hc h =>
    simp only [reservePower, bind_ok, check_ok, exists_const, pure_ok, Prod.mk.injEq] at h
    obtain ⟨⟨n, c, st₁, s₁⟩, h₁, net, -, cpu, -, -, -, s₂, h₂, s₃, h₃, -, -, rfl⟩ := h
    have hk₂ := adjustResources_ramKept h₂
    have hk₃ := adjustResources_ramKept h₃
    exact (processPowerupQueue_ramKept h₁).trans (hk₂.trans hk₃)

/-- What everything but the trades of RAM leaves as it was. -/
structure RamSame (quiet : Prop) (s s' : State) : Prop where
  ram : s'.ram = s.ram
  kept : RamKept s.resources s'.resources
  core : s'.core = s.core
  balance : quiet → s'.coreBalance ramAccount = s.coreBalance ramAccount

lemma RamSame.refl (quiet : Prop) (s : State) : RamSame quiet s s :=
  ⟨rfl, RamKept.refl _, rfl, fun _ => rfl⟩

lemma RamSame.trans {quiet : Prop} {s s' s'' : State} (h : RamSame quiet s s')
    (h' : RamSame quiet s' s'') : RamSame quiet s s'' :=
  ⟨h'.ram.trans h.ram, h.kept.trans h'.kept, h'.core.trans h.core,
    fun hq => (h'.balance hq).trans (h.balance hq)⟩

end

section
variable [FloatOps] {now : BlockTimestamp} {π : Promise} {s s' : State}

theorem Effect.ramSame (h : Effect now π s s') (htr : ¬ π.trade) : RamSame (π.quiet .ram) s s' := by
  cases h with
  | channel available h paid kept => exact ⟨rfl, RamKept.refl _, rfl, fun hq => kept .ram hq⟩
  | closeLoan row pool refund moved => exact ⟨rfl, moved.ram, rfl, fun _ => rfl⟩
  | renewLoan row pool removed price payable gain h moved =>
    exact ⟨rfl, moved.ram, rfl, fun _ => rfl⟩
  | openLoan fresh available pool positive balance price gain h paid moved =>
    exact ⟨rfl, moved.ram, rfl, fun _ => rfl⟩
  | deposit paid credit other =>
    exact ⟨rfl, RamKept.refl _, rfl, fun hq => paid.other (other .ram hq).symm (by decide)⟩
  | withdraw paid debit other =>
    exact ⟨rfl, RamKept.refl _, rfl, fun hq => paid.other (by decide) (other .ram hq).symm⟩
  | tokens rex kept => exact ⟨rfl, RamKept.refl _, rfl, fun hq => kept .ram hq⟩
  | stake h restake rex other =>
    have hk := moveStake_ramKept h
    obtain ⟨staking, resources, token, rfl, hpaid⟩ := moveStake_frame h
    refine ⟨rfl, hk, rfl, fun hq => ?_⟩
    rcases hpaid with rfl | ⟨amount, hp⟩
    · rfl
    · exact hp.other (other .ram hq).symm (by decide)
  | refund row paid other =>
    exact ⟨rfl, RamKept.refl _, rfl, fun hq => paid.other (by decide) (other .ram hq).symm⟩
  | market h =>
    have hk := h.ramKept
    obtain ⟨resources, powerup, rfl⟩ := h.frame
    exact ⟨rfl, hk, rfl, fun _ => rfl⟩
  | ram trade weights => exact absurd trade htr
  | channelBids pool available h after paid =>
    exact ⟨rfl, RamKept.refl _, rfl, fun _ => paid.other (by decide) (by decide)⟩
  | accounts weights ram => exact ⟨rfl, ram, rfl, fun _ => rfl⟩
  | close timestamp names =>
    obtain ⟨auctions, pools, h⟩ := closeAuction_eq timestamp now s
    rw [h]
    exact ⟨rfl, RamKept.refl _, rfl, fun _ => rfl⟩
  | _ => exact ⟨rfl, RamKept.refl _, rfl, fun _ => rfl⟩

theorem Effects.ramSame (h : Effects now π s s') (htr : ¬ π.trade) :
    RamSame (π.quiet .ram) s s' := by
  induction h with
  | refl => exact RamSame.refl _ _
  | tail _ hstep ih => exact ih.trans (hstep.ramSame htr)

omit [FloatOps] in
/-- Unstaking into REX may erase the row of the receiver, but none that holds RAM. -/
theorem Purchase.ramSame (h : Purchase now π s s') (quiet : Prop) : RamSame quiet s s' := by
  obtain ⟨owner, payment, delta, mid, -, h0, hf, hpur⟩ := h.parts
  obtain ⟨received, p', stake, -, rfl⟩ := purchase_ok hpur
  cases hf with
  | fund debit => exact ⟨rfl, RamKept.refl _, rfl, fun _ => rfl⟩
  | stake net cpu sum hu paid =>
    obtain ⟨m, hd, hm⟩ := unstakeBandwidth_changed hu
    have hk := hm.ram
    obtain ⟨delband, rfl⟩ := hd.only
    obtain ⟨resources, rfl⟩ := hm.only
    exact ⟨rfl, hk, rfl, fun _ => paid.other (by decide) (by decide)⟩

/-- The actions that do not trade RAM. -/
theorem step.ramSame {l : Label} (h : step now l s s') (htr : ¬ l.action.TradesRam) :
    RamSame l.RamQuiet s s' := by
  have he : ∀ {mid s' : State}, Effects now (l.promise s.core) mid s' →
    RamSame l.RamQuiet mid s' := by
    intro mid s' he
    have hsame := he.ramSame htr
    exact ⟨hsame.ram, hsame.kept, hsame.core, fun hq => hsame.balance ⟨hq, htr⟩⟩
  obtain ⟨mid, rfl | hp, heff⟩ := exec_decomposed h
  · exact he heff
  · exact (hp.ramSame _).trans (he heff)

inductive RamMove (bancor : ℤ → ℤ → ℤ → ℤ) (l : Label) (s s' : State) : Prop
  | same (h : RamSame l.RamQuiet s s')
  | grown (h : RamGrown s.ram s'.ram) (resources : s'.resources = s.resources)
      (core : s'.core = s.core)
      (token : s'.token = s.token)
  | bought {payer receiver : Name} {tokens bytes : ℤ} {r : Ram} (payer_auth : payer ∈ l.auth)
      (grown : RamGrown s.ram r)
      (h : RamBought bancor payer receiver tokens bytes r s s')
  | sold {account : Name} {bytes tokens : ℤ} {r : Ram} (account_auth : account ∈ l.auth)
      (grown : RamGrown s.ram r)
      (h : RamSold bancor account bytes tokens r s s')

omit [FloatOps] in
lemma setram_move {bancor : ℤ → ℤ → ℤ → ℤ} {l : Label} {ctx : Context} {maxRamSize : UInt64}
    (h : setram ctx maxRamSize s = .ok s') : RamMove bancor l s s' := by
  simp only [setram, requireAuth, bind_ok, check_ok, exists_const, pure_ok] at h
  obtain ⟨-, hlt, -, -, rfl⟩ := h
  exact RamMove.grown ⟨hlt.le, rfl, rfl, rfl⟩ rfl rfl rfl

omit [FloatOps] in
lemma setramrate_move {bancor : ℤ → ℤ → ℤ → ℤ} {l : Label} {ctx : Context} {bytesPerBlock : UInt16}
    (h : setramrate ctx bytesPerBlock s = .ok s') : RamMove bancor l s s' := by
  simp only [setramrate, requireAuth, bind_ok, check_ok, exists_const, pure_ok] at h
  obtain ⟨-, rfl⟩ := h
  have hg := updateRamSupply_grown ctx.now s.ram
  exact RamMove.grown ⟨hg.size, hg.market, hg.reserved, hg.stake⟩ rfl rfl rfl

theorem ramStep.move {l : RamLabel} (h : ramStep now l s s') :
    RamMove l.conversion l.label s s' := by
  obtain ⟨bancor, auth, action⟩ := l
  have hother : step now ⟨auth, action⟩ s s' → ¬ action.TradesRam →
    RamMove bancor ⟨auth, action⟩ s s' :=
    fun hs htr => RamMove.same (hs.ramSame htr)
  unfold ramStep at h
  cases action with
  | buyram payer receiver quant =>
    obtain ⟨r, tokens, bytes, hg, hb, ha⟩ := buyram_bought h
    exact RamMove.bought ha hg hb
  | buyrambytes payer receiver bytes =>
    obtain ⟨r, tokens, bytes, hg, hb, ha⟩ := buyram_bought h
    exact RamMove.bought ha hg hb
  | sellram account bytes =>
    obtain ⟨r, tokens, hg, hs, ha⟩ := sellram_sold h
    exact RamMove.sold ha hg hs
  | setram size => exact setram_move h
  | setramrate rate => exact setramrate_move h
  | _ => exact hother h id

/-- The market, the counters and the rows of the users agree, and the quote has grown by the
stake since `quote₀`. -/
structure RamLedger (quote₀ : ℤ) (s : State) : Prop where
  size : 0 < s.ram.maxRamSize
  supply : s.ram.market.base + s.ram.totalRamBytesReserved = s.ram.maxRamSize
  reserved : s.ram.totalRamBytesReserved = ramTotal s.resources
  stake : s.ram.market.quote - quote₀ = s.ram.totalRamStake
  held : ∀ a, 0 ≤ ramBytesOf s.resources a

omit [FloatOps] in
/-- The ledger with the RAM of a state replaced by a grown one. -/
lemma RamLedger.traded {quote₀ tokens bytes : ℤ} {account : Name} {r : Ram}
    (hl : RamLedger quote₀ s) (hg : RamGrown s.ram r) (ht : RamTraded account bytes tokens r s s')
    (hheld : 0 ≤ ramBytesOf s.resources account + bytes) : RamLedger quote₀ s' := by
  have hsize := hl.size
  have hsupply := hl.supply
  have hstake := hl.stake
  have hreserved := hl.reserved
  have hgrown := hg.size
  refine ⟨?_, ?_, ?_, ?_, fun a => ?_⟩
  · rw [ht.size]
    omega
  · rw [ht.size, ht.market, ht.reserved, hg.market, hg.reserved]
    dsimp only
    omega
  · rw [ht.reserved, ht.total, hg.reserved]
    omega
  · rw [ht.stake, ht.market, hg.market, hg.stake]
    dsimp only
    omega
  · rw [ht.held a]
    split_ifs with ha
    · rwa [ha]
    · rw [add_zero]
      exact hl.held a

omit [FloatOps] in
theorem RamMove.ledger {bancor : ℤ → ℤ → ℤ → ℤ} {l : Label} {quote₀ : ℤ} (h : RamMove bancor l s s')
    (hl : RamLedger quote₀ s) : RamLedger quote₀ s' := by
  have hsize := hl.size
  have hsupply := hl.supply
  have hstake := hl.stake
  cases h with
  | same h =>
    refine ⟨h.ram ▸ hl.size, h.ram ▸ hl.supply, ?_, h.ram ▸ hl.stake, fun a => ?_⟩
    · rw [h.ram, h.kept.total, hl.reserved]
    · rw [h.kept.bytes a]
      exact hl.held a
  | grown h resources core token =>
    have hgrown := h.size
    refine ⟨by omega, ?_, ?_, ?_, fun a => ?_⟩
    · rw [h.market, h.reserved]
      dsimp only
      omega
    · rw [h.reserved, resources, hl.reserved]
    · rw [h.market, h.stake]
      exact hstake
    · rw [resources]
      exact hl.held a
  | bought payer_auth grown h =>
    exact hl.traded grown h.traded (add_nonneg (hl.held _) h.out.le)
  | sold account_auth grown h =>
    exact hl.traded grown h.traded (by linarith [h.held])

/-- The tokens of `eosio.ram` beyond what is staked for RAM. -/
def ramSurplus (s : State) : ℤ := s.coreBalance ramAccount - s.ram.totalRamStake

omit [FloatOps] in
theorem RamMove.surplus {bancor : ℤ → ℤ → ℤ → ℤ} {l : Label} (h : RamMove bancor l s s')
    (hq : l.RamQuiet) : ramSurplus s' = ramSurplus s := by
  unfold ramSurplus
  cases h with
  | same h => rw [h.ram, h.balance hq]
  | grown h resources core token => rw [h.stake, State.coreBalance, token, core, State.coreBalance]
  | bought payer_auth grown h =>
    rw [h.traded.stake, grown.stake, h.paid.market fun he => hq.1 (he ▸ payer_auth)]
    omega
  | sold account_auth grown h =>
    rw [h.traded.stake, grown.stake, h.paid.market fun he => hq.1 (he ▸ account_auth)]
    omega

omit [FloatOps] in
lemma ramBytesOf_row {r : Resources} {a : Name} (h : ramBytesOf r a ≠ 0) :
    (r.userres.lookup a).isSome := by
  unfold ramBytesOf Table.valueAt at h
  cases hl : r.userres.lookup a with
  | none => simp [hl] at h
  | some tot => rfl

omit [FloatOps] in
/-- No row that holds RAM is erased. -/
theorem RamMove.row_kept {bancor : ℤ → ℤ → ℤ → ℤ} {l : Label} (h : RamMove bancor l s s') {a : Name}
    (ha : ramBytesOf s.resources a ≠ 0) : (s'.resources.userres.lookup a).isSome := by
  cases h with
  | same h => exact ramBytesOf_row (h.kept.bytes a ▸ ha)
  | grown h resources core token => exact resources ▸ ramBytesOf_row ha
  | bought payer_auth grown h => exact h.traded.rows a (ramBytesOf_row ha)
  | sold account_auth grown h => exact h.traded.rows a (ramBytesOf_row ha)

omit [FloatOps] in
lemma BeforeInit.bytes_eq_zero (h : BeforeInit s) (a : Name) : ramBytesOf s.resources a = 0 := by
  unfold ramBytesOf Table.valueAt
  cases hl : s.resources.userres.lookup a with
  | none => rfl
  | some tot => exact h.bytes a tot hl

omit [FloatOps] in
lemma init_resources {ctx : Context} {version : ℕ} {core : Symbol}
    (h : init ctx version core s = .ok s') : s'.resources = s.resources := by
  simp only [init, requireAuth, bind_ok, check_ok, exists_const, require_ok, pure_ok] at h
  obtain ⟨-, -, st, -, -, -, t, -, rfl⟩ := h
  rfl

omit [FloatOps] in
/-- `init` opens the market with the whole supply. -/
theorem init_ledger {ctx : Context} {version : ℕ} {core : Symbol} (h0 : BeforeInit s)
    (h : init ctx version core s = .ok s') :
    RamLedger s'.ram.market.quote s' ∧ s'.ram.market.base = s'.ram.maxRamSize ∧
    s'.ram.totalRamStake = 0 ∧
      0 ≤ s'.ram.market.quote := by
  simp only [init, requireAuth, bind_ok, check_ok, exists_const, require_ok, pure_ok] at h
  obtain ⟨-, -, st, -, -, hpos, t, -, rfl⟩ := h
  have hreserved := h0.reserved
  have hstake := h0.stake
  have htotal : ramTotal s.resources = 0 := by
    rw [ramTotal, Table.total_congr fun a tot hl => h0.bytes a tot hl]
    simp [Table.total]
  refine ⟨⟨h0.size, ?_, ?_, ?_, fun a => (h0.bytes_eq_zero a).ge⟩, ?_, hstake, ?_⟩
  · dsimp only
    omega
  · exact hreserved.trans htotal.symm
  · rw [sub_self]
    exact hstake.symm
  · dsimp only
    omega
  · exact Int.tdiv_nonneg hpos.le (by decide)

/-- After every run since `init` the five records of RAM agree, whatever the conversion
functions return, and no step erases a row that holds RAM. -/
theorem ram_accounting {t₀ t : BlockTimestamp} {auth : List Name} {version : ℕ} {core : Symbol}
    {s₀ s₁ : State} {tr : List (BlockTimestamp × RamLabel)} (h0 : BeforeInit s₀)
    (hinit : init ⟨t₀, auth⟩ version core s₀ = .ok s₁) (hrun : TimedRun ramStep t₀ s₁ tr t s) :
    s.ram.market.base + s.ram.totalRamBytesReserved = s.ram.maxRamSize ∧
    s.ram.totalRamBytesReserved = ramTotal s.resources ∧
    s.ram.market.quote - s₁.ram.market.quote = s.ram.totalRamStake ∧
    ((∀ x ∈ tr, x.2.label.RamQuiet) →
      s.coreBalance ramAccount - s₁.coreBalance ramAccount = s.ram.totalRamStake) ∧
    ∀ u l s', t ≤ u → ramStep u l s s' → ∀ a, ramBytesOf s.resources a ≠ 0 →
      (s'.resources.userres.lookup a).isSome := by
  obtain ⟨hledger, -, hstake, -⟩ := init_ledger h0 hinit
  have hl : RamLedger s₁.ram.market.quote s :=
    hrun.stateInvariant (fun _ s => RamLedger s₁.ram.market.quote s) hledger fun hi _ hs =>
      hs.move.ledger hi
  refine ⟨hl.supply, hl.reserved, hl.stake, fun hq => ?_, fun u l s' _ hs a ha =>
    hs.move.row_kept ha⟩
  have hsame : ramSurplus s = ramSurplus s₁ :=
    hrun.invariant (fun _ _ s => ramSurplus s = ramSurplus s₁) (fun l => l.label.RamQuiet) rfl
      (fun hi _ hq hs => (hs.move.surplus hq).trans hi) hq
  unfold ramSurplus at hsame
  omega

end

def unopenedState : State := { launchState with ram := { launchState.ram with market := ⟨0, 0⟩ } }

lemma unopenedState_beforeInit : BeforeInit unopenedState := by
  refine ⟨by decide, rfl, rfl, fun a tot ha => ?_⟩
  cases ha

def opened (s : State) : State :=
  match init ⟨launchTime, [systemAccount]⟩ 0 s.core s with
  | .ok s' => s'
  | .error _ => s

lemma opened_ok {s : State} (h : (init ⟨launchTime, [systemAccount]⟩ 0 s.core s).isOk = true) :
    init ⟨launchTime, [systemAccount]⟩ 0 s.core s = .ok (opened s) := by
  unfold opened
  cases hi : init ⟨launchTime, [systemAccount]⟩ 0 s.core s with
  | ok s' => rfl
  | error e => simp [hi, Except.isOk, Except.toBool] at h

/-- Trades at the floor of the exact price, with the floating-point values of the launch. -/
def launchTrade (now : BlockTimestamp) (l : RamLabel) : State → Except String State :=
  @ramExec launchFloats l.conversion ⟨now, l.label.auth⟩ l.label.action

def floorTrades (tr : List (BlockTimestamp × Label)) : List (BlockTimestamp × RamLabel) :=
  tr.map fun x => (x.1, ⟨getBancorOutput, x.2⟩)

/-- Alice buys RAM for Bob and for herself, and sells some of hers. -/
def ramTrace : List (BlockTimestamp × RamLabel) := floorTrades
  [(launchTime, ⟨[alice], .buyram alice bob ⟨5000, tlos⟩⟩),
    (launchTime, ⟨[alice], .buyram alice alice ⟨20000, tlos⟩⟩),
    (launchTime.after 60, ⟨[alice], .sellram alice 1000000000⟩)]

def ramEnd : State := stateAfter launchTrade ramTrace (opened unopenedState)

theorem launch_ram_accounting : ramEnd.ram.totalRamBytesReserved = ramTotal ramEnd.resources ∧
    ramEnd.coreBalance ramAccount = ramEnd.ram.totalRamStake ∧ 0 < ramEnd.ram.totalRamStake := by
  have hinit := opened_ok (s := unopenedState) (by decide +kernel)
  have hchain : (launchTime :: ramTrace.map Prod.fst).IsChain (· ≤ ·) := by decide
  have hall : (runAll launchTrade ramTrace (opened unopenedState)).isOk = true := by decide +kernel
  have hrun := timedRun_of_runAll ramTrace hchain (runAll_stateAfter hall)
  obtain ⟨-, htotal, -, hbalance, -⟩ :=
    @ram_accounting launchFloats _ _ _ _ _ _ _ _ _ unopenedState_beforeInit hinit hrun
  refine ⟨htotal, ?_, by decide +kernel⟩
  have hq : ∀ x ∈ ramTrace, x.2.label.RamQuiet := by
    simp [ramTrace, floorTrades, Label.RamQuiet]
    decide
  have hb := hbalance hq
  rw [show (opened unopenedState).coreBalance ramAccount = 0 by decide +kernel, sub_zero] at hb
  exact hb

end TelosSystem
