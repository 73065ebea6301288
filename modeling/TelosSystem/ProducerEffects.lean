import TelosSystem.ProducerRows
import TelosSystem.RexEffects

/-! The actions of producers, of new accounts and of block production as effects. -/
namespace TelosSystem
open Ledger

lemma Token.issue_spec {auth : List Name} {dest : Name} {quantity : Asset} {memoSize : ℕ}
    {t t' : Token} (h : t.issue auth dest quantity memoSize = .ok t') :
    0 < quantity.amount ∧ ∀ a c, t'.balance a c =
      t.balance a c + if a = dest ∧ c = quantity.symbol.code then quantity.amount else 0 := by
  simp only [Token.issue, bind_ok, check_ok, exists_const, require_ok] at h
  obtain ⟨-, -, st, -, rfl, -, -, hpos, -, -, h⟩ := h
  exact ⟨hpos, fun a c => Token.addBalance_spec h a c⟩

lemma Voting.Counted.stakedOf {v v' : Voting} (h : v.Counted v') (a : Name) :
    v'.stakedOf a = v.stakedOf a := by
  have ha := congrArg (fun o => (o.map Prod.fst).getD 0) (h.voters a)
  simp only [Option.map_map] at ha
  exact ha

lemma setFlag_stakedOf (v : Voting) (account : Name) (field : UInt32) (value : Bool) (a : Name) :
    (v.setFlag account field value).stakedOf a = v.stakedOf a := by
  unfold Voting.setFlag Voting.stakedOf
  cases hl : v.voters.lookup account with
  | none =>
    dsimp only [Voting.setVoter]
    rw [Table.lookup_insert']
    split_ifs with ha
    · rw [ha, hl]
      rfl
    · rfl
  | some row =>
    dsimp only [Voting.setVoter]
    rw [Table.lookup_insert']
    split_ifs with ha
    · rw [ha, hl]
      rfl
    · rfl

section
variable [FloatOps] {π : Promise} {ctx : Context} {s s' : State}

/-- Tokens moved between two accounts that are neither spent from `eosio.rex` nor touch a
custodian. -/
lemma inlineTransfer_effects {now : BlockTimestamp} {source dest : Name} {quantity : Asset}
    {memoSize : ℕ} (hs : π.safe → source ≠ rexAccount) (hqs : ∀ c, π.quiet c → source ≠ c.account)
    (hqd : ∀ c, π.quiet c → dest ≠ c.account) (hc : quantity.symbol.code = s.core.code)
    (h : s.inlineTransfer source dest quantity memoSize = .ok s') : Effects now π s s' := by
  obtain ⟨t, rfl, -, hpos, hpaid, hother⟩ := inlineTransfer_ok h
  refine (Effect.tokens (fun hsafe => ?_) fun c hqt => ?_).single
  · rw [(hpaid hc).balance rexAccount, if_neg (hs hsafe).symm]
    split_ifs <;> omega
  · exact hother c.account (hqs c hqt).symm (hqd c hqt).symm

lemma election_effects {now : BlockTimestamp} {v : Voting} (hv : v.voters = s.voting.voters)
    (h : VotingStep now π.rows π.ballots s.voting v) : Effects now π s { s with voting := v } :=
  (Effect.election (fun a => by rw [Voting.stakedOf, hv]; rfl) h.single).single

lemma modifyProducer_effects {now : BlockTimestamp} {producer : Name}
    {f : ProducerInfo → ProducerInfo} {msg : String} {v : Voting}
    (h : s.voting.modifyProducer producer f msg = .ok v) (hf : ∀ p, (f p).totalVotes = p.totalVotes)
    (allowed : ∀ p, π.rows producer (some p) (f p)) : Effects now π s { s with voting := v } := by
  have hv : v.voters = s.voting.voters := by
    simp only [Voting.modifyProducer, bind_ok, require_ok, pure_ok] at h
    obtain ⟨p, -, rfl⟩ := h
    rfl
  exact election_effects hv (modifyProducer_step hf allowed h)

lemma regproducer_effects {producer : Name} {urlSize : ℕ} {location : UInt16}
    (allowed : ∀ old, π.rows producer old (registered location old))
    (h : regproducer ctx producer urlSize location s = .ok s') : Effects ctx.now π s s' := by
  simp only [regproducer, requireAuth, bind_ok, check_ok, exists_const, pure_ok] at h
  obtain ⟨-, -, rfl⟩ := h
  refine election_effects ?_ (registerProducer_step (allowed _))
  unfold Voting.registerProducer
  split <;> rfl

lemma unregprod_effects {producer : Name} (allowed : ∀ p, π.rows producer (some p) p.deactivate)
    (h : unregprod ctx producer s = .ok s') : Effects ctx.now π s s' := by
  simp only [unregprod, requireAuth, bind_ok, check_ok, exists_const, pure_ok] at h
  obtain ⟨-, v, hv, rfl⟩ := h
  exact modifyProducer_effects hv (fun _ => rfl) allowed

lemma unregreason_effects {producer : Name} {reasonSize : ℕ}
    (allowed : ∀ p, π.rows producer (some p) p.deactivate)
    (h : unregreason ctx producer reasonSize s = .ok s') : Effects ctx.now π s s' := by
  simp only [unregreason, requireAuth, bind_ok, check_ok, exists_const, pure_ok] at h
  obtain ⟨-, -, v, hv, rfl⟩ := h
  exact modifyProducer_effects hv (fun _ => rfl) allowed

lemma rmvproducer_effects {producer : Name} (allowed : ∀ p, π.rows producer (some p) p.deactivate)
    (h : rmvproducer ctx producer s = .ok s') :
    Effects ctx.now π s s' := by
  simp only [rmvproducer, requireAuth, bind_ok, check_ok, exists_const, pure_ok] at h
  obtain ⟨-, v, hv, rfl⟩ := h
  exact modifyProducer_effects hv (fun _ => rfl) allowed

lemma votebpout_effects {bp : Name} {penaltyHours : UInt32}
    (allowed : ∀ p, π.rows bp (some p) (p.kick ctx.now .bpsVoting penaltyHours.toNat))
    (h : votebpout ctx bp penaltyHours s = .ok s') : Effects ctx.now π s s' := by
  simp only [votebpout, requireAuth, bind_ok, check_ok, exists_const, pure_ok] at h
  obtain ⟨-, -, v, hv, rfl⟩ := h
  exact modifyProducer_effects hv (fun _ => rfl) allowed

lemma setvotecontr_effects {contract : Checksum160} (h : setvotecontr ctx contract s = .ok s') :
    Effects ctx.now π s s' := by
  simp only [setvotecontr, requireAuth, bind_ok, check_ok, exists_const, pure_ok] at h
  obtain ⟨-, rfl⟩ := h
  exact election_effects rfl (VotingStep.configure (Or.inl rfl))

lemma setvotedecay_effects {start yearly : UInt64} {nonce : Option UInt64} {raw : List UInt8}
    (h : setvotedecay ctx start yearly nonce s = .ok (raw, s')) : Effects ctx.now π s s' := by
  simp only [setvotedecay, bind_ok, pure_ok] at h
  obtain ⟨-, -, -, -, -, -, -, -, n, -, hsent⟩ := h
  cases hsent
  exact election_effects rfl (VotingStep.configure (Or.inl rfl))

lemma setselfstake_effects {multiplier : UInt64} (h : setselfstake ctx multiplier s = .ok s') :
    Effects ctx.now π s s' := by
  simp only [setselfstake, requireAuth, bind_ok, check_ok, exists_const, pure_ok] at h
  obtain ⟨-, hle, rfl⟩ := h
  exact election_effects rfl (VotingStep.configure (Or.inr (UInt64.le_iff_toNat_le.mp hle)))

omit [FloatOps] in
lemma claimName_ok {creator newAccountName : Name}
    (h : claimName creator newAccountName s = .ok s') : ∃ auctions, s' = { s with auctions } := by
  unfold claimName at h
  split_ifs at h
  · simp only [bind_ok, require_ok, check_ok, exists_const, pure_ok] at h
    obtain ⟨bid, -, -, -, rfl⟩ := h
    exact ⟨_, rfl⟩
  · simp only [bind_ok, check_ok, exists_const, pure_ok] at h
    obtain ⟨-, rfl⟩ := h
    exact ⟨s.auctions, rfl⟩
  · cases h
    exact ⟨s.auctions, rfl⟩

lemma newaccount_effects {creator newAccountName : Name} (hn : π.names)
    (h : newaccount ctx creator newAccountName s = .ok s') : Effects ctx.now π s s' := by
  simp only [newaccount, requireAuth, bind_ok, check_ok, exists_const, pure_ok] at h
  obtain ⟨-, -, -, -, s1, h1, hl, rfl⟩ := h
  obtain ⟨auctions, rfl⟩ := claimName_ok h1
  refine (Effect.auctions hn).single.trans
    (Effect.accounts (fun k a => ?_) ⟨fun a => ?_, ?_⟩ fun a ha => ?_).single
  · unfold totalWeight Table.valueAt
    dsimp only [State.setLimits] at hl ⊢
    rw [Table.lookup_insert']
    split_ifs with ha
    · rw [ha, hl]
      cases k <;> rfl
    · rfl
  · unfold ramBytesOf Table.valueAt
    dsimp only [State.setLimits] at hl ⊢
    rw [Table.lookup_insert']
    split_ifs with ha
    · rw [ha, hl]
      rfl
    · rfl
  · exact (Table.total_insert_new _ _ hl).trans (add_zero _)
  · dsimp only
    rw [Function.update_apply]
    split_ifs
    · rfl
    · exact ha

/-- Limits set by hand. -/
lemma setLimits_effects {now : BlockTimestamp} (account : Name) (l : ResourceLimits) :
    Effects now π s (s.setLimits account l) :=
  Effect.single (Effect.accounts (s := s) (fun _ _ => rfl) ⟨fun _ => rfl, rfl⟩ fun _ => id)

lemma setalimits_effects {account : Name} {ram net cpu : ℤ}
    (h : setalimits ctx account ram net cpu s = .ok s') : Effects ctx.now π s s' := by
  simp only [setalimits, requireAuth, bind_ok, check_ok, exists_const, pure_ok] at h
  obtain ⟨-, -, -, -, rfl⟩ := h
  exact setLimits_effects account _

lemma manageResource_effects {account : Name} {field : UInt32} {value : Option ℤ} {lowest limit : ℤ}
    {alreadyUnmanaged invalid : String} {unmanaged : Option UserResources → ℤ}
    {current : ResourceLimits}
    (h : manageResource ctx account field value lowest alreadyUnmanaged invalid unmanaged s =
      .ok (current, limit, s')) :
    Effects ctx.now π s s' := by
  have hflag : ∀ b, Effects ctx.now π s { s with voting := s.voting.setFlag account field b } :=
    fun b =>
    (Effect.election (setFlag_stakedOf s.voting account field b)
      (VotingStep.flag account field b).single).single
  simp only [manageResource, requireAuth, bind_ok, check_ok, exists_const] at h
  obtain ⟨-, l, -, h⟩ := h
  cases value with
  | none =>
    simp only [bind_ok, check_ok, exists_const, pure_ok, Prod.mk.injEq] at h
    obtain ⟨-, -, -, rfl⟩ := h
    exact hflag false
  | some x =>
    simp only [bind_ok, check_ok, exists_const, pure_ok, Prod.mk.injEq] at h
    obtain ⟨-, -, -, rfl⟩ := h
    exact hflag true

lemma setacctram_effects {account : Name} {ramBytes : Option ℤ}
    (h : setacctram ctx account ramBytes s = .ok s') : Effects ctx.now π s s' := by
  simp only [setacctram, bind_ok, pure_ok] at h
  obtain ⟨⟨current, ram, s1⟩, h1, rfl⟩ := h
  exact (manageResource_effects h1).trans (setLimits_effects account _)

lemma setacctnet_effects {account : Name} {netWeight : Option ℤ}
    (h : setacctnet ctx account netWeight s = .ok s') : Effects ctx.now π s s' := by
  simp only [setacctnet, bind_ok, pure_ok] at h
  obtain ⟨⟨current, net, s1⟩, h1, rfl⟩ := h
  exact (manageResource_effects h1).trans (setLimits_effects account _)

lemma setacctcpu_effects {account : Name} {cpuWeight : Option ℤ}
    (h : setacctcpu ctx account cpuWeight s = .ok s') : Effects ctx.now π s s' := by
  simp only [setacctcpu, bind_ok, pure_ok] at h
  obtain ⟨⟨current, cpu, s1⟩, h1, rfl⟩ := h
  exact (manageResource_effects h1).trans (setLimits_effects account _)

/-- A part of block production: effects that leave everything but tokens, the voting tables and
the data of block production as it is. -/
structure BlockPart (now : BlockTimestamp) (π : Promise) (s s' : State) : Prop where
  effects : Effects now π s s'
  frame : ∃ token voting production blockNum threshActivatedStakeTime,
    s' = { s with token, voting, production, blockNum, threshActivatedStakeTime }

namespace BlockPart
variable {now : BlockTimestamp} {s'' : State}

lemma refl (s : State) : BlockPart now π s s := ⟨Effects.refl s, _, _, _, _, _, rfl⟩

lemma trans (h : BlockPart now π s s') (h' : BlockPart now π s' s'') : BlockPart now π s s'' := by
  refine ⟨h.effects.trans h'.effects, ?_⟩
  obtain ⟨t, v, p, n, a, rfl⟩ := h.frame
  obtain ⟨t', v', p', n', a', rfl⟩ := h'.frame
  exact ⟨_, _, _, _, _, rfl⟩

lemma production (hp : π.produce) (production : Production) :
    BlockPart now π s (s.setProduction production) :=
  ⟨Effect.single (Effect.produce (s := s) hp), _, _, _, _, _, rfl⟩

end BlockPart

lemma ProducersEdited.part {now : BlockTimestamp} (hp : π.produce)
    (hrule : ∀ n old new, EditedRow RowEdit n old new → π.rows n old new)
    (h : ProducersEdited s s') : BlockPart now π s s' := by
  obtain ⟨t, production, rfl, ht⟩ := h
  have helect : Effect now π s { s with voting := { s.voting with producers := t } } :=
    Effect.election (fun _ => rfl) (rewrites_steps hrule ht)
  exact BlockPart.trans ⟨helect.single, _, _, _, _, _, rfl⟩ (BlockPart.production hp production)

lemma claimrewards_effects {owner : Name} (hp : π.produce) (hb : ¬ π.quiet .bpay)
    (hq : ∀ c, π.quiet c → c.account ∉ ctx.auth) (h : claimrewards ctx owner s = .ok s') :
    Effects ctx.now π s s' := by
  simp only [claimrewards, requireAuth, bind_ok, check_ok, exists_const, require_ok, pure_ok] at h
  obtain ⟨ha, p, -, -, -, pay, -, s1, h1, rfl⟩ := h
  refine (inlineTransfer_effects (fun _ => by decide) (fun c hc => ?_)
    (fun c hc he => hq c hc (he ▸ ha)) rfl h1).trans
    (BlockPart.production hp _).effects
  cases c with
  | bpay => exact absurd hc hb
  | stake => decide
  | ram => decide
  | names => decide

omit [FloatOps] in
/-- The accounts through which producers are paid. -/
lemma quiet_ne {a : Name}
    (ha : a = tedpAccount ∨ a = systemAccount ∨ a = worksAccount ∨ a = bpayAccount)
    (hb : ¬ π.quiet .bpay) (c : Custodian) (hc : π.quiet c) : a ≠ c.account := by
  cases c with
  | bpay => exact absurd hc hb
  | stake => rcases ha with rfl | rfl | rfl | rfl <;> decide
  | ram => rcases ha with rfl | rfl | rfl | rfl <;> decide
  | names => rcases ha with rfl | rfl | rfl | rfl <;> decide

lemma transferIfPositive_part {now : BlockTimestamp} {source dest : Name} {amount : ℤ}
    {memoSize : ℕ} (hb : ¬ π.quiet .bpay)
    (hs : source = tedpAccount ∨ source = systemAccount ∨ source = worksAccount ∨
      source = bpayAccount)
    (hd : dest = tedpAccount ∨ dest = systemAccount ∨ dest = worksAccount ∨ dest = bpayAccount)
    (h : s.transferIfPositive source dest amount memoSize = .ok s') : BlockPart now π s s' := by
  unfold State.transferIfPositive at h
  split_ifs at h
  · refine ⟨inlineTransfer_effects (fun _ => ?_) (quiet_ne hs hb) (quiet_ne hd hb) rfl h, ?_⟩
    · rcases hs with rfl | rfl | rfl | rfl <;> decide
    · obtain ⟨t, rfl, -⟩ := inlineTransfer_ok h
      exact ⟨_, _, _, _, _, rfl⟩
  · cases h
    exact BlockPart.refl s

lemma issueIfPositive_part {now : BlockTimestamp} {amount : ℤ} {memoSize : ℕ} (hb : ¬ π.quiet .bpay)
    (h : s.issueIfPositive amount memoSize = .ok s') : BlockPart now π s s' := by
  unfold State.issueIfPositive at h
  split_ifs at h
  · simp only [State.inlineIssue, bind_ok, pure_ok] at h
    obtain ⟨t, ht, rfl⟩ := h
    obtain ⟨hpos, hbal⟩ := Token.issue_spec ht
    refine ⟨(Effect.tokens (fun _ => ?_) fun c hc => ?_).single, _, _, _, _, _, rfl⟩
    · rw [hbal, if_neg (by simp [show rexAccount ≠ systemAccount by decide])]
      omega
    · have hne := quiet_ne (Or.inr (Or.inl rfl)) hb c hc
      rw [hbal, if_neg fun h => hne h.1.symm, add_zero]
  · cases h
    exact BlockPart.refl s

lemma fillBucket_part {now : BlockTimestamp} {pay : Payroll} (hp : π.produce) (hb : ¬ π.quiet .bpay)
    (h : fillBucket now pay s = .ok s') : BlockPart now π s s' := by
  simp only [fillBucket, bind_ok, require_ok, pure_ok] at h
  obtain ⟨held, -, s1, h1, s2, h2, s3, h3, s4, h4, rfl⟩ := h
  have e1 : BlockPart now π s s1 := transferIfPositive_part hb (by simp) (by simp) h1
  have e2 : BlockPart now π s1 s2 := issueIfPositive_part hb h2
  have e3 : BlockPart now π s2 s3 := transferIfPositive_part hb (by simp) (by simp) h3
  have e4 : BlockPart now π s3 s4 := transferIfPositive_part hb (by simp) (by simp) h4
  exact e1.trans (e2.trans (e3.trans (e4.trans (BlockPart.production hp _))))

lemma claimrewardsSnapshot_part {now : BlockTimestamp} {pay : Payroll} (hp : π.produce)
    (hb : ¬ π.quiet .bpay) (hrule : ∀ n old new, EditedRow RowEdit n old new → π.rows n old new)
    (h : claimrewardsSnapshot now pay s = .ok s') : BlockPart now π s s' := by
  simp only [claimrewardsSnapshot, bind_ok, check_ok, exists_const] at h
  obtain ⟨-, h⟩ := h
  by_cases hz : s.production.totalUnpaidBlocks ≤ 0
  · rw [if_pos hz] at h
    cases h
    exact BlockPart.refl s
  · rw [if_neg hz] at h
    by_cases hf : s.production.lastPervoteBucketFill < now.usec ∧
      0 < s.production.lastPervoteBucketFill
    · rw [if_pos hf] at h
      simp only [bind_ok, pure_ok] at h
      obtain ⟨s1, h1, rfl⟩ := h
      exact (fillBucket_part hp hb h1).trans ((payProducersByVotes_edited _ s1).part hp hrule)
    · rw [if_neg hf] at h
      cases h
      exact (payProducersByVotes_edited _ s).part hp hrule

lemma takeSnapshot_part {now : BlockTimestamp} {b : Block} (hp : π.produce) (hb : ¬ π.quiet .bpay)
    (hrule : ∀ n old new, EditedRow RowEdit n old new → π.rows n old new)
    (h : takeSnapshot now b s = .ok s') : BlockPart now π s s' := by
  unfold takeSnapshot at h
  split_ifs at h
  · simp only [bind_ok, pure_ok] at h
    obtain ⟨s1, h1, rfl⟩ := h
    exact (claimrewardsSnapshot_part hp hb hrule h1).trans (BlockPart.production hp _)
  · cases h
    exact BlockPart.refl s

/-- At most one auction is closed between two states. -/
def ClosesAuction (timestamp now : BlockTimestamp) (s s' : State) : Prop :=
  s' = s ∨ s' = closeAuction timestamp now s

lemma electAndClose_parts {now : BlockTimestamp} {b : Block} (hp : π.produce)
    (hrule : ∀ n old new, EditedRow RowEdit n old new → π.rows n old new)
    (h : electAndClose now b s = .ok s') :
    ∃ s1, BlockPart now π s s1 ∧ ClosesAuction b.header.timestamp now s1 s' := by
  unfold electAndClose at h
  split_ifs at h
  · simp only [bind_ok, pure_ok] at h
    obtain ⟨s1, h1, rfl⟩ := h
    exact ⟨s1, (electProducers_counted h1).edited.part hp hrule, Or.inr rfl⟩
  · cases h
    exact ⟨s, BlockPart.refl s, Or.inl rfl⟩

/-- A block may close an auction; before and after that it only touches the rows of producers,
their pay and the data of block production. -/
theorem onblock_parts {b : Block} (hp : π.produce) (hb : ¬ π.quiet .bpay)
    (hrule : ∀ n old new, EditedRow RowEdit n old new → π.rows n old new)
    (h : onblock ctx b s = .ok s') :
    ∃ s₁ s₂, BlockPart ctx.now π s s₁ ∧ ClosesAuction b.header.timestamp ctx.now s₁ s₂ ∧
      BlockPart ctx.now π s₂ s' := by
  obtain ⟨records, -, hstages⟩ := onblock_stages h
  have hrecord : BlockPart ctx.now π s (s.record records) :=
    ⟨Effect.single (Effect.produce (s := s) hp), _, _, _, _, _, rfl⟩
  generalize s.record records = s1 at hstages hrecord
  cases hstages with
  | waiting inactive =>
    refine ⟨s1, s1, hrecord, Or.inl rfl, ?_⟩
    unfold activateNetwork
    split_ifs
    · exact ⟨Effect.single (Effect.produce (s := s1) hp), _, _, _, _, _, rfl⟩
    · exact BlockPart.refl s1
  | @counted s2 s3 _ v active missed votes elect snapshot =>
    have hcount : BlockPart ctx.now π s2 (countBlock b.header.producer s2) :=
      (countBlock_edited _ s2).part hp hrule
    have hrecount : Effect ctx.now π (countBlock b.header.producer s2) _ :=
      Effect.election (Voting.recalculateVotes_counted votes).stakedOf
        (recalculateVotes_steps votes)
    obtain ⟨s₁, hs₁, hclose⟩ := electAndClose_parts hp hrule elect
    refine ⟨s₁, s3, ?_, hclose, takeSnapshot_part hp hb hrule snapshot⟩
    refine hrecord.trans ((BlockPart.production hp _).trans
      (((countMissedBlocks_counted missed).edited.part hp hrule).trans ?_))
    exact hcount.trans (BlockPart.trans ⟨hrecount.single, _, _, _, _, _, rfl⟩ hs₁)

/-- What the parts of block production around the closing of an auction promise. -/
def Promise.block : Promise :=
  ⟨True, fun c => c.account ≠ bpayAccount, fun _ => False, EditedRow RowEdit, False, False, False,
    False, False, False,
    True, False⟩

theorem onblock_effects {b : Block} (hp : π.produce) (hn : π.names) (hb : ¬ π.quiet .bpay)
    (hrule : ∀ n old new, EditedRow RowEdit n old new → π.rows n old new)
    (h : onblock ctx b s = .ok s') : Effects ctx.now π s s' := by
  obtain ⟨s₁, s₂, h₁, hclose, h₂⟩ := onblock_parts hp hb hrule h
  refine h₁.effects.trans (Effects.trans ?_ h₂.effects)
  rcases hclose with rfl | rfl
  · exact Effects.refl s₂
  · exact (Effect.close b.header.timestamp hn).single

end
end TelosSystem
