import TelosSystem.AuctionHouse
import TelosSystem.NameCustody

/-! Names are sold at auctions. The table of bids tells an open auction from a closed one by the sign
of the bid and finds the highest open bid by an unsigned index; what it does is what a house does that
closes the auction of the highest offer. -/
namespace TelosSystem
open AuctionHouse Ledger

def NameBid.stage (b : NameBid) : Stage Name :=
  if 0 < b.highBid then .offered b.highBidder b.highBid b.lastBidTime
  else .won b.highBidder (-b.highBid)

def Auctions.house (a : Auctions) : House Name Name where
  stage newname := (a.bids.lookup newname).elim .unsold NameBid.stage
  lastClose := a.lastNameClose

def auctionRules : Rules where
  raises current bid := current.tdiv 10 < bid - current
  rests lastBidTime now := lastBidTime + usecondsPerDay < now
  apart slot lastNameClose := blocksPerDay < subSec slot lastNameClose

/-- A top-level name of fewer than twelve characters. -/
def Name.isAuctioned (n : Name) : Prop := n.hasDot ∧ n.suffix = n

/-- What an action does at the auctions, if it does anything. -/
def Action.Shows : Action → Move Name Name → Prop
  | .bidname bidder newname bid, m => m = .bid newname bidder bid.amount
  | .newaccount creator newAccountName, m => (creator ≠ systemAccount ∧ newAccountName.isAuctioned ∧
      m = .claim newAccountName creator) ∨
      (¬ (creator ≠ systemAccount ∧ newAccountName.isAuctioned) ∧ m = .idle)
  | .onblock b, m => m = .idle ∨ ∃ newname, m = .close newname b.header.timestamp.slot
  | _, m => m = .idle

lemma Action.Shows.closing {a : Action} {newname : Name} {slot : ℕ}
    (h : a.Shows (.close newname slot)) : ∃ b, a = .onblock b ∧ slot = b.header.timestamp.slot := by
  cases a with
  | onblock b =>
    rcases h with h | ⟨other, h⟩
    · cases h
    · cases h
      exact ⟨b, rfl, rfl⟩
  | newaccount =>
    rcases h with ⟨-, -, h⟩ | ⟨-, h⟩
    · cases h
    · cases h
  | _ => cases h

lemma Action.Shows.claiming {a : Action} {newname bidder : Name}
    (h : a.Shows (.claim newname bidder)) : a = .newaccount bidder newname := by
  cases a with
  | onblock b =>
    rcases h with h | ⟨other, h⟩
    · cases h
    · cases h
  | newaccount =>
    rcases h with ⟨-, -, h⟩ | ⟨-, h⟩
    · cases h
      rfl
    · cases h
  | _ => cases h

/-- Bids are amounts of tokens. -/
def Auctions.Bounded (a : Auctions) : Prop :=
  ∀ newname b, a.bids.lookup newname = some b → -maxAmount ≤ b.highBid ∧ b.highBid ≤ maxAmount

lemma NameBid.stage_open {b : NameBid} (h : 0 < b.highBid) :
    b.stage = .offered b.highBidder b.highBid b.lastBidTime := if_pos h

lemma NameBid.stage_closed {b : NameBid} (h : ¬ 0 < b.highBid) :
    b.stage = .won b.highBidder (-b.highBid) := if_neg h

namespace Auctions
variable {a a' : Auctions} {newname : Name} {b : NameBid}

lemma house_stage (h : a.bids.lookup newname = some b) : a.house.stage newname = b.stage := by
  change (a.bids.lookup newname).elim _ _ = _
  rw [h]
  rfl

lemma house_unsold (h : a.bids.lookup newname = none) : a.house.stage newname = .unsold := by
  change (a.bids.lookup newname).elim _ _ = _
  rw [h]
  rfl

lemma house_eq (hb : a'.bids = a.bids) (hc : a'.lastNameClose = a.lastNameClose) :
    a'.house = a.house := by
  rw [house, house, hb, hc]

lemma house_insert (a : Auctions) (newname : Name) (b : NameBid) :
    ({ a with bids := a.bids.insert newname b } : Auctions).house =
      a.house.set newname b.stage := by
  unfold house House.set
  congr 1
  funext n
  rw [Table.lookup_insert', Function.update_apply]
  split_ifs <;> rfl

lemma house_erase (a : Auctions) (newname : Name) :
    ({ a with bids := a.bids.erase newname } : Auctions).house = a.house.set newname .unsold := by
  unfold house House.set
  congr 1
  funext n
  rw [Table.lookup_erase', Function.update_apply]
  split_ifs <;> rfl

lemma Bounded.insert (h : a.Bounded) (hlow : -maxAmount ≤ b.highBid)
    (hhigh : b.highBid ≤ maxAmount) : Bounded { a with bids := a.bids.insert newname b } := by
  intro n c hc
  rw [Table.lookup_insert'] at hc
  split_ifs at hc
  · cases hc
    exact ⟨hlow, hhigh⟩
  · exact h n c hc

lemma Bounded.erase (h : a.Bounded) : Bounded { a with bids := a.bids.erase newname } := by
  intro n c hc
  rw [Table.lookup_erase'] at hc
  split_ifs at hc
  exact h n c hc

lemma Bounded.of_bids (h : a.Bounded) (hb : a'.bids = a.bids) : a'.Bounded := by
  intro n c hc
  rw [hb] at hc
  exact h n c hc

/-- The index of bids in unsigned form puts higher bids first. -/
lemma byHighBid_open (h : 0 < b.highBid) (hb : b.highBid ≤ maxAmount) :
    (b.byHighBid : ℤ) = 2 ^ 64 - b.highBid := by
  unfold NameBid.byHighBid maxAmount at *
  omega

def before (x y : Name × NameBid) : Prop :=
  x.2.byHighBid < y.2.byHighBid ∨ (x.2.byHighBid = y.2.byHighBid ∧ x.1.value ≤ y.1.value)

instance : DecidableRel before := fun _ _ => inferInstanceAs (Decidable (_ ∨ _))

instance : Std.Total before where
  total x y := by
    unfold before
    rcases lt_trichotomy x.2.byHighBid y.2.byHighBid with h | h | h
    · exact .inl (.inl h)
    · rcases UInt64.le_total x.1.value y.1.value with hv | hv
      · exact .inl (.inr ⟨h, hv⟩)
      · exact .inr (.inr ⟨h.symm, hv⟩)
    · exact .inr (.inl h)

instance : IsTrans (Name × NameBid) before where
  trans x y z hxy hyz := by
    unfold before at hxy hyz ⊢
    rcases hxy with hxy | ⟨hxy, hv⟩
    · exact .inl (by omega)
    · rcases hyz with hyz | ⟨hyz, hv'⟩
      · exact .inl (by omega)
      · exact .inr ⟨by omega, UInt64.le_trans hv hv'⟩

lemma highestBid_eq (t : Table Name NameBid) :
    highestBid t = (t.indexed before).find? fun e => (2 ^ 64 - 1) / 2 ≤ e.2.byHighBid := rfl

/-- No open bid is above the one that the index gives. -/
theorem highestBid_highest (hb : a.Bounded) (h : highestBid a.bids = some (newname, b))
    (hpos : 0 < b.highBid) : a.house.Highest b.highBid := by
  intro other bidder amount placed hstage
  cases hl : a.bids.lookup other with
  | none =>
    rw [house_unsold hl] at hstage
    cases hstage
  | some c =>
    rw [house_stage hl] at hstage
    by_cases hc : 0 < c.highBid
    · rw [NameBid.stage_open hc] at hstage
      cases hstage
      have hckey := byHighBid_open hc (hb other c hl).2
      have hcmax := (hb other c hl).2
      rw [highestBid_eq] at h
      obtain ⟨-, first, rest, heq, hfirst⟩ := List.find?_eq_some_iff_append.mp h
      have hsorted : (a.bids.indexed before).Pairwise before := List.pairwise_insertionSort _ _
      have hmem : (other, c) ∈ first ++ (newname, b) :: rest :=
        heq ▸ (Table.mem_indexed before).mpr hl
      rw [heq] at hsorted
      rcases List.mem_append.mp hmem with hm | hm
      · -- an open bid has a key in the upper half, and the search takes the first such key
        have hlow := hfirst _ hm
        simp only [Bool.not_eq_true', decide_eq_false_iff_not, not_le] at hlow
        unfold maxAmount at hcmax
        omega
      · rcases List.mem_cons.mp hm with heq' | hm
        · cases heq'
          exact le_refl _
        · have hbefore : before (newname, b) (other, c) :=
            (List.pairwise_cons.mp (List.pairwise_append.mp hsorted).2.1).1 _ hm
          have hbmax : b.highBid ≤ maxAmount :=
            (hb newname b ((Table.mem_indexed before).mp (List.mem_of_find?_eq_some h))).2
          have hbkey := byHighBid_open hpos hbmax
          unfold before at hbefore
          dsimp only at hbefore
          omega
    · rw [NameBid.stage_closed hc] at hstage
      cases hstage

end Auctions

/-- What an action does at the auctions, as a move of the house. -/
structure AuctionStep (now : BlockTimestamp) (action : Action) (a a' : Auctions) : Prop where
  moves : ∃ m, action.Shows m ∧ Moves auctionRules now.usec a.house m a'.house
  bounded : a'.Bounded

lemma AuctionStep.kept {now : BlockTimestamp} {action : Action} {a a' : Auctions} (hb : a.Bounded)
    (hidle : action.Shows .idle) (hbids : a'.bids = a.bids)
    (hclose : a'.lastNameClose = a.lastNameClose) : AuctionStep now action a a' := by
  refine ⟨⟨.idle, hidle, ?_⟩, hb.of_bids hbids⟩
  rw [Auctions.house_eq hbids hclose]
  exact Moves.idle

section
variable [FloatOps] {now : BlockTimestamp} {π : Promise} {s s' : State}

theorem Effect.auctions_kept (h : Effect now π s s') (hn : ¬ π.names) :
    s'.auctions = s.auctions := by
  cases h with
  | auctions names => exact absurd names hn
  | close timestamp names => exact absurd names hn
  | stake h =>
    obtain ⟨staking, resources, token, rfl, -⟩ := moveStake_frame h
    rfl
  | market h =>
    obtain ⟨resources, powerup, rfl⟩ := h.frame
    rfl
  | _ => rfl

theorem Effects.auctions_kept (h : Effects now π s s') (hn : ¬ π.names) :
    s'.auctions = s.auctions := by
  induction h with
  | refl => rfl
  | tail hprior hstep ih => exact (hstep.auctions_kept hn).trans ih

omit [FloatOps] in
theorem Purchase.auctions_kept (h : Purchase now π s s') : s'.auctions = s.auctions := by
  obtain ⟨owner, payment, delta, mid, -, -, hf, hpur⟩ := h.parts
  obtain ⟨received, p', stake, -, rfl⟩ := purchase_ok hpur
  cases hf with
  | fund debit => rfl
  | stake net cpu sum hu paid =>
    obtain ⟨staking, resources, rfl⟩ := unstakeBandwidth_frame hu
    rfl

omit [FloatOps] in
lemma inlineTransfer_le {source dest : Name} {quantity : Asset} {memoSize : ℕ}
    (h : s.inlineTransfer source dest quantity memoSize = .ok s') :
    quantity.amount ≤ maxAmount := by
  simp only [State.inlineTransfer, Token.transfer, bind_ok, check_ok, exists_const,
    require_ok, pure_ok] at h
  obtain ⟨t, ⟨-, -, -, st, -, hvalid, -⟩, -⟩ := h
  simp only [Asset.isValid, Bool.and_eq_true, decide_eq_true_eq] at hvalid
  exact hvalid.1.2

omit [FloatOps] in
lemma bidname_house {ctx : Context} {bidder newname : Name} {bid : Asset} (hb : s.auctions.Bounded)
    (h : bidname ctx bidder newname bid s = .ok s') :
    AuctionStep ctx.now (.bidname bidder newname bid) s.auctions s'.auctions := by
  simp only [bidname, requireAuth, bind_ok, check_ok, exists_const, pure_ok] at h
  obtain ⟨-, -, -, -, -, -, -, hpos, s1, h1, s2, h2, rfl⟩ := h
  have hle := inlineTransfer_le h1
  obtain ⟨t, rfl, -⟩ := inlineTransfer_ok h1
  let placed : NameBid := ⟨bidder, bid.amount, ctx.now.usec⟩
  have hstage : placed.stage = .offered bidder bid.amount ctx.now.usec := NameBid.stage_open hpos
  have hrow : -maxAmount ≤ placed.highBid := le_trans (by decide) hpos.le
  have hmove : ∀ a : Auctions, a.bids = s.auctions.bids →
    a.lastNameClose = s.auctions.lastNameClose →
      auctionRules.Beats bidder bid.amount (s.auctions.house.stage newname) →
      AuctionStep ctx.now (.bidname bidder newname bid) s.auctions
        { a with bids := a.bids.insert newname placed } := by
    intro a hbids hclose hbeats
    refine ⟨⟨.bid newname bidder bid.amount, rfl, ?_⟩, (hb.of_bids hbids).insert hrow hle⟩
    rw [Auctions.house_insert, hstage, Auctions.house_eq hbids hclose]
    exact Moves.bid hbeats
  unfold outbid at h2
  split at h2
  · rename_i hnone
    cases h2
    refine hmove s.auctions rfl rfl ?_
    rw [Auctions.house_unsold hnone]
    trivial
  · rename_i current hsome
    simp only [bind_ok, check_ok, exists_const, pure_ok] at h2
    obtain ⟨hopen, hraise, hother, rfl⟩ := h2
    refine hmove _ rfl rfl ?_
    rw [Auctions.house_stage hsome, NameBid.stage_open hopen]
    exact ⟨hother, hraise⟩

omit [FloatOps] in
lemma bidrefund_house {bidder newname : Name} (hb : s.auctions.Bounded)
    (h : bidrefund bidder newname s = .ok s') :
    AuctionStep now (.bidrefund bidder newname) s.auctions s'.auctions := by
  simp only [bidrefund, bind_ok, require_ok, pure_ok] at h
  obtain ⟨amount, -, s1, h1, rfl⟩ := h
  obtain ⟨t, rfl, -⟩ := inlineTransfer_ok h1
  exact AuctionStep.kept hb rfl rfl rfl

omit [FloatOps] in
lemma newaccount_house {ctx : Context} {creator newAccountName : Name} (hb : s.auctions.Bounded)
    (h : newaccount ctx creator newAccountName s = .ok s') :
    AuctionStep ctx.now (.newaccount creator newAccountName) s.auctions s'.auctions := by
  simp only [newaccount, requireAuth, bind_ok, check_ok, exists_const, pure_ok] at h
  obtain ⟨-, -, -, -, s1, h1, -, rfl⟩ := h
  unfold claimName at h1
  split_ifs at h1 with hcreator hsuffix
  · simp only [bind_ok, require_ok, check_ok, exists_const, pure_ok] at h1
    obtain ⟨current, hrow, rfl, hclosed, rfl⟩ := h1
    have hwon : s.auctions.house.stage newAccountName =
      .won current.highBidder (-current.highBid) := by
      rw [Auctions.house_stage hrow, NameBid.stage_closed (not_lt.mpr hclosed.le)]
    refine ⟨⟨.claim newAccountName current.highBidder,
      Or.inl ⟨hcreator.1, ⟨hcreator.2, hsuffix⟩, rfl⟩, ?_⟩, hb.erase⟩
    have hmove : Moves auctionRules ctx.now.usec s.auctions.house
      (.claim newAccountName current.highBidder) _ :=
      Moves.claim hwon
    rw [← Auctions.house_erase] at hmove
    exact hmove
  · simp only [bind_ok, check_ok, exists_const, pure_ok] at h1
    obtain ⟨-, rfl⟩ := h1
    exact AuctionStep.kept hb (Or.inr ⟨fun hc => hsuffix hc.2.2, rfl⟩) rfl rfl
  · cases h1
    exact AuctionStep.kept hb (Or.inr ⟨fun hc => hcreator ⟨hc.1, hc.2.1⟩, rfl⟩) rfl rfl

omit [FloatOps] in
lemma AuctionClosed.auctions {timestamp : BlockTimestamp} {newname : Name} {bid : NameBid}
    (h : AuctionClosed timestamp now newname bid s s') :
    s'.auctions = s.auctions.close timestamp newname bid := by
  rw [h.result]
  rcases channelNamebidToRex_cases bid.highBid
    { s with auctions := s.auctions.close timestamp newname bid }
    with ⟨-, he⟩ | ⟨p, -, -, he⟩
  · rw [he]
  · rw [he]
    rfl

omit [FloatOps] in
/-- The auction that a block closes is that of the highest offer. -/
lemma AuctionClosed.house {timestamp : BlockTimestamp} {newname : Name} {bid : NameBid}
    (hb : s.auctions.Bounded) (h : AuctionClosed timestamp now newname bid s s') :
    Moves auctionRules now.usec s.auctions.house (.close newname timestamp.slot) s'.auctions.house ∧
      s'.auctions.Bounded := by
  have hpos := h.positive
  have hrow := hb newname bid h.bid
  have hcloses : auctionRules.Closes now.usec newname timestamp.slot bid.highBidder bid.highBid
    s.auctions.house := by
    refine ⟨⟨bid.lastBidTime, ?_, h.dayOld⟩, Auctions.highestBid_highest hb h.highest hpos,
      h.spaced⟩
    rw [Auctions.house_stage h.bid, NameBid.stage_open hpos]
  have hwon : ({ bid with highBid := -bid.highBid } : NameBid).stage =
    .won bid.highBidder bid.highBid := by
    rw [NameBid.stage_closed (by dsimp only; omega), neg_neg]
  have hmove := Moves.close hcloses
  rw [← hwon, ← Auctions.house_insert] at hmove
  have hbounded : Auctions.Bounded { s.auctions with
      bids := s.auctions.bids.insert newname { bid with highBid := -bid.highBid } } :=
    hb.insert (neg_le_neg hrow.2) (neg_le.mp hrow.1)
  rw [h.auctions]
  exact ⟨hmove, hbounded⟩

lemma onblock_house {ctx : Context} {b : Block} (hb : s.auctions.Bounded)
    (h : onblock ctx b s = .ok s') : AuctionStep ctx.now (.onblock b) s.auctions s'.auctions := by
  obtain ⟨s₁, s₂, h₁, hclose, h₂⟩ :=
    onblock_parts (π := Promise.block) trivial (fun hq => hq rfl) (fun _ _ _ => id) h
  have ha₁ := h₁.effects.auctions_kept id
  have ha₂ := h₂.effects.auctions_kept id
  rw [ha₂, ← ha₁]
  rw [← ha₁] at hb
  have hsame : AuctionStep ctx.now (.onblock b) s₁.auctions s₁.auctions :=
    AuctionStep.kept hb (Or.inl rfl) rfl rfl
  rcases hclose with rfl | rfl
  · exact hsame
  · rcases closeAuction_cases b.header.timestamp ctx.now s₁ with hc | ⟨newname, bid, hc⟩
    · rw [hc]
      exact hsame
    · obtain ⟨hmove, hbounded⟩ := hc.house hb
      exact ⟨⟨_, Or.inr ⟨newname, rfl⟩, hmove⟩, hbounded⟩

theorem step.auctions {l : Label} (hb : s.auctions.Bounded) (h : step now l s s') :
    AuctionStep now l.action s.auctions s'.auctions := by
  have hother : ¬ l.action.ChangesAuctions → l.action.Shows .idle →
    AuctionStep now l.action s.auctions s'.auctions := by
    intro hn hidle
    obtain ⟨mid, hmid, he⟩ := exec_decomposed h
    have ha : s'.auctions = s.auctions := by
      rcases hmid with rfl | hp
      · exact he.auctions_kept hn
      · exact (he.auctions_kept hn).trans hp.auctions_kept
    rw [ha]
    exact AuctionStep.kept hb hidle rfl rfl
  obtain ⟨auth, action⟩ := l
  cases action with
  | bidname bidder newname bid => exact bidname_house hb h
  | bidrefund bidder newname => exact bidrefund_house hb h
  | newaccount creator newAccountName => exact newaccount_house hb h
  | onblock b => exact onblock_house hb h
  | _ => exact hother id rfl

/-- The system holds auctions of names by these rules. -/
theorem name_auctions : Holds auctionRules BlockTimestamp.usec (fun s : State => s.auctions.house)
    (fun l : Label => l.action.Shows) (fun s => s.auctions.Bounded) step :=
  ⟨fun hb h => (step.auctions hb h).bounded, fun hb h => (step.auctions hb h).moves⟩

omit [FloatOps] in
lemma Auctions.bounded_of_empty {a : Auctions} (h : a.bids = ∅) : a.Bounded := by
  intro newname b hb
  rw [h] at hb
  cases hb

lemma Auctions.Bounded.reached {t₀ t : BlockTimestamp} {s₀ : State}
    {tr : List (BlockTimestamp × Label)} (hb : s₀.auctions.Bounded)
    (hrun : TimedRun step t₀ s₀ tr t s) : s.auctions.Bounded :=
  TimedRun.stateInvariant (fun _ s => s.auctions.Bounded) hb
    (fun hi _ hs => name_auctions.keep hi hs) hrun

/-- From the first bid on: who makes an account of an auctioned name has won the name at an earlier
block, with an offer of his that no other was above and that was over a day old; he has been the winner
ever since, at the same amount, and the claim takes the name off the table. -/
theorem name_won {t₀ t now : BlockTimestamp} {s₀ : State} {tr : List (BlockTimestamp × Label)}
    {auth : List Name} {creator newname : Name} (hempty : s₀.auctions.bids = ∅)
    (hrun : TimedRun step t₀ s₀ tr t s) (hcreator : creator ≠ systemAccount)
    (hname : newname.isAuctioned) (h : step now ⟨auth, .newaccount creator newname⟩ s s') :
    (∃ amount, HeldSince step (fun t l s _ => ∃ b, l.action = .onblock b ∧
        auctionRules.Closes t.usec newname b.header.timestamp.slot creator amount s.auctions.house)
      (fun s => s.auctions.house.stage newname = .won creator amount) t₀ s₀ tr t s) ∧
      s'.auctions.bids.lookup newname = none := by
  have hb₀ := Auctions.bounded_of_empty hempty
  have hb := hb₀.reached hrun
  obtain ⟨m, hm, hmove⟩ := (step.auctions hb h).moves
  obtain rfl : m = .claim newname creator := by
    rcases hm with ⟨-, -, hm⟩ | ⟨hnot, -⟩
    · exact hm
    · exact absurd ⟨hcreator, hname⟩ hnot
  generalize hend : s'.auctions.house = y at hmove
  cases hmove with
  | @claim _ _ amount won =>
    have hunsold : s₀.auctions.house.stage newname ≠ .won creator amount := by
      rw [Auctions.house_unsold (by rw [hempty]; rfl)]
      intro hf
      cases hf
    have hsince := name_auctions.won_since hb₀ hunsold hrun won
    refine ⟨⟨amount, hsince.imp fun {t l s s'} hturn => ?_⟩, ?_⟩
    · obtain ⟨reading, hshows, hcloses⟩ := hturn
      obtain ⟨b, hl, rfl⟩ := hshows.closing
      exact ⟨b, hl, hcloses⟩
    · have hstage : s'.auctions.house.stage newname = .unsold := by rw [hend, House.set_self]
      cases hl : s'.auctions.bids.lookup newname with
      | none => rfl
      | some c =>
        rw [Auctions.house_stage hl] at hstage
        by_cases hc : 0 < c.highBid
        · rw [NameBid.stage_open hc] at hstage
          cases hstage
        · rw [NameBid.stage_closed hc] at hstage
          cases hstage

/-- Once the auction of a name is closed, and until its winner claims the name, nobody can bid on it
and neither the winner nor the amount changes. -/
theorem closed_auction {t t' : BlockTimestamp} {tr : List (BlockTimestamp × Label)}
    {newname winner : Name} {amount : ℤ} (hb : s.auctions.Bounded)
    (hwon : s.auctions.house.stage newname = .won winner amount) (hrun : TimedRun step t s tr t' s')
    (hclaim : ∀ x ∈ tr, x.2.action ≠ .newaccount winner newname) :
    s'.auctions.house.stage newname = .won winner amount ∧
      ∀ now auth bidder bid s'', ¬ step now ⟨auth, .bidname bidder newname bid⟩ s' s'' := by
  have hkept : s'.auctions.house.stage newname = .won winner amount :=
    name_auctions.won_until_claimed hb hwon hrun fun x hx hshows => hclaim x hx hshows.claiming
  refine ⟨hkept, fun now auth bidder bid s'' h => ?_⟩
  have hb' := hb.reached hrun
  obtain ⟨m, hm, hmove⟩ := (step.auctions hb' h).moves
  rcases hmove.won_or_claimed hkept with ⟨-, hnot⟩ | hclaimed
  · exact hnot bidder bid.amount hm
  · rw [hm] at hclaimed
    cases hclaimed

/-- The headers of a trace come in the order of their slots. -/
def HeadersInOrder (tr : List (BlockTimestamp × Label)) : Prop :=
  tr.Pairwise fun x y => ∀ b b', x.2.action = .onblock b → y.2.action = .onblock b' →
    b.header.timestamp.slot ≤ b'.header.timestamp.slot

def ClosesName (s s' : State) : Prop :=
  ∃ newname winner amount, s.auctions.house.stage newname ≠ .won winner amount ∧
    s'.auctions.house.stage newname = .won winner amount

/-- What a step that closes an auction does to the time of the last closing. -/
lemma ClosesName.spaced {l : Label} (hb : s.auctions.Bounded) (h : step now l s s')
    (hc : ClosesName s s') :
    ∃ b, l.action = .onblock b ∧
      blocksPerDay < subSec b.header.timestamp.slot s.auctions.lastNameClose ∧
      s'.auctions.lastNameClose = b.header.timestamp.slot := by
  obtain ⟨newname, winner, amount, hnot, hwon⟩ := hc
  obtain ⟨m, hm, hmove⟩ := (step.auctions hb h).moves
  obtain ⟨slot, rfl, hcloses⟩ := hmove.closes hnot hwon
  obtain ⟨b, hl, rfl⟩ := hm.closing
  refine ⟨b, hl, hcloses.apart, ?_⟩
  generalize hend : s'.auctions.house = y at hmove
  cases hmove with
  | close => exact congrArg House.lastClose hend

/-- Where headers come in order, any two closings are more than `blocks_per_day` slots apart, whatever
happens between them. -/
theorem closings_spaced {t₁ t₂ t₃ : BlockTimestamp} {l₁ l₂ : Label} {s₀ s₁ s₂ s₃ : State}
    {tr : List (BlockTimestamp × Label)} (hb : s₀.auctions.Bounded) (hfirst : step t₁ l₁ s₀ s₁)
    (hc₁ : ClosesName s₀ s₁) (hrun : TimedRun step t₁ s₁ tr t₂ s₂) (hsecond : step t₃ l₂ s₂ s₃)
    (hc₂ : ClosesName s₂ s₃) (horder : HeadersInOrder ((t₁, l₁) :: tr ++ [(t₃, l₂)])) :
    ∃ b₁ b₂, l₁.action = .onblock b₁ ∧ l₂.action = .onblock b₂ ∧
      b₁.header.timestamp.slot + blocksPerDay < b₂.header.timestamp.slot := by
  obtain ⟨b₁, hl₁, -, hclose₁⟩ := hc₁.spaced hb hfirst
  have hb₁ := (step.auctions hb hfirst).bounded
  have hb₂ := hb₁.reached hrun
  obtain ⟨b₂, hl₂, hspaced, -⟩ := hc₂.spaced hb₂ hsecond
  obtain ⟨htr, -, hlast⟩ := List.pairwise_append.mp horder
  have hle : b₁.header.timestamp.slot ≤ b₂.header.timestamp.slot :=
    hlast _ List.mem_cons_self _ (List.mem_singleton_self _) b₁ b₂ hl₁ hl₂
  have hread : ∀ x ∈ tr, ∀ item reading, x.2.action.Shows (.close item reading) →
      b₁.header.timestamp.slot ≤ reading ∧ reading ≤ b₂.header.timestamp.slot := by
    intro x hx item reading hshows
    obtain ⟨b, hl, rfl⟩ := hshows.closing
    exact ⟨(List.pairwise_cons.mp htr).1 x hx b₁ b hl₁ hl,
      hlast x (List.mem_cons_of_mem _ hx) _ (List.mem_singleton_self _) b b₂ hl hl₂⟩
  obtain ⟨-, hlow, hhigh⟩ := name_auctions.lastClose_between hb₁ hrun hclose₁.ge
    (hclose₁.le.trans hle) hread
  refine ⟨b₁, b₂, hl₁, hl₂, ?_⟩
  have hreal := subSec_of_le hhigh b₂.header.timestamp.slot_lt
  dsimp only [Auctions.house] at hlow hhigh hreal
  omega

end

def auctionExec (now : BlockTimestamp) (l : Label) (s : State) : Except String State :=
  @exec launchFloats ⟨now, l.auth⟩ l.action s

def teaClosing : Label := ⟨[systemAccount], .onblock (plainBlock 1 (days 15))⟩

def catClosing : Label := ⟨[systemAccount], .onblock (plainBlock 2 (days 17))⟩

/-- Alice bids on another name, and buys REX, after the auction of the first is closed. -/
def betweenClosings : List (BlockTimestamp × Label) :=
  [(days 15, ⟨[alice], .bidname alice cat ⟨5000, tlos⟩⟩),
    (days 15, ⟨[alice], .deposit alice ⟨1000000, tlos⟩⟩),
    (days 15, ⟨[alice], .buyrex alice ⟨1000000, tlos⟩⟩)]

def teaOffered : State := stateAfter auctionExec (auctionTrace.take 2) auctionState

def teaWon : State := stateAfter auctionExec [(days 15, teaClosing)] teaOffered

def catOffered : State := stateAfter auctionExec betweenClosings teaWon

def catWon : State := stateAfter auctionExec [(days 17, catClosing)] catOffered

lemma teaOffered_bounded : teaOffered.auctions.Bounded := by
  have hrun : TimedRun (@step launchFloats) launchTime auctionState
    (auctionTrace.take 2) _ teaOffered :=
    letI := launchFloats
    timedRun_stateAfter (by decide) (by decide +kernel)
  let := launchFloats
  exact Auctions.Bounded.reached (Auctions.bounded_of_empty rfl) hrun

lemma teaClosing_step : @step launchFloats (days 15) teaClosing teaOffered teaWon :=
  @exec_stateAfter _ _ _ auctionExec _ _ _ (by decide +kernel)

lemma betweenClosings_run :
    TimedRun (@step launchFloats) (days 15) teaWon betweenClosings (days 15) catOffered :=
  letI := launchFloats
  timedRun_stateAfter (by decide) (by decide +kernel)

/-- Bob makes an account of the name he has won two days before. -/
theorem tea_won :
    (∃ amount, HeldSince (@step launchFloats) (fun t l s _ => ∃ b, l.action = .onblock b ∧
      auctionRules.Closes t.usec tea b.header.timestamp.slot bob amount s.auctions.house)
    (fun s => s.auctions.house.stage tea = .won bob amount) launchTime auctionState auctionTrace
      ((auctionTrace.getLast?.map Prod.fst).getD launchTime) auctionEnd) ∧
    (stateAfter auctionExec [(days 17, ⟨[bob], .newaccount bob tea⟩)]
      auctionEnd).auctions.bids.lookup tea = none := by
  have hclaim : @step launchFloats (days 17) ⟨[bob], .newaccount bob tea⟩ auctionEnd
      (stateAfter auctionExec [(days 17, ⟨[bob], .newaccount bob tea⟩)] auctionEnd) :=
    @exec_stateAfter _ _ _ auctionExec _ _ _ (by decide +kernel)
  let := launchFloats
  exact name_won rfl auctionTrace_run (by decide) ⟨by decide, by decide⟩ hclaim

/-- While Alice bids on another name, nobody can bid on the one that Bob has won. -/
theorem tea_stays_won : catOffered.auctions.house.stage tea = .won bob 20000 ∧
    ∀ now auth bidder bid s'',
      ¬ @step launchFloats now ⟨auth, .bidname bidder tea bid⟩ catOffered s'' := by
  have hwon : teaWon.auctions.house.stage tea = .won bob 20000 := by decide +kernel
  have hclaim : ∀ x ∈ betweenClosings, x.2.action ≠ .newaccount bob tea := by simp [betweenClosings]
  let := launchFloats
  exact closed_auction (step.auctions teaOffered_bounded teaClosing_step).bounded hwon
    betweenClosings_run hclaim

/-- The two auctions are closed two days apart. -/
theorem tea_before_cat :
    ∃ b₁ b₂, teaClosing.action = .onblock b₁ ∧ catClosing.action = .onblock b₂ ∧
    b₁.header.timestamp.slot + blocksPerDay < b₂.header.timestamp.slot := by
  have hsecond : @step launchFloats (days 17) catClosing catOffered catWon :=
    @exec_stateAfter _ _ _ auctionExec _ _ _ (by decide +kernel)
  have hc₁ : ClosesName teaOffered teaWon := ⟨tea, bob, 20000, by decide +kernel, by decide +kernel⟩
  have hc₂ : ClosesName catOffered catWon :=
    ⟨cat, alice, 5000, by decide +kernel, by decide +kernel⟩
  have horder : HeadersInOrder
    ((days 15, teaClosing) :: betweenClosings ++ [(days 17, catClosing)]) := by
    simp [HeadersInOrder, betweenClosings, teaClosing, catClosing, plainBlock]
    decide
  let := launchFloats
  exact closings_spaced teaOffered_bounded teaClosing_step hc₁ betweenClosings_run
    hsecond hc₂ horder

end TelosSystem
