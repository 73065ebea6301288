import TelosSystem.RexActions

/-! Auctions of short account names. -/
namespace TelosSystem
open Ledger

namespace Name

/-- The bits after the last dot that is followed by another character, and after the last
dot seen, over the first twelve characters. -/
private def lastDot (value : ℕ) : ℕ → ℕ × ℕ
  | 0 => (0, 0)
  | n + 1 =>
    let (actual, seen) := lastDot value n
    let remaining := 59 - 5 * n
    if value / 2 ^ remaining % 32 = 0 then (actual, remaining) else (seen, seen)

def suffix (n : Name) : Name :=
  let value := n.value.toNat
  let (actual, seen) := lastDot value 12
  let thirteenth := value % 16
  let actual := if thirteenth ≠ 0 then seen else actual
  if actual = 0 then n
  else
    let shift := 64 - actual
    ⟨UInt64.ofNat ((value % 2 ^ actual / 16 * 16) * 2 ^ shift + thirteenth * 2 ^ (shift - 1))⟩

end Name

def State.setBid (s : State) (newname : Name) (b : NameBid) : State :=
  { s with auctions := { s.auctions with bids := s.auctions.bids.insert newname b } }

def State.setBidRefund (s : State) (newname bidder : Name) (amount : ℤ) : State :=
  { s with auctions := { s.auctions with
    refunds := s.auctions.refunds.insert (newname, bidder) amount } }

def outbid (newname bidder : Name) (bid : ℤ) (s : State) : Except String State :=
  match s.auctions.bids.lookup newname with
  | none => .ok s
  | some current => do
    check (0 < current.highBid) "this auction has already closed"
    check (current.highBid.tdiv 10 < bid - current.highBid) "must increase bid by 10%"
    check (current.highBidder ≠ bidder) "account is already highest bidder"
    let owed := (s.auctions.refunds.lookup (newname, current.highBidder)).getD 0
    pure (s.setBidRefund newname current.highBidder (owed + current.highBid))

def bidname (ctx : Context) (bidder newname : Name) (bid : Asset) (s : State) :
    Except String State := do
  requireAuth ctx bidder
  check (newname.suffix = newname) "you can only bid on top-level suffix"
  check (newname ≠ Name.empty) "the empty name is not a valid account name to bid on"
  check (newname.value &&& 0xF = 0) "13 character names are not valid account names to bid on"
  check (newname.value &&& 0x1F0 = 0)
    "accounts with 12 character names and no dots can be created without bidding required"
  check (s.isAccount newname = false) "account already exists"
  check (bid.symbol = s.core) "asset must be system token"
  check (0 < bid.amount) "insufficient bid"
  let s ← s.inlineTransfer bidder namesAccount bid 22
  let s ← outbid newname bidder bid.amount s
  pure (s.setBid newname ⟨bidder, bid.amount, ctx.now.usec⟩)

def bidrefund (bidder newname : Name) (s : State) : Except String State := do
  let amount ← require (s.auctions.refunds.lookup (newname, bidder)) "refund not found"
  let s ← s.inlineTransfer namesAccount bidder ⟨amount, s.core⟩ 32
  pure { s with auctions := { s.auctions with
    refunds := s.auctions.refunds.erase (newname, bidder) } }

/-- The key of the `highbid` index. -/
def NameBid.byHighBid (b : NameBid) : ℕ := ((-b.highBid) % 2 ^ 64).toNat

def highestBid (t : Table Name NameBid) : Option (Name × NameBid) :=
  (t.indexed fun a b => a.2.byHighBid < b.2.byHighBid ∨
    (a.2.byHighBid = b.2.byHighBid ∧ a.1.value ≤ b.1.value)).find? fun e =>
    (2 ^ 64 - 1) / 2 ≤ e.2.byHighBid

/-- The part of `onblock` that closes an auction, for the block made at `timestamp`. -/
def closeAuction (timestamp now : BlockTimestamp) (s : State) : State :=
  if subSec timestamp.slot s.auctions.lastNameClose ≤ blocksPerDay then s
  else
    match highestBid s.auctions.bids with
    | none => s
    | some (newname, highest) =>
      if 0 < highest.highBid ∧ highest.lastBidTime + usecondsPerDay < now.usec ∧
          0 < s.threshActivatedStakeTime ∧
          s.threshActivatedStakeTime + 14 * usecondsPerDay < now.usec then
        let auctions := { s.auctions with
          lastNameClose := timestamp.slot
          bids := s.auctions.bids.insert newname { highest with highBid := -highest.highBid } }
        channelNamebidToRex highest.highBid { s with auctions }
      else s

def Auctions.close (a : Auctions) (timestamp : BlockTimestamp) (newname : Name) (bid : NameBid) :
    Auctions :=
  { a with
    lastNameClose := timestamp.slot
    bids := a.bids.insert newname { bid with highBid := -bid.highBid } }

structure AuctionClosed (timestamp now : BlockTimestamp) (newname : Name) (bid : NameBid)
    (s s' : State) : Prop where
  spaced : blocksPerDay < subSec timestamp.slot s.auctions.lastNameClose
  highest : highestBid s.auctions.bids = some (newname, bid)
  positive : 0 < bid.highBid
  dayOld : bid.lastBidTime + usecondsPerDay < now.usec
  result : s' = channelNamebidToRex bid.highBid
    { s with auctions := s.auctions.close timestamp newname bid }

lemma closeAuction_cases (timestamp now : BlockTimestamp) (s : State) :
    closeAuction timestamp now s = s ∨
    ∃ newname bid, AuctionClosed timestamp now newname bid s (closeAuction timestamp now s) := by
  unfold closeAuction
  split_ifs with hspaced
  · exact Or.inl rfl
  · split
    · exact Or.inl rfl
    · rename_i newname bid hhigh
      split_ifs with hclose
      · exact Or.inr ⟨newname, bid, not_le.mp hspaced, hhigh, hclose.1, hclose.2.1, rfl⟩
      · exact Or.inl rfl

/-- The proceeds of a closed auction go to the pool while there is REX. -/
lemma channelNamebidToRex_cases (bid : ℤ) (s : State) :
    (¬ rexAvailable s.pools ∧ channelNamebidToRex bid s = s) ∨
    ∃ p, s.pools.rexpool = some p ∧ 0 < p.totalRex ∧
      channelNamebidToRex bid s =
        s.setPool { p with namebidProceeds := p.namebidProceeds + bid } := by
  unfold channelNamebidToRex rexAvailable
  cases hp : s.pools.rexpool with
  | none => exact Or.inl ⟨by simp, rfl⟩
  | some p =>
    by_cases hrex : 0 < p.totalRex
    · exact Or.inr ⟨p, rfl, hrex, if_pos hrex⟩
    · exact Or.inl ⟨by simpa using hrex, if_neg hrex⟩

/-- Only the auctions change, and the proceeds in the pool. -/
lemma closeAuction_frame (timestamp now : BlockTimestamp) (s : State) :
    (∃ auctions, closeAuction timestamp now s = { s with auctions }) ∨
      ∃ auctions p bid, s.pools.rexpool = some p ∧ closeAuction timestamp now s = { s with
        auctions, pools := { s.pools with
          rexpool := some { p with namebidProceeds := p.namebidProceeds + bid } } } := by
  rcases closeAuction_cases timestamp now s with h | ⟨newname, bid, h⟩
  · exact Or.inl ⟨s.auctions, h⟩
  · rw [h.result]
    rcases channelNamebidToRex_cases bid.highBid
      { s with auctions := s.auctions.close timestamp newname bid }
      with ⟨-, he⟩ | ⟨p, hp, -, he⟩
    · exact Or.inl ⟨_, he⟩
    · exact Or.inr ⟨_, p, _, hp, he⟩

lemma closeAuction_eq (timestamp now : BlockTimestamp) (s : State) :
    ∃ auctions pools, closeAuction timestamp now s = { s with auctions, pools } := by
  rcases closeAuction_frame timestamp now s with ⟨auctions, h⟩ | ⟨auctions, p, bid, -, h⟩
  · exact ⟨auctions, s.pools, h⟩
  · exact ⟨auctions, _, h⟩

end TelosSystem
