import Mathlib.Data.List.Perm.Basic
import Moboware.MatchingEngine.Ledger

/-! # What the trades come to

Every trade message reports an order at its own limit price. The messages of a run go by twos,
one for a buy order and one for a sell order over the same volume, so that as much is bought as
is sold; and what the buyers are told to pay covers what the sellers are told they get.
-/
namespace Moboware
open Library MatchingEngine OrderBook
variable {Endpoint : Type*}

/-- The two messages of one round. -/
structure Deal where
  buy : Trade
  sell : Trade
  deriving DecidableEq

namespace Deal

/-- In the order they are sent: that of the opposite side first. -/
def trades (isBuySide : Bool) (deal : Deal) : List Trade :=
  if isBuySide then [deal.sell,deal.buy] else [deal.buy,deal.sell]

/-- Both orders were inserted, each on its side; the volume is the same, and the buyer's limit
covers the seller's. -/
structure Fair (inserted : Bool → Id → Prop) (deal : Deal) : Prop where
  volume : deal.buy.tradedVolume = deal.sell.tradedVolume
  price : deal.sell.tradedPrice ≤ deal.buy.tradedPrice
  buyer : inserted true deal.buy.id
  seller : inserted false deal.sell.id

end Deal

/-- The trades of a request by twos. -/
def deals (isBuySide : Bool) : List Trade → List Deal
  | opposite :: own :: rest =>
    (if isBuySide then ⟨own,opposite⟩ else ⟨opposite,own⟩) :: deals isBuySide rest
  | _ => []

theorem deals_flatMap_trades (b : Bool) (ds : List Deal) : deals b (ds.flatMap (Deal.trades b)) = ds := by
  induction ds with
  | nil => rfl
  | cons d ds ih => cases b <;> exact congrArg (d :: ·) ih

theorem perm_trades (b : Bool) (deal : Deal) : (deal.trades b).Perm [deal.buy,deal.sell] := by
  cases b with
  | true => exact List.Perm.swap ..
  | false => exact List.Perm.refl _

/-- The run inserted an order with the id on the side. -/
def InsertedOn (calls : List (Call Endpoint)) (b : Bool) (id : Id) : Prop :=
  ∃ o endpoint, .orderInsert o endpoint ∈ calls ∧ o.isBuySide = b ∧ o.id = id

def Call.isBuySide : Call Endpoint → Bool
  | orderInsert o _ => o.isBuySide
  | orderAmend a _ => a.isBuySide
  | orderCancel k _ => k.isBuySide

/-- Trades that are those of fair deals. -/
def Settles (inserted : Bool → Id → Prop) (b : Bool) (trades : List Trade) : Prop :=
  ∃ ds : List Deal, trades = ds.flatMap (Deal.trades b) ∧ ∀ d ∈ ds, d.Fair inserted

/-- An order on its side, in the level of its price, that was inserted there. -/
def Entered (inserted : Bool → Id → Prop) (b : Bool) (price : PriceType) (o : OrderInsertData) :
    Prop :=
  o.isBuySide = b ∧ o.price = price ∧ inserted b o.id

section Loop
variable {inserted : Bool → Id → Prop} {b : Bool}

theorem entered_fillStable : FillStable (Entered inserted b) := fun _ _ _ h _ => h

/-- One round is one deal. -/
theorem executeRound_settles {books books' : OrderBook (TCompare.ofSide (!b)) ×
    OrderBook (TCompare.ofSide b)} {trades : List Trade} (hopp : books.1.Forall (Entered inserted (!b)))
    (hown : books.2.Forall (Entered inserted b))
    (hb : executeRound books = some (books',trades)) :
    ∃ deal : Deal, trades = deal.trades b ∧ deal.Fair inserted := by
  obtain ⟨x,o,hm,he⟩ := executeRound_eq_some_iff.mp hb
  cases he
  obtain ⟨_,_,hx⟩ := x.forall_best hopp
  obtain ⟨hside,_,ho⟩ := o.forall_best hown
  rw [matchPricePredicate,hside] at hm
  cases b with
  | true =>
    have hprice : x.best.price ≤ o.best.price := by simpa using hm
    exact ⟨⟨o.best.tradeOf _,x.best.tradeOf _⟩,rfl,rfl,hprice,ho,hx⟩
  | false =>
    have hprice : o.best.price ≤ x.best.price := by simpa using hm
    exact ⟨⟨x.best.tradeOf _,o.best.tradeOf _⟩,rfl,rfl,hprice,hx,ho⟩

theorem executeOrder_settles {opp : OrderBook (TCompare.ofSide (!b))}
    {own : OrderBook (TCompare.ofSide b)} (hopp : opp.Forall (Entered inserted (!b)))
    (hown : own.Forall (Entered inserted b)) : Settles inserted b (executeOrder opp own).2 := by
  refine (executeLoop _ _).run_induction (P := fun s r => s.1.Forall (Entered inserted (!b)) ∧
    s.2.Forall (Entered inserted b) → Settles inserted b r.2) ?_ ?_ (opp,own) ⟨hopp,hown⟩
  · exact fun _ _ _ => ⟨[],rfl,nofun⟩
  · intro s s' out r hb ih hs
    obtain ⟨deal,rfl,hdeal⟩ := executeRound_settles hs.1 hs.2 hb
    obtain ⟨ds,hds,hfair⟩ :=
      ih (executeRound_forall entered_fillStable entered_fillStable hs hb)
    refine ⟨deal :: ds,?_,List.forall_mem_cons.mpr ⟨hdeal,hfair⟩⟩
    rw [hds,List.flatMap_cons]

end Loop

theorem trades_replyAndTrades (reply : OrderReply) (trades : List Trade) (endpoint : Endpoint) :
    (replyAndTrades reply trades endpoint).filterMap (fun m => m.1.trade?) = trades := by
  rw [replyAndTrades,List.filterMap_cons_none rfl,List.filterMap_map]
  exact List.filterMap_some

/-! ### Runs -/

section Runs
variable {calls : List (Call Endpoint)}

/-- The orders of the books are those of the run. -/
abbrev AllEntered (calls : List (Call Endpoint)) (engine : MatchingEngine) : Prop :=
  ∀ b, (engine.side b).Forall (Entered (InsertedOn calls) b)

theorem handle_allEntered {engine : MatchingEngine} {call : Call Endpoint} (hcall : call ∈ calls)
    (h : AllEntered calls engine) : AllEntered calls (handle engine call).1 := by
  refine (handle_forall (fun _ => entered_fillStable) h ?_).1
  cases call with
  | orderInsert o endpoint => exact ⟨rfl,rfl,o,endpoint,hcall,rfl,rfl⟩
  | orderAmend a endpoint => exact fun o ho _ => ⟨ho,ho.1,rfl,ho.2.2⟩
  | orderCancel k endpoint => exact trivial

theorem handle_settles {engine : MatchingEngine} {call : Call Endpoint} (hcall : call ∈ calls)
    (h : AllEntered calls engine) : Settles (InsertedOn calls) call.isBuySide
      ((handle engine call).2.filterMap (fun m => m.1.trade?)) := by
  have hnone : Settles (InsertedOn calls) call.isBuySide [] := ⟨[],rfl,nofun⟩
  cases call with
  | orderInsert o endpoint =>
    rw [handle,orderInsert_eq engine rfl,trades_replyAndTrades]
    exact executeOrder_settles (h _) (insert_forall (h _) ⟨rfl,rfl,o,endpoint,hcall,rfl,rfl⟩)
  | orderAmend a endpoint =>
    by_cases hr : (engine.side a.isBuySide).Rests a.price a.id
    · obtain ⟨p⟩ := nonempty_position_iff.mpr hr
      have ho := p.forall_order (h a.isBuySide)
      rw [handle,orderAmend_eq engine rfl p,trades_replyAndTrades]
      exact executeOrder_settles (h _) (p.amended_forall (h _) (fun _ => ho)
        (fun _ => ⟨ho.1,rfl,ho.2.2⟩))
    · rw [handle,orderAmend_of_not_rests engine hr]
      exact hnone
  | orderCancel k endpoint =>
    by_cases hr : (engine.side k.isBuySide).Rests k.price k.id
    · obtain ⟨p⟩ := nonempty_position_iff.mpr hr
      rw [handle,orderCancel_eq engine rfl p,trades_replyAndTrades]
      exact hnone
    · rw [handle,orderCancel_of_not_rests engine hr]
      exact hnone

/-- The deals of a run, request by request. -/
def runDeals (engine : MatchingEngine) (calls : List (Call Endpoint)) : List Deal :=
  (calls.zip (Machine.answers handle engine calls)).flatMap
    (fun p => deals p.1.isBuySide (p.2.filterMap (fun m => m.1.trade?)))

/-- All trades that the run reports. -/
def runTrades (engine : MatchingEngine) (calls : List (Call Endpoint)) : List Trade :=
  (Machine.answers handle engine calls).flatten.filterMap (fun m => m.1.trade?)

/-- Every deal of a run is fair, and no trade is left over. -/
theorem runDeals_fair {engine : MatchingEngine} {later : List (Call Endpoint)}
    (hlater : ∀ call ∈ later, call ∈ calls) (h : AllEntered calls engine) :
    (∀ deal ∈ runDeals engine later, deal.Fair (InsertedOn calls)) ∧
      ((runDeals engine later).flatMap (fun deal => [deal.buy,deal.sell])).Perm
        (runTrades engine later) := by
  induction later generalizing engine with
  | nil => exact ⟨nofun,List.Perm.refl _⟩
  | cons call later ih =>
    obtain ⟨hcall,hlater⟩ := List.forall_mem_cons.mp hlater
    obtain ⟨hfair,hperm⟩ := ih hlater (handle_allEntered hcall h)
    obtain ⟨ds,hds,hdsfair⟩ := handle_settles hcall h
    have hdeals : runDeals engine (call :: later) =
        ds ++ runDeals (handle engine call).1 later := by
      rw [runDeals,Machine.answers_cons,List.zip_cons_cons,List.flatMap_cons,hds,
        deals_flatMap_trades]
      rfl
    have htrades : runTrades engine (call :: later) =
        ds.flatMap (Deal.trades call.isBuySide) ++ runTrades (handle engine call).1 later := by
      rw [runTrades,Machine.answers_cons,List.flatten_cons,List.filterMap_append,hds]
      rfl
    rw [hdeals,htrades,List.flatMap_append]
    refine ⟨List.forall_mem_append.mpr ⟨hdsfair,hfair⟩,List.Perm.append ?_ hperm⟩
    exact List.Perm.flatMap_left ds (fun deal _ => (perm_trades call.isBuySide deal).symm)

end Runs

/-! ### Sums -/

/-- The volume that trades report. -/
def turnover (trades : List Trade) : ℕ := (trades.map (fun t => t.tradedVolume.toNat)).sum

/-- The money that trades report. -/
def amount (trades : List Trade) : ℕ :=
  (trades.map (fun t => t.tradedPrice.toNat * t.tradedVolume.toNat)).sum

theorem turnover_of_fair {inserted : Bool → Id → Prop} {ds : List Deal}
    (h : ∀ deal ∈ ds, deal.Fair inserted) :
    turnover (ds.map Deal.buy) = turnover (ds.map Deal.sell) := by
  unfold turnover
  rw [List.map_map,List.map_map]
  refine congrArg List.sum (List.map_congr_left (fun deal hdeal => ?_))
  exact congrArg UInt64.toNat (h deal hdeal).volume

/-- The sellers get what the buyers pay exactly where the two limits of every deal meet. -/
theorem amount_of_fair {inserted : Bool → Id → Prop} {ds : List Deal}
    (h : ∀ deal ∈ ds, deal.Fair inserted) :
    amount (ds.map Deal.sell) ≤ amount (ds.map Deal.buy) ∧
      (amount (ds.map Deal.sell) = amount (ds.map Deal.buy) ↔
        ∀ deal ∈ ds, deal.sell.tradedPrice = deal.buy.tradedPrice ∨ deal.buy.tradedVolume = 0) := by
  induction ds with
  | nil => exact ⟨le_rfl,iff_of_true rfl nofun⟩
  | cons deal ds ih =>
    obtain ⟨hdeal,hrest⟩ := List.forall_mem_cons.mp h
    obtain ⟨hle,hiff⟩ := ih hrest
    have hsum : ∀ side : Deal → Trade, amount ((deal :: ds).map side) =
        (side deal).tradedPrice.toNat * (side deal).tradedVolume.toNat + amount (ds.map side) :=
      fun _ => rfl
    have hprice : deal.sell.tradedPrice.toNat ≤ deal.buy.tradedPrice.toNat := hdeal.price
    have hmul := Nat.mul_le_mul_right deal.buy.tradedVolume.toNat hprice
    rw [hsum,hsum,← hdeal.volume,List.forall_mem_cons,← hiff]
    refine ⟨Nat.add_le_add hmul hle,?_⟩
    have hhead : deal.sell.tradedPrice = deal.buy.tradedPrice ∨ deal.buy.tradedVolume = 0 ↔
        deal.sell.tradedPrice.toNat * deal.buy.tradedVolume.toNat =
          deal.buy.tradedPrice.toNat * deal.buy.tradedVolume.toNat := by
      rw [← UInt64.toNat_inj,← UInt64.toNat_inj (b := 0)]
      constructor
      · rintro (hsame | hzero)
        · rw [hsame]
        · simp [hzero]
      · intro hsame
        rcases Nat.eq_zero_or_pos deal.buy.tradedVolume.toNat with hzero | hpos
        · exact Or.inr hzero
        · exact Or.inl (Nat.eq_of_mul_eq_mul_right hpos hsame)
    rw [hhead]
    omega

/-- Over any run: the trade messages are those of deals between a buy order and a sell order of
the run over one volume, so that as much is bought as is sold; and the buyers pay at least what
the sellers get, with a difference unless the limits of every deal meet. -/
theorem run_settles (calls : List (Call Endpoint)) :
    let ds := runDeals fresh calls
    (∀ deal ∈ ds, deal.Fair (InsertedOn calls)) ∧
      (ds.flatMap (fun deal => [deal.buy,deal.sell])).Perm (runTrades fresh calls) ∧
      turnover (ds.map Deal.buy) = turnover (ds.map Deal.sell) ∧
      amount (ds.map Deal.sell) ≤ amount (ds.map Deal.buy) ∧
      (amount (ds.map Deal.sell) = amount (ds.map Deal.buy) ↔
        ∀ deal ∈ ds, deal.sell.tradedPrice = deal.buy.tradedPrice ∨
          deal.buy.tradedVolume = 0) := by
  intro ds
  have hfresh : AllEntered calls fresh := by
    intro b
    cases b <;> exact fun e he => absurd he List.not_mem_nil
  obtain ⟨hfair,hperm⟩ := runDeals_fair (fun _ hcall => hcall) hfresh
  exact ⟨hfair,hperm,turnover_of_fair hfair,amount_of_fair hfair⟩

/-- A bid at 50 meets an ask at 40: the buyer is told 50 for each, and the seller 40. -/
example : runDeals fresh ([.orderInsert (limitOrder false "1" 40 4) (),
    .orderInsert (limitOrder true "2" 50 4) ()] : List (Call Unit)) =
      [⟨⟨"mobo",50,4,"2","clientId=1"⟩,⟨"mobo",40,4,"1","clientId=1"⟩⟩] := by decide

end Moboware
