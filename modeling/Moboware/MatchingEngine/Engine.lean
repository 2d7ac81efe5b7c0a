import Moboware.Library.EmittingLoop
import Moboware.Library.Machine
import Moboware.MatchingEngine.BestLevel

/-! # The matching engine

Two books, the three requests and the matching loop. The variant of the loop is
the number of resting orders of both books.
-/
namespace Moboware
open Library OrderLevel

/-- The price test of `ExecuteOrder`; the side comes from the first order. -/
def matchPricePredicate (newOrder bestOrder : OrderInsertData) : Bool :=
  if newOrder.isBuySide then decide (newOrder.price ≥ bestOrder.price)
  else decide (bestOrder.price ≥ newOrder.price)

section ExecuteOrder
variable {c d : TCompare}

/-- One round of the loop of `ExecuteOrder`; `none` is any of its returns. -/
def executeRound (books : OrderBook c × OrderBook d) :
    Option ((OrderBook c × OrderBook d) × List Trade) := do
  let (oppositeSideOrderBook,mySideOrderBook) := books
  let (_,mySideBestOrderLevel) ← mySideOrderBook.orderBookMap.begin?
  guard (!mySideBestOrderLevel.isEmpty)
  let myBestOrderData ← mySideBestOrderLevel.getTopLevel
  let (_,oppositeBestOrderLevel) ← oppositeSideOrderBook.orderBookMap.begin?
  guard (!oppositeBestOrderLevel.isEmpty)
  let oppositeBestOrderData ← oppositeBestOrderLevel.getTopLevel
  guard (matchPricePredicate myBestOrderData oppositeBestOrderData)
  let (oppositeLevel,tradedVolume,oppositeTrades) :=
    oppositeBestOrderLevel.tradeTopLevel myBestOrderData.volume
  let (myLevel,_,myTrades) := mySideBestOrderLevel.tradeTopLevel tradedVolume
  -- Both levels are traded through references into the maps.
  let opposite : OrderBook c :=
    ⟨oppositeSideOrderBook.orderBookMap.modifyBegin (fun _ => oppositeLevel)⟩
  let mine : OrderBook d := ⟨mySideOrderBook.orderBookMap.modifyBegin (fun _ => myLevel)⟩
  some ((if oppositeLevel.isEmpty then opposite.removeLevelAtPrice oppositeBestOrderData.price
      else opposite,
    if myLevel.isEmpty then mine.removeLevelAtPrice myBestOrderData.price else mine),
    oppositeTrades ++ myTrades)

/-- The volume both sides of a round trade. -/
def roundVolume (x o : OrderInsertData) : VolumeType := min x.volume o.volume

theorem roundVolume_le_left (x o : OrderInsertData) : roundVolume x o ≤ x.volume := by
  change (if x.volume ≤ o.volume then x.volume else o.volume) ≤ x.volume
  split_ifs with h
  · exact UInt64.le_refl _
  · exact UInt64.le_of_lt (UInt64.not_le.mp h)

theorem roundVolume_le_right (x o : OrderInsertData) : roundVolume x o ≤ o.volume := by
  change (if x.volume ≤ o.volume then x.volume else o.volume) ≤ o.volume
  split_ifs with h
  · exact h
  · exact UInt64.le_refl _

/-- A round fills one of its two orders. -/
theorem roundVolume_eq (x o : OrderInsertData) :
    roundVolume x o = x.volume ∨ roundVolume x o = o.volume := by
  change (if x.volume ≤ o.volume then x.volume else o.volume) = x.volume ∨
    (if x.volume ≤ o.volume then x.volume else o.volume) = o.volume
  split_ifs
  · exact Or.inl rfl
  · exact Or.inr rfl

theorem min_roundVolume (x o : OrderInsertData) :
    min o.volume (roundVolume x o) = roundVolume x o := by
  change (if o.volume ≤ roundVolume x o then o.volume else roundVolume x o) = roundVolume x o
  split_ifs with h
  · exact UInt64.le_antisymm h (roundVolume_le_right x o)
  · rfl

theorem executeRound_of_fronts {opp : OrderBook c} {own : OrderBook d} (x : opp.Front)
    (o : own.Front) : executeRound (opp,own) =
      if matchPricePredicate o.best x.best then
        some ((x.fill (roundVolume x.best o.best),o.fill (roundVolume x.best o.best)),
          [x.best.tradeOf (roundVolume x.best o.best),o.best.tradeOf (roundVolume x.best o.best)])
      else none := by
  have hx : opp.orderBookMap.begin? = some (x.key,⟨x.best :: x.queue⟩) := by
    rw [OrderedMap.begin?,x.entries_eq,List.head?_cons]
  have ho : own.orderBookMap.begin? = some (o.key,⟨o.best :: o.queue⟩) := by
    rw [OrderedMap.begin?,o.entries_eq,List.head?_cons]
  cases hm : matchPricePredicate o.best x.best with
  | false =>
    unfold executeRound guard
    simp [hx,ho,OrderLevel.isEmpty,getTopLevel,hm]
  | true =>
    unfold executeRound guard
    simp only [hx,ho,OrderLevel.isEmpty,getTopLevel,hm,List.isEmpty_cons,
      Bool.not_false,↓reduceIte,List.head?_cons,Option.bind_eq_bind,Option.bind_some,
      Option.pure_def,tradeTopLevel_cons]
    rw [show min x.best.volume o.best.volume = roundVolume x.best o.best from rfl,min_roundVolume]
    rfl

theorem nonempty_fronts_of_some {opp : OrderBook c} {own : OrderBook d}
    {r : (OrderBook c × OrderBook d) × List Trade} (h : executeRound (opp,own) = some r) :
    Nonempty opp.Front ∧ Nonempty own.Front := by
  unfold executeRound guard at h
  simp only [Option.bind_eq_bind,Option.bind_eq_some_iff] at h
  obtain ⟨⟨ko,mine⟩,ho,_,_,o,hmine,⟨kx,opposite⟩,hx,_,_,x,hopp,_⟩ := h
  obtain ⟨xtail,hxe⟩ := List.head?_eq_some_iff.mp hx
  obtain ⟨otail,hoe⟩ := List.head?_eq_some_iff.mp ho
  obtain ⟨xs,hxs⟩ := List.head?_eq_some_iff.mp hopp
  obtain ⟨os,hos⟩ := List.head?_eq_some_iff.mp hmine
  refine ⟨⟨kx,x,xs,xtail,?_⟩,⟨ko,o,os,otail,?_⟩⟩
  · rw [hxe,← hxs]
  · rw [hoe,← hos]

/-- A round runs exactly when both books have a front and the fronts match; it
fills both for the common volume and reports the opposite side first. -/
theorem executeRound_eq_some_iff {opp : OrderBook c} {own : OrderBook d}
    {r : (OrderBook c × OrderBook d) × List Trade} :
    executeRound (opp,own) = some r ↔ ∃ (x : opp.Front) (o : own.Front),
      matchPricePredicate o.best x.best = true ∧
      r = ((x.fill (roundVolume x.best o.best),o.fill (roundVolume x.best o.best)),
        [x.best.tradeOf (roundVolume x.best o.best),o.best.tradeOf (roundVolume x.best o.best)]) := by
  constructor
  · intro h
    obtain ⟨⟨x⟩,⟨o⟩⟩ := nonempty_fronts_of_some h
    rw [executeRound_of_fronts x o] at h
    split_ifs at h with hm
    exact ⟨x,o,hm,(Option.some.inj h).symm⟩
  · rintro ⟨x,o,hm,rfl⟩
    rw [executeRound_of_fronts x o,if_pos hm]

/-- The number of resting orders of both books. -/
def restingOrders (books : OrderBook c × OrderBook d) : ℕ :=
  books.1.orders.length + books.2.orders.length

/-- Every round that does not leave the loop removes a resting order. -/
theorem executeRound_decreases {books books' : OrderBook c × OrderBook d} {trades : List Trade}
    (h : executeRound books = some (books',trades)) : restingOrders books' < restingOrders books := by
  obtain ⟨opp,own⟩ := books
  obtain ⟨x,o,_,hr⟩ := executeRound_eq_some_iff.mp h
  cases hr
  have hx := (x.fill_orders_sublist (roundVolume x.best o.best)).length_le
  have ho := (o.fill_orders_sublist (roundVolume x.best o.best)).length_le
  have hxs := settle_length_le x.best (roundVolume x.best o.best) x.queue
  have hos := settle_length_le o.best (roundVolume x.best o.best) o.queue
  simp only [restingOrders,x.orders_eq,o.orders_eq,List.length_append,List.length_cons] at hx ho ⊢
  rcases roundVolume_eq x.best o.best with hv | hv
  · have hs := settle_of_full (o := x.best) x.queue hv
    rw [hs] at hx
    omega
  · have hs := settle_of_full (o := o.best) o.queue hv
    rw [hs] at ho
    omega

def executeLoop (c d : TCompare) : EmittingLoop (OrderBook c × OrderBook d) Trade where
  body := executeRound
  variant := restingOrders
  decreases := executeRound_decreases

/-- Every round that is run takes at least one resting order out of the books, and
from any two books the loop ends after no more rounds than there are such orders. -/
theorem executeOrder_terminates (c d : TCompare) :
    (∀ (books books' : OrderBook c × OrderBook d) (trades : List Trade),
      executeRound books = some (books',trades) → restingOrders books' < restingOrders books) ∧
    ∀ books : OrderBook c × OrderBook d,
      (∀ n books', EmittingLoop.Repeats executeRound n books books' →
        n + restingOrders books' ≤ restingOrders books) ∧
      ∃ n books', EmittingLoop.Repeats executeRound n books books' ∧ executeRound books' = none := by
  refine ⟨fun books books' trades h => executeRound_decreases h,?_⟩
  intro books
  constructor
  · intro n books' h
    exact EmittingLoop.Repeats.add_variant_le (L := executeLoop c d) h
  · obtain ⟨n,hn⟩ := (executeLoop c d).exists_repeats books
    exact ⟨n,_,hn,(executeLoop c d).body_run books⟩

/-- Both books after the loop, and the trades in the order they are sent. -/
def executeOrder (oppositeSideOrderBook : OrderBook c) (mySideOrderBook : OrderBook d) :
    (OrderBook c × OrderBook d) × List Trade :=
  (executeLoop c d).run (oppositeSideOrderBook,mySideOrderBook)

end ExecuteOrder

/-- What `CreateAndSendMessage` is called with. -/
inductive Message
  | orderReply (orderReply : OrderReply)
  | errorReply (errorReply : ErrorReply)
  | trade (trade : Trade)
  deriving DecidableEq

@[ext] structure MatchingEngine where
  bids : OrderBook .greater
  asks : OrderBook .less

/-- A request, with the endpoint the messages are sent to. -/
inductive Call (Endpoint : Type*)
  | orderInsert (orderInsert : OrderInsertData) (endpoint : Endpoint)
  | orderAmend (orderAmend : OrderAmendData) (endpoint : Endpoint)
  | orderCancel (orderCancel : OrderCancelData) (endpoint : Endpoint)

namespace MatchingEngine
variable {Endpoint : Type*}

def fresh : MatchingEngine := ⟨OrderBook.empty,OrderBook.empty⟩

/-- The lambda `CheckMatch` of `OrderInsert` and `OrderAmend`. -/
def checkMatch (engine : MatchingEngine) (isBuySide : Bool) : MatchingEngine × List Trade :=
  if isBuySide then
    let ((asks,bids),trades) := executeOrder engine.asks engine.bids
    (⟨bids,asks⟩,trades)
  else
    let ((bids,asks),trades) := executeOrder engine.bids engine.asks
    (⟨bids,asks⟩,trades)

def orderInsert (engine : MatchingEngine) (orderInsert : OrderInsertData) (endpoint : Endpoint) :
    MatchingEngine × List (Message × Endpoint) :=
  let (engine,insertedOrder) : MatchingEngine × Option OrderInsertData :=
    if orderInsert.isBuySide then
      let (bids,insertedOrder) := engine.bids.insert orderInsert
      ({ engine with bids := bids },insertedOrder)
    else
      let (asks,insertedOrder) := engine.asks.insert orderInsert
      ({ engine with asks := asks },insertedOrder)
  match insertedOrder with
  | some insertedOrder =>
    -- The order was copied into its level, so `orderInsert` still holds its flag.
    let (engine,trades) := engine.checkMatch orderInsert.isBuySide
    (engine,(.orderReply ⟨insertedOrder.id,insertedOrder.clientId⟩,endpoint) ::
      trades.map (fun trade => (.trade trade,endpoint)))
  | none => (engine,[(.errorReply ⟨orderInsert.clientId,"Failed to insert order"⟩,endpoint)])

def orderAmend (engine : MatchingEngine) (orderAmend : OrderAmendData) (endpoint : Endpoint) :
    MatchingEngine × List (Message × Endpoint) :=
  let (engine,amended) : MatchingEngine × Bool :=
    if orderAmend.isBuySide then
      let (bids,amended) := engine.bids.amend orderAmend
      ({ engine with bids := bids },amended)
    else
      let (asks,amended) := engine.asks.amend orderAmend
      ({ engine with asks := asks },amended)
  if amended then
    let (engine,trades) := engine.checkMatch orderAmend.isBuySide
    (engine,(.orderReply ⟨orderAmend.id,orderAmend.clientId⟩,endpoint) ::
      trades.map (fun trade => (.trade trade,endpoint)))
  else (engine,[(.errorReply ⟨orderAmend.clientId,"Failed to amend order"⟩,endpoint)])

def orderCancel (engine : MatchingEngine) (orderCancel : OrderCancelData) (endpoint : Endpoint) :
    MatchingEngine × List (Message × Endpoint) :=
  let (engine,cancelled) : MatchingEngine × Bool :=
    if orderCancel.isBuySide then
      let (bids,cancelled) := engine.bids.cancel orderCancel
      ({ engine with bids := bids },cancelled)
    else
      let (asks,cancelled) := engine.asks.cancel orderCancel
      ({ engine with asks := asks },cancelled)
  if cancelled then
    (engine,[(.orderReply ⟨orderCancel.id,orderCancel.clientId⟩,endpoint)])
  else (engine,[(.errorReply ⟨orderCancel.clientId,"Failed to cancel order"⟩,endpoint)])

/-- The engine as a machine that answers calls with messages. -/
def handle : Machine MatchingEngine (Call Endpoint) (Message × Endpoint)
  | engine, .orderInsert o endpoint => engine.orderInsert o endpoint
  | engine, .orderAmend a endpoint => engine.orderAmend a endpoint
  | engine, .orderCancel o endpoint => engine.orderCancel o endpoint

end MatchingEngine
end Moboware
