import Mathlib.Logic.Function.Basic
import Moboware.Library.FirstMatch
import Moboware.MatchingEngine.PriceTimePriority

/-! # The market without books

What the engine is for, said without maps and levels: each side is one list of
resting orders in price-time priority. An insert sweeps the list of the opposite side
and rests what is left, an amend to another price is a withdrawal and an insert, and the
other requests edit one list.
-/
namespace Moboware
open Library OrderLevel MatchingEngine
variable {Endpoint : Type*} {c : TCompare}

/-- The resting orders of the sell and of the buy side. -/
abbrev Market := Bool → List OrderInsertData

/-- An order behind all orders of its own price and of better ones. -/
def rest (c : TCompare) (o : OrderInsertData) (orders : List OrderInsertData) :
    List OrderInsertData :=
  orders.takeWhile (fun x => !decide (c.before o.price x.price)) ++
    o :: orders.dropWhile (fun x => !decide (c.before o.price x.price))

namespace Market

def fresh : Market := fun _ => []

/-- The sweep of the opposite side; what is left of the order rests. -/
def enter (m : Market) (o : OrderInsertData) : Market × List Trade :=
  let s := sweepQueue o (m (!o.isBuySide))
  (Function.update (Function.update m (!o.isBuySide) s.left) o.isBuySide
    (if s.remainder.volume = 0 then m o.isBuySide
      else rest (TCompare.ofSide o.isBuySide) s.remainder (m o.isBuySide)),s.trades)

/-- The order that a request refers to, between those in front of it and behind it. -/
def locate (m : Market) (isBuySide : Bool) (price : PriceType) (id : Id) :
    Option (List OrderInsertData × OrderInsertData × List OrderInsertData) :=
  firstMatch (fun o => decide (o.price = price ∧ o.id = id)) (m isBuySide)

def amend (m : Market) (a : OrderAmendData) (endpoint : Endpoint) :
    Market × List (Message × Endpoint) :=
  match m.locate a.isBuySide a.price a.id with
  | none => (m,[(.errorReply ⟨a.clientId,"Failed to amend order"⟩,endpoint)])
  | some (front,o,back) =>
    let r : Market × List Trade :=
      if a.newVolume = 0 then (Function.update m a.isBuySide (front ++ back),[])
      else if a.price = a.newPrice then
        (Function.update m a.isBuySide (front ++ { o with volume := a.newVolume } :: back),[])
      else enter (Function.update m a.isBuySide (front ++ back))
        { o with price := a.newPrice, volume := a.newVolume }
    (r.1,replyAndTrades ⟨a.id,a.clientId⟩ r.2 endpoint)

def cancel (m : Market) (k : OrderCancelData) (endpoint : Endpoint) :
    Market × List (Message × Endpoint) :=
  match m.locate k.isBuySide k.price k.id with
  | none => (m,[(.errorReply ⟨k.clientId,"Failed to cancel order"⟩,endpoint)])
  | some (front,_,back) => (Function.update m k.isBuySide (front ++ back),
      replyAndTrades ⟨k.id,k.clientId⟩ [] endpoint)

def handle : Machine Market (Call Endpoint) (Message × Endpoint)
  | m, .orderInsert o endpoint =>
    ((m.enter o).1,replyAndTrades ⟨o.id,o.clientId⟩ (m.enter o).2 endpoint)
  | m, .orderAmend a endpoint => m.amend a endpoint
  | m, .orderCancel k endpoint => m.cancel k endpoint

end Market
end Moboware
