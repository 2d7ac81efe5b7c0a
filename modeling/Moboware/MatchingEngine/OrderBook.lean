import Moboware.Library.OrderedMap
import Moboware.MatchingEngine.OrderLevel

/-! # Order books

One side of the market: a map from prices to levels, best price first. The map
is instantiated with two comparators only, so a book is indexed by its comparator.
-/
namespace Moboware
open Library

/-- `std::greater` orders the bids, `std::less` the asks. -/
inductive TCompare
  | greater
  | less
  deriving DecidableEq

namespace TCompare

/-- `before c p q`: the price `p` stands in front of `q`. -/
def before : TCompare → PriceType → PriceType → Prop
  | greater, p, q => p > q
  | less, p, q => p < q

instance (c : TCompare) : DecidableRel c.before := fun p q =>
  match c with
  | greater => inferInstanceAs (Decidable (p > q))
  | less => inferInstanceAs (Decidable (p < q))

instance (c : TCompare) : IsStrictTotalOrder PriceType c.before where
  irrefl p := by cases c <;> exact UInt64.lt_irrefl p
  trans p q r hpq hqr := by
    cases c
    · exact UInt64.lt_trans hqr hpq
    · exact UInt64.lt_trans hpq hqr
  trichotomous p q hpq hqp := by
    cases c
    · exact UInt64.le_antisymm (UInt64.not_lt.mp hpq) (UInt64.not_lt.mp hqp)
    · exact UInt64.le_antisymm (UInt64.not_lt.mp hqp) (UInt64.not_lt.mp hpq)

/-- The comparator of the book that holds the orders with a side flag. -/
def ofSide : Bool → TCompare
  | true => greater
  | false => less

end TCompare

@[ext] structure OrderBook (c : TCompare) where
  orderBookMap : OrderedMap PriceType OrderLevel c.before

namespace OrderBook
variable {c : TCompare}

def empty : OrderBook c := ⟨OrderedMap.empty⟩

def insert (book : OrderBook c) (orderInsert : OrderInsertData) :
    OrderBook c × Option OrderInsertData :=
  match book.orderBookMap.find? orderInsert.price with
  | some orderPriceLevel =>
    let (orderPriceLevel,insertedOrder) := orderPriceLevel.insert orderInsert
    (⟨book.orderBookMap.modify orderInsert.price (fun _ => orderPriceLevel)⟩,insertedOrder)
  | none =>
    let (orderBookMap,inserted) :=
      book.orderBookMap.emplace orderInsert.price (OrderLevel.ofOrder orderInsert)
    if inserted then
      (⟨orderBookMap⟩,(orderBookMap.find? orderInsert.price).bind OrderLevel.getLastOrder)
    else (⟨orderBookMap⟩,none)

def removeLevelAtPrice (book : OrderBook c) (price : PriceType) : OrderBook c :=
  match book.orderBookMap.find? price with
  | some _ => ⟨book.orderBookMap.erase price⟩
  | none => book

def amend (book : OrderBook c) (orderAmend : OrderAmendData) : OrderBook c × Bool :=
  match book.orderBookMap.find? orderAmend.price with
  | none => (book,false)
  | some orderPriceLevel =>
    if orderAmend.newVolume = 0 then
      match orderPriceLevel.cancelOrder orderAmend.id with
      | (level,true) =>
        let book : OrderBook c := ⟨book.orderBookMap.modify orderAmend.price (fun _ => level)⟩
        (if level.isEmpty then book.removeLevelAtPrice orderAmend.price else book,true)
      | (_,false) => (book,false)
    else if orderAmend.price = orderAmend.newPrice then
      match orderPriceLevel.changeOrderVolume orderAmend.id orderAmend.newVolume with
      | (level,true) => (⟨book.orderBookMap.modify orderAmend.price (fun _ => level)⟩,true)
      | (_,false) => (book,false)
    else
      match orderPriceLevel.moveOrder orderAmend.id with
      | some (orderData,level) =>
        let orderData :=
          { orderData with price := orderAmend.newPrice, volume := orderAmend.newVolume }
        -- The flag of `emplace` decides only whether the move is logged.
        let (orderBookMap,_) :=
          book.orderBookMap.emplace orderAmend.newPrice (OrderLevel.ofOrder orderData)
        let orderBookMap := orderBookMap.modify orderAmend.price (fun _ => level)
        (⟨if level.isEmpty then orderBookMap.erase orderAmend.price else orderBookMap⟩,true)
      | none => (book,false)

def cancel (book : OrderBook c) (orderCancel : OrderCancelData) : OrderBook c × Bool :=
  match book.orderBookMap.find? orderCancel.price with
  | some orderPriceLevel =>
    match orderPriceLevel.cancelOrder orderCancel.id with
    | (level,true) => (⟨book.orderBookMap.modify orderCancel.price (fun _ => level)⟩,true)
    | (_,false) => (book,false)
  | none => (book,false)

/-- All resting orders, best price first and in time priority within a price. -/
def orders (book : OrderBook c) : List OrderInsertData :=
  book.orderBookMap.entries.flatMap (fun e => e.2.timeQueue)

end OrderBook
end Moboware
