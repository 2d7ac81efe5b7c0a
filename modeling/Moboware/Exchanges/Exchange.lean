import Mathlib.Data.List.Infix

/-! # Market data

The records of `exchange.hpp`. Prices and volumes are what `strtod` makes of a text, in
a type of doubles that is left open; the accesses to a vector are checked against its size.
-/
namespace Moboware

inductive MarketDataStreamType
  | noneStream
  | tradeTickStream
  | bookTickerStream
  | depth100msStream
  | depth5LevelsStream
  | depth10LevelsStream
  | depth20LevelsStream
  | depth100LevelsStream
  deriving DecidableEq

/-- A snapshot of 5, 10 or 20 levels. -/
def MarketDataStreamType.isLevels : MarketDataStreamType → Bool
  | depth5LevelsStream => true
  | depth10LevelsStream => true
  | depth20LevelsStream => true
  | _ => false

/-- `value.find(pattern) != npos`. -/
def contains (value : List Char) (pattern : String) : Bool := decide (pattern.toList <:+: value)

/-- A pattern whose first character is not in the front of a text is found behind it. -/
theorem infix_append_iff_of_not_mem {α : Type*} {a : α} {p l r : List α} (h : a ∉ l) :
    a :: p <:+: l ++ r ↔ a :: p <:+: r := by
  constructor
  · intro hp
    induction l with
    | nil => exact hp
    | cons b l ih =>
      rw [List.mem_cons,not_or] at h
      rcases List.infix_cons_iff.mp hp with hp | hp
      · exact absurd (List.cons_prefix_cons.mp hp).1 h.1
      · exact ih h.2 hp
  · exact fun hp => hp.trans (List.suffix_append l r).isInfix

theorem contains_append_of_not_mem {l : List Char} {a : Char} (h : a ∉ l) (r : List Char)
    (pattern : String) {p : List Char} (hp : pattern.toList = a :: p) :
    contains (l ++ r) pattern = contains r pattern := by
  unfold contains
  rw [hp]
  exact decide_eq_decide.mpr (infix_append_iff_of_not_mem h)

/-- A `std::vector`, with the number of accesses at or past its size so far. -/
@[ext] structure CheckedVector (α : Type*) where
  elements : List α := []
  outOfBounds : ℕ := 0

namespace CheckedVector
variable {α : Type*}

/-- `reserve` allocates and leaves the size as it is. -/
def reserve (v : CheckedVector α) (_capacity : ℕ) : CheckedVector α := v

/-- `f` applied to the element through `v[i]`. -/
def modifyAt (v : CheckedVector α) (i : ℕ) (f : α → α) : CheckedVector α :=
  if i < v.elements.length then { v with elements := v.elements.modify i f }
  else { v with outOfBounds := v.outOfBounds + 1 }

end CheckedVector

structure TopOfTheBook (Double : Type*) where
  bidPrice : Double
  bidVolume : Double
  askPrice : Double
  askVolume : Double

/-- The time is the count of nanoseconds of a `SystemTimePoint_t`. -/
structure TradeTick (Double : Type*) where
  tradeId : String
  tradePrice : Double
  tradeVolume : Double
  tradeTime : Int64

structure OrderbookLevel (Double : Type*) where
  price : Double
  volume : Double
  deriving DecidableEq

@[ext] structure Orderbook (Double : Type*) where
  mBids : CheckedVector (OrderbookLevel Double) := {}
  numberOfBidLevels : UInt64 := 0
  mAsks : CheckedVector (OrderbookLevel Double) := {}
  numberOfAskLevels : UInt64 := 0

def Orderbook.init {Double : Type*} (o : Orderbook Double) (maxOrderbookDepth : ℕ) :
    Orderbook Double :=
  { o with
    mBids := o.mBids.reserve maxOrderbookDepth
    mAsks := o.mAsks.reserve maxOrderbookDepth }

end Moboware
