import Mathlib.Data.Nat.Bitwise
import Moboware.Exchanges.Exchange

/-! # The parsers of the fields

A trade tick parser counts its four fields as bits of a word; a parser of order book levels
counts arrays and strings. Both exchanges have these classes, with keys of their own.
-/
namespace Moboware
variable {Double : Type*}

inductive TradeTickFields
  | id
  | price
  | volume
  | time
  deriving DecidableEq

namespace TradeTickFields

def value : TradeTickFields → UInt16
  | id => 0b0000001
  | price => 0b0000010
  | volume => 0b0000100
  | time => 0b0001000

def all : UInt16 := 0b0001111

/-- The place of the bit of a field. -/
def bit : TradeTickFields → ℕ
  | id => 0
  | price => 1
  | volume => 2
  | time => 3

theorem testBit_value (f g : TradeTickFields) :
    g.value.toNat.testBit f.bit = true ↔ f = g := by
  cases f <;> cases g <;> decide

theorem and_all_eq_iff (fields : UInt16) :
    fields &&& all = all ↔ ∀ f : TradeTickFields, fields.toNat.testBit f.bit = true := by
  have hmod : fields &&& all = all ↔ fields.toNat % 16 = 15 := by
    rw [← UInt16.toNat_inj,UInt16.toNat_and]
    change fields.toNat &&& 15 = 15 ↔ _
    rw [show (15 : ℕ) = 2 ^ 4 - 1 from rfl,Nat.and_two_pow_sub_one_eq_mod]
  rw [hmod]
  constructor
  · intro h f
    cases f <;> simp only [bit,Nat.testBit_eq_decide_div_mod_eq,decide_eq_true_eq] <;> omega
  · intro h
    have hid := h id
    have hprice := h price
    have hvolume := h volume
    have htime := h time
    simp only [bit,Nat.testBit_eq_decide_div_mod_eq,decide_eq_true_eq] at hid hprice hvolume htime
    omega

end TradeTickFields

structure TradeTickStreamParser (Double : Type*) where
  mTradeTick : TradeTick Double
  mTradeTickFields : UInt16 := 0

namespace TradeTickStreamParser

def create [Zero Double] : TradeTickStreamParser Double where
  mTradeTick := ⟨"",0,0,0⟩

/-- Whether more fields are wanted. -/
def testTradeTickFields (p : TradeTickStreamParser Double) : Bool :=
  decide (p.mTradeTickFields = 0) ||
    decide (p.mTradeTickFields &&& TradeTickFields.all ≠ TradeTickFields.all)

def mark (p : TradeTickStreamParser Double) (field : TradeTickFields) :
    TradeTickStreamParser Double :=
  { p with mTradeTickFields := p.mTradeTickFields ||| field.value }

def Has (p : TradeTickStreamParser Double) (field : TradeTickFields) : Prop :=
  p.mTradeTickFields.toNat.testBit field.bit = true

/-- All four of id, price, volume and time have been set. -/
def Complete (p : TradeTickStreamParser Double) : Prop :=
  p.mTradeTickFields &&& TradeTickFields.all = TradeTickFields.all

instance (p : TradeTickStreamParser Double) : Decidable p.Complete :=
  inferInstanceAs (Decidable (p.mTradeTickFields &&& TradeTickFields.all = TradeTickFields.all))

theorem complete_iff {p : TradeTickStreamParser Double} : p.Complete ↔ ∀ field, p.Has field :=
  TradeTickFields.and_all_eq_iff p.mTradeTickFields

theorem mTradeTick_mark (p : TradeTickStreamParser Double) (field : TradeTickFields) :
    (p.mark field).mTradeTick = p.mTradeTick := rfl

theorem has_mark_iff {p : TradeTickStreamParser Double} {field g : TradeTickFields} :
    (p.mark field).Has g ↔ g = field ∨ p.Has g := by
  unfold Has mark
  rw [UInt16.toNat_or,Nat.testBit_or,Bool.or_eq_true,TradeTickFields.testBit_value,or_comm]

/-- The tick that is built has no part in which of its fields are set. -/
theorem has_tick_iff {p : TradeTickStreamParser Double} (tick : TradeTick Double)
    {field : TradeTickFields} : ({ p with mTradeTick := tick } :
      TradeTickStreamParser Double).Has field ↔ p.Has field := Iff.rfl

/-- What a field that is given does: the tick is built anew and the field is set. -/
theorem has_set_iff {p : TradeTickStreamParser Double} (tick : TradeTick Double)
    {field g : TradeTickFields} : (({ p with mTradeTick := tick } :
      TradeTickStreamParser Double).mark field).Has g ↔ p.Has g ∨ g = field := by
  rw [has_mark_iff,or_comm]
  exact or_congr (has_tick_iff tick) Iff.rfl

theorem not_has_create [Zero Double] (field : TradeTickFields) :
    ¬ (create : TradeTickStreamParser Double).Has field := by
  intro h
  change Nat.testBit 0 field.bit = true at h
  rw [Nat.zero_testBit] at h
  exact Bool.false_ne_true h

theorem testTradeTickFields_eq_false_iff {p : TradeTickStreamParser Double} :
    p.testTradeTickFields = false ↔ p.Complete := by
  unfold testTradeTickFields Complete
  rw [Bool.or_eq_false_iff,decide_eq_false_iff_not,decide_eq_false_iff_not,not_ne_iff]
  refine and_iff_right_of_imp ?_
  intro h hzero
  rw [hzero] at h
  exact absurd h (by decide)

end TradeTickStreamParser

namespace BookTickerFields

def bidPrice : UInt16 := 0b0000001
def bidVolume : UInt16 := 0b0000010
def askPrice : UInt16 := 0b0000100
def askVolume : UInt16 := 0b0001000

def all : UInt16 := bidPrice ||| bidVolume ||| askPrice ||| askVolume

end BookTickerFields

structure BookTickerStreamParser (Double : Type*) where
  mBestBidOffer : TopOfTheBook Double
  mBookTickerFields : UInt16 := 0

namespace BookTickerStreamParser

def create [Zero Double] : BookTickerStreamParser Double where
  mBestBidOffer := ⟨0,0,0,0⟩

/-- Whether more fields are wanted. -/
def testBookTickerFields (p : BookTickerStreamParser Double) : Bool :=
  decide (p.mBookTickerFields = 0) ||
    decide (p.mBookTickerFields &&& BookTickerFields.all ≠ BookTickerFields.all)

/-- No field is marked, unlike in a trade tick. -/
def handleBookTicker (strtod : String → Double) (p : BookTickerStreamParser Double)
    (key value : String) : BookTickerStreamParser Double × Bool :=
  let set := { p with mBestBidOffer :=
    if key = "b" then { p.mBestBidOffer with bidPrice := strtod value }
    else if key = "B" then { p.mBestBidOffer with bidVolume := strtod value }
    else if key = "a" then { p.mBestBidOffer with askPrice := strtod value }
    else if key = "A" then { p.mBestBidOffer with askVolume := strtod value }
    else p.mBestBidOffer }
  (set,set.testBookTickerFields)

theorem mBookTickerFields_handleBookTicker (strtod : String → Double)
    (p : BookTickerStreamParser Double) (key value : String) :
    (p.handleBookTicker strtod key value).1.mBookTickerFields = p.mBookTickerFields := rfl

/-- As long as no field is marked more is wanted. -/
theorem handleBookTicker_wants {p : BookTickerStreamParser Double} (h : p.mBookTickerFields = 0)
    (strtod : String → Double) (key value : String) :
    (p.handleBookTicker strtod key value).2 = true := by
  change testBookTickerFields _ = true
  rw [testBookTickerFields,Bool.or_eq_true]
  exact Or.inl (decide_eq_true h)

end BookTickerStreamParser

@[ext] structure OrderbookLevelsParser (Double : Type*) where
  mOrderbook : Orderbook Double := {}
  mArrayIndentation : UInt64 := 0
  mPriceVolumeFieldsIndex : UInt64 := 0

/-- The keys that a side of the book stands under. -/
def isBookKey (key : String) : Bool := key == "bids" || key == "asks"

theorem isBookKey_iff {key : String} : isBookKey key = true ↔ key = "bids" ∨ key = "asks" := by
  simp [isBookKey]

namespace OrderbookLevelsParser

/-- A parser for as many levels; the vectors of the book have the capacity, and no element. -/
def create (maxOrderbookDepth : ℕ) : OrderbookLevelsParser Double where
  mOrderbook := Orderbook.init {} maxOrderbookDepth

/-- A string of an inner array: odd ones are prices, even ones volumes that end the level. -/
def writeField (levels : CheckedVector (OrderbookLevel Double)) (numberOfLevels index : UInt64)
    (field : Double) : CheckedVector (OrderbookLevel Double) × UInt64 :=
  if index % 2 = 1 then
    (levels.modifyAt numberOfLevels.toNat (fun level => { level with price := field }),
      numberOfLevels)
  else (levels.modifyAt numberOfLevels.toNat (fun level => { level with volume := field }),
    numberOfLevels + 1)

def handleOrderBookLevel (strtod : String → Double) (p : OrderbookLevelsParser Double)
    (key value : String) : OrderbookLevelsParser Double × Bool :=
  if p.mArrayIndentation = 2 then
    let index := p.mPriceVolumeFieldsIndex + 1
    let o := p.mOrderbook
    if key = "bids" then
      let (mBids,numberOfBidLevels) := writeField o.mBids o.numberOfBidLevels index (strtod value)
      ({ p with mOrderbook := { o with mBids, numberOfBidLevels },
                mPriceVolumeFieldsIndex := index },true)
    else if key = "asks" then
      let (mAsks,numberOfAskLevels) := writeField o.mAsks o.numberOfAskLevels index (strtod value)
      ({ p with mOrderbook := { o with mAsks, numberOfAskLevels },
                mPriceVolumeFieldsIndex := index },true)
    else ({ p with mPriceVolumeFieldsIndex := index },true)
  else (p,true)

def arrayStart (p : OrderbookLevelsParser Double) (key : String) : OrderbookLevelsParser Double :=
  if isBookKey key then { p with mArrayIndentation := p.mArrayIndentation + 1 } else p

def arrayEnd (p : OrderbookLevelsParser Double) (key : String) : OrderbookLevelsParser Double :=
  if isBookKey key then { p with mArrayIndentation := p.mArrayIndentation - 1 } else p

end OrderbookLevelsParser
end Moboware
