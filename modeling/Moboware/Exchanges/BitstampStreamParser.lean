import Moboware.Exchanges.FieldParsers
import Moboware.Exchanges.SaxEvents

/-! # The Bitstamp stream parser

The type of the stream is taken from the text before it is parsed. Numbers and arrays
reach no parser of a field.
-/
namespace Moboware
open Library
variable {Double : Type*}

structure BitstampStreamParser (Double : Type*) where
  mKey : String := ""
  mTradeTickStreamParser : TradeTickStreamParser Double
  mOrderbookLevelsParser : OrderbookLevelsParser Double
  mStreamType : MarketDataStreamType := .noneStream

namespace BitstampStreamParser

/-- The constructor; the text has one character for each `char`. -/
def create [Zero Double] (msg : List Char) : BitstampStreamParser Double where
  mTradeTickStreamParser := TradeTickStreamParser.create
  mOrderbookLevelsParser := OrderbookLevelsParser.create 100
  mStreamType := if contains msg "\"event\":\"trade\"" then .tradeTickStream else .noneStream

/-- `HandleTradeTick` of a string; the time is given in microseconds. -/
def handleTradeTickString (strtod : String → Double) (atol : String → Int64)
    (p : TradeTickStreamParser Double) (key value : String) : TradeTickStreamParser Double × Bool :=
  let p :=
    if key = "price_str" then
      { p with mTradeTick := { p.mTradeTick with tradePrice := strtod value } }.mark .price
    else if key = "amount_str" then
      { p with mTradeTick := { p.mTradeTick with tradeVolume := strtod value } }.mark .volume
    else if key = "microtimestamp" then
      { p with mTradeTick := { p.mTradeTick with tradeTime := atol value * 1000 } }.mark .time
    else p
  (p,p.testTradeTickFields)

/-- The call of `HandleTradeTick` is commented out. -/
def numberUnsigned (p : BitstampStreamParser Double) (_value : UInt64) :
    BitstampStreamParser Double × Bool := (p,true)

def string (strtod : String → Double) (atol : String → Int64) (p : BitstampStreamParser Double)
    (value : String) : BitstampStreamParser Double × Bool :=
  if p.mStreamType = .tradeTickStream then
    let (tick,more) := handleTradeTickString strtod atol p.mTradeTickStreamParser p.mKey value
    ({ p with mTradeTickStreamParser := tick },more)
  else (p,true)

def key (p : BitstampStreamParser Double) (value : String) : BitstampStreamParser Double × Bool :=
  ({ p with mKey := value },true)

/-- The callback of each event; those that are not listed return true and do nothing. -/
def handle (strtod : String → Double) (atol : String → Int64) :
    Handler (BitstampStreamParser Double) SaxEvent
  | p, .numberUnsigned value => p.numberUnsigned value
  | p, .string value => p.string strtod atol value
  | p, .key value => p.key value
  | p, _ => (p,true)

/-- A fresh parser of a text after the parse of its events. -/
def parse [Zero Double] (strtod : String → Double) (atol : String → Int64) (msg : List Char)
    (text : SaxText) : BitstampStreamParser Double × Bool :=
  saxParse (handle strtod atol) (create msg) text

end BitstampStreamParser
end Moboware
