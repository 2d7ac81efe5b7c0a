import Moboware.Exchanges.FieldParsers
import Moboware.Exchanges.SaxEvents

/-! # The Binance stream parser

The type of the stream is taken from the first string under the key `stream` that names
one; from then on the events go to the parser of that type.
-/
namespace Moboware
open Library
variable {Double : Type*}

structure BinanceStreamParser (Double : Type*) where
  mKey : String := ""
  mTradeTickStreamParser : TradeTickStreamParser Double
  mBookTickerStreamParser : BookTickerStreamParser Double
  mOrderbookLevelsParser : OrderbookLevelsParser Double
  mStreamType : MarketDataStreamType := .noneStream

namespace BinanceStreamParser

def create [Zero Double] : BinanceStreamParser Double where
  mTradeTickStreamParser := TradeTickStreamParser.create
  mBookTickerStreamParser := BookTickerStreamParser.create
  mOrderbookLevelsParser := OrderbookLevelsParser.create 20

/-- The first of the names that is found in the value. -/
def streamTypeOf (value : List Char) : MarketDataStreamType :=
  if contains value "@trade" then .tradeTickStream
  else if contains value "@bookTicker" then .bookTickerStream
  else if contains value "@depth@100ms" then .depth100msStream
  else if contains value "@depth5@100ms" then .depth5LevelsStream
  else if contains value "@depth10@100ms" then .depth10LevelsStream
  else if contains value "@depth20@100ms" then .depth20LevelsStream
  else .noneStream

/-- What stands in front of the first `@` does not matter. -/
theorem streamTypeOf_append {symbol : List Char} (h : '@' ∉ symbol) (name : List Char) :
    streamTypeOf (symbol ++ name) = streamTypeOf name := by
  unfold streamTypeOf
  rw [contains_append_of_not_mem h name "@trade" rfl,
    contains_append_of_not_mem h name "@bookTicker" rfl,
    contains_append_of_not_mem h name "@depth@100ms" rfl,
    contains_append_of_not_mem h name "@depth5@100ms" rfl,
    contains_append_of_not_mem h name "@depth10@100ms" rfl,
    contains_append_of_not_mem h name "@depth20@100ms" rfl]

/-- `HandleTradeTick` of a number; the time is given in milliseconds. -/
def handleTradeTickNumber (p : TradeTickStreamParser Double) (key : String) (value : UInt64) :
    TradeTickStreamParser Double × Bool :=
  let p :=
    if key = "T" then
      { p with mTradeTick := { p.mTradeTick with tradeTime := value.toInt64 * 1000000 } }.mark .time
    else if key = "t" then
      { p with mTradeTick := { p.mTradeTick with tradeId := toString value.toNat } }.mark .id
    else p
  (p,p.testTradeTickFields)

/-- `HandleTradeTick` of a string. -/
def handleTradeTickString (strtod : String → Double) (p : TradeTickStreamParser Double)
    (key value : String) : TradeTickStreamParser Double × Bool :=
  let p :=
    if key = "p" then
      { p with mTradeTick := { p.mTradeTick with tradePrice := strtod value } }.mark .price
    else if key = "q" then
      { p with mTradeTick := { p.mTradeTick with tradeVolume := strtod value } }.mark .volume
    else p
  (p,p.testTradeTickFields)

def numberUnsigned (p : BinanceStreamParser Double) (value : UInt64) :
    BinanceStreamParser Double × Bool :=
  if p.mStreamType = .tradeTickStream then
    let (tick,more) := handleTradeTickNumber p.mTradeTickStreamParser p.mKey value
    ({ p with mTradeTickStreamParser := tick },more)
  else (p,true)

def string (strtod : String → Double) (p : BinanceStreamParser Double) (value : String) :
    BinanceStreamParser Double × Bool :=
  if p.mStreamType = .noneStream ∧ p.mKey = "stream" then
    ({ p with mStreamType := streamTypeOf value.toList },true)
  else if p.mStreamType = .tradeTickStream then
    let (tick,more) := handleTradeTickString strtod p.mTradeTickStreamParser p.mKey value
    ({ p with mTradeTickStreamParser := tick },more)
  else if p.mStreamType = .bookTickerStream then
    let (ticker,more) := p.mBookTickerStreamParser.handleBookTicker strtod p.mKey value
    ({ p with mBookTickerStreamParser := ticker },more)
  else if p.mStreamType.isLevels then
    let (levels,more) := p.mOrderbookLevelsParser.handleOrderBookLevel strtod p.mKey value
    ({ p with mOrderbookLevelsParser := levels },more)
  else (p,true)

def startArray (p : BinanceStreamParser Double) : BinanceStreamParser Double × Bool :=
  if p.mStreamType.isLevels then
    ({ p with mOrderbookLevelsParser := p.mOrderbookLevelsParser.arrayStart p.mKey },true)
  else (p,true)

def endArray (p : BinanceStreamParser Double) : BinanceStreamParser Double × Bool :=
  if p.mStreamType.isLevels then
    ({ p with mOrderbookLevelsParser := p.mOrderbookLevelsParser.arrayEnd p.mKey },true)
  else (p,true)

def key (p : BinanceStreamParser Double) (value : String) : BinanceStreamParser Double × Bool :=
  ({ p with mKey := value },true)

/-- The callback of each event; those that are not listed return true and do nothing. -/
def handle (strtod : String → Double) : Handler (BinanceStreamParser Double) SaxEvent
  | p, .numberUnsigned value => p.numberUnsigned value
  | p, .string value => p.string strtod value
  | p, .startArray => p.startArray
  | p, .endArray => p.endArray
  | p, .key value => p.key value
  | p, _ => (p,true)

section Events
variable (strtod : String → Double) (p : BinanceStreamParser Double)

theorem handle_numberUnsigned (value : UInt64) :
    handle strtod p (.numberUnsigned value) = p.numberUnsigned value := rfl

theorem handle_string (value : String) :
    handle strtod p (.string value) = p.string strtod value := rfl

theorem handle_startArray : handle strtod p .startArray = p.startArray := rfl

theorem handle_endArray : handle strtod p .endArray = p.endArray := rfl

end Events

/-- A fresh parser after the parse of a text. -/
def parse [Zero Double] (strtod : String → Double) (text : SaxText) :
    BinanceStreamParser Double × Bool :=
  saxParse (handle strtod) create text

end BinanceStreamParser
end Moboware
