import Mathlib.Data.List.Forall2
import Moboware.Exchanges.BinanceStreamParser

/-! # The Binance subscriptions

`Connect` names a feed for each subscription and asks for all of them in one target. The
stream parser finds the type of a feed in its name.
-/
namespace Moboware
open Library

structure Instrument where
  exchangeSymbol : String

structure MarketSubscription where
  instrument : Instrument
  streamSubscriptions : List MarketDataStreamType

structure WebSocketClient where
  mTarget : String := "/"

def WebSocketClient.setTarget (_client : WebSocketClient) (target : String) : WebSocketClient :=
  ⟨target⟩

structure BinanceMarketDataFeed where
  mMarketSubscription : MarketSubscription
  mWebSocketClient : WebSocketClient := {}

namespace BinanceMarketDataFeed

/-- The cases of the `switch`; for the other types nothing is pushed. -/
def feedName (exchangeSymbol : String) : MarketDataStreamType → Option String
  | .bookTickerStream => some (exchangeSymbol ++ "@bookTicker")
  | .tradeTickStream => some (exchangeSymbol ++ "@trade")
  | .depth100msStream => some (exchangeSymbol ++ "@depth@100ms")
  | .depth5LevelsStream => some (exchangeSymbol ++ "@depth5@100ms")
  | .depth10LevelsStream => some (exchangeSymbol ++ "@depth10@100ms")
  | .depth20LevelsStream => some (exchangeSymbol ++ "@depth20@100ms")
  | .noneStream => none
  | .depth100LevelsStream => none

def feeds (subscription : MarketSubscription) : List String :=
  subscription.streamSubscriptions.filterMap (feedName subscription.instrument.exchangeSymbol)

/-- The loop from the index `i` on, over the feeds that are left. The subtraction of 1 is only
reached when there is a feed, so it does not wrap. -/
def appendFeeds (size i : ℕ) (stream : String) : List String → String
  | [] => stream
  | feed :: rest =>
    let stream := stream ++ feed
    let stream := if i < size - 1 then stream ++ "/" else stream
    appendFeeds size (i + 1) stream rest

def target (subscription : MarketSubscription) : String :=
  appendFeeds (feeds subscription).length 0 "/stream?streams=" (feeds subscription)

/-- `Start` of the client is left open: it connects to the host and the port. -/
def connect (start : WebSocketClient → String → UInt16 → Bool) (f : BinanceMarketDataFeed) :
    BinanceMarketDataFeed × Bool :=
  let f := { f with
    mWebSocketClient := f.mWebSocketClient.setTarget (target f.mMarketSubscription) }
  (f,start f.mWebSocketClient "stream.binance.com" 9443)

variable {symbol : String}

/-- The index tells the last feed from the others: the slash is between the feeds only. -/
theorem toList_appendFeeds {size i : ℕ} {feeds : List String} (h : i + feeds.length = size)
    (stream : String) : (appendFeeds size i stream feeds).toList =
      stream.toList ++ ['/'].intercalate (feeds.map String.toList) := by
  induction feeds generalizing i stream with
  | nil => simp [appendFeeds]
  | cons feed rest ih =>
    rw [List.length_cons] at h
    rw [appendFeeds,ih (by omega)]
    cases rest with
    | nil =>
      rw [if_neg (by simp only [List.length_nil] at h; omega)]
      simp
    | cons next rest =>
      rw [if_pos (by simp only [List.length_cons] at h; omega)]
      simp

/-- A feed is the symbol and a name that has no slash and belongs to its type. -/
theorem feedName_eq {type : MarketDataStreamType} {feed : String}
    (h : feedName symbol type = some feed) : ∃ name : List Char,
      feed.toList = symbol.toList ++ name ∧ name ≠ [] ∧ '/' ∉ name ∧
        BinanceStreamParser.streamTypeOf name = type := by
  cases type with
  | noneStream => exact absurd h.symm (Option.some_ne_none feed)
  | depth100LevelsStream => exact absurd h.symm (Option.some_ne_none feed)
  | _ =>
    rw [← Option.some_inj.mp h,String.toList_append]
    exact ⟨_,rfl,by decide,by decide,by decide⟩

theorem forall₂_feedName {types : List MarketDataStreamType}
    (h : ∀ type ∈ types, (feedName symbol type).isSome) :
    List.Forall₂ (fun feed type => feedName symbol type = some feed)
      (types.filterMap (feedName symbol)) types := by
  induction types with
  | nil => exact .nil
  | cons type types ih =>
    obtain ⟨feed,hfeed⟩ := Option.isSome_iff_exists.mp (h type List.mem_cons_self)
    rw [List.filterMap_cons_some hfeed]
    exact .cons hfeed (ih (fun type htype => h type (List.mem_cons_of_mem _ htype)))

section Parser
variable {Double : Type*} [Zero Double] (strtod : String → Double)

/-- The type of a stream that a fresh parser finds in its name. -/
def streamTypeNamed (name : List Char) : MarketDataStreamType :=
  ((BinanceStreamParser.handle strtod).feed BinanceStreamParser.create
    [.key "stream",.string (String.ofList name)]).1.mStreamType

theorem streamTypeNamed_eq (name : List Char) :
    streamTypeNamed strtod name = BinanceStreamParser.streamTypeOf name := by
  rw [streamTypeNamed,Handler.feed_cons_of_true rfl,Handler.feed_cons_of_true rfl]
  exact congrArg BinanceStreamParser.streamTypeOf (String.toList_ofList)

/-- The target names one feed for each subscription, in their order and with no slash but
those between them, and the parser finds the type subscribed to in each of the names. -/
theorem target_names_types (start : WebSocketClient → String → UInt16 → Bool)
    (f : BinanceMarketDataFeed)
    (hat : '@' ∉ f.mMarketSubscription.instrument.exchangeSymbol.toList)
    (hslash : '/' ∉ f.mMarketSubscription.instrument.exchangeSymbol.toList)
    (hsupported : ∀ type ∈ f.mMarketSubscription.streamSubscriptions,
      (feedName f.mMarketSubscription.instrument.exchangeSymbol type).isSome) :
    ∃ text, (f.connect start).1.mWebSocketClient.mTarget.toList =
        "/stream?streams=".toList ++ text ∧
      (f.mMarketSubscription.streamSubscriptions ≠ [] →
        List.Forall₂ (fun name type => name ≠ [] ∧ streamTypeNamed strtod name = type)
          (text.splitOn '/') f.mMarketSubscription.streamSubscriptions) := by
  have hfeeds := forall₂_feedName hsupported
  refine ⟨['/'].intercalate ((feeds f.mMarketSubscription).map String.toList),?_,?_⟩
  · exact toList_appendFeeds (Nat.zero_add _) _
  · intro hsome
    rw [List.splitOn_intercalate]
    · rw [List.forall₂_map_left_iff]
      refine hfeeds.imp ?_
      intro feed type hfeed
      obtain ⟨name,heq,hne,_,htype⟩ := feedName_eq hfeed
      rw [streamTypeNamed_eq,heq,BinanceStreamParser.streamTypeOf_append hat]
      exact ⟨List.append_ne_nil_of_right_ne_nil _ hne,htype⟩
    · intro text htext
      obtain ⟨feed,hmem,rfl⟩ := List.mem_map.mp htext
      obtain ⟨type,_,hfeed⟩ := List.mem_filterMap.mp hmem
      obtain ⟨name,heq,_,hno,_⟩ := feedName_eq hfeed
      rw [heq,List.mem_append,not_or]
      exact ⟨hslash,hno⟩
    · intro hnil
      rw [List.map_eq_nil_iff] at hnil
      rw [feeds] at hnil
      rw [hnil] at hfeeds
      exact hsome (List.forall₂_nil_left_iff.mp hfeeds)

end Parser

/-- The subscriptions of the comment in `Connect`. -/
def demo : BinanceMarketDataFeed where
  mMarketSubscription := ⟨⟨"btcusdt"⟩,[.bookTickerStream,.tradeTickStream,.depth100msStream]⟩

example : target demo.mMarketSubscription =
    "/stream?streams=btcusdt@bookTicker/btcusdt@trade/btcusdt@depth@100ms" := by decide

theorem target_names_types_demo :
    ∃ text, (demo.connect (fun _ _ _ => true)).1.mWebSocketClient.mTarget.toList =
        "/stream?streams=".toList ++ text ∧
      ([.bookTickerStream,.tradeTickStream,.depth100msStream] ≠ ([] : List MarketDataStreamType) →
        List.Forall₂ (fun name type => name ≠ [] ∧ streamTypeNamed String.length name = type)
          (text.splitOn '/') [.bookTickerStream,.tradeTickStream,.depth100msStream]) :=
  target_names_types String.length _ demo (by decide) (by decide) (by decide)

end BinanceMarketDataFeed
end Moboware
