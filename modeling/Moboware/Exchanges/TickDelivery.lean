import Moboware.Exchanges.BinanceStreamParser
import Moboware.Exchanges.BitstampStreamParser

/-! # Delivery of trade ticks

The session handlers parse a received text and deliver by the type of the stream alone. What
the parser of the tick has been given decides whether the delivered tick is complete.
-/
namespace Moboware
open Library
variable {Double : Type*}

/-- The calls of the data handler, without the instrument and the time of the session. -/
inductive MarketDataCall (Double : Type*)
  | onTradeTick (tick : TradeTick Double)
  | onTopOfTheBook (bestBidOffer : TopOfTheBook Double)
  | onOrderbook (orderbook : Orderbook Double)

/-- If a trade tick is delivered, the parser it comes from has all four fields. -/
def OnlyComplete (call : Option (MarketDataCall Double)) (p : TradeTickStreamParser Double) : Prop :=
  ∀ tick, call = some (.onTradeTick tick) → p.Complete

namespace BinanceStreamParser

/-- The call of `OnDataRead`; `result` is not looked at. -/
def deliver (p : BinanceStreamParser Double) : Option (MarketDataCall Double) :=
  match p.mStreamType with
  | .tradeTickStream => some (.onTradeTick p.mTradeTickStreamParser.mTradeTick)
  | .bookTickerStream => some (.onTopOfTheBook p.mBookTickerStreamParser.mBestBidOffer)
  | .depth5LevelsStream => some (.onOrderbook p.mOrderbookLevelsParser.mOrderbook)
  | .depth10LevelsStream => some (.onOrderbook p.mOrderbookLevelsParser.mOrderbook)
  | .depth20LevelsStream => some (.onOrderbook p.mOrderbookLevelsParser.mOrderbook)
  | _ => none

theorem onlyComplete_iff (p : BinanceStreamParser Double) :
    OnlyComplete p.deliver p.mTradeTickStreamParser ↔
      (p.mStreamType = .tradeTickStream → p.mTradeTickStreamParser.Complete) := by
  unfold OnlyComplete deliver
  cases p.mStreamType with
  | tradeTickStream => exact ⟨fun h _ => h _ rfl,fun h _ _ => h rfl⟩
  | _ => simp

/-- The event gives the field of the tick. -/
def Sets : TradeTickFields → String × SaxEvent → Prop
  | .id, (key,.numberUnsigned _) => key = "t"
  | .time, (key,.numberUnsigned _) => key = "T"
  | .price, (key,.string _) => key = "p"
  | .volume, (key,.string _) => key = "q"
  | _, _ => False

/-- The event is a string under the key `stream` that names a stream. -/
def NamesStream (e : String × SaxEvent) : Prop :=
  e.1 = "stream" ∧ ∃ value, e.2 = .string value ∧ streamTypeOf value.toList ≠ .noneStream

/-- If the first name of a stream is that of a trade stream, then every field that is not
there yet is given behind it. -/
def TradeIsComplete (has : TradeTickFields → Prop) (ks : List (String × SaxEvent)) : Prop :=
  ∀ before value after, ks = before ++ ("stream",.string value) :: after →
    (∀ e ∈ before, ¬ NamesStream e) → contains value.toList "@trade" = true →
    ∀ field, has field ∨ ∃ e ∈ after, Sets field e

theorem streamTypeOf_eq_trade_iff (value : List Char) :
    streamTypeOf value = .tradeTickStream ↔ contains value "@trade" = true := by
  unfold streamTypeOf
  split_ifs with h <;> simp [h]

theorem tradeIsComplete_cons_of_not {has : TradeTickFields → Prop} {e : String × SaxEvent}
    (he : ¬ NamesStream e) (ks : List (String × SaxEvent)) :
    TradeIsComplete has (e :: ks) ↔ TradeIsComplete has ks := by
  constructor
  · intro h before value after hks hbefore
    refine h (e :: before) value after (by rw [hks]; rfl) ?_
    intro f hf
    rcases List.mem_cons.mp hf with rfl | hf
    · exact he
    · exact hbefore f hf
  · intro h before value after hks hbefore htrade
    cases before with
    | nil =>
      obtain ⟨rfl,rfl⟩ := List.cons.inj hks
      refine absurd ⟨rfl,value,rfl,?_⟩ he
      rw [(streamTypeOf_eq_trade_iff value.toList).mpr htrade]
      exact MarketDataStreamType.noConfusion
    | cons f before =>
      obtain ⟨rfl,rfl⟩ := List.cons.inj hks
      exact h before value after rfl (fun g hg => hbefore g (List.mem_cons_of_mem e hg)) htrade

theorem tradeIsComplete_cons_of_names {has : TradeTickFields → Prop} {key value : String}
    (h : NamesStream (key,.string value)) (ks : List (String × SaxEvent)) :
    TradeIsComplete has ((key,.string value) :: ks) ↔
      (contains value.toList "@trade" = true → ∀ field, has field ∨ ∃ e ∈ ks, Sets field e) := by
  obtain rfl : key = "stream" := h.1
  constructor
  · intro hall
    exact hall [] value ks rfl (fun _ he => absurd he List.not_mem_nil)
  · intro hall before value' after hks hbefore
    cases before with
    | nil =>
      obtain ⟨he,rfl⟩ := List.cons.inj hks
      cases he
      exact hall
    | cons f before =>
      obtain ⟨rfl,rfl⟩ := List.cons.inj hks
      exact absurd h (hbefore _ List.mem_cons_self)

/-! ### The events of a trade stream -/

/-- An event, with its key, as the parser of the tick sees it. -/
def tickStep (strtod : String → Double) (p : TradeTickStreamParser Double) :
    String × SaxEvent → TradeTickStreamParser Double × Bool
  | (key,.numberUnsigned value) => handleTradeTickNumber p key value
  | (key,.string value) => handleTradeTickString strtod p key value
  | _ => (p,true)

theorem handleTradeTickNumber_has (p : TradeTickStreamParser Double) (key : String)
    (value : UInt64) (field : TradeTickFields) :
    (handleTradeTickNumber p key value).1.Has field ↔
      p.Has field ∨ Sets field (key,.numberUnsigned value) := by
  unfold handleTradeTickNumber
  dsimp only
  split_ifs with htime hid
  · apply (TradeTickStreamParser.has_set_iff _).trans
    refine or_congr Iff.rfl ?_
    cases field <;> simp [Sets,htime]
  · apply (TradeTickStreamParser.has_set_iff _).trans
    refine or_congr Iff.rfl ?_
    cases field <;> simp [Sets,hid]
  · refine (or_iff_left ?_).symm
    cases field <;> simp [Sets,htime,hid]

theorem handleTradeTickString_has (strtod : String → Double) (p : TradeTickStreamParser Double)
    (key value : String) (field : TradeTickFields) :
    (handleTradeTickString strtod p key value).1.Has field ↔
      p.Has field ∨ Sets field (key,.string value) := by
  unfold handleTradeTickString
  dsimp only
  split_ifs with hprice hvolume
  · apply (TradeTickStreamParser.has_set_iff _).trans
    refine or_congr Iff.rfl ?_
    cases field <;> simp [Sets,hprice]
  · apply (TradeTickStreamParser.has_set_iff _).trans
    refine or_congr Iff.rfl ?_
    cases field <;> simp [Sets,hvolume]
  · refine (or_iff_left ?_).symm
    cases field <;> simp [Sets,hprice,hvolume]

theorem tickStep_has (strtod : String → Double) (p : TradeTickStreamParser Double)
    (e : String × SaxEvent) (field : TradeTickFields) :
    (tickStep strtod p e).1.Has field ↔ p.Has field ∨ Sets field e := by
  obtain ⟨key,event⟩ := e
  cases event with
  | numberUnsigned value => exact handleTradeTickNumber_has p key value field
  | string value => exact handleTradeTickString_has strtod p key value field
  | _ => exact (or_iff_left (by cases field <;> exact fun h => h)).symm

/-- The parser of the tick wants no more only when it has all. -/
theorem tickStep_complete (strtod : String → Double) (p : TradeTickStreamParser Double)
    (e : String × SaxEvent) (h : (tickStep strtod p e).2 = false) :
    (tickStep strtod p e).1.Complete := by
  obtain ⟨key,event⟩ := e
  cases event with
  | numberUnsigned value => exact TradeTickStreamParser.testTradeTickFields_eq_false_iff.mp h
  | string value => exact TradeTickStreamParser.testTradeTickFields_eq_false_iff.mp h
  | _ => exact absurd h.symm Bool.false_ne_true

theorem handle_of_trade (strtod : String → Double) {p : BinanceStreamParser Double}
    (h : p.mStreamType = .tradeTickStream) {e : SaxEvent} (he : ∀ value, e ≠ .key value) :
    handle strtod p e =
      ({ p with mTradeTickStreamParser :=
          (tickStep strtod p.mTradeTickStreamParser (p.mKey,e)).1 },
        (tickStep strtod p.mTradeTickStreamParser (p.mKey,e)).2) := by
  have hnone : p.mStreamType ≠ .noneStream := by
    rw [h]
    exact MarketDataStreamType.noConfusion
  have hlevels : ¬ p.mStreamType.isLevels = true := by
    rw [h]
    exact Bool.false_ne_true
  cases e with
  | key value => exact absurd rfl (he value)
  | numberUnsigned value =>
    rw [handle_numberUnsigned,numberUnsigned,if_pos h]
    rfl
  | string value =>
    rw [handle_string,string,if_neg (fun hand => hnone hand.1),if_pos h]
    rfl
  | startArray => rw [handle_startArray,startArray,if_neg hlevels]; rfl
  | endArray => rw [handle_endArray,endArray,if_neg hlevels]; rfl
  | _ => rfl

/-- At the end the tick has what it had and what the events gave; a feed that stops early
stops with all fields. -/
theorem feed_trade (strtod : String → Double) {p : BinanceStreamParser Double}
    (h : p.mStreamType = .tradeTickStream) (es : List SaxEvent) :
    ((handle strtod).feed p es).1.mStreamType = .tradeTickStream ∧
      (((handle strtod).feed p es).1.mTradeTickStreamParser.Complete ↔
        ∀ field, p.mTradeTickStreamParser.Has field ∨
          ∃ e ∈ SaxEvent.keyed p.mKey es, Sets field e) := by
  induction es generalizing p with
  | nil =>
    refine ⟨h,TradeTickStreamParser.complete_iff.trans (forall_congr' ?_)⟩
    intro field
    exact (or_iff_left (fun ⟨_,hmem,_⟩ => List.not_mem_nil hmem)).symm
  | cons e es ih =>
    rcases e.eq_key_or with ⟨value,rfl⟩ | he
    · rw [Handler.feed_cons_of_true rfl]
      exact ih h
    · have hstep := handle_of_trade strtod h he
      have hhas := tickStep_has strtod p.mTradeTickStreamParser (p.mKey,e)
      rw [SaxEvent.keyed_cons he]
      simp only [List.exists_mem_cons_iff,← or_assoc,← hhas]
      cases hmore : (tickStep strtod p.mTradeTickStreamParser (p.mKey,e)).2 with
      | true =>
        rw [Handler.feed_cons_of_true (by rw [hstep]; exact hmore),hstep]
        exact ih h
      | false =>
        have hcomplete := tickStep_complete strtod _ _ hmore
        rw [Handler.feed_cons_of_false (by rw [hstep]; exact hmore),hstep]
        refine ⟨h,iff_of_true hcomplete ?_⟩
        intro field
        exact Or.inl (TradeTickStreamParser.complete_iff.mp hcomplete field)

/-! ### From the first name of a stream on -/

/-- Before a stream is named nothing but the key changes. -/
theorem handle_of_none (strtod : String → Double) {p : BinanceStreamParser Double}
    (h : p.mStreamType = .noneStream) {e : SaxEvent} (he : ∀ value, e ≠ .key value)
    (hnames : ¬ NamesStream (p.mKey,e)) : handle strtod p e = (p,true) := by
  have htrade : p.mStreamType ≠ .tradeTickStream := by
    rw [h]
    exact MarketDataStreamType.noConfusion
  have hticker : p.mStreamType ≠ .bookTickerStream := by
    rw [h]
    exact MarketDataStreamType.noConfusion
  have hlevels : ¬ p.mStreamType.isLevels = true := by
    rw [h]
    exact Bool.false_ne_true
  cases e with
  | key value => exact absurd rfl (he value)
  | numberUnsigned value => rw [handle_numberUnsigned,numberUnsigned,if_neg htrade]
  | string value =>
    rw [handle_string,string]
    by_cases hkey : p.mKey = "stream"
    · have hnone : streamTypeOf value.toList = .noneStream := by
        by_contra hne
        exact hnames ⟨hkey,value,rfl,hne⟩
      rw [if_pos ⟨h,hkey⟩,hnone,← h]
    · rw [if_neg (fun hand => hkey hand.2),if_neg htrade,if_neg hticker,if_neg hlevels]
  | startArray => rw [handle_startArray,startArray,if_neg hlevels]
  | endArray => rw [handle_endArray,endArray,if_neg hlevels]
  | _ => rfl

/-- A stream that is named is not named again. -/
theorem feed_streamType (strtod : String → Double) {p : BinanceStreamParser Double}
    (h : p.mStreamType ≠ .noneStream) (es : List SaxEvent) :
    ((handle strtod).feed p es).1.mStreamType = p.mStreamType := by
  refine Handler.feed_invariant (I := fun q : BinanceStreamParser Double => q.mStreamType = p.mStreamType) ?_ rfl es
  intro q e hq
  have hnone : ¬ (q.mStreamType = .noneStream ∧ q.mKey = "stream") := by
    rw [hq]
    exact fun hand => h hand.1
  cases e with
  | numberUnsigned value =>
    rw [handle_numberUnsigned,numberUnsigned]
    split_ifs <;> exact hq
  | string value =>
    rw [handle_string,string,if_neg hnone]
    split_ifs <;> exact hq
  | startArray =>
    rw [handle_startArray,startArray]
    split_ifs <;> exact hq
  | endArray =>
    rw [handle_endArray,endArray]
    split_ifs <;> exact hq
  | _ => exact hq

theorem feed_none (strtod : String → Double) {p : BinanceStreamParser Double}
    (h : p.mStreamType = .noneStream) (es : List SaxEvent) :
    (((handle strtod).feed p es).1.mStreamType = .tradeTickStream →
        ((handle strtod).feed p es).1.mTradeTickStreamParser.Complete) ↔
      TradeIsComplete p.mTradeTickStreamParser.Has (SaxEvent.keyed p.mKey es) := by
  induction es generalizing p with
  | nil =>
    refine iff_of_true ?_ ?_
    · intro htrade
      rw [Handler.feed,h] at htrade
      exact MarketDataStreamType.noConfusion htrade
    · intro before value after hks
      exact absurd hks.symm (List.append_ne_nil_of_right_ne_nil before (List.cons_ne_nil _ after))
  | cons e es ih =>
    rcases e.eq_key_or with ⟨value,rfl⟩ | he
    · rw [Handler.feed_cons_of_true rfl]
      exact ih h
    · rw [SaxEvent.keyed_cons he]
      by_cases hnames : NamesStream (p.mKey,e)
      · obtain ⟨hkey,value,rfl,htype⟩ := hnames
        have hstep : handle strtod p (.string value) =
            ({ p with mStreamType := streamTypeOf value.toList },true) := by
          rw [handle_string,string,if_pos ⟨h,hkey⟩]
        rw [Handler.feed_cons_of_true (congrArg Prod.snd hstep),hstep,
          tradeIsComplete_cons_of_names ⟨hkey,value,rfl,htype⟩]
        by_cases htrade : streamTypeOf value.toList = .tradeTickStream
        · have hfeed := feed_trade strtod (p := { p with mStreamType := streamTypeOf value.toList })
            htrade es
          rw [hfeed.2]
          exact ⟨fun hall _ => hall hfeed.1,
            fun hall _ => hall ((streamTypeOf_eq_trade_iff _).mp htrade)⟩
        · refine iff_of_true ?_ ?_
          · intro hfinal
            rw [feed_streamType strtod htype] at hfinal
            exact absurd hfinal htrade
          · intro hcontains
            exact absurd ((streamTypeOf_eq_trade_iff _).mpr hcontains) htrade
      · have hstep := handle_of_none strtod h he hnames
        rw [Handler.feed_cons_of_true (congrArg Prod.snd hstep),hstep,
          tradeIsComplete_cons_of_not hnames]
        exact ih h

end BinanceStreamParser

namespace BitstampStreamParser

/-- The call of `OnDataRead`; `result` is not looked at. -/
def deliver (p : BitstampStreamParser Double) : Option (MarketDataCall Double) :=
  match p.mStreamType with
  | .tradeTickStream => some (.onTradeTick p.mTradeTickStreamParser.mTradeTick)
  | .depth100LevelsStream => some (.onOrderbook p.mOrderbookLevelsParser.mOrderbook)
  | _ => none

theorem onlyComplete_iff (p : BitstampStreamParser Double) :
    OnlyComplete p.deliver p.mTradeTickStreamParser ↔
      (p.mStreamType = .tradeTickStream → p.mTradeTickStreamParser.Complete) := by
  unfold OnlyComplete deliver
  cases p.mStreamType with
  | tradeTickStream => exact ⟨fun h _ => h _ rfl,fun h _ _ => h rfl⟩
  | _ => simp

/-- No string gives the id of the trade. -/
theorem handleTradeTickString_not_id (strtod : String → Double) (atol : String → Int64)
    {p : TradeTickStreamParser Double} (h : ¬ p.Has .id) (key value : String) :
    ¬ (handleTradeTickString strtod atol p key value).1.Has .id := by
  have hmark : ∀ field, field ≠ .id → ∀ tick : TradeTick Double,
      ¬ TradeTickStreamParser.Has ({ p with mTradeTick := tick }.mark field) .id := by
    intro field hne tick
    rw [TradeTickStreamParser.has_mark_iff]
    exact fun hor => hor.elim (fun he => hne he.symm) h
  unfold handleTradeTickString
  dsimp only
  split_ifs
  · exact hmark _ (by decide) _
  · exact hmark _ (by decide) _
  · exact hmark _ (by decide) _
  · exact h

/-- The type of the stream is that of the text, and the id is never set. -/
theorem parse_spec [Zero Double] (strtod : String → Double) (atol : String → Int64)
    (msg : List Char) (text : SaxText) :
    (parse strtod atol msg text).1.mStreamType =
        (create msg : BitstampStreamParser Double).mStreamType ∧
      ¬ (parse strtod atol msg text).1.mTradeTickStreamParser.Has .id := by
  rw [parse,saxParse_fst]
  refine Handler.feed_invariant (I := fun q : BitstampStreamParser Double =>
    q.mStreamType = (create msg : BitstampStreamParser Double).mStreamType ∧
      ¬ q.mTradeTickStreamParser.Has .id) ?_
    ⟨rfl,TradeTickStreamParser.not_has_create .id⟩ text.events
  intro q e hq
  cases e with
  | string value =>
    rw [handle,string]
    split_ifs
    · exact ⟨hq.1,handleTradeTickString_not_id strtod atol hq.2 q.mKey value⟩
    · exact hq
  | _ => exact hq

end BitstampStreamParser

/-- Only complete ticks are delivered exactly of the texts, for Binance, that give every field
behind the name of a trade stream, if that is the first name of a stream; and, for Bitstamp,
that do not contain the words of a trade. -/
theorem onlyComplete_deliver_iff [Zero Double] (strtod : String → Double) (atol : String → Int64)
    (read : List Char → SaxText) (msg : List Char) :
    (OnlyComplete (BinanceStreamParser.parse strtod (read msg)).1.deliver
        (BinanceStreamParser.parse strtod (read msg)).1.mTradeTickStreamParser ↔
      BinanceStreamParser.TradeIsComplete (fun _ => False)
        (SaxEvent.keyed "" (read msg).events)) ∧
    (OnlyComplete (BitstampStreamParser.parse strtod atol msg (read msg)).1.deliver
        (BitstampStreamParser.parse strtod atol msg (read msg)).1.mTradeTickStreamParser ↔
      contains msg "\"event\":\"trade\"" = false) := by
  constructor
  · rw [BinanceStreamParser.onlyComplete_iff,BinanceStreamParser.parse,saxParse_fst,
      BinanceStreamParser.feed_none strtod rfl]
    have hfields : (BinanceStreamParser.create : BinanceStreamParser Double).mTradeTickStreamParser.Has =
        fun _ => False := by
      funext field
      exact eq_false (TradeTickStreamParser.not_has_create field)
    rw [hfields]
    exact Iff.rfl
  · obtain ⟨htype,hid⟩ := BitstampStreamParser.parse_spec strtod atol msg (read msg)
    have hcomplete : ¬ (BitstampStreamParser.parse strtod atol msg
        (read msg)).1.mTradeTickStreamParser.Complete :=
      fun h => hid (TradeTickStreamParser.complete_iff.mp h .id)
    rw [BitstampStreamParser.onlyComplete_iff,htype,BitstampStreamParser.create]
    cases hmsg : contains msg "\"event\":\"trade\"" with
    | true => exact iff_of_false (fun h => hcomplete (h rfl)) Bool.noConfusion
    | false => exact iff_of_true (fun h => MarketDataStreamType.noConfusion h) rfl

/-- A Binance message that names a trade stream and gives nothing else, and a Bitstamp trade:
both ticks are delivered, with the zeros they were built with. -/
theorem incomplete_tick_delivered :
    let read : List Char → SaxText := fun _ =>
      ⟨[.startObject,.key "stream",.string "btcusdt@trade",.endObject],false⟩
    let readTrade : List Char → SaxText := fun _ =>
      ⟨[.startObject,.key "data",.startObject,.key "id",.numberUnsigned 343272513,.endObject,
        .key "event",.string "trade",.endObject],false⟩
    let stream := "\x7b\"stream\":\"btcusdt@trade\"\x7d".toList
    let trade := "\x7b\"data\":\x7b\"id\":343272513\x7d,\"event\":\"trade\"\x7d".toList
    let binance := (BinanceStreamParser.parse String.length (read stream)).1
    let bitstamp := (BitstampStreamParser.parse String.length (fun _ => 0) trade
      (readTrade trade)).1
    (binance.deliver = some (.onTradeTick ⟨"",0,0,0⟩) ∧
      ¬ OnlyComplete binance.deliver binance.mTradeTickStreamParser) ∧
    (bitstamp.deliver = some (.onTradeTick ⟨"",0,0,0⟩) ∧
      ¬ OnlyComplete bitstamp.deliver bitstamp.mTradeTickStreamParser) := by
  intro read readTrade stream trade binance bitstamp
  have hbinance : binance.deliver = some (.onTradeTick ⟨"",0,0,0⟩) := rfl
  have hbitstamp : bitstamp.deliver = some (.onTradeTick ⟨"",0,0,0⟩) := rfl
  have hfields : ¬ binance.mTradeTickStreamParser.Complete := by decide
  have hid : ¬ bitstamp.mTradeTickStreamParser.Complete := by decide
  exact ⟨⟨hbinance,fun h => hfields (h _ hbinance)⟩,hbitstamp,fun h => hid (h _ hbitstamp)⟩

end Moboware
