import Moboware.Exchanges.TickDelivery

/-! # Decoding of trades

The events of a Binance trade in any order and among any others. The parser looks at each
event with its key and keeps a field once it is given, so the tick is the four fields, and
the callbacks ask for more until the last of them.
-/
namespace Moboware
open Library
variable {Double : Type*}

/-- The four fields of a trade as they are sent. -/
structure TradeFields where
  id : UInt64
  price : String
  volume : String
  time : UInt64

namespace BinanceStreamParser

def getTradeTick (p : BinanceStreamParser Double) : TradeTick Double :=
  p.mTradeTickStreamParser.mTradeTick

end BinanceStreamParser

namespace TradeFields
open BinanceStreamParser

/-- The event that gives the field, with its key. -/
def event (fields : TradeFields) : TradeTickFields → String × SaxEvent
  | .id => ("t",.numberUnsigned fields.id)
  | .price => ("p",.string fields.price)
  | .volume => ("q",.string fields.volume)
  | .time => ("T",.numberUnsigned fields.time)

/-- No other event gives the field. -/
def GivenOnce (fields : TradeFields) (field : TradeTickFields) (ks : List (String × SaxEvent)) :
    Prop :=
  ∃ before after, ks = before ++ fields.event field :: after ∧
    ∀ e ∈ before ++ after, ¬ Sets field e

def AllGiven (fields : TradeFields) (ks : List (String × SaxEvent)) : Prop :=
  ∀ field, fields.event field ∈ ks

/-- The field of the tick is that of the trade; the time is sent in milliseconds and kept in
nanoseconds. -/
def InTick (fields : TradeFields) (strtod : String → Double) (tick : TradeTick Double) :
    TradeTickFields → Prop
  | .id => tick.tradeId = toString fields.id.toNat
  | .price => tick.tradePrice = strtod fields.price
  | .volume => tick.tradeVolume = strtod fields.volume
  | .time => tick.tradeTime.toInt = fields.time.toNat * 1000000

/-- The fields that are set are those of the trade. -/
def Carries (fields : TradeFields) (strtod : String → Double)
    (p : TradeTickStreamParser Double) : Prop :=
  ∀ field, p.Has field → fields.InTick strtod p.mTradeTick field

variable {fields : TradeFields} {strtod : String → Double} {field : TradeTickFields}

theorem sets_event (fields : TradeFields) (field : TradeTickFields) :
    Sets field (fields.event field) := by cases field <;> rfl

theorem GivenOnce.eq_event {ks : List (String × SaxEvent)} (h : fields.GivenOnce field ks)
    {e : String × SaxEvent} (he : e ∈ ks) (hsets : Sets field e) : e = fields.event field := by
  obtain ⟨before,after,rfl,hothers⟩ := h
  by_contra hne
  refine hothers e ?_ hsets
  rw [List.mem_append,List.mem_cons] at he
  rw [List.mem_append]
  exact he.imp_right (fun hor => hor.resolve_left hne)

theorem GivenOnce.event_mem {ks : List (String × SaxEvent)} (h : fields.GivenOnce field ks) :
    fields.event field ∈ ks := by
  obtain ⟨before,after,rfl,_⟩ := h
  simp

theorem GivenOnce.of_getElem? {ks : List (String × SaxEvent)} {n : ℕ}
    (h : ks[n]? = some (fields.event field))
    (hothers : ∀ e ∈ ks.take n ++ ks.drop (n + 1), ¬ Sets field e) :
    fields.GivenOnce field ks := by
  refine ⟨ks.take n,ks.drop (n + 1),?_,hothers⟩
  obtain ⟨hn,hget⟩ := List.getElem?_eq_some_iff.mp h
  rw [← hget,← List.drop_eq_getElem_cons hn,List.take_append_drop]

theorem toInt_time {time : UInt64} (h : time.toNat * 1000000 < 2 ^ 63) :
    (time.toInt64 * 1000000).toInt = time.toNat * 1000000 := by
  have htime : time.toInt64.toInt = time.toNat := by
    rw [← Int64.toInt_toBitVec,UInt64.toBitVec_toInt64]
    apply BitVec.toInt_eq_toNat_of_lt
    rw [UInt64.toNat_toBitVec]
    omega
  have hfactor : (1000000 : Int64).toInt = 1000000 := by decide
  rw [Int64.toInt_mul,htime,hfactor]
  exact Int.bmod_eq_of_le (by omega) (by omega)

theorem inTick_tickStep_event (h : fields.time.toNat * 1000000 < 2 ^ 63)
    (p : TradeTickStreamParser Double) (field : TradeTickFields) :
    fields.InTick strtod (tickStep strtod p (fields.event field)).1.mTradeTick field := by
  cases field with
  | id => rfl
  | price => rfl
  | volume => rfl
  | time => exact toInt_time h

/-- The value that is written is left open: the time is not to be computed here. -/
theorem inTick_tradeTime_iff (h : field ≠ .time) (tick : TradeTick Double) (tradeTime : Int64) :
    fields.InTick strtod { tick with tradeTime } field ↔ fields.InTick strtod tick field := by
  cases field with
  | time => exact absurd rfl h
  | _ => exact Iff.rfl

theorem inTick_tradeId_iff (h : field ≠ .id) (tick : TradeTick Double) (tradeId : String) :
    fields.InTick strtod { tick with tradeId } field ↔ fields.InTick strtod tick field := by
  cases field with
  | id => exact absurd rfl h
  | _ => exact Iff.rfl

theorem inTick_number_iff {key : String} {value : UInt64}
    (h : ¬ Sets field (key,.numberUnsigned value)) (p : TradeTickStreamParser Double) :
    fields.InTick strtod (handleTradeTickNumber p key value).1.mTradeTick field ↔
      fields.InTick strtod p.mTradeTick field := by
  unfold handleTradeTickNumber
  dsimp only
  split_ifs with htime hid
  · rw [TradeTickStreamParser.mTradeTick_mark]
    refine inTick_tradeTime_iff ?_ _ _
    rintro rfl
    exact h htime
  · rw [TradeTickStreamParser.mTradeTick_mark]
    refine inTick_tradeId_iff ?_ _ _
    rintro rfl
    exact h hid
  · exact Iff.rfl

theorem inTick_string_iff {key value : String} (h : ¬ Sets field (key,.string value))
    (p : TradeTickStreamParser Double) :
    fields.InTick strtod (handleTradeTickString strtod p key value).1.mTradeTick field ↔
      fields.InTick strtod p.mTradeTick field := by
  unfold handleTradeTickString
  dsimp only
  split_ifs with hprice hvolume
  · rw [TradeTickStreamParser.mTradeTick_mark]
    cases field with
    | price => exact absurd hprice h
    | _ => exact Iff.rfl
  · rw [TradeTickStreamParser.mTradeTick_mark]
    cases field with
    | volume => exact absurd hvolume h
    | _ => exact Iff.rfl
  · exact Iff.rfl

/-- An event that does not give a field leaves it as it is. -/
theorem inTick_tickStep_iff {e : String × SaxEvent} (h : ¬ Sets field e)
    (p : TradeTickStreamParser Double) :
    fields.InTick strtod (tickStep strtod p e).1.mTradeTick field ↔
      fields.InTick strtod p.mTradeTick field := by
  obtain ⟨key,event⟩ := e
  cases event with
  | numberUnsigned value => exact inTick_number_iff h p
  | string value => exact inTick_string_iff h p
  | _ => exact Iff.rfl

theorem Carries.tickStep {p : TradeTickStreamParser Double} (h : fields.Carries strtod p)
    (htime : fields.time.toNat * 1000000 < 2 ^ 63) {e : String × SaxEvent}
    (he : ∀ field, Sets field e → e = fields.event field) :
    fields.Carries strtod (tickStep strtod p e).1 := by
  intro field hhas
  by_cases hsets : Sets field e
  · rw [he field hsets]
    exact inTick_tickStep_event htime p field
  · rw [inTick_tickStep_iff hsets]
    exact h field (((tickStep_has strtod p e field).mp hhas).resolve_right hsets)

/-- Whatever else is sent, the fields that are set are those of the trade. -/
theorem feed_carries (htime : fields.time.toNat * 1000000 < 2 ^ 63)
    {p : BinanceStreamParser Double} (h : p.mStreamType = .tradeTickStream)
    (hp : fields.Carries strtod p.mTradeTickStreamParser) {es : List SaxEvent}
    (hes : ∀ field, ∀ e ∈ SaxEvent.keyed p.mKey es, Sets field e → e = fields.event field) :
    fields.Carries strtod ((handle strtod).feed p es).1.mTradeTickStreamParser := by
  induction es generalizing p with
  | nil => exact hp
  | cons e es ih =>
    rcases e.eq_key_or with ⟨value,rfl⟩ | he
    · rw [Handler.feed_cons_of_true rfl]
      exact ih h hp hes
    · have hstep := handle_of_trade strtod h he
      rw [SaxEvent.keyed_cons he] at hes
      have hnext := hp.tickStep htime
        (fun field hsets => hes field (p.mKey,e) List.mem_cons_self hsets)
      cases hmore : (BinanceStreamParser.tickStep strtod p.mTradeTickStreamParser (p.mKey,e)).2 with
      | true =>
        rw [Handler.feed_cons_of_true (by rw [hstep]; exact hmore),hstep]
        exact ih h hnext (fun field f hf => hes field f (List.mem_cons_of_mem _ hf))
      | false =>
        rw [Handler.feed_cons_of_false (by rw [hstep]; exact hmore),hstep]
        exact hnext

end TradeFields

namespace BinanceStreamParser
variable (strtod : String → Double)

/-- The event that completes the tick is the one after which no more is wanted. -/
theorem tickStep_of_completes {p : TradeTickStreamParser Double} (h : ¬ p.Complete)
    {e : String × SaxEvent} (hcomplete : (tickStep strtod p e).1.Complete) :
    (tickStep strtod p e).2 = false := by
  obtain ⟨key,event⟩ := e
  cases event with
  | numberUnsigned value => exact TradeTickStreamParser.testTradeTickFields_eq_false_iff.mpr hcomplete
  | string value => exact TradeTickStreamParser.testTradeTickFields_eq_false_iff.mpr hcomplete
  | _ => exact absurd hcomplete h

/-- More is wanted up to an event of the list, which completes the tick. -/
def StopsComplete (p : BinanceStreamParser Double) (es : List SaxEvent) : Prop :=
  ∃ front e back, es = front ++ e :: back ∧ ((handle strtod).feed p front).2 = true ∧
    ¬ ((handle strtod).feed p front).1.mTradeTickStreamParser.Complete ∧
    (handle strtod ((handle strtod).feed p front).1 e).2 = false ∧
    (handle strtod ((handle strtod).feed p front).1 e).1.mTradeTickStreamParser.Complete

variable {strtod}

theorem StopsComplete.cons {p : BinanceStreamParser Double} {e : SaxEvent} {es : List SaxEvent}
    (h : StopsComplete strtod (handle strtod p e).1 es) (hmore : (handle strtod p e).2 = true) :
    StopsComplete strtod p (e :: es) := by
  obtain ⟨front,f,back,rfl,hfront⟩ := h
  refine ⟨e :: front,f,back,rfl,?_⟩
  rw [Handler.feed_cons_of_true hmore]
  exact hfront

theorem stopsComplete_of_trade {p : BinanceStreamParser Double}
    (h : p.mStreamType = .tradeTickStream) (hopen : ¬ p.mTradeTickStreamParser.Complete)
    {es : List SaxEvent} (hes : ∀ field, p.mTradeTickStreamParser.Has field ∨
      ∃ e ∈ SaxEvent.keyed p.mKey es, Sets field e) : StopsComplete strtod p es := by
  induction es generalizing p with
  | nil =>
    refine absurd (TradeTickStreamParser.complete_iff.mpr ?_) hopen
    intro field
    exact (hes field).resolve_right (fun ⟨_,hmem,_⟩ => List.not_mem_nil hmem)
  | cons e es ih =>
    rcases e.eq_key_or with ⟨value,rfl⟩ | he
    · exact (ih (p := { p with mKey := value }) h hopen hes).cons rfl
    · have hstep := handle_of_trade strtod h he
      by_cases hdone : (tickStep strtod p.mTradeTickStreamParser (p.mKey,e)).1.Complete
      · refine ⟨[],e,es,rfl,rfl,hopen,?_⟩
        rw [Handler.feed,hstep]
        exact ⟨tickStep_of_completes strtod hopen hdone,hdone⟩
      · have hmore : (tickStep strtod p.mTradeTickStreamParser (p.mKey,e)).2 = true := by
          rw [← Bool.not_eq_false]
          exact fun hfalse => hdone (tickStep_complete strtod _ _ hfalse)
        rw [SaxEvent.keyed_cons he] at hes
        refine StopsComplete.cons ?_ (by rw [hstep]; exact hmore)
        rw [hstep]
        refine ih h hdone ?_
        intro field
        rw [tickStep_has,or_assoc,← List.exists_mem_cons_iff]
        exact hes field

theorem feed_of_none {p : BinanceStreamParser Double} (h : p.mStreamType = .noneStream)
    {es : List SaxEvent} (hes : ∀ e ∈ SaxEvent.keyed p.mKey es, ¬ NamesStream e) :
    (handle strtod).feed p es = ({ p with mKey := SaxEvent.keyAfter p.mKey es },true) := by
  induction es generalizing p with
  | nil => rfl
  | cons e es ih =>
    rcases e.eq_key_or with ⟨value,rfl⟩ | he
    · rw [Handler.feed_cons_of_true rfl]
      exact ih (p := { p with mKey := value }) h hes
    · rw [SaxEvent.keyed_cons he] at hes
      have hstep := handle_of_none strtod h he (hes _ List.mem_cons_self)
      rw [Handler.feed_cons_of_true (by rw [hstep]),hstep,SaxEvent.keyAfter_cons he]
      exact ih h (fun f hf => hes f (List.mem_cons_of_mem _ hf))

end BinanceStreamParser

/-- The events of a message whose first string under the key `stream` names a trade stream, with
each field once behind it. -/
structure TradeEvents (fields : TradeFields) where
  lead : List SaxEvent
  stream : String
  rest : List SaxEvent
  keyAfter_lead : SaxEvent.keyAfter "" lead = "stream"
  first : ∀ value, ("stream",SaxEvent.string value) ∉ SaxEvent.keyed "" lead
  trade : contains stream.toList "@trade" = true
  givenOnce : ∀ field, fields.GivenOnce field (SaxEvent.keyed "stream" rest)
  time_lt : fields.time.toNat * 1000000 < 2 ^ 63

namespace TradeEvents
open BinanceStreamParser
variable {fields : TradeFields} (message : TradeEvents fields)

/-- The events up to the name of the stream, and those in `front` behind it. -/
def upTo (front : List SaxEvent) : List SaxEvent :=
  message.lead ++ .string message.stream :: front

section Run
variable [Zero Double] (strtod : String → Double)

/-- The parser right behind the name of the stream. -/
def named : BinanceStreamParser Double :=
  { (create : BinanceStreamParser Double) with mKey := "stream", mStreamType := .tradeTickStream }

theorem not_has_named (field : TradeTickFields) :
    ¬ (named : BinanceStreamParser Double).mTradeTickStreamParser.Has field :=
  TradeTickStreamParser.not_has_create field

theorem feed_upTo (front : List SaxEvent) :
    (handle strtod).feed create (message.upTo front) = (handle strtod).feed named front := by
  have hlead : (handle strtod).feed create message.lead =
      ({ (create : BinanceStreamParser Double) with mKey := "stream" },true) := by
    rw [← message.keyAfter_lead]
    refine feed_of_none rfl ?_
    rintro ⟨key,event⟩ hmem ⟨rfl,value,rfl,_⟩
    exact message.first value hmem
  have hstream : handle strtod { (create : BinanceStreamParser Double) with mKey := "stream" }
      (.string message.stream) = (named,true) := by
    rw [handle_string,string,if_pos ⟨rfl,rfl⟩,
      (streamTypeOf_eq_trade_iff _).mpr message.trade]
    rfl
  rw [upTo,Handler.feed_append_of_true (congrArg Prod.snd hlead),hlead,
    Handler.feed_cons_of_true (congrArg Prod.snd hstream),hstream]

theorem exists_sets_iff {front back : List SaxEvent} (h : message.rest = front ++ back)
    (field : TradeTickFields) :
    (∃ e ∈ SaxEvent.keyed "stream" front, Sets field e) ↔
      fields.event field ∈ SaxEvent.keyed "stream" front := by
  constructor
  · rintro ⟨e,he,hsets⟩
    have hmem : e ∈ SaxEvent.keyed "stream" message.rest := by
      rw [h,SaxEvent.keyed_append]
      exact List.mem_append_left _ he
    rw [← (message.givenOnce field).eq_event hmem hsets]
    exact he
  · exact fun he => ⟨_,he,TradeFields.sets_event fields field⟩

theorem complete_iff_allGiven {front back : List SaxEvent} (h : message.rest = front ++ back) :
    ((handle strtod).feed named front).1.mTradeTickStreamParser.Complete ↔
      fields.AllGiven (SaxEvent.keyed "stream" front) := by
  rw [(feed_trade strtod (p := named) rfl front).2]
  refine forall_congr' ?_
  intro field
  rw [or_iff_right (not_has_named field)]
  exact message.exists_sets_iff h field

theorem carries_feed (front : List SaxEvent) {back : List SaxEvent}
    (h : message.rest = front ++ back) :
    fields.Carries strtod ((handle strtod).feed named front).1.mTradeTickStreamParser := by
  refine TradeFields.feed_carries message.time_lt rfl ?_ ?_
  · exact fun field hhas => absurd hhas (not_has_named field)
  · intro field e he hsets
    refine (message.givenOnce field).eq_event ?_ hsets
    rw [h,SaxEvent.keyed_append]
    exact List.mem_append_left _ he

/-- The callbacks ask for more until the event that gives the last of the four fields and for
no more then; the rest is dropped, and the tick has the values of the fields. -/
theorem tradeTick_decoded :
    ∃ front e back, message.rest = front ++ e :: back ∧
      ¬ fields.AllGiven (SaxEvent.keyed "stream" front) ∧
      fields.AllGiven (SaxEvent.keyed "stream" (front ++ [e])) ∧
      ((handle strtod).feed create (message.upTo front)).2 = true ∧
      (handle strtod ((handle strtod).feed create (message.upTo front)).1 e).2 = false ∧
      (handle strtod).feed create (message.upTo message.rest) =
        ((handle strtod ((handle strtod).feed create (message.upTo front)).1 e).1,false) ∧
      ∀ field, fields.InTick strtod
        (handle strtod ((handle strtod).feed create (message.upTo front)).1 e).1.getTradeTick
        field := by
  have hstops : StopsComplete strtod named message.rest := by
    refine stopsComplete_of_trade rfl ?_ ?_
    · exact fun h => not_has_named .id (TradeTickStreamParser.complete_iff.mp h .id)
    · exact fun field => Or.inr ⟨_,(message.givenOnce field).event_mem,
        TradeFields.sets_event fields field⟩
  obtain ⟨front,e,back,hrest,hmore,hopen,hstop,hcomplete⟩ := hstops
  have hlast : ((handle strtod).feed named (front ++ [e])).1 =
      (handle strtod ((handle strtod).feed named front).1 e).1 := by
    rw [Handler.feed_append_of_true hmore,Handler.feed_cons_of_false hstop]
  have hrest' : message.rest = (front ++ [e]) ++ back := by
    rw [hrest,List.append_assoc,List.singleton_append]
  refine ⟨front,e,back,hrest,?_,?_,?_⟩
  · rwa [← message.complete_iff_allGiven strtod hrest]
  · rwa [← message.complete_iff_allGiven strtod hrest',hlast]
  · rw [feed_upTo,feed_upTo]
    refine ⟨hmore,hstop,?_,?_⟩
    · rw [hrest,Handler.feed_append_of_true hmore,Handler.feed_cons_of_false hstop]
    intro field
    have hcarries := message.carries_feed strtod (front ++ [e]) hrest'
    rw [hlast] at hcarries
    exact hcarries field (TradeTickStreamParser.complete_iff.mp hcomplete field)

end Run

/-- The trade of the demo of the parser. -/
def demo : TradeEvents ⟨12345,"0.001","100",1672515782136⟩ where
  lead := [.startObject,.key "stream"]
  stream := "btcusdt@trade"
  rest := [.key "data",.startObject,.key "e",.string "trade",.key "E",
    .numberUnsigned 1672515782136,.key "s",.string "BTCUSDT",.key "t",.numberUnsigned 12345,
    .key "p",.string "0.001",.key "q",.string "100",.key "b",.numberUnsigned 88,.key "a",
    .numberUnsigned 50,.key "T",.numberUnsigned 1672515782136,.key "m",.boolean true,.key "M",
    .boolean true,.endObject,.endObject]
  keyAfter_lead := rfl
  first value := by simp [SaxEvent.keyed]
  trade := by decide
  givenOnce field := by
    cases field with
    | id => exact .of_getElem? (n := 4) rfl (by simp [Sets,SaxEvent.keyed])
    | price => exact .of_getElem? (n := 5) rfl (by simp [Sets,SaxEvent.keyed])
    | volume => exact .of_getElem? (n := 6) rfl (by simp [Sets,SaxEvent.keyed])
    | time => exact .of_getElem? (n := 9) rfl (by simp [Sets,SaxEvent.keyed])
  time_lt := by decide

theorem tradeTick_decoded_demo :
    let parsed := (handle String.length).feed create (demo.upTo demo.rest)
    parsed.2 = false ∧ ∀ field, TradeFields.InTick ⟨12345,"0.001","100",1672515782136⟩
      String.length parsed.1.getTradeTick field := by
  obtain ⟨_,_,_,_,_,_,_,_,hfeed,htick⟩ := tradeTick_decoded demo String.length
  intro parsed
  have hparsed : parsed = _ := hfeed
  rw [hparsed]
  exact ⟨rfl,htick⟩

example : ((handle String.length).feed create (demo.upTo demo.rest)).1.getTradeTick =
    ⟨"12345",5,3,1672515782136000000⟩ := rfl

end TradeEvents
end Moboware
