import Moboware.Exchanges.TickDelivery

/-! # Decoding of Bitstamp trades

The fields that come as strings find their way into the tick, each as the last string under
its key. The id comes as a number, and numbers go nowhere.
-/
namespace Moboware
open Library
variable {Double : Type*}

/-- The four fields of a trade as they are sent. -/
structure BitstampTradeFields where
  id : UInt64
  priceStr : String
  amountStr : String
  microtimestamp : String

namespace BitstampTradeFields

def keyOf : TradeTickFields → String
  | .id => "id"
  | .price => "price_str"
  | .volume => "amount_str"
  | .time => "microtimestamp"

def value (fields : BitstampTradeFields) : TradeTickFields → SaxValue
  | .id => .numberUnsigned fields.id
  | .price => .string fields.priceStr
  | .volume => .string fields.amountStr
  | .time => .string fields.microtimestamp

/-- The field of the tick is that of the trade; the time is sent in microseconds and kept in
nanoseconds. -/
def InTick (fields : BitstampTradeFields) (strtod : String → Double) (atol : String → Int64)
    (tick : TradeTick Double) : TradeTickFields → Prop
  | .id => tick.tradeId = toString fields.id.toNat
  | .price => tick.tradePrice = strtod fields.priceStr
  | .volume => tick.tradeVolume = strtod fields.amountStr
  | .time => tick.tradeTime = atol fields.microtimestamp * 1000

/-- The members of an object have the field once. -/
def GivenOnce (fields : BitstampTradeFields) (members : List (String × SaxValue))
    (field : TradeTickFields) : Prop :=
  ∃ before after, members = before ++ (keyOf field,fields.value field) :: after ∧
    ∀ member ∈ before ++ after, member.1 ≠ keyOf field

theorem GivenOnce.of_getElem? {fields : BitstampTradeFields} {members : List (String × SaxValue)}
    {field : TradeTickFields} {n : ℕ} (h : members[n]? = some (keyOf field,fields.value field))
    (hothers : ∀ member ∈ members.take n ++ members.drop (n + 1), member.1 ≠ keyOf field) :
    fields.GivenOnce members field := by
  refine ⟨members.take n,members.drop (n + 1),?_,hothers⟩
  obtain ⟨hn,hget⟩ := List.getElem?_eq_some_iff.mp h
  rw [← hget,← List.drop_eq_getElem_cons hn,List.take_append_drop]

end BitstampTradeFields

namespace BitstampStreamParser
open BitstampTradeFields SaxEvent
variable (strtod : String → Double) (atol : String → Int64)

def getTradeTick (p : BitstampStreamParser Double) : TradeTick Double :=
  p.mTradeTickStreamParser.mTradeTick

theorem handle_string (p : BitstampStreamParser Double) (value : String) :
    handle strtod atol p (.string value) = p.string strtod atol value := rfl

/-- The tick with the fields that are given; there is none for the id. -/
def updated (tick : TradeTick Double) (given : String → Option String) : TradeTick Double :=
  { tick with
    tradePrice := (given "price_str").elim tick.tradePrice strtod
    tradeVolume := (given "amount_str").elim tick.tradeVolume strtod
    tradeTime := (given "microtimestamp").elim tick.tradeTime (fun value => atol value * 1000) }

theorem updated_updated (tick : TradeTick Double) (given later : String → Option String) :
    updated strtod atol (updated strtod atol tick given) later =
      updated strtod atol tick (fun key => (later key).or (given key)) := by
  unfold updated
  dsimp only
  cases later "price_str" <;> cases later "amount_str" <;> cases later "microtimestamp" <;> rfl

theorem mTradeTick_handleTradeTickString (p : TradeTickStreamParser Double) (k value : String) :
    (handleTradeTickString strtod atol p k value).1.mTradeTick =
      updated strtod atol p.mTradeTick (fun key => stringUnder key (k,.string value)) := by
  unfold handleTradeTickString updated
  dsimp only [stringUnder]
  by_cases hprice : k = "price_str"
  · subst hprice
    rfl
  by_cases hvolume : k = "amount_str"
  · subst hvolume
    rfl
  by_cases htime : k = "microtimestamp"
  · subst htime
    rfl
  simp only [if_neg hprice,if_neg hvolume,if_neg htime,Option.elim_none]

/-- What no event changes: the type of the stream, and that there is no id. -/
def WithoutId (p : BitstampStreamParser Double) : Prop :=
  p.mStreamType = .tradeTickStream ∧ ¬ p.mTradeTickStreamParser.Has .id

/-- More is wanted always, and the tick takes the strings under its keys. -/
theorem WithoutId.handle {p : BitstampStreamParser Double} (h : p.WithoutId) {e : SaxEvent}
    (he : ∀ value, e ≠ .key value) :
    (handle strtod atol p e).1.WithoutId ∧ (BitstampStreamParser.handle strtod atol p e).2 = true ∧
      (BitstampStreamParser.handle strtod atol p e).1.mKey = p.mKey ∧
      (BitstampStreamParser.handle strtod atol p e).1.getTradeTick =
        updated strtod atol p.getTradeTick (fun key => stringUnder key (p.mKey,e)) := by
  cases e with
  | key value => exact absurd rfl (he value)
  | string value =>
    have hid := handleTradeTickString_not_id strtod atol h.2 p.mKey value
    have hmore : (handleTradeTickString strtod atol p.mTradeTickStreamParser p.mKey value).2 =
        true := by
      rw [← Bool.not_eq_false]
      intro hdone
      rw [handleTradeTickString,TradeTickStreamParser.testTradeTickFields_eq_false_iff] at hdone
      exact hid (TradeTickStreamParser.complete_iff.mp hdone .id)
    rw [handle_string,string,if_pos h.1]
    exact ⟨⟨h.1,hid⟩,hmore,rfl,mTradeTick_handleTradeTickString strtod atol _ _ _⟩
  | _ => exact ⟨h,rfl,rfl,rfl⟩

/-- Whatever the events of a trade are, the tick is what the last strings under the three keys
give, and the callbacks ask for more to the end. -/
theorem WithoutId.feed {p : BitstampStreamParser Double} (h : p.WithoutId) (es : List SaxEvent) :
    ((BitstampStreamParser.handle strtod atol).feed p es).2 = true ∧
      ((BitstampStreamParser.handle strtod atol).feed p es).1.getTradeTick =
        updated strtod atol p.getTradeTick
          (fun key => lastUnder key (SaxEvent.keyed p.mKey es)) := by
  induction es generalizing p with
  | nil => exact ⟨rfl,rfl⟩
  | cons e es ih =>
    rcases e.eq_key_or with ⟨value,rfl⟩ | he
    · rw [Handler.feed_cons_of_true rfl]
      exact ih (p := { p with mKey := value }) h
    · obtain ⟨hnext,hmore,hkey,htick⟩ := h.handle strtod atol he
      rw [Handler.feed_cons_of_true hmore,SaxEvent.keyed_cons he]
      simp only [lastUnder_cons]
      rw [← updated_updated,← htick,← hkey]
      exact ih hnext

theorem withoutId_create [Zero Double] {msg : List Char}
    (h : contains msg "\"event\":\"trade\"" = true) :
    (create msg : BitstampStreamParser Double).WithoutId := by
  refine ⟨?_,TradeTickStreamParser.not_has_create .id⟩
  rw [create,if_pos h]

theorem inTick_updated {fields : BitstampTradeFields} {tick : TradeTick Double}
    {given : String → Option String} {field : TradeTickFields} {value : String}
    (hvalue : fields.value field = .string value) (hgiven : given (keyOf field) = some value) :
    fields.InTick strtod atol (updated strtod atol tick given) field := by
  cases field with
  | id => exact absurd hvalue SaxValue.noConfusion
  | price =>
    rw [← SaxValue.string.inj hvalue] at hgiven
    exact congrArg (fun text => text.elim tick.tradePrice strtod) hgiven
  | volume =>
    rw [← SaxValue.string.inj hvalue] at hgiven
    exact congrArg (fun text => text.elim tick.tradeVolume strtod) hgiven
  | time =>
    rw [← SaxValue.string.inj hvalue] at hgiven
    exact congrArg (fun text => text.elim tick.tradeTime (fun value => atol value * 1000)) hgiven

end BitstampStreamParser

/-- A trade: its text, the members of the text, and those of its `data` with the four fields
once each. -/
structure BitstampTradeMessage (fields : BitstampTradeFields) where
  msg : List Char
  members : List (String × SaxValue)
  data : List (String × SaxValue)
  trade : contains msg "\"event\":\"trade\"" = true
  data_mem : ("data",.object data) ∈ members
  givenOnce : ∀ field, fields.GivenOnce data field

namespace BitstampTradeMessage
open BitstampTradeFields BitstampStreamParser SaxEvent
variable [Zero Double] (strtod : String → Double) (atol : String → Int64)
variable {fields : BitstampTradeFields} (message : BitstampTradeMessage fields)

/-- The tick after the events of the members. -/
def tradeTick : TradeTick Double :=
  ((handle strtod atol).feed (create message.msg)
    (SaxValue.object message.members).events).1.getTradeTick

theorem tradeTick_eq : message.tradeTick strtod atol = updated strtod atol ⟨"",0,0,0⟩
    (fun key => lastUnder key (SaxEvent.keyed "" (SaxValue.object message.members).events)) :=
  ((withoutId_create message.trade).feed strtod atol _).2

/-- A field that comes as a string is that of the trade where no later string has its key. -/
theorem inTick_of_lastUnder {field : TradeTickFields} {value : String}
    (hvalue : fields.value field = .string value)
    (hlast : lastUnder (keyOf field) (SaxEvent.keyed "" (SaxValue.object message.members).events) =
      some value) : fields.InTick strtod atol (message.tradeTick strtod atol) field := by
  rw [tradeTick_eq]
  exact inTick_updated strtod atol hvalue hlast

/-- No trade is decoded: the id stays empty, and the text of a number is not. -/
theorem tradeTick_not_decoded : ¬ ∀ field, fields.InTick strtod atol (message.tradeTick strtod atol) field := by
  intro h
  have hid : (message.tradeTick strtod atol).tradeId = fields.id.toNat.repr := h .id
  rw [tradeTick_eq] at hid
  exact Nat.repr_ne_empty hid.symm

/-- The trade of the comment on the parser, with the text cut down to its four fields. -/
def documented : BitstampTradeMessage
    ⟨343272513,"69431","0.00051000","1717840425928000"⟩ where
  msg := ("\x7b\"data\":\x7b\"id\":343272513,\"amount_str\":\"0.00051000\"," ++
    "\"price_str\":\"69431\",\"microtimestamp\":\"1717840425928000\"\x7d," ++
    "\"channel\":\"live_trades_btcusd\",").toList ++ "\"event\":\"trade\"".toList ++ "\x7d".toList
  members := [("data",.object [("id",.numberUnsigned 343272513),
      ("amount_str",.string "0.00051000"),("price_str",.string "69431"),
      ("microtimestamp",.string "1717840425928000")]),
    ("channel",.string "live_trades_btcusd"),("event",.string "trade")]
  data := [("id",.numberUnsigned 343272513),("amount_str",.string "0.00051000"),
    ("price_str",.string "69431"),("microtimestamp",.string "1717840425928000")]
  trade := decide_eq_true ⟨_,_,rfl⟩
  data_mem := List.mem_cons_self
  givenOnce field := by
    cases field with
    | id => exact .of_getElem? (n := 0) rfl (by decide)
    | price => exact .of_getElem? (n := 2) rfl (by decide)
    | volume => exact .of_getElem? (n := 1) rfl (by decide)
    | time => exact .of_getElem? (n := 3) rfl (by decide)

theorem documented_not_decoded :
    documented.tradeTick String.length (fun _ => 1717840425928000) =
        ⟨"",5,10,1717840425928000 * 1000⟩ ∧
      ¬ ∀ field, BitstampTradeFields.InTick ⟨343272513,"69431","0.00051000","1717840425928000"⟩
        String.length (fun _ => 1717840425928000)
        (documented.tradeTick String.length (fun _ => 1717840425928000)) field := by
  have htick : documented.tradeTick String.length (fun _ => 1717840425928000) =
      ⟨"",5,10,1717840425928000 * 1000⟩ := by
    rw [tradeTick_eq]
    rfl
  refine ⟨htick,fun h => ?_⟩
  have hid : (documented.tradeTick String.length (fun _ => 1717840425928000)).tradeId =
      toString (343272513 : UInt64).toNat := h .id
  rw [htick] at hid
  exact absurd hid (by decide)

end BitstampTradeMessage
end Moboware
