import Moboware.Library.JsonPasting
import Moboware.MatchingEngine.Engine
import Moboware.OrderRequests.OrderDecoding

/-! # The texts of the messages

The message construction operators, which build JSON from literal braces and quotes
around the fields. A reply is read back exactly when its two strings need no escape;
no trade and no error is.
-/
namespace Moboware
open Library

namespace Fields

def tradedPrice : String := "TradedPrice"
def tradedVolume : String := "TradedVolume"
def error : String := "Error"
def trade : String := "Trade"
def orderReply : String := "OrderReply"
def errorReply : String := "ErrorReply"

end Fields

/-- The `operator<<` of `std::ostringstream`, as the two below. -/
def OrderReply.text (orderReply : OrderReply) : String :=
  "\x7b\"" ++ Fields.orderReply ++
    "\":\x7b\"" ++ Fields.id ++ "\":\"" ++ orderReply.id ++ "\"" ++
    ",\"" ++ Fields.clientId ++ "\":\"" ++ orderReply.clientId ++
    "\"\x7d\x7d"

def Trade.text (trade : Trade) : String :=
  "\x7b\"" ++ Fields.trade ++ "\":" ++
    ",\"" ++ Fields.id ++ "\":\"" ++ trade.id ++ "\"" ++
    "\x7b\"" ++ Fields.clientId ++ "\":\"" ++ trade.clientId ++ "\"" ++
    ",\"" ++ Fields.account ++ "\":\"" ++ trade.account ++ "\"" ++
    ",\"" ++ Fields.tradedPrice ++ "\":" ++ toString trade.tradedPrice.toNat ++
    ",\"" ++ Fields.tradedVolume ++ "\":" ++ toString trade.tradedVolume.toNat ++
    "\x7d" ++
    "\x7d"

def ErrorReply.text (errorReply : ErrorReply) : String :=
  "\x7b\"" ++ Fields.errorReply ++
    "\":\x7b\"" ++ Fields.clientId ++ "\":\"" ++ errorReply.clientId ++
    "\",\"" ++ Fields.error ++ "\":" ++ errorReply.errorMessage ++
    "\x7d\x7d"

/-- `CreateAndSendMessage`: the bytes it sends. -/
def Message.text : Message → String
  | .orderReply r => r.text
  | .trade t => t.text
  | .errorReply r => r.text

/-- No quote, no backslash and no control character. -/
def NeedsNoEscape (s : String) : Prop := Json.Plain s.toList

instance (s : String) : Decidable (NeedsNoEscape s) := inferInstanceAs (Decidable (Json.Plain _))

section Texts
open Json

theorem OrderReply.toList_text (orderReply : OrderReply) : orderReply.text.toList =
    '{' :: keyed Fields.orderReply ('{' :: keyed Fields.id (pasted orderReply.id
      (',' :: keyed Fields.clientId (pasted orderReply.clientId ['}','}'])))) := by
  unfold text
  simp only [String.toList_append,keyed,pasted,List.append_assoc,String.reduceToList,
    List.cons_append,List.nil_append]

/-- The colon of `Trade` is followed by a comma. -/
theorem Trade.toList_text (trade : Trade) : ∃ u, trade.text.toList =
    '{' :: keyed Fields.trade (',' :: u) := by
  unfold text
  generalize toString trade.tradedPrice.toNat = price
  generalize toString trade.tradedVolume.toNat = volume
  simp only [String.toList_append,keyed,pasted,List.append_assoc,String.reduceToList,
    List.cons_append,List.nil_append]
  exact ⟨_,rfl⟩

/-- The error message stands without quotes. -/
theorem ErrorReply.toList_text (errorReply : ErrorReply) : errorReply.text.toList =
    '{' :: keyed Fields.errorReply ('{' :: keyed Fields.clientId (pasted errorReply.clientId
      (',' :: keyed Fields.error (errorReply.errorMessage.toList ++ ['}','}'])))) := by
  unfold text
  simp only [String.toList_append,keyed,pasted,List.append_assoc,String.reduceToList,
    List.cons_append,List.nil_append]

/-- What the text of a reply is to be read as. -/
def OrderReply.document (orderReply : OrderReply) : Json :=
  object [(Fields.orderReply,object [(Fields.id,string orderReply.id),
    (Fields.clientId,string orderReply.clientId)])]

/-- A reply is read back as its document exactly when neither string needs an escape. -/
theorem reply_roundTrip_iff (orderReply : OrderReply) :
    decode orderReply.text = some orderReply.document ↔
      NeedsNoEscape orderReply.id ∧ NeedsNoEscape orderReply.clientId := by
  have hreply : Plain Fields.orderReply.toList := by decide
  have hid : Plain Fields.id.toList := by decide
  have hclient : Plain Fields.clientId.toList := by decide
  obtain ⟨n,hdecode⟩ := decode_iff_of_le 6 orderReply.toList_text
    (by rw [List.length_cons,length_keyed,List.length_cons,length_keyed]; omega)
  have hinner (rest : List Char) : value (n + 4) ('{' :: keyed Fields.id (pasted orderReply.id
      (',' :: keyed Fields.clientId (pasted orderReply.clientId ['}','}'])))) =
        some (object [(Fields.id,string orderReply.id),
          (Fields.clientId,string orderReply.clientId)],rest) ↔
      (NeedsNoEscape orderReply.id ∧ NeedsNoEscape orderReply.clientId) ∧ rest = ['}'] := by
    rw [value_keyed_iff,members_pasted_comma_iff hid,members_close_iff hclient,and_assoc]
    refine and_congr_right (fun _ => ?_)
    simp only [value_pasted_iff,and_assoc,exists_and_left,exists_eq_left]
    refine and_congr_right (fun _ => ?_)
    rw [token_self rfl,Option.some.injEq,eq_comm]
  rw [hdecode,OrderReply.document]
  simp only [value_keyed_iff,members_close_iff hreply,hinner]
  constructor
  · rintro ⟨_,⟨_,⟨h,_⟩,_⟩,_⟩
    exact h
  · exact fun h => ⟨[],⟨['}'],⟨h,rfl⟩,token_self rfl⟩,rfl⟩

/-- A client id with quotes in it puts a second id into its reply. -/
def forgedReply : OrderReply := ⟨"1","a\",\"Id\":\"2"⟩

theorem forgedReply_toList_text : forgedReply.text.toList =
    '{' :: keyed Fields.orderReply ('{' :: keyed Fields.id (pasted "1"
      (',' :: keyed Fields.clientId (pasted "a" (',' :: keyed Fields.id
        (pasted "2" ['}','}'])))))) := by
  rw [OrderReply.toList_text]
  simp only [forgedReply,Fields.id,keyed,pasted,String.reduceToList,List.cons_append,List.nil_append]

theorem forgedReply_not_roundTrip :
    decode forgedReply.text = some (object [(Fields.orderReply,object [(Fields.id,string "1"),
      (Fields.clientId,string "a"),(Fields.id,string "2")])]) ∧
    decode forgedReply.text ≠ some forgedReply.document := by
  have hdecode : decode forgedReply.text = some (object [(Fields.orderReply,
      object [(Fields.id,string "1"),(Fields.clientId,string "a"),(Fields.id,string "2")])]) := by
    obtain ⟨n,hdecode⟩ := decode_iff_of_le 7 forgedReply_toList_text
      (by rw [List.length_cons,length_keyed,List.length_cons,length_keyed]; omega)
    rw [hdecode]
    simp only [value_keyed_iff,members_close_iff (by decide : Plain Fields.orderReply.toList),
      members_pasted_comma_iff (by decide : Plain Fields.id.toList),
      members_pasted_comma_iff (by decide : Plain Fields.clientId.toList),
      members_close_iff (by decide : Plain Fields.id.toList),value_pasted_iff]
    exact ⟨[],⟨['}'],⟨by decide,by decide,_,⟨by decide,rfl⟩,token_self rfl⟩,token_self rfl⟩,rfl⟩
  refine ⟨hdecode,?_⟩
  rw [hdecode]
  simp [OrderReply.document]

/-- A trade is given back when its text has a document with every field in its place. -/
def Trade.GivenBack (trade : Trade) : Prop :=
  ∃ document body, decode trade.text = some document ∧
    document.member? Fields.trade = some body ∧
    body.member? Fields.id = some (string trade.id) ∧
    body.member? Fields.clientId = some (string trade.clientId) ∧
    body.member? Fields.account = some (string trade.account) ∧
    body.member? Fields.tradedPrice = some (number (toString trade.tradedPrice.toNat)) ∧
    body.member? Fields.tradedVolume = some (number (toString trade.tradedVolume.toNat))

def ErrorReply.GivenBack (errorReply : ErrorReply) : Prop :=
  ∃ document body, decode errorReply.text = some document ∧
    document.member? Fields.errorReply = some body ∧
    body.member? Fields.clientId = some (string errorReply.clientId) ∧
    body.member? Fields.error = some (string errorReply.errorMessage)

/-- The text of a trade is no document at all. -/
theorem decode_trade (trade : Trade) : decode trade.text = none := by
  have htrade : Plain Fields.trade.toList := by decide
  obtain ⟨u,hu⟩ := trade.toList_text
  obtain ⟨n,hdecode⟩ := decode_iff_of_le 3 hu (by rw [List.length_cons,length_keyed]; omega)
  have hcomma : value (n + 1) (',' :: u) = none := by
    simp [value,token,skip,isSpace,scalar,word,numeral,sign,integer,digits,isDigit]
  rw [Option.eq_none_iff_forall_ne_some]
  intro document h
  obtain ⟨rest,hv,_⟩ := (hdecode document).mp h
  rw [value_keyed,Option.map_eq_some_iff] at hv
  obtain ⟨⟨ms,rest'⟩,hms,_⟩ := hv
  obtain ⟨v,_,_,hv,_⟩ := (members_keyed_iff htrade).mp hms
  rw [hcomma] at hv
  cases hv

/-- The message of an error is not read back as a string: there is no quote before it. -/
theorem error_not_givenBack {errorReply : ErrorReply} (hclient : NeedsNoEscape errorReply.clientId)
    (herror : NeedsNoEscape errorReply.errorMessage) : ¬ errorReply.GivenBack := by
  have hreplyKey : Plain Fields.errorReply.toList := by decide
  have hclientKey : Plain Fields.clientId.toList := by decide
  have herrorKey : Plain Fields.error.toList := by decide
  obtain ⟨n,hdecode⟩ := decode_iff_of_le 6 errorReply.toList_text
    (by rw [List.length_cons,length_keyed,List.length_cons,length_keyed]; omega)
  rintro ⟨document,body,hdocument,hbody,_,hmessage⟩
  obtain ⟨rest,hv,_⟩ := (hdecode document).mp hdocument
  rw [value_keyed,Option.map_eq_some_iff] at hv
  obtain ⟨⟨outer,rest'⟩,houter,he⟩ := hv
  cases he
  obtain ⟨v,cs,_,hv,rfl,_⟩ := (members_keyed_iff hreplyKey).mp houter
  have hvbody : v = body := by simpa [member?] using hbody
  subst hvbody
  rw [value_keyed,Option.map_eq_some_iff] at hv
  obtain ⟨⟨inner,cs'⟩,hinner,he⟩ := hv
  cases he
  obtain ⟨w,_,ms,hw,rfl,hmore⟩ := (members_keyed_iff hclientKey).mp hinner
  obtain ⟨rfl,rfl⟩ := value_pasted_of_plain hclient hw
  have hcomma : token ',' (',' :: keyed Fields.error (errorReply.errorMessage.toList ++ ['}','}'])) =
    some (keyed Fields.error (errorReply.errorMessage.toList ++ ['}','}'])) := token_self rfl
  rw [hcomma] at hmore
  obtain ⟨_,he,herrors⟩ := hmore.resolve_right (fun h => absurd h.1 (by simp))
  cases he
  obtain ⟨x,_,_,hx,rfl,_⟩ := (members_keyed_iff herrorKey).mp herrors
  have hstring : x = string errorReply.errorMessage := by
    simpa [member?,Fields.clientId,Fields.error] using hmessage
  subst hstring
  have hmem := mem_of_value_string hx
  simp only [List.mem_append,List.mem_cons,List.not_mem_nil,or_false] at hmem
  rcases hmem with hmem | hmem | hmem
  · exact (herror _ hmem).1 rfl
  · exact absurd hmem (by decide)
  · exact absurd hmem (by decide)

/-- No trade is given back, and no error whose strings need no escape. -/
theorem trades_and_errors_not_givenBack (trade : Trade) {errorReply : ErrorReply}
    (hclient : NeedsNoEscape errorReply.clientId)
    (herror : NeedsNoEscape errorReply.errorMessage) :
    ¬ trade.GivenBack ∧ ¬ errorReply.GivenBack := by
  refine ⟨?_,error_not_givenBack hclient herror⟩
  rintro ⟨document,_,h,_⟩
  rw [decode_trade] at h
  cases h

theorem trades_and_errors_not_givenBack_sent :
    ¬ Trade.GivenBack ⟨"mobo",50,10,"1","clientId=1"⟩ ∧
      ¬ ErrorReply.GivenBack ⟨"clientId=1","Failed to insert order"⟩ :=
  trades_and_errors_not_givenBack _ (by decide) (by decide)

/-- The trade that the engine sends for ten lots at fifty. -/
theorem sentTrade_not_givenBack : decode (Trade.text ⟨"mobo",50,10,"1","clientId=1"⟩) = none ∧
    ¬ ErrorReply.GivenBack ⟨"clientId=1","Failed to insert order"⟩ :=
  ⟨decode_trade _,error_not_givenBack (by decide) (by decide)⟩

end Texts

end Moboware
