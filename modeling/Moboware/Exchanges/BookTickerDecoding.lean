import Moboware.Exchanges.TradeDecoding

/-! # What a Binance message is delivered as

The first string under `stream` that names a stream decides it, and the events behind it give
the fields. The best bid and offer is made of the last strings under its four keys.
-/
namespace Moboware
open Library
variable {Double : Type*}

namespace BinanceStreamParser
open SaxEvent

/-- The first stream that is named, and the events behind its name. -/
def firstStream : List (String × SaxEvent) → MarketDataStreamType × List (String × SaxEvent)
  | [] => (.noneStream,[])
  | (key,.string value) :: ks =>
    if key = "stream" ∧ streamTypeOf value.toList ≠ .noneStream then
      (streamTypeOf value.toList,ks)
    else firstStream ks
  | _ :: ks => firstStream ks

theorem firstStream_cons_of_not {e : String × SaxEvent} (h : ¬ NamesStream e)
    (ks : List (String × SaxEvent)) : firstStream (e :: ks) = firstStream ks := by
  obtain ⟨key,event⟩ := e
  cases event with
  | string value =>
    rw [firstStream,if_neg]
    rintro ⟨rfl,hvalue⟩
    exact h ⟨rfl,value,rfl,hvalue⟩
  | _ => rfl

/-- Up to the name of a stream nothing is taken from the events; then they go to a parser that
knows its stream. -/
theorem feed_firstStream (strtod : String → Double) {p : BinanceStreamParser Double}
    (h : p.mStreamType = .noneStream) (es : List SaxEvent) :
    let named := firstStream (SaxEvent.keyed p.mKey es)
    (named.1 = .noneStream ∧ ((handle strtod).feed p es).1.mStreamType = .noneStream) ∨
      ∃ rest, named.1 ≠ .noneStream ∧ named.2 = SaxEvent.keyed "stream" rest ∧
        (handle strtod).feed p es =
          (handle strtod).feed { p with mKey := "stream", mStreamType := named.1 } rest := by
  induction es generalizing p with
  | nil => exact Or.inl ⟨rfl,h⟩
  | cons e es ih =>
    rcases e.eq_key_or with ⟨value,rfl⟩ | he
    · rw [Handler.feed_cons_of_true rfl]
      exact ih (p := { p with mKey := value }) h
    · rw [SaxEvent.keyed_cons he]
      by_cases hnames : NamesStream (p.mKey,e)
      · obtain ⟨hkey,value,rfl,htype⟩ := hnames
        have hfirst : firstStream ((p.mKey,.string value) :: SaxEvent.keyed p.mKey es) =
            (streamTypeOf value.toList,SaxEvent.keyed p.mKey es) := if_pos ⟨hkey,htype⟩
        have hstep : handle strtod p (.string value) =
            ({ p with mStreamType := streamTypeOf value.toList },true) := by
          rw [handle_string,string,if_pos ⟨h,hkey⟩]
        right
        refine ⟨es,by rw [hfirst]; exact htype,by rw [hfirst,← hkey],?_⟩
        rw [Handler.feed_cons_of_true (congrArg Prod.snd hstep),hstep,hfirst,← hkey]
      · have hstep := handle_of_none strtod h he hnames
        rw [firstStream_cons_of_not hnames,Handler.feed_cons_of_true (congrArg Prod.snd hstep),
          hstep]
        exact ih h

/-- The type of the stream at the end of a text is that of the first one named. -/
theorem streamType_feed (strtod : String → Double) {p : BinanceStreamParser Double}
    (h : p.mStreamType = .noneStream) (es : List SaxEvent) :
    ((handle strtod).feed p es).1.mStreamType = (firstStream (SaxEvent.keyed p.mKey es)).1 := by
  rcases feed_firstStream strtod h es with ⟨hnone,hfeed⟩ | ⟨rest,hne,_,hfeed⟩
  · rw [hnone,hfeed]
  · rw [hfeed]
    exact feed_streamType strtod hne rest

/-! ### The best bid and offer -/

/-- The offer with the fields that are given. -/
def quoted (strtod : String → Double) (bbo : TopOfTheBook Double) (given : String → Option String) :
    TopOfTheBook Double where
  bidPrice := (given "b").elim bbo.bidPrice strtod
  bidVolume := (given "B").elim bbo.bidVolume strtod
  askPrice := (given "a").elim bbo.askPrice strtod
  askVolume := (given "A").elim bbo.askVolume strtod

theorem quoted_quoted (strtod : String → Double) (bbo : TopOfTheBook Double)
    (given later : String → Option String) :
    quoted strtod (quoted strtod bbo given) later =
      quoted strtod bbo (fun key => (later key).or (given key)) := by
  unfold quoted
  dsimp only
  cases later "b" <;> cases later "B" <;> cases later "a" <;> cases later "A" <;> rfl

theorem mBestBidOffer_handleBookTicker (strtod : String → Double)
    (p : BookTickerStreamParser Double) (k value : String) :
    (p.handleBookTicker strtod k value).1.mBestBidOffer = quoted strtod p.mBestBidOffer
      (fun key => stringUnder key (k,.string value)) := by
  unfold BookTickerStreamParser.handleBookTicker quoted
  dsimp only [stringUnder]
  by_cases hbid : k = "b"
  · subst hbid
    rfl
  by_cases hbidVolume : k = "B"
  · subst hbidVolume
    rfl
  by_cases hask : k = "a"
  · subst hask
    rfl
  by_cases haskVolume : k = "A"
  · subst haskVolume
    rfl
  simp only [if_neg hbid,if_neg hbidVolume,if_neg hask,if_neg haskVolume,Option.elim_none]

/-- A parser of a book ticker stream, none of whose fields is marked. -/
def Ticking (p : BinanceStreamParser Double) : Prop :=
  p.mStreamType = .bookTickerStream ∧ p.mBookTickerStreamParser.mBookTickerFields = 0

/-- An event of a book ticker stream: no field is marked, so more is wanted, and a string goes to
its field. -/
theorem handle_of_ticking (strtod : String → Double) {p : BinanceStreamParser Double}
    (hp : p.Ticking) {e : SaxEvent} (he : ∀ value, e ≠ .key value) :
    (handle strtod p e).1.Ticking ∧ (handle strtod p e).2 = true ∧
      (handle strtod p e).1.mKey = p.mKey ∧
      (handle strtod p e).1.mBookTickerStreamParser.mBestBidOffer =
        quoted strtod p.mBookTickerStreamParser.mBestBidOffer
          (fun key => stringUnder key (p.mKey,e)) := by
  obtain ⟨h,hfields⟩ := hp
  cases e with
  | key value => exact absurd rfl (he value)
  | string value =>
    have hwants := BookTickerStreamParser.handleBookTicker_wants hfields strtod p.mKey value
    have hstep : handle strtod p (.string value) = ({ p with mBookTickerStreamParser :=
        (p.mBookTickerStreamParser.handleBookTicker strtod p.mKey value).1 },true) := by
      simp only [handle_string,string,h,reduceCtorEq,false_and,↓reduceIte,hwants]
    rw [hstep]
    have hunmarked := BookTickerStreamParser.mBookTickerFields_handleBookTicker strtod
      p.mBookTickerStreamParser p.mKey value
    exact ⟨⟨h,hunmarked.trans hfields⟩,rfl,rfl,mBestBidOffer_handleBookTicker strtod _ _ _⟩
  | numberUnsigned value =>
    have hstep : handle strtod p (.numberUnsigned value) = (p,true) := by
      simp [handle_numberUnsigned,numberUnsigned,h]
    rw [hstep]
    exact ⟨⟨h,hfields⟩,rfl,rfl,rfl⟩
  | startArray =>
    have hstep : handle strtod p .startArray = (p,true) := by
      simp [handle_startArray,startArray,h,MarketDataStreamType.isLevels]
    rw [hstep]
    exact ⟨⟨h,hfields⟩,rfl,rfl,rfl⟩
  | endArray =>
    have hstep : handle strtod p .endArray = (p,true) := by
      simp [handle_endArray,endArray,h,MarketDataStreamType.isLevels]
    rw [hstep]
    exact ⟨⟨h,hfields⟩,rfl,rfl,rfl⟩
  | _ => exact ⟨⟨h,hfields⟩,rfl,rfl,rfl⟩

/-- Over any events the offer is what the last strings under the four keys give. -/
theorem feed_bookTicker (strtod : String → Double) {p : BinanceStreamParser Double}
    (h : p.Ticking) (es : List SaxEvent) :
    ((handle strtod).feed p es).2 = true ∧
      ((handle strtod).feed p es).1.mBookTickerStreamParser.mBestBidOffer =
        quoted strtod p.mBookTickerStreamParser.mBestBidOffer
          (fun key => lastUnder key (SaxEvent.keyed p.mKey es)) := by
  induction es generalizing p with
  | nil => exact ⟨rfl,rfl⟩
  | cons e es ih =>
    rcases e.eq_key_or with ⟨value,rfl⟩ | he
    · rw [Handler.feed_cons_of_true rfl]
      exact ih (p := { p with mKey := value }) h
    · obtain ⟨hnext,hmore,hkey,hoffer⟩ := handle_of_ticking strtod h he
      rw [Handler.feed_cons_of_true hmore,SaxEvent.keyed_cons he]
      simp only [lastUnder_cons]
      rw [← quoted_quoted,← hoffer,← hkey]
      exact ih hnext

/-- A text is delivered as a best bid and offer exactly if the first stream it names is a book
ticker, wherever the text breaks off, and then with the last string under each key behind that
name, or a zero. -/
theorem bookTicker_delivered_iff [Zero Double] (strtod : String → Double) (text : SaxText)
    (bbo : TopOfTheBook Double) :
    let named := firstStream (SaxEvent.keyed "" text.events)
    (parse strtod text).1.deliver = some (.onTopOfTheBook bbo) ↔
      named.1 = .bookTickerStream ∧ bbo = quoted strtod ⟨0,0,0,0⟩
        (fun key => lastUnder key named.2) := by
  intro named
  have hnone : (create : BinanceStreamParser Double).mStreamType = .noneStream := rfl
  have hdeliver : ∀ p : BinanceStreamParser Double, p.deliver = some (.onTopOfTheBook bbo) ↔
      p.mStreamType = .bookTickerStream ∧ bbo = p.mBookTickerStreamParser.mBestBidOffer := by
    intro p
    unfold deliver
    cases p.mStreamType <;> simp [eq_comm]
  rw [hdeliver,parse,saxParse_fst,streamType_feed strtod hnone]
  refine and_congr_right (fun hticker => ?_)
  rcases feed_firstStream strtod hnone text.events with ⟨h,_⟩ | ⟨rest,_,hrest,hfeed⟩
  · exact MarketDataStreamType.noConfusion (h.symm.trans hticker)
  · have hbook : named.2 = SaxEvent.keyed "stream" rest := hrest
    rw [hfeed,hbook,(feed_bookTicker strtod ⟨hticker,rfl⟩ rest).2]
    rfl

end BinanceStreamParser
end Moboware
