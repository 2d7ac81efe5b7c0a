import Mathlib.Data.List.Count
import Moboware.Exchanges.BinanceStreamParser

/-! # Depth snapshots

A snapshot is decoded by counting: the arrays that are open under the keys of the book,
and the strings that are found two arrays deep. The vectors that the levels are written to
have a capacity and no elements, so every level is written out of bounds.
-/
namespace Moboware
open Library
variable {Double : Type*}

namespace OrderbookLevelsParser

/-- An event, with its key, as the parser of the levels sees it. -/
def step (strtod : String → Double) (p : OrderbookLevelsParser Double) :
    String × SaxEvent → OrderbookLevelsParser Double
  | (key,.string value) => (p.handleOrderBookLevel strtod key value).1
  | (key,.startArray) => p.arrayStart key
  | (key,.endArray) => p.arrayEnd key
  | _ => p

end OrderbookLevelsParser

theorem handleOrderBookLevel_snd (strtod : String → Double) (p : OrderbookLevelsParser Double)
    (key value : String) : (p.handleOrderBookLevel strtod key value).2 = true := by
  unfold OrderbookLevelsParser.handleOrderBookLevel
  dsimp only
  split_ifs <;> rfl

namespace BinanceStreamParser

/-- Where a levels stream is known, every event but a key goes to the levels. -/
theorem handle_of_isLevels (strtod : String → Double) {p : BinanceStreamParser Double}
    (h : p.mStreamType.isLevels = true) {e : SaxEvent} (he : ∀ value, e ≠ .key value) :
    handle strtod p e =
      ({ p with mOrderbookLevelsParser := p.mOrderbookLevelsParser.step strtod (p.mKey,e) },true) := by
  have hnone : p.mStreamType ≠ .noneStream := fun ht => by rw [ht] at h; exact Bool.false_ne_true h
  have htrade : p.mStreamType ≠ .tradeTickStream := fun ht => by
    rw [ht] at h
    exact Bool.false_ne_true h
  have hticker : p.mStreamType ≠ .bookTickerStream := fun ht => by
    rw [ht] at h
    exact Bool.false_ne_true h
  cases e with
  | key value => exact absurd rfl (he value)
  | numberUnsigned value =>
    rw [handle_numberUnsigned,numberUnsigned,if_neg htrade]
    rfl
  | string value =>
    rw [handle_string,string,if_neg (fun hand => hnone hand.1),if_neg htrade,if_neg hticker,if_pos h]
    exact Prod.ext rfl (handleOrderBookLevel_snd ..)
  | startArray =>
    rw [handle_startArray,startArray,if_pos h]
    rfl
  | endArray =>
    rw [handle_endArray,endArray,if_pos h]
    rfl
  | _ => rfl

/-- So the book is what the levels make of the events under their keys. -/
theorem feed_levels (strtod : String → Double) {p : BinanceStreamParser Double}
    (h : p.mStreamType.isLevels = true) (es : List SaxEvent) :
    ((handle strtod).feed p es).1.mOrderbookLevelsParser =
      (SaxEvent.keyed p.mKey es).foldl (OrderbookLevelsParser.step strtod) p.mOrderbookLevelsParser := by
  induction es generalizing p with
  | nil => rfl
  | cons e es ih =>
    rcases e.eq_key_or with ⟨value,rfl⟩ | he
    · rw [Handler.feed_cons_of_true rfl]
      exact ih h
    · have hstep := handle_of_isLevels strtod h he
      rw [Handler.feed_cons_of_true (congrArg Prod.snd hstep),hstep,SaxEvent.keyed_cons he,
        List.foldl_cons]
      exact ih h

end BinanceStreamParser

/-! ### Strings that are read as fields of a level -/

/-- The arrays begun less those ended under the keys of the book. -/
def openedArrays (ks : List (String × SaxEvent)) : ℤ :=
  ks.countP (fun e => isBookKey e.1 && decide (e.2 = .startArray)) -
    ks.countP (fun e => isBookKey e.1 && decide (e.2 = .endArray))

/-- With `n` arrays open before the events, a string under a key of the book is found where
two arrays are open, as the counter of 64 bits counts them. -/
def HasLevelStringFrom (n : ℤ) (ks : List (String × SaxEvent)) : Prop :=
  ∃ before key value after, ks = before ++ (key,.string value) :: after ∧ isBookKey key = true ∧
    (n + openedArrays before) % UInt64.size = 2

/-- Some string of the events is read as the price or the volume of a level. -/
def HasLevelString (ks : List (String × SaxEvent)) : Prop := HasLevelStringFrom 0 ks

/-- The event is a string that is read as a field when `n` arrays are open. -/
def IsLevelString (n : ℤ) (e : String × SaxEvent) : Prop :=
  isBookKey e.1 = true ∧ (∃ value, e.2 = .string value) ∧ n % UInt64.size = 2

theorem openedArrays_cons (e : String × SaxEvent) (ks : List (String × SaxEvent)) :
    openedArrays (e :: ks) = openedArrays [e] + openedArrays ks := by
  unfold openedArrays
  simp only [List.countP_cons,List.countP_nil]
  omega

theorem hasLevelStringFrom_cons (n : ℤ) (e : String × SaxEvent) (ks : List (String × SaxEvent)) :
    HasLevelStringFrom n (e :: ks) ↔
      IsLevelString n e ∨ HasLevelStringFrom (n + openedArrays [e]) ks := by
  constructor
  · rintro ⟨before,key,value,after,hks,hkey,hopen⟩
    cases before with
    | nil =>
      obtain ⟨rfl,rfl⟩ := List.cons.inj hks
      exact Or.inl ⟨hkey,⟨value,rfl⟩,by simpa [openedArrays] using hopen⟩
    | cons f before =>
      obtain ⟨rfl,rfl⟩ := List.cons.inj hks
      rw [openedArrays_cons,← add_assoc] at hopen
      exact Or.inr ⟨before,key,value,after,rfl,hkey,hopen⟩
  · rintro (⟨hkey,⟨value,hvalue⟩,hopen⟩ | ⟨before,key,value,after,rfl,hkey,hopen⟩)
    · refine ⟨[],e.1,value,ks,?_,hkey,by simpa [openedArrays] using hopen⟩
      rw [← hvalue,List.nil_append]
    · refine ⟨e :: before,key,value,after,rfl,hkey,?_⟩
      rwa [openedArrays_cons,← add_assoc]

namespace OrderbookLevelsParser

/-- A parser with `n` arrays open whose vectors have no element: its book is as it was built,
or there was an access out of bounds. -/
structure Reserved (n : ℤ) (p : OrderbookLevelsParser Double) : Prop where
  bids : p.mOrderbook.mBids.elements = []
  asks : p.mOrderbook.mAsks.elements = []
  indentation : (p.mArrayIndentation.toNat : ℤ) = n % UInt64.size
  untouched : p.mOrderbook = {} ∨
    0 < p.mOrderbook.mBids.outOfBounds + p.mOrderbook.mAsks.outOfBounds

theorem modifyAt_of_nil {α : Type*} {v : CheckedVector α} (h : v.elements = []) (i : ℕ)
    (f : α → α) : v.modifyAt i f = { v with outOfBounds := v.outOfBounds + 1 } := by
  rw [CheckedVector.modifyAt,h]
  exact if_neg (Nat.not_lt_zero i)

theorem writeField_of_nil {levels : CheckedVector (OrderbookLevel Double)}
    (h : levels.elements = []) (numberOfLevels index : UInt64) (field : Double) :
    (writeField levels numberOfLevels index field).1 =
      { levels with outOfBounds := levels.outOfBounds + 1 } := by
  unfold writeField
  split_ifs
  · exact modifyAt_of_nil h _ _
  · exact modifyAt_of_nil h _ _

variable (strtod : String → Double) {n : ℤ} {p : OrderbookLevelsParser Double}

theorem handleOrderBookLevel_indentation (key value : String) :
    (p.handleOrderBookLevel strtod key value).1.mArrayIndentation = p.mArrayIndentation := by
  unfold handleOrderBookLevel
  dsimp only
  split_ifs <;> rfl

/-- Outside of the inner arrays of the book a string is passed over. -/
theorem handleOrderBookLevel_of_outside {key : String} (value : String)
    (h : ¬ (p.mArrayIndentation = 2 ∧ isBookKey key = true)) :
    (p.handleOrderBookLevel strtod key value).1.mOrderbook = p.mOrderbook := by
  unfold handleOrderBookLevel
  dsimp only
  split_ifs with htwo hbids hasks
  · exact absurd ⟨htwo,by rw [hbids]; rfl⟩ h
  · exact absurd ⟨htwo,by rw [hasks]; rfl⟩ h
  · rfl
  · rfl

/-- Inside of them it is written past the end of a vector without elements. -/
theorem handleOrderBookLevel_of_inside {key : String} (value : String)
    (hbids : p.mOrderbook.mBids.elements = []) (hasks : p.mOrderbook.mAsks.elements = [])
    (htwo : p.mArrayIndentation = 2) (hkey : isBookKey key = true) :
    let o := (p.handleOrderBookLevel strtod key value).1.mOrderbook
    o.mBids.elements = [] ∧ o.mAsks.elements = [] ∧
      0 < o.mBids.outOfBounds + o.mAsks.outOfBounds := by
  intro o
  rcases isBookKey_iff.mp hkey with rfl | rfl
  · have ho : o = { p.mOrderbook with
        mBids := (writeField p.mOrderbook.mBids p.mOrderbook.numberOfBidLevels
          (p.mPriceVolumeFieldsIndex + 1) (strtod value)).1
        numberOfBidLevels := (writeField p.mOrderbook.mBids p.mOrderbook.numberOfBidLevels
          (p.mPriceVolumeFieldsIndex + 1) (strtod value)).2 } := by
      change (p.handleOrderBookLevel strtod "bids" value).1.mOrderbook = _
      rw [handleOrderBookLevel,if_pos htwo]
      rfl
    rw [ho,writeField_of_nil hbids]
    exact ⟨hbids,hasks,by dsimp only; omega⟩
  · have ho : o = { p.mOrderbook with
        mAsks := (writeField p.mOrderbook.mAsks p.mOrderbook.numberOfAskLevels
          (p.mPriceVolumeFieldsIndex + 1) (strtod value)).1
        numberOfAskLevels := (writeField p.mOrderbook.mAsks p.mOrderbook.numberOfAskLevels
          (p.mPriceVolumeFieldsIndex + 1) (strtod value)).2 } := by
      change (p.handleOrderBookLevel strtod "asks" value).1.mOrderbook = _
      rw [handleOrderBookLevel,if_pos htwo]
      rfl
    rw [ho,writeField_of_nil hasks]
    exact ⟨hbids,hasks,by dsimp only; omega⟩

/-- Opening and closing arrays under a key of the book is counted modulo the word size. -/
theorem step_indentation (h : (p.mArrayIndentation.toNat : ℤ) = n % UInt64.size)
    (e : String × SaxEvent) : ((p.step strtod e).mArrayIndentation.toNat : ℤ) =
      (n + openedArrays [e]) % UInt64.size := by
  obtain ⟨key,event⟩ := e
  have hsize : UInt64.size = 18446744073709551616 := rfl
  cases event with
  | string value =>
    change ((p.handleOrderBookLevel strtod key value).1.mArrayIndentation.toNat : ℤ) = _
    rw [handleOrderBookLevel_indentation]
    simpa [openedArrays] using h
  | startArray =>
    change ((p.arrayStart key).mArrayIndentation.toNat : ℤ) = _
    unfold arrayStart
    cases hkey : isBookKey key with
    | true =>
      have hadd : ((p.mArrayIndentation + 1).toNat : ℤ) = (p.mArrayIndentation.toNat + 1) %
          18446744073709551616 := by
        rw [UInt64.toNat_add]
        rfl
      have hone : openedArrays [(key,.startArray)] = 1 := by simp [openedArrays,hkey]
      rw [hsize] at h ⊢
      rw [if_pos rfl,hadd,hone]
      omega
    | false => simpa [openedArrays,hkey] using h
  | endArray =>
    change ((p.arrayEnd key).mArrayIndentation.toNat : ℤ) = _
    unfold arrayEnd
    cases hkey : isBookKey key with
    | true =>
      have hsub : ((p.mArrayIndentation - 1).toNat : ℤ) = (18446744073709551615 +
          p.mArrayIndentation.toNat) % 18446744073709551616 := by
        rw [UInt64.toNat_sub]
        rfl
      have hone : openedArrays [(key,.endArray)] = -1 := by simp [openedArrays,hkey]
      rw [hsize] at h ⊢
      rw [if_pos rfl,hsub,hone]
      omega
    | false => simpa [openedArrays,hkey] using h
  | _ => simpa [openedArrays,step] using h

/-- The place of a string that is read, in the terms of the parser. -/
theorem Reserved.inside_iff (h : Reserved n p) :
    p.mArrayIndentation = 2 ↔ n % UInt64.size = 2 := by
  rw [← h.indentation,← UInt64.toNat_inj]
  change p.mArrayIndentation.toNat = 2 ↔ _
  omega

theorem Reserved.isLevelString_iff (h : Reserved n p) (key value : String) :
    IsLevelString n (key,.string value) ↔ p.mArrayIndentation = 2 ∧ isBookKey key = true := by
  rw [h.inside_iff]
  exact ⟨fun hs => ⟨hs.2.2,hs.1⟩,fun hs => ⟨hs.2,⟨value,rfl⟩,hs.1⟩⟩

/-- An event leaves a reserved book as it is, unless it is a string that is read: that is
written out of bounds, for good. -/
theorem Reserved.step (h : Reserved n p) (e : String × SaxEvent) :
    Reserved (n + openedArrays [e]) (p.step strtod e) ∧
      ((p.step strtod e).mOrderbook = {} ↔ p.mOrderbook = {} ∧ ¬ IsLevelString n e) := by
  have hopen := step_indentation strtod h.indentation e
  have hsame : (p.step strtod e).mOrderbook = p.mOrderbook → ¬ IsLevelString n e →
      Reserved (n + openedArrays [e]) (p.step strtod e) ∧
        ((p.step strtod e).mOrderbook = {} ↔ p.mOrderbook = {} ∧ ¬ IsLevelString n e) := by
    intro ho hl
    refine ⟨⟨?_,?_,hopen,?_⟩,?_⟩
    · rw [ho]
      exact h.bids
    · rw [ho]
      exact h.asks
    · rw [ho]
      exact h.untouched
    · rw [ho]
      exact (and_iff_left hl).symm
  have hnot : (∀ value, e.2 ≠ .string value) → ¬ IsLevelString n e :=
    fun hne hl => hl.2.1.elim (fun value hv => hne value hv)
  obtain ⟨key,event⟩ := e
  cases event with
  | string value =>
    by_cases hl : IsLevelString n (key,.string value)
    · obtain ⟨htwo,hkey⟩ := (h.isLevelString_iff key value).mp hl
      obtain ⟨hbids,hasks,hout⟩ := handleOrderBookLevel_of_inside strtod value h.bids
        h.asks htwo hkey
      refine ⟨⟨hbids,hasks,hopen,Or.inr hout⟩,iff_of_false ?_ (fun hand => hand.2 hl)⟩
      intro ho
      rw [show (p.handleOrderBookLevel strtod key value).1.mOrderbook = {} from ho] at hout
      exact Nat.lt_irrefl 0 hout
    · exact hsame (handleOrderBookLevel_of_outside strtod value
        (fun hand => hl ((h.isLevelString_iff key value).mpr hand))) hl
  | startArray =>
    refine hsame ?_ (hnot (fun _ => SaxEvent.noConfusion))
    change (p.arrayStart key).mOrderbook = _
    unfold arrayStart
    split_ifs <;> rfl
  | endArray =>
    refine hsame ?_ (hnot (fun _ => SaxEvent.noConfusion))
    change (p.arrayEnd key).mOrderbook = _
    unfold arrayEnd
    split_ifs <;> rfl
  | _ => exact hsame rfl (hnot (fun _ => SaxEvent.noConfusion))

/-- Over all events the book stays as it was built exactly when no string is read. -/
theorem Reserved.foldl (h : Reserved n p) (ks : List (String × SaxEvent)) :
    (∃ m, Reserved m (ks.foldl (OrderbookLevelsParser.step strtod) p)) ∧
      ((ks.foldl (OrderbookLevelsParser.step strtod) p).mOrderbook = {} ↔
        p.mOrderbook = {} ∧ ¬ HasLevelStringFrom n ks) := by
  induction ks generalizing n p with
  | nil =>
    refine ⟨⟨n,h⟩,(and_iff_left ?_).symm⟩
    rintro ⟨before,key,value,after,hks,_⟩
    exact List.append_ne_nil_of_right_ne_nil before (List.cons_ne_nil _ after) hks.symm
  | cons e ks ih =>
    obtain ⟨hstep,hiff⟩ := h.step strtod e
    obtain ⟨hres,hfold⟩ := ih hstep
    refine ⟨hres,?_⟩
    rw [List.foldl_cons,hfold,hiff,hasLevelStringFrom_cons,not_or,and_assoc]

theorem reserved_create (maxOrderbookDepth : ℕ) :
    Reserved 0 (create maxOrderbookDepth : OrderbookLevelsParser Double) where
  bids := rfl
  asks := rfl
  indentation := rfl
  untouched := Or.inl rfl

end OrderbookLevelsParser

/-! ### The messages -/

inductive SnapshotDepth
  | five
  | ten
  | twenty

namespace SnapshotDepth

/-- The name of the stream behind the symbol. -/
def name : SnapshotDepth → String
  | five => "@depth5@100ms"
  | ten => "@depth10@100ms"
  | twenty => "@depth20@100ms"

theorem isLevels_name (depth : SnapshotDepth) :
    (BinanceStreamParser.streamTypeOf depth.name.toList).isLevels = true := by
  cases depth <;> decide

/-- The streams that the feed subscribes to are read as streams of levels. -/
theorem isLevels_subscribed (depth : SnapshotDepth) {symbol : List Char} (h : '@' ∉ symbol) :
    (BinanceStreamParser.streamTypeOf (symbol ++ depth.name.toList)).isLevels = true := by
  rw [BinanceStreamParser.streamTypeOf_append h]
  exact depth.isLevels_name

end SnapshotDepth

/-- A level in a message: the texts of its price and its volume. -/
abbrev LevelText := String × String

/-- A snapshot of a stream of 5, 10 or 20 levels, with any other members before, between and
behind the two sides. -/
structure DepthMessage where
  stream : String
  named : (BinanceStreamParser.streamTypeOf stream.toList).isLevels = true
  before : List (String × SaxValue)
  bids : List LevelText
  between : List (String × SaxValue)
  asks : List LevelText
  after : List (String × SaxValue)

namespace DepthMessage

def side (levels : List LevelText) : SaxValue :=
  .array (levels.map (fun level => .array [.string level.1,.string level.2]))

def data (m : DepthMessage) : SaxValue :=
  .object (m.before ++ ("bids",side m.bids) :: m.between ++ ("asks",side m.asks) :: m.after)

def value (m : DepthMessage) : SaxValue := .object [("stream",.string m.stream),("data",m.data)]

def text (m : DepthMessage) : SaxText where
  events := m.value.events

/-- The events behind the name of the stream. -/
def rest (m : DepthMessage) : List SaxEvent := .key "data" :: m.data.events ++ [.endObject]

theorem events_eq (m : DepthMessage) :
    m.value.events = .startObject :: .key "stream" :: .string m.stream :: m.rest := by
  simp [value,rest,SaxValue.events,SaxValue.memberEvents]

/-- Some string of the message stands two arrays deep under a key of the book. -/
def HasLevelString (m : DepthMessage) : Prop :=
  Moboware.HasLevelString (SaxEvent.keyed "" m.value.events)

theorem hasLevelString_iff (m : DepthMessage) :
    m.HasLevelString ↔ HasLevelStringFrom 0 (SaxEvent.keyed "stream" m.rest) := by
  have hstart : ¬ IsLevelString 0 ("",.startObject) := fun h => Bool.false_ne_true h.1
  have hstream : ¬ IsLevelString (0 + openedArrays [("",.startObject)])
      ("stream",.string m.stream) :=
    fun h => absurd (show isBookKey "stream" = true from h.1) (by decide)
  unfold HasLevelString Moboware.HasLevelString
  rw [m.events_eq]
  change HasLevelStringFrom 0 (("",.startObject) :: ("stream",.string m.stream) ::
    SaxEvent.keyed "stream" m.rest) ↔ _
  rw [hasLevelStringFrom_cons,or_iff_right hstart,hasLevelStringFrom_cons,or_iff_right hstream]
  exact Iff.rfl

end DepthMessage

/-- The snapshot is in the book, and no access was out of bounds. -/
structure Decoded (strtod : String → Double) (m : DepthMessage) (o : Orderbook Double) : Prop where
  numberOfBidLevels : o.numberOfBidLevels.toNat = m.bids.length
  numberOfAskLevels : o.numberOfAskLevels.toNat = m.asks.length
  bids : o.mBids.elements.take m.bids.length =
    m.bids.map (fun level => ⟨strtod level.1,strtod level.2⟩)
  asks : o.mAsks.elements.take m.asks.length =
    m.asks.map (fun level => ⟨strtod level.1,strtod level.2⟩)
  inBounds : o.mBids.outOfBounds = 0 ∧ o.mAsks.outOfBounds = 0

namespace BinanceStreamParser

def getOrderbook (p : BinanceStreamParser Double) : Orderbook Double :=
  p.mOrderbookLevelsParser.mOrderbook

/-- The parser of a snapshot, as the fold of its events over the levels. -/
theorem parse_depthMessage [Zero Double] (strtod : String → Double) (m : DepthMessage) :
    (parse strtod m.text).1.mOrderbookLevelsParser =
      (SaxEvent.keyed "stream" m.rest).foldl (OrderbookLevelsParser.step strtod)
        (OrderbookLevelsParser.create 20) := by
  rw [parse,saxParse_fst]
  change ((handle strtod).feed create m.value.events).1.mOrderbookLevelsParser = _
  rw [m.events_eq,Handler.feed_cons_of_true rfl,Handler.feed_cons_of_true rfl,
    Handler.feed_cons_of_true rfl]
  exact feed_levels strtod m.named m.rest

/-- A snapshot is decoded only if it has no levels: they are written out of bounds. And one
without levels is decoded unless some other string of the message is read as a field. -/
theorem depthSnapshot_decoded_iff [Zero Double] (strtod : String → Double) (m : DepthMessage) :
    Decoded strtod m (parse strtod m.text).1.getOrderbook ↔
      m.bids = [] ∧ m.asks = [] ∧ ¬ m.HasLevelString := by
  have hcreate : OrderbookLevelsParser.Reserved 0
      (OrderbookLevelsParser.create 20 : OrderbookLevelsParser Double) :=
    OrderbookLevelsParser.reserved_create 20
  obtain ⟨⟨n,hres⟩,hfold⟩ := hcreate.foldl strtod (SaxEvent.keyed "stream" m.rest)
  rw [getOrderbook,parse_depthMessage,m.hasLevelString_iff]
  have hiff := hfold.trans (and_iff_right rfl)
  rw [← hiff]
  constructor
  · intro h
    have hbids := h.bids
    have hasks := h.asks
    rw [hres.bids,List.take_nil] at hbids
    rw [hres.asks,List.take_nil] at hasks
    refine ⟨List.map_eq_nil_iff.mp hbids.symm,List.map_eq_nil_iff.mp hasks.symm,?_⟩
    refine hres.untouched.resolve_right ?_
    rw [h.inBounds.1,h.inBounds.2]
    exact Nat.lt_irrefl 0
  · rintro ⟨hbids,hasks,ho⟩
    rw [ho]
    refine ⟨?_,?_,?_,?_,rfl,rfl⟩
    · rw [hbids]
      rfl
    · rw [hasks]
      rfl
    · rw [hbids]
      rfl
    · rw [hasks]
      rfl

/-- One bid: its price and its volume are written past the end of the empty vector, and the
book has a level by its number and none in its vector. -/
theorem one_bid_out_of_bounds :
    let m : DepthMessage := ⟨"btcusdt@depth5@100ms",by decide,
      [("lastUpdateId",.numberUnsigned 47393218092)],[("68790","2.08")],[],[],[]⟩
    let o := (parse String.length m.text).1.getOrderbook
    o.numberOfBidLevels = 1 ∧ o.mBids.elements = [] ∧ o.mBids.outOfBounds = 2 ∧
      ¬ Decoded String.length m o := by
  intro m o
  have hout : o.mBids.outOfBounds = 2 := by decide
  refine ⟨by decide,by decide,hout,?_⟩
  intro h
  rw [h.inBounds.1] at hout
  exact absurd hout (by decide)

end BinanceStreamParser
end Moboware
