import Moboware.Exchanges.DepthSnapshots
import Moboware.Exchanges.LevelReading

/-! # Decoding of levels

The parser of the levels with storage for all of them. Between the two sides of the book it
is as it was, and within them it reads the strings in turn.
-/
namespace Moboware
open Library
variable {Double : Type*}

def arrayEvents (key : String) (strings : List String) : List (String × SaxEvent) :=
  (key,.startArray) :: strings.map (fun text => (key,.string text)) ++ [(key,.endArray)]

/-- The events of a side, with their key: an array of inner arrays. -/
def sideEvents (key : String) (inner : List (List String)) : List (String × SaxEvent) :=
  (key,.startArray) :: inner.flatMap (arrayEvents key) ++ [(key,.endArray)]

/-- The event begins or ends an array under a key of the book. -/
def IsBookArray (e : String × SaxEvent) : Prop :=
  isBookKey e.1 = true ∧ (e.2 = .startArray ∨ e.2 = .endArray)

/-- The events of a depth message, with their keys, and its inner arrays: sides of the book with
any other events before, between and behind them. -/
inductive DepthEvents : List (String × SaxEvent) → List (String × List String) → Prop
  | nil : DepthEvents [] []
  | other {e ks arrays} : ¬ IsBookArray e → DepthEvents ks arrays → DepthEvents (e :: ks) arrays
  | side {key ks inner arrays} : isBookKey key = true → DepthEvents ks arrays →
      DepthEvents (sideEvents key inner ++ ks) (inner.map (fun strings => (key,strings)) ++ arrays)

/-- Elements for the vectors of the book, for at least `n` levels on each side. -/
structure LevelStorage (Double : Type*) (n : ℕ) where
  bids : List (OrderbookLevel Double)
  asks : List (OrderbookLevel Double)
  le_bids : n ≤ bids.length
  le_asks : n ≤ asks.length
  bids_lt : bids.length < UInt64.size
  asks_lt : asks.length < UInt64.size

def Orderbook.completed (o : Orderbook Double) (key : String) : List (OrderbookLevel Double) :=
  if key = "asks" then o.mAsks.elements.take o.numberOfAskLevels.toNat
  else o.mBids.elements.take o.numberOfBidLevels.toNat

namespace OrderbookLevelsParser

/-- A parser whose vectors have the elements of the storage. -/
def withStorage {n : ℕ} (storage : LevelStorage Double n) : OrderbookLevelsParser Double where
  mOrderbook := { mBids := ⟨storage.bids,0⟩, mAsks := ⟨storage.asks,0⟩ }

/-- The vector is the completed levels and the storage behind them, written in bounds only. -/
structure Holds (levels : CheckedVector (OrderbookLevel Double)) (numberOfLevels : UInt64)
    (side : SideLevels Double) : Prop where
  elements : levels.elements = side.completed ++ side.storage
  number : numberOfLevels.toNat = side.completed.length
  length_lt : levels.elements.length < UInt64.size
  inBounds : levels.outOfBounds = 0

section Side
variable {levels : CheckedVector (OrderbookLevel Double)} {numberOfLevels index : UInt64}
  {side : SideLevels Double}

theorem Holds.modifyAt (h : Holds levels numberOfLevels side) {level : OrderbookLevel Double}
    {storage : List (OrderbookLevel Double)} (hstorage : side.storage = level :: storage)
    (f : OrderbookLevel Double → OrderbookLevel Double) :
    levels.modifyAt numberOfLevels.toNat f =
      { levels with elements := side.completed ++ f level :: storage } := by
  have hlt : side.completed.length < levels.elements.length := by
    rw [h.elements,hstorage,List.length_append,List.length_cons]
    omega
  rw [CheckedVector.modifyAt,h.number,if_pos hlt,h.elements,hstorage]
  rw [List.modify_eq_take_drop,List.take_left,List.drop_left]
  rfl

theorem Holds.writeField (h : Holds levels numberOfLevels side) {level : OrderbookLevel Double}
    {storage : List (OrderbookLevel Double)} (hstorage : side.storage = level :: storage)
    (index : UInt64) (field : Double) :
    Holds (writeField levels numberOfLevels index field).1
      (writeField levels numberOfLevels index field).2
      (side.write (!decide (index % 2 = 1)) field) := by
  have hlength := h.length_lt
  rw [h.elements,hstorage,List.length_append,List.length_cons] at hlength
  rw [SideLevels.write,hstorage]
  by_cases hprice : index % 2 = 1
  · rw [OrderbookLevelsParser.writeField,if_pos hprice,h.modifyAt hstorage,decide_eq_true hprice]
    refine ⟨rfl,h.number,?_,h.inBounds⟩
    simpa using hlength
  · rw [OrderbookLevelsParser.writeField,if_neg hprice,h.modifyAt hstorage,decide_eq_false hprice]
    refine ⟨?_,?_,?_,h.inBounds⟩
    · simp
    · have hone : (1 : UInt64).toNat = 1 := rfl
      have hsize : UInt64.size = 2 ^ 64 := rfl
      simp only [UInt64.toNat_add,h.number,hone,Bool.not_false,if_true,List.length_append,
        List.length_singleton]
      exact Nat.mod_eq_of_lt (by omega)
    · simpa using hlength

end Side

/-- The parser is in the middle of the reading, with `n` arrays open. -/
structure Represents (r : Reading Double) (n : UInt64) (p : OrderbookLevelsParser Double) :
    Prop where
  bids : Holds p.mOrderbook.mBids p.mOrderbook.numberOfBidLevels (r.sides "bids")
  asks : Holds p.mOrderbook.mAsks p.mOrderbook.numberOfAskLevels (r.sides "asks")
  volumeNext : r.volumeNext = decide (p.mPriceVolumeFieldsIndex.toNat % 2 = 1)
  indentation : p.mArrayIndentation = n

theorem volumeNext_succ (index : UInt64) :
    decide ((index + 1).toNat % 2 = 1) = !decide (index.toNat % 2 = 1) := by
  have hone : (1 : UInt64).toNat = 1 := rfl
  rw [UInt64.toNat_add,hone,← decide_not,decide_eq_decide]
  omega

theorem isPrice_succ_iff (index : UInt64) : (index + 1) % 2 = 1 ↔ index.toNat % 2 = 0 := by
  have hone : (1 : UInt64).toNat = 1 := rfl
  have htwo : (2 : UInt64).toNat = 2 := rfl
  rw [← UInt64.toNat_inj,UInt64.toNat_mod,UInt64.toNat_add,hone,htwo]
  omega

section Steps
variable {strtod : String → Double} {r : Reading Double} {n : UInt64}
  {p : OrderbookLevelsParser Double} {key : String}

theorem Represents.string (h : Represents r 2 p) (hkey : isBookKey key = true)
    {m : ℕ} (hroom : r.Room (m + 1)) (value : String) :
    Represents (r.read strtod (key,value)) 2 (p.step strtod (key,.string value)) := by
  have hvolume : r.volumeNext = !decide ((p.mPriceVolumeFieldsIndex + 1) % 2 = 1) := by
    rw [h.volumeNext,← decide_not,decide_eq_decide,isPrice_succ_iff]
    omega
  obtain ⟨level,storage,hstorage⟩ := hroom.storage_eq key
  change Represents _ 2 (p.handleOrderBookLevel strtod key value).1
  rw [handleOrderBookLevel,if_pos h.indentation]
  rcases isBookKey_iff.mp hkey with rfl | rfl
  · rw [if_pos rfl]
    refine ⟨?_,?_,?_,h.indentation⟩
    · rw [Reading.sides_read_self,hvolume]
      exact h.bids.writeField hstorage _ _
    · rw [Reading.sides_read_of_ne (show "asks" ≠ "bids" by decide)]
      exact h.asks
    · rw [Reading.volumeNext_read,h.volumeNext]
      exact (volumeNext_succ _).symm
  · rw [if_neg (by decide),if_pos rfl]
    refine ⟨?_,?_,?_,h.indentation⟩
    · rw [Reading.sides_read_of_ne (show "bids" ≠ "asks" by decide)]
      exact h.bids
    · rw [Reading.sides_read_self,hvolume]
      exact h.asks.writeField hstorage _ _
    · rw [Reading.volumeNext_read,h.volumeNext]
      exact (volumeNext_succ _).symm

theorem Represents.startArray (strtod : String → Double) (h : Represents r n p) (hkey : isBookKey key = true) :
    Represents r (n + 1) (p.step strtod (key,.startArray)) := by
  change Represents r (n + 1) (p.arrayStart key)
  rw [arrayStart,if_pos hkey]
  exact ⟨h.bids,h.asks,h.volumeNext,by rw [h.indentation]⟩

theorem Represents.endArray (strtod : String → Double) (h : Represents r n p) (hkey : isBookKey key = true) :
    Represents r (n - 1) (p.step strtod (key,.endArray)) := by
  change Represents r (n - 1) (p.arrayEnd key)
  rw [arrayEnd,if_pos hkey]
  exact ⟨h.bids,h.asks,h.volumeNext,by rw [h.indentation]⟩

/-- Between the sides nothing happens. -/
theorem Represents.step_other (h : Represents r 0 p) {e : String × SaxEvent}
    (he : ¬ IsBookArray e) : p.step strtod e = p := by
  obtain ⟨key,event⟩ := e
  cases event with
  | string value =>
    change (p.handleOrderBookLevel strtod key value).1 = p
    rw [handleOrderBookLevel,h.indentation,if_neg (by decide)]
  | startArray =>
    change p.arrayStart key = p
    rw [arrayStart,if_neg (fun hkey => he ⟨hkey,Or.inl rfl⟩)]
  | endArray =>
    change p.arrayEnd key = p
    rw [arrayEnd,if_neg (fun hkey => he ⟨hkey,Or.inr rfl⟩)]
  | _ => rfl

theorem Represents.foldl_strings (h : Represents r 2 p) (hkey : isBookKey key = true)
    {strings : List String} (hroom : r.Room strings.length) :
    Represents ((strings.map (fun text => (key,text))).foldl (Reading.read strtod) r) 2
      ((strings.map (fun text => (key,.string text))).foldl (step strtod) p) := by
  induction strings generalizing r p with
  | nil => exact h
  | cons text strings ih => exact ih (h.string hkey hroom text) (hroom.read (key,text))

theorem Represents.foldl_array (h : Represents r 1 p) (hkey : isBookKey key = true)
    {strings : List String} (hroom : r.Room strings.length) :
    Represents ((strings.map (fun text => (key,text))).foldl (Reading.read strtod) r) 1
      ((arrayEvents key strings).foldl (step strtod) p) := by
  rw [arrayEvents,List.cons_append,List.foldl_cons,List.foldl_append]
  have hopen : Represents r 2 (p.step strtod (key,.startArray)) := h.startArray strtod hkey
  exact (hopen.foldl_strings hkey hroom).endArray strtod hkey

theorem Represents.foldl_arrays (h : Represents r 1 p) (hkey : isBookKey key = true)
    {inner : List (List String)}
    (hroom : r.Room (bookFields (inner.map (fun strings => (key,strings)))).length) :
    Represents ((bookFields (inner.map (fun strings => (key,strings)))).foldl
      (Reading.read strtod) r) 1 ((inner.flatMap (arrayEvents key)).foldl (step strtod) p) := by
  induction inner generalizing r p with
  | nil => exact h
  | cons strings inner ih =>
    rw [List.map_cons,bookFields_cons,List.length_append] at hroom
    rw [List.map_cons,bookFields_cons,List.flatMap_cons,List.foldl_append,List.foldl_append]
    refine ih (h.foldl_array hkey ?_) hroom.foldl
    rw [List.length_map] at hroom
    exact hroom.mono (Nat.le_add_right _ _)

theorem Represents.foldl_side (h : Represents r 0 p) (hkey : isBookKey key = true)
    {inner : List (List String)}
    (hroom : r.Room (bookFields (inner.map (fun strings => (key,strings)))).length) :
    Represents ((bookFields (inner.map (fun strings => (key,strings)))).foldl
      (Reading.read strtod) r) 0 ((sideEvents key inner).foldl (step strtod) p) := by
  rw [sideEvents,List.cons_append,List.foldl_cons,List.foldl_append]
  have hopen : Represents r 1 (p.step strtod (key,.startArray)) := h.startArray strtod hkey
  exact (hopen.foldl_arrays hkey hroom).endArray strtod hkey

theorem Represents.foldl_depthEvents (strtod : String → Double) {ks : List (String × SaxEvent)}
    {arrays : List (String × List String)} (hevents : DepthEvents ks arrays)
    (h : Represents r 0 p) (hroom : r.Room (bookFields arrays).length) :
    Represents ((bookFields arrays).foldl (Reading.read strtod) r) 0
      (ks.foldl (step strtod) p) := by
  induction hevents generalizing r p with
  | nil => exact h
  | other he _ ih =>
    rw [List.foldl_cons,h.step_other he]
    exact ih h hroom
  | side hkey _ ih =>
    rw [bookFields_append,List.length_append] at hroom
    rw [bookFields_append,List.foldl_append,List.foldl_append]
    exact ih (h.foldl_side hkey (hroom.mono (Nat.le_add_right _ _))) hroom.foldl

end Steps

theorem Represents.completed_eq {r : Reading Double} {n : UInt64} {p : OrderbookLevelsParser Double}
    (h : Represents r n p) {key : String} (hkey : isBookKey key = true) :
    p.mOrderbook.completed key = (r.sides key).completed := by
  rcases isBookKey_iff.mp hkey with rfl | rfl
  · rw [Orderbook.completed,if_neg (by decide),h.bids.number,h.bids.elements,List.take_left]
  · rw [Orderbook.completed,if_pos rfl,h.asks.number,h.asks.elements,List.take_left]

theorem represents_withStorage {n : ℕ} (storage : LevelStorage Double n) :
    Represents (Reading.start storage.bids storage.asks) 0 (withStorage storage) where
  bids := ⟨rfl,rfl,storage.bids_lt,rfl⟩
  asks := ⟨rfl,rfl,storage.asks_lt,rfl⟩
  volumeNext := rfl
  indentation := rfl

theorem room_start {n : ℕ} (storage : LevelStorage Double n) :
    (Reading.start storage.bids storage.asks).Room n := by
  intro key
  rw [Reading.start]
  dsimp only
  split_ifs
  · exact storage.le_asks
  · exact storage.le_bids

theorem completed_start {n : ℕ} (storage : LevelStorage Double n) (key : String) :
    ((Reading.start storage.bids storage.asks).sides key).completed = [] := by
  rw [Reading.start]
  dsimp only
  split_ifs <;> rfl

end OrderbookLevelsParser

/-- Every completed level of the book is one array of its side, and an array that is not a price
and a volume does not change how another one is decoded. -/
def ArraysDecoded (strtod : String → Double) (arrays : List (String × List String))
    (o : Orderbook Double) : Prop :=
  ∀ key, isBookKey key = true → DecodedFrom strtod key arrays (o.completed key)

theorem DepthEvents.isBookKey {ks : List (String × SaxEvent)}
    {arrays : List (String × List String)} (h : DepthEvents ks arrays)
    {field : String × String} (hfield : field ∈ bookFields arrays) :
    Moboware.isBookKey field.1 = true := by
  induction h with
  | nil => exact absurd hfield List.not_mem_nil
  | other _ _ ih => exact ih hfield
  | side hkey _ ih =>
    rw [bookFields_append,List.mem_append] at hfield
    rcases hfield with hfield | hfield
    · simp only [bookFields,List.mem_flatMap,List.mem_map] at hfield
      obtain ⟨_,⟨strings,_,rfl⟩,text,_,rfl⟩ := hfield
      exact hkey
    · exact ih hfield

theorem arraysDecoded_of_regular (strtod : String → Double) {ks : List (String × SaxEvent)}
    {arrays : List (String × List String)} (h : DepthEvents ks arrays)
    (storage : LevelStorage Double (bookFields arrays).length) (hregular : Regular arrays) :
    ArraysDecoded strtod arrays (ks.foldl (OrderbookLevelsParser.step strtod)
      (OrderbookLevelsParser.withStorage storage)).mOrderbook := by
  intro key hkey
  have hroom := OrderbookLevelsParser.room_start storage
  have hread := (OrderbookLevelsParser.represents_withStorage storage).foldl_depthEvents strtod
    h hroom
  have hfrom : ReadFrom strtod key arrays _ _ := readFrom_of_regular hregular rfl hroom
  obtain ⟨levels,hcompleted,hlevels⟩ := hfrom
  rw [OrderbookLevelsParser.completed_start,List.nil_append] at hcompleted
  rw [hread.completed_eq hkey,hcompleted]
  exact hlevels

/-- With storage for every field, the arrays of a message are decoded each by itself if they are
regular, and only then if the numbers of the message are all different. -/
theorem arraysDecoded_iff_regular (strtod : String → Double) {ks : List (String × SaxEvent)}
    {arrays : List (String × List String)} (h : DepthEvents ks arrays)
    (storage : LevelStorage Double (bookFields arrays).length) :
    let o := (ks.foldl (OrderbookLevelsParser.step strtod)
      (OrderbookLevelsParser.withStorage storage)).mOrderbook
    (Regular arrays → ArraysDecoded strtod arrays o) ∧
      ((numbers strtod arrays).Nodup → (ArraysDecoded strtod arrays o ↔ Regular arrays)) := by
  intro o
  have hregular := arraysDecoded_of_regular strtod h storage
  refine ⟨hregular,fun hnodup => ⟨?_,hregular⟩⟩
  intro hdecoded
  have hroom := OrderbookLevelsParser.room_start storage
  have hread := (OrderbookLevelsParser.represents_withStorage storage).foldl_depthEvents strtod
    h hroom
  refine regular_of_decodedFrom hnodup rfl hroom ?_
  intro field hfield
  rw [← hread.completed_eq (h.isBookKey hfield)]
  exact hdecoded field.1 (h.isBookKey hfield)

/-- Two bids, an inner array without strings and an ask of three strings are decoded each by
itself. -/
theorem arraysDecoded_of_regular_message :
    let arrays := [("bids",["1","2"]),("bids",[]),("bids",["3","4"]),("asks",["5","6","7"])]
    let ks := sideEvents "bids" [["1","2"],[],["3","4"]] ++ (sideEvents "asks" [["5","6","7"]] ++ [])
    let storage : LevelStorage String 7 :=
      ⟨List.replicate 7 ⟨"",""⟩,List.replicate 7 ⟨"",""⟩,by decide,by decide,by decide,by decide⟩
    ArraysDecoded id arrays (ks.foldl (OrderbookLevelsParser.step id)
      (OrderbookLevelsParser.withStorage storage)).mOrderbook := by
  intro arrays ks storage
  have hevents : DepthEvents ks arrays := .side rfl (.side rfl .nil)
  exact (arraysDecoded_iff_regular id hevents storage).1 (by simp [Regular,arrays])

/-- A bid of one string makes a level of the price of one array and the price of the next. -/
theorem level_of_two_arrays :
    let arrays := [("bids",["1"]),("bids",["2","3"])]
    let ks := SaxEvent.keyed "" [.startObject,.key "bids",.startArray,.startArray,.string "1",
      .endArray,.startArray,.string "2",.string "3",.endArray,.endArray,.endObject]
    let storage : LevelStorage String 3 :=
      ⟨List.replicate 3 ⟨"",""⟩,List.replicate 3 ⟨"",""⟩,by decide,by decide,by decide,by decide⟩
    let o := (ks.foldl (OrderbookLevelsParser.step id)
      (OrderbookLevelsParser.withStorage storage)).mOrderbook
    DepthEvents ks arrays ∧ o.completed "bids" = [⟨"1","2"⟩] ∧ ¬ ArraysDecoded id arrays o := by
  intro arrays ks storage o
  have hcompleted : o.completed "bids" = [⟨"1","2"⟩] := by decide
  have hside : DepthEvents (sideEvents "bids" [["1"],["2","3"]] ++ [("bids",.endObject)]) arrays :=
    .side rfl (.other (by simp [IsBookArray]) .nil)
  refine ⟨.other (by simp [IsBookArray]) hside,hcompleted,?_⟩
  intro hdecoded
  have hbids := hdecoded "bids" rfl
  rw [hcompleted] at hbids
  have hsecond := hbids.isSecond List.mem_cons_self
  simp [arrays,IsSecond,IsSecondOf] at hsecond

/-! ### The messages that are sent -/

theorem DepthEvents.append {ks ks' : List (String × SaxEvent)}
    {arrays arrays' : List (String × List String)} (h : DepthEvents ks arrays)
    (h' : DepthEvents ks' arrays') : DepthEvents (ks ++ ks') (arrays ++ arrays') := by
  induction h with
  | nil => exact h'
  | other he _ ih => exact .other he ih
  | side hkey _ ih =>
    rw [List.append_assoc,List.append_assoc]
    exact .side hkey ih

theorem depthEvents_of_quiet {ks : List (String × SaxEvent)} (h : ∀ e ∈ ks, ¬ IsBookArray e) :
    DepthEvents ks [] := by
  induction ks with
  | nil => exact .nil
  | cons e ks ih =>
    exact .other (h e List.mem_cons_self) (ih (fun f hf => h f (List.mem_cons_of_mem _ hf)))

namespace SaxValue

theorem memberEvents_append (ms ms' : List (String × SaxValue)) :
    memberEvents (ms ++ ms') = memberEvents ms ++ memberEvents ms' := by
  induction ms with
  | nil => rfl
  | cons m ms ih =>
    obtain ⟨key,v⟩ := m
    simp only [List.cons_append,memberEvents,ih,List.append_assoc]

end SaxValue

namespace DepthMessage

def texts (level : LevelText) : List String := [level.1,level.2]

def arrays (m : DepthMessage) : List (String × List String) :=
  m.bids.map (fun level => ("bids",texts level)) ++ m.asks.map (fun level => ("asks",texts level))

/-- The other members have no array under a key of the book. -/
def Quiet (m : DepthMessage) : Prop :=
  ∀ e ∈ SaxEvent.keyed "data" (SaxValue.memberEvents m.before) ++
    SaxEvent.keyed "bids" (SaxValue.memberEvents m.between) ++
    SaxEvent.keyed "asks" (SaxValue.memberEvents m.after), ¬ IsBookArray e

/-- Inside of a side the key in force stays. -/
theorem keyed_side (key : String) (levels : List LevelText) (es : List SaxEvent) :
    SaxEvent.keyed key ((side levels).events ++ es) =
      sideEvents key (levels.map texts) ++ SaxEvent.keyed key es := by
  have helements : ∀ es, SaxEvent.keyed key (SaxValue.elementEvents
      (levels.map (fun level => .array [.string level.1,.string level.2])) ++ es) =
      (levels.map texts).flatMap (arrayEvents key) ++ SaxEvent.keyed key es := by
    intro es
    induction levels with
    | nil => rfl
    | cons level levels ih =>
      rw [List.map_cons,List.map_cons,List.flatMap_cons,SaxValue.elementEvents,List.append_assoc,
        List.append_assoc,← ih]
      rfl
  rw [side,SaxValue.events,List.cons_append,List.cons_append,List.append_assoc]
  change (key,.startArray) :: SaxEvent.keyed key _ = _
  rw [helements,sideEvents]
  simp [SaxEvent.keyed]

theorem keyed_rest (m : DepthMessage) : ∃ key, SaxEvent.keyed "stream" m.rest =
    ("data",.startObject) :: (SaxEvent.keyed "data" (SaxValue.memberEvents m.before) ++
      (sideEvents "bids" (m.bids.map texts) ++
        (SaxEvent.keyed "bids" (SaxValue.memberEvents m.between) ++
          (sideEvents "asks" (m.asks.map texts) ++
            (SaxEvent.keyed "asks" (SaxValue.memberEvents m.after) ++
              [(key,.endObject),(key,.endObject)]))))) := by
  refine ⟨SaxEvent.keyAfter "asks" (SaxValue.memberEvents m.after),?_⟩
  have hrest : m.rest = .key "data" :: .startObject :: (SaxValue.memberEvents m.before ++
      .key "bids" :: ((side m.bids).events ++ (SaxValue.memberEvents m.between ++
        .key "asks" :: ((side m.asks).events ++ (SaxValue.memberEvents m.after ++
          [.endObject,.endObject]))))) := by
    simp [rest,data,SaxValue.events,SaxValue.memberEvents,SaxValue.memberEvents_append]
  rw [hrest]
  change ("data",SaxEvent.startObject) :: SaxEvent.keyed "data" _ = _
  rw [SaxEvent.keyed_append]
  change _ :: (_ ++ SaxEvent.keyed "bids" _) = _
  rw [keyed_side,SaxEvent.keyed_append]
  change _ :: (_ ++ (_ ++ (_ ++ SaxEvent.keyed "asks" _))) = _
  rw [keyed_side,SaxEvent.keyed_append]
  rfl

/-- The events of a snapshot are those of a depth message whose arrays are pairs. -/
theorem depthEvents {m : DepthMessage} (h : m.Quiet) :
    DepthEvents (SaxEvent.keyed "stream" m.rest) m.arrays := by
  obtain ⟨key,hrest⟩ := m.keyed_rest
  simp only [Quiet,List.mem_append,or_imp,forall_and] at h
  obtain ⟨⟨hbefore,hbetween⟩,hafter⟩ := h
  have hend : ∀ e ∈ SaxEvent.keyed "asks" (SaxValue.memberEvents m.after) ++
      [(key,.endObject),(key,.endObject)], ¬ IsBookArray e := by
    intro e he
    rcases List.mem_append.mp he with he | he
    · exact hafter e he
    · simp only [List.mem_cons,List.not_mem_nil,or_false,or_self] at he
      simp [he,IsBookArray]
  have hasks : DepthEvents (sideEvents "asks" (m.asks.map texts) ++ _) _ :=
    .side rfl (depthEvents_of_quiet hend)
  have hbids : DepthEvents (sideEvents "bids" (m.bids.map texts) ++ _) _ :=
    .side rfl ((depthEvents_of_quiet hbetween).append hasks)
  have hmessage := (depthEvents_of_quiet hbefore).append hbids
  rw [hrest]
  refine .other (by simp [IsBookArray,isBookKey]) ?_
  simpa [arrays,Function.comp_def] using hmessage

theorem regular_arrays (m : DepthMessage) : Regular m.arrays := by
  have hpairs : ∀ pairs : List (String × List String), (∀ array ∈ pairs, array.2.length = 2) →
      Regular pairs := by
    intro pairs hpairs
    induction pairs with
    | nil => exact trivial
    | cons array pairs ih =>
      obtain ⟨hlength,hrest⟩ := List.forall_mem_cons.mp hpairs
      exact Or.inl ⟨Or.inr hlength,ih hrest⟩
  refine hpairs _ ?_
  intro array harray
  simp only [arrays,List.mem_append,List.mem_map] at harray
  rcases harray with ⟨level,_,rfl⟩ | ⟨level,_,rfl⟩ <;> rfl

end DepthMessage

theorem DecodedFrom.of_pairs {strtod : String → Double} {key : String} {levels : List LevelText}
    {arrays : List (String × List String)} {decoded : List (OrderbookLevel Double)}
    (h : DecodedFrom strtod key
      (levels.map (fun level => (key,DepthMessage.texts level)) ++ arrays) decoded) :
    ∃ behind, DecodedFrom strtod key arrays behind ∧
      decoded = levels.map (fun level => ⟨strtod level.1,strtod level.2⟩) ++ behind := by
  induction levels generalizing decoded with
  | nil => exact ⟨decoded,h,rfl⟩
  | cons level levels ih =>
    cases h with
    | level price volume more h =>
      obtain ⟨behind,hbehind,rfl⟩ := ih h
      exact ⟨behind,hbehind,rfl⟩
    | skipped hstrings _ => exact absurd rfl (hstrings rfl)

theorem DecodedFrom.of_other {strtod : String → Double} {key key' : String} (hkey : key' ≠ key)
    {levels : List LevelText} {arrays : List (String × List String)}
    {decoded : List (OrderbookLevel Double)}
    (h : DecodedFrom strtod key
      (levels.map (fun level => (key',DepthMessage.texts level)) ++ arrays) decoded) :
    DecodedFrom strtod key arrays decoded := by
  induction levels with
  | nil => exact h
  | cons level levels ih =>
    cases h with
    | level => exact absurd rfl hkey
    | skipped _ h => exact ih h

theorem DepthMessage.completed_eq {strtod : String → Double} {m : DepthMessage}
    {o : Orderbook Double} (h : ArraysDecoded strtod m.arrays o) :
    o.completed "bids" = m.bids.map (fun level => ⟨strtod level.1,strtod level.2⟩) ∧
      o.completed "asks" = m.asks.map (fun level => ⟨strtod level.1,strtod level.2⟩) := by
  constructor
  · obtain ⟨behind,hbehind,hbids⟩ := (h "bids" rfl).of_pairs
    rw [← List.append_nil (m.asks.map _)] at hbehind
    cases hbehind.of_other (by decide)
    rw [hbids,List.append_nil]
  · have hasks := (h "asks" rfl).of_other (by decide)
    rw [← List.append_nil (m.asks.map _)] at hasks
    obtain ⟨behind,hbehind,hasks⟩ := hasks.of_pairs
    cases hbehind
    rw [hasks,List.append_nil]

/-- With storage for its levels a snapshot is decoded. -/
theorem depthSnapshot_decoded_of_storage (strtod : String → Double) {m : DepthMessage}
    (h : m.Quiet) (storage : LevelStorage Double (bookFields m.arrays).length) :
    Decoded strtod m ((SaxEvent.keyed "stream" m.rest).foldl (OrderbookLevelsParser.step strtod)
      (OrderbookLevelsParser.withStorage storage)).mOrderbook := by
  have hread := (OrderbookLevelsParser.represents_withStorage storage).foldl_depthEvents strtod
    (DepthMessage.depthEvents h) (OrderbookLevelsParser.room_start storage)
  obtain ⟨hbids,hasks⟩ := DepthMessage.completed_eq
    (arraysDecoded_of_regular strtod (DepthMessage.depthEvents h) storage m.regular_arrays)
  have hnumberOfBids := hread.bids.number
  have hnumberOfAsks := hread.asks.number
  rw [← hread.completed_eq rfl,hbids,List.length_map] at hnumberOfBids
  rw [← hread.completed_eq rfl,hasks,List.length_map] at hnumberOfAsks
  refine ⟨hnumberOfBids,hnumberOfAsks,?_,?_,hread.bids.inBounds,hread.asks.inBounds⟩
  · rw [← hnumberOfBids,← hbids,Orderbook.completed,if_neg (by decide)]
  · rw [← hnumberOfAsks,← hasks,Orderbook.completed,if_pos rfl]

end Moboware
