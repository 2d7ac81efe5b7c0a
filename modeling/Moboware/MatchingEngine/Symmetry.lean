import Moboware.Library.MapEmbedding
import Moboware.MatchingEngine.Sides

/-! # Buy and sell symmetry

Flipping every side and reflecting every price turns bids into asks. The two books
are differently ordered maps and the match predicate is written out per side, so
the reflected run is related to the run by a simulation, request by request.
-/
namespace Moboware
open Library MatchingEngine OrderLevel OrderBook
variable {Endpoint : Type*}

/-- The reflected price is positive and a 64-bit word. -/
def Reflectable (K : ℕ) (p : PriceType) : Prop := p.toNat < K ∧ K < p.toNat + UInt64.size

/-- `K - p`, as a price. -/
def mirrorPrice (K : ℕ) (p : PriceType) : PriceType := UInt64.ofNat (K - p.toNat)

def OrderDataBase.mirror (K : ℕ) (o : OrderDataBase) : OrderDataBase :=
  { o with price := mirrorPrice K o.price, isBuySide := !o.isBuySide }

def OrderAmendData.mirror (K : ℕ) (a : OrderAmendData) : OrderAmendData :=
  { a with toOrderDataBase := a.toOrderDataBase.mirror K, newPrice := mirrorPrice K a.newPrice }

def OrderCancelData.mirror (K : ℕ) (k : OrderCancelData) : OrderCancelData :=
  { k with price := mirrorPrice K k.price, isBuySide := !k.isBuySide }

def OrderLevel.mirror (K : ℕ) (level : OrderLevel) : OrderLevel :=
  ⟨level.timeQueue.map (OrderDataBase.mirror K)⟩

def Trade.mirror (K : ℕ) (t : Trade) : Trade := { t with tradedPrice := mirrorPrice K t.tradedPrice }

def Message.mirror (K : ℕ) : Message → Message
  | trade t => trade (t.mirror K)
  | message => message

namespace Call

def mirror (K : ℕ) : Call Endpoint → Call Endpoint
  | orderInsert o endpoint => orderInsert (o.mirror K) endpoint
  | orderAmend a endpoint => orderAmend (a.mirror K) endpoint
  | orderCancel k endpoint => orderCancel (k.mirror K) endpoint

/-- The old and new prices of a call. -/
def prices : Call Endpoint → List PriceType
  | orderInsert o _ => [o.price]
  | orderAmend a _ => [a.price,a.newPrice]
  | orderCancel k _ => [k.price]

end Call

theorem toNat_mirrorPrice {K : ℕ} {p : PriceType} (h : Reflectable K p) :
    (mirrorPrice K p).toNat = K - p.toNat := by
  obtain ⟨h1,h2⟩ := h
  exact UInt64.toNat_ofNat_of_lt' (by omega)

theorem mirrorPrice_lt_iff {K : ℕ} {p q : PriceType} (hp : Reflectable K p) (hq : Reflectable K q) :
    mirrorPrice K p < mirrorPrice K q ↔ q < p := by
  have h1 := hp.1
  rw [UInt64.lt_iff_toNat_lt,UInt64.lt_iff_toNat_lt,toNat_mirrorPrice hp,toNat_mirrorPrice hq]
  omega

theorem mirrorPrice_le_iff {K : ℕ} {p q : PriceType} (hp : Reflectable K p) (hq : Reflectable K q) :
    mirrorPrice K p ≤ mirrorPrice K q ↔ q ≤ p := by
  rw [← UInt64.not_lt,← UInt64.not_lt,mirrorPrice_lt_iff hq hp]

/-- Reflection reverses the order of the prices and so swaps the two comparators. -/
theorem before_mirrorPrice {K : ℕ} (b : Bool) (p q : PriceType) (hp : Reflectable K p)
    (hq : Reflectable K q) : (TCompare.ofSide (!b)).before (mirrorPrice K p) (mirrorPrice K q) ↔
      (TCompare.ofSide b).before p q := by
  cases b
  · exact mirrorPrice_lt_iff hq hp
  · exact mirrorPrice_lt_iff hp hq

theorem settle_mirror (K : ℕ) (o : OrderInsertData) (v : VolumeType) (rest : List OrderInsertData) :
    settle (o.mirror K) v (rest.map (OrderDataBase.mirror K)) =
      (settle o v rest).map (OrderDataBase.mirror K) := by
  by_cases h : o.volume - v = 0
  · rw [settle,settle,if_pos h,if_pos (show (o.mirror K).volume - v = 0 from h)]
  · rw [settle,settle,if_neg h,if_neg (show ¬ (o.mirror K).volume - v = 0 from h)]
    rfl

/-- The levels of a book are the mirror image of those of another one. -/
abbrev MirrorMap (K : ℕ) {c d : TCompare} (book : OrderBook c) (book' : OrderBook d) : Prop :=
  OrderedMap.Mapped (Reflectable K) (mirrorPrice K) (OrderLevel.mirror K)
    book.orderBookMap book'.orderBookMap

theorem MirrorMap.removeLevelAtPrice {K : ℕ} {c d : TCompare} {book : OrderBook c}
    {book' : OrderBook d} (h : MirrorMap K book book') {price : PriceType}
    (hp : Reflectable K price) : MirrorMap K (book.removeLevelAtPrice price)
      (book'.removeLevelAtPrice (mirrorPrice K price)) := by
  unfold OrderBook.removeLevelAtPrice
  rw [h.find? hp]
  cases book.orderBookMap.find? price with
  | none => exact h
  | some level => exact h.erase hp

/-- A book and its mirror image, with reflectable prices only. -/
structure MirrorBook (K : ℕ) {c d : TCompare} (book : OrderBook c) (book' : OrderBook d) : Prop where
  map : MirrorMap K book book'
  prices : book.Forall (fun _ o => Reflectable K o.price)

namespace MirrorBook
variable {K : ℕ} {c d : TCompare} {book : OrderBook c} {book' : OrderBook d}
  (h : MirrorBook K book book')
include h

theorem insert {o : OrderInsertData} (ho : Reflectable K o.price) :
    MirrorBook K (book.insert o).1 (book'.insert (o.mirror K)).1 := by
  refine ⟨?_,insert_forall h.prices ho⟩
  have hf : book'.orderBookMap.find? (o.mirror K).price = _ := h.map.find? ho
  cases hb : book.orderBookMap.find? o.price with
  | none =>
    rw [hb,Option.map_none] at hf
    rw [insert_of_absent hb,insert_of_absent hf]
    exact (h.map.emplace ho ⟨[o]⟩).1
  | some level =>
    rw [hb,Option.map_some] at hf
    obtain ⟨_,_,hs⟩ := OrderedMap.split_of_find? hb
    obtain ⟨_,_,hs'⟩ := OrderedMap.split_of_find? hf
    rw [insert_of_split hs,insert_of_split hs']
    exact h.map.modify ho (by simp [OrderLevel.mirror])

theorem rests_iff {price : PriceType} {id : Id} (hp : Reflectable K price) :
    book'.Rests (mirrorPrice K price) id ↔ book.Rests price id := by
  unfold Rests
  rw [h.map.find? hp]
  cases book.orderBookMap.find? price with
  | none => simp
  | some level => simp [OrderLevel.mirror,OrderDataBase.mirror]

omit h in
/-- The mirror image of a position. -/
def position (h : MirrorBook K book book') {price : PriceType} {id : Id}
    (p : book.Position price id) : book'.Position (mirrorPrice K price) id where
  pre := p.pre.map (fun e => (mirrorPrice K e.1,e.2.mirror K))
  before := p.before.map (OrderDataBase.mirror K)
  order := p.order.mirror K
  after := p.after.map (OrderDataBase.mirror K)
  post := p.post.map (fun e => (mirrorPrice K e.1,e.2.mirror K))
  split := by
    have hs := h.map.split p.split
    simpa only [OrderLevel.mirror,List.map_append,List.map_cons] using hs
  id_eq := p.id_eq
  first := by
    intro o ho
    obtain ⟨o',ho',rfl⟩ := List.mem_map.mp ho
    exact p.first o' ho'

section Position
variable {price : PriceType} {id : Id} (p : book.Position price id) (hp : Reflectable K price)
include hp

theorem withQueue {queue : List OrderInsertData} (hq : ∀ o ∈ queue, Reflectable K o.price) :
    MirrorBook K (p.withQueue queue)
      ((h.position p).withQueue (queue.map (OrderDataBase.mirror K))) :=
  ⟨h.map.modify hp rfl,p.withQueue_forall h.prices hq⟩

theorem dropped : MirrorBook K p.dropped (h.position p).dropped := by
  unfold Position.dropped
  have hq : (h.position p).before ++ (h.position p).after =
      (p.before ++ p.after).map (OrderDataBase.mirror K) := List.map_append.symm
  rw [hq,List.isEmpty_map]
  split_ifs
  · exact ⟨h.map.erase hp,fun e he => h.prices e (OrderedMap.mem_erase.mp he).1⟩
  · exact h.withQueue p hp (p.forall_queue h.prices)

theorem moved {newPrice : PriceType} (hnew : Reflectable K newPrice) (hne : price ≠ newPrice)
    (newVolume : VolumeType) : MirrorBook K (p.moved newPrice newVolume)
      ((h.position p).moved (mirrorPrice K newPrice) newVolume) := by
  refine ⟨?_,p.moved_forall hne h.prices hnew⟩
  have hq : (h.position p).before ++ (h.position p).after =
      (p.before ++ p.after).map (OrderDataBase.mirror K) := List.map_append.symm
  have hmap := (h.map.emplace hnew (OrderLevel.ofOrder (p.repriced newPrice newVolume))).1.modify hp
    (v := ⟨p.before ++ p.after⟩) rfl
  unfold Position.moved
  rw [hq,List.isEmpty_map]
  split_ifs
  · exact hmap.erase hp
  · exact hmap

theorem amended {newPrice : PriceType} (hnew : Reflectable K newPrice) (newVolume : VolumeType) :
    MirrorBook K (p.amended newPrice newVolume)
      ((h.position p).amended (mirrorPrice K newPrice) newVolume) := by
  unfold Position.amended
  simp only [h.map.eq_iff hp hnew]
  split_ifs with hv he
  · exact h.dropped p hp
  · have hqueue : ∀ o ∈ p.before ++ { p.order with volume := newVolume } :: p.after,
        Reflectable K o.price := by
      intro o ho
      rcases List.mem_append.mp ho with ho | ho
      · exact p.forall_queue h.prices o (List.mem_append_left p.after ho)
      · rcases List.mem_cons.mp ho with rfl | ho
        · exact p.forall_order h.prices
        · exact p.forall_queue h.prices o (List.mem_append_right p.before ho)
    have hmirror := h.withQueue p hp hqueue
    rw [List.map_append,List.map_cons] at hmirror
    exact hmirror
  · exact h.moved p hp hnew he newVolume

end Position

theorem amend {a : OrderAmendData} (hp : Reflectable K a.price) (hnew : Reflectable K a.newPrice) :
    MirrorBook K (book.amend a).1 (book'.amend (a.mirror K)).1 ∧
      (book'.amend (a.mirror K)).2 = (book.amend a).2 := by
  by_cases hr : book.Rests a.price a.id
  · obtain ⟨p⟩ := nonempty_position_iff.mpr hr
    have hp' := @amend_of_position _ book' (a.mirror K) (h.position p)
    rw [amend_of_position p,hp']
    exact ⟨h.amended p hp hnew a.newVolume,rfl⟩
  · rw [amend_of_not_rests hr,amend_of_not_rests (mt (h.rests_iff hp).mp hr)]
    exact ⟨h,rfl⟩

theorem cancel {k : OrderCancelData} (hp : Reflectable K k.price) :
    MirrorBook K (book.cancel k).1 (book'.cancel (k.mirror K)).1 ∧
      (book'.cancel (k.mirror K)).2 = (book.cancel k).2 := by
  by_cases hr : book.Rests k.price k.id
  · obtain ⟨p⟩ := nonempty_position_iff.mpr hr
    have hp' := @cancel_of_position _ book' (k.mirror K) (h.position p)
    have hmirror := h.withQueue p hp (p.forall_queue h.prices)
    rw [List.map_append] at hmirror
    rw [cancel_of_position p,hp']
    exact ⟨hmirror,rfl⟩
  · rw [cancel_of_not_rests hr,cancel_of_not_rests (mt (h.rests_iff hp).mp hr)]
    exact ⟨h,rfl⟩

omit h in
def front (h : MirrorBook K book book') (f : book.Front) : book'.Front where
  key := mirrorPrice K f.key
  best := f.best.mirror K
  queue := f.queue.map (OrderDataBase.mirror K)
  tail := f.tail.map (fun e => (mirrorPrice K e.1,e.2.mirror K))
  entries_eq := by
    rw [h.map.entries,f.entries_eq]
    rfl

theorem nonempty_front (f : book'.Front) : Nonempty book.Front := by
  have he := h.map.entries
  rw [f.entries_eq] at he
  rcases hb : book.orderBookMap.entries with _ | ⟨⟨key,⟨_ | ⟨best,queue⟩⟩⟩,tail⟩
  · simp [hb] at he
  · simp [hb,OrderLevel.mirror] at he
  · exact ⟨⟨key,best,queue,tail,hb⟩⟩

theorem fill (f : book.Front) (v : VolumeType) :
    MirrorBook K (f.fill v) ((h.front f).fill v) := by
  refine ⟨?_,f.fill_forall (fun _ _ _ hp _ => hp) h.prices v⟩
  have hs : settle (h.front f).best v (h.front f).queue = _ := settle_mirror K f.best v f.queue
  have hmap : MirrorMap K ⟨book.orderBookMap.modifyBegin (fun _ => ⟨settle f.best v f.queue⟩)⟩
      ⟨book'.orderBookMap.modifyBegin
        (fun _ => ⟨(settle f.best v f.queue).map (OrderDataBase.mirror K)⟩)⟩ :=
    h.map.modifyBegin rfl
  by_cases he : (settle f.best v f.queue).isEmpty = true
  · simp only [Front.fill,hs,OrderLevel.isEmpty,List.isEmpty_map,he,↓reduceIte]
    exact hmap.removeLevelAtPrice (f.forall_best h.prices)
  · simp only [Front.fill,hs,OrderLevel.isEmpty,List.isEmpty_map,he,↓reduceIte,Bool.false_eq_true]
    exact hmap

end MirrorBook

section Matching
variable {K : ℕ} {c d c' d' : TCompare}

theorem matchPricePredicate_mirror {o x : OrderInsertData} (ho : Reflectable K o.price)
    (hx : Reflectable K x.price) :
    matchPricePredicate (o.mirror K) (x.mirror K) = matchPricePredicate o x := by
  cases hb : o.isBuySide
  · simp [matchPricePredicate,OrderDataBase.mirror,hb,mirrorPrice_le_iff hx ho]
  · simp [matchPricePredicate,OrderDataBase.mirror,hb,mirrorPrice_le_iff ho hx]

/-- Two pairs of books, the second one the mirror image of the first. -/
def MirrorBooks (K : ℕ) (books : OrderBook c × OrderBook d) (books' : OrderBook c' × OrderBook d') :
    Prop := MirrorBook K books.1 books'.1 ∧ MirrorBook K books.2 books'.2

theorem executeRound_mirror_of_none {books : OrderBook c × OrderBook d}
    {books' : OrderBook c' × OrderBook d'} (h : MirrorBooks K books books')
    (hb : executeRound books = none) : executeRound books' = none := by
  obtain ⟨opp,own⟩ := books
  obtain ⟨opp',own'⟩ := books'
  cases hr : executeRound (opp',own') with
  | none => rfl
  | some r =>
    obtain ⟨⟨x'⟩,⟨o'⟩⟩ := nonempty_fronts_of_some hr
    obtain ⟨x⟩ := h.1.nonempty_front x'
    obtain ⟨o⟩ := h.2.nonempty_front o'
    have hm := matchPricePredicate_mirror (o.forall_best h.2.prices) (x.forall_best h.1.prices)
    rw [executeRound_of_fronts x o,ite_eq_right_iff] at hb
    have hno : ¬ matchPricePredicate o.best x.best = true := fun hyes => by cases hb hyes
    rw [executeRound_of_fronts (h.1.front x) (h.2.front o)] at hr
    exact absurd (hr.symm.trans (if_neg (hm ▸ hno))) (by simp)

theorem executeRound_mirror_of_some {books s : OrderBook c × OrderBook d} {trades : List Trade}
    {books' : OrderBook c' × OrderBook d'} (h : MirrorBooks K books books')
    (hb : executeRound books = some (s,trades)) :
    ∃ s', executeRound books' = some (s',trades.map (Trade.mirror K)) ∧ MirrorBooks K s s' := by
  obtain ⟨opp',own'⟩ := books'
  obtain ⟨x,o,hm,he⟩ := executeRound_eq_some_iff.mp hb
  cases he
  rw [← matchPricePredicate_mirror (o.forall_best h.2.prices) (x.forall_best h.1.prices)] at hm
  exact ⟨_,executeRound_eq_some_iff.mpr ⟨h.1.front x,h.2.front o,hm,rfl⟩,h.1.fill x _,h.2.fill o _⟩

theorem executeOrder_mirror {opp : OrderBook c} {own : OrderBook d} {opp' : OrderBook c'}
    {own' : OrderBook d'} (hopp : MirrorBook K opp opp') (hown : MirrorBook K own own') :
    MirrorBooks K (executeOrder opp own).1 (executeOrder opp' own').1 ∧
      (executeOrder opp' own').2 = (executeOrder opp own).2.map (Trade.mirror K) :=
  EmittingLoop.run_simulation (L := executeLoop c d) (M := executeLoop c' d')
    (R := MirrorBooks K) (fun _ _ h hb => executeRound_mirror_of_none h hb)
    (fun _ _ _ _ h hb => executeRound_mirror_of_some h hb) ⟨hopp,hown⟩

end Matching
namespace MatchingEngine
variable {K : ℕ}

/-- Each side of one engine is the mirror image of the other side of the other. -/
def MirrorEngine (K : ℕ) (engine engine' : MatchingEngine) : Prop :=
  ∀ b, MirrorBook K (engine.side b) (engine'.side (!b))

theorem fresh_mirror (K : ℕ) : MirrorEngine K fresh fresh := by
  intro b
  refine ⟨⟨before_mirrorPrice b,?_,?_⟩,?_⟩
  · cases b <;> rfl
  · cases b <;> exact fun _ he => absurd he List.not_mem_nil
  · cases b <;> exact fun _ he => absurd he List.not_mem_nil

theorem mirrorEngine_withSides {b : Bool} {opp : OrderBook (TCompare.ofSide (!b))}
    {own : OrderBook (TCompare.ofSide b)} {opp' : OrderBook (TCompare.ofSide (!!b))}
    {own' : OrderBook (TCompare.ofSide (!b))} (hopp : MirrorBook K opp opp')
    (hown : MirrorBook K own own') :
    MirrorEngine K (withSides b opp own) (withSides (!b) opp' own') := by
  intro b'
  cases b <;> cases b' <;> [exact hown; exact hopp; exact hopp; exact hown]

theorem matched_mirror {b : Bool} {opp : OrderBook (TCompare.ofSide (!b))}
    {own : OrderBook (TCompare.ofSide b)} {opp' : OrderBook (TCompare.ofSide (!!b))}
    {own' : OrderBook (TCompare.ofSide (!b))} (hopp : MirrorBook K opp opp')
    (hown : MirrorBook K own own') :
    MirrorEngine K (matched b opp own).1 (matched (!b) opp' own').1 ∧
      (matched (!b) opp' own').2 = (matched b opp own).2.map (Trade.mirror K) := by
  have h := executeOrder_mirror hopp hown
  exact ⟨mirrorEngine_withSides h.1.1 h.1.2,h.2⟩

def mirrorMessages (K : ℕ) (messages : List (Message × Endpoint)) : List (Message × Endpoint) :=
  messages.map (fun m => (m.1.mirror K,m.2))

theorem replyAndTrades_mirror (reply : OrderReply) (trades : List Trade) (endpoint : Endpoint) :
    replyAndTrades reply (trades.map (Trade.mirror K)) endpoint =
      mirrorMessages K (replyAndTrades reply trades endpoint) := by
  simp [replyAndTrades,mirrorMessages,Message.mirror]

/-- One call and its mirror image, from mirrored states. -/
theorem handle_mirror {engine engine' : MatchingEngine} {call : Call Endpoint}
    (h : MirrorEngine K engine engine') (hp : ∀ p ∈ call.prices, Reflectable K p) :
    MirrorEngine K (handle engine call).1 (handle engine' (call.mirror K)).1 ∧
      (handle engine' (call.mirror K)).2 = mirrorMessages K (handle engine call).2 := by
  cases call with
  | orderInsert o endpoint =>
    have hm := matched_mirror (h (!o.isBuySide))
      ((h o.isBuySide).insert (hp o.price List.mem_cons_self))
    rw [Call.mirror,handle,handle,orderInsert_eq engine rfl,
      orderInsert_eq engine' (show (o.mirror K).isBuySide = !o.isBuySide from rfl)]
    refine ⟨hm.1,?_⟩
    rw [← replyAndTrades_mirror,← hm.2]
    rfl
  | orderAmend a endpoint =>
    have hamend := (h a.isBuySide).amend (a := a) (hp a.price List.mem_cons_self)
      (hp a.newPrice (by simp [Call.prices]))
    rcases hr : (engine.side a.isBuySide).amend a with ⟨own,amended⟩
    rcases hr' : (engine'.side (!a.isBuySide)).amend (a.mirror K) with ⟨own',amended'⟩
    rw [hr,hr'] at hamend
    obtain ⟨hbook,rfl⟩ := hamend
    have hm := matched_mirror (h (!a.isBuySide)) hbook
    rw [Call.mirror,handle,handle,orderAmend_of_result engine rfl hr,
      orderAmend_of_result engine' (show (a.mirror K).isBuySide = !a.isBuySide from rfl) hr']
    split_ifs
    · refine ⟨hm.1,?_⟩
      rw [← replyAndTrades_mirror,← hm.2]
      rfl
    · exact ⟨mirrorEngine_withSides (h (!a.isBuySide)) hbook,rfl⟩
  | orderCancel k endpoint =>
    have hcancel := (h k.isBuySide).cancel (k := k) (hp k.price List.mem_cons_self)
    rcases hr : (engine.side k.isBuySide).cancel k with ⟨own,cancelled⟩
    rcases hr' : (engine'.side (!k.isBuySide)).cancel (k.mirror K) with ⟨own',cancelled'⟩
    rw [hr,hr'] at hcancel
    obtain ⟨hbook,rfl⟩ := hcancel
    rw [Call.mirror,handle,handle,orderCancel_of_result engine rfl hr,
      orderCancel_of_result engine' (show (k.mirror K).isBuySide = !k.isBuySide from rfl) hr']
    refine ⟨mirrorEngine_withSides (h (!k.isBuySide)) hbook,?_⟩
    split_ifs <;> rfl

end MatchingEngine

/-- The mirrored state: bids and asks swapped, prices reflected, the same queues. -/
def MirrorState (K : ℕ) (engine engine' : MatchingEngine) : Prop :=
  engine'.asks.orderBookMap.entries =
    engine.bids.orderBookMap.entries.map (fun e => (mirrorPrice K e.1,e.2.mirror K)) ∧
  engine'.bids.orderBookMap.entries =
    engine.asks.orderBookMap.entries.map (fun e => (mirrorPrice K e.1,e.2.mirror K))

/-- Buy and sell symmetry: the mirrored run goes through the mirrored states and sends
the mirrored messages, call by call. -/
theorem trace_mirror (K : ℕ) (calls : List (Call Endpoint))
    (hcalls : ∀ call ∈ calls, ∀ p ∈ call.prices, Reflectable K p) :
    List.Forall₂ (fun r r' => MirrorState K r.1 r'.1 ∧ r'.2 = mirrorMessages K r.2)
      (Machine.trace handle fresh calls)
      (Machine.trace handle fresh (calls.map (Call.mirror K))) := by
  refine (Machine.trace_simulation (R := MirrorEngine K) (g := fun m => (m.1.mirror K,m.2))
    (fun _ _ _ h hp => handle_mirror h hp) (fresh_mirror K) hcalls).imp ?_
  exact fun _ _ hr => ⟨⟨(hr.1 true).map.entries,(hr.1 false).map.entries⟩,hr.2⟩

/-- Bids at 50 and 40, an ask at 45 that trades and rests, an amend that trades again
and a cancel, all reflected at 100. -/
theorem trace_mirror_hundred :
    let calls : List (Call Unit) := [.orderInsert (limitOrder true "1" 50 10) (),
      .orderInsert (limitOrder true "2" 40 10) (),.orderInsert (limitOrder false "3" 45 14) (),
      .orderAmend { limitOrder true "2" 40 10 with newPrice := 46, newVolume := 7 } (),
      .orderCancel { price := 46, isBuySide := true, id := "2" } ()]
    List.Forall₂ (fun r r' => MirrorState 100 r.1 r'.1 ∧ r'.2 = mirrorMessages 100 r.2)
      (Machine.trace handle fresh calls)
      (Machine.trace handle fresh (calls.map (Call.mirror 100))) := by
  intro calls
  refine trace_mirror 100 calls ?_
  simp [calls,Call.prices,limitOrder,Reflectable,UInt64.size]

end Moboware
