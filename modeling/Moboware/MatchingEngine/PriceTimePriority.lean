import Moboware.MatchingEngine.TradeAccounting
import Moboware.MatchingEngine.Uncrossed

/-! # Price-time priority

The textbook matching of one incoming order against the opposite side, stated on
the levels alone: no book of its own side, no loop over two tops. `OrderInsert`
reaches the same books and sends the same messages.
-/
namespace Moboware
open Library MatchingEngine OrderLevel
variable {Endpoint : Type*} {c d : TCompare}

/-- The incoming order accepts the price. -/
def Marketable (o : OrderInsertData) (price : PriceType) : Prop :=
  if o.isBuySide then price ≤ o.price else o.price ≤ price

instance (o : OrderInsertData) (price : PriceType) : Decidable (Marketable o price) :=
  inferInstanceAs (Decidable (if o.isBuySide then price ≤ o.price else o.price ≤ price))

/-- What a sweep leaves: resting orders, the incoming order and the trades sent. -/
structure Swept (α : Type) where
  left : α
  remainder : OrderInsertData
  trades : List Trade

/-- The incoming order against the orders of one level in time priority. -/
def sweepQueue (o : OrderInsertData) : List OrderInsertData → Swept (List OrderInsertData)
  | [] => ⟨[],o,[]⟩
  | x :: xs =>
    if o.volume ≠ 0 ∧ Marketable o x.price then
      let v := min x.volume o.volume
      let o' : OrderInsertData := { o with volume := o.volume - v }
      if x.volume = v then
        let s := sweepQueue o' xs
        ⟨s.left,s.remainder,x.tradeOf v :: o.tradeOf v :: s.trades⟩
      else ⟨{ x with volume := x.volume - v } :: xs,o',[x.tradeOf v,o.tradeOf v]⟩
    else ⟨x :: xs,o,[]⟩

/-- The incoming order against the levels, best price first. -/
def sweepLevels (o : OrderInsertData) :
    List (PriceType × OrderLevel) → Swept (List (PriceType × OrderLevel))
  | [] => ⟨[],o,[]⟩
  | (price,level) :: levels =>
    let s := sweepQueue o level.timeQueue
    if s.left = [] then
      let t := sweepLevels s.remainder levels
      ⟨t.left,t.remainder,s.trades ++ t.trades⟩
    else ⟨(price,⟨s.left⟩) :: levels,s.remainder,s.trades⟩

/-- An order at the tail of its own price level, which is opened when missing. -/
def enqueue (c : TCompare) (o : OrderInsertData) :
    List (PriceType × OrderLevel) → List (PriceType × OrderLevel)
  | [] => [(o.price,⟨[o]⟩)]
  | (price,level) :: levels =>
    if price = o.price then (price,⟨level.timeQueue ++ [o]⟩) :: levels
    else if c.before o.price price then (o.price,⟨[o]⟩) :: (price,level) :: levels
    else (price,level) :: enqueue c o levels

/-- The reference: sweep the opposite side, then rest what is left. -/
def priceTimeInsert (c : TCompare) (o : OrderInsertData)
    (opposite own : List (PriceType × OrderLevel)) :
    (List (PriceType × OrderLevel) × List (PriceType × OrderLevel)) × List Trade :=
  let s := sweepLevels o opposite
  ((s.left,if s.remainder.volume = 0 then own else enqueue c s.remainder own),s.trades)

theorem matchPricePredicate_eq (o x : OrderInsertData) :
    matchPricePredicate o x = decide (Marketable o x.price) := by
  by_cases h : o.isBuySide = true <;> simp [matchPricePredicate,Marketable,h]

section Sweep

theorem sweepLevels_stop {o x : OrderInsertData} {xs : List OrderInsertData} {price : PriceType}
    {levels : List (PriceType × OrderLevel)} (h : ¬ (o.volume ≠ 0 ∧ Marketable o x.price)) :
    sweepLevels o ((price,⟨x :: xs⟩) :: levels) = ⟨(price,⟨x :: xs⟩) :: levels,o,[]⟩ := by
  simp only [sweepLevels,sweepQueue,if_neg h,reduceCtorEq,↓reduceIte]

/-- A filled opposite order leaves, and so does its level when it was the last one. -/
theorem sweepLevels_filled {o x : OrderInsertData} {xs : List OrderInsertData} {price : PriceType}
    {levels : List (PriceType × OrderLevel)} (h : o.volume ≠ 0 ∧ Marketable o x.price)
    (hv : x.volume = min x.volume o.volume) :
    sweepLevels o ((price,⟨x :: xs⟩) :: levels) =
      let v := min x.volume o.volume
      let t := sweepLevels { o with volume := o.volume - v }
        (if xs = [] then levels else (price,⟨xs⟩) :: levels)
      ⟨t.left,t.remainder,x.tradeOf v :: o.tradeOf v :: t.trades⟩ := by
  have hq : sweepQueue o (x :: xs) =
      let v := min x.volume o.volume
      let s := sweepQueue { o with volume := o.volume - v } xs
      ⟨s.left,s.remainder,x.tradeOf v :: o.tradeOf v :: s.trades⟩ := by
    rw [sweepQueue,if_pos h]
    exact if_pos hv
  cases xs with
  | nil =>
    rw [sweepLevels,hq]
    simp [sweepQueue]
  | cons y ys =>
    rw [sweepLevels,hq]
    simp only [reduceCtorEq,↓reduceIte,sweepLevels]
    split_ifs <;> simp

theorem sweepLevels_reduced {o x : OrderInsertData} {xs : List OrderInsertData} {price : PriceType}
    {levels : List (PriceType × OrderLevel)} (h : o.volume ≠ 0 ∧ Marketable o x.price)
    (hv : x.volume ≠ min x.volume o.volume) :
    sweepLevels o ((price,⟨x :: xs⟩) :: levels) =
      let v := min x.volume o.volume
      ⟨(price,⟨{ x with volume := x.volume - v } :: xs⟩) :: levels,
        { o with volume := o.volume - v },[x.tradeOf v,o.tradeOf v]⟩ := by
  simp only [sweepLevels,sweepQueue,if_pos h,if_neg hv,reduceCtorEq,↓reduceIte]

end Sweep

section Enqueue

theorem place_eq_enqueue (o : OrderInsertData) {levels : List (PriceType × OrderLevel)}
    (h : ∀ e ∈ levels, e.1 ≠ o.price) :
    OrderedMap.place c.before o.price ⟨[o]⟩ levels = enqueue c o levels := by
  induction levels with
  | nil => rfl
  | cons e levels ih =>
    have hne : e.1 ≠ o.price := h e List.mem_cons_self
    rw [OrderedMap.place,enqueue,if_neg hne,if_neg hne.symm,
      ih (fun e' he => h e' (List.mem_cons_of_mem e he))]

theorem enqueue_split (o : OrderInsertData) (level : OrderLevel)
    {pre post : List (PriceType × OrderLevel)} (h : ∀ e ∈ pre, c.before e.1 o.price) :
    enqueue c o (pre ++ (o.price,level) :: post) =
      pre ++ (o.price,⟨level.timeQueue ++ [o]⟩) :: post := by
  induction pre with
  | nil => rw [List.nil_append,enqueue,if_pos rfl,List.nil_append]
  | cons e pre ih =>
    have he : c.before e.1 o.price := h e List.mem_cons_self
    have hne : e.1 ≠ o.price := fun heq => irrefl_of c.before o.price (heq ▸ he)
    rw [List.cons_append,enqueue,if_neg hne,if_neg (asymm_of c.before he),
      ih (fun e' he' => h e' (List.mem_cons_of_mem e he')),List.cons_append]

theorem enqueue_of_first {o : OrderInsertData} {levels : List (PriceType × OrderLevel)}
    (h : ∀ e ∈ levels, c.before o.price e.1) :
    enqueue c o levels = (o.price,⟨[o]⟩) :: levels := by
  rcases levels with _ | ⟨⟨price,level⟩,levels⟩
  · rfl
  · have hb : c.before o.price price := h _ List.mem_cons_self
    have hne : price ≠ o.price := fun he => irrefl_of c.before o.price (he ▸ hb)
    rw [enqueue,if_neg hne,if_pos hb]

/-- Behind or in the first level an order does not become the best one. -/
theorem enqueue_of_not_first {o best : OrderInsertData} {key : PriceType}
    {queue : List OrderInsertData} {tail : List (PriceType × OrderLevel)}
    (h : ¬ c.before o.price key) : ∃ queue' tail',
      enqueue c o ((key,⟨best :: queue⟩) :: tail) = (key,⟨best :: queue'⟩) :: tail' := by
  by_cases hk : key = o.price
  · exact ⟨queue ++ [o],tail,by rw [enqueue,if_pos hk,List.cons_append]⟩
  · exact ⟨queue,enqueue c o tail,by rw [enqueue,if_neg hk,if_neg h]⟩

/-- `OrderBook::Insert` appends to the level of the price, or opens it in place. -/
theorem OrderBook.insert_entries (book : OrderBook c) (o : OrderInsertData) :
    (book.insert o).1.orderBookMap.entries = enqueue c o book.orderBookMap.entries := by
  cases h : book.orderBookMap.find? o.price with
  | none =>
    rw [insert_of_absent h]
    exact place_eq_enqueue o (OrderedMap.find?_eq_none_iff.mp h)
  | some level =>
    obtain ⟨pre,post,hs⟩ := OrderedMap.split_of_find? h
    have hsorted := book.orderBookMap.sorted
    rw [hs.entries,List.pairwise_append] at hsorted
    rw [insert_of_split hs,(hs.modify (fun _ => ⟨level.timeQueue ++ [o]⟩)).entries,hs.entries]
    exact (enqueue_split o level
      (fun e he => hsorted.2.2 e he _ List.mem_cons_self)).symm

end Enqueue

theorem sweepLevels_of_filled {o : OrderInsertData} {levels : List (PriceType × OrderLevel)}
    (hlevels : ∀ e ∈ levels, e.2.timeQueue ≠ []) (h : o.volume = 0) :
    sweepLevels o levels = ⟨levels,o,[]⟩ := by
  rcases levels with _ | ⟨⟨price,⟨_ | ⟨x,xs⟩⟩⟩,levels⟩
  · rfl
  · exact absurd rfl (hlevels _ List.mem_cons_self)
  · exact sweepLevels_stop (fun hc => hc.1 h)

theorem sweepLevels_of_executeRound_none {opp : OrderBook c} {own : OrderBook d}
    (hopp : opp.NoEmptyLevel) (o : own.Front) (h : executeRound (opp,own) = none) :
    sweepLevels o.best opp.orderBookMap.entries = ⟨opp.orderBookMap.entries,o.best,[]⟩ := by
  rcases he : opp.orderBookMap.entries with _ | ⟨⟨price,⟨_ | ⟨x,xs⟩⟩⟩,levels⟩
  · rfl
  · exact absurd rfl (hopp (price,⟨[]⟩) (he ▸ List.mem_cons_self))
  · have hm : matchPricePredicate o.best x = false := by
      by_contra hm
      rw [Bool.not_eq_false] at hm
      rw [executeRound_of_fronts ⟨price,x,xs,levels,he⟩ o,if_pos hm] at h
      cases h
    rw [matchPricePredicate_eq,decide_eq_false_iff_not] at hm
    exact sweepLevels_stop (fun hc => hm hc.2)

/-- An order that none of the levels would match. -/
def OutOfReach (levels : List (PriceType × OrderLevel)) (_price : PriceType) (x : OrderInsertData) :
    Prop := ∀ e ∈ levels, ∀ g ∈ e.2.timeQueue, matchPricePredicate g x = false

theorem outOfReach_fillStable (levels : List (PriceType × OrderLevel)) :
    OrderBook.FillStable (OutOfReach levels) := fun _ _ _ h _ => h

theorem executeRound_eq_none_of_outOfReach {opp : OrderBook c} {own : OrderBook d}
    (h : opp.Forall (OutOfReach own.orderBookMap.entries)) : executeRound (opp,own) = none := by
  cases hr : executeRound (opp,own) with
  | none => rfl
  | some r =>
    obtain ⟨x,o,hm,_⟩ := executeRound_eq_some_iff.mp hr
    have hno := x.forall_best h (o.key,⟨o.best :: o.queue⟩)
      (o.entries_eq ▸ List.mem_cons_self) o.best List.mem_cons_self
    rw [hno] at hm
    cases hm

section Simulation

/-- The loop on an incoming order at the top of its own book, seen against the
sweep: the levels below it are the book as it was before the insert. -/
def Simulates (levels : List (PriceType × OrderLevel)) (s : OrderBook c × OrderBook d)
    (r : (OrderBook c × OrderBook d) × List Trade) : Prop :=
  ∀ o, o.volume ≠ 0 → s.2.orderBookMap.entries = (o.price,⟨[o]⟩) :: levels →
    s.1.NoEmptyLevel → KeyedByPrice s.1 → s.1.Forall (OutOfReach levels) →
    let t := sweepLevels o s.1.orderBookMap.entries
    r.1.1.orderBookMap.entries = t.left ∧
    r.1.2.orderBookMap.entries =
      (if t.remainder.volume = 0 then levels else (o.price,⟨[t.remainder]⟩) :: levels) ∧
    r.2 = t.trades

theorem executeRound_simulates {levels : List (PriceType × OrderLevel)}
    {s s' : OrderBook c × OrderBook d} {trades : List Trade}
    {r : (OrderBook c × OrderBook d) × List Trade} (hb : executeRound s = some (s',trades))
    (hstop : executeRound s' = none → r = (s',[])) (ih : Simulates levels s' r) :
    Simulates levels s (r.1,trades ++ r.2) := by
  intro o hvol htop hne hkeyed hreach
  obtain ⟨opp,own⟩ := s
  obtain ⟨x,fo,hm,he⟩ := executeRound_eq_some_iff.mp hb
  obtain rfl := Subsingleton.elim fo ⟨o.price,o,[],levels,htop⟩
  cases he
  have hx : x.best.price = x.key := x.forall_best hkeyed
  have hmark : o.volume ≠ 0 ∧ Marketable o x.best.price := by
    rw [matchPricePredicate_eq,decide_eq_true_eq] at hm
    exact ⟨hvol,hm⟩
  let fo : own.Front := ⟨o.price,o,[],levels,htop⟩
  obtain ⟨v,hv⟩ : ∃ v, v = min x.best.volume o.volume := ⟨_,rfl⟩
  have hround : roundVolume x.best o = v := hv.symm
  simp only [hround] at hstop ih ⊢
  have hreach' : (x.fill v).Forall (OutOfReach levels) :=
    x.fill_forall (outOfReach_fillStable levels) hreach v
  -- Once the incoming order is filled its book is `levels` again and the loop stops.
  have hdone : o.volume - v = 0 → (fo.fill v).orderBookMap.entries = levels ∧
      r = ((x.fill v,fo.fill v),[]) := by
    intro hz
    have hs : settle o v [] = [] := by rw [settle,if_pos hz]
    have hentries := fo.fill_entries_of_keyed rfl hs
    exact ⟨hentries,hstop (executeRound_eq_none_of_outOfReach (by rw [hentries]; exact hreach'))⟩
  have hne' := x.fill_noEmptyLevel hx hne v
  by_cases hfull : x.best.volume = v
  · have hopp : (x.fill v).orderBookMap.entries =
        if x.queue = [] then x.tail else (x.key,⟨x.queue⟩) :: x.tail := by
      have hs : settle x.best v x.queue = x.queue := settle_of_full x.queue hfull.symm
      split_ifs with hq
      · exact x.fill_entries_of_keyed hx (hs.trans hq)
      · rw [x.fill_entries_of_ne_nil (by rw [hs]; exact hq),hs]
    rw [x.entries_eq,sweepLevels_filled hmark (hfull.trans hv),← hv,← hopp]
    by_cases hz : o.volume - v = 0
    · obtain ⟨hentries,rfl⟩ := hdone hz
      have hfilled := sweepLevels_of_filled (o := { o with volume := o.volume - v }) hne' hz
      simp only [hfilled]
      exact ⟨trivial,by simpa [hz] using hentries,rfl⟩
    · have hs : settle o v [] = [{ o with volume := o.volume - v }] := by rw [settle,if_neg hz]
      have htop' : (fo.fill v).orderBookMap.entries =
          (o.price,⟨[{ o with volume := o.volume - v }]⟩) :: levels := by
        rw [fo.fill_entries_of_ne_nil (by rw [show settle fo.best v fo.queue = _ from hs]; simp)]
        exact congrArg (fun q => (o.price,OrderLevel.mk q) :: levels) hs
      obtain ⟨h1,h2,h3⟩ := ih { o with volume := o.volume - v } hz htop' hne' (x.fill_forall keyedByPrice_fillStable hkeyed v) hreach'
      exact ⟨h1,h2,by rw [h3]; rfl⟩
  · have hz : o.volume - v = 0 := by
      have hor := roundVolume_eq x.best o
      rw [hround] at hor
      rcases hor with h | h
      · exact absurd h.symm hfull
      · rw [h]
        exact UInt64.sub_self o.volume
    have hxv : x.best.volume - v ≠ 0 := fun h => hfull (by grind)
    have hs : settle x.best v x.queue = { x.best with volume := x.best.volume - v } :: x.queue := by
      rw [settle,if_neg hxv]
    have hopp := x.fill_entries_of_ne_nil (v := v) (by rw [hs]; simp)
    obtain ⟨hentries,rfl⟩ := hdone hz
    rw [x.entries_eq,sweepLevels_reduced hmark (fun h => hfull (h.trans hv.symm)),← hv]
    exact ⟨by rw [hopp,hs],by simpa [hz] using hentries,rfl⟩

theorem executeOrder_simulates (levels : List (PriceType × OrderLevel)) (opp : OrderBook c)
    (own : OrderBook d) : Simulates levels (opp,own) (executeOrder opp own) := by
  refine ((executeLoop c d).run_induction
    (P := fun s r => (executeRound s = none → r = (s,[])) ∧ Simulates levels s r) ?_ ?_
    (opp,own)).2
  · intro s hstop
    refine ⟨fun _ => rfl,?_⟩
    intro o hvol htop hne _ _
    obtain ⟨opp,own⟩ := s
    have hs := sweepLevels_of_executeRound_none hne ⟨o.price,o,[],levels,htop⟩ hstop
    simp only [hs,if_neg hvol]
    exact ⟨trivial,htop,trivial⟩
  · intro s s' trades r hb ih
    refine ⟨fun hnone => ?_,executeRound_simulates hb ih.1 ih.2⟩
    rw [show executeRound s = some (s',trades) from hb] at hnone
    cases hnone

end Simulation

section Remainder

theorem sweepQueue_remainder_price (o : OrderInsertData) (queue : List OrderInsertData) :
    (sweepQueue o queue).remainder.price = o.price := by
  induction queue generalizing o with
  | nil => rfl
  | cons x xs ih =>
    rw [sweepQueue]
    dsimp only
    split_ifs
    · exact ih { o with volume := o.volume - min x.volume o.volume }
    · rfl
    · rfl

/-- The sweep takes volume from the incoming order and leaves its price. -/
theorem sweepLevels_remainder_price (o : OrderInsertData)
    (levels : List (PriceType × OrderLevel)) :
    (sweepLevels o levels).remainder.price = o.price := by
  induction levels generalizing o with
  | nil => rfl
  | cons e levels ih =>
    rw [sweepLevels]
    have hq := sweepQueue_remainder_price o e.2.timeQueue
    split_ifs
    · exact (ih _).trans hq
    · exact hq

end Remainder

namespace MatchingEngine

/-- An uncrossed own side does not reach the opposite one. -/
theorem Settled.not_marketable {engine : MatchingEngine} (h : engine.Settled) {b : Bool}
    {x o : OrderInsertData} (hx : x ∈ (engine.side (!b)).orders)
    (ho : o ∈ (engine.side b).orders) : matchPricePredicate o x = false := by
  obtain ⟨e,he,hoe⟩ := OrderBook.mem_orders.mp ho
  have hside : o.isBuySide = b := ((h.sound b).placed e he o hoe).1
  cases b
  · simpa [matchPricePredicate,hside] using h.uncrossed x hx o ho
  · simpa [matchPricePredicate,hside] using h.uncrossed o ho x hx

/-- An incoming order that is not better than its own side meets nothing: the loop
returns at once, and so does the sweep. -/
theorem executeOrder_of_not_first {engine : MatchingEngine} (h : engine.Settled) {b : Bool}
    {o : OrderInsertData} (hside : o.isBuySide = b) {own' : OrderBook (TCompare.ofSide b)}
    (f : own'.Front) (hbest : f.best ∈ (engine.side b).orders)
    (hprice : ¬ (TCompare.ofSide b).before o.price f.best.price) :
    executeOrder (engine.side (!b)) own' = ((engine.side (!b),own'),[]) ∧
      sweepLevels o (engine.side (!b)).orderBookMap.entries =
        ⟨(engine.side (!b)).orderBookMap.entries,o,[]⟩ := by
  have hno : ∀ x ∈ (engine.side (!b)).orders, matchPricePredicate f.best x = false :=
    fun x hx => h.not_marketable hx hbest
  constructor
  · refine EmittingLoop.run_of_none ?_
    cases hr : executeRound (engine.side (!b),own') with
    | none => exact hr
    | some r =>
      obtain ⟨x,fo,hm,_⟩ := executeRound_eq_some_iff.mp hr
      rw [Subsingleton.elim fo f,hno x.best x.best_mem] at hm
      cases hm
  · rcases he : (engine.side (!b)).orderBookMap.entries with _ | ⟨⟨price,⟨_ | ⟨x,xs⟩⟩⟩,levels⟩
    · rfl
    · exact absurd rfl ((h.sound (!b)).noEmptyLevel (price,⟨[]⟩) (he ▸ List.mem_cons_self))
    · let fx : (engine.side (!b)).Front := ⟨price,x,xs,levels,he⟩
      obtain ⟨e,hmem,hoe⟩ := OrderBook.mem_orders.mp hbest
      have hbehind : o.price = f.best.price ∨
          (TCompare.ofSide b).before f.best.price o.price :=
        (trichotomous_of _ o.price f.best.price).resolve_left hprice
      have hm : matchPricePredicate o x = false :=
        matchPricePredicate_of_behind ((h.sound b).placed e hmem f.best hoe).1 hside hbehind
          (Or.inl rfl) (hno x fx.best_mem)
      rw [matchPricePredicate_eq,decide_eq_false_iff_not] at hm
      exact sweepLevels_stop (fun hc => hm hc.2)

theorem executeOrder_insert {engine : MatchingEngine} (h : engine.Settled) {b : Bool}
    {o : OrderInsertData} (hside : o.isBuySide = b) (hvolume : o.volume ≠ 0) :
    let own := (engine.side b).orderBookMap.entries
    let s := sweepLevels o (engine.side (!b)).orderBookMap.entries
    let r := executeOrder (engine.side (!b)) ((engine.side b).insert o).1
    r.1.1.orderBookMap.entries = s.left ∧
    r.1.2.orderBookMap.entries =
      (if s.remainder.volume = 0 then own else enqueue (TCompare.ofSide b) s.remainder own) ∧
    r.2 = s.trades := by
  have hinsert := (engine.side b).insert_entries o
  have hsorted := (engine.side b).orderBookMap.sorted
  by_cases hfirst : ∀ e ∈ (engine.side b).orderBookMap.entries,
      (TCompare.ofSide b).before o.price e.1
  · -- The order is the new best one, and the loop is the sweep.
    rw [enqueue_of_first hfirst] at hinsert
    have hreach : (engine.side (!b)).Forall (OutOfReach (engine.side b).orderBookMap.entries) :=
      fun e he x hx e' he' g hg => h.not_marketable (OrderBook.mem_orders.mpr ⟨e,he,hx⟩)
        (OrderBook.mem_orders.mpr ⟨e',he',hg⟩)
    have hsim := executeOrder_simulates (engine.side b).orderBookMap.entries (engine.side (!b))
      ((engine.side b).insert o).1 o hvolume hinsert (h.sound (!b)).noEmptyLevel
      ((h.sound (!b)).placed.imp (fun _ _ hp => hp.2.1)) hreach
    have hprice := sweepLevels_remainder_price o (engine.side (!b)).orderBookMap.entries
    have hrest := enqueue_of_first (c := TCompare.ofSide b)
      (o := (sweepLevels o (engine.side (!b)).orderBookMap.entries).remainder)
      (fun e he => by rw [hprice]; exact hfirst e he)
    rw [hprice] at hrest
    simp only [hrest]
    exact hsim
  · rcases he : (engine.side b).orderBookMap.entries with _ | ⟨⟨key,⟨_ | ⟨g,gs⟩⟩⟩,tail⟩
    · exact absurd (fun e hm => absurd (he ▸ hm) List.not_mem_nil) hfirst
    · exact absurd rfl ((h.sound b).noEmptyLevel (key,⟨[]⟩) (he ▸ List.mem_cons_self))
    · have hkey : ¬ (TCompare.ofSide b).before o.price key := by
        intro hlt
        refine hfirst (fun e hm => ?_)
        rw [he] at hm hsorted
        rcases List.mem_cons.mp hm with rfl | hm
        · exact hlt
        · exact trans_of _ hlt ((List.pairwise_cons.mp hsorted).1 e hm)
      obtain ⟨queue,tail',hq⟩ : ∃ queue tail', enqueue (TCompare.ofSide b) o
          ((key,⟨g :: gs⟩) :: tail) = (key,⟨g :: queue⟩) :: tail' := enqueue_of_not_first hkey
      let f : (engine.side b).Front := ⟨key,g,gs,tail,he⟩
      have hstop := executeOrder_of_not_first h hside
        ⟨key,g,queue,tail',by rw [hinsert,he,hq]⟩ f.best_mem
        (by rw [show f.best.price = key from (f.forall_best (h.sound b).placed).2.1]; exact hkey)
      simp only [hstop.1,hstop.2,if_neg hvolume]
      exact ⟨trivial,by rw [hinsert,he],trivial⟩

/-- `OrderInsert` refines the price-time sweep: it replies, sends the trades of the
sweep in its order, and leaves the levels of the sweep on both sides. -/
theorem orderInsert_refines_priceTimeInsert {engine : MatchingEngine} (h : engine.Settled)
    {o : OrderInsertData} (hvolume : 0 < o.volume) (endpoint : Endpoint) :
    let own := engine.side o.isBuySide
    let opposite := engine.side (!o.isBuySide)
    let reference := priceTimeInsert (TCompare.ofSide o.isBuySide) o
      opposite.orderBookMap.entries own.orderBookMap.entries
    let r := engine.orderInsert o endpoint
    (r.1.side (!o.isBuySide)).orderBookMap.entries = reference.1.1 ∧
    (r.1.side o.isBuySide).orderBookMap.entries = reference.1.2 ∧
    r.2 = (.orderReply ⟨o.id,o.clientId⟩,endpoint) ::
      reference.2.map (fun trade => (.trade trade,endpoint)) := by
  obtain ⟨hopp,hown,htrades⟩ := executeOrder_insert h rfl (UInt64.pos_iff_ne_zero.mp hvolume)
  simp only [orderInsert_eq engine rfl,matched,side_withSides_opposite,side_withSides_own,
    replyAndTrades,htrades]
  exact ⟨hopp,hown,rfl⟩

/-- Asks for 4 at 30, 5 at 40, 6 and 7 at 50, and a bid for 1 at 20. -/
def threeAskLevels : MatchingEngine :=
  Machine.final handle fresh ([.orderInsert (limitOrder false "1" 30 4) (),
    .orderInsert (limitOrder false "2" 40 5) (),.orderInsert (limitOrder false "3" 50 6) (),
    .orderInsert (limitOrder false "4" 50 7) (),
    .orderInsert (limitOrder true "5" 20 1) ()] : List (Call Unit))

/-- A bid for 12 at 50 takes the first two levels and a part of the third. -/
theorem orderInsert_refines_priceTimeInsert_swept :
    let reference := priceTimeInsert .greater (limitOrder true "6" 50 12)
      threeAskLevels.asks.orderBookMap.entries threeAskLevels.bids.orderBookMap.entries
    (threeAskLevels.orderInsert (limitOrder true "6" 50 12) ()).1.asks.orderBookMap.entries =
        reference.1.1 ∧
      reference.1.1 = [(50,⟨[limitOrder false "3" 50 3,limitOrder false "4" 50 7]⟩)] := by
  have hsettled : threeAskLevels.Settled := by
    refine ⟨?_,by decide⟩
    rintro (_ | _) <;> exact ⟨by decide,by decide⟩
  have h := orderInsert_refines_priceTimeInsert hsettled (o := limitOrder true "6" 50 12)
    (by decide) ()
  exact ⟨h.1,by decide⟩

end MatchingEngine
end Moboware
