import Moboware.MatchingEngine.Market
import Moboware.MatchingEngine.Reconciliation

/-! # The engine refines the market

The two maps of levels, read from the best price on, are the two lists of the market, and
the loop over two tops is its sweep. Both send the same messages over whole runs, as long as
no order is moved onto a level: the engine loses that order.
-/
namespace Moboware
open Library OrderLevel MatchingEngine
variable {Endpoint : Type*} {c : TCompare}

/-! ### Levels and lists -/

/-- A sweep of two queues is a sweep of the first, and of the second when that is used up. -/
theorem sweepQueue_append (o : OrderInsertData) (xs ys : List OrderInsertData) :
    sweepQueue o (xs ++ ys) =
      let s := sweepQueue o xs
      if s.left = [] then
        let t := sweepQueue s.remainder ys
        ⟨t.left,t.remainder,s.trades ++ t.trades⟩
      else ⟨s.left ++ ys,s.remainder,s.trades⟩ := by
  induction xs generalizing o with
  | nil => simp [sweepQueue]
  | cons x xs ih =>
    simp only [List.cons_append,sweepQueue]
    by_cases hm : o.volume ≠ 0 ∧ Marketable o x.price
    · by_cases hv : x.volume = min x.volume o.volume
      · simp only [if_pos hm,if_pos hv,ih]
        split_ifs <;> simp
      · simp [if_pos hm,if_neg hv]
    · simp [if_neg hm]

theorem sweepQueue_levels (o : OrderInsertData) (levels : List (PriceType × OrderLevel)) :
    let s := sweepLevels o levels
    sweepQueue o (levels.flatMap (fun e => e.2.timeQueue)) =
      ⟨s.left.flatMap (fun e => e.2.timeQueue),s.remainder,s.trades⟩ := by
  induction levels generalizing o with
  | nil => rfl
  | cons e levels ih =>
    obtain ⟨price,level⟩ := e
    simp only [List.flatMap_cons,sweepQueue_append,sweepLevels]
    split_ifs
    · simp only [ih]
    · rfl

/-- Resting passes a level that is not behind the order. -/
theorem rest_append {o : OrderInsertData} {xs : List OrderInsertData}
    (h : ∀ x ∈ xs, ¬ c.before o.price x.price) (ys : List OrderInsertData) :
    rest c o (xs ++ ys) = xs ++ rest c o ys := by
  have hall : ∀ x ∈ xs, (!decide (c.before o.price x.price)) = true :=
    fun x hx => by simpa using h x hx
  rw [rest,rest,List.takeWhile_append_of_pos hall,List.dropWhile_append_of_pos hall,
    List.append_assoc]

theorem rest_of_behind {o : OrderInsertData} {xs : List OrderInsertData}
    (h : ∀ x ∈ xs, c.before o.price x.price) : rest c o xs = o :: xs := by
  rcases xs with _ | ⟨x,xs⟩
  · rfl
  · simp [rest,h x List.mem_cons_self]

theorem flatMap_enqueue (o : OrderInsertData) {levels : List (PriceType × OrderLevel)}
    (hsorted : levels.Pairwise (fun e f => c.before e.1 f.1))
    (hkeyed : ∀ e ∈ levels, ∀ x ∈ e.2.timeQueue, x.price = e.1) :
    (enqueue c o levels).flatMap (fun e => e.2.timeQueue) =
      rest c o (levels.flatMap (fun e => e.2.timeQueue)) := by
  induction levels with
  | nil => rfl
  | cons e levels ih =>
    obtain ⟨price,level⟩ := e
    obtain ⟨hfirst,hsorted⟩ := List.pairwise_cons.mp hsorted
    obtain ⟨hlevel,hkeyed⟩ := List.forall_mem_cons.mp hkeyed
    have hbehind : c.before o.price price ∨ o.price = price →
        ∀ x ∈ levels.flatMap (fun e => e.2.timeQueue), c.before o.price x.price := by
      intro hp x hx
      obtain ⟨e,he,hxe⟩ := List.mem_flatMap.mp hx
      rw [hkeyed e he x hxe]
      rcases hp with hp | hp
      · exact trans_of c.before hp (hfirst e he)
      · exact hp ▸ hfirst e he
    rw [enqueue,List.flatMap_cons]
    split_ifs with heq hbefore
    · -- The level of the order: every order in it stays in front.
      rw [rest_append (fun x hx => by rw [hlevel x hx,heq]; exact irrefl_of c.before _),
        rest_of_behind (hbehind (Or.inr heq.symm))]
      simp
    · rw [rest_of_behind]
      · simp
      · intro x hx
        rcases List.mem_append.mp hx with hx | hx
        · rw [hlevel x hx]
          exact hbefore
        · exact hbehind (Or.inl hbefore) x hx
    · rw [rest_append (fun x hx => by rw [hlevel x hx]; exact hbefore),List.flatMap_cons,
        ih hsorted hkeyed]

/-- An order is found in the list where it is found in its level. -/
theorem OrderBook.Position.locate_eq {book : OrderBook c} (hkeyed : KeyedByPrice book)
    {price : PriceType} {id : Id} (p : book.Position price id) :
    firstMatch (fun o => decide (o.price = price ∧ o.id = id)) book.orders =
      some (p.frontOrders,p.order,p.backOrders) := by
  rw [p.orders_eq]
  apply firstMatch_append
  · intro x hx
    rcases List.mem_append.mp hx with hx | hx
    · obtain ⟨e,he,hxe⟩ := List.mem_flatMap.mp hx
      have hprice := hkeyed e (p.split.entries ▸ List.mem_append_left _ he) x hxe
      simpa [hprice] using fun h => absurd h (p.split.pre_ne e he)
    · simpa using fun _ => p.first x hx
  · have hprice : p.order.price = price := p.forall_order hkeyed
    simp [hprice,p.id_eq]

theorem OrderBook.locate_eq_none {book : OrderBook c} (hkeyed : KeyedByPrice book)
    {price : PriceType} {id : Id} (h : ¬ book.Rests price id) :
    firstMatch (fun o => decide (o.price = price ∧ o.id = id)) book.orders = none := by
  rw [firstMatch_eq_none_iff]
  intro x hx
  obtain ⟨⟨key,level⟩,he,hxe⟩ := OrderBook.mem_orders.mp hx
  have hprice : x.price = key := hkeyed _ he x hxe
  refine decide_eq_false ?_
  rintro ⟨rfl,hid⟩
  exact h ⟨level,OrderedMap.find?_eq_some_iff.mpr (hprice ▸ he),x,hxe,hid⟩

namespace MatchingEngine

/-- The market that the two books are. -/
def market (engine : MatchingEngine) : Market := fun b => (engine.side b).orders

theorem market_withSides (m : Market) (b : Bool) (opp : OrderBook (TCompare.ofSide (!b)))
    (own : OrderBook (TCompare.ofSide b)) : (withSides b opp own).market =
      Function.update (Function.update m (!b) opp.orders) b own.orders := by
  funext b'
  cases b <;> cases b' <;> rfl

/-- The market after an edit of one side. -/
theorem market_withSides_own (engine : MatchingEngine) (b : Bool)
    (own : OrderBook (TCompare.ofSide b)) : (withSides b (engine.side (!b)) own).market =
      Function.update engine.market b own.orders := by
  rw [market_withSides engine.market]
  exact congrArg (fun m : Market => Function.update m b own.orders)
    (Function.update_eq_self (!b) engine.market)

theorem Settled.keyed {engine : MatchingEngine} (h : engine.Settled) (b : Bool) :
    KeyedByPrice (engine.side b) := (h.sound b).placed.imp (fun _ _ hp => hp.2.1)

theorem Settled.withSides_own {engine : MatchingEngine} (h : engine.Settled) {b : Bool}
    {own : OrderBook (TCompare.ofSide b)} (hown : Sound b own)
    (hmem : ∀ o ∈ own.orders, o ∈ (engine.side b).orders) :
    (withSides b (engine.side (!b)) own).Settled := by
  refine ⟨forall_side_withSides.mpr ⟨h.sound _,hown⟩,h.uncrossed.mono ?_⟩
  exact (forall_side_withSides (P := fun b book => ∀ o ∈ book.orders,
    o ∈ (engine.side b).orders)).mpr ⟨fun _ ho => ho,hmem⟩

/-- The loop leaves books alone that hold no order the uncrossed ones did not price. -/
theorem Settled.matched_of_priced {engine : MatchingEngine} (h : engine.Settled) {b : Bool}
    {own : OrderBook (TCompare.ofSide b)}
    (hpriced : ∀ o ∈ own.orders, ∃ o' ∈ (engine.side b).orders,
      o'.isBuySide = o.isBuySide ∧ o'.price = o.price) :
    matched b (engine.side (!b)) own = (withSides b (engine.side (!b)) own,[]) := by
  have hstop : executeRound (engine.side (!b),own) = none := by
    cases hr : executeRound (engine.side (!b),own) with
    | none => rfl
    | some r =>
      obtain ⟨x,fo,hm,_⟩ := executeRound_eq_some_iff.mp hr
      obtain ⟨o,ho,hside,hprice⟩ := hpriced fo.best fo.best_mem
      have hno := h.not_marketable x.best_mem ho
      rw [matchPricePredicate,hside,hprice] at hno
      rw [matchPricePredicate,hno] at hm
      cases hm
  rw [matched,show executeOrder (engine.side (!b)) own = ((engine.side (!b),own),[]) from
    EmittingLoop.run_of_none hstop]

/-- An insert with the loop behind it is the sweep of the market. -/
theorem Settled.enter_eq {engine : MatchingEngine} (h : engine.Settled) {b : Bool}
    {o : OrderInsertData} (hside : o.isBuySide = b) (hvolume : o.volume ≠ 0) :
    engine.market.enter o =
      ((matched b (engine.side (!b)) ((engine.side b).insert o).1).1.market,
        (matched b (engine.side (!b)) ((engine.side b).insert o).1).2) := by
  subst hside
  obtain ⟨hopp,hown,htrades⟩ := executeOrder_insert h rfl hvolume
  have hsweep := sweepQueue_levels o (engine.side (!o.isBuySide)).orderBookMap.entries
  have hrest := flatMap_enqueue (c := TCompare.ofSide o.isBuySide)
    (sweepLevels o (engine.side (!o.isBuySide)).orderBookMap.entries).remainder
    (engine.side o.isBuySide).orderBookMap.sorted (h.keyed o.isBuySide)
  simp only [matched,market_withSides engine.market,OrderBook.orders,hopp,hown,htrades]
  simp only [Market.enter,market,OrderBook.orders,hsweep,apply_ite (List.flatMap _),hrest]

theorem locate_eq_some {engine : MatchingEngine} (h : engine.Settled) {b : Bool}
    {price : PriceType} {id : Id} (p : (engine.side b).Position price id) :
    engine.market.locate b price id = some (p.frontOrders,p.order,p.backOrders) :=
  p.locate_eq (h.keyed b)

theorem locate_eq_none {engine : MatchingEngine} (h : engine.Settled) {b : Bool}
    {price : PriceType} {id : Id} (hr : ¬ (engine.side b).Rests price id) :
    engine.market.locate b price id = none :=
  OrderBook.locate_eq_none (h.keyed b) hr

section Amend
variable {engine : MatchingEngine} {b : Bool} {price : PriceType} {id : Id}

/-- Taking the order out, when a level that it leaves empty goes with it. -/
theorem Settled.dropped (h : engine.Settled) (p : (engine.side b).Position price id) :
    (withSides b (engine.side (!b)) p.dropped).Settled :=
  h.withSides_own ⟨p.dropped_forall (h.sound b).placed,
    p.dropped_noEmptyLevel (h.sound b).noEmptyLevel⟩ (fun _ ho => p.mem_of_mem_dropped ho)

theorem matched_dropped (h : engine.Settled) (p : (engine.side b).Position price id) :
    matched b (engine.side (!b)) p.dropped = (withSides b (engine.side (!b)) p.dropped,[]) :=
  h.matched_of_priced (fun o ho => ⟨o,p.mem_of_mem_dropped ho,rfl,rfl⟩)

theorem changed_orders (p : (engine.side b).Position price id) (o : OrderInsertData) :
    (p.withQueue (p.before ++ o :: p.after)).orders = p.frontOrders ++ o :: p.backOrders := by
  rw [p.withQueue_orders]
  simp [OrderBook.Position.frontOrders,OrderBook.Position.backOrders]

theorem matched_changed (h : engine.Settled) (p : (engine.side b).Position price id)
    (volume : VolumeType) :
    matched b (engine.side (!b)) (p.withQueue (p.before ++ { p.order with volume } :: p.after)) =
      (withSides b (engine.side (!b))
        (p.withQueue (p.before ++ { p.order with volume } :: p.after)),[]) := by
  refine h.matched_of_priced (fun o ho => ?_)
  rw [changed_orders] at ho
  rcases List.mem_append.mp ho with ho | ho
  · exact ⟨o,by simp [p.orders_eq,ho],rfl,rfl⟩
  · rcases List.mem_cons.mp ho with rfl | ho
    · exact ⟨p.order,by simp [p.orders_eq],rfl,rfl⟩
    · exact ⟨o,by simp [p.orders_eq,ho],rfl,rfl⟩

theorem orderAmend_refines (h : engine.Settled) (a : OrderAmendData)
    (hfree : (Call.orderAmend a ()).MovesToFreePrice engine) (endpoint : Endpoint) :
    Market.amend engine.market a endpoint =
      ((engine.orderAmend a endpoint).1.market,(engine.orderAmend a endpoint).2) := by
  by_cases hr : (engine.side a.isBuySide).Rests a.price a.id
  · obtain ⟨p⟩ := OrderBook.nonempty_position_iff.mpr hr
    rw [orderAmend_eq engine rfl p,Market.amend,locate_eq_some h p,OrderBook.Position.amended]
    split_ifs with hv hp
    · simp only [matched_dropped h p,market_withSides_own,p.dropped_orders]
    · simp only [matched_changed h p,market_withSides_own,changed_orders]
    · have henter := (h.dropped p).enter_eq (o := p.repriced a.newPrice a.newVolume)
        (p.forall_order (h.sound a.isBuySide).placed).1 hv
      rw [side_withSides_opposite,side_withSides_own,market_withSides_own,p.dropped_orders] at henter
      rw [p.moved_of_absent hp (hfree hv (Ne.symm hp) hr)]
      exact congrArg (fun r : Market × List Trade =>
        (r.1,replyAndTrades ⟨a.id,a.clientId⟩ r.2 endpoint)) henter
  · rw [orderAmend_of_not_rests engine hr,Market.amend,locate_eq_none h hr]

end Amend

theorem orderCancel_refines {engine : MatchingEngine} (h : engine.Settled) (k : OrderCancelData)
    (endpoint : Endpoint) : Market.cancel engine.market k endpoint =
      ((engine.orderCancel k endpoint).1.market,(engine.orderCancel k endpoint).2) := by
  by_cases hr : (engine.side k.isBuySide).Rests k.price k.id
  · obtain ⟨p⟩ := OrderBook.nonempty_position_iff.mpr hr
    rw [orderCancel_eq engine rfl p,Market.cancel,locate_eq_some h p,market_withSides_own,
      p.removed_orders]
  · rw [orderCancel_of_not_rests engine hr,Market.cancel,locate_eq_none h hr]

/-- One call of the engine is one call of the market. -/
theorem handle_refines {engine : MatchingEngine} (h : engine.Settled) {call : Call Endpoint}
    (hvolume : call.InsertsVolume) (hfree : call.MovesToFreePrice engine) :
    Market.handle engine.market call =
      ((handle engine call).1.market,(handle engine call).2) := by
  cases call with
  | orderInsert o endpoint =>
    have henter := h.enter_eq (o := o) rfl (UInt64.pos_iff_ne_zero.mp hvolume)
    rw [handle,orderInsert_eq engine rfl,Market.handle,henter]
  | orderAmend a endpoint => exact orderAmend_refines h a hfree endpoint
  | orderCancel k endpoint => exact orderCancel_refines h k endpoint

end MatchingEngine

/-- An order that meets nothing is left whole. -/
theorem sweepQueue_remainder_of_no_trades {o : OrderInsertData} {xs : List OrderInsertData}
    (h : (sweepQueue o xs).trades = []) : (sweepQueue o xs).remainder = o := by
  rcases xs with _ | ⟨x,xs⟩
  · rfl
  · rw [sweepQueue] at h ⊢
    by_cases hm : o.volume ≠ 0 ∧ Marketable o x.price
    · rw [if_pos hm] at h
      by_cases hv : x.volume = min x.volume o.volume
      · simp only [if_pos hv,reduceCtorEq] at h
      · simp only [if_neg hv,reduceCtorEq] at h
    · rw [if_neg hm]

theorem length_rest (o : OrderInsertData) (orders : List OrderInsertData) :
    (rest c o orders).length = orders.length + 1 := by
  rw [rest,List.length_append,List.length_cons,← Nat.add_assoc,← List.length_append,
    List.takeWhile_append_dropWhile]

/-- Without a trade the market keeps the order. -/
theorem Market.enter_untraded {m : Market} {o : OrderInsertData} (hvolume : o.volume ≠ 0)
    (h : (m.enter o).2 = []) :
    ((m.enter o).1 o.isBuySide).length = (m o.isBuySide).length + 1 := by
  have hleft := sweepQueue_remainder_of_no_trades h
  simp only [enter,Function.update_self,hleft,if_neg hvolume,length_rest]

namespace MatchingEngine

/-- An amend onto a level drops the order, which the market would rest or trade. -/
theorem orderAmend_leaves_market {engine : MatchingEngine} (h : engine.Settled)
    {a : OrderAmendData} {endpoint : Endpoint}
    (hmove : ¬ (Call.orderAmend a endpoint).MovesToFreePrice engine) :
    Market.amend engine.market a endpoint ≠
      ((engine.orderAmend a endpoint).1.market,(engine.orderAmend a endpoint).2) := by
  simp only [Call.MovesToFreePrice,not_forall] at hmove
  obtain ⟨hv,hne,hr,hpresent⟩ := hmove
  obtain ⟨p⟩ := OrderBook.nonempty_position_iff.mpr hr
  obtain ⟨level,hlevel⟩ := Option.ne_none_iff_exists'.mp hpresent
  have hside : p.order.isBuySide = a.isBuySide :=
    (p.forall_order (h.sound a.isBuySide).placed).1
  rw [orderAmend_eq engine rfl p,Market.amend,locate_eq_some h p,OrderBook.Position.amended,
    if_neg hv,if_neg (Ne.symm hne),p.moved_of_present hlevel,matched_dropped h p]
  simp only [if_neg hv,if_neg (Ne.symm hne),market_withSides_own,p.dropped_orders]
  intro he
  obtain ⟨hmarket,hmessages⟩ := Prod.mk.inj he
  have huntraded := List.map_eq_nil_iff.mp (List.tail_eq_of_cons_eq hmessages)
  have hlength := Market.enter_untraded (by exact hv) huntraded
  rw [hmarket] at hlength
  dsimp only at hlength
  rw [hside] at hlength
  simp at hlength

end MatchingEngine

/-- The engine and the market that is one side's list of orders each, call for call: the
same messages in the same order, and after every call the books read from the best price
on are the two lists. In runs that cancel no only order of a level this is so exactly
when no amend moves a resting order to a price whose level exists. -/
theorem handle_agrees_with_market_iff (calls : List (Call Endpoint))
    (hvolume : ∀ call ∈ calls, call.InsertsVolume)
    (hkeep : Machine.StepsMeet handle (fun engine call => call.KeepsLevels engine) fresh calls) :
    List.Forall₂ (fun r t => (∀ b, (r.1.side b).orders = t.1 b) ∧ t.2 = r.2)
      (Machine.trace handle fresh calls) (Machine.trace Market.handle Market.fresh calls) ↔
    Machine.StepsMeet handle (fun engine call => call.MovesToFreePrice engine) fresh calls := by
  refine Machine.trace_agreement_iff
    (R := fun (engine : MatchingEngine) m => engine.Settled ∧ engine.market = m)
    (Q := fun (engine : MatchingEngine) (m : Market) => ∀ b, (engine.side b).orders = m b)
    (D := fun engine (call : Call Endpoint) => call.InsertsVolume ∧ call.KeepsLevels engine) ?_ ?_ ?_
    ⟨fresh_settled,?_⟩ ((Machine.stepsMeet_of_forall hvolume).and hkeep)
  · rintro engine m ⟨_,rfl⟩ b
    rfl
  · rintro engine m call ⟨h,rfl⟩ hd hfree
    rw [handle_refines h hd.1 hfree]
    exact ⟨⟨handle_settled h hd.1 hd.2,rfl⟩,rfl⟩
  · rintro engine m call ⟨h,rfl⟩ _ hmove hagree
    cases call with
    | orderInsert o endpoint => exact hmove trivial
    | orderCancel k endpoint => exact hmove trivial
    | orderAmend a endpoint =>
      exact orderAmend_leaves_market h hmove (Prod.ext (funext hagree.1).symm hagree.2)
  · funext b
    cases b <;> rfl

/-- The bid that is moved from 50 to 60 trades there as an order of the market does. -/
theorem handle_agrees_with_market_iff_moved :
    List.Forall₂ (fun r t => (∀ b, (r.1.side b).orders = t.1 b) ∧ t.2 = r.2)
      (Machine.trace handle fresh movedAndTraded)
      (Machine.trace Market.handle Market.fresh movedAndTraded) ∧
    (Machine.final Market.handle Market.fresh movedAndTraded) true = [limitOrder true "1" 60 6] :=
  ⟨(handle_agrees_with_market_iff movedAndTraded
    (by simp [movedAndTraded,Call.InsertsVolume,limitOrder])
    ⟨trivial,trivial,trivial,trivial⟩).mpr ⟨trivial,trivial,fun _ _ _ => rfl,trivial⟩,by decide⟩

end Moboware
