import Mathlib.Data.List.Induction
import Moboware.MatchingEngine.LevelQueues
import Moboware.MatchingEngine.Settlement

/-! # Strict priority of fills

The engine trades each side of the market from the front of its queue only: the best price
first, and within a price the order that was inserted first. This holds in every state that a
run reaches, also where amended orders have blocked the front of a book.
-/
namespace Moboware
open Library MatchingEngine OrderBook OrderLevel
variable {Endpoint : Type*}

/-- A queue of orders, the trades of one side and what they leave of the queue: every trade is
one of the order that stands in front, for no more than its volume, and an order leaves when it
has none left. -/
inductive Fills : List OrderInsertData → List Trade → List OrderInsertData → Prop
  | stop (orders) : Fills orders [] orders
  | fill {o rest v trades left} : v ≤ o.volume → Fills (settle o v rest) trades left →
      Fills (o :: rest) (o.tradeOf v :: trades) left

/-- The message of one side. -/
def Deal.of (deal : Deal) : Bool → Trade
  | true => deal.buy
  | false => deal.sell

theorem settle_append (o : OrderInsertData) (v : VolumeType) (xs ys : List OrderInsertData) :
    settle o v (xs ++ ys) = settle o v xs ++ ys := by
  unfold settle
  split_ifs
  · rfl
  · rfl

/-! ### Price and time -/

/-- The order is the one that the call of the number inserted; its price and its volume may be
others by now. -/
def InsertedBy (calls : List (Call Endpoint)) (b : Bool) (n : ℕ) (o : OrderInsertData) : Prop :=
  ∃ inserted endpoint, calls[n]? = some (.orderInsert inserted endpoint) ∧ inserted.isBuySide = b ∧
    o = { inserted with price := o.price, volume := o.volume }

/-- The orders come in the order of the calls that inserted them. -/
def InTime (calls : List (Call Endpoint)) (b : Bool) (queue : List OrderInsertData) : Prop :=
  ∃ numbered : List (ℕ × OrderInsertData), numbered.map Prod.snd = queue ∧
    (∀ p ∈ numbered, InsertedBy calls b p.1 p.2) ∧ numbered.Pairwise (fun p q => p.1 < q.1)

/-- Of two orders the one in front has the better price, or the same price and was inserted by
an earlier call. -/
def InPriceTime (calls : List (Call Endpoint)) (b : Bool) (orders : List OrderInsertData) : Prop :=
  ∃ numbered : List (ℕ × OrderInsertData), numbered.map Prod.snd = orders ∧
    (∀ p ∈ numbered, InsertedBy calls b p.1 p.2) ∧
    numbered.Pairwise (fun p q => (TCompare.ofSide b).before p.2.price q.2.price ∨
      p.2.price = q.2.price ∧ p.1 < q.1)

section Time
variable {calls : List (Call Endpoint)} {b : Bool}

theorem InsertedBy.lt {n : ℕ} {o : OrderInsertData} (h : InsertedBy calls b n o) :
    n < calls.length := by
  obtain ⟨_,_,hcall,_⟩ := h
  exact (List.getElem?_eq_some_iff.mp hcall).1

theorem InsertedBy.append {n : ℕ} {o : OrderInsertData} (h : InsertedBy calls b n o)
    (later : List (Call Endpoint)) : InsertedBy (calls ++ later) b n o := by
  have hlt := h.lt
  obtain ⟨inserted,endpoint,hcall,hrest⟩ := h
  exact ⟨inserted,endpoint,by rwa [List.getElem?_append_left hlt],hrest⟩

theorem InTime.append {queue : List OrderInsertData} (h : InTime calls b queue)
    (later : List (Call Endpoint)) : InTime (calls ++ later) b queue := by
  obtain ⟨numbered,hqueue,hinserted,htime⟩ := h
  exact ⟨numbered,hqueue,fun p hp => (hinserted p hp).append later,htime⟩

theorem inTime_stable : QueueStable (InTime calls b) where
  sublist hsub h := by
    obtain ⟨numbered,rfl,hinserted,htime⟩ := h
    obtain ⟨numbered',hsub',rfl⟩ := List.sublist_map_iff.mp hsub
    exact ⟨numbered',rfl,fun p hp => hinserted p (hsub'.subset hp),htime.sublist hsub'⟩
  amend {before o after} price volume h := by
    obtain ⟨numbered,hqueue,hinserted,htime⟩ := h
    obtain ⟨front,rest,rfl,rfl,hrest⟩ := List.map_eq_append_iff.mp hqueue
    obtain ⟨⟨n,o'⟩,back,rfl,rfl,rfl⟩ := List.map_eq_cons_iff.mp hrest
    refine ⟨front ++ (n,{ o' with price, volume }) :: back,by simp,?_,?_⟩
    · intro p hp
      rcases List.mem_append.mp hp with hp | hp
      · exact hinserted p (List.mem_append_left _ hp)
      · rcases List.mem_cons.mp hp with rfl | hp
        · obtain ⟨inserted,endpoint,hcall,hside,ho⟩ :=
            hinserted (n,o') (List.mem_append_right _ List.mem_cons_self)
          refine ⟨inserted,endpoint,hcall,hside,?_⟩
          dsimp only at ho ⊢
          rw [ho]
        · exact hinserted p (List.mem_append_right _ (List.mem_cons_of_mem _ hp))
    · rw [List.pairwise_append,List.pairwise_cons] at htime ⊢
      obtain ⟨hfront,hback,hcross⟩ := htime
      refine ⟨hfront,hback,fun p hp q hq => ?_⟩
      rcases List.mem_cons.mp hq with rfl | hq
      · exact hcross p hp (n,o') List.mem_cons_self
      · exact hcross p hp q (List.mem_cons_of_mem _ hq)

/-- The newest order goes to the end. -/
theorem InTime.insert {o : OrderInsertData} {endpoint : Endpoint} {queue : List OrderInsertData}
    (h : InTime calls o.isBuySide queue) :
    InTime (calls ++ [.orderInsert o endpoint]) o.isBuySide (queue ++ [o]) := by
  obtain ⟨numbered,rfl,hinserted,htime⟩ := h
  refine ⟨numbered ++ [(calls.length,o)],by simp,?_,?_⟩
  · intro p hp
    rcases List.mem_append.mp hp with hp | hp
    · exact (hinserted p hp).append _
    · rw [List.mem_singleton.mp hp]
      exact ⟨o,endpoint,List.getElem?_concat_length,rfl,rfl⟩
  · refine List.pairwise_append.mpr ⟨htime,List.pairwise_singleton ..,fun p hp q hq => ?_⟩
    rw [List.mem_singleton.mp hq]
    exact (hinserted p hp).lt

theorem inTime_nil (calls : List (Call Endpoint)) (b : Bool) : InTime calls b [] :=
  ⟨[],rfl,nofun,List.Pairwise.nil⟩

/-- Levels in the order of their prices, each in time, are in price-time order. -/
theorem inPriceTime_orders {book : OrderBook (TCompare.ofSide b)} (hkeyed : KeyedByPrice book)
    (htime : book.Queues (InTime calls b)) : InPriceTime calls b book.orders := by
  have hsorted := book.orderBookMap.sorted
  unfold OrderBook.orders
  unfold KeyedByPrice OrderBook.Forall at hkeyed
  unfold OrderBook.Queues at htime
  generalize book.orderBookMap.entries = entries at hkeyed htime hsorted ⊢
  induction entries with
  | nil => exact ⟨[],rfl,nofun,List.Pairwise.nil⟩
  | cons e entries ih =>
    rw [List.pairwise_cons] at hsorted
    obtain ⟨hkey,hkeys⟩ := List.forall_mem_cons.mp hkeyed
    obtain ⟨hlevel,hlevels⟩ := List.forall_mem_cons.mp htime
    obtain ⟨rest,hrest,hrestInserted,hrestTime⟩ := ih hkeys hlevels hsorted.2
    obtain ⟨numbered,hqueue,hinserted,hqueueTime⟩ := hlevel
    have hprice : ∀ p ∈ numbered, p.2.price = e.1 :=
      fun p hp => hkey p.2 (hqueue ▸ List.mem_map_of_mem hp)
    refine ⟨numbered ++ rest,by rw [List.map_append,hqueue,hrest,List.flatMap_cons],?_,?_⟩
    · exact List.forall_mem_append.mpr ⟨hinserted,hrestInserted⟩
    · refine List.pairwise_append.mpr ⟨hqueueTime.imp_of_mem ?_,hrestTime,?_⟩
      · exact fun hp hq hlt => Or.inr ⟨(hprice _ hp).trans (hprice _ hq).symm,hlt⟩
      · intro p hp q hq
        have hmem : q.2 ∈ entries.flatMap (fun e => e.2.timeQueue) :=
          hrest ▸ List.mem_map_of_mem hq
        obtain ⟨f,hf,hqf⟩ := List.mem_flatMap.mp hmem
        rw [hprice p hp,hkeys f hf q.2 hqf]
        exact Or.inl (hsorted.1 f hf)

end Time

section Loop
variable {b : Bool}

theorem fills_of_front {c : TCompare} {book : OrderBook c} (f : Front book)
    (hkey : f.best.price = f.key) {v : VolumeType} (hv : v ≤ f.best.volume) {trades : List Trade}
    {left : List OrderInsertData} (h : Fills (f.fill v).orders trades left) :
    Fills book.orders (f.best.tradeOf v :: trades) left := by
  rw [f.orders_eq,List.cons_append]
  refine Fills.fill hv ?_
  rw [settle_append,← f.fill_orders hkey]
  exact h

theorem executeOrder_fills {inserted : Bool → Id → Prop} {opp : OrderBook (TCompare.ofSide (!b))}
    {own : OrderBook (TCompare.ofSide b)} (hopp : opp.Forall (Entered inserted (!b)))
    (hown : own.Forall (Entered inserted b)) :
    let r := executeOrder opp own
    Fills opp.orders ((deals b r.2).map (fun deal => deal.of (!b))) r.1.1.orders ∧
      Fills own.orders ((deals b r.2).map (fun deal => deal.of b)) r.1.2.orders := by
  refine (executeLoop _ _).run_induction (P := fun s r => s.1.Forall (Entered inserted (!b)) ∧
    s.2.Forall (Entered inserted b) →
      Fills s.1.orders ((deals b r.2).map (fun deal => deal.of (!b))) r.1.1.orders ∧
        Fills s.2.orders ((deals b r.2).map (fun deal => deal.of b)) r.1.2.orders)
    ?_ ?_ (opp,own) ⟨hopp,hown⟩
  · exact fun s _ _ => ⟨Fills.stop _,Fills.stop _⟩
  · intro s s' out r hb ih hs
    obtain ⟨hopp',hown'⟩ := ih (executeRound_forall entered_fillStable entered_fillStable hs hb)
    obtain ⟨x,o,_,he⟩ := executeRound_eq_some_iff.mp hb
    cases he
    have hx := fills_of_front x (x.forall_best hs.1).2.1 (roundVolume_le_left x.best o.best) hopp'
    have ho := fills_of_front o (o.forall_best hs.2).2.1 (roundVolume_le_right x.best o.best) hown'
    cases b with
    | true => exact ⟨hx,ho⟩
    | false => exact ⟨hx,ho⟩

end Loop

/-- The queue of each side after the edit of a request, and how the request trades it. -/
def TradesFromFront (calls : List (Call Endpoint)) (engine : MatchingEngine)
    (call : Call Endpoint) : Prop :=
  let edited := (engine.editBook call).1
  let r := handle engine call
  ∀ b, InPriceTime calls b (edited.side b).orders ∧
    Fills (edited.side b).orders ((deals call.isBuySide (r.2.filterMap (fun m => m.1.trade?))).map
      (fun deal => deal.of b)) (r.1.side b).orders

section Step
variable {calls : List (Call Endpoint)} {engine : MatchingEngine}

/-- Behind its edit a request does nothing, or runs the matching loop. -/
theorem handle_of_editBook (engine : MatchingEngine) (call : Call Endpoint) :
    let edited := (engine.editBook call).1
    let trades := (handle engine call).2.filterMap (fun m => m.1.trade?)
    ((handle engine call).1 = edited ∧ trades = []) ∨
      ((handle engine call).1,trades) =
        matched call.isBuySide (edited.side (!call.isBuySide)) (edited.side call.isBuySide) := by
  cases call with
  | orderInsert o endpoint =>
    refine Or.inr ?_
    rw [handle,orderInsert_eq engine rfl,trades_replyAndTrades]
    simp only [editBook,Call.isBuySide,side_withSides_opposite,side_withSides_own]
  | orderAmend a endpoint =>
    by_cases hr : (engine.side a.isBuySide).Rests a.price a.id
    · obtain ⟨p⟩ := nonempty_position_iff.mpr hr
      refine Or.inr ?_
      rw [handle,orderAmend_eq engine rfl p,trades_replyAndTrades]
      simp only [editBook,amend_of_position p,Call.isBuySide,side_withSides_opposite,
        side_withSides_own]
    · refine Or.inl ?_
      rw [handle,orderAmend_of_not_rests engine hr]
      simp only [editBook,amend_of_not_rests hr,withSides_side]
      exact ⟨trivial,rfl⟩
  | orderCancel k endpoint =>
    cases hc : (engine.side k.isBuySide).cancel k with
    | mk own cancelled =>
      refine Or.inl ?_
      rw [handle,orderCancel_of_result engine rfl hc]
      simp only [editBook,hc]
      cases cancelled with
      | true => exact ⟨trivial,trades_replyAndTrades ..⟩
      | false => exact ⟨trivial,rfl⟩

theorem editBook_allEntered {call : Call Endpoint} (hcall : call ∈ calls)
    (h : AllEntered calls engine) : AllEntered calls (engine.editBook call).1 := by
  cases call with
  | orderInsert o endpoint =>
    have hown : ((engine.side o.isBuySide).insert o).1.Forall
        (Entered (InsertedOn calls) o.isBuySide) :=
      insert_forall (h _) ⟨rfl,rfl,o,endpoint,hcall,rfl,rfl⟩
    exact forall_side_withSides.mpr ⟨h _,hown⟩
  | orderAmend a endpoint =>
    have hown : ((engine.side a.isBuySide).amend a).1.Forall
        (Entered (InsertedOn calls) a.isBuySide) := by
      by_cases hr : (engine.side a.isBuySide).Rests a.price a.id
      · obtain ⟨p⟩ := nonempty_position_iff.mpr hr
        have ho := p.forall_order (h a.isBuySide)
        rw [amend_of_position p]
        exact p.amended_forall (h _) (fun _ => ho) (fun _ => ⟨ho.1,rfl,ho.2.2⟩)
      · rw [amend_of_not_rests hr]
        exact h _
    exact forall_side_withSides.mpr ⟨h _,hown⟩
  | orderCancel k endpoint =>
    have hown : ((engine.side k.isBuySide).cancel k).1.Forall
        (Entered (InsertedOn calls) k.isBuySide) := by
      by_cases hr : (engine.side k.isBuySide).Rests k.price k.id
      · obtain ⟨p⟩ := nonempty_position_iff.mpr hr
        rw [cancel_of_position p]
        exact p.withQueue_forall (h _) (p.forall_queue (h _))
      · rw [cancel_of_not_rests hr]
        exact h _
    exact forall_side_withSides.mpr ⟨h _,hown⟩

abbrev AllInTime (calls : List (Call Endpoint)) (engine : MatchingEngine) : Prop :=
  ∀ b, (engine.side b).Queues (InTime calls b)

theorem editBook_allInTime (call : Call Endpoint) (h : AllInTime calls engine) :
    AllInTime (calls ++ [call]) (engine.editBook call).1 := by
  refine editBook_queues (fun _ => inTime_stable) h (fun _ _ hq => hq.append _) ?_
  rintro o endpoint rfl
  exact ⟨(inTime_nil calls _).insert,fun _ hq => hq.insert⟩

theorem handle_allInTime {call : Call Endpoint} (h : AllInTime calls engine) :
    AllInTime (calls ++ [call]) (handle engine call).1 := by
  have hedit := editBook_allInTime call h
  rcases handle_of_editBook engine call with ⟨hsame,_⟩ | hmatched
  · rw [hsame]
    exact hedit
  · rw [(Prod.mk.inj hmatched).1]
    exact matched_queues (fun _ => inTime_stable) (hedit _) (hedit _)

theorem handle_tradesFromFront {call : Call Endpoint} (hcall : call ∈ calls)
    (h : AllEntered calls engine) (htime : AllInTime calls (engine.editBook call).1) :
    TradesFromFront calls engine call := by
  have hedit := editBook_allEntered hcall h
  intro b
  refine ⟨inPriceTime_orders ((hedit b).imp (fun _ _ ho => ho.2.1)) (htime b),?_⟩
  rcases handle_of_editBook engine call with ⟨hsame,hnone⟩ | hmatched
  · rw [hsame,hnone]
    exact Fills.stop _
  · obtain ⟨hoppfills,hownfills⟩ :=
      executeOrder_fills (hedit (!call.isBuySide)) (hedit call.isBuySide)
    obtain ⟨hnext,htrades⟩ := Prod.mk.inj hmatched
    rw [hnext,htrades]
    have hb : b = call.isBuySide ∨ b = !call.isBuySide := by
      cases b <;> cases call.isBuySide <;> simp
    rcases hb with rfl | rfl
    · simp only [side_withSides_own]
      exact hownfills
    · simp only [side_withSides_opposite]
      exact hoppfills

theorem final_allInTime (calls : List (Call Endpoint)) :
    AllInTime calls (Machine.final handle fresh calls) := by
  induction calls using List.reverseRecOn with
  | nil =>
    intro b
    cases b <;> exact fun e he => absurd he List.not_mem_nil
  | append_singleton calls call ih =>
    rw [Machine.final_append]
    exact handle_allInTime ih

end Step

/-- In every state that any requests lead to, every request trades each side from the front of
its queue, which stands in price-time order, and no order before those ahead of it are gone. -/
theorem trades_from_front (earlier : List (Call Endpoint)) (call : Call Endpoint) :
    TradesFromFront (earlier ++ [call]) (Machine.final handle fresh earlier) call := by
  have hfinal : AllEntered (earlier ++ [call]) (Machine.final handle fresh earlier) := by
    refine Machine.final_invariant (C := fun _ c => c ∈ earlier ++ [call])
      (fun _ _ hs hc => handle_allEntered hc hs) ?_ (Machine.stepsMeet_of_forall
        (fun _ hc => List.mem_append_left _ hc))
    intro b
    cases b <;> exact fun e he => absurd he List.not_mem_nil
  exact handle_tradesFromFront (List.mem_append_right _ List.mem_cons_self) hfinal
    (editBook_allInTime call (final_allInTime earlier))

end Moboware
