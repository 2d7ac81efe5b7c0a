import Moboware.MatchingEngine.Representation

/-! # The uncrossed book

The loop of `ExecuteOrder` looks at the first level of each map only, and returns
when it is empty. It leaves the books uncrossed as long as no level is empty; the
one operation that can leave an empty level behind is `Cancel`.
-/
namespace Moboware
open Library MatchingEngine OrderLevel
variable {Endpoint : Type*} {c d : TCompare}

namespace OrderBook

theorem exists_front {book : OrderBook c} (h : book.NoEmptyLevel) {o : OrderInsertData}
    (ho : o ∈ book.orders) : Nonempty book.Front := by
  obtain ⟨e,he,_⟩ := mem_orders.mp ho
  rcases hb : book.orderBookMap.entries with _ | ⟨⟨key,⟨_ | ⟨best,queue⟩⟩⟩,tail⟩
  · rw [hb] at he
    exact absurd he List.not_mem_nil
  · exact absurd rfl (h (key,⟨[]⟩) (hb ▸ List.mem_cons_self))
  · exact ⟨⟨key,best,queue,tail,hb⟩⟩

theorem Front.fill_noEmptyLevel {book : OrderBook c} (f : Front book)
    (hkey : f.best.price = f.key) (h : book.NoEmptyLevel) (v : VolumeType) :
    (f.fill v).NoEmptyLevel := by
  have htail : ∀ e ∈ f.tail, e.2.timeQueue ≠ [] :=
    fun e he => h e (f.entries_eq ▸ List.mem_cons_of_mem _ he)
  by_cases hs : settle f.best v f.queue = []
  · intro e he
    rw [f.fill_entries_of_keyed hkey hs] at he
    exact htail e he
  · intro e he
    rw [f.fill_entries_of_ne_nil hs] at he
    rcases List.mem_cons.mp he with rfl | he
    · exact hs
    · exact htail e he

/-- No order has a price in front of the best one. -/
theorem Front.best_first {b : Bool} {book : OrderBook c} (f : Front book)
    (h : book.Forall (WellPlaced b)) {o : OrderInsertData} (ho : o ∈ book.orders) :
    o.price = f.best.price ∨ c.before f.best.price o.price := by
  obtain ⟨e,he,hoe⟩ := mem_orders.mp ho
  rw [(h e he o hoe).2.1,(f.forall_best h).2.1]
  have hs := book.orderBookMap.sorted
  rw [f.entries_eq] at he hs
  rcases List.mem_cons.mp he with rfl | he
  · exact Or.inl rfl
  · exact Or.inr ((List.pairwise_cons.mp hs).1 e he)

end OrderBook

/-- Books the loop can trust: every order in its place and no empty level. -/
structure Sound (b : Bool) (book : OrderBook c) : Prop where
  placed : book.Forall (WellPlaced b)
  noEmptyLevel : book.NoEmptyLevel

theorem executeRound_sound {b : Bool} {books books' : OrderBook c × OrderBook d}
    {trades : List Trade} (h : Sound (!b) books.1 ∧ Sound b books.2)
    (hb : executeRound books = some (books',trades)) : Sound (!b) books'.1 ∧ Sound b books'.2 := by
  have hp := executeRound_forall (wellPlaced_fillStable (!b)) (wellPlaced_fillStable b)
    ⟨h.1.placed,h.2.placed⟩ hb
  obtain ⟨x,o,_,he⟩ := executeRound_eq_some_iff.mp hb
  cases he
  have hx := (x.forall_best h.1.placed).2.1
  have ho := (o.forall_best h.2.placed).2.1
  exact ⟨⟨hp.1,x.fill_noEmptyLevel hx h.1.noEmptyLevel _⟩,
    ⟨hp.2,o.fill_noEmptyLevel ho h.2.noEmptyLevel _⟩⟩

theorem executeOrder_sound {b : Bool} {opp : OrderBook c} {own : OrderBook d}
    (hopp : Sound (!b) opp) (hown : Sound b own) :
    Sound (!b) (executeOrder opp own).1.1 ∧ Sound b (executeOrder opp own).1.2 :=
  (executeLoop c d).run_invariant (I := fun books => Sound (!b) books.1 ∧ Sound b books.2)
    (fun _ _ _ h hb => executeRound_sound h hb) ⟨hopp,hown⟩

/-- Prices only get worse behind the front of either book. -/
theorem matchPricePredicate_of_behind {b : Bool} {o o' x x' : OrderInsertData}
    (ho : o.isBuySide = b) (ho' : o'.isBuySide = b)
    (hown : o'.price = o.price ∨ (TCompare.ofSide b).before o.price o'.price)
    (hopp : x'.price = x.price ∨ (TCompare.ofSide (!b)).before x.price x'.price)
    (h : matchPricePredicate o x = false) : matchPricePredicate o' x' = false := by
  cases b
  · simp only [matchPricePredicate,ho,ho',Bool.false_eq_true,↓reduceIte,decide_eq_false_iff_not,
      TCompare.ofSide,TCompare.before,Bool.not_false] at h hown hopp ⊢
    grind
  · simp only [matchPricePredicate,ho,ho',↓reduceIte,decide_eq_false_iff_not,
      TCompare.ofSide,TCompare.before,Bool.not_true] at h hown hopp ⊢
    grind

/-- The loop is left with no order of one book marketable against the other. -/
theorem executeOrder_not_marketable {b : Bool} {opp : OrderBook (TCompare.ofSide (!b))}
    {own : OrderBook (TCompare.ofSide b)} (hopp : Sound (!b) opp) (hown : Sound b own) :
    ∀ x ∈ (executeOrder opp own).1.1.orders, ∀ o ∈ (executeOrder opp own).1.2.orders,
      matchPricePredicate o x = false := by
  intro x hx o ho
  have hs := executeOrder_sound hopp hown
  obtain ⟨fx⟩ := OrderBook.exists_front hs.1.noEmptyLevel hx
  obtain ⟨fo⟩ := OrderBook.exists_front hs.2.noEmptyLevel ho
  have hstop : executeRound (executeOrder opp own).1 = none := (executeLoop _ _).body_run _
  have hm : matchPricePredicate fo.best fx.best = false := by
    by_contra hm
    rw [Bool.not_eq_false] at hm
    rw [executeRound_of_fronts fx fo,if_pos hm] at hstop
    cases hstop
  obtain ⟨e,he,hoe⟩ := OrderBook.mem_orders.mp ho
  exact matchPricePredicate_of_behind (fo.forall_best hs.2.placed).1
    (hs.2.placed e he o hoe).1 (fo.best_first hs.2.placed ho) (fx.best_first hs.1.placed hx) hm

namespace MatchingEngine

/-- No resting buy order reaches the price of a resting sell order. -/
def Uncrossed (engine : MatchingEngine) : Prop :=
  ∀ buy ∈ engine.bids.orders, ∀ sell ∈ engine.asks.orders, ¬ buy.price ≥ sell.price

instance (engine : MatchingEngine) : Decidable engine.Uncrossed :=
  inferInstanceAs (Decidable (∀ buy ∈ engine.bids.orders, ∀ sell ∈ engine.asks.orders,
    ¬ buy.price ≥ sell.price))

theorem Uncrossed.mono {engine engine' : MatchingEngine} (h : engine.Uncrossed)
    (hmem : ∀ b, ∀ o ∈ (engine'.side b).orders, o ∈ (engine.side b).orders) : engine'.Uncrossed :=
  fun buy hbuy sell hsell => h buy (hmem true buy hbuy) sell (hmem false sell hsell)

/-- Sound on both sides and uncrossed. -/
structure Settled (engine : MatchingEngine) : Prop where
  sound : ∀ b, Sound b (engine.side b)
  uncrossed : engine.Uncrossed

theorem uncrossed_withSides {b : Bool} {opp : OrderBook (TCompare.ofSide (!b))}
    {own : OrderBook (TCompare.ofSide b)} (hown : own.Forall (WellPlaced b))
    (h : ∀ x ∈ opp.orders, ∀ o ∈ own.orders, matchPricePredicate o x = false) :
    (withSides b opp own).Uncrossed := by
  intro buy hbuy sell hsell
  cases b
  · obtain ⟨e,he,hoe⟩ := OrderBook.mem_orders.mp hsell
    simpa [matchPricePredicate,(hown e he sell hoe).1] using h buy hbuy sell hsell
  · obtain ⟨e,he,hoe⟩ := OrderBook.mem_orders.mp hbuy
    simpa [matchPricePredicate,(hown e he buy hoe).1] using h sell hsell buy hbuy

theorem fresh_settled : fresh.Settled := by
  refine ⟨?_,fun _ hb => absurd hb List.not_mem_nil⟩
  rintro (_ | _) <;> exact ⟨fun _ he => absurd he List.not_mem_nil,
    fun _ he => absurd he List.not_mem_nil⟩

theorem matched_settled {b : Bool} {opp : OrderBook (TCompare.ofSide (!b))}
    {own : OrderBook (TCompare.ofSide b)} (hopp : Sound (!b) opp) (hown : Sound b own) :
    (matched b opp own).1.Settled := by
  have hs := executeOrder_sound hopp hown
  exact ⟨forall_side_withSides.mpr hs,
    uncrossed_withSides hs.2.placed (executeOrder_not_marketable hopp hown)⟩

end MatchingEngine

/-- The request does not cancel the only order of a level. -/
def Call.KeepsLevels (engine : MatchingEngine) : Call Endpoint → Prop
  | orderInsert _ _ => True
  | orderAmend _ _ => True
  | orderCancel k _ => ∀ level,
      (engine.side k.isBuySide).orderBookMap.find? k.price = some level →
      (∃ o ∈ level.timeQueue, o.id = k.id) → 2 ≤ level.timeQueue.length

namespace MatchingEngine

theorem handle_settled {engine : MatchingEngine} {call : Call Endpoint} (h : engine.Settled)
    (hcall : call.InsertsVolume) (hkeep : call.KeepsLevels engine) :
    (handle engine call).1.Settled := by
  have hs := h.sound
  cases call with
  | orderInsert o endpoint =>
    rw [handle,orderInsert_eq engine rfl]
    exact matched_settled (hs _) ⟨OrderBook.insert_forall (hs _).placed ⟨rfl,rfl,hcall⟩,
      OrderBook.insert_noEmptyLevel (hs _).noEmptyLevel o⟩
  | orderAmend a endpoint =>
    by_cases hr : (engine.side a.isBuySide).Rests a.price a.id
    · obtain ⟨p⟩ := OrderBook.nonempty_position_iff.mpr hr
      have ho := p.forall_order (hs a.isBuySide).placed
      rw [handle,orderAmend_eq engine rfl p]
      refine matched_settled (hs _) ⟨p.amended_forall (hs _).placed ?_ ?_,
        p.amended_noEmptyLevel (hs _).noEmptyLevel _⟩
      · exact fun hv => ⟨ho.1,ho.2.1,UInt64.pos_iff_ne_zero.mpr hv⟩
      · exact fun hv => ⟨ho.1,rfl,UInt64.pos_iff_ne_zero.mpr hv⟩
    · rw [handle,orderAmend_of_not_rests engine hr]
      exact h
  | orderCancel k endpoint =>
    by_cases hr : (engine.side k.isBuySide).Rests k.price k.id
    · obtain ⟨p⟩ := OrderBook.nonempty_position_iff.mpr hr
      have hlen := hkeep _ p.split.find? ⟨p.order,by simp,p.id_eq⟩
      have hne : p.before ++ p.after ≠ [] := by
        intro hnil
        obtain ⟨hb,ha⟩ := List.append_eq_nil_iff.mp hnil
        simp [hb,ha] at hlen
      rw [handle,orderCancel_eq engine rfl p,p.withQueue_eq_dropped hne]
      refine ⟨forall_side_withSides.mpr ⟨hs _,p.dropped_forall (hs _).placed,
        p.dropped_noEmptyLevel (hs _).noEmptyLevel⟩,h.uncrossed.mono ?_⟩
      exact (forall_side_withSides (P := fun b book => ∀ o ∈ book.orders,
        o ∈ (engine.side b).orders)).mpr ⟨fun _ ho => ho,fun _ ho => p.mem_of_mem_dropped ho⟩
    · rw [handle,orderCancel_of_not_rests engine hr]
      exact h

end MatchingEngine

/-- An insert is of a positive price and a positive volume. -/
def Call.InsertsPositive : Call Endpoint → Prop
  | orderInsert o _ => 0 < o.price ∧ 0 < o.volume
  | orderAmend _ _ => True
  | orderCancel _ _ => True

/-- In a run that never cancels the only order of a level, the book is uncrossed
after every call. -/
theorem uncrossed_of_keepsLevels (calls : List (Call Endpoint))
    (hcalls : ∀ call ∈ calls, call.InsertsPositive)
    (hkeep : Machine.StepsMeet handle (fun engine call => call.KeepsLevels engine) fresh calls) :
    ∀ r ∈ Machine.trace handle fresh calls, r.1.Uncrossed := by
  have hvolume : ∀ call ∈ calls, call.InsertsVolume := by
    intro call hc
    have h := hcalls call hc
    cases call with
    | orderInsert o endpoint => exact h.2
    | orderAmend a endpoint => trivial
    | orderCancel k endpoint => trivial
  have hmeet := (Machine.stepsMeet_of_forall hvolume).and hkeep
  exact fun r hr => (Machine.trace_invariant (I := Settled)
    (fun _ _ h hc => handle_settled h hc.1 hc.2) fresh_settled hmeet r hr).uncrossed

/-- Of two bids at 50 one is cancelled; an ask then trades with the other one. -/
def sharedLevel : List (Call Unit) :=
  [.orderInsert (limitOrder true "1" 50 10) (),.orderInsert (limitOrder true "2" 50 10) (),
    .orderCancel { price := 50, isBuySide := true, id := "1" } (),
    .orderInsert (limitOrder false "3" 40 14) ()]

theorem uncrossed_of_keepsLevels_shared : (Machine.final handle fresh sharedLevel).Uncrossed ∧
    (Machine.final handle fresh sharedLevel).asks.orders = [limitOrder false "3" 40 4] := by
  refine ⟨uncrossed_of_keepsLevels sharedLevel
    (by simp [sharedLevel,Call.InsertsPositive,limitOrder]) ⟨trivial,trivial,?_,trivial,trivial⟩ _
    (List.mem_cons_of_mem _ (List.mem_cons_of_mem _ (List.mem_cons_of_mem _ List.mem_cons_self))),
    by decide⟩
  intro level hl _
  cases hl
  decide

/-- The cancelled bid leaves an empty level at 50 on top of the bids. -/
def emptiedTopLevel : List (Call Unit) :=
  [.orderInsert (limitOrder true "1" 50 10) (),
    .orderCancel { instrument := "ABCD", price := 50, isBuySide := true, id := "1", clientId := "1" } (),
    .orderInsert (limitOrder true "2" 40 10) (),
    .orderInsert (limitOrder false "3" 30 10) ()]

/-- A bid at 40 and an ask at 30 rest next to each other. -/
theorem emptiedTopLevel_crossed : (∀ call ∈ emptiedTopLevel, call.InsertsPositive) ∧
    ¬ (Machine.final handle fresh emptiedTopLevel).Uncrossed := by
  refine ⟨?_,by decide⟩
  simp [emptiedTopLevel,Call.InsertsPositive,limitOrder]

end Moboware
