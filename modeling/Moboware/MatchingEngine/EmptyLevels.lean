import Mathlib.Data.Bool.Basic
import Moboware.MatchingEngine.Uncrossed

/-! # Empty first levels

`Cancel` leaves a level without orders in its map. Where this is the first level of a
side, every return of `ExecuteOrder` is taken before a price is compared. The book is
crossed behind such a level only, and as long as it stands first nothing trades.
-/
namespace Moboware
open Library MatchingEngine OrderLevel
variable {Endpoint : Type*} {c d : TCompare}

namespace OrderBook

/-- The first level of the book is at the price and holds no order. -/
def EmptyTop (book : OrderBook c) (price : PriceType) : Prop :=
  book.orderBookMap.begin? = some (price,⟨[]⟩)

instance (book : OrderBook c) (price : PriceType) : Decidable (book.EmptyTop price) :=
  inferInstanceAs (Decidable (book.orderBookMap.begin? = some (price,⟨[]⟩)))

variable {book : OrderBook c} {price : PriceType}

theorem EmptyTop.find? (h : book.EmptyTop price) : book.orderBookMap.find? price = some ⟨[]⟩ := by
  obtain ⟨rest,hr⟩ := List.head?_eq_some_iff.mp h
  exact (OrderedMap.Split.of_cons hr).find?

/-- A book has a front, or no order, or an empty first level. -/
theorem front_or_emptyTop (book : OrderBook c) :
    Nonempty book.Front ∨ book.orders = [] ∨ ∃ price, book.EmptyTop price := by
  rcases hb : book.orderBookMap.entries with _ | ⟨⟨key,⟨_ | ⟨best,queue⟩⟩⟩,tail⟩
  · exact Or.inr (Or.inl (by simp [orders,hb]))
  · exact Or.inr (Or.inr ⟨key,by simp [EmptyTop,OrderedMap.begin?,hb]⟩)
  · exact Or.inl ⟨key,best,queue,tail,hb⟩

theorem EmptyTop.not_front (h : book.EmptyTop price) : ¬ Nonempty book.Front := by
  rintro ⟨f⟩
  rw [EmptyTop,OrderedMap.begin?,f.entries_eq] at h
  cases h

/-- An insert leaves the empty level first exactly if its price stands behind it. -/
theorem EmptyTop.insert_iff (h : book.EmptyTop price) (o : OrderInsertData) :
    (book.insert o).1.EmptyTop price ↔ c.before price o.price := by
  cases hf : book.orderBookMap.find? o.price with
  | none =>
    have hne : price ≠ o.price := by
      intro he
      rw [← he,h.find?] at hf
      cases hf
    rw [insert_of_absent hf,EmptyTop,OrderedMap.begin?_emplace h]
    split_ifs with hlt
    · simp [asymm_of c.before hlt]
    · exact iff_of_true rfl (((trichotomous_of c.before price o.price).resolve_right
        (fun hr => hr.elim hne hlt)))
  | some level =>
    obtain ⟨pre,post,hs⟩ := OrderedMap.split_of_find? hf
    rw [insert_of_split hs]
    have hmem := hs.entries ▸ List.mem_append_right pre List.mem_cons_self
    have hnot : ¬ c.before o.price price :=
      OrderedMap.not_lt_begin? h (e := (o.price,level)) hmem
    by_cases he : price = o.price
    · subst he
      have hm := hs.modify (fun _ => (⟨level.timeQueue ++ [o]⟩ : OrderLevel))
      refine iff_of_false ?_ (irrefl_of c.before _)
      intro hemp
      have := hemp.find?.symm.trans hm.find?
      simp at this
    · refine iff_of_true (OrderedMap.begin?_modify_of_ne h he _) ?_
      exact (trichotomous_of c.before price o.price).resolve_right (fun hr => hr.elim he hnot)

namespace Position
variable {key : PriceType} {id : Id} (p : Position book key id)

theorem ne_of_emptyTop (p : Position book key id) (h : book.EmptyTop price) : price ≠ key := by
  intro he
  subst he
  have hf := h.find?.symm.trans p.split.find?
  simp at hf

theorem withQueue_emptyTop (h : book.EmptyTop price) (timeQueue : List OrderInsertData) :
    (p.withQueue timeQueue).EmptyTop price :=
  OrderedMap.begin?_modify_of_ne h (p.ne_of_emptyTop h) _

theorem dropped_emptyTop (h : book.EmptyTop price) : p.dropped.EmptyTop price := by
  unfold dropped
  split_ifs
  · exact OrderedMap.begin?_erase_of_ne h (p.ne_of_emptyTop h)
  · exact p.withQueue_emptyTop h _

/-- An amend leaves the empty level first unless it moves the order in front of it. -/
theorem amended_emptyTop_iff (h : book.EmptyTop price) (newPrice : PriceType)
    (newVolume : VolumeType) : (p.amended newPrice newVolume).EmptyTop price ↔
      ¬ (newVolume ≠ 0 ∧ c.before newPrice price) := by
  unfold amended
  split_ifs with hv hp
  · exact iff_of_true (p.dropped_emptyTop h) (fun hn => hn.1 hv)
  · have hmem := p.split.entries ▸ List.mem_append_right p.pre List.mem_cons_self
    refine iff_of_true (p.withQueue_emptyTop h _) (fun hn => ?_)
    exact OrderedMap.not_lt_begin? h hmem (hp ▸ hn.2)
  · cases hf : book.orderBookMap.find? newPrice with
    | some level =>
      rw [p.moved_of_present hf]
      refine iff_of_true (p.dropped_emptyTop h) (fun hn => ?_)
      exact OrderedMap.not_lt_begin? h (OrderedMap.find?_eq_some_iff.mp hf) hn.2
    | none =>
      have hne : newPrice ≠ price := by
        rintro rfl
        rw [h.find?] at hf
        cases hf
      rw [p.moved_of_absent hp hf,(p.dropped_emptyTop h).insert_iff]
      change c.before price newPrice ↔ _
      constructor
      · exact fun hlt hn => asymm_of c.before hlt hn.2
      · intro hn
        exact (trichotomous_of c.before price newPrice).resolve_right
          (fun hr => hr.elim (fun he => hne he.symm) (fun hlt => hn ⟨hv,hlt⟩))

end Position
end OrderBook

/-! ### No trade while it stands first -/

theorem executeRound_of_emptyTop {opp : OrderBook c} {own : OrderBook d} {price : PriceType}
    (h : opp.EmptyTop price ∨ own.EmptyTop price) : executeRound (opp,own) = none := by
  by_contra hne
  obtain ⟨r,hr⟩ := Option.ne_none_iff_exists'.mp hne
  obtain ⟨hx,ho⟩ := nonempty_fronts_of_some hr
  exact h.elim (fun h => h.not_front hx) (fun h => h.not_front ho)

/-- A loop that reports no trade has not run a round. -/
theorem executeOrder_of_no_trade {opp : OrderBook c} {own : OrderBook d}
    (h : (executeOrder opp own).2 = []) : (executeOrder opp own).1 = (opp,own) := by
  cases hb : executeRound (opp,own) with
  | none =>
    have hr : (executeLoop c d).run (opp,own) = ((opp,own),[]) := EmittingLoop.run_of_none hb
    exact congrArg Prod.fst hr
  | some r =>
    obtain ⟨s,out⟩ := r
    obtain ⟨x,o,_,he⟩ := executeRound_eq_some_iff.mp hb
    have hr : (executeLoop c d).run (opp,own) =
        (((executeLoop c d).run s).1,out ++ ((executeLoop c d).run s).2) :=
      EmittingLoop.run_of_some hb
    rw [executeOrder,hr] at h
    cases he
    cases h

namespace MatchingEngine

/-- The first level of the side is empty after the call, and no trade was sent. -/
def Blocked (b : Bool) (price : PriceType) (r : MatchingEngine × List (Message × Endpoint)) : Prop :=
  (r.1.side b).EmptyTop price ∧ ∀ message ∈ r.2, ∀ trade, message.1 ≠ .trade trade

theorem no_trade_iff {reply : OrderReply} {trades : List Trade} {endpoint : Endpoint} :
    (∀ message ∈ replyAndTrades reply trades endpoint, ∀ trade, message.1 ≠ .trade trade) ↔
      trades = [] := by
  cases trades <;> simp [replyAndTrades]

/-- After the loop the side is blocked if the request left its empty level first. -/
theorem matched_blocked_iff {engine : MatchingEngine} {b b' : Bool} {price : PriceType}
    (h : (engine.side b).EmptyTop price) (own : OrderBook (TCompare.ofSide b'))
    (reply : OrderReply) (endpoint : Endpoint) :
    Blocked b price ((matched b' (engine.side (!b')) own).1,
      replyAndTrades reply (matched b' (engine.side (!b')) own).2 endpoint) ↔
    (b' = b → own.EmptyTop price) := by
  unfold Blocked
  rw [no_trade_iff]
  have hstop : (engine.side (!b')).EmptyTop price ∨ own.EmptyTop price →
      matched b' (engine.side (!b')) own = (withSides b' (engine.side (!b')) own,[]) := by
    intro hempty
    have hr : (executeLoop _ _).run (engine.side (!b'),own) = ((engine.side (!b'),own),[]) :=
      EmittingLoop.run_of_none (executeRound_of_emptyTop hempty)
    simp only [matched,executeOrder,hr]
  rcases Bool.eq_or_eq_not b b' with rfl | rfl
  · constructor
    · rintro ⟨htop,htrades⟩ _
      have hbooks := executeOrder_of_no_trade htrades
      simpa only [matched,hbooks,side_withSides_own] using htop
    · intro hown
      rw [hstop (Or.inr (hown rfl))]
      exact ⟨by simpa using hown rfl,rfl⟩
  · rw [hstop (Or.inl h)]
    exact iff_of_true ⟨by simpa using h,rfl⟩ (fun he => absurd he (by simp))

end MatchingEngine

/-- The request brings an order of the side to the price or in front of it: an insert
does at either, a move only in front. -/
def Call.Overtakes (b : Bool) (price : PriceType) (engine : MatchingEngine) : Call Endpoint → Prop
  | orderInsert o _ => o.isBuySide = b ∧ ¬ (TCompare.ofSide b).before price o.price
  | orderAmend a _ => a.isBuySide = b ∧ (engine.side b).Rests a.price a.id ∧ a.newVolume ≠ 0 ∧
      (TCompare.ofSide b).before a.newPrice price
  | orderCancel _ _ => False

namespace MatchingEngine

theorem handle_blocked_iff {engine : MatchingEngine} {b : Bool} {price : PriceType}
    (h : (engine.side b).EmptyTop price) (call : Call Endpoint) :
    Blocked b price (handle engine call) ↔ ¬ call.Overtakes b price engine := by
  cases call with
  | orderInsert o endpoint =>
    rw [handle,orderInsert_eq engine rfl]
    refine (matched_blocked_iff h _ _ _).trans ?_
    by_cases hb : o.isBuySide = b
    · subst hb
      simp [Call.Overtakes,h.insert_iff]
    · simp [Call.Overtakes,hb]
  | orderAmend a endpoint =>
    by_cases hr : (engine.side a.isBuySide).Rests a.price a.id
    · obtain ⟨p⟩ := OrderBook.nonempty_position_iff.mpr hr
      rw [handle,orderAmend_eq engine rfl p]
      refine (matched_blocked_iff h _ _ _).trans ?_
      by_cases hb : a.isBuySide = b
      · subst hb
        simp only [Call.Overtakes,p.amended_emptyTop_iff h,hr,true_and,forall_const]
      · simp [Call.Overtakes,hb]
    · rw [handle,orderAmend_of_not_rests engine hr]
      refine iff_of_true ⟨h,by simp⟩ ?_
      rintro ⟨rfl,hrests,_⟩
      exact hr hrests
  | orderCancel k endpoint =>
    refine iff_of_true ?_ (fun hn => hn)
    by_cases hr : (engine.side k.isBuySide).Rests k.price k.id
    · obtain ⟨p⟩ := OrderBook.nonempty_position_iff.mpr hr
      rw [handle,orderCancel_eq engine rfl p]
      refine ⟨?_,no_trade_iff.mpr rfl⟩
      rcases Bool.eq_or_eq_not b k.isBuySide with rfl | rfl
      · simpa using p.withQueue_emptyTop h _
      · simpa using h
    · rw [handle,orderCancel_of_not_rests engine hr]
      exact ⟨h,by simp⟩

end MatchingEngine

/-- From any state in which the first level of a side is empty: nothing trades, on either
side, and the level stays first, as long as no request brings an order of the side there or in
front of it, and the first such request trades or takes the level's place. -/
theorem blocked_iff {engine : MatchingEngine} {b : Bool} {price : PriceType}
    (h : (engine.side b).EmptyTop price) (calls : List (Call Endpoint)) :
    (∀ r ∈ Machine.trace handle engine calls, Blocked b price r) ↔
      Machine.StepsMeet handle (fun engine call => ¬ call.Overtakes b price engine) engine calls :=
  Machine.trace_forall_results_iff (I := fun engine => (engine.side b).EmptyTop price)
    (fun _ call h _ hC => ⟨((handle_blocked_iff h call).mpr hC).1,(handle_blocked_iff h call).mpr hC⟩)
    (fun _ call h _ hC => fun hb => hC ((handle_blocked_iff h call).mp hb)) h
    (Machine.stepsMeet_of_forall (C := fun _ => True) (fun _ _ => trivial))

/-- The bids after their best order at 50 was cancelled. -/
def emptiedBids : MatchingEngine :=
  Machine.final handle fresh ([.orderInsert (limitOrder true "1" 50 10) (),
    .orderCancel { price := 50, isBuySide := true, id := "1" } ()] : List (Call Unit))

/-- A bid at 40 and an ask at 30 do not trade; a bid at 50 then does. -/
theorem blocked_iff_emptied :
    (∀ r ∈ Machine.trace handle emptiedBids ([.orderInsert (limitOrder true "2" 40 10) (),
      .orderInsert (limitOrder false "3" 30 10) ()] : List (Call Unit)), Blocked true 50 r) ∧
    ¬ ∀ r ∈ Machine.trace handle emptiedBids ([.orderInsert (limitOrder false "3" 30 10) (),
      .orderInsert (limitOrder true "2" 50 10) ()] : List (Call Unit)), Blocked true 50 r := by
  have hempty : (emptiedBids.side true).EmptyTop 50 := by decide
  constructor
  · refine (blocked_iff hempty _).mpr ⟨?_,?_,trivial⟩
    · exact fun h => h.2 (by decide)
    · exact fun h => absurd h.1 (by decide)
  · intro h
    obtain ⟨_,h2,_⟩ := (blocked_iff hempty _).mp h
    exact h2 ⟨rfl,by decide⟩

/-! ### Crossed only behind it -/

namespace MatchingEngine

def SomeTopEmpty (engine : MatchingEngine) : Prop :=
  ∃ b price, (engine.side b).EmptyTop price

/-- The loop leaves the books uncrossed or stops in front of an empty level. -/
theorem matched_uncrossed {b : Bool} {opp : OrderBook (TCompare.ofSide (!b))}
    {own : OrderBook (TCompare.ofSide b)} (hopp : opp.Forall (WellPlaced (!b)))
    (hown : own.Forall (WellPlaced b)) :
    (matched b opp own).1.Uncrossed ∨ (matched b opp own).1.SomeTopEmpty := by
  have hs := executeOrder_forall (wellPlaced_fillStable (!b)) (wellPlaced_fillStable b) hopp hown
  have hstop : executeRound (executeOrder opp own).1 = none := (executeLoop _ _).body_run _
  unfold matched
  rcases (executeOrder opp own).1.1.front_or_emptyTop with ⟨⟨fx⟩⟩ | hx | ⟨price,hx⟩
  · rcases (executeOrder opp own).1.2.front_or_emptyTop with ⟨⟨fo⟩⟩ | ho | ⟨price,ho⟩
    · refine Or.inl (uncrossed_withSides hs.2 (fun x hx o ho => ?_))
      have hm : matchPricePredicate fo.best fx.best = false := by
        by_contra hm
        rw [executeRound_of_fronts fx fo,if_pos (by simpa using hm)] at hstop
        cases hstop
      obtain ⟨e,he,hoe⟩ := OrderBook.mem_orders.mp ho
      exact matchPricePredicate_of_behind (fo.forall_best hs.2).1 (hs.2 e he o hoe).1
        (fo.best_first hs.2 ho) (fx.best_first hs.1 hx) hm
    · exact Or.inl (uncrossed_withSides hs.2 (fun _ _ o hmem => by simp [ho] at hmem))
    · exact Or.inr ⟨b,price,by simpa using ho⟩
  · exact Or.inl (uncrossed_withSides hs.2 (fun x hmem => by simp [hx] at hmem))
  · exact Or.inr ⟨!b,price,by simpa using hx⟩

/-- One call keeps the invariant. -/
theorem handle_uncrossed {engine : MatchingEngine} {call : Call Endpoint}
    (hrep : engine.Represented) (h : engine.Uncrossed ∨ engine.SomeTopEmpty)
    (hcall : call.InsertsVolume) :
    (handle engine call).1.Uncrossed ∨ (handle engine call).1.SomeTopEmpty := by
  have hs := represented_iff.mp hrep
  cases call with
  | orderInsert o endpoint =>
    rw [handle,orderInsert_eq engine rfl]
    exact matched_uncrossed (hs _) (OrderBook.insert_forall (hs _) ⟨rfl,rfl,hcall⟩)
  | orderAmend a endpoint =>
    by_cases hr : (engine.side a.isBuySide).Rests a.price a.id
    · obtain ⟨p⟩ := OrderBook.nonempty_position_iff.mpr hr
      have ho := p.forall_order (hs a.isBuySide)
      rw [handle,orderAmend_eq engine rfl p]
      exact matched_uncrossed (hs _) (p.amended_forall (hs _)
        (fun hv => ⟨ho.1,ho.2.1,UInt64.pos_iff_ne_zero.mpr hv⟩)
        (fun hv => ⟨ho.1,rfl,UInt64.pos_iff_ne_zero.mpr hv⟩))
    · rw [handle,orderAmend_of_not_rests engine hr]
      exact h
  | orderCancel k endpoint =>
    rcases h with h | ⟨b,price,h⟩
    · by_cases hr : (engine.side k.isBuySide).Rests k.price k.id
      · obtain ⟨p⟩ := OrderBook.nonempty_position_iff.mpr hr
        rw [handle,orderCancel_eq engine rfl p]
        refine Or.inl (h.mono ((forall_side_withSides (P := fun b book => ∀ o ∈ book.orders,
          o ∈ (engine.side b).orders)).mpr ⟨fun _ ho => ho,fun o ho => ?_⟩))
        rw [p.removed_orders,← p.dropped_orders] at ho
        exact p.mem_of_mem_dropped ho
      · rw [handle,orderCancel_of_not_rests engine hr]
        exact Or.inl h
    · exact Or.inr ⟨b,price,((handle_blocked_iff h (.orderCancel k endpoint)).mpr id).1⟩

end MatchingEngine

/-- After every call of a run of inserts of positive volumes, amends and cancels, no bid
reaches an ask unless the first level of the bids or of the asks is empty. -/
theorem crossed_only_behind_emptyTop (calls : List (Call Endpoint))
    (hcalls : ∀ call ∈ calls, call.InsertsVolume) :
    ∀ r ∈ Machine.trace handle fresh calls, r.1.Uncrossed ∨ r.1.SomeTopEmpty :=
  fun r hr => (Machine.trace_invariant
    (I := fun engine => engine.Represented ∧ (engine.Uncrossed ∨ engine.SomeTopEmpty))
    (fun _ _ h hc => ⟨handle_represented h.1 hc,handle_uncrossed h.1 h.2 hc⟩)
    ⟨fresh_represented,Or.inl fresh_settled.uncrossed⟩
    (Machine.stepsMeet_of_forall (C := Call.InsertsVolume) hcalls) r hr).2

/-- The bid at 40 and the ask at 30 rest behind the emptied level at 50. -/
theorem crossed_only_behind_emptyTop_emptied :
    (Machine.final handle fresh emptiedTopLevel).SomeTopEmpty := by
  refine (crossed_only_behind_emptyTop emptiedTopLevel ?_ _ (List.mem_cons_of_mem _
    (List.mem_cons_of_mem _ (List.mem_cons_of_mem _ List.mem_cons_self)))).resolve_left (by decide)
  simp [emptiedTopLevel,Call.InsertsVolume,limitOrder]

end Moboware
