import Moboware.MatchingEngine.RequestProtocol

/-! # The book representation invariant

Every resting order is on the side of its flag, in the level of its price, and
has volume left. The matching loop relies on it: it takes the direction of a match
from the flag of an order and removes an emptied level by the price of an order.
-/
namespace Moboware
open Library MatchingEngine
variable {Endpoint : Type*}

section Loop
variable {c d : TCompare} {P Q : PriceType → OrderInsertData → Prop}

theorem executeRound_forall (hP : OrderBook.FillStable P) (hQ : OrderBook.FillStable Q)
    {books books' : OrderBook c × OrderBook d} {trades : List Trade}
    (h : books.1.Forall P ∧ books.2.Forall Q) (hb : executeRound books = some (books',trades)) :
    books'.1.Forall P ∧ books'.2.Forall Q := by
  obtain ⟨x,o,_,he⟩ := executeRound_eq_some_iff.mp hb
  cases he
  exact ⟨x.fill_forall hP h.1 _,o.fill_forall hQ h.2 _⟩

theorem executeOrder_forall (hP : OrderBook.FillStable P) (hQ : OrderBook.FillStable Q)
    {opp : OrderBook c} {own : OrderBook d} (hopp : opp.Forall P) (hown : own.Forall Q) :
    (executeOrder opp own).1.1.Forall P ∧ (executeOrder opp own).1.2.Forall Q :=
  (executeLoop c d).run_invariant (I := fun books => books.1.Forall P ∧ books.2.Forall Q)
    (fun _ _ _ h hb => executeRound_forall hP hQ h hb) ⟨hopp,hown⟩

/-- Every trade is that of an order which had the property of its book. -/
theorem executeOrder_trades_forall (hP : OrderBook.FillStable P) (hQ : OrderBook.FillStable Q)
    {opp : OrderBook c} {own : OrderBook d} (hopp : opp.Forall P) (hown : own.Forall Q) :
    ∀ trade ∈ (executeOrder opp own).2, ∃ price o v, (P price o ∨ Q price o) ∧
      trade = o.tradeOf v := by
  refine (executeLoop c d).run_induction (P := fun s r => s.1.Forall P ∧ s.2.Forall Q →
    ∀ trade ∈ r.2, ∃ price o v, (P price o ∨ Q price o) ∧ trade = o.tradeOf v) ?_ ?_ (opp,own)
    ⟨hopp,hown⟩
  · exact fun _ _ _ _ ht => absurd ht List.not_mem_nil
  · intro s s' out r hb ih hs trade ht
    obtain ⟨x,o,_,he⟩ := executeRound_eq_some_iff.mp hb
    rcases List.mem_append.mp ht with ht | ht
    · cases he
      rcases List.mem_cons.mp ht with rfl | ht
      · exact ⟨x.key,x.best,_,Or.inl (x.forall_best hs.1),rfl⟩
      · exact ⟨o.key,o.best,_,Or.inr (o.forall_best hs.2),List.mem_singleton.mp ht⟩
    · exact ih (executeRound_forall hP hQ hs hb) trade ht

end Loop

namespace MatchingEngine
section Step
variable {P : Bool → PriceType → OrderInsertData → Prop}

theorem matched_forall (hP : ∀ b, OrderBook.FillStable (P b)) {b : Bool}
    {opp : OrderBook (TCompare.ofSide (!b))} {own : OrderBook (TCompare.ofSide b)}
    (hopp : opp.Forall (P (!b))) (hown : own.Forall (P b)) :
    (∀ b', ((matched b opp own).1.side b').Forall (P b')) ∧
      ∀ trade ∈ (matched b opp own).2, ∃ b' price o v, P b' price o ∧ trade = o.tradeOf v := by
  refine ⟨forall_side_withSides.mpr (executeOrder_forall (hP (!b)) (hP b) hopp hown),?_⟩
  intro trade ht
  obtain ⟨price,o,v,hpo | hpo,he⟩ := executeOrder_trades_forall (hP (!b)) (hP b) hopp hown trade ht
  · exact ⟨!b,price,o,v,hpo,he⟩
  · exact ⟨b,price,o,v,hpo,he⟩

/-- What a call has to bring so that a property of the resting orders survives it. -/
def Brings (P : Bool → PriceType → OrderInsertData → Prop) : Call Endpoint → Prop
  | .orderInsert o _ => P o.isBuySide o.price o
  | .orderAmend a _ => ∀ o, P a.isBuySide a.price o → a.newVolume ≠ 0 →
      P a.isBuySide a.price { o with volume := a.newVolume } ∧
      P a.isBuySide a.newPrice { o with price := a.newPrice, volume := a.newVolume }
  | .orderCancel _ _ => True

/-- A property of the resting orders, with the trades that one call reports of them. -/
theorem handle_forall (hP : ∀ b, OrderBook.FillStable (P b)) {engine : MatchingEngine}
    {call : Call Endpoint} (h : ∀ b, (engine.side b).Forall (P b)) (hcall : Brings P call) :
    (∀ b, ((handle engine call).1.side b).Forall (P b)) ∧
      ∀ trade endpoint, (.trade trade,endpoint) ∈ (handle engine call).2 →
        endpoint = call.endpoint ∧ ∃ b price o v, P b price o ∧ trade = o.tradeOf v := by
  have hmessages : ∀ {reply : OrderReply} {trades : List Trade}, (∀ trade ∈ trades,
      ∃ b price o v, P b price o ∧ trade = o.tradeOf v) → ∀ trade endpoint,
      (.trade trade,endpoint) ∈ replyAndTrades reply trades call.endpoint →
        endpoint = call.endpoint ∧ ∃ b price o v, P b price o ∧ trade = o.tradeOf v := by
    intro reply trades htrades trade endpoint hm
    rcases List.mem_cons.mp hm with he | hm
    · cases he
    · obtain ⟨t,ht,he⟩ := List.mem_map.mp hm
      cases he
      exact ⟨rfl,htrades trade ht⟩
  cases call with
  | orderInsert o endpoint =>
    rw [handle,orderInsert_eq engine rfl]
    have hm := matched_forall hP (h (!o.isBuySide)) (OrderBook.insert_forall (h _) hcall)
    exact ⟨hm.1,hmessages hm.2⟩
  | orderAmend a endpoint =>
    by_cases hr : (engine.side a.isBuySide).Rests a.price a.id
    · obtain ⟨p⟩ := OrderBook.nonempty_position_iff.mpr hr
      have ho := hcall p.order (p.forall_order (h a.isBuySide))
      have hm := matched_forall hP (h (!a.isBuySide)) (p.amended_forall (h _)
        (fun hv => (ho hv).1) (fun hv => (ho hv).2))
      rw [handle,orderAmend_eq engine rfl p]
      exact ⟨hm.1,hmessages hm.2⟩
    · rw [handle,orderAmend_of_not_rests engine hr]
      exact ⟨h,fun _ _ hm => by simp at hm⟩
  | orderCancel k endpoint =>
    by_cases hr : (engine.side k.isBuySide).Rests k.price k.id
    · obtain ⟨p⟩ := OrderBook.nonempty_position_iff.mpr hr
      rw [handle,orderCancel_eq engine rfl p]
      exact ⟨forall_side_withSides.mpr ⟨h _,p.withQueue_forall (h _) (p.forall_queue (h _))⟩,
        hmessages (fun _ ht => absurd ht List.not_mem_nil)⟩
    · rw [handle,orderCancel_of_not_rests engine hr]
      exact ⟨h,fun _ _ hm => by simp at hm⟩

end Step
end MatchingEngine

/-- What holds of an order in a level of the book of one side. -/
def WellPlaced (b : Bool) (price : PriceType) (o : OrderInsertData) : Prop :=
  o.isBuySide = b ∧ o.price = price ∧ 0 < o.volume

instance (b : Bool) (price : PriceType) (o : OrderInsertData) : Decidable (WellPlaced b price o) :=
  inferInstanceAs (Decidable (o.isBuySide = b ∧ o.price = price ∧ 0 < o.volume))

theorem wellPlaced_fillStable (b : Bool) : OrderBook.FillStable (WellPlaced b) :=
  fun _ _ _ h hv => ⟨h.1,h.2.1,UInt64.pos_iff_ne_zero.mpr hv⟩

/-- Inserts come with a positive volume. -/
def Call.InsertsVolume : Call Endpoint → Prop
  | orderInsert o _ => 0 < o.volume
  | orderAmend _ _ => True
  | orderCancel _ _ => True

namespace MatchingEngine

/-- The invariant of both books. -/
structure Represented (engine : MatchingEngine) : Prop where
  bids : ∀ e ∈ engine.bids.orderBookMap.entries, ∀ o ∈ e.2.timeQueue,
    o.isBuySide = true ∧ o.price = e.1 ∧ 0 < o.volume
  asks : ∀ e ∈ engine.asks.orderBookMap.entries, ∀ o ∈ e.2.timeQueue,
    o.isBuySide = false ∧ o.price = e.1 ∧ 0 < o.volume

theorem represented_iff {engine : MatchingEngine} :
    engine.Represented ↔ ∀ b, (engine.side b).Forall (WellPlaced b) := by
  constructor
  · rintro h (_ | _)
    · exact h.asks
    · exact h.bids
  · exact fun h => ⟨h true,h false⟩

theorem fresh_represented : fresh.Represented := by
  constructor <;> intro e he <;> exact absurd he List.not_mem_nil

/-- One call keeps the invariant; amends and cancels need no assumption. -/
theorem handle_represented {engine : MatchingEngine} {call : Call Endpoint}
    (h : engine.Represented) (hcall : call.InsertsVolume) : (handle engine call).1.Represented := by
  have hbrings : Brings WellPlaced call := by
    cases call with
    | orderInsert o endpoint => exact ⟨rfl,rfl,hcall⟩
    | orderAmend a endpoint =>
      intro o ho hv
      have hpos := UInt64.pos_iff_ne_zero.mpr hv
      exact ⟨⟨ho.1,ho.2.1,hpos⟩,⟨ho.1,rfl,hpos⟩⟩
    | orderCancel k endpoint => exact trivial
  exact represented_iff.mpr
    (handle_forall wellPlaced_fillStable (represented_iff.mp h) hbrings).1

end MatchingEngine

/-- The representation invariant holds in every state a run of calls reaches. -/
theorem reachable_represented (calls : List (Call Endpoint))
    (hcalls : ∀ call ∈ calls, call.InsertsVolume) :
    (Machine.final handle fresh calls).Represented :=
  Machine.final_invariant (fun _ _ h hc => handle_represented h hc) fresh_represented
    (Machine.stepsMeet_of_forall hcalls)

/-- Two bids, one of them moved, and an ask that fills one and a part of the other. -/
theorem reachable_represented_filled :
    (Machine.final handle fresh ([.orderInsert (limitOrder true "1" 50 10) (),
      .orderInsert (limitOrder true "2" 40 10) (),
      .orderAmend { limitOrder true "1" 50 10 with newPrice := 45, newVolume := 7 } (),
      .orderInsert (limitOrder false "3" 40 9) ()] : List (Call Unit))).Represented :=
  reachable_represented _ (by simp [Call.InsertsVolume,limitOrder])

end Moboware
