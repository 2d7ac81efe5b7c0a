import Moboware.MatchingEngine.BookOperations
import Moboware.MatchingEngine.Engine

/-! # Requests by side

Every request acts on the book of its own side and then, if it matches at all,
against the opposite one. Both sides are covered by one equation per request.
-/
namespace Moboware
open Library
variable {Endpoint : Type*}

namespace MatchingEngine

def side (engine : MatchingEngine) : (isBuySide : Bool) → OrderBook (TCompare.ofSide isBuySide)
  | true => engine.bids
  | false => engine.asks

/-- The engine with the two books of a request put back: opposite side, own side. -/
def withSides : (isBuySide : Bool) → OrderBook (TCompare.ofSide (!isBuySide)) →
    OrderBook (TCompare.ofSide isBuySide) → MatchingEngine
  | true, opposite, own => ⟨own,opposite⟩
  | false, opposite, own => ⟨opposite,own⟩

@[simp] theorem withSides_side (engine : MatchingEngine) (b : Bool) :
    withSides b (engine.side (!b)) (engine.side b) = engine := by cases b <;> rfl

@[simp] theorem side_withSides_opposite (b : Bool) (opposite : OrderBook (TCompare.ofSide (!b)))
    (own : OrderBook (TCompare.ofSide b)) : (withSides b opposite own).side (!b) = opposite := by
  cases b <;> rfl

@[simp] theorem side_withSides_own (b : Bool) (opposite : OrderBook (TCompare.ofSide (!b)))
    (own : OrderBook (TCompare.ofSide b)) : (withSides b opposite own).side b = own := by
  cases b <;> rfl

/-- A property of both books, each at its own side. -/
theorem forall_side_withSides {P : (b : Bool) → OrderBook (TCompare.ofSide b) → Prop} {b : Bool}
    {opposite : OrderBook (TCompare.ofSide (!b))} {own : OrderBook (TCompare.ofSide b)} :
    (∀ b', P b' ((withSides b opposite own).side b')) ↔ P (!b) opposite ∧ P b own := by
  cases b
  · exact ⟨fun h => ⟨h true,h false⟩,fun h b' => by cases b' <;> [exact h.2; exact h.1]⟩
  · exact ⟨fun h => ⟨h false,h true⟩,fun h b' => by cases b' <;> [exact h.1; exact h.2]⟩

/-- The books after the matching loop that follows an accepted insert or amend. -/
def matched (b : Bool) (opposite : OrderBook (TCompare.ofSide (!b)))
    (own : OrderBook (TCompare.ofSide b)) : MatchingEngine × List Trade :=
  let r := executeOrder opposite own
  (withSides b r.1.1 r.1.2,r.2)

/-- The messages of an accepted request. -/
def replyAndTrades (reply : OrderReply) (trades : List Trade) (endpoint : Endpoint) :
    List (Message × Endpoint) :=
  (.orderReply reply,endpoint) :: trades.map (fun trade => (.trade trade,endpoint))

theorem orderInsert_eq (engine : MatchingEngine) {b : Bool} {o : OrderInsertData}
    (hb : o.isBuySide = b) (endpoint : Endpoint) : engine.orderInsert o endpoint =
      let r := matched b (engine.side (!b)) ((engine.side b).insert o).1
      (r.1,replyAndTrades ⟨o.id,o.clientId⟩ r.2 endpoint) := by
  cases b with
  | true =>
    have hi := OrderBook.insert_snd engine.bids o
    simp only [orderInsert,hb,hi,↓reduceIte]
    rfl
  | false =>
    have hi := OrderBook.insert_snd engine.asks o
    simp only [orderInsert,hb,hi,↓reduceIte,Bool.false_eq_true]
    rfl

theorem orderAmend_of_result (engine : MatchingEngine) {b : Bool} {a : OrderAmendData}
    (hb : a.isBuySide = b) {own : OrderBook (TCompare.ofSide b)} {amended : Bool}
    (h : (engine.side b).amend a = (own,amended)) (endpoint : Endpoint) :
    engine.orderAmend a endpoint =
      if amended then ((matched b (engine.side (!b)) own).1,
        replyAndTrades ⟨a.id,a.clientId⟩ (matched b (engine.side (!b)) own).2 endpoint)
      else (withSides b (engine.side (!b)) own,
        [(.errorReply ⟨a.clientId,"Failed to amend order"⟩,endpoint)]) := by
  cases b with
  | true =>
    have ha : engine.bids.amend a = _ := h
    simp only [orderAmend,hb,ha,↓reduceIte]
    rfl
  | false =>
    have ha : engine.asks.amend a = _ := h
    simp only [orderAmend,hb,ha,↓reduceIte,Bool.false_eq_true]
    rfl

theorem orderAmend_eq (engine : MatchingEngine) {b : Bool} {a : OrderAmendData}
    (hb : a.isBuySide = b) (p : (engine.side b).Position a.price a.id) (endpoint : Endpoint) :
    engine.orderAmend a endpoint =
      let r := matched b (engine.side (!b)) (p.amended a.newPrice a.newVolume)
      (r.1,replyAndTrades ⟨a.id,a.clientId⟩ r.2 endpoint) :=
  orderAmend_of_result engine hb (OrderBook.amend_of_position p) endpoint

theorem orderAmend_of_not_rests (engine : MatchingEngine) {a : OrderAmendData}
    (h : ¬ (engine.side a.isBuySide).Rests a.price a.id) (endpoint : Endpoint) :
    engine.orderAmend a endpoint =
      (engine,[(.errorReply ⟨a.clientId,"Failed to amend order"⟩,endpoint)]) := by
  rw [orderAmend_of_result engine rfl (OrderBook.amend_of_not_rests h),withSides_side]
  rfl

theorem orderCancel_of_result (engine : MatchingEngine) {b : Bool} {k : OrderCancelData}
    (hb : k.isBuySide = b) {own : OrderBook (TCompare.ofSide b)} {cancelled : Bool}
    (h : (engine.side b).cancel k = (own,cancelled)) (endpoint : Endpoint) :
    engine.orderCancel k endpoint = (withSides b (engine.side (!b)) own,
      if cancelled then replyAndTrades ⟨k.id,k.clientId⟩ [] endpoint
      else [(.errorReply ⟨k.clientId,"Failed to cancel order"⟩,endpoint)]) := by
  cases b with
  | true =>
    have hc : engine.bids.cancel k = _ := h
    simp only [orderCancel,hb,hc,↓reduceIte]
    cases cancelled <;> rfl
  | false =>
    have hc : engine.asks.cancel k = _ := h
    simp only [orderCancel,hb,hc,↓reduceIte,Bool.false_eq_true]
    cases cancelled <;> rfl

theorem orderCancel_eq (engine : MatchingEngine) {b : Bool} {k : OrderCancelData}
    (hb : k.isBuySide = b) (p : (engine.side b).Position k.price k.id) (endpoint : Endpoint) :
    engine.orderCancel k endpoint =
      (withSides b (engine.side (!b)) (p.withQueue (p.before ++ p.after)),
        replyAndTrades ⟨k.id,k.clientId⟩ [] endpoint) :=
  orderCancel_of_result engine hb (OrderBook.cancel_of_position p) endpoint

theorem orderCancel_of_not_rests (engine : MatchingEngine) {k : OrderCancelData}
    (h : ¬ (engine.side k.isBuySide).Rests k.price k.id) (endpoint : Endpoint) :
    engine.orderCancel k endpoint =
      (engine,[(.errorReply ⟨k.clientId,"Failed to cancel order"⟩,endpoint)]) := by
  rw [orderCancel_of_result engine rfl (OrderBook.cancel_of_not_rests h),withSides_side]
  rfl

end MatchingEngine
end Moboware
