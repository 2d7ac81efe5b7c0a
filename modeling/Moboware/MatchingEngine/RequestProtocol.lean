import Mathlib.Algebra.Group.Even
import Mathlib.Algebra.Ring.Parity
import Moboware.MatchingEngine.Sides

/-! # The request protocol

Whatever the books hold, a request is answered either by one reply and the trades
it caused, two per match, or by one error and no change of the books.
-/
namespace Moboware
open Library MatchingEngine
variable {Endpoint : Type*} {c d : TCompare}

/-- Every round of the loop reports the trade of either side. -/
theorem executeOrder_even (opp : OrderBook c) (own : OrderBook d) :
    Even (executeOrder opp own).2.length := by
  refine (executeLoop c d).run_induction (P := fun _ r => Even r.2.length) ?_ ?_ (opp,own)
  · exact fun _ _ => Even.zero
  · intro s s' out r hb hr
    obtain ⟨x,o,_,he⟩ := executeRound_eq_some_iff.mp hb
    cases he
    rw [List.length_append]
    exact (show Even 2 from even_two).add hr

namespace Call

def endpoint : Call Endpoint → Endpoint
  | orderInsert _ endpoint => endpoint
  | orderAmend _ endpoint => endpoint
  | orderCancel _ endpoint => endpoint

def id : Call Endpoint → Id
  | orderInsert o _ => o.id
  | orderAmend a _ => a.id
  | orderCancel k _ => k.id

def clientId : Call Endpoint → ClientId
  | orderInsert o _ => o.clientId
  | orderAmend a _ => a.clientId
  | orderCancel k _ => k.clientId

/-- An amend or cancel can be served when the order rests where the request says. -/
def Serviceable (engine : MatchingEngine) : Call Endpoint → Prop
  | orderInsert _ _ => True
  | orderAmend a _ => (engine.side a.isBuySide).Rests a.price a.id
  | orderCancel k _ => (engine.side k.isBuySide).Rests k.price k.id

/-- Exactly one reply, then an even number of trades. -/
def AnsweredByReply (call : Call Endpoint) (messages : List (Message × Endpoint)) : Prop :=
  ∃ trades, Even trades.length ∧
    messages = replyAndTrades ⟨call.id,call.clientId⟩ trades call.endpoint

/-- Exactly one error, and nothing else. -/
def AnsweredByError (call : Call Endpoint) (messages : List (Message × Endpoint)) : Prop :=
  ∃ errorMessage, messages = [(.errorReply ⟨call.clientId,errorMessage⟩,call.endpoint)]

theorem AnsweredByError.not_reply {call : Call Endpoint} {messages : List (Message × Endpoint)}
    (h : call.AnsweredByError messages) : ¬ call.AnsweredByReply messages := by
  rintro ⟨trades,_,hr⟩
  obtain ⟨errorMessage,rfl⟩ := h
  simp [replyAndTrades] at hr

theorem answeredByReply_matched (call : Call Endpoint) (b : Bool)
    (opp : OrderBook (TCompare.ofSide (!b))) (own : OrderBook (TCompare.ofSide b)) :
    call.AnsweredByReply
      (replyAndTrades ⟨call.id,call.clientId⟩ (matched b opp own).2 call.endpoint) :=
  ⟨_,executeOrder_even opp own,rfl⟩

/-- A request that can be served is answered by a reply, and any other one by an
error that leaves the engine as it was. -/
theorem handle_cases (engine : MatchingEngine) (call : Call Endpoint) :
    (call.Serviceable engine ∧ call.AnsweredByReply (handle engine call).2) ∨
      (¬ call.Serviceable engine ∧ call.AnsweredByError (handle engine call).2 ∧
        (handle engine call).1 = engine) := by
  cases call with
  | orderInsert o endpoint =>
    refine Or.inl ⟨trivial,?_⟩
    rw [handle,orderInsert_eq engine rfl]
    exact answeredByReply_matched (.orderInsert o endpoint) _ _ _
  | orderAmend a endpoint =>
    by_cases h : (engine.side a.isBuySide).Rests a.price a.id
    · obtain ⟨p⟩ := OrderBook.nonempty_position_iff.mpr h
      refine Or.inl ⟨h,?_⟩
      rw [handle,orderAmend_eq engine rfl p]
      exact answeredByReply_matched (.orderAmend a endpoint) _ _ _
    · refine Or.inr ⟨h,?_⟩
      rw [handle,orderAmend_of_not_rests engine h]
      exact ⟨⟨_,rfl⟩,rfl⟩
  | orderCancel k endpoint =>
    by_cases h : (engine.side k.isBuySide).Rests k.price k.id
    · obtain ⟨p⟩ := OrderBook.nonempty_position_iff.mpr h
      refine Or.inl ⟨h,?_⟩
      rw [handle,orderCancel_eq engine rfl p]
      exact ⟨[],Even.zero,rfl⟩
    · refine Or.inr ⟨h,?_⟩
      rw [handle,orderCancel_of_not_rests engine h]
      exact ⟨⟨_,rfl⟩,rfl⟩

end Call

/-- The request protocol, for any books and any call: a reply with trades or one
error; a reply exactly for the requests that can be served, so for every insert;
and an error only with both books unchanged. -/
theorem request_protocol (engine : MatchingEngine) (call : Call Endpoint) :
    (call.AnsweredByReply (handle engine call).2 ∨ call.AnsweredByError (handle engine call).2) ∧
    (call.AnsweredByReply (handle engine call).2 ↔ call.Serviceable engine) ∧
    (call.AnsweredByError (handle engine call).2 → (handle engine call).1 = engine) := by
  rcases call.handle_cases engine with ⟨hs,hr⟩ | ⟨hs,he,hu⟩
  · exact ⟨Or.inl hr,iff_of_true hr hs,fun he => absurd hr he.not_reply⟩
  · exact ⟨Or.inr he,iff_of_false he.not_reply hs,fun _ => hu⟩

end Moboware
