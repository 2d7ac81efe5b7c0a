import Moboware.Library.Mutex
import Moboware.MatchingEngine.Sides

/-! # Requests from several threads

The service runs its handlers on several threads, and each of the three requests takes the
mutex of the engine before it does anything. Here a request is taken apart into the edit of
the book, the sending of the reply and the single rounds of `ExecuteOrder`, and the threads
step through these in any order.
-/
namespace Moboware
open Library MatchingEngine
variable {Endpoint : Type*}

/-- Where a request stands that holds the mutex. -/
inductive Holding (Endpoint : Type*)
  | called (call : Call Endpoint)
  | sendReply (message : Message) (thenExecuteOrder : Option Bool) (endpoint : Endpoint)
  | executeOrder (isBuySide : Bool) (endpoint : Endpoint)

namespace MatchingEngine

/-- The edit of the book that a request begins with. -/
def editBook (engine : MatchingEngine) : Call Endpoint → MatchingEngine × Holding Endpoint
  | .orderInsert o endpoint =>
    let (own,insertedOrder) := (engine.side o.isBuySide).insert o
    (withSides o.isBuySide (engine.side (!o.isBuySide)) own,
      match insertedOrder with
      | some insertedOrder =>
        .sendReply (.orderReply ⟨insertedOrder.id,insertedOrder.clientId⟩) (some o.isBuySide) endpoint
      | none => .sendReply (.errorReply ⟨o.clientId,"Failed to insert order"⟩) none endpoint)
  | .orderAmend a endpoint =>
    let (own,amended) := (engine.side a.isBuySide).amend a
    (withSides a.isBuySide (engine.side (!a.isBuySide)) own,
      if amended then .sendReply (.orderReply ⟨a.id,a.clientId⟩) (some a.isBuySide) endpoint
      else .sendReply (.errorReply ⟨a.clientId,"Failed to amend order"⟩) none endpoint)
  | .orderCancel k endpoint =>
    let (own,cancelled) := (engine.side k.isBuySide).cancel k
    (withSides k.isBuySide (engine.side (!k.isBuySide)) own,
      if cancelled then .sendReply (.orderReply ⟨k.id,k.clientId⟩) none endpoint
      else .sendReply (.errorReply ⟨k.clientId,"Failed to cancel order"⟩) none endpoint)

/-- The next step under the mutex; `none` is the end of the scope of its lock. -/
def advance (engine : MatchingEngine) : Holding Endpoint →
    MatchingEngine × List (Message × Endpoint) × Option (Holding Endpoint)
  | .called call => ((engine.editBook call).1,[],some (engine.editBook call).2)
  | .sendReply message thenExecuteOrder endpoint =>
    (engine,[(message,endpoint)],thenExecuteOrder.map (fun isBuySide => .executeOrder isBuySide endpoint))
  | .executeOrder isBuySide endpoint =>
    match executeRound (engine.side (!isBuySide),engine.side isBuySide) with
    | none => (engine,[],none)
    | some ((opposite,own),trades) => (withSides isBuySide opposite own,
        trades.map (fun trade => (.trade trade,endpoint)),some (.executeOrder isBuySide endpoint))

/-- The requests under `std::scoped_lock lock(m_Mutex)`. -/
def locked : CriticalSection MatchingEngine (Call Endpoint) (Holding Endpoint) (Message × Endpoint) where
  enter := .called
  advance := advance

/-- The rounds one by one are the loop. -/
theorem completes_executeOrder (b : Bool) (endpoint : Endpoint)
    (books : OrderBook (TCompare.ofSide (!b)) × OrderBook (TCompare.ofSide b)) :
    locked.Completes (withSides b books.1 books.2) (.executeOrder b endpoint)
      (matched b books.1 books.2).1
      ((matched b books.1 books.2).2.map (fun trade => (.trade trade,endpoint))) := by
  refine (executeLoop (TCompare.ofSide (!b)) (TCompare.ofSide b)).run_induction
    (P := fun books r => locked.Completes (withSides b books.1 books.2) (.executeOrder b endpoint)
      (withSides b r.1.1 r.1.2) (r.2.map (fun trade => (.trade trade,endpoint)))) ?_ ?_ books
  · intro books hstop
    refine CriticalSection.Completes.leave ?_
    have hround : executeRound (books.1,books.2) = none := hstop
    simp only [locked,advance,side_withSides_opposite,side_withSides_own,hround,List.map_nil]
  · intro books books' trades r hround ih
    rw [List.map_append]
    refine CriticalSection.Completes.next ?_ ih
    have hround : executeRound (books.1,books.2) = some (books',trades) := hround
    simp only [locked,advance,side_withSides_opposite,side_withSides_own,hround]

/-- A reply that ends the request. -/
theorem completes_reply (engine : MatchingEngine) (message : Message) (endpoint : Endpoint) :
    locked.Completes engine (.sendReply message none endpoint) engine [(message,endpoint)] :=
  CriticalSection.Completes.leave rfl

/-- A reply with the matching behind it. -/
theorem completes_accepted (reply : OrderReply) {b : Bool} (endpoint : Endpoint)
    (opposite : OrderBook (TCompare.ofSide (!b))) (own : OrderBook (TCompare.ofSide b)) :
    locked.Completes (withSides b opposite own) (.sendReply (.orderReply reply) (some b) endpoint)
      (matched b opposite own).1 (replyAndTrades reply (matched b opposite own).2 endpoint) := by
  have hreply : locked.advance (withSides b opposite own)
      (.sendReply (.orderReply reply) (some b) endpoint) =
      (withSides b opposite own,[(.orderReply reply,endpoint)],some (.executeOrder b endpoint)) := rfl
  exact CriticalSection.Completes.next hreply (completes_executeOrder b endpoint (opposite,own))

/-- Without interruption the steps of a request are the request. -/
theorem locked_implements_handle :
    (@locked Endpoint).Implements MatchingEngine.handle := by
  intro engine call
  have hedit : locked.advance engine (.called call) =
      ((engine.editBook call).1,[],some (engine.editBook call).2) := rfl
  suffices h : locked.Completes (engine.editBook call).1 (engine.editBook call).2
      (handle engine call).1 (handle engine call).2 from CriticalSection.Completes.next hedit h
  cases call with
  | orderInsert o endpoint =>
    have hi := (engine.side o.isBuySide).insert_snd o
    rw [handle,orderInsert_eq engine rfl]
    simp only [editBook,hi]
    exact completes_accepted ⟨o.id,o.clientId⟩ endpoint _ _
  | orderAmend a endpoint =>
    cases ha : (engine.side a.isBuySide).amend a with
    | mk own amended =>
      rw [handle,orderAmend_of_result engine rfl ha]
      simp only [editBook,ha]
      cases amended with
      | true => exact completes_accepted ⟨a.id,a.clientId⟩ endpoint _ _
      | false => exact completes_reply _ _ endpoint
  | orderCancel k endpoint =>
    cases hc : (engine.side k.isBuySide).cancel k with
    | mk own cancelled =>
      rw [handle,orderCancel_of_result engine rfl hc]
      simp only [editBook,hc]
      cases cancelled with
      | true => exact completes_reply _ _ endpoint
      | false => exact completes_reply _ _ endpoint

/-- Requests of any number of threads in any interleaving: the engine and the stream of its
messages are those of the requests one after the other, in the order in which they took the
mutex. No thread's requests are reordered, and no request stays inside. -/
theorem locked_linearizable {Thread : Type*} [DecidableEq Thread]
    (program : Thread → List (Call Endpoint)) (schedule : List Thread) :
    let start : CriticalSection.Shared MatchingEngine (Call Endpoint) (Holding Endpoint) Thread :=
      ⟨fresh,program,none,[]⟩
    let s := Machine.final locked.step start schedule
    let calls := s.entered.map Prod.snd
    (∀ thread, (s.entered.filter (fun e => decide (e.1 = thread))).map Prod.snd ++
      s.program thread = program thread) ∧
    (s.inside = none → s.state = Machine.final handle fresh calls ∧
      (Machine.answers locked.step start schedule).flatten =
        (Machine.answers handle fresh calls).flatten) ∧
    ∀ thread holding, s.inside = some (thread,holding) →
      ∃ n, (Machine.final locked.step s (List.replicate n thread)).inside = none :=
  CriticalSection.linearizable locked_implements_handle fresh program schedule

end MatchingEngine
end Moboware
