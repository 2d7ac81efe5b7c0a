import Moboware.MatchingEngine.Representation

/-! # Who is sent a trade

An order does not keep the endpoint it came from. Both trades of a match are sent to
the client whose call the engine is handling, so only the orders of that client have
their trades reported to their owner.
-/
namespace Moboware
open Library MatchingEngine
variable {Endpoint : Type*}

/-- The run inserted an order with the id for the endpoint. -/
def InsertedFrom (calls : List (Call Endpoint)) (id : Id) (endpoint : Endpoint) : Prop :=
  ∃ o, .orderInsert o endpoint ∈ calls ∧ o.id = id

/-- Orders are amended and cancelled only by the client that inserted them. -/
def OwnRequests (calls : List (Call Endpoint)) : Prop :=
  ∀ before call after, calls = before ++ call :: after →
    (∀ o endpoint, call ≠ .orderInsert o endpoint) →
    ∀ owner, InsertedFrom before call.id owner → owner = call.endpoint

/-- Only orders that were inserted rest, and only they are traded. -/
theorem handle_inserted {calls : List (Call Endpoint)} {engine : MatchingEngine}
    {call : Call Endpoint} (hcall : call ∈ calls)
    (h : ∀ b, (engine.side b).Forall (fun _ o => ∃ owner, InsertedFrom calls o.id owner)) :
    (∀ b, ((handle engine call).1.side b).Forall
      (fun _ o => ∃ owner, InsertedFrom calls o.id owner)) ∧
    ∀ trade endpoint, (.trade trade,endpoint) ∈ (handle engine call).2 →
      endpoint = call.endpoint ∧ ∃ owner, InsertedFrom calls trade.id owner := by
  have hbrings : Brings (fun _ _ o => ∃ owner, InsertedFrom calls o.id owner) call := by
    cases call with
    | orderInsert o endpoint => exact ⟨endpoint,o,hcall,rfl⟩
    | orderAmend a endpoint => exact fun _ ho _ => ⟨ho,ho⟩
    | orderCancel k endpoint => exact trivial
  obtain ⟨hnext,htrades⟩ := handle_forall (fun _ _ _ _ ho _ => ho) h hbrings
  refine ⟨hnext,fun trade endpoint hm => ?_⟩
  obtain ⟨hendpoint,b,price,o,v,ho,rfl⟩ := htrades trade endpoint hm
  exact ⟨hendpoint,ho⟩

theorem final_inserted {calls : List (Call Endpoint)} {earlier : List (Call Endpoint)}
    (h : ∀ call ∈ earlier, call ∈ calls) (b : Bool) :
    ((Machine.final handle fresh earlier).side b).Forall
      (fun _ o => ∃ owner, InsertedFrom calls o.id owner) := by
  refine Machine.final_invariant (I := fun engine : MatchingEngine => ∀ b, (engine.side b).Forall
    (fun _ o => ∃ owner, InsertedFrom calls o.id owner))
    (fun _ _ hs hc => (handle_inserted hc hs).1) ?_ (Machine.stepsMeet_of_forall h) b
  intro b
  cases b <;> exact fun e he => absurd he List.not_mem_nil

/-- Every trade goes to the client whose call is handled, whoever inserted the traded
order; the trades of the order that this call inserts or amends reach their owner. -/
theorem trades_reach_caller (earlier : List (Call Endpoint)) (call : Call Endpoint)
    (hown : OwnRequests (earlier ++ [call])) {trade : Trade} {endpoint : Endpoint}
    (hm : (.trade trade,endpoint) ∈ (handle (Machine.final handle fresh earlier) call).2) :
    endpoint = call.endpoint ∧
    (∃ owner, InsertedFrom (earlier ++ [call]) trade.id owner) ∧
    (trade.id = call.id → InsertedFrom (earlier ++ [call]) trade.id endpoint) := by
  have hcalls : ∀ c ∈ earlier, c ∈ earlier ++ [call] := fun _ hc => List.mem_append_left _ hc
  have hfinal := fun b => final_inserted hcalls b
  obtain ⟨hendpoint,owner,howner⟩ := (handle_inserted (by simp) hfinal).2 trade endpoint hm
  refine ⟨hendpoint,⟨owner,howner⟩,fun hid => ?_⟩
  subst hendpoint
  rw [hid] at howner ⊢
  obtain ⟨o,ho,hoid⟩ := howner
  rcases List.mem_append.mp ho with ho | ho
  · by_cases hinsert : ∃ o' e, call = .orderInsert o' e
    · obtain ⟨o',e,rfl⟩ := hinsert
      exact ⟨o',by simp [Call.endpoint],rfl⟩
    · have hne : ∀ o' e, call ≠ .orderInsert o' e := fun o' e he => hinsert ⟨o',e,he⟩
      have hsame := hown earlier call [] rfl hne owner ⟨o,ho,hoid⟩
      rw [← hsame]
      exact ⟨o,List.mem_append_left _ ho,hoid⟩
  · rw [List.mem_singleton] at ho
    subst ho
    exact ⟨o,by simp [Call.endpoint],rfl⟩

theorem ownRequests_of_inserts {calls : List (Call Endpoint)}
    (h : ∀ call ∈ calls, ∃ o endpoint, call = .orderInsert o endpoint) : OwnRequests calls := by
  rintro before call after rfl hne
  obtain ⟨o,endpoint,he⟩ := h call (by simp)
  exact absurd he (hne o endpoint)

/-- Client 1 rests a bid, and client 2 sells into it. -/
def soldInto : List (Call ℕ) := [.orderInsert (limitOrder true "1" 50 10) 1,
  .orderInsert (limitOrder false "2" 50 4) 2]

theorem trades_reach_caller_soldInto :
    (.trade ⟨"mobo",50,4,"2","clientId=1"⟩,2) ∈
      (handle (Machine.final handle fresh [.orderInsert (limitOrder true "1" 50 10) 1])
        (.orderInsert (limitOrder false "2" 50 4) 2)).2 ∧
    InsertedFrom soldInto "2" 2 := by
  have hm : (.trade ⟨"mobo",50,4,"2","clientId=1"⟩,2) ∈
      (handle (Machine.final handle fresh [.orderInsert (limitOrder true "1" 50 10) 1])
        (.orderInsert (limitOrder false "2" 50 4) 2)).2 := by decide
  exact ⟨hm,(trades_reach_caller _ _ (ownRequests_of_inserts (by simp)) hm).2.2 rfl⟩

/-- The trade of the resting bid goes to client 2 and not to client 1, who inserted it. -/
theorem soldInto_misdirected : OwnRequests soldInto ∧
    (∀ owner, InsertedFrom soldInto "1" owner → owner = 1) ∧
    ∃ messages ∈ Machine.trace handle fresh soldInto,
      (.trade ⟨"mobo",50,4,"1","clientId=1"⟩,2) ∈ messages.2 := by
  refine ⟨ownRequests_of_inserts (by simp [soldInto]),?_,_,List.mem_cons_of_mem _ List.mem_cons_self,
    by decide⟩
  rintro owner ⟨o,ho,hid⟩
  simp only [soldInto,List.mem_cons,Call.orderInsert.injEq,List.not_mem_nil,or_false] at ho
  rcases ho with ⟨_,h⟩ | ⟨rfl,_⟩
  · exact h
  · exact absurd hid (by decide)

end Moboware
