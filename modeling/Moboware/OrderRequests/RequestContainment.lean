import Moboware.OrderRequests.OrderEventProcessor

/-! # Malformed requests

`Process` reads members with accessors that throw and catches nothing. The requests
that it contains are those whose members it can all read.
-/
namespace Moboware
open Library Throwing OrderEventProcessor
variable {Endpoint : Type}

namespace JsonValue

/-- The members that an action reads are there, with the right kinds. -/
def HasMembers (data : JsonValue) (action : String) : Prop :=
  (action = Fields.insert → Nonempty (InsertMembers data)) ∧
  (action = Fields.cancel → Nonempty (CancelMembers data)) ∧
  (action = Fields.amend → Nonempty (AmendMembers data)) ∧
  (action = Fields.getBook → Nonempty (BookMembers data))

/-- An object with an action and data that has the members of the action; an action
that is not known reads none. -/
def Readable (root : JsonValue) : Prop :=
  ∃ action, root.valueAt Fields.action = .ok (.string action) ∧
    ∃ data, root.valueAt Fields.data = .ok data ∧ data.HasMembers action

/-- A readable request with a known action. -/
def WellFormed (root : JsonValue) : Prop :=
  ∃ action, root.valueAt Fields.action = .ok (.string action) ∧
    action ∈ [Fields.insert,Fields.cancel,Fields.amend,Fields.getBook] ∧
    ∃ data, root.valueAt Fields.data = .ok data ∧ data.HasMembers action

end JsonValue

/-- No exception leaves `Process`, at most one handler method is called, and none unless the
document is a well-formed request. -/
structure Contained (parser : StreamParser) (now : OrderTime) (endpoint : Endpoint) : Prop where
  returns : thrown? (process parser now endpoint) = none
  atMostOne : (emitted (process parser now endpoint)).length ≤ 1
  wellFormed : emitted (process parser now endpoint) ≠ [] →
    ∃ root, parser.release = .ok root ∧ root.WellFormed

section Dispatch
variable {data : JsonValue} {now : OrderTime} {endpoint : Endpoint} {action : String}

theorem thrown?_dispatch :
    thrown? (dispatch action data now endpoint) = none ↔ data.HasMembers action := by
  unfold JsonValue.HasMembers
  by_cases hinsert : action = Fields.insert
  · subst hinsert
    rw [dispatch,if_pos rfl,handleOrderInsert,thrown?_forward (fun _ => insertSetData_eq_ok_iff)]
    simp [Fields.insert,Fields.cancel,Fields.amend,Fields.getBook]
  by_cases hcancel : action = Fields.cancel
  · subst hcancel
    rw [dispatch,if_neg hinsert,if_pos rfl,handleOrderCancel,
      thrown?_forward (fun _ => cancelSetData_eq_ok_iff)]
    simp [Fields.insert,Fields.cancel,Fields.amend,Fields.getBook]
  by_cases hamend : action = Fields.amend
  · subst hamend
    rw [dispatch,if_neg hinsert,if_neg hcancel,if_pos rfl,handleOrderAmend,
      thrown?_forward (fun _ => amendSetData_eq_ok_iff)]
    simp [Fields.insert,Fields.cancel,Fields.amend,Fields.getBook]
  by_cases hbook : action = Fields.getBook
  · subst hbook
    rw [dispatch,if_neg hinsert,if_neg hcancel,if_neg hamend,if_pos rfl]
    have hread : thrown? (getOrderBook data endpoint) = none ↔ Nonempty (BookMembers data) := by
      simp only [getOrderBook,thrown?_attempt_bind,JsonValue.asString_eq_ok_iff,thrown?_emit]
      constructor
      · rintro ⟨_,hd,instrument,rfl,_⟩
        exact ⟨instrument,hd⟩
      · rintro ⟨m⟩
        exact ⟨_,m.instrument_eq,_,rfl,trivial⟩
    rw [hread]
    simp [Fields.insert,Fields.cancel,Fields.amend,Fields.getBook]
  rw [dispatch_of_unknown hinsert hcancel hamend hbook]
  exact iff_of_true rfl ⟨fun h => absurd h hinsert,fun h => absurd h hcancel,
    fun h => absurd h hamend,fun h => absurd h hbook⟩

theorem known_of_mem_dispatch {out : HandlerCall Endpoint}
    (h : out ∈ emitted (dispatch action data now endpoint)) :
    action ∈ [Fields.insert,Fields.cancel,Fields.amend,Fields.getBook] := by
  by_contra hno
  simp only [List.mem_cons,List.not_mem_nil,or_false,not_or] at hno
  rw [dispatch_of_unknown hno.1 hno.2.1 hno.2.2.1 hno.2.2.2] at h
  exact absurd h List.not_mem_nil

end Dispatch

/-- A message is contained exactly when the parser takes nothing of it or its document
has the members that `Process` reads. -/
theorem contained_iff_readable (parser : StreamParser) (now : OrderTime) (endpoint : Endpoint) :
    Contained parser now endpoint ↔
      parser.written = 0 ∨ ∃ root, parser.release = .ok root ∧ root.Readable := by
  have hreturns : thrown? (process parser now endpoint) = none ↔
      parser.written = 0 ∨ ∃ root, parser.release = .ok root ∧ root.Readable := by
    simp only [thrown?_process,thrown?_dispatch,JsonValue.Readable]
  refine ⟨fun h => hreturns.mp h.returns,fun h => ⟨hreturns.mpr h,length_emitted_process,?_⟩⟩
  intro hne
  obtain ⟨out,hout⟩ := List.exists_mem_of_ne_nil _ hne
  rcases h with h | ⟨root,hroot,action,haction,data,hdata,hmembers⟩
  · exact absurd h (mem_emitted_process.mp hout).1
  · have hm := mem_emitted_dispatch hroot haction hdata hout
    exact ⟨root,hroot,action,haction,known_of_mem_dispatch hm,data,hdata,hmembers⟩

/-- The empty object takes down the thread that reads it. -/
theorem emptyObject_throws :
    thrown? (process ⟨2,.ok (.object [])⟩ 1700000000000000000 () : Handling Unit Unit) =
      some (.outOfRange "Action") ∧
    ¬ Contained ⟨2,.ok (.object [])⟩ 1700000000000000000 () := by
  refine ⟨rfl,fun h => ?_⟩
  cases h.returns

end Moboware
