import Moboware.OrderRequests.OrderDecoding

/-! # The order event processor

`Process` turns one message of a client into at most one call of the order handler.
The JSON parser is a parameter: what `write` returned for the message and what
`release` returns or throws.
-/
namespace Moboware
open Library Throwing
variable {Endpoint : Type}

structure StreamParser where
  written : Nat
  release : Except Exception JsonValue

/-- The calls of `IOrderHandler`. -/
inductive HandlerCall (Endpoint : Type)
  | handleOrderInsert (orderInsert : OrderInsertData) (endpoint : Endpoint)
  | handleOrderAmend (orderAmend : OrderAmendData) (endpoint : Endpoint)
  | handleOrderCancel (orderCancel : OrderCancelData) (endpoint : Endpoint)
  | getOrderBook (instrument : String) (endpoint : Endpoint)

abbrev Handling (Endpoint : Type) : Type → Type := Throwing Exception (HandlerCall Endpoint)

namespace OrderEventProcessor

/-- A decoded order is handed over when it is valid, and dropped when it is not. -/
def forward {Order : Type} (decoded : Except Exception (Order × Bool))
    (call : Order → HandlerCall Endpoint) : Handling Endpoint Unit := do
  let r ← attempt decoded
  if r.2 then emit (call r.1)

def handleOrderInsert (data : JsonValue) (now : OrderTime) (endpoint : Endpoint) :
    Handling Endpoint Unit :=
  forward (OrderDataBase.setData data now) (fun o => .handleOrderInsert o endpoint)

def handleOrderCancel (data : JsonValue) (endpoint : Endpoint) : Handling Endpoint Unit :=
  forward (OrderCancelData.setData data) (fun k => .handleOrderCancel k endpoint)

def handleOrderAmend (data : JsonValue) (now : OrderTime) (endpoint : Endpoint) :
    Handling Endpoint Unit :=
  forward (OrderAmendData.setData data now) (fun a => .handleOrderAmend a endpoint)

def getOrderBook (data : JsonValue) (endpoint : Endpoint) : Handling Endpoint Unit := do
  let value ← attempt (data.valueAt Fields.instrument)
  let instrument ← attempt value.asString
  emit (.getOrderBook (cStr instrument) endpoint)

/-- The comparisons of the action, in order; any other action is ignored. -/
def dispatch (action : String) (data : JsonValue) (now : OrderTime) (endpoint : Endpoint) :
    Handling Endpoint Unit :=
  if action = Fields.insert then handleOrderInsert data now endpoint
  else if action = Fields.cancel then handleOrderCancel data endpoint
  else if action = Fields.amend then handleOrderAmend data now endpoint
  else if action = Fields.getBook then getOrderBook data endpoint
  else pure ()

def process (parser : StreamParser) (now : OrderTime) (endpoint : Endpoint) : Handling Endpoint Unit :=
  if parser.written = 0 then pure ()
  else do
    let rootDocument ← attempt parser.release
    let action ← attempt (rootDocument.valueAt Fields.action)
    let data ← attempt (rootDocument.valueAt Fields.data)
    let action ← attempt action.asString
    dispatch action data now endpoint

section Forward
variable {Order Members : Type} {decoded : Except Exception (Order × Bool)}
  {call : Order → HandlerCall Endpoint} {order : Members → Order} {validate : Order → Bool}

/-- A decoder that reads some members: its valid orders are handed over. -/
theorem mem_emitted_forward
    (h : ∀ r, decoded = .ok r ↔ ∃ m, r = (order m,validate (order m)))
    {out : HandlerCall Endpoint} : out ∈ emitted (forward decoded call) ↔
      ∃ m, validate (order m) = true ∧ out = call (order m) := by
  simp only [forward,mem_emitted_attempt_bind,h]
  constructor
  · rintro ⟨_,⟨m,rfl⟩,hm⟩
    by_cases hv : validate (order m) = true
    · rw [if_pos hv,emitted_emit,List.mem_singleton] at hm
      exact ⟨m,hv,hm⟩
    · rw [if_neg hv] at hm
      exact absurd hm List.not_mem_nil
  · rintro ⟨m,hv,rfl⟩
    refine ⟨_,⟨m,rfl⟩,?_⟩
    rw [if_pos hv]
    exact List.mem_singleton_self _

theorem thrown?_forward (h : ∀ r, decoded = .ok r ↔ ∃ m, r = (order m,validate (order m))) :
    thrown? (forward decoded call) = none ↔ Nonempty Members := by
  simp only [forward,thrown?_attempt_bind,h]
  constructor
  · rintro ⟨_,⟨m,_⟩,_⟩
    exact ⟨m⟩
  · rintro ⟨m⟩
    refine ⟨_,⟨m,rfl⟩,?_⟩
    split_ifs <;> rfl

theorem length_emitted_forward : (emitted (forward decoded call)).length ≤ 1 := by
  refine length_emitted_attempt_bind (fun r => ?_)
  split_ifs
  · exact Nat.le_refl 1
  · exact Nat.zero_le 1

end Forward

section Process
variable {parser : StreamParser} {now : OrderTime} {endpoint : Endpoint}

/-- The action is read as a value first and taken for a string behind the data. -/
theorem exists_action_iff {P : String → JsonValue → Prop} :
    (∃ root, parser.release = .ok root ∧ ∃ value, root.valueAt Fields.action = .ok value ∧
      ∃ data, root.valueAt Fields.data = .ok data ∧
        ∃ action, value = .string action ∧ P action data) ↔
    ∃ root, parser.release = .ok root ∧ ∃ action, root.valueAt Fields.action = .ok (.string action) ∧
      ∃ data, root.valueAt Fields.data = .ok data ∧ P action data := by
  constructor
  · rintro ⟨root,hr,_,ha,data,hd,action,rfl,hm⟩
    exact ⟨root,hr,action,ha,data,hd,hm⟩
  · rintro ⟨root,hr,action,ha,data,hd,hm⟩
    exact ⟨root,hr,_,ha,data,hd,action,rfl,hm⟩

theorem mem_emitted_process {out : HandlerCall Endpoint} :
    out ∈ emitted (process parser now endpoint) ↔ parser.written ≠ 0 ∧ ∃ root,
      parser.release = .ok root ∧ ∃ action, root.valueAt Fields.action = .ok (.string action) ∧
      ∃ data, root.valueAt Fields.data = .ok data ∧
        out ∈ emitted (dispatch action data now endpoint) := by
  unfold process
  split_ifs with hw
  · simp [hw]
  · simp only [mem_emitted_attempt_bind,JsonValue.asString_eq_ok_iff,ne_eq,hw,not_false_eq_true,
      true_and]
    exact exists_action_iff

/-- The handed-over call comes out of the branch of the request's action. -/
theorem mem_emitted_dispatch {root data : JsonValue} {action : String}
    {call : HandlerCall Endpoint} (hroot : parser.release = .ok root)
    (haction : root.valueAt Fields.action = .ok (.string action))
    (hdata : root.valueAt Fields.data = .ok data)
    (hcall : call ∈ emitted (process parser now endpoint)) :
    call ∈ emitted (dispatch action data now endpoint) := by
  obtain ⟨_,root',hroot',action',haction',data',hdata',hm⟩ := mem_emitted_process.mp hcall
  rw [hroot] at hroot'
  cases hroot'
  rw [haction] at haction'
  rw [hdata] at hdata'
  cases haction'
  cases hdata'
  exact hm

theorem thrown?_process : thrown? (process parser now endpoint) = none ↔ parser.written = 0 ∨
    ∃ root, parser.release = .ok root ∧ ∃ action,
      root.valueAt Fields.action = .ok (.string action) ∧
      ∃ data, root.valueAt Fields.data = .ok data ∧
        thrown? (dispatch action data now endpoint) = none := by
  unfold process
  split_ifs with hw
  · simp [hw]
  · simp only [thrown?_attempt_bind,JsonValue.asString_eq_ok_iff,hw,false_or]
    exact exists_action_iff

theorem length_emitted_dispatch (action : String) (data : JsonValue) :
    (emitted (dispatch action data now endpoint)).length ≤ 1 := by
  unfold dispatch
  split_ifs
  · exact length_emitted_forward
  · exact length_emitted_forward
  · exact length_emitted_forward
  · exact length_emitted_attempt_bind (fun _ => length_emitted_attempt_bind (fun _ => Nat.le_refl 1))
  · exact Nat.zero_le 1

theorem length_emitted_process : (emitted (process parser now endpoint)).length ≤ 1 := by
  unfold process
  split_ifs
  · exact Nat.zero_le 1
  · exact length_emitted_attempt_bind (fun _ => length_emitted_attempt_bind (fun _ =>
      length_emitted_attempt_bind (fun data => length_emitted_attempt_bind (fun action =>
        length_emitted_dispatch action data))))

end Process

section Dispatch
variable {data : JsonValue} {now : OrderTime} {endpoint : Endpoint} {out : HandlerCall Endpoint}

theorem mem_emitted_insert : out ∈ emitted (dispatch Fields.insert data now endpoint) ↔
    ∃ m : InsertMembers data, (m.order now).validate = true ∧
      out = .handleOrderInsert (m.order now) endpoint := by
  rw [dispatch,if_pos rfl]
  exact mem_emitted_forward (fun _ => insertSetData_eq_ok_iff)

theorem mem_emitted_cancel : out ∈ emitted (dispatch Fields.cancel data now endpoint) ↔
    ∃ m : CancelMembers data, m.order.validate = true ∧
      out = .handleOrderCancel m.order endpoint := by
  rw [dispatch,if_neg (by decide),if_pos rfl]
  exact mem_emitted_forward (fun _ => cancelSetData_eq_ok_iff)

theorem mem_emitted_amend : out ∈ emitted (dispatch Fields.amend data now endpoint) ↔
    ∃ m : AmendMembers data, (m.order now).validate = true ∧
      out = .handleOrderAmend (m.order now) endpoint := by
  rw [dispatch,if_neg (by decide),if_neg (by decide),if_pos rfl]
  exact mem_emitted_forward (fun _ => amendSetData_eq_ok_iff)

theorem mem_emitted_getBook : out ∈ emitted (dispatch Fields.getBook data now endpoint) ↔
    ∃ m : BookMembers data, out = .getOrderBook (cStr m.instrument) endpoint := by
  rw [dispatch,if_neg (by decide),if_neg (by decide),if_neg (by decide),if_pos rfl,getOrderBook]
  simp only [mem_emitted_attempt_bind,JsonValue.asString_eq_ok_iff,emitted_emit,List.mem_singleton]
  constructor
  · rintro ⟨_,hd,instrument,rfl,rfl⟩
    exact ⟨⟨instrument,hd⟩,rfl⟩
  · rintro ⟨m,rfl⟩
    exact ⟨_,m.instrument_eq,_,rfl,rfl⟩

theorem dispatch_of_unknown {action : String} (hinsert : action ≠ Fields.insert)
    (hcancel : action ≠ Fields.cancel) (hamend : action ≠ Fields.amend)
    (hbook : action ≠ Fields.getBook) : dispatch action data now endpoint = pure () := by
  rw [dispatch,if_neg hinsert,if_neg hcancel,if_neg hamend,if_neg hbook]

end Dispatch
end OrderEventProcessor
end Moboware
