import Moboware.MatchingEngine.RequestProtocol
import Moboware.OrderRequests.MatchingEngineModule
import Moboware.OrderRequests.RequestContainment
import Moboware.OrderRequests.RequestFidelity

/-! # Which requests are answered

The engine answers everything it is handed. The two layers before it drop what they
do not accept: the event processor an order that fails its validation, the module an
order for an instrument it does not know.
-/
namespace Moboware
open Library Throwing OrderEventProcessor MatchingEngineModule
variable {Endpoint : Type}

/-- Trades are not answers. -/
def Message.isAnswer : Message → Bool
  | trade _ => false
  | _ => true

/-- Exactly one `OrderReply` or `ErrorReply`, and it goes to the endpoint. -/
def AnsweredOnce (endpoint : Endpoint) (messages : List (Message × Endpoint)) : Prop :=
  ∃ answer, messages.filter (fun m => m.1.isAnswer) = [(answer,endpoint)]

namespace JsonValue

def NonzeroAt (data : JsonValue) (key : String) : Prop :=
  ∀ i, data.valueAt key = .ok (.int64 i) → i ≠ 0

/-- The text has a character before the first NUL. -/
def NonemptyAt (data : JsonValue) (key : String) : Prop :=
  ∀ s, data.valueAt key = .ok (.string s) → cStr s ≠ ""

theorem nonzeroAt_iff_of_int64 {data : JsonValue} {key : String} {i : Int64}
    (h : data.valueAt key = .ok (.int64 i)) : data.NonzeroAt key ↔ 0 < i.toUInt64 := by
  have hzero : i.toUInt64 = 0 ↔ i = 0 :=
    ⟨fun h => congrArg Int64.ofUInt64 h,fun h => congrArg Int64.toUInt64 h⟩
  rw [UInt64.pos_iff_ne_zero,Ne,hzero]
  simp [NonzeroAt,h]

theorem nonemptyAt_iff_of_string {data : JsonValue} {key : String} {s : String}
    (h : data.valueAt key = .ok (.string s)) : data.NonemptyAt key ↔ cStr s ≠ "" := by
  simp [NonemptyAt,h]

end JsonValue

/-- The texts that the validation of an order asks for. -/
def textKeys (action : String) : List String :=
  if action = Fields.cancel then [Fields.instrument,Fields.id,Fields.clientId]
  else [Fields.clientId,Fields.account,Fields.instrument]

/-- The order passes its validation and its instrument is configured. -/
@[mk_iff] structure Acceptable (moduleValue data : JsonValue) (action : String) (now : OrderTime) : Prop where
  amounts : ∀ key ∈ amountKeys action, data.NonzeroAt key
  texts : ∀ key ∈ textKeys action, data.NonemptyAt key
  timed : action ≠ Fields.cancel → 0 < now
  configured : ∀ s, data.valueAt Fields.instrument = .ok (.string s) →
    Configured moduleValue (cStr s)

section Validation
variable {data : JsonValue} {now : OrderTime}

theorem toIdString_ne_empty (now : OrderTime) : toIdString now ≠ "" := by
  rw [toIdString,Int.toString_eq_repr]
  cases h : now.toInt with
  | ofNat n => exact Nat.repr_ne_empty
  | negSucc n => simp [Int.repr]

theorem insert_validate_iff (m : InsertMembers data) : (m.order now).validate = true ↔
    (∀ key ∈ amountKeys Fields.insert, data.NonzeroAt key) ∧
    (∀ key ∈ textKeys Fields.insert, data.NonemptyAt key) ∧ 0 < now := by
  have hid := toIdString_ne_empty now
  rw [amountKeys,if_pos rfl,textKeys,if_neg (by decide)]
  simp only [OrderDataBase.validate,InsertMembers.order,Bool.and_eq_true,
    List.forall_mem_cons,List.not_mem_nil,JsonValue.nonzeroAt_iff_of_int64 m.price_eq,
    JsonValue.nonzeroAt_iff_of_int64 m.volume_eq,JsonValue.nonemptyAt_iff_of_string m.clientId_eq,
    JsonValue.nonemptyAt_iff_of_string m.account_eq,
    JsonValue.nonemptyAt_iff_of_string m.instrument_eq]
  cases m.isBuy <;> simp [hid,and_assoc,and_comm,and_left_comm]

theorem amend_validate_iff (m : AmendMembers data) : (m.order now).validate = true ↔
    (∀ key ∈ amountKeys Fields.amend, data.NonzeroAt key) ∧
    (∀ key ∈ textKeys Fields.amend, data.NonemptyAt key) ∧ 0 < now := by
  have hbase := @insert_validate_iff _ now m.toInsertMembers
  rw [amountKeys,if_pos rfl,textKeys,if_neg (by decide)] at hbase
  rw [amountKeys,if_neg (by decide),if_pos rfl,textKeys,if_neg (by decide)]
  simp only [List.forall_mem_cons] at hbase ⊢
  have hprices : (m.order now).validate = true ↔ (m.toInsertMembers.order now).validate = true ∧
      0 < m.newPrice.toUInt64 ∧ 0 < m.newVolume.toUInt64 := by
    simp only [OrderAmendData.validate,AmendMembers.order,Bool.and_eq_true,decide_eq_true_eq,
      gt_iff_lt,and_assoc]
  rw [hprices,hbase,← JsonValue.nonzeroAt_iff_of_int64 m.newPrice_eq,
    ← JsonValue.nonzeroAt_iff_of_int64 m.newVolume_eq]
  tauto

theorem cancel_validate_iff (m : CancelMembers data) : m.order.validate = true ↔
    (∀ key ∈ amountKeys Fields.cancel, data.NonzeroAt key) ∧
    ∀ key ∈ textKeys Fields.cancel, data.NonemptyAt key := by
  rw [amountKeys,if_neg (by decide),if_neg (by decide),if_pos rfl,textKeys,if_pos rfl]
  simp only [OrderCancelData.validate,CancelMembers.order,Bool.and_eq_true,
    List.forall_mem_cons,List.not_mem_nil,JsonValue.nonzeroAt_iff_of_int64 m.price_eq,
    JsonValue.nonemptyAt_iff_of_string m.clientId_eq,JsonValue.nonemptyAt_iff_of_string m.id_eq,
    JsonValue.nonemptyAt_iff_of_string m.instrument_eq]
  cases m.isBuy <;> simp [and_assoc,and_comm,and_left_comm]

end Validation

section Answers
variable {m : MatchingEngineModule} {instrument : String}

theorem not_answeredOnce_nil (endpoint : Endpoint) : ¬ AnsweredOnce endpoint [] := by
  rintro ⟨answer,h⟩
  cases h

/-- An engine answers once whatever its books hold. -/
theorem answeredOnce_handle (engine : MatchingEngine) (call : Call Endpoint) :
    AnsweredOnce call.endpoint (MatchingEngine.handle engine call).2 := by
  rcases call.handle_cases engine with ⟨_,trades,_,hr⟩ | ⟨_,⟨errorMessage,hr⟩,_⟩
  · refine ⟨.orderReply ⟨call.id,call.clientId⟩,?_⟩
    rw [hr,MatchingEngine.replyAndTrades,List.filter_cons_of_pos rfl,List.filter_eq_nil_iff.mpr]
    intro message hm
    obtain ⟨trade,_,rfl⟩ := List.mem_map.mp hm
    exact Bool.false_ne_true
  · exact ⟨.errorReply ⟨call.clientId,errorMessage⟩,by rw [hr]; rfl⟩

theorem answeredOnce_route_iff (call : Call Endpoint) :
    AnsweredOnce call.endpoint (m.route instrument call).2 ↔
      (m.matchingEngines.find? instrument).isSome := by
  cases h : m.matchingEngines.find? instrument with
  | none =>
    rw [route_of_find?_none h]
    exact iff_of_false (not_answeredOnce_nil call.endpoint) Bool.false_ne_true
  | some engine =>
    rw [route_of_find? h]
    exact iff_of_true (answeredOnce_handle engine call) rfl

theorem emitted_forward {Order : Type} {decoded : Except Exception (Order × Bool)}
    {handlerCall : Order → HandlerCall Endpoint} {order : Order} {valid : Bool}
    (h : decoded = .ok (order,valid)) :
    emitted (forward decoded handlerCall) = if valid then [handlerCall order] else [] := by
  rw [forward,h]
  cases valid <;> rfl

/-- The three layers of a decoded request: validation, routing, engine. -/
theorem answeredOnce_received_iff {received : WebSocketData Endpoint} {Order : Type}
    {decoded : Except Exception (Order × Bool)} {handlerCall : Order → HandlerCall Endpoint}
    {order : Order} {valid : Bool} (hd : decoded = .ok (order,valid))
    (he : emitted (process received.parser received.now received.endpoint) =
      emitted (forward decoded handlerCall)) (call : Call Endpoint)
    (hroute : orderHandler m (handlerCall order) = m.route instrument call)
    (hendpoint : call.endpoint = received.endpoint) :
    AnsweredOnce received.endpoint (onWebSocketDataReceived m received).2 ↔
      valid = true ∧ (m.matchingEngines.find? instrument).isSome := by
  rw [emitted_forward hd] at he
  cases valid with
  | false =>
    rw [received_of_emitted_nil he]
    exact iff_of_false (not_answeredOnce_nil received.endpoint) (fun h => Bool.false_ne_true h.1)
  | true =>
    rw [received_of_emitted he,hroute,← hendpoint,answeredOnce_route_iff]
    exact (and_iff_right rfl).symm

theorem emitted_process {parser : StreamParser} {now : OrderTime} {endpoint : Endpoint}
    {root data : JsonValue} {action : String} (hwritten : parser.written ≠ 0)
    (hroot : parser.release = .ok root)
    (haction : root.valueAt Fields.action = .ok (.string action))
    (hdata : root.valueAt Fields.data = .ok data) :
    emitted (process parser now endpoint) = emitted (dispatch action data now endpoint) := by
  rw [process,if_neg hwritten,hroot]
  change emitted (attempt (root.valueAt Fields.action) >>= _) = _
  rw [haction]
  change emitted (attempt (root.valueAt Fields.data) >>= _) = _
  rw [hdata]
  rfl

end Answers

/-- A request with all members its action reads is answered exactly when the order
passes its validation and its instrument is one of the configuration. -/
theorem answeredOnce_iff_acceptable {moduleValue : JsonValue} {start : MatchingEngineModule}
    (hload : loadConfig moduleValue = some start) (earlier : List (WebSocketData Endpoint))
    {received : WebSocketData Endpoint} {root data : JsonValue} {action : String}
    (hwritten : received.parser.written ≠ 0) (hroot : received.parser.release = .ok root)
    (haction : root.valueAt Fields.action = .ok (.string action))
    (hdata : root.valueAt Fields.data = .ok data)
    (hknown : action ∈ [Fields.insert,Fields.amend,Fields.cancel])
    (hmembers : data.HasMembers action) :
    AnsweredOnce received.endpoint (onWebSocketDataReceived
      (Machine.final onWebSocketDataReceived start earlier) received).2 ↔
      Acceptable moduleValue data action received.now := by
  have he : emitted (process received.parser received.now received.endpoint) =
      emitted (dispatch action data received.now received.endpoint) :=
    emitted_process hwritten hroot haction hdata
  have hfind := isSome_find?_final hload earlier
  have hconfigured : ∀ {s}, data.valueAt Fields.instrument = .ok (.string s) →
      ((∀ s, data.valueAt Fields.instrument = .ok (.string s) → Configured moduleValue (cStr s)) ↔
        Configured moduleValue (cStr s)) := by
    intro s hs
    simp [hs]
  simp only [List.mem_cons,List.not_mem_nil,or_false] at hknown
  rw [acceptable_iff]
  rcases hknown with rfl | rfl | rfl
  · obtain ⟨members⟩ := hmembers.1 rfl
    rw [dispatch,if_pos rfl] at he
    rw [answeredOnce_received_iff (insertSetData_eq_ok_iff.mpr ⟨members,rfl⟩) he
      (.orderInsert (members.order received.now) received.endpoint) rfl rfl,
      insert_validate_iff,hfind,hconfigured members.instrument_eq]
    have hne : Fields.insert ≠ Fields.cancel := by decide
    simp only [hne,ne_eq,not_false_eq_true,true_imp_iff,and_assoc]
    rfl
  · obtain ⟨members⟩ := hmembers.2.2.1 rfl
    rw [dispatch,if_neg (by decide),if_neg (by decide),if_pos rfl] at he
    rw [answeredOnce_received_iff (amendSetData_eq_ok_iff.mpr ⟨members,rfl⟩) he
      (.orderAmend (members.order received.now) received.endpoint) rfl rfl,
      amend_validate_iff,hfind,hconfigured members.instrument_eq]
    have hne : Fields.amend ≠ Fields.cancel := by decide
    simp only [hne,ne_eq,not_false_eq_true,true_imp_iff,and_assoc]
    rfl
  · obtain ⟨members⟩ := hmembers.2.1 rfl
    rw [dispatch,if_neg (by decide),if_pos rfl] at he
    rw [answeredOnce_received_iff (cancelSetData_eq_ok_iff.mpr ⟨members,rfl⟩) he
      (.orderCancel members.order received.endpoint) rfl rfl,
      cancel_validate_iff,hfind,hconfigured members.instrument_eq]
    simp only [ne_eq,not_true_eq_false,false_imp_iff,true_and,and_assoc]
    rfl

def moduleConfig : JsonValue := .object [("Instruments",.array [.string "ABCN"])]

def insertRequest (price : Int64) : WebSocketData Unit :=
  ⟨⟨151,.ok (.object [("Action",.string "Insert"),("Data",insertData price)])⟩,
    1700000000000000000,()⟩

/-- The second of two orders for the configured instrument. -/
theorem answeredOnce_iff_acceptable_insert :
    ∃ start, loadConfig moduleConfig = some start ∧ AnsweredOnce () (onWebSocketDataReceived
      (Machine.final onWebSocketDataReceived start [insertRequest 100600000])
      (insertRequest 100500000)).2 := by
  refine ⟨_,rfl,(@answeredOnce_iff_acceptable Unit moduleConfig _ rfl _ (insertRequest 100500000)
    _ _ _ (by decide) rfl rfl rfl (by decide)
    ⟨fun _ => ⟨⟨_,_,_,_,_,_,_,rfl,rfl,rfl,rfl,rfl,rfl,rfl⟩⟩,nofun,nofun,nofun⟩).mpr ⟨?_,?_,?_,?_⟩⟩
  · change ∀ key ∈ [Fields.price,Fields.volume], (insertData 100500000).NonzeroAt key
    simp only [List.forall_mem_cons]
    exact ⟨(JsonValue.nonzeroAt_iff_of_int64 rfl).mpr (by decide),
      (JsonValue.nonzeroAt_iff_of_int64 rfl).mpr (by decide),nofun⟩
  · change ∀ key ∈ [Fields.clientId,Fields.account,Fields.instrument],
      (insertData 100500000).NonemptyAt key
    simp only [List.forall_mem_cons]
    exact ⟨(JsonValue.nonemptyAt_iff_of_string rfl).mpr (by decide),
      (JsonValue.nonemptyAt_iff_of_string rfl).mpr (by decide),
      (JsonValue.nonemptyAt_iff_of_string rfl).mpr (by decide),nofun⟩
  · exact fun _ => by decide
  · intro s hs
    cases hs
    exact ⟨_,rfl,"ABCN",List.mem_cons_self,rfl⟩

/-- A zero price fails the validation, and an instrument without an engine is not routed:
neither request gets an answer. -/
theorem dropped_unanswered :
    (∃ start, loadConfig moduleConfig = some start ∧
      ¬ AnsweredOnce () (onWebSocketDataReceived start (insertRequest 0)).2) ∧
    ∃ start, loadConfig (.object [("Instruments",.array [])]) = some start ∧
      ¬ AnsweredOnce () (onWebSocketDataReceived start (insertRequest 100500000)).2 :=
  ⟨⟨_,rfl,not_answeredOnce_nil ()⟩,⟨_,rfl,not_answeredOnce_nil ()⟩⟩

end Moboware
