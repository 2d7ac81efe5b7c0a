import Moboware.Library.Routing
import Moboware.OrderRequests.RequestAnswers

/-! # Instruments do not meet

The module keeps its engines in one map and gets the requests for all of them through one
channel. Every engine is after any run of received messages where the run of its own requests
takes it, and answers them as if the module served no other instrument.
-/
namespace Moboware
open Library OrderEventProcessor Throwing
variable {Endpoint : Type}

/-- The instrument of an order request and the call on its engine; asking for the book is none. -/
def HandlerCall.request : HandlerCall Endpoint → Option (String × Call Endpoint)
  | handleOrderInsert o endpoint => some (o.instrument,.orderInsert o endpoint)
  | handleOrderAmend a endpoint => some (a.instrument,.orderAmend a endpoint)
  | handleOrderCancel k endpoint => some (k.instrument,.orderCancel k endpoint)
  | getOrderBook _ _ => none

/-- The order request that a received message is taken for. -/
def WebSocketData.request (received : WebSocketData Endpoint) : Option (String × Call Endpoint) :=
  (emitted (process received.parser received.now received.endpoint)).head?.bind HandlerCall.request

namespace MatchingEngineModule

/-- The engine of an instrument. -/
def engine (m : MatchingEngineModule) (instrument : String) : Option MatchingEngine :=
  m.matchingEngines.find? instrument

theorem engine_route {m : MatchingEngineModule} {instrument : String} (call : Call Endpoint)
    (name : String) : (m.route instrument call).1.engine name =
      if name = instrument then
        (m.engine instrument).map (fun engine => (MatchingEngine.handle engine call).1)
      else m.engine name := by
  cases h : m.matchingEngines.find? instrument with
  | none =>
    rw [route_of_find?_none h]
    split_ifs with hn
    · simp only [engine,hn,h,Option.map_none]
    · rfl
  | some engine =>
    simp only [MatchingEngineModule.engine,route,h,OrderedMap.find?_modify]
    split_ifs with hn
    · rw [hn,h,Option.map_some,Option.map_some]
    · rfl

/-- An order goes to the engine of its instrument. -/
theorem routes_orderHandler : Routes orderHandler engine MatchingEngine.handle
    (@HandlerCall.request Endpoint) := by
  have hroute : ∀ (m : MatchingEngineModule) (call : HandlerCall Endpoint) instrument request,
      call.request = some (instrument,request) → orderHandler m call = m.route instrument request := by
    intro m call instrument request hrequest
    cases call <;> cases hrequest <;> rfl
  constructor
  · intro m call hrequest
    cases call with
    | getOrderBook instrument endpoint => exact ⟨rfl,rfl⟩
    | handleOrderInsert o endpoint => cases hrequest
    | handleOrderAmend a endpoint => cases hrequest
    | handleOrderCancel k endpoint => cases hrequest
  · intro m call instrument request hrequest name hname
    rw [hroute m call instrument request hrequest,engine_route,if_neg hname]
  · intro m call instrument request hrequest hnone
    rw [hroute m call instrument request hrequest,route_of_find?_none hnone]
    exact ⟨hnone,rfl⟩
  · intro m call instrument request c hrequest hsome
    rw [hroute m call instrument request hrequest,engine_route,if_pos rfl,hsome,
      route_of_find? hsome]
    exact ⟨rfl,rfl⟩

/-- A message is handled as the one call that comes out of it, or not at all. -/
theorem received_eq (m : MatchingEngineModule) (received : WebSocketData Endpoint) :
    onWebSocketDataReceived m received =
      ((emitted (process received.parser received.now received.endpoint)).head?.map
        (orderHandler m)).getD (m,[]) := by
  have hlength :
      (emitted (process received.parser received.now received.endpoint)).length ≤ 1 :=
    length_emitted_process
  unfold onWebSocketDataReceived
  rcases hcalls : emitted (process received.parser received.now received.endpoint) with
    _ | ⟨call,_ | ⟨c,calls⟩⟩
  · rfl
  · rfl
  · rw [hcalls] at hlength
    simp at hlength

theorem routes_received : Routes onWebSocketDataReceived engine MatchingEngine.handle
    (@WebSocketData.request Endpoint) := by
  have hcall : ∀ (received : WebSocketData Endpoint) r, received.request = some r →
      ∃ call : HandlerCall Endpoint, call.request = some r ∧
        ∀ m, onWebSocketDataReceived m received = orderHandler m call := by
    intro received r hr
    obtain ⟨call,hhead,hcall⟩ := Option.bind_eq_some_iff.mp hr
    refine ⟨call,hcall,fun m => ?_⟩
    rw [received_eq,hhead]
    rfl
  constructor
  · intro m received hnone
    rw [received_eq]
    cases hhead : (emitted (process received.parser received.now received.endpoint)).head? with
    | none => exact ⟨rfl,rfl⟩
    | some call =>
      have hrequest : call.request = none := by
        simpa [WebSocketData.request,hhead] using hnone
      exact routes_orderHandler.ignored m call hrequest
  · intro m received instrument request hr
    obtain ⟨call,hrequest,heq⟩ := hcall received _ hr
    rw [heq]
    exact routes_orderHandler.others m call instrument request hrequest
  · intro m received instrument request hr
    obtain ⟨call,hrequest,heq⟩ := hcall received _ hr
    rw [heq]
    exact routes_orderHandler.absent m call instrument request hrequest
  · intro m received instrument request c hr
    obtain ⟨call,hrequest,heq⟩ := hcall received _ hr
    rw [heq]
    exact routes_orderHandler.present m call instrument request c hrequest

section Loaded
variable {moduleValue : JsonValue} {start : MatchingEngineModule}

/-- Loading opens every engine with empty books. -/
theorem fresh_of_loadInstruments {elements : List JsonValue} {m : MatchingEngineModule}
    (h : start.loadInstruments elements = some m) {name : String} {c : MatchingEngine}
    (hstart : ∀ c', start.engine name = some c' → c' = .fresh) (hc : m.engine name = some c) :
    c = .fresh := by
  induction elements generalizing start with
  | nil =>
    cases h
    exact hstart c hc
  | cons value elements ih =>
    obtain ⟨instrument,_,hrest⟩ := Option.bind_eq_some_iff.mp h
    refine ih hrest (fun c' hc' => ?_)
    rw [engine,addInstrument,OrderedMap.find?_modify] at hc'
    split_ifs at hc' with hn
    · obtain ⟨_,_,rfl⟩ := Option.map_eq_some_iff.mp hc'
      rfl
    · rw [OrderedMap.find?_emplace,if_neg hn] at hc'
      exact hstart c' hc'

theorem engine_loadConfig (h : loadConfig moduleValue = some start) {name : String}
    (hname : Configured moduleValue name) : start.engine name = some .fresh := by
  obtain ⟨c,hc⟩ := Option.isSome_iff_exists.mp ((isSome_find?_loadConfig h name).mpr hname)
  obtain ⟨value,_,h⟩ := Option.bind_eq_some_iff.mp h
  obtain ⟨elements,_,h⟩ := Option.bind_eq_some_iff.mp h
  rw [engine,hc,fresh_of_loadInstruments h (fun c' hc' => nomatch hc') hc]

theorem engine_loadConfig_eq_none (h : loadConfig moduleValue = some start) {name : String}
    (hname : ¬ Configured moduleValue name) : start.engine name = none := by
  rw [← isSome_find?_loadConfig h,Bool.not_eq_true] at hname
  exact Option.isNone_iff_eq_none.mp (Option.isSome_eq_false_iff.mp hname)

/-- In a module loaded from a configuration, whatever messages come in: the engine of a
configured instrument and its answers are those of one engine that gets only the requests
for that instrument, in their order. Requests for other instruments find no engine, ever,
and are answered with nothing; and so is a message that is no order request. -/
theorem instruments_isolated (h : loadConfig moduleValue = some start)
    (messages : List (WebSocketData Endpoint)) (name : String) :
    let requests := messages.filterMap (requestTo WebSocketData.request name)
    let answers := Machine.answers onWebSocketDataReceived start messages
    (Configured moduleValue name →
      (Machine.final onWebSocketDataReceived start messages).engine name =
        some (Machine.final MatchingEngine.handle .fresh requests) ∧
      answersTo WebSocketData.request name messages answers =
        Machine.answers MatchingEngine.handle .fresh requests) ∧
    (¬ Configured moduleValue name →
      (Machine.final onWebSocketDataReceived start messages).engine name = none ∧
      ∀ out ∈ answersTo WebSocketData.request name messages answers, out = []) ∧
    ∀ p ∈ messages.zip answers, p.1.request = none → p.2 = [] := by
  intro requests answers
  refine ⟨fun hname => ?_,fun hname => ?_,?_⟩
  · have hfresh := engine_loadConfig h hname
    exact ⟨routes_received.component_final hfresh messages,
      routes_received.answersTo_run hfresh messages⟩
  · have hnone := engine_loadConfig_eq_none h hname
    exact ⟨routes_received.component_final_eq_none hnone messages,
      routes_received.answersTo_eq_nil hnone messages⟩
  · exact routes_received.unrequested_silent messages

/-- Of two orders one is for the configured instrument and reaches its engine. -/
theorem instruments_isolated_insert : ∃ start, loadConfig moduleConfig = some start ∧
    (Machine.final onWebSocketDataReceived start [insertRequest 100600000]).engine "ABCN" =
      some (Machine.final MatchingEngine.handle .fresh
        ([insertRequest 100600000].filterMap (requestTo WebSocketData.request "ABCN"))) ∧
    ([insertRequest 100600000].filterMap (requestTo WebSocketData.request "ABCN")).length = 1 := by
  refine ⟨_,rfl,((@instruments_isolated Unit moduleConfig _ rfl [insertRequest 100600000]
    "ABCN").1 ?_).1,by decide⟩
  exact ⟨_,rfl,"ABCN",List.mem_cons_self,rfl⟩

end Loaded
end MatchingEngineModule
end Moboware
