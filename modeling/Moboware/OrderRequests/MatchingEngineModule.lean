import Mathlib.Data.String.Basic
import Moboware.Library.OrderedMap
import Moboware.MatchingEngine.Engine
import Moboware.OrderRequests.OrderEventProcessor

/-! # The matching engine module

One engine per configured instrument. A message of a client goes through the order
event processor to the engine of its instrument; a request for any other instrument
is logged and dropped.
-/
namespace Moboware
open Library Throwing OrderEventProcessor
variable {Endpoint : Type}

/-- `as_array`; `none` when it throws. -/
def JsonValue.asArray : JsonValue → Option (List JsonValue)
  | array elements => some elements
  | _ => none

theorem JsonValue.asArray_eq_some_iff {value : JsonValue} {elements : List JsonValue} :
    value.asArray = some elements ↔ value = array elements := by cases value <;> simp [asArray]

/-- One message of the web socket, with the clock reading at which it is decoded. -/
structure WebSocketData (Endpoint : Type) where
  parser : StreamParser
  now : OrderTime
  endpoint : Endpoint

structure MatchingEngineModule where
  matchingEngines : OrderedMap String MatchingEngine (· < ·)

namespace MatchingEngineModule

def empty : MatchingEngineModule := ⟨OrderedMap.empty⟩

/-- `m_MatchingEngines[instrument] = make_shared<MatchingEngine>()`. -/
def addInstrument (m : MatchingEngineModule) (instrument : String) : MatchingEngineModule :=
  ⟨(m.matchingEngines.emplace instrument .fresh).1.modify instrument (fun _ => .fresh)⟩

def loadInstruments (m : MatchingEngineModule) : List JsonValue → Option MatchingEngineModule
  | [] => some m
  | instrumentValue :: rest => do
    let instrument ← instrumentValue.asString.toOption
    (m.addInstrument (cStr instrument)).loadInstruments rest

/-- `LoadConfig`; `none` when an accessor throws. -/
def loadConfig (moduleValue : JsonValue) : Option MatchingEngineModule := do
  let instruments ← (moduleValue.valueAt "Instruments").toOption
  empty.loadInstruments (← instruments.asArray)

/-- The lookup all three order handlers begin with. -/
def route (m : MatchingEngineModule) (instrument : String) (call : Call Endpoint) :
    MatchingEngineModule × List (Message × Endpoint) :=
  match m.matchingEngines.find? instrument with
  | none => (m,[])
  | some engine =>
    let (engine,messages) := MatchingEngine.handle engine call
    (⟨m.matchingEngines.modify instrument (fun _ => engine)⟩,messages)

def handleOrderInsert (m : MatchingEngineModule) (orderInsert : OrderInsertData)
    (endpoint : Endpoint) : MatchingEngineModule × List (Message × Endpoint) :=
  m.route orderInsert.instrument (.orderInsert orderInsert endpoint)

def handleOrderAmend (m : MatchingEngineModule) (orderAmend : OrderAmendData)
    (endpoint : Endpoint) : MatchingEngineModule × List (Message × Endpoint) :=
  m.route orderAmend.instrument (.orderAmend orderAmend endpoint)

def handleOrderCancel (m : MatchingEngineModule) (orderCancel : OrderCancelData)
    (endpoint : Endpoint) : MatchingEngineModule × List (Message × Endpoint) :=
  m.route orderCancel.instrument (.orderCancel orderCancel endpoint)

/-- The books are only logged. -/
def getOrderBook (m : MatchingEngineModule) (_instrument : String) (_endpoint : Endpoint) :
    MatchingEngineModule × List (Message × Endpoint) := (m,[])

/-- The module as the processor's `IOrderHandler`. -/
def orderHandler : Machine MatchingEngineModule (HandlerCall Endpoint) (Message × Endpoint)
  | m, .handleOrderInsert orderInsert endpoint => m.handleOrderInsert orderInsert endpoint
  | m, .handleOrderAmend orderAmend endpoint => m.handleOrderAmend orderAmend endpoint
  | m, .handleOrderCancel orderCancel endpoint => m.handleOrderCancel orderCancel endpoint
  | m, .getOrderBook instrument endpoint => m.getOrderBook instrument endpoint

/-- The handler calls of one message, made before an exception leaves `Process`, if one does. -/
def onWebSocketDataReceived : Machine MatchingEngineModule (WebSocketData Endpoint) (Message × Endpoint) :=
  fun m received =>
    (emitted (process received.parser received.now received.endpoint)).foldl
      (fun r call => ((orderHandler r.1 call).1,r.2 ++ (orderHandler r.1 call).2)) (m,[])

section Routing
variable {m : MatchingEngineModule} {instrument : String}

theorem route_of_find? {engine : MatchingEngine} {call : Call Endpoint}
    (h : m.matchingEngines.find? instrument = some engine) :
    (m.route instrument call).2 = (MatchingEngine.handle engine call).2 := by
  simp only [route,h]

theorem route_of_find?_none {call : Call Endpoint}
    (h : m.matchingEngines.find? instrument = none) :
    m.route instrument call = (m,[]) := by
  simp only [route,h]

/-- Handling an order neither adds nor removes an instrument. -/
theorem isSome_find?_route (call : Call Endpoint) (name : String) :
    ((m.route instrument call).1.matchingEngines.find? name).isSome =
      (m.matchingEngines.find? name).isSome := by
  cases h : m.matchingEngines.find? instrument with
  | none => rw [route_of_find?_none h]
  | some engine =>
    simp only [route,h,OrderedMap.find?_modify]
    split_ifs <;> simp

theorem isSome_find?_orderHandler (call : HandlerCall Endpoint) (name : String) :
    ((orderHandler m call).1.matchingEngines.find? name).isSome =
      (m.matchingEngines.find? name).isSome := by
  cases call with
  | handleOrderInsert o endpoint => exact isSome_find?_route _ name
  | handleOrderAmend a endpoint => exact isSome_find?_route _ name
  | handleOrderCancel k endpoint => exact isSome_find?_route _ name
  | getOrderBook instrument endpoint => rfl

theorem isSome_find?_received (received : WebSocketData Endpoint) (name : String) :
    ((onWebSocketDataReceived m received).1.matchingEngines.find? name).isSome =
      (m.matchingEngines.find? name).isSome := by
  have hfold : ∀ (calls : List (HandlerCall Endpoint)) (r : MatchingEngineModule × List (Message × Endpoint)),
      ((calls.foldl (fun r call => ((orderHandler r.1 call).1,r.2 ++ (orderHandler r.1 call).2))
        r).1.matchingEngines.find? name).isSome = (r.1.matchingEngines.find? name).isSome := by
    intro calls
    induction calls with
    | nil => exact fun _ => rfl
    | cons call calls ih =>
      intro r
      rw [List.foldl_cons,ih]
      exact isSome_find?_orderHandler call name
  exact hfold _ (m,[])

/-- The messages of a received message that makes one handler call. -/
theorem received_of_emitted {received : WebSocketData Endpoint} {call : HandlerCall Endpoint}
    (h : emitted (process received.parser received.now received.endpoint) = [call]) :
    (onWebSocketDataReceived m received).2 = (orderHandler m call).2 := by
  simp only [onWebSocketDataReceived,h,List.foldl_cons,List.foldl_nil,List.nil_append]

theorem received_of_emitted_nil {received : WebSocketData Endpoint}
    (h : emitted (process received.parser received.now received.endpoint) = []) :
    (onWebSocketDataReceived m received).2 = [] := by
  simp only [onWebSocketDataReceived,h,List.foldl_nil]

end Routing

section Configured

/-- The names of the configuration, as the C strings the engines are kept under. -/
def Configured (moduleValue : JsonValue) (name : String) : Prop :=
  ∃ elements, moduleValue.valueAt "Instruments" = .ok (.array elements) ∧
    ∃ s, .string s ∈ elements ∧ cStr s = name

theorem isSome_find?_addInstrument (m : MatchingEngineModule) (instrument name : String) :
    ((m.addInstrument instrument).matchingEngines.find? name).isSome ↔
      name = instrument ∨ (m.matchingEngines.find? name).isSome := by
  rw [addInstrument,OrderedMap.find?_modify,OrderedMap.find?_emplace]
  by_cases h : name = instrument <;> simp [h]

theorem isSome_find?_loadInstruments {elements : List JsonValue} {start m : MatchingEngineModule}
    (h : start.loadInstruments elements = some m) (name : String) :
    (m.matchingEngines.find? name).isSome ↔
      (∃ s, .string s ∈ elements ∧ cStr s = name) ∨ (start.matchingEngines.find? name).isSome := by
  induction elements generalizing start with
  | nil =>
    cases h
    simp
  | cons value elements ih =>
    obtain ⟨instrument,hs,hrest⟩ := Option.bind_eq_some_iff.mp h
    rw [toOption_eq_some_iff,JsonValue.asString_eq_ok_iff] at hs
    rw [ih hrest,isSome_find?_addInstrument,hs]
    simp only [List.mem_cons,JsonValue.string.injEq,eq_comm (a := name)]
    constructor
    · rintro (⟨s,hs,he⟩ | h | h)
      · exact Or.inl ⟨s,Or.inr hs,he⟩
      · exact Or.inl ⟨instrument,Or.inl rfl,h⟩
      · exact Or.inr h
    · rintro (⟨s,rfl | hs,he⟩ | h)
      · exact Or.inr (Or.inl he)
      · exact Or.inl ⟨s,hs,he⟩
      · exact Or.inr (Or.inr h)

theorem isSome_find?_loadConfig {moduleValue : JsonValue} {m : MatchingEngineModule}
    (h : loadConfig moduleValue = some m) (name : String) :
    (m.matchingEngines.find? name).isSome ↔ Configured moduleValue name := by
  obtain ⟨value,hv,h⟩ := Option.bind_eq_some_iff.mp h
  obtain ⟨elements,he,h⟩ := Option.bind_eq_some_iff.mp h
  rw [toOption_eq_some_iff,JsonValue.asArray_eq_some_iff.mp he] at hv
  have hempty : (empty.matchingEngines.find? name).isSome = false := rfl
  rw [isSome_find?_loadInstruments h,hempty,Configured,hv]
  simp

/-- In every state of a loaded module the engines are those of the configuration. -/
theorem isSome_find?_final {moduleValue : JsonValue} {start : MatchingEngineModule}
    (h : loadConfig moduleValue = some start) (messages : List (WebSocketData Endpoint))
    (name : String) :
    ((Machine.final onWebSocketDataReceived start messages).matchingEngines.find? name).isSome ↔
      Configured moduleValue name := by
  rw [← isSome_find?_loadConfig h]
  refine Machine.final_invariant (C := fun _ _ => True) (I := fun m : MatchingEngineModule =>
    ((m.matchingEngines.find? name).isSome ↔ (start.matchingEngines.find? name).isSome))
    ?_ Iff.rfl (Machine.stepsMeet_of_forall (fun _ _ => trivial))
  intro m received hm _
  rw [isSome_find?_received]
  exact hm

end Configured
end MatchingEngineModule
end Moboware
