import Moboware.OrderRequests.InstrumentIsolation
import Moboware.WebSocket.SessionTable

/-! # The web socket channel

A channel is built from its part of the configuration: the address and port of its server and
its modules. Every message the server reads goes to every module in the order of the
configuration, until an exception of one of them leaves the channel.
-/
namespace Moboware
open Library Throwing OrderEventProcessor

/-- `as_object().contains`; `none` when it throws. -/
def JsonValue.contains : JsonValue → String → Option Bool
  | object members, key => some (members.any (fun m => m.1 == key))
  | _, _ => none

/-- The modules a channel can have. -/
inductive IModule
  | tcpClientModule (address : String) (port : Int32)
  | logModule
  | matchingEngineModule (m : MatchingEngineModule)

structure WebSocketChannel where
  channelName : String
  port : Int32
  address : String
  modules : List IModule

namespace IModule
variable {Endpoint : Type}

/-- `CreateModule`, then `LoadConfig` of the module, which is true where it returns. `none` when
an accessor throws, and an inner `none` for a name that is not known. -/
def load (moduleName : String) (moduleValue : JsonValue) : Option (Option IModule) :=
  if moduleName = "TcpClientModule" then do
    let address ← (moduleValue.valueAt "Address" >>= JsonValue.asString).toOption
    let port ← (moduleValue.valueAt "Port" >>= JsonValue.asInt64).toOption
    some (some (tcpClientModule (cStr address) port.toInt32))
  else if moduleName = "LogModule" then some (some logModule)
  else if moduleName = "MatchingEngineModule" then
    (MatchingEngineModule.loadConfig moduleValue).map (fun m => some (matchingEngineModule m))
  else some none

/-- Only the matching engine module makes anything of a message. -/
def onWebSocketDataReceived : Machine IModule (WebSocketData Endpoint) (Message × Endpoint)
  | matchingEngineModule m, received =>
    let (m,messages) := MatchingEngineModule.onWebSocketDataReceived m received
    (matchingEngineModule m,messages)
  | module, _ => (module,[])

def throws : IModule → WebSocketData Endpoint → Bool
  | matchingEngineModule _, received =>
    (thrown? (process received.parser received.now received.endpoint)).isSome
  | _, _ => false

/-- The module has an engine for the instrument. -/
def serves (instrument : String) : IModule → Bool
  | matchingEngineModule m => (m.engine instrument).isSome
  | _ => false

end IModule

namespace WebSocketChannel
variable {Endpoint : Type}

/-- An inner `none` is the return of false. -/
def loadChannelConfig (channelConfig : JsonValue) : Option (Option (Int32 × String)) := do
  if ! (← channelConfig.contains "Port") then return none
  match ← (channelConfig.valueAt "Port").toOption with
  | .int64 port =>
    if ! (← channelConfig.contains "Address") then return none
    match ← (channelConfig.valueAt "Address").toOption with
    | .string address => return some (port.toInt32,cStr address)
    | _ => return none
  | _ => return none

/-- The loop over the modules; one with an unknown name is left out. -/
def loadModules (modules : List IModule) : List JsonValue → Option (Option (List IModule))
  | [] => some (some modules)
  | moduleValue :: rest => do
    if ! (← moduleValue.contains "Name") then return none
    let moduleName ← (moduleValue.valueAt "Name" >>= JsonValue.asString).toOption
    match ← IModule.load (cStr moduleName) moduleValue with
    | none => loadModules modules rest
    | some module => loadModules (modules ++ [module]) rest

/-- `ChannelBase::LoadConfig`; `none` when an accessor throws, and an inner `none` when it
returns false. -/
def loadConfig (channelConfig : JsonValue) : Option (Option WebSocketChannel) := do
  if ! (← channelConfig.contains "Name") || ! (← channelConfig.contains "Modules") then
    return none
  let channelName ← (channelConfig.valueAt "Name" >>= JsonValue.asString).toOption
  match ← loadChannelConfig channelConfig with
  | none => return none
  | some (port,address) =>
    match ← (channelConfig.valueAt "Modules").toOption with
    | .array moduleValues =>
      match ← loadModules [] moduleValues with
      | none => return none
      | some [] => return none
      | some modules => return some ⟨cStr channelName,port,address,modules⟩
    | _ => return none

/-- The `for_each` over the modules: their states, what they send, and whether one throws,
which keeps the message from those behind it. -/
def forEach (received : WebSocketData Endpoint) :
    List IModule → List IModule × List (Message × Endpoint) × Bool
  | [] => ([],[],false)
  | module :: rest =>
    let (module',messages) := module.onWebSocketDataReceived received
    if module.throws received then (module' :: rest,messages,true)
    else
      let (rest',messages',thrown) := forEach received rest
      (module' :: rest',messages ++ messages',thrown)

def onWebSocketDataReceived (c : WebSocketChannel) (received : WebSocketData Endpoint) :
    WebSocketChannel × List (Message × Endpoint) :=
  ({ c with modules := (forEach received c.modules).1 },(forEach received c.modules).2.1)

/-- What the channel sets as the server's callback; a text is given as what the parser and the
clock make of it. -/
def webSocketDataReceivedFn : WebSocketDataReceivedFn WebSocketChannel (StreamParser × OrderTime)
    Message Endpoint where
  received c data := onWebSocketDataReceived c ⟨data.1.1,data.1.2,data.2⟩
  throws c data := (forEach ⟨data.1.1,data.1.2,data.2⟩ c.modules).2.2

/-! ### Requests that are read -/

section Reading
variable {parser : StreamParser} {now : OrderTime} {endpoint : Endpoint}

/-- An exception comes before anything is handed on. -/
theorem emitted_eq_nil_of_thrown
    (h : thrown? (process parser now endpoint : Handling Endpoint Unit) ≠ none) :
    emitted (process parser now endpoint) = [] := by
  by_contra hne
  obtain ⟨call,hcall⟩ := List.exists_mem_of_ne_nil _ hne
  obtain ⟨_,root,hroot,action,haction,data,hdata,hm⟩ := mem_emitted_process.mp hcall
  apply h
  refine thrown?_process.mpr (Or.inr ⟨root,hroot,action,haction,data,hdata,?_⟩)
  rw [thrown?_dispatch]
  refine ⟨?_,?_,?_,?_⟩
  · rintro rfl
    obtain ⟨members,_⟩ := mem_emitted_insert.mp hm
    exact ⟨members⟩
  · rintro rfl
    obtain ⟨members,_⟩ := mem_emitted_cancel.mp hm
    exact ⟨members⟩
  · rintro rfl
    obtain ⟨members,_⟩ := mem_emitted_amend.mp hm
    exact ⟨members⟩
  · rintro rfl
    obtain ⟨members,_⟩ := mem_emitted_getBook.mp hm
    exact ⟨members⟩

/-- A message that one module throws for does nothing to any module. -/
theorem received_of_throws {module : IModule} {received : WebSocketData Endpoint}
    (h : module.throws received = true) (other : IModule) :
    other.onWebSocketDataReceived received = (other,[]) := by
  have hthrown : (thrown? (process received.parser received.now received.endpoint)).isSome =
      true := by
    cases module with
    | tcpClientModule address port => cases h
    | logModule => cases h
    | matchingEngineModule m => exact h
  have hnil := emitted_eq_nil_of_thrown (Option.isSome_iff_ne_none.mp hthrown)
  cases other with
  | tcpClientModule address port => rfl
  | logModule => rfl
  | matchingEngineModule m =>
    simp only [IModule.onWebSocketDataReceived,MatchingEngineModule.onWebSocketDataReceived,hnil,
      List.foldl_nil]

/-- Whether or not an exception cuts the loop short, every module is as if it had the message
to itself. -/
theorem forEach_eq (received : WebSocketData Endpoint) (modules : List IModule) :
    (forEach received modules).1 =
        (broadcast IModule.onWebSocketDataReceived modules received).1 ∧
      (forEach received modules).2.1 =
        (broadcast IModule.onWebSocketDataReceived modules received).2 ∧
      (forEach received modules).2.2 = modules.any (fun module => module.throws received) := by
  induction modules with
  | nil => exact ⟨rfl,rfl,rfl⟩
  | cons module rest ih =>
    by_cases hthrows : module.throws received = true
    · have hnothing := received_of_throws hthrows
      simp [forEach,broadcast,hthrows,hnothing]
    · obtain ⟨hmodules,hmessages,hthrown⟩ := ih
      simp only [broadcast] at hmodules hmessages
      simp [forEach,broadcast,hthrows,hmodules,hmessages,hthrown]

theorem modules_received (c : WebSocketChannel) (received : WebSocketData Endpoint) :
    (onWebSocketDataReceived c received).1.modules =
      (broadcast IModule.onWebSocketDataReceived c.modules received).1 :=
  (forEach_eq received c.modules).1

theorem messages_received (c : WebSocketChannel) (received : WebSocketData Endpoint) :
    (onWebSocketDataReceived c received).2 =
      (broadcast IModule.onWebSocketDataReceived c.modules received).2 :=
  (forEach_eq received c.modules).2.1

end Reading

/-! ### Runs of the channel -/

theorem modules_final (c : WebSocketChannel) (messages : List (WebSocketData Endpoint)) :
    (Machine.final onWebSocketDataReceived c messages).modules =
      c.modules.map (fun module =>
        Machine.final IModule.onWebSocketDataReceived module messages) := by
  rw [← final_broadcast]
  induction messages generalizing c with
  | nil => rfl
  | cons received messages ih =>
    rw [Machine.final_cons,ih,modules_received,Machine.final_cons]

theorem serves_received (module : IModule) (received : WebSocketData Endpoint)
    (instrument : String) :
    (module.onWebSocketDataReceived received).1.serves instrument = module.serves instrument := by
  cases module with
  | tcpClientModule address port => rfl
  | logModule => rfl
  | matchingEngineModule m => exact MatchingEngineModule.isSome_find?_received received instrument

theorem serves_final (module : IModule) (messages : List (WebSocketData Endpoint))
    (instrument : String) :
    (Machine.final IModule.onWebSocketDataReceived module messages).serves instrument =
      module.serves instrument := by
  induction messages generalizing module with
  | nil => rfl
  | cons received messages ih =>
    rw [Machine.final_cons,ih,serves_received]

/-- What an engine sends goes to the caller. -/
theorem endpoint_of_mem_handle (engine : MatchingEngine) (call : Call Endpoint)
    {m : Message × Endpoint} (hm : m ∈ (MatchingEngine.handle engine call).2) :
    m.2 = call.endpoint := by
  rcases call.handle_cases engine with ⟨_,trades,_,hr⟩ | ⟨_,⟨errorMessage,hr⟩,_⟩
  · rw [hr,MatchingEngine.replyAndTrades] at hm
    rcases List.mem_cons.mp hm with rfl | hm
    · rfl
    · obtain ⟨trade,_,rfl⟩ := List.mem_map.mp hm
      rfl
  · rw [hr,List.mem_singleton] at hm
    rw [hm]

/-- A request is for the endpoint it came from. -/
theorem endpoint_of_request {received : WebSocketData Endpoint} {instrument : String}
    {call : Call Endpoint} (h : received.request = some (instrument,call)) :
    call.endpoint = received.endpoint := by
  obtain ⟨out,hhead,hcall⟩ := Option.bind_eq_some_iff.mp h
  obtain ⟨_,_,_,action,_,data,_,hm⟩ := mem_emitted_process.mp (List.mem_of_mem_head? hhead)
  have hknown := known_of_mem_dispatch hm
  simp only [List.mem_cons,List.not_mem_nil,or_false] at hknown
  rcases hknown with rfl | rfl | rfl | rfl
  · obtain ⟨_,_,rfl⟩ := mem_emitted_insert.mp hm
    cases hcall
    rfl
  · obtain ⟨_,_,rfl⟩ := mem_emitted_cancel.mp hm
    cases hcall
    rfl
  · obtain ⟨_,_,rfl⟩ := mem_emitted_amend.mp hm
    cases hcall
    rfl
  · obtain ⟨_,rfl⟩ := mem_emitted_getBook.mp hm
    cases hcall

/-- One module answers a request for an instrument it serves once, and nothing else; and what
it sends goes to the endpoint that it heard from. -/
theorem answers_module (module : IModule) (received : WebSocketData Endpoint) :
    ((module.onWebSocketDataReceived received).2.countP (fun m => m.1.isAnswer) =
        received.request.elim 0 (fun r => if module.serves r.1 then 1 else 0)) ∧
      ∀ m ∈ (module.onWebSocketDataReceived received).2, m.2 = received.endpoint := by
  have hsilent : ∀ module : IModule, (module.onWebSocketDataReceived received).2 = [] →
      (∀ r ∈ received.request, module.serves r.1 = false) →
      (module.onWebSocketDataReceived received).2.countP (fun m => m.1.isAnswer) =
          received.request.elim 0 (fun r => if module.serves r.1 then 1 else 0) ∧
        ∀ m ∈ (module.onWebSocketDataReceived received).2, m.2 = received.endpoint := by
    intro module hnil hserves
    rw [hnil]
    refine ⟨?_,fun _ hm => absurd hm List.not_mem_nil⟩
    cases hr : received.request with
    | none => rfl
    | some r => simp [hserves r hr]
  cases module with
  | tcpClientModule address port => exact hsilent _ rfl (fun _ _ => rfl)
  | logModule => exact hsilent _ rfl (fun _ _ => rfl)
  | matchingEngineModule m =>
    have hroutes := @MatchingEngineModule.routes_received Endpoint
    cases hr : received.request with
    | none =>
      refine hr ▸ hsilent _ (hroutes.ignored m received hr).2 ?_
      simp [hr]
    | some r =>
      obtain ⟨instrument,call⟩ := r
      cases hc : m.engine instrument with
      | none =>
        refine hr ▸ hsilent _ (hroutes.absent m received instrument call hr hc).2 ?_
        simp [hr,IModule.serves,hc]
      | some engine =>
        have hanswers : (IModule.onWebSocketDataReceived (.matchingEngineModule m) received).2 =
            (MatchingEngine.handle engine call).2 :=
          (hroutes.present m received instrument call engine hr hc).2
        obtain ⟨answer,hanswer⟩ := answeredOnce_handle engine call
        rw [hanswers,List.countP_eq_length_filter,hanswer]
        refine ⟨by simp [IModule.serves,hc],fun message hm => ?_⟩
        exact (endpoint_of_mem_handle engine call hm).trans (endpoint_of_request hr)

theorem replies_webSocketDataReceivedFn :
    (webSocketDataReceivedFn : WebSocketDataReceivedFn _ _ _ Endpoint).Replies := by
  intro c data m hm
  have hm := (messages_received c ⟨data.1.1,data.1.2,data.2⟩).symm ▸ hm
  obtain ⟨module,_,hmodule⟩ := List.mem_flatMap.mp hm
  exact (answers_module module _).2 m hmodule

end WebSocketChannel
end Moboware
