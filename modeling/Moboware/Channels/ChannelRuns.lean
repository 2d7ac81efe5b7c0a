import Moboware.Channels.WebSocketChannel

/-! # A channel and its clients

The channel behind its server, over whole runs: who is answered and how often, what every
client is sent, and when the service stops. The handlers of all its clients run one at a time.
-/
namespace Moboware
open Library Throwing OrderEventProcessor

namespace WebSocketChannel
variable {Endpoint : Type}

/-! ### The configured modules -/

/-- An entry of the modules that configures a matching engine module for the instrument. -/
def lists (instrument : String) (moduleValue : JsonValue) : Bool :=
  match moduleValue.valueAt "Name", moduleValue.valueAt "Instruments" with
  | .ok (.string name), .ok (.array elements) =>
    cStr name == "MatchingEngineModule" &&
      elements.any (fun element => element.asString.toOption.any (fun s => cStr s == instrument))
  | _, _ => false

theorem lists_eq_true_iff {instrument : String} {moduleValue : JsonValue} :
    lists instrument moduleValue = true ↔
      (∃ name, moduleValue.valueAt "Name" = .ok (.string name) ∧
        cStr name = "MatchingEngineModule") ∧
      MatchingEngineModule.Configured moduleValue instrument := by
  unfold lists MatchingEngineModule.Configured
  split
  · next name elements hname hinstruments =>
    simp only [hname,hinstruments,Bool.and_eq_true,beq_iff_eq,Except.ok.injEq,
      JsonValue.string.injEq,JsonValue.array.injEq,exists_eq_left',List.any_eq_true,
      Option.any_eq_true,toOption_eq_some_iff,JsonValue.asString_eq_ok_iff]
    refine and_congr_right (fun _ => ?_)
    constructor
    · rintro ⟨_,hmem,s,rfl,hs⟩
      exact ⟨s,hmem,hs⟩
    · rintro ⟨s,hmem,hs⟩
      exact ⟨_,hmem,s,rfl,hs⟩
  · next hno =>
    refine iff_of_false Bool.false_ne_true ?_
    rintro ⟨⟨name,hname,_⟩,elements,hinstruments,_⟩
    exact hno name elements hname hinstruments

/-- The module made of an entry serves what the entry lists. -/
theorem serves_load {moduleName instrument : String} {moduleValue : JsonValue}
    (hname : moduleValue.valueAt "Name" = .ok (.string moduleName)) {loaded : Option IModule}
    (h : IModule.load (cStr moduleName) moduleValue = some loaded) :
    loaded.any (IModule.serves instrument) = lists instrument moduleValue := by
  rw [Bool.eq_iff_iff,lists_eq_true_iff]
  have hengine : (∃ name, moduleValue.valueAt "Name" = .ok (.string name) ∧
      cStr name = "MatchingEngineModule") ↔ cStr moduleName = "MatchingEngineModule" := by
    simp [hname]
  rw [hengine]
  unfold IModule.load at h
  split_ifs at h with htcp hlog hmatching
  · obtain ⟨address,_,h⟩ := Option.bind_eq_some_iff.mp h
    obtain ⟨port,_,h⟩ := Option.bind_eq_some_iff.mp h
    cases h
    refine iff_of_false Bool.false_ne_true (fun hno => ?_)
    rw [htcp] at hno
    exact absurd hno.1 (by decide)
  · cases h
    refine iff_of_false Bool.false_ne_true (fun hno => ?_)
    rw [hlog] at hno
    exact absurd hno.1 (by decide)
  · obtain ⟨m,hm,rfl⟩ := Option.map_eq_some_iff.mp h
    rw [and_iff_right hmatching]
    exact MatchingEngineModule.isSome_find?_loadConfig hm instrument
  · cases h
    exact iff_of_false Bool.false_ne_true (fun hno => hmatching hno.1)

theorem loadModules_cons {moduleValue : JsonValue} {rest : List JsonValue}
    {modules loaded : List IModule}
    (h : loadModules modules (moduleValue :: rest) = some (some loaded)) :
    ∃ moduleName, moduleValue.valueAt "Name" = .ok (.string moduleName) ∧
      ∃ module, IModule.load (cStr moduleName) moduleValue = some module ∧
        loadModules (modules ++ module.toList) rest = some (some loaded) := by
  simp only [loadModules] at h
  obtain ⟨named,_,h⟩ := Option.bind_eq_some_iff.mp h
  split_ifs at h with hnamed
  · cases h
  obtain ⟨moduleName,hname,h⟩ := Option.bind_eq_some_iff.mp h
  obtain ⟨module,hmodule,h⟩ := Option.bind_eq_some_iff.mp h
  rw [toOption_eq_some_iff,bind_eq_ok_iff] at hname
  obtain ⟨_,hname,hstring⟩ := hname
  rw [JsonValue.asString_eq_ok_iff.mp hstring] at hname
  refine ⟨moduleName,hname,module,hmodule,?_⟩
  cases module with
  | none => simpa using h
  | some module => exact h

theorem countP_serves_loadModules {instrument : String} {moduleValues : List JsonValue}
    {modules loaded : List IModule}
    (h : loadModules modules moduleValues = some (some loaded)) :
    loaded.countP (IModule.serves instrument) =
      modules.countP (IModule.serves instrument) + moduleValues.countP (lists instrument) := by
  induction moduleValues generalizing modules with
  | nil =>
    cases h
    rfl
  | cons moduleValue rest ih =>
    obtain ⟨moduleName,hname,module,hmodule,hrest⟩ := loadModules_cons h
    have hserves : module.any (IModule.serves instrument) = lists instrument moduleValue :=
      serves_load hname hmodule
    have hcount : module.toList.countP (IModule.serves instrument) =
        if lists instrument moduleValue then 1 else 0 := by
      rw [← hserves]
      cases module with
      | none => rfl
      | some module => exact List.countP_singleton
    rw [ih hrest,List.countP_append,hcount,List.countP_cons]
    omega

theorem loadModules_of_loadConfig {channelConfig : JsonValue} {c : WebSocketChannel}
    (h : loadConfig channelConfig = some (some c)) :
    ∃ moduleValues, channelConfig.valueAt "Modules" = .ok (.array moduleValues) ∧
      loadModules [] moduleValues = some (some c.modules) := by
  simp only [loadConfig] at h
  obtain ⟨hasName,_,h⟩ := Option.bind_eq_some_iff.mp h
  obtain ⟨hasModules,_,h⟩ := Option.bind_eq_some_iff.mp h
  split_ifs at h with hmissing
  · cases h
  obtain ⟨channelName,_,h⟩ := Option.bind_eq_some_iff.mp h
  obtain ⟨served,_,h⟩ := Option.bind_eq_some_iff.mp h
  rcases served with _ | ⟨port,address⟩
  · cases h
  obtain ⟨modulesValue,hvalue,h⟩ := Option.bind_eq_some_iff.mp h
  rw [toOption_eq_some_iff] at hvalue
  cases modulesValue with
  | array moduleValues =>
    obtain ⟨loaded,hloaded,h⟩ := Option.bind_eq_some_iff.mp h
    rcases loaded with _ | _ | ⟨module,modules⟩
    · cases h
    · cases h
    · cases h
      exact ⟨moduleValues,hvalue,hloaded⟩
  | null => cases h
  | bool b => cases h
  | int64 i => cases h
  | uint64 u => cases h
  | double bits => cases h
  | string s => cases h
  | object members => cases h

/-! ### Who answers -/

theorem answers_final (c : WebSocketChannel) (earlier : List (WebSocketData Endpoint))
    (received : WebSocketData Endpoint) :
    (onWebSocketDataReceived (Machine.final onWebSocketDataReceived c earlier) received).2 =
      c.modules.flatMap (fun module => (IModule.onWebSocketDataReceived
        (Machine.final IModule.onWebSocketDataReceived module earlier) received).2) := by
  rw [messages_received,modules_final,broadcast]
  exact List.flatMap_map ..

theorem countP_answers (modules : List IModule) (earlier : List (WebSocketData Endpoint))
    (received : WebSocketData Endpoint) :
    (modules.flatMap (fun module => (IModule.onWebSocketDataReceived
      (Machine.final IModule.onWebSocketDataReceived module earlier) received).2)).countP
        (fun m => m.1.isAnswer) =
      received.request.elim 0 (fun r => modules.countP (IModule.serves r.1)) := by
  induction modules with
  | nil => cases received.request <;> rfl
  | cons module rest ih =>
    rw [List.flatMap_cons,List.countP_append,ih,(answers_module _ received).1]
    cases received.request with
    | none => rfl
    | some r =>
      simp only [Option.elim_some,serves_final,List.countP_cons]
      omega

/-- In a channel loaded from a configuration, after any messages: an order request is answered
once by each module entry that lists its instrument, and no other message is answered. All of
it goes to the endpoint that asked. -/
theorem answered_by_each_module {channelConfig : JsonValue} {c : WebSocketChannel}
    {moduleValues : List JsonValue} (hload : loadConfig channelConfig = some (some c))
    (hmodules : channelConfig.valueAt "Modules" = .ok (.array moduleValues))
    (earlier : List (WebSocketData Endpoint)) (received : WebSocketData Endpoint) :
    let messages :=
      (onWebSocketDataReceived (Machine.final onWebSocketDataReceived c earlier) received).2
    messages.countP (fun m => m.1.isAnswer) =
        received.request.elim 0 (fun r => moduleValues.countP (lists r.1)) ∧
      ∀ m ∈ messages, m.2 = received.endpoint := by
  intro messages
  have hmessages : messages = _ := answers_final c earlier received
  obtain ⟨values,hvalues,hloaded⟩ := loadModules_of_loadConfig hload
  rw [hmodules] at hvalues
  cases hvalues
  constructor
  · have hcount : messages.countP (fun m => m.1.isAnswer) =
        received.request.elim 0 (fun r => c.modules.countP (IModule.serves r.1)) := by
      rw [hmessages]
      exact countP_answers c.modules earlier received
    rw [hcount]
    cases received.request with
    | none => rfl
    | some r => exact (countP_serves_loadModules hloaded).trans (Nat.zero_add _)
  · intro m hm
    rw [hmessages] at hm
    obtain ⟨module,_,hmodule⟩ := List.mem_flatMap.mp hm
    exact (answers_module _ received).2 m hmodule

/-- Two matching engine modules for one instrument, and a module that only listens. -/
def doubleConfig : JsonValue := .object [("Name",.string "WebSocketChannel1"),("Port",.int64 4401),
  ("Address",.string "0.0.0.0"),("Modules",.array [
    .object [("Name",.string "LogModule")],
    .object [("Name",.string "MatchingEngineModule"),("Instruments",.array [.string "ABCN"])],
    .object [("Name",.string "MatchingEngineModule"),("Instruments",.array [.string "ABCN"])]])]

/-- The second of two orders, answered twice. -/
theorem answered_by_each_module_double : ∃ c, loadConfig doubleConfig = some (some c) ∧
    (onWebSocketDataReceived (Machine.final onWebSocketDataReceived c [insertRequest 100600000])
      (insertRequest 100500000)).2.countP (fun m => m.1.isAnswer) = 2 :=
  ⟨_,rfl,(@answered_by_each_module Unit doubleConfig _ _ rfl rfl
    [insertRequest 100600000] (insertRequest 100500000)).1⟩

/-! ### The clients -/

/-- Every client is sent, in order, what the channel answers to its own messages and nothing
else, up to the first write to it that fails, and all of it exactly if none fails, however its
session ends; and the channel is where the messages that were read take it. -/
theorem clients_answered (c : WebSocketChannel) [DecidableEq Endpoint]
    (actions : List (WebSocketService.Action Endpoint (StreamParser × OrderTime))) (id : ℕ) :
    let fn : WebSocketDataReceivedFn _ _ _ Endpoint := webSocketDataReceivedFn
    let s : WebSocketService Endpoint _ := WebSocketService.start c
    let after := Machine.final (WebSocketService.step fn) s actions
    WebSocketService.sentTo fn s id actions <+: WebSocketService.answersFor fn s id actions ∧
      (WebSocketService.sentTo fn s id actions = WebSocketService.answersFor fn s id actions ↔
        Machine.StepsMeet (WebSocketService.step fn) (WebSocketService.Takes fn id) s actions) ∧
      after.channel = Machine.final fn.received c
        ((WebSocketService.reads fn s actions).map Prod.snd) := by
  intro fn s after
  have hfn : fn.Replies := replies_webSocketDataReceivedFn
  obtain ⟨hfront,hall⟩ := WebSocketService.sentTo_isPrefix hfn s actions id
  exact ⟨hfront,hall,WebSocketService.channel_final hfn s actions⟩

/-! ### When the service stops -/

/-- The parser takes nothing of the message, or its document has the members that its action
reads. -/
def Readable (data : (StreamParser × OrderTime) × Endpoint) : Prop :=
  data.1.1.written = 0 ∨ ∃ root, data.1.1.release = .ok root ∧ root.Readable

theorem throws_iff_not_readable {module : IModule} (hm : ∃ m, module = .matchingEngineModule m)
    (data : (StreamParser × OrderTime) × Endpoint) :
    module.throws ⟨data.1.1,data.1.2,data.2⟩ = true ↔ ¬ Readable data := by
  obtain ⟨m,rfl⟩ := hm
  rw [IModule.throws,Option.isSome_iff_ne_none,Ne,Readable,thrown?_process]
  simp only [thrown?_dispatch,JsonValue.Readable]

/-- A channel with a matching engine serves all its clients until one of them sends a message
that cannot be read, or is gone when the accept handler or its read handler asks for its
endpoint; that one stops it for all. -/
theorem stops_at_unreadable {c : WebSocketChannel} [DecidableEq Endpoint]
    (hengine : ∃ m, .matchingEngineModule m ∈ c.modules)
    (actions : List (WebSocketService.Action Endpoint (StreamParser × OrderTime))) :
    let fn : WebSocketDataReceivedFn _ _ _ Endpoint := webSocketDataReceivedFn
    let s : WebSocketService Endpoint _ := WebSocketService.start c
    let reads := WebSocketService.reads fn s actions
    (∀ r ∈ reads.dropLast, Readable r.2) ∧
      ((Machine.final (WebSocketService.step fn) s actions).stopped = true ↔
        (∃ r ∈ reads.getLast?, ¬ Readable r.2) ∨
          ¬ Machine.StepsMeet (WebSocketService.step fn) WebSocketService.PeerThere s actions) := by
  intro fn s reads
  have hfn : fn.Replies := replies_webSocketDataReceivedFn
  have hI : ∀ (c : WebSocketChannel) (data : (StreamParser × OrderTime) × Endpoint),
      (∃ m, .matchingEngineModule m ∈ c.modules) →
        ∃ m, .matchingEngineModule m ∈ (fn.received c data).1.modules := by
    rintro c data ⟨m,hm⟩
    have hmodules : (fn.received c data).1.modules = _ :=
      modules_received c ⟨data.1.1,data.1.2,data.2⟩
    rw [hmodules]
    exact ⟨_,List.mem_map.mpr ⟨_,hm,rfl⟩⟩
  have hthrows : ∀ (c : WebSocketChannel) (data : (StreamParser × OrderTime) × Endpoint),
      (∃ m, .matchingEngineModule m ∈ c.modules) →
        (fn.throws c data = true ↔ ¬ Readable data) := by
    rintro c data ⟨m,hm⟩
    have hthrown : fn.throws c data = _ := (forEach_eq ⟨data.1.1,data.1.2,data.2⟩ c.modules).2.2
    rw [hthrown,List.any_eq_true]
    constructor
    · rintro ⟨module,_,hthrown⟩
      cases module with
      | tcpClientModule address port => cases hthrown
      | logModule => cases hthrown
      | matchingEngineModule m => exact (throws_iff_not_readable ⟨m,rfl⟩ data).mp hthrown
    · exact fun h => ⟨_,hm,(throws_iff_not_readable ⟨m,rfl⟩ data).mpr h⟩
  obtain ⟨hearlier,hlast⟩ := WebSocketService.stopped_final_iff hfn (p := fun data => ¬ Readable data)
    hI hthrows s hengine rfl actions
  exact ⟨fun r hr => not_not.mp (hearlier r hr),hlast⟩

/-- One matching engine module without instruments. -/
def bareChannel : WebSocketChannel :=
  ⟨"WebSocketChannel1",4401,"0.0.0.0",[.matchingEngineModule .empty]⟩

/-- The empty object stops it. -/
theorem stops_at_unreadable_emptyObject :
    (Machine.final (WebSocketService.step (webSocketDataReceivedFn : WebSocketDataReceivedFn _ _ _ ℕ))
      (WebSocketService.start bareChannel)
      [.accept 1 5,.acceptHandshake 0 true,.readData 0 (⟨2,.ok (.object [])⟩,1)]).stopped = true := by
  refine (@stops_at_unreadable ℕ bareChannel _ ⟨_,List.mem_cons_self⟩ _).2.mpr
    (Or.inl ⟨_,rfl,?_⟩)
  rintro (hwritten | ⟨root,hroot,action,haction,_⟩)
  · cases hwritten
  · cases hroot
    cases haction

end WebSocketChannel
end Moboware
