import Moboware.Channels.ChannelRuns
import Moboware.Library.Pool

/-! # The channels of an application

An application has a fixed number of channels, each of which is loaded from its part of the
configuration and has a server of its own. All of them run on one io service, which an
exception of any of them stops. Its handlers run one at a time, also those of different
channels: what two of its threads, the default number, do at once is not modelled.
-/
namespace Moboware
open Library Throwing

namespace Application

/-- The members that set up the logger; `none` when an accessor throws. -/
def loadLogging (rootDocument : JsonValue) : Option Unit := do
  if ← rootDocument.contains "Logging" then
    let loggingNode ← (rootDocument.valueAt "Logging").toOption
    if ← loggingNode.contains "LogDirectory" then
      let _ ← (loggingNode.valueAt "LogDirectory" >>= JsonValue.asString).toOption
    let _ ← (loggingNode.valueAt "LogLevel" >>= JsonValue.asString).toOption
  return ()

/-- The loop over the channels: an inner `none` is the return of false at the first one that
does not load. -/
def loadEach : List JsonValue → Option (Option (List WebSocketChannel))
  | [] => some (some [])
  | channelValue :: rest => do
    match ← WebSocketChannel.loadConfig channelValue with
    | none => return none
    | some channel =>
      match ← loadEach rest with
      | none => return none
      | some channels => return some (channel :: channels)

/-- `Application::LoadConfig` behind the root document, for as many channels as the application
was built with. -/
def loadChannels (mChannels : ℕ) (rootDocument : JsonValue) :
    Option (Option (List WebSocketChannel)) := do
  loadLogging rootDocument
  if ! (← rootDocument.contains "Channels") then return none
  match ← (rootDocument.valueAt "Channels").toOption with
  | .array channelsValues =>
    if channelsValues.length = mChannels then loadEach channelsValues else return none
  | _ => return none

theorem loadEach_eq_some_iff {channelsValues : List JsonValue} {channels : List WebSocketChannel} :
    loadEach channelsValues = some (some channels) ↔
      List.Forall₂ (fun value c => WebSocketChannel.loadConfig value = some (some c))
        channelsValues channels := by
  induction channelsValues generalizing channels with
  | nil => simp [loadEach,eq_comm]
  | cons value rest ih =>
    rw [List.forall₂_cons_left_iff]
    simp only [loadEach]
    constructor
    · intro h
      obtain ⟨loaded,hloaded,h⟩ := Option.bind_eq_some_iff.mp h
      rcases loaded with _ | channel
      · cases h
      obtain ⟨others,hothers,h⟩ := Option.bind_eq_some_iff.mp h
      rcases others with _ | others
      · cases h
      · cases h
        exact ⟨channel,others,hloaded,ih.mp hothers,rfl⟩
    · rintro ⟨channel,others,hloaded,hothers,rfl⟩
      rw [hloaded,ih.mpr hothers]
      rfl

theorem loadChannels_eq_some {mChannels : ℕ} {rootDocument : JsonValue}
    {channels : List WebSocketChannel}
    (h : loadChannels mChannels rootDocument = some (some channels)) :
    ∃ channelsValues, rootDocument.valueAt "Channels" = .ok (.array channelsValues) ∧
      channelsValues.length = mChannels ∧ loadEach channelsValues = some (some channels) := by
  simp only [loadChannels] at h
  obtain ⟨_,_,h⟩ := Option.bind_eq_some_iff.mp h
  obtain ⟨hasChannels,_,h⟩ := Option.bind_eq_some_iff.mp h
  split_ifs at h with hmissing
  · cases h
  obtain ⟨value,hvalue,h⟩ := Option.bind_eq_some_iff.mp h
  rw [toOption_eq_some_iff] at hvalue
  cases value with
  | array channelsValues =>
    dsimp only at h
    split_ifs at h with hlength
    · exact ⟨channelsValues,hvalue,hlength,h⟩
    · cases h
  | null => cases h
  | bool b => cases h
  | int64 i => cases h
  | uint64 u => cases h
  | double bits => cases h
  | string s => cases h
  | object members => cases h

/-! ### Running -/

variable {Endpoint : Type}

/-- The channels on one io service. -/
def start (channels : List WebSocketChannel) : Pool (WebSocketService Endpoint WebSocketChannel) where
  parts := channels.map WebSocketService.start
  stopped := false

theorem getElem?_start (channels : List WebSocketChannel) (k : ℕ) :
    (start channels : Pool (WebSocketService Endpoint _)).parts[k]? =
      channels[k]?.map WebSocketService.start := List.getElem?_map

theorem stopped_start (channels : List WebSocketChannel) :
    (start channels : Pool (WebSocketService Endpoint _)).stopped =
      (start channels : Pool (WebSocketService Endpoint _)).parts.any WebSocketService.stopped := by
  simp [start,WebSocketService.start]

abbrev ChannelAction (Endpoint : Type) := WebSocketService.Action Endpoint (StreamParser × OrderTime)

variable [DecidableEq Endpoint]

/-- What is written and read on the connections of one channel. -/
def channelStep : Machine (WebSocketService Endpoint WebSocketChannel) (ChannelAction Endpoint)
    (WireEvent Endpoint (StreamParser × OrderTime) Message) :=
  WebSocketService.step WebSocketChannel.webSocketDataReceivedFn

/-- One action on the channel it names. -/
def step : Machine (Pool (WebSocketService Endpoint WebSocketChannel)) (ℕ × ChannelAction Endpoint)
    (ℕ × WireEvent Endpoint (StreamParser × OrderTime) Message) :=
  Pool.step channelStep WebSocketService.stopped

/-- The actions before the io service has stopped. -/
def performed (channels : List WebSocketChannel) (actions : List (ℕ × ChannelAction Endpoint)) :
    List (ℕ × ChannelAction Endpoint) :=
  Pool.performed channelStep WebSocketService.stopped (start channels) actions

/-- An application whose configuration is loaded: each channel is the one its part of the
configuration makes, its clients see what they would see if it were alone on the actions that
come before the stop, and all of them stop with the first that would stop alone. -/
theorem channels_run_alone {mChannels : ℕ} {rootDocument : JsonValue}
    {channels : List WebSocketChannel}
    (hload : loadChannels mChannels rootDocument = some (some channels))
    (actions : List (ℕ × ChannelAction Endpoint)) :
    let after := Machine.final step (start channels) actions
    let done := performed channels actions
    (∃ channelsValues, rootDocument.valueAt "Channels" = .ok (.array channelsValues) ∧
      channelsValues.length = mChannels ∧
      List.Forall₂ (fun value c => WebSocketChannel.loadConfig value = some (some c))
        channelsValues channels) ∧
    (∀ k c, channels[k]? = some c →
      Pool.marked k (Machine.answers step (start channels) actions).flatten =
        (Machine.answers channelStep (WebSocketService.start c) (Pool.marked k done)).flatten) ∧
    (done <+: actions ∧ (after.stopped = false → done = actions)) ∧
    (after.stopped = true ↔ ∃ k c, channels[k]? = some c ∧
      (Machine.final channelStep (WebSocketService.start c) (Pool.marked k done)).stopped = true) := by
  intro after done
  obtain ⟨channelsValues,hvalue,hlength,hloaded⟩ := loadChannels_eq_some hload
  refine ⟨⟨channelsValues,hvalue,hlength,loadEach_eq_some_iff.mp hloaded⟩,?_,?_,?_⟩
  · intro k c hc
    exact (Pool.run_part _ _ ((getElem?_start channels k).trans (congrArg _ hc)) actions).2
  · exact ⟨Pool.performed_prefix _ _ _ actions,Pool.performed_eq_self _ _⟩
  · refine (Pool.stopped_final_iff _ _ (stopped_start channels) actions).trans
      (exists_congr (fun k => ?_))
    rw [getElem?_start]
    constructor
    · rintro ⟨_,hk,hhalts⟩
      obtain ⟨c,hc,rfl⟩ := Option.map_eq_some_iff.mp hk
      exact ⟨c,hc,hhalts⟩
    · rintro ⟨c,hc,hhalts⟩
      exact ⟨_,congrArg _ hc,hhalts⟩

/-- Two channels, the second without a matching engine. -/
def twoChannels : JsonValue := .object [("Logging",.object [("LogLevel",.string "INFO")]),
  ("Channels",.array [WebSocketChannel.doubleConfig,
    .object [("Name",.string "WebSocketChannel2"),("Port",.int64 4402),
      ("Address",.string "0.0.0.0"),("Modules",.array [.object [("Name",.string "LogModule")]])]])]

/-- The first channel is stopped by an empty object while the second one has a client. -/
def emptyObjectActions : List (ℕ × ChannelAction ℕ) :=
  [(0,.accept 1 5),(1,.accept 2 5),(0,.acceptHandshake 0 true),(1,.acceptHandshake 0 true),
    (1,.readData 0 (⟨2,.ok (.object [])⟩,1)),(0,.readData 0 (⟨2,.ok (.object [])⟩,1))]

theorem channels_run_alone_two : ∃ channels c, loadChannels 2 twoChannels = some (some channels) ∧
    channels[1]? = some c ∧
    Pool.marked 1 (Machine.answers step (start channels) emptyObjectActions).flatten =
      (Machine.answers channelStep (WebSocketService.start c)
        (Pool.marked 1 (performed channels emptyObjectActions))).flatten :=
  ⟨_,_,rfl,rfl,(@channels_run_alone ℕ _ 2 twoChannels _ rfl emptyObjectActions).2.1 1 _ rfl⟩

end Application
end Moboware
