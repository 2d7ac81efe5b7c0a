import Mathlib.Logic.Function.Basic
import Moboware.Library.Routing

/-! # The web socket server of a channel

The server keeps one session for each remote endpoint and hands what it reads to the channel,
whose answers it writes to the session of the endpoint they are for. A session that its peer
closes posts a sweep, which drops every session that is not open. What the table drops is
destroyed. The handlers of the io service run in any order and one at a time: what two of its
threads, the default number, do at once is not modelled. Both the accept handler and the read
handler ask the connection for its remote endpoint, which throws when the peer is gone.
-/
namespace Moboware
open Library

/-- A stream is open from the end of its handshake to its close or its first error. -/
inductive StreamStatus
  | handshake
  | opened
  | closed
  | failed
  deriving DecidableEq, Repr

/-- `room` is how many messages the connection still takes before a write to it fails. -/
structure WebSocketSession (Endpoint : Type*) where
  endpoint : Endpoint
  status : StreamStatus
  room : ℕ
  deriving DecidableEq

/-- The sessions are numbered by the order of their connections; `posted` counts the sweeps
that have not run yet. -/
structure WebSocketServer (Endpoint : Type*) where
  sessions : List (WebSocketSession Endpoint)
  mSessions : Endpoint → Option ℕ
  posted : ℕ

/-- `m_WebSocketDataReceivedFn`: what it makes of the channel and sends, and whether an
exception leaves it. -/
structure WebSocketDataReceivedFn (γ Data Text Endpoint : Type*) where
  received : Machine γ (Data × Endpoint) (Text × Endpoint)
  throws : γ → Data × Endpoint → Bool

/-- The server with its channel; an exception that leaves a handler stops the io service. -/
structure WebSocketService (Endpoint γ : Type*) where
  server : WebSocketServer Endpoint
  channel : γ
  stopped : Bool

/-- What the channel logs: a message read from a session, and one written to it. -/
inductive WireEvent (Endpoint Data Text : Type*)
  | received (id : ℕ) (data : Data × Endpoint)
  | sent (id : ℕ) (text : Text)
  deriving DecidableEq

namespace WireEvent
variable {Endpoint Data Text : Type*}

def read? : WireEvent Endpoint Data Text → Option (ℕ × Data × Endpoint)
  | received id data => some (id,data)
  | sent _ _ => none

def sentTo (id : ℕ) : WireEvent Endpoint Data Text → Option Text
  | received _ _ => none
  | sent i text => if i = id then some text else none

end WireEvent

namespace WebSocketSession
variable {Endpoint : Type*}

def setStatus (status : StreamStatus) (session : WebSocketSession Endpoint) :
    WebSocketSession Endpoint :=
  { session with status }

/-- What `n` writes leave of an open session. -/
def taken (n : ℕ) (session : WebSocketSession Endpoint) : WebSocketSession Endpoint :=
  if n ≤ session.room then { session with room := session.room - n }
  else { session with status := .failed, room := 0 }

@[simp] theorem setStatus_endpoint (status : StreamStatus) (session : WebSocketSession Endpoint) :
    (session.setStatus status).endpoint = session.endpoint := rfl

@[simp] theorem taken_endpoint (n : ℕ) (session : WebSocketSession Endpoint) :
    (session.taken n).endpoint = session.endpoint := by
  unfold taken
  split_ifs
  · rfl
  · rfl

end WebSocketSession

namespace WebSocketServer
variable {Endpoint Text : Type*}

def start : WebSocketServer Endpoint where
  sessions := []
  mSessions _ := none
  posted := 0

def modify (s : WebSocketServer Endpoint) (id : ℕ)
    (f : WebSocketSession Endpoint → WebSocketSession Endpoint) : WebSocketServer Endpoint :=
  { s with sessions := s.sessions.modify id f }

def isOpen (s : WebSocketServer Endpoint) (id : ℕ) : Bool :=
  s.sessions[id]?.any (fun session => session.status = .opened)

/-- A session that the table holds, with the given status. -/
def holds (s : WebSocketServer Endpoint) (id : ℕ) (status : StreamStatus) :
    Option (WebSocketSession Endpoint) :=
  s.sessions[id]?.filter (fun session => s.mSessions session.endpoint = some id ∧
    session.status = status)

/-- The handler of `async_accept`: the session begins its handshake and takes the place of
the one that the endpoint had. -/
def accept [DecidableEq Endpoint] (s : WebSocketServer Endpoint) (endpoint : Endpoint) (room : ℕ) :
    WebSocketServer Endpoint :=
  { s with
    sessions := s.sessions ++ [⟨endpoint,.handshake,room⟩]
    mSessions := Function.update s.mSessions endpoint (some s.sessions.length) }

def onSessionClosed (s : WebSocketServer Endpoint) : WebSocketServer Endpoint :=
  { s with posted := s.posted + 1 }

def checkClosedSessions (s : WebSocketServer Endpoint) : WebSocketServer Endpoint :=
  { s with mSessions := fun endpoint => (s.mSessions endpoint).filter s.isOpen }

/-- A posted `removeSessionFn`. -/
def removeSession (s : WebSocketServer Endpoint) : WebSocketServer Endpoint :=
  if s.posted = 0 then s else { s with posted := s.posted - 1 }.checkClosedSessions

/-- A session begins to read when its handshake succeeds. -/
def acceptHandshake (s : WebSocketServer Endpoint) (id : ℕ) (success : Bool) :
    WebSocketServer Endpoint :=
  match s.holds id .handshake with
  | none => s
  | some _ => s.modify id (WebSocketSession.setStatus (if success then .opened else .failed))

/-- The read handler with `error::closed`, or with another error, of which the server is
not told. -/
def readFails (s : WebSocketServer Endpoint) (id : ℕ) (closed : Bool) : WebSocketServer Endpoint :=
  match s.holds id .opened with
  | none => s
  | some _ =>
    if closed then (s.modify id (WebSocketSession.setStatus .closed)).onSessionClosed
    else s.modify id (WebSocketSession.setStatus .failed)

/-- `WebSocketSession::SendWebSocketData`; the message is out when the connection takes it. -/
def write (s : WebSocketServer Endpoint) (id : ℕ) (text : Text) :
    WebSocketServer Endpoint × List (ℕ × Text) :=
  match s.sessions[id]? with
  | none => (s,[])
  | some session =>
    if session.status = .opened then
      (s.modify id (WebSocketSession.taken 1),if session.room = 0 then [] else [(id,text)])
    else (s,[])

def sendWebSocketData : Machine (WebSocketServer Endpoint) (Text × Endpoint) (ℕ × Text) :=
  fun s message =>
    match s.mSessions message.2 with
    | none => (s,[])
    | some id => s.write id message.1

theorem holds_eq_some_iff {s : WebSocketServer Endpoint} {id : ℕ} {status : StreamStatus}
    {session : WebSocketSession Endpoint} : s.holds id status = some session ↔
      s.sessions[id]? = some session ∧ s.mSessions session.endpoint = some id ∧
        session.status = status := by
  simp [holds,Option.filter_eq_some_iff]

theorem isOpen_eq_true_iff {s : WebSocketServer Endpoint} {id : ℕ} : s.isOpen id = true ↔
    ∃ session, s.sessions[id]? = some session ∧ session.status = .opened := by
  simp [isOpen,Option.any_eq_true]

theorem getElem?_modify (s : WebSocketServer Endpoint) (id i : ℕ)
    (f : WebSocketSession Endpoint → WebSocketSession Endpoint) : (s.modify id f).sessions[i]? =
      if id = i then s.sessions[i]?.map f else s.sessions[i]? := by
  unfold modify
  split_ifs with hi
  · subst hi
    exact List.getElem?_modify_eq ..
  · exact List.getElem?_modify_ne _ _ hi

/-- Only what is done to the session itself matters. -/
theorem modify_congr {s : WebSocketServer Endpoint} {id : ℕ}
    {session : WebSocketSession Endpoint} (hs : s.sessions[id]? = some session)
    {f g : WebSocketSession Endpoint → WebSocketSession Endpoint} (h : f session = g session) :
    s.modify id f = s.modify id g := by
  have hsessions : s.sessions.modify id f = s.sessions.modify id g := by
    apply List.ext_getElem?
    intro i
    by_cases hi : id = i
    · subst hi
      rw [List.getElem?_modify_eq,List.getElem?_modify_eq,hs]
      exact congrArg some h
    · rw [List.getElem?_modify_ne _ _ hi,List.getElem?_modify_ne _ _ hi]
  rw [modify,modify,hsessions]

theorem modify_modify (s : WebSocketServer Endpoint) (id : ℕ)
    (f g : WebSocketSession Endpoint → WebSocketSession Endpoint) :
    (s.modify id f).modify id g = s.modify id (g ∘ f) := by
  rw [modify,modify,modify,List.modify_modify_eq]

end WebSocketServer

namespace WebSocketService
variable {Endpoint γ Data Text : Type*}

def start (channel : γ) : WebSocketService Endpoint γ := ⟨WebSocketServer.start,channel,false⟩

/-- In `acceptThrows` and `readThrows` the accept handler and the read handler find no remote
endpoint. -/
inductive Action (Endpoint Data : Type*)
  | accept (endpoint : Endpoint) (room : ℕ)
  | acceptThrows
  | acceptHandshake (id : ℕ) (success : Bool)
  | readData (id : ℕ) (data : Data)
  | readThrows (id : ℕ)
  | readFails (id : ℕ) (closed : Bool)
  | removeSession
  deriving DecidableEq

/-- The read handler without an error: the channel sends its answers before the handler
returns, or an exception leaves it. -/
def readData (fn : WebSocketDataReceivedFn γ Data Text Endpoint) (s : WebSocketService Endpoint γ)
    (id : ℕ) (data : Data) :
    WebSocketService Endpoint γ × List (WireEvent Endpoint Data Text) :=
  match s.server.holds id .opened with
  | none => (s,[])
  | some session =>
    let received := (data,session.endpoint)
    let (channel,messages) := fn.received s.channel received
    (⟨Machine.final WebSocketServer.sendWebSocketData s.server messages,channel,
        fn.throws s.channel received⟩,
      .received id received :: ((Machine.answers WebSocketServer.sendWebSocketData s.server
        messages).flatten.map (fun sent => .sent sent.1 sent.2)))

/-- `remote_endpoint()` throws before the session is made, or before the message is handed on. -/
def stop (s : WebSocketService Endpoint γ) : WebSocketService Endpoint γ :=
  { s with stopped := true }

def readThrows (s : WebSocketService Endpoint γ) (id : ℕ) : WebSocketService Endpoint γ :=
  match s.server.holds id .opened with
  | none => s
  | some _ => s.stop

def perform [DecidableEq Endpoint] (fn : WebSocketDataReceivedFn γ Data Text Endpoint)
    (s : WebSocketService Endpoint γ) : Action Endpoint Data →
      WebSocketService Endpoint γ × List (WireEvent Endpoint Data Text)
  | .accept endpoint room => ({ s with server := s.server.accept endpoint room },[])
  | .acceptThrows => (s.stop,[])
  | .acceptHandshake id success => ({ s with server := s.server.acceptHandshake id success },[])
  | .readData id data => readData fn s id data
  | .readThrows id => (s.readThrows id,[])
  | .readFails id closed => ({ s with server := s.server.readFails id closed },[])
  | .removeSession => ({ s with server := s.server.removeSession },[])

def step [DecidableEq Endpoint] (fn : WebSocketDataReceivedFn γ Data Text Endpoint) :
    Machine (WebSocketService Endpoint γ) (Action Endpoint Data)
      (WireEvent Endpoint Data Text) :=
  fun s action => if s.stopped then (s,[]) else perform fn s action

@[simp] theorem server_readThrows (s : WebSocketService Endpoint γ) (id : ℕ) :
    (s.readThrows id).server = s.server := by
  unfold readThrows
  split
  · rfl
  · rfl

end WebSocketService
end Moboware
