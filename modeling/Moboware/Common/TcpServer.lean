import Mathlib.Order.Lattice
import Moboware.Common.SessionFraming
import Moboware.Library.Machine
import Moboware.Library.OrderedMap

/-! # The TCP server

The server maps remote endpoints to sessions and pings each of them on a timer. A session
leaves the map by a removal, posted when a write to it finds the connection gone. The removal
names the endpoint and not the session, and what the map drops is destroyed. The handlers
of the io service run in any order, each without interruption.
-/
namespace Moboware
open Library Session

/-- How a write of a frame ends; one that fails may have put a front part of it out. -/
inductive WriteResult
  | written
  | disconnected (bytes : ℕ)
  | failed (bytes : ℕ)
  deriving DecidableEq

namespace WriteResult

def sent (frame : Bytes) : WriteResult → Bytes
  | written => frame
  | disconnected bytes => frame.take bytes
  | failed bytes => frame.take bytes

/-- The errors that make `Send` close the socket. -/
def closes : WriteResult → Bool
  | disconnected _ => true
  | _ => false

end WriteResult

structure ServerSession (Endpoint : Type*) where
  remoteEndpoint : Endpoint
  isOpen : Bool
  deriving DecidableEq

/-- The sessions are numbered by the order of their connections; `posted` are the removals
that have not run yet. An exception that leaves a handler stops the io service. -/
structure TcpServer (Endpoint : Type*) [LinearOrder Endpoint] where
  sessions : List (ServerSession Endpoint)
  mSessions : OrderedMap Endpoint ℕ (fun e e' => e < e')
  posted : List Endpoint
  stopped : Bool

namespace TcpServer
variable {Endpoint : Type*} [LinearOrder Endpoint]

def start : TcpServer Endpoint := ⟨[],OrderedMap.empty,[],false⟩

def isOpen (s : TcpServer Endpoint) (id : ℕ) : Bool :=
  s.sessions[id]?.any ServerSession.isOpen

def remoteEndpoint (s : TcpServer Endpoint) (id : ℕ) : Option Endpoint :=
  s.sessions[id]?.map ServerSession.remoteEndpoint

def closeSocket (s : TcpServer Endpoint) (id : ℕ) : TcpServer Endpoint :=
  { s with sessions := s.sessions.modify id (fun session => { session with isOpen := false }) }

def postRemoveSession (s : TcpServer Endpoint) (endPoint : Endpoint) : TcpServer Endpoint :=
  { s with posted := s.posted ++ [endPoint] }

/-- A posted removal, of any that wait. -/
def removeSession (s : TcpServer Endpoint) (n : ℕ) : TcpServer Endpoint :=
  match s.posted[n]? with
  | none => s
  | some endPoint =>
    { s with posted := s.posted.eraseIdx n, mSessions := s.mSessions.erase endPoint }

/-- `AcceptSession` without an error: the session takes the place its endpoint has in the
map. `Start` throws when the peer is already gone. -/
def acceptSession (s : TcpServer Endpoint) (endPoint : Endpoint) (starts : Bool) :
    TcpServer Endpoint :=
  if starts then
    { s with
      sessions := s.sessions ++ [⟨endPoint,true⟩]
      mSessions := s.mSessions.assign endPoint s.sessions.length }
  else { s with stopped := true }

/-- `Session::Send`, with what it puts on the connection. A closed socket takes nothing, and
the error is none of those that disconnect. -/
def send (s : TcpServer Endpoint) (id : ℕ) (sendBuffer : Bytes) (result : WriteResult) :
    TcpServer Endpoint × List (ℕ × Bytes) :=
  match s.sessions[id]? with
  | none => (s,[])
  | some session =>
    if session.isOpen then
      (if result.closes then (s.postRemoveSession session.remoteEndpoint).closeSocket id else s,
        [(id,result.sent (Session.send sendBuffer))])
    else (s,[])

def sendWebSocketData (s : TcpServer Endpoint) (data : Bytes) (endPoint : Endpoint)
    (result : WriteResult) : TcpServer Endpoint × List (ℕ × Bytes) :=
  match s.mSessions.find? endPoint with
  | none => (s,[])
  | some id => s.send id data result

/-- The text `ping`. -/
def payloadBuffer : Bytes := [112,105,110,103]

def sendPing : Machine (TcpServer Endpoint) (ℕ × WriteResult) (ℕ × Bytes) :=
  fun s ping => s.send ping.1 payloadBuffer ping.2

/-- The function of the timer: a ping to every session of the map, in its order. -/
def pingSessionsFunc (s : TcpServer Endpoint) (results : ℕ → WriteResult) :
    TcpServer Endpoint × List (ℕ × Bytes) :=
  let pings := s.mSessions.entries.map (fun e => (e.2,results e.2))
  (Machine.final sendPing s pings,(Machine.answers sendPing s pings).flatten)

inductive Action (Endpoint : Type*)
  | acceptSession (endPoint : Endpoint) (starts : Bool)
  | sendWebSocketData (data : Bytes) (endPoint : Endpoint) (result : WriteResult)
  | pingSessionsFunc (results : ℕ → WriteResult)
  | removeSession (n : ℕ)

def perform (s : TcpServer Endpoint) : Action Endpoint → TcpServer Endpoint × List (ℕ × Bytes)
  | .acceptSession endPoint starts => (s.acceptSession endPoint starts,[])
  | .sendWebSocketData data endPoint result => s.sendWebSocketData data endPoint result
  | .pingSessionsFunc results => s.pingSessionsFunc results
  | .removeSession n => (s.removeSession n,[])

def step : Machine (TcpServer Endpoint) (Action Endpoint) (ℕ × Bytes) :=
  fun s action => if s.stopped then (s,[]) else perform s action

/-- What went out on the connection of one session. -/
def sentTo (id : ℕ) (out : List (ℕ × Bytes)) : List Bytes :=
  out.filterMap (fun p => if p.1 = id then some p.2 else none)

section Send
variable (s : TcpServer Endpoint) (i : ℕ) (sendBuffer : Bytes) (result : WriteResult)

theorem send_of_not_open (h : s.isOpen i = false) : s.send i sendBuffer result = (s,[]) := by
  unfold send
  cases hs : s.sessions[i]? with
  | none => rfl
  | some session =>
    have hopen : session.isOpen = false := by simpa [isOpen,hs] using h
    simp [hopen]

theorem send_of_open (h : s.isOpen i = true) : ∃ endPoint, s.remoteEndpoint i = some endPoint ∧
    s.send i sendBuffer result =
      (if result.closes then (s.postRemoveSession endPoint).closeSocket i else s,
        [(i,result.sent (Session.send sendBuffer))]) := by
  unfold send
  cases hs : s.sessions[i]? with
  | none => simp [isOpen,hs] at h
  | some session =>
    have hopen : session.isOpen = true := by simpa [isOpen,hs] using h
    exact ⟨session.remoteEndpoint,by simp [remoteEndpoint,hs],by simp [hopen]⟩

theorem remoteEndpoint_closeSocket (id : ℕ) :
    (s.closeSocket i).remoteEndpoint id = s.remoteEndpoint id := by
  by_cases hi : i = id
  · subst hi
    simp [remoteEndpoint,closeSocket,Function.comp_def]
  · simp [remoteEndpoint,closeSocket,hi]

theorem isOpen_closeSocket (id : ℕ) :
    (s.closeSocket i).isOpen id = (s.isOpen id && decide (i ≠ id)) := by
  by_cases hi : i = id
  · subst hi
    cases hs : s.sessions[i]? <;> simp [isOpen,closeSocket,hs]
  · simp [isOpen,closeSocket,hi]

/-- A send changes neither the map nor who the sessions are of. -/
theorem send_keeps : (s.send i sendBuffer result).1.mSessions = s.mSessions ∧
    (s.send i sendBuffer result).1.stopped = s.stopped ∧
    ∀ id, (s.send i sendBuffer result).1.remoteEndpoint id = s.remoteEndpoint id := by
  cases hi : s.isOpen i with
  | false =>
    rw [send_of_not_open s i sendBuffer result hi]
    exact ⟨rfl,rfl,fun _ => rfl⟩
  | true =>
    obtain ⟨endPoint,_,hsend⟩ := send_of_open s i sendBuffer result hi
    rw [hsend]
    cases result.closes
    · exact ⟨rfl,rfl,fun _ => rfl⟩
    · exact ⟨rfl,rfl,remoteEndpoint_closeSocket _ i⟩

theorem isOpen_send (id : ℕ) : (s.send i sendBuffer result).1.isOpen id =
    (s.isOpen id && !(decide (i = id) && result.closes)) := by
  cases hi : s.isOpen i with
  | false =>
    rw [send_of_not_open s i sendBuffer result hi]
    by_cases hid : i = id
    · simp [← hid,hi]
    · simp [hid]
  | true =>
    obtain ⟨endPoint,_,hsend⟩ := send_of_open s i sendBuffer result hi
    rw [hsend]
    cases hc : result.closes
    · simp
    · simp only [↓reduceIte,isOpen_closeSocket,Bool.and_true,decide_not]
      rfl

theorem sentTo_send (id : ℕ) : sentTo id (s.send i sendBuffer result).2 =
    if i = id ∧ s.isOpen id = true then [result.sent (Session.send sendBuffer)] else [] := by
  cases hi : s.isOpen i with
  | false =>
    rw [send_of_not_open s i sendBuffer result hi,if_neg]
    · rfl
    · rintro ⟨rfl,hopen⟩
      exact Bool.false_ne_true (hi.symm.trans hopen)
  | true =>
    obtain ⟨endPoint,_,hsend⟩ := send_of_open s i sendBuffer result hi
    rw [hsend]
    by_cases hid : i = id
    · subst hid
      simp [sentTo,hi]
    · simp [sentTo,hid]

end Send

end TcpServer
end Moboware
