import Mathlib.Logic.Function.Basic
import Moboware.Library.Machine

/-! # The socket servers

The web, ssl and tcp servers keep their sessions in a table keyed by the remote endpoint.
A session that closes calls its cleanup handler, which the web and the ssl server make post
the removal of the session from the table, and the tcp server leaves empty. A web session
whose write fails is closed without that call. The handlers of the io service run in any order,
each without interruption.
-/
namespace Moboware
open Library

inductive ServerKind
  | web
  | ssl
  | tcp
  deriving DecidableEq, Repr

namespace ServerKind

/-- Whether the cleanup handler given to a session posts its removal. -/
def postsRemoval : ServerKind → Bool
  | web => true
  | ssl => true
  | tcp => false

/-- What `Accept` of a session returns; the tcp session makes no handshake. -/
def acceptsSession : ServerKind → Bool → Bool
  | web,handshake => handshake
  | ssl,handshake => handshake
  | tcp,_ => true

end ServerKind

/-- The wait of `ReadData`: none, one, or one whose handler is queued with an error. -/
inductive ReadWait
  | idle
  | pending
  | failed
  deriving DecidableEq, Repr

/-- A cancelled wait completes with an error. -/
def ReadWait.cancel : ReadWait → ReadWait
  | pending => failed
  | wait => wait

structure SocketSession (Endpoint : Type*) where
  endpoint : Endpoint
  isOpen : Bool
  readWait : ReadWait
  deriving DecidableEq

namespace SocketSession
variable {Endpoint : Type*}

def makeShared (endpoint : Endpoint) : SocketSession Endpoint where
  endpoint
  isOpen := true
  readWait := .idle

def close (session : SocketSession Endpoint) : SocketSession Endpoint :=
  { session with isOpen := false, readWait := session.readWait.cancel }

def await (session : SocketSession Endpoint) : SocketSession Endpoint :=
  { session with readWait := .pending }

def fail (session : SocketSession Endpoint) : SocketSession Endpoint :=
  { session with readWait := session.readWait.cancel }

def handled (session : SocketSession Endpoint) : SocketSession Endpoint :=
  { session with readWait := .idle }

@[simp] theorem close_endpoint (session : SocketSession Endpoint) :
    session.close.endpoint = session.endpoint := rfl

@[simp] theorem close_isOpen (session : SocketSession Endpoint) :
    session.close.isOpen = false := rfl

@[simp] theorem close_readWait (session : SocketSession Endpoint) :
    session.close.readWait = session.readWait.cancel := rfl

@[simp] theorem fail_readWait (session : SocketSession Endpoint) :
    session.fail.readWait = session.readWait.cancel := rfl

@[simp] theorem handled_readWait (session : SocketSession Endpoint) :
    session.handled.readWait = .idle := rfl

end SocketSession

/-- The sessions are numbered by the order of their connections; `posted` are the endpoints
of the removals that have not run yet. -/
structure SocketServer (Endpoint : Type*) where
  sessions : List (SocketSession Endpoint)
  mSessions : Endpoint → Option ℕ
  posted : List Endpoint

/-- The calls of the session callback. -/
inductive SessionEvent (Endpoint : Type*)
  | onSessionConnected (endpoint : Endpoint)
  | onSessionClosed (endpoint : Endpoint)
  deriving DecidableEq

namespace SocketServer
variable {Endpoint : Type*}

def start : SocketServer Endpoint where
  sessions := []
  mSessions _ := none
  posted := []

def modify (s : SocketServer Endpoint) (id : ℕ)
    (f : SocketSession Endpoint → SocketSession Endpoint) : SocketServer Endpoint :=
  { s with sessions := s.sessions.modify id f }

def append (s : SocketServer Endpoint) (session : SocketSession Endpoint) :
    SocketServer Endpoint :=
  { s with sessions := s.sessions ++ [session] }

def isOpen (s : SocketServer Endpoint) (id : ℕ) : Bool :=
  s.sessions[id]?.any SocketSession.isOpen

/-- The session handler: the removal is posted, not run, for the session must outlive it. -/
def sessionClosedHandler (kind : ServerKind) (s : SocketServer Endpoint) (endpoint : Endpoint) :
    SocketServer Endpoint :=
  if kind.postsRemoval then { s with posted := s.posted ++ [endpoint] } else s

def cleanup (kind : ServerKind) (s : SocketServer Endpoint) (id : ℕ) : SocketServer Endpoint :=
  match s.sessions[id]? with
  | none => s
  | some session => sessionClosedHandler kind s session.endpoint

/-- The handler first, then `cancel`, `shutdown` and `close`. -/
def handleClosedSocket (kind : ServerKind) (s : SocketServer Endpoint) (id : ℕ) :
    SocketServer Endpoint :=
  (cleanup kind s id).modify id SocketSession.close

section Handlers
variable [DecidableEq Endpoint]

/-- `m_Sessions.erase` drops the session, whose destructor closes the socket. -/
def erase (s : SocketServer Endpoint) (endpoint : Endpoint) : SocketServer Endpoint :=
  match s.mSessions endpoint with
  | none => s
  | some id => { s.modify id SocketSession.close with
      mSessions := Function.update s.mSessions endpoint none }

/-- Whether the endpoint was free is the second component. -/
def emplace (s : SocketServer Endpoint) (endpoint : Endpoint) (id : ℕ) :
    SocketServer Endpoint × Bool :=
  match s.mSessions endpoint with
  | none => ({ s with mSessions := Function.update s.mSessions endpoint (some id) },true)
  | some _ => (s,false)

/-- The handler of `async_accept`. What it erases is the entry that `emplace` points to,
its own or the one found; the session dies with the handler unless the table holds it. -/
def accept (kind : ServerKind) (s : SocketServer Endpoint) (endpoint : Endpoint)
    (handshake : Bool) : SocketServer Endpoint × List (SessionEvent Endpoint) :=
  let id := s.sessions.length
  let (emplaced,inserted) := (s.append (SocketSession.makeShared endpoint)).emplace endpoint id
  if inserted && kind.acceptsSession handshake then
    (emplaced.modify id SocketSession.await,[.onSessionConnected endpoint])
  else ((emplaced.erase endpoint).modify id SocketSession.close,[])

def checkClosedSessions (s : SocketServer Endpoint) (endpoint : Endpoint) :
    SocketServer Endpoint :=
  match s.mSessions endpoint with
  | none => s
  | some id => if s.isOpen id then s else s.erase endpoint

def removeSession (s : SocketServer Endpoint) (endpoint : Endpoint) :
    SocketServer Endpoint × List (SessionEvent Endpoint) :=
  if endpoint ∈ s.posted then
    ({ s with posted := s.posted.erase endpoint }.checkClosedSessions endpoint,
      [.onSessionClosed endpoint])
  else (s,[])

/-- The session that data for the endpoint reaches. -/
def sendSocketData (s : SocketServer Endpoint) (endpoint : Endpoint) : Option ℕ :=
  match s.mSessions endpoint with
  | none => none
  | some id => if s.isOpen id then some id else none

def sendFails (kind : ServerKind) (s : SocketServer Endpoint) (endpoint : Endpoint) :
    SocketServer Endpoint :=
  match s.sendSocketData endpoint with
  | none => s
  | some id => handleClosedSocket kind s id

/-- A failed write of a web session closes its stream; no handler is called. -/
def writeFails (s : SocketServer Endpoint) (endpoint : Endpoint) : SocketServer Endpoint :=
  match s.sendSocketData endpoint with
  | none => s
  | some id => s.modify id SocketSession.close

/-- The handler of a wait that is complete with an error; where there is no error the wait
is started again. -/
def readData (kind : ServerKind) (s : SocketServer Endpoint) (id : ℕ) : SocketServer Endpoint :=
  match s.sessions[id]? with
  | none => s
  | some session =>
    if session.readWait = .failed then
      handleClosedSocket kind (s.modify id SocketSession.handled) id
    else s

/-- The stream of a web session closes; the session calls its handler. -/
def streamCloses (kind : ServerKind) (s : SocketServer Endpoint) (id : ℕ) :
    SocketServer Endpoint :=
  if s.isOpen id then (cleanup kind s id).modify id SocketSession.close else s

inductive Action (Endpoint : Type*)
  | accept (endpoint : Endpoint) (handshake : Bool)
  | readFails (id : ℕ)
  | readData (id : ℕ)
  | sendFails (endpoint : Endpoint)
  | writeFails (endpoint : Endpoint)
  | streamCloses (id : ℕ)
  | cleanup (id : ℕ)
  | removeSession (endpoint : Endpoint)
  deriving DecidableEq

/-- The web sessions read and write through their stream, which closes by itself, and call
the handler also for a ping or pong that fails and for the peer's close frame. -/
def Action.arises (kind : ServerKind) : Action Endpoint → Bool
  | .accept _ _ => true
  | .readFails _ => kind ≠ .web
  | .readData _ => kind ≠ .web
  | .sendFails _ => kind ≠ .web
  | .writeFails _ => kind = .web
  | .streamCloses _ => kind = .web
  | .cleanup _ => kind = .web
  | .removeSession _ => true

def perform (kind : ServerKind) (s : SocketServer Endpoint) :
    Action Endpoint → SocketServer Endpoint × List (SessionEvent Endpoint)
  | .accept endpoint handshake => accept kind s endpoint handshake
  | .readFails id => (s.modify id SocketSession.fail,[])
  | .readData id => (readData kind s id,[])
  | .sendFails endpoint => (sendFails kind s endpoint,[])
  | .writeFails endpoint => (s.writeFails endpoint,[])
  | .streamCloses id => (streamCloses kind s id,[])
  | .cleanup id => (cleanup kind s id,[])
  | .removeSession endpoint => s.removeSession endpoint

def step (kind : ServerKind) :
    Machine (SocketServer Endpoint) (Action Endpoint) (SessionEvent Endpoint) :=
  fun s action => if action.arises kind then perform kind s action else (s,[])

end Handlers

theorem getElem?_modify (s : SocketServer Endpoint) (id i : ℕ)
    (f : SocketSession Endpoint → SocketSession Endpoint) : (s.modify id f).sessions[i]? =
      if id = i then s.sessions[i]?.map f else s.sessions[i]? := by
  unfold modify
  split_ifs with hi
  · subst hi
    exact List.getElem?_modify_eq ..
  · exact List.getElem?_modify_ne _ _ hi

theorem isOpen_eq (s : SocketServer Endpoint) {id : ℕ} {session : SocketSession Endpoint}
    (hs : s.sessions[id]? = some session) : s.isOpen id = session.isOpen := by
  rw [isOpen,hs]
  exact Option.any_some

@[simp] theorem append_mSessions (s : SocketServer Endpoint) (session : SocketSession Endpoint) :
    (s.append session).mSessions = s.mSessions := rfl

@[simp] theorem append_posted (s : SocketServer Endpoint) (session : SocketSession Endpoint) :
    (s.append session).posted = s.posted := rfl

@[simp] theorem erase_mSessions [DecidableEq Endpoint] (s : SocketServer Endpoint)
    (endpoint : Endpoint) :
    (s.erase endpoint).mSessions = Function.update s.mSessions endpoint none := by
  unfold erase
  split
  case h_1 hm =>
    rw [← hm]
    exact (Function.update_eq_self ..).symm
  case h_2 => rfl

@[simp] theorem erase_posted [DecidableEq Endpoint] (s : SocketServer Endpoint)
    (endpoint : Endpoint) : (s.erase endpoint).posted = s.posted := by
  unfold erase
  split
  · rfl
  · rfl

/-! ### Closing a session -/

section Closing
variable {kind : ServerKind} {s : SocketServer Endpoint} {id : ℕ}

theorem cleanup_eq_of_none (hs : s.sessions[id]? = none) : cleanup kind s id = s := by
  rw [cleanup,hs]

theorem cleanup_eq {session : SocketSession Endpoint} (hs : s.sessions[id]? = some session) :
    cleanup kind s id = { s with
      posted := s.posted ++ if kind.postsRemoval then [session.endpoint] else [] } := by
  rw [cleanup,hs]
  dsimp only [sessionClosedHandler]
  split_ifs
  · rfl
  · rw [List.append_nil]

theorem modify_eq_of_none (hs : s.sessions[id]? = none)
    (f : SocketSession Endpoint → SocketSession Endpoint) : s.modify id f = s := by
  rw [modify,List.modify_eq_self (List.getElem?_eq_none_iff.mp hs)]

theorem handleClosedSocket_eq_of_none (hs : s.sessions[id]? = none) :
    handleClosedSocket kind s id = s := by
  rw [handleClosedSocket,cleanup_eq_of_none hs,modify_eq_of_none hs]

theorem mSessions_handleClosedSocket :
    (handleClosedSocket kind s id).mSessions = s.mSessions := by
  cases hs : s.sessions[id]? with
  | none => rw [handleClosedSocket_eq_of_none hs]
  | some session =>
    rw [handleClosedSocket,cleanup_eq hs]
    rfl

theorem posted_handleClosedSocket {session : SocketSession Endpoint}
    (hs : s.sessions[id]? = some session) : (handleClosedSocket kind s id).posted =
      s.posted ++ if kind.postsRemoval then [session.endpoint] else [] := by
  rw [handleClosedSocket,cleanup_eq hs]
  rfl

/-- A write can only fail on the open session of the endpoint. -/
theorem sendSocketData_eq_some_iff {endpoint : Endpoint} : s.sendSocketData endpoint = some id ↔
    s.mSessions endpoint = some id ∧ s.isOpen id = true := by
  unfold sendSocketData
  split
  case h_1 hm => simp [hm]
  case h_2 i hm =>
    rw [hm,Option.some_inj]
    by_cases hopen : s.isOpen i = true
    · rw [if_pos hopen,Option.some_inj]
      exact ⟨fun hi => ⟨hi,hi ▸ hopen⟩,And.left⟩
    · rw [if_neg hopen]
      refine ⟨fun hn => absurd hn (Option.some_ne_none id).symm,?_⟩
      rintro ⟨rfl,ho⟩
      exact absurd ho hopen

end Closing

/-! ### Accepting a connection -/

theorem modify_append_length {α : Type*} (l : List α) (a : α) (f : α → α) :
    (l ++ [a]).modify l.length f = l ++ [f a] := by
  induction l with
  | nil => rfl
  | cons b l ih => exact congrArg (b :: ·) ih

theorem modify_append_of_lt {α : Type*} {l : List α} {i : ℕ} (hi : i < l.length) (a : α)
    (f : α → α) : (l ++ [a]).modify i f = l.modify i f ++ [a] := by
  induction l generalizing i with
  | nil => exact absurd hi (Nat.not_lt_zero i)
  | cons b l ih =>
    cases i with
    | zero => rfl
    | succ i => exact congrArg (b :: ·) (ih (Nat.lt_of_succ_lt_succ hi))

section Accepting
variable [DecidableEq Endpoint] {kind : ServerKind} {s : SocketServer Endpoint}
  {endpoint : Endpoint} {handshake : Bool}

/-- A free endpoint: the new session is stored and reads. -/
theorem accept_eq_of_free (hfree : s.mSessions endpoint = none)
    (haccepts : kind.acceptsSession handshake = true) :
    accept kind s endpoint handshake =
      ({ s.append (SocketSession.makeShared endpoint).await with
        mSessions := Function.update s.mSessions endpoint (some s.sessions.length) },
      [.onSessionConnected endpoint]) := by
  simp only [accept,append,emplace,hfree,haccepts,Bool.and_self,if_true,modify,
    modify_append_length]

/-- A handshake that fails leaves no more than a closed session. -/
theorem accept_eq_of_refused (hfree : s.mSessions endpoint = none)
    (haccepts : kind.acceptsSession handshake = false) :
    accept kind s endpoint handshake =
      (s.append (SocketSession.makeShared endpoint).close,[]) := by
  have hsame : Function.update s.mSessions endpoint none = s.mSessions := by
    rw [← hfree]
    exact Function.update_eq_self ..
  simp only [accept,append,emplace,hfree,haccepts,Bool.and_false,Bool.false_eq_true,if_false,
    erase,modify,Function.update_self,Function.update_idem,hsame]
  rw [modify_append_length,modify_append_length]
  rfl

/-- An endpoint in the table loses its session, and the new one is not stored. -/
theorem accept_eq_of_taken {old : ℕ} (htaken : s.mSessions endpoint = some old)
    (hold : old < s.sessions.length) :
    accept kind s endpoint handshake =
      ((s.erase endpoint).append (SocketSession.makeShared endpoint).close,[]) := by
  have hlength : s.sessions.length = (s.sessions.modify old SocketSession.close).length :=
    (List.length_modify ..).symm
  simp only [accept,append,emplace,htaken,Bool.false_and,Bool.false_eq_true,if_false,erase,modify,
    modify_append_of_lt hold]
  rw [hlength,modify_append_length]

end Accepting

end SocketServer
end Moboware
