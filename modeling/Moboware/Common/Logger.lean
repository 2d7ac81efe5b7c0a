import Mathlib.Logic.Function.Basic
import Moboware.Library.Machine

/-! # The logger

Threads format a line, push it into the queue and notify; the consumer thread waits for
a notification and writes what it finds. A notification reaches a thread only while it
waits, and the stop flag is tested only between two waits. The wait has no predicate, so it
may also wake up for nothing, which the consumer takes for a notification.
-/
namespace Moboware
open Library

/-- Where a thread stands in `_log`. -/
inductive Logger.Phase (LogBuffer : Type*)
  | idle
  | boundedPush (buffer : LogBuffer)
  | queueFull (buffer : LogBuffer)
  | push (buffer : LogBuffer)
  | signal

/-- Where the consumer stands: at the test of its loop, before and in the wait, at the
test of the queue after a notification, in `consume_all`, or past the loop. -/
inductive Logger.Consumer
  | stopTest
  | wait
  | waiting
  | notified
  | consumeAll
  | finished
  deriving DecidableEq

/-- An entry of the queue is a line with the id of its thread. -/
structure Logger (Thread LogBuffer : Type*) where
  mLogQueue : List (Thread × LogBuffer) := []
  phase : Thread → Logger.Phase LogBuffer := fun _ => .idle
  consumer : Logger.Consumer := .stopTest
  stopRequested : Bool := false

namespace Logger
variable {Thread LogBuffer : Type*}

/-- A thread calls `_log` or takes its next step, where a push may find no memory; the
consumer takes its next step; its wait times out or wakes up for nothing; the destructor
requests the stop. -/
inductive Action (Thread LogBuffer : Type*)
  | log (thread : Thread) (buffer : LogBuffer)
  | advance (thread : Thread) (memory : Bool)
  | consume
  | timeout
  | wakeUp
  | requestStop

inductive Event (Thread LogBuffer : Type*)
  | logged (entry : Thread × LogBuffer)
  | enqueued (entry : Thread × LogBuffer)
  | written (entry : Thread × LogBuffer)
  | stopRequested

namespace Phase

def pending : Phase LogBuffer → List LogBuffer
  | idle => []
  | boundedPush buffer => [buffer]
  | queueFull buffer => [buffer]
  | push buffer => [buffer]
  | signal => []

end Phase

/-- What an observer has seen: the entries in the order of the calls, of the queue and of
the file, and the entries that were enqueued when the stop was requested. -/
structure History (Thread LogBuffer : Type*) where
  logged : List (Thread × LogBuffer) := []
  enqueued : List (Thread × LogBuffer) := []
  written : List (Thread × LogBuffer) := []
  beforeStop : List (Thread × LogBuffer) := []

namespace History

def add (h : History Thread LogBuffer) : Event Thread LogBuffer → History Thread LogBuffer
  | .logged entry => { h with logged := h.logged ++ [entry] }
  | .enqueued entry => { h with enqueued := h.enqueued ++ [entry] }
  | .written entry => { h with written := h.written ++ [entry] }
  | .stopRequested => { h with beforeStop := h.enqueued }

def see (h : History Thread LogBuffer) (_ : Action Thread LogBuffer)
    (events : List (Event Thread LogBuffer)) : History Thread LogBuffer :=
  events.foldl add h

end History

/-- `notify_one`. -/
def notify (s : Logger Thread LogBuffer) : Logger Thread LogBuffer :=
  { s with consumer := match s.consumer with
      | .waiting => .notified
      | consumer => consumer }

/-- The next step of the consumer; one that waits is moved on by others. -/
def consume (s : Logger Thread LogBuffer) :
    Logger Thread LogBuffer × List (Event Thread LogBuffer) :=
  match s.consumer with
  | .stopTest => ({ s with consumer := if s.stopRequested then .finished else .wait },[])
  | .wait => ({ s with consumer := .waiting },[])
  | .waiting => (s,[])
  | .notified => ({ s with consumer := if s.mLogQueue.isEmpty then .stopTest else .consumeAll },[])
  | .consumeAll =>
    match s.mLogQueue with
    | [] => ({ s with consumer := .stopTest },[])
    | entry :: rest => ({ s with mLogQueue := rest },[.written entry])
  | .finished => (s,[])

/-- Only a wait times out. -/
def timeout (s : Logger Thread LogBuffer) :
    Logger Thread LogBuffer × List (Event Thread LogBuffer) :=
  match s.consumer with
  | .waiting => ({ s with consumer := .stopTest },[])
  | _ => (s,[])

/-- A spurious wake-up: `wait_for` returns `no_timeout`. -/
def wakeUp (s : Logger Thread LogBuffer) :
    Logger Thread LogBuffer × List (Event Thread LogBuffer) := (s.notify,[])

def requestStop (s : Logger Thread LogBuffer) :
    Logger Thread LogBuffer × List (Event Thread LogBuffer) :=
  if s.stopRequested then (s,[]) else ({ s with stopRequested := true },[.stopRequested])

variable [DecidableEq Thread]

def goto (s : Logger Thread LogBuffer) (thread : Thread) (phase : Phase LogBuffer) :
    Logger Thread LogBuffer :=
  { s with phase := Function.update s.phase thread phase }

def enqueue (s : Logger Thread LogBuffer) (thread : Thread) (buffer : LogBuffer) :
    Logger Thread LogBuffer × List (Event Thread LogBuffer) :=
  ({ s.goto thread .signal with mLogQueue := s.mLogQueue ++ [(thread,buffer)] },
    [.enqueued (thread,buffer)])

def advance (s : Logger Thread LogBuffer) (thread : Thread) (memory : Bool) :
    Logger Thread LogBuffer × List (Event Thread LogBuffer) :=
  match s.phase thread with
  | .idle => (s,[])
  | .boundedPush buffer =>
    if memory then s.enqueue thread buffer else (s.goto thread (.queueFull buffer),[])
  | .queueFull buffer => (s.notify.goto thread (.push buffer),[])
  | .push buffer =>
    if memory then s.enqueue thread buffer else (s.goto thread (.queueFull buffer),[])
  | .signal => (s.notify.goto thread .idle,[])

/-- A thread logs only when it is in no call. -/
def log (s : Logger Thread LogBuffer) (thread : Thread) (buffer : LogBuffer) :
    Logger Thread LogBuffer × List (Event Thread LogBuffer) :=
  match s.phase thread with
  | .idle => (s.goto thread (.boundedPush buffer),[.logged (thread,buffer)])
  | _ => (s,[])

def step : Machine (Logger Thread LogBuffer) (Action Thread LogBuffer) (Event Thread LogBuffer)
  | s, .log thread buffer => s.log thread buffer
  | s, .advance thread memory => s.advance thread memory
  | s, .consume => s.consume
  | s, .timeout => s.timeout
  | s, .wakeUp => s.wakeUp
  | s, .requestStop => s.requestStop

abbrev Observed (Thread LogBuffer : Type*) := Logger Thread LogBuffer × History Thread LogBuffer

def observedStep :
    Machine (Observed Thread LogBuffer) (Action Thread LogBuffer) (Event Thread LogBuffer) :=
  Machine.observed step History.see

end Logger
end Moboware
