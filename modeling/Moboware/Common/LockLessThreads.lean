import Moboware.Common.LockLessRingBuffer

/-! # Threads on the lock-less ring buffer

Any number of threads push and pop at once, without the lock. A thread's step is one
atomic access of a counter or one callback; a thread that is not interrupted does what
`push` and `pop` do.
-/
namespace Moboware
open Library

/-- Where a thread stands in `Push` or `Pop`. -/
inductive Phase (Buffer : Type*)
  | idle
  | pushLoadedHead (pushFn : PushFn Buffer) (head : UInt16)
  | pushHasSpace (pushFn : PushFn Buffer)
  | pushClaimed (pushFn : PushFn Buffer) (head : UInt16)
  | popLoadedHead (head : UInt16)
  | popNotEmpty
  | popClaimed (tail : UInt16)

namespace Phase
variable {Buffer : Type*}

/-- The position that a push function is to be run on. -/
def pushing : Phase Buffer → Option UInt16
  | pushClaimed _ head => some head
  | _ => none

/-- The position that a pop function is to be run on. -/
def popping : Phase Buffer → Option UInt16
  | popClaimed tail => some tail
  | _ => none

end Phase

structure Concurrent (queueLength : UInt16) (Thread Buffer : Type*) where
  ring : LockLessRingBuffer queueLength Buffer
  phase : Thread → Phase Buffer := fun _ => .idle

/-- A thread calls, which loads the head, or takes its next step. -/
inductive Action (Thread Buffer : Type*)
  | push (thread : Thread) (pushFn : PushFn Buffer)
  | pop (thread : Thread)
  | advance (thread : Thread)

inductive Event (Thread Buffer : Type*)
  | refused (thread : Thread)
  | claimedHead (thread : Thread)
  | ranPushFn (thread : Thread) (success : Bool)
  | claimedTail (thread : Thread)
  | ranPopFn (thread : Thread) (element : Buffer)

namespace Concurrent
variable {queueLength : UInt16} {Thread Buffer : Type*} [DecidableEq Thread]

def withRing (s : Concurrent queueLength Thread Buffer) (ring : LockLessRingBuffer queueLength Buffer) :
    Concurrent queueLength Thread Buffer :=
  { s with ring }

def goto (s : Concurrent queueLength Thread Buffer) (thread : Thread) (phase : Phase Buffer) :
    Concurrent queueLength Thread Buffer :=
  { s with phase := Function.update s.phase thread phase }

/-- The next atomic step of a thread. -/
def advance (s : Concurrent queueLength Thread Buffer) (thread : Thread) :
    Concurrent queueLength Thread Buffer × List (Event Thread Buffer) :=
  match s.phase thread with
  | .idle => (s,[])
  | .pushLoadedHead pushFn head =>
    -- `Size` loads the tail, and `HasSpace` compares.
    if head - s.ring.mTail < s.ring.capacity then (s.goto thread (.pushHasSpace pushFn),[])
    else (s.goto thread .idle,[.refused thread])
  | .pushHasSpace pushFn =>
    ((s.withRing { s.ring with mHead := s.ring.mHead + 1 }).goto thread
      (.pushClaimed pushFn s.ring.mHead),[.claimedHead thread])
  | .pushClaimed pushFn head =>
    ((s.withRing (s.ring.callPushFn pushFn head).1).goto thread .idle,
      [.ranPushFn thread (s.ring.callPushFn pushFn head).2])
  | .popLoadedHead head =>
    if (head.toNat : Int) - s.ring.mTail.toNat = 0 then (s.goto thread .idle,[.refused thread])
    else (s.goto thread .popNotEmpty,[])
  | .popNotEmpty =>
    ((s.withRing { s.ring with mTail := s.ring.mTail + 1 }).goto thread
      (.popClaimed s.ring.mTail),[.claimedTail thread])
  | .popClaimed tail =>
    (s.goto thread .idle,[.ranPopFn thread (s.ring.mQueue (tail % queueLength).toNat)])

/-- A thread calls only when it is in no call. -/
def step : Machine (Concurrent queueLength Thread Buffer) (Action Thread Buffer)
    (Event Thread Buffer)
  | s, .push thread pushFn =>
    match s.phase thread with
    | .idle => (s.goto thread (.pushLoadedHead pushFn s.ring.mHead),[])
    | _ => (s,[])
  | s, .pop thread =>
    match s.phase thread with
    | .idle => (s.goto thread (.popLoadedHead s.ring.mHead),[])
    | _ => (s,[])
  | s, .advance thread => s.advance thread

section Alone
variable {s : Concurrent queueLength Thread Buffer} {thread : Thread}

/-- A push that no other thread interrupts is the push of one thread. -/
theorem push_alone (pushFn : PushFn Buffer) (h : s.phase thread = .idle) :
    Machine.final step s [.push thread pushFn,.advance thread,.advance thread,.advance thread] =
      s.withRing (s.ring.push pushFn).1 := by
  have hphase : Function.update s.phase thread .idle = s.phase :=
    Function.update_eq_self_iff.mpr h.symm
  by_cases hspace : s.ring.hasSpace = true
  · have hlt : s.ring.mHead - s.ring.mTail < s.ring.capacity := of_decide_eq_true hspace
    simp [Machine.final,step,advance,goto,withRing,h,hlt,hphase,LockLessRingBuffer.push,hspace,
      LockLessRingBuffer.callPushFn]
  · have hle : ¬ s.ring.mHead - s.ring.mTail < s.ring.capacity := fun hlt => hspace (decide_eq_true hlt)
    simp [Machine.final,step,advance,goto,withRing,h,hle,hphase,LockLessRingBuffer.push,hspace]

/-- And so is a pop. -/
theorem pop_alone (h : s.phase thread = .idle) :
    Machine.final step s [.pop thread,.advance thread,.advance thread,.advance thread] =
      s.withRing s.ring.pop.1 := by
  have hphase : Function.update s.phase thread .idle = s.phase :=
    Function.update_eq_self_iff.mpr h.symm
  by_cases hempty : s.ring.empty = true
  · have hzero : (s.ring.mHead.toNat : Int) - s.ring.mTail.toNat = 0 := of_decide_eq_true hempty
    simp [Machine.final,step,advance,goto,withRing,h,hzero,hphase,LockLessRingBuffer.pop,hempty]
  · have hne : ¬ (s.ring.mHead.toNat : Int) - s.ring.mTail.toNat = 0 :=
      fun hzero => hempty (decide_eq_true hzero)
    simp [Machine.final,step,advance,goto,withRing,h,hne,hphase,LockLessRingBuffer.pop,hempty]

end Alone

end Concurrent

end Moboware
