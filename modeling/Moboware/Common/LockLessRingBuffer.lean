import Mathlib.Logic.Function.Basic
import Moboware.Library.Machine

/-! # The lock-less ring buffer

`LockLessRingBuffer` in the version that is compiled. Head and tail are 16-bit
counters that run freely; only the access to a slot reduces them to the queue's length.
-/
namespace Moboware
open Library

structure LockLessRingBuffer (queueLength : UInt16) (Buffer : Type*) where
  mHead : UInt16 := 0
  mTail : UInt16 := 0
  mQueue : ℕ → Buffer

/-- What a push function leaves in its slot, and whether it succeeded. -/
abbrev PushFn (Buffer : Type*) := Buffer → UInt16 → Buffer × Bool

namespace LockLessRingBuffer
variable {queueLength : UInt16} {Buffer : Type*}

def capacity (_ : LockLessRingBuffer queueLength Buffer) : UInt16 := queueLength

/-- The difference is one of `int`s and is cut to 16 bits when it is returned. -/
def size (b : LockLessRingBuffer queueLength Buffer) : UInt16 := b.mHead - b.mTail

def hasSpace (b : LockLessRingBuffer queueLength Buffer) : Bool := decide (b.size < b.capacity)

/-- This difference is not cut. -/
def empty (b : LockLessRingBuffer queueLength Buffer) : Bool :=
  decide ((b.mHead.toNat : Int) - b.mTail.toNat = 0)

/-- Runs the push function on the slot of a head that was claimed. -/
def callPushFn (b : LockLessRingBuffer queueLength Buffer) (pushFn : PushFn Buffer)
    (head : UInt16) : LockLessRingBuffer queueLength Buffer × Bool :=
  let headPosition := head % queueLength
  let (slot,success) := pushFn (b.mQueue headPosition.toNat) headPosition
  ({ b with mQueue := Function.update b.mQueue headPosition.toNat slot },success)

def push (b : LockLessRingBuffer queueLength Buffer) (pushFn : PushFn Buffer) :
    LockLessRingBuffer queueLength Buffer × Bool :=
  if !b.hasSpace then (b,false)
  else callPushFn { b with mHead := b.mHead + 1 } pushFn b.mHead

/-- With the element that the pop function is called on. -/
def pop (b : LockLessRingBuffer queueLength Buffer) :
    LockLessRingBuffer queueLength Buffer × Option Buffer :=
  if b.empty then (b,none)
  else ({ b with mTail := b.mTail + 1 },some (b.mQueue (b.mTail % queueLength).toNat))

inductive Call (Buffer : Type*)
  | push (pushFn : PushFn Buffer)
  | pop

inductive Outcome (Buffer : Type*)
  | pushed (success : Bool)
  | popped (element : Option Buffer)
  deriving DecidableEq

def step : Machine (LockLessRingBuffer queueLength Buffer) (Call Buffer) (Outcome Buffer)
  | b, .push pushFn => ((b.push pushFn).1,[.pushed (b.push pushFn).2])
  | b, .pop => (b.pop.1,[.popped b.pop.2])

/-- The counters after so many pops and pushes, which are at most the length apart. -/
structure CountersAt (b : LockLessRingBuffer queueLength Buffer) (popped pushed : ℕ) : Prop where
  tail_eq : b.mTail.toNat = popped % UInt16.size
  head_eq : b.mHead.toNat = pushed % UInt16.size
  popped_le : popped ≤ pushed
  pushed_le : pushed ≤ popped + queueLength.toNat

namespace CountersAt
variable {b : LockLessRingBuffer queueLength Buffer} {popped pushed : ℕ}

/-- The counters are less than a wrap apart. -/
theorem within_wrap (h : b.CountersAt popped pushed) :
    b.mTail.toNat = popped % 65536 ∧ b.mHead.toNat = pushed % 65536 ∧ popped ≤ pushed ∧
      pushed < popped + 65536 := by
  have hlt : queueLength.toNat < 2 ^ 16 := queueLength.toNat_lt
  have hle := h.pushed_le
  exact ⟨h.tail_eq,h.head_eq,h.popped_le,by omega⟩

/-- The 16-bit difference is right across the wrap of either counter. -/
theorem toNat_size (h : b.CountersAt popped pushed) : b.size.toNat = pushed - popped := by
  obtain ⟨htail,hhead,hge,hlt⟩ := h.within_wrap
  rw [size,UInt16.toNat_sub]
  omega

theorem hasSpace_iff (h : b.CountersAt popped pushed) :
    b.hasSpace ↔ pushed < popped + queueLength.toNat := by
  have hge := h.popped_le
  rw [hasSpace,decide_eq_true_iff,UInt16.lt_iff_toNat_lt,h.toNat_size,capacity]
  omega

/-- The difference that is not cut is zero only where the cut one is. -/
theorem empty_iff (h : b.CountersAt popped pushed) : b.empty ↔ popped = pushed := by
  obtain ⟨htail,hhead,hge,hlt⟩ := h.within_wrap
  rw [empty,decide_eq_true_iff]
  omega

end CountersAt

end LockLessRingBuffer
end Moboware
