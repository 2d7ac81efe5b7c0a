import Moboware.Common.LockLessFifo

/-! # What the lock-less ring buffer counts

`Size`, `Empty` and `HasSpace` over runs with any push functions. They count the positions
that were claimed and not released, across the wraps of both counters. A position is
claimed before its push function runs, and it stays claimed when that function refuses.
-/
namespace Moboware
open Library

namespace LockLessRingBuffer
variable {queueLength : UInt16} {Buffer : Type*} {b : LockLessRingBuffer queueLength Buffer}
variable {popped pushed : ℕ}

/-- The difference as the source forms it: of `int`s, and then cut. -/
theorem size_eq_ofInt : b.size = UInt16.ofInt ((b.mHead.toNat : Int) - b.mTail.toNat) := by
  have hhead : b.mHead.toNat < 2 ^ 16 := b.mHead.toNat_lt
  have htail : b.mTail.toNat < 2 ^ 16 := b.mTail.toNat_lt
  rw [size,UInt16.ofInt,← UInt16.toNat_inj,UInt16.toNat_sub,UInt16.toNat_ofNat']
  omega

theorem push_of_full (pushFn : PushFn Buffer) (h : b.hasSpace = false) :
    b.push pushFn = (b,false) := by simp [push,h]

theorem pop_of_empty (h : b.empty = true) : b.pop = (b,none) := by simp [pop,h]

/-- What the push function answers for the slot at the head. -/
def answer (b : LockLessRingBuffer queueLength Buffer) (pushFn : PushFn Buffer) : Bool :=
  (pushFn (b.mQueue (b.mHead % queueLength).toNat) (b.mHead % queueLength)).2

theorem push_snd (pushFn : PushFn Buffer) :
    (b.push pushFn).2 = (b.hasSpace && b.answer pushFn) := by
  cases h : b.hasSpace with
  | false => rw [push_of_full pushFn h,Bool.false_and]
  | true => simp [push,h,callPushFn,answer]

/-- The head moves, whatever the push function answers. -/
theorem push_mHead (pushFn : PushFn Buffer) (h : b.hasSpace = true) :
    (b.push pushFn).1.mHead = b.mHead + 1 := by simp [push,h,callPushFn]

theorem push_mTail (pushFn : PushFn Buffer) : (b.push pushFn).1.mTail = b.mTail := by
  cases h : b.hasSpace with
  | false => rw [push_of_full pushFn h]
  | true => simp [push,h,callPushFn]

/-! ### The counters over a run -/

theorem CountersAt.push (h : b.CountersAt popped pushed) (pushFn : PushFn Buffer)
    (hspace : b.hasSpace = true) : (b.push pushFn).1.CountersAt popped (pushed + 1) := by
  refine ⟨?_,?_,?_,?_⟩
  · rw [push_mTail,h.tail_eq]
  · rw [push_mHead pushFn hspace,UInt16.toNat_add,h.head_eq,UInt16.toNat_one]
    exact Nat.mod_add_mod ..
  · exact Nat.le_succ_of_le h.popped_le
  · exact h.hasSpace_iff.mp hspace

theorem CountersAt.pop (h : b.CountersAt popped pushed) (hempty : b.empty = false) :
    b.pop.1.CountersAt (popped + 1) pushed := by
  have hne : popped ≠ pushed := fun he => absurd (h.empty_iff.mpr he) (by simp [hempty])
  have hle := h.popped_le
  have hpushed := h.pushed_le
  have hpop : b.pop.1 = { b with mTail := b.mTail + 1 } := by simp [LockLessRingBuffer.pop,hempty]
  rw [hpop]
  refine ⟨?_,h.head_eq,by omega,by omega⟩
  dsimp only
  rw [UInt16.toNat_add,h.tail_eq,UInt16.toNat_one]
  exact Nat.mod_add_mod ..

theorem countersAt_fresh (mQueue : ℕ → Buffer) : (fresh queueLength mQueue).CountersAt 0 0 :=
  (represents_fresh mQueue).countersAt

/-- A push claims a position once it has found space. -/
def claims (b : LockLessRingBuffer queueLength Buffer) : Call Buffer → ℕ
  | .push _ => if b.hasSpace then 1 else 0
  | .pop => 0

/-- A pop releases one unless it has found none. -/
def releases (b : LockLessRingBuffer queueLength Buffer) : Call Buffer → ℕ
  | .push _ => 0
  | .pop => if b.empty then 0 else 1

theorem CountersAt.step (h : b.CountersAt popped pushed) (call : Call Buffer) :
    (step b call).1.CountersAt (popped + b.releases call) (pushed + b.claims call) := by
  cases call with
  | push pushFn =>
    cases hspace : b.hasSpace with
    | false =>
      rw [LockLessRingBuffer.step,push_of_full pushFn hspace]
      simpa [releases,claims,hspace] using h
    | true => simpa [LockLessRingBuffer.step,releases,claims,hspace] using h.push pushFn hspace
  | pop =>
    cases hempty : b.empty with
    | false => simpa [LockLessRingBuffer.step,releases,claims,hempty] using h.pop hempty
    | true =>
      rw [LockLessRingBuffer.step,pop_of_empty hempty]
      simpa [releases,claims,hempty] using h

theorem CountersAt.final (h : b.CountersAt popped pushed) (calls : List (Call Buffer)) :
    (Machine.final LockLessRingBuffer.step b calls).CountersAt
      (popped + Machine.tally LockLessRingBuffer.step releases b calls)
      (pushed + Machine.tally LockLessRingBuffer.step claims b calls) := by
  induction calls generalizing b popped pushed with
  | nil => exact h
  | cons call calls ih =>
    rw [Machine.tally,Machine.tally,← Nat.add_assoc,← Nat.add_assoc]
    exact ih (h.step call)

/-- The three answers are those for so many positions between the tail and the head. -/
structure Counts (b : LockLessRingBuffer queueLength Buffer) (n : ℕ) : Prop where
  toNat_size : b.size.toNat = n
  empty_iff : b.empty = true ↔ n = 0
  hasSpace_iff : b.hasSpace = true ↔ n < queueLength.toNat

theorem CountersAt.counts (h : b.CountersAt popped pushed) : b.Counts (pushed - popped) := by
  have hle := h.popped_le
  refine ⟨h.toNat_size,?_,?_⟩
  · rw [h.empty_iff]
    omega
  · rw [h.hasSpace_iff]
    omega

/-- After any calls of one thread the three functions agree on the number of positions
that were claimed and not released. -/
theorem counts_claimed_positions (mQueue : ℕ → Buffer) (calls : List (Call Buffer)) :
    Machine.tally step releases (fresh queueLength mQueue) calls ≤
      Machine.tally step claims (fresh queueLength mQueue) calls ∧
    (Machine.final step (fresh queueLength mQueue) calls).Counts
      (Machine.tally step claims (fresh queueLength mQueue) calls -
        Machine.tally step releases (fresh queueLength mQueue) calls) := by
  have hfresh : (fresh queueLength mQueue).CountersAt 0 0 := countersAt_fresh mQueue
  have h := hfresh.final calls
  rw [Nat.zero_add,Nat.zero_add] at h
  exact ⟨h.popped_le,h.counts⟩

/-! ### Pushes that fail -/

/-- The elements that the pops of a run hand out. -/
def handedOut (b : LockLessRingBuffer queueLength Buffer) (calls : List (Call Buffer)) :
    List Buffer :=
  (Machine.answers step b calls).flatten.filterMap fun
    | .pushed _ => none
    | .popped element => element

theorem handedOut_pop (hempty : b.empty = false) (calls : List (Call Buffer)) :
    b.handedOut (.pop :: calls) =
      b.mQueue (b.mTail % queueLength).toNat :: b.pop.1.handedOut calls := by
  simp [handedOut,Machine.answers,Machine.trace,step,LockLessRingBuffer.pop,hempty]

theorem handedOut_pop_of_empty (hempty : b.empty = true) (calls : List (Call Buffer)) :
    b.handedOut (.pop :: calls) = b.handedOut calls := by
  simp [handedOut,Machine.answers,Machine.trace,step,LockLessRingBuffer.pop,hempty]

theorem CountersAt.length_handedOut_pops (h : b.CountersAt popped pushed) (n : ℕ) :
    (b.handedOut (List.replicate n .pop)).length = min n (pushed - popped) := by
  induction n generalizing b popped with
  | zero => simp [handedOut,Machine.answers,Machine.trace]
  | succ n ih =>
    have hle := h.popped_le
    rw [List.replicate_succ]
    cases hempty : b.empty with
    | true =>
      have heq := h.empty_iff.mp hempty
      rw [handedOut_pop_of_empty hempty,ih h]
      omega
    | false =>
      have hne : popped ≠ pushed := fun he => absurd (h.empty_iff.mpr he) (by simp [hempty])
      rw [handedOut_pop hempty,List.length_cons,ih (h.pop hempty)]
      omega

/-- A refused position is handed out by a later pop as if it had been filled. -/
theorem CountersAt.handedOut_refused (h : b.CountersAt popped pushed) (pushFn : PushFn Buffer)
    (hspace : b.hasSpace = true) :
    ((b.push pushFn).1.handedOut (List.replicate (pushed - popped + 1) .pop)).length =
      (b.handedOut (List.replicate (pushed - popped + 1) .pop)).length + 1 := by
  have hle := h.popped_le
  rw [(h.push pushFn hspace).length_handedOut_pops,h.length_handedOut_pops]
  omega

/-- Nothing that can be called later tells the two buffers apart. -/
structure AnswersAs (b after : LockLessRingBuffer queueLength Buffer) : Prop where
  size_eq : after.size = b.size
  empty_eq : after.empty = b.empty
  hasSpace_eq : after.hasSpace = b.hasSpace
  handedOut_eq : ∀ calls, after.handedOut calls = b.handedOut calls

/-- A push that returns false leaves the buffer as if it had not been called. -/
def FailsWithoutEffect (b : LockLessRingBuffer queueLength Buffer) : Call Buffer → Prop
  | .push pushFn => (b.push pushFn).2 = false → b.AnswersAs (b.push pushFn).1
  | .pop => True

/-- A push function that is called on a slot accepts it. -/
def Accepted (b : LockLessRingBuffer queueLength Buffer) : Call Buffer → Prop
  | .push pushFn => b.hasSpace = true → b.answer pushFn = true
  | .pop => True

theorem failsWithoutEffect_iff (call : Call Buffer) :
    b.FailsWithoutEffect call ↔ b.Accepted call := by
  cases call with
  | pop => exact Iff.rfl
  | push pushFn =>
    rw [FailsWithoutEffect,Accepted,push_snd]
    cases hspace : b.hasSpace with
    | false =>
      rw [push_of_full pushFn hspace]
      simp only [Bool.false_and,forall_const,Bool.false_eq_true,false_implies,iff_true]
      exact ⟨rfl,rfl,rfl,fun _ => rfl⟩
    | true =>
      rw [Bool.true_and]
      cases hanswer : b.answer pushFn with
      | true => simp
      | false =>
        refine iff_of_false (fun h => ?_) (by simp)
        have hsize := (h rfl).size_eq
        rw [size,size,push_mHead pushFn hspace,push_mTail] at hsize
        have hhead : b.mHead + 1 = b.mHead := UInt16.sub_left_inj b.mTail |>.mp hsize
        exact absurd hhead (by simp)

/-- The failed pushes of a run are without effect exactly when the only reason to fail is
that the buffer is full: a push function that refuses its slot has an effect. -/
theorem failed_pushes_without_effect_iff (mQueue : ℕ → Buffer) (calls : List (Call Buffer)) :
    Machine.StepsMeet step FailsWithoutEffect (fresh queueLength mQueue) calls ↔
      Machine.StepsMeet step Accepted (fresh queueLength mQueue) calls :=
  Machine.stepsMeet_congr (I := fun _ => True) (D := fun _ _ => True) (fun _ _ _ _ => trivial)
    (fun _ _ _ => failsWithoutEffect_iff _) trivial (Machine.stepsMeet_of_all (fun _ _ => trivial))

def refusing : PushFn Buffer := fun slot _ => (slot,false)

theorem refused_push_has_effect :
    ¬ (fresh 4 (fun _ => 7)).FailsWithoutEffect (.push refusing) ∧
    Machine.answers step (fresh 4 (fun _ => 7)) [.push refusing,.pop] =
      [[.pushed false],[.popped (some 7)]] ∧
    Machine.answers step (fresh 4 (fun _ => 7)) [.pop] = [[.popped none]] := by
  refine ⟨?_,by decide,by decide⟩
  rw [failsWithoutEffect_iff]
  exact fun h => absurd (h (by decide)) (by decide)

end LockLessRingBuffer
end Moboware
