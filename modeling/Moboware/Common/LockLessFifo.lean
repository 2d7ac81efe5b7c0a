import Moboware.Common.LockLessRingBuffer
import Moboware.Library.WrappedSlots

/-! # The lock-less ring buffer as a queue

Calls of one thread whose pushes store a value. The counters count right over any
number of calls; the slots are those of a queue as long as no push takes, across the
wrap of the head, the slot of an element that is still unread.
-/
namespace Moboware
open Library

namespace LockLessRingBuffer
variable {queueLength : UInt16} {Buffer : Type*} {b : LockLessRingBuffer queueLength Buffer}

inductive QueueOp (Buffer : Type*)
  | push (value : Buffer)
  | pop

/-- A push function that stores the value and returns true. -/
def storing (value : Buffer) : PushFn Buffer := fun _ _ => (value,true)

def QueueOp.call : QueueOp Buffer → Call Buffer
  | .push value => .push (storing value)
  | .pop => .pop

def storeStep : Machine (LockLessRingBuffer queueLength Buffer) (QueueOp Buffer) (Outcome Buffer) :=
  fun b op => step b op.call

theorem storeStep_push {value : Buffer} (hspace : b.hasSpace = true) :
    storeStep b (.push value) = (⟨b.mHead + 1,b.mTail,
      Function.update b.mQueue (b.mHead % queueLength).toNat value⟩,[.pushed true]) := by
  rw [storeStep,QueueOp.call,step,push,hspace]
  rfl

theorem storeStep_pop (hempty : b.empty = false) : storeStep b .pop =
    (⟨b.mHead,b.mTail + 1,b.mQueue⟩,[.popped (some (b.mQueue (b.mTail % queueLength).toNat))]) := by
  rw [storeStep,QueueOp.call,step,pop,hempty]
  rfl

/-- A queue, with the number of elements that have left it. -/
structure Fifo (Buffer : Type*) where
  popped : ℕ := 0
  unread : List Buffer := []

/-- The bounded queue that the buffer is to be. -/
def fifoStep (capacity : ℕ) : Machine (Fifo Buffer) (QueueOp Buffer) (Outcome Buffer)
  | q, .push value =>
    if q.unread.length < capacity then ({ q with unread := q.unread ++ [value] },[.pushed true])
    else (q,[.pushed false])
  | ⟨popped,[]⟩, .pop => (⟨popped,[]⟩,[.popped none])
  | ⟨popped,value :: unread⟩, .pop => (⟨popped + 1,unread⟩,[.popped (some value)])

/-- The counters are those of the queue, and its elements stand in their slots. -/
structure Represents (b : LockLessRingBuffer queueLength Buffer) (q : Fifo Buffer) : Prop where
  tail_eq : b.mTail.toNat = q.popped % UInt16.size
  head_eq : b.mHead.toNat = (q.popped + q.unread.length) % UInt16.size
  length_le : q.unread.length ≤ queueLength.toNat
  slots : ∀ k value, q.unread[k]? = some value →
    b.mQueue (wrappedSlot UInt16.size queueLength.toNat (q.popped + k)) = value

/-- As it is constructed, with whatever the slots hold. -/
def fresh (queueLength : UInt16) (mQueue : ℕ → Buffer) : LockLessRingBuffer queueLength Buffer :=
  { mQueue := mQueue }

theorem represents_fresh (mQueue : ℕ → Buffer) : Represents (fresh queueLength mQueue) {} :=
  ⟨rfl,rfl,Nat.zero_le _,fun _ _ h => absurd h (by simp)⟩

/-- The push is accepted with the head back in the first remainder of the counter's range,
and as many elements as that remainder are unread. -/
def Overwrites (b : LockLessRingBuffer queueLength Buffer) : QueueOp Buffer → Prop
  | .push _ => b.hasSpace ∧ b.mHead.toNat < UInt16.size % queueLength.toNat ∧
      UInt16.size % queueLength.toNat ≤ b.size.toNat
  | .pop => False

namespace Represents
variable {q : Fifo Buffer}

theorem countersAt (h : Represents b q) : b.CountersAt q.popped (q.popped + q.unread.length) :=
  ⟨h.tail_eq,h.head_eq,Nat.le_add_right ..,Nat.add_le_add_left h.length_le _⟩

theorem toNat_size (h : Represents b q) : b.size.toNat = q.unread.length := by
  rw [h.countersAt.toNat_size,Nat.add_sub_cancel_left]

theorem hasSpace_iff (h : Represents b q) : b.hasSpace ↔ q.unread.length < queueLength.toNat := by
  rw [h.countersAt.hasSpace_iff,Nat.add_lt_add_iff_left]

theorem empty_iff (h : Represents b q) : b.empty ↔ q.unread = [] := by
  rw [h.countersAt.empty_iff,← List.length_eq_zero_iff]
  omega

theorem head_slot (h : Represents b q) : (b.mHead % queueLength).toNat =
    wrappedSlot UInt16.size queueLength.toNat (q.popped + q.unread.length) := by
  rw [UInt16.toNat_mod,h.head_eq,wrappedSlot]

theorem tail_slot (h : Represents b q) : (b.mTail % queueLength).toNat =
    wrappedSlot UInt16.size queueLength.toNat q.popped := by
  rw [UInt16.toNat_mod,h.tail_eq,wrappedSlot]

/-- Only a push that overwrites takes the slot of an unread element. -/
theorem slot_ne (h : Represents b q) (hspace : q.unread.length < queueLength.toNat)
    {value : Buffer} (hsafe : ¬ Overwrites b (.push value)) {k : ℕ} (hk : k < q.unread.length) :
    wrappedSlot UInt16.size queueLength.toNat (q.popped + k) ≠
      wrappedSlot UInt16.size queueLength.toNat (q.popped + q.unread.length) := by
  intro heq
  have hlt : queueLength.toNat ≤ UInt16.size := Nat.le_of_lt queueLength.toNat_lt
  have hsum : q.popped + k + (q.unread.length - k) = q.popped + q.unread.length := by omega
  have hcollide := (wrappedSlot_add_eq_iff (i := q.popped + k) (d := q.unread.length - k)
    (by omega) (by omega) hlt).mp (by rw [hsum,heq])
  apply hsafe
  refine ⟨h.hasSpace_iff.mpr hspace,?_,?_⟩
  · rw [h.head_eq,← hcollide.2,← hsum]
    exact hcollide.1
  · rw [h.toNat_size,← hcollide.2]
    exact Nat.sub_le ..

theorem push (h : Represents b q) (hspace : q.unread.length < queueLength.toNat) {value : Buffer}
    (hsafe : ¬ Overwrites b (.push value)) :
    Represents (storeStep b (.push value)).1 { q with unread := q.unread ++ [value] } ∧
      (storeStep b (.push value)).2 = [.pushed true] := by
  rw [storeStep_push (h.hasSpace_iff.mpr hspace),h.head_slot]
  refine ⟨⟨h.tail_eq,?_,?_,?_⟩,rfl⟩
  · have hhead := h.head_eq
    simp only [UInt16.size,UInt16.toNat_add,UInt16.toNat_one,List.length_append,
      List.length_singleton] at hhead ⊢
    omega
  · rw [List.length_append]
    exact hspace
  · intro k v hv
    dsimp only at hv ⊢
    by_cases hk : k < q.unread.length
    · rw [List.getElem?_append_left hk] at hv
      rw [Function.update_of_ne (h.slot_ne hspace hsafe hk)]
      exact h.slots k v hv
    · have hlast : k = q.unread.length := by
        have hlt := (List.getElem?_eq_some_iff.mp hv).1
        simp only [List.length_append,List.length_singleton] at hlt
        omega
      subst hlast
      rw [Function.update_self]
      simpa using hv

theorem pop {popped : ℕ} {value : Buffer} {unread : List Buffer}
    (h : Represents b ⟨popped,value :: unread⟩) :
    Represents (storeStep b .pop).1 ⟨popped + 1,unread⟩ ∧
      (storeStep b .pop).2 = [.popped (some value)] := by
  have hempty : b.empty = false := Bool.eq_false_iff.mpr (fun he => by simpa using h.empty_iff.mp he)
  have hvalue : b.mQueue (b.mTail % queueLength).toNat = value := by
    rw [h.tail_slot]
    exact h.slots 0 value rfl
  rw [storeStep_pop hempty,hvalue]
  refine ⟨⟨?_,?_,?_,?_⟩,rfl⟩
  · have htail := h.tail_eq
    simp only [UInt16.size,UInt16.toNat_add] at htail ⊢
    rw [htail]
    exact Nat.mod_add_mod ..
  · have hhead := h.head_eq
    rw [List.length_cons] at hhead
    rw [hhead,Nat.add_right_comm]
    rfl
  · exact Nat.le_of_succ_le h.length_le
  · intro k v hv
    have hslot := h.slots (k + 1) v hv
    rwa [Nat.add_right_comm]

/-- A call that overwrites nothing is the call on the queue. -/
theorem step (h : Represents b q) {op : QueueOp Buffer} (hsafe : ¬ Overwrites b op) :
    Represents (storeStep b op).1 (fifoStep queueLength.toNat q op).1 ∧
      (fifoStep queueLength.toNat q op).2 = (storeStep b op).2 := by
  cases op with
  | push value =>
    by_cases hspace : q.unread.length < queueLength.toNat
    · obtain ⟨hnext,hanswer⟩ := h.push hspace hsafe
      rw [fifoStep,if_pos hspace,hanswer]
      exact ⟨hnext,rfl⟩
    · have hfull : b.hasSpace = false := Bool.eq_false_iff.mpr (fun hs => hspace (h.hasSpace_iff.mp hs))
      rw [fifoStep,if_neg hspace,storeStep,QueueOp.call,LockLessRingBuffer.step,
        LockLessRingBuffer.push,hfull]
      exact ⟨h,rfl⟩
  | pop =>
    obtain ⟨popped,unread⟩ := q
    cases unread with
    | nil =>
      have hempty : b.empty = true := h.empty_iff.mpr rfl
      rw [fifoStep,storeStep,QueueOp.call,LockLessRingBuffer.step,LockLessRingBuffer.pop,hempty]
      exact ⟨h,rfl⟩
    | cons value unread =>
      obtain ⟨hnext,hanswer⟩ := h.pop
      exact ⟨hnext,hanswer.symm⟩

end Represents

/-- A run in which no push overwrites is one of the bounded queue. -/
theorem fifo_of_no_overwrite {mQueue : ℕ → Buffer} {ops : List (QueueOp Buffer)}
    (hops : Machine.StepsMeet storeStep (fun b op => ¬ Overwrites b op)
      (fresh queueLength mQueue) ops) :
    Machine.answers storeStep (fresh queueLength mQueue) ops =
      Machine.answers (fifoStep queueLength.toNat) {} ops := by
  apply Machine.answers_eq_of_stepsMeet (R := Represents) _ (represents_fresh mQueue) hops
  intro b q op h hop
  exact h.step hop

theorem not_overwrites_of_dvd (hdvd : queueLength.toNat ∣ UInt16.size) (op : QueueOp Buffer) :
    ¬ Overwrites b op := by
  cases op with
  | push value =>
    rintro ⟨_,hlt,_⟩
    rw [Nat.mod_eq_zero_of_dvd hdvd] at hlt
    exact Nat.not_lt_zero _ hlt
  | pop => exact id

section Failing
variable {x y : Buffer} {capacity r m n popped : ℕ}

/-- Elements that leave before the next one comes, and then some that stay. -/
def leadUp (x : Buffer) : ℕ → ℕ → List (QueueOp Buffer)
  | 0, n => List.replicate n (.push x)
  | m + 1, n => .push x :: .pop :: leadUp x m n

/-- A push comes while fewer than `r` elements are unread. -/
def Short (r : ℕ) (q : Fifo Buffer) : QueueOp Buffer → Prop
  | .push _ => q.unread.length < r
  | .pop => True

theorem pushes_short {unread : List Buffer} (hn : unread.length + n ≤ r) (hr : r ≤ capacity) :
    Machine.StepsMeet (fifoStep capacity) (Short r) ⟨popped,unread⟩
      (List.replicate n (.push x)) ∧
    Machine.final (fifoStep capacity) ⟨popped,unread⟩ (List.replicate n (.push x)) =
      ⟨popped,unread ++ List.replicate n x⟩ := by
  induction n generalizing unread with
  | zero => exact ⟨trivial,by simp [Machine.final]⟩
  | succ n ih =>
    have hpush : fifoStep capacity ⟨popped,unread⟩ (.push x) =
        (⟨popped,unread ++ [x]⟩,[.pushed true]) := if_pos (by dsimp only; omega)
    have hlist : unread ++ [x] ++ List.replicate n x = unread ++ List.replicate (n + 1) x := by
      rw [List.append_assoc,List.replicate_succ]
      rfl
    obtain ⟨hshort,hfinal⟩ := @ih (unread ++ [x]) (by simp; omega)
    rw [List.replicate_succ]
    refine ⟨⟨by dsimp only [Short]; omega,by rwa [hpush]⟩,?_⟩
    rw [Machine.final,List.foldl_cons,hpush,← hlist]
    exact hfinal

theorem leadUp_short (popped m : ℕ) (hn : n ≤ r) (hpos : 0 < r) (hr : r ≤ capacity) :
    Machine.StepsMeet (fifoStep capacity) (Short r) ⟨popped,[]⟩ (leadUp x m n) ∧
    Machine.final (fifoStep capacity) ⟨popped,[]⟩ (leadUp x m n) =
      ⟨popped + m,List.replicate n x⟩ := by
  induction m generalizing popped with
  | zero => exact pushes_short (by simpa using hn) hr
  | succ m ih =>
    have hpush : fifoStep capacity ⟨popped,[]⟩ (.push x) =
        (⟨popped,[x]⟩,[.pushed true]) := if_pos (by dsimp only [List.length_nil]; omega)
    obtain ⟨hshort,hfinal⟩ := ih (popped + 1)
    refine ⟨⟨hpos,trivial,by rwa [hpush]⟩,?_⟩
    rw [leadUp,Machine.final,List.foldl_cons,List.foldl_cons,hpush,← Nat.add_assoc,
      Nat.add_right_comm]
    exact hfinal

/-- With fewer elements unread than the remainder nothing is overwritten. -/
theorem Represents.final_of_short {q : Fifo Buffer} {ops : List (QueueOp Buffer)}
    (h : Represents b q)
    (hops : Machine.StepsMeet (fifoStep queueLength.toNat) (Short (UInt16.size % queueLength.toNat))
      q ops) :
    Represents (Machine.final storeStep b ops)
      (Machine.final (fifoStep queueLength.toNat) q ops) := by
  induction ops generalizing b q with
  | nil => exact h
  | cons op ops ih =>
    have hsafe : ¬ Overwrites b op := by
      cases op with
      | push value =>
        rintro ⟨_,_,hle⟩
        rw [h.toNat_size] at hle
        exact absurd hops.1 (Nat.not_lt.mpr hle)
      | pop => exact id
    exact ih (h.step hsafe).1 hops.2

/-- The remainder of the elements before the wrap are left unread, and one more comes. -/
def wrappingOps (queueLength : UInt16) (x y : Buffer) : List (QueueOp Buffer) :=
  leadUp x (UInt16.size - UInt16.size % queueLength.toNat) (UInt16.size % queueLength.toNat) ++
    [.push y,.pop]

/-- With the head at the wrap, the next element takes the slot of the oldest one. -/
theorem Represents.answers_overwritten (hpos : 0 < UInt16.size % queueLength.toNat)
    (hlt : UInt16.size % queueLength.toNat < queueLength.toNat)
    (h : Represents b ⟨UInt16.size - UInt16.size % queueLength.toNat,
      List.replicate (UInt16.size % queueLength.toNat) x⟩) :
    Machine.answers storeStep b [.push y,.pop] = [[.pushed true],[.popped (some y)]] := by
  have hle : UInt16.size % queueLength.toNat ≤ UInt16.size := Nat.mod_le ..
  have hslot : (b.mHead % queueLength).toNat = (b.mTail % queueLength).toNat := by
    rw [h.head_slot,h.tail_slot,List.length_replicate]
    apply (wrappedSlot_add_eq_iff hpos hlt (Nat.le_of_lt queueLength.toNat_lt)).mpr
    refine ⟨?_,rfl⟩
    rwa [Nat.sub_add_cancel hle,Nat.mod_self]
  have hspace : b.hasSpace = true := h.hasSpace_iff.mpr (by simpa using hlt)
  have hempty : (⟨b.mHead + 1,b.mTail,Function.update b.mQueue (b.mHead % queueLength).toNat y⟩ :
      LockLessRingBuffer queueLength Buffer).empty = false := by
    have hhead := h.head_eq
    have htail := h.tail_eq
    have hmax : queueLength.toNat < UInt16.size := queueLength.toNat_lt
    have hsize : UInt16.size = 65536 := rfl
    rw [List.length_replicate,Nat.sub_add_cancel hle,Nat.mod_self] at hhead
    dsimp only at htail
    rw [Nat.mod_eq_of_lt (by omega)] at htail
    rw [empty,decide_eq_false_iff_not,UInt16.toNat_add,hhead,htail,UInt16.toNat_one]
    omega
  change [(storeStep b (.push y)).2,(storeStep (storeStep b (.push y)).1 .pop).2] = _
  rw [storeStep_push hspace,storeStep_pop hempty,hslot]
  simp

/-- The queue hands out the oldest element. -/
theorem answers_fifo_oldest (hpos : 0 < r) (hlt : r < capacity) :
    Machine.answers (fifoStep capacity) ⟨popped,List.replicate r x⟩ [.push y,.pop] =
      [[.pushed true],[.popped (some x)]] := by
  obtain ⟨r,rfl⟩ := Nat.exists_eq_add_one.mpr hpos
  have hpush : fifoStep capacity ⟨popped,List.replicate (r + 1) x⟩ (.push y) =
      (⟨popped,List.replicate (r + 1) x ++ [y]⟩,[.pushed true]) := if_pos (by simpa using hlt)
  change [(fifoStep _ _ _).2,(fifoStep _ (fifoStep _ _ _).1 _).2] = _
  rw [hpush,List.replicate_succ]
  rfl

/-- The lead-up is that of a queue, and the two answers after it are not. -/
theorem wrappingOps_not_fifo (hL : 0 < queueLength.toNat) (hdvd : ¬ queueLength.toNat ∣ UInt16.size)
    (hxy : x ≠ y) (mQueue : ℕ → Buffer) :
    Machine.answers storeStep (fresh queueLength mQueue) (wrappingOps queueLength x y) ≠
      Machine.answers (fifoStep queueLength.toNat) {} (wrappingOps queueLength x y) := by
  have hlt : UInt16.size % queueLength.toNat < queueLength.toNat := Nat.mod_lt _ hL
  have hpos : 0 < UInt16.size % queueLength.toNat := by
    apply Nat.pos_of_ne_zero
    intro hzero
    exact hdvd (Nat.dvd_of_mod_eq_zero hzero)
  obtain ⟨hshort,hfinal⟩ := leadUp_short (x := x) 0
    (UInt16.size - UInt16.size % queueLength.toNat) (Nat.le_refl _) hpos (Nat.le_of_lt hlt)
  rw [Nat.zero_add] at hfinal
  have hring := (represents_fresh mQueue).final_of_short hshort
  intro hanswers
  rw [wrappingOps,Machine.answers_append,Machine.answers_append] at hanswers
  have hlast := (List.append_inj hanswers (by rw [Machine.length_answers,Machine.length_answers])).2
  rw [hfinal] at hring hlast
  rw [hring.answers_overwritten hpos hlt,answers_fifo_oldest hpos hlt] at hlast
  simp only [List.cons.injEq,Outcome.popped.injEq,Option.some.injEq,and_true,true_and] at hlast
  exact hxy hlast.symm

end Failing

/-- The buffer is a queue over every run in which no push overwrites; it is one over
all runs exactly for the lengths that divide the range of the counters. -/
theorem lockLess_fifo [Nontrivial Buffer] (hL : 0 < queueLength) :
    (∀ (mQueue : ℕ → Buffer) ops,
      Machine.StepsMeet storeStep (fun b op => ¬ Overwrites b op) (fresh queueLength mQueue) ops →
      Machine.answers storeStep (fresh queueLength mQueue) ops =
        Machine.answers (fifoStep queueLength.toNat) {} ops) ∧
    ((∀ (mQueue : ℕ → Buffer) ops, Machine.answers storeStep (fresh queueLength mQueue) ops =
        Machine.answers (fifoStep queueLength.toNat) {} ops) ↔
      queueLength.toNat ∣ UInt16.size) := by
  refine ⟨fun _ _ => fifo_of_no_overwrite,fun hall => ?_,fun hdvd _ _ => ?_⟩
  · by_contra hdvd
    obtain ⟨x,y,hxy⟩ := exists_pair_ne Buffer
    exact wrappingOps_not_fifo hL hdvd hxy (fun _ => x) (hall _ _)
  · apply fifo_of_no_overwrite
    exact Machine.stepsMeet_of_all (fun _ _ => not_overwrites_of_dvd hdvd _)

theorem lockLess_fifo_four :
    Machine.answers storeStep (fresh 4 (fun _ => 0)) (wrappingOps 4 0 1) =
      Machine.answers (fifoStep 4) {} (wrappingOps 4 0 1) :=
  (lockLess_fifo (by decide)).2.mpr (by decide) _ _

/-- With three slots: after 65535 zeros that come and go, a zero is left unread and a one
is pushed, and the pop hands out the one. -/
theorem lockLess_three_not_fifo :
    Machine.answers storeStep (fresh 3 (fun _ => 0)) (wrappingOps 3 0 1) ≠
      Machine.answers (fifoStep 3) {} (wrappingOps 3 0 1) :=
  wrappingOps_not_fifo (by decide) (by decide) (by decide) _

end LockLessRingBuffer
end Moboware
