import Moboware.Common.LockLessCounting
import Moboware.Common.LockLessThreads

/-! # One producer and one consumer

One thread pushes a stream of values, one after the other, and another pops again and
again; their atomic steps interleave in any way. The claims need no guard then. The two
callbacks do: a position can be popped before its push function has run, and its slot can
be pushed to again before its pop function has.
-/
namespace Moboware
open Library

inductive Role
  | producer
  | consumer
  deriving DecidableEq

namespace Event
variable {Thread Buffer : Type*}

/-- A push function has stored its value. -/
def stored : Event Thread Buffer → Bool
  | .ranPushFn _ success => success
  | _ => false

/-- The element that a pop function is called on. -/
def element : Event Thread Buffer → Option Buffer
  | .ranPopFn _ element => some element
  | _ => none

end Event

/-- The two threads, with the numbers of push and pop functions that have run. -/
structure Pipe (queueLength : UInt16) (Buffer : Type*) where
  threads : Concurrent queueLength Role Buffer
  produced : ℕ := 0
  consumed : ℕ := 0

namespace Pipe
variable {queueLength : UInt16} {Buffer : Type*}

/-- What a thread does next; outside of a call it calls again. -/
def next (values : ℕ → Buffer) (s : Pipe queueLength Buffer) : Role → Action Role Buffer
  | .producer =>
    match s.threads.phase .producer with
    | .idle => .push .producer (LockLessRingBuffer.storing (values s.produced))
    | _ => .advance .producer
  | .consumer =>
    match s.threads.phase .consumer with
    | .idle => .pop .consumer
    | _ => .advance .consumer

def step (values : ℕ → Buffer) : Machine (Pipe queueLength Buffer) Role Buffer
  | s, role =>
    let (threads,events) := Concurrent.step s.threads (s.next values role)
    (⟨threads,s.produced + events.countP Event.stored,
      s.consumed + (events.filterMap Event.element).length⟩,events.filterMap Event.element)

/-- No call yet, with whatever the slots hold. -/
def start (queueLength : UInt16) (mQueue : ℕ → Buffer) : Pipe queueLength Buffer :=
  { threads := { ring := LockLessRingBuffer.fresh queueLength mQueue } }

/-- The positions that are claimed by pushes. -/
def heads (s : Pipe queueLength Buffer) : ℕ :=
  s.produced + (s.threads.phase .producer).pushing.toList.length

/-- The positions that are claimed by pops. -/
def tails (s : Pipe queueLength Buffer) : ℕ :=
  s.consumed + (s.threads.phase .consumer).popping.toList.length

def slot (queueLength : UInt16) (n : ℕ) : ℕ := wrappedSlot UInt16.size queueLength.toNat n

/-- The slots after so many push functions. -/
def written (queueLength : UInt16) (values mQueue : ℕ → Buffer) : ℕ → ℕ → Buffer
  | 0 => mQueue
  | n + 1 => Function.update (written queueLength values mQueue n) (slot queueLength n) (values n)

/-- A pop function runs when the push function of its position has run and none of a later
position in the same slot. -/
def Timely (s : Pipe queueLength Buffer) : Role → Prop
  | .producer => True
  | .consumer =>
    match s.threads.phase .consumer with
    | .popClaimed _ => s.consumed < s.produced ∧
        ∀ k < s.produced, s.consumed < k → slot queueLength k ≠ slot queueLength s.consumed
    | _ => True

/-! ### What the slots hold -/

section Slots
variable {values mQueue : ℕ → Buffer} {n : ℕ}

theorem written_of_later {produced : ℕ}
    (h : ∀ k < produced, n < k → slot queueLength k ≠ slot queueLength n) (hn : n < produced) :
    written queueLength values mQueue produced (slot queueLength n) = values n := by
  induction produced with
  | zero => exact absurd hn (Nat.not_lt_zero n)
  | succ produced ih =>
    rw [written]
    by_cases heq : n = produced
    · rw [heq,Function.update_self]
    · have hlt : n < produced := by omega
      rw [Function.update_of_ne (h produced (Nat.lt_succ_self produced) hlt).symm]
      exact ih (fun k hk => h k (Nat.lt_succ_of_lt hk)) hlt

/-- With values that can be told apart, and from what the slots held at first, the value is
there in no other case. -/
theorem written_eq_iff (hvalues : Function.Injective values) (hnew : ∀ i k, mQueue i ≠ values k)
    (produced n : ℕ) :
    written queueLength values mQueue produced (slot queueLength n) = values n ↔
      n < produced ∧ ∀ k < produced, n < k → slot queueLength k ≠ slot queueLength n := by
  induction produced with
  | zero => simp [written,hnew]
  | succ produced ih =>
    rw [written]
    by_cases hslot : slot queueLength produced = slot queueLength n
    · rw [hslot,Function.update_self,hvalues.eq_iff]
      constructor
      · rintro rfl
        exact ⟨Nat.lt_succ_self _,fun k hk hlt => absurd hk (by omega)⟩
      · rintro ⟨hlt,hlater⟩
        by_contra hne
        exact hlater produced (Nat.lt_succ_self produced) (by omega) hslot
    · have hne : n ≠ produced := fun heq => hslot (heq ▸ rfl)
      rw [Function.update_of_ne (Ne.symm hslot),ih]
      refine and_congr (by omega) ?_
      constructor
      · intro h k hk hlt
        rcases Nat.lt_succ_iff_lt_or_eq.mp hk with hk | rfl
        · exact h k hk hlt
        · exact hslot
      · exact fun h k hk => h k (Nat.lt_succ_of_lt hk)

end Slots

/-! ### What the threads know -/

/-- What the producer has found still holds: nobody else moves the head, and the consumer
only makes space. -/
def ProducerAt (values : ℕ → Buffer) (s : Pipe queueLength Buffer) : Phase Buffer → Prop
  | .idle => True
  | .pushLoadedHead pushFn head =>
    pushFn = LockLessRingBuffer.storing (values s.produced) ∧ head = s.threads.ring.mHead
  | .pushHasSpace pushFn =>
    pushFn = LockLessRingBuffer.storing (values s.produced) ∧
      s.heads < s.tails + queueLength.toNat
  | .pushClaimed pushFn head =>
    pushFn = LockLessRingBuffer.storing (values s.produced) ∧
      head.toNat = s.produced % UInt16.size
  | _ => False

/-- The head that the consumer has loaded may be an older one. -/
def ConsumerAt (s : Pipe queueLength Buffer) : Phase Buffer → Prop
  | .idle => True
  | .popLoadedHead head => ∃ n, head.toNat = n % UInt16.size ∧ s.tails ≤ n ∧ n ≤ s.heads
  | .popNotEmpty => s.tails < s.heads
  | .popClaimed tail => tail.toNat = s.consumed % UInt16.size
  | _ => False

/-- The counters are those of the claims, which never overrun. -/
structure Runs (values mQueue : ℕ → Buffer) (s : Pipe queueLength Buffer) : Prop where
  counters : s.threads.ring.CountersAt s.tails s.heads
  slots : s.threads.ring.mQueue = written queueLength values mQueue s.produced
  producer : s.ProducerAt values (s.threads.phase .producer)
  consumer : s.ConsumerAt (s.threads.phase .consumer)

section Steps
variable {values mQueue : ℕ → Buffer} {s : Pipe queueLength Buffer}

theorem runs_start (mQueue : ℕ → Buffer) : (start queueLength mQueue).Runs values mQueue :=
  ⟨⟨rfl,rfl,Nat.le_refl 0,Nat.zero_le _⟩,rfl,trivial,trivial⟩

/-- Steps of the consumer take nothing from the producer. -/
theorem ProducerAt.mono {s' : Pipe queueLength Buffer} {phase : Phase Buffer}
    (h : s.ProducerAt values phase) (hproduced : s'.produced = s.produced)
    (hhead : s'.threads.ring.mHead = s.threads.ring.mHead) (hheads : s'.heads = s.heads)
    (htails : s.tails ≤ s'.tails) : s'.ProducerAt values phase := by
  cases phase with
  | idle => trivial
  | pushLoadedHead pushFn head => simpa [ProducerAt,hproduced,hhead] using h
  | pushHasSpace pushFn =>
    refine ⟨hproduced ▸ h.1,?_⟩
    have hspace := h.2
    omega
  | pushClaimed pushFn head => simpa [ProducerAt,hproduced] using h
  | popLoadedHead head => exact h
  | popNotEmpty => exact h
  | popClaimed tail => exact h

theorem ConsumerAt.mono {s' : Pipe queueLength Buffer} {phase : Phase Buffer}
    (h : s.ConsumerAt phase) (hconsumed : s'.consumed = s.consumed)
    (htails : s'.tails = s.tails) (hheads : s.heads ≤ s'.heads) : s'.ConsumerAt phase := by
  cases phase with
  | idle => trivial
  | pushLoadedHead pushFn head => exact h
  | pushHasSpace pushFn => exact h
  | pushClaimed pushFn head => exact h
  | popLoadedHead head =>
    obtain ⟨n,hn,hle,hge⟩ := h
    exact ⟨n,hn,htails ▸ hle,hge.trans hheads⟩
  | popNotEmpty =>
    have hlt : s.tails < s.heads := h
    show s'.tails < s'.heads
    omega
  | popClaimed tail => simpa [ConsumerAt,hconsumed] using h

/-- After a step of the producer, with its new phase. -/
def producerGoes (s : Pipe queueLength Buffer) (ring : LockLessRingBuffer queueLength Buffer)
    (phase : Phase Buffer) (produced : ℕ) : Pipe queueLength Buffer :=
  ⟨⟨ring,Function.update s.threads.phase .producer phase⟩,produced,s.consumed⟩

def consumerGoes (s : Pipe queueLength Buffer) (ring : LockLessRingBuffer queueLength Buffer)
    (phase : Phase Buffer) (consumed : ℕ) : Pipe queueLength Buffer :=
  ⟨⟨ring,Function.update s.threads.phase .consumer phase⟩,s.produced,consumed⟩

section Goes
variable (ring : LockLessRingBuffer queueLength Buffer) (phase : Phase Buffer) (n : ℕ)

@[simp] theorem heads_producerGoes :
    (s.producerGoes ring phase n).heads = n + phase.pushing.toList.length := by
  simp [heads,producerGoes]

@[simp] theorem tails_producerGoes : (s.producerGoes ring phase n).tails = s.tails := by
  simp [tails,producerGoes]

@[simp] theorem heads_consumerGoes : (s.consumerGoes ring phase n).heads = s.heads := by
  simp [heads,consumerGoes]

@[simp] theorem tails_consumerGoes :
    (s.consumerGoes ring phase n).tails = n + phase.popping.toList.length := by
  simp [tails,consumerGoes]

end Goes

theorem Runs.after_producer (h : s.Runs values mQueue)
    {ring : LockLessRingBuffer queueLength Buffer} {phase : Phase Buffer} {produced : ℕ}
    (hcounters : ring.CountersAt s.tails (produced + phase.pushing.toList.length))
    (hheads : s.heads ≤ produced + phase.pushing.toList.length)
    (hslots : ring.mQueue = written queueLength values mQueue produced)
    (hproducer : (s.producerGoes ring phase produced).ProducerAt values phase) :
    (s.producerGoes ring phase produced).Runs values mQueue := by
  refine ⟨?_,hslots,?_,?_⟩
  · rw [tails_producerGoes,heads_producerGoes]
    exact hcounters
  · simpa [producerGoes] using hproducer
  · have hconsumer : (s.producerGoes ring phase produced).ConsumerAt (s.threads.phase .consumer) :=
      h.consumer.mono rfl (by simp) (by simpa using hheads)
    simpa [producerGoes] using hconsumer

theorem Runs.after_consumer (h : s.Runs values mQueue)
    {ring : LockLessRingBuffer queueLength Buffer} {phase : Phase Buffer} {consumed : ℕ}
    (hcounters : ring.CountersAt (consumed + phase.popping.toList.length) s.heads)
    (htails : s.tails ≤ consumed + phase.popping.toList.length)
    (hhead : ring.mHead = s.threads.ring.mHead) (hslots : ring.mQueue = s.threads.ring.mQueue)
    (hconsumer : (s.consumerGoes ring phase consumed).ConsumerAt phase) :
    (s.consumerGoes ring phase consumed).Runs values mQueue := by
  refine ⟨?_,hslots.trans h.slots,?_,?_⟩
  · rw [tails_consumerGoes,heads_consumerGoes]
    exact hcounters
  · have hproducer :
        (s.consumerGoes ring phase consumed).ProducerAt values (s.threads.phase .producer) :=
      h.producer.mono rfl hhead (by simp) (by simpa using htails)
    simpa [consumerGoes] using hproducer
  · simpa [consumerGoes] using hconsumer

/-- A step of the producer keeps the invariant and hands nothing out. -/
theorem Runs.producer_step (h : s.Runs values mQueue) :
    (step values s .producer).1.Runs values mQueue ∧ (step values s .producer).2 = [] := by
  have hproducer := h.producer
  cases hphase : s.threads.phase .producer with
  | idle =>
    have hheads : s.heads = s.produced := by simp [heads,hphase,Phase.pushing]
    have hstep : step values s .producer = (s.producerGoes s.threads.ring
        (.pushLoadedHead (LockLessRingBuffer.storing (values s.produced)) s.threads.ring.mHead)
        s.produced,[]) := by
      simp [step,next,hphase,Concurrent.step,Concurrent.goto,producerGoes]
    rw [hstep]
    exact ⟨h.after_producer (hheads ▸ h.counters) (Nat.le_of_eq hheads) h.slots ⟨rfl,rfl⟩,rfl⟩
  | pushLoadedHead pushFn head =>
    obtain ⟨hpush,hhead⟩ : pushFn = _ ∧ head = _ := by simpa [ProducerAt,hphase] using hproducer
    have hheads : s.heads = s.produced := by simp [heads,hphase,Phase.pushing]
    by_cases hspace : head - s.threads.ring.mTail < s.threads.ring.capacity
    · have hstep : step values s .producer =
          (s.producerGoes s.threads.ring (.pushHasSpace pushFn) s.produced,[]) := by
        simp [step,next,hphase,Concurrent.step,Concurrent.advance,hspace,Concurrent.goto,
          producerGoes]
      rw [hstep]
      refine ⟨h.after_producer (hheads ▸ h.counters) (Nat.le_of_eq hheads) h.slots
        ⟨hpush,?_⟩,rfl⟩
      rw [hhead] at hspace
      have hfound : s.threads.ring.hasSpace = true := decide_eq_true hspace
      simpa [hheads,Phase.pushing] using h.counters.hasSpace_iff.mp hfound
    · have hstep : step values s .producer =
          (s.producerGoes s.threads.ring .idle s.produced,[]) := by
        simp [step,next,hphase,Concurrent.step,Concurrent.advance,hspace,Concurrent.goto,
          producerGoes,Event.stored,Event.element]
      rw [hstep]
      exact ⟨h.after_producer (hheads ▸ h.counters) (Nat.le_of_eq hheads) h.slots trivial,rfl⟩
  | pushHasSpace pushFn =>
    obtain ⟨hpush,hspace⟩ : pushFn = _ ∧ s.heads < _ := by
      simpa [ProducerAt,hphase] using hproducer
    have hheads : s.heads = s.produced := by simp [heads,hphase,Phase.pushing]
    have hstep : step values s .producer = (s.producerGoes
        { s.threads.ring with mHead := s.threads.ring.mHead + 1 }
        (.pushClaimed pushFn s.threads.ring.mHead) s.produced,[]) := by
      simp [step,next,hphase,Concurrent.step,Concurrent.advance,Concurrent.goto,
        Concurrent.withRing,producerGoes,Event.stored,Event.element]
    rw [hstep]
    have hcounters := h.counters
    have hclaimed := hcounters.push pushFn (hcounters.hasSpace_iff.mpr hspace)
    rw [hheads] at hcounters hclaimed
    refine ⟨h.after_producer ⟨?_,?_,hclaimed.popped_le,hclaimed.pushed_le⟩
      (hheads ▸ Nat.le_succ _) h.slots ⟨hpush,hcounters.head_eq⟩,rfl⟩
    · exact hcounters.tail_eq
    · rw [← LockLessRingBuffer.push_mHead pushFn (h.counters.hasSpace_iff.mpr hspace)]
      exact hclaimed.head_eq
  | pushClaimed pushFn head =>
    obtain ⟨hpush,hhead⟩ : pushFn = _ ∧ head.toNat = _ := by
      simpa [ProducerAt,hphase] using hproducer
    have hheads : s.heads = s.produced + 1 := by simp [heads,hphase,Phase.pushing]
    have hstep : step values s .producer = (s.producerGoes
        (s.threads.ring.callPushFn pushFn head).1 .idle (s.produced + 1),[]) := by
      simp [step,next,hphase,Concurrent.step,Concurrent.advance,Concurrent.goto,
        Concurrent.withRing,producerGoes,Event.stored,Event.element,hpush,
        LockLessRingBuffer.callPushFn,LockLessRingBuffer.storing]
    rw [hstep]
    have hcounters := h.counters
    rw [hheads] at hcounters
    refine ⟨h.after_producer ⟨hcounters.tail_eq,hcounters.head_eq,hcounters.popped_le,
      hcounters.pushed_le⟩ (Nat.le_of_eq hheads) ?_ trivial,rfl⟩
    have hslot : (head % queueLength).toNat = slot queueLength s.produced := by
      rw [UInt16.toNat_mod,hhead,slot,wrappedSlot]
    simp only [LockLessRingBuffer.callPushFn,LockLessRingBuffer.storing,hpush,hslot,h.slots,
      written]
  | popLoadedHead head =>
    rw [hphase] at hproducer
    exact hproducer.elim
  | popNotEmpty =>
    rw [hphase] at hproducer
    exact hproducer.elim
  | popClaimed tail =>
    rw [hphase] at hproducer
    exact hproducer.elim

/-- What a step of the consumer hands out. -/
def handedOut (values mQueue : ℕ → Buffer) (s : Pipe queueLength Buffer) : List Buffer :=
  match s.threads.phase .consumer with
  | .popClaimed _ => [written queueLength values mQueue s.produced (slot queueLength s.consumed)]
  | _ => []

theorem Runs.consumer_step (h : s.Runs values mQueue) :
    (step values s .consumer).1.Runs values mQueue ∧
      (step values s .consumer).2 = s.handedOut values mQueue := by
  have hconsumer := h.consumer
  rw [handedOut]
  cases hphase : s.threads.phase .consumer with
  | idle =>
    have htails : s.tails = s.consumed := by simp [tails,hphase,Phase.popping]
    have hstep : step values s .consumer =
        (s.consumerGoes s.threads.ring (.popLoadedHead s.threads.ring.mHead) s.consumed,[]) := by
      simp [step,next,hphase,Concurrent.step,Concurrent.goto,consumerGoes]
    rw [hstep]
    refine ⟨h.after_consumer (htails ▸ h.counters) (Nat.le_of_eq htails) rfl rfl
      ⟨s.heads,h.counters.head_eq,?_,?_⟩,rfl⟩
    · simpa [htails,Phase.popping] using h.counters.popped_le
    · rw [heads_consumerGoes]
  | popLoadedHead head =>
    obtain ⟨n,hn,hle,hge⟩ : ∃ n, _ := by simpa [ConsumerAt,hphase] using hconsumer
    have htails : s.tails = s.consumed := by simp [tails,hphase,Phase.popping]
    by_cases hempty : (head.toNat : Int) - s.threads.ring.mTail.toNat = 0
    · have hstep : step values s .consumer =
          (s.consumerGoes s.threads.ring .idle s.consumed,[]) := by
        simp [step,next,hphase,Concurrent.step,Concurrent.advance,hempty,Concurrent.goto,
          consumerGoes,Event.stored,Event.element]
      rw [hstep]
      exact ⟨h.after_consumer (htails ▸ h.counters) (Nat.le_of_eq htails) rfl rfl trivial,rfl⟩
    · have hstep : step values s .consumer =
          (s.consumerGoes s.threads.ring .popNotEmpty s.consumed,[]) := by
        simp [step,next,hphase,Concurrent.step,Concurrent.advance,hempty,Concurrent.goto,
          consumerGoes]
      rw [hstep]
      refine ⟨h.after_consumer (htails ▸ h.counters) (Nat.le_of_eq htails) rfl rfl ?_,rfl⟩
      have htail := h.counters.tail_eq
      have hne : s.tails ≠ n := fun heq => hempty (by rw [hn,htail,heq]; omega)
      have hlt : s.consumed < s.heads := by omega
      simpa [ConsumerAt,Phase.popping] using hlt
  | popNotEmpty =>
    have hlt : s.tails < s.heads := by simpa [ConsumerAt,hphase] using hconsumer
    have htails : s.tails = s.consumed := by simp [tails,hphase,Phase.popping]
    have hstep : step values s .consumer = (s.consumerGoes
        { s.threads.ring with mTail := s.threads.ring.mTail + 1 }
        (.popClaimed s.threads.ring.mTail) s.consumed,[]) := by
      simp [step,next,hphase,Concurrent.step,Concurrent.advance,Concurrent.goto,
        Concurrent.withRing,consumerGoes,Event.stored,Event.element]
    have hcounters := h.counters
    have hfound : s.threads.ring.empty = false := by
      rw [← Bool.not_eq_true,hcounters.empty_iff]
      exact Nat.ne_of_lt hlt
    have hclaimed := hcounters.pop hfound
    rw [LockLessRingBuffer.pop,hfound] at hclaimed
    rw [hstep]
    rw [htails] at hcounters hclaimed
    exact ⟨h.after_consumer hclaimed (htails ▸ Nat.le_succ _) rfl rfl hcounters.tail_eq,rfl⟩
  | popClaimed tail =>
    have htail : tail.toNat = s.consumed % UInt16.size := by
      simpa [ConsumerAt,hphase] using hconsumer
    have htails : s.tails = s.consumed + 1 := by simp [tails,hphase,Phase.popping]
    have hslot : (tail % queueLength).toNat = slot queueLength s.consumed := by
      rw [UInt16.toNat_mod,htail,slot,wrappedSlot]
    have hstep : step values s .consumer =
        (s.consumerGoes s.threads.ring .idle (s.consumed + 1),
          [s.threads.ring.mQueue (slot queueLength s.consumed)]) := by
      simp [step,next,hphase,Concurrent.step,Concurrent.advance,Concurrent.goto,consumerGoes,
        Event.stored,Event.element,hslot]
    rw [hstep,h.slots]
    exact ⟨h.after_consumer (htails ▸ h.counters) (Nat.le_of_eq htails) rfl rfl trivial,rfl⟩
  | pushLoadedHead pushFn head =>
    rw [hphase] at hconsumer
    exact hconsumer.elim
  | pushHasSpace pushFn =>
    rw [hphase] at hconsumer
    exact hconsumer.elim
  | pushClaimed pushFn head =>
    rw [hphase] at hconsumer
    exact hconsumer.elim

theorem Runs.step (h : s.Runs values mQueue) (role : Role) :
    (step values s role).1.Runs values mQueue := by
  cases role with
  | producer => exact h.producer_step.1
  | consumer => exact h.consumer_step.1

/-- What the step hands out are the values of the next numbers. -/
def InOrder (values : ℕ → Buffer) (s : Pipe queueLength Buffer) (role : Role) : Prop :=
  (step values s role).2 = (List.range' s.consumed (step values s role).2.length).map values

theorem Runs.inOrder_of_timely (h : s.Runs values mQueue) {role : Role} (ht : s.Timely role) :
    s.InOrder values role := by
  cases role with
  | producer => simp [InOrder,h.producer_step.2]
  | consumer =>
    rw [InOrder,h.consumer_step.2]
    cases hphase : s.threads.phase .consumer with
    | popClaimed tail =>
      obtain ⟨hlt,hlater⟩ : _ ∧ _ := by simpa only [Timely,hphase] using ht
      simp [handedOut,hphase,written_of_later hlater hlt]
    | _ => simp [handedOut,hphase]

theorem Runs.inOrder_iff (h : s.Runs values mQueue) (hvalues : Function.Injective values)
    (hnew : ∀ i k, mQueue i ≠ values k) (role : Role) :
    s.InOrder values role ↔ s.Timely role := by
  refine ⟨fun hin => ?_,h.inOrder_of_timely⟩
  cases role with
  | producer => trivial
  | consumer =>
    rw [InOrder,h.consumer_step.2] at hin
    cases hphase : s.threads.phase .consumer with
    | popClaimed tail =>
      simp only [handedOut,hphase] at hin
      simpa [Timely,hphase] using (written_eq_iff hvalues hnew _ _).mp (by simpa using hin)
    | _ => simp [Timely,hphase]

end Steps

/-- The consumer is handed what the one slot held before the push, or what the next push has
stored in it. -/
example :
    let early := [Role.producer,.producer,.producer,.consumer,.consumer,.consumer,.consumer]
    let late := List.replicate 4 Role.producer ++ List.replicate 3 .consumer ++
      List.replicate 4 .producer ++ [.consumer]
    (Machine.answers (step (fun n => n + 1)) (start 1 (fun _ => 0)) early).flatten = [0] ∧
      (Machine.answers (step (fun n => n + 1)) (start 1 (fun _ => 0)) late).flatten = [2] := by
  decide

end Pipe
end Moboware
