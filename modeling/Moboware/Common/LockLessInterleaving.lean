import Moboware.Common.LockLessClaims

/-! # Interleavings on the lock-less ring buffer

A step of a thread is one of the claims, or settles one. The counts are right in every
state exactly over the runs in which every claim still finds what its check found.
-/
namespace Moboware
open Library

namespace Concurrent
variable {queueLength : UInt16} {Thread Buffer : Type*} [DecidableEq Thread]
  {s : Concurrent queueLength Thread Buffer} {ledger : ClaimLedger Thread}

def positions (s : Concurrent queueLength Thread Buffer) (ledger : ClaimLedger Thread) :
    Positions Thread where
  head := s.ring.mHead
  tail := s.ring.mTail
  pushing t := (s.phase t).pushing
  popping t := (s.phase t).popping
  ledger := ledger

/-- A claim still finds what its check found: there is space for the head, and the tail is
not at the head and at no position whose push function is still to run. -/
def Guarded (s : Concurrent queueLength Thread Buffer) : Action Thread Buffer → Prop
  | .push _ _ => True
  | .pop _ => True
  | .advance thread =>
    match s.phase thread with
    | .pushHasSpace _ => s.ring.hasSpace
    | .popNotEmpty => ¬ s.ring.empty ∧ ∀ t, (s.phase t).pushing ≠ some s.ring.mTail
    | _ => True

theorem pushing_goto (s : Concurrent queueLength Thread Buffer) (thread : Thread)
    (phase : Phase Buffer) : (fun t => ((s.goto thread phase).phase t).pushing) =
      Function.update (fun t => (s.phase t).pushing) thread phase.pushing := by
  funext t
  exact Function.apply_update (fun _ => Phase.pushing) s.phase thread phase t

theorem popping_goto (s : Concurrent queueLength Thread Buffer) (thread : Thread)
    (phase : Phase Buffer) : (fun t => ((s.goto thread phase).phase t).popping) =
      Function.update (fun t => (s.phase t).popping) thread phase.popping := by
  funext t
  exact Function.apply_update (fun _ => Phase.popping) s.phase thread phase t

theorem positions_goto (s : Concurrent queueLength Thread Buffer) (thread : Thread)
    (phase : Phase Buffer) : (s.goto thread phase).positions ledger =
      { s.positions ledger with
        pushing := Function.update (s.positions ledger).pushing thread phase.pushing
        popping := Function.update (s.positions ledger).popping thread phase.popping } := by
  rw [positions,pushing_goto,popping_goto]
  rfl

/-- A thread that claims nothing before and after changes no positions. -/
theorem positions_goto_same {thread : Thread} {phase : Phase Buffer}
    (hpush : phase.pushing = (s.phase thread).pushing)
    (hpop : phase.popping = (s.phase thread).popping) :
    (s.goto thread phase).positions ledger = s.positions ledger := by
  rw [positions_goto,hpush,hpop]
  simp only [positions,Function.update_eq_self]

/-- The claims after an action. -/
def next (s : Concurrent queueLength Thread Buffer) (ledger : ClaimLedger Thread)
    (action : Action Thread Buffer) : Positions Thread :=
  (step s action).1.positions (ledger.see action (step s action).2)

theorem settles_of_goto {thread : Thread} {phase : Phase Buffer} {action : Action Thread Buffer}
    {events : List (Event Thread Buffer)} (hstep : step s action = (s.goto thread phase,events))
    (hevents : ledger.see action events = ledger)
    (hpush : phase.pushing = (s.phase thread).pushing)
    (hpop : phase.popping = (s.phase thread).popping) :
    (s.positions ledger).Settles (s.next ledger action) := by
  rw [next,hstep]
  dsimp only
  rw [hevents,positions_goto_same hpush hpop]
  exact Or.inl rfl

/-- A step between two phases of a push leaves what the thread pops as it is. -/
theorem positions_goto_push {thread : Thread} {phase : Phase Buffer}
    (hold : (s.phase thread).popping = none) (hnew : phase.popping = none) :
    (s.goto thread phase).positions ledger =
      { s.positions ledger with
        pushing := Function.update (s.positions ledger).pushing thread phase.pushing } := by
  rw [positions_goto,hnew,← hold]
  simp only [positions,Function.update_eq_self]

theorem positions_goto_pop {thread : Thread} {phase : Phase Buffer}
    (hold : (s.phase thread).pushing = none) (hnew : phase.pushing = none) :
    (s.goto thread phase).positions ledger =
      { s.positions ledger with
        popping := Function.update (s.positions ledger).popping thread phase.popping } := by
  rw [positions_goto,hnew,← hold]
  simp only [positions,Function.update_eq_self]

/-- What a step of a thread can do to the claims. -/
theorem advance_cases (s : Concurrent queueLength Thread Buffer) (ledger : ClaimLedger Thread)
    (thread : Thread) :
    (s.Guarded (.advance thread) ∧
      (s.positions ledger).Settles (s.next ledger (.advance thread))) ∨
    (∃ pushFn, s.phase thread = .pushHasSpace pushFn ∧
      s.next ledger (.advance thread) = (s.positions ledger).claimHead thread) ∨
    (s.phase thread = .popNotEmpty ∧
      s.next ledger (.advance thread) = (s.positions ledger).claimTail thread) := by
  cases hphase : s.phase thread with
  | idle =>
    refine Or.inl ⟨by simp [Guarded,hphase],Or.inl ?_⟩
    rw [next,step,advance,hphase]
    rfl
  | pushLoadedHead pushFn head =>
    refine Or.inl ⟨by simp [Guarded,hphase],?_⟩
    by_cases hspace : head - s.ring.mTail < s.ring.capacity
    · have hstep : step s (.advance thread) = (s.goto thread (.pushHasSpace pushFn),[]) := by
        rw [step,advance,hphase]
        exact if_pos hspace
      exact settles_of_goto hstep rfl (by rw [hphase]; rfl) (by rw [hphase]; rfl)
    · have hstep : step s (.advance thread) = (s.goto thread .idle,[.refused thread]) := by
        rw [step,advance,hphase]
        exact if_neg hspace
      exact settles_of_goto hstep rfl (by rw [hphase]; rfl) (by rw [hphase]; rfl)
  | pushHasSpace pushFn =>
    refine Or.inr (Or.inl ⟨pushFn,rfl,?_⟩)
    rw [next,step,advance,hphase]
    exact positions_goto_push (congrArg Phase.popping hphase) rfl
  | pushClaimed pushFn head =>
    refine Or.inl ⟨by simp [Guarded,hphase],Or.inr (Or.inl ⟨thread,head,?_,?_⟩)⟩
    · exact congrArg Phase.pushing hphase
    · rw [next,step,advance,hphase]
      exact positions_goto_push (congrArg Phase.popping hphase) rfl
  | popLoadedHead head =>
    refine Or.inl ⟨by simp [Guarded,hphase],?_⟩
    by_cases hempty : (head.toNat : Int) - s.ring.mTail.toNat = 0
    · have hstep : step s (.advance thread) = (s.goto thread .idle,[.refused thread]) := by
        rw [step,advance,hphase]
        exact if_pos hempty
      exact settles_of_goto hstep rfl (by rw [hphase]; rfl) (by rw [hphase]; rfl)
    · have hstep : step s (.advance thread) = (s.goto thread .popNotEmpty,[]) := by
        rw [step,advance,hphase]
        exact if_neg hempty
      exact settles_of_goto hstep rfl (by rw [hphase]; rfl) (by rw [hphase]; rfl)
  | popNotEmpty =>
    refine Or.inr (Or.inr ⟨rfl,?_⟩)
    rw [next,step,advance,hphase]
    exact positions_goto_pop (congrArg Phase.pushing hphase) rfl
  | popClaimed tail =>
    refine Or.inl ⟨by simp [Guarded,hphase],Or.inr (Or.inr ⟨thread,?_⟩)⟩
    rw [next,step,advance,hphase]
    exact positions_goto_pop (congrArg Phase.pushing hphase) rfl

/-- A call loads the head, or does nothing when the thread is in a call. -/
theorem call_settles {action : Action Thread Buffer} (h : ∀ thread, action ≠ .advance thread) :
    (s.positions ledger).Settles (s.next ledger action) := by
  cases action with
  | push thread pushFn =>
    cases hphase : s.phase thread with
    | idle =>
      have hstep : step s (.push thread pushFn) =
          (s.goto thread (.pushLoadedHead pushFn s.ring.mHead),[]) := by
        rw [step,hphase]
      exact settles_of_goto hstep rfl (by rw [hphase]; rfl) (by rw [hphase]; rfl)
    | _ =>
      refine Or.inl ?_
      rw [next,step,hphase]
      rfl
  | pop thread =>
    cases hphase : s.phase thread with
    | idle =>
      have hstep : step s (.pop thread) = (s.goto thread (.popLoadedHead s.ring.mHead),[]) := by
        rw [step,hphase]
      exact settles_of_goto hstep rfl (by rw [hphase]; rfl) (by rw [hphase]; rfl)
    | _ =>
      refine Or.inl ?_
      rw [next,step,hphase]
      rfl
  | advance thread => exact absurd rfl (h thread)

omit [DecidableEq Thread] in
theorem countersAt (h : (s.positions ledger).Counted queueLength.toNat) :
    s.ring.CountersAt ledger.pops ledger.pushes :=
  ⟨h.tail_eq,h.head_eq,h.pops_le,h.pushes_le⟩

omit [DecidableEq Thread] in
theorem safe_of_counted (h : (s.positions ledger).Counted queueLength.toNat) :
    (s.positions ledger).Safe queueLength := by
  have hle : ledger.pushes ≤ ledger.pops + queueLength.toNat := h.pushes_le
  refine ⟨⟨?_,hle⟩,h.pops_le,fun thread tail hpopping => ?_⟩
  · change s.ring.size ≤ queueLength
    rw [UInt16.le_iff_toNat_le,(countersAt h).toNat_size]
    omega
  · exact h.popped _ (h.popping thread tail hpopping).1

/-- A guarded step keeps the counts. -/
theorem counted_next {action : Action Thread Buffer}
    (h : (s.positions ledger).Counted queueLength.toNat) (hguarded : s.Guarded action) :
    (s.next ledger action).Counted queueLength.toNat := by
  cases action with
  | push thread pushFn => exact h.settles (call_settles (fun _ => nofun))
  | pop thread => exact h.settles (call_settles (fun _ => nofun))
  | advance thread =>
    rcases advance_cases s ledger thread with ⟨_,hs⟩ | ⟨pushFn,hphase,hnext⟩ | ⟨hphase,hnext⟩
    · exact h.settles hs
    · simp only [Guarded,hphase] at hguarded
      rw [hnext]
      exact h.claimHead (congrArg Phase.pushing hphase) ((countersAt h).hasSpace_iff.mp hguarded)
    · simp only [Guarded,hphase] at hguarded
      rw [hnext]
      refine h.claimTail (Nat.lt_of_le_of_ne h.pops_le ?_) hguarded.2
      exact fun heq => hguarded.1 ((countersAt h).empty_iff.mpr heq)

/-- Any other step claims too much, or a tail before its head, or a tail whose push
function has not run. -/
theorem not_safe_of_not_guarded {action : Action Thread Buffer}
    (h : (s.positions ledger).Counted queueLength.toNat) (hguarded : ¬ s.Guarded action) :
    ¬ (s.next ledger action).Safe queueLength := by
  cases action with
  | push thread pushFn => exact absurd trivial hguarded
  | pop thread => exact absurd trivial hguarded
  | advance thread =>
    rcases advance_cases s ledger thread with ⟨hg,_⟩ | ⟨pushFn,hphase,hnext⟩ | ⟨hphase,hnext⟩
    · exact absurd hg hguarded
    · simp only [Guarded,hphase,(countersAt h).hasSpace_iff] at hguarded
      rw [hnext]
      exact fun hsafe => hguarded hsafe.1.2
    · simp only [Guarded,hphase,(countersAt h).empty_iff] at hguarded
      rw [hnext]
      intro hsafe
      apply hguarded
      refine ⟨Nat.ne_of_lt hsafe.2.1,fun t ht => ?_⟩
      -- The thread that is still to push names the index that is popped here.
      have hindex := h.pushIndex_eq queueLength.toNat_lt ht
      have hmem := hsafe.2.2 thread _ (Function.update_self ..)
      rw [Positions.claimTail] at hmem
      dsimp only at hmem
      rw [Function.update_self,← hindex] at hmem
      exact (h.pushing t _ ht).2.2 hmem

/-- No thread has called yet, and the slots hold what they hold. -/
def fresh (queueLength : UInt16) (Thread : Type*) (mQueue : ℕ → Buffer) :
    Concurrent queueLength Thread Buffer := { ring := { mQueue := mQueue } }

omit [DecidableEq Thread] in
theorem counted_fresh (mQueue : ℕ → Buffer) :
    ((fresh queueLength Thread mQueue).positions {}).Counted queueLength.toNat where
  head_eq := rfl
  tail_eq := rfl
  pops_le := Nat.le_refl 0
  pushes_le := Nat.zero_le _
  popped k hk := absurd hk (Nat.not_lt_zero k)
  finished_lt k hk := absurd hk List.not_mem_nil
  pushing t p hp := by cases hp
  distinct t u p q hp := by cases hp
  pending k hk := absurd hk (Nat.not_lt_zero k)
  popping t p hp := by cases hp

/-- Whatever the threads and however their steps interleave, the claims are safe in every
state exactly when each claim still finds what its check found. For the pop functions alone
this is enough but not necessary: a position may be claimed before its push function has run
and popped after it. -/
theorem interleaving_safe_iff (mQueue : ℕ → Buffer) (actions : List (Action Thread Buffer)) :
    (∀ r ∈ Machine.trace (Machine.observed step ClaimLedger.see) (fresh queueLength Thread mQueue,{})
        actions, (r.1.1.positions r.1.2).Safe queueLength) ↔
      Machine.StepsMeet step Guarded (fresh queueLength Thread mQueue) actions := by
  refine Iff.trans (Machine.trace_forall_iff (C := fun x action => x.1.Guarded action)
    (D := fun _ _ => True)
    (I := fun x : Concurrent queueLength Thread Buffer × ClaimLedger Thread =>
      (x.1.positions x.2).Counted queueLength.toNat)
    (Q := fun x => (x.1.positions x.2).Safe queueLength)
    (fun _ => safe_of_counted) ?_ ?_ (counted_fresh mQueue)
    (Machine.stepsMeet_of_all (fun _ _ => trivial))) Machine.stepsMeet_observed
  · exact fun _ _ h _ hguarded => counted_next h hguarded
  · exact fun _ _ h _ hguarded => not_safe_of_not_guarded h hguarded

section Races

/-- A run from the start, with its ledger. -/
def run (queueLength : UInt16) (actions : List (Action ℕ ℕ)) :
    Concurrent queueLength ℕ ℕ × ClaimLedger ℕ :=
  Machine.final (Machine.observed step ClaimLedger.see) (fresh queueLength ℕ (fun _ => 0),{}) actions

/-- Two producers see the one slot free, and both claim it. -/
def racingProducers : List (Action ℕ ℕ) :=
  [.push 1 (fun _ _ => (7,true)),.push 2 (fun _ _ => (8,true)),.advance 1,.advance 2,
    .advance 1,.advance 2]

/-- Two consumers see the one element, and both claim it. -/
def racingConsumers : List (Action ℕ ℕ) :=
  [.push 1 (fun _ _ => (7,true)),.advance 1,.advance 1,.advance 1,.pop 2,.pop 3,
    .advance 2,.advance 3,.advance 2,.advance 3]

/-- One consumer claims the position that one producer has claimed and not written. -/
def earlyConsumer : List (Action ℕ ℕ) :=
  [.push 1 (fun _ _ => (7,true)),.advance 1,.advance 1,.pop 2,.advance 2,.advance 2]

/-- Each of the three parts fails in one of the runs; the early consumer is handed what
the slot held before the push. -/
theorem races_not_safe :
    ¬ ((run 1 racingProducers).1.positions (run 1 racingProducers).2).Safe 1 ∧
    ¬ ((run 4 racingConsumers).1.positions (run 4 racingConsumers).2).Safe 4 ∧
    ¬ ((run 4 earlyConsumer).1.positions (run 4 earlyConsumer).2).Safe 4 ∧
    (step (run 4 earlyConsumer).1 (.advance 2)).2 = [.ranPopFn 2 0] := by
  refine ⟨fun h => ?_,fun h => ?_,fun h => ?_,rfl⟩
  · exact absurd h.1.2 (by decide)
  · exact absurd h.2.1 (by decide)
  · exact absurd (h.2.2 2 0 rfl) (by decide)

end Races

end Concurrent

end Moboware
