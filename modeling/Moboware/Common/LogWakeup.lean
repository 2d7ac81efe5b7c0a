import Moboware.Common.Logger

/-! # Lines that wait for the next call

A notification that finds nobody waiting is lost, and a wait that times out does not look at
the queue. What is in the queue then stays there until some thread logs again, or the wait
happens to wake up for nothing.
-/
namespace Moboware
open Library

namespace Logger
variable {Thread LogBuffer : Type*}

/-- All steps but the calls of `_log`. -/
def Action.NoCall : Action Thread LogBuffer → Prop
  | .log _ _ => False
  | _ => True

/-- All steps but the calls of `_log` and the spurious wake-ups. -/
def Action.Caused : Action Thread LogBuffer → Prop
  | .log _ _ => False
  | .wakeUp => False
  | _ => True

theorem Action.Caused.noCall {action : Action Thread LogBuffer} (h : action.Caused) :
    action.NoCall := by
  cases action with
  | log thread buffer => exact h
  | _ => trivial

/-- The consumer is on its way to the queue. -/
def Awake (s : Logger Thread LogBuffer) : Prop :=
  s.consumer = .notified ∨ s.consumer = .consumeAll

/-- The consumer waits, or comes to its wait. -/
def MayWait (s : Logger Thread LogBuffer) : Prop :=
  s.consumer = .wait ∨ s.consumer = .waiting ∨ s.consumer = .stopTest ∧ s.stopRequested = false

/-- A thread in a call is still to notify. -/
def CanWake (s : Logger Thread LogBuffer) : Prop :=
  s.Awake ∨ s.MayWait ∧ ∃ thread, s.phase thread ≠ .idle

variable [DecidableEq Thread]

/-- The state is reached without another call, and without a wake-up for nothing. -/
def LeadsTo (s s' : Logger Thread LogBuffer) : Prop :=
  ∃ actions, (∀ action ∈ actions, Action.Caused action) ∧ Machine.final step s actions = s'

namespace LeadsTo
variable {s t u : Logger Thread LogBuffer}

theorem step (action : Action Thread LogBuffer) (hcall : action.Caused)
    (h : (step s action).1 = t) : s.LeadsTo t :=
  ⟨[action],by simpa using hcall,h⟩

theorem trans (hst : s.LeadsTo t) (htu : t.LeadsTo u) : s.LeadsTo u := by
  obtain ⟨actions,hactions,rfl⟩ := hst
  obtain ⟨more,hmore,rfl⟩ := htu
  refine ⟨actions ++ more,?_,Machine.final_append s actions more⟩
  intro action h
  exact (List.mem_append.mp h).elim (hactions action) (hmore action)

end LeadsTo

/-! ### What wakes the consumer -/

theorem leadsTo_empty_of_consumeAll {s : Logger Thread LogBuffer}
    (h : s.consumer = .consumeAll) : ∃ t, s.LeadsTo t ∧ t.mLogQueue = [] := by
  generalize hqueue : s.mLogQueue = queue
  induction queue generalizing s with
  | nil => exact ⟨s,⟨[],by simp,rfl⟩,hqueue⟩
  | cons entry rest ih =>
    have hstep : (step s .consume).1 = { s with mLogQueue := rest } := by
      simp [step,consume,h,hqueue]
    obtain ⟨t,hlead,ht⟩ := @ih { s with mLogQueue := rest } h rfl
    exact ⟨t,(LeadsTo.step .consume trivial hstep).trans hlead,ht⟩

theorem leadsTo_empty_of_awake {s : Logger Thread LogBuffer} (h : s.Awake) :
    ∃ t, s.LeadsTo t ∧ t.mLogQueue = [] := by
  rcases h with h | h
  · by_cases hqueue : s.mLogQueue = []
    · exact ⟨s,⟨[],by simp,rfl⟩,hqueue⟩
    · have hstep : (step s .consume).1 = { s with consumer := .consumeAll } := by
        simp [step,consume,h,hqueue]
      obtain ⟨t,hlead,ht⟩ :=
        @leadsTo_empty_of_consumeAll _ _ _ { s with consumer := .consumeAll } rfl
      exact ⟨t,(LeadsTo.step .consume trivial hstep).trans hlead,ht⟩
  · exact leadsTo_empty_of_consumeAll h

/-- Up to its wait the consumer touches nothing else. -/
theorem leadsTo_waiting {s : Logger Thread LogBuffer} (h : s.MayWait) :
    s.LeadsTo { s with consumer := .waiting } := by
  have hwait : ∀ t : Logger Thread LogBuffer, t.consumer = .wait →
      t.LeadsTo { t with consumer := .waiting } := by
    intro t ht
    exact LeadsTo.step .consume trivial (by simp [step,consume,ht])
  rcases h with h | h | ⟨h,hstop⟩
  · exact hwait s h
  · exact ⟨[],by simp,by rw [← h]; rfl⟩
  · have hstep : (step s .consume).1 = { s with consumer := .wait } := by
      simp [step,consume,h,hstop]
    exact (LeadsTo.step .consume trivial hstep).trans (hwait _ rfl)

/-- A thread in a call notifies the consumer before it is out. -/
theorem leadsTo_awake_of_waiting {s : Logger Thread LogBuffer} (h : s.consumer = .waiting)
    {thread : Thread} (ht : s.phase thread ≠ .idle) : ∃ t, s.LeadsTo t ∧ t.Awake := by
  have hsignal : ∀ t : Logger Thread LogBuffer, t.consumer = .waiting →
      t.phase thread = .signal → ∃ u, t.LeadsTo u ∧ u.Awake := by
    intro t hwaiting hphase
    refine ⟨_,LeadsTo.step (.advance thread true) trivial rfl,Or.inl ?_⟩
    simp [step,advance,hphase,notify,goto,hwaiting]
  have henqueue : ∀ buffer, (step s (.advance thread true)).1 = (s.enqueue thread buffer).1 →
      ∃ u, s.LeadsTo u ∧ u.Awake := by
    intro buffer hstep
    obtain ⟨u,hlead,hu⟩ := hsignal (s.enqueue thread buffer).1 h (by simp [enqueue,goto])
    exact ⟨u,(LeadsTo.step (.advance thread true) trivial hstep).trans hlead,hu⟩
  cases hphase : s.phase thread with
  | idle => exact absurd hphase ht
  | boundedPush buffer => exact henqueue buffer (by simp [step,advance,hphase])
  | queueFull buffer =>
    refine ⟨_,LeadsTo.step (.advance thread true) trivial rfl,Or.inl ?_⟩
    simp [step,advance,hphase,notify,goto,h]
  | push buffer => exact henqueue buffer (by simp [step,advance,hphase])
  | signal => exact hsignal s h hphase

/-! ### What stays asleep -/

/-- There are entries, and nothing that wakes the consumer. -/
structure Stranded (s : Logger Thread LogBuffer) : Prop where
  queue : s.mLogQueue ≠ []
  asleep : ¬ s.Awake
  idle : s.MayWait → ∀ thread, s.phase thread = .idle

omit [DecidableEq Thread] in
theorem stranded_iff (s : Logger Thread LogBuffer) :
    s.Stranded ↔ s.mLogQueue ≠ [] ∧ ¬ s.CanWake := by
  constructor
  · rintro ⟨hqueue,hasleep,hidle⟩
    refine ⟨hqueue,?_⟩
    rintro (hawake | ⟨hmay,thread,hphase⟩)
    · exact hasleep hawake
    · exact hphase (hidle hmay thread)
  · rintro ⟨hqueue,hcan⟩
    refine ⟨hqueue,fun hawake => hcan (Or.inl hawake),fun hmay thread => ?_⟩
    by_contra hphase
    exact hcan (Or.inr ⟨hmay,thread,hphase⟩)

omit [DecidableEq Thread] in
/-- A consumer that cannot wait again is told nothing. -/
theorem notify_of_not_mayWait {s : Logger Thread LogBuffer} (h : ¬ s.MayWait) : s.notify = s := by
  unfold notify
  cases hc : s.consumer with
  | waiting => exact absurd (Or.inr (Or.inl hc)) h
  | _ => simp [← hc]

/-- Then a thread in a call only adds to the queue. -/
theorem advance_of_not_mayWait {s : Logger Thread LogBuffer} (h : ¬ s.MayWait) (thread : Thread)
    (memory : Bool) : ∃ phase entries, (s.advance thread memory).1 =
      { s with mLogQueue := s.mLogQueue ++ entries, phase } := by
  have hgoto : ∀ phase, ∃ phase' entries, s.goto thread phase =
      { s with mLogQueue := s.mLogQueue ++ entries, phase := phase' } :=
    fun phase => ⟨Function.update s.phase thread phase,[],by simp [goto]⟩
  have henqueue : ∀ buffer, ∃ phase entries, (s.enqueue thread buffer).1 =
      { s with mLogQueue := s.mLogQueue ++ entries, phase } :=
    fun buffer => ⟨Function.update s.phase thread .signal,[(thread,buffer)],rfl⟩
  unfold Logger.advance
  rw [notify_of_not_mayWait h]
  cases s.phase thread with
  | idle => exact ⟨s.phase,[],by simp⟩
  | boundedPush buffer =>
    dsimp only
    split_ifs
    · exact henqueue buffer
    · exact hgoto _
  | queueFull buffer => exact hgoto _
  | push buffer =>
    dsimp only
    split_ifs
    · exact henqueue buffer
    · exact hgoto _
  | signal => exact hgoto _

theorem Stranded.advance {s : Logger Thread LogBuffer} (h : s.Stranded) (thread : Thread)
    (memory : Bool) : (s.advance thread memory).1.Stranded := by
  by_cases hmay : s.MayWait
  · simpa [Logger.advance,h.idle hmay thread] using h
  · obtain ⟨phase,entries,hadvance⟩ := advance_of_not_mayWait hmay thread memory
    rw [hadvance]
    exact ⟨by simp [h.queue],h.asleep,fun hmay' => absurd hmay' hmay⟩

theorem Stranded.step {s : Logger Thread LogBuffer} (h : s.Stranded)
    {action : Action Thread LogBuffer} (hcall : action.Caused) : (step s action).1.Stranded := by
  cases action with
  | log thread buffer => exact hcall.elim
  | advance thread memory => exact h.advance thread memory
  | consume =>
    obtain ⟨hqueue,hasleep,hidle⟩ := h
    have hconsume : (s.consume).1.Stranded := by
      unfold consume
      cases hc : s.consumer with
      | stopTest =>
        cases hstop : s.stopRequested with
        | false =>
          refine ⟨hqueue,by simp [Awake],fun _ => hidle (Or.inr (Or.inr ⟨hc,hstop⟩))⟩
        | true => exact ⟨hqueue,by simp [Awake],by simp [MayWait]⟩
      | wait => exact ⟨hqueue,by simp [Awake],fun _ => hidle (Or.inl hc)⟩
      | waiting => exact ⟨hqueue,hasleep,hidle⟩
      | notified => exact absurd (Or.inl hc) hasleep
      | consumeAll => exact absurd (Or.inr hc) hasleep
      | finished => exact ⟨hqueue,hasleep,hidle⟩
    exact hconsume
  | timeout =>
    have htimeout : (s.timeout).1.Stranded := by
      unfold timeout
      cases hc : s.consumer with
      | waiting => exact ⟨h.queue,by simp [Awake],fun _ => h.idle (Or.inr (Or.inl hc))⟩
      | _ => exact h
    exact htimeout
  | wakeUp => exact hcall.elim
  | requestStop =>
    have hrequest : (s.requestStop).1.Stranded := by
      unfold requestStop
      split_ifs with hstop
      · exact h
      · refine ⟨h.queue,h.asleep,fun hmay => h.idle ?_⟩
        exact hmay.imp id (Or.imp id (fun hand => absurd hand.2 (by simp)))
    exact hrequest

/-- There are entries, and the consumer does not wait again. -/
structure Abandoned (s : Logger Thread LogBuffer) : Prop where
  queue : s.mLogQueue ≠ []
  asleep : ¬ s.Awake
  leaves : ¬ s.MayWait

theorem Abandoned.step {s : Logger Thread LogBuffer} (h : s.Abandoned)
    (action : Action Thread LogBuffer) : (step s action).1.Abandoned := by
  have hnotify := notify_of_not_mayWait h.leaves
  cases action with
  | log thread buffer =>
    simp only [Logger.step,log]
    cases s.phase thread with
    | idle => exact ⟨h.queue,h.asleep,h.leaves⟩
    | _ => exact h
  | advance thread memory =>
    obtain ⟨phase,entries,hadvance⟩ := advance_of_not_mayWait h.leaves thread memory
    rw [Logger.step,hadvance]
    exact ⟨by simp [h.queue],h.asleep,h.leaves⟩
  | consume =>
    simp only [Logger.step,consume]
    cases hc : s.consumer with
    | stopTest =>
      have hstop : s.stopRequested = true := by
        by_contra hrun
        exact h.leaves (Or.inr (Or.inr ⟨hc,Bool.eq_false_iff.mpr hrun⟩))
      rw [hstop]
      exact ⟨h.queue,by simp [Awake],by simp [MayWait]⟩
    | wait => exact absurd (Or.inl hc) h.leaves
    | waiting => exact absurd (Or.inr (Or.inl hc)) h.leaves
    | notified => exact absurd (Or.inl hc) h.asleep
    | consumeAll => exact absurd (Or.inr hc) h.asleep
    | finished => exact h
  | timeout =>
    simp only [Logger.step,timeout]
    cases hc : s.consumer with
    | waiting => exact absurd (Or.inr (Or.inl hc)) h.leaves
    | _ => exact h
  | wakeUp =>
    rw [Logger.step,wakeUp,hnotify]
    exact h
  | requestStop =>
    simp only [Logger.step,requestStop]
    split_ifs with hstop
    · exact h
    · refine ⟨h.queue,h.asleep,fun hmay => h.leaves ?_⟩
      exact hmay.imp id (Or.imp id (fun hand => absurd hand.2 (by simp)))

/-- From any state the queue can be emptied without another call, and with no wake-up for
nothing, exactly if it is empty, or the consumer is on its way, or it may wait and a thread in
its call is still to notify. With such wake-ups it is enough that the consumer may wait. -/
theorem drains_without_call_iff (s : Logger Thread LogBuffer) :
    ((∃ actions, (∀ action ∈ actions, Action.Caused action) ∧
      (Machine.final step s actions).mLogQueue = []) ↔ s.mLogQueue = [] ∨ s.CanWake) ∧
    ((∃ actions, (∀ action ∈ actions, Action.NoCall action) ∧
      (Machine.final step s actions).mLogQueue = []) ↔
        s.mLogQueue = [] ∨ s.Awake ∨ s.MayWait) := by
  have hlead : ∀ t, s.LeadsTo t → t.mLogQueue = [] → ∃ actions, (∀ action ∈ actions,
      Action.Caused action) ∧ (Machine.final step s actions).mLogQueue = [] := by
    rintro t ⟨actions,hactions,rfl⟩ ht
    exact ⟨actions,hactions,ht⟩
  constructor
  · constructor
    · rintro ⟨actions,hactions,hempty⟩
      by_contra hor
      rw [not_or,← Ne,← stranded_iff] at hor
      have hfinal : (Machine.final step s actions).Stranded :=
        Machine.final_invariant (C := fun _ action => action.Caused)
          (fun _ _ h hcall => h.step hcall) hor (Machine.stepsMeet_of_forall hactions)
      exact hfinal.queue hempty
    · rintro (hempty | hawake | ⟨hmay,thread,hphase⟩)
      · exact ⟨[],by simp,hempty⟩
      · obtain ⟨t,hst,ht⟩ := leadsTo_empty_of_awake hawake
        exact hlead t hst ht
      · obtain ⟨t,hst,ht⟩ := @leadsTo_awake_of_waiting _ _ _ { s with consumer := .waiting } rfl
          thread hphase
        obtain ⟨u,htu,hu⟩ := leadsTo_empty_of_awake ht
        exact hlead u ((leadsTo_waiting hmay).trans (hst.trans htu)) hu
  · constructor
    · rintro ⟨actions,-,hempty⟩
      by_contra hor
      rw [not_or,not_or] at hor
      have hfinal : (Machine.final step s actions).Abandoned :=
        Machine.final_invariant (C := fun _ _ => True) (fun _ action h _ => h.step action)
          ⟨hor.1,hor.2.1,hor.2.2⟩ (Machine.stepsMeet_of_all (fun _ _ => trivial))
      exact hfinal.queue hempty
    · rintro (hempty | hawake | hmay)
      · exact ⟨[],by simp,hempty⟩
      · obtain ⟨t,hst,ht⟩ := leadsTo_empty_of_awake hawake
        obtain ⟨actions,hactions,hdone⟩ := hlead t hst ht
        exact ⟨actions,fun action h => (hactions action h).noCall,hdone⟩
      · -- the wait wakes up by itself
        obtain ⟨before,hbefore,hwaits⟩ := leadsTo_waiting hmay
        have hwoken : (Machine.final step s (before ++ [.wakeUp])).Awake := by
          rw [Machine.final_append,hwaits]
          exact Or.inl rfl
        obtain ⟨t,⟨after,hafter,rfl⟩,ht⟩ := leadsTo_empty_of_awake hwoken
        refine ⟨before ++ [.wakeUp] ++ after,?_,by rwa [Machine.final_append]⟩
        intro action h
        rcases List.mem_append.mp h with h | h
        · rcases List.mem_append.mp h with h | h
          · exact (hbefore action h).noCall
          · rw [List.mem_singleton.mp h]
            trivial
        · exact (hafter action h).noCall

/-- A line is pushed and its notification sent before the consumer waits. -/
example : (Machine.final (step : Machine (Logger ℕ String) _ _) {}
    [.log 0 "line",.advance 0 true,.advance 0 true,.consume,.consume,.timeout]).mLogQueue =
      [(0,"line")] := by decide

end Logger
end Moboware
