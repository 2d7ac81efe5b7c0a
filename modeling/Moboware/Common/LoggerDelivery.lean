import Moboware.Common.Logger

/-! # Delivery of the log

The lines that were written are the first of those enqueued, whatever the order of steps.
That none of those enqueued before the stop is missing depends on where the consumer
stands when the stop is requested: it leaves its loop without looking at the queue.
-/
namespace Moboware
open Library

namespace Logger
variable {Thread LogBuffer : Type*} [DecidableEq Thread]

/-- The entries of one thread. -/
def ofThread (thread : Thread) (entries : List (Thread × LogBuffer)) : List (Thread × LogBuffer) :=
  entries.filter (fun e => e.1 = thread)

/-- No entry is lost: once the consumer has finished, all that was enqueued before the stop
is written; nothing is written twice; and each thread finds its entries in its order. -/
structure Delivered (s : Observed Thread LogBuffer) : Prop where
  complete : s.1.consumer = .finished → s.2.beforeStop <+: s.2.written
  once : s.2.written <+: s.2.enqueued
  inOrder : ∀ thread, ofThread thread s.2.written <+: ofThread thread s.2.logged

/-- The stop is not requested while the consumer is about to test the flag with entries in
the queue, and after the request no wait times out with entries from before it in the queue. -/
def Drains (s : Observed Thread LogBuffer) : Action Thread LogBuffer → Prop
  | .requestStop => s.1.stopRequested = false → s.1.consumer = .stopTest → s.1.mLogQueue = []
  | .timeout => s.1.stopRequested = true → s.1.consumer = .waiting →
      s.2.beforeStop.length ≤ s.2.written.length
  | _ => True

instance (s : Observed Thread LogBuffer) (action : Action Thread LogBuffer) :
    Decidable (Drains s action) :=
  match action with
  | .requestStop => inferInstanceAs (Decidable (s.1.stopRequested = false →
      s.1.consumer = .stopTest → s.1.mLogQueue = []))
  | .timeout => inferInstanceAs (Decidable (s.1.stopRequested = true →
      s.1.consumer = .waiting → s.2.beforeStop.length ≤ s.2.written.length))
  | .log _ _ => isTrue trivial
  | .advance _ _ => isTrue trivial
  | .consume => isTrue trivial
  | .wakeUp => isTrue trivial

/-- What holds between the logger and the observer in every state. -/
structure Recorded (s : Observed Thread LogBuffer) : Prop where
  enqueued_eq : s.2.enqueued = s.2.written ++ s.1.mLogQueue
  logged_eq : ∀ thread, ofThread thread s.2.logged =
    ofThread thread s.2.enqueued ++ (s.1.phase thread).pending.map (fun b => (thread,b))
  beforeStop : s.2.beforeStop <+: s.2.enqueued
  running : s.1.stopRequested = false → s.1.consumer ≠ .finished ∧ s.2.beforeStop = []

/-- At the test of the loop, or past it. -/
def Consumer.leaves : Consumer → Bool
  | stopTest => true
  | finished => true
  | _ => false

/-- A consumer that leaves its loop for a stop leaves nothing from before it. -/
def Drained (s : Observed Thread LogBuffer) : Prop :=
  s.1.stopRequested = true → s.1.consumer.leaves = true →
    s.2.beforeStop.length ≤ s.2.written.length

/-! ### The record -/

namespace Recorded
variable {s : Logger Thread LogBuffer} {h : History Thread LogBuffer}

/-- A step that moves no entry. -/
theorem of_silent {s' : Logger Thread LogBuffer} (hs : Recorded (s,h))
    (hqueue : s'.mLogQueue = s.mLogQueue)
    (hpending : ∀ t, (s'.phase t).pending = (s.phase t).pending)
    (hstop : s'.stopRequested = s.stopRequested)
    (hfinished : s'.consumer = .finished → s.consumer = .finished ∨ s.stopRequested = true) :
    Recorded (s',h) where
  enqueued_eq := hs.enqueued_eq.trans (by rw [hqueue])
  logged_eq t := by
    rw [hpending]
    exact hs.logged_eq t
  beforeStop := hs.beforeStop
  running hrun := by
    obtain ⟨hne,hnil⟩ := hs.running (hstop ▸ hrun)
    refine ⟨?_,hnil⟩
    intro hf
    rcases hfinished hf with hf | hf
    · exact hne hf
    · rw [hstop] at hrun
      exact Bool.false_ne_true (hrun.symm.trans hf)

theorem pending_goto (s : Logger Thread LogBuffer) (thread : Thread) (phase : Phase LogBuffer)
    (t : Thread) : ((s.goto thread phase).phase t).pending =
      if t = thread then phase.pending else (s.phase t).pending := by
  unfold goto
  by_cases ht : t = thread
  · rw [if_pos ht,ht]
    exact congrArg Phase.pending (Function.update_self ..)
  · rw [if_neg ht]
    exact congrArg Phase.pending (Function.update_of_ne ht ..)

/-- A thread that keeps what it has to push. -/
theorem goto (hs : Recorded (s,h)) {thread : Thread} {phase : Phase LogBuffer}
    (hpending : phase.pending = (s.phase thread).pending) : Recorded (s.goto thread phase,h) := by
  refine hs.of_silent rfl ?_ rfl (fun hf => Or.inl hf)
  intro t
  rw [pending_goto]
  split_ifs with ht
  · rw [hpending,ht]
  · rfl

theorem notify (hs : Recorded (s,h)) : Recorded (s.notify,h) := by
  refine hs.of_silent rfl (fun _ => rfl) rfl ?_
  intro hf
  unfold Logger.notify at hf
  cases hc : s.consumer <;> simp [hc] at hf ⊢

theorem ofThread_append (thread : Thread) (es fs : List (Thread × LogBuffer)) :
    ofThread thread (es ++ fs) = ofThread thread es ++ ofThread thread fs :=
  List.filter_append ..

theorem ofThread_singleton (thread t : Thread) (buffer : LogBuffer) :
    ofThread t [(thread,buffer)] = if t = thread then [(thread,buffer)] else [] := by
  unfold ofThread
  by_cases ht : t = thread
  · simp [ht]
  · simp [ht,Ne.symm ht]

theorem log (hs : Recorded (s,h)) {thread : Thread} (hidle : s.phase thread = .idle)
    (buffer : LogBuffer) : Recorded (s.goto thread (.boundedPush buffer),
      { h with logged := h.logged ++ [(thread,buffer)] }) where
  enqueued_eq := hs.enqueued_eq
  logged_eq t := by
    have ht := hs.logged_eq t
    dsimp only at ht ⊢
    rw [pending_goto,ofThread_append,ofThread_singleton,ht,List.append_assoc]
    split_ifs with he
    · rw [he,hidle]
      rfl
    · rw [List.append_nil]
  beforeStop := hs.beforeStop
  running := hs.running

theorem enqueue (hs : Recorded (s,h)) {thread : Thread} {buffer : LogBuffer}
    (hpending : (s.phase thread).pending = [buffer]) :
    Recorded ((s.enqueue thread buffer).1,
      { h with enqueued := h.enqueued ++ [(thread,buffer)] }) where
  enqueued_eq := by
    have he := hs.enqueued_eq
    dsimp only [Logger.enqueue] at he ⊢
    rw [he,List.append_assoc]
  logged_eq t := by
    have ht := hs.logged_eq t
    change _ = ofThread t (h.enqueued ++ [(thread,buffer)]) ++
      (((s.goto thread .signal).phase t).pending).map (fun b => (t,b))
    rw [pending_goto,ofThread_append,ofThread_singleton]
    refine ht.trans ?_
    split_ifs with he
    · rw [he,hpending,List.append_assoc]
      rfl
    · rw [List.append_nil]
  beforeStop := hs.beforeStop.trans (List.prefix_append _ _)
  running := hs.running

theorem written (hs : Recorded (s,h)) {entry : Thread × LogBuffer}
    {rest : List (Thread × LogBuffer)} (hqueue : s.mLogQueue = entry :: rest) :
    Recorded ({ s with mLogQueue := rest },{ h with written := h.written ++ [entry] }) where
  enqueued_eq := by
    have he := hs.enqueued_eq
    dsimp only at he ⊢
    rw [he,hqueue,List.append_assoc]
    rfl
  logged_eq := hs.logged_eq
  beforeStop := hs.beforeStop
  running := hs.running

theorem stop (hs : Recorded (s,h)) :
    Recorded ({ s with stopRequested := true },{ h with beforeStop := h.enqueued }) where
  enqueued_eq := hs.enqueued_eq
  logged_eq := hs.logged_eq
  beforeStop := List.prefix_rfl
  running hrun := absurd hrun.symm Bool.false_ne_true

end Recorded

theorem advance_recorded {s : Logger Thread LogBuffer} {h : History Thread LogBuffer}
    (hs : Recorded (s,h)) (thread : Thread) (memory : Bool) :
    Recorded ((s.advance thread memory).1,(s.advance thread memory).2.foldl History.add h) := by
  unfold advance
  cases hphase : s.phase thread with
  | idle => exact hs
  | boundedPush buffer | push buffer =>
    have hpending : (s.phase thread).pending = [buffer] := by rw [hphase]; rfl
    cases memory with
    | true => exact hs.enqueue hpending
    | false => exact hs.goto hpending.symm
  | queueFull buffer => exact hs.notify.goto (congrArg Phase.pending hphase).symm
  | signal => exact hs.notify.goto (congrArg Phase.pending hphase).symm

theorem consume_recorded {s : Logger Thread LogBuffer} {h : History Thread LogBuffer}
    (hs : Recorded (s,h)) : Recorded (s.consume.1,s.consume.2.foldl History.add h) := by
  unfold consume
  cases hc : s.consumer with
  | stopTest =>
    refine hs.of_silent rfl (fun _ => rfl) rfl ?_
    intro hf
    cases hr : s.stopRequested with
    | true => exact Or.inr rfl
    | false => simp [hr] at hf
  | wait => exact hs.of_silent rfl (fun _ => rfl) rfl (fun hf => Consumer.noConfusion hf)
  | waiting => exact hs
  | notified =>
    refine hs.of_silent rfl (fun _ => rfl) rfl ?_
    intro hf
    dsimp only at hf
    split_ifs at hf
  | consumeAll =>
    cases hq : s.mLogQueue with
    | nil =>
      exact hs.of_silent hq.symm (fun _ => rfl) rfl (fun hf => Consumer.noConfusion hf)
    | cons entry rest =>
      have hw := hs.written hq
      rw [hc] at hw
      exact hw
  | finished => exact hs

theorem observedStep_recorded (s : Observed Thread LogBuffer) (action : Action Thread LogBuffer)
    (hs : Recorded s) : Recorded (observedStep s action).1 := by
  obtain ⟨s,h⟩ := s
  cases action with
  | log thread buffer =>
    change Recorded ((s.log thread buffer).1,(s.log thread buffer).2.foldl History.add h)
    unfold log
    cases hphase : s.phase thread with
    | idle => exact hs.log hphase buffer
    | _ => exact hs
  | advance thread memory => exact advance_recorded hs thread memory
  | consume => exact consume_recorded hs
  | timeout =>
    change Recorded (s.timeout.1,s.timeout.2.foldl History.add h)
    unfold timeout
    cases hc : s.consumer with
    | waiting => exact hs.of_silent rfl (fun _ => rfl) rfl (fun hf => Consumer.noConfusion hf)
    | _ => exact hs
  | wakeUp => exact hs.notify
  | requestStop =>
    change Recorded (s.requestStop.1,s.requestStop.2.foldl History.add h)
    unfold requestStop
    cases hr : s.stopRequested with
    | true => exact hs
    | false => exact hs.stop

/-! ### What is left when the consumer leaves -/

omit [DecidableEq Thread] in
theorem drained_congr {s s' : Logger Thread LogBuffer} {h h' : History Thread LogBuffer}
    (hstop : s'.stopRequested = s.stopRequested)
    (hleaves : s'.consumer.leaves = s.consumer.leaves) (hbefore : h'.beforeStop = h.beforeStop)
    (hwritten : h'.written = h.written) : Drained (s',h') ↔ Drained (s,h) := by
  unfold Drained
  rw [hstop,hleaves,hbefore,hwritten]

omit [DecidableEq Thread] in
theorem drained_of_not_leaves {s : Logger Thread LogBuffer} {h : History Thread LogBuffer}
    (hc : s.consumer.leaves = false) : Drained (s,h) :=
  fun _ hl => absurd (hc.symm.trans hl) Bool.false_ne_true

omit [DecidableEq Thread] in
theorem drained_of_running {s : Logger Thread LogBuffer} {h : History Thread LogBuffer}
    (hr : s.stopRequested = false) : Drained (s,h) :=
  fun hrun => absurd (hr.symm.trans hrun) Bool.false_ne_true

omit [DecidableEq Thread] in
theorem notify_leaves (s : Logger Thread LogBuffer) :
    s.notify.consumer.leaves = s.consumer.leaves := by
  unfold notify
  cases s.consumer <;> rfl

theorem Recorded.length_eq {s : Observed Thread LogBuffer} (hs : Recorded s)
    (hqueue : s.1.mLogQueue = []) : s.2.beforeStop.length ≤ s.2.written.length := by
  have hle := hs.beforeStop.length_le
  rwa [hs.enqueued_eq,hqueue,List.append_nil] at hle

theorem advance_drained (s : Logger Thread LogBuffer) (h : History Thread LogBuffer)
    (thread : Thread) (memory : Bool) :
    Drained ((s.advance thread memory).1,(s.advance thread memory).2.foldl History.add h) ↔
      Drained (s,h) := by
  unfold advance
  cases s.phase thread with
  | idle => exact Iff.rfl
  | boundedPush buffer | push buffer =>
    cases memory with
    | true => exact drained_congr rfl rfl rfl rfl
    | false => exact drained_congr rfl rfl rfl rfl
  | queueFull buffer | signal => exact drained_congr rfl s.notify_leaves rfl rfl

theorem consume_drained {s : Logger Thread LogBuffer} {h : History Thread LogBuffer}
    (hs : Recorded (s,h)) :
    Drained (s.consume.1,s.consume.2.foldl History.add h) ↔ Drained (s,h) := by
  unfold consume
  cases hc : s.consumer with
  | stopTest =>
    cases hr : s.stopRequested with
    | true => exact drained_congr hr.symm (by rw [hc]; rfl) rfl rfl
    | false => exact iff_of_true (drained_of_running rfl) (drained_of_running hr)
  | wait =>
    exact iff_of_true (drained_of_not_leaves rfl) (drained_of_not_leaves (by rw [hc]; rfl))
  | waiting => exact Iff.rfl
  | notified | consumeAll =>
    refine iff_of_true ?_ (drained_of_not_leaves (by rw [hc]; rfl))
    cases hq : s.mLogQueue with
    | nil => exact fun _ _ => hs.length_eq hq
    | cons entry rest => exact drained_of_not_leaves rfl
  | finished => exact Iff.rfl

omit [DecidableEq Thread] in
theorem timeout_drained (s : Logger Thread LogBuffer) (h : History Thread LogBuffer) :
    Drained (s.timeout.1,s.timeout.2.foldl History.add h) ↔
      Drained (s,h) ∧ Drains (s,h) .timeout := by
  by_cases hc : s.consumer = .waiting
  · have htimeout : s.timeout = ({ s with consumer := .stopTest },[]) := by rw [timeout,hc]
    rw [htimeout,and_iff_right (drained_of_not_leaves (by rw [hc]; rfl))]
    exact ⟨fun hd hstop _ => hd hstop rfl,fun hd hstop _ => hd hstop hc⟩
  · have htimeout : s.timeout = (s,[]) := by
      unfold timeout
      cases hs : s.consumer with
      | waiting => exact absurd hs hc
      | _ => rfl
    rw [htimeout]
    exact (and_iff_left (fun _ hw => absurd hw hc)).symm

theorem requestStop_drained {s : Logger Thread LogBuffer} {h : History Thread LogBuffer}
    (hs : Recorded (s,h)) : Drained (s.requestStop.1,s.requestStop.2.foldl History.add h) ↔
      Drained (s,h) ∧ Drains (s,h) .requestStop := by
  cases hr : s.stopRequested with
  | true =>
    rw [requestStop,if_pos hr]
    exact (and_iff_left (fun hrun => absurd (hrun.symm.trans hr) Bool.false_ne_true)).symm
  | false =>
    have hlen : h.enqueued.length = h.written.length + s.mLogQueue.length := by
      rw [hs.enqueued_eq,List.length_append]
    rw [requestStop,if_neg (by rw [hr]; exact Bool.false_ne_true),
      and_iff_right (drained_of_running hr)]
    constructor
    · intro hd _ hc
      have hle : h.enqueued.length ≤ h.written.length := hd rfl (by rw [hc]; rfl)
      have hzero : s.mLogQueue.length = 0 := by omega
      exact List.eq_nil_of_length_eq_zero hzero
    · intro hd _ hl
      cases hc : s.consumer with
      | stopTest =>
        have hnil : s.mLogQueue = [] := hd hr hc
        rw [hnil,List.length_nil] at hlen
        exact Nat.le_of_eq hlen
      | finished => exact absurd hc (hs.running hr).1
      | _ =>
        rw [hc] at hl
        exact absurd hl Bool.false_ne_true

/-- Only the two steps of `Drains` can leave an entry behind, and nothing mends it. -/
theorem observedStep_drained_iff (s : Observed Thread LogBuffer)
    (action : Action Thread LogBuffer) (hs : Recorded s) :
    Drained (observedStep s action).1 ↔ Drained s ∧ Drains s action := by
  obtain ⟨s,h⟩ := s
  cases action with
  | log thread buffer =>
    change Drained ((s.log thread buffer).1,(s.log thread buffer).2.foldl History.add h) ↔ _
    rw [and_iff_left (show Drains (s,h) (.log thread buffer) from trivial)]
    unfold log
    cases s.phase thread with
    | idle => exact drained_congr rfl rfl rfl rfl
    | _ => exact Iff.rfl
  | advance thread memory =>
    rw [and_iff_left (show Drains (s,h) (.advance thread memory) from trivial)]
    exact s.advance_drained h thread memory
  | consume =>
    rw [and_iff_left (show Drains (s,h) .consume from trivial)]
    exact consume_drained hs
  | timeout => exact s.timeout_drained h
  | wakeUp =>
    rw [and_iff_left (show Drains (s,h) .wakeUp from trivial)]
    exact drained_congr rfl s.notify_leaves rfl rfl
  | requestStop => exact requestStop_drained hs

theorem Recorded.delivered {s : Observed Thread LogBuffer} (hs : Recorded s) (hd : Drained s) :
    Delivered s where
  complete hf := by
    have hstop : s.1.stopRequested = true := by
      by_contra hrun
      exact (hs.running (Bool.eq_false_iff.mpr hrun)).1 hf
    refine List.prefix_of_prefix_length_le hs.beforeStop ?_ (hd hstop (by rw [hf]; rfl))
    exact hs.enqueued_eq ▸ List.prefix_append _ _
  once := hs.enqueued_eq ▸ List.prefix_append _ _
  inOrder thread := by
    rw [hs.logged_eq,hs.enqueued_eq,Recorded.ofThread_append,List.append_assoc]
    exact List.prefix_append _ _

/-- In the states in which the consumer has finished nothing else is needed. -/
theorem Recorded.delivered_iff {s : Observed Thread LogBuffer} (hs : Recorded s)
    (hf : s.1.consumer = .finished) : Delivered s ↔ Drained s :=
  ⟨fun h _ _ => (h.complete hf).length_le,hs.delivered⟩

/-- The logger before the first call, with its observer. -/
def start : Observed Thread LogBuffer := ({},{})

theorem start_recorded : Recorded (start : Observed Thread LogBuffer) where
  enqueued_eq := rfl
  logged_eq _ := rfl
  beforeStop := List.prefix_rfl
  running _ := ⟨Consumer.noConfusion,rfl⟩

/-- Every run whose steps drain delivers, in every state; and a run that ends with the
consumer finished delivers only if all its steps drained. -/
theorem delivered_of_drains (actions : List (Action Thread LogBuffer)) :
    (Machine.StepsMeet observedStep Drains start actions →
      ∀ r ∈ Machine.trace observedStep start actions, Delivered r.1) ∧
    ((Machine.final observedStep start actions).1.consumer = .finished →
      (Delivered (Machine.final observedStep start actions) ↔
        Machine.StepsMeet observedStep Drains start actions)) := by
  have hstart : Drained (start : Observed Thread LogBuffer) :=
    fun hrun => absurd hrun Bool.false_ne_true
  constructor
  · intro hsteps r hr
    have hall := Machine.trace_invariant (I := fun s => Recorded s ∧ Drained s)
      (fun s action hs hc => ⟨observedStep_recorded s action hs.1,
        (observedStep_drained_iff s action hs.1).mpr ⟨hs.2,hc⟩⟩) ⟨start_recorded,hstart⟩ hsteps r hr
    exact hall.1.delivered hall.2
  · intro hf
    have hany : Machine.StepsMeet observedStep (fun _ _ => True) start actions :=
      Machine.stepsMeet_of_all (fun _ _ => trivial)
    have hrecorded := Machine.final_invariant
      (fun s action hs _ => observedStep_recorded s action hs) start_recorded hany
    have hdrained := Machine.final_iff_stepsMeet
      (fun s action hs _ => observedStep_recorded s action hs)
      (fun s action hs _ => observedStep_drained_iff s action hs) start_recorded hany
    rw [hrecorded.delivered_iff hf,hdrained,and_iff_right hstart]

theorem delivered_of_drains_notified :
    let actions : List (Action ℕ String) := [.log 0 "line",.advance 0 true,.consume,.consume,
      .advance 0 true,.requestStop,.consume,.consume,.consume,.consume]
    (Machine.final observedStep start actions).1.consumer = .finished ∧
    (Machine.final observedStep start actions).2.written = [(0,"line")] ∧
    ∀ r ∈ Machine.trace observedStep start actions, Delivered r.1 := by
  intro actions
  exact ⟨by decide,by decide,(delivered_of_drains actions).1 (by decide)⟩

/-- A line is pushed while the consumer is at the test of its loop: nobody waits for the
notification, the stop is requested, and the consumer finishes with the line in the queue. -/
theorem line_lost :
    let actions : List (Action ℕ String) := [.log 0 "line",.advance 0 true,.advance 0 true,
      .requestStop,.consume]
    (Machine.final observedStep start actions).1.consumer = .finished ∧
    (Machine.final observedStep start actions).2.beforeStop = [(0,"line")] ∧
    (Machine.final observedStep start actions).2.written = [] ∧
    ¬ Delivered (Machine.final observedStep start actions) := by
  intro actions
  refine ⟨by decide,by decide,by decide,?_⟩
  intro h
  have hlen := (h.complete (by decide)).length_le
  exact absurd hlen (by decide)

end Logger
end Moboware
