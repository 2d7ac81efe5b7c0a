import Mathlib.Logic.Function.Basic
import Moboware.Library.Machine

/-! # Calls under a mutex

Any number of threads call the operations of one object. An operation takes the mutex,
works in small steps on the state and gives the mutex back with the last one; a thread that
finds it taken waits. However the threads are scheduled, the object goes through the
sequential run of the operations in the order in which they took the mutex.
-/
namespace Library
variable {σ ι κ ω θ : Type*}

/-- The body of the operations: where it starts, and the steps that lead to its end. -/
structure CriticalSection (σ ι κ ω : Type*) where
  enter : ι → κ
  advance : σ → κ → σ × List ω × Option κ

namespace CriticalSection
variable {C : CriticalSection σ ι κ ω}

/-- All steps from a point of the body on: the state it is left in, and what it sends. -/
inductive Completes (C : CriticalSection σ ι κ ω) : σ → κ → σ → List ω → Prop
  | leave {s k s' out} : C.advance s k = (s',out,none) → Completes C s k s' out
  | next {s k s' out k' t rest} : C.advance s k = (s',out,some k') → Completes C s' k' t rest →
      Completes C s k t (out ++ rest)

/-- Run without interruption, every call does what the sequential machine does. -/
def Implements (C : CriticalSection σ ι κ ω) (step : Machine σ ι ω) : Prop :=
  ∀ s i, C.Completes s (C.enter i) (step s i).1 (step s i).2

/-- The object, the calls that each thread is still to make, who is inside and where, and
the calls in the order in which they got in. -/
structure Shared (σ ι κ θ : Type*) where
  state : σ
  program : θ → List ι
  inside : Option (θ × κ) := none
  entered : List (θ × ι) := []

section Steps
variable [DecidableEq θ]

/-- The next step of a thread. One that finds the mutex taken by another waits. -/
def step (C : CriticalSection σ ι κ ω) : Machine (Shared σ ι κ θ) θ ω
  | s, thread =>
    match s.inside with
    | none =>
      match s.program thread with
      | [] => (s,[])
      | i :: is => ({ s with
          program := Function.update s.program thread is
          inside := some (thread,C.enter i)
          entered := s.entered ++ [(thread,i)] },[])
    | some (holder,k) =>
      if holder = thread then
        ({ s with
          state := (C.advance s.state k).1
          inside := (C.advance s.state k).2.2.map (fun k' => (holder,k')) },
          (C.advance s.state k).2.1)
      else (s,[])

/-- What is done and sent so far, with the rest of the call that is inside, is the
sequential run of all calls that got in. -/
def Linear (C : CriticalSection σ ι κ ω) (seq : Machine σ ι ω) (start : σ) (s : Shared σ ι κ θ)
    (out : List ω) : Prop :=
  let calls := s.entered.map Prod.snd
  match s.inside with
  | none => s.state = Machine.final seq start calls ∧
      out = (Machine.answers seq start calls).flatten
  | some (_,k) => ∃ rest, C.Completes s.state k (Machine.final seq start calls) rest ∧
      out ++ rest = (Machine.answers seq start calls).flatten

variable {seq : Machine σ ι ω} {start : σ} {s : Shared σ ι κ θ} {out : List ω}

theorem Linear.step (hseq : C.Implements seq) (h : C.Linear seq start s out) (thread : θ) :
    C.Linear seq start (C.step s thread).1 (out ++ (C.step s thread).2) := by
  obtain ⟨state,program,inside,entered⟩ := s
  cases inside with
  | none =>
    obtain ⟨hstate,hout⟩ := h
    dsimp only at hstate hout
    cases hp : program thread with
    | nil =>
      simp only [CriticalSection.step,hp,List.append_nil]
      exact ⟨hstate,hout⟩
    | cons i is =>
      simp only [CriticalSection.step,hp,Linear]
      have hi := hseq state i
      refine ⟨(seq state i).2,?_,?_⟩
      · simpa [Machine.final,hstate] using hi
      · rw [List.map_append,Machine.answers_append,List.flatten_append,← hout,← hstate]
        simp [Machine.answers,Machine.trace]
  | some inside =>
    obtain ⟨holder,k⟩ := inside
    obtain ⟨rest,hrest,hout⟩ := h
    by_cases hholder : holder = thread
    · simp only [CriticalSection.step,hholder,↓reduceIte]
      cases hrest with
      | leave hadvance =>
        simp only [hadvance,Option.map_none,Linear]
        exact ⟨trivial,hout⟩
      | next hadvance hrest =>
        simp only [hadvance,Option.map_some,Linear]
        exact ⟨_,hrest,by rw [List.append_assoc]; exact hout⟩
    · simp only [CriticalSection.step,hholder,↓reduceIte,List.append_nil]
      exact ⟨rest,hrest,hout⟩

theorem Linear.run (hseq : C.Implements seq) (h : C.Linear seq start s out) (schedule : List θ) :
    C.Linear seq start (Machine.final C.step s schedule)
      (out ++ (Machine.answers C.step s schedule).flatten) := by
  induction schedule generalizing s out with
  | nil => simpa [Machine.final,Machine.answers,Machine.trace] using h
  | cons thread schedule ih =>
    have hrun := ih (h.step hseq thread)
    rw [List.append_assoc] at hrun
    exact hrun

/-- The calls of one thread that got in, and those it is still to make. -/
def ordered (s : Shared σ ι κ θ) (thread : θ) : List ι :=
  (s.entered.filter (fun e => decide (e.1 = thread))).map Prod.snd ++ s.program thread

theorem ordered_step (C : CriticalSection σ ι κ ω) (s : Shared σ ι κ θ) (thread thread' : θ) :
    ordered (C.step s thread).1 thread' = ordered s thread' := by
  obtain ⟨state,program,inside,entered⟩ := s
  cases inside with
  | none =>
    cases hp : program thread with
    | nil => simp only [step,hp]
    | cons i is =>
      simp only [step,hp,ordered,List.filter_append,List.map_append]
      by_cases ht : thread = thread'
      · subst ht
        simp [hp]
      · simp [ht,Ne.symm ht]
  | some inside =>
    simp only [step]
    split_ifs <;> rfl

theorem ordered_final (C : CriticalSection σ ι κ ω) (s : Shared σ ι κ θ) (schedule : List θ)
    (thread : θ) : ordered (Machine.final C.step s schedule) thread = ordered s thread :=
  Machine.final_invariant (C := fun _ _ => True)
    (I := fun s' : Shared σ ι κ θ => ordered s' thread = ordered s thread)
    (fun s' t h _ => (ordered_step C s' t thread).trans h) rfl
    (Machine.stepsMeet_of_all (fun _ _ => trivial))

/-- Whoever is inside gets out by its own steps. -/
theorem Completes.exists_leaves {k : κ} {state t : σ} {rest : List ω}
    (h : C.Completes state k t rest) (s : Shared σ ι κ θ) {holder : θ}
    (hinside : s.inside = some (holder,k)) (hstate : s.state = state) :
    ∃ n, (Machine.final C.step s (List.replicate n holder)).inside = none := by
  induction h generalizing s with
  | leave hadvance =>
    refine ⟨1,?_⟩
    simp [Machine.final,step,hinside,hstate,hadvance]
  | next hadvance _ ih =>
    obtain ⟨n,hn⟩ := ih (C.step s holder).1
      (by simp [step,hinside,hstate,hadvance]) (by simp [step,hinside,hstate,hadvance])
    exact ⟨n + 1,hn⟩

/-- From a free mutex on, every schedule is linearized by the order of entry: it keeps the
order of each thread, whenever nobody is inside the state and the messages are those of the
sequential run, and from any point the one inside gets out by its own steps. -/
theorem linearizable (hseq : C.Implements seq) (start : σ) (program : θ → List ι)
    (schedule : List θ) :
    let s := Machine.final C.step (⟨start,program,none,[]⟩ : Shared σ ι κ θ) schedule
    let out := (Machine.answers C.step (⟨start,program,none,[]⟩ : Shared σ ι κ θ)
      schedule).flatten
    let calls := s.entered.map Prod.snd
    (∀ thread, (s.entered.filter (fun e => decide (e.1 = thread))).map Prod.snd ++
      s.program thread = program thread) ∧
    (s.inside = none → s.state = Machine.final seq start calls ∧
      out = (Machine.answers seq start calls).flatten) ∧
    ∀ holder k, s.inside = some (holder,k) →
      ∃ n, (Machine.final C.step s (List.replicate n holder)).inside = none := by
  intro s out calls
  have hlinear : C.Linear seq start s out := by
    have hstart : C.Linear seq start (⟨start,program,none,[]⟩ : Shared σ ι κ θ) [] := ⟨rfl,rfl⟩
    simpa using hstart.run hseq schedule
  refine ⟨?_,?_,?_⟩
  · intro thread
    have h := ordered_final C (⟨start,program,none,[]⟩ : Shared σ ι κ θ) schedule thread
    simpa [ordered] using h
  · intro hinside
    simpa [Linear,hinside] using hlinear
  · intro holder k hinside
    simp only [Linear,hinside] at hlinear
    obtain ⟨rest,hrest,_⟩ := hlinear
    exact hrest.exists_leaves s hinside rfl

end Steps
end CriticalSection
end Library
