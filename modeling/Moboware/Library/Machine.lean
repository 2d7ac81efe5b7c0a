import Mathlib.Data.List.Forall2

/-! # Runs of machines that answer each input

A machine is its step function. Safety of whole runs is reduced here to what
one step preserves, for runs restricted by a condition on the state a step
starts from, for observers of the outputs, and for pairs of related machines.
-/
namespace Library
variable {σ τ ι κ ω ν : Type*}

abbrev Machine (σ ι ω : Type*) := σ → ι → σ × List ω

namespace Machine

def final (step : Machine σ ι ω) (s : σ) (inputs : List ι) : σ :=
  inputs.foldl (fun s i => (step s i).1) s

/-- After each input: the state and what was sent while handling it. -/
def trace (step : Machine σ ι ω) (s : σ) : List ι → List (σ × List ω)
  | [] => []
  | i :: is => step s i :: trace step (step s i).1 is

/-- What is sent, input for input. -/
def answers (step : Machine σ ι ω) (s : σ) (inputs : List ι) : List (List ω) :=
  (trace step s inputs).map Prod.snd

theorem final_cons {step : Machine σ ι ω} (s : σ) (i : ι) (is : List ι) :
    final step s (i :: is) = final step (step s i).1 is := rfl

theorem final_append {step : Machine σ ι ω} (s : σ) (is js : List ι) :
    final step s (is ++ js) = final step (final step s is) js := List.foldl_append

theorem answers_cons {step : Machine σ ι ω} (s : σ) (i : ι) (is : List ι) :
    answers step s (i :: is) = (step s i).2 :: answers step (step s i).1 is := rfl

theorem answers_append {step : Machine σ ι ω} {s : σ} (is js : List ι) :
    answers step s (is ++ js) = answers step s is ++ answers step (final step s is) js := by
  induction is generalizing s with
  | nil => rfl
  | cons i is ih => exact congrArg _ ih

theorem length_answers {step : Machine σ ι ω} {s : σ} (is : List ι) :
    (answers step s is).length = is.length := by
  induction is generalizing s with
  | nil => rfl
  | cons i is ih => exact congrArg _ ih

/-- The sum over the run of what each input counts in the state it arrives in. -/
def tally (step : Machine σ ι ω) (count : σ → ι → ℕ) : σ → List ι → ℕ
  | _, [] => 0
  | s, i :: is => count s i + tally step count (step s i).1 is

/-- Every input of the run meets the condition in the state it arrives in. -/
def StepsMeet (step : Machine σ ι ω) (C : σ → ι → Prop) : σ → List ι → Prop
  | _, [] => True
  | s, i :: is => C s i ∧ StepsMeet step C (step s i).1 is

instance decidableStepsMeet {step : Machine σ ι ω} {C : σ → ι → Prop} [∀ s i, Decidable (C s i)]
    (s : σ) : (is : List ι) → Decidable (StepsMeet step C s is)
  | [] => isTrue trivial
  | i :: is =>
    have := @decidableStepsMeet step C _ (step s i).1 is
    inferInstanceAs (Decidable (C s i ∧ StepsMeet step C (step s i).1 is))

theorem StepsMeet.and {step : Machine σ ι ω} {C D : σ → ι → Prop} {s : σ} {is : List ι}
    (hC : StepsMeet step C s is) (hD : StepsMeet step D s is) :
    StepsMeet step (fun s i => C s i ∧ D s i) s is := by
  induction is generalizing s with
  | nil => trivial
  | cons i is ih => exact ⟨⟨hC.1,hD.1⟩,ih hC.2 hD.2⟩

/-- A condition on the inputs alone. -/
theorem stepsMeet_of_forall {step : Machine σ ι ω} {C : ι → Prop} {s : σ} {is : List ι}
    (h : ∀ i ∈ is, C i) : StepsMeet step (fun _ i => C i) s is := by
  induction is generalizing s with
  | nil => trivial
  | cons i is ih =>
    exact ⟨h i List.mem_cons_self,ih (fun j hj => h j (List.mem_cons_of_mem i hj))⟩

theorem stepsMeet_of_all {step : Machine σ ι ω} {C : σ → ι → Prop} (h : ∀ s i, C s i) {s : σ}
    {is : List ι} : StepsMeet step C s is := by
  induction is generalizing s with
  | nil => trivial
  | cons i is ih => exact ⟨h s i,ih⟩

theorem final_invariant {step : Machine σ ι ω} {C : σ → ι → Prop} {I : σ → Prop}
    (hI : ∀ s i, I s → C s i → I (step s i).1) {s : σ} {is : List ι}
    (hs : I s) (hC : StepsMeet step C s is) : I (final step s is) := by
  induction is generalizing s with
  | nil => exact hs
  | cons i is ih => exact ih (hI s i hs hC.1) hC.2

theorem trace_invariant {step : Machine σ ι ω} {C : σ → ι → Prop} {I : σ → Prop}
    (hI : ∀ s i, I s → C s i → I (step s i).1) {s : σ} {is : List ι}
    (hs : I s) (hC : StepsMeet step C s is) : ∀ r ∈ trace step s is, I r.1 := by
  induction is generalizing s with
  | nil => exact fun _ hr => absurd hr List.not_mem_nil
  | cons i is ih =>
    intro r hr
    rcases List.mem_cons.mp hr with rfl | hr
    · exact hI s i hs hC.1
    · exact ih (hI s i hs hC.1) hC.2 r hr

theorem StepsMeet.imp {step : Machine σ ι ω} {C C' : σ → ι → Prop} {I : σ → Prop}
    (hI : ∀ s i, I s → I (step s i).1) (h : ∀ s i, I s → C s i → C' s i) {s : σ} {is : List ι}
    (hs : I s) (hC : StepsMeet step C s is) : StepsMeet step C' s is := by
  induction is generalizing s with
  | nil => trivial
  | cons i is ih => exact ⟨h s i hs hC.1,ih (hI s i hs) hC.2⟩

/-- Two conditions that agree where the invariant holds. -/
theorem stepsMeet_congr {step : Machine σ ι ω} {C C' D : σ → ι → Prop} {I : σ → Prop}
    (hI : ∀ s i, I s → D s i → I (step s i).1) (h : ∀ s i, I s → (C s i ↔ C' s i)) {s : σ}
    {is : List ι} (hs : I s) (hD : StepsMeet step D s is) :
    StepsMeet step C s is ↔ StepsMeet step C' s is := by
  induction is generalizing s with
  | nil => exact Iff.rfl
  | cons i is ih => exact and_congr (h s i hs) (ih (hI s i hs hD.1) hD.2)

/-- With outputs that the state counts: over a run they are the values of their numbers, in
order, exactly if those of each step are. -/
theorem answers_numbered_iff {step : Machine σ ι ω} {count : σ → ℕ} (f : ℕ → ω)
    (hcount : ∀ s i, count (step s i).1 = count s + (step s i).2.length) (s : σ) (is : List ι) :
    (answers step s is).flatten =
        (List.range' (count s) (answers step s is).flatten.length).map f ↔
      StepsMeet step (fun s i => (step s i).2 =
        (List.range' (count s) (step s i).2.length).map f) s is := by
  induction is generalizing s with
  | nil => simp [answers,trace,StepsMeet]
  | cons i is ih =>
    rw [answers_cons,List.flatten_cons,List.length_append,← List.range'_append_1,
      List.map_append,StepsMeet,← ih (step s i).1,hcount]
    exact ⟨fun h => List.append_inj h (by simp),fun ⟨hi,his⟩ => congrArg₂ _ hi his⟩

/-- An invariant that the good steps keep, with a property of states and outputs that the
good steps have and the others lack, characterizes the runs that have it throughout. -/
theorem trace_forall_results_iff {step : Machine σ ι ω} {C D : σ → ι → Prop} {I : σ → Prop}
    {Q : σ × List ω → Prop}
    (hgood : ∀ s i, I s → D s i → C s i → I (step s i).1 ∧ Q (step s i))
    (hbad : ∀ s i, I s → D s i → ¬ C s i → ¬ Q (step s i)) {s : σ} {is : List ι}
    (hs : I s) (hD : StepsMeet step D s is) :
    (∀ r ∈ trace step s is, Q r) ↔ StepsMeet step C s is := by
  induction is generalizing s with
  | nil => simp [trace,StepsMeet]
  | cons i is ih =>
    simp only [trace,List.forall_mem_cons,StepsMeet]
    by_cases hC : C s i
    · obtain ⟨hs',hQ⟩ := hgood s i hs hD.1 hC
      rw [ih hs' hD.2]
      exact and_congr_left (fun _ => iff_of_true hQ hC)
    · exact iff_of_false (fun h => hbad s i hs hD.1 hC h.1) (fun h => hC h.1)

/-- The property may be one of the states that the invariant implies. -/
theorem trace_forall_iff {step : Machine σ ι ω} {C D : σ → ι → Prop} {I Q : σ → Prop}
    (hgood : ∀ s, I s → Q s) (hstep : ∀ s i, I s → D s i → C s i → I (step s i).1)
    (hbad : ∀ s i, I s → D s i → ¬ C s i → ¬ Q (step s i).1) {s : σ} {is : List ι}
    (hs : I s) (hD : StepsMeet step D s is) :
    (∀ r ∈ trace step s is, Q r.1) ↔ StepsMeet step C s is :=
  trace_forall_results_iff (Q := fun r => Q r.1)
    (fun s i hs hD hC => ⟨hstep s i hs hD hC,hgood _ (hstep s i hs hD hC)⟩) hbad hs hD

/-- What a step keeps exactly under the condition, and no step regains, holds at the end of
exactly the runs whose steps all meet it. -/
theorem final_iff_stepsMeet {step : Machine σ ι ω} {C D : σ → ι → Prop} {I J : σ → Prop}
    (hI : ∀ s i, I s → D s i → I (step s i).1)
    (hJ : ∀ s i, I s → D s i → (J (step s i).1 ↔ J s ∧ C s i)) {s : σ} {is : List ι} (hs : I s)
    (hD : StepsMeet step D s is) : J (final step s is) ↔ J s ∧ StepsMeet step C s is := by
  induction is generalizing s with
  | nil => exact (and_iff_left trivial).symm
  | cons i is ih =>
    rw [StepsMeet,← and_assoc,← hJ s i hs hD.1]
    exact ih (hI s i hs hD.1) hD.2

/-- A condition on one part of the state, when that part runs by itself. -/
theorem stepsMeet_part {step : Machine σ ι ω} {step' : Machine τ ι ν} {part : σ → τ}
    (hpart : ∀ s i, part (step s i).1 = (step' (part s) i).1) {C : τ → ι → Prop}
    {s : σ} {is : List ι} :
    StepsMeet step (fun s i => C (part s) i) s is ↔ StepsMeet step' C (part s) is := by
  induction is generalizing s with
  | nil => exact Iff.rfl
  | cons i is ih =>
    rw [StepsMeet,StepsMeet,ih,hpart]

/-- The machine with an observer that sees every input and every output. -/
def observed (step : Machine σ ι ω) (see : τ → ι → List ω → τ) : Machine (σ × τ) ι ω :=
  fun s i => (((step s.1 i).1,see s.2 i (step s.1 i).2),(step s.1 i).2)

theorem stepsMeet_observed {step : Machine σ ι ω} {see : τ → ι → List ω → τ} {C : σ → ι → Prop}
    {s : σ × τ} {is : List ι} :
    StepsMeet (observed step see) (fun s i => C s.1 i) s is ↔ StepsMeet step C s.1 is :=
  stepsMeet_part (fun _ _ => rfl)

/-- Related machines have related traces, output for output, as long as the inputs
meet the condition in the states of the first. -/
theorem trace_simulation_of_stepsMeet {step : Machine σ ι ω} {step' : Machine τ κ ν}
    {R : σ → τ → Prop} {f : ι → κ} {g : ω → ν} {C : σ → ι → Prop}
    (hR : ∀ s t i, R s t → C s i → R (step s i).1 (step' t (f i)).1 ∧
      (step' t (f i)).2 = (step s i).2.map g)
    {s : σ} {t : τ} (h : R s t) {is : List ι} (hC : StepsMeet step C s is) :
    List.Forall₂ (fun a b => R a.1 b.1 ∧ b.2 = a.2.map g) (trace step s is)
      (trace step' t (is.map f)) := by
  induction is generalizing s t with
  | nil => exact List.Forall₂.nil
  | cons i is ih =>
    have hi := hR s t i h hC.1
    exact List.Forall₂.cons hi (ih hi.1 hC.2)

/-- The condition may be one on the inputs alone. -/
theorem trace_simulation {step : Machine σ ι ω} {step' : Machine τ κ ν} {R : σ → τ → Prop}
    {f : ι → κ} {g : ω → ν} {C : ι → Prop}
    (hR : ∀ s t i, R s t → C i → R (step s i).1 (step' t (f i)).1 ∧
      (step' t (f i)).2 = (step s i).2.map g)
    {s : σ} {t : τ} (h : R s t) {is : List ι} (hC : ∀ i ∈ is, C i) :
    List.Forall₂ (fun a b => R a.1 b.1 ∧ b.2 = a.2.map g) (trace step s is)
      (trace step' t (is.map f)) :=
  trace_simulation_of_stepsMeet hR h (stepsMeet_of_forall hC)

/-- Two machines on the same inputs with the same outputs. -/
theorem trace_refinement {step : Machine σ ι ω} {step' : Machine τ ι ω} {R : σ → τ → Prop}
    {C : σ → ι → Prop}
    (hR : ∀ s t i, R s t → C s i → R (step s i).1 (step' t i).1 ∧ (step' t i).2 = (step s i).2)
    {s : σ} {t : τ} (h : R s t) {is : List ι} (hC : StepsMeet step C s is) :
    List.Forall₂ (fun a b => R a.1 b.1 ∧ b.2 = a.2) (trace step s is) (trace step' t is) := by
  have hsim := trace_simulation_of_stepsMeet (f := id) (g := id) (fun s t i hst hi => by
    rw [List.map_id]
    exact hR s t i hst hi) h hC
  simpa only [List.map_id] using hsim

/-- Two machines agree, state for state and output for output, in exactly the runs whose steps
all meet the condition: good steps keep the relation, and the others break what is compared. -/
theorem trace_agreement_iff {step : Machine σ ι ω} {step' : Machine τ ι ω} {R Q : σ → τ → Prop}
    {C D : σ → ι → Prop} (hQ : ∀ s t, R s t → Q s t)
    (hgood : ∀ s t i, R s t → D s i → C s i →
      R (step s i).1 (step' t i).1 ∧ (step' t i).2 = (step s i).2)
    (hbad : ∀ s t i, R s t → D s i → ¬ C s i →
      ¬ (Q (step s i).1 (step' t i).1 ∧ (step' t i).2 = (step s i).2))
    {s : σ} {t : τ} (h : R s t) {is : List ι} (hD : StepsMeet step D s is) :
    List.Forall₂ (fun a b => Q a.1 b.1 ∧ b.2 = a.2) (trace step s is) (trace step' t is) ↔
      StepsMeet step C s is := by
  induction is generalizing s t with
  | nil => exact iff_of_true List.Forall₂.nil trivial
  | cons i is ih =>
    rw [trace,trace,List.forall₂_cons,StepsMeet]
    by_cases hC : C s i
    · obtain ⟨hR,hout⟩ := hgood s t i h hD.1 hC
      exact and_congr (iff_of_true ⟨hQ _ _ hR,hout⟩ hC) (ih hR hD.2)
    · exact iff_of_false (fun hall => hbad s t i h hD.1 hC hall.1) (fun hall => hC hall.1)

/-- So their answers are the same. -/
theorem answers_eq_of_stepsMeet {step : Machine σ ι ω} {step' : Machine τ ι ω} {R : σ → τ → Prop}
    {C : σ → ι → Prop}
    (hR : ∀ s t i, R s t → C s i → R (step s i).1 (step' t i).1 ∧ (step' t i).2 = (step s i).2)
    {s : σ} {t : τ} (h : R s t) {is : List ι} (hC : StepsMeet step C s is) :
    answers step s is = answers step' t is := by
  have hsame : List.Forall₂ (· = ·) (answers step s is) (answers step' t is) := by
    rw [answers,answers,List.forall₂_map_left_iff,List.forall₂_map_right_iff]
    apply (trace_refinement hR h hC).imp
    intro a b hab
    exact hab.2.symm
  rwa [List.forall₂_eq_eq_eq] at hsame

end Machine
end Library
