import Moboware.Library.Machine

/-! # Machines made of components

A state holds a component under each of some keys, and an input is a request to one of them,
or to none. Every component then goes through the run of its own requests, with the answers
it would give alone, whatever is asked of the others.
-/
namespace Library
variable {S κ σ ι ρ ω : Type*}

/-- One input steps the component that it is a request to and leaves the others; a request to
a key without a component, and no request, are answered with nothing. -/
structure Routes (step : Machine S ι ω) (component : S → κ → Option σ) (part : Machine σ ρ ω)
    (request : ι → Option (κ × ρ)) : Prop where
  ignored : ∀ s i, request i = none → component (step s i).1 = component s ∧ (step s i).2 = []
  others : ∀ s i k r, request i = some (k,r) →
    ∀ k' ≠ k, component (step s i).1 k' = component s k'
  absent : ∀ s i k r, request i = some (k,r) → component s k = none →
    component (step s i).1 k = none ∧ (step s i).2 = []
  present : ∀ s i k r c, request i = some (k,r) → component s k = some c →
    component (step s i).1 k = some (part c r).1 ∧ (step s i).2 = (part c r).2

section Requests
variable [DecidableEq κ]

/-- What an input asks of one component. -/
def requestTo (request : ι → Option (κ × ρ)) (k : κ) (i : ι) : Option ρ :=
  (request i).bind (fun r => if r.1 = k then some r.2 else none)

theorem requestTo_eq_some_iff {request : ι → Option (κ × ρ)} {k : κ} {i : ι} {r : ρ} :
    requestTo request k i = some r ↔ request i = some (k,r) := by
  unfold requestTo
  rw [Option.bind_eq_some_iff]
  constructor
  · rintro ⟨⟨k',r'⟩,hr,hk⟩
    split_ifs at hk with he
    cases hk
    cases he
    exact hr
  · intro h
    exact ⟨(k,r),h,if_pos rfl⟩

/-- The answers to the inputs that ask something of the component. -/
def answersTo (request : ι → Option (κ × ρ)) (k : κ) (inputs : List ι)
    (answers : List (List ω)) : List (List ω) :=
  (inputs.zip answers).filterMap (fun p => (requestTo request k p.1).map (fun _ => p.2))

namespace Routes
variable {step : Machine S ι ω} {component : S → κ → Option σ} {part : Machine σ ρ ω}
  {request : ι → Option (κ × ρ)} {s : S} {k : κ}

/-- An input that asks nothing of a component leaves it as it is. -/
theorem component_of_requestTo_eq_none (h : Routes step component part request) {i : ι}
    (hi : requestTo request k i = none) : component (step s i).1 k = component s k := by
  cases hr : request i with
  | none => rw [(h.ignored s i hr).1]
  | some r =>
    obtain ⟨k',r⟩ := r
    refine h.others s i k' r hr k ?_
    rintro rfl
    rw [requestTo_eq_some_iff.mpr hr] at hi
    cases hi

/-- A component is after a run where the run of its own requests takes it. -/
theorem component_final (h : Routes step component part request) {c : σ}
    (hc : component s k = some c) (inputs : List ι) :
    component (Machine.final step s inputs) k =
      some (Machine.final part c (inputs.filterMap (requestTo request k))) := by
  induction inputs generalizing s c with
  | nil => exact hc
  | cons i inputs ih =>
    cases hi : requestTo request k i with
    | none =>
      rw [List.filterMap_cons_none hi]
      exact ih ((h.component_of_requestTo_eq_none hi).trans hc)
    | some r =>
      rw [List.filterMap_cons_some hi]
      exact ih (h.present s i k r c (requestTo_eq_some_iff.mp hi) hc).1

/-- And its requests are answered as if there were no others. -/
theorem answersTo_run (h : Routes step component part request) {c : σ}
    (hc : component s k = some c) (inputs : List ι) :
    answersTo request k inputs (Machine.answers step s inputs) =
      Machine.answers part c (inputs.filterMap (requestTo request k)) := by
  induction inputs generalizing s c with
  | nil => rfl
  | cons i inputs ih =>
    have hcons : answersTo request k (i :: inputs) (Machine.answers step s (i :: inputs)) =
        ((requestTo request k i).map (fun _ => (step s i).2)).toList ++
          answersTo request k inputs (Machine.answers step (step s i).1 inputs) := by
      cases hi : requestTo request k i <;>
        simp [answersTo,Machine.answers,Machine.trace,hi]
    rw [hcons]
    cases hi : requestTo request k i with
    | none =>
      rw [List.filterMap_cons_none hi]
      exact ih ((h.component_of_requestTo_eq_none hi).trans hc)
    | some r =>
      obtain ⟨hnext,hout⟩ := h.present s i k r c (requestTo_eq_some_iff.mp hi) hc
      rw [List.filterMap_cons_some hi,ih hnext,hout]
      rfl

/-- A key without a component stays without one. -/
theorem component_final_eq_none (h : Routes step component part request)
    (hk : component s k = none) (inputs : List ι) :
    component (Machine.final step s inputs) k = none := by
  refine Machine.final_invariant (C := fun _ _ => True) (I := fun s => component s k = none)
    (fun s i hs _ => ?_) hk (Machine.stepsMeet_of_all (fun _ _ => trivial))
  cases hi : requestTo request k i with
  | none => exact (h.component_of_requestTo_eq_none hi).trans hs
  | some r => exact (h.absent s i k r (requestTo_eq_some_iff.mp hi) hs).1

/-- And its requests with nothing but silence. -/
theorem answersTo_eq_nil (h : Routes step component part request) (hk : component s k = none)
    (inputs : List ι) :
    ∀ out ∈ answersTo request k inputs (Machine.answers step s inputs), out = [] := by
  induction inputs generalizing s with
  | nil => exact fun _ hout => absurd hout List.not_mem_nil
  | cons i inputs ih =>
    intro out hout
    cases hi : requestTo request k i with
    | none =>
      refine ih ((h.component_of_requestTo_eq_none hi).trans hk) out ?_
      simpa [answersTo,Machine.answers,Machine.trace,hi] using hout
    | some r =>
      obtain ⟨hnext,hsilent⟩ := h.absent s i k r (requestTo_eq_some_iff.mp hi) hk
      have hmem : out = (step s i).2 ∨
          out ∈ answersTo request k inputs (Machine.answers step (step s i).1 inputs) := by
        simpa [answersTo,Machine.answers,Machine.trace,hi] using hout
      rcases hmem with rfl | hmem
      · exact hsilent
      · exact ih hnext out hmem

omit [DecidableEq κ] in
/-- An input that is no request is answered with nothing, wherever it stands in the run. -/
theorem unrequested_silent (h : Routes step component part request) (inputs : List ι) :
    ∀ p ∈ inputs.zip (Machine.answers step s inputs), request p.1 = none → p.2 = [] := by
  induction inputs generalizing s with
  | nil => exact fun _ hp => absurd hp List.not_mem_nil
  | cons i inputs ih =>
    intro p hp hnone
    rcases List.mem_cons.mp hp with rfl | hp
    · exact (h.ignored s i hnone).2
    · exact ih p hp hnone

end Routes
end Requests

/-! ### Every component gets every input -/

/-- The answers of the components come in their order. -/
def broadcast (part : Machine σ ι ω) : Machine (List σ) ι ω :=
  fun parts i => (parts.map (fun c => (part c i).1),parts.flatMap (fun c => (part c i).2))

theorem final_broadcast (part : Machine σ ι ω) (parts : List σ) (inputs : List ι) :
    Machine.final (broadcast part) parts inputs =
      parts.map (fun c => Machine.final part c inputs) := by
  induction inputs generalizing parts with
  | nil => exact (List.map_id' parts).symm
  | cons i inputs ih =>
    rw [Machine.final_cons,ih,broadcast,List.map_map]
    rfl

end Library
