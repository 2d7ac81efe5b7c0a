import Moboware.Library.Machine

/-! # Machines that stop together

A pool runs its parts side by side, one input at a time, until one of them halts: then
none of them goes on. Up to that input each part goes through its own inputs as if it were alone.
-/
namespace Library
variable {σ ι ω α : Type*}

structure Pool (σ : Type*) where
  parts : List σ
  stopped : Bool

namespace Pool

/-- An input names its part, and so does what the part answers. -/
def step (part : Machine σ ι ω) (halts : σ → Bool) : Machine (Pool σ) (ℕ × ι) (ℕ × ω) :=
  fun s i =>
    if s.stopped then (s,[])
    else match s.parts[i.1]? with
      | none => (s,[])
      | some c => (⟨s.parts.set i.1 (part c i.2).1,halts (part c i.2).1⟩,
          (part c i.2).2.map (fun out => (i.1,out)))

/-- The inputs that come before the pool has stopped. -/
def performed (part : Machine σ ι ω) (halts : σ → Bool) : Pool σ → List (ℕ × ι) → List (ℕ × ι)
  | _, [] => []
  | s, i :: is => if s.stopped then [] else i :: performed part halts (step part halts s i).1 is

/-- What is marked for one part. -/
def marked (k : ℕ) (l : List (ℕ × α)) : List α :=
  l.filterMap (fun p => if p.1 = k then some p.2 else none)

theorem marked_append (k : ℕ) (l l' : List (ℕ × α)) : marked k (l ++ l') = marked k l ++ marked k l' :=
  List.filterMap_append

theorem marked_cons_self (k : ℕ) (a : α) (l : List (ℕ × α)) : marked k ((k,a) :: l) = a :: marked k l := by
  simp [marked]

theorem marked_cons_of_ne {k j : ℕ} (h : j ≠ k) (a : α) (l : List (ℕ × α)) :
    marked k ((j,a) :: l) = marked k l := by simp [marked,h]

theorem marked_map_self (k : ℕ) (l : List α) : marked k (l.map (fun a => (k,a))) = l := by
  simp [marked,List.filterMap_map]

theorem marked_map_of_ne {k j : ℕ} (h : j ≠ k) (l : List α) : marked k (l.map (fun a => (j,a))) = [] := by
  simp [marked,h]

section Runs
variable (part : Machine σ ι ω) (halts : σ → Bool) {s : Pool σ}

theorem final_of_stopped (h : s.stopped = true) (is : List (ℕ × ι)) :
    Machine.final (step part halts) s is = s ∧
      (Machine.answers (step part halts) s is).flatten = [] ∧ performed part halts s is = [] := by
  have hstep : ∀ i, step part halts s i = (s,[]) := fun i => if_pos h
  induction is with
  | nil => exact ⟨rfl,rfl,rfl⟩
  | cons i is ih =>
    rw [Machine.final_cons,Machine.answers_cons,hstep i]
    exact ⟨ih.1,ih.2.1,if_pos h⟩

/-- What a step does to one part and to what is marked for it. -/
theorem step_part (hrun : s.stopped = false) {k : ℕ} {c : σ} (hc : s.parts[k]? = some c)
    (i : ℕ × ι) : (step part halts s i).1.parts[k]? =
        some (if i.1 = k then (part c i.2).1 else c) ∧
      marked k (step part halts s i).2 = if i.1 = k then (part c i.2).2 else [] := by
  have hlt := (List.getElem?_eq_some_iff.mp hc).1
  unfold step
  simp only [hrun,Bool.false_eq_true,↓reduceIte]
  by_cases hi : i.1 = k
  · simp only [hi,hc,↓reduceIte,marked_map_self,and_true]
    exact List.getElem?_set_self hlt
  · cases hj : s.parts[i.1]? with
    | none => simp [hi,hc,marked]
    | some d => simp [hi,hc,marked_map_of_ne hi]

/-- Each part takes its own inputs, up to the stop, where it would alone, and answers them so. -/
theorem run_part {k : ℕ} {c : σ} (hc : s.parts[k]? = some c) (is : List (ℕ × ι)) :
    (Machine.final (step part halts) s is).parts[k]? =
        some (Machine.final part c (marked k (performed part halts s is))) ∧
      marked k (Machine.answers (step part halts) s is).flatten =
        (Machine.answers part c (marked k (performed part halts s is))).flatten := by
  induction is generalizing s c with
  | nil => exact ⟨hc,rfl⟩
  | cons i is ih =>
    by_cases hstop : s.stopped = true
    · obtain ⟨hfinal,hanswers,hperformed⟩ :=
        final_of_stopped part halts hstop (i :: is)
      rw [hfinal,hanswers,hperformed]
      exact ⟨hc,rfl⟩
    · obtain ⟨j,a⟩ := i
      obtain ⟨hparts,hmarked⟩ :=
        step_part part halts (Bool.not_eq_true _ ▸ hstop) hc (j,a)
      obtain ⟨hfinal,hanswers⟩ := ih hparts
      rw [Machine.final_cons,Machine.answers_cons,List.flatten_cons,marked_append,hfinal,hanswers,hmarked,
        performed,if_neg hstop]
      by_cases hj : j = k
      · subst hj
        simp [marked_cons_self,Machine.final_cons,Machine.answers_cons]
      · simp [marked_cons_of_ne hj,hj]

theorem performed_prefix (s : Pool σ) (is : List (ℕ × ι)) : performed part halts s is <+: is := by
  induction is generalizing s with
  | nil => exact List.prefix_rfl
  | cons i is ih =>
    unfold performed
    split_ifs
    · exact List.nil_prefix
    · exact List.cons_prefix_cons.mpr ⟨rfl,ih _⟩

/-- Nothing is left out of a run that has not stopped. -/
theorem performed_eq_self {is : List (ℕ × ι)}
    (h : (Machine.final (step part halts) s is).stopped = false) :
    performed part halts s is = is := by
  induction is generalizing s with
  | nil => rfl
  | cons i is ih =>
    by_cases hstop : s.stopped = true
    · rw [(final_of_stopped part halts hstop (i :: is)).1,hstop] at h
      cases h
    · rw [performed,if_neg hstop,ih h]

/-- A pool has stopped exactly when one of its parts has halted. -/
theorem stopped_final (h : s.stopped = s.parts.any halts) (is : List (ℕ × ι)) :
    (Machine.final (step part halts) s is).stopped =
      (Machine.final (step part halts) s is).parts.any halts := by
  refine Machine.final_invariant (C := fun _ _ => True)
    (I := fun s : Pool σ => s.stopped = s.parts.any halts) (fun s i hs _ => ?_) h
    (Machine.stepsMeet_of_all (fun _ _ => trivial))
  unfold step
  split_ifs with hstop
  · exact hs
  · have hquiet : ∀ d ∈ s.parts, halts d = false := by
      simpa [hs] using hstop
    cases hc : s.parts[i.1]? with
    | none => exact hs
    | some c =>
      have hlt := (List.getElem?_eq_some_iff.mp hc).1
      refine Bool.eq_iff_iff.mpr ?_
      rw [List.any_eq_true]
      constructor
      · exact fun hhalts => ⟨_,List.mem_set hlt _,hhalts⟩
      · rintro ⟨d,hd,hhalts⟩
        rcases List.mem_or_eq_of_mem_set hd with hd | rfl
        · exact absurd ((hquiet d hd).symm.trans hhalts) Bool.false_ne_true
        · exact hhalts

theorem length_final (s : Pool σ) (is : List (ℕ × ι)) :
    (Machine.final (step part halts) s is).parts.length = s.parts.length := by
  refine Machine.final_invariant (C := fun _ _ => True)
    (I := fun s' : Pool σ => s'.parts.length = s.parts.length) (fun s' i hs _ => ?_) rfl
    (Machine.stepsMeet_of_all (fun _ _ => trivial))
  unfold step
  split_ifs
  · exact hs
  · cases s'.parts[i.1]? with
    | none => exact hs
    | some c => simpa using hs

/-- The part that halts is one that halts alone. -/
theorem stopped_final_iff (h : s.stopped = s.parts.any halts) (is : List (ℕ × ι)) :
    (Machine.final (step part halts) s is).stopped = true ↔ ∃ k c, s.parts[k]? = some c ∧
      halts (Machine.final part c (marked k (performed part halts s is))) = true := by
  rw [stopped_final part halts h,List.any_eq_true]
  constructor
  · rintro ⟨d,hmem,hhalts⟩
    obtain ⟨k,hk,rfl⟩ := List.getElem_of_mem hmem
    have hlt : k < s.parts.length := length_final part halts s is ▸ hk
    have hc : s.parts[k]? = some s.parts[k] := List.getElem?_eq_getElem hlt
    have hd := (List.getElem?_eq_getElem hk).symm.trans
      (run_part part halts hc is).1
    exact ⟨k,_,hc,Option.some_inj.mp hd ▸ hhalts⟩
  · rintro ⟨k,c,hc,hhalts⟩
    exact ⟨_,List.mem_of_getElem? (run_part part halts hc is).1,hhalts⟩

end Runs
end Pool
end Library
