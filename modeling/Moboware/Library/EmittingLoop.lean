import Mathlib.Logic.Basic
import Mathlib.Data.List.Basic

/-! # Loops with a variant that emit outputs

The body of a `while (true)` loop either leaves the loop or yields the next
state and what it emitted on the way. The variant is a field: a loop that may
run forever cannot be built, and its run needs no fuel argument.
-/
namespace Library
variable {σ τ ω ν : Type*}

structure EmittingLoop (σ ω : Type*) where
  body : σ → Option (σ × List ω)
  variant : σ → ℕ
  decreases : ∀ {s s' : σ} {out : List ω}, body s = some (s',out) → variant s' < variant s

namespace EmittingLoop

def iterate (body : σ → Option (σ × List ω)) : ℕ → σ → σ × List ω
  | 0, s => (s,[])
  | n + 1, s => match body s with
    | none => (s,[])
    | some (s',out) => ((iterate body n s').1,out ++ (iterate body n s').2)

/-- The final state and everything emitted, in order. -/
def run (L : EmittingLoop σ ω) (s : σ) : σ × List ω := iterate L.body (L.variant s) s

theorem iterate_eq_of_le (L : EmittingLoop σ ω) {n m : ℕ} {s : σ}
    (hn : L.variant s ≤ n) (hm : L.variant s ≤ m) : iterate L.body n s = iterate L.body m s := by
  induction n generalizing m s with
  | zero =>
    cases m with
    | zero => rfl
    | succ m =>
      cases hb : L.body s with
      | none => simp [iterate,hb]
      | some r =>
        have := L.decreases (show L.body s = some (r.1,r.2) from hb)
        omega
  | succ n ih =>
    cases hb : L.body s with
    | none => cases m <;> simp [iterate,hb]
    | some r =>
      have hd := L.decreases (show L.body s = some (r.1,r.2) from hb)
      obtain ⟨m,rfl⟩ : ∃ k, m = k + 1 := ⟨m - 1,by omega⟩
      simp only [iterate,hb]
      rw [ih (s := r.1) (m := m) (by omega) (by omega)]

theorem run_of_none {L : EmittingLoop σ ω} {s : σ} (h : L.body s = none) : L.run s = (s,[]) := by
  unfold run
  cases L.variant s <;> simp [iterate,h]

/-- One round of the loop, with no trace of the bound on the rounds. -/
theorem run_of_some {L : EmittingLoop σ ω} {s s' : σ} {out : List ω}
    (h : L.body s = some (s',out)) : L.run s = ((L.run s').1,out ++ (L.run s').2) := by
  have hd := L.decreases h
  obtain ⟨k,hk⟩ : ∃ k, L.variant s = k + 1 := ⟨L.variant s - 1,by omega⟩
  have hs' : iterate L.body k s' = L.run s' := iterate_eq_of_le L (by omega) (Nat.le_refl _)
  simp only [run,hk,iterate,h]
  rw [hs']
  rfl

/-- Induction over the rounds: the run of a stopped state, and one round in
front of a run. -/
theorem run_induction {L : EmittingLoop σ ω} {P : σ → σ × List ω → Prop}
    (stop : ∀ s, L.body s = none → P s (s,[]))
    (round : ∀ s s' out r, L.body s = some (s',out) → P s' r → P s (r.1,out ++ r.2)) (s : σ) :
    P s (L.run s) := by
  induction hn : L.variant s using Nat.strongRecOn generalizing s with
  | ind n ih =>
    cases hb : L.body s with
    | none => exact run_of_none hb ▸ stop s hb
    | some r =>
      obtain ⟨s',out⟩ := r
      rw [run_of_some hb]
      exact round s s' out _ hb (ih _ (hn ▸ L.decreases hb) s' rfl)

/-- The loop is left only where its body stops. -/
theorem body_run (L : EmittingLoop σ ω) (s : σ) : L.body (L.run s).1 = none :=
  L.run_induction (P := fun _ r => L.body r.1 = none) (fun _ h => h) (fun _ _ _ _ _ h => h) s

theorem run_invariant {L : EmittingLoop σ ω} {I : σ → Prop}
    (hI : ∀ s s' out, I s → L.body s = some (s',out) → I s') {s : σ} (hs : I s) :
    I (L.run s).1 :=
  L.run_induction (P := fun s r => I s → I r.1) (fun _ _ h => h)
    (fun s s' out _ hb ih h => ih (hI s s' out h hb)) s hs

/-- The states at the head of each round, with what the round emits. -/
inductive Rounds (L : EmittingLoop σ ω) : σ → List (σ × List ω) → σ → Prop
  | stop {s} : L.body s = none → Rounds L s [] s
  | round {s s' t out rest} : L.body s = some (s',out) → Rounds L s' rest t →
      Rounds L s ((s,out) :: rest) t

theorem exists_rounds (L : EmittingLoop σ ω) (s : σ) :
    ∃ rounds, Rounds L s rounds (L.run s).1 ∧ (L.run s).2 = rounds.flatMap Prod.snd := by
  refine L.run_induction
    (P := fun s r => ∃ rounds, Rounds L s rounds r.1 ∧ r.2 = rounds.flatMap Prod.snd) ?_ ?_ s
  · exact fun s h => ⟨[],Rounds.stop h,rfl⟩
  · rintro s s' out r hb ⟨rounds,hr,he⟩
    exact ⟨(s,out) :: rounds,Rounds.round hb hr,by rw [List.flatMap_cons,← he]⟩

/-- A fact about one round that an invariant gives holds of every round. -/
theorem Rounds.forall_of_invariant {L : EmittingLoop σ ω} {I : σ → Prop} {Q : σ → List ω → Prop}
    (hI : ∀ s s' out, I s → L.body s = some (s',out) → I s' ∧ Q s out)
    {s t : σ} {rounds : List (σ × List ω)} (h : Rounds L s rounds t) (hs : I s) :
    ∀ r ∈ rounds, Q r.1 r.2 := by
  induction h with
  | stop => exact fun _ hr => absurd hr List.not_mem_nil
  | round hb _ ih =>
    intro r hr
    rcases List.mem_cons.mp hr with rfl | hr
    · exact (hI _ _ _ hs hb).2
    · exact ih (hI _ _ _ hs hb).1 r hr

/-- `Repeats body n s t`: the body runs `n` times from `s` without leaving the
loop, and `t` is the state after it. -/
inductive Repeats (body : σ → Option (σ × List ω)) : ℕ → σ → σ → Prop
  | zero (s) : Repeats body 0 s s
  | succ {n s s' t out} : body s = some (s',out) → Repeats body n s' t → Repeats body (n + 1) s t

/-- The variant bounds the number of rounds. -/
theorem Repeats.add_variant_le {L : EmittingLoop σ ω} {n : ℕ} {s t : σ}
    (h : Repeats L.body n s t) : n + L.variant t ≤ L.variant s := by
  induction h with
  | zero s => omega
  | succ hb _ ih =>
    have hd := L.decreases hb
    omega

theorem exists_repeats (L : EmittingLoop σ ω) (s : σ) : ∃ n, Repeats L.body n s (L.run s).1 := by
  refine L.run_induction (P := fun s r => ∃ n, Repeats L.body n s r.1) ?_ ?_ s
  · exact fun s _ => ⟨0,Repeats.zero s⟩
  · rintro s s' out r hb ⟨n,hn⟩
    exact ⟨n + 1,Repeats.succ hb hn⟩

/-- Two loops whose bodies stay related, emitting related outputs, have
related runs. -/
theorem run_simulation {L : EmittingLoop σ ω} {M : EmittingLoop τ ν} {R : σ → τ → Prop}
    {g : ω → ν} (stop : ∀ s t, R s t → L.body s = none → M.body t = none)
    (round : ∀ s t s' out, R s t → L.body s = some (s',out) →
      ∃ t', M.body t = some (t',out.map g) ∧ R s' t')
    {s : σ} {t : τ} (h : R s t) :
    R (L.run s).1 (M.run t).1 ∧ (M.run t).2 = (L.run s).2.map g := by
  refine L.run_induction
    (P := fun s r => ∀ t, R s t → R r.1 (M.run t).1 ∧ (M.run t).2 = r.2.map g) ?_ ?_ s t h
  · intro s hb t ht
    rw [run_of_none (stop s t ht hb)]
    exact ⟨ht,rfl⟩
  · intro s s' out r hb ih t ht
    obtain ⟨t',hb',ht'⟩ := round s t s' out ht hb
    obtain ⟨hr,he⟩ := ih t' ht'
    rw [run_of_some hb',he]
    exact ⟨hr,by rw [List.map_append]⟩

end EmittingLoop
end Library
