import Mathlib.Logic.Basic

/-! # Computations that emit and throw

A computation that throws keeps what it emitted before. Reads without effects are
lifted into it; what it emits and whether it throws is then read off read by read.
-/
namespace Library
universe u v
variable {ε ω α : Type u} {β : Type v}

/-- What is false behind an error is said of the value that was read. -/
theorem iff_exists_ok {ε : Type u} {α : Type v} {x : Except ε α} {p : Prop} {q : α → Prop}
    (hok : ∀ a, x = .ok a → (p ↔ q a)) (herror : ∀ e, x = .error e → ¬ p) :
    p ↔ ∃ a, x = .ok a ∧ q a := by
  cases x with
  | error e => exact iff_of_false (herror e rfl) (fun ⟨_,h,_⟩ => nomatch h)
  | ok a =>
    apply (hok a rfl).trans
    constructor
    · exact fun h => ⟨a,rfl,h⟩
    · rintro ⟨a',ha,h⟩
      cases ha
      exact h

/-- A chain of reads succeeds when each of them does. -/
theorem bind_eq_ok_iff {ε : Type u} {α β : Type v} {x : Except ε α} {f : α → Except ε β} {b : β} :
    x >>= f = .ok b ↔ ∃ a, x = .ok a ∧ f a = .ok b := by
  apply iff_exists_ok
  · rintro a rfl
    exact Iff.rfl
  · rintro e rfl
    exact nofun

theorem toOption_eq_some_iff {ε : Type u} {α : Type v} {x : Except ε α} {a : α} :
    x.toOption = some a ↔ x = .ok a := by cases x <;> simp [Except.toOption]

abbrev Throwing (ε ω α : Type u) := EStateM ε (List ω) α

namespace Throwing

def attempt (x : Except ε α) : Throwing ε ω α := fun emitted =>
  match x with
  | .ok a => .ok a emitted
  | .error e => .error e emitted

def emit (out : ω) : Throwing ε ω PUnit := fun emitted => .ok ⟨⟩ (emitted ++ [out])

/-- What a run from the start has emitted, whether it returned or threw. -/
def emitted (x : Throwing ε ω α) : List ω :=
  match x [] with
  | .ok _ out => out
  | .error _ out => out

/-- The exception that leaves a run from the start. -/
def thrown? (x : Throwing ε ω α) : Option ε :=
  match x [] with
  | .ok _ _ => none
  | .error e _ => some e

section Reads
variable {α' : Type u} {x : Except ε α'} {f : α' → Throwing ε ω α}

@[simp] theorem mem_emitted_attempt_bind {out : ω} :
    out ∈ emitted (attempt x >>= f) ↔ ∃ a, x = .ok a ∧ out ∈ emitted (f a) := by
  apply iff_exists_ok
  · rintro a rfl
    exact Iff.rfl
  · rintro e rfl
    exact List.not_mem_nil

@[simp] theorem thrown?_attempt_bind :
    thrown? (attempt x >>= f) = none ↔ ∃ a, x = .ok a ∧ thrown? (f a) = none := by
  apply iff_exists_ok
  · rintro a rfl
    exact Iff.rfl
  · rintro e rfl
    exact nofun

theorem length_emitted_attempt_bind {n : Nat} (h : ∀ a, (emitted (f a)).length ≤ n) :
    (emitted (attempt x >>= f)).length ≤ n := by
  cases x with
  | error e => exact Nat.zero_le n
  | ok a => exact h a

end Reads

@[simp] theorem emitted_emit (out : ω) : emitted (emit out : Throwing ε ω PUnit) = [out] := rfl

@[simp] theorem thrown?_emit (out : ω) : thrown? (emit out : Throwing ε ω PUnit) = none := rfl

@[simp] theorem emitted_pure (a : α) : emitted (pure a : Throwing ε ω α) = [] := rfl

@[simp] theorem thrown?_pure (a : α) : thrown? (pure a : Throwing ε ω α) = none := rfl

end Throwing
end Library
