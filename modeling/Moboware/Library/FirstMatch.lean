import Mathlib.Data.List.Basic

/-! # The first match of a linear search

A search that stops at the first match is a position: what stands before it,
the match itself, and what stands after it.
-/
namespace Library
variable {α : Type*} {p : α → Bool}

def firstMatch (p : α → Bool) : List α → Option (List α × α × List α)
  | [] => none
  | a :: as => if p a then some ([],a,as)
    else (firstMatch p as).map (fun r => (a :: r.1,r.2))

theorem firstMatch_eq_none_iff {l : List α} : firstMatch p l = none ↔ ∀ a ∈ l, p a = false := by
  induction l with
  | nil => simp [firstMatch]
  | cons a l ih => cases h : p a <;> simp [firstMatch,h,ih]

theorem firstMatch_spec {l pre post : List α} {a : α} (h : firstMatch p l = some (pre,a,post)) :
    l = pre ++ a :: post ∧ p a = true ∧ ∀ b ∈ pre, p b = false := by
  induction l generalizing pre with
  | nil => cases h
  | cons b l ih =>
    rw [firstMatch] at h
    split at h
    · next hb =>
      cases h
      exact ⟨rfl,hb,fun _ hm => absurd hm List.not_mem_nil⟩
    · next hb =>
      obtain ⟨r,hr,he⟩ := Option.map_eq_some_iff.mp h
      obtain ⟨rpre,ra,rpost⟩ := r
      cases he
      obtain ⟨hl,ha,hpre⟩ := ih hr
      refine ⟨by rw [hl,List.cons_append],ha,?_⟩
      intro c hc
      rcases List.mem_cons.mp hc with rfl | hc
      · exact Bool.eq_false_iff.mpr hb
      · exact hpre c hc

theorem firstMatch_append {pre post : List α} {a : α} (hpre : ∀ b ∈ pre, p b = false)
    (ha : p a = true) : firstMatch p (pre ++ a :: post) = some (pre,a,post) := by
  induction pre with
  | nil => simp [firstMatch,ha]
  | cons b pre ih =>
    have hb : p b = false := hpre b List.mem_cons_self
    simp [firstMatch,hb,ih (fun c hc => hpre c (List.mem_cons_of_mem b hc))]

theorem exists_firstMatch_iff {l : List α} :
    (∃ r, firstMatch p l = some r) ↔ ∃ a ∈ l, p a = true := by
  cases h : firstMatch p l with
  | none =>
    have hn := firstMatch_eq_none_iff.mp h
    simp only [reduceCtorEq,exists_false,false_iff,not_exists,not_and,Bool.not_eq_true]
    exact hn
  | some r =>
    obtain ⟨pre,a,post⟩ := r
    obtain ⟨hl,ha,_⟩ := firstMatch_spec h
    exact ⟨fun _ => ⟨a,by simp [hl],ha⟩,fun _ => ⟨_,rfl⟩⟩

end Library
