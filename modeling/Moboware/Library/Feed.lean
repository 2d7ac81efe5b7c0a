import Mathlib.Data.List.Basic

/-! # Feeding a handler

A handler takes one item after the other and answers whether it wants more; the rest of
the items is dropped when it does not.
-/
namespace Library
variable {σ ε : Type*}

abbrev Handler (σ ε : Type*) := σ → ε → σ × Bool

namespace Handler

/-- The state at the end, and whether every item was wanted. -/
def feed (handle : Handler σ ε) : σ → List ε → σ × Bool
  | s, [] => (s,true)
  | s, e :: es => if (handle s e).2 then feed handle (handle s e).1 es else ((handle s e).1,false)

/-- The items that are handed over: up to the first one after which no more is wanted. -/
def visited (handle : Handler σ ε) : σ → List ε → List ε
  | _, [] => []
  | s, e :: es => if (handle s e).2 then e :: visited handle (handle s e).1 es else [e]

theorem feed_cons_of_true {handle : Handler σ ε} {s : σ} {e : ε} (h : (handle s e).2 = true)
    (es : List ε) : feed handle s (e :: es) = feed handle (handle s e).1 es := if_pos h

theorem feed_cons_of_false {handle : Handler σ ε} {s : σ} {e : ε} (h : (handle s e).2 = false)
    (es : List ε) : feed handle s (e :: es) = ((handle s e).1,false) :=
  if_neg (by rw [h]; exact Bool.false_ne_true)

/-- A feed that got through goes on where it stopped. -/
theorem feed_append_of_true {handle : Handler σ ε} {s : σ} {es : List ε}
    (h : (feed handle s es).2 = true) (fs : List ε) :
    feed handle s (es ++ fs) = feed handle (feed handle s es).1 fs := by
  induction es generalizing s with
  | nil => rfl
  | cons e es ih =>
    cases he : (handle s e).2 with
    | true =>
      rw [feed_cons_of_true he] at h
      rw [List.cons_append,feed_cons_of_true he,feed_cons_of_true he]
      exact ih h
    | false =>
      rw [feed_cons_of_false he] at h
      exact absurd h Bool.false_ne_true

/-- What every item keeps holds at the end, wherever the feed stops. -/
theorem feed_invariant {handle : Handler σ ε} {I : σ → Prop} (hI : ∀ s e, I s → I (handle s e).1)
    {s : σ} (hs : I s) (es : List ε) : I (feed handle s es).1 := by
  induction es generalizing s with
  | nil => exact hs
  | cons e es ih =>
    cases h : (handle s e).2 with
    | true =>
      rw [feed_cons_of_true h]
      exact ih (hI s e hs)
    | false =>
      rw [feed_cons_of_false h]
      exact hI s e hs

end Handler
end Library
