import Mathlib.Data.Nat.ModEq

/-! # The slots of a counter that wraps

A counter that wraps at `W` is reduced again to the `L` slots of a ring. Two steps that
are fewer than `L` apart take the same slot only across a wrap, and only at one distance.
-/
namespace Library
variable {W L i d : ℕ}

def wrappedSlot (W L n : ℕ) : ℕ := n % W % L

/-- Without a wrap, steps fewer than `L` apart take different slots. -/
theorem mod_ne_of_lt {k n : ℕ} (hk : k < n) (hn : n < k + L) : k % L ≠ n % L := by
  intro heq
  have hdvd : L ∣ n - k := (Nat.modEq_iff_dvd' (Nat.le_of_lt hk)).mp heq
  have := Nat.le_of_dvd (by omega) hdvd
  omega

/-- The remainder of `W` is the one distance at which steps collide. -/
theorem wrappedSlot_add_eq_iff (hd : 0 < d) (hdL : d < L) (hLW : L ≤ W) :
    wrappedSlot W L (i + d) = wrappedSlot W L i ↔ (i + d) % W < d ∧ d = W % L := by
  have hi : i % W < W := Nat.mod_lt _ (by omega)
  rw [wrappedSlot,wrappedSlot,Nat.add_mod,Nat.mod_eq_of_lt (by omega : d < W)]
  by_cases hwrap : i % W + d < W
  · rw [Nat.mod_eq_of_lt hwrap]
    refine iff_of_false (fun h => ?_) (by omega)
    have hdvd : i % W + d ≡ i % W + 0 [MOD L] := h
    have hzero : d % L = 0 % L := Nat.ModEq.add_left_cancel' _ hdvd
    rw [Nat.mod_eq_of_lt hdL,Nat.zero_mod] at hzero
    omega
  · obtain ⟨b,hb⟩ := Nat.exists_eq_add_of_le (Nat.not_lt.mp hwrap)
    rw [hb,Nat.add_mod_left,Nat.mod_eq_of_lt (by omega : b < W)]
    have hlt : b < d := by omega
    rw [and_iff_right hlt]
    constructor
    · intro h
      have hsum : b + W ≡ b + d [MOD L] := by
        rw [Nat.add_comm b W,← hb]
        exact Nat.ModEq.add_right d (show b ≡ i % W [MOD L] from h).symm
      have hdist : W % L = d % L := Nat.ModEq.add_left_cancel' _ hsum
      rw [hdist,Nat.mod_eq_of_lt hdL]
    · intro h
      have hdist : W ≡ d [MOD L] := by
        rw [Nat.ModEq,Nat.mod_eq_of_lt hdL,h]
      have hsum : i % W + d ≡ b + d [MOD L] := by
        rw [hb,Nat.add_comm W b]
        exact Nat.ModEq.add_left b hdist
      exact (Nat.ModEq.add_right_cancel' d hsum).symm

end Library
