import Mathlib.Data.Nat.Notation
import Mathlib.Data.List.Basic

/-! # Flat memory

Cells at addresses, with ranges of them loaded, stored and moved. The source of a
store is a function of the offset; only the offsets in the range are used.
-/
namespace Library
variable {β : Type*}

abbrev Memory (β : Type*) := ℕ → β

namespace Memory

/-- The first cells of a source. -/
def first (source : ℕ → β) (n : ℕ) : List β := (List.range n).map source

def load (m : Memory β) (p n : ℕ) : List β := first (fun i => m (p + i)) n

def store (m : Memory β) (p : ℕ) (source : ℕ → β) (n : ℕ) : Memory β :=
  fun a => if p ≤ a ∧ a < p + n then source (a - p) else m a

/-- Two ranges of one length without a common cell. -/
def Apart (p q n : ℕ) : Prop := ∀ a, p ≤ a → a < p + n → ¬ (q ≤ a ∧ a < q + n)

/-- The range is read whole before it is written. -/
def move (m : Memory β) (dst src n : ℕ) : Memory β := m.store dst (fun i => m (src + i)) n

variable {m : Memory β} {source other : ℕ → β} {p q n k : ℕ}

@[simp] theorem length_first : (first source n).length = n := by simp [first]

@[simp] theorem length_load : (m.load p n).length = n := length_first

theorem first_congr (h : ∀ i < n, source i = other i) : first source n = first other n :=
  List.map_congr_left (fun i hi => h i (List.mem_range.mp hi))

theorem first_eq_first_iff : first source n = first other n ↔ ∀ i < n, source i = other i := by
  simp only [first,List.map_inj_left,List.mem_range]

theorem first_add : first source (n + k) = first source n ++ first (fun i => source (n + i)) k := by
  rw [first,List.range_add,List.map_append,List.map_map]
  rfl

theorem load_add : m.load p (n + k) = m.load p n ++ m.load (p + n) k := by
  rw [load,first_add]
  simp only [load,Nat.add_assoc]

theorem drop_load : (m.load p n).drop k = m.load (p + k) (n - k) := by
  rcases Nat.le_total k n with h | h
  · obtain ⟨j,rfl⟩ := Nat.exists_eq_add_of_le h
    rw [load_add,List.drop_append_of_le_length (by simp),List.drop_of_length_le (by simp),
      List.nil_append,Nat.add_sub_cancel_left]
  · rw [List.drop_of_length_le (by simpa using h),Nat.sub_eq_zero_of_le h]
    rfl

theorem load_store (h : k ≤ n) : (m.store p source n).load p k = first source k := by
  apply first_congr
  intro i hi
  rw [store,if_pos ⟨by omega,by omega⟩,Nat.add_sub_cancel_left]

/-- A store leaves the ranges below and above it as they are. -/
theorem load_store_disjoint (h : q + k ≤ p ∨ p + n ≤ q) :
    (m.store p source n).load q k = m.load q k := by
  apply first_congr
  intro i hi
  rw [store,if_neg (by omega)]

theorem apart_iff : Apart p q n ↔ n = 0 ∨ p + n ≤ q ∨ q + n ≤ p := by
  constructor
  · intro h
    by_contra hno
    exact h (max p q) (by omega) (by omega) ⟨by omega,by omega⟩
  · intro h a hp hpn hq
    omega

instance (p q n : ℕ) : Decidable (Apart p q n) := decidable_of_iff _ apart_iff.symm

theorem load_move : (m.move p q n).load p n = m.load q n := load_store (Nat.le_refl n)

end Memory
end Library
