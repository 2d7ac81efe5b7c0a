import Moboware.Common.LockLessThreads

/-! # Claims of positions

What the threads have claimed is counted beside the run. The counts are kept by claims
that find space, and by pops that find a position that is claimed and finished.
-/
namespace Moboware
open Library

/-- The claims so far. The n-th claim of a head and the n-th claim of a tail are for one
position, which is finished when the push function has run on it. -/
structure ClaimLedger (Thread : Type*) where
  pushes : ℕ := 0
  pops : ℕ := 0
  finished : List ℕ := []
  pushIndex : Thread → ℕ := fun _ => 0
  popIndex : Thread → ℕ := fun _ => 0

namespace ClaimLedger
variable {Thread Buffer : Type*} [DecidableEq Thread]

def record (ledger : ClaimLedger Thread) : Event Thread Buffer → ClaimLedger Thread
  | .refused _ => ledger
  | .claimedHead thread =>
    { ledger with
      pushes := ledger.pushes + 1
      pushIndex := Function.update ledger.pushIndex thread ledger.pushes }
  | .ranPushFn thread _ =>
    { ledger with finished := ledger.pushIndex thread :: ledger.finished }
  | .claimedTail thread =>
    { ledger with
      pops := ledger.pops + 1
      popIndex := Function.update ledger.popIndex thread ledger.pops }
  | .ranPopFn _ _ => ledger

def see (ledger : ClaimLedger Thread) (_ : Action Thread Buffer) (events : List (Event Thread Buffer)) :
    ClaimLedger Thread :=
  events.foldl record ledger

end ClaimLedger

/-- What the claims of the threads are, without what the threads are to run. -/
structure Positions (Thread : Type*) where
  head : UInt16
  tail : UInt16
  pushing : Thread → Option UInt16
  popping : Thread → Option UInt16
  ledger : ClaimLedger Thread

namespace Positions
variable {Thread : Type*} [DecidableEq Thread] {capacity : ℕ} {v : Positions Thread}
  {thread : Thread} {position : UInt16}

/-- The counts are those of the counters, what is popped was finished, and every position
that is claimed and not finished has one thread that is to run its push function. -/
structure Counted (capacity : ℕ) (v : Positions Thread) : Prop where
  head_eq : v.head.toNat = v.ledger.pushes % UInt16.size
  tail_eq : v.tail.toNat = v.ledger.pops % UInt16.size
  pops_le : v.ledger.pops ≤ v.ledger.pushes
  pushes_le : v.ledger.pushes ≤ v.ledger.pops + capacity
  popped : ∀ k < v.ledger.pops, k ∈ v.ledger.finished
  finished_lt : ∀ k ∈ v.ledger.finished, k < v.ledger.pushes
  pushing : ∀ t p, v.pushing t = some p → v.ledger.pushIndex t < v.ledger.pushes ∧
    p.toNat = v.ledger.pushIndex t % UInt16.size ∧ v.ledger.pushIndex t ∉ v.ledger.finished
  distinct : ∀ t u p q, v.pushing t = some p → v.pushing u = some q →
    v.ledger.pushIndex t = v.ledger.pushIndex u → t = u
  pending : ∀ k < v.ledger.pushes, k ∈ v.ledger.finished ∨
    ∃ t p, v.pushing t = some p ∧ v.ledger.pushIndex t = k
  popping : ∀ t p, v.popping t = some p → v.ledger.popIndex t < v.ledger.pops ∧
    p.toNat = v.ledger.popIndex t % UInt16.size

def claimHead (v : Positions Thread) (thread : Thread) : Positions Thread :=
  { v with
    head := v.head + 1
    pushing := Function.update v.pushing thread (some v.head)
    ledger := { v.ledger with
      pushes := v.ledger.pushes + 1
      pushIndex := Function.update v.ledger.pushIndex thread v.ledger.pushes } }

def finish (v : Positions Thread) (thread : Thread) : Positions Thread :=
  { v with
    pushing := Function.update v.pushing thread none
    ledger := { v.ledger with finished := v.ledger.pushIndex thread :: v.ledger.finished } }

def claimTail (v : Positions Thread) (thread : Thread) : Positions Thread :=
  { v with
    tail := v.tail + 1
    popping := Function.update v.popping thread (some v.tail)
    ledger := { v.ledger with
      pops := v.ledger.pops + 1
      popIndex := Function.update v.ledger.popIndex thread v.ledger.pops } }

def release (v : Positions Thread) (thread : Thread) : Positions Thread :=
  { v with popping := Function.update v.popping thread none }

/-- The claims that are not popped are at most as many as there are slots, no tail is
claimed before its head, and no thread holds a claim to pop a position whose push function
has not run. The last is more than that no pop function runs on such a position, which the
push function may still reach before it. -/
def Safe (queueLength : UInt16) (v : Positions Thread) : Prop :=
  (v.head - v.tail ≤ queueLength ∧ v.ledger.pushes ≤ v.ledger.pops + queueLength.toNat) ∧
    v.ledger.pops ≤ v.ledger.pushes ∧
    ∀ t p, v.popping t = some p → v.ledger.popIndex t ∈ v.ledger.finished

/-- The steps that claim nothing: a push function runs, or a pop function, or neither. -/
def Settles (v v' : Positions Thread) : Prop :=
  v' = v ∨ (∃ t p, v.pushing t = some p ∧ v' = v.finish t) ∨ ∃ t, v' = v.release t

namespace Counted

theorem claimHead (h : v.Counted capacity) (ht : v.pushing thread = none)
    (hspace : v.ledger.pushes < v.ledger.pops + capacity) :
    (v.claimHead thread).Counted capacity where
  head_eq := by
    have hhead := h.head_eq
    simp only [Positions.claimHead,UInt16.toNat_add,UInt16.toNat_one,UInt16.size] at hhead ⊢
    omega
  tail_eq := h.tail_eq
  pops_le := Nat.le_succ_of_le h.pops_le
  pushes_le := hspace
  popped := h.popped
  finished_lt k hk := Nat.lt_succ_of_lt (h.finished_lt k hk)
  pushing t p hp := by
    dsimp only [Positions.claimHead] at hp ⊢
    by_cases heq : t = thread
    · subst heq
      rw [Function.update_self] at hp ⊢
      cases hp
      exact ⟨Nat.lt_succ_self _,h.head_eq,fun hm => Nat.lt_irrefl _ (h.finished_lt _ hm)⟩
    · rw [Function.update_of_ne heq] at hp ⊢
      obtain ⟨hlt,hpos,hfin⟩ := h.pushing t p hp
      exact ⟨Nat.lt_succ_of_lt hlt,hpos,hfin⟩
  distinct t u p q hp hq heq := by
    -- The new index is above all indices that were claimed before.
    dsimp only [Positions.claimHead] at hp hq heq
    by_cases hta : t = thread <;> by_cases hua : u = thread
    · rw [hta,hua]
    · subst hta
      rw [Function.update_of_ne hua] at hq heq
      rw [Function.update_self] at heq
      exact absurd (h.pushing u q hq).1 (by omega)
    · subst hua
      rw [Function.update_of_ne hta] at hp heq
      rw [Function.update_self] at heq
      exact absurd (h.pushing t p hp).1 (by omega)
    · rw [Function.update_of_ne hta] at hp heq
      rw [Function.update_of_ne hua] at hq heq
      exact h.distinct t u p q hp hq heq
  pending k hk := by
    dsimp only [Positions.claimHead] at hk ⊢
    rcases Nat.lt_succ_iff_lt_or_eq.mp hk with hk | rfl
    · refine (h.pending k hk).imp_right (fun ⟨t,p,hp,hindex⟩ => ⟨t,p,?_⟩)
      have hne : t ≠ thread := by
        rintro rfl
        rw [ht] at hp
        cases hp
      rw [Function.update_of_ne hne,Function.update_of_ne hne]
      exact ⟨hp,hindex⟩
    · exact Or.inr ⟨thread,v.head,Function.update_self ..,Function.update_self ..⟩
  popping := h.popping

theorem finish (h : v.Counted capacity) (ht : v.pushing thread = some position) :
    (v.finish thread).Counted capacity where
  head_eq := h.head_eq
  tail_eq := h.tail_eq
  pops_le := h.pops_le
  pushes_le := h.pushes_le
  popped k hk := List.mem_cons_of_mem _ (h.popped k hk)
  finished_lt k hk := by
    rcases List.mem_cons.mp hk with rfl | hk
    · exact (h.pushing thread position ht).1
    · exact h.finished_lt k hk
  pushing t p hp := by
    dsimp only [Positions.finish] at hp ⊢
    have hne : t ≠ thread := by
      rintro rfl
      rw [Function.update_self] at hp
      cases hp
    rw [Function.update_of_ne hne] at hp
    obtain ⟨hlt,hpos,hfin⟩ := h.pushing t p hp
    refine ⟨hlt,hpos,fun hm => ?_⟩
    rcases List.mem_cons.mp hm with heq | hm
    · exact hne (h.distinct t thread p position hp ht heq)
    · exact hfin hm
  distinct t u p q hp hq heq := by
    dsimp only [Positions.finish] at hp hq heq
    by_cases hta : t = thread
    · rw [hta,Function.update_self] at hp
      cases hp
    · by_cases hua : u = thread
      · rw [hua,Function.update_self] at hq
        cases hq
      · rw [Function.update_of_ne hta] at hp
        rw [Function.update_of_ne hua] at hq
        exact h.distinct t u p q hp hq heq
  pending k hk := by
    dsimp only [Positions.finish] at hk ⊢
    rcases h.pending k hk with hfin | ⟨t,p,hp,hindex⟩
    · exact Or.inl (List.mem_cons_of_mem _ hfin)
    · by_cases hne : t = thread
      · rw [← hindex,hne]
        exact Or.inl List.mem_cons_self
      · refine Or.inr ⟨t,p,?_,hindex⟩
        rwa [Function.update_of_ne hne]
  popping := h.popping

theorem claimTail (h : v.Counted capacity) (hne : v.ledger.pops < v.ledger.pushes)
    (hfree : ∀ t, v.pushing t ≠ some v.tail) : (v.claimTail thread).Counted capacity where
  head_eq := h.head_eq
  tail_eq := by
    have htail := h.tail_eq
    simp only [Positions.claimTail,UInt16.toNat_add,UInt16.toNat_one,UInt16.size] at htail ⊢
    omega
  pops_le := hne
  pushes_le := Nat.le_trans h.pushes_le (Nat.add_le_add_right (Nat.le_succ _) _)
  popped k hk := by
    dsimp only [Positions.claimTail] at hk ⊢
    rcases Nat.lt_succ_iff_lt_or_eq.mp hk with hk | rfl
    · exact h.popped k hk
    · -- A thread that is still to finish the position would push at the tail.
      refine (h.pending _ hne).resolve_right (fun ⟨t,p,hp,hindex⟩ => ?_)
      have hpos := (h.pushing t p hp).2.1
      rw [hindex,← h.tail_eq] at hpos
      rw [UInt16.toNat_inj.mp hpos] at hp
      exact hfree t hp
  finished_lt := h.finished_lt
  pushing := h.pushing
  distinct := h.distinct
  pending := h.pending
  popping t p hp := by
    dsimp only [Positions.claimTail] at hp ⊢
    by_cases heq : t = thread
    · subst heq
      rw [Function.update_self] at hp ⊢
      cases hp
      exact ⟨Nat.lt_succ_self _,h.tail_eq⟩
    · rw [Function.update_of_ne heq] at hp ⊢
      obtain ⟨hlt,hpos⟩ := h.popping t p hp
      exact ⟨Nat.lt_succ_of_lt hlt,hpos⟩

theorem release (h : v.Counted capacity) : (v.release thread).Counted capacity where
  head_eq := h.head_eq
  tail_eq := h.tail_eq
  pops_le := h.pops_le
  pushes_le := h.pushes_le
  popped := h.popped
  finished_lt := h.finished_lt
  pushing := h.pushing
  distinct := h.distinct
  pending := h.pending
  popping t p hp := by
    dsimp only [Positions.release] at hp
    by_cases heq : t = thread
    · rw [heq,Function.update_self] at hp
      cases hp
    · rw [Function.update_of_ne heq] at hp
      exact h.popping t p hp

omit [DecidableEq Thread] in
/-- The word of a position that is claimed and not finished names one index. -/
theorem pushIndex_eq (h : v.Counted capacity) (hcapacity : capacity < UInt16.size)
    (hp : v.pushing thread = some v.tail) : v.ledger.pushIndex thread = v.ledger.pops := by
  obtain ⟨hlt,hpos,hfin⟩ := h.pushing thread v.tail hp
  have hge : v.ledger.pops ≤ v.ledger.pushIndex thread :=
    Nat.not_lt.mp (fun hlt => hfin (h.popped _ hlt))
  have hle := h.pushes_le
  have htail := h.tail_eq
  simp only [UInt16.size] at htail hpos hcapacity
  omega

theorem settles {v' : Positions Thread} (h : v.Counted capacity) (hs : v.Settles v') :
    v'.Counted capacity := by
  rcases hs with rfl | ⟨t,p,hp,rfl⟩ | ⟨t,rfl⟩
  · exact h
  · exact h.finish hp
  · exact h.release

end Counted
end Positions

end Moboware
