import Mathlib.Logic.Function.Basic
import Mathlib.Data.List.Induction
import Moboware.Library.Feed
import Moboware.Library.WrappedSlots

/-! # The circular buffer

`CircularBuffer`: the end runs freely and is reduced where a slot is taken, the start is
kept reduced. The buffer holds the newest values, as many as it has slots.
-/
namespace Moboware
open Library

structure CircularBuffer (maxQueueSize : UInt64) (TData : Type*) where
  startIndex : UInt64 := 0
  endIndex : UInt64 := 0
  mRingQueue : ℕ → TData

namespace CircularBuffer
variable {maxQueueSize : UInt64} {TData σ : Type*}

/-- With the index that the data is stored at. -/
def add (b : CircularBuffer maxQueueSize TData) (data : TData) :
    CircularBuffer maxQueueSize TData × UInt64 :=
  let currentIndex := b.endIndex % maxQueueSize
  let b := { b with
    endIndex := b.endIndex + 1
    mRingQueue := Function.update b.mRingQueue currentIndex.toNat data }
  if b.endIndex > maxQueueSize then
    ({ b with startIndex := (b.startIndex + 1) % maxQueueSize },currentIndex)
  else (b,currentIndex)

def size (b : CircularBuffer maxQueueSize TData) : UInt64 :=
  if b.endIndex > maxQueueSize then maxQueueSize else b.endIndex - b.startIndex

/-- The rest of the loop from `i` on, with the state of the function and the data it is
called on. -/
def loopFrom (b : CircularBuffer maxQueueSize TData) (loopFunction : Handler σ TData)
    (bound i : UInt64) (s : σ) : σ × List TData :=
  if h : i < bound then
    let data := b.mRingQueue (i % maxQueueSize).toNat
    let next := loopFunction s data
    if next.2 then
      let rest := b.loopFrom loopFunction bound (i + 1) next.1
      (rest.1,data :: rest.2)
    else (next.1,[data])
  else (s,[])
termination_by bound.toNat - i.toNat
decreasing_by
  have hi := UInt64.lt_iff_toNat_lt.mp h
  have hbound := bound.toNat_lt
  rw [UInt64.toNat_add,UInt64.toNat_one]
  omega

def loop (b : CircularBuffer maxQueueSize TData) (loopFunction : Handler σ TData) (s : σ) :
    σ × List TData :=
  b.loopFrom loopFunction (b.startIndex + b.size) b.startIndex s

/-- As it is constructed, with whatever the array holds. -/
def fresh (maxQueueSize : UInt64) (mRingQueue : ℕ → TData) : CircularBuffer maxQueueSize TData :=
  { mRingQueue := mRingQueue }

def addAll (b : CircularBuffer maxQueueSize TData) (values : List TData) :
    CircularBuffer maxQueueSize TData :=
  values.foldl (fun b value => (b.add value).1) b

/-- The newest values stand in their slots, the start at the slot of the oldest of them. -/
structure Holds (b : CircularBuffer maxQueueSize TData) (values : List TData) : Prop where
  end_eq : b.endIndex.toNat = values.length
  start_eq : b.startIndex.toNat = (values.length - maxQueueSize.toNat) % maxQueueSize.toNat
  slots : ∀ k value, values[k]? = some value → values.length ≤ k + maxQueueSize.toNat →
    b.mRingQueue (k % maxQueueSize.toNat) = value

variable {b : CircularBuffer maxQueueSize TData} {values : List TData}

theorem fresh_holds (mRingQueue : ℕ → TData) : (fresh maxQueueSize mRingQueue).Holds [] :=
  ⟨rfl,by simp [fresh],fun _ _ h => absurd h (by simp)⟩

theorem add_endIndex (data : TData) : (b.add data).1.endIndex = b.endIndex + 1 := by
  rw [add]
  dsimp only
  split_ifs <;> rfl

theorem add_startIndex (data : TData) : (b.add data).1.startIndex =
    if b.endIndex + 1 > maxQueueSize then (b.startIndex + 1) % maxQueueSize else b.startIndex := by
  rw [add]
  dsimp only
  split_ifs <;> rfl

theorem add_mRingQueue (data : TData) : (b.add data).1.mRingQueue =
    Function.update b.mRingQueue (b.endIndex % maxQueueSize).toNat data := by
  rw [add]
  dsimp only
  split_ifs <;> rfl

theorem add_snd (data : TData) : (b.add data).2 = b.endIndex % maxQueueSize := by
  rw [add]
  dsimp only
  split_ifs <;> rfl

namespace Holds

theorem end_slot (h : b.Holds values) :
    (b.endIndex % maxQueueSize).toNat = values.length % maxQueueSize.toNat := by
  rw [UInt64.toNat_mod,h.end_eq]

/-- The start moves on once there are more values than slots. -/
theorem start_add (h : b.Holds values) (hN : 0 < maxQueueSize.toNat)
    (hn : values.length + 1 < UInt64.size) (data : TData) :
    (b.add data).1.startIndex.toNat =
      (values.length + 1 - maxQueueSize.toNat) % maxQueueSize.toNat := by
  have hend : (b.endIndex + 1).toNat = values.length + 1 := by
    rw [UInt64.toNat_add,h.end_eq,UInt64.toNat_one]
    exact Nat.mod_eq_of_lt hn
  have hstart := h.start_eq
  have hlt := Nat.mod_lt (values.length - maxQueueSize.toNat) hN
  have hmax : maxQueueSize.toNat < 2 ^ 64 := maxQueueSize.toNat_lt
  rw [add_startIndex]
  split_ifs with hfull
  · rw [gt_iff_lt,UInt64.lt_iff_toNat_lt,hend] at hfull
    have hone : (b.startIndex + 1).toNat =
        (values.length - maxQueueSize.toNat) % maxQueueSize.toNat + 1 := by
      rw [UInt64.toNat_add,UInt64.toNat_one,hstart]
      exact Nat.mod_eq_of_lt (by omega)
    rw [UInt64.toNat_mod,hone,Nat.mod_add_mod]
    congr 1
    omega
  · rw [gt_iff_lt,UInt64.lt_iff_toNat_lt,hend] at hfull
    rw [hstart,Nat.sub_eq_zero_of_le (by omega),Nat.sub_eq_zero_of_le (by omega)]

theorem add (h : b.Holds values) (hN : 0 < maxQueueSize.toNat)
    (hn : values.length + 1 < UInt64.size) (data : TData) :
    (b.add data).1.Holds (values ++ [data]) := by
  refine ⟨?_,?_,?_⟩
  · rw [add_endIndex,UInt64.toNat_add,h.end_eq,UInt64.toNat_one,List.length_append,
      List.length_singleton]
    exact Nat.mod_eq_of_lt hn
  · rw [h.start_add hN hn,List.length_append,List.length_singleton]
  · intro k value hk hnew
    rw [List.length_append,List.length_singleton] at hnew
    rw [add_mRingQueue,h.end_slot]
    by_cases hlast : k < values.length
    · rw [List.getElem?_append_left hlast] at hk
      rw [Function.update_of_ne (mod_ne_of_lt hlast (by omega))]
      exact h.slots k value hk (by omega)
    · have hlen := (List.getElem?_eq_some_iff.mp hk).1
      rw [List.length_append,List.length_singleton] at hlen
      have hlast : k = values.length := by omega
      subst hlast
      rw [Function.update_self]
      simpa using hk

theorem toNat_size (h : b.Holds values) :
    b.size.toNat = min values.length maxQueueSize.toNat := by
  have hend := h.end_eq
  have hstart := h.start_eq
  rw [size]
  split_ifs with hfull
  · rw [gt_iff_lt,UInt64.lt_iff_toNat_lt] at hfull
    omega
  · rw [gt_iff_lt,UInt64.lt_iff_toNat_lt] at hfull
    rw [Nat.sub_eq_zero_of_le (by omega),Nat.zero_mod] at hstart
    have hzero : b.startIndex = 0 := UInt64.toNat_inj.mp hstart
    rw [hzero,UInt64.sub_zero,hend]
    omega

end Holds

theorem addAll_holds (hN : 0 < maxQueueSize.toNat) (mRingQueue : ℕ → TData)
    (hn : values.length < UInt64.size - 1) :
    ((fresh maxQueueSize mRingQueue).addAll values).Holds values := by
  induction values using List.reverseRecOn with
  | nil => exact fresh_holds mRingQueue
  | append_singleton values value ih =>
    rw [List.length_append,List.length_singleton] at hn
    rw [addAll,List.foldl_append]
    exact (ih (by omega)).add hN (by omega) value

/-- The loop hands over the values of its slots, in order, until the function refuses. -/
theorem loopFrom_eq {loopFunction : Handler σ TData} {bound i : UInt64} {s : σ} {l : List TData}
    (hbound : i.toNat + l.length = bound.toNat)
    (hslots : ∀ k value, l[k]? = some value →
      b.mRingQueue ((i.toNat + k) % maxQueueSize.toNat) = value) :
    b.loopFrom loopFunction bound i s =
      ((Handler.feed loopFunction s l).1,Handler.visited loopFunction s l) := by
  induction l generalizing i s with
  | nil =>
    have hdone : ¬ i < bound := by
      rw [UInt64.lt_iff_toNat_lt]
      simp only [List.length_nil] at hbound
      omega
    rw [loopFrom,dif_neg hdone]
    rfl
  | cons value l ih =>
    rw [List.length_cons] at hbound
    have hlt : i < bound := by
      rw [UInt64.lt_iff_toNat_lt]
      omega
    have hone : (i + 1).toNat = i.toNat + 1 := by
      have hmax : bound.toNat < 2 ^ 64 := bound.toNat_lt
      rw [UInt64.toNat_add,UInt64.toNat_one]
      exact Nat.mod_eq_of_lt (by omega)
    have hvalue : b.mRingQueue (i % maxQueueSize).toNat = value := by
      rw [UInt64.toNat_mod]
      exact hslots 0 value rfl
    rw [loopFrom,dif_pos hlt]
    dsimp only
    rw [hvalue,Handler.feed,Handler.visited]
    cases hgo : (loopFunction s value).2 with
    | false => rfl
    | true =>
      have hrest := @ih (i + 1) (loopFunction s value).1 (by omega) (fun k v hv => by
        rw [hone,Nat.add_assoc,Nat.add_comm 1 k]
        exact hslots (k + 1) v hv)
      rw [if_pos rfl,hrest]
      rfl

/-- The values that are left of all that were added: as many of the last ones as there are
slots. -/
def newest (maxQueueSize : UInt64) (values : List TData) : List TData :=
  values.drop (values.length - min values.length maxQueueSize.toNat)

theorem Holds.loop_eq (h : b.Holds values) (hN : 0 < maxQueueSize.toNat)
    (loopFunction : Handler σ TData) (s : σ) : b.loop loopFunction s =
      ((Handler.feed loopFunction s (newest maxQueueSize values)).1,
        Handler.visited loopFunction s (newest maxQueueSize values)) := by
  have hstart := h.start_eq
  have hend := h.end_eq
  have hmax : b.endIndex.toNat < 2 ^ 64 := b.endIndex.toNat_lt
  have hle := Nat.mod_le (values.length - maxQueueSize.toNat) maxQueueSize.toNat
  have hdrop : values.length - min values.length maxQueueSize.toNat =
      values.length - maxQueueSize.toNat := by omega
  -- The start is no later than the oldest of the values, so its sum with the size is no
  -- later than the end and does not wrap.
  have hbound : (b.startIndex + b.size).toNat =
      b.startIndex.toNat + min values.length maxQueueSize.toNat := by
    rw [UInt64.toNat_add,h.toNat_size]
    exact Nat.mod_eq_of_lt (by omega)
  rw [loop,newest,hdrop]
  apply loopFrom_eq
  · rw [hbound,List.length_drop]
    omega
  · intro k value hk
    rw [List.getElem?_drop] at hk
    rw [hstart,Nat.mod_add_mod]
    exact h.slots _ value hk (by omega)

/-- After any adds, fewer than the range of the end, the size is the number of values up to
the capacity, the next value goes to the slot of its number, and the loop hands over the
newest values from the oldest of them on, until the function refuses one. -/
theorem circularBuffer_keeps_newest (hN : 1 ≤ maxQueueSize) (mRingQueue : ℕ → TData)
    (values : List TData) (hn : values.length < UInt64.size - 1) :
    ((fresh maxQueueSize mRingQueue).addAll values).size.toNat =
      min values.length maxQueueSize.toNat ∧
    (∀ value, (((fresh maxQueueSize mRingQueue).addAll values).add value).2.toNat =
        values.length % maxQueueSize.toNat ∧
      (((fresh maxQueueSize mRingQueue).addAll values).add value).1.mRingQueue =
        Function.update ((fresh maxQueueSize mRingQueue).addAll values).mRingQueue
          (values.length % maxQueueSize.toNat) value) ∧
    ∀ (loopFunction : Handler σ TData) (s : σ),
      ((fresh maxQueueSize mRingQueue).addAll values).loop loopFunction s =
        ((Handler.feed loopFunction s (newest maxQueueSize values)).1,
          Handler.visited loopFunction s (newest maxQueueSize values)) := by
  have hpos : 0 < maxQueueSize.toNat := UInt64.le_iff_toNat_le.mp hN
  have h := addAll_holds hpos mRingQueue hn
  refine ⟨h.toNat_size,fun value => ⟨?_,?_⟩,h.loop_eq hpos⟩
  · rw [add_snd,h.end_slot]
  · rw [add_mRingQueue,h.end_slot]

/-- Four values in three slots, and a function that wants no more after the value 3. -/
theorem circularBuffer_keeps_newest_three :
    (((fresh 3 (fun _ => 0)).addAll [1,2,3,4]).add 5).2 = 1 ∧
    ((fresh 3 (fun _ => 0)).addAll [1,2,3,4]).loop (fun sum v => (sum + v,decide (v < 3))) 0 =
      (5,[2,3]) := by
  have hthree : (1 : UInt64) ≤ 3 := by decide
  obtain ⟨_,hadd,hloop⟩ := circularBuffer_keeps_newest (σ := ℕ) hthree (fun _ => 0) [1,2,3,4]
    (by decide)
  exact ⟨UInt64.toNat_inj.mp (hadd 5).1,hloop _ 0⟩

end CircularBuffer
end Moboware
