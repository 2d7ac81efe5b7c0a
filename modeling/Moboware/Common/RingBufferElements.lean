import Moboware.Common.RingBufferCompaction

/-! # Elements of more than one byte

`WriteBuffer` passes the count of the elements to `memcpy`, which counts bytes. The rest
of the committed elements is what the array held there before.
-/
namespace Moboware
open Library

namespace RingBuffer
variable {S : Storage} {β : Type*} {b : RingBuffer S β} {data : ℕ → β} {size : UInt64} {i m : ℕ}

/-- The element behind the used part, where that is to be after the request. -/
def destination (b : RingBuffer S β) (size : UInt64) : UInt64 :=
  if b.Compacts size then S.advance S.data b.getReadBufferSize else b.mWriteBuffer

/-- The array holds the last bytes of the elements already: those behind as many bytes as
there are elements. -/
def HoldsRest (b : RingBuffer S β) (data : ℕ → β) (size : UInt64) : Prop :=
  ∀ j < size.toNat * (S.sizeofBufferType - 1),
    data (size.toNat + j) = b.mBuffer ((b.destination size).toNat + size.toNat + j)

instance [DecidableEq β] (b : RingBuffer S β) (data : ℕ → β) (size : UInt64) :
    Decidable (b.HoldsRest data size) := inferInstanceAs (Decidable (∀ j < _, _))

/-- Whatever the read function flushes, it is offered all bytes of the elements at the end. -/
def OffersLast (b : RingBuffer S β) (data : ℕ → β) (size : UInt64) : Prop :=
  ∀ bytesToFlush, ∃ offered, (b.readBuffer bytesToFlush).2.1 = some offered ∧
    Memory.first data (size.toNat * S.sizeofBufferType) <:+ offered

/-- A compaction writes below the address it returns. -/
theorem Holds.getWriteBuffer_destination (h : b.Holds i m)
    (hfree : size.toNat + m ≤ S.bufferSize) :
    (b.getWriteBuffer size).2 = b.destination size ∧
      ∀ a, (b.destination size).toNat ≤ a →
        (b.getWriteBuffer size).1.mBuffer a = b.mBuffer a := by
  by_cases hcompacts : b.Compacts size
  · have hm : m ≤ S.bufferSize := by omega
    rw [getWriteBuffer_eq_of_compacts hcompacts,destination,if_pos hcompacts]
    refine ⟨rfl,?_⟩
    intro a ha
    rw [h.getReadBufferSize_eq,Storage.advance_data_le hm] at ha
    rw [RingBuffer.moveToStart,h.getReadBufferSize_eq,Storage.toNat_mul_sizeof hm]
    exact if_neg (by omega)
  · have hroom : S.advance b.mWriteBuffer size ≤ S.dataEnd := by
      by_contra hno
      exact hcompacts ⟨hno,h.free_ge_iff.mpr hfree⟩
    rw [getWriteBuffer,if_pos hroom,destination,if_neg hcompacts]
    exact ⟨rfl,fun _ _ => rfl⟩

/-- The unread bytes after a write: those before it, the bytes that are copied, and the bytes
that the array holds behind them. -/
theorem Holds.writeBuffer_unread (h : b.Holds i m) (data : ℕ → β) (hfits : b.Fits size)
    (hfree : size.toNat + m ≤ S.bufferSize) (hpos : 0 < size.toNat) :
    (∃ i', (b.writeBuffer data size).1.Holds i' (m + size.toNat)) ∧
      (b.writeBuffer data size).1.unread = b.unread ++ (Memory.first data size.toNat ++
        b.mBuffer.load ((b.destination size).toNat + size.toNat)
          (size.toNat * (S.sizeofBufferType - 1))) := by
  obtain ⟨b',i',h',hroom,hunread,heq⟩ := h.getWriteBuffer_of_free hfits hfree
  obtain ⟨hptr,habove⟩ := h.getWriteBuffer_destination hfree
  rw [heq] at hptr habove
  dsimp only at hptr habove
  have hnull : b'.mWriteBuffer ≠ 0 := h'.write_ne_zero (by omega)
  rw [writeBuffer,heq]
  dsimp only
  rw [if_pos hnull]
  obtain ⟨hstored,hsame⟩ := h'.store data size.toNat
  obtain ⟨hcommit,hcontent⟩ := hstored.commit hroom
  refine ⟨⟨i',hcommit⟩,?_⟩
  have hcopied : (b'.store b'.mWriteBuffer data size.toNat).mBuffer.load
      b'.mWriteBuffer.toNat size.toNat = Memory.first data size.toNat :=
    Memory.load_store (Nat.le_refl _)
  have hrest : (b'.store b'.mWriteBuffer data size.toNat).mBuffer.load
      (b'.mWriteBuffer.toNat + size.toNat) (size.toNat * (S.sizeofBufferType - 1)) =
      b.mBuffer.load (b'.mWriteBuffer.toNat + size.toNat)
        (size.toNat * (S.sizeofBufferType - 1)) := by
    rw [RingBuffer.store,Memory.load_store_disjoint (Or.inr (Nat.le_refl _)),hptr]
    exact Memory.first_congr (fun j _ => habove _ (by omega))
  rw [hcontent,hsame,hunread,S.mul_sizeof,Memory.load_add,← hptr,← hrest,← hcopied]
  rfl

/-- A write that succeeds is one of elements for which there is room. -/
theorem Holds.room_of_wrote (h : b.Holds i m) (hfits : b.Fits size)
    (hwrote : (b.writeBuffer data size).2 ≠ 0) :
    size.toNat + m ≤ S.bufferSize ∧ 0 < size.toNat := by
  have hfree : size.toNat + m ≤ S.bufferSize := by
    by_contra hfull
    rw [writeBuffer_of_full h hfits (by omega)] at hwrote
    exact hwrote rfl
  refine ⟨hfree,?_⟩
  obtain ⟨_,_,_,_,_,hsize⟩ := writeBuffer_of_free data h hfits hfree
  rw [hsize] at hwrote
  exact Nat.pos_of_ne_zero (fun hzero => hwrote (UInt64.toNat_inj.mp hzero))

theorem Holds.offersLast_iff_holdsRest (h : b.Holds i m) (data : ℕ → β) (hfits : b.Fits size)
    (hfree : size.toNat + m ≤ S.bufferSize) (hpos : 0 < size.toNat) :
    (b.writeBuffer data size).1.OffersLast data size ↔ b.HoldsRest data size := by
  obtain ⟨⟨i',hnext⟩,hunread⟩ := h.writeBuffer_unread data hfits hfree hpos
  have hdata : S.data ≠ 0 := S.allocated (by omega)
  have hoffered : (b.writeBuffer data size).1.OffersLast data size ↔
      Memory.first data (size.toNat * S.sizeofBufferType) <:+
        (b.writeBuffer data size).1.unread := by
    simp only [OffersLast,readBuffer_offered hnext hdata,Option.some_inj,exists_eq_left',
      forall_const]
  rw [hoffered,hunread,S.mul_sizeof,Memory.first_add]
  -- The end of the offered bytes is as long as the elements.
  rw [← List.nil_append (Memory.first data size.toNat ++ _),
    List.suffix_append_inj_of_length_eq (by simp)]
  simp only [List.nil_suffix,true_and,List.append_cancel_left_eq]
  exact Memory.first_eq_first_iff

/-- No array holds the rest of all elements already, so all writes are complete for elements
of one byte only. -/
theorem Holds.forall_offersLast_iff [Nontrivial β] (h : b.Holds i m) (hfits : b.Fits size)
    (hfree : size.toNat + m ≤ S.bufferSize) (hpos : 0 < size.toNat) :
    (∀ data, (b.writeBuffer data size).1.OffersLast data size) ↔ S.sizeofBufferType = 1 := by
  simp only [h.offersLast_iff_holdsRest _ hfits hfree hpos]
  constructor
  · intro hall
    by_contra hmore
    obtain ⟨x,hx⟩ := exists_ne (b.mBuffer ((b.destination size).toNat + size.toNat))
    have hlong : 0 < S.sizeofBufferType - 1 := by
      have := S.sizeof_pos
      omega
    exact hx (hall (fun _ => x) 0 (Nat.mul_pos hpos hlong))
  · intro hbyte data j hj
    rw [hbyte,Nat.sub_self,Nat.mul_zero] at hj
    omega

/-- In every state that calls with addresses and honest reads lead to, a write that succeeds
is offered to the reader with all bytes of its elements exactly when the array already holds
those that it does not copy. -/
theorem writeBuffer_offersLast_iff (mBuffer : Memory β) (calls : List (Call β))
    (hcalls : Machine.StepsMeet step (fun b call => b.WriteFits call ∧ b.ReadsWithin call)
      (fresh S mBuffer) calls) (data : ℕ → β) (size : UInt64)
    (hfits : (Machine.final step (fresh S mBuffer) calls).Fits size)
    (hwrote : ((Machine.final step (fresh S mBuffer) calls).writeBuffer data size).2 ≠ 0) :
    ((Machine.final step (fresh S mBuffer) calls).writeBuffer data size).1.OffersLast data size ↔
      (Machine.final step (fresh S mBuffer) calls).HoldsRest data size := by
  obtain ⟨i,m,h⟩ := Machine.final_invariant (I := fun b => ∃ i m, b.Holds i m)
    (fun _ _ ⟨_,_,h⟩ hcall => holds_step h hcall.1 hcall.2) ⟨0,0,fresh_holds mBuffer⟩ hcalls
  obtain ⟨hfree,hpos⟩ := h.room_of_wrote hfits hwrote
  exact h.offersLast_iff_holdsRest data hfits hfree hpos

/-- Four elements of two bytes. -/
def fourPairs : Storage where
  sizeofBufferType := 2
  bufferSize := 4
  data := 8192
  sizeof_pos := Nat.two_pos
  fits := by decide
  allocated := fun _ => by decide

/-- Three elements are written and two are read, and there is no room for two above the third. -/
def pairCalls : List (Call ℕ) := [.writeBuffer (fun _ => 7) 3,.readBuffer 2]

theorem writeBuffer_offersLast_iff_pairs :
    ((Machine.final step (fresh fourPairs (fun _ => 7)) pairCalls).writeBuffer
      (fun _ => 7) 2).1.OffersLast (fun _ => 7) 2 ∧
    ¬ ((Machine.final step (fresh fourPairs (fun _ => 7)) pairCalls).writeBuffer
      (fun j => j) 2).1.OffersLast (fun j => j) 2 := by
  refine ⟨(writeBuffer_offersLast_iff _ _ (by decide) _ 2 (by decide) (by decide)).mpr
    (by decide),fun h => ?_⟩
  exact absurd ((writeBuffer_offersLast_iff _ _ (by decide) _ 2 (by decide) (by decide)).mp h)
    (by decide)

/-- One element of the bytes 1 and 2 is written, and the reader is offered 1 and 0. -/
theorem writeBuffer_not_offersLast :
    ((fresh fourPairs (fun _ => 0)).writeBuffer (fun j => j + 1) 1).2 = 1 ∧
    (((fresh fourPairs (fun _ => 0)).writeBuffer (fun j => j + 1) 1).1.readBuffer 1).2.1 =
      some [1,0] ∧
    ¬ ((fresh fourPairs (fun _ => 0)).writeBuffer (fun j => j + 1) 1).1.OffersLast
      (fun j => j + 1) 1 := by
  have hoffered : (((fresh fourPairs (fun _ => 0)).writeBuffer (fun j => j + 1) 1).1.readBuffer
      1).2.1 = some [1,0] := by decide
  refine ⟨by decide,hoffered,fun h => ?_⟩
  obtain ⟨offered,hread,hsuffix⟩ := h 1
  rw [hoffered,Option.some_inj] at hread
  rw [← hread] at hsuffix
  exact absurd hsuffix (by decide)

end RingBuffer
end Moboware
