import Moboware.Common.RingBufferRuns

/-! # Compactions of the ring buffer

`GetWriteBuffer` moves the used part to the start of the array with `memcpy`, which is
defined for ranges without a common byte only. They have none where the part in front
of the read pointer is as long as the used part.
-/
namespace Moboware
open Library

namespace RingBuffer
variable {S : Storage} {β : Type*} {b : RingBuffer S β} {i m : ℕ}

/-- The branch that moves the used part: the space above the write pointer is too small for
the request, all the free space is not. -/
def Compacts (b : RingBuffer S β) (size : UInt64) : Prop :=
  ¬ S.advance b.mWriteBuffer size ≤ S.dataEnd ∧
    size ≤ S.distance b.mReadBuffer S.data + S.distance S.dataEnd b.mWriteBuffer

/-- The calls that take the branch. -/
def CompactingCall (b : RingBuffer S β) : Call β → Prop
  | .writeBuffer _ dataSize => b.Compacts dataSize
  | .writeBufferFn _ _ requestedSize => b.Compacts requestedSize
  | .readBuffer _ => False

/-- The destination and the source passed to `memcpy` have no byte in common. -/
def MemcpyApart (b : RingBuffer S β) : Prop :=
  Memory.Apart S.data.toNat b.mReadBuffer.toNat
    (b.getReadBufferSize * UInt64.ofNat S.sizeofBufferType).toNat

/-- There are no more unread bytes than bytes in front of the read pointer. -/
def PrefixCovers (b : RingBuffer S β) : Prop :=
  b.unread.length ≤ b.mReadBuffer.toNat - S.data.toNat

instance (b : RingBuffer S β) (size : UInt64) : Decidable (b.Compacts size) :=
  inferInstanceAs (Decidable (_ ∧ _))

instance (b : RingBuffer S β) : (call : Call β) → Decidable (b.CompactingCall call)
  | .writeBuffer _ dataSize => inferInstanceAs (Decidable (b.Compacts dataSize))
  | .writeBufferFn _ _ requestedSize => inferInstanceAs (Decidable (b.Compacts requestedSize))
  | .readBuffer _ => inferInstanceAs (Decidable False)

instance (b : RingBuffer S β) : Decidable b.MemcpyApart :=
  inferInstanceAs (Decidable (Memory.Apart _ _ _))

instance (b : RingBuffer S β) : Decidable b.PrefixCovers := inferInstanceAs (Decidable (_ ≤ _))

/-- The requests that move memory, and how much of it. -/
theorem getWriteBuffer_eq_of_compacts {size : UInt64} (h : b.Compacts size) :
    b.getWriteBuffer size =
      (b.moveToStart b.getReadBufferSize,S.advance S.data b.getReadBufferSize) := by
  rw [getWriteBuffer,if_neg h.1]
  dsimp only
  exact if_pos h.2

theorem getWriteBuffer_fst_of_not_compacts {size : UInt64} (h : ¬ b.Compacts size) :
    (b.getWriteBuffer size).1 = b := by
  rw [getWriteBuffer]
  split_ifs with hroom
  · rfl
  · dsimp only
    rw [if_neg (fun hfree => h ⟨hroom,hfree⟩)]

theorem Holds.memcpyApart_iff (h : b.Holds i m) : b.MemcpyApart ↔ m ≤ i := by
  have hm : m ≤ S.bufferSize := Nat.le_trans (Nat.le_add_left ..) h.le_bufferSize
  rw [MemcpyApart,h.getReadBufferSize_eq,Storage.toNat_mul_sizeof hm,Memory.apart_iff,h.read_eq,
    Nat.add_le_add_iff_left,Nat.mul_le_mul_right_iff S.sizeof_pos]
  constructor
  · intro hapart
    by_contra hlt
    have hpos : 0 < m * S.sizeofBufferType := Nat.mul_pos (by omega) S.sizeof_pos
    omega
  · exact fun hle => Or.inr (Or.inl hle)

theorem Holds.prefixCovers_iff (h : b.Holds i m) : b.PrefixCovers ↔ m ≤ i := by
  rw [PrefixCovers,h.length_unread,h.read_eq,Nat.add_sub_cancel_left,
    Nat.mul_le_mul_right_iff S.sizeof_pos]

theorem Holds.memcpyApart_iff_prefixCovers (h : b.Holds i m) : b.MemcpyApart ↔ b.PrefixCovers :=
  h.memcpyApart_iff.trans h.prefixCovers_iff.symm

/-- A state that calls with addresses and honest reads lead to compacts without overlap exactly
when its used part is no longer than what is in front of it, whatever size is requested;
and the compactions of a whole run are without overlap exactly when each is done in such
a state. -/
theorem compaction_apart_iff (mBuffer : Memory β) (calls : List (Call β))
    (hcalls : Machine.StepsMeet step (fun b call => b.WriteFits call ∧ b.ReadsWithin call)
      (fresh S mBuffer) calls) :
    (∀ size, (Machine.final step (fresh S mBuffer) calls).Compacts size →
      ((Machine.final step (fresh S mBuffer) calls).MemcpyApart ↔
        (Machine.final step (fresh S mBuffer) calls).PrefixCovers)) ∧
    (Machine.StepsMeet step (fun b call => b.CompactingCall call → b.MemcpyApart)
        (fresh S mBuffer) calls ↔
      Machine.StepsMeet step (fun b call => b.CompactingCall call → b.PrefixCovers)
        (fresh S mBuffer) calls) := by
  have hstep : ∀ (b : RingBuffer S β) call, (∃ i m, b.Holds i m) →
      b.WriteFits call ∧ b.ReadsWithin call → ∃ i m, (step b call).1.Holds i m :=
    fun _ _ ⟨_,_,h⟩ hcall => holds_step h hcall.1 hcall.2
  constructor
  · intro size _
    obtain ⟨i,m,h⟩ := Machine.final_invariant hstep ⟨0,0,fresh_holds mBuffer⟩ hcalls
    exact h.memcpyApart_iff_prefixCovers
  · refine Machine.stepsMeet_congr hstep ?_ ⟨0,0,fresh_holds mBuffer⟩ hcalls
    exact fun _ _ ⟨_,_,h⟩ => imp_congr_right (fun _ => h.memcpyApart_iff_prefixCovers)

/-- Four bytes are written and one is read, and the next write is of one byte. -/
def shiftingCalls : List (Call ℕ) := [.writeBuffer (fun i => i) 4,.readBuffer 1]

theorem compaction_apart_iff_compacting :
    Machine.StepsMeet step (fun b call => b.CompactingCall call → b.MemcpyApart)
      (fresh fourBytes (fun _ => 0)) compactingCalls ∧
    ¬ (Machine.final step (fresh fourBytes (fun _ => 0)) shiftingCalls).MemcpyApart := by
  refine ⟨(compaction_apart_iff _ _ (by decide)).2.mpr (by decide),fun h => ?_⟩
  exact absurd (((compaction_apart_iff _ _ (by decide)).1 1 (by decide)).mp h) (by decide)

/-- Three bytes are moved by one. -/
theorem compaction_not_apart :
    Machine.StepsMeet step (fun b call => b.WriteFits call ∧ b.ReadsWithin call)
      (fresh fourBytes (fun _ => 0)) shiftingCalls ∧
    (Machine.final step (fresh fourBytes (fun _ => 0)) shiftingCalls).Compacts 1 ∧
    ¬ (Machine.final step (fresh fourBytes (fun _ => 0)) shiftingCalls).MemcpyApart := by
  decide

end RingBuffer
end Moboware
