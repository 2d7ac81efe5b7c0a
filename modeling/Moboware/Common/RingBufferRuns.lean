import Moboware.Common.RingBufferPointers

/-! # Runs of the ring buffer

A buffer of bytes is a bounded queue of them, and the pointers of a buffer of any
elements stay in order as long as no read flushes more than it was offered.
-/
namespace Moboware
open Library

namespace RingBuffer
variable {S : Storage} {β : Type*} {b : RingBuffer S β} {i m : ℕ}

/-- As it is constructed, with whatever the memory holds. -/
def fresh (S : Storage) (mBuffer : Memory β) : RingBuffer S β := { mBuffer := mBuffer }

theorem fresh_holds (mBuffer : Memory β) : (fresh S mBuffer).Holds 0 0 :=
  ⟨by simp [fresh],by simp [fresh],Nat.zero_le _⟩

/-- The end of the requested space has an address. -/
def WriteFits (b : RingBuffer S β) : Call β → Prop
  | .writeBuffer _ dataSize => b.Fits dataSize
  | .writeBufferFn _ _ requestedSize => b.Fits requestedSize
  | .readBuffer _ => True

/-- A read function that is called returns at most what it is offered. -/
def ReadsWithin (b : RingBuffer S β) : Call β → Prop
  | .writeBuffer _ _ => True
  | .writeBufferFn _ _ _ => True
  | .readBuffer bytesToFlush =>
    b.getReadBuffer b.getReadBufferSize ≠ 0 → bytesToFlush ≤ b.getReadBufferSize

instance (b : RingBuffer S β) : (call : Call β) → Decidable (b.WriteFits call)
  | .writeBuffer _ dataSize => inferInstanceAs (Decidable (b.Fits dataSize))
  | .writeBufferFn _ _ requestedSize => inferInstanceAs (Decidable (b.Fits requestedSize))
  | .readBuffer _ => inferInstanceAs (Decidable True)

instance (b : RingBuffer S β) : (call : Call β) → Decidable (b.ReadsWithin call)
  | .writeBuffer _ _ => inferInstanceAs (Decidable True)
  | .writeBufferFn _ _ _ => inferInstanceAs (Decidable True)
  | .readBuffer bytesToFlush => inferInstanceAs (Decidable (_ → bytesToFlush ≤ _))

theorem Holds.readsWithin_iff {bytesToFlush : UInt64} (h : b.Holds i m) (hdata : S.data ≠ 0) :
    b.ReadsWithin (.readBuffer bytesToFlush) ↔ bytesToFlush.toNat ≤ m := by
  have hread : b.getReadBuffer b.getReadBufferSize ≠ 0 := by
    rw [getReadBuffer_available]
    exact h.read_ne_zero hdata
  rw [ReadsWithin,UInt64.le_iff_toNat_le,h.toNat_getReadBufferSize]
  exact ⟨fun hw => hw hread,fun hw _ => hw⟩

theorem holds_step {call : Call β} (h : b.Holds i m) (hw : b.WriteFits call)
    (hr : b.ReadsWithin call) : ∃ i' m', (step b call).1.Holds i' m' := by
  have hm := h.le_bufferSize
  cases call with
  | writeBuffer data n =>
    by_cases hfree : n.toNat + m ≤ S.bufferSize
    · obtain ⟨i',_,hnext,_⟩ := writeBuffer_of_free data h hw hfree
      exact ⟨i',_,hnext⟩
    · rw [step,writeBuffer_of_full h hw (by omega)]
      exact ⟨i,m,h⟩
  | writeBufferFn written k n =>
    by_cases hfree : n.toNat + m ≤ S.bufferSize
    · obtain ⟨i',hnext,_⟩ := writeBufferFn_of_free written k h hw hfree
      exact ⟨i',_,hnext⟩
    · rw [step,writeBufferFn_of_full h hw (by omega)]
      exact ⟨i,m,h⟩
  | readBuffer r =>
    rw [step]
    by_cases hdata : S.data = 0
    · rw [readBuffer_null h hdata]
      exact ⟨i,m,h⟩
    · rw [readBuffer_offered h hdata]
      obtain ⟨i',hnext,_⟩ := h.readBuffer_flushed ((h.readsWithin_iff hdata).mp hr)
      exact ⟨i',_,hnext⟩

section Queue

/-- A queue of bytes as its history: all that was committed, and how much of it is flushed. -/
structure ByteQueue (β : Type*) where
  committed : List β := []
  flushed : ℕ := 0

def ByteQueue.unread (q : ByteQueue β) : List β := q.committed.drop q.flushed

def ByteQueue.commit (q : ByteQueue β) (bytes : List β) : ByteQueue β :=
  { q with committed := q.committed ++ bytes }

/-- The bounded queue that the buffer is to be. Only the array of no bytes can be at the
null pointer, and then there is nothing to offer. -/
def queueStep (S : Storage) : Machine (ByteQueue β) (Call β) (Outcome β)
  | q, .writeBuffer data n =>
    if n.toNat ≤ S.bufferSize - q.unread.length then
      (q.commit (Memory.first data n.toNat),[.wrote n])
    else (q,[.wrote 0])
  | q, .writeBufferFn written k requested =>
    if requested.toNat ≤ S.bufferSize - q.unread.length ∧ 0 < k ∧ k ≤ requested then
      (q.commit (Memory.first written k.toNat),[.committed true])
    else (q,[.committed false])
  | q, .readBuffer r =>
    if S.data = 0 then (q,[.read none false])
    else ({ q with flushed := q.flushed + r.toNat },[.read (some q.unread) (decide (r > 0))])

/-- The bytes between the pointers are the unread bytes of the queue. -/
def Represents (b : RingBuffer S β) (q : ByteQueue β) : Prop :=
  (∃ i m, b.Holds i m) ∧ b.unread = q.unread ∧ q.flushed ≤ q.committed.length

theorem ByteQueue.unread_commit {q : ByteQueue β} (h : q.flushed ≤ q.committed.length)
    (bytes : List β) : (q.commit bytes).unread = q.unread ++ bytes :=
  List.drop_append_of_le_length h

theorem Represents.commit {b' : RingBuffer S β} {q : ByteQueue β} {bytes : List β}
    (h : Represents b q) (hholds : b'.Holds i m) (hunread : b'.unread = b.unread ++ bytes) :
    Represents b' (q.commit bytes) := by
  refine ⟨⟨i,m,hholds⟩,?_,?_⟩
  · rw [hunread,ByteQueue.unread_commit h.2.2,h.2.1]
  · exact Nat.le_trans h.2.2 (by simp [ByteQueue.commit])

/-- Each call on a buffer of bytes is the call on its queue. -/
theorem Represents.step {q : ByteQueue β} {call : Call β} (hbyte : S.sizeofBufferType = 1)
    (h : Represents b q) (hcall : b.WriteFits call ∧ b.ReadsWithin call) :
    Represents (step b call).1 (queueStep S q call).1 ∧ (queueStep S q call).2 = (step b call).2 := by
  obtain ⟨⟨i,m,hholds⟩,hunread,hflushed⟩ := h
  have hlength : q.unread.length = m := by
    rw [← hunread,hholds.length_unread,hbyte,Nat.mul_one]
  have hm := hholds.le_bufferSize
  cases call with
  | writeBuffer data n =>
    by_cases hfree : n.toNat ≤ S.bufferSize - m
    · obtain ⟨i',rest,hnext,hcontent,hrest,hn⟩ :=
        writeBuffer_of_free data hholds hcall.1 (by omega)
      have hnil : rest = [] := List.length_eq_zero_iff.mp (by simp [hrest,hbyte])
      rw [hnil,List.append_nil] at hcontent
      rw [queueStep,hlength,if_pos hfree,RingBuffer.step,hn]
      exact ⟨Represents.commit ⟨⟨i,m,hholds⟩,hunread,hflushed⟩ hnext hcontent,rfl⟩
    · rw [queueStep,hlength,if_neg hfree,RingBuffer.step,
        writeBuffer_of_full hholds hcall.1 (by omega)]
      exact ⟨⟨⟨i,m,hholds⟩,hunread,hflushed⟩,rfl⟩
  | writeBufferFn written k requested =>
    by_cases hfree : requested.toNat ≤ S.bufferSize - m
    · obtain ⟨i',hnext,hcontent,hanswer⟩ := writeBufferFn_of_free written k hholds
        hcall.1 (by omega)
      rw [hbyte,Nat.mul_one,committedSize] at hcontent
      rw [queueStep,hlength,RingBuffer.step,hanswer]
      by_cases hk : 0 < k ∧ k ≤ requested
      · rw [if_pos hk] at hcontent
        rw [if_pos ⟨hfree,hk⟩,decide_eq_true hk]
        exact ⟨Represents.commit ⟨⟨i,m,hholds⟩,hunread,hflushed⟩ hnext hcontent,rfl⟩
      · have hsame : (b.writeBufferFn written k requested).1.unread = b.unread := by
          rw [if_neg hk] at hcontent
          rw [hcontent]
          exact List.append_nil _
        rw [if_neg (fun hyes => hk hyes.2),decide_eq_false hk]
        exact ⟨⟨⟨_,_,hnext⟩,hsame.trans hunread,hflushed⟩,rfl⟩
    · have hno : ¬ (requested.toNat ≤ S.bufferSize - m ∧ 0 < k ∧ k ≤ requested) :=
        fun hyes => hfree hyes.1
      rw [queueStep,hlength,if_neg hno,RingBuffer.step,
        writeBufferFn_of_full hholds hcall.1 (by omega)]
      exact ⟨⟨⟨i,m,hholds⟩,hunread,hflushed⟩,rfl⟩
  | readBuffer r =>
    rw [queueStep,RingBuffer.step]
    by_cases hdata : S.data = 0
    · rw [if_pos hdata,readBuffer_null hholds hdata]
      exact ⟨⟨⟨i,m,hholds⟩,hunread,hflushed⟩,rfl⟩
    · have hr : r.toNat ≤ m := (hholds.readsWithin_iff hdata).mp hcall.2
      rw [if_neg hdata,readBuffer_offered hholds hdata,hunread]
      refine ⟨?_,rfl⟩
      obtain ⟨i',hnext,hcontent⟩ := hholds.readBuffer_flushed hr
      refine ⟨⟨i',_,hnext⟩,?_,?_⟩
      · rw [hcontent,hbyte,Nat.mul_one,hunread,ByteQueue.unread,ByteQueue.unread,List.drop_drop]
      · have := List.length_drop (l := q.committed) (i := q.flushed)
        simp only [ByteQueue.unread] at hlength
        dsimp only
        omega

theorem represents_fresh (mBuffer : Memory β) : Represents (fresh S mBuffer) {} := by
  refine ⟨⟨0,0,fresh_holds mBuffer⟩,?_,Nat.le_refl _⟩
  rw [(fresh_holds mBuffer).unread_eq,Nat.zero_mul]
  rfl

/-- A buffer of bytes is a bounded queue of bytes: over any run in which each request
has an end with an address and each read flushes at most what it is offered, the unread
bytes and the answers are those of the queue, and a write that fails changes nothing. -/
theorem byteBuffer_refines_queue (hbyte : S.sizeofBufferType = 1) (mBuffer : Memory β)
    (calls : List (Call β))
    (hcalls : Machine.StepsMeet step (fun b call => b.WriteFits call ∧ b.ReadsWithin call)
      (fresh S mBuffer) calls) :
    List.Forall₂ (fun r q => r.1.unread = q.1.unread ∧ r.2 = q.2)
      (Machine.trace step (fresh S mBuffer) calls) (Machine.trace (queueStep S) {} calls) ∧
    ∀ data n, (Machine.final step (fresh S mBuffer) calls).Fits n →
      S.bufferSize - (Machine.final step (fresh S mBuffer) calls).unread.length < n.toNat →
      (Machine.final step (fresh S mBuffer) calls).writeBuffer data n =
        (Machine.final step (fresh S mBuffer) calls,0) := by
  constructor
  · refine (Machine.trace_refinement (R := Represents) ?_ (represents_fresh mBuffer) hcalls).imp ?_
    · exact fun _ _ _ h hcall => h.step hbyte hcall
    · exact fun _ _ h => ⟨h.1.2.1,h.2.symm⟩
  · intro data n hfits hfull
    obtain ⟨i,m,hholds⟩ := Machine.final_invariant (I := fun b => ∃ i m, b.Holds i m)
      (fun _ _ ⟨_,_,h⟩ hcall => holds_step h hcall.1 hcall.2) ⟨0,0,fresh_holds mBuffer⟩ hcalls
    rw [hholds.length_unread,hbyte,Nat.mul_one] at hfull
    have := hholds.le_bufferSize
    exact writeBuffer_of_full hholds hfits (by omega)

/-- Four bytes at the address 4096. -/
def fourBytes : Storage where
  sizeofBufferType := 1
  bufferSize := 4
  data := 4096
  sizeof_pos := Nat.one_pos
  fits := by decide
  allocated := fun _ => by decide

/-- Three bytes are written and two are read, and the next three only fit when the one
left over moves to the start. -/
def compactingCalls : List (Call ℕ) :=
  [.writeBuffer (fun i => 10 + i) 3,.readBuffer 2,.writeBufferFn (fun i => 20 + i) 3 3,
    .readBuffer 4]

theorem byteBuffer_refines_queue_compacting :
    List.Forall₂ (fun r q => r.1.unread = q.1.unread ∧ r.2 = q.2)
      (Machine.trace step (fresh fourBytes (fun _ => 0)) compactingCalls)
      (Machine.trace (queueStep fourBytes) {} compactingCalls) ∧
    (Machine.final step (fresh fourBytes (fun _ => 0)) compactingCalls).writeBuffer
        (fun i => i) 5 =
      (Machine.final step (fresh fourBytes (fun _ => 0)) compactingCalls,0) := by
  have hrun := byteBuffer_refines_queue (S := fourBytes) rfl (fun _ => 0)
    compactingCalls (by decide)
  exact ⟨hrun.1,hrun.2 _ 5 (by decide) (by decide)⟩

end Queue

section Pointers

/-- The order of the pointers, and what it means for the size of the read buffer. -/
def Ordered (b : RingBuffer S β) : Prop :=
  S.data ≤ b.mReadBuffer ∧ b.mReadBuffer ≤ b.mWriteBuffer ∧ b.mWriteBuffer ≤ S.dataEnd ∧
    b.getReadBufferSize ≤ UInt64.ofNat S.bufferSize

instance (b : RingBuffer S β) : Decidable b.Ordered := inferInstanceAs (Decidable (_ ∧ _))

theorem Holds.ordered (h : b.Holds i m) : b.Ordered := by
  have hend := Nat.mul_le_mul_right S.sizeofBufferType h.le_bufferSize
  have hm : m ≤ S.bufferSize := Nat.le_trans (Nat.le_add_left ..) h.le_bufferSize
  refine ⟨?_,?_,?_,?_⟩
  · rw [UInt64.le_iff_toNat_le,h.read_eq]
    exact Nat.le_add_right ..
  · rw [UInt64.le_iff_toNat_le,h.write_eq]
    exact Nat.le_add_right ..
  · rw [UInt64.le_iff_toNat_le,h.write_eq_data,Storage.toNat_dataEnd]
    exact Nat.add_le_add_left hend _
  · rw [UInt64.le_iff_toNat_le,h.toNat_getReadBufferSize,
      Storage.toNat_ofNat_of_le (Nat.le_refl _)]
    exact hm

/-- The address a flush moves the read pointer to is one. -/
def FlushFits (b : RingBuffer S β) : Call β → Prop
  | .writeBuffer _ _ => True
  | .writeBufferFn _ _ _ => True
  | .readBuffer bytesToFlush =>
    b.mReadBuffer.toNat + bytesToFlush.toNat * S.sizeofBufferType < UInt64.size

instance (b : RingBuffer S β) : (call : Call β) → Decidable (b.FlushFits call)
  | .writeBuffer _ _ => inferInstanceAs (Decidable True)
  | .writeBufferFn _ _ _ => inferInstanceAs (Decidable True)
  | .readBuffer _ => inferInstanceAs (Decidable (_ < _))

/-- A read that flushes more than it was offered leaves the read pointer above the write
pointer: the test of `Flush` does not stop it. -/
theorem not_ordered_of_overread {call : Call β} (h : b.Holds i m) (hfits : b.FlushFits call)
    (hover : ¬ b.ReadsWithin call) : ¬ (step b call).1.Ordered := by
  cases call with
  | writeBuffer data n => exact absurd trivial hover
  | writeBufferFn written k n => exact absurd trivial hover
  | readBuffer r =>
    have hdata : S.data ≠ 0 := fun hdata =>
      hover (fun hread => absurd (getReadBuffer_available.trans (h.read_eq_zero hdata)) hread)
    rw [h.readsWithin_iff hdata] at hover
    have hpos : r > 0 := by
      rw [gt_iff_lt,UInt64.lt_iff_toNat_lt,UInt64.toNat_zero]
      omega
    have hmul := Nat.mul_lt_mul_of_pos_right (Nat.not_le.mp hover) S.sizeof_pos
    have hread : b.mWriteBuffer.toNat < (S.advance b.mReadBuffer r).toNat := by
      rw [Storage.toNat_advance hfits,h.write_eq]
      omega
    rw [step,readBuffer_offered h hdata]
    dsimp only
    rw [if_pos hpos,flush]
    dsimp only
    rw [if_neg (fun heq => absurd (congrArg UInt64.toNat heq) (Nat.ne_of_lt hread))]
    intro hordered
    exact Nat.not_le.mpr hread (UInt64.le_iff_toNat_le.mp hordered.2.1)

/-- The pointers stay in order over every run in which no read flushes more than it is
offered and every requested write has an end with an address; where the flushes too
have addresses to move to, over no other run. -/
theorem pointers_ordered (mBuffer : Memory β) (calls : List (Call β)) :
    (Machine.StepsMeet step (fun b call => b.WriteFits call ∧ b.ReadsWithin call)
        (fresh S mBuffer) calls →
      ∀ r ∈ Machine.trace step (fresh S mBuffer) calls, r.1.Ordered) ∧
    (Machine.StepsMeet step (fun b call => b.WriteFits call ∧ b.FlushFits call)
        (fresh S mBuffer) calls →
      ((∀ r ∈ Machine.trace step (fresh S mBuffer) calls, r.1.Ordered) ↔
        Machine.StepsMeet step ReadsWithin (fresh S mBuffer) calls)) := by
  constructor
  · intro hcalls r hr
    obtain ⟨i,m,h⟩ := Machine.trace_invariant (I := fun b => ∃ i m, b.Holds i m)
      (fun _ _ ⟨_,_,h⟩ hcall => holds_step h hcall.1 hcall.2) ⟨0,0,fresh_holds mBuffer⟩ hcalls r hr
    exact h.ordered
  · intro hcalls
    refine Machine.trace_forall_iff (I := fun b => ∃ i m, b.Holds i m) ?_ ?_ ?_
      ⟨0,0,fresh_holds mBuffer⟩ hcalls
    · exact fun _ ⟨_,_,h⟩ => h.ordered
    · exact fun _ _ ⟨_,_,h⟩ hfits hreads => holds_step h hfits.1 hreads
    · exact fun _ _ ⟨_,_,h⟩ hfits hover => not_ordered_of_overread h hfits.2 hover

/-- Two bytes are written and three flushed. -/
def overreadingCalls : List (Call ℕ) := [.writeBuffer (fun i => i) 2,.readBuffer 3]

theorem pointers_ordered_compacting :
    (∀ r ∈ Machine.trace step (fresh fourBytes (fun _ => 0)) compactingCalls, r.1.Ordered) ∧
    ¬ ∀ r ∈ Machine.trace step (fresh fourBytes (fun _ => 0)) overreadingCalls, r.1.Ordered := by
  refine ⟨(pointers_ordered _ _).1 (by decide),fun h => ?_⟩
  exact absurd (((pointers_ordered _ _).2 (by decide)).mp h) (by decide)

/-- The read of three of two bytes succeeds, and the buffer then offers 2⁶⁴ - 1. -/
theorem overread_not_ordered :
    ¬ (Machine.final step (fresh fourBytes (fun _ => 0)) overreadingCalls).Ordered ∧
    (Machine.final step (fresh fourBytes (fun _ => 0)) overreadingCalls).getReadBufferSize =
      18446744073709551615 := by
  decide

end Pointers
end RingBuffer
end Moboware
