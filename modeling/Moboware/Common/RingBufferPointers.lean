import Moboware.Common.RingBuffer

/-! # The pointers of the ring buffer

Where the two pointers stand is a pair of numbers: the position of the first unread
element and the count of unread ones. Each call is described on that pair.
-/
namespace Moboware
open Library

namespace Storage
variable {S : Storage} {p q n : UInt64} {k : ℕ}

theorem toNat_advance (h : p.toNat + n.toNat * S.sizeofBufferType < UInt64.size) :
    (S.advance p n).toNat = p.toNat + n.toNat * S.sizeofBufferType := by
  rw [advance,UInt64.toNat_add,UInt64.toNat_mul,UInt64.toNat_ofNat',Nat.mul_mod_mod,Nat.add_mod_mod]
  exact Nat.mod_eq_of_lt h

theorem distance_eq (h : p.toNat = q.toNat + k * S.sizeofBufferType) :
    S.distance p q = UInt64.ofNat k := by
  have hpos : (S.sizeofBufferType : Int) ≠ 0 := by
    have := S.sizeof_pos
    omega
  have hdiff : (p.toNat : Int) - q.toNat = k * S.sizeofBufferType := by
    rw [h]
    push_cast
    omega
  have hmod : (k : Int) % 2 ^ 64 = (k % 2 ^ 64 : ℕ) := by omega
  rw [distance,hdiff,Int.mul_ediv_cancel _ hpos,UInt64.ofInt,hmod,Int.toNat_natCast,
    ← UInt64.toNat_inj,UInt64.toNat_ofNat',UInt64.toNat_ofNat',Nat.mod_mod]

theorem bufferSize_lt (S : Storage) : S.bufferSize < UInt64.size := by
  have h : S.data.toNat + S.bufferSize * S.sizeofBufferType < UInt64.size := S.fits
  have := Nat.le_mul_of_pos_right S.bufferSize S.sizeof_pos
  omega

theorem toNat_ofNat_of_le (h : k ≤ S.bufferSize) : (UInt64.ofNat k).toNat = k := by
  rw [UInt64.toNat_ofNat']
  exact Nat.mod_eq_of_lt (Nat.lt_of_le_of_lt h S.bufferSize_lt)

theorem advance_data_le (h : k ≤ S.bufferSize) :
    (S.advance S.data (UInt64.ofNat k)).toNat = S.data.toNat + k * S.sizeofBufferType := by
  have hk := toNat_ofNat_of_le h
  have hle := Nat.mul_le_mul_right S.sizeofBufferType h
  have hfits := S.fits
  rw [toNat_advance,hk]
  rw [hk]
  omega

/-- The size in bytes of a part of the array. -/
theorem toNat_mul_sizeof (h : k ≤ S.bufferSize) :
    (UInt64.ofNat k * UInt64.ofNat S.sizeofBufferType).toNat = k * S.sizeofBufferType := by
  have hle := Nat.mul_le_mul_right S.sizeofBufferType h
  have hlt : _ < 2 ^ 64 := S.fits
  rw [UInt64.toNat_mul,UInt64.toNat_ofNat',UInt64.toNat_ofNat',← Nat.mul_mod]
  exact Nat.mod_eq_of_lt (by omega)

/-- The bytes of elements, when as many as there are elements are counted first. -/
theorem mul_sizeof (S : Storage) (k : ℕ) :
    k * S.sizeofBufferType = k + k * (S.sizeofBufferType - 1) := by
  rw [Nat.mul_sub_one,Nat.add_sub_cancel' (Nat.le_mul_of_pos_right _ S.sizeof_pos)]

theorem toNat_dataEnd : S.dataEnd.toNat = S.data.toNat + S.bufferSize * S.sizeofBufferType :=
  advance_data_le (Nat.le_refl _)

end Storage

namespace RingBuffer
variable {S : Storage} {β : Type*} {b : RingBuffer S β} {size : UInt64} {i m : ℕ}

/-- The bytes between the pointers. -/
def unread (b : RingBuffer S β) : List β :=
  b.mBuffer.load b.mReadBuffer.toNat (b.mWriteBuffer.toNat - b.mReadBuffer.toNat)

/-- `m` elements are unread, from the element `i` on. -/
structure Holds (b : RingBuffer S β) (i m : ℕ) : Prop where
  read_eq : b.mReadBuffer.toNat = S.data.toNat + i * S.sizeofBufferType
  write_eq : b.mWriteBuffer.toNat = b.mReadBuffer.toNat + m * S.sizeofBufferType
  le_bufferSize : i + m ≤ S.bufferSize

/-- The address that the end of a request would have is one. -/
def Fits (b : RingBuffer S β) (size : UInt64) : Prop :=
  b.mWriteBuffer.toNat + size.toNat * S.sizeofBufferType < UInt64.size

instance (b : RingBuffer S β) (size : UInt64) : Decidable (b.Fits size) :=
  inferInstanceAs (Decidable (_ < _))

theorem holds_reset : b.reset.Holds 0 0 := ⟨by simp [reset],by simp [reset],Nat.zero_le _⟩

namespace Holds

theorem unread_eq (h : b.Holds i m) :
    b.unread = b.mBuffer.load b.mReadBuffer.toNat (m * S.sizeofBufferType) := by
  rw [unread,h.write_eq,Nat.add_sub_cancel_left]

theorem length_unread (h : b.Holds i m) : b.unread.length = m * S.sizeofBufferType := by
  rw [h.unread_eq,Memory.length_load]

theorem write_eq_data (h : b.Holds i m) :
    b.mWriteBuffer.toNat = S.data.toNat + (i + m) * S.sizeofBufferType := by
  rw [h.write_eq,h.read_eq,Nat.add_mul,Nat.add_assoc]

theorem getReadBufferSize_eq (h : b.Holds i m) : b.getReadBufferSize = UInt64.ofNat m :=
  Storage.distance_eq h.write_eq

theorem toNat_getReadBufferSize (h : b.Holds i m) : b.getReadBufferSize.toNat = m := by
  have := h.le_bufferSize
  rw [h.getReadBufferSize_eq,Storage.toNat_ofNat_of_le (by omega : m ≤ S.bufferSize)]

/-- The free size is the room above the write pointer only. -/
theorem toNat_getFreeWriteBufferSize (h : b.Holds i m) :
    b.getFreeWriteBufferSize.toNat = S.bufferSize - (i + m) := by
  have hused : b.getWriteBufferSize = UInt64.ofNat (i + m) := Storage.distance_eq h.write_eq_data
  have hle : UInt64.ofNat (i + m) ≤ UInt64.ofNat S.bufferSize := by
    rw [UInt64.le_iff_toNat_le,Storage.toNat_ofNat_of_le h.le_bufferSize,
      Storage.toNat_ofNat_of_le (Nat.le_refl _)]
    exact h.le_bufferSize
  rw [getFreeWriteBufferSize,hused,UInt64.toNat_sub_of_le _ _ hle,
    Storage.toNat_ofNat_of_le h.le_bufferSize,Storage.toNat_ofNat_of_le (Nat.le_refl _)]

/-- The test of the space above the write pointer. -/
theorem advance_le_iff (h : b.Holds i m) (hfits : b.Fits size) :
    S.advance b.mWriteBuffer size ≤ S.dataEnd ↔ i + m + size.toNat ≤ S.bufferSize := by
  rw [UInt64.le_iff_toNat_le,Storage.toNat_advance hfits,Storage.toNat_dataEnd,h.write_eq_data,
    Nat.add_assoc,← Nat.add_mul,Nat.add_le_add_iff_left]
  exact ⟨fun hle => Nat.le_of_mul_le_mul_right hle S.sizeof_pos,Nat.mul_le_mul_right _⟩

/-- The test of all the space there is. -/
theorem free_ge_iff (h : b.Holds i m) :
    S.distance b.mReadBuffer S.data + S.distance S.dataEnd b.mWriteBuffer ≥ size ↔
      size.toNat + m ≤ S.bufferSize := by
  have hle := h.le_bufferSize
  have hhigh : S.dataEnd.toNat =
      b.mWriteBuffer.toNat + (S.bufferSize - (i + m)) * S.sizeofBufferType := by
    rw [Storage.toNat_dataEnd,h.write_eq_data,Nat.add_assoc,← Nat.add_mul,Nat.add_sub_cancel' hle]
  have hsum : (UInt64.ofNat i + UInt64.ofNat (S.bufferSize - (i + m))).toNat =
      S.bufferSize - m := by
    have hfree : i + (S.bufferSize - (i + m)) = S.bufferSize - m := by omega
    rw [UInt64.toNat_add,Storage.toNat_ofNat_of_le (by omega : i ≤ S.bufferSize),
      Storage.toNat_ofNat_of_le (Nat.sub_le ..),hfree]
    exact Nat.mod_eq_of_lt (Nat.lt_of_le_of_lt (Nat.sub_le ..) S.bufferSize_lt)
  rw [Storage.distance_eq h.read_eq,Storage.distance_eq hhigh,ge_iff_le,UInt64.le_iff_toNat_le,hsum]
  omega

theorem moveToStart (h : b.Holds i m) : (b.moveToStart (UInt64.ofNat m)).Holds 0 m ∧
    (b.moveToStart (UInt64.ofNat m)).unread = b.unread := by
  have hm : m ≤ S.bufferSize := Nat.le_trans (Nat.le_add_left ..) h.le_bufferSize
  have hmoved : (b.moveToStart (UInt64.ofNat m)).Holds 0 m :=
    ⟨by simp [RingBuffer.moveToStart],Storage.advance_data_le hm,by omega⟩
  refine ⟨hmoved,?_⟩
  rw [hmoved.unread_eq,h.unread_eq,RingBuffer.moveToStart]
  dsimp only
  rw [Storage.toNat_mul_sizeof hm]
  exact Memory.load_move

/-- With room for the request, the unread bytes stay or move to the start of the array
as they are, and the request goes behind them. -/
theorem getWriteBuffer_of_free (h : b.Holds i m) (hfits : b.Fits size)
    (hfree : size.toNat + m ≤ S.bufferSize) :
    ∃ b' i', b'.Holds i' m ∧ i' + m + size.toNat ≤ S.bufferSize ∧ b'.unread = b.unread ∧
      b.getWriteBuffer size = (b',b'.mWriteBuffer) := by
  by_cases hroom : i + m + size.toNat ≤ S.bufferSize
  · refine ⟨b,i,h,hroom,rfl,?_⟩
    rw [getWriteBuffer,if_pos ((h.advance_le_iff hfits).mpr hroom)]
  · have hm : m ≤ S.bufferSize := by omega
    have hused : S.distance b.mWriteBuffer b.mReadBuffer = UInt64.ofNat m :=
      Storage.distance_eq h.write_eq
    obtain ⟨hmoved,hunread⟩ := h.moveToStart
    refine ⟨_,0,hmoved,by omega,hunread,?_⟩
    rw [getWriteBuffer,if_neg (fun hle => hroom ((h.advance_le_iff hfits).mp hle))]
    simp only [if_pos (h.free_ge_iff.mpr hfree),hused]
    rfl

/-- Without room for it nothing is done. -/
theorem getWriteBuffer_of_full (h : b.Holds i m) (hfits : b.Fits size)
    (hfull : S.bufferSize < size.toNat + m) : b.getWriteBuffer size = (b,0) := by
  rw [getWriteBuffer,if_neg,if_neg]
  · rw [h.free_ge_iff]
    omega
  · rw [h.advance_le_iff hfits]
    omega

theorem read_ne_zero (h : b.Holds i m) (hdata : S.data ≠ 0) : b.mReadBuffer ≠ 0 := by
  have hdata' : S.data.toNat ≠ 0 := fun he => hdata (UInt64.toNat_inj.mp he)
  intro he
  have hread := h.read_eq
  rw [he,UInt64.toNat_zero] at hread
  omega

theorem read_eq_zero (h : b.Holds i m) (hdata : S.data = 0) : b.mReadBuffer = 0 := by
  have hN : S.bufferSize = 0 := Nat.eq_zero_of_not_pos (fun hpos => S.allocated hpos hdata)
  have hle := h.le_bufferSize
  have hread := h.read_eq
  have hi : i = 0 := by omega
  rw [hdata,hi,UInt64.toNat_zero,Nat.zero_mul] at hread
  exact UInt64.toNat_inj.mp hread

/-- Only an array of no elements is at the null pointer. -/
theorem write_ne_zero (h : b.Holds i m) (hpos : 0 < S.bufferSize) : b.mWriteBuffer ≠ 0 := by
  have hread : b.mReadBuffer.toNat ≠ 0 :=
    fun he => h.read_ne_zero (S.allocated hpos) (UInt64.toNat_inj.mp he)
  intro he
  have hwrite := h.write_eq
  rw [he,UInt64.toNat_zero] at hwrite
  omega

/-- What is written at the write pointer is behind the unread bytes. -/
theorem store (h : b.Holds i m) (source : ℕ → β) (len : ℕ) :
    (b.store b.mWriteBuffer source len).Holds i m ∧
      (b.store b.mWriteBuffer source len).unread = b.unread := by
  have hstored : (b.store b.mWriteBuffer source len).Holds i m :=
    ⟨h.read_eq,h.write_eq,h.le_bufferSize⟩
  refine ⟨hstored,?_⟩
  rw [hstored.unread_eq,h.unread_eq]
  exact Memory.load_store_disjoint (Or.inl (Nat.le_of_eq h.write_eq.symm))

theorem commit (h : b.Holds i m) (hroom : i + m + size.toNat ≤ S.bufferSize) :
    (b.commit size).Holds i (m + size.toNat) ∧ (b.commit size).unread =
      b.unread ++ b.mBuffer.load b.mWriteBuffer.toNat (size.toNat * S.sizeofBufferType) := by
  have hfits : b.Fits size := by
    have hle := Nat.mul_le_mul_right S.sizeofBufferType hroom
    have hend := S.fits
    rw [Nat.add_mul] at hle
    rw [Fits,h.write_eq_data]
    omega
  have hcommit : (b.commit size).Holds i (m + size.toNat) := by
    refine ⟨h.read_eq,?_,by omega⟩
    rw [RingBuffer.commit,Storage.toNat_advance hfits,h.write_eq,Nat.add_mul,Nat.add_assoc]
  refine ⟨hcommit,?_⟩
  rw [hcommit.unread_eq,h.unread_eq,Nat.add_mul,Memory.load_add,h.write_eq]
  rfl

/-- A flush of no more than what is unread drops the oldest bytes. -/
theorem flush (h : b.Holds i m) (hle : size.toNat ≤ m) : ∃ i',
    (b.flush size).Holds i' (m - size.toNat) ∧
    (b.flush size).unread = b.unread.drop (size.toNat * S.sizeofBufferType) := by
  have hmul := Nat.mul_le_mul_right S.sizeofBufferType hle
  have hread : (S.advance b.mReadBuffer size).toNat =
      b.mReadBuffer.toNat + size.toNat * S.sizeofBufferType := by
    apply Storage.toNat_advance
    have := h.write_eq
    have := b.mWriteBuffer.toNat_lt
    have : UInt64.size = 2 ^ 64 := rfl
    omega
  have hsub : m * S.sizeofBufferType - size.toNat * S.sizeofBufferType =
      (m - size.toNat) * S.sizeofBufferType := (Nat.sub_mul ..).symm
  rw [h.unread_eq,Memory.drop_load,hsub,← hread,RingBuffer.flush]
  dsimp only
  split_ifs with heq
  · have hzero : m - size.toNat = 0 := by
      have hwrite := h.write_eq
      rw [heq,hread,Nat.add_left_cancel_iff] at hwrite
      have := Nat.eq_of_mul_eq_mul_right S.sizeof_pos hwrite
      omega
    rw [hzero,Nat.zero_mul]
    exact ⟨0,holds_reset,holds_reset.unread_eq.trans (by rw [Nat.zero_mul]; rfl)⟩
  · have hflushed : Holds (S := S) { b with mReadBuffer := S.advance b.mReadBuffer size }
        (i + size.toNat) (m - size.toNat) := by
      have hle := h.le_bufferSize
      refine ⟨?_,?_,by omega⟩
      · rw [hread,h.read_eq,Nat.add_mul,Nat.add_assoc]
      · dsimp only
        rw [hread,h.write_eq,← hsub]
        omega
    exact ⟨_,hflushed,hflushed.unread_eq⟩

/-- A read function that flushes nothing leaves the buffer as it is. -/
theorem readBuffer_flushed (h : b.Holds i m) (hle : size.toNat ≤ m) : ∃ i',
    (if size > 0 then b.flush size else b).Holds i' (m - size.toNat) ∧
    (if size > 0 then b.flush size else b).unread =
      b.unread.drop (size.toNat * S.sizeofBufferType) := by
  split_ifs with hpos
  · exact h.flush hle
  · have hzero : size.toNat = 0 := by
      rw [gt_iff_lt,UInt64.lt_iff_toNat_lt,UInt64.toNat_zero] at hpos
      omega
    rw [hzero,Nat.zero_mul]
    exact ⟨i,h,rfl⟩

end Holds

section Calls
variable {data written : ℕ → β} {bytesToCommit bytesToFlush dataSize requestedSize : UInt64}

/-- A write that finds room is behind the unread bytes; it copies as many bytes as the
elements it commits. -/
theorem writeBuffer_of_free (data : ℕ → β) (h : b.Holds i m) (hfits : b.Fits dataSize)
    (hfree : dataSize.toNat + m ≤ S.bufferSize) : ∃ i' rest,
      (b.writeBuffer data dataSize).1.Holds i' (m + dataSize.toNat) ∧
      (b.writeBuffer data dataSize).1.unread =
        b.unread ++ (Memory.first data dataSize.toNat ++ rest) ∧
      rest.length = dataSize.toNat * (S.sizeofBufferType - 1) ∧
      (b.writeBuffer data dataSize).2 = dataSize := by
  obtain ⟨b',i',h',hroom,hunread,heq⟩ := h.getWriteBuffer_of_free hfits hfree
  rw [writeBuffer,heq]
  dsimp only
  by_cases hnull : b'.mWriteBuffer = 0
  · -- An array of no elements: the write is one of no bytes.
    have hN : S.bufferSize = 0 := Nat.eq_zero_of_not_pos (fun hpos => h'.write_ne_zero hpos hnull)
    have hm : m = 0 := by omega
    have hsize : dataSize.toNat = 0 := by omega
    have hzero : dataSize = 0 := UInt64.toNat_inj.mp hsize
    subst hzero
    rw [if_neg (not_not_intro hnull)]
    refine ⟨i',[],h',?_,by simp,rfl⟩
    rw [hunread]
    simp [Memory.first]
  · rw [if_pos hnull]
    obtain ⟨hstored,hsame⟩ := h'.store data dataSize.toNat
    obtain ⟨hcommit,hcontent⟩ := hstored.commit hroom
    refine ⟨i',(b'.store b'.mWriteBuffer data dataSize.toNat).mBuffer.load
      (b'.mWriteBuffer.toNat + dataSize.toNat) (dataSize.toNat * (S.sizeofBufferType - 1)),
      hcommit,?_,Memory.length_load,rfl⟩
    have hcopied : (b'.store b'.mWriteBuffer data dataSize.toNat).mBuffer.load
        b'.mWriteBuffer.toNat dataSize.toNat = Memory.first data dataSize.toNat :=
      Memory.load_store (Nat.le_refl _)
    rw [hcontent,hsame,hunread,S.mul_sizeof,Memory.load_add,← hcopied]
    rfl

theorem writeBuffer_of_full (h : b.Holds i m) (hfits : b.Fits dataSize)
    (hfull : S.bufferSize < dataSize.toNat + m) : b.writeBuffer data dataSize = (b,0) := by
  rw [writeBuffer,h.getWriteBuffer_of_full hfits hfull]
  rfl

/-- The elements a write function commits. -/
def committedSize (bytesToCommit requestedSize : UInt64) : UInt64 :=
  if bytesToCommit > 0 ∧ bytesToCommit ≤ requestedSize then bytesToCommit else 0

theorem writeBufferFn_of_free (written : ℕ → β) (bytesToCommit : UInt64) (h : b.Holds i m)
    (hfits : b.Fits requestedSize) (hfree : requestedSize.toNat + m ≤ S.bufferSize) : ∃ i',
      (b.writeBufferFn written bytesToCommit requestedSize).1.Holds i'
        (m + (committedSize bytesToCommit requestedSize).toNat) ∧
      (b.writeBufferFn written bytesToCommit requestedSize).1.unread = b.unread ++
        Memory.first written
          ((committedSize bytesToCommit requestedSize).toNat * S.sizeofBufferType) ∧
      (b.writeBufferFn written bytesToCommit requestedSize).2 =
        decide (bytesToCommit > 0 ∧ bytesToCommit ≤ requestedSize) := by
  obtain ⟨b',i',h',hroom,hunread,heq⟩ := h.getWriteBuffer_of_free hfits hfree
  rw [writeBufferFn,heq]
  dsimp only
  by_cases hnull : b'.mWriteBuffer = 0
  · -- An array of no elements: nothing can be committed.
    have hN : S.bufferSize = 0 := Nat.eq_zero_of_not_pos (fun hpos => h'.write_ne_zero hpos hnull)
    have hnone : ¬ (bytesToCommit > 0 ∧ bytesToCommit ≤ requestedSize) := by
      rintro ⟨hpos,hle⟩
      rw [gt_iff_lt,UInt64.lt_iff_toNat_lt,UInt64.toNat_zero] at hpos
      rw [UInt64.le_iff_toNat_le] at hle
      omega
    rw [if_neg (not_not_intro hnull),committedSize,if_neg hnone]
    refine ⟨i',h',?_,by simp [hnone]⟩
    rw [hunread]
    simp [Memory.first]
  · rw [if_pos hnull]
    obtain ⟨hstored,hsame⟩ := h'.store written (requestedSize.toNat * S.sizeofBufferType)
    by_cases hcommits : bytesToCommit > 0 ∧ bytesToCommit ≤ requestedSize
    · have hle : bytesToCommit.toNat ≤ requestedSize.toNat :=
        UInt64.le_iff_toNat_le.mp hcommits.2
      have hend : i' + m + bytesToCommit.toNat ≤ S.bufferSize := by omega
      have hwritten : (b'.store b'.mWriteBuffer written
          (requestedSize.toNat * S.sizeofBufferType)).mBuffer.load b'.mWriteBuffer.toNat
            (bytesToCommit.toNat * S.sizeofBufferType) =
          Memory.first written (bytesToCommit.toNat * S.sizeofBufferType) :=
        Memory.load_store (Nat.mul_le_mul_right _ hle)
      obtain ⟨hcommit,hcontent⟩ := hstored.commit hend
      rw [if_pos hcommits,committedSize,if_pos hcommits]
      refine ⟨i',hcommit,?_,by simp [hcommits]⟩
      rw [hcontent,hsame,hunread,← hwritten]
      rfl
    · rw [if_neg hcommits,committedSize,if_neg hcommits]
      refine ⟨i',hstored,?_,by simp [hcommits]⟩
      rw [hsame,hunread]
      simp [Memory.first]

theorem writeBufferFn_of_full (h : b.Holds i m) (hfits : b.Fits requestedSize)
    (hfull : S.bufferSize < requestedSize.toNat + m) :
    b.writeBufferFn written bytesToCommit requestedSize = (b,false) := by
  rw [writeBufferFn,h.getWriteBuffer_of_full hfits hfull]
  rfl

theorem getReadBuffer_available : b.getReadBuffer b.getReadBufferSize = b.mReadBuffer :=
  if_pos (UInt64.le_refl _)

/-- The array of no elements may be at the null pointer, and then `readFn` is not called. -/
theorem readBuffer_offered (h : b.Holds i m) (hdata : S.data ≠ 0) :
    b.readBuffer bytesToFlush =
      (if bytesToFlush > 0 then b.flush bytesToFlush else b,some b.unread,
        decide (bytesToFlush > 0)) := by
  rw [readBuffer]
  dsimp only
  rw [getReadBuffer_available,if_neg (h.read_ne_zero hdata),h.toNat_getReadBufferSize,← h.unread_eq]
  split_ifs with hpos <;> simp [hpos]

theorem readBuffer_null (h : b.Holds i m) (hdata : S.data = 0) :
    b.readBuffer bytesToFlush = (b,none,false) := by
  have hptr : b.getReadBuffer b.getReadBufferSize = 0 :=
    getReadBuffer_available.trans (h.read_eq_zero hdata)
  rw [readBuffer]
  dsimp only
  rw [if_pos hptr]

end Calls
end RingBuffer
end Moboware
