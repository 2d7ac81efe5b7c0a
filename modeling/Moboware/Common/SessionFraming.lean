import Mathlib.Data.List.Basic

/-! # Framing of a session

`Send` puts the length of the payload as a 16-bit word in front of it. The client
reads whatever has arrived, up to the size of its buffer, and takes the bytes behind
the first two of each read for a payload; it looks at no header. The length of a
`std::string` is a 64-bit word, and a length above `max_size()` throws.
-/
namespace Moboware.Session

abbrev Bytes := List UInt8

def maxBufferSize : ℕ := 1024

/-- `sizeof(std::uint16_t)`. -/
def sizeofHeader : UInt64 := 2

/-- `max_size()` of `std::string`. -/
def maxSize : UInt64 := 0x7ffffffffffffffe

/-- The length of the payload, cut to the 16 bits of the header. -/
def mesgLen (sendBuffer : Bytes) : UInt16 := UInt16.ofNat sendBuffer.length

def memory (w : UInt16) : Bytes := [w.toUInt8,(w >>> 8).toUInt8]

/-- The bytes that one `Send` writes to the socket. -/
def send (sendBuffer : Bytes) : Bytes := memory (mesgLen sendBuffer) ++ sendBuffer

/-- The bytes of one read: at least one, and no more than the buffer holds. -/
structure Read where
  readBuffer : Bytes
  pos : 0 < readBuffer.length
  le : readBuffer.length ≤ maxBufferSize

namespace Read

def bytesRead (r : Read) : UInt64 := UInt64.ofNat r.readBuffer.length

def payloadSize (r : Read) : UInt64 := r.bytesRead - sizeofHeader

/-- The payload of `HandleReceivedData`; `none` is the `std::length_error` of its constructor. -/
def handleReceivedData (r : Read) : Option Bytes :=
  if r.payloadSize > maxSize then none
  else some ((r.readBuffer.drop sizeofHeader.toNat).take r.payloadSize.toNat)

theorem toNat_bytesRead (r : Read) : r.bytesRead.toNat = r.readBuffer.length := by
  have hle := r.le
  unfold maxBufferSize at hle
  rw [bytesRead,UInt64.toNat_ofNat']
  omega

/-- The subtraction of the header wraps. -/
def Wraps (r : Read) : Prop := r.bytesRead < sizeofHeader

theorem wraps_iff (r : Read) : r.Wraps ↔ r.readBuffer.length < 2 := by
  rw [Wraps,UInt64.lt_iff_toNat_lt,toNat_bytesRead]
  exact Iff.rfl

theorem toNat_payloadSize {r : Read} (h : ¬ r.Wraps) :
    r.payloadSize.toNat + 2 = r.readBuffer.length := by
  have hlen : 2 ≤ r.readBuffer.length := by
    rw [wraps_iff] at h
    omega
  rw [payloadSize,UInt64.toNat_sub_of_le,toNat_bytesRead]
  · exact Nat.sub_add_cancel hlen
  · rw [UInt64.le_iff_toNat_le,toNat_bytesRead]
    exact hlen

theorem handleReceivedData_of_not_wraps {r : Read} (h : ¬ r.Wraps) :
    r.handleReceivedData = some (r.readBuffer.drop 2) := by
  have hsize := toNat_payloadSize h
  have hle := r.le
  unfold maxBufferSize at hle
  have hmax : ¬ r.payloadSize > maxSize := by
    rw [gt_iff_lt,UInt64.lt_iff_toNat_lt]
    change ¬ 0x7ffffffffffffffe < r.payloadSize.toNat
    omega
  rw [handleReceivedData,if_neg hmax]
  refine congrArg some (List.take_of_length_le ?_)
  change (r.readBuffer.drop 2).length ≤ r.payloadSize.toNat
  rw [List.length_drop]
  omega

theorem handleReceivedData_of_wraps {r : Read} (h : r.Wraps) : r.handleReceivedData = none := by
  have hpos := r.pos
  have hone : r.readBuffer.length = 1 := by
    rw [wraps_iff] at h
    omega
  rw [handleReceivedData,payloadSize,bytesRead,hone]
  rfl

end Read

theorem length_send (payload : Bytes) : (send payload).length = payload.length + 2 := by
  rw [send,List.length_append,Nat.add_comm]
  rfl

theorem toNat_mesgLen {payload : Bytes} (h : payload.length + 2 ≤ maxBufferSize) :
    (mesgLen payload).toNat = payload.length := by
  unfold maxBufferSize at h
  rw [mesgLen,UInt16.toNat_ofNat']
  omega

/-- What the framing is for: the payloads come out as they were sent, every header is the
length of its payload, and no read is too short for a header. -/
structure RoundTrip (payloads : List Bytes) (reads : List Read) : Prop where
  payloads_eq : reads.filterMap Read.handleReceivedData = payloads
  header : ∀ payload ∈ payloads, (mesgLen payload).toNat = payload.length
  not_wraps : ∀ r ∈ reads, ¬ r.Wraps

/-- Every read delivers one frame. -/
def ReadPerFrame (payloads : List Bytes) (reads : List Read) : Prop :=
  reads.map (fun r => r.readBuffer.length) = payloads.map (fun payload => payload.length + 2)

theorem filterMap_handleReceivedData {reads : List Read} (h : ∀ r ∈ reads, ¬ r.Wraps) :
    reads.filterMap Read.handleReceivedData = reads.map (fun r => r.readBuffer.drop 2) := by
  induction reads with
  | nil => rfl
  | cons r reads ih =>
    rw [List.forall_mem_cons] at h
    rw [List.filterMap_cons,Read.handleReceivedData_of_not_wraps h.1,List.map_cons,ih h.2]

theorem RoundTrip.readPerFrame {payloads : List Bytes} {reads : List Read}
    (h : RoundTrip payloads reads) : ReadPerFrame payloads reads := by
  have heq := h.payloads_eq
  rw [filterMap_handleReceivedData h.not_wraps] at heq
  rw [ReadPerFrame,← heq,List.map_map]
  apply List.map_congr_left
  intro r hr
  have hlen := mt r.wraps_iff.mpr (h.not_wraps r hr)
  rw [Function.comp_apply,List.length_drop]
  omega

/-- The reads are the frames: equal lengths cut the one stream at the same places. -/
theorem ReadPerFrame.map_readBuffer {payloads : List Bytes} {reads : List Read}
    (h : ReadPerFrame payloads reads)
    (hstream : (reads.map Read.readBuffer).flatten = payloads.flatMap send) :
    reads.map Read.readBuffer = payloads.map send := by
  refine List.eq_iff_flatten_eq.mpr ⟨hstream,?_⟩
  rw [List.map_map,List.map_map]
  refine h.trans (List.map_congr_left ?_)
  intro payload _
  exact (length_send payload).symm

/-- Over one connection the payloads make the round trip exactly when every read delivers
one frame: a read is taken for a frame whatever the header says. -/
theorem roundTrip_iff (payloads : List Bytes) (reads : List Read)
    (hstream : (reads.map Read.readBuffer).flatten = payloads.flatMap send) :
    RoundTrip payloads reads ↔ ReadPerFrame payloads reads := by
  refine ⟨RoundTrip.readPerFrame,?_⟩
  intro h
  have hframes := h.map_readBuffer hstream
  have hof : ∀ r ∈ reads, ∃ payload ∈ payloads, send payload = r.readBuffer := by
    intro r hr
    have hmem : r.readBuffer ∈ payloads.map send := hframes ▸ List.mem_map_of_mem hr
    exact List.mem_map.mp hmem
  have hwraps : ∀ r ∈ reads, ¬ r.Wraps := by
    intro r hr hw
    obtain ⟨payload,_,hs⟩ := hof r hr
    rw [r.wraps_iff,← hs,length_send] at hw
    omega
  refine ⟨?_,?_,hwraps⟩
  · rw [filterMap_handleReceivedData hwraps]
    have hdrop := congrArg (List.map (List.drop 2)) hframes
    rw [List.map_map,List.map_map] at hdrop
    exact hdrop.trans (List.map_id payloads)
  · intro payload hp
    have hmem : send payload ∈ reads.map Read.readBuffer := hframes ▸ List.mem_map_of_mem hp
    obtain ⟨r,_,hr⟩ := List.mem_map.mp hmem
    apply toNat_mesgLen
    rw [← length_send,← hr]
    exact r.le

theorem roundTrip_two_pings :
    RoundTrip [[112,105,110,103],[112]] [⟨[4,0,112,105,110,103],by decide,by decide⟩,
      ⟨[1,0,112],by decide,by decide⟩] :=
  (roundTrip_iff _ _ (by decide)).mpr (by unfold ReadPerFrame; decide)

/-- Two frames in one read come out as one payload with the second header inside, and a
read of one byte throws. -/
theorem two_frames_in_one_read :
    ((⟨[1,0,112,1,0,113],by decide,by decide⟩ : Read).readBuffer = [[112],[113]].flatMap send ∧
      ¬ RoundTrip [[112],[113]] [⟨[1,0,112,1,0,113],by decide,by decide⟩]) ∧
    (⟨[1],by decide,by decide⟩ : Read).handleReceivedData = none := by
  refine ⟨⟨by decide,?_⟩,by decide⟩
  intro h
  exact absurd h.payloads_eq (by decide)

end Moboware.Session
