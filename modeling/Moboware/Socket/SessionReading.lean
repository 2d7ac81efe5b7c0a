import Moboware.Common.RingBufferRuns

/-! # The read loop of a session

`ReadData` waits for the socket, asks it how many bytes are there, has them read straight
into the ring buffer and calls the data handler, which takes what it can use; then it waits
again. The handler is called only behind a write, and the write asks for room for all that
is there.
-/
namespace Moboware
open Library RingBuffer

/-- A session as the read loop sees it: the bytes that wait in the socket, the buffer, and
whether the loop waits for the socket. -/
structure SessionReader (S : Storage) (β : Type*) where
  socket : List β := []
  receiveBuffer : RingBuffer S β
  waiting : Bool := true

/-- Bytes come in, or the wait ends: with an error or not, with the number of bytes that
`read_some` would read, zero when it fails, and with what the data handler flushes, read for
read, when it is called. -/
inductive SocketEvent (β : Type*)
  | arrive (bytes : List β)
  | ready (failed : Bool) (bytesRead : ℕ) (flushes : List UInt64)

inductive Delivery (β : Type*)
  | onDataRead
  | read (offered : List β) (bytesToFlush : UInt64)
  | closed
  deriving DecidableEq

/-- The bytes that a delivery takes out of the stream. -/
def Delivery.taken {β : Type*} : Delivery β → List β
  | onDataRead => []
  | read offered bytesToFlush => offered.take bytesToFlush.toNat
  | closed => []

/-- The bytes that an event puts into it. -/
def SocketEvent.bytes {β : Type*} : SocketEvent β → List β
  | arrive bytes => bytes
  | ready _ _ _ => []

/-- Whether the event ends a wait, and with an error. -/
def SocketEvent.isReady {β : Type*} : SocketEvent β → Bool
  | arrive _ => false
  | ready _ _ _ => true

def SocketEvent.fails {β : Type*} : SocketEvent β → Bool
  | arrive _ => false
  | ready failed _ _ => failed

/-- The reads show all that is unread, and the next one what the flushes before it have left. -/
def Shows {β : Type*} : List β → List (Delivery β) → Prop
  | _, [] => True
  | unread, .read offered bytesToFlush :: deliveries =>
    offered = unread ∧ Shows (unread.drop bytesToFlush.toNat) deliveries
  | unread, _ :: deliveries => Shows unread deliveries

/-- The reads of one `OnDataRead`. -/
def handleData {S : Storage} {β : Type*} (b : RingBuffer S β) :
    List UInt64 → RingBuffer S β × List (Delivery β)
  | [] => (b,[])
  | bytesToFlush :: flushes =>
    let (b,offered,_) := b.readBuffer bytesToFlush
    let (b,deliveries) := handleData b flushes
    (b,(offered.map (fun bytes => Delivery.read bytes bytesToFlush)).toList ++ deliveries)

namespace SessionReader
variable {S : Storage} {β : Type*}

/-- What `read_some` puts into the requested region, the rest of which stays as it is. -/
def written (s : SessionReader S β) (bytesRead : ℕ) (bytesAvailable : UInt64) : ℕ → β :=
  let (b,dataBuffer) := s.receiveBuffer.getWriteBuffer bytesAvailable
  fun i => ((s.socket.take bytesRead)[i]?).getD (b.mBuffer (dataBuffer.toNat + i))

/-- `WriteBuffer` with `ReadBuffer` as its write function. -/
def writeBuffer (s : SessionReader S β) (bytesRead : ℕ) (bytesAvailable : UInt64) :
    RingBuffer S β × Bool :=
  s.receiveBuffer.writeBufferFn (s.written bytesRead bytesAvailable)
    (UInt64.ofNat (s.socket.take bytesRead).length) bytesAvailable

/-- The handler of the wait. -/
def readData (s : SessionReader S β) (failed : Bool) (bytesRead : ℕ) (flushes : List UInt64) :
    SessionReader S β × List (Delivery β) :=
  if failed then ({ s with waiting := false },[.closed])
  else
    let bytesAvailable := UInt64.ofNat s.socket.length
    if bytesAvailable > 0 then
      let (receiveBuffer,committed) := s.writeBuffer bytesRead bytesAvailable
      -- Without room for all of it nothing is read.
      let socket := if (s.receiveBuffer.getWriteBuffer bytesAvailable).2 ≠ 0 then
        s.socket.drop bytesRead else s.socket
      if committed then
        let (receiveBuffer,deliveries) := handleData receiveBuffer flushes
        ({ s with socket, receiveBuffer },.onDataRead :: deliveries)
      else ({ s with socket, receiveBuffer },[])
    else (s,[])

def step : Machine (SessionReader S β) (SocketEvent β) (Delivery β)
  | s, .arrive bytes => ({ s with socket := s.socket ++ bytes },[])
  | s, .ready failed bytesRead flushes =>
    if s.waiting then s.readData failed bytesRead flushes else (s,[])

def fresh (S : Storage) (mBuffer : Memory β) : SessionReader S β :=
  { receiveBuffer := RingBuffer.fresh S mBuffer }

/-- Every read of the handler flushes at most what it is offered. -/
def FlushesWithin (b : RingBuffer S β) : List UInt64 → Prop
  | [] => True
  | bytesToFlush :: flushes => bytesToFlush.toNat ≤ b.unread.length ∧
      FlushesWithin (b.readBuffer bytesToFlush).1 flushes

instance decidableFlushesWithin (b : RingBuffer S β) : (flushes : List UInt64) →
    Decidable (FlushesWithin b flushes)
  | [] => isTrue trivial
  | bytesToFlush :: flushes =>
    have := decidableFlushesWithin (b.readBuffer bytesToFlush).1 flushes
    inferInstanceAs (Decidable (_ ∧ _))

/-- The bytes of the socket would have addresses behind the buffer, and a handler that is
called flushes what it is offered. -/
def Proper (s : SessionReader S β) : SocketEvent β → Prop
  | .arrive bytes => S.dataEnd.toNat + (s.socket ++ bytes).length < UInt64.size
  | .ready _ bytesRead flushes =>
    let r := s.writeBuffer bytesRead (UInt64.ofNat s.socket.length)
    r.2 = true → FlushesWithin r.1 flushes

instance (s : SessionReader S β) : (event : SocketEvent β) → Decidable (s.Proper event)
  | .arrive _ => inferInstanceAs (Decidable (_ < _))
  | .ready _ _ _ => inferInstanceAs (Decidable (_ → FlushesWithin _ _))

/-- What an event takes off the socket. -/
def moved (s : SessionReader S β) (event : SocketEvent β) : List β :=
  s.socket.take (s.socket.length - (step s event).1.socket.length)

/-- The handler is shown what was unread before, with what has just been read behind it. -/
def ShowsUnread (s : SessionReader S β) (event : SocketEvent β) : Prop :=
  Shows (s.receiveBuffer.unread ++ s.moved event) (step s event).2

/-- The buffer is in order, and there is an address behind what waits for it. -/
structure Sound (s : SessionReader S β) : Prop where
  holds : ∃ i m, s.receiveBuffer.Holds i m
  addressed : S.dataEnd.toNat + s.socket.length < UInt64.size

section Spec
variable (hbyte : S.sizeofBufferType = 1)
include hbyte

/-- The handler is shown what is unread, and takes the front of it. -/
theorem handleData_spec (hdata : S.data ≠ 0) {b : RingBuffer S β} {flushes : List UInt64}
    (hholds : ∃ i m, b.Holds i m) (hwithin : FlushesWithin b flushes) :
    (∃ i m, (handleData b flushes).1.Holds i m) ∧
    b.unread = (handleData b flushes).2.flatMap Delivery.taken ++ (handleData b flushes).1.unread ∧
    Shows b.unread (handleData b flushes).2 := by
  induction flushes generalizing b with
  | nil => exact ⟨hholds,rfl,trivial⟩
  | cons bytesToFlush flushes ih =>
    obtain ⟨i,m,hholds⟩ := hholds
    obtain ⟨hle,hwithin⟩ := hwithin
    rw [hholds.length_unread,hbyte,Nat.mul_one] at hle
    obtain ⟨i',hnext,hrest⟩ := hholds.readBuffer_flushed hle
    rw [hbyte,Nat.mul_one] at hrest
    rw [readBuffer_offered hholds hdata] at hwithin
    obtain ⟨hend,hunread,hshows⟩ := ih ⟨i',_,hnext⟩ hwithin
    simp only [handleData,readBuffer_offered hholds hdata]
    rw [hrest] at hunread hshows
    refine ⟨hend,?_,rfl,hshows⟩
    simp only [Option.map_some,Option.toList_some,List.singleton_append,List.flatMap_cons,
      Delivery.taken,List.append_assoc]
    rw [← hunread,List.take_append_drop]

omit hbyte in
theorem toNat_available {s : SessionReader S β} (h : s.Sound) :
    (UInt64.ofNat s.socket.length).toNat = s.socket.length := by
  have := h.addressed
  have : UInt64.size = 2 ^ 64 := rfl
  rw [UInt64.toNat_ofNat']
  omega

theorem fits {s : SessionReader S β} (h : s.Sound) :
    s.receiveBuffer.Fits (UInt64.ofNat s.socket.length) := by
  obtain ⟨i,m,hholds⟩ := h.holds
  have hsocket := h.addressed
  have hle := Nat.mul_le_mul_right S.sizeofBufferType hholds.le_bufferSize
  rw [Storage.toNat_dataEnd] at hsocket
  rw [Fits,hholds.write_eq_data,toNat_available h,hbyte,Nat.mul_one]
  rw [hbyte] at hle hsocket
  omega

omit hbyte in
theorem first_written (s : SessionReader S β) (bytesRead : ℕ) (bytesAvailable : UInt64) :
    Memory.first (s.written bytesRead bytesAvailable) (s.socket.take bytesRead).length =
      s.socket.take bytesRead := by
  apply List.ext_getElem
  · rw [Memory.length_first]
  · intro i _ hi
    simp only [Memory.first,written,List.getElem_map,List.getElem_range,
      List.getElem?_eq_getElem hi,Option.getD_some]

/-- With room for all that is there, what is read goes behind the unread bytes. -/
theorem writeBuffer_spec {s : SessionReader S β} (h : s.Sound)
    (hroom : s.receiveBuffer.unread.length + s.socket.length ≤ S.bufferSize) (bytesRead : ℕ) :
    let r := s.writeBuffer bytesRead (UInt64.ofNat s.socket.length)
    (∃ i m, r.1.Holds i m) ∧ r.1.unread = s.receiveBuffer.unread ++ s.socket.take bytesRead ∧
      r.2 = decide (s.socket.take bytesRead ≠ []) := by
  intro r
  let bytesAvailable := UInt64.ofNat s.socket.length
  obtain ⟨i,m,hholds⟩ := h.holds
  have haddressed := h.addressed
  have hsize : UInt64.size = 2 ^ 64 := rfl
  have hle : (s.socket.take bytesRead).length ≤ s.socket.length := List.length_take_le' ..
  have hread : (UInt64.ofNat (s.socket.take bytesRead).length).toNat =
      (s.socket.take bytesRead).length := by
    rw [UInt64.toNat_ofNat']
    omega
  have havailable := toNat_available h
  rw [hholds.length_unread,hbyte,Nat.mul_one] at hroom
  obtain ⟨i',hnext,hunread,hcommitted⟩ := writeBufferFn_of_free (s.written bytesRead bytesAvailable)
    (UInt64.ofNat (s.socket.take bytesRead).length) hholds (fits hbyte h) (by omega)
  have hwithin : UInt64.ofNat (s.socket.take bytesRead).length ≤ bytesAvailable := by
    rw [UInt64.le_iff_toNat_le,hread,havailable]
    exact hle
  have hpos : UInt64.ofNat (s.socket.take bytesRead).length > 0 ↔ s.socket.take bytesRead ≠ [] := by
    rw [gt_iff_lt,UInt64.lt_iff_toNat_lt,hread,← List.length_pos_iff]
    exact Iff.rfl
  refine ⟨⟨i',_,hnext⟩,?_,?_⟩
  · refine hunread.trans ?_
    rw [hbyte,Nat.mul_one,committedSize]
    by_cases hne : s.socket.take bytesRead = []
    · rw [if_neg (fun hc => hpos.mp hc.1 hne),hne]
      rfl
    · rw [if_pos ⟨hpos.mpr hne,hwithin⟩,hread,first_written]
  · exact hcommitted.trans (decide_eq_decide.mpr ((and_iff_left hwithin).trans hpos))

/-- Without that room nothing happens. -/
theorem readData_of_full {s : SessionReader S β} (h : s.Sound)
    (hfull : S.bufferSize < s.receiveBuffer.unread.length + s.socket.length) (bytesRead : ℕ)
    (flushes : List UInt64) : s.readData false bytesRead flushes = (s,[]) := by
  obtain ⟨i,m,hholds⟩ := h.holds
  have havailable := toNat_available h
  rw [hholds.length_unread,hbyte,Nat.mul_one] at hfull
  have hfull' : S.bufferSize < (UInt64.ofNat s.socket.length).toNat + m := by omega
  simp only [readData,Bool.false_eq_true,↓reduceIte,writeBuffer,
    writeBufferFn_of_full hholds (fits hbyte h) hfull',
    hholds.getWriteBuffer_of_full (fits hbyte h) hfull',ne_eq,not_true_eq_false,ite_self]

/-- With it, the handler is called when something is read, with that behind what is unread. -/
theorem readData_of_free {s : SessionReader S β} (hpos : 0 < S.bufferSize) (h : s.Sound)
    (hroom : s.receiveBuffer.unread.length + s.socket.length ≤ S.bufferSize) (bytesRead : ℕ)
    (flushes : List UInt64) : s.readData false bytesRead flushes =
      if s.socket = [] then (s,[])
      else
        let b := (s.writeBuffer bytesRead (UInt64.ofNat s.socket.length)).1
        if s.socket.take bytesRead = [] then ({ s with receiveBuffer := b },[])
        else ({ s with socket := s.socket.drop bytesRead, receiveBuffer := (handleData b flushes).1 },
          .onDataRead :: (handleData b flushes).2) := by
  obtain ⟨_,_,hcommitted⟩ := writeBuffer_spec hbyte h hroom bytesRead
  obtain ⟨i,m,hholds⟩ := h.holds
  have havailable := toNat_available h
  by_cases hempty : s.socket = []
  · rw [if_pos hempty]
    simp [readData,hempty]
  · have hsome : UInt64.ofNat s.socket.length > 0 := by
      rw [gt_iff_lt,UInt64.lt_iff_toNat_lt,havailable]
      exact List.length_pos_iff.mpr hempty
    have hfree := hroom
    rw [hholds.length_unread,hbyte,Nat.mul_one] at hfree
    obtain ⟨b',i',hb',_,_,heq⟩ := hholds.getWriteBuffer_of_free (fits hbyte h)
      (by rw [havailable,Nat.add_comm]; exact hfree)
    have hptr := hb'.write_ne_zero hpos
    rw [if_neg hempty]
    simp only [readData,Bool.false_eq_true,↓reduceIte,if_pos hsome,hcommitted,heq,ne_eq,hptr,
      not_false_eq_true,decide_not,Bool.not_eq_eq_eq_not,Bool.not_true,decide_eq_false_iff_not]
    by_cases hread : s.socket.take bytesRead = []
    · have hsame : s.socket.drop bytesRead = s.socket := by
        rcases List.take_eq_nil_iff.mp hread with h0 | h0
        · rw [h0,List.drop_zero]
        · exact absurd h0 hempty
      rw [if_neg (not_not_intro hread),if_pos hread,hsame]
    · rw [if_pos hread,if_neg hread]

/-- One event: what is unread and what waits is handed over from the front, and what comes
in goes behind it; the handler is shown all of the buffer. -/
theorem step_spec (hpos : 0 < S.bufferSize) {s : SessionReader S β} (h : s.Sound)
    {event : SocketEvent β} (hproper : s.Proper event) : (step s event).1.Sound ∧
      s.receiveBuffer.unread ++ s.socket ++ event.bytes =
        (step s event).2.flatMap Delivery.taken ++
          ((step s event).1.receiveBuffer.unread ++ (step s event).1.socket) ∧
      s.ShowsUnread event := by
  have haddressed := h.addressed
  cases event with
  | arrive bytes =>
    refine ⟨⟨h.holds,hproper⟩,?_,trivial⟩
    simp [step,SocketEvent.bytes]
  | ready failed bytesRead flushes =>
    simp only [ShowsUnread,moved,SocketEvent.bytes,List.append_nil,step]
    split_ifs with hwaiting
    swap
    · exact ⟨h,by simp,trivial⟩
    cases failed with
    | true => exact ⟨⟨h.holds,haddressed⟩,by simp [readData,Delivery.taken],trivial⟩
    | false =>
      by_cases hroom : s.receiveBuffer.unread.length + s.socket.length ≤ S.bufferSize
      · obtain ⟨hholds,hunread,hcommitted⟩ := writeBuffer_spec hbyte h hroom bytesRead
        rw [readData_of_free hbyte hpos h hroom]
        by_cases hempty : s.socket = []
        · rw [if_pos hempty]
          exact ⟨h,by simp,trivial⟩
        rw [if_neg hempty]
        dsimp only
        by_cases hread : s.socket.take bytesRead = []
        · rw [if_pos hread]
          rw [hread,List.append_nil] at hunread
          exact ⟨⟨hholds,haddressed⟩,by simp [hunread],trivial⟩
        · rw [if_neg hread]
          obtain ⟨hend,htaken,hshows⟩ := handleData_spec hbyte (S.allocated hpos) hholds
            (hproper (hcommitted.trans (decide_eq_true hread)))
          have hlength := List.length_drop (l := s.socket) (i := bytesRead)
          refine ⟨⟨hend,?_⟩,?_,?_⟩
          · dsimp only
            omega
          · simp only [List.flatMap_cons,Delivery.taken,List.nil_append]
            rw [← List.append_assoc,← htaken,hunread,List.append_assoc,List.take_append_drop]
          · have hmoved : s.socket.take (s.socket.length - (s.socket.drop bytesRead).length) =
                s.socket.take bytesRead := by
              rw [List.take_eq_take_iff]
              omega
            rw [hunread] at hshows
            rw [hmoved]
            exact hshows
      · rw [readData_of_full hbyte h (by omega)]
        exact ⟨h,by simp,trivial⟩

theorem run_spec (hpos : 0 < S.bufferSize) {s : SessionReader S β} (h : s.Sound)
    {events : List (SocketEvent β)} (hproper : Machine.StepsMeet step Proper s events) :
    (Machine.final step s events).Sound ∧
      s.receiveBuffer.unread ++ s.socket ++ events.flatMap SocketEvent.bytes =
        (Machine.answers step s events).flatten.flatMap Delivery.taken ++
          ((Machine.final step s events).receiveBuffer.unread ++
            (Machine.final step s events).socket) ∧
      Machine.StepsMeet step ShowsUnread s events := by
  induction events generalizing s with
  | nil => exact ⟨h,by simp [Machine.answers,Machine.trace,Machine.final],trivial⟩
  | cons event events ih =>
    obtain ⟨hnext,hstep,hshows⟩ := step_spec hbyte hpos h hproper.1
    obtain ⟨hend,hrest,hshowsRest⟩ := ih hnext hproper.2
    refine ⟨hend,?_,hshows,hshowsRest⟩
    calc s.receiveBuffer.unread ++ s.socket ++ (event :: events).flatMap SocketEvent.bytes
      _ = (s.receiveBuffer.unread ++ s.socket ++ event.bytes) ++
          events.flatMap SocketEvent.bytes := by simp
      _ = (step s event).2.flatMap Delivery.taken ++ ((step s event).1.receiveBuffer.unread ++
          (step s event).1.socket ++ events.flatMap SocketEvent.bytes) := by
        rw [hstep,List.append_assoc]
      _ = _ := by
        rw [hrest]
        simp [Machine.answers,Machine.trace,Machine.final]

omit hbyte in
theorem fresh_sound (S : Storage) (mBuffer : Memory β) : (fresh S mBuffer).Sound :=
  ⟨⟨0,0,fresh_holds mBuffer⟩,S.dataEnd.toNat_lt⟩

/-- Over every run in which the handler flushes no more than it is shown, it gets the bytes that
came in, each once and in order; what it has not taken is in the buffer, and behind that in the
socket. It is always shown all that is in the buffer. -/
theorem received_in_order (hpos : 0 < S.bufferSize) (mBuffer : Memory β)
    (events : List (SocketEvent β))
    (hproper : Machine.StepsMeet step Proper (fresh S mBuffer) events) :
    let s := Machine.final step (fresh S mBuffer) events
    events.flatMap SocketEvent.bytes =
        (Machine.answers step (fresh S mBuffer) events).flatten.flatMap Delivery.taken ++
          (s.receiveBuffer.unread ++ s.socket) ∧
      Machine.StepsMeet step ShowsUnread (fresh S mBuffer) events := by
  obtain ⟨_,hrun,hshows⟩ := run_spec hbyte hpos (fresh_sound S mBuffer) hproper
  have hnil : (RingBuffer.fresh S mBuffer).unread = [] := by
    rw [(fresh_holds mBuffer).unread_eq,Nat.zero_mul]
    rfl
  exact ⟨by simpa [fresh,hnil] using hrun,hshows⟩

end Spec

/-- Three bytes come in and two of them are taken; the next two are read with the third
still in the buffer. -/
def partlyTaken : List (SocketEvent ℕ) :=
  [.arrive [1,2,3],.ready false 3 [2],.arrive [4,5,6],.ready false 2 []]

theorem received_in_order_partlyTaken :
    partlyTaken.flatMap SocketEvent.bytes = [1,2] ++ ([3,4,5] ++ [6]) ∧
      Machine.StepsMeet step ShowsUnread (fresh fourBytes (fun _ => 0)) partlyTaken := by
  have h := received_in_order (S := fourBytes) rfl (by decide) (fun _ => 0) partlyTaken (by decide)
  refine ⟨h.1.trans ?_,h.2⟩
  decide

/-! ### Starvation -/

/-- The loop waits, and there is room for what waits in the socket. -/
def HasRoom (s : SessionReader S β) : Prop :=
  s.waiting = true ∧ s.receiveBuffer.unread.length + s.socket.length ≤ S.bufferSize

/-- Only an error ends the waiting. -/
theorem waiting_step (s : SessionReader S β) (event : SocketEvent β) :
    (step s event).1.waiting = (s.waiting && !event.fails) := by
  cases event with
  | arrive bytes => exact (Bool.and_true _).symm
  | ready failed bytesRead flushes =>
    simp only [step,SocketEvent.fails]
    split_ifs with hwaiting
    · cases failed with
      | true => exact (Bool.and_false _).symm
      | false =>
        simp only [readData,Bool.false_eq_true,↓reduceIte]
        split_ifs <;> exact (Bool.and_true _).symm
    · rw [Bool.not_eq_true] at hwaiting
      rw [hwaiting,Bool.false_and]

theorem waiting_final (s : SessionReader S β) (events : List (SocketEvent β)) :
    (Machine.final step s events).waiting = (s.waiting && events.all (fun event => !event.fails)) := by
  induction events generalizing s with
  | nil => exact (Bool.and_true _).symm
  | cons event events ih =>
    rw [Machine.final_cons,ih,waiting_step,List.all_cons,Bool.and_assoc]

section Starvation
variable (hbyte : S.sizeofBufferType = 1)
include hbyte

/-- The room is never regained: the handler would have to be called to make it. -/
theorem step_of_not_hasRoom {s : SessionReader S β} (h : s.Sound) (hroom : ¬ s.HasRoom)
    (event : SocketEvent β) : ¬ (step s event).1.HasRoom ∧
      (step s event).1.socket = s.socket ++ event.bytes ∧ ∀ d ∈ (step s event).2, d = .closed := by
  have hsame : ∀ failed bytesRead flushes, step s (.ready failed bytesRead flushes) = (s,[]) →
      ¬ (step s (.ready failed bytesRead flushes)).1.HasRoom ∧
        (step s (.ready failed bytesRead flushes)).1.socket = s.socket ++ [] ∧
        ∀ d ∈ (step s (.ready failed bytesRead flushes)).2, d = .closed := by
    intro failed bytesRead flushes hstep
    rw [hstep,List.append_nil]
    exact ⟨hroom,rfl,nofun⟩
  cases event with
  | arrive bytes =>
    refine ⟨fun hnext => hroom ⟨hnext.1,?_⟩,rfl,nofun⟩
    have hle := hnext.2
    simp only [step,List.length_append] at hle
    omega
  | ready failed bytesRead flushes =>
    by_cases hwaiting : s.waiting = true
    · cases failed with
      | true =>
        simp only [step,if_pos hwaiting,readData,↓reduceIte,SocketEvent.bytes,List.append_nil]
        exact ⟨fun hnext => Bool.false_ne_true hnext.1,trivial,fun d hd => List.mem_singleton.mp hd⟩
      | false =>
        have hfull : ¬ s.receiveBuffer.unread.length + s.socket.length ≤ S.bufferSize :=
          fun hle => hroom ⟨hwaiting,hle⟩
        refine hsame _ _ _ ?_
        rw [step,if_pos hwaiting,readData_of_full hbyte h (by omega)]
    · exact hsame _ _ _ (if_neg hwaiting)

theorem run_of_not_hasRoom (hpos : 0 < S.bufferSize) {s : SessionReader S β} (h : s.Sound)
    (hroom : ¬ s.HasRoom) {events : List (SocketEvent β)}
    (hproper : Machine.StepsMeet step Proper s events) :
    (Machine.final step s events).socket = s.socket ++ events.flatMap SocketEvent.bytes ∧
      ∀ d ∈ (Machine.answers step s events).flatten, d = .closed := by
  induction events generalizing s with
  | nil => exact ⟨(List.append_nil _).symm,nofun⟩
  | cons event events ih =>
    obtain ⟨hnext,hkeeps,hsilent⟩ := step_of_not_hasRoom hbyte h hroom event
    obtain ⟨hend,hrest⟩ := ih (step_spec hbyte hpos h hproper.1).1 hnext hproper.2
    refine ⟨?_,?_⟩
    · rw [Machine.final_cons,hend,hkeeps,List.append_assoc,List.flatMap_cons]
    · rw [Machine.answers_cons,List.flatten_cons]
      exact List.forall_mem_append.mpr ⟨hsilent,hrest⟩

/-- With room, one read of all that waits and one flush of all that is then in the buffer. -/
theorem ready_delivers (hpos : 0 < S.bufferSize) {s : SessionReader S β} (h : s.Sound)
    (hroom : s.HasRoom) (hsocket : s.socket ≠ []) :
    let event : SocketEvent β := .ready false s.socket.length
      [UInt64.ofNat (s.receiveBuffer.unread.length + s.socket.length)]
    s.Proper event ∧
      (step s event).2.flatMap Delivery.taken = s.receiveBuffer.unread ++ s.socket := by
  intro event
  have hall := Storage.toNat_ofNat_of_le hroom.2
  obtain ⟨⟨i,m,hholds⟩,hunread,_⟩ := writeBuffer_spec hbyte h hroom.2 s.socket.length
  rw [List.take_length] at hunread
  have hproper : s.Proper event := by
    intro _
    exact ⟨Nat.le_of_eq (by rw [hall,hunread,List.length_append]),trivial⟩
  refine ⟨hproper,?_⟩
  rw [step,if_pos hroom.1,readData_of_free hbyte hpos h hroom.2,if_neg hsocket,List.take_length,
    if_neg hsocket]
  simp only [handleData,readBuffer_offered hholds (S.allocated hpos),hunread,Option.map_some,
    Option.toList_some,List.append_nil,List.flatMap_cons,List.flatMap_nil,Delivery.taken,
    List.nil_append,hall]
  rw [← List.length_append,List.take_length]

/-- After any run in which bytes are left in the socket, some further reads deliver all of them if
and only if the loop waits and what is there fits behind what is unread; otherwise no further
event reads a byte: the wait ends at once every time, and the handler that could make room is not
called again. The loop waits as long as no wait has ended with an error. -/
theorem can_deliver_iff (hpos : 0 < S.bufferSize) (mBuffer : Memory β)
    (events : List (SocketEvent β))
    (hproper : Machine.StepsMeet step Proper (fresh S mBuffer) events) :
    let s := Machine.final step (fresh S mBuffer) events
    s.socket ≠ [] →
      (s.waiting = true ↔ ∀ event ∈ events, event.fails = false) ∧
      ((∃ more, (∀ event ∈ more, event.isReady = true) ∧ Machine.StepsMeet step Proper s more ∧
          (Machine.answers step s more).flatten.flatMap Delivery.taken =
            s.receiveBuffer.unread ++ s.socket) ↔ s.HasRoom) ∧
      (¬ s.HasRoom → ∀ more, Machine.StepsMeet step Proper s more →
        (Machine.final step s more).socket = s.socket ++ more.flatMap SocketEvent.bytes ∧
          ∀ d ∈ (Machine.answers step s more).flatten, d = .closed) := by
  intro s hsocket
  have h : s.Sound := (run_spec hbyte hpos (fresh_sound S mBuffer) hproper).1
  refine ⟨?_,⟨?_,?_⟩,fun hroom more hmore => run_of_not_hasRoom hbyte hpos h hroom hmore⟩
  · rw [waiting_final,show (fresh S mBuffer).waiting = true from rfl,Bool.true_and,List.all_eq_true]
    exact forall₂_congr (fun event _ => by rw [Bool.not_eq_true'])
  · rintro ⟨more,_,hmore,htaken⟩
    by_contra hroom
    obtain ⟨_,hclosed⟩ := run_of_not_hasRoom hbyte hpos h hroom hmore
    have hnil : (Machine.answers step s more).flatten.flatMap Delivery.taken = [] := by
      refine List.flatMap_eq_nil_iff.mpr (fun d hd => ?_)
      rw [hclosed d hd]
      rfl
    rw [hnil] at htaken
    exact hsocket (List.append_eq_nil_iff.mp htaken.symm).2
  · intro hroom
    obtain ⟨hready,htaken⟩ := ready_delivers hbyte hpos h hroom hsocket
    refine ⟨[_],fun event he => ?_,⟨hready,trivial⟩,?_⟩
    · rw [List.mem_singleton.mp he]
      rfl
    · rw [Machine.answers_cons,List.flatten_cons]
      exact (congrArg (List.flatMap Delivery.taken) (List.append_nil _)).trans htaken

end Starvation

/-- The handler waits for more than the three bytes it is offered, and two more come in: five
do not fit into four. -/
def partlyRead : List (SocketEvent ℕ) := [.arrive [1,2,3],.ready false 3 [0],.arrive [4,5]]

theorem can_deliver_iff_partlyRead :
    let s := Machine.final step (fresh fourBytes (fun _ => 0)) partlyRead
    s.waiting = true ∧ ¬ ∃ more, (∀ event ∈ more, event.isReady = true) ∧
      Machine.StepsMeet step Proper s more ∧
      (Machine.answers step s more).flatten.flatMap Delivery.taken =
        s.receiveBuffer.unread ++ s.socket := by
  intro s
  obtain ⟨hwaiting,hdelivers,_⟩ := can_deliver_iff (S := fourBytes) rfl (by decide) (fun _ => 0)
    partlyRead (by decide) (by decide)
  exact ⟨hwaiting.mpr (by decide),fun h => absurd (hdelivers.mp h).2 (by decide)⟩

end SessionReader
end Moboware
