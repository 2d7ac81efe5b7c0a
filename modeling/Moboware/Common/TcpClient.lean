import Mathlib.Algebra.Group.Nat.Defs
import Moboware.Common.TcpSessionTable

/-! # The TCP client

A session waits for its socket, asks it how many bytes are there and reads them, no more than
its buffer holds; an error ends its reading. The client takes each read for the frame of one
`Send`. The server's frames come out as they were sent when no read finds anything else.
-/
namespace Moboware
open Library Session

/-- A client as its read loop sees it: the bytes that wait in the socket, whether the loop
waits for the socket, and whether an exception has left the handler and stopped the io service. -/
structure TcpClient where
  socket : Bytes := []
  waiting : Bool := true
  stopped : Bool := false
  deriving DecidableEq

namespace TcpClient

/-- Bytes come in, or the wait ends: with an error, its own or of a call behind it, after which
nothing is read, or without one. While it is handled the `late` bytes come in, behind those
whose number the session was told. -/
inductive ReadEvent
  | arrive (bytes : Bytes)
  | ready (failed : Bool) (late : Bytes)

def ReadEvent.bytes : ReadEvent → Bytes
  | arrive bytes => bytes
  | ready _ late => late

def connected : TcpClient := {}

def arrive (s : TcpClient) (bytes : Bytes) : TcpClient := { s with socket := s.socket ++ bytes }

/-- The first read of the buffer's size finds all that was there, so it is the last one. -/
def readSocket (socket : Bytes) (h : 0 < socket.length) : Read where
  readBuffer := socket.take maxBufferSize
  pos := by
    rw [List.length_take]
    exact Nat.lt_min.mpr ⟨by decide,h⟩
  le := List.length_take_le ..

/-- `Session::ReadData`, with `HandleReceivedData` as the callback. -/
def readData (s : TcpClient) (failed : Bool) (late : Bytes) : TcpClient × List Read :=
  if failed then ({ s.arrive late with waiting := false },[])
  else if h : 0 < s.socket.length then
    let r := readSocket (s.socket ++ late) (by rw [List.length_append]; omega)
    ({ s with
      socket := (s.socket ++ late).drop maxBufferSize
      stopped := r.handleReceivedData.isNone },[r])
  else (s.arrive late,[])

def step : Machine TcpClient ReadEvent Read
  | s, .arrive bytes => (s.arrive bytes,[])
  | s, .ready failed late =>
    if s.waiting && !s.stopped then s.readData failed late else (s.arrive late,[])

/-- The payloads that the reads are taken for. -/
def payloads (reads : List Read) : List Bytes := reads.filterMap Read.handleReceivedData

/-- What the buffer takes of the socket at the end of a wait is one frame. -/
def FindsFrame (s : TcpClient) : ReadEvent → Prop
  | .arrive _ => True
  | .ready failed late => s.waiting = true → s.stopped = false → failed = false →
      s.socket ≠ [] → ∃ payload, (s.socket ++ late).take maxBufferSize = send payload

section Step
variable {s : TcpClient}

/-- Where a step reads nothing, it is an arrival that may end the waiting. -/
theorem step_cases (s : TcpClient) (event : ReadEvent) :
    (∃ waiting, step s event = ({ s.arrive event.bytes with waiting },[]) ∧ s.FindsFrame event) ∨
      ∃ late, event = .ready false late ∧ s.waiting = true ∧ s.stopped = false ∧ s.socket ≠ [] := by
  cases event with
  | arrive bytes => exact Or.inl ⟨s.waiting,rfl,trivial⟩
  | ready failed late =>
    by_cases hready : s.waiting = true ∧ s.stopped = false
    · cases failed with
      | true => exact Or.inl ⟨false,by simp [step,readData,hready,ReadEvent.bytes],nofun⟩
      | false =>
        by_cases hsocket : s.socket = []
        · refine Or.inl ⟨s.waiting,?_,fun _ _ _ h => absurd hsocket h⟩
          simp [step,readData,hready,hsocket,arrive,ReadEvent.bytes]
        · exact Or.inr ⟨late,rfl,hready.1,hready.2,hsocket⟩
    · refine Or.inl ⟨s.waiting,?_,fun hw hs => absurd ⟨hw,hs⟩ hready⟩
      have hnot : ¬ (s.waiting && !s.stopped) = true := by simpa using hready
      rw [step,if_neg hnot]
      rfl

theorem step_ready (late : Bytes) (hw : s.waiting = true) (hs : s.stopped = false)
    (hsocket : s.socket ≠ []) :
    ∃ r : Read, r.readBuffer = (s.socket ++ late).take maxBufferSize ∧
      step s (.ready false late) = ({ s with
        socket := (s.socket ++ late).drop maxBufferSize
        stopped := r.handleReceivedData.isNone },[r]) := by
  have hpos : 0 < s.socket.length := List.length_pos_iff.mpr hsocket
  refine ⟨readSocket (s.socket ++ late) (by rw [List.length_append]; omega),rfl,?_⟩
  simp [step,readData,hw,hs,hpos]

theorem findsFrame_ready_iff (late : Bytes) (hw : s.waiting = true) (hs : s.stopped = false)
    (hsocket : s.socket ≠ []) :
    s.FindsFrame (.ready false late) ↔
      ∃ payload, (s.socket ++ late).take maxBufferSize = send payload :=
  ⟨fun h => h hw hs rfl hsocket,fun h _ _ _ _ => h⟩

end Step

/-- No byte is lost, added or moved, whatever the reads are taken for. -/
theorem read_in_order (s : TcpClient) (events : List ReadEvent) :
    ((Machine.answers step s events).flatten.map Read.readBuffer).flatten ++
      (Machine.final step s events).socket = s.socket ++ events.flatMap ReadEvent.bytes := by
  induction events generalizing s with
  | nil => exact (List.append_nil _).symm
  | cons event events ih =>
    rw [Machine.answers_cons,Machine.final_cons,List.flatten_cons,List.map_append,
      List.flatten_append,List.append_assoc,ih,List.flatMap_cons]
    rcases s.step_cases event with ⟨waiting,hstep,_⟩ | ⟨late,rfl,hw,hs,hsocket⟩
    · rw [hstep]
      simp [arrive]
    · obtain ⟨r,hr,hstep⟩ := step_ready late hw hs hsocket
      rw [hstep,List.map_singleton,List.flatten_singleton,hr,← List.append_assoc (List.take ..),
        List.take_append_drop,List.append_assoc]
      rfl

theorem stopped_final {s : TcpClient} (h : s.stopped = true) (events : List ReadEvent) :
    (Machine.final step s events).stopped = true := by
  refine Machine.final_invariant (C := fun _ _ => True) (I := fun s : TcpClient => s.stopped = true)
    ?_ h (Machine.stepsMeet_of_forall (fun _ _ => trivial))
  intro s event hs _
  rcases s.step_cases event with ⟨waiting,hstep,_⟩ | ⟨late,rfl,hw,hs',hsocket⟩
  · rw [hstep]
    exact hs
  · exact absurd (hs'.symm.trans hs) Bool.false_ne_true

/-! ### Frames -/

theorem memory_injective {w w' : UInt16} (h : memory w = memory w') : w = w' := by
  obtain ⟨hlow,hhigh⟩ := List.cons_eq_cons.mp h
  have hlow := congrArg UInt8.toNat hlow
  have hhigh := congrArg UInt8.toNat (List.cons_eq_cons.mp hhigh).1
  apply UInt16.toNat_inj.mp
  have hw := w.toNat_lt
  have hw' := w'.toNat_lt
  simp only [UInt16.toNat_toUInt8,UInt16.toNat_shiftRight,UInt16.reduceToNat,Nat.reduceMod,
    Nat.shiftRight_eq_div_pow] at hlow hhigh
  omega

/-- Two frames that begin alike are the same, as long as their headers give their lengths. -/
theorem eq_of_send_prefix {payload payload' rest : Bytes}
    (h : send payload <+: send payload' ++ rest) (hlength : payload.length < 2 ^ 16)
    (hlength' : payload'.length < 2 ^ 16) : payload = payload' := by
  obtain ⟨more,h⟩ := h
  rw [send,send,List.append_assoc,List.append_assoc] at h
  obtain ⟨hmemory,h⟩ := List.append_inj h rfl
  have hlen := congrArg UInt16.toNat (memory_injective hmemory)
  rw [mesgLen,mesgLen,UInt16.toNat_ofNat',UInt16.toNat_ofNat',Nat.mod_eq_of_lt hlength,
    Nat.mod_eq_of_lt hlength'] at hlen
  exact (List.append_inj h hlen).1

theorem handleReceivedData_of_frame {r : Read} {payload : Bytes} (h : r.readBuffer = send payload) :
    r.handleReceivedData = some payload := by
  have hwraps : ¬ r.Wraps := by
    rw [r.wraps_iff,h,length_send]
    omega
  rw [Read.handleReceivedData_of_not_wraps hwraps,h]
  rfl

/-- A read from the front of a frame that is taken for its payload is the frame. -/
theorem readBuffer_eq {r : Read} {payload rest : Bytes}
    (hstart : r.readBuffer <+: send payload ++ rest) (h : r.handleReceivedData = some payload) :
    r.readBuffer = send payload := by
  have hwraps : ¬ r.Wraps := by
    intro hw
    rw [Read.handleReceivedData_of_wraps hw] at h
    cases h
  have hlen := mt r.wraps_iff.mpr hwraps
  rw [Read.handleReceivedData_of_not_wraps hwraps,Option.some_inj] at h
  have hsame : r.readBuffer.length = (send payload).length := by
    rw [length_send,← h,List.length_drop]
    omega
  obtain ⟨more,hmore⟩ := hstart
  exact (List.append_inj hmore hsame).1

/-- And only such a read finds a frame. -/
theorem finds_frame_iff {r : Read} {payload rest : Bytes}
    (hstart : r.readBuffer <+: send payload ++ rest) (hlength : payload.length < 2 ^ 16) :
    (∃ payload', r.readBuffer = send payload') ↔ r.handleReceivedData = some payload := by
  constructor
  · rintro ⟨payload',hframe⟩
    have hle := r.le
    rw [hframe,length_send,maxBufferSize] at hle
    rw [hframe] at hstart
    obtain rfl := eq_of_send_prefix hstart (by omega) hlength
    exact handleReceivedData_of_frame hframe
  · exact fun h => ⟨payload,readBuffer_eq hstart h⟩

section Stream
variable {s : TcpClient} {sent : List Bytes} {events : List ReadEvent}

/-- While the socket holds the front of the frames that are still to come, their payloads come
out, and no exception stops the service, exactly if each read finds a frame. -/
theorem payloads_eq_iff (hs : s.stopped = false)
    (hlength : ∀ payload ∈ sent, payload.length < 2 ^ 16)
    (hstream : s.socket ++ events.flatMap ReadEvent.bytes <+: sent.flatMap send) :
    (payloads (Machine.answers step s events).flatten =
        sent.take (Machine.answers step s events).flatten.length ∧
      (Machine.final step s events).stopped = false) ↔
      Machine.StepsMeet step FindsFrame s events := by
  induction events generalizing s sent with
  | nil => exact iff_of_true ⟨rfl,hs⟩ trivial
  | cons event events ih =>
    rw [List.flatMap_cons,← List.append_assoc] at hstream
    rw [Machine.answers_cons,Machine.final_cons,Machine.StepsMeet,List.flatten_cons]
    rcases s.step_cases event with ⟨waiting,hstep,hfinds⟩ | ⟨late,rfl,hw,_,hsocket⟩
    · rw [hstep,and_iff_right hfinds]
      exact ih hs hlength hstream
    · obtain ⟨r,hr,hstep⟩ := step_ready late hw hs hsocket
      have hfinds := findsFrame_ready_iff late hw hs hsocket
      rw [← hr] at hfinds
      rw [ReadEvent.bytes,← List.take_append_drop maxBufferSize (s.socket ++ late),← hr,
        List.append_assoc] at hstream
      have hstart := (List.prefix_append ..).trans hstream
      cases sent with
      | nil => exact absurd r.pos (by rw [List.prefix_nil.mp hstart]; exact Nat.lt_irrefl 0)
      | cons payload sent =>
        obtain ⟨hpayload,hrest⟩ := List.forall_mem_cons.mp hlength
        rw [List.flatMap_cons] at hstream hstart
        have hread := finds_frame_iff hstart hpayload
        rw [hstep,hfinds,List.singleton_append,List.length_cons,List.take_succ_cons]
        by_cases hframe : ∃ payload', r.readBuffer = send payload'
        · have hsome := hread.mp hframe
          have hframe' := readBuffer_eq hstart hsome
          rw [hframe',List.prefix_append_right_inj] at hstream
          rw [and_iff_right hframe,hsome,Option.isNone_some,← ih rfl hrest hstream,
            payloads,List.filterMap_cons_some hsome,List.cons_inj_right]
          exact Iff.rfl
        · refine iff_of_false ?_ (fun h => hframe h.1)
          rintro ⟨hpayloads,hrun⟩
          cases hr' : r.handleReceivedData with
          | none =>
            rw [hr'] at hrun
            exact Bool.false_ne_true (hrun.symm.trans (stopped_final rfl events))
          | some payload' =>
            rw [payloads,List.filterMap_cons_some hr'] at hpayloads
            rw [(List.cons.inj hpayloads).1] at hr'
            exact hframe (hread.mpr hr')

end Stream
end TcpClient

/-! ### A client of the server -/

namespace TcpServer

/-- What an action sends to the session of an endpoint. -/
def Action.payloads {Endpoint : Type*} [DecidableEq Endpoint] (endPoint : Endpoint) :
    Action Endpoint → List Bytes
  | .sendWebSocketData data e _ => if e = endPoint then [data] else []
  | .pingSessionsFunc _ => [payloadBuffer]
  | _ => []

/-- Its writes to the session do not fail. -/
def Action.Written {Endpoint : Type*} (endPoint : Endpoint) (id : ℕ) : Action Endpoint → Prop
  | .sendWebSocketData _ e result => e = endPoint → result = .written
  | .pingSessionsFunc results => results id = .written
  | _ => True

variable {Endpoint : Type*} [LinearOrder Endpoint]

theorem Action.frames_eq {endPoint : Endpoint} {id : ℕ} {action : Action Endpoint}
    (h : action.Written endPoint id) :
    action.frames endPoint id = (action.payloads endPoint).map Session.send := by
  cases action with
  | acceptSession e starts => rfl
  | sendWebSocketData data e result =>
    rw [Action.frames,Action.payloads]
    split_ifs with he
    · rw [h he]
      rfl
    · rfl
  | pingSessionsFunc results =>
    rw [Action.frames,Action.payloads,h]
    rfl
  | removeSession n => rfl

/-- A session that stays on the server and whose writes succeed, with its client: however the
frames arrive, every byte that has come in is read once and in order or waits in the socket, and
the client makes of its reads the first payloads that were sent, and does not throw, exactly
if what each read takes is one frame. -/
theorem payloads_received_iff (before : List (Action Endpoint)) (endPoint : Endpoint)
    (actions : List (Action Endpoint)) (events : List TcpClient.ReadEvent)
    (hrun : (Machine.final step start before).stopped = false) :
    let s := Machine.final step start before
    let id := s.sessions.length
    let accepted := s.acceptSession endPoint true
    let sent := (actions.takeWhile Action.starts).flatMap (Action.payloads endPoint)
    let reads := (Machine.answers TcpClient.step .connected events).flatten
    let client := Machine.final TcpClient.step .connected events
    Machine.StepsMeet step (Lasts endPoint id) accepted actions →
    (∀ action ∈ actions, action.Written endPoint id) →
    (∀ payload ∈ sent, payload.length < 2 ^ 16) →
    events.flatMap TcpClient.ReadEvent.bytes <+:
      (sentTo id (Machine.answers step accepted actions).flatten).flatten →
    (reads.map Read.readBuffer).flatten ++ client.socket =
        events.flatMap TcpClient.ReadEvent.bytes ∧
      ((TcpClient.payloads reads = sent.take reads.length ∧ client.stopped = false) ↔
        Machine.StepsMeet TcpClient.step TcpClient.FindsFrame .connected events) := by
  intro s id accepted sent reads client hlasts hwritten hlength harrived
  have hsent : sentTo id (Machine.answers step accepted actions).flatten =
      sent.map Session.send := by
    rw [sentTo_answers (knows_acceptSession before endPoint) (serves_acceptSession s endPoint) hrun
      hlasts,List.map_flatMap]
    refine List.flatMap_congr (fun action haction => ?_)
    exact Action.frames_eq (hwritten action (List.takeWhile_subset _ haction))
  refine ⟨TcpClient.read_in_order .connected events,?_⟩
  rw [hsent] at harrived
  exact TcpClient.payloads_eq_iff rfl hlength harrived

/-- A ping and a message, each read before the next one comes. -/
theorem payloads_received_iff_ping :
    TcpClient.payloads (Machine.answers TcpClient.step .connected
      [.arrive [4,0,112,105],.arrive [110,103],.ready false [],.arrive [1,0],
        .arrive [113],.ready false []]).flatten = [[112,105,110,103],[113]] := by
  refine ((@payloads_received_iff ℕ _ [] 1
    [.pingSessionsFunc (fun _ => .written),.sendWebSocketData [113] 1 .written] _ rfl
    ⟨Or.inr rfl,Or.inr (Or.inr rfl),trivial⟩ ?_ (by decide) ⟨[],by decide⟩).2.mpr ?_).1
  · intro action haction
    rcases List.mem_pair.mp haction with rfl | rfl
    · exact rfl
    · exact fun _ => rfl
  · exact ⟨trivial,trivial,fun _ _ _ _ => ⟨[112,105,110,103],by decide⟩,trivial,trivial,
      fun _ _ _ _ => ⟨[113],by decide⟩,trivial⟩

/-- Two pings that come in together are one payload, with the second header in it. -/
example : TcpClient.payloads (Machine.answers TcpClient.step .connected
    [.arrive [4,0,112,105,110,103,4,0,112,105,110,103],.ready false []]).flatten =
      [[112,105,110,103,4,0,112,105,110,103]] := by decide

end TcpServer
end Moboware
