import Mathlib.Data.Nat.Basic
import Moboware.Common.TcpServer

/-! # The sessions of the TCP server

While a session is in the map its connection gets one frame for each ping and each message
to its endpoint. It leaves with a write that finds the connection gone, or when a
connection from its endpoint or a removal that names its endpoint takes the place. A
removal is aimed at a session that is already closed, unless the endpoint came back before it.
-/
namespace Moboware
open Library Session

namespace TcpServer
variable {Endpoint : Type*} [LinearOrder Endpoint] {s : TcpServer Endpoint} {endPoint : Endpoint}
  {id : ℕ}

/-- Every entry of the map is a session of its key. -/
def Keyed (s : TcpServer Endpoint) : Prop :=
  ∀ e i, s.mSessions.find? e = some i → s.remoteEndpoint i = some e

theorem start_keyed : (start : TcpServer Endpoint).Keyed := by
  intro e i h
  cases h

theorem lt_of_remoteEndpoint (h : s.remoteEndpoint id = some endPoint) :
    id < s.sessions.length := by
  obtain ⟨session,hs,_⟩ := Option.map_eq_some_iff.mp h
  exact (List.getElem?_eq_some_iff.mp hs).1

/-! ### Each step -/

section Accept
variable (s : TcpServer Endpoint) (e : Endpoint)

theorem find?_acceptSession (e' : Endpoint) : (s.acceptSession e true).mSessions.find? e' =
    if e' = e then some s.sessions.length else s.mSessions.find? e' :=
  OrderedMap.find?_assign ..

theorem getElem?_acceptSession (hid : id < s.sessions.length) :
    (s.acceptSession e true).sessions[id]? = s.sessions[id]? := List.getElem?_append_left hid

theorem remoteEndpoint_acceptSession_self :
    (s.acceptSession e true).remoteEndpoint s.sessions.length = some e := by
  simp [remoteEndpoint,acceptSession]

theorem isOpen_acceptSession_self : (s.acceptSession e true).isOpen s.sessions.length = true := by
  simp [isOpen,acceptSession]

end Accept

theorem find?_removeSession (s : TcpServer Endpoint) (n : ℕ) (e : Endpoint) :
    (s.removeSession n).mSessions.find? e =
      if s.posted[n]? = some e then none else s.mSessions.find? e := by
  unfold removeSession
  cases hn : s.posted[n]? with
  | none => simp
  | some e' =>
    dsimp only
    rw [OrderedMap.find?_erase]
    by_cases he : e = e'
    · simp [he]
    · simp [he,Ne.symm he]

theorem sessions_removeSession (s : TcpServer Endpoint) (n : ℕ) :
    (s.removeSession n).sessions = s.sessions ∧ (s.removeSession n).stopped = s.stopped ∧
      ∀ e ∈ (s.removeSession n).posted, e ∈ s.posted := by
  unfold removeSession
  cases s.posted[n]? with
  | none => exact ⟨rfl,rfl,fun _ he => he⟩
  | some e' => exact ⟨rfl,rfl,fun _ he => List.mem_of_mem_eraseIdx he⟩

theorem sentTo_append (out out' : List (ℕ × Bytes)) :
    sentTo id (out ++ out') = sentTo id out ++ sentTo id out' := List.filterMap_append

theorem pings_keep (s : TcpServer Endpoint) (pings : List (ℕ × WriteResult)) :
    (Machine.final sendPing s pings).mSessions = s.mSessions ∧
      (Machine.final sendPing s pings).stopped = s.stopped ∧
      ∀ i, (Machine.final sendPing s pings).remoteEndpoint i = s.remoteEndpoint i := by
  induction pings generalizing s with
  | nil => exact ⟨rfl,rfl,fun _ => rfl⟩
  | cons p pings ih =>
    obtain ⟨hmap,hstopped,hremote⟩ := send_keeps s p.1 payloadBuffer p.2
    obtain ⟨hmap',hstopped',hremote'⟩ := ih (sendPing s p).1
    exact ⟨hmap'.trans hmap,hstopped'.trans hstopped,fun i => (hremote' i).trans (hremote i)⟩

/-- Pings to other sessions. -/
theorem pings_others {pings : List (ℕ × WriteResult)} (h : ∀ p ∈ pings, p.1 ≠ id) :
    (Machine.final sendPing s pings).isOpen id = s.isOpen id ∧
      sentTo id (Machine.answers sendPing s pings).flatten = [] := by
  induction pings generalizing s with
  | nil => exact ⟨rfl,rfl⟩
  | cons p pings ih =>
    obtain ⟨hp,hpings⟩ := List.forall_mem_cons.mp h
    obtain ⟨hopen,hsent⟩ := ih (s := (sendPing s p).1) hpings
    rw [Machine.final_cons,Machine.answers_cons,List.flatten_cons,sentTo_append,hopen,hsent]
    refine ⟨?_,?_⟩
    · simp [sendPing,isOpen_send,hp]
    · simp [sendPing,sentTo_send,hp]

/-- Each session of the map is pinged once. -/
theorem pingSessionsFunc_to (hs : s.Keyed) (hfind : s.mSessions.find? endPoint = some id)
    (results : ℕ → WriteResult) : (s.pingSessionsFunc results).1.isOpen id =
        (s.isOpen id && !(results id).closes) ∧
      sentTo id (s.pingSessionsFunc results).2 =
        if s.isOpen id = true then [(results id).sent (Session.send payloadBuffer)] else [] := by
  obtain ⟨pre,post,hsplit⟩ := OrderedMap.split_of_find? hfind
  have hother : ∀ e ∈ pre ++ post, e.2 ≠ id := by
    rintro ⟨e,i⟩ he rfl
    have hmem : (e,i) ∈ s.mSessions.entries := by
      rw [hsplit.entries]
      rcases List.mem_append.mp he with he | he <;> simp [he]
    have hremote := hs e i (OrderedMap.find?_eq_some_iff.mpr hmem)
    obtain rfl : endPoint = e := Option.some_inj.mp ((hs endPoint i hfind).symm.trans hremote)
    rcases List.mem_append.mp he with he | he
    · exact hsplit.pre_ne _ he rfl
    · exact hsplit.post_ne _ he rfl
  have hpings : ∀ entries ⊆ pre ++ post, ∀ p ∈ entries.map (fun e => (e.2,results e.2)),
      p.1 ≠ id := by
    intro entries hsub p hp
    obtain ⟨e,he,rfl⟩ := List.mem_map.mp hp
    exact hother e (hsub he)
  have hpre := hpings pre (List.subset_append_left pre post)
  have hpost := hpings post (List.subset_append_right pre post)
  obtain ⟨hopen,hsent⟩ := pings_others (s := s) hpre
  have hothers := pings_others (s := (sendPing (Machine.final sendPing s
    (pre.map (fun e => (e.2,results e.2)))) (id,results id)).1) hpost
  unfold pingSessionsFunc
  simp only [hsplit.entries,List.map_append,List.map_cons,Machine.final_append,Machine.final_cons,
    Machine.answers_append,Machine.answers_cons,List.flatten_append,List.flatten_cons,
    sentTo_append,hothers,hsent]
  simp [sendPing,isOpen_send,sentTo_send,hopen]

/-! ### One session -/

/-- The map holds the session under its endpoint, and its socket is open. -/
def Serves (s : TcpServer Endpoint) (endPoint : Endpoint) (id : ℕ) : Prop :=
  s.mSessions.find? endPoint = some id ∧ s.isOpen id = true

/-- What a step may not do if the session is to stay: let another connection from its endpoint
in, remove the endpoint, or write to it and find the connection gone. -/
def Lasts (endPoint : Endpoint) (id : ℕ) (s : TcpServer Endpoint) : Action Endpoint → Prop
  | .acceptSession e starts => s.stopped = true ∨ starts = false ∨ e ≠ endPoint
  | .sendWebSocketData _ e result => s.stopped = true ∨ e ≠ endPoint ∨ result.closes = false
  | .pingSessionsFunc results => s.stopped = true ∨ (results id).closes = false
  | .removeSession n => s.stopped = true ∨ s.posted[n]? ≠ some endPoint

/-- What an action puts on the connection of a session that stays. -/
def Action.frames (endPoint : Endpoint) (id : ℕ) : Action Endpoint → List Bytes
  | .sendWebSocketData data e result =>
    if e = endPoint then [result.sent (Session.send data)] else []
  | .pingSessionsFunc results => [(results id).sent (Session.send payloadBuffer)]
  | _ => []

/-- An accept whose `Start` throws stops the io service. -/
def Action.starts : Action Endpoint → Bool
  | .acceptSession _ starts => starts
  | _ => true

theorem sendWebSocketData_eq {e : Endpoint} {i : ℕ} (h : s.mSessions.find? e = some i)
    (data : Bytes) (result : WriteResult) :
    s.sendWebSocketData data e result = s.send i data result := by
  rw [sendWebSocketData,h]

/-- A state whose map is no larger and whose sessions are of the same endpoints. -/
theorem Keyed.of_same {s' : TcpServer Endpoint} (hs : s.Keyed)
    (hmap : ∀ e i, s'.mSessions.find? e = some i → s.mSessions.find? e = some i)
    (hremote : ∀ i, s'.remoteEndpoint i = s.remoteEndpoint i) : s'.Keyed ∧
      ∀ e i, s.remoteEndpoint i = some e → s'.remoteEndpoint i = some e :=
  ⟨fun e i hi => (hremote i).trans (hs e i (hmap e i hi)),fun _ i hi => (hremote i).trans hi⟩

theorem Keyed.acceptSession (hs : s.Keyed) (e : Endpoint) : (s.acceptSession e true).Keyed ∧
    ∀ e' i, s.remoteEndpoint i = some e' →
      (s.acceptSession e true).remoteEndpoint i = some e' := by
  have hold : ∀ e' i, s.remoteEndpoint i = some e' →
      (s.acceptSession e true).remoteEndpoint i = some e' := by
    intro e' i hi
    rw [remoteEndpoint,getElem?_acceptSession s e (lt_of_remoteEndpoint hi)]
    exact hi
  refine ⟨fun e' i hi => ?_,hold⟩
  rw [find?_acceptSession] at hi
  split_ifs at hi with he
  · cases hi
    rw [he]
    exact remoteEndpoint_acceptSession_self s e
  · exact hold e' i (hs e' i hi)

theorem Keyed.perform (hs : s.Keyed) (action : Action Endpoint) : (s.perform action).1.Keyed ∧
    ∀ e i, s.remoteEndpoint i = some e → (s.perform action).1.remoteEndpoint i = some e := by
  cases action with
  | acceptSession e starts =>
    cases starts with
    | false => exact hs.of_same (fun _ _ hi => hi) (fun _ => rfl)
    | true => exact hs.acceptSession e
  | sendWebSocketData data e result =>
    cases hf : s.mSessions.find? e with
    | none =>
      rw [TcpServer.perform,sendWebSocketData,hf]
      exact ⟨hs,fun _ _ hi => hi⟩
    | some i =>
      rw [TcpServer.perform,sendWebSocketData_eq hf]
      obtain ⟨hmap,_,hremote⟩ := send_keeps s i data result
      exact hs.of_same (fun _ _ hi => hmap ▸ hi) hremote
  | pingSessionsFunc results =>
    obtain ⟨hmap,_,hremote⟩ := pings_keep s (s.mSessions.entries.map (fun e => (e.2,results e.2)))
    exact hs.of_same (fun _ _ hi => hmap ▸ hi) hremote
  | removeSession n =>
    refine hs.of_same (fun e i hi => ?_) (fun i => ?_)
    · rw [TcpServer.perform,find?_removeSession] at hi
      split_ifs at hi
      exact hi
    · rw [TcpServer.perform,remoteEndpoint,(sessions_removeSession s n).1]
      rfl

theorem Keyed.step (hs : s.Keyed) (action : Action Endpoint) : (step s action).1.Keyed ∧
    ∀ e i, s.remoteEndpoint i = some e → (step s action).1.remoteEndpoint i = some e := by
  unfold TcpServer.step
  split_ifs
  · exact ⟨hs,fun _ _ hi => hi⟩
  · exact hs.perform action

theorem final_keyed (actions : List (Action Endpoint)) :
    (Machine.final step start actions).Keyed :=
  Machine.final_invariant (C := fun _ _ => True) (fun _ action hs _ => (hs.step action).1)
    start_keyed (Machine.stepsMeet_of_all (fun _ _ => trivial))

/-- The session is one of the endpoint, in a map that is in order. -/
structure Knows (endPoint : Endpoint) (id : ℕ) (s : TcpServer Endpoint) : Prop where
  keyed : s.Keyed
  remoteEndpoint : s.remoteEndpoint id = some endPoint

theorem Knows.step (h : Knows endPoint id s) (action : Action Endpoint) :
    Knows endPoint id (step s action).1 :=
  ⟨(h.keyed.step action).1,(h.keyed.step action).2 endPoint id h.remoteEndpoint⟩

/-- The session that the map has for an endpoint is the served one only for its own endpoint. -/
theorem Knows.found_iff (h : Knows endPoint id s) (hs : s.Serves endPoint id) {e : Endpoint} {i : ℕ}
    (hf : s.mSessions.find? e = some i) : i = id ↔ e = endPoint := by
  constructor
  · rintro rfl
    exact Option.some_inj.mp ((h.keyed e i hf).symm.trans h.remoteEndpoint)
  · rintro rfl
    exact Option.some_inj.mp (hf.symm.trans hs.1)

theorem acceptSession_serves_iff (h : Knows endPoint id s) (hrun : s.stopped = false) (e : Endpoint)
    (starts : Bool) : (s.acceptSession e starts).Serves endPoint id ↔
      s.Serves endPoint id ∧ Lasts endPoint id s (.acceptSession e starts) := by
  have hid := lt_of_remoteEndpoint h.remoteEndpoint
  cases starts with
  | false => exact (and_iff_left (Or.inr (Or.inl rfl))).symm
  | true =>
    rw [Serves,find?_acceptSession,isOpen,getElem?_acceptSession s e hid]
    by_cases he : endPoint = e
    · have hne : s.sessions.length ≠ id := Nat.ne_of_gt hid
      simp [Lasts,he,hrun,hne]
    · simp [Serves,isOpen,Lasts,he,Ne.symm he]

/-- A message to any endpoint; only one to the session's own reaches it. -/
theorem sendWebSocketData_serves (h : Knows endPoint id s) (hrun : s.stopped = false) (data : Bytes)
    (e : Endpoint) (result : WriteResult) :
    ((s.sendWebSocketData data e result).1.Serves endPoint id ↔
        s.Serves endPoint id ∧ Lasts endPoint id s (.sendWebSocketData data e result)) ∧
      (s.Serves endPoint id → sentTo id (s.sendWebSocketData data e result).2 =
        Action.frames endPoint id (.sendWebSocketData data e result)) := by
  cases hf : s.mSessions.find? e with
  | none =>
    rw [sendWebSocketData,hf]
    have hne : s.Serves endPoint id → e ≠ endPoint := by
      rintro hs rfl
      exact Option.some_ne_none id (hs.1.symm.trans hf)
    refine ⟨(and_iff_left_of_imp (fun hs => Or.inr (Or.inl (hne hs)))).symm,fun hs => ?_⟩
    rw [Action.frames,if_neg (hne hs)]
    rfl
  | some i =>
    rw [sendWebSocketData_eq hf]
    refine ⟨?_,fun hs => ?_⟩
    · rw [Serves,(send_keeps s i data result).1,isOpen_send]
      constructor
      · rintro ⟨hmap,hopen⟩
        obtain ⟨hs,hnot⟩ : s.isOpen id = true ∧ (i = id → result.closes = false) := by
          simpa [imp_iff_not_or] using hopen
        refine ⟨⟨hmap,hs⟩,Or.inr ?_⟩
        by_cases he : e = endPoint
        · exact Or.inr (hnot ((h.found_iff ⟨hmap,hs⟩ hf).mpr he))
        · exact Or.inl he
      · rintro ⟨hs,hlasts⟩
        refine ⟨hs.1,?_⟩
        have hnot : i = id → result.closes = false := by
          intro he
          rcases hlasts with hstop | hne | hc
          · exact absurd (hrun.symm.trans hstop) Bool.false_ne_true
          · exact absurd ((h.found_iff hs hf).mp he) hne
          · exact hc
        simpa [hs.2,imp_iff_not_or] using hnot
    · simp only [sentTo_send,hs.2,and_true,Action.frames,h.found_iff hs hf]

theorem pingSessionsFunc_serves (h : Knows endPoint id s) (hrun : s.stopped = false)
    (results : ℕ → WriteResult) :
    ((s.pingSessionsFunc results).1.Serves endPoint id ↔
        s.Serves endPoint id ∧ Lasts endPoint id s (.pingSessionsFunc results)) ∧
      (s.Serves endPoint id → sentTo id (s.pingSessionsFunc results).2 =
        Action.frames endPoint id (.pingSessionsFunc results)) := by
  have hkeep : (s.pingSessionsFunc results).1.mSessions = s.mSessions := (pings_keep s _).1
  by_cases hmap : s.mSessions.find? endPoint = some id
  · obtain ⟨hopen,hsent⟩ := pingSessionsFunc_to h.keyed hmap results
    constructor
    · rw [Serves,hopen,hkeep]
      simp [Serves,Lasts,hrun,hmap]
    · intro hs
      rw [hsent,if_pos hs.2]
      rfl
  · refine ⟨iff_of_false (fun hs => hmap ?_) (fun hs => hmap hs.1.1),fun hs => absurd hs.1 hmap⟩
    rw [← hkeep]
    exact hs.1

theorem removeSession_serves_iff (hrun : s.stopped = false) (n : ℕ) :
    (s.removeSession n).Serves endPoint id ↔
      s.Serves endPoint id ∧ Lasts endPoint id s (.removeSession n) := by
  rw [Serves,find?_removeSession,isOpen,(sessions_removeSession s n).1]
  by_cases hn : s.posted[n]? = some endPoint
  · simp [hn,Lasts,hrun]
  · simp [hn,Serves,isOpen,Lasts]

/-- One action of a running server: the session is served on exactly if the action lets it,
and its connection then gets the frames of the action. -/
theorem perform_serves (h : Knows endPoint id s) (hrun : s.stopped = false)
    (action : Action Endpoint) :
    ((s.perform action).1.Serves endPoint id ↔ s.Serves endPoint id ∧ Lasts endPoint id s action) ∧
      (s.Serves endPoint id → sentTo id (s.perform action).2 = action.frames endPoint id) := by
  cases action with
  | acceptSession e starts => exact ⟨acceptSession_serves_iff h hrun e starts,fun _ => rfl⟩
  | sendWebSocketData data e result => exact sendWebSocketData_serves h hrun data e result
  | pingSessionsFunc results => exact pingSessionsFunc_serves h hrun results
  | removeSession n => exact ⟨removeSession_serves_iff hrun n,fun _ => rfl⟩

theorem perform_stopped (s : TcpServer Endpoint) (action : Action Endpoint) :
    (s.perform action).1.stopped = (s.stopped || !action.starts) := by
  cases action with
  | acceptSession e starts => cases starts <;> simp [perform,acceptSession,Action.starts]
  | sendWebSocketData data e result =>
    cases hf : s.mSessions.find? e with
    | none => simp [perform,sendWebSocketData,hf,Action.starts]
    | some i =>
      rw [perform,sendWebSocketData_eq hf,(send_keeps s i data result).2.1]
      exact (Bool.or_false _).symm
  | pingSessionsFunc results =>
    rw [perform,pingSessionsFunc,(pings_keep s _).2.1]
    exact (Bool.or_false _).symm
  | removeSession n =>
    rw [perform,(sessions_removeSession s n).2.1]
    exact (Bool.or_false _).symm

/-! ### Runs -/

theorem step_serves_iff (h : Knows endPoint id s) (action : Action Endpoint) :
    (step s action).1.Serves endPoint id ↔ s.Serves endPoint id ∧ Lasts endPoint id s action := by
  unfold step
  split_ifs with hstop
  · refine (and_iff_left ?_).symm
    cases action <;> exact Or.inl hstop
  · exact (perform_serves h (Bool.not_eq_true _ ▸ hstop) action).1

theorem answers_of_stopped (h : s.stopped = true) (actions : List (Action Endpoint)) :
    (Machine.answers step s actions).flatten = [] := by
  induction actions with
  | nil => rfl
  | cons action actions ih =>
    have hstep : step s action = (s,[]) := if_pos h
    rw [Machine.answers_cons,hstep]
    exact ih

/-- The frames of a session that is served throughout, up to the exception that stops the
service. -/
theorem sentTo_answers (h : Knows endPoint id s) (hs : s.Serves endPoint id)
    {actions : List (Action Endpoint)} (hrun : s.stopped = false)
    (hlasts : Machine.StepsMeet step (Lasts endPoint id) s actions) :
    sentTo id (Machine.answers step s actions).flatten =
      (actions.takeWhile Action.starts).flatMap (Action.frames endPoint id) := by
  induction actions generalizing s with
  | nil => rfl
  | cons action actions ih =>
    have hstep : step s action = s.perform action := if_neg (by simp [hrun])
    have hs' := (step_serves_iff h action).mpr ⟨hs,hlasts.1⟩
    have hsent := (perform_serves h hrun action).2 hs
    rw [Machine.answers_cons,List.flatten_cons,sentTo_append]
    cases hst : action.starts with
    | true =>
      have hrun' : (step s action).1.stopped = false := by
        rw [hstep,perform_stopped,hrun,hst]
        rfl
      rw [ih (h.step action) hs' hrun' hlasts.2,hstep,hsent]
      simp [hst]
    | false =>
      have hstop : (step s action).1.stopped = true := by
        rw [hstep,perform_stopped,hst]
        exact Bool.or_true _
      rw [answers_of_stopped hstop,hstep,hsent,List.takeWhile_cons_of_neg (by simp [hst])]
      cases action with
      | acceptSession e starts => rfl
      | sendWebSocketData data e result => cases hst
      | pingSessionsFunc results => cases hst
      | removeSession n => cases hst

theorem serves_acceptSession (s : TcpServer Endpoint) (endPoint : Endpoint) :
    (s.acceptSession endPoint true).Serves endPoint s.sessions.length := by
  refine ⟨?_,isOpen_acceptSession_self s endPoint⟩
  rw [find?_acceptSession,if_pos rfl]

theorem knows_acceptSession (before : List (Action Endpoint)) (endPoint : Endpoint) :
    Knows endPoint (Machine.final step start before).sessions.length
      ((Machine.final step start before).acceptSession endPoint true) :=
  ⟨((final_keyed before).acceptSession endPoint).1,remoteEndpoint_acceptSession_self _ endPoint⟩

/-- From any reachable state in which the server runs, a session that is accepted now is in the
map with an open socket at the end of a run exactly if throughout the run no other connection
came from its endpoint, no removal of its endpoint ran, and no write to it found the
connection gone. What went out on its connection is then one frame for each ping and for each
message to its endpoint, in order, cut where a write failed. -/
theorem session_served_iff (before : List (Action Endpoint)) (endPoint : Endpoint)
    (actions : List (Action Endpoint))
    (hrun : (Machine.final step start before).stopped = false) :
    let s := Machine.final step start before
    let id := s.sessions.length
    let accepted := s.acceptSession endPoint true
    ((Machine.final step accepted actions).Serves endPoint id ↔
        Machine.StepsMeet step (Lasts endPoint id) accepted actions) ∧
      ((Machine.final step accepted actions).Serves endPoint id →
        sentTo id (Machine.answers step accepted actions).flatten =
          (actions.takeWhile Action.starts).flatMap (Action.frames endPoint id)) := by
  intro s id accepted
  have hknows : Knows endPoint id accepted := knows_acceptSession before endPoint
  have hserves : accepted.Serves endPoint id := serves_acceptSession s endPoint
  have hiff : (Machine.final step accepted actions).Serves endPoint id ↔
      Machine.StepsMeet step (Lasts endPoint id) accepted actions :=
    Iff.trans (Machine.final_iff_stepsMeet (D := fun _ _ => True)
      (I := Knows endPoint id) (J := fun s' => s'.Serves endPoint id)
      (fun _ action h _ => h.step action) (fun _ action h _ => step_serves_iff h action) hknows
      (Machine.stepsMeet_of_all (fun _ _ => trivial))) (and_iff_right hserves)
  exact ⟨hiff,fun h => sentTo_answers hknows hserves hrun (hiff.mp h)⟩

/-- A ping that the second connection does not survive, and its removal. -/
theorem session_served_iff_ping :
    (Machine.final step ((start : TcpServer ℕ).acceptSession 1 true)
      [.acceptSession 2 true,
        .pingSessionsFunc (fun id => if id = 0 then .written else .disconnected 3),
        .removeSession 0]).Serves 1 0 := by
  refine (session_served_iff [] 1 _ rfl).1.mpr ⟨?_,?_,?_,trivial⟩
  · exact Or.inr (Or.inr (by decide))
  · exact Or.inr rfl
  · exact Or.inr (by decide)

/-! ### What the removals are aimed at -/

/-- No removal that waits names the endpoint of an open session of the map. -/
def PendingClosed (s : TcpServer Endpoint) : Prop :=
  ∀ e ∈ s.posted, ∀ i, s.mSessions.find? e = some i → s.isOpen i = false

/-- No connection is accepted from an endpoint that a removal waits for. -/
def NotAwaited (s : TcpServer Endpoint) : Action Endpoint → Prop
  | .acceptSession e starts => s.stopped = true ∨ starts = false ∨ e ∉ s.posted
  | _ => True

theorem posted_send (s : TcpServer Endpoint) (i : ℕ) (sendBuffer : Bytes) (result : WriteResult) :
    ∀ e ∈ (s.send i sendBuffer result).1.posted, e ∈ s.posted ∨
      (s.remoteEndpoint i = some e ∧ (s.send i sendBuffer result).1.isOpen i = false) := by
  cases hi : s.isOpen i with
  | false =>
    rw [send_of_not_open s i sendBuffer result hi]
    exact fun e he => Or.inl he
  | true =>
    intro e he
    cases hc : result.closes with
    | false =>
      obtain ⟨endPoint,_,hsend⟩ := send_of_open s i sendBuffer result hi
      rw [hsend,hc] at he
      exact Or.inl he
    | true =>
      have hclosed : (s.send i sendBuffer result).1.isOpen i = false := by
        rw [isOpen_send,hc]
        simp
      obtain ⟨endPoint,hremote,hsend⟩ := send_of_open s i sendBuffer result hi
      rw [hsend,hc] at he
      rcases List.mem_append.mp he with he | he
      · exact Or.inl he
      · rw [List.mem_singleton.mp he]
        exact Or.inr ⟨hremote,hclosed⟩

theorem PendingClosed.send (h : s.PendingClosed) (hs : s.Keyed) {e : Endpoint} {i : ℕ}
    (hi : s.mSessions.find? e = some i) (sendBuffer : Bytes) (result : WriteResult) :
    (s.send i sendBuffer result).1.PendingClosed := by
  intro e' he' i' hi'
  rw [(send_keeps s i sendBuffer result).1] at hi'
  rcases posted_send s i sendBuffer result e' he' with hold | ⟨hremote,hclosed⟩
  · rw [isOpen_send,h e' hold i' hi']
    rfl
  · obtain rfl : e = e' := Option.some_inj.mp ((hs e i hi).symm.trans hremote)
    obtain rfl : i = i' := Option.some_inj.mp (hi.symm.trans hi')
    exact hclosed

theorem PendingClosed.pings (h : s.PendingClosed) (hs : s.Keyed) {pings : List (ℕ × WriteResult)}
    (hpings : ∀ p ∈ pings, ∃ e, s.mSessions.find? e = some p.1) :
    (Machine.final sendPing s pings).PendingClosed := by
  induction pings generalizing s with
  | nil => exact h
  | cons p pings ih =>
    obtain ⟨⟨e,he⟩,hpings⟩ := List.forall_mem_cons.mp hpings
    obtain ⟨hmap,_,hremote⟩ := send_keeps s p.1 payloadBuffer p.2
    refine ih (h.send hs he payloadBuffer p.2) (hs.of_same (fun _ _ hi => hmap ▸ hi) hremote).1 ?_
    intro q hq
    obtain ⟨e',he'⟩ := hpings q hq
    exact ⟨e',hmap.symm ▸ he'⟩

theorem PendingClosed.perform (h : s.PendingClosed) (hs : s.Keyed) {action : Action Endpoint}
    (hrun : s.stopped = false) (haction : s.NotAwaited action) :
    (s.perform action).1.PendingClosed := by
  cases action with
  | acceptSession e starts =>
    cases starts with
    | false => exact h
    | true =>
      have hnot : e ∉ s.posted := by simpa [NotAwaited,hrun] using haction
      intro e' he' i hi
      have hne : e' ≠ e := by
        rintro rfl
        exact hnot he'
      rw [TcpServer.perform,find?_acceptSession,if_neg hne] at hi
      rw [TcpServer.perform,isOpen,getElem?_acceptSession s e (lt_of_remoteEndpoint (hs e' i hi))]
      exact h e' he' i hi
  | sendWebSocketData data e result =>
    cases hf : s.mSessions.find? e with
    | none =>
      rw [TcpServer.perform,sendWebSocketData,hf]
      exact h
    | some i =>
      rw [TcpServer.perform,sendWebSocketData_eq hf]
      exact h.send hs hf data result
  | pingSessionsFunc results =>
    refine h.pings hs (fun p hp => ?_)
    obtain ⟨⟨e,i⟩,he,rfl⟩ := List.mem_map.mp hp
    exact ⟨e,OrderedMap.find?_eq_some_iff.mpr he⟩
  | removeSession n =>
    obtain ⟨hsessions,_,hposted⟩ := sessions_removeSession s n
    intro e he i hi
    rw [TcpServer.perform,find?_removeSession] at hi
    split_ifs at hi
    rw [TcpServer.perform,isOpen,hsessions]
    exact h e (hposted e he) i hi

theorem mem_posted_send {e : Endpoint} (h : e ∈ s.posted) (i : ℕ) (sendBuffer : Bytes)
    (result : WriteResult) : e ∈ (s.send i sendBuffer result).1.posted := by
  cases hi : s.isOpen i with
  | false => rwa [send_of_not_open s i sendBuffer result hi]
  | true =>
    obtain ⟨endPoint,_,hsend⟩ := send_of_open s i sendBuffer result hi
    rw [hsend]
    cases result.closes
    · exact h
    · exact List.mem_append_left _ h

theorem mem_posted_pings {e : Endpoint} (h : e ∈ s.posted) (pings : List (ℕ × WriteResult)) :
    e ∈ (Machine.final sendPing s pings).posted :=
  Machine.final_invariant (C := fun _ _ => True) (I := fun s' : TcpServer Endpoint => e ∈ s'.posted)
    (fun _ ping hs _ => mem_posted_send hs ping.1 payloadBuffer ping.2) h
    (Machine.stepsMeet_of_all (fun _ _ => trivial))

/-- A removal waits until it runs. -/
theorem mem_posted_step (h : endPoint ∈ s.posted) {action : Action Endpoint}
    (hlasts : Lasts endPoint id s action) : endPoint ∈ (step s action).1.posted := by
  unfold step
  split_ifs with hstop
  · exact h
  · cases action with
    | acceptSession e starts => cases starts <;> exact h
    | sendWebSocketData data e result =>
      cases hf : s.mSessions.find? e with
      | none =>
        rw [perform,sendWebSocketData,hf]
        exact h
      | some i =>
        rw [perform,sendWebSocketData_eq hf]
        exact mem_posted_send h i data result
    | pingSessionsFunc results => exact mem_posted_pings h _
    | removeSession n =>
      have hne : s.posted[n]? ≠ some endPoint := hlasts.resolve_left hstop
      rw [perform,removeSession]
      cases hn : s.posted[n]? with
      | none => exact h
      | some e =>
        obtain ⟨k,hk⟩ := List.mem_iff_getElem?.mp h
        refine List.mem_eraseIdx_iff_getElem?.mpr ⟨k,?_,hk⟩
        rintro rfl
        exact hne hk

/-- Over a run the removals that wait are only ever for sessions that a failed write has closed
exactly if no connection is accepted from an endpoint while a removal of it waits. The session of
such a connection is dropped for the failure of the one before it: while it is served the removal
waits on, and when the removal runs there is no session for the endpoint any more. -/
theorem removals_hit_closed_iff (actions : List (Action Endpoint)) :
    ((∀ r ∈ Machine.trace step start actions, r.1.PendingClosed) ↔
        Machine.StepsMeet step NotAwaited start actions) ∧
      ∀ (endPoint : Endpoint) (later : List (Action Endpoint)),
        let s := Machine.final step start actions
        let id := s.sessions.length
        let accepted := s.acceptSession endPoint true
        let t := Machine.final step accepted later
        endPoint ∈ s.posted → Machine.StepsMeet step (Lasts endPoint id) accepted later →
          t.Serves endPoint id ∧ ∃ n, t.posted[n]? = some endPoint ∧
            (t.removeSession n).mSessions.find? endPoint = none := by
  constructor
  · refine Machine.trace_forall_iff (D := fun _ _ => True)
      (I := fun s : TcpServer Endpoint => s.Keyed ∧ s.PendingClosed) (fun _ h => h.2)
      (fun s action h _ haction => ⟨(h.1.step action).1,?_⟩)
      (fun s action h _ haction hpending => haction ?_)
      ⟨start_keyed,fun _ he => absurd he List.not_mem_nil⟩
      (Machine.stepsMeet_of_all (fun _ _ => trivial))
    · unfold step
      split_ifs with hstop
      · exact h.2
      · exact h.2.perform h.1 (Bool.not_eq_true _ ▸ hstop) haction
    · cases action with
      | acceptSession e starts =>
        by_cases hstop : s.stopped = true
        · exact Or.inl hstop
        · cases starts with
          | false => exact Or.inr (Or.inl rfl)
          | true =>
            refine Or.inr (Or.inr (fun he => ?_))
            have hstep : step s (.acceptSession e true) = (s.acceptSession e true,[]) :=
              if_neg hstop
            rw [hstep] at hpending
            have hfind : (s.acceptSession e true).mSessions.find? e = some s.sessions.length := by
              rw [find?_acceptSession,if_pos rfl]
            have hclosed := hpending e he _ hfind
            rw [isOpen_acceptSession_self] at hclosed
            cases hclosed
      | sendWebSocketData data e result => trivial
      | pingSessionsFunc results => trivial
      | removeSession n => trivial
  · intro endPoint later s id accepted t hposted hlasts
    have hserves : t.Serves endPoint id := by
      refine (Machine.final_iff_stepsMeet (D := fun _ _ => True)
        (I := Knows endPoint id) (J := fun s' => s'.Serves endPoint id)
        (fun _ action h _ => h.step action) (fun _ action h _ => step_serves_iff h action)
        (knows_acceptSession actions endPoint)
        (Machine.stepsMeet_of_all (fun _ _ => trivial))).mpr ⟨?_,hlasts⟩
      exact serves_acceptSession s endPoint
    have hwaits : endPoint ∈ t.posted :=
      Machine.final_invariant (I := fun s' : TcpServer Endpoint => endPoint ∈ s'.posted)
        (fun _ _ hs hstep => mem_posted_step hs hstep) hposted hlasts
    obtain ⟨n,hn⟩ := List.mem_iff_getElem?.mp hwaits
    refine ⟨hserves,n,hn,?_⟩
    rw [find?_removeSession,if_pos hn]

/-- The second connection of an endpoint is pinged before it is dropped for the first one. -/
theorem removals_hit_closed_iff_reconnect :
    let s := Machine.final step (start : TcpServer ℕ) [.acceptSession 1 true,
      .sendWebSocketData [112] 1 (.disconnected 0)]
    let t := Machine.final step (s.acceptSession 1 true) [.pingSessionsFunc (fun _ => .written)]
    t.Serves 1 1 ∧ ∃ n, t.posted[n]? = some 1 ∧ (t.removeSession n).mSessions.find? 1 = none :=
  (removals_hit_closed_iff [.acceptSession 1 true,.sendWebSocketData [112] 1 (.disconnected 0)]).2 1
    [.pingSessionsFunc (fun _ => .written)] (by decide) ⟨Or.inr rfl,trivial⟩

end TcpServer
end Moboware
