import Moboware.WebSocket.SessionDelivery

/-! # Which sessions stay

A session leaves the table when a connection from its endpoint takes its place, or a sweep
finds it not open. A session in its handshake is not open yet, so a sweep that another client
caused drops it; an open one is served until it ends itself or is replaced. All this is for
handlers that run one at a time.
-/
namespace Moboware
open Library

namespace WebSocketServer
variable {Endpoint Text : Type*} {s : WebSocketServer Endpoint} {id : ℕ}

theorem sends_keep_table (s : WebSocketServer Endpoint) (messages : List (Text × Endpoint)) :
    (Machine.final sendWebSocketData s messages).mSessions = s.mSessions ∧
      (Machine.final sendWebSocketData s messages).sessions.length = s.sessions.length := by
  induction messages generalizing s with
  | nil => exact ⟨rfl,rfl⟩
  | cons m messages ih =>
    obtain ⟨htable,hlength⟩ := ih (s.sendWebSocketData m).1
    rw [Machine.final_cons,htable,hlength,sendWebSocketData]
    cases s.mSessions m.2 with
    | none => exact ⟨rfl,rfl⟩
    | some i =>
      dsimp only
      cases hs : s.sessions[i]? with
      | none =>
        rw [write,hs]
        exact ⟨rfl,rfl⟩
      | some session =>
        by_cases hopen : session.status = .opened
        · rw [write_of_opened hs hopen]
          exact ⟨rfl,List.length_modify ..⟩
        · rw [write_of_not_opened hs hopen]
          exact ⟨rfl,rfl⟩

theorem mSessions_accept [DecidableEq Endpoint] (s : WebSocketServer Endpoint)
    (endpoint : Endpoint) (room : ℕ) : (s.accept endpoint room).mSessions =
      Function.update s.mSessions endpoint (some s.sessions.length) := rfl

theorem acceptHandshake_keeps_table (s : WebSocketServer Endpoint) (i : ℕ) (success : Bool) :
    (s.acceptHandshake i success).mSessions = s.mSessions ∧
      (s.acceptHandshake i success).sessions.length = s.sessions.length := by
  rw [acceptHandshake]
  cases s.holds i .handshake with
  | none => exact ⟨rfl,rfl⟩
  | some session => exact ⟨rfl,List.length_modify ..⟩

theorem readFails_keeps_table (s : WebSocketServer Endpoint) (i : ℕ) (closed : Bool) :
    (s.readFails i closed).mSessions = s.mSessions ∧
      (s.readFails i closed).sessions.length = s.sessions.length := by
  rw [readFails]
  cases s.holds i .opened with
  | none => exact ⟨rfl,rfl⟩
  | some session => cases closed <;> exact ⟨rfl,List.length_modify ..⟩

theorem mSessions_removeSession (s : WebSocketServer Endpoint) (endpoint : Endpoint) :
    s.removeSession.mSessions endpoint =
      if s.posted = 0 then s.mSessions endpoint else (s.mSessions endpoint).filter s.isOpen := by
  rw [removeSession]
  split_ifs
  · rfl
  · rfl

theorem sessions_removeSession (s : WebSocketServer Endpoint) :
    s.removeSession.sessions = s.sessions := by
  rw [removeSession]
  split_ifs
  · rfl
  · rfl

theorem isOpen_modify_of_ne {i : ℕ} (hi : i ≠ id)
    (f : WebSocketSession Endpoint → WebSocketSession Endpoint) :
    (s.modify i f).isOpen id = s.isOpen id := by
  rw [isOpen,isOpen,getElem?_modify,if_neg hi]

theorem ne_of_not_isOpen {i : ℕ} {session : WebSocketSession Endpoint}
    (hopen : s.isOpen id = false) (hi : s.sessions[i]? = some session)
    (hstatus : session.status = .opened) : i ≠ id := by
  rintro rfl
  rw [← Bool.not_eq_true,isOpen_eq_true_iff] at hopen
  exact hopen ⟨session,hi,hstatus⟩

/-- Sending opens no session and posts no sweep. -/
theorem sends_not_isOpen (hopen : s.isOpen id = false) (messages : List (Text × Endpoint)) :
    (Machine.final sendWebSocketData s messages).isOpen id = false ∧
      (Machine.final sendWebSocketData s messages).posted = s.posted := by
  induction messages generalizing s with
  | nil => exact ⟨hopen,rfl⟩
  | cons m messages ih =>
    have hstep : (s.sendWebSocketData m).1.isOpen id = false ∧
        (s.sendWebSocketData m).1.posted = s.posted := by
      rw [sendWebSocketData]
      cases s.mSessions m.2 with
      | none => exact ⟨hopen,rfl⟩
      | some i =>
        dsimp only
        cases hi : s.sessions[i]? with
        | none =>
          rw [write,hi]
          exact ⟨hopen,rfl⟩
        | some session =>
          by_cases hstatus : session.status = .opened
          · rw [write_of_opened hi hstatus]
            exact ⟨(isOpen_modify_of_ne (ne_of_not_isOpen hopen hi hstatus) _).trans hopen,rfl⟩
          · rw [write_of_not_opened hi hstatus]
            exact ⟨hopen,rfl⟩
    obtain ⟨hfinal,hposted⟩ := ih hstep.1
    exact ⟨hfinal,hposted.trans hstep.2⟩

theorem accept_not_isOpen [DecidableEq Endpoint] (hid : id < s.sessions.length)
    (hopen : s.isOpen id = false) (endpoint : Endpoint) (room : ℕ) :
    (s.accept endpoint room).isOpen id = false := by
  rw [isOpen,accept,List.getElem?_append_left hid]
  exact hopen

theorem acceptHandshake_not_isOpen (hopen : s.isOpen id = false) {i : ℕ} {success : Bool}
    (hwaits : i = id → success = false) : (s.acceptHandshake i success).isOpen id = false := by
  rw [acceptHandshake]
  cases hi : s.holds i .handshake with
  | none => exact hopen
  | some session =>
    by_cases hne : i = id
    · subst hne
      obtain ⟨hs,_,_⟩ := holds_eq_some_iff.mp hi
      rw [hwaits rfl]
      simp [isOpen,getElem?_modify,hs,WebSocketSession.setStatus]
    · exact (isOpen_modify_of_ne hne _).trans hopen

theorem posted_acceptHandshake (s : WebSocketServer Endpoint) (i : ℕ) (success : Bool) :
    (s.acceptHandshake i success).posted = s.posted := by
  rw [acceptHandshake]
  cases s.holds i .handshake with
  | none => rfl
  | some session => rfl

theorem readFails_not_isOpen (hopen : s.isOpen id = false) (i : ℕ) (closed : Bool) :
    (s.readFails i closed).isOpen id = false ∧ s.posted ≤ (s.readFails i closed).posted := by
  rw [readFails]
  cases hi : s.holds i .opened with
  | none => exact ⟨hopen,Nat.le_refl _⟩
  | some session =>
    obtain ⟨hs,_,hstatus⟩ := holds_eq_some_iff.mp hi
    have hopen' := fun f => (isOpen_modify_of_ne (ne_of_not_isOpen hopen hs hstatus) f).trans hopen
    cases closed with
    | true => exact ⟨hopen' _,Nat.le_succ _⟩
    | false => exact ⟨hopen' _,Nat.le_refl _⟩

/-! ### One session -/

/-- The session is past its handshake. -/
def Established (s : WebSocketServer Endpoint) (endpoint : Endpoint) (id : ℕ) : Prop :=
  ∃ session, s.sessions[id]? = some session ∧ session.endpoint = endpoint ∧
    session.status ≠ .handshake

/-- The table holds the session and it is open: what comes from it is read. -/
def Serves (s : WebSocketServer Endpoint) (id : ℕ) : Prop := (s.holds id .opened).isSome = true

/-- How many messages the connection still takes. -/
def room (s : WebSocketServer Endpoint) (id : ℕ) : ℕ :=
  (s.sessions[id]?.map WebSocketSession.room).getD 0

theorem established_of_getElem? {s' : WebSocketServer Endpoint} {endpoint : Endpoint}
    (h : s.Established endpoint id) (hs : s'.sessions[id]? = s.sessions[id]?) :
    s'.Established endpoint id := by
  obtain ⟨session,hsession,hendpoint⟩ := h
  exact ⟨session,hs.trans hsession,hendpoint⟩

theorem serves_iff {session : WebSocketSession Endpoint} (hs : s.sessions[id]? = some session) :
    s.Serves id ↔ s.mSessions session.endpoint = some id ∧ session.status = .opened := by
  simp [Serves,holds,hs,Option.filter]

/-- The close of a session that is served posts a sweep. -/
theorem posted_readFails {i : ℕ} (hcloses : s.Serves i) :
    (s.readFails i true).posted = s.posted + 1 := by
  obtain ⟨session,hi⟩ := Option.isSome_iff_exists.mp hcloses
  rw [readFails,hi]
  rfl

theorem serves_modify_of_ne {i : ℕ} (hi : i ≠ id)
    (f : WebSocketSession Endpoint → WebSocketSession Endpoint) :
    (s.modify i f).Serves id ↔ s.Serves id := by
  rw [Serves,Serves,holds,holds,getElem?_modify,if_neg hi]
  exact Iff.rfl

/-- The table decides for a session that is changed in place. -/
theorem serves_modify_iff {session : WebSocketSession Endpoint}
    (hs : s.sessions[id]? = some session)
    {f : WebSocketSession Endpoint → WebSocketSession Endpoint}
    (hf : (f session).endpoint = session.endpoint) : (s.modify id f).Serves id ↔
      s.mSessions session.endpoint = some id ∧ (f session).status = .opened := by
  have hs' : (s.modify id f).sessions[id]? = some (f session) := by
    rw [getElem?_modify,if_pos rfl,hs,Option.map_some]
  rw [serves_iff hs',hf]
  exact Iff.rfl

namespace Established
variable {endpoint : Endpoint} (h : s.Established endpoint id)
include h

theorem ne_of_handshake {i : ℕ} {session : WebSocketSession Endpoint}
    (hi : s.holds i .handshake = some session) : i ≠ id := by
  rintro rfl
  obtain ⟨session',hs,_,hstatus⟩ := h
  obtain ⟨hs',_,hhandshake⟩ := holds_eq_some_iff.mp hi
  rw [hs] at hs'
  cases hs'
  exact hstatus hhandshake

theorem endpoint_of_holds {status : StreamStatus} {session : WebSocketSession Endpoint}
    (hi : s.holds id status = some session) : session.endpoint = endpoint := by
  obtain ⟨session',hs,hendpoint,_⟩ := h
  obtain ⟨hs',_,_⟩ := holds_eq_some_iff.mp hi
  rw [hs] at hs'
  cases hs'
  exact hendpoint

theorem modify {i : ℕ} {f : WebSocketSession Endpoint → WebSocketSession Endpoint}
    (hf : ∀ session, (f session).endpoint = session.endpoint ∧
      (session.status ≠ .handshake → (f session).status ≠ .handshake)) :
    (s.modify i f).Established endpoint id := by
  obtain ⟨session,hs,hendpoint,hstatus⟩ := h
  by_cases hi : i = id
  · subst hi
    refine ⟨f session,?_,(hf session).1.trans hendpoint,(hf session).2 hstatus⟩
    rw [getElem?_modify,if_pos rfl,hs,Option.map_some]
  · refine ⟨session,?_,hendpoint,hstatus⟩
    rw [getElem?_modify,if_neg hi,hs]

/-- Another session is changed. -/
theorem modify_of_ne {i : ℕ} (hi : i ≠ id)
    (f : WebSocketSession Endpoint → WebSocketSession Endpoint) :
    (s.modify i f).Established endpoint id ∧ ((s.modify i f).Serves id ↔ s.Serves id) := by
  refine ⟨established_of_getElem? h ?_,serves_modify_of_ne hi f⟩
  rw [getElem?_modify,if_neg hi]

theorem accept [DecidableEq Endpoint] (e : Endpoint) (room : ℕ) :
    (s.accept e room).Established endpoint id ∧
      ((s.accept e room).Serves id ↔ s.Serves id ∧ e ≠ endpoint) := by
  obtain ⟨session,hs,hendpoint,hstatus⟩ := h
  have hlt := (List.getElem?_eq_some_iff.mp hs).1
  have hs' : (s.accept e room).sessions[id]? = some session :=
    (List.getElem?_append_left hlt).trans hs
  refine ⟨⟨session,hs',hendpoint,hstatus⟩,?_⟩
  rw [serves_iff hs',serves_iff hs,hendpoint]
  by_cases he : endpoint = e
  · subst he
    refine iff_of_false (fun hserves => ?_) (fun hserves => hserves.2 rfl)
    rw [mSessions_accept,Function.update_self,Option.some_inj] at hserves
    exact Nat.ne_of_gt hlt hserves.1
  · rw [mSessions_accept,Function.update_of_ne he]
    exact (and_iff_left (Ne.symm he)).symm

theorem acceptHandshake (i : ℕ) (success : Bool) :
    (s.acceptHandshake i success).Established endpoint id ∧
      ((s.acceptHandshake i success).Serves id ↔ s.Serves id) := by
  rw [WebSocketServer.acceptHandshake]
  cases hi : s.holds i .handshake with
  | none => exact ⟨h,Iff.rfl⟩
  | some session => exact h.modify_of_ne (h.ne_of_handshake hi) _

theorem removeSession :
    s.removeSession.Established endpoint id ∧ (s.removeSession.Serves id ↔ s.Serves id) := by
  have hcopy := h
  obtain ⟨session,hs,_⟩ := hcopy
  have hs' : s.removeSession.sessions[id]? = some session := by
    rw [sessions_removeSession,hs]
  refine ⟨established_of_getElem? h (by rw [sessions_removeSession]),?_⟩
  rw [serves_iff hs',serves_iff hs,mSessions_removeSession]
  split_ifs
  · exact Iff.rfl
  · rw [Option.filter_eq_some_iff,isOpen_eq_true_iff]
    constructor
    · exact fun hserves => ⟨hserves.1.1,hserves.2⟩
    · exact fun hserves => ⟨⟨hserves.1,session,hs,hserves.2⟩,hserves.2⟩

/-- A session that is no longer open in place is not served. -/
theorem ends {f : WebSocketSession Endpoint → WebSocketSession Endpoint}
    (hf : ∀ session, (f session).endpoint = session.endpoint ∧ (f session).status ≠ .handshake ∧
      (f session).status ≠ .opened) :
    (s.modify id f).Established endpoint id ∧ ¬ (s.modify id f).Serves id := by
  refine ⟨h.modify (fun session => ⟨(hf session).1,fun _ => (hf session).2.1⟩),?_⟩
  obtain ⟨session,hs,_⟩ := h
  rw [serves_modify_iff hs (hf session).1]
  exact fun hserves => (hf session).2.2 hserves.2

theorem readFails (i : ℕ) (closed : Bool) : (s.readFails i closed).Established endpoint id ∧
    ((s.readFails i closed).Serves id ↔ s.Serves id ∧ i ≠ id) := by
  rw [WebSocketServer.readFails]
  cases hi : s.holds i .opened with
  | none =>
    refine ⟨h,(and_iff_left_of_imp ?_).symm⟩
    rintro hserves rfl
    rw [Serves,hi] at hserves
    exact Bool.false_ne_true hserves
  | some session =>
    have hposted : ∀ server : WebSocketServer Endpoint, (server.onSessionClosed.Established
        endpoint id ↔ server.Established endpoint id) ∧
          (server.onSessionClosed.Serves id ↔ server.Serves id) :=
      fun _ => ⟨Iff.rfl,Iff.rfl⟩
    by_cases hid : i = id
    · subst hid
      have hends := fun (status : StreamStatus) (hstatus : status ≠ .handshake ∧
          status ≠ .opened) => h.ends (f := WebSocketSession.setStatus status)
            (fun _ => ⟨rfl,hstatus⟩)
      cases closed with
      | true =>
        obtain ⟨he,hserves⟩ := hends .closed ⟨StreamStatus.noConfusion,StreamStatus.noConfusion⟩
        exact ⟨he,iff_of_false hserves (fun hs => hs.2 rfl)⟩
      | false =>
        obtain ⟨he,hserves⟩ := hends .failed ⟨StreamStatus.noConfusion,StreamStatus.noConfusion⟩
        exact ⟨he,iff_of_false hserves (fun hs => hs.2 rfl)⟩
    · rw [and_iff_left hid]
      cases closed with
      | true => exact h.modify_of_ne hid _
      | false => exact h.modify_of_ne hid _

/-- Writes to an open session. -/
theorem taken {i : ℕ} {session : WebSocketSession Endpoint}
    (hi : s.holds i .opened = some session) (n : ℕ) :
    (s.modify i (WebSocketSession.taken n)).Established endpoint id ∧
      ((s.modify i (WebSocketSession.taken n)).Serves id ↔
        s.Serves id ∧ (i ≠ id ∨ n ≤ s.room id)) := by
  by_cases hid : i = id
  · subst hid
    obtain ⟨hs,_,hopen⟩ := holds_eq_some_iff.mp hi
    have hroom : s.room i = session.room := by
      rw [room,hs]
      rfl
    have hserves := serves_modify_iff hs (WebSocketSession.taken_endpoint n session)
    rw [serves_iff hs,hroom,hserves]
    by_cases hn : n ≤ session.room
    · refine ⟨h.modify (fun session => ⟨WebSocketSession.taken_endpoint n session,?_⟩),?_⟩
      · intro hstatus
        unfold WebSocketSession.taken
        split_ifs
        · exact hstatus
        · exact StreamStatus.noConfusion
      · rw [WebSocketSession.taken,if_pos hn]
        simp [hn]
    · refine ⟨h.modify (fun session => ⟨WebSocketSession.taken_endpoint n session,?_⟩),?_⟩
      · intro hstatus
        unfold WebSocketSession.taken
        split_ifs
        · exact hstatus
        · exact StreamStatus.noConfusion
      · rw [WebSocketSession.taken,if_neg hn]
        simp [hn]
  · obtain ⟨he,hserves⟩ := h.modify_of_ne hid (WebSocketSession.taken n)
    exact ⟨he,hserves.trans (and_iff_left (Or.inl hid)).symm⟩

end Established
end WebSocketServer

namespace WebSocketService
variable {Endpoint γ Data Text : Type*} [DecidableEq Endpoint]
  {fn : WebSocketDataReceivedFn γ Data Text Endpoint} {s : WebSocketService Endpoint γ} {id : ℕ}

/-! ### The table -/

/-- No connection takes the session's place and no sweep finds it not open. -/
def Keeps (endpoint : Endpoint) (id : ℕ) (s : WebSocketService Endpoint γ) :
    Action Endpoint Data → Prop
  | .accept e _ => s.stopped = true ∨ e ≠ endpoint
  | .removeSession => s.stopped = true ∨ s.server.posted = 0 ∨ s.server.isOpen id = true
  | _ => True

omit [DecidableEq Endpoint] in
theorem readData_keeps_table (s : WebSocketService Endpoint γ) (i : ℕ) (data : Data) :
    (readData fn s i data).1.server.mSessions = s.server.mSessions ∧
      (readData fn s i data).1.server.sessions.length = s.server.sessions.length := by
  rw [readData]
  cases s.server.holds i .opened with
  | none => exact ⟨rfl,rfl⟩
  | some session => exact WebSocketServer.sends_keep_table s.server _

/-- One step: the connections are counted on, and the session keeps its place or not. -/
theorem step_keeps_iff (fn : WebSocketDataReceivedFn γ Data Text Endpoint)
    (s : WebSocketService Endpoint γ) (action : Action Endpoint Data) {endpoint : Endpoint}
    (hid : id < s.server.sessions.length) :
    id < (step fn s action).1.server.sessions.length ∧
      ((step fn s action).1.server.mSessions endpoint = some id ↔
        s.server.mSessions endpoint = some id ∧ Keeps endpoint id s action) := by
  unfold step
  split_ifs with hstopped
  · refine ⟨hid,(and_iff_left ?_).symm⟩
    cases action with
    | accept e room => exact Or.inl hstopped
    | removeSession => exact Or.inl hstopped
    | acceptThrows => trivial
    | acceptHandshake i success => trivial
    | readData i data => trivial
    | readThrows i => trivial
    | readFails i closed => trivial
  have hsame : ∀ server : WebSocketServer Endpoint, (server.mSessions = s.server.mSessions ∧
      server.sessions.length = s.server.sessions.length) → id < server.sessions.length ∧
        (server.mSessions endpoint = some id ↔ s.server.mSessions endpoint = some id ∧ True) := by
    rintro server ⟨htable,hlength⟩
    rw [htable,hlength,and_true]
    exact ⟨hid,Iff.rfl⟩
  cases action with
  | accept e room =>
    refine ⟨Nat.lt_of_lt_of_le hid (by simp [perform,WebSocketServer.accept]),?_⟩
    simp only [perform,WebSocketServer.accept,Keeps,hstopped,false_or,Bool.false_eq_true]
    by_cases he : endpoint = e
    · subst he
      rw [Function.update_self,Option.some_inj]
      exact iff_of_false (Nat.ne_of_gt hid) (fun h => h.2 rfl)
    · rw [Function.update_of_ne he]
      exact (and_iff_left (Ne.symm he)).symm
  | acceptThrows => exact hsame _ ⟨rfl,rfl⟩
  | acceptHandshake i success =>
    exact hsame _ (WebSocketServer.acceptHandshake_keeps_table s.server i success)
  | readData i data => exact hsame _ (readData_keeps_table s i data)
  | readThrows i => exact hsame _ (by simp only [perform,server_readThrows,and_self])
  | readFails i closed => exact hsame _ (WebSocketServer.readFails_keeps_table s.server i closed)
  | removeSession =>
    simp only [perform,WebSocketServer.sessions_removeSession,
      WebSocketServer.mSessions_removeSession,Keeps,hstopped,false_or,Bool.false_eq_true]
    refine ⟨hid,?_⟩
    by_cases hposted : s.server.posted = 0
    · simp [hposted]
    · simp [hposted,Option.filter_eq_some_iff]

/-- A connection is in the table at the end of a run exactly if no later connection came from
its endpoint and every sweep found it open: with the handshake not done, the first sweep
drops it. -/
theorem session_kept_iff (fn : WebSocketDataReceivedFn γ Data Text Endpoint)
    (s : WebSocketService Endpoint γ) (endpoint : Endpoint) (room : ℕ)
    (actions : List (Action Endpoint Data)) :
    let accepted : WebSocketService Endpoint γ :=
      { s with server := s.server.accept endpoint room }
    (Machine.final (step fn) accepted actions).server.mSessions endpoint =
        some s.server.sessions.length ↔
      Machine.StepsMeet (step fn) (Keeps endpoint s.server.sessions.length) accepted actions := by
  intro accepted
  have hkept : accepted.server.mSessions endpoint = some s.server.sessions.length :=
    Function.update_self ..
  have hid : s.server.sessions.length < accepted.server.sessions.length := by
    simp [accepted,WebSocketServer.accept]
  refine Iff.trans (Machine.final_iff_stepsMeet
    (C := Keeps endpoint s.server.sessions.length) (D := fun _ _ => True)
    (I := fun s' : WebSocketService Endpoint γ =>
      s.server.sessions.length < s'.server.sessions.length)
    (J := fun s' : WebSocketService Endpoint γ =>
      s'.server.mSessions endpoint = some s.server.sessions.length)
    (fun s' action hs' _ => ?_) (fun s' action hs' _ => ?_) hid
    (Machine.stepsMeet_of_all (fun _ _ => trivial))) (and_iff_right hkept)
  · exact (@step_keeps_iff _ _ _ _ _ _ fn s' action endpoint hs').1
  · exact (step_keeps_iff fn s' action hs').2

/-- The session is not open, and while the table holds it a sweep is posted. -/
def Doomed (endpoint : Endpoint) (id : ℕ) (s : WebSocketServer Endpoint) : Prop :=
  id < s.sessions.length ∧ s.isOpen id = false ∧ (s.mSessions endpoint = some id → s.posted ≠ 0)

theorem doomed_step (fn : WebSocketDataReceivedFn γ Data Text Endpoint)
    {action : Action Endpoint Data} (hwaits : action ≠ .acceptHandshake id true)
    {endpoint : Endpoint} (h : Doomed endpoint id s.server) :
    Doomed endpoint id (step fn s action).1.server := by
  have hcopy := h
  obtain ⟨hid,hopen,hposted⟩ := hcopy
  obtain ⟨hid',hkept⟩ := @step_keeps_iff _ _ _ _ _ _ fn s action endpoint hid
  refine ⟨hid',?_⟩
  suffices hstep : (step fn s action).1.server.isOpen id = false ∧
      (Keeps endpoint id s action → s.server.posted ≠ 0 →
        (step fn s action).1.server.posted ≠ 0) from
    ⟨hstep.1,fun htable => hstep.2 (hkept.mp htable).2 (hposted (hkept.mp htable).1)⟩
  unfold step
  split_ifs with hstopped
  · exact ⟨hopen,fun _ h => h⟩
  cases action with
  | accept e room => exact ⟨WebSocketServer.accept_not_isOpen hid hopen e room,fun _ h => h⟩
  | acceptThrows => exact ⟨hopen,fun _ h => h⟩
  | acceptHandshake i success =>
    have hfails : i = id → success = false := by
      rintro rfl
      cases success with
      | true => exact absurd rfl hwaits
      | false => rfl
    refine ⟨WebSocketServer.acceptHandshake_not_isOpen hopen hfails,fun _ h => ?_⟩
    rwa [perform,WebSocketServer.posted_acceptHandshake]
  | readData i data =>
    rw [perform,readData]
    cases s.server.holds i .opened with
    | none => exact ⟨hopen,fun _ h => h⟩
    | some session =>
      obtain ⟨hopen',hposted'⟩ := WebSocketServer.sends_not_isOpen hopen
        (fn.received s.channel (data,session.endpoint)).2
      exact ⟨hopen',fun _ h => hposted' ▸ h⟩
  | readThrows i =>
    rw [perform,server_readThrows]
    exact ⟨hopen,fun _ h => h⟩
  | readFails i closed =>
    obtain ⟨hopen',hle⟩ := WebSocketServer.readFails_not_isOpen hopen i closed
    exact ⟨hopen',fun _ h => Nat.ne_of_gt (Nat.lt_of_lt_of_le (Nat.pos_of_ne_zero h) hle)⟩
  | removeSession =>
    rw [perform]
    refine ⟨?_,?_⟩
    · rw [WebSocketServer.isOpen,WebSocketServer.sessions_removeSession]
      exact hopen
    · -- a sweep that is posted would have to find the session open
      rintro (hrun | hzero | hisOpen) hne
      · exact absurd hrun hstopped
      · exact absurd hzero hne
      · exact absurd (hopen.symm.trans hisOpen) Bool.false_ne_true

/-- When a session closes, the sweep that it posts drops every connection that is not open and
does not end its handshake before the sweep runs. -/
theorem dropped_in_handshake (fn : WebSocketDataReceivedFn γ Data Text Endpoint)
    (s : WebSocketService Endpoint γ) (endpoint : Endpoint) {i : ℕ}
    (hid : id < s.server.sessions.length) (hopen : s.server.isOpen id = false)
    (hcloses : s.server.Serves i) (actions : List (Action Endpoint Data))
    (hwaits : .acceptHandshake id true ∉ actions)
    (hrun : (Machine.final (step fn) s (.readFails i true :: actions)).stopped = false) :
    (Machine.final (step fn) s (.readFails i true :: actions ++ [.removeSession])).server.mSessions
      endpoint ≠ some id := by
  have hgoes : s.stopped = false := by
    rw [← Bool.not_eq_true]
    intro hstopped
    rw [(reads_of_stopped hstopped _).2] at hrun
    exact Bool.noConfusion hrun
  have hclosed : Doomed endpoint id (step fn s (.readFails i true)).1.server := by
    have hid' := (@step_keeps_iff _ _ _ _ _ _ fn s (.readFails i true) endpoint hid).1
    rw [step,if_neg (Bool.eq_false_iff.mp hgoes)] at hid' ⊢
    refine ⟨hid',(WebSocketServer.readFails_not_isOpen hopen i true).1,fun _ => ?_⟩
    rw [perform,WebSocketServer.posted_readFails hcloses]
    exact Nat.succ_ne_zero _
  have hwait : ∀ action ∈ actions, action ≠ .acceptHandshake id true :=
    fun action h => ne_of_mem_of_not_mem h hwaits
  have hfinal := Machine.final_invariant
    (C := fun _ (action : Action Endpoint Data) => action ≠ .acceptHandshake id true)
    (I := fun s' : WebSocketService Endpoint γ => Doomed endpoint id s'.server)
    (fun _ _ h hne => doomed_step fn hne h) hclosed (Machine.stepsMeet_of_forall hwait)
  rw [List.cons_append,Machine.final_cons,Machine.final_append]
  rw [Machine.final_cons] at hrun
  intro hkept
  obtain ⟨htable,hkeeps⟩ := (step_keeps_iff fn _ .removeSession hfinal.1).2.mp hkept
  rcases hkeeps with hstopped | hzero | hisOpen
  · rw [hrun] at hstopped
    exact Bool.noConfusion hstopped
  · exact hfinal.2.2 htable hzero
  · rw [hfinal.2.1] at hisOpen
    exact Bool.noConfusion hisOpen

/-- A channel that sends every message back. -/
def echo : WebSocketDataReceivedFn Unit ℕ ℕ ℕ where
  received _ data := ((),[data])
  throws _ _ := false

/-- The close of the first client drops the second out of its handshake. -/
example : (Machine.final (step echo) (start ()) [.accept 1 5,.acceptHandshake 0 true,.accept 2 5,
    .readFails 0 true,.removeSession]).server.mSessions 2 = none := by decide

/-! ### Being served -/

/-- The session is not replaced, does not fail or close, and takes the answers it asks for. -/
def Lasts (fn : WebSocketDataReceivedFn γ Data Text Endpoint) (endpoint : Endpoint) (id : ℕ)
    (s : WebSocketService Endpoint γ) : Action Endpoint Data → Prop
  | .accept e _ => s.stopped = true ∨ e ≠ endpoint
  | .readFails i _ => s.stopped = true ∨ i ≠ id
  | .readData i data => s.stopped = true ∨ i ≠ id ∨
      (fn.received s.channel (data,endpoint)).2.length ≤ s.server.room id
  | _ => True

theorem step_lasts_iff (hfn : fn.Replies) (s : WebSocketService Endpoint γ)
    (action : Action Endpoint Data) {endpoint : Endpoint}
    (hs : s.server.Established endpoint id) :
    (step fn s action).1.server.Established endpoint id ∧
      ((step fn s action).1.server.Serves id ↔
        s.server.Serves id ∧ Lasts fn endpoint id s action) := by
  unfold step
  split_ifs with hstopped
  · refine ⟨hs,(and_iff_left ?_).symm⟩
    cases action with
    | accept e room => exact Or.inl hstopped
    | readFails i closed => exact Or.inl hstopped
    | readData i data => exact Or.inl hstopped
    | acceptThrows => trivial
    | acceptHandshake i success => trivial
    | readThrows i => trivial
    | removeSession => trivial
  cases action with
  | accept e room =>
    rw [Lasts,or_iff_right hstopped]
    exact hs.accept e room
  | acceptThrows => exact ⟨hs,(and_iff_left trivial).symm⟩
  | readThrows i =>
    rw [perform,server_readThrows]
    exact ⟨hs,(and_iff_left trivial).symm⟩
  | acceptHandshake i success =>
    obtain ⟨he,hserves⟩ := hs.acceptHandshake i success
    exact ⟨he,hserves.trans (and_iff_left trivial).symm⟩
  | readFails i closed =>
    rw [Lasts,or_iff_right hstopped]
    exact hs.readFails i closed
  | removeSession =>
    obtain ⟨he,hserves⟩ := hs.removeSession
    exact ⟨he,hserves.trans (and_iff_left trivial).symm⟩
  | readData i data =>
    rw [Lasts,or_iff_right hstopped,perform]
    cases hi : s.server.holds i .opened with
    | none =>
      have hquiet : readData fn s i data = (s,[]) := by rw [readData,hi]
      rw [hquiet]
      refine ⟨hs,(and_iff_left_of_imp (fun hserves => Or.inl ?_)).symm⟩
      rintro rfl
      rw [WebSocketServer.Serves,hi] at hserves
      exact Bool.false_ne_true hserves
    | some session =>
      rw [readData_eq hfn hi]
      have htaken := hs.taken hi (fn.received s.channel (data,session.endpoint)).2.length
      refine ⟨htaken.1,htaken.2.trans (and_congr_right (fun hserves => ?_))⟩
      refine or_congr_right' (fun hne => ?_)
      obtain rfl := not_not.mp hne
      rw [hs.endpoint_of_holds hi]

theorem replies_echo : echo.Replies := by
  intro c data m hm
  rw [List.mem_singleton.mp hm]

/-- A client whose session is open, with room for two messages. -/
def oneClient : WebSocketService ℕ Unit where
  server := ⟨[⟨1,.opened,2⟩],fun e => if e = 1 then some 0 else none,0⟩
  channel := ()
  stopped := false

end WebSocketService
end Moboware
