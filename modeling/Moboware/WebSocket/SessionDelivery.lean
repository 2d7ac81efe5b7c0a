import Moboware.WebSocket.WebSocketServer

/-! # What a session is sent

The channel answers while the read handler runs, through the table. The answers to what a
session sent reach that session, in order, up to the first write that its connection does not
take, and no other session; and this holds whatever other sessions come, go and are swept.
-/
namespace Moboware
open Library

namespace WebSocketServer
variable {Endpoint Text : Type*} {s : WebSocketServer Endpoint} {id : ℕ}
  {session : WebSocketSession Endpoint}

theorem write_of_not_opened (hs : s.sessions[id]? = some session) (hopen : session.status ≠ .opened)
    (text : Text) : s.write id text = (s,[]) := by
  rw [write,hs]
  exact if_neg hopen

theorem write_of_opened (hs : s.sessions[id]? = some session) (hopen : session.status = .opened)
    (text : Text) : s.write id text =
      (s.modify id (WebSocketSession.taken 1),if session.room = 0 then [] else [(id,text)]) := by
  rw [write,hs]
  exact if_pos hopen

theorem taken_taken_one {n : ℕ} (h : session.room ≠ 0) :
    (session.taken 1).taken n = session.taken (n + 1) := by
  have hone : 1 ≤ session.room := Nat.one_le_iff_ne_zero.mpr h
  simp only [WebSocketSession.taken,if_pos hone]
  by_cases hn : n + 1 ≤ session.room
  · rw [if_pos (by omega),if_pos hn]
    simp only [WebSocketSession.mk.injEq,true_and]
    omega
  · rw [if_neg (by omega),if_neg hn]

theorem taken_of_room_eq_zero {n : ℕ} (h : session.room = 0) :
    session.taken (n + 1) = { session with status := .failed, room := 0 } :=
  if_neg (by omega)

theorem send_of_table {text : Text} {endpoint : Endpoint} (ht : s.mSessions endpoint = some id) :
    s.sendWebSocketData (text,endpoint) = s.write id text := by
  rw [sendWebSocketData]
  simp only [ht]

/-- Nothing goes to a session that is not open. -/
theorem sends_of_not_opened (hs : s.sessions[id]? = some session)
    (ht : s.mSessions session.endpoint = some id) (hopen : session.status ≠ .opened)
    (messages : List (Text × Endpoint)) (h : ∀ m ∈ messages, m.2 = session.endpoint) :
    Machine.final sendWebSocketData s messages = s ∧
      (Machine.answers sendWebSocketData s messages).flatten = [] := by
  induction messages with
  | nil => exact ⟨rfl,rfl⟩
  | cons m messages ih =>
    obtain ⟨text,endpoint⟩ := m
    obtain ⟨hendpoint,hrest⟩ := List.forall_mem_cons.mp h
    cases hendpoint
    have hstep : s.sendWebSocketData (text,session.endpoint) = (s,[]) := by
      rw [send_of_table ht,write_of_not_opened hs hopen]
    obtain ⟨hfinal,hanswers⟩ := ih hrest
    rw [Machine.final_cons,Machine.answers_cons,hstep,List.flatten_cons]
    exact ⟨hfinal,hanswers⟩

/-- An open session gets as many of its answers as its connection takes. -/
theorem sends_of_opened (hs : s.sessions[id]? = some session)
    (ht : s.mSessions session.endpoint = some id) (hopen : session.status = .opened)
    (messages : List (Text × Endpoint)) (h : ∀ m ∈ messages, m.2 = session.endpoint) :
    Machine.final sendWebSocketData s messages =
        s.modify id (WebSocketSession.taken messages.length) ∧
      (Machine.answers sendWebSocketData s messages).flatten =
        (messages.take session.room).map (fun m => (id,m.1)) := by
  induction messages generalizing s session with
  | nil =>
    refine ⟨?_,by simp [Machine.answers,Machine.trace]⟩
    have hself : s.modify id (WebSocketSession.taken 0) = s.modify id (fun session => session) :=
      modify_congr hs (if_pos (Nat.zero_le _))
    change s = s.modify id (WebSocketSession.taken 0)
    rw [hself]
    exact (congrArg (fun sessions => ({ s with sessions } : WebSocketServer Endpoint))
      (List.modify_id id s.sessions)).symm
  | cons m messages ih =>
    obtain ⟨text,endpoint⟩ := m
    obtain ⟨hendpoint,hrest⟩ := List.forall_mem_cons.mp h
    cases hendpoint
    have hstep := (send_of_table ht).trans (write_of_opened hs hopen text)
    have hs' : (s.modify id (WebSocketSession.taken 1)).sessions[id]? =
        some (session.taken 1) := by
      rw [getElem?_modify,if_pos rfl,hs,Option.map_some]
    have ht' : (s.modify id (WebSocketSession.taken 1)).mSessions (session.taken 1).endpoint =
        some id := by
      rw [WebSocketSession.taken_endpoint]
      exact ht
    rw [Machine.final_cons,Machine.answers_cons,hstep,List.flatten_cons]
    by_cases hroom : session.room = 0
    · -- the first write fails, and with it all that follow
      have hfailed : (session.taken 1).status ≠ .opened := by
        rw [taken_of_room_eq_zero hroom]
        exact StreamStatus.noConfusion
      obtain ⟨hfinal,hanswers⟩ := sends_of_not_opened hs' ht' hfailed messages
        (fun m hm => (hrest m hm).trans (WebSocketSession.taken_endpoint ..).symm)
      rw [hfinal,hanswers,if_pos hroom,hroom]
      refine ⟨modify_congr hs ?_,rfl⟩
      rw [taken_of_room_eq_zero hroom,List.length_cons,taken_of_room_eq_zero hroom]
    · have hopen' : (session.taken 1).status = .opened := by
        rw [WebSocketSession.taken,if_pos (Nat.one_le_iff_ne_zero.mpr hroom)]
        exact hopen
      obtain ⟨hfinal,hanswers⟩ := ih hs' ht' hopen'
        (fun m hm => (hrest m hm).trans (WebSocketSession.taken_endpoint ..).symm)
      rw [hfinal,hanswers,modify_modify,if_neg hroom]
      refine ⟨modify_congr hs (taken_taken_one hroom),?_⟩
      have htaken : (session.taken 1).room = session.room - 1 := by
        rw [WebSocketSession.taken,if_pos (Nat.one_le_iff_ne_zero.mpr hroom)]
      obtain ⟨n,hn⟩ := Nat.exists_eq_succ_of_ne_zero hroom
      rw [htaken,hn]
      rfl

/-- A write to the session has failed, or its handshake or a read from it. -/
def Failed (s : WebSocketServer Endpoint) (id : ℕ) : Prop :=
  ∃ session, s.sessions[id]? = some session ∧ session.status = .failed

/-- What is done to a session in another status leaves a failed one alone. -/
theorem failed_modify {i : ℕ} {status : StreamStatus} (hsession : s.holds i status = some session)
    (hstatus : status ≠ .failed) (f : WebSocketSession Endpoint → WebSocketSession Endpoint)
    (h : s.Failed id) : (s.modify i f).Failed id := by
  obtain ⟨hs,_,hi⟩ := holds_eq_some_iff.mp hsession
  obtain ⟨failed,hf,hfailed⟩ := h
  refine ⟨failed,?_,hfailed⟩
  have hne : i ≠ id := by
    rintro rfl
    rw [hs] at hf
    cases hf
    exact hstatus (hi.symm.trans hfailed)
  rw [getElem?_modify,if_neg hne]
  exact hf

end WebSocketServer

namespace WebSocketDataReceivedFn
variable {γ Data Text Endpoint : Type*}

/-- Whatever the channel sends goes to the endpoint it has just heard from. -/
def Replies (fn : WebSocketDataReceivedFn γ Data Text Endpoint) : Prop :=
  ∀ c data, ∀ m ∈ (fn.received c data).2, m.2 = data.2

end WebSocketDataReceivedFn

namespace WebSocketService
variable {Endpoint γ Data Text : Type*} [DecidableEq Endpoint]
  {fn : WebSocketDataReceivedFn γ Data Text Endpoint} {s : WebSocketService Endpoint γ} {id : ℕ}
  {session : WebSocketSession Endpoint}

omit [DecidableEq Endpoint] in
theorem readData_eq (hfn : fn.Replies) (hsession : s.server.holds id .opened = some session)
    (data : Data) : readData fn s id data =
      (⟨s.server.modify id (WebSocketSession.taken
            (fn.received s.channel (data,session.endpoint)).2.length),
          (fn.received s.channel (data,session.endpoint)).1,
          fn.throws s.channel (data,session.endpoint)⟩,
        .received id (data,session.endpoint) ::
          ((fn.received s.channel (data,session.endpoint)).2.take session.room).map
            (fun m => .sent id m.1)) := by
  obtain ⟨hs,ht,hopen⟩ := WebSocketServer.holds_eq_some_iff.mp hsession
  obtain ⟨hfinal,hanswers⟩ := WebSocketServer.sends_of_opened hs ht hopen
    (fn.received s.channel (data,session.endpoint)).2 (hfn s.channel (data,session.endpoint))
  simp only [readData,hsession,hfinal,hanswers,List.map_map,Function.comp_def]

/-- No handler that runs finds its peer gone. -/
def PeerThere (s : WebSocketService Endpoint γ) : Action Endpoint Data → Prop
  | .acceptThrows => s.stopped = true
  | .readThrows id => s.stopped = true ∨ s.server.holds id .opened = none
  | _ => True

/-- A step reads a message from an open session, or nothing is read and sent; then only a peer
that is gone stops the service. -/
theorem step_cases (fn : WebSocketDataReceivedFn γ Data Text Endpoint)
    (s : WebSocketService Endpoint γ) (action : Action Endpoint Data) :
    ((step fn s action).2 = [] ∧ (step fn s action).1.channel = s.channel ∧
        ((step fn s action).1.stopped = true ↔ s.stopped = true ∨ ¬ PeerThere s action)) ∨
      ∃ id data session, s.server.holds id .opened = some session ∧
        step fn s action = readData fn s id data ∧ action = .readData id data := by
  unfold step
  split_ifs with hstopped
  · exact Or.inl ⟨rfl,rfl,iff_of_true hstopped (Or.inl hstopped)⟩
  have hgoes : s.stopped = true ↔ s.stopped = true ∨ ¬ True := by simp
  cases action with
  | accept endpoint room => exact Or.inl ⟨rfl,rfl,hgoes⟩
  | acceptThrows => exact Or.inl ⟨rfl,rfl,iff_of_true rfl (Or.inr hstopped)⟩
  | acceptHandshake id success => exact Or.inl ⟨rfl,rfl,hgoes⟩
  | readFails id closed => exact Or.inl ⟨rfl,rfl,hgoes⟩
  | removeSession => exact Or.inl ⟨rfl,rfl,hgoes⟩
  | readThrows id =>
    refine Or.inl ?_
    simp only [perform,readThrows,PeerThere,hstopped,false_or,Bool.false_eq_true]
    cases s.server.holds id .opened with
    | none => simp [hstopped]
    | some session => simp [stop]
  | readData id data =>
    cases hsession : s.server.holds id .opened with
    | none =>
      refine Or.inl ?_
      simp only [perform,readData,hsession,true_and]
      exact hgoes
    | some session => exact Or.inr ⟨id,data,session,hsession,rfl,rfl⟩

theorem failed_step (hfn : fn.Replies) (action : Action Endpoint Data) (h : s.server.Failed id) :
    (step fn s action).1.server.Failed id := by
  unfold step
  split_ifs with hstopped
  · exact h
  cases action with
  | accept endpoint room =>
    obtain ⟨failed,hf,hfailed⟩ := h
    refine ⟨failed,?_,hfailed⟩
    exact (List.getElem?_append_left (List.getElem?_eq_some_iff.mp hf).1).trans hf
  | acceptHandshake i success =>
    rw [perform,WebSocketServer.acceptHandshake]
    cases hi : s.server.holds i .handshake with
    | none => exact h
    | some session => exact WebSocketServer.failed_modify hi StreamStatus.noConfusion _ h
  | acceptThrows => exact h
  | readThrows i =>
    rw [perform,server_readThrows]
    exact h
  | readFails i closed =>
    rw [perform,WebSocketServer.readFails]
    cases hi : s.server.holds i .opened with
    | none => exact h
    | some session =>
      dsimp only
      split_ifs
      · exact WebSocketServer.failed_modify hi StreamStatus.noConfusion _ h
      · exact WebSocketServer.failed_modify hi StreamStatus.noConfusion _ h
  | removeSession =>
    rw [perform,WebSocketServer.removeSession]
    split_ifs
    · exact h
    · exact h
  | readData i data =>
    cases hi : s.server.holds i .opened with
    | none =>
      rw [perform,readData,hi]
      exact h
    | some session =>
      rw [perform,readData_eq hfn hi]
      exact WebSocketServer.failed_modify hi StreamStatus.noConfusion _ h

/-! ### Whole runs -/

variable (fn) (s) (id)

def events (actions : List (Action Endpoint Data)) : List (WireEvent Endpoint Data Text) :=
  (Machine.answers (step fn) s actions).flatten

/-- The messages that reach the channel, each with its session. -/
def reads (actions : List (Action Endpoint Data)) : List (ℕ × Data × Endpoint) :=
  (events fn s actions).filterMap WireEvent.read?

/-- What the channel alone answers to the messages of one session. -/
def answersFor (actions : List (Action Endpoint Data)) : List Text :=
  (answersTo some id (reads fn s actions) (Machine.answers fn.received s.channel
    ((reads fn s actions).map Prod.snd))).flatten.map Prod.fst

def sentTo (actions : List (Action Endpoint Data)) : List Text :=
  (events fn s actions).filterMap (WireEvent.sentTo id)

variable {fn} {s} {id}

section Cons
variable {action : Action Endpoint Data} {actions : List (Action Endpoint Data)}

theorem events_cons : events fn s (action :: actions) =
    (step fn s action).2 ++ events fn (step fn s action).1 actions := rfl

theorem sentTo_of_quiet (h : (step fn s action).2 = []) :
    sentTo fn s id (action :: actions) = sentTo fn (step fn s action).1 id actions := by
  rw [sentTo,events_cons,h]
  rfl

theorem reads_of_quiet (h : (step fn s action).2 = []) :
    reads fn s (action :: actions) = reads fn (step fn s action).1 actions := by
  rw [reads,events_cons,h]
  rfl

variable {i : ℕ} {data : Data} (hfn : fn.Replies) (hi : s.server.holds i .opened = some session)
  (hstep : step fn s action = readData fn s i data)
include hfn hi hstep

theorem events_of_read : events fn s (action :: actions) = .received i (data,session.endpoint) ::
    ((fn.received s.channel (data,session.endpoint)).2.take session.room).map
      (fun m => .sent i m.1) ++ events fn (step fn s action).1 actions := by
  rw [events_cons]
  congr 1
  rw [hstep,readData_eq hfn hi]

theorem reads_of_read : reads fn s (action :: actions) =
    (i,data,session.endpoint) :: reads fn (step fn s action).1 actions := by
  have hsilent : ∀ messages : List (Text × Endpoint), (messages.map
      (fun m => (.sent i m.1 : WireEvent Endpoint Data Text))).filterMap WireEvent.read? = [] := by
    intro messages
    rw [List.filterMap_map]
    exact List.filterMap_eq_nil_iff.mpr (fun _ _ => rfl)
  rw [reads,events_of_read hfn hi hstep,List.cons_append,
    List.filterMap_cons_some (f := WireEvent.read?) rfl,
    List.filterMap_append,hsilent]
  rfl

theorem channel_of_read : (step fn s action).1.channel =
    (fn.received s.channel (data,session.endpoint)).1 := by
  rw [hstep,readData_eq hfn hi]

theorem sentTo_of_read : sentTo fn s id (action :: actions) =
    (if i = id then ((fn.received s.channel (data,session.endpoint)).2.take session.room).map
      Prod.fst else []) ++ sentTo fn (step fn s action).1 id actions := by
  rw [sentTo,events_of_read hfn hi hstep,List.cons_append,List.filterMap_cons_none rfl,
    List.filterMap_append,List.filterMap_map]
  congr 1
  split_ifs with hid
  · rw [← List.filterMap_eq_map]
    apply List.filterMap_congr
    intro m _
    exact if_pos hid
  · exact List.filterMap_eq_nil_iff.mpr (fun m _ => if_neg hid)

theorem answersFor_of_read : answersFor fn s id (action :: actions) =
    (if i = id then (fn.received s.channel (data,session.endpoint)).2.map Prod.fst else []) ++
      answersFor fn (step fn s action).1 id actions := by
  rw [answersFor,reads_of_read hfn hi hstep,List.map_cons,Machine.answers_cons,answersFor,
    channel_of_read hfn hi hstep]
  by_cases hid : i = id
  · rw [if_pos hid]
    simp [answersTo,requestTo,hid]
  · rw [if_neg hid]
    simp [answersTo,requestTo,hid]

end Cons

theorem sentTo_of_failed (hfn : fn.Replies) (h : s.server.Failed id)
    (actions : List (Action Endpoint Data)) : sentTo fn s id actions = [] := by
  induction actions generalizing s with
  | nil => rfl
  | cons action actions ih =>
    have hrest := ih (failed_step hfn action h)
    rcases step_cases fn s action with ⟨hquiet,_⟩ | ⟨i,data,session,hi,hstep,_⟩
    · rw [sentTo_of_quiet hquiet]
      exact hrest
    · have hne : i ≠ id := by
        rintro rfl
        obtain ⟨hs,_,hopen⟩ := WebSocketServer.holds_eq_some_iff.mp hi
        obtain ⟨failed,hf,hfailed⟩ := h
        rw [hs] at hf
        cases hf
        rw [hopen] at hfailed
        cases hfailed
      rw [sentTo_of_read hfn hi hstep,if_neg hne]
      exact hrest

theorem channel_final (hfn : fn.Replies) (s : WebSocketService Endpoint γ)
    (actions : List (Action Endpoint Data)) :
    (Machine.final (step fn) s actions).channel =
      Machine.final fn.received s.channel ((reads fn s actions).map Prod.snd) := by
  induction actions generalizing s with
  | nil => rfl
  | cons action actions ih =>
    rw [Machine.final_cons,ih]
    rcases step_cases fn s action with ⟨hquiet,hchannel,_⟩ | ⟨i,data,session,hi,hstep,_⟩
    · rw [hchannel,reads_of_quiet hquiet]
    · rw [reads_of_read hfn hi hstep,List.map_cons,Machine.final_cons,
        channel_of_read hfn hi hstep]

/-- No write to the session fails: its connection takes the answers to what is read from it. -/
def Takes (fn : WebSocketDataReceivedFn γ Data Text Endpoint) (id : ℕ)
    (s : WebSocketService Endpoint γ) : Action Endpoint Data → Prop
  | .readData i data => s.stopped = true ∨ i ≠ id ∨
      ∀ session, s.server.holds id .opened = some session →
        (fn.received s.channel (data,session.endpoint)).2.length ≤ session.room
  | _ => True

theorem takes_of_quiet {action : Action Endpoint Data} (h : (step fn s action).2 = []) :
    Takes fn id s action := by
  cases action with
  | readData i data =>
    by_cases hstopped : s.stopped = true
    · exact Or.inl hstopped
    refine Or.inr (or_iff_not_imp_left.mpr (fun hid session hsession => ?_))
    obtain rfl := not_not.mp hid
    rw [step,if_neg hstopped,perform,readData,hsession] at h
    cases h
  | accept endpoint room => trivial
  | acceptThrows => trivial
  | acceptHandshake i success => trivial
  | readThrows i => trivial
  | readFails i closed => trivial
  | removeSession => trivial

/-- The answers to a session reach it in order, without one left out, up to the first write
that fails; and all of them exactly if none fails. -/
theorem sentTo_isPrefix (hfn : fn.Replies) (s : WebSocketService Endpoint γ)
    (actions : List (Action Endpoint Data)) (id : ℕ) :
    sentTo fn s id actions <+: answersFor fn s id actions ∧
      (sentTo fn s id actions = answersFor fn s id actions ↔
        Machine.StepsMeet (step fn) (Takes fn id) s actions) := by
  induction actions generalizing s with
  | nil => exact ⟨List.prefix_rfl,iff_of_true rfl trivial⟩
  | cons action actions ih =>
    obtain ⟨hfront,hall⟩ := ih (step fn s action).1
    rcases step_cases fn s action with ⟨hquiet,hchannel,_⟩ | ⟨i,data,session,hi,hstep,rfl⟩
    · have hanswers : answersFor fn s id (action :: actions) =
          answersFor fn (step fn s action).1 id actions := by
        rw [answersFor,reads_of_quiet hquiet,answersFor,hchannel]
      rw [sentTo_of_quiet hquiet,hanswers]
      exact ⟨hfront,hall.trans (and_iff_right (takes_of_quiet hquiet)).symm⟩
    rw [sentTo_of_read hfn hi hstep,answersFor_of_read hfn hi hstep]
    by_cases hid : i = id
    · subst hid
      rw [if_pos rfl,if_pos rfl]
      by_cases hroom : (fn.received s.channel (data,session.endpoint)).2.length ≤ session.room
      · rw [List.take_of_length_le hroom]
        refine ⟨(List.prefix_append_right_inj _).mpr hfront,?_⟩
        rw [List.append_cancel_left_eq,hall]
        refine (and_iff_right (Or.inr (Or.inr ?_))).symm
        intro session' hi'
        rw [hi] at hi'
        cases hi'
        exact hroom
      · -- the connection breaks within these answers
        obtain ⟨hs,_,_⟩ := WebSocketServer.holds_eq_some_iff.mp hi
        have hfailed : (step fn s (.readData i data)).1.server.Failed i := by
          rw [hstep,readData_eq hfn hi]
          refine ⟨{ session with status := .failed, room := 0 },?_,rfl⟩
          rw [WebSocketServer.getElem?_modify,if_pos rfl,hs,Option.map_some,
            WebSocketSession.taken,if_neg hroom]
        rw [sentTo_of_failed hfn hfailed,List.append_nil]
        refine ⟨((List.take_prefix ..).map _).trans (List.prefix_append ..),?_⟩
        refine iff_of_false (fun heq => ?_) (fun hmeet => ?_)
        · have hlength := congrArg List.length heq
          simp only [List.length_map,List.length_take,List.length_append] at hlength
          omega
        · rcases hmeet.1 with hstopped | hne | htakes
          · rw [step,if_pos hstopped] at hstep
            have hevents := congrArg Prod.snd hstep
            rw [readData_eq hfn hi] at hevents
            cases hevents
          · exact hne rfl
          · exact hroom (htakes session hi)
    · rw [if_neg hid,if_neg hid]
      exact ⟨hfront,hall.trans (and_iff_right (Or.inr (Or.inl hid))).symm⟩

/-! ### Exceptions -/

theorem reads_of_stopped (h : s.stopped = true) (actions : List (Action Endpoint Data)) :
    reads fn s actions = [] ∧ (Machine.final (step fn) s actions).stopped = true := by
  induction actions with
  | nil => exact ⟨rfl,h⟩
  | cons action actions ih =>
    have hstep : step fn s action = (s,[]) := if_pos h
    rw [Machine.final_cons,reads_of_quiet (by rw [hstep]),hstep]
    exact ih

/-- Where it can be told from a message alone that the channel throws for it, the service
stops at the first such message or at the first peer that is gone, and never before. -/
theorem stopped_final_iff (hfn : fn.Replies) {I : γ → Prop} {p : Data × Endpoint → Prop}
    (hI : ∀ c data, I c → I (fn.received c data).1)
    (hp : ∀ c data, I c → (fn.throws c data = true ↔ p data)) (s : WebSocketService Endpoint γ)
    (hs : I s.channel) (hrun : s.stopped = false) (actions : List (Action Endpoint Data)) :
    (∀ r ∈ (reads fn s actions).dropLast, ¬ p r.2) ∧
      ((Machine.final (step fn) s actions).stopped = true ↔
        (∃ r ∈ (reads fn s actions).getLast?, p r.2) ∨
          ¬ Machine.StepsMeet (step fn) PeerThere s actions) := by
  induction actions generalizing s with
  | nil =>
    refine ⟨fun _ hr => absurd hr List.not_mem_nil,?_⟩
    refine iff_of_false (fun h => Bool.false_ne_true (hrun.symm.trans h)) ?_
    rintro (⟨r,hr,_⟩ | hmeet)
    · cases hr
    · exact hmeet trivial
  | cons action actions ih =>
    rw [Machine.final_cons]
    rcases step_cases fn s action with ⟨hquiet,hchannel,hstopped⟩ | ⟨i,data,session,hi,hstep,rfl⟩
    · rw [reads_of_quiet hquiet]
      by_cases hthere : PeerThere s action
      · have hgoes : (step fn s action).1.stopped = false := by
          rw [← Bool.not_eq_true,hstopped,hrun]
          rintro (h | h)
          · exact Bool.false_ne_true h
          · exact h hthere
        obtain ⟨hearlier,hfinal⟩ := ih _ (hchannel ▸ hs) hgoes
        refine ⟨hearlier,hfinal.trans (or_congr_right (not_congr ?_))⟩
        exact (and_iff_right hthere).symm
      · obtain ⟨hnil,hfinal⟩ := reads_of_stopped (hstopped.mpr (Or.inr hthere)) actions
        rw [hnil]
        exact ⟨fun _ hr => absurd hr List.not_mem_nil,
          iff_of_true hfinal (Or.inr (fun hmeet => hthere hmeet.1))⟩
    have hstopped : (step fn s (.readData i data)).1.stopped =
        fn.throws s.channel (data,session.endpoint) := by
      rw [hstep,readData_eq hfn hi]
    have hthrows := hp s.channel (data,session.endpoint) hs
    rw [reads_of_read hfn hi hstep]
    by_cases hread : p (data,session.endpoint)
    · have hstop := hstopped.trans (hthrows.mpr hread)
      obtain ⟨hnil,hfinal⟩ := reads_of_stopped hstop actions
      rw [hnil]
      exact ⟨fun _ hr => absurd hr List.not_mem_nil,
        iff_of_true hfinal (Or.inl ⟨_,rfl,hread⟩)⟩
    have hgoes := hstopped.trans (Bool.eq_false_iff.mpr (fun h => hread (hthrows.mp h)))
    have hs' : I (step fn s (.readData i data)).1.channel := by
      rw [channel_of_read hfn hi hstep]
      exact hI _ _ hs
    obtain ⟨hearlier,hfinal⟩ := ih _ hs' hgoes
    have hmeets : Machine.StepsMeet (step fn) PeerThere s (.readData i data :: actions) ↔
        Machine.StepsMeet (step fn) PeerThere (step fn s (.readData i data)).1 actions :=
      and_iff_right trivial
    rw [hfinal,hmeets]
    cases hrest : reads fn (step fn s (.readData i data)).1 actions with
    | nil =>
      refine ⟨fun _ hr => absurd hr List.not_mem_nil,or_congr_left (iff_of_false ?_ ?_)⟩
      · rintro ⟨r,hr,_⟩
        cases hr
      · rintro ⟨r,hr,hpr⟩
        cases hr
        exact hread hpr
    | cons r rest =>
      rw [hrest] at hearlier
      refine ⟨?_,Iff.rfl⟩
      rw [List.dropLast_cons_of_ne_nil (List.cons_ne_nil r rest)]
      exact List.forall_mem_cons.mpr ⟨hread,hearlier⟩

end WebSocketService
end Moboware
