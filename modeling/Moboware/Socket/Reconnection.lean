import Mathlib.Algebra.Ring.Parity
import Mathlib.Data.List.Count
import Moboware.Socket.SocketServer

/-! # Reconnecting clients

An endpoint with an entry in the table is not served: `emplace` finds the entry, and the
server erases it instead of the one it has not made. The entry of a closed session stays
until its removal runs, for the tcp server until the client connects once more.
-/
namespace Moboware
open Library

namespace SocketServer
variable {Endpoint : Type*}

/-- A new connection whose handshake succeeds is the one in the table, and data reaches it. -/
def Served [DecidableEq Endpoint] (kind : ServerKind) (s : SocketServer Endpoint)
    (endpoint : Endpoint) : Prop :=
  (accept kind s endpoint true).1.mSessions endpoint = some s.sessions.length ∧
    (accept kind s endpoint true).1.sendSocketData endpoint = some s.sessions.length

instance [DecidableEq Endpoint] (kind : ServerKind) (s : SocketServer Endpoint)
    (endpoint : Endpoint) : Decidable (Served kind s endpoint) :=
  inferInstanceAs (Decidable (_ ∧ _))

/-- The entry of an endpoint is a session of it; where every close of a session of the endpoint
posts its removal, the session is open or about to be removed. -/
def CurrentAt (posts : Endpoint → Prop) (s : SocketServer Endpoint) (endpoint : Endpoint) : Prop :=
  ∀ id, s.mSessions endpoint = some id → ∃ session, s.sessions[id]? = some session ∧
    session.endpoint = endpoint ∧
      (posts endpoint → session.isOpen = true ∨ endpoint ∈ s.posted)

def Current (posts : Endpoint → Prop) (s : SocketServer Endpoint) : Prop :=
  ∀ endpoint, CurrentAt posts s endpoint

/-- Whatever is posted: the entry of an endpoint is a session of it. -/
abbrev Stored (s : SocketServer Endpoint) : Prop := Current (fun _ => False) s

section Steps
variable {kind : ServerKind} {posts : Endpoint → Prop} {s : SocketServer Endpoint}

theorem current_start : Current posts (start : SocketServer Endpoint) := by
  intro endpoint id hentry
  exact absurd hentry (Option.some_ne_none id).symm

/-- A session may close when its removal is posted. -/
theorem CurrentAt.modify {endpoint : Endpoint} (hs : CurrentAt posts s endpoint) {changed : ℕ}
    {f : SocketSession Endpoint → SocketSession Endpoint}
    (hendpoint : ∀ session, (f session).endpoint = session.endpoint)
    (hopen : ∀ session, s.sessions[changed]? = some session → session.endpoint = endpoint →
      posts endpoint → (f session).isOpen = session.isOpen ∨ endpoint ∈ s.posted) :
    CurrentAt posts (s.modify changed f) endpoint := by
  intro id hentry
  obtain ⟨session,hsession,he,hlive⟩ := hs id hentry
  rw [getElem?_modify]
  split_ifs with hi
  · subst hi
    refine ⟨f session,congrArg (Option.map f) hsession,(hendpoint session).trans he,?_⟩
    intro hposts
    rcases hopen session hsession he hposts with hf | hposted
    · rw [hf]
      exact hlive hposts
    · exact Or.inr hposted
  · exact ⟨session,hsession,he,hlive⟩

theorem CurrentAt.append {endpoint : Endpoint} (hs : CurrentAt posts s endpoint)
    (session : SocketSession Endpoint) : CurrentAt posts (s.append session) endpoint := by
  intro id hentry
  obtain ⟨old,hold,hlive⟩ := hs id hentry
  obtain ⟨hlt,-⟩ := List.getElem?_eq_some_iff.mp hold
  exact ⟨old,(List.getElem?_append_left hlt).trans hold,hlive⟩

theorem CurrentAt.post {endpoint : Endpoint} (hs : CurrentAt posts s endpoint)
    (endpoints : List Endpoint) :
    CurrentAt posts { s with posted := s.posted ++ endpoints } endpoint := by
  intro id hentry
  obtain ⟨session,hsession,he,hlive⟩ := hs id hentry
  exact ⟨session,hsession,he,fun hp => (hlive hp).imp_right (List.mem_append_left _)⟩

theorem Current.cleanup (hs : Current posts s) (id : ℕ) : Current posts (cleanup kind s id) := by
  cases hsession : s.sessions[id]? with
  | none =>
    rw [cleanup_eq_of_none hsession]
    exact hs
  | some session =>
    rw [cleanup_eq hsession]
    exact fun endpoint => (hs endpoint).post _

theorem Current.waits (hs : Current posts s) (id : ℕ)
    {f : SocketSession Endpoint → SocketSession Endpoint}
    (hendpoint : ∀ session, (f session).endpoint = session.endpoint)
    (hopen : ∀ session, (f session).isOpen = session.isOpen) : Current posts (s.modify id f) :=
  fun endpoint => (hs endpoint).modify hendpoint (fun session _ _ _ => Or.inl (hopen session))

theorem Current.lt_length (hs : Current posts s) {endpoint : Endpoint} {id : ℕ}
    (hentry : s.mSessions endpoint = some id) : id < s.sessions.length := by
  obtain ⟨session,hsession,-⟩ := hs endpoint id hentry
  exact (List.getElem?_eq_some_iff.mp hsession).choose

theorem Current.endpoint_eq (hs : Current posts s) {endpoint : Endpoint} (id : ℕ)
    (session : SocketSession Endpoint) (hentry : s.mSessions endpoint = some id)
    (hsession : s.sessions[id]? = some session) : session.endpoint = endpoint := by
  obtain ⟨found,hfound,he,-⟩ := hs endpoint id hentry
  obtain rfl := Option.some_inj.mp (hsession.symm.trans hfound)
  exact he

/-- The session whose write fails is one of the endpoint. -/
theorem Current.writeFails (hs : Current posts s) {endpoint : Endpoint} (hnot : ¬ posts endpoint) :
    Current posts (s.writeFails endpoint) := by
  unfold SocketServer.writeFails
  split
  · exact hs
  case h_2 id hid =>
    intro other
    apply (hs other).modify SocketSession.close_endpoint
    intro session hsession he hposts
    obtain ⟨hentry,-⟩ := sendSocketData_eq_some_iff.mp hid
    rw [← he,hs.endpoint_eq id session hentry hsession] at hposts
    exact absurd hposts hnot

section Closing
variable (hkind : ∀ endpoint, posts endpoint → kind.postsRemoval = true)
include hkind

theorem Current.handleClosedSocket (hs : Current posts s) (id : ℕ) :
    Current posts (handleClosedSocket kind s id) := by
  cases hsession : s.sessions[id]? with
  | none =>
    rw [handleClosedSocket_eq_of_none hsession]
    exact hs
  | some session =>
    intro endpoint
    apply (hs.cleanup id endpoint).modify SocketSession.close_endpoint
    rw [cleanup_eq hsession]
    intro found hfound he hposts
    obtain rfl := Option.some_inj.mp (hsession.symm.trans hfound)
    right
    rw [if_pos (hkind endpoint hposts),he]
    exact List.mem_append_right _ (List.mem_singleton_self endpoint)

theorem Current.readData (hs : Current posts s) (id : ℕ) : Current posts (readData kind s id) := by
  unfold SocketServer.readData
  split
  · exact hs
  · split_ifs
    · have hhandled : Current posts (s.modify id SocketSession.handled) :=
        hs.waits id (fun _ => rfl) (fun _ => rfl)
      exact hhandled.handleClosedSocket hkind id
    · exact hs

theorem Current.sendFails (hs : Current posts s) (endpoint : Endpoint) :
    Current posts (sendFails kind s endpoint) := by
  unfold SocketServer.sendFails
  split
  · exact hs
  · exact hs.handleClosedSocket hkind _

theorem Current.streamCloses (hs : Current posts s) (id : ℕ) :
    Current posts (streamCloses kind s id) := by
  unfold SocketServer.streamCloses
  split_ifs
  · exact hs.handleClosedSocket hkind id
  · exact hs

end Closing

section Table
variable [DecidableEq Endpoint]

/-- The entry that is erased may be of a session that has closed. -/
theorem current_erase {endpoint : Endpoint} (hs : ∀ other ≠ endpoint, CurrentAt posts s other)
    (hentry : ∀ id session, s.mSessions endpoint = some id → s.sessions[id]? = some session →
      session.endpoint = endpoint) : Current posts (s.erase endpoint) := by
  unfold erase
  split
  case h_1 hnone =>
    intro other id hid
    by_cases ho : other = endpoint
    · rw [ho,hnone] at hid
      exact absurd hid (Option.some_ne_none id).symm
    · exact hs other ho id hid
  case h_2 old hold =>
    intro other id hid
    dsimp only at hid
    by_cases ho : other = endpoint
    · rw [ho,Function.update_self] at hid
      exact absurd hid (Option.some_ne_none id).symm
    · rw [Function.update_of_ne ho] at hid
      have hmodify : CurrentAt posts (s.modify old SocketSession.close) other := by
        apply (hs other ho).modify SocketSession.close_endpoint
        intro session hsession he
        exact absurd (he.symm.trans (hentry old session hold hsession)) ho
      exact hmodify id hid

theorem Current.accept (hs : Current posts s) (endpoint : Endpoint) (handshake : Bool) :
    Current posts (accept kind s endpoint handshake).1 := by
  cases hm : s.mSessions endpoint with
  | some old =>
    rw [accept_eq_of_taken hm (hs.lt_length hm)]
    have herase : Current posts (s.erase endpoint) :=
      current_erase (fun other _ => hs other) hs.endpoint_eq
    exact fun other => (herase other).append _
  | none =>
    cases ha : kind.acceptsSession handshake with
    | false =>
      rw [accept_eq_of_refused hm ha]
      exact fun other => (hs other).append _
    | true =>
      rw [accept_eq_of_free hm ha]
      intro other id hid
      dsimp only at hid
      by_cases ho : other = endpoint
      · subst ho
        rw [Function.update_self,Option.some_inj] at hid
        subst hid
        exact ⟨_,List.getElem?_concat_length ..,rfl,fun _ => Or.inl rfl⟩
      · rw [Function.update_of_ne ho] at hid
        exact (hs other).append _ id hid

theorem Current.removeSession (hs : Current posts s) (endpoint : Endpoint) :
    Current posts (s.removeSession endpoint).1 := by
  unfold SocketServer.removeSession
  split_ifs with hposted
  · have hothers : ∀ other ≠ endpoint,
        CurrentAt posts { s with posted := s.posted.erase endpoint } other := by
      intro other ho id hid
      obtain ⟨session,hsession,he,hlive⟩ := hs other id hid
      exact ⟨session,hsession,he,fun hp =>
        (hlive hp).imp_right (List.mem_erase_of_ne ho).mpr⟩
    unfold checkClosedSessions
    dsimp only
    split
    case h_1 hnone =>
      intro other id hid
      by_cases ho : other = endpoint
      · rw [ho] at hid
        exact absurd (hid.symm.trans hnone) (Option.some_ne_none id)
      · exact hothers other ho id hid
    case h_2 id hid =>
      split_ifs with hopen
      · intro other i hi
        by_cases ho : other = endpoint
        · subst ho
          obtain rfl := Option.some_inj.mp (hid.symm.trans hi)
          obtain ⟨session,hsession,he,-⟩ := hs other id hid
          have hso := isOpen_eq s hsession
          exact ⟨session,hsession,he,fun _ => Or.inl (hso.symm.trans hopen)⟩
        · exact hothers other ho i hi
      · exact current_erase hothers hs.endpoint_eq
  · exact hs

theorem Current.step (hkind : ∀ endpoint, posts endpoint → kind.postsRemoval = true)
    (hs : Current posts s) {action : Action Endpoint}
    (hwrites : kind = .web → ∀ endpoint, posts endpoint → action ≠ .writeFails endpoint) :
    Current posts (step kind s action).1 := by
  unfold SocketServer.step
  split_ifs with harises
  · cases action with
    | accept endpoint handshake => exact hs.accept endpoint handshake
    | readFails id => exact hs.waits id (fun _ => rfl) (fun _ => rfl)
    | readData id => exact hs.readData hkind id
    | sendFails endpoint => exact hs.sendFails hkind endpoint
    | writeFails endpoint =>
      exact hs.writeFails (fun hposts => hwrites (of_decide_eq_true harises) endpoint hposts rfl)
    | streamCloses id => exact hs.streamCloses hkind id
    | cleanup id => exact hs.cleanup id
    | removeSession endpoint => exact hs.removeSession endpoint
  · exact hs

end Table
end Steps

theorem current_final [DecidableEq Endpoint] {kind : ServerKind} {posts : Endpoint → Prop}
    (hkind : ∀ endpoint, posts endpoint → kind.postsRemoval = true)
    (actions : List (Action Endpoint))
    (hwrites : kind = .web → ∀ endpoint, posts endpoint → .writeFails endpoint ∉ actions) :
    Current posts (Machine.final (step kind) start actions) := by
  have hnone : ∀ action ∈ actions, kind = .web → ∀ endpoint, posts endpoint →
      action ≠ .writeFails endpoint :=
    fun action h hweb endpoint hposts => ne_of_mem_of_not_mem h (hwrites hweb endpoint hposts)
  exact Machine.final_invariant (C := fun _ action => kind = .web → ∀ endpoint, posts endpoint →
    action ≠ .writeFails endpoint) (fun _ _ hs hw => hs.step hkind hw) current_start
    (Machine.stepsMeet_of_forall hnone)

theorem stored_final [DecidableEq Endpoint] (kind : ServerKind) (actions : List (Action Endpoint)) :
    Stored (Machine.final (step kind) start actions) :=
  current_final (fun _ h => h.elim) actions (fun _ _ h => h.elim)

/-! ### The tcp server

Nothing is posted, so only connections change the table.
-/

section Unposted
variable {kind : ServerKind} {s : SocketServer Endpoint}

theorem posted_handleClosedSocket_of_unposted (hkind : kind.postsRemoval = false) (id : ℕ) :
    (handleClosedSocket kind s id).posted = s.posted := by
  cases hs : s.sessions[id]? with
  | none => rw [handleClosedSocket_eq_of_none hs]
  | some session =>
    rw [posted_handleClosedSocket hs,hkind]
    exact List.append_nil _

theorem handlers_readData (kind : ServerKind) (s : SocketServer Endpoint)
    (hkind : kind.postsRemoval = false) (id : ℕ) :
    (readData kind s id).mSessions = s.mSessions ∧ (readData kind s id).posted = s.posted := by
  unfold readData
  split
  · exact ⟨rfl,rfl⟩
  · split_ifs
    · exact ⟨mSessions_handleClosedSocket,posted_handleClosedSocket_of_unposted hkind id⟩
    · exact ⟨rfl,rfl⟩

theorem handlers_sendFails (kind : ServerKind) (s : SocketServer Endpoint)
    (hkind : kind.postsRemoval = false) (endpoint : Endpoint) :
    (sendFails kind s endpoint).mSessions = s.mSessions ∧
      (sendFails kind s endpoint).posted = s.posted := by
  unfold sendFails
  split
  · exact ⟨rfl,rfl⟩
  · exact ⟨mSessions_handleClosedSocket,posted_handleClosedSocket_of_unposted hkind _⟩

variable [DecidableEq Endpoint]

/-- A connection from the endpoint. -/
def Action.connects (endpoint : Endpoint) : Action Endpoint → Bool
  | .accept remote _ => remote = endpoint
  | _ => false

/-- The connections of an endpoint take its entry and free it in turn. -/
theorem tcp_accept (hs : Stored s) (endpoint remote : Endpoint) (handshake : Bool) :
    ((accept .tcp s remote handshake).1.mSessions endpoint = none ↔
      (s.mSessions endpoint = none ↔ remote ≠ endpoint)) ∧
    (accept .tcp s remote handshake).1.posted = s.posted := by
  cases hm : s.mSessions remote with
  | none =>
    rw [accept_eq_of_free hm rfl]
    refine ⟨?_,rfl⟩
    by_cases he : remote = endpoint
    · subst he
      simp [hm]
    · simp [he,Function.update_of_ne (Ne.symm he)]
  | some old =>
    rw [accept_eq_of_taken hm (hs.lt_length hm)]
    refine ⟨?_,erase_posted s remote⟩
    by_cases he : remote = endpoint
    · subst he
      simp [hm]
    · simp [he,Function.update_of_ne (Ne.symm he)]

theorem tcp_step (hs : Stored s) (hposted : s.posted = []) (endpoint : Endpoint)
    (action : Action Endpoint) :
    ((step .tcp s action).1.mSessions endpoint = none ↔
      (s.mSessions endpoint = none ↔ action.connects endpoint = false)) ∧
    (step .tcp s action).1.posted = [] := by
  have hsame (t : SocketServer Endpoint) (hm : t.mSessions = s.mSessions)
      (hp : t.posted = s.posted) : (t.mSessions endpoint = none ↔
        (s.mSessions endpoint = none ↔ false = false)) ∧ t.posted = [] := by
    rw [hm,hp,hposted]
    exact ⟨(iff_true_right rfl).symm,rfl⟩
  cases action with
  | accept remote handshake =>
    have ha := tcp_accept hs endpoint remote handshake
    rw [hposted] at ha
    refine ⟨ha.1.trans ?_,ha.2⟩
    simp [Action.connects]
  | readFails id => exact hsame _ rfl rfl
  | readData id =>
    have hframe := handlers_readData .tcp s rfl id
    exact hsame _ hframe.1 hframe.2
  | sendFails remote =>
    have hframe := handlers_sendFails .tcp s rfl remote
    exact hsame _ hframe.1 hframe.2
  | writeFails remote => exact hsame _ rfl rfl
  | streamCloses id => exact hsame _ rfl rfl
  | cleanup id => exact hsame _ rfl rfl
  | removeSession remote =>
    have hnone : s.removeSession remote = (s,[]) := by
      rw [removeSession,hposted]
      exact if_neg List.not_mem_nil
    change (((s.removeSession remote).1.mSessions endpoint = none ↔ _) ∧
      (s.removeSession remote).1.posted = [])
    rw [hnone]
    exact hsame s rfl rfl

/-- An endpoint is free after an even number of its connections. -/
theorem tcp_final (endpoint : Endpoint) (actions : List (Action Endpoint)) (hs : Stored s)
    (hposted : s.posted = []) :
    (Machine.final (step .tcp) s actions).mSessions endpoint = none ↔
      (s.mSessions endpoint = none ↔ Even (actions.countP (Action.connects endpoint))) := by
  induction actions generalizing s with
  | nil => simp [Machine.final]
  | cons action actions ih =>
    obtain ⟨hm,hp⟩ := tcp_step hs hposted endpoint action
    have hrest := ih (hs.step (fun _ h => h.elim) (fun _ _ h => h.elim)) hp
    rw [Machine.final,List.foldl_cons]
    refine hrest.trans ?_
    rw [hm]
    cases hc : action.connects endpoint with
    | false =>
      rw [List.countP_cons_of_neg (Bool.not_eq_true _ ▸ hc),iff_true_right rfl]
    | true =>
      have htrue : ¬ (true = false) := Bool.noConfusion
      rw [List.countP_cons_of_pos hc,Nat.even_add_one,iff_false_right htrue,not_iff_comm]
      exact iff_comm

end Unposted

/-! ### Reconnecting -/

section Reconnecting
variable {kind : ServerKind} {s : SocketServer Endpoint} {endpoint : Endpoint}

theorem acceptsSession_true (kind : ServerKind) : kind.acceptsSession true = true := by
  cases kind with
  | web => rfl
  | ssl => rfl
  | tcp => rfl

/-- Once the removal of a closed session has run, its endpoint is free. -/
theorem free_of_removed {posts : Endpoint → Prop} (hs : Current posts s) (hposts : posts endpoint)
    (hclosed : ∀ session ∈ s.sessions, session.endpoint = endpoint → session.isOpen = false)
    (hremoved : endpoint ∉ s.posted) : s.mSessions endpoint = none := by
  cases hm : s.mSessions endpoint with
  | none => rfl
  | some id =>
    obtain ⟨session,hsession,he,hlive⟩ := hs endpoint id hm
    have hnot := hclosed session (List.mem_of_getElem? hsession) he
    rcases hlive hposts with hopen | hposted
    · exact absurd (hopen.symm.trans hnot) Bool.noConfusion
    · exact absurd hposted hremoved

variable [DecidableEq Endpoint]

theorem served_of_free (hfree : s.mSessions endpoint = none) : Served kind s endpoint := by
  have haccept := accept_eq_of_free hfree (acceptsSession_true kind)
  have hentry : (accept kind s endpoint true).1.mSessions endpoint = some s.sessions.length := by
    rw [haccept]
    exact Function.update_self ..
  refine ⟨hentry,sendSocketData_eq_some_iff.mpr ⟨hentry,?_⟩⟩
  have hnew : (accept kind s endpoint true).1.sessions[s.sessions.length]? =
      some (SocketSession.makeShared endpoint).await := by
    rw [haccept]
    exact List.getElem?_concat_length ..
  exact isOpen_eq _ hnew

/-- The table must not hold the endpoint. -/
theorem served_iff (hs : Stored s) :
    Served kind s endpoint ↔ s.mSessions endpoint = none := by
  refine ⟨?_,served_of_free⟩
  intro hserved
  cases hm : s.mSessions endpoint with
  | none => rfl
  | some old =>
    have hentry := hserved.1
    rw [accept_eq_of_taken hm (hs.lt_length hm)] at hentry
    simp at hentry

end Reconnecting

/-- In every reachable state without an open session of the endpoint, a new connection is
served exactly when the table has no entry for it: for the web and the ssl server at the
latest when no removal of the endpoint is posted, where no write to a web session of the
endpoint has failed, which closes it and posts nothing; for the tcp server after an even
number of connections from it. -/
theorem reconnect_served_iff [DecidableEq Endpoint] (kind : ServerKind)
    (actions : List (Action Endpoint)) (endpoint : Endpoint)
    (hclosed : ∀ session ∈ (Machine.final (step kind) start actions).sessions,
      session.endpoint = endpoint → session.isOpen = false) :
    (Served kind (Machine.final (step kind) start actions) endpoint ↔
      (Machine.final (step kind) start actions).mSessions endpoint = none) ∧
    (kind.postsRemoval = true → (kind = .web → .writeFails endpoint ∉ actions) →
      endpoint ∉ (Machine.final (step kind) start actions).posted →
        Served kind (Machine.final (step kind) start actions) endpoint) ∧
    (kind.postsRemoval = false →
      (Served kind (Machine.final (step kind) start actions) endpoint ↔
        Even (actions.countP (Action.connects endpoint)))) := by
  have hs := stored_final kind actions
  refine ⟨served_iff hs,?_,?_⟩
  · intro hposts hwrites hremoved
    have hcurrent : Current (fun e => e = endpoint) (Machine.final (step kind) start actions) :=
      current_final (fun _ _ => hposts) actions (fun hweb e he => he ▸ hwrites hweb)
    exact served_of_free (free_of_removed hcurrent rfl hclosed hremoved)
  · intro hkind
    cases kind with
    | web => exact absurd hkind Bool.noConfusion
    | ssl => exact absurd hkind Bool.noConfusion
    | tcp =>
      rw [served_iff hs,tcp_final endpoint actions current_start rfl]
      exact iff_true_left rfl

/-- After a failed write the web server keeps the entry with nothing left to run. -/
example : let s := Machine.final (step .web) start [.accept 0 true,.writeFails 0]
    s.posted = [] ∧ ¬ Served .web s 0 := by decide

theorem reconnect_served_iff_removed :
    Served .ssl (Machine.final (step .ssl) start
      [.accept 0 true,.readFails 0,.readData 0,.removeSession 0]) 0 :=
  (reconnect_served_iff .ssl [.accept 0 true,.readFails 0,.readData 0,.removeSession 0] 0
    (by decide)).1.mpr (by decide)

/-- Each server drops a client that reconnects when its session has closed: the web and the
ssl server before the removal has run, the tcp server with nothing left to run. -/
theorem reconnect_dropped :
    ¬ (∀ (kind : ServerKind) (actions : List (Action ℕ)) (endpoint : ℕ),
      (∀ session ∈ (Machine.final (step kind) start actions).sessions,
        session.endpoint = endpoint → session.isOpen = false) →
      Served kind (Machine.final (step kind) start actions) endpoint) ∧
    ¬ Served .web (Machine.final (step .web) start [.accept 0 true,.streamCloses 0]) 0 ∧
    ¬ Served .ssl (Machine.final (step .ssl) start
      [.accept 0 true,.readFails 0,.readData 0]) 0 ∧
    ¬ Served .tcp (Machine.final (step .tcp) start
      [.accept 0 true,.readFails 0,.readData 0]) 0 := by
  have htcp : ¬ Served .tcp (Machine.final (step .tcp) start
    [.accept 0 true,.readFails 0,.readData 0]) 0 := by decide
  refine ⟨?_,by decide,by decide,htcp⟩
  intro hall
  exact htcp (hall .tcp [.accept 0 true,.readFails 0,.readData 0] 0 (by decide))

end SocketServer
end Moboware
