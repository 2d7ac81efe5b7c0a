import Mathlib.Data.List.Nodup
import Moboware.Socket.Reconnection

/-! # Cleanup of closed sessions

A session is closed by its reader or by a writer. The writer's close cancels the wait of the
reader, which then closes the session again. Every close of an ssl session posts a removal,
and every removal reports the session closed; no close of a tcp session does either.
-/
namespace Moboware
open Library

/-! ### One session -/

namespace SocketSession
variable {Endpoint : Type*}

/-- The removals of a session, and its handler that may still post one, come to one; the tcp
server posts none, so its sessions must not close. -/
def Once (kind : ServerKind) (session : SocketSession Endpoint) (handled : ℕ) : Prop :=
  if kind.postsRemoval then handled + (if session.readWait = .idle then 0 else 1) = 1
  else session.readWait = .pending

/-- An open session is waited for and not removed; a closed one is not waited for, and
where removals are posted has one unless its handler is queued. -/
structure Sound (kind : ServerKind) (session : SocketSession Endpoint) (handled : ℕ)
    (connected : Prop) : Prop where
  waits : session.isOpen = true → session.readWait ≠ .idle ∧ handled = 0
  closed : session.isOpen = false → session.readWait ≠ .pending
  unconnected : ¬ connected → session.isOpen = false ∧ session.readWait = .idle
  posted : kind.postsRemoval = true → connected → session.readWait = .idle → 1 ≤ handled
  unposted : kind.postsRemoval = false → handled = 0

/-- What a step makes of one session: it stays sound, and it is removed once after the
step if it was before and the step meets the condition. -/
structure Advances (kind : ServerKind) (connected condition : Prop)
    (session : SocketSession Endpoint) (handled : ℕ) (session' : SocketSession Endpoint)
    (handled' : ℕ) : Prop where
  sound : Sound kind session' handled' connected
  once : connected → (Once kind session' handled' ↔ Once kind session handled ∧ condition)
  unconnected : ¬ connected → condition

section OneSession
variable {kind : ServerKind} {session : SocketSession Endpoint} {handled : ℕ} {connected : Prop}

theorem cancel_eq_idle_iff (wait : ReadWait) : wait.cancel = .idle ↔ wait = .idle := by
  cases wait <;> simp [ReadWait.cancel]

theorem cancel_ne_pending (wait : ReadWait) : wait.cancel ≠ .pending := by
  cases wait <;> simp [ReadWait.cancel]

/-- The removals that one close adds. -/
def removals (kind : ServerKind) : ℕ := if kind.postsRemoval then 1 else 0

theorem once_of_posts (hk : kind.postsRemoval = true) : Once kind session handled ↔
    handled + (if session.readWait = .idle then 0 else 1) = 1 := by
  rw [Once,if_pos hk]

theorem once_of_unposted (hk : kind.postsRemoval = false) : Once kind session handled ↔
    session.readWait = .pending := by
  rw [Once,hk]
  exact Iff.rfl

theorem Sound.connected_of_waits (hs : Sound kind session handled connected)
    (hwait : session.readWait ≠ .idle) : connected := by
  by_contra hc
  exact hwait (hs.unconnected hc).2

/-- A read wait fails. -/
theorem Sound.fail (hs : Sound kind session handled connected) :
    Advances kind connected (kind.postsRemoval = true ∨ session.readWait ≠ .pending)
      session handled session.fail handled where
  sound :=
    { waits := fun ho => ⟨fun hw => (hs.waits ho).1 ((cancel_eq_idle_iff _).mp hw),(hs.waits ho).2⟩
      closed := fun _ => cancel_ne_pending _
      unconnected := fun hc => ⟨(hs.unconnected hc).1,
        (cancel_eq_idle_iff _).mpr (hs.unconnected hc).2⟩
      posted := fun hk hc hw => hs.posted hk hc ((cancel_eq_idle_iff _).mp hw)
      unposted := hs.unposted }
  once := by
    intro _
    cases hk : kind.postsRemoval with
    | true =>
      simp only [once_of_posts hk,fail_readWait,cancel_eq_idle_iff,true_or,and_true]
    | false =>
      rw [once_of_unposted hk,once_of_unposted hk]
      refine iff_of_false (cancel_ne_pending _) ?_
      rintro ⟨hp,hposts | hnot⟩
      · exact Bool.false_ne_true hposts
      · exact hnot hp
  unconnected hc := Or.inr (by rw [(hs.unconnected hc).2]; exact ReadWait.noConfusion)

/-- A write fails: the removals of the writer and of the reader are two. -/
theorem Sound.sendFails (hs : Sound kind session handled connected)
    (hopen : session.isOpen = true) :
    Advances kind connected False session handled session.close (handled + removals kind) where
  sound :=
    { waits := fun ho => absurd ho Bool.false_ne_true
      closed := fun _ => cancel_ne_pending _
      unconnected := fun hc => absurd (hs.connected_of_waits (hs.waits hopen).1) hc
      posted := fun _ _ hw => absurd ((cancel_eq_idle_iff _).mp hw) (hs.waits hopen).1
      unposted := by
        intro hk
        rw [hs.unposted hk,removals,hk]
        rfl }
  once := by
    intro _
    obtain ⟨hwait,hzero⟩ := hs.waits hopen
    refine iff_of_false ?_ And.right
    cases hk : kind.postsRemoval with
    | true =>
      have hcancel : session.readWait.cancel ≠ .idle :=
        fun hw => hwait ((cancel_eq_idle_iff _).mp hw)
      rw [once_of_posts hk,close_readWait,if_neg hcancel,removals,if_pos hk]
      omega
    | false =>
      rw [once_of_unposted hk]
      exact cancel_ne_pending _
  unconnected hc := hc (hs.connected_of_waits (hs.waits hopen).1)

/-- The reader closes the session: its handler becomes a removal. -/
theorem Sound.readData (hs : Sound kind session handled connected)
    (hfailed : session.readWait = .failed) :
    Advances kind connected True session handled session.handled.close
      (handled + removals kind) := by
  have hwait : session.readWait ≠ .idle := by
    rw [hfailed]
    exact ReadWait.noConfusion
  refine ⟨⟨?_,?_,?_,?_,?_⟩,?_,fun _ => trivial⟩
  · exact fun ho => absurd ho Bool.false_ne_true
  · exact fun _ => ReadWait.noConfusion
  · exact fun hc => absurd (hs.connected_of_waits hwait) hc
  · intro hk _ _
    rw [removals,if_pos hk]
    omega
  · intro hk
    rw [hs.unposted hk,removals,hk]
    rfl
  · intro _
    rw [and_true]
    cases hk : kind.postsRemoval with
    | true =>
      rw [once_of_posts hk,once_of_posts hk,if_neg hwait,removals,if_pos hk]
      exact Iff.rfl
    | false =>
      rw [once_of_unposted hk,once_of_unposted hk,hfailed]
      exact iff_of_false ReadWait.noConfusion ReadWait.noConfusion

/-- The destructor of a closed session has nothing to close. -/
theorem Sound.close_eq (hs : Sound kind session handled connected)
    (hclosed : session.isOpen = false) : session.close = session := by
  have hwait := hs.closed hclosed
  rcases session with ⟨endpoint,isOpen,readWait⟩
  cases hclosed
  cases readWait with
  | idle => rfl
  | pending => exact absurd rfl hwait
  | failed => rfl

/-- With no handler queued, the sessions that closed were removed once. -/
theorem Sound.once_iff (hs : Sound kind session handled connected)
    (hqueued : session.readWait ≠ .failed) :
    Once kind session handled ↔ (session.isOpen = false → handled = 1) := by
  cases ho : session.isOpen with
  | true =>
    obtain ⟨hwait,hzero⟩ := hs.waits ho
    have hpending : session.readWait = .pending := by
      cases hw : session.readWait with
      | idle => exact absurd hw hwait
      | pending => rfl
      | failed => exact absurd hw hqueued
    refine iff_of_true ?_ (fun hf => absurd hf.symm Bool.false_ne_true)
    cases hk : kind.postsRemoval with
    | true => rw [once_of_posts hk,if_neg hwait,hzero]
    | false => exact (once_of_unposted hk).mpr hpending
  | false =>
    have hidle : session.readWait = .idle := by
      cases hw : session.readWait with
      | idle => rfl
      | pending => exact absurd hw (hs.closed ho)
      | failed => exact absurd hw hqueued
    rw [eq_self_iff_true,true_imp_iff]
    cases hk : kind.postsRemoval with
    | true => rw [once_of_posts hk,if_pos hidle,Nat.add_zero]
    | false =>
      rw [once_of_unposted hk,hidle,hs.unposted hk]
      exact iff_of_false ReadWait.noConfusion Nat.zero_ne_one

end OneSession
end SocketSession

/-! ### The callback -/

namespace SocketServer
variable {Endpoint : Type*}

/-- What the session callback was called with. -/
structure Calls (Endpoint : Type*) where
  connected : List Endpoint
  closed : List Endpoint

def Calls.call (calls : Calls Endpoint) : SessionEvent Endpoint → Calls Endpoint
  | .onSessionConnected endpoint => { calls with connected := calls.connected ++ [endpoint] }
  | .onSessionClosed endpoint => { calls with closed := calls.closed ++ [endpoint] }

def Calls.see (calls : Calls Endpoint) (_ : Action Endpoint)
    (events : List (SessionEvent Endpoint)) : Calls Endpoint :=
  events.foldl Calls.call calls

abbrev Watched (Endpoint : Type*) := SocketServer Endpoint × Calls Endpoint

namespace Watched

def start : Watched Endpoint := (SocketServer.start,⟨[],[]⟩)

/-- No removal is posted and no handler of a wait is queued. -/
def Quiescent (s : Watched Endpoint) : Prop :=
  s.1.posted = [] ∧ ∀ session ∈ s.1.sessions, session.readWait ≠ .failed

instance (s : Watched Endpoint) [DecidableEq Endpoint] : Decidable s.Quiescent :=
  inferInstanceAs (Decidable (_ ∧ _))

/-- Only open sessions are in the table, and every session that was accepted and has closed
was reported closed once. -/
structure CleanedUp [DecidableEq Endpoint] (s : Watched Endpoint) : Prop where
  isOpen : ∀ endpoint id, s.1.mSessions endpoint = some id → s.1.isOpen id = true
  once : ∀ session ∈ s.1.sessions, session.endpoint ∈ s.2.connected → session.isOpen = false →
    s.2.closed.count session.endpoint = 1

/-- No write fails on an open session; and none of the tcp server's read waits fails. -/
def CleansUp (kind : ServerKind) (s : Watched Endpoint) : Action Endpoint → Prop
  | .sendFails endpoint => s.1.sendSocketData endpoint = none
  | .readFails id => kind.postsRemoval = true ∨
      ∀ session ∈ s.1.sessions[id]?, session.readWait ≠ .pending
  | _ => True

instance (kind : ServerKind) (s : Watched Endpoint) (action : Action Endpoint) :
    Decidable (CleansUp kind s action) :=
  match action with
  | .sendFails endpoint => inferInstanceAs (Decidable (s.1.sendSocketData endpoint = none))
  | .readFails id => inferInstanceAs (Decidable (kind.postsRemoval = true ∨
      ∀ session ∈ s.1.sessions[id]?, session.readWait ≠ .pending))
  | .accept _ _ => isTrue trivial
  | .readData _ => isTrue trivial
  | .writeFails _ => isTrue trivial
  | .streamCloses _ => isTrue trivial
  | .cleanup _ => isTrue trivial
  | .removeSession _ => isTrue trivial

/-- The removals of an endpoint, posted or run. -/
def handled [DecidableEq Endpoint] (s : Watched Endpoint) (endpoint : Endpoint) : ℕ :=
  s.1.posted.count endpoint + s.2.closed.count endpoint

def Clean [DecidableEq Endpoint] (kind : ServerKind) (s : Watched Endpoint) : Prop :=
  ∀ session ∈ s.1.sessions, session.endpoint ∈ s.2.connected →
    session.Once kind (handled s session.endpoint)

/-- What holds in every state of a run with pairwise distinct endpoints. -/
structure Tracked [DecidableEq Endpoint] (kind : ServerKind) (s : Watched Endpoint) : Prop where
  current : Current (fun _ => kind.postsRemoval = true) s.1
  distinct : (s.1.sessions.map SocketSession.endpoint).Nodup
  known : ∀ endpoint, endpoint ∈ s.2.connected ∨ handled s endpoint ≠ 0 →
    endpoint ∈ s.1.sessions.map SocketSession.endpoint
  stored : ∀ endpoint id, s.1.mSessions endpoint = some id → endpoint ∈ s.2.connected
  sound : ∀ session ∈ s.1.sessions,
    session.Sound kind (handled s session.endpoint) (session.endpoint ∈ s.2.connected)

/-- A step that changes one session and the removals of its endpoint. -/
structure Change [DecidableEq Endpoint] (kind : ServerKind) (condition : Prop)
    (s t : Watched Endpoint) (id : ℕ) (session : SocketSession Endpoint)
    (f : SocketSession Endpoint → SocketSession Endpoint) : Prop where
  found : s.1.sessions[id]? = some session
  sessions : t.1.sessions = s.1.sessions.modify id f
  endpoint : ∀ session, (f session).endpoint = session.endpoint
  connected : t.2.connected = s.2.connected
  stored : ∀ endpoint id, t.1.mSessions endpoint = some id → s.1.mSessions endpoint = some id
  others : ∀ endpoint ≠ session.endpoint, handled t endpoint = handled s endpoint
  advances : session.Advances kind (session.endpoint ∈ s.2.connected) condition
    (handled s session.endpoint) (f session) (handled t session.endpoint)

/-- The endpoint that connects. -/
def remote : Action Endpoint → Option Endpoint
  | .accept endpoint _ => some endpoint
  | _ => none

theorem endpoints_modify {f : SocketSession Endpoint → SocketSession Endpoint}
    (hf : ∀ session, (f session).endpoint = session.endpoint)
    (sessions : List (SocketSession Endpoint)) (id : ℕ) :
    (sessions.modify id f).map SocketSession.endpoint =
      sessions.map SocketSession.endpoint := by
  apply List.ext_getElem?
  intro i
  rw [List.getElem?_map,List.getElem?_map,List.getElem?_modify]
  cases sessions[i]? with
  | none => rfl
  | some session =>
    dsimp only [Option.map_eq_map,Option.map_some]
    split_ifs
    · rw [hf]
    · rfl

theorem modify_eq_of_fixed {server : SocketServer Endpoint} {id : ℕ}
    {session : SocketSession Endpoint} (hs : server.sessions[id]? = some session)
    {f : SocketSession Endpoint → SocketSession Endpoint} (hf : f session = session) :
    server.sessions.modify id f = server.sessions := by
  apply List.ext_getElem?
  intro i
  rw [List.getElem?_modify]
  by_cases hi : id = i
  · subst hi
    rw [hs]
    simp [hf]
  · simp [hi]

section Keeping
variable [DecidableEq Endpoint] {kind : ServerKind} {condition : Prop} {s t : Watched Endpoint}

/-- A step keeps the invariant, the sessions stay removed once exactly under the condition,
and the sessions that are added are of the given endpoints. -/
structure Keeps (kind : ServerKind) (condition : Prop) (added : List Endpoint)
    (s t : Watched Endpoint) : Prop where
  tracked : Tracked kind t
  clean_iff : Clean kind t ↔ Clean kind s ∧ condition
  endpoints : t.1.sessions.map SocketSession.endpoint =
    s.1.sessions.map SocketSession.endpoint ++ added

theorem Tracked.keeps (hs : Tracked kind s) (hcondition : condition) :
    Keeps kind condition [] s s :=
  ⟨hs,(and_iff_left hcondition).symm,(List.append_nil _).symm⟩

/-- Sessions are of distinct endpoints. -/
theorem Tracked.id_eq (hs : Tracked kind s) {i j : ℕ} {x y : SocketSession Endpoint}
    (hx : s.1.sessions[i]? = some x) (hy : s.1.sessions[j]? = some y)
    (he : x.endpoint = y.endpoint) : i = j := by
  obtain ⟨hlt,-⟩ := List.getElem?_eq_some_iff.mp hx
  refine (List.getElem?_inj (by rwa [List.length_map]) hs.distinct).mp ?_
  rw [List.getElem?_map,List.getElem?_map,hx,hy]
  exact congrArg some he

namespace Change
variable {id : ℕ} {session : SocketSession Endpoint}
  {f : SocketSession Endpoint → SocketSession Endpoint}

theorem getElem? (h : Change kind condition s t id session f) (i : ℕ) :
    t.1.sessions[i]? = if id = i then some (f session) else s.1.sessions[i]? := by
  rw [h.sessions]
  split_ifs with hi
  · subst hi
    rw [List.getElem?_modify_eq,h.found]
    rfl
  · exact List.getElem?_modify_ne _ _ hi

theorem endpoints (h : Change kind condition s t id session f) :
    t.1.sessions.map SocketSession.endpoint = s.1.sessions.map SocketSession.endpoint := by
  rw [h.sessions,endpoints_modify h.endpoint]

theorem tracked (h : Change kind condition s t id session f) (hs : Tracked kind s)
    (hcurrent : Current (fun _ => kind.postsRemoval = true) t.1) : Tracked kind t := by
  have hendpoints := h.endpoints
  have hmem : session.endpoint ∈ s.1.sessions.map SocketSession.endpoint :=
    List.mem_map_of_mem (List.mem_of_getElem? h.found)
  refine ⟨hcurrent,hendpoints ▸ hs.distinct,?_,?_,?_⟩
  · intro endpoint hknown
    rw [hendpoints]
    by_cases he : endpoint = session.endpoint
    · exact he ▸ hmem
    · rw [h.connected,h.others endpoint he] at hknown
      exact hs.known endpoint hknown
  · intro endpoint i hentry
    rw [h.connected]
    exact hs.stored endpoint i (h.stored endpoint i hentry)
  · intro x hx
    obtain ⟨i,hi⟩ := List.getElem?_of_mem hx
    rw [h.getElem?] at hi
    rw [h.connected]
    split_ifs at hi with hid
    · obtain rfl := Option.some_inj.mp hi
      rw [h.endpoint]
      exact h.advances.sound
    · have hne : x.endpoint ≠ session.endpoint := fun he => hid (hs.id_eq h.found hi he.symm)
      rw [h.others _ hne]
      exact hs.sound x (List.mem_of_getElem? hi)

theorem clean_iff (h : Change kind condition s t id session f) (hs : Tracked kind s) :
    Clean kind t ↔ Clean kind s ∧ condition := by
  have hsession := List.mem_of_getElem? h.found
  have hchanged : f session ∈ t.1.sessions :=
    List.mem_of_getElem? ((h.getElem? id).trans (if_pos rfl))
  constructor
  · intro ht
    have hone (hc : session.endpoint ∈ s.2.connected) :
        session.Once kind (handled s session.endpoint) ∧ condition := by
      apply (h.advances.once hc).mp
      rw [← h.endpoint]
      exact ht _ hchanged (by rwa [h.endpoint,h.connected])
    refine ⟨?_,?_⟩
    · intro x hx hc
      obtain ⟨i,hi⟩ := List.getElem?_of_mem hx
      by_cases hid : id = i
      · subst hid
        obtain rfl := Option.some_inj.mp (h.found.symm.trans hi)
        exact (hone hc).1
      · have hne : x.endpoint ≠ session.endpoint := fun he => hid (hs.id_eq h.found hi he.symm)
        rw [← h.others _ hne]
        refine ht x (List.mem_of_getElem? ((h.getElem? i).trans ?_)) (h.connected ▸ hc)
        rw [if_neg hid,hi]
    · by_cases hc : session.endpoint ∈ s.2.connected
      · exact (hone hc).2
      · exact h.advances.unconnected hc
  · rintro ⟨hclean,hcondition⟩ x hx hc
    obtain ⟨i,hi⟩ := List.getElem?_of_mem hx
    rw [h.getElem?] at hi
    rw [h.connected] at hc
    split_ifs at hi with hid
    · obtain rfl := Option.some_inj.mp hi
      rw [h.endpoint] at hc ⊢
      exact (h.advances.once hc).mpr ⟨hclean session hsession hc,hcondition⟩
    · have hne : x.endpoint ≠ session.endpoint := fun he => hid (hs.id_eq h.found hi he.symm)
      rw [h.others _ hne]
      exact hclean x (List.mem_of_getElem? hi) hc

theorem keeps (h : Change kind condition s t id session f) (hs : Tracked kind s)
    (hcurrent : Current (fun _ => kind.postsRemoval = true) t.1) : Keeps kind condition [] s t :=
  ⟨h.tracked hs hcurrent,h.clean_iff hs,h.endpoints.trans (List.append_nil _).symm⟩

end Change

theorem handled_post (s : Watched Endpoint) (endpoint other : Endpoint) :
    handled ({ s.1 with posted := s.1.posted ++ if kind.postsRemoval then [endpoint] else [] },
      s.2) other = handled s other +
        if other = endpoint then SocketSession.removals kind else 0 := by
  unfold handled SocketSession.removals
  dsimp only
  rw [List.count_append]
  cases hk : kind.postsRemoval with
  | true =>
    simp only [if_true,List.count_singleton,beq_iff_eq]
    by_cases he : other = endpoint
    · rw [if_pos he,if_pos he.symm]
      omega
    · rw [if_neg he,if_neg (Ne.symm he)]
      omega
  | false => simp

theorem handled_handleClosedSocket {server : SocketServer Endpoint} (calls : Calls Endpoint)
    {id : ℕ} {session : SocketSession Endpoint} (hs : server.sessions[id]? = some session)
    (other : Endpoint) :
    handled (handleClosedSocket kind server id,calls) other = handled (server,calls) other +
      if other = session.endpoint then SocketSession.removals kind else 0 := by
  rw [← handled_post (server,calls) session.endpoint other]
  unfold handled
  dsimp only
  rw [posted_handleClosedSocket hs]

theorem Tracked.readFails (hs : Tracked kind s) (id : ℕ) :
    Keeps kind (CleansUp kind s (.readFails id)) [] s (s.1.modify id SocketSession.fail,s.2) := by
  cases hsession : s.1.sessions[id]? with
  | none =>
    rw [modify_eq_of_none hsession]
    apply hs.keeps
    right
    rw [hsession]
    exact fun _ hmem => absurd hmem (Option.not_mem_none _)
  | some session =>
    have hcondition : CleansUp kind s (.readFails id) ↔
        (kind.postsRemoval = true ∨ session.readWait ≠ .pending) := by
      simp [CleansUp,hsession]
    rw [hcondition]
    have hchange : Change kind (kind.postsRemoval = true ∨ session.readWait ≠ .pending) s
        (s.1.modify id SocketSession.fail,s.2) id session SocketSession.fail :=
      { found := hsession
        sessions := rfl
        endpoint := fun _ => rfl
        connected := rfl
        stored := fun _ _ he => he
        others := fun _ _ => rfl
        advances := (hs.sound session (List.mem_of_getElem? hsession)).fail }
    exact hchange.keeps hs (hs.current.waits id (fun _ => rfl) (fun _ => rfl))

/-- A handler of the session closes it. -/
theorem Tracked.closes (hs : Tracked kind s) {id : ℕ} {session : SocketSession Endpoint}
    (hsession : s.1.sessions[id]? = some session)
    {f : SocketSession Endpoint → SocketSession Endpoint}
    (hf : ∀ session, (f session).endpoint = session.endpoint)
    (hadvances : session.Advances kind (session.endpoint ∈ s.2.connected) condition
      (handled s session.endpoint) (f session).close
      (handled s session.endpoint + SocketSession.removals kind))
    (hcurrent : Current (fun _ => kind.postsRemoval = true)
      (handleClosedSocket kind (s.1.modify id f) id)) :
    Keeps kind condition [] s (handleClosedSocket kind (s.1.modify id f) id,s.2) := by
  have hmodified : (s.1.modify id f).sessions[id]? = some (f session) := by
    rw [getElem?_modify,if_pos rfl,hsession]
    rfl
  have hhandled (other : Endpoint) :
      handled (handleClosedSocket kind (s.1.modify id f) id,s.2) other = _ :=
    handled_handleClosedSocket s.2 hmodified other
  have hchange : Change kind condition s (handleClosedSocket kind (s.1.modify id f) id,s.2) id
      session (fun session => (f session).close) :=
    { found := hsession
      sessions := by
        rw [handleClosedSocket,cleanup_eq hmodified]
        exact List.modify_modify_eq ..
      endpoint := hf
      connected := rfl
      stored := by
        intro endpoint i hentry
        rw [mSessions_handleClosedSocket] at hentry
        exact hentry
      others := by
        intro endpoint he
        rw [hhandled,hf,if_neg he]
        rfl
      advances := by
        rw [hhandled,hf,if_pos rfl]
        exact hadvances }
  exact hchange.keeps hs hcurrent

theorem Tracked.readData (hs : Tracked kind s) (id : ℕ) :
    Keeps kind True [] s (readData kind s.1 id,s.2) := by
  have hcurrent := hs.current.readData (fun _ h => h) id
  unfold SocketServer.readData at hcurrent ⊢
  split at hcurrent
  case h_1 hnone => exact hs.keeps trivial
  case h_2 session hsession =>
    by_cases hfailed : session.readWait = .failed
    · rw [if_pos hfailed] at hcurrent ⊢
      exact hs.closes hsession (fun _ => rfl)
        ((hs.sound session (List.mem_of_getElem? hsession)).readData hfailed) hcurrent
    · rw [if_neg hfailed]
      exact hs.keeps trivial

theorem Tracked.sendFails (hs : Tracked kind s) (endpoint : Endpoint) :
    Keeps kind (s.1.sendSocketData endpoint = none) [] s (sendFails kind s.1 endpoint,s.2) := by
  have hcurrent := hs.current.sendFails (fun _ h => h) endpoint
  unfold SocketServer.sendFails at hcurrent ⊢
  cases hsend : s.1.sendSocketData endpoint with
  | none => exact hs.keeps rfl
  | some id =>
    rw [hsend] at hcurrent
    obtain ⟨hentry,hopen⟩ := sendSocketData_eq_some_iff.mp hsend
    obtain ⟨session,hsession,-⟩ := hs.current endpoint id hentry
    rw [isOpen_eq s.1 hsession] at hopen
    have hsame : s.1.modify id (fun session => session) = s.1 := by
      unfold SocketServer.modify
      exact congrArg (fun sessions => { s.1 with sessions := sessions }) (List.modify_id ..)
    have hadvances := (hs.sound session (List.mem_of_getElem? hsession)).sendFails hopen
    have hcloses := hs.closes (f := fun session => session) hsession (fun _ => rfl) hadvances
    rw [hsame] at hcloses
    rw [show (some id = none) = False from eq_false (Option.some_ne_none id)]
    exact hcloses hcurrent

/-- A removal that is posted is of a closed session. -/
theorem Tracked.closed_of_posted (hs : Tracked kind s) {endpoint : Endpoint}
    (hposted : endpoint ∈ s.1.posted) : ∃ (id : ℕ) (session : SocketSession Endpoint),
      s.1.sessions[id]? = some session ∧ session.endpoint = endpoint ∧
        session.isOpen = false := by
  have hcount : handled s endpoint ≠ 0 := by
    have hpos := List.count_pos_iff.mpr hposted
    unfold handled
    omega
  obtain ⟨session,hmem,he⟩ := List.mem_map.mp (hs.known endpoint (Or.inr hcount))
  obtain ⟨id,hid⟩ := List.getElem?_of_mem hmem
  refine ⟨id,session,hid,he,?_⟩
  cases hopen : session.isOpen with
  | false => rfl
  | true => exact absurd (he ▸ ((hs.sound session hmem).waits hopen).2) hcount

theorem sessions_checkClosedSessions (server : SocketServer Endpoint) (endpoint : Endpoint)
    (hfixed : ∀ id session, server.mSessions endpoint = some id →
      server.sessions[id]? = some session → session.isOpen = false → session.close = session) :
    (server.checkClosedSessions endpoint).sessions = server.sessions := by
  unfold checkClosedSessions
  split
  case h_1 => rfl
  case h_2 id hentry =>
    split_ifs with hopen
    · rfl
    · unfold erase
      rw [hentry]
      change server.sessions.modify id SocketSession.close = server.sessions
      cases hsession : server.sessions[id]? with
      | none => exact List.modify_eq_self (List.getElem?_eq_none_iff.mp hsession)
      | some session =>
        rw [isOpen_eq server hsession,Bool.not_eq_true] at hopen
        exact modify_eq_of_fixed hsession (hfixed id session hentry hsession hopen)

theorem checkClosedSessions_frame (server : SocketServer Endpoint) (endpoint : Endpoint) :
    (server.checkClosedSessions endpoint).posted = server.posted ∧
      ∀ other id, (server.checkClosedSessions endpoint).mSessions other = some id →
        server.mSessions other = some id := by
  unfold checkClosedSessions
  split
  · exact ⟨rfl,fun _ _ he => he⟩
  · split_ifs
    · exact ⟨rfl,fun _ _ he => he⟩
    · refine ⟨erase_posted ..,?_⟩
      intro other id hid
      rw [erase_mSessions] at hid
      by_cases ho : other = endpoint
      · rw [ho,Function.update_self] at hid
        exact absurd hid (Option.some_ne_none id).symm
      · rwa [Function.update_of_ne ho] at hid

/-- A removal that runs is one less that is posted. -/
theorem handled_run {endpoint : Endpoint} (hposted : endpoint ∈ s.1.posted) (other : Endpoint) :
    (s.1.posted.erase endpoint).count other + (s.2.closed ++ [endpoint]).count other =
      handled s other := by
  unfold handled
  rw [List.count_append,List.count_singleton]
  by_cases he : endpoint = other
  · subst he
    have hpos := List.count_pos_iff.mpr hposted
    rw [List.count_erase_self,if_pos (beq_self_eq_true _)]
    omega
  · rw [List.count_erase_of_ne (Ne.symm he),if_neg (by simpa using he)]
    omega

theorem Tracked.removeSession (hs : Tracked kind s) (endpoint : Endpoint) :
    Keeps kind True [] s ((s.1.removeSession endpoint).1,
      s.2.see (.removeSession endpoint) (s.1.removeSession endpoint).2) := by
  have hcurrent := hs.current.removeSession endpoint
  unfold SocketServer.removeSession at hcurrent ⊢
  by_cases hposted : endpoint ∈ s.1.posted
  · rw [if_pos hposted] at hcurrent ⊢
    obtain ⟨id,session,hsession,-,-⟩ := hs.closed_of_posted hposted
    have hsound := hs.sound session (List.mem_of_getElem? hsession)
    obtain ⟨hframe,hstored⟩ :=
      checkClosedSessions_frame { s.1 with posted := s.1.posted.erase endpoint } endpoint
    have hsessions := sessions_checkClosedSessions
      { s.1 with posted := s.1.posted.erase endpoint } endpoint
      (fun _ found _ hfound => (hs.sound found (List.mem_of_getElem? hfound)).close_eq)
    have hhandled (other : Endpoint) : handled (({ s.1 with
        posted := s.1.posted.erase endpoint }.checkClosedSessions endpoint),
        s.2.see (.removeSession endpoint) [.onSessionClosed endpoint]) other = handled s other := by
      rw [← handled_run hposted other]
      unfold handled
      dsimp only [Calls.see,Calls.call,List.foldl]
      rw [hframe]
    have hchange : Change kind True s
        ({ s.1 with posted := s.1.posted.erase endpoint }.checkClosedSessions endpoint,
          s.2.see (.removeSession endpoint) [.onSessionClosed endpoint]) id session
        (fun session => session) :=
      { found := hsession
        sessions := hsessions.trans (List.modify_id ..).symm
        endpoint := fun _ => rfl
        connected := rfl
        stored := hstored
        others := fun other _ => hhandled other
        advances := by
          rw [hhandled]
          exact ⟨hsound,fun _ => (and_true _).symm ▸ Iff.rfl,fun _ => trivial⟩ }
    exact hchange.keeps hs hcurrent
  · rw [if_neg hposted]
    exact hs.keeps trivial

/-- A session of an endpoint there was none of. -/
theorem Tracked.append (hs : Tracked kind s) (session : SocketSession Endpoint)
    (hfresh : session.endpoint ∉ s.1.sessions.map SocketSession.endpoint)
    (hcurrent : Current (fun _ => kind.postsRemoval = true) t.1)
    (hsessions : t.1.sessions = s.1.sessions ++ [session])
    (hhandled : ∀ endpoint, handled t endpoint = handled s endpoint)
    (hconnected : ∀ endpoint ≠ session.endpoint,
      endpoint ∈ t.2.connected ↔ endpoint ∈ s.2.connected)
    (hstored : ∀ endpoint id, t.1.mSessions endpoint = some id → endpoint ∈ t.2.connected)
    (hsound : session.Sound kind 0 (session.endpoint ∈ t.2.connected))
    (honce : session.endpoint ∈ t.2.connected → session.Once kind 0) :
    Keeps kind True [session.endpoint] s t := by
  have hzero : handled s session.endpoint = 0 := by
    by_contra hne
    exact hfresh (hs.known session.endpoint (Or.inr hne))
  have hne (x : SocketSession Endpoint) (hx : x ∈ s.1.sessions) :
      x.endpoint ≠ session.endpoint := fun he => hfresh (he ▸ List.mem_map_of_mem hx)
  have hendpoints : t.1.sessions.map SocketSession.endpoint =
      s.1.sessions.map SocketSession.endpoint ++ [session.endpoint] := by
    rw [hsessions,List.map_append]
    rfl
  refine ⟨⟨hcurrent,?_,?_,hstored,?_⟩,?_,hendpoints⟩
  · rw [hendpoints]
    refine List.nodup_append.mpr ⟨hs.distinct,List.nodup_singleton _,?_⟩
    intro e he f hf hef
    exact hfresh (List.mem_singleton.mp (hef ▸ hf) ▸ he)
  · intro endpoint hknown
    rw [hendpoints]
    by_cases he : endpoint = session.endpoint
    · rw [he]
      exact List.mem_append_right _ (List.mem_singleton_self _)
    · rw [hconnected endpoint he,hhandled] at hknown
      exact List.mem_append_left _ (hs.known endpoint hknown)
  · intro x hx
    rw [hsessions] at hx
    rw [hhandled]
    rcases List.mem_append.mp hx with hx | hx
    · rw [hconnected x.endpoint (hne x hx)]
      exact hs.sound x hx
    · obtain rfl := List.mem_singleton.mp hx
      rw [hzero]
      exact hsound
  · unfold Clean
    rw [hsessions,and_true,List.forall_mem_append]
    refine (and_iff_left ?_).trans (forall₂_congr ?_)
    · intro x hx hc
      obtain rfl := List.mem_singleton.mp hx
      rw [hhandled,hzero]
      exact honce hc
    · intro x hx
      rw [hhandled,hconnected x.endpoint (hne x hx)]

theorem Tracked.accept (hs : Tracked kind s) {endpoint : Endpoint}
    (hfresh : endpoint ∉ s.1.sessions.map SocketSession.endpoint) (handshake : Bool) :
    Keeps kind True [endpoint] s ((accept kind s.1 endpoint handshake).1,
      s.2.see (.accept endpoint handshake) (accept kind s.1 endpoint handshake).2) := by
  have hcurrent : Current (fun _ => kind.postsRemoval = true)
      (SocketServer.accept kind s.1 endpoint handshake).1 := hs.current.accept endpoint handshake
  have hunconnected : endpoint ∉ s.2.connected :=
    fun hc => hfresh (hs.known endpoint (Or.inl hc))
  have hfree : s.1.mSessions endpoint = none := by
    cases hm : s.1.mSessions endpoint with
    | none => rfl
    | some id => exact absurd (hs.stored endpoint id hm) hunconnected
  cases ha : kind.acceptsSession handshake with
  | false =>
    rw [accept_eq_of_refused hfree ha] at hcurrent ⊢
    have hsound : (SocketSession.makeShared endpoint).close.Sound kind 0
        (endpoint ∈ s.2.connected) :=
      { waits := fun ho => absurd ho Bool.false_ne_true
        closed := fun _ => ReadWait.noConfusion
        unconnected := fun _ => ⟨rfl,rfl⟩
        posted := fun _ hc => absurd hc hunconnected
        unposted := fun _ => rfl }
    exact hs.append (SocketSession.makeShared endpoint).close hfresh hcurrent rfl
      (fun _ => rfl) (fun _ _ => Iff.rfl) hs.stored hsound (fun hc => absurd hc hunconnected)
  | true =>
    rw [accept_eq_of_free hfree ha] at hcurrent ⊢
    have hmem : endpoint ∈ s.2.connected ++ [endpoint] :=
      List.mem_append_right _ (List.mem_singleton_self endpoint)
    have hsound : (SocketSession.makeShared endpoint).await.Sound kind 0
        (endpoint ∈ s.2.connected ++ [endpoint]) :=
      { waits := fun _ => ⟨ReadWait.noConfusion,rfl⟩
        closed := fun ho => absurd ho.symm Bool.false_ne_true
        unconnected := fun hc => absurd hmem hc
        posted := fun _ _ hw => absurd hw ReadWait.noConfusion
        unposted := fun _ => rfl }
    have honce : (SocketSession.makeShared endpoint).await.Once kind 0 := by
      cases hk : kind.postsRemoval with
      | true => exact (SocketSession.once_of_posts hk).mpr rfl
      | false => exact (SocketSession.once_of_unposted hk).mpr rfl
    refine hs.append (SocketSession.makeShared endpoint).await hfresh hcurrent rfl
      (fun _ => rfl) ?_ ?_ hsound (fun _ => honce)
    · intro other ho
      change other ∈ s.2.connected ++ [endpoint] ↔ _
      rw [List.mem_append,List.mem_singleton]
      exact or_iff_left ho
    · intro other id hid
      change Function.update s.1.mSessions endpoint (some s.1.sessions.length) other =
        some id at hid
      by_cases ho : other = endpoint
      · exact ho ▸ hmem
      · rw [Function.update_of_ne ho] at hid
        exact List.mem_append_left _ (hs.stored other id hid)

def observedStep (kind : ServerKind) :
    Machine (Watched Endpoint) (Action Endpoint) (SessionEvent Endpoint) :=
  Machine.observed (step kind) Calls.see

/-- A connection from an endpoint there was no session of. -/
def Fresh (s : Watched Endpoint) : Action Endpoint → Prop
  | .accept endpoint _ => endpoint ∉ s.1.sessions.map SocketSession.endpoint
  | _ => True

theorem Tracked.step (hs : Tracked kind s) (hkind : kind ≠ .web) (action : Action Endpoint)
    (hfresh : Fresh s action) :
    Keeps kind (CleansUp kind s action) (remote action).toList s
      (observedStep kind s action).1 := by
  have hweb : decide (kind ≠ .web) = true := decide_eq_true hkind
  have hnot : decide (kind = .web) = false := decide_eq_false hkind
  unfold observedStep Machine.observed SocketServer.step
  cases action with
  | accept endpoint handshake => exact hs.accept hfresh handshake
  | readFails id =>
    rw [Action.arises,hweb]
    exact hs.readFails id
  | readData id =>
    rw [Action.arises,hweb]
    exact hs.readData id
  | sendFails endpoint =>
    rw [Action.arises,hweb]
    exact hs.sendFails endpoint
  | writeFails endpoint =>
    rw [Action.arises,hnot]
    exact hs.keeps trivial
  | streamCloses id =>
    rw [Action.arises,hnot]
    exact hs.keeps trivial
  | cleanup id =>
    rw [Action.arises,hnot]
    exact hs.keeps trivial
  | removeSession endpoint => exact hs.removeSession endpoint

theorem tracked_start : Tracked kind (start : Watched Endpoint) where
  current := current_start
  distinct := List.nodup_nil
  known _ hknown := absurd hknown (by simp [start,handled,SocketServer.start])
  stored _ id hid := absurd hid (Option.some_ne_none id).symm
  sound _ hx := absurd hx List.not_mem_nil

theorem clean_start : Clean kind (start : Watched Endpoint) :=
  fun _ hx => absurd hx List.not_mem_nil

/-- Where nothing is pending, the sessions removed once are those cleaned up. -/
theorem Tracked.cleanedUp_iff (hs : Tracked kind s) (hquiescent : Quiescent s) :
    CleanedUp s ↔ Clean kind s := by
  obtain ⟨hposted,hqueued⟩ := hquiescent
  have hhandled (endpoint : Endpoint) : handled s endpoint = s.2.closed.count endpoint := by
    rw [handled,hposted,List.count_nil,Nat.zero_add]
  have honce : Clean kind s ↔ ∀ session ∈ s.1.sessions, session.endpoint ∈ s.2.connected →
      session.isOpen = false → s.2.closed.count session.endpoint = 1 := by
    refine forall₃_congr ?_
    intro session hmem _
    rw [(hs.sound session hmem).once_iff (hqueued session hmem),hhandled]
  rw [honce]
  refine ⟨CleanedUp.once,fun hclean => ⟨?_,hclean⟩⟩
  intro endpoint id hentry
  obtain ⟨session,hsession,he,hlive⟩ := hs.current endpoint id hentry
  have hmem := List.mem_of_getElem? hsession
  rw [isOpen_eq s.1 hsession]
  cases hk : kind.postsRemoval with
  | true =>
    apply (hlive hk).resolve_right
    rw [hposted]
    exact List.not_mem_nil
  | false =>
    cases ho : session.isOpen with
    | true => rfl
    | false =>
      have hone := hclean session hmem (he ▸ hs.stored endpoint id hentry) ho
      rw [← hhandled,(hs.sound session hmem).unposted hk] at hone
      exact absurd hone Nat.zero_ne_one

end Keeping

/-! ### Runs -/

section Runs
variable [DecidableEq Endpoint] {kind : ServerKind}

/-- Connections from pairwise distinct endpoints are from fresh ones. -/
theorem stepsMeet_fresh (hkind : kind ≠ .web) {s : Watched Endpoint} (hs : Tracked kind s)
    {actions : List (Action Endpoint)}
    (hnew : ∀ endpoint ∈ actions.filterMap remote,
      endpoint ∉ s.1.sessions.map SocketSession.endpoint)
    (hdistinct : (actions.filterMap remote).Nodup) :
    Machine.StepsMeet (observedStep kind) Fresh s actions := by
  induction actions generalizing s with
  | nil => trivial
  | cons action actions ih =>
    have hfresh : Fresh s action := by
      cases action with
      | accept endpoint handshake => exact hnew endpoint List.mem_cons_self
      | _ => trivial
    have hstep := hs.step hkind action hfresh
    have hcons : (action :: actions).filterMap remote =
        (remote action).toList ++ actions.filterMap remote := by
      rw [List.filterMap_cons]
      cases remote action with
      | none => rfl
      | some endpoint => rfl
    rw [hcons] at hnew hdistinct
    obtain ⟨-,hrest,hdisjoint⟩ := List.nodup_append.mp hdistinct
    refine ⟨hfresh,ih hstep.tracked ?_ hrest⟩
    intro endpoint he
    rw [hstep.endpoints,List.mem_append]
    rintro (hold | hadded)
    · exact hnew endpoint (List.mem_append_right _ he) hold
    · exact hdisjoint endpoint hadded endpoint he rfl

/-- In every state of a run of the tcp or the ssl server in which nothing is pending, the
sessions are cleaned up, when no write has failed on an open session and, for the tcp server,
no read wait either; and at the end of a run only then. -/
theorem cleanedUp_of_cleansUp (kind : ServerKind) (hkind : kind ≠ .web)
    (actions : List (Action Endpoint)) (hdistinct : (actions.filterMap remote).Nodup) :
    (Machine.StepsMeet (observedStep kind) (CleansUp kind) start actions →
      ∀ r ∈ Machine.trace (observedStep kind) start actions, Quiescent r.1 → CleanedUp r.1) ∧
    (Quiescent (Machine.final (observedStep kind) start actions) →
      (CleanedUp (Machine.final (observedStep kind) start actions) ↔
        Machine.StepsMeet (observedStep kind) (CleansUp kind) start actions)) := by
  have hfresh := stepsMeet_fresh hkind tracked_start (fun _ _ => List.not_mem_nil) hdistinct
  constructor
  · intro hsteps r hr hquiescent
    have hall := Machine.trace_invariant (I := fun s => Tracked kind s ∧ Clean kind s)
      (fun s action hs hc => ⟨(hs.1.step hkind action hc.1).tracked,
        (hs.1.step hkind action hc.1).clean_iff.mpr ⟨hs.2,hc.2⟩⟩) ⟨tracked_start,clean_start⟩
      (hfresh.and hsteps) r hr
    exact (hall.1.cleanedUp_iff hquiescent).mpr hall.2
  · intro hquiescent
    have htracked := Machine.final_invariant (C := Fresh) (I := Tracked kind)
      (fun s action hs hc => (Tracked.step hs hkind action hc).tracked) tracked_start hfresh
    rw [htracked.cleanedUp_iff hquiescent]
    have hclean := Machine.final_iff_stepsMeet (D := Fresh) (I := Tracked kind)
      (fun s action hs hc => (Tracked.step hs hkind action hc).tracked)
      (fun s action hs hc => (Tracked.step hs hkind action hc).clean_iff) tracked_start hfresh
    exact hclean.trans (and_iff_right clean_start)

theorem cleanedUp_of_cleansUp_read :
    let actions : List (Action ℕ) := [.accept 0 true,.accept 1 true,.readFails 0,.readData 0,
      .removeSession 0]
    Quiescent (Machine.final (observedStep .ssl) start actions) ∧
    (Machine.final (observedStep .ssl) start actions).2.closed = [0] ∧
    CleanedUp (Machine.final (observedStep .ssl) start actions) := by
  intro actions
  have hquiescent : Quiescent (Machine.final (observedStep .ssl) start actions) := by decide
  refine ⟨hquiescent,by decide,?_⟩
  exact ((cleanedUp_of_cleansUp .ssl ServerKind.noConfusion actions (by decide)).2
    hquiescent).mpr (by decide)

/-- The ssl session whose write fails is reported closed by the writer and by the reader it
cancels; the tcp session stays in the table and is not reported. -/
theorem closed_twice_or_never :
    let ssl : List (Action ℕ) := [.accept 0 true,.sendFails 0,.readData 0,.removeSession 0,
      .removeSession 0]
    let tcp : List (Action ℕ) := [.accept 0 true,.readFails 0,.readData 0]
    (Quiescent (Machine.final (observedStep .ssl) start ssl) ∧
      (Machine.final (observedStep .ssl) start ssl).2.closed = [0,0] ∧
      ¬ CleanedUp (Machine.final (observedStep .ssl) start ssl)) ∧
    (Quiescent (Machine.final (observedStep .tcp) start tcp) ∧
      (Machine.final (observedStep .tcp) start tcp).1.mSessions 0 = some 0 ∧
      (Machine.final (observedStep .tcp) start tcp).1.isOpen 0 = false ∧
      (Machine.final (observedStep .tcp) start tcp).2.closed = [] ∧
      ¬ CleanedUp (Machine.final (observedStep .tcp) start tcp)) := by
  intro ssl tcp
  refine ⟨⟨by decide,by decide,?_⟩,by decide,by decide,by decide,by decide,?_⟩
  · intro h
    exact absurd (h.once ⟨0,false,.idle⟩ (by decide) (by decide) rfl) (by decide)
  · intro h
    exact absurd (h.isOpen 0 0 (by decide)) (by decide)

end Runs

end Watched
end SocketServer
end Moboware
