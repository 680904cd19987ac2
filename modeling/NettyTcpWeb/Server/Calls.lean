import Mathlib.Logic.Relation
import NettyTcpWeb.Server.Effect

/-!
# Link-keep messages on several event loops

Every channel has an event loop of its own, so the calls of `heartbeat` for different channels run
at the same time. They share the session objects, the concurrent map of references to them, and the
broadcast group. A call takes one step for each operation on the map and for each `synchronized`
method; what lies between two such steps can change what it has read. `session.addSessions` puts a
page into the pages of a session object without the lock; it is one step too, though a `HashMap`
promises that to one thread at a time only.

## Main definitions

* `Memory`: the session objects and the references to them
* `Call`, `Pc`: a call of `heartbeat`, and what it is about to do
* `Call.next`: one step of a call

## Main results

* `Call.alone`: **a call that runs alone** does what `heartbeat` does
-/

namespace NettyTcpWeb

open Java (Text)
open StateExcept

/-- A reference to a session object. -/
abbrev Ref := Nat

/-- What the event loops share: the session objects, of which those from `fresh` on do not exist
yet, the sessions map, and the rest of the server, whose own sessions map is not used. -/
structure Memory (C : Type) where
  heap : Ref → Session C
  fresh : Ref
  sessions : Text → Option Ref
  rest : Server C

/-- The server with the sessions that the map refers to. -/
def Memory.server {C : Type} (x : Memory C) : Server C :=
  { x.rest with sessions := fun key => (x.sessions key).map x.heap }

/-- A call of `heartbeat`: the context, and the link-keep message that has arrived. -/
structure Call (C : Type) where
  ctx : ChannelHandlerContext C
  message : Model

/-- What a call is about to do, with what it has read: `createSession` is `get` to `joinGroup`, and
`pushMessage` is `getSession` and `write`. -/
inductive Pc (C : Type) where
  | heartbeat
  | get
  | leaveGroup (session : Ref)
  | remove (session : Ref)
  | setSessionContent (session : Option Ref)
  | addSession (session : Session C)
  | addSessions (session : Ref) (newsession : Session C)
  | updateSession (session : Ref) (newsession : Session C)
  | joinGroup (newsession : Session C)
  | setAccount
  | getSession
  | write (session : Ref)
  | finished

variable {C : Type}

namespace Memory

variable (x : Memory C)

/-- The rest of the server changes. -/
def modify (f : Server C → Server C) : Memory C := { x with rest := f x.rest }

/-- `sessions.remove(key)`. -/
def remove (key : Text) : Memory C :=
  { x with sessions := Function.update x.sessions key none }

/-- `addSession(session)`, which publishes a new session object. -/
def addSession [DecidableEq C] (session : Session C) : Memory C where
  heap := Function.update x.heap x.fresh session
  fresh := x.fresh + 1
  sessions := Function.update x.sessions session.account (some x.fresh)
  rest := x.rest.joinGroup session.session

/-- `session.addSessions(newsession)`. -/
def addSessions (session : Ref) (newsession : Session C) : Memory C :=
  { x with heap := Function.update x.heap session ((x.heap session).addSessions newsession) }

/-- `updateSession(session)`. -/
def updateSession (now : Clock) (session : Ref) : Memory C :=
  { x with
    heap := Function.update x.heap session { x.heap session with updateTime := now.millis }
    sessions := Function.update x.sessions (x.heap session).account (some session) }

end Memory

namespace Call

variable [DecidableEq C] [Channel C] (call : Call C)

/-- The channel of the call. -/
def channel : C := call.ctx.channel

/-- `wrapper.getSessionId()`. -/
def sessionId : Text := call.message.deviceId

/-- The wrapper of the message, as `receiveMessages` hands it on. -/
def wrapper : MessageWrapper := linkKeep (Channel.server call.channel) call.message

/-- One step of a call. An exception ends the call. -/
def next (now : Clock) (x : Memory C) : Pc C → Memory C × Pc C
  | .heartbeat =>
    (x.modify (·.setHeartbeat call.channel (some now.millis)),
      if some call.sessionId = x.rest.account call.channel then .getSession else .get)
  | .get =>
    (x,
      match x.sessions call.sessionId with
      | none => .setSessionContent none
      | some session =>
        if (x.heap session).source ≠ call.wrapper.source ∨ (x.heap session).source = .socket then
          .leaveGroup session
        else if (x.heap session).source = .websocket then
          .setSessionContent (some session)
        else
          .setSessionContent none)
  | .leaveGroup session =>
    (x.modify (·.leaveGroup (x.heap session).session), .remove session)
  | .remove session => (x.remove (x.heap session).account, .setSessionContent none)
  | .setSessionContent session =>
    match NettyTcpWeb.setSessionContent now call.ctx call.wrapper call.sessionId x.rest with
    | .ok newsession rest =>
      ({ x with rest := rest },
        match session with
        | none => .addSession newsession
        | some session => .addSessions session newsession)
    | .error _ rest => ({ x with rest := rest }, .finished)
  | .addSession session => (x.addSession session, .setAccount)
  | .addSessions session newsession =>
    (x.addSessions session newsession, .updateSession session newsession)
  | .updateSession session newsession => (x.updateSession now session, .joinGroup newsession)
  | .joinGroup newsession => (x.modify (·.joinGroup newsession.session), .setAccount)
  | .setAccount => (x.modify (·.setAccount call.channel call.sessionId), .getSession)
  | .getSession =>
    (x,
      match x.sessions call.sessionId with
      | none => .finished
      | some session => .write session)
  | .write session =>
    (x.modify fun s => stateAfter ((x.heap session).write { call.message with body := [] } s),
      .finished)
  | .finished => (x, .finished)

/-- The call gets from one point to another while all other calls rest. -/
def Steps (now : Clock) : Memory C × Pc C → Memory C × Pc C → Prop :=
  Relation.ReflTransGen fun p q => call.next now p.1 p.2 = q

end Call

/-! ## A call that runs alone -/

section Memory

variable {x : Memory C} {session : Ref} {d : Text} {now : Clock}

/-- The references of the map are to objects that exist. -/
def Memory.Valid (x : Memory C) : Prop :=
  ∀ key session, x.sessions key = some session → session < x.fresh

theorem Memory.server_remove (x : Memory C) (key : Text) :
    (x.remove key).server = x.server.drop key := by
  have hsessions : (x.remove key).server.sessions =
      Function.update x.server.sessions key none := by
    funext k
    by_cases hk : k = key
    · subst hk
      simp [Memory.server, Memory.remove]
    · simp [Memory.server, Memory.remove, Function.update_of_ne hk]
  calc (x.remove key).server
    _ = { x.rest with sessions := (x.remove key).server.sessions } := rfl
    _ = _ := by rw [hsessions]; rfl

/-- A new session object is published. -/
theorem Memory.server_addSession [DecidableEq C] (session : Session C) (hx : x.Valid) :
    (x.addSession session).server =
      (x.server.store session.account session).joinGroup session.session := by
  have hsessions : (x.addSession session).server.sessions =
      Function.update x.server.sessions session.account (some session) := by
    funext key
    by_cases hkey : key = session.account
    · subst hkey
      simp [Memory.server, Memory.addSession]
    · simp only [Memory.server, Memory.addSession, Function.update_of_ne hkey]
      apply Option.map_congr
      intro r hr
      exact Function.update_of_ne (hx key r hr).ne _ _
  calc (x.addSession session).server
    _ = { x.rest.joinGroup session.session with
          sessions := (x.addSession session).server.sessions } := rfl
    _ = _ := by rw [hsessions]; rfl

variable [Channel C]

theorem Memory.account_heap (hwf : x.server.Wellformed) (hd : x.sessions d = some session) :
    (x.heap session).account = d :=
  (hwf d (x.heap session) (by simp [Memory.server, hd])).account

/-- A page is added to a stored session object, which is stored again. -/
theorem Memory.server_updateSession (now : Clock) (newsession : Session C)
    (hwf : x.server.Wellformed) (hd : x.sessions d = some session) :
    ((x.addSessions session newsession).updateSession now session).server =
      x.server.store d
        { (x.heap session).addSessions newsession with updateTime := now.millis } := by
  set x' := (x.addSessions session newsession).updateSession now session with hx'
  have haccount : ((x.heap session).addSessions newsession).account = d :=
    Memory.account_heap hwf hd
  have hsessions : x'.server.sessions = Function.update x.server.sessions d
      (some { (x.heap session).addSessions newsession with updateTime := now.millis }) := by
    funext key
    by_cases hk : key = d
    · subst hk
      simp [hx', Memory.server, Memory.updateSession, Memory.addSessions, haccount]
    · simp only [hx', Memory.server, Memory.updateSession, Memory.addSessions, haccount,
        Function.update_self, Function.update_of_ne hk, Function.update_idem]
      refine Option.map_congr fun r hr => Function.update_of_ne ?_ _ _
      rintro rfl
      exact hk ((Memory.account_heap hwf hr).symm.trans (Memory.account_heap hwf hd))
  calc x'.server
    _ = { x.rest with sessions := x'.server.sessions } := rfl
    _ = _ := by rw [hsessions]; rfl

end Memory

section Steps

variable [DecidableEq C] [Channel C] (call : Call C) (now : Clock) {x : Memory C} {session : Ref}

namespace Call

theorem next_heartbeat_of_connected (h : x.rest.account call.channel = some call.sessionId) :
    call.next now x .heartbeat =
      (x.modify (·.setHeartbeat call.channel (some now.millis)), .getSession) := by
  rw [next, if_pos h.symm]

theorem next_heartbeat_of_connecting (h : x.rest.account call.channel ≠ some call.sessionId) :
    call.next now x .heartbeat =
      (x.modify (·.setHeartbeat call.channel (some now.millis)), .get) := by
  rw [next, if_neg h.symm]

theorem next_get_of_none (h : x.sessions call.sessionId = none) :
    call.next now x .get = (x, .setSessionContent none) := by
  simp only [next, h]

theorem next_get_of_evict (h : x.sessions call.sessionId = some session)
    (hev : (x.heap session).source ≠ call.wrapper.source ∨ (x.heap session).source = .socket) :
    call.next now x .get = (x, .leaveGroup session) := by
  simp only [next, h, if_pos hev]

theorem next_get_of_page (h : x.sessions call.sessionId = some session)
    (hws : (x.heap session).source = .websocket) (hsource : call.wrapper.source = .websocket) :
    call.next now x .get = (x, .setSessionContent (some session)) := by
  simp [next, h, hws, hsource]

theorem next_setSessionContent_of_unknown (session : Option Ref)
    (haddr : call.ctx.remoteAddress = none) : call.next now x (.setSessionContent session) =
      (x.modify (·.setAccount call.channel call.sessionId), .finished) := by
  simp only [next, setSessionContent_of_raising (.inl haddr)]
  rfl

theorem next_setSessionContent {new : Session C}
    (hset : ∀ s, NettyTcpWeb.setSessionContent now call.ctx call.wrapper call.sessionId s =
      .ok new (s.setAccount call.ctx.channel call.sessionId)) (session : Option Ref) :
    call.next now x (.setSessionContent session) =
      (x.modify (·.setAccount call.channel call.sessionId),
        match session with
        | none => .addSession new
        | some session => .addSessions session new) := by
  simp only [next, hset]
  rfl

end Call

end Steps

section Alone

variable [DecidableEq C] [Channel C] {x : Memory C}

/-- The last steps of a call: the message is answered through the stored session. -/
theorem Call.answer (call : Call C) (now : Clock) (x : Memory C) :
    ∃ y, call.Steps now (x, .getSession) (y, .finished) ∧
      y.server = x.server.push call.sessionId { call.message with body := [] } := by
  have hget : call.next now x .getSession = (x, match x.sessions call.sessionId with
    | none => .finished
    | some session => .write session) := rfl
  cases h : x.sessions call.sessionId with
  | none =>
    rw [h] at hget
    refine ⟨x, .single hget, ?_⟩
    simp [Server.push, Memory.server, h]
  | some session =>
    rw [h] at hget
    refine ⟨_, .head hget (.single rfl), ?_⟩
    simp only [Session.write_apply, stateAfter, Server.push, Memory.server, Memory.modify, h,
      Option.map_some]
    rfl

/-- A call that has not logged in before gets to `setSessionContent`, with the session that its
login joins. -/
theorem Call.find (call : Call C) (now : Clock) (hx : x.Valid) (hwf : x.server.Wellformed) :
    ∃ y, call.Steps now (x, .get) (y, .setSessionContent (y.sessions call.sessionId)) ∧
      y.server = x.server.evict call.sessionId call.wrapper.source ∧ y.Valid := by
  cases h : x.sessions call.sessionId with
  | none =>
    have hnone : x.server.sessions call.sessionId = none := by simp [Memory.server, h]
    refine ⟨x, .single ?_, (evict_of_none _ _ _ hnone).symm, hx⟩
    rw [call.next_get_of_none now h, h]
  | some session =>
    have hS : x.server.sessions call.sessionId = some (x.heap session) := by
      simp [Memory.server, h]
    have haccount : (x.heap session).account = call.sessionId := Memory.account_heap hwf h
    rw [evict_of_some _ _ _ hS]
    by_cases hev : (x.heap session).source ≠ call.wrapper.source ∨ (x.heap session).source = .socket
    · rw [if_pos hev]
      set y := (x.modify (·.leaveGroup (x.heap session).session)).remove call.sessionId with hy
      have hgone : y.sessions call.sessionId = none := by simp [hy, Memory.remove]
      refine ⟨y, .head (call.next_get_of_evict now h hev) (.head rfl (.single ?_)), ?_, ?_⟩
      · rw [hgone, hy, ← haccount]
        rfl
      · exact (x.modify (·.leaveGroup (x.heap session).session)).server_remove call.sessionId
      · intro key r hr
        by_cases hkey : key = call.sessionId
        · simp [hkey, hgone] at hr
        · apply hx key r
          simpa [hy, Memory.remove, Memory.modify, Function.update_of_ne hkey] using hr
    · rw [if_neg hev]
      obtain ⟨hsource, hsocket⟩ := not_or.mp hev
      have hws := Source.eq_websocket hsocket
      refine ⟨x, .single ?_, rfl, hx⟩
      rw [call.next_get_of_page now h hws ((not_not.mp hsource).symm.trans hws), h]

/-- A call that has found no session publishes its own one. -/
theorem Call.publish (call : Call C) (now : Clock) {new : Session C} (hx : x.Valid)
    (hnew : new.OfLogin call.channel call.wrapper.source call.sessionId)
    (hset : ∀ s, NettyTcpWeb.setSessionContent now call.ctx call.wrapper call.sessionId s =
      .ok new (s.setAccount call.ctx.channel call.sessionId)) :
    ∃ y, call.Steps now (x, .setSessionContent none) (y, .setAccount) ∧
      y.server = ((x.server.setAccount call.channel call.sessionId).store call.sessionId
        new).joinGroup call.channel := by
  set z := x.modify (·.setAccount call.channel call.sessionId) with hz
  have hcontent : call.next now x (.setSessionContent none) = (z, .addSession new) :=
    call.next_setSessionContent now hset none
  refine ⟨z.addSession new, .head hcontent (.single rfl), ?_⟩
  have hvalid : z.Valid := hx
  rw [z.server_addSession new hvalid, hnew.session, hnew.account]
  rfl

/-- A call that has found a session of web pages adds its own one to it. -/
theorem Call.join (call : Call C) (now : Clock) {session : Ref} {new : Session C}
    (hwf : x.server.Wellformed) (hd : x.sessions call.sessionId = some session)
    (hnew : new.OfLogin call.channel call.wrapper.source call.sessionId)
    (hset : ∀ s, NettyTcpWeb.setSessionContent now call.ctx call.wrapper call.sessionId s =
      .ok new (s.setAccount call.ctx.channel call.sessionId)) :
    ∃ y, call.Steps now (x, .setSessionContent (some session)) (y, .setAccount) ∧
      y.server = ((x.server.setAccount call.channel call.sessionId).store call.sessionId
        { (x.heap session).addSessions new with updateTime := now.millis }).joinGroup
          call.channel := by
  set z := x.modify (·.setAccount call.channel call.sessionId) with hz
  have hcontent : call.next now x (.setSessionContent (some session)) =
      (z, .addSessions session new) := call.next_setSessionContent now hset (some session)
  refine ⟨((z.addSessions session new).updateSession now session).modify
    (·.joinGroup new.session), .head hcontent (.head rfl (.head rfl (.single rfl))), ?_⟩
  have hwf' : z.server.Wellformed := hwf
  have hupdate := Memory.server_updateSession now new hwf' (x := z) hd
  have hjoin := congrArg (Server.joinGroup · new.session) hupdate
  rw [hnew.session] at hjoin ⊢
  exact hjoin

/-- The call creates a session, joins the stored one, or stops at an unknown address. -/
theorem Call.create (call : Call C) (now : Clock) (hx : x.Valid) (hwf : x.server.Wellformed) :
    (∃ y e, call.Steps now (x, .get) (y, .finished) ∧
        createSession now call.wrapper call.ctx x.server = .error e y.server) ∨
      ∃ y new, call.Steps now (x, .get) (y, .setAccount) ∧
        createSession now call.wrapper call.ctx x.server = .ok new y.server := by
  obtain ⟨y, hsteps, hserver, hvalid⟩ := call.find now hx hwf
  by_cases haddr : call.ctx.remoteAddress = none
  · refine .inl ⟨y.modify (·.setAccount call.channel call.sessionId), .nullPointer,
      hsteps.tail ?_, ?_⟩
    · exact call.next_setSessionContent_of_unknown now _ haddr
    · have hcreate : createSession now call.wrapper call.ctx x.server =
          .error .nullPointer ((x.server.evict call.sessionId call.wrapper.source).setAccount
            call.ctx.channel call.sessionId) :=
          createSession_of_raising hwf rfl (.inl haddr)
      rw [hcreate, ← hserver]
      rfl
  obtain ⟨new, hnew, hset⟩ := setSessionContent_of_known (w := call.wrapper) call.ctx now
    call.sessionId rfl haddr
  refine .inr ?_
  cases hd : y.sessions call.sessionId with
  | none =>
    have hnone : (x.server.evict call.sessionId call.wrapper.source).sessions call.sessionId =
        none := by
      rw [← hserver]
      simp [Memory.server, hd]
    rw [hd] at hsteps
    obtain ⟨z, hpublish, hz⟩ := call.publish now hvalid hnew hset
    refine ⟨z, new, hsteps.trans hpublish, ?_⟩
    rw [createSession_of_none hwf rfl hnew hset hnone, hz, hserver]
    rfl
  | some session =>
    have hS : y.server.sessions call.sessionId = some (y.heap session) := by
      simp [Memory.server, hd]
    have hsame : y.server = x.server := by
      rcases evict_cases x.server call.sessionId call.wrapper.source with h | ⟨S, -, -, h⟩
      · exact hserver.trans h
      · rw [hserver, h] at hS
        simp at hS
    have hne : (x.server.evict call.sessionId call.wrapper.source).sessions call.sessionId ≠
        none := by
      rw [← hserver, hS]
      simp
    obtain ⟨S, hS', hws, hsource⟩ := exists_of_evict_ne_none hne
    rw [hsame, hS'] at hS
    obtain rfl := Option.some.inj hS
    rw [hd] at hsteps
    obtain ⟨z, hjoin, hz⟩ := call.join now (hsame ▸ hwf) hd hnew hset
    refine ⟨z, new, hsteps.trans hjoin, ?_⟩
    rw [createSession_of_page hwf rfl hnew hset hS' hws hsource, hz, hsame]
    rfl

/-- **A call that runs alone** does what `heartbeat` does. -/
theorem Call.alone (call : Call C) (now : Clock) (hx : x.Valid) (hwf : x.server.Wellformed) :
    ∃ y, call.Steps now (x, .heartbeat) (y, .finished) ∧
      y.server = stateAfter (NettyTcpWeb.heartbeat now call.ctx call.wrapper x.server) := by
  have hd : call.wrapper.sessionId = some call.sessionId := rfl
  set x₀ := x.modify (·.setHeartbeat call.channel (some now.millis)) with hx₀
  by_cases hsame : x.server.account call.channel = some call.sessionId
  · have hfirst := call.next_heartbeat_of_connected now hsame
    obtain ⟨y, hsteps, hserver⟩ := call.answer now x₀
    refine ⟨y, hsteps.head hfirst, ?_⟩
    rw [hserver, heartbeat_of_connected now hd rfl hsame]
    rfl
  · have hfirst := call.next_heartbeat_of_connecting now hsame
    have hstamp : x₀.server = x.server.setHeartbeat call.ctx.channel (some now.millis) := rfl
    have hconnecting := heartbeat_of_connecting now hd rfl hsame
    rcases call.create now (x := x₀) hx hwf with ⟨y, e, hsteps, hcreate⟩ | ⟨y, new, hsteps, hcreate⟩
    · refine ⟨y, hsteps.head hfirst, ?_⟩
      rw [hstamp] at hcreate
      rw [hconnecting, hcreate]
      rfl
    · obtain ⟨z, hlast, hserver⟩ :=
        call.answer now (y.modify (·.setAccount call.channel call.sessionId))
      refine ⟨z, ((hsteps.tail rfl).trans hlast).head hfirst, ?_⟩
      rw [hstamp] at hcreate
      rw [hconnecting, hserver, hcreate]
      rfl

end Alone

end NettyTcpWeb
