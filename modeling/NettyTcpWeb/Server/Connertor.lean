import NettyTcpWeb.Library.StateExcept
import NettyTcpWeb.Library.Runs
import NettyTcpWeb.Server.State

/-!
# The session manager, the connector and the handlers

The code that changes the state of the server: `SessionManagerImpl` keeps the sessions map and the
broadcast group, `WatchConnertorImpl` logs channels in and out and delivers messages, and the two
handlers react to the events of their channels. The events of all channels together are the steps of
the server.

## Main definitions

* `createSession`, `removeSession`: logging in and out
* `heartbeat`, `close`, `closeSession`, `pushMessage`: the connector
* `receiveMessages`, `channelRead`, `channelInactive`, `userEventTriggered`: the handlers
* `Event`, `server`: the events of all channels, and the server as an automaton
-/

namespace NettyTcpWeb

open Java (Text Exception lit isNotBlank isNotEmpty)
open StateExcept (stateAfter)

variable {C : Type} [DecidableEq C] [Channel C]

/-! ## Sessions -/

mutual

/-- `Session.write(msg)`: first the pages, then the own channel. -/
def Session.write (msg : Model) : Session C → Handler C Unit
  | ⟨session, _, _, _, _, _, _, _, _, _, sessions⟩ => do
    Session.writePages msg sessions
    modify (·.writeAndFlush session msg)

/-- The loop of `Session.write` over the pages. -/
def Session.writePages (msg : Model) : List (Text × Session C) → Handler C Unit
  | [] => pure ()
  | (_, page) :: rest => do
    Session.write msg page
    Session.writePages msg rest

end

/-- `Session.close(nid)` on the session stored under `key`. The map holds a reference to the
session, so the page is gone from it before a missing page raises. -/
def Session.closePage (key : Text) (self : Session C) (nid : Text) : Handler C (Session C) := do
  if self.nid = nid then
    modify (·.closeChannel self.session)
    return self
  else
    let session := HashMap.get self.sessions nid
    let self := self.without nid
    modify (·.store key self)
    match session with
    -- `session.getSession()` of the missing page
    | none => throw .nullPointer
    | some session =>
      modify (·.closeChannel session.session)
      return self

/-- `Session.getSessionAll()`: the own channel, and those of the pages. -/
def Session.getSessionAll (S : Session C) : List C :=
  S.session :: S.sessions.map fun e => e.2.session

/-- The loop of `Session.closeAll` over the short ids of the pages. An iterator that is asked for
its next key raises if the map has been changed since it was made. -/
def Session.closeAllLoop (key : Text) (self : Session C) :
    (changed : Bool) → (nids : List Text) → Handler C (Session C)
  | _, [] => pure self
  | true, _ :: _ => throw .concurrentModification
  | false, nid :: nids => do
    match HashMap.get self.sessions nid with
    | none => closeAllLoop key self false nids
    | some session =>
      modify (·.closeChannel session.session)
      let self := self.without nid
      modify (·.store key self)
      closeAllLoop key self true nids

/-- `Session.closeAll()` on the session stored under `key`. -/
def Session.closeAll (key : Text) (self : Session C) : Handler C (Session C) := do
  modify (·.closeChannel self.session)
  self.closeAllLoop key false (self.sessions.map Prod.fst)

/-! ## The session manager -/

/-- `sessions.get(sessionId)`: a concurrent map raises for `null`. -/
def getSession (sessionId : Option Text) : Handler C (Option (Session C)) := do
  let sessionId ← raising (nonNull sessionId)
  return (← get).sessions sessionId

/-- `addSession(session)`. -/
def addSession (session : Session C) : Handler C Unit := do
  modify (·.store session.account session)
  modify (·.joinGroup session.session)

/-- `updateSession(session)`. -/
def updateSession (now : Clock) (session : Session C) : Handler C Unit := do
  let session := { session with updateTime := now.millis }
  modify (·.store session.account session)

/-- `removeSession(sessionId, nid)`: every exception is swallowed. -/
def removeSession (now : Clock) (sessionId : Text) (nid : Text) : Handler C Unit :=
  tryCatch
    (do
      match ← getSession (some sessionId) with
      | none => pure ()
      | some session =>
        if session.source = .websocket then
          let session ← session.closePage sessionId nid
          -- the own channel is not among the pages that are counted
          if session.otherSessionSize < 1 then
            modify (·.drop sessionId)
            let msg ← raising (getOffLineStateMsg now.text sessionId)
            modify (·.broadcast msg)
        else
          -- the short id is not compared
          modify (·.closeChannel session.session)
          modify (·.drop sessionId)
          let msg ← raising (getOffLineStateMsg now.text sessionId)
          modify (·.broadcast msg))
    fun _ => pure ()

/-- `removeSession(sessionId)`: every exception is swallowed. It returns what it leaves of the
session, which the caller has a reference to. -/
def removeSessionAll (sessionId : Text) : Handler C (Option (Session C)) :=
  tryCatch
    (do
      match ← getSession (some sessionId) with
      | none => return none
      | some session =>
        let session ← session.closeAll sessionId
        modify (·.drop sessionId)
        return some session)
    -- the session has not been removed from the map
    fun _ => getSession (some sessionId)

/-- `setSessionContent(ctx, wrapper, sessionId)`. The account attribute of the channel is set before
an unknown remote address raises. -/
def setSessionContent (now : Clock) (ctx : ChannelHandlerContext C) (wrapper : MessageWrapper)
    (sessionId : Text) : Handler C (Session C) := do
  modify (·.setAccount ctx.channel sessionId)
  let appKey ← raising ctx.getRemoteAddress
  match wrapper.body with
  | none => throw .nullPointer
  | some model =>
    return { session := ctx.channel
             nid := Channel.asShortText ctx.channel
             source := wrapper.source
             deviceId := model.deviceId
             account := sessionId
             platform := if wrapper.source = .socket then lit "watch" else lit "websocket"
             platformVersion := lit "1.0"
             appKey := appKey
             bindTime := now.millis
             updateTime := now.millis
             sessions := [] }

/-- `createSession(wrapper, ctx)`. -/
def createSession (now : Clock) (wrapper : MessageWrapper) (ctx : ChannelHandlerContext C) :
    Handler C (Session C) := do
  let sessionId ← raising (nonNull wrapper.sessionId)
  if let some session ← getSession sessionId then
    if session.source ≠ wrapper.source ∨ session.source = .socket then
      -- a login from the other side, or of another socket, takes the account over
      modify (·.leaveGroup session.session)
      modify (·.drop session.account)
    else if session.source = .websocket then
      -- another page of the account, which is not kicked off
      let newsession ← setSessionContent now ctx wrapper sessionId
      updateSession now (session.addSessions newsession)
      modify (·.joinGroup newsession.session)
      return newsession
  let session ← setSessionContent now ctx wrapper sessionId
  addSession session
  return session

/-! ## The connector -/

/-- `getChannelSessionId(ctx)`. -/
def getChannelSessionId (ctx : ChannelHandlerContext C) : Handler C (Option Text) := do
  return (← get).account ctx.channel

/-- `close(ctx)`: every exception is raised again as a runtime exception. -/
def close (now : Clock) (ctx : ChannelHandlerContext C) : Handler C Unit := do
  let sessionId ← getChannelSessionId ctx
  tryCatch
    (do
      if let some _ ← getSession sessionId then
        let sessionId ← raising (nonNull sessionId)
        removeSession now sessionId (Channel.asShortText ctx.channel)
        modify (·.leaveGroup ctx.channel))
    fun _ => throw .runtime

/-- `close(sessionId)`: the channels are listed when the session has been removed. -/
def closeSession (sessionId : Option Text) : Handler C Unit :=
  tryCatch
    (do
      if let some session ← getSession sessionId then
        let sessionId ← raising (nonNull sessionId)
        let left ← removeSessionAll sessionId
        for ch in (left.getD session).getSessionAll do
          modify (·.leaveGroup ch))
    fun _ => throw .runtime

/-- `close(ctx, wrapper)`. -/
def closeWrapper (now : Clock) (ctx : ChannelHandlerContext C) (_wrapper : MessageWrapper) :
    Handler C Unit := do
  let sessionId ← getChannelSessionId ctx
  if isNotBlank sessionId then
    close now ctx

/-- `pushMessage(wrapper)`. -/
def pushMessage (wrapper : MessageWrapper) : Handler C Unit :=
  tryCatch
    (do
      if let some session ← getSession wrapper.sessionId then
        match wrapper.body with
        -- Netty writes no `null`
        | none => throw .nullPointer
        | some msg => session.write msg)
    fun _ => throw .runtime

/-- `pushMessage(sessionId, wrapper)`. -/
def pushMessageTo (sessionId : Option Text) (wrapper : MessageWrapper) : Handler C Unit := do
  match ← getSession sessionId with
  -- the sender has to be logged in
  | none => throw .runtime
  | some _ =>
    tryCatch
      (do
        if let some responseSession ← getSession wrapper.reSessionId then
          match wrapper.body with
          | none => throw .nullPointer
          | some msg => responseSession.write msg)
      fun _ => throw .runtime

/-- `pushGroupMessage(wrapper)`. -/
def pushGroupMessage (wrapper : MessageWrapper) : Handler C Unit := do
  match wrapper.body with
  | none => throw .nullPointer
  | some msg => modify (·.broadcast msg)

/-- `heartbeat(ctx, wrapper)`: an exception leaves the channel without a reply. -/
def heartbeat (now : Clock) (ctx : ChannelHandlerContext C) (wrapper : MessageWrapper) :
    Handler C Unit := do
  modify (·.setHeartbeat ctx.channel (some now.millis))
  tryCatch
    (do
      let sessionId ← raising (nonNull wrapper.sessionId)
      let sessionId0 ← getChannelSessionId ctx
      if some sessionId = sessionId0 then
        -- a reconnect: the attribute is trusted, and the map is not consulted
        pushMessage wrapper
      else
        let _ ← createSession now wrapper ctx
        modify (·.setAccount ctx.channel sessionId)
        pushMessage wrapper)
    fun _ => pure ()

/-- `heartbeatToClient(ctx)`. -/
def heartbeatToClient (now : Clock) (ctx : ChannelHandlerContext C) : Handler C Unit := do
  let sessionId ← getChannelSessionId ctx
  let builder ← raising (generateTemplate now.text sessionId (lit "LK") [])
  modify (·.writeAndFlush ctx.channel builder)

/-! ## The handlers -/

/-- `receiveMessages(ctx, wrapper)` of the handler of the given server. -/
def receiveMessages (source : Source) (now : Clock) (ctx : ChannelHandlerContext C)
    (wrapper : MessageWrapper) : Handler C Unit := do
  let wrapper := { wrapper with source := source }
  if wrapper.isHeartbeat then
    heartbeat now ctx wrapper
  else if wrapper.isClose then
    closeWrapper now ctx wrapper
  else if wrapper.isGroup then
    pushGroupMessage wrapper
  else if wrapper.isSend then
    pushMessage wrapper
  else if wrapper.isReply then
    pushMessageTo wrapper.sessionId wrapper

/-- `channelInactive(ctx)` of the handler of the given server: the log line in front of the close
asks for the remote address. -/
def channelInactive (source : Source) (now : Clock) (ctx : ChannelHandlerContext C) :
    Handler C Unit := do
  let _ ← raising ctx.getRemoteAddress
  let sessionId ← getChannelSessionId ctx
  receiveMessages source now ctx
    { protocol := .CLOSE, sessionId := sessionId, reSessionId := none, body := none }

/-- `Constants.ImserverConfig.PING_TIME_OUT`. -/
def pingTimeOut : Int := 30

/-- The `READER_IDLE` branch of `userEventTriggered`. -/
def readerIdle (now : Clock) (ctx : ChannelHandlerContext C) : Handler C Unit := do
  match (← get).heartbeat ctx.channel with
  | some lastTime =>
    if now.millis - lastTime ≥ pingTimeOut then
      close now ctx
  | none => pure ()
  modify (·.setHeartbeat ctx.channel none)

namespace WatchServerHandler

/-- `WatchServerHandler.channelRead`. -/
def channelRead (now : Clock) (ctx : ChannelHandlerContext C) (message : Model) :
    Handler C Unit := do
  let sessionId ← getChannelSessionId ctx
  let wrapper ← raising (convertToMessageWrapper now.text sessionId message)
  receiveMessages .socket now ctx wrapper

/-- The `WRITER_IDLE` branch of `WatchServerHandler.userEventTriggered`. -/
def writerIdle (now : Clock) (ctx : ChannelHandlerContext C) : Handler C Unit := do
  modify (·.setHeartbeat ctx.channel (some now.millis))
  let sessionId ← getChannelSessionId ctx
  if isNotEmpty sessionId then
    heartbeatToClient now ctx

end WatchServerHandler

namespace WatchWebSocketServerHandler

/-- `WatchWebSocketServerHandler.channelRead0`: the handler keeps a copy of the message, and the
proxy gets another one. -/
def channelRead (now : Clock) (ctx : ChannelHandlerContext C) (message : Model) :
    Handler C Unit := do
  modify (·.setBuilder ctx.channel message)
  let sessionId ← getChannelSessionId ctx
  let wrapper ← raising (convertToMessageWrapper now.text sessionId message)
  receiveMessages .websocket now ctx wrapper

/-- The `WRITER_IDLE` branch of `WatchWebSocketServerHandler.userEventTriggered`. -/
def writerIdle (now : Clock) (ctx : ChannelHandlerContext C) : Handler C Unit := do
  modify (·.setHeartbeat ctx.channel (some now.millis))
  let sessionId ← getChannelSessionId ctx
  if isNotEmpty sessionId then
    match (← get).builder ctx.channel with
    | none => throw .nullPointer
    | some builder =>
      let builder := { builder with body := [], type := lit "LK" }
      modify (·.setBuilder ctx.channel builder)
      modify (·.writeAndFlush ctx.channel builder)

end WatchWebSocketServerHandler

/-! ## The server as an automaton -/

/-- What happens to a channel: a message arrives, nothing has been written or read for a while, the
peer disconnects, or Netty reports a closed channel to its handler. -/
inductive Event (C : Type) where
  | message (ctx : ChannelHandlerContext C) (now : Clock) (message : Model)
  | writerIdle (ctx : ChannelHandlerContext C) (now : Clock)
  | readerIdle (ctx : ChannelHandlerContext C) (now : Clock)
  | disconnect (channel : C)
  | channelInactive (ctx : ChannelHandlerContext C) (now : Clock)

/-- The handler of an event, chosen by the server that accepted the channel. -/
def handle : Event C → Handler C Unit
  | .message ctx now message =>
    match Channel.server ctx.channel with
    | .socket => WatchServerHandler.channelRead now ctx message
    | .websocket => WatchWebSocketServerHandler.channelRead now ctx message
  | .writerIdle ctx now =>
    match Channel.server ctx.channel with
    | .socket => WatchServerHandler.writerIdle now ctx
    | .websocket => WatchWebSocketServerHandler.writerIdle now ctx
  | .readerIdle ctx now => readerIdle now ctx
  | .disconnect c => modify (·.closeChannel c)
  | .channelInactive ctx now => do
    modify fun s => { s with channel := Function.update s.channel ctx.channel .inactive }
    channelInactive (Channel.server ctx.channel) now ctx

/-- An event of an open channel, or the one `channelInactive` of a closed channel. -/
def Enabled (s : Server C) : Event C → Prop
  | .message ctx _ _ | .writerIdle ctx _ | .readerIdle ctx _ => s.channel ctx.channel = .opened
  | .disconnect c => s.channel c = .opened
  | .channelInactive ctx _ => s.channel ctx.channel = .closed

/-- The state behind an event. -/
def step (s : Server C) (e : Event C) : Server C := stateAfter (handle e { s with out := [] })

/-- The server: its events are handled one at a time. -/
def server (C : Type) [DecidableEq C] [Channel C] : Automaton (Server C) (Event C) where
  enabled := Enabled
  next := step

end NettyTcpWeb
