import NettyTcpWeb.Server.Close
import NettyTcpWeb.Server.Delivery
import NettyTcpWeb.Server.Login

/-!
# What an event does to the logins

The sessions map, the broadcast group, the account attributes and the channels change in two places
only: when a link-keep message logs its channel in, and when a channel is closed. Every other event
leaves all four as it finds them. What is proved about runs of the server is proved from these
cases.

## Main definitions

* `Event.IsLinkKeep`, `ReachesClose`: the events that log in, and those that close a channel
* `WriterIdle`: what a writer-idle event does
* `Effect`: what an event does

## Main results

* `handle_writerIdle`, `handle_readerIdle_of_account`: the outcomes of the idle events
* `quiet_message`, `quiet_writerIdle`: messages and idle events that leave the logins as they are
* `step_effect`: **the cases of a step**
-/

namespace NettyTcpWeb

open Java (Text lit isNotBlank isNotEmpty)
open StateExcept
open Server (SameLogins OnlyWrites)

variable {C : Type} [DecidableEq C]

/-! ## Steps -/

/-- The channel of an event. -/
def Event.channel : Event C → C
  | .message ctx _ _ | .writerIdle ctx _ | .readerIdle ctx _ | .channelInactive ctx _ => ctx.channel
  | .disconnect c => c

/-- The server as the handler of an event finds it. -/
def Server.meets (s : Server C) : Event C → Server C
  | .disconnect c => { s.closeChannel c with out := [] }
  | .channelInactive ctx _ =>
    { s with out := [], channel := Function.update s.channel ctx.channel .inactive }
  | _ => { s with out := [] }

/-- The events that reach `close(ctx)`: a closed channel with an account and a known address, and an
open one whose heartbeat has expired. -/
def ReachesClose (s : Server C) : Event C → Prop
  | .channelInactive ctx _ =>
    ctx.remoteAddress ≠ none ∧ isNotBlank (s.account ctx.channel) = true
  | .readerIdle ctx now =>
    ∃ lastTime, s.heartbeat ctx.channel = some lastTime ∧ pingTimeOut ≤ now.millis - lastTime
  | _ => False

section Meets

variable (s : Server C) (e : Event C)

@[simp] theorem meets_sessions : (s.meets e).sessions = s.sessions := by cases e <;> rfl

@[simp] theorem meets_out : (s.meets e).out = [] := by cases e <;> rfl

@[simp] theorem meets_account : (s.meets e).account = s.account := by cases e <;> rfl

theorem meets_channel_of_ne {c : C} (hc : c ≠ e.channel) :
    (s.meets e).channel c = s.channel c := by
  cases e with
  | disconnect d => exact Function.update_of_ne hc _ _
  | channelInactive ctx now => exact Function.update_of_ne hc _ _
  | message | writerIdle | readerIdle => rfl

theorem opened_of_meets {c : C} (h : (s.meets e).channel c = .opened) : s.channel c = .opened := by
  cases e with
  | disconnect d => exact ((s.closeChannel_opened_iff d).mp h).2
  | channelInactive ctx now =>
    by_cases hc : c = ctx.channel
    · subst hc
      simp [Server.meets] at h
    · rwa [meets_channel_of_ne s _ hc] at h
  | message | writerIdle | readerIdle => exact h

/-- The channels that have been reported as closed. -/
def Reported (x : C) : Prop :=
  s.channel x = .inactive ∨ ∃ ctx now, e = .channelInactive ctx now ∧ x = ctx.channel

theorem meets_inactive_iff {x : C} : (s.meets e).channel x = .inactive ↔ Reported s e x := by
  cases e with
  | disconnect d =>
    refine ((s.closeChannel_inactive_iff d)).trans (or_iff_left ?_).symm
    rintro ⟨ctx, now, he, -⟩
    cases he
  | channelInactive ctx now =>
    by_cases hx : x = ctx.channel
    · subst hx
      exact iff_of_true (Function.update_self _ _ _) (.inr ⟨ctx, now, rfl, rfl⟩)
    · rw [meets_channel_of_ne s _ hx]
      refine (or_iff_left ?_).symm
      rintro ⟨ctx', now', he, rfl⟩
      cases he
      exact hx rfl
  | message | writerIdle | readerIdle =>
    refine (or_iff_left ?_).symm
    rintro ⟨ctx', now', he, -⟩
    cases he

end Meets

/-- A link-keep message. -/
def Event.IsLinkKeep : Event C → Prop
  | .message _ _ m => m.type = lit "LK"
  | _ => False

/-- What an event does: a link-keep message logs in, an event that reaches the close closes, and any
other event leaves the logins as it finds them. -/
inductive Effect [Channel C] (s : Server C) : Event C → Server C → Prop
  | login (ctx : ChannelHandlerContext C) (now : Clock) (m : Model) (s₀ t : Server C)
      (hLK : m.type = lit "LK") (hs₀ : s.SameLogins s₀) (hout : s₀.out = [])
      (hlogin : Login s₀ ctx (Channel.server ctx.channel) m.deviceId { m with body := [] } t) :
      Effect s (.message ctx now m) t
  | close (e : Event C) (t t' : Server C) (hreach : ReachesClose s e)
      (hclose : Closing (s.meets e) e.channel t) (ht : t.SameLogins t') (hout : t'.out = t.out) :
      Effect s e t'
  | quiet (e : Event C) (t : Server C) (hLK : ¬ e.IsLinkKeep) (hreach : ¬ ReachesClose s e)
      (ht : (s.meets e).SameLogins t) : Effect s e t

variable [Channel C]

/-- The wrapper of a link-keep message, as `receiveMessages` hands it on. -/
def linkKeep (source : Source) (m : Model) : MessageWrapper where
  protocol := .LK
  sessionId := m.deviceId
  reSessionId := none
  body := some { m with body := [] }
  source := source

/-- What the handlers keep of a message: that of the WebSocket server keeps a copy. -/
def Server.remember (s : Server C) (c : C) (m : Model) : Server C :=
  match Channel.server c with
  | .socket => s
  | .websocket => s.setBuilder c m

theorem remember_eq (s : Server C) (c : C) (m : Model) :
    s.remember c m = { s with builder := (s.remember c m).builder } := by
  unfold Server.remember
  cases Channel.server c with
  | socket => rfl
  | websocket => rfl

/-- Both handlers wrap a message for the account of its channel, and hand it on. -/
theorem handle_message_remember (s : Server C) (ctx : ChannelHandlerContext C) (now : Clock)
    (m : Model) : handle (.message ctx now m) s = (do
      let w ← raising (convertToMessageWrapper now.text (s.account ctx.channel) m)
      receiveMessages (Channel.server ctx.channel) now ctx w) (s.remember ctx.channel m) := by
  cases hserver : Channel.server ctx.channel with
  | socket =>
    simp [handle, hserver, WatchServerHandler.channelRead, getChannelSessionId, Server.remember]
  | websocket =>
    simp [handle, hserver, WatchWebSocketServerHandler.channelRead, getChannelSessionId,
      Server.remember]

theorem handle_message_eq (s : Server C) (ctx : ChannelHandlerContext C) (now : Clock) (m : Model) :
    ∃ b, handle (.message ctx now m) s = (do
      let w ← raising (convertToMessageWrapper now.text (s.account ctx.channel) m)
      receiveMessages (Channel.server ctx.channel) now ctx w) { s with builder := b } :=
  ⟨_, (handle_message_remember s ctx now m).trans (congrArg _ (remember_eq s ctx.channel m))⟩

theorem step_message (s : Server C) (ctx : ChannelHandlerContext C) (now : Clock) (m : Model) :
    ∃ b, step s (.message ctx now m) = stateAfter ((do
      let w ← raising (convertToMessageWrapper now.text (s.account ctx.channel) m)
      receiveMessages (Channel.server ctx.channel) now ctx w)
        { s with builder := b, out := [] }) := by
  obtain ⟨b, hhandle⟩ := handle_message_eq { s with out := [] } ctx now m
  exact ⟨b, congrArg stateAfter hhandle⟩

theorem step_linkKeep (s : Server C) (ctx : ChannelHandlerContext C) (now : Clock) {m : Model}
    (hLK : m.type = lit "LK") : step s (.message ctx now m) =
      stateAfter (heartbeat now ctx (linkKeep (Channel.server ctx.channel) m)
        (Server.remember { s with out := [] } ctx.channel m)) := by
  rw [step, handle_message_remember]
  simp [convertToMessageWrapper_LK hLK, receiveMessages, MessageWrapper.isHeartbeat, linkKeep]

theorem Server.Wellformed.remember {s : Server C} (hwf : s.Wellformed) (c : C) (m : Model) :
    (s.remember c m).Wellformed := by
  rw [remember_eq]
  exact hwf

/-- A link-keep message stamps its channel and logs it in. -/
theorem step_linkKeep_login {s : Server C} (hwf : s.Wellformed) (ctx : ChannelHandlerContext C)
    (now : Clock) {m : Model} (hLK : m.type = lit "LK") :
    Login ((Server.remember { s with out := [] } ctx.channel m).setHeartbeat ctx.channel
        (some now.millis)) ctx (Channel.server ctx.channel) m.deviceId { m with body := [] }
      (step s (.message ctx now m)) := by
  have hwf' : Server.Wellformed { s with out := [] } := hwf
  obtain ⟨t, hlogin, hrun⟩ := heartbeat_login now ctx (hwf'.remember ctx.channel m)
    (w := linkKeep (Channel.server ctx.channel) m) rfl rfl
  rw [step_linkKeep s ctx now hLK, hrun]
  exact hlogin

theorem effect_linkKeep {s : Server C} (hwf : s.Wellformed) (ctx : ChannelHandlerContext C)
    (now : Clock) {m : Model} (hLK : m.type = lit "LK") :
    Effect s (.message ctx now m) (step s (.message ctx now m)) := by
  refine .login ctx now m _ _ hLK ?_ ?_ (step_linkKeep_login hwf ctx now hLK)
  all_goals
    rw [remember_eq]
    rfl

theorem channelInactive_apply (s : Server C) (ctx : ChannelHandlerContext C) (now : Clock) :
    stateAfter (channelInactive (Channel.server ctx.channel) now ctx s) =
      if ctx.remoteAddress ≠ none ∧ isNotBlank (s.account ctx.channel) = true then
        stateAfter (close now ctx s)
      else s := by
  cases haddr : ctx.remoteAddress with
  -- the log line raises before the close
  | none => simp [channelInactive, ChannelHandlerContext.getRemoteAddress, haddr, stateAfter]
  | some address =>
    simp only [channelInactive, ChannelHandlerContext.getRemoteAddress, haddr, getChannelSessionId,
      receiveMessages, MessageWrapper.isHeartbeat, MessageWrapper.isClose, closeWrapper, raising_ok,
      bind_apply, get_apply, pure_apply]
    -- the message is a close, which `close(ctx, wrapper)` handles for a channel with an account
    by_cases hblank : isNotBlank (s.account ctx.channel) = true
    · simp [hblank]
    · simp [hblank, stateAfter]

theorem step_channelInactive (s : Server C) (ctx : ChannelHandlerContext C) (now : Clock) :
    step s (.channelInactive ctx now) =
      if ctx.remoteAddress ≠ none ∧ isNotBlank (s.account ctx.channel) = true then
        stateAfter (close now ctx (s.meets (.channelInactive ctx now)))
      else s.meets (.channelInactive ctx now) :=
  channelInactive_apply (s.meets (.channelInactive ctx now)) ctx now

theorem effect_channelInactive {s : Server C} (hwf : s.Wellformed) (ctx : ChannelHandlerContext C)
    (now : Clock) : Effect s (.channelInactive ctx now) (step s (.channelInactive ctx now)) := by
  rw [step_channelInactive]
  split_ifs with hreach
  · exact .close _ _ _ hreach (close_closing now ctx hwf) (SameLogins.refl _) rfl
  · exact .quiet _ _ id hreach (SameLogins.refl _)

theorem writes_route {source : Source} {now : Clock} {ctx : ChannelHandlerContext C} {m : Model}
    (hLK : m.type ≠ lit "LK") (sessionId : Option Text) : Within OnlyWrites (do
      let w ← raising (convertToMessageWrapper now.text sessionId m)
      receiveMessages source now ctx w) := by
  intro s
  cases hconv : convertToMessageWrapper now.text sessionId m with
  -- a message without a wrapper raises before anything has changed
  | error e => rfl
  | ok w =>
    obtain ⟨hheartbeat, hclose⟩ := not_isHeartbeat_of_convertToMessageWrapper hLK hconv
    simpa using writes_receiveMessages hheartbeat hclose s

/-- A message that is no link-keep message is remembered and handed on. -/
theorem writes_message (s : Server C) (ctx : ChannelHandlerContext C) (now : Clock) {m : Model}
    (hLK : m.type ≠ lit "LK") :
    (s.remember ctx.channel m).OnlyWrites (stateAfter (handle (.message ctx now m) s)) := by
  rw [handle_message_remember]
  exact writes_route hLK _ _

/-- So it leaves the logins as they are. -/
theorem quiet_message (ctx : ChannelHandlerContext C) (now : Clock) {m : Model}
    (hLK : m.type ≠ lit "LK") : Within SameLogins (handle (.message ctx now m)) := by
  intro s
  have hremember : s.SameLogins (s.remember ctx.channel m) := by
    rw [remember_eq]
    rfl
  exact SameLogins.trans _ _ _ hremember (writes_message s ctx now hLK).sameLogins

/-! ## Idle channels -/

section ReaderIdle

variable {s : Server C} {ctx : ChannelHandlerContext C} {now : Clock}

theorem handle_readerIdle_of_expired (h : ReachesClose s (.readerIdle ctx now)) :
    handle (.readerIdle ctx now) s =
      match close now ctx s with
      | .ok _ t => .ok () (t.setHeartbeat ctx.channel none)
      | .error e t => .error e t := by
  obtain ⟨lastTime, hstamp, hexpired⟩ := h
  simp only [handle, readerIdle, bind_apply, get_apply, hstamp, ge_iff_le, hexpired, if_true,
    modify_apply]
  cases close now ctx s <;> rfl

/-- Without an account the close raises, and the stamp is not cleared. -/
theorem handle_readerIdle_of_no_account (h : ReachesClose s (.readerIdle ctx now))
    (ha : s.account ctx.channel = none) :
    handle (.readerIdle ctx now) s = .error .runtime s := by
  rw [handle_readerIdle_of_expired h, close_of_no_account ha]

theorem handle_readerIdle_of_account (hwf : s.Wellformed) (h : ReachesClose s (.readerIdle ctx now))
    {a : Text} (ha : s.account ctx.channel = some a) :
    ∃ t, handle (.readerIdle ctx now) s = .ok () (t.setHeartbeat ctx.channel none) ∧
      Closing s ctx.channel t := by
  obtain ⟨t, ht, hclosing⟩ := close_of_account now hwf ha
  refine ⟨t, ?_, hclosing⟩
  rw [handle_readerIdle_of_expired h, ht]

theorem handle_readerIdle_of_not_expired (h : ¬ ReachesClose s (.readerIdle ctx now)) :
    handle (.readerIdle ctx now) s = .ok () (s.setHeartbeat ctx.channel none) := by
  simp only [handle, readerIdle, bind_apply, get_apply]
  cases hstamp : s.heartbeat ctx.channel with
  | none => rfl
  | some lastTime =>
    have hyoung : ¬ pingTimeOut ≤ now.millis - lastTime := fun hexpired =>
      h ⟨lastTime, hstamp, hexpired⟩
    simp [hyoung]

end ReaderIdle

theorem effect_readerIdle {s : Server C} (hwf : s.Wellformed) (ctx : ChannelHandlerContext C)
    (now : Clock) : Effect s (.readerIdle ctx now) (step s (.readerIdle ctx now)) := by
  let s₀ : Server C := { s with out := [] }
  by_cases hreach : ReachesClose s (.readerIdle ctx now)
  · cases ha : s.account ctx.channel with
    | none =>
      have hhandle := handle_readerIdle_of_no_account (s := s₀) hreach ha
      have habsent : Closing s₀ ctx.channel s₀ := .absent fun a ha' => by cases ha.symm.trans ha'
      rw [step, hhandle]
      exact .close _ _ _ hreach habsent (SameLogins.refl s₀) rfl
    | some a =>
      obtain ⟨t, hhandle, hclosing⟩ := handle_readerIdle_of_account (s := s₀) hwf hreach ha
      rw [step, hhandle]
      exact .close _ t _ hreach hclosing rfl rfl
  · have hhandle := handle_readerIdle_of_not_expired (s := s₀) hreach
    rw [step, hhandle]
    exact .quiet _ _ id hreach rfl

/-- What a writer-idle event does: it stamps its channel, and may write a template to it, or the
copy of its last message with another type and body. -/
inductive WriterIdle (s : Server C) (c : C) (now : Int) : Server C → Prop
  | silent : WriterIdle s c now (s.setHeartbeat c now)
  | template (msg : Model) : WriterIdle s c now ((s.setHeartbeat c now).writeAndFlush c msg)
  | copy (b : Model) (hb : s.builder c = some b) :
      WriterIdle s c now (((s.setHeartbeat c now).setBuilder c
        { b with body := [], type := lit "LK" }).writeAndFlush c
          { b with body := [], type := lit "LK" })

section WriterIdle

omit [Channel C]

variable {s t : Server C} {c : C} {now : Int}

theorem WriterIdle.sameLogins (h : WriterIdle s c now t) : s.SameLogins t := by
  cases h <;> rfl

theorem WriterIdle.heartbeat (h : WriterIdle s c now t) :
    t.heartbeat = Function.update s.heartbeat c (some now) := by
  cases h <;> rfl

/-- It writes to its channel only. -/
theorem WriterIdle.write_of_mem_out {o : Output C} (h : WriterIdle s c now t) (ho : o ∈ t.out) :
    o ∈ s.out ∨ ∃ msg, o = .write c msg := by
  have hwrite : ∀ {u : Server C} {msg}, u.out = s.out → o ∈ (u.writeAndFlush c msg).out →
      o ∈ s.out ∨ ∃ msg, o = .write c msg := by
    intro u msg hu ho
    rw [Server.writeAndFlush_out, hu] at ho
    split_ifs at ho
    · exact (List.mem_append.mp ho).imp_right fun ho => ⟨msg, List.mem_singleton.mp ho⟩
    · exact .inl ho
  cases h with
  | silent => exact .inl ho
  | template msg => exact hwrite rfl ho
  | copy b hb => exact hwrite rfl ho

end WriterIdle

section Handlers

variable {s : Server C} {ctx : ChannelHandlerContext C}

theorem handle_writerIdle_socket (now : Clock) (h : Channel.server ctx.channel = .socket) :
    handle (.writerIdle ctx now) s =
      if isNotEmpty (s.account ctx.channel) then
        heartbeatToClient now ctx (s.setHeartbeat ctx.channel (some now.millis))
      else .ok () (s.setHeartbeat ctx.channel (some now.millis)) := by
  simp only [handle, h, WatchServerHandler.writerIdle, getChannelSessionId, bind_apply,
    modify_apply, get_apply, pure_apply, Server.setHeartbeat_account]
  split_ifs <;> rfl

/-- The heartbeat of the WebSocket server is its copy of the last message, without the body. -/
theorem handle_writerIdle_websocket (now : Clock) (h : Channel.server ctx.channel = .websocket) :
    handle (.writerIdle ctx now) s =
      if isNotEmpty (s.account ctx.channel) then
        match s.builder ctx.channel with
        | none => .error .nullPointer (s.setHeartbeat ctx.channel (some now.millis))
        | some b => .ok () (((s.setHeartbeat ctx.channel (some now.millis)).setBuilder ctx.channel
            { b with body := [], type := lit "LK" }).writeAndFlush ctx.channel
              { b with body := [], type := lit "LK" })
      else .ok () (s.setHeartbeat ctx.channel (some now.millis)) := by
  simp only [handle, h, WatchWebSocketServerHandler.writerIdle, getChannelSessionId, bind_apply,
    modify_apply, get_apply, pure_apply, Server.setHeartbeat_account]
  split_ifs
  · simp only [bind_apply, get_apply, Server.setHeartbeat_builder]
    cases s.builder ctx.channel <;> rfl
  · rfl

end Handlers

omit [Channel C] in
theorem heartbeatToClient_writerIdle (now : Clock) (s : Server C) (ctx : ChannelHandlerContext C) :
    WriterIdle s ctx.channel now.millis
      (stateAfter (heartbeatToClient now ctx (s.setHeartbeat ctx.channel (some now.millis)))) := by
  simp only [heartbeatToClient, getChannelSessionId, bind_apply, get_apply, pure_apply]
  cases generateTemplate now.text _ (lit "LK") [] with
  | error e => exact .silent
  | ok msg => exact .template msg

theorem handle_writerIdle (s : Server C) (ctx : ChannelHandlerContext C) (now : Clock) :
    WriterIdle s ctx.channel now.millis (stateAfter (handle (.writerIdle ctx now) s)) := by
  cases hserver : Channel.server ctx.channel with
  | socket =>
    rw [handle_writerIdle_socket now hserver]
    split_ifs
    · exact heartbeatToClient_writerIdle now s ctx
    · exact .silent
  | websocket =>
    rw [handle_writerIdle_websocket now hserver]
    split_ifs
    · cases hb : s.builder ctx.channel with
      | none => exact .silent
      | some b => exact .copy b hb
    · exact .silent

/-- The heartbeat that is written to an idle channel leaves the logins as they are. -/
theorem quiet_writerIdle (ctx : ChannelHandlerContext C) (now : Clock) :
    Within SameLogins (handle (.writerIdle ctx now)) :=
  fun s => (handle_writerIdle s ctx now).sameLogins

/-! ## The cases of a step -/

/-- **The cases of a step.** -/
theorem step_effect {s : Server C} (hwf : s.Wellformed) (e : Event C) : Effect s e (step s e) := by
  cases e with
  | message ctx now m =>
    by_cases hLK : m.type = lit "LK"
    · exact effect_linkKeep hwf ctx now hLK
    · exact .quiet _ _ hLK id (quiet_message ctx now hLK _)
  | writerIdle ctx now => exact .quiet _ _ id id (quiet_writerIdle ctx now _)
  | readerIdle ctx now => exact effect_readerIdle hwf ctx now
  | disconnect c => exact .quiet _ _ id id rfl
  | channelInactive ctx now => exact effect_channelInactive hwf ctx now

/-- A link-keep message. -/
theorem step_login {s : Server C} (hwf : s.Wellformed) (ctx : ChannelHandlerContext C) (now : Clock)
    {m : Model} (hLK : m.type = lit "LK") : ∃ s₀, s.SameLogins s₀ ∧ s₀.out = [] ∧
      Login s₀ ctx (Channel.server ctx.channel) m.deviceId { m with body := [] }
        (step s (.message ctx now m)) := by
  cases step_effect hwf (.message ctx now m) with
  | login _ _ _ s₀ _ hm hs₀ hout hlogin => exact ⟨s₀, hs₀, hout, hlogin⟩
  | close _ t _ hreach => exact absurd hreach id
  | quiet _ _ hnot => exact absurd hLK hnot

/-- A link-keep message, taken out of its event. -/
theorem Event.IsLinkKeep.exists_login {s : Server C} (hwf : s.Wellformed) {e : Event C}
    (h : e.IsLinkKeep) : ∃ ctx now m s₀, e = .message ctx now m ∧ m.type = lit "LK" ∧
      s.SameLogins s₀ ∧ s₀.out = [] ∧
        Login s₀ ctx (Channel.server ctx.channel) m.deviceId { m with body := [] } (step s e) := by
  cases e with
  | message ctx now m =>
    obtain ⟨s₀, hs₀, hout, hlogin⟩ := step_login hwf ctx now h
    exact ⟨ctx, now, m, s₀, rfl, h, hs₀, hout, hlogin⟩
  | writerIdle | readerIdle | disconnect | channelInactive => exact absurd h id

/-- An event that neither logs in nor reaches the close. -/
theorem step_quiet {s : Server C} (hwf : s.Wellformed) {e : Event C} (hLK : ¬ e.IsLinkKeep)
    (h : ¬ ReachesClose s e) : (s.meets e).SameLogins (step s e) := by
  cases step_effect hwf e with
  | login ctx now m s₀ _ hm => exact absurd hm hLK
  | close _ t _ hreach => exact absurd hreach h
  | quiet _ _ _ _ ht => exact ht

/-- An event that reaches the close does what the close does. -/
theorem step_closing {s : Server C} (hwf : s.Wellformed) {e : Event C} (h : ReachesClose s e) :
    ∃ t, Closing (s.meets e) e.channel t ∧ t.SameLogins (step s e) ∧ (step s e).out = t.out := by
  cases step_effect hwf e with
  | login ctx now m s₀ _ hLK hs₀ hout hlogin => exact absurd h id
  | close _ t _ hreach hclose ht hout => exact ⟨t, hclose, ht, hout⟩
  | quiet _ _ hLK hreach ht => exact absurd h hreach

/-- No event opens a channel. -/
theorem opened_of_step {s : Server C} (hwf : s.Wellformed) {e : Event C} {c : C}
    (h : (step s e).channel c = .opened) : s.channel c = .opened := by
  cases step_effect hwf e with
  | login ctx now m s₀ _ hLK hs₀ hout hlogin => rwa [hlogin.channel, hs₀.channel] at h
  | close _ t _ hreach hclose ht hout =>
    rw [ht.channel] at h
    exact opened_of_meets s e (hclose.opened h)
  | quiet _ _ hLK hreach ht =>
    rw [ht.channel] at h
    exact opened_of_meets s e h

theorem step_inactive_iff {s : Server C} (hwf : s.Wellformed) {e : Event C} {x : C} :
    (step s e).channel x = .inactive ↔ Reported s e x := by
  cases step_effect hwf e with
  | login ctx now m s₀ _ hLK hs₀ hout hlogin =>
    rw [hlogin.channel, hs₀.channel]
    exact meets_inactive_iff s (.message ctx now m)
  | close _ t _ hreach hclose ht hout => rw [ht.channel, hclose.inactive_iff, meets_inactive_iff]
  | quiet _ _ hLK hreach ht => rw [ht.channel, meets_inactive_iff]

theorem step_closing_sessions_of_ne {s : Server C} (hwf : s.Wellformed) {e : Event C}
    (h : ReachesClose s e) {a : Text} (ha : s.account e.channel ≠ some a) :
    (step s e).sessions a = s.sessions a := by
  obtain ⟨t, hclose, ht, -⟩ := step_closing hwf h
  rw [ht.sessions, hclose.sessions_of_ne (by rwa [meets_account]), meets_sessions]

/-- A close of a channel at the session of its account: nothing is closed if the session has nothing
under the short id, and the session goes if no page is left. -/
theorem step_closing_of_some {s : Server C} (hwf : s.Wellformed) {e : Event C}
    (h : ReachesClose s e) {a : Text} {S : Session C} (ha : s.account e.channel = some a)
    (hS : s.sessions a = some S) :
    (S.closing (Channel.asShortText e.channel) = none ∧
        ((s.meets e).leaveGroup e.channel).SameLogins (step s e)) ∨
      ∃ y S', S.closing (Channel.asShortText e.channel) = some (y, S') ∧
        ((S'.sessions ≠ [] ∧ ((((s.meets e).store a S').closeChannel y).leaveGroup
            e.channel).SameLogins (step s e)) ∨
          (S'.sessions = [] ∧ ∃ now msg members, getOffLineStateMsg now a = .ok msg ∧
            .broadcast msg members ∈ (step s e).out ∧
              ((((s.meets e).closeChannel y).drop a).leaveGroup e.channel).SameLogins
                (step s e))) := by
  obtain ⟨t, hclose, ht, hout⟩ := step_closing hwf h
  have hcases := hclose.of_some (by rwa [meets_account]) (by rwa [meets_sessions])
  rcases hcases with ⟨hnone, rfl⟩ | ⟨y, S', hclosing, ⟨hpages, rfl⟩ | ⟨hpages, now, msg, hmsg, rfl⟩⟩
  · exact .inl ⟨hnone, ht⟩
  · exact .inr ⟨y, S', hclosing, .inl ⟨hpages, ht⟩⟩
  · refine .inr ⟨y, S', hclosing, .inr ⟨hpages, now, msg, ((s.meets e).closeChannel y).group, hmsg,
      ?_, ht⟩⟩
    rw [hout]
    exact List.mem_append_right _ List.mem_cons_self

end NettyTcpWeb
