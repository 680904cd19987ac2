import NettyTcpWeb.Server.Sessions

/-!
# Logging in

A link-keep message whose device is the account of its channel already is only answered. Any other
one goes through `createSession`: a session of the other side, or of a TCP client, gives way to the
new one, and a web page joins the session of its account. Without a remote address there is no new
session, but the account of the channel is set and the session that was to give way is gone.

## Main definitions

* `Server.evict`: the session under an account gives way to a login
* `Login`: what a link-keep message does

## Main results

* `createSession_of_raising`, `createSession_of_none`, `createSession_of_page`: the three outcomes
  of `createSession`
* `heartbeat_login`: **a link-keep message logs its channel in**
-/

namespace NettyTcpWeb

open Java (Text Exception)
open StateExcept

variable {C : Type} [DecidableEq C]

/-- The session that `createSession` finds under the account is removed from the map, and its own
channel from the group, unless both logins come from web pages. -/
def Server.evict (s : Server C) (d : Text) (source : Source) : Server C :=
  match s.sessions d with
  | none => s
  | some S =>
    if S.source ≠ source ∨ S.source = .socket then (s.leaveGroup S.session).drop d else s

/-- What a link-keep message `msg` for the account `d` does. The message is answered through the
session stored under the account. -/
inductive Login [Channel C] (s : Server C) (ctx : ChannelHandlerContext C) (source : Source)
    (d : Text) (msg : Model) : Server C → Prop
  | reconnect (h : s.account ctx.channel = some d) : Login s ctx source d msg (s.push d msg)
  | unknown (h : s.account ctx.channel ≠ some d) (haddr : ctx.remoteAddress = none) :
      Login s ctx source d msg ((s.evict d source).setAccount ctx.channel d)
  | session (new : Session C) (h : s.account ctx.channel ≠ some d)
      (haddr : ctx.remoteAddress ≠ none) (hnone : (s.evict d source).sessions d = none)
      (hnew : new.OfLogin ctx.channel source d) :
      Login s ctx source d msg
        (((((s.evict d source).store d new).joinGroup ctx.channel).setAccount ctx.channel d).push d
          msg)
  | page (S new : Session C) (now : Int) (h : s.account ctx.channel ≠ some d)
      (haddr : ctx.remoteAddress ≠ none) (hS : s.sessions d = some S) (hws : S.source = .websocket)
      (hsource : source = .websocket) (hnew : new.OfLogin ctx.channel source d) :
      Login s ctx source d msg
        ((((s.store d { S.addSessions new with updateTime := now }).joinGroup
          ctx.channel).setAccount ctx.channel d).push d msg)

section Evict

variable (s : Server C) (d : Text) (source : Source)

theorem evict_cases : s.evict d source = s ∨ ∃ S, s.sessions d = some S ∧
    (S.source ≠ source ∨ S.source = .socket) ∧
      s.evict d source = (s.leaveGroup S.session).drop d := by
  unfold Server.evict
  cases hS : s.sessions d with
  | none => exact .inl rfl
  | some S =>
    by_cases hev : S.source ≠ source ∨ S.source = .socket
    · exact .inr ⟨S, rfl, hev, if_pos hev⟩
    · exact .inl (if_neg hev)

theorem evict_of_some {S : Session C} (hS : s.sessions d = some S) : s.evict d source =
    if S.source ≠ source ∨ S.source = .socket then (s.leaveGroup S.session).drop d else s := by
  simp [Server.evict, hS]

theorem evict_of_none (hnone : s.sessions d = none) : s.evict d source = s := by
  simp [Server.evict, hnone]

@[simp] theorem evict_account : (s.evict d source).account = s.account := by
  obtain h | ⟨S, -, -, h⟩ := evict_cases s d source
  · rw [h]
  · rw [h]; rfl

@[simp] theorem evict_out : (s.evict d source).out = s.out := by
  obtain h | ⟨S, -, -, h⟩ := evict_cases s d source
  · rw [h]
  · rw [h]; rfl

@[simp] theorem evict_channel : (s.evict d source).channel = s.channel := by
  obtain h | ⟨S, -, -, h⟩ := evict_cases s d source
  · rw [h]
  · rw [h]; rfl

theorem evict_sessions : (s.evict d source).sessions = s.sessions ∨
    (s.evict d source).sessions = Function.update s.sessions d none := by
  rcases evict_cases s d source with h | ⟨S, -, -, h⟩
  · exact .inl (congrArg _ h)
  · exact .inr (congrArg _ h)

theorem evict_store_sessions (S : Session C) :
    ((s.evict d source).store d S).sessions = Function.update s.sessions d (some S) := by
  show Function.update (s.evict d source).sessions d (some S) = _
  rcases evict_sessions s d source with h | h
  · rw [h]
  · rw [h, Function.update_idem]

end Evict

theorem exists_of_evict_ne_none {s : Server C} {d : Text} {source : Source}
    (h : (s.evict d source).sessions d ≠ none) :
    ∃ S, s.sessions d = some S ∧ S.source = .websocket ∧ source = .websocket := by
  unfold Server.evict at h
  cases hS : s.sessions d with
  | none => simp [hS] at h
  | some S =>
    by_cases hev : S.source ≠ source ∨ S.source = .socket
    · simp [hS, hev] at h
    · obtain ⟨hsource, hsocket⟩ := not_or.mp hev
      have hws := Source.eq_websocket hsocket
      exact ⟨S, rfl, hws, (not_not.mp hsource).symm.trans hws⟩

/-- Setting the account once more after `createSession` changes nothing. -/
theorem setAccount_store_joinGroup (s : Server C) (c : C) (d key : Text) (S : Session C) :
    (((s.setAccount c d).store key S).joinGroup c).setAccount c d =
      ((s.store key S).joinGroup c).setAccount c d := by
  simp only [Server.setAccount, Server.store, Server.joinGroup, Function.update_idem]
  rfl

section Login

variable [Channel C] {s : Server C} {now : Clock} {ctx : ChannelHandlerContext C}
  {w : MessageWrapper} {d : Text} {msg : Model}

theorem setSessionContent_of_known (ctx : ChannelHandlerContext C) (now : Clock) (d : Text)
    (hbody : w.body = some msg) (haddr : ctx.remoteAddress ≠ none) :
    ∃ new : Session C, new.OfLogin ctx.channel w.source d ∧ ∀ s,
      setSessionContent now ctx w d s = .ok new (s.setAccount ctx.channel d) := by
  obtain ⟨address, haddr⟩ := Option.ne_none_iff_exists'.mp haddr
  simp only [setSessionContent, bind_apply, modify_apply, ChannelHandlerContext.getRemoteAddress,
    haddr, raising_ok, hbody, pure_apply]
  exact ⟨_, ⟨rfl, rfl, rfl, rfl, rfl⟩, fun s => rfl⟩

/-- Without an address, or without a message, there is no session, but the account is set. -/
theorem setSessionContent_of_raising (h : ctx.remoteAddress = none ∨ w.body = none) :
    setSessionContent now ctx w d s = .error .nullPointer (s.setAccount ctx.channel d) := by
  cases haddr : ctx.remoteAddress with
  | none => simp [setSessionContent, ChannelHandlerContext.getRemoteAddress, haddr]
  | some address =>
    have hbody : w.body = none := h.resolve_left (by simp [haddr])
    simp [setSessionContent, ChannelHandlerContext.getRemoteAddress, haddr, hbody]

theorem createSession_of_raising (hwf : s.Wellformed) (hd : w.sessionId = some d)
    (h : ctx.remoteAddress = none ∨ w.body = none) :
    createSession now w ctx s =
      .error .nullPointer ((s.evict d w.source).setAccount ctx.channel d) := by
  simp only [createSession, bind_apply, hd, nonNull, raising_ok, getSession_some, Server.evict]
  -- the cases of `createSession`; `setSessionContent` raises in each of them
  cases hS : s.sessions d with
  | none => simp [setSessionContent_of_raising h]
  | some S =>
    by_cases hev : S.source ≠ w.source ∨ S.source = .socket
    · simp [hev, setSessionContent_of_raising h, (hwf d S hS).account]
    · obtain ⟨hsource, hsocket⟩ := not_or.mp hev
      have hws := Source.eq_websocket hsocket
      have hws' : w.source = .websocket := (not_not.mp hsource).symm.trans hws
      simp [hws, hws', setSessionContent_of_raising h]

theorem createSession_of_none {new : Session C} (hwf : s.Wellformed) (hd : w.sessionId = some d)
    (hnew : new.OfLogin ctx.channel w.source d)
    (hset : ∀ s, setSessionContent now ctx w d s = .ok new (s.setAccount ctx.channel d))
    (hnone : (s.evict d w.source).sessions d = none) : createSession now w ctx s =
      .ok new
        ((((s.evict d w.source).setAccount ctx.channel d).store d new).joinGroup ctx.channel) := by
  simp only [createSession, bind_apply, hd, nonNull, raising_ok, getSession_some]
  unfold Server.evict at hnone ⊢
  cases hS : s.sessions d with
  | none => simp [hset, addSession, hnew.session, hnew.account]
  | some S =>
    by_cases hev : S.source ≠ w.source ∨ S.source = .socket
    · simp [hev, hset, addSession, hnew.session, hnew.account, (hwf d S hS).account]
    · simp [hS, hev] at hnone

theorem createSession_of_page {S new : Session C} (hwf : s.Wellformed) (hd : w.sessionId = some d)
    (hnew : new.OfLogin ctx.channel w.source d)
    (hset : ∀ s, setSessionContent now ctx w d s = .ok new (s.setAccount ctx.channel d))
    (hS : s.sessions d = some S) (hws : S.source = .websocket) (hsource : w.source = .websocket) :
    createSession now w ctx s = .ok new (((s.setAccount ctx.channel d).store d
      { S.addSessions new with updateTime := now.millis }).joinGroup ctx.channel) := by
  have hkey : (S.addSessions new).account = d := (hwf d S hS).account
  simp [createSession, hd, nonNull, getSession_some, hS, hws, hsource, hset, updateSession,
    hnew.session, hkey]

theorem heartbeat_of_connected (now : Clock) (hd : w.sessionId = some d) (hbody : w.body = some msg)
    (h : s.account ctx.channel = some d) : heartbeat now ctx w s =
      .ok () ((s.setHeartbeat ctx.channel (some now.millis)).push d msg) := by
  simp [heartbeat, hd, nonNull, getChannelSessionId, h, pushMessage_apply hd hbody]

/-- A login that raises is swallowed, and the message stays unanswered. -/
theorem heartbeat_of_raising (now : Clock) (hwf : s.Wellformed) (hd : w.sessionId = some d)
    (h : s.account ctx.channel ≠ some d) (hraise : ctx.remoteAddress = none ∨ w.body = none) :
    heartbeat now ctx w s = .ok () (((s.setHeartbeat ctx.channel (some now.millis)).evict d
      w.source).setAccount ctx.channel d) := by
  have hwf₀ : (s.setHeartbeat ctx.channel (some now.millis)).Wellformed := hwf
  simp only [heartbeat, hd, nonNull, raising_ok, getChannelSessionId, bind_apply, modify_apply,
    get_apply, pure_apply, tryCatch_apply, Server.setHeartbeat_account, if_neg (Ne.symm h),
    createSession_of_raising hwf₀ hd hraise]

theorem heartbeat_of_connecting (now : Clock) (hd : w.sessionId = some d)
    (hbody : w.body = some msg) (h : s.account ctx.channel ≠ some d) : heartbeat now ctx w s =
      match createSession now w ctx (s.setHeartbeat ctx.channel (some now.millis)) with
      | .ok _ t => .ok () ((t.setAccount ctx.channel d).push d msg)
      | .error _ t => .ok () t := by
  simp only [heartbeat, hd, nonNull, raising_ok, getChannelSessionId, bind_apply, modify_apply,
    get_apply, pure_apply, tryCatch_apply, Server.setHeartbeat_account, if_neg (Ne.symm h)]
  cases createSession now w ctx (s.setHeartbeat ctx.channel (some now.millis)) with
  | ok new t => simp [pushMessage_apply hd hbody]
  | error e t => rfl

/-- **A link-keep message logs its channel in.** -/
theorem heartbeat_login (now : Clock) (ctx : ChannelHandlerContext C) (hwf : s.Wellformed)
    (hd : w.sessionId = some d) (hbody : w.body = some msg) : ∃ t,
      Login (s.setHeartbeat ctx.channel (some now.millis)) ctx w.source d msg t ∧
        heartbeat now ctx w s = .ok () t := by
  set s₀ := s.setHeartbeat ctx.channel (some now.millis) with hs₀
  have hwf₀ : s₀.Wellformed := hwf
  by_cases h : s.account ctx.channel = some d
  · exact ⟨_, .reconnect h, heartbeat_of_connected now hd hbody h⟩
  by_cases haddr : ctx.remoteAddress = none
  · exact ⟨_, .unknown h haddr, heartbeat_of_raising now hwf hd h (.inl haddr)⟩
  rw [heartbeat_of_connecting now hd hbody h, ← hs₀]
  obtain ⟨new, hnew, hset⟩ := setSessionContent_of_known ctx now d hbody haddr
  by_cases hnone : (s₀.evict d w.source).sessions d = none
  · rw [createSession_of_none hwf₀ hd hnew hset hnone]
    refine ⟨_, .session new h haddr hnone hnew, ?_⟩
    simp only [setAccount_store_joinGroup]
  · obtain ⟨S, hS, hws, hsource⟩ := exists_of_evict_ne_none hnone
    rw [createSession_of_page hwf₀ hd hnew hset hS hws hsource]
    refine ⟨_, .page S new now.millis h haddr hS hws hsource hnew, ?_⟩
    simp only [setAccount_store_joinGroup]

/-- A login neither opens nor closes a channel. -/
theorem Login.channel {t : Server C} {source : Source} (h : Login s ctx source d msg t) :
    t.channel = s.channel := by
  cases h with
  | reconnect => exact s.push_channel d msg
  | unknown h haddr => exact evict_channel s d source
  | session new => exact (Server.push_channel _ d msg).trans (evict_channel s d source)
  | page S new now => exact Server.push_channel _ d msg

/-- A login writes its answer, and nothing else. -/
theorem Login.write_of_mem_out {t : Server C} {source : Source} {o : Output C}
    (h : Login s ctx source d msg t) (ho : o ∈ t.out) : o ∈ s.out ∨ ∃ c, o = .write c msg := by
  have hpush : ∀ {u : Server C}, o ∈ (u.push d msg).out → u.out = s.out →
      o ∈ s.out ∨ ∃ c, o = .write c msg := by
    intro u ho hu
    exact (Server.mem_push_out ho).imp (hu ▸ ·) fun ⟨c, _, ho, _⟩ => ⟨c, ho⟩
  cases h with
  | reconnect => exact hpush ho rfl
  | unknown => exact .inl (evict_out s d source ▸ ho)
  | session => exact hpush ho (evict_out s d source)
  | page => exact hpush ho rfl

end Login

end NettyTcpWeb
