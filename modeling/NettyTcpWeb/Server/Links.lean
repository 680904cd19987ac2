import NettyTcpWeb.Server.Offline

/-!
# Answers to link-keep messages

A link-keep message is answered through the session of its account: the answer is written to every
channel of the session. A channel that has the account already is not logged in again, so it gets no
answer if the session has gone in the meantime, or belongs to another client. Without the address of
the channel the login raises, but not before the channel has got the account.

## Main definitions

* `LoginRaises`, `LeavesLogins`: a login that raises, and a message that changes no login

## Main results

* `linkKeep_answered_iff`: **a link-keep message is answered to its sender** unless the sender has
  the account and is not attached to it
* `failed_login_iff`: **a login that raises changes nothing** only if no login can raise
-/

namespace NettyTcpWeb

open Java (Text lit)
open StateExcept

variable {C : Type} [DecidableEq C] [Channel C]

/-! ## Answers -/

/-- **A link-keep message at a known address** leaves its channel attached to the account, and is
written back to it, if and only if the account is new to the channel or reaches it already. -/
theorem linkKeep_answered_iff {s : Server C} (hs : (server C).Reachable .empty s)
    {ctx : ChannelHandlerContext C} {now : Clock} {m : Model} (hLK : m.type = lit "LK")
    (hopen : Enabled s (.message ctx now m)) (haddr : ctx.remoteAddress ≠ none) :
    ((step s (.message ctx now m)).Attached m.deviceId ctx.channel ∧
        .write ctx.channel { m with body := [] } ∈ (step s (.message ctx now m)).out) ↔
      s.account ctx.channel ≠ some m.deviceId ∨ s.Attached m.deviceId ctx.channel := by
  have hwf := wellformed_of_reachable hs
  obtain ⟨s₀, hs₀, -, hlogin⟩ := step_login hwf ctx now hLK
  have hself := hlogin.attached_self_iff haddr
  rw [hs₀.account, Server.Attached, Server.Attached, hs₀.sessions] at hself
  refine Iff.trans (and_iff_left_of_imp fun hattached => ?_) hself
  obtain ⟨u, hu⟩ := hlogin.exists_push haddr
  have hchannel : u.channel ctx.channel = .opened := by
    rw [← Server.push_channel u m.deviceId { m with body := [] }, ← hu, hlogin.channel, hs₀.channel]
    exact hopen
  have hwf' := hwf.step (.message ctx now m)
  obtain ⟨S, hS, hc⟩ := hattached
  have hS' := (hwf' _ S hS)
  rw [hu, Server.push_sessions] at hS
  rw [hu]
  exact Server.write_mem_push hS ((Session.mem_channels hS').mpr hc) hchannel

/-- Two pages of one account log in. -/
def twoLogins : List (Event Client) :=
  [(Client.page 0).linkKeep (lit "1"), (Client.page 1).linkKeep (lit "1")]

theorem twoLogins_run : (server Client).Run .empty twoLogins := ⟨rfl, rfl, trivial⟩

/-- The second page sends its link-keep message again. -/
theorem linkKeep_answered_iff_again :
    let s := (server Client).exec .empty twoLogins
    ((step s ((Client.page 1).linkKeep (lit "1"))).Attached (lit "1") (Client.page 1) ∧
        .write (Client.page 1) { deviceId := lit "1", type := lit "LK" } ∈
          (step s ((Client.page 1).linkKeep (lit "1"))).out) ↔
      s.account (Client.page 1) ≠ some (lit "1") ∨ s.Attached (lit "1") (Client.page 1) :=
  linkKeep_answered_iff ⟨twoLogins, twoLogins_run, rfl⟩ rfl rfl nofun

/-- **The first page gets no answer** when it sends a link-keep message for its account after the
second page has gone. -/
theorem page_unanswered :
    let s := (server Client).exec .empty secondPageGone
    (server Client).Reachable .empty s ∧ Enabled s ((Client.page 0).linkKeep (lit "1")) ∧
      ¬ (step s ((Client.page 0).linkKeep (lit "1"))).Attached (lit "1") (Client.page 0) ∧
      (step s ((Client.page 0).linkKeep (lit "1"))).out = [] := by
  refine ⟨⟨secondPageGone, secondPageGone_run, rfl⟩, rfl, ?_, rfl⟩
  rintro ⟨S, hS, -⟩
  cases hS

/-! ## Logins that raise -/

/-- The heartbeat calls `createSession`, which raises. -/
def LoginRaises (s : Server C) (ctx : ChannelHandlerContext C) (now : Clock) (w : MessageWrapper) :
    Prop :=
  s.account ctx.channel ≠ w.sessionId ∧
    ∃ e, outcome (createSession now w ctx (s.setHeartbeat ctx.channel now.millis)) = .error e

/-- The sessions, the group and the account of the channel are what they were. -/
structure LeavesLogins (s t : Server C) (c : C) : Prop where
  sessions : t.sessions = s.sessions
  group : t.group = s.group
  account : t.account c = s.account c

/-- A login at a known address never raises. -/
theorem createSession_of_known {s : Server C} (hwf : s.Wellformed) {ctx : ChannelHandlerContext C}
    {w : MessageWrapper} {d : Text} {msg : Model} (now : Clock) (hd : w.sessionId = some d)
    (hbody : w.body = some msg) (haddr : ctx.remoteAddress ≠ none) :
    ∃ new t, createSession now w ctx s = .ok new t := by
  obtain ⟨new, hnew, hset⟩ := setSessionContent_of_known ctx now d hbody haddr
  by_cases hnone : (s.evict d w.source).sessions d = none
  · exact ⟨_, _, createSession_of_none hwf hd hnew hset hnone⟩
  · obtain ⟨S, hS, hws, hsource⟩ := exists_of_evict_ne_none hnone
    exact ⟨_, _, createSession_of_page hwf hd hnew hset hS hws hsource⟩

/-- **A login that raises changes nothing** only if no login can raise: the address of the channel
is known, or the channel has the account already. -/
theorem failed_login_iff {s : Server C} (hs : (server C).Reachable .empty s)
    (ctx : ChannelHandlerContext C) (now : Clock) (m : Model) :
    let w := linkKeep (Channel.server ctx.channel) m
    (LoginRaises s ctx now w → LeavesLogins s (stateAfter (heartbeat now ctx w s)) ctx.channel) ↔
      ctx.remoteAddress ≠ none ∨ s.account ctx.channel = some m.deviceId := by
  intro w
  have hwf := wellformed_of_reachable hs
  have hwf₀ : (s.setHeartbeat ctx.channel (some now.millis)).Wellformed := hwf
  have hd : w.sessionId = some m.deviceId := rfl
  constructor
  · intro h
    by_contra hcond
    obtain ⟨haddr, hne⟩ := not_or.mp hcond
    have haddr := not_not.mp haddr
    -- the account is set before the missing address raises
    have hraise : LoginRaises s ctx now w :=
      ⟨hne, .nullPointer, by rw [createSession_of_raising hwf₀ hd (.inl haddr)]; rfl⟩
    have haccount := (h hraise).account
    rw [heartbeat_of_raising now hwf hd hne (.inl haddr), stateAfter] at haccount
    simp only [Server.setAccount_account, Function.update_self] at haccount
    exact hne haccount.symm
  · rintro hcond ⟨hne, e, he⟩
    have haddr := hcond.resolve_right hne
    have hbody : w.body = some { m with body := [] } := rfl
    obtain ⟨new, t, hok⟩ := createSession_of_known hwf₀ now hd hbody haddr
    rw [hok] at he
    cases he

/-- The context of a page whose address is not known. -/
def unknownPage : ChannelHandlerContext Client := ⟨.page 0, none⟩

theorem failed_login_iff_unknownPage :
    let w := linkKeep .websocket { deviceId := lit "1", type := lit "LK" }
    (LoginRaises .empty unknownPage ⟨0, []⟩ w → LeavesLogins .empty
        (stateAfter (heartbeat ⟨0, []⟩ unknownPage w .empty)) unknownPage.channel) ↔
      unknownPage.remoteAddress ≠ none ∨
        (Server.empty : Server Client).account unknownPage.channel = some (lit "1") :=
  failed_login_iff ⟨[], trivial, rfl⟩ unknownPage ⟨0, []⟩ { deviceId := lit "1", type := lit "LK" }

/-- **The failed login sets the account**, so that the page is not logged in when it sends its
link-keep message again, and its address is known. -/
theorem failed_login_sets_account :
    let w := linkKeep .websocket { deviceId := lit "1", type := lit "LK" }
    let t := stateAfter (heartbeat ⟨0, []⟩ unknownPage w .empty)
    LoginRaises .empty unknownPage ⟨0, []⟩ w ∧
      (Server.empty : Server Client).account (.page 0) = none ∧ t.account (.page 0) = lit "1" ∧
      ¬ LeavesLogins .empty t (Client.page 0) ∧
      (stateAfter (heartbeat ⟨0, []⟩ (Client.page 0).ctx w t)).sessions (lit "1") = none := by
  refine ⟨⟨nofun, _, rfl⟩, rfl, rfl, ?_, rfl⟩
  intro h
  cases h.account

end NettyTcpWeb
