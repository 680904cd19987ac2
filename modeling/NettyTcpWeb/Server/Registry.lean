import NettyTcpWeb.Server.Client
import NettyTcpWeb.Server.Effect

/-!
# The channels attached to an account

A channel is attached to an account if the session stored under the account reaches it. A login
attaches its channel to one account and may detach the channels of the session that gave way; a
close detaches the channel it closes, and all channels of a session that goes. The shape of the
stored sessions is kept by both.

## Main definitions

* `Server.Attached`: the channels attached to an account
* `Footprint`: what a message of a channel may change

## Main results

* `attached_of_update_some`, `attached_of_update_none`: who is attached behind an update of the map
* `Session.closing_cases`, `Session.Wellformed.closing_websocket`: the channel a close detaches
* `Login.session_cases`, `Login.attached_self_iff`: the session behind a login, and its channel
* `Server.Wellformed.step`, `wellformed_of_reachable`: **every reachable state is well formed**
* `past_of_step`: what a step from a well-formed state preserves of the past events and the state
* `message_footprint`: **a message changes nothing but the login of its own device**, and that only
  if it is a link-keep message
-/

namespace NettyTcpWeb

open Java (Text lit)

variable {C : Type}

/-- The session stored under the account reaches the channel. -/
def Server.Attached (s : Server C) (key : Text) (c : C) : Prop :=
  ∃ S, s.sessions key = some S ∧ S.Attached c

theorem attached_of_some {s : Server C} {key : Text} {S : Session C} (hS : s.sessions key = some S)
    {c : C} : s.Attached key c ↔ S.Attached c := by
  simp [Server.Attached, hS]

theorem not_attached_of_none {s : Server C} {key : Text} (h : s.sessions key = none) (c : C) :
    ¬ s.Attached key c := by
  rintro ⟨S, hS, -⟩
  simp [h] at hS

/-! ## Updates of the map -/

section Updates

variable {s t : Server C} {key k : Text} {c : C}

theorem attached_of_update_some {S : Session C}
    (h : t.sessions = Function.update s.sessions key (some S)) :
    t.Attached k c ↔ if k = key then S.Attached c else s.Attached k c := by
  by_cases hk : k = key
  · subst hk
    simp [Server.Attached, h]
  · simp [Server.Attached, h, hk]

/-- Under a key that is removed nothing is attached any more. -/
theorem attached_of_update_none (h : t.sessions = Function.update s.sessions key none) :
    t.Attached k c ↔ k ≠ key ∧ s.Attached k c := by
  by_cases hk : k = key
  · subst hk
    simp [Server.Attached, h]
  · simp [Server.Attached, h, hk]

theorem wellformed_of_update_some [Channel C] {S : Session C} (hwf : s.Wellformed)
    (h : t.sessions = Function.update s.sessions key (some S)) (hS : S.Wellformed key) :
    t.Wellformed := by
  intro k T hT
  rw [h] at hT
  rcases HashMap.update_some_iff.mp hT with ⟨rfl, rfl⟩ | ⟨-, hT⟩
  · exact hS
  · exact hwf k T hT

theorem wellformed_of_update_none [Channel C] (hwf : s.Wellformed)
    (h : t.sessions = Function.update s.sessions key none) : t.Wellformed := by
  intro k T hT
  rw [h] at hT
  exact hwf k T (HashMap.update_none_iff.mp hT).2

end Updates

/-! ## The session behind a close -/

section Session

variable {S S' : Session C} {key nid : Text} {y x : C}

/-- A close closes the session's own channel and leaves the session as it is, or it closes a page
and removes it. -/
theorem Session.closing_cases (h : S.closing nid = some (y, S')) :
    (y = S.session ∧ S' = S ∧ (S.source = .socket ∨ S.nid = nid)) ∨
      (S.source = .websocket ∧ S.nid ≠ nid ∧
        ∃ page, (nid, page) ∈ S.sessions ∧ y = page.session ∧ S' = S.without nid) := by
  unfold Session.closing at h
  split_ifs at h with hown
  · obtain ⟨rfl, rfl⟩ : S.session = y ∧ S = S' := by simpa using h
    exact .inl ⟨rfl, rfl, hown⟩
  · obtain ⟨hsocket, hnid⟩ := not_or.mp hown
    obtain ⟨page, hpage, hy⟩ := Option.map_eq_some_iff.mp h
    obtain ⟨rfl, rfl⟩ := Prod.mk.inj hy
    exact .inr ⟨Source.eq_websocket hsocket, hnid, page, HashMap.mem_of_get hpage, rfl, rfl⟩

theorem Session.closing_eq_none (h : S.closing nid = none) :
    S.source = .websocket ∧ S.nid ≠ nid ∧ ∀ e ∈ S.sessions, e.1 ≠ nid := by
  unfold Session.closing at h
  split_ifs at h with hown
  obtain ⟨hsocket, hnid⟩ := not_or.mp hown
  exact ⟨Source.eq_websocket hsocket, hnid,
    HashMap.get_eq_none_iff.mp (Option.map_eq_none_iff.mp h)⟩

theorem Session.attached_without :
    (S.without nid).Attached x ↔ x = S.session ∨ ∃ e ∈ S.sessions, e.1 ≠ nid ∧ x = e.2.session := by
  simp only [Session.Attached, Session.without, HashMap.mem_remove]
  constructor
  · rintro (rfl | ⟨e, ⟨he, hnid⟩, rfl⟩)
    · exact .inl rfl
    · exact .inr ⟨e, he, hnid, rfl⟩
  · rintro (rfl | ⟨e, he, hnid, rfl⟩)
    · exact .inl rfl
    · exact .inr ⟨e, ⟨he, hnid⟩, rfl⟩

/-- A further page takes the place of the page under its short id. -/
theorem Session.attached_addSessions {new : Session C} {now : Int} :
    ({ S.addSessions new with updateTime := now } : Session C).Attached x ↔
      x = S.session ∨ x = new.session ∨ ∃ e ∈ S.sessions, e.1 ≠ new.nid ∧ x = e.2.session := by
  simp only [Session.Attached, Session.addSessions, HashMap.mem_put]
  constructor
  · rintro (rfl | ⟨e, rfl | ⟨he, hnid⟩, rfl⟩)
    · exact .inl rfl
    · exact .inr (.inl rfl)
    · exact .inr (.inr ⟨e, he, hnid, rfl⟩)
  · rintro (rfl | rfl | ⟨e, he, hnid, rfl⟩)
    · exact .inl rfl
    · exact .inr ⟨_, .inl rfl, rfl⟩
    · exact .inr ⟨e, .inr ⟨he, hnid⟩, rfl⟩

theorem Session.attached_of_closing (h : S.closing nid = some (y, S')) : S.Attached y := by
  obtain ⟨rfl, -, -⟩ | ⟨-, -, page, hpage, rfl, -⟩ := Session.closing_cases h
  · exact .inl rfl
  · exact .inr ⟨_, hpage, rfl⟩

theorem Session.Attached.of_closing (h : S.closing nid = some (y, S')) (hx : S'.Attached x) :
    S.Attached x := by
  obtain ⟨-, rfl, -⟩ | ⟨-, -, page, -, -, rfl⟩ := Session.closing_cases h
  · exact hx
  · rcases Session.attached_without.mp hx with rfl | ⟨e, he, -, rfl⟩
    · exact .inl rfl
    · exact .inr ⟨e, he, rfl⟩

theorem Session.source_of_closing (h : S.closing nid = some (y, S')) : S'.source = S.source := by
  obtain ⟨-, rfl, -⟩ | ⟨-, -, page, -, -, rfl⟩ := Session.closing_cases h
  · rfl
  · rfl

variable [Channel C]

/-- A close detaches no channel but the one it closes. -/
theorem Session.Attached.closing (hwf : S.Wellformed key) (h : S.closing nid = some (y, S'))
    (hx : S.Attached x) (hne : x ≠ y) : S'.Attached x := by
  obtain ⟨-, rfl, -⟩ | ⟨-, -, page, hpage, rfl, rfl⟩ := Session.closing_cases h
  · exact hx
  · rcases hx with rfl | ⟨e, he, rfl⟩
    · exact .inl rfl
    · refine Session.attached_without.mpr (.inr ⟨e, he, ?_, rfl⟩)
      rintro rfl
      exact hne (congrArg Session.session (HashMap.eq_of_mem hwf.nodup he hpage))

theorem Session.Wellformed.without (hwf : S.Wellformed key) (nid : Text) :
    (S.without nid).Wellformed key where
  account := hwf.account
  nid := hwf.nid
  socket hsocket := List.filter_eq_nil_iff.mpr fun e he => by simp [hwf.socket hsocket] at he
  page e he := hwf.page e (HashMap.mem_remove.mp he).1
  nodup := HashMap.nodup_remove hwf.nodup

theorem Session.Wellformed.closing (hwf : S.Wellformed key) (h : S.closing nid = some (y, S')) :
    S'.Wellformed key := by
  obtain ⟨-, rfl, -⟩ | ⟨-, -, page, -, -, rfl⟩ := Session.closing_cases h
  · exact hwf
  · exact hwf.without nid

/-- At a WebSocket session a close closes its channel: the session's own one, or that of a page,
which is gone then. -/
theorem Session.Wellformed.closing_websocket (hwf : S.Wellformed key)
    (hinj : Function.Injective (Channel.asShortText : C → Text)) {c : C}
    (hws : S.source = .websocket)
    (h : S.closing (Channel.asShortText c) = some (y, S')) :
    y = c ∧ (c = S.session ∧ S' = S ∨ c ≠ S.session ∧ (∃ p ∈ S.sessions, p.2.session = c) ∧
      ∀ p, p ∈ S'.sessions ↔ p ∈ S.sessions ∧ p.2.session ≠ c) := by
  rcases Session.closing_cases h with ⟨rfl, rfl, hown⟩ | ⟨-, hnid, page, hpage, rfl, rfl⟩
  · have hown : S'.nid = Channel.asShortText c :=
      hown.resolve_left fun hsocket => by cases hws.symm.trans hsocket
    have hc : S'.session = c := hinj (hwf.nid.symm.trans hown)
    exact ⟨hc, .inl ⟨hc.symm, rfl⟩⟩
  · have hc : page.session = c := hinj (hwf.page _ hpage).1.symm
    refine ⟨hc, .inr ⟨?_, ⟨_, hpage, hc⟩, fun p => ?_⟩⟩
    · rintro rfl
      exact hnid hwf.nid
    · show p ∈ HashMap.remove S.sessions _ ↔ _
      rw [HashMap.mem_remove]
      refine and_congr_right fun hp => not_congr ?_
      rw [(hwf.page p hp).1]
      exact hinj.eq_iff

theorem Session.Wellformed.not_attached (hwf : S.Wellformed key) {c : C}
    (h : S.closing (Channel.asShortText c) = none) : ¬ S.Attached c := by
  obtain ⟨-, hnid, hpages⟩ := Session.closing_eq_none h
  rintro (rfl | ⟨p, hp, rfl⟩)
  · exact hnid hwf.nid
  · exact hpages p hp (hwf.page p hp).1

/-- A further page keeps the shape of the session. -/
theorem Session.Wellformed.addSessions {new : Session C} {c : C} {now : Int}
    (hwf : S.Wellformed key) (hws : S.source = .websocket) (hnew : new.OfLogin c .websocket key) :
    ({ S.addSessions new with updateTime := now } : Session C).Wellformed key where
  account := hwf.account
  nid := hwf.nid
  socket hsocket := by cases hws.symm.trans hsocket
  page e he := by
    rcases HashMap.mem_put.mp he with rfl | ⟨he, -⟩
    · exact ⟨hnew.nid.trans (congrArg _ hnew.session.symm), hnew.session ▸ hnew⟩
    · exact hwf.page e he
  nodup := HashMap.nodup_put hwf.nodup

end Session

/-! ## The attached channels behind an event -/

section Attached

variable [DecidableEq C] [Channel C] {s t : Server C} {k : Text} {x : C}

section Login

variable {ctx : ChannelHandlerContext C} {source : Source} {d : Text} {msg : Model}

/-- A login sets the account of its channel, also without a session. -/
theorem Login.account (h : Login s ctx source d msg t) :
    t.account = Function.update s.account ctx.channel (some d) := by
  cases h with
  | reconnect h =>
    rw [Server.push_account, ← h, Function.update_eq_self]
  | unknown h haddr => exact congrArg (Function.update · _ _) (evict_account s d source)
  | session new =>
    exact (Server.push_account _ d msg).trans
      (congrArg (Function.update · _ _) (evict_account s d source))
  | page S new now => exact Server.push_account _ d msg

/-- A login changes no session but that of its account. -/
theorem Login.sessions_of_ne (h : Login s ctx source d msg t) (hk : k ≠ d) :
    t.sessions k = s.sessions k := by
  cases h with
  | reconnect h => rw [Server.push_sessions]
  | unknown h haddr =>
    show (s.evict d source).sessions k = _
    rcases evict_sessions s d source with hsame | hgone
    · rw [hsame]
    · rw [hgone, Function.update_of_ne hk]
  | session new =>
    rw [Server.push_sessions]
    exact (congrFun (evict_store_sessions s d source new) k).trans (Function.update_of_ne hk _ _)
  | page S new now =>
    rw [Server.push_sessions]
    exact Function.update_of_ne hk _ _

theorem Login.attached_of_ne (h : Login s ctx source d msg t) (hk : k ≠ d) :
    t.Attached k x ↔ s.Attached k x := by
  rw [Server.Attached, Server.Attached, h.sessions_of_ne hk]

/-- The session behind a login was there before, is that of the login, or has it as a page. -/
theorem Login.session_cases {T : Session C} (h : Login s ctx source d msg t)
    (hT : t.sessions d = some T) : s.sessions d = some T ∨
      s.account ctx.channel ≠ some d ∧ ctx.remoteAddress ≠ none ∧
        (T.OfLogin ctx.channel source d ∨ ∃ (S new : Session C) (now : Int),
          s.sessions d = some S ∧ S.source = .websocket ∧ source = .websocket ∧
            new.OfLogin ctx.channel .websocket d ∧
              T = { S.addSessions new with updateTime := now }) := by
  cases h with
  | reconnect h =>
    rw [Server.push_sessions] at hT
    exact .inl hT
  | unknown h haddr =>
    left
    rcases evict_sessions s d source with hsame | hgone
    · exact (congrFun hsame d).symm.trans hT
    · have hnone := (congrFun hgone d).symm.trans hT
      simp at hnone
  | session new h haddr hnone hnew =>
    rw [Server.push_sessions] at hT
    have hnew' := (congrFun (evict_store_sessions s d source new) d).symm.trans hT
    obtain rfl : new = T := by simpa using hnew'
    exact .inr ⟨h, haddr, .inl hnew⟩
  | page S new now h haddr hS hws hsource hnew =>
    rw [Server.push_sessions] at hT
    obtain rfl : _ = T := Option.some.inj ((Function.update_self d _ s.sessions).symm.trans hT)
    subst hsource
    exact .inr ⟨h, haddr, .inr ⟨S, new, now, hS, hws, rfl, hnew, rfl⟩⟩

/-- A login attaches no channel but its own. -/
theorem Login.attached (h : Login s ctx source d msg t) (hx : t.Attached d x) :
    x = ctx.channel ∨ s.Attached d x := by
  obtain ⟨T, hT, hx⟩ := hx
  rcases h.session_cases hT with hS | ⟨-, -, hnew | ⟨S, new, now, hS, -, -, hnew, rfl⟩⟩
  · exact .inr ⟨T, hS, hx⟩
  · exact .inl (hnew.attached_iff.mp hx)
  · rcases Session.attached_addSessions.mp hx with rfl | rfl | ⟨p, hp, -, rfl⟩
    · exact .inr ⟨S, hS, .inl rfl⟩
    · exact .inl hnew.session
    · exact .inr ⟨S, hS, .inr ⟨p, hp, rfl⟩⟩

/-- A login at a known address ends with the message being pushed to the account. -/
theorem Login.exists_push (h : Login s ctx source d msg t) (haddr : ctx.remoteAddress ≠ none) :
    ∃ u : Server C, t = u.push d msg := by
  cases h with
  | unknown h hnone => exact absurd hnone haddr
  | reconnect | session | page => exact ⟨_, rfl⟩

/-- A login at a known address takes no account off the map. -/
theorem Login.sessions_ne_none (h : Login s ctx source d msg t) (haddr : ctx.remoteAddress ≠ none)
    (hk : s.sessions k ≠ none) : t.sessions k ≠ none := by
  by_cases hkd : k = d
  · subst hkd
    cases h with
    | unknown h hnone => exact absurd hnone haddr
    | reconnect h => rwa [Server.push_sessions]
    | session new =>
      rw [Server.push_sessions]
      exact Option.ne_none_iff_exists'.mpr ⟨new,
        (congrFun (evict_store_sessions s k source new) k).trans (Function.update_self _ _ _)⟩
    | page S new now =>
      rw [Server.push_sessions]
      exact Option.ne_none_iff_exists'.mpr ⟨_, Function.update_self _ _ _⟩
  · rwa [h.sessions_of_ne hkd]

/-- A login at a known address leaves its channel attached, unless it trusts the account of the
channel. -/
theorem Login.attached_self_iff (h : Login s ctx source d msg t)
    (haddr : ctx.remoteAddress ≠ none) : t.Attached d ctx.channel ↔
      s.account ctx.channel ≠ some d ∨ s.Attached d ctx.channel := by
  cases h with
  | reconnect h => simp [Server.Attached, h]
  | unknown h hnone => exact absurd hnone haddr
  | session new h _ hnone hnew =>
    refine iff_of_true ⟨new, ?_, hnew.attached_iff.mpr rfl⟩ (.inl h)
    rw [Server.push_sessions]
    exact (congrFun (evict_store_sessions s d source new) d).trans (Function.update_self _ _ _)
  | page S new now h _ hS hws hsource hnew =>
    refine iff_of_true ⟨{ S.addSessions new with updateTime := now }, ?_, ?_⟩ (.inl h)
    · rw [Server.push_sessions]
      exact Function.update_self _ _ _
    · exact Session.attached_addSessions.mpr (.inr (.inl hnew.session.symm))

end Login

theorem Closing.account {c : C} (h : Closing s c t) : t.account = s.account := by
  cases h <;> rfl

/-- A close attaches no channel. -/
theorem Closing.attached {c : C} (h : Closing s c t) (hx : t.Attached k x) : s.Attached k x := by
  cases h with
  | absent | stale => exact hx
  | kept a S S' y ha hS h hpages =>
    have ht : (((s.store a S').closeChannel y).leaveGroup c).Attached k x ↔
        if k = a then S'.Attached x else s.Attached k x := attached_of_update_some rfl
    rw [ht] at hx
    split_ifs at hx with hk
    · exact ⟨S, hk ▸ hS, hx.of_closing h⟩
    · exact hx
  | dropped a S S' y now msg ha hS h hpages hmsg =>
    have ht : ((((s.closeChannel y).drop a).broadcast msg).leaveGroup c).Attached k x ↔
        k ≠ a ∧ s.Attached k x := attached_of_update_none rfl
    exact (ht.mp hx).2

end Attached

/-! ## Reachable states -/

section Reachable

variable [Channel C] {s t : Server C}

theorem wellformed_empty : (Server.empty : Server C).Wellformed := by
  intro key S hS
  cases hS

theorem Server.Wellformed.of_sameLogins (hwf : s.Wellformed) (h : s.SameLogins t) :
    t.Wellformed := by
  unfold Server.SameLogins at h
  rw [h]
  exact hwf

variable [DecidableEq C]

theorem Server.Wellformed.evict (hwf : s.Wellformed) (d : Text) (source : Source) :
    (s.evict d source).Wellformed := by
  rcases evict_sessions s d source with hsame | hgone
  · intro key S hS
    exact hwf key S (hsame ▸ hS)
  · exact wellformed_of_update_none hwf hgone

theorem Server.Wellformed.login {ctx : ChannelHandlerContext C} {source : Source} {d : Text}
    {msg : Model} (hwf : s.Wellformed) (h : Login s ctx source d msg t) : t.Wellformed := by
  cases h with
  | reconnect h => exact hwf.of_sameLogins (.push s d msg)
  | unknown h haddr => exact hwf.evict d source
  | session new h haddr hnone hnew =>
    refine Server.Wellformed.of_sameLogins ?_ (.push _ d msg)
    exact wellformed_of_update_some hwf (evict_store_sessions s d source new) hnew.wellformed
  | page S new now h haddr hS hws hsource hnew =>
    refine Server.Wellformed.of_sameLogins ?_ (.push _ d msg)
    exact wellformed_of_update_some hwf rfl ((hwf d S hS).addSessions hws (hsource ▸ hnew))

theorem Server.Wellformed.closing {c : C} (hwf : s.Wellformed) (h : Closing s c t) :
    t.Wellformed := by
  cases h with
  | absent h => exact hwf
  | stale a S ha hS h => exact hwf
  | kept a S S' y ha hS h hpages =>
    exact wellformed_of_update_some hwf rfl ((hwf a S hS).closing h)
  | dropped a S S' y now msg ha hS h hpages hmsg => exact wellformed_of_update_none hwf rfl

theorem Server.Wellformed.meets (hwf : s.Wellformed) (e : Event C) : (s.meets e).Wellformed := by
  cases e <;> exact hwf

theorem Server.Wellformed.step (hwf : s.Wellformed) (e : Event C) : (step s e).Wellformed := by
  cases step_effect hwf e with
  | login ctx now m s₀ _ hLK hs₀ hout hlogin => exact (hwf.of_sameLogins hs₀).login hlogin
  | close _ t _ hreach hclose ht hout => exact ((hwf.meets e).closing hclose).of_sameLogins ht
  | quiet _ _ hLK hreach ht => exact (hwf.meets e).of_sameLogins ht

/-- A link-keep message changes no session but that of its account. -/
theorem sessions_of_linkKeep (hwf : s.Wellformed) (ctx : ChannelHandlerContext C) (now : Clock)
    {m : Model} (hLK : m.type = lit "LK") {k : Text} (hk : k ≠ m.deviceId) :
    (step s (.message ctx now m)).sessions k = s.sessions k := by
  obtain ⟨s₀, hs₀, -, hlogin⟩ := step_login hwf ctx now hLK
  rw [hlogin.sessions_of_ne hk, hs₀.sessions]

/-- No event but a link-keep message changes an account. -/
theorem account_of_step (hwf : s.Wellformed) {e : Event C} (hLK : ¬ e.IsLinkKeep) :
    (step s e).account = s.account := by
  cases step_effect hwf e with
  | login ctx now m s₀ _ hm => exact absurd hm hLK
  | close _ t _ hreach hclose ht hout => rw [ht.account, hclose.account, meets_account]
  | quiet _ _ _ hreach ht => rw [ht.account, meets_account]

/-- No event but a link-keep message attaches a channel. -/
theorem attached_of_step (hwf : s.Wellformed) {e : Event C} (hLK : ¬ e.IsLinkKeep) {k : Text}
    {x : C} (hx : (step s e).Attached k x) : s.Attached k x := by
  cases step_effect hwf e with
  | login ctx now m s₀ _ hm => exact absurd hm hLK
  | close _ t _ hreach hclose ht hout =>
    rw [Server.Attached, ht.sessions] at hx
    have hmeets := hclose.attached hx
    rwa [Server.Attached, meets_sessions] at hmeets
  | quiet _ _ _ hreach ht => rwa [Server.Attached, ht.sessions, meets_sessions] at hx

/-- The session behind an event that logs nobody in was there before, or a close has left it. -/
theorem session_of_step (hwf : s.Wellformed) {e : Event C} (hLK : ¬ e.IsLinkKeep) {k : Text}
    {T : Session C} (hT : (step s e).sessions k = some T) : ∃ S, s.sessions k = some S ∧
      (T = S ∨ ∃ nid y, S.closing nid = some (y, T) ∧ T.sessions ≠ []) := by
  by_cases hreach : ReachesClose s e
  · obtain ⟨t, hclose, ht, -⟩ := step_closing hwf hreach
    rw [ht.sessions] at hT
    obtain ⟨S, hS, hcases⟩ := hclose.session_cases hT
    exact ⟨S, by rwa [meets_sessions] at hS, hcases⟩
  · rw [(step_quiet hwf hLK hreach).sessions, meets_sessions] at hT
    exact ⟨T, hT, .inl rfl⟩

theorem wellformed_exec {s : Server C} (hwf : s.Wellformed) (es : List (Event C)) :
    ((server C).exec s es).Wellformed := by
  induction es generalizing s with
  | nil => exact hwf
  | cons e es ih => exact ih (hwf.step e)

/-- **Every reachable state is well formed.** -/
theorem wellformed_of_reachable (h : (server C).Reachable .empty s) : s.Wellformed :=
  h.invariant wellformed_empty fun _ e hwf _ => hwf.step e

/-- A relation between the past events and the state that every step from a well-formed state
preserves. -/
theorem past_of_step {R : List (Event C) → Server C → Prop} (hempty : R [] .empty)
    (hstep : ∀ es s e, s.Wellformed → R es s → R (es ++ [e]) (step s e)) (es : List (Event C)) :
    R es ((server C).exec .empty es) := by
  have hboth := Automaton.exec_past (A := server C) (R := fun es s => s.Wellformed ∧ R es s)
    ⟨wellformed_empty, hempty⟩ (fun es s e h => ⟨h.1.step e, hstep es s e h.1 h.2⟩) es
  exact hboth.2

/-- What a message of the channel `c` may change: of the logins nothing unless it is a link-keep
message, and then the session of its device and the account of `c`. No channel is opened or
closed. -/
structure Footprint (s t : Server C) (c : C) (m : Model) : Prop where
  quiet : m.type ≠ lit "LK" →
    t.sessions = s.sessions ∧ t.group = s.group ∧ t.account = s.account
  sessions : ∀ k ≠ m.deviceId, t.sessions k = s.sessions k
  account : ∀ x ≠ c, t.account x = s.account x
  channel : t.channel = s.channel

/-- **A message changes nothing but the login of its own device.** -/
theorem message_footprint (h : (server C).Reachable .empty s) (ctx : ChannelHandlerContext C)
    (now : Clock) (m : Model) : Footprint s (step s (.message ctx now m)) ctx.channel m := by
  have hwf := wellformed_of_reachable h
  by_cases hLK : m.type = lit "LK"
  · obtain ⟨s₀, hs₀, -, hlogin⟩ := step_login hwf ctx now hLK
    exact
      { quiet := fun hnot => absurd hLK hnot
        sessions := fun k hk => sessions_of_linkKeep hwf ctx now hLK hk
        account := fun x hx => by
          rw [hlogin.account, Function.update_of_ne hx, hs₀.account]
        channel := by rw [hlogin.channel, hs₀.channel] }
  · have ht : s.SameLogins (step s (.message ctx now m)) := quiet_message ctx now hLK _
    exact
      { quiet := fun _ => ⟨ht.sessions, ht.group, ht.account⟩
        sessions := fun k _ => congrFun ht.sessions k
        account := fun x _ => congrFun ht.account x
        channel := ht.channel }

/-- A page that is logged in as `1` logs in as `2`. -/
theorem message_footprint_page :
    let s := step .empty ((Client.page 0).linkKeep (lit "1"))
    Footprint s (step s ((Client.page 0).linkKeep (lit "2"))) (Client.page 0)
      { deviceId := lit "2", type := lit "LK" } :=
  message_footprint ⟨[(Client.page 0).linkKeep (lit "1")], ⟨rfl, trivial⟩, rfl⟩ _ _ _

end Reachable

end NettyTcpWeb
