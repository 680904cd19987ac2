import NettyTcpWeb.Server.Sessions

/-!
# Closing a channel

A channel is closed at the session stored under its account. A TCP session goes at once, whichever
channel it is closed for. A WebSocket session loses the page under the short id of the channel, or
has its own channel closed, and it goes when it is left without pages.

## Main definitions

* `Session.closing`: the channel that is closed, and what is left of the session
* `Closing`: what the close of a channel does

## Main results

* `removeSession_of_closing_none`, `removeSession_of_closing_some`: the outcomes of `removeSession`
* `close_closing`: **closing a channel closes it at the session of its account**
* `close_of_no_account`, `close_of_account`: it raises for a channel without an account only
-/

namespace NettyTcpWeb

open Java (Text Exception isNotBlank)
open StateExcept

variable {C : Type} [DecidableEq C]

/-- The channel that `removeSession` closes for the short id `nid`, and what it leaves of the
session: the own channel of a TCP session or of the session itself, else that of the page. -/
def Session.closing (S : Session C) (nid : Text) : Option (C × Session C) :=
  if S.source = .socket ∨ S.nid = nid then some (S.session, S)
  else (HashMap.get S.sessions nid).map fun page =>
    (page.session, S.without nid)

/-- What the close of a channel does. A session without pages goes, and its account is reported. -/
inductive Closing [Channel C] (s : Server C) (c : C) : Server C → Prop
  | absent (h : ∀ a, s.account c = some a → s.sessions a = none) : Closing s c s
  | stale (a : Text) (S : Session C) (ha : s.account c = some a) (hS : s.sessions a = some S)
      (h : S.closing (Channel.asShortText c) = none) : Closing s c (s.leaveGroup c)
  | kept (a : Text) (S S' : Session C) (y : C) (ha : s.account c = some a)
      (hS : s.sessions a = some S) (h : S.closing (Channel.asShortText c) = some (y, S'))
      (hpages : S'.sessions ≠ []) : Closing s c (((s.store a S').closeChannel y).leaveGroup c)
  | dropped (a : Text) (S S' : Session C) (y : C) (now : Text) (msg : Model)
      (ha : s.account c = some a) (hS : s.sessions a = some S)
      (h : S.closing (Channel.asShortText c) = some (y, S')) (hpages : S'.sessions = [])
      (hmsg : getOffLineStateMsg now a = .ok msg) :
      Closing s c ((((s.closeChannel y).drop a).broadcast msg).leaveGroup c)

section Closing

variable {s : Server C} {now : Clock}

theorem exists_getOffLineStateMsg (now a : Text) : ∃ msg, getOffLineStateMsg now a = .ok msg := by
  simp [getOffLineStateMsg, generateTemplate, nonNull, bind, Except.bind, pure, Except.pure]

theorem removeSession_socket (now : Clock) {a : Text} (nid : Text) {S : Session C}
    (hS : s.sessions a = some S) (hsocket : S.source = .socket) :
    ∃ msg, getOffLineStateMsg now.text a = .ok msg ∧ removeSession now a nid s =
      .ok () (((s.closeChannel S.session).drop a).broadcast msg) := by
  obtain ⟨msg, hmsg⟩ := exists_getOffLineStateMsg now.text a
  refine ⟨msg, hmsg, ?_⟩
  simp [removeSession, getSession_some, hS, hsocket, hmsg]

/-- On the WebSocket side the session goes if the close of a page leaves it without pages. -/
theorem removeSession_websocket (now : Clock) {a : Text} (nid : Text) {S : Session C}
    (hS : s.sessions a = some S) (hws : S.source = .websocket) :
    ∃ msg, getOffLineStateMsg now.text a = .ok msg ∧ removeSession now a nid s =
      match S.closePage a nid s with
      | .ok S' t => .ok () (if S'.sessions = [] then (t.drop a).broadcast msg else t)
      | .error _ t => .ok () t := by
  obtain ⟨msg, hmsg⟩ := exists_getOffLineStateMsg now.text a
  refine ⟨msg, hmsg, ?_⟩
  simp only [removeSession, tryCatch_apply, bind_apply, getSession_some, hS, hws, if_true]
  cases S.closePage a nid s with
  | ok S' t =>
    -- `otherSessionSize() < 1` says that there are no pages
    by_cases hpages : S'.sessions = []
    · simp [Session.otherSessionSize, hpages, hmsg]
    · have hlen : ¬ S'.sessions.length < 1 := by rwa [Nat.lt_one_iff, List.length_eq_zero_iff]
      simp [Session.otherSessionSize, hpages, hlen]
  | error e t => simp

theorem removeSession_of_closing_none {a nid : Text} {S : Session C} (hS : s.sessions a = some S)
    (h : S.closing nid = none) : removeSession now a nid s = .ok () s := by
  unfold Session.closing at h
  split_ifs at h with hown
  obtain ⟨hsocket, hnid⟩ := not_or.mp hown
  rw [Option.map_eq_none_iff] at h
  obtain ⟨msg, -, hremove⟩ :=
    removeSession_websocket now nid hS (Source.eq_websocket hsocket)
  -- the missing page raises; removing it and storing the session again has changed nothing
  have hsame : s.store a (S.without nid) = s := by rw [S.without_eq_self h, s.store_self hS]
  simp [hremove, Session.closePage, hnid, h, hsame]

variable [Channel C] {ctx : ChannelHandlerContext C}

theorem removeSession_of_closing_some (now : Clock) {a nid : Text} {S S' : Session C} {y : C}
    (hwf : S.Wellformed a) (hS : s.sessions a = some S) (h : S.closing nid = some (y, S')) :
    ∃ msg, getOffLineStateMsg now.text a = .ok msg ∧ removeSession now a nid s = .ok ()
      (if S'.sessions = [] then ((s.closeChannel y).drop a).broadcast msg
        else (s.store a S').closeChannel y) := by
  unfold Session.closing at h
  by_cases hsocket : S.source = .socket
  · obtain ⟨rfl, rfl⟩ : S.session = y ∧ S = S' := by simpa [hsocket] using h
    simpa [hwf.socket hsocket] using removeSession_socket now nid hS hsocket
  obtain ⟨msg, hmsg, hremove⟩ :=
    removeSession_websocket now nid hS (Source.eq_websocket hsocket)
  refine ⟨msg, hmsg, ?_⟩
  by_cases hnid : S.nid = nid
  · obtain ⟨rfl, rfl⟩ : S.session = y ∧ S = S' := by simpa [hnid] using h
    simp [hremove, Session.closePage, hnid, s.store_self hS]
  · rw [if_neg (not_or.mpr ⟨hsocket, hnid⟩)] at h
    obtain ⟨page, hpage, hy⟩ := Option.map_eq_some_iff.mp h
    obtain ⟨rfl, rfl⟩ := Prod.mk.inj hy
    have hdrop : ∀ S' : Session C, ((s.store a S').closeChannel page.session).drop a =
        (s.closeChannel page.session).drop a := by
      intro S'
      simp only [Server.drop, Server.store, Server.closeChannel, Function.update_idem]
      rfl
    simp [hremove, Session.closePage, hnid, hpage, hdrop]

theorem close_of_absent (h : ∀ a, s.account ctx.channel = some a → s.sessions a = none) :
    stateAfter (close now ctx s) = s := by
  cases ha : s.account ctx.channel with
  | none => simp [close, getChannelSessionId, ha, getSession, nonNull, stateAfter]
  | some a => simp [close, getChannelSessionId, ha, getSession_some, h a ha, stateAfter]

theorem close_of_some {a : Text} {S : Session C} (ha : s.account ctx.channel = some a)
    (hS : s.sessions a = some S) : close now ctx s =
      match removeSession now a (Channel.asShortText ctx.channel) s with
      | .ok _ t => .ok () (t.leaveGroup ctx.channel)
      | .error _ t => .error .runtime t := by
  simp only [close, getChannelSessionId, bind_apply, get_apply, pure_apply, tryCatch_apply, ha,
    getSession_some, hS, nonNull, raising_ok]
  cases removeSession now a (Channel.asShortText ctx.channel) s with
  | ok u t => simp
  | error e t => simp

/-- **Closing a channel closes it at the session of its account.** -/
theorem close_closing (now : Clock) (ctx : ChannelHandlerContext C) (hwf : s.Wellformed) :
    Closing s ctx.channel (stateAfter (close now ctx s)) := by
  by_cases habsent : ∀ a, s.account ctx.channel = some a → s.sessions a = none
  · rw [close_of_absent habsent]
    exact .absent habsent
  obtain ⟨a, ha, hne⟩ : ∃ a, s.account ctx.channel = some a ∧ s.sessions a ≠ none := by
    simpa using habsent
  obtain ⟨S, hS⟩ := Option.ne_none_iff_exists'.mp hne
  rw [close_of_some ha hS]
  cases h : S.closing (Channel.asShortText ctx.channel) with
  | none =>
    rw [removeSession_of_closing_none hS h]
    exact .stale a S ha hS h
  | some left =>
    obtain ⟨y, S'⟩ := left
    obtain ⟨msg, hmsg, hremove⟩ := removeSession_of_closing_some now (hwf a S hS) hS h
    rw [hremove]
    by_cases hpages : S'.sessions = []
    · rw [if_pos hpages]
      exact .dropped a S S' y now.text msg ha hS h hpages hmsg
    · rw [if_neg hpages]
      exact .kept a S S' y ha hS h hpages

/-- A channel without an account has no key to look up. -/
theorem close_of_no_account (ha : s.account ctx.channel = none) :
    close now ctx s = .error .runtime s := by
  simp [close, getChannelSessionId, ha, getSession, nonNull]

omit [Channel C] in
theorem removeSession_returns (now : Clock) (sessionId nid : Text) (s : Server C) :
    ∃ t, removeSession now sessionId nid s = .ok () t := by
  unfold removeSession
  rw [tryCatch_apply]
  split
  · exact ⟨_, rfl⟩
  · exact ⟨_, rfl⟩

theorem close_of_account (now : Clock) (hwf : s.Wellformed) {a : Text}
    (ha : s.account ctx.channel = some a) :
    ∃ t, close now ctx s = .ok () t ∧ Closing s ctx.channel t := by
  have hclosing := close_closing now ctx hwf
  have hreturns : ∃ t, close now ctx s = .ok () t := by
    cases hS : s.sessions a with
    | none => simp [close, getChannelSessionId, ha, getSession_some, hS]
    | some S =>
      obtain ⟨t, ht⟩ := removeSession_returns now a (Channel.asShortText ctx.channel) s
      rw [close_of_some ha hS, ht]
      exact ⟨_, rfl⟩
  obtain ⟨t, ht⟩ := hreturns
  rw [ht] at hclosing
  exact ⟨t, ht, hclosing⟩

/-- A close at a known session. -/
theorem Closing.of_some {t : Server C} {c : C} {a : Text} {S : Session C} (h : Closing s c t)
    (ha : s.account c = some a) (hS : s.sessions a = some S) :
    (S.closing (Channel.asShortText c) = none ∧ t = s.leaveGroup c) ∨
      ∃ y S', S.closing (Channel.asShortText c) = some (y, S') ∧
        ((S'.sessions ≠ [] ∧ t = ((s.store a S').closeChannel y).leaveGroup c) ∨
          (S'.sessions = [] ∧ ∃ now msg, getOffLineStateMsg now a = .ok msg ∧
            t = (((s.closeChannel y).drop a).broadcast msg).leaveGroup c)) := by
  have hsame : ∀ {a' S₁}, s.account c = some a' → s.sessions a' = some S₁ → a' = a ∧ S₁ = S := by
    intro a' S₁ ha' hS₁
    obtain rfl : a = a' := Option.some.inj (ha.symm.trans ha')
    exact ⟨rfl, Option.some.inj (hS₁.symm.trans hS)⟩
  cases h with
  | absent habsent => simp [habsent a ha] at hS
  | stale a' S₁ ha' hS₁ hnone =>
    obtain ⟨rfl, rfl⟩ := hsame ha' hS₁
    exact .inl ⟨hnone, rfl⟩
  | kept a' S₁ S' y ha' hS₁ hclosing hpages =>
    obtain ⟨rfl, rfl⟩ := hsame ha' hS₁
    exact .inr ⟨y, S', hclosing, .inl ⟨hpages, rfl⟩⟩
  | dropped a' S₁ S' y now msg ha' hS₁ hclosing hpages hmsg =>
    obtain ⟨rfl, rfl⟩ := hsame ha' hS₁
    exact .inr ⟨y, S', hclosing, .inr ⟨hpages, now, msg, hmsg, rfl⟩⟩

/-- A close changes no session but that of the account. -/
theorem Closing.sessions_of_ne {t : Server C} {c : C} {a : Text} (h : Closing s c t)
    (ha : s.account c ≠ some a) : t.sessions a = s.sessions a := by
  have hne : ∀ {a'}, s.account c = some a' → a ≠ a' := fun ha' he => ha (he ▸ ha')
  cases h with
  | absent | stale => rfl
  | kept a' S S' y ha' => exact Function.update_of_ne (hne ha') _ _
  | dropped a' S S' y now msg ha' => exact Function.update_of_ne (hne ha') _ _

theorem Closing.inactive_iff {t : Server C} {c x : C} (h : Closing s c t) :
    t.channel x = .inactive ↔ s.channel x = .inactive := by
  cases h with
  | absent | stale => exact Iff.rfl
  | kept a S S' y => exact (s.store a S').closeChannel_inactive_iff y
  | dropped a S S' y => exact s.closeChannel_inactive_iff y

/-- A session behind a close was there before it, or is what the close has left of it. -/
theorem Closing.session_cases {t : Server C} {c : C} {k : Text} {T : Session C}
    (h : Closing s c t) (hT : t.sessions k = some T) : ∃ S, s.sessions k = some S ∧
      (T = S ∨ ∃ nid y, S.closing nid = some (y, T) ∧ T.sessions ≠ []) := by
  cases h with
  | absent | stale => exact ⟨T, hT, .inl rfl⟩
  | kept a S S' y ha hS h hpages =>
    have hT' : Function.update s.sessions a (some S') k = some T := hT
    rcases HashMap.update_some_iff.mp hT' with ⟨rfl, rfl⟩ | ⟨-, hold⟩
    · exact ⟨S, hS, .inr ⟨_, y, h, hpages⟩⟩
    · exact ⟨T, hold, .inl rfl⟩
  | dropped a S S' y now msg ha hS h hpages hmsg =>
    have hT' : Function.update s.sessions a none k = some T := hT
    exact ⟨T, (HashMap.update_none_iff.mp hT').2, .inl rfl⟩

/-- A close opens no channel. -/
theorem Closing.opened {t : Server C} {c x : C} (h : Closing s c t) (hx : t.channel x = .opened) :
    s.channel x = .opened := by
  cases h with
  | absent | stale => exact hx
  | kept a S S' y => exact ((s.store a S').closeChannel_opened_iff y).mp hx |>.2
  | dropped a S S' y => exact (s.closeChannel_opened_iff y).mp hx |>.2

end Closing

end NettyTcpWeb
