import NettyTcpWeb.Server.Client
import NettyTcpWeb.Server.Registry

/-!
# One write for each channel

A message to a session is written to its own channel and to the channels of its pages. Pages are
stored under their short ids, so no two of them have the same channel. Nothing compares a page with
the session's own channel, though: a channel that has left its account for another one, and logs in
for the first account again, becomes a page of its own session.

## Main definitions

* `WritesOnce`: no session writes a message to a channel twice
* `RejoinsOwnSession`: a login of the own channel of the session it joins

## Main results

* `Session.Wellformed.nodup_iff`: the channels of a session are distinct if its own is no page's
* `writesOnce_iff`: **a message is written once to each channel** throughout exactly the runs in
  which no channel rejoins its own session
-/

namespace NettyTcpWeb

open Java (Text lit)

variable {C : Type}

/-- The channels of every session are distinct, so that it writes a message to no channel twice. -/
def WritesOnce (s : Server C) : Prop :=
  ∀ a S, s.sessions a = some S → S.getSessionAll.Nodup ∧
    ∀ msg t, ∃ cs : List C, cs.Nodup ∧
      S.write msg t = .ok () (cs.foldl (fun t c => t.writeAndFlush c msg) t)

/-- A link-keep message from the own channel of a session of web pages that joins the session, as
the channel has another account now. -/
def RejoinsOwnSession [Channel C] (s : Server C) : Event C → Prop
  | .message ctx _ m => m.type = lit "LK" ∧ ctx.remoteAddress ≠ none ∧
      s.account ctx.channel ≠ some m.deviceId ∧ Channel.server ctx.channel = .websocket ∧
      ∃ S, s.sessions m.deviceId = some S ∧ S.source = .websocket ∧ S.session = ctx.channel
  | _ => False

section Session

variable {S : Session C} {key : Text}

/-- The session's own channel is not that of one of its pages. -/
def Session.Apart (S : Session C) : Prop := ∀ p ∈ S.sessions, p.2.session ≠ S.session

theorem Session.Apart.closing {nid : Text} {y : C} {S' : Session C} (h : S.Apart)
    (hclosing : S.closing nid = some (y, S')) : S'.Apart := by
  rcases Session.closing_cases hclosing with ⟨-, rfl, -⟩ | ⟨-, -, page, -, -, rfl⟩
  · exact h
  · intro p hp
    exact h p (HashMap.mem_remove.mp hp).1

theorem Session.Apart.addSessions {new : Session C} {now : Int} (h : S.Apart) :
    ({ S.addSessions new with updateTime := now } : Session C).Apart ↔
      new.session ≠ S.session := by
  constructor
  · intro hnew
    exact hnew _ (HashMap.mem_put.mpr (.inl rfl))
  · intro hne p hp
    rcases HashMap.mem_put.mp hp with rfl | ⟨hp, -⟩
    · exact hne
    · exact h p hp

/-- The pages of a session have distinct channels, since they have distinct short ids. -/
theorem Session.Wellformed.nodup_iff [Channel C] (hwf : S.Wellformed key) :
    S.getSessionAll.Nodup ↔ S.Apart := by
  have hpages : (S.sessions.map fun e => e.2.session).Nodup := by
    refine .of_map Channel.asShortText ?_
    rw [List.map_map]
    convert hwf.nodup using 1
    exact List.map_congr_left fun e he => (hwf.page e he).1.symm
  rw [Session.getSessionAll, List.nodup_cons, and_iff_left hpages]
  simp only [List.mem_map, not_exists, not_and]
  exact Iff.rfl

end Session

variable [Channel C] {s : Server C}

theorem writesOnce_iff_apart (hwf : s.Wellformed) :
    WritesOnce s ↔ ∀ a S, s.sessions a = some S → S.Apart := by
  constructor
  · intro h a S hS
    exact (hwf a S hS).nodup_iff.mp (h a S hS).1
  · intro h a S hS
    have hnodup := (hwf a S hS).nodup_iff.mpr (h a S hS)
    refine ⟨hnodup, fun msg t => ⟨S.channels, ?_, ?_⟩⟩
    · exact (hwf a S hS).perm_getSessionAll.nodup_iff.mpr hnodup
    · rw [Server.foldl_writeAndFlush, Session.write_apply]

variable [DecidableEq C]

section Step

variable {t : Server C} {e : Event C}

/-- A login keeps the channels of the sessions apart unless its channel rejoins its own session. -/
theorem apart_login {ctx : ChannelHandlerContext C} {d : Text} {msg : Model}
    (hs : ∀ a S, s.sessions a = some S → S.Apart)
    (h : Login s ctx (Channel.server ctx.channel) d msg t) :
    (∀ a S, t.sessions a = some S → S.Apart) ↔
      ¬ (ctx.remoteAddress ≠ none ∧ s.account ctx.channel ≠ some d ∧
        Channel.server ctx.channel = .websocket ∧
        ∃ S, s.sessions d = some S ∧ S.source = .websocket ∧ S.session = ctx.channel) := by
  constructor
  · rintro ht ⟨haddr, hne, hserver, S, hS, hws, hown⟩
    cases h with
    | reconnect h => exact hne h
    | unknown _ hnone => exact haddr hnone
    | session new _ _ hnone =>
      rw [evict_of_some s d _ hS, hserver, hws] at hnone
      simp [hS] at hnone
    | page S' new now _ _ hS' _ _ hnew =>
      obtain rfl : S = S' := Option.some.inj (hS.symm.trans hS')
      have hpage := ht d _ (by rw [Server.push_sessions]; exact Function.update_self _ _ _)
      exact (hs d S hS).addSessions.mp hpage (hnew.session.trans hown.symm)
  · intro hnot a T hT
    by_cases ha : a = d
    · subst ha
      rcases h.session_cases hT with
        hold | ⟨hne, haddr, hnew | ⟨S, new, now, hS, hws, hserver, hnew, rfl⟩⟩
      · exact hs a T hold
      · intro p hp
        rw [hnew.sessions] at hp
        cases hp
      · refine (hs a S hS).addSessions.mpr ?_
        rw [hnew.session]
        intro hown
        exact hnot ⟨haddr, hne, hserver, S, hS, hws, hown.symm⟩
    · exact hs a T ((h.sessions_of_ne ha).symm.trans hT)

theorem writesOnce_step (hwf : s.Wellformed) (hs : WritesOnce s) :
    WritesOnce (step s e) ↔ ¬ RejoinsOwnSession s e := by
  rw [writesOnce_iff_apart (hwf.step e)]
  have hs := (writesOnce_iff_apart hwf).mp hs
  by_cases hLK : e.IsLinkKeep
  · obtain ⟨ctx, now, m, s₀, rfl, hm, hs₀, -, hlogin⟩ := hLK.exists_login hwf
    rw [← hs₀.sessions] at hs
    rw [apart_login hs hlogin, hs₀.sessions, hs₀.account]
    simp only [RejoinsOwnSession, hm, true_and]
  · apply iff_of_true
    · intro a T hT
      obtain ⟨S, hS, rfl | ⟨nid, y, hclosing, -⟩⟩ := session_of_step hwf hLK hT
      · exact hs a _ hS
      · exact (hs a S hS).closing hclosing
    · intro h
      cases e with
      | message ctx now m => exact hLK h.1
      | writerIdle | readerIdle | disconnect | channelInactive => exact h

end Step

/-- **A message is written once to each channel of a session**, and the channels of every session
are distinct, throughout a run if and only if no channel rejoins its own session in it. -/
theorem writesOnce_iff {es : List (Event C)} (hrun : (server C).Run .empty es) :
    (server C).Throughout WritesOnce .empty es ↔
      (server C).Along (fun s e => ¬ RejoinsOwnSession s e) .empty es := by
  refine hrun.throughout_iff wellformed_empty ?_ (fun _ e hwf _ => hwf.step e) fun _ _ hwf hs _ =>
    writesOnce_step hwf hs
  intro a S hS
  cases hS

/-- A page logs in for two accounts, and then for the first one again. -/
def pageReturns : List (Event Client) :=
  [(Client.page 0).linkKeep (lit "1"), (Client.page 0).linkKeep (lit "2"),
    (Client.page 0).linkKeep (lit "1")]

theorem pageReturns_run : (server Client).Run .empty pageReturns := ⟨rfl, rfl, rfl, trivial⟩

theorem writesOnce_iff_pageReturns : (server Client).Throughout WritesOnce .empty pageReturns ↔
    (server Client).Along (fun s e => ¬ RejoinsOwnSession s e) .empty pageReturns :=
  writesOnce_iff pageReturns_run

/-- **The page that returns to its account** is a page of its own session, and its answer is written
to it twice. -/
theorem page_written_twice : (server Client).Run .empty pageReturns ∧
    ¬ (server Client).Throughout WritesOnce .empty pageReturns ∧
    ((server Client).exec .empty pageReturns).out =
      [.write (.page 0) { deviceId := lit "1", type := lit "LK" },
        .write (.page 0) { deviceId := lit "1", type := lit "LK" }] := by
  refine ⟨pageReturns_run, ?_, rfl⟩
  intro h
  have hnodup := (h.exec (lit "1") _ rfl).1
  exact absurd hnodup (by decide)

end NettyTcpWeb
