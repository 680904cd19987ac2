import NettyTcpWeb.Server.CloseAll

/-!
# All operations of the connector

The handlers call the connector with the wrappers they build. This module lets the connector be
called with any wrapper, on any channel and in any order, together with `close(sessionId)`, which no
handler calls. The stored sessions keep their shape, so a message to a session is written to exactly
the channels that the session lists.

## Main definitions

* `Operation`, `perform`: the events of the handlers and the calls of the connector
* `operations`: the server under all operations, as an automaton
* `Session.Tree`: a session with pages below it, and the channels a message is written to

## Main results

* `wellformed_operation`: every operation keeps the stored sessions well formed
* `tree_of_operations`: **the tree of every stored session** behind any operations
-/

namespace NettyTcpWeb

open Java (Text Exception lit)
open StateExcept

variable {C : Type} [DecidableEq C] [Channel C]

/-- An event of a handler, or a call of the connector. -/
inductive Operation (C : Type) where
  | event (e : Event C)
  | heartbeat (now : Clock) (ctx : ChannelHandlerContext C) (wrapper : MessageWrapper)
  | close (now : Clock) (ctx : ChannelHandlerContext C)
  | closeWrapper (now : Clock) (ctx : ChannelHandlerContext C) (wrapper : MessageWrapper)
  | closeSession (sessionId : Option Text)
  | pushMessage (wrapper : MessageWrapper)
  | pushMessageTo (sessionId : Option Text) (wrapper : MessageWrapper)
  | pushGroupMessage (wrapper : MessageWrapper)
  | heartbeatToClient (now : Clock) (ctx : ChannelHandlerContext C)

/-- The code of an operation. -/
def perform : Operation C → Handler C Unit
  | .event e => handle e
  | .heartbeat now ctx wrapper => heartbeat now ctx wrapper
  | .close now ctx => close now ctx
  | .closeWrapper now ctx wrapper => closeWrapper now ctx wrapper
  | .closeSession sessionId => closeSession sessionId
  | .pushMessage wrapper => pushMessage wrapper
  | .pushMessageTo sessionId wrapper => pushMessageTo sessionId wrapper
  | .pushGroupMessage wrapper => pushGroupMessage wrapper
  | .heartbeatToClient now ctx => heartbeatToClient now ctx

/-- The server under all operations, one at a time. -/
def operations (C : Type) [DecidableEq C] [Channel C] : Automaton (Server C) (Operation C) where
  enabled _ _ := True
  next s o := stateAfter (perform o { s with out := [] })

/-- No operation is ever refused. -/
theorem operations_run (s : Server C) (os : List (Operation C)) : (operations C).Run s os := by
  induction os generalizing s with
  | nil => trivial
  | cons o os ih => exact ⟨trivial, ih _⟩

section Wellformed

variable {s : Server C}

/-- Whatever the wrapper, a heartbeat logs its channel in, answers it or raises. -/
theorem wellformed_heartbeat (hwf : s.Wellformed) (now : Clock) (ctx : ChannelHandlerContext C)
    (w : MessageWrapper) : (stateAfter (heartbeat now ctx w s)).Wellformed := by
  have hwf₀ : (s.setHeartbeat ctx.channel (some now.millis)).Wellformed := hwf
  rcases hd : w.sessionId with - | d
  · -- `sessionId.equals` raises
    simp only [heartbeat, hd, nonNull, bind_apply, modify_apply, tryCatch_apply, raising_error,
      pure_apply]
    exact hwf₀
  rcases hbody : w.body with - | msg
  · by_cases h : s.account ctx.channel = some d
    · have hpush := hwf₀.of_sameLogins (writes_pushMessage w _).sameLogins
      simp only [heartbeat, hd, nonNull, bind_apply, modify_apply, tryCatch_apply, raising_ok,
        getChannelSessionId, get_apply, pure_apply, Server.setHeartbeat_account, h, if_true]
      cases hrun : pushMessage w (s.setHeartbeat ctx.channel (some now.millis)) with
      | ok u t =>
        rw [hrun] at hpush
        exact hpush
      | error e t =>
        rw [hrun] at hpush
        exact hpush
    · rw [heartbeat_of_raising now hwf hd h (.inr hbody)]
      exact hwf₀.evict d w.source
  · obtain ⟨t, hlogin, hrun⟩ := heartbeat_login now ctx hwf hd hbody
    rw [hrun]
    exact hwf₀.login hlogin

theorem wellformed_closeWrapper (hwf : s.Wellformed) (now : Clock) (ctx : ChannelHandlerContext C)
    (w : MessageWrapper) : (stateAfter (closeWrapper now ctx w s)).Wellformed := by
  simp only [closeWrapper, getChannelSessionId, bind_apply, get_apply, pure_apply]
  split_ifs
  · exact hwf.closing (close_closing now ctx hwf)
  · exact hwf

theorem wellformed_leaveGroups (hwf : s.Wellformed) (cs : List C) :
    (cs.foldl Server.leaveGroup s).Wellformed := by
  intro key S hS
  rw [leaveGroups_sessions] at hS
  exact hwf key S hS

theorem wellformed_closeSession (hwf : s.Wellformed) (sessionId : Option Text) :
    (stateAfter (closeSession sessionId s)).Wellformed := by
  rcases sessionId with - | a
  · -- a concurrent map raises for `null`
    simp only [closeSession, getSession, nonNull, bind_apply, tryCatch_apply, raising_error,
      throw_apply]
    exact hwf
  rcases hS : s.sessions a with - | S
  · rw [closeSession_of_none hS]
    exact hwf
  cases h : S.sessions with
  | nil =>
    rw [closeSession_of_nil hS h, stateAfter]
    exact wellformed_leaveGroups (wellformed_of_update_none hwf rfl) _
  | cons e rest =>
    have hstored : (((s.closeChannel S.session).closeChannel e.2.session).store a
        (S.without e.1)).Wellformed :=
      wellformed_of_update_some hwf rfl ((hwf a S hS).without e.1)
    rw [closeSession_of_cons hS h, stateAfter]
    apply wellformed_leaveGroups
    split_ifs
    · exact wellformed_of_update_none hstored rfl
    · exact hstored

/-- **Every operation keeps the stored sessions well formed.** -/
theorem wellformed_operation (hwf : s.Wellformed) (o : Operation C) :
    ((operations C).next s o).Wellformed := by
  have hwf₀ : Server.Wellformed { s with out := [] } := hwf
  cases o with
  | event e => exact hwf.step e
  | heartbeat now ctx w => exact wellformed_heartbeat hwf₀ now ctx w
  | close now ctx => exact hwf₀.closing (close_closing now ctx hwf₀)
  | closeWrapper now ctx w => exact wellformed_closeWrapper hwf₀ now ctx w
  | closeSession sessionId => exact wellformed_closeSession hwf₀ sessionId
  | pushMessage w => exact hwf₀.of_sameLogins (writes_pushMessage w _).sameLogins
  | pushMessageTo sessionId w =>
    exact hwf₀.of_sameLogins (writes_pushMessageTo sessionId w _).sameLogins
  | pushGroupMessage w => exact hwf₀.of_sameLogins (writes_pushGroupMessage w _).sameLogins
  | heartbeatToClient now ctx =>
    exact hwf₀.of_sameLogins (writes_heartbeatToClient now ctx _).sameLogins

end Wellformed

/-- Every state behind operations is well formed. -/
theorem wellformed_of_operations {s : Server C} (h : (operations C).Reachable .empty s) :
    s.Wellformed :=
  h.invariant wellformed_empty fun _ o hwf _ => wellformed_operation hwf o

/-- The tree of the session under an account: only a session of web pages has pages, these have the
account as well, are stored under their own short ids and have no pages themselves. A message to the
session is written once to each channel that `getSessionAll` lists. -/
structure Session.Tree (S : Session C) (a : Text) : Prop where
  account : S.account = a
  socket : S.source = .socket → S.sessions = []
  page : ∀ e ∈ S.sessions, S.source = .websocket ∧ e.2.source = .websocket ∧ e.2.account = a ∧
    e.1 = e.2.nid ∧ e.2.nid = Channel.asShortText e.2.session ∧ e.2.sessions = []
  perm : S.channels.Perm S.getSessionAll
  write : ∀ msg t, S.write msg t = .ok () (S.channels.foldl (fun t c => t.writeAndFlush c msg) t)

/-- **The tree of every stored session** behind any operations. -/
theorem tree_of_operations {s : Server C} (h : (operations C).Reachable .empty s) {a : Text}
    {S : Session C} (hS : s.sessions a = some S) : S.Tree a := by
  have hwf := wellformed_of_operations h a S hS
  exact
    { account := hwf.account
      socket := hwf.socket
      page := fun e he => by
        obtain ⟨hkey, hpage⟩ := hwf.page e he
        have hws : S.source = .websocket := by
          apply Source.eq_websocket
          intro hsocket
          rw [hwf.socket hsocket] at he
          cases he
        exact ⟨hws, hpage.source, hpage.account, hkey.trans hpage.nid.symm, hpage.nid,
          hpage.sessions⟩
      perm := hwf.perm_getSessionAll
      write := fun msg t => by rw [Server.foldl_writeAndFlush, Session.write_apply] }

/-- Two pages and a watch log in, and the account of the watch is closed. -/
def watchClosed : List (Operation Client) :=
  [.event ((Client.page 0).linkKeep (lit "1")), .event ((Client.page 1).linkKeep (lit "1")),
    .event ((Client.watch 0).linkKeep (lit "2")), .closeSession (some (lit "2"))]

theorem tree_of_operations_watchClosed : ∃ S,
    ((operations Client).exec .empty watchClosed).sessions (lit "1") = some S ∧
      S.Tree (lit "1") :=
  ⟨_, rfl, tree_of_operations ⟨watchClosed, operations_run _ _, rfl⟩ rfl⟩

end NettyTcpWeb
