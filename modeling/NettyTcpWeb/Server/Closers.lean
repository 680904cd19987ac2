import NettyTcpWeb.Server.Calls
import NettyTcpWeb.Server.Closings

/-!
# A close on the shared memory

`removeSession` is synchronized, as `addSession` and `updateSession` are. But a login adds its page
to a session object without the lock, so it may do so while a close removes another page from that
object, counts the pages that are left, and takes the account off the map. Each operation on the
pages of an object is one step here, though a `HashMap` promises that to one thread at a time only.

## Main definitions

* `CloserPc`, `closerNext`: the steps of a close on the memory that the event loops share
* `CloserPc.Locked`: the steps at which the close holds the lock

## Main results

* `closer_alone`: **a close that runs alone** does what `close` does
-/

namespace NettyTcpWeb

open Java (Text)
open StateExcept

/-- What a close is about to do, with what it has read. `removeSession` goes on to `broadcast`. -/
inductive CloserPc where
  | getSession
  | removeSession (sessionId : Text)
  | closePage (sessionId : Text) (session : Ref)
  | close (sessionId : Text) (session : Ref)
  | otherSessionSize (sessionId : Text) (session : Ref)
  | remove (sessionId : Text)
  | broadcast (sessionId : Text)
  | leaveGroup
  | finished

/-- The close holds the lock of the session manager. -/
def CloserPc.Locked : CloserPc → Prop
  | .closePage _ _ | .close _ _ | .otherSessionSize _ _ | .remove _ | .broadcast _ => True
  | .getSession | .removeSession _ | .leaveGroup | .finished => False

variable {C : Type}

/-- `sessions.remove(nid)` on the pages of a session object. -/
def Memory.removePage (x : Memory C) (session : Ref) (nid : Text) : Memory C :=
  { x with heap := Function.update x.heap session ((x.heap session).without nid) }

variable [DecidableEq C] [Channel C]

/-- One step of a close. -/
def closerNext (now : Clock) (ctx : ChannelHandlerContext C) (x : Memory C) :
    CloserPc → Memory C × CloserPc
  | .getSession =>
    (x,
      match x.rest.account ctx.channel with
      -- the lookup of `null` raises
      | none => .finished
      | some sessionId =>
        match x.sessions sessionId with
        | none => .finished
        | some _ => .removeSession sessionId)
  | .removeSession sessionId =>
    (x,
      match x.sessions sessionId with
      | none => .leaveGroup
      | some session =>
        if (x.heap session).source = .websocket then .closePage sessionId session
        else .close sessionId session)
  | .closePage sessionId session =>
    if (x.heap session).nid = Channel.asShortText ctx.channel then
      (x.modify (·.closeChannel (x.heap session).session), .otherSessionSize sessionId session)
    else
      match HashMap.get (x.heap session).sessions (Channel.asShortText ctx.channel) with
      -- the missing page raises, and `removeSession` swallows it
      | none => (x.removePage session (Channel.asShortText ctx.channel), .leaveGroup)
      | some page =>
        ((x.removePage session (Channel.asShortText ctx.channel)).modify
          (·.closeChannel page.session), .otherSessionSize sessionId session)
  | .close sessionId session =>
    (x.modify (·.closeChannel (x.heap session).session), .remove sessionId)
  | .otherSessionSize sessionId session =>
    (x, if (x.heap session).otherSessionSize < 1 then .remove sessionId else .leaveGroup)
  | .remove sessionId => (x.remove sessionId, .broadcast sessionId)
  | .broadcast sessionId =>
    (match getOffLineStateMsg now.text sessionId with
      | .ok msg => x.modify (·.broadcast msg)
      | .error _ => x, .leaveGroup)
  | .leaveGroup => (x.modify (·.leaveGroup ctx.channel), .finished)
  | .finished => (x, .finished)

/-- The close gets from one point to another while all other calls rest. -/
def CloserSteps (now : Clock) (ctx : ChannelHandlerContext C) :
    Memory C × CloserPc → Memory C × CloserPc → Prop :=
  Relation.ReflTransGen fun p q => closerNext now ctx p.1 p.2 = q

section Alone

variable {x : Memory C} {a nid : Text} {session : Ref} {now : Clock}

omit [DecidableEq C] in
/-- A page is removed from a stored session object. -/
theorem Memory.server_removePage (hwf : x.server.Wellformed) (ha : x.sessions a = some session) :
    (x.removePage session nid).server = x.server.store a ((x.heap session).without nid) := by
  have hsessions : (x.removePage session nid).server.sessions =
      Function.update x.server.sessions a (some ((x.heap session).without nid)) := by
    funext key
    by_cases hkey : key = a
    · subst hkey
      simp [Memory.server, Memory.removePage, ha]
    · simp only [Memory.server, Memory.removePage, Function.update_of_ne hkey]
      refine Option.map_congr fun r hr => Function.update_of_ne ?_ _ _
      rintro rfl
      exact hkey ((Memory.account_heap hwf hr).symm.trans (Memory.account_heap hwf ha))
  calc (x.removePage session nid).server
    _ = { x.rest with sessions := (x.removePage session nid).server.sessions } := rfl
    _ = _ := by rw [hsessions]; rfl

/-- The last steps of a close that takes the account off the map. -/
theorem closer_remove (ctx : ChannelHandlerContext C) (x : Memory C) {msg : Model}
    (hmsg : getOffLineStateMsg now.text a = .ok msg) :
    ∃ z, CloserSteps now ctx (x, .remove a) (z, .finished) ∧
      z.server = ((x.server.drop a).broadcast msg).leaveGroup ctx.channel := by
  have hbroadcast : closerNext now ctx (x.remove a) (.broadcast a) =
      ((x.remove a).modify (·.broadcast msg), .leaveGroup) := by
    simp only [closerNext, hmsg]
  refine ⟨_, .head rfl (.head hbroadcast (.single rfl)), ?_⟩
  rw [← Memory.server_remove]
  rfl

/-- The last steps of a close that has closed a channel of the session. -/
theorem closer_otherSessionSize (ctx : ChannelHandlerContext C) (x : Memory C) (session : Ref)
    {msg : Model} (hmsg : getOffLineStateMsg now.text a = .ok msg) :
    ∃ z, CloserSteps now ctx (x, .otherSessionSize a session) (z, .finished) ∧
      z.server = (if (x.heap session).sessions = [] then (x.server.drop a).broadcast msg
        else x.server).leaveGroup ctx.channel := by
  have hfirst : closerNext now ctx x (.otherSessionSize a session) =
      (x, if (x.heap session).otherSessionSize < 1 then .remove a else .leaveGroup) := rfl
  by_cases hpages : (x.heap session).sessions = []
  · have hsize : (x.heap session).otherSessionSize < 1 := by simp [Session.otherSessionSize, hpages]
    obtain ⟨z, hsteps, hz⟩ := closer_remove ctx x hmsg
    rw [if_pos hsize] at hfirst
    exact ⟨z, .head hfirst hsteps, by rw [hz, if_pos hpages]⟩
  · have hsize : ¬ (x.heap session).otherSessionSize < 1 := by
      rwa [Session.otherSessionSize, Nat.lt_one_iff, List.length_eq_zero_iff]
    rw [if_neg hsize] at hfirst
    refine ⟨_, .head hfirst (.single rfl), ?_⟩
    rw [if_neg hpages]
    rfl

/-- The steps of `removeSession`, and the last one of `close`. -/
theorem closer_removeSession (ctx : ChannelHandlerContext C) (now : Clock)
    (hwf : x.server.Wellformed) (ha : x.sessions a = some session) :
    ∃ z, CloserSteps now ctx (x, .removeSession a) (z, .finished) ∧
      z.server = (stateAfter (removeSession now a (Channel.asShortText ctx.channel)
        x.server)).leaveGroup ctx.channel := by
  have hS : x.server.sessions a = some (x.heap session) := congrArg (Option.map x.heap) ha
  have hlookup : closerNext now ctx x (.removeSession a) =
      (x, if (x.heap session).source = .websocket then .closePage a session
        else .close a session) := by
    simp only [closerNext, ha]
  by_cases hsocket : (x.heap session).source = .socket
  · obtain ⟨msg, hmsg, hremove⟩ :=
      removeSession_socket now (Channel.asShortText ctx.channel) hS hsocket
    rw [hsocket, if_neg (by decide)] at hlookup
    obtain ⟨z, hsteps, hz⟩ :=
      closer_remove ctx (x.modify (·.closeChannel (x.heap session).session)) hmsg
    refine ⟨z, .head hlookup (.head rfl hsteps), ?_⟩
    rw [hz, hremove]
    rfl
  have hws := Source.eq_websocket hsocket
  obtain ⟨msg, hmsg, hremove⟩ :=
    removeSession_websocket now (Channel.asShortText ctx.channel) hS hws
  rw [if_pos hws] at hlookup
  rw [hremove]
  by_cases hnid : (x.heap session).nid = Channel.asShortText ctx.channel
  · have hclose : closerNext now ctx x (.closePage a session) =
        (x.modify (·.closeChannel (x.heap session).session), .otherSessionSize a session) := by
      simp only [closerNext, if_pos hnid]
    obtain ⟨z, hsteps, hz⟩ := closer_otherSessionSize ctx
      (x.modify (·.closeChannel (x.heap session).session)) session hmsg
    refine ⟨z, .head hlookup (.head hclose hsteps), ?_⟩
    rw [hz]
    simp only [Session.closePage, if_pos hnid]
    rfl
  have hpage : (x.removePage session (Channel.asShortText ctx.channel)).server = _ :=
    Memory.server_removePage hwf ha
  cases hget : HashMap.get (x.heap session).sessions (Channel.asShortText ctx.channel) with
  | none =>
    have hclose : closerNext now ctx x (.closePage a session) =
        (x.removePage session (Channel.asShortText ctx.channel), .leaveGroup) := by
      simp only [closerNext, if_neg hnid, hget]
    refine ⟨_, .head hlookup (.head hclose (.single rfl)), ?_⟩
    simp [Session.closePage, hnid, hget, ← hpage]
    rfl
  | some page =>
    have hclose : closerNext now ctx x (.closePage a session) =
        ((x.removePage session (Channel.asShortText ctx.channel)).modify
          (·.closeChannel page.session), .otherSessionSize a session) := by
      simp only [closerNext, if_neg hnid, hget]
    obtain ⟨z, hsteps, hz⟩ := closer_otherSessionSize ctx
      ((x.removePage session (Channel.asShortText ctx.channel)).modify
        (·.closeChannel page.session)) session hmsg
    refine ⟨z, .head hlookup (.head hclose hsteps), ?_⟩
    rw [hz]
    simp [Session.closePage, hnid, hget, ← hpage, Memory.modify, Memory.removePage]
    rfl

/-- **A close that runs alone** does what `close` does. -/
theorem closer_alone (ctx : ChannelHandlerContext C) (now : Clock) (hwf : x.server.Wellformed) :
    ∃ z, CloserSteps now ctx (x, .getSession) (z, .finished) ∧
      z.server = stateAfter (close now ctx x.server) := by
  have hfirst : closerNext now ctx x .getSession =
      (x, match x.rest.account ctx.channel with
        | none => .finished
        | some sessionId =>
          match x.sessions sessionId with
          | none => .finished
          | some _ => .removeSession sessionId) := rfl
  by_cases habsent : ∀ a, x.server.account ctx.channel = some a → x.server.sessions a = none
  · refine ⟨x, .single ?_, by rw [close_of_absent habsent]⟩
    rw [hfirst]
    cases ha : x.rest.account ctx.channel with
    | none => rfl
    | some a =>
      have hnone : x.sessions a = none := Option.map_eq_none_iff.mp (habsent a ha)
      simp only [hnone]
  · obtain ⟨a, ha, hin⟩ : ∃ a, x.server.account ctx.channel = some a ∧
        x.server.sessions a ≠ none := by simpa using habsent
    obtain ⟨session, hsession⟩ : ∃ session, x.sessions a = some session := by
      refine Option.ne_none_iff_exists'.mp fun hnone => hin ?_
      exact Option.map_eq_none_iff.mpr hnone
    obtain ⟨z, hsteps, hz⟩ := closer_removeSession ctx now hwf hsession
    have haccount : x.rest.account ctx.channel = some a := ha
    simp only [haccount, hsession] at hfirst
    exact ⟨z, .head hfirst hsteps, by rw [hz, stateAfter_close_of_some ha hin]⟩

end Alone

end NettyTcpWeb
