import Mathlib.Logic.Function.Basic
import Mathlib.Tactic.Simps.Basic
import NettyTcpWeb.Library.HashMap
import NettyTcpWeb.Message.Proxy

/-!
# Sessions and the state of the server

The server keeps one session for each account that is logged in. A session has the channel it was
created for and, on the WebSocket side, a map of further sessions: the other pages of the account.
Two more places know about a login: the broadcast group, and the account attribute of the channel.

## Main definitions

* `Session`, `Session.Attached`: a session, and the channels it reaches
* `Server`: the sessions map, the broadcast group, the channel attributes and the channels
* `Handler`: the code of a handler; it changes the server also when it raises
-/

namespace NettyTcpWeb

open Java (Text Exception ch lit)

/-- What Netty knows about a channel: its short id, and the server that accepted it. -/
class Channel (C : Type) where
  asShortText : C → Text
  server : C → Source

/-- `Session`; the channel attributes it sets besides the account are never read. -/
structure Session (C : Type) where
  session : C
  nid : Text
  source : Source
  deviceId : Text
  account : Text
  platform : Text
  platformVersion : Text
  appKey : Text
  bindTime : Int
  updateTime : Int
  sessions : List (Text × Session C)

namespace Session

variable {C : Type} (S : Session C)

/-- `session.addSessions(page)`. -/
def addSessions (page : Session C) : Session C :=
  { S with sessions := HashMap.put S.sessions page.nid page }

/-- `sessions.remove(nid)` on the pages of the session. -/
def without (nid : Text) : Session C :=
  { S with sessions := HashMap.remove S.sessions nid }

/-- `session.otherSessionSize()`. -/
def otherSessionSize : Nat := S.sessions.length

/-- The channels a session reaches: its own and those of its pages. -/
def Attached (c : C) : Prop := c = S.session ∨ ∃ e ∈ S.sessions, c = e.2.session

end Session

/-- A channel is open, closed, or closed and reported to its handler by `channelInactive`. -/
inductive ChannelState where
  | opened
  | closed
  | inactive
deriving DecidableEq, Repr

/-- What the server writes: a message on one channel, or a message to all members of the group. -/
inductive Output (C : Type) where
  | write (channel : C) (msg : Model)
  | broadcast (msg : Model) (members : List C)
deriving DecidableEq, Repr

/-- The state of the server: `SessionManagerImpl.sessions`, the members of `WatchChannelGroup`, the
attributes `account` and `heartbeat` of each channel, the `builder` of each WebSocket handler, the
channels, and what the current event has written so far. -/
structure Server (C : Type) where
  sessions : Text → Option (Session C)
  group : List C
  account : C → Option Text
  heartbeat : C → Option Int
  builder : C → Option Model
  channel : C → ChannelState
  out : List (Output C)

/-- The server before the first event. -/
def Server.empty {C : Type} : Server C where
  sessions _ := none
  group := []
  account _ := none
  heartbeat _ := none
  builder _ := none
  channel _ := .opened
  out := []

namespace Server

variable {C : Type} [DecidableEq C] (s : Server C) (c : C)

/-- `sessions.put(key, session)`. -/
@[simps] def store (key : Text) (session : Session C) : Server C :=
  { s with sessions := Function.update s.sessions key (some session) }

/-- `sessions.remove(key)`. -/
@[simps] def drop (key : Text) : Server C :=
  { s with sessions := Function.update s.sessions key none }

/-- `WatchChannelGroup.add(channel)`; a closed channel leaves the group at once. -/
@[simps] def joinGroup : Server C :=
  { s with group := if s.channel c = .opened ∧ c ∉ s.group then c :: s.group else s.group }

/-- `WatchChannelGroup.remove(channel)`. -/
@[simps] def leaveGroup : Server C := { s with group := s.group.filter (· ≠ c) }

/-- The account attribute of a channel. -/
@[simps] def setAccount (account : Text) : Server C :=
  { s with account := Function.update s.account c (some account) }

/-- The heartbeat attribute of a channel. -/
@[simps] def setHeartbeat (stamp : Option Int) : Server C :=
  { s with heartbeat := Function.update s.heartbeat c stamp }

/-- The builder of a WebSocket handler. -/
@[simps] def setBuilder (message : Model) : Server C :=
  { s with builder := Function.update s.builder c (some message) }

/-- `channel.close()`: the group drops a closed channel by itself. -/
@[simps] def closeChannel : Server C :=
  { s with
    channel := Function.update s.channel c
      (if s.channel c = .opened then .closed else s.channel c)
    group := s.group.filter (· ≠ c) }

theorem mem_joinGroup {x : C} :
    x ∈ (s.joinGroup c).group ↔ x ∈ s.group ∨ x = c ∧ s.channel c = .opened := by
  rw [joinGroup_group]
  split_ifs with h
  · rw [List.mem_cons, or_comm]
    exact or_congr_right (and_iff_left h.1).symm
  · refine (or_iff_left_of_imp ?_).symm
    rintro ⟨rfl, hopen⟩
    by_contra hx
    exact h ⟨hopen, hx⟩

theorem mem_leaveGroup {x : C} : x ∈ (s.leaveGroup c).group ↔ x ∈ s.group ∧ x ≠ c := by
  simp [List.mem_filter]

theorem mem_closeChannel {x : C} : x ∈ (s.closeChannel c).group ↔ x ∈ s.group ∧ x ≠ c := by
  simp [List.mem_filter]

theorem closeChannel_opened_iff {x : C} :
    (s.closeChannel c).channel x = .opened ↔ x ≠ c ∧ s.channel x = .opened := by
  rw [closeChannel_channel]
  by_cases hx : x = c
  · subst hx
    simp only [Function.update_self, ne_eq, not_true_eq_false, false_and, iff_false]
    split_ifs with h
    · exact id
    · exact h
  · rw [Function.update_of_ne hx]
    exact (and_iff_right hx).symm

theorem closeChannel_inactive_iff {x : C} :
    (s.closeChannel c).channel x = .inactive ↔ s.channel x = .inactive := by
  rw [closeChannel_channel]
  by_cases hx : x = c
  · subst hx
    rw [Function.update_self]
    split_ifs with h
    · simp [h]
    · exact Iff.rfl
  · rw [Function.update_of_ne hx]

/-- `channel.writeAndFlush(msg)`: on a closed channel the write fails, and nothing is raised. -/
@[simps] def writeAndFlush (msg : Model) : Server C :=
  { s with out := if s.channel c = .opened then s.out ++ [.write c msg] else s.out }

/-- `WatchChannelGroup.broadcast(msg)`. -/
@[simps] def broadcast (msg : Model) : Server C :=
  { s with out := s.out ++ [.broadcast msg s.group] }

end Server

/-- The code of a handler: an exception keeps what has been changed before it. -/
abbrev Handler (C : Type) := EStateM Exception (Server C)

/-- The value of a computation that may raise. -/
def raising {C α : Type} : Except Exception α → Handler C α
  | .ok a => pure a
  | .error e => throw e

/-- An `InetSocketAddress`: the text of `ImUtils.getIp`, and the port. -/
structure InetSocketAddress where
  ip : Text
  port : Nat
deriving DecidableEq, Repr

/-- A `ChannelHandlerContext`: the channel, and its remote address if that is known. -/
structure ChannelHandlerContext (C : Type) where
  channel : C
  remoteAddress : Option InetSocketAddress

/-- `ImUtils.getRemoteAddress(ctx)`: the port of an unknown address raises. -/
def ChannelHandlerContext.getRemoteAddress {C : Type} (ctx : ChannelHandlerContext C) :
    Except Exception Text :=
  match ctx.remoteAddress with
  | none => .error .nullPointer
  | some address => .ok (address.ip ++ lit ":" ++ (Nat.toDigits 10 address.port).map ch)

/-- A reading of the clock: milliseconds, and the formatted date. -/
structure Clock where
  millis : Int
  text : Text

end NettyTcpWeb
