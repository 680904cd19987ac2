import NettyTcpWeb.Server.Sessions

/-!
# Handing messages on

A handler that hands a message on looks sessions up and writes to channels. Whether it returns or
raises, it changes nothing but what has been written, so the logins stay as they are.

## Main definitions

* `Server.SameLogins`: two states with the same sessions, group, accounts and channels
* `Server.OnlyWrites`: two states that differ in what has been written only

## Main results

* `writes_pushMessage`, `writes_pushMessageTo`, `writes_pushGroupMessage`: the deliveries only write
* `writes_receiveMessages`: **so does a message that is neither a heartbeat nor a close**
-/

namespace NettyTcpWeb

open Java (Text Exception)
open StateExcept

variable {C : Type}

/-! ## Relations between states -/

/-- Two states with the same sessions, group, accounts and channels. -/
def Server.SameLogins (s t : Server C) : Prop :=
  t = { s with heartbeat := t.heartbeat, builder := t.builder, out := t.out }

namespace Server.SameLogins

theorem refl (s : Server C) : s.SameLogins s := rfl

theorem trans (s t u : Server C) (hst : s.SameLogins t) (htu : t.SameLogins u) :
    s.SameLogins u := by
  unfold SameLogins at hst htu ⊢
  rw [htu, hst]

variable {s t : Server C} (h : s.SameLogins t)

include h

theorem sessions : t.sessions = s.sessions := by rw [show t = _ from h]

theorem group : t.group = s.group := by rw [show t = _ from h]

theorem account : t.account = s.account := by rw [show t = _ from h]

theorem channel : t.channel = s.channel := by rw [show t = _ from h]

omit h

/-- An answer leaves the logins as they are. -/
theorem push (s : Server C) (account : Text) (msg : Model) : s.SameLogins (s.push account msg) := by
  unfold Server.push
  cases s.sessions account with
  | none => exact refl s
  | some S => rfl

end Server.SameLogins

/-- Two states that differ in what has been written only. -/
def Server.OnlyWrites (s t : Server C) : Prop := t = { s with out := t.out }

namespace Server.OnlyWrites

theorem refl (s : Server C) : s.OnlyWrites s := rfl

theorem trans (s t u : Server C) (hst : s.OnlyWrites t) (htu : t.OnlyWrites u) :
    s.OnlyWrites u := by
  unfold OnlyWrites at hst htu ⊢
  rw [htu, hst]

variable {s t : Server C} (h : s.OnlyWrites t)

include h

theorem heartbeat : t.heartbeat = s.heartbeat := by rw [show t = _ from h]

theorem builder : t.builder = s.builder := by rw [show t = _ from h]

theorem sameLogins : s.SameLogins t := by
  unfold OnlyWrites at h
  rw [h]
  rfl

end Server.OnlyWrites

/-! ## The functions that only write -/

open Server (OnlyWrites)

theorem writes_raising {α : Type} (x : Except Exception α) :
    Within OnlyWrites (raising x : Handler C α) := by
  cases x with
  | ok a => exact .pure OnlyWrites.refl a
  | error e => exact .throw OnlyWrites.refl e

theorem writes_getSession (sessionId : Option Text) :
    Within OnlyWrites (getSession (C := C) sessionId) :=
  .bind OnlyWrites.trans (writes_raising _) fun _ =>
    .bind OnlyWrites.trans (.get OnlyWrites.refl) fun _ => .pure OnlyWrites.refl _

theorem writes_getChannelSessionId (ctx : ChannelHandlerContext C) :
    Within OnlyWrites (getChannelSessionId ctx) :=
  .bind OnlyWrites.trans (.get OnlyWrites.refl) fun _ => .pure OnlyWrites.refl _

theorem writes_write (msg : Model) (S : Session C) : Within OnlyWrites (S.write msg) := by
  intro s
  rw [Session.write_apply]
  rfl

theorem writes_writeBody (body : Option Model) (S : Session C) : Within OnlyWrites
    (match body with
    | none => throw .nullPointer
    | some msg => S.write msg) := by
  cases body with
  | none => exact .throw OnlyWrites.refl _
  | some msg => exact writes_write msg S

theorem writes_pushMessage (w : MessageWrapper) :
    Within OnlyWrites (pushMessage (C := C) w) := by
  refine .tryCatch OnlyWrites.trans ?_ fun _ => .throw OnlyWrites.refl _
  refine .bind OnlyWrites.trans (writes_getSession _) fun session => ?_
  cases session with
  | none => exact .pure OnlyWrites.refl ()
  | some S => exact writes_writeBody w.body S

theorem writes_pushMessageTo (sessionId : Option Text) (w : MessageWrapper) :
    Within OnlyWrites (pushMessageTo (C := C) sessionId w) := by
  refine .bind OnlyWrites.trans (writes_getSession _) fun session => ?_
  cases session with
  | none => exact .throw OnlyWrites.refl _
  | some _ =>
    refine .tryCatch OnlyWrites.trans ?_ fun _ => .throw OnlyWrites.refl _
    refine .bind OnlyWrites.trans (writes_getSession _) fun responseSession => ?_
    cases responseSession with
    | none => exact .pure OnlyWrites.refl ()
    | some S => exact writes_writeBody w.body S

theorem writes_pushGroupMessage (w : MessageWrapper) :
    Within OnlyWrites (pushGroupMessage (C := C) w) := by
  unfold pushGroupMessage
  cases w.body with
  | none => exact .throw OnlyWrites.refl _
  | some msg => exact fun s => rfl

theorem receiveMessages_of_send [DecidableEq C] [Channel C] {source : Source} {now : Clock}
    {ctx : ChannelHandlerContext C} {w : MessageWrapper} (h : w.isSend = true) :
    receiveMessages source now ctx w = pushMessage { w with source := source } := by
  have hprotocol : w.protocol = .SEND := by simpa [MessageWrapper.isSend] using h
  simp [receiveMessages, MessageWrapper.isHeartbeat, MessageWrapper.isClose,
    MessageWrapper.isGroup, MessageWrapper.isSend, hprotocol]

theorem receiveMessages_of_group [DecidableEq C] [Channel C] {source : Source} {now : Clock}
    {ctx : ChannelHandlerContext C} {w : MessageWrapper} (h : w.isGroup = true) :
    receiveMessages source now ctx w = pushGroupMessage { w with source := source } := by
  have hprotocol : w.protocol = .GROUP := by simpa [MessageWrapper.isGroup] using h
  simp [receiveMessages, MessageWrapper.isHeartbeat, MessageWrapper.isClose,
    MessageWrapper.isGroup, hprotocol]

theorem receiveMessages_of_reply [DecidableEq C] [Channel C] {source : Source} {now : Clock}
    {ctx : ChannelHandlerContext C} {w : MessageWrapper} (h : w.isReply = true) :
    receiveMessages source now ctx w =
      pushMessageTo w.sessionId { w with source := source } := by
  have hprotocol : w.protocol = .REPLY := by simpa [MessageWrapper.isReply] using h
  simp [receiveMessages, MessageWrapper.isHeartbeat, MessageWrapper.isClose,
    MessageWrapper.isGroup, MessageWrapper.isSend, MessageWrapper.isReply, hprotocol]

theorem writes_heartbeatToClient (now : Clock) (ctx : ChannelHandlerContext C) :
    Within OnlyWrites (heartbeatToClient now ctx) := by
  refine .bind OnlyWrites.trans (writes_getChannelSessionId ctx) fun _ => ?_
  refine .bind OnlyWrites.trans (writes_raising _) fun _ => ?_
  exact fun s => rfl

/-- **A message that is neither a heartbeat nor a close** is only handed on. -/
theorem writes_receiveMessages [DecidableEq C] [Channel C] {source : Source} {now : Clock}
    {ctx : ChannelHandlerContext C} {w : MessageWrapper} (hLK : w.isHeartbeat = false)
    (hclose : w.isClose = false) :
    Within OnlyWrites (receiveMessages source now ctx w) := by
  have hLK' : ({ w with source := source } : MessageWrapper).isHeartbeat = false := hLK
  have hclose' : ({ w with source := source } : MessageWrapper).isClose = false := hclose
  simp only [receiveMessages, hLK', hclose', Bool.false_eq_true, if_false]
  split_ifs
  · exact writes_pushGroupMessage _
  · exact writes_pushMessage _
  · exact writes_pushMessageTo _ _
  · exact .pure OnlyWrites.refl ()

end NettyTcpWeb
