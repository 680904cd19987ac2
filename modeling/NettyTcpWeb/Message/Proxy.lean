import NettyTcpWeb.Message.Parsing

/-!
# The message proxy

`MessageProxyImpl` wraps an inbound message by its type: a heartbeat and a position report keep
their device as the requester, and every other message gets the account of its channel as sender and
is routed by its receiver and its group.

## Main definitions

* `MessageEnums`, `Source`, `MessageWrapper`: the wrapped message
* `convertToMessageWrapper`: the proxy
* `getOnLineStateMsg`, `getOffLineStateMsg`: the notices that an account has come and gone

## Main results

* `body_of_convertToMessageWrapper`: a routed message is handed on as it is, but for its sender and
  its time stamp
-/

namespace NettyTcpWeb

open Java (Text Exception lit isNotEmpty)

/-- The constants of `MessageEnums` that a wrapper carries. -/
inductive MessageEnums where
  | LK
  | UD
  | CLOSE
  | REPLY
  | SEND
  | GROUP
deriving DecidableEq, Repr

/-- `Constants.ImserverConfig.SOCKET` and `WEBSOCKET`: which server accepted a channel. -/
inductive Source where
  | socket
  | websocket
deriving DecidableEq, Repr

/-- `MessageWrapper`; an absent account or body is `null`, and a fresh wrapper has source `0`. -/
structure MessageWrapper where
  protocol : MessageEnums
  sessionId : Option Text
  reSessionId : Option Text
  body : Option Model
  source : Source := .socket
deriving DecidableEq, Repr

namespace MessageWrapper

variable (w : MessageWrapper)

def isHeartbeat : Bool := w.protocol = .LK

def isClose : Bool := w.protocol = .CLOSE

def isSend : Bool := w.protocol = .SEND

def isGroup : Bool := w.protocol = .GROUP

def isReply : Bool := w.protocol = .REPLY

end MessageWrapper

/-- `MessageProxyImpl.convertToMessageWrapper` at the clock text `now`. The `return null` at its end
is never reached: nothing in the `try` blocks raises. -/
def convertToMessageWrapper (now : Text) (sessionId : Option Text) (message : Model) :
    Except Exception MessageWrapper :=
  if message.type = lit "LK" then
    .ok { protocol := .LK, sessionId := message.deviceId, reSessionId := none,
          body := some { message with body := [] } }
  else if message.type = lit "UD" then
    .ok { protocol := .UD, sessionId := message.deviceId, reSessionId := none,
          body := some { message with body := [] } }
  else do
    -- `setSender(null)` raises outside the `try` block
    let sender ← nonNull sessionId
    let message := { message with timeStamp := now, sender := sender }
    if isNotEmpty (some message.receiver) then
      return { protocol := .REPLY, sessionId := message.deviceId, reSessionId := message.receiver,
               body := some message }
    else if isNotEmpty (some message.groupId) then
      return { protocol := .GROUP, sessionId := message.deviceId, reSessionId := none,
               body := some message }
    else
      return { protocol := .SEND, sessionId := message.deviceId, reSessionId := none,
               body := some message }

/-- `MessageProxyImpl.getOnLineStateMsg`; its only call is commented out. -/
def getOnLineStateMsg (now : Text) (sessionId : Option Text) : Except Exception Model :=
  generateTemplate now sessionId (lit "ONLINE") (lit "0")

/-- `MessageProxyImpl.getOffLineStateMsg`. -/
def getOffLineStateMsg (now : Text) (sessionId : Option Text) : Except Exception Model :=
  generateTemplate now sessionId (lit "OFFLINE") (lit "1")

/-- The notice names the account, and no group. -/
theorem getOffLineStateMsg_fields {now a : Text} {msg : Model}
    (h : getOffLineStateMsg now a = .ok msg) :
    msg.type = lit "OFFLINE" ∧ msg.deviceId = a ∧ msg.groupId = [] := by
  obtain rfl := Except.ok.inj h
  exact ⟨rfl, rfl, rfl⟩

theorem convertToMessageWrapper_LK {now : Text} {sessionId : Option Text} {message : Model}
    (h : message.type = lit "LK") : convertToMessageWrapper now sessionId message =
      .ok { protocol := .LK, sessionId := message.deviceId, reSessionId := none,
            body := some { message with body := [] } } := if_pos h

theorem convertToMessageWrapper_UD {now : Text} {sessionId : Option Text} {message : Model}
    (h : message.type = lit "UD") : convertToMessageWrapper now sessionId message =
      .ok { protocol := .UD, sessionId := message.deviceId, reSessionId := none,
            body := some { message with body := [] } } := by
  have hLK : message.type ≠ lit "LK" := h ▸ by decide
  rw [convertToMessageWrapper, if_neg hLK, if_pos h]

/-- No message makes its channel close, and only a link-keep message is a heartbeat. -/
theorem not_isHeartbeat_of_convertToMessageWrapper {now : Text} {sessionId : Option Text}
    {message : Model} {w : MessageWrapper} (hLK : message.type ≠ lit "LK")
    (h : convertToMessageWrapper now sessionId message = .ok w) :
    w.isHeartbeat = false ∧ w.isClose = false := by
  unfold convertToMessageWrapper at h
  rw [if_neg hLK] at h
  split at h
  · cases h
    exact ⟨rfl, rfl⟩
  · cases sessionId with
    | none => cases h
    | some sender =>
      simp only [nonNull, bind, Except.bind, pure, Except.pure] at h
      split_ifs at h <;> cases h <;> exact ⟨rfl, rfl⟩

/-- Every message is wrapped for the device it names. -/
theorem sessionId_of_convertToMessageWrapper {now : Text} {sessionId : Option Text}
    {message : Model} {w : MessageWrapper}
    (h : convertToMessageWrapper now sessionId message = .ok w) :
    w.sessionId = some message.deviceId := by
  unfold convertToMessageWrapper at h
  split at h
  · cases h
    rfl
  · split at h
    · cases h
      rfl
    · cases sessionId with
      | none => cases h
      | some sender =>
        simp only [nonNull, bind, Except.bind, pure, Except.pure] at h
        split_ifs at h <;> cases h <;> rfl

/-- The wrapper of a routed message holds the message, with its sender and time stamp set. -/
theorem body_of_convertToMessageWrapper {now : Text} {sessionId : Option Text} {message : Model}
    {w : MessageWrapper} (h : convertToMessageWrapper now sessionId message = .ok w)
    (hroute : w.isReply ∨ w.isSend ∨ w.isGroup) : ∃ sender, sessionId = some sender ∧
      w.body = some { message with timeStamp := now, sender := sender } := by
  unfold convertToMessageWrapper at h
  split at h
  · cases h
    simp [MessageWrapper.isReply, MessageWrapper.isSend, MessageWrapper.isGroup] at hroute
  · split at h
    · cases h
      simp [MessageWrapper.isReply, MessageWrapper.isSend, MessageWrapper.isGroup] at hroute
    · cases sessionId with
      | none => cases h
      | some sender =>
        refine ⟨sender, rfl, ?_⟩
        simp only [nonNull, bind, Except.bind, pure, Except.pure] at h
        split_ifs at h <;> cases h <;> rfl

end NettyTcpWeb
