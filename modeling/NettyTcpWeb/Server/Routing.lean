import NettyTcpWeb.Server.Client
import NettyTcpWeb.Server.Registry

/-!
# Routing a message

A message that is neither a link-keep message nor a position report is stamped with the account of
its channel as sender. It goes to the session of its receiver, to the group, or to the session of
the device it names. A message to a receiver is refused if that device is not logged in. The device
is whatever the client says it is, so the check does not see whether the sender is logged in.

## Main definitions

* `Server.route`: what becomes of a stamped message
* `Output.message`, `handled`: the message of an output, and whether the handler of an event raises
* `OnlyFromLoggedIn`: a message reaches its receiver from a channel that is logged in, or is refused

## Main results

* `handle_message`: the handlers route the stamped message
* `sender_is_account`: **the sender of a message is the account of its channel**
* `onlyFromLoggedIn_iff`: **only a logged-in sender reaches a receiver**, unless a sender that is
  not logged in names a device that is
-/

namespace NettyTcpWeb

open Java (Text Exception lit isNotEmpty)
open StateExcept

variable {C : Type}

/-- The message of an output. -/
def Output.message : Output C → Model
  | .write _ msg => msg
  | .broadcast msg _ => msg

/-- What becomes of a stamped message: it is delivered to its receiver, which a device that is not
logged in is refused, or to the group, or else to the device. -/
def Server.route (s : Server C) (msg : Model) : EStateM.Result Exception (Server C) Unit :=
  if isNotEmpty (some msg.receiver) then
    match s.sessions msg.deviceId with
    | none => .error .runtime s
    | some _ => .ok () (s.push msg.receiver msg)
  else if isNotEmpty (some msg.groupId) then .ok () (s.broadcast msg)
  else .ok () (s.push msg.deviceId msg)

section Route

variable {s t : Server C} {msg : Model}

/-- What becomes of a message is written as it is; the group gets it if it names a group. -/
theorem mem_route_out {o : Output C} (ho : o ∈ (stateAfter (s.route msg)).out) : o ∈ s.out ∨
    (∃ c, o = .write c msg) ∨ (∃ members, o = .broadcast msg members ∧ msg.groupId ≠ []) := by
  have hpush : ∀ {r}, o ∈ (s.push r msg).out → o ∈ s.out ∨ ∃ c, o = .write c msg := by
    intro r h
    exact (Server.mem_push_out h).imp_right fun ⟨c, _, ho, _⟩ => ⟨c, ho⟩
  unfold Server.route at ho
  split_ifs at ho with hreceiver hgroup
  · cases hS : s.sessions msg.deviceId with
    | none =>
      rw [hS] at ho
      exact .inl ho
    | some S =>
      rw [hS] at ho
      exact (hpush ho).imp_right .inl
  · rcases List.mem_append.mp ho with ho | ho
    · exact .inl ho
    · refine .inr (.inr ⟨s.group, List.mem_singleton.mp ho, ?_⟩)
      rintro hnil
      simp [hnil, isNotEmpty] at hgroup
  · exact (hpush ho).imp_right .inl

theorem push_out_congr (h : s.SameLogins t) (hout : t.out = s.out) (r : Text) :
    (t.push r msg).out = (s.push r msg).out := by
  unfold Server.push
  rw [h.sessions]
  cases s.sessions r with
  | none => exact hout
  | some S => simp only [Server.deliver_out, hout, h.channel]

/-- The routing depends on the logins only. -/
theorem route_congr (msg : Model) (h : s.SameLogins t) (hout : t.out = s.out) :
    outcome (t.route msg) = outcome (s.route msg) ∧
      (stateAfter (t.route msg)).out = (stateAfter (s.route msg)).out := by
  unfold Server.route
  split_ifs
  · rw [h.sessions]
    cases s.sessions msg.deviceId with
    | none => exact ⟨rfl, hout⟩
    | some S => exact ⟨rfl, push_out_congr h hout _⟩
  · refine ⟨rfl, ?_⟩
    simp only [stateAfter, Server.broadcast_out, hout, h.group]
  · exact ⟨rfl, push_out_congr h hout _⟩

end Route

variable [DecidableEq C] [Channel C]

/-- Whether the handler of an event returns or raises. -/
def handled (s : Server C) (e : Event C) : Except Exception Unit :=
  outcome (handle e { s with out := [] })

section Handle

variable (s : Server C) (ctx : ChannelHandlerContext C) (now : Clock) {m : Model}

/-- **The handlers route the stamped message**; without an account there is no stamp. -/
theorem handle_message (hLK : m.type ≠ lit "LK") (hUD : m.type ≠ lit "UD") :
    ∃ b, handle (.message ctx now m) s =
      match s.account ctx.channel with
      | none => .error .nullPointer { s with builder := b }
      | some a =>
        Server.route { s with builder := b } { m with timeStamp := now.text, sender := a } := by
  obtain ⟨b, hhandle⟩ := handle_message_eq s ctx now m
  refine ⟨b, hhandle.trans ?_⟩
  rw [bind_apply]
  unfold convertToMessageWrapper
  rw [if_neg hLK, if_neg hUD]
  cases s.account ctx.channel with
  | none => rfl
  | some a =>
    simp only [nonNull, bind, Except.bind, pure, Except.pure]
    unfold Server.route
    split_ifs
    · simp only [raising_ok, receiveMessages_of_reply (w := { protocol := .REPLY, .. }) rfl]
      cases hS : s.sessions m.deviceId with
      | none => exact pushMessageTo_of_none hS
      | some S => exact pushMessageTo_of_some rfl rfl hS
    · simp only [raising_ok, receiveMessages_of_group (w := { protocol := .GROUP, .. }) rfl]
      rfl
    · simp only [raising_ok, receiveMessages_of_send (w := { protocol := .SEND, .. }) rfl]
      exact pushMessage_apply rfl rfl _

theorem step_message_of_some (hLK : m.type ≠ lit "LK") (hUD : m.type ≠ lit "UD") {a : Text}
    (ha : s.account ctx.channel = some a) : ∃ b,
      step s (.message ctx now m) = stateAfter (Server.route { s with builder := b, out := [] }
        { m with timeStamp := now.text, sender := a }) ∧
      handled s (.message ctx now m) = outcome (Server.route { s with builder := b, out := [] }
        { m with timeStamp := now.text, sender := a }) := by
  obtain ⟨b, hhandle⟩ := handle_message { s with out := [] } ctx now hLK hUD
  simp only [ha] at hhandle
  exact ⟨b, congrArg stateAfter hhandle, congrArg outcome hhandle⟩

theorem step_message_of_none (hLK : m.type ≠ lit "LK") (hUD : m.type ≠ lit "UD")
    (ha : s.account ctx.channel = none) : (step s (.message ctx now m)).out = [] ∧
      handled s (.message ctx now m) = .error .nullPointer := by
  obtain ⟨b, hhandle⟩ := handle_message { s with out := [] } ctx now hLK hUD
  simp only [ha] at hhandle
  refine ⟨?_, congrArg outcome hhandle⟩
  rw [step, hhandle, stateAfter]

/-- A position report is answered to nobody. -/
theorem step_message_UD (hUD : m.type = lit "UD") :
    (step s (.message ctx now m)).out = [] := by
  obtain ⟨b, hstep⟩ := step_message s ctx now m
  rw [hstep, convertToMessageWrapper_UD hUD]
  simp [receiveMessages, MessageWrapper.isHeartbeat, MessageWrapper.isClose,
    MessageWrapper.isGroup, MessageWrapper.isSend, MessageWrapper.isReply, stateAfter]

end Handle

/-! ## The sender -/

/-- Every copy of a message carries the account of its channel as sender, what the message says
about its sender and time changes nothing, and without an account nothing is written. -/
structure SenderIsAccount (s : Server C) (ctx : ChannelHandlerContext C) (now : Clock) (m : Model) :
    Prop where
  stamped : ∀ o ∈ (step s (.message ctx now m)).out, ∃ a, s.account ctx.channel = some a ∧
    o.message = { m with timeStamp := now.text, sender := a }
  unaffected : ∀ sender timeStamp : Text,
    let m' := { m with timeStamp := timeStamp, sender := sender }
    (step s (.message ctx now m')).out = (step s (.message ctx now m)).out ∧
      handled s (.message ctx now m') = handled s (.message ctx now m)
  refused : s.account ctx.channel = none → (step s (.message ctx now m)).out = [] ∧
    ∃ e, handled s (.message ctx now m) = .error e

/-- **The sender of a message is the account of its channel.** -/
theorem sender_is_account (s : Server C) (ctx : ChannelHandlerContext C) (now : Clock) {m : Model}
    (hLK : m.type ≠ lit "LK") (hUD : m.type ≠ lit "UD") : SenderIsAccount s ctx now m where
  stamped := by
    intro o ho
    cases ha : s.account ctx.channel with
    | none =>
      rw [(step_message_of_none s ctx now hLK hUD ha).1] at ho
      cases ho
    | some a =>
      obtain ⟨b, hstep, -⟩ := step_message_of_some s ctx now hLK hUD ha
      rw [hstep] at ho
      rcases mem_route_out ho with hnil | ⟨c, rfl⟩ | ⟨members, rfl, -⟩
      · cases hnil
      · exact ⟨a, rfl, rfl⟩
      · exact ⟨a, rfl, rfl⟩
  unaffected := by
    intro sender timeStamp m'
    cases ha : s.account ctx.channel with
    | none =>
      have hm := step_message_of_none s ctx now hLK hUD ha
      have hm' := step_message_of_none s ctx now (m := m') hLK hUD ha
      exact ⟨hm'.1.trans hm.1.symm, hm'.2.trans hm.2.symm⟩
    | some a =>
      obtain ⟨b, hstep, hhandled⟩ := step_message_of_some s ctx now hLK hUD ha
      obtain ⟨b', hstep', hhandled'⟩ := step_message_of_some s ctx now (m := m') hLK hUD ha
      have hsame := route_congr { m with timeStamp := now.text, sender := a }
        (s := { s with builder := b, out := [] }) (t := { s with builder := b', out := [] }) rfl rfl
      rw [hstep, hstep', hhandled, hhandled']
      exact ⟨hsame.2, hsame.1⟩
  refused := by
    intro ha
    obtain ⟨hout, hhandled⟩ := step_message_of_none s ctx now hLK hUD ha
    exact ⟨hout, _, hhandled⟩

/-- A message of a page for the group. -/
theorem sender_is_account_page : SenderIsAccount (step .empty ((Client.page 0).linkKeep (lit "1")))
    (Client.page 0).ctx ⟨0, []⟩ { deviceId := lit "1", groupId := lit "2", sender := lit "3" } :=
  sender_is_account _ _ _ (by decide) (by decide)

/-! ## Messages to a receiver -/

/-- The account of the channel is logged in. -/
def LoggedIn (s : Server C) (c : C) : Prop := ∃ a S, s.account c = some a ∧ s.sessions a = some S

/-- A message is written to its receiver only if the account of its channel is logged in; if the
account is not, the handler raises and nothing is written. -/
structure OnlyFromLoggedIn (s : Server C) (ctx : ChannelHandlerContext C) (now : Clock)
    (m : Model) : Prop where
  reached : ∀ c msg, .write c msg ∈ (step s (.message ctx now m)).out → s.Attached m.receiver c →
    LoggedIn s ctx.channel
  refused : ¬ LoggedIn s ctx.channel → (∃ e, handled s (.message ctx now m) = .error e) ∧
    (step s (.message ctx now m)).out = []

section Receiver

variable (s : Server C) (ctx : ChannelHandlerContext C) (now : Clock) {m : Model}

theorem isNotEmpty_of_ne_nil {text : Text} (h : text ≠ []) : isNotEmpty (some text) = true := by
  rw [isNotEmpty, List.isEmpty_eq_false_iff.mpr h]
  rfl

/-- Without an account, and for a device that is not logged in, a message to a receiver is
refused. -/
theorem message_refused (hLK : m.type ≠ lit "LK") (hUD : m.type ≠ lit "UD")
    (hreceiver : m.receiver ≠ [])
    (h : s.account ctx.channel = none ∨ s.sessions m.deviceId = none) :
    (∃ e, handled s (.message ctx now m) = .error e) ∧
      (step s (.message ctx now m)).out = [] := by
  cases ha : s.account ctx.channel with
  | none =>
    obtain ⟨hout, hhandled⟩ := step_message_of_none s ctx now hLK hUD ha
    exact ⟨⟨_, hhandled⟩, hout⟩
  | some a =>
    have hdevice : s.sessions m.deviceId = none := h.resolve_left (by simp [ha])
    obtain ⟨b, hstep, hhandled⟩ := step_message_of_some s ctx now hLK hUD ha
    simp only [Server.route, isNotEmpty_of_ne_nil hreceiver, if_true, hdevice] at hstep hhandled
    exact ⟨⟨_, hhandled⟩, by rw [hstep, stateAfter]⟩

/-- **Only a logged-in sender reaches a receiver**, unless a channel with an account that is not
logged in names a device that is. -/
theorem onlyFromLoggedIn_iff (hLK : m.type ≠ lit "LK") (hUD : m.type ≠ lit "UD")
    (hreceiver : m.receiver ≠ []) : OnlyFromLoggedIn s ctx now m ↔
      LoggedIn s ctx.channel ∨ s.account ctx.channel = none ∨ s.sessions m.deviceId = none := by
  constructor
  · intro h
    by_contra hcond
    obtain ⟨hnot, haccount, hdevice⟩ := by simpa only [not_or] using hcond
    obtain ⟨a, ha⟩ := Option.ne_none_iff_exists'.mp haccount
    obtain ⟨S, hS⟩ := Option.ne_none_iff_exists'.mp hdevice
    obtain ⟨b, -, hhandled⟩ := step_message_of_some s ctx now hLK hUD ha
    obtain ⟨⟨e, he⟩, -⟩ := h.refused hnot
    simp [hhandled, Server.route, isNotEmpty_of_ne_nil hreceiver, hS, outcome] at he
  · rintro (hin | hrefused)
    · exact ⟨fun _ _ _ _ => hin, fun hnot => absurd hin hnot⟩
    · have h := message_refused s ctx now hLK hUD hreceiver hrefused
      refine ⟨?_, fun _ => h⟩
      intro c msg hwrite
      simp [h.2] at hwrite

end Receiver

/-- The server after the account `1` has gone with its second page, while its first page is open; a
third page is logged in as `3`. -/
def firstPageLeft : List (Event Client) :=
  [(Client.page 0).linkKeep (lit "1"), (Client.page 1).linkKeep (lit "1"),
    .disconnect (Client.page 1), (Client.page 1).gone, (Client.page 2).linkKeep (lit "3")]

/-- A message of the first page for the third one, in the name of the third one. -/
def borrowed : Model := { deviceId := lit "3", receiver := lit "3" }

theorem onlyFromLoggedIn_iff_borrowed :
    let s := (server Client).exec .empty firstPageLeft
    OnlyFromLoggedIn s (Client.page 0).ctx ⟨0, []⟩ borrowed ↔
      LoggedIn s (Client.page 0) ∨ s.account (.page 0) = none ∨ s.sessions (lit "3") = none :=
  onlyFromLoggedIn_iff _ (Client.page 0).ctx ⟨0, []⟩ (m := borrowed) (by decide) (by decide)
    (by decide)

/-- **A page that is not logged in reaches a receiver** under the name of another account. -/
theorem borrowed_reaches_receiver :
    let s := (server Client).exec .empty firstPageLeft
    (server Client).Reachable .empty s ∧
      Enabled s (.message (Client.page 0).ctx ⟨0, []⟩ borrowed) ∧
      s.account (.page 0) = lit "1" ∧ s.sessions (lit "1") = none ∧
      s.Attached (lit "3") (Client.page 2) ∧
      .write (Client.page 2) { borrowed with sender := lit "1" } ∈
        (step s (.message (Client.page 0).ctx ⟨0, []⟩ borrowed)).out ∧
      handled s (.message (Client.page 0).ctx ⟨0, []⟩ borrowed) = .ok () ∧
      ¬ OnlyFromLoggedIn s (Client.page 0).ctx ⟨0, []⟩ borrowed := by
  intro s
  have hnot : ¬ LoggedIn s (Client.page 0) := by
    rintro ⟨a, S, ha, hS⟩
    obtain rfl : lit "1" = a := Option.some.inj ha
    cases hS
  refine ⟨⟨firstPageLeft, ⟨rfl, rfl, rfl, rfl, rfl, trivial⟩, rfl⟩, rfl, rfl, rfl,
    ⟨_, rfl, .inl rfl⟩, .head _, rfl, ?_⟩
  intro h
  obtain ⟨⟨e, he⟩, -⟩ := h.refused hnot
  cases he

end NettyTcpWeb
