import NettyTcpWeb.Server.Idle
import NettyTcpWeb.Server.Routing

/-!
# The heartbeats of the two servers

The TCP server makes the heartbeat of an idle channel from the account of the channel. The WebSocket
server takes its copy of the last message of the channel and changes the type and the body, so the
heartbeat keeps whatever device, sender, receiver and group the last message had.

## Main definitions

* `Model.addressing`: the fields of a message that name somebody
* `SendsHeartbeat`: an idle channel gets a heartbeat that names its account and nobody else
* `lastMessage`: the last message of a channel

## Main results

* `socket_sendsHeartbeat`: the TCP server sends that heartbeat
* `builder_addressing`, `account_of_no_message`: the copy names whom the last message named, and a
  channel with an account has sent a message
* `websocket_sendsHeartbeat_iff`: **when the WebSocket server sends that heartbeat**
-/

namespace NettyTcpWeb

open Java (Text lit)
open StateExcept

/-- The device, the sender, the receiver and the group of a message. -/
def Model.addressing (m : Model) : Text × Text × Text × Text :=
  (m.deviceId, m.sender, m.receiver, m.groupId)

/-- A message that tells the account `a` that the server is there. -/
structure Model.IsHeartbeat (m : Model) (a : Text) : Prop where
  type : m.type = lit "LK"
  body : m.body = []
  addressing : m.addressing = (a, [], [], [])

variable {C : Type} [DecidableEq C] [Channel C]

/-- A channel to which nothing has been written for a while gets a heartbeat for the account `a`,
and nothing is raised. -/
def SendsHeartbeat (s : Server C) (ctx : ChannelHandlerContext C) (now : Clock) (a : Text) : Prop :=
  handled s (.writerIdle ctx now) = .ok () ∧
    ∃ msg, (step s (.writerIdle ctx now)).out = [.write ctx.channel msg] ∧ msg.IsHeartbeat a

section Idle

variable {s : Server C} {ctx : ChannelHandlerContext C} {now : Clock} {a : Text}

omit [DecidableEq C] [Channel C] in
theorem writeAndFlush_out_of_opened {c : C} {msg : Model} (hopen : s.channel c = .opened) :
    (s.writeAndFlush c msg).out = s.out ++ [.write c msg] := if_pos hopen

/-- **The TCP server names the account of the channel, and nobody else.** -/
theorem socket_sendsHeartbeat (hserver : Channel.server ctx.channel = .socket)
    (hopen : s.channel ctx.channel = .opened) (ha : s.account ctx.channel = some a)
    (hne : a ≠ []) : SendsHeartbeat s ctx now a := by
  let s₀ : Server C := { s with out := [] }
  have hhandle := handle_writerIdle_socket (s := s₀) now hserver
  have ha₀ : s₀.account ctx.channel = some a := ha
  obtain ⟨msg, hmsg, hheartbeat⟩ : ∃ msg, generateTemplate now.text a (lit "LK") [] = .ok msg ∧
      msg.IsHeartbeat a := ⟨_, rfl, rfl, rfl, rfl⟩
  have hwrite : heartbeatToClient now ctx (s₀.setHeartbeat ctx.channel (some now.millis)) =
      .ok () ((s₀.setHeartbeat ctx.channel (some now.millis)).writeAndFlush ctx.channel msg) := by
    simp [heartbeatToClient, getChannelSessionId, ha₀, hmsg]
  rw [ha₀, if_pos (isNotEmpty_of_ne_nil hne), hwrite] at hhandle
  refine ⟨congrArg outcome hhandle, msg, ?_, hheartbeat⟩
  rw [step, hhandle]
  exact writeAndFlush_out_of_opened hopen

/-- The WebSocket server names whom the copied message names. -/
theorem websocket_sendsHeartbeat (hserver : Channel.server ctx.channel = .websocket)
    (hopen : s.channel ctx.channel = .opened) (ha : s.account ctx.channel = some a)
    (hne : a ≠ []) {b : Model} (hb : s.builder ctx.channel = some b) :
    SendsHeartbeat s ctx now a ↔ b.addressing = (a, [], [], []) := by
  let s₀ : Server C := { s with out := [] }
  have hhandle := handle_writerIdle_websocket (s := s₀) now hserver
  have ha₀ : s₀.account ctx.channel = some a := ha
  have hb₀ : s₀.builder ctx.channel = some b := hb
  rw [ha₀, if_pos (isNotEmpty_of_ne_nil hne), hb₀] at hhandle
  have hout : (step s (.writerIdle ctx now)).out =
      [.write ctx.channel { b with body := [], type := lit "LK" }] := by
    rw [step, hhandle]
    exact writeAndFlush_out_of_opened hopen
  constructor
  · rintro ⟨-, msg, hmsg, hheartbeat⟩
    obtain ⟨-, rfl⟩ := Output.write.inj (List.singleton_inj.mp (hout.symm.trans hmsg))
    exact hheartbeat.addressing
  · intro haddressing
    exact ⟨congrArg outcome hhandle, _, hout, rfl, rfl, haddressing⟩

end Idle

/-! ## The copy of the last message -/

/-- The message that an event brings from a channel. -/
def Event.messageOf (c : C) : Event C → Option Model
  | .message ctx _ m => if ctx.channel = c then some m else none
  | _ => none

/-- The last message of a channel. -/
def lastMessage (c : C) (es : List (Event C)) : Option Model :=
  (es.filterMap (Event.messageOf c)).getLast?

omit [Channel C] in
theorem lastMessage_concat (c : C) (es : List (Event C)) (e : Event C) :
    lastMessage c (es ++ [e]) = (e.messageOf c).or (lastMessage c es) := by
  unfold lastMessage
  rw [List.filterMap_append, List.getLast?_append]
  cases h : e.messageOf c with
  | none => simp [h]
  | some m => simp [h]

section Copy

variable {s : Server C} {e : Event C} {c : C}

theorem remember_builder (hserver : Channel.server c = .websocket) (d : C) (m : Model) :
    (s.remember d m).builder c = if d = c then some m else s.builder c := by
  unfold Server.remember
  by_cases hd : d = c
  · subst hd
    simp [hserver]
  · cases Channel.server d with
    | socket => rw [if_neg hd]
    | websocket =>
      rw [if_neg hd]
      exact Function.update_of_ne (Ne.symm hd) _ _

omit [Channel C] in
/-- Only the type and the body of the copy are changed. -/
theorem WriterIdle.builder_addressing {t : Server C} {d : C} {now : Int}
    (h : WriterIdle s d now t) :
    (t.builder c).map Model.addressing = (s.builder c).map Model.addressing := by
  cases h with
  | silent | template => rfl
  | copy b hb =>
    show (Function.update s.builder d _ c).map Model.addressing = _
    by_cases hc : c = d
    · subst hc
      rw [Function.update_self, hb]
      rfl
    · rw [Function.update_of_ne hc]

/-- An event leaves the copy as it is, replaces it by the message it brings, or makes a heartbeat of
it. -/
theorem step_builder_addressing (hwf : s.Wellformed) (hserver : Channel.server c = .websocket) :
    ((step s e).builder c).map Model.addressing =
      ((e.messageOf c).or (s.builder c)).map Model.addressing := by
  cases e with
  | message ctx now m =>
    have hbuilder : (step s (.message ctx now m)).builder = (s.remember ctx.channel m).builder := by
      by_cases hLK : m.type = lit "LK"
      · exact (step_linkKeep_notes hwf ctx now hLK).2
      · exact (step_message_notes ctx now hLK).2
    rw [hbuilder, remember_builder hserver, Event.messageOf]
    split_ifs <;> rfl
  | writerIdle ctx now =>
    exact (handle_writerIdle { s with out := [] } ctx now).builder_addressing
  | readerIdle ctx now =>
    rcases step_readerIdle_notes hwf ctx now with ⟨-, -, hnotes⟩ | hnotes
    · rw [hnotes.2]
      rfl
    · rw [hnotes.2]
      rfl
  | disconnect d => rfl
  | channelInactive ctx now =>
    rw [(step_channelInactive_notes hwf ctx now).2]
    rfl

/-- Without a message of its own a channel keeps its account. -/
theorem account_of_messageOf (hwf : s.Wellformed) (h : e.messageOf c = none) :
    (step s e).account c = s.account c := by
  by_cases hLK : e.IsLinkKeep
  · obtain ⟨ctx, now, m, s₀, rfl, -, hs₀, -, hlogin⟩ := hLK.exists_login hwf
    have hne : ctx.channel ≠ c := by simpa [Event.messageOf] using h
    rw [hlogin.account, Function.update_of_ne hne.symm, hs₀.account]
  · rw [account_of_step hwf hLK]

end Copy

/-- The copy names whom the last message has named. -/
theorem builder_addressing {c : C} (hserver : Channel.server c = .websocket) (es : List (Event C)) :
    (((server C).exec .empty es).builder c).map Model.addressing =
      (lastMessage c es).map Model.addressing := by
  refine past_of_step (R := fun es s => (s.builder c).map Model.addressing =
    (lastMessage c es).map Model.addressing) rfl ?_ es
  intro es s e hwf ih
  rw [step_builder_addressing hwf hserver, lastMessage_concat]
  cases e.messageOf c with
  | none => exact ih
  | some m => rfl

/-- A channel that has sent no message has no account. -/
theorem account_of_no_message {c : C} {es : List (Event C)} (h : lastMessage c es = none) :
    ((server C).exec .empty es).account c = none := by
  refine past_of_step (R := fun es s => lastMessage c es = none → s.account c = none)
    (fun _ => rfl) ?_ es h
  intro es s e hwf ih h
  rw [lastMessage_concat, Option.or_eq_none_iff] at h
  rw [account_of_messageOf hwf h.1, ih h.2]

/-- **When the WebSocket server sends the heartbeat of the TCP server**: the last message of the
channel has named the account as its device, and nobody else. -/
theorem websocket_sendsHeartbeat_iff (es : List (Event C)) (ctx : ChannelHandlerContext C)
    (now : Clock) {a : Text} (hserver : Channel.server ctx.channel = .websocket)
    (hopen : ((server C).exec .empty es).channel ctx.channel = .opened)
    (ha : ((server C).exec .empty es).account ctx.channel = some a) (hne : a ≠ []) :
    SendsHeartbeat ((server C).exec .empty es) ctx now a ↔
      (lastMessage ctx.channel es).map Model.addressing = some (a, [], [], []) := by
  rw [← builder_addressing hserver]
  cases hb : ((server C).exec .empty es).builder ctx.channel with
  | none =>
    have hcopy := builder_addressing hserver es
    rw [hb, Option.map_none, eq_comm, Option.map_eq_none_iff] at hcopy
    cases (account_of_no_message hcopy).symm.trans ha
  | some b =>
    rw [websocket_sendsHeartbeat hserver hopen ha hne hb]
    simp

/-- A page that is logged in as `1` sends a message for `2`. -/
def talkative : List (Event Client) :=
  [(Client.page 0).linkKeep (lit "1"),
    .message (Client.page 0).ctx ⟨0, []⟩ { deviceId := lit "1", receiver := lit "2" }]

theorem websocket_sendsHeartbeat_iff_talkative :
    SendsHeartbeat ((server Client).exec .empty talkative) (Client.page 0).ctx ⟨0, []⟩ (lit "1") ↔
      (lastMessage (Client.page 0) talkative).map Model.addressing = some (lit "1", [], [], []) :=
  websocket_sendsHeartbeat_iff talkative (Client.page 0).ctx ⟨0, []⟩ rfl rfl rfl (by decide)

/-- **The heartbeat of a page names the receiver of its last message.** -/
theorem heartbeat_names_receiver :
    let s := (server Client).exec .empty talkative
    let e := Event.writerIdle (Client.page 0).ctx ⟨100000, []⟩
    (server Client).Reachable .empty s ∧ Enabled s e ∧ s.account (.page 0) = lit "1" ∧
      (step s e).out =
        [.write (.page 0) { deviceId := lit "1", type := lit "LK", receiver := lit "2" }] ∧
      ¬ SendsHeartbeat s (Client.page 0).ctx ⟨100000, []⟩ (lit "1") := by
  intro s e
  have hout : (step s e).out =
      [.write (.page 0) { deviceId := lit "1", type := lit "LK", receiver := lit "2" }] := rfl
  refine ⟨⟨talkative, ⟨rfl, rfl, trivial⟩, rfl⟩, rfl, rfl, hout, ?_⟩
  rintro ⟨-, msg, hmsg, hheartbeat⟩
  obtain ⟨-, rfl⟩ := Output.write.inj (List.singleton_inj.mp (hout.symm.trans hmsg))
  exact absurd hheartbeat.addressing (by decide)

end NettyTcpWeb
