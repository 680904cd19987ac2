import NettyTcpWeb.Server.Notices
import NettyTcpWeb.Server.Idle
import NettyTcpWeb.Wire.Message

/-!
# The texts that the server writes

The server makes up no text. What it writes are the fields of the messages it has received, the
accounts, which are device ids of such messages, the time of an event, and a few constants; only the
length of a template is computed. So a property that all received texts have, and the constants too,
holds of every text that is kept or written, but for such a length.

## Main definitions

* `Model.All`, `Event.All`: all texts of a message, and of an event, have a property
* `Constants`: the constants of the code have it
* `Model.Written`: all texts of a message have it, or the length is that of the type
* `Contents`: so are all texts that the server keeps or has written
* `Stems`: a text is a constant of the code or occurs in an event

## Main results

* `all_of_channelRead`: the messages of a watch have a property of texts that cuts keep
* `contents_step`: every event keeps the property
* `contents_of_events`: so it holds behind every list of events
* `stems_of_write`: **the server makes up no text**
-/

namespace NettyTcpWeb

open Java (Text ch lit)
open StateExcept

/-! ## Properties of texts -/

/-- All texts of the message have the property. -/
def Model.All (P : Text → Prop) (m : Model) : Prop := ∀ n ∈ Model.numbers, P (m.get n)

/-- All texts of the message have the property, but for a length that is computed from the type. -/
def Model.Written (P : Text → Prop) (m : Model) : Prop :=
  ∀ n ∈ Model.numbers, P (m.get n) ∨ n = 3 ∧ m.length = intToHex (Int32.ofNat m.type.length)

/-- The constants of the code have the property. -/
structure Constants (P : Text → Prop) : Prop where
  nil : P []
  factory : P (lit "3G")
  heartbeat : P (lit "LK")
  offline : P (lit "OFFLINE")

/-- All texts that an event brings have the property. -/
def Event.All {C : Type} (P : Text → Prop) : Event C → Prop
  | .message _ now m => P now.text ∧ m.All P
  | .writerIdle _ now | .readerIdle _ now | .channelInactive _ now => P now.text
  | .disconnect _ => True

section Model

variable {P : Text → Prop} {m : Model}

theorem Model.all_iff : m.All P ↔ P m.factory ∧ P m.deviceId ∧ P m.length ∧ P m.type ∧ P m.body ∧
    P m.timeStamp ∧ P m.sender ∧ P m.receiver ∧ P m.groupId := by
  simp [Model.All, Model.numbers, Model.get]

theorem Model.All.written (h : m.All P) : m.Written P := fun n hn => .inl (h n hn)

/-- A computed length consists of hexadecimal digits. -/
theorem Model.Written.all (hlength : ∀ n, P (intToHex n)) (h : m.Written P) : m.All P := by
  intro n hn
  rcases h n hn with hP | ⟨rfl, he⟩
  · exact hP
  · show P m.length
    rw [he]
    exact hlength _

/-- A routed message has the account of its channel and the time of its event. -/
theorem Model.All.stamp (h : m.All P) {now a : Text} (hnow : P now) (ha : P a) :
    Model.All P { m with timeStamp := now, sender := a } := by
  obtain ⟨h1, h2, h3, h4, h5, -, -, h8, h9⟩ := Model.all_iff.mp h
  exact Model.all_iff.mpr ⟨h1, h2, h3, h4, h5, hnow, ha, h8, h9⟩

variable (hP : Constants P)

include hP

/-- The answer to a link-keep message has no body. -/
theorem Model.All.answer (h : m.All P) : Model.All P { m with body := [] } := by
  obtain ⟨h1, h2, h3, h4, -, h6, h7, h8, h9⟩ := Model.all_iff.mp h
  exact Model.all_iff.mpr ⟨h1, h2, h3, h4, hP.nil, h6, h7, h8, h9⟩

/-- The heartbeat of a page has another type, too. -/
theorem Model.All.heartbeat (h : m.All P) :
    Model.All P { m with body := [], type := lit "LK" } := by
  obtain ⟨h1, h2, h3, -, -, h6, h7, h8, h9⟩ := Model.all_iff.mp h
  exact Model.all_iff.mpr ⟨h1, h2, h3, hP.heartbeat, hP.nil, h6, h7, h8, h9⟩

/-- A template has the constants of its type and body, the account and the time. -/
theorem written_generateTemplate {now a type body : Text} (hnow : P now) (ha : P a)
    (htype : P type) (hbody : P (firstSplit body (Java.ch ',')))
    (h : generateTemplate now a type body = .ok m) : m.Written P := by
  obtain rfl := Except.ok.inj h
  intro n hn
  simp only [Model.numbers, List.mem_cons, List.not_mem_nil, or_false] at hn
  rcases hn with rfl | rfl | rfl | rfl | rfl | rfl | rfl | rfl | rfl
  · exact .inl hP.factory
  · exact .inl ha
  · exact .inr ⟨rfl, rfl⟩
  · exact .inl htype
  · exact .inl hbody
  · exact .inl hnow
  · exact .inl hP.nil
  · exact .inl hP.nil
  · exact .inl hP.nil

theorem written_getOffLineStateMsg {now a : Text} (hnow : P now) (ha : P a)
    (h : getOffLineStateMsg now a = .ok m) : m.Written P := by
  have hbody : firstSplit (lit "1") (Java.ch ',') = [] := by decide
  exact written_generateTemplate hP hnow ha hP.offline (hbody ▸ hP.nil) h

end Model

/-! ## The texts of a watch -/

section Watch

open Java (Cuttable)

variable {P : Text → Prop} (hP : Cuttable P)

include hP

theorem cuttable_firstSplit {c : Java.Unit16} (hc : c < 0x80) {str : Text} (h : P str) :
    P (firstSplit str c) := by
  by_cases hmem : c ∈ str
  · obtain ⟨x, y, rfl, hx⟩ := List.eq_append_cons_of_mem hmem
    rw [firstSplit_append_cons hx]
    exact ((hP.cut hc).mp h).2
  · rw [firstSplit_of_not_mem hmem]
    exact hP.nil

/-- The fields of a parsed frame are cut out of the text between its brackets. -/
theorem all_of_brackets {a b : Java.Unit16} {str : Text} {m : Model}
    (h : receiveAnalyticData (a :: (str ++ [b])) = .ok m) (hstr : P str) : m.All P := by
  obtain ⟨head, f, d, l, t, hhead, hf, hd, hl, ht, rfl⟩ := receiveAnalyticData_brackets.mp h
  have hpart : ∀ {part i}, (split head (ch '*'))[i]? = some part → P part := fun h =>
    hP.of_mem_split (by decide) (hP.of_mem_split (by decide) hstr (List.mem_of_getElem? hhead))
      (List.mem_of_getElem? h)
  exact Model.all_iff.mpr ⟨hpart hf, hpart hd, hpart hl, hpart ht,
    cuttable_firstSplit hP (by decide) hstr, hP.nil, hP.nil, hP.nil, hP.nil⟩

omit hP in
/-- What is parsed behind the filter stands between two brackets. -/
theorem exists_brackets_of_filterData {data t : Text} {m : Model} (h : filterData data = .ok t)
    (hm : receiveAnalyticData t = .ok m) :
    ∃ x str y, data = x ++ ch '[' :: (str ++ ch ']' :: y) ∧ t = ch '[' :: (str ++ [ch ']']) := by
  have hnil : t ≠ [] := by
    rintro rfl
    cases hm
  by_cases hopen : ch '[' ∈ data
  · by_cases hclose : ch ']' ∈ data
    · obtain ⟨x, z, he, hx⟩ := List.eq_append_cons_of_mem hopen
      obtain ⟨u, v, he', hu⟩ := List.eq_append_cons_of_mem hclose
      have hfirst : Java.indexOf data (ch '[') = some x.length :=
        he ▸ Java.indexOf_append_cons hx
      have hlast : Java.indexOf data (ch ']') = some u.length :=
        he' ▸ Java.indexOf_append_cons hu
      simp only [filterData, hfirst, hlast, Java.substring] at h
      split_ifs at h with hlen
      obtain rfl := Except.ok.inj h
      rcases List.append_eq_append_iff.mp (he.symm.trans he') with ⟨w, rfl, hw⟩ | ⟨w, rfl, hw⟩
      · cases w with
        | nil => exact absurd (List.cons.inj hw).1 (by decide)
        | cons c str =>
          obtain ⟨rfl, rfl⟩ := List.cons.inj hw
          refine ⟨x, str, v, he, ?_⟩
          have hcut : data = x ++ (ch '[' :: (str ++ [ch ']'])) ++ v := by simp [he]
          have hlength : (x ++ ch '[' :: str).length + 1 =
              (x ++ (ch '[' :: (str ++ [ch ']']))).length := by
            simp only [List.length_append, List.length_cons, List.length_nil]
            omega
          rw [hcut, hlength, List.take_left, List.drop_left]
      · cases w with
        | nil => exact absurd (List.cons.inj hw).1 (by decide)
        | cons c w =>
          refine absurd (List.drop_eq_nil_of_le ?_) hnil
          simp only [List.length_take, List.length_append, List.length_cons]
          omega
    · simp only [filterData, Java.indexOf_of_not_mem hclose] at h
      split at h <;> simp_all
  · simp only [filterData, Java.indexOf_of_not_mem hopen] at h
    exact absurd (Except.ok.inj h).symm hnil

/-- **The texts of a decoded message** are cut out of a decoded text. -/
theorem all_of_decode {cs : Java.Charset} (hcs : ∀ bs, P (cs.decode bs)) {buf : ByteBuf}
    {m : Model} (h : (decode cs buf).2 = .ok (some m)) : m.All P := by
  unfold decode at h
  split_ifs at h
  · cases h
  · obtain ⟨data, hdata, h⟩ := bind_eq_ok_iff.mp h
    obtain ⟨m', hm, h⟩ := bind_eq_ok_iff.mp h
    obtain rfl := Option.some.inj (Except.ok.inj h)
    obtain ⟨x, str, y, he, rfl⟩ := exists_brackets_of_filterData hdata hm
    have htext : P (x ++ ch '[' :: (str ++ ch ']' :: y)) :=
      he ▸ hP.trim ((hP.cut (by decide)).mpr ⟨hcs _, hP.nil⟩)
    have hinner := ((hP.cut (by decide)).mp htext).2
    exact all_of_brackets hP hm ((hP.cut (by decide)).mp hinner).1

theorem all_of_channelRead {cs : Java.Charset} (hcs : ∀ bs, P (cs.decode bs))
    {unread piece : List UInt8} {slack : Nat} {m : Model}
    (h : (channelRead cs unread piece slack).2 = some m) : m.All P := by
  unfold channelRead at h
  simp only at h
  split_ifs at h
  generalize hd : decode cs (cumulate unread piece slack) = d at h
  obtain ⟨rest, result⟩ := d
  cases result with
  | error e => cases h
  | ok message =>
    obtain rfl : message = some m := h
    exact all_of_decode hP hcs (congrArg Prod.snd hd)

end Watch

/-! ## What the server keeps -/

variable {C : Type}

/-- All texts that the server keeps or has written have the property, but for computed lengths. -/
structure Contents (P : Text → Prop) (s : Server C) : Prop where
  account : ∀ c a, s.account c = some a → P a
  builder : ∀ c m, s.builder c = some m → m.All P
  out : ∀ o ∈ s.out, o.message.Written P

variable {P : Text → Prop} {s : Server C}

theorem contents_empty : Contents P (.empty : Server C) where
  account _ _ h := by cases h
  builder _ _ h := by cases h
  out _ h := by cases h

variable [DecidableEq C]

/-- The handler of an event finds the same texts, and nothing has been written. -/
theorem Contents.meets (hs : Contents P s) (e : Event C) : Contents P (s.meets e) where
  account c a h := hs.account c a (by rwa [meets_account] at h)
  builder c m h := by
    have hbuilder : (s.meets e).builder = s.builder := by cases e <;> rfl
    exact hs.builder c m (by rwa [hbuilder] at h)
  out o h := by
    rw [meets_out] at h
    cases h

variable [Channel C]

section Step

variable (hP : Constants P) (hs : Contents P s)

include hP hs

/-- A close tells the group that the account of its channel is offline. -/
theorem written_of_close {now : Clock} (hnow : P now.text) {ctx : ChannelHandlerContext C}
    (hwf : s.Wellformed) {o : Output C} (ho : o ∈ (stateAfter (close now ctx s)).out) :
    o.message.Written P := by
  by_cases habsent : ∀ a, s.account ctx.channel = some a → s.sessions a = none
  · rw [close_of_absent habsent] at ho
    exact hs.out o ho
  obtain ⟨a, ha, hne⟩ : ∃ a, s.account ctx.channel = some a ∧ s.sessions a ≠ none := by
    simpa using habsent
  obtain ⟨S, hS⟩ := Option.ne_none_iff_exists'.mp hne
  rw [close_of_some ha hS] at ho
  cases h : S.closing (Channel.asShortText ctx.channel) with
  | none =>
    rw [removeSession_of_closing_none hS h] at ho
    exact hs.out o ho
  | some left =>
    obtain ⟨y, S'⟩ := left
    obtain ⟨msg, hmsg, hremove⟩ := removeSession_of_closing_some now (hwf a S hS) hS h
    rw [hremove] at ho
    by_cases hpages : S'.sessions = []
    · rw [if_pos hpages] at ho
      rcases List.mem_append.mp ho with ho | ho
      · exact hs.out o ho
      · obtain rfl := List.mem_singleton.mp ho
        exact written_getOffLineStateMsg hP hnow (hs.account _ a ha) hmsg
    · rw [if_neg hpages] at ho
      exact hs.out o ho

/-- A message is answered, routed with a stamp, or refused. -/
theorem written_of_message (hwf : s.Wellformed) {ctx : ChannelHandlerContext C} {now : Clock}
    {m : Model} (hnow : P now.text) (hm : m.All P) {o : Output C}
    (ho : o ∈ (step s (.message ctx now m)).out) : o.message.Written P := by
  by_cases hLK : m.type = lit "LK"
  · obtain ⟨s₀, -, hout, hlogin⟩ := step_login hwf ctx now hLK
    rcases hlogin.write_of_mem_out ho with hnil | ⟨c, rfl⟩
    · rw [hout] at hnil
      cases hnil
    · exact (hm.answer hP).written
  by_cases hUD : m.type = lit "UD"
  · rw [step_message_UD s ctx now hUD] at ho
    cases ho
  cases ha : s.account ctx.channel with
  | none =>
    rw [(step_message_of_none s ctx now hLK hUD ha).1] at ho
    cases ho
  | some a =>
    have hstamp := hm.stamp hnow (hs.account _ a ha)
    obtain ⟨b, hstep, -⟩ := step_message_of_some s ctx now hLK hUD ha
    rw [hstep] at ho
    rcases mem_route_out ho with hnil | ⟨c, rfl⟩ | ⟨members, rfl, -⟩
    · cases hnil
    · exact hstamp.written
    · exact hstamp.written

/-- An idle channel gets a template with its account, or the copy of its last message. -/
theorem written_of_writerIdle {ctx : ChannelHandlerContext C} {now : Clock} (hnow : P now.text)
    {o : Output C} (ho : o ∈ (stateAfter (handle (.writerIdle ctx now) s)).out) :
    o.message.Written P := by
  have hwrite : ∀ {u : Server C} {c : C} {msg : Model}, u.out = s.out → msg.Written P →
      o ∈ (u.writeAndFlush c msg).out → o.message.Written P := by
    intro u c msg hu hmsg ho
    rw [Server.writeAndFlush_out, hu] at ho
    split_ifs at ho
    · rcases List.mem_append.mp ho with ho | ho
      · exact hs.out o ho
      · obtain rfl := List.mem_singleton.mp ho
        exact hmsg
    · exact hs.out o ho
  cases hserver : Channel.server ctx.channel with
  | socket =>
    rw [handle_writerIdle_socket now hserver] at ho
    split_ifs at ho with haccount
    · cases ha : s.account ctx.channel with
      | none =>
        rw [ha] at haccount
        cases haccount
      | some a =>
        obtain ⟨msg, hmsg⟩ : ∃ msg, generateTemplate now.text a (lit "LK") [] = .ok msg :=
          ⟨_, rfl⟩
        have hbody : P (firstSplit [] (Java.ch ',')) := hP.nil
        simp only [heartbeatToClient, getChannelSessionId, bind_apply, get_apply, pure_apply,
          Server.setHeartbeat_account, ha, hmsg, raising_ok, modify_apply, stateAfter] at ho
        exact hwrite rfl
          (written_generateTemplate hP hnow (hs.account _ a ha) hP.heartbeat hbody hmsg) ho
    · exact hs.out o ho
  | websocket =>
    rw [handle_writerIdle_websocket now hserver] at ho
    split_ifs at ho
    · cases hb : s.builder ctx.channel with
      | none =>
        rw [hb] at ho
        exact hs.out o ho
      | some b =>
        rw [hb] at ho
        exact hwrite rfl ((hs.builder _ b hb).heartbeat hP).written ho
    · exact hs.out o ho

/-- **What an event writes** has the property, if its texts and the kept ones have. -/
theorem written_of_step (hwf : s.Wellformed) {e : Event C} (he : e.All P) {o : Output C}
    (ho : o ∈ (step s e).out) : o.message.Written P := by
  have hwf₀ := hwf.meets e
  have hs₀ := hs.meets e
  cases e with
  | message ctx now m => exact written_of_message hP hs hwf he.1 he.2 ho
  | writerIdle ctx now => exact written_of_writerIdle hP hs₀ he ho
  | readerIdle ctx now =>
    by_cases hreach : ReachesClose s (.readerIdle ctx now)
    · have hout : o ∈ (stateAfter (close now ctx { s with out := [] })).out := by
        rw [step, handle_readerIdle_of_expired (s := { s with out := [] }) hreach] at ho
        cases hclose : close now ctx { s with out := [] } with
        | ok _ t =>
          rw [hclose] at ho
          exact ho
        | error _ t =>
          rw [hclose] at ho
          exact ho
      exact written_of_close hP hs₀ he hwf₀ hout
    · rw [step, handle_readerIdle_of_not_expired (s := { s with out := [] }) hreach] at ho
      cases ho
  | disconnect c => cases ho
  | channelInactive ctx now =>
    rw [step_channelInactive] at ho
    split_ifs at ho
    · exact written_of_close hP hs₀ he hwf₀ ho
    · exact hs₀.out o ho

omit [Channel C] in
theorem WriterIdle.all_of_builder {t : Server C} {c d : C} {now : Int} {m : Model}
    (hidle : WriterIdle s c now t) (h : t.builder d = some m) : m.All P := by
  cases hidle with
  | silent | template => exact hs.builder d m h
  | copy b hb =>
    have h : Function.update s.builder c _ d = some m := h
    rcases HashMap.update_some_iff.mp h with ⟨-, rfl⟩ | ⟨-, hold⟩
    · exact (hs.builder c b hb).heartbeat hP
    · exact hs.builder d m hold

/-- The copies that the handlers keep. -/
theorem all_of_builder (hwf : s.Wellformed) {e : Event C} (he : e.All P) {c : C} {m : Model}
    (h : (step s e).builder c = some m) : m.All P := by
  cases e with
  | message ctx now m' =>
    have hbuilder : (step s (.message ctx now m')).builder =
        (s.remember ctx.channel m').builder := by
      by_cases hLK : m'.type = lit "LK"
      · exact (step_linkKeep_notes hwf ctx now hLK).2
      · exact (step_message_notes ctx now hLK).2
    rw [hbuilder, Server.remember] at h
    split at h
    · exact hs.builder c m h
    · rcases HashMap.update_some_iff.mp h with ⟨-, rfl⟩ | ⟨-, hold⟩
      · exact he.2
      · exact hs.builder c m hold
  | writerIdle ctx now =>
    have hidle := handle_writerIdle { s with out := [] } ctx now
    exact hidle.all_of_builder hP (hs.meets (.writerIdle ctx now)) h
  | readerIdle ctx now =>
    rcases step_readerIdle_notes hwf ctx now with ⟨-, -, hnotes⟩ | hnotes
    · rw [hnotes.2] at h
      exact hs.builder c m h
    · rw [hnotes.2] at h
      exact hs.builder c m h
  | disconnect d => exact hs.builder c m h
  | channelInactive ctx now =>
    rw [(step_channelInactive_notes hwf ctx now).2] at h
    exact hs.builder c m h

/-- **Every event keeps the property.** -/
theorem contents_step (hwf : s.Wellformed) {e : Event C} (he : e.All P) :
    Contents P (step s e) where
  account c a h := by
    by_cases hLK : e.IsLinkKeep
    · obtain ⟨ctx, now, m, s₀, rfl, -, hs₀, -, hlogin⟩ := hLK.exists_login hwf
      rw [hlogin.account, hs₀.account] at h
      rcases HashMap.update_some_iff.mp h with ⟨rfl, rfl⟩ | ⟨-, hold⟩
      · exact (Model.all_iff.mp he.2).2.1
      · exact hs.account c a hold
    · rw [account_of_step hwf hLK] at h
      exact hs.account c a h
  builder c m h := all_of_builder hP hs hwf he h
  out o ho := written_of_step hP hs hwf he ho

end Step

/-! ## Runs -/

/-- Texts with the property lead to texts with the property, whatever happens. -/
theorem contents_of_events (hP : Constants P) {es : List (Event C)} (h : ∀ e ∈ es, e.All P) :
    Contents P ((server C).exec .empty es) := by
  refine past_of_step (R := fun es s => (∀ e ∈ es, e.All P) → Contents P s)
    (fun _ => contents_empty) ?_ es h
  intro es s e hwf ih h
  refine contents_step hP (ih fun e he => h e (List.mem_append_left _ he)) hwf ?_
  exact h e (List.mem_append_right _ (List.mem_singleton_self e))

/-- A text occurs in an event. -/
def Event.Mentions (t : Text) (e : Event C) : Prop := ¬ e.All (· ≠ t)

/-- A text is a constant of the code, or occurs in one of the events. -/
def Stems (es : List (Event C)) (t : Text) : Prop :=
  t ∈ [[], lit "3G", lit "LK", lit "OFFLINE"] ∨ ∃ e ∈ es, e.Mentions t

omit [DecidableEq C] [Channel C] in
theorem constants_stems (es : List (Event C)) : Constants (Stems es) where
  nil := .inl (by decide)
  factory := .inl (by decide)
  heartbeat := .inl (by decide)
  offline := .inl (by decide)

omit [DecidableEq C] [Channel C] in
/-- The texts of an event occur in it. -/
theorem all_stems {es : List (Event C)} {e : Event C} (he : e ∈ es) : e.All (Stems es) := by
  have hmentions : ∀ {t : Text}, e.Mentions t → Stems es t := fun h => .inr ⟨e, he, h⟩
  cases e with
  | message ctx now m =>
    constructor
    · apply hmentions
      intro hall
      exact hall.1 rfl
    · intro n hn
      apply hmentions
      intro hall
      exact hall.2 n hn rfl
  | writerIdle ctx now | readerIdle ctx now | channelInactive ctx now =>
    apply hmentions
    intro hall
    exact hall rfl
  | disconnect c => trivial

/-- **The server makes up no text**: each field that it writes for an event is a constant or occurs
in this event or one of those before it, or it is the length of a template. -/
theorem stems_of_write (es : List (Event C)) (e : Event C) {o : Output C}
    (ho : o ∈ (step ((server C).exec .empty es) e).out) :
    o.message.Written (Stems (es ++ [e])) := by
  have hP := constants_stems (es ++ [e])
  have hs := contents_of_events hP fun e' he' => all_stems (List.mem_append_left [e] he')
  refine written_of_step hP hs (wellformed_exec wellformed_empty es) ?_ ho
  exact all_stems (List.mem_append_right _ (List.mem_singleton_self e))

/-- The notice that an account is offline. -/
def offlineOne : Model where
  factory := lit "3G"
  deviceId := lit "1"
  length := lit "0007"
  type := lit "OFFLINE"

/-- A page logs in and goes. -/
theorem stems_of_write_pageGone :
    offlineOne.Written (Stems ([(Client.page 0).linkKeep (lit "1"), .disconnect (Client.page 0)] ++
      [(Client.page 0).gone])) :=
  stems_of_write [(Client.page 0).linkKeep (lit "1"), .disconnect (Client.page 0)]
    (Client.page 0).gone (o := .broadcast offlineOne []) (.head _)

end NettyTcpWeb
