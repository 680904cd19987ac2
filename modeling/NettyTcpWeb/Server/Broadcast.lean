import NettyTcpWeb.Coder.Stream
import NettyTcpWeb.Library.Protobuf
import NettyTcpWeb.Server.Routing

/-!
# The encoders of a broadcast

A broadcast hands one builder to all members of the group. The encoder of a watch writes the device
and the length into the builder and sends its text; the encoder of a page sends the builder as it
stands, in the wire format. So a page whose encoder runs behind that of a watch may receive another
length than a page in front of it.

## Main definitions

* `toByteArray`: the wire format of a built message, over the string fields of the library
* `GroupMessage`: the builders that the proxy wraps as group messages
* `encodeFor`, `encodeAll`: the encoder of a member, and those of the members in some order
* `OrderIndependent`: each member receives the same in every order

## Main results

* `step_groupMessage`: what the server broadcasts for a message to the group is a group message
* `encode_encode`: a watch receives the same from a builder that another watch has received
* `toByteArray_encode_iff`: when the encoder of a watch leaves the wire format as it is
* `orderIndependent_iff`: the groups and messages for which the order does not matter
-/

namespace NettyTcpWeb

open Java (Text Exception Charset latin1 ch lit isNotBlank isNotEmpty)

/-! ## The wire format -/

/-- What the generated code relies on: a string field has bytes, and a text of hexadecimal digits
shares its bytes with no other text. -/
structure WritesStrings (writeString : Nat → Text → List UInt8) : Prop where
  ne_nil : ∀ n s, writeString n s ≠ []
  eq_of_hexDigits : ∀ n s t, (∀ c ∈ s, IsHexDigit c) → writeString n t = writeString n s → t = s

theorem writesStrings_stringField : WritesStrings Protobuf.stringField where
  ne_nil := Protobuf.stringField_ne_nil
  eq_of_hexDigits n s t hs h := by
    refine Protobuf.eq_of_stringField_eq (fun c hc => ⟨?_, ?_⟩) h
    · rcases hs c hc with hdigit | hdigit
      · exact UInt16.lt_of_le_of_lt hdigit.2 (by decide)
      · exact UInt16.lt_of_le_of_lt hdigit.2 (by decide)
    · exact (hs c hc).ne_of_not (by decide)

section Wire

variable (writeString : Nat → Text → List UInt8)

/-- A string field of `writeTo`: an empty string is not written. -/
def writeField (n : Nat) (s : Text) : List UInt8 := if s = [] then [] else writeString n s

/-- `m.build().toByteArray()`: the fields in the order of their numbers. -/
def toByteArray (m : Model) : List UInt8 :=
  writeField writeString 1 m.factory ++ writeField writeString 2 m.deviceId ++
    writeField writeString 3 m.length ++ writeField writeString 4 m.type ++
    writeField writeString 5 m.body ++ writeField writeString 6 m.timeStamp ++
    writeField writeString 7 m.sender ++ writeField writeString 8 m.receiver ++
    writeField writeString 9 m.groupId

variable {writeString}

/-- A length field can be read from the bytes of its string field. -/
theorem writeField_eq_iff (hw : WritesStrings writeString) {n : Nat} {s t : Text} (hne : s ≠ [])
    (hs : ∀ c ∈ s, IsHexDigit c) : writeField writeString n s = writeField writeString n t ↔
      t = s := by
  refine ⟨fun h => ?_, fun h => h ▸ rfl⟩
  rw [writeField, if_neg hne, writeField] at h
  split_ifs at h
  · exact absurd h (hw.ne_nil n s)
  · exact hw.eq_of_hexDigits n s t hs h.symm

/-- A message with another length has the same bytes exactly if its length has. -/
theorem toByteArray_length_iff (m : Model) (length : Text) :
    toByteArray writeString { m with length := length } = toByteArray writeString m ↔
      writeField writeString 3 length = writeField writeString 3 m.length := by
  simp [toByteArray]

end Wire

/-! ## Group messages -/

/-- A builder that the proxy wraps as a group message. -/
def GroupMessage (m : Model) : Prop := ∃ now sessionId message w,
  convertToMessageWrapper now sessionId message = .ok w ∧ w.isGroup = true ∧ w.body = some m

theorem GroupMessage.receiver_eq {m : Model} (h : GroupMessage m) : m.receiver = [] := by
  obtain ⟨now, sessionId, message, w, hw, hgroup, hbody⟩ := h
  obtain ⟨sender, rfl, he⟩ := body_of_convertToMessageWrapper hw (.inr (.inr hgroup))
  obtain rfl : m = { message with timeStamp := now, sender := sender } :=
    Option.some.inj (hbody.symm.trans he)
  by_contra hne
  have hreceiver : isNotEmpty (some message.receiver) = true := isNotEmpty_of_ne_nil hne
  unfold convertToMessageWrapper at hw
  simp only [nonNull, bind, Except.bind, pure, Except.pure, hreceiver, if_true] at hw
  split_ifs at hw <;> cases hw <;> cases hgroup

/-- **What the server broadcasts for a message to the group** is one group message, to all members
at once. -/
theorem step_groupMessage {C : Type} [DecidableEq C] [Channel C] (s : Server C)
    (ctx : ChannelHandlerContext C) (now : Clock) {m : Model} {a : Text}
    (hLK : m.type ≠ lit "LK") (hUD : m.type ≠ lit "UD") (hreceiver : m.receiver = [])
    (hgroup : m.groupId ≠ []) (ha : s.account ctx.channel = some a) :
    let msg := { m with timeStamp := now.text, sender := a }
    GroupMessage msg ∧ (step s (.message ctx now m)).out = [.broadcast msg s.group] := by
  intro msg
  have hreceiver' : ¬isNotEmpty (some m.receiver) = true := by simp [isNotEmpty, hreceiver]
  have hgroup' := isNotEmpty_of_ne_nil hgroup
  constructor
  · have hwrap : convertToMessageWrapper now.text (some a) m =
        .ok { protocol := .GROUP, sessionId := m.deviceId, reSessionId := none, body := msg } := by
      rw [convertToMessageWrapper, if_neg hLK, if_neg hUD]
      simp only [nonNull, bind, Except.bind, pure, Except.pure]
      rw [if_neg hreceiver', if_pos hgroup']
    exact ⟨now.text, some a, m, _, hwrap, rfl, rfl⟩
  · obtain ⟨b, hstep, -⟩ := step_message_of_some s ctx now hLK hUD ha
    rw [hstep, Server.route, if_neg hreceiver', if_pos hgroup']
    rfl

/-- A message without a receiver is printed for its own device. -/
theorem target_of_receiver {m : Model} (h : m.receiver = []) : target m = m.deviceId := by
  rw [target, h]
  rfl

/-- The builder behind the encoder of a watch. -/
theorem encode_snd {m : Model} (h : m.receiver = []) : (encode m).2 =
    if isNotBlank (some m.deviceId) = true then
      { m with length := intToHex (Int32.ofNat m.type.length) }
    else m := by
  rw [encode, target_of_receiver h, sendWatchData]
  cases isNotBlank (some m.deviceId) <;> rfl

/-- The printer overwrites the length before it reads it. -/
theorem sendWatchData_length {m : Model} (h : isNotBlank (some m.deviceId) = true)
    (length : Text) : sendWatchData { m with length := length } = sendWatchData m := by
  have hne : ¬isNotBlank (some m.deviceId) = false := by simp [h]
  exact (if_neg hne).trans (if_neg hne).symm

/-- **A second watch receives what the first one received**, and leaves the builder as it is. -/
theorem encode_encode {m : Model} (h : m.receiver = []) : encode (encode m).2 = encode m := by
  have hreceiver : (encode m).2.receiver = [] := by
    rw [encode_snd h]
    split_ifs <;> exact h
  rw [encode, target_of_receiver hreceiver, encode_snd h]
  split_ifs with hdevice
  · rw [encode, target_of_receiver h]
    exact sendWatchData_length hdevice _
  · rw [encode, target_of_receiver h]

/-- **When the encoder of a watch leaves the wire format as it is**: for a message that is not
printed, and for one with the length that the printer writes. -/
theorem toByteArray_encode_iff {writeString : Nat → Text → List UInt8}
    (hw : WritesStrings writeString) {m : Model} (h : m.receiver = []) :
    toByteArray writeString (encode m).2 = toByteArray writeString m ↔
      isNotBlank (some m.deviceId) = false ∨
        m.length = intToHex (Int32.ofNat m.type.length) := by
  rw [encode_snd h]
  split_ifs with hdevice
  · rw [toByteArray_length_iff, writeField_eq_iff hw (intToHex_ne_nil _)
      fun c hc => isHexDigit_of_mem_intToHex hc]
    simp [hdevice]
  · simp [hdevice]

/-! ## The encoders of the members -/

section Members

variable {C : Type} [Channel C] (cs : Charset) (writeString : Nat → Text → List UInt8)

/-- The encoder of a member: the bytes the member receives, and the builder behind it. -/
def encodeFor (m : Model) (c : C) : List UInt8 × Model :=
  match Channel.server c with
  | .socket => (cs.encode (encode m).1, (encode m).2)
  | .websocket => (toByteArray writeString m, m)

/-- The encoders of the members in the given order, each on the builder the one in front of it has
left: what each member receives. -/
def encodeAll : Model → List C → List (C × List UInt8)
  | _, [] => []
  | m, c :: order =>
    (c, (encodeFor cs writeString m c).1) :: encodeAll (encodeFor cs writeString m c).2 order

/-- In any two orders of the members each of them receives the same. -/
def OrderIndependent (m : Model) (members : List C) : Prop :=
  ∀ order order' : List C, order.Perm members → order'.Perm members →
    ∀ c content, (c, content) ∈ encodeAll cs writeString m order ↔
      (c, content) ∈ encodeAll cs writeString m order'

variable {cs writeString}

theorem encodeFor_of_socket {c : C} (h : Channel.server c = .socket) (m : Model) :
    encodeFor cs writeString m c = (cs.encode (encode m).1, (encode m).2) := by
  rw [encodeFor, h]

theorem encodeFor_of_websocket {c : C} (h : Channel.server c = .websocket) (m : Model) :
    encodeFor cs writeString m c = (toByteArray writeString m, m) := by
  rw [encodeFor, h]

/-- Pages alone all receive the builder as it came. -/
theorem encodeAll_of_websocket {order : List C}
    (h : ∀ c ∈ order, Channel.server c = .websocket) (m : Model) :
    encodeAll cs writeString m order =
      order.map fun c => (c, (encodeFor cs writeString m c).1) := by
  induction order with
  | nil => rfl
  | cons c order ih =>
    rw [encodeAll, encodeFor_of_websocket (h c List.mem_cons_self), List.map_cons,
      encodeFor_of_websocket (h c List.mem_cons_self),
      ih fun d hd => h d (List.mem_cons_of_mem _ hd)]

/-- If each member receives the same from the builder behind the encoder of a watch, then what a
member receives does not depend on its place. -/
theorem encodeAll_of_eq {order : List C} {m : Model} (hm : m.receiver = [])
    (h : ∀ c ∈ order, Channel.server c = .websocket →
      toByteArray writeString (encode m).2 = toByteArray writeString m) :
    (encodeAll cs writeString m order =
        order.map fun c => (c, (encodeFor cs writeString m c).1)) ∧
      encodeAll cs writeString (encode m).2 order =
        order.map fun c => (c, (encodeFor cs writeString m c).1) := by
  induction order with
  | nil => exact ⟨rfl, rfl⟩
  | cons c order ih =>
    obtain ⟨ih, ih'⟩ := ih fun d hd => h d (List.mem_cons_of_mem _ hd)
    rw [encodeAll, encodeAll, List.map_cons]
    by_cases hc : Channel.server c = .socket
    · rw [encodeFor_of_socket hc, encodeFor_of_socket hc, encode_encode hm, ih']
      exact ⟨rfl, rfl⟩
    · have hweb := Source.eq_websocket hc
      rw [encodeFor_of_websocket hweb, encodeFor_of_websocket hweb, ih, ih',
        h c List.mem_cons_self hweb]
      exact ⟨rfl, rfl⟩

/-- Behind the encoder of a watch every page receives the builder that it left. -/
theorem content_behind_watch {m : Model} (hm : m.receiver = []) {order : List C} {c : C}
    {content : List UInt8} (hc : Channel.server c = .websocket)
    (h : (c, content) ∈ encodeAll cs writeString (encode m).2 order) :
    content = toByteArray writeString (encode m).2 := by
  induction order with
  | nil => cases h
  | cons d order ih =>
    rw [encodeAll] at h
    by_cases hd : Channel.server d = .socket
    · rw [encodeFor_of_socket hd, encode_encode hm] at h
      rcases List.mem_cons.mp h with he | h
      · obtain rfl : c = d := congrArg Prod.fst he
        exact absurd (hc.symm.trans hd) (by decide)
      · exact ih h
    · rw [encodeFor_of_websocket (Source.eq_websocket hd)] at h
      rcases List.mem_cons.mp h with he | h
      · exact congrArg Prod.snd he
      · exact ih h

/-- A map over the members gives each of them the same in every order. -/
theorem orderIndependent_of_map {m : Model} {members : List C} {f : C → List UInt8}
    (h : ∀ order : List C, order.Perm members →
      encodeAll cs writeString m order = order.map fun c => (c, f c)) :
    OrderIndependent cs writeString m members := by
  intro order order' hperm hperm' c content
  rw [h order hperm, h order' hperm']
  exact ((hperm.trans hperm'.symm).map _).mem_iff

/-- A watch in front of a page: in a group with both, the page receives the same in every order only
if the encoder of the watch leaves the wire format as it is. -/
theorem toByteArray_of_orderIndependent {m : Model} (hm : m.receiver = []) {members : List C}
    {watch page : C} (hwatch : watch ∈ members) (hsocket : Channel.server watch = .socket)
    (hpage : page ∈ members) (hweb : Channel.server page = .websocket)
    (h : OrderIndependent cs writeString m members) :
    toByteArray writeString (encode m).2 = toByteArray writeString m := by
  obtain ⟨front, back, rfl⟩ := List.append_of_mem hwatch
  obtain ⟨front', back', he⟩ := List.append_of_mem hpage
  have hfirst : (page, toByteArray writeString m) ∈
      encodeAll cs writeString m (page :: (front' ++ back')) := by
    rw [encodeAll, encodeFor_of_websocket hweb]
    exact List.mem_cons_self
  have hperm : (page :: (front' ++ back')).Perm (front ++ watch :: back) :=
    he ▸ List.perm_middle.symm
  have hsecond := (h _ _ hperm List.perm_middle.symm page _).mp hfirst
  rw [encodeAll, encodeFor_of_socket hsocket] at hsecond
  rcases List.mem_cons.mp hsecond with he | hsecond
  · obtain rfl : page = watch := congrArg Prod.fst he
    exact absurd (hweb.symm.trans hsocket) (by decide)
  · exact (content_behind_watch hm hweb hsecond).symm

/-- **When the order of a broadcast does not matter**: in a group of pages or of watches alone, for
a message whose device id is blank, and for one with the length that the printer writes. -/
theorem orderIndependent_iff (hw : WritesStrings writeString) {m : Model} (hm : GroupMessage m)
    (members : List C) : OrderIndependent cs writeString m members ↔
      (∀ c ∈ members, Channel.server c = .websocket) ∨
      (∀ c ∈ members, Channel.server c = .socket) ∨
      isNotBlank (some m.deviceId) = false ∨ m.length = intToHex (Int32.ofNat m.type.length) := by
  rw [← toByteArray_encode_iff hw hm.receiver_eq]
  constructor
  · intro h
    by_cases hweb : ∀ c ∈ members, Channel.server c = .websocket
    · exact .inl hweb
    · by_cases hsocket : ∀ c ∈ members, Channel.server c = .socket
      · exact .inr (.inl hsocket)
      · push Not at hweb hsocket
        obtain ⟨watch, hwatch, hne⟩ := hweb
        obtain ⟨page, hpage, hne'⟩ := hsocket
        have hwatch' : Channel.server watch = .socket := by
          by_contra hc
          exact hne (Source.eq_websocket hc)
        exact .inr (.inr (toByteArray_of_orderIndependent hm.receiver_eq hwatch hwatch' hpage
          (Source.eq_websocket hne') h))
  · rintro (h | h | h)
    · exact orderIndependent_of_map fun order hperm =>
        encodeAll_of_websocket (fun c hc => h c (hperm.mem_iff.mp hc)) m
    · refine orderIndependent_of_map fun order hperm =>
        (encodeAll_of_eq hm.receiver_eq fun c hc hweb => ?_).1
      exact absurd (hweb.symm.trans (h c (hperm.mem_iff.mp hc))) (by decide)
    · exact orderIndependent_of_map fun order _ =>
        (encodeAll_of_eq hm.receiver_eq fun _ _ _ => h).1

end Members

/-- A group message of a page, as the proxy wraps it. -/
def groupMessage : Model :=
  { deviceId := lit "1", type := lit "TK", sender := lit "1", groupId := lit "g" }

theorem groupMessage_groupMessage : GroupMessage groupMessage :=
  ⟨[], some (lit "1"), { groupMessage with sender := [] }, _, rfl, rfl, rfl⟩

/-- **A watch in front of a page changes what the page receives**: the message came without a
length, and behind the watch the page receives the length two. -/
theorem order_of_groupMessage : GroupMessage groupMessage ∧
    ¬OrderIndependent latin1 Protobuf.stringField groupMessage
      [Client.watch 0, Client.page 0] := by
  refine ⟨groupMessage_groupMessage, fun h => ?_⟩
  have hmem := h [Client.page 0, Client.watch 0] [Client.watch 0, Client.page 0] (.swap _ _ _)
    (.refl _) (Client.page 0) (toByteArray Protobuf.stringField groupMessage)
  exact absurd (hmem.mp (by decide)) (by decide)

theorem orderIndependent_iff_groupMessage :
    OrderIndependent latin1 Protobuf.stringField groupMessage [Client.watch 0, Client.page 0] ↔
      (∀ c ∈ [Client.watch 0, Client.page 0], Channel.server c = .websocket) ∨
      (∀ c ∈ [Client.watch 0, Client.page 0], Channel.server c = .socket) ∨
      isNotBlank (some groupMessage.deviceId) = false ∨
      groupMessage.length = intToHex (Int32.ofNat groupMessage.type.length) :=
  orderIndependent_iff writesStrings_stringField groupMessage_groupMessage _

end NettyTcpWeb
