import NettyTcpWeb.Wire.Network

/-!
# From page to page

A page sends a message in one binary frame, and the server hands it on to the channels of its
receiver, with the account of the page as sender. So what a page writes is read by the pages of the
receiver, or printed as a frame for its watch. A message that arrives in several frames is taken for
its first one: it is refused, or it has lost its receiver. A frame over the limit of Netty ends the
connection, whatever it has.

## Main definitions

* `Model.stamp`: a message with the time and the sender that the server sets
* `Sends`: a channel sends a message to a session

## Main results

* `received_serializeBinary`: **what the server hears of a frame of a page**
* `handed_of_message`: the channels to which a message with a receiver is handed
* `page_to_pages`: **the pages of the receiver read what a page has written**
* `page_to_watch`: **the watch of the receiver gets the frame of what a page has written**
* `watch_to_pages`: **the pages of the receiver read what a watch has sent**
* `fragments_iff`: **what the server hears of a message in several frames**
* `receiver_of_fragment`: it never has the receiver
-/

namespace NettyTcpWeb

open Java (Text Charset ch lit latin1 isNotEmpty)
open Protobuf
open messagebody (serializeBinary deserializeBinary send)

/-- The message with the time of its event and the account of its channel. -/
def Model.stamp (now a : Text) (m : Model) : Model := { m with timeStamp := now, sender := a }

variable {C U : Type} [DecidableEq C] [Channel C] {cs : Charset} {R : Runtime U}

/-! ## Frames -/

theorem message_binary_iff {final : Bool} {content : List UInt8} {m : Model} :
    (WebSocketFrame.binary final content).message R = some m ↔
      ∃ u, WatchMessageBodyProto.parseFrom R content = .ok ⟨m, u⟩ := by
  rw [WebSocketFrame.message]
  cases WatchMessageBodyProto.parseFrom R content with
  | error e => simp
  | ok x =>
    obtain ⟨m', u⟩ := x
    simp

/-- What the decoders make of a frame of a page. -/
theorem message_serializeBinary_iff (hR : R.Lawful) {m m' : Model}
    (hs : IsArray (serializeBinary m)) (final : Bool) :
    (WebSocketFrame.binary final (serializeBinary m)).message R = some m' ↔
      (∀ k ∈ Model.numbers, WellFormed (Jspb.dropUnpaired (m.get k))) ∧
        m' = m.map Jspb.dropUnpaired := by
  rw [message_binary_iff]
  constructor
  · rintro ⟨u, hu⟩
    obtain ⟨hwell, he⟩ := (messagebody.parseFrom_serializeBinary_iff hR hs).mp hu
    exact ⟨hwell, congrArg WatchMessageBodyProto.model he⟩
  · rintro ⟨hwell, rfl⟩
    exact ⟨_, (messagebody.parseFrom_serializeBinary_iff hR hs).mpr ⟨hwell, rfl⟩⟩

omit [DecidableEq C] [Channel C] in
/-- **What the server hears of a frame of a page** in which a message has been written: the end of
the connection if the frame is too long, the message without the characters that the page drops if
its texts are well formed then, and nothing otherwise. -/
theorem received_serializeBinary (hR : R.Lawful) {m : Model} (hs : IsArray (serializeBinary m))
    (n : Network C) (ctx : ChannelHandlerContext C) (now : Clock) (final : Bool) (size : Nat) :
    n.received cs R (.frame ctx now (.binary final (serializeBinary m)) size) =
      if maxFrameLength < size then some (.disconnect ctx.channel)
      else if ∀ k ∈ Model.numbers, WellFormed (Jspb.dropUnpaired (m.get k)) then
        some (.message ctx now (m.map Jspb.dropUnpaired))
      else none := by
  rw [Network.received]
  split_ifs with hsize hwell
  · rfl
  · rw [(message_serializeBinary_iff hR hs final).mpr ⟨hwell, rfl⟩]
    rfl
  · rw [Option.map_eq_none_iff, Option.eq_none_iff_forall_ne_some]
    exact fun m' hm' => hwell ((message_serializeBinary_iff hR hs final).mp hm').1

/-- A text between two halves of an emoji, of which the second one is left. -/
theorem received_serializeBinary_halves :
    (Network.empty : Network Client).received latin1 Raw.runtime
        (.frame (Client.page 0).ctx ⟨0, []⟩ (.binary true (serializeBinary messagebody.halves))
          (serializeBinary messagebody.halves).length) =
      if maxFrameLength < (serializeBinary messagebody.halves).length then
        some (.disconnect (Client.page 0))
      else if ∀ k ∈ Model.numbers,
          WellFormed (Jspb.dropUnpaired (messagebody.halves.get k)) then
        some (.message (Client.page 0).ctx ⟨0, []⟩ (messagebody.halves.map Jspb.dropUnpaired))
      else none :=
  received_serializeBinary Raw.runtime_lawful (by decide) _ _ _ _ _

/-! ## Handing on -/

/-- A channel that is logged in sends a message to a session: that of the receiver, if the device it
names is logged in, or else that of the device. -/
structure Sends (s : Server C) (ctx : ChannelHandlerContext C) (m : Model) (a : Text)
    (S : Session C) : Prop where
  not_linkKeep : m.type ≠ lit "LK"
  not_report : m.type ≠ lit "UD"
  account : s.account ctx.channel = some a
  device : m.receiver ≠ [] → s.sessions m.deviceId ≠ none
  not_group : m.receiver = [] → m.groupId = []
  session : s.sessions (target m) = some S

variable {n n' : Network C} {i : Input C} {ctx : ChannelHandlerContext C}
  {now : Clock} {m : Model} {a : Text} {S : Session C}

/-- **A message to a session** is written to its open channels. -/
theorem Sends.out {s : Server C} (h : Sends s ctx m a S) : (step s (.message ctx now m)).out =
    (S.channels.filter (s.channel · = .opened)).map (.write · (m.stamp now.text a)) := by
  obtain ⟨b, hstep, -⟩ := step_message_of_some s ctx now h.not_linkKeep h.not_report h.account
  have hsession := h.session
  rw [hstep, Server.route]
  by_cases hreceiver : m.receiver = []
  · have htarget : target m = m.deviceId := target_of_receiver hreceiver
    rw [htarget] at hsession
    have hempty : ¬isNotEmpty (some m.receiver) = true := by simp [isNotEmpty, hreceiver]
    have hempty' : ¬isNotEmpty (some m.groupId) = true := by
      simp [isNotEmpty, h.not_group hreceiver]
    simp only [if_neg hempty, if_neg hempty', Server.push, hsession]
    rfl
  · obtain ⟨D, hD⟩ := Option.ne_none_iff_exists'.mp (h.device hreceiver)
    have hnotEmpty := isNotEmpty_of_ne_nil hreceiver
    have htarget : target m = m.receiver := if_pos hnotEmpty
    rw [htarget] at hsession
    simp only [if_pos hnotEmpty, hD, Server.push, hsession]
    rfl

theorem handed_of_message (hi : n.received cs R i.arrival = some (.message ctx now m))
    (h : Sends n.server ctx m a S) : (n.next cs R i).handed = n.handed ++
      (S.channels.filter (n.server.channel · = .opened)).map (·, m.stamp now.text a) := by
  rw [Network.next, hi]
  show n.handed ++ List.flatMap _ (step n.server (.message ctx now m)).out = _
  rw [h.out, List.flatMap_map]
  exact congrArg _ List.map_eq_flatMap.symm

omit [Channel C] in
theorem handedTo_map (channels : List C) (m : Model) (c : C) :
    handedTo c (channels.map (·, m)) = List.replicate (channels.count c) m := by
  rw [handedTo, List.filter_map, List.map_map]
  refine List.eq_replicate_iff.mpr ⟨?_, ?_⟩
  · rw [List.length_map, List.count, List.countP_eq_length_filter]
    exact congrArg List.length (List.filter_congr fun _ _ => (beq_eq_decide _ _).symm)
  · intro m' hm'
    obtain ⟨c, -, rfl⟩ := List.mem_map.mp hm'
    rfl

/-- The bytes that are sent for a message that is handed to channels. -/
theorem sent_of_handed {channels : List C} (h : n'.handed = n.handed ++ channels.map (·, m)) {c : C}
    (hs : IsArray (encodeFor cs R.writeString m c).1) : n'.sent cs R c = n.sent cs R c ++
      List.replicate (channels.count c) (encodeFor cs R.writeString m c).1 := by
  rw [sent_eq, sent_eq, h, handedTo_append, List.map_append, List.filter_append, handedTo_map,
    List.map_replicate, List.filter_replicate, if_pos (decide_eq_true hs)]

section Read

variable (hi : n.received cs R i.arrival = some (.message ctx now m)) (h : Sends n.server ctx m a S)

include hi h

/-- The pages of a session read a message to it, each as often as the session reaches it, and no
other page reads anything. -/
theorem pages_read_message (hR : R.Lawful) (hm : m.All WellFormed) (hnow : WellFormed now.text)
    (ha : WellFormed a) (hs : IsArray (toByteArray R.writeString (m.stamp now.text a))) {page : C}
    (hpage : Channel.server page = .websocket) :
    ((n.next cs R i).sent cs R page).map (deserializeBinary 10) =
      (n.sent cs R page).map (deserializeBinary 10) ++
        List.replicate ((S.channels.filter (n.server.channel · = .opened)).count page)
          (some (.ok (m.stamp now.text a))) := by
  have hbytes : (encodeFor cs R.writeString (m.stamp now.text a) page).1 =
      toByteArray R.writeString (m.stamp now.text a) := by
    rw [encodeFor_of_websocket hpage]
  have hall : Model.All WellFormed (m.stamp now.text a) := hm.stamp hnow ha
  rw [sent_of_handed (handed_of_message hi h) (hbytes ▸ hs), List.map_append, List.map_replicate,
    hbytes, messagebody.deserializeBinary_of_readByPages (readByPages_writeString hR) hs,
    Model.map_replaceUnpaired_eq_iff.mpr hall]

/-- A watch of a session gets the frame of a message to it. -/
theorem watch_gets_message (hsend : Sendable (m.stamp now.text a))
    (hs : IsArray (cs.encode (Printable.frame hsend).text)) {watch : C}
    (hwatch : Channel.server watch = .socket) :
    (n.next cs R i).sent cs R watch = n.sent cs R watch ++
      List.replicate ((S.channels.filter (n.server.channel · = .opened)).count watch)
        (cs.encode (Printable.frame hsend).text) := by
  have hbytes : (encodeFor cs R.writeString (m.stamp now.text a) watch).1 =
      cs.encode (Printable.frame hsend).text := by
    rw [encodeFor_of_socket hwatch, encode_frame hsend]
  rw [sent_of_handed (handed_of_message hi h) (hbytes ▸ hs), hbytes]

end Read

/-- Two pages and a watch have logged in. -/
def office : Network Client where
  server := (server Client).exec .empty [(Client.page 0).linkKeep (lit "1"),
    (Client.page 1).linkKeep (lit "2"), (Client.watch 0).linkKeep (lit "9")]
  unread _ := []
  handed := []

/-- The session of a client that has logged in. -/
def Client.session (c : Client) (nid account platform : Text) : Session Client where
  session := c
  nid := nid
  source := Channel.server c
  deviceId := account
  account := account
  platform := platform
  platformVersion := lit "1.0"
  appKey := lit "10.0.0.1:80"
  bindTime := 0
  updateTime := 0
  sessions := []

/-- The sessions of the second page and of the watch. -/
def pageTwo : Session Client := (Client.page 1).session (lit "p0") (lit "2") (lit "websocket")
def watchNine : Session Client := (Client.watch 0).session (lit "w") (lit "9") (lit "watch")

/-- A greeting of the first page, as the form sends it. -/
def greeting (receiver : Text) : Model := send (lit "TK") (lit "1") receiver (lit "hi")

theorem sends_pageTwo : Sends office.server (Client.page 0).ctx
    ((greeting (lit "2")).map Jspb.dropUnpaired) (lit "1") pageTwo where
  not_linkKeep := by decide
  not_report := by decide
  account := rfl
  device _ := nofun
  not_group _ := rfl
  session := rfl

theorem sends_watchNine : Sends office.server (Client.page 0).ctx
    ((greeting (lit "9")).map Jspb.dropUnpaired) (lit "1") watchNine where
  not_linkKeep := by decide
  not_report := by decide
  account := rfl
  device _ := nofun
  not_group _ := rfl
  session := rfl

/-! ## From page to page and to watch -/

section Page

variable (hR : R.Lawful) {final : Bool} {size : Nat} {x : Model} (hx : IsArray (serializeBinary x))
  (hsize : size ≤ maxFrameLength)
  (hwell : ∀ k ∈ Model.numbers, WellFormed (Jspb.dropUnpaired (x.get k)))
  (hi : i.arrival = .frame ctx now (.binary final (serializeBinary x)) size)

include hR hx hsize hwell hi

omit [DecidableEq C] [Channel C] in
theorem received_of_page :
    n.received cs R i.arrival = some (.message ctx now (x.map Jspb.dropUnpaired)) := by
  rw [hi, received_serializeBinary hR hx, if_neg (Nat.not_lt.mpr hsize), if_pos hwell]

variable (h : Sends n.server ctx (x.map Jspb.dropUnpaired) a S)

include h

/-- **The pages of a session read what a page has written to it.** -/
theorem page_to_pages (hnow : WellFormed now.text) (ha : WellFormed a)
    (hs : IsArray (toByteArray R.writeString ((x.map Jspb.dropUnpaired).stamp now.text a)))
    {page : C} (hpage : Channel.server page = .websocket) :
    ((n.next cs R i).sent cs R page).map (deserializeBinary 10) =
      (n.sent cs R page).map (deserializeBinary 10) ++
        List.replicate ((S.channels.filter (n.server.channel · = .opened)).count page)
          (some (.ok ((x.map Jspb.dropUnpaired).stamp now.text a))) := by
  have hall : Model.All WellFormed (x.map Jspb.dropUnpaired) := by
    intro k hk
    rw [Model.get_map _ hk]
    exact hwell k hk
  exact pages_read_message (received_of_page hR hx hsize hwell hi) h hR hall hnow ha hs hpage

/-- **The watch of a session gets the frame of what a page has written to it**, from which the
parser of the protocol reads the device, the type and the body. -/
theorem page_to_watch (hsend : Sendable ((x.map Jspb.dropUnpaired).stamp now.text a))
    (hs : IsArray (cs.encode (Printable.frame hsend).text)) {watch : C}
    (hwatch : Channel.server watch = .socket) :
    (n.next cs R i).sent cs R watch = n.sent cs R watch ++
        List.replicate ((S.channels.filter (n.server.channel · = .opened)).count watch)
          (cs.encode (Printable.frame hsend).text) ∧
      receiveAnalyticData (Printable.frame hsend).text = .ok
        { factory := printedFactory (x.map Jspb.dropUnpaired)
          deviceId := target (x.map Jspb.dropUnpaired)
          length := intToHex (Int32.ofNat (Jspb.dropUnpaired x.type).length)
          type := Jspb.dropUnpaired x.type
          body := printedBody (x.map Jspb.dropUnpaired) } :=
  ⟨watch_gets_message (received_of_page hR hx hsize hwell hi) h hsend hs hwatch,
    Frame.receiveAnalyticData_text _⟩

end Page

theorem page_to_pages_office :
    ((office.next latin1 Raw.runtime ((Client.page 0).frame (greeting (lit "2")))).sent latin1
        Raw.runtime (Client.page 1)).map (deserializeBinary 10) =
      (office.sent latin1 Raw.runtime (Client.page 1)).map (deserializeBinary 10) ++
        List.replicate ((pageTwo.channels.filter (office.server.channel · = .opened)).count
            (Client.page 1))
          (some (.ok (((greeting (lit "2")).map Jspb.dropUnpaired).stamp [] (lit "1")))) := by
  have hx : IsArray (serializeBinary (greeting (lit "2"))) := by decide
  have hwell : ∀ k ∈ Model.numbers,
      WellFormed (Jspb.dropUnpaired ((greeting (lit "2")).get k)) := by decide
  have hi : ((Client.page 0).frame (greeting (lit "2"))).arrival =
      .frame (Client.page 0).ctx ⟨0, []⟩ (.binary true (serializeBinary (greeting (lit "2"))))
        (serializeBinary (greeting (lit "2"))).length := rfl
  have hs : IsArray (toByteArray Raw.runtime.writeString
      (((greeting (lit "2")).map Jspb.dropUnpaired).stamp [] (lit "1"))) := by decide
  have ha : WellFormed (lit "1") := by decide
  have hpage : Channel.server (Client.page 1) = .websocket := rfl
  exact page_to_pages Raw.runtime_lawful hx (by decide) hwell hi sends_pageTwo
    constants_wellFormed.nil ha hs hpage

theorem sendable_greeting :
    Sendable (((greeting (lit "9")).map Jspb.dropUnpaired).stamp [] (lit "1")) := by decide

theorem page_to_watch_office :
    (office.next latin1 Raw.runtime ((Client.page 0).frame (greeting (lit "9")))).sent latin1
        Raw.runtime (Client.watch 0) =
      office.sent latin1 Raw.runtime (Client.watch 0) ++
        List.replicate ((watchNine.channels.filter (office.server.channel · = .opened)).count
            (Client.watch 0))
          (latin1.encode (Printable.frame sendable_greeting).text) ∧
      receiveAnalyticData (Printable.frame sendable_greeting).text = .ok
        { factory := printedFactory ((greeting (lit "9")).map Jspb.dropUnpaired)
          deviceId := target ((greeting (lit "9")).map Jspb.dropUnpaired)
          length := intToHex (Int32.ofNat (Jspb.dropUnpaired (greeting (lit "9")).type).length)
          type := Jspb.dropUnpaired (greeting (lit "9")).type
          body := printedBody ((greeting (lit "9")).map Jspb.dropUnpaired) } := by
  have hx : IsArray (serializeBinary (greeting (lit "9"))) := by decide
  have hwell : ∀ k ∈ Model.numbers,
      WellFormed (Jspb.dropUnpaired ((greeting (lit "9")).get k)) := by decide
  have hi : ((Client.page 0).frame (greeting (lit "9"))).arrival =
      .frame (Client.page 0).ctx ⟨0, []⟩ (.binary true (serializeBinary (greeting (lit "9"))))
        (serializeBinary (greeting (lit "9"))).length := rfl
  have hs : IsArray (latin1.encode (Printable.frame sendable_greeting).text) := by decide
  have hwatch : Channel.server (Client.watch 0) = .socket := rfl
  exact page_to_watch Raw.runtime_lawful hx (by decide) hwell hi sends_watchNine sendable_greeting
    hs hwatch

/-! ## From watch to page -/

section Watch

variable {F : Frame} {g : Text} {slack : Nat} (hg : ch '[' ∉ g) (hg' : ch ']' ∉ g)
  (hcs : cs.Carries (F.piece g)) (hlength : (cs.encode (F.piece g)).length ≤ maxPieceLength)
  (hunread : n.unread ctx.channel = [])
  (hi : i.arrival = .piece ctx now (cs.encode (F.piece g)) slack)

include hg hg' hcs hlength hunread hi

omit [DecidableEq C] [Channel C] in
theorem received_of_watch :
    n.received cs R i.arrival = some (.message ctx now F.message) := by
  have hread := F.decodeFresh_piece hg hg' hcs
  rw [decodeFresh, ← channelRead_nil slack] at hread
  rw [hi, Network.received, if_neg (Nat.not_lt.mpr hlength), hunread, hread]
  rfl

/-- **The pages of a session read the frame of a watch** that names the account of the session. -/
theorem watch_to_pages (hR : R.Lawful) (h : Sends n.server ctx F.message a S)
    (hdecode : ∀ bs, WellFormed (cs.decode bs)) (hnow : WellFormed now.text) (ha : WellFormed a)
    (hs : IsArray (toByteArray R.writeString (F.message.stamp now.text a))) {page : C}
    (hpage : Channel.server page = .websocket) :
    ((n.next cs R i).sent cs R page).map (deserializeBinary 10) =
      (n.sent cs R page).map (deserializeBinary 10) ++
        List.replicate ((S.channels.filter (n.server.channel · = .opened)).count page)
          (some (.ok (F.message.stamp now.text a))) := by
  have hreceived : n.received cs R i.arrival = some (.message ctx now F.message) :=
    received_of_watch hg hg' hcs hlength hunread hi
  have harrival : i.arrival.All WellFormed := by
    rw [hi]
    exact hnow
  have hall := all_of_received hR hdecode harrival hreceived
  exact pages_read_message hreceived h hR hall.2 hnow ha hs hpage

end Watch

/-- A frame of the watch for the account of the second page. -/
def watchFrame : Frame where
  factory := lit "3G"
  deviceId := lit "2"
  length := lit "0002"
  type := lit "TK"
  content := some (lit "hi")
  factory_clean := by decide
  deviceId_clean := by decide
  length_clean := by decide
  type_clean := by decide
  type_ne_nil := nofun
  content_clean := by decide

theorem sends_watchFrame : Sends office.server (Client.watch 0).ctx watchFrame.message (lit "9")
    pageTwo where
  not_linkKeep := by decide
  not_report := by decide
  account := rfl
  device h := absurd rfl h
  not_group _ := rfl
  session := rfl

theorem watch_to_pages_office :
    ((office.next latin1 Raw.runtime ((Client.watch 0).piece (watchFrame.piece []))).sent latin1
        Raw.runtime (Client.page 1)).map (deserializeBinary 10) =
      (office.sent latin1 Raw.runtime (Client.page 1)).map (deserializeBinary 10) ++
        List.replicate ((pageTwo.channels.filter (office.server.channel · = .opened)).count
            (Client.page 1))
          (some (.ok (watchFrame.message.stamp [] (lit "9")))) := by
  have hcs : latin1.Carries (watchFrame.piece []) := by decide
  have hi : ((Client.watch 0).piece (watchFrame.piece [])).arrival =
      .piece (Client.watch 0).ctx ⟨0, []⟩ (latin1.encode (watchFrame.piece [])) 0 := rfl
  have hs : IsArray (toByteArray Raw.runtime.writeString
      (watchFrame.message.stamp [] (lit "9"))) := by decide
  have ha : WellFormed (lit "9") := by decide
  have hpage : Channel.server (Client.page 1) = .websocket := rfl
  exact watch_to_pages List.not_mem_nil List.not_mem_nil hcs (by decide) rfl hi Raw.runtime_lawful
    sends_watchFrame wellFormed_latin1 constants_wellFormed.nil ha hs hpage

/-! ## Messages in several frames -/

theorem Model.setAll_congr {g g' : Text → Text} {fs : List (Nat × Text)}
    (h : ∀ f ∈ fs, g f.2 = g' f.2) (x : Model) : Model.setAll g fs x = Model.setAll g' fs x := by
  induction fs generalizing x with
  | nil => rfl
  | cons f fs ih =>
    obtain ⟨hf, hfs⟩ := List.forall_mem_cons.mp h
    rw [Model.setAll, List.foldl_cons, hf]
    exact ih hfs _

/-- The receiver is the last field of a message that names no group. -/
theorem Model.fields_concat_receiver {x : Model} (hreceiver : x.receiver ≠ [])
    (hgroup : x.groupId = []) :
    ∃ fs, x.fields = fs ++ [(8, x.receiver)] ∧ ∀ f ∈ fs, f.1 ≠ 8 := by
  have htail : [(8, x.receiver)] =
      ([8, 9].map fun n => (n, x.get n)).filter fun f => f.2 ≠ [] := by
    simp [Model.get, hreceiver, hgroup]
  refine ⟨([1, 2, 3, 4, 5, 6, 7].map fun n => (n, x.get n)).filter fun f => f.2 ≠ [], ?_, ?_⟩
  · rw [htail, ← List.filter_append, ← List.map_append]
    rfl
  · intro f hf
    obtain ⟨n, hn, rfl⟩ := List.mem_map.mp (List.mem_filter.mp hf).1
    rintro rfl
    exact absurd hn (by decide)

/-- The message with the first `k` of the fields that are not empty. -/
def Model.takeFields (k : Nat) (x : Model) : Model := Model.setAll id (x.fields.take k) {}

section Fragments

variable (hR : R.Lawful) {x : Model} (hwell : ∀ k ∈ Model.numbers, WellFormed (x.get k))
  (hx : IsArray (serializeBinary x)) {front back : List UInt8}
  (he : front ++ back = serializeBinary x)

include hR hwell hx he

theorem message_front_iff (final : Bool) : (WebSocketFrame.binary final front).message R = some m ↔
    ∃ k ≤ x.fields.length, front = writeStrings Jspb.writeString (x.fields.take k) ∧
      m = x.takeFields k := by
  have hfields := messagebody.isWellFormed_of_mem_fields hwell
  have htake : ∀ k, ∀ f ∈ x.fields.take k, isWellFormed f.2 = true := fun k f hf =>
    hfields f (List.mem_of_mem_take hf)
  have hreplace : ∀ k, Model.setAll replaceUnpaired (x.fields.take k) {} = x.takeFields k :=
    fun k => Model.setAll_congr (fun f hf => replaceUnpaired_eq_iff.mpr (htake k f hf)) {}
  have hnum : ∀ f ∈ x.fields, f.1 ∈ Model.numbers := fun f hf => Model.mem_numbers_of_mem_fields hf
  rw [serializeBinary, toByteArray_eq, messagebody.writeStrings_of_isWellFormed hfields] at hx he
  rw [message_binary_iff]
  constructor
  · rintro ⟨u, hu⟩
    obtain ⟨k, hk, hfront, hlast⟩ := WatchMessageBodyProto.exists_take_of_fields hR hnum hx he
      ((WatchMessageBodyProto.parseFrom_eq_ok_iff hR).mp hu)
    refine ⟨k, hk, hfront.trans (messagebody.writeStrings_of_isWellFormed (htake k)).symm, ?_⟩
    rw [← hreplace]
    exact congrArg WatchMessageBodyProto.model hlast
  · rintro ⟨k, -, rfl, rfl⟩
    rw [messagebody.writeStrings_of_isWellFormed (htake k)] at he ⊢
    refine ⟨R.noUnknownFields, (WatchMessageBodyProto.parseFrom_eq_ok_iff hR).mpr ?_⟩
    rw [← hreplace]
    refine WatchMessageBodyProto.fields_writeStrings hR _
      (fun f hf => hnum f (List.mem_of_mem_take hf)) ?_
    have hlen := congrArg List.length he
    simp only [IsArray, List.length_append] at hx hlen ⊢
    omega

variable {final : Bool} {size : Nat} {rest : List (Input C)}
  (hi : i.arrival = .frame ctx now (.binary final front) size) (hsize : size ≤ maxFrameLength)
  (hrest : ∀ j ∈ rest, ∃ ctx' now' final' content size',
    j.arrival = .frame ctx' now' (.continuation final' content) size' ∧ size' ≤ maxFrameLength)

omit hR hwell hx he in
include hi hsize hrest in
/-- Nothing is heard of the further frames. -/
theorem trace_fragments (n : Network C) : (refinement cs R).trace n (i :: rest) =
    ((WebSocketFrame.binary final front).message R |>.map (Event.message ctx now)).toList := by
  have hsilent : ∀ n, (refinement cs R).trace n rest = [] := by
    clear hi
    induction rest with
    | nil => exact fun _ => rfl
    | cons j rest ih =>
      intro n
      obtain ⟨hj, hrest⟩ := List.forall_mem_cons.mp hrest
      obtain ⟨ctx', now', final', content, size', harrival, hsize'⟩ := hj
      have hnone : (refinement cs R).events n j = [] := by
        show (n.received cs R j.arrival).toList = []
        rw [harrival, Network.received, if_neg (Nat.not_lt.mpr hsize')]
        rfl
      rw [Automaton.Refinement.trace_cons, hnone, ih hrest]
      rfl
  rw [Automaton.Refinement.trace_cons, hsilent, List.append_nil]
  show (n.received cs R i.arrival).toList = _
  rw [hi, Network.received, if_neg (Nat.not_lt.mpr hsize)]

include hi hsize hrest

/-- **What the server hears of a message in several frames**: nothing, or one message, which is that
of the first frame, if it ends between two fields. -/
theorem fragments_iff :
    ((refinement cs R).trace n (i :: rest) = [] ∨
      ∃ m, (refinement cs R).trace n (i :: rest) = [.message ctx now m]) ∧
    ∀ m, (refinement cs R).trace n (i :: rest) = [.message ctx now m] ↔
      ∃ k ≤ x.fields.length, front = writeStrings Jspb.writeString (x.fields.take k) ∧
        m = x.takeFields k := by
  rw [trace_fragments hi hsize hrest]
  constructor
  · cases (WebSocketFrame.binary final front).message R with
    | none => exact .inl rfl
    | some m' => exact .inr ⟨m', rfl⟩
  · intro m
    rw [← message_front_iff hR hwell hx he final]
    cases (WebSocketFrame.binary final front).message R with
    | none => simp
    | some m' => simp

/-- **A message in several frames loses its receiver**, so it goes back to the device it names. -/
theorem receiver_of_fragment (hback : back ≠ []) (hreceiver : x.receiver ≠ [])
    (hgroup : x.groupId = []) : (refinement cs R).trace n (i :: rest) = [] ∨
      ∃ k ≤ x.fields.length, (x.takeFields k).receiver = [] ∧
        (refinement cs R).trace n (i :: rest) = [.message ctx now (x.takeFields k)] := by
  rw [trace_fragments hi hsize hrest]
  cases hmessage : (WebSocketFrame.binary final front).message R with
  | none => exact .inl rfl
  | some m =>
    obtain ⟨k, hk, hfront, rfl⟩ := (message_front_iff hR hwell hx he final).mp hmessage
    refine .inr ⟨k, hk, ?_, rfl⟩
    obtain ⟨fs, hfields, hfs⟩ := Model.fields_concat_receiver hreceiver hgroup
    have hk : k ≤ fs.length := by
      by_contra hk
      have hall : x.fields.take k = x.fields := by
        apply List.take_of_length_le
        rw [hfields, List.length_append, List.length_singleton]
        omega
      rw [serializeBinary, toByteArray_eq, hfront, hall] at he
      exact hback (List.append_right_eq_self.mp he)
    have hnone : Model.lastValue (x.fields.take k) 8 = none := by
      rw [hfields, List.take_append_of_le_length hk, Model.lastValue, List.filter_eq_nil_iff.mpr]
      · rfl
      · intro f hf
        simpa using hfs f (List.mem_of_mem_take hf)
    have hnum : ∀ f ∈ x.fields.take k, f.1 ∈ Model.numbers := fun f hf =>
      Model.mem_numbers_of_mem_fields (List.mem_of_mem_take hf)
    have hget := Model.get_setAll id hnum (n := 8) (by decide) {}
    rw [hnone] at hget
    exact hget

end Fragments

section Clients

variable (final : Bool) (content : List UInt8)

/-- A page sends the first frame of a message, and a further one. -/
def Client.front (c : Client) : Input Client :=
  { c.frame {} with arrival := .frame c.ctx ⟨0, []⟩ (.binary final content) content.length }

def Client.continuation (c : Client) : Input Client :=
  { c.frame {} with arrival := .frame c.ctx ⟨0, []⟩ (.continuation final content) content.length }

end Clients

/-- The greeting without its receiver, and the receiver. -/
def greetingFront : List UInt8 :=
  writeStrings Jspb.writeString ((greeting (lit "2")).fields.take 6)

def greetingBack : List UInt8 := Jspb.writeString 8 (lit "2")

theorem greetingFront_append_greetingBack :
    greetingFront ++ greetingBack = serializeBinary (greeting (lit "2")) := by decide

theorem continuation_greetingBack : ∀ j ∈ [(Client.page 0).continuation true greetingBack],
    ∃ ctx' now' final' content size',
      j.arrival = .frame ctx' now' (.continuation final' content) size' ∧
        size' ≤ maxFrameLength := by
  intro j hj
  obtain rfl := List.mem_singleton.mp hj
  exact ⟨_, _, _, _, _, rfl, by decide⟩

theorem fragments_iff_greeting :
    ((refinement latin1 Raw.runtime).trace office [(Client.page 0).front false greetingFront,
          (Client.page 0).continuation true greetingBack] = [] ∨
      ∃ m, (refinement latin1 Raw.runtime).trace office
          [(Client.page 0).front false greetingFront,
            (Client.page 0).continuation true greetingBack] =
        [.message (Client.page 0).ctx ⟨0, []⟩ m]) ∧
    ∀ m, (refinement latin1 Raw.runtime).trace office
          [(Client.page 0).front false greetingFront,
            (Client.page 0).continuation true greetingBack] =
        [.message (Client.page 0).ctx ⟨0, []⟩ m] ↔
      ∃ k ≤ (greeting (lit "2")).fields.length,
        greetingFront = writeStrings Jspb.writeString ((greeting (lit "2")).fields.take k) ∧
          m = (greeting (lit "2")).takeFields k := by
  have hwell : ∀ k ∈ Model.numbers, WellFormed ((greeting (lit "2")).get k) := by decide
  exact fragments_iff Raw.runtime_lawful hwell (by decide) greetingFront_append_greetingBack rfl
    (by decide) continuation_greetingBack

theorem receiver_of_fragment_greeting :
    (refinement latin1 Raw.runtime).trace office [(Client.page 0).front false greetingFront,
        (Client.page 0).continuation true greetingBack] = [] ∨
      ∃ k ≤ (greeting (lit "2")).fields.length,
        ((greeting (lit "2")).takeFields k).receiver = [] ∧
        (refinement latin1 Raw.runtime).trace office [(Client.page 0).front false greetingFront,
            (Client.page 0).continuation true greetingBack] =
          [.message (Client.page 0).ctx ⟨0, []⟩ ((greeting (lit "2")).takeFields k)] := by
  have hwell : ∀ k ∈ Model.numbers, WellFormed ((greeting (lit "2")).get k) := by decide
  exact receiver_of_fragment Raw.runtime_lawful hwell (by decide) greetingFront_append_greetingBack
    rfl (by decide) continuation_greetingBack (by decide) (by decide) rfl

end NettyTcpWeb
