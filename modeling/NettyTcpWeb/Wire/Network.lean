import NettyTcpWeb.Library.Refinement
import NettyTcpWeb.Wire.Contents
import NettyTcpWeb.Wire.Page

/-!
# The server between its connections

Netty hands bytes to the decoders of a connection and sends the bytes that its encoder makes of a
message. Around the server stands so a network of bytes: a piece of a watch or a frame of a page is
an event of the server, or nothing at all, and the messages of an event are handed to the encoders
of their channels, those of a broadcast in any order, and all on one builder. Netty itself limits
what may arrive: a frame of a page that is too long ends its connection, and a piece of a watch that
is too long is dropped.

The network refines the server, and its encoders lose and change nothing: a page reads what the
server has addressed to it, up to the device and the length that the encoder of a watch writes into
the shared builder, and a watch receives its frames whatever the order.

## Main definitions

* `WebSocketFrame`, `Arrival`, `Input`: what arrives, and the order in which members are served
* `maxFrameLength`, `maxPieceLength`: the limits of Netty
* `Network`, `network`: the server with its connections, and its automaton
* `Network.sent`: the bytes sent on a channel
* `addressed`: the messages that the server addresses to a channel

## Main results

* `refinement`, `server_run_of_network`: **the network refines the server**
* `found_of_inputs`: what the encoders find is what has been addressed, in the same order
* `pages_read`: **a page reads what has been addressed to it**
* `watches_receive`: a watch receives the frames of what has been addressed to it
-/

namespace NettyTcpWeb

open Java (Text Charset lit isNotBlank)
open Protobuf

/-! ## What arrives -/

/-- A frame as the protocol handler hands it on, with the flag of the last frame of a message. -/
inductive WebSocketFrame where
  | binary (finalFragment : Bool) (content : List UInt8)
  | text (finalFragment : Bool) (content : List UInt8)
  | continuation (finalFragment : Bool) (content : List UInt8)

/-- The two decoders of `WatchWebSocketServer`: a frame of another kind fails the cast, and the flag
is not looked at. -/
def WebSocketFrame.message {U : Type} (R : Runtime U) : WebSocketFrame → Option Model
  | .binary _ content =>
    match WatchMessageBodyProto.parseFrom R content with
    | .error _ => none
    | .ok message => some message.model
  | .text _ _ | .continuation _ _ => none

/-- `Constants.ImserverConfig.MAX_FRAME_LENGTH`. -/
def maxFrameLength : Nat := 1024 * 10

/-- The limit of the `DelimiterBasedFrameDecoder` of `WatchServer`. -/
def maxPieceLength : Nat := 1048576

/-- A piece of a watch with the slack of its buffer, a frame of a page with its size on the wire,
where it may be compressed, or another event. -/
inductive Arrival (C : Type) where
  | piece (ctx : ChannelHandlerContext C) (now : Clock) (piece : List UInt8) (slack : Nat)
  | frame (ctx : ChannelHandlerContext C) (now : Clock) (frame : WebSocketFrame) (size : Nat)
  | event (e : Event C)

/-- What arrives, and the order in which a broadcast of its event serves the members. -/
structure Input (C : Type) where
  arrival : Arrival C
  order : List C → List C
  order_perm : ∀ members, (order members).Perm members

/-! ## The network -/

/-- The server, the bytes that the decoder of each watch has left unread, and the messages as the
encoders of their channels have found them. -/
structure Network (C : Type) where
  server : Server C
  unread : C → List UInt8
  handed : List (C × Model)

/-- The network before anything has arrived. -/
def Network.empty {C : Type} : Network C where
  server := .empty
  unread _ := []
  handed := []

section Encoders

variable {C U : Type} [Channel C] (cs : Charset) (R : Runtime U)

/-- The builder as the encoders find it: each leaves it to the next one. -/
def findAll : Model → List C → List (C × Model)
  | _, [] => []
  | m, c :: order => (c, m) :: findAll (encodeFor cs R.writeString m c).2 order

/-- The encoders of an output. What is written for a session goes to one watch, or to pages, which
leave the builder as it is. -/
def Output.hand (order : List C → List C) : Output C → List (C × Model)
  | .write c m => [(c, m)]
  | .broadcast m members => findAll cs R m (order members)

/-- The bytes sent on a channel. The array of an encoder that would be too long cannot be made, and
then nothing is sent. -/
def Network.sent [DecidableEq C] (n : Network C) (c : C) : List (List UInt8) :=
  ((n.handed.filter fun h => h.1 = c).map fun h => (encodeFor cs R.writeString h.2 c).1).filter
    fun bs => IsArray bs

end Encoders

variable {C U : Type} [DecidableEq C] [Channel C] (cs : Charset) (R : Runtime U)

/-- The event of the server. Where a decoder raises, the handler logs the exception, and nothing
else happens; a frame over the limit makes Netty close the connection. -/
def Network.received (n : Network C) : Arrival C → Option (Event C)
  | .piece ctx now piece slack =>
    if maxPieceLength < piece.length then none
    else (channelRead cs (n.unread ctx.channel) piece slack).2.map (.message ctx now)
  | .frame ctx now frame size =>
    if maxFrameLength < size then some (.disconnect ctx.channel)
    else (frame.message R).map (.message ctx now)
  | .event e => some e

/-- The unread bytes behind an arrival. -/
def Network.unreadBehind (n : Network C) : Arrival C → C → List UInt8
  | .piece ctx _ piece slack =>
    if maxPieceLength < piece.length then n.unread
    else Function.update n.unread ctx.channel
      (channelRead cs (n.unread ctx.channel) piece slack).1
  | .frame _ _ _ _ | .event _ => n.unread

/-- The network behind an input. -/
def Network.next (n : Network C) (i : Input C) : Network C :=
  match n.received cs R i.arrival with
  | none => { n with unread := n.unreadBehind cs i.arrival }
  | some e =>
    let server := step n.server e
    { server := server
      unread := n.unreadBehind cs i.arrival
      handed := n.handed ++ server.out.flatMap (Output.hand cs R i.order) }

/-- A message arrives as bytes only, and on an open channel. -/
def Network.Enabled (n : Network C) : Arrival C → Prop
  | .piece ctx _ _ _ =>
    Channel.server ctx.channel = .socket ∧ n.server.channel ctx.channel = .opened
  | .frame ctx _ _ _ =>
    Channel.server ctx.channel = .websocket ∧ n.server.channel ctx.channel = .opened
  | .event e => NettyTcpWeb.Enabled n.server e ∧ ∀ ctx now m, e ≠ .message ctx now m

/-- The network: its inputs are handled one at a time. -/
def network : Automaton (Network C) (Input C) where
  enabled n i := n.Enabled i.arrival
  next n i := n.next cs R i

section Clients

open Java (latin1)

/-- A page sends a message in one frame, which is not compressed. -/
def Client.frame (c : Client) (m : Model) : Input Client where
  arrival := .frame c.ctx ⟨0, []⟩ (.binary true (messagebody.serializeBinary m))
    (messagebody.serializeBinary m).length
  order := id
  order_perm _ := .refl _

/-- A watch sends a piece. -/
def Client.piece (c : Client) (text : Text) : Input Client where
  arrival := .piece c.ctx ⟨0, []⟩ (latin1.encode text) 0
  order := id
  order_perm _ := .refl _

/-- A page and a watch log in, and the page sends the group a message. -/
def pageAndWatch : List (Input Client) :=
  [(Client.page 0).frame { deviceId := lit "1", type := lit "LK" },
    (Client.watch 0).piece (lit "[3G*9*0002*LK"),
    (Client.page 0).frame { deviceId := lit "1", type := lit "TK", groupId := lit "g" }]

end Clients

/-! ## The refinement -/

omit [DecidableEq C] in
theorem enabled_of_received {n : Network C} {arrival : Arrival C} {e : Event C}
    (h : n.Enabled arrival) (he : n.received cs R arrival = some e) : Enabled n.server e := by
  cases arrival with
  | piece ctx now piece slack =>
    rw [Network.received] at he
    split at he
    · cases he
    · obtain ⟨m, -, rfl⟩ := Option.map_eq_some_iff.mp he
      exact h.2
  | frame ctx now frame size =>
    rw [Network.received] at he
    split at he
    · cases he
      exact h.2
    · obtain ⟨m, -, rfl⟩ := Option.map_eq_some_iff.mp he
      exact h.2
  | event e' =>
    obtain rfl := Option.some.inj he
    exact h.1

/-- **The network refines the server.** -/
def refinement : (network (C := C) cs R).Refinement (server C) where
  abs := Network.server
  events n i := (n.received cs R i.arrival).toList
  next n i := by
    show (n.next cs R i).server = _
    rw [Network.next]
    cases n.received cs R i.arrival with
    | none => rfl
    | some e => rfl
  run n i h := by
    cases he : n.received cs R i.arrival with
    | none => exact Automaton.along_nil
    | some e => exact ⟨enabled_of_received cs R h he, trivial⟩

/-! ## What the encoders find -/

/-- The builder of a message as an encoder may find it: as it is, or as the encoder of a watch has
left it. -/
def Found (m m' : Model) : Prop := m' = m ∨ m' = (encode m).2

/-- The encoder of a watch leaves a builder as it is that another one has left. -/
theorem encode_idem (m : Model) : encode (encode m).2 = encode m := by
  have htarget : ∀ length, target { m with deviceId := target m, length := length } = target m := by
    intro length
    unfold target
    dsimp only
    split_ifs <;> rfl
  have hencode : (encode m).2 = if isNotBlank (some (target m)) = true then
      { m with deviceId := target m, length := intToHex (Int32.ofNat m.type.length) }
    else { m with deviceId := target m } := by
    rw [encode, sendWatchData]
    cases isNotBlank (some (target m)) <;> rfl
  rw [hencode]
  split_ifs with hblank
  · rw [encode, htarget]
    exact sendWatchData_length (m := { m with deviceId := target m }) hblank _
  · rw [encode, show target { m with deviceId := target m } = target m from htarget m.length]
    rfl

theorem Found.encode {m m' : Model} (h : Found m m') : NettyTcpWeb.encode m' = encode m := by
  rcases h with rfl | rfl
  · rfl
  · exact encode_idem m

/-- Encoders of watches write the same for builders that they may find. -/
theorem map_encode_of_found {α : Type*} (f : Text → α) {ms ms' : List Model}
    (h : List.Forall₂ Found ms ms') :
    ms'.map (fun m => f (NettyTcpWeb.encode m).1) = ms.map fun m => f (NettyTcpWeb.encode m).1 := by
  induction h with
  | nil => rfl
  | cons h _ ih => rw [List.map_cons, List.map_cons, h.encode, ih]

theorem Found.trans {m m' m'' : Model} (h : Found m m') (h' : Found m' m'') : Found m m'' := by
  rcases h' with rfl | rfl
  · exact h
  · exact .inr (congrArg Prod.snd h.encode)

section Hand

variable {cs : Charset} {R : Runtime U} {c : C} {m m' : Model}

omit [DecidableEq C] in
theorem found_encodeFor (m : Model) (c : C) : Found m (encodeFor cs R.writeString m c).2 := by
  rw [encodeFor]
  split
  · exact .inr rfl
  · exact .inl rfl

omit [DecidableEq C] in
theorem found_of_mem_findAll {order : List C} (h : (c, m') ∈ findAll cs R m order) :
    Found m m' := by
  induction order generalizing m with
  | nil => cases h
  | cons d order ih =>
    rcases List.mem_cons.mp h with he | h
    · exact .inl (Prod.mk.inj he).2
    · exact (found_encodeFor m d).trans (ih h)

omit [DecidableEq C] in
variable (cs R) in
theorem map_fst_findAll (m : Model) (order : List C) :
    (findAll cs R m order).map Prod.fst = order := by
  induction order generalizing m with
  | nil => rfl
  | cons c order ih => rw [findAll, List.map_cons, ih]

omit [DecidableEq C] in
/-- The encoders of a broadcast write what they make of the builder that they find. -/
theorem encodeAll_eq_map_findAll (m : Model) (order : List C) :
    encodeAll cs R.writeString m order =
      (findAll cs R m order).map fun h => (h.1, (encodeFor cs R.writeString h.2 h.1).1) := by
  induction order generalizing m with
  | nil => rfl
  | cons c order ih => rw [encodeAll, findAll, List.map_cons, ih]

/-- The messages that an output addresses to a channel, one for each of its places in the group. -/
def Output.to (c : C) : Output C → List Model
  | .write d m => if d = c then [m] else []
  | .broadcast m members => List.replicate (members.count c) m

/-- The messages that have been handed to the encoder of a channel. -/
def handedTo (c : C) (handed : List (C × Model)) : List Model :=
  (handed.filter fun h => h.1 = c).map Prod.snd

omit [Channel C] in
theorem handedTo_append (c : C) (hs hs' : List (C × Model)) :
    handedTo c (hs ++ hs') = handedTo c hs ++ handedTo c hs' := by
  rw [handedTo, List.filter_append, List.map_append]
  rfl

/-- The bytes that are sent are those of the messages that have been handed on. -/
theorem sent_eq (n : Network C) (c : C) : n.sent cs R c =
    ((handedTo c n.handed).map fun m => (encodeFor cs R.writeString m c).1).filter
      fun bs => IsArray bs := by
  rw [Network.sent, handedTo, List.map_map]
  rfl

theorem forall_mem_of_forall₂ {α β : Type*} {R : α → β → Prop} {P : α → Prop} {Q : β → Prop}
    {as : List α} {bs : List β} (h : List.Forall₂ R as bs) (hP : ∀ a ∈ as, P a)
    (hPQ : ∀ a b, P a → R a b → Q b) : ∀ b ∈ bs, Q b := by
  induction h with
  | nil => exact nofun
  | cons hab _ ih =>
    obtain ⟨ha, has⟩ := List.forall_mem_cons.mp hP
    exact List.forall_mem_cons.mpr ⟨hPQ _ _ ha hab, ih has⟩

theorem forall₂_replicate {α β : Type*} {R : α → β → Prop} {a : α} {bs : List β}
    (h : ∀ b ∈ bs, R a b) : List.Forall₂ R (List.replicate bs.length a) bs := by
  induction bs with
  | nil => exact .nil
  | cons b bs ih =>
    obtain ⟨hb, hbs⟩ := List.forall_mem_cons.mp h
    exact .cons hb (ih hbs)

/-- **The encoders find what an output addresses to their channels**, whatever the order. -/
theorem forall₂_hand {order : List C → List C} (horder : ∀ members, (order members).Perm members)
    (o : Output C) (c : C) : List.Forall₂ Found (o.to c) (handedTo c (o.hand cs R order)) := by
  cases o with
  | write d m =>
    by_cases hd : d = c
    · simp [Output.to, Output.hand, handedTo, hd, Found]
    · simp [Output.to, Output.hand, handedTo, hd]
  | broadcast m members =>
    have hcount : (handedTo c (findAll cs R m (order members))).length = members.count c := by
      have hfst := map_fst_findAll cs R m (order members)
      rw [← (horder members).count_eq, ← congrArg (List.count c) hfst, handedTo,
        List.length_map, List.count, List.countP_map, ← List.countP_eq_length_filter]
      exact List.countP_congr fun _ _ => by simp
    rw [Output.to, Output.hand, ← hcount]
    refine forall₂_replicate fun m' hm' => ?_
    obtain ⟨⟨d, m''⟩, hmem, rfl⟩ := List.mem_map.mp hm'
    exact found_of_mem_findAll (List.mem_filter.mp hmem).1

theorem forall₂_flatMap_hand {order : List C → List C}
    (horder : ∀ members, (order members).Perm members) (out : List (Output C)) (c : C) :
    List.Forall₂ Found (out.flatMap (Output.to c))
      (handedTo c (out.flatMap (Output.hand cs R order))) := by
  induction out with
  | nil => exact .nil
  | cons o out ih =>
    rw [List.flatMap_cons, List.flatMap_cons, handedTo_append]
    exact List.rel_append (forall₂_hand horder o c) ih

end Hand

/-! ## Runs -/

/-- The messages that the server addresses to a channel while it handles the events. -/
def addressed (c : C) : Server C → List (Event C) → List Model
  | _, [] => []
  | s, e :: es => (step s e).out.flatMap (Output.to c) ++ addressed c (step s e) es

theorem addressed_append (c : C) (s : Server C) (es fs : List (Event C)) :
    addressed c s (es ++ fs) = addressed c s es ++ addressed c ((server C).exec s es) fs := by
  induction es generalizing s with
  | nil => rfl
  | cons e es ih =>
    rw [List.cons_append, addressed, addressed, ih, List.append_assoc]
    rfl

variable {cs : Charset} {R : Runtime U}

/-- What an input hands to an encoder is what its event addresses to the channel. -/
theorem found_of_next (n : Network C) (i : Input C) (c : C) : ∃ new,
    (n.next cs R i).handed = n.handed ++ new ∧
      List.Forall₂ Found (addressed c n.server ((refinement cs R).events n i))
        (handedTo c new) := by
  show ∃ new, _ ∧ List.Forall₂ Found (addressed c n.server (n.received cs R i.arrival).toList) _
  rw [Network.next]
  cases n.received cs R i.arrival with
  | none => exact ⟨[], (List.append_nil _).symm, .nil⟩
  | some e =>
    refine ⟨_, rfl, ?_⟩
    rw [Option.toList_some, addressed, addressed, List.append_nil]
    exact forall₂_flatMap_hand i.order_perm _ c

/-- **What the encoders find is what the server addresses to their channels**, in the same order. -/
theorem found_of_inputs (cs : Charset) (R : Runtime U) (is : List (Input C)) (c : C) :
    List.Forall₂ Found (addressed c .empty ((refinement cs R).trace .empty is))
      (handedTo c ((network cs R).exec .empty is).handed) := by
  induction is using List.reverseRecOn with
  | nil => exact .nil
  | append_singleton is i ih =>
    obtain ⟨new, hnew, hfound⟩ := found_of_next ((network cs R).exec .empty is) i c
    have hserver := (refinement cs R).exec_trace .empty is
    have hnext : (network cs R).exec .empty (is ++ [i]) =
        ((network cs R).exec .empty is).next cs R i := Automaton.exec_append
    rw [Automaton.Refinement.trace_concat, addressed_append, hnext, hnew, handedTo_append]
    exact List.rel_append ih (hserver ▸ hfound)

/-! ## Well-formed texts -/

/-- Every surrogate of the text is in a pair. -/
def WellFormed (s : Text) : Prop := isWellFormed s = true

instance : DecidablePred WellFormed := fun s =>
  inferInstanceAs (Decidable (isWellFormed s = true))

/-- The clock texts of an arrival have a property, and all texts of an event. -/
def Arrival.All (P : Text → Prop) : Arrival C → Prop
  | .piece _ now _ _ | .frame _ now _ _ => P now.text
  | .event e => e.All P

theorem constants_wellFormed : Constants WellFormed where
  nil := rfl
  factory := rfl
  heartbeat := rfl
  offline := rfl

theorem wellFormed_intToHex (n : Int32) : WellFormed (intToHex n) := by
  apply Protobuf.cuttable_isWellFormed.of_forall
  intro c hc
  rcases isHexDigit_of_mem_intToHex hc with hdigit | hdigit
  · exact UInt16.lt_of_le_of_lt hdigit.2 (by decide)
  · exact UInt16.lt_of_le_of_lt hdigit.2 (by decide)

/-- The encoder of a watch writes the target and the length. -/
theorem Model.All.encode {P : Text → Prop} (hlength : ∀ n, P (intToHex n)) {m : Model}
    (h : m.All P) : Model.All P (encode m).2 := by
  obtain ⟨h1, h2, h3, h4, h5, h6, h7, h8, h9⟩ := Model.all_iff.mp h
  have htarget : P (target m) := by
    unfold target
    split_ifs
    · exact h8
    · exact h2
  rw [NettyTcpWeb.encode, sendWatchData]
  cases isNotBlank (some (target m)) with
  | false => exact Model.all_iff.mpr ⟨h1, htarget, h3, h4, h5, h6, h7, h8, h9⟩
  | true => exact Model.all_iff.mpr ⟨h1, htarget, hlength _, h4, h5, h6, h7, h8, h9⟩

theorem Found.all {P : Text → Prop} (hlength : ∀ n, P (intToHex n)) {m m' : Model}
    (h : Found m m') (hm : m.All P) : m'.All P := by
  rcases h with rfl | rfl
  · exact hm
  · exact hm.encode hlength

omit [Channel C] in
theorem message_of_mem_to {c : C} {o : Output C} {m : Model} (h : m ∈ o.to c) : m = o.message := by
  cases o with
  | write d m' =>
    rw [Output.to] at h
    split_ifs at h
    · exact List.mem_singleton.mp h
    · cases h
  | broadcast m' members => exact List.eq_of_mem_replicate h

theorem written_of_addressed {P : Text → Prop} (hP : Constants P) {s : Server C}
    (hwf : s.Wellformed) (hs : Contents P s) {es : List (Event C)} (h : ∀ e ∈ es, e.All P) {c : C}
    {m : Model} (hm : m ∈ addressed c s es) : m.Written P := by
  induction es generalizing s with
  | nil => cases hm
  | cons e es ih =>
    obtain ⟨he, hes⟩ := List.forall_mem_cons.mp h
    rcases List.mem_append.mp hm with hm | hm
    · obtain ⟨o, ho, hm⟩ := List.mem_flatMap.mp hm
      exact message_of_mem_to hm ▸ written_of_step hP hs hwf he ho
    · exact ih (hwf.step e) (contents_step hP hs hwf he) hes hm

section WellFormed

variable (hR : R.Lawful) (hcs : ∀ bs, WellFormed (cs.decode bs))

include hR hcs

omit [DecidableEq C] [Channel C] in
/-- The texts of a received message are well formed, whatever the bytes are. -/
theorem all_of_received {n : Network C} {arrival : Arrival C} {e : Event C}
    (h : arrival.All WellFormed) (he : n.received cs R arrival = some e) : e.All WellFormed := by
  cases arrival with
  | piece ctx now piece slack =>
    rw [Network.received] at he
    split at he
    · cases he
    · obtain ⟨m, hm, rfl⟩ := Option.map_eq_some_iff.mp he
      exact ⟨h, all_of_channelRead Protobuf.cuttable_isWellFormed hcs hm⟩
  | frame ctx now frame size =>
    rw [Network.received] at he
    split at he
    · cases he
      trivial
    · obtain ⟨m, hm, rfl⟩ := Option.map_eq_some_iff.mp he
      refine ⟨h, ?_⟩
      cases frame with
      | text | continuation => cases hm
      | binary final content =>
        simp only [WebSocketFrame.message] at hm
        split at hm
        · cases hm
        · rename_i x hx
          obtain rfl := Option.some.inj hm
          exact WatchMessageBodyProto.isWellFormed_of_parseFrom hR hx
  | event e' =>
    obtain rfl := Option.some.inj he
    exact h

theorem all_of_mem_trace {n : Network C} {is : List (Input C)}
    (h : ∀ i ∈ is, i.arrival.All WellFormed) :
    ∀ e ∈ (refinement cs R).trace n is, e.All WellFormed := by
  intro e he
  obtain ⟨xs, i, ys, rfl, hevent⟩ := (refinement cs R).mem_trace_iff.mp he
  refine all_of_received hR hcs (h i ?_) (Option.mem_toList.mp hevent)
  exact List.mem_append_right _ List.mem_cons_self

/-- **A run of the network is a run of the server** that leads to the same state, and the server
hears of well-formed texts only, whatever the bytes are. -/
theorem server_run_of_network {n : Network C} {is : List (Input C)}
    (hrun : (network cs R).Run n is) (h : ∀ i ∈ is, i.arrival.All WellFormed) :
    (server C).Run n.server ((refinement cs R).trace n is) ∧
      ((network cs R).exec n is).server =
        (server C).exec n.server ((refinement cs R).trace n is) ∧
      ∀ e ∈ (refinement cs R).trace n is, e.All WellFormed :=
  ⟨(refinement cs R).run_trace hrun, (refinement cs R).exec_trace n is,
    all_of_mem_trace hR hcs h⟩

/-- **A page reads what the server has addressed to it**, each message as the encoder has found it,
and all of them but those that fit into no array. -/
theorem pages_read {is : List (Input C)} (h : ∀ i ∈ is, i.arrival.All WellFormed) {c : C}
    (hc : Channel.server c = .websocket) : ∃ found,
      List.Forall₂ Found (addressed c .empty ((refinement cs R).trace .empty is)) found ∧
      (((network cs R).exec .empty is).sent cs R c).map (messagebody.deserializeBinary 10) =
        (found.filter fun m => IsArray (toByteArray R.writeString m)).map
          fun m => some (.ok m) := by
  have hfound := found_of_inputs cs R is c
  have hall : ∀ m ∈ handedTo c ((network cs R).exec .empty is).handed, m.All WellFormed := by
    refine forall_mem_of_forall₂ hfound (fun m hm => ?_) fun m m' hm hm' =>
      hm'.all wellFormed_intToHex hm
    have hwritten := written_of_addressed constants_wellFormed wellformed_empty contents_empty
      (all_of_mem_trace hR hcs h) hm
    exact hwritten.all wellFormed_intToHex
  refine ⟨_, hfound, ?_⟩
  have hbytes : (fun m => (encodeFor cs R.writeString m c).1) = toByteArray R.writeString := by
    ext m
    rw [encodeFor_of_websocket hc]
  rw [sent_eq, hbytes, List.filter_map, List.map_map]
  refine List.map_congr_left fun m hm => ?_
  obtain ⟨hm, harray⟩ := List.mem_filter.mp hm
  rw [Function.comp_apply, messagebody.deserializeBinary_of_readByPages
    (readByPages_writeString hR) (of_decide_eq_true harray),
    Model.map_replaceUnpaired_eq_iff.mpr (hall m hm)]

end WellFormed

/-- **A watch receives the frames of what the server has addressed to it**, whatever the order in
which broadcasts serve their members. -/
theorem watches_receive (is : List (Input C)) {c : C} (hc : Channel.server c = .socket) :
    ((network cs R).exec .empty is).sent cs R c =
      ((addressed c .empty ((refinement cs R).trace .empty is)).map fun m =>
        cs.encode (encode m).1).filter fun bs => IsArray bs := by
  have hbytes : (fun m => (encodeFor cs R.writeString m c).1) =
      fun m => cs.encode (encode m).1 := by
    ext m
    rw [encodeFor_of_socket hc]
  rw [sent_eq, hbytes, map_encode_of_found cs.encode (found_of_inputs cs R is c)]

section Clients

open Java (latin1)

theorem wellFormed_latin1 (bs : List UInt8) : WellFormed (latin1.decode bs) :=
  Protobuf.isWellFormed_latin1 bs

theorem pageAndWatch_all : ∀ i ∈ pageAndWatch, i.arrival.All WellFormed := by
  intro i hi
  simp only [pageAndWatch, List.mem_cons, List.not_mem_nil, or_false] at hi
  rcases hi with rfl | rfl | rfl
  all_goals exact constants_wellFormed.nil

theorem pages_read_pageAndWatch : ∃ found,
    List.Forall₂ Found (addressed (Client.page 0) .empty
        ((refinement latin1 Raw.runtime).trace .empty pageAndWatch)) found ∧
      (((network latin1 Raw.runtime).exec .empty pageAndWatch).sent latin1 Raw.runtime
          (Client.page 0)).map (messagebody.deserializeBinary 10) =
        (found.filter fun m => IsArray (toByteArray Raw.runtime.writeString m)).map
          fun m => some (.ok m) :=
  pages_read Raw.runtime_lawful wellFormed_latin1 pageAndWatch_all rfl

theorem watches_receive_pageAndWatch :
    ((network latin1 Raw.runtime).exec .empty pageAndWatch).sent latin1 Raw.runtime
        (Client.watch 0) =
      ((addressed (Client.watch 0) .empty
          ((refinement latin1 Raw.runtime).trace .empty pageAndWatch)).map
        fun m => latin1.encode (encode m).1).filter fun bs => IsArray bs :=
  watches_receive pageAndWatch rfl

end Clients

end NettyTcpWeb
