import NettyTcpWeb.Message.Frame

/-!
# The watch codec on a connection

A connection to a watch carries a stream of frames. `WatchEncode` writes a message as a frame; the
delimiter decoder cuts the stream at every `]`, and `WatchDecoder` turns each piece into a message.
The bytes that `decode` leaves unread are kept by `ByteToMessageDecoder` and put in front of the
next piece.

## Main definitions

* `encode`: `WatchEncode.encode`
* `ByteBuf`, `decode`, `channelRead`: a buffer, `WatchDecoder.decode`, and its pipeline step
* `decodeAll`, `decodeFresh`: the messages of a sequence of pieces, and of one piece on a fresh
  connection
* `pieces`: the delimiter decoder

## Main results

* `decodeAll_of_long`: without short pieces every piece is decoded as on a fresh connection
* `decodeAll_stream`: a stream of encoded messages is decoded into these messages
* `decodeAll_isolated_iff`: pieces disturb no later piece exactly if none has one to three bytes
-/

namespace NettyTcpWeb

open Java (Text Unit16 Exception Charset latin1 ch lit isNotBlank isNotEmpty)

/-! ## The encoder -/

/-- The device a message is written for: its receiver, if it has one. -/
def target (message : Model) : Text :=
  if isNotEmpty (some message.receiver) then message.receiver else message.deviceId

/-- `WatchEncode.encode` on a builder: the written text, and the builder with its device and length
set. -/
def encode (message : Model) : Text × Model :=
  sendWatchData { message with deviceId := target message }

/-! ## The decoder -/

/-- A `ByteBuf` with its reader index at the front: the bytes up to the writer index, which never
lies beyond the capacity. -/
structure ByteBuf where
  readable : List UInt8
  capacity : Nat
  readable_le : readable.length ≤ capacity

/-- `WatchDecoder.decode`: the bytes it leaves unread, and the message it hands on, if any. -/
def decode (cs : Charset) (buf : ByteBuf) : List UInt8 × Except Exception (Option Model) :=
  if buf.readable.length < 4 then (buf.readable, .ok none)
  -- `readBytes` fills an array of the capacity's size, and raises before it reads too few bytes
  else if buf.readable.length < buf.capacity then (buf.readable, .error .indexOutOfBounds)
  else (buf.readable.drop buf.capacity, do
    let message := cs.decode (buf.readable.take buf.capacity)
    let data ← filterData (Java.trim (message ++ [delimiter]))
    let receiveAnalyticData ← receiveAnalyticData data
    return some receiveAnalyticData)

/-- A piece as `ByteToMessageDecoder` hands it to `decode`. A piece of its own is a slice of exactly
its size; behind unread bytes it is copied into a buffer with `slack` unused bytes. -/
def cumulate (unread piece : List UInt8) (slack : Nat) : ByteBuf :=
  if unread = [] then ⟨piece, piece.length, le_rfl⟩
  else ⟨unread ++ piece, (unread ++ piece).length + slack, Nat.le_add_right _ _⟩

/-- `ByteToMessageDecoder.channelRead`: the unread bytes behind the piece, and the message handed to
the next handler. An exception of `decode` ends the round and hands on nothing. -/
def channelRead (cs : Charset) (unread piece : List UInt8) (slack : Nat) :
    List UInt8 × Option Model :=
  let buf := cumulate unread piece slack
  if buf.readable = [] then ([], none)
  else
    match decode cs buf with
    | (rest, .ok message) => (rest, message)
    | (rest, .error _) => (rest, none)

/-- What each piece of a connection hands on; a piece comes with the slack of its buffer. -/
def decodeAll (cs : Charset) : List UInt8 → List (List UInt8 × Nat) → List (Option Model)
  | _, [] => []
  | unread, (piece, slack) :: rest =>
    (channelRead cs unread piece slack).2 ::
      decodeAll cs (channelRead cs unread piece slack).1 rest

/-- What one piece hands on as the first of a connection. -/
def decodeFresh (cs : Charset) (piece : List UInt8) : Option Model := (channelRead cs [] piece 0).2

/-- `DelimiterBasedFrameDecoder`: the pieces in front of each delimiter. -/
def pieces (text : Text) : List Text := (text.splitOn delimiter).dropLast

/-! ## Connections without short pieces -/

section Unread

variable {cs : Charset} {piece : List UInt8}

/-- A fresh piece has no room for slack. -/
theorem channelRead_nil (slack : Nat) : channelRead cs [] piece slack = channelRead cs [] piece 0 :=
  rfl

/-- A piece of at least four bytes is read to its end, whatever it contains. -/
theorem channelRead_long (cs : Charset) (h : 4 ≤ piece.length) :
    (channelRead cs [] piece 0).1 = [] := by
  have hne : piece ≠ [] := List.ne_nil_of_length_pos (by omega)
  have hdecode : (decode cs (cumulate [] piece 0)).1 = [] := by
    rw [cumulate, if_pos rfl, decode, if_neg (by simp only; omega), if_neg (by simp)]
    simp
  unfold channelRead
  simp only
  rw [if_neg (by simpa [cumulate] using hne)]
  split <;> rename_i heq <;> rw [heq] at hdecode <;> exact hdecode

theorem channelRead_empty : channelRead cs [] [] 0 = ([], none) := rfl

/-- **Without short pieces** every piece is decoded as on a fresh connection. -/
theorem decodeAll_of_long {ds : List (List UInt8 × Nat)}
    (h : ∀ d ∈ ds.dropLast, d.1 = [] ∨ 4 ≤ d.1.length) :
    decodeAll cs [] ds = ds.map fun d => decodeFresh cs d.1 := by
  induction ds with
  | nil => rfl
  | cons d ds ih =>
    obtain ⟨piece, slack⟩ := d
    rw [decodeAll, channelRead_nil, List.map_cons, decodeFresh]
    cases ds with
    | nil => rfl
    | cons d' ds =>
      have hunread : (channelRead cs [] piece 0).1 = [] := by
        rcases h (piece, slack) (by simp) with hp | hp
        · rw [show piece = [] from hp, channelRead_empty]
        · exact channelRead_long cs hp
      rw [hunread, ih fun d hd => h d (by simp [List.dropLast_cons_of_ne_nil, hd])]

/-- A short piece stays unread. -/
theorem channelRead_short (hne : piece ≠ []) (h : piece.length < 4) :
    channelRead cs [] piece 0 = (piece, none) := by
  unfold channelRead
  simp only
  rw [if_neg (by simpa [cumulate] using hne), decode, if_pos (by simpa [cumulate] using h)]
  simp [cumulate]

/-- Behind unread bytes, a buffer with slack is never read. -/
theorem channelRead_slack {unread : List UInt8} (hne : unread ≠ []) (slack : Nat) :
    channelRead cs unread piece (slack + 1) = (unread ++ piece, none) := by
  have hbuf : (cumulate unread piece (slack + 1)).readable = unread ++ piece := by
    rw [cumulate, if_neg hne]
  have hcap : (cumulate unread piece (slack + 1)).readable.length <
      (cumulate unread piece (slack + 1)).capacity := by
    rw [cumulate, if_neg hne]
    simp only
    omega
  unfold channelRead
  simp only
  rw [if_neg (by rw [hbuf]; simp [hne]), decode]
  split_ifs <;> simp [hbuf]

/-- Behind a short piece, the last piece of a connection hands on nothing, however long the
connection is: its buffers may always have slack. -/
theorem getLast?_decodeAll_slack (cs : Charset) (g : List UInt8) :
    ∀ (fs : List (List UInt8)) (unread : List UInt8),
      (unread ≠ [] ∨ ∃ f ∈ fs, f ≠ [] ∧ f.length < 4) →
        (decodeAll cs unread ((fs ++ [g]).map fun f => (f, 1))).getLast? = some none := by
  intro fs
  induction fs with
  | nil =>
    intro unread h
    have hne : unread ≠ [] := h.resolve_right (by simp)
    simp [decodeAll, channelRead_slack hne]
  | cons f fs ih =>
    intro unread h
    rw [List.cons_append, List.map_cons, decodeAll]
    have hrest : (channelRead cs unread f 1).1 ≠ [] ∨ ∃ f ∈ fs, f ≠ [] ∧ f.length < 4 := by
      by_cases hne : unread = []
      · subst hne
        obtain ⟨f', hmem, hf', hlen⟩ := h.resolve_left (by simp)
        rcases List.mem_cons.mp hmem with rfl | hmem
        · exact .inl (by rwa [channelRead_nil, channelRead_short hf' hlen])
        · exact .inr ⟨f', hmem, hf', hlen⟩
      · exact .inl (by simp [channelRead_slack hne, hne])
    rw [List.getLast?_cons, ih _ hrest]
    rfl

end Unread

/-! ## Streams of encoded messages -/

/-- A message the encoder writes as a frame: its fields are clean and it has a target. -/
def Sendable (m : Model) : Prop := Printable { m with deviceId := target m }

instance (m : Model) : Decidable (Sendable m) := inferInstanceAs (Decidable (Printable _))

/-- The text on the wire: every message behind some text of its own. -/
def stream (ps : List (Text × Model)) : Text := ps.flatMap fun p => p.1 ++ (encode p.2).1

/-- The piece of the stream that ends with a given frame. -/
def Frame.piece (F : Frame) (g : Text) : Text := g ++ ch '[' :: F.inner

theorem Frame.piece_text (F : Frame) (g : Text) : F.piece g ++ [ch ']'] = g ++ F.text := by
  simp [Frame.piece, Frame.text]

theorem Frame.delimiter_not_mem_piece (F : Frame) {g : Text} (hg : ch ']' ∉ g) :
    ch ']' ∉ F.piece g := by
  rw [Frame.piece, List.mem_append, List.mem_cons]
  rintro (h | h | h)
  · exact hg h
  · exact absurd h (by decide)
  · exact F.delimiter_not_mem_inner h

/-- The delimiter decoder cuts behind a frame. -/
theorem Frame.pieces_append (F : Frame) {g : Text} (hg : ch ']' ∉ g) (rest : Text) :
    pieces (g ++ F.text ++ rest) = F.piece g :: pieces rest := by
  have hcut : g ++ F.text ++ rest = F.piece g ++ delimiter :: rest := by
    rw [← F.piece_text, List.append_assoc, List.singleton_append, delimiter]
  have hfree : delimiter ∉ F.piece g := F.delimiter_not_mem_piece hg
  rw [pieces, hcut, List.splitOn_append_cons_self_of_not_mem hfree,
    List.dropLast_cons_of_ne_nil (List.splitOn_ne_nil _ _), pieces]

theorem Frame.four_le_length_piece (F : Frame) (g : Text) : 4 ≤ (F.piece g).length := by
  simp only [Frame.piece, Frame.inner, joinContent, Frame.head, joinFields, List.length_append,
    List.length_cons]
  omega

/-- **A piece that ends with a frame** is decoded into the message of the frame, whatever stands in
front of it. -/
theorem Frame.decodeFresh_piece (F : Frame) {cs : Charset} {g : Text} (hg : ch '[' ∉ g)
    (hg' : ch ']' ∉ g) (hcs : cs.Carries (F.piece g)) :
    decodeFresh cs (cs.encode (F.piece g)) = some F.message := by
  have hlen : 4 ≤ (cs.encode (F.piece g)).length := (F.four_le_length_piece g).trans hcs.2
  have hne : cs.encode (F.piece g) ≠ [] := List.ne_nil_of_length_pos (by omega)
  have htrim : Java.trim (F.piece g ++ [delimiter]) =
      g.dropWhile Java.isTrimmed ++ F.text := by
    rw [Frame.piece, List.append_assoc, List.cons_append,
      Java.trim_append_cons_concat (by decide) (by decide), Frame.text, delimiter]
  have hfilter : filterData (g.dropWhile Java.isTrimmed ++ F.text) = .ok F.text :=
    filterData_append (fun h => hg ((List.dropWhile_sublist _).subset h))
      (fun h => hg' ((List.dropWhile_sublist _).subset h)) F.delimiter_not_mem_inner
  unfold decodeFresh channelRead
  simp only
  rw [if_neg (by simpa [cumulate] using hne), cumulate, if_pos rfl, decode,
    if_neg (by simp only; omega), if_neg (by simp)]
  simp only [List.take_length]
  rw [hcs.1, htrim, hfilter]
  simp only [bind, Except.bind, F.receiveAnalyticData_text, pure, Except.pure]

/-- The encoder writes the frame of a sendable message. -/
theorem encode_frame {m : Model} (h : Sendable m) : (encode m).1 = (Printable.frame h).text :=
  sendWatchData_frame h

/-- **A stream of encoded messages** is decoded into these messages, in order and each once,
whatever text stands between the frames. -/
theorem decodeAll_stream {cs : Charset} {ps : List (Text × Model)}
    (hg : ∀ p ∈ ps, ch '[' ∉ p.1 ∧ ch ']' ∉ p.1) (hm : ∀ p ∈ ps, Sendable p.2)
    (hcs : ∀ piece ∈ pieces (stream ps), cs.Carries piece) :
    (decodeAll cs [] ((pieces (stream ps)).map fun piece => (cs.encode piece, 0))).map
        (Option.map fun m => (m.factory, m.deviceId, m.type, m.body)) =
      ps.map fun p => some (printedFactory p.2, target p.2, p.2.type, printedBody p.2) := by
  induction ps with
  | nil => rfl
  | cons p ps ih =>
    obtain ⟨g, m⟩ := p
    obtain ⟨hgo, hgc⟩ := hg (g, m) (by simp)
    have hsend : Sendable m := hm (g, m) (by simp)
    have hcut : pieces (stream ((g, m) :: ps)) =
        (Printable.frame hsend).piece g :: pieces (stream ps) := by
      rw [← Frame.pieces_append _ hgc, ← encode_frame]
      rfl
    rw [hcut] at hcs ⊢
    have hcarry := hcs _ (List.mem_cons_self ..)
    have hread := (Printable.frame hsend).decodeFresh_piece hgo hgc hcarry
    have hunread := channelRead_long cs
      (((Printable.frame hsend).four_le_length_piece g).trans hcarry.2)
    rw [decodeFresh] at hread
    rw [List.map_cons, decodeAll, hunread, hread, List.map_cons,
      ih (fun p hp => hg p (List.mem_cons_of_mem _ hp))
        (fun p hp => hm p (List.mem_cons_of_mem _ hp))
        (fun piece hp => hcs piece (List.mem_cons_of_mem _ hp))]
    rfl

/-- A heartbeat to one watch, and a message to another whose body looks like a frame. -/
theorem decodeAll_stream_two :
    (decodeAll latin1 [] ((pieces (stream
        [(lit " x\n", { deviceId := lit "1", type := lit "LK" }),
          ([], { receiver := lit "2", type := lit "TK", body := lit "[3G*,," })])).map
            fun piece => (latin1.encode piece, 0))).map
        (Option.map fun m => (m.factory, m.deviceId, m.type, m.body)) =
      [some (lit "3G", lit "1", lit "LK", []),
        some (lit "3G", lit "2", lit "TK", lit "[3G*,,")] :=
  decodeAll_stream (by decide) (by decide) (by decide)

/-! ## Isolation of pieces -/

/-- A piece that does not contain the bytes of the delimiter. -/
def DelimiterFree (cs : Charset) (piece : List UInt8) : Prop := ¬ cs.encode [delimiter] <:+: piece

/-- The pieces `fs` disturb no later piece: whatever piece comes next and however large the buffers
are, every piece hands on what it hands on as the first of a connection. -/
def Isolated (cs : Charset) (fs : List (List UInt8)) : Prop :=
  ∀ g, DelimiterFree cs g → ∀ ds : List (List UInt8 × Nat), ds.map Prod.fst = fs ++ [g] →
    decodeAll cs [] ds = ds.map fun d => decodeFresh cs d.1

/-- **Pieces disturb no later piece** exactly if none of them has one to three bytes, on a charset
in which some piece is a frame at all. -/
theorem decodeAll_isolated_iff {cs : Charset} {frame : List UInt8} (hfree : DelimiterFree cs frame)
    (hframe : decodeFresh cs frame ≠ none) (fs : List (List UInt8)) :
    Isolated cs fs ↔ ∀ f ∈ fs, f = [] ∨ 4 ≤ f.length := by
  constructor
  · intro h f hf
    by_contra hshort
    have hlen : f.length < 4 := by omega
    have hlast := getLast?_decodeAll_slack cs frame fs []
      (.inr ⟨f, hf, fun he => hshort (.inl he), hlen⟩)
    rw [h frame hfree _ (by simp [Function.comp_def])] at hlast
    exact hframe (by simpa using hlast)
  · intro h g _ ds hds
    refine decodeAll_of_long fun d hd => h d.1 ?_
    have hmap : ds.dropLast.map Prod.fst = fs := by rw [List.map_dropLast, hds]; simp
    exact hmap ▸ List.mem_map_of_mem hd

/-- The bytes of the frame `[3G*1*0002*LK]` without its delimiter. -/
def linkKeepPiece : List UInt8 := latin1.encode (lit "[3G*1*0002*LK")

theorem linkKeepPiece_delimiterFree : DelimiterFree latin1 linkKeepPiece := by
  intro h
  have hmem : (0x5D : UInt8) ∈ linkKeepPiece := h.subset (by decide)
  exact absurd hmem (by decide)

/-- A piece of two characters in front of a frame, on a one-byte charset. -/
theorem decodeAll_isolated_iff_latin1 :
    Isolated latin1 [latin1.encode (lit "ab")] ↔
      ∀ f ∈ [latin1.encode (lit "ab")], f = [] ∨ 4 ≤ f.length :=
  decodeAll_isolated_iff linkKeepPiece_delimiterFree (by decide) _

/-- **A short piece disturbs the next frame**: in a buffer of 64 bytes the frame is not decoded at
all, and in one of the exact size it is decoded with another factory. -/
theorem decodeAll_short_piece :
    decodeFresh latin1 linkKeepPiece =
        some { factory := lit "3G", deviceId := lit "1", length := lit "0002",
               type := lit "LK" } ∧
      decodeAll latin1 [] [(latin1.encode (lit "ab"), 0), (linkKeepPiece, 49)] = [none, none] ∧
      decodeAll latin1 [] [(latin1.encode (lit "["), 0), (linkKeepPiece, 0)] =
        [none, some { factory := lit "[3G", deviceId := lit "1", length := lit "0002",
                      type := lit "LK" }] ∧
      ¬ Isolated latin1 [latin1.encode (lit "ab")] := by
  refine ⟨by decide, by decide, by decide, fun h => ?_⟩
  have hnext := h linkKeepPiece linkKeepPiece_delimiterFree
    [(latin1.encode (lit "ab"), 0), (linkKeepPiece, 49)] rfl
  exact absurd hnext (by decide)

end NettyTcpWeb
