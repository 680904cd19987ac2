import NettyTcpWeb.Library.Jspb
import NettyTcpWeb.Wire.Message

/-!
# The pages

A page holds its messages in the generated class `proto.messagebody`, which writes and reads the
fields that the server knows. What the server writes is read back by every page. What a page writes
is what the server would write if the texts are well formed; if they are not, the page drops
characters where the server puts question marks, or writes bytes that the server refuses.

## Main definitions

* `messagebody.serializeBinary`, `messagebody.deserializeBinary`: the generated class
* `messagebody.send`: the message that the form of the page sends

## Main results

* `deserializeBinary_toByteArray`: **a page reads what the server writes**
* `deserializeBinary_serializeBinary`: what a page reads of what a page writes
* `serializeBinary_eq_iff`: **page and server write the same** if all texts are well formed
* `parseFrom_serializeBinary_iff`: **what the server reads of what a page writes**
-/

namespace NettyTcpWeb

open Java (Text lit)
open Protobuf

/-- A writer of string fields whose fields a page reads back as `g` of their texts. -/
structure ReadByPages (write : Nat → Text → List UInt8) (g : Text → Text) : Prop where
  nil : g [] = []
  reads : ∀ n ∈ Model.numbers, ∀ s rest, IsArray (write n s) → ∃ content,
    Jspb.nextField (write n s ++ rest) = .ok (some (n, 2), content) ∧
      Jspb.readString 2 content = .ok (g s, rest)

theorem reads_of_codePoints {n : Nat} (hn : n ∈ Model.numbers) {ns : List Nat}
    (hns : ∀ m ∈ ns, m < 0x110000) (hlen : IsArray (utf8CodePoints ns)) (rest : List UInt8) :
    ∃ content,
      Jspb.nextField (varint (n * 8 + 2) ++ (varint (utf8CodePoints ns).length ++
        utf8CodePoints ns) ++ rest) = .ok (some (n, 2), content) ∧
      Jspb.readString 2 content = .ok (ofCodePoints ns, rest) := by
  have hle := Model.le_of_mem_numbers hn
  have htag : ∀ bs, Jspb.nextField (varint (n * 8 + 2) ++ bs) = .ok (some (n, 2), bs) :=
    Jspb.nextField_varint (by omega) (by omega)
  rw [List.append_assoc, List.append_assoc]
  exact ⟨_, htag _, Jspb.readString_append hns (Nat.lt_succ_of_le hlen) rest⟩

/-- A page reads the fields of the server. -/
theorem readByPages_writeString {U : Type} {R : Runtime U} (hR : R.Lawful) :
    ReadByPages R.writeString replaceUnpaired where
  nil := rfl
  reads n hn s rest hlen := by
    have hle := Model.le_of_mem_numbers hn
    rw [hR.writeString_eq (by omega)] at hlen ⊢
    have hutf8 := isArray_utf8 hlen
    rw [utf8_eq] at hutf8
    rw [stringField, utf8_eq]
    exact reads_of_codePoints hn (fun m hm => (isScalar_of_mem_codePoints hm).1) hutf8 rest

/-- A page reads the fields of a page. -/
theorem readByPages_jspb : ReadByPages Jspb.writeString Jspb.dropUnpaired where
  nil := rfl
  reads n hn s rest hlen := by
    simp only [IsArray, Jspb.writeString, List.length_append] at hlen
    rw [Jspb.writeString, Jspb.encodeString_eq, ← Jspb.ofCodePoints_codePoints]
    rw [Jspb.encodeString_eq] at hlen
    exact reads_of_codePoints hn (fun m hm => Jspb.lt_of_mem_codePoints hm)
      (show _ ≤ _ by omega) rest

namespace messagebody

/-! ## The generated class -/

/-- `proto.messagebody.prototype.serializeBinary()`. -/
def serializeBinary (m : Model) : List UInt8 := toByteArray Jspb.writeString m

/-- `proto.messagebody.deserializeBinaryFromReader(msg, reader)` for at most `rounds` rounds of its
loop: the reader has a block of `bytes`, and the ones that are left. -/
def deserializeBinaryFromReader (bytes : List UInt8) :
    Nat → Model → List UInt8 → Option (Except WireError Model)
  | 0, _, _ => none
  | rounds + 1, msg, rest =>
    match Jspb.nextField rest with
    | .error e => some (.error e)
    | .ok (none, _) => some (.ok msg)
    | .ok (some (field, wireType), rest) =>
      if wireType = 4 then some (.ok msg)
      else
        match Model.setter (field * 8 + 2) with
        | some set =>
          match Jspb.readString wireType rest with
          | .error e => some (.error e)
          | .ok (value, rest) => deserializeBinaryFromReader bytes rounds (set value msg) rest
        | none =>
          match Jspb.skipField bytes field wireType rest with
          | .error e => some (.error e)
          | .ok ((), rest) => deserializeBinaryFromReader bytes rounds msg rest

/-- `proto.messagebody.deserializeBinary(bytes)` for at most `rounds` fields; `none` if there are
more. -/
def deserializeBinary (rounds : Nat) (bytes : List UInt8) : Option (Except WireError Model) :=
  deserializeBinaryFromReader bytes rounds {} bytes

/-- `send(message, deviceid, receiver, body)` of the page: the message that is written. -/
def send (message deviceid receiver body : Text) : Model where
  factory := lit "3G"
  deviceId := deviceid
  length := lit "0009"
  type := message
  body := body
  sender := deviceid
  receiver := receiver

/-! ## What a page reads -/

section Read

variable {write : Nat → Text → List UInt8} {g : Text → Text} (h : ReadByPages write g)

include h

/-- String fields are set one after the other. -/
theorem deserializeBinaryFromReader_writeStrings {fs : List (Nat × Text)}
    (hnum : ∀ f ∈ fs, f.1 ∈ Model.numbers) (hs : IsArray (writeStrings write fs)) {rounds : Nat}
    (hrounds : fs.length < rounds) (bytes : List UInt8) (msg : Model) :
    deserializeBinaryFromReader bytes rounds msg (writeStrings write fs) =
      some (.ok (Model.setAll g fs msg)) := by
  induction fs generalizing rounds msg with
  | nil =>
    obtain ⟨rounds, rfl⟩ : ∃ k, rounds = k + 1 := ⟨rounds - 1, by omega⟩
    rfl
  | cons f fs ih =>
    obtain ⟨rounds, rfl⟩ : ∃ k, rounds = k + 1 := ⟨rounds - 1, by omega⟩
    obtain ⟨hn, hnum⟩ := List.forall_mem_cons.mp hnum
    obtain ⟨hfront, hback⟩ := isArray_of_writeStrings hs
    obtain ⟨content, hnext, hread⟩ := h.reads f.1 hn f.2 (writeStrings write fs) hfront
    obtain ⟨set, hset⟩ := Option.isSome_iff_exists.mp (Model.setter_isSome_of_mem hn)
    have hset' : set (g f.2) msg = msg.set (f.1, g f.2) := by
      rw [Model.set, hset]
      rfl
    rw [List.length_cons] at hrounds
    rw [writeStrings_cons, deserializeBinaryFromReader, hnext]
    simp only [hset, hread, hset']
    exact ih hnum hback (by omega) _

theorem deserializeBinary_of_readByPages {m : Model} (hs : IsArray (toByteArray write m)) :
    deserializeBinary 10 (toByteArray write m) = some (.ok (m.map g)) := by
  have hlen : m.fields.length < 10 := by
    refine Nat.lt_succ_of_le ((List.length_filter_le _ _).trans ?_)
    rw [List.length_map]
    exact le_rfl
  rw [toByteArray_eq] at hs ⊢
  rw [deserializeBinary, deserializeBinaryFromReader_writeStrings h
    (fun f hf => Model.mem_numbers_of_mem_fields hf) hs hlen, Model.setAll_fields_default h.nil]

end Read

section Server

variable {U : Type} {R : Runtime U} (hR : R.Lawful)

include hR

/-- **A page reads what the server writes**, with a question mark for each unpaired surrogate. -/
theorem deserializeBinary_toByteArray {m : Model} (hs : IsArray (toByteArray R.writeString m)) :
    deserializeBinary 10 (toByteArray R.writeString m) = some (.ok (m.map replaceUnpaired)) ∧
      (deserializeBinary 10 (toByteArray R.writeString m) = some (.ok m) ↔
        ∀ n ∈ Model.numbers, isWellFormed (m.get n) = true) := by
  have hread := deserializeBinary_of_readByPages (readByPages_writeString hR) hs
  refine ⟨hread, ?_⟩
  rw [hread, Option.some.injEq, Except.ok.injEq]
  exact Model.map_replaceUnpaired_eq_iff

end Server

theorem deserializeBinary_toByteArray_emoji :
    deserializeBinary 10 (toByteArray Raw.runtime.writeString WatchMessageBodyProto.emoji.model) =
        some (.ok (WatchMessageBodyProto.emoji.model.map replaceUnpaired)) ∧
      (deserializeBinary 10
          (toByteArray Raw.runtime.writeString WatchMessageBodyProto.emoji.model) =
            some (.ok WatchMessageBodyProto.emoji.model) ↔
        ∀ n ∈ Model.numbers, isWellFormed (WatchMessageBodyProto.emoji.model.get n) = true) :=
  deserializeBinary_toByteArray Raw.runtime_lawful (by decide)

/-! ## What a page writes -/

/-- **What a page reads of what a page writes**: the text without the surrogates that the encoder
drops. -/
theorem deserializeBinary_serializeBinary {m : Model} (hs : IsArray (serializeBinary m)) :
    deserializeBinary 10 (serializeBinary m) = some (.ok (m.map Jspb.dropUnpaired)) ∧
      (deserializeBinary 10 (serializeBinary m) = some (.ok m) ↔
        ∀ n ∈ Model.numbers, Jspb.dropUnpaired (m.get n) = m.get n) := by
  have hread := deserializeBinary_of_readByPages readByPages_jspb hs
  refine ⟨hread, ?_⟩
  rw [serializeBinary, hread, Option.some.injEq, Except.ok.injEq]
  constructor
  · intro h n hn
    rw [← Model.get_map Jspb.dropUnpaired hn, h]
  · intro h
    apply Model.ext_get
    intro n hn
    rw [Model.get_map _ hn, h n hn]

/-- A text between two halves of an emoji. -/
def halves : Model := send (lit "TK") (lit "1") (lit "2") [0xD83D, 0x61, 0xD83D]

theorem deserializeBinary_serializeBinary_halves :
    deserializeBinary 10 (serializeBinary halves) = some (.ok (halves.map Jspb.dropUnpaired)) ∧
      (deserializeBinary 10 (serializeBinary halves) = some (.ok halves) ↔
        ∀ n ∈ Model.numbers, Jspb.dropUnpaired (halves.get n) = halves.get n) :=
  deserializeBinary_serializeBinary (by decide)

/-- Nothing is read differently from the fields of a page and from those of the server only if the
text is well formed. -/
theorem isWellFormed_of_dropUnpaired_eq {s : Text} (h : Jspb.dropUnpaired s = replaceUnpaired s) :
    isWellFormed s = true := by
  have hlen := length_replaceUnpaired s
  rw [← h] at hlen
  rw [← replaceUnpaired_eq_iff, ← h]
  exact (Jspb.dropUnpaired_sublist s).eq_of_length hlen

/-- Well-formed texts are written as the server writes them. -/
theorem writeStrings_of_isWellFormed {fs : List (Nat × Text)}
    (h : ∀ f ∈ fs, isWellFormed f.2 = true) :
    writeStrings Jspb.writeString fs = writeStrings stringField fs := by
  refine List.flatMap_congr fun f hf => ?_
  rw [Jspb.writeString, stringField, Jspb.encodeString_eq_iff.mpr (h f hf)]

theorem isWellFormed_of_mem_fields {m : Model}
    (h : ∀ n ∈ Model.numbers, isWellFormed (m.get n) = true) :
    ∀ f ∈ m.fields, isWellFormed f.2 = true :=
  (Model.forall_mem_fields_iff (P := fun s => isWellFormed s = true) rfl).mpr h

variable {U : Type} {R : Runtime U}

/-- **Page and server write the same** exactly if all texts are well formed. -/
theorem serializeBinary_eq_iff (hR : R.Lawful) {m : Model} (hs : IsArray (serializeBinary m)) :
    serializeBinary m = toByteArray R.writeString m ↔
      ∀ n ∈ Model.numbers, isWellFormed (m.get n) = true := by
  constructor
  · intro h n hn
    have hpage := deserializeBinary_of_readByPages readByPages_jspb hs
    have hserver := deserializeBinary_of_readByPages (readByPages_writeString hR) (h ▸ hs)
    rw [← h] at hserver
    have hmap := Except.ok.inj (Option.some.inj (hpage.symm.trans hserver))
    have hget := congrArg (fun m => Model.get m n) hmap
    simp only [Model.get_map _ hn] at hget
    exact isWellFormed_of_dropUnpaired_eq hget
  · intro h
    rw [WatchMessageBodyProto.toByteArray_eq_writeStrings hR, serializeBinary, toByteArray_eq,
      writeStrings_of_isWellFormed (isWellFormed_of_mem_fields h)]

theorem serializeBinary_eq_iff_halves :
    serializeBinary halves = toByteArray Raw.runtime.writeString halves ↔
      ∀ n ∈ Model.numbers, isWellFormed (halves.get n) = true :=
  serializeBinary_eq_iff Raw.runtime_lawful (by decide)

open WatchMessageBodyProto (parseField parseFrom)

section Lawful

variable (hR : R.Lawful)

include hR

/-- The server reads a field of a page exactly if the text that is left is well formed. -/
theorem parseField_jspb_iff {message next : WatchMessageBodyProto U} {n : Nat}
    (hn : n ∈ Model.numbers) {s : Text} (hs : IsArray (Jspb.encodeString s))
    {rest rest' : List UInt8} : parseField R (n * 8 + 2) message
        (varint (Jspb.encodeString s).length ++ (Jspb.encodeString s ++ rest)) =
      .ok ((true, next), rest') ↔
        isWellFormed (Jspb.dropUnpaired s) = true ∧ rest' = rest ∧
          next = { message with model := message.model.set (n, Jspb.dropUnpaired s) } := by
  obtain ⟨set, hset⟩ := Option.isSome_iff_exists.mp (Model.setter_isSome_of_mem hn)
  have hset' : set (Jspb.dropUnpaired s) message.model =
      message.model.set (n, Jspb.dropUnpaired s) := by
    rw [Model.set, hset]
    rfl
  have hlen : (Jspb.encodeString s).length < 0x80000000 := Nat.lt_succ_of_le hs
  rw [WatchMessageBodyProto.parseField_of_some hset, Reader.bind_apply,
    ← Jspb.isScalar_codePoints_iff]
  cases hd : decodeUtf8 (Jspb.encodeString s) with
  | none =>
    obtain ⟨e, he⟩ := hR.readString_malformed hlen hd rest
    rw [he]
    refine iff_of_false ?_ fun h => ?_
    · rintro ⟨⟩
    · rw [Jspb.decodeUtf8_encodeString_iff.mpr ⟨h.1, rfl⟩] at hd
      cases hd
  | some t =>
    rw [hR.readString_valid hlen hd rest]
    obtain ⟨hscalar, rfl⟩ := Jspb.decodeUtf8_encodeString_iff.mp hd
    simp only [Reader.pure_apply, Except.ok.injEq, Prod.mk.injEq, true_and, hset']
    exact ⟨fun h => ⟨hscalar, h.2.symm, h.1.symm⟩, fun h => ⟨h.2.2.symm, h.2.1.symm⟩⟩

/-- The fields of a page are set one after the other, if the text that is left of each is well
formed. -/
theorem fields_jspb_iff {fs : List (Nat × Text)} (hnum : ∀ f ∈ fs, f.1 ∈ Model.numbers)
    (hs : IsArray (writeStrings Jspb.writeString fs)) {message last : WatchMessageBodyProto U} :
    Fields R (parseField R) message (writeStrings Jspb.writeString fs) last ↔
      (∀ f ∈ fs, isWellFormed (Jspb.dropUnpaired f.2) = true) ∧
        last = { message with model := Model.setAll Jspb.dropUnpaired fs message.model } := by
  induction fs generalizing message with
  | nil =>
    constructor
    · exact fun h => ⟨nofun, h.eq_of_nil hR.toReadsTags⟩
    · rintro ⟨-, rfl⟩
      exact .nil _
  | cons f fs ih =>
    obtain ⟨n, s⟩ := f
    obtain ⟨hn, hnum⟩ := List.forall_mem_cons.mp hnum
    obtain ⟨hfront, hback⟩ := isArray_of_writeStrings hs
    have hle := Model.le_of_mem_numbers hn
    have hstring : IsArray (Jspb.encodeString s) := by
      simp only [IsArray, Jspb.writeString, List.length_append] at hfront ⊢
      omega
    have htag : ∀ bs, R.readTag (varint (n * 8 + 2) ++ bs) = .ok (n * 8 + 2, bs) :=
      hR.readTag_varint (by omega) (by omega)
    rw [writeStrings_cons, Jspb.writeString, List.append_assoc, List.append_assoc,
      Fields.cons_iff hR.toReadsTags (Nat.succ_ne_zero _) (htag _), List.forall_mem_cons]
    constructor
    · rintro ⟨next, rest, hfield, hrest⟩
      obtain ⟨hwell, rfl, rfl⟩ := (parseField_jspb_iff hR hn hstring).mp hfield
      obtain ⟨hwells, rfl⟩ := (ih hnum hback).mp hrest
      exact ⟨⟨hwell, hwells⟩, rfl⟩
    · rintro ⟨⟨hwell, hwells⟩, rfl⟩
      exact ⟨_, _, (parseField_jspb_iff hR hn hstring).mpr ⟨hwell, rfl, rfl⟩,
        (ih hnum hback).mpr ⟨hwells, rfl⟩⟩

/-- **What the server reads of what a page writes**: it accepts the message exactly if no text has
an unpaired surrogate but those that the page drops, and reads what is left. -/
theorem parseFrom_serializeBinary_iff {m : Model} (hs : IsArray (serializeBinary m))
    {message : WatchMessageBodyProto U} : parseFrom R (serializeBinary m) = .ok message ↔
      (∀ n ∈ Model.numbers, isWellFormed (Jspb.dropUnpaired (m.get n)) = true) ∧
        message = ⟨m.map Jspb.dropUnpaired, R.noUnknownFields⟩ := by
  rw [WatchMessageBodyProto.parseFrom_eq_ok_iff hR]
  rw [serializeBinary, toByteArray_eq] at hs ⊢
  rw [fields_jspb_iff hR (fun f hf => Model.mem_numbers_of_mem_fields hf) hs,
    Model.forall_mem_fields_iff (P := fun s => isWellFormed (Jspb.dropUnpaired s) = true) rfl,
    WatchMessageBodyProto.defaultInstance, Model.setAll_fields_default readByPages_jspb.nil]

end Lawful

end messagebody

end NettyTcpWeb
