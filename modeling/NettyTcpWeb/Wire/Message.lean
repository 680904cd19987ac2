import NettyTcpWeb.Library.Raw
import NettyTcpWeb.Server.Broadcast

/-!
# Messages of web pages on the wire

The pages talk protocol buffers: the generated class `WatchMessageBodyProto.Model` writes the fields
that are not empty in the order of their numbers, and reads fields in any order, a later value in
place of an earlier one. So a message is read back as it was written, with a question mark for each
unpaired surrogate; and bytes behind those of a message are merged into it. All of this is the work
of the generated code, over any runtime that obeys its laws.

## Main definitions

* `WatchMessageBodyProto`: the generated class, with the fields that it does not know
* `parseField`, `parseFrom`, `writeTo`, `mergeFrom`, `getSerializedSize`: its methods
* `Model.fields`, `Model.get`, `Model.map`: the nine fields by their numbers

## Main results

* `parseFrom_eq_ok_iff`: what is accepted is a sequence of fields
* `parseFrom_writeTo`: **a message is read back**, with the fields that are unknown
* `parseFrom_lastValue`: fields in any order, each with its last value
* `parseFrom_append`: bytes behind those of a message are merged into it
* `parseFrom_canonical`: **what has been accepted is accepted again** when it is written
* `parseFrom_take_iff`: a part of the bytes of a message is accepted between two fields only
* `getSerializedSize_eq`: the computed size is that of the bytes
-/

namespace NettyTcpWeb

open Java (Text lit)
open Protobuf

/-- The length of a Java array is an `int`. -/
def IsArray (bs : List UInt8) : Prop := bs.length ≤ 0x7FFFFFFF

instance (bs : List UInt8) : Decidable (IsArray bs) := inferInstanceAs (Decidable (_ ≤ _))

/-! ## The fields of a message -/

namespace Model

/-- The value of the field with a number. -/
def get (m : Model) : Nat → Text
  | 1 => m.factory
  | 2 => m.deviceId
  | 3 => m.length
  | 4 => m.type
  | 5 => m.body
  | 6 => m.timeStamp
  | 7 => m.sender
  | 8 => m.receiver
  | 9 => m.groupId
  | _ => []

/-- The setters, by the tags in the switch of the generated constructor. -/
def setter : Nat → Option (Text → Model → Model)
  | 10 => some fun s m => { m with factory := s }
  | 18 => some fun s m => { m with deviceId := s }
  | 26 => some fun s m => { m with length := s }
  | 34 => some fun s m => { m with type := s }
  | 42 => some fun s m => { m with body := s }
  | 50 => some fun s m => { m with timeStamp := s }
  | 58 => some fun s m => { m with sender := s }
  | 66 => some fun s m => { m with receiver := s }
  | 74 => some fun s m => { m with groupId := s }
  | _ => none

/-- The numbers of the fields. -/
def numbers : List Nat := [1, 2, 3, 4, 5, 6, 7, 8, 9]

/-- The fields that are not empty, in the order of their numbers. -/
def fields (m : Model) : List (Nat × Text) :=
  (numbers.map fun n => (n, m.get n)).filter fun f => f.2 ≠ []

/-- The message with a field set; a field that it does not have changes nothing. -/
def set (m : Model) (f : Nat × Text) : Model :=
  ((setter (f.1 * 8 + 2)).elim id fun set => set f.2) m

/-- The message with a function applied to each field. -/
def map (g : Text → Text) (m : Model) : Model where
  factory := g m.factory
  deviceId := g m.deviceId
  length := g m.length
  type := g m.type
  body := g m.body
  timeStamp := g m.timeStamp
  sender := g m.sender
  receiver := g m.receiver
  groupId := g m.groupId

theorem ext_get {m m' : Model} (h : ∀ n ∈ numbers, m.get n = m'.get n) : m = m' := by
  have h1 := h 1 (by decide)
  have h2 := h 2 (by decide)
  have h3 := h 3 (by decide)
  have h4 := h 4 (by decide)
  have h5 := h 5 (by decide)
  have h6 := h 6 (by decide)
  have h7 := h 7 (by decide)
  have h8 := h 8 (by decide)
  have h9 := h 9 (by decide)
  cases m
  cases m'
  simp only [get] at *
  simp_all

theorem le_of_mem_numbers {n : Nat} (h : n ∈ numbers) : 1 ≤ n ∧ n ≤ 9 := by
  revert n
  decide

theorem setter_isSome_of_mem {n : Nat} (h : n ∈ numbers) : (setter (n * 8 + 2)).isSome := by
  revert n
  decide

/-- A tag in the switch is that of a string field. -/
theorem setter_eq_some {tag : Nat} {g : Text → Model → Model} (h : setter tag = some g) :
    ∃ n ∈ numbers, tag = n * 8 + 2 ∧ ∀ s m, g s m = m.set (n, s) := by
  unfold setter at h
  split at h <;> cases h
  · exact ⟨1, by decide, rfl, fun _ _ => rfl⟩
  · exact ⟨2, by decide, rfl, fun _ _ => rfl⟩
  · exact ⟨3, by decide, rfl, fun _ _ => rfl⟩
  · exact ⟨4, by decide, rfl, fun _ _ => rfl⟩
  · exact ⟨5, by decide, rfl, fun _ _ => rfl⟩
  · exact ⟨6, by decide, rfl, fun _ _ => rfl⟩
  · exact ⟨7, by decide, rfl, fun _ _ => rfl⟩
  · exact ⟨8, by decide, rfl, fun _ _ => rfl⟩
  · exact ⟨9, by decide, rfl, fun _ _ => rfl⟩

theorem get_set {m : Model} {k n : Nat} {s : Text} (hk : k ∈ numbers) (hn : n ∈ numbers) :
    (m.set (k, s)).get n = if k = n then s else m.get n := by
  simp only [numbers, List.mem_cons, List.not_mem_nil, or_false] at hk hn
  rcases hk with rfl | rfl | rfl | rfl | rfl | rfl | rfl | rfl | rfl <;>
    rcases hn with rfl | rfl | rfl | rfl | rfl | rfl | rfl | rfl | rfl <;> rfl

theorem get_map {m : Model} {n : Nat} (g : Text → Text) (hn : n ∈ numbers) :
    (m.map g).get n = g (m.get n) := by
  simp only [numbers, List.mem_cons, List.not_mem_nil, or_false] at hn
  rcases hn with rfl | rfl | rfl | rfl | rfl | rfl | rfl | rfl | rfl <;> rfl

end Model

section Strings

variable (write : Nat → Text → List UInt8)

/-- The bytes of string fields with numbers. -/
def writeStrings (fs : List (Nat × Text)) : List UInt8 := fs.flatMap fun f => write f.1 f.2

theorem writeStrings_cons (f : Nat × Text) (fs : List (Nat × Text)) :
    writeStrings write (f :: fs) = write f.1 f.2 ++ writeStrings write fs := List.flatMap_cons

/-- The fields that are not empty, one after the other. -/
theorem writeStrings_filter (fs : List (Nat × Text)) :
    writeStrings write (fs.filter fun f => f.2 ≠ []) =
      fs.flatMap fun f => writeField write f.1 f.2 := by
  induction fs with
  | nil => rfl
  | cons f fs ih =>
    rw [List.flatMap_cons, ← ih, writeField]
    by_cases hf : f.2 = []
    · rw [List.filter_cons_of_neg (by simpa using hf), if_pos hf, List.nil_append]
    · rw [List.filter_cons_of_pos (by simpa using hf), if_neg hf, writeStrings_cons]

theorem toByteArray_eq (m : Model) : toByteArray write m = writeStrings write m.fields := by
  rw [Model.fields, writeStrings_filter]
  simp [toByteArray, Model.numbers, Model.get]

variable {write}

theorem isArray_of_writeStrings {f : Nat × Text} {fs : List (Nat × Text)}
    (h : IsArray (writeStrings write (f :: fs))) :
    IsArray (write f.1 f.2) ∧ IsArray (writeStrings write fs) := by
  simp only [IsArray, writeStrings_cons, List.length_append] at h ⊢
  omega

end Strings

/-- The text of a string field is shorter than its bytes. -/
theorem isArray_utf8 {n : Nat} {s : Text} (h : IsArray (stringField n s)) : IsArray (utf8 s) := by
  simp only [IsArray, stringField, List.length_append] at h ⊢
  omega

namespace Model

/-- The last value of the field with a number, if it occurs. -/
def lastValue (fs : List (Nat × Text)) (n : Nat) : Option Text :=
  (fs.filter fun f => f.1 = n).getLast?.map Prod.snd

theorem lastValue_append_singleton (fs : List (Nat × Text)) (f : Nat × Text) (n : Nat) :
    lastValue (fs ++ [f]) n = if f.1 = n then some f.2 else lastValue fs n := by
  rw [lastValue, List.filter_append]
  split_ifs with hf
  · rw [List.filter_cons_of_pos (by simpa using hf)]
    simp
  · rw [List.filter_cons_of_neg (by simpa using hf)]
    simp [lastValue]

/-- The message with fields set one after the other, each to what `g` makes of its text. -/
def setAll (g : Text → Text) (fs : List (Nat × Text)) (m : Model) : Model :=
  fs.foldl (fun m f => m.set (f.1, g f.2)) m

/-- Each field has the last value that has been set. -/
theorem get_setAll (g : Text → Text) {fs : List (Nat × Text)} (hnum : ∀ f ∈ fs, f.1 ∈ numbers)
    {n : Nat} (hn : n ∈ numbers) (m : Model) :
    (setAll g fs m).get n = ((lastValue fs n).map g).getD (m.get n) := by
  induction fs using List.reverseRecOn with
  | nil => rfl
  | append_singleton fs f ih =>
    have hf := hnum f (List.mem_append_right _ (List.mem_singleton_self f))
    have hfs := fun g hg => hnum g (List.mem_append_left [f] hg)
    rw [setAll] at ih ⊢
    rw [List.foldl_append, List.foldl_cons, List.foldl_nil, get_set hf hn, ih hfs,
      lastValue_append_singleton]
    split_ifs <;> rfl

theorem mem_numbers_of_mem_fields {m : Model} {f : Nat × Text} (h : f ∈ m.fields) :
    f.1 ∈ numbers := by
  obtain ⟨n, hn, rfl⟩ := List.mem_map.mp (List.mem_filter.mp h).1
  exact hn

/-- What holds of the empty text holds of the fields that are written if it holds of all. -/
theorem forall_mem_fields_iff {P : Text → Prop} (hP : P []) {m : Model} :
    (∀ f ∈ m.fields, P f.2) ↔ ∀ n ∈ numbers, P (m.get n) := by
  constructor
  · intro h n hn
    by_cases hempty : m.get n = []
    · rwa [hempty]
    · refine h (n, m.get n) (List.mem_filter.mpr ⟨List.mem_map.mpr ⟨n, hn, rfl⟩, ?_⟩)
      simpa using hempty
  · intro h f hf
    obtain ⟨n, hn, rfl⟩ := List.mem_map.mp (List.mem_filter.mp hf).1
    exact h n hn

/-- A field of a message occurs among its fields if it is not empty. -/
theorem lastValue_fields (m : Model) {n : Nat} (hn : n ∈ numbers) :
    lastValue m.fields n = if m.get n ≠ [] then some (m.get n) else none := by
  have hone : numbers.filter (fun k => k = n) = [n] := by
    revert n
    decide
  have hcomm : m.fields.filter (fun f => f.1 = n) =
      [(n, m.get n)].filter fun f => f.2 ≠ [] := by
    rw [fields, List.filter_comm, List.filter_map]
    exact congrArg (fun l => (l.map fun k => (k, m.get k)).filter fun f => f.2 ≠ []) hone
  rw [lastValue, hcomm]
  by_cases hm : m.get n = []
  · rw [if_neg (not_not_intro hm), List.filter_cons_of_neg (by simpa using hm)]
    rfl
  · rw [if_pos hm, List.filter_cons_of_pos (by simpa using hm)]
    rfl

/-- The fields of a message make it up. -/
theorem setAll_fields_default {g : Text → Text} (hg : g [] = []) (m : Model) :
    setAll g m.fields {} = m.map g := by
  refine ext_get fun n hn => ?_
  have hempty : ({} : Model).get n = [] := by
    revert n
    decide
  rw [get_setAll g (fun f hf => mem_numbers_of_mem_fields hf) hn, get_map _ hn,
    lastValue_fields m hn, hempty]
  split_ifs with hm
  · rfl
  · rw [not_not.mp hm, hg]
    rfl

/-- A message is as it is read back if its fields have no unpaired surrogates. -/
theorem map_replaceUnpaired_eq_iff {m : Model} :
    m.map replaceUnpaired = m ↔ ∀ n ∈ numbers, isWellFormed (m.get n) = true := by
  constructor
  · intro h n hn
    rw [← replaceUnpaired_eq_iff, ← get_map replaceUnpaired hn, h]
  · intro h
    refine ext_get fun n hn => ?_
    rw [get_map _ hn, replaceUnpaired_eq_iff.mpr (h n hn)]

end Model

/-! ## The generated class -/

/-- `WatchMessageBodyProto.Model`: the string fields, and the fields it does not know. -/
structure WatchMessageBodyProto (U : Type) where
  model : Model
  unknownFields : U

namespace WatchMessageBodyProto

variable {U : Type} (R : Runtime U)

/-- `Model.getDefaultInstance()`. -/
def defaultInstance : WatchMessageBodyProto U := ⟨{}, R.noUnknownFields⟩

/-- The switch of the constructor `Model(input, extensionRegistry)`: whether the loop goes on, and
the message behind the field. -/
def parseField (tag : Nat) (message : WatchMessageBodyProto U) :
    Reader (Bool × WatchMessageBodyProto U) :=
  match Model.setter tag with
  | some set => do
    let s ← R.readStringRequireUtf8
    return (true, { message with model := set s message.model })
  | none => do
    let (goOn, fields) ← R.parseUnknownField tag message.unknownFields
    return (goOn, { message with unknownFields := fields })

/-- `Model.parseFrom(data)`: the last tag has to be that of the end. -/
def parseFrom (data : List UInt8) : Except WireError (WatchMessageBodyProto U) := do
  let ((message, lastTag), _) ←
    readMessage R (parseField R) (data.length + 1) (defaultInstance R) data
  R.checkLastTagWas 0 lastTag
  return message

/-- `message.toByteArray()`: the fields in the order of their numbers, and the unknown ones. -/
def writeTo (message : WatchMessageBodyProto U) : List UInt8 :=
  toByteArray R.writeString message.model ++ R.writeUnknownFields message.unknownFields

/-- `builder.mergeFrom(other)`: the fields of `other` that are not empty take the place of those of
the builder. -/
def mergeFrom (message other : WatchMessageBodyProto U) : WatchMessageBodyProto U where
  model :=
    { factory := if other.model.factory ≠ [] then other.model.factory else message.model.factory
      deviceId :=
        if other.model.deviceId ≠ [] then other.model.deviceId else message.model.deviceId
      length := if other.model.length ≠ [] then other.model.length else message.model.length
      type := if other.model.type ≠ [] then other.model.type else message.model.type
      body := if other.model.body ≠ [] then other.model.body else message.model.body
      timeStamp :=
        if other.model.timeStamp ≠ [] then other.model.timeStamp else message.model.timeStamp
      sender := if other.model.sender ≠ [] then other.model.sender else message.model.sender
      receiver :=
        if other.model.receiver ≠ [] then other.model.receiver else message.model.receiver
      groupId := if other.model.groupId ≠ [] then other.model.groupId else message.model.groupId }
  unknownFields := R.mergeUnknownFields message.unknownFields other.unknownFields

/-- The size of a field, which is not written if it is empty. -/
def fieldSize (n : Nat) (s : Text) : Int32 := if s = [] then 0 else R.computeStringSize n s

/-- `message.getSerializedSize()`. -/
def getSerializedSize (message : WatchMessageBodyProto U) : Int32 :=
  fieldSize R 1 message.model.factory + fieldSize R 2 message.model.deviceId +
    fieldSize R 3 message.model.length + fieldSize R 4 message.model.type +
    fieldSize R 5 message.model.body + fieldSize R 6 message.model.timeStamp +
    fieldSize R 7 message.model.sender + fieldSize R 8 message.model.receiver +
    fieldSize R 9 message.model.groupId + R.unknownFieldsSize message.unknownFields

/-! ## What is accepted -/

variable {R} {message last : WatchMessageBodyProto U} {bs : List UInt8}

theorem parseField_of_some {tag : Nat} {set : Text → Model → Model}
    (h : Model.setter tag = some set) : parseField R tag message = do
      let s ← R.readStringRequireUtf8
      return (true, { message with model := set s message.model }) := by
  rw [parseField, h]

theorem parseField_of_none {tag : Nat} (h : Model.setter tag = none) :
    parseField R tag message = do
      let (goOn, fields) ← R.parseUnknownField tag message.unknownFields
      return (goOn, { message with unknownFields := fields }) := by
  rw [parseField, h]

section Lawful

variable (hR : R.Lawful)

include hR

theorem parseField_local (tag : Nat) (message : WatchMessageBodyProto U) :
    Local (parseField R tag message) := by
  cases h : Model.setter tag with
  | some set =>
    rw [parseField_of_some h]
    exact .bind hR.readString_local fun _ => .pure _
  | none =>
    rw [parseField_of_none h]
    exact .bind (hR.parse_local tag message.unknownFields) fun _ => .pure _

/-- **What is accepted is a sequence of fields**, which lead from the default instance to the parsed
message. -/
theorem parseFrom_eq_ok_iff :
    parseFrom R bs = .ok message ↔
      Fields R (parseField R) (defaultInstance R) bs message := by
  have hread : ∀ {last rest},
      readMessage R (parseField R) (bs.length + 1) (defaultInstance R) bs =
        .ok ((last, 0), rest) ↔
          rest = [] ∧ Fields R (parseField R) (defaultInstance R) bs last :=
    readMessage_iff hR.toReadsTags (parseField_local hR) (Nat.lt_succ_self _)
  rw [parseFrom, bind_eq_ok_iff]
  constructor
  · rintro ⟨⟨⟨last, lastTag⟩, rest⟩, hloop, hbehind⟩
    obtain ⟨⟨⟩, hcheck, hlast⟩ := bind_eq_ok_iff.mp hbehind
    obtain rfl := hR.checkLastTagWas_iff.mp hcheck
    obtain rfl := Except.ok.inj hlast
    exact (hread.mp hloop).2
  · intro hfields
    refine ⟨_, hread.mpr ⟨rfl, hfields⟩, ?_⟩
    exact bind_eq_ok_iff.mpr ⟨(), hR.checkLastTagWas_iff.mpr rfl, rfl⟩

/-- The content of a string field sets its field, whatever follows it. -/
theorem parseField_string {n : Nat} {s : Text} (hn : n ∈ Model.numbers) (hs : IsArray (utf8 s))
    (rest : List UInt8) :
    parseField R (n * 8 + 2) message (varint (utf8 s).length ++ (utf8 s ++ rest)) =
      .ok ((true, { message with model := message.model.set (n, replaceUnpaired s) }), rest) := by
  obtain ⟨set, hset⟩ := Option.isSome_iff_exists.mp (Model.setter_isSome_of_mem hn)
  rw [parseField_of_some hset]
  refine Reader.bind_eq_ok_iff.mpr
    ⟨_, _, hR.readString_append (Nat.lt_succ_of_le hs) rest, ?_⟩
  rw [Reader.pure_apply, Model.set, hset]
  rfl

/-- The tag of a string field is read, whatever follows it. -/
theorem readTag_stringField {n : Nat} (hn : n ∈ Model.numbers) (s : Text) (rest : List UInt8) :
    R.readTag (stringField n s ++ rest) =
      .ok (n * 8 + 2, varint (utf8 s).length ++ (utf8 s ++ rest)) := by
  have hle := Model.le_of_mem_numbers hn
  rw [stringField, List.append_assoc, List.append_assoc]
  exact hR.readTag_varint (by omega) (by omega) _

/-- A string field sets its field. -/
theorem fields_stringField (message : WatchMessageBodyProto U) {n : Nat} {s : Text}
    (hn : n ∈ Model.numbers) (hs : IsArray (utf8 s)) :
    Fields R (parseField R) message (stringField n s)
      { message with model := message.model.set (n, replaceUnpaired s) } := by
  have hread := readTag_stringField hR hn s []
  rw [List.append_nil] at hread
  exact .cons (Nat.succ_ne_zero _) hread (parseField_string hR hn hs []) (.nil _)

/-- **String fields in any order** are set one after the other. -/
theorem fields_writeStrings (message : WatchMessageBodyProto U) {fs : List (Nat × Text)}
    (hnum : ∀ f ∈ fs, f.1 ∈ Model.numbers) (hs : IsArray (writeStrings stringField fs)) :
    Fields R (parseField R) message (writeStrings stringField fs)
      { message with model := Model.setAll replaceUnpaired fs message.model } := by
  induction fs generalizing message with
  | nil => exact .nil _
  | cons f fs ih =>
    obtain ⟨hn, hnum⟩ := List.forall_mem_cons.mp hnum
    rw [writeStrings_cons]
    obtain ⟨hfront, hback⟩ := isArray_of_writeStrings hs
    have hfirst := fields_stringField hR message hn (isArray_utf8 hfront)
    exact (Fields.append_iff hR.toReadsTags (parseField_local hR) hfirst).mpr (ih _ hnum hback)

end Lawful

/-! ## Reading back -/

theorem get_mergeFrom {other : WatchMessageBodyProto U} {n : Nat} (hn : n ∈ Model.numbers) :
    (mergeFrom R message other).model.get n =
      if other.model.get n ≠ [] then other.model.get n else message.model.get n := by
  simp only [Model.numbers, List.mem_cons, List.not_mem_nil, or_false] at hn
  rcases hn with rfl | rfl | rfl | rfl | rfl | rfl | rfl | rfl | rfl <;> rfl

variable (R) in
/-- Setting the fields of a message merges it. -/
theorem setAll_fields (x : WatchMessageBodyProto U) (m : Model) :
    Model.setAll replaceUnpaired m.fields x.model =
      (mergeFrom R x ⟨m.map replaceUnpaired, R.noUnknownFields⟩).model := by
  refine Model.ext_get fun n hn => ?_
  rw [Model.get_setAll _ (fun f hf => Model.mem_numbers_of_mem_fields hf) hn, get_mergeFrom hn,
    Model.get_map _ hn, Model.lastValue_fields m hn]
  by_cases hm : m.get n = []
  · rw [if_neg (not_not_intro hm), if_neg (not_not_intro (replaceUnpaired_eq_nil_iff.mpr hm))]
    rfl
  · rw [if_pos hm, if_pos fun h => hm (replaceUnpaired_eq_nil_iff.mp h)]
    rfl

/-- The tags that the switch knows. -/
def known (tag : Nat) : Bool := (Model.setter tag).isSome

/-- Unknown fields are read into the set, and leave the others alone. -/
theorem fields_unknown {u u' : U} {m : Model} (h : Fields R (R.unknownField known) u bs u') :
    Fields R (parseField R) ⟨m, u⟩ bs ⟨m, u'⟩ := by
  induction h with
  | nil => exact .nil _
  | @cons u next last tag bs content rest htag hread hfield hrest ih =>
    rw [Runtime.unknownField] at hfield
    split at hfield
    · cases hfield
    · rename_i hknown
      have hnone : Model.setter tag = none := by simpa [known] using hknown
      refine .cons htag hread ?_ ih
      rw [parseField_of_none hnone]
      exact Reader.bind_eq_ok_iff.mpr ⟨_, _, hfield, rfl⟩

section Lawful

variable (hR : R.Lawful)

include hR

/-- The runtime writes string fields. -/
theorem writeStrings_eq {fs : List (Nat × Text)} (hnum : ∀ f ∈ fs, f.1 ∈ Model.numbers) :
    writeStrings R.writeString fs = writeStrings stringField fs := by
  refine List.flatMap_congr fun f hf => ?_
  have hle := Model.le_of_mem_numbers (hnum f hf)
  exact hR.writeString_eq (by omega) f.2

theorem toByteArray_eq_writeStrings (m : Model) :
    toByteArray R.writeString m = writeStrings stringField m.fields := by
  rw [toByteArray_eq, writeStrings_eq hR fun f hf => Model.mem_numbers_of_mem_fields hf]

/-- The fields of the bytes of a message. -/
theorem fields_writeTo {x : WatchMessageBodyProto U} (hs : IsArray (writeTo R x))
    (hu : R.ReadsBack known x.unknownFields) :
    Fields R (parseField R) (defaultInstance R) (writeTo R x)
      { x with model := x.model.map replaceUnpaired } := by
  rw [writeTo, toByteArray_eq_writeStrings hR] at hs ⊢
  have hs' : IsArray (writeStrings stringField x.model.fields) := by
    simp only [IsArray, List.length_append] at hs ⊢
    omega
  have hfields := fields_writeStrings hR (defaultInstance R)
    (fun f hf => Model.mem_numbers_of_mem_fields hf) hs'
  rw [Fields.append_iff hR.toReadsTags (parseField_local hR) hfields,
    defaultInstance, Model.setAll_fields_default rfl]
  exact fields_unknown hu

/-- **A message is read back**, with a question mark for each unpaired surrogate. -/
theorem parseFrom_writeTo {x : WatchMessageBodyProto U} (hs : IsArray (writeTo R x))
    (hu : R.HasRead known x.unknownFields) :
    parseFrom R (writeTo R x) = .ok { x with model := x.model.map replaceUnpaired } ∧
      (parseFrom R (writeTo R x) = .ok x ↔
        ∀ n ∈ Model.numbers, isWellFormed (x.model.get n) = true) := by
  have hfields := fields_writeTo hR hs (readsBack_of_hasRead hR hu)
  have hback := (parseFrom_eq_ok_iff hR).mpr hfields
  refine ⟨hback, ?_⟩
  rw [hback, ← Model.map_replaceUnpaired_eq_iff, Except.ok.injEq]
  exact ⟨congrArg model, fun h => by rw [h]⟩

end Lawful

/-- A number in a tenth field, which the class does not know. -/
def tenth : List UInt8 := [0x50, 0x07]

theorem hasRead_tenth : Raw.runtime.HasRead known tenth := by
  have hread : Raw.runtime.readTag tenth = .ok (80, [0x07]) := rfl
  have hfield : Raw.runtime.unknownField known 80 [] [0x07] = .ok ((true, tenth), []) := rfl
  exact ⟨tenth, .cons (by decide) hread hfield (.nil tenth)⟩

/-- A message with an emoji in its body, an account that ends in half of one, and a tenth field. -/
def emoji : WatchMessageBodyProto (List UInt8) where
  model := { type := lit "TK", body := [0xD83D, 0xDE00], receiver := [0x31, 0xD83D] }
  unknownFields := tenth

theorem parseFrom_writeTo_emoji :
    parseFrom Raw.runtime (writeTo Raw.runtime emoji) =
        .ok { emoji with model := emoji.model.map replaceUnpaired } ∧
      (parseFrom Raw.runtime (writeTo Raw.runtime emoji) = .ok emoji ↔
        ∀ n ∈ Model.numbers, isWellFormed (emoji.model.get n) = true) :=
  parseFrom_writeTo Raw.runtime_lawful (by decide) hasRead_tenth

section Lawful

variable (hR : R.Lawful)

include hR

/-- **Fields in any order** are read, each with its last value. -/
theorem parseFrom_lastValue {fs : List (Nat × Text)} (hnum : ∀ f ∈ fs, f.1 ∈ Model.numbers)
    (hs : IsArray (writeStrings R.writeString fs)) :
    ∃ m, parseFrom R (writeStrings R.writeString fs) = .ok ⟨m, R.noUnknownFields⟩ ∧
      ∀ n ∈ Model.numbers, m.get n = ((Model.lastValue fs n).map replaceUnpaired).getD [] := by
  rw [writeStrings_eq hR hnum] at hs ⊢
  refine ⟨Model.setAll replaceUnpaired fs {}, ?_, fun n hn => ?_⟩
  · exact (parseFrom_eq_ok_iff hR).mpr (fields_writeStrings hR _ hnum hs)
  · rw [Model.get_setAll _ hnum hn]
    congr 1
    revert n
    decide

/-- **Bytes behind those of a message** are merged into it. -/
theorem parseFrom_append {x : WatchMessageBodyProto U} (h : parseFrom R bs = .ok x)
    {m : Model} (hs : IsArray (toByteArray R.writeString m)) :
    parseFrom R (bs ++ toByteArray R.writeString m) =
      .ok (mergeFrom R x ⟨m.map replaceUnpaired, R.noUnknownFields⟩) := by
  rw [toByteArray_eq_writeStrings hR] at hs ⊢
  rw [parseFrom_eq_ok_iff hR,
    Fields.append_iff hR.toReadsTags (parseField_local hR) ((parseFrom_eq_ok_iff hR).mp h)]
  have hfields := fields_writeStrings hR x
    (fun f hf => Model.mem_numbers_of_mem_fields hf) hs
  rw [setAll_fields R] at hfields
  have hmerge : { x with
      model := (mergeFrom R x ⟨m.map replaceUnpaired, R.noUnknownFields⟩).model } =
        mergeFrom R x ⟨m.map replaceUnpaired, R.noUnknownFields⟩ := by
    rw [mergeFrom, hR.merge_noUnknownFields]
  exact hmerge ▸ hfields

end Lawful

/-- The receiver in front of the type, and two bodies. -/
theorem parseFrom_lastValue_mixed :
    ∃ m, parseFrom Raw.runtime (writeStrings Raw.runtime.writeString
        [(5, lit "a"), (8, lit "2"), (4, lit "TK"), (5, lit "b")]) = .ok ⟨m, []⟩ ∧
      ∀ n ∈ Model.numbers, m.get n =
        ((Model.lastValue [(5, lit "a"), (8, lit "2"), (4, lit "TK"), (5, lit "b")] n).map
          replaceUnpaired).getD [] :=
  parseFrom_lastValue Raw.runtime_lawful (by decide) (by decide)

/-- A text message with a tenth field, and behind it the receiver and another body. -/
theorem parseFrom_append_receiver :
    parseFrom Raw.runtime
        (writeTo Raw.runtime ⟨{ type := lit "TK", body := lit "a" }, tenth⟩ ++
          toByteArray Raw.runtime.writeString { receiver := lit "2", body := lit "b" }) =
      .ok (mergeFrom Raw.runtime ⟨{ type := lit "TK", body := lit "a" }, tenth⟩
        ⟨Model.map replaceUnpaired { receiver := lit "2", body := lit "b" }, []⟩) :=
  parseFrom_append Raw.runtime_lawful rfl (by decide)

/-! ## What is accepted is well formed -/

section Lawful

variable (hR : R.Lawful)

include hR

/-- **The fields of an accepted message have no unpaired surrogates.** -/
theorem isWellFormed_of_parseFrom (h : parseFrom R bs = .ok message) :
    ∀ n ∈ Model.numbers, isWellFormed (message.model.get n) = true := by
  have hempty : ∀ n ∈ Model.numbers, isWellFormed (({} : Model).get n) = true := by decide
  refine ((parseFrom_eq_ok_iff hR).mp h).invariant
    (I := fun x => ∀ n ∈ Model.numbers, isWellFormed (x.model.get n) = true) hempty ?_
  intro tag bs x content next rest htag hread hfield hx n hn
  cases hset : Model.setter tag with
  | none =>
    rw [parseField_of_none hset] at hfield
    obtain ⟨⟨_, _⟩, _, -, hfield⟩ := Reader.bind_eq_ok_iff.mp hfield
    cases hfield
    exact hx n hn
  | some set =>
    rw [parseField_of_some hset] at hfield
    obtain ⟨s, _, hs, hfield⟩ := Reader.bind_eq_ok_iff.mp hfield
    cases hfield
    obtain ⟨k, hk, -, hg⟩ := Model.setter_eq_some hset
    simp only [hg]
    rw [Model.get_set hk hn]
    split_ifs
    · exact hR.isWellFormed_of_readString hs
    · exact hx n hn

/-- The unknown fields of an accepted message are read back. -/
theorem readsBack_of_parseFrom (h : parseFrom R bs = .ok message) :
    R.ReadsBack known message.unknownFields := by
  refine ((parseFrom_eq_ok_iff hR).mp h).invariant
    (I := fun x => R.ReadsBack known x.unknownFields) (readsBack_noUnknownFields hR) ?_
  intro tag bs x content next rest htag hread hfield hx
  cases hset : Model.setter tag with
  | none =>
    rw [parseField_of_none hset] at hfield
    obtain ⟨⟨goOn, fields⟩, rest', hparse, hfield⟩ := Reader.bind_eq_ok_iff.mp hfield
    cases hfield
    have hknown : known tag = false := by rw [known, hset, Option.isSome_none]
    exact hR.parse_readsBack htag hknown hread hparse hx
  | some set =>
    rw [parseField_of_some hset] at hfield
    obtain ⟨s, _, -, hfield⟩ := Reader.bind_eq_ok_iff.mp hfield
    cases hfield
    exact hx

/-- **What the server has accepted is accepted again**, as the same message, when it is written in
the order of the numbers; and its texts are well formed. -/
theorem parseFrom_canonical (h : parseFrom R bs = .ok message)
    (hs : IsArray (writeTo R message)) : parseFrom R (writeTo R message) = .ok message ∧
      ∀ n ∈ Model.numbers, isWellFormed (message.model.get n) = true := by
  have hwell := isWellFormed_of_parseFrom hR h
  have hfields := fields_writeTo hR hs (readsBack_of_parseFrom hR h)
  rw [Model.map_replaceUnpaired_eq_iff.mpr hwell] at hfields
  exact ⟨(parseFrom_eq_ok_iff hR).mpr hfields, hwell⟩

end Lawful

/-- Two bodies and a tenth field between them, in front of the receiver. -/
theorem parseFrom_canonical_bodies :
    parseFrom Raw.runtime (writeTo Raw.runtime
        ⟨{ type := lit "TK", body := [0xD83D, 0xDE00], receiver := lit "2" }, tenth⟩) =
      .ok ⟨{ type := lit "TK", body := [0xD83D, 0xDE00], receiver := lit "2" }, tenth⟩ ∧
      ∀ n ∈ Model.numbers, isWellFormed (Model.get
        { type := lit "TK", body := [0xD83D, 0xDE00], receiver := lit "2" } n) = true := by
  have hread : parseFrom Raw.runtime (stringField 5 (lit "a") ++ tenth ++
      writeStrings stringField [(5, [0xD83D, 0xDE00]), (8, lit "2"), (4, lit "TK")]) =
        .ok ⟨{ type := lit "TK", body := [0xD83D, 0xDE00], receiver := lit "2" }, tenth⟩ := rfl
  exact parseFrom_canonical Raw.runtime_lawful hread (by decide)

/-! ## Parts of a message -/

section Lawful

variable (hR : R.Lawful)

include hR

/-- A part of a sequence of string fields is a sequence of fields only if it ends between two of
them. -/
theorem exists_take_of_fields {fs : List (Nat × Text)} (hnum : ∀ f ∈ fs, f.1 ∈ Model.numbers)
    (hs : IsArray (writeStrings stringField fs)) {front back : List UInt8}
    (he : front ++ back = writeStrings stringField fs)
    (h : Fields R (parseField R) message front last) :
    ∃ i ≤ fs.length, front = writeStrings stringField (fs.take i) ∧
      last = { message with model := Model.setAll replaceUnpaired (fs.take i) message.model } := by
  induction fs generalizing message front with
  | nil =>
    obtain ⟨rfl, -⟩ := List.append_eq_nil_iff.mp he
    exact ⟨0, le_rfl, rfl, h.eq_of_nil hR.toReadsTags⟩
  | cons f fs ih =>
    obtain ⟨n, s⟩ := f
    obtain ⟨hn, hnum⟩ := List.forall_mem_cons.mp hnum
    obtain ⟨hfront, hback⟩ := isArray_of_writeStrings hs
    cases h with
    | nil => exact ⟨0, Nat.zero_le _, rfl, rfl⟩
    | @cons _ next _ tag _ content rest htag hread hfield hrest =>
      obtain ⟨h0, -⟩ | ⟨-, taken, -, rfl, htaken⟩ := hR.readTag_cases hread
      · exact absurd h0 htag
      obtain ⟨taken', rfl, htaken'⟩ := parseField_local hR _ _ _ _ _ hfield
      have hread' := htaken (taken' ++ (rest ++ back))
      have hfield' := htaken' (rest ++ back)
      rw [List.append_assoc, List.append_assoc, writeStrings_cons] at he
      rw [he, readTag_stringField hR hn] at hread'
      obtain ⟨rfl, hcontent⟩ := Prod.mk.inj (Except.ok.inj hread')
      rw [← hcontent, parseField_string hR hn (isArray_utf8 hfront)] at hfield'
      obtain ⟨hnext, htail⟩ := Prod.mk.inj (Except.ok.inj hfield')
      obtain rfl := (Prod.mk.inj hnext).2
      obtain ⟨i, hi, hrest', rfl⟩ := ih hnum hback htail.symm hrest
      refine ⟨i + 1, Nat.succ_le_succ hi, ?_, rfl⟩
      rw [htail, ← List.append_assoc, ← List.append_assoc, ← List.append_assoc,
        List.append_cancel_right_eq] at he
      rw [List.take_succ_cons, writeStrings_cons, ← hrest', ← he, List.append_assoc]

/-- **A part of the bytes of a message** is accepted if it ends between two of its fields, as the
message with the fields in front. -/
theorem parseFrom_take_iff {fs : List (Nat × Text)} (hnum : ∀ f ∈ fs, f.1 ∈ Model.numbers)
    (hs : IsArray (writeStrings R.writeString fs)) {front back : List UInt8}
    (he : front ++ back = writeStrings R.writeString fs) :
    parseFrom R front = .ok message ↔
      ∃ i ≤ fs.length, front = writeStrings R.writeString (fs.take i) ∧
        message = ⟨Model.setAll replaceUnpaired (fs.take i) {}, R.noUnknownFields⟩ := by
  have htake : ∀ i, writeStrings R.writeString (fs.take i) = writeStrings stringField (fs.take i) :=
    fun i => writeStrings_eq hR fun f hf => hnum f (List.mem_of_mem_take hf)
  rw [writeStrings_eq hR hnum] at hs he
  rw [parseFrom_eq_ok_iff hR]
  constructor
  · intro h
    obtain ⟨i, hi, hfront, hmessage⟩ := exists_take_of_fields hR hnum hs he h
    exact ⟨i, hi, hfront.trans (htake i).symm, hmessage⟩
  · rintro ⟨i, -, rfl, rfl⟩
    rw [htake] at he ⊢
    refine fields_writeStrings hR _ (fun f hf => hnum f (List.mem_of_mem_take hf)) ?_
    have hlen := congrArg List.length he
    simp only [IsArray, List.length_append] at hs hlen ⊢
    omega

end Lawful

/-- A type and a body, cut between the two. -/
theorem parseFrom_take_iff_cut :
    parseFrom Raw.runtime (stringField 4 (lit "TK")) = .ok ⟨{ type := lit "TK" }, []⟩ ↔
      ∃ i ≤ 2, stringField 4 (lit "TK") =
          writeStrings Raw.runtime.writeString ([(4, lit "TK"), (5, lit "a")].take i) ∧
        (⟨{ type := lit "TK" }, []⟩ : WatchMessageBodyProto (List UInt8)) =
          ⟨Model.setAll replaceUnpaired ([(4, lit "TK"), (5, lit "a")].take i) {}, []⟩ := by
  have he : stringField 4 (lit "TK") ++ stringField 5 (lit "a") =
      writeStrings Raw.runtime.writeString [(4, lit "TK"), (5, lit "a")] := rfl
  exact parseFrom_take_iff Raw.runtime_lawful (by decide) (by decide) he

/-! ## Sizes -/

section Lawful

variable (hR : R.Lawful)

include hR

theorem fieldSize_eq {n : Nat} (hn : n ∈ Model.numbers) {s : Text}
    (hs : IsArray (writeField R.writeString n s)) :
    fieldSize R n s = Int32.ofNat (writeField R.writeString n s).length := by
  have hle := Model.le_of_mem_numbers hn
  rw [writeField, hR.writeString_eq (by omega)] at hs ⊢
  rw [fieldSize]
  split_ifs with hempty
  · rfl
  · rw [if_neg hempty] at hs
    exact hR.computeStringSize_eq (by omega) (Nat.lt_succ_of_le hs)

/-- **The computed size is that of the bytes**: the array that is made for them is filled. -/
theorem getSerializedSize_eq {x : WatchMessageBodyProto U} (hs : IsArray (writeTo R x)) :
    (getSerializedSize R x).toInt = (writeTo R x).length := by
  have hsize : (writeTo R x).length < 2 ^ 31 := Nat.lt_succ_of_le hs
  rw [← Int32.toInt_ofNat_of_lt hsize]
  simp only [IsArray, writeTo, toByteArray, List.length_append] at hs
  have hfield : ∀ n ∈ Model.numbers, (writeField R.writeString n (x.model.get n)).length ≤
      0x7FFFFFFF → fieldSize R n (x.model.get n) =
        Int32.ofNat (writeField R.writeString n (x.model.get n)).length :=
    fun n hn hlen => fieldSize_eq hR hn hlen
  have h1 := hfield 1 (by decide) (show _ ≤ _ by simp only [Model.get]; omega)
  have h2 := hfield 2 (by decide) (show _ ≤ _ by simp only [Model.get]; omega)
  have h3 := hfield 3 (by decide) (show _ ≤ _ by simp only [Model.get]; omega)
  have h4 := hfield 4 (by decide) (show _ ≤ _ by simp only [Model.get]; omega)
  have h5 := hfield 5 (by decide) (show _ ≤ _ by simp only [Model.get]; omega)
  have h6 := hfield 6 (by decide) (show _ ≤ _ by simp only [Model.get]; omega)
  have h7 := hfield 7 (by decide) (show _ ≤ _ by simp only [Model.get]; omega)
  have h8 := hfield 8 (by decide) (show _ ≤ _ by simp only [Model.get]; omega)
  have h9 := hfield 9 (by decide) (show _ ≤ _ by simp only [Model.get]; omega)
  have hunknown : R.unknownFieldsSize x.unknownFields =
      Int32.ofNat (R.writeUnknownFields x.unknownFields).length :=
    hR.unknownFieldsSize_eq (by omega)
  simp only [Model.get] at h1 h2 h3 h4 h5 h6 h7 h8 h9
  rw [getSerializedSize, h1, h2, h3, h4, h5, h6, h7, h8, h9, hunknown, writeTo, toByteArray]
  simp only [List.length_append, Int32.ofNat_add]

end Lawful

theorem getSerializedSize_eq_emoji :
    (getSerializedSize Raw.runtime emoji).toInt = (writeTo Raw.runtime emoji).length :=
  getSerializedSize_eq Raw.runtime_lawful (by decide)

end WatchMessageBodyProto

end NettyTcpWeb
