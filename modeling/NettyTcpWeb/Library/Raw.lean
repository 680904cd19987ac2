import NettyTcpWeb.Library.Wire

/-!
# A lawful runtime

The laws of a runtime can be met: tags and strings are read as they are written, and an unknown
field is kept as its bytes. Groups are refused.

## Main definitions

* `readTag`, `readStringRequireUtf8`: tags and string fields
* `skipField`, `bytesOf`: the content of an unknown field, and the bytes that a reader takes
* `runtime`: the operations

## Main results

* `runtime_lawful`: **its laws hold**
-/

namespace Protobuf

namespace Raw

open Java (Text)

/-! ## Tags and strings -/

/-- The next tag, or zero at the end of the input. -/
def readTag : Reader Nat
  | [] => .ok (0, [])
  | b :: bs =>
    match readVarint 5 (b :: bs) with
    | .ok (tag, rest) => if tag < 8 then .error .invalidTag else .ok (tag, rest)
    | .error e => .error e

/-- The next `size` bytes; a size from `2 ^ 31` on is a negative `int`. -/
def readRawBytes (size : Nat) : Reader (List UInt8) := fun bs =>
  if 0x80000000 ≤ size then .error .negativeSize
  else if bs.length < size then .error .truncatedMessage
  else .ok (bs.take size, bs.drop size)

/-- A size and that many bytes of UTF-8. -/
def readStringRequireUtf8 : Reader Text := do
  let size ← readVarint 5
  let content ← readRawBytes size
  match decodeUtf8 content with
  | none => throw .invalidUtf8
  | some s => return s

theorem readVarint_lt {k n : Nat} {bs rest : List UInt8} (h : readVarint k bs = .ok (n, rest)) :
    n < 0x80 ^ k := by
  induction k generalizing n bs rest with
  | zero => cases h
  | succ k ih =>
    cases bs with
    | nil => cases h
    | cons b bs =>
      have hb := b.toNat_lt
      have hpos : 0 < 0x80 ^ k := Nat.pow_pos (by decide)
      rw [readVarint] at h
      rw [pow_succ]
      split at h
      · cases h
        omega
      · split at h
        · rename_i m rest' hread
          have hm := ih hread
          cases h
          omega
        · cases h

theorem readTag_cons_iff {b : UInt8} {bs rest : List UInt8} {tag : Nat} :
    readTag (b :: bs) = .ok (tag, rest) ↔ readVarint 5 (b :: bs) = .ok (tag, rest) ∧ 8 ≤ tag := by
  rw [readTag]
  cases readVarint 5 (b :: bs) with
  | error e => simp
  | ok p =>
    obtain ⟨tag', rest'⟩ := p
    by_cases htag : tag' < 8
    · simp only [if_pos htag, reduceCtorEq, Except.ok.injEq, Prod.mk.injEq, false_iff]
      rintro ⟨⟨rfl, rfl⟩, hge⟩
      omega
    · simp only [if_neg htag, Except.ok.injEq, Prod.mk.injEq]
      constructor
      · rintro ⟨rfl, rfl⟩
        exact ⟨⟨rfl, rfl⟩, by omega⟩
      · exact fun h => h.1

theorem readTag_varint {tag : Nat} (h : 8 ≤ tag) (hlt : tag < 0x80 ^ 5) (rest : List UInt8) :
    readTag (varint tag ++ rest) = .ok (tag, rest) := by
  have hread : readVarint 5 (varint tag ++ rest) = .ok (tag, rest) :=
    readVarint_varintLoop le_rfl hlt rest
  obtain ⟨b, bs, he⟩ := List.exists_cons_of_ne_nil (varint_ne_nil tag)
  rw [he, List.cons_append] at hread ⊢
  exact readTag_cons_iff.mpr ⟨hread, h⟩

theorem readTag_taken {b : UInt8} {bs rest : List UInt8} {tag : Nat}
    (h : readTag (b :: bs) = .ok (tag, rest)) :
    ∃ taken, bs = taken ++ rest ∧ ∀ more, readTag (b :: (taken ++ more)) = .ok (tag, more) := by
  obtain ⟨hread, htag⟩ := readTag_cons_iff.mp h
  obtain ⟨taken, he, htaken⟩ := readVarint_local 5 _ _ _ hread
  cases taken with
  | nil =>
    have hnil := htaken []
    cases hnil
  | cons c taken =>
    obtain ⟨rfl, rfl⟩ := List.cons.inj he
    exact ⟨taken, rfl, fun more => readTag_cons_iff.mpr ⟨htaken more, htag⟩⟩

theorem readRawBytes_append {content : List UInt8} (h : content.length < 0x80000000)
    (rest : List UInt8) :
    readRawBytes content.length (content ++ rest) = .ok (content, rest) := by
  rw [readRawBytes, if_neg (by omega), if_neg (by rw [List.length_append]; omega),
    List.take_left, List.drop_left]

theorem readRawBytes_ok {size : Nat} {bs content rest : List UInt8}
    (h : readRawBytes size bs = .ok (content, rest)) :
    bs = content ++ rest ∧ content.length = size ∧ content.length < 0x80000000 := by
  rw [readRawBytes] at h
  split at h
  · cases h
  · split at h
    · cases h
    · cases h
      have htake : (bs.take size).length = size := List.length_take_of_le (by omega)
      exact ⟨(List.take_append_drop _ _).symm, htake, by omega⟩

theorem readRawBytes_local (size : Nat) : Local (readRawBytes size) := by
  intro bs rest content h
  obtain ⟨rfl, rfl, hlt⟩ := readRawBytes_ok h
  exact ⟨content, rfl, readRawBytes_append hlt⟩

theorem readString_ok {bs rest : List UInt8} {s : Text}
    (h : readStringRequireUtf8 bs = .ok (s, rest)) :
    ∃ size content, bs = size ++ (content ++ rest) ∧ decodeUtf8 content = some s ∧
      ∀ more, readStringRequireUtf8 (size ++ (content ++ more)) = .ok (s, more) := by
  obtain ⟨n, bs', hsize, hread⟩ := Reader.bind_eq_ok_iff.mp h
  obtain ⟨content, bs'', hbytes, hdecode⟩ := Reader.bind_eq_ok_iff.mp hread
  obtain ⟨size, rfl, htaken⟩ := readVarint_local 5 _ _ _ hsize
  obtain ⟨rfl, rfl, hlt⟩ := readRawBytes_ok hbytes
  cases hd : decodeUtf8 content with
  | none =>
    rw [hd] at hdecode
    cases hdecode
  | some t =>
    rw [hd] at hdecode
    cases hdecode
    refine ⟨size, content, rfl, hd, fun more => ?_⟩
    refine Reader.bind_eq_ok_iff.mpr ⟨_, _, htaken (content ++ more), ?_⟩
    refine Reader.bind_eq_ok_iff.mpr ⟨_, _, readRawBytes_append hlt more, ?_⟩
    rw [hd]
    rfl

/-- The bytes of a string field are taken whole, and have to be valid. -/
theorem readString_append {content : List UInt8} (h : content.length < 0x80000000)
    (rest : List UInt8) : readStringRequireUtf8 (varint content.length ++ (content ++ rest)) =
      (decodeUtf8 content).elim (.error .invalidUtf8) fun s => .ok (s, rest) := by
  have hsize : readVarint 5 (varint content.length ++ (content ++ rest)) =
      .ok (content.length, content ++ rest) :=
    readVarint_varintLoop le_rfl (h.trans (by decide)) _
  rw [readStringRequireUtf8, Reader.bind_apply, hsize]
  simp only
  rw [Reader.bind_apply, readRawBytes_append h]
  simp only
  cases decodeUtf8 content <;> rfl

/-! ## Unknown fields -/

/-- The content of a field with its tag read. -/
def skipField (tag : Nat) : Reader Unit :=
  match tag % 8 with
  | 0 => do
    let _ ← readVarint 10
  | 1 => do
    let _ ← readRawBytes 8
  | 2 => do
    let size ← readVarint 5
    let _ ← readRawBytes size
  | 5 => do
    let _ ← readRawBytes 4
  | _ => throw .invalidWireType

/-- The bytes that a reader takes. -/
def bytesOf (x : Reader Unit) : Reader (List UInt8) := fun bs =>
  match x bs with
  | .ok (_, rest) => .ok (bs.take (bs.length - rest.length), rest)
  | .error e => .error e

theorem skipField_local (tag : Nat) : Local (skipField tag) := by
  unfold skipField
  split
  · exact .bind (readVarint_local 10) fun _ => .pure ()
  · exact .bind (readRawBytes_local 8) fun _ => .pure ()
  · exact .bind (readVarint_local 5) fun _ => .bind (readRawBytes_local _) fun _ => .pure ()
  · exact .bind (readRawBytes_local 4) fun _ => .pure ()
  · exact .throw _

theorem bytesOf_ok {x : Reader Unit} (hx : Local x) {bs taken rest : List UInt8}
    (h : bytesOf x bs = .ok (taken, rest)) :
    bs = taken ++ rest ∧ ∀ more, bytesOf x (taken ++ more) = .ok (taken, more) := by
  rw [bytesOf] at h
  split at h
  · rename_i rest' hread
    obtain ⟨taken', rfl, htaken⟩ := hx _ _ _ hread
    have hlength : (taken' ++ rest').length - rest'.length = taken'.length := by
      rw [List.length_append, Nat.add_sub_cancel]
    rw [hlength, List.take_left] at h
    cases h
    refine ⟨rfl, fun more => ?_⟩
    simp only [bytesOf, htaken more, List.length_append, Nat.add_sub_cancel, List.take_left]
  · cases h

theorem bytesOf_local {x : Reader Unit} (hx : Local x) : Local (bytesOf x) := by
  intro bs rest taken h
  obtain ⟨rfl, htaken⟩ := bytesOf_ok hx h
  exact ⟨taken, rfl, htaken⟩

/-! ## The runtime -/

/-- The operations; a set of unknown fields is the bytes of its fields. -/
def runtime : Runtime (List UInt8) where
  readTag := readTag
  readStringRequireUtf8 := readStringRequireUtf8
  checkLastTagWas value lastTag := if lastTag = value then .ok () else .error .invalidEndTag
  writeString := stringField
  computeStringSize n s := Int32.ofNat (stringField n s).length
  noUnknownFields := []
  parseUnknownField tag fields := do
    let content ← bytesOf (skipField tag)
    return (true, fields ++ (varint tag ++ content))
  mergeUnknownFields fields other := fields ++ other
  writeUnknownFields fields := fields
  unknownFieldsSize fields := Int32.ofNat fields.length

theorem runtime_readsTags : runtime.ReadsTags where
  readTag_nil := rfl
  readTag_cons h := by
    have htag := (readTag_cons_iff.mp h).2
    exact ⟨by omega, readTag_taken h⟩
  readTag_varint htag hlt := readTag_varint htag (hlt.trans (by decide))

theorem parse_local (tag : Nat) (fields : List UInt8) :
    Local (runtime.parseUnknownField tag fields) :=
  .bind (bytesOf_local (skipField_local tag)) fun _ => .pure _

/-- A field is read back behind the fields that are read back. -/
theorem parse_readsBack {known : Nat → Bool} {tag : Nat}
    {bs content fields fields' rest : List UInt8} (htag : tag ≠ 0) (hknown : known tag = false)
    (hread : readTag bs = .ok (tag, content))
    (hparse : runtime.parseUnknownField tag fields content = .ok ((true, fields'), rest))
    (hback : runtime.ReadsBack known fields) : runtime.ReadsBack known fields' := by
  cases bs with
  | nil =>
    cases hread
    exact absurd rfl htag
  | cons b bs =>
    obtain ⟨hvarint, hge⟩ := readTag_cons_iff.mp hread
    obtain ⟨taken, content', htaken, h⟩ := Reader.bind_eq_ok_iff.mp hparse
    cases h
    obtain ⟨-, hmore⟩ := bytesOf_ok (skipField_local tag) htaken
    have hlocal : ∀ tag fields, Local (runtime.unknownField known tag fields) := fun tag fields =>
      .ite (.throw _) (parse_local tag fields)
    refine (Fields.append_iff runtime_readsTags hlocal hback).mpr ?_
    refine .cons htag (readTag_varint hge (readVarint_lt hvarint) taken) ?_ (.nil _)
    rw [Runtime.unknownField, if_neg (Bool.eq_false_iff.mp hknown)]
    have hfield := hmore []
    rw [List.append_nil] at hfield
    exact Reader.bind_eq_ok_iff.mpr ⟨_, _, hfield, rfl⟩

/-- **The laws of a runtime hold.** -/
theorem runtime_lawful : runtime.Lawful where
  toReadsTags := runtime_readsTags
  readString_ok := readString_ok
  readString_valid h hd rest := by
    rw [show runtime.readStringRequireUtf8 _ = _ from readString_append h rest, hd]
    rfl
  readString_malformed h hd rest := by
    refine ⟨.invalidUtf8, ?_⟩
    rw [show runtime.readStringRequireUtf8 _ = _ from readString_append h rest, hd]
    rfl
  checkLastTagWas_iff := by
    intro value lastTag
    simp [runtime]
  writeString_eq _ _ := rfl
  computeStringSize_eq _ _ := rfl
  parse_local := parse_local
  parse_readsBack := parse_readsBack
  merge_noUnknownFields := List.append_nil
  write_noUnknownFields := rfl
  unknownFieldsSize_eq _ := rfl

end Raw

end Protobuf
