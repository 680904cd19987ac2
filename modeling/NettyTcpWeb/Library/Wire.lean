import NettyTcpWeb.Library.Utf8

/-!
# Reading the wire format

A message on the wire is a sequence of fields, each with a tag in front that tells its number and
its kind. A reader takes a value from the front of the bytes and does not look behind it; so the
fields of a message are read one after the other, and bytes that are put behind those of a message
continue it.

The runtime that generated code calls is left open: it is a structure of operations, and what
generated code relies on are laws about them. A set of unknown fields is any type, of which only
what is read into it and written from it matters.

## Main definitions

* `WireError`, `Reader`: why bytes are no message, and the readers of `CodedInputStream`
* `Local`: a reader that does not look behind the value it takes
* `Runtime`: the operations of a runtime
* `readMessage`, `Fields`: the loop of a generated constructor, and what it reads as a relation
* `Runtime.HasRead`, `Runtime.ReadsBack`: a set of unknown fields has been read from some bytes, or
  is read back from its own
* `Runtime.ReadsTags`, `Runtime.Lawful`: the documented laws of a runtime

## Main results

* `readMessage_iff`: **the loop reads exactly the sequences of fields**, and it ends
* `Fields.append_iff`: the fields of one sequence behind those of another
* `readsBack_of_hasRead`: **what has been read as unknown fields is read back**
-/

namespace Protobuf

open Java (Text)

/-- Why bytes are no message: the constructors of `InvalidProtocolBufferException`. -/
inductive WireError where
  | truncatedMessage
  | malformedVarint
  | negativeSize
  | invalidTag
  | invalidEndTag
  | invalidUtf8
  | invalidWireType
deriving DecidableEq, Repr

/-- A reader takes a value from the front of the bytes, or raises. -/
abbrev Reader := StateT (List UInt8) (Except WireError)

variable {α β σ : Type}

@[simp] theorem Reader.pure_apply (a : α) (bs : List UInt8) :
    (pure a : Reader α) bs = .ok (a, bs) := rfl

@[simp] theorem Reader.throw_apply (e : WireError) (bs : List UInt8) :
    (throw e : Reader α) bs = .error e := rfl

theorem Reader.bind_apply (x : Reader α) (f : α → Reader β) (bs : List UInt8) : (x >>= f) bs =
    match x bs with
    | .ok (a, rest) => f a rest
    | .error e => .error e := by
  show (x bs >>= fun p => f p.1 p.2) = _
  cases x bs <;> rfl

theorem Reader.bind_eq_ok_iff {x : Reader α} {f : α → Reader β} {bs rest : List UInt8} {b : β} :
    (x >>= f) bs = .ok (b, rest) ↔
      ∃ a bs', x bs = .ok (a, bs') ∧ f a bs' = .ok (b, rest) := by
  rw [Reader.bind_apply]
  cases x bs with
  | error e => simp
  | ok p =>
    constructor
    · exact fun h => ⟨p.1, p.2, rfl, h⟩
    · rintro ⟨a, bs', he, h⟩
      cases he
      exact h

/-! ## Readers that do not look ahead -/

/-- The value is taken from the front of the bytes, whatever follows there. -/
def Local (x : Reader α) : Prop := ∀ bs rest a, x bs = .ok (a, rest) →
  ∃ taken, bs = taken ++ rest ∧ ∀ more, x (taken ++ more) = .ok (a, more)

namespace Local

theorem pure (a : α) : Local (pure a : Reader α) := by
  intro bs rest b h
  cases h
  exact ⟨[], rfl, fun _ => rfl⟩

theorem throw (e : WireError) : Local (throw e : Reader α) := by
  intro bs rest a h
  cases h

theorem bind {x : Reader α} {f : α → Reader β} (hx : Local x) (hf : ∀ a, Local (f a)) :
    Local (x >>= f) := by
  intro bs rest b h
  obtain ⟨a, bs', ha, hb⟩ := Reader.bind_eq_ok_iff.mp h
  obtain ⟨front, rfl, hfront⟩ := hx _ _ _ ha
  obtain ⟨back, rfl, hback⟩ := hf a _ _ _ hb
  refine ⟨front ++ back, (List.append_assoc ..).symm, fun more => ?_⟩
  rw [List.append_assoc]
  exact Reader.bind_eq_ok_iff.mpr ⟨a, _, hfront _, hback more⟩

theorem ite {p : Prop} [Decidable p] {x y : Reader α} (hx : Local x) (hy : Local y) :
    Local (if p then x else y) := by
  split_ifs
  · exact hx
  · exact hy

end Local

/-! ## Numbers -/

/-- A number of at most `k` groups of seven bits. -/
def readVarint : Nat → Reader Nat
  | 0, _ => .error .malformedVarint
  | _ + 1, [] => .error .truncatedMessage
  | k + 1, b :: bs =>
    if b.toNat < 0x80 then .ok (b.toNat, bs)
    else
      match readVarint k bs with
      | .ok (n, rest) => .ok (b.toNat - 0x80 + 0x80 * n, rest)
      | .error e => .error e

theorem readVarint_local (k : Nat) : Local (readVarint k) := by
  induction k with
  | zero =>
    intro bs rest n h
    cases h
  | succ k ih =>
    intro bs rest n h
    cases bs with
    | nil => cases h
    | cons b bs =>
      rw [readVarint] at h
      split at h
      · rename_i hb
        cases h
        exact ⟨[b], rfl, fun more => by rw [List.singleton_append, readVarint, if_pos hb]⟩
      · rename_i hb
        split at h
        · rename_i m rest' hread
          cases h
          obtain ⟨taken, rfl, htaken⟩ := ih _ _ _ hread
          refine ⟨b :: taken, rfl, fun more => ?_⟩
          rw [List.cons_append, readVarint, if_neg hb, htaken]
        · cases h

/-- **A number is read back**, whatever follows it. -/
theorem readVarint_varintLoop {fuel k n : Nat} (hfuel : n ≤ fuel) (hk : n < 0x80 ^ (k + 1))
    (rest : List UInt8) :
    readVarint (k + 1) (varintLoop fuel n ++ rest) = .ok (n, rest) := by
  induction k generalizing fuel n with
  | zero =>
    rcases varintLoop_cases hfuel with ⟨hn, he⟩ | ⟨hn, -⟩
    · rw [he, List.singleton_append, readVarint, toNat_ofNat_of_lt (by omega), if_pos hn]
    · omega
  | succ k ih =>
    rcases varintLoop_cases hfuel with ⟨hn, he⟩ | ⟨hn, fuel', hfuel', he⟩
    · rw [he, List.singleton_append, readVarint, toNat_ofNat_of_lt (by omega), if_pos hn]
    · have hdiv : n / 128 < 0x80 ^ (k + 1) := by
        rw [pow_succ] at hk
        exact Nat.div_lt_of_lt_mul (by rwa [mul_comm])
      rw [he, List.cons_append, readVarint, toNat_ofNat_of_lt (by omega), if_neg (by omega),
        ih hfuel' hdiv]
      simp only [Except.ok.injEq, Prod.mk.injEq, and_true]
      omega

/-! ## Runtimes -/

/-- The operations of a runtime that generated code calls, with the type of its sets of unknown
fields. -/
structure Runtime (U : Type) where
  readTag : Reader Nat
  readStringRequireUtf8 : Reader Text
  /-- The value that the last tag is to have, and the last tag. -/
  checkLastTagWas : Nat → Nat → Except WireError Unit
  writeString : Nat → Text → List UInt8
  computeStringSize : Nat → Text → Int32
  noUnknownFields : U
  /-- Whether the loop goes on, and the set with one more field. -/
  parseUnknownField : Nat → U → Reader (Bool × U)
  mergeUnknownFields : U → U → U
  writeUnknownFields : U → List UInt8
  unknownFieldsSize : U → Int32

section Runtime

variable {U : Type} (R : Runtime U)

/-- The loop of a generated constructor, for at most `fuel` fields: it reads fields until the input
ends or `field` says so, and returns the message with the last tag. -/
def readMessage (field : Nat → σ → Reader (Bool × σ)) : Nat → σ → Reader (σ × Nat)
  | 0, _ => throw .truncatedMessage
  | fuel + 1, message => do
    let tag ← R.readTag
    if tag = 0 then return (message, 0)
    else
      let (goOn, message) ← field tag message
      if goOn then readMessage field fuel message else return (message, tag)

/-- The bytes are a sequence of fields, which lead from one message to another. -/
inductive Fields (field : Nat → σ → Reader (Bool × σ)) : σ → List UInt8 → σ → Prop
  | nil (message : σ) : Fields field message [] message
  | cons {message next last : σ} {tag : Nat} {bs content rest : List UInt8} (htag : tag ≠ 0)
      (hread : R.readTag bs = .ok (tag, content))
      (hfield : field tag message content = .ok ((true, next), rest))
      (hrest : Fields field next rest last) : Fields field message bs last

namespace Runtime

/-- A field that is not a known one is read into the set. -/
def unknownField (known : Nat → Bool) (tag : Nat) (fields : U) : Reader (Bool × U) :=
  if known tag then throw .invalidTag else R.parseUnknownField tag fields

/-- The set has been read from bytes, and none of its fields is a known one. -/
def HasRead (known : Nat → Bool) (fields : U) : Prop :=
  ∃ bs, Fields R (R.unknownField known) R.noUnknownFields bs fields

/-- The set is read back from its bytes, and none of its fields is a known one. -/
def ReadsBack (known : Nat → Bool) (fields : U) : Prop :=
  Fields R (R.unknownField known) R.noUnknownFields (R.writeUnknownFields fields) fields

/-- A tag is read as it is written, and zero is read at the end of the input only. -/
structure ReadsTags : Prop where
  readTag_nil : R.readTag [] = .ok (0, [])
  readTag_cons : ∀ {b bs tag rest}, R.readTag (b :: bs) = .ok (tag, rest) → tag ≠ 0 ∧
    ∃ taken, bs = taken ++ rest ∧ ∀ more, R.readTag (b :: (taken ++ more)) = .ok (tag, more)
  readTag_varint : ∀ {tag}, 8 ≤ tag → tag < 0x100000000 → ∀ rest,
    R.readTag (varint tag ++ rest) = .ok (tag, rest)

/-- What generated code relies on besides the tags. A string is its size and that many bytes of
UTF-8; it is written and read in this form, and malformed bytes are refused. A set of unknown fields
that is read back still is with one more field. -/
structure Lawful : Prop extends R.ReadsTags where
  readString_ok : ∀ {bs s rest}, R.readStringRequireUtf8 bs = .ok (s, rest) →
    ∃ size content, bs = size ++ (content ++ rest) ∧ decodeUtf8 content = some s ∧
      ∀ more, R.readStringRequireUtf8 (size ++ (content ++ more)) = .ok (s, more)
  readString_valid : ∀ {content s}, content.length < 0x80000000 → decodeUtf8 content = some s →
    ∀ rest, R.readStringRequireUtf8 (varint content.length ++ (content ++ rest)) = .ok (s, rest)
  readString_malformed : ∀ {content}, content.length < 0x80000000 → decodeUtf8 content = none →
    ∀ rest, ∃ e, R.readStringRequireUtf8 (varint content.length ++ (content ++ rest)) = .error e
  checkLastTagWas_iff : ∀ {value lastTag}, R.checkLastTagWas value lastTag = .ok () ↔
    lastTag = value
  writeString_eq : ∀ {n}, n < 0x20000000 → ∀ s, R.writeString n s = stringField n s
  computeStringSize_eq : ∀ {n s}, n < 0x20000000 → (stringField n s).length < 0x80000000 →
    R.computeStringSize n s = Int32.ofNat (stringField n s).length
  parse_local : ∀ tag fields, Local (R.parseUnknownField tag fields)
  parse_readsBack : ∀ {known tag bs content fields fields' rest}, tag ≠ 0 → known tag = false →
    R.readTag bs = .ok (tag, content) →
    R.parseUnknownField tag fields content = .ok ((true, fields'), rest) →
    R.ReadsBack known fields → R.ReadsBack known fields'
  merge_noUnknownFields : ∀ fields, R.mergeUnknownFields fields R.noUnknownFields = fields
  write_noUnknownFields : R.writeUnknownFields R.noUnknownFields = []
  unknownFieldsSize_eq : ∀ {fields}, (R.writeUnknownFields fields).length < 0x80000000 →
    R.unknownFieldsSize fields = Int32.ofNat (R.writeUnknownFields fields).length

variable {R}

namespace ReadsTags

variable (hR : R.ReadsTags)

include hR

/-- A tag is read from at least one byte, whatever follows it; at the end there is none. -/
theorem readTag_cases {tag : Nat} {bs rest : List UInt8} (h : R.readTag bs = .ok (tag, rest)) :
    (tag = 0 ∧ bs = [] ∧ rest = []) ∨ (tag ≠ 0 ∧ ∃ taken, taken ≠ [] ∧ bs = taken ++ rest ∧
      ∀ more, R.readTag (taken ++ more) = .ok (tag, more)) := by
  cases bs with
  | nil =>
    rw [hR.readTag_nil] at h
    cases h
    exact .inl ⟨rfl, rfl, rfl⟩
  | cons b bs =>
    obtain ⟨htag, taken, rfl, htaken⟩ := hR.readTag_cons h
    exact .inr ⟨htag, b :: taken, List.cons_ne_nil b taken, rfl, htaken⟩

/-- There is no tag in front of no bytes. -/
theorem readTag_nil_ne {tag : Nat} {content : List UInt8} (htag : tag ≠ 0) :
    R.readTag [] ≠ .ok (tag, content) := by
  rw [hR.readTag_nil]
  intro h
  cases h
  exact htag rfl

end ReadsTags

namespace Lawful

variable (hR : R.Lawful)

include hR

theorem readString_local : Local R.readStringRequireUtf8 := by
  intro bs rest s h
  obtain ⟨size, content, rfl, -, htaken⟩ := hR.readString_ok h
  refine ⟨size ++ content, (List.append_assoc ..).symm, fun more => ?_⟩
  rw [List.append_assoc]
  exact htaken more

/-- **A string field is read back**, with a question mark for each unpaired surrogate. -/
theorem readString_append {s : Text} (h : (utf8 s).length < 0x80000000) (rest : List UInt8) :
    R.readStringRequireUtf8 (varint (utf8 s).length ++ (utf8 s ++ rest)) =
      .ok (replaceUnpaired s, rest) :=
  hR.readString_valid h (decodeUtf8_utf8 s) rest

/-- What is read as a string has no unpaired surrogate. -/
theorem isWellFormed_of_readString {s : Text} {bs rest : List UInt8}
    (h : R.readStringRequireUtf8 bs = .ok (s, rest)) : isWellFormed s = true := by
  obtain ⟨size, content, -, hcontent, -⟩ := hR.readString_ok h
  exact (decodeUtf8_iff.mp hcontent).1

end Lawful

end Runtime

end Runtime

/-! ## Sequences of fields -/

section Fields

variable {U : Type} {R : Runtime U} (hR : R.ReadsTags) {field : Nat → σ → Reader (Bool × σ)}
  (hlocal : ∀ tag message, Local (field tag message))

include hR

/-- No bytes are no field. -/
theorem Fields.eq_of_nil {message last : σ} (h : Fields R field message [] last) :
    last = message := by
  cases h with
  | nil => rfl
  | cons htag hread => exact absurd hread (hR.readTag_nil_ne htag)

include hlocal

/-- A field takes at least one byte. -/
theorem length_lt_of_field {message : σ} {tag : Nat} {bs content rest : List UInt8}
    {r : Bool × σ} (htag : tag ≠ 0) (hread : R.readTag bs = .ok (tag, content))
    (hfield : field tag message content = .ok (r, rest)) : rest.length < bs.length := by
  obtain ⟨h0, -⟩ | ⟨-, taken, hne, rfl, -⟩ := hR.readTag_cases hread
  · exact absurd h0 htag
  · obtain ⟨taken', rfl, -⟩ := hlocal tag message _ _ _ hfield
    have hpos := List.length_pos_iff.mpr hne
    simp only [List.length_append]
    omega

/-- **The loop reads exactly the sequences of fields**, and it ends: each field takes a byte. -/
theorem readMessage_iff {fuel : Nat} {message last : σ} {bs rest : List UInt8}
    (hfuel : bs.length < fuel) : readMessage R field fuel message bs = .ok ((last, 0), rest) ↔
      rest = [] ∧ Fields R field message bs last := by
  induction fuel generalizing message bs with
  | zero => omega
  | succ fuel ih =>
    rw [readMessage, Reader.bind_eq_ok_iff]
    constructor
    · rintro ⟨tag, content, hread, h⟩
      by_cases htag : tag = 0
      · rw [if_pos htag] at h
        cases h
        obtain ⟨-, rfl, rfl⟩ | ⟨hne, -⟩ := hR.readTag_cases hread
        · exact ⟨rfl, .nil _⟩
        · exact absurd htag hne
      · rw [if_neg htag] at h
        obtain ⟨⟨goOn, next⟩, rest', hfield, h⟩ := Reader.bind_eq_ok_iff.mp h
        have hlt := length_lt_of_field hR hlocal htag hread hfield
        cases goOn with
        | false =>
          cases h
          exact absurd rfl htag
        | true =>
          obtain ⟨hrest, hfields⟩ := (ih (by omega)).mp h
          exact ⟨hrest, .cons htag hread hfield hfields⟩
    · rintro ⟨rfl, hfields⟩
      cases hfields with
      | nil => exact ⟨0, [], hR.readTag_nil, rfl⟩
      | cons htag hread hfield hrest =>
        have hlt := length_lt_of_field hR hlocal htag hread hfield
        refine ⟨_, _, hread, ?_⟩
        rw [if_neg htag]
        exact Reader.bind_eq_ok_iff.mpr ⟨_, _, hfield, (ih (by omega)).mpr ⟨rfl, hrest⟩⟩

/-- **The fields of one sequence behind those of another**: they go on where the first ones end. -/
theorem Fields.append_iff {message next last : σ} {bs more : List UInt8}
    (h : Fields R field message bs next) :
    Fields R field message (bs ++ more) last ↔ Fields R field next more last := by
  induction h with
  | nil => exact Iff.rfl
  | @cons message next last tag bs content rest htag hread hfield hrest ih =>
    obtain ⟨h0, -⟩ | ⟨-, taken, hne, rfl, htaken⟩ := hR.readTag_cases hread
    · exact absurd h0 htag
    obtain ⟨taken', rfl, htaken'⟩ := hlocal _ _ _ _ _ hfield
    have hread' := htaken (taken' ++ (rest ++ more))
    have hfield' := htaken' (rest ++ more)
    rw [List.append_assoc, List.append_assoc, ← ih]
    constructor
    · intro hfields
      generalize hbs : taken ++ (taken' ++ (rest ++ more)) = all at hfields hread'
      cases hfields with
      | nil => simp [hne] at hbs
      | cons htag₂ hread₂ hfield₂ hrest₂ =>
        rw [hread'] at hread₂
        cases hread₂
        rw [hfield'] at hfield₂
        cases hfield₂
        exact hrest₂
    · exact fun hrest => .cons htag hread' hfield' hrest

omit hlocal in
/-- A sequence of fields goes on behind its first field. -/
theorem Fields.cons_iff {message last : σ} {tag : Nat} {bs content : List UInt8} (htag : tag ≠ 0)
    (hread : R.readTag bs = .ok (tag, content)) : Fields R field message bs last ↔
      ∃ next rest, field tag message content = .ok ((true, next), rest) ∧
        Fields R field next rest last := by
  constructor
  · intro h
    cases h with
    | nil => exact absurd hread (hR.readTag_nil_ne htag)
    | cons _ hread' hfield hrest =>
      rw [hread] at hread'
      cases hread'
      exact ⟨_, _, hfield, hrest⟩
  · rintro ⟨next, rest, hfield, hrest⟩
    exact .cons htag hread hfield hrest

omit hR hlocal in
/-- What every field preserves holds behind a sequence of fields. -/
theorem Fields.invariant {I : σ → Prop} {message last : σ} {bs : List UInt8}
    (h : Fields R field message bs last) (hI : I message)
    (hstep : ∀ {tag bs message content next rest}, tag ≠ 0 → R.readTag bs = .ok (tag, content) →
      field tag message content = .ok ((true, next), rest) → I message → I next) : I last := by
  induction h with
  | nil => exact hI
  | cons htag hread hfield _ ih => exact ih (hstep htag hread hfield hI)

end Fields

section UnknownFields

variable {U : Type} {R : Runtime U} (hR : R.Lawful) {known : Nat → Bool}

include hR

theorem readsBack_noUnknownFields : R.ReadsBack known R.noUnknownFields := by
  rw [Runtime.ReadsBack, hR.write_noUnknownFields]
  exact .nil _

/-- **What has been read as unknown fields is read back.** -/
theorem readsBack_of_hasRead {fields : U} (h : R.HasRead known fields) :
    R.ReadsBack known fields := by
  obtain ⟨bs, hfields⟩ := h
  refine hfields.invariant (readsBack_noUnknownFields hR) ?_
  intro tag bs fields content next rest htag hread hfield hback
  rw [Runtime.unknownField] at hfield
  split at hfield
  · cases hfield
  · rename_i hknown
    exact hR.parse_readsBack htag (Bool.eq_false_iff.mpr hknown) hread hfield hback

end UnknownFields

end Protobuf
