import NettyTcpWeb.Library.Wire

/-!
# The JavaScript runtime of protocol buffers

The runtime of the web pages writes and reads the same fields as the one of Java, but it checks
less. Its encoder drops a high surrogate in front of a character that does not complete the pair,
and writes every other unpaired surrogate as it stands. Its decoder takes a code point from any
first byte, so it reads back all that either encoder writes.

A failed assertion raises. A cursor behind the end makes the next `nextField` fail, so a read behind
the end raises here at once.

## Main definitions

* `encodeString`, `writeString`: the string fields of `BinaryEncoder` and `BinaryWriter`
* `codePoints`, `dropUnpaired`: the code points that are written, and the text they stand for
* `readUnsignedVarint32`, `readChar`, `readString`: the numbers and strings of `BinaryDecoder`
* `nextField`, `skipField`: the fields of `BinaryReader`

## Main results

* `readString_append`: **the bytes of code points are read back**, surrogates among them or not
* `decodeUtf8_encodeString_iff`: what a strict reader makes of the bytes of the encoder
* `encodeString_eq_iff`: the encoder agrees with a strict one on well-formed texts only
-/

namespace Jspb

open Java (Text Unit16)
open Protobuf

/-! ## Writing -/

/-- `BinaryEncoder.writeString(value)`. -/
def encodeString : Text → List UInt8
  | [] => []
  | [c] => utf8CodePoint c.toNat
  | c :: d :: s =>
    if isHighSurrogate c then
      -- a high surrogate that is not completed is skipped
      if isLowSurrogate d then utf8CodePoint (pair c d) ++ encodeString s
      else encodeString (d :: s)
    else utf8CodePoint c.toNat ++ encodeString (d :: s)

/-- `BinaryWriter.writeString(field, value)`: the header, the length that `endDelimited_` puts in
front of the string, and the string. -/
def writeString (n : Nat) (s : Text) : List UInt8 :=
  varint (n * 8 + 2) ++ (varint (encodeString s).length ++ encodeString s)

/-- The code points that the encoder writes. -/
def codePoints : Text → List Nat
  | [] => []
  | [c] => [c.toNat]
  | c :: d :: s =>
    if isHighSurrogate c then
      if isLowSurrogate d then pair c d :: codePoints s else codePoints (d :: s)
    else c.toNat :: codePoints (d :: s)

/-- The text without the high surrogates that the encoder skips. -/
def dropUnpaired : Text → Text
  | [] => []
  | [c] => [c]
  | c :: d :: s =>
    if isHighSurrogate c then
      if isLowSurrogate d then c :: d :: dropUnpaired s else dropUnpaired (d :: s)
    else c :: dropUnpaired (d :: s)

theorem encodeString_eq (s : Text) : encodeString s = utf8CodePoints (codePoints s) := by
  induction s using codePoints.induct with
  | case1 => rfl
  | case2 c => rw [encodeString, codePoints, utf8CodePoints_cons, utf8CodePoints]; simp
  | case3 c d s hc hd ih =>
    rw [encodeString, codePoints, if_pos hc, if_pos hc, if_pos hd, if_pos hd,
      utf8CodePoints_cons, ih]
  | case4 c d s hc hd ih =>
    rw [encodeString, codePoints, if_pos hc, if_pos hc, if_neg hd, if_neg hd, ih]
  | case5 c d s hc ih =>
    rw [encodeString, codePoints, if_neg hc, if_neg hc, utf8CodePoints_cons, ih]

theorem units_toNat (c : Unit16) : units c.toNat = [c] := by
  rw [units_of_lt c.toNat_lt, UInt16.ofNat_toNat]

/-- The code points stand for the text that is left. -/
theorem ofCodePoints_codePoints (s : Text) : ofCodePoints (codePoints s) = dropUnpaired s := by
  induction s using codePoints.induct with
  | case1 => rfl
  | case2 c =>
    rw [codePoints, ofCodePoints_cons, units_toNat]
    rfl
  | case3 c d s hc hd ih =>
    rw [codePoints, dropUnpaired, if_pos hc, if_pos hc, if_pos hd, if_pos hd, ofCodePoints_cons,
      units_pair (by rw [hc, hd]; rfl), ih]
    rfl
  | case4 c d s hc hd ih =>
    rw [codePoints, dropUnpaired, if_pos hc, if_pos hc, if_neg hd, if_neg hd, ih]
  | case5 c d s hc ih =>
    rw [codePoints, dropUnpaired, if_neg hc, if_neg hc, ofCodePoints_cons, units_toNat, ih]
    rfl

theorem lt_of_mem_codePoints {s : Text} {n : Nat} (h : n ∈ codePoints s) : n < 0x110000 := by
  induction s using codePoints.induct with
  | case1 => cases h
  | case2 c =>
    obtain rfl := List.mem_singleton.mp h
    have hlt := c.toNat_lt
    omega
  | case3 c d s hc hd ih =>
    rw [codePoints, if_pos hc, if_pos hd] at h
    rcases List.mem_cons.mp h with he | h
    · have hs : IsScalar n := he ▸ isScalar_pair (by rw [hc, hd]; rfl)
      exact hs.1
    · exact ih h
  | case4 c d s hc hd ih =>
    rw [codePoints, if_pos hc, if_neg hd] at h
    exact ih h
  | case5 c d s hc ih =>
    rw [codePoints, if_neg hc] at h
    rcases List.mem_cons.mp h with rfl | h
    · have hlt := c.toNat_lt
      omega
    · exact ih h

/-! ## Reading numbers and strings -/

/-- `BinaryDecoder.readUnsignedVarint32()`: the low bits of a number of at most ten groups, which
are signed if it has more than five. -/
def readUnsignedVarint32 : Reader Int := fun bs =>
  match readVarint 10 bs with
  | .error e => .error e
  | .ok (n, rest) =>
    let low : Nat := n % 0x100000000
    if bs.length - rest.length ≤ 5 ∨ low < 0x80000000 then .ok (low, rest)
    else .ok (low - 0x100000000, rest)

/-- `k` bytes behind the first one of a code point: the low six bits of each come behind `n`. -/
def readBits : Nat → Nat → Reader Nat
  | 0, n, bs => .ok (n, bs)
  | _ + 1, _, [] => .error .truncatedMessage
  | k + 1, n, b :: bs => readBits k (n * 0x40 + b.toNat % 0x40) bs

/-- One round of the loop of `BinaryDecoder.readString`: the `char`s of the next code point. The
bytes behind the first one are taken as they come. -/
def readChar : Reader Text
  | [] => .error .truncatedMessage
  | f :: bs =>
    if f.toNat < 0x80 then .ok ([UInt16.ofNat f.toNat], bs)
    else if f.toNat < 0xC0 then .ok ([], bs)
    else if f.toNat < 0xE0 then
      (readBits 1 (f.toNat % 0x20) bs).map fun (n, rest) => ([UInt16.ofNat n], rest)
    else if f.toNat < 0xF0 then
      (readBits 2 (f.toNat % 0x10) bs).map fun (n, rest) => ([UInt16.ofNat n], rest)
    else if f.toNat < 0xF8 then
      (readBits 3 (f.toNat % 8) bs).map fun (n, rest) =>
        let m : Int := n - 0x10000
        ([UInt16.ofNat (0xD800 + (m / 0x400 % 0x400).toNat),
          UInt16.ofNat (0xDC00 + (m % 0x400).toNat)], rest)
    else .ok ([], bs)

/-- The loop of `BinaryDecoder.readString`, for at most `fuel` rounds and `size` bytes; the last
code point may reach behind them. -/
def readChars : Nat → Nat → Reader Text
  | 0, _, bs => .ok ([], bs)
  | _ + 1, 0, bs => .ok ([], bs)
  | fuel + 1, size + 1, bs =>
    match readChar bs with
    | .error e => .error e
    | .ok (cs, rest) =>
      match readChars fuel (size + 1 - (bs.length - rest.length)) rest with
      | .error e => .error e
      | .ok (s, rest) => .ok (cs ++ s, rest)

/-- `BinaryReader.readString()` of a field of the given kind. -/
def readString (wireType : Nat) : Reader Text :=
  if wireType = 2 then do
    let length ← readUnsignedVarint32
    readChars length.toNat length.toNat
  else throw .invalidWireType

theorem readBits_tails {k m n : Nat} (h : n / 64 ^ k = m) (rest : List UInt8) :
    readBits k m (tails k n ++ rest) = .ok (n, rest) := by
  induction k generalizing m with
  | zero =>
    rw [pow_zero, Nat.div_one] at h
    rw [h]
    rfl
  | succ k ih =>
    rw [pow_succ, ← Nat.div_div_eq_div_mul] at h
    rw [tails, List.cons_append, readBits, toNat_ofNat_of_lt (by omega)]
    exact ih (by omega)

/-- A code point in its shortest form is read back, a surrogate or not. -/
theorem readChar_append {n : Nat} (h : n < 0x110000) (rest : List UInt8) :
    readChar (utf8CodePoint n ++ rest) = .ok (units n, rest) := by
  rcases Nat.lt_or_ge n 0x80 with h1 | h1
  · rw [utf8CodePoint, if_pos h1, List.singleton_append, readChar, toNat_ofNat_of_lt (by omega),
      if_pos h1, units_of_lt (by omega)]
  rcases Nat.lt_or_ge n 0x800 with h2 | h2
  · rw [utf8CodePoint_of_lt_0x800 h1 h2, List.cons_append, readChar, toNat_ofNat_of_lt (by omega),
      if_neg (by omega), if_neg (by omega), if_pos (by omega), readBits_tails (by omega),
      units_of_lt (by omega)]
    rfl
  rcases Nat.lt_or_ge n 0x10000 with h3 | h3
  · rw [utf8CodePoint_of_lt_0x10000 h2 h3, List.cons_append, readChar,
      toNat_ofNat_of_lt (by omega), if_neg (by omega), if_neg (by omega), if_neg (by omega),
      if_pos (by omega), readBits_tails (by omega), units_of_lt h3]
    rfl
  · have hhigh : (((n : Int) - 0x10000) / 0x400 % 0x400).toNat = (n - 0x10000) / 0x400 := by omega
    have hlow : (((n : Int) - 0x10000) % 0x400).toNat = (n - 0x10000) % 0x400 := by omega
    rw [utf8CodePoint_of_ge_0x10000 h3, List.cons_append, readChar,
      toNat_ofNat_of_lt (by omega), if_neg (by omega), if_neg (by omega), if_neg (by omega),
      if_neg (by omega), if_pos (by omega), readBits_tails (by omega),
      units_of_ge (Nat.not_lt.mpr h3), ← hhigh, ← hlow]
    rfl

/-- **The bytes of code points are read back**, whatever follows them. -/
theorem readChars_append {ns : List Nat} (h : ∀ n ∈ ns, n < 0x110000) {fuel : Nat}
    (hfuel : (utf8CodePoints ns).length ≤ fuel) (rest : List UInt8) :
    readChars fuel (utf8CodePoints ns).length (utf8CodePoints ns ++ rest) =
      .ok (ofCodePoints ns, rest) := by
  induction ns generalizing fuel with
  | nil => cases fuel <;> rfl
  | cons n ns ih =>
    obtain ⟨hn, hns⟩ := List.forall_mem_cons.mp h
    have hpos := length_utf8CodePoint_pos n
    rw [utf8CodePoints_cons, List.length_append] at hfuel ⊢
    obtain ⟨fuel, rfl⟩ : ∃ k, fuel = k + 1 := ⟨fuel - 1, by omega⟩
    obtain ⟨size, hsize⟩ : ∃ k, (utf8CodePoint n).length + (utf8CodePoints ns).length = k + 1 :=
      ⟨_ - 1, (Nat.sub_add_cancel (by omega)).symm⟩
    have hleft : size + 1 - ((utf8CodePoint n ++ (utf8CodePoints ns ++ rest)).length -
        (utf8CodePoints ns ++ rest).length) = (utf8CodePoints ns).length := by
      rw [List.length_append]
      omega
    rw [hsize, List.append_assoc, readChars, readChar_append hn]
    simp only [hleft]
    rw [ih hns (by omega), ofCodePoints_cons]

theorem readUnsignedVarint32_varint {n : Nat} (h : n < 0x80000000) (rest : List UInt8) :
    readUnsignedVarint32 (varint n ++ rest) = .ok (n, rest) := by
  have hread : readVarint 10 (varint n ++ rest) = .ok (n, rest) :=
    readVarint_varintLoop le_rfl (h.trans (by decide)) rest
  have hlow : n % 0x100000000 = n := Nat.mod_eq_of_lt (by omega)
  rw [readUnsignedVarint32, hread]
  simp only [hlow, h, or_true, if_true]

/-- **A string field of code points is read back**, surrogates among them or not. -/
theorem readString_append {ns : List Nat} (h : ∀ n ∈ ns, n < 0x110000)
    (hlen : (utf8CodePoints ns).length < 0x80000000) (rest : List UInt8) :
    readString 2 (varint (utf8CodePoints ns).length ++ (utf8CodePoints ns ++ rest)) =
      .ok (ofCodePoints ns, rest) := by
  have hsize := readUnsignedVarint32_varint hlen (utf8CodePoints ns ++ rest)
  have hchars := readChars_append h le_rfl rest
  rw [readString, if_pos rfl]
  refine Reader.bind_eq_ok_iff.mpr ⟨_, _, hsize, ?_⟩
  rw [Int.toNat_natCast]
  exact hchars

/-! ## Reading fields -/

/-- `BinaryReader.nextField()`: the number and the kind of the next field, if there is one. -/
def nextField : Reader (Option (Nat × Nat))
  | [] => .ok (none, [])
  | b :: bs =>
    match readUnsignedVarint32 (b :: bs) with
    | .error e => .error e
    | .ok (a, rest) =>
      let tag := (a % 0x100000000).toNat
      if tag % 8 ≤ 5 then .ok (some (tag / 8, tag % 8), rest) else .error .invalidWireType

/-- `BinaryDecoder.advance(count)` in a block of the given bytes. -/
def advance (bytes : List UInt8) (count : Int) : Reader Unit := fun rest =>
  let cursor : Int := bytes.length - rest.length + count
  if 0 ≤ cursor ∧ cursor ≤ bytes.length then .ok ((), bytes.drop cursor.toNat)
  else .error .truncatedMessage

/-- `BinaryDecoder.skipVarint()`. -/
def skipVarint : Reader Unit
  | [] => .error .truncatedMessage
  | b :: bs => if 0x80 ≤ b.toNat then skipVarint bs else .ok ((), bs)

/-- `BinaryReader.skipGroup()` for at most `fuel` fields: of the fields in a group it reads the
headers only. -/
def skipGroup : Nat → List Nat → Reader Unit
  | _, [] => pure ()
  | 0, _ :: _ => throw .truncatedMessage
  | fuel + 1, group :: groups => do
    match ← nextField with
    | none => throw .invalidEndTag
    | some (field, wireType) =>
      if wireType = 3 then skipGroup fuel (field :: group :: groups)
      else if wireType = 4 then
        if field = group then skipGroup fuel groups else throw .invalidEndTag
      else skipGroup fuel (group :: groups)

/-- `BinaryReader.skipField()` for a field with the given number and kind; each header of a group
has at least one byte. -/
def skipField (bytes : List UInt8) (field wireType : Nat) : Reader Unit :=
  match wireType with
  | 0 => skipVarint
  | 1 => advance bytes 8
  | 2 => do
    let count ← readUnsignedVarint32
    advance bytes count
  | 3 => skipGroup bytes.length [field]
  | 5 => advance bytes 4
  | _ => throw .invalidWireType

theorem nextField_varint {n wireType : Nat} (hn : n * 8 + wireType < 0x80000000)
    (hw : wireType ≤ 5) (rest : List UInt8) :
    nextField (varint (n * 8 + wireType) ++ rest) = .ok (some (n, wireType), rest) := by
  have hread := readUnsignedVarint32_varint hn rest
  obtain ⟨b, bs, he⟩ := List.exists_cons_of_ne_nil (varint_ne_nil (n * 8 + wireType))
  rw [he, List.cons_append] at hread ⊢
  have htag : (((n * 8 + wireType : Nat) : Int) % 0x100000000).toNat = n * 8 + wireType := by omega
  rw [nextField, hread]
  simp only [htag]
  rw [if_pos (by omega), show (n * 8 + wireType) / 8 = n by omega,
    show (n * 8 + wireType) % 8 = wireType by omega]

/-! ## What a strict reader makes of it -/

theorem units_inj {n m : Nat} (hn : n < 0x110000) (hm : m < 0x110000) (h : units n = units m) :
    n = m := by
  have hofNat : ∀ {a b : Nat}, a < 0x10000 → b < 0x10000 → UInt16.ofNat a = UInt16.ofNat b →
      a = b := by
    intro a b ha hb he
    have he' := congrArg UInt16.toNat he
    rwa [UInt16.toNat_ofNat', UInt16.toNat_ofNat', Nat.mod_eq_of_lt ha, Nat.mod_eq_of_lt hb] at he'
  by_cases hn' : n < 0x10000 <;> by_cases hm' : m < 0x10000
  · rw [units_of_lt hn', units_of_lt hm', List.cons.injEq] at h
    exact hofNat hn' hm' h.1
  · rw [units_of_lt hn', units_of_ge hm'] at h
    cases (List.cons.inj h).2
  · rw [units_of_ge hn', units_of_lt hm'] at h
    cases (List.cons.inj h).2
  · rw [units_of_ge hn', units_of_ge hm', List.cons.injEq, List.cons.injEq] at h
    have hhigh := hofNat (by omega) (by omega) h.1
    have hlow := hofNat (by omega) (by omega) h.2.1
    omega

/-- Different code points have different bytes, surrogates among them or not. -/
theorem utf8CodePoints_inj {ns ms : List Nat} (hns : ∀ n ∈ ns, n < 0x110000)
    (hms : ∀ n ∈ ms, n < 0x110000) (h : utf8CodePoints ns = utf8CodePoints ms) : ns = ms := by
  induction ns generalizing ms with
  | nil => exact (utf8CodePoints_eq_nil_iff.mp h.symm).symm
  | cons n ns ih =>
    cases ms with
    | nil => exact utf8CodePoints_eq_nil_iff.mp h
    | cons m ms =>
      obtain ⟨hn, hns⟩ := List.forall_mem_cons.mp hns
      obtain ⟨hm, hms⟩ := List.forall_mem_cons.mp hms
      rw [utf8CodePoints_cons, utf8CodePoints_cons] at h
      have hread := readChar_append hn (utf8CodePoints ns)
      rw [h, readChar_append hm] at hread
      obtain ⟨hunits, htail⟩ := Prod.mk.inj (Except.ok.inj hread)
      rw [units_inj hn hm hunits.symm, ih hns hms htail.symm]

/-- **A strict reader** accepts what the encoder writes if no code point is a surrogate. -/
theorem decodeUtf8_encodeString_iff {s t : Text} : decodeUtf8 (encodeString s) = some t ↔
    (∀ n ∈ codePoints s, IsScalar n) ∧ t = dropUnpaired s := by
  rw [decodeUtf8, Option.map_eq_some_iff, encodeString_eq, ← ofCodePoints_codePoints]
  constructor
  · rintro ⟨ns, hns, rfl⟩
    obtain ⟨hscalar, he⟩ := readCodePoints_iff.mp hns
    obtain rfl := utf8CodePoints_inj (fun n hn => lt_of_mem_codePoints hn)
      (fun n hn => (hscalar n hn).1) he
    exact ⟨hscalar, rfl⟩
  · rintro ⟨hscalar, rfl⟩
    exact ⟨_, readCodePoints_iff.mpr ⟨hscalar, rfl⟩, rfl⟩

theorem isWellFormed_cons_of_not_high {c : Unit16} (h : isHighSurrogate c = false) (s : Text) :
    isWellFormed (c :: s) = (!isLowSurrogate c && isWellFormed s) := by
  cases s with
  | nil => simp [isWellFormed, h]
  | cons d s => simp [isWellFormed, h]

theorem isScalar_toNat_iff (c : Unit16) :
    IsScalar c.toNat ↔ (!(isHighSurrogate c || isLowSurrogate c)) = true := by
  have hlt := c.toNat_lt
  rw [Bool.not_eq_true', Bool.or_eq_false_iff, ← Bool.not_eq_true, ← Bool.not_eq_true,
    isHighSurrogate_iff, isLowSurrogate_iff, IsScalar]
  omega

/-- No code point is a surrogate if the text that is left has its surrogates in pairs. -/
theorem isScalar_codePoints_iff {s : Text} :
    (∀ n ∈ codePoints s, IsScalar n) ↔ isWellFormed (dropUnpaired s) = true := by
  induction s using codePoints.induct with
  | case1 => simp [codePoints, dropUnpaired, isWellFormed]
  | case2 c =>
    rw [codePoints, dropUnpaired, isWellFormed, List.forall_mem_singleton]
    exact isScalar_toNat_iff c
  | case3 c d s hc hd ih =>
    have hpair : (isHighSurrogate c && isLowSurrogate d) = true := by rw [hc, hd]; rfl
    rw [codePoints, dropUnpaired, if_pos hc, if_pos hc, if_pos hd, if_pos hd,
      List.forall_mem_cons, ih, isWellFormed, if_pos hpair]
    exact and_iff_right (isScalar_pair hpair)
  | case4 c d s hc hd ih =>
    rw [codePoints, dropUnpaired, if_pos hc, if_pos hc, if_neg hd, if_neg hd, ih]
  | case5 c d s hc ih =>
    have hhigh : isHighSurrogate c = false := by simpa using hc
    rw [codePoints, dropUnpaired, if_neg hc, if_neg hc, List.forall_mem_cons, ih,
      isScalar_toNat_iff, isWellFormed_cons_of_not_high hhigh, hhigh, Bool.false_or,
      Bool.and_eq_true]

theorem dropUnpaired_sublist (s : Text) : (dropUnpaired s).Sublist s := by
  induction s using codePoints.induct with
  | case1 => exact .slnil
  | case2 c => exact .refl _
  | case3 c d s hc hd ih =>
    rw [dropUnpaired, if_pos hc, if_pos hd]
    exact (ih.cons_cons d).cons_cons c
  | case4 c d s hc hd ih =>
    rw [dropUnpaired, if_pos hc, if_neg hd]
    exact ih.cons c
  | case5 c d s hc ih =>
    rw [dropUnpaired, if_neg hc]
    exact ih.cons_cons c

/-- From a well-formed text nothing is dropped. -/
theorem dropUnpaired_of_isWellFormed {s : Text} (h : isWellFormed s = true) :
    dropUnpaired s = s := by
  induction s using codePoints.induct with
  | case1 => rfl
  | case2 c => rfl
  | case3 c d s hc hd ih =>
    rw [isWellFormed, if_pos (by rw [hc, hd]; rfl)] at h
    rw [dropUnpaired, if_pos hc, if_pos hd, ih h]
  | case4 c d s hc hd ih =>
    rw [isWellFormed, if_neg (by simp [hd]), hc] at h
    cases h
  | case5 c d s hc ih =>
    rw [isWellFormed_cons_of_not_high (by simpa using hc), Bool.and_eq_true] at h
    rw [dropUnpaired, if_neg hc, ih h.2]

/-- **The encoder agrees with the strict one** on the texts without unpaired surrogates, and on no
others. -/
theorem encodeString_eq_iff {s : Text} : encodeString s = utf8 s ↔ isWellFormed s = true := by
  constructor
  · intro h
    have hread := decodeUtf8_utf8 s
    rw [← h, decodeUtf8_encodeString_iff, isScalar_codePoints_iff] at hread
    have hlen := length_replaceUnpaired s
    rw [hread.2] at hlen
    rw [← (dropUnpaired_sublist s).eq_of_length hlen]
    exact hread.1
  · intro h
    have hread := decodeUtf8_encodeString_iff.mpr
      ⟨isScalar_codePoints_iff.mpr (by rwa [dropUnpaired_of_isWellFormed h]), rfl⟩
    rw [(decodeUtf8_iff.mp hread).2, dropUnpaired_of_isWellFormed h]

end Jspb
