import NettyTcpWeb.Library.Text

/-!
# String fields on the wire

A string field of a protocol buffer is a tag, the number of its bytes and its UTF-8 bytes, the two
numbers in groups of seven bits. An unpaired surrogate, which UTF-8 cannot write, becomes a question
mark, so different texts may share their bytes; a text of ASCII characters other than the question
mark shares its bytes with no other text.

## Main definitions

* `varint`: a number in groups of seven bits
* `utf8`: the bytes of a Java string
* `stringField`: a string field

## Main results

* `varint_append_inj`: a number is read back from its bytes, whatever follows them
* `eq_of_utf8_eq`: a text of plain ASCII is read back from its bytes
-/

namespace Protobuf

open Java (Text Unit16 ch)

/-! ## Numbers -/

/-- The loop of `varint`, for at most `fuel` groups. -/
def varintLoop : Nat → Nat → List UInt8
  | 0, n => [UInt8.ofNat n]
  | fuel + 1, n =>
    if n < 128 then [UInt8.ofNat n]
    else UInt8.ofNat (n % 128 + 128) :: varintLoop fuel (n / 128)

/-- A number in groups of seven bits, the low ones first; all but the last one have the high bit. -/
def varint (n : Nat) : List UInt8 := varintLoop n n

theorem ofNat_inj_of_lt {m n : Nat} (hm : m < 256) (hn : n < 256)
    (h : UInt8.ofNat m = UInt8.ofNat n) : m = n := by
  have h' := congrArg UInt8.toNat h
  rwa [UInt8.toNat_ofNat', UInt8.toNat_ofNat', Nat.mod_eq_of_lt hm, Nat.mod_eq_of_lt hn] at h'

/-- A number is its own only group, or the loop goes on with its higher groups. -/
theorem varintLoop_cases {fuel n : Nat} (h : n ≤ fuel) :
    (n < 128 ∧ varintLoop fuel n = [UInt8.ofNat n]) ∨
      (128 ≤ n ∧ ∃ fuel', n / 128 ≤ fuel' ∧
        varintLoop fuel n = UInt8.ofNat (n % 128 + 128) :: varintLoop fuel' (n / 128)) := by
  cases fuel with
  | zero =>
    obtain rfl : n = 0 := by omega
    exact .inl ⟨by decide, rfl⟩
  | succ fuel =>
    by_cases hn : n < 128
    · exact .inl ⟨hn, if_pos hn⟩
    · exact .inr ⟨by omega, fuel, by omega, if_neg hn⟩

theorem varintLoop_append_inj {fuel fuel' a b : Nat} {x y : List UInt8} (ha : a ≤ fuel)
    (hb : b ≤ fuel') (h : varintLoop fuel a ++ x = varintLoop fuel' b ++ y) : a = b ∧ x = y := by
  induction a using Nat.strongRecOn generalizing fuel fuel' b with
  | ind a ih =>
    rcases varintLoop_cases ha with ⟨ha', he⟩ | ⟨ha', fuel₁, hfuel₁, he⟩ <;>
      rcases varintLoop_cases hb with ⟨hb', he'⟩ | ⟨hb', fuel₂, hfuel₂, he'⟩ <;>
      rw [he, he', List.cons_append, List.cons_append, List.cons.injEq] at h <;>
      have hhead := ofNat_inj_of_lt (by omega) (by omega) h.1
    · exact ⟨hhead, h.2⟩
    · omega
    · omega
    · obtain ⟨hdiv, rfl⟩ := ih (a / 128) (by omega) hfuel₁ hfuel₂ h.2
      exact ⟨by omega, rfl⟩

/-- A number is read back from its bytes, whatever follows them. -/
theorem varint_append_inj {a b : Nat} {x y : List UInt8} (h : varint a ++ x = varint b ++ y) :
    a = b ∧ x = y := varintLoop_append_inj le_rfl le_rfl h

/-! ## Texts -/

/-- The bytes of a code point. -/
def utf8CodePoint (n : Nat) : List UInt8 :=
  if n < 0x80 then [UInt8.ofNat n]
  else if n < 0x800 then [UInt8.ofNat (0xC0 + n / 0x40), UInt8.ofNat (0x80 + n % 0x40)]
  else if n < 0x10000 then
    [UInt8.ofNat (0xE0 + n / 0x1000), UInt8.ofNat (0x80 + n / 0x40 % 0x40),
      UInt8.ofNat (0x80 + n % 0x40)]
  else
    [UInt8.ofNat (0xF0 + n / 0x40000), UInt8.ofNat (0x80 + n / 0x1000 % 0x40),
      UInt8.ofNat (0x80 + n / 0x40 % 0x40), UInt8.ofNat (0x80 + n % 0x40)]

/-- `Character.isHighSurrogate(char)`. -/
def isHighSurrogate (c : Unit16) : Bool := 0xD800 ≤ c && c ≤ 0xDBFF

/-- `Character.isLowSurrogate(char)`. -/
def isLowSurrogate (c : Unit16) : Bool := 0xDC00 ≤ c && c ≤ 0xDFFF

theorem isHighSurrogate_iff {c : Unit16} :
    isHighSurrogate c = true ↔ 0xD800 ≤ c.toNat ∧ c.toNat ≤ 0xDBFF := by
  simp [isHighSurrogate, UInt16.le_iff_toNat_le]

theorem isLowSurrogate_iff {c : Unit16} :
    isLowSurrogate c = true ↔ 0xDC00 ≤ c.toNat ∧ c.toNat ≤ 0xDFFF := by
  simp [isLowSurrogate, UInt16.le_iff_toNat_le]

/-- The bytes of a `char` that is not in a pair. -/
def utf8Unit (c : Unit16) : List UInt8 :=
  if isHighSurrogate c || isLowSurrogate c then [0x3F] else utf8CodePoint c.toNat

/-- `s.getBytes(UTF_8)`. -/
def utf8 : Text → List UInt8
  | [] => []
  | [c] => utf8Unit c
  | c :: d :: s =>
    if isHighSurrogate c && isLowSurrogate d then
      utf8CodePoint (0x10000 + (c.toNat - 0xD800) * 0x400 + (d.toNat - 0xDC00)) ++ utf8 s
    else utf8Unit c ++ utf8 (d :: s)

/-- A character of plain ASCII: its byte stands for it alone. -/
def IsPlain (c : Unit16) : Prop := c < 0x80 ∧ c ≠ 0x3F

instance (c : Unit16) : Decidable (IsPlain c) := inferInstanceAs (Decidable (_ ∧ _))

/-- Behind ASCII every code point begins with a high byte. -/
theorem utf8CodePoint_of_ge {n : Nat} (h : 0x80 ≤ n) (hn : n < 0x110000) :
    ∃ b bs, utf8CodePoint n = b :: bs ∧ 0x80 ≤ b := by
  have hhigh : ∀ k, 0x80 ≤ k → k < 0x100 → (0x80 : UInt8) ≤ UInt8.ofNat k := by
    intro k hk hk'
    rw [UInt8.le_iff_toNat_le, UInt8.toNat_ofNat', Nat.mod_eq_of_lt hk']
    exact hk
  rw [utf8CodePoint, if_neg (by omega)]
  split_ifs
  · exact ⟨_, _, rfl, hhigh _ (by omega) (by omega)⟩
  · exact ⟨_, _, rfl, hhigh _ (by omega) (by omega)⟩
  · exact ⟨_, _, rfl, hhigh _ (by omega) (by omega)⟩

theorem utf8Unit_of_ascii {c : Unit16} (h : c < 0x80) : utf8Unit c = [c.toUInt8] := by
  have hc : c.toNat < 0x80 := UInt16.lt_iff_toNat_lt.mp h
  have hsurrogate : ¬(isHighSurrogate c || isLowSurrogate c) = true := by
    rw [Bool.or_eq_true, isHighSurrogate_iff, isLowSurrogate_iff]
    omega
  rw [utf8Unit, if_neg hsurrogate, utf8CodePoint, if_pos hc]
  rfl

theorem utf8Unit_of_not_ascii {c : Unit16} (h : ¬c < 0x80) :
    ∃ b bs, utf8Unit c = b :: bs ∧ (b = 0x3F ∨ 0x80 ≤ b) := by
  have hc : ¬c.toNat < 0x80 := fun hlt => h (UInt16.lt_iff_toNat_lt.mpr hlt)
  rw [utf8Unit]
  split
  · exact ⟨_, _, rfl, .inl rfl⟩
  · obtain ⟨b, bs, he, hb⟩ := utf8CodePoint_of_ge (n := c.toNat) (by omega)
      (by have := c.toNat_lt; omega)
    exact ⟨b, bs, he, .inr hb⟩

theorem utf8_singleton (c : Unit16) : utf8 [c] = utf8Unit c := rfl

/-- An ASCII character is one byte. -/
theorem utf8_cons_of_ascii {c : Unit16} {s : Text} (h : c < 0x80) :
    utf8 (c :: s) = c.toUInt8 :: utf8 s := by
  cases s with
  | nil => rw [utf8_singleton, utf8Unit_of_ascii h, utf8]
  | cons d s =>
    have hc : c.toNat < 0x80 := UInt16.lt_iff_toNat_lt.mp h
    have hpair : ¬(isHighSurrogate c && isLowSurrogate d) = true := by
      rw [Bool.and_eq_true, isHighSurrogate_iff]
      omega
    rw [utf8, if_neg hpair, utf8Unit_of_ascii h]
    rfl

/-- Every other character begins with a byte that stands for no plain character. -/
theorem utf8_cons_of_not_ascii {c : Unit16} (h : ¬c < 0x80) (s : Text) :
    ∃ b bs, utf8 (c :: s) = b :: bs ∧ (b = 0x3F ∨ 0x80 ≤ b) := by
  obtain ⟨b, bs, hunit, hb⟩ := utf8Unit_of_not_ascii h
  cases s with
  | nil => exact ⟨b, bs, hunit, hb⟩
  | cons d s =>
    rw [utf8]
    split
    · rename_i hpair
      rw [Bool.and_eq_true, isHighSurrogate_iff, isLowSurrogate_iff] at hpair
      obtain ⟨b, bs, he, hb⟩ := utf8CodePoint_of_ge
        (n := 0x10000 + (c.toNat - 0xD800) * 0x400 + (d.toNat - 0xDC00)) (by omega) (by omega)
      exact ⟨b, bs ++ utf8 s, by rw [he, List.cons_append], .inr hb⟩
    · exact ⟨b, bs ++ utf8 (d :: s), by rw [hunit, List.cons_append], hb⟩

theorem utf8_cons_ne_nil (c : Unit16) (s : Text) : utf8 (c :: s) ≠ [] := by
  by_cases hc : c < 0x80
  · rw [utf8_cons_of_ascii hc]
    exact List.cons_ne_nil _ _
  · obtain ⟨b, bs, hb, -⟩ := utf8_cons_of_not_ascii hc s
    rw [hb]
    exact List.cons_ne_nil b bs

theorem toNat_toUInt8_of_ascii {c : Unit16} (h : c < 0x80) : c.toUInt8.toNat = c.toNat := by
  have hc : c.toNat < 0x80 := UInt16.lt_iff_toNat_lt.mp h
  rw [UInt16.toNat_toUInt8]
  omega

/-- **A text of plain ASCII is read back from its bytes.** -/
theorem eq_of_utf8_eq {s t : Text} (hs : ∀ c ∈ s, IsPlain c) (h : utf8 t = utf8 s) : t = s := by
  induction s generalizing t with
  | nil =>
    cases t with
    | nil => rfl
    | cons d t => exact absurd h (utf8_cons_ne_nil d t)
  | cons c s ih =>
    have hc := hs c List.mem_cons_self
    rw [utf8_cons_of_ascii hc.1] at h
    cases t with
    | nil => cases h
    | cons d t =>
      by_cases hd : d < 0x80
      · rw [utf8_cons_of_ascii hd, List.cons.injEq] at h
        have hcd : d.toNat = c.toNat := by
          rw [← toNat_toUInt8_of_ascii hd, ← toNat_toUInt8_of_ascii hc.1, h.1]
        rw [UInt16.toNat_inj.mp hcd, ih (fun e he => hs e (List.mem_cons_of_mem _ he)) h.2]
      · obtain ⟨b, bs, hb, hlead⟩ := utf8_cons_of_not_ascii hd t
        rw [hb, List.cons.injEq] at h
        have hlt := UInt16.lt_iff_toNat_lt.mp hc.1
        have hbyte : b.toNat = c.toNat := by rw [← toNat_toUInt8_of_ascii hc.1, h.1]
        rcases hlead with rfl | hlead
        · exact absurd (UInt16.toNat_inj.mp hbyte.symm) hc.2
        · have hge := UInt8.le_iff_toNat_le.mp hlead
          rw [hbyte] at hge
          exact absurd hlt (Nat.not_lt.mpr hge)

/-! ## Fields -/

/-- The string field with a number: the tag, the number of bytes and the bytes. -/
def stringField (n : Nat) (s : Text) : List UInt8 :=
  varint (n * 8 + 2) ++ (varint (utf8 s).length ++ utf8 s)

theorem varint_ne_nil (n : Nat) : varint n ≠ [] := by
  rcases varintLoop_cases (le_refl n) with ⟨-, h⟩ | ⟨-, fuel, -, h⟩ <;>
    rw [varint, h] <;> exact List.cons_ne_nil _ _

theorem stringField_ne_nil (n : Nat) (s : Text) : stringField n s ≠ [] :=
  List.append_ne_nil_of_left_ne_nil (varint_ne_nil _) _

theorem eq_of_stringField_eq {n : Nat} {s t : Text} (hs : ∀ c ∈ s, IsPlain c)
    (h : stringField n t = stringField n s) : t = s := by
  have hlen := List.append_cancel_left h
  exact eq_of_utf8_eq hs (varint_append_inj hlen).2

end Protobuf
