import Mathlib.Algebra.Group.Nat.Defs
import NettyTcpWeb.Library.Protobuf

/-!
# Reading UTF-8

UTF-8 writes a code point in one to four bytes, and a reader accepts the shortest form only, and no
surrogate. So the bytes that a strict reader accepts are those of exactly one list of code points,
and a Java string without unpaired surrogates is read back from its bytes; an unpaired surrogate is
read back as the question mark that was written for it.

## Main definitions

* `IsScalar`, `readCodePoint`, `readCodePoints`: code points, and the strict reader
* `units`, `codePoints`: the `char`s of a code point, and the code points written for a text
* `decodeUtf8`: `new String(bytes, UTF_8)` on bytes that are valid
* `isWellFormed`, `replaceUnpaired`: texts without unpaired surrogates, and the text that the reader
  finds

## Main results

* `readCodePoint_iff`, `readCodePoints_iff`: **the reader accepts exactly the written code points**
* `decodeUtf8_utf8`: what the reader finds in the bytes of a text
* `decodeUtf8_iff`: **the valid bytes are those of one well-formed text each**
-/

namespace Protobuf

open Java (Text Unit16)

/-! ## Code points -/

/-- A code point that UTF-8 can write: it is no surrogate. -/
def IsScalar (n : Nat) : Prop := n < 0x110000 ∧ ¬(0xD800 ≤ n ∧ n ≤ 0xDFFF)

instance (n : Nat) : Decidable (IsScalar n) := inferInstanceAs (Decidable (_ ∧ _))

/-- The bytes behind the first one of a code point, six bits each. -/
def tails : Nat → Nat → List UInt8
  | 0, _ => []
  | k + 1, n => UInt8.ofNat (0x80 + n / 64 ^ k % 0x40) :: tails k n

/-- `k` bytes behind the first one of a code point, whose bits come behind those of `n`. -/
def readTails : Nat → Nat → List UInt8 → Option (Nat × List UInt8)
  | 0, n, bs => some (n, bs)
  | _ + 1, _, [] => none
  | k + 1, n, b :: bs =>
    if 0x80 ≤ b.toNat ∧ b.toNat < 0xC0 then readTails k (n * 0x40 + (b.toNat - 0x80)) bs else none

/-- The code point in front of the bytes, in its shortest form, and the bytes behind it. -/
def readCodePoint : List UInt8 → Option (Nat × List UInt8)
  | [] => none
  | a :: bs =>
    if a.toNat < 0x80 then some (a.toNat, bs)
    else if a.toNat < 0xC0 then none
    else if a.toNat < 0xE0 then
      (readTails 1 (a.toNat - 0xC0) bs).filter fun r => 0x80 ≤ r.1
    else if a.toNat < 0xF0 then
      (readTails 2 (a.toNat - 0xE0) bs).filter fun r => 0x800 ≤ r.1 ∧ IsScalar r.1
    else if a.toNat < 0xF8 then
      (readTails 3 (a.toNat - 0xF0) bs).filter fun r => 0x10000 ≤ r.1 ∧ IsScalar r.1
    else none

theorem toNat_ofNat_of_lt {n : Nat} (h : n < 256) : (UInt8.ofNat n).toNat = n := by
  rw [UInt8.toNat_ofNat', Nat.mod_eq_of_lt h]

theorem eq_ofNat_iff {b : UInt8} {n : Nat} (h : n < 256) : b = UInt8.ofNat n ↔ b.toNat = n := by
  rw [← UInt8.toNat_inj, toNat_ofNat_of_lt h]

/-- **The bytes behind the first one** are those of the number that is read from them. -/
theorem readTails_iff {k m n : Nat} {bs rest : List UInt8} :
    readTails k m bs = some (n, rest) ↔ n / 64 ^ k = m ∧ bs = tails k n ++ rest := by
  induction k generalizing m bs with
  | zero =>
    simp only [readTails, tails, Option.some.injEq, Prod.mk.injEq, pow_zero, Nat.div_one,
      List.nil_append]
    exact and_congr_left' eq_comm
  | succ k ih =>
    have hpow : n / 64 ^ (k + 1) = n / 64 ^ k / 64 := by rw [pow_succ, Nat.div_div_eq_div_mul]
    cases bs with
    | nil => simp [readTails, tails]
    | cons b bs =>
      rw [readTails, tails, List.cons_append, List.cons.injEq, hpow, eq_ofNat_iff (by omega)]
      split
      · rename_i hb
        rw [ih]
        constructor
        · rintro ⟨hn, rfl⟩
          exact ⟨by omega, by omega, rfl⟩
        · rintro ⟨hm, hb', rfl⟩
          exact ⟨by omega, rfl⟩
      · rename_i hb
        simp only [reduceCtorEq, false_iff]
        rintro ⟨-, hb', -⟩
        omega

theorem utf8CodePoint_of_lt_0x800 {n : Nat} (h : 0x80 ≤ n) (h' : n < 0x800) :
    utf8CodePoint n = UInt8.ofNat (0xC0 + n / 0x40) :: tails 1 n := by
  rw [utf8CodePoint, if_neg (by omega), if_pos h']
  simp [tails]

theorem utf8CodePoint_of_lt_0x10000 {n : Nat} (h : 0x800 ≤ n) (h' : n < 0x10000) :
    utf8CodePoint n = UInt8.ofNat (0xE0 + n / 0x1000) :: tails 2 n := by
  rw [utf8CodePoint, if_neg (by omega), if_neg (by omega), if_pos h']
  simp [tails]

theorem utf8CodePoint_of_ge_0x10000 {n : Nat} (h : 0x10000 ≤ n) :
    utf8CodePoint n = UInt8.ofNat (0xF0 + n / 0x40000) :: tails 3 n := by
  rw [utf8CodePoint, if_neg (by omega), if_neg (by omega), if_neg (by omega)]
  simp [tails]

/-- The first byte says how many bytes a code point has. -/
theorem readCodePoint_cons_iff {a : UInt8} {n : Nat} {bs rest : List UInt8} :
    readCodePoint (a :: bs) = some (n, rest) ↔
      (n < 0x80 ∧ a.toNat = n ∧ bs = rest) ∨
      (0x80 ≤ n ∧ n < 0x800 ∧ a.toNat = 0xC0 + n / 0x40 ∧ bs = tails 1 n ++ rest) ∨
      (0x800 ≤ n ∧ n < 0x10000 ∧ IsScalar n ∧ a.toNat = 0xE0 + n / 0x1000 ∧
        bs = tails 2 n ++ rest) ∨
      (0x10000 ≤ n ∧ IsScalar n ∧ a.toNat = 0xF0 + n / 0x40000 ∧ bs = tails 3 n ++ rest) := by
  have ha := a.toNat_lt
  rw [readCodePoint]
  split_ifs <;>
    simp only [Option.filter_eq_some_iff, readTails_iff, IsScalar, Option.some.injEq,
      Prod.mk.injEq, decide_eq_true_eq, Nat.reducePow] <;>
    grind

/-- **A code point is read from its bytes**, whatever follows them, and from no others. -/
theorem readCodePoint_iff {n : Nat} {bs rest : List UInt8} :
    readCodePoint bs = some (n, rest) ↔ IsScalar n ∧ bs = utf8CodePoint n ++ rest := by
  cases bs with
  | nil =>
    have hne : utf8CodePoint n ≠ [] := by
      rw [utf8CodePoint]
      split_ifs <;> exact List.cons_ne_nil _ _
    simp [readCodePoint, hne]
  | cons a bs =>
    rw [readCodePoint_cons_iff]
    rcases Nat.lt_or_ge n 0x80 with hn | hn
    · rw [utf8CodePoint, if_pos hn, List.singleton_append, List.cons.injEq,
        eq_ofNat_iff (by omega), IsScalar]
      grind
    rcases Nat.lt_or_ge n 0x800 with hn' | hn'
    · rw [utf8CodePoint_of_lt_0x800 hn hn', List.cons_append, List.cons.injEq,
        eq_ofNat_iff (by omega), IsScalar]
      grind
    rcases Nat.lt_or_ge n 0x10000 with hn'' | hn''
    · rw [utf8CodePoint_of_lt_0x10000 hn' hn'', List.cons_append, List.cons.injEq,
        eq_ofNat_iff (by omega)]
      grind
    · by_cases hs : IsScalar n
      · have hlt := hs.1
        rw [utf8CodePoint_of_ge_0x10000 hn'', List.cons_append, List.cons.injEq,
          eq_ofNat_iff (by omega)]
        grind
      · grind

/-- The bytes of a list of code points. -/
def utf8CodePoints (ns : List Nat) : List UInt8 := ns.flatMap utf8CodePoint

/-- The loop of `readCodePoints`, for at most `fuel` code points. -/
def readCodePointsLoop : Nat → List UInt8 → Option (List Nat)
  | _, [] => some []
  | 0, _ :: _ => none
  | fuel + 1, b :: bs => do
    let (n, rest) ← readCodePoint (b :: bs)
    return n :: (← readCodePointsLoop fuel rest)

/-- The code points of the bytes; each has at least one byte. -/
def readCodePoints (bs : List UInt8) : Option (List Nat) := readCodePointsLoop bs.length bs

theorem length_utf8CodePoint_pos (n : Nat) : 0 < (utf8CodePoint n).length := by
  rw [utf8CodePoint]
  split_ifs <;> exact Nat.succ_pos _

theorem utf8CodePoints_cons (n : Nat) (ns : List Nat) :
    utf8CodePoints (n :: ns) = utf8CodePoint n ++ utf8CodePoints ns := List.flatMap_cons

theorem utf8CodePoints_eq_nil_iff {ns : List Nat} : utf8CodePoints ns = [] ↔ ns = [] := by
  cases ns with
  | nil => exact iff_of_true rfl rfl
  | cons n ns =>
    have hne := List.ne_nil_of_length_pos (length_utf8CodePoint_pos n)
    simp [utf8CodePoints_cons, hne]

/-- One round of the loop. -/
theorem readCodePointsLoop_cons_iff {fuel n : Nat} {ns : List Nat} {b : UInt8} {bs : List UInt8} :
    readCodePointsLoop (fuel + 1) (b :: bs) = some (n :: ns) ↔
      ∃ rest, readCodePoint (b :: bs) = some (n, rest) ∧
        readCodePointsLoop fuel rest = some ns := by
  rw [readCodePointsLoop]
  simp only [Option.bind_eq_bind, Option.bind_eq_some_iff, Option.pure_def, Option.some.injEq,
    Prod.exists, List.cons.injEq]
  constructor
  · rintro ⟨_, rest, hread, _, hloop, rfl, rfl⟩
    exact ⟨rest, hread, hloop⟩
  · rintro ⟨rest, hread, hloop⟩
    exact ⟨n, rest, hread, ns, hloop, rfl, rfl⟩

theorem readCodePointsLoop_iff {fuel : Nat} {ns : List Nat} {bs : List UInt8}
    (h : bs.length ≤ fuel) : readCodePointsLoop fuel bs = some ns ↔
      (∀ n ∈ ns, IsScalar n) ∧ bs = utf8CodePoints ns := by
  induction fuel generalizing bs ns with
  | zero =>
    obtain rfl := List.length_eq_zero_iff.mp (Nat.le_zero.mp h)
    simp only [readCodePointsLoop, Option.some.injEq, @eq_comm _ [], utf8CodePoints_eq_nil_iff]
    exact ⟨fun hns => ⟨by simp [hns], hns⟩, And.right⟩
  | succ fuel ih =>
    cases bs with
    | nil =>
      simp only [readCodePointsLoop, Option.some.injEq, @eq_comm _ [], utf8CodePoints_eq_nil_iff]
      exact ⟨fun hns => ⟨by simp [hns], hns⟩, And.right⟩
    | cons b bs =>
      cases ns with
      | nil => simp [readCodePointsLoop, utf8CodePoints, Option.bind_eq_some_iff]
      | cons n ns =>
        rw [readCodePointsLoop_cons_iff, utf8CodePoints_cons, List.forall_mem_cons, and_assoc]
        have hpos := length_utf8CodePoint_pos n
        constructor
        · rintro ⟨rest, hread, hloop⟩
          obtain ⟨hn, he⟩ := readCodePoint_iff.mp hread
          have hlen : rest.length ≤ fuel := by
            rw [he, List.length_append] at h
            omega
          obtain ⟨hns, rfl⟩ := (ih hlen).mp hloop
          exact ⟨hn, hns, he⟩
        · rintro ⟨hn, hns, he⟩
          have hlen : (utf8CodePoints ns).length ≤ fuel := by
            rw [he, List.length_append] at h
            omega
          exact ⟨_, readCodePoint_iff.mpr ⟨hn, he⟩, (ih hlen).mpr ⟨hns, rfl⟩⟩

/-- **The strict reader accepts exactly the bytes of code points.** -/
theorem readCodePoints_iff {ns : List Nat} {bs : List UInt8} :
    readCodePoints bs = some ns ↔ (∀ n ∈ ns, IsScalar n) ∧ bs = utf8CodePoints ns :=
  readCodePointsLoop_iff le_rfl

/-! ## Texts -/

/-- The `char`s of a code point. -/
def units (n : Nat) : Text :=
  if n < 0x10000 then [UInt16.ofNat n]
  else [UInt16.ofNat (0xD800 + (n - 0x10000) / 0x400),
    UInt16.ofNat (0xDC00 + (n - 0x10000) % 0x400)]

/-- The text of a list of code points. -/
def ofCodePoints (ns : List Nat) : Text := ns.flatMap units

/-- The code point of a pair of surrogates. -/
def pair (c d : Unit16) : Nat := 0x10000 + (c.toNat - 0xD800) * 0x400 + (d.toNat - 0xDC00)

/-- The code point that is written for a `char` that is not in a pair. -/
def unpaired (c : Unit16) : Nat :=
  if isHighSurrogate c || isLowSurrogate c then 0x3F else c.toNat

/-- The code points that are written for a text. -/
def codePoints : Text → List Nat
  | [] => []
  | [c] => [unpaired c]
  | c :: d :: s =>
    if isHighSurrogate c && isLowSurrogate d then pair c d :: codePoints s
    else unpaired c :: codePoints (d :: s)

/-- `new String(bytes, UTF_8)` on valid bytes, and `none` on others. -/
def decodeUtf8 (bs : List UInt8) : Option Text := (readCodePoints bs).map ofCodePoints

/-- The text that a reader finds in the bytes of a text. -/
def replaceUnpaired (s : Text) : Text := ofCodePoints (codePoints s)

/-- Every surrogate of the text is in a pair. -/
def isWellFormed : Text → Bool
  | [] => true
  | [c] => !(isHighSurrogate c || isLowSurrogate c)
  | c :: d :: s =>
    if isHighSurrogate c && isLowSurrogate d then isWellFormed s
    else !(isHighSurrogate c || isLowSurrogate c) && isWellFormed (d :: s)

theorem utf8Unit_eq (c : Unit16) : utf8Unit c = utf8CodePoint (unpaired c) := by
  rw [utf8Unit, unpaired]
  split <;> rfl

theorem pair_eq (c d : Unit16) :
    pair c d = 0x10000 + (c.toNat - 0xD800) * 0x400 + (d.toNat - 0xDC00) := by
  unfold pair
  rfl

/-- The bytes of a text are those of its code points. -/
theorem utf8_eq (s : Text) : utf8 s = utf8CodePoints (codePoints s) := by
  induction s using codePoints.induct with
  | case1 => rfl
  | case2 c => rw [utf8, codePoints, utf8Unit_eq, utf8CodePoints_cons, utf8CodePoints]; simp
  | case3 c d s h ih => rw [utf8, codePoints, if_pos h, if_pos h, utf8CodePoints_cons, ih, pair_eq]
  | case4 c d s h ih =>
    rw [utf8, codePoints, if_neg h, if_neg h, utf8CodePoints_cons, ih, utf8Unit_eq]

theorem isScalar_unpaired (c : Unit16) : IsScalar (unpaired c) := by
  have hlt := c.toNat_lt
  rw [unpaired]
  split_ifs with h
  · decide
  · simp only [Bool.or_eq_true, isHighSurrogate_iff, isLowSurrogate_iff] at h
    exact ⟨by omega, by omega⟩

theorem isScalar_pair {c d : Unit16} (h : (isHighSurrogate c && isLowSurrogate d) = true) :
    IsScalar (pair c d) := by
  rw [Bool.and_eq_true, isHighSurrogate_iff, isLowSurrogate_iff] at h
  have he := pair_eq c d
  exact ⟨by omega, by omega⟩

/-- What is written for a text are code points that a reader accepts. -/
theorem isScalar_of_mem_codePoints {s : Text} {n : Nat} (h : n ∈ codePoints s) : IsScalar n := by
  induction s using codePoints.induct with
  | case1 => cases h
  | case2 c =>
    obtain rfl := List.mem_singleton.mp h
    exact isScalar_unpaired c
  | case3 c d s hpair ih =>
    rw [codePoints, if_pos hpair] at h
    rcases List.mem_cons.mp h with he | h
    · exact he ▸ isScalar_pair hpair
    · exact ih h
  | case4 c d s hpair ih =>
    rw [codePoints, if_neg hpair] at h
    rcases List.mem_cons.mp h with rfl | h
    · exact isScalar_unpaired c
    · exact ih h

theorem ofCodePoints_cons (n : Nat) (ns : List Nat) :
    ofCodePoints (n :: ns) = units n ++ ofCodePoints ns := List.flatMap_cons

theorem units_pair {c d : Unit16} (h : (isHighSurrogate c && isLowSurrogate d) = true) :
    units (pair c d) = [c, d] := by
  rw [Bool.and_eq_true, isHighSurrogate_iff, isLowSurrogate_iff] at h
  have he := pair_eq c d
  have hc : 0xD800 + (pair c d - 0x10000) / 0x400 = c.toNat := by omega
  have hd : 0xDC00 + (pair c d - 0x10000) % 0x400 = d.toNat := by omega
  have hge : ¬pair c d < 0x10000 := by omega
  rw [units, if_neg hge, hc, hd, UInt16.ofNat_toNat, UInt16.ofNat_toNat]

/-- A `char` outside a pair is read back, or the question mark that is written for a surrogate. -/
theorem units_unpaired (c : Unit16) :
    units (unpaired c) = [if isHighSurrogate c || isLowSurrogate c then 0x3F else c] := by
  have hlt := c.toNat_lt
  rw [unpaired]
  split_ifs with h
  · rfl
  · rw [units, if_pos (by omega), UInt16.ofNat_toNat]

theorem units_of_lt {n : Nat} (h : n < 0x10000) : units n = [UInt16.ofNat n] := if_pos h

theorem units_of_ge {n : Nat} (h : ¬n < 0x10000) :
    units n = [UInt16.ofNat (0xD800 + (n - 0x10000) / 0x400),
      UInt16.ofNat (0xDC00 + (n - 0x10000) % 0x400)] := if_neg h

theorem codePoints_cons_of_not_high {c : Unit16} (h : isHighSurrogate c = false) (s : Text) :
    codePoints (c :: s) = unpaired c :: codePoints s := by
  cases s with
  | nil => rfl
  | cons d s => simp [codePoints, h]

/-- A code point is read back from its `char`s, whatever follows them. -/
theorem codePoints_units_append {n : Nat} (h : IsScalar n) (s : Text) :
    codePoints (units n ++ s) = n :: codePoints s := by
  obtain ⟨hlt, hnot⟩ := h
  by_cases hn : n < 0x10000
  · have hc : (UInt16.ofNat n).toNat = n := by
      rw [UInt16.toNat_ofNat', Nat.mod_eq_of_lt hn]
    have hhigh : isHighSurrogate (UInt16.ofNat n) = false := by
      rw [Bool.eq_false_iff, ne_eq, isHighSurrogate_iff, hc]
      omega
    have hlow : isLowSurrogate (UInt16.ofNat n) = false := by
      rw [Bool.eq_false_iff, ne_eq, isLowSurrogate_iff, hc]
      omega
    rw [units_of_lt hn, List.singleton_append, codePoints_cons_of_not_high hhigh, unpaired, hhigh,
      hlow, hc]
    rfl
  · have hc : (UInt16.ofNat (0xD800 + (n - 0x10000) / 0x400)).toNat =
        0xD800 + (n - 0x10000) / 0x400 := by
      rw [UInt16.toNat_ofNat', Nat.mod_eq_of_lt (by omega)]
    have hd : (UInt16.ofNat (0xDC00 + (n - 0x10000) % 0x400)).toNat =
        0xDC00 + (n - 0x10000) % 0x400 := by
      rw [UInt16.toNat_ofNat', Nat.mod_eq_of_lt (by omega)]
    have hpair : (isHighSurrogate (UInt16.ofNat (0xD800 + (n - 0x10000) / 0x400)) &&
        isLowSurrogate (UInt16.ofNat (0xDC00 + (n - 0x10000) % 0x400))) = true := by
      rw [Bool.and_eq_true, isHighSurrogate_iff, isLowSurrogate_iff, hc, hd]
      omega
    have he : pair (UInt16.ofNat (0xD800 + (n - 0x10000) / 0x400))
        (UInt16.ofNat (0xDC00 + (n - 0x10000) % 0x400)) = n := by
      have heq := pair_eq (UInt16.ofNat (0xD800 + (n - 0x10000) / 0x400))
        (UInt16.ofNat (0xDC00 + (n - 0x10000) % 0x400))
      omega
    rw [units_of_ge hn, List.cons_append, List.singleton_append, codePoints, if_pos hpair, he]

/-- The code points of a text are read back from it. -/
theorem codePoints_ofCodePoints {ns : List Nat} (h : ∀ n ∈ ns, IsScalar n) :
    codePoints (ofCodePoints ns) = ns := by
  induction ns with
  | nil => rfl
  | cons n ns ih =>
    obtain ⟨hn, hns⟩ := List.forall_mem_cons.mp h
    rw [ofCodePoints_cons, codePoints_units_append hn, ih hns]

/-- The question mark is no surrogate. -/
theorem unpaired_char_eq_iff {c : Unit16} :
    (if isHighSurrogate c || isLowSurrogate c then 0x3F else c) = c ↔
      (!(isHighSurrogate c || isLowSurrogate c)) = true := by
  split_ifs with h
  · rw [h]
    refine iff_of_false ?_ (by decide)
    rintro rfl
    exact absurd h (by decide)
  · exact iff_of_true rfl (by simpa using h)

/-- The texts that a reader finds are those without unpaired surrogates. -/
theorem replaceUnpaired_eq_iff {s : Text} : replaceUnpaired s = s ↔ isWellFormed s = true := by
  unfold replaceUnpaired
  induction s using codePoints.induct with
  | case1 => exact iff_of_true rfl rfl
  | case2 c =>
    rw [codePoints, ofCodePoints_cons, units_unpaired, isWellFormed, ← unpaired_char_eq_iff]
    simp [ofCodePoints]
  | case3 c d s h ih =>
    rw [codePoints, if_pos h, ofCodePoints_cons, units_pair h, isWellFormed, if_pos h, ← ih]
    simp
  | case4 c d s h ih =>
    rw [codePoints, if_neg h, ofCodePoints_cons, units_unpaired, isWellFormed, if_neg h,
      Bool.and_eq_true, ← ih, List.singleton_append, List.cons.injEq, unpaired_char_eq_iff]

/-- Each `char` is read back as one `char`. -/
theorem length_replaceUnpaired (s : Text) : (replaceUnpaired s).length = s.length := by
  unfold replaceUnpaired
  induction s using codePoints.induct with
  | case1 => rfl
  | case2 c =>
    rw [codePoints, ofCodePoints_cons, units_unpaired]
    rfl
  | case3 c d s h ih =>
    rw [codePoints, if_pos h, ofCodePoints_cons, units_pair h, List.length_append, ih]
    simp only [List.length_cons, List.length_nil]
    omega
  | case4 c d s h ih =>
    rw [codePoints, if_neg h, ofCodePoints_cons, units_unpaired, List.length_append, ih]
    simp only [List.length_cons, List.length_nil]
    omega

theorem replaceUnpaired_eq_nil_iff {s : Text} : replaceUnpaired s = [] ↔ s = [] := by
  rw [← List.length_eq_zero_iff, length_replaceUnpaired, List.length_eq_zero_iff]

/-- **What the reader finds in the bytes of a text**: the text with a question mark for each
unpaired surrogate. -/
theorem decodeUtf8_utf8 (s : Text) : decodeUtf8 (utf8 s) = some (replaceUnpaired s) := by
  have hread : readCodePoints (utf8 s) = some (codePoints s) :=
    readCodePoints_iff.mpr ⟨fun n hn => isScalar_of_mem_codePoints hn, utf8_eq s⟩
  rw [decodeUtf8, hread]
  rfl

/-- **The valid bytes are those of one well-formed text each.** -/
theorem decodeUtf8_iff {s : Text} {bs : List UInt8} :
    decodeUtf8 bs = some s ↔ isWellFormed s = true ∧ bs = utf8 s := by
  constructor
  · intro h
    obtain ⟨ns, hns, rfl⟩ := Option.map_eq_some_iff.mp h
    obtain ⟨hscalar, rfl⟩ := readCodePoints_iff.mp hns
    have hback := codePoints_ofCodePoints hscalar
    refine ⟨replaceUnpaired_eq_iff.mp ?_, ?_⟩
    · rw [replaceUnpaired, hback]
    · rw [utf8_eq, hback]
  · rintro ⟨hs, rfl⟩
    rw [decodeUtf8_utf8, replaceUnpaired_eq_iff.mpr hs]

/-! ## Cutting well-formed texts -/

/-- A character that is no surrogate separates the surrogates on its two sides. -/
theorem isWellFormed_append_cons {c : Unit16} (hhigh : isHighSurrogate c = false)
    (hlow : isLowSurrogate c = false) (x y : Text) :
    isWellFormed (x ++ c :: y) = (isWellFormed x && isWellFormed y) := by
  have hself : ∀ s, isWellFormed (c :: s) = isWellFormed s := by
    intro s
    cases s with
    | nil => simp [isWellFormed, hhigh, hlow]
    | cons d s => simp [isWellFormed, hhigh, hlow]
  induction x using isWellFormed.induct with
  | case1 => exact hself y
  | case2 a => simp [isWellFormed, hlow, hself]
  | case3 a b x h ih =>
    rw [isWellFormed, if_pos h, ← ih]
    exact if_pos h
  | case4 a b x h ih =>
    rw [isWellFormed, if_neg h, Bool.and_assoc, ← ih]
    exact if_neg h

theorem cuttable_isWellFormed : Java.Cuttable fun s => isWellFormed s = true where
  nil := rfl
  cut := by
    intro x y c hc
    have hlt : c.toNat < 0x80 := UInt16.lt_iff_toNat_lt.mp hc
    have hhigh : isHighSurrogate c = false := by
      rw [Bool.eq_false_iff, ne_eq, isHighSurrogate_iff]
      omega
    have hlow : isLowSurrogate c = false := by
      rw [Bool.eq_false_iff, ne_eq, isLowSurrogate_iff]
      omega
    rw [isWellFormed_append_cons hhigh hlow, Bool.and_eq_true]

/-- The charset of one byte a character has no surrogates. -/
theorem isWellFormed_latin1 (bs : List UInt8) : isWellFormed (Java.latin1.decode bs) = true := by
  induction bs with
  | nil => rfl
  | cons b bs ih =>
    have hlt : b.toUInt16.toNat < 0x100 := b.toNat_lt
    have hhigh : isHighSurrogate b.toUInt16 = false := by
      rw [Bool.eq_false_iff, ne_eq, isHighSurrogate_iff]
      omega
    have hlow : isLowSurrogate b.toUInt16 = false := by
      rw [Bool.eq_false_iff, ne_eq, isLowSurrogate_iff]
      omega
    exact (isWellFormed_append_cons hhigh hlow [] _).trans ih

end Protobuf
