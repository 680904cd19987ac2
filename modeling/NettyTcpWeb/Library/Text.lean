import Mathlib.Data.List.DropRight
import Mathlib.Data.List.Infix

/-!
# Java strings

A Java string is the list of its UTF-16 code units, and the methods of `String` that cut a text
at a character follow their documentation: an index is `none` where Java returns `-1`, and a cut
outside the text raises.

## Main definitions

* `Text`, `lit`: Java strings, and the string of a literal
* `IsString`: a text of a length that a string can have
* `isNotBlank`, `isNotEmpty`: the null-safe tests of `StringUtils`
* `indexOf`, `substring`, `trim`, `split`: the methods of `String`
* `Cuttable`: a property of texts that cuts at ASCII characters keep
* `Charset`, `latin1`: a platform charset, as the two conversions between texts and bytes, and the
  charset of one byte a character

## Main results

* `indexOf_append_cons`: the first occurrence behind a text without the character
* `split_of_not_mem`, `split_append_cons`: a text without the separator is its own only part,
  another one has all its parts but the trailing empty ones
* `length_splitOn`, `splitOn_zero`, `exists_mem_splitOn`: the parts of a text
* `getElem?_rdropWhile_eq_some_iff`: which parts survive the removal of trailing empty ones
* `trim_append_cons_concat`: trimming stops at a character that is no space
-/

namespace Java

/-- A Java `char`: one UTF-16 code unit. -/
abbrev Unit16 := UInt16

/-- A Java string. -/
abbrev Text := List Unit16

/-- The `char` of a character literal of the basic plane. -/
def ch (c : Char) : Unit16 := UInt16.ofNat c.toNat

/-- The string of a literal of the basic plane. -/
def lit (s : String) : Text := s.toList.map ch

/-- The length of a Java string is an `int`. -/
def IsString (s : Text) : Prop := s.length ≤ 0x7FFFFFFF

instance (s : Text) : Decidable (IsString s) := inferInstanceAs (Decidable (_ ≤ _))

/-- The exceptions of the modelled code, by what raises them. -/
inductive Exception where
  | nullPointer
  | indexOutOfBounds
  | concurrentModification
  | runtime
deriving DecidableEq, Repr

/-! ## Blank texts -/

/-- `Character.isWhitespace(char)`: the Unicode separators but the non-breaking ones, and the
control characters Java counts as white space. -/
def isWhitespace (c : Unit16) : Bool :=
  (0x09 ≤ c && c ≤ 0x0D) || (0x1C ≤ c && c ≤ 0x20) || c == 0x1680 || c == 0x180E ||
    (0x2000 ≤ c && c ≤ 0x200A && c != 0x2007) || c == 0x2028 || c == 0x2029 || c == 0x205F ||
    c == 0x3000

/-- `StringUtils.isNotBlank(String)`; `none` is `null`. -/
def isNotBlank : Option Text → Bool
  | none => false
  | some s => s.any fun c => !isWhitespace c

/-- `StringUtils.isNotEmpty(String)`; `none` is `null`. -/
def isNotEmpty : Option Text → Bool
  | none => false
  | some s => !s.isEmpty

/-! ## The methods of `String` -/

/-- `s.indexOf(c)`. -/
def indexOf (s : Text) (c : Unit16) : Option Nat := s.idxOf? c

/-- `s.substring(begin, end)`. -/
def substring (s : Text) (b e : Nat) : Except Exception Text :=
  if b ≤ e ∧ e ≤ s.length then .ok ((s.take e).drop b) else .error .indexOutOfBounds

/-- The characters `trim` removes: everything up to the space. -/
def isTrimmed (c : Unit16) : Bool := c ≤ 0x20

/-- `s.trim()`. -/
def trim (s : Text) : Text := (s.dropWhile isTrimmed).rdropWhile isTrimmed

/-- `s.split(c)` at one character: all parts, without the trailing empty ones; a text without `c`
is returned whole, also when it is empty. -/
def split (s : Text) (c : Unit16) : List Text :=
  if c ∈ s then (s.splitOn c).rdropWhile List.isEmpty else [s]

/-! ## Cutting at a character -/

section Cut

variable {c : Unit16} {s x y : Text}

theorem indexOf_of_not_mem (h : c ∉ s) : indexOf s c = none := List.idxOf?_eq_none_iff.mpr h

/-- The first occurrence behind a text without the character. -/
theorem indexOf_append_cons (h : c ∉ x) : indexOf (x ++ c :: y) c = some x.length := by
  refine List.idxOf?_eq_some_iff.mpr ⟨by simp, by simp, fun j hj he => h ?_⟩
  rw [List.getElem_append_left hj] at he
  exact he ▸ List.getElem_mem hj

theorem split_of_not_mem (h : c ∉ s) : split s c = [s] := if_neg h

/-- The parts of a text that contains the separator. -/
theorem split_append_cons :
    split (x ++ c :: y) c = (x.splitOn c ++ y.splitOn c).rdropWhile List.isEmpty := by
  rw [split, if_pos (by simp), List.splitOn_append_cons_self]

/-- A part survives the removal of trailing empty ones exactly if a nonempty part stands at or
behind it. -/
theorem getElem?_rdropWhile_eq_some_iff {α : Type*} {p : α → Bool} {l : List α} {i : Nat} {a : α} :
    (l.rdropWhile p)[i]? = some a ↔
      l[i]? = some a ∧ ∃ j b, i ≤ j ∧ l[j]? = some b ∧ p b = false := by
  induction l using List.reverseRecOn with
  | nil => simp
  | append_singleton l b ih =>
    by_cases hb : p b = true
    · rw [List.rdropWhile_concat_pos _ _ _ hb, ih]
      constructor
      · rintro ⟨hi, j, b', hij, hj, hp⟩
        exact ⟨by simp [List.getElem?_append_left (List.getElem?_eq_some_iff.mp hi).1, hi],
          j, b', hij,
          by simp [List.getElem?_append_left (List.getElem?_eq_some_iff.mp hj).1, hj], hp⟩
      · rintro ⟨hi, j, b', hij, hj, hp⟩
        have hjl : j < l.length := by
          by_contra hge
          rw [List.getElem?_append_right (by omega)] at hj
          have he := List.mem_of_getElem? hj
          simp only [List.mem_singleton] at he
          simp_all
        rw [List.getElem?_append_left (by omega)] at hi
        rw [List.getElem?_append_left hjl] at hj
        exact ⟨hi, j, b', hij, hj, hp⟩
    · rw [List.rdropWhile_concat_neg _ _ _ hb]
      refine ⟨fun hi => ⟨hi, l.length, b, ?_, by simp, by simpa using hb⟩, And.left⟩
      have := (List.getElem?_eq_some_iff.mp hi).1
      simp only [List.length_append, List.length_singleton] at this
      omega

/-- A nonempty part keeps all parts in front of it. -/
theorem getElem?_rdropWhile_of_le {α : Type*} {p : α → Bool} {l r : List α} {a : α} {i : Nat}
    (ha : p a = false) (hi : i ≤ l.length) :
    ((l ++ a :: r).rdropWhile p)[i]? = (l ++ a :: r)[i]? := by
  refine Option.ext fun b => getElem?_rdropWhile_eq_some_iff.trans ⟨And.left, fun h => ?_⟩
  exact ⟨h, l.length, a, hi, by simp, ha⟩

/-- The first part of a text whose text before the separator is not empty. -/
theorem split_zero (h : c ∉ x) (hx : x ≠ []) : (split (x ++ c :: y) c)[0]? = some x := by
  rw [split_append_cons, List.splitOn_eq_singleton h, getElem?_rdropWhile_eq_some_iff]
  exact ⟨by simp, 0, x, le_rfl, by simp, by simpa using hx⟩

end Cut

/-! ## The parts of a text -/

section Parts

variable {c : Unit16} {s part : Text}

theorem length_splitOn (s : Text) : (s.splitOn c).length = s.count c + 1 := by
  induction s with
  | nil => rfl
  | cons x s ih =>
    rw [List.splitOn_cons_eq_if_modifyHead, List.count_cons]
    split <;> simp [ih]

theorem subset_of_mem_splitOn (h : part ∈ s.splitOn c) : part ⊆ s := by
  induction s generalizing part with
  | nil =>
    rw [List.splitOn_nil, List.mem_singleton] at h
    simp [h]
  | cons x s ih =>
    rw [List.splitOn_cons_eq_if_modifyHead] at h
    split at h
    · rcases List.mem_cons.mp h with rfl | h
      · simp
      · exact List.Subset.trans (ih h) (List.subset_cons_self _ _)
    · cases hs : s.splitOn c with
      | nil => simp [hs] at h
      | cons p ps =>
        rw [hs, List.modifyHead_cons] at h
        rcases List.mem_cons.mp h with rfl | h
        · exact List.cons_subset_cons _ (ih (by simp [hs]))
        · exact List.Subset.trans (ih (by simp [hs, h])) (List.subset_cons_self _ _)

theorem not_mem_of_mem_splitOn (h : part ∈ s.splitOn c) : c ∉ part := by
  induction s generalizing part with
  | nil =>
    rw [List.splitOn_nil, List.mem_singleton] at h
    simp [h]
  | cons x s ih =>
    rw [List.splitOn_cons_eq_if_modifyHead] at h
    split at h
    · rcases List.mem_cons.mp h with rfl | h
      · simp
      · exact ih h
    · rename_i hx
      cases hs : s.splitOn c with
      | nil => simp [hs] at h
      | cons p ps =>
        rw [hs, List.modifyHead_cons] at h
        rcases List.mem_cons.mp h with rfl | h
        · have hp : c ∉ p := ih (by simp [hs])
          simp only [List.mem_cons, not_or]
          exact ⟨fun he => hx (by simp [he]), hp⟩
        · exact ih (by simp [hs, h])

/-- The first part of a text reaches to the first separator. -/
theorem splitOn_zero (s : Text) : (s.splitOn c)[0]? = some (s.takeWhile (· ≠ c)) := by
  induction s with
  | nil => rfl
  | cons x s ih =>
    rw [List.splitOn_cons_eq_if_modifyHead]
    by_cases hx : x = c
    · simp [hx]
    · cases hs : s.splitOn c with
      | nil => simp [hs] at ih
      | cons p ps =>
        have hp : p = s.takeWhile (· ≠ c) := by simpa [hs] using ih
        simp [hx, hp]

/-- Every other character of a text stands in one of its parts. -/
theorem exists_mem_splitOn {x : Unit16} (hx : x ∈ s) (hxc : x ≠ c) :
    ∃ part ∈ s.splitOn c, x ∈ part := by
  induction s with
  | nil => cases hx
  | cons y s ih =>
    rw [List.splitOn_cons_eq_if_modifyHead]
    obtain ⟨p, ps, hs⟩ := List.exists_cons_of_ne_nil (List.splitOn_ne_nil c s)
    rw [hs] at ih ⊢
    rcases List.mem_cons.mp hx with rfl | hx
    · refine ⟨x :: p, ?_, List.mem_cons_self⟩
      simp [hxc]
    · obtain ⟨part, hpart, hx⟩ := ih hx
      split_ifs
      · exact ⟨part, List.mem_cons_of_mem _ hpart, hx⟩
      · rcases List.mem_cons.mp hpart with rfl | hpart
        · exact ⟨y :: part, List.mem_cons_self, List.mem_cons_of_mem _ hx⟩
        · exact ⟨part, List.mem_cons_of_mem _ hpart, hx⟩

/-- A text is its own first part exactly if it does not contain the separator. -/
theorem splitOn_zero_eq_self_iff : (s.splitOn c)[0]? = some s ↔ c ∉ s := by
  constructor
  · intro h
    exact not_mem_of_mem_splitOn (List.mem_of_getElem? h)
  · intro h
    rw [List.splitOn_eq_singleton h]
    rfl

end Parts

/-! ## Trimming -/

theorem dropWhile_append_cons {α : Type*} {p : α → Bool} {a : α} (ha : p a = false) (g t : List α) :
    (g ++ a :: t).dropWhile p = g.dropWhile p ++ a :: t := by
  induction g with
  | nil => simp [ha]
  | cons b g ih =>
    by_cases hb : p b = true
    · simp [hb, ih]
    · simp [hb]

/-- Trimming a text between two characters that are no spaces cuts only what precedes the
first one. -/
theorem trim_append_cons_concat {a b : Unit16} (ha : isTrimmed a = false) (hb : isTrimmed b = false)
    (g t : Text) : trim (g ++ a :: (t ++ [b])) = g.dropWhile isTrimmed ++ a :: (t ++ [b]) := by
  rw [trim, dropWhile_append_cons ha]
  have he : g.dropWhile isTrimmed ++ a :: (t ++ [b]) =
      (g.dropWhile isTrimmed ++ a :: t) ++ [b] := by simp
  rw [he, List.rdropWhile_concat_neg _ _ _ (by simp [hb])]

/-! ## Properties that cuts keep -/

/-- A property of texts that can be cut at every ASCII character: a text has it exactly if the two
texts beside such a character do. -/
structure Cuttable (P : Text → Prop) : Prop where
  nil : P []
  cut : ∀ {x y : Text} {c : Unit16}, c < 0x80 → (P (x ++ c :: y) ↔ P x ∧ P y)

namespace Cuttable

variable {P : Text → Prop} (hP : Cuttable P) {c : Unit16} (hc : c < 0x80) {s : Text}

include hP

theorem of_forall (h : ∀ c ∈ s, c < 0x80) : P s := by
  induction s with
  | nil => exact hP.nil
  | cons c s ih =>
    obtain ⟨hc, hs⟩ := List.forall_mem_cons.mp h
    exact (hP.cut (x := []) hc).mpr ⟨hP.nil, ih hs⟩

theorem trim (h : P s) : P (Java.trim s) := by
  have hascii : ∀ {c : Unit16}, isTrimmed c = true → c < 0x80 := fun h =>
    UInt16.lt_of_le_of_lt (of_decide_eq_true h) (by decide)
  have hfront : P (s.dropWhile isTrimmed) := by
    induction s with
    | nil => exact hP.nil
    | cons c s ih =>
      by_cases hc : isTrimmed c = true
      · rw [List.dropWhile_cons_of_pos hc]
        exact ih ((hP.cut (x := []) (hascii hc)).mp h).2
      · rwa [List.dropWhile_cons_of_neg hc]
  rw [Java.trim]
  generalize s.dropWhile isTrimmed = t at hfront ⊢
  induction t using List.reverseRecOn with
  | nil => exact hP.nil
  | append_singleton t c ih =>
    by_cases hc : isTrimmed c = true
    · rw [List.rdropWhile_concat_pos _ _ _ hc]
      exact ih ((hP.cut (y := []) (hascii hc)).mp hfront).1
    · rwa [List.rdropWhile_concat_neg _ _ _ hc]

include hc

theorem forall_mem_of_intercalate {parts : List Text} (h : P ([c].intercalate parts)) :
    ∀ part ∈ parts, P part := by
  induction parts with
  | nil => exact nofun
  | cons part parts ih =>
    cases parts with
    | nil => exact List.forall_mem_singleton.mpr (by rwa [List.intercalate_singleton] at h)
    | cons next parts =>
      rw [List.intercalate_cons_cons, List.append_assoc, List.singleton_append, hP.cut hc] at h
      exact List.forall_mem_cons.mpr ⟨h.1, ih h.2⟩

/-- The parts of a text have the property. -/
theorem of_mem_split (h : P s) {part : Text} (hpart : part ∈ split s c) : P part := by
  unfold split at hpart
  split_ifs at hpart
  · have hs : P ([c].intercalate (s.splitOn c)) := by rwa [List.intercalate_splitOn]
    exact hP.forall_mem_of_intercalate hc hs part ((List.rdropWhile_prefix _ _).subset hpart)
  · rwa [List.mem_singleton.mp hpart]

end Cuttable

/-! ## Charsets -/

/-- A platform charset: `s.getBytes()` and `new String(bytes)`. -/
structure Charset where
  encode : Text → List UInt8
  decode : List UInt8 → Text

/-- The charset reads back the text, and spends at least one byte on each character. -/
def Charset.Carries (cs : Charset) (s : Text) : Prop :=
  cs.decode (cs.encode s) = s ∧ s.length ≤ (cs.encode s).length

instance (cs : Charset) (s : Text) : Decidable (cs.Carries s) := inferInstanceAs (Decidable (_ ∧ _))

/-- The charset ISO-8859-1. -/
def latin1 : Charset where
  encode s := s.map fun c => if c < 0x100 then c.toUInt8 else 0x3F
  decode bs := bs.map UInt8.toUInt16

end Java
