import NettyTcpWeb.Message.Frame

/-!
# The grammar of the parser

`receiveAnalyticData` removes the first and the last character of its text, cuts it at commas and
its head at stars. Both cuts drop trailing empty parts, so the parser raises for a head without
anything but stars behind the third star. This module says which texts the parser reads, and as
what.

## Main definitions

* `inner`: a text without its first and last character
* `Reads`: a text with the four fields and the body of a message

## Main results

* `exists_joinFields`: a text with three stars, as joined fields
* `split_joinFields_type`: when the fourth part of joined fields survives the removal
* `fields_iff`: the heads in which the parser finds its four fields
* `receiveAnalyticData_iff`: the parser reads exactly its grammar
-/

namespace NettyTcpWeb

open Java (Text Unit16 Exception ch lit)

/-- The text without its first and its last character. -/
def inner (data : Text) : Text := data.tail.dropLast

/-- A text of at least two characters whose head, in front of the first comma, has three stars and
another character behind them. The fields are the texts between the stars, the type ends at the
fourth one, and the body is the text behind the comma. -/
def Reads (data : Text) (m : Model) : Prop :=
  2 ≤ data.length ∧ ∃ factory deviceId length rest,
    (inner data).takeWhile (· ≠ ch ',') =
      factory ++ ch '*' :: (deviceId ++ ch '*' :: (length ++ ch '*' :: rest)) ∧
    ch '*' ∉ factory ∧ ch '*' ∉ deviceId ∧ ch '*' ∉ length ∧ (∃ c ∈ rest, c ≠ ch '*') ∧
    m = { factory := factory, deviceId := deviceId, length := length,
          type := rest.takeWhile (· ≠ ch '*'),
          body := ((inner data).dropWhile (· ≠ ch ',')).tail }

/-- Only a text of two characters has a first and a last one to remove. -/
theorem intercept_eq_ok_iff {data str : Text} :
    intercept data = .ok str ↔ 2 ≤ data.length ∧ str = inner data := by
  have hinner : (data.take (data.length - 1)).drop 1 = inner data := by
    rw [inner, ← List.tail_dropLast, List.dropLast_eq_take, List.drop_one]
  rw [intercept, Java.substring, hinner]
  split_ifs with hlen
  · rw [Except.ok.injEq, eq_comm]
    exact ⟨fun he => ⟨by omega, he⟩, And.right⟩
  · constructor
    · intro he
      cases he
    · rintro ⟨h, -⟩
      omega

/-- The text behind the first separator. -/
theorem firstSplit_eq (s : Text) (c : Unit16) : firstSplit s c = (s.dropWhile (· ≠ c)).tail := by
  by_cases hc : c ∈ s
  · obtain ⟨x, y, rfl, hx⟩ := List.eq_append_cons_of_mem hc
    have hnil : x.dropWhile (· ≠ c) = [] :=
      List.dropWhile_eq_nil_iff.mpr fun a ha => by
        simpa using fun he : a = c => hx (he ▸ ha)
    rw [firstSplit_append_cons hx, Java.dropWhile_append_cons (by simp), hnil]
    rfl
  · have hnil : s.dropWhile (· ≠ c) = [] :=
      List.dropWhile_eq_nil_iff.mpr fun a ha => by
        simpa using fun he : a = c => hc (he ▸ ha)
    rw [firstSplit_of_not_mem hc, hnil]
    rfl

/-- A first part that is not empty is the text in front of the first separator. -/
theorem split_zero_iff {s h : Text} {c : Unit16} (hne : h ≠ []) :
    (split s c)[0]? = some h ↔ s.takeWhile (· ≠ c) = h := by
  by_cases hc : c ∈ s
  · rw [split, Java.split, if_pos hc, Java.getElem?_rdropWhile_eq_some_iff, Java.splitOn_zero,
      Option.some.injEq]
    refine ⟨And.left, fun he => ⟨he, 0, h, le_rfl, ?_, ?_⟩⟩
    · rw [Java.splitOn_zero, he]
    · simpa using hne
  · have hall : s.takeWhile (· ≠ c) = s :=
      List.takeWhile_eq_self_iff.mpr fun a ha => by
        simpa using fun he : a = c => hc (he ▸ ha)
    rw [split, Java.split_of_not_mem hc, hall]
    simp

/-- A text, cut at its first star. -/
theorem exists_append_cons_of_count {n : Nat} {s : Text} {c : Unit16} (h : n + 1 ≤ s.count c) :
    ∃ x y, s = x ++ c :: y ∧ c ∉ x ∧ n ≤ y.count c := by
  have hc : c ∈ s := List.count_pos_iff.mp (by omega)
  obtain ⟨x, y, rfl, hx⟩ := List.eq_append_cons_of_mem hc
  rw [List.count_append, List.count_eq_zero_of_not_mem hx, List.count_cons_self] at h
  exact ⟨x, y, rfl, hx, by omega⟩

/-- A text with three stars, as joined fields. -/
theorem exists_joinFields {s : Text} (h : 3 ≤ s.count (ch '*')) : ∃ f d l u,
    s = joinFields f d l u ∧ ch '*' ∉ f ∧ ch '*' ∉ d ∧ ch '*' ∉ l := by
  obtain ⟨f, s, rfl, hf, h⟩ := exists_append_cons_of_count h
  obtain ⟨d, s, rfl, hd, h⟩ := exists_append_cons_of_count h
  obtain ⟨l, u, rfl, hl, -⟩ := exists_append_cons_of_count h
  exact ⟨f, d, l, u, rfl, hf, hd, hl⟩

/-- The parts of joined fields without stars: the three fields, and the parts of the rest. -/
theorem getElem?_split_joinFields {f d l u part : Text} {i : Nat} (hf : ch '*' ∉ f)
    (hd : ch '*' ∉ d) (hl : ch '*' ∉ l) :
    (split (joinFields f d l u) (ch '*'))[i]? = some part ↔
      (f :: d :: l :: u.splitOn (ch '*'))[i]? = some part ∧
        ∃ j p, i ≤ j ∧ (f :: d :: l :: u.splitOn (ch '*'))[j]? = some p ∧ p ≠ [] := by
  rw [split_joinFields, List.splitOn_eq_singleton hf, List.splitOn_eq_singleton hd,
    List.splitOn_eq_singleton hl, Java.getElem?_rdropWhile_eq_some_iff]
  simp

/-- The fourth part of joined fields reaches to the next star, and it survives exactly if another
character stands at or behind it. -/
theorem split_joinFields_type {f d l u t : Text} (hf : ch '*' ∉ f) (hd : ch '*' ∉ d)
    (hl : ch '*' ∉ l) : (split (joinFields f d l u) (ch '*'))[3]? = some t ↔
      u.takeWhile (· ≠ ch '*') = t ∧ ∃ c ∈ u, c ≠ ch '*' := by
  rw [getElem?_split_joinFields hf hd hl]
  have hzero : (f :: d :: l :: u.splitOn (ch '*'))[3]? = some (u.takeWhile (· ≠ ch '*')) :=
    Java.splitOn_zero u
  rw [hzero, Option.some.injEq]
  refine and_congr_right fun _ => ⟨?_, ?_⟩
  · rintro ⟨j, p, hj, hp, hne⟩
    obtain ⟨k, rfl⟩ := Nat.exists_eq_add_of_le' hj
    have hmem : p ∈ u.splitOn (ch '*') := List.mem_of_getElem? (i := k) (by simpa using hp)
    obtain ⟨c, hc⟩ := List.exists_mem_of_ne_nil p hne
    exact ⟨c, Java.subset_of_mem_splitOn hmem hc,
      fun he => Java.not_mem_of_mem_splitOn hmem (he ▸ hc)⟩
  · rintro ⟨c, hc, hne⟩
    obtain ⟨p, hmem, hp⟩ := Java.exists_mem_splitOn hc hne
    obtain ⟨k, hk⟩ := List.mem_iff_getElem?.mp hmem
    exact ⟨k + 3, p, by omega, hk, List.ne_nil_of_mem hp⟩

/-- A text with a fourth part has three stars. -/
theorem count_of_split {s t : Text} (h : (split s (ch '*'))[3]? = some t) :
    3 ≤ s.count (ch '*') := by
  by_cases hs : ch '*' ∈ s
  · rw [split, Java.split, if_pos hs, Java.getElem?_rdropWhile_eq_some_iff] at h
    have hlen := (List.getElem?_eq_some_iff.mp h.1).1
    rw [Java.length_splitOn] at hlen
    omega
  · rw [split, Java.split_of_not_mem hs] at h
    cases h

/-- **The fields of a head**: the parser finds four of them exactly in joined fields with a
character other than a star behind the third star. -/
theorem fields_iff {h f d l t : Text} :
    ((split h (ch '*'))[0]? = some f ∧ (split h (ch '*'))[1]? = some d ∧
      (split h (ch '*'))[2]? = some l ∧ (split h (ch '*'))[3]? = some t) ↔
    ∃ u, h = joinFields f d l u ∧ ch '*' ∉ f ∧ ch '*' ∉ d ∧ ch '*' ∉ l ∧
      (∃ c ∈ u, c ≠ ch '*') ∧ t = u.takeWhile (· ≠ ch '*') := by
  constructor
  · rintro ⟨hf, hd, hl, ht⟩
    obtain ⟨f', d', l', u, rfl, hf', hd', hl'⟩ := exists_joinFields (count_of_split ht)
    rw [getElem?_split_joinFields hf' hd' hl'] at hf hd hl
    obtain rfl : f' = f := Option.some.inj hf.1
    obtain rfl : d' = d := Option.some.inj hd.1
    obtain rfl : l' = l := Option.some.inj hl.1
    obtain ⟨rfl, hu⟩ := (split_joinFields_type hf' hd' hl').mp ht
    exact ⟨u, rfl, hf', hd', hl', hu, rfl⟩
  · rintro ⟨u, rfl, hf, hd, hl, hu, rfl⟩
    have ht := (split_joinFields_type hf hd hl).mpr ⟨rfl, hu⟩
    obtain ⟨-, j, p, hj, hp⟩ := (getElem?_split_joinFields hf hd hl).mp ht
    refine ⟨?_, ?_, ?_, ht⟩ <;>
      exact (getElem?_split_joinFields hf hd hl).mpr ⟨rfl, j, p, by omega, hp⟩

/-- A text of at least two characters, and the text between them. -/
theorem eq_brackets {data : Text} (h : 2 ≤ data.length) :
    ∃ a b, data = a :: (inner data ++ [b]) := by
  cases data with
  | nil => simp at h
  | cons a data =>
    have hne : data ≠ [] := List.ne_nil_of_length_pos (by simp at h; omega)
    refine ⟨a, data.getLast hne, ?_⟩
    rw [inner, List.tail_cons, List.dropLast_append_getLast hne]

/-- **The parser reads exactly its grammar**: it returns the message a text reads as, and for a text
that reads as none it raises. -/
theorem receiveAnalyticData_iff (data : Text) :
    (∀ m, receiveAnalyticData data = .ok m ↔ Reads data m) ∧
      ((∃ e, receiveAnalyticData data = .error e) ↔ ∀ m, ¬Reads data m) := by
  have hok : ∀ m, receiveAnalyticData data = .ok m ↔ Reads data m := by
    intro m
    by_cases hlen : 2 ≤ data.length
    · obtain ⟨a, b, hdata⟩ := eq_brackets hlen
      rw [hdata, receiveAnalyticData_brackets, ← hdata, Reads, firstSplit_eq]
      constructor
      · rintro ⟨h, f, d, l, t, hh, hf, hd, hl, ht, rfl⟩
        obtain ⟨u, rfl, hf, hd, hl, hu, rfl⟩ := fields_iff.mp ⟨hf, hd, hl, ht⟩
        exact ⟨hlen, f, d, l, u, (split_zero_iff (joinFields_ne_nil f d l u)).mp hh, hf, hd, hl, hu,
          rfl⟩
      · rintro ⟨-, f, d, l, u, hh, hf, hd, hl, hu, rfl⟩
        obtain ⟨hf, hd, hl, ht⟩ := fields_iff.mpr ⟨u, rfl, hf, hd, hl, hu, rfl⟩
        exact ⟨_, _, _, _, _, (split_zero_iff (joinFields_ne_nil f d l u)).mpr hh, hf, hd, hl, ht,
          rfl⟩
    · refine ⟨fun h => ?_, fun h => absurd h.1 hlen⟩
      obtain ⟨str, hstr, -⟩ := bind_eq_ok_iff.mp h
      exact absurd (intercept_eq_ok_iff.mp hstr).1 hlen
  refine ⟨hok, ?_⟩
  cases hr : receiveAnalyticData data with
  | error e => exact ⟨fun _ m hm => by simpa [hr] using (hok m).mpr hm, fun _ => ⟨e, rfl⟩⟩
  | ok m => exact ⟨nofun, fun h => absurd ((hok m).mp hr) (h m)⟩

end NettyTcpWeb
