import NettyTcpWeb.Coder.Stream
import NettyTcpWeb.Message.Proxy

/-!
# Frames a client can write

The fields of a routed message reach the printer as the client sent them, and the printer escapes
nothing. This module determines which messages still come out as exactly one frame that reads back
as its own type and body.

## Main definitions

* `OneFrame`: a text that is one frame with a given type and body
* `FrameSafe`: the messages whose fields cannot be mistaken for delimiters

## Main results

* `split_joinFields_three`: the fourth part of the printed fields, whatever characters they contain
* `encode_oneFrame_iff`: a routed message is written as exactly one frame if and only if it is safe
-/

namespace NettyTcpWeb

open Java (Text Unit16 Exception ch lit isNotBlank isNotEmpty)

/-! ## The parts of a text -/

section Parts

variable {c : Unit16}

/-- A part that the parser finds is a part of the text. -/
theorem subset_of_getElem?_split {s part : Text} {i : Nat} (h : (split s c)[i]? = some part) :
    part ⊆ s := by
  unfold split Java.split at h
  split at h
  · have hpart := (Java.getElem?_rdropWhile_eq_some_iff.mp h).1
    exact Java.subset_of_mem_splitOn (List.mem_of_getElem? hpart)
  · rw [List.mem_singleton.mp (List.mem_of_getElem? h)]
    exact List.Subset.refl _

/-- The first part that the parser finds is the text in front of the first separator. -/
theorem eq_of_split_zero {x y part : Text} (hx : c ∉ x)
    (h : (split (x ++ c :: y) c)[0]? = some part) : part = x := by
  rw [split, Java.split_append_cons, List.splitOn_eq_singleton hx] at h
  have hhead := (Java.getElem?_rdropWhile_eq_some_iff.mp h).1
  simpa using hhead.symm

end Parts

/-! ## The fourth field -/

/-- The stars in the factory and the device that are printed for a message. -/
def strayStars (m : Model) : Nat :=
  (printedFactory m).count (ch '*') + (target m).count (ch '*')

/-- The type stands in the fourth field: without stray stars it is a single part; one stray star
moves the length there, and more of them move a part of the factory or the device there. -/
def TypeInFourthField (m : Model) : Prop :=
  (strayStars m = 0 ∧ m.type ≠ [] ∧ ch '*' ∉ m.type) ∨
    (strayStars m = 1 ∧ m.type = lit "0004") ∨
    (2 ≤ strayStars m ∧
      ((printedFactory m).splitOn (ch '*') ++ (target m).splitOn (ch '*'))[3]? = some m.type)

instance (m : Model) : Decidable (TypeInFourthField m) := inferInstanceAs (Decidable (_ ∨ _))

/-- The fourth part of the printed fields is the type exactly if the type stands in the fourth
field. -/
theorem split_joinFields_three (m : Model) :
    (split (joinFields (printedFactory m) (target m) (intToHex (Int32.ofNat m.type.length)) m.type)
      (ch '*'))[3]? = some m.type ↔ TypeInFourthField m := by
  have hlength : (intToHex (Int32.ofNat m.type.length)).splitOn (ch '*') =
      [intToHex (Int32.ofNat m.type.length)] :=
    List.splitOn_eq_singleton (clean_intToHex _).1
  have hfront : ((printedFactory m).splitOn (ch '*') ++ (target m).splitOn (ch '*')).length =
      strayStars m + 2 := by
    rw [List.length_append, Java.length_splitOn, Java.length_splitOn, strayStars]
    omega
  have hne : (intToHex (Int32.ofNat m.type.length)).isEmpty = false := by
    simp [intToHex_ne_nil]
  rw [split_joinFields, hlength, ← List.append_assoc, List.singleton_append]
  unfold TypeInFourthField
  generalize (printedFactory m).splitOn (ch '*') ++ (target m).splitOn (ch '*') = front at *
  obtain h0 | h1 | h2 : strayStars m = 0 ∨ strayStars m = 1 ∨ 2 ≤ strayStars m := by omega
  · have hpart : (front ++ intToHex (Int32.ofNat m.type.length) :: m.type.splitOn (ch '*'))[3]? =
        (m.type.splitOn (ch '*'))[0]? := by
      rw [List.getElem?_append_right (by omega), show 3 - front.length = 0 + 1 by omega]
      rfl
    rw [Java.getElem?_rdropWhile_eq_some_iff, hpart, Java.splitOn_zero_eq_self_iff]
    constructor
    · rintro ⟨hstar, j, b, hj, hb, hbne⟩
      rw [List.getElem?_append_right (by omega), List.splitOn_eq_singleton hstar,
        List.getElem?_cons, if_neg (by omega)] at hb
      obtain rfl := List.mem_singleton.mp (List.mem_of_getElem? hb)
      exact .inl ⟨h0, by simpa using hbne, hstar⟩
    · rintro (⟨-, hnil, hstar⟩ | ⟨h, -⟩ | ⟨h, -⟩)
      · refine ⟨hstar, 3, m.type, le_rfl, ?_, by simpa using hnil⟩
        rw [hpart, Java.splitOn_zero_eq_self_iff]
        exact hstar
      · omega
      · omega
  · rw [Java.getElem?_rdropWhile_of_le hne (by omega), List.getElem?_append_right (by omega),
      show 3 - front.length = 0 by omega, List.getElem?_cons_zero, Option.some.injEq, eq_comm,
      eq_intToHex_length_iff]
    simp [h1]
  · rw [Java.getElem?_rdropWhile_of_le hne (by omega), List.getElem?_append_left (by omega)]
    constructor
    · intro hl
      exact .inr (.inr ⟨h2, hl⟩)
    · rintro (⟨h, -⟩ | ⟨h, -⟩ | ⟨-, hl⟩)
      · omega
      · omega
      · exact hl

/-! ## One frame -/

/-- The text is exactly one frame: it is opened by its first and closed by its last character only,
and it reads back as the given type and body. -/
structure OneFrame (text type body : Text) : Prop where
  opened : text.head? = some (ch '[')
  closed : ∃ inner, text = inner ++ [ch ']'] ∧ ch ']' ∉ inner
  parsed : ∃ m, receiveAnalyticData text = .ok m ∧ m.type = type ∧ m.body = body

/-- The messages that are written as one frame: no printed field closes the frame, no field in front
of the content opens the content, and the type stands in the fourth field. -/
structure FrameSafe (m : Model) : Prop where
  factory : ch ',' ∉ printedFactory m ∧ ch ']' ∉ printedFactory m
  target : ch ',' ∉ target m ∧ ch ']' ∉ target m
  type : ch ',' ∉ m.type ∧ ch ']' ∉ m.type
  content : ch ']' ∉ printedBody m
  fourth : TypeInFourthField m

section OneFrame

variable {m : Model}

/-- The head of the printed text: the fields in front of the content. -/
def printedHead (m : Model) : Text :=
  joinFields (printedFactory m) (target m) (intToHex (Int32.ofNat m.type.length)) m.type

theorem encode_fst (h : isNotBlank (some (target m)) = true) : (encode m).1 =
    ch '[' :: (joinContent (printedHead m) (printedContent m) ++ [ch ']']) :=
  sendWatchData_fst h

theorem encode_fst_of_blank (h : isNotBlank (some (target m)) = false) : (encode m).1 = [] := by
  rw [encode, sendWatchData, if_pos h]

theorem mem_printedHead {c : Unit16} (hc : c ≠ ch '*') (hdigit : ¬ IsHexDigit c) :
    c ∈ printedHead m ↔ c ∈ printedFactory m ∨ c ∈ target m ∨ c ∈ m.type := by
  have hl : c ∉ intToHex (Int32.ofNat m.type.length) := by
    intro h
    exact (isHexDigit_of_mem_intToHex h).ne_of_not hdigit rfl
  simp [printedHead, mem_joinFields hc, hl]

theorem delimiter_mem_joinContent {head : Text} {content : Option Text} :
    ch ']' ∈ joinContent head content ↔ ch ']' ∈ head ∨ ch ']' ∈ content.getD [] := by
  have hcomma : ch ']' ≠ ch ',' := by decide
  cases content <;> simp [joinContent, hcomma]

/-- A comma in the printed head is found before the one in front of the content, so the body that
is read back is not the printed one. -/
theorem comma_not_mem_printedHead {part : Text}
    (hpart : (split (joinContent (printedHead m) (printedContent m)) (ch ','))[0]? = some part)
    (htype : m.type ⊆ part)
    (hbody : firstSplit (joinContent (printedHead m) (printedContent m)) (ch ',') = printedBody m) :
    ch ',' ∉ printedHead m := by
  intro hmem
  obtain ⟨x, y, hxy, hx⟩ := List.eq_append_cons_of_mem hmem
  have hcut : joinContent (printedHead m) (printedContent m) =
      x ++ ch ',' :: (y ++ (printedContent m).elim [] fun body => ch ',' :: body) := by
    rw [joinContent, hxy, List.append_assoc, List.cons_append]
  rw [hcut] at hpart hbody
  obtain rfl := eq_of_split_zero hx hpart
  rw [firstSplit_append_cons hx, printedBody] at hbody
  cases hc : printedContent m with
  | none =>
    simp only [hc, Option.elim_none, List.append_nil, Option.getD_none] at hbody
    have hlast : (printedHead m).getLast? = some (ch ',') := by simp [hxy, hbody]
    have hrear : printedHead m = (printedFactory m ++ ch '*' :: (target m ++ ch '*' ::
        intToHex (Int32.ofNat m.type.length))) ++ ch '*' :: m.type := by
      simp [printedHead, joinFields]
    rw [hrear, List.getLast?_append_cons] at hlast
    rcases List.mem_cons.mp (List.mem_of_getLast? hlast) with h | h
    · exact absurd h (by decide)
    · exact hx (htype h)
  | some body =>
    have hlen := congrArg List.length hbody
    simp only [hc, Option.elim_some, Option.getD_some, List.length_append, List.length_cons] at hlen
    omega

/-- A message with a target is written as one frame exactly if it is safe. -/
theorem oneFrame_iff (h : isNotBlank (some (target m)) = true) :
    OneFrame (encode m).1 m.type (printedBody m) ↔ FrameSafe m := by
  rw [encode_fst h]
  constructor
  · rintro ⟨-, ⟨inner, hinner, hclosed⟩, r, hr, htype, hbody⟩
    have hdelim : ch ']' ∉ joinContent (printedHead m) (printedContent m) := by
      rw [← List.cons_append] at hinner
      rw [← (List.append_inj_left' hinner rfl)] at hclosed
      exact fun hmem => hclosed (List.mem_cons_of_mem _ hmem)
    rw [delimiter_mem_joinContent, mem_printedHead (by decide) (by decide)] at hdelim
    push Not at hdelim
    obtain ⟨⟨hf, ht, hty⟩, hcontent⟩ := hdelim
    obtain ⟨part, f, d, l, t, hpart, -, -, -, hthree, rfl⟩ := receiveAnalyticData_brackets.mp hr
    simp only at htype hbody
    subst htype
    have hcomma := comma_not_mem_printedHead hpart (subset_of_getElem?_split hthree) hbody
    have hhead : part = printedHead m :=
      Option.some.inj (hpart.symm.trans (split_joinContent hcomma (joinFields_ne_nil _ _ _ _) _))
    rw [hhead, printedHead, split_joinFields_three] at hthree
    rw [mem_printedHead (by decide) (by decide)] at hcomma
    push Not at hcomma
    exact ⟨⟨hcomma.1, hf⟩, ⟨hcomma.2.1, ht⟩, ⟨hcomma.2.2, hty⟩, hcontent, hthree⟩
  · rintro ⟨⟨hf, hf'⟩, ⟨ht, ht'⟩, ⟨hty, hty'⟩, hcontent, hfourth⟩
    have hdelim : ch ']' ∉ joinContent (printedHead m) (printedContent m) := by
      rw [delimiter_mem_joinContent, mem_printedHead (by decide) (by decide)]
      push Not
      exact ⟨⟨hf', ht', hty'⟩, hcontent⟩
    have hcomma : ch ',' ∉ printedHead m := by
      rw [mem_printedHead (by decide) (by decide)]
      push Not
      exact ⟨hf, ht, hty⟩
    have hthree := (split_joinFields_three m).mpr hfourth
    have hlen := (List.getElem?_eq_some_iff.mp hthree).1
    refine ⟨rfl, ⟨ch '[' :: joinContent (printedHead m) (printedContent m), rfl, ?_⟩, _,
      receiveAnalyticData_brackets.mpr ⟨printedHead m, _, _, _, _,
        split_joinContent hcomma (joinFields_ne_nil _ _ _ _) _,
        List.getElem?_eq_getElem (by unfold printedHead; omega),
        List.getElem?_eq_getElem (by unfold printedHead; omega),
        List.getElem?_eq_getElem (by unfold printedHead; omega), hthree, rfl⟩, rfl,
      firstSplit_joinContent hcomma _⟩
    simp only [List.mem_cons, not_or]
    exact ⟨by decide, hdelim⟩

end OneFrame

/-- **A routed message** that is written to a watch at all is written as exactly one frame, which
reads back as its type and its body, if and only if it is safe. -/
theorem encode_oneFrame_iff {now : Text} {account : Option Text} {m b : Model} {w : MessageWrapper}
    (hconv : convertToMessageWrapper now account m = .ok w)
    (hroute : w.isReply ∨ w.isSend ∨ w.isGroup) (hbody : w.body = some b)
    (hout : (encode b).1 ≠ []) :
    OneFrame (encode b).1 m.type (printedBody m) ↔ FrameSafe m := by
  obtain ⟨sender, -, hb⟩ := body_of_convertToMessageWrapper hconv hroute
  obtain rfl : { m with timeStamp := now, sender := sender } = b :=
    Option.some.inj (hb.symm.trans hbody)
  have htarget : isNotBlank (some (target m)) = true := by
    by_contra hblank
    exact hout (encode_fst_of_blank (Bool.eq_false_iff.mpr hblank))
  have hwire : (encode { m with timeStamp := now, sender := sender }).1 = (encode m).1 := by
    rw [encode_fst htarget]
    exact encode_fst htarget
  rw [hwire, oneFrame_iff htarget]

/-- A reply of account `w` to the watch `1`. -/
def reply (body : Text) : Model := { type := lit "TK", receiver := lit "1", body := body }

/-- The reply as it is handed to the encoder. -/
def sentReply (body : Text) : Model := { reply body with sender := lit "w" }

theorem encode_oneFrame_iff_hello :
    OneFrame (encode (sentReply (lit "hello"))).1 (lit "TK") (lit "hello") ↔
      FrameSafe (reply (lit "hello")) :=
  encode_oneFrame_iff (b := sentReply (lit "hello"))
    (show convertToMessageWrapper [] (lit "w") (reply (lit "hello")) =
      .ok { protocol := .REPLY, sessionId := lit "", reSessionId := lit "1",
            body := sentReply (lit "hello") } from rfl) (.inl rfl) rfl (by decide)

/-- **A body that closes its frame** and opens another one: the watch `1` is sent two frames. -/
theorem encode_two_frames :
    convertToMessageWrapper [] (lit "w") (reply (lit "a][3G*2*0002*LK")) =
        .ok { protocol := .REPLY, sessionId := lit "", reSessionId := lit "1",
              body := sentReply (lit "a][3G*2*0002*LK") } ∧
      (encode (sentReply (lit "a][3G*2*0002*LK"))).1 = lit "[3G*1*0002*TK,a][3G*2*0002*LK]" ∧
      ¬ OneFrame (encode (sentReply (lit "a][3G*2*0002*LK"))).1 (lit "TK")
          (lit "a][3G*2*0002*LK") := by
  refine ⟨rfl, by decide, fun h => ?_⟩
  obtain ⟨inner, hinner, hclosed⟩ := h.closed
  have hfront : inner = (encode (sentReply (lit "a][3G*2*0002*LK"))).1.dropLast := by
    rw [hinner, List.dropLast_concat]
  exact hclosed (hfront ▸ by decide)

end NettyTcpWeb
