import NettyTcpWeb.Message.Parsing

/-!
# Frames

A frame is a text of the watch protocol whose fields cannot be mistaken for its delimiters: no
field in front of the content contains `*`, `,` or `]`, the type is not empty, and the content
contains no `]`. A frame carries these facts, so it always parses back into its own fields, and the
printer of a message with clean fields prints a frame.

## Main definitions

* `Clean`: a field without delimiters
* `Frame`, `Frame.text`, `Frame.message`: a frame, its text, and the message it stands for
* `Printable`, `Printable.frame`: a message with clean fields, and the frame printed for it

## Main results

* `Frame.receiveAnalyticData_text`: the text of a frame parses into the message of the frame
* `sendWatchData_frame`: the printer prints the frame of a message with clean fields
-/

namespace NettyTcpWeb

open Java (Text Unit16 Exception ch lit isNotBlank)

/-- A field that contains no delimiter of the protocol. -/
def Clean (field : Text) : Prop := ch '*' ∉ field ∧ ch ',' ∉ field ∧ ch ']' ∉ field

instance (field : Text) : Decidable (Clean field) := inferInstanceAs (Decidable (_ ∧ _))

theorem clean_intToHex (n : Int32) : Clean (intToHex n) := by
  refine ⟨fun h => ?_, fun h => ?_, fun h => ?_⟩ <;>
    exact (isHexDigit_of_mem_intToHex h).ne_of_not (by decide) rfl

/-- The four fields in front of the content, as the printer joins them. -/
def joinFields (f d l t : Text) : Text := f ++ ch '*' :: (d ++ ch '*' :: (l ++ ch '*' :: t))

/-- The parts of joined fields are the parts of the fields. -/
theorem splitOn_joinFields (f d l t : Text) : (joinFields f d l t).splitOn (ch '*') =
    f.splitOn (ch '*') ++ (d.splitOn (ch '*') ++ (l.splitOn (ch '*') ++ t.splitOn (ch '*'))) := by
  simp only [joinFields, List.splitOn_append_cons_self]

theorem mem_joinFields {c : Unit16} (hc : c ≠ ch '*') {f d l t : Text} :
    c ∈ joinFields f d l t ↔ c ∈ f ∨ c ∈ d ∨ c ∈ l ∨ c ∈ t := by
  simp [joinFields, hc]

theorem joinFields_ne_nil (f d l t : Text) : joinFields f d l t ≠ [] := by simp [joinFields]

/-- The parts of joined fields, as the parser computes them. -/
theorem split_joinFields (f d l t : Text) : split (joinFields f d l t) (ch '*') =
    (f.splitOn (ch '*') ++ (d.splitOn (ch '*') ++
      (l.splitOn (ch '*') ++ t.splitOn (ch '*')))).rdropWhile List.isEmpty := by
  rw [← splitOn_joinFields, split, joinFields, Java.split_append_cons,
    ← List.splitOn_append_cons_self]

/-- The text between the brackets: joined fields, and the content behind a comma. -/
def joinContent (head : Text) (content : Option Text) : Text :=
  head ++ content.elim [] fun body => ch ',' :: body

theorem firstSplit_joinContent {head : Text} (h : ch ',' ∉ head) (content : Option Text) :
    firstSplit (joinContent head content) (ch ',') = content.getD [] := by
  cases content with
  | none => simpa [joinContent] using firstSplit_of_not_mem h
  | some body => exact firstSplit_append_cons h

theorem split_joinContent {head : Text} (h : ch ',' ∉ head) (hne : head ≠ [])
    (content : Option Text) : (split (joinContent head content) (ch ','))[0]? = some head := by
  cases content with
  | none => simp [joinContent, split, Java.split_of_not_mem h]
  | some body => exact Java.split_zero h hne

/-- A frame of the watch protocol. -/
structure Frame where
  factory : Text
  deviceId : Text
  length : Text
  type : Text
  content : Option Text
  factory_clean : Clean factory
  deviceId_clean : Clean deviceId
  length_clean : Clean length
  type_clean : Clean type
  type_ne_nil : type ≠ []
  content_clean : ∀ body ∈ content, ch ']' ∉ body

namespace Frame

variable (F : Frame)

/-- The fields in front of the content. -/
def head : Text := joinFields F.factory F.deviceId F.length F.type

/-- The text between the brackets. -/
def inner : Text := joinContent F.head F.content

/-- The text of the frame. -/
def text : Text := ch '[' :: (F.inner ++ [ch ']'])

/-- The message the frame stands for. -/
def message : Model :=
  { factory := F.factory, deviceId := F.deviceId, length := F.length, type := F.type,
    body := F.content.getD [] }

theorem comma_not_mem_head : ch ',' ∉ F.head := by
  rw [head, mem_joinFields (by decide)]
  rintro (h | h | h | h)
  · exact F.factory_clean.2.1 h
  · exact F.deviceId_clean.2.1 h
  · exact F.length_clean.2.1 h
  · exact F.type_clean.2.1 h

/-- A frame is closed by its last character only. -/
theorem delimiter_not_mem_inner : ch ']' ∉ F.inner := by
  rw [inner, joinContent, List.mem_append, head, mem_joinFields (by decide)]
  rintro ((h | h | h | h) | h)
  · exact F.factory_clean.2.2 h
  · exact F.deviceId_clean.2.2 h
  · exact F.length_clean.2.2 h
  · exact F.type_clean.2.2 h
  · cases hc : F.content with
    | none => simp [hc] at h
    | some body =>
      rw [hc] at h
      rcases List.mem_cons.mp h with h | h
      · exact absurd h (by decide)
      · exact F.content_clean body (by simp [hc]) h

theorem split_head :
    split F.head (ch '*') = [F.factory, F.deviceId, F.length, F.type] := by
  rw [head, split_joinFields, List.splitOn_eq_singleton F.factory_clean.1,
    List.splitOn_eq_singleton F.deviceId_clean.1, List.splitOn_eq_singleton F.length_clean.1,
    List.splitOn_eq_singleton F.type_clean.1]
  apply List.rdropWhile_eq_self_iff.mpr
  intro _
  simpa using F.type_ne_nil

/-- **A frame parses back into its own fields.** -/
theorem receiveAnalyticData_text : receiveAnalyticData F.text = .ok F.message := by
  refine receiveAnalyticData_brackets.mpr
    ⟨F.head, F.factory, F.deviceId, F.length, F.type, ?_, ?_, ?_, ?_, ?_, ?_⟩
  · exact split_joinContent F.comma_not_mem_head (joinFields_ne_nil _ _ _ _) _
  · rw [split_head]; rfl
  · rw [split_head]; rfl
  · rw [split_head]; rfl
  · rw [split_head]; rfl
  · rw [message, inner, firstSplit_joinContent F.comma_not_mem_head]

end Frame

/-! ## The printer prints frames -/

/-- The factory the printer writes. -/
def printedFactory (m : Model) : Text :=
  if isNotBlank (some m.factory) = false then lit "3G" else m.factory

/-- The content the printer writes behind the type. -/
def printedContent (m : Model) : Option Text :=
  if isNotBlank (some m.body) then some m.body else none

/-- The body a reader of the printed text finds. -/
def printedBody (m : Model) : Text := (printedContent m).getD []

/-- The printed text of a message with a device, as joined fields between brackets. -/
theorem sendWatchData_fst {m : Model} (h : isNotBlank (some m.deviceId) = true) :
    (sendWatchData m).1 = ch '[' :: (joinContent (joinFields (printedFactory m) m.deviceId
      (intToHex (Int32.ofNat m.type.length)) m.type) (printedContent m) ++ [ch ']']) := by
  rw [sendWatchData, if_neg (by simp [h])]
  by_cases hf : isNotBlank (some m.factory) = false <;>
    by_cases hb : isNotBlank (some m.body) = true <;>
      simp [printedFactory, printedContent, joinContent, joinFields, hf, hb, lit]

/-- A message whose printed fields contain no delimiter. -/
structure Printable (m : Model) : Prop where
  deviceId_notBlank : isNotBlank (some m.deviceId) = true
  deviceId_clean : Clean m.deviceId
  factory_clean : isNotBlank (some m.factory) = true → Clean m.factory
  type_clean : Clean m.type
  type_ne_nil : m.type ≠ []
  body_clean : ch ']' ∉ m.body

instance (m : Model) : Decidable (Printable m) :=
  decidable_of_iff
    (isNotBlank (some m.deviceId) = true ∧ Clean m.deviceId ∧
      (isNotBlank (some m.factory) = true → Clean m.factory) ∧ Clean m.type ∧ m.type ≠ [] ∧
      ch ']' ∉ m.body)
    ⟨fun ⟨h₁, h₂, h₃, h₄, h₅, h₆⟩ => ⟨h₁, h₂, h₃, h₄, h₅, h₆⟩,
      fun ⟨h₁, h₂, h₃, h₄, h₅, h₆⟩ => ⟨h₁, h₂, h₃, h₄, h₅, h₆⟩⟩

theorem Printable.printedFactory_clean {m : Model} (h : Printable m) :
    Clean (printedFactory m) := by
  rw [printedFactory]
  split
  · decide
  · exact h.factory_clean (by simp_all)

/-- The frame printed for a message. -/
def Printable.frame {m : Model} (h : Printable m) : Frame where
  factory := printedFactory m
  deviceId := m.deviceId
  length := intToHex (Int32.ofNat m.type.length)
  type := m.type
  content := printedContent m
  factory_clean := h.printedFactory_clean
  deviceId_clean := h.deviceId_clean
  length_clean := clean_intToHex _
  type_clean := h.type_clean
  type_ne_nil := h.type_ne_nil
  content_clean := by
    intro body hb
    rw [printedContent] at hb
    split at hb
    · obtain rfl := Option.some.inj hb
      exact h.body_clean
    · exact absurd hb (by simp)

/-- **The printer prints the frame of a message with clean fields.** -/
theorem sendWatchData_frame {m : Model} (h : Printable m) : (sendWatchData m).1 = h.frame.text :=
  sendWatchData_fst h.deviceId_notBlank

end NettyTcpWeb
