import NettyTcpWeb.Message.Grammar

/-!
# The length field

The third field of a frame is to tell the length of its content, which is the type and, behind a
comma, a body that is not blank. The three functions that write the field compute that length and
then overwrite it, or never compute it: what they write is the length of the type alone.

## Main definitions

* `hexValue`: the number a hexadecimal text stands for
* `Pads`, `HexOf`: the padding loop as a relation, and the text of a number in the length field
* `content`: the content of a message
* `TellsLength`, `PrintsLength`: a message and a printed text whose length field is right

## Main results

* `hexValue_intToHex`: a length field stands for the number it was made from
* `intToHex_faithful`: **distinct numbers have distinct length fields**
* `intToHex_type_eq_iff`: the length of the type is that of the content only without a body
* `tellsLength_iff`: the texts and fields for which the three functions write the right length
-/

namespace NettyTcpWeb

open Java (Text Unit16 Exception ch lit isNotBlank)

/-! ## The number of a length field -/

/-- The number of a hexadecimal digit of `intToHex`. -/
def hexDigitValue (c : Unit16) : Nat :=
  if c ≤ ch '9' then (c - ch '0').toNat else (c - ch 'A').toNat + 10

/-- The number a hexadecimal text stands for. -/
def hexValue (s : Text) : Nat := s.foldl (fun n c => 16 * n + hexDigitValue c) 0

@[simp] theorem hexValue_concat (s : Text) (c : Unit16) :
    hexValue (s ++ [c]) = 16 * hexValue s + hexDigitValue c := by
  simp [hexValue]

/-- A zero in front does not change the number. -/
@[simp] theorem hexValue_cons_zero (s : Text) : hexValue (ch '0' :: s) = hexValue s := rfl

/-- Each digit stands for itself, in upper case as well. -/
theorem hexDigitValue_hexDigit : ∀ d < 16,
    hexDigitValue (if ch 'a' ≤ hexDigit d ∧ hexDigit d ≤ ch 'f'
      then hexDigit d - 0x20 else hexDigit d) = d := by decide

theorem toUpperCase_nil : toUpperCase [] = [] := rfl

theorem toUpperCase_cons (c : Unit16) (s : Text) : toUpperCase (c :: s) =
    (if ch 'a' ≤ c ∧ c ≤ ch 'f' then c - 0x20 else c) :: toUpperCase s := rfl

theorem toUpperCase_append (s t : Text) :
    toUpperCase (s ++ t) = toUpperCase s ++ toUpperCase t := List.map_append

/-- The zeros of the padding do not change the number. -/
theorem hexValue_padLoop (fuel : Nat) (s : Text) :
    hexValue (toUpperCase (padLoop fuel s)) = hexValue (toUpperCase s) := by
  induction fuel generalizing s with
  | zero => rfl
  | succ fuel ih =>
    rw [padLoop]
    split
    · rw [ih, toUpperCase_cons]
      exact hexValue_cons_zero _
    · rfl

/-- The digits of a number, the last one first, stand for it. -/
theorem hexValue_digits {ds : List Nat} (h : ∀ d ∈ ds, d < 16) :
    hexValue (toUpperCase (ds.map hexDigit).reverse) = Nat.ofDigits 16 ds := by
  induction ds with
  | nil => rfl
  | cons d ds ih =>
    have hd := hexDigitValue_hexDigit d (h d List.mem_cons_self)
    have hds := ih fun e he => h e (List.mem_cons_of_mem _ he)
    rw [List.map_cons, List.reverse_cons, toUpperCase_append, toUpperCase_cons, toUpperCase_nil,
      hexValue_concat, hd, hds, Nat.ofDigits_cons]
    exact add_comm _ _

/-- **A length field stands for the number it was made from**, read as an unsigned one. -/
theorem hexValue_intToHex (n : Int32) : hexValue (intToHex n) = n.toUInt32.toNat := by
  rw [intToHex, hexValue_padLoop, toHexString]
  split
  · rename_i hnil
    rw [← Nat.ofDigits_digits 16 n.toUInt32.toNat, hnil]
    decide
  · rw [hexValue_digits fun d hd => Nat.digits_lt_base (by decide) hd, Nat.ofDigits_digits]

/-- The number that an `int` prints as. -/
theorem toNat_toUInt32 (n : Int32) : (n.toUInt32.toNat : Int) = n.toInt % 2 ^ 32 := by
  have hlt := n.toUInt32.toNat_lt
  have hcond := BitVec.toInt_eq_toNat_cond n.toBitVec
  have hnat : n.toBitVec.toNat = n.toUInt32.toNat := rfl
  rw [Int32.toInt, hcond, hnat]
  split <;> omega

/-! ## The length field of a number -/

/-- The loop `while(str.length() < 4) str = "0"+str` ends with the second text. -/
inductive Pads : Text → Text → Prop
  | stop {str : Text} (h : ¬str.length < 4) : Pads str str
  | round {str out : Text} (h : str.length < 4) (hrest : Pads (ch '0' :: str) out) : Pads str out

/-- The loop ends, in as many rounds as the text is short of four characters. -/
theorem pads_padLoop {fuel : Nat} {str : Text} (h : 4 ≤ fuel + str.length) :
    Pads str (padLoop fuel str) := by
  induction fuel generalizing str with
  | zero => exact .stop (by omega)
  | succ fuel ih =>
    rw [padLoop]
    split
    · rename_i hlt
      exact .round hlt (ih (by rw [List.length_cons]; omega))
    · rename_i hge
      exact .stop hge

theorem length_intToHex_eq (n : Int32) : (intToHex n).length = max 4 (toHexString n).length := by
  rw [intToHex, toUpperCase, List.length_map, length_padLoop (by omega)]

theorem length_toHexString_le_iff (n : Int32) :
    (toHexString n).length ≤ 4 ↔ n.toUInt32.toNat < 65536 := by
  have hpow : 16 ^ 4 = 65536 := by decide
  rw [toHexString]
  split
  · rename_i hnil
    have hzero : n.toUInt32.toNat = 0 := Nat.digits_eq_nil_iff_eq_zero.mp hnil
    rw [hzero]
    decide
  · rw [List.length_reverse, List.length_map, Nat.digits_length_le_iff (by decide), hpow]

/-- Only zero is printed with a leading zero. -/
theorem head_toHexString {n : Int32} (hn : n.toUInt32.toNat ≠ 0) :
    ∃ d, d ≠ 0 ∧ d < 16 ∧ (toHexString n).head? = some (hexDigit d) := by
  have hnil : Nat.digits 16 n.toUInt32.toNat ≠ [] := Nat.digits_ne_nil_iff_ne_zero.mpr hn
  refine ⟨_, Nat.getLast_digit_ne_zero 16 hn,
    Nat.digits_lt_base (by decide) (List.getLast_mem hnil), ?_⟩
  rw [toHexString]
  split
  · rename_i h
    exact absurd h hnil
  · rw [List.head?_reverse, List.getLast?_map, List.getLast?_eq_some_getLast hnil]
    rfl

theorem toUpperCase_hexDigit_ne_zero : ∀ d < 16, d ≠ 0 →
    (if ch 'a' ≤ hexDigit d ∧ hexDigit d ≤ ch 'f' then hexDigit d - 0x20 else hexDigit d) ≠
      ch '0' := by decide

/-- A length field of more than four characters is not padded, so it has no leading zero. -/
theorem head_intToHex {n : Int32} (h : 4 < (intToHex n).length) :
    (intToHex n).head? ≠ some (ch '0') := by
  have hlen : 4 < (toHexString n).length := by
    rw [length_intToHex_eq] at h
    omega
  have hn : n.toUInt32.toNat ≠ 0 := by
    intro hzero
    have := (length_toHexString_le_iff n).mpr (by omega)
    omega
  obtain ⟨d, hd, hd16, hhead⟩ := head_toHexString hn
  rw [intToHex, padLoop, if_neg (by omega), toUpperCase, List.head?_map, hhead]
  simpa using toUpperCase_hexDigit_ne_zero d hd16 hd

/-- The length field of a number: the loop that pads it ends, its characters are hexadecimal digits,
it stands for the number, and it has four characters exactly for the numbers of two bytes. -/
structure HexOf (n : Int32) (text : Text) : Prop where
  loop : ∃ padded, Pads (toHexString n) padded ∧ text = toUpperCase padded
  digits : ∀ c ∈ text, IsHexDigit c
  value : (hexValue text : Int) = n.toInt % 2 ^ 32
  length : text.length = 4 ↔ 0 ≤ n.toInt ∧ n.toInt < 65536
  head : 4 < text.length → text.head? ≠ some (ch '0')

/-- **A length field determines its number.** -/
theorem intToHex_injective {m n : Int32} (h : intToHex m = intToHex n) : m = n := by
  have hvalue := congrArg hexValue h
  rw [hexValue_intToHex, hexValue_intToHex] at hvalue
  exact congrArg Int32.ofUInt32 (UInt32.toNat_inj.mp hvalue)

/-- **The length field is faithful**: `intToHex` prints each number, and no two alike. -/
theorem intToHex_faithful (n : Int32) :
    HexOf n (intToHex n) ∧ ∀ m, intToHex m = intToHex n → m = n := by
  have hvalue := toNat_toUInt32 n
  refine ⟨?_, fun m => intToHex_injective⟩
  exact
    { loop := ⟨padLoop 4 (toHexString n), pads_padLoop (by omega), rfl⟩
      digits := fun c => isHexDigit_of_mem_intToHex
      value := by rw [hexValue_intToHex, hvalue]
      length := by
        have hfour := length_toHexString_le_iff n
        have hlow := n.le_toInt
        have hhigh := n.toInt_lt
        rw [length_intToHex_eq]
        omega
      head := head_intToHex }

/-! ## The length of a content -/

/-- The content of a message: the type, and behind a comma a body that is not blank. -/
def content (type body : Text) : Text :=
  if isNotBlank (some body) then type ++ lit "," ++ body else type

/-- The length field of the message tells the length of its content. -/
def TellsLength (m : Model) : Prop :=
  m.length = intToHex (Int32.ofNat (content m.type m.body).length)

instance (m : Model) : Decidable (TellsLength m) := inferInstanceAs (Decidable (_ = _))

/-- The third field of the printed text tells the length of the content. -/
def PrintsLength (m : Model) : Prop :=
  ((sendWatchData m).1.splitOn (ch '*'))[2]? =
    some (intToHex (Int32.ofNat (content m.type m.body).length))

instance (m : Model) : Decidable (PrintsLength m) := inferInstanceAs (Decidable (_ = _))

/-- The length of the type is that of the content exactly without a body: a body that is not blank
adds its comma and itself, which is less than the numbers of a length field go round in. -/
theorem intToHex_type_eq_iff {type body : Text} (hbody : Java.IsString body) :
    intToHex (Int32.ofNat type.length) = intToHex (Int32.ofNat (content type body).length) ↔
      isNotBlank (some body) = false := by
  constructor
  · intro h
    by_contra hb
    rw [Bool.not_eq_false] at hb
    have hlen : (content type body).length = type.length + 1 + body.length := by
      simp only [content, hb, if_true, List.length_append]
      rfl
    have hv := congrArg hexValue h
    rw [hexValue_intToHex, hexValue_intToHex, hlen, Int32.toUInt32_ofNat', Int32.toUInt32_ofNat',
      UInt32.toNat_ofNat', UInt32.toNat_ofNat'] at hv
    rw [Java.IsString] at hbody
    omega
  · intro hb
    rw [content, if_neg (by simp [hb])]

/-! ## The three functions -/

/-- What the printer writes in front of the length field. -/
def printedFront (m : Model) : Text := lit "[" ++ printedFactory m ++ lit "*" ++ m.deviceId

/-- The printed text, as its front, its length field and its content. -/
theorem sendWatchData_content {m : Model} (h : isNotBlank (some m.deviceId) = true) :
    (sendWatchData m).1 = printedFront m ++ ch '*' :: (intToHex (Int32.ofNat m.type.length) ++
      ch '*' :: (content m.type m.body ++ lit "]")) := by
  rw [sendWatchData_fst h]
  by_cases hb : isNotBlank (some m.body) = true <;>
    simp [joinContent, joinFields, printedFront, printedContent, content, hb, lit]

/-- The right number stands in the third field: without a star in the factory and the device id the
field is the length of the type, which is right without a body, and else it is a part of them. -/
def FrontTellsLength (m : Model) : Prop :=
  (ch '*' ∉ printedFactory m ∧ ch '*' ∉ m.deviceId ∧ isNotBlank (some m.body) = false) ∨
    ((printedFront m).splitOn (ch '*'))[2]? =
      some (intToHex (Int32.ofNat (content m.type m.body).length))

instance (m : Model) : Decidable (FrontTellsLength m) := inferInstanceAs (Decidable (_ ∨ _))

theorem length_splitOn_printedFront (m : Model) : ((printedFront m).splitOn (ch '*')).length =
    (printedFactory m).count (ch '*') + m.deviceId.count (ch '*') + 2 := by
  have hbracket : (lit "[").count (ch '*') = 0 := by decide
  have hstar : (lit "*").count (ch '*') = 1 := by decide
  rw [Java.length_splitOn, printedFront, List.count_append, List.count_append, List.count_append,
    hbracket, hstar]
  omega

theorem splitOn_printedFront {m : Model} (hf : ch '*' ∉ printedFactory m)
    (hd : ch '*' ∉ m.deviceId) :
    (printedFront m).splitOn (ch '*') = [lit "[" ++ printedFactory m, m.deviceId] := by
  have hf' : ch '*' ∉ lit "[" ++ printedFactory m := by
    simpa [List.mem_append, not_or] using ⟨by decide, hf⟩
  have he : printedFront m = (lit "[" ++ printedFactory m) ++ ch '*' :: m.deviceId := by
    simp [printedFront, lit]
  rw [he, List.splitOn_append_cons_self, List.splitOn_eq_singleton hf',
    List.splitOn_eq_singleton hd]
  rfl

/-- When the printer writes the right length. -/
theorem printsLength_iff {m : Model} (hbody : Java.IsString m.body)
    (h : isNotBlank (some m.deviceId) = true) : PrintsLength m ↔ FrontTellsLength m := by
  have hlength : ch '*' ∉ intToHex (Int32.ofNat m.type.length) :=
    (clean_intToHex (Int32.ofNat m.type.length)).1
  rw [PrintsLength, FrontTellsLength, sendWatchData_content h, List.splitOn_append_cons_self,
    List.splitOn_append_cons_self, List.splitOn_eq_singleton hlength]
  by_cases hstar : ch '*' ∈ printedFactory m ∨ ch '*' ∈ m.deviceId
  · have hpos : 0 < (printedFactory m).count (ch '*') + m.deviceId.count (ch '*') := by
      rw [← List.count_append]
      exact List.count_pos_iff.mpr (List.mem_append.mpr hstar)
    rw [List.getElem?_append_left (by rw [length_splitOn_printedFront]; omega)]
    refine ⟨.inr, ?_⟩
    rintro (⟨hf, hd, -⟩ | h)
    · exact (hstar.elim hf hd).elim
    · exact h
  · obtain ⟨hf, hd⟩ := not_or.mp hstar
    rw [splitOn_printedFront hf hd]
    simpa [hf, hd] using intToHex_type_eq_iff hbody

theorem isString_firstSplit {s : Text} {c : Unit16} (h : Java.IsString s) :
    Java.IsString (firstSplit s c) := by
  have hle : (s.dropWhile (· ≠ c)).length ≤ s.length := (List.dropWhile_suffix _).length_le
  rw [Java.IsString] at h ⊢
  rw [firstSplit_eq, List.length_tail]
  omega

/-- A message whose length field is that of its type. -/
theorem tellsLength_of_length {m : Model} (hbody : Java.IsString m.body)
    (h : m.length = intToHex (Int32.ofNat m.type.length)) :
    TellsLength m ↔ isNotBlank (some m.body) = false := by
  rw [TellsLength, h]
  exact intToHex_type_eq_iff hbody

theorem sendAnalyticData_body {data : Text} {m : Model} (h : sendAnalyticData data = .ok m) :
    m.body = firstSplit (inner data) (ch ',') ∧
      m.length = intToHex (Int32.ofNat m.type.length) := by
  simp only [sendAnalyticData, bind_eq_ok_iff, pure, Except.pure, Except.ok.injEq] at h
  obtain ⟨str, hstr, h⟩ := h
  obtain ⟨-, rfl⟩ := intercept_eq_ok_iff.mp hstr
  obtain ⟨_, -, _, -, _, -, type, -, rfl⟩ := h
  exact ⟨rfl, rfl⟩

theorem generateTemplate_body {now : Text} {deviceId : Option Text} {type body : Text} {m : Model}
    (h : generateTemplate now deviceId type body = .ok m) :
    m.body = firstSplit body (ch ',') ∧ m.length = intToHex (Int32.ofNat m.type.length) := by
  simp only [generateTemplate, bind_eq_ok_iff, pure, Except.pure, Except.ok.injEq] at h
  obtain ⟨device, -, rfl⟩ := h
  exact ⟨rfl, rfl⟩

/-- **When the length field is right**: the printer writes the right length exactly for a front that
tells it, and the two other functions exactly for a text without a body behind its first comma. -/
theorem tellsLength_iff (m : Model) (data now : Text) (deviceId : Option Text) (type body : Text)
    (hm : Java.IsString m.body) (hdata : Java.IsString data) (hbody : Java.IsString body) :
    (isNotBlank (some m.deviceId) = true → (PrintsLength m ↔ FrontTellsLength m)) ∧
    (∀ msg, sendAnalyticData data = .ok msg →
      (TellsLength msg ↔ isNotBlank (some (firstSplit (inner data) (ch ','))) = false)) ∧
    ∀ msg, generateTemplate now deviceId type body = .ok msg →
      (TellsLength msg ↔ isNotBlank (some (firstSplit body (ch ','))) = false) := by
  refine ⟨fun h => printsLength_iff hm h, fun msg h => ?_, fun msg h => ?_⟩
  · obtain ⟨hb, hl⟩ := sendAnalyticData_body h
    have hinner : Java.IsString (inner data) := by
      rw [Java.IsString, inner, List.length_dropLast, List.length_tail]
      rw [Java.IsString] at hdata
      omega
    rw [← hb]
    exact tellsLength_of_length (hb ▸ isString_firstSplit hinner) hl
  · obtain ⟨hb, hl⟩ := generateTemplate_body h
    rw [← hb]
    exact tellsLength_of_length (hb ▸ isString_firstSplit hbody) hl

/-- A link-keep message with a body. -/
def linkKeepMessage : Model :=
  { deviceId := lit "1", length := lit "0002", type := lit "LK", body := lit "0" }

/-- **The body is not counted**: a link-keep message with the content `LK,0` of four characters is
printed with the length two, and the two other functions give it that length as well. -/
theorem wrong_length_of_linkKeepMessage :
    isNotBlank (some linkKeepMessage.deviceId) = true ∧
      (sendWatchData linkKeepMessage).1 = lit "[3G*1*0002*LK,0]" ∧ ¬PrintsLength linkKeepMessage ∧
    sendAnalyticData (lit "[3G*1*0004*LK,0]") = .ok { linkKeepMessage with factory := lit "3G" } ∧
    generateTemplate [] (some (lit "1")) (lit "LK") (lit ",0") =
      .ok { linkKeepMessage with factory := lit "3G" } ∧
    ¬TellsLength { linkKeepMessage with factory := lit "3G" } := by
  refine ⟨by decide, by decide, by decide, by decide, by decide, by decide⟩

theorem tellsLength_iff_linkKeepMessage :
    (PrintsLength linkKeepMessage ↔ FrontTellsLength linkKeepMessage) ∧
    (TellsLength { linkKeepMessage with factory := lit "3G" } ↔
      isNotBlank (some (firstSplit (inner (lit "[3G*1*0004*LK,0]")) (ch ','))) = false) ∧
    (TellsLength { linkKeepMessage with factory := lit "3G" } ↔
      isNotBlank (some (firstSplit (lit ",0") (ch ','))) = false) := by
  obtain ⟨hprint, hsend, htemplate⟩ := tellsLength_iff linkKeepMessage (lit "[3G*1*0004*LK,0]") []
    (some (lit "1")) (lit "LK") (lit ",0") (by decide) (by decide) (by decide)
  exact ⟨hprint (by decide), hsend _ (by decide), htemplate _ (by decide)⟩

end NettyTcpWeb
