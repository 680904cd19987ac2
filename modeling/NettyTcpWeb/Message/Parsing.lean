import Mathlib.Data.Nat.Digits.Lemmas
import NettyTcpWeb.Library.Text

/-!
# The watch protocol: printing and parsing

A message of the watch protocol is the text `[factory*deviceId*length*type,body]`. This module
embeds the message builder and `WatchMessageParsingUtils`: the parser `receiveAnalyticData`, the
printer `sendWatchData`, the template `generateTemplate` and the bracket filter `filterData`.

## Main definitions

* `Model`: the builder `WatchMessageBodyProto.Model.Builder`
* `intToHex`: the padded hexadecimal length
* `receiveAnalyticData`, `sendWatchData`, `generateTemplate`, `filterData`

## Main results

* `isHexDigit_of_mem_intToHex`, `length_intToHex`: a length field has four to eight characters,
  all of them hexadecimal digits
* `firstSplit_append_cons`, `intercept_brackets`, `filterData_append`: what the three cuts leave
* `receiveAnalyticData_brackets`: what a parsed frame consists of
-/

namespace NettyTcpWeb

open Java (Text Unit16 Exception ch lit isNotBlank)

/-- `WatchMessageBodyProto.Model.Builder`; an unset field is the empty string. -/
structure Model where
  factory : Text := []
  deviceId : Text := []
  length : Text := []
  type : Text := []
  body : Text := []
  timeStamp : Text := []
  sender : Text := []
  receiver : Text := []
  groupId : Text := []
deriving DecidableEq, Repr

/-- `Constants.ImserverConfig.DELIMITER`, as the one character it consists of. -/
def delimiter : Unit16 := ch ']'

/-! ## Lengths in hexadecimal -/

/-- The digit character of `Integer.toHexString`. -/
def hexDigit (d : Nat) : Unit16 :=
  if d < 10 then ch '0' + UInt16.ofNat d else ch 'a' + UInt16.ofNat (d - 10)

/-- `Integer.toHexString(n)`: the digits of `n` read as an unsigned number. -/
def toHexString (n : Int32) : Text :=
  match Nat.digits 16 n.toUInt32.toNat with
  | [] => lit "0"
  | ds => (ds.map hexDigit).reverse

/-- The loop `while(str.length() < 4) str = "0"+str`, for at most `fuel` rounds. -/
def padLoop : Nat → Text → Text
  | 0, str => str
  | fuel + 1, str => if str.length < 4 then padLoop fuel (ch '0' :: str) else str

/-- `toUpperCase()` on the characters `Integer.toHexString` prints. -/
def toUpperCase (str : Text) : Text :=
  str.map fun c => if ch 'a' ≤ c ∧ c ≤ ch 'f' then c - 0x20 else c

/-- `IntToHex`; four rounds of the padding loop are enough for every text. -/
def intToHex (n : Int32) : Text := toUpperCase (padLoop 4 (toHexString n))

/-- The characters of a length field. -/
def IsHexDigit (c : Unit16) : Prop := (ch '0' ≤ c ∧ c ≤ ch '9') ∨ (ch 'A' ≤ c ∧ c ≤ ch 'F')

instance (c : Unit16) : Decidable (IsHexDigit c) := inferInstanceAs (Decidable (_ ∨ _))

theorem IsHexDigit.ne_of_not {c d : Unit16} (hc : IsHexDigit c) (hd : ¬ IsHexDigit d) : c ≠ d :=
  fun he => hd (he ▸ hc)

theorem mem_padLoop {fuel : Nat} {str : Text} {c : Unit16} (h : c ∈ padLoop fuel str) :
    c = ch '0' ∨ c ∈ str := by
  induction fuel generalizing str with
  | zero => exact .inr h
  | succ fuel ih =>
    rw [padLoop] at h
    split at h
    · rcases ih h with h | h
      · exact .inl h
      · exact (List.mem_cons.mp h).imp id id
    · exact .inr h

theorem length_padLoop {fuel : Nat} {str : Text} (h : 4 ≤ fuel + str.length) :
    (padLoop fuel str).length = max 4 str.length := by
  induction fuel generalizing str with
  | zero => simp only [padLoop]; omega
  | succ fuel ih =>
    rw [padLoop]
    split
    · rw [ih (by simp only [List.length_cons]; omega), List.length_cons]; omega
    · omega

theorem toUpperCase_hexDigit : ∀ d < 16, IsHexDigit (if ch 'a' ≤ hexDigit d ∧ hexDigit d ≤ ch 'f'
    then hexDigit d - 0x20 else hexDigit d) := by decide

theorem mem_toHexString {n : Int32} {c : Unit16} (h : c ∈ toHexString n) :
    ∃ d < 16, c = hexDigit d := by
  rw [toHexString] at h
  split at h
  · obtain rfl : c = ch '0' := by simpa [lit] using h
    exact ⟨0, by decide, by decide⟩
  · simp only [List.mem_reverse, List.mem_map] at h
    obtain ⟨d, hd, rfl⟩ := h
    exact ⟨d, Nat.digits_lt_base (by decide) hd, rfl⟩

/-- A length field consists of hexadecimal digits. -/
theorem isHexDigit_of_mem_intToHex {n : Int32} {c : Unit16} (h : c ∈ intToHex n) :
    IsHexDigit c := by
  obtain ⟨c, hc, rfl⟩ := List.mem_map.mp h
  rcases mem_padLoop hc with rfl | hc
  · exact toUpperCase_hexDigit 0 (by decide)
  · obtain ⟨d, hd, rfl⟩ := mem_toHexString hc
    exact toUpperCase_hexDigit d hd

theorem length_toHexString_le (n : Int32) : (toHexString n).length ≤ 8 := by
  rw [toHexString]
  split
  · decide
  · rename_i ds _
    rw [List.length_reverse, List.length_map, Nat.digits_length_le_iff (by decide)]
    exact n.toUInt32.toNat_lt

theorem length_intToHex (n : Int32) :
    4 ≤ (intToHex n).length ∧ (intToHex n).length ≤ 8 := by
  have hle := length_toHexString_le n
  rw [intToHex, toUpperCase, List.length_map, length_padLoop (by omega)]
  omega

theorem intToHex_ne_nil (n : Int32) : intToHex n ≠ [] :=
  List.ne_nil_of_length_pos (by have := length_intToHex n; omega)

/-- The one text that is the length field of a text of its own length. -/
theorem eq_intToHex_length_iff {type : Text} :
    type = intToHex (Int32.ofNat type.length) ↔ type = lit "0004" := by
  constructor
  · intro h
    have hlen : type.length = (intToHex (Int32.ofNat type.length)).length := congrArg List.length h
    have hle : type.length ≤ 8 := hlen.trans_le (length_intToHex _).2
    generalize type.length = k at h hlen hle
    subst h
    interval_cases k <;> revert hlen <;> decide
  · rintro rfl
    decide

/-! ## Cutting a frame -/

/-- `Split(str, symbol)`: the regular expression it builds matches exactly `symbol`. -/
def split (str : Text) (symbol : Unit16) : List Text := Java.split str symbol

/-- `firstSplit(str, symbol)`: the text behind the first `symbol`, empty if there is none. -/
def firstSplit (str : Text) (symbol : Unit16) : Text :=
  match Java.indexOf str symbol with
  | none => []
  | some len => str.drop (len + 1)

/-- `Intercept(str)`: the text without its first and last character. -/
def intercept (str : Text) : Except Exception Text := Java.substring str 1 (str.length - 1)

/-- The array access `parts[i]`. -/
def index (parts : List Text) (i : Nat) : Except Exception Text :=
  match parts[i]? with
  | none => .error .indexOutOfBounds
  | some part => .ok part

/-- `filterData(data)`: the text from the first opening to the first closing bracket. -/
def filterData (data : Text) : Except Exception Text :=
  match Java.indexOf data (ch '['), Java.indexOf data (ch ']') with
  | some first, some last => Java.substring data first (last + 1)
  | _, _ => .ok []

/-- `receiveAnalyticData(data)`. -/
def receiveAnalyticData (data : Text) : Except Exception Model := do
  let str ← intercept data
  let len := split str (ch ',')
  let info := split (← index len 0) (ch '*')
  return { factory := ← index info 0
           deviceId := ← index info 1
           length := ← index info 2
           type := ← index info 3
           body := firstSplit str (ch ',') }

/-- `sendAnalyticData(data)`; the length of the content is computed and then overwritten by that of
the type. -/
def sendAnalyticData (data : Text) : Except Exception Model := do
  let str ← intercept data
  let len := split str (ch ',')
  let info := split (← index len 0) (ch '*')
  let msg : Model :=
    { factory := ← index info 0
      deviceId := ← index info 1
      type := ← index info 3
      body := firstSplit str (ch ',') }
  let length := msg.type
  return { msg with length := intToHex (Int32.ofNat length.length) }

theorem index_eq_ok_iff {parts : List Text} {i : Nat} {part : Text} :
    index parts i = .ok part ↔ parts[i]? = some part := by
  rw [index]
  split <;> simp_all

theorem firstSplit_of_not_mem {str : Text} {symbol : Unit16} (h : symbol ∉ str) :
    firstSplit str symbol = [] := by
  rw [firstSplit, Java.indexOf_of_not_mem h]

theorem firstSplit_append_cons {x y : Text} {symbol : Unit16} (h : symbol ∉ x) :
    firstSplit (x ++ symbol :: y) symbol = y := by
  rw [firstSplit, Java.indexOf_append_cons h]
  simp

/-- The text between the brackets of a frame. -/
theorem intercept_brackets (a b : Unit16) (str : Text) :
    intercept (a :: (str ++ [b])) = .ok str := by
  rw [intercept, Java.substring, if_pos (by simp)]
  simp

/-- The filter cuts everything in front of the first bracket. -/
theorem filterData_append {g str : Text} (hg : ch '[' ∉ g) (hg' : ch ']' ∉ g)
    (hstr : ch ']' ∉ str) :
    filterData (g ++ ch '[' :: (str ++ [ch ']'])) = .ok (ch '[' :: (str ++ [ch ']'])) := by
  have hlast : Java.indexOf (g ++ ch '[' :: (str ++ [ch ']'])) (ch ']') =
      some (g ++ ch '[' :: str).length := by
    have h : ch ']' ∉ g ++ ch '[' :: str := by
      simp only [List.mem_append, List.mem_cons, not_or]
      exact ⟨hg', by decide, hstr⟩
    simpa using Java.indexOf_append_cons (y := []) h
  rw [filterData, Java.indexOf_append_cons hg, hlast]
  simp only [Java.substring]
  rw [if_pos (by simp; omega), List.take_of_length_le (by simp; omega)]
  simp

/-- A bound computation succeeds exactly if both of its parts do. -/
theorem bind_eq_ok_iff {ε α β : Type} {x : Except ε α} {f : α → Except ε β} {b : β} :
    x >>= f = .ok b ↔ ∃ a, x = .ok a ∧ f a = .ok b := by
  cases x <;> simp [bind, Except.bind]

/-- **What a parsed frame consists of**: the first four `*`-parts of the head in front of the first
comma, and the text behind it. -/
theorem receiveAnalyticData_brackets {a b : Unit16} {str : Text} {m : Model} :
    receiveAnalyticData (a :: (str ++ [b])) = .ok m ↔ ∃ h f d l t,
      (split str (ch ','))[0]? = some h ∧ (split h (ch '*'))[0]? = some f ∧
      (split h (ch '*'))[1]? = some d ∧ (split h (ch '*'))[2]? = some l ∧
      (split h (ch '*'))[3]? = some t ∧
      m = { factory := f, deviceId := d, length := l, type := t,
            body := firstSplit str (ch ',') } := by
  simp only [receiveAnalyticData, intercept_brackets, bind_eq_ok_iff, index_eq_ok_iff, pure,
    Except.pure, Except.ok.injEq, exists_eq_left']
  constructor
  · rintro ⟨h, hh, f, hf, d, hd, l, hl, t, ht, rfl⟩
    exact ⟨h, f, d, l, t, hh, hf, hd, hl, ht, rfl⟩
  · rintro ⟨h, f, d, l, t, hh, hf, hd, hl, ht, rfl⟩
    exact ⟨h, hh, f, hf, d, hd, l, hl, t, ht, rfl⟩

/-! ## Printing a message -/

/-- `sendWatchData(message)`: the printed text, and the builder with its length set; a message
without a device prints nothing. -/
def sendWatchData (message : Model) : Text × Model :=
  if isNotBlank (some message.deviceId) = false then ([], message)
  else
    let factory := if isNotBlank (some message.factory) = false then lit "3G*"
      else message.factory ++ lit "*"
    let length := message.type
    let message := { message with length := intToHex (Int32.ofNat length.length) }
    (lit "[" ++ factory ++ (message.deviceId ++ lit "*") ++ (message.length ++ lit "*") ++
      message.type ++ (if isNotBlank (some message.body) then lit "," ++ message.body else []) ++
      lit "]", message)

/-- The argument of a builder's setter: `null` raises. -/
def nonNull (value : Option Text) : Except Exception Text :=
  match value with
  | none => .error .nullPointer
  | some value => .ok value

/-- `generateTemplate(deviceId, type, body)` at the clock text `now`. -/
def generateTemplate (now : Text) (deviceId : Option Text) (type body : Text) :
    Except Exception Model := do
  let msg : Model :=
    { factory := lit "3G"
      deviceId := ← nonNull deviceId
      type := type
      body := firstSplit body (ch ',') }
  let length := msg.type
  return { msg with length := intToHex (Int32.ofNat length.length), timeStamp := now }

end NettyTcpWeb
