import NettyTcpWeb.Message.Grammar
import NettyTcpWeb.Message.Proxy

/-!
# What becomes of the body of a template

`generateTemplate` keeps of the body it is given only what stands behind its first comma, so a
body without a comma is lost, and one with a comma loses its first part. The printer and the parser
then change nothing but a blank body, which is not printed.

## Main definitions

* `CarriesBody`: a template that is read with the fields it was given

## Main results

* `generateTemplate_read`: what a reader of a printed template finds
* `template_loses_body`: no template is read with the body it was given
-/

namespace NettyTcpWeb

open Java (Text Unit16 ch lit isNotBlank)

variable {now d t b : Text} {m : Model}

/-- What stands behind the first separator is shorter than a text that is not empty. -/
theorem length_firstSplit_lt {s : Text} {c : Unit16} (hne : s ≠ []) :
    (firstSplit s c).length < s.length := by
  have hle : (s.dropWhile (· ≠ c)).length ≤ s.length := (List.dropWhile_suffix _).length_le
  have hpos := List.length_pos_of_ne_nil hne
  rw [firstSplit_eq, List.length_tail]
  omega

theorem firstSplit_subset (s : Text) (c : Unit16) : firstSplit s c ⊆ s := by
  rw [firstSplit_eq]
  exact List.Subset.trans (List.tail_subset _) (List.dropWhile_sublist _).subset

theorem generateTemplate_fields (now d t b : Text) :
    ∃ m, generateTemplate now (some d) t b = .ok m ∧ m.factory = lit "3G" ∧ m.deviceId = d ∧
      m.type = t ∧ m.body = firstSplit b (ch ',') :=
  ⟨_, rfl, rfl, rfl, rfl, rfl⟩

/-- **What a reader of a printed template finds**: its device and type, and what stands behind the
first comma of the body, unless that is blank. -/
theorem generateTemplate_read (now : Text) (hd : isNotBlank (some d) = true) (hdc : Clean d)
    (ht : t ≠ []) (htc : Clean t) (hb : ch ']' ∉ b) :
    ∃ m msg, generateTemplate now (some d) t b = .ok m ∧
      receiveAnalyticData (sendWatchData m).1 = .ok msg ∧ msg.deviceId = d ∧ msg.type = t ∧
      msg.body =
        if isNotBlank (some (firstSplit b (ch ','))) then firstSplit b (ch ',') else [] := by
  obtain ⟨m, hm, hfactory, hdevice, htype, hbody⟩ := generateTemplate_fields now d t b
  have hprint : Printable m :=
    { deviceId_notBlank := hdevice ▸ hd
      deviceId_clean := hdevice ▸ hdc
      factory_clean := fun _ => hfactory ▸ by decide
      type_clean := htype ▸ htc
      type_ne_nil := htype ▸ ht
      body_clean := hbody ▸ fun h => hb (firstSplit_subset b _ h) }
  refine ⟨m, hprint.frame.message, hm, ?_, hdevice, htype, ?_⟩
  · rw [sendWatchData_frame hprint]
    exact hprint.frame.receiveAnalyticData_text
  · show (printedContent m).getD [] = _
    rw [printedContent, hbody]
    split <;> rfl

/-- The printed template is read with the device, the type and the body it was given. -/
def CarriesBody (now d t b : Text) : Prop := ∃ m msg,
  generateTemplate now (some d) t b = .ok m ∧ receiveAnalyticData (sendWatchData m).1 = .ok msg ∧
    msg.deviceId = d ∧ msg.type = t ∧ msg.body = b

/-- The status digit of a notice has no comma in front of it, so no notice has one. -/
theorem notice_body {a : Text}
    (h : getOnLineStateMsg now a = .ok m ∨ getOffLineStateMsg now a = .ok m) : m.body = [] := by
  rcases h with h | h
  · obtain rfl := Except.ok.inj h
    rfl
  · obtain rfl := Except.ok.inj h
    rfl

/-- **No template is read with the body it was given**, and no notice has its status digit. -/
theorem template_loses_body (now : Text) (hd : isNotBlank (some d) = true) (hdc : Clean d)
    (ht : t ≠ []) (htc : Clean t) (hb : isNotBlank (some b) = true) (hbc : ch ']' ∉ b) :
    ¬ CarriesBody now d t b ∧ ∀ m, getOnLineStateMsg now (some d) = .ok m ∨
      getOffLineStateMsg now (some d) = .ok m → m.body = [] := by
  refine ⟨?_, fun m h => notice_body h⟩
  rintro ⟨m, msg, hm, hmsg, -, -, hbody⟩
  obtain ⟨m', msg', hm', hmsg', -, -, hbody'⟩ := generateTemplate_read now hd hdc ht htc hbc
  obtain rfl : m' = m := Except.ok.inj (hm'.symm.trans hm)
  obtain rfl : msg' = msg := Except.ok.inj (hmsg'.symm.trans hmsg)
  have hne : b ≠ [] := by
    rintro rfl
    cases hb
  have hlt := length_firstSplit_lt (c := ch ',') hne
  have hle : msg'.body.length ≤ (firstSplit b (ch ',')).length := by
    rw [hbody']
    split
    · exact le_rfl
    · exact Nat.zero_le _
  rw [hbody] at hle
  omega

theorem template_loses_body_status :
    ¬ CarriesBody [] (lit "3919753126") (lit "LK") (lit "0,1255,99") ∧
      ∀ m, getOnLineStateMsg [] (lit "3919753126") = .ok m ∨
        getOffLineStateMsg [] (lit "3919753126") = .ok m → m.body = [] :=
  template_loses_body [] (by decide) (by decide) (by decide) (by decide) (by decide) (by decide)

/-- The status at the front of the body is not printed. -/
theorem template_without_status :
    ∃ m msg, generateTemplate [] (lit "3919753126") (lit "LK") (lit "0,1255,99") = .ok m ∧
      (sendWatchData m).1 = lit "[3G*3919753126*0002*LK,1255,99]" ∧
      receiveAnalyticData (sendWatchData m).1 = .ok msg ∧ msg.body = lit "1255,99" ∧
      ¬ CarriesBody [] (lit "3919753126") (lit "LK") (lit "0,1255,99") := by
  refine ⟨_, _, rfl, by decide, rfl, by decide, ?_⟩
  rintro ⟨m, msg, hm, hmsg, -, -, hbody⟩
  cases hm
  cases hmsg
  exact absurd hbody (by decide)

end NettyTcpWeb
