import NettyTcpWeb.Server.Routing

/-!
# Notices that an account is offline

When a close takes an account off the map, the group is told that the account is offline. No other
event takes an account off the map for good: a login that makes a session give way puts its own one
in its place, provided that the address of its channel is known. So the notices and the map agree. A
client may send the group a message that looks like a notice; it differs from one in that it names a
group.

## Main definitions

* `Output.isNotice`, `notices`: a notice that an account is offline, and how many an event sends
* `Leaves`: an event takes an account off the map
* `Event.AddressKnown`, `Event.LinkKeepFor`: events at known addresses, and the link-keep messages
  for an account
* `LogsIn`: a login, that is a link-keep message that puts its account on the map

## Main results

* `notices_step`: an event sends one notice for each account that leaves
* `exists_logsIn`: an account that comes back on the map has logged in
* `notices_of_run`: **the notices match the map** throughout a run, and between two notices for an
  account there is a login
-/

namespace NettyTcpWeb

open Java (Text lit)
open StateExcept

variable {C : Type}

/-- A broadcast notice that the account is offline. -/
def Output.isNotice (a : Text) : Output C → Bool
  | .broadcast msg _ => msg.type = lit "OFFLINE" && msg.deviceId = a && msg.groupId = []
  | .write _ _ => false

/-- The address of the channel of an event is known. -/
def Event.AddressKnown : Event C → Prop
  | .message ctx _ _ | .writerIdle ctx _ | .readerIdle ctx _ | .channelInactive ctx _ =>
    ctx.remoteAddress ≠ none
  | .disconnect _ => True

/-- A link-keep message for the account. -/
def Event.LinkKeepFor (a : Text) : Event C → Prop
  | .message _ _ m => m.type = lit "LK" ∧ m.deviceId = a
  | _ => False

variable [DecidableEq C] [Channel C]

/-- How many notices for the account an event sends. -/
def notices (s : Server C) (e : Event C) (a : Text) : Nat := (step s e).out.countP (·.isNotice a)

/-- The event takes the account off the map. -/
def Leaves (s : Server C) (e : Event C) (a : Text) : Prop :=
  s.sessions a ≠ none ∧ (step s e).sessions a = none

/-- A login of the account: a link-keep message that puts it on the map. -/
structure LogsIn (s : Server C) (e : Event C) (a : Text) : Prop where
  linkKeep : e.LinkKeepFor a
  absent : s.sessions a = none
  stored : (step s e).sessions a ≠ none

/-- The notices of an event for an account match the map: there is one if the account leaves, and
none otherwise. -/
def NoticesMatch (a : Text) (s : Server C) (e : Event C) : Prop :=
  (Leaves s e a → notices s e a = 1) ∧ (¬ Leaves s e a → notices s e a = 0)

/-! ## Events that send no notice -/

section Quiet

variable {s : Server C} {o : Output C}

/-- A message is written, or it is broadcast for the group it names. -/
theorem not_isNotice_of_message {ctx : ChannelHandlerContext C} {now : Clock} {m : Model}
    (hLK : m.type ≠ lit "LK") (ho : o ∈ (step s (.message ctx now m)).out) (a : Text) :
    o.isNotice a = false := by
  by_cases hUD : m.type = lit "UD"
  · rw [step_message_UD s ctx now hUD] at ho
    cases ho
  cases ha : s.account ctx.channel with
  | none =>
    rw [(step_message_of_none s ctx now hLK hUD ha).1] at ho
    cases ho
  | some sender =>
    obtain ⟨b, hstep, -⟩ := step_message_of_some s ctx now hLK hUD ha
    rw [hstep] at ho
    rcases mem_route_out ho with hnil | ⟨c, rfl⟩ | ⟨members, rfl, hgroup⟩
    · cases hnil
    · rfl
    · have hgroup : m.groupId ≠ [] := hgroup
      simp [Output.isNotice, hgroup]

theorem not_isNotice_of_quiet {e : Event C} (hLK : ¬ e.IsLinkKeep) (hreach : ¬ ReachesClose s e)
    (ho : o ∈ (step s e).out) (a : Text) : o.isNotice a = false := by
  cases e with
  | message ctx now m => exact not_isNotice_of_message hLK ho a
  | writerIdle ctx now =>
    rcases (handle_writerIdle { s with out := [] } ctx now).write_of_mem_out ho with ho | ⟨msg, rfl⟩
    · cases ho
    · rfl
  | readerIdle ctx now =>
    rw [step, handle_readerIdle_of_not_expired (s := { s with out := [] }) hreach] at ho
    cases ho
  | disconnect c => cases ho
  | channelInactive ctx now =>
    rw [step_channelInactive, if_neg] at ho
    · cases ho
    · exact hreach

/-- A login writes its answer, which is no broadcast. -/
theorem not_isNotice_of_linkKeep (hwf : s.Wellformed) {ctx : ChannelHandlerContext C} {now : Clock}
    {m : Model} (hLK : m.type = lit "LK") (ho : o ∈ (step s (.message ctx now m)).out) (a : Text) :
    o.isNotice a = false := by
  obtain ⟨s₀, -, hout, hlogin⟩ := step_login hwf ctx now hLK
  rcases hlogin.write_of_mem_out ho with hnil | ⟨c, rfl⟩
  · simp [hout] at hnil
  · rfl

end Quiet

/-! ## Notices and the map -/

section Step

variable {s : Server C} {e : Event C}

theorem notices_eq_zero {a : Text} (h : ∀ o ∈ (step s e).out, o.isNotice a = false) :
    notices s e a = 0 := by
  rw [notices, List.countP_eq_zero]
  intro o ho
  simp [h o ho]

/-- A close sends one notice if it takes the account of its channel off the map. -/
theorem notices_closing {t : Server C} {c : C} (h : Closing s c t) (a : Text) :
    (s.sessions a ≠ none ∧ t.sessions a = none →
        t.out.countP (·.isNotice a) = s.out.countP (·.isNotice a) + 1) ∧
      (¬ (s.sessions a ≠ none ∧ t.sessions a = none) →
        t.out.countP (·.isNotice a) = s.out.countP (·.isNotice a)) := by
  cases h with
  | absent | stale => exact ⟨fun h => absurd h.2 h.1, fun _ => rfl⟩
  | kept a' S S' y ha hS hclosing hpages =>
    refine ⟨?_, fun _ => rfl⟩
    rintro ⟨hin, hgone⟩
    have hgone : Function.update s.sessions a' (some S') a = none := hgone
    by_cases haa : a = a'
    · simp [haa] at hgone
    · rw [Function.update_of_ne haa] at hgone
      exact absurd hgone hin
  | dropped a' S S' y now msg ha hS hclosing hpages hmsg =>
    obtain ⟨htype, hdevice, hgroup⟩ := getOffLineStateMsg_fields hmsg
    set members := ((s.closeChannel y).drop a').group
    have hout : ((((s.closeChannel y).drop a').broadcast msg).leaveGroup c).out =
        s.out ++ [.broadcast msg members] := rfl
    have hsessions : ((((s.closeChannel y).drop a').broadcast msg).leaveGroup c).sessions =
        Function.update s.sessions a' none := rfl
    rw [hout, hsessions, List.countP_append, List.countP_singleton]
    by_cases haa : a = a'
    · subst haa
      simp [Output.isNotice, htype, hdevice, hgroup, hS]
    · have hother : msg.deviceId ≠ a := fun h => haa (h.symm.trans hdevice)
      rw [Function.update_of_ne haa]
      simp [Output.isNotice, hother]

/-- **An event sends one notice for each account that leaves.** -/
theorem notices_step (hwf : s.Wellformed) (haddr : e.AddressKnown) (a : Text) :
    NoticesMatch a s e := by
  by_cases hLK : e.IsLinkKeep
  · obtain ⟨ctx, now, m, s₀, rfl, hm, hs₀, -, hlogin⟩ := hLK.exists_login hwf
    refine ⟨?_, fun _ => notices_eq_zero fun o ho => not_isNotice_of_linkKeep hwf hm ho a⟩
    rintro ⟨hin, hout⟩
    exact absurd hout (hlogin.sessions_ne_none haddr (by rwa [hs₀.sessions]))
  by_cases hreach : ReachesClose s e
  · obtain ⟨t, hclose, ht, hout⟩ := step_closing hwf hreach
    have hstep := notices_closing hclose a
    simpa [NoticesMatch, notices, Leaves, hout, ht.sessions] using hstep
  · refine ⟨?_, fun _ => notices_eq_zero fun o ho => not_isNotice_of_quiet hLK hreach ho a⟩
    rintro ⟨hin, hout⟩
    rw [(step_quiet hwf hLK hreach).sessions, meets_sessions] at hout
    exact absurd hout hin

/-- Only a link-keep message for the account brings it back. -/
theorem sessions_of_not_linkKeepFor (hwf : s.Wellformed) {a : Text} (he : ¬ e.LinkKeepFor a)
    (hnone : s.sessions a = none) : (step s e).sessions a = none := by
  by_cases hLK : e.IsLinkKeep
  · obtain ⟨ctx, now, m, s₀, rfl, hm, hs₀, -, hlogin⟩ := hLK.exists_login hwf
    rw [hlogin.sessions_of_ne fun ha => he ⟨hm, ha.symm⟩, hs₀.sessions, hnone]
  · by_contra hsome
    obtain ⟨T, hT⟩ := Option.ne_none_iff_exists'.mp hsome
    obtain ⟨S, hS, -⟩ := session_of_step hwf hLK hT
    cases hnone.symm.trans hS

/-- **An account that comes back on the map has logged in.** -/
theorem exists_logsIn (hwf : s.Wellformed) {a : Text} (hnone : s.sessions a = none)
    {es : List (Event C)} (hsome : ((server C).exec s es).sessions a ≠ none) :
    ∃ us l vs, es = us ++ l :: vs ∧ LogsIn ((server C).exec s us) l a := by
  induction es generalizing s with
  | nil => exact absurd hnone hsome
  | cons e es ih =>
    by_cases hnext : (step s e).sessions a = none
    · obtain ⟨us, l, vs, rfl, hlogin⟩ := ih (hwf.step e) hnext hsome
      exact ⟨e :: us, l, vs, rfl, hlogin⟩
    · have hlinkKeep : e.LinkKeepFor a := by
        by_contra he
        exact hnext (sessions_of_not_linkKeepFor hwf he hnone)
      exact ⟨[], e, es, rfl, hlinkKeep, hnone, hnext⟩

theorem sessions_of_no_linkKeepFor (hwf : s.Wellformed) {a : Text} (hnone : s.sessions a = none)
    {es : List (Event C)} (hes : ∀ e ∈ es, ¬ e.LinkKeepFor a) :
    ((server C).exec s es).sessions a = none := by
  by_contra hsome
  obtain ⟨us, l, vs, rfl, hlogin⟩ := exists_logsIn hwf hnone hsome
  exact hes l (List.mem_append_right _ List.mem_cons_self) hlogin.linkKeep

end Step

/-- Between two events of the list that send notices for the account it logs in. -/
def LoginBetweenNotices (a : Text) (es : List (Event C)) : Prop :=
  ∀ xs e ys e' zs, es = xs ++ e :: (ys ++ e' :: zs) →
    notices ((server C).exec .empty xs) e a ≠ 0 →
    notices ((server C).exec .empty (xs ++ e :: ys)) e' a ≠ 0 →
    ∃ us l vs, ys = us ++ l :: vs ∧ LogsIn ((server C).exec .empty (xs ++ e :: us)) l a

theorem along_noticesMatch {s : Server C} (hwf : s.Wellformed) {es : List (Event C)}
    (haddr : ∀ e ∈ es, e.AddressKnown) (a : Text) : (server C).Along (NoticesMatch a) s es := by
  induction es generalizing s with
  | nil => trivial
  | cons e es ih =>
    refine ⟨notices_step hwf (haddr e List.mem_cons_self) a, ?_⟩
    exact ih (hwf.step e) fun e he => haddr e (List.mem_cons_of_mem _ he)

/-- **The notices match the map** along all events at known addresses, and between two notices for
an account it logs in. -/
theorem notices_of_run {es : List (Event C)} (haddr : ∀ e ∈ es, e.AddressKnown) (a : Text) :
    (server C).Along (NoticesMatch a) .empty es ∧ LoginBetweenNotices a es := by
  refine ⟨along_noticesMatch wellformed_empty haddr a, ?_⟩
  rintro xs e ys e' zs rfl hfirst hsecond
  have hwf : ((server C).exec .empty xs).Wellformed := wellformed_exec wellformed_empty xs
  have hwf' : ((server C).exec .empty (xs ++ e :: ys)).Wellformed :=
    wellformed_exec wellformed_empty _
  have hleft : (step ((server C).exec .empty xs) e).sessions a = none := by
    by_contra hin
    exact hfirst ((notices_step hwf (haddr e (by simp)) a).2 fun h => hin h.2)
  have hback : ((server C).exec .empty (xs ++ e :: ys)).sessions a ≠ none := by
    intro hgone
    exact hsecond ((notices_step hwf' (haddr e' (by simp)) a).2 fun h => h.1 hgone)
  rw [Automaton.exec_append] at hback
  obtain ⟨us, l, vs, rfl, hlogin⟩ := exists_logsIn (hwf.step e) hleft hback
  refine ⟨us, l, vs, rfl, ?_⟩
  rw [Automaton.exec_append]
  exact hlogin

/-- A page logs in, goes, comes back and goes again. -/
def pageComesBack : List (Event Client) :=
  [(Client.page 0).linkKeep (lit "1"), .disconnect (Client.page 0), (Client.page 0).gone,
    (Client.page 1).linkKeep (lit "1"), .disconnect (Client.page 1), (Client.page 1).gone]

theorem notices_of_run_pageComesBack :
    (server Client).Along (NoticesMatch (lit "1")) .empty pageComesBack ∧
      LoginBetweenNotices (lit "1") pageComesBack := by
  apply notices_of_run
  simp [pageComesBack, Event.AddressKnown, Client.linkKeep, Client.gone, Client.ctx]

/-- A page logs in, and sends the group a message that looks like a notice for another account. -/
def fakeNotice : List (Event Client) :=
  [(Client.page 0).linkKeep (lit "1"), .message (Client.page 0).ctx ⟨0, []⟩
    { type := lit "OFFLINE", deviceId := lit "2", groupId := lit "5" }]

/-- **A message of a client is broadcast as a notice** for an account that has never been logged
in. -/
theorem fake_notice_broadcast : (server Client).Run .empty fakeNotice ∧
    (∀ e ∈ fakeNotice, e.AddressKnown) ∧
    (∀ es, es <+: fakeNotice → ((server Client).exec .empty es).sessions (lit "2") = none) ∧
    ∃ msg members, .broadcast msg members ∈ ((server Client).exec .empty fakeNotice).out ∧
      msg.type = lit "OFFLINE" ∧ msg.deviceId = lit "2" := by
  refine ⟨⟨rfl, rfl, trivial⟩, ?_, ?_, ⟨_, _, .head _, rfl, rfl⟩⟩
  · simp [fakeNotice, Event.AddressKnown, Client.linkKeep, Client.ctx]
  · intro es hes
    apply sessions_of_no_linkKeepFor wellformed_empty rfl
    intro e he
    rcases List.mem_cons.mp (hes.subset he) with rfl | he
    · exact fun h => absurd h.2 (by decide)
    · rw [List.mem_singleton.mp he]
      exact fun h => absurd h.1 (by decide)

end NettyTcpWeb
