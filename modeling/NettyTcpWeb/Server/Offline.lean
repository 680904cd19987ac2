import NettyTcpWeb.Server.Client
import NettyTcpWeb.Server.Registry

/-!
# When an account goes offline

The close of a channel may take the account of the channel off the map and report it as offline. A
WebSocket account goes when its session is left without pages. The session's own channel is no page,
so it can still be open then. And a channel that another login has displaced is still closed at the
session of its account: this does no harm to a WebSocket session, which has nothing under the short
id of the channel, but it ends a TCP session.

## Main definitions

* `ReportsOffline`: what the server writes when an account has gone
* `OfflineWhenAllGone`, `ClosesLastPage`: the account goes only with its last open channel, and the
  closes in which it does not

## Main results

* `offlineWhenAllGone_iff`: **a WebSocket account goes with its last open channel**, unless its last
  page is closed while the session's own channel is open
* `stale_close_iff`: **closing a displaced channel** spares exactly the WebSocket sessions
-/

namespace NettyTcpWeb

open Java (Text lit)

variable {C : Type} [DecidableEq C] [Channel C]

/-! ## The last page -/

/-- The group is sent the notice that the account is offline. -/
def ReportsOffline (s : Server C) (a : Text) : Prop :=
  ∃ now msg members, getOffLineStateMsg now a = .ok msg ∧ .broadcast msg members ∈ s.out

/-- If the close of a channel takes a WebSocket account off the map and reports it as offline, then
no other channel attached to the account is open. -/
def OfflineWhenAllGone (s : Server C) (e : Event C) : Prop :=
  ReachesClose s e → ∀ a S, s.sessions a = some S → S.source = .websocket →
    (step s e).sessions a = none → ReportsOffline (step s e) a →
      ∀ x, S.Attached x → x ≠ e.channel → (step s e).channel x ≠ .opened

/-- The channel that is closed is the only page of a session whose own channel is another one, and
still open. -/
def ClosesLastPage (s : Server C) (e : Event C) : Prop :=
  ReachesClose s e ∧ ∃ a S, s.account e.channel = some a ∧ s.sessions a = some S ∧
    S.source = .websocket ∧ (∃ p ∈ S.sessions, p.2.session = e.channel) ∧
    (∀ p ∈ S.sessions, p.2.session = e.channel) ∧
    S.session ≠ e.channel ∧ s.channel S.session = .opened

section LastPage

variable {s : Server C} {e : Event C}

theorem offlineWhenAllGone_step (hinj : Function.Injective (Channel.asShortText : C → Text))
    (hwf : s.Wellformed) : OfflineWhenAllGone s e ↔ ¬ ClosesLastPage s e := by
  constructor
  · rintro h ⟨hreach, a, S, ha, hS, hws, ⟨p, hp, hpc⟩, honly, hne, hopen⟩
    have hsession := meets_channel_of_ne s e hne
    rcases step_closing_of_some hwf hreach ha hS with ⟨hnone, -⟩ | ⟨y, S', hclosing, hkind⟩
    · exact (Session.closing_eq_none hnone).2.2 p hp (by rw [((hwf a S hS).page p hp).1, hpc])
    obtain ⟨rfl, ⟨hown, -⟩ | ⟨-, -, hleft⟩⟩ := (hwf a S hS).closing_websocket hinj hws hclosing
    · exact hne hown.symm
    rcases hkind with ⟨hpages, -⟩ | ⟨-, now, msg, members, hmsg, hout, ht⟩
    · refine hpages (List.eq_nil_iff_forall_not_mem.mpr fun q hq => ?_)
      exact ((hleft q).mp hq).2 (honly q ((hleft q).mp hq).1)
    · refine h hreach a S hS hws ?_ ⟨now, msg, members, hmsg, hout⟩ S.session (.inl rfl) hne ?_
      · simp [ht.sessions]
      · simp [ht.channel, Function.update_of_ne hne, hsession, hopen]
  · rintro hlast hreach a S hS hws hgone - x hx hne hopen
    have ha : s.account e.channel = some a := by
      by_contra ha
      simp [step_closing_sessions_of_ne hwf hreach ha, hS] at hgone
    rcases step_closing_of_some hwf hreach ha hS with ⟨-, ht⟩ | ⟨y, S', hclosing, hkind⟩
    · simp [ht.sessions, hS] at hgone
    rcases hkind with ⟨-, ht⟩ | ⟨hpages, now, msg, members, -, -, ht⟩
    · simp [ht.sessions] at hgone
    obtain ⟨-, ⟨hown, rfl⟩ | ⟨hown, hpage, hleft⟩⟩ :=
      (hwf a S hS).closing_websocket hinj hws hclosing
    · rcases hx with rfl | ⟨p, hp, -⟩
      · exact hne hown.symm
      · simp [hpages] at hp
    · have honly : ∀ p ∈ S.sessions, p.2.session = e.channel := by
        intro p hp
        by_contra hpc
        have hmem := (hleft p).mpr ⟨hp, hpc⟩
        simp [hpages] at hmem
      rcases hx with rfl | ⟨p, hp, rfl⟩
      · exact hlast ⟨hreach, a, S, ha, hS, hws, hpage, honly, hne, opened_of_step hwf hopen⟩
      · exact hne (honly p hp)

end LastPage

/-- **A WebSocket account goes with its last open channel**, in every run in which no close takes
the last page of a session while the session's own channel is open, and in no other run. -/
theorem offlineWhenAllGone_iff (hinj : Function.Injective (Channel.asShortText : C → Text))
    {es : List (Event C)} (hrun : (server C).Run .empty es) :
    (server C).Along OfflineWhenAllGone .empty es ↔
      (server C).Along (fun s e => ¬ ClosesLastPage s e) .empty es :=
  hrun.along_iff wellformed_empty (fun _ e hwf _ => hwf.step e) fun _ _ hwf _ =>
    offlineWhenAllGone_step hinj hwf

/-- Two pages log in as one account, and the second one goes. -/
def secondPageGone : List (Event Client) :=
  [(Client.page 0).linkKeep (lit "1"), (Client.page 1).linkKeep (lit "1"),
    .disconnect (Client.page 1), (Client.page 1).gone]

theorem secondPageGone_run : (server Client).Run .empty secondPageGone :=
  ⟨rfl, rfl, rfl, rfl, trivial⟩

theorem offlineWhenAllGone_iff_secondPageGone :
    (server Client).Along OfflineWhenAllGone .empty secondPageGone ↔
      (server Client).Along (fun s e => ¬ ClosesLastPage s e) .empty secondPageGone :=
  offlineWhenAllGone_iff Client.asShortText_injective secondPageGone_run

/-- **The account goes with its second page** while its first page is open. -/
theorem offline_with_open_page : (server Client).Run .empty secondPageGone ∧
    ¬ (server Client).Along OfflineWhenAllGone .empty secondPageGone := by
  refine ⟨secondPageGone_run, ?_⟩
  rintro ⟨-, -, -, h, -⟩
  refine h ⟨by decide, rfl⟩ (lit "1") _ rfl rfl rfl ⟨[], _, _, rfl, .head _⟩ (.page 0) (.inl rfl)
    ?_ rfl
  decide

/-! ## Displaced channels -/

/-- The events after which a channel is closed: it has been disconnected, or it is idle. -/
def Event.IsClosing : Event C → Prop
  | .channelInactive _ _ | .readerIdle _ _ => True
  | _ => False

omit [DecidableEq C] [Channel C] in
theorem Event.IsClosing.not_isLinkKeep {e : Event C} (he : e.IsClosing) : ¬ e.IsLinkKeep := by
  cases e with
  | message | writerIdle | disconnect => exact absurd he id
  | readerIdle | channelInactive => exact id

/-- **Closing a displaced channel** leaves the session of its account as it is, and closes no other
channel, if and only if the session is a WebSocket session or the event does not reach the close. -/
theorem stale_close_iff (hinj : Function.Injective (Channel.asShortText : C → Text)) {s : Server C}
    (hs : (server C).Reachable .empty s) {e : Event C} (he : e.IsClosing) {a : Text} {S : Session C}
    (ha : s.account e.channel = some a) (hS : s.sessions a = some S)
    (hstale : ¬ S.Attached e.channel) :
    ((step s e).sessions a = some S ∧
        ∀ x, x ≠ e.channel → (step s e).channel x = s.channel x) ↔
      S.source = .websocket ∨ ¬ ReachesClose s e := by
  have hwf := wellformed_of_reachable hs
  by_cases hreach : ReachesClose s e
  · rw [or_iff_left (not_not.mpr hreach)]
    rcases step_closing_of_some hwf hreach ha hS with ⟨hnone, ht⟩ | ⟨y, S', hclosing, hkind⟩
    · refine iff_of_true ⟨by rw [ht.sessions]; simpa using hS, fun x hx => ?_⟩
        (Session.closing_eq_none hnone).1
      rw [ht.channel]
      exact meets_channel_of_ne s e hx
    · have hsocket : S.source = .socket := by
        by_contra hsocket
        have hy := ((hwf a S hS).closing_websocket hinj (Source.eq_websocket hsocket) hclosing).1
        exact hstale (hy ▸ Session.attached_of_closing hclosing)
      refine iff_of_false ?_ (by simp [hsocket])
      rintro ⟨hkeep, -⟩
      rcases hkind with ⟨hpages, -⟩ | ⟨-, now, msg, members, -, -, ht⟩
      · exact hpages (((hwf a S hS).closing hclosing).socket
          ((Session.source_of_closing hclosing).trans hsocket))
      · simp [ht.sessions] at hkeep
  · refine iff_of_true ?_ (.inr hreach)
    have ht := step_quiet hwf he.not_isLinkKeep hreach
    refine ⟨by rw [ht.sessions]; simpa using hS, fun x hx => ?_⟩
    rw [ht.channel]
    exact meets_channel_of_ne s e hx

/-- A watch takes over the account of a page, which disconnects afterwards. -/
def pageTakenOver : List (Event Client) :=
  [(Client.page 0).linkKeep (lit "1"), (Client.watch 0).linkKeep (lit "1"),
    .disconnect (Client.page 0)]

/-- The server when the closed page is reported to its handler. -/
def takenOver : Server Client := (server Client).exec .empty pageTakenOver

theorem takenOver_reachable : (server Client).Reachable .empty takenOver :=
  ⟨pageTakenOver, ⟨rfl, rfl, rfl, trivial⟩, rfl⟩

theorem exists_takenOver_session : ∃ S, takenOver.sessions (lit "1") = some S ∧
    S.source = .socket ∧ ¬ S.Attached (Client.page 0) := by
  refine ⟨_, rfl, rfl, ?_⟩
  rintro (h | ⟨p, hp, -⟩)
  · exact absurd h (by decide)
  · cases hp

theorem stale_close_iff_takenOver : ∃ S, takenOver.sessions (lit "1") = some S ∧
    (((step takenOver (Client.page 0).gone).sessions (lit "1") = some S ∧
        ∀ x, x ≠ Client.page 0 →
          (step takenOver (Client.page 0).gone).channel x = takenOver.channel x) ↔
      S.source = .websocket ∨ ¬ ReachesClose takenOver (Client.page 0).gone) := by
  obtain ⟨S, hS, -, hstale⟩ := exists_takenOver_session
  exact ⟨S, hS, stale_close_iff (e := (Client.page 0).gone) Client.asShortText_injective
    takenOver_reachable trivial rfl hS hstale⟩

/-- **The page that has been displaced takes the watch with it.** -/
theorem stale_close_ends_session : (server Client).Reachable .empty takenOver ∧
    Enabled takenOver (Client.page 0).gone ∧
    takenOver.account (.page 0) = lit "1" ∧
    (∃ S, takenOver.sessions (lit "1") = some S ∧ ¬ S.Attached (Client.page 0)) ∧
    (step takenOver (Client.page 0).gone).sessions (lit "1") = none ∧
    takenOver.channel (.watch 0) = .opened ∧
    (step takenOver (Client.page 0).gone).channel (.watch 0) = .closed := by
  obtain ⟨S, hS, -, hstale⟩ := exists_takenOver_session
  exact ⟨takenOver_reachable, rfl, rfl, ⟨S, hS, hstale⟩, rfl, rfl, rfl⟩

end NettyTcpWeb
