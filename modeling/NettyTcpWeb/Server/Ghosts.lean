import NettyTcpWeb.Server.Client
import NettyTcpWeb.Server.Registry

/-!
# Ghost sessions

A session is removed when the last of its channels is closed, and a closed channel is looked up
under its account. So a session outlives its channels if a channel has moved on to another account,
if the account is blank and the handler does not close it, or if the close is never reached because
the address of the closed channel is not known. If none of this happens, every session that is left
when all closed channels have been reported has an open channel.

## Main definitions

* `NoGhosts`: with all closed channels reported, every session has an open channel
* `LeavesGhost`: the events after which a session can outlive its channels
* `Tracked`: what the cleanup of a session relies on

## Main results

* `tracked_step`: an event that leaves no ghost keeps every session tracked
* `noGhosts_of_run`: **no ghost sessions** in a run without such events
-/

namespace NettyTcpWeb

open Java (Text lit isNotBlank)

variable {C : Type}

/-- Once all closed channels have been reported, every session has an open channel. -/
def NoGhosts (s : Server C) : Prop :=
  (∀ c, s.channel c ≠ .closed) →
    ∀ k S, s.sessions k = some S → ∃ c, S.Attached c ∧ s.channel c = .opened

/-- A login whose session is not found again when its channel is closed, a login on a channel that
another account reaches, and a closed channel of a session whose address is not known. -/
def LeavesGhost (s : Server C) : Event C → Prop
  | .message ctx _ m => m.type = lit "LK" ∧ s.account ctx.channel ≠ some m.deviceId ∧
      (ctx.remoteAddress ≠ none ∧ isNotBlank (some m.deviceId) = false ∨
        ∃ r, r ≠ m.deviceId ∧ s.Attached r ctx.channel)
  | .channelInactive ctx _ => ctx.remoteAddress = none ∧ ∃ r, s.Attached r ctx.channel
  | _ => False

/-- What the cleanup of a stored session relies on: its channels have its account until they are
reported, and are reported only when they leave it or when pages are left. -/
structure Tracked (s : Server C) (k : Text) (S : Session C) : Prop where
  nonblank : isNotBlank (some k) = true
  account : ∀ x, S.Attached x → s.channel x ≠ .inactive → s.account x = some k
  page : ∀ p ∈ S.sessions, s.channel p.2.session ≠ .inactive ∧ p.2.session ≠ S.session
  own : S.sessions = [] → s.channel S.session ≠ .inactive

/-- Every stored session is tracked. -/
def Server.Tracked (s : Server C) : Prop :=
  ∀ k S, s.sessions k = some S → NettyTcpWeb.Tracked s k S

theorem noGhosts_of_tracked {s : Server C} (hs : s.Tracked) : NoGhosts s := by
  intro hclosed k S hS
  have hopen : ∀ x, s.channel x ≠ .inactive → s.channel x = .opened := by
    intro x hx
    cases h : s.channel x with
    | opened => rfl
    | closed => exact absurd h (hclosed x)
    | inactive => exact absurd h hx
  cases hpages : S.sessions with
  | nil => exact ⟨S.session, .inl rfl, hopen _ ((hs k S hS).own hpages)⟩
  | cons p rest =>
    have hp : p ∈ S.sessions := hpages ▸ List.mem_cons_self
    exact ⟨p.2.session, .inr ⟨p, hp, rfl⟩, hopen _ ((hs k S hS).page p hp).1⟩

section Tracked

variable {s t : Server C} {k : Text} {S : Session C}

/-- A session stays tracked while no channel of it is reported or loses its account. -/
theorem Tracked.keep (h : Tracked s k S)
    (hchannel : ∀ x, S.Attached x → t.channel x = .inactive → s.channel x = .inactive)
    (hinactive : ∀ x, s.channel x = .inactive → t.channel x = .inactive)
    (haccount : ∀ x, S.Attached x → s.account x = some k → t.account x = some k) :
    Tracked t k S where
  nonblank := h.nonblank
  account x hx hne := haccount x hx (h.account x hx fun hs => hne (hinactive x hs))
  page p hp := ⟨fun ht => (h.page p hp).1 (hchannel _ (.inr ⟨p, hp, rfl⟩) ht), (h.page p hp).2⟩
  own hpages ht := h.own hpages (hchannel _ (.inl rfl) ht)

/-- What a close leaves of a tracked session is tracked if pages are left. -/
theorem Tracked.closing {nid : Text} {y : C} {S' : Session C} (h : Tracked s k S)
    (hclosing : S.closing nid = some (y, S')) (hpages : S'.sessions ≠ []) : Tracked s k S' := by
  rcases Session.closing_cases hclosing with ⟨-, rfl, -⟩ | ⟨-, -, page, -, -, rfl⟩
  · exact h
  · exact
      { nonblank := h.nonblank
        account := fun x hx => h.account x (hx.of_closing hclosing)
        page := fun p hp => h.page p (HashMap.mem_remove.mp hp).1
        own := fun hnil => absurd hnil hpages }

/-- A further page of a tracked session is tracked with it. -/
theorem Tracked.addSessions [Channel C] {new : Session C} {c : C} {now : Int} (h : Tracked s k S)
    (hnew : new.OfLogin c .websocket k) (haccount : s.account c = some k)
    (hactive : s.channel c ≠ .inactive) (hown : c ≠ S.session) :
    Tracked s k { S.addSessions new with updateTime := now } where
  nonblank := h.nonblank
  account x hx hne := by
    rcases Session.attached_addSessions.mp hx with rfl | rfl | ⟨p, hp, -, rfl⟩
    · exact h.account _ (.inl rfl) hne
    · rw [hnew.session, haccount]
    · exact h.account _ (.inr ⟨p, hp, rfl⟩) hne
  page p hp := by
    rcases HashMap.mem_put.mp hp with rfl | ⟨hp, -⟩
    · rw [hnew.session]
      exact ⟨hactive, hown⟩
    · exact h.page p hp
  own hnil := by cases hnil

variable [DecidableEq C] [Channel C]

/-- A login of a channel that no other account reaches. -/
theorem Server.Tracked.login {ctx : ChannelHandlerContext C} {source : Source} {d : Text}
    {msg : Model} (hs : s.Tracked) (hopen : s.channel ctx.channel = .opened)
    (hblank : s.account ctx.channel ≠ some d → ctx.remoteAddress ≠ none →
      isNotBlank (some d) = true)
    (hfree : s.account ctx.channel ≠ some d → ∀ r, r ≠ d → ¬ s.Attached r ctx.channel)
    (h : Login s ctx source d msg t) : t.Tracked := by
  intro k S hS
  have hkeep : ∀ {S}, s.sessions k = some S → NettyTcpWeb.Tracked t k S := by
    intro S hS'
    refine (hs k S hS').keep (fun x _ => h.channel ▸ id) (fun x => h.channel ▸ id) ?_
    intro x hx hxk
    rw [h.account]
    by_cases hxc : x = ctx.channel
    · subst hxc
      by_cases hk : k = d
      · subst hk
        exact Function.update_self _ _ _
      · have hne : s.account ctx.channel ≠ some d := by
          rw [hxk]
          exact fun he => hk (Option.some.inj he)
        exact absurd ⟨S, hS', hx⟩ (hfree hne k hk)
    · rwa [Function.update_of_ne hxc]
  by_cases hk : k = d
  · subst hk
    have haccount : t.account ctx.channel = some k := by
      rw [h.account]
      exact Function.update_self _ _ _
    rcases h.session_cases hS with hS | ⟨hne, haddr, hnew | ⟨S₀, new, now, hS₀, -, -, hnew, rfl⟩⟩
    · exact hkeep hS
    · exact
        { nonblank := hblank hne haddr
          account := fun x hx _ => by rw [hnew.attached_iff.mp hx, haccount]
          page := by simp [hnew.sessions]
          own := fun _ => by rw [hnew.session, h.channel, hopen]; exact ChannelState.noConfusion }
    · have hactive : s.channel ctx.channel ≠ .inactive := by
        rw [hopen]
        exact ChannelState.noConfusion
      have hown : ctx.channel ≠ S₀.session := fun he =>
        hne ((hs k S₀ hS₀).account _ (.inl he) hactive)
      exact (hkeep hS₀).addSessions hnew haccount (h.channel ▸ hactive) hown
  · exact hkeep ((h.sessions_of_ne hk).symm.trans hS)

/-- A session behind an event that logs nobody in was tracked before it. -/
theorem tracked_before (hwf : s.Wellformed) (hs : s.Tracked) {e : Event C} (hLK : ¬ e.IsLinkKeep)
    {T : Session C} (hT : (step s e).sessions k = some T) : NettyTcpWeb.Tracked s k T := by
  obtain ⟨S, hS, rfl | ⟨nid, y, hclosing, hpages⟩⟩ := session_of_step hwf hLK hT
  · exact hs k _ hS
  · exact (hs k S hS).closing hclosing hpages

/-- When a closed channel of a session is reported, the session keeps it only as its own channel,
and only with pages. -/
theorem own_of_reported (hinj : Function.Injective (Channel.asShortText : C → Text))
    (hwf : s.Wellformed) (hs : s.Tracked) {ctx : ChannelHandlerContext C} {now : Clock}
    (hclosed : s.channel ctx.channel = .closed)
    (hknown : ¬ LeavesGhost s (.channelInactive ctx now)) {T : Session C}
    (hT : (step s (.channelInactive ctx now)).sessions k = some T)
    (hattached : T.Attached ctx.channel) : T.session = ctx.channel ∧ T.sessions ≠ [] := by
  have hactive : s.channel ctx.channel ≠ .inactive := by
    rw [hclosed]
    exact ChannelState.noConfusion
  have hk := (tracked_before hwf hs id hT).account _ hattached hactive
  obtain ⟨S, hS, hSc⟩ := attached_of_step hwf id ⟨T, hT, hattached⟩
  have hreach : ReachesClose s (.channelInactive ctx now) :=
    ⟨fun hnone => hknown ⟨hnone, k, S, hS, hSc⟩, hk ▸ (hs k S hS).nonblank⟩
  rcases step_closing_of_some hwf hreach hk hS with ⟨hnone, -⟩ | ⟨y, S', hclosing, hkind⟩
  · exact absurd hSc ((hwf k S hS).not_attached hnone)
  rcases hkind with ⟨hpages, ht⟩ | ⟨-, -, -, -, -, -, ht⟩
  · have hS' : Function.update s.sessions k (some S') k = some T := by
      rw [← hT, ht.sessions, ← meets_sessions s (.channelInactive ctx now)]
      rfl
    obtain rfl : S' = T := Option.some.inj ((Function.update_self k _ _).symm.trans hS')
    refine ⟨?_, hpages⟩
    have hws : S.source = .websocket := by
      refine Source.eq_websocket fun hsocket => hpages ?_
      exact ((hwf k S hS).closing hclosing).socket
        ((Session.source_of_closing hclosing).trans hsocket)
    obtain ⟨-, ⟨hown, rfl⟩ | ⟨-, -, hleft⟩⟩ := (hwf k S hS).closing_websocket hinj hws hclosing
    · exact hown.symm
    · rcases hattached with hown | ⟨p, hp, hpc⟩
      · exact hown.symm
      · exact absurd hpc.symm ((hleft p).mp hp).2
  · have hgone : Function.update s.sessions k none k = some T := by
      rw [← hT, ht.sessions, ← meets_sessions s (.channelInactive ctx now)]
      rfl
    exact absurd rfl (HashMap.update_none_iff.mp hgone).1

/-- An event that leaves no ghost keeps every session tracked. -/
theorem tracked_step (hinj : Function.Injective (Channel.asShortText : C → Text))
    (hwf : s.Wellformed) (hs : s.Tracked) {e : Event C} (he : Enabled s e)
    (hghost : ¬ LeavesGhost s e) : (step s e).Tracked := by
  by_cases hLK : e.IsLinkKeep
  · obtain ⟨ctx, now, m, s₀, rfl, hm, hs₀, -, hlogin⟩ := hLK.exists_login hwf
    have hs₀' : s₀.Tracked := by
      intro k S hS
      refine (hs k S (hs₀.sessions ▸ hS)).keep (fun x _ => ?_) (fun x => ?_) fun x _ => ?_
      · rw [hs₀.channel]; exact id
      · rw [hs₀.channel]; exact id
      · rw [hs₀.account]; exact id
    refine hs₀'.login (by rw [hs₀.channel]; exact he) ?_ ?_ hlogin
    · intro hne haddr
      rw [hs₀.account] at hne
      by_contra hblank
      exact hghost ⟨hm, hne, .inl ⟨haddr, Bool.eq_false_iff.mpr hblank⟩⟩
    · rintro hne r hr ⟨S, hS, hx⟩
      rw [hs₀.account] at hne
      exact hghost ⟨hm, hne, .inr ⟨r, hr, S, hs₀.sessions ▸ hS, hx⟩⟩
  · intro k T hT
    have hT₀ := tracked_before hwf hs hLK hT
    have hreported : ∀ x, T.Attached x → (step s e).channel x = .inactive →
        s.channel x ≠ .inactive → x = T.session ∧ T.sessions ≠ [] := by
      intro x hx hin hne
      rcases (step_inactive_iff hwf).mp hin with h | ⟨ctx, now, rfl, rfl⟩
      · exact absurd h hne
      · obtain ⟨hown, hpages⟩ := own_of_reported hinj hwf hs he hghost hT hx
        exact ⟨hown.symm, hpages⟩
    have hin : ∀ x, s.channel x = .inactive → (step s e).channel x = .inactive :=
      fun x hx => (step_inactive_iff hwf).mpr (.inl hx)
    exact
      { nonblank := hT₀.nonblank
        account := fun x hx hne => by
          rw [account_of_step hwf hLK]
          exact hT₀.account x hx fun hs => hne (hin x hs)
        page := fun p hp => by
          refine ⟨fun hp' => ?_, (hT₀.page p hp).2⟩
          exact (hT₀.page p hp).2 (hreported _ (.inr ⟨p, hp, rfl⟩) hp' (hT₀.page p hp).1).1
        own := fun hnil hown => (hreported _ (.inl rfl) hown (hT₀.own hnil)).2 hnil }

end Tracked

/-- **No ghost sessions**: in every run without an event that leaves a ghost, every session has an
open channel whenever all closed channels have been reported. -/
theorem noGhosts_of_run {C : Type} [DecidableEq C] [Channel C]
    (hinj : Function.Injective (Channel.asShortText : C → Text)) {es : List (Event C)}
    (hrun : (server C).Run .empty es)
    (hes : (server C).Along (fun s e => ¬ LeavesGhost s e) .empty es) :
    (server C).Throughout NoGhosts .empty es := by
  have hkept : (server C).Throughout (fun s => s.Wellformed ∧ s.Tracked) .empty es := by
    refine hrun.throughout ⟨wellformed_empty, fun k S hS => by cases hS⟩ hes ?_
    intro s e ⟨hwf, hs⟩ he hghost
    exact ⟨hwf.step e, tracked_step hinj hwf hs he hghost⟩
  exact hkept.mono fun s hs => noGhosts_of_tracked hs.2

/-- A page logs in for some accounts, one after the other, and goes. -/
def pageLeaves (accounts : List Text) : List (Event Client) :=
  accounts.map (Client.page 0).linkKeep ++ [.disconnect (.page 0), (Client.page 0).gone]

theorem noGhosts_of_run_pageLeaves :
    (server Client).Throughout NoGhosts .empty (pageLeaves [lit "1"]) := by
  refine noGhosts_of_run Client.asShortText_injective ⟨rfl, rfl, rfl, trivial⟩ ⟨?_, id, ?_, trivial⟩
  · rintro ⟨-, -, ⟨-, hblank⟩ | ⟨r, -, S, hS, -⟩⟩
    · exact absurd hblank (by decide)
    · cases hS
  · exact fun h => nomatch h.1

/-- **A page leaves a ghost behind** if it has moved on from one account to another, or has logged
in for the blank account. -/
theorem ghost_of_pageLeaves :
    ((server Client).Run .empty (pageLeaves [lit "1", lit "2"]) ∧
      ¬ NoGhosts ((server Client).exec .empty (pageLeaves [lit "1", lit "2"]))) ∧
    ((server Client).Run .empty (pageLeaves [lit ""]) ∧
      ¬ NoGhosts ((server Client).exec .empty (pageLeaves [lit ""]))) := by
  refine ⟨⟨⟨rfl, rfl, rfl, rfl, trivial⟩, fun h => ?_⟩, ⟨rfl, rfl, rfl, trivial⟩, fun h => ?_⟩
  · obtain ⟨c, rfl | ⟨p, hp, -⟩, hopen⟩ := h (by rintro (n | _ | n) hc <;> cases hc) (lit "1") _ rfl
    · cases hopen
    · cases hp
  · obtain ⟨c, rfl | ⟨p, hp, -⟩, hopen⟩ := h (by rintro (n | _ | n) hc <;> cases hc) (lit "") _ rfl
    · cases hopen
    · cases hp

end NettyTcpWeb
